import Sodl.Checkpoint.Ids

/-!
# One save or delete at a time

A call that runs alone is always up to date: what it read is what there is
(`Sodl.Checkpoint.Current`). So whatever fails in it, the store stays consistent, and only the file
of its own origin changes (`Sodl.Checkpoint.run_alone`). A call that returned has collected what it
had to: every blob is listed, or was there before.

What is listed and loaded from a store that is consistent, and where nothing fails, is what the
files say (`Sodl.Checkpoint.run_loadRegistry`, `Sodl.Checkpoint.Consistent.load`).
-/

namespace Sodl

open Effect

namespace CheckpointOp

open CheckpointTrail

/-- A call on its own, with no other call between its steps. -/
abbrev run (P : ArtifactPlatform) (store : CheckpointStore) (op : CheckpointOp)
    (s : CheckpointState) : Outcome SodlError CheckpointReply × CheckpointState :=
  (op.prog P store).run (CheckpointState.handle P) s

/-- The trail of a call on its own, from the replies it got in that run. -/
abbrev trail (P : ArtifactPlatform) (store : CheckpointStore) (op : CheckpointOp)
    (s : CheckpointState) : CheckpointTrail :=
  (op.prog P store).trail (CheckpointState.handle P) note s .start

end CheckpointOp

/-- The records of an origin, as they are read from its file: none without a file, and an error
where the file cannot be parsed. -/
def CheckpointState.records (P : ArtifactPlatform) (s : CheckpointState) (o : String) :
    Outcome SodlError (List CheckpointRecord) :=
  match s.registry.lookup (registryName o) with
  | none => .ok []
  | some text =>
    match text.parse P with
    | some g => .ok g.checkpoints
    | none => .err (.serialization ("parse checkpoint registry " ++ registryName o))

/-- The payload of a blob: it is looked up and decompressed, each of which can fail. -/
def CheckpointState.payload (P : ArtifactPlatform) (s : CheckpointState) (b : BlobId) :
    Outcome SodlError Bytes :=
  match s.blobs.lookup b with
  | none => .err .notFound
  | some compressed =>
    match P.decodeAll compressed with
    | .ok bytes => .ok bytes
    | .error err => .err (.compression ("decompress checkpoint payload: " ++ err))

/-- The store, where nothing fails any more, to be read from. -/
def CheckpointState.quiet (s : CheckpointState) : CheckpointState :=
  { s with faults := fun _ => none }

namespace Checkpoint

open CheckpointTrail CheckpointStore

/-- What a call that runs alone has learned is so, only one file is another than it was, and the
blobs that are there are listed, were there before (`old`), or are the call's own affair. -/
structure Current (P : ArtifactPlatform) (old : BlobId → Prop) (s₀ s : CheckpointState)
    (x : CheckpointTrail) : Prop where
  reads : ∀ name m, (name, m) ∈ x.reads → s.registry.lookup name = m
  names : ∀ names, x.names = some names → ∀ name ∈ s.registry, name ∈ names
  before : ∀ name m, (name, m) ∈ x.before → s₀.registry.lookup name = m
  saved : ∀ name g, x.written = some (name, g) → s.registry.lookup name = some g.toText
  others : ∀ name, (∀ g, x.written ≠ some (name, g)) →
    s.registry.lookup name = s₀.registry.lookup name
  gone : x.written.isSome = true → ∀ b ∈ x.gone, b ∉ s.blobs
  tidy : ∀ b ∈ s.blobs, old b ∨ (∃ name, ∃ t ∈ s.listed name, t.blobId = b) ∨ b ∈ x.checked ∨
    ∃ name g records, x.written = some (name, g) ∧ Reads P x.before name records ∧
      ∃ r ∈ records, r.blobId = b

variable {P : ArtifactPlatform} {store : CheckpointStore} {op : CheckpointOp}
  {old : BlobId → Prop} {s₀ s : CheckpointState} {G : CheckpointFiles} {D : Set String}
  {x : CheckpointTrail} {c : CheckpointCall} {name : String} {g : CheckpointRegistry}

/-- A call that has just begun knows nothing, and all blobs are listed or were there before. -/
theorem Current.start (hs : ∀ b ∈ s.blobs, old b ∨ ∃ name, ∃ t ∈ s.listed name, t.blobId = b) :
    Current P old s s .start where
  reads := nofun
  names := nofun
  before := nofun
  saved := nofun
  others _ _ := rfl
  gone := nofun
  tidy b hb := (hs b hb).imp_right Or.inl

/-- What was read since the write is what is listed, as no other call writes. -/
theorem Current.listed (hcur : Current P old s₀ s x) {records : List CheckpointRecord}
    (hreads : Reads P x.reads name records) : s.listed name = records.map (·.toCheckpointFields) :=
  listed_of_reads hreads fun m hm => hcur.reads name m hm

/-- **A call that runs alone is up to date**: what it read is what is there, and there is no one
else to count on a blob. -/
theorem Current.upToDate (hc : Consistent P s G [x]) (hcur : Current P old s₀ s x)
    (hmay : May P store op x c) : UpToDate s [] x c := by
  cases c with
  | writeRegistry name g => exact fun m hm => hcur.reads name m hm
  | deleteBlob b =>
    obtain ⟨-, referenced, ⟨names, hnames, hall⟩, hb⟩ := hmay
    refine ⟨fun name t ht hid => hb ?_, nofun⟩
    rcases hl : s.registry.lookup name with _ | text
    · rw [CheckpointState.listed, hl] at ht
      exact absurd ht List.not_mem_nil
    · have hname : name ∈ s.registry := Table.mem_iff_exists_lookup.mpr ⟨text, hl⟩
      obtain ⟨text', g, hread, hg, hids⟩ :=
        hall name (hcur.names names hnames name hname) (hc.json name hname)
      obtain rfl : text' = text := Option.some.inj ((hcur.reads _ _ hread).symm.trans hl)
      rw [listed_of_parse hl hg] at ht
      obtain ⟨r, hr, rfl⟩ := List.mem_map.mp ht
      rw [← hid]
      exact hids _ (List.mem_map_of_mem hr)
  | _ => trivial

/-! ### What a call does to what is known -/

/-- The clock, the ids and the errors that are to come do not matter, nor what the trail says of
compressed bytes and ids. -/
theorem Current.congr {t : CheckpointState} {x' : CheckpointTrail} (hcur : Current P old s₀ s x)
    (hregistry : t.registry = s.registry) (hblobs : t.blobs = s.blobs)
    (hx : x' = { x with encoded := x'.encoded, drawn := x'.drawn }) : Current P old s₀ t x' := by
  have hlisted : ∀ name, t.listed name = s.listed name := fun name => by
    rw [CheckpointState.listed, CheckpointState.listed, hregistry]
  rw [hx]
  refine ⟨?_, ?_, hcur.before, ?_, ?_, ?_, ?_⟩
  · rw [hregistry]
    exact hcur.reads
  · rw [hregistry]
    exact hcur.names
  · rw [hregistry]
    exact hcur.saved
  · rw [hregistry]
    exact hcur.others
  · rw [hblobs]
    exact hcur.gone
  · simp only [hblobs, hlisted]
    exact hcur.tidy

/-- A call that a method may make, where nothing fails, leaves what is known. -/
theorem Current.answer (hcur : Current P old s₀ s x) (hmay : May P store op x c) :
    Current P old s₀ (CheckpointState.answer P c s).2
      (note x c (CheckpointState.answer P c s).1) := by
  cases c with
  | readRegistry name =>
    refine { hcur with reads := fun name' m hm => ?_ }
    rcases List.mem_cons.mp hm with he | hm
    · obtain ⟨rfl, rfl⟩ := Prod.mk.inj he
      rfl
    · exact hcur.reads name' m hm
  | writeRegistry name g =>
    obtain ⟨hwritten, hname, records, hreads, hedits⟩ := hmay
    refine ⟨nofun, nofun, fun name' m hm => ?_, fun name' g' hg' => ?_, fun name' hne => ?_,
      nofun, fun b hb => ?_⟩
    · rw [← hcur.others name' (by rw [hwritten]; exact nofun)]
      exact hcur.reads name' m hm
    · obtain ⟨rfl, rfl⟩ := Prod.mk.inj (Option.some.inj hg')
      exact Table.lookup_insert_self ..
    · have hn : name' ≠ name := fun hn => hne g (by rw [hn]; rfl)
      rw [← hcur.others name' (by rw [hwritten]; exact nofun)]
      exact Table.lookup_insert_ne hn
    · rcases hcur.tidy b hb with hold | ⟨name', t, ht, hid⟩ | hchecked | ⟨_, _, _, hw, -, -⟩
      · exact Or.inl hold
      · by_cases hn : name' = name
        · -- what was listed in the file was read
          subst hn
          rw [hcur.listed hreads] at ht
          obtain ⟨r, hr, rfl⟩ := List.mem_map.mp ht
          exact Or.inr (Or.inr (Or.inr ⟨name', g, records, rfl, hreads, r, hr, hid⟩))
        · refine Or.inr (Or.inl ⟨name', t, ?_, hid⟩)
          show t ∈ (s.saving name g).listed name'
          rwa [listed_saving_ne hn]
      · exact Or.inr (Or.inr (Or.inl hchecked))
      · rw [hwritten] at hw
        exact absurd hw (by simp)
  | readDir =>
    refine { hcur with names := fun names hnames name hname => ?_ }
    obtain rfl := Option.some.inj hnames
    exact AList.mem_keys.mpr hname
  | hasBlob b =>
    rcases hl : s.blobs.lookup b with _ | data
    · simp only [CheckpointState.answer, hl]
      have habsent : b ∉ s.blobs := fun hmem => by
        obtain ⟨data, hd⟩ := Table.mem_iff_exists_lookup.mp hmem
        exact absurd (hl.symm.trans hd) (by simp)
      exact { hcur with gone := fun hw => List.forall_mem_cons.mpr ⟨habsent, hcur.gone hw⟩ }
    · simp only [CheckpointState.answer, hl]
      show Current P old s₀ s (x.looked b true)
      rw [looked, if_pos rfl]
      split
      · exact hcur
      · refine { hcur with tidy := fun b' hb' => ?_ }
        exact (hcur.tidy b' hb').imp_right (Or.imp_right (Or.imp_left (List.mem_cons_of_mem _)))
  | putBlob b data =>
    have hnone : x.written = none := hmay.1
    have hgone : ∀ {P : Prop}, x.written.isSome = true → P := fun h => by
      rw [hnone] at h
      exact absurd h Bool.false_ne_true
    have htidy : ∀ b' ∈ (CheckpointState.answer P (.putBlob b data) s).2.blobs,
        b' = b ∨ b' ∈ s.blobs := by
      intro b' hb'
      simp only [CheckpointState.answer] at hb'
      split at hb'
      · exact Or.inr hb'
      · exact Table.mem_insert.mp hb'
    have hsame : (CheckpointState.answer P (.putBlob b data) s).2.registry = s.registry := by
      simp only [CheckpointState.answer]
      split <;> rfl
    have hlisted : ∀ name, (CheckpointState.answer P (.putBlob b data) s).2.listed name =
        s.listed name := fun name => by
      rw [CheckpointState.listed, CheckpointState.listed, hsame]
    refine ⟨?_, ?_, hcur.before, ?_, ?_, hgone, fun b' hb' => ?_⟩
    · rw [hsame]
      exact hcur.reads
    · rw [hsame]
      exact hcur.names
    · rw [hsame]
      exact hcur.saved
    · rw [hsame]
      exact hcur.others
    · simp only [hlisted]
      rcases htidy b' hb' with rfl | hb'
      · exact Or.inr (Or.inr (Or.inl (List.mem_cons_self ..)))
      · exact (hcur.tidy b' hb').imp_right
          (Or.imp_right (Or.imp_left (List.mem_cons_of_mem _)))
  | getBlob b =>
    simp only [CheckpointState.answer]
    split <;> exact hcur
  | deleteBlob b =>
    have hsub : ∀ b' ∈ s.blobs.erase b, b' ∈ s.blobs ∧ b' ≠ b := by
      intro b' hb'
      obtain ⟨data, hl⟩ := Table.mem_iff_exists_lookup.mp hb'
      obtain ⟨hne, hl⟩ := Table.lookup_of_lookup_erase hl
      exact ⟨Table.mem_iff_exists_lookup.mpr ⟨data, hl⟩, hne⟩
    refine ⟨hcur.reads, hcur.names, hcur.before, hcur.saved, hcur.others, fun hw =>
      List.forall_mem_cons.mpr ⟨fun hmem => (hsub b hmem).2 rfl, fun b' hb' hmem => ?_⟩,
      fun b' hb' => hcur.tidy b' (hsub b' hb').1⟩
    exact hcur.gone hw b' hb' (hsub b' hmem).1
  | encode data level =>
    simp only [CheckpointState.answer]
    split <;> exact hcur.congr rfl rfl rfl
  | decode data =>
    simp only [CheckpointState.answer]
    split <;> exact hcur
  | newId => exact hcur.congr rfl rfl rfl
  | nowUtc => exact hcur.congr rfl rfl rfl

/-- A call that a method may make, which may fail, leaves what is known. -/
theorem Current.step (hcur : Current P old s₀ s x) (hmay : May P store op x c) :
    Current P old s₀ (CheckpointState.handle P c s).2
      (note x c (CheckpointState.handle P c s).1) := by
  rcases handle_cases P c s with ⟨e, hr, hs⟩ | ⟨f, hf⟩
  · have hno : ∀ a, (CheckpointState.handle P c s).1 ≠ .ok a := fun a ha =>
      absurd (hr.symm.trans ha) (by simp)
    rw [note_of_not_ok hno, hs]
    exact hcur.congr rfl rfl rfl
  · rw [hf]
    exact Current.answer (s := { s with faults := f }) (hcur.congr rfl rfl rfl) hmay

/-! ### A whole call -/

/-- A store with no call under way is consistent with one that has just begun. -/
theorem Consistent.start (hc : Consistent P s G []) : Consistent P s G [.start] := by
  refine { hc with pending := fun y hy => ?_, encoded := fun y hy => ?_ }
  · obtain rfl := List.mem_singleton.mp hy
    exact nofun
  · obtain rfl := List.mem_singleton.mp hy
    exact nofun

/-- A call that has ended can be forgotten. -/
theorem Consistent.finish (hc : Consistent P s G [x]) : Consistent P s G [] :=
  { hc with pending := nofun, encoded := nofun }

/-- The ids are fresh with one call that has drawn none. -/
theorem Fresh.start (hf : Fresh s D []) : Fresh s D [.start] := by
  refine
    { hf with
      ahead := fun n => ⟨(hf.ahead n).1, (hf.ahead n).2.1, fun y hy => ?_⟩
      pending := fun y hy => ?_
      apart := List.pairwise_singleton .. }
  · obtain rfl := List.mem_singleton.mp hy
    exact List.not_mem_nil
  · obtain rfl := List.mem_singleton.mp hy
    exact nofun

/-- The ids are fresh without a call that has ended. -/
theorem Fresh.finish (hf : Fresh s D [x]) : Fresh s D [] :=
  { hf with
    ahead := fun n => ⟨(hf.ahead n).1, (hf.ahead n).2.1, nofun⟩
    pending := nofun
    apart := List.Pairwise.nil }

/-- **A call on its own**, whatever fails in it: the store is consistent with what the call has
written, its ids are fresh, what the call knows is so, and the call ends as it should. -/
theorem run_alone (store : CheckpointStore) (op : CheckpointOp) (hzstd : P.ZstdRoundTrips)
    (hc : Consistent P s G []) (hf : Fresh s D [])
    (hs : ∀ b ∈ s.blobs, old b ∨ ∃ name, ∃ t ∈ s.listed name, t.blobId = b) :
    Consistent P (op.run P store s).2 (op.after store G (op.trail P store s)) [] ∧
      Fresh (op.run P store s).2 (op.retired D (op.trail P store s)) [] ∧
      Current P old s (op.run P store s).2 (op.trail P store s) ∧
      op.Finishes P store (op.trail P store s) (op.run P store s).1 := by
  have hrun := Prog.Guided.run (h := CheckpointState.handle P)
    (J := fun s' x => Consistent P s' (op.after store G x) [x] ∧ Fresh s' (op.retired D x) [x] ∧
      Current P old s s' x)
    (fun s' x c hJ hmay => ?_)
    (op.guided : (op.prog P store).Guided (watch P store op) (op.Finishes P store) .start)
    ⟨hc.start, hf.start, Current.start hs⟩
  · exact ⟨hrun.1.1.finish, hrun.1.2.1.finish, hrun.1.2.2, hrun.2⟩
  · obtain ⟨hc', hf', hcur⟩ := hJ
    have hsound := hcur.upToDate hc' hmay
    obtain ⟨hreply, hc''⟩ := hc'.step hzstd hmay hsound
    have hf'' := hf'.step hmay hsound
    rw [afterCall_after hmay] at hc''
    rw [retiredBy_retired hmay] at hf''
    exact ⟨hreply, hc'', hf'', hcur.step hmay⟩

/-- The records of an origin are read from its file only. -/
theorem records_congr {t : CheckpointState} {o : String}
    (h : t.registry.lookup (registryName o) = s.registry.lookup (registryName o)) :
    t.records P o = s.records P o := by
  rw [CheckpointState.records, CheckpointState.records, h]

/-- What is read of a registry whose records come back is what was written. -/
theorem records_of_toText {o : String} (hl : s.registry.lookup (registryName o) = some g.toText)
    (h : ∀ r ∈ g.checkpoints, r.ComesBack P) : s.records P o = .ok g.checkpoints := by
  rw [CheckpointState.records, hl]
  simp only [CheckpointRegistry.parse_toText h]

/-- What was read before the write is what was there when the call began. -/
theorem Current.records (hcur : Current P old s₀ s x) {o : String}
    {records : List CheckpointRecord} (h : Reads P x.before (registryName o) records) :
    s₀.records P o = .ok records := by
  rw [CheckpointState.records]
  rcases h with ⟨hm, rfl⟩ | ⟨text, g, hm, hg, rfl⟩
  · rw [hcur.before _ _ hm]
  · rw [hcur.before _ _ hm]
    simp only [hg]

/-- The files that a call does not write are as they were. -/
theorem Current.others_of_written (hcur : Current P old s₀ s x) (hw : x.written = some (name, g)) :
    ∀ name', name' ≠ name → s.registry.lookup name' = s₀.registry.lookup name' := by
  intro name' hne
  refine hcur.others name' fun g' hg' => hne ?_
  rw [hw] at hg'
  exact (Prod.mk.inj (Option.some.inj hg')).1.symm

/-- What was read before the write was one thing. -/
theorem Current.reads_unique (hcur : Current P old s₀ s x)
    {records records' : List CheckpointRecord} (h : Reads P x.before name records)
    (h' : Reads P x.before name records') : records = records' := by
  rcases h with ⟨hm, rfl⟩ | ⟨text, g, hm, hg, rfl⟩
  · rcases h' with ⟨-, rfl⟩ | ⟨text', g', hm', -, -⟩
    · rfl
    · exact absurd ((hcur.before name _ hm).symm.trans (hcur.before name _ hm')) (by simp)
  · rcases h' with ⟨hm', -⟩ | ⟨text', g', hm', hg', rfl⟩
    · exact absurd ((hcur.before name _ hm).symm.trans (hcur.before name _ hm')) (by simp)
    · obtain rfl := Option.some.inj ((hcur.before name _ hm).symm.trans (hcur.before name _ hm'))
      rw [Option.some.inj (hg.symm.trans hg')]

/-- A blob that was collected, and is there, is listed: it was not deleted because a registry names
it. -/
theorem Current.listed_of_collected (hcur : Current P old s₀ s x)
    (hwritten : x.written.isSome = true)
    {b : BlobId} (hb : b ∈ s.blobs) (hcollected : Collected P x b) :
    ∃ name, ∃ t ∈ s.listed name, t.blobId = b := by
  rcases hcollected with hgone | ⟨name, text, g, hread, hg, hid⟩
  · exact absurd hb (hcur.gone hwritten b hgone)
  · obtain ⟨r, hr, rfl⟩ := List.mem_map.mp hid
    refine ⟨name, r.toCheckpointFields, ?_, rfl⟩
    rw [listed_of_parse (hcur.reads _ _ hread) hg]
    exact List.mem_map_of_mem hr

/-- **A call that returned leaves nothing behind**: a blob is listed, or was there before. -/
theorem Current.tidy_of_ok (hcur : Current P old s₀ s x) {reply : CheckpointReply}
    (hfin : op.Finishes P store x (.ok reply)) :
    ∀ b ∈ s.blobs, old b ∨ ∃ name, ∃ t ∈ s.listed name, t.blobId = b := by
  intro b hb
  rcases hcur.tidy b hb with hold | hlisted | hchecked | ⟨name, g, records, hw, hreads, r, hr, rfl⟩
  · exact Or.inl hold
  · exact Or.inr hlisted
  · -- a blob of the call itself is that of its record
    refine Or.inr ?_
    cases reply with
    | saved record =>
      obtain ⟨o, payload, request, -, hmade, honly, records, -, hw, -⟩ := hfin
      refine ⟨registryName o, record.toCheckpointFields, ?_, (honly b hchecked).symm⟩
      rw [listed_of_toText (hcur.saved _ _ hw)]
      have hlast := getLast?_keepNewest store records record
      exact List.mem_map_of_mem (List.mem_of_getLast? hlast)
    | deleted found =>
      obtain ⟨o, id, -, hend⟩ := hfin
      cases found with
      | true =>
        rw [hend.only] at hchecked
        exact absurd hchecked List.not_mem_nil
      | false =>
        rw [hend.2.1] at hchecked
        exact absurd hchecked List.not_mem_nil
  · -- a blob that was listed was collected, or is listed still
    refine Or.inr ?_
    have hlisted : r ∈ g.checkpoints → ∃ name, ∃ t ∈ s.listed name, t.blobId = r.blobId := by
      intro hmem
      refine ⟨name, r.toCheckpointFields, ?_, rfl⟩
      rw [listed_of_toText (hcur.saved _ _ hw)]
      exact List.mem_map_of_mem hmem
    have hcollected : Collected P x r.blobId →
        ∃ name, ∃ t ∈ s.listed name, t.blobId = r.blobId :=
      hcur.listed_of_collected (by rw [hw]; rfl) hb
    cases reply with
    | saved record =>
      obtain ⟨o, payload, request, -, -, -, records', hreads', hw', hall⟩ := hfin
      obtain ⟨rfl, rfl⟩ := Prod.mk.inj (Option.some.inj (hw.symm.trans hw'))
      obtain rfl := hcur.reads_unique hreads hreads'
      have hsplit := List.take_append_drop (store.excess (records ++ [record]).length)
        (records ++ [record])
      have hmem := List.mem_append_left [record] hr
      rw [← hsplit] at hmem
      rcases List.mem_append.mp hmem with hmem | hmem
      · exact hcollected (hall r hmem)
      · exact hlisted hmem
    | deleted found =>
      obtain ⟨o, id, -, hend⟩ := hfin
      cases found with
      | true =>
        obtain ⟨-, records', hreads', -, hw', hall⟩ := hend
        obtain ⟨rfl, rfl⟩ := Prod.mk.inj (Option.some.inj (hw.symm.trans hw'))
        obtain rfl := hcur.reads_unique hreads hreads'
        by_cases hid : r.checkpointId = id
        · exact hcollected (hall r hr hid)
        · exact hlisted (List.mem_filter.mpr ⟨hr, decide_eq_true hid⟩)
      | false =>
        rw [hend.1] at hw
        exact absurd hw (by simp)

/-! ### Reading where nothing fails -/

/-- Where nothing fails, a call does what it should. -/
theorem handle_of_quiet (hs : ∀ n, s.faults n = none) (c : CheckpointCall) :
    CheckpointState.handle P c s = CheckpointState.answer P c s := by
  rw [CheckpointState.handle]
  split
  · have hfaults : (fun n => s.faults (n + 1)) = s.faults :=
      funext fun n => (hs (n + 1)).trans (hs n).symm
    rw [hs 0, hfaults]
  · rfl

section Readers

variable (hs : ∀ n, s.faults n = none) (o : String)

include hs

/-- Where nothing fails, loading a registry gives the records of the origin, and changes nothing. -/
theorem run_loadRegistry :
    (loadRegistry P o).run (CheckpointState.handle P) s = (s.records P o, s) := by
  rw [loadRegistry, Prog.run_bind, Prog.run_perform, handle_of_quiet hs, CheckpointState.records]
  rcases hl : s.registry.lookup (registryName o) with _ | text
  · simp only [CheckpointState.answer, hl]
    rfl
  · simp only [CheckpointState.answer, hl]
    rw [parseRegistry]
    rcases text.parse P with _ | g <;> rfl

/-- What a reader does with the records it has loaded. -/
theorem run_loadRegistry_bind {α : Type} (f : List CheckpointRecord → CheckpointProg α) :
    (loadRegistry P o >>= f).run (CheckpointState.handle P) s = match s.records P o with
      | .ok records => (f records).run (CheckpointState.handle P) s
      | .err e => (.err e, s)
      | .panic => (.panic, s) := by
  rw [Prog.run_bind, run_loadRegistry hs]
  cases s.records P o <;> rfl

/-- Where nothing fails, `get_checkpoint` finds the record among those of the origin. -/
theorem run_getCheckpoint (id : Option String) :
    (getCheckpoint P o id).run (CheckpointState.handle P) s =
      (s.records P o >>= fun records => findRecord records id, s) := by
  rw [getCheckpoint, run_loadRegistry_bind hs]
  cases s.records P o <;> rfl

/-- Where nothing fails, `get_lineage` goes through the records of the origin from the one it
finds. -/
theorem run_getLineage (fuel : ℕ) (id : Option String) :
    (getLineage P fuel o id).run (CheckpointState.handle P) s =
      (s.records P o >>= fun records =>
        if records.isEmpty then .ok (some [])
        else findRecord records id >>= fun current =>
          .ok (lineageFrom records fuel current), s) := by
  rw [getLineage, run_loadRegistry_bind hs]
  rcases s.records P o with records | e | _
  · simp only [Outcome.ok_bind]
    split
    · rfl
    · rw [Prog.run_lift_bind]
      cases findRecord records id <;> rfl
  · rfl
  · rfl

/-- Where nothing fails, `load_checkpoint_bytes` finds the record and reads the payload of its
blob. -/
theorem run_loadCheckpointBytes (id : Option String) :
    (loadCheckpointBytes P o id).run (CheckpointState.handle P) s =
      (s.records P o >>= fun records => findRecord records id >>= fun record =>
        s.payload P record.blobId, s) := by
  rw [loadCheckpointBytes, run_loadRegistry_bind hs]
  rcases s.records P o with records | e | _
  · simp only [Outcome.ok_bind]
    rw [Prog.run_lift_bind]
    rcases findRecord records id with record | e | _
    · simp only [Outcome.ok_bind]
      rw [Prog.run_bind, Prog.run_perform, handle_of_quiet hs, CheckpointState.payload]
      rcases hl : s.blobs.lookup record.blobId with _ | z
      · simp only [CheckpointState.answer, hl]
      · simp only [CheckpointState.answer, hl]
        show CheckpointState.handle P (.decode z) s = _
        rw [handle_of_quiet hs]
        rfl
    · rfl
    · rfl
  · rfl
  · rfl

end Readers

/-- The payload of a checkpoint that is listed is what was saved under it. -/
theorem Consistent.payload (hcf : P.CollisionFree) {T : List CheckpointTrail}
    (hc : Consistent P s G T) {e : CheckpointFields × Bytes} (he : e ∈ G name) :
    s.payload P e.1.blobId = .ok e.2 := by
  obtain ⟨z, hz, hdec⟩ := hc.payloads name e he
  obtain ⟨z', hz'⟩ := Table.mem_iff_exists_lookup.mp (hc.named name e he)
  obtain rfl := computeBlobId_injective hcf ((hc.ids _ _ hz').trans hz.symm)
  rw [CheckpointState.payload, hz']
  simp only [hdec]

end Checkpoint

end Sodl
