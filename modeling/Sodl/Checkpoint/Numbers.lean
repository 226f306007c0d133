import Sodl.Checkpoint.Runs

/-!
# Numbers that cannot be listed again

A save writes the numbers of its request into the registry, and every later call reads them back.
What is listed is what was saved exactly if all its numbers and its metadata are read as they were
written (`Sodl.Checkpoint.Relisted`, `Sodl.CheckpointSaveRequest.ComesBack`). A loss that is not
finite is listed as no loss at all, and of the finite numbers some are read as a neighbour.

Worse, a metric that is not finite makes a registry that cannot be read, so that the save returns
and the checkpoint is never listed, found or loaded. What one such registry does to the other
origins is seen from what a call needs where nothing fails (`Sodl.Checkpoint.works_iff`). It has to
read the registry of its own origin, and those of all origins if it has blobs to collect
(`Sodl.CheckpointOp.Collects`): a delete that finds its checkpoint, and a save that evicts one. So
these two fail on every origin, and the other calls go through as before.
-/

namespace Sodl

open Effect

/-! ### What can be read -/

/-- The registry of a file is there, and can be read, so that a collection gets past it. -/
def CheckpointState.Readable (P : ArtifactPlatform) (s : CheckpointState) (name : String) : Prop :=
  ∃ text, s.registry.lookup name = some text ∧ (text.parse P).isSome = true

/-- All registries but one can be read, as far as the collection looks at their files. -/
def CheckpointState.OthersReadable (P : ArtifactPlatform) (s : CheckpointState) (name : String) :
    Prop :=
  ∀ name' ∈ s.registry, name' ≠ name → endsWith name' ".json" = true → s.Readable P name'

/-- A request that can be listed again: its metrics are finite, and its metadata can be read. -/
structure CheckpointSaveRequest.Readable (P : ArtifactPlatform) (request : CheckpointSaveRequest) :
    Prop where
  metrics : ∀ e ∈ request.metrics, e.2.isFinite = true
  metadata : (P.readValue request.metadata).isSome = true

/-- A request that comes back as it was can be read in the first place. -/
theorem CheckpointSaveRequest.ComesBack.readable {P : ArtifactPlatform}
    {request : CheckpointSaveRequest} (h : request.ComesBack P) : request.Readable P where
  metrics e he := (h.metrics e he).1
  metadata := by rw [h.metadata]; rfl

namespace CheckpointOp

/-- What a call saves can be listed again; a delete saves nothing. -/
def Readable (P : ArtifactPlatform) : CheckpointOp → Prop
  | save _ _ request => request.Readable P
  | delete _ _ => True

/-- The payload of a call can be compressed; a delete has none. -/
def Encodes (P : ArtifactPlatform) (store : CheckpointStore) : CheckpointOp → Prop
  | save _ payload _ => ∃ z, P.encodeAll payload store.compressionLevel = .ok z
  | delete _ _ => True

/-- A call has blobs to collect, by the records of its origin: a save that evicts a checkpoint, and
a delete that finds one. -/
def Collects (store : CheckpointStore) (records : List CheckpointRecord) : CheckpointOp → Prop
  | save _ _ _ => 0 < store.excess (records.length + 1)
  | delete _ id => ∃ r ∈ records, r.checkpointId = id

/-- A call goes through where nothing fails: it returns, and does not end in an error. -/
def Works (P : ArtifactPlatform) (store : CheckpointStore) (s : CheckpointState)
    (op : CheckpointOp) : Prop :=
  (op.run P store s.quiet).1.isOk = true

end CheckpointOp

namespace Checkpoint

open CheckpointTrail CheckpointStore

variable {P : ArtifactPlatform} {store : CheckpointStore} {op : CheckpointOp}
  {s s' t : CheckpointState} {G : CheckpointFiles} {D : Set String} {x : CheckpointTrail}
  {c : CheckpointCall} {name o : String} {g : CheckpointRegistry} {H : List CheckpointEvent}
  {records : List CheckpointRecord} {record : CheckpointRecord} {payload : Bytes}
  {request : CheckpointSaveRequest}

/-- Nothing will fail: the environment has no error in store for any call. -/
def Quiet (s : CheckpointState) : Prop := ∀ n, s.faults n = none

/-- Where nothing fails any more, nothing fails. -/
theorem quiet_quiet (s : CheckpointState) : Quiet s.quiet := fun _ => rfl

/-! ### Collecting where nothing fails -/

/-- Where nothing fails, a call does what it should. -/
theorem run_invoke (hs : Quiet s) (c : CheckpointCall) :
    (invoke c).run (CheckpointState.handle P) s = CheckpointState.answer P c s :=
  handle_of_quiet hs c

/-- What follows a call that ends in a value is run in the state after it. -/
theorem run_invoke_bind {α : Type} {f : c.Ret → CheckpointProg α} {a : c.Ret} (hs : Quiet s)
    (hc : CheckpointState.answer P c s = (.ok a, t)) :
    (invoke c >>= f).run (CheckpointState.handle P) s = (f a).run (CheckpointState.handle P) t :=
  Prog.run_bind_ok ((run_invoke hs c).trans hc)

/-- Reading some registries changes nothing, and goes through exactly if all of them can be read. -/
theorem run_referencedFrom (hs : Quiet s) (names : List String) :
    ((referencedFrom P names).run (CheckpointState.handle P) s).2 = s ∧
      (((referencedFrom P names).run (CheckpointState.handle P) s).1.isOk = true ↔
        ∀ name ∈ names, s.Readable P name) := by
  induction names with
  | nil => exact ⟨rfl, fun _ => List.forall_mem_nil _, fun _ => rfl⟩
  | cons name rest ih =>
    rw [referencedFrom, run_invoke_bind hs (a := s.registry.lookup name) rfl, List.forall_mem_cons]
    rcases hl : s.registry.lookup name with _ | text
    · refine ⟨rfl, fun h => absurd h Bool.false_ne_true, fun h => ?_⟩
      obtain ⟨text, htext, -⟩ := h.1
      exact absurd (hl.symm.trans htext) (by simp)
    · have hreadable : s.Readable P name ↔ (text.parse P).isSome = true := by
        constructor
        · rintro ⟨text', htext, h⟩
          rwa [Option.some.inj (hl.symm.trans htext)]
        · exact fun h => ⟨text, hl, h⟩
      rw [hreadable]
      rcases hparse : text.parse P with _ | g
      · simp only [parseRegistry, hparse]
        exact ⟨rfl, fun h => absurd h Bool.false_ne_true, fun h => absurd h.1 Bool.false_ne_true⟩
      · simp only [parseRegistry, hparse]
        rw [← ih.2]
        constructor
        · exact (congrArg Prod.snd (Prog.run_bind_pure _ _ s)).trans ih.1
        · show ((referencedFrom P rest >>= fun referenced =>
            pure (g.checkpoints.map (·.blobId) ++ referenced)).run _ s).1.isOk = true ↔ _
          rw [Prog.run_bind_pure, Outcome.isOk_bind_pure]
          exact ⟨fun h => ⟨rfl, h⟩, And.right⟩

/-- The collection takes away blobs that are not referenced, and does nothing else. -/
theorem run_gcFrom (referenced candidates : List BlobId) (hs : Quiet s) :
    ∃ n blobs, (gcFrom referenced candidates).run (CheckpointState.handle P) s =
        (.ok n, { s with blobs := blobs }) ∧
      ∀ b, blobs.lookup b = s.blobs.lookup b ∨ blobs.lookup b = none ∧ b ∉ referenced := by
  -- what the loop has made of the blobs
  let I : CheckpointState → Prop := fun t => ∃ blobs, t = { s with blobs := blobs } ∧
    ∀ b, blobs.lookup b = s.blobs.lookup b ∨ blobs.lookup b = none ∧ b ∉ referenced
  have hquiet : ∀ t, I t → Quiet t := by
    rintro t ⟨blobs, rfl, -⟩
    exact hs
  have hloop : Prog.Triple (CheckpointState.handle P) I (gcFrom referenced candidates)
      (fun _ => I) fun _ => False := by
    refine Prog.Triple.collect (fun b => Prog.Triple.perform fun t ht => ?_)
      fun b _ hb => Prog.Triple.perform fun t ht => ?_
    · exact ⟨_, t, handle_of_quiet (hquiet t ht) _, ht⟩
    · refine ⟨(), _, handle_of_quiet (hquiet t ht) _, ?_⟩
      obtain ⟨blobs, rfl, hblobs⟩ := ht
      refine ⟨blobs.erase b, rfl, fun b' => ?_⟩
      by_cases hbb : b' = b
      · rw [hbb]
        exact Or.inr ⟨Table.lookup_erase_self _ b, hb⟩
      · rw [Table.lookup_erase_ne hbb]
        exact hblobs b'
  obtain ⟨n, t, hrun, blobs, rfl, hblobs⟩ := hloop.returns ⟨s.blobs, rfl, fun _ => Or.inl rfl⟩
  exact ⟨n, blobs, hrun, hblobs⟩

/-- The collection goes through if there is nothing to collect, or all registries can be read. -/
theorem run_gcBlobIds (hs : Quiet s) (candidates : List BlobId) :
    ((gcBlobIds P candidates).run (CheckpointState.handle P) s).1.isOk = true ↔
      (candidates ≠ [] →
        ∀ name ∈ s.registry, endsWith name ".json" = true → s.Readable P name) := by
  rw [gcBlobIds]
  rcases candidates with _ | ⟨b, rest⟩
  · exact ⟨fun _ h => absurd rfl h, fun _ => rfl⟩
  · rw [if_neg (by simp), referencedBlobIds, Prog.bind_assoc,
      run_invoke_bind hs (a := s.registry.keys) rfl]
    obtain ⟨hstate, hok⟩ := run_referencedFrom (P := P) hs
      (s.registry.keys.filter fun name => endsWith name ".json")
    have hnames : (∀ name ∈ s.registry.keys.filter (fun name => endsWith name ".json"),
        s.Readable P name) ↔ (b :: rest ≠ [] → ∀ name ∈ s.registry, endsWith name ".json" = true →
          s.Readable P name) := by
      constructor
      · exact fun h _ name hname hend => h name (List.mem_filter.mpr ⟨hname, hend⟩)
      · intro h name hname
        obtain ⟨hname, hend⟩ := List.mem_filter.mp hname
        exact h (by simp) name hname hend
    rw [← hnames, ← hok, Prog.run_bind]
    rcases hrun : (referencedFrom P _).run (CheckpointState.handle P) s with ⟨r, s₁⟩
    rw [hrun] at hstate
    obtain rfl : s₁ = s := hstate
    cases r with
    | ok referenced =>
      obtain ⟨n, blobs, hgc, -⟩ := run_gcFrom (P := P) referenced (P.idOrder (b :: rest).dedup) hs
      refine ⟨fun _ => rfl, fun _ => ?_⟩
      show ((gcFrom referenced _).run (CheckpointState.handle P) s₁).1.isOk = true
      rw [hgc]
      rfl
    | err e => exact ⟨by rintro ⟨⟩, by rintro ⟨⟩⟩
    | panic => exact ⟨by rintro ⟨⟩, by rintro ⟨⟩⟩

/-! ### What a call needs -/

/-- What was read of an origin can be read again after it was written. -/
theorem readable_of_records (h : s.records P o = .ok records) : ∀ r ∈ records, r.Readable P := by
  rw [CheckpointState.records] at h
  split at h
  · obtain rfl := Outcome.ok.inj h
    exact List.forall_mem_nil _
  · split at h
    · rename_i hparse
      obtain rfl := Outcome.ok.inj h
      exact CheckpointRegistryText.readable_of_parse hparse
    · exact absurd h (by simp)

/-- The record of a save can be read exactly if its request can. -/
theorem readable_recordOf {z : Bytes} {id : String} {now : OffsetDateTime} :
    (recordOf P o payload request z id now).Readable P ↔ request.Readable P :=
  ⟨fun h => ⟨h.metrics, h.metadata⟩, fun h => ⟨h.metrics, h.metadata⟩⟩

/-- After a registry was written, all can be read if it and the others can. -/
theorem readable_saving_iff (hname : endsWith name ".json" = true) :
    (∀ name' ∈ (s.saving name g).registry, endsWith name' ".json" = true →
        (s.saving name g).Readable P name') ↔
      (∀ r ∈ g.checkpoints, r.Readable P) ∧ s.OthersReadable P name := by
  have hself : (s.saving name g).Readable P name ↔ (g.toText.parse P).isSome = true := by
    constructor
    · rintro ⟨text, htext, h⟩
      rwa [Option.some.inj ((Table.lookup_insert_self ..).symm.trans htext)]
    · exact fun h => ⟨g.toText, Table.lookup_insert_self .., h⟩
  have hother : ∀ name', name' ≠ name →
      ((s.saving name g).Readable P name' ↔ s.Readable P name') := by
    intro name' hne
    rw [CheckpointState.Readable, CheckpointState.Readable, CheckpointState.saving,
      Table.lookup_insert_ne hne]
  rw [← CheckpointRegistry.parse_toText_isSome_iff, ← hself]
  constructor
  · intro h
    refine ⟨h name (Table.mem_insert.mpr (Or.inl rfl)) hname, fun name' hname' hne hend => ?_⟩
    exact (hother name' hne).mp (h name' (Table.mem_insert.mpr (Or.inr hname')) hend)
  · rintro ⟨hread, hothers⟩ name' hname' hend
    by_cases hne : name' = name
    · exact hne ▸ hread
    · refine (hother name' hne).mpr (hothers name' ?_ hne hend)
      exact (Table.mem_insert.mp hname').resolve_left hne

/-- Where nothing fails, putting a blob returns and leaves the registries. -/
theorem run_putMissing (hs : Quiet s) (b : BlobId) (data : Bytes) :
    ∃ t, (putMissing b data).run (CheckpointState.handle P) s = (.ok (), t) ∧
      t.registry = s.registry ∧ Quiet t := by
  rw [putMissing, run_invoke_bind hs (a := (s.blobs.lookup b).isSome) rfl]
  split
  · exact ⟨s, rfl, rfl, hs⟩
  · rw [run_invoke hs]
    simp only [CheckpointState.answer]
    split
    · exact ⟨s, rfl, rfl, hs⟩
    · exact ⟨_, rfl, rfl, hs⟩

/-- The records that are kept by a save can be read if its own can. -/
theorem kept_readable_iff (hrecords : ∀ r ∈ records, r.Readable P) :
    (∀ r ∈ store.keepNewest (records ++ [record]), r.Readable P) ↔ record.Readable P := by
  constructor
  · exact fun h => h record (List.mem_of_getLast? (getLast?_keepNewest store records record))
  · intro h r hr
    rcases List.mem_append.mp (mem_of_keepNewest hr) with hr | hr
    · exact hrecords r hr
    · obtain rfl := List.mem_singleton.mp hr
      exact h

/-- A registry that was read is changed, written and collected from: this goes through exactly if
there is nothing to collect, or the new records and all other registries can be read. -/
theorem run_rewrite (hs : Quiet s) {α : Type} (a : α) (records' : List CheckpointRecord)
    (candidates : List BlobId) :
    ((do
      saveRegistry o records'
      let _ ← gcBlobIds P candidates
      pure a : CheckpointProg α).run (CheckpointState.handle P) s).1.isOk = true ↔
      (candidates ≠ [] → (∀ r ∈ records', r.Readable P) ∧
        s.OthersReadable P (registryName o)) := by
  have hwritten : Quiet (s.saving (registryName o) ⟨o, records'⟩) := hs
  rw [saveRegistry, run_invoke_bind hs (a := ()) rfl, Prog.run_bind_pure, Outcome.isOk_bind_pure]
  refine (run_gcBlobIds hwritten candidates).trans (forall_congr' fun _ => ?_)
  exact readable_saving_iff (endsWith_registryName o)

/-- A save has blobs to collect exactly if it evicts a checkpoint. -/
theorem evicted_ne_nil_iff :
    ((records ++ [record]).take (store.excess (records ++ [record]).length)).map (·.blobId) ≠ [] ↔
      0 < store.excess (records.length + 1) := by
  rw [List.length_append, List.length_singleton, ne_eq, List.map_eq_nil_iff,
    List.take_eq_nil_iff, Nat.pos_iff_ne_zero]
  simp

/-- **A save goes through**, where nothing fails, if its payload can be compressed and the registry
read; and if it evicts, its metrics are finite and the other registries can be read. -/
theorem save_works_iff : (CheckpointOp.save o payload request).Works P store s ↔
    (∃ z, P.encodeAll payload store.compressionLevel = .ok z) ∧
      ∃ records, s.records P o = .ok records ∧ (0 < store.excess (records.length + 1) →
        request.Readable P ∧ s.OthersReadable P (registryName o)) := by
  have hq := quiet_quiet s
  rw [CheckpointOp.Works, CheckpointOp.run, CheckpointOp.prog, Prog.run_bind_pure,
    Outcome.isOk_bind_pure, saveCheckpointBytes]
  rcases hz : P.encodeAll payload store.compressionLevel with err | z
  · have hanswer : CheckpointState.answer P (.encode payload store.compressionLevel) s.quiet =
        (.err (.compression ("compress checkpoint payload: " ++ err)), s.quiet) := by
      simp only [CheckpointState.answer, hz]
    rw [Prog.run_bind_err ((run_invoke hq _).trans hanswer)]
    exact ⟨fun h => absurd h Bool.false_ne_true, fun h => by simpa using h.1⟩
  · have hanswer : CheckpointState.answer P (.encode payload store.compressionLevel) s.quiet =
        (.ok z, s.quiet) := by
      simp only [CheckpointState.answer, hz]
    obtain ⟨t, hput, hreg, ht⟩ := run_putMissing (P := P) hq (P.blobId z) z
    rw [run_invoke_bind hq hanswer, Prog.run_bind_ok hput]
    -- the id and the time are drawn
    let t₁ : CheckpointState := { t with ids := fun n => t.ids (n + 1) }
    let t₂ : CheckpointState := { t₁ with clock := fun n => t.clock (n + 1) }
    have ht₁ : Quiet t₁ := ht
    have ht₂ : Quiet t₂ := ht
    have hid : CheckpointState.answer P .newId t = (.ok (t.ids 0), t₁) := rfl
    have hnow : CheckpointState.answer P .nowUtc t₁ = (.ok (t.clock 0), t₂) := rfl
    rw [run_invoke_bind ht hid, run_invoke_bind ht₁ hnow]
    dsimp only
    rw [run_loadRegistry_bind ht₂]
    have hrecords : t₂.records P o = s.records P o := by
      have hregistry : t₂.registry = s.registry := hreg
      rw [CheckpointState.records, CheckpointState.records, hregistry]
    have hothers : t₂.OthersReadable P (registryName o) ↔ s.OthersReadable P (registryName o) := by
      show (∀ name ∈ t.registry, _ → _ → ∃ text, t.registry.lookup name = _ ∧ _) ↔ _
      rw [hreg]
      rfl
    rw [hrecords]
    rcases hl : s.records P o with records | e | _
    · dsimp only
      rw [run_rewrite ht₂, hothers]
      have hkept : (∀ r ∈ store.keepNewest
          (records ++ [recordOf P o payload request z (t.ids 0) (t.clock 0)]), r.Readable P) ↔
          (recordOf P o payload request z (t.ids 0) (t.clock 0)).Readable P :=
        kept_readable_iff (readable_of_records hl)
      rw [keepNewest, readable_recordOf] at hkept
      rw [hkept, evicted_ne_nil_iff]
      constructor
      · exact fun h => ⟨⟨z, rfl⟩, records, rfl, h⟩
      · rintro ⟨-, _, hrecords, h⟩
        exact Outcome.ok.inj hrecords ▸ h
    · constructor
      · rintro ⟨⟩
      · rintro ⟨-, _, ⟨⟩, -⟩
    · constructor
      · rintro ⟨⟩
      · rintro ⟨-, _, ⟨⟩, -⟩

/-- **A delete goes through**, where nothing fails, if the registry can be read; and if it finds its
checkpoint, the other registries can be read. -/
theorem delete_works_iff {id : String} : (CheckpointOp.delete o id).Works P store s ↔
    ∃ records, s.records P o = .ok records ∧ ((∃ r ∈ records, r.checkpointId = id) →
      s.OthersReadable P (registryName o)) := by
  have hq := quiet_quiet s
  rw [CheckpointOp.Works, CheckpointOp.run, CheckpointOp.prog, Prog.run_bind_pure,
    Outcome.isOk_bind_pure, deleteCheckpoint, run_loadRegistry_bind hq]
  have hsame : s.quiet.records P o = s.records P o := rfl
  rw [hsame]
  rcases hl : s.records P o with records | e | _
  · dsimp only
    have hall : (∀ r ∈ records.filter fun r => r.checkpointId ≠ id, r.Readable P) ↔ True :=
      iff_true_intro fun r hr => readable_of_records hl r (List.mem_filter.mp hr).1
    have hfound : (records.filter fun r => r.checkpointId = id) ≠ [] ↔
        ∃ r ∈ records, r.checkpointId = id := by
      rw [ne_eq, List.filter_eq_nil_iff]
      simp
    split
    · rename_i hnil
      refine ⟨fun _ => ⟨records, rfl, fun h => ?_⟩, fun _ => rfl⟩
      exact absurd (List.isEmpty_iff.mp hnil) (hfound.mpr h)
    · rw [run_rewrite hq, hall, true_and, ne_eq, List.map_eq_nil_iff, ← ne_eq, hfound]
      exact ⟨fun h => ⟨records, rfl, h⟩, fun ⟨_, hrecords, h⟩ => Outcome.ok.inj hrecords ▸ h⟩
  · exact ⟨nofun, fun ⟨_, h, _⟩ => absurd h (by simp)⟩
  · exact ⟨nofun, fun ⟨_, h, _⟩ => absurd h (by simp)⟩

/-- **What a call needs** where nothing fails: a payload that can be compressed, a registry of its
origin that can be read, and, if it has blobs to collect, records that can be read everywhere. -/
theorem works_iff : op.Works P store s ↔ op.Encodes P store ∧
    ∃ records, s.records P op.originId = .ok records ∧ (op.Collects store records →
      op.Readable P ∧ s.OthersReadable P (registryName op.originId)) := by
  cases op with
  | save o payload request => exact save_works_iff
  | delete o id =>
    refine delete_works_iff.trans ⟨fun ⟨records, hl, h⟩ => ?_, fun ⟨_, records, hl, h⟩ => ?_⟩
    · exact ⟨trivial, records, hl, fun hfound => ⟨trivial, h hfound⟩⟩
    · exact ⟨records, hl, fun hfound => (h hfound).2⟩

/-! ### What a call writes -/

/-- Compression round trips, whatever fails. -/
theorem replies_handle (hzstd : P.ZstdRoundTrips) (c : CheckpointCall) (s : CheckpointState) :
    Replies P c (CheckpointState.handle P c s).1 := by
  rcases handle_cases P c s with ⟨e, hr, -⟩ | ⟨f, hf⟩
  · rw [hr]
    cases c <;> trivial
  · rw [hf]
    cases c with
    | encode data level =>
      rcases hl : P.encodeAll data level with err | z
      · simp only [CheckpointState.answer, hl]
        trivial
      · simp only [CheckpointState.answer, hl]
        exact hzstd _ _ _ hl
    | _ => trivial

/-- What a call does to the registries: it leaves them, or it is a write of one. -/
theorem registry_handle (P : ArtifactPlatform) (c : CheckpointCall) (s : CheckpointState) :
    (CheckpointState.handle P c s).2.registry = s.registry ∨ ∃ name g, c = .writeRegistry name g ∧
      (CheckpointState.handle P c s).2.registry = s.registry.insert name g.toText := by
  rcases handle_cases P c s with ⟨e, -, hs⟩ | ⟨f, hf⟩
  · exact Or.inl (by rw [hs])
  · rw [hf]
    cases c with
    | writeRegistry name g => exact Or.inr ⟨name, g, rfl, rfl⟩
    | putBlob b data =>
      refine Or.inl ?_
      simp only [CheckpointState.answer]
      split <;> rfl
    | _ => exact Or.inl rfl

/-- What a call may write can be read, if what it saves can. -/
theorem readable_of_edits (hop : op.Readable P) (hreads : Reads P x.reads name records)
    (hedits : Edits P store x op records g.checkpoints) :
    ∀ r ∈ g.checkpoints, r.Readable P := by
  have hrecords : ∀ r ∈ records, r.Readable P := by
    rcases hreads with ⟨-, rfl⟩ | ⟨text, g', -, hparse, rfl⟩
    · exact nofun
    · exact CheckpointRegistryText.readable_of_parse hparse
  cases op with
  | save o payload request =>
    obtain ⟨record, ⟨z, id, now, -, -, -, rfl⟩, hnew⟩ := hedits
    rw [hnew]
    exact (kept_readable_iff hrecords).mpr (readable_recordOf.mpr hop)
  | delete o id =>
    rw [hedits.2]
    exact fun r hr => hrecords r (List.mem_filter.mp hr).1

/-- What a call leaves of the registries: those of other files are as they were, and its own is as
it was or can be read, if what the call saves can. -/
structure Leaves (P : ArtifactPlatform) (op : CheckpointOp) (s₀ s : CheckpointState) : Prop where
  others : ∀ name, name ≠ registryName op.originId →
    s.registry.lookup name = s₀.registry.lookup name
  own : op.Readable P →
    s.registry.lookup (registryName op.originId) = s₀.registry.lookup (registryName op.originId) ∨
      s.Readable P (registryName op.originId)

/-- A call that a method may make leaves the other files, and its own as it was or readable. -/
theorem Leaves.step {s₀ : CheckpointState} (h : Leaves P op s₀ s) (hmay : May P store op x c) :
    Leaves P op s₀ (CheckpointState.handle P c s).2 := by
  rcases registry_handle P c s with hsame | ⟨name, g, rfl, hinsert⟩
  · exact ⟨fun name hne => by rw [hsame]; exact h.others name hne, fun hop => by
      rw [CheckpointState.Readable, hsame]
      exact h.own hop⟩
  · obtain ⟨-, rfl, records, hreads, hedits⟩ := hmay
    refine ⟨fun name hne => ?_, fun hop => Or.inr ⟨g.toText, ?_, ?_⟩⟩
    · rw [hinsert, Table.lookup_insert_ne hne]
      exact h.others name hne
    · rw [hinsert, Table.lookup_insert_self]
    · exact CheckpointRegistry.parse_toText_isSome_iff.mpr (readable_of_edits hop hreads hedits)

/-- **A call on its own** writes one registry only, whatever fails in it. -/
theorem run_leaves (store : CheckpointStore) (op : CheckpointOp) (hzstd : P.ZstdRoundTrips)
    (s : CheckpointState) : Leaves P op s (op.run P store s).2 := by
  have hrun := Prog.Guided.run (h := CheckpointState.handle P) (J := fun s' _ => Leaves P op s s')
    (fun s' x c hJ hmay => ⟨replies_handle hzstd c s', hJ.step hmay⟩)
    (op.guided : (op.prog P store).Guided (watch P store op) (op.Finishes P store) .start)
    (s := s) ⟨fun _ _ => rfl, fun _ => Or.inl rfl⟩
  exact hrun.1

/-- Whether the registry of a file can be read is told by the file. -/
theorem readable_congr (h : t.registry.lookup name = s.registry.lookup name) :
    t.Readable P name ↔ s.Readable P name := by
  rw [CheckpointState.Readable, CheckpointState.Readable, h]

/-- Whether there is a registry is told by its file. -/
theorem mem_registry_congr (h : t.registry.lookup name = s.registry.lookup name) :
    name ∈ t.registry ↔ name ∈ s.registry := by
  rw [Table.mem_iff_exists_lookup, Table.mem_iff_exists_lookup, h]

/-- **A call of finite metrics stops no other**: what goes through on an origin with another file
still does, however the call ended. -/
theorem works_of_leaves {op' : CheckpointOp} {store' : CheckpointStore} (h : Leaves P op s s')
    (hop : op.Readable P) (hne : registryName op'.originId ≠ registryName op.originId)
    (hworks : op'.Works P store' s) : op'.Works P store' s' := by
  obtain ⟨hencodes, records, hl, hcollects⟩ := works_iff.mp hworks
  refine works_iff.mpr ⟨hencodes, records, (records_congr (h.others _ hne)).trans hl, fun hc => ?_⟩
  obtain ⟨hfinite, hothers⟩ := hcollects hc
  refine ⟨hfinite, fun name hname hn hend => ?_⟩
  by_cases hown : name = registryName op.originId
  · subst hown
    rcases h.own hop with hsame | hread
    · rw [mem_registry_congr hsame] at hname
      exact (readable_congr hsame).mpr (hothers _ hname hn hend)
    · exact hread
  · have hsame := h.others name hown
    rw [mem_registry_congr hsame] at hname
    exact (readable_congr hsame).mpr (hothers name hname hn hend)

/-! ### Whole runs -/

/-- One call of some store: the settings of the store may change from call to call. -/
def AnyStep (P : ArtifactPlatform) (s : CheckpointState) (e : CheckpointEvent)
    (s' : CheckpointState) : Prop :=
  ∃ store, Step P store s e s'

section Runs

variable {blobs : Table BlobId Bytes} {clock : ℕ → OffsetDateTime} {ids : ℕ → String}
  {faults : ℕ → Option SodlError}

/-- A run keeps a store consistent, whatever fails in it, with what some lists say is in the
files. -/
theorem run_consistent (hzstd : P.ZstdRoundTrips)
    (hblobs : ∀ b data, blobs.lookup b = some data → P.blobId data = b)
    (hids : Function.Injective ids) (hrun : Run (AnyStep P) (.opened blobs clock ids faults) H s) :
    ∃ G D, Consistent P s G [] ∧ Fresh s D [] := by
  induction hrun with
  | nil =>
    have h : Refines P ∅ (fun b => b ∈ blobs) (.opened blobs clock ids faults) (fun _ => [])
        (fun _ => []) ∅ := Refines.opened hblobs hids
    exact ⟨_, _, h.consistent, h.fresh⟩
  | @snoc t t' H e _ hstep ih =>
    obtain ⟨G, D, hc, hf⟩ := ih
    obtain ⟨op, r⟩ := e
    obtain ⟨store, hrun⟩ := hstep
    have hrun : op.run P store t = (r, t') := hrun
    obtain ⟨hc', hf', -, -⟩ := run_alone store op hzstd hc hf
      fun _ _ => Or.inl (trivial : (fun _ => True) _)
    rw [hrun] at hc' hf'
    exact ⟨_, _, hc', hf'⟩

/-- All registries can be read after a run whose calls save what can be read. -/
theorem run_readable (hzstd : P.ZstdRoundTrips)
    (hrun : Run (AnyStep P) (.opened blobs clock ids faults) H s)
    (hfinite : ∀ e ∈ H, e.1.Readable P) : ∀ name ∈ s.registry, s.Readable P name := by
  induction hrun with
  | nil => exact fun name hname => absurd hname (AList.notMem_empty name)
  | @snoc t t' H e _ hstep ih =>
    have ih := ih fun e' he' => hfinite e' (List.mem_append_left _ he')
    obtain ⟨op, r⟩ := e
    obtain ⟨store, hrun⟩ := hstep
    have hrun : op.run P store t = (r, t') := hrun
    have hleaves := run_leaves store op hzstd t
    rw [hrun] at hleaves
    have hsame : ∀ name ∈ t'.registry, t'.registry.lookup name = t.registry.lookup name →
        t'.Readable P name := fun name hname h =>
      (readable_congr h).mpr (ih name ((mem_registry_congr h).mp hname))
    intro name hname
    by_cases hown : name = registryName op.originId
    · subst hown
      exact (hleaves.own (hfinite (op, r) (by simp))).elim (hsame _ hname) id
    · exact hsame name hname (hleaves.others name hown)

end Runs

/-! ### What was saved is listed -/

/-- **A checkpoint is relisted**: where nothing fails any more, its origin lists its record, and the
record is found and its payload loaded, by its id and as the newest. -/
structure Relisted (P : ArtifactPlatform) (s : CheckpointState) (o : String)
    (record : CheckpointRecord) (payload : Bytes) : Prop where
  listed : ∃ records, ((listCheckpoints P o).run (CheckpointState.handle P) s.quiet).1 =
    .ok records ∧ record ∈ records
  found : ∀ id ∈ [some record.checkpointId, none],
    ((getCheckpoint P o id).run (CheckpointState.handle P) s.quiet).1 = .ok record
  loaded : ∀ id ∈ [some record.checkpointId, none],
    ((loadCheckpointBytes P o id).run (CheckpointState.handle P) s.quiet).1 = .ok payload

/-- What a save that returned has written: its record behind the older ones, all of which can be
read, with its payload. -/
theorem save_written (hzstd : P.ZstdRoundTrips) (hc : Consistent P s G []) (hf : Fresh s D [])
    (hstep : Step P store s (.save o payload request, .ok (.saved record)) s') :
    ∃ G' D' old, Consistent P s' G' [] ∧ Fresh s' D' [] ∧
      (record.toCheckpointFields, payload) ∈ G' (registryName o) ∧
      (∃ z id now, record = recordOf P o payload request z id now) ∧ (∀ r ∈ old, r.Readable P) ∧
      s'.registry.lookup (registryName o) =
        some (CheckpointRegistry.toText ⟨o, store.keepNewest (old ++ [record])⟩) := by
  obtain ⟨hc', hf', hcur, hfin⟩ := run_alone store (.save o payload request) hzstd hc hf
    fun _ _ => Or.inl (trivial : (fun _ => True) _)
  have hrun : (CheckpointOp.save o payload request).run P store s =
    (.ok (.saved record), s') := hstep
  rw [hrun] at hc' hf' hcur hfin
  obtain ⟨_, _, _, hop, ⟨z, id, now, -, -, -, hrecord⟩, -, old, hreads, hw, -⟩ := hfin
  obtain ⟨rfl, rfl, rfl⟩ := CheckpointOp.save.inj hop
  refine ⟨_, _, old, hc', hf', ?_, ⟨z, id, now, hrecord⟩,
    readable_of_records (hcur.records hreads), hcur.saved _ _ hw⟩
  rw [CheckpointOp.after, hw]
  simp only [CheckpointOp.writes, getLast?_keepNewest, Function.update_self]
  exact List.mem_of_getLast? (getLast?_keepNewest store _ _)

/-- The record of a save comes back exactly if its request does. -/
theorem comesBack_recordOf {z : Bytes} {id : String} {now : OffsetDateTime} :
    (recordOf P o payload request z id now).ComesBack P ↔ request.ComesBack P :=
  ⟨fun h => ⟨h.loss, h.metrics, h.metadata⟩, fun h => ⟨h.loss, h.metrics, h.metadata⟩⟩

/-- What is read of a registry that was written is read record by record. -/
theorem records_of_written (hlook : s.registry.lookup (registryName o) = some g.toText)
    (hl : s.records P o = .ok records) :
    (g.checkpoints.map (·.toText)).mapM (CheckpointRecordText.parse P) = some records := by
  rw [CheckpointState.records, hlook] at hl
  dsimp only at hl
  split at hl
  · rename_i g' hparse
    obtain rfl := Outcome.ok.inj hl
    exact CheckpointRegistryText.checkpoints_of_parse hparse
  · exact absurd hl (by simp)

/-- A record that is listed as it was saved is one that comes back: no other has its id. -/
theorem comesBack_of_listed
    (hlook : s.registry.lookup (registryName o) = some g.toText)
    (hnodup : (g.checkpoints.map (·.checkpointId)).Nodup) (hmem : record ∈ g.checkpoints)
    (hl : s.records P o = .ok records) (hr : record ∈ records) : record.ComesBack P := by
  obtain ⟨t, ht, hread⟩ := exists_of_mem_of_mapM (records_of_written hlook hl) hr
  obtain ⟨r, hrg, rfl⟩ := List.mem_map.mp ht
  have hid : record.checkpointId = r.checkpointId :=
    congrArg CheckpointFields.checkpointId (CheckpointRecordText.fields_of_parse hread)
  obtain rfl := List.inj_on_of_nodup_map hnodup hmem hrg hid
  exact parse_toText_eq_some_iff.mp hread

/-- **A record that comes back is listed**, as the last, whatever became of those before it. -/
theorem listed_of_comesBack {old : List CheckpointRecord}
    (hlook : s.registry.lookup (registryName o) = some g.toText)
    (hg : g.checkpoints = store.keepNewest (old ++ [record])) (hold : ∀ r ∈ old, r.Readable P)
    (hrecord : record.ComesBack P) :
    ∃ before, s.records P o = .ok (before ++ [record]) ∧
      (before ++ [record]).map (·.checkpointId) = g.checkpoints.map (·.checkpointId) := by
  have hreadable : (g.toText.parse P).isSome = true := by
    rw [CheckpointRegistry.parse_toText_isSome_iff, hg]
    exact (kept_readable_iff hold).mpr hrecord.readable
  obtain ⟨g', hg'⟩ := Option.isSome_iff_exists.mp hreadable
  have hrecords : s.records P o = .ok g'.checkpoints := by
    rw [CheckpointState.records, hlook]
    simp only [hg']
  have hread := records_of_written hlook hrecords
  obtain ⟨front, hfront⟩ := List.getLast?_eq_some_iff.mp (getLast?_keepNewest store old record)
  have hids : g'.checkpoints.map (·.checkpointId) = g.checkpoints.map (·.checkpointId) := by
    have hfields : g'.checkpoints.map (fun r => r.checkpointId) =
        g.toText.checkpoints.map fun t => t.checkpointId :=
      map_of_mapM (fun t r h => congrArg CheckpointFields.checkpointId
        (CheckpointRecordText.fields_of_parse h)) hread
    rw [hfields, CheckpointRegistry.toText, List.map_map]
    rfl
  rw [hg, hfront, List.map_append] at hread
  obtain ⟨before, r, -, hr, hlast⟩ := mapM_concat_eq_some_iff.mp hread
  obtain rfl := Option.some.inj (hr.symm.trans (parse_toText_eq_some_iff.mpr hrecord))
  exact ⟨before, hlast ▸ hrecords, hlast ▸ hids⟩

/-- **A checkpoint that was saved is relisted** exactly if its numbers and its metadata come
back. -/
theorem relisted_iff (hcf : P.CollisionFree) (hzstd : P.ZstdRoundTrips) (hc : Consistent P s G [])
    (hf : Fresh s D [])
    (hstep : Step P store s (.save o payload request, .ok (.saved record)) s') :
    Relisted P s' o record payload ↔ request.ComesBack P := by
  obtain ⟨G', D', old, hc', hf', hmem, ⟨z, id, now, hrecord⟩, hold, hlook⟩ :=
    save_written hzstd hc hf hstep
  have hq := quiet_quiet s'
  have hsame : s'.quiet.records P o = s'.records P o := rfl
  have hback : record.ComesBack P ↔ request.ComesBack P := by
    rw [hrecord]
    exact comesBack_recordOf
  have hlast := getLast?_keepNewest store old record
  have hnodup : ((store.keepNewest (old ++ [record])).map (·.checkpointId)).Nodup := by
    have hnodup := hf'.nodup (registryName o)
    rwa [listed_of_toText hlook, List.map_map] at hnodup
  rw [← hback]
  constructor
  · intro h
    obtain ⟨records, hlist, hr⟩ := h.listed
    rw [listCheckpoints, run_loadRegistry hq, hsame] at hlist
    exact comesBack_of_listed hlook hnodup (List.mem_of_getLast? hlast) hlist hr
  · intro h
    obtain ⟨before, hrecords, hids⟩ := listed_of_comesBack hlook rfl hold h
    have hthere : record ∈ before ++ [record] := List.mem_append_right _ (List.mem_singleton_self _)
    have hfind : ∀ id ∈ [some record.checkpointId, none],
        findRecord (before ++ [record]) id = .ok record := by
      refine List.forall_mem_cons.mpr ⟨?_, List.forall_mem_cons.mpr ⟨?_, List.forall_mem_nil _⟩⟩
      · exact findRecord_of_mem (by rw [hids]; exact hnodup) hthere
      · rw [findRecord, List.getLast?_concat]
    refine ⟨⟨_, ?_, hthere⟩, fun id hid => ?_, fun id hid => ?_⟩
    · rw [listCheckpoints, run_loadRegistry hq]
      exact hrecords
    · rw [run_getCheckpoint hq, hsame, hrecords]
      exact hfind id hid
    · rw [run_loadCheckpointBytes hq, hsame, hrecords, Outcome.ok_bind, hfind id hid,
        Outcome.ok_bind]
      exact hc'.payload hcf hmem

/-- **A registry that cannot be read** stops what has blobs to collect, on every other file. -/
theorem not_works_of_unreadable (hzstd : P.ZstdRoundTrips) (hc : Consistent P s G [])
    (hf : Fresh s D [])
    (hstep : Step P store s (.save o payload request, .ok (.saved record)) s')
    (hrequest : ¬ request.Readable P) {store' : CheckpointStore} {op' : CheckpointOp}
    (hne : registryName op'.originId ≠ registryName o)
    (hrecords : s.records P op'.originId = .ok records) (hcollects : op'.Collects store' records) :
    ¬ op'.Works P store' s' := by
  obtain ⟨-, -, old, -, -, -, hmade, hold, hlook⟩ := save_written hzstd hc hf hstep
  have hleaves := run_leaves store (.save o payload request) hzstd s
  have hrun : (CheckpointOp.save o payload request).run P store s =
    (.ok (.saved record), s') := hstep
  rw [hrun] at hleaves
  intro hworks
  obtain ⟨-, records', hrecords', hneeds⟩ := works_iff.mp hworks
  rw [records_congr (hleaves.others _ hne), hrecords] at hrecords'
  obtain rfl := Outcome.ok.inj hrecords'
  -- the registry that was written would have to be readable
  obtain ⟨text, htext, hparse⟩ := (hneeds hcollects).2 (registryName o)
    (Table.mem_iff_exists_lookup.mpr ⟨_, hlook⟩) (Ne.symm hne) (endsWith_registryName o)
  obtain rfl := Option.some.inj (hlook.symm.trans htext)
  have hkept := (kept_readable_iff hold).mp (CheckpointRegistry.parse_toText_isSome_iff.mp hparse)
  obtain ⟨z, id, now, rfl⟩ := hmade
  exact hrequest (readable_recordOf.mp hkept)

/-- **What is saved is listed again if it comes back.** After any calls, however they ended:

* a checkpoint whose save returned is relisted exactly if the numbers and the metadata of the
  request come back;
* a save of what can be read, which is to say of finite metrics and of metadata that is not nested
  too deeply, stops nothing on another file that went through before, however it ends, and after
  such calls only everything goes through on every origin, but for payloads that cannot be
  compressed;
* a save of anything else that returned stops what has blobs to collect, on every other file. -/
theorem checkpointStore_relists (hcf : P.CollisionFree) (hzstd : P.ZstdRoundTrips)
    {blobs : Table BlobId Bytes} {clock : ℕ → OffsetDateTime} {ids : ℕ → String}
    {faults : ℕ → Option SodlError}
    (hblobs : ∀ b data, blobs.lookup b = some data → P.blobId data = b)
    (hids : Function.Injective ids)
    (hrun : Run (AnyStep P) (.opened blobs clock ids faults) H s) :
    (∀ store o payload request record s',
      Step P store s (.save o payload request, .ok (.saved record)) s' →
        (Relisted P s' o record payload ↔ request.ComesBack P)) ∧
    (∀ store o payload request r s', Step P store s (.save o payload request, r) s' →
      request.Readable P → ∀ store' (op : CheckpointOp),
        registryName op.originId ≠ registryName o → op.Works P store' s → op.Works P store' s') ∧
    ((∀ e ∈ H, e.1.Readable P) → ∀ store (op : CheckpointOp), op.Readable P →
      (op.Works P store s ↔ op.Encodes P store)) ∧
    ∀ store o payload request record s',
      Step P store s (.save o payload request, .ok (.saved record)) s' →
        ¬ request.Readable P → ∀ store' (op : CheckpointOp) records,
          registryName op.originId ≠ registryName o → s.records P op.originId = .ok records →
            op.Collects store' records → ¬ op.Works P store' s' := by
  obtain ⟨G, D, hc, hf⟩ := run_consistent hzstd hblobs hids hrun
  refine ⟨fun store o payload request record s' hstep => relisted_iff hcf hzstd hc hf hstep,
    fun store o payload request r s' hstep hrequest store' op hne => ?_,
    fun hreadable store op hop => ⟨fun h => (works_iff.mp h).1, fun hencodes => ?_⟩,
    fun store o payload request record s' hstep hrequest store' op records hne hrecords hcollects =>
      not_works_of_unreadable hzstd hc hf hstep hrequest hne hrecords hcollects⟩
  · have hleaves := run_leaves store (.save o payload request) hzstd s
    have hrun : (CheckpointOp.save o payload request).run P store s = (r, s') := hstep
    rw [hrun] at hleaves
    exact works_of_leaves hleaves hrequest hne
  · have hall := run_readable hzstd hrun hreadable
    have hrecords : ∃ records, s.records P op.originId = .ok records := by
      rw [CheckpointState.records]
      rcases hl : s.registry.lookup (registryName op.originId) with _ | text
      · exact ⟨[], rfl⟩
      · obtain ⟨text', htext, hparse⟩ := hall _ (Table.mem_iff_exists_lookup.mpr ⟨text, hl⟩)
        obtain rfl := Option.some.inj (hl.symm.trans htext)
        obtain ⟨g, hg⟩ := Option.isSome_iff_exists.mp hparse
        exact ⟨g.checkpoints, by simp only [hg]⟩
    obtain ⟨records, hrecords⟩ := hrecords
    exact works_iff.mpr ⟨hencodes, records, hrecords, fun _ =>
      ⟨hop, fun name hname _ _ => hall name hname⟩⟩

/-! ### A run of infinite metrics -/

/-- An infinite number, which JSON cannot write. -/
def infinite : F64 := ⟨0x7ff0000000000000⟩

/-- A checkpoint of one origin, and one of another whose metric is infinite. -/
def divergingSaves : List CheckpointOp :=
  [.save "other" [1] (sampleRequest none []),
    .save "run" [2] (sampleRequest none [("grad_norm", infinite)])]

/-- The state after a checkpoint of one origin, and one of another whose metric is infinite. -/
def diverging : CheckpointState := (calls sampleArtifacts ⟨3, 0⟩ divergingSaves sampleCheckpoints).2

/-- The number `9.899999999999999`, which is finite and not read exactly by every reader. -/
def nearlyNinePointNine : F64 := ⟨0x4023cccccccccccc⟩

/-- The number after it, which `serde_json` may read for it. -/
def ninePointNine : FiniteF64 := ⟨⟨0x4023cccccccccccd⟩, by decide⟩

/-- The sample platform, where `9.899999999999999` is read as `9.9`. -/
def roundingArtifacts : ArtifactPlatform :=
  { sampleArtifacts with
    readNumber := fun x => if x.val = nearlyNinePointNine then ninePointNine else x }

/-- Both saves return; but what the second has saved cannot be listed, found or loaded, and the
checkpoint of the other origin cannot be deleted. And a finite loss is listed as another one. -/
theorem checkpointStore_unlisted :
    (∀ e ∈ (calls sampleArtifacts ⟨3, 0⟩ divergingSaves sampleCheckpoints).1, e.2.isOk = true) ∧
    ((listCheckpoints sampleArtifacts "run").run
      (CheckpointState.handle sampleArtifacts) diverging).1.isOk = false ∧
    ((getCheckpoint sampleArtifacts "run" none).run
      (CheckpointState.handle sampleArtifacts) diverging).1.isOk = false ∧
    ((loadCheckpointBytes sampleArtifacts "run" none).run
      (CheckpointState.handle sampleArtifacts) diverging).1.isOk = false ∧
    ((CheckpointOp.delete "other" "").run sampleArtifacts ⟨3, 0⟩ diverging).1.isOk = false ∧
    ((listCheckpoints roundingArtifacts "run").run (CheckpointState.handle roundingArtifacts)
      (calls roundingArtifacts ⟨3, 0⟩
        [.save "run" [1] (sampleRequest (some nearlyNinePointNine) [])] sampleCheckpoints).2).1 >>=
        (fun records => .ok (records.map (·.loss))) = .ok [some ninePointNine.val] := by
  decide +kernel

/-- A checkpoint of a finite loss is relisted, also after one of an infinite metric on another
origin. -/
theorem checkpointStore_relists_finite : ∃ record s', Step sampleArtifacts ⟨3, 0⟩ diverging
      (.save "third" [3] (sampleRequest (some ⟨0⟩) []), .ok (.saved record)) s' ∧
    Relisted sampleArtifacts s' "third" record [3] := by
  have hrun : Run (AnyStep sampleArtifacts) sampleCheckpoints
      (calls sampleArtifacts ⟨3, 0⟩ divergingSaves sampleCheckpoints).1 diverging :=
    (run_calls sampleArtifacts ⟨3, 0⟩ divergingSaves sampleCheckpoints).mono
      fun _ _ _ hstep => ⟨_, hstep⟩
  have hrelists := (checkpointStore_relists samplePlatform_collisionFree
    sampleArtifacts_zstdRoundTrips (fun b data hl => absurd hl (by simp)) sampleIds_injective
    hrun).1 ⟨3, 0⟩ "third" [3] (sampleRequest (some ⟨0⟩) [])
  have hfinite : (sampleRequest (some ⟨0⟩) []).Finite := by
    refine ⟨fun x hx => ?_, List.forall_mem_nil _⟩
    obtain rfl := Option.some.inj hx
    decide
  have hok : ∃ record, ((CheckpointOp.save "third" [3] (sampleRequest (some ⟨0⟩) [])).run
      sampleArtifacts ⟨3, 0⟩ diverging).1 = .ok (.saved record) := ⟨_, rfl⟩
  obtain ⟨record, hrecord⟩ := hok
  have hstep : Step sampleArtifacts ⟨3, 0⟩ diverging
      (.save "third" [3] (sampleRequest (some ⟨0⟩) []), .ok (.saved record)) _ :=
    Prod.ext hrecord rfl
  exact ⟨record, _, hstep, (hrelists record _ hstep).mpr
    (hfinite.comesBack sampleArtifacts_jsonRoundTrips)⟩

end Checkpoint

end Sodl
