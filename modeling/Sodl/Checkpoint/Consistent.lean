import Mathlib.Logic.Function.Basic
import Sodl.Checkpoint.Trail

/-!
# What keeps the checkpoint store together

A ghost map says of each file of the registry directory which checkpoints it lists, with their
payloads. The store is consistent with it (`Sodl.Checkpoint.Consistent`) if the registries list
these records, whatever becomes of their numbers, and every blob that a record names exists and is
the payload, compressed. The calls under way enter through their trails only: the blobs that a save
has seen or put and not yet registered exist as well.

A call that a method may make keeps the store consistent if what the method has learned is still so
(`Sodl.Checkpoint.UpToDate`): this is `Sodl.Checkpoint.Consistent.step`. A registry that is written
must not have changed since it was read, and a blob that is deleted must not have come into use
since the registries were read. A method that runs alone is always up to date
(`Sodl.Checkpoint.Current.upToDate`).
-/

namespace Sodl

open Effect

/-! ### What is listed -/

/-- The records of a file, without their numbers and metadata, which may not be read as they were
written. -/
def CheckpointState.listed (s : CheckpointState) (name : String) : List CheckpointFields :=
  match s.registry.lookup name with
  | some text => text.checkpoints.map (·.toCheckpointFields)
  | none => []

/-- The store after a registry was written into a file of the directory, over the one that may have
been there. -/
def CheckpointState.saving (s : CheckpointState) (name : String) (g : CheckpointRegistry) :
    CheckpointState :=
  { s with registry := s.registry.insert name g.toText }

/-- A registry's file is one the collection looks into, whatever the origin. -/
theorem endsWith_registryName (o : String) : endsWith (registryName o) ".json" = true := by
  rw [endsWith, List.isSuffixOf_iff_suffix, registryName]
  exact ⟨(safeName o).toList, by simp⟩

/-- The checkpoints of each file, with their payloads: what the calls so far have made of the
directory. -/
abbrev CheckpointFiles : Type := String → List (CheckpointFields × Bytes)

/-- What a call leaves of the checkpoints of a file when it writes a registry: a save adds its own
with its payload, and a delete takes those of its id out. -/
def CheckpointOp.writes (store : CheckpointStore) (op : CheckpointOp) (g : CheckpointRegistry)
    (l : List (CheckpointFields × Bytes)) : List (CheckpointFields × Bytes) :=
  match op with
  | .save _ payload _ =>
    match g.checkpoints.getLast? with
    | some record => store.keepNewest (l ++ [(record.toCheckpointFields, payload)])
    | none => l
  | .delete _ id => l.filter fun e => e.1.checkpointId ≠ id

/-- What the files list, after a call: what they listed before, unless the call wrote its
registry. -/
def CheckpointOp.after (store : CheckpointStore) (op : CheckpointOp) (G : CheckpointFiles)
    (x : CheckpointTrail) : CheckpointFiles :=
  match x.written with
  | some (name, g) => Function.update G name (op.writes store g (G name))
  | none => G

namespace Checkpoint

open CheckpointTrail CheckpointStore

/-! ### Consistency -/

/-- **A store that is consistent** with what the files list, with some calls under way: every
checkpoint has the blob of its payload, and so has each call that is going to list one. -/
structure Consistent (P : ArtifactPlatform) (s : CheckpointState) (G : CheckpointFiles)
    (T : List CheckpointTrail) : Prop where
  files : ∀ name, s.listed name = (G name).map Prod.fst
  json : ∀ name ∈ s.registry, endsWith name ".json" = true
  ids : ∀ b data, s.blobs.lookup b = some data → P.blobId data = b
  named : ∀ name, ∀ e ∈ G name, e.1.blobId ∈ s.blobs
  payloads : ∀ name, ∀ e ∈ G name, ∃ z, P.blobId z = e.1.blobId ∧ P.decodeAll z = .ok e.2
  pending : ∀ x ∈ T, x.written = none → ∀ b ∈ x.checked, b ∈ s.blobs
  encoded : ∀ x ∈ T, ∀ v z, (v, z) ∈ x.encoded → P.decodeAll z = .ok v

/-- **What a call knows is still so** when it makes a call:

* a registry that is written is what was read, but for the change;
* a blob that is deleted is not listed, and no other call counts on it. -/
def UpToDate (s : CheckpointState) (T : List CheckpointTrail) (x : CheckpointTrail) :
    CheckpointCall → Prop
  | .writeRegistry name _ => ∀ m, (name, m) ∈ x.reads → s.registry.lookup name = m
  | .deleteBlob b => (∀ name, ∀ t ∈ s.listed name, t.blobId ≠ b) ∧
    ∀ y ∈ T, y.written = none → b ∉ y.checked
  | _ => True

variable {P : ArtifactPlatform} {store : CheckpointStore} {op : CheckpointOp}
  {s : CheckpointState} {G : CheckpointFiles} {T : List CheckpointTrail} {x : CheckpointTrail}
  {c : CheckpointCall} {name : String} {g : CheckpointRegistry}

/-! ### Room -/

/-- Not all of some records have to go: at least one is kept. -/
theorem excess_lt (store : CheckpointStore) {n : ℕ} (hn : 0 < n) : store.excess n < n := by
  rw [excess]
  split
  · omega
  · exact hn

/-- The newest of some records are kept by their places, whatever is made of each. -/
theorem map_keepNewest {α β : Type} (store : CheckpointStore) (f : α → β) (l : List α) :
    (store.keepNewest l).map f = store.keepNewest (l.map f) := by
  rw [keepNewest, keepNewest, List.map_drop, List.length_map]

/-- The record that was appended is the last of those that are kept. -/
theorem getLast?_keepNewest {α : Type} (store : CheckpointStore) (l : List α) (a : α) :
    (store.keepNewest (l ++ [a])).getLast? = some a := by
  have hlt := excess_lt store (n := (l ++ [a]).length) (by simp)
  rw [keepNewest, List.getLast?_drop, if_neg (by omega), List.getLast?_concat]

/-- A record that is kept is one of those that were there. -/
theorem mem_of_keepNewest {α : Type} {l : List α} {a : α} (h : a ∈ store.keepNewest l) : a ∈ l :=
  List.mem_of_mem_drop h

/-! ### Steps that leave the files -/

/-- What a trail says is so: the blobs it counts on are there, and its compressed bytes can be
decompressed. -/
structure Knows (P : ArtifactPlatform) (s : CheckpointState) (x : CheckpointTrail) : Prop where
  pending : x.written = none → ∀ b ∈ x.checked, b ∈ s.blobs
  encoded : ∀ v z, (v, z) ∈ x.encoded → P.decodeAll z = .ok v

/-- In a consistent store what the trails of the calls under way say is so. -/
theorem Consistent.knows (hc : Consistent P s G T) (hx : x ∈ T) : Knows P s x :=
  ⟨hc.pending x hx, hc.encoded x hx⟩

/-- Another trail in place of the first, if what it says is so. -/
theorem Consistent.learn {x' : CheckpointTrail} (hc : Consistent P s G (x :: T))
    (hk : Knows P s x') : Consistent P s G (x' :: T) :=
  { hc with
    pending := List.forall_mem_cons.mpr
      ⟨hk.pending, fun y hy => hc.pending y (List.mem_cons_of_mem _ hy)⟩
    encoded := List.forall_mem_cons.mpr
      ⟨hk.encoded, fun y hy => hc.encoded y (List.mem_cons_of_mem _ hy)⟩ }

/-- The clock, the ids and the errors that are to come do not matter to what is consistent. -/
theorem Consistent.congr {t : CheckpointState} (hc : Consistent P s G T)
    (hregistry : t.registry = s.registry) (hblobs : t.blobs = s.blobs) : Consistent P t G T where
  files name := by
    rw [CheckpointState.listed, hregistry]
    exact hc.files name
  json := by rw [hregistry]; exact hc.json
  ids := by rw [hblobs]; exact hc.ids
  named := by rw [hblobs]; exact hc.named
  payloads := hc.payloads
  pending := by rw [hblobs]; exact hc.pending
  encoded := hc.encoded

/-- A blob is put under the id of its bytes: what was there stays, and the new one is what its id
says. -/
theorem Consistent.putBlob {b : BlobId} {data : Bytes} (hc : Consistent P s G T)
    (hb : P.blobId data = b) :
    Consistent P { s with blobs := s.blobs.insert b data } G T :=
  { hc with
    ids := fun b' data' hl => by
      rcases Table.lookup_insert_eq_some hl with ⟨rfl, rfl⟩ | ⟨-, hl⟩
      · exact hb
      · exact hc.ids b' data' hl
    named := fun name e he => Table.mem_insert.mpr (Or.inr (hc.named name e he))
    pending := fun y hy hw b' hb' => Table.mem_insert.mpr (Or.inr (hc.pending y hy hw b' hb')) }

/-- **A blob is deleted** that no registry lists, and no other call counts on, after the call has
written its registry. -/
theorem Consistent.deleteBlob {b : BlobId} (hc : Consistent P s G (x :: T))
    (hwritten : x.written.isSome = true) (hsound : UpToDate s T x (.deleteBlob b)) :
    Consistent P { s with blobs := s.blobs.erase b } G (x :: T) := by
  have hkept : ∀ b' ∈ s.blobs, b' ≠ b → b' ∈ s.blobs.erase b :=
    fun b' hb' hne => AList.mem_erase.mpr ⟨hne, hb'⟩
  refine
    { hc with
      ids := fun b' data hl => hc.ids b' data (Table.lookup_of_lookup_erase hl).2
      named := fun name e he => hkept _ (hc.named name e he) ?_
      pending := List.forall_mem_cons.mpr ⟨fun hnone => ?_, fun y hy hw b' hb' => ?_⟩ }
  · refine hsound.1 name e.1 ?_
    rw [hc.files]
    exact List.mem_map_of_mem he
  · rw [hnone] at hwritten
    exact absurd hwritten Bool.false_ne_true
  · refine hkept b' (hc.pending y (List.mem_cons_of_mem _ hy) hw b' hb') ?_
    rintro rfl
    exact hsound.2 y hy hw hb'

/-! ### Registries that are written -/

/-- What a file lists is what was written into it. -/
theorem listed_of_toText (hl : s.registry.lookup name = some g.toText) :
    s.listed name = g.checkpoints.map (·.toCheckpointFields) := by
  rw [CheckpointState.listed, hl]
  exact List.map_map

/-- A file lists what was written into it. -/
theorem listed_saving_self :
    (s.saving name g).listed name = g.checkpoints.map (·.toCheckpointFields) :=
  listed_of_toText (Table.lookup_insert_self ..)

/-- What a file lists is what is read of it, where it can be read. -/
theorem listed_of_parse {text : CheckpointRegistryText}
    (hl : s.registry.lookup name = some text) (hg : text.parse P = some g) :
    s.listed name = g.checkpoints.map (·.toCheckpointFields) := by
  rw [CheckpointState.listed, hl]
  exact (CheckpointRegistryText.fields_of_parse hg).symm

/-- A file that was not written lists what it did. -/
theorem listed_saving_ne {name' : String} (h : name' ≠ name) :
    (s.saving name g).listed name' = s.listed name' := by
  rw [CheckpointState.listed, CheckpointState.saving, Table.lookup_insert_ne h]
  rfl

/-- What was read is what is listed, if the file is still as it was. -/
theorem listed_of_reads {reads : List (String × Option CheckpointRegistryText)}
    {old : List CheckpointRecord} (hreads : Reads P reads name old)
    (hsound : ∀ m, (name, m) ∈ reads → s.registry.lookup name = m) :
    s.listed name = old.map (·.toCheckpointFields) := by
  rcases hreads with ⟨hread, rfl⟩ | ⟨text, g, hread, hg, rfl⟩
  · rw [CheckpointState.listed, hsound _ hread]
    rfl
  · exact listed_of_parse (hsound _ hread) hg

/-- What a call may write is what the checkpoints with their payloads say it leaves. -/
theorem writes_of_edits {old : List CheckpointRecord} {l : List (CheckpointFields × Bytes)}
    (hold : l.map Prod.fst = old.map (·.toCheckpointFields))
    (hedits : Edits P store x op old g.checkpoints) :
    (op.writes store g l).map Prod.fst = g.checkpoints.map (·.toCheckpointFields) := by
  cases op with
  | save o payload request =>
    obtain ⟨record, -, hnew⟩ := hedits
    rw [CheckpointOp.writes, hnew, getLast?_keepNewest]
    show (store.keepNewest (l ++ [(record.toCheckpointFields, payload)])).map Prod.fst = _
    rw [map_keepNewest, map_keepNewest, List.map_append, List.map_append, hold]
    rfl
  | delete o id =>
    obtain ⟨-, hnew⟩ := hedits
    have hpred : ((fun e : CheckpointFields => decide (e.checkpointId ≠ id)) ∘ Prod.fst) =
        fun e : CheckpointFields × Bytes => decide (e.1.checkpointId ≠ id) := rfl
    rw [CheckpointOp.writes, hnew, ← hpred, ← List.filter_map, hold, List.filter_map]
    rfl

/-- A checkpoint that is left was there, or it is the one that was saved. -/
theorem mem_writes {l : List (CheckpointFields × Bytes)} {e : CheckpointFields × Bytes}
    (he : e ∈ op.writes store g l) : e ∈ l ∨ ∃ o payload request record,
      op = .save o payload request ∧ g.checkpoints.getLast? = some record ∧
      e = (record.toCheckpointFields, payload) := by
  cases op with
  | save o payload request =>
    rw [CheckpointOp.writes] at he
    rcases hlast : g.checkpoints.getLast? with _ | record
    · rw [hlast] at he
      exact Or.inl he
    · rw [hlast] at he
      rcases List.mem_append.mp (mem_of_keepNewest he) with he | he
      · exact Or.inl he
      · exact Or.inr ⟨o, payload, request, record, rfl, rfl, List.mem_singleton.mp he⟩
  | delete o id => exact Or.inl (List.mem_filter.mp he).1

/-- The record that a save writes last is the one it made. -/
theorem made_of_edits {o : String} {payload : Bytes} {request : CheckpointSaveRequest}
    {old : List CheckpointRecord} {record : CheckpointRecord}
    (hedits : Edits P store x (.save o payload request) old g.checkpoints)
    (hlast : g.checkpoints.getLast? = some record) : Made P x o payload request record := by
  obtain ⟨record', hmade, hnew⟩ := hedits
  rw [hnew, getLast?_keepNewest] at hlast
  exact Option.some.inj hlast ▸ hmade

/-- **A registry is written** that is still as it was read: the files list what the call leaves, and
the blob of a new record is one the call has put or found. -/
theorem Consistent.save (hc : Consistent P s G (x :: T))
    (hmay : May P store op x (.writeRegistry name g))
    (hsound : UpToDate s T x (.writeRegistry name g)) :
    Consistent P (s.saving name g) (Function.update G name (op.writes store g (G name)))
      (x.wrote name g :: T) := by
  obtain ⟨hwritten, hname, old, hreads, hedits⟩ := hmay
  have hold : (G name).map Prod.fst = old.map (·.toCheckpointFields) :=
    (hc.files name).symm.trans (listed_of_reads hreads hsound)
  have hmem : ∀ name', ∀ e ∈ Function.update G name (op.writes store g (G name)) name',
      e ∈ G name' ∨ ∃ o payload request record, op = .save o payload request ∧
        g.checkpoints.getLast? = some record ∧ e = (record.toCheckpointFields, payload) := by
    intro name' e he
    by_cases hn : name' = name
    · subst hn
      rw [Function.update_self] at he
      exact mem_writes he
    · rw [Function.update_of_ne hn] at he
      exact Or.inl he
  refine
    { ids := hc.ids
      files := fun name' => ?_
      json := fun name' hname' => ?_
      named := fun name' e he => ?_
      payloads := fun name' e he => ?_
      pending := List.forall_mem_cons.mpr
        ⟨fun hnone => absurd hnone (by simp [wrote]), fun y hy =>
          hc.pending y (List.mem_cons_of_mem _ hy)⟩
      encoded := List.forall_mem_cons.mpr
        ⟨(hc.knows (List.mem_cons_self ..)).encoded, fun y hy =>
          hc.encoded y (List.mem_cons_of_mem _ hy)⟩ }
  · by_cases hn : name' = name
    · subst hn
      rw [listed_saving_self, Function.update_self, writes_of_edits hold hedits]
    · rw [listed_saving_ne hn, Function.update_of_ne hn, hc.files]
  · rcases Table.mem_insert.mp hname' with rfl | hname'
    · rw [hname]
      exact endsWith_registryName _
    · exact hc.json name' hname'
  · rcases hmem name' e he with he | ⟨o, payload, request, record, rfl, hlast, rfl⟩
    · exact hc.named name' e he
    · obtain ⟨z, id, now, -, hchecked, -, rfl⟩ := made_of_edits hedits hlast
      exact hc.pending x (List.mem_cons_self ..) hwritten _ hchecked
  · rcases hmem name' e he with he | ⟨o, payload, request, record, rfl, hlast, rfl⟩
    · exact hc.payloads name' e he
    · obtain ⟨z, id, now, hencoded, -, -, rfl⟩ := made_of_edits hedits hlast
      exact ⟨z, rfl, hc.encoded x (List.mem_cons_self ..) _ _ hencoded⟩

/-! ### One call -/

/-- What the files list, after a call and its reply. -/
def afterCall (store : CheckpointStore) (op : CheckpointOp) (G : CheckpointFiles) :
    (c : CheckpointCall) → Outcome SodlError c.Ret → CheckpointFiles
  | .writeRegistry name g, .ok _ => Function.update G name (op.writes store g (G name))
  | _, _ => G

/-- A call that failed leaves what the files list. -/
theorem afterCall_of_not_ok {r : Outcome SodlError c.Ret} (hr : ∀ a, r ≠ .ok a) :
    afterCall store op G c r = G := by
  cases r with
  | ok a => exact absurd rfl (hr a)
  | err e => cases c <;> rfl
  | panic => cases c <;> rfl

/-- A call that failed adds nothing to the trail. -/
theorem note_of_not_ok {r : Outcome SodlError c.Ret} (hr : ∀ a, r ≠ .ok a) : note x c r = x := by
  cases r with
  | ok a => exact absurd rfl (hr a)
  | err e => cases c <;> rfl
  | panic => cases c <;> rfl

/-- **One call**, where nothing fails: a method that is up to date keeps the store consistent, and
the store replies as the watch expects. -/
theorem Consistent.answer (hzstd : P.ZstdRoundTrips) (hc : Consistent P s G (x :: T))
    (hmay : May P store op x c) (hsound : UpToDate s T x c) :
    Replies P c (CheckpointState.answer P c s).1 ∧
      Consistent P (CheckpointState.answer P c s).2
        (afterCall store op G c (CheckpointState.answer P c s).1)
        (note x c (CheckpointState.answer P c s).1 :: T) := by
  have hx := hc.knows (List.mem_cons_self ..)
  cases c with
  | readRegistry name => exact ⟨trivial, hc.learn { hx with }⟩
  | writeRegistry name g => exact ⟨trivial, hc.save hmay hsound⟩
  | readDir => exact ⟨trivial, hc.learn { hx with }⟩
  | hasBlob b =>
    refine ⟨trivial, hc.learn ?_⟩
    rcases hl : s.blobs.lookup b with _ | data
    · simp only [CheckpointState.answer, hl]
      exact { hx with }
    · simp only [CheckpointState.answer, hl]
      show Knows P s (x.looked b true)
      rw [looked, if_pos rfl]
      split
      · exact hx
      · refine { hx with pending := fun hnone => List.forall_mem_cons.mpr ⟨?_, hx.pending hnone⟩ }
        exact Table.mem_iff_exists_lookup.mpr ⟨data, hl⟩
  | putBlob b data =>
    refine ⟨trivial, ?_⟩
    rcases hl : s.blobs.lookup b with _ | old
    · simp only [CheckpointState.answer, hl]
      have hput := hc.putBlob hmay.2.1
      have hx' := hput.knows (List.mem_cons_self ..)
      refine hput.learn
        { hx' with pending := fun hnone => List.forall_mem_cons.mpr ⟨?_, hx'.pending hnone⟩ }
      exact Table.mem_insert.mpr (Or.inl rfl)
    · simp only [CheckpointState.answer, hl]
      refine hc.learn
        { hx with pending := fun hnone => List.forall_mem_cons.mpr ⟨?_, hx.pending hnone⟩ }
      exact Table.mem_iff_exists_lookup.mpr ⟨old, hl⟩
  | getBlob b =>
    rcases hl : s.blobs.lookup b with _ | data
    · simp only [CheckpointState.answer, hl]
      exact ⟨trivial, hc⟩
    · simp only [CheckpointState.answer, hl]
      exact ⟨trivial, hc⟩
  | deleteBlob b =>
    have hdel := hc.deleteBlob hmay.1 hsound
    have hx' := hdel.knows (List.mem_cons_self ..)
    exact ⟨trivial, hdel.learn { hx' with }⟩
  | encode data level =>
    rcases hl : P.encodeAll data level with err | compressed
    · simp only [CheckpointState.answer, hl]
      exact ⟨trivial, hc⟩
    · simp only [CheckpointState.answer, hl]
      have hdec := hzstd _ _ _ hl
      refine ⟨hdec, hc.learn { hx with encoded := fun v z hz => ?_ }⟩
      rcases List.mem_cons.mp hz with he | hz
      · obtain ⟨rfl, rfl⟩ := Prod.mk.inj he
        exact hdec
      · exact hx.encoded v z hz
  | decode data =>
    rcases hl : P.decodeAll data with err | bytes
    · simp only [CheckpointState.answer, hl]
      exact ⟨trivial, hc⟩
    · simp only [CheckpointState.answer, hl]
      exact ⟨trivial, hc⟩
  | newId =>
    have hdrawn : Consistent P { s with ids := fun n => s.ids (n + 1) } G (x :: T) :=
      hc.congr rfl rfl
    have hx' := hdrawn.knows (List.mem_cons_self ..)
    exact ⟨trivial, hdrawn.learn { hx' with }⟩
  | nowUtc => exact ⟨trivial, hc.congr rfl rfl⟩

/-- A call either fails, and changes nothing but the errors that are to come, or does what it
should. -/
theorem handle_cases (P : ArtifactPlatform) (c : CheckpointCall) (s : CheckpointState) :
    (∃ e, (CheckpointState.handle P c s).1 = .err e ∧
      (CheckpointState.handle P c s).2 = { s with faults := fun n => s.faults (n + 1) }) ∨
    ∃ f, CheckpointState.handle P c s = CheckpointState.answer P c { s with faults := f } := by
  rw [CheckpointState.handle]
  split
  · split
    · rename_i e _
      exact Or.inl ⟨e, rfl, rfl⟩
    · exact Or.inr ⟨_, rfl⟩
  · exact Or.inr ⟨s.faults, rfl⟩

/-- **One call**, which may fail: a method that is up to date keeps the store consistent, and the
store replies as the watch expects. -/
theorem Consistent.step (hzstd : P.ZstdRoundTrips) (hc : Consistent P s G (x :: T))
    (hmay : May P store op x c) (hsound : UpToDate s T x c) :
    Replies P c (CheckpointState.handle P c s).1 ∧
      Consistent P (CheckpointState.handle P c s).2
        (afterCall store op G c (CheckpointState.handle P c s).1)
        (note x c (CheckpointState.handle P c s).1 :: T) := by
  rcases handle_cases P c s with ⟨e, hr, hs⟩ | ⟨f, hf⟩
  · have hno : ∀ a, (CheckpointState.handle P c s).1 ≠ .ok a := fun a ha =>
      absurd (hr.symm.trans ha) (by simp)
    rw [afterCall_of_not_ok hno, note_of_not_ok hno, hs, hr]
    exact ⟨by cases c <;> trivial, hc.congr rfl rfl⟩
  · rw [hf]
    refine (hc.congr (t := { s with faults := f }) rfl rfl).answer hzstd hmay ?_
    cases c <;> exact hsound

/-- What the files list after a call is told by the trail, as a call writes once. -/
theorem afterCall_after (hmay : May P store op x c) (r : Outcome SodlError c.Ret) :
    afterCall store op (op.after store G x) c r = op.after store G (note x c r) := by
  have hsame : ∀ y : CheckpointTrail, y.written = x.written →
      op.after store G x = op.after store G y := fun y hy => by
    rw [CheckpointOp.after, CheckpointOp.after, hy]
  cases r with
  | ok a =>
    cases c with
    | writeRegistry name g =>
      have hnone : op.after store G x = G := by rw [CheckpointOp.after, hmay.1]
      rw [hnone]
      rfl
    | hasBlob b =>
      refine hsame _ ?_
      show (x.looked b a).written = x.written
      rw [looked]
      split
      · split <;> rfl
      · rfl
    | _ => exact hsame _ rfl
  | err e =>
    rw [afterCall_of_not_ok (by simp), note_of_not_ok (by simp)]
  | panic =>
    rw [afterCall_of_not_ok (by simp), note_of_not_ok (by simp)]

end Checkpoint

end Sodl
