import Sodl.Checkpoint.Concurrent
import Sodl.Data.Drafts

/-!
# The files of the checkpoint store

Neither a blob nor a registry is put in its place at once. `FsBlobStore::put` looks whether the blob
is there, opens a temporary file, writes to it piece by piece and renames it; `save_registry` opens,
writes and renames likewise. A temporary file has its name from the blob or from the origin, so that
two saves of one origin use one, and so do two saves of one payload, whatever their origins.

Here the calls of the store are taken apart into these steps. The two directories are the files that
are in them (`Sodl.CheckpointDisk`), each in its place or beside it, and a registry's file holds
what `serde_json` has written there (`Sodl.RegistryCodec`). Any number of saves and deletes are
interleaved step by step, and each call may end in an error wherever it has come to
(`Sodl.StagedPool.turn`).

What is in place is what is seen of the files, a store of registries and blobs
(`Sodl.CheckpointDisk.Shows`). A call that is alone with its temporary file changes nothing that is
seen until its last step (`Sodl.CheckpointDisk.on_spec`), and this step does what the call as a
whole is to do (`Sodl.CheckpointDisk.ends_spec`).
-/

namespace Sodl

open Effect Checkpoint

variable {α : Type} [Inhabited α]

/-! ### The directories -/

/-- How `serde_json` writes the text of a registry, in whatever symbols, and how it is found again
in what was written. -/
structure RegistryCodec (α : Type) where
  render : CheckpointRegistryText → List α
  scan : List α → Option CheckpointRegistryText
  scan_render : ∀ text, scan (render text) = some text

/-- The two directories as the files that are in them, in front of a clock and of the ids that will
be drawn. -/
structure CheckpointDisk (α : Type) where
  registry : Drafts String α
  blobs : Drafts BlobId UInt8
  clock : ℕ → OffsetDateTime
  ids : ℕ → String

/-- How far a call has come with the file it writes. -/
inductive WriteStage
  | idle
  /-- A put has seen that the blob is not there, and its directories are made. -/
  | absent
  /-- The temporary file with a number is open, and so much has been written to it. -/
  | opened (number offset : ℕ)
  deriving DecidableEq

/-- The file that a call writes, if it is one that writes a file: a blob, or a registry. -/
def CheckpointCall.place? : CheckpointCall → Option (BlobId ⊕ String)
  | .putBlob b _ => some (.inl b)
  | .writeRegistry name _ => some (.inr name)
  | _ => none

/-- The file that a call has open, if it has one open. -/
def WriteStage.open? (c : CheckpointCall) : WriteStage → Option (BlobId ⊕ String)
  | .opened _ _ => c.place?
  | _ => none

/-- The next step of a call, unless it ends it, opens a file. -/
def WriteStage.opens (c : CheckpointCall) : WriteStage → Bool
  | .idle =>
    match c with
    | .putBlob _ _ => false
    | _ => true
  | .absent => true
  | .opened _ _ => false

namespace CheckpointDisk

variable (P : ArtifactPlatform) (K : RegistryCodec α)

/-- A store whose registry directory is empty, over some blobs. -/
def opened (blobs : Table BlobId (Drafts.File UInt8)) (next : ℕ) (clock : ℕ → OffsetDateTime)
    (ids : ℕ → String) : CheckpointDisk α where
  registry := .ofTable ∅ 0
  blobs := .ofTable blobs next
  clock := clock
  ids := ids

/-- What a call does that is one step. -/
def once : (c : CheckpointCall) → CheckpointDisk α →
    Option (Outcome SodlError c.Ret × CheckpointDisk α)
  | .readRegistry name, s => some
    (match s.registry.read? name with
      | none => .ok none
      | some l =>
        match K.scan l with
        | some text => .ok (some text)
        | none => .err (.serialization ("parse checkpoint registry " ++ name)), s)
  | .writeRegistry _ _, _ => none
  | .readDir, s => some (.ok s.registry.finals.keys, s)
  | .hasBlob b, s => some (.ok (s.blobs.read? b).isSome, s)
  | .putBlob b _, s => if (s.blobs.read? b).isSome then some (.ok (), s) else none
  | .getBlob b, s => some
    (match s.blobs.read? b with
      | some data => .ok data
      | none => .err .notFound, s)
  | .deleteBlob b, s => some (.ok (), { s with blobs := s.blobs.remove b })
  | .encode data level, s => some
    (match P.encodeAll data level with
      | .ok compressed => .ok compressed
      | .error err => .err (.compression ("compress checkpoint payload: " ++ err)), s)
  | .decode data, s => some
    (match P.decodeAll data with
      | .ok bytes => .ok bytes
      | .error err => .err (.compression ("decompress checkpoint payload: " ++ err)), s)
  | .newId, s => some (.ok (s.ids 0), { s with ids := fun n => s.ids (n + 1) })
  | .nowUtc, s => some (.ok (s.clock 0), { s with clock := fun n => s.clock (n + 1) })

/-- Open the temporary file of a call, which is emptied if another call has left or opened one
there. -/
def openTemp : CheckpointCall → CheckpointDisk α → Option (WriteStage × CheckpointDisk α)
  | .putBlob b _, s =>
    some (.opened (s.blobs.openTemp b).1 0, { s with blobs := (s.blobs.openTemp b).2 })
  | .writeRegistry name _, s =>
    some (.opened (s.registry.openTemp name).1 0,
      { s with registry := (s.registry.openTemp name).2 })
  | _, _ => none

/-- Write the next piece, of `n + 1` symbols at most, to the file that was opened, wherever it is
named by now. -/
def write (number offset n : ℕ) :
    CheckpointCall → CheckpointDisk α → Option (WriteStage × CheckpointDisk α)
  | .putBlob b data, s =>
    let piece := (data.drop offset).take (n + 1)
    if piece.isEmpty then none
    else some (.opened number (offset + piece.length),
      { s with blobs := s.blobs.writeAt b number offset piece })
  | .writeRegistry name g, s =>
    let piece := ((K.render g.toText).drop offset).take (n + 1)
    if piece.isEmpty then none
    else some (.opened number (offset + piece.length),
      { s with registry := s.registry.writeAt name number offset piece })
  | _, _ => none

/-- Rename the temporary file, when all is written. If it has gone, the call can only fail. -/
def rename (offset : ℕ) : (c : CheckpointCall) → CheckpointDisk α →
    Option (Outcome SodlError c.Ret × CheckpointDisk α)
  | .putBlob b data, s =>
    if offset = data.length then
      (s.blobs.moveTemp b).map fun blobs => (.ok (), { s with blobs := blobs })
    else none
  | .writeRegistry name g, s =>
    if offset = (K.render g.toText).length then
      (s.registry.moveTemp name).map fun registry => (.ok (), { s with registry := registry })
    else none
  | _, _ => none

/-- A step that does not end its call: a look whether the blob is there, the opening of the file, or
a piece that is written. -/
def on (c : CheckpointCall) (n : ℕ) (s : CheckpointDisk α) :
    WriteStage → Option (WriteStage × CheckpointDisk α)
  | .idle =>
    match c with
    | .putBlob b _ => if (s.blobs.read? b).isSome then none else some (.absent, s)
    | _ => s.openTemp c
  | .absent => s.openTemp c
  | .opened number offset => s.write K number offset n c

/-- The step that ends a call: the whole of it, if it is one step, or the renaming of its file. -/
def ends (c : CheckpointCall) (s : CheckpointDisk α) :
    WriteStage → Option (Outcome SodlError c.Ret × CheckpointDisk α)
  | .idle => s.once P K c
  | .absent => none
  | .opened _ offset => s.rename K offset c

/-- What the calls of a method reply with that only reads, in one state of the disk. -/
def reader : Handler checkpointSig (CheckpointDisk α) :=
  fun c s => (s.once P K c).getD (.panic, s)

/-- The records of a registry's file, without their numbers and metadata. -/
def listed (s : CheckpointDisk α) (name : String) : List CheckpointFields :=
  match (s.registry.read? name).bind K.scan with
  | some text => text.checkpoints.map (·.toCheckpointFields)
  | none => []

/-- **What a call knows is still so** when it ends: a registry is as it was read when another one is
moved over it, and a blob that is deleted is not listed, and no other call counts on it. -/
def UpToDate (s : CheckpointDisk α) (T : List CheckpointTrail) (x : CheckpointTrail) :
    CheckpointCall → Prop
  | .writeRegistry name _ => ∀ m, (name, m) ∈ x.reads → s.registry.read? name = m.map K.render
  | .deleteBlob b => (∀ name, ∀ t ∈ s.listed K name, t.blobId ≠ b) ∧
    ∀ y ∈ T, y.written = none → b ∉ y.checked
  | _ => True

end CheckpointDisk

/-! ### The pool -/

/-- Calls on the files, each of them with how far its next call has come. -/
structure StagedPool (α : Type) where
  disk : CheckpointDisk α
  threads : List CheckpointThread
  stages : ℕ → WriteStage

/-- A step of a thread: one that does not end its call, and writes so many symbols more than one if
it writes; one that does; or one that ends it in an error. -/
inductive StagedAct
  | on (n : ℕ)
  | ends
  | fails (e : SodlError)
  deriving DecidableEq

namespace StagedPool

variable (P : ArtifactPlatform) (K : RegistryCodec α)

/-- The pool before anything has happened: no call has begun, and no file is open. -/
def start (store : CheckpointStore) (ops : List CheckpointOp) (s : CheckpointDisk α) :
    StagedPool α :=
  ⟨s, ops.map fun op => ⟨op, .start, op.prog P store⟩, fun _ => .idle⟩

/-- After a step of a thread that has not ended its call. -/
def goesOn (p : StagedPool α) (i : ℕ) (r : WriteStage × CheckpointDisk α) : StagedPool α :=
  ⟨r.2, p.threads, Function.update p.stages i r.1⟩

/-- After a step of a thread that has ended its call, and is about to make its next one. -/
def returns (p : StagedPool α) (i : ℕ) (s : CheckpointDisk α) (t : CheckpointThread) :
    StagedPool α :=
  ⟨s, p.threads.set i t, Function.update p.stages i .idle⟩

/-- **One step of one thread**, if it can take it. -/
def turn (p : StagedPool α) (i : ℕ) (act : StagedAct) : Option (StagedPool α) :=
  match p.threads[i]? with
  | some ⟨task, x, .call c k⟩ =>
    match act with
    | .on n => (p.disk.on K c n (p.stages i)).map (p.goesOn i)
    | .ends => (p.disk.ends P K c (p.stages i)).map fun r =>
      p.returns i r.2 ⟨task, x.note c r.1, k r.1⟩
    | .fails e => if c.fallible then some (p.returns i p.disk ⟨task, x, k (.err e)⟩) else none
  | _ => none

/-- The step relation of the pool: a step of a thread is taken if it can be. -/
def Step (p : StagedPool α) (m : ℕ × StagedAct) (p' : StagedPool α) : Prop :=
  p.turn P K m.1 m.2 = some p'

/-- What is listed of an origin in a state, once nothing fails and no call is made. -/
def list (p : StagedPool α) (o : String) : Outcome SodlError (List CheckpointRecord) :=
  ((CheckpointStore.listCheckpoints P o).run (CheckpointDisk.reader P K) p.disk).1

/-- What is loaded under an id in a state, once nothing fails and no call is made. -/
def load (p : StagedPool α) (o id : String) : Outcome SodlError Bytes :=
  ((CheckpointStore.loadCheckpointBytes P o (some id)).run (CheckpointDisk.reader P K) p.disk).1

/-- Saves and deletes are safe, by what is listed and loaded in the state. -/
def Safe (p : StagedPool α) : Prop := CheckpointsSafe p.threads (p.list P K) (p.load P K)

/-! ### Steps that are up to date -/

/-- The file that a thread has open, by its call and how far it has come. -/
def open? (p : StagedPool α) (i : ℕ) : Option (BlobId ⊕ String) :=
  match p.threads[i]? with
  | some ⟨_, _, .call c _⟩ => (p.stages i).open? c
  | _ => none

/-- **A step is up to date**: where it opens a temporary file, no other call has it open, and where
it ends a call, what the call knows is still so. -/
def UpToDate (p : StagedPool α) (i : ℕ) (act : StagedAct) : Prop :=
  match p.threads[i]? with
  | some ⟨_, x, .call c _⟩ =>
    match act with
    | .on _ => (p.stages i).opens c = true → ∀ place ∈ c.place?, ∀ j < p.threads.length, j ≠ i →
      p.open? j ≠ some place
    | .ends => p.disk.UpToDate K ((p.threads.eraseIdx i).map Thread.trail) x c
    | .fails _ => True
  | _ => True

/-- The steps of the pool that are up to date. -/
def UpToDateStep (p : StagedPool α) (m : ℕ × StagedAct) (p' : StagedPool α) : Prop :=
  Step P K p m p' ∧ p.UpToDate K m.1 m.2

end StagedPool

/-! ### What is seen of the files -/

namespace CheckpointDisk

variable {P : ArtifactPlatform} {K : RegistryCodec α} {s s' : CheckpointDisk α}
  {q : CheckpointState} {c : CheckpointCall} {stage stage' : WriteStage} {n : ℕ}

/-- **What is seen of the files is a store**: those in place are its registries and blobs. -/
structure Shows (K : RegistryCodec α) (s : CheckpointDisk α) (q : CheckpointState) : Prop where
  names : s.registry.finals.keys = q.registry.keys
  texts : ∀ name, s.registry.read? name = (q.registry.lookup name).map K.render
  blobs : ∀ b, s.blobs.read? b = q.blobs.lookup b
  clock : s.clock = q.clock
  ids : s.ids = q.ids

/-- The temporary files stay as they are, but for one that may be named. -/
structure Frames (place : Option (BlobId ⊕ String)) (s s' : CheckpointDisk α) : Prop where
  blobs : ∀ b, place ≠ some (.inl b) → s'.blobs.temps.lookup b = s.blobs.temps.lookup b
  registry : ∀ name, place ≠ some (.inr name) →
    s'.registry.temps.lookup name = s.registry.temps.lookup name

/-- What a call has written so far is the beginning of what it is to write. -/
def Writes (K : RegistryCodec α) (s : CheckpointDisk α) (c : CheckpointCall) : WriteStage → Prop
  | .opened number offset =>
    match c with
    | .putBlob b data => offset ≤ data.length ∧
      s.blobs.temps.lookup b = some ⟨number, data.take offset⟩
    | .writeRegistry name g => offset ≤ (K.render g.toText).length ∧
      s.registry.temps.lookup name = some ⟨number, (K.render g.toText).take offset⟩
    | _ => False
  | _ => True

omit [Inhabited α] in
/-- A disk that did not change has its temporary files as they were. -/
theorem Frames.refl (place : Option (BlobId ⊕ String)) (s : CheckpointDisk α) :
    Frames place s s := ⟨fun _ _ => rfl, fun _ _ => rfl⟩

omit [Inhabited α] in
/-- What a call has written stays, where another one's file is touched. -/
theorem Writes.frame {place : Option (BlobId ⊕ String)} (h : s.Writes K c stage)
    (hf : Frames place s s') (hne : ∀ file, stage.open? c = some file → place ≠ some file) :
    s'.Writes K c stage := by
  cases stage with
  | idle => trivial
  | absent => trivial
  | opened number offset =>
    cases c with
    | putBlob b data => exact ⟨h.1, (hf.blobs b (hne _ rfl)).trans h.2⟩
    | writeRegistry name g => exact ⟨h.1, (hf.registry name (hne _ rfl)).trans h.2⟩
    | _ => exact h

/-! ### The steps before the last -/

omit [Inhabited α] in
/-- Opening a file writes nothing that is seen, touches no other file, and begins what the call is
to write. -/
theorem openTemp_spec (h : s.openTemp c = some (stage, s')) :
    s'.Writes K c stage ∧ Frames (stage.open? c) s s' ∧ stage.open? c = c.place? ∧
      (Shows K s q → Shows K s' q) := by
  cases c with
  | putBlob b data =>
    obtain ⟨rfl, rfl⟩ := Prod.mk.inj (Option.some.inj h)
    refine ⟨⟨Nat.zero_le _, s.blobs.temps_openTemp b⟩, ⟨fun b' hb => ?_, fun _ _ => rfl⟩, rfl,
      fun hq => { hq with blobs := fun b' => ?_ }⟩
    · exact Drafts.temps_openTemp_of_ne fun he => hb (by rw [he]; rfl)
    · exact (Drafts.read?_of_finals (s.blobs.finals_openTemp b) b').trans (hq.blobs b')
  | writeRegistry name g =>
    obtain ⟨rfl, rfl⟩ := Prod.mk.inj (Option.some.inj h)
    refine ⟨⟨Nat.zero_le _, s.registry.temps_openTemp name⟩, ⟨fun _ _ => rfl, fun name' hn => ?_⟩,
      rfl, fun hq => { hq with names := ?_, texts := fun name' => ?_ }⟩
    · exact Drafts.temps_openTemp_of_ne fun he => hn (by rw [he]; rfl)
    · exact (congrArg AList.keys (s.registry.finals_openTemp name)).trans hq.names
    · exact (Drafts.read?_of_finals (s.registry.finals_openTemp name) name').trans (hq.texts name')
  | _ => exact absurd h (by simp [openTemp])

/-- Writing a piece changes nothing that is seen, touches no other file, and goes on with what the
call is to write. -/
theorem write_spec {number offset : ℕ} (hw : s.Writes K c (.opened number offset))
    (h : s.write K number offset n c = some (stage, s')) :
    s'.Writes K c stage ∧ Frames (stage.open? c) s s' ∧ stage.open? c = c.place? ∧
      (Shows K s q → Shows K s' q) := by
  have hlen : ∀ {β : Type} (l : List β), offset ≤ l.length →
      offset + ((l.drop offset).take (n + 1)).length ≤ l.length := by
    intro β l hl
    rw [List.length_take, List.length_drop]
    omega
  cases c with
  | putBlob b data =>
    have hpiece := Drafts.writeAt_piece (m := n + 1) hw.1 hw.2
    rw [write] at h
    split at h
    · exact absurd h (by simp)
    · obtain ⟨rfl, rfl⟩ := Prod.mk.inj (Option.some.inj h)
      rw [hpiece]
      refine ⟨⟨hlen data hw.1, Table.lookup_insert_self ..⟩, ⟨fun b' hb => ?_, fun _ _ => rfl⟩, rfl,
        fun hq => { hq with blobs := hq.blobs }⟩
      exact Table.lookup_insert_ne fun he => hb (by rw [he]; rfl)
  | writeRegistry name g =>
    have hpiece := Drafts.writeAt_piece (m := n + 1) hw.1 hw.2
    rw [write] at h
    split at h
    · exact absurd h (by simp)
    · obtain ⟨rfl, rfl⟩ := Prod.mk.inj (Option.some.inj h)
      rw [hpiece]
      refine ⟨⟨hlen _ hw.1, Table.lookup_insert_self ..⟩, ⟨fun _ _ => rfl, fun name' hn => ?_⟩, rfl,
        fun hq => { hq with texts := hq.texts, names := hq.names }⟩
      exact Table.lookup_insert_ne fun he => hn (by rw [he]; rfl)
  | _ => exact hw.elim

/-- A call that has not begun looks whether the blob is there, or opens its file. -/
theorem on_idle (h : s.on K c n .idle = some (stage', s')) :
    (stage' = .absent ∧ s' = s) ∨
      WriteStage.idle.opens c = true ∧ s.openTemp c = some (stage', s') := by
  cases c with
  | putBlob b data =>
    simp only [on] at h
    split at h
    · exact absurd h (by simp)
    · obtain ⟨rfl, rfl⟩ := Prod.mk.inj (Option.some.inj h)
      exact Or.inl ⟨rfl, rfl⟩
  | _ => exact Or.inr ⟨rfl, h⟩

/-- **A step that does not end its call** changes nothing that is seen. -/
theorem on_spec (hw : s.Writes K c stage) (h : s.on K c n stage = some (stage', s')) :
    s'.Writes K c stage' ∧ Frames (stage'.open? c) s s' ∧
      (stage'.open? c = none ∨ stage'.open? c = stage.open? c ∨
        stage.opens c = true ∧ stage'.open? c = c.place?) ∧
      (Shows K s q → Shows K s' q) := by
  cases stage with
  | idle =>
    rcases on_idle h with ⟨rfl, rfl⟩ | ⟨hopens, hopen⟩
    · exact ⟨trivial, Frames.refl _ _, Or.inl rfl, id⟩
    · obtain ⟨hwrites, hframes, hplace, hshows⟩ := openTemp_spec (K := K) hopen
      exact ⟨hwrites, hframes, Or.inr (Or.inr ⟨hopens, hplace⟩), hshows⟩
  | absent =>
    obtain ⟨hwrites, hframes, hopen, hshows⟩ := openTemp_spec (K := K) h
    exact ⟨hwrites, hframes, Or.inr (Or.inr ⟨rfl, hopen⟩), hshows⟩
  | opened number offset =>
    obtain ⟨hwrites, hframes, hopen, hshows⟩ := write_spec hw h
    exact ⟨hwrites, hframes, Or.inr (Or.inl hopen), hshows⟩

/-! ### The last step -/

omit [Inhabited α] in
/-- A call of one step does to the files what it does to the tables that are seen of them. -/
theorem once_spec (h : Shows K s q) {r : Outcome SodlError c.Ret}
    (ho : s.once P K c = some (r, s')) : ∃ q', CheckpointState.answer P c q = (r, q') ∧
      Shows K s' q' ∧ Frames none s s' := by
  cases c with
  | readRegistry name =>
    obtain ⟨rfl, rfl⟩ := Prod.mk.inj (Option.some.inj ho)
    refine ⟨q, ?_, h, Frames.refl _ _⟩
    rw [h.texts]
    rcases hl : q.registry.lookup name with _ | text
    · simp only [CheckpointState.answer, hl, Option.map_none]
    · simp only [CheckpointState.answer, hl, Option.map_some, K.scan_render]
  | writeRegistry name g => exact absurd ho (by simp [once])
  | readDir =>
    obtain ⟨rfl, rfl⟩ := Prod.mk.inj (Option.some.inj ho)
    exact ⟨q, by rw [h.names]; rfl, h, Frames.refl _ _⟩
  | hasBlob b =>
    obtain ⟨rfl, rfl⟩ := Prod.mk.inj (Option.some.inj ho)
    exact ⟨q, by rw [h.blobs]; rfl, h, Frames.refl _ _⟩
  | putBlob b data =>
    rw [once] at ho
    split at ho
    · rename_i hthere
      obtain ⟨rfl, rfl⟩ := Prod.mk.inj (Option.some.inj ho)
      rw [h.blobs] at hthere
      exact ⟨q, by rw [CheckpointState.answer, if_pos hthere], h, Frames.refl _ _⟩
    · exact absurd ho (by simp)
  | getBlob b =>
    obtain ⟨rfl, rfl⟩ := Prod.mk.inj (Option.some.inj ho)
    exact ⟨q, by rw [h.blobs]; rfl, h, Frames.refl _ _⟩
  | deleteBlob b =>
    obtain ⟨rfl, rfl⟩ := Prod.mk.inj (Option.some.inj ho)
    refine ⟨_, rfl, { h with blobs := fun b' => ?_ }, ⟨fun _ _ => rfl, fun _ _ => rfl⟩⟩
    rw [Drafts.read?_remove]
    split
    · rename_i he
      rw [he]
      exact (Table.lookup_erase_self ..).symm
    · rename_i hne
      exact (h.blobs b').trans (Table.lookup_erase_ne hne).symm
  | encode data level =>
    obtain ⟨rfl, rfl⟩ := Prod.mk.inj (Option.some.inj ho)
    exact ⟨q, rfl, h, Frames.refl _ _⟩
  | decode data =>
    obtain ⟨rfl, rfl⟩ := Prod.mk.inj (Option.some.inj ho)
    exact ⟨q, rfl, h, Frames.refl _ _⟩
  | newId =>
    obtain ⟨rfl, rfl⟩ := Prod.mk.inj (Option.some.inj ho)
    exact ⟨{ q with ids := fun n => q.ids (n + 1) }, by rw [h.ids]; rfl,
      { h with ids := by rw [h.ids] }, ⟨fun _ _ => rfl, fun _ _ => rfl⟩⟩
  | nowUtc =>
    obtain ⟨rfl, rfl⟩ := Prod.mk.inj (Option.some.inj ho)
    exact ⟨{ q with clock := fun n => q.clock (n + 1) }, by rw [h.clock]; rfl,
      { h with clock := by rw [h.clock] }, ⟨fun _ _ => rfl, fun _ _ => rfl⟩⟩

omit [Inhabited α] in
/-- **The step that ends a call** does what the call as a whole is to do. A blob may meanwhile have
come to its place; then it is the same. -/
theorem ends_spec (h : Shows K s q) (hw : s.Writes K c stage)
    (hsame : ∀ b data old, c = .putBlob b data → q.blobs.lookup b = some old → old = data)
    {r : Outcome SodlError c.Ret} (he : s.ends P K c stage = some (r, s')) :
    ∃ q', CheckpointState.answer P c q = (r, q') ∧ Shows K s' q' ∧ Frames (stage.open? c) s s' := by
  cases stage with
  | idle => exact once_spec h he
  | absent => exact absurd he (by simp [ends])
  | opened number offset =>
    cases c with
    | putBlob b data =>
      simp only [ends, rename] at he
      split at he
      · rename_i hoffset
        have hfile := hw.2
        rw [hoffset, List.take_length] at hfile
        rw [Drafts.moveTemp_of_temp hfile] at he
        obtain ⟨rfl, rfl⟩ := Prod.mk.inj (Option.some.inj he)
        refine ⟨_, rfl, ?_, ⟨fun b' hb => Table.lookup_erase_ne fun e => hb (by rw [e]; rfl),
          fun _ _ => rfl⟩⟩
        rcases hl : q.blobs.lookup b with _ | old
        · refine { h with blobs := fun b' => ?_ }
          rw [Drafts.read?_of_insert rfl, h.blobs]
          exact (Table.lookup_insert ..).symm
        · obtain rfl := hsame b data old rfl hl
          refine { h with blobs := fun b' => ?_ }
          rw [Drafts.read?_of_insert rfl, h.blobs]
          split
          · rename_i hb
            rw [hb]
            exact hl.symm
          · rfl
      · exact absurd he (by simp)
    | writeRegistry name g =>
      simp only [ends, rename] at he
      split at he
      · rename_i hoffset
        have hfile := hw.2
        rw [hoffset, List.take_length] at hfile
        rw [Drafts.moveTemp_of_temp hfile] at he
        obtain ⟨rfl, rfl⟩ := Prod.mk.inj (Option.some.inj he)
        refine ⟨_, rfl, { h with names := ?_, texts := fun name' => ?_ }, ⟨fun _ _ => rfl,
          fun name' hn => Table.lookup_erase_ne fun e => hn (by rw [e]; rfl)⟩⟩
        · have hnames := congrArg (fun l => name :: l.erase name) h.names
          exact (AList.keys_insert _).trans (hnames.trans (AList.keys_insert _).symm)
        · rw [Drafts.read?_of_insert rfl, h.texts]
          show _ = ((q.registry.insert name g.toText).lookup name').map K.render
          rw [Table.lookup_insert]
          split <;> rfl
      · exact absurd he (by simp)
    | _ => exact hw.elim

omit [Inhabited α] in
/-- What is known of the files is known of what is seen of them. -/
theorem UpToDate.shown {T : List CheckpointTrail} {x : CheckpointTrail} (h : Shows K s q)
    (hu : s.UpToDate K T x c) : Checkpoint.UpToDate q T x c := by
  cases c with
  | writeRegistry name g =>
    intro m hm
    have hread := hu m hm
    rw [h.texts] at hread
    have hrender : Function.Injective K.render := fun t t' he => by
      have hscan := congrArg K.scan he
      rw [K.scan_render, K.scan_render] at hscan
      exact Option.some.inj hscan
    exact Option.map_injective hrender hread
  | deleteBlob b =>
    refine ⟨fun name t ht => hu.1 name t ?_, hu.2⟩
    rw [listed, h.texts]
    rw [CheckpointState.listed] at ht
    rcases hl : q.registry.lookup name with _ | text
    · rw [hl] at ht
      exact ht
    · rw [hl] at ht
      simp only [Option.map_some, Option.bind_some, K.scan_render]
      exact ht
  | _ => trivial

/-! ### Reading -/

/-- A call that only reads. -/
def Looks : CheckpointCall → Prop
  | .readRegistry _ | .getBlob _ | .decode _ => True
  | _ => False

omit [Inhabited α] in
/-- A method that only reads is told what is seen, whatever temporary files there are. -/
theorem run_reader (h : Shows K s q) (hq : ∀ n, q.faults n = none) {β : Type}
    {p : CheckpointProg β} (hp : p.Calls Looks) :
    (p.run (reader P K) s).1 = (p.run (CheckpointState.handle P) q).1 := by
  have hcall : ∀ c : CheckpointCall, Looks c → ∃ r, reader P K c s = (r, s) ∧
      CheckpointState.handle P c q = (r, q) := by
    intro c hc
    rw [handle_of_quiet hq]
    cases c with
    | readRegistry name =>
      obtain ⟨q', ha, -, -⟩ := once_spec (P := P) h (c := .readRegistry name) rfl
      exact ⟨_, rfl, ha.trans (Prod.ext rfl (congrArg Prod.snd ha).symm)⟩
    | getBlob b =>
      obtain ⟨q', ha, -, -⟩ := once_spec (P := P) h (c := .getBlob b) rfl
      exact ⟨_, rfl, ha.trans (Prod.ext rfl (congrArg Prod.snd ha).symm)⟩
    | decode data =>
      obtain ⟨q', ha, -, -⟩ := once_spec (P := P) h (c := .decode data) rfl
      exact ⟨_, rfl, ha.trans (Prod.ext rfl (congrArg Prod.snd ha).symm)⟩
    | _ => exact hc.elim
  induction p with
  | ret o => rfl
  | call c k ih =>
    obtain ⟨r, hs, hq'⟩ := hcall c hp.1
    rw [Prog.run, Prog.run, hs, hq']
    exact ih r (hp.2 r)

end CheckpointDisk

end Sodl
