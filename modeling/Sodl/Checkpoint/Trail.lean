import Sodl.Checkpoint.Registry
import Sodl.Effect.Pool

/-!
# What a save or a delete relies on

A save writes its blob, if it is not there, and appends a record to the registry as it read it. A
delete takes a record out of the registry as it read it. Both then delete the blobs of the records
that are gone, unless one of the registries, read one after the other, still names them.

The trail of a call (`Sodl.CheckpointTrail`) is what it has learned and done, and
`Sodl.CheckpointTrail.May` says on what knowledge a registry is written, a blob put or deleted.
Every save and every delete keeps to it, and `Sodl.CheckpointOp.Finishes` says how it ends.
-/

namespace Sodl

open Effect Checkpoint CheckpointStore

/-! ### Calls and replies -/

/-- The methods that change the store, with their arguments. The others only read, and are looked at
in the states that these leave. -/
inductive CheckpointOp
  | save (originId : String) (payload : Bytes) (request : CheckpointSaveRequest)
  | delete (originId checkpointId : String)
  deriving DecidableEq

/-- What a save and a delete return. -/
inductive CheckpointReply
  | saved (record : CheckpointRecord)
  | deleted (found : Bool)
  deriving DecidableEq

namespace CheckpointOp

/-- The origin of a call, whose registry file it may write. -/
def originId : CheckpointOp → String
  | save o _ _ => o
  | delete o _ => o

/-- The payload of a save; a delete has none. -/
def payload? : CheckpointOp → Option Bytes
  | save _ payload _ => some payload
  | delete _ _ => none

/-- The program of a call. -/
def prog (P : ArtifactPlatform) (store : CheckpointStore) :
    CheckpointOp → CheckpointProg CheckpointReply
  | save o payload request => do
    let record ← store.saveCheckpointBytes P o payload request
    pure (.saved record)
  | delete o id => do
    let found ← deleteCheckpoint P o id
    pure (.deleted found)

end CheckpointOp

/-- The newest of some records, as many as there is room for in the registry of an origin. -/
def CheckpointStore.keepNewest {α : Type} (store : CheckpointStore) (l : List α) : List α :=
  l.drop (store.excess l.length)

/-! ### Trails -/

/-- What a call has learned from the replies it got, and what it has done. A save or a delete writes
one registry at most, and the trail tells what was read before that write from what was read after
it. -/
structure CheckpointTrail where
  /-- Bytes, and what they were compressed to. -/
  encoded : List (Bytes × Bytes)
  /-- The blobs that were seen or put before the registry was written. -/
  checked : List BlobId
  /-- The ids that were drawn. -/
  drawn : List String
  /-- The registries that were read since one was written. -/
  reads : List (String × Option CheckpointRegistryText)
  /-- The files of the registry directory, as they were listed since. -/
  names : Option (List String)
  /-- The registries that were read before one was written. -/
  before : List (String × Option CheckpointRegistryText)
  /-- The registry that was written, with its file. -/
  written : Option (String × CheckpointRegistry)
  /-- The blobs that were seen to be absent or deleted since. -/
  gone : List BlobId

namespace CheckpointTrail

/-- The trail of a call that has just begun. -/
def start : CheckpointTrail where
  encoded := []
  checked := []
  drawn := []
  reads := []
  names := none
  before := []
  written := none
  gone := []

/-- After a registry was written: what was read of the directory before is kept apart, as it may be
out of date now. -/
def wrote (x : CheckpointTrail) (name : String) (g : CheckpointRegistry) : CheckpointTrail :=
  { x with reads := [], names := none, before := x.reads, written := some (name, g), gone := [] }

/-- After a look for a blob: before the write one that is there may be counted on, and one that is
not there is gone. -/
def looked (x : CheckpointTrail) (b : BlobId) (there : Bool) : CheckpointTrail :=
  if there then
    if x.written.isSome then x else { x with checked := b :: x.checked }
  else { x with gone := b :: x.gone }

/-- What each call adds to the trail, by the outcome it had. A call that failed adds nothing. -/
def note : Note checkpointSig CheckpointTrail
  | x, .readRegistry name, .ok m => { x with reads := (name, m) :: x.reads }
  | x, .writeRegistry name g, .ok _ => x.wrote name g
  | x, .readDir, .ok names => { x with names := some names }
  | x, .hasBlob b, .ok there => x.looked b there
  | x, .putBlob b _, .ok _ => { x with checked := b :: x.checked }
  | x, .deleteBlob b, .ok _ => { x with gone := b :: x.gone }
  | x, .encode data _, .ok compressed => { x with encoded := (data, compressed) :: x.encoded }
  | x, .newId, .ok id => { x with drawn := id :: x.drawn }
  | x, _, _ => x

/-! ### The watch -/

/-- The records of a file, as they were read: none where there was no file, and else what its text
is parsed as. -/
def Reads (P : ArtifactPlatform) (reads : List (String × Option CheckpointRegistryText))
    (name : String) (records : List CheckpointRecord) : Prop :=
  ((name, none) ∈ reads ∧ records = []) ∨
    ∃ text g, (name, some text) ∈ reads ∧ text.parse P = some g ∧ g.checkpoints = records

/-- A record that a save has made: of its request, under an id that it drew, with the blob of its
compressed payload, which it found or put. -/
def Made (P : ArtifactPlatform) (x : CheckpointTrail) (o : String) (payload : Bytes)
    (request : CheckpointSaveRequest) (record : CheckpointRecord) : Prop :=
  ∃ compressed id now, (payload, compressed) ∈ x.encoded ∧ P.blobId compressed ∈ x.checked ∧
    x.drawn = [id] ∧ record = recordOf P o payload request compressed id now

/-- What a call may leave of the records it has read: a save adds the record it made and keeps the
newest ones, and a delete takes those of its id out. -/
def Edits (P : ArtifactPlatform) (store : CheckpointStore) (x : CheckpointTrail) :
    CheckpointOp → List CheckpointRecord → List CheckpointRecord → Prop
  | .save o payload request, old, new =>
    ∃ record, Made P x o payload request record ∧ new = store.keepNewest (old ++ [record])
  | .delete _ id, old, new =>
    (∃ r ∈ old, r.checkpointId = id) ∧ new = old.filter fun r => r.checkpointId ≠ id

/-- All registries were read since the write, and some ids are all that they name: none of the files
that were listed is left out. -/
def Scanned (P : ArtifactPlatform) (x : CheckpointTrail) (referenced : List BlobId) : Prop :=
  ∃ names, x.names = some names ∧ ∀ name ∈ names, endsWith name ".json" = true →
    ∃ text g, (name, some text) ∈ x.reads ∧ text.parse P = some g ∧
      ∀ id ∈ g.checkpoints.map (·.blobId), id ∈ referenced

/-- The calls a method may make: one write, of what it makes of the records it read; a put of the
compressed payload before it; and after it, deletions of what no registry names. -/
def May (P : ArtifactPlatform) (store : CheckpointStore) (op : CheckpointOp)
    (x : CheckpointTrail) : CheckpointCall → Prop
  | .writeRegistry name g => x.written = none ∧ name = registryName op.originId ∧
    ∃ old, Reads P x.reads name old ∧ Edits P store x op old g.checkpoints
  | .putBlob b data => x.written = none ∧ P.blobId data = b ∧
    ∃ o payload request, op = .save o payload request ∧ (payload, data) ∈ x.encoded
  | .deleteBlob b => x.written.isSome = true ∧ ∃ referenced, Scanned P x referenced ∧ b ∉ referenced
  | _ => True

/-- The replies a call can have: what was compressed is decompressed to what it was. -/
def Replies (P : ArtifactPlatform) : (c : CheckpointCall) → Outcome SodlError c.Ret → Prop
  | .encode data _, .ok compressed => P.decodeAll compressed = .ok data
  | _, _ => True

/-- The watch over a call: what is noted of each call, which calls it may make, and which replies
the platform can give. -/
def watch (P : ArtifactPlatform) (store : CheckpointStore) (op : CheckpointOp) :
    Watch checkpointSig CheckpointTrail where
  replies := Replies P
  note := note
  may := May P store op

/-- A blob that a call has collected, or has found to be named by a registry. -/
def Collected (P : ArtifactPlatform) (x : CheckpointTrail) (b : BlobId) : Prop :=
  b ∈ x.gone ∨ ∃ name text g, (name, some text) ∈ x.reads ∧ text.parse P = some g ∧
    b ∈ g.checkpoints.map (·.blobId)

/-! ### Specifications -/

variable {P : ArtifactPlatform} {store : CheckpointStore} {op : CheckpointOp} {α β : Type}
  {x : CheckpointTrail} {o : String}

/-- A specification: from the trail `x` on, the program keeps to the watch, and if it ends in a
value, then at a trail `post` relates to it. -/
abbrev Spec (P : ArtifactPlatform) (store : CheckpointStore) (op : CheckpointOp)
    (x : CheckpointTrail) (p : CheckpointProg α) (post : α → CheckpointTrail → Prop) : Prop :=
  Prog.Traced (watch P store op) (fun y => y = x) p post fun _ => True

/-- The rule of composition of specifications. -/
theorem Spec.bind {p : CheckpointProg α} {f : α → CheckpointProg β}
    {M : α → CheckpointTrail → Prop} {post : β → CheckpointTrail → Prop}
    (hp : Spec P store op x p M) (hf : ∀ a y, M a y → Spec P store op y (f a) post) :
    Spec P store op x (p >>= f) post :=
  Prog.Traced.bind hp fun a => Prog.Traced.each fun y hy => hf a y hy

/-- The rule of a program that returns at once, at the trail it starts from. -/
theorem Spec.pure {a : α} {post : α → CheckpointTrail → Prop} (hpost : post a x) :
    Spec P store op x (pure a) post := by
  rintro y rfl
  exact hpost

/-- A program that fails at once has every specification, as these speak of what is returned
only. -/
theorem Spec.raise {e : SodlError} {post : α → CheckpointTrail → Prop} :
    Spec P store op x (Prog.raise e) post :=
  fun _ _ => trivial

/-- The rule of consequence of specifications. -/
theorem Spec.weaken {p : CheckpointProg α} {post post' : α → CheckpointTrail → Prop}
    (hp : Spec P store op x p post) (hpost : ∀ a y, post a y → post' a y) :
    Spec P store op x p post' :=
  Prog.Traced.weaken hp (fun _ hy => hy) hpost fun _ hy => hy

/-- A call, and what follows it from the trail with the reply on. -/
theorem Spec.act {c : CheckpointCall} {f : c.Ret → CheckpointProg β}
    {post : β → CheckpointTrail → Prop} (hmay : May P store op x c)
    (hf : ∀ a, Spec P store op (note x c (.ok a)) (f a) post) :
    Spec P store op x (invoke c >>= f) post := by
  refine Spec.bind (M := fun a y => y = note x c (.ok a))
    (Prog.Traced.perform (fun y hy => ?_) fun y r hy _ => ?_) ?_
  · rw [hy]
    exact hmay
  · obtain rfl := hy
    cases r with
    | ok a => rfl
    | err e => trivial
    | panic => trivial
  · rintro a y rfl
    exact hf a

/-- A call with nothing after it, as a call with a return after it. -/
theorem Spec.last {p : CheckpointProg α} {post : α → CheckpointTrail → Prop}
    (hp : Spec P store op x (p >>= Pure.pure) post) : Spec P store op x p post := by
  rwa [Prog.bind_pure_eq] at hp

/-! ### Registries -/

/-- Parsing a registry asks nothing and returns what its text is parsed as. -/
theorem parseRegistry_spec {name : String} {text : CheckpointRegistryText} :
    Spec P store op x (parseRegistry P name text) fun g y => y = x ∧ text.parse P = some g := by
  rw [parseRegistry]
  split
  · rename_i g hg
    exact Spec.pure ⟨rfl, hg⟩
  · exact Spec.raise

/-- A trail with one more registry read, or found not to be there. -/
def readIn (x : CheckpointTrail) (name : String) (m : Option CheckpointRegistryText) :
    CheckpointTrail :=
  { x with reads := (name, m) :: x.reads }

/-- Loading a registry reads its file, and returns the records as they were read. -/
theorem loadRegistry_spec (o : String) :
    Spec P store op x (loadRegistry P o) fun records y =>
      Reads P y.reads (registryName o) records ∧ ∃ m, y = x.readIn (registryName o) m := by
  refine Spec.act (c := .readRegistry (registryName o)) trivial fun m => ?_
  cases m with
  | none => exact Spec.pure ⟨Or.inl ⟨List.mem_cons_self .., rfl⟩, none, rfl⟩
  | some text =>
    refine Spec.bind parseRegistry_spec fun g y hy => ?_
    obtain ⟨rfl, hg⟩ := hy
    exact Spec.pure ⟨Or.inr ⟨text, g, List.mem_cons_self .., hg, rfl⟩, some text, rfl⟩

/-! ### Collecting blobs -/

/-- A trail on which only more was read, and more is gone: what a collection adds to the trail of
the call it belongs to. -/
structure Sweeps (x y : CheckpointTrail) : Prop where
  encoded : y.encoded = x.encoded
  checked : y.checked = x.checked
  drawn : y.drawn = x.drawn
  before : y.before = x.before
  written : y.written = x.written
  reads : x.reads ⊆ y.reads
  gone : x.gone ⊆ y.gone

/-- A trail on which nothing happened. -/
theorem Sweeps.refl (x : CheckpointTrail) : Sweeps x x :=
  ⟨rfl, rfl, rfl, rfl, rfl, fun _ h => h, fun _ h => h⟩

/-- Two parts of a collection are part of it together. -/
theorem Sweeps.trans {x y z : CheckpointTrail} (h : Sweeps x y) (h' : Sweeps y z) :
    Sweeps x z where
  encoded := h'.encoded.trans h.encoded
  checked := h'.checked.trans h.checked
  drawn := h'.drawn.trans h.drawn
  before := h'.before.trans h.before
  written := h'.written.trans h.written
  reads _ hr := h'.reads (h.reads hr)
  gone _ hb := h'.gone (h.gone hb)

/-- What was collected stays so while the collection goes on. -/
theorem Collected.sweeps {y : CheckpointTrail} {b : BlobId} (hb : Collected P x b)
    (h : Sweeps x y) : Collected P y b := by
  rcases hb with hb | ⟨name, text, g, hread, hg, hid⟩
  · exact Or.inl (h.gone hb)
  · exact Or.inr ⟨name, text, g, h.reads hread, hg, hid⟩

/-- What was scanned stays so while blobs are deleted, as the listing is the same. -/
theorem Scanned.sweeps {y : CheckpointTrail} {referenced : List BlobId}
    (hs : Scanned P x referenced) (h : Sweeps x y) (hnames : y.names = x.names) :
    Scanned P y referenced := by
  obtain ⟨names, hx, hall⟩ := hs
  refine ⟨names, hnames.trans hx, fun name hname hend => ?_⟩
  obtain ⟨text, g, hread, hg, hids⟩ := hall name hname hend
  exact ⟨text, g, h.reads hread, hg, hids⟩

/-- Reading one more registry is part of a collection. -/
theorem sweeps_readIn (x : CheckpointTrail) (name : String)
    (m : Option CheckpointRegistryText) : Sweeps x (x.readIn name m) :=
  { Sweeps.refl x with reads := List.subset_cons_self _ _ }

/-- Reading the registries that were listed collects all ids that they name. -/
theorem referencedFrom_spec (names : List String) :
    Spec P store op x (referencedFrom P names) fun referenced y =>
      (Sweeps x y ∧ y.names = x.names) ∧
      (∀ name ∈ names, ∃ text g, (name, some text) ∈ y.reads ∧ text.parse P = some g ∧
        ∀ id ∈ g.checkpoints.map (·.blobId), id ∈ referenced) ∧
      ∀ id ∈ referenced, Collected P y id := by
  induction names generalizing x with
  | nil => exact Spec.pure ⟨⟨Sweeps.refl x, rfl⟩, nofun, nofun⟩
  | cons name rest ih =>
    refine Spec.act (c := .readRegistry name) trivial fun m => ?_
    cases m with
    | none => exact Spec.raise
    | some text =>
      refine Spec.bind parseRegistry_spec fun g y hy => ?_
      obtain ⟨rfl, hg⟩ := hy
      refine Spec.bind (ih (x := x.readIn name (some text))) fun referenced z hz => ?_
      obtain ⟨⟨hsweeps, hnames⟩, hall, hids⟩ := hz
      have hread : (name, some text) ∈ z.reads := hsweeps.reads (List.mem_cons_self ..)
      refine Spec.pure ⟨⟨(sweeps_readIn x name _).trans hsweeps, hnames⟩, fun name' hname => ?_,
        fun id hid => ?_⟩
      · rcases List.mem_cons.mp hname with rfl | hname
        · exact ⟨text, g, hread, hg, fun id hid => List.mem_append_left _ hid⟩
        · obtain ⟨text', g', hread', hg', hids'⟩ := hall name' hname
          exact ⟨text', g', hread', hg', fun id hid => List.mem_append_right _ (hids' id hid)⟩
      · rcases List.mem_append.mp hid with hid | hid
        · exact Or.inr ⟨name, text, g, hread, hg, hid⟩
        · exact hids id hid

/-- Listing the directory and reading its registries scans all of them. -/
theorem referencedBlobIds_spec :
    Spec P store op x (referencedBlobIds P) fun referenced y =>
      Sweeps x y ∧ Scanned P y referenced ∧ ∀ id ∈ referenced, Collected P y id := by
  refine Spec.act (c := .readDir) trivial fun names => ?_
  refine (referencedFrom_spec (x := { x with names := some names }) _).weaken fun referenced y hy =>
    ⟨?_, ⟨names, hy.1.2, fun name hname hend => ?_⟩, hy.2.2⟩
  · have hlisted : Sweeps x { x with names := some names } :=
      { Sweeps.refl x with }
    exact hlisted.trans hy.1.1
  · exact hy.2.1 name (List.mem_filter.mpr ⟨hname, hend⟩)

/-- That one more blob is gone is part of a collection. -/
theorem sweeps_gone (x : CheckpointTrail) (b : BlobId) :
    Sweeps x { x with gone := b :: x.gone } :=
  { Sweeps.refl x with gone := List.subset_cons_self _ _ }

/-- Each candidate is referenced, or it is deleted or found not to be there: either way it has been
collected. -/
theorem gcFrom_spec {referenced : List BlobId} (candidates : List BlobId)
    (hs : Scanned P x referenced) (hids : ∀ id ∈ referenced, Collected P x id)
    (hwritten : x.written.isSome = true) :
    Spec P store op x (gcFrom referenced candidates) fun _ y =>
      Sweeps x y ∧ ∀ b ∈ candidates, Collected P y b := by
  -- what the loop is done with is collected
  let I : List BlobId → CheckpointTrail → Prop := fun done y =>
    Sweeps x y ∧ y.names = x.names ∧ ∀ b ∈ done, Collected P y b
  have hdone : ∀ done b y z, I done y → Sweeps y z → z.names = y.names → Collected P z b →
      I (done ++ [b]) z := by
    intro done b y z hy hyz hnames hb
    refine ⟨hy.1.trans hyz, hnames.trans hy.2.1, fun b' hb' => ?_⟩
    rcases List.mem_append.mp hb' with hb' | hb'
    · exact (hy.2.2 b' hb').sweeps hyz
    · exact List.mem_singleton.mp hb' ▸ hb
  have hgone : ∀ done b y, I done y → I (done ++ [b]) { y with gone := b :: y.gone } :=
    fun done b y hy => hdone done b y _ hy (sweeps_gone y b) rfl (Or.inl (List.mem_cons_self ..))
  have hloop : Prog.Traced (watch P store op) (I []) (gcFrom referenced candidates)
      (fun _ => I ([] ++ candidates)) (fun _ => True) := by
    refine Prog.Traced.collect (J := fun done _ => I done)
      (fun done b y hb hy => hdone done b y y hy (Sweeps.refl y) rfl ((hids b hb).sweeps hy.1))
      (fun done b _ => Prog.Traced.each fun y hy => ?_)
      (fun done b hb => Prog.Traced.each fun y hy => ?_) [] candidates
    · refine Spec.last (Spec.act (c := .hasBlob b) trivial fun there => Spec.pure ?_)
      cases there with
      | false => exact hgone done b y hy
      | true =>
        have hsame : note y (.hasBlob b) (.ok true) = y :=
          if_pos (by rw [hy.1.written]; exact hwritten)
        rw [hsame]
        exact hy
    · refine Spec.last (Spec.act (c := .deleteBlob b) ⟨?_, referenced, hs.sweeps hy.1 hy.2.1, hb⟩
        fun _ => Spec.pure (hgone done b y hy))
      rw [hy.1.written]
      exact hwritten
  refine hloop.weaken ?_ (fun _ y hy => ⟨hy.1, hy.2.2⟩) fun _ hy => hy
  rintro y rfl
  exact ⟨Sweeps.refl y, rfl, List.forall_mem_nil _⟩

/-- A collection goes through all of its candidates, after the registry was written. -/
theorem gcBlobIds_spec (candidates : List BlobId) (hwritten : x.written.isSome = true) :
    Spec P store op x (gcBlobIds P candidates) fun _ y =>
      Sweeps x y ∧ ∀ b ∈ candidates, Collected P y b := by
  rw [gcBlobIds]
  split
  · rename_i hnil
    obtain rfl := List.isEmpty_iff.mp hnil
    exact Spec.pure ⟨Sweeps.refl x, nofun⟩
  · refine Spec.bind referencedBlobIds_spec fun referenced y hy => ?_
    refine (gcFrom_spec _ hy.2.1 hy.2.2 (by rw [hy.1.written]; exact hwritten)).weaken
      fun _ z hz => ⟨hy.1.trans hz.1, fun b hb => hz.2 b ?_⟩
    exact (P.mem_idOrder _ _).mpr (List.mem_dedup.mpr hb)

/-! ### Saves and deletes -/

/-- What a save has written, when it returns: the record it made, behind those it read, without the
oldest ones if there are too many, whose blobs it has collected. -/
structure Saved (P : ArtifactPlatform) (store : CheckpointStore) (x : CheckpointTrail) (o : String)
    (payload : Bytes) (request : CheckpointSaveRequest) (record : CheckpointRecord) : Prop where
  made : Made P x o payload request record
  only : ∀ b ∈ x.checked, b = record.blobId
  written : ∃ old, Reads P x.before (registryName o) old ∧
    x.written = some (registryName o, ⟨o, store.keepNewest (old ++ [record])⟩) ∧
    ∀ r ∈ (old ++ [record]).take (store.excess (old ++ [record]).length), Collected P x r.blobId

/-- What a delete that found the record has written, when it returns: the records it read without
those of the id, whose blobs it has collected. -/
structure Deleted (P : ArtifactPlatform) (x : CheckpointTrail) (o id : String) : Prop where
  only : x.checked = []
  written : ∃ old, Reads P x.before (registryName o) old ∧ (∃ r ∈ old, r.checkpointId = id) ∧
    x.written = some (registryName o, ⟨o, old.filter fun r => r.checkpointId ≠ id⟩) ∧
    ∀ r ∈ old, r.checkpointId = id → Collected P x r.blobId

/-- The blob of a save is there afterwards, found or put, and is the one that the save may count
on. -/
theorem putMissing_spec {b : BlobId} {payload data : Bytes} {request : CheckpointSaveRequest}
    (hb : P.blobId data = b) (hdata : (payload, data) ∈ x.encoded) (hwritten : x.written = none) :
    Spec P store (.save o payload request) x (putMissing b data) fun _ y =>
      ∃ gone, y = { x with checked := b :: x.checked, gone := gone } := by
  refine Spec.act (c := .hasBlob b) trivial fun there => ?_
  cases there with
  | true =>
    refine Spec.pure ⟨x.gone, ?_⟩
    exact if_neg (by rw [hwritten]; exact Bool.false_ne_true)
  | false =>
    refine Spec.last (Spec.act (c := .putBlob b data)
      ⟨hwritten, hb, o, payload, request, rfl, hdata⟩ fun _ => Spec.pure ?_)
    exact ⟨b :: x.gone, rfl⟩

/-- A save that returns has written what it should, and returns the record it made. -/
theorem saveCheckpointBytes_spec (payload : Bytes) (request : CheckpointSaveRequest) :
    Spec P store (.save o payload request) .start (store.saveCheckpointBytes P o payload request)
      fun record y => Saved P store y o payload request record := by
  refine Spec.act (c := .encode payload store.compressionLevel) trivial fun compressed => ?_
  refine Spec.bind (putMissing_spec rfl (List.mem_cons_self ..) rfl) fun _ x hx => ?_
  obtain ⟨gone, rfl⟩ := hx
  refine Spec.act (c := .newId) trivial fun id => Spec.act (c := .nowUtc) trivial fun now => ?_
  refine Spec.bind (loadRegistry_spec o) fun old y hy => ?_
  obtain ⟨hreads, m, rfl⟩ := hy
  refine Spec.act (c := .writeRegistry _ _) ⟨rfl, rfl, old, hreads, _, ?_, rfl⟩ fun _ => ?_
  · exact ⟨compressed, id, now, List.mem_cons_self .., List.mem_cons_self .., rfl, rfl⟩
  · refine Spec.bind (gcBlobIds_spec _ rfl) fun _ z hz => Spec.pure ⟨?_, fun b hb => ?_, old, ?_⟩
    · refine ⟨compressed, id, now, ?_, ?_, hz.1.drawn, rfl⟩
      · rw [hz.1.encoded]
        exact List.mem_cons_self ..
      · rw [hz.1.checked]
        exact List.mem_cons_self ..
    · rw [hz.1.checked] at hb
      exact List.mem_singleton.mp hb
    · refine ⟨?_, hz.1.written, fun r hr => hz.2 _ (List.mem_map_of_mem hr)⟩
      rw [hz.1.before]
      exact hreads

/-- A delete that returns has written what it should, or has found no record of the id and written
nothing. -/
theorem deleteCheckpoint_spec (id : String) :
    Spec P store (.delete o id) .start (deleteCheckpoint P o id) fun found y => match found with
      | true => Deleted P y o id
      | false => y.written = none ∧ y.checked = [] ∧
        ∃ old, Reads P y.reads (registryName o) old ∧ ∀ r ∈ old, r.checkpointId ≠ id := by
  refine Spec.bind (loadRegistry_spec o) fun old y hy => ?_
  obtain ⟨hreads, m, rfl⟩ := hy
  show Spec P store _ _ (if (old.filter fun r => r.checkpointId = id).isEmpty then _ else _) _
  split
  · -- no record has the id
    rename_i hnone
    refine Spec.pure ⟨rfl, rfl, old, hreads, fun r hr hid => ?_⟩
    have hmem : r ∈ old.filter fun r => r.checkpointId = id :=
      List.mem_filter.mpr ⟨hr, decide_eq_true hid⟩
    rw [List.isEmpty_iff.mp hnone] at hmem
    exact absurd hmem List.not_mem_nil
  · rename_i hsome
    obtain ⟨r, hr⟩ := List.exists_mem_of_ne_nil _ fun hnil => hsome (List.isEmpty_iff.mpr hnil)
    obtain ⟨hmem, hid⟩ := List.mem_filter.mp hr
    have hfound : ∃ r ∈ old, r.checkpointId = id := ⟨r, hmem, of_decide_eq_true hid⟩
    refine Spec.act (c := .writeRegistry _ _) ⟨rfl, rfl, old, hreads, hfound, rfl⟩ fun _ => ?_
    refine Spec.bind (gcBlobIds_spec _ rfl) fun _ z hz => Spec.pure ⟨hz.1.checked, old, ?_, hfound,
      hz.1.written, fun r hr hid => hz.2 _ (List.mem_map_of_mem ?_)⟩
    · rw [hz.1.before]
      exact hreads
    · exact List.mem_filter.mpr ⟨hr, decide_eq_true hid⟩

end CheckpointTrail

namespace CheckpointOp

open CheckpointTrail

/-- **The trail at the end of a call**, by how it ended. Of a call that failed nothing is said but
what the watch says along the way. -/
def Finishes (P : ArtifactPlatform) (store : CheckpointStore) (op : CheckpointOp)
    (x : CheckpointTrail) : Outcome SodlError CheckpointReply → Prop
  | .ok (.saved record) => ∃ o payload request, op = save o payload request ∧
    Saved P store x o payload request record
  | .ok (.deleted found) => ∃ o id, op = delete o id ∧ match found with
    | true => Deleted P x o id
    | false => x.written = none ∧ x.checked = [] ∧
      ∃ old, Reads P x.reads (registryName o) old ∧ ∀ r ∈ old, r.checkpointId ≠ id
  | _ => True

variable {P : ArtifactPlatform} {store : CheckpointStore}

/-- **Every call keeps to the watch**, whatever replies it gets, and ends as it should. -/
theorem guided (op : CheckpointOp) :
    (op.prog P store).Guided (watch P store op) (op.Finishes P store) .start := by
  have hmono : ∀ {p : CheckpointProg CheckpointReply}, Spec P store op .start p
      (fun reply y => op.Finishes P store y (.ok reply)) →
        p.Guided (watch P store op) (op.Finishes P store) .start := by
    intro p hp
    refine (hp _ rfl).mono fun y r hy => ?_
    cases r with
    | ok reply => exact hy
    | err e => trivial
    | panic => trivial
  cases op with
  | save o payload request =>
    refine hmono (Spec.bind (saveCheckpointBytes_spec payload request) fun record y hy => ?_)
    exact Spec.pure ⟨o, payload, request, rfl, hy⟩
  | delete o id =>
    refine hmono (Spec.bind (deleteCheckpoint_spec id) fun found y hy => ?_)
    exact Spec.pure ⟨o, id, rfl, hy⟩

end CheckpointOp

end Sodl
