import Sodl.Effect.Pool
import Sodl.Optimizer.Names

/-!
# What a method of the optimizer-state store relies on

A method learns from the replies it gets – a manifest it read, a blob it fetched, the cache as
it saw it – and acts on what it learned. The trail (`Sodl.OptimizerTrail`) is what it has
learned and done so far, and `Sodl.OptimizerTrail.watch` says on what knowledge each of the
calls that change something may be made:

* a block is read back through a record that the manifest had for it, and is decompressed and put
  into the cache only if the cache had nothing newer;
* only entries that were seen clean are removed, and only while no flush is half done;
* an entry is marked clean only under the guard under which it was seen dirty, with a record
  that names its bytes and a blob that was seen or written;
* a manifest is saved as it was read, with the records of the blocks marked since;
* a blob is deleted only if the manifests that were read after the last save do not name it.

All methods keep to the watch (`Sodl.OptimizerOp.traced`), whatever other methods do in
between. Whether what a method knows is still true is another question, and not answered here.
-/

namespace Sodl

open Effect Optimizer

/-! ### Trails -/

/-- What a method of the store has learned from the replies it got, and what it has done with the
calls it made. A specification of a method relates the trail it starts from to the trail it ends
with. -/
structure OptimizerTrail where
  /-- The guards it has. -/
  held : List Mutex
  /-- The cache as it was last seen, with the method's own changes since. -/
  seen : Option OptimizerCache
  /-- It was seen under the guard the method still has. -/
  fresh : Bool
  /-- The caches that were seen since a block was last staged. -/
  views : List OptimizerCache
  /-- The manifests that were read since one was last saved. -/
  reads : List (String × Option OptimizerStateManifest)
  /-- The files of the registry directory, as they were listed since. -/
  names : Option (List String)
  /-- The blobs that were fetched. -/
  gotten : List (BlobId × Bytes)
  /-- Compressed bytes, and what they were decompressed to. -/
  decoded : List (Bytes × Bytes)
  /-- Bytes, and what they were compressed to. -/
  encoded : List (Bytes × Bytes)
  /-- The blobs that were seen or written under the guard of the cache. -/
  checked : List BlobId
  /-- The blocks that were marked clean since a manifest was last saved. -/
  marks : Table String OptimizerBlockRecord
  /-- The keys of the blocks that were marked clean and saved. -/
  flushed : List String
  /-- The blocks that were staged, the last one first. -/
  staged : List (String × Bytes)
  /-- The manifests that were saved. -/
  saved : List OptimizerStateManifest
  /-- A call failed between the marking of a block and the saving of a manifest. -/
  broken : Bool
  /-- A call failed. -/
  erred : Bool

namespace OptimizerTrail

/-- The trail of a method that was just called: it holds no guard, has seen nothing, and has made no
change that a later step would have to take back. -/
def start : OptimizerTrail where
  held := []
  seen := none
  fresh := false
  views := []
  reads := []
  names := none
  gotten := []
  decoded := []
  encoded := []
  checked := []
  marks := ∅
  flushed := []
  staged := []
  saved := []
  broken := false
  erred := false

/-- The trail after a guard was taken. Other threads may have changed the cache before the guard was
granted, so that what was seen of it earlier may be out of date. -/
def locked (x : OptimizerTrail) : Mutex → OptimizerTrail
  | .cache => { x with held := .cache :: x.held, fresh := false, checked := [] }
  | .pinned => { x with held := .pinned :: x.held }

/-- The trail after a guard was dropped, by hand or at the end of its scope. What was seen of the
cache stays on it, as the code keeps using the copies it made. -/
def unlocked (x : OptimizerTrail) (m : Mutex) : OptimizerTrail := { x with held := x.held.erase m }

/-- The trail after a look at the cache: the cache is known as it is under the guard, and is one
more view since a block was last staged. -/
def looked (x : OptimizerTrail) (c : OptimizerCache) : OptimizerTrail :=
  { x with seen := some c, fresh := true, views := c :: x.views }

/-- The trail after a change to the cache. The method knows what its own change does to the cache it
last saw, and a staged block makes the earlier views worthless. -/
def updated (x : OptimizerTrail) (u : CacheUpdate) : OptimizerTrail :=
  let seen := x.seen.map u.apply
  match u with
  | .stage key input _ _ =>
    { x with seen := seen, views := [], staged := (key, input.payload) :: x.staged }
  | .mark key record _ =>
    { x with seen := seen, views := seen.toList ++ x.views, marks := x.marks.insert key record }
  | _ => { x with seen := seen }

/-- The trail after a manifest was saved. The marks the method made are covered by it, and what was
read from the directory before is out of date. -/
def wrote (x : OptimizerTrail) (m : OptimizerStateManifest) : OptimizerTrail :=
  { x with
    reads := []
    names := none
    marks := ∅
    flushed := x.marks.keys ++ x.flushed
    saved := m :: x.saved }

/-- The trail after a call that failed. It is broken when entries were marked clean that no saved
manifest holds, since the failure keeps the method from saving one. -/
def failed (x : OptimizerTrail) : OptimizerTrail :=
  { x with broken := x.broken || !x.marks.keys.isEmpty, erred := true }

/-- What each call adds to the trail, by the call and the outcome it had. A call that only writes
the pinned set, or drops a blob that was not there, adds nothing. -/
def note : Note optimizerSig OptimizerTrail
  | x, .unlock m, _ => x.unlocked m
  | x, .lock m, .ok _ => x.locked m
  | x, .getCache, .ok c => x.looked c
  | x, .update u, .ok _ => x.updated u
  | x, .readManifest name, .ok m => { x with reads := (name, m) :: x.reads }
  | x, .writeManifest _ m, .ok _ => x.wrote m
  | x, .readDir, .ok names => { x with names := some names }
  | x, .hasBlob b, .ok there => if there then { x with checked := b :: x.checked } else x
  | x, .putBlob b _, .ok _ => { x with checked := b :: x.checked }
  | x, .getBlob b, .ok data => { x with gotten := (b, data) :: x.gotten }
  | x, .deleteBlob _, .ok _ => { x with checked := [] }
  | x, .encode data _, .ok compressed => { x with encoded := (data, compressed) :: x.encoded }
  | x, .decode compressed, .ok data => { x with decoded := (compressed, data) :: x.decoded }
  | x, _, .ok _ => x
  | x, _, _ => x.failed

/-! ### The watch -/

/-- The cache was seen without a dirty entry under the key since a block was last staged, so that no
newer state of the block would be lost by reading it back. -/
def NotDirty (x : OptimizerTrail) (key : String) : Prop :=
  ∃ c ∈ x.views, ∀ e, c.lookup key = some e → e.dirty = false

/-- The record is one that was read from the manifest of a block since a manifest was last saved: it
stands under the id of the block there. -/
def ReadRecord (x : OptimizerTrail) (p : BlockName) (record : OptimizerBlockRecord) : Prop :=
  ∃ m, (p.file, some m) ∈ x.reads ∧ m.blocks.lookup p.2 = some record

/-- A block that was read back through a record of its manifest, and may be put into the cache: its
bytes are the decompressed blob of the record, and nothing newer is in the cache. -/
structure Hydrates (N : Set BlockName) (x : OptimizerTrail) (key : String)
    (block : CachedOptimizerBlock) (record : OptimizerBlockRecord) : Prop where
  clean : block.dirty = false
  latest : block.latestRecord = some record
  recorded : ∃ p ∈ N, key = p.key ∧ ReadRecord x p record
  named : ∃ z, (record.blobId, z) ∈ x.gotten ∧ (z, block.bytes) ∈ x.decoded
  notDirty : x.NotDirty key

/-- An entry that was seen dirty under the guard the method still has, and whose compressed bytes
were found or put under the blob id of the record: it may be marked clean. -/
structure Marks (P : ArtifactPlatform) (x : OptimizerTrail) (key : String)
    (record : OptimizerBlockRecord) : Prop where
  fresh : x.fresh = true
  dirty : ∃ c e, x.seen = some c ∧ c.lookup key = some e ∧ e.dirty = true ∧
    ∃ z, (e.bytes, z) ∈ x.encoded ∧ record.blobId = P.blobId z
  checked : record.blobId ∈ x.checked

/-- The changes to the cache that a method may make at a point of its run: staging and inserting
name a block, and only clean entries are removed. -/
def MayUpdate (N : Set BlockName) (P : ArtifactPlatform) (x : OptimizerTrail) : CacheUpdate → Prop
  | .stage key input _ _ => x.marks = ∅ ∧ ∃ p ∈ N, key = p.key ∧ p.2 = input.blockId
  | .insert key block => x.marks = ∅ ∧ ∃ record, Hydrates N x key block record
  | .remove key => x.marks = ∅ ∧ x.fresh = true ∧
    ∃ c, x.seen = some c ∧ ∀ e, c.lookup key = some e → e.dirty = false
  | .mark key record _ => Marks P x key record
  | .touch _ _ => True
  | .setPinned _ _ => True

/-- The manifest is what was read of its origin, with the records of the blocks that were marked
since put over it, so that saving it loses no record. -/
structure Collects (x : OptimizerTrail) (o : String) (read : Option OptimizerStateManifest)
    (m : OptimizerStateManifest) : Prop where
  file : manifestName m.originId = manifestName o
  keys : ∀ key ∈ x.marks, ∃ b, key = cacheKey o b
  blocks : ∀ b, m.blocks.lookup b =
    (x.marks.lookup (cacheKey o b)).or (read.bind fun m => m.blocks.lookup b)

/-- The saves a method may make: outside the guard of the cache, to the file of the origin, of a
manifest that collects what was read and marked. -/
def MaySave (x : OptimizerTrail) (name : String) (m : OptimizerStateManifest) : Prop :=
  Mutex.cache ∉ x.held ∧ ∃ o read, PlainOrigin o ∧ name = manifestName o ∧
    (name, read) ∈ x.reads ∧ Collects x o read m

/-- The deletions a method may make: outside the guard of the cache, of a blob that no manifest of
the last listing refers to, each of which was read since the listing. -/
def MayDelete (x : OptimizerTrail) (b : BlobId) : Prop :=
  Mutex.cache ∉ x.held ∧ x.marks = ∅ ∧ ∃ names, x.names = some names ∧
    ∀ name ∈ names, endsWith name ".optimizer.json" = true →
      ∃ m, (name, some m) ∈ x.reads ∧ b ∉ OptimizerStateStore.blobIds m

/-- The blobs a method may fetch: those that a record names which was read from the manifest of one
of its blocks, never an id from elsewhere. -/
def MayFetch (N : Set BlockName) (x : OptimizerTrail) (b : BlobId) : Prop :=
  ∃ p ∈ N, ∃ record, ReadRecord x p record ∧ record.blobId = b

/-- What a method may decompress: what it fetched for a block that the cache had nothing newer of,
so that what comes out is the last saved state of the block. -/
def MayDecode (N : Set BlockName) (x : OptimizerTrail) (compressed : Bytes) : Prop :=
  x.marks = ∅ ∧ ∃ p ∈ N, ∃ record, ReadRecord x p record ∧
    (record.blobId, compressed) ∈ x.gotten ∧ x.NotDirty p.key

/-- The calls a method may make at a point of its run. The cache and the pinned set are touched
under their guards only, and the other calls as they are allowed above. -/
def May (N : Set BlockName) (P : ArtifactPlatform) (x : OptimizerTrail) : OptimizerCall → Prop
  | .lock m => m ∉ x.held
  | .unlock m => m ∈ x.held
  | .getCache => Mutex.cache ∈ x.held
  | .getPinned => Mutex.pinned ∈ x.held
  | .setPinned _ => Mutex.pinned ∈ x.held
  | .update u => Mutex.cache ∈ x.held ∧ MayUpdate N P x u
  | .writeManifest name m => MaySave x name m
  | .putBlob b data => P.blobId data = b
  | .deleteBlob b => MayDelete x b
  | .getBlob b => MayFetch N x b
  | .decode compressed => MayDecode N x compressed
  | _ => True

/-- The replies a call can have at all: a manifest is found in its own file, a blob under the id of
its bytes, and decompressing gives back what was compressed. -/
def Replies (P : ArtifactPlatform) : (c : OptimizerCall) → Outcome SodlError c.Ret → Prop
  | .readManifest name, .ok (some m) => manifestName m.originId = name
  | .getBlob b, .ok data => P.blobId data = b
  | .encode data _, .ok compressed => P.decodeAll compressed = .ok data
  | .decode compressed, .ok data => P.decodeAll compressed = .ok data
  | _, _ => True

/-- The watch over the methods: what is noted of each call, which calls a method may make, and which
replies the platform can give. -/
def watch (N : Set BlockName) (P : ArtifactPlatform) : Watch optimizerSig OptimizerTrail where
  replies := Replies P
  note := note
  may := May N P

/-! ### Learning without acting -/

/-- The second trail has learned more than the first, and has done nothing since: the guards, the
view of the cache and the marks are the same. -/
structure Extends (x y : OptimizerTrail) : Prop where
  held : y.held = x.held
  seen : y.seen = x.seen
  fresh : y.fresh = x.fresh
  views : y.views = x.views
  reads : x.reads ⊆ y.reads
  names : y.names = x.names
  gotten : x.gotten ⊆ y.gotten
  decoded : x.decoded ⊆ y.decoded
  encoded : x.encoded ⊆ y.encoded
  checked : x.checked ⊆ y.checked
  marks : y.marks = x.marks
  flushed : y.flushed = x.flushed
  staged : y.staged = x.staged
  saved : y.saved = x.saved

/-- A trail extends itself, as a method that makes no call at all has learned nothing and done
nothing. -/
theorem Extends.refl (x : OptimizerTrail) : Extends x x :=
  ⟨rfl, rfl, rfl, rfl, fun _ h => h, rfl, fun _ h => h, fun _ h => h, fun _ h => h, fun _ h => h,
    rfl, rfl, rfl, rfl⟩

/-- Learning twice in a row is learning, so that a method made of parts that only ask is one that
only asks. -/
theorem Extends.trans {x y z : OptimizerTrail} (h : Extends x y) (h' : Extends y z) :
    Extends x z where
  held := h'.held.trans h.held
  seen := h'.seen.trans h.seen
  fresh := h'.fresh.trans h.fresh
  views := h'.views.trans h.views
  reads _ hr := h'.reads (h.reads hr)
  names := h'.names.trans h.names
  gotten _ hr := h'.gotten (h.gotten hr)
  decoded _ hr := h'.decoded (h.decoded hr)
  encoded _ hr := h'.encoded (h.encoded hr)
  checked _ hr := h'.checked (h.checked hr)
  marks := h'.marks.trans h.marks
  flushed := h'.flushed.trans h.flushed
  staged := h'.staged.trans h.staged
  saved := h'.saved.trans h.saved

/-- The calls that only ask: they change neither the shared state of the store nor the guards, and
the trail learns their replies. -/
def asks : OptimizerCall → Bool
  | .readManifest _ | .hasBlob _ | .getBlob _ | .encode _ _ | .decode _ | .nowUtc => true
  | _ => false

/-- What the trail has learned from a reply to a call that asks. The time of day is no fact about
the store, and nothing is learned from it. -/
def Learned : (c : OptimizerCall) → c.Ret → OptimizerTrail → Prop
  | .readManifest name, m, x => (name, m) ∈ x.reads
  | .hasBlob b, there, x => there = true → b ∈ x.checked
  | .getBlob b, data, x => (b, data) ∈ x.gotten
  | .encode data _, compressed, x => (data, compressed) ∈ x.encoded
  | .decode compressed, data, x => (compressed, data) ∈ x.decoded
  | _, _, _ => True

/-- Noting a call that asks and was answered extends the trail, whichever of the calls it is. -/
theorem extends_note {c : OptimizerCall} (hc : asks c = true) (x : OptimizerTrail) (a : c.Ret) :
    Extends x (note x c (.ok a)) := by
  have hsame := Extends.refl x
  cases c with
  | readManifest name => exact { hsame with reads := List.subset_cons_self _ _ }
  | hasBlob b =>
    rcases a with _ | _
    · exact hsame
    · exact { hsame with checked := List.subset_cons_self _ _ }
  | getBlob b => exact { hsame with gotten := List.subset_cons_self _ _ }
  | encode data level => exact { hsame with encoded := List.subset_cons_self _ _ }
  | decode z => exact { hsame with decoded := List.subset_cons_self _ _ }
  | nowUtc => exact hsame
  | _ => exact absurd hc (by simp [asks])

/-- Noting a call that asks puts what it was answered on the trail, where a later call may rely on
it. -/
theorem learned_note {c : OptimizerCall} (hc : asks c = true) (x : OptimizerTrail) (a : c.Ret) :
    Learned c a (note x c (.ok a)) := by
  cases c with
  | readManifest name => exact List.mem_cons_self ..
  | hasBlob b =>
    rintro rfl
    exact List.mem_cons_self ..
  | getBlob b => exact List.mem_cons_self ..
  | encode data level => exact List.mem_cons_self ..
  | decode z => exact List.mem_cons_self ..
  | nowUtc => trivial
  | _ => exact absurd hc (by simp [asks])

/-- A call that was answered does not fail the trail, so that a trail that failed shows a call that
did. -/
theorem erred_note (x : OptimizerTrail) (c : OptimizerCall) (a : c.Ret) :
    (note x c (.ok a)).erred = x.erred := by
  cases c with
  | lock m => cases m <;> rfl
  | update u => cases u <;> rfl
  | hasBlob b => cases a <;> rfl
  | _ => rfl

/-- A call that is not the dropping of a guard leaves the trail failed if it fails: nothing is noted
of it but the failure itself. -/
theorem note_failed {c : OptimizerCall} (hc : ∀ m, c ≠ .unlock m) (x : OptimizerTrail)
    {r : Outcome SodlError c.Ret} (hr : ∀ a, r ≠ .ok a) : note x c r = x.failed := by
  cases r with
  | ok a => exact absurd rfl (hr a)
  | err e =>
    cases c with
    | unlock m => exact absurd rfl (hc m)
    | _ => rfl
  | panic =>
    cases c with
    | unlock m => exact absurd rfl (hc m)
    | _ => rfl

end OptimizerTrail

end Sodl
