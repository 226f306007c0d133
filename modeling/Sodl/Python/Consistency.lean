import Sodl.Python.Store

/-!
# Checking and repairing blobs

`ConsistencyChecker` (`src/python/sodl_weights/consistency.py`) over a `BlobStore` of the SDK: a
check reads the blob and computes its id, and a repair puts data whose id was computed before.

With the native module a repair is a put of `Sodl.FsBlobStore`, and returns `True` as soon as
something is at the path. What was damaged stays damaged, which is the one thing a repair is called
for (`Sodl.Python.BlobStore.localValid_repairBlob_iff`). Without the native module it overwrites.

`Sodl.put_establishes` puts this together with what the stores themselves do.
-/

namespace Sodl

open Effect UnixPath

variable {P : Platform}

/-! ### The checker -/

namespace Python

/-- Result of checking a single blob: whether it is there, whether what is read of it has its id,
and which nodes have it. -/
structure BlobCheckResult where
  blobId : BlobId
  existsLocally : Bool := false
  localValid : Bool := false
  healthyNodes : List String := []
  corruptNodes : List String := []

namespace BlobStore

variable (P)
variable (store : BlobStore)

/-- Check a single blob for integrity. The requests of the two calls may be answered differently. -/
def checkBlob (hasNet getNet : Net) (id : BlobId) (d : Disk) :
    Outcome SodlError BlobCheckResult × Disk :=
  match store.has hasNet id d with
  | .panic => (.panic, d)
  -- an exception is logged
  | .err _ => (.ok { blobId := id }, d)
  | .ok false => (.ok { blobId := id }, d)
  | .ok true =>
    match store.get P getNet id d with
    | (.panic, d) => (.panic, d)
    | (.err _, d) => (.ok { blobId := id, existsLocally := true }, d)
    | (.ok data, d) =>
      if computeBlobId P data .blake3 = id then (.ok ⟨id, true, true, ["local"], []⟩, d)
      else (.ok ⟨id, true, false, [], ["local"]⟩, d)

/-- Verify that data matches its id, by the hash that the SDK computes. -/
def verifyData (id : BlobId) (data : Bytes) : Bool := computeBlobId P data .blake3 = id

/-- Repair a corrupt or missing blob by re-writing from good data, which is checked against the id
first. -/
def repairBlob (id : BlobId) (data : Bytes) (d : Disk) : Outcome SodlError Bool × Disk :=
  if verifyData P id data then
    match store.put id data d with
    | (.panic, d) => (.panic, d)
    | (.err _, d) => (.ok false, d)
    | (.ok _, d) => (.ok true, d)
  else (.ok false, d)

end BlobStore

end Python

/-! ### What is at the path of a blob -/

namespace FsBlobStore

variable (store : FsBlobStore)

/-- Nothing is at the path of a blob, or the data itself is. -/
def FreeFor (id : BlobId) (data : Bytes) (d : Disk) : Prop :=
  ∃ dir path, store.blobPath id = .ok (dir, path) ∧
    (d.pathExists path = false ∨ d.fileAt (locate d.cwd path) = some data)

/-- A directory is at the path of a blob, so that there is something which cannot be read. -/
def DirAt (id : BlobId) (d : Disk) : Prop :=
  ∃ dir path, store.blobPath id = .ok (dir, path) ∧ d.nodeAt (locate d.cwd path) = some .dir

variable {store} {id : BlobId} {data : Bytes} {d : Disk} {dir path : Path}

/-- Whether a path is free for data, of an id whose path is known. -/
theorem freeFor_iff (hpath : store.blobPath id = .ok (dir, path)) :
    store.FreeFor id data d ↔
      d.pathExists path = false ∨ d.fileAt (locate d.cwd path) = some data := by
  constructor
  · rintro ⟨dir', path', hpath', hfree⟩
    obtain ⟨rfl, rfl⟩ := Prod.mk.inj (Outcome.ok.inj (hpath.symm.trans hpath'))
    exact hfree
  · exact fun hfree => ⟨dir, path, hpath, hfree⟩

/-- Whether a directory is at the path, of an id whose path is known. -/
theorem dirAt_iff (hpath : store.blobPath id = .ok (dir, path)) :
    store.DirAt id d ↔ d.nodeAt (locate d.cwd path) = some .dir := by
  constructor
  · rintro ⟨dir', path', hpath', hdir⟩
    obtain ⟨rfl, rfl⟩ := Prod.mk.inj (Outcome.ok.inj (hpath.symm.trans hpath'))
    exact hdir
  · exact fun hdir => ⟨dir, path, hpath, hdir⟩

/-- A put that returns `Ok` was of an id that has a path. -/
theorem blobPath_of_put (h : (store.put id data d).1 = .ok ()) :
    ∃ dir path, store.blobPath id = .ok (dir, path) := by
  rcases hpath : store.blobPath id with ⟨dir, path⟩ | e | _
  · exact ⟨dir, path, rfl⟩
  · rw [put, hpath] at h
    cases h
  · rw [put, hpath] at h
    cases h

/-- After a put that returns `Ok` something is at the path of the id. -/
theorem has_of_put (h : (store.put id data d).1 = .ok ()) :
    store.has id (store.put id data d).2 = .ok true := by
  obtain ⟨dir, path, hpath⟩ := blobPath_of_put h
  obtain ⟨hcwd, -, hnew, -⟩ := put_spec hpath data d
  rw [has, hpath, Outcome.ok_bind]
  refine congrArg Outcome.ok ?_
  by_cases hthere : d.pathExists path = true
  · rw [put_of_pathExists hpath hthere]
    exact hthere
  · have hfile := hnew h (Bool.eq_false_iff.mpr hthere)
    rw [Disk.pathExists, hcwd, Disk.nodeAt_of_fileAt hfile]
    rfl

/-- A step that leaves the blob of an id alone: it is on another id that is computed from a blob, or
on one whose files are elsewhere. -/
def Spares (P : Platform) (store : FsBlobStore) (cwd : List Name) (id : BlobId) (op : BlobOp) :
    Prop :=
  (op.id ≠ id ∧ ∃ data alg, op.id = computeBlobId P data alg) ∨
    ∀ dir path, store.blobPath id = .ok (dir, path) → store.Avoids cwd op.id (locate cwd path)

end FsBlobStore

/-! ### A check after a repair -/

namespace Python.BlobStore

variable {store : BlobStore} {hasNet getNet : Net} {id : BlobId} {data : Bytes} {d d' : Disk}

/-- A repair that returns `True` was handed data of the right id, and has put it. -/
theorem put_of_repairBlob (h : store.repairBlob P id data d = (.ok true, d')) :
    computeBlobId P data .blake3 = id ∧ store.put id data d = (.ok (), d') := by
  rw [repairBlob] at h
  by_cases hv : verifyData P id data = true
  · rw [if_pos hv] at h
    refine ⟨of_decide_eq_true hv, ?_⟩
    rcases hput : store.put id data d with ⟨u | e | _, d₁⟩
    · rw [hput] at h
      exact Prod.ext rfl (Prod.ext_iff.mp h).2
    · rw [hput] at h
      exact absurd h (by simp)
    · rw [hput] at h
      exact absurd h (by simp)
  · rw [if_neg hv] at h
    exact absurd h (by simp)

/-- A check reports a valid blob exactly if the store says it has it and hands out data of its
id. -/
theorem localValid_checkBlob_iff (hhas : store.has hasNet id d = .ok true) :
    (∃ r, (store.checkBlob P hasNet getNet id d).1 = .ok r ∧ r.localValid = true) ↔
      ∃ x, (store.get P getNet id d).1 = .ok x ∧ computeBlobId P x .blake3 = id := by
  rw [checkBlob, hhas]
  rcases hget : store.get P getNet id d with ⟨x | e | _, d₁⟩
  · by_cases hx : computeBlobId P x .blake3 = id
    · simp [hx]
    · simp [hx]
  · simp
  · simp

/-- **The exact condition of a repair**: that the store overwrites, or that the native one finds
nothing or the data itself at the path – or else a directory, where reading fails and the data is
found among the old files, the sources and the servers. -/
def Repairs (store : BlobStore) (getNet : Net) (id : BlobId) (data : Bytes) (d : Disk) : Prop :=
  store.native = false ∨ (PyFsBlobStore.inner store).FreeFor id data d ∨
    ((PyFsBlobStore.inner store).DirAt id d ∧ store.legacy getNet id d = .ok data)

/-- What the native store has at the path, the store of the SDK says it has. -/
theorem has_of_native (hnative : store.native = true)
    (h : (PyFsBlobStore.inner store).has id d = .ok true) : store.has hasNet id d = .ok true := by
  have hpy : PyFsBlobStore.has store hasNet id d = .ok true := by
    rw [PyFsBlobStore.has, h]
    rfl
  rw [has, if_pos hnative, hpy]

/-- What the native store reads, the store of the SDK hands out, and changes nothing. -/
theorem get_of_native (hnative : store.native = true)
    (h : (PyFsBlobStore.inner store).has id d = .ok true) {x : Bytes}
    (hget : (PyFsBlobStore.inner store).get id d = .ok x) :
    store.get P getNet id d = (.ok x, d) := by
  have hpy : PyFsBlobStore.get P store getNet id d = (.ok x, d) := by
    rw [PyFsBlobStore.get, h]
    exact Prod.ext hget rfl
  rw [get, if_pos hnative, hpy]

/-- Where reading fails with something at the path, `get` finds what is found elsewhere. -/
theorem get_of_native_err (hnative : store.native = true)
    (h : (PyFsBlobStore.inner store).has id d = .ok true) {e : SodlError}
    (hget : (PyFsBlobStore.inner store).get id d = .err e) :
    (store.get P getNet id d).1 = store.legacy getNet id d := by
  have hpy : PyFsBlobStore.get P store getNet id d = (.err e, d) := by
    rw [PyFsBlobStore.get, h]
    exact Prod.ext hget rfl
  have hput : ∀ x, PyFsBlobStore.put store id x d = (.ok (), d) := by
    intro x
    obtain ⟨⟨dir, path⟩, hpath, hthere⟩ := Outcome.bind_eq_ok.mp h
    exact FsBlobStore.put_of_pathExists hpath (Outcome.ok.inj hthere)
  have hkeep : ∀ found, (keep (store.tryPut id) found d).1 = found := by
    intro found
    cases found with
    | ok x => rw [keep, tryPut, hput]; rfl
    | err e => rfl
    | panic => rfl
  rw [get, if_pos hnative, hpy]
  exact hkeep _

/-- Without the native module, what was put is said to be there and is read. -/
theorem get_of_flat (hasNet getNet : Net) (hflat : store.native = false)
    (hput : store.put id data d = (.ok (), d')) :
    store.has hasNet id d' = .ok true ∧ store.get P getNet id d' = (.ok data, d') := by
  rw [put, hflat, if_neg Bool.false_ne_true, writeBytes] at hput
  rcases hw : d.write (store.path id) data with e | d₁
  · rw [hw] at hput
    exact absurd hput (by simp)
  · rw [hw] at hput
    obtain rfl : d₁ = d' := (Prod.ext_iff.mp hput).2
    obtain ⟨hcwd, -, hnode⟩ := Disk.nodeAt_write hw
    have hfile : d₁.fileAt (locate d₁.cwd (store.path id)) = some data := by
      rw [Disk.fileAt, hcwd, hnode, if_pos rfl]
    have hthere : d₁.pathExists (store.path id) = true := by
      rw [Disk.pathExists, Disk.nodeAt_of_fileAt hfile]
      rfl
    constructor
    · rw [has, hflat, if_neg Bool.false_ne_true, flatHas, if_pos hthere]
      rfl
    · rw [get, hflat, if_neg Bool.false_ne_true, if_pos hthere, readBytes,
        Disk.read_eq_ok.mpr hfile]

/-- **A repair that returns `True`** makes the next check report a valid blob exactly under its
condition. -/
theorem localValid_repairBlob_iff (hcf : P.CollisionFree)
    (h : store.repairBlob P id data d = (.ok true, d')) :
    (∃ r, (store.checkBlob P hasNet getNet id d').1 = .ok r ∧ r.localValid = true) ↔
      Repairs store getNet id data d := by
  obtain ⟨hid, hput⟩ := put_of_repairBlob h
  have hsame : ∀ x, computeBlobId P x .blake3 = id ↔ x = data := by
    intro x
    constructor
    · exact fun hx => computeBlobId_injective hcf (hx.trans hid.symm)
    · rintro rfl
      exact hid
  by_cases hnative : store.native = true
  · rw [put, if_pos hnative] at hput
    have hok : ((PyFsBlobStore.inner store).put id data d).1 = .ok () := (Prod.ext_iff.mp hput).1
    have hd' : ((PyFsBlobStore.inner store).put id data d).2 = d' := (Prod.ext_iff.mp hput).2
    have hhas : (PyFsBlobStore.inner store).has id d' = .ok true := hd' ▸ FsBlobStore.has_of_put hok
    obtain ⟨dir, path, hpath⟩ := FsBlobStore.blobPath_of_put hok
    obtain ⟨hcwd, -, hnew, -⟩ := FsBlobStore.put_spec hpath data d
    rw [localValid_checkBlob_iff (has_of_native hnative hhas)]
    simp only [hsame, exists_eq_right]
    rw [Repairs, FsBlobStore.dirAt_iff hpath, FsBlobStore.freeFor_iff hpath]
    by_cases hthere : d.pathExists path = true
    · -- the put did nothing, and the read meets what was there
      rw [FsBlobStore.put_of_pathExists hpath hthere] at hd'
      obtain rfl : d = d' := hd'
      rcases hnode : d.nodeAt (locate d.cwd path) with _ | x | _
      · rw [Disk.pathExists, hnode] at hthere
        cases hthere
      · have hfile : d.fileAt (locate d.cwd path) = some x := by rw [Disk.fileAt, hnode]
        rw [get_of_native hnative hhas ((FsBlobStore.get_eq_ok hpath).mpr hfile), hfile]
        simp [hnative, hthere]
      · have hget : ∃ e, (PyFsBlobStore.inner store).get id d = .err e := by
          rw [FsBlobStore.get, hpath, Outcome.ok_bind]
          simp only [Disk.read, hnode]
          exact ⟨_, rfl⟩
        obtain ⟨e, hget⟩ := hget
        rw [get_of_native_err hnative hhas hget]
        simp [hnative, hthere, Disk.fileAt, hnode]
    · have hnone : d.pathExists path = false := Bool.eq_false_iff.mpr hthere
      have hfile : d'.fileAt (locate d'.cwd path) = some data := by
        rw [← hd', hcwd]
        exact hnew hok hnone
      rw [get_of_native hnative hhas ((FsBlobStore.get_eq_ok hpath).mpr hfile)]
      simp [hnone]
  · have hflat : store.native = false := Bool.eq_false_iff.mpr hnative
    obtain ⟨hhas, hget⟩ := get_of_flat (P := P) hasNet getNet hflat hput
    rw [localValid_checkBlob_iff hhas, hget]
    simp only [Repairs, hflat, true_or, iff_true]
    exact ⟨data, rfl, hid⟩

end Python.BlobStore

/-! ### The law of a put -/

/-- **What a put establishes.** Let a blob be put under the id computed from it.
* In the store in memory it is there until the next step on the id.
* If the store on disk returns `Ok`, it is there until the next step on the id exactly if nothing,
  or the blob itself, was at the path before.
* If a repair returns `True`, the next check reports a valid blob exactly if `Repairs` holds. -/
theorem put_establishes (hcf : P.CollisionFree) (hhex : P.DigestsAreHex) (data : Bytes)
    (alg : HashAlg) :
    (∀ (store : MemBlobStore) (ops : List BlobOp),
      (∀ op ∈ ops, op.id ≠ computeBlobId P data alg) →
      MemBlobStore.get (ops.foldl MemBlobStore.perform
        (store.put (computeBlobId P data alg) data).2) (computeBlobId P data alg) = .ok data) ∧
    (∀ (store : FsBlobStore) (d : Disk), (store.put (computeBlobId P data alg) data d).1 = .ok () →
      ((∀ ops : List BlobOp,
          (∀ op ∈ ops, FsBlobStore.Spares P store d.cwd (computeBlobId P data alg) op) →
          store.get (computeBlobId P data alg) (ops.foldl store.perform
            (store.put (computeBlobId P data alg) data d).2) = .ok data) ↔
        store.FreeFor (computeBlobId P data alg) data d)) ∧
    ∀ (store : Python.BlobStore) (hasNet getNet : Python.Net) (id : BlobId) (d d' : Disk),
      store.repairBlob P id data d = (.ok true, d') →
      ((∃ r, (store.checkBlob P hasNet getNet id d').1 = .ok r ∧ r.localValid = true) ↔
        store.Repairs getNet id data d) := by
  refine ⟨fun store ops hops => MemBlobStore.get_put store _ data hops, fun store d hput => ?_,
    fun store hasNet getNet id d d' h => Python.BlobStore.localValid_repairBlob_iff hcf h⟩
  obtain ⟨dir, path, hpath⟩ := FsBlobStore.blobPath_of_put hput
  have hspares : ∀ op : BlobOp,
      FsBlobStore.Spares P store d.cwd (computeBlobId P data alg) op ↔
        store.Avoids d.cwd op.id (locate d.cwd path) := by
    intro op
    constructor
    · rintro (⟨hne, x, alg', hop⟩ | hthere)
      · rw [hop] at hne ⊢
        exact apart_computed hhex store d.cwd hne hpath
      · exact hthere dir path hpath
    · intro havoid
      refine Or.inr fun dir' path' hpath' => ?_
      obtain ⟨rfl, rfl⟩ := Prod.mk.inj (Outcome.ok.inj (hpath.symm.trans hpath'))
      exact havoid
  simp only [hspares, FsBlobStore.get_put_iff hpath hput, FsBlobStore.freeFor_iff hpath]

private def oneRoot : FsBlobStore := ⟨"/".toList⟩

private def oneSdk : Python.BlobStore := ⟨"/".toList, [], [], [], true⟩

private def noNet : Python.Net := ⟨fun _ => .error "refused", fun _ => .failed⟩

private def seven : BlobId := computeBlobId samplePlatform [7] .blake3

/-- The file of the blob, cut short. -/
private def cutShort : Disk :=
  ⟨[], ((Table.insert ∅ ["blake3".toList] Node.dir).insert ["blake3".toList, "00".toList]
    .dir).insert ["blake3".toList, "00".toList, "7".toList] (.file [])⟩

/-- On an empty disk, what was put is read after another blob was put. -/
theorem put_establishes_empty :
    oneRoot.get seven (oneRoot.perform (oneRoot.put seven [7] ⟨[], ∅⟩).2
      (.put (computeBlobId samplePlatform [8] .blake3) [8])) = .ok [7] := by
  have hlaw := put_establishes samplePlatform_collisionFree samplePlatform_digestsAreHex [7] .blake3
  have hput : (oneRoot.put seven [7] ⟨[], ∅⟩).1 = .ok () := by decide +kernel
  have hfree : oneRoot.FreeFor seven [7] ⟨[], ∅⟩ := by
    have hpath : oneRoot.blobPath seven = .ok ("/blake3/00".toList, "/blake3/00/7".toList) := by
      decide +kernel
    exact ⟨_, _, hpath, Or.inl (by decide +kernel)⟩
  refine (hlaw.2.1 oneRoot ⟨[], ∅⟩ hput).mpr hfree [.put _ [8]] ?_
  refine List.forall_mem_singleton.mpr (Or.inl ⟨?_, [8], .blake3, rfl⟩)
  decide +kernel

/-- The put returns `Ok` and the blob stays cut short; a repair returns `True` and the check still
does not report a valid blob. -/
theorem not_put_establishes :
    ((oneRoot.put seven [7] cutShort).1 = .ok () ∧
      oneRoot.get seven (oneRoot.put seven [7] cutShort).2 ≠ .ok [7]) ∧
    (oneSdk.repairBlob samplePlatform seven [7] cutShort).1 = .ok true ∧
      ¬∃ r, (oneSdk.checkBlob samplePlatform noNet noNet seven
        (oneSdk.repairBlob samplePlatform seven [7] cutShort).2).1 = .ok r ∧
          r.localValid = true := by
  have hcheck : ((oneSdk.checkBlob samplePlatform noNet noNet seven
      (oneSdk.repairBlob samplePlatform seven [7] cutShort).2).1 >>= fun r =>
        Outcome.ok r.localValid) = .ok false := by
    decide +kernel
  refine ⟨by decide +kernel, by decide +kernel, ?_⟩
  rintro ⟨r, hr, hvalid⟩
  rw [hr, Outcome.ok_bind, hvalid] at hcheck
  exact absurd hcheck (by decide)

end Sodl
