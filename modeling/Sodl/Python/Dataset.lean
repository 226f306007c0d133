import Mathlib.Data.Int.Notation
import Sodl.Core
import Sodl.Data.Bisect
import Sodl.Data.OrderedDict
import Sodl.Data.Stride

/-!
# The sharded dataset

`SODLDataset` (`src/python/sodl_weights/dataset.py`) reads the entries of an array that is kept in
shards, each a blob. A shard is loaded when one of its entries is asked for, and stays in a cache
that drops the shards used longest ago.

It behaves like the concatenation of its shards as long as the cache can hold one
(`Sodl.Python.SODLDataset.getItem_run_iff`): with no room at all the shard just loaded is gone
before the entry is read from it, and the lookup raises. The workers of a loader share out the
shards if they shuffle them alike, for which they need a seed
(`Sodl.Python.SODLDataset.workers_partition_iff`).

The blob store, zstd and `np.load` are parameters, and so are the shuffles of numpy.
-/

namespace Sodl

namespace Python

variable {V : Type}

/-! ### Shards -/

/-- The descriptor of a shard. -/
structure ShardDescriptor where
  blobId : BlobId
  nSamples : ℕ

inductive DatasetError
  | indexError (text : String)
  | keyError (shard : ℕ)
  | valueError (text : String)
  | store (e : SodlError)
  deriving DecidableEq

/-- What a shard is read with. -/
structure ShardFormats (V : Type) where
  /-- The `get` of the blob store. -/
  get : BlobId → Except SodlError Bytes
  /-- `ZstdDecompressor.decompress`, or `none` where it raises `ZstdError`. -/
  decompress : Bytes → Option Bytes
  npLoad : Bytes → Except SodlError (List V)

/-- What is read of a shard: its blob, decompressed unless it is not compressed. -/
def ShardFormats.load (F : ShardFormats V) (shard : ShardDescriptor) :
    Except DatasetError (List V) := do
  let compressed ← (F.get shard.blobId).mapError .store
  let raw := (F.decompress compressed).getD compressed
  (F.npLoad raw).mapError .store

structure SODLDataset (V : Type) where
  shards : List ShardDescriptor
  transform : Option (V → V)
  cacheCapacity : ℕ
  cumulative : List ℕ
  totalSamples : ℕ
  cache : Dict ℕ (List V)

namespace SODLDataset

/-- The counts of samples up to and with each shard, and of all of them. -/
def cumulate : ℕ → List ShardDescriptor → List ℕ × ℕ
  | total, [] => ([], total)
  | total, shard :: shards =>
    let total := total + shard.nSamples
    let (cumulative, all) := cumulate total shards
    (total :: cumulative, all)

def init (shards : List ShardDescriptor) (transform : Option (V → V)) (cacheCapacity : ℤ) :
    SODLDataset V where
  shards := shards
  transform := transform
  cacheCapacity := (max 0 cacheCapacity).toNat
  cumulative := (cumulate 0 shards).1
  totalSamples := (cumulate 0 shards).2
  cache := []

/-! ### Reading -/

variable (F : ShardFormats V) (ds : SODLDataset V)

/-- `_load_shard`. -/
def loadShard (shardIdx : ℕ) : Except DatasetError (List V) :=
  match ds.shards[shardIdx]? with
  | none => .error (.indexError "list index out of range")
  | some shard => F.load shard

def cacheShard (shardIdx : ℕ) (shard : List V) : SODLDataset V :=
  let cache := (ds.cache.set shardIdx shard).moveToEnd shardIdx
  if ds.cacheCapacity = 0 then { ds with cache := [] }
  else { ds with cache := cache.evict ds.cacheCapacity }

def clearCache : SODLDataset V := { ds with cache := [] }

/-- Move a cached shard to the end, or load a shard into the cache. -/
def ensureCached (shardIdx : ℕ) : Except DatasetError Unit × SODLDataset V :=
  match ds.cache.get? shardIdx with
  | some _ => (.ok (), { ds with cache := ds.cache.moveToEnd shardIdx })
  | none =>
    match ds.loadShard F shardIdx with
    | .error e => (.error e, ds)
    | .ok shard => (.ok (), ds.cacheShard shardIdx shard)

/-- `self._cache[shard_idx][offset]`, transformed. -/
def sampleAt (shardIdx offset : ℕ) : Except DatasetError V :=
  match ds.cache.get? shardIdx with
  | none => .error (.keyError shardIdx)
  | some shard =>
    match shard[offset]? with
    | none => .error (.indexError
        s!"index {offset} is out of bounds for axis 0 with size {shard.length}")
    | some sample => .ok (ds.transform.elim sample fun transform => transform sample)

/-- `__getitem__`. -/
def getItem (index : ℤ) : Except DatasetError V × SODLDataset V :=
  let idx : ℤ := if index < 0 then ds.totalSamples + index else index
  if idx < 0 ∨ (ds.totalSamples : ℤ) ≤ idx then
    (.error (.indexError s!"Index {idx} out of range [0, {ds.totalSamples})"), ds)
  else
    let idx := idx.toNat
    let shardIdx := Bisect.bisectRight ds.cumulative idx
    let offset := if shardIdx = 0 then idx else idx - ds.cumulative[shardIdx - 1]?.getD 0
    match ds.ensureCached F shardIdx with
    | (.error e, ds) => (.error e, ds)
    | (.ok (), ds) => (ds.sampleAt shardIdx offset, ds)

def prefetchShards (ds : SODLDataset V) : List ℤ → Except DatasetError Unit × SODLDataset V
  | [] => (.ok (), ds)
  | shardIdx :: rest =>
    if shardIdx < 0 ∨ (ds.shards.length : ℤ) ≤ shardIdx then prefetchShards ds rest
    else
      match ds.ensureCached F shardIdx.toNat with
      | (.error e, ds) => (.error e, ds)
      | (.ok (), ds) => prefetchShards ds rest

/-! ### Histories -/

/-- The calls that read or change the cache. -/
inductive Call
  | index (i : ℤ)
  | prefetch (shardIndices : List ℤ)
  | clear

/-- A dataset after a call, whether the call raised or not. -/
def after : Call → SODLDataset V
  | .index i => (ds.getItem F i).2
  | .prefetch shardIndices => (ds.prefetchShards F shardIndices).2
  | .clear => ds.clearCache

def run (ds : SODLDataset V) (history : List Call) : SODLDataset V := history.foldl (after F) ds

/-- The shards hold these arrays, and their descriptors count the samples right. -/
def Holds (shards : List ShardDescriptor) (arrays : List (List V)) : Prop :=
  List.Forall₂ (fun shard array => F.load shard = .ok array ∧
    shard.nSamples = array.length) shards arrays

/-- Indexing a list in Python, from its end for a negative index. -/
def pyGet? (l : List V) (i : ℤ) : Option V :=
  let i := if i < 0 then l.length + i else i
  if i < 0 then none else l[i.toNat]?

/-- The answer of a dataset that is the concatenation of the arrays. -/
def IsItem (transform : Option (V → V)) (arrays : List (List V)) (i : ℤ)
    (answer : Except DatasetError V) : Prop :=
  match pyGet? arrays.flatten i with
  | none => ∃ text, answer = .error (.indexError text)
  | some v => answer = .ok (transform.elim v fun transform => transform v)

/-! ### What a history keeps -/

/-- A dataset whose cache is within the bound and holds what the shards hold; nothing else of it
has changed since it was made. -/
structure Warm (made : SODLDataset V) (arrays : List (List V)) (ds : SODLDataset V) : Prop where
  rest : ds = { made with cache := ds.cache }
  bound : ds.cache.length ≤ made.cacheCapacity
  faithful : ∀ row ∈ ds.cache, arrays[row.1]? = some row.2

variable {F} {made ds : SODLDataset V} {arrays : List (List V)}

theorem Warm.withCache (h : Warm made arrays ds) {cache : Dict ℕ (List V)}
    (hbound : cache.length ≤ made.cacheCapacity)
    (hfaithful : ∀ row ∈ cache, arrays[row.1]? = some row.2) :
    Warm made arrays { ds with cache := cache } :=
  ⟨by rw [h.rest], hbound, hfaithful⟩

theorem Warm.shards_eq (h : Warm made arrays ds) : ds.shards = made.shards := by rw [h.rest]

theorem Warm.cacheCapacity_eq (h : Warm made arrays ds) :
    ds.cacheCapacity = made.cacheCapacity := by
  rw [h.rest]

theorem Warm.clearCache (h : Warm made arrays ds) : Warm made arrays ds.clearCache :=
  h.withCache (Nat.zero_le _) nofun

/-- What is in the cache is the array of the shard. -/
theorem Warm.get?_eq (h : Warm made arrays ds) {shardIdx : ℕ}
    (hmem : shardIdx ∈ ds.cache.keys) : ds.cache.get? shardIdx = arrays[shardIdx]? := by
  obtain ⟨array, harray⟩ := Dict.exists_get?_of_mem_keys hmem
  rw [harray]
  exact (h.faithful _ (Dict.mem_of_get? harray)).symm

theorem loadShard_eq (hholds : Holds F made.shards arrays) (h : Warm made arrays ds)
    {shardIdx : ℕ} (hlt : shardIdx < arrays.length) :
    ds.loadShard F shardIdx = .ok arrays[shardIdx] := by
  have hlt' : shardIdx < made.shards.length := List.Forall₂.length_eq hholds ▸ hlt
  rw [loadShard, h.shards_eq, List.getElem?_eq_getElem hlt']
  exact (List.Forall₂.get hholds hlt' hlt).1

/-- Making sure that a shard is cached keeps the cache faithful; the shard is found there after
it if there is room. -/
theorem ensureCached_spec (hholds : Holds F made.shards arrays) (h : Warm made arrays ds)
    {shardIdx : ℕ} (hlt : shardIdx < arrays.length) :
    ∃ ds', ds.ensureCached F shardIdx = (.ok (), ds') ∧ Warm made arrays ds' ∧
      ds'.cache.get? shardIdx = if made.cacheCapacity = 0 then none else arrays[shardIdx]? := by
  rw [ensureCached]
  by_cases hmem : shardIdx ∈ ds.cache.keys
  · -- a cached shard moves to the end, and with a shard in it the cache has room
    obtain ⟨array, harray⟩ := Dict.exists_get?_of_mem_keys hmem
    have hroom : made.cacheCapacity ≠ 0 := by
      have hpos := List.length_pos_of_mem (Dict.mem_of_get? harray)
      have hbound := h.bound
      omega
    rw [harray]
    refine ⟨_, rfl, h.withCache ?_ fun row hrow => ?_, ?_⟩
    · exact le_trans (Dict.length_moveToEnd_le _ _) h.bound
    · exact h.faithful row (Dict.mem_of_mem_moveToEnd hrow)
    · rw [if_neg hroom, Dict.get?_moveToEnd]
      exact h.get?_eq hmem
  · rw [Dict.get?_eq_none_iff.mpr hmem, loadShard_eq hholds h hlt]
    dsimp only
    refine ⟨_, rfl, ?_⟩
    have hcapacity := h.cacheCapacity_eq
    by_cases hroom : made.cacheCapacity = 0
    · rw [cacheShard, if_pos (hcapacity.trans hroom), if_pos hroom]
      exact ⟨h.clearCache, rfl⟩
    · -- a loaded shard comes last, where it is not evicted
      rw [cacheShard, if_neg (hcapacity ▸ hroom), if_neg hroom,
        Dict.moveToEnd_of_get? (Dict.get?_set_self ..)]
      have hbound := Dict.length_evict_le ds.cacheCapacity
        ((ds.cache.set shardIdx arrays[shardIdx]).erase shardIdx ++
          [(shardIdx, arrays[shardIdx])])
      have hwarm := h.withCache (le_of_le_of_eq hbound hcapacity) fun row hrow => by
        rcases List.mem_append.mp (Dict.mem_of_mem_evict hrow) with hrow | hrow
        · obtain ⟨hset, hne⟩ := Dict.mem_erase.mp hrow
          rcases Dict.mem_of_mem_set hset with rfl | hold
          · exact absurd rfl hne
          · exact h.faithful row hold
        · obtain rfl := List.mem_singleton.mp hrow
          exact List.getElem?_eq_getElem hlt
      refine ⟨hwarm, hwarm.get?_eq ?_⟩
      exact List.mem_map_of_mem (f := Prod.fst)
        (Dict.mem_evict_append (Nat.pos_of_ne_zero (hcapacity ▸ hroom)) _
          (shardIdx, arrays[shardIdx]))

theorem Warm.prefetchShards (hholds : Holds F made.shards arrays) (h : Warm made arrays ds)
    (shardIndices : List ℤ) : Warm made arrays (ds.prefetchShards F shardIndices).2 := by
  induction shardIndices generalizing ds with
  | nil => exact h
  | cons shardIdx rest ih =>
    rw [SODLDataset.prefetchShards]
    by_cases hout : shardIdx < 0 ∨ (ds.shards.length : ℤ) ≤ shardIdx
    · rw [if_pos hout]
      exact ih h
    · have hlt : shardIdx.toNat < arrays.length := by
        have hlen := List.Forall₂.length_eq hholds
        rw [h.shards_eq] at hout
        omega
      obtain ⟨ds', hcached, hwarm, -⟩ := ensureCached_spec hholds h hlt
      rw [if_neg hout, hcached]
      exact ih hwarm

/-! ### Finding an entry -/

theorem cumulate_eq {shards : List ShardDescriptor} (hholds : Holds F shards arrays)
    (total : ℕ) : cumulate total shards =
      (Bisect.totals total (arrays.map List.length), total + arrays.flatten.length) := by
  induction hholds generalizing total with
  | nil => rfl
  | cons hshard _ ih =>
    rw [cumulate, hshard.2, ih]
    simp only [List.map_cons, Bisect.totals, List.flatten_cons, List.length_append, Nat.add_assoc]

/-- **What indexing answers**: past the ends an `IndexError`; within, the entry, if the cache has
room for a shard, and else a `KeyError`. -/
theorem getItem_spec {shards : List ShardDescriptor} (hholds : Holds F shards arrays)
    (transform : Option (V → V)) (cacheCapacity : ℤ)
    (h : Warm (init shards transform cacheCapacity) arrays ds) (i : ℤ) :
    Warm (init shards transform cacheCapacity) arrays (ds.getItem F i).2 ∧
      match pyGet? arrays.flatten i with
      | none => ∃ text, (ds.getItem F i).1 = .error (.indexError text)
      | some v => if 0 < cacheCapacity
          then (ds.getItem F i).1 = .ok (transform.elim v fun transform => transform v)
          else ∃ shard, (ds.getItem F i).1 = .error (.keyError shard) := by
  have hcumulate := cumulate_eq hholds 0
  have htotal : ds.totalSamples = arrays.flatten.length := by
    rw [h.rest, init, hcumulate, Nat.zero_add]
  have hcumulative : ds.cumulative = Bisect.totals 0 (arrays.map List.length) := by
    rw [h.rest, init, hcumulate]
  rw [getItem, htotal, pyGet?]
  generalize hidx : (if i < 0 then (arrays.flatten.length : ℤ) + i else i) = idx
  dsimp only
  by_cases hout : idx < 0 ∨ (arrays.flatten.length : ℤ) ≤ idx
  · have hnone : (if idx < 0 then none else arrays.flatten[idx.toNat]?) = none := by
      split_ifs with hneg
      · rfl
      · exact List.getElem?_eq_none (by omega)
    rw [if_pos hout, hnone]
    exact ⟨h, _, rfl⟩
  · have hlt : idx.toNat < arrays.flatten.length := by omega
    have hin : ¬idx < 0 := fun h => hout (Or.inl h)
    rw [if_neg hout, if_neg hin, List.getElem?_eq_getElem hlt, hcumulative]
    obtain ⟨array, harray, -, hentry⟩ := Bisect.locate arrays 0 idx.toNat (Nat.zero_le _)
      (by omega) (Bisect.bisectRight_splits (Bisect.pairwise_totals _ _) idx.toNat)
    set shardIdx := Bisect.bisectRight (Bisect.totals 0 (arrays.map List.length)) idx.toNat
    obtain ⟨hshardIdx, -⟩ := List.getElem?_eq_some_iff.mp harray
    obtain ⟨ds', hcached, hwarm, hfound⟩ := ensureCached_spec hholds h hshardIdx
    -- the offset is what is left of the index after the shards before
    have hoffset : (if shardIdx = 0 then idx.toNat else idx.toNat -
        (Bisect.totals 0 (arrays.map List.length))[shardIdx - 1]?.getD 0) =
        idx.toNat - Bisect.before 0 (arrays.map List.length) shardIdx := by
      rcases hs : shardIdx with _ | r
      · rfl
      · rfl
    rw [hcached, hoffset]
    refine ⟨hwarm, ?_⟩
    dsimp only
    rw [sampleAt, hfound]
    by_cases hroom : 0 < cacheCapacity
    · rw [if_pos hroom, if_neg (by simp only [init]; omega), harray]
      dsimp only
      rw [hentry, Nat.sub_zero, List.getElem?_eq_getElem hlt, hwarm.rest]
      rfl
    · rw [if_neg hroom, if_pos (by simp only [init]; omega)]
      exact ⟨_, rfl⟩

theorem Warm.run {shards : List ShardDescriptor} (hholds : Holds F shards arrays)
    (transform : Option (V → V)) (cacheCapacity : ℤ) (history : List Call)
    (h : Warm (init shards transform cacheCapacity) arrays ds) :
    Warm (init shards transform cacheCapacity) arrays (ds.run F history) := by
  induction history generalizing ds with
  | nil => exact h
  | cons call history ih =>
    refine ih ?_
    cases call with
    | index i => exact (getItem_spec hholds transform cacheCapacity h i).1
    | «prefetch» shardIndices => exact h.prefetchShards hholds shardIndices
    | clear => exact h.clearCache

/-- **A sharded dataset behaves like the concatenation of its shards** in every history, and its
cache stays within the bound: for an index within the ends exactly if the cache has room. -/
theorem getItem_run_iff {shards : List ShardDescriptor} (hholds : Holds F shards arrays)
    (transform : Option (V → V)) (cacheCapacity : ℤ) (history : List Call) (i : ℤ) :
    (IsItem transform arrays i
        (((init shards transform cacheCapacity).run F history).getItem F i).1 ∧
      (((init shards transform cacheCapacity).run F history).cache.length : ℤ)
        ≤ max 0 cacheCapacity ∧
      ((((init shards transform cacheCapacity).run F history).getItem F i).2.cache.length : ℤ)
        ≤ max 0 cacheCapacity) ↔
      0 < cacheCapacity ∨ pyGet? arrays.flatten i = none := by
  have hstart : Warm (init shards transform cacheCapacity) arrays
      (init shards transform cacheCapacity) := ⟨rfl, Nat.zero_le _, nofun⟩
  have hrun := hstart.run hholds transform cacheCapacity history
  obtain ⟨hwarm, hanswer⟩ := getItem_spec hholds transform cacheCapacity hrun i
  have hbound : ∀ {ds : SODLDataset V}, Warm (init shards transform cacheCapacity) arrays ds →
      (ds.cache.length : ℤ) ≤ max 0 cacheCapacity := by
    intro ds hds
    have := hds.bound
    simp only [init] at this
    omega
  rw [and_iff_left ⟨hbound hrun, hbound hwarm⟩, IsItem]
  cases hget : pyGet? arrays.flatten i with
  | none =>
    rw [hget] at hanswer
    exact ⟨fun _ => Or.inr rfl, fun _ => hanswer⟩
  | some v =>
    rw [hget] at hanswer
    dsimp only at hanswer ⊢
    rw [or_iff_left (Option.some_ne_none v)]
    by_cases hroom : 0 < cacheCapacity
    · rw [if_pos hroom] at hanswer
      exact ⟨fun _ => hroom, fun _ => hanswer⟩
    · rw [if_neg hroom] at hanswer
      obtain ⟨shard, hshard⟩ := hanswer
      rw [hshard]
      exact ⟨nofun, fun h => absurd h hroom⟩

/-- Blobs of one byte, each a sample. -/
private def byteShards : ShardFormats UInt8 where
  get _ := .ok [7]
  decompress _ := none
  npLoad data := .ok data

private def oneSample : ShardDescriptor := ⟨⟨"blake3:07"⟩, 1⟩

private theorem holds_oneSample : Holds byteShards [oneSample] [[7]] :=
  List.Forall₂.cons ⟨rfl, rfl⟩ List.Forall₂.nil

/-- Blobs of two samples, of none and of one. -/
private def someShards : ShardFormats UInt8 where
  get id := .ok (if id.val = "blake3:02" then [7, 8] else if id.val = "blake3:00" then [] else [9])
  decompress _ := none
  npLoad data := .ok data

private def threeShards : List ShardDescriptor :=
  [⟨⟨"blake3:02"⟩, 2⟩, ⟨⟨"blake3:00"⟩, 0⟩, ⟨⟨"blake3:01"⟩, 1⟩]

private theorem holds_threeShards : Holds someShards threeShards [[7, 8], [], [9]] :=
  List.Forall₂.cons ⟨rfl, rfl⟩ (List.Forall₂.cons ⟨rfl, rfl⟩
    (List.Forall₂.cons ⟨rfl, rfl⟩ List.Forall₂.nil))

/-- Three shards of which the second is empty, with room for one: after a read of the last, which
has put the first out of the cache, the first sample is found again. -/
theorem getItem_run_room :
    IsItem none [[7, 8], [], [9]] (-3)
        (((init threeShards none 1).run someShards [.prefetch [0, 1], .index 2]).getItem someShards
          (-3)).1 ∧
      (((init threeShards none 1).run someShards [.prefetch [0, 1], .index 2]).getItem someShards
          (-3)).1 = .ok 7 := by
  have hitem := ((getItem_run_iff holds_threeShards none 1 [.prefetch [0, 1], .index 2] (-3)).mpr
    (Or.inl one_pos)).1
  exact ⟨hitem, hitem⟩

/-- With no room, a sample that is there is not found. -/
theorem getItem_noRoom :
    Holds byteShards [oneSample] [[7]] ∧
      ((init [oneSample] none 0).getItem byteShards 0).1 = .error (.keyError 0) ∧
      ¬IsItem none [[7]] 0 ((init [oneSample] none 0).getItem byteShards 0).1 :=
  ⟨holds_oneSample, rfl, nofun⟩

/-! ### Workers -/

/-- The shuffle of `default_rng(seed)`: that of the seed, which must not be negative, or without one
that of a generator made for the call. -/
def rngShuffle (seeded : ℕ → List ℕ → List ℕ) (fresh : List ℕ → List ℕ) :
    Option ℤ → List ℕ → Except DatasetError (List ℕ)
  | some seed, l =>
    if seed < 0 then .error (.valueError "expected non-negative integer")
    else .ok (seeded seed.toNat l)
  | none, l => .ok (fresh l)

/-- `l[start::step]`, for a positive step. -/
def everyFrom (l : List ℕ) (start step : ℤ) : List ℕ :=
  let start := if start < 0 then max 0 (l.length + start) else start
  Stride.stride step.toNat start.toNat l

def shardIdsForWorker (seeded : ℕ → List ℕ → List ℕ) (fresh : List ℕ → List ℕ)
    (ds : SODLDataset V) (workerId numWorkers : ℤ) (shuffle : Bool) (seed : Option ℤ) :
    Except DatasetError (List ℕ) :=
  if numWorkers ≤ 0 then .error (.valueError "num_workers must be positive")
  else
    let shardIds := List.range ds.shards.length
    let shuffled := if shuffle then rngShuffle seeded fresh seed shardIds else .ok shardIds
    shuffled.map fun shardIds => everyFrom shardIds workerId numWorkers

/-- What the workers are assigned are disjoint parts of the numbers below `n`, and all of them. -/
def Partition (n workers : ℕ) (answers : ℕ → Except DatasetError (List ℕ)) : Prop :=
  ∃ assigned : ℕ → List ℕ, (∀ w < workers, answers w = .ok (assigned w)) ∧
    ((List.range workers).map assigned).Pairwise List.Disjoint ∧
    ((List.range workers).map assigned).flatten.Perm (List.range n)

/-- Shuffles only change the order. -/
def Permutes (shuffle : List ℕ → List ℕ) : Prop := ∀ l, (shuffle l).Perm l

theorem everyFrom_natCast (l : List ℕ) (w : ℕ) (step : ℤ) :
    everyFrom l w step = Stride.stride step.toNat w l := by
  rw [everyFrom, if_neg (by omega)]
  rfl

/-- Workers that see the shards in one order share them out. -/
theorem partition_of_common {n : ℕ} {order : List ℕ} (horder : order.Perm (List.range n))
    {numWorkers : ℤ} (hpos : 1 ≤ numWorkers) {answers : ℕ → Except DatasetError (List ℕ)}
    (hanswers : ∀ w < numWorkers.toNat, answers w = .ok (everyFrom order w numWorkers)) :
    Partition n numWorkers.toNat answers := by
  have hflatten : (Stride.parts numWorkers.toNat order).flatten.Perm (List.range n) :=
    (Stride.flatten_perm (by omega) order).trans horder
  have hnodup := hflatten.nodup_iff.mpr List.nodup_range
  refine ⟨fun w => Stride.stride numWorkers.toNat w order, fun w hw => ?_, ?_, hflatten⟩
  · rw [hanswers w hw, everyFrom_natCast]
  · exact (List.nodup_flatten.mp hnodup).2

/-- Exchange the first two entries. -/
def swapFirst : List ℕ → List ℕ
  | x :: y :: l => y :: x :: l
  | l => l

theorem permutes_swapFirst : Permutes swapFirst
  | [] => List.Perm.refl _
  | [_] => List.Perm.refl _
  | x :: y :: l => List.Perm.swap x y l

/-- The answer to a worker, where the seed is one that the generator takes. -/
theorem shardIdsForWorker_eq {seeded : ℕ → List ℕ → List ℕ} {fresh : List ℕ → List ℕ}
    {ds : SODLDataset V} {numWorkers : ℤ} (hpos : 1 ≤ numWorkers) {shuffle : Bool}
    {seed : Option ℤ} {order : List ℕ}
    (horder : (if shuffle then rngShuffle seeded fresh seed (List.range ds.shards.length)
      else .ok (List.range ds.shards.length)) = .ok order) (w : ℤ) :
    ds.shardIdsForWorker seeded fresh w numWorkers shuffle seed =
      .ok (everyFrom order w numWorkers) := by
  rw [shardIdsForWorker, if_neg (by omega)]
  simp only [horder, Except.map]

/-- **Two workers that shuffle each in their own way** need not share out two shards: the second
sees the first two exchanged, and takes shard 0 as the first does. -/
theorem not_partition_swapFirst (seeded : ℕ → List ℕ → List ℕ) {ds : SODLDataset V}
    {numWorkers : ℤ} (hworkers : 2 ≤ numWorkers) (hshards : 2 ≤ ds.shards.length) :
    ¬Partition ds.shards.length numWorkers.toNat fun w =>
      ds.shardIdsForWorker seeded (if w = 1 then swapFirst else id) w numWorkers true none := by
  rintro ⟨assigned, hassigned, hdisjoint, -⟩
  obtain ⟨n, hn⟩ : ∃ n, ds.shards.length = n + 2 := ⟨ds.shards.length - 2, by omega⟩
  obtain ⟨step, hstep⟩ : ∃ step, numWorkers.toNat = step + 2 := ⟨numWorkers.toNat - 2, by omega⟩
  have hrange : List.range (n + 2) = 0 :: 1 :: (List.range n).map (· + 2) := by
    rw [List.range_succ_eq_map, List.range_succ_eq_map]
    simp [Function.comp_def]
  have hanswer : ∀ w < step + 2, assigned w = Stride.stride (step + 2) w
      ((if w = 1 then swapFirst else id) (List.range (n + 2))) := by
    intro w hw
    have hthis := (shardIdsForWorker_eq (by omega : 1 ≤ numWorkers)
      rfl w).symm.trans (hassigned w (hstep ▸ hw))
    rw [everyFrom_natCast, hstep, hn] at hthis
    exact (Except.ok.inj hthis).symm
  have hfirst : 0 ∈ assigned 0 := by
    rw [hanswer 0 (by omega), hrange]
    exact List.mem_cons_self ..
  have hsecond : 0 ∈ assigned 1 := by
    rw [hanswer 1 (by omega), hrange]
    exact List.mem_cons_self ..
  rw [List.pairwise_map, hstep, List.range_succ_eq_map, List.range_succ_eq_map] at hdisjoint
  exact (List.pairwise_cons.mp hdisjoint).1 1 (by simp) hfirst hsecond

/-- Whatever the workers see are the shards in some order. -/
theorem order_perm {seeded : ℕ → List ℕ → List ℕ} (hseeded : ∀ seed, Permutes (seeded seed))
    {fresh : List ℕ → List ℕ} (hfresh : Permutes fresh) {shuffle : Bool} {seed : Option ℤ}
    {l order : List ℕ}
    (horder : (if shuffle then rngShuffle seeded fresh seed l else .ok l) = .ok order) :
    order.Perm l := by
  cases shuffle with
  | false => exact Except.ok.inj horder ▸ List.Perm.refl l
  | true =>
    cases seed with
    | none => exact Except.ok.inj horder ▸ hfresh l
    | some seed =>
      simp only [if_true, rngShuffle] at horder
      split_ifs at horder
      exact Except.ok.inj horder ▸ hseeded _ l

/-- A negative seed is no seed of a generator, so that no worker is answered. -/
theorem not_partition_of_neg (seeded : ℕ → List ℕ → List ℕ) (fresh : ℕ → List ℕ → List ℕ)
    (ds : SODLDataset V) {numWorkers : ℤ} (hpos : 1 ≤ numWorkers) {seed : ℤ} (hneg : seed < 0) :
    ¬Partition ds.shards.length numWorkers.toNat fun w =>
      ds.shardIdsForWorker seeded (fresh w) w numWorkers true (some seed) := by
  rintro ⟨assigned, hassigned, -⟩
  have hfirst := hassigned 0 (by omega)
  have hraise : ds.shardIdsForWorker seeded (fresh 0) (0 : ℕ) numWorkers true (some seed) =
      .error (.valueError "expected non-negative integer") := by
    rw [shardIdsForWorker, if_neg (by omega)]
    simp only [if_true, rngShuffle, if_pos hneg, Except.map]
  exact absurd (hraise.symm.trans hfirst) (by simp)

/-- A list of at most one entry has one order. -/
theorem eq_range_of_perm {n : ℕ} (hn : n ≤ 1) {l : List ℕ} (hl : l.Perm (List.range n)) :
    l = List.range n := by
  rcases (by omega : n = 0 ∨ n = 1) with rfl | rfl
  · exact hl.eq_nil
  · exact List.perm_singleton.mp hl

/-- **Workers partition the shards**, whatever the shuffles, exactly if they need not shuffle alike
or have a seed to do so: nothing is shuffled, a seed is given that is not negative, or no seed is
given and there are not both two workers and two shards. -/
theorem workers_partition_iff (seeded : ℕ → List ℕ → List ℕ)
    (hseeded : ∀ seed, Permutes (seeded seed)) (ds : SODLDataset V) (numWorkers : ℤ)
    (hpos : 1 ≤ numWorkers) (shuffle : Bool) (seed : Option ℤ) :
    (∀ fresh : ℕ → List ℕ → List ℕ, (∀ w, Permutes (fresh w)) →
      Partition ds.shards.length numWorkers.toNat fun w =>
        ds.shardIdsForWorker seeded (fresh w) w numWorkers shuffle seed) ↔
      shuffle = false ∨ (∃ n, seed = some n ∧ 0 ≤ n) ∨
        seed = none ∧ (numWorkers = 1 ∨ ds.shards.length ≤ 1) := by
  constructor
  · intro h
    by_contra hcond
    simp only [not_or, Bool.not_eq_false, not_exists, not_and] at hcond
    obtain ⟨rfl, hseed, hfew⟩ := hcond
    cases seed with
    | none =>
      obtain ⟨hworkers, hshards⟩ : 2 ≤ numWorkers ∧ 2 ≤ ds.shards.length := by
        have := hfew rfl
        omega
      refine not_partition_swapFirst seeded hworkers hshards
        (h (fun w => if w = 1 then swapFirst else id) fun w => ?_)
      split_ifs
      · exact permutes_swapFirst
      · exact fun l => List.Perm.refl l
    | some seed =>
      exact not_partition_of_neg seeded (fun _ => id) ds hpos (not_le.mp (hseed seed rfl))
        (h (fun _ => id) fun _ l => List.Perm.refl l)
  · intro hcond fresh hfresh
    -- all workers see the order that the first one sees
    have hcommon : ∃ order, ∀ w < numWorkers.toNat,
        (if shuffle then rngShuffle seeded (fresh w) seed (List.range ds.shards.length)
          else .ok (List.range ds.shards.length)) = .ok order := by
      rcases hcond with rfl | ⟨seed, rfl, hnonneg⟩ | ⟨rfl, hfew⟩
      · exact ⟨_, fun _ _ => rfl⟩
      · cases shuffle with
        | false => exact ⟨_, fun _ _ => rfl⟩
        | true => exact ⟨_, fun _ _ => if_neg (not_lt.mpr hnonneg)⟩
      · cases shuffle with
        | false => exact ⟨_, fun _ _ => rfl⟩
        | true =>
          refine ⟨fresh 0 (List.range ds.shards.length), fun w hw => ?_⟩
          rcases hfew with hone | hshards
          · obtain rfl : w = 0 := by omega
            rfl
          · show Except.ok (fresh w _) = Except.ok (fresh 0 _)
            rw [eq_range_of_perm hshards (hfresh w _), eq_range_of_perm hshards (hfresh 0 _)]
    obtain ⟨order, horder⟩ := hcommon
    exact partition_of_common (order_perm hseeded (hfresh 0) (horder 0 (by omega))) hpos
      fun w hw => shardIdsForWorker_eq hpos (horder w hw) w

private def shardsOf (n : ℕ) : SODLDataset Unit :=
  init (List.replicate n ⟨⟨"blake3:07"⟩, 0⟩) none 2

/-- Two workers partition three shards that they shuffle with one seed. -/
theorem workers_partition_seeded :
    (∀ _ : ℕ, Permutes swapFirst) ∧ Partition 3 2 fun w =>
      (shardsOf 3).shardIdsForWorker (fun _ => swapFirst) id w 2 true (some 0) :=
  ⟨fun _ => permutes_swapFirst,
    (workers_partition_iff (fun _ => swapFirst) (fun _ => permutes_swapFirst) (shardsOf 3) 2
      (by decide) true (some 0)).mpr (Or.inr (Or.inl ⟨0, rfl, le_rfl⟩)) (fun _ => id)
      fun _ l => List.Perm.refl l⟩

/-- Two workers without a seed may both take the first of two shards, and leave the other. -/
theorem workers_not_partition_fresh :
    ¬∀ fresh : ℕ → List ℕ → List ℕ, (∀ w, Permutes (fresh w)) → Partition 2 2 fun w =>
      (shardsOf 2).shardIdsForWorker (fun _ => id) (fresh w) w 2 true none := by
  intro h
  obtain ⟨assigned, hassigned, -, hall⟩ :=
    h (fun w => if w = 1 then swapFirst else id) fun w => by
      split_ifs
      · exact permutes_swapFirst
      · exact fun l => List.Perm.refl l
  have hfirst : assigned 0 = [0] := (Except.ok.inj (hassigned 0 (by decide))).symm
  have hsecond : assigned 1 = [0] := (Except.ok.inj (hassigned 1 (by decide))).symm
  have hlists : (List.range 2).map assigned = [assigned 0, assigned 1] := rfl
  rw [hlists, hfirst, hsecond] at hall
  exact absurd (hall.mem_iff.mpr (by decide : 1 ∈ List.range 2)) (by decide)

end SODLDataset

end Python

end Sodl
