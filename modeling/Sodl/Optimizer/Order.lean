import Sodl.Effect.Locks
import Sodl.Optimizer.Store

/-!
# In which order the methods take the mutexes

The cache and the set of pinned keys stand behind one mutex each. `store_blocks`, `pin_blocks`,
`unpin_blocks` and `evict_blocks` take the mutex of the cache while they have the one of the pinned
keys; `cache_stats` takes them the other way round, and no other method takes the one while it has
the other.

There is one fact for each method here, and it holds for all origin ids and in all states: the
method takes the mutexes in order (`Effect.Locking.Ordered`), and its calls are of some kind. Those
of a method that only reads back (`Sodl.Optimizer.LoadCall`) stage, mark and compress nothing and
change neither manifests nor blobs.
-/

namespace Sodl

open Effect Optimizer

/-! ### The mutexes as locks -/

/-- The guards that calls take and drop: the two mutexes of the store, each taken by a call of its
own and dropped by one at the end of its scope. -/
def mutexes : Locking optimizerSig Mutex where
  takes
    | .lock m => some m
    | _ => none
  drops
    | .unlock m => some m
    | _ => none

/-! ### The kinds of calls -/

namespace Optimizer

/-- A call of a method that only reads back: it changes neither manifests nor blobs, stages and
marks nothing, and compresses nothing. -/
def LoadCall : OptimizerCall → Prop
  | .update (.stage _ _ _ _) | .update (.mark _ _ _) | .writeManifest _ _ | .putBlob _ _
  | .deleteBlob _ | .encode _ _ => False
  | _ => True

/-- Any call at all, for the methods that store and flush. -/
def AnyCall (_ : OptimizerCall) : Prop := True

/-- A call of a kind, and not about a guard: what the helpers make that the methods run under a
guard they already have. -/
def Inner (Q : OptimizerCall → Prop) : OptimizerCall → Prop
  | .lock _ | .unlock _ => False
  | c => Q c

variable {α β ι : Type} {rank : Mutex → ℕ} {Q : OptimizerCall → Prop} {held : List Mutex}

/-- What is done under the guards of the caller takes none, so that it keeps whatever order the
caller keeps. -/
theorem ordered_inner {p : OptimizerProg α} (hp : p.Calls (Inner Q)) :
    mutexes.Ordered rank Q held p := by
  refine Locking.Ordered.of_quiet (hp.mono fun c hc => ?_)
  cases c with
  | lock m => exact absurd hc id
  | unlock m => exact absurd hc id
  | _ => exact ⟨⟨rfl, rfl⟩, hc⟩

/-- A program that takes its guards in order does so whatever kind its calls are of. -/
theorem ordered_any {p : OptimizerProg α} (hp : mutexes.Ordered rank Q held p) :
    mutexes.Ordered rank AnyCall held p := hp.mono fun _ _ => trivial

/-- A method that only reads back, by the order it takes the guards in: the order says of each call
of what kind it is. -/
theorem loads_of_ordered {p : OptimizerProg α} (hp : mutexes.Ordered rank LoadCall held p) :
    p.Calls LoadCall := by
  refine hp.calls.mono fun c hc => ?_
  cases c with
  | lock m => trivial
  | unlock m => trivial
  | _ => exact hc ⟨rfl, rfl⟩

/-- A block under a guard keeps the order if the guard is above those the caller has, and the block
keeps it with the guard added. -/
theorem ordered_withLock {m : Mutex} {body : OptimizerProg α}
    (hm : ∀ m' ∈ held, rank m' < rank m)
    (hbody : mutexes.Ordered rank Q (m :: held) body) :
    mutexes.Ordered rank Q held (withLock m body) := by
  refine Locking.Ordered.taking (l := m) rfl rfl hm
    (fun _ => Locking.Ordered.giving rfl rfl hbody) fun r hr => ?_
  cases r with
  | ok a => exact absurd hr (by simp [Outcome.isOk])
  | err e => exact Locking.Ordered.raise e
  | panic => exact Prog.Traced.lift (fun _ _ h => h) fun _ h => h

/-- The same of a block that is left out where the guard cannot be had. -/
theorem ordered_ifLocked {m : Mutex} {body : OptimizerProg Unit}
    (hm : ∀ m' ∈ held, rank m' < rank m)
    (hbody : mutexes.Ordered rank Q (m :: held) body) :
    mutexes.Ordered rank Q held (ifLocked m body) := by
  refine Locking.Ordered.taking (l := m) rfl rfl hm
    (fun _ => Locking.Ordered.giving rfl rfl hbody) fun r hr => ?_
  cases r with
  | ok a => exact absurd hr (by simp [Outcome.isOk])
  | err e => exact Locking.Ordered.pure ()
  | panic => exact Prog.Traced.lift (fun _ _ h => h) fun _ h => h

end Optimizer

/-! ### What leaves the guards alone -/

namespace OptimizerStateStore

variable {P : ArtifactPlatform} {store : OptimizerStateStore} {rank : Mutex → ℕ}
  {held : List Mutex}

/-- Reading a manifest, or the default one where there is no file, takes no guard. -/
theorem inner_loadManifest (o : String) : (loadManifest o).Calls (Inner LoadCall) := by
  refine Prog.Calls.bind (Prog.Calls.perform trivial) fun m => ?_
  cases m with
  | some m => trivial
  | none => exact Prog.Calls.bind (Prog.Calls.perform trivial) fun _ => trivial

/-- Collecting the blob ids that the manifests of the directory refer to reads the files and takes
no guard. -/
theorem inner_referencedFrom (names : List String) :
    (referencedFrom names).Calls (Inner AnyCall) := by
  induction names with
  | nil => trivial
  | cons name rest ih =>
    refine Prog.Calls.bind (Prog.Calls.perform trivial) fun m => ?_
    cases m with
    | none => trivial
    | some m => exact Prog.Calls.bind ih fun _ => trivial

/-- Deleting the candidates that nothing refers to takes no guard. -/
theorem inner_gcFrom (referenced candidates : List BlobId) :
    (gcFrom referenced candidates).Calls (Inner AnyCall) :=
  Prog.Calls.collect (fun _ => Prog.Calls.perform trivial) fun _ => Prog.Calls.perform trivial

/-- Listing the directory, collecting what is referred to and deleting the rest takes no guard: the
code runs it after both were dropped. -/
theorem inner_gcBlobIds (candidates : List BlobId) :
    (gcBlobIds P candidates).Calls (Inner AnyCall) := by
  rw [gcBlobIds]
  split
  · trivial
  · refine Prog.Calls.bind ?_ fun referenced => inner_gcFrom referenced _
    exact Prog.Calls.bind (Prog.Calls.perform trivial) fun names => inner_referencedFrom _

/-- Dropping clean entries until the cache has room again is done under the guard that the caller
took. -/
theorem inner_dropWhileFull (keys : List String) (size : ℕ) :
    (store.dropWhileFull keys size).Calls (Inner LoadCall) := by
  induction keys generalizing size with
  | nil => trivial
  | cons key rest ih =>
    rw [dropWhileFull]
    split
    · exact Prog.Calls.bind (Prog.Calls.perform trivial) fun _ => ih _
    · trivial

/-- Putting a blob that is not there takes no guard of its own. -/
theorem inner_putMissing (b : BlobId) (data : Bytes) :
    (putMissing b data).Calls (Inner AnyCall) := by
  refine Prog.Calls.bind (Prog.Calls.perform trivial) fun there => ?_
  cases there with
  | true => trivial
  | false => exact Prog.Calls.perform trivial

/-- The loop of a flush over its keys compresses, puts and marks under the guard of the cache that
the flush took before it. -/
theorem inner_flushLoop (keys : List String) (m : OptimizerStateManifest)
    (replaced : List BlobId) : (store.flushLoop P keys m replaced).Calls (Inner AnyCall) := by
  induction keys generalizing m replaced with
  | nil => trivial
  | cons key rest ih =>
    rw [flushLoop]
    refine Prog.Calls.bind (Prog.Calls.perform trivial) fun cache => ?_
    split
    · exact ih _ _
    · split
      · exact ih _ _
      · refine Prog.Calls.bind (Prog.Calls.perform trivial) fun compressed =>
          Prog.Calls.bind (inner_putMissing _ _) fun _ => ?_
        split
        · trivial
        · exact Prog.Calls.bind (Prog.Calls.perform trivial) fun _ =>
            Prog.Calls.bind (Prog.Calls.perform trivial) fun _ =>
            Prog.Calls.bind (Prog.Calls.perform trivial) fun _ =>
            Prog.Calls.bind (Prog.Calls.perform trivial) fun _ => ih _ _

/-- Looking the blocks up in the cache is done under the guard that the load took. -/
theorem inner_loadCached (o : String) (ids : List String) :
    (loadCached o ids).Calls (Inner LoadCall) := by
  induction ids with
  | nil => trivial
  | cons b rest ih =>
    rw [loadCached]
    refine Prog.Calls.bind (Prog.Calls.perform trivial) fun cache => ?_
    split
    · exact Prog.Calls.bind (Prog.Calls.perform trivial) fun _ =>
        Prog.Calls.bind (Prog.Calls.perform trivial) fun _ =>
        Prog.Calls.bind ih fun _ => trivial
    · exact Prog.Calls.bind ih fun _ => trivial

/-- Fetching and decompressing the missing blocks takes no guard: their entries are put into the
cache afterwards. -/
theorem inner_hydrateFrom (o : String) (m : OptimizerStateManifest) (pinned : Finset String)
    (ids : List String) : (hydrateFrom o m pinned ids).Calls (Inner LoadCall) := by
  induction ids with
  | nil => trivial
  | cons b rest ih =>
    rw [hydrateFrom]
    split
    · exact ih
    · exact Prog.Calls.bind (Prog.Calls.perform trivial) fun _ =>
        Prog.Calls.bind (Prog.Calls.perform trivial) fun _ =>
        Prog.Calls.bind (Prog.Calls.perform trivial) fun _ =>
        Prog.Calls.bind ih fun _ => trivial

/-- Removing the clean entries of the blocks is done under the two guards that the eviction took. -/
theorem inner_evictFrom (o : String) (pinned : Finset String) (ids : List String) :
    (evictFrom o pinned ids).Calls (Inner LoadCall) := by
  induction ids with
  | nil => trivial
  | cons b rest ih =>
    rw [evictFrom]
    refine Prog.Calls.bind (Prog.Calls.perform trivial) fun cache => ?_
    split
    · split
      · exact ih
      · exact Prog.Calls.bind (Prog.Calls.perform trivial) fun _ =>
          Prog.Calls.bind ih fun _ => trivial
    · exact ih

/-! ### The methods take the mutexes in order -/

/-- A section that does nothing about the guards, where none is had: it takes one guard and drops it
again. -/
theorem ordered_section {α : Type} {Q : OptimizerCall → Prop} {m : Mutex}
    {body : OptimizerProg α} (hbody : body.Calls (Inner Q)) :
    mutexes.Ordered rank Q [] (withLock m body) :=
  ordered_withLock (fun _ hm' => absurd hm' List.not_mem_nil) (ordered_inner hbody)

/-- Reading a manifest keeps every order, whatever guards the caller has. -/
theorem ordered_loadManifest (o : String) :
    mutexes.Ordered rank LoadCall held (loadManifest o) :=
  ordered_inner (inner_loadManifest o)

/-- Making room takes the guard of the pinned keys for a copy of them, and the one of the cache
after it was dropped. -/
theorem ordered_enforceCacheCapacity :
    mutexes.Ordered rank LoadCall [] (store.enforceCacheCapacity P) := by
  refine Locking.Ordered.bind (ordered_section (Prog.Calls.perform trivial)) fun pinned =>
    ordered_section ?_
  refine Prog.Calls.bind (Prog.Calls.perform trivial) fun cache => ?_
  split
  · trivial
  · exact inner_dropWhileFull _ _

/-- A flush takes the guard of the cache for its loop, drops it, and saves, collects and makes room
after that. -/
theorem ordered_flushKeys (o : String) (keys : List String) :
    mutexes.Ordered rank AnyCall [] (store.flushKeys P o keys) := by
  refine Locking.Ordered.bind (ordered_any (ordered_loadManifest o)) fun m => ?_
  split
  · exact Locking.Ordered.pure m
  · refine Locking.Ordered.bind (ordered_section (inner_flushLoop keys m [])) fun r => ?_
    exact Locking.Ordered.bind (ordered_inner (Prog.Calls.perform trivial))
      fun _ => Locking.Ordered.bind (ordered_inner (inner_gcBlobIds _)) fun _ =>
      Locking.Ordered.bind (ordered_any ordered_enforceCacheCapacity) fun _ =>
      Locking.Ordered.pure _

/-- Flushing an origin takes the guard to collect the keys of the origin, and then again to flush
them, one after the other. -/
theorem ordered_flushOrigin (o : String) :
    mutexes.Ordered rank AnyCall [] (store.flushOrigin P o) :=
  Locking.Ordered.bind (ordered_section
    (Prog.Calls.bind (Prog.Calls.perform trivial) fun _ => trivial))
    fun _ => ordered_flushKeys o _

/-- Counting the dirty blocks takes the guard of the cache only. -/
theorem ordered_dirtyBlockCount (originFilter : Option String) :
    mutexes.Ordered rank LoadCall [] (dirtyBlockCount originFilter) := by
  refine ordered_section (Prog.Calls.bind (Prog.Calls.perform trivial) fun cache => ?_)
  cases originFilter with
  | some o => trivial
  | none => trivial

/-- Storing one block takes the two guards one after the other and never both at once, before it may
flush. -/
theorem ordered_storeBlock (o : String) (input : OptimizerBlockInput) :
    mutexes.Ordered rank AnyCall [] (store.storeBlock P o input) := by
  refine Locking.Ordered.bind (ordered_section (Prog.Calls.bind (Prog.Calls.perform trivial)
    fun _ => trivial)) fun isPinned => ?_
  refine Locking.Ordered.bind (ordered_section (Prog.Calls.bind (Prog.Calls.perform trivial)
    fun _ => Prog.Calls.bind (Prog.Calls.perform trivial) fun _ =>
    Prog.Calls.bind (Prog.Calls.perform trivial) fun _ => trivial)) fun dirtyBlocks => ?_
  split
  · exact Locking.Ordered.bind (ordered_flushOrigin o) fun _ =>
      Locking.Ordered.bind (ordered_any (ordered_dirtyBlockCount _)) fun _ =>
      Locking.Ordered.pure _
  · exact Locking.Ordered.pure _

/-- Storing many blocks stages them under both guards, that of the cache taken above the other. With
nothing to store it takes neither. -/
theorem ordered_storeBlocks (o : String) (inputs : List OptimizerBlockInput)
    (hrank : inputs ≠ [] → rank .pinned < rank .cache) :
    mutexes.Ordered rank AnyCall [] (store.storeBlocks P o inputs) := by
  rw [storeBlocks]
  split
  · exact Locking.Ordered.pure _
  · rename_i hne
    have hlt := hrank (by simpa using hne)
    refine Locking.Ordered.bind (ordered_withLock (fun _ hm' => absurd hm' List.not_mem_nil)
      (ordered_withLock (List.forall_mem_singleton.mpr hlt) (ordered_inner
        (Prog.Calls.forEach fun input _ => ?_)))) fun _ => ?_
    · exact Prog.Calls.bind (Prog.Calls.perform trivial) fun _ =>
        Prog.Calls.bind (Prog.Calls.perform trivial) fun _ =>
        Prog.Calls.perform trivial
    · refine Locking.Ordered.bind (ordered_any (ordered_dirtyBlockCount _)) fun dirtyBlocks => ?_
      split
      · exact Locking.Ordered.bind (ordered_flushOrigin o) fun _ =>
          Locking.Ordered.bind (ordered_any (ordered_dirtyBlockCount _)) fun _ =>
          Locking.Ordered.pure _
      · exact Locking.Ordered.pure _

/-- A load takes the guards of the cache and of the pinned keys one after the other, and never both
at once. -/
theorem ordered_loadBlock (o b : String) :
    mutexes.Ordered rank LoadCall [] (store.loadBlock P o b) := by
  refine Locking.Ordered.bind (ordered_section (Prog.Calls.bind (Prog.Calls.perform trivial)
    fun cache => ?_)) fun hit => ?_
  · split
    · exact Prog.Calls.bind (Prog.Calls.perform trivial) fun _ =>
        Prog.Calls.bind (Prog.Calls.perform trivial) fun _ => trivial
    · trivial
  · cases hit with
    | some bytes => exact Locking.Ordered.pure bytes
    | none =>
      refine Locking.Ordered.bind (ordered_loadManifest o) fun m => ?_
      split
      · exact Locking.Ordered.raise _
      · exact Locking.Ordered.bind (ordered_inner (Prog.Calls.perform trivial))
          fun _ => Locking.Ordered.bind (ordered_inner
            (Prog.Calls.perform trivial)) fun _ =>
          Locking.Ordered.bind (ordered_section (Prog.Calls.bind
            (Prog.Calls.perform trivial) fun _ => trivial)) fun _ =>
          Locking.Ordered.bind (ordered_section (Prog.Calls.bind
            (Prog.Calls.perform trivial) fun _ => Prog.Calls.perform trivial)) fun _ =>
          Locking.Ordered.bind ordered_enforceCacheCapacity fun _ => Locking.Ordered.pure _

/-- Loading many blocks at once takes the guards one after the other, as one load does. -/
theorem ordered_loadBlocks (o : String) (ids : List String) :
    mutexes.Ordered rank LoadCall [] (store.loadBlocks P o ids) := by
  refine Locking.Ordered.bind (ordered_section (inner_loadCached o ids)) fun r => ?_
  obtain ⟨payloads, missing⟩ := r
  dsimp only
  split
  · exact Locking.Ordered.pure _
  · refine Locking.Ordered.bind (ordered_loadManifest o) fun m =>
      Locking.Ordered.bind (ordered_section (Prog.Calls.perform trivial)) fun pinned =>
      Locking.Ordered.bind (ordered_inner (inner_hydrateFrom o m pinned missing))
      fun hydrated => ?_
    split
    · exact Locking.Ordered.pure _
    · exact Locking.Ordered.bind (ordered_section (Prog.Calls.forEach fun _ _ =>
        Prog.Calls.perform trivial)) fun _ =>
        Locking.Ordered.bind ordered_enforceCacheCapacity fun _ => Locking.Ordered.pure _

/-- A prefetch is a row of loads, each of which drops its guards before the next one begins. -/
theorem ordered_prefetchBlocks (o : String) (ids : List String) :
    mutexes.Ordered rank LoadCall [] (store.prefetchBlocks P o ids) := by
  induction ids with
  | nil => exact Locking.Ordered.pure 0
  | cons b rest ih =>
    exact Locking.Ordered.bind (ordered_loadBlock o b).succeeds fun _ =>
      Locking.Ordered.bind ih fun _ => Locking.Ordered.pure _

/-- Pinning and unpinning take the guard of the pinned keys, and for each block the one of the cache
above it. -/
theorem ordered_setPins (o : String) (ids : List String)
    (f : String → Finset String → Finset String) (value : Bool)
    (hrank : ids ≠ [] → rank .pinned < rank .cache) :
    mutexes.Ordered rank LoadCall [] (withLock .pinned <| Prog.forEach (fun b => do
      let key := cacheKey o b
      let pinned ← getPinned
      invoke (.setPinned (f key pinned))
      ifLocked .cache (update (.setPinned key value))) ids) := by
  refine ordered_withLock (fun _ hm' => absurd hm' List.not_mem_nil) ?_
  cases ids with
  | nil => exact Locking.Ordered.pure ()
  | cons b rest =>
    have hlt := hrank (List.cons_ne_nil _ _)
    refine Locking.Ordered.forEach (K := mutexes) (fun b => ?_) (b :: rest)
    exact Locking.Ordered.bind (ordered_inner (Prog.Calls.perform trivial))
      fun _ => Locking.Ordered.bind (ordered_inner (Prog.Calls.perform trivial))
      fun _ => ordered_ifLocked (List.forall_mem_singleton.mpr hlt)
        (ordered_inner (Prog.Calls.perform trivial))

/-- An eviction takes both guards, that of the cache above the other, also where it has no block to
evict. -/
theorem ordered_evictBlocks (o : String) (ids : List String)
    (hrank : rank .pinned < rank .cache) : mutexes.Ordered rank LoadCall [] (evictBlocks o ids) :=
  ordered_withLock (fun _ hm' => absurd hm' List.not_mem_nil) (Locking.Ordered.bind
    (ordered_inner (Prog.Calls.perform trivial)) fun _ =>
    ordered_withLock (List.forall_mem_singleton.mpr hrank)
      (ordered_inner (inner_evictFrom o _ ids)))

/-- The statistics take both guards the other way round, that of the pinned keys above the one of
the cache. -/
theorem ordered_cacheStats (hrank : rank .cache < rank .pinned) :
    mutexes.Ordered rank LoadCall [] store.cacheStats :=
  ordered_withLock (fun _ hm' => absurd hm' List.not_mem_nil) (Locking.Ordered.bind
    (ordered_inner (Prog.Calls.perform trivial)) fun _ =>
    ordered_withLock (List.forall_mem_singleton.mpr hrank)
      (ordered_inner (Prog.Calls.bind (Prog.Calls.perform trivial)
        fun _ => trivial)))

/-! ### The methods that only read back -/

/-- Making room for entries only reads back, in the sense that no file, blob or mark comes of it. -/
theorem loads_enforceCacheCapacity : (store.enforceCacheCapacity P).Calls LoadCall :=
  loads_of_ordered (ordered_enforceCacheCapacity : mutexes.Ordered (fun _ => 0) LoadCall [] _)

/-- Counting the dirty blocks only reads back. -/
theorem loads_dirtyBlockCount (originFilter : Option String) :
    (dirtyBlockCount originFilter).Calls LoadCall :=
  loads_of_ordered (ordered_dirtyBlockCount originFilter :
    mutexes.Ordered (fun _ => 0) LoadCall [] _)

/-- A load only reads back: what it puts into the cache is what a manifest records. -/
theorem loads_loadBlock (o b : String) : (store.loadBlock P o b).Calls LoadCall :=
  loads_of_ordered (ordered_loadBlock o b : mutexes.Ordered (fun _ => 0) LoadCall [] _)

end OptimizerStateStore

end Sodl
