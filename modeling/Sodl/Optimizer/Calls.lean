import Sodl.Optimizer.Methods

/-!
# The public methods as calls

What a caller can ask of the store (`Sodl.OptimizerOp`), what it is told (`Sodl.OptimizerReply`),
and the program that is run (`Sodl.OptimizerOp.prog`). The specifications of the methods come
together in `Sodl.OptimizerOp.guided`: a call keeps to the watch whatever else is going on, and
at its end the trail shows what it staged and flushed. So do the orders in which the methods take
the mutexes (`Sodl.OptimizerOp.ordered`), which say as well what a call consists of
(`Sodl.OptimizerOp.calls`).
-/

namespace Sodl

open Effect Optimizer

/-! ### Calls and replies -/

/-- The public methods of the store, with their arguments. A session of the store is a list of them,
and threads that share it are a pool of such lists. -/
inductive OptimizerOp
  | storeBlock (originId : String) (input : OptimizerBlockInput)
  | storeBlocks (originId : String) (inputs : List OptimizerBlockInput)
  | loadBlock (originId blockId : String)
  | loadBlocks (originId : String) (blockIds : List String)
  | prefetchBlocks (originId : String) (blockIds : List String)
  | pinBlocks (originId : String) (blockIds : List String)
  | unpinBlocks (originId : String) (blockIds : List String)
  | evictBlocks (originId : String) (blockIds : List String)
  | flushOrigin (originId : String)
  | flushBlocks (originId : String) (blockIds : List String)
  | manifest (originId : String)
  | latestBlobId (originId blockId : String)
  | dirtyBlockCount (originFilter : Option String)
  | cacheStats

/-- What the methods return where they return: one constructor for each type of result, so that the
replies of a whole session are one list. -/
inductive OptimizerReply
  | stored (results : List OptimizerStoreResult)
  | payload (bytes : Bytes)
  | payloads (blocks : Table String Bytes)
  | count (n : ℕ)
  | manifest (m : OptimizerStateManifest)
  | blob (id : Option BlobId)
  | stats (stats : OptimizerCacheStats)
  | done

namespace OptimizerOp

open OptimizerStateStore OptimizerTrail

/-- The program of a call: the method itself, with its result put into the common type of
replies. -/
def prog (P : ArtifactPlatform) (store : OptimizerStateStore) :
    OptimizerOp → OptimizerProg OptimizerReply
  | storeBlock o input => do
    let result ← store.storeBlock P o input
    pure (.stored [result])
  | storeBlocks o inputs => do
    let results ← store.storeBlocks P o inputs
    pure (.stored results)
  | loadBlock o b => do
    let bytes ← store.loadBlock P o b
    pure (.payload bytes)
  | loadBlocks o ids => do
    let blocks ← store.loadBlocks P o ids
    pure (.payloads blocks)
  | prefetchBlocks o ids => do
    let loaded ← store.prefetchBlocks P o ids
    pure (.count loaded)
  | pinBlocks o ids => do
    OptimizerStateStore.pinBlocks o ids
    pure .done
  | unpinBlocks o ids => do
    store.unpinBlocks P o ids
    pure .done
  | evictBlocks o ids => do
    let evicted ← OptimizerStateStore.evictBlocks o ids
    pure (.count evicted)
  | flushOrigin o => do
    let m ← store.flushOrigin P o
    pure (.manifest m)
  | flushBlocks o ids => do
    let m ← store.flushBlocks P o ids
    pure (.manifest m)
  | manifest o => do
    let m ← OptimizerStateStore.manifest o
    pure (.manifest m)
  | latestBlobId o b => do
    let id ← OptimizerStateStore.latestBlobId o b
    pure (.blob id)
  | dirtyBlockCount originFilter => do
    let n ← OptimizerStateStore.dirtyBlockCount originFilter
    pure (.count n)
  | cacheStats => do
    let stats ← store.cacheStats
    pure (.stats stats)

/-- The blocks a call stores, with their payloads, in the order it stages them. All other calls
store nothing. -/
def stores : OptimizerOp → List (BlockName × Bytes)
  | storeBlock o input => [((o, input.blockId), input.payload)]
  | storeBlocks o inputs => inputs.map fun input => ((o, input.blockId), input.payload)
  | _ => []

/-- A call that names blocks of `N`, and flushes only plain origins. An eviction or a pin may name
any block, since it stores and reads none. -/
def Named (N : Set BlockName) : OptimizerOp → Prop
  | storeBlock o input => (o, input.blockId) ∈ N
  | storeBlocks o inputs => ∀ input ∈ inputs, (o, input.blockId) ∈ N
  | loadBlock o b => (o, b) ∈ N
  | loadBlocks o ids | prefetchBlocks o ids => ∀ b ∈ ids, (o, b) ∈ N
  | flushOrigin o | flushBlocks o _ => PlainOrigin o
  | _ => True

/-- **The trail at the end of a call** that returned, by the call: a store has staged its blocks, a
flush has saved a manifest, and every other call holds no guard and has left nothing behind. -/
def Returns (y : OptimizerTrail) : OptimizerOp → OptimizerReply → Prop
  | storeBlock o input, .stored results => StoreEnd .start y o [stagedBlock o input] results
  | storeBlocks o inputs, .stored results =>
    StoreEnd .start y o (inputs.map (stagedBlock o)) results
  | flushOrigin o, .manifest m => FlushEnd .start y o m fun _ => True
  | flushBlocks o ids, .manifest m => FlushEnd .start y o m fun b => b ∈ ids
  | storeBlock _ _, _ | storeBlocks _ _, _ | flushOrigin _, _ | flushBlocks _ _, _ => False
  | _, _ => y.held = [] ∧ Idle .start y

/-- Where a load has its reply from, by the trail at its end: from the cache as it was seen, or from
the blob of a record that was read. Other calls find nothing. -/
def Finds (y : OptimizerTrail) : OptimizerOp → OptimizerReply → Prop
  | loadBlock o b, .payload v => Served y (o, b) v
  | loadBlocks o ids, .payloads t => Loaded y o ids t fun b => Absent y (o, b)
  | loadBlock _ _, _ | loadBlocks _ _, _ => False
  | _, _ => True

/-- The blocks without which a call may give up: a load and a prefetch stop with an error where one
of theirs is neither in the cache nor recorded. -/
def Sought : OptimizerOp → Set BlockName
  | loadBlock o b => {(o, b)}
  | prefetchBlocks o ids => {p | p.1 = o ∧ p.2 ∈ ids}
  | _ => ∅

/-- The trail where a call ends, one way or another: with a reply that the trail accounts for, or
with an error after it was stopped, by a call that failed or a block that is not there. -/
def Finishes (op : OptimizerOp) (y : OptimizerTrail) : Outcome SodlError OptimizerReply → Prop
  | .ok reply => op.Returns y reply ∧ op.Finds y reply
  | _ => Stopped op.Sought [] y ∧ ((∃ o b, op = loadBlock o b) → Idle .start y)

/-- A load is idle wherever it ends: it has staged, marked and saved nothing, whether it returned
the payload or an error. -/
theorem Finishes.idle {o b : String} {y : OptimizerTrail}
    {outcome : Outcome SodlError OptimizerReply} (h : (loadBlock o b).Finishes y outcome) :
    Idle .start y := by
  cases outcome with
  | ok reply => exact h.1.2
  | err e => exact h.2 ⟨o, b, rfl⟩
  | panic => exact h.2 ⟨o, b, rfl⟩

variable {N : Set BlockName} {P : ArtifactPlatform} {store : OptimizerStateStore}

/-- A specification of the method of a call shows where the call ends, for all calls but a load of
one block, which has the stronger conclusion for its errors. -/
theorem finishes_of_spec {op : OptimizerOp} {p : OptimizerProg OptimizerReply}
    (hload : ∀ o b, op ≠ loadBlock o b)
    (hp : Spec N P op.Sought [] .start p fun reply y => op.Returns y reply ∧ op.Finds y reply) :
    p.Guided (watch N P) op.Finishes .start := by
  refine (hp _ rfl).mono fun y r hy => ?_
  cases r with
  | ok reply => exact hy
  | err e => exact ⟨hy, fun ⟨o, b, h⟩ => absurd h (hload o b)⟩
  | panic => exact ⟨hy, fun ⟨o, b, h⟩ => absurd h (hload o b)⟩

/-- **Every call keeps to the watch**, whatever replies it gets, and ends as it is to end: it makes
only calls that it may make at that point of its run. -/
theorem guided (hN : Apart N) {op : OptimizerOp} (hop : op.Named N) :
    (op.prog P store).Guided (watch N P) op.Finishes .start := by
  have hheld : OptimizerTrail.start.held = [] := rfl
  have hmarks : OptimizerTrail.start.marks = ∅ := rfl
  cases op with
  | storeBlock o input =>
    exact finishes_of_spec nofun (Spec.bind (storeBlock_spec input (hN.plain _ hop) hop hheld
      hmarks) fun _ _ hy => Spec.pure ⟨hy, trivial⟩)
  | storeBlocks o inputs =>
    refine finishes_of_spec nofun (Spec.bind (storeBlocks_spec inputs (fun hne => ?_) hop hheld
      hmarks) fun _ _ hy => Spec.pure ⟨hy, trivial⟩)
    obtain ⟨input, hinput⟩ := List.exists_mem_of_ne_nil _ hne
    exact hN.plain _ (hop input hinput)
  | loadBlock o b =>
    have hspec : Spec N P (OptimizerOp.loadBlock o b).Sought [] .start (store.loadBlock P o b)
        fun v y => Steady .start y ∧ Served y (o, b) v :=
      loadBlock_spec b hop (Set.mem_singleton _) hheld hmarks
    have hidle := hspec.idle ((loads_loadBlock o b).mono fun _ => idle_of_load)
    have hreply : Prog.Traced (watch N P) (fun y => y = .start)
        ((OptimizerOp.loadBlock o b).prog P store)
        (fun reply y => (OptimizerOp.loadBlock o b).Returns y reply ∧
          (OptimizerOp.loadBlock o b).Finds y reply)
        (fun y => Stopped (OptimizerOp.loadBlock o b).Sought [] y ∧ Idle .start y) :=
      Prog.Traced.bind hidle fun bytes => Prog.Traced.pure fun _ hy =>
        ⟨⟨hy.1.1.held.trans hheld, hy.2⟩, hy.1.2⟩
    refine (hreply _ rfl).mono fun y r hy => ?_
    cases r with
    | ok reply => exact hy
    | err e => exact ⟨hy.1, fun _ => hy.2⟩
    | panic => exact ⟨hy.1, fun _ => hy.2⟩
  | loadBlocks o ids =>
    exact finishes_of_spec nofun (Spec.bind (loadBlocks_spec ids hop hheld hmarks)
      fun _ _ hy => Spec.pure ⟨⟨hy.1.held.trans hheld, hy.1.idle⟩, hy.2⟩)
  | prefetchBlocks o ids =>
    exact finishes_of_spec nofun (Spec.bind (prefetchBlocks_spec ids hop (fun _ hb => ⟨rfl, hb⟩)
      hheld hmarks) fun _ _ hy => Spec.pure ⟨hy, trivial⟩)
  | pinBlocks o ids =>
    exact finishes_of_spec nofun (Spec.bind (pinBlocks_spec ids hheld)
      fun _ _ hy => Spec.pure ⟨⟨hy.held.trans hheld, hy.idle⟩, trivial⟩)
  | unpinBlocks o ids =>
    exact finishes_of_spec nofun (Spec.bind (unpinBlocks_spec ids hheld hmarks)
      fun _ _ hy => Spec.pure ⟨⟨hy.held.trans hheld, hy.idle⟩, trivial⟩)
  | evictBlocks o ids =>
    exact finishes_of_spec nofun (Spec.bind (evictBlocks_spec ids hheld hmarks)
      fun _ _ hy => Spec.pure ⟨⟨hy.held.trans hheld, hy.idle⟩, trivial⟩)
  | flushOrigin o =>
    exact finishes_of_spec nofun (Spec.bind (flushOrigin_spec hop hheld hmarks)
      fun _ _ hy => Spec.pure ⟨hy, trivial⟩)
  | flushBlocks o ids =>
    exact finishes_of_spec nofun (Spec.bind (flushBlocks_spec hop ids hheld hmarks)
      fun _ _ hy => Spec.pure ⟨hy, trivial⟩)
  | manifest o =>
    exact finishes_of_spec nofun (Spec.bind (loadManifest_spec hheld o)
      fun _ _ hy => Spec.pure ⟨⟨hy.1.held.trans hheld, hy.1.steady.idle⟩, trivial⟩)
  | latestBlobId o b =>
    exact finishes_of_spec nofun (Spec.bind (latestBlobId_spec b hheld)
      fun _ _ hy => Spec.pure ⟨⟨hy.held.trans hheld, hy.idle⟩, trivial⟩)
  | dirtyBlockCount originFilter =>
    exact finishes_of_spec nofun (Spec.bind (dirtyBlockCount_spec originFilter hheld)
      fun _ _ hy => Spec.pure ⟨⟨hy.held.trans hheld, hy.idle⟩, trivial⟩)
  | cacheStats =>
    exact finishes_of_spec nofun (Spec.bind (cacheStats_spec hheld)
      fun _ _ hy => Spec.pure ⟨⟨hy.held.trans hheld, hy.idle⟩, trivial⟩)

/-! ### The order of the mutexes -/

/-- A call that takes the mutex of the cache while it has the one of the pinned keys. A call with
nothing to do takes neither. -/
def Nests : OptimizerOp → Prop
  | storeBlocks _ inputs => inputs ≠ []
  | pinBlocks _ ids | unpinBlocks _ ids => ids ≠ []
  | evictBlocks _ _ => True
  | _ => False

/-- The kind of calls that a call consists of: those that store or flush may make any, and the
others none that writes a manifest or a blob. -/
def Kind : OptimizerOp → OptimizerCall → Prop
  | storeBlock _ _ | storeBlocks _ _ | flushOrigin _ | flushBlocks _ _ => AnyCall
  | _ => LoadCall

variable {rank : Mutex → ℕ}

/-- **The order a call takes the mutexes in**: `cache_stats` the one of the cache first, a call that
nests them the one of the pinned keys, and for all others it does not matter. -/
theorem ordered (op : OptimizerOp) (hstats : op = cacheStats → rank .cache < rank .pinned)
    (hnests : op.Nests → rank .pinned < rank .cache) :
    mutexes.Ordered rank op.Kind [] (op.prog P store) := by
  cases op with
  | storeBlock o input =>
    exact Locking.Ordered.bind (ordered_storeBlock o input) fun _ => Locking.Ordered.pure _
  | storeBlocks o inputs =>
    exact Locking.Ordered.bind (ordered_storeBlocks o inputs hnests) fun _ =>
      Locking.Ordered.pure _
  | loadBlock o b =>
    exact Locking.Ordered.bind (ordered_loadBlock o b) fun _ => Locking.Ordered.pure _
  | loadBlocks o ids =>
    exact Locking.Ordered.bind (ordered_loadBlocks o ids) fun _ => Locking.Ordered.pure _
  | prefetchBlocks o ids =>
    exact Locking.Ordered.bind (ordered_prefetchBlocks o ids) fun _ => Locking.Ordered.pure _
  | pinBlocks o ids =>
    exact Locking.Ordered.bind (ordered_setPins o ids insert true hnests) fun _ =>
      Locking.Ordered.pure _
  | unpinBlocks o ids =>
    exact Locking.Ordered.bind (Locking.Ordered.bind
      (ordered_setPins o ids (fun key pinned => pinned.erase key) false hnests)
      fun _ => ordered_enforceCacheCapacity) fun _ => Locking.Ordered.pure _
  | evictBlocks o ids =>
    exact Locking.Ordered.bind (ordered_evictBlocks o ids (hnests trivial)) fun _ =>
      Locking.Ordered.pure _
  | flushOrigin o =>
    exact Locking.Ordered.bind (ordered_flushOrigin o) fun _ => Locking.Ordered.pure _
  | flushBlocks o ids =>
    exact Locking.Ordered.bind (ordered_flushKeys o _) fun _ => Locking.Ordered.pure _
  | manifest o =>
    exact Locking.Ordered.bind (ordered_loadManifest o) fun _ =>
      Locking.Ordered.pure _
  | latestBlobId o b =>
    exact Locking.Ordered.bind (Locking.Ordered.bind (ordered_loadManifest o) fun _ =>
      Locking.Ordered.pure _) fun _ => Locking.Ordered.pure _
  | dirtyBlockCount originFilter =>
    exact Locking.Ordered.bind (ordered_dirtyBlockCount originFilter) fun _ =>
      Locking.Ordered.pure _
  | cacheStats =>
    exact Locking.Ordered.bind (ordered_cacheStats (hstats rfl)) fun _ => Locking.Ordered.pure _

/-- **What a call consists of**: the calls to the shared state that any run of it can make are all
of its kind. -/
theorem calls (op : OptimizerOp) : (op.prog P store).Calls op.Kind := by
  -- any order that the call takes the mutexes in will do
  obtain ⟨rank, hstats, hnests⟩ : ∃ rank : Mutex → ℕ,
      (op = cacheStats → rank .cache < rank .pinned) ∧
        (op.Nests → rank .pinned < rank .cache) := by
    by_cases hstats : op = cacheStats
    · subst hstats
      exact ⟨fun m => if m = .cache then 0 else 1, fun _ => by decide, fun h => absurd h id⟩
    · exact ⟨fun m => if m = .cache then 1 else 0, fun h => absurd h hstats, fun _ => by decide⟩
  refine (op.ordered hstats hnests).calls.mono fun c hc => ?_
  cases c with
  | lock m => cases op <;> trivial
  | unlock m => cases op <;> trivial
  | _ => exact hc ⟨rfl, rfl⟩

end OptimizerOp

end Sodl
