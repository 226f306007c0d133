import Sodl.Sample
import Sodl.Weights.Capacity
import Sodl.Weights.Service

/-!
# Is the registry seen?

A cluster that is loaded comes from the registry if it is there, and else from the blob store, where
it is decrypted for the origin that asks. The registry has it under the id of its blob alone. So an
origin is given the cluster that another one brought into the registry, whether or not it could
decrypt the blob itself.

In a run of calls to the service, over blobs that stay as they are, loading gives what the cold path
would give exactly if the blob is not in the registry, or the origin that brought it there reads it
as the origin that asks (`Sodl.loadCluster_eq_cold_iff`).
-/

namespace Sodl

open Effect WeightPinRegistry

/-! ### Calls to the service -/

/-- The methods of the service that are called from outside. -/
inductive WeightOp
  | loadCluster (originId : OriginId) (blobId : BlobId)
  | pinIdentityCluster (originId : OriginId) (blobId : BlobId)
  | pinLogicCluster (originId : OriginId) (blobId : BlobId)
  | prefetchCluster (originId : OriginId) (blobId : BlobId)
  | evictCluster (blobId : BlobId)
  | storeCluster (originId : OriginId) (cluster : WeightCluster)

/-- What happens between two states: a call, or the gain of a blob that was not there. -/
inductive WeightEvent
  | call (op : WeightOp)
  | gain (id : BlobId) (data : Bytes)

variable (P : Platform) (W : WeightWorld) (svc : WeightStoreService)

/-- The state after a call that ran alone, whether it returned or failed. -/
def WeightOp.next (s : WeightState) : WeightOp → WeightState
  | loadCluster o b => ((svc.loadCluster P o b).run (weightHandler W) s).2
  | pinIdentityCluster o b => ((svc.pinIdentityCluster P o b).run (weightHandler W) s).2
  | pinLogicCluster o b => ((svc.pinLogicCluster P o b).run (weightHandler W) s).2
  | prefetchCluster o b => ((svc.prefetchCluster P o b).run (weightHandler W) s).2
  | evictCluster b => ((WeightStoreService.evictCluster b).run (weightHandler W) s).2
  | storeCluster o c => ((svc.storeCluster P o c).run (weightHandler W) s).2

/-- The origin for which a call reads a blob, for the calls that return a cluster or bring one
in. -/
def WeightOp.reads : WeightOp → Option (OriginId × BlobId)
  | loadCluster o b => some (o, b)
  | pinIdentityCluster o b => some (o, b)
  | pinLogicCluster o b => some (o, b)
  | prefetchCluster o b => some (o, b)
  | evictCluster _ => none
  | storeCluster _ _ => none

/-- The service, and for the blobs in the registry the origins that brought them there. -/
abbrev WeightServiceState : Type := WeightState × Table BlobId OriginId

/-- A call for an origin that finds its blob missing from the registry and leaves it there. -/
def WeightOp.brings (s s' : WeightState) (bringers : Table BlobId OriginId) (op : WeightOp) :
    Table BlobId OriginId :=
  match op.reads with
  | some (o, b) =>
    if s.entries.lookup b.val = none ∧ s'.entries.lookup b.val ≠ none then bringers.insert b o
    else bringers
  | none => bringers

/-- A step is a call of the service, or a blob that comes in from elsewhere under an id that was
free. -/
inductive WeightStep : WeightServiceState → WeightEvent → WeightServiceState → Prop
  | call (s : WeightState) (bringers : Table BlobId OriginId) (op : WeightOp) :
    WeightStep (s, bringers) (.call op)
      (op.next P W svc s, op.brings s (op.next P W svc s) bringers)
  | gain (s : WeightState) (bringers : Table BlobId OriginId) (id : BlobId) (data : Bytes)
    (hid : s.blobs.lookup id = none) :
    WeightStep (s, bringers) (.gain id data) ({ s with blobs := s.blobs.insert id data }, bringers)

/-- **The cold path**: what an origin gets from the blob store, with no registry in between. -/
def coldRead (blobs : Table BlobId Bytes) (o : OriginId) (b : BlobId) :
    Outcome SodlError WeightCluster :=
  match blobs.lookup b with
  | some stored => svc.store.reconstruct P o b stored
  | none => .err (W.absent b)

/-- A blob store that answers every call: nothing fails but what is not there. -/
def WeightWorld.Quiet (W : WeightWorld) : Prop := ∀ i, W.fault i = none

variable {P W svc} {s s' : WeightState} {o : OriginId} {b : BlobId}

/-! ### What a call does alone -/

/-- The cold path is the code's: `get` of the store returns it, in one call that changes neither the
registry nor the blobs. -/
theorem run_get_store (hW : W.Quiet) : (svc.store.get P o b).run (weightHandler W) s =
    (coldRead P W svc s.blobs o b, s.tick) := by
  rw [WeightBlobStore.get, Prog.run_bind, Prog.run_perform]
  simp only [weightHandler, hW s.calls, coldRead]
  rcases s.blobs.lookup b with _ | stored <;> rfl

/-- The registry has of what it had, with another entry for one key at most. -/
structure Serves (s s' : WeightState) (key : String) (c : Option WeightCluster) : Prop where
  blobs : s'.blobs = s.blobs
  self : ∀ e', s'.entries.lookup key = some e' → c = some e'.cluster
  other : ∀ k e', k ≠ key → s'.entries.lookup k = some e' →
    ∃ e, s.entries.lookup k = some e ∧ e.cluster = e'.cluster

theorem blobs_got : (got W b s).blobs = s.blobs := by
  rw [got, WeightState.tick, WeightState.touch]
  dsimp only
  split <;> rfl

/-- A look at the registry changes no cluster, only when it was used. -/
theorem lookup_got (k : String) : ((got W b s).entries.lookup k).map PinnedEntry.cluster =
    (s.entries.lookup k).map PinnedEntry.cluster := by
  rw [entries_got]
  rcases he : s.entries.lookup b.val with _ | e
  · rfl
  · by_cases hk : k = b.val
    · subst hk
      rw [Table.lookup_insert_self, he]
      rfl
    · rw [Table.lookup_insert_ne hk]

theorem serves_got :
    Serves s (got W b s) b.val ((s.entries.lookup b.val).map PinnedEntry.cluster) where
  blobs := blobs_got
  self e' he' := by rw [← lookup_got (W := W) (b := b), he', Option.map_some]
  other k e' _ he' := by
    have hk := lookup_got (W := W) (b := b) (s := s) k
    rw [he', Option.map_some] at hk
    exact Option.map_eq_some_iff.mp hk.symm

/-- A pin of a cluster, after a look at the registry that changed no cluster. -/
theorem serves_pinned {t : WeightState} {maxEntries : ℕ} {c : WeightCluster}
    {reason : WeightPinReason} (hblobs : t.blobs = s.blobs)
    (hclusters : ∀ k, (t.entries.lookup k).map PinnedEntry.cluster =
      (s.entries.lookup k).map PinnedEntry.cluster) :
    Serves s (pinned W maxEntries b c reason t) b.val (some c) where
  blobs := hblobs
  self e' he' := by
    rw [pinned, Table.lookup_insert_self] at he'
    rw [← Option.some.inj he']
  other k e' hk he' := by
    rw [pinned, Table.lookup_insert_ne hk] at he'
    have hk := hclusters k
    rw [lookup_of_lookup_evicted he', Option.map_some] at hk
    exact Option.map_eq_some_iff.mp hk.symm

/-- The cluster a call for an origin works with: that of the registry, or that of the cold path. -/
def found (P : Platform) (W : WeightWorld) (svc : WeightStoreService) (s : WeightState)
    (o : OriginId) (b : BlobId) : Outcome SodlError WeightCluster :=
  match s.entries.lookup b.val with
  | some e => .ok e.cluster
  | none => coldRead P W svc s.blobs o b

/-- What a call for an origin leaves of the registry: no clusters but those it had, and under the id
of the call only what was found. -/
def ServesFound (P : Platform) (W : WeightWorld) (svc : WeightStoreService) (s s' : WeightState)
    (o : OriginId) (b : BlobId) : Prop :=
  ∃ c, Serves s s' b.val c ∧ ∀ x, c = some x → found P W svc s o b = .ok x

theorem servesFound_got : ServesFound P W svc s (got W b s) o b := by
  refine ⟨_, serves_got, fun x hx => ?_⟩
  obtain ⟨e, he, rfl⟩ := Option.map_eq_some_iff.mp hx
  rw [found, he]

/-- A fetch that failed after a look leaves the clusters as they were. -/
theorem servesFound_fetch {t : WeightState} (hblobs : t.blobs = s.blobs)
    (hclusters : ∀ k, (t.entries.lookup k).map PinnedEntry.cluster =
      (s.entries.lookup k).map PinnedEntry.cluster) : ServesFound P W svc s t o b := by
  refine ⟨(s.entries.lookup b.val).map PinnedEntry.cluster, ⟨hblobs, fun e' he' => ?_,
    fun k e' _ he' => ?_⟩, fun x hx => ?_⟩
  · rw [← hclusters, he', Option.map_some]
  · have hk := hclusters k
    rw [he', Option.map_some] at hk
    exact Option.map_eq_some_iff.mp hk.symm
  · obtain ⟨e, he, rfl⟩ := Option.map_eq_some_iff.mp hx
    rw [found, he]

/-- A cluster that is in the registry is returned as it is, whichever origin asks. -/
theorem run_loadCluster_hit {e : PinnedEntry} (he : s.entries.lookup b.val = some e) :
    (svc.loadCluster P o b).run (weightHandler W) s = (.ok e.cluster, got W b s) := by
  rw [WeightStoreService.loadCluster, Prog.run_bind_ok (WeightPinRegistry.run_get b), he]
  rfl

/-- The fetch of a cluster that the registry does not have, and what is done with it. -/
theorem run_fetch (hW : W.Quiet) {α : Type} (k : WeightCluster → WeightProg α) (t : WeightState) :
    (svc.store.get P o b >>= k).run (weightHandler W) t =
      match coldRead P W svc t.blobs o b with
      | .ok c => (k c).run (weightHandler W) t.tick
      | .err e => (.err e, t.tick)
      | .panic => (.panic, t.tick) := by
  rw [Prog.run_bind, run_get_store hW]
  rcases coldRead P W svc t.blobs o b with c | e <;> rfl

/-- A cluster that is not is fetched, and pinned for frequent use if the fetch went well. -/
theorem run_loadCluster_miss (hW : W.Quiet) (he : s.entries.lookup b.val = none) :
    (svc.loadCluster P o b).run (weightHandler W) s =
      match coldRead P W svc s.blobs o b with
      | .ok c => (.ok c, pinned W svc.cacheCapacity b c .frequentUse (got W b s).tick)
      | .err e => (.err e, (got W b s).tick)
      | .panic => (.panic, (got W b s).tick) := by
  rw [WeightStoreService.loadCluster, Prog.run_bind_ok (WeightPinRegistry.run_get b), he]
  simp only [Option.map_none]
  rw [run_fetch hW, blobs_got]
  rcases coldRead P W svc s.blobs o b with c | e
  · exact Prog.run_bind_ok (Prog.run_succeeds_ok (run_pin b c .frequentUse))
  · rfl
  · rfl

/-- The cluster is pinned, whether it was found or fetched, and an eviction before it only takes
others away. -/
theorem servesFound_pinned {t : WeightState} {maxEntries : ℕ} {c : WeightCluster}
    {reason : WeightPinReason} (hblobs : t.blobs = s.blobs)
    (hclusters : ∀ k, (t.entries.lookup k).map PinnedEntry.cluster =
      (s.entries.lookup k).map PinnedEntry.cluster)
    (hfound : found P W svc s o b = .ok c) :
    ServesFound P W svc s (pinned W maxEntries b c reason t) o b :=
  ⟨some c, serves_pinned hblobs hclusters, fun x hx => by rw [hfound, Option.some.inj hx]⟩

/-- Where the registry has nothing, what is found is what the cold path gives. -/
theorem found_of_none (he : s.entries.lookup b.val = none) :
    found P W svc s o b = coldRead P W svc s.blobs o b := by
  rw [found, he]

theorem servesFound_load (hW : W.Quiet) :
    ServesFound P W svc s ((svc.loadCluster P o b).run (weightHandler W) s).2 o b := by
  rcases he : s.entries.lookup b.val with _ | e
  · rw [run_loadCluster_miss hW he]
    rcases hc : coldRead P W svc s.blobs o b with c | e
    · exact servesFound_pinned blobs_got lookup_got (by rw [found_of_none he, hc])
    · exact servesFound_fetch blobs_got lookup_got
    · exact servesFound_fetch blobs_got lookup_got
  · rw [run_loadCluster_hit he]
    exact servesFound_got

theorem servesFound_pin (hW : W.Quiet) (reason : WeightPinReason) :
    ServesFound P W svc s ((svc.pinCluster P reason o b).run (weightHandler W) s).2 o b := by
  rw [WeightStoreService.pinCluster, Prog.run_bind_ok (WeightPinRegistry.run_get b)]
  rcases he : s.entries.lookup b.val with _ | e
  · simp only [Option.map_none]
    rw [run_fetch hW, blobs_got]
    rcases hc : coldRead P W svc s.blobs o b with c | e
    · simp only [run_pin]
      exact servesFound_pinned blobs_got lookup_got (by rw [found_of_none he, hc])
    · exact servesFound_fetch blobs_got lookup_got
    · exact servesFound_fetch blobs_got lookup_got
  · simp only [Option.map_some, run_pin]
    exact servesFound_pinned blobs_got lookup_got (by rw [found, he])

theorem servesFound_prefetch (hW : W.Quiet) :
    ServesFound P W svc s ((svc.prefetchCluster P o b).run (weightHandler W) s).2 o b := by
  rw [WeightStoreService.prefetchCluster, Prog.run_bind_ok (run_isPinned b)]
  rcases he : s.entries.lookup b.val with _ | e
  · simp only [Option.isSome_none, Bool.false_eq_true, if_false]
    rw [run_fetch hW]
    have hblobs : s.tick.blobs = s.blobs := rfl
    rw [hblobs]
    rcases hc : coldRead P W svc s.blobs o b with c | e
    · simp only [run_pin]
      exact servesFound_pinned rfl (fun _ => rfl) (by rw [found_of_none he, hc])
    · exact servesFound_fetch rfl fun _ => rfl
    · exact servesFound_fetch rfl fun _ => rfl
  · exact servesFound_fetch rfl fun _ => rfl

/-- **Every call for an origin** leaves what the registry had, and under its blob what it found. -/
theorem servesFound_next (hW : W.Quiet) {op : WeightOp} (hop : op.reads = some (o, b)) :
    ServesFound P W svc s (op.next P W svc s) o b := by
  cases op with
  | loadCluster o' b' =>
    obtain ⟨rfl, rfl⟩ := Prod.mk.inj (Option.some.inj hop)
    exact servesFound_load hW
  | pinIdentityCluster o' b' =>
    obtain ⟨rfl, rfl⟩ := Prod.mk.inj (Option.some.inj hop)
    exact servesFound_pin hW .identity
  | pinLogicCluster o' b' =>
    obtain ⟨rfl, rfl⟩ := Prod.mk.inj (Option.some.inj hop)
    exact servesFound_pin hW .logic
  | prefetchCluster o' b' =>
    obtain ⟨rfl, rfl⟩ := Prod.mk.inj (Option.some.inj hop)
    exact servesFound_prefetch hW
  | evictCluster b' => exact absurd hop.symm (Option.some_ne_none _)
  | storeCluster o' c => exact absurd hop.symm (Option.some_ne_none _)

/-! ### Who brought what -/

/-- No blob is altered or deleted, though some may be added. -/
def BlobsKept (s s' : WeightState) : Prop :=
  ∀ id data, s.blobs.lookup id = some data → s'.blobs.lookup id = some data

/-- What the cold path has given once it goes on to give. -/
theorem coldRead_kept (h : BlobsKept s s') {c : WeightCluster}
    (hc : coldRead P W svc s.blobs o b = .ok c) : coldRead P W svc s'.blobs o b = .ok c := by
  rw [coldRead] at hc ⊢
  rcases hb : s.blobs.lookup b with _ | data
  · rw [hb] at hc
    exact nomatch hc
  · rw [hb] at hc
    rw [h b data hb]
    exact hc

/-- **Whatever is in the registry** is what the origin that brought it there reads. -/
def Brought (P : Platform) (W : WeightWorld) (svc : WeightStoreService)
    (t : WeightServiceState) : Prop :=
  ∀ b e, t.1.entries.lookup b.val = some e →
    ∃ o, t.2.lookup b = some o ∧ coldRead P W svc t.1.blobs o b = .ok e.cluster

/-- A call that reads keeps what the registry holds in step with the origins that brought it. -/
theorem brings_of_found {bringers : Table BlobId OriginId} {op : WeightOp}
    (hop : op.reads = some (o, b)) (hW : W.Quiet) (h : Brought P W svc (s, bringers)) :
    Brought P W svc (op.next P W svc s, op.brings s (op.next P W svc s) bringers) := by
  have hserved : ServesFound P W svc s (op.next P W svc s) o b := servesFound_next hW hop
  obtain ⟨c, hserves, hfound⟩ := hserved
  have hkept : BlobsKept s (op.next P W svc s) := fun id data hid => by rwa [hserves.blobs]
  have hbrings : ∀ b', b' ≠ b →
      (op.brings s (op.next P W svc s) bringers).lookup b' = bringers.lookup b' := by
    intro b' hne
    simp only [WeightOp.brings, hop]
    split_ifs
    · exact Table.lookup_insert_ne hne
    · rfl
  intro b' e' he'
  by_cases hb : b' = b
  · subst hb
    have hc := hfound e'.cluster (hserves.self e' he')
    rcases hold : s.entries.lookup b'.val with _ | e
    · -- it was not there: this call brings it
      refine ⟨o, ?_, coldRead_kept hkept (by rwa [found_of_none hold] at hc)⟩
      simp only [WeightOp.brings, hop]
      rw [if_pos ⟨hold, fun hnone => Option.some_ne_none e' (he'.symm.trans hnone)⟩,
        Table.lookup_insert_self]
    · obtain ⟨o', ho', hread⟩ := h b' e hold
      have hsame : e.cluster = e'.cluster := by
        rw [found, hold] at hc
        exact Outcome.ok.inj hc
      refine ⟨o', ?_, coldRead_kept hkept (hsame ▸ hread)⟩
      simp only [WeightOp.brings, hop]
      rw [if_neg fun hnone => Option.some_ne_none e (hold.symm.trans hnone.1)]
      exact ho'
  · have hne : b'.val ≠ b.val := fun hval => hb (BlobId.val_inj.mp hval)
    obtain ⟨e, he, hsame⟩ := hserves.other b'.val e' hne he'
    obtain ⟨o', ho', hread⟩ := h b' e he
    exact ⟨o', (hbrings b' hb).trans ho', coldRead_kept hkept (hsame ▸ hread)⟩

/-- A step that adds no entry keeps them in step, if it keeps the blobs. -/
theorem Brought.mono {bringers : Table BlobId OriginId} (h : Brought P W svc (s, bringers))
    (hsub : ∀ k e, s'.entries.lookup k = some e → s.entries.lookup k = some e)
    (hkept : BlobsKept s s') : Brought P W svc (s', bringers) := by
  intro b e he
  obtain ⟨o, ho, hread⟩ := h b e (hsub b.val e he)
  exact ⟨o, ho, coldRead_kept hkept hread⟩

theorem evict_next (b : BlobId) :
    (∀ k e, ((WeightOp.evictCluster b).next P W svc s).entries.lookup k = some e →
      s.entries.lookup k = some e) ∧
    ((WeightOp.evictCluster b).next P W svc s).blobs = s.blobs := by
  rw [WeightOp.next, WeightStoreService.evictCluster]
  by_cases hp : ∃ e, s.entries.lookup b.val = some e ∧ e.Protected
  · obtain ⟨e, he, hp⟩ := hp
    rw [run_unpin_refused he hp]
    exact ⟨fun _ _ h => h, rfl⟩
  · have hp : ∀ e, s.entries.lookup b.val = some e → ¬e.Protected :=
      fun e he hpe => hp ⟨e, he, hpe⟩
    rw [run_unpin hp]
    exact ⟨fun _ _ h => (Table.lookup_of_lookup_erase h).2, rfl⟩

theorem run_blobHas (hW : W.Quiet) (id : BlobId) :
    (WeightCall.invoke (.blobHas id)).run (weightHandler W) s =
      (.ok (s.blobs.lookup id).isSome, s.tick) := by
  rw [WeightCall.invoke, Prog.run_perform, weightHandler, hW s.calls]

/-- Bytes are stored under an id that is not there, and left alone where they are. -/
theorem storeBlob_keeps (hW : W.Quiet) (id : BlobId) (data : Bytes) (stats : Bool → StoreStats) :
    let p : WeightProg StoreStats := do
      let wasDeduped ← WeightCall.invoke (.blobHas id)
      if wasDeduped then
        pure (stats wasDeduped)
      else
        WeightCall.invoke (.blobPut id data)
        pure (stats wasDeduped)
    (p.run (weightHandler W) s).2.entries = s.entries ∧
      BlobsKept s (p.run (weightHandler W) s).2 := by
  intro p
  have hrun : p.run (weightHandler W) s =
      ((if (s.blobs.lookup id).isSome then pure (stats (s.blobs.lookup id).isSome)
        else WeightCall.invoke (.blobPut id data) >>= fun _ =>
          pure (stats (s.blobs.lookup id).isSome)) : WeightProg StoreStats).run
            (weightHandler W) s.tick := Prog.run_bind_ok (run_blobHas hW id)
  rw [hrun]
  rcases hid : s.blobs.lookup id with _ | data'
  · have hput : (WeightCall.invoke (.blobPut id data)).run (weightHandler W) s.tick =
        (.ok (), { s with blobs := s.blobs.insert id data }.tick.tick) := by
      rw [WeightCall.invoke, Prog.run_perform, weightHandler, hW s.tick.calls]
      rfl
    simp only [Option.isSome_none, Bool.false_eq_true, if_false]
    rw [Prog.run_bind_ok hput]
    refine ⟨rfl, fun id' data' h' => ?_⟩
    have hne : id' ≠ id := fun heq => Option.some_ne_none data' ((heq ▸ h').symm.trans hid)
    exact (Table.lookup_insert_ne hne).trans h'
  · exact ⟨rfl, fun _ _ h => h⟩

/-- Storing a cluster leaves the registry, and adds a blob at most. -/
theorem store_next (hW : W.Quiet) (o : OriginId) (c : WeightCluster) :
    ((WeightOp.storeCluster o c).next P W svc s).entries = s.entries ∧
      BlobsKept s ((WeightOp.storeCluster o c).next P W svc s) := by
  have hsame : s.entries = s.entries ∧ BlobsKept s s := ⟨rfl, fun _ _ h => h⟩
  rw [WeightOp.next, WeightStoreService.storeCluster, WeightBlobStore.put, Prog.run_lift_bind]
  rcases Outcome.ofExcept SodlError.serialization (svc.store.codec.toVec c) with raw | e
  · simp only [Prog.run_lift_bind]
    rcases Outcome.ofExcept SodlError.compression
        (svc.store.codec.encode svc.store.compressionLevel raw) with compressed | e
    · simp only []
      rcases svc.store.encrypt o compressed with stored | e
      · exact storeBlob_keeps hW _ _ _
      · exact hsame
      · exact hsame
    · exact hsame
    · exact hsame
  · exact hsame
  · exact hsame

/-! ### Runs -/

/-- **What a step keeps**: whatever is in the registry is what the origin that brought it reads. -/
theorem Brought.step (hW : W.Quiet) {t t' : WeightServiceState} {e : WeightEvent}
    (h : Brought P W svc t) (hstep : WeightStep P W svc t e t') : Brought P W svc t' := by
  cases hstep with
  | gain s bringers id data hid =>
    refine h.mono (fun _ _ he => he) fun id' data' h' => ?_
    have hne : id' ≠ id := fun heq => Option.some_ne_none data' ((heq ▸ h').symm.trans hid)
    exact (Table.lookup_insert_ne hne).trans h'
  | call s bringers op =>
    rcases hop : op.reads with _ | ⟨o, b⟩
    · have hbrings : op.brings s (op.next P W svc s) bringers = bringers := by
        simp only [WeightOp.brings, hop]
      rw [hbrings]
      cases op with
      | evictCluster b =>
        obtain ⟨hsub, hblobs⟩ := evict_next (P := P) (W := W) (s := s) b
        exact h.mono hsub fun id data hid => by rwa [hblobs]
      | storeCluster o c =>
        obtain ⟨hentries, hkept⟩ := store_next (P := P) (s := s) hW o c
        exact h.mono (fun k e he => by rwa [hentries] at he) hkept
      | loadCluster o b => exact absurd hop (Option.some_ne_none _)
      | pinIdentityCluster o b => exact absurd hop (Option.some_ne_none _)
      | pinLogicCluster o b => exact absurd hop (Option.some_ne_none _)
      | prefetchCluster o b => exact absurd hop (Option.some_ne_none _)
    · exact brings_of_found hop hW h

/-- A new registry holds nothing that could be out of step. -/
theorem brought_fresh (blobs : Table BlobId Bytes) :
    Brought P W svc (WeightState.fresh blobs, ∅) := by
  intro b e he
  have hnone : (WeightState.fresh blobs).entries.lookup b.val = none := rfl
  exact absurd (hnone.symm.trans he).symm (Option.some_ne_none e)

/-- Every run keeps the registry in step with the origins that brought its clusters. -/
theorem brought_run (hW : W.Quiet) {blobs : Table BlobId Bytes} {H : List WeightEvent}
    {t : WeightServiceState}
    (hrun : Run (WeightStep P W svc) (WeightState.fresh blobs, ∅) H t) : Brought P W svc t :=
  Run.invariant (I := fun _ t => Brought P W svc t)
    (brought_fresh blobs)
    (fun _ _ _ _ _ h hstep => h.step hW hstep) hrun

/-- **When the registry is not seen.** After any calls over blobs that are neither altered nor
deleted, an origin is loaded what the cold path would give it exactly if the blob is not in the
registry, or the origin that brought it there reads it alike. -/
theorem loadCluster_eq_cold_iff (hW : W.Quiet) {blobs : Table BlobId Bytes}
    {H : List WeightEvent} {t : WeightServiceState}
    (hrun : Run (WeightStep P W svc) (WeightState.fresh blobs, ∅) H t) (o : OriginId)
    (b : BlobId) :
    ((svc.loadCluster P o b).run (weightHandler W) t.1).1 =
        ((svc.store.get P o b).run (weightHandler W) t.1).1 ↔
      ∀ o', t.1.entries.lookup b.val ≠ none → t.2.lookup b = some o' →
        coldRead P W svc t.1.blobs o' b = coldRead P W svc t.1.blobs o b := by
  rw [run_get_store hW]
  rcases he : t.1.entries.lookup b.val with _ | e
  · rw [run_loadCluster_miss hW he]
    refine ⟨fun _ o' hne => absurd rfl hne, fun _ => ?_⟩
    rcases coldRead P W svc t.1.blobs o b with c | e <;> rfl
  · obtain ⟨o', ho', hread⟩ := brought_run hW hrun b e he
    rw [run_loadCluster_hit he]
    constructor
    · intro hcold o'' _ ho''
      obtain rfl := Option.some.inj (ho'.symm.trans ho'')
      exact hread.trans hcold
    · intro hall
      exact hread.symm.trans (hall o' (Option.some_ne_none e) ho')

/-! ### Two origins -/

namespace Sample

/-- The last sixteen bytes of a key, by which the sample cipher tells its keys apart. -/
def aeadTag (key : Bytes) : Bytes := (key.reverse ++ List.replicate 16 0).take 16

/-- A cipher that leaves the text and adds a tag that depends on the key. -/
def aeadSuite : AeadSuite where
  hkdfExpand _ info := ascii info
  blake3 _ := List.replicate 32 0
  encrypt key _ text := some (text ++ aeadTag key)
  decrypt key _ text :=
    if text.drop (text.length - 16) = aeadTag key then some (text.take (text.length - 16)) else none

/-- A codec that knows one cluster, and writes it as one byte. -/
def weightCodec (cluster : WeightCluster) : WeightCodec where
  toVec _ := .ok [42]
  fromSlice bytes := if bytes = [42] then .ok cluster else .error "expected value"
  encode _ bytes := .ok bytes
  decode bytes := .ok bytes

def weightCluster : WeightCluster := ⟨none, [⟨0⟩], [7], [], 1⟩

/-- A service that encrypts for the origin, with room for eight clusters. -/
def weightService : WeightStoreService where
  store := {
    codec := weightCodec weightCluster
    crypto := some (aeadCrypto samplePlatform aeadSuite (Vector.replicate 32 0))
    hashAlg := .blake3
    compressionLevel := 3 }
  cacheCapacity := 8

def originOne : OriginId := ⟨⟨Vector.replicate 16 1⟩⟩

def originTwo : OriginId := ⟨⟨Vector.replicate 16 2⟩⟩

/-- The blob of the cluster, encrypted for the first origin: version, nonce, the byte of the
cluster, and the tag of the key. -/
def weightBlob : Bytes :=
  1 :: (List.replicate 24 0 ++ ([42] ++ aeadTag (ascii
    ("sodl-origin-v1:" ++ samplePlatform.uuidToString originOne.uuid))))

def weightBlobId : BlobId := computeBlobId samplePlatform weightBlob .blake3

/-- The blob of the cluster, encrypted for the second origin, and so under another id. -/
def otherBlob : Bytes :=
  1 :: (List.replicate 24 0 ++ ([42] ++ aeadTag (ascii
    ("sodl-origin-v1:" ++ samplePlatform.uuidToString originTwo.uuid))))

def otherBlobId : BlobId := computeBlobId samplePlatform otherBlob .blake3

/-- The service after some calls, from a new registry over no blobs on. -/
def weightCalls (ops : List WeightOp) : WeightState :=
  ops.foldl (WeightOp.next samplePlatform sampleWorld weightService) (WeightState.fresh ∅)

/-- One call, with the origins that brought what is in the registry. -/
def weightCall (t : WeightServiceState) (op : WeightOp) : WeightServiceState :=
  (op.next samplePlatform sampleWorld weightService t.1,
    op.brings t.1 (op.next samplePlatform sampleWorld weightService t.1) t.2)

theorem run_weightCalls (ops : List WeightOp) (t : WeightServiceState) :
    Run (WeightStep samplePlatform sampleWorld weightService) t (ops.map .call)
      (ops.foldl weightCall t) := by
  induction ops generalizing t with
  | nil => exact Run.nil
  | cons op ops ih => exact Run.cons (WeightStep.call t.1 t.2 op) (ih _)

/-- Two origins store the cluster, and each loads its blob, the second by a prefetch. -/
def loadedTwice : List WeightOp :=
  [.storeCluster originOne weightCluster, .storeCluster originTwo weightCluster,
    .loadCluster originOne weightBlobId, .prefetchCluster originTwo otherBlobId]

end Sample

theorem Sample.length_aeadTag (key : Bytes) : (aeadTag key).length = 16 := by
  rw [aeadTag, List.length_take, List.length_append, List.length_replicate]
  omega

theorem Sample.aeadSuite_lawful : aeadSuite.Lawful where
  blake3_length _ := List.length_replicate
  encrypt_length key n text stored h := by
    obtain rfl := Option.some.inj h
    rw [List.length_append, length_aeadTag]
  decrypt_encrypt key n text stored h := by
    obtain rfl := Option.some.inj h
    have hlen : (text ++ aeadTag key).length - 16 = text.length := by
      rw [List.length_append, length_aeadTag, Nat.add_sub_cancel]
    simp only [aeadSuite, hlen, List.drop_left, List.take_left, if_true]

/-- Two origins find their blobs in the registry, each the one that it brought there, and are given
what the cold path would give; for the blob of the other this is not so. -/
theorem loadCluster_eq_cold_loaded :
    let t := Sample.loadedTwice.foldl Sample.weightCall (WeightState.fresh ∅, ∅)
    let load (o : OriginId) (b : BlobId) :=
      ((Sample.weightService.loadCluster samplePlatform o b).run (weightHandler sampleWorld) t.1).1
    let cold (o : OriginId) (b : BlobId) :=
      ((Sample.weightService.store.get samplePlatform o b).run (weightHandler sampleWorld) t.1).1
    t.1.entries.keys = [Sample.otherBlobId.val, Sample.weightBlobId.val] ∧
      load Sample.originOne Sample.weightBlobId = cold Sample.originOne Sample.weightBlobId ∧
      load Sample.originTwo Sample.otherBlobId = cold Sample.originTwo Sample.otherBlobId ∧
      load Sample.originTwo Sample.weightBlobId ≠ cold Sample.originTwo Sample.weightBlobId := by
  intro t load cold
  have hW : sampleWorld.Quiet := fun _ => rfl
  have hiff := loadCluster_eq_cold_iff hW
    (Sample.run_weightCalls Sample.loadedTwice (WeightState.fresh ∅, ∅))
  have hone : t.2.lookup Sample.weightBlobId = some Sample.originOne := by decide +kernel
  have htwo : t.2.lookup Sample.otherBlobId = some Sample.originTwo := by decide +kernel
  refine ⟨by decide +kernel, (hiff _ _).mpr fun o' _ ho' => ?_, (hiff _ _).mpr fun o' _ ho' => ?_,
    fun hsame => ?_⟩
  · obtain rfl := Option.some.inj (hone.symm.trans ho')
    rfl
  · obtain rfl := Option.some.inj (htwo.symm.trans ho')
    rfl
  · have hread := (hiff _ _).mp hsame Sample.originOne (by decide +kernel) hone
    have hdiffer : coldRead samplePlatform sampleWorld Sample.weightService t.1.blobs
          Sample.originOne Sample.weightBlobId ≠
        coldRead samplePlatform sampleWorld Sample.weightService t.1.blobs
          Sample.originTwo Sample.weightBlobId := by decide +kernel
    exact hdiffer hread

/-- **Not decrypted, but loaded**: under a cipher that tells keys apart, an origin is given the
cluster of another. -/
theorem loadCluster_ne_cold : Sample.aeadSuite.Lawful ∧
    let s := Sample.weightCalls [.storeCluster Sample.originOne Sample.weightCluster,
      .loadCluster Sample.originOne Sample.weightBlobId]
    ((Sample.weightService.loadCluster samplePlatform Sample.originTwo Sample.weightBlobId).run
        (weightHandler sampleWorld) s).1 = .ok Sample.weightCluster ∧
      ((Sample.weightService.store.get samplePlatform Sample.originTwo Sample.weightBlobId).run
        (weightHandler sampleWorld) s).1 =
          .err (.crypto "AEAD decrypt failed (wrong key or tampered): aead::Error") := by
  refine ⟨Sample.aeadSuite_lawful, ?_⟩
  decide +kernel

end Sodl
