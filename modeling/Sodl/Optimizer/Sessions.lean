import Mathlib.Logic.Function.Basic
import Sodl.Optimizer.Alone

/-!
# The optimizer-state store is a map

A store that is used by one caller, one call after the other (`Sodl.Session`). What it is for is
said by two maps (`Sodl.OptimizerMap`): the payload each block was last stored with, and the
payload it had when it was last flushed. A store says itself of a block that it was flushed, when
the writeback threshold was reached.

Through any run of calls that return, the store refines these maps (`Sodl.Refines.run`): a load
finds the first, a store opened anew on the same directories finds the second, and the cache, the
manifests and the blobs agree.
-/

namespace Sodl

open Effect Optimizer OptimizerTrail

/-! ### Sessions -/

/-- A store with its settings, and what it keeps: the cache and the pinned keys in memory, the
manifests and the blobs on disk. -/
structure Session where
  store : OptimizerStateStore
  state : OptimizerState

/-- What the caller does. A call is noted with how it ended and with its trail; when a store is
opened anew on the same directories, what was in memory is gone. -/
inductive OptimizerEvent
  | call (op : OptimizerOp) (outcome : Outcome SodlError OptimizerReply) (trail : OptimizerTrail)
  | setCacheCapacity (cacheCapacity : ℕ)
  | reopen (compressionLevel : ℤ) (cacheCapacity writebackThreshold : ℕ)

namespace OptimizerEvent

/-- The blocks that an event names are of `N`. Opening a store anew and setting its capacity name
none. -/
def Named (N : Set BlockName) : OptimizerEvent → Prop
  | call op _ _ => op.Named N
  | _ => True

/-- The call returned, or it was a load that failed: a load changes nothing that was stored, and a
session may go on after it. -/
def Ok : OptimizerEvent → Prop
  | call op outcome _ => outcome.isOk = true ∨ ∃ o b, op = .loadBlock o b
  | _ => True

end OptimizerEvent

/-- One event: a call runs to its end before the next, a new capacity is only noted in the store,
and a store that is opened anew starts with an empty cache on the same directories. -/
inductive Session.Step (P : ArtifactPlatform) : Session → OptimizerEvent → Session → Prop
  | call (store : OptimizerStateStore) (s : OptimizerState) (op : OptimizerOp) :
    Step P ⟨store, s⟩ (.call op (op.run P store s).1 (op.trail P store s))
      ⟨store, (op.run P store s).2⟩
  | setCacheCapacity (store : OptimizerStateStore) (s : OptimizerState) (cacheCapacity : ℕ) :
    Step P ⟨store, s⟩ (.setCacheCapacity cacheCapacity) ⟨store.setCacheCapacity cacheCapacity, s⟩
  | reopen (store : OptimizerStateStore) (s : OptimizerState) (compressionLevel : ℤ)
    (cacheCapacity writebackThreshold : ℕ) :
    Step P ⟨store, s⟩ (.reopen compressionLevel cacheCapacity writebackThreshold)
      ⟨.open compressionLevel cacheCapacity writebackThreshold,
        .opened s.registry s.blobs s.clock s.faults⟩

/-- Some calls in a row: their events, and the session after them. -/
def Session.calls (P : ArtifactPlatform) :
    List OptimizerOp → Session → List OptimizerEvent × Session
  | [], a => ([], a)
  | op :: ops, a =>
    let rest := calls P ops ⟨a.store, (op.run P a.store a.state).2⟩
    (.call op (op.run P a.store a.state).1 (op.trail P a.store a.state) :: rest.1, rest.2)

/-- Some calls in a row are a run of the session. -/
theorem Session.run_calls (P : ArtifactPlatform) (ops : List OptimizerOp) (a : Session) :
    Run (Session.Step P) a (Session.calls P ops a).1 (Session.calls P ops a).2 := by
  induction ops generalizing a with
  | nil => exact Run.nil
  | cons op ops ih => exact Run.cons (Session.Step.call a.store a.state op) (ih _)

/-- Calls that name blocks of `N` are events that do. -/
theorem Session.named_calls {N : Set BlockName} {P : ArtifactPlatform} {ops : List OptimizerOp}
    (hops : ∀ op ∈ ops, op.Named N) (a : Session) :
    ∀ e ∈ (Session.calls P ops a).1, e.Named N := by
  induction ops generalizing a with
  | nil => exact fun e he => absurd he List.not_mem_nil
  | cons op ops ih =>
    intro e he
    rw [Session.calls] at he
    obtain rfl | he := List.mem_cons.mp he
    · exact hops op (List.mem_cons_self ..)
    · exact ih (fun op' hop' => hops op' (List.mem_cons_of_mem _ hop')) _ e he

/-! ### The maps -/

/-- What was last stored, after some more was. -/
def storing (latest : BlockName → Option Bytes) (blocks : List (BlockName × Bytes)) :
    BlockName → Option Bytes :=
  blocks.foldl (fun f e => Function.update f e.1 (some e.2)) latest

/-- The blocks a call flushes, by what it replies: a flush those it was asked for, and a store all
blocks of the origin where it says that it flushed. -/
def OptimizerOp.Flushes (p : BlockName) : OptimizerOp → OptimizerReply → Prop
  | .flushOrigin o, _ => p.1 = o
  | .flushBlocks o ids, _ => p.1 = o ∧ p.2 ∈ ids
  | .storeBlock o _, .stored results | .storeBlocks o _, .stored results =>
    p.1 = o ∧ ∃ r ∈ results, r.flushed = true
  | _, _ => False

instance (p : BlockName) (op : OptimizerOp) (reply : OptimizerReply) :
    Decidable (op.Flushes p reply) := by
  cases op <;> cases reply <;> unfold OptimizerOp.Flushes <;> infer_instance

/-- What the store is for: the payload each block was last stored with, and the one it had when it
was last flushed. -/
structure OptimizerMap where
  latest : BlockName → Option Bytes
  flushed : BlockName → Option Bytes

namespace OptimizerMap

/-- The maps of a store that was never used. -/
def empty : OptimizerMap := ⟨fun _ => none, fun _ => none⟩

/-- The maps after an event. A call that returned has stored and flushed what it says; a store that
is opened anew has what was flushed, and nothing else changes the maps. -/
def after (M : OptimizerMap) : OptimizerEvent → OptimizerMap
  | .call op (.ok reply) _ =>
    let latest := storing M.latest op.stores
    ⟨latest, fun p => if op.Flushes p reply then latest p else M.flushed p⟩
  | .reopen _ _ _ => ⟨M.flushed, M.flushed⟩
  | _ => M

/-- The maps after some events, the first one first. -/
def replay (H : List OptimizerEvent) : OptimizerMap := H.foldl after empty

end OptimizerMap

variable {N : Set BlockName} {P : ArtifactPlatform} {store : OptimizerStateStore}
  {s : OptimizerState} {V : BlockName → Option Bytes} {x : OptimizerTrail} {p : BlockName}
  {M : OptimizerMap} {op : OptimizerOp} {reply : OptimizerReply} {H : List OptimizerEvent}

/-- What was staged under the keys of some blocks is what was stored for them, as blocks of `N` with
one key are one block. -/
theorem staging_eq_storing (hN : Apart N) {blocks : List (BlockName × Bytes)}
    (hblocks : ∀ e ∈ blocks, e.1 ∈ N) (hp : p ∈ N) :
    staging V (blocks.map fun e => (e.1.key, e.2)).reverse p = storing V blocks p := by
  -- the induction is from the last block on
  induction blocks using List.reverseRecOn with
  | nil => rfl
  | append_singleton blocks e ih =>
    have hrest := ih fun e' he' => hblocks e' (List.mem_append_left _ he')
    have he := hblocks e (by simp)
    have hrev : ((blocks ++ [e]).map fun e => (e.1.key, e.2)).reverse =
        (e.1.key, e.2) :: (blocks.map fun e => (e.1.key, e.2)).reverse := by simp
    have hlast : storing V (blocks ++ [e]) = Function.update (storing V blocks) e.1 (some e.2) :=
      List.foldl_append ..
    rw [hrev, staging, hrest, hlast]
    by_cases hpe : p = e.1
    · rw [hpe, if_pos rfl, Function.update_self]
    · rw [if_neg fun h => hpe (hN.key_inj hp he h), Function.update_of_ne hpe]

/-- A block that is among those that were stored has a payload, whatever it had before. -/
theorem exists_storing {blocks : List (BlockName × Bytes)} {e : BlockName × Bytes}
    (he : e ∈ blocks) : ∃ v, storing V blocks e.1 = some v := by
  induction blocks using List.reverseRecOn with
  | nil => exact absurd he (by simp)
  | append_singleton blocks e' ih =>
    have hlast : storing V (blocks ++ [e']) = Function.update (storing V blocks) e'.1 (some e'.2) :=
      List.foldl_append ..
    rw [hlast]
    by_cases hee : e.1 = e'.1
    · exact ⟨e'.2, by rw [hee, Function.update_self]⟩
    · rw [Function.update_of_ne hee]
      rcases List.mem_append.mp he with he | he
      · exact ih he
      · exact absurd (congrArg Prod.fst (List.mem_singleton.mp he)) hee

/-- The blocks that a call that returned has staged are those that it stores, under their keys. -/
theorem OptimizerOp.Returns.staged (h : op.Returns x reply) :
    x.staged = (op.stores.map fun e => (e.1.key, e.2)).reverse := by
  cases op with
  | storeBlock o input =>
    cases reply with
    | stored results => exact (StoreEnd.staged h).trans (List.append_nil _)
    | _ => exact absurd h id
  | storeBlocks o inputs =>
    cases reply with
    | stored results =>
      refine (StoreEnd.staged h).trans ((List.append_nil _).trans ?_)
      simp [OptimizerOp.stores, stagedBlock, Function.comp_def]
    | _ => exact absurd h id
  | flushOrigin o =>
    cases reply with
    | manifest m => exact FlushEnd.staged h
    | _ => exact absurd h id
  | flushBlocks o ids =>
    cases reply with
    | manifest m => exact FlushEnd.staged h
    | _ => exact absurd h id
  | _ => exact (Idle.staged h.2).trans rfl

/-- A call that names blocks of `N` stores none but those. -/
theorem OptimizerOp.Named.stores (hop : op.Named N) : ∀ e ∈ op.stores, e.1 ∈ N := by
  cases op with
  | storeBlock o input =>
    intro e he
    obtain rfl := List.mem_singleton.mp he
    exact hop
  | storeBlocks o inputs =>
    intro e he
    obtain ⟨input, hinput, rfl⟩ := List.mem_map.mp he
    exact hop input hinput
  | _ => exact nofun

/-! ### What is recorded -/

/-- The manifests record a map: a block with a payload has a record that names it, and a block
without one has no record. -/
def Recording (N : Set BlockName) (P : ArtifactPlatform) (s : OptimizerState)
    (F : BlockName → Option Bytes) : Prop :=
  ∀ p ∈ N, (F p = none → s.recorded p = none) ∧
    ∀ v, F p = some v → ∃ r, s.recorded p = some r ∧ P.Names r v

/-- Only the blocks of `N` matter: maps that agree on them are kept by the same stores. -/
theorem Consistent.congr_map {W : BlockName → Option Bytes} {T : List OptimizerTrail}
    (hc : Consistent N P s V T) (hV : ∀ p ∈ N, V p = W p) : Consistent N P s W T where
  keys := hc.keys
  ids := hc.ids
  files := hc.files
  named := hc.named
  blocks p hp := hV p hp ▸ hc.blocks p hp
  knows := hc.knows

/-- A block that is not dirty is recorded with the payload it was last stored with. -/
theorem Consistent.recorded (hc : Consistent N P s V []) (hp : p ∈ N)
    (hclean : ∀ e, s.cache.lookup p.key = some e → e.dirty = false) :
    (V p = none → s.recorded p = none) ∧
      ∀ v, V p = some v → ∃ r, s.recorded p = some r ∧ P.Names r v := by
  have hkept := hc.blocks p hp
  refine ⟨hkept.unset, fun v hv => ?_⟩
  rcases hl : s.cache.lookup p.key with _ | e
  · exact hkept.missing hl v hv
  · obtain ⟨r, -, hnames, ⟨r', hr', hid⟩ | ⟨y, hy, -⟩⟩ := hkept.clean e hl (hclean e hl)
    · obtain rfl : v = e.bytes := Option.some.inj (hv.symm.trans (hkept.entry e hl))
      exact ⟨r', hr', hnames.of_blobId hid.symm⟩
    · exact absurd hy (by simp)

/-- What a method reports after it flushed is what the manifest of the origin is on disk. -/
theorem Current.reported {s₀ : OptimizerState} {o : String} {m : OptimizerStateManifest}
    (hcur : Current N s₀ s x) (hm : Reported x o m) (b : String) :
    m.blocks.lookup b = s.recorded (o, b) := by
  rcases hm with ⟨hsaved, hfile⟩ | ⟨read, hloads⟩
  · have hl := hcur.saved m hsaved
    rw [hfile] at hl
    rw [OptimizerState.recorded, hl]
    rfl
  · rw [hloads.blocks b, OptimizerState.recorded, hcur.reads _ _ hloads.mem]

/-- A block that was seen not to be dirty since the last one was staged is recorded, and so it is
reported. -/
theorem Consistent.recorded_of_notDirty {s₀ : OptimizerState} (hc : Consistent N P s V [])
    (hcur : Current N s₀ s x) (hp : p ∈ N) (hclean : x.NotDirty p.key) :
    (V p = none → s.recorded p = none) ∧
      ∀ v, V p = some v → ∃ r, s.recorded p = some r ∧ P.Names r v :=
  hc.recorded hp fun _ he => hcur.clean hclean he

/-! ### Refinement -/

/-- **The store refines the maps**: it is consistent with what was last stored, and its manifests
record what was last flushed. -/
structure Refines (N : Set BlockName) (P : ArtifactPlatform) (s : OptimizerState)
    (M : OptimizerMap) : Prop where
  consistent : Consistent N P s M.latest []
  recording : Recording N P s M.flushed

/-- A store on empty directories refines the empty maps, whatever the clock shows and whatever will
fail. -/
theorem Refines.opened (N : Set BlockName) (P : ArtifactPlatform) (clock : ℕ → OffsetDateTime)
    (faults : ℕ → Option SodlError) : Refines N P (.opened ∅ ∅ clock faults) .empty where
  consistent :=
    { keys := fun key hkey => absurd hkey (AList.notMem_empty key)
      ids := fun b data hl => absurd hl (by simp [OptimizerState.opened])
      files := fun name m hl => absurd hl (by simp [OptimizerState.opened])
      named := fun name m hl => absurd hl (by simp [OptimizerState.opened])
      blocks := fun p _ => ⟨fun e he => absurd he (by simp [OptimizerState.opened]),
        fun e he => absurd he (by simp [OptimizerState.opened]), fun _ => nofun, fun _ => rfl⟩
      knows := nofun }
  recording p _ := ⟨fun _ => rfl, nofun⟩

/-- What a second store that is opened on the directories finds is what was last flushed: what was
only stored was in the memory of the first. -/
theorem Refines.reopened (h : Refines N P s M) (clock : ℕ → OffsetDateTime)
    (faults : ℕ → Option SodlError) :
    Consistent N P (.opened s.registry s.blobs clock faults) M.flushed [] where
  keys key hkey := absurd hkey (AList.notMem_empty key)
  ids := h.consistent.ids
  files := h.consistent.files
  named := h.consistent.named
  blocks p hp := ⟨fun e he => absurd he (by simp [OptimizerState.opened]),
    fun e he => absurd he (by simp [OptimizerState.opened]), fun _ => (h.recording p hp).2,
    (h.recording p hp).1⟩
  knows := nofun

/-- The results of a store that flushed say that a block is flushed: the blocks it stored are
recorded, and results are made from the records. -/
theorem exists_flushed {s₀ : OptimizerState} {o : String} {blocks : List (BlockName × Bytes)}
    {results : List OptimizerStoreResult} (hc : Consistent N P s (storing V blocks) [])
    (hcur : Current N s₀ s x) (hN : Apart N) (ho : PlainOrigin o)
    (hblocks : ∀ e ∈ blocks, e.1 ∈ N) (hne : results ≠ [])
    (hkeys : results.map (fun r => cacheKey o r.blockId) = blocks.map fun e => e.1.key)
    (hclean : ∀ b, x.NotDirty (cacheKey o b)) (hresults : Results x o results) :
    ∃ r ∈ results, r.flushed = true := by
  obtain ⟨r, hr⟩ := List.exists_mem_of_ne_nil _ hne
  obtain ⟨m, hm, hall⟩ := hresults
  refine ⟨r, hr, ?_⟩
  have hmem : cacheKey o r.blockId ∈ blocks.map fun e => e.1.key := by
    rw [← hkeys]
    exact List.mem_map_of_mem hr
  obtain ⟨e, he, hkey⟩ := List.mem_map.mp hmem
  obtain ⟨h1, h2⟩ := cacheKey_injective (hN.plain _ (hblocks e he)) ho hkey
  obtain ⟨v, hv⟩ := exists_storing (V := V) he
  obtain ⟨record, hrec, -⟩ :=
    (hc.recorded_of_notDirty hcur (hblocks e he) (by rw [hkey]; exact hclean _)).2 v hv
  have hfound : m.blocks.lookup r.blockId = some record := by
    rw [hcur.reported hm, ← h1, ← h2]
    exact hrec
  rw [hall r hr, hfound]
  rfl

/-- The blocks that a call says it flushed were seen not to be dirty before it returned. -/
theorem OptimizerOp.Returns.notDirty (h : op.Returns x reply) (hp : op.Flushes p reply) :
    x.NotDirty p.key := by
  have hstore : ∀ {o blocks results}, StoreEnd .start x o blocks results → p.1 = o →
      (∃ r ∈ results, r.flushed = true) → x.NotDirty p.key := by
    rintro o blocks results hend rfl ⟨r, hr, hflushed⟩
    rcases hend.clean with ⟨-, hnone⟩ | ⟨-, hclean, -⟩
    · exact absurd ((hnone r hr).symm.trans hflushed) (by simp)
    · exact hclean p.2
  cases op with
  | storeBlock o input =>
    cases reply with
    | stored results => exact hstore h hp.1 hp.2
    | _ => exact absurd h id
  | storeBlocks o inputs =>
    cases reply with
    | stored results => exact hstore h hp.1 hp.2
    | _ => exact absurd h id
  | flushOrigin o =>
    cases reply with
    | manifest m =>
      obtain rfl : p.1 = o := hp
      exact FlushEnd.clean h p.2 trivial
    | _ => exact absurd h id
  | flushBlocks o ids =>
    cases reply with
    | manifest m =>
      obtain ⟨rfl, hb⟩ : p.1 = o ∧ p.2 ∈ ids := hp
      exact FlushEnd.clean h p.2 hb
    | _ => exact absurd h id
  | _ => exact absurd hp (by cases reply <;> exact id)

/-- A call flushes no blocks but those it says it flushed. -/
theorem OptimizerOp.Returns.flushes {s₀ : OptimizerState} (hN : Apart N) (hop : op.Named N)
    (hc : Consistent N P s (storing V op.stores) []) (hcur : Current N s₀ s x)
    (h : op.Returns x reply) (hp : p ∈ N) (hkey : p.key ∈ x.flushed) : op.Flushes p reply := by
  have horigin : ∀ {o b}, PlainOrigin o → p.key = cacheKey o b → p.1 = o ∧ p.2 = b :=
    fun ho hk => cacheKey_injective (hN.plain p hp) ho hk
  cases op with
  | storeBlock o input =>
    cases reply with
    | stored results =>
      have ho := hN.plain _ hop
      have hend : StoreEnd .start x o [stagedBlock o input] results := h
      obtain ⟨b, hb⟩ := (hend.flushed _ hkey).resolve_left (by simp [OptimizerTrail.start])
      refine ⟨(horigin ho hb).1, ?_⟩
      rcases hend.clean with ⟨hflushed, -⟩ | ⟨hne, hclean, hresults⟩
      · rw [hflushed] at hkey
        exact absurd hkey (by simp [OptimizerTrail.start])
      · exact exists_flushed hc hcur hN ho hop.stores hne hend.keys hclean hresults
    | _ => exact absurd h id
  | storeBlocks o inputs =>
    cases reply with
    | stored results =>
      have hend : StoreEnd .start x o (inputs.map (stagedBlock o)) results := h
      obtain ⟨b, hb⟩ := (hend.flushed _ hkey).resolve_left (by simp [OptimizerTrail.start])
      rcases hend.clean with ⟨hflushed, -⟩ | ⟨hne, hclean, hresults⟩
      · rw [hflushed] at hkey
        exact absurd hkey (by simp [OptimizerTrail.start])
      · have hkeys : results.map (fun r => cacheKey o r.blockId) =
            (OptimizerOp.storeBlocks o inputs).stores.map fun e => e.1.key := by
          rw [hend.keys, OptimizerOp.stores, List.map_map, List.map_map]
          rfl
        obtain ⟨input, hinput⟩ : ∃ input, input ∈ inputs := by
          refine List.exists_mem_of_ne_nil _ fun hnil => hne ?_
          rw [hnil] at hkeys
          exact List.map_eq_nil_iff.mp hkeys
        have ho := hN.plain _ (hop input hinput)
        exact ⟨(horigin ho hb).1, exists_flushed hc hcur hN ho
          (show (OptimizerOp.storeBlocks o inputs).Named N from hop).stores hne hkeys hclean
          hresults⟩
    | _ => exact absurd h id
  | flushOrigin o =>
    cases reply with
    | manifest m =>
      obtain ⟨b, hb, -⟩ := (FlushEnd.flushed h _ hkey).resolve_left (by simp [OptimizerTrail.start])
      exact (horigin hop hb).1
    | _ => exact absurd h id
  | flushBlocks o ids =>
    cases reply with
    | manifest m =>
      obtain ⟨b, hb, hmem⟩ :=
        (FlushEnd.flushed h _ hkey).resolve_left (by simp [OptimizerTrail.start])
      obtain ⟨h1, rfl⟩ := horigin hop hb
      exact ⟨h1, hmem⟩
    | _ => exact absurd h id
  | _ =>
    rw [Idle.flushed h.2] at hkey
    exact absurd hkey (by simp [OptimizerTrail.start])

/-- **One call.** After a call that returned, or a load that failed, the store refines the maps
after it. -/
theorem Refines.call (hcf : P.CollisionFree) (hzstd : P.ZstdRoundTrips) (hN : Apart N)
    (hop : op.Named N) (h : Refines N P s M)
    (hok : (op.run P store s).1.isOk = true ∨ ∃ o b, op = .loadBlock o b) :
    Refines N P (op.run P store s).2
      (M.after (.call op (op.run P store s).1 (op.trail P store s))) := by
  obtain ⟨⟨hc, hcur, -⟩, hfin⟩ := h.consistent.run store hcf hzstd hN hop
  have hsame : ∀ {y}, Current N s (op.run P store s).2 y → ∀ p ∈ N, p.key ∉ y.flushed →
      (M.flushed p = none → (op.run P store s).2.recorded p = none) ∧
        ∀ v, M.flushed p = some v →
          ∃ r, (op.run P store s).2.recorded p = some r ∧ P.Names r v := by
    intro y hy p hp hkey
    rw [hy.kept p hp hkey]
    exact h.recording p hp
  rcases hr : (op.run P store s).1 with reply | e | _
  · rw [hr] at hfin
    have hret : op.Returns (op.trail P store s) reply := hfin.1
    have hc' := (hc.finish hret.marks).congr_map (W := storing M.latest op.stores)
      fun p hp => by rw [hret.staged]; exact staging_eq_storing hN hop.stores hp
    refine ⟨hc', fun p hp => ?_⟩
    show ((if op.Flushes p reply then storing M.latest op.stores p else M.flushed p) = none → _) ∧
      ∀ v, (if op.Flushes p reply then storing M.latest op.stores p else M.flushed p) = some v → _
    by_cases hflushes : op.Flushes p reply
    · rw [if_pos hflushes]
      exact hc'.recorded_of_notDirty hcur hp (hret.notDirty hflushes)
    · rw [if_neg hflushes]
      exact hsame hcur p hp fun hkey => hflushes (hret.flushes hN hop hc' hcur hp hkey)
  · rw [hr] at hfin hok
    have hidle := hfin.2 (hok.resolve_left (by simp [Outcome.isOk]))
    have hstaged : (op.trail P store s).staged = [] := hidle.staged
    rw [hstaged] at hc
    exact ⟨hc.finish hidle.marks, fun p hp =>
      hsame hcur p hp (by rw [hidle.flushed]; simp [OptimizerTrail.start])⟩
  · rw [hr] at hfin hok
    have hidle := hfin.2 (hok.resolve_left (by simp [Outcome.isOk]))
    have hstaged : (op.trail P store s).staged = [] := hidle.staged
    rw [hstaged] at hc
    exact ⟨hc.finish hidle.marks, fun p hp =>
      hsame hcur p hp (by rw [hidle.flushed]; simp [OptimizerTrail.start])⟩

/-- **A whole run** of calls that returned, loads that failed and stores that were opened anew
refines the maps that its events give. -/
theorem Refines.run {a b : Session} (hcf : P.CollisionFree) (hzstd : P.ZstdRoundTrips)
    (hN : Apart N) (ha : Refines N P a.state .empty) (hrun : Run (Session.Step P) a H b)
    (hnamed : ∀ e ∈ H, e.Named N) (hok : ∀ e ∈ H, e.Ok) : Refines N P b.state (.replay H) := by
  induction hrun with
  | nil => exact ha
  | @snoc b c H e hrun hstep ih =>
    have hrest := ih (fun e' he' => hnamed e' (List.mem_append_left _ he'))
      fun e' he' => hok e' (List.mem_append_left _ he')
    have hn := hnamed e (by simp)
    have ho := hok e (by simp)
    have hreplay : OptimizerMap.replay (H ++ [e]) = (OptimizerMap.replay H).after e :=
      List.foldl_append ..
    rw [hreplay]
    cases hstep with
    | call store s op => exact hrest.call hcf hzstd hN hn ho
    | setCacheCapacity store s n => exact hrest
    | reopen store s level capacity threshold =>
      exact ⟨hrest.reopened s.clock s.faults, hrest.recording⟩

/-! ### What a caller can rely on -/

/-- A clean entry has the bytes of the blob that the manifest names, so that dropping it from the
cache loses nothing. -/
def OptimizerState.CleanRecorded (P : ArtifactPlatform) (s : OptimizerState) : Prop :=
  ∀ key e, s.cache.lookup key = some e → e.dirty = false → ∃ p : BlockName, key = p.key ∧
    ∃ r z, s.recorded p = some r ∧ s.blobs.lookup r.blobId = some z ∧ P.decodeAll z = .ok e.bytes

/-- Every blob that a manifest names exists: none of them is deleted as a blob that nothing refers
to. -/
def OptimizerState.BlobsExist (s : OptimizerState) : Prop :=
  ∀ name m, s.registry.lookup name = some m → ∀ b r, m.blocks.lookup b = some r →
    r.blobId ∈ s.blobs

/-- In a consistent store with no call under way, the clean entries of the cache are what the
manifests and blobs have. -/
theorem Consistent.cleanRecorded (hcf : P.CollisionFree) (hc : Consistent N P s V []) :
    s.CleanRecorded P := by
  intro key e he hd
  obtain ⟨p, hp, rfl⟩ := hc.keys key (Table.mem_iff_exists_lookup.mpr ⟨e, he⟩)
  obtain ⟨r, -, ⟨z, hz, hdec⟩, ⟨r', hr', hid⟩ | ⟨y, hy, -⟩⟩ := (hc.blocks p hp).clean e he hd
  · obtain ⟨m, hm, hl⟩ := Option.bind_eq_some_iff.mp hr'
    obtain ⟨z', hz'⟩ := Table.mem_iff_exists_lookup.mp (hc.named _ m hm _ _ hl)
    obtain rfl := computeBlobId_injective hcf ((hc.ids _ _ hz').trans (hid.trans hz.symm))
    exact ⟨p, rfl, r', z', hr', hz', hdec⟩
  · exact absurd hy (by simp)

/-- What is loaded, in the words of the map: a load in a state where nothing fails replies with the
payload of the block, or that there is none. -/
theorem Consistent.load_eq (hcf : P.CollisionFree) (hzstd : P.ZstdRoundTrips) (hN : Apart N)
    (hc : Consistent N P s V []) {o b : String} (hp : (o, b) ∈ N) :
    ((store.loadBlock P o b).run (OptimizerState.handle P) { s with faults := fun _ => none }).1 =
      loadResult (V (o, b)) :=
  (hc.congr (t := { s with faults := fun _ => none }) rfl rfl rfl).load store hcf hzstd hN
    (fun _ => rfl) hp

/-- A load of a run that returned found what was last stored before it, also where other loads of
the run failed. -/
theorem Refines.loaded {a b : Session} (hcf : P.CollisionFree) (hzstd : P.ZstdRoundTrips)
    (hN : Apart N) (ha : Refines N P a.state .empty) (hrun : Run (Session.Step P) a H b)
    (hnamed : ∀ e ∈ H, e.Named N) (hok : ∀ e ∈ H, e.Ok) {H₁ H₂ : List OptimizerEvent}
    {o c : String} {v : Bytes}
    (hH : H = H₁ ++ .call (.loadBlock o c) (.ok (.payload v)) x :: H₂) :
    (OptimizerMap.replay H₁).latest (o, c) = some v := by
  subst hH
  obtain ⟨t, ht, hrest⟩ := hrun.split
  obtain ⟨t', hstep, -⟩ := hrest.cons_inv
  have hmid := ha.run hcf hzstd hN ht (fun e he => hnamed e (List.mem_append_left _ he))
    fun e he => hok e (List.mem_append_left _ he)
  have hp : (o, c) ∈ N := hnamed (.call (.loadBlock o c) (.ok (.payload v)) x) (by simp)
  generalize he : OptimizerEvent.call (.loadBlock o c) (.ok (.payload v)) x = e at hstep
  cases hstep with
  | setCacheCapacity store s n => exact absurd he nofun
  | reopen store s level capacity threshold => exact absurd he nofun
  | call store s op =>
    obtain ⟨rfl, hr, -⟩ := OptimizerEvent.call.inj he
    exact hmid.consistent.loaded store hcf hzstd hN hp hr.symm

/-- **The optimizer-state store is a map.** Over blocks of plain origins that have a manifest
each, after any run of calls that returned:

* a load finds what was last stored, and the loads of the run did;
* the entries that are not dirty are what the manifests and the blobs have;
* the blobs that manifests name exist;
* a store opened on the same directories finds what was last flushed. -/
theorem optimizerStore_isMap (hcf : P.CollisionFree) (hzstd : P.ZstdRoundTrips) {O : Set String}
    (hplain : ∀ o ∈ O, PlainOrigin o)
    (hapart : ∀ o ∈ O, ∀ o' ∈ O, manifestName o = manifestName o' → o = o')
    {compressionLevel : ℤ} {cacheCapacity writebackThreshold : ℕ} {clock : ℕ → OffsetDateTime}
    {faults : ℕ → Option SodlError}
    (hrun : Run (Session.Step P)
      ⟨.open compressionLevel cacheCapacity writebackThreshold, .opened ∅ ∅ clock faults⟩ H
      ⟨store, s⟩)
    (hnamed : ∀ e ∈ H, e.Named {p | p.1 ∈ O}) (hok : ∀ e ∈ H, e.Ok) :
    (∀ o ∈ O, ∀ b, ((store.loadBlock P o b).run (OptimizerState.handle P)
      { s with faults := fun _ => none }).1 = loadResult ((OptimizerMap.replay H).latest (o, b))) ∧
    (∀ H₁ H₂ o b v y, H = H₁ ++ .call (.loadBlock o b) (.ok (.payload v)) y :: H₂ →
      (OptimizerMap.replay H₁).latest (o, b) = some v) ∧
    s.CleanRecorded P ∧
    s.BlobsExist ∧
    ∀ (second : OptimizerStateStore) (clock' : ℕ → OffsetDateTime), ∀ o ∈ O, ∀ b,
      ((second.loadBlock P o b).run (OptimizerState.handle P)
        (.opened s.registry s.blobs clock' fun _ => none)).1 =
        loadResult ((OptimizerMap.replay H).flushed (o, b)) := by
  have hN := Apart.of_origins hplain hapart
  have hstart := Refines.opened {p : BlockName | p.1 ∈ O} P clock faults
  have hend := hstart.run hcf hzstd hN hrun hnamed hok
  refine ⟨fun o ho b => hend.consistent.load_eq hcf hzstd hN ho, fun H₁ H₂ o b v y hH =>
    hstart.loaded hcf hzstd hN hrun hnamed hok hH, hend.consistent.cleanRecorded hcf,
    hend.consistent.named, fun second clock' o ho b => ?_⟩
  exact (hend.reopened clock' fun _ => none).load_eq hcf hzstd hN ho

/-- A block that is stored, and flushed at once as the threshold is one block. -/
def sampleStoring : OptimizerOp := .storeBlock "run" ⟨"m", [1, 2], 1, none, ⟨"null"⟩⟩

/-- A state on empty directories in which nothing fails. -/
def sampleOptimizerState : OptimizerState := .opened ∅ ∅ (fun _ => 0) fun _ => none

/-- The origin of the example is a plain one. -/
theorem plainOrigin_run : PlainOrigin "run" := ⟨by decide, by decide⟩

/-- The blocks of one origin are kept apart: they have one file, and their ids tell their keys
apart. -/
theorem apart_run : Apart {p : BlockName | p.1 ∈ ({"run"} : Set String)} := by
  refine Apart.of_origins ?_ ?_
  · rintro o rfl
    exact plainOrigin_run
  · rintro o rfl o' rfl -
    rfl

/-- The block that was stored and flushed is loaded by a second store on the same directories. -/
theorem optimizerStore_isMap_stored :
    (((OptimizerStateStore.open 3 4 1).loadBlock sampleArtifacts "run" "m").run
      (OptimizerState.handle sampleArtifacts)
      (.opened (sampleStoring.run sampleArtifacts (.open 3 4 1) sampleOptimizerState).2.registry
        (sampleStoring.run sampleArtifacts (.open 3 4 1) sampleOptimizerState).2.blobs
        (fun _ => 0) fun _ => none)).1 = .ok [1, 2] := by
  have hok : (sampleStoring.run sampleArtifacts (.open 3 4 1) sampleOptimizerState).1.isOk =
      true := by decide +kernel
  have hmap := optimizerStore_isMap (O := {"run"}) samplePlatform_collisionFree
    sampleArtifacts_zstdRoundTrips (by rintro o rfl; exact plainOrigin_run)
    (by rintro o rfl o' rfl -; rfl)
    (Run.single (Session.Step.call (.open 3 4 1) sampleOptimizerState sampleStoring))
    (fun e he => by obtain rfl := List.mem_singleton.mp he; exact rfl)
    (fun e he => by obtain rfl := List.mem_singleton.mp he; exact Or.inl hok)
  exact (hmap.2.2.2.2 (.open 3 4 1) (fun _ => 0) "run" rfl "m").trans (by decide +kernel)

end Sodl
