import Mathlib.Data.Nat.Sqrt
import Mathlib.Data.Rat.Encodable
import Mathlib.Logic.Equiv.List
import Sodl.Python.OffloadOptimizer

/-!
# Training with offloaded moments

Whatever a training run asks of `SODLAdamW` – steps with any settings and gradients, flushes of all
or some blocks, a resume in a new process over the same directories – and whatever else is asked
of its store in between, the parameters are those that the same update with its moments in memory
would have made, and an error that is raised is one that it would have raised
(`Sodl.offloaded_eq_plain`). This is so where nothing fails in the store, and where the payloads
can be compressed; the store then answers every call (`Sodl.Refines.answers`).

What relates the two optimizers (`Sodl.Offloaded`) says that what was last stored for a block, if
anything, unpickles to the moments of its parameters. The loop of a step over the blocks keeps to
the plain optimizer block after block, in both ways of talking to the store
(`Sodl.SODLAdamW.stepSingly_follows`, `Sodl.SODLAdamW.stepTogether_follows`).
-/

namespace Sodl

open Effect

/-! ### The store as the optimizer sees it -/

/-- What the store replies to a call of the optimizer, and what becomes of the store by it. -/
def Session.handle (P : ArtifactPlatform) : Handler facadeSig Session := fun op a =>
  ((op.run P a.store a.state).1, ⟨a.store, (op.run P a.store a.state).2⟩)

/-- Nothing fails in the store, and it holds the payloads of a map, whatever of them is flushed. -/
def Session.Holds (N : Set BlockName) (P : ArtifactPlatform) (V : BlockName → Option Bytes)
    (a : Session) : Prop :=
  a.state.Quiet ∧ ∃ flushed, Refines N P a.state ⟨V, flushed⟩

/-- What the results of this file assume of the environment, and of the blocks in use: hashes do not
collide, compression works and round trips, and the blocks are kept apart. -/
structure StoreAssumptions (N : Set BlockName) (P : ArtifactPlatform) : Prop where
  collisionFree : P.CollisionFree
  zstdRoundTrips : P.ZstdRoundTrips
  compresses : P.Compresses
  apart : Apart N

variable {N : Set BlockName} {P : ArtifactPlatform} {V : BlockName → Option Bytes} {a : Session}

/-- A call on a store that holds the payloads of a map is answered as the map would, and leaves a
store that holds those after it. -/
theorem Session.Holds.call (hA : StoreAssumptions N P) (h : a.Holds N P V) (op : OptimizerOp)
    (hop : op.Named N) :
    op.Answers V (Session.handle P op a).1 ∧
      (Session.handle P op a).2.Holds N P (storing V op.stores) := by
  obtain ⟨hq, flushed, hr⟩ := h
  have hans : op.Answers V (op.run P a.store a.state).1 :=
    hr.answers hA.collisionFree hA.zstdRoundTrips hA.compresses hA.apart hop hq
  have hcall : Refines N P (op.run P a.store a.state).2 _ :=
    hr.call hA.collisionFree hA.zstdRoundTrips hA.apart hop hans.ok
  refine ⟨hans, hq.after _, ?_⟩
  rcases hrun : (op.run P a.store a.state).1 with reply | e | _
  · rw [hrun] at hcall
    exact ⟨_, hcall⟩
  all_goals
    -- only the load of one block may fail
    rw [hrun] at hcall hans
    obtain ⟨o, b, rfl⟩ := hans.ok.resolve_left (by simp [Outcome.isOk])
    exact ⟨flushed, hcall⟩

/-- What was last stored of an origin is flushed. -/
theorem Session.Holds.flushOrigin (hA : StoreAssumptions N P) (h : a.Holds N P V) {o : String}
    (ho : PlainOrigin o) :
    ∃ flushed, Refines N P (Session.handle P (.flushOrigin o) a).2.state ⟨V, flushed⟩ ∧
      ∀ b, flushed (o, b) = V (o, b) := by
  obtain ⟨hq, flushed, hr⟩ := h
  have hop : (OptimizerOp.flushOrigin o).Named N := ho
  have hans : (OptimizerOp.flushOrigin o).Answers V
      ((OptimizerOp.flushOrigin o).run P a.store a.state).1 :=
    hr.answers hA.collisionFree hA.zstdRoundTrips hA.compresses hA.apart hop hq
  have hcall : Refines N P ((OptimizerOp.flushOrigin o).run P a.store a.state).2 _ :=
    hr.call hA.collisionFree hA.zstdRoundTrips hA.apart hop hans.ok
  rcases hrun : ((OptimizerOp.flushOrigin o).run P a.store a.state).1 with reply | e | _
  · rw [hrun] at hcall
    refine ⟨_, hcall, fun b => if_pos ?_⟩
    exact rfl
  · rw [hrun] at hans
    exact absurd hans Bool.false_ne_true
  · rw [hrun] at hans
    exact absurd hans Bool.false_ne_true

/-- What was not stored again is as it was before the call. -/
theorem storing_of_notMem {blocks : List (BlockName × Bytes)} {p : BlockName}
    (h : p ∉ blocks.map Prod.fst) : storing V blocks p = V p := by
  induction blocks generalizing V with
  | nil => rfl
  | cons e rest ih =>
    rw [List.map_cons, List.mem_cons, not_or] at h
    exact (ih h.2).trans (Function.update_of_ne h.1 ..)

/-- Of blocks with distinct names each has its payload. -/
theorem storing_of_mem {blocks : List (BlockName × Bytes)} {p : BlockName} {v : Bytes}
    (hnodup : (blocks.map Prod.fst).Nodup) (h : (p, v) ∈ blocks) :
    storing V blocks p = some v := by
  induction blocks generalizing V with
  | nil => exact absurd h List.not_mem_nil
  | cons e rest ih =>
    rw [List.map_cons, List.nodup_cons] at hnodup
    rcases List.mem_cons.mp h with rfl | h
    · exact (storing_of_notMem hnodup.1).trans (Function.update_self ..)
    · exact ih hnodup.2 h

/-! ### Calls that keep what is stored -/

/-- A program that returns, and leaves what the store holds. -/
abbrev Leaves {α : Type} (N : Set BlockName) (P : ArtifactPlatform)
    (V : BlockName → Option Bytes) (p : AdamWProg α) : Prop :=
  Prog.Triple (Session.handle P) (Session.Holds N P V) p (fun _ => Session.Holds N P V)
    fun _ => False

/-- A call of the optimizer that the store replies to returns the reply. -/
theorem run_ask {op : OptimizerOp} {reply : OptimizerReply}
    (h : (Session.handle P op a).1 = .ok reply) :
    (SODLAdamW.ask op).run (Session.handle P) a = (.ok reply, (Session.handle P op a).2) := by
  rw [SODLAdamW.ask, Prog.run_mapErr, Prog.run_perform, h]
  rfl

/-- Every call but a load of one block is replied to. -/
theorem OptimizerOp.Answers.reply {op : OptimizerOp} {outcome : Outcome SodlError OptimizerReply}
    (h : op.Answers V outcome) (hload : ∀ o b, op ≠ .loadBlock o b) :
    ∃ reply, outcome = .ok reply := by
  have hok : outcome.isOk = true := h.ok.resolve_right fun ⟨o, b, hob⟩ => hload o b hob
  cases outcome with
  | ok reply => exact ⟨reply, rfl⟩
  | err e => exact absurd hok Bool.false_ne_true
  | panic => exact absurd hok Bool.false_ne_true

/-- A call whose reply is not looked at returns, and the store holds what the call has stored. -/
theorem run_tell (hA : StoreAssumptions N P) (h : a.Holds N P V) (op : OptimizerOp)
    (hop : op.Named N) (hload : ∀ o b, op ≠ .loadBlock o b) :
    (SODLAdamW.tell op).run (Session.handle P) a = (.ok (), (Session.handle P op a).2) ∧
      (Session.handle P op a).2.Holds N P (storing V op.stores) := by
  obtain ⟨hans, hholds⟩ := h.call hA op hop
  obtain ⟨reply, hreply⟩ := hans.reply hload
  exact ⟨Prog.run_bind_ok (run_ask hreply), hholds⟩

/-- A call that stores nothing leaves what the store holds. -/
theorem leaves_tell (hA : StoreAssumptions N P) {op : OptimizerOp} (hop : op.Named N)
    (hload : ∀ o b, op ≠ .loadBlock o b) (hstores : op.stores = []) :
    Leaves N P V (SODLAdamW.tell op) := by
  refine Prog.Triple.of_returns fun a h => ?_
  obtain ⟨hrun, hholds⟩ := run_tell hA h op hop hload
  rw [hstores] at hholds
  exact ⟨(), _, hrun, hholds⟩

/-- A call that stores nothing, and is left out if it names no block, leaves what the store
holds. -/
theorem leaves_unlessEmpty (hA : StoreAssumptions N P) {op : List String → OptimizerOp}
    (ids : List String) (hop : (op ids).Named N) (hload : ∀ o b, op ids ≠ .loadBlock o b)
    (hstores : (op ids).stores = []) : Leaves N P V (SODLAdamW.unlessEmpty ids op) := by
  rw [SODLAdamW.unlessEmpty]
  split
  · exact Prog.Triple.pure fun _ h => h
  · exact leaves_tell hA hop hload hstores

section Optimizer

variable {T : Torch} {F : T.Formats} {o : SODLAdamW} {i : StepInput T}

/-- Moving the window of pinned blocks leaves what the store holds. -/
theorem leaves_updatePinWindow (hA : StoreAssumptions N P) (u : AdamWState T)
    (ids : List String) : Leaves N P V (o.updatePinWindow u ids) := by
  refine Prog.Triple.bind (leaves_unlessEmpty hA _ trivial (by rintro _ _ ⟨⟩) rfl) fun _ => ?_
  refine Prog.Triple.bind (leaves_unlessEmpty hA _ trivial (by rintro _ _ ⟨⟩) rfl) fun _ => ?_
  exact Prog.Triple.pure fun _ h => h

/-- Unpinning the blocks of the step before leaves what the store holds. -/
theorem leaves_collectStale (hA : StoreAssumptions N P) (u : AdamWState T)
    (touched : Finset String) : Leaves N P V (o.collectStale u touched) := by
  rw [SODLAdamW.collectStale]
  dsimp only
  split
  · exact Prog.Triple.pure fun _ h => h
  · refine Prog.Triple.of_returns fun a h => ?_
    obtain ⟨hans, hholds⟩ := h.call hA (.unpinBlocks o.originId
      (SODLAdamW.sorted (u.previousStepBlocks \ touched))) trivial
    obtain ⟨reply, hreply⟩ := hans.reply (by rintro _ _ ⟨⟩)
    refine ⟨u.gcBlocksCleaned + (u.previousStepBlocks \ touched).card, _, ?_, hholds⟩
    rw [Prog.run_call, hreply]
    rfl

/-- A step that fits into 64 bits passes its check, and leaves what the store holds. -/
theorem leaves_checkStep {n : ℕ} (hn : n < 2 ^ 64) : Leaves N P V (SODLAdamW.checkStep n) := by
  rw [SODLAdamW.checkStep, if_pos hn]
  exact Prog.Triple.pure fun _ h => h

/-! ### What is loaded -/

/-- Loading the state of a block gives what the payload of the map unpickles to, or a state without
moments where there is none. -/
theorem run_loadBlockState (hA : StoreAssumptions N P) (h : a.Holds N P V) {n : ℕ} {b : String}
    (hp : (o.originId, b) ∈ N) :
    ∃ a', (o.loadBlockState F n b).run (Session.handle P) a =
        (SODLAdamW.stateOf F n (V (o.originId, b)), a') ∧ a'.Holds N P V := by
  obtain ⟨hans, hholds⟩ := h.call hA (.loadBlock o.originId b) hp
  refine ⟨_, ?_, hholds⟩
  have hrun : (Session.handle P (.loadBlock o.originId b) a).1 =
      payloadResult (V (o.originId, b)) := hans
  rw [SODLAdamW.loadBlockState, Prog.run_call, hrun]
  rcases V (o.originId, b) with _ | v
  · rfl
  · rfl

/-- Where each payload unpickles, or is not there, the states of all blocks are made. -/
theorem statesOf_ok {n : ℕ} {payloads : Table String Bytes} {ids : List String}
    (h : ∀ b ∈ ids, ∃ st, SODLAdamW.stateOf F n (payloads.lookup b) = .ok st) :
    ∃ states, SODLAdamW.statesOf F n payloads ids = .ok states ∧
      ∀ b ∈ ids, ∃ st, SODLAdamW.stateOf F n (payloads.lookup b) = .ok st ∧
        states.lookup b = some st := by
  induction ids with
  | nil => exact ⟨∅, rfl, List.forall_mem_nil _⟩
  | cons b rest ih =>
    obtain ⟨states, hstates, hall⟩ := ih fun c hc => h c (List.mem_cons_of_mem _ hc)
    obtain ⟨st, hst⟩ := h b (List.mem_cons_self ..)
    refine ⟨states.insert b st, ?_, fun c hc => ?_⟩
    · rw [SODLAdamW.statesOf, hst, Outcome.ok_bind, hstates]
      rfl
    · by_cases hcb : c = b
      · subst hcb
        exact ⟨st, hst, Table.lookup_insert_self ..⟩
      · obtain ⟨st', hst', hl⟩ := hall c ((List.mem_cons.mp hc).resolve_left hcb)
        exact ⟨st', hst', (Table.lookup_insert_ne hcb).trans hl⟩

/-- Loading the states of many blocks gives what the payloads of the map unpickle to. -/
theorem run_loadBlockStates (hA : StoreAssumptions N P) (h : a.Holds N P V) {n : ℕ}
    {ids : List String} (hp : ∀ b ∈ ids, (o.originId, b) ∈ N)
    (hok : ∀ b ∈ ids, ∃ st, SODLAdamW.stateOf F n (V (o.originId, b)) = .ok st) :
    ∃ states a', (o.loadBlockStates F n ids).run (Session.handle P) a = (.ok states, a') ∧
      a'.Holds N P V ∧ ∀ b ∈ ids, ∃ st, SODLAdamW.stateOf F n (V (o.originId, b)) = .ok st ∧
        states.lookup b = some st := by
  obtain ⟨hans, hholds⟩ := h.call hA (.loadBlocks o.originId ids) hp
  obtain ⟨t, ht, hl⟩ := hans
  have hsame : ∀ b ∈ ids, t.lookup b = V (o.originId, b) := fun b hb => by rw [hl b, if_pos hb]
  have hall' : ∀ b ∈ ids, ∃ st, SODLAdamW.stateOf F n (t.lookup b) = .ok st :=
    fun b hb => by rw [hsame b hb]; exact hok b hb
  obtain ⟨states, hstates, hall⟩ := statesOf_ok hall'
  refine ⟨states, _, ?_, hholds, fun b hb => hsame b hb ▸ hall b hb⟩
  rw [SODLAdamW.loadBlockStates, Prog.run_bind_ok (run_ask ht)]
  show (SODLAdamW.statesOf F n t ids, _) = _
  rw [hstates]

/-! ### The two optimizers -/

variable {refs : List ParameterRef} {params : Params T} {m m' : PlainState T}

/-- **What is stored for a block**, if anything, unpickles to the moments of its parameters. -/
def Stored (F : T.Formats) (o : SODLAdamW) (V : BlockName → Option Bytes) (m : PlainState T)
    (block : OffloadBlock) : Prop :=
  ∃ table, Matches block.refs table m ∧
    ∀ n, ∃ k, SODLAdamW.stateOf F n (V (o.originId, block.id)) = .ok ⟨k, table⟩

/-- **The offloaded optimizer is where the plain one is**: it has the same parameters, and what is
stored for each block unpickles to the moments that the plain one has in memory. -/
structure Offloaded (N : Set BlockName) (P : ArtifactPlatform) (F : T.Formats) (o : SODLAdamW)
    (params : Params T) (a : Session) (m : PlainState T) : Prop where
  params : params = m.params
  placed : m.Placed
  stored : ∃ V, a.Holds N P V ∧ ∀ block ∈ o.blocks, Stored F o V m block

/-- Blocks that share a place are one. -/
theorem Laid.block_unique (hl : SODLAdamW.Laid refs o.blocks) {b b' : OffloadBlock}
    (hb : b ∈ o.blocks) (hb' : b' ∈ o.blocks) {ref ref' : ParameterRef} (href : ref ∈ b.refs)
    (href' : ref' ∈ b'.refs) (hplace : ref.place = ref'.place) : b = b' := by
  have hnodup := hl.places
  rw [← hl.flatten] at hnodup
  have hmem : ∀ {c r}, c ∈ o.blocks → r ∈ c.refs → r ∈ o.blocks.flatMap (·.refs) :=
    fun hc hr => List.mem_flatMap.mpr ⟨_, hc, hr⟩
  obtain rfl := List.inj_on_of_nodup_map hnodup (hmem hb href) (hmem hb' href') hplace
  by_contra hne
  have hdisjoint := (List.nodup_flatMap.mp hnodup.of_map).2
  have : Std.Symm (Function.onFun List.Disjoint OffloadBlock.refs) := ⟨fun _ _ h => h.symm⟩
  exact hdisjoint.forall hb hb' hne href href'

/-- The references of a block are at distinct places. -/
theorem Laid.places_block (hl : SODLAdamW.Laid refs o.blocks) {b : OffloadBlock}
    (hb : b ∈ o.blocks) : (b.refs.map (·.place)).Nodup := by
  have hnodup := hl.places
  rw [← hl.flatten, List.map_flatMap] at hnodup
  exact (List.nodup_flatMap.mp hnodup).1 b hb

/-- What is stored for a block is not touched by what the plain optimizer does elsewhere. -/
theorem Stored.congr {V' : BlockName → Option Bytes} {block : OffloadBlock}
    (h : Stored F o V m block) (hV : V' (o.originId, block.id) = V (o.originId, block.id))
    (hm : ∀ ref ∈ block.refs, m'.moments ref.place = m.moments ref.place) :
    Stored F o V' m' block := by
  obtain ⟨table, hmatches, hstate⟩ := h
  refine ⟨table, hmatches.congr hm, fun n => ?_⟩
  rw [hV]
  exact hstate n

/-- What was just stored for a block unpickles to the moments it was made of. -/
theorem Stored.of_payload (hF : F.RoundTrips) {block : OffloadBlock} {k : ℕ}
    {table : Table String (Moments T)} (hm : Matches block.refs table m)
    (hV : V (o.originId, block.id) = some (F.serializeState ⟨k, table⟩)) :
    Stored F o V m block := by
  refine ⟨table, hm, fun n => ⟨k, ?_⟩⟩
  rw [hV, SODLAdamW.stateOf, hF ⟨k, table⟩ hm.onCpu]

/-- The update of a block that was loaded is that of the plain optimizer. -/
theorem updateBlock_related (hT : T.Lawful) (hl : SODLAdamW.Laid refs o.blocks)
    {block : OffloadBlock} (hb : block ∈ o.blocks) {table : Table String (Moments T)} (k : ℕ)
    (hm : Matches block.refs table m) (hplaced : m.Placed) :
    (SODLAdamW.updateBlock i block m.params ⟨k, table⟩).Related
      (fun r m' => r.2.step = i.n ∧ Updated block.refs r.1 r.2.params m' ∧
        ∀ place ∉ block.refs.map (·.place), m'.moments place = m.moments place)
      (plainRefs i block.refs m) := by
  have hrelated := SODLAdamW.updateRefs_related (i := i) hT (fun _ h => h)
    (hl.names block hb) (Laid.places_block hl hb) (hl.groups block hb) hm hplaced
  exact hrelated.bind_left fun r m' hr => .ok ⟨rfl, hr⟩

/-- **The loop over the blocks, one after the other**, follows the plain optimizer over their
references, with a load and a store for each block. -/
theorem SODLAdamW.stepSingly_follows (hA : StoreAssumptions N P) (hT : T.Lawful)
    (hF : F.RoundTrips) (hl : SODLAdamW.Laid refs o.blocks)
    (hnamed : ∀ b, (o.originId, b) ∈ N) (hn : i.n < 2 ^ 64) {active : List OffloadBlock}
    (hsub : ∀ block ∈ active, block ∈ o.blocks) (h : Offloaded N P F o m.params a m) :
    Prog.Follows (Session.handle P) a (o.stepSingly F i active m.params)
      (plainRefs i (active.flatMap (·.refs)) m) (Offloaded N P F o) := by
  induction active generalizing a m with
  | nil => exact Prog.Follows.pure h
  | cons block rest ih =>
    have hb := hsub block (List.mem_cons_self ..)
    obtain ⟨V, hholds, hstored⟩ := h.stored
    obtain ⟨table, hm, hstate⟩ := hstored block hb
    obtain ⟨k, hk⟩ := hstate i.n
    obtain ⟨a₁, hload, hholds₁⟩ :=
      run_loadBlockState (F := F) (o := o) hA hholds (n := i.n) (hnamed block.id)
    rw [hk] at hload
    rw [List.flatMap_cons, plainRefs_append]
    refine Prog.Follows.step hload ?_
    refine Prog.Follows.bind (Prog.Follows.lift (R := fun r s m' => s = a₁ ∧ r.2.step = i.n ∧
      Updated block.refs r.1 r.2.params m' ∧
        ∀ place ∉ block.refs.map (·.place), m'.moments place = m.moments place)
      ((updateBlock_related hT hl hb k hm h.placed).mono fun r m' hr => ⟨rfl, hr⟩)) ?_
    rintro ⟨params', n', table'⟩ a' m' ⟨rfl, rfl, hupdated, helse⟩
    obtain ⟨_, a₂, hcheck, hholds₂⟩ := (leaves_checkStep (P := P) hn).returns hholds₁
    refine Prog.Follows.step hcheck ?_
    obtain ⟨htell, hholds₃⟩ := run_tell hA hholds₂ (.storeBlock o.originId
      (o.inputOf F block ⟨i.n, table'⟩)) (hnamed _) (by rintro _ _ ⟨⟩)
    refine Prog.Follows.step htell ?_
    obtain rfl : params' = m'.params := hupdated.params
    refine ih (fun c hc => hsub c (List.mem_cons_of_mem _ hc)) ⟨rfl, hupdated.placed, _, hholds₃,
      fun c hc => ?_⟩
    by_cases hcb : c = block
    · subst hcb
      exact Stored.of_payload hF hupdated.stored (Function.update_self ..)
    · refine (hstored c hc).congr (Function.update_of_ne ?_ ..) fun ref href => helse _ ?_
      · exact fun hid => hcb (List.inj_on_of_nodup_map hl.ids hc hb (Prod.mk.inj hid).2)
      · intro hmem
        obtain ⟨ref', href', hplace⟩ := List.mem_map.mp hmem
        exact hcb (Laid.block_unique hl hc hb href href' hplace.symm)

/-- What the loop over all blocks collects: for each one what is stored for it. -/
structure Collected (F : T.Formats) (i : StepInput T) (active : List OffloadBlock)
    (inputs : List OptimizerBlockInput) (m : PlainState T) : Prop where
  ids : inputs.map (·.blockId) = active.map (·.id)
  payloads : ∀ block ∈ active, ∃ input ∈ inputs, input.blockId = block.id ∧
    ∃ table, Matches block.refs table m ∧ input.payload = F.serializeState ⟨i.n, table⟩

/-- The loop over all blocks, on states that were loaded before. -/
theorem updateBlocks_related (hT : T.Lawful) (hl : SODLAdamW.Laid refs o.blocks)
    {loaded : Table String (BlockState T)} {active : List OffloadBlock}
    (hsub : ∀ block ∈ active, block ∈ o.blocks) (hnodup : active.Nodup)
    (hloaded : ∀ block ∈ active, ∃ k table, loaded.lookup block.id = some ⟨k, table⟩ ∧
      Matches block.refs table m) (hplaced : m.Placed) :
    (SODLAdamW.updateBlocks F o i loaded active m.params).Related
      (fun r m' => (r.1 = m'.params ∧ m'.Placed ∧ Collected F i active r.2 m') ∧
        ∀ place ∉ (active.flatMap (·.refs)).map (·.place), m'.moments place = m.moments place)
      (plainRefs i (active.flatMap (·.refs)) m) := by
  induction active generalizing m with
  | nil => exact .ok ⟨⟨rfl, hplaced, rfl, List.forall_mem_nil _⟩, fun _ _ => rfl⟩
  | cons block rest ih =>
    have hb := hsub block (List.mem_cons_self ..)
    rw [List.nodup_cons] at hnodup
    obtain ⟨k, table, hlookup, hm⟩ := hloaded block (List.mem_cons_self ..)
    rw [List.flatMap_cons, plainRefs_append, SODLAdamW.updateBlocks, hlookup, Option.getD_some]
    refine (updateBlock_related hT hl hb k hm hplaced).bind ?_
    rintro ⟨params', n', table'⟩ m₁ ⟨rfl, hupdated, helse⟩
    obtain rfl : params' = m₁.params := hupdated.params
    have hapart : ∀ c ∈ rest, ∀ ref ∈ c.refs, ref.place ∉ block.refs.map (·.place) := by
      intro c hc ref href hmem
      obtain ⟨ref', href', hplace⟩ := List.mem_map.mp hmem
      have hsame := Laid.block_unique hl (hsub c (List.mem_cons_of_mem _ hc)) hb href href'
        hplace.symm
      exact hnodup.1 (hsame ▸ hc)
    have hrest := ih (m := m₁) (fun c hc => hsub c (List.mem_cons_of_mem _ hc)) hnodup.2
      (fun c hc => ?_) hupdated.placed
    · refine hrest.bind_left ?_
      rintro ⟨params'', inputs⟩ m₂ ⟨⟨rfl, hplaced₂, hcollected⟩, helse₂⟩
      refine .ok ⟨⟨rfl, hplaced₂, ?_, ?_⟩, fun place hplace => ?_⟩
      · rw [List.map_cons, List.map_cons, hcollected.ids]
        rfl
      · intro c hc
        rcases List.mem_cons.mp hc with rfl | hc
        · refine ⟨_, List.mem_cons_self .., rfl, table', hupdated.stored.congr ?_, rfl⟩
          intro ref href
          refine helse₂ _ fun hmem => ?_
          obtain ⟨ref', href', hplace⟩ := List.mem_map.mp hmem
          obtain ⟨c', hc', href'⟩ := List.mem_flatMap.mp href'
          exact hapart c' hc' ref' href' (List.mem_map.mpr ⟨ref, href, hplace.symm⟩)
        · obtain ⟨input, hinput, hrest⟩ := hcollected.payloads c hc
          exact ⟨input, List.mem_cons_of_mem _ hinput, hrest⟩
      · rw [List.map_append, List.mem_append, not_or] at hplace
        rw [helse₂ place hplace.2, helse place hplace.1]
    · obtain ⟨k', table'', hl', hm'⟩ := hloaded c (List.mem_cons_of_mem _ hc)
      exact ⟨k', table'', hl', hm'.congr fun ref href => helse _ (hapart c hc ref href)⟩

/-- What was collected is stored. -/
theorem run_storeBlockStates (hA : StoreAssumptions N P) (hnamed : ∀ b, (o.originId, b) ∈ N)
    (hn : i.n < 2 ^ 64) (h : a.Holds N P V) (inputs : List OptimizerBlockInput) :
    ∃ a', (o.storeBlockStates i.n inputs).run (Session.handle P) a = (.ok (), a') ∧
      a'.Holds N P (storing V (inputs.map fun input => ((o.originId, input.blockId),
        input.payload))) := by
  rw [SODLAdamW.storeBlockStates]
  rcases inputs with _ | ⟨input, rest⟩
  · exact ⟨a, rfl, h⟩
  · obtain ⟨_, a₁, hcheck, h₁⟩ := (leaves_checkStep (P := P) hn).returns h
    obtain ⟨htell, h₂⟩ := run_tell hA h₁ (.storeBlocks o.originId (input :: rest))
      (fun _ _ => hnamed _) (by rintro _ _ ⟨⟩)
    refine ⟨_, ?_, h₂⟩
    show (SODLAdamW.checkStep i.n >>= fun _ => SODLAdamW.tell _).run (Session.handle P) a = _
    rw [Prog.run_bind_ok hcheck]
    exact htell

/-- **The step that talks to the store for all blocks at once** follows the plain optimizer over
their references: it loads all states before the first update, and stores all after the last. -/
theorem SODLAdamW.stepTogether_follows (hA : StoreAssumptions N P) (hT : T.Lawful)
    (hF : F.RoundTrips) (hl : SODLAdamW.Laid refs o.blocks)
    (hnamed : ∀ b, (o.originId, b) ∈ N) (hn : i.n < 2 ^ 64) {active : List OffloadBlock}
    (hsub : ∀ block ∈ active, block ∈ o.blocks) (hnodup : active.Nodup)
    (h : Offloaded N P F o m.params a m) :
    Prog.Follows (Session.handle P) a (o.stepTogether F i active m.params)
      (plainRefs i (active.flatMap (·.refs)) m) (Offloaded N P F o) := by
  obtain ⟨V, hholds, hstored⟩ := h.stored
  have hstate : ∀ block ∈ active, ∃ st,
      SODLAdamW.stateOf F i.n (V (o.originId, block.id)) = .ok st ∧ Matches block.refs st.params m
      := by
    intro block hblock
    obtain ⟨table, hm, hall⟩ := hstored block (hsub block hblock)
    obtain ⟨k, hk⟩ := hall i.n
    exact ⟨⟨k, table⟩, hk, hm⟩
  have hok : ∀ b ∈ active.map (·.id), ∃ st,
      SODLAdamW.stateOf F i.n (V (o.originId, b)) = .ok st := by
    intro b hb
    obtain ⟨block, hblock, rfl⟩ := List.mem_map.mp hb
    obtain ⟨st, hst, -⟩ := hstate block hblock
    exact ⟨st, hst⟩
  obtain ⟨states, a₁, hload, hholds₁, hstates⟩ :=
    run_loadBlockStates hA hholds (fun _ _ => hnamed _) hok
  have hloaded : ∀ block ∈ active, ∃ k table, states.lookup block.id = some ⟨k, table⟩ ∧
      Matches block.refs table m := by
    intro block hblock
    obtain ⟨st, hst, hmatches⟩ := hstate block hblock
    obtain ⟨st', hst', hlookup⟩ := hstates block.id (List.mem_map_of_mem hblock)
    obtain rfl := Outcome.ok.inj (hst.symm.trans hst')
    exact ⟨st.step, st.params, hlookup, hmatches⟩
  refine Prog.Follows.step hload ?_
  refine Prog.Follows.bind_left (Prog.Follows.lift (R := fun r s m' => s = a₁ ∧
    (r.1 = m'.params ∧ m'.Placed ∧ Collected F i active r.2 m') ∧
      ∀ place ∉ (active.flatMap (·.refs)).map (·.place), m'.moments place = m.moments place)
    ((updateBlocks_related hT hl hsub hnodup hloaded h.placed).mono fun r m' hr => ⟨rfl, hr⟩)) ?_
  rintro ⟨params', inputs⟩ a' m' ⟨rfl, ⟨rfl, hplaced, hcollected⟩, helse⟩
  obtain ⟨a₂, hstore, hholds₂⟩ := run_storeBlockStates hA hnamed hn hholds₁ inputs
  refine Prog.Follows.step hstore (Prog.Follows.pure ⟨rfl, hplaced, _, hholds₂, fun c hc => ?_⟩)
  have hnames : (inputs.map fun input => (((o.originId, input.blockId) : BlockName),
      input.payload)).map Prod.fst = (active.map (·.id)).map fun b => (o.originId, b) := by
    rw [← hcollected.ids, List.map_map, List.map_map]
    rfl
  have hidnodup : (active.map (·.id)).Nodup :=
    hnodup.map_on fun c hc c' hc' hid =>
      List.inj_on_of_nodup_map hl.ids (hsub c hc) (hsub c' hc') hid
  by_cases hca : c ∈ active
  · obtain ⟨input, hinput, hid, table, hm, hpayload⟩ := hcollected.payloads c hca
    refine Stored.of_payload (k := i.n) hF hm (storing_of_mem ?_ ?_)
    · rw [hnames]
      exact hidnodup.map fun b b' hb => (Prod.mk.inj hb).2
    · rw [← hid, ← hpayload]
      exact List.mem_map.mpr ⟨input, hinput, rfl⟩
  · refine (hstored c hc).congr (storing_of_notMem ?_) fun ref href => helse _ ?_
    · rw [hnames]
      intro hmem
      obtain ⟨b, hb, hbc⟩ := List.mem_map.mp hmem
      obtain ⟨c', hc', rfl⟩ := List.mem_map.mp hb
      have hsame := List.inj_on_of_nodup_map hl.ids (hsub c' hc') hc (Prod.mk.inj hbc).2
      exact hca (hsame ▸ hc')
    · intro hmem
      obtain ⟨ref', href', hplace⟩ := List.mem_map.mp hmem
      obtain ⟨c', hc', href'⟩ := List.mem_flatMap.mp href'
      exact hca (Laid.block_unique hl hc (hsub c' hc') href href' hplace.symm ▸ hc')

/-! ### A step -/

/-- What the plain optimizer keeps: the parameters with their moments, and the count of its
steps. -/
structure PlainAdamW (T : Torch) where
  stepIndex : ℕ
  state : PlainState T

/-- A step of the plain optimizer, over all references in their order. -/
def PlainAdamW.step (refs : List ParameterRef) (groups : ℕ → ParamGroup T) (grads : Gradients T)
    (q : PlainAdamW T) : Outcome AdamWError (PlainAdamW T) := do
  let m ← plainRefs ⟨groups, q.stepIndex + 1, grads⟩ refs q.state
  pure ⟨q.stepIndex + 1, m⟩

/-- **The two optimizers agree**: on the parameters, on the moments, and on the count of steps. -/
structure Agree (N : Set BlockName) (P : ArtifactPlatform) (F : T.Formats) (o : SODLAdamW)
    (u : AdamWState T) (a : Session) (q : PlainAdamW T) : Prop where
  offloaded : Offloaded N P F o u.params a q.state
  stepIndex : u.stepIndex = q.stepIndex

/-- The blocks that are not active have no gradients, so that going through the active ones is going
through all. -/
theorem plainRefs_activeBlocks (hl : SODLAdamW.Laid refs o.blocks) :
    plainRefs i ((o.activeBlocks i.grads).flatMap (·.refs)) m = plainRefs i refs m := by
  rw [← hl.flatten, SODLAdamW.activeBlocks]
  generalize o.blocks = blocks
  induction blocks generalizing m with
  | nil => rfl
  | cons block rest ih =>
    rw [List.flatMap_cons, plainRefs_append]
    by_cases hactive : (block.refs.any fun ref => (i.grads ref.place).isSome) = true
    · rw [List.filter_cons, if_pos hactive, List.flatMap_cons, plainRefs_append]
      rcases plainRefs i block.refs m with m' | e | _
      · exact ih
      · rfl
      · rfl
    · have hnone : plainRefs i block.refs m = .ok m := by
        refine plainRefs_of_none (fun ref href => ?_) m
        rw [Bool.not_eq_true, List.any_eq_false] at hactive
        exact Option.not_isSome_iff_eq_none.mp (hactive ref href)
      rw [List.filter_cons, if_neg hactive, hnone, Outcome.ok_bind, ih]

/-- A step that leaves the parameters does not matter to what is stored. -/
theorem Offloaded.left {α : Type} {p : AdamWProg α} (h : Offloaded N P F o params a m)
    (hp : ∀ V, Leaves N P V p) :
    ∃ r a', p.run (Session.handle P) a = (.ok r, a') ∧ Offloaded N P F o params a' m := by
  obtain ⟨V, hholds, hstored⟩ := h.stored
  obtain ⟨r, a', hrun, hholds'⟩ := (hp V).returns hholds
  exact ⟨r, a', hrun, h.params, h.placed, V, hholds', hstored⟩

/-- **A step of the offloaded optimizer is a step of the plain one.** -/
theorem SODLAdamW.step_follows (hA : StoreAssumptions N P) (hT : T.Lawful) (hF : F.RoundTrips)
    (hl : SODLAdamW.Laid refs o.blocks) (hnamed : ∀ b, (o.originId, b) ∈ N)
    (ho : PlainOrigin o.originId) {groups : ℕ → ParamGroup T} {grads : Gradients T}
    {u : AdamWState T} {q : PlainAdamW T} (hn : q.stepIndex + 1 < 2 ^ 64)
    (h : Agree N P F o u a q) :
    Prog.Follows (Session.handle P) a (o.step F groups grads u) (q.step refs groups grads)
      (Agree N P F o) := by
  obtain ⟨hoff, hindex⟩ := h
  have hsub : ∀ block ∈ o.activeBlocks grads, block ∈ o.blocks :=
    fun block hb => List.mem_of_mem_filter hb
  have hnodup : (o.activeBlocks grads).Nodup := hl.ids.of_map.filter _
  rw [PlainAdamW.step, ← plainRefs_activeBlocks hl, ← hindex]
  rw [← hindex] at hn
  -- the parameters, in one way or the other
  have hparams : Prog.Follows (Session.handle P) a
      (o.updateActive F ⟨groups, u.stepIndex + 1, grads⟩ u (o.activeBlocks grads))
      (plainRefs ⟨groups, u.stepIndex + 1, grads⟩
        ((o.activeBlocks grads).flatMap (·.refs)) q.state) (Offloaded N P F o) := by
    have hstart : Offloaded N P F o q.state.params a q.state := hoff.params ▸ hoff
    rw [SODLAdamW.updateActive, hoff.params]
    split
    · exact SODLAdamW.stepTogether_follows hA hT hF hl hnamed hn hsub hnodup hstart
    · exact SODLAdamW.stepSingly_follows hA hT hF hl hnamed hn hsub hstart
  refine Prog.Follows.bind hparams fun params a₁ m h₁ => ?_
  obtain ⟨window, a₂, hwindow, h₂⟩ := h₁.left fun V => leaves_updatePinWindow hA u _
  refine Prog.Follows.step hwindow ?_
  have hflush : ∀ V, Leaves N P V
      (o.flushDue (u.stepIndex + 1) ((o.activeBlocks grads).map (·.id))) := by
    intro V
    rw [SODLAdamW.flushDue]
    split
    · exact leaves_unlessEmpty hA _ ho (by rintro _ _ ⟨⟩) rfl
    · exact Prog.Triple.pure fun _ h => h
  obtain ⟨_, a₃, hflushed, h₃⟩ := h₂.left hflush
  refine Prog.Follows.step hflushed ?_
  obtain ⟨cleaned, a₄, hcleaned, h₄⟩ := h₃.left fun V => leaves_collectStale hA u _
  exact Prog.Follows.step hcleaned (Prog.Follows.pure ⟨h₄, rfl⟩)

end Optimizer

/-! ### Training -/

/-- What is asked of the optimizer, or of its store by others. A resume is in a new process, which
opens the directories anew, and has the parameters as they were. -/
inductive TrainingEvent (T : Torch)
  | step (groups : ℕ → ParamGroup T) (grads : Gradients T)
  | flush (blockIds : Option (List String))
  | resume (compressionLevel : ℤ) (cacheCapacity writebackThreshold prefetchLookahead : ℕ)
    (useBatchStateOps : Bool)
  | other (op : OptimizerOp)
  | setCacheCapacity (cacheCapacity : ℕ)

/-- A process that trains: an optimizer, and the store it offloads to. -/
structure Training (T : Torch) where
  session : Session
  optimizer : AdamWState T

/-- A program of the optimizer, with the store as it leaves it. -/
def runOn {α : Type} (P : ArtifactPlatform) (p : AdamWProg α) (a : Session) :
    Outcome AdamWError (α × Session) :=
  (p.run (Session.handle P) a).1 >>= fun r => pure (r, (p.run (Session.handle P) a).2)

variable {T : Torch} (P) (F : T.Formats) (o : SODLAdamW) (refs : List ParameterRef)

/-- **What training comes to**, an event later. -/
def Training.after (t : Training T) : TrainingEvent T → Outcome AdamWError (Training T)
  | .step groups grads => do
    let r ← runOn P (o.step F groups grads t.optimizer) t.session
    pure ⟨r.2, r.1⟩
  | .flush blockIds => do
    let r ← runOn P (o.flush blockIds) t.session
    pure ⟨r.2, t.optimizer⟩
  | .resume compressionLevel cacheCapacity writebackThreshold prefetchLookahead batch => do
    let r ← runOn P (o.externalStateDict F t.optimizer) t.session
    let s := r.2.state
    let reopened : Session := ⟨.open compressionLevel cacheCapacity writebackThreshold,
      .opened s.registry s.blobs s.clock s.faults⟩
    let r ← runOn P (o.loadStateDict F r.1 (SODLAdamW.initial t.optimizer.params
      prefetchLookahead batch)) reopened
    pure ⟨r.2, r.1⟩
  | .other op => pure ⟨(Session.handle P op t.session).2, t.optimizer⟩
  | .setCacheCapacity cacheCapacity =>
    pure ⟨⟨t.session.store.setCacheCapacity cacheCapacity, t.session.state⟩, t.optimizer⟩

/-- Some events in a row, until an error is raised. -/
def Training.run (t : Training T) : List (TrainingEvent T) → Outcome AdamWError (Training T)
  | [] => pure t
  | e :: rest => do
    let t' ← t.after P F o e
    Training.run t' rest

/-- The plain optimizer only takes the steps. -/
def PlainAdamW.after (q : PlainAdamW T) : TrainingEvent T → Outcome AdamWError (PlainAdamW T)
  | .step groups grads => q.step refs groups grads
  | _ => pure q

/-- The plain optimizer over some events, until an error is raised. -/
def PlainAdamW.run (q : PlainAdamW T) : List (TrainingEvent T) → Outcome AdamWError (PlainAdamW T)
  | [] => pure q
  | e :: rest => do
    let q' ← q.after refs e
    PlainAdamW.run q' rest

/-- Others name blocks of `N` too, and do not store those of the optimizer. -/
def TrainingEvent.Named (N : Set BlockName) (o : SODLAdamW) : TrainingEvent T → Prop
  | .other op => op.Named N ∧ ∀ e ∈ op.stores, e.1.1 ≠ o.originId
  | _ => True

variable {P F o refs} {t : Training T} {q : PlainAdamW T}

/-- A program that follows a computation, with the store as it leaves it. -/
theorem Follows.runOn {α β : Type} {p : AdamWProg α} {c : Outcome AdamWError β}
    {R : α → Session → β → Prop} (h : Prog.Follows (Session.handle P) a p c R) :
    (runOn P p a).Related (fun r b => R r.1 r.2 b) c :=
  Outcome.Related.bind_left h fun _ _ hR => .ok hR

/-- A program that returned is one that was run to its value, with the store as it left it. -/
theorem runOn_of_run {α : Type} {p : AdamWProg α} {r : α} {a' : Session}
    (h : p.run (Session.handle P) a = (.ok r, a')) : runOn P p a = .ok (r, a') := by
  rw [runOn, h]
  rfl

/-- A layout that was saved is the layout that is compared with. -/
theorem run_loadStateDict (hA : StoreAssumptions N P) {u : AdamWState T} {d : AdamWStateDict}
    (horigin : d.originId = o.originId) (hprint : d.layoutFingerprint = o.fingerprint F)
    (h : a.Holds N P V) :
    ∃ u' a', (o.loadStateDict F d u).run (Session.handle P) a = (.ok u', a') ∧
      a'.Holds N P V ∧ u'.params = u.params ∧ u'.stepIndex = d.step := by
  rw [SODLAdamW.loadStateDict, if_neg (by simp [horigin]), if_neg (by simp [hprint])]
  obtain ⟨window, a', hrun, hholds⟩ := (leaves_updatePinWindow (o := o) hA
    { u with
      stepIndex := d.step
      prefetchLookahead := d.prefetchLookahead
      useBatchStateOps := d.useBatchStateOps } []).returns h
  exact ⟨_, a', Prog.run_bind_ok hrun, hholds, rfl, rfl⟩

/-- **An event**: the optimizers agree after it if they did before. -/
theorem Training.after_related (hA : StoreAssumptions N P) (hT : T.Lawful) (hF : F.RoundTrips)
    (hl : SODLAdamW.Laid refs o.blocks) (hnamed : ∀ b, (o.originId, b) ∈ N)
    (ho : PlainOrigin o.originId) {e : TrainingEvent T} (he : e.Named N o)
    (hn : q.stepIndex + 1 < 2 ^ 64) (h : Agree N P F o t.optimizer t.session q) :
    (t.after P F o e).Related (fun t' q' => Agree N P F o t'.optimizer t'.session q')
      (q.after refs e) := by
  cases e with
  | step groups grads =>
    have hstep : Prog.Follows (Session.handle P) t.session (o.step F groups grads t.optimizer)
        (q.step refs groups grads) (Agree N P F o) :=
      SODLAdamW.step_follows hA hT hF hl hnamed ho hn h
    exact (Follows.runOn hstep).bind_left fun r q' hr => .ok hr
  | flush blockIds =>
    have hflush : ∀ V, Leaves N P V (o.flush blockIds) := by
      intro V
      cases blockIds with
      | none => exact leaves_tell hA ho (by rintro _ _ ⟨⟩) rfl
      | some ids => exact leaves_unlessEmpty hA ids ho (by rintro _ _ ⟨⟩) rfl
    obtain ⟨_, a', hrun, hoff⟩ := h.offloaded.left hflush
    rw [Training.after, runOn_of_run hrun]
    exact .ok ⟨hoff, h.stepIndex⟩
  | resume level capacity threshold lookahead batch =>
    obtain ⟨V, hholds, hstored⟩ := h.offloaded.stored
    obtain ⟨htell, hholds₁⟩ := run_tell hA hholds (.flushOrigin o.originId) ho
      (by rintro _ _ ⟨⟩)
    obtain ⟨flushed, hrefines, hflushed⟩ := hholds.flushOrigin hA ho
    rw [Training.after, runOn_of_run (Prog.run_bind_ok htell), Outcome.ok_bind]
    -- the new process finds what was flushed
    have hreopened : Session.Holds N P flushed ⟨.open level capacity threshold,
        .opened (Session.handle P (.flushOrigin o.originId) t.session).2.state.registry
          (Session.handle P (.flushOrigin o.originId) t.session).2.state.blobs
          (Session.handle P (.flushOrigin o.originId) t.session).2.state.clock
          (Session.handle P (.flushOrigin o.originId) t.session).2.state.faults⟩ :=
      ⟨hholds₁.1, flushed, hrefines.reopened _ _, hrefines.recording⟩
    obtain ⟨u', a', hload, hholds₂, hparams, hstep⟩ := run_loadStateDict (F := F) (o := o) hA
      (u := SODLAdamW.initial t.optimizer.params lookahead batch)
      (d := ⟨o.originId, t.optimizer.stepIndex, t.optimizer.prefetchLookahead,
        t.optimizer.useBatchStateOps, o.fingerprint F⟩) rfl rfl hreopened
    dsimp only
    rw [runOn_of_run hload]
    refine .ok ⟨⟨?_, h.offloaded.placed, flushed, hholds₂, fun block hb => ?_⟩, ?_⟩
    · exact hparams.trans h.offloaded.params
    · exact (hstored block hb).congr (hflushed _) fun _ _ => rfl
    · exact hstep.trans h.stepIndex
  | other op =>
    obtain ⟨V, hholds, hstored⟩ := h.offloaded.stored
    refine .ok ⟨⟨h.offloaded.params, h.offloaded.placed, _, (hholds.call hA op he.1).2,
      fun block hb => ?_⟩, h.stepIndex⟩
    refine (hstored block hb).congr (storing_of_notMem fun hmem => ?_) fun _ _ => rfl
    obtain ⟨e, he', heq⟩ := List.mem_map.mp hmem
    exact he.2 e he' (congrArg Prod.fst heq)
  | setCacheCapacity capacity =>
    obtain ⟨V, hholds, hstored⟩ := h.offloaded.stored
    exact .ok ⟨⟨h.offloaded.params, h.offloaded.placed, V, hholds, hstored⟩, h.stepIndex⟩

/-- The plain optimizer counts its steps. -/
theorem PlainAdamW.stepIndex_after {q' : PlainAdamW T} {e : TrainingEvent T}
    (h : q.after refs e = .ok q') : q'.stepIndex ≤ q.stepIndex + 1 := by
  cases e with
  | step groups grads =>
    obtain ⟨m, -, hq'⟩ := Outcome.bind_eq_ok.mp h
    obtain rfl := Outcome.ok.inj hq'
    exact le_rfl
  | _ =>
    obtain rfl := Outcome.ok.inj h
    exact Nat.le_succ _

/-- **A whole run**: either both optimizers raise the same error, or they agree at the end of it. -/
theorem Training.run_related (hA : StoreAssumptions N P) (hT : T.Lawful) (hF : F.RoundTrips)
    (hl : SODLAdamW.Laid refs o.blocks) (hnamed : ∀ b, (o.originId, b) ∈ N)
    (ho : PlainOrigin o.originId) {E : List (TrainingEvent T)} (hE : ∀ e ∈ E, e.Named N o)
    (hn : q.stepIndex + E.length < 2 ^ 64) (h : Agree N P F o t.optimizer t.session q) :
    (t.run P F o E).Related (fun t' q' => Agree N P F o t'.optimizer t'.session q')
      (q.run refs E) := by
  induction E generalizing t q with
  | nil => exact .ok h
  | cons e rest ih =>
    rw [List.length_cons] at hn
    have hstep := Training.after_related hA hT hF hl hnamed ho (hE e (List.mem_cons_self ..))
      (by omega) h
    refine (hstep.and_right fun q' => PlainAdamW.stepIndex_after).bind fun t' q' hq => ?_
    exact ih (fun e' he' => hE e' (List.mem_cons_of_mem _ he')) (by omega) hq.1

/-- **Offloading the moments changes nothing.** Over an empty store, with an origin of its own, an
optimizer that `_build_layout` laid out, over groups whose parameters have distinct names, makes of
the parameters what the plain one with its moments in memory makes of them. This is so for all steps
with whatever settings and gradients, flushes, resumes in a new process, and calls of others in
between, as long as nothing fails in the store and payloads can be compressed: either both raise the
same error, or in the end the parameters and the count of steps are the same. -/
theorem offloaded_eq_plain {P : ArtifactPlatform} {F : T.Formats} (hcf : P.CollisionFree)
    (hzstd : P.ZstdRoundTrips) (hP : P.Compresses) (hT : T.Lawful) (hF : F.RoundTrips)
    {O : Set String} (hplain : ∀ o ∈ O, PlainOrigin o)
    (hapart : ∀ o ∈ O, ∀ o' ∈ O, manifestName o = manifestName o' → o = o') {originId : String}
    (horigin : originId ∈ O) {blockSize flushEvery : ℕ} {shape : Place → List ℕ}
    {provided : List (List (Option String))}
    (hnames : ∀ p ∈ provided.zipIdx, ((SODLAdamW.groupRefs p.2 p.1).map (·.name)).Nodup)
    {E : List (TrainingEvent T)} (hE : ∀ e ∈ E, e.Named {p | p.1 ∈ O}
      (.new originId blockSize flushEvery shape provided)) (hlength : E.length < 2 ^ 64)
    (params : Params T) (prefetchLookahead : ℕ) (batch : Bool) (compressionLevel : ℤ)
    (cacheCapacity writebackThreshold : ℕ) (clock : ℕ → OffsetDateTime) :
    (Training.run P F (.new originId blockSize flushEvery shape provided)
        ⟨⟨.open compressionLevel cacheCapacity writebackThreshold,
          .opened ∅ ∅ clock fun _ => none⟩,
          SODLAdamW.initial params prefetchLookahead batch⟩ E >>=
      fun t => pure (t.optimizer.params, t.optimizer.stepIndex)) =
    (PlainAdamW.run (SODLAdamW.orderedParams provided) ⟨0, ⟨params, fun _ => none⟩⟩ E >>=
      fun q => pure (q.state.params, q.stepIndex)) := by
  have hA : StoreAssumptions {p | p.1 ∈ O} P :=
    ⟨hcf, hzstd, hP, Apart.of_origins hplain hapart⟩
  have hlaid : SODLAdamW.Laid _ (SODLAdamW.buildLayout (max 1 blockSize) shape provided) :=
    SODLAdamW.laid_buildLayout (by omega) shape hnames
  have hstart : Agree {p | p.1 ∈ O} P F (.new originId blockSize flushEvery shape provided)
      (SODLAdamW.initial params prefetchLookahead batch)
      ⟨.open compressionLevel cacheCapacity writebackThreshold, .opened ∅ ∅ clock fun _ => none⟩
      ⟨0, ⟨params, fun _ => none⟩⟩ := by
    refine ⟨⟨rfl, fun place m hm => absurd hm (by simp), fun _ => none,
      ⟨fun _ => rfl, _, Refines.opened _ P clock _⟩, fun block _ => ?_⟩, rfl⟩
    exact ⟨∅, Matches.empty fun _ _ => rfl, fun n => ⟨n, rfl⟩⟩
  refine (Training.run_related
    (o := .new originId blockSize flushEvery shape provided) hA hT hF hlaid (fun _ => horigin)
    (hplain originId horigin) hE (by simpa using hlength) hstart).map_eq fun t q h => ?_
  exact Prod.ext h.offloaded.params h.stepIndex

/-! ### A package to compute with -/

/-- Tensors of one rational number, all on the CPU; roots are exact where they are rational. -/
def sampleTorch : Torch where
  Number := ℚ
  one := 1
  isZero x := x = 0
  neg x := -x
  sub x y := x - y
  mul x y := x * y
  div x y := if y = 0 then .error "float division by zero" else .ok (x / y)
  pow x n := .ok (x ^ n)
  sqrt x :=
    if x < 0 then .error "math domain error"
    else .ok (mkRat (Nat.sqrt x.num.toNat) (Nat.sqrt x.den))
  Tensor := ℚ
  Kind := Unit
  kind _ := ()
  shape _ := []
  zerosLike _ := 0
  toKind x _ := x
  cpu x := x
  mulBy x a := x * a
  divBy x a := x / a
  addNumber x a := x + a
  root x := mkRat (Nat.sqrt x.num.toNat) (Nat.sqrt x.den)
  add x y a := x + a * y
  addcmul x y z a := x + a * y * z
  addcdiv x y z a := x + a * y / z

/-- The tensors of the example are where they are, and stay there. -/
theorem sampleTorch_lawful : sampleTorch.Lawful where
  kind_zerosLike _ := rfl
  kind_mulBy _ _ := rfl
  kind_add _ _ _ := rfl
  kind_addcmul _ _ _ _ := rfl
  kind_addcdiv _ _ _ _ := rfl
  toKind_cpu _ := rfl

/-- A state as numbers. -/
def sampleRows (st : BlockState sampleTorch) : ℕ × List (List ℕ × ℚ × ℚ) :=
  (st.step, st.params.entries.map fun e =>
    (e.1.toList.map Char.toNat, e.2.expAvg, e.2.expAvgSq))

/-- The entries that some rows stand for. -/
def sampleEntries (rows : List (List ℕ × ℚ × ℚ)) :
    List (Sigma fun _ : String => Moments sampleTorch) :=
  rows.map fun r => ⟨String.ofList (r.1.map Char.ofNat), r.2.1, r.2.2⟩

/-- Pickles that are as long as the number of what is pickled. -/
def sampleFormats : sampleTorch.Formats where
  serializeState st := List.replicate (Encodable.encode (sampleRows st)) 0
  deserializeState bytes :=
    match (Encodable.decode bytes.length : Option (ℕ × List (List ℕ × ℚ × ℚ))) with
    | none => .error "invalid load key"
    | some (step, rows) =>
      if h : (sampleEntries rows).keys.Nodup then .ok ⟨step, ⟨sampleEntries rows, h⟩⟩
      else .error "invalid load key"
  metadata layout step print := ⟨toString layout.groupIndex ++ toString step ++ print⟩
  layoutFingerprint layouts blockSize := toString layouts.length ++ toString blockSize

/-- What is pickled as its number is unpickled as it was. -/
theorem sampleFormats_roundTrips : sampleFormats.RoundTrips := by
  intro st _
  have hentries : sampleEntries (sampleRows st).2 = st.params.entries := by
    rw [sampleEntries, sampleRows, List.map_map]
    refine (List.map_congr_left fun e _ => ?_).trans (List.map_id _)
    simp [Function.comp_def]
  have hdecode : (Encodable.decode (List.replicate (Encodable.encode (sampleRows st))
      (0 : UInt8)).length : Option (ℕ × List (List ℕ × ℚ × ℚ))) = some (sampleRows st) := by
    rw [List.length_replicate, Encodable.encodek]
  have hnodup : (sampleEntries (sampleRows st).2).keys.Nodup := by
    rw [hentries]
    exact st.params.nodupKeys
  have hparams : (⟨sampleEntries (sampleRows st).2, hnodup⟩ : Table String _) = st.params :=
    AList.ext hentries
  simp only [sampleFormats, hdecode]
  rw [dif_pos hnodup, hparams]
  rfl

/-- Two steps, between which the process is replaced. -/
def sampleTraining : List (TrainingEvent sampleTorch) :=
  let group : ParamGroup sampleTorch := ⟨(3 : ℚ), (0 : ℚ), (0 : ℚ), (1 : ℚ), (0 : ℚ)⟩
  let gradients : Gradients sampleTorch := fun _ => some ⟨(2 : ℚ), false⟩
  [.step (fun _ => group) gradients, .resume 3 4 8 1 false, .step (fun _ => group) gradients]

/-- Two steps with a resume in between come to the same parameters with and without the store. -/
theorem offloaded_eq_plain_sample :
    (Training.run sampleArtifacts sampleFormats (.new "run" 2 1 (fun _ => []) [[none, none, none]])
        ⟨⟨.open 3 4 8, .opened ∅ ∅ (fun _ => 0) fun _ => none⟩,
          SODLAdamW.initial (fun _ => (5 : ℚ)) 1 true⟩ sampleTraining >>=
      fun t => pure (t.optimizer.params, t.optimizer.stepIndex)) =
    (PlainAdamW.run (SODLAdamW.orderedParams [[none, none, none]])
        ⟨0, ⟨fun _ => (5 : ℚ), fun _ => none⟩⟩ sampleTraining >>=
      fun q => pure (q.state.params, q.stepIndex)) :=
  offloaded_eq_plain (O := {"run"}) samplePlatform_collisionFree sampleArtifacts_zstdRoundTrips
    sampleArtifacts_compresses sampleTorch_lawful sampleFormats_roundTrips
    (by rintro o rfl; exact plainOrigin_run) (by rintro o rfl o' rfl -; rfl) rfl
    (by decide)
    (by
      intro e he
      simp only [sampleTraining, List.mem_cons, List.not_mem_nil, or_false] at he
      rcases he with rfl | rfl | rfl <;> trivial)
    (by decide) _ _ _ _ _ _ _

/-- The sample does not raise. -/
example : (PlainAdamW.run (SODLAdamW.orderedParams [[none, none, none]])
    ⟨0, ⟨fun _ => (5 : ℚ), fun _ => none⟩⟩ sampleTraining).isOk = true := by decide +kernel

end Sodl
