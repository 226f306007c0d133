import Mathlib.Data.Finset.Sort
import Mathlib.Data.String.Basic
import Sodl.Effect.Follow
import Sodl.Optimizer.Quiet

/-!
# AdamW with its moments in the store

`SODLAdamW` (`src/python/sodl_weights/offload_optimizer.py`) does what AdamW does, but keeps the
two moments of each parameter in an optimizer-state store: the parameters of a group are cut into
blocks, and in every step the blocks that have a gradient are loaded, updated and stored again, in
two calls for all of them or in two for each.

This file has the optimizer, as programs over the calls of the store, and beside it the optimizer
that keeps the moments in memory (`Sodl.plainRefs`). The update of one block, on the moments that
were stored with it, is the one of the plain optimizer (`Sodl.SODLAdamW.updateRefs_related`). What
follows for a whole training run is in `Sodl.Python.OffloadRuns`.

The thread that writes back in the background is left out.
-/

namespace Sodl

open Effect

/-! ### What the optimizer takes from elsewhere -/

/-- The package `torch`, and the floats of Python. An operation that PyTorch does in place is what
it makes of the tensor. -/
structure Torch where
  /-- The floats, with the operations that can raise and the text of what is raised. -/
  Number : Type
  one : Number
  isZero : Number → Bool
  neg : Number → Number
  sub : Number → Number → Number
  mul : Number → Number → Number
  div : Number → Number → Except String Number
  pow : Number → ℕ → Except String Number
  sqrt : Number → Except String Number
  /-- The tensors, and what device one is on and what its elements are. -/
  Tensor : Type
  Kind : Type
  kind : Tensor → Kind
  shape : Tensor → List ℕ
  zerosLike : Tensor → Tensor
  toKind : Tensor → Kind → Tensor
  cpu : Tensor → Tensor
  /-- `x.mul_(a)`, `x.div_(a)`, `x.add_(a)` and `x.sqrt()`. -/
  mulBy : Tensor → Number → Tensor
  divBy : Tensor → Number → Tensor
  addNumber : Tensor → Number → Tensor
  root : Tensor → Tensor
  /-- `x.add_(y, alpha=a)`, `x.addcmul_(y, z, value=a)` and `x.addcdiv_(y, z, value=a)`. -/
  add : Tensor → Tensor → Number → Tensor
  addcmul : Tensor → Tensor → Tensor → Number → Tensor
  addcdiv : Tensor → Tensor → Tensor → Number → Tensor

/-- What PyTorch documents of these: an operation in place leaves a tensor where it is, and so
does `zeros_like`; and a copy on the CPU that is brought back is the tensor it was made of. -/
structure Torch.Lawful (T : Torch) : Prop where
  kind_zerosLike : ∀ x, T.kind (T.zerosLike x) = T.kind x
  kind_mulBy : ∀ x a, T.kind (T.mulBy x a) = T.kind x
  kind_add : ∀ x y a, T.kind (T.add x y a) = T.kind x
  kind_addcmul : ∀ x y z a, T.kind (T.addcmul x y z a) = T.kind x
  kind_addcdiv : ∀ x y z a, T.kind (T.addcdiv x y z a) = T.kind x
  toKind_cpu : ∀ x, T.toKind (T.cpu x) (T.kind x) = x

variable {T : Torch}

/-- `exp_avg` and `exp_avg_sq` of a parameter: the running averages of its gradient and of the
square of it. -/
structure Moments (T : Torch) where
  expAvg : T.Tensor
  expAvgSq : T.Tensor

/-- Where the moments are stored: the copies on the CPU that go into the payload of a block. -/
def Moments.cpu (m : Moments T) : Moments T := ⟨T.cpu m.expAvg, T.cpu m.expAvgSq⟩

/-- The payload of a block, before it is pickled: the step it was made in, and the moments of its
parameters by their names. -/
structure BlockState (T : Torch) where
  step : ℕ
  params : Table String (Moments T)

/-- A parameter, by the name its moments are stored under, its group, and its position there. -/
structure ParameterRef where
  name : String
  groupIndex : ℕ
  paramIndex : ℕ
  deriving DecidableEq

/-- A parameter, by its group and its position there. -/
abbrev Place : Type := ℕ × ℕ

abbrev ParameterRef.place (ref : ParameterRef) : Place := (ref.groupIndex, ref.paramIndex)

/-- What a block says of itself in its metadata and in the fingerprint: its id, its group, and the
names and shapes of its parameters. -/
structure OptimizerBlockLayout where
  blockId : String
  groupIndex : ℕ
  paramNames : List String
  paramShapes : List (String × List ℕ)
  deriving DecidableEq

/-- `torch.save` and `torch.load`, the JSON text of a block's metadata (which has the layout of
the block, the step and the fingerprint), and the fingerprint of a layout, a SHA-256 hash. -/
structure Torch.Formats (T : Torch) where
  serializeState : BlockState T → Bytes
  deserializeState : Bytes → Except String (BlockState T)
  metadata : OptimizerBlockLayout → ℕ → String → JsonValue
  layoutFingerprint : List OptimizerBlockLayout → ℕ → String

/-- A block whose tensors are on the CPU is unpickled as it was. -/
def Torch.Formats.RoundTrips (F : T.Formats) : Prop :=
  ∀ st : BlockState T, (∀ name m, st.params.lookup name = some m → ∃ m' : Moments T, m = m'.cpu) →
    F.deserializeState (F.serializeState st) = .ok st

/-- What a step or a resume can raise. -/
inductive AdamWError
  /-- What the store raised. -/
  | store (e : SodlError)
  /-- "SODLAdamW does not support sparse gradients". -/
  | sparse
  /-- An `ArithmeticError` or a `ValueError` of a float operation. -/
  | arithmetic (text : String)
  | unpickling (text : String)
  /-- A step that does not fit into 64 bits. -/
  | overflow
  | originMismatch
  | layoutMismatch
  deriving DecidableEq

/-- The settings of a parameter group, as a step finds them; a scheduler may change them between two
steps. -/
structure ParamGroup (T : Torch) where
  lr : T.Number
  beta1 : T.Number
  beta2 : T.Number
  eps : T.Number
  weightDecay : T.Number

/-- A gradient, and whether it is a sparse tensor, which the optimizer does not take. -/
structure Gradient (T : Torch) where
  data : T.Tensor
  isSparse : Bool

/-- The parameters of the model, by their places. -/
abbrev Params (T : Torch) : Type := Place → T.Tensor
/-- The gradients that there are; a parameter may have none in a step. -/
abbrev Gradients (T : Torch) : Type := Place → Option (Gradient T)

/-! ### The rule -/

/-- **AdamW** on one parameter, in step `n`: what becomes of it, and of its moments. -/
def adamw (group : ParamGroup T) (n : ℕ) (parameter : T.Tensor) (m : Moments T)
    (grad : T.Tensor) : Except String (T.Tensor × Moments T) := do
  let expAvg := T.add (T.mulBy m.expAvg group.beta1) grad (T.sub T.one group.beta1)
  let expAvgSq :=
    T.addcmul (T.mulBy m.expAvgSq group.beta2) grad grad (T.sub T.one group.beta2)
  let biasCorrection1 := T.sub T.one (← T.pow group.beta1 n)
  let biasCorrection2 := T.sub T.one (← T.pow group.beta2 n)
  let decayed :=
    if T.isZero group.weightDecay then parameter
    else T.mulBy parameter (T.sub T.one (T.mul group.lr group.weightDecay))
  let denom := T.addNumber (T.divBy (T.root expAvgSq) (← T.sqrt biasCorrection2)) group.eps
  let stepSize ← T.div group.lr biasCorrection1
  pure (T.addcdiv decayed expAvg denom (T.neg stepSize), ⟨expAvg, expAvgSq⟩)

/-- The moments that AdamW starts from, on the device of the parameter. -/
def Moments.zeros (parameter : T.Tensor) : Moments T :=
  ⟨T.zerosLike parameter, T.zerosLike parameter⟩

/-- What a float operation comes to: its value, or the error that it raised. -/
def ofArithmetic {α : Type} : Except String α → Outcome AdamWError α
  | .ok a => .ok a
  | .error text => .err (.arithmetic text)

/-- The settings of the groups, the count of the step, and the gradients, as a step finds them. -/
structure StepInput (T : Torch) where
  groups : ℕ → ParamGroup T
  n : ℕ
  grads : Gradients T

/-- AdamW on a parameter of a group, which is refused a sparse gradient. -/
def StepInput.update (i : StepInput T) (groupIndex : ℕ) (grad : Gradient T)
    (parameter : T.Tensor) (m : Moments T) : Outcome AdamWError (T.Tensor × Moments T) :=
  if grad.isSparse then .err .sparse
  else ofArithmetic (adamw (i.groups groupIndex) i.n parameter m grad.data)

/-! ### The plain optimizer -/

/-- What an optimizer that keeps the moments in memory works on: the parameters, and the moments of
those that have had a gradient. -/
structure PlainState (T : Torch) where
  params : Params T
  moments : Place → Option (Moments T)

/-- The state with a parameter and its moments replaced. -/
def PlainState.set (a : PlainState T) (place : Place) (r : T.Tensor × Moments T) :
    PlainState T where
  params := Function.update a.params place r.1
  moments := Function.update a.moments place (some r.2)

section set

variable {a : PlainState T} {place place' : Place} {r : T.Tensor × Moments T}

/-- The parameter that was replaced is the new one. -/
@[simp] theorem PlainState.params_set_self : (a.set place r).params place = r.1 :=
  Function.update_self ..

/-- The moments that were replaced are the new ones. -/
@[simp] theorem PlainState.moments_set_self : (a.set place r).moments place = some r.2 :=
  Function.update_self ..

/-- The other parameters are as they were. -/
theorem PlainState.params_set_ne (h : place' ≠ place) :
    (a.set place r).params place' = a.params place' := Function.update_of_ne h ..

/-- The moments of the other parameters are as they were. -/
theorem PlainState.moments_set_ne (h : place' ≠ place) :
    (a.set place r).moments place' = a.moments place' := Function.update_of_ne h ..

end set

/-- **A step of the plain optimizer** over some references, in order: the update that the offloading
one makes, on moments that are in memory. The count of steps is one for all parameters, as it is
there; `torch.optim.AdamW` counts for each parameter the steps in which it has had a gradient. -/
def plainRefs (i : StepInput T) : List ParameterRef → PlainState T →
    Outcome AdamWError (PlainState T)
  | [], a => .ok a
  | ref :: rest, a =>
    match i.grads ref.place with
    | none => plainRefs i rest a
    | some grad => do
      let m := (a.moments ref.place).getD (.zeros (a.params ref.place))
      let r ← i.update ref.groupIndex grad (a.params ref.place) m
      plainRefs i rest (a.set ref.place r)

/-- The references of two lists, one after the other, are gone through one list after the other. -/
theorem plainRefs_append (i : StepInput T) (refs refs' : List ParameterRef) (a : PlainState T) :
    plainRefs i (refs ++ refs') a = plainRefs i refs a >>= plainRefs i refs' := by
  induction refs generalizing a with
  | nil => rfl
  | cons ref rest ih =>
    rw [List.cons_append, plainRefs, plainRefs]
    rcases i.grads ref.place with _ | grad
    · exact ih a
    · dsimp only
      rcases i.update ref.groupIndex grad (a.params ref.place)
        ((a.moments ref.place).getD (.zeros (a.params ref.place))) with r | e | _
      · exact ih _
      · rfl
      · rfl

/-- References without gradients are passed over. -/
theorem plainRefs_of_none {i : StepInput T} {refs : List ParameterRef}
    (h : ∀ ref ∈ refs, i.grads ref.place = none) (a : PlainState T) :
    plainRefs i refs a = .ok a := by
  induction refs with
  | nil => rfl
  | cons ref rest ih =>
    rw [plainRefs, h ref (List.mem_cons_self ..)]
    exact ih fun ref' href => h ref' (List.mem_cons_of_mem _ href)

/-! ### The layout -/

/-- A block of the optimizer: its layout, and the references it is for, in the order of the
group. -/
structure OffloadBlock where
  layout : OptimizerBlockLayout
  refs : List ParameterRef

/-- The id under which the block is stored. -/
abbrev OffloadBlock.id (block : OffloadBlock) : String := block.layout.blockId

namespace SODLAdamW

/-- The references of a group, some of whose parameters were given names. -/
def groupRefs (groupIndex : ℕ) (names : List (Option String)) : List ParameterRef :=
  names.zipIdx.map fun p =>
    { name := p.1.getD ("group" ++ toString groupIndex ++ "_param" ++ toString p.2)
      groupIndex := groupIndex
      paramIndex := p.2 }

/-- The references of all parameters, group by group, in the order `step` goes through them. -/
def orderedParams (provided : List (List (Option String))) : List ParameterRef :=
  provided.zipIdx.flatMap fun p => groupRefs p.2 p.1

/-- The id of a block, by its group and its number there. -/
def blockName (groupIndex blockIndex : ℕ) : String :=
  "group" ++ toString groupIndex ++ "-block" ++ toString blockIndex

/-- A block of a group, with the shapes its parameters have. -/
def blockOf (shape : Place → List ℕ) (groupIndex blockIndex : ℕ) (refs : List ParameterRef) :
    OffloadBlock where
  layout :=
    { blockId := blockName groupIndex blockIndex
      groupIndex := groupIndex
      paramNames := refs.map (·.name)
      paramShapes := refs.map fun ref => (ref.name, shape ref.place) }
  refs := refs

/-- The blocks of a group: a slice of `block_size` references each. -/
def groupBlocks (blockSize : ℕ) (shape : Place → List ℕ) (groupIndex : ℕ)
    (refs : List ParameterRef) : List OffloadBlock :=
  (List.range ((refs.length + blockSize - 1) / blockSize)).map fun k =>
    blockOf shape groupIndex k ((refs.drop (k * blockSize)).take blockSize)

/-- `_build_layout`: the blocks of all groups, group by group. -/
def buildLayout (blockSize : ℕ) (shape : Place → List ℕ)
    (provided : List (List (Option String))) : List OffloadBlock :=
  provided.zipIdx.flatMap fun p => groupBlocks blockSize shape p.2 (groupRefs p.2 p.1)

end SODLAdamW

/-! ### The optimizer -/

/-- The settings of an optimizer that do not change. -/
structure SODLAdamW where
  originId : String
  blockSize : ℕ
  flushEvery : ℕ
  blocks : List OffloadBlock

/-- What an optimizer keeps besides the store; the parameters are those of the model, which `step`
changes in place. -/
structure AdamWState (T : Torch) where
  params : Params T
  stepIndex : ℕ
  prefetchLookahead : ℕ
  useBatchStateOps : Bool
  pinnedWindow : Finset String
  previousStepBlocks : Finset String
  gcBlocksCleaned : ℕ

/-- What `load_state_dict` reads of what `external_state_dict` returns. -/
structure AdamWStateDict where
  originId : String
  step : ℕ
  prefetchLookahead : ℕ
  useBatchStateOps : Bool
  layoutFingerprint : String

/-- The calls of the store, as the optimizer makes them through its facade. A reply is of the kind
that goes with the call. -/
@[reducible] def facadeSig : Sig := ⟨SodlError, OptimizerOp, fun _ => OptimizerReply⟩

/-- A method of the optimizer, as the tree of the calls to the store that it makes. -/
abbrev AdamWProg (α : Type) : Type := Prog facadeSig AdamWError α

namespace OptimizerReply

/-- The dictionary that `load_blocks` returns, read off the reply. -/
def blocks : OptimizerReply → Table String Bytes
  | .payloads t => t
  | _ => ∅

/-- The bytes that `load_block` returns, read off the reply. -/
def bytes : OptimizerReply → Bytes
  | .payload v => v
  | _ => []

end OptimizerReply

namespace SODLAdamW

variable (F : T.Formats) (o : SODLAdamW) (i : StepInput T)

/-- A call of the store, whose error is raised to the caller of the optimizer. -/
def ask (op : OptimizerOp) : AdamWProg OptimizerReply :=
  (Prog.perform (S := facadeSig) op).mapErr .store

/-- A call of the store whose reply is not looked at. -/
def tell (op : OptimizerOp) : AdamWProg Unit := do
  let _ ← ask op
  pure ()

/-- The constructor: neither the size of a block nor the number of steps between two flushes is
below one. -/
def new (originId : String) (blockSize flushEvery : ℕ) (shape : Place → List ℕ)
    (provided : List (List (Option String))) : SODLAdamW where
  originId := originId
  blockSize := max 1 blockSize
  flushEvery := max 1 flushEvery
  blocks := buildLayout (max 1 blockSize) shape provided

/-- The state of an optimizer that has taken no step and has pinned nothing. -/
def initial (params : Params T) (prefetchLookahead : ℕ) (useBatchStateOps : Bool) :
    AdamWState T where
  params := params
  stepIndex := 0
  prefetchLookahead := prefetchLookahead
  useBatchStateOps := useBatchStateOps
  pinnedWindow := ∅
  previousStepBlocks := ∅
  gcBlocksCleaned := 0

/-- `_layout_fingerprint`: a hash over the layouts of all blocks and the size of a block. -/
def fingerprint : String := F.layoutFingerprint (o.blocks.map (·.layout)) o.blockSize

/-- A payload that was loaded, or a block that has no state yet. -/
def stateOf (n : ℕ) : Option Bytes → Outcome AdamWError (BlockState T)
  | none => .ok ⟨n, ∅⟩
  | some payload =>
    match F.deserializeState payload with
    | .ok st => .ok st
    | .error text => .err (.unpickling text)

/-- `_load_block_state`: a block that is not there has no state yet. -/
def loadBlockState (n : ℕ) (blockId : String) : AdamWProg (BlockState T) :=
  Prog.call (S := facadeSig) (.loadBlock o.originId blockId) fun
    | .ok reply => Prog.lift (stateOf F n (some reply.bytes))
    | .err .notFound => Prog.lift (stateOf F n none)
    | .err e => Prog.raise (.store e)
    | .panic => .ret .panic

/-- The loop of `_load_block_states` over what was loaded. -/
def statesOf (n : ℕ) (payloads : Table String Bytes) :
    List String → Outcome AdamWError (Table String (BlockState T))
  | [] => .ok ∅
  | blockId :: rest => do
    let st ← stateOf F n (payloads.lookup blockId)
    let states ← statesOf n payloads rest
    pure (states.insert blockId st)

/-- `_load_block_states`: all blocks are asked for at once, and each that was not returned has no
state yet. -/
def loadBlockStates (n : ℕ) (blockIds : List String) :
    AdamWProg (Table String (BlockState T)) := do
  let reply ← ask (.loadBlocks o.originId blockIds)
  Prog.lift (statesOf F n reply.blocks blockIds)

/-- What is stored for a block. -/
def inputOf (block : OffloadBlock) (st : BlockState T) : OptimizerBlockInput where
  blockId := block.id
  payload := F.serializeState st
  step := .ofNat st.step
  shardKey := some ("group:" ++ toString block.layout.groupIndex)
  metadata := F.metadata block.layout st.step (o.fingerprint F)

/-- A step that is handed to the native module as an unsigned number of 64 bits. -/
def checkStep (n : ℕ) : AdamWProg Unit :=
  if n < 2 ^ 64 then pure () else Prog.raise .overflow

/-- `_active_layouts`: the blocks of which some parameter has a gradient. -/
def activeBlocks (grads : Gradients T) : List OffloadBlock :=
  o.blocks.filter fun block => block.refs.any fun ref => (grads ref.place).isSome

/-- The moments of a parameter, from those that were stored with its block. -/
def momentsOf (parameter : T.Tensor) : Option (Moments T) → Moments T
  | none => .zeros parameter
  | some m => ⟨T.toKind m.expAvg (T.kind parameter), T.toKind m.expAvgSq (T.kind parameter)⟩

/-- The loop of `step` over the references of a block of a group. -/
def updateRefs (groupIndex : ℕ) : List ParameterRef → Params T → Table String (Moments T) →
    Outcome AdamWError (Params T × Table String (Moments T))
  | [], params, paramsState => .ok (params, paramsState)
  | ref :: rest, params, paramsState =>
    match i.grads ref.place with
    | none => updateRefs groupIndex rest params paramsState
    | some grad => do
      let m := momentsOf (params ref.place) (paramsState.lookup ref.name)
      let r ← i.update groupIndex grad (params ref.place) m
      updateRefs groupIndex rest (Function.update params ref.place r.1)
        (paramsState.insert ref.name r.2.cpu)

/-- A block, and the state it was loaded with: the parameters, and the state to store. -/
def updateBlock (block : OffloadBlock) (params : Params T) (st : BlockState T) :
    Outcome AdamWError (Params T × BlockState T) := do
  let r ← updateRefs i block.layout.groupIndex block.refs params st.params
  pure (r.1, ⟨i.n, r.2⟩)

/-- The loop of `step` over the active blocks, with calls of their own for each. -/
def stepSingly : List OffloadBlock → Params T → AdamWProg (Params T)
  | [], params => pure params
  | block :: rest, params => do
    let st ← o.loadBlockState F i.n block.id
    let r ← Prog.lift (updateBlock i block params st)
    checkStep i.n
    tell (.storeBlock o.originId (o.inputOf F block r.2))
    stepSingly rest r.1

/-- The loop of `step` over the active blocks, which collects what is to be stored. -/
def updateBlocks (loaded : Table String (BlockState T)) : List OffloadBlock → Params T →
    Outcome AdamWError (Params T × List OptimizerBlockInput)
  | [], params => .ok (params, [])
  | block :: rest, params => do
    let st := (loaded.lookup block.id).getD ⟨i.n, ∅⟩
    let r ← updateBlock i block params st
    let rs ← updateBlocks loaded rest r.1
    pure (rs.1, o.inputOf F block r.2 :: rs.2)

/-- `_store_block_states`. -/
def storeBlockStates (n : ℕ) (inputs : List OptimizerBlockInput) : AdamWProg Unit :=
  if inputs.isEmpty then pure ()
  else do
    checkStep n
    tell (.storeBlocks o.originId inputs)

/-- The active blocks, with calls for all of them. -/
def stepTogether (active : List OffloadBlock) (params : Params T) : AdamWProg (Params T) := do
  let loaded ← o.loadBlockStates F i.n (active.map (·.id))
  let r ← Prog.lift (updateBlocks F o i loaded active params)
  o.storeBlockStates i.n r.2
  pure r.1

/-- A call that names some blocks, unless there is nothing to name. -/
def unlessEmpty (blockIds : List String) (op : List String → OptimizerOp) : AdamWProg Unit :=
  if blockIds.isEmpty then pure () else tell (op blockIds)

/-- `sorted`, of a set. -/
def sorted (blockIds : Finset String) : List String := blockIds.sort

/-- `_update_pin_window`, which returns the new window. -/
def updatePinWindow (u : AdamWState T) (blockIds : List String) : AdamWProg (Finset String) := do
  let target := (blockIds.take (max 1 u.prefetchLookahead)).toFinset
  unlessEmpty (sorted (u.pinnedWindow \ target)) (.unpinBlocks o.originId)
  unlessEmpty (sorted (target \ u.pinnedWindow)) (.pinBlocks o.originId)
  pure target

/-- The end of `step`: the blocks of the step before that were not touched are unpinned, and
counted if that did not fail. -/
def collectStale (u : AdamWState T) (touched : Finset String) : AdamWProg ℕ :=
  let stale := u.previousStepBlocks \ touched
  if stale = ∅ then pure u.gcBlocksCleaned
  else Prog.call (S := facadeSig) (.unpinBlocks o.originId (sorted stale)) fun
    | .ok _ => pure (u.gcBlocksCleaned + stale.card)
    | .err _ => pure u.gcBlocksCleaned
    | .panic => .ret .panic

/-- What a step does to the active blocks. -/
def updateActive (u : AdamWState T) (active : List OffloadBlock) : AdamWProg (Params T) :=
  if u.useBatchStateOps then o.stepTogether F i active u.params
  else o.stepSingly F i active u.params

/-- The flush that is due every so many steps. -/
def flushDue (n : ℕ) (touched : List String) : AdamWProg Unit :=
  if n % o.flushEvery = 0 then unlessEmpty touched (.flushBlocks o.originId) else pure ()

/-- **A step.** -/
def step (groups : ℕ → ParamGroup T) (grads : Gradients T) (u : AdamWState T) :
    AdamWProg (AdamWState T) := do
  let i : StepInput T := ⟨groups, u.stepIndex + 1, grads⟩
  let active := o.activeBlocks grads
  let touched := active.map (·.id)
  let params ← o.updateActive F i u active
  let window ← o.updatePinWindow u touched
  o.flushDue i.n touched
  let cleaned ← o.collectStale u touched.toFinset
  pure
    { u with
      params := params, stepIndex := i.n, pinnedWindow := window,
      previousStepBlocks := touched.toFinset, gcBlocksCleaned := cleaned }

/-- `flush`, of all blocks or of some. -/
def flush : Option (List String) → AdamWProg Unit
  | none => tell (.flushOrigin o.originId)
  | some blockIds => unlessEmpty blockIds (.flushBlocks o.originId)

/-- `external_state_dict`: all blocks are flushed, and what is returned has the settings and the
fingerprint, and no moments. -/
def externalStateDict (u : AdamWState T) : AdamWProg AdamWStateDict := do
  o.flush none
  pure ⟨o.originId, u.stepIndex, u.prefetchLookahead, u.useBatchStateOps, o.fingerprint F⟩

/-- `load_state_dict`: a dictionary of another origin or another layout is refused; the moments are
found in the store when they are needed. -/
def loadStateDict (d : AdamWStateDict) (u : AdamWState T) : AdamWProg (AdamWState T) :=
  if d.originId ≠ o.originId then Prog.raise .originMismatch
  else if d.layoutFingerprint ≠ "" ∧ d.layoutFingerprint ≠ o.fingerprint F then
    Prog.raise .layoutMismatch
  else do
    let u : AdamWState T :=
      { u with
        stepIndex := d.step
        prefetchLookahead := d.prefetchLookahead
        useBatchStateOps := d.useBatchStateOps }
    let window ← o.updatePinWindow u []
    pure { u with pinnedWindow := window }

end SODLAdamW

/-! ### The blocks are a partition -/

/-- Slices of a length, as many as there are, make up a list. -/
theorem flatMap_slices {α : Type} {n : ℕ} (hn : 0 < n) (l : List α) :
    ((List.range ((l.length + n - 1) / n)).flatMap fun k => (l.drop (k * n)).take n) = l := by
  have hfirst : ∀ m, ((List.range m).flatMap fun k => (l.drop (k * n)).take n) =
      l.take (m * n) := by
    intro m
    induction m with
    | zero => simp
    | succ m ih =>
      rw [List.range_succ, List.flatMap_append, ih, Nat.succ_mul, List.take_add]
      simp
  rw [hfirst, List.take_of_length_le]
  have hdiv := Nat.div_add_mod (l.length + n - 1) n
  have hmod := Nat.mod_lt (l.length + n - 1) hn
  rw [Nat.mul_comm] at hdiv
  omega

/-- A number is read up to the first character that is no digit. -/
theorem toString_append_inj {m n : ℕ} {c : Char} {s t : List Char} (hc : c.isDigit = false)
    (h : (toString m).toList ++ c :: s = (toString n).toList ++ c :: t) : m = n ∧ s = t := by
  have hdigits : ∀ k : ℕ, ∀ d ∈ (toString k).toList, d.isDigit = true := by
    intro k d hd
    rw [Nat.toString_eq_repr, Nat.toList_repr] at hd
    exact Nat.isDigit_of_mem_toDigits (by decide) (by decide) hd
  have htake := congrArg (List.takeWhile Char.isDigit) h
  have hdrop := congrArg (List.dropWhile Char.isDigit) h
  simp only [List.takeWhile_append_of_pos (hdigits _), List.takeWhile_cons, hc,
    List.dropWhile_append_of_pos (hdigits _), List.dropWhile_cons, List.append_nil,
    Bool.false_eq_true, if_false] at htake hdrop
  refine ⟨?_, (List.cons.inj hdrop).2⟩
  rw [Nat.toString_eq_repr, Nat.toString_eq_repr, Nat.toList_repr, Nat.toList_repr] at htake
  have hread := congrArg (Nat.ofDigitChars 10 · 0) htake
  simpa only [Nat.ofDigitChars_toDigits (b := 10) (by decide) (by decide)] using hread

namespace SODLAdamW

/-- **The id of a block says which one it is.** -/
theorem blockName_injective {g g' k k' : ℕ} (h : blockName g k = blockName g' k') :
    g = g' ∧ k = k' := by
  have hlist := congrArg String.toList h
  simp only [blockName, String.toList_append, List.append_assoc] at hlist
  have hdash : "-block".toList = '-' :: "block".toList := by decide
  rw [hdash, List.cons_append, List.cons_append] at hlist
  obtain ⟨hg, hrest⟩ := toString_append_inj (by decide) (List.append_cancel_left hlist)
  refine ⟨hg, ?_⟩
  have hk := List.append_cancel_left hrest
  exact (toString_append_inj (c := '-') (s := []) (t := []) (by decide) (by rw [hk])).1

/-- **A layout**: the blocks cut the references into pieces that are of one group and have
distinct names; no two blocks have one id, and no two references one place. -/
structure Laid (refs : List ParameterRef) (blocks : List OffloadBlock) : Prop where
  flatten : blocks.flatMap (·.refs) = refs
  ids : (blocks.map (·.id)).Nodup
  places : (refs.map (·.place)).Nodup
  names : ∀ block ∈ blocks, (block.refs.map (·.name)).Nodup
  groups : ∀ block ∈ blocks, ∀ ref ∈ block.refs, ref.groupIndex = block.layout.groupIndex

/-- The references of a group are of the group. -/
theorem groupRefs_groupIndex {g : ℕ} {names : List (Option String)} {ref : ParameterRef}
    (h : ref ∈ groupRefs g names) : ref.groupIndex = g := by
  obtain ⟨p, -, rfl⟩ := List.mem_map.mp h
  rfl

/-- Lists that are numbered stay apart if their numbers show. -/
theorem nodup_flatMap_zipIdx {α β : Type} {l : List α} {f : α × ℕ → List β} (key : β → ℕ)
    (hf : ∀ p ∈ l.zipIdx, (f p).Nodup) (hkey : ∀ p ∈ l.zipIdx, ∀ b ∈ f p, key b = p.2) :
    (l.zipIdx.flatMap f).Nodup := by
  refine List.nodup_flatMap.mpr ⟨hf, ?_⟩
  have hnodup : (l.zipIdx.map Prod.snd).Nodup := List.nodup_zipIdx_map_snd l
  refine (List.pairwise_map.mp hnodup).imp_of_mem fun {p q} hp hq hne b hb hb' => ?_
  exact hne ((hkey p hp b hb).symm.trans (hkey q hq b hb'))

/-- **`_build_layout` makes a layout**, if the names of each group are distinct. -/
theorem laid_buildLayout {blockSize : ℕ} (hsize : 0 < blockSize) (shape : Place → List ℕ)
    {provided : List (List (Option String))}
    (hnames : ∀ p ∈ provided.zipIdx, ((groupRefs p.2 p.1).map (·.name)).Nodup) :
    Laid (orderedParams provided) (buildLayout blockSize shape provided) := by
  have hblock : ∀ {block}, block ∈ buildLayout blockSize shape provided →
      ∃ p ∈ provided.zipIdx, ∃ k, block = blockOf shape p.2 k
        (((groupRefs p.2 p.1).drop (k * blockSize)).take blockSize) := by
    intro block hblock
    obtain ⟨p, hp, hk⟩ := List.mem_flatMap.mp hblock
    obtain ⟨k, -, rfl⟩ := List.mem_map.mp hk
    exact ⟨p, hp, k, rfl⟩
  have hslice : ∀ (p : List (Option String) × ℕ) k,
      List.Sublist (((groupRefs p.2 p.1).drop (k * blockSize)).take blockSize)
        (groupRefs p.2 p.1) := fun p k => (List.take_sublist _ _).trans (List.drop_sublist _ _)
  constructor
  · rw [buildLayout, orderedParams, List.flatMap_assoc]
    refine List.flatMap_congr fun p _ => ?_
    rw [groupBlocks, List.flatMap_map]
    exact flatMap_slices hsize _
  · rw [buildLayout, List.map_flatMap]
    refine List.nodup_flatMap.mpr ⟨fun p _ => ?_, ?_⟩
    · rw [groupBlocks, List.map_map]
      exact List.nodup_range.map fun k k' h => (blockName_injective h).2
    · have hnodup : (provided.zipIdx.map Prod.snd).Nodup := List.nodup_zipIdx_map_snd provided
      refine (List.pairwise_map.mp hnodup).imp fun {p q} hne id hid hid' => ?_
      obtain ⟨block, hb, rfl⟩ := List.mem_map.mp hid
      obtain ⟨block', hb', hsame⟩ := List.mem_map.mp hid'
      obtain ⟨k, -, rfl⟩ := List.mem_map.mp hb
      obtain ⟨k', -, rfl⟩ := List.mem_map.mp hb'
      exact hne (blockName_injective hsame).1.symm
  · rw [orderedParams, List.map_flatMap]
    refine nodup_flatMap_zipIdx Prod.fst (fun p _ => ?_) fun p _ place hplace => ?_
    · rw [groupRefs, List.map_map]
      refine List.Nodup.of_map Prod.snd ?_
      rw [List.map_map]
      exact List.nodup_zipIdx_map_snd p.1
    · obtain ⟨ref, href, rfl⟩ := List.mem_map.mp hplace
      exact groupRefs_groupIndex href
  · intro block h
    obtain ⟨p, hp, k, rfl⟩ := hblock h
    exact (hnames p hp).sublist ((hslice p k).map _)
  · intro block h ref href
    obtain ⟨p, -, k, rfl⟩ := hblock h
    exact groupRefs_groupIndex ((hslice p k).subset href)

end SODLAdamW

/-! ### One block -/

variable {i : StepInput T} {a a' : PlainState T}

/-- The moments of a parameter are where the parameter is. -/
def PlainState.Placed (a : PlainState T) : Prop :=
  ∀ place m, a.moments place = some m →
    T.kind m.expAvg = T.kind (a.params place) ∧ T.kind m.expAvgSq = T.kind (a.params place)

/-- **The moments that are stored with a block** are those of its parameters, on the CPU. -/
structure Matches (refs : List ParameterRef) (paramsState : Table String (Moments T))
    (a : PlainState T) : Prop where
  lookup : ∀ ref ∈ refs, paramsState.lookup ref.name = (a.moments ref.place).map Moments.cpu
  onCpu : ∀ name m, paramsState.lookup name = some m → ∃ m' : Moments T, m = m'.cpu

/-- Nothing is stored with a block whose parameters have no moments yet. -/
theorem Matches.empty {refs : List ParameterRef} (h : ∀ ref ∈ refs, a.moments ref.place = none) :
    Matches refs ∅ a where
  lookup ref href := by rw [h ref href]; rfl
  onCpu name m hm := absurd hm (by simp)

/-- Only the moments of the block matter. -/
theorem Matches.congr {refs : List ParameterRef} {paramsState : Table String (Moments T)}
    (h : Matches refs paramsState a) (ha : ∀ ref ∈ refs, a'.moments ref.place =
      a.moments ref.place) : Matches refs paramsState a' where
  lookup ref href := by rw [ha ref href]; exact h.lookup ref href
  onCpu := h.onCpu

/-- The moments that come back from the store are those that were kept. -/
theorem momentsOf_cpu (hT : T.Lawful) (ha : a.Placed) (place : Place) :
    SODLAdamW.momentsOf (a.params place) ((a.moments place).map Moments.cpu) =
      (a.moments place).getD (.zeros (a.params place)) := by
  rcases hm : a.moments place with _ | m
  · rfl
  · obtain ⟨h1, h2⟩ := ha place m hm
    have hback : T.toKind (T.cpu m.expAvg) (T.kind (a.params place)) = m.expAvg := by
      rw [← h1, hT.toKind_cpu]
    have hbackSq : T.toKind (T.cpu m.expAvgSq) (T.kind (a.params place)) = m.expAvgSq := by
      rw [← h2, hT.toKind_cpu]
    simp only [Option.map_some, Option.getD_some, SODLAdamW.momentsOf, Moments.cpu, hback,
      hbackSq]

/-- AdamW leaves a parameter and its moments where the parameter is. -/
theorem StepInput.kind_update (hT : T.Lawful) {g : ℕ} {grad : Gradient T} {p : T.Tensor}
    {m : Moments T} {r : T.Tensor × Moments T} (h : i.update g grad p m = .ok r)
    (h1 : T.kind m.expAvg = T.kind p) (h2 : T.kind m.expAvgSq = T.kind p) :
    T.kind r.2.expAvg = T.kind r.1 ∧ T.kind r.2.expAvgSq = T.kind r.1 := by
  rw [StepInput.update] at h
  split at h
  · exact absurd h (by simp)
  · -- every float operation returned
    rcases hadamw : adamw (i.groups g) i.n p m grad.data with text | r'
    · rw [hadamw] at h
      exact absurd h (by simp [ofArithmetic])
    · rw [hadamw] at h
      obtain rfl := Outcome.ok.inj h
      simp only [adamw, bind, Except.bind, pure, Except.pure] at hadamw
      split at hadamw
      · exact absurd hadamw (by simp)
      split at hadamw
      · exact absurd hadamw (by simp)
      split at hadamw
      · exact absurd hadamw (by simp)
      split at hadamw
      · exact absurd hadamw (by simp)
      obtain rfl := Except.ok.inj hadamw
      simp only [hT.kind_add, hT.kind_mulBy, hT.kind_addcmul, hT.kind_addcdiv, h1, h2]
      split
      · exact ⟨rfl, rfl⟩
      · exact ⟨(hT.kind_mulBy _ _).symm, (hT.kind_mulBy _ _).symm⟩

/-- Moments that are where their parameter is stay so when both are replaced by such. -/
theorem PlainState.Placed.set (ha : a.Placed) {place : Place} {r : T.Tensor × Moments T}
    (hr : T.kind r.2.expAvg = T.kind r.1 ∧ T.kind r.2.expAvgSq = T.kind r.1) :
    (a.set place r).Placed := by
  intro place' m hm
  by_cases hp : place' = place
  · subst hp
    rw [PlainState.moments_set_self] at hm
    obtain rfl := Option.some.inj hm
    rw [PlainState.params_set_self]
    exact hr
  · rw [PlainState.moments_set_ne hp] at hm
    rw [PlainState.params_set_ne hp]
    exact ha place' m hm

/-- What is stored with a block goes with the moments of its parameters when one of them is updated
in both. -/
theorem Matches.set {refs : List ParameterRef} {paramsState : Table String (Moments T)}
    (h : Matches refs paramsState a) {ref : ParameterRef}
    (hname : ∀ ref' ∈ refs, ref'.name = ref.name → ref' = ref)
    (hplace : ∀ ref' ∈ refs, ref'.place = ref.place → ref' = ref) (r : T.Tensor × Moments T) :
    Matches refs (paramsState.insert ref.name r.2.cpu) (a.set ref.place r) where
  lookup ref' href' := by
    rw [Table.lookup_insert]
    by_cases hsame : ref'.name = ref.name
    · obtain rfl := hname ref' href' hsame
      rw [if_pos rfl, PlainState.moments_set_self]
      rfl
    · have hp : ref'.place ≠ ref.place := fun hp => hsame (hplace ref' href' hp ▸ rfl)
      rw [if_neg hsame, PlainState.moments_set_ne hp]
      exact h.lookup ref' href'
  onCpu name m hm := by
    rcases Table.lookup_insert_eq_some hm with ⟨-, rfl⟩ | ⟨-, hm⟩
    · exact ⟨r.2, rfl⟩
    · exact h.onCpu name m hm

/-- What the update of a block, and of the plain optimizer, agree on. -/
structure Updated (refs : List ParameterRef) (params : Params T)
    (paramsState : Table String (Moments T)) (a' : PlainState T) : Prop where
  params : params = a'.params
  stored : Matches refs paramsState a'
  placed : a'.Placed

/-- **The update of a block is that of the plain optimizer.** -/
theorem SODLAdamW.updateRefs_related (hT : T.Lawful) {all refs : List ParameterRef} {g : ℕ}
    {paramsState : Table String (Moments T)} (hsub : ∀ ref ∈ refs, ref ∈ all)
    (hnames : (all.map (·.name)).Nodup) (hplaces : (all.map (·.place)).Nodup)
    (hgroup : ∀ ref ∈ refs, ref.groupIndex = g) (hm : Matches all paramsState a)
    (ha : a.Placed) :
    (SODLAdamW.updateRefs i g refs a.params paramsState).Related
      (fun r a' => Updated all r.1 r.2 a' ∧
        ∀ place ∉ refs.map (·.place), a'.moments place = a.moments place)
      (plainRefs i refs a) := by
  induction refs generalizing a paramsState with
  | nil => exact .ok ⟨⟨rfl, hm, ha⟩, fun _ _ => rfl⟩
  | cons ref rest ih =>
    have href := hsub ref (List.mem_cons_self ..)
    have hrest : ∀ ref' ∈ rest, ref' ∈ all := fun ref' h => hsub ref' (List.mem_cons_of_mem _ h)
    have hgroups : ∀ ref' ∈ rest, ref'.groupIndex = g :=
      fun ref' h => hgroup ref' (List.mem_cons_of_mem _ h)
    rw [SODLAdamW.updateRefs, plainRefs]
    rcases hgrad : i.grads ref.place with _ | grad
    · refine (ih hrest hgroups hm ha).mono fun r a' hr => ⟨hr.1, fun place hplace => ?_⟩
      exact hr.2 place fun h => hplace (List.mem_cons_of_mem _ h)
    · dsimp only
      rw [hm.lookup ref href, momentsOf_cpu hT ha, hgroup ref (List.mem_cons_self ..)]
      generalize hm₀ : (a.moments ref.place).getD (.zeros (a.params ref.place)) = m
      have hkind : T.kind m.expAvg = T.kind (a.params ref.place) ∧
          T.kind m.expAvgSq = T.kind (a.params ref.place) := by
        rw [← hm₀]
        rcases hmoments : a.moments ref.place with _ | m'
        · exact ⟨hT.kind_zerosLike _, hT.kind_zerosLike _⟩
        · exact ha ref.place m' hmoments
      rcases hupdate : i.update g grad (a.params ref.place) m with r | e | _
      · have hset := hm.set (fun ref' h hname => List.inj_on_of_nodup_map hnames h href hname)
          (fun ref' h hplace => List.inj_on_of_nodup_map hplaces h href hplace) r
        have hplaced : (a.set ref.place r).Placed :=
          ha.set (StepInput.kind_update hT hupdate hkind.1 hkind.2)
        refine (ih hrest hgroups hset hplaced).mono fun r' a' hr => ⟨hr.1, fun place hplace => ?_⟩
        rw [hr.2 place fun h => hplace (List.mem_cons_of_mem _ h)]
        refine PlainState.moments_set_ne fun h => hplace ?_
        rw [h]
        exact List.mem_cons_self ..
      · exact .err e
      · exact .panic

end Sodl
