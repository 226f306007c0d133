import Mathlib.Algebra.Order.Ring.Rat
import Mathlib.Data.List.MinMax
import Sodl.Data.Alike

/-!
# The registry of nodes

`NodeRegistry` (`src/python/sodl_weights/registry.py`): who is there, and who has lately been heard
of. A node is heard of as it is registered and by its heartbeats. Nothing runs when a node falls
silent; only a call of `healthy_nodes` that finds it silent for too long marks it as unreachable,
and the mark stays until the next heartbeat – also if the timeout should be measured again, and
also in the file, when the registry is saved at that time.

A node is a `NodeInfo` object, which the registry shares with whoever has made it and with whoever
it was returned to. So the registry has the numbers of objects, and a caller sees the marks in the
objects it has (`Sodl.Python.NodeRegistry.shown`). It also gives a marked object back to the
registry as it is: to register it again is a sign of life, but takes no mark off
(`Sodl.nodeRegistry_reregistered`).

`Sodl.Python.NodeRegistry.Marked` says what the marks are worth otherwise: as long as no clock goes
back, a marked node is a silent one. So the registry answers as one that keeps no marks and only
asks when each node was last heard of (`Sodl.Python.SignsOfLife`), in every run, restarts included
(`Sodl.nodeRegistry_answers`).

A role and a status are one of those the SDK names, and numbers are rationals. The metadata of a
node, which is only stored, is left out, and so are a file that cannot be written or read and what
callers write into the objects they have.
-/

namespace Sodl

namespace Python

/-! ### Nodes -/

/-- What a node is for. -/
inductive NodeRole
  | primary | replica | edge | observer
  deriving DecidableEq

/-- How a node is, as far as the registry knows: a heartbeat says that it is healthy, and silence
that it is unreachable. -/
inductive NodeStatus
  | healthy | degraded | unreachable | draining
  deriving DecidableEq

/-- What is known about a storage node: the fields of a `NodeInfo`. -/
structure RegisteredNode where
  id : String
  url : String
  role : NodeRole
  region : String
  capacityGb : ℚ
  usedGb : ℚ
  status : NodeStatus
  lastHeartbeat : ℚ
  deriving DecidableEq

namespace RegisteredNode

variable (node : RegisteredNode)

/-- How full a node is; one without capacity is taken for full. -/
def utilization : ℚ := if node.capacityGb = 0 then 1 else node.usedGb / node.capacityGb

/-- Whether `healthy_nodes` lists a node with the status and the role it has, the timeout apart. -/
def listed (role : Option NodeRole) : Bool :=
  (node.status = .healthy || node.status = .degraded) && role.all fun r => node.role = r

/-- What a registration leaves of an object: a sign of life, and the status as it was. -/
def heard (now : ℚ) : RegisteredNode := { node with lastHeartbeat := now }

/-- What a heartbeat leaves of an object: a sign of life, a healthy status, and the space in use if
it was told. -/
def beaten (now : ℚ) (usedGb : Option ℚ) : RegisteredNode :=
  { node with lastHeartbeat := now, status := .healthy, usedGb := usedGb.getD node.usedGb }

end RegisteredNode

/-- How a registry was set up: how long a node may be silent, and whether the registry is kept in a
file. -/
structure NodeSettings where
  heartbeatTimeout : ℚ
  /-- Whether there is a `persist_path`. -/
  persists : Bool

/-- A registry with the objects of its process, and the file. The registry does not copy what it is
handed: a caller that keeps a `NodeInfo` shares it with the registry, and sees the marks that are
made to it. -/
structure NodeRegistry where
  /-- The `NodeInfo` objects that have been made, by their numbers. -/
  objects : List RegisteredNode
  /-- The object of each node. -/
  nodes : Dict String ℕ
  saved : Option (Dict String RegisteredNode)

namespace NodeRegistry

variable (settings : NodeSettings) (r : NodeRegistry)

/-- The nodes as they are written: `{nid: asdict(node)}`. -/
def contents : Dict String RegisteredNode :=
  r.nodes.filterMap fun row => r.objects[row.2]?.map fun node => (row.1, node)

/-- `_save`: the file is replaced by what the registry has now, if it has one. -/
def save : NodeRegistry :=
  if settings.persists then { r with saved := some r.contents } else r

/-- Some objects as whoever has them sees them at this moment. -/
def shown (objs : List ℕ) : List (ℕ × RegisteredNode) :=
  objs.filterMap fun obj => r.objects[obj]?.map fun node => (obj, node)

/-- A caller makes an object, which no registry knows yet. -/
def create (node : RegisteredNode) : NodeRegistry := { r with objects := r.objects ++ [node] }

/-- `__init__` in a new process, which loads the file if there is one: the objects are new ones,
with what was written. -/
def reopen : NodeRegistry :=
  let loaded := if settings.persists then r.saved.getD [] else []
  { r with
    objects := loaded.map Prod.snd
    nodes := Dict.update [] (loaded.map Prod.fst).zipIdx }

/-- Register or update a node: the object that is handed in is kept, with a sign of life, and the
file is saved. -/
def register (now : ℚ) (obj : ℕ) : NodeRegistry :=
  match r.objects[obj]? with
  | none => r
  | some node =>
    save settings
      { r with
        objects := r.objects.modify obj fun node => node.heard now
        nodes := r.nodes.set node.id obj }

/-- Remove a node from the registry, and save the file; the object that is returned may carry a
mark. -/
def deregister (id : String) : Option ℕ × NodeRegistry :=
  (r.nodes.get? id, save settings { r with nodes := r.nodes.erase id })

/-- Record a heartbeat from a node that is registered. The file is not saved. -/
def heartbeat (now : ℚ) (id : String) (usedGb : Option ℚ) : Bool × NodeRegistry :=
  match r.nodes.get? id with
  | none => (false, r)
  | some obj =>
    (true, { r with objects := r.objects.modify obj fun node => node.beaten now usedGb })

/-- The mark a node gets that has been silent for longer than the timeout; other nodes are left as
they are. -/
def mark (now : ℚ) (node : RegisteredNode) : RegisteredNode :=
  if settings.heartbeatTimeout < now - node.lastHeartbeat then { node with status := .unreachable }
  else node

/-- The loop of `healthy_nodes`, over the objects of some nodes. -/
def healthyFrom (now : ℚ) (role : Option NodeRole) :
    List ℕ → List RegisteredNode → List ℕ × List RegisteredNode
  | [], objects => ([], objects)
  | obj :: rest, objects =>
    let objects := objects.modify obj (mark settings now)
    let (result, marked) := healthyFrom now role rest objects
    (if objects[obj]?.any fun node => node.listed role then obj :: result else result, marked)

/-- List all healthy nodes, of a role or of all, and mark the ones that have been silent too
long. -/
def healthyNodes (now : ℚ) (role : Option NodeRole) : List ℕ × NodeRegistry :=
  let (result, objects) := healthyFrom settings now role (r.nodes.map Prod.snd) r.objects
  (result, { r with objects := objects })

/-- List all registered nodes, healthy or not. -/
def allNodes : List ℕ := r.nodes.map Prod.snd

/-- List the nodes of a region, healthy or not. -/
def nodesByRegion (region : String) : List ℕ :=
  r.allNodes.filter fun obj => r.objects[obj]?.any fun node => node.region = region

/-- Of some objects, the one with the lowest utilization, the first one of those. -/
def lowest (objs : List ℕ) : List (ℕ × RegisteredNode) :=
  ((r.shown objs).argmin fun e => e.2.utilization).toList

/-- How many nodes are registered. -/
def nodeCount : ℕ := r.nodes.length

end NodeRegistry

/-! ### Calls -/

/-- The calls of the registry, with the time the clock tells. -/
inductive NodesCall
  /-- A caller makes an object of its own. -/
  | create (node : RegisteredNode)
  | register (now : ℚ) (obj : ℕ)
  | deregister (id : String)
  | get (id : String)
  | heartbeat (now : ℚ) (id : String) (usedGb : Option ℚ)
  | healthyNodes (now : ℚ) (role : Option NodeRole)
  | allNodes
  | nodesByRegion (region : String)
  | leastLoaded (now : ℚ) (role : Option NodeRole)
  | nodeCount
  /-- A new process opens the registry over the same file. -/
  | reopen

/-- What a call answers: whether, how many, or which objects, with what is in them then. -/
inductive NodesReply
  | done
  | whether (b : Bool)
  | nodes (nodes : List (ℕ × RegisteredNode))
  | count (n : ℕ)

/-- The time a call is made at, for those that look at the clock. -/
def NodesCall.time : NodesCall → Option ℚ
  | .register now _ => some now
  | .heartbeat now _ _ => some now
  | .healthyNodes now _ => some now
  | .leastLoaded now _ => some now
  | _ => none

/-- A call, with what it answers, and the registry after it. -/
def NodeRegistry.call (settings : NodeSettings) (r : NodeRegistry) :
    NodesCall → NodesReply × NodeRegistry
  | .create node => (.nodes [(r.objects.length, node)], r.create node)
  | .register now obj => (.done, r.register settings now obj)
  | .deregister id =>
    (.nodes (r.shown (r.deregister settings id).1.toList), (r.deregister settings id).2)
  | .get id => (.nodes (r.shown (r.nodes.get? id).toList), r)
  | .heartbeat now id usedGb =>
    (.whether (r.heartbeat now id usedGb).1, (r.heartbeat now id usedGb).2)
  | .healthyNodes now role =>
    let (result, r) := r.healthyNodes settings now role
    (.nodes (r.shown result), r)
  | .allNodes => (.nodes (r.shown r.allNodes), r)
  | .nodesByRegion region => (.nodes (r.shown (r.nodesByRegion region)), r)
  | .leastLoaded now role =>
    let (candidates, r) := r.healthyNodes settings now role
    (.nodes (r.lowest candidates), r)
  | .nodeCount => (.count r.nodeCount, r)
  | .reopen => (.done, r.reopen settings)

/-- The replies of some calls, one after the other. -/
def NodeRegistry.replies (settings : NodeSettings) :
    List NodesCall → NodeRegistry → List NodesReply
  | [], _ => []
  | c :: rest, r => (r.call settings c).1 :: replies settings rest (r.call settings c).2

/-! ### Signs of life

The registry as it is meant: each node with the time it was last heard of, and whether that is too
long ago is asked when it matters. -/

namespace SignsOfLife

variable (settings : NodeSettings) (r : NodeRegistry)

/-- Whether a node counts as healthy at a time: it has been heard of within the timeout, and was
healthy or degraded then. -/
def alive (now : ℚ) (role : Option NodeRole) (node : RegisteredNode) : Bool :=
  now - node.lastHeartbeat ≤ settings.heartbeatTimeout && node.listed role

/-- List all healthy nodes, of a role or of all, by when they were heard of. -/
def healthyNodes (now : ℚ) (role : Option NodeRole) : List ℕ :=
  r.allNodes.filter fun obj => r.objects[obj]?.any (alive settings now role)

/-- A call, of which those that look for healthy nodes change nothing. -/
def call : NodesCall → NodesReply × NodeRegistry
  | .healthyNodes now role => (.nodes (r.shown (healthyNodes settings r now role)), r)
  | .leastLoaded now role => (.nodes (r.lowest (healthyNodes settings r now role)), r)
  | other => r.call settings other

end SignsOfLife

/-! ### Runs -/

/-- Calls whose times do not go back, from a time on. -/
def Timely : ℚ → List NodesCall → Prop
  | _, [] => True
  | clock, c :: rest => (∀ now ∈ c.time, clock ≤ now) ∧ Timely (c.time.getD clock) rest

instance : ∀ (clock : ℚ) (calls : List NodesCall), Decidable (Timely clock calls)
  | _, [] => inferInstanceAs (Decidable True)
  | clock, c :: rest =>
    have : Decidable (Timely (c.time.getD clock) rest) := instDecidableTimely _ rest
    have : Decidable (∀ now ∈ c.time, clock ≤ now) :=
      match c.time with
      | none => isTrue fun _ h => absurd h (Option.not_mem_none _)
      | some now => decidable_of_iff (clock ≤ now) (by simp)
    inferInstanceAs (Decidable (_ ∧ _))

/-- A call that registers no object with a mark. -/
def NodeRegistry.unmarked (r : NodeRegistry) : NodesCall → Bool
  | .register _ obj => r.objects[obj]?.all fun node => node.status ≠ .unreachable
  | _ => true

/-- A run in which no object is registered with a mark. -/
def Unmarked (settings : NodeSettings) : List NodesCall → NodeRegistry → Bool
  | [], _ => true
  | c :: rest, r => r.unmarked c && Unmarked settings rest (r.call settings c).2

/-- A node with a mark, or without: a mark there is only on a node that has been silent for too
long. -/
def NodeRegistry.Marked (settings : NodeSettings) (now : ℚ) (node truly : RegisteredNode) : Prop :=
  node = truly ∨ (node = { truly with status := .unreachable } ∧
    settings.heartbeatTimeout < now - truly.lastHeartbeat)

/-- Two replies with the same objects, which may be marked in the first one. -/
inductive NodesReply.UpToMarks (settings : NodeSettings) (now : ℚ) : NodesReply → NodesReply → Prop
  | nodes {l l' : List (ℕ × RegisteredNode)}
      (h : Dict.Alike (NodeRegistry.Marked settings now) l l') :
      UpToMarks settings now (.nodes l) (.nodes l')

/-- How the reply of a call compares to that of a registry without marks: the nodes that are found
by anything but their health are found with the mark they may have. -/
def NodesCall.Answered (settings : NodeSettings) (now : ℚ) (c : NodesCall)
    (reply known : NodesReply) : Prop :=
  match c with
  | .deregister _ | .get _ | .allNodes | .nodesByRegion _ => reply.UpToMarks settings now known
  | _ => reply = known

/-- **The replies of a run are those of signs of life**, call by call from a time on. -/
def Answers (settings : NodeSettings) : ℚ → List NodesCall → NodeRegistry → NodeRegistry → Prop
  | _, [], _, _ => True
  | clock, c :: rest, r, known =>
    c.Answered settings (c.time.getD clock) (r.call settings c).1
        (SignsOfLife.call settings known c).1 ∧
      Answers settings (c.time.getD clock) rest (r.call settings c).2
        (SignsOfLife.call settings known c).2

/-! ### What the marks are worth -/

namespace NodeRegistry

variable {settings : NodeSettings} {now later : ℚ} {node truly : RegisteredNode}
  {role : Option NodeRole}

/-- A mark that may be there may be there later. -/
theorem Marked.mono (h : Marked settings now node truly) (hle : now ≤ later) :
    Marked settings later node truly := by
  rcases h with rfl | ⟨rfl, hsilent⟩
  · exact Or.inl rfl
  · exact Or.inr ⟨rfl, hsilent.trans_le (sub_le_sub_right hle _)⟩

/-- The mark is what a mark may be. -/
theorem Marked.mark (h : Marked settings now node truly) :
    Marked settings now (NodeRegistry.mark settings now node) truly := by
  rw [NodeRegistry.mark]
  split
  · rename_i hsilent
    rcases h with rfl | ⟨rfl, -⟩
    · exact Or.inr ⟨rfl, hsilent⟩
    · exact Or.inr ⟨rfl, hsilent⟩
  · exact h

/-- **A node is listed exactly if it has been heard of lately**, mark or no mark. -/
theorem Marked.listed (h : Marked settings now node truly) :
    (NodeRegistry.mark settings now node).listed role =
      SignsOfLife.alive settings now role truly := by
  have hlast : node.lastHeartbeat = truly.lastHeartbeat := by
    rcases h with rfl | ⟨rfl, -⟩
    · rfl
    · rfl
  rw [NodeRegistry.mark, SignsOfLife.alive, hlast]
  by_cases hsilent : settings.heartbeatTimeout < now - truly.lastHeartbeat
  · rw [if_pos hsilent, decide_eq_false (not_le.mpr hsilent), Bool.false_and]
    rfl
  · rw [if_neg hsilent, decide_eq_true (not_lt.mp hsilent), Bool.true_and]
    rw [h.resolve_right fun hmarked => hsilent hmarked.2]

/-- A node that has been heard of lately has no mark. -/
theorem Marked.eq_of_alive (h : Marked settings now node truly)
    (halive : SignsOfLife.alive settings now role truly = true) : node = truly := by
  rw [SignsOfLife.alive, Bool.and_eq_true] at halive
  exact h.resolve_right fun hmarked => absurd (of_decide_eq_true halive.1) (not_le.mpr hmarked.2)

/-- A node that does not look marked is not. -/
theorem Marked.eq_of_unmarked (h : Marked settings now node truly)
    (hstatus : node.status ≠ .unreachable) : node = truly := by
  rcases h with rfl | ⟨rfl, -⟩
  · rfl
  · exact absurd rfl hstatus

/-- A heartbeat takes the mark off. -/
theorem Marked.beaten (h : Marked settings now node truly) (t : ℚ) (usedGb : Option ℚ) :
    node.beaten t usedGb = truly.beaten t usedGb := by
  rcases h with rfl | ⟨rfl, -⟩
  · rfl
  · rfl

/-- A mark is no change of region. -/
theorem Marked.region (h : Marked settings now node truly) : node.region = truly.region := by
  rcases h with rfl | ⟨rfl, -⟩
  · rfl
  · rfl

variable (settings) in
/-- The registry keeps what is known of the nodes, with marks as they may be at a time, in its
objects and in its file. -/
structure Follows (now : ℚ) (r known : NodeRegistry) : Prop where
  objects : List.Forall₂ (Marked settings now) r.objects known.objects
  nodes : r.nodes = known.nodes
  saved : Option.Rel (Dict.Alike (Marked settings now)) r.saved known.saved

variable {r known : NodeRegistry}

/-- A registry keeps what it has. -/
theorem Follows.refl (now : ℚ) (r : NodeRegistry) : Follows settings now r r := by
  have hself : ∀ node, Marked settings now node node := fun _ => Or.inl rfl
  refine ⟨List.forall₂_same.mpr fun node _ => hself node, rfl, ?_⟩
  cases r.saved with
  | none => exact Option.Rel.none
  | some d => exact Option.Rel.some (Dict.Alike.refl hself d)

/-- What is kept with the marks of a time is kept with those of a later one. -/
theorem Follows.mono (h : Follows settings now r known) (hle : now ≤ later) :
    Follows settings later r known := by
  have hsub : ∀ node truly, Marked settings now node truly → Marked settings later node truly :=
    fun _ _ hmarked => hmarked.mono hle
  obtain ⟨objects, nodes, saved⟩ := r
  obtain ⟨objects', nodes', saved'⟩ := known
  obtain ⟨hobjects, hnodes, hsaved⟩ := h
  refine ⟨hobjects.imp hsub, hnodes, ?_⟩
  cases hsaved with
  | some hd => exact Option.Rel.some (hd.mono hsub)
  | none => exact Option.Rel.none

/-- Some objects are shown, up to their marks. -/
theorem Follows.shown (h : Follows settings now r known) (objs : List ℕ) :
    Dict.Alike (Marked settings now) (r.shown objs) (known.shown objs) := by
  have halike := Dict.alike_filterMap_getElem? h.objects (objs.map fun obj => (obj, obj))
  rwa [List.filterMap_map, List.filterMap_map] at halike

/-- An object is asked something that does not depend on its mark. -/
theorem Follows.any_eq (h : Follows settings now r known) {p q : RegisteredNode → Bool}
    (hpq : ∀ node truly, Marked settings now node truly → p node = q truly) (obj : ℕ) :
    r.objects[obj]?.any p = known.objects[obj]?.any q := by
  have hrel := h.objects.getElem?_rel obj
  generalize r.objects[obj]? = found at hrel ⊢
  generalize known.objects[obj]? = found' at hrel ⊢
  cases hrel with
  | some hmarked => exact hpq _ _ hmarked
  | none => rfl

/-- Saving what is known: the file then has the marks that the objects have. -/
theorem Follows.save (h : Follows settings now r known) :
    Follows settings now (NodeRegistry.save settings r) (NodeRegistry.save settings known) := by
  rw [NodeRegistry.save, NodeRegistry.save]
  split
  · refine ⟨h.objects, h.nodes, Option.Rel.some ?_⟩
    rw [contents, contents, h.nodes]
    exact Dict.alike_filterMap_getElem? h.objects _
  · exact h

/-- An object that is made is the same in both. -/
theorem Follows.create (h : Follows settings now r known) (node : RegisteredNode) :
    Follows settings now (r.create node) (known.create node) :=
  ⟨List.rel_append h.objects (List.Forall₂.cons (Or.inl rfl) List.Forall₂.nil), h.nodes, h.saved⟩

/-- An object without a mark is registered. -/
theorem Follows.register (h : Follows settings now r known) {obj : ℕ}
    (hunmarked : r.objects[obj]?.all fun node => node.status ≠ .unreachable) :
    Follows settings now (r.register settings now obj) (known.register settings now obj) := by
  have hrel := h.objects.getElem?_rel obj
  rw [NodeRegistry.register, NodeRegistry.register]
  rcases hr : r.objects[obj]? with _ | node
  · rcases hknown : known.objects[obj]? with _ | truly
    · exact h
    · rw [hr, hknown] at hrel
      cases hrel
  · rcases hknown : known.objects[obj]? with _ | truly
    · rw [hr, hknown] at hrel
      cases hrel
    · rw [hr, hknown] at hrel
      obtain ⟨hmarked⟩ := hrel
      rw [hr, Option.all_some, decide_eq_true_eq] at hunmarked
      obtain rfl := hmarked.eq_of_unmarked hunmarked
      refine Follows.save ⟨h.objects.modify_modify fun a b ha hb _ => Or.inl ?_, ?_, h.saved⟩
      · rw [hr] at ha
        rw [hknown] at hb
        rw [← Option.some.inj ha, ← Option.some.inj hb]
      · exact congrArg (fun nodes : Dict String ℕ => nodes.set node.id obj) h.nodes

/-- Removing a node leaves what is known of the others. -/
theorem Follows.deregister (h : Follows settings now r known) (id : String) :
    Follows settings now (r.deregister settings id).2 (known.deregister settings id).2 :=
  Follows.save ⟨h.objects, congrArg (fun nodes : Dict String ℕ => nodes.erase id) h.nodes, h.saved⟩

/-- A heartbeat takes the mark of a node off, and answers the same. -/
theorem Follows.heartbeat (h : Follows settings now r known) (id : String) (usedGb : Option ℚ) :
    (r.heartbeat now id usedGb).1 = (known.heartbeat now id usedGb).1 ∧
      Follows settings now (r.heartbeat now id usedGb).2 (known.heartbeat now id usedGb).2 := by
  rw [NodeRegistry.heartbeat, NodeRegistry.heartbeat, h.nodes]
  rcases known.nodes.get? id with _ | obj
  · exact ⟨rfl, h⟩
  · exact ⟨rfl, h.objects.modify_modify fun _ _ _ _ hmarked => Or.inl (hmarked.beaten now usedGb),
      rfl, h.saved⟩

/-- **The loop of `healthy_nodes`** marks some objects, and finds those that were heard of lately;
by induction on the objects it goes through. -/
theorem healthyFrom_spec {known : List RegisteredNode} (role : Option NodeRole) (objs : List ℕ)
    {objects : List RegisteredNode} (h : List.Forall₂ (Marked settings now) objects known) :
    (healthyFrom settings now role objs objects).1 =
        objs.filter (fun obj => known[obj]?.any (SignsOfLife.alive settings now role)) ∧
      List.Forall₂ (Marked settings now) (healthyFrom settings now role objs objects).2 known := by
  induction objs generalizing objects with
  | nil => exact ⟨rfl, h⟩
  | cons obj rest ih =>
    have hmarked : List.Forall₂ (Marked settings now)
        (objects.modify obj (NodeRegistry.mark settings now)) known :=
      h.modify_left fun _ _ hab => hab.mark
    have htest : ((objects.modify obj (NodeRegistry.mark settings now))[obj]?.any fun node =>
        node.listed role) = known[obj]?.any (SignsOfLife.alive settings now role) := by
      have hrel := h.getElem?_rel obj
      rw [List.getElem?_modify_eq]
      generalize objects[obj]? = found at hrel ⊢
      generalize known[obj]? = found' at hrel ⊢
      cases hrel with
      | some hab => exact hab.listed
      | none => rfl
    obtain ⟨hresult, hobjects⟩ := ih hmarked
    refine ⟨?_, hobjects⟩
    rw [healthyFrom, List.filter_cons, ← hresult, ← htest]

/-- Asking for the healthy nodes finds those that were heard of lately, and leaves what is known. -/
theorem Follows.healthyNodes (h : Follows settings now r known) (role : Option NodeRole) :
    (r.healthyNodes settings now role).1 = SignsOfLife.healthyNodes settings known now role ∧
      Follows settings now (r.healthyNodes settings now role).2 known := by
  obtain ⟨hresult, hobjects⟩ := healthyFrom_spec role (r.nodes.map Prod.snd) h.objects
  refine ⟨hresult.trans ?_, hobjects, h.nodes, h.saved⟩
  rw [h.nodes]
  rfl

/-- The healthy nodes are shown as they truly are. -/
theorem Follows.shown_healthy (h : Follows settings now r known) (role : Option NodeRole) :
    r.shown (SignsOfLife.healthyNodes settings known now role) =
      known.shown (SignsOfLife.healthyNodes settings known now role) := by
  refine List.filterMap_congr fun obj hobj => ?_
  have halive := (List.mem_filter.mp hobj).2
  have hrel := h.objects.getElem?_rel obj
  generalize r.objects[obj]? = found at hrel ⊢
  generalize known.objects[obj]? = found' at hrel halive ⊢
  cases hrel with
  | some hmarked => rw [hmarked.eq_of_alive halive]
  | none => rfl

/-- A new process knows what was in the file, with the marks that were in it. -/
theorem Follows.reopen (h : Follows settings now r known) :
    Follows settings now (r.reopen settings) (known.reopen settings) := by
  have hloaded : Dict.Alike (Marked settings now)
      (if settings.persists then r.saved.getD [] else [])
      (if settings.persists then known.saved.getD [] else []) := by
    have hsaved := h.saved
    generalize r.saved = file at hsaved ⊢
    generalize known.saved = file' at hsaved ⊢
    split
    · cases hsaved with
      | some hd => exact hd
      | none => exact Dict.Alike.nil
    · exact Dict.Alike.nil
  refine ⟨hloaded.values, ?_, h.saved⟩
  exact congrArg (fun keys : List String => Dict.update [] keys.zipIdx) hloaded.keys

/-- **A call is answered as by a registry that keeps no marks**, and leaves what is known. -/
theorem Follows.call (h : Follows settings now r known) (c : NodesCall)
    (htime : ∀ t ∈ c.time, now ≤ t) (hunmarked : r.unmarked c = true) :
    c.Answered settings (c.time.getD now) (r.call settings c).1
        (SignsOfLife.call settings known c).1 ∧
      Follows settings (c.time.getD now) (r.call settings c).2
        (SignsOfLife.call settings known c).2 := by
  cases c with
  | create node =>
    exact ⟨congrArg (fun n => NodesReply.nodes [(n, node)]) h.objects.length_eq, h.create node⟩
  | register t obj => exact ⟨rfl, (h.mono (htime t rfl)).register hunmarked⟩
  | deregister id =>
    refine ⟨NodesReply.UpToMarks.nodes ?_, h.deregister id⟩
    have hfound : (r.deregister settings id).1 = (known.deregister settings id).1 :=
      congrArg (fun nodes : Dict String ℕ => nodes.get? id) h.nodes
    rw [hfound]
    exact h.shown _
  | get id =>
    refine ⟨NodesReply.UpToMarks.nodes ?_, h⟩
    rw [h.nodes]
    exact h.shown _
  | heartbeat t id usedGb =>
    obtain ⟨heq, hfollows⟩ := (h.mono (htime t rfl)).heartbeat id usedGb
    exact ⟨congrArg NodesReply.whether heq, hfollows⟩
  | healthyNodes t role =>
    obtain ⟨heq, hfollows⟩ := (h.mono (htime t rfl)).healthyNodes role
    have hshown : (r.healthyNodes settings t role).2.shown (r.healthyNodes settings t role).1 =
        known.shown (SignsOfLife.healthyNodes settings known t role) := by
      rw [heq]
      exact hfollows.shown_healthy role
    exact ⟨congrArg NodesReply.nodes hshown, hfollows⟩
  | allNodes =>
    refine ⟨NodesReply.UpToMarks.nodes ?_, h⟩
    rw [allNodes, allNodes, h.nodes]
    exact h.shown _
  | nodesByRegion region =>
    refine ⟨NodesReply.UpToMarks.nodes ?_, h⟩
    have hregion : r.nodesByRegion region = known.nodesByRegion region := by
      rw [nodesByRegion, nodesByRegion, allNodes, allNodes, h.nodes]
      refine List.filter_congr fun obj _ => h.any_eq (fun node truly hmarked => ?_) obj
      rw [hmarked.region]
    rw [hregion]
    exact h.shown _
  | leastLoaded t role =>
    obtain ⟨heq, hfollows⟩ := (h.mono (htime t rfl)).healthyNodes role
    have hlowest : (r.healthyNodes settings t role).2.lowest (r.healthyNodes settings t role).1 =
        known.lowest (SignsOfLife.healthyNodes settings known t role) := by
      rw [heq, lowest, lowest, hfollows.shown_healthy role]
    exact ⟨congrArg NodesReply.nodes hlowest, hfollows⟩
  | nodeCount =>
    exact ⟨congrArg (fun nodes : Dict String ℕ => NodesReply.count nodes.length) h.nodes, h⟩
  | reopen => exact ⟨rfl, h.reopen⟩

/-- The calls of a run, by induction on them. -/
theorem Follows.answers {calls : List NodesCall} (h : Follows settings now r known)
    (htimely : Timely now calls) (hunmarked : Unmarked settings calls r = true) :
    Answers settings now calls r known := by
  induction calls generalizing now r known with
  | nil => trivial
  | cons c rest ih =>
    rw [Unmarked, Bool.and_eq_true] at hunmarked
    obtain ⟨hanswered, hfollows⟩ := h.call c htimely.1 hunmarked.1
    exact ⟨hanswered, ih hfollows htimely.2 hunmarked.2⟩

end NodeRegistry

end Python

private def oneMinute : Python.NodeSettings := ⟨60, true⟩

private def westNode : Python.RegisteredNode :=
  ⟨"west", "http://west", .replica, "west", 100, 10, .healthy, 0⟩

private def idsOf : Python.NodesReply → List String
  | .nodes nodes => nodes.map fun e => e.2.id
  | _ => []

/-- **A marked object that is registered again** is not listed, although it has just been heard of:
only a heartbeat takes the mark off. -/
theorem nodeRegistry_reregistered :
    (Python.NodeRegistry.replies oneMinute [.create westNode, .register 0 0, .healthyNodes 100 none,
        .register 100 0, .healthyNodes 100 none, .heartbeat 100 "west" none,
        .healthyNodes 100 none] ⟨[], [], none⟩).map idsOf =
      [["west"], [], [], [], [], [], ["west"]] := by
  decide +kernel

end Sodl
