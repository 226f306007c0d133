import Sodl.Cas
import Sodl.Stores

/-!
# Replicas

Where the bytes of a blob are said to be, and the repair of a blob that is said to be in
too few places (`crates/sodl-replica/src/lib.rs`). A replica record names a node, what
state the replica is in and when it was last seen; records are kept one for each blob and
node. A mesh gives access to the stores of the nodes, which the executor of a repair plan
asks, copies to and then records as healthy.

A node of the mesh may have no store to offer, and a store may not work: it is down, or
cannot be read, or cannot be written (`Sodl.StoreStatus`). Two nodes may share a store, so
that nodes lead to the contents of stores through handles.
-/

namespace Sodl

open Effect

/-! ### Records -/

inductive ReplicaState
  | healthy
  | unknown
  | dead
  deriving DecidableEq

structure ReplicaRecord where
  blobId : BlobId
  nodeId : String
  state : ReplicaState
  lastSeen : OffsetDateTime
  deriving DecidableEq

/-- A blob that needs additional healthy replicas, with what the policy asks for and what was
counted. -/
structure RepairItem where
  blobId : BlobId
  required : ℤ
  healthy : ℤ
  missing : ℤ
  deriving DecidableEq

/-- Durability repair plan: the blobs to repair, in the order in which they are repaired. -/
structure RepairPlan where
  items : List RepairItem
  deriving DecidableEq

/-- `Duration::whole_seconds`, of a number of nanoseconds, which rounds towards zero. -/
def wholeSeconds (d : ℤ) : ℤ := d.tdiv 1000000000

/-- The in-memory replica store: records under their blob and their node, so that there is one for
each of the pairs. -/
structure MemReplicaStore where
  inner : Table (String × String) ReplicaRecord
  keyed : ∀ k r, inner.lookup k = some r → k = (r.blobId.val, r.nodeId)

namespace MemReplicaStore

/-- `MemReplicaStore::new`. -/
def new : MemReplicaStore := ⟨∅, fun k r h => absurd h (by simp)⟩

def upsertReplica (rs : MemReplicaStore) (r : ReplicaRecord) : MemReplicaStore where
  inner := rs.inner.insert (r.blobId.val, r.nodeId) r
  keyed k r' h := by
    rcases Table.lookup_insert_eq_some h with ⟨rfl, rfl⟩ | ⟨-, hl⟩
    · rfl
    · exact rs.keyed k r' hl

def listReplicas (rs : MemReplicaStore) (b : BlobId) : List ReplicaRecord :=
  (rs.inner.entries.map Sigma.snd).filter fun r => r.blobId.val = b.val

/-- The number of healthy replicas that were seen lately enough, by the whole seconds since. -/
def healthyCountWithStale (rs : MemReplicaStore) (b : BlobId) (staleSeconds : ℤ)
    (now : OffsetDateTime) : ℤ :=
  let step (n : ℤ) (r : ReplicaRecord) : ℤ :=
    if r.state ≠ .healthy then n
    -- a replica seen in the future is not stale
    else if wholeSeconds (now - r.lastSeen) ≤ staleSeconds then n + 1
    else n
  (rs.listReplicas b).foldl step 0

end MemReplicaStore

/-! ### The mesh -/

/-- How far a store works: it may take, give and tell, or less and less of these. -/
inductive StoreStatus
  | working
  /-- It has what it has, and takes nothing. -/
  | readOnly (e : SodlError)
  /-- It says what it has, and neither gives it nor takes anything. -/
  | unreadable (e : SodlError)
  /-- It answers nothing. -/
  | down (e : SodlError)
  deriving DecidableEq

/-- A node: its store, or what `StoreMesh::store` fails with where it has none. -/
structure MeshNode where
  nodeId : String
  store : Except SodlError ℕ

/-- A mesh of nodes, in the order in which `node_ids` names them, no two under one id. -/
structure Mesh where
  nodes : List MeshNode
  distinct : (nodes.map MeshNode.nodeId).Nodup
  /-- How far the store behind a handle works. -/
  status : ℕ → StoreStatus

/-- The calls of the executor: to the mesh and its stores, to the replica store, and to
the clock. -/
inductive MeshCall
  | nodeIds
  | store (nodeId : String)
  | has (st : ℕ) (b : BlobId)
  | get (st : ℕ) (b : BlobId)
  | put (st : ℕ) (b : BlobId) (data : Bytes)
  | listReplicas (b : BlobId)
  | upsertReplica (r : ReplicaRecord)
  | nowUtc

/-- What a call replies with, if it does not fail. -/
@[reducible] def MeshCall.Ret : MeshCall → Type
  | .nodeIds => List String
  | .store _ => ℕ
  | .has _ _ => Bool
  | .get _ _ => Bytes
  | .listReplicas _ => List ReplicaRecord
  | .nowUtc => OffsetDateTime
  | _ => Unit

/-- The signature of the mesh: what the executor calls, and the errors it may get. -/
@[reducible] def meshSig : Sig := ⟨SodlError, MeshCall, MeshCall.Ret⟩

/-- A routine over the mesh that returns a `Result`, as the executor is made of. -/
abbrev MeshProg (α : Type) : Type := Prog meshSig SodlError α

namespace MeshProg

/-- Make one call. -/
abbrev invoke (c : MeshCall) : MeshProg (MeshCall.Ret c) := Prog.perform (S := meshSig) c

abbrev nodeIds : MeshProg (List String) := invoke .nodeIds
abbrev store (nodeId : String) : MeshProg ℕ := invoke (.store nodeId)
abbrev has (st : ℕ) (b : BlobId) : MeshProg Bool := invoke (.has st b)
abbrev get (st : ℕ) (b : BlobId) : MeshProg Bytes := invoke (.get st b)
abbrev put (st : ℕ) (b : BlobId) (data : Bytes) : MeshProg Unit := invoke (.put st b data)
abbrev listReplicas (b : BlobId) : MeshProg (List ReplicaRecord) := invoke (.listReplicas b)
abbrev upsertReplica (r : ReplicaRecord) : MeshProg Unit := invoke (.upsertReplica r)
abbrev nowUtc : MeshProg OffsetDateTime := invoke .nowUtc

end MeshProg

/-- A mesh, what its stores contain, the replica store and the clock; and the records
that were upserted, which nothing reads. -/
structure MeshState where
  mesh : Mesh
  contents : ℕ → Table BlobId Bytes
  replicas : MemReplicaStore
  clock : ℕ → OffsetDateTime
  upserted : List ReplicaRecord

namespace MeshState

/-- `StoreMesh::store`, of an id that a node of the mesh may have or not. -/
def storeOf (m : MeshState) (nodeId : String) : Except SodlError ℕ :=
  match m.mesh.nodes.find? fun n => n.nodeId = nodeId with
  | some n => n.store
  | none => .error .notFound

/-- What each call does. Only a put changes what the stores have, and only an upsert the records. -/
def handle : Handler meshSig MeshState
  | .nodeIds, m => (.ok (m.mesh.nodes.map MeshNode.nodeId), m)
  | .store nodeId, m =>
    match m.storeOf nodeId with
    | .ok st => (.ok st, m)
    | .error e => (.err e, m)
  | .has st b, m =>
    match m.mesh.status st with
    | .down e => (.err e, m)
    | _ => (.ok ((m.contents st).lookup b).isSome, m)
  | .get st b, m =>
    match m.mesh.status st with
    | .down e => (.err e, m)
    | .unreadable e => (.err e, m)
    | _ =>
      match (m.contents st).lookup b with
      | some data => (.ok data, m)
      | none => (.err .notFound, m)
  | .put st b data, m =>
    match m.mesh.status st with
    | .working =>
      (.ok (), { m with contents := Function.update m.contents st ((m.contents st).insert b data) })
    | .readOnly e => (.err e, m)
    | .unreadable e => (.err e, m)
    | .down e => (.err e, m)
  | .listReplicas b, m => (.ok (m.replicas.listReplicas b), m)
  | .upsertReplica r, m =>
    (.ok (), { m with replicas := m.replicas.upsertReplica r, upserted := m.upserted ++ [r] })
  | .nowUtc, m => (.ok (m.clock 0), { m with clock := fun n => m.clock (n + 1) })

end MeshState

/-! ### The executor -/

namespace ReplicaExecutor

/-- The first node that has the bytes, in the order of the mesh, whether it is known to be healthy
or not. -/
def findSource (b : BlobId) : List String → MeshProg (Option String)
  | [] => pure none
  | nodeId :: nodeIds => do
    -- a node that does not answer ends the search with its error
    let st ← MeshProg.store nodeId
    let found ← MeshProg.has st b
    if found then pure (some nodeId) else findSource b nodeIds

/-- The record of a replica that was just made, or found where none was recorded. -/
def healthyRecord (b : BlobId) (nodeId : String) (now : OffsetDateTime) : ReplicaRecord where
  blobId := b
  nodeId := nodeId
  state := .healthy
  lastSeen := now

/-- Replicate to nodes that are not healthy yet, as long as some are missing. -/
def replicate (b : BlobId) (bytes : Bytes) :
    List String → ℤ → List String → MeshProg Unit
  | _, _, [] => pure ()
  | healthyNodes, remaining, nodeId :: nodeIds =>
    if remaining ≤ 0 then pure ()
    else if nodeId ∈ healthyNodes then replicate b bytes healthyNodes remaining nodeIds
    else do
      let st ← MeshProg.store nodeId
      let found ← MeshProg.has st b
      -- bytes that are there are taken as they are
      if found then pure () else MeshProg.put st b bytes
      let now ← MeshProg.nowUtc
      MeshProg.upsertReplica (healthyRecord b nodeId now)
      replicate b bytes (nodeId :: healthyNodes) (remaining - 1) nodeIds

/-- `repair_blob`: the records are read once, the bytes fetched from the first node that has them,
and then copied to the nodes that lack a healthy record. -/
def repairBlob (item : RepairItem) : MeshProg Unit :=
  if item.missing ≤ 0 then pure ()
  else do
    let current ← MeshProg.listReplicas item.blobId
    -- healthy by their state, however long ago they were seen
    let healthyNodes := (current.filter fun r => r.state = .healthy).map ReplicaRecord.nodeId
    let nodeIds ← MeshProg.nodeIds
    let source ← findSource item.blobId nodeIds
    match source with
    | none => Prog.raise .notFound
    | some source => do
      let st ← MeshProg.store source
      let bytes ← MeshProg.get st item.blobId
      let nodeIds ← MeshProg.nodeIds
      replicate item.blobId bytes healthyNodes item.missing nodeIds

/-- `ReplicaExecutor::execute`: the items one after the other, up to the first that fails. -/
def execute (plan : RepairPlan) : MeshProg Unit := Prog.forEach repairBlob plan.items

end ReplicaExecutor

end Sodl
