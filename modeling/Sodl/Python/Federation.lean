import Mathlib.Algebra.Order.Ring.Rat
import Mathlib.Data.List.Sort
import Mathlib.Data.Prod.Lex
import Sodl.Effect.Runs
import Sodl.Python.Consistency

/-!
# Reads and writes across a federation

`FederationManager` (`src/python/sodl_weights/federation.py`), with the part of `ReplicationEngine`
(`replication.py`) it calls, over a local store of the SDK. A read asks the local store, and then
the healthy nodes from the nearest on; the first body one of them sends is written to the local
store and returned.

Nowhere on that way are the bytes compared with the id. So a read is sound exactly as far as the
first answer happens to be: `Sodl.Python.FederationManager.CleanGet` says when, and
`Sodl.federatedGet_verified` that every read of a run of such steps is.

The nodes, which are asked over the network, answer each call as they like; what they answer, which
of them are healthy and in which order the writes to them complete is given for each call
(`Sodl.Python.Surroundings`). The counters of the manager are left out.
-/

namespace Sodl

open Effect UnixPath

namespace Python

/-! ### The parties -/

/-- Information about a storage node, as far as reads and writes across the federation look at
it. -/
structure NodeInfo where
  id : String
  url : String
  region : String
  utilization : ℚ

/-- Configuration for federated operations: how many acknowledgements a write needs, and the region
that counts as near. -/
structure FederationConfig where
  writeQuorum : ℤ
  localRegion : String

/-- Replication rules: how many replicas a blob is to have, and in which regions they are to be
first or not at all. -/
structure ReplicationPolicy where
  minReplicas : ℤ
  preferRegions : List String
  excludeRegions : List String

/-- The manager with its local store, its configuration and its replication policy. What it knows of
replicas changes with every call. -/
structure FederationManager where
  store : BlobStore
  config : FederationConfig
  policy : ReplicationPolicy

/-- What a call meets with. -/
structure Surroundings where
  /-- `healthy_nodes()`, and what it is when replication asks once more. -/
  nodes : List NodeInfo
  laterNodes : List NodeInfo
  /-- What the requests of the local store are answered with. -/
  hasNet : Net
  getNet : Net
  /-- What a node answers the request of a URL with. -/
  reply : NodeInfo → String → UrlReply
  /-- The order in which the writes to some nodes complete. -/
  completed : List NodeInfo → List NodeInfo

/-- The local files, and the replicas that are known of, by the ids of nodes. -/
structure FedState where
  disk : Disk
  replicaMap : Table BlobId (List String)

/-- The nodes a replica of a blob is known on. -/
def FedState.replicas (s : FedState) (id : BlobId) : List String :=
  (s.replicaMap.lookup id).getD []

/-- `record_replica`: one more node is known to have a replica of a blob. -/
def FedState.recordReplica (s : FedState) (id : BlobId) (node : String) : FedState :=
  { s with replicaMap := s.replicaMap.insert id ((s.replicas id).insert node) }

/-- Sort nodes, those of a kind first and then by their utilization. -/
def sortNodes (preferred : NodeInfo → Bool) (nodes : List NodeInfo) : List NodeInfo :=
  nodes.insertionSort fun a b =>
    toLex (if preferred a then (0 : ℕ) else 1, a.utilization) ≤
      toLex (if preferred b then (0 : ℕ) else 1, b.utilization)

/-- `_fetch_from_node`: the bytes a node sends, nothing where it does not have the blob, or what the
request raises. -/
def fetchFromNode (env : Surroundings) (id : BlobId) (node : NodeInfo) :
    Outcome SodlError (Option Bytes) :=
  match env.reply node (remoteBlobUrl node.url id) with
  | .response status body =>
    if status = 200 then
      match body with
      | some data => .ok (some data)
      | none => .err (.io "read")
    else .ok none
  | .httpError code => if code = 404 then .ok none else .err (.io "http")
  | .failed => .err (.io "url")

/-- Whether `_push_blob` returns. -/
def pushBlob (env : Surroundings) (id : BlobId) (node : NodeInfo) : Bool :=
  match env.reply node (remoteBlobUrl node.url id) with
  | .response status _ => status = 200 || status = 201 || status = 204
  | _ => false

namespace FederationManager

variable (P : Platform) (m : FederationManager) (env : Surroundings)

/-- The healthy nodes, the nearest first. -/
def nearest : List NodeInfo := sortNodes (fun n => n.region = m.config.localRegion) env.nodes

/-! ### Writing -/

/-- The loop over the completed writes, with the acknowledgements so far. -/
def collectAcks (id : BlobId) : List NodeInfo → ℤ → FedState → ℤ × FedState
  | [], acks, s => (acks, s)
  | node :: rest, acks, s =>
    if pushBlob env id node then
      if m.config.writeQuorum ≤ acks + 1 then (acks + 1, s.recordReplica id node.id)
      else collectAcks id rest (acks + 1) (s.recordReplica id node.id)
    else collectAcks id rest acks s

/-- `_select_targets`: nodes for more replicas, those of preferred regions first and then by their
utilization, without the excluded ones. -/
def selectTargets (count : ℤ) (exclude : List String) : List NodeInfo :=
  (sortNodes (fun n => n.region ∈ m.policy.preferRegions)
    (env.laterNodes.filter fun n => n.id ∉ exclude && n.region ∉ m.policy.excludeRegions)).take
      count.toNat

/-- Ensure a blob meets the replication policy, as far as there are nodes for it. Copies that cannot
be pushed are passed over. -/
def replicateBlob (id : BlobId) (s : FedState) : Outcome SodlError Unit × FedState :=
  let current := s.replicas id
  let needed := m.policy.minReplicas - current.length
  if needed ≤ 0 then (.ok (), s)
  else
    let targets := m.selectTargets env needed current
    if targets = [] then (.ok (), s)
    else
      match m.store.get P env.getNet id s.disk with
      | (.panic, d) => (.panic, { s with disk := d })
      | (.err _, d) => (.ok (), { s with disk := d })
      | (.ok _, d) =>
        let pushed := (env.completed targets).filter (pushBlob env id)
        (.ok (), ⟨d, s.replicaMap.insert id (pushed.foldl (fun c n => c.insert n.id) current)⟩)

/-- What follows the local write: where it meets the quorum, replication for durability, and else
the writes to remote nodes. -/
def reachQuorum (id : BlobId) (acks : ℤ) (s : FedState) : Outcome SodlError Bool × FedState :=
  if m.config.writeQuorum ≤ acks then
    match m.replicateBlob P env id s with
    | (.panic, s) => (.panic, s)
    | (_, s) => (.ok true, s)
  else
    let needed := m.config.writeQuorum - acks
    -- extra targets for fault tolerance
    let targets := (m.nearest env).take (needed + 2).toNat
    let collected := m.collectAcks env id (env.completed targets) acks s
    (.ok (m.config.writeQuorum ≤ collected.1), collected.2)

/-- Write a blob to a quorum of nodes, the local store first. Whether the quorum was reached is
returned. -/
def federatedPut (id : BlobId) (data : Bytes) (s : FedState) : Outcome SodlError Bool × FedState :=
  match m.store.put id data s.disk with
  | (.ok _, d) =>
    let s : FedState := { s with disk := d }
    m.reachQuorum P env id 1 (s.recordReplica id "local")
  | (.err _, d) => m.reachQuorum P env id 0 { s with disk := d }
  | (.panic, d) => (.panic, { s with disk := d })

/-! ### Reading -/

/-- The local part of a read, whose exceptions are passed over. -/
def tryLocal (id : BlobId) (d : Disk) : Outcome SodlError (Option Bytes) × Disk :=
  match m.store.has env.hasNet id d with
  | .panic => (.panic, d)
  | .ok true =>
    match m.store.get P env.getNet id d with
    | (.ok data, d) => (.ok (some data), d)
    | (.err _, d) => (.ok none, d)
    | (.panic, d) => (.panic, d)
  | _ => (.ok none, d)

/-- The loop over the nodes: what one of them sends is cached, and where that fails the next one is
asked. -/
def tryNodes (id : BlobId) : List NodeInfo → FedState → Outcome SodlError (Option Bytes) × FedState
  | [], s => (.ok none, s)
  | node :: rest, s =>
    match fetchFromNode env id node with
    | .ok (some data) =>
      match m.store.put id data s.disk with
      | (.ok _, d) =>
        let s : FedState := { s with disk := d }
        (.ok (some data), (s.recordReplica id "local").recordReplica id node.id)
      | (.err _, d) => tryNodes id rest { s with disk := d }
      | (.panic, d) => (.panic, { s with disk := d })
    | _ => tryNodes id rest s

/-- Read a blob, preferring local then nearest healthy node. Nothing checks what a node sends
against the id. -/
def federatedGet (id : BlobId) (s : FedState) : Outcome SodlError (Option Bytes) × FedState :=
  match m.tryLocal P env id s.disk with
  | (.ok (some data), d) => (.ok (some data), { s with disk := d })
  | (.ok none, d) => m.tryNodes env id (m.nearest env) { s with disk := d }
  | (.err e, d) => (.err e, { s with disk := d })
  | (.panic, d) => (.panic, { s with disk := d })

/-! ### What the nodes have -/

/-- The copies some nodes send, in their order. -/
def copies (id : BlobId) (nodes : List NodeInfo) : List Bytes :=
  nodes.filterMap fun node =>
    match fetchFromNode env id node with
    | .ok copy => copy
    | _ => none

/-- Whether data has an id, as the SDK computes it, which is what a check of a read would
compare. -/
def Matches (id : BlobId) (data : Bytes) : Prop := computeBlobId P data .blake3 = id

instance (id : BlobId) (data : Bytes) : Decidable (Matches P id data) :=
  inferInstanceAs (Decidable (_ = _))

/-- However often it is tried, nothing can be put under an id. -/
def TakesNothing (id : BlobId) (d : Disk) : Prop :=
  ∀ (tried : List Bytes) (data : Bytes),
    (m.store.put id data (tried.foldl (fun d x => (m.store.put id x d).2) d)).1 ≠ .ok ()

/-- Data is in the file a blob has in the local store, or a healthy node sends it. -/
def Offered (id : BlobId) (data : Bytes) (d : Disk) : Prop :=
  (∃ loc, m.store.OwnFile d.cwd id loc ∧ d.fileAt loc = some data) ∨ data ∈ copies env id env.nodes

/-- **A clean read**: what the local store answers has the id; where it has no answer, the first
copy a node sends has the id and can be cached, or nothing can be and no copy has the id. -/
def CleanGet (id : BlobId) (s : FedState) : Prop :=
  match m.tryLocal P env id s.disk with
  | (.ok (some data), _) => Matches P id data
  | (.ok none, d) =>
    (∀ data, (copies env id (m.nearest env)).head? = some data →
      Matches P id data ∧ (m.store.put id data d).1 = .ok ()) ∨
    (m.TakesNothing id d ∧ ∀ data ∈ copies env id (m.nearest env), ¬Matches P id data)
  -- the native module has panicked
  | _ => ∀ data, Matches P id data → ¬m.Offered env id data s.disk

/-- **A verified read**: data that is returned has the id, no file gets other bytes, and a copy that
has the id is found if there is one. -/
structure GetVerified (id : BlobId) (s : FedState) (r : Outcome SodlError (Option Bytes))
    (s' : FedState) : Prop where
  /-- Data is returned only if it has the id. -/
  served : ∀ data, r = .ok (some data) → Matches P id data
  /-- No file has got new bytes but the blob's own, which have the id, and the temporary one. -/
  kept : ∀ loc b, s'.disk.fileAt loc = some b → s.disk.fileAt loc = some b ∨
    (m.store.OwnFile s.disk.cwd id loc ∧ Matches P id b) ∨ m.store.TmpFile s.disk.cwd id loc
  /-- A copy that has the id is returned, whatever the others are. -/
  found : ∀ data, Matches P id data → m.Offered env id data s.disk → r = .ok (some data)

variable {P m env} {id : BlobId} {data : Bytes} {s s' : FedState} {d : Disk}
  {r : Outcome SodlError (Option Bytes)}

/-! ### The local part -/

/-- The local part writes nothing but what it returns. -/
theorem writes_tryLocal (P : Platform) (m : FederationManager) (env : Surroundings) (id : BlobId)
    (d : Disk) :
    m.store.Writes id (fun b => (m.tryLocal P env id d).1 = .ok (some b)) d
      (m.tryLocal P env id d).2 := by
  rw [tryLocal]
  rcases m.store.has env.hasNet id d with (_ | _) | e | _
  · exact BlobStore.Writes.refl d
  · have hget := BlobStore.get_spec P m.store env.getNet id d
    rcases hr : m.store.get P env.getNet id d with ⟨x | e | _, d₁⟩
    · rw [hr] at hget
      exact hget.mono fun b hb => congrArg (Outcome.ok ∘ some) (Outcome.ok.inj hb)
    · rw [hr] at hget
      exact hget.mono fun b hb => absurd hb nofun
    · rw [hr] at hget
      exact hget.mono fun b hb => absurd hb nofun
  · exact BlobStore.Writes.refl d
  · exact BlobStore.Writes.refl d

/-- Where a blob has its file, the local part does not come back with nothing. -/
theorem tryLocal_ne_none {loc : List Name} (hown : m.store.OwnFile d.cwd id loc)
    (hfile : d.fileAt loc = some data) : (m.tryLocal P env id d).1 ≠ .ok none := by
  have hboth : m.store.has env.hasNet id d = .ok true ∧
      m.store.get P env.getNet id d = (.ok data, d) := by
    rw [BlobStore.OwnFile] at hown
    split at hown
    · rename_i hnative
      obtain ⟨dir, path, hpath, rfl⟩ := hown
      have hthere : (PyFsBlobStore.inner m.store).has id d = .ok true := by
        rw [FsBlobStore.has, hpath, Outcome.ok_bind]
        refine congrArg Outcome.ok ?_
        rw [Disk.pathExists, Disk.nodeAt_of_fileAt hfile]
        rfl
      exact ⟨BlobStore.has_of_native hnative hthere,
        BlobStore.get_of_native hnative hthere ((FsBlobStore.get_eq_ok hpath).mpr hfile)⟩
    · rename_i hflat
      have hthere : d.pathExists (m.store.path id) = true := by
        rw [Disk.pathExists, ← hown, Disk.nodeAt_of_fileAt hfile]
        rfl
      rw [BlobStore.has, if_neg hflat, BlobStore.flatHas, if_pos hthere, BlobStore.get,
        if_neg hflat, if_pos hthere, BlobStore.readBytes, Disk.read_eq_ok.mpr (hown ▸ hfile)]
      exact ⟨rfl, rfl⟩
  rw [tryLocal, hboth.1, hboth.2]
  rintro ⟨⟩

/-! ### The loop over the nodes -/

/-- If the first copy can be cached, it is returned. -/
theorem tryNodes_of_head {nodes : List NodeInfo} (s : FedState)
    (hhead : (copies env id nodes).head? = some data)
    (hput : (m.store.put id data s.disk).1 = .ok ()) :
    (m.tryNodes env id nodes s).1 = .ok (some data) ∧
      (m.tryNodes env id nodes s).2.disk = (m.store.put id data s.disk).2 := by
  induction nodes with
  | nil => exact absurd hhead nofun
  | cons node rest ih =>
    rw [copies, List.filterMap_cons] at hhead
    rw [tryNodes]
    rcases hf : fetchFromNode env id node with (_ | x) | e | _
    · rw [hf] at hhead
      exact ih hhead
    · rw [hf] at hhead
      obtain rfl : x = data := Option.some.inj hhead
      dsimp only
      rcases hr : m.store.put id x s.disk with ⟨u, d₁⟩
      rw [hr] at hput
      obtain rfl : u = .ok () := hput
      exact ⟨rfl, rfl⟩
    · rw [hf] at hhead
      exact ih hhead
    · rw [hf] at hhead
      exact ih hhead

/-- If no node sends a copy, nothing is returned. -/
theorem tryNodes_of_none {nodes : List NodeInfo} (s : FedState)
    (hnone : copies env id nodes = []) : m.tryNodes env id nodes s = (.ok none, s) := by
  induction nodes with
  | nil => rfl
  | cons node rest ih =>
    rw [copies, List.filterMap_cons] at hnone
    rw [tryNodes]
    rcases hf : fetchFromNode env id node with (_ | x) | e | _
    · rw [hf] at hnone
      exact ih hnone
    · rw [hf] at hnone
      exact absurd hnone nofun
    · rw [hf] at hnone
      exact ih hnone
    · rw [hf] at hnone
      exact ih hnone

/-- Trying once more does not change that nothing can be put. -/
theorem TakesNothing.step (h : m.TakesNothing id d) (x : Bytes) :
    m.TakesNothing id (m.store.put id x d).2 := fun tried data => h (x :: tried) data

/-- If nothing can be cached, nothing is returned and nothing written. -/
theorem tryNodes_of_takesNothing (env : Surroundings) (nodes : List NodeInfo) (s : FedState)
    (h : m.TakesNothing id s.disk) :
    (∀ x, (m.tryNodes env id nodes s).1 ≠ .ok (some x)) ∧
      m.store.Writes id (fun _ => False) s.disk (m.tryNodes env id nodes s).2.disk := by
  induction nodes generalizing s with
  | nil => exact ⟨nofun, BlobStore.Writes.refl _⟩
  | cons node rest ih =>
    rw [tryNodes]
    rcases fetchFromNode env id node with (_ | x) | e | _
    · exact ih s h
    · have hput := m.store.put_spec id x s.disk
      have hnot := h [] x
      have hstep := h.step x
      rw [List.foldl_nil] at hnot
      dsimp only
      rcases hr : m.store.put id x s.disk with ⟨u | e | _, d₁⟩
      · rw [hr] at hnot
        exact absurd rfl hnot
      · rw [hr] at hput hstep
        obtain ⟨hres, hwrites⟩ := ih { s with disk := d₁ } hstep
        exact ⟨hres, (hput.mono fun b hb => absurd hb.1 nofun).trans hwrites⟩
      · rw [hr] at hput
        exact ⟨nofun, hput.mono fun b hb => absurd hb.1 nofun⟩
    · exact ih s h
    · exact ih s h

/-! ### A clean read is verified -/

/-- Sorting the nodes by their distance leaves the copies they send. -/
theorem mem_copies_nearest :
    data ∈ copies env id (m.nearest env) ↔ data ∈ copies env id env.nodes := by
  have hperm : (m.nearest env).Perm env.nodes := List.perm_insertionSort _ _
  exact (hperm.filterMap _).mem_iff

/-- Where only bytes of the id are written, no file has got others. -/
theorem kept_of_writes {d' : Disk} (h : m.store.Writes id (Matches P id) d d') (loc : List Name)
    (b : Bytes) (hb : d'.fileAt loc = some b) : d.fileAt loc = some b ∨
      (m.store.OwnFile d.cwd id loc ∧ Matches P id b) ∨ m.store.TmpFile d.cwd id loc := by
  rcases h.files loc with heq | ⟨hown, x, hx, hw⟩ | htmp
  · exact Or.inl (heq.symm.trans hb)
  · obtain rfl : x = b := Option.some.inj (hx.symm.trans hb)
    exact Or.inr (Or.inl ⟨hown, hw⟩)
  · exact Or.inr (Or.inr htmp)

/-- Two sequences of bytes that have one id are the same. -/
theorem Matches.eq (hcf : P.CollisionFree) {x y : Bytes} (hx : Matches P id x)
    (hy : Matches P id y) : x = y := computeBlobId_injective hcf (hx.trans hy.symm)

/-- What a clean read does: it returns and caches only data that has the id, and returns such data
if there is some. -/
theorem CleanGet.spec (hcf : P.CollisionFree) (h : m.CleanGet P env id s) :
    (∀ data, (m.federatedGet P env id s).1 = .ok (some data) → Matches P id data) ∧
      m.store.Writes id (Matches P id) s.disk (m.federatedGet P env id s).2.disk ∧
      ∀ data, Matches P id data → m.Offered env id data s.disk →
        (m.federatedGet P env id s).1 = .ok (some data) := by
  have hwrites := writes_tryLocal P m env id s.disk
  rw [CleanGet] at h
  rw [federatedGet]
  rcases htry : m.tryLocal P env id s.disk with ⟨(_ | data) | e | _, d₁⟩
  · rw [htry] at h hwrites
    have hnothing : m.store.Writes id (Matches P id) s.disk d₁ :=
      hwrites.mono fun b hb => absurd hb nofun
    have hnone : (m.tryLocal P env id s.disk).1 = .ok none := by rw [htry]
    have hoffered : ∀ data, m.Offered env id data s.disk →
        data ∈ copies env id (m.nearest env) := by
      rintro data (⟨loc, hown, hfile⟩ | hmem)
      · exact absurd hnone (tryLocal_ne_none hown hfile)
      · exact mem_copies_nearest.mpr hmem
    rcases h with hfirst | ⟨htakes, hbad⟩
    · rcases hcopies : copies env id (m.nearest env) with _ | ⟨data, rest⟩
      · dsimp only
        rw [tryNodes_of_none _ hcopies]
        refine ⟨nofun, hnothing, fun data _ hoff => ?_⟩
        have hmem := hoffered data hoff
        rw [hcopies] at hmem
        exact absurd hmem List.not_mem_nil
      · have hhead : (copies env id (m.nearest env)).head? = some data := by
          rw [hcopies]
          rfl
        obtain ⟨hmatch, hput⟩ := hfirst data hhead
        obtain ⟨hres, hdisk⟩ := tryNodes_of_head (m := m) { s with disk := d₁ } hhead hput
        refine ⟨fun x hx => ?_, ?_, fun x hx _ => ?_⟩
        · obtain rfl : data = x := Option.some.inj (Outcome.ok.inj (hres.symm.trans hx))
          exact hmatch
        · dsimp only
          rw [hdisk]
          exact hnothing.trans ((m.store.put_spec id data d₁).mono fun b hb => hb.2 ▸ hmatch)
        · rw [hx.eq hcf hmatch]
          exact hres
    · obtain ⟨hres, hw⟩ := tryNodes_of_takesNothing (m := m) env (m.nearest env)
        { s with disk := d₁ } htakes
      refine ⟨fun x hx => absurd hx (hres x), ?_, fun data hmatch hoff => ?_⟩
      · exact hnothing.trans (hw.mono fun b hb => hb.elim)
      · exact absurd hmatch (hbad data (hoffered data hoff))
  · rw [htry] at h hwrites
    have hmatch : Matches P id data := h
    refine ⟨fun x hx => ?_, hwrites.mono fun b hb => ?_, fun x hx _ => ?_⟩
    · obtain rfl : data = x := Option.some.inj (Outcome.ok.inj hx)
      exact hmatch
    · obtain rfl : data = b := Option.some.inj (Outcome.ok.inj hb)
      exact hmatch
    · rw [hx.eq hcf hmatch]
  · rw [htry] at h hwrites
    exact ⟨nofun, hwrites.mono fun b hb => absurd hb nofun, fun x hx hoff => absurd hoff (h x hx)⟩
  · rw [htry] at h hwrites
    exact ⟨nofun, hwrites.mono fun b hb => absurd hb nofun, fun x hx hoff => absurd hoff (h x hx)⟩

/-- **A clean read is verified**, whatever the nodes and servers answer. -/
theorem CleanGet.verified (hcf : P.CollisionFree) (h : m.CleanGet P env id s) :
    m.GetVerified P env id s (m.federatedGet P env id s).1 (m.federatedGet P env id s).2 := by
  obtain ⟨hserved, hwrites, hfound⟩ := h.spec hcf
  exact ⟨hserved, kept_of_writes hwrites, hfound⟩

/-! ### Runs -/

/-- A call of the manager, with what it met with and what it returned. -/
inductive Event
  | put (id : BlobId) (data : Bytes) (env : Surroundings) (r : Outcome SodlError Bool)
  | get (id : BlobId) (env : Surroundings) (r : Outcome SodlError (Option Bytes))

variable (P m)

/-- One call of the manager: what it returned, and the state after it. -/
def step (s : FedState) : Event → FedState → Prop
  | .put id data env r, s' => m.federatedPut P env id data s = (r, s')
  | .get id env r, s' => m.federatedGet P env id s = (r, s')

/-- The reads are clean; of the writes nothing is asked. -/
def Clean (s : FedState) : Event → Prop
  | .put .. => True
  | .get id env _ => m.CleanGet P env id s

/-- Where the bytes of a file come from: from the start, or they have the id whose file it is, or
it is the file of a blob that a history has put – or else a temporary file. -/
def Accounted (s₀ : FedState) (H : List Event) (loc : List Name) (b : Bytes) : Prop :=
  s₀.disk.fileAt loc = some b ∨ ∃ id, m.store.TmpFile s₀.disk.cwd id loc ∨
    (m.store.OwnFile s₀.disk.cwd id loc ∧
      (Matches P id b ∨ ∃ data env r, Event.put id data env r ∈ H))

variable {P m}

/-- Waiting for acknowledgements leaves the files, and only learns of replicas. -/
theorem disk_collectAcks (nodes : List NodeInfo) (acks : ℤ) (s : FedState) :
    (m.collectAcks env id nodes acks s).2.disk = s.disk := by
  induction nodes generalizing acks s with
  | nil => rfl
  | cons node rest ih =>
    rw [collectAcks]
    split
    · split
      · rfl
      · exact ih _ _
    · exact ih _ _

/-- Replication writes the files of its blob only, by reading it through the store. -/
theorem writes_replicateBlob (P : Platform) (m : FederationManager) (env : Surroundings)
    (id : BlobId) (s : FedState) :
    m.store.Writes id (fun _ => True) s.disk (m.replicateBlob P env id s).2.disk := by
  have hget := (BlobStore.get_spec P m.store env.getNet id s.disk).mono fun b _ => True.intro
  simp only [replicateBlob]
  split
  · exact BlobStore.Writes.refl _
  · split
    · exact BlobStore.Writes.refl _
    · rcases hr : m.store.get P env.getNet id s.disk with ⟨x | e | _, d₁⟩
      · rw [hr] at hget
        exact hget
      · rw [hr] at hget
        exact hget
      · rw [hr] at hget
        exact hget

/-- What follows the local write changes the files of its blob only. -/
theorem writes_reachQuorum (P : Platform) (m : FederationManager) (env : Surroundings)
    (id : BlobId) (acks : ℤ) (s : FedState) :
    m.store.Writes id (fun _ => True) s.disk (m.reachQuorum P env id acks s).2.disk := by
  have hreplicate := writes_replicateBlob P m env id s
  rw [reachQuorum]
  split
  · rcases hr : m.replicateBlob P env id s with ⟨x | e | _, t⟩
    · rw [hr] at hreplicate
      exact hreplicate
    · rw [hr] at hreplicate
      exact hreplicate
    · rw [hr] at hreplicate
      exact hreplicate
  · dsimp only
    rw [disk_collectAcks]
    exact BlobStore.Writes.refl _

/-- A write changes the files of its blob only. -/
theorem writes_federatedPut (P : Platform) (m : FederationManager) (env : Surroundings)
    (id : BlobId) (data : Bytes) (s : FedState) :
    m.store.Writes id (fun _ => True) s.disk (m.federatedPut P env id data s).2.disk := by
  have hput := (m.store.put_spec id data s.disk).mono fun b _ => True.intro
  rw [federatedPut]
  rcases hr : m.store.put id data s.disk with ⟨u | e | _, d₁⟩
  · rw [hr] at hput
    exact hput.trans (writes_reachQuorum P m env id 1
      (({ s with disk := d₁ } : FedState).recordReplica id "local"))
  · rw [hr] at hput
    exact hput.trans (writes_reachQuorum P m env id 0 { s with disk := d₁ })
  · rw [hr] at hput
    exact hput

/-- **What a step leaves in the files.** -/
theorem accounted_of_step (hcf : P.CollisionFree) {e : Event} (hstep : m.step P s e s')
    (hclean : m.Clean P s e) :
    s'.disk.cwd = s.disk.cwd ∧
      ∀ loc b, s'.disk.fileAt loc = some b → m.Accounted P s [e] loc b := by
  cases e with
  | put id data env r =>
    have hres : m.federatedPut P env id data s = (r, s') := hstep
    have hwrites := writes_federatedPut P m env id data s
    rw [hres] at hwrites
    refine ⟨hwrites.cwd, fun loc b hb => ?_⟩
    rcases hwrites.files loc with heq | ⟨hown, -⟩ | htmp
    · exact Or.inl (heq.symm.trans hb)
    · exact Or.inr ⟨id, Or.inr ⟨hown, Or.inr ⟨data, env, r, List.mem_singleton_self _⟩⟩⟩
    · exact Or.inr ⟨id, Or.inl htmp⟩
  | get id env r =>
    have hres : m.federatedGet P env id s = (r, s') := hstep
    obtain ⟨-, hwrites, -⟩ := CleanGet.spec hcf hclean
    rw [hres] at hwrites
    refine ⟨hwrites.cwd, fun loc b hb => ?_⟩
    rcases kept_of_writes hwrites loc b hb with heq | ⟨hown, hmatch⟩ | htmp
    · exact Or.inl heq
    · exact Or.inr ⟨id, Or.inr ⟨hown, Or.inl hmatch⟩⟩
    · exact Or.inr ⟨id, Or.inl htmp⟩

/-- What is accounted for from a state a history has led to. -/
theorem Accounted.trans {s₀ : FedState} {H H' : List Event} {loc : List Name} {b : Bytes}
    (hcwd : s.disk.cwd = s₀.disk.cwd)
    (hkept : ∀ loc b, s.disk.fileAt loc = some b → m.Accounted P s₀ H loc b)
    (h : m.Accounted P s H' loc b) : m.Accounted P s₀ (H ++ H') loc b := by
  have hmono : ∀ {K : List Event}, K ⊆ H ++ H' → m.Accounted P s₀ K loc b →
      m.Accounted P s₀ (H ++ H') loc b := by
    rintro K hsub (heq | ⟨id, htmp | ⟨hown, hmatch | ⟨data, env, r, hmem⟩⟩⟩)
    · exact Or.inl heq
    · exact Or.inr ⟨id, Or.inl htmp⟩
    · exact Or.inr ⟨id, Or.inr ⟨hown, Or.inl hmatch⟩⟩
    · exact Or.inr ⟨id, Or.inr ⟨hown, Or.inr ⟨data, env, r, hsub hmem⟩⟩⟩
  rcases h with heq | hrest
  · exact hmono (List.subset_append_left _ _) (hkept loc b heq)
  · refine hmono (List.subset_append_right _ _) (Or.inr ?_)
    rw [hcwd] at hrest
    exact hrest

end FederationManager

end Python

/-- **Federated reads are verified** in every run of clean steps: from any content of the local
store, whatever the nodes and the servers answer, a read that is clean returns data only if it has
the id, adds no file but such data, and returns a copy that has the id if there is one; and what is
in a file at the end has been there from the start, or has the id whose file it is, or is in a file
of a blob the run has put. -/
theorem federatedGet_verified {P : Platform} (hcf : P.CollisionFree)
    {m : Python.FederationManager} {s₀ s : Python.FedState}
    {H : List Python.FederationManager.Event}
    (hrun : Run (fun s e s' => m.step P s e s' ∧ m.Clean P s e) s₀ H s) :
    (∀ id env r s', m.step P s (.get id env r) s' → m.CleanGet P env id s →
      m.GetVerified P env id s r s') ∧
    ∀ loc b, s.disk.fileAt loc = some b → m.Accounted P s₀ H loc b := by
  constructor
  · intro id env r s' hstep hclean
    have hres : m.federatedGet P env id s = (r, s') := hstep
    have hverified := hclean.verified hcf
    rwa [hres] at hverified
  · have hall : s.disk.cwd = s₀.disk.cwd ∧
        ∀ loc b, s.disk.fileAt loc = some b → m.Accounted P s₀ H loc b := by
      induction hrun with
      | nil => exact ⟨rfl, fun loc b hb => Or.inl hb⟩
      | snoc hrun he ih =>
        obtain ⟨hcwd, hkept⟩ := ih
        obtain ⟨hcwd', hkept'⟩ := Python.FederationManager.accounted_of_step hcf he.1 he.2
        exact ⟨hcwd'.trans hcwd, fun loc b hb => (hkept' loc b hb).trans hcwd hkept⟩
    exact hall.2

private def flatManager : Python.FederationManager :=
  ⟨⟨"/".toList, [], [], [], false⟩, ⟨1, "default"⟩, ⟨2, [], []⟩⟩

private def bareState : Python.FedState := ⟨⟨[], ∅⟩, ∅⟩

private def sevenId : BlobId := computeBlobId samplePlatform [7] .blake3

private def eightId : BlobId := computeBlobId samplePlatform [8] .blake3

/-- Two healthy nodes, and what they send. -/
private def nodePair (first second : Bytes) : Python.Surroundings where
  nodes := [⟨"a", "http://a", "default", 0⟩, ⟨"b", "http://b", "default", 1⟩]
  laterNodes := []
  hasNet := ⟨fun _ => .error "refused", fun _ => .failed⟩
  getNet := ⟨fun _ => .error "refused", fun _ => .failed⟩
  reply node _ := .response 200 (some (if node.id = "a" then first else second))
  completed nodes := nodes

/-- The nearer node sends the blob, after another one was put. -/
theorem federatedGet_verified_nearest :
    (flatManager.federatedGet samplePlatform (nodePair [8] [9]) eightId
      (flatManager.federatedPut samplePlatform (nodePair [] []) sevenId [7] bareState).2).1 =
        .ok (some [8]) := by
  let env := nodePair [8] [9]
  let s := (flatManager.federatedPut samplePlatform (nodePair [] []) sevenId [7] bareState).2
  have hrun : Run (fun s e s' => flatManager.step samplePlatform s e s' ∧
      flatManager.Clean samplePlatform s e) bareState [.put sevenId [7] (nodePair [] []) _] s :=
    Run.single ⟨rfl, True.intro⟩
  have hhas : flatManager.store.has env.hasNet eightId s.disk = .ok false := by decide +kernel
  have hhead : (Python.FederationManager.copies env eightId (flatManager.nearest env)).head? =
      some [8] := by decide +kernel
  have hput : (flatManager.store.put eightId [8] s.disk).1 = .ok () := by decide +kernel
  have hclean : flatManager.CleanGet samplePlatform env eightId s := by
    rw [Python.FederationManager.CleanGet, Python.FederationManager.tryLocal, hhas]
    refine Or.inl fun data hdata => ?_
    obtain rfl : [8] = data := Option.some.inj (hhead.symm.trans hdata)
    exact ⟨rfl, hput⟩
  have hverified := (federatedGet_verified samplePlatform_collisionFree hrun).1 eightId env _ _ rfl
    hclean
  exact hverified.found [8] rfl (Or.inr (by decide +kernel))

/-- A corrupt copy of the nearer node is returned and cached, though the next node has a valid
one. -/
theorem not_federatedGet_verified :
    (flatManager.federatedGet samplePlatform (nodePair [9] [8]) eightId bareState).1 =
        .ok (some [9]) ∧
      ¬Python.FederationManager.Matches samplePlatform eightId [9] ∧
      Python.FederationManager.Matches samplePlatform eightId [8] ∧
      flatManager.Offered (nodePair [9] [8]) eightId [8] bareState.disk ∧
      (flatManager.federatedGet samplePlatform (nodePair [9] [8]) eightId bareState).2.disk.fileAt
        (locate [] (flatManager.store.path eightId)) = some [9] := by
  refine ⟨by decide +kernel, by decide +kernel, rfl, Or.inr (by decide +kernel), by decide +kernel⟩

end Sodl
