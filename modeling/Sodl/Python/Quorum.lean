import Sodl.Python.LocalBlobs
import Sodl.Python.Nodes

/-!
# What a quorum is worth

The manager of `Sodl.Python.FederationManager` together with what it talks to: a local store of its
own files, and servers that keep blobs for the nodes. A server that acknowledges a write has the
blob from then on, unless it loses it, and answers a read with what it has, or not at all. Anything
may fail at any time: a node may not be listed, not be reached, or not answer, and a party – the
local store or a server – may lose what it has.

A write that returns `True` has brought the blob to as many parties as the write quorum says
(`Sodl.quorumWrite_kept`), and what the manager has recorded of a blob's replicas are parties that
have it (`Sodl.replicas_kept`), except for those that have lost something since. A read that reaches
one of them returns the blob, and no read returns anything else. So a blob outlives any losses and
failures that are fewer than the quorum.

Two things are asked of the set-up. The nodes a registry lists are where they always were: the
server of a node is the one of its id, and of no other id (`Sodl.Python.Placed`). And blobs are put
under the ids that are computed from them.
-/

namespace Sodl

open Effect

namespace Python

/-! ### The parties -/

/-- The base of the addresses under which a node is asked, which is its URL without slashes at its
end. -/
def NodeInfo.server (n : NodeInfo) : String := trimEndMatches '/' n.url

/-- Who may have a blob: the local store, or the server at an address. -/
inductive Party
  /-- The local store. -/
  | own
  | server (url : String)
  deriving DecidableEq

/-- The manager with its files, and what the servers have. -/
structure Cluster where
  fed : FedState
  blobs : String → BlobId → Option Bytes

/-- **The nodes are where they always were**: each id has its server, no node twice, and none under
the name of the local store. -/
structure Placed (place : String → String) (nodes : List NodeInfo) : Prop where
  nodup : (nodes.map NodeInfo.id).Nodup
  server : ∀ n ∈ nodes, n.server = place n.id
  named : ∀ n ∈ nodes, n.id ≠ "local"

/-- Whose replica is recorded under a name. -/
def partyOf (place : String → String) (name : String) : Party :=
  if name = "local" then .own else .server (place name)

/-- Whether a party has a blob. -/
def Cluster.Has (P : Platform) (m : FederationManager) (s : Cluster) (x : Bytes) : Party → Prop
  | .own => m.store.Keeps P x s.fed.disk
  | .server url => s.blobs url (computeBlobId P x .blake3) = some x

/-- Status of a blob's replication, by what the manager has recorded. -/
structure ReplicationStatus where
  replicaCount : ℕ
  replicaNodes : List String
  meetsPolicy : Bool

/-! ### Steps -/

namespace FederationManager

variable (P : Platform) (m : FederationManager) (env : Surroundings)

/-- Whom replication sends a blob, and what it sends them. -/
def replicated (id : BlobId) (s : FedState) : List NodeInfo × Bytes :=
  let current := s.replicas id
  let needed := m.policy.minReplicas - current.length
  if needed ≤ 0 then ([], [])
  else
    match (m.store.get P env.getNet id s.disk).1 with
    | .ok data => (m.selectTargets env needed current, data)
    | _ => ([], [])

/-- Whom `reachQuorum` sends a blob, and what it sends them. -/
def sentFrom (id : BlobId) (data : Bytes) (acks : ℤ) (s : FedState) : List NodeInfo × Bytes :=
  if m.config.writeQuorum ≤ acks then m.replicated P env id s
  else ((m.nearest env).take (m.config.writeQuorum - acks + 2).toNat, data)

/-- Whom a write sends a blob, and what it sends them. -/
def sent (id : BlobId) (data : Bytes) (s : FedState) : List NodeInfo × Bytes :=
  match m.store.put id data s.disk with
  | (.ok _, d) =>
    m.sentFrom P env id data 1 (({ s with disk := d } : FedState).recordReplica id "local")
  | (.err _, d) => m.sentFrom P env id data 0 { s with disk := d }
  | (.panic, _) => ([], [])

/-- `check_replication`: the replicas that were recorded, and whether they are as many as the policy
asks for. -/
def checkReplication (id : BlobId) (s : FedState) : ReplicationStatus where
  replicaCount := (s.replicas id).length
  replicaNodes := s.replicas id
  meetsPolicy := m.policy.minReplicas ≤ (s.replicas id).length

end FederationManager

/-- **What servers do with what they are sent**: one that acknowledges it has it, and one that does
not may have it or not. -/
structure Delivered (env : Surroundings) (id : BlobId) (sent : List NodeInfo × Bytes)
    (blobs blobs' : String → BlobId → Option Bytes) : Prop where
  acked : ∀ n ∈ sent.1, pushBlob env id n = true → blobs' n.server id = some sent.2
  kept : ∀ url i, blobs' url i = blobs url i ∨
    (i = id ∧ (∃ n ∈ sent.1, n.server = url) ∧ blobs' url i = some sent.2)

/-- What happens: a write or a read of a blob, with what it met with and returned, or a loss. -/
inductive ClusterEvent
  | put (x : Bytes) (env : Surroundings) (r : Outcome SodlError Bool)
  | get (x : Bytes) (env : Surroundings) (r : Outcome SodlError (Option Bytes))
  | lost (p : Party)

namespace Cluster

variable (P : Platform) (m : FederationManager)

/-- What happens, with what it does to the files of the manager and to what the servers have. A loss
takes away files of the local store, or blobs of a server. -/
def Step (s : Cluster) : ClusterEvent → Cluster → Prop
  | .put x env r, s' =>
    m.federatedPut P env (computeBlobId P x .blake3) x s.fed = (r, s'.fed) ∧
      Delivered env (computeBlobId P x .blake3)
        (m.sent P env (computeBlobId P x .blake3) x s.fed) s.blobs s'.blobs
  | .get x env r, s' =>
    m.federatedGet P env (computeBlobId P x .blake3) s.fed = (r, s'.fed) ∧ s'.blobs = s.blobs
  | .lost .own, s' =>
    s'.blobs = s.blobs ∧ s'.fed.replicaMap = s.fed.replicaMap ∧
      s'.fed.disk.cwd = s.fed.disk.cwd ∧
        ∀ loc, s'.fed.disk.nodeAt loc = none ∨ s'.fed.disk.nodeAt loc = s.fed.disk.nodeAt loc
  | .lost (.server url), s' =>
    s'.fed = s.fed ∧ ∀ u i, s'.blobs u i = s.blobs u i ∨ (u = url ∧ s'.blobs u i = none)

/-- **What a step may meet with**: nodes that are where they always were, writes to some of them
that complete in some order, and servers that answer with what they have. -/
def Fair (place : String → String) (s : Cluster) : ClusterEvent → Prop
  | .put _ env _ =>
    Placed place env.nodes ∧ Placed place env.laterNodes ∧
      ∀ nodes, (env.completed nodes).Perm nodes
  | .get x env _ =>
    Placed place env.nodes ∧ ∀ n ∈ env.nodes, ∀ data,
      fetchFromNode env (computeBlobId P x .blake3) n = .ok (some data) →
        s.blobs n.server (computeBlobId P x .blake3) = some data
  | .lost _ => True

/-- The parties that have lost something. -/
def losses (H : List ClusterEvent) : List Party :=
  H.filterMap fun
    | .lost p => some p
    | _ => none

/-- **No copy is wrong**: neither the files of the local store nor the servers have other bytes
under the id of a blob. -/
structure Agreed (s : Cluster) : Prop where
  sound : m.store.Sound P s.fed.disk
  blobs : ∀ url x b, s.blobs url (computeBlobId P x .blake3) = some b → b = x

end Cluster

/-! ### What is recorded -/

/-- Of a blob, some replicas may have been recorded from one state to another. -/
structure Records (id : BlobId) (new : String → Prop) (s s' : FedState) : Prop where
  mem : ∀ i, ∀ name ∈ s'.replicas i, name ∈ s.replicas i ∨ (i = id ∧ new name)
  nodup : (∀ i, (s.replicas i).Nodup) → ∀ i, (s'.replicas i).Nodup

section Records

variable {id : BlobId} {new new' : String → Prop} {s s' s'' : FedState}

/-- Nothing was recorded between a state and itself. -/
theorem Records.refl (s : FedState) : Records id new s s := ⟨fun _ _ h => Or.inl h, fun h => h⟩

/-- What was recorded, of names of some kind, are names of every kind that there is more of. -/
theorem Records.mono (h : Records id new s s') (hsub : ∀ name, new name → new' name) :
    Records id new' s s' :=
  ⟨fun i name hname => (h.mem i name hname).imp_right (And.imp_right (hsub name)), h.nodup⟩

/-- What was recorded in two parts was recorded in the whole. -/
theorem Records.trans (h : Records id new s s') (h' : Records id new s' s'') :
    Records id new s s'' := by
  refine ⟨fun i name hname => ?_, fun hnodup => h'.nodup (h.nodup hnodup)⟩
  rcases h'.mem i name hname with hname | hnew
  · exact h.mem i name hname
  · exact Or.inr hnew

/-- What is known after replicas of a blob were noted. -/
theorem replicas_insert (s : FedState) (id i : BlobId) (names : List String) :
    ({ s with replicaMap := s.replicaMap.insert id names } : FedState).replicas i =
      if i = id then names else s.replicas i := by
  rw [FedState.replicas, Table.lookup_insert]
  split_ifs
  · rfl
  · rfl

/-- One replica of a blob was recorded. -/
theorem Records.recordReplica {name : String} (s : FedState) (hnew : new name) :
    Records id new s (s.recordReplica id name) := by
  constructor
  · intro i other hother
    rw [FedState.recordReplica, replicas_insert] at hother
    split_ifs at hother with hi
    · rcases List.mem_insert_iff.mp hother with rfl | hold
      · exact Or.inr ⟨hi, hnew⟩
      · exact Or.inl (hi ▸ hold)
    · exact Or.inl hother
  · intro hnodup i
    rw [FedState.recordReplica, replicas_insert]
    split_ifs
    · exact (hnodup id).insert
    · exact hnodup i

/-- The files have no part in what is recorded. -/
theorem Records.of_replicaMap (h : s'.replicaMap = s.replicaMap) : Records id new s s' := by
  have heq : ∀ i, s'.replicas i = s.replicas i := fun i => by
    rw [FedState.replicas, h]
    rfl
  exact ⟨fun i name hname => Or.inl (heq i ▸ hname), fun hnodup i => heq i ▸ hnodup i⟩

end Records

/-- The first nodes, after they were sorted, are some of the nodes. -/
theorem subperm_sortNodes (preferred : NodeInfo → Bool) (nodes : List NodeInfo) (k : ℕ) :
    ((sortNodes preferred nodes).take k).Subperm nodes :=
  (List.take_sublist _ _).subperm.trans (List.perm_insertionSort _ _).subperm

/-! ### Writing -/

namespace FederationManager

variable {P : Platform} {m : FederationManager} {env : Surroundings} {id : BlobId} {x : Bytes}
  {acks : ℤ} {s s' : FedState} {place : String → String}

/-- Who has acknowledged one of some writes. -/
def Acked (env : Surroundings) (id : BlobId) (nodes : List NodeInfo) (name : String) : Prop :=
  ∃ n ∈ nodes, pushBlob env id n = true ∧ n.id = name

/-- Who has acknowledged one of some writes has acknowledged one of more. -/
theorem Acked.mono {nodes nodes' : List NodeInfo} {name : String} (h : Acked env id nodes name)
    (hsub : nodes ⊆ nodes') : Acked env id nodes' name := by
  obtain ⟨n, hn, hpush, hname⟩ := h
  exact ⟨n, hsub hn, hpush, hname⟩

/-- Who has answered a read with a blob, of some nodes. -/
def Answered (env : Surroundings) (id : BlobId) (x : Bytes) (nodes : List NodeInfo)
    (name : String) : Prop :=
  ∃ n ∈ nodes, n.id = name ∧ fetchFromNode env id n = .ok (some x)

/-- Who has answered a read, of some nodes, is one of more. -/
theorem Answered.mono {nodes nodes' : List NodeInfo} {name : String}
    (h : Answered env id x nodes name) (hsub : nodes ⊆ nodes') :
    Answered env id x nodes' name := by
  obtain ⟨n, hn, hanswer⟩ := h
  exact ⟨n, hsub hn, hanswer⟩

variable (m env id) in
/-- The loop counts what was acknowledged, as far as it goes, and records it. -/
theorem collectAcks_spec (nodes : List NodeInfo) (acks : ℤ) (s : FedState) :
    (m.collectAcks env id nodes acks s).1 ≤ acks + (nodes.filter (pushBlob env id)).length ∧
      Records id (Acked env id nodes) s (m.collectAcks env id nodes acks s).2 := by
  induction nodes generalizing acks s with
  | nil => exact ⟨by simp [collectAcks], Records.refl s⟩
  | cons node rest ih =>
    have hrest : ∀ name, Acked env id rest name → Acked env id (node :: rest) name :=
      fun name h => h.mono (List.subset_cons_self _ _)
    rw [collectAcks]
    by_cases hpush : pushBlob env id node = true
    · have hnew : Records id (Acked env id (node :: rest)) s (s.recordReplica id node.id) :=
        Records.recordReplica s ⟨node, List.mem_cons_self .., hpush, rfl⟩
      rw [if_pos hpush, List.filter_cons_of_pos hpush, List.length_cons]
      split
      · exact ⟨by push_cast; omega, hnew⟩
      · obtain ⟨hle, hrecords⟩ := ih (acks + 1) (s.recordReplica id node.id)
        exact ⟨by push_cast; omega, hnew.trans (hrecords.mono hrest)⟩
    · rw [if_neg hpush, List.filter_cons_of_neg hpush]
      obtain ⟨hle, hrecords⟩ := ih acks s
      exact ⟨hle, hrecords.mono hrest⟩

/-- Noting some names. -/
theorem mem_foldl_insert {nodes : List NodeInfo} {names : List String} {name : String}
    (h : name ∈ nodes.foldl (fun c n => c.insert n.id) names) :
    name ∈ names ∨ ∃ n ∈ nodes, n.id = name := by
  induction nodes generalizing names with
  | nil => exact Or.inl h
  | cons node rest ih =>
    rcases ih h with hold | ⟨n, hn, rfl⟩
    · rcases List.mem_insert_iff.mp hold with rfl | hold
      · exact Or.inr ⟨node, List.mem_cons_self .., rfl⟩
      · exact Or.inl hold
    · exact Or.inr ⟨n, List.mem_cons_of_mem _ hn, rfl⟩

/-- Noting some names one by one notes none twice. -/
theorem nodup_foldl_insert {nodes : List NodeInfo} {names : List String} (h : names.Nodup) :
    (nodes.foldl (fun c n => c.insert n.id) names).Nodup := by
  induction nodes generalizing names with
  | nil => exact h
  | cons node rest ih => exact ih h.insert

variable (id) in
/-- Replication records who has acknowledged, of those it has sent the blob. -/
theorem records_replicateBlob (hperm : ∀ nodes, (env.completed nodes).Perm nodes)
    (s : FedState) :
    Records id (Acked env id (m.replicated P env id s).1) s (m.replicateBlob P env id s).2 := by
  simp only [replicateBlob, replicated]
  by_cases hneeded : m.policy.minReplicas - (s.replicas id).length ≤ 0
  · rw [if_pos hneeded, if_pos hneeded]
    exact Records.refl s
  · rw [if_neg hneeded, if_neg hneeded]
    generalize m.selectTargets env (m.policy.minReplicas - (s.replicas id).length)
      (s.replicas id) = targets
    by_cases hnone : targets = []
    · rw [if_pos hnone]
      exact Records.refl s
    · rw [if_neg hnone]
      rcases hget : m.store.get P env.getNet id s.disk with ⟨data | e | _, d⟩
      · have hreplicas := fun i => replicas_insert { s with disk := d } id i
          (((env.completed targets).filter (pushBlob env id)).foldl
            (fun c n => c.insert n.id) (s.replicas id))
        dsimp only at hreplicas ⊢
        constructor
        · intro i name hname
          rw [hreplicas] at hname
          split_ifs at hname with heq
          · rcases mem_foldl_insert hname with hold | ⟨n, hn, rfl⟩
            · exact Or.inl (heq ▸ hold)
            · obtain ⟨hmem, hpush⟩ := List.mem_filter.mp hn
              exact Or.inr ⟨heq, n, (hperm _).subset hmem, hpush, rfl⟩
          · exact Or.inl hname
        · intro hnodup i
          rw [hreplicas]
          split_ifs
          · exact nodup_foldl_insert (hnodup id)
          · exact hnodup i
      · exact Records.of_replicaMap rfl
      · exact Records.of_replicaMap rfl

/-- **What reaching the quorum says and records**: as many as the quorum have acknowledged, of those
the blob was sent. -/
theorem reachQuorum_spec (hperm : ∀ nodes, (env.completed nodes).Perm nodes) (data : Bytes)
    (acks : ℤ) (s : FedState) :
    ((m.reachQuorum P env id acks s).1 = .ok true →
        m.config.writeQuorum ≤
          acks + ((m.sentFrom P env id data acks s).1.filter (pushBlob env id)).length) ∧
      Records id (Acked env id (m.sentFrom P env id data acks s).1) s
        (m.reachQuorum P env id acks s).2 := by
  rw [reachQuorum, sentFrom]
  by_cases hacks : m.config.writeQuorum ≤ acks
  · rw [if_pos hacks, if_pos hacks]
    have hrecords := records_replicateBlob (P := P) (m := m) id hperm s
    refine ⟨fun _ => by omega, ?_⟩
    rcases hr : m.replicateBlob P env id s with ⟨u | e | _, s'⟩
    · rw [hr] at hrecords
      exact hrecords
    · rw [hr] at hrecords
      exact hrecords
    · rw [hr] at hrecords
      exact hrecords
  · rw [if_neg hacks, if_neg hacks]
    let targets := (m.nearest env).take (m.config.writeQuorum - acks + 2).toNat
    obtain ⟨hle, hrecords⟩ := collectAcks_spec m env id (env.completed targets) acks s
    have hlen : ((env.completed targets).filter (pushBlob env id)).length =
        (targets.filter (pushBlob env id)).length := ((hperm targets).filter _).length_eq
    refine ⟨fun hok => ?_, hrecords.mono fun name h => h.mono (hperm targets).subset⟩
    have hreached := of_decide_eq_true (Outcome.ok.inj hok)
    rw [← hlen]
    exact hreached.trans hle

/-- Whom a write sends the blob, of the nodes that are listed. -/
theorem subperm_sentFrom (data : Bytes) (acks : ℤ) (s : FedState) :
    ((m.sentFrom P env id data acks s).1).Subperm env.nodes ∨
      ((m.sentFrom P env id data acks s).1).Subperm env.laterNodes := by
  rw [sentFrom]
  split
  · rw [replicated]
    split
    · exact Or.inl List.nil_subperm
    · split
      · refine Or.inr ((subperm_sortNodes _ _ _).trans ?_)
        exact List.filter_sublist.subperm
      · exact Or.inl List.nil_subperm
  · exact Or.inl (subperm_sortNodes _ _ _)

section Sound

variable (hcf : P.CollisionFree) (hhex : P.DigestsAreHex) (halone : m.store.Alone)
include hhex halone

/-- What is sent is the blob. -/
theorem sentFrom_data (h : m.store.Sound P s.disk)
    (hsent : (m.sentFrom P env (computeBlobId P x .blake3) x acks s).1 ≠ []) :
    (m.sentFrom P env (computeBlobId P x .blake3) x acks s).2 = x := by
  rw [sentFrom] at hsent ⊢
  split
  · rename_i hacks
    rw [if_pos hacks, replicated] at hsent
    rw [replicated]
    split at hsent
    · exact absurd rfl hsent
    · rename_i hneeded
      rw [if_neg hneeded]
      split
      · rename_i data hget
        exact (h.get halone hhex env.getNet x).2 data hget
      · rename_i hget
        split at hsent
        · rename_i data hok
          exact absurd hok (hget data)
        · exact absurd rfl hsent
  · rfl

include hcf

/-- What follows the local write leaves the files of the local store right. -/
theorem upheld_reachQuorum (h : m.store.Sound P s.disk) :
    BlobStore.Upheld P m.store s.disk
      (m.reachQuorum P env (computeBlobId P x .blake3) acks s).2.disk := by
  have hget := h.upheld_get hcf hhex halone env.getNet x
  have hreplicate : BlobStore.Upheld P m.store s.disk
      (m.replicateBlob P env (computeBlobId P x .blake3) s).2.disk := by
    simp only [replicateBlob]
    split
    · exact BlobStore.Upheld.refl h
    · split
      · exact BlobStore.Upheld.refl h
      · rcases hr : m.store.get P env.getNet (computeBlobId P x .blake3) s.disk
          with ⟨data | e | _, d⟩
        · rw [hr] at hget
          exact hget
        · rw [hr] at hget
          exact hget
        · rw [hr] at hget
          exact hget
  rw [reachQuorum]
  split
  · rcases hr : m.replicateBlob P env (computeBlobId P x .blake3) s with ⟨u | e | _, s'⟩
    · rw [hr] at hreplicate
      exact hreplicate
    · rw [hr] at hreplicate
      exact hreplicate
    · rw [hr] at hreplicate
      exact hreplicate
  · dsimp only
    rw [disk_collectAcks]
    exact BlobStore.Upheld.refl h

/-- **A write of a blob**: of whom it is sent to, and of the local store, as many as the quorum have
acknowledged it if it returns `True`; these it records, and the local store has it if it has
acknowledged it. -/
theorem federatedPut_spec (hperm : ∀ nodes, (env.completed nodes).Perm nodes)
    (h : m.store.Sound P s.disk) {r : Outcome SodlError Bool}
    (hres : m.federatedPut P env (computeBlobId P x .blake3) x s = (r, s')) :
    BlobStore.Upheld P m.store s.disk s'.disk ∧
      ∃ own : Bool, (own = true → m.store.Keeps P x s'.disk) ∧
        (r = .ok true → m.config.writeQuorum ≤ own.toNat +
          ((m.sent P env (computeBlobId P x .blake3) x s).1.filter
            (pushBlob env (computeBlobId P x .blake3))).length) ∧
        Records (computeBlobId P x .blake3) (fun name => (name = "local" ∧ own = true) ∨
          Acked env (computeBlobId P x .blake3)
            (m.sent P env (computeBlobId P x .blake3) x s).1 name) s s' := by
  have hput := h.upheld_put hcf hhex x
  have hkeeps := h.keeps_of_put (x := x)
  have hpanic : (m.store.put (computeBlobId P x .blake3) x s.disk).1 ≠ .panic :=
    BlobStore.put_ne_panic hhex x
  have hdisk : ∀ d new, Records (computeBlobId P x .blake3) new s { s with disk := d } :=
    fun d new => Records.of_replicaMap rfl
  rw [federatedPut] at hres
  rw [sent]
  rcases hr : m.store.put (computeBlobId P x .blake3) x s.disk with ⟨u | e | _, d⟩
  · rw [hr] at hres hput hkeeps
    dsimp only at hres hput hkeeps ⊢
    have hown : ∀ new : String → Prop, new "local" → Records (computeBlobId P x .blake3) new s
        (({ s with disk := d } : FedState).recordReplica (computeBlobId P x .blake3) "local") :=
      fun new hnew => (hdisk d new).trans (Records.recordReplica _ hnew)
    generalize hnoted : ({ s with disk := d } : FedState).recordReplica
      (computeBlobId P x .blake3) "local" = t at hres hown ⊢
    have htd : t.disk = d := by
      rw [← hnoted]
      rfl
    obtain ⟨hcount, hrecords⟩ := reachQuorum_spec (P := P) (m := m) hperm x 1 t
    have hupheld : BlobStore.Upheld P m.store t.disk
        (m.reachQuorum P env (computeBlobId P x .blake3) 1 t).2.disk :=
      upheld_reachQuorum hcf hhex halone (htd ▸ hput.sound)
    rw [hres, htd] at hupheld
    rw [hres] at hcount hrecords
    exact ⟨hput.trans hupheld, true, fun _ => hupheld.keeps x (hkeeps rfl), hcount,
      (hown _ (Or.inl ⟨rfl, rfl⟩)).trans (hrecords.mono fun name hname => Or.inr hname)⟩
  · rw [hr] at hres hput
    dsimp only at hres ⊢
    obtain ⟨hcount, hrecords⟩ := reachQuorum_spec (P := P) (m := m) hperm x 0 { s with disk := d }
    have hupheld : BlobStore.Upheld P m.store d
        (m.reachQuorum P env (computeBlobId P x .blake3) 0 { s with disk := d }).2.disk :=
      upheld_reachQuorum (s := { s with disk := d }) hcf hhex halone hput.sound
    rw [hres] at hcount hrecords hupheld
    exact ⟨hput.trans hupheld, false, fun hfalse => absurd hfalse Bool.false_ne_true, hcount,
      (hdisk d _).trans (hrecords.mono fun name hname => Or.inr hname)⟩
  · rw [hr] at hpanic
    exact absurd rfl hpanic

variable (env) in
omit halone in
/-- The loop over nodes that send nothing but the blob: it comes back with the blob or with nothing,
and records who has sent it. -/
theorem tryNodes_spec {nodes : List NodeInfo} (h : m.store.Sound P s.disk)
    (honest : ∀ n ∈ nodes, ∀ data,
      fetchFromNode env (computeBlobId P x .blake3) n = .ok (some data) → data = x) :
    ((m.tryNodes env (computeBlobId P x .blake3) nodes s).1 = .ok none ∨
        (m.tryNodes env (computeBlobId P x .blake3) nodes s).1 = .ok (some x)) ∧
      BlobStore.Upheld P m.store s.disk
        (m.tryNodes env (computeBlobId P x .blake3) nodes s).2.disk ∧
      Records (computeBlobId P x .blake3) (fun name =>
        (name = "local" ∧ m.store.Keeps P x
          (m.tryNodes env (computeBlobId P x .blake3) nodes s).2.disk) ∨
          Answered env (computeBlobId P x .blake3) x nodes name) s
        (m.tryNodes env (computeBlobId P x .blake3) nodes s).2 := by
  induction nodes generalizing s with
  | nil => exact ⟨Or.inl rfl, BlobStore.Upheld.refl h, Records.refl s⟩
  | cons node rest ih =>
    have hrest := fun {t : FedState} (ht : m.store.Sound P t.disk) =>
      ih ht fun n hn => honest n (List.mem_cons_of_mem _ hn)
    have hdisk : ∀ d new, Records (computeBlobId P x .blake3) new s { s with disk := d } :=
      fun d new => Records.of_replicaMap rfl
    have hmore : ∀ name, Answered env (computeBlobId P x .blake3) x rest name →
        Answered env (computeBlobId P x .blake3) x (node :: rest) name :=
      fun name h => h.mono (List.subset_cons_self _ _)
    rw [tryNodes]
    rcases hf : fetchFromNode env (computeBlobId P x .blake3) node with (_ | data) | e | _
    · obtain ⟨hres, hupheld, hrecords⟩ := hrest h
      exact ⟨hres, hupheld, hrecords.mono fun name hname => hname.imp_right (hmore name)⟩
    · obtain rfl := honest node (List.mem_cons_self ..) data hf
      have hput := h.upheld_put hcf hhex data
      have hkeeps := h.keeps_of_put (x := data)
      have hpanic : (m.store.put (computeBlobId P data .blake3) data s.disk).1 ≠ .panic :=
        BlobStore.put_ne_panic hhex data
      dsimp only
      rcases hr : m.store.put (computeBlobId P data .blake3) data s.disk with ⟨u | e | _, d⟩
      · rw [hr] at hput hkeeps
        refine ⟨Or.inr rfl, hput, (hdisk d _).trans ((Records.recordReplica _ ?_).trans
          (Records.recordReplica _ ?_))⟩
        · exact Or.inl ⟨rfl, hkeeps rfl⟩
        · exact Or.inr ⟨node, List.mem_cons_self .., rfl, hf⟩
      · rw [hr] at hput
        obtain ⟨hres, hupheld, hrecords⟩ := hrest (t := { s with disk := d }) hput.sound
        exact ⟨hres, hput.trans hupheld, (hdisk d _).trans
          (hrecords.mono fun name hname => hname.imp_right (hmore name))⟩
      · rw [hr] at hpanic
        exact absurd rfl hpanic
    · obtain ⟨hres, hupheld, hrecords⟩ := hrest h
      exact ⟨hres, hupheld, hrecords.mono fun name hname => hname.imp_right (hmore name)⟩
    · obtain ⟨hres, hupheld, hrecords⟩ := hrest h
      exact ⟨hres, hupheld, hrecords.mono fun name hname => hname.imp_right (hmore name)⟩

/-- **A read of a blob** that meets no copy but the blob comes back with it or with nothing. It
comes back with it if the local store has it, or if a node sends it and the local store can take
it. -/
theorem federatedGet_spec (h : m.store.Sound P s.disk) {r : Outcome SodlError (Option Bytes)}
    (honest : ∀ n ∈ env.nodes, ∀ data,
      fetchFromNode env (computeBlobId P x .blake3) n = .ok (some data) → data = x)
    (hres : m.federatedGet P env (computeBlobId P x .blake3) s = (r, s')) :
    (r = .ok none ∨ r = .ok (some x)) ∧ BlobStore.Upheld P m.store s.disk s'.disk ∧
      Records (computeBlobId P x .blake3) (fun name =>
        (name = "local" ∧ m.store.Keeps P x s'.disk) ∨
          Answered env (computeBlobId P x .blake3) x env.nodes name) s s' ∧
      (m.store.Keeps P x s.disk → r = .ok (some x)) ∧
      ((∃ n ∈ env.nodes, fetchFromNode env (computeBlobId P x .blake3) n = .ok (some x)) →
        (m.store.put (computeBlobId P x .blake3) x
          (m.tryLocal P env (computeBlobId P x .blake3) s.disk).2).1 = .ok () →
        r = .ok (some x)) := by
  obtain ⟨heither, hkeeps⟩ := tryLocal_of_sound env (x := x) h halone hhex
  have hupheld := upheld_tryLocal env (x := x) h hcf hhex halone
  have hdisk : ∀ d new, Records (computeBlobId P x .blake3) new s { s with disk := d } :=
    fun d new => Records.of_replicaMap rfl
  have hnear : ∀ n, n ∈ m.nearest env ↔ n ∈ env.nodes := fun n => List.mem_insertionSort _
  rw [federatedGet] at hres
  rcases hr : m.tryLocal P env (computeBlobId P x .blake3) s.disk with ⟨o, d⟩
  rw [hr] at heither hkeeps hupheld hres
  dsimp only at heither hkeeps hupheld
  rcases heither with rfl | rfl
  · dsimp only at hres
    obtain ⟨hends, hloop, hrecords⟩ := tryNodes_spec (m := m) env (x := x)
      (s := { s with disk := d }) hcf hhex hupheld.sound fun n hn => honest n ((hnear n).mp hn)
    have hfound : (∃ n ∈ env.nodes,
          fetchFromNode env (computeBlobId P x .blake3) n = .ok (some x)) →
        (m.store.put (computeBlobId P x .blake3) x d).1 = .ok () →
          (m.tryNodes env (computeBlobId P x .blake3) (m.nearest env) { s with disk := d }).1 =
            .ok (some x) := by
      rintro ⟨n, hn, hanswer⟩ hput
      refine (tryNodes_of_head (m := m) { s with disk := d } ?_ hput).1
      -- the first copy that is sent is the blob
      have hmem : x ∈ copies env (computeBlobId P x .blake3) (m.nearest env) :=
        List.mem_filterMap.mpr ⟨n, (hnear n).mpr hn, by rw [hanswer]⟩
      have hall : ∀ b ∈ copies env (computeBlobId P x .blake3) (m.nearest env), b = x := by
        intro b hb
        obtain ⟨n', hn', hb⟩ := List.mem_filterMap.mp hb
        rcases hf : fetchFromNode env (computeBlobId P x .blake3) n' with copy | e | _
        · rw [hf] at hb
          obtain rfl : copy = some b := hb
          exact honest n' ((hnear n').mp hn') b hf
        · rw [hf] at hb
          cases hb
        · rw [hf] at hb
          cases hb
      rcases hcopies : copies env (computeBlobId P x .blake3) (m.nearest env) with _ | ⟨b, rest⟩
      · rw [hcopies] at hmem
        exact absurd hmem List.not_mem_nil
      · rw [hall b (hcopies ▸ List.mem_cons_self ..)]
        rfl
    rw [hres] at hends hloop hrecords hfound
    have hnear' : ∀ name, Answered env (computeBlobId P x .blake3) x (m.nearest env) name →
        Answered env (computeBlobId P x .blake3) x env.nodes name :=
      fun name hname => hname.mono fun n hn => (hnear n).mp hn
    exact ⟨hends, hupheld.trans hloop,
      (hdisk d _).trans (hrecords.mono fun name hname => hname.imp_right (hnear' name)),
      fun hkept => absurd (hkeeps hkept) (by simp), hfound⟩
  · dsimp only at hres
    obtain ⟨rfl, rfl⟩ := Prod.mk.inj hres
    exact ⟨Or.inr rfl, hupheld, hdisk d _, fun _ => rfl, fun _ _ => rfl⟩

variable (env) in
/-- What a write sends, and whom. -/
theorem sent_spec (h : m.store.Sound P s.disk) :
    ((m.sent P env (computeBlobId P x .blake3) x s).1 ≠ [] →
        (m.sent P env (computeBlobId P x .blake3) x s).2 = x) ∧
      ((m.sent P env (computeBlobId P x .blake3) x s).1.Subperm env.nodes ∨
        (m.sent P env (computeBlobId P x .blake3) x s).1.Subperm env.laterNodes) := by
  have hput := h.upheld_put hcf hhex x
  rw [sent]
  rcases hr : m.store.put (computeBlobId P x .blake3) x s.disk with ⟨u | e | _, d⟩
  · rw [hr] at hput
    exact ⟨sentFrom_data hhex halone hput.sound, subperm_sentFrom x 1 _⟩
  · rw [hr] at hput
    exact ⟨sentFrom_data (s := { s with disk := d }) hhex halone hput.sound,
      subperm_sentFrom x 0 _⟩
  · exact ⟨fun hne => absurd rfl hne, Or.inl List.nil_subperm⟩

end Sound

end FederationManager

/-! ### One step -/

namespace Cluster

open FederationManager

variable {P : Platform} {m : FederationManager} {place : String → String} {s s' : Cluster}
  {e : ClusterEvent} {x : Bytes} {p : Party}

/-- A name that is not the one of the local store is that of the node. -/
theorem partyOf_of_ne {name : String} (h : name ≠ "local") :
    partyOf place name = .server (place name) := if_neg h

/-- Different names are different parties, where no two nodes have one server. -/
theorem partyOf_injective (hplace : Function.Injective place) :
    Function.Injective (partyOf place) := by
  intro name name' h
  rw [partyOf, partyOf] at h
  split_ifs at h with h1 h2
  · rw [h1, h2]
  · exact hplace (Party.server.inj h)

/-- The parties that have lost something in two runs, one after the other. -/
theorem losses_append (H H' : List ClusterEvent) : losses (H ++ H') = losses H ++ losses H' :=
  List.filterMap_append

section Step

variable (hcf : P.CollisionFree) (hhex : P.DigestsAreHex) (halone : m.store.Alone)
include hcf hhex halone

/-- **A step leaves no wrong copy**, and who has a blob still has it, if it is not the one that has
lost something. -/
theorem Agreed.step (h : Agreed P m s) (hstep : s.Step P m e s') (hfair : s.Fair P place e) :
    Agreed P m s' ∧ ∀ x p, s.Has P m x p → p ∈ losses [e] ∨ s'.Has P m x p := by
  cases e with
  | put y env r =>
    obtain ⟨hput, hdelivered⟩ := hstep
    obtain ⟨hupheld, -⟩ := federatedPut_spec hcf hhex halone hfair.2.2 h.sound hput
    obtain ⟨hdata, -⟩ := sent_spec env (x := y) hcf hhex halone h.sound
    have hblobs : ∀ url x, s'.blobs url (computeBlobId P x .blake3) =
        s.blobs url (computeBlobId P x .blake3) ∨
          s'.blobs url (computeBlobId P x .blake3) = some x := by
      intro url x
      rcases hdelivered.kept url (computeBlobId P x .blake3) with hsame | ⟨hid, ⟨n, hn, -⟩, hnew⟩
      · exact Or.inl hsame
      · rw [hdata (List.ne_nil_of_mem hn)] at hnew
        obtain rfl := computeBlobId_injective hcf hid
        exact Or.inr hnew
    refine ⟨⟨hupheld.sound, fun url x b hb => ?_⟩, fun x p hhas => Or.inr ?_⟩
    · rcases hblobs url x with hsame | hnew
      · exact h.blobs url x b (hsame ▸ hb)
      · exact Option.some.inj (hb.symm.trans hnew)
    · cases p with
      | own => exact hupheld.keeps x hhas
      | server url => exact (hblobs url x).elim (fun hsame => hsame.trans hhas) id
  | get y env r =>
    obtain ⟨hget, hsame⟩ := hstep
    have honest : ∀ n ∈ env.nodes, ∀ data,
        fetchFromNode env (computeBlobId P y .blake3) n = .ok (some data) → data = y :=
      fun n hn data hdata => h.blobs _ _ _ (hfair.2 n hn data hdata)
    obtain ⟨-, hupheld, -⟩ := federatedGet_spec hcf hhex halone h.sound honest hget
    refine ⟨⟨hupheld.sound, by rw [hsame]; exact h.blobs⟩, fun x p hhas => Or.inr ?_⟩
    cases p with
    | own => exact hupheld.keeps x hhas
    | server url =>
      rw [Has, hsame]
      exact hhas
  | lost q =>
    have hlost : ∀ p, p = q → p ∈ losses [.lost q] := fun p hp => hp ▸ List.mem_singleton_self q
    cases q with
    | own =>
      obtain ⟨hsame, -, hcwd, hnodes⟩ := hstep
      refine ⟨⟨⟨fun x loc b hplace hfile => ?_, fun hnative x => ?_⟩, by
        rw [hsame]; exact h.blobs⟩, fun x p hhas => ?_⟩
      · rw [hcwd] at hplace
        refine h.sound.places x loc b hplace ?_
        rcases hnodes loc with hnone | hnode
        · rw [Disk.fileAt, hnone] at hfile
          cases hfile
        · rwa [Disk.fileAt_congr hnode] at hfile
      · rintro ⟨dir, path, hpath, hdir⟩
        rw [hcwd] at hdir
        refine h.sound.clear hnative x ⟨dir, path, hpath, ?_⟩
        rcases hnodes (UnixPath.locate s.fed.disk.cwd path) with hnone | hnode
        · rw [hnone] at hdir
          cases hdir
        · rwa [hnode] at hdir
      · cases p with
        | own => exact Or.inl (hlost _ rfl)
        | server url => exact Or.inr ((congrFun (congrFun hsame url) _).trans hhas)
    | server url =>
      obtain ⟨hfed, hkept⟩ := hstep
      refine ⟨⟨hfed ▸ h.sound, fun u x b hb => ?_⟩, fun x p hhas => ?_⟩
      · rcases hkept u (computeBlobId P x .blake3) with hsame | ⟨-, hnone⟩
        · exact h.blobs u x b (hsame ▸ hb)
        · rw [hnone] at hb
          cases hb
      · cases p with
        | own =>
          have hkeeps : m.store.Keeps P x s.fed.disk := hhas
          rw [← hfed] at hkeeps
          exact Or.inr hkeeps
        | server u =>
          rcases hkept u (computeBlobId P x .blake3) with hsame | ⟨rfl, -⟩
          · exact Or.inr (hsame.trans hhas)
          · exact Or.inl (hlost _ rfl)

/-- **What a step records** of replicas is that a party has the blob. -/
theorem Agreed.replicas_step (h : Agreed P m s) (hstep : s.Step P m e s')
    (hfair : s.Fair P place e) {name : String}
    (hname : name ∈ s'.fed.replicas (computeBlobId P x .blake3)) :
    name ∈ s.fed.replicas (computeBlobId P x .blake3) ∨ s'.Has P m x (partyOf place name) := by
  cases e with
  | put y env r =>
    obtain ⟨hput, hdelivered⟩ := hstep
    obtain ⟨-, own, hown, -, hrecords⟩ :=
      federatedPut_spec hcf hhex halone hfair.2.2 h.sound hput
    obtain ⟨hdata, hlisted⟩ := sent_spec env (x := y) hcf hhex halone h.sound
    refine (hrecords.mem _ name hname).imp_right ?_
    rintro ⟨hid, hnew⟩
    obtain rfl := computeBlobId_injective hcf hid
    rcases hnew with ⟨rfl, htrue⟩ | ⟨n, hn, hpush, rfl⟩
    · exact hown htrue
    · have hplaced : n.server = place n.id ∧ n.id ≠ "local" := by
        rcases hlisted with hsub | hsub
        · exact ⟨hfair.1.server n (hsub.subset hn), hfair.1.named n (hsub.subset hn)⟩
        · exact ⟨hfair.2.1.server n (hsub.subset hn), hfair.2.1.named n (hsub.subset hn)⟩
      have hacked := hdelivered.acked n hn hpush
      rw [hdata (List.ne_nil_of_mem hn), hplaced.1] at hacked
      rw [partyOf_of_ne hplaced.2]
      exact hacked
  | get y env r =>
    obtain ⟨hget, hsame⟩ := hstep
    have honest : ∀ n ∈ env.nodes, ∀ data,
        fetchFromNode env (computeBlobId P y .blake3) n = .ok (some data) → data = y :=
      fun n hn data hdata => h.blobs _ _ _ (hfair.2 n hn data hdata)
    obtain ⟨-, -, hrecords, -⟩ := federatedGet_spec hcf hhex halone h.sound honest hget
    refine (hrecords.mem _ name hname).imp_right ?_
    rintro ⟨hid, hnew⟩
    obtain rfl := computeBlobId_injective hcf hid
    rcases hnew with ⟨rfl, hkeeps⟩ | ⟨n, hn, rfl, hanswer⟩
    · exact hkeeps
    · have hhad := hfair.2 n hn x hanswer
      rw [hfair.1.server n hn, ← hsame] at hhad
      rw [partyOf_of_ne (hfair.1.named n hn)]
      exact hhad
  | lost q =>
    have hmap : s'.fed.replicaMap = s.fed.replicaMap := by
      cases q with
      | own => exact hstep.2.1
      | server url => rw [hstep.1]
    rw [FedState.replicas, hmap] at hname
    exact Or.inl hname

/-- No name is recorded twice of a blob. -/
theorem Agreed.nodup_step (h : Agreed P m s) (hstep : s.Step P m e s') (hfair : s.Fair P place e)
    (hnodup : ∀ i, (s.fed.replicas i).Nodup) : ∀ i, (s'.fed.replicas i).Nodup := by
  cases e with
  | put y env r =>
    obtain ⟨-, own, -, -, hrecords⟩ :=
      federatedPut_spec hcf hhex halone hfair.2.2 h.sound hstep.1
    exact hrecords.nodup hnodup
  | get y env r =>
    have honest : ∀ n ∈ env.nodes, ∀ data,
        fetchFromNode env (computeBlobId P y .blake3) n = .ok (some data) → data = y :=
      fun n hn data hdata => h.blobs _ _ _ (hfair.2 n hn data hdata)
    obtain ⟨-, -, hrecords, -⟩ := federatedGet_spec hcf hhex halone h.sound honest hstep.1
    exact hrecords.nodup hnodup
  | lost q =>
    have hmap : s'.fed.replicaMap = s.fed.replicaMap := by
      cases q with
      | own => exact hstep.2.1
      | server url => rw [hstep.1]
    intro i
    rw [FedState.replicas, hmap]
    exact hnodup i

/-- **A run leaves no wrong copy**, and who has a blob still has it, if it has lost nothing. -/
theorem Agreed.run {H : List ClusterEvent} (h : Agreed P m s)
    (hrun : Run (fun s e s' => s.Step P m e s' ∧ s.Fair P place e) s H s') :
    Agreed P m s' ∧ ∀ x p, s.Has P m x p → p ∈ losses H ∨ s'.Has P m x p := by
  induction hrun with
  | nil => exact ⟨h, fun x p hhas => Or.inr hhas⟩
  | snoc _ he ih =>
    obtain ⟨hagreed, hkept⟩ := ih
    obtain ⟨hagreed', hstep⟩ := hagreed.step hcf hhex halone he.1 he.2
    refine ⟨hagreed', fun x p hhas => ?_⟩
    rw [losses_append, List.mem_append]
    rcases hkept x p hhas with hlost | hhas
    · exact Or.inl (Or.inl hlost)
    · exact (hstep x p hhas).imp_left Or.inr

/-- **Who is recorded has the blob**, or has lost something since the run began. -/
theorem Agreed.replicas_run {H : List ClusterEvent} (h : Agreed P m s)
    (hnew : ∀ i, s.fed.replicas i = [])
    (hrun : Run (fun s e s' => s.Step P m e s' ∧ s.Fair P place e) s H s') :
    (∀ i, (s'.fed.replicas i).Nodup) ∧
      ∀ x, ∀ name ∈ s'.fed.replicas (computeBlobId P x .blake3),
        partyOf place name ∈ losses H ∨ s'.Has P m x (partyOf place name) := by
  induction hrun with
  | nil =>
    refine ⟨fun i => by rw [hnew]; exact List.nodup_nil, fun x name hname => ?_⟩
    rw [hnew] at hname
    exact absurd hname List.not_mem_nil
  | snoc hrun he ih =>
    obtain ⟨hagreed, -⟩ := h.run hcf hhex halone hrun
    obtain ⟨-, hstep⟩ := hagreed.step hcf hhex halone he.1 he.2
    refine ⟨hagreed.nodup_step hcf hhex halone he.1 he.2 ih.1, fun x name hname => ?_⟩
    rw [losses_append, List.mem_append]
    rcases hagreed.replicas_step hcf hhex halone he.1 he.2 hname with hold | hhas
    · rcases ih.2 x name hold with hlost | hhas
      · exact Or.inl (Or.inl hlost)
      · exact (hstep x _ hhas).imp_left Or.inr
    · exact Or.inr hhas

end Step

/-- Whether a read asks a party and is answered, if it has the blob. -/
def Reaches (P : Platform) (env : Surroundings) (x : Bytes) : Party → Prop
  | .own => True
  | .server url => ∃ n ∈ env.nodes, n.server = url ∧
      fetchFromNode env (computeBlobId P x .blake3) n = .ok (some x)

/-- **A blob that outlives the losses is read**: where of some parties that had it, fewer than all
have lost something since or are out of reach. -/
theorem Agreed.read (hcf : P.CollisionFree) (hhex : P.DigestsAreHex) (halone : m.store.Alone)
    (h : Agreed P m s) {env : Surroundings} {r : Outcome SodlError (Option Bytes)}
    (hstep : s.Step P m (.get x env r) s') (hfair : s.Fair P place (.get x env r)) :
    (r = .ok none ∨ r = .ok (some x)) ∧
      ∀ parties lost down : List Party, parties.Nodup →
        (∀ p ∈ parties, p ∈ lost ∨ s.Has P m x p) →
        (∀ p, s.Has P m x p → p ∈ down ∨ Reaches P env x p) →
        (lost ++ down).toFinset.card < parties.length →
        (m.store.put (computeBlobId P x .blake3) x
          (m.tryLocal P env (computeBlobId P x .blake3) s.fed.disk).2).1 = .ok () →
        r = .ok (some x) := by
  have honest : ∀ n ∈ env.nodes, ∀ data,
      fetchFromNode env (computeBlobId P x .blake3) n = .ok (some data) → data = x :=
    fun n hn data hdata => h.blobs _ _ _ (hfair.2 n hn data hdata)
  obtain ⟨heither, -, -, hkeeps, hfound⟩ :=
    federatedGet_spec hcf hhex halone h.sound honest hstep.1
  refine ⟨heither, fun parties lost down hnodup hhad hreach hfew hput => ?_⟩
  -- one of the parties has the blob and is reached
  obtain ⟨p, hp, hout⟩ : ∃ p ∈ parties, p ∉ lost ++ down := by
    by_contra hall
    simp only [not_exists, not_and, not_not] at hall
    have hsub : parties.toFinset ⊆ (lost ++ down).toFinset :=
      fun p hp => List.mem_toFinset.mpr (hall p (List.mem_toFinset.mp hp))
    have hle := Finset.card_le_card hsub
    rw [List.toFinset_card_of_nodup hnodup] at hle
    exact absurd hfew (Nat.not_lt.mpr hle)
  rw [List.mem_append, not_or] at hout
  have hhas := (hhad p hp).resolve_left hout.1
  have hreached := (hreach p hhas).resolve_left hout.2
  cases p with
  | own => exact hkeeps hhas
  | server url =>
    obtain ⟨n, hn, -, hanswer⟩ := hreached
    exact hfound ⟨n, hn, hanswer⟩ hput

end Cluster

end Python

/-- **The records of replicas are kept.** From a manager that has recorded nothing, after any run:
the replicas it has recorded of a blob are parties, no two of them the same, that have the blob,
those apart that have lost something. A read returns the blob as long as the parties that have lost
something, and those that have it and are out of reach, are fewer than the recorded ones – so fewer
than `min_replicas`, where `check_replication` says that the policy is met. -/
theorem replicas_kept {P : Platform} (hcf : P.CollisionFree) (hhex : P.DigestsAreHex)
    {m : Python.FederationManager} (halone : m.store.Alone) {place : String → String}
    (hplace : Function.Injective place) {s₀ s : Python.Cluster}
    {H : List Python.ClusterEvent} (hstart : Python.Cluster.Agreed P m s₀)
    (hnew : ∀ i, s₀.fed.replicas i = [])
    (hrun : Run (fun s e s' => s.Step P m e s' ∧ s.Fair P place e) s₀ H s) (x : Bytes) :
    (((s.fed.replicas (computeBlobId P x .blake3)).map (Python.partyOf place)).Nodup ∧
      ∀ p ∈ (s.fed.replicas (computeBlobId P x .blake3)).map (Python.partyOf place),
        p ∈ Python.Cluster.losses H ∨ s.Has P m x p) ∧
    ∀ env r s', s.Step P m (.get x env r) s' → s.Fair P place (.get x env r) →
      ∀ down : List Python.Party,
        (∀ p, s.Has P m x p → p ∈ down ∨ Python.Cluster.Reaches P env x p) →
        (Python.Cluster.losses H ++ down).toFinset.card <
          (m.checkReplication (computeBlobId P x .blake3) s.fed).replicaCount →
        (m.store.put (computeBlobId P x .blake3) x
          (m.tryLocal P env (computeBlobId P x .blake3) s.fed.disk).2).1 = .ok () →
        r = .ok (some x) := by
  obtain ⟨hagreed, -⟩ := hstart.run hcf hhex halone hrun
  obtain ⟨hnodup, hhas⟩ := hstart.replicas_run hcf hhex halone hnew hrun
  have hparties := (hnodup (computeBlobId P x .blake3)).map
    (Python.Cluster.partyOf_injective hplace)
  have hstill : ∀ p ∈ (s.fed.replicas (computeBlobId P x .blake3)).map (Python.partyOf place),
      p ∈ Python.Cluster.losses H ∨ s.Has P m x p := by
    intro p hp
    obtain ⟨name, hname, rfl⟩ := List.mem_map.mp hp
    exact hhas x name hname
  refine ⟨⟨hparties, hstill⟩, fun env r s' hget hfair down hreach hfew htake => ?_⟩
  obtain ⟨-, hread⟩ := hagreed.read hcf hhex halone hget hfair
  refine hread _ _ down hparties hstill hreach ?_ htake
  rw [List.length_map]
  exact hfew

/-! ### A blob that outlives its store -/

private def quorumManager : Python.FederationManager :=
  ⟨⟨"/".toList, [], [], [], true⟩, ⟨2, "default"⟩, ⟨2, [], []⟩⟩

/-- Two healthy nodes that answer every request with a body. -/
private def bothUp (body : Bytes) : Python.Surroundings where
  nodes := [⟨"a", "a", "default", 0⟩, ⟨"b", "b", "default", 1⟩]
  laterNodes := []
  hasNet := ⟨fun _ => .error "refused", fun _ => .failed⟩
  getNet := ⟨fun _ => .error "refused", fun _ => .failed⟩
  reply _ _ := .response 200 (some body)
  completed nodes := nodes

private def nothingYet : Python.Cluster := ⟨⟨⟨[], ∅⟩, ∅⟩, fun _ _ => none⟩

private def sevens : BlobId := computeBlobId samplePlatform [7] .blake3

/-- The local store and both nodes have the blob. -/
private def putEverywhere : Python.Cluster where
  fed := (quorumManager.federatedPut samplePlatform (bothUp []) sevens [7] nothingYet.fed).2
  blobs url id := if (url = "a" ∨ url = "b") ∧ id = sevens then some [7] else none

/-- The local store has lost its files. -/
private def withoutFiles : Python.Cluster :=
  { putEverywhere with fed := { putEverywhere.fed with disk := ⟨[], ∅⟩ } }

private theorem mem_bothUp {body : Bytes} {n : Python.NodeInfo} (hn : n ∈ (bothUp body).nodes) :
    (n.server = "a" ∨ n.server = "b") ∧ n.server = n.id ∧ n.id ≠ "local" := by
  simp only [bothUp, List.mem_cons, List.not_mem_nil, or_false] at hn
  rcases hn with rfl | rfl <;> decide +kernel

private theorem placed_bothUp (body : Bytes) : Python.Placed id (bothUp body).nodes where
  nodup := by simp [bothUp]
  server _ hn := (mem_bothUp hn).2.1
  named _ hn := (mem_bothUp hn).2.2

private theorem agreed_nothingYet :
    Python.Cluster.Agreed samplePlatform quorumManager nothingYet where
  sound := Python.BlobStore.Sound.empty samplePlatform_digestsAreHex []
  blobs := by rintro url x b ⟨⟩

private theorem alone_quorumManager : quorumManager.store.Alone := ⟨rfl, rfl, rfl⟩

private theorem step_put : nothingYet.Step samplePlatform quorumManager
    (.put [7] (bothUp []) (.ok true)) putEverywhere := by
  obtain ⟨hdata, -⟩ := Python.FederationManager.sent_spec (m := quorumManager)
    (bothUp []) (x := [7]) samplePlatform_collisionFree samplePlatform_digestsAreHex
    alone_quorumManager agreed_nothingYet.sound
  have hservers : (quorumManager.sent samplePlatform (bothUp []) sevens [7]
      nothingYet.fed).1.map Python.NodeInfo.server = ["a", "b"] := by decide +kernel
  refine ⟨Prod.ext (by decide +kernel) rfl, fun n hn _ => ?_, fun url i => ?_⟩
  · have hserver : n.server ∈ ["a", "b"] := hservers ▸ List.mem_map_of_mem hn
    rw [hdata (List.ne_nil_of_mem hn)]
    exact if_pos ⟨by simpa using hserver, rfl⟩
  · by_cases hnew : (url = "a" ∨ url = "b") ∧ i = sevens
    · have hurl : url ∈ ["a", "b"] := by simpa using hnew.1
      rw [← hservers] at hurl
      obtain ⟨n, hn, hserver⟩ := List.mem_map.mp hurl
      rw [hdata (List.ne_nil_of_mem hn)]
      exact Or.inr ⟨hnew.2, ⟨n, hn, hserver⟩, if_pos hnew⟩
    · exact Or.inl (if_neg hnew)

private theorem fair_put :
    nothingYet.Fair samplePlatform id (.put [7] (bothUp []) (.ok true)) :=
  ⟨placed_bothUp [], ⟨List.nodup_nil, fun _ h => absurd h List.not_mem_nil,
    fun _ h => absurd h List.not_mem_nil⟩, fun _ => List.Perm.refl _⟩

private theorem step_lost :
    putEverywhere.Step samplePlatform quorumManager (.lost .own) withoutFiles := by
  refine ⟨rfl, rfl, by decide +kernel, fun loc => ?_⟩
  by_cases hroot : loc = []
  · exact Or.inr (by rw [Disk.nodeAt, Disk.nodeAt, if_pos hroot, if_pos hroot])
  · exact Or.inl (by rw [Disk.nodeAt, if_neg hroot]; rfl)

private theorem fair_get (r : Outcome SodlError (Option Bytes)) :
    withoutFiles.Fair samplePlatform id (.get [7] (bothUp [7]) r) := by
  have hsent : ∀ n ∈ (bothUp [7]).nodes, Python.fetchFromNode (bothUp [7]) sevens n =
      .ok (some [7]) := fun _ _ => rfl
  refine ⟨placed_bothUp [7], fun n hn data hdata => ?_⟩
  obtain rfl : [7] = data := Option.some.inj (Outcome.ok.inj ((hsent n hn).symm.trans hdata))
  exact if_pos ⟨(mem_bothUp hn).1, rfl⟩

private theorem reaches_bothUp {p : Python.Party}
    (hhas : withoutFiles.Has samplePlatform quorumManager [7] p) :
    Python.Cluster.Reaches samplePlatform (bothUp [7]) [7] p := by
  cases p with
  | own => trivial
  | server url =>
    have hurl : url = "a" ∨ url = "b" := by
      by_contra hother
      have hnone : withoutFiles.blobs url sevens = none := if_neg fun h => hother h.1
      exact absurd (hnone.symm.trans hhas) (by simp)
    rcases hurl with rfl | rfl
    · exact ⟨⟨"a", "a", "default", 0⟩, by simp [bothUp], by decide +kernel, rfl⟩
    · exact ⟨⟨"b", "b", "default", 1⟩, by simp [bothUp], by decide +kernel, rfl⟩
/-- The manager has recorded the local store and the node that was the first to acknowledge. -/
theorem replicas_kept_lost :
    (quorumManager.checkReplication sevens withoutFiles.fed).replicaNodes = ["a", "local"] ∧
      withoutFiles.Has samplePlatform quorumManager [7] (.server "a") ∧
      (quorumManager.federatedGet samplePlatform (bothUp [7]) sevens withoutFiles.fed).1 =
        .ok (some [7]) := by
  have hnodes : withoutFiles.fed.replicas sevens = ["a", "local"] := by decide +kernel
  obtain ⟨⟨-, hhas⟩, hread⟩ := replicas_kept samplePlatform_collisionFree
    samplePlatform_digestsAreHex alone_quorumManager Function.injective_id agreed_nothingYet
    (fun _ => rfl) (Run.cons ⟨step_put, fair_put⟩ (Run.single ⟨step_lost, True.intro⟩)) [7]
  refine ⟨hnodes, ?_, ?_⟩
  · have hmem : Python.Party.server "a" ∈
        (withoutFiles.fed.replicas sevens).map (Python.partyOf id) :=
      List.mem_map.mpr ⟨"a", hnodes ▸ List.mem_cons_self, by decide⟩
    exact (hhas _ hmem).resolve_left (by decide)
  · exact hread (bothUp [7]) _
      ⟨(quorumManager.federatedGet samplePlatform (bothUp [7]) sevens withoutFiles.fed).2, _⟩
      ⟨rfl, rfl⟩ (fair_get _) [] (fun p hhas => Or.inr (reaches_bothUp hhas)) (by decide +kernel)
      (by decide +kernel)

end Sodl
