import Mathlib.Algebra.GroupWithZero.Nat
import Sodl.Replica

/-!
# What an execution of a repair plan does

The executor walks over the nodes of the mesh that have no healthy record of a blob
(`Sodl.MeshState.candidates`), in the order of the mesh, and takes one after the other
until enough are taken. A node can be taken (`Sodl.MeshState.takes`) if it has the blob or
its store takes it; the bytes come from the first node that has them
(`Sodl.MeshState.sourceBytes`).

What any part of an execution leaves is described by the nodes it took of each blob
(`Sodl.Supplied`): the candidates are fewer by just these, each of them has the blob, and
nothing that was there is overwritten. Whether the execution of a plan succeeds can be read
off the state before it (`Sodl.Feasible`), and so can the nodes it takes
(`Sodl.run_execute_cases`).
-/

namespace Sodl

open Effect

/-! ### Healthy records -/

namespace MemReplicaStore

/-- Whether the record of a node says that it is healthy, however old it is. -/
def marksHealthy (rs : MemReplicaStore) (b : BlobId) (nodeId : String) : Bool :=
  (rs.inner.lookup (b.val, nodeId)).any fun r => r.state = .healthy

/-- What a record adds to the count of the healthy replicas of a blob. -/
def freshShare (b : BlobId) (staleSeconds : ℤ) (now : OffsetDateTime) (r : ReplicaRecord) : ℕ :=
  if r.blobId.val = b.val ∧ r.state = .healthy ∧ wholeSeconds (now - r.lastSeen) ≤ staleSeconds
  then 1 else 0

variable {rs : MemReplicaStore} {b c : BlobId} {nodeId : String} {staleSeconds : ℤ}
  {now : OffsetDateTime} {r : ReplicaRecord}

theorem mem_listReplicas :
    r ∈ rs.listReplicas b ↔ r.blobId = b ∧ rs.inner.lookup (b.val, r.nodeId) = some r := by
  simp only [listReplicas, List.mem_filter, List.mem_map, decide_eq_true_eq, BlobId.val_inj]
  constructor
  · rintro ⟨⟨⟨k, r'⟩, he, rfl⟩, hb⟩
    have hl := Table.mem_entries.mp he
    rw [rs.keyed k r' hl, hb] at hl
    exact ⟨hb, hl⟩
  · rintro ⟨hb, hl⟩
    exact ⟨⟨⟨_, r⟩, Table.mem_entries.mpr hl, rfl⟩, hb⟩

/-- The nodes that the executor starts with as healthy are those with a healthy record of the blob,
however long ago it was seen. -/
theorem mem_healthyNodes :
    nodeId ∈ ((rs.listReplicas b).filter fun r => r.state = .healthy).map ReplicaRecord.nodeId ↔
      rs.marksHealthy b nodeId = true := by
  simp only [List.mem_map, List.mem_filter, mem_listReplicas, decide_eq_true_eq, marksHealthy,
    Option.any_eq_true]
  constructor
  · rintro ⟨r, ⟨⟨-, hl⟩, hs⟩, rfl⟩
    exact ⟨r, hl, hs⟩
  · rintro ⟨r, hl, hs⟩
    have hk := rs.keyed _ r hl
    simp only [Prod.mk.injEq] at hk
    exact ⟨r, ⟨⟨(BlobId.val_inj.mp hk.1).symm, hk.2 ▸ hl⟩, hs⟩, hk.2.symm⟩

/-- The number of healthy replicas, counted record by record. -/
theorem healthyCountWithStale_eq :
    rs.healthyCountWithStale b staleSeconds now =
      rs.inner.sumBy fun _ => freshShare b staleSeconds now := by
  -- one turn of the counting loop adds the share of the record
  have hstep : ∀ (n : ℤ) (r : ReplicaRecord), r.blobId.val = b.val →
      (if r.state ≠ .healthy then n
        else if wholeSeconds (now - r.lastSeen) ≤ staleSeconds then n + 1 else n) =
        n + freshShare b staleSeconds now r := by
    intro n r hb
    by_cases hs : r.state = .healthy
    · by_cases hw : wholeSeconds (now - r.lastSeen) ≤ staleSeconds
      · rw [if_neg (not_not.mpr hs), if_pos hw, freshShare, if_pos ⟨hb, hs, hw⟩]
        rfl
      · rw [if_neg (not_not.mpr hs), if_neg hw, freshShare, if_neg fun h => hw h.2.2]
        simp
    · rw [if_pos hs, freshShare, if_neg fun h => hs h.2.1]
      simp
  have hfold : ∀ (l : List ReplicaRecord) (n : ℤ),
      ((l.filter fun r => r.blobId.val = b.val).foldl (fun n r =>
        if r.state ≠ .healthy then n
        else if wholeSeconds (now - r.lastSeen) ≤ staleSeconds then n + 1 else n) n) =
      n + ((l.map (freshShare b staleSeconds now)).sum : ℕ) := by
    intro l
    induction l with
    | nil => simp
    | cons r l ih =>
      intro n
      by_cases hb : r.blobId.val = b.val
      · simp only [List.filter_cons, hb, decide_true, if_true, List.foldl_cons, hstep n r hb, ih,
          List.map_cons, List.sum_cons]
        omega
      · have hzero : freshShare b staleSeconds now r = 0 := if_neg fun h => hb h.1
        simp only [List.filter_cons, hb, decide_false, Bool.false_eq_true, if_false, ih,
          List.map_cons, List.sum_cons, hzero, Nat.zero_add]
  have h := hfold (rs.inner.entries.map Sigma.snd) 0
  rw [List.map_map, Int.zero_add] at h
  exact h

/-- The number of healthy replicas is not negative, though the source keeps it as a signed
number. -/
theorem healthyCountWithStale_nonneg : 0 ≤ rs.healthyCountWithStale b staleSeconds now := by
  rw [healthyCountWithStale_eq]
  exact Int.natCast_nonneg _

section Upsert

variable (h : r.state = .healthy)
include h

/-- A healthy record that is written marks its own node, and leaves the marks of all others. -/
theorem marksHealthy_upsert : (rs.upsertReplica r).marksHealthy c nodeId =
    (decide (c = r.blobId ∧ nodeId = r.nodeId) || rs.marksHealthy c nodeId) := by
  simp only [marksHealthy, upsertReplica, Table.lookup_insert, Prod.mk.injEq]
  by_cases hk : c = r.blobId ∧ nodeId = r.nodeId
  · rw [if_pos ⟨BlobId.val_inj.mpr hk.1, hk.2⟩]
    simp [hk, h]
  · rw [if_neg fun hk' => hk ⟨BlobId.val_inj.mp hk'.1, hk'.2⟩]
    simp [hk]

/-- A new healthy record counts, if it was seen now or later and no healthy record of the node was
there before. -/
theorem healthyCountWithStale_upsert_self (hnew : rs.marksHealthy r.blobId r.nodeId = false)
    (hstale : 0 ≤ staleSeconds) (hseen : now ≤ r.lastSeen) :
    (rs.upsertReplica r).healthyCountWithStale r.blobId staleSeconds now =
      rs.healthyCountWithStale r.blobId staleSeconds now + 1 := by
  have hage : wholeSeconds (now - r.lastSeen) ≤ staleSeconds := by
    refine Int.le_trans ?_ hstale
    have hle := Int.tdiv_le_tdiv (c := 1000000000) (by decide) (Int.sub_nonpos_of_le hseen)
    rwa [Int.zero_tdiv] at hle
  have hshare : freshShare r.blobId staleSeconds now r = 1 := by
    rw [freshShare, if_pos ⟨rfl, h, hage⟩]
  have hinner : (rs.upsertReplica r).inner = rs.inner.insert (r.blobId.val, r.nodeId) r := rfl
  rw [healthyCountWithStale_eq, healthyCountWithStale_eq, hinner]
  rcases hl : rs.inner.lookup (r.blobId.val, r.nodeId) with _ | old
  · rw [Table.sumBy_insert_new hl, hshare]
    omega
  · have hold : freshShare r.blobId staleSeconds now old = 0 := by
      rw [freshShare, if_neg]
      rintro ⟨-, hs, -⟩
      simp [marksHealthy, hl, hs] at hnew
    have hsum := Table.sumBy_replace (f := fun _ => freshShare r.blobId staleSeconds now)
      (v := r) hl
    rw [hshare, hold] at hsum
    omega

omit h in
/-- Records of other blobs do not count, whatever they replace. -/
theorem healthyCountWithStale_upsert_ne (hc : c ≠ r.blobId) :
    (rs.upsertReplica r).healthyCountWithStale c staleSeconds now =
      rs.healthyCountWithStale c staleSeconds now := by
  have hval : r.blobId.val ≠ c.val := fun hv => hc (BlobId.val_inj.mp hv).symm
  have hshare : freshShare c staleSeconds now r = 0 := if_neg fun h => hval h.1
  have hinner : (rs.upsertReplica r).inner = rs.inner.insert (r.blobId.val, r.nodeId) r := rfl
  rw [healthyCountWithStale_eq, healthyCountWithStale_eq, hinner]
  rcases hl : rs.inner.lookup (r.blobId.val, r.nodeId) with _ | old
  · rw [Table.sumBy_insert_new hl, hshare, Nat.zero_add]
  · have hold : freshShare c staleSeconds now old = 0 := by
      have hk := rs.keyed _ old hl
      simp only [Prod.mk.injEq] at hk
      exact if_neg fun h => hval (hk.1.trans h.1)
    have hsum := Table.sumBy_replace (f := fun _ => freshShare c staleSeconds now)
      (v := r) hl
    rw [hshare, hold] at hsum
    omega

end Upsert

end MemReplicaStore

/-! ### Nodes -/

namespace Mesh

variable (M : Mesh) (n : MeshNode)

/-- Whether a node says what it has: its store can be opened, and `has` does not fail there. -/
def answers : Bool :=
  match n.store with
  | .error _ => false
  | .ok st => match M.status st with
    | .down _ => false
    | _ => true

/-- Whether a node gives what it has: its store works, or is one that can only be read. -/
def reads : Bool :=
  match n.store with
  | .error _ => false
  | .ok st => match M.status st with
    | .working => true
    | .readOnly _ => true
    | _ => false

/-- Whether the store of a node works, so that a blob can be put there. -/
def works : Bool :=
  match n.store with
  | .error _ => false
  | .ok st => decide (M.status st = .working)

variable {M n}

/-- A store that works gives what it has, as every read is one of its calls. -/
theorem reads_of_works (h : M.works n = true) : M.reads n = true := by
  rw [works] at h
  rw [reads]
  split <;> simp_all

/-- A node that gives what it has says what it has: only one that is down does neither. -/
theorem answers_of_reads (h : M.reads n = true) : M.answers n = true := by
  rw [reads] at h
  rw [answers]
  split
  · simp_all
  · split <;> simp_all

end Mesh

namespace MeshState

/-- What a node has under a blob id, nothing where its store cannot be opened. -/
def bytesAt (m : MeshState) (b : BlobId) (n : MeshNode) : Option Bytes :=
  match n.store with
  | .error _ => none
  | .ok st => (m.contents st).lookup b

/-- Whether the executor gets a node to have a blob: it has it, or its store takes it. -/
def takes (m : MeshState) (b : BlobId) (n : MeshNode) : Bool :=
  m.mesh.works n || (m.mesh.answers n && (m.bytesAt b n).isSome)

/-- The nodes without a healthy record of a blob, in the order of the mesh. -/
def candidates (m : MeshState) (b : BlobId) : List MeshNode :=
  m.mesh.nodes.filter fun n => !m.replicas.marksHealthy b n.nodeId

/-- What the first of some nodes gives that has a blob or does not say. -/
def sourceAmong (m : MeshState) (b : BlobId) : List MeshNode → Option Bytes
  | [] => none
  | n :: ns =>
    if m.mesh.answers n && (m.bytesAt b n).isNone then m.sourceAmong b ns
    else if m.mesh.reads n then m.bytesAt b n
    else none

/-- The bytes that the executor copies: those of the first node that has the blob or does not say,
and none if that one does not give them. -/
def sourceBytes (m : MeshState) (b : BlobId) : Option Bytes := m.sourceAmong b m.mesh.nodes

/-- What the executor makes of a node it can take: a copy where there is none, and a healthy record,
seen at the reading of the clock. -/
def supply (m : MeshState) (b : BlobId) (bytes : Bytes) (n : MeshNode) : MeshState where
  mesh := m.mesh
  contents := match n.store with
    | .error _ => m.contents
    | .ok st =>
      if ((m.contents st).lookup b).isSome then m.contents
      else Function.update m.contents st ((m.contents st).insert b bytes)
  replicas := m.replicas.upsertReplica (ReplicaExecutor.healthyRecord b n.nodeId (m.clock 0))
  clock := fun k => m.clock (k + 1)
  upserted := m.upserted ++ [ReplicaExecutor.healthyRecord b n.nodeId (m.clock 0)]

end MeshState

/-- A node is found under its id, as no two nodes of a mesh have the same. -/
theorem MeshState.storeOf_eq {m : MeshState} {n : MeshNode} (hn : n ∈ m.mesh.nodes) :
    m.storeOf n.nodeId = n.store := by
  have hfind : ∀ ns : List MeshNode, (ns.map MeshNode.nodeId).Nodup → n ∈ ns →
      ns.find? (fun n' => n'.nodeId = n.nodeId) = some n := by
    intro ns hnd hn
    induction ns with
    | nil => exact absurd hn (by simp)
    | cons n' ns ih =>
      rw [List.map_cons, List.nodup_cons] at hnd
      rcases List.mem_cons.mp hn with rfl | hn
      · simp
      · have hne : n'.nodeId ≠ n.nodeId := fun he => hnd.1 (he ▸ List.mem_map_of_mem hn)
        rw [List.find?_cons_of_neg (by simpa using hne), ih hnd.2 hn]
  rw [storeOf, hfind _ m.mesh.distinct hn]

/-! ### The calls at a node -/

section Calls

variable {m : MeshState} {b : BlobId} {n : MeshNode} {α : Type}

/-- A node that says what it has: its store is there, and says so. -/
theorem run_has_bind (hn : n ∈ m.mesh.nodes) (ha : m.mesh.answers n = true)
    {k : ℕ → Bool → MeshProg α} :
    ∃ st, n.store = .ok st ∧ Prog.run MeshState.handle (do
      let st ← MeshProg.store n.nodeId
      let found ← MeshProg.has st b
      k st found) m = Prog.run MeshState.handle (k st (m.bytesAt b n).isSome) m := by
  rw [Mesh.answers] at ha
  rcases hst : n.store with e | st
  · simp [hst] at ha
  · refine ⟨st, rfl, ?_⟩
    have hstore : MeshState.handle (.store n.nodeId) m = (.ok st, m) := by
      simp only [MeshState.handle, MeshState.storeOf_eq hn, hst]
    have hhas : MeshState.handle (.has st b) m = (.ok (m.bytesAt b n).isSome, m) := by
      simp only [hst] at ha
      simp only [MeshState.handle, MeshState.bytesAt, hst]
      split
      · rename_i hdown
        simp [hdown] at ha
      · rfl
    rw [Prog.run_perform_bind hstore, Prog.run_perform_bind hhas]

/-- A node that does not say what it has fails the execution: the error of `has` is passed on. -/
theorem run_has_bind_err (hn : n ∈ m.mesh.nodes) (ha : m.mesh.answers n = false)
    {k : ℕ → Bool → MeshProg α} :
    ∃ e, Prog.run MeshState.handle (do
      let st ← MeshProg.store n.nodeId
      let found ← MeshProg.has st b
      k st found) m = (.err e, m) := by
  rcases hst : n.store with e | st
  · have hstore : MeshState.handle (.store n.nodeId) m = (.err e, m) := by
      simp only [MeshState.handle, MeshState.storeOf_eq hn, hst]
    exact ⟨e, Prog.run_bind_err hstore⟩
  · have hstore : MeshState.handle (.store n.nodeId) m = (.ok st, m) := by
      simp only [MeshState.handle, MeshState.storeOf_eq hn, hst]
    rw [Mesh.answers] at ha
    simp only [hst] at ha
    split at ha
    · rename_i e hdown
      have hhas : MeshState.handle (.has st b) m = (.err e, m) := by
        simp only [MeshState.handle, hdown]
      exact ⟨e, (Prog.run_perform_bind hstore).trans (Prog.run_bind_err hhas)⟩
    · exact absurd ha (by simp)

/-- A node that gives what it has is read, and nothing changes. -/
theorem run_get (hr : m.mesh.reads n = true) {st : ℕ} (hst : n.store = .ok st) {bytes : Bytes}
    (hb : m.bytesAt b n = some bytes) :
    MeshState.handle (.get st b) m = (.ok bytes, m) := by
  simp only [Mesh.reads, hst] at hr
  simp only [MeshState.bytesAt, hst] at hb
  simp only [MeshState.handle, hb]
  split <;> simp_all

/-- A node that does not give what it has fails the call, and nothing changes. -/
theorem run_get_err (hr : m.mesh.reads n = false) {st : ℕ} (hst : n.store = .ok st) :
    ∃ e, MeshState.handle (.get st b) m = (.err e, m) := by
  simp only [Mesh.reads, hst] at hr
  simp only [MeshState.handle]
  split at hr
  · exact absurd hr (by simp)
  · exact absurd hr (by simp)
  · rename_i hw hro
    split
    · exact ⟨_, rfl⟩
    · exact ⟨_, rfl⟩
    · rename_i hdown hun
      rcases hs : m.mesh.status st with _ | e | e | e
      · exact absurd hs hw
      · exact absurd hs (hro e)
      · exact absurd hs (hun e)
      · exact absurd hs (hdown e)

/-! ### Looking for a source -/

/-- Where there are bytes to copy, the search ends at a node that gives them. -/
theorem run_findSource_some {ns : List MeshNode} (hns : ∀ n ∈ ns, n ∈ m.mesh.nodes)
    {bytes : Bytes} (h : m.sourceAmong b ns = some bytes) :
    ∃ n ∈ m.mesh.nodes, m.mesh.reads n = true ∧ m.bytesAt b n = some bytes ∧
      Prog.run MeshState.handle (ReplicaExecutor.findSource b (ns.map MeshNode.nodeId)) m =
        (.ok (some n.nodeId), m) := by
  induction ns with
  | nil => exact absurd h (by simp [MeshState.sourceAmong])
  | cons n ns ih =>
    rw [MeshState.sourceAmong] at h
    have hn := hns n (List.mem_cons_self ..)
    split at h
    · -- the node has not got the blob
      rename_i hpass
      obtain ⟨n', hn', hr, hb, hrun⟩ := ih (fun n' h' => hns n' (List.mem_cons_of_mem _ h')) h
      rw [Bool.and_eq_true, Option.isNone_iff_eq_none] at hpass
      obtain ⟨st, -, hhas⟩ := run_has_bind (b := b) hn hpass.1 (k := fun _ found =>
        if found then pure (some n.nodeId)
        else ReplicaExecutor.findSource b (ns.map MeshNode.nodeId))
      refine ⟨n', hn', hr, hb, ?_⟩
      rw [List.map_cons, ReplicaExecutor.findSource, hhas, hpass.2]
      exact hrun
    · split at h
      · rename_i hr
        refine ⟨n, hn, hr, h, ?_⟩
        obtain ⟨st, -, hhas⟩ := run_has_bind (b := b) hn (Mesh.answers_of_reads hr)
          (k := fun _ found =>
            if found then pure (some n.nodeId)
            else ReplicaExecutor.findSource b (ns.map MeshNode.nodeId))
        rw [List.map_cons, ReplicaExecutor.findSource, hhas, h]
        rfl
      · exact absurd h (by simp)

/-- Where there are none, the search fails, or finds nothing, or ends at a node that does
not give what it has. -/
theorem run_findSource_none {ns : List MeshNode} (hns : ∀ n ∈ ns, n ∈ m.mesh.nodes)
    (h : m.sourceAmong b ns = none) :
    (∃ e, Prog.run MeshState.handle (ReplicaExecutor.findSource b (ns.map MeshNode.nodeId)) m =
        (.err e, m)) ∨
      Prog.run MeshState.handle (ReplicaExecutor.findSource b (ns.map MeshNode.nodeId)) m =
        (.ok none, m) ∨
      ∃ n ∈ m.mesh.nodes, m.mesh.reads n = false ∧
        Prog.run MeshState.handle (ReplicaExecutor.findSource b (ns.map MeshNode.nodeId)) m =
          (.ok (some n.nodeId), m) := by
  induction ns with
  | nil => exact Or.inr (Or.inl rfl)
  | cons n ns ih =>
    rw [MeshState.sourceAmong] at h
    have hn := hns n (List.mem_cons_self ..)
    rcases ha : m.mesh.answers n with _ | _
    · obtain ⟨e, he⟩ := run_has_bind_err (b := b) hn ha (k := fun _ found =>
        if found then pure (some n.nodeId)
        else ReplicaExecutor.findSource b (ns.map MeshNode.nodeId))
      exact Or.inl ⟨e, he⟩
    · obtain ⟨st, -, hhas⟩ := run_has_bind (b := b) hn ha (k := fun _ found =>
        if found then pure (some n.nodeId)
        else ReplicaExecutor.findSource b (ns.map MeshNode.nodeId))
      rw [List.map_cons, ReplicaExecutor.findSource, hhas]
      rcases hb : m.bytesAt b n with _ | bytes
      · rw [ha, hb] at h
        exact ih (fun n' h' => hns n' (List.mem_cons_of_mem _ h')) h
      · rcases hr : m.mesh.reads n with _ | _
        · exact Or.inr (Or.inr ⟨n, hn, hr, rfl⟩)
        · rw [ha, hb, hr] at h
          exact absurd h (by simp)

/-! ### The parts of a repair -/

/-- The nodes with a healthy record, as the executor lists them at the start of an item. A node it
takes is put in front of them. -/
def MeshState.healthyNodes (m : MeshState) (b : BlobId) : List String :=
  ((m.replicas.listReplicas b).filter fun r => r.state = .healthy).map ReplicaRecord.nodeId

/-- With bytes to copy, a repair is the walk over the nodes in the order of the mesh. -/
theorem run_repairBlob_some {item : RepairItem} (hmissing : 0 < item.missing) {bytes : Bytes}
    (h : m.sourceBytes item.blobId = some bytes) :
    Prog.run MeshState.handle (ReplicaExecutor.repairBlob item) m =
      Prog.run MeshState.handle (ReplicaExecutor.replicate item.blobId bytes
        (m.healthyNodes item.blobId) item.missing (m.mesh.nodes.map MeshNode.nodeId)) m := by
  obtain ⟨n, hn, hr, hb, hfind⟩ := run_findSource_some (fun n hn => hn) h
  obtain ⟨st, hst⟩ : ∃ st, n.store = .ok st := by
    rcases hst : n.store with e | st
    · simp [MeshState.bytesAt, hst] at hb
    · exact ⟨st, rfl⟩
  have hlist : MeshState.handle (.listReplicas item.blobId) m =
      (.ok (m.replicas.listReplicas item.blobId), m) := rfl
  have hids : MeshState.handle .nodeIds m = (.ok (m.mesh.nodes.map MeshNode.nodeId), m) := rfl
  have hstore : MeshState.handle (.store n.nodeId) m = (.ok st, m) := by
    simp only [MeshState.handle, MeshState.storeOf_eq hn, hst]
  rw [ReplicaExecutor.repairBlob, if_neg (Int.not_le.mpr hmissing),
    Prog.run_perform_bind hlist, Prog.run_perform_bind hids, Prog.run_bind_ok hfind]
  refine (Prog.run_perform_bind hstore).trans ?_
  refine (Prog.run_perform_bind (run_get hr hst hb)).trans ?_
  exact Prog.run_perform_bind hids

/-- Without, it fails before it takes a node, and no record is written. -/
theorem run_repairBlob_none {item : RepairItem} (hmissing : 0 < item.missing)
    (h : m.sourceBytes item.blobId = none) :
    ∃ e, Prog.run MeshState.handle (ReplicaExecutor.repairBlob item) m = (.err e, m) := by
  have hlist : MeshState.handle (.listReplicas item.blobId) m =
      (.ok (m.replicas.listReplicas item.blobId), m) := rfl
  have hids : MeshState.handle .nodeIds m = (.ok (m.mesh.nodes.map MeshNode.nodeId), m) := rfl
  rw [ReplicaExecutor.repairBlob, if_neg (Int.not_le.mpr hmissing),
    Prog.run_perform_bind hlist, Prog.run_perform_bind hids]
  rcases run_findSource_none (fun n hn => hn) h with ⟨e, hfind⟩ | hfind | ⟨n, hn, hr, hfind⟩
  · exact ⟨e, Prog.run_bind_err hfind⟩
  · rw [Prog.run_bind_ok hfind]
    exact ⟨.notFound, rfl⟩
  · rw [Prog.run_bind_ok hfind]
    rcases hst : n.store with e | st
    · have hstore : MeshState.handle (.store n.nodeId) m = (.err e, m) := by
        simp only [MeshState.handle, MeshState.storeOf_eq hn, hst]
      exact ⟨e, Prog.run_bind_err hstore⟩
    · have hstore : MeshState.handle (.store n.nodeId) m = (.ok st, m) := by
        simp only [MeshState.handle, MeshState.storeOf_eq hn, hst]
      obtain ⟨e, hget⟩ := run_get_err (b := item.blobId) hr hst
      exact ⟨e, (Prog.run_perform_bind hstore).trans (Prog.run_bind_err hget)⟩

/-- A repair that nothing is missing for does nothing: not even the source is looked for. -/
theorem run_repairBlob_done {item : RepairItem} (hmissing : item.missing ≤ 0) :
    Prog.run MeshState.handle (ReplicaExecutor.repairBlob item) m = (.ok (), m) := by
  rw [ReplicaExecutor.repairBlob, if_pos hmissing]
  rfl

variable {bytes : Bytes} {healthyNodes : List String} {remaining : ℤ} {nodeIds : List String}

/-- A healthy node is passed over, and the walk goes on with as many to go. -/
theorem run_replicate_skip (hk : 0 < remaining) (hh : n.nodeId ∈ healthyNodes) :
    Prog.run MeshState.handle
        (ReplicaExecutor.replicate b bytes healthyNodes remaining (n.nodeId :: nodeIds)) m =
      Prog.run MeshState.handle
        (ReplicaExecutor.replicate b bytes healthyNodes remaining nodeIds) m := by
  rw [ReplicaExecutor.replicate, if_neg (Int.not_le.mpr hk), if_pos hh]

/-- A node that can be taken is taken: the walk goes on over the nodes behind it, with one less to
go. -/
theorem run_replicate_take (hk : 0 < remaining) (hh : n.nodeId ∉ healthyNodes)
    (hn : n ∈ m.mesh.nodes) (ht : m.takes b n = true) :
    Prog.run MeshState.handle
        (ReplicaExecutor.replicate b bytes healthyNodes remaining (n.nodeId :: nodeIds)) m =
      Prog.run MeshState.handle (ReplicaExecutor.replicate b bytes
        (n.nodeId :: healthyNodes) (remaining - 1) nodeIds) (m.supply b bytes n) := by
  have ha : m.mesh.answers n = true := by
    rw [MeshState.takes, Bool.or_eq_true, Bool.and_eq_true] at ht
    rcases ht with hw | ⟨ha, -⟩
    · exact Mesh.answers_of_reads (Mesh.reads_of_works hw)
    · exact ha
  obtain ⟨st, hst, hhas⟩ := run_has_bind (b := b) hn ha (k := fun st found => do
    if found then pure () else MeshProg.put st b bytes
    let now ← MeshProg.nowUtc
    MeshProg.upsertReplica (ReplicaExecutor.healthyRecord b n.nodeId now)
    ReplicaExecutor.replicate b bytes (n.nodeId :: healthyNodes) (remaining - 1) nodeIds)
  rw [ReplicaExecutor.replicate, if_neg (Int.not_le.mpr hk), if_neg hh, hhas]
  rcases hb : m.bytesAt b n with _ | held
  · -- the store takes the bytes
    have hworks : m.mesh.status st = .working := by
      rw [MeshState.takes, hb] at ht
      simpa [Mesh.works, hst] using ht
    have hnone : (m.contents st).lookup b = none := by simpa [MeshState.bytesAt, hst] using hb
    have hsupply : m.supply b bytes n = { m with
        contents := Function.update m.contents st ((m.contents st).insert b bytes)
        replicas := m.replicas.upsertReplica (ReplicaExecutor.healthyRecord b n.nodeId (m.clock 0))
        clock := fun k => m.clock (k + 1)
        upserted := m.upserted ++ [ReplicaExecutor.healthyRecord b n.nodeId (m.clock 0)] } := by
      simp [MeshState.supply, hst, hnone]
    have hput : MeshState.handle (.put st b bytes) m = (.ok (), { m with
        contents := Function.update m.contents st ((m.contents st).insert b bytes) }) := by
      simp only [MeshState.handle, hworks]
    rw [hsupply]
    exact Prog.run_bind_ok (p := MeshProg.put st b bytes) (h := MeshState.handle) hput
  · -- the node has the blob
    have hsome : (m.contents st).lookup b = some held := by
      simpa [MeshState.bytesAt, hst] using hb
    have hsupply : m.supply b bytes n = { m with
        replicas := m.replicas.upsertReplica (ReplicaExecutor.healthyRecord b n.nodeId (m.clock 0))
        clock := fun k => m.clock (k + 1)
        upserted := m.upserted ++ [ReplicaExecutor.healthyRecord b n.nodeId (m.clock 0)] } := by
      simp [MeshState.supply, hst, hsome]
    rw [hsupply]
    rfl

/-- Any other node fails the execution: its store cannot be opened, does not answer or does not take
the copy. -/
theorem run_replicate_err (bytes : Bytes) (nodeIds : List String) (hk : 0 < remaining)
    (hh : n.nodeId ∉ healthyNodes) (hn : n ∈ m.mesh.nodes) (ht : m.takes b n = false) :
    ∃ e, Prog.run MeshState.handle
      (ReplicaExecutor.replicate b bytes healthyNodes remaining (n.nodeId :: nodeIds)) m =
        (.err e, m) := by
  rw [ReplicaExecutor.replicate, if_neg (Int.not_le.mpr hk), if_neg hh]
  rcases ha : m.mesh.answers n with _ | _
  · exact run_has_bind_err (b := b) hn ha (k := fun st found => do
      if found then pure () else MeshProg.put st b bytes
      let now ← MeshProg.nowUtc
      MeshProg.upsertReplica (ReplicaExecutor.healthyRecord b n.nodeId now)
      ReplicaExecutor.replicate b bytes (n.nodeId :: healthyNodes) (remaining - 1) nodeIds)
  · obtain ⟨st, hst, hhas⟩ := run_has_bind (b := b) hn ha (k := fun st found => do
      if found then pure () else MeshProg.put st b bytes
      let now ← MeshProg.nowUtc
      MeshProg.upsertReplica (ReplicaExecutor.healthyRecord b n.nodeId now)
      ReplicaExecutor.replicate b bytes (n.nodeId :: healthyNodes) (remaining - 1) nodeIds)
    rw [hhas]
    -- it has not got the blob and does not take it
    rw [MeshState.takes, Bool.or_eq_false_iff, ha, Bool.true_and] at ht
    have hnot : m.mesh.status st ≠ .working := by simpa [Mesh.works, hst] using ht.1
    rw [ht.2]
    rcases hs : m.mesh.status st with _ | e | e | e
    · exact absurd hs hnot
    all_goals
      have hput : MeshState.handle (.put st b bytes) m = (.err e, m) := by
        simp only [MeshState.handle, hs]
      exact ⟨e, Prog.run_bind_err hput⟩

end Calls

/-! ### What was taken -/

section Supply

variable {m : MeshState} {b c : BlobId} {bytes : Bytes} {n n' : MeshNode}

theorem bytesAt_congr (h : n'.store = n.store) : m.bytesAt c n' = m.bytesAt c n := by
  rw [MeshState.bytesAt, MeshState.bytesAt, h]

theorem works_congr {M : Mesh} (h : n'.store = n.store) : M.works n' = M.works n := by
  rw [Mesh.works, Mesh.works, h]

/-- The node that was supplied has the bytes from then on, and so has every node with the same
store. -/
theorem bytesAt_supply_self {st : ℕ} (hst : n.store = .ok st) (hnone : m.bytesAt b n = none)
    (h : n'.store = n.store) : (m.supply b bytes n).bytesAt b n' = some bytes := by
  simp only [MeshState.bytesAt, hst] at hnone
  simp [MeshState.bytesAt, MeshState.supply, h, hst, hnone]

/-- What was there before is left alone: other blobs, other stores, and a copy that was there
already. -/
theorem bytesAt_supply_of_ne (h : c = b → n'.store = n.store → (m.bytesAt b n).isSome) :
    (m.supply b bytes n).bytesAt c n' = m.bytesAt c n' := by
  rcases hst : n.store with e | st
  · simp only [MeshState.bytesAt, MeshState.supply, hst]
  · rcases hst' : n'.store with e | st'
    · simp only [MeshState.bytesAt, hst']
    · simp only [MeshState.bytesAt, MeshState.supply, hst, hst']
      split
      · rfl
      · rename_i hnone
        rcases Decidable.em (st' = st) with rfl | hne
        · rw [Function.update_self]
          refine Table.lookup_insert_ne fun hcb => hnone ?_
          have hsome := h hcb (hst'.trans hst.symm)
          rwa [MeshState.bytesAt, hst] at hsome
        · rw [Function.update_of_ne hne]

/-- The nodes that lack another blob stay the same. -/
theorem candidates_supply_ne (hc : c ≠ b) :
    (m.supply b bytes n).candidates c = m.candidates c := by
  rw [MeshState.candidates, MeshState.candidates]
  refine List.filter_congr fun n' _ => ?_
  have hmarks : (m.supply b bytes n).replicas.marksHealthy c n'.nodeId =
      m.replicas.marksHealthy c n'.nodeId := by
    rw [MeshState.supply, MemReplicaStore.marksHealthy_upsert rfl, decide_eq_false, Bool.false_or]
    exact fun h => hc h.1
  rw [hmarks]

/-- A node that is taken is no candidate any more, and the ones behind it still are. -/
theorem candidates_supply {rest : List MeshNode} (h : m.candidates b = n :: rest) :
    (m.supply b bytes n).candidates b = rest := by
  have hfilter : (m.supply b bytes n).candidates b =
      (m.candidates b).filter fun n' => !decide (n'.nodeId = n.nodeId) := by
    rw [MeshState.candidates, MeshState.candidates, List.filter_filter]
    refine List.filter_congr fun n' _ => ?_
    rw [MeshState.supply, MemReplicaStore.marksHealthy_upsert rfl]
    simp [ReplicaExecutor.healthyRecord]
  have hnd : ((n :: rest).map MeshNode.nodeId).Nodup := by
    rw [← h]
    exact m.mesh.distinct.sublist ((List.filter_sublist ..).map _)
  rw [List.map_cons, List.nodup_cons] at hnd
  rw [hfilter, h, List.filter_cons_of_neg (by simp), List.filter_eq_self]
  intro n' hn'
  have hne : n'.nodeId ≠ n.nodeId := fun he => hnd.1 (he ▸ List.mem_map_of_mem hn')
  simpa using hne

end Supply

/-- What an execution leaves of a state when it has taken some nodes for each blob. -/
structure Supplied (m₀ : MeshState) (taken : BlobId → List MeshNode) (m : MeshState) :
    Prop where
  mesh : m.mesh = m₀.mesh
  takes : ∀ c, ∀ n ∈ taken c, m₀.takes c n = true
  /-- The nodes were taken from the front of the candidates. -/
  candidates : ∀ c, m₀.candidates c = taken c ++ m.candidates c
  /-- What was there stays. -/
  kept : ∀ c n data, m₀.bytesAt c n = some data → m.bytesAt c n = some data
  /-- A node that is taken has the blob, from the source if it had not got it. -/
  copied : ∀ c n n', n ∈ taken c → n'.store = n.store → m₀.bytesAt c n' = none →
    m.bytesAt c n' = m₀.sourceBytes c
  other : ∀ c n', (∀ n ∈ taken c, n'.store ≠ n.store) → m₀.bytesAt c n' = none →
    m.bytesAt c n' = none
  sourced : ∀ c, taken c ≠ [] → (m₀.sourceBytes c).isSome
  clock : ∃ k, ∀ j, m.clock j = m₀.clock (j + k)
  /-- A node that is taken counts from then on. -/
  fresh : ∀ c staleSeconds now, 0 ≤ staleSeconds → (∀ k, now ≤ m₀.clock k) →
    m.replicas.healthyCountWithStale c staleSeconds now + (m.candidates c).length =
      m₀.replicas.healthyCountWithStale c staleSeconds now + (m₀.candidates c).length
  /-- The records are those of the nodes that were taken. -/
  upserted : ∃ new, m.upserted = m₀.upserted ++ new ∧ (∀ r ∈ new, r.state = .healthy) ∧
    ∀ c nodeId, (∃ r ∈ new, r.blobId = c ∧ r.nodeId = nodeId) ↔
      ∃ n ∈ taken c, n.nodeId = nodeId

namespace Supplied

variable {m₀ m : MeshState} {taken : BlobId → List MeshNode} {b c : BlobId} {n : MeshNode}

/-- Nothing is taken yet: the state at the start of an execution is supplied with no nodes. -/
theorem refl (m : MeshState) : Supplied m (fun _ => []) m where
  mesh := rfl
  takes _ _ hn := absurd hn (by simp)
  candidates _ := rfl
  kept _ _ _ h := h
  copied _ _ _ hn := absurd hn (by simp)
  other _ _ _ h := h
  sourced _ h := absurd rfl h
  clock := ⟨0, fun _ => rfl⟩
  fresh _ _ _ _ _ := rfl
  upserted := ⟨[], by simp, by simp, by simp⟩

/-- A node that got the blob shares its store with one that was taken, and the store
works. -/
theorem exists_taken (h : Supplied m₀ taken m) (hnone : m₀.bytesAt c n = none) {data : Bytes}
    (hsome : m.bytesAt c n = some data) :
    m₀.mesh.works n = true ∧ m.bytesAt c n = m₀.sourceBytes c := by
  by_cases hex : ∃ n' ∈ taken c, n.store = n'.store
  · obtain ⟨n', hn', hst⟩ := hex
    have htakes := h.takes c n' hn'
    rw [MeshState.takes, ← bytesAt_congr hst, hnone] at htakes
    refine ⟨?_, h.copied c n' n hn' hst hnone⟩
    rw [works_congr hst]
    simpa using htakes
  · have hother := h.other c n (fun n' hn' hst => hex ⟨n', hn', hst⟩) hnone
    rw [hother] at hsome
    exact absurd hsome (by simp)

/-- Which nodes can be taken does not change while others are taken: only a store that works is
given a copy, and its nodes could be taken before. -/
theorem takes_eq (h : Supplied m₀ taken m) (c : BlobId) (n : MeshNode) :
    m.takes c n = m₀.takes c n := by
  rw [MeshState.takes, MeshState.takes, h.mesh]
  rcases hb : m₀.bytesAt c n with _ | data
  · rcases hb' : m.bytesAt c n with _ | data
    · rfl
    · rw [(h.exists_taken hb hb').1]
      rfl
  · rw [h.kept c n data hb]

/-- Nor do the bytes that are copied: a node before the source that got the blob got it
from there. -/
theorem sourceBytes_eq (h : Supplied m₀ taken m) (c : BlobId) :
    m.sourceBytes c = m₀.sourceBytes c := by
  have hamong : ∀ ns, m.sourceAmong c ns = m₀.sourceAmong c ns ∨
      m.sourceAmong c ns = m₀.sourceBytes c := by
    intro ns
    induction ns with
    | nil => exact Or.inl rfl
    | cons n ns ih =>
      rw [MeshState.sourceAmong, MeshState.sourceAmong, h.mesh]
      rcases ha : m₀.mesh.answers n with _ | _
      · refine Or.inl ?_
        have hr : m₀.mesh.reads n = false := by
          rw [← Bool.not_eq_true] at ha ⊢
          exact fun hr => ha (Mesh.answers_of_reads hr)
        simp [hr]
      · rcases hb : m₀.bytesAt c n with _ | data
        · rcases hb' : m.bytesAt c n with _ | data
          · simpa using ih
          · obtain ⟨hw, hsource⟩ := h.exists_taken hb hb'
            refine Or.inr ?_
            simpa [Mesh.reads_of_works hw, hb'] using hsource
        · refine Or.inl ?_
          simp [h.kept c n data hb]
  rcases hamong m₀.mesh.nodes with hs | hs
  · rw [MeshState.sourceBytes, h.mesh, hs, MeshState.sourceBytes]
  · rw [MeshState.sourceBytes, h.mesh, hs]

/-- The nodes that were taken, after one more for one blob. -/
theorem mem_update_append {n' : MeshNode} :
    n' ∈ Function.update taken b (taken b ++ [n]) c ↔ n' ∈ taken c ∨ c = b ∧ n' = n := by
  rcases Decidable.em (c = b) with rfl | hcb
  · rw [Function.update_self, List.mem_append, List.mem_singleton, eq_self_iff_true, true_and]
  · rw [Function.update_of_ne hcb, or_iff_left fun h => hcb h.1]

section Supply

variable (h : Supplied m₀ taken m) {rest : List MeshNode} (hc : m.candidates b = n :: rest)
  (bytes : Bytes)
include h

/-- A node that shares its store with one that is taken has the bytes of the source. -/
theorem bytesAt_supply_taken {bytes : Bytes} (ht : m₀.takes b n = true)
    (hs : m₀.sourceBytes b = some bytes) {n₁ n' : MeshNode}
    (hn₁ : n₁ ∈ Function.update taken b (taken b ++ [n]) c) (hst : n'.store = n₁.store)
    (hnone : m₀.bytesAt c n' = none) :
    (m.supply b bytes n).bytesAt c n' = m₀.sourceBytes c := by
  by_cases hnew : c = b ∧ n'.store = n.store ∧ m.bytesAt b n = none
  · obtain ⟨rfl, hn', hb⟩ := hnew
    obtain ⟨st, hst'⟩ : ∃ st, n.store = .ok st := by
      rcases hst' : n.store with e | st
      · simp [MeshState.takes, Mesh.works, Mesh.answers, hst'] at ht
      · exact ⟨st, rfl⟩
    rw [bytesAt_supply_self hst' hb hn', hs]
  · -- the supply does not change what the node has
    have hsame : c = b → n'.store = n.store → (m.bytesAt b n).isSome := by
      intro hcb hn'
      rw [Option.isSome_iff_ne_none]
      exact fun hb => hnew ⟨hcb, hn', hb⟩
    rw [bytesAt_supply_of_ne hsame]
    rcases mem_update_append.mp hn₁ with hn₁ | ⟨rfl, rfl⟩
    · exact h.copied c n₁ n' hn₁ hst hnone
    · obtain ⟨data, hdata⟩ := Option.isSome_iff_exists.mp (hsame rfl hst)
      exact (h.exists_taken hnone ((bytesAt_congr hst).trans hdata)).2

include hc

/-- The node that is taken counts from then on: what the count gains, the candidates lose. -/
theorem fresh_supply {staleSeconds : ℤ} {now : OffsetDateTime} (hstale : 0 ≤ staleSeconds)
    (hnow : ∀ k, now ≤ m₀.clock k) :
    (m.supply b bytes n).replicas.healthyCountWithStale c staleSeconds now +
        ((m.supply b bytes n).candidates c).length =
      m₀.replicas.healthyCountWithStale c staleSeconds now + (m₀.candidates c).length := by
  have hold := h.fresh c staleSeconds now hstale hnow
  rcases Decidable.em (c = b) with rfl | hcb
  · have hmark : m.replicas.marksHealthy c n.nodeId = false := by
      have hn : n ∈ m.candidates c := by
        rw [hc]
        exact List.mem_cons_self ..
      simpa using (List.mem_filter.mp hn).2
    have hseen : now ≤ m.clock 0 := by
      obtain ⟨k, hk⟩ := h.clock
      rw [hk]
      exact hnow _
    have hsupply : (m.supply c bytes n).replicas.healthyCountWithStale c staleSeconds now =
        m.replicas.healthyCountWithStale c staleSeconds now + 1 :=
      MemReplicaStore.healthyCountWithStale_upsert_self
        (r := ReplicaExecutor.healthyRecord c n.nodeId (m.clock 0)) rfl hmark hstale hseen
    rw [hc, List.length_cons] at hold
    rw [hsupply, candidates_supply hc]
    omega
  · have hsupply : (m.supply b bytes n).replicas.healthyCountWithStale c staleSeconds now =
        m.replicas.healthyCountWithStale c staleSeconds now :=
      MemReplicaStore.healthyCountWithStale_upsert_ne hcb
    rw [hsupply, candidates_supply_ne hcb]
    exact hold

/-- **One more node**: the next candidate, which has the blob or takes the bytes of the
source. -/
theorem supply {bytes : Bytes} (ht : m₀.takes b n = true) (hs : m₀.sourceBytes b = some bytes) :
    Supplied m₀ (Function.update taken b (taken b ++ [n])) (m.supply b bytes n) where
  mesh := h.mesh
  takes c n' hn' := by
    rcases mem_update_append.mp hn' with hn' | ⟨rfl, rfl⟩
    · exact h.takes c n' hn'
    · exact ht
  -- the candidate goes over to those taken
  candidates c := by
    rcases Decidable.em (c = b) with rfl | hcb
    · rw [Function.update_self, candidates_supply hc, h.candidates c, hc, List.append_assoc]
      rfl
    · rw [Function.update_of_ne hcb, candidates_supply_ne hcb, h.candidates c]
  kept c n' data hn' := by
    have hm := h.kept c n' data hn'
    rw [bytesAt_supply_of_ne, hm]
    rintro rfl hst
    rw [← bytesAt_congr hst, hm]
    rfl
  copied _ _ _ hn₁ hst hnone := h.bytesAt_supply_taken ht hs hn₁ hst hnone
  other c n' hn' hnone := by
    have hother : c = b → n'.store ≠ n.store := fun hcb =>
      hn' n (mem_update_append.mpr (Or.inr ⟨hcb, rfl⟩))
    rw [bytesAt_supply_of_ne fun hcb he => absurd he (hother hcb)]
    exact h.other c n' (fun n₁ hn₁ => hn' n₁ (mem_update_append.mpr (Or.inl hn₁))) hnone
  sourced c hne := by
    rcases Decidable.em (c = b) with rfl | hcb
    · rw [hs]
      rfl
    · rw [Function.update_of_ne hcb] at hne
      exact h.sourced c hne
  clock := by
    obtain ⟨k, hk⟩ := h.clock
    refine ⟨k + 1, fun j => ?_⟩
    show m.clock (j + 1) = _
    rw [hk, Nat.add_right_comm, Nat.add_assoc]
  fresh c staleSeconds now hstale hnow := h.fresh_supply hc bytes hstale hnow
  -- the record that was written last is that of the node
  upserted := by
    obtain ⟨new, hnew, hhealthy, hmem⟩ := h.upserted
    refine ⟨new ++ [ReplicaExecutor.healthyRecord b n.nodeId (m.clock 0)], ?_, ?_, ?_⟩
    · show m.upserted ++ _ = _
      rw [hnew, List.append_assoc]
    · intro r hr
      rcases List.mem_append.mp hr with hr | hr
      · exact hhealthy r hr
      · rw [List.mem_singleton.mp hr]
        rfl
    · intro c nodeId
      constructor
      · rintro ⟨r, hr, hrc, hrn⟩
        rcases List.mem_append.mp hr with hr | hr
        · obtain ⟨n', hn', hid⟩ := (hmem c nodeId).mp ⟨r, hr, hrc, hrn⟩
          exact ⟨n', mem_update_append.mpr (Or.inl hn'), hid⟩
        · obtain rfl := List.mem_singleton.mp hr
          exact ⟨n, mem_update_append.mpr (Or.inr ⟨hrc.symm, rfl⟩), hrn⟩
      · rintro ⟨n', hn', hid⟩
        rcases mem_update_append.mp hn' with hn' | ⟨rfl, rfl⟩
        · obtain ⟨r, hr, hrc⟩ := (hmem c nodeId).mpr ⟨n', hn', hid⟩
          exact ⟨r, List.mem_append_left _ hr, hrc⟩
        · exact ⟨_, List.mem_append_right _ (List.mem_singleton_self _), rfl, hid⟩

end Supply

end Supplied

/-! ### A whole execution -/

section Execute

variable {m₀ m : MeshState} {taken : BlobId → List MeshNode} {b : BlobId}

/-- **The walk over the nodes** takes the candidates from the front, as many as are missing,
or it fails at one of them. The induction is on the nodes still ahead, among which are all
candidates. -/
theorem run_replicate {bytes : Bytes} (hs : m₀.sourceBytes b = some bytes)
    {ns : List MeshNode} (hns : ∀ n ∈ ns, n ∈ m₀.mesh.nodes)
    (hnd : (ns.map MeshNode.nodeId).Nodup) {healthyNodes : List String} (remaining : ℤ)
    (h : Supplied m₀ taken m)
    (hc : m.candidates b = ns.filter fun n => !decide (n.nodeId ∈ healthyNodes)) :
    ∃ o m' l, Prog.run MeshState.handle (ReplicaExecutor.replicate b bytes healthyNodes remaining
        (ns.map MeshNode.nodeId)) m = (o, m') ∧
      Supplied m₀ (Function.update taken b (taken b ++ l)) m' ∧
      (o = .ok () ∧ l = (m.candidates b).take remaining.toNat ∨
        (∃ e, o = .err e) ∧ l.length < remaining.toNat ∧
          ∃ n ∈ (m.candidates b).take remaining.toNat, m₀.takes b n = false) := by
  induction ns generalizing taken m healthyNodes remaining with
  | nil =>
    have hnil : m.candidates b = [] := hc
    refine ⟨.ok (), m, [], rfl, ?_, Or.inl ⟨rfl, by rw [hnil, List.take_nil]⟩⟩
    rwa [List.append_nil, Function.update_eq_self]
  | cons n ns ih =>
    have hn := hns n (List.mem_cons_self ..)
    have hns' : ∀ n' ∈ ns, n' ∈ m₀.mesh.nodes := fun n' hn' => hns n' (List.mem_cons_of_mem _ hn')
    rw [List.map_cons, List.nodup_cons] at hnd
    rcases Int.lt_or_le 0 remaining with hk | hk
    · by_cases hh : n.nodeId ∈ healthyNodes
      · rw [List.filter_cons_of_neg (by simpa using hh)] at hc
        rw [List.map_cons, run_replicate_skip hk hh]
        exact ih hns' hnd.2 remaining h hc
      · rw [List.filter_cons_of_pos (by simpa using hh)] at hc
        have hn' : n ∈ m.mesh.nodes := h.mesh.symm ▸ hn
        have htake : (m.candidates b).take remaining.toNat =
            n :: (ns.filter fun n' => !decide (n'.nodeId ∈ healthyNodes)).take
              (remaining - 1).toNat := by
          obtain ⟨k, rfl⟩ : ∃ k : ℕ, remaining = k + 1 := ⟨(remaining - 1).toNat, by omega⟩
          rw [hc, Int.toNat_natCast_add_one, Int.add_sub_cancel, Int.toNat_natCast]
          rfl
        rcases ht : m₀.takes b n with _ | _
        · -- the execution fails at this node
          obtain ⟨e, he⟩ := run_replicate_err bytes (ns.map MeshNode.nodeId) hk hh hn'
            ((h.takes_eq b n).trans ht)
          refine ⟨.err e, m, [], he, ?_, Or.inr ⟨⟨e, rfl⟩, ?_, n, ?_, ht⟩⟩
          · rwa [List.append_nil, Function.update_eq_self]
          · exact Int.lt_toNat.mpr hk
          · rw [htake]
            exact List.mem_cons_self ..
        · have hc' : (m.supply b bytes n).candidates b =
              ns.filter fun n' => !decide (n'.nodeId ∈ n.nodeId :: healthyNodes) := by
            rw [candidates_supply hc]
            refine List.filter_congr fun n' hn' => ?_
            have hne : n'.nodeId ≠ n.nodeId := fun he => hnd.1 (he ▸ List.mem_map_of_mem hn')
            simp [hne]
          obtain ⟨o, m', l, hrun, hsup, hend⟩ := ih hns' hnd.2 (remaining - 1)
            (h.supply hc ht hs) hc'
          refine ⟨o, m', n :: l, ?_, ?_, ?_⟩
          · rw [List.map_cons, run_replicate_take hk hh hn' ((h.takes_eq b n).trans ht), hrun]
          · rwa [Function.update_idem, Function.update_self, List.append_assoc] at hsup
          · rw [htake]
            rw [candidates_supply hc] at hend
            rcases hend with ⟨rfl, rfl⟩ | ⟨he, hlen, n', hn', ht'⟩
            · exact Or.inl ⟨rfl, rfl⟩
            · refine Or.inr ⟨he, ?_, n', List.mem_cons_of_mem _ hn', ht'⟩
              rw [List.length_cons]
              omega
    · -- enough are taken
      have hzero : remaining.toNat = 0 := Int.toNat_of_nonpos hk
      refine ⟨.ok (), m, [], ?_, ?_, Or.inl ⟨rfl, by rw [hzero, List.take_zero]⟩⟩
      · rw [List.map_cons, ReplicaExecutor.replicate, if_pos hk]
        rfl
      · rwa [List.append_nil, Function.update_eq_self]

/-- **One item** takes the candidates of its blob from the front, as many as are missing, or
it fails: there are no bytes to copy, or one of these candidates cannot be taken. -/
theorem run_repairBlob (item : RepairItem) (h : Supplied m₀ taken m) :
    ∃ o m' l, Prog.run MeshState.handle (ReplicaExecutor.repairBlob item) m = (o, m') ∧
      Supplied m₀ (Function.update taken item.blobId (taken item.blobId ++ l)) m' ∧
      (o = .ok () ∧ l = (m.candidates item.blobId).take item.missing.toNat ∧
          (0 < item.missing → (m₀.sourceBytes item.blobId).isSome) ∨
        (∃ e, o = .err e) ∧ l.length < item.missing.toNat ∧
          (m₀.sourceBytes item.blobId = none ∨
            ∃ n ∈ (m.candidates item.blobId).take item.missing.toNat,
              m₀.takes item.blobId n = false)) := by
  rcases Int.lt_or_le 0 item.missing with hk | hk
  · rcases hs : m₀.sourceBytes item.blobId with _ | bytes
    · obtain ⟨e, he⟩ := run_repairBlob_none hk ((h.sourceBytes_eq _).trans hs)
      refine ⟨.err e, m, [], he, ?_, Or.inr ⟨⟨e, rfl⟩, Int.lt_toNat.mpr hk, Or.inl rfl⟩⟩
      rwa [List.append_nil, Function.update_eq_self]
    · have hc : m.candidates item.blobId = m₀.mesh.nodes.filter fun n =>
          !decide (n.nodeId ∈ m.healthyNodes item.blobId) := by
        rw [MeshState.candidates, h.mesh]
        refine List.filter_congr fun n _ => ?_
        refine congrArg (! ·) (Bool.eq_iff_iff.mpr ?_)
        rw [decide_eq_true_eq]
        exact MemReplicaStore.mem_healthyNodes.symm
      obtain ⟨o, m', l, hrun, hsup, hend⟩ := run_replicate hs (fun n hn => hn)
        m₀.mesh.distinct item.missing h hc
      refine ⟨o, m', l, ?_, hsup, ?_⟩
      · rw [run_repairBlob_some hk ((h.sourceBytes_eq _).trans hs), h.mesh, hrun]
      · rcases hend with ⟨rfl, rfl⟩ | ⟨he, hlen, hbad⟩
        · exact Or.inl ⟨rfl, rfl, fun _ => rfl⟩
        · exact Or.inr ⟨he, hlen, Or.inr hbad⟩
  · refine ⟨.ok (), m, [], run_repairBlob_done hk, ?_, Or.inl ⟨rfl, ?_, fun hk' => ?_⟩⟩
    · rwa [List.append_nil, Function.update_eq_self]
    · rw [Int.toNat_of_nonpos hk, List.take_zero]
    · exact absurd hk (Int.not_le.mpr hk')

end Execute

/-- How many nodes some items ask for of a blob. An item with nothing missing asks for none. -/
def wanted (items : List RepairItem) (c : BlobId) : ℕ :=
  (items.map fun i => if i.blobId = c then i.missing.toNat else 0).sum

theorem wanted_snoc (items : List RepairItem) (i : RepairItem) (c : BlobId) :
    wanted (items ++ [i]) c = wanted items c + if i.blobId = c then i.missing.toNat else 0 := by
  simp [wanted]

/-- The nodes that an execution of some items takes for a blob: as many of its candidates as the
items ask for, in the order of the mesh. -/
def MeshState.targets (m : MeshState) (items : List RepairItem) (c : BlobId) : List MeshNode :=
  (m.candidates c).take (wanted items c)

/-- Whether an execution of some items succeeds: there are bytes to copy of each blob, and
the nodes that it takes can be taken. -/
def Feasible (m : MeshState) (items : List RepairItem) : Prop :=
  ∀ i ∈ items, 0 < i.missing → (m.sourceBytes i.blobId).isSome ∧
    ∀ n ∈ m.targets items i.blobId, m.takes i.blobId n = true

section Execute

variable {m₀ m : MeshState} {pre : List RepairItem} {i : RepairItem}

/-- What an item takes comes after what the items before it took, and is cut where the candidates
end. -/
theorem targets_snoc (h : Supplied m₀ (m₀.targets pre) m) (i : RepairItem) :
    Function.update (m₀.targets pre) i.blobId (m₀.targets pre i.blobId ++
      (m.candidates i.blobId).take i.missing.toNat) = m₀.targets (pre ++ [i]) := by
  funext c
  rcases Decidable.em (c = i.blobId) with rfl | hc
  · have hdrop : m.candidates i.blobId =
        (m₀.candidates i.blobId).drop (wanted pre i.blobId) := by
      have happ := h.candidates i.blobId
      nth_rewrite 1 [← List.take_append_drop (wanted pre i.blobId) (m₀.candidates i.blobId)]
        at happ
      exact (List.append_cancel_left happ).symm
    rw [Function.update_self, MeshState.targets, MeshState.targets, wanted_snoc, if_pos rfl,
      List.take_add, hdrop]
  · rw [Function.update_of_ne hc, MeshState.targets, MeshState.targets, wanted_snoc,
      if_neg (Ne.symm hc), Nat.add_zero]

/-- **What an execution does**: either it is feasible, and takes the nodes the items ask
for; or it fails at the first item with which it is not, which takes fewer nodes than it
asks for. The induction is on the items from the last one back. -/
theorem run_execute_cases (m₀ : MeshState) (items : List RepairItem) :
    (Feasible m₀ items ∧ ∃ m, Prog.run MeshState.handle (ReplicaExecutor.execute ⟨items⟩) m₀ =
        (.ok (), m) ∧ Supplied m₀ (m₀.targets items) m) ∨
      ∃ pre i post e m l, items = pre ++ i :: post ∧ Feasible m₀ pre ∧
        ¬Feasible m₀ (pre ++ [i]) ∧
        Prog.run MeshState.handle (ReplicaExecutor.execute ⟨items⟩) m₀ = (.err e, m) ∧
        Supplied m₀ (Function.update (m₀.targets pre) i.blobId (m₀.targets pre i.blobId ++ l)) m ∧
        l.length < i.missing.toNat := by
  induction items using List.reverseRecOn with
  | nil =>
    have htargets : m₀.targets [] = fun _ => [] := funext fun c => List.take_zero
    refine Or.inl ⟨fun i hi => absurd hi (by simp), m₀, rfl, ?_⟩
    rw [htargets]
    exact Supplied.refl m₀
  | append_singleton pre i ih =>
    rcases ih with ⟨hfeas, m, hrun, hsup⟩ | ⟨pre', j, post, e, m, l, rfl, hfeas, hnot, hrun, hsup,
      hlen⟩
    · have hsnoc : Prog.run MeshState.handle (ReplicaExecutor.execute ⟨pre ++ [i]⟩) m₀ =
          Prog.run MeshState.handle (ReplicaExecutor.repairBlob i) m := Prog.run_forEach_snoc hrun
      obtain ⟨o, m', l, hi, hsup', hend⟩ := run_repairBlob i hsup
      rcases hend with ⟨rfl, rfl, hsource⟩ | ⟨⟨e, rfl⟩, hlen, hbad⟩
      · rw [targets_snoc hsup] at hsup'
        refine Or.inl ⟨fun j hj hk => ⟨?_, hsup'.takes j.blobId⟩, m', hsnoc.trans hi, hsup'⟩
        rcases List.mem_append.mp hj with hj | hj
        · exact (hfeas j hj hk).1
        · obtain rfl := List.mem_singleton.mp hj
          exact hsource hk
      · refine Or.inr ⟨pre, i, [], e, m', l, rfl, hfeas, fun hfeas' => ?_, hsnoc.trans hi, hsup',
          hlen⟩
        obtain ⟨hsource, htakes⟩ := hfeas' i (by simp) (by omega)
        rcases hbad with hnone | ⟨n, hn, ht⟩
        · rw [hnone] at hsource
          exact absurd hsource (by simp)
        · rw [htakes n] at ht
          · exact absurd ht (by simp)
          · rw [← targets_snoc hsup, Function.update_self]
            exact List.mem_append_right _ hn
    · refine Or.inr ⟨pre', j, post ++ [i], e, m, l, by simp, hfeas, hnot, ?_, hsup, hlen⟩
      exact Prog.run_forEach_append_err hrun

end Execute

end Sodl
