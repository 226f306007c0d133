import Sodl.Effect.Runs
import Sodl.Executor
import Sodl.Sample

/-!
# What a healthy record is worth

A record that the executor writes says that a node has a healthy replica of a blob: asked for
the blob, the store of the node should return bytes that fit its id. The executor checks no
bytes. It copies what the first node has that has something, and takes it that a node which
has something under the blob id has the blob.

Over any sequence of executions that succeed, the records stay true exactly if each execution
relies on bytes that fit only (`Sodl.recordsGenuine_iff`): at each node it takes, what the
node has, or else what is copied to it, fits the id (`Sodl.Verified`).
-/

namespace Sodl

open Effect

variable (P : Platform)

/-- A replica that is one: the store of the node returns bytes that fit the id. -/
def MeshState.Genuine (m : MeshState) (b : BlobId) (nodeId : String) : Prop :=
  ∃ data, (Prog.run MeshState.handle (do
    let st ← MeshProg.store nodeId
    MeshProg.get st b) m).1 = .ok data ∧ verifyIntegrity P b data = .ok ()

/-- Every record that was upserted as healthy names a replica that is one. -/
def RecordsGenuine (m : MeshState) : Prop :=
  ∀ r ∈ m.upserted, r.state = .healthy → m.Genuine P r.blobId r.nodeId

/-- One execution that succeeds. -/
def executeStep (m : MeshState) (plan : RepairPlan) (m' : MeshState) : Prop :=
  Prog.run MeshState.handle (ReplicaExecutor.execute plan) m = (.ok (), m')

/-- **Whether the bytes fit that a node ends up with**: its own, which it must give, or else
those that are copied. -/
def MeshState.EndsGenuine (m : MeshState) (b : BlobId) (n : MeshNode) : Prop :=
  match m.bytesAt b n with
  | some data => m.mesh.reads n = true ∧ verifyIntegrity P b data = .ok ()
  | none => ∃ data, m.sourceBytes b = some data ∧ verifyIntegrity P b data = .ok ()

/-- Whether a plan relies on bytes that fit only. -/
def Verified (m : MeshState) (plan : RepairPlan) : Prop :=
  ∀ b, ∀ n ∈ m.targets plan.items b, m.EndsGenuine P b n

variable {P} {m₀ m m' : MeshState} {taken : BlobId → List MeshNode} {b : BlobId} {n : MeshNode}

/-- What the store of a node returns. -/
theorem genuine_iff (hn : n ∈ m.mesh.nodes) : m.Genuine P b n.nodeId ↔
    m.mesh.reads n = true ∧ ∃ data, m.bytesAt b n = some data ∧
      verifyIntegrity P b data = .ok () := by
  rcases hst : n.store with e | st
  · have hstore : MeshState.handle (.store n.nodeId) m = (.err e, m) := by
      simp only [MeshState.handle, MeshState.storeOf_eq hn, hst]
    constructor
    · rintro ⟨data, hrun, -⟩
      rw [(Prog.run_bind_err hstore : Prog.run MeshState.handle (do
        let st ← MeshProg.store n.nodeId
        MeshProg.get st b) m = _)] at hrun
      exact absurd hrun (by simp)
    · rintro ⟨hr, -⟩
      simp [Mesh.reads, hst] at hr
  · have hstore : MeshState.handle (.store n.nodeId) m = (.ok st, m) := by
      simp only [MeshState.handle, MeshState.storeOf_eq hn, hst]
    have hrun : Prog.run MeshState.handle (do
        let st ← MeshProg.store n.nodeId
        MeshProg.get st b) m = MeshState.handle (.get st b) m := Prog.run_perform_bind hstore
    rw [MeshState.Genuine, hrun]
    rcases hr : m.mesh.reads n with _ | _
    · obtain ⟨e, he⟩ := run_get_err (b := b) hr hst
      rw [he]
      simp
    · rcases hb : m.bytesAt b n with _ | data
      · have hget : (MeshState.handle (.get st b) m).1 = .err .notFound := by
          simp only [MeshState.bytesAt, hst] at hb
          simp only [Mesh.reads, hst] at hr
          simp only [MeshState.handle, hb]
          split <;> simp_all
        rw [hget]
        simp
      · rw [run_get hr hst hb]
        simp

/-- A replica that is one is at a node of the mesh. -/
theorem MeshState.Genuine.exists_node {nodeId : String} (hg : m.Genuine P b nodeId) :
    ∃ n ∈ m.mesh.nodes, n.nodeId = nodeId := by
  rcases hf : m.mesh.nodes.find? fun n => n.nodeId = nodeId with _ | n
  · have hstore : MeshState.handle (.store nodeId) m = (.err .notFound, m) := by
      simp only [MeshState.handle, MeshState.storeOf, hf]
    obtain ⟨data, hrun, -⟩ := hg
    rw [(Prog.run_bind_err hstore : Prog.run MeshState.handle (do
      let st ← MeshProg.store nodeId
      MeshProg.get st b) m = _)] at hrun
    exact absurd hrun (by simp)
  · exact ⟨n, List.mem_of_find?_eq_some hf, by simpa using List.find?_some hf⟩

/-- A replica that is one stays one. -/
theorem Supplied.genuine (h : Supplied m₀ taken m) {nodeId : String}
    (hg : m₀.Genuine P b nodeId) : m.Genuine P b nodeId := by
  obtain ⟨n, hn, rfl⟩ := hg.exists_node
  obtain ⟨hr, data, hb, hv⟩ := (genuine_iff hn).mp hg
  rw [← h.mesh] at hn hr
  exact (genuine_iff hn).mpr ⟨hr, data, h.kept b n data hb, hv⟩

/-- Whether a node that was taken is a replica can be told beforehand. -/
theorem Supplied.genuine_iff (h : Supplied m₀ taken m) (ht : n ∈ taken b) :
    m.Genuine P b n.nodeId ↔ m₀.EndsGenuine P b n := by
  have hn : n ∈ m₀.mesh.nodes := by
    have hc : n ∈ m₀.candidates b := by
      rw [h.candidates b]
      exact List.mem_append_left _ ht
    exact (List.mem_filter.mp hc).1
  rw [Sodl.genuine_iff (h.mesh.symm ▸ hn), h.mesh, MeshState.EndsGenuine]
  rcases hb : m₀.bytesAt b n with _ | data
  · -- the bytes are copied to a store that works
    obtain ⟨data, hs⟩ := Option.isSome_iff_exists.mp (h.sourced b (List.ne_nil_of_mem ht))
    have hw : m₀.mesh.works n = true := by
      have htakes := h.takes b n ht
      rw [MeshState.takes, hb] at htakes
      simpa using htakes
    rw [h.copied b n n ht rfl hb]
    exact and_iff_right (Mesh.reads_of_works hw)
  · rw [h.kept b n data hb]
    simp

/-- **One execution** from true records leaves true records exactly if it relies on bytes
that fit only. -/
theorem recordsGenuine_step_iff {plan : RepairPlan} (hg : RecordsGenuine P m₀)
    (hstep : executeStep m₀ plan m) : RecordsGenuine P m ↔ Verified P m₀ plan := by
  rcases run_execute_cases m₀ plan.items with ⟨-, m', hrun, hsup⟩ |
    ⟨_, _, _, _, _, _, _, _, _, hrun, -⟩
  · obtain rfl : m' = m := congrArg Prod.snd (hrun.symm.trans hstep)
    obtain ⟨new, hnew, hhealthy, hmem⟩ := hsup.upserted
    constructor
    · intro hall b n hn
      obtain ⟨r, hr, rfl, hid⟩ := (hmem b n.nodeId).mpr ⟨n, hn, rfl⟩
      have hgr := hall r (hnew ▸ List.mem_append_right _ hr) (hhealthy r hr)
      rw [hid] at hgr
      exact (hsup.genuine_iff hn).mp hgr
    · rintro hver r hr hs
      rw [hnew] at hr
      rcases List.mem_append.mp hr with hr | hr
      · exact hsup.genuine (hg r hr hs)
      · obtain ⟨n, hn, hid⟩ := (hmem r.blobId r.nodeId).mp ⟨r, hr, rfl, rfl⟩
        rw [← hid]
        exact (hsup.genuine_iff hn).mpr (hver r.blobId n hn)
  · exact absurd (congrArg Prod.fst (hrun.symm.trans hstep)) (by simp)

/-- **When the records are true**: all along a sequence of executions that succeed, exactly
if each of them relies on bytes that fit only. -/
theorem recordsGenuine_iff {plans : List RepairPlan} (hnew : m₀.upserted = [])
    (hrun : Run executeStep m₀ plans m) :
    (∀ H H' t, plans = H ++ H' → Run executeStep m₀ H t → RecordsGenuine P t) ↔
      ∀ H plan H' t, plans = H ++ plan :: H' → Run executeStep m₀ H t → Verified P t plan := by
  refine Run.throughout_iff (I := fun _ t => RecordsGenuine P t)
    (C := fun _ t plan => Verified P t plan) ?_ ?_ ?_ hrun
  · intro s plan s' s'' h' h''
    exact congrArg Prod.snd (h'.symm.trans h'')
  · intro r hr
    rw [hnew] at hr
    exact absurd hr (by simp)
  · intro H plan H' t t' _ _ hstep hg
    exact recordsGenuine_step_iff hg hstep

/-! ### Bytes that do not fit -/

/-- A mesh of one node, without records, whose store has some bytes under the id of three. -/
def holding (data : Bytes) : MeshState where
  mesh := ⟨[⟨"n1", .ok 1⟩], by decide, fun _ => .working⟩
  contents := fun _ => Table.insert ∅ (computeBlobId samplePlatform [1, 2, 3] .blake3) data
  replicas := MemReplicaStore.new
  clock := fun k => 1000000000 * k
  upserted := []

/-- Ask for one replica. -/
def oneReplica : RepairPlan :=
  ⟨[{ blobId := computeBlobId samplePlatform [1, 2, 3] .blake3
      required := 1
      healthy := 0
      missing := 1 }]⟩

theorem holding_run (data : Bytes) : Run executeStep (holding data) [oneReplica]
    (Prog.run MeshState.handle (ReplicaExecutor.execute oneReplica) (holding data)).2 :=
  Run.single rfl

theorem recordsGenuine_iff_holding :
    (∀ H H' t, [oneReplica] = H ++ H' → Run executeStep (holding [1, 2, 3]) H t →
        RecordsGenuine samplePlatform t) ↔
      ∀ H plan H' t, [oneReplica] = H ++ plan :: H' →
        Run executeStep (holding [1, 2, 3]) H t → Verified samplePlatform t plan :=
  recordsGenuine_iff rfl (holding_run [1, 2, 3])

/-- **A record of other bytes**: the node has one byte under the id of three, and is
recorded as healthy. -/
theorem not_recordsGenuine :
    ¬∀ (P : Platform) (m₀ m : MeshState) (plans : List RepairPlan), m₀.upserted = [] →
      Run executeStep m₀ plans m → RecordsGenuine P m := by
  intro h
  have hall := h samplePlatform _ _ _ rfl (holding_run [9])
  obtain ⟨data, hget, hv⟩ := hall _ (List.mem_singleton_self _) rfl
  have hdata : data = [9] := (Outcome.ok.inj hget).symm
  rw [hdata] at hv
  have hbad : verifyIntegrity samplePlatform (computeBlobId samplePlatform [1, 2, 3] .blake3) [9] =
      .err .integrity := by
    decide +kernel
  exact absurd (hv.symm.trans hbad) (by simp)

end Sodl
