import Sodl.Audit
import Sodl.Executor
import Sodl.History

/-!
# Repairs converge

After the plan of an audit was executed, a second audit should find nothing to repair. It
does not where a replica is stale: the auditor counts a healthy record only if it is recent
enough, while the executor passes over every node with a healthy record, however old.

A second audit is empty exactly if two conditions hold before the first
(`Sodl.repairConverges_iff`). Each blob that is short of replicas has at least as many nodes
without a healthy record as replicas are missing; and up to the first repair of each blob
the execution meets only nodes that do what it asks of them (`Sodl.Repairs`). On a mesh
where every store works, the second condition always holds
(`Sodl.repairs_iff_of_works`), and what is left is the count of the nodes.
-/

namespace Sodl

open Effect

/-! ### What an execution does to the counts -/

/-- What an audit over a mesh is given. -/
def MeshState.auditParams (m : MeshState) (staleSeconds : ℤ) (now : OffsetDateTime) :
    AuditParams where
  replicas := m.replicas
  staleSeconds := staleSeconds
  now := now

section Counts

variable {m₀ m : MeshState} {taken : BlobId → List MeshNode} {staleSeconds : ℤ}
  {now : OffsetDateTime}

/-- Each node that is taken adds one to the count. -/
theorem Supplied.healthy_eq (h : Supplied m₀ taken m) (hstale : 0 ≤ staleSeconds)
    (hnow : ∀ k, now ≤ m₀.clock k) (c : BlobId) :
    (m.auditParams staleSeconds now).healthy c =
      (m₀.auditParams staleSeconds now).healthy c + (taken c).length := by
  have hfresh := h.fresh c staleSeconds now hstale hnow
  rw [h.candidates c, List.length_append] at hfresh
  show m.replicas.healthyCountWithStale c staleSeconds now =
    m₀.replicas.healthyCountWithStale c staleSeconds now + _
  omega

theorem Supplied.length_le (h : Supplied m₀ taken m) (c : BlobId) :
    (taken c).length ≤ (m₀.candidates c).length := by
  rw [h.candidates c, List.length_append]
  exact Nat.le_add_right _ _

/-- What is left to repair: a blob has enough replicas now if it had, or if as many nodes were
taken as it was short of. -/
theorem Supplied.enough_iff (h : Supplied m₀ taken m) (hstale : 0 ≤ staleSeconds)
    (hnow : ∀ k, now ≤ m₀.clock k) (required : ℤ) (roots : List BlobId) :
    (∀ b ∈ roots, required ≤ (m.auditParams staleSeconds now).healthy b) ↔
      ∀ b ∈ (m₀.auditParams staleSeconds now).short required roots,
        required - (m₀.auditParams staleSeconds now).healthy b ≤ (taken b).length := by
  have heq := h.healthy_eq hstale hnow
  constructor
  · intro hall b hb
    have hb' := hall b (AuditParams.mem_short.mp hb).1
    rw [heq] at hb'
    omega
  · intro hall b hb
    rw [heq]
    by_cases hlt : (m₀.auditParams staleSeconds now).healthy b < required
    · have hb' := hall b (AuditParams.mem_short.mpr ⟨hb, hlt⟩)
      omega
    · omega

variable {a : AuditParams} {required : ℤ} {bs bs' : List BlobId} {b c : BlobId}

theorem wanted_eq_zero (hc : c ∉ bs) : wanted (bs.map (a.item required)) c = 0 := by
  rw [wanted, List.map_map]
  refine List.sum_eq_zero fun n hn => ?_
  obtain ⟨b, hb, rfl⟩ := List.mem_map.mp hn
  refine if_neg ?_
  rintro rfl
  exact hc hb

theorem missing_le_wanted (a : AuditParams) (required : ℤ) (hc : c ∈ bs) :
    required - a.healthy c ≤ wanted (bs.map (a.item required)) c := by
  obtain ⟨pre, post, rfl⟩ := List.append_of_mem hc
  have hitem : (if (a.item required c).blobId = c then (a.item required c).missing.toNat else 0) =
      (required - a.healthy c).toNat := if_pos rfl
  rw [wanted, List.map_append, List.map_append, List.sum_append, List.map_cons, List.map_cons,
    List.sum_cons, hitem]
  omega

theorem wanted_mono (h : bs' <+: bs) (c : BlobId) :
    wanted (bs'.map (a.item required)) c ≤ wanted (bs.map (a.item required)) c := by
  obtain ⟨rest, rfl⟩ := h
  rw [List.map_append, wanted, wanted, List.map_append, List.sum_append]
  exact Nat.le_add_right _ _

/-- Fewer items are no harder. -/
theorem Feasible.mono (h : bs' <+: bs) (hf : Feasible m (bs.map (a.item required))) :
    Feasible m (bs'.map (a.item required)) := by
  intro i hi hk
  have hsub : i ∈ bs.map (a.item required) := (h.map _).subset hi
  obtain ⟨hsource, htakes⟩ := hf i hsub hk
  exact ⟨hsource, fun n hn => htakes n (List.take_subset_take_left _ (wanted_mono h _) hn)⟩

end Counts

/-! ### The second audit -/

section Audits

variable {I : Type} [IndexBackend I] (staleSeconds : ℤ) (now : OffsetDateTime) (o : OriginId)

/-- Audit an origin, execute the plan, and audit it again with the same parameters. -/
def auditAfterRepair (s : Stores I) (m : MeshState) : Outcome SodlError RepairPlan := do
  let plan ← (Prog.run Stores.handle (auditOrigin (m.auditParams staleSeconds now) o) s).1
  let m' := (Prog.run MeshState.handle (ReplicaExecutor.execute plan) m).2
  (Prog.run Stores.handle (auditOrigin (m'.auditParams staleSeconds now) o) s).1

/-- Enough nodes with working stores for a blob, one of which holds it. -/
structure MeshState.CanSupply (m : MeshState) (required : ℤ) (b : BlobId) : Prop where
  enough : required ≤ m.mesh.nodes.countP m.mesh.works
  held : ∃ n ∈ m.mesh.nodes, m.mesh.works n = true ∧ (m.bytesAt b n).isSome

/-- A pinned origin that a mesh is able to hold often enough, audited at an instant that is
not later than the repair. -/
structure Repairable (s : Stores I) (m : MeshState) (policy : OriginPolicy) (r : OriginRecord) :
    Prop where
  audited : Audited s o policy r
  stale : 0 ≤ staleSeconds
  clock : ∀ k, now ≤ m.clock k
  supply : ∀ b ∈ r.rootBlobs, m.CanSupply policy.requiredReplicas b

/-- A second audit finds nothing to repair. -/
def RepairConverges (s : Stores I) (m : MeshState) : Prop :=
  ∀ policy r, Repairable staleSeconds now o s m policy r →
    auditAfterRepair staleSeconds now o s m = .ok ⟨[]⟩

end Audits

/-- **When repairing some short blobs, in this order, leaves none of them short**: there are
enough nodes without a healthy record of each, and the nodes do what is asked of them until
each of the blobs has been repaired once. -/
structure Repairs (m : MeshState) (a : AuditParams) (required : ℤ) (short : List BlobId) :
    Prop where
  /-- A node with a healthy record is passed over, also where the record is stale. -/
  enough : ∀ b ∈ short, required - a.healthy b ≤ (m.candidates b).length
  reached : ∃ bs, bs <+: short ∧ (∀ b ∈ short, b ∈ bs) ∧ Feasible m (bs.map (a.item required))

section Execution

variable {m : MeshState} {a : AuditParams} {required : ℤ}

/-- An execution that goes through takes what the blobs are short of, if there are enough
candidates. -/
theorem repairs_iff_of_feasible {short : List BlobId}
    (hfeas : Feasible m (short.map (a.item required)))
    (hle : ∀ c, (m.targets (short.map (a.item required)) c).length ≤ (m.candidates c).length) :
    (∀ b ∈ short, required - a.healthy b ≤ (m.targets (short.map (a.item required)) b).length) ↔
      Repairs m a required short := by
  constructor
  · intro hall
    refine ⟨fun b hb => ?_, short, List.prefix_rfl, fun b hb => hb, hfeas⟩
    have hb' := hall b hb
    have hb'' := hle b
    omega
  · intro hrep b hb
    have hw := missing_le_wanted a required hb
    have hc := hrep.enough b hb
    rw [MeshState.targets, List.length_take]
    omega

/-- An execution that fails at a blob takes what the blobs are short of, if each of them is
among those before and there are enough candidates. -/
theorem repairs_iff_of_failed {done todo : List BlobId} {b₀ : BlobId} {l : List MeshNode}
    (hlt : ∀ b ∈ done ++ b₀ :: todo, a.healthy b < required)
    (hfeas : Feasible m (done.map (a.item required)))
    (hnot : ¬Feasible m ((done ++ [b₀]).map (a.item required)))
    (hlen : l.length < (required - a.healthy b₀).toNat)
    (hle : ∀ c, (Function.update (m.targets (done.map (a.item required))) b₀
      (m.targets (done.map (a.item required)) b₀ ++ l) c).length ≤ (m.candidates c).length) :
    (∀ b ∈ done ++ b₀ :: todo, required - a.healthy b ≤
        (Function.update (m.targets (done.map (a.item required))) b₀
          (m.targets (done.map (a.item required)) b₀ ++ l) b).length) ↔
      Repairs m a required (done ++ b₀ :: todo) := by
  constructor
  -- a blob that is not among those before lacks the nodes it asked for
  · intro hall
    have hdone : ∀ b ∈ done ++ b₀ :: todo, b ∈ done := by
      intro b hb
      by_contra hnb
      have hb' := hall b hb
      have hlt' := hlt b hb
      rcases Decidable.em (b = b₀) with rfl | hne
      · rw [Function.update_self, MeshState.targets, wanted_eq_zero hnb, List.take_zero,
          List.nil_append] at hb'
        omega
      · rw [Function.update_of_ne hne, MeshState.targets, wanted_eq_zero hnb, List.take_zero,
          List.length_nil] at hb'
        omega
    refine ⟨fun b hb => ?_, done, List.prefix_append _ _, hdone, hfeas⟩
    have hb' := hall b hb
    have hb'' := hle b
    omega
  · intro hrep b hb
    -- the items before the failure repair every blob
    obtain ⟨bs, hbs, hmem, hf⟩ := hrep.reached
    have hpre : bs <+: done := by
      have hsnoc : done ++ [b₀] <+: done ++ b₀ :: todo := ⟨todo, by simp⟩
      rcases List.prefix_or_prefix_of_prefix hbs hsnoc with hle | hle
      · rcases List.prefix_concat_iff.mp hle with rfl | hle
        · exact absurd hf hnot
        · exact hle
      · exact absurd (hf.mono hle) hnot
    have hw := missing_le_wanted a required (hpre.subset (hmem b hb))
    have hc := hrep.enough b hb
    have hsub : (m.targets (done.map (a.item required)) b).length ≤
        (Function.update (m.targets (done.map (a.item required))) b₀
          (m.targets (done.map (a.item required)) b₀ ++ l) b).length := by
      rcases Decidable.em (b = b₀) with rfl | hne
      · rw [Function.update_self, List.length_append]
        exact Nat.le_add_right _ _
      · rw [Function.update_of_ne hne]
    refine le_trans ?_ (Int.ofNat_le.mpr hsub)
    rw [MeshState.targets, List.length_take]
    omega

end Execution

section Converges

variable {I : Type} [IndexBackend I] {staleSeconds : ℤ} {now : OffsetDateTime} {o : OriginId}
  {s : Stores I} {m : MeshState} {policy : OriginPolicy} {r : OriginRecord}

/-- The second audit is empty if no root blob is short any more. -/
theorem auditAfterRepair_eq (h : Audited s o policy r) :
    auditAfterRepair staleSeconds now o s m = .ok ⟨[]⟩ ↔
      ∀ b ∈ r.rootBlobs, policy.requiredReplicas ≤
        ((Prog.run MeshState.handle (ReplicaExecutor.execute
          ⟨((m.auditParams staleSeconds now).short policy.requiredReplicas r.rootBlobs).map
            ((m.auditParams staleSeconds now).item policy.requiredReplicas)⟩) m).2.auditParams
              staleSeconds now).healthy b := by
  rw [auditAfterRepair, run_auditOrigin _ h]
  simp only [Outcome.ok_bind]
  rw [run_auditOrigin _ h]
  simp only [Outcome.ok.injEq, RepairPlan.mk.injEq, List.map_eq_nil_iff]
  exact AuditParams.short_eq_nil

/-- **When a repair converges**: exactly if each root blob that is short has enough nodes
without a healthy record of it, and the nodes do what is asked of them until each of these
blobs has been repaired once. -/
theorem repairConverges_iff (h : Repairable staleSeconds now o s m policy r) :
    auditAfterRepair staleSeconds now o s m = .ok ⟨[]⟩ ↔
      Repairs m (m.auditParams staleSeconds now) policy.requiredReplicas
        ((m.auditParams staleSeconds now).short policy.requiredReplicas r.rootBlobs) := by
  rw [auditAfterRepair_eq h.audited]
  have hlt : ∀ b ∈ (m.auditParams staleSeconds now).short policy.requiredReplicas r.rootBlobs,
      (m.auditParams staleSeconds now).healthy b < policy.requiredReplicas :=
    fun b hb => (AuditParams.mem_short.mp hb).2
  rcases run_execute_cases m (((m.auditParams staleSeconds now).short policy.requiredReplicas
    r.rootBlobs).map ((m.auditParams staleSeconds now).item policy.requiredReplicas)) with
    ⟨hfeas, m', hrun, hsup⟩ | ⟨pre, i, post, e, m', l, hitems, hfeas, hnot, hrun, hsup, hlen⟩
  · rw [hrun, hsup.enough_iff h.stale h.clock]
    exact repairs_iff_of_feasible hfeas hsup.length_le
  · -- the execution fails at a blob, after those in `done`
    rw [hrun, hsup.enough_iff h.stale h.clock]
    obtain ⟨done, rest, hshort, rfl, hrest⟩ := List.map_eq_append_iff.mp hitems
    obtain ⟨b₀, todo, rfl, rfl, -⟩ := List.map_eq_cons_iff.mp hrest
    rw [hshort] at hlt ⊢
    exact repairs_iff_of_failed hlt hfeas (by simpa using hnot) hlen hsup.length_le

end Converges

/-! ### Where every store works -/

section Works

variable {m : MeshState} {a : AuditParams} {required : ℤ} {short : List BlobId} {b : BlobId}

/-- On a mesh whose stores work, the first node that has a blob gives it. -/
theorem sourceBytes_of_works (hworks : ∀ n ∈ m.mesh.nodes, m.mesh.works n = true)
    (hheld : ∃ n ∈ m.mesh.nodes, (m.bytesAt b n).isSome) : (m.sourceBytes b).isSome := by
  have hamong : ∀ ns : List MeshNode, (∀ n ∈ ns, m.mesh.works n = true) →
      (∃ n ∈ ns, (m.bytesAt b n).isSome) → (m.sourceAmong b ns).isSome := by
    intro ns hns hex
    induction ns with
    | nil => exact absurd hex (by simp)
    | cons n ns ih =>
      have hreads := Mesh.reads_of_works (hns n (List.mem_cons_self ..))
      rcases hb : m.bytesAt b n with _ | data
      · have hex' : ∃ n' ∈ ns, (m.bytesAt b n').isSome := by
          obtain ⟨n', hn', hsome⟩ := hex
          rcases List.mem_cons.mp hn' with rfl | hn'
          · rw [hb] at hsome
            exact absurd hsome (by simp)
          · exact ⟨n', hn', hsome⟩
        have hrest := ih (fun n' hn' => hns n' (List.mem_cons_of_mem _ hn')) hex'
        rw [MeshState.sourceAmong, hb, Mesh.answers_of_reads hreads]
        exact hrest
      · rw [MeshState.sourceAmong, hb, hreads]
        simp
  exact hamong _ hworks hheld

/-- **On a mesh whose stores work** only the number of nodes counts. -/
theorem repairs_iff_of_works (hworks : ∀ n ∈ m.mesh.nodes, m.mesh.works n = true)
    (hheld : ∀ b ∈ short, ∃ n ∈ m.mesh.nodes, (m.bytesAt b n).isSome) :
    Repairs m a required short ↔
      ∀ b ∈ short, required - a.healthy b ≤ (m.candidates b).length := by
  refine ⟨fun h => h.enough, fun h => ⟨h, short, List.prefix_rfl, fun b hb => hb, ?_⟩⟩
  intro i hi _
  obtain ⟨b, hb, rfl⟩ := List.mem_map.mp hi
  refine ⟨sourceBytes_of_works hworks (hheld b hb), fun n hn => ?_⟩
  have hn' : n ∈ m.mesh.nodes := (List.mem_filter.mp (List.mem_of_mem_take hn)).1
  rw [MeshState.takes, hworks n hn', Bool.true_or]

end Works

/-! ### A stale replica -/

/-- An upload of three bytes that was pinned. -/
def pinnedStores : Stores MemIndex := (replay samplePlatform [plainUpload, firstPin] sampleStart).2

/-- The root blob of the first upload. -/
def sampleRoot : BlobId := ⟨"blake3:0010203"⟩

/-- A mesh whose stores work and have the root blob, an hour after its one replica, on the
first node, was seen. -/
def sampleMesh (nodes : List MeshNode) (h : (nodes.map MeshNode.nodeId).Nodup) : MeshState where
  mesh := ⟨nodes, h, fun _ => .working⟩
  contents := fun _ => Table.insert ∅ sampleRoot [1, 2, 3]
  replicas := MemReplicaStore.new.upsertReplica ⟨sampleRoot, "n1", .healthy, 0⟩
  clock := fun k => 3600000000000 + 1000000000 * k
  upserted := []

/-- The one node has a stale replica. -/
def oneNode : MeshState := sampleMesh [⟨"n1", .ok 1⟩] (List.nodup_singleton _)

/-- A second node has no record. -/
def twoNodes : MeshState := sampleMesh [⟨"n1", .ok 1⟩, ⟨"n2", .ok 2⟩] (by decide)

theorem audited_pinnedStores :
    Audited pinnedStores ⟨sampleUuid 0⟩
      { (sampleRequest (some 3600) [1, 2, 3]).durabilityPolicy with originId := ⟨sampleUuid 0⟩ }
      (uploadRecord (sampleRequest (some 3600) [1, 2, 3]) ⟨sampleUuid 0⟩ sampleRoot 0) where
  pinned := by decide +kernel
  policy := by decide +kernel
  record := by decide +kernel

/-- With a second node the repair converges. -/
theorem repairConverges_iff_twoNodes :
    auditAfterRepair 60 3600000000000 ⟨sampleUuid 0⟩ pinnedStores twoNodes = .ok ⟨[]⟩ ↔
      Repairs twoNodes (twoNodes.auditParams 60 3600000000000) 1
        ((twoNodes.auditParams 60 3600000000000).short 1 [sampleRoot]) :=
  repairConverges_iff
    { audited := audited_pinnedStores
      stale := by decide
      clock := fun k => by
        show (3600000000000 : ℤ) ≤ 3600000000000 + 1000000000 * (k : ℤ)
        omega
      supply := fun b hb => by
        obtain rfl := List.mem_singleton.mp hb
        exact ⟨by decide, ⟨"n1", .ok 1⟩, List.mem_cons_self .., by decide +kernel⟩ }

/-- **A stale replica is not repaired**: the one node has the blob, and its healthy record
is too old to count, but not too old for the executor to pass the node over. -/
theorem not_repairConverges :
    ¬∀ (staleSeconds : ℤ) (now : OffsetDateTime) (o : OriginId) (s : Stores MemIndex)
      (m : MeshState), RepairConverges staleSeconds now o s m := by
  intro h
  have hempty := h 60 3600000000000 ⟨sampleUuid 0⟩ pinnedStores oneNode _ _
    { audited := audited_pinnedStores
      stale := by decide
      clock := fun k => by
        show (3600000000000 : ℤ) ≤ 3600000000000 + 1000000000 * (k : ℤ)
        omega
      supply := fun b hb => by
        obtain rfl := List.mem_singleton.mp hb
        exact ⟨by decide, ⟨"n1", .ok 1⟩, List.mem_cons_self .., by decide +kernel⟩ }
  have hagain : auditAfterRepair 60 3600000000000 ⟨sampleUuid 0⟩ pinnedStores oneNode =
      .ok ⟨[⟨sampleRoot, 1, 0, 1⟩]⟩ := by
    decide +kernel
  rw [hagain] at hempty
  exact absurd hempty (by simp)

end Sodl
