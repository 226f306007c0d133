import Sodl.Replica

/-!
# The durability audit

Whether a pinned origin has as many healthy replicas as its policy asks for
(`crates/sodl-gc/src/lib.rs`). The auditor makes an item for each root blob that has too
few, and the gate says whether none has. Both read the records of the origin and a
replica store, which neither writes.
-/

namespace Sodl

open Effect

/-- What both are given beside the stores. -/
structure AuditParams where
  replicas : MemReplicaStore
  /-- Replicas older than this many seconds are treated as unhealthy. -/
  staleSeconds : ℤ
  now : OffsetDateTime

namespace AuditParams

/-- The healthy replicas of a blob. -/
def healthy (a : AuditParams) (b : BlobId) : ℤ :=
  a.replicas.healthyCountWithStale b a.staleSeconds a.now

end AuditParams

/-- The replicas a policy requires. -/
def OriginPolicy.requiredReplicas (policy : OriginPolicy) : ℤ :=
  (policy.retention.minReplicas.getD 1).toNat

/-- Whether a pin is not released. -/
def anyActive (pins : List PinRecord) : Bool := pins.any fun p => p.state ≠ .released

/-- `ReplicaAuditor::audit_origin`. -/
def auditOrigin (a : AuditParams) (originId : OriginId) : Service RepairPlan := do
  let pins ← Store.listPinsForOrigin originId
  if !anyActive pins then pure ⟨[]⟩
  else do
    let policy ← Store.getOriginPolicy originId
    -- what the pins themselves ask for is not looked at
    let required := policy.requiredReplicas
    let rec' ← Store.getOrigin originId
    pure ⟨rec'.representations.flatMap fun rep => rep.rootBlobs.filterMap fun b =>
      if a.healthy b < required then
        some { blobId := b, required, healthy := a.healthy b, missing := required - a.healthy b }
      else none⟩

/-- `DurabilityGate::can_delete_origin_bytes`. -/
def canDeleteOriginBytes (a : AuditParams) (originId : OriginId) : Service Bool := do
  let pins ← Store.listPinsForOrigin originId
  if !anyActive pins then pure true
  else do
    let policy ← Store.getOriginPolicy originId
    let required := policy.requiredReplicas
    let rec' ← Store.getOrigin originId
    pure (rec'.representations.all fun rep => rep.rootBlobs.all fun b =>
      decide (¬a.healthy b < required))

section Audit

variable {I : Type} [IndexBackend I]

/-- What is audited of an origin: its record and its policy, behind a pin. -/
structure Audited (s : Stores I) (o : OriginId) (policy : OriginPolicy) (r : OriginRecord) :
    Prop where
  pinned : anyActive ((s.pins.entries.map Sigma.snd).filter (Stores.targetsOrigin o)) = true
  policy : s.policies.lookup o = some policy
  record : s.registry.lookup o = some r

/-- The item of a blob. -/
def AuditParams.item (a : AuditParams) (required : ℤ) (b : BlobId) : RepairItem where
  blobId := b
  required := required
  healthy := a.healthy b
  missing := required - a.healthy b

/-- The root blobs that have too few healthy replicas. -/
def AuditParams.short (a : AuditParams) (required : ℤ) (roots : List BlobId) : List BlobId :=
  roots.filter fun b => a.healthy b < required

theorem AuditParams.mem_short {a : AuditParams} {required : ℤ} {roots : List BlobId}
    {b : BlobId} : b ∈ a.short required roots ↔ b ∈ roots ∧ a.healthy b < required := by
  rw [short, List.mem_filter, decide_eq_true_eq]

theorem AuditParams.short_eq_nil {a : AuditParams} {required : ℤ} {roots : List BlobId} :
    a.short required roots = [] ↔ ∀ b ∈ roots, required ≤ a.healthy b := by
  rw [List.eq_nil_iff_forall_not_mem]
  refine forall_congr' fun b => ?_
  rw [mem_short, not_and, Int.not_lt]

variable {s : Stores I} {o : OriginId} {policy : OriginPolicy} {r : OriginRecord}

/-- Both first look for a pin, and then read the policy and the record. -/
theorem run_audited {α : Type} {f : ℤ → OriginRecord → α} {d : α} (h : Audited s o policy r) :
    Prog.run Stores.handle (do
      let pins ← Store.listPinsForOrigin o
      if !anyActive pins then pure d
      else do
        let policy ← Store.getOriginPolicy o
        let rec' ← Store.getOrigin o
        pure (f policy.requiredReplicas rec')) s = (.ok (f policy.requiredReplicas r), s) := by
  have hpins : Prog.run Stores.handle (Store.listPinsForOrigin o) s =
      (.ok ((s.pins.entries.map Sigma.snd).filter (Stores.targetsOrigin o)), s) := rfl
  have hpolicy : Prog.run Stores.handle (Store.getOriginPolicy o) s = (.ok policy, s) :=
    Stores.run_found rfl h.policy
  have hrecord : Prog.run Stores.handle (Store.getOrigin o) s = (.ok r, s) :=
    Stores.run_found rfl h.record
  rw [Prog.run_bind_ok hpins, h.pinned, Bool.not_true, if_neg Bool.false_ne_true,
    Prog.run_bind_ok hpolicy, Prog.run_bind_ok hrecord]
  rfl

/-- **What an audit plans**: an item for each root blob that has too few healthy
replicas. -/
theorem run_auditOrigin (a : AuditParams) (h : Audited s o policy r) :
    Prog.run Stores.handle (auditOrigin a o) s =
      (.ok ⟨(a.short policy.requiredReplicas r.rootBlobs).map
        (a.item policy.requiredReplicas)⟩, s) := by
  let plan (required : ℤ) (r : OriginRecord) : RepairPlan :=
    ⟨r.representations.flatMap fun rep => rep.rootBlobs.filterMap fun b =>
      if a.healthy b < required then some (a.item required b) else none⟩
  have hrun : Prog.run Stores.handle (auditOrigin a o) s =
      (.ok (plan policy.requiredReplicas r), s) := run_audited (f := plan) h
  rw [hrun]
  refine congrArg (fun is => (Outcome.ok (RepairPlan.mk is), s)) ?_
  rw [AuditParams.short, OriginRecord.rootBlobs, List.filter_flatMap, List.map_flatMap]
  refine List.flatMap_congr fun rep _ => ?_
  induction rep.rootBlobs with
  | nil => rfl
  | cons b bs ih =>
    by_cases hb : a.healthy b < policy.requiredReplicas
    · simp only [List.filterMap_cons, List.filter_cons, hb, decide_true, if_true, List.map_cons, ih]
    · simp only [List.filterMap_cons, List.filter_cons, hb, decide_false, if_false,
        Bool.false_eq_true, ih]

/-- What the gate says: no root blob has too few healthy replicas. -/
theorem run_canDeleteOriginBytes (a : AuditParams) (h : Audited s o policy r) :
    Prog.run Stores.handle (canDeleteOriginBytes a o) s =
      (.ok (decide (a.short policy.requiredReplicas r.rootBlobs = [])), s) := by
  have hrun : Prog.run Stores.handle (canDeleteOriginBytes a o) s =
      (.ok (r.representations.all fun rep => rep.rootBlobs.all fun b =>
        decide (¬a.healthy b < policy.requiredReplicas)), s) :=
    run_audited (f := fun (required : ℤ) (r : OriginRecord) => r.representations.all fun rep =>
      rep.rootBlobs.all fun b => decide (¬a.healthy b < required)) h
  rw [hrun]
  refine congrArg (fun ok => (Outcome.ok ok, s)) ?_
  rw [Bool.eq_iff_iff, decide_eq_true_eq, AuditParams.short, OriginRecord.rootBlobs,
    List.filter_eq_nil_iff]
  simp only [List.all_eq_true, decide_eq_true_eq, List.mem_flatMap]
  constructor
  · rintro hall b ⟨rep, hrep, hb⟩
    exact hall rep hrep b hb
  · exact fun hall rep hrep b hb => hall b ⟨rep, hrep, hb⟩

end Audit

end Sodl
