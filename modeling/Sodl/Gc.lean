import Sodl.Platform
import Sodl.Stores

/-!
# The garbage collector

Planning and carrying out a collection (`crates/sodl-gc/src/lib.rs`). The planner
scans the origins – unreferenced, unpinned and out of their time to live – for
records to mark, and the blobs for counters at zero; the executor writes a
tombstone for each and deletes the blobs, ignoring a failed deletion.

What a plan contains is `Sodl.plan_eq_ok`: its blob half looks at the counters
alone.
-/

namespace Sodl

open Effect

/-! ### Points in time -/

/-- The first instant an `OffsetDateTime` holds: the year -9999. -/
def minDateTime : OffsetDateTime := -377705116800 * 1000000000

/-- The last instant an `OffsetDateTime` holds: the end of the year 9999. -/
def maxDateTime : OffsetDateTime := 253402300800 * 1000000000 - 1

/-- The `u64` a policy holds, cast to `i64`: from half of its range on the seconds come out
negative. -/
def asI64 (n : UInt64) : ℤ := n.toInt64.toInt

/-- `OffsetDateTime + Duration::seconds`, which panics where the sum is out of the range of
years. -/
def addSeconds (t : OffsetDateTime) (seconds : ℤ) : Outcome SodlError OffsetDateTime :=
  let t' := t + seconds * 1000000000
  if minDateTime ≤ t' ∧ t' ≤ maxDateTime then .ok t' else .panic

/-! ### Planning -/

/-- What a collection is going to do, as it was decided at the time of the plan. -/
structure GcPlan where
  blobDelete : List BlobId
  originTombstone : List OriginId
  deriving DecidableEq

/-- A planner: the instant it takes for now, and the grace window it was given. -/
structure GcPlanner where
  /-- Optional grace window after tombstoning before blob deletion. -/
  graceSeconds : Option Int64
  now : OffsetDateTime

namespace GcPlanner

/-- Whether an origin is to be marked: nothing refers to it, no pin is active, and
its time to live has passed. -/
def originTest (planner : GcPlanner) (oid : OriginId) : Service Bool := do
  let refs ← Store.getOriginCount oid
  if refs ≠ 0 then pure false
  else
    let pins ← Store.listPinsForOrigin oid
    if pins.any fun p => p.state ≠ .released then pure false
    else
      let policy ← Store.getOriginPolicy oid
      -- an origin without a time to live goes as soon as nothing holds it
      match policy.retention.ttlSeconds with
      | some ttl => do
        let r ← Store.getOrigin oid
        let expiresAt ← Prog.lift (addSeconds r.createdAt (asI64 ttl))
        pure !(planner.now < expiresAt)
      | none => pure true

/-- Whether a blob is to be deleted: its counter is zero, and nothing else is looked at. -/
def blobTest (bid : BlobId) : Service Bool := do
  let n ← Store.getBlobCount bid
  pure (n == 0)

/-- `GcPlanner::plan`: the origins of the index are tested first and its blobs behind them, and the
first call that fails ends the plan. -/
def plan (planner : GcPlanner) : Service GcPlan := do
  let oids ← Store.listOrigins
  let originTombstone ← Prog.select planner.originTest oids
  let bids ← Store.listBlobs
  let blobDelete ← Prog.select blobTest bids
  pure { blobDelete, originTombstone }

end GcPlanner

/-! ### Carrying a plan out -/

/-- An executor, with the instant that it stamps its tombstones with. -/
structure GcExecutor where
  now : OffsetDateTime

namespace GcExecutor

variable (P : Platform)

/-- The id of a fresh tombstone, by the UUID that was drawn for it. -/
def tombstoneId (uuid : Uuid) : String := "tomb:" ++ P.uuidToString uuid

/-- The tombstone of an origin, with the reason that the collector gives for all of them. -/
def originTombstone (exec : GcExecutor) (uuid : Uuid) (oid : OriginId) : Tombstone where
  tombstoneId := tombstoneId P uuid
  kind := .origin
  originId := some oid
  blobId := none
  reason := "gc_origin_candidate"
  createdAt := exec.now

/-- The tombstone of a blob, whose reason names the counter. -/
def blobTombstone (exec : GcExecutor) (uuid : Uuid) (bid : BlobId) : Tombstone where
  tombstoneId := tombstoneId P uuid
  kind := .blob
  originId := none
  blobId := some bid
  reason := "gc_blob_refcount_zero"
  createdAt := exec.now

/-- Mark one origin: a tombstone is put, and the record of the origin is left as it is. -/
def markOrigin (exec : GcExecutor) (oid : OriginId) : Service Unit := do
  let uuid ← Store.newV4
  Store.putTombstone (exec.originTombstone P uuid oid)

/-- Mark and delete one blob; whether the deletion worked is not looked at. -/
def deleteBlob (exec : GcExecutor) (bid : BlobId) : Service Unit := do
  let uuid ← Store.newV4
  Store.putTombstone (exec.blobTombstone P uuid bid)
  Prog.attempt (S := storeSig) (.deleteBlob bid)

/-- `GcExecutor::execute`: the origins are marked before the first blob is deleted, and no counter
is read again. -/
def execute (exec : GcExecutor) (plan : GcPlan) : Service Unit := do
  Prog.forEach (exec.markOrigin P) plan.originTombstone
  Prog.forEach (exec.deleteBlob P) plan.blobDelete

end GcExecutor

/-- One round of the collector: a plan, carried out at once, with the calls of others in between
where there are any. -/
def gcRound (P : Platform) (planner : GcPlanner) (exec : GcExecutor) : Service Unit := do
  let plan ← planner.plan
  exec.execute P plan

/-! ### What a plan contains -/

section Plan

variable {I : Type} [IndexBackend I]

theorem run_blobTest (bid : BlobId) (s : Stores I) :
    Prog.run Stores.handle (GcPlanner.blobTest bid) s =
      (.ok (IndexBackend.getBlob bid s.index == 0), s) := by
  simp [GcPlanner.blobTest, Prog.perform, Stores.handle]

/-- Testing an origin only reads: its counter, its pins, its policy and its record. -/
theorem originTest_reads (planner : GcPlanner) (oid : OriginId) (s : Stores I) :
    (planner.originTest oid).Preserves Stores.handle fun s' => s' = s := by
  refine Prog.Preserves.bind (.perform fun s' hs => hs) fun refs => ?_
  split
  · trivial
  · refine Prog.Preserves.bind (.perform fun s' hs => hs) fun pins => ?_
    split
    · trivial
    · refine Prog.Preserves.bind (.perform fun s' hs => hs) fun policy => ?_
      split
      · refine Prog.Preserves.bind (.perform fun s' hs => hs) fun r => ?_
        exact Prog.Preserves.bind (p := Prog.lift _) trivial fun _ => trivial
      · trivial

/-- Planning only reads, whatever comes of it. -/
theorem run_plan_snd (planner : GcPlanner) (s : Stores I) :
    (Prog.run Stores.handle planner.plan s).2 = s := by
  have hreads : planner.plan.Preserves Stores.handle fun s' => s' = s := by
    refine Prog.Preserves.bind (.perform fun s' hs => hs) fun oids => ?_
    refine Prog.Preserves.bind (.select fun o _ => originTest_reads planner o s) fun _ => ?_
    refine Prog.Preserves.bind (.perform fun s' hs => hs) fun bids => ?_
    refine Prog.Preserves.bind (.select fun b _ => ?_) fun _ => trivial
    exact Prog.Preserves.bind (.perform fun s' hs => hs) fun _ => trivial
  exact hreads.run rfl

/-- **What a plan contains**: the origins the index lists that pass the test, and the
blobs it lists with nothing on their counter, whatever the pins, the policies and
the grace window say. -/
theorem plan_eq_ok {planner : GcPlanner} {pl : GcPlan} {s : Stores I}
    (h : (Prog.run Stores.handle planner.plan s).1 = .ok pl) :
    (∃ oids, IndexBackend.listOrigins s.index = .ok oids ∧ ∀ o, o ∈ pl.originTombstone ↔
      o ∈ oids ∧ (Prog.run Stores.handle (planner.originTest o) s).1 = .ok true) ∧
    ∀ b, b ∈ pl.blobDelete ↔
      b ∈ IndexBackend.listBlobs s.index ∧ IndexBackend.getBlob b s.index = 0 := by
  obtain ⟨oids, s₁, hoids, h₁⟩ := Prog.run_bind_eq_ok (Prod.ext h rfl)
  obtain rfl : s = s₁ := (Prod.mk.inj hoids).2
  obtain ⟨marked, s₂, hmarked, h₂⟩ := Prog.run_bind_eq_ok h₁
  obtain ⟨rfl, -, hmark⟩ :=
    Prog.run_select_eq_ok (fun o => (originTest_reads planner o s).run rfl) hmarked
  obtain ⟨bids, s₃, hbids, h₃⟩ := Prog.run_bind_eq_ok h₂
  obtain rfl : s₂ = s₃ := (Prod.mk.inj hbids).2
  obtain rfl : IndexBackend.listBlobs s₂.index = bids := Outcome.ok.inj (Prod.mk.inj hbids).1
  obtain ⟨deleted, s₄, hdel, h₄⟩ := Prog.run_bind_eq_ok h₃
  have hreads : ∀ b, (Prog.run Stores.handle (GcPlanner.blobTest b) s₂).2 = s₂ := by
    intro b
    rw [run_blobTest]
  obtain ⟨rfl, -, hmem⟩ := Prog.run_select_eq_ok hreads hdel
  obtain rfl : _ = pl := Outcome.ok.inj (Prod.mk.inj h₄).1
  refine ⟨⟨oids, (Prod.mk.inj hoids).1, hmark⟩, fun b => ?_⟩
  rw [hmem b, run_blobTest, Outcome.ok.injEq, beq_iff_eq]

/-- What a plan deletes: the blobs that the index lists with their counter at zero. -/
theorem mem_blobDelete {planner : GcPlanner} {pl : GcPlan} {s : Stores I}
    (h : (Prog.run Stores.handle planner.plan s).1 = .ok pl) (b : BlobId) :
    b ∈ pl.blobDelete ↔
      b ∈ IndexBackend.listBlobs s.index ∧ IndexBackend.getBlob b s.index = 0 :=
  (plan_eq_ok h).2 b

/-- Where everything that is listed is counted, the plan is empty, whatever the policies say. -/
theorem run_plan_of_pos {planner : GcPlanner} {s : Stores I} {oids : List OriginId}
    (hoids : IndexBackend.listOrigins s.index = .ok oids)
    (horigins : ∀ o ∈ oids, 0 < IndexBackend.getOrigin o s.index)
    (hblobs : ∀ b ∈ IndexBackend.listBlobs s.index, 0 < IndexBackend.getBlob b s.index) :
    Prog.run Stores.handle planner.plan s = (.ok ⟨[], []⟩, s) := by
  have hlist : Prog.run Stores.handle Store.listOrigins s = (.ok oids, s) := Prod.ext hoids rfl
  have hnone : ∀ o ∈ oids, Prog.run Stores.handle (planner.originTest o) s = (.ok false, s) := by
    intro o ho
    have hcount : Prog.run Stores.handle (Store.getOriginCount o) s =
        (.ok (IndexBackend.getOrigin o s.index), s) := rfl
    rw [GcPlanner.originTest, Prog.run_bind_ok hcount,
      if_pos (Nat.pos_iff_ne_zero.mp (horigins o ho))]
    rfl
  have hblist : Prog.run Stores.handle Store.listBlobs s =
      (.ok (IndexBackend.listBlobs s.index), s) := rfl
  have hbnone : ∀ b ∈ IndexBackend.listBlobs s.index,
      Prog.run Stores.handle (GcPlanner.blobTest b) s = (.ok false, s) := by
    intro b hb
    rw [run_blobTest, beq_eq_false_iff_ne.mpr (Nat.pos_iff_ne_zero.mp (hblobs b hb))]
  rw [GcPlanner.plan, Prog.run_bind_ok hlist, Prog.run_bind_ok (Prog.run_select_ok hnone),
    Prog.run_bind_ok hblist, Prog.run_bind_ok (Prog.run_select_ok hbnone)]
  simp only [List.filter_false, Prog.pure_eq, Prog.run_ret]

end Plan

/-! ### What carrying a plan out does -/

section Execute

variable {P : Platform} {I : Type} [IndexBackend I]

/-- The stores with one more tombstone, for which a UUID was drawn. -/
def Stores.entomb (s : Stores I) (t : Tombstone) : Stores I :=
  { s with tombstones := s.tombstones ++ [t], uuids := fun n => s.uuids (n + 1) }

theorem run_execute (exec : GcExecutor) (pl : GcPlan) (s : Stores I) :
    Prog.run Stores.handle (exec.execute P pl) s =
      (.ok (), pl.blobDelete.foldl
        (fun s b => { s.entomb (exec.blobTombstone P (s.uuids 0) b) with blobs := s.blobs.erase b })
        (pl.originTombstone.foldl
          (fun s o => s.entomb (exec.originTombstone P (s.uuids 0) o)) s)) := by
  have hmark : ∀ o (s : Stores I), Prog.run Stores.handle (exec.markOrigin P o) s =
      (.ok (), s.entomb (exec.originTombstone P (s.uuids 0) o)) := fun _ _ => rfl
  have hdelete : ∀ b (s : Stores I), Prog.run Stores.handle (exec.deleteBlob P b) s =
      (.ok (), { s.entomb (exec.blobTombstone P (s.uuids 0) b) with
        blobs := s.blobs.erase b }) := fun _ _ => rfl
  rw [GcExecutor.execute, Prog.run_bind_ok (Prog.run_forEach_ok hmark _ _)]
  exact Prog.run_forEach_ok hdelete _ _

/-- **Carrying a plan out** deletes blobs of the plan, and leaves the registry and
the index alone. -/
theorem execute_frame (exec : GcExecutor) (pl : GcPlan) (s : Stores I) :
    (Prog.run Stores.handle (exec.execute P pl) s).2.registry = s.registry ∧
      (Prog.run Stores.handle (exec.execute P pl) s).2.index = s.index ∧
      (Prog.run Stores.handle (exec.execute P pl) s).2.blobs =
        s.blobs.eraseAll pl.blobDelete := by
  have hmark : ∀ (os : List OriginId) (s : Stores I),
      let s' := os.foldl (fun s o => s.entomb (exec.originTombstone P (s.uuids 0) o)) s
      s'.registry = s.registry ∧ s'.index = s.index ∧ s'.blobs = s.blobs := by
    intro os
    induction os with
    | nil => exact fun s => ⟨rfl, rfl, rfl⟩
    | cons o os ih => exact fun s => ih _
  have hdelete : ∀ (bs : List BlobId) (s : Stores I),
      let s' := bs.foldl (fun s b =>
        { s.entomb (exec.blobTombstone P (s.uuids 0) b) with blobs := s.blobs.erase b }) s
      s'.registry = s.registry ∧ s'.index = s.index ∧ s'.blobs = s.blobs.eraseAll bs := by
    intro bs
    induction bs with
    | nil => exact fun s => ⟨rfl, rfl, rfl⟩
    | cons b bs ih => exact fun s => ih _
  obtain ⟨hr, hi, hb⟩ := hmark pl.originTombstone s
  obtain ⟨hr', hi', hb'⟩ := hdelete pl.blobDelete _
  rw [run_execute]
  exact ⟨hr'.trans hr, hi'.trans hi, hb'.trans (congrArg (fun t => t.eraseAll pl.blobDelete) hb)⟩

end Execute

end Sodl
