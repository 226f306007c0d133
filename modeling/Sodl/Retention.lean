import Sodl.BlobRefs
import Sodl.Gc

/-!
# Retention

What `DURABILITY_SPEC.md` asks of the collector: bytes are deleted only where no
pin is active, the retention policy permits it and the grace window after a
tombstone is over. `Sodl.GcPlanner.Protects` says of an origin that one of the
three still holds it, and `Sodl.DeletesOnlyUnprotected` is the rule.

The planner asks these questions for the origins it marks; for the blobs it
deletes it reads the counter alone, and `tombstone_origin` gives the root blob
back at once. So a protected origin keeps its bytes through the references of
others, or not at all: `Sodl.deletesOnlyUnprotected_iff`.
-/

namespace Sodl

open Effect

variable {P : Platform}

/-! ### What protects an origin -/

/-- An origin whose bytes must not be deleted yet. -/
inductive GcPlanner.Protects (planner : GcPlanner) (s : Stores MemIndex) (o : OriginId) : Prop
  /-- A pin of the origin is not released. -/
  | pinned (pinId : String) (p : PinRecord) (hp : s.pins.lookup pinId = some p)
      (ho : p.target.originId = o) (hstate : p.state ≠ .released)
  /-- Its time to live has not passed. -/
  | unexpired (policy : OriginPolicy) (r : OriginRecord) (ttl : UInt64)
      (hpolicy : s.policies.lookup o = some policy) (hr : s.registry.lookup o = some r)
      (httl : policy.retention.ttlSeconds = some ttl)
      (hnow : planner.now < r.createdAt + (ttl.toNat : ℤ) * 1000000000)
  /-- The grace window after its tombstone has not passed. -/
  | grace (r : OriginRecord) (tombstonedAt : OffsetDateTime) (graceSeconds : Int64)
      (hr : s.registry.lookup o = some r) (ht : r.tombstonedAt = some tombstonedAt)
      (hg : planner.graceSeconds = some graceSeconds)
      (hnow : planner.now < tombstonedAt + graceSeconds.toInt * 1000000000)

/-- **The rule**: a plan deletes no blob of a protected origin. -/
def DeletesOnlyUnprotected (planner : GcPlanner) (pl : GcPlan) (H : History)
    (s : Stores MemIndex) : Prop :=
  ∀ b ∈ pl.blobDelete, ∀ u ∈ uploads H, b ∈ u.blobs → ¬planner.Protects s u.result.originId

/-! ### What keeps a blob -/

/-- A blob the counters hold on to: one of a live upload, or a chunk of any. -/
def KeptBlob (H : History) (b : BlobId) : Prop :=
  ∃ u ∈ uploads H, (u.result.originId ∉ tombstoned H ∧ b ∈ u.blobs) ∨ b ∈ u.result.chunkBlobs

/-- **When a counter is at zero**: no live upload refers to the blob, and no upload
at all has it as a chunk. -/
theorem BlobLedger.blobCount_eq_zero {H : History} {s : Stores MemIndex} (hi : BlobLedger H s)
    {b : BlobId} : s.index.blobCounts.get b = 0 ↔ ¬KeptBlob H b := by
  have hchunks : ∀ {us : List Upload}, chunkRefs us b = 0 ↔
      ∀ u ∈ us, b ∉ u.result.chunkBlobs := by
    intro us
    rw [chunkRefs, List.sum_eq_zero_iff_forall_eq_nat, List.forall_mem_map]
    simp only [List.count_eq_zero]
  have hblobs : ∀ {us : List Upload}, blobRefs us b = 0 ↔ ∀ u ∈ us, b ∉ u.blobs := by
    intro us
    rw [blobRefs, List.sum_eq_zero_iff_forall_eq_nat, List.forall_mem_map]
    simp only [List.count_eq_zero]
  rw [hi.blobCount_eq, Nat.add_eq_zero_iff, hblobs, hchunks]
  constructor
  · rintro ⟨hlive, hdead⟩ ⟨u, hu, ⟨hd, hb⟩ | hb⟩
    · exact hlive u (mem_liveUploads.mpr ⟨hu, hd⟩) hb
    · by_cases hd : u.result.originId ∈ tombstoned H
      · exact hdead u (mem_deadUploads.mpr ⟨hu, hd⟩) hb
      · exact hlive u (mem_liveUploads.mpr ⟨hu, hd⟩) (List.mem_cons_of_mem _ hb)
  · intro hnot
    refine ⟨fun u hu hb => ?_, fun u hu hb => ?_⟩
    · obtain ⟨hu, hd⟩ := mem_liveUploads.mp hu
      exact hnot ⟨u, hu, Or.inl ⟨hd, hb⟩⟩
    · exact hnot ⟨u, (mem_deadUploads.mp hu).1, Or.inr hb⟩

/-- **When the rule holds**: a plan deletes no blob of a protected origin if and
only if every protected origin that was tombstoned has a root blob some other
reference keeps. -/
theorem deletesOnlyUnprotected_iff {clock : ℕ → OffsetDateTime} {uuids : ℕ → Uuid} {H : History}
    {s : Stores MemIndex} {planner : GcPlanner} {pl : GcPlan}
    (hrun : Run (serviceStep P) (Stores.start clock uuids) H s)
    (hplan : (Prog.run Stores.handle planner.plan s).1 = .ok pl) :
    DeletesOnlyUnprotected planner pl H s ↔
      ∀ u ∈ uploads H, u.result.originId ∈ tombstoned H →
        planner.Protects s u.result.originId → KeptBlob H u.result.blobId := by
  have hi := blobLedger_of_run hrun
  have hmem : ∀ b, b ∈ pl.blobDelete ↔ b ∈ s.index.blobCounts.keys ∧ ¬KeptBlob H b := by
    intro b
    rw [mem_blobDelete hplan b, ← hi.blobCount_eq_zero]
    rfl
  constructor
  · -- the root of a tombstoned upload has a row, so the planner finds it
    intro hrule u hu _ hprot
    by_contra hkept
    have hroot : u.result.blobId ∈ u.blobs := List.mem_cons_self ..
    have hrow : u.result.blobId ∈ s.index.blobCounts.keys := hi.rows u hu _ hroot
    exact hrule _ ((hmem _).mpr ⟨hrow, hkept⟩) u hu hroot hprot
  · intro hkeep b hb u hu hbu hprot
    obtain ⟨-, hnot⟩ := (hmem b).mp hb
    have hd : u.result.originId ∈ tombstoned H := by
      by_contra hd
      exact hnot ⟨u, hu, Or.inl ⟨hd, hbu⟩⟩
    rcases List.mem_cons.mp hbu with rfl | hchunk
    · exact hnot (hkeep u hu hd hprot)
    · exact hnot ⟨u, hu, Or.inr hchunk⟩

/-! ### A pinned origin that was tombstoned -/

/-- A planner that runs a minute after the start, with a grace window of a day. -/
def samplePlanner : GcPlanner := ⟨some 86400, 60 * 1000000000⟩

theorem deletesOnlyUnprotected_iff_replay :
    let r := replay samplePlatform [plainUpload, firstPin] sampleStart
    DeletesOnlyUnprotected samplePlanner ⟨[], []⟩ r.1 r.2 ↔
      ∀ u ∈ uploads r.1, u.result.originId ∈ tombstoned r.1 →
        samplePlanner.Protects r.2 u.result.originId → KeptBlob r.1 u.result.blobId :=
  deletesOnlyUnprotected_iff (replay_run samplePlatform [plainUpload, firstPin] sampleStart)
    (by decide +kernel)

/-- An upload, a pin and a tombstone, a minute later a plan: it deletes the bytes
of a pinned origin, within its time to live and within the grace window. -/
theorem not_deletesOnlyUnprotected :
    ¬∀ (P : Platform) (clock : ℕ → OffsetDateTime) (uuids : ℕ → Uuid) (H : History)
      (s : Stores MemIndex) (planner : GcPlanner) (pl : GcPlan),
      Run (serviceStep P) (Stores.start clock uuids) H s →
      (Prog.run Stores.handle planner.plan s).1 = .ok pl →
      DeletesOnlyUnprotected planner pl H s := by
  intro h
  have hrun := replay_run samplePlatform [plainUpload, firstPin, firstTombstone] sampleStart
  have hrule := h samplePlatform _ _ _ _ samplePlanner
    ⟨[computeBlobId samplePlatform [1, 2, 3] .blake3], []⟩ hrun (by decide +kernel)
  have hres : (⟨⟨sampleUuid 0⟩, computeBlobId samplePlatform [1, 2, 3] .blake3, [], false⟩ :
      UploadResult) ∈ (uploads (replay samplePlatform [plainUpload, firstPin, firstTombstone]
        sampleStart).1).map Upload.result := by decide +kernel
  obtain ⟨u, hu, hres⟩ := List.mem_map.mp hres
  refine hrule _ (List.mem_singleton_self _) u hu ?_ ?_
  · rw [Upload.blobs, hres]
    exact List.mem_cons_self ..
  · rw [hres]
    exact .pinned (SodlService.pinIdOf samplePlatform (sampleUuid 2))
      (SodlService.originPin samplePlatform ⟨"alice"⟩ ⟨sampleUuid 0⟩ 1 (sampleUuid 2) 2000000000)
      (by decide +kernel) rfl (by decide)

end Sodl
