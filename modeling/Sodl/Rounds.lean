import Mathlib.Data.Int.ConditionallyCompleteOrder
import Mathlib.Order.ConditionallyCompleteLattice.Basic
import Mathlib.Order.Monotone.Basic
import Sodl.TimeToLive

/-!
# Round after round

A plan reads the index, the pins, the policies and the registry, and carrying it out
writes tombstones and deletes bytes (`Sodl.Stores.SameView`). So a round takes nothing
away that a plan is made from: what one round processed, the next one processes again,
and every round adds a tombstone for it.

Rounds at a clock that does not go back therefore come to rest only where there is nothing
to collect at any of them (`Sodl.converges_iff`).
-/

namespace Sodl

open Effect

variable {P : Platform}

/-! ### What a plan is made from -/

/-- Stores that show a planner the same. -/
structure Stores.SameView (s s' : Stores MemIndex) : Prop where
  index : s'.index = s.index
  registry : s'.registry = s.registry
  policies : s'.policies = s.policies
  pins : s'.pins = s.pins

namespace Stores.SameView

variable {s s' s'' : Stores MemIndex}

theorem refl (s : Stores MemIndex) : SameView s s := ⟨rfl, rfl, rfl, rfl⟩

theorem trans (h : SameView s s') (h' : SameView s' s'') : SameView s s'' where
  index := h'.index.trans h.index
  registry := h'.registry.trans h.registry
  policies := h'.policies.trans h.policies
  pins := h'.pins.trans h.pins

theorem idle_iff (h : SameView s s') (o : OriginId) : Idle s' o ↔ Idle s o := by
  constructor
  · rintro ⟨hrefs, hunpinned⟩
    rw [h.index] at hrefs
    rw [h.pins] at hunpinned
    exact ⟨hrefs, hunpinned⟩
  · rintro ⟨hrefs, hunpinned⟩
    refine ⟨?_, ?_⟩
    · rw [h.index]
      exact hrefs
    · rw [h.pins]
      exact hunpinned

theorem verdict_eq (h : SameView s s') (planner : GcPlanner) (o : OriginId) :
    planner.verdict s' o = planner.verdict s o := by
  rw [GcPlanner.verdict, GcPlanner.verdict, h.policies, h.registry]

/-- Whether a plan is made does not depend on the rest. -/
theorem plan_isOk_iff (h : SameView s s') (planner planner' : GcPlanner) :
    (Prog.run Stores.handle planner'.plan s').1.isOk = true ↔
      (Prog.run Stores.handle planner.plan s).1.isOk = true := by
  rw [plan_isOk_iff_idle, plan_isOk_iff_idle, h.index]
  refine forall₂_congr fun o _ => ?_
  rw [h.idle_iff, isOk_verdict, isOk_verdict, h.policies, h.registry]

end Stores.SameView

/-- Carrying a plan out changes nothing that a plan is made from. -/
theorem sameView_execute (exec : GcExecutor) (pl : GcPlan) (s : Stores MemIndex) :
    s.SameView (Prog.run Stores.handle (exec.execute P pl) s).2 := by
  have hkeep : (exec.execute P pl).Preserves Stores.handle s.SameView := by
    refine Prog.Preserves.bind (.forEach fun o _ => ?_) fun _ => .forEach fun b _ => ?_
    · exact Prog.Preserves.bind (.perform fun t ht => ht.trans ⟨rfl, rfl, rfl, rfl⟩)
        fun _ => .perform fun t ht => ht.trans ⟨rfl, rfl, rfl, rfl⟩
    · exact Prog.Preserves.bind (.perform fun t ht => ht.trans ⟨rfl, rfl, rfl, rfl⟩) fun _ =>
        .bind (.perform fun t ht => ht.trans ⟨rfl, rfl, rfl, rfl⟩) fun _ =>
        .attempt fun t ht => ht.trans ⟨rfl, rfl, rfl, rfl⟩
  exact hkeep.run (.refl s)

/-! ### Rounds -/

/-- The stores after a number of rounds, each a plan that is carried out at once, with
nothing in between. -/
def afterRounds (P : Platform) (R : ℕ → GcPlanner × GcExecutor) (s : Stores MemIndex) :
    ℕ → Stores MemIndex
  | 0 => s
  | n + 1 => (Prog.run Stores.handle (gcRound P (R n).1 (R n).2) (afterRounds P R s n)).2

/-- A round carries out what it planned; if it cannot plan it does nothing. -/
theorem run_gcRound (planner : GcPlanner) (exec : GcExecutor) (s : Stores MemIndex) :
    (Prog.run Stores.handle (gcRound P planner exec) s).2 =
      match (Prog.run Stores.handle planner.plan s).1 with
      | .ok pl => (Prog.run Stores.handle (exec.execute P pl) s).2
      | _ => s := by
  have hreads := run_plan_snd planner s
  rcases hpl : Prog.run Stores.handle planner.plan s with ⟨out, s'⟩
  obtain rfl : s' = s := by rw [← hreads, hpl]
  rw [gcRound, Prog.run_bind, hpl]
  cases out <;> rfl

theorem sameView_gcRound (planner : GcPlanner) (exec : GcExecutor) (s : Stores MemIndex) :
    s.SameView (Prog.run Stores.handle (gcRound P planner exec) s).2 := by
  rw [run_gcRound]
  split
  · exact sameView_execute exec _ s
  · exact .refl s

/-- No number of rounds changes what a plan is made from. -/
theorem sameView_afterRounds (R : ℕ → GcPlanner × GcExecutor) (s : Stores MemIndex) (n : ℕ) :
    s.SameView (afterRounds P R s n) := by
  induction n with
  | zero => exact .refl s
  | succ n ih => exact ih.trans (sameView_gcRound _ _ _)

/-- There is nothing to collect: every blob with a row is counted, and no origin with a row
that nothing holds is out of its time to live. -/
structure NothingDue (planner : GcPlanner) (s : Stores MemIndex) : Prop where
  blobs : ∀ b ∈ s.index.blobCounts.keys, 0 < s.index.blobCounts.get b
  origins : ∀ o ∈ s.index.originCounts.keys, Idle s o → planner.verdict s o ≠ .ok true

theorem Stores.SameView.nothingDue_iff {s s' : Stores MemIndex} (h : s.SameView s')
    (planner : GcPlanner) : NothingDue planner s' ↔ NothingDue planner s := by
  have hverdict : ∀ o, planner.verdict s' o = planner.verdict s o := h.verdict_eq planner
  constructor <;> intro hnone
  · refine ⟨fun b hb => ?_, fun o ho hidle => ?_⟩
    · have hpos := hnone.blobs b (by rwa [h.index])
      rwa [h.index] at hpos
    · rw [← hverdict]
      exact hnone.origins o (by rwa [h.index]) ((h.idle_iff o).mpr hidle)
  · refine ⟨fun b hb => ?_, fun o ho hidle => ?_⟩
    · rw [h.index] at hb ⊢
      exact hnone.blobs b hb
    · rw [h.index] at ho
      rw [hverdict]
      exact hnone.origins o ho ((h.idle_iff o).mp hidle)

/-- A plan is empty where there is nothing to collect. -/
theorem plan_empty_iff {planner : GcPlanner} {s : Stores MemIndex} {pl : GcPlan}
    (hpl : (Prog.run Stores.handle planner.plan s).1 = .ok pl) :
    pl = ⟨[], []⟩ ↔ NothingDue planner s := by
  have hlisted : IndexBackend.listOrigins s.index = .ok s.index.originCounts.keys := rfl
  have hmem := (mem_originTombstone hpl hlisted).2
  have hblobs := mem_blobDelete hpl
  constructor
  · rintro rfl
    refine ⟨fun b hb => Nat.pos_of_ne_zero fun hzero => ?_, fun o ho hidle hdue => ?_⟩
    · exact absurd ((hblobs b).mpr ⟨hb, hzero⟩) List.not_mem_nil
    · exact absurd ((hmem o).mpr ⟨ho, hidle, hdue⟩) List.not_mem_nil
  · intro hnone
    obtain ⟨bs, os⟩ := pl
    obtain rfl : bs = [] := List.eq_nil_iff_forall_not_mem.mpr fun b hb => by
      obtain ⟨hlisted, hzero⟩ := (hblobs b).mp hb
      exact absurd hzero (Nat.pos_iff_ne_zero.mp (hnone.blobs b hlisted))
    obtain rfl : os = [] := List.eq_nil_iff_forall_not_mem.mpr fun o ho => by
      obtain ⟨hlisted, hidle, hdue⟩ := (hmem o).mp ho
      exact hnone.origins o hlisted hidle hdue
    rfl

/-- A round with nothing to collect changes nothing. -/
theorem run_gcRound_of_nothingDue {planner : GcPlanner} {s : Stores MemIndex}
    (h : NothingDue planner s) (exec : GcExecutor) :
    (Prog.run Stores.handle (gcRound P planner exec) s).2 = s := by
  rw [run_gcRound]
  split
  · rename_i pl hpl
    obtain rfl := (plan_empty_iff hpl).mpr h
    rfl
  · rfl

/-! ### Coming to rest -/

/-- A tombstone of an origin. -/
def Tombstone.marksOrigin (o : OriginId) (t : Tombstone) : Bool := t.originId == some o

/-- A tombstone of a blob. -/
def Tombstone.marksBlob (b : BlobId) (t : Tombstone) : Bool := t.blobId == some b

/-- **The collector converges**: a plan contains nothing that the round before it
processed, every origin and every blob receives at most one tombstone, and the list of
tombstones stops growing. -/
structure Converges (P : Platform) (R : ℕ → GcPlanner × GcExecutor) (s : Stores MemIndex) :
    Prop where
  fresh : ∀ n pl pl', (Prog.run Stores.handle (R n).1.plan (afterRounds P R s n)).1 = .ok pl →
    (Prog.run Stores.handle (R (n + 1)).1.plan (afterRounds P R s (n + 1))).1 = .ok pl' →
    (∀ o ∈ pl.originTombstone, o ∉ pl'.originTombstone) ∧
      ∀ b ∈ pl.blobDelete, b ∉ pl'.blobDelete
  origins : ∀ n o, (afterRounds P R s n).tombstones.countP (Tombstone.marksOrigin o) ≤
    s.tombstones.countP (Tombstone.marksOrigin o) + 1
  blobs : ∀ n b, (afterRounds P R s n).tombstones.countP (Tombstone.marksBlob b) ≤
    s.tombstones.countP (Tombstone.marksBlob b) + 1
  stops : ∃ N, ∀ n, N ≤ n → (afterRounds P R s n).tombstones = (afterRounds P R s N).tombstones

/-- What is due at an instant is due at every later one. -/
theorem verdict_mono {planner planner' : GcPlanner} (hnow : planner.now ≤ planner'.now)
    {s : Stores MemIndex} {o : OriginId} (h : planner.verdict s o = .ok true) :
    planner'.verdict s o = .ok true := by
  rw [GcPlanner.verdict] at h ⊢
  rcases hp : s.policies.lookup o with _ | policy
  · simp [hp] at h
  rcases httl : policy.retention.ttlSeconds with _ | ttl
  · simp [httl]
  rcases hr : s.registry.lookup o with _ | r
  · simp [hp, httl, hr] at h
  simp only [hp, httl, hr] at h ⊢
  obtain ⟨t, ht, hdue⟩ := Outcome.bind_eq_ok.mp h
  rw [ht, Outcome.ok_bind]
  simp only [Outcome.pure_eq, Outcome.ok.injEq, Bool.not_eq_true', decide_eq_false_iff_not,
    not_lt] at hdue ⊢
  exact hdue.trans hnow

/-- **When the collector converges**: at a clock that does not go back, if and only if there
is nothing to collect at any of the rounds. -/
theorem converges_iff {R : ℕ → GcPlanner × GcExecutor} (hclock : Monotone fun n => (R n).1.now)
    {s : Stores MemIndex} (hplan : (Prog.run Stores.handle (R 0).1.plan s).1.isOk = true) :
    Converges P R s ↔ ∀ n, NothingDue (R n).1 s := by
  have hview := sameView_afterRounds (P := P) R s
  constructor
  · intro h n
    -- the plan of this round, and the one of the next round, which has everything it has
    have hmade : ∀ m, ∃ pl,
        (Prog.run Stores.handle (R m).1.plan (afterRounds P R s m)).1 = .ok pl := fun m => by
      have hok := ((hview m).plan_isOk_iff (R 0).1 (R m).1).mpr hplan
      rcases hrun : (Prog.run Stores.handle (R m).1.plan (afterRounds P R s m)).1 with pl | e | _
      · exact ⟨pl, rfl⟩
      · rw [hrun] at hok
        exact absurd hok (by simp [Outcome.isOk])
      · rw [hrun] at hok
        exact absurd hok (by simp [Outcome.isOk])
    obtain ⟨pl, hpl⟩ := hmade n
    obtain ⟨pl', hpl'⟩ := hmade (n + 1)
    obtain ⟨horigins, hblobs⟩ := h.fresh n pl pl' hpl hpl'
    have hstep : (afterRounds P R s n).SameView (afterRounds P R s (n + 1)) :=
      sameView_gcRound _ _ _
    refine ((hview n).nothingDue_iff _).mp ((plan_empty_iff hpl).mp ?_)
    obtain ⟨bs, os⟩ := pl
    obtain rfl : bs = [] := List.eq_nil_iff_forall_not_mem.mpr fun b hb => by
      refine hblobs b hb ((mem_blobDelete hpl' b).mpr ?_)
      rw [hstep.index]
      exact (mem_blobDelete hpl b).mp hb
    obtain rfl : os = [] := List.eq_nil_iff_forall_not_mem.mpr fun o ho => by
      obtain ⟨hlisted, hidle, hdue⟩ := ((mem_originTombstone hpl rfl).2 o).mp ho
      refine horigins o ho (((mem_originTombstone hpl' rfl).2 o).mpr ⟨?_, ?_, ?_⟩)
      · rw [hstep.index]
        exact hlisted
      · exact (hstep.idle_iff o).mpr hidle
      · rw [hstep.verdict_eq]
        exact verdict_mono (hclock (Nat.le_succ n)) hdue
    rfl
  · intro hnone
    have hsame : ∀ n, afterRounds P R s n = s := fun n => by
      induction n with
      | zero => rfl
      | succ n ih => rw [afterRounds, ih, run_gcRound_of_nothingDue (hnone n)]
    refine ⟨fun n pl pl' hpl _ => ?_, fun n o => ?_, fun n b => ?_, 0, fun n _ => ?_⟩
    · rw [hsame] at hpl
      obtain rfl := (plan_empty_iff hpl).mpr (hnone n)
      exact ⟨fun o ho => absurd ho List.not_mem_nil, fun b hb => absurd hb List.not_mem_nil⟩
    · rw [hsame]
      exact Nat.le_succ _
    · rw [hsame]
      exact Nat.le_succ _
    · rw [hsame, hsame]

/-! ### A blob that is deleted again and again -/

/-- The same planner and the same executor, round after round. -/
def sampleRounds : ℕ → GcPlanner × GcExecutor := fun _ => (samplePlanner, ⟨samplePlanner.now⟩)

theorem converges_iff_replay :
    let s := (replay samplePlatform [plainUpload, firstPin] sampleStart).2
    Converges samplePlatform sampleRounds s ↔ ∀ n, NothingDue (sampleRounds n).1 s :=
  converges_iff (fun _ _ _ => le_rfl) (by decide +kernel)

/-- **The collector does not converge**: the blob of a tombstoned upload is in the plan
again after it was deleted. -/
theorem not_converges :
    ¬∀ (P : Platform) (clock : ℕ → OffsetDateTime) (uuids : ℕ → Uuid) (H : History)
      (s : Stores MemIndex) (R : ℕ → GcPlanner × GcExecutor),
      Run (serviceStep P) (Stores.start clock uuids) H s → (Monotone fun n => (R n).1.now) →
      (Prog.run Stores.handle (R 0).1.plan s).1.isOk = true → Converges P R s := by
  intro h
  have hconv := h samplePlatform _ _ _ _ sampleRounds
    (replay_run samplePlatform [plainUpload, firstTombstone] sampleStart)
    (fun _ _ _ => le_rfl) (by decide +kernel)
  have hplan : (Prog.run Stores.handle samplePlanner.plan
      (replay samplePlatform [plainUpload, firstTombstone] sampleStart).2).1 =
      .ok ⟨[computeBlobId samplePlatform [1, 2, 3] .blake3], []⟩ := by decide +kernel
  have hagain : (Prog.run Stores.handle samplePlanner.plan (afterRounds samplePlatform sampleRounds
      (replay samplePlatform [plainUpload, firstTombstone] sampleStart).2 1)).1 =
      .ok ⟨[computeBlobId samplePlatform [1, 2, 3] .blake3], []⟩ := by decide +kernel
  have hmem := List.mem_singleton_self (computeBlobId samplePlatform [1, 2, 3] .blake3)
  exact (hconv.fresh 0 _ _ hplan hagain).2 _ hmem hmem

end Sodl
