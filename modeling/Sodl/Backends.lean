import Sodl.Gc
import Sodl.Persist
import Sodl.Sample

/-!
# The two index backends, as the collector sees them

The same sequence of increments and decrements, once on `Sodl.MemIndex` and once
on `Sodl.SqliteIndex`. Under every id both count the same: the level of the steps
on it (`Sodl.memIndex_getBlob`, `Sodl.sqliteIndex_getBlob`). What they list is not
the same. The in-memory index lists every id it was ever called with, and the
database lists the ids that are counted, so that a planner over the database never
finds anything to collect.

The two agree, for the planner, where there is nothing to collect
(`Sodl.backendsAgree_iff`).
-/

namespace Sodl

open Effect

variable {P : Platform}

/-! ### Sequences of calls -/

/-- The calls that change the counts. -/
inductive IndexCall
  | incOrigin (o : OriginId) (reason : RefKind)
  | decOrigin (o : OriginId) (reason : RefKind)
  | incBlob (b : BlobId) (reason : RefKind)
  | decBlob (b : BlobId) (reason : RefKind)
  deriving DecidableEq

/-- A call, on a backend. -/
def IndexCall.apply {I : Type} [IndexBackend I] (i : I) : IndexCall → I
  | incOrigin o k => IndexBackend.incOrigin o k i
  | decOrigin o k => IndexBackend.decOrigin o k i
  | incBlob b k => IndexBackend.incBlob b k i
  | decBlob b k => IndexBackend.decBlob b k i

/-- A sequence of calls, on a backend. -/
def applyAll {I : Type} [IndexBackend I] (i : I) (calls : List IndexCall) : I :=
  calls.foldl IndexCall.apply i

/-- Whether a call steps the count of an origin, up or down. -/
def IndexCall.originStep? (o : OriginId) : IndexCall → Option Bool
  | incOrigin o' _ => if o = o' then some true else none
  | decOrigin o' _ => if o = o' then some false else none
  | _ => none

/-- Whether a call steps the count of a blob, up or down. -/
def IndexCall.blobStep? (b : BlobId) : IndexCall → Option Bool
  | incBlob b' _ => if b = b' then some true else none
  | decBlob b' _ => if b = b' then some false else none
  | _ => none

/-- The steps of the count of an origin. -/
def originSteps (calls : List IndexCall) (o : OriginId) : List Bool :=
  calls.filterMap (IndexCall.originStep? o)

/-- The steps of the count of a blob. -/
def blobSteps (calls : List IndexCall) (b : BlobId) : List Bool :=
  calls.filterMap (IndexCall.blobStep? b)

theorem applyAll_snoc {I : Type} [IndexBackend I] (i : I) (calls : List IndexCall)
    (c : IndexCall) : applyAll i (calls ++ [c]) = c.apply (applyAll i calls) := by
  rw [applyAll, List.foldl_append]
  rfl

/-- A count that a call steps, or leaves alone, stands at the level of its
steps. -/
theorem count_eq_level {I : Type} [IndexBackend I] {i : I} (count : I → ℕ)
    (step? : IndexCall → Option Bool) (h0 : count i = 0)
    (hstep : ∀ (i : I) (c : IndexCall), count (c.apply i) = match step? c with
      | some true => count i + 1
      | some false => count i - 1
      | none => count i)
    (calls : List IndexCall) :
    count (applyAll i calls) = Counter.level (calls.filterMap step?) := by
  induction calls using List.reverseRecOn with
  | nil => exact h0
  | append_singleton calls c ih =>
    rw [applyAll_snoc, hstep, List.filterMap_append]
    rcases hc : step? c with _ | up
    · rw [List.filterMap_cons_none hc, List.filterMap_nil, List.append_nil, ih]
    · rw [List.filterMap_cons_some hc, List.filterMap_nil, Counter.level_snoc, ← ih]
      cases up <;> rfl

theorem memIndex_getOrigin (calls : List IndexCall) (o : OriginId) :
    IndexBackend.getOrigin o (applyAll MemIndex.new calls) =
      Counter.level (originSteps calls o) := by
  refine count_eq_level (IndexBackend.getOrigin o) (IndexCall.originStep? o) rfl
    (fun i c => ?_) calls
  cases c with
  | incOrigin o' k =>
    by_cases h : o = o' <;> simp [IndexCall.apply, IndexCall.originStep?, Counter.get_inc, h]
  | decOrigin o' k =>
    by_cases h : o = o' <;> simp [IndexCall.apply, IndexCall.originStep?, Counter.get_dec, h]
  | incBlob b k => rfl
  | decBlob b k => rfl

theorem memIndex_getBlob (calls : List IndexCall) (b : BlobId) :
    IndexBackend.getBlob b (applyAll MemIndex.new calls) = Counter.level (blobSteps calls b) := by
  refine count_eq_level (IndexBackend.getBlob b) (IndexCall.blobStep? b) rfl (fun i c => ?_) calls
  cases c with
  | incBlob b' k =>
    by_cases h : b = b' <;> simp [IndexCall.apply, IndexCall.blobStep?, Counter.get_inc, h]
  | decBlob b' k =>
    by_cases h : b = b' <;> simp [IndexCall.apply, IndexCall.blobStep?, Counter.get_dec, h]
  | incOrigin o k => rfl
  | decOrigin o k => rfl

theorem sqliteIndex_getOrigin (hP : P.UuidTextInjective) (calls : List IndexCall) (o : OriginId) :
    IndexBackend.getOrigin o (applyAll (SqliteIndex.new (P := P)) calls) =
      Counter.level (originSteps calls o) := by
  have hkey : ∀ o o', SqliteIndex.originKey P o = SqliteIndex.originKey P o' ↔ o = o' := by
    rintro ⟨u⟩ ⟨u'⟩
    exact ⟨fun h => congrArg OriginId.mk (hP h), fun h => by rw [h]⟩
  refine count_eq_level (IndexBackend.getOrigin o) (IndexCall.originStep? o) rfl
    (fun i c => ?_) calls
  cases c with
  | incOrigin o' k =>
    refine (Refcounts.count_insertOrIncrement _ _ _).trans ?_
    by_cases h : o = o' <;> simp [IndexCall.originStep?, hkey, h] <;> rfl
  | decOrigin o' k =>
    refine (Refcounts.count_decrement _ _ _).trans ?_
    by_cases h : o = o' <;> simp [IndexCall.originStep?, hkey, h] <;> rfl
  | incBlob b k => rfl
  | decBlob b k => rfl

theorem sqliteIndex_getBlob (calls : List IndexCall) (b : BlobId) :
    IndexBackend.getBlob b (applyAll (SqliteIndex.new (P := P)) calls) =
      Counter.level (blobSteps calls b) := by
  refine count_eq_level (IndexBackend.getBlob b) (IndexCall.blobStep? b) rfl (fun i c => ?_) calls
  cases c with
  | incBlob b' k =>
    refine (Refcounts.count_insertOrIncrement _ _ _).trans ?_
    by_cases h : b = b' <;> simp [IndexCall.blobStep?, BlobId.val_inj, h] <;> rfl
  | decBlob b' k =>
    refine (Refcounts.count_decrement _ _ _).trans ?_
    by_cases h : b = b' <;> simp [IndexCall.blobStep?, BlobId.val_inj, h] <;> rfl
  | incOrigin o k => rfl
  | decOrigin o k => rfl

/-! ### What the backends list -/

/-- A row that a call makes if it steps the count. -/
theorem row_iff {I : Type} [IndexBackend I] {i : I} (row : I → Prop)
    (step? : IndexCall → Option Bool) (h0 : ¬row i)
    (hstep : ∀ (i : I) (c : IndexCall), row (c.apply i) ↔ row i ∨ step? c ≠ none)
    (calls : List IndexCall) : row (applyAll i calls) ↔ calls.filterMap step? ≠ [] := by
  induction calls using List.reverseRecOn with
  | nil => simp [applyAll, h0]
  | append_singleton calls c ih =>
    rw [applyAll_snoc, hstep, ih, List.filterMap_append]
    rcases hc : step? c with _ | up
    · simp [hc]
    · simp [hc]

/-- The in-memory index lists the origins it was called with. -/
theorem memIndex_listOrigins (calls : List IndexCall) (o : OriginId) :
    o ∈ (applyAll MemIndex.new calls).originCounts.keys ↔ originSteps calls o ≠ [] := by
  refine row_iff (fun i : MemIndex => o ∈ i.originCounts.keys) (IndexCall.originStep? o)
    (List.not_mem_nil) (fun i c => ?_) calls
  cases c with
  | incOrigin o' k =>
    refine Counter.mem_inc.trans ?_
    by_cases h : o = o' <;> simp [IndexCall.originStep?, h, AList.mem_keys]
  | decOrigin o' k =>
    refine Counter.mem_dec.trans ?_
    by_cases h : o = o' <;> simp [IndexCall.originStep?, h, AList.mem_keys]
  | incBlob b k => simp [IndexCall.apply, IndexCall.originStep?]
  | decBlob b k => simp [IndexCall.apply, IndexCall.originStep?]

/-- The in-memory index lists the blobs it was called with. -/
theorem memIndex_listBlobs (calls : List IndexCall) (b : BlobId) :
    b ∈ IndexBackend.listBlobs (applyAll MemIndex.new calls) ↔ blobSteps calls b ≠ [] := by
  refine row_iff (fun i : MemIndex => b ∈ i.blobCounts.keys) (IndexCall.blobStep? b)
    (List.not_mem_nil) (fun i c => ?_) calls
  cases c with
  | incBlob b' k =>
    refine Counter.mem_inc.trans ?_
    by_cases h : b = b' <;> simp [IndexCall.blobStep?, h, AList.mem_keys]
  | decBlob b' k =>
    refine Counter.mem_dec.trans ?_
    by_cases h : b = b' <;> simp [IndexCall.blobStep?, h, AList.mem_keys]
  | incOrigin o k => simp [IndexCall.apply, IndexCall.blobStep?]
  | decOrigin o k => simp [IndexCall.apply, IndexCall.blobStep?]

/-- The database lists the blobs that are counted. -/
theorem sqliteIndex_listBlobs (i : SqliteIndex P) (b : BlobId) :
    b ∈ IndexBackend.listBlobs i ↔ 0 < IndexBackend.getBlob b i := by
  refine Iff.trans ?_ Refcounts.mem_positive
  show b ∈ i.blobRefcounts.positive.map BlobId.mk ↔ b.val ∈ i.blobRefcounts.positive
  rw [List.mem_map]
  constructor
  · rintro ⟨v, hv, rfl⟩
    exact hv
  · exact fun h => ⟨b.val, h, rfl⟩

/-- Every row of origins was written under the text of an origin. -/
theorem sqliteIndex_originRows (calls : List IndexCall) :
    ∀ s ∈ (applyAll (SqliteIndex.new (P := P)) calls).originRefcounts.positive,
      ∃ o, s = SqliteIndex.originKey P o := by
  induction calls using List.reverseRecOn with
  | nil => exact fun s hs => absurd hs (List.not_mem_nil)
  | append_singleton calls c ih =>
    intro s hs
    rw [applyAll_snoc, Refcounts.mem_positive] at hs
    have hold : ∀ s, 0 < (applyAll (SqliteIndex.new (P := P)) calls).originRefcounts.count s →
        ∃ o, s = SqliteIndex.originKey P o := fun s h => ih s (Refcounts.mem_positive.mpr h)
    cases c with
    | incOrigin o k =>
      by_cases h : s = SqliteIndex.originKey P o
      · exact ⟨o, h⟩
      · refine hold s ?_
        have hcount := Refcounts.count_insertOrIncrement
          (applyAll (SqliteIndex.new (P := P)) calls).originRefcounts (SqliteIndex.originKey P o) s
        rw [if_neg h, Nat.add_zero] at hcount
        rw [← hcount]
        exact hs
    | decOrigin o k =>
      refine hold s (Nat.lt_of_lt_of_le hs ?_)
      exact (Refcounts.count_decrement _ _ _).trans_le (Nat.sub_le ..)
    | incBlob b k => exact hold s hs
    | decBlob b k => exact hold s hs

/-- The database lists the origins that are counted. -/
theorem sqliteIndex_listOrigins (hP : P.UuidRoundTrips) (calls : List IndexCall) :
    ∃ os, IndexBackend.listOrigins (applyAll (SqliteIndex.new (P := P)) calls) = .ok os ∧
      ∀ o, o ∈ os ↔ 0 < IndexBackend.getOrigin o (applyAll (SqliteIndex.new (P := P)) calls) := by
  obtain ⟨os, hos, hmem⟩ := SqliteIndex.parseOrigins_eq_ok hP (sqliteIndex_originRows calls)
  exact ⟨os, hos, fun o => (hmem o).trans Refcounts.mem_positive⟩

/-! ### Agreement -/

/-- Stores with another index. -/
def Stores.withIndex {I J : Type} (s : Stores I) (index : J) : Stores J :=
  { index, registry := s.registry, policies := s.policies, pins := s.pins,
    derivations := s.derivations, shares := s.shares, blobs := s.blobs,
    tombstones := s.tombstones, clock := s.clock, uuids := s.uuids }

/-- Two ends of a plan that come to the same: the same blobs and origins, or the
same error. -/
def SamePlan : Outcome SodlError GcPlan → Outcome SodlError GcPlan → Prop
  | .ok p, .ok q => (∀ b, b ∈ p.blobDelete ↔ b ∈ q.blobDelete) ∧
      ∀ o, o ∈ p.originTombstone ↔ o ∈ q.originTombstone
  | .err e, .err e' => e = e'
  | .panic, .panic => True
  | _, _ => False

/-- **The backends agree** after a sequence of calls: in every count, in every plan
over otherwise equal stores, and in showing the planner whatever was referenced
once and is not any more. -/
structure BackendsAgree (P : Platform) (calls : List IndexCall) : Prop where
  origins : ∀ o, IndexBackend.getOrigin o (applyAll MemIndex.new calls) =
    IndexBackend.getOrigin o (applyAll (SqliteIndex.new (P := P)) calls)
  blobs : ∀ b, IndexBackend.getBlob b (applyAll MemIndex.new calls) =
    IndexBackend.getBlob b (applyAll (SqliteIndex.new (P := P)) calls)
  plans : ∀ (planner : GcPlanner) (s : Stores MemIndex), SamePlan
    (Prog.run Stores.handle planner.plan (s.withIndex (applyAll MemIndex.new calls))).1
    (Prog.run Stores.handle planner.plan
      (s.withIndex (applyAll (SqliteIndex.new (P := P)) calls))).1
  visibleBlobs : ∀ b k, .incBlob b k ∈ calls →
    IndexBackend.getBlob b (applyAll MemIndex.new calls) = 0 →
    b ∈ IndexBackend.listBlobs (applyAll MemIndex.new calls) ∧
      b ∈ IndexBackend.listBlobs (applyAll (SqliteIndex.new (P := P)) calls)
  visibleOrigins : ∀ o k, .incOrigin o k ∈ calls →
    IndexBackend.getOrigin o (applyAll MemIndex.new calls) = 0 →
    (∃ os, IndexBackend.listOrigins (applyAll MemIndex.new calls) = .ok os ∧ o ∈ os) ∧
      ∃ os, IndexBackend.listOrigins (applyAll (SqliteIndex.new (P := P)) calls) = .ok os ∧ o ∈ os

/-- A sequence of steps with a surplus of increments in some final segment. -/
def Surplus (steps : List Bool) : Prop := ∃ t, t <:+ steps ∧ t.count false < t.count true

/-- The plan over the database is always empty: what it lists is counted. -/
theorem run_plan_sqliteIndex (hP : P.UuidRoundTrips) (calls : List IndexCall)
    (planner : GcPlanner) (s : Stores MemIndex) :
    (Prog.run Stores.handle planner.plan
      (s.withIndex (applyAll (SqliteIndex.new (P := P)) calls))).1 = .ok ⟨[], []⟩ := by
  obtain ⟨os, hos, hmem⟩ := sqliteIndex_listOrigins hP calls
  rw [run_plan_of_pos hos (fun o ho => (hmem o).mp ho)
    (fun b hb => (sqliteIndex_listBlobs _ b).mp hb)]

/-- A plan over the in-memory index that comes to nothing, over whatever stores,
means that every id is counted. -/
theorem pos_of_samePlan {i : MemIndex}
    (h : ∀ (planner : GcPlanner) (s : Stores MemIndex),
      SamePlan (Prog.run Stores.handle planner.plan (s.withIndex i)).1 (.ok ⟨[], []⟩)) :
    (∀ o ∈ i.originCounts.keys, 0 < i.originCounts.get o) ∧
      ∀ b ∈ i.blobCounts.keys, 0 < i.blobCounts.get b := by
  -- the plan goes through, and lists nothing
  have hok : ∀ (planner : GcPlanner) (s : Stores MemIndex), ∃ pl,
      (Prog.run Stores.handle planner.plan (s.withIndex i)).1 = .ok pl ∧
        (∀ b, b ∉ pl.blobDelete) ∧ ∀ o, o ∉ pl.originTombstone := by
    intro planner s
    have hsame := h planner s
    rcases hp : (Prog.run Stores.handle planner.plan (s.withIndex i)).1 with pl | e | _
    · rw [hp] at hsame
      refine ⟨pl, rfl, fun b hb => ?_, fun o ho => ?_⟩
      · exact absurd ((hsame.1 b).mp hb) (List.not_mem_nil)
      · exact absurd ((hsame.2 o).mp ho) (List.not_mem_nil)
    · rw [hp] at hsame
      exact hsame.elim
    · rw [hp] at hsame
      exact hsame.elim
  constructor
  · intro o ho
    by_contra hzero
    have hget : i.originCounts.get o = 0 := Nat.eq_zero_of_not_pos hzero
    -- nothing pins the origin, and its policy sets no time to live
    let policy : OriginPolicy := ⟨o, ⟨.durable, none, none⟩, ⟨[], true, true⟩⟩
    let s : Stores MemIndex :=
      { Stores.empty i (fun _ => 0) (fun _ => o.uuid) with policies := Table.insert ∅ o policy }
    obtain ⟨pl, hp, -, hnone⟩ := hok ⟨none, 0⟩ s
    obtain ⟨⟨oids, hoids, hmem⟩, -⟩ := plan_eq_ok hp
    obtain rfl : i.originCounts.keys = oids := Outcome.ok.inj hoids
    refine hnone o ((hmem o).mpr ⟨ho, ?_⟩)
    have hcount : Prog.run Stores.handle (Store.getOriginCount o) (s.withIndex i) =
        (.ok 0, s.withIndex i) := Prod.ext (congrArg Outcome.ok hget) rfl
    have hpins : Prog.run Stores.handle (Store.listPinsForOrigin o) (s.withIndex i) =
        (.ok [], s.withIndex i) := rfl
    have hpolicy : Prog.run Stores.handle (Store.getOriginPolicy o) (s.withIndex i) =
        (.ok policy, s.withIndex i) :=
      Stores.run_found rfl (Table.lookup_insert_self ∅ o policy)
    rw [GcPlanner.originTest, Prog.run_bind_ok hcount, if_neg (not_not.mpr rfl),
      Prog.run_bind_ok hpins, if_neg (by simp), Prog.run_bind_ok hpolicy]
    rfl
  · intro b hb
    by_contra hzero
    obtain ⟨pl, hp, hnone, -⟩ :=
      hok ⟨none, 0⟩ (Stores.empty i (fun _ => 0) fun _ => ⟨Vector.replicate 16 0⟩)
    exact hnone b ((mem_blobDelete hp b).mpr ⟨hb, Nat.eq_zero_of_not_pos hzero⟩)

/-- **When the backends agree**: if and only if every id that occurs in the calls
has, over some final segment of the calls on it, more increments than
decrements. -/
theorem backendsAgree_iff (hP : P.UuidRoundTrips) (calls : List IndexCall) :
    BackendsAgree P calls ↔
      (∀ o, originSteps calls o ≠ [] → Surplus (originSteps calls o)) ∧
        ∀ b, blobSteps calls b ≠ [] → Surplus (blobSteps calls b) := by
  constructor
  · intro h
    obtain ⟨horigins, hblobs⟩ := pos_of_samePlan (i := applyAll MemIndex.new calls)
      fun planner s => run_plan_sqliteIndex hP calls planner s ▸ h.plans planner s
    refine ⟨fun o ho => ?_, fun b hb => ?_⟩
    · have hpos := horigins o ((memIndex_listOrigins calls o).mpr ho)
      exact Counter.level_pos_iff.mp (memIndex_getOrigin calls o ▸ hpos)
    · have hpos := hblobs b ((memIndex_listBlobs calls b).mpr hb)
      exact Counter.level_pos_iff.mp (memIndex_getBlob calls b ▸ hpos)
  · rintro ⟨horigins, hblobs⟩
    have horigin : ∀ o ∈ (applyAll MemIndex.new calls).originCounts.keys,
        0 < IndexBackend.getOrigin o (applyAll MemIndex.new calls) := by
      intro o ho
      rw [memIndex_getOrigin]
      exact Counter.level_pos_iff.mpr (horigins o ((memIndex_listOrigins calls o).mp ho))
    have hblob : ∀ b ∈ IndexBackend.listBlobs (applyAll MemIndex.new calls),
        0 < IndexBackend.getBlob b (applyAll MemIndex.new calls) := by
      intro b hb
      rw [memIndex_getBlob]
      exact Counter.level_pos_iff.mpr (hblobs b ((memIndex_listBlobs calls b).mp hb))
    refine ⟨fun o => ?_, fun b => ?_, fun planner s => ?_, fun b k hb hzero => ?_,
      fun o k ho hzero => ?_⟩
    · rw [memIndex_getOrigin, sqliteIndex_getOrigin hP.injective]
    · rw [memIndex_getBlob, sqliteIndex_getBlob]
    · have hmem :
          Prog.run Stores.handle planner.plan (s.withIndex (applyAll MemIndex.new calls)) = _ :=
        run_plan_of_pos rfl horigin hblob
      rw [run_plan_sqliteIndex hP, hmem]
      exact ⟨fun b => Iff.rfl, fun o => Iff.rfl⟩
    · -- nothing that was called with is at zero
      have hrow : b ∈ IndexBackend.listBlobs (applyAll MemIndex.new calls) := by
        refine (memIndex_listBlobs calls b).mpr (List.ne_nil_of_mem (a := true) ?_)
        exact List.mem_filterMap.mpr ⟨_, hb, by simp [IndexCall.blobStep?]⟩
      exact absurd hzero (Nat.pos_iff_ne_zero.mp (hblob b hrow))
    · have hrow : o ∈ (applyAll MemIndex.new calls).originCounts.keys := by
        refine (memIndex_listOrigins calls o).mpr (List.ne_nil_of_mem (a := true) ?_)
        exact List.mem_filterMap.mpr ⟨_, ho, by simp [IndexCall.originStep?]⟩
      exact absurd hzero (Nat.pos_iff_ne_zero.mp (horigin o hrow))

/-! ### A blob referenced once -/

/-- The references of one upload, and nothing else. -/
def oneReference : List IndexCall :=
  [.incOrigin ⟨⟨Vector.replicate 16 0⟩⟩ (.originRepresentation "source"),
   .incBlob ⟨"blake3:00"⟩ (.originRepresentation "source")]

theorem backendsAgree_iff_oneReference :
    BackendsAgree samplePlatform oneReference ↔
      (∀ o, originSteps oneReference o ≠ [] → Surplus (originSteps oneReference o)) ∧
        ∀ b, blobSteps oneReference b ≠ [] → Surplus (blobSteps oneReference b) :=
  backendsAgree_iff samplePlatform_uuidRoundTrips oneReference

/-- A blob referenced and released: the in-memory index shows it to the planner, the
database does not. -/
theorem not_backendsAgree :
    ¬∀ (P : Platform) (calls : List IndexCall), P.UuidRoundTrips → BackendsAgree P calls := by
  intro h
  have hagree := h samplePlatform
    [.incBlob ⟨"blake3:00"⟩ (.pin "p"), .decBlob ⟨"blake3:00"⟩ (.pin "p")]
    samplePlatform_uuidRoundTrips
  have hvisible := (hagree.visibleBlobs ⟨"blake3:00"⟩ (.pin "p") (List.mem_cons_self ..)
    (by decide +kernel)).2
  exact absurd hvisible (by decide +kernel)

end Sodl
