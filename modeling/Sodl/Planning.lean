import Sodl.OriginRefs
import Sodl.Retention

/-!
# What blocks the planner

The planner tests the listed origins one after the other and stops at the first test
that fails. A test of an origin with nothing on its counter and no pin left asks the
policy store for its time to live and, where there is one, the registry for its age;
both are there for an origin that was uploaded. Shares, derivations and pins also make
rows in the index, for whatever origin they are given, and such a *stray* one has
neither (`Sodl.Stray`).

`Sodl.run_originTest` says how a test ends, `Sodl.IndexRows` which origins have a row
after a run, and `Sodl.planComplete_iff` when the planner comes to the end of its scan.
-/

namespace Sodl

open Effect

variable {P : Platform}

/-! ### How a test ends -/

/-- An origin that nothing counts and no active pin is on. -/
structure Idle {I : Type} [IndexBackend I] (s : Stores I) (o : OriginId) : Prop where
  refs : IndexBackend.getOrigin o s.index = 0
  unpinned : ∀ i p, s.pins.lookup i = some p → Stores.targetsOrigin o p = true →
    p.state = .released

/-- The instants an `OffsetDateTime` holds. -/
def Representable (t : OffsetDateTime) : Prop := minDateTime ≤ t ∧ t ≤ maxDateTime

/-- When the time to live of an origin ends, as the planner computes it. -/
def expiresAt (r : OriginRecord) (ttl : UInt64) : OffsetDateTime :=
  r.createdAt + asI64 ttl * 1000000000

section Test

variable {I : Type} {s : Stores I} {o : OriginId}

/-- How the test of an idle origin ends. -/
def GcPlanner.verdict (planner : GcPlanner) (s : Stores I) (o : OriginId) :
    Outcome SodlError Bool :=
  match s.policies.lookup o with
  | none => .err .notFound
  | some policy =>
    match policy.retention.ttlSeconds with
    | none => .ok true
    | some ttl =>
      match s.registry.lookup o with
      | none => .err .notFound
      | some r => do
        let t ← addSeconds r.createdAt (asI64 ttl)
        pure !(planner.now < t)

theorem any_pinned_iff :
    ((s.pins.entries.map Sigma.snd).filter (Stores.targetsOrigin o)).any
        (fun p => decide (p.state ≠ .released)) = false ↔
      ∀ i p, s.pins.lookup i = some p → Stores.targetsOrigin o p = true → p.state = .released := by
  rw [List.any_eq_false]
  constructor
  · intro h i p hp ht
    have hmem : p ∈ (s.pins.entries.map Sigma.snd).filter (Stores.targetsOrigin o) :=
      List.mem_filter.mpr ⟨List.mem_map.mpr ⟨⟨i, p⟩, Table.mem_entries.mpr hp, rfl⟩, ht⟩
    by_contra hstate
    exact h p hmem (decide_eq_true hstate)
  · intro h p hp
    obtain ⟨hmem, ht⟩ := List.mem_filter.mp hp
    obtain ⟨⟨i, q⟩, hq, rfl⟩ := List.mem_map.mp hmem
    simp [h i q (Table.mem_entries.mp hq) ht]

/-- When the test of an idle origin ends in a value. -/
theorem isOk_verdict {planner : GcPlanner} :
    (planner.verdict s o).isOk = true ↔ ∃ policy, s.policies.lookup o = some policy ∧
      ∀ ttl, policy.retention.ttlSeconds = some ttl →
        ∃ r, s.registry.lookup o = some r ∧ Representable (expiresAt r ttl) := by
  rw [GcPlanner.verdict]
  rcases hp : s.policies.lookup o with _ | policy
  · simp [Outcome.isOk]
  · rcases httl : policy.retention.ttlSeconds with _ | ttl
    · simp [Outcome.isOk, httl]
    · rcases hr : s.registry.lookup o with _ | r
      · simp [Outcome.isOk, httl]
      · by_cases hrange : Representable (expiresAt r ttl)
        · have hadd : addSeconds r.createdAt (asI64 ttl) = .ok (expiresAt r ttl) := if_pos hrange
          simp [Outcome.isOk, httl, hadd, hrange]
        · have hadd : addSeconds r.createdAt (asI64 ttl) = .panic := if_neg hrange
          simp [Outcome.isOk, httl, hadd, hrange]

variable [IndexBackend I]

/-- An origin that is counted or pinned is passed over. -/
theorem run_originTest_busy (planner : GcPlanner) (h : ¬ Idle s o) :
    Prog.run Stores.handle (planner.originTest o) s = (.ok false, s) := by
  have hcount : Prog.run Stores.handle (Store.getOriginCount o) s =
      (.ok (IndexBackend.getOrigin o s.index), s) := rfl
  have hpins : Prog.run Stores.handle (Store.listPinsForOrigin o) s =
      (.ok ((s.pins.entries.map Sigma.snd).filter (Stores.targetsOrigin o)), s) := rfl
  rw [GcPlanner.originTest, Prog.run_bind_ok hcount]
  by_cases hrefs : IndexBackend.getOrigin o s.index = 0
  · have hactive : ((s.pins.entries.map Sigma.snd).filter (Stores.targetsOrigin o)).any
        (fun p => decide (p.state ≠ .released)) = true := by
      by_contra hnone
      exact h ⟨hrefs, any_pinned_iff.mp (Bool.not_eq_true _ ▸ hnone)⟩
    rw [if_neg (not_not.mpr hrefs), Prog.run_bind_ok hpins, if_pos hactive]
    rfl
  · rw [if_pos hrefs]
    rfl

/-- **How a test ends** for an origin that nothing holds. -/
theorem run_originTest_idle (planner : GcPlanner) (h : Idle s o) :
    Prog.run Stores.handle (planner.originTest o) s = (planner.verdict s o, s) := by
  have hcount : Prog.run Stores.handle (Store.getOriginCount o) s =
      (.ok (IndexBackend.getOrigin o s.index), s) := rfl
  have hpins : Prog.run Stores.handle (Store.listPinsForOrigin o) s =
      (.ok ((s.pins.entries.map Sigma.snd).filter (Stores.targetsOrigin o)), s) := rfl
  have hnone := any_pinned_iff.mpr h.unpinned
  rw [GcPlanner.originTest, Prog.run_bind_ok hcount, if_neg (not_not.mpr h.refs),
    Prog.run_bind_ok hpins, hnone, if_neg Bool.false_ne_true, GcPlanner.verdict]
  rcases hp : s.policies.lookup o with _ | policy
  · have hget : Prog.run Stores.handle (Store.getOriginPolicy o) s = (.err .notFound, s) :=
      Stores.run_notFound rfl hp
    rw [Prog.run_bind_err hget]
  · have hget : Prog.run Stores.handle (Store.getOriginPolicy o) s = (.ok policy, s) :=
      Stores.run_found rfl hp
    rw [Prog.run_bind_ok hget]
    dsimp only
    rcases httl : policy.retention.ttlSeconds with _ | ttl
    · rfl
    · dsimp only
      rcases hr : s.registry.lookup o with _ | r
      · have hrec : Prog.run Stores.handle (Store.getOrigin o) s = (.err .notFound, s) :=
          Stores.run_notFound rfl hr
        simp only [Prog.run_bind_err hrec]
      · have hrec : Prog.run Stores.handle (Store.getOrigin o) s = (.ok r, s) :=
          Stores.run_found rfl hr
        simp only [Prog.run_bind_ok hrec, Prog.run_bind_pure, Prog.run_lift]

/-- **When a plan is made**: every test of the scan ends in a value. -/
theorem plan_isOk_iff {planner : GcPlanner} {oids : List OriginId}
    (hoids : IndexBackend.listOrigins s.index = .ok oids) :
    (Prog.run Stores.handle planner.plan s).1.isOk = true ↔
      ∀ o ∈ oids, (Prog.run Stores.handle (planner.originTest o) s).1.isOk = true := by
  have hlist : Prog.run Stores.handle Store.listOrigins s = (.ok oids, s) := Prod.ext hoids rfl
  rw [GcPlanner.plan, Prog.run_bind_ok hlist]
  constructor
  · intro h
    rcases hrun : Prog.run Stores.handle (Prog.select planner.originTest oids) s with ⟨out, s₁⟩
    cases out with
    | ok marked =>
      exact (Prog.run_select_eq_ok (fun o => (originTest_reads planner o s).run rfl) hrun).2.1
    | err e =>
      rw [Prog.run_bind_err hrun] at h
      exact absurd h (by simp [Outcome.isOk])
    | panic =>
      rw [Prog.run_bind, hrun] at h
      exact absurd h (by simp [Outcome.isOk])
  · intro h
    have htest : ∀ o ∈ oids, Prog.run Stores.handle (planner.originTest o) s =
        (.ok (decide ((Prog.run Stores.handle (planner.originTest o) s).1 = .ok true)), s) := by
      intro o ho
      have hok := h o ho
      have hreads : (Prog.run Stores.handle (planner.originTest o) s).2 = s :=
        (originTest_reads planner o s).run rfl
      rcases hrun : Prog.run Stores.handle (planner.originTest o) s with ⟨out, s₁⟩
      rw [hrun] at hok hreads
      rw [show s₁ = s from hreads]
      cases out with
      | ok b => cases b <;> simp
      | err e => exact absurd hok (by simp [Outcome.isOk])
      | panic => exact absurd hok (by simp [Outcome.isOk])
    have hblist : Prog.run Stores.handle Store.listBlobs s =
        (.ok (IndexBackend.listBlobs s.index), s) := rfl
    rw [Prog.run_bind_ok (Prog.run_select_ok htest), Prog.run_bind_ok hblist,
      Prog.run_bind_ok (Prog.run_select_ok fun b _ => run_blobTest b s)]
    rfl

end Test

/-! ### Origins that can be collected -/

/-- The cast to `i64` does not make a time to live longer. -/
theorem asI64_le (n : UInt64) : asI64 n ≤ (n.toNat : ℤ) := by
  have h := BitVec.toInt_eq_toNat_cond n.toBitVec
  have hcast : asI64 n = n.toBitVec.toInt := rfl
  have hnat : n.toBitVec.toNat = n.toNat := rfl
  rw [hcast, h, hnat]
  split
  · exact le_rfl
  · omega

/-- An origin that the planner ought to mark: nothing holds it, and its time to live
is over if it has one. -/
structure Collectable (planner : GcPlanner) (s : Stores MemIndex) (o : OriginId) : Prop
    extends Idle s o where
  expired : ∀ policy ttl r, s.policies.lookup o = some policy →
    policy.retention.ttlSeconds = some ttl → s.registry.lookup o = some r →
    r.createdAt + (ttl.toNat : ℤ) * 1000000000 ≤ planner.now

/-- The test of an origin that can be collected says so, if it ends in a value. -/
theorem Collectable.run_originTest {planner : GcPlanner} {s : Stores MemIndex} {o : OriginId}
    (h : Collectable planner s o)
    (hok : (Prog.run Stores.handle (planner.originTest o) s).1.isOk = true) :
    (Prog.run Stores.handle (planner.originTest o) s).1 = .ok true := by
  rw [run_originTest_idle planner h.toIdle] at hok ⊢
  obtain ⟨policy, hp, hages⟩ := isOk_verdict.mp hok
  rw [GcPlanner.verdict, hp]
  dsimp only
  rcases httl : policy.retention.ttlSeconds with _ | ttl
  · rfl
  · obtain ⟨r, hr, hrange⟩ := hages ttl httl
    have hadd : addSeconds r.createdAt (asI64 ttl) = .ok (expiresAt r ttl) := if_pos hrange
    have hexpired := h.expired policy ttl r hp httl hr
    have hle : asI64 ttl * 1000000000 ≤ (ttl.toNat : ℤ) * 1000000000 :=
      Int.mul_le_mul_of_nonneg_right (asI64_le ttl) (by decide)
    have hnow : ¬ planner.now < expiresAt r ttl :=
      not_lt.mpr ((Int.add_le_add_left hle r.createdAt).trans hexpired)
    simp only [hr, hadd, Outcome.ok_bind, Outcome.pure_eq, hnow, decide_false, Bool.not_false]

/-- **A plan is made, and it is complete**: whatever else is in the index, every
uploaded origin that can be collected is marked. -/
def PlanComplete (planner : GcPlanner) (H : History) (s : Stores MemIndex) : Prop :=
  ∃ pl, (Prog.run Stores.handle planner.plan s).1 = .ok pl ∧
    ∀ u ∈ uploads H, Collectable planner s u.result.originId →
      u.result.originId ∈ pl.originTombstone

/-! ### The rows of the index -/

/-- The origin a share, a derivation or a pin was made for. -/
def Event.named? (e : Event) : Option OriginId :=
  match e.op, e.outcome with
  | .share _ _ o _, .ok _ => some o
  | .derive o _ _, .ok _ => some o
  | .pinOrigin _ o _, .ok _ => some o
  | _, _ => none

/-- The origins that shares, derivations and pins were made for. -/
def named (H : History) : List OriginId := H.filterMap Event.named?

/-- An origin that was referred to and that nobody uploaded. -/
def Stray (H : History) (o : OriginId) : Prop :=
  o ∈ named H ∧ ∀ u ∈ uploads H, u.result.originId ≠ o

/-- **The rows of the index** after a run are of the origins with a record and of
those that were named; an origin with a record has a policy. -/
structure IndexRows (H : History) (s : Stores MemIndex) : Prop where
  rows : ∀ o, o ∈ s.index.originCounts ↔ o ∈ s.registry ∨ o ∈ named H
  policies : ∀ o ∈ s.registry, o ∈ s.policies
  shares : ∀ i r, s.shares.lookup i = some r → r.originId ∈ named H
  pins : ∀ i p o, s.pins.lookup i = some p → p.target = .origin o → o ∈ named H

theorem IndexRows.start (clock : ℕ → OffsetDateTime) (uuids : ℕ → Uuid) :
    IndexRows [] (Stores.start clock uuids) where
  rows o := by simp [Stores.start, Stores.empty, MemIndex.new, named]
  policies o h := absurd h (AList.notMem_empty o)
  shares i r h := absurd h (by simp [Stores.start, Stores.empty])
  pins i p o h := absurd h (by simp [Stores.start, Stores.empty])

theorem mem_named_snoc {H : History} {e : Event} {o : OriginId} :
    o ∈ named (H ++ [e]) ↔ o ∈ named H ∨ e.named? = some o := mem_filterMap_snoc

/-- A step that names an origin and takes a reference to it, or neither. -/
theorem IndexRows.refer {H : History} {s s' : Stores MemIndex} {e : Event} {o : OriginId}
    (hi : IndexRows H s) (hn : e.named? = some o) (hreg : s'.registry = s.registry)
    (hpol : s'.policies = s.policies) (hc : s'.index.originCounts = s.index.originCounts.inc o)
    (hsh : ∀ i r, s'.shares.lookup i = some r → s.shares.lookup i = some r ∨ r.originId = o)
    (hp : ∀ i p o', s'.pins.lookup i = some p → p.target = .origin o' →
      s.pins.lookup i = some p ∨ o' = o) : IndexRows (H ++ [e]) s' where
  rows o' := by
    rw [hc, Counter.mem_inc, hi.rows, hreg, mem_named_snoc, hn, Option.some.injEq,
      eq_comm (a := o')]
    tauto
  policies o' h := by
    rw [hreg] at h
    rw [hpol]
    exact hi.policies o' h
  shares i r h := by
    refine mem_named_snoc.mpr ((hsh i r h).imp (hi.shares i r) fun ho => ?_)
    rw [hn, ho]
  pins i p o' h ht := by
    refine mem_named_snoc.mpr ((hp i p o' h ht).imp (fun h => hi.pins i p o' h ht) fun ho => ?_)
    rw [hn, ho]

/-- A step that names no origin, and makes no share and no pin. -/
theorem IndexRows.quiet {H : History} {s s' : Stores MemIndex} {e : Event}
    (hi : IndexRows H s) (hn : e.named? = none)
    (hrows : ∀ o, o ∈ s'.index.originCounts ↔ o ∈ s.index.originCounts ∨
      (o ∈ s'.registry ∧ o ∉ s.registry))
    (hreg : ∀ o ∈ s.registry, o ∈ s'.registry) (hpol : ∀ o ∈ s'.registry, o ∈ s'.policies)
    (hsh : s'.shares = s.shares)
    (hp : ∀ i p, s'.pins.lookup i = some p → ∃ q, s.pins.lookup i = some q ∧ p.target = q.target) :
    IndexRows (H ++ [e]) s' where
  rows o := by
    have hsub := hreg o
    rw [hrows, hi.rows, mem_named_snoc, hn]
    have hno : ¬ (none : Option OriginId) = some o := by simp
    tauto
  policies := hpol
  shares i r h := mem_named_snoc.mpr (Or.inl (hi.shares i r (hsh ▸ h)))
  pins i p o h ht := by
    obtain ⟨q, hq, hpq⟩ := hp i p h
    exact mem_named_snoc.mpr (Or.inl (hi.pins i q o hq (hpq ▸ ht)))

section Step

variable {H : History} {s s' : Stores MemIndex} {e : Event} {o : OriginId}

theorem mem_or_new : o ∈ s.index.originCounts ↔ o ∈ s.index.originCounts ∨
    (o ∈ s.registry ∧ o ∉ s.registry) := by
  tauto

/-- A decrement makes no row that is not there. -/
theorem mem_dec_or_new (ho : o ∈ s.index.originCounts) (o' : OriginId) :
    o' ∈ s.index.originCounts.dec o ↔
      o' ∈ s.index.originCounts ∨ (o' ∈ s.registry ∧ o' ∉ s.registry) := by
  rw [Counter.mem_dec]
  constructor
  · rintro (rfl | ho')
    · exact Or.inl ho
    · exact Or.inl ho'
  · tauto

/-- A new record gets a row and a policy. -/
theorem IndexRows.upload (hi : IndexRows H s) (hn : e.named? = none) {r : OriginRecord}
    {policy : OriginPolicy} (hfree : s.registry.lookup o = none)
    (hreg : s'.registry = s.registry.insert o r) (hpol : s'.policies = s.policies.insert o policy)
    (hc : s'.index.originCounts = s.index.originCounts.inc o) (hsh : s'.shares = s.shares)
    (hp : s'.pins = s.pins) : IndexRows (H ++ [e]) s' := by
  refine hi.quiet hn (fun o' => ?_) (fun o' ho' => ?_) (fun o' ho' => ?_) hsh
    fun i p hi => ⟨p, hp ▸ hi, rfl⟩
  · have hnew : o ∉ s.registry := Table.lookup_eq_none.mp hfree
    rw [hc, Counter.mem_inc, hreg, Table.mem_insert]
    constructor
    · rintro (rfl | ho')
      · exact Or.inr ⟨Or.inl rfl, hnew⟩
      · exact Or.inl ho'
    · tauto
  · rw [hreg]
    exact Table.mem_insert.mpr (Or.inr ho')
  · rw [hreg] at ho'
    rw [hpol]
    rcases Table.mem_insert.mp ho' with rfl | ho'
    · exact Table.mem_insert.mpr (Or.inl rfl)
    · exact Table.mem_insert.mpr (Or.inr (hi.policies o' ho'))

/-- A record that is marked keeps its row, whatever references it gives back. -/
theorem IndexRows.tombstone (hi : IndexRows H s) (hn : e.named? = none) {r : OriginRecord}
    {reps : List Representation} (ho : o ∈ s.registry)
    (hreg : s'.registry = s.registry.insert o r) (hpol : s'.policies = s.policies)
    (hc : s'.index.originCounts = reps.foldl (fun c _ => c.dec o) s.index.originCounts)
    (hsh : s'.shares = s.shares) (hp : s'.pins = s.pins) : IndexRows (H ++ [e]) s' := by
  have hregistry : ∀ o', o' ∈ s'.registry ↔ o' ∈ s.registry := by
    intro o'
    rw [hreg, Table.mem_insert]
    exact ⟨fun h => h.elim (fun h => h ▸ ho) id, Or.inr⟩
  have hrow := (hi.rows o).mpr (Or.inl ho)
  refine hi.quiet hn (fun o' => ?_) (fun o' ho' => (hregistry o').mpr ho')
    (fun o' ho' => hpol ▸ hi.policies o' ((hregistry o').mp ho')) hsh
    fun i p hi => ⟨p, hp ▸ hi, rfl⟩
  rw [hc, Counter.foldl_dec, Counter.mem_decAll, List.mem_replicate, hregistry]
  constructor
  · rintro (⟨-, rfl⟩ | ho')
    · exact Or.inl hrow
    · exact Or.inl ho'
  · tauto

/-- **What a step does to the rows.** -/
theorem IndexRows.step (ht : Tracks H s) (hi : IndexRows H s) (h : Happens P s e s') :
    IndexRows (H ++ [e]) s' := by
  have hpins : ∀ i p, s.pins.lookup i = some p → ∃ q, s.pins.lookup i = some q ∧
      p.target = q.target := fun i p hp => ⟨p, hp, rfl⟩
  cases h with
  -- the record, its row and its policy come with an upload
  | upload svc req L hL hfree => exact hi.upload rfl hfree rfl rfl rfl rfl rfl
  -- an upload that stops has stored its policy
  | uploadStops svc req out n ws hout =>
    refine hi.quiet ?_ (fun o => mem_or_new) (fun o ho => ho) (fun o ho => ?_) rfl hpins
    · cases out <;> rfl
    · exact Table.mem_insert.mpr (Or.inr (hi.policies o ho))
  | share svc fromPrincipal toPrincipal originId caps r hid ho =>
    refine hi.refer rfl rfl rfl rfl (fun i r' hr' => ?_) fun i p o' hp _ => Or.inl hp
    rcases Table.lookup_insert_eq_some hr' with ⟨rfl, rfl⟩ | ⟨-, hr'⟩
    · exact Or.inr ho
    · exact Or.inl hr'
  | shareStops svc fromPrincipal toPrincipal originId caps out n hout =>
    refine hi.quiet ?_ (fun o => mem_or_new) (fun o ho => ho) hi.policies rfl hpins
    cases out with
    | ok r => exact absurd hout (by simp [Outcome.isOk])
    | err e => rfl
    | panic => rfl
  | derive => exact hi.refer rfl rfl rfl rfl (fun i r hr => Or.inl hr) fun i p o' hp _ => Or.inl hp
  | pinOrigin svc requestedBy originId minReplicas =>
    refine hi.refer rfl rfl rfl rfl (fun i r hr => Or.inl hr) fun i p o' hp ht => ?_
    rcases Table.lookup_insert_eq_some hp with ⟨rfl, rfl⟩ | ⟨-, hp⟩
    · exact Or.inr (PinTarget.origin.inj ht).symm
    · exact Or.inl hp
  -- what is released was referred to before, so its row is there
  | releaseShare svc shareId r hr =>
    have hrow := (hi.rows _).mpr (Or.inr (hi.shares _ r hr))
    exact hi.quiet rfl (mem_dec_or_new hrow) (fun o ho => ho) hi.policies rfl hpins
  | unpin svc pinId p hp =>
    refine hi.quiet rfl ?_ (fun o ho => ho) hi.policies rfl fun i q hq => ?_
    · rcases htarget : p.target with o | ⟨o, name⟩
      · have hrow := (hi.rows o).mpr (Or.inr (hi.pins _ p o hp htarget))
        simp only [SodlService.unpinnedIndex, htarget]
        exact mem_dec_or_new hrow
      · simp only [SodlService.unpinnedIndex, htarget]
        exact fun o => mem_or_new
    · rcases Table.lookup_insert_eq_some hq with ⟨rfl, rfl⟩ | ⟨-, hq⟩
      · exact ⟨p, hp, rfl⟩
      · exact ⟨q, hq, rfl⟩
  | tombstoneOrigin svc originId reason r hr =>
    obtain rfl : r.originId = originId := ht.keyed _ r hr
    exact hi.tombstone rfl (Table.mem_iff_exists_lookup.mpr ⟨r, hr⟩) rfl rfl rfl rfl rfl
  | notFound svc op hop =>
    refine hi.quiet ?_ (fun o => mem_or_new) (fun o ho => ho) hi.policies rfl hpins
    rcases hop with ⟨i, rfl, -⟩ | ⟨i, rfl, -⟩ | ⟨o, r, rfl, -⟩ <;> rfl

end Step

theorem indexRows_of_run {clock : ℕ → OffsetDateTime} {uuids : ℕ → Uuid} {H : History}
    {s : Stores MemIndex} (hrun : Run (serviceStep P) (Stores.start clock uuids) H s) :
    IndexRows H s :=
  hrun.invariant (.start clock uuids) fun _ _ _ _ hrun hi he =>
    hi.step (blobLedger_of_run hrun).tracks (serviceStep_happens he)

/-! ### When a plan is complete -/

/-- Nothing blocks the planner: a stray origin that nothing holds has a policy without a
time to live, and the time to live of an uploaded one ends at an instant that can be
represented. -/
structure Unblocked (H : History) (s : Stores MemIndex) : Prop where
  strays : ∀ o, Stray H o → Idle s o →
    ∃ policy, s.policies.lookup o = some policy ∧ policy.retention.ttlSeconds = none
  expiries : ∀ u ∈ uploads H, Idle s u.result.originId → ∀ policy ttl r,
    s.policies.lookup u.result.originId = some policy → policy.retention.ttlSeconds = some ttl →
    s.registry.lookup u.result.originId = some r → Representable (expiresAt r ttl)

/-- A plan is made if every origin that nothing holds passes its test. -/
theorem plan_isOk_iff_idle (planner : GcPlanner) (s : Stores MemIndex) :
    (Prog.run Stores.handle planner.plan s).1.isOk = true ↔
      ∀ o ∈ s.index.originCounts, Idle s o → (planner.verdict s o).isOk = true := by
  have hlisted : IndexBackend.listOrigins s.index = .ok s.index.originCounts.keys := rfl
  rw [plan_isOk_iff hlisted]
  constructor
  · intro h o ho hidle
    have htest := h o (AList.mem_keys.mp ho)
    rwa [run_originTest_idle planner hidle] at htest
  · intro h o ho
    by_cases hidle : Idle s o
    · rw [run_originTest_idle planner hidle]
      exact h o (AList.mem_keys.mpr ho) hidle
    · rw [run_originTest_busy planner hidle]
      rfl

/-- The tests of the origins that nothing holds pass if nothing blocks the planner: an origin
with a row was uploaded, or is a stray one. -/
theorem verdicts_isOk_iff {H : History} {s : Stores MemIndex} (hi : IndexRows H s)
    (hledger : BlobLedger H s) (planner : GcPlanner) :
    (∀ o ∈ s.index.originCounts, Idle s o → (planner.verdict s o).isOk = true) ↔
      Unblocked H s := by
  constructor
  · intro h
    refine ⟨fun o hstray ho => ?_, fun u hu ho policy ttl r hp httl hr => ?_⟩
    · -- a stray origin has no record, so its policy must not ask for one
      obtain ⟨policy, hp, hages⟩ := isOk_verdict.mp (h o ((hi.rows o).mpr (Or.inr hstray.1)) ho)
      refine ⟨policy, hp, ?_⟩
      by_contra httl
      obtain ⟨ttl, httl⟩ := Option.ne_none_iff_exists'.mp httl
      obtain ⟨r, hr, -⟩ := hages ttl httl
      obtain ⟨u, hu, huo⟩ := hledger.onlyUploads o r hr
      exact hstray.2 u hu huo
    · have hrow := (hi.rows _).mpr (Or.inl (Table.mem_iff_exists_lookup.mpr ⟨r, hr⟩))
      obtain ⟨policy', hp', hages⟩ := isOk_verdict.mp (h _ hrow ho)
      obtain rfl : policy' = policy := Option.some.inj (hp'.symm.trans hp)
      obtain ⟨r', hr', hrange⟩ := hages ttl httl
      obtain rfl : r' = r := Option.some.inj (hr'.symm.trans hr)
      exact hrange
  · intro h o ho hidle
    rcases hr : s.registry.lookup o with _ | r
    · -- no record, so the origin is a stray one
      have hnone := Table.lookup_eq_none.mp hr
      have hnamed := ((hi.rows o).mp ho).resolve_left hnone
      have hstray : Stray H o := by
        refine ⟨hnamed, fun u hu huo => ?_⟩
        obtain ⟨r, hreg⟩ := hledger.tracks.registered hu
        rw [huo, hr] at hreg
        exact absurd hreg (by simp)
      obtain ⟨policy, hp, httl⟩ := h.strays o hstray hidle
      refine isOk_verdict.mpr ⟨policy, hp, fun ttl hsome => ?_⟩
      rw [httl] at hsome
      exact absurd hsome (by simp)
    · obtain ⟨u, hu, rfl⟩ := hledger.onlyUploads o r hr
      have hmem := Table.mem_iff_exists_lookup.mpr ⟨r, hr⟩
      obtain ⟨policy, hp⟩ := Table.mem_iff_exists_lookup.mp (hi.policies _ hmem)
      exact isOk_verdict.mpr ⟨policy, hp, fun ttl httl =>
        ⟨r, hr, h.expiries u hu hidle policy ttl r hp httl hr⟩⟩

/-- A plan that is made is complete. -/
theorem planComplete_iff_isOk {H : History} {s : Stores MemIndex} (hi : IndexRows H s)
    (hledger : BlobLedger H s) (planner : GcPlanner) :
    PlanComplete planner H s ↔ (Prog.run Stores.handle planner.plan s).1.isOk = true := by
  have hlisted : IndexBackend.listOrigins s.index = .ok s.index.originCounts.keys := rfl
  constructor
  · rintro ⟨pl, hpl, -⟩
    rw [hpl]
    rfl
  · intro hok
    have htests := (plan_isOk_iff hlisted).mp hok
    rcases hpl : (Prog.run Stores.handle planner.plan s).1 with pl | e | _
    · refine ⟨pl, hpl, fun u hu hc => ?_⟩
      obtain ⟨r, hr⟩ := hledger.tracks.registered hu
      have hrow := AList.mem_keys.mp
        ((hi.rows _).mpr (Or.inl (Table.mem_iff_exists_lookup.mpr ⟨r, hr⟩)))
      obtain ⟨⟨oids, hoids, hmarked⟩, -⟩ := plan_eq_ok hpl
      obtain rfl : s.index.originCounts.keys = oids := Outcome.ok.inj (hlisted.symm.trans hoids)
      exact (hmarked _).mpr ⟨hrow, hc.run_originTest (htests _ hrow)⟩
    · rw [hpl] at hok
      exact absurd hok (by simp [Outcome.isOk])
    · rw [hpl] at hok
      exact absurd hok (by simp [Outcome.isOk])

/-- **When planning cannot be blocked**: a plan is made, and complete, if and only if
every stray origin that nothing holds has a policy without a time to live, and every
uploaded one has a time to live that can be represented. -/
theorem planComplete_iff {clock : ℕ → OffsetDateTime} {uuids : ℕ → Uuid} {H : History}
    {s : Stores MemIndex} (hrun : Run (serviceStep P) (Stores.start clock uuids) H s)
    (planner : GcPlanner) : PlanComplete planner H s ↔ Unblocked H s := by
  have hi := indexRows_of_run hrun
  have hledger := blobLedger_of_run hrun
  calc PlanComplete planner H s
      ↔ (Prog.run Stores.handle planner.plan s).1.isOk = true :=
        planComplete_iff_isOk hi hledger planner
    _ ↔ ∀ o ∈ s.index.originCounts, Idle s o → (planner.verdict s o).isOk = true :=
        plan_isOk_iff_idle planner s
    _ ↔ Unblocked H s := verdicts_isOk_iff hi hledger planner

/-! ### A released share of an origin nobody made -/

/-- Share an origin that nobody uploaded. -/
def strayShare : SodlService × ServiceOp :=
  (sampleService none, .share ⟨"alice"⟩ ⟨"bob"⟩ ⟨sampleUuid 9⟩ [.read])

/-- Release the first share made. -/
def firstRelease : SodlService × ServiceOp :=
  (sampleService none, .releaseShare (SodlService.shareIdOf samplePlatform (sampleUuid 0)))

theorem planComplete_iff_replay :
    let r := replay samplePlatform [plainUpload, firstPin, firstTombstone] sampleStart
    PlanComplete samplePlanner r.1 r.2 ↔ Unblocked r.1 r.2 :=
  planComplete_iff
    (replay_run samplePlatform [plainUpload, firstPin, firstTombstone] sampleStart) samplePlanner

/-- **The planner is blocked** by an origin that was shared, never uploaded, and whose
share was released: it has a row with nothing on it, and no policy. -/
theorem not_planComplete :
    ¬∀ (P : Platform) (clock : ℕ → OffsetDateTime) (uuids : ℕ → Uuid) (H : History)
      (s : Stores MemIndex) (planner : GcPlanner),
      Run (serviceStep P) (Stores.start clock uuids) H s → PlanComplete planner H s := by
  intro h
  obtain ⟨pl, hpl, -⟩ := h samplePlatform _ _ _ _ samplePlanner
    (replay_run samplePlatform [strayShare, firstRelease] sampleStart)
  have hblocked : (Prog.run Stores.handle samplePlanner.plan
      (replay samplePlatform [strayShare, firstRelease] sampleStart).2).1 = .err .notFound := by
    decide +kernel
  rw [hblocked] at hpl
  exact absurd hpl (by simp)

end Sodl
