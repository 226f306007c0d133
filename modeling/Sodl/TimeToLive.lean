import Sodl.Planning

/-!
# Times to live

A policy gives an origin a time to live in seconds, an unsigned number of 64 bits; the
planner casts it to a signed one and adds it to the instant at which the origin was made.
The cast wraps from `2 ^ 63` on, and the addition panics past the year 9999.

The scan takes the origins in the order of the index and stops at the first lookup that
fails, so that only the origins it gets to can go wrong (`Sodl.ScanFits`). For these, the
sum of the instant and of the time to live must itself be an instant, as exact integers
(`Sodl.ttlSafe_iff`).
-/

namespace Sodl

open Effect

/-! ### The cast -/

/-- The sum is taken exactly, and is an instant. -/
def FitsExactly (createdAt : OffsetDateTime) (ttl : UInt64) : Prop :=
  createdAt + (ttl.toNat : ℤ) * 1000000000 ≤ maxDateTime

/-- The cast keeps the numbers below `2 ^ 63`, and makes the others negative. -/
theorem asI64_eq (ttl : UInt64) :
    asI64 ttl = if ttl.toNat < 2 ^ 63 then (ttl.toNat : ℤ) else (ttl.toNat : ℤ) - 2 ^ 64 := by
  have h : asI64 ttl = ttl.toBitVec.toInt := rfl
  rw [h, BitVec.toInt_eq_toNat_cond]
  have hval : ttl.toBitVec.toNat = ttl.toNat := rfl
  have hpow : ((2 ^ 64 : ℕ) : ℤ) = 2 ^ 64 := rfl
  rw [hval, hpow]
  split <;> split <;> omega

/-- An instant is less than `2 ^ 63` seconds before the last one. -/
theorem FitsExactly.lt {createdAt : OffsetDateTime} {ttl : UInt64}
    (hrep : Representable createdAt) (h : FitsExactly createdAt ttl) : ttl.toNat < 2 ^ 63 := by
  have hspan : ∀ c t : ℤ, -377705116800 * 1000000000 ≤ c →
      c + t * 1000000000 ≤ 253402300800 * 1000000000 - 1 → t < 2 ^ 63 := by omega
  exact Int.ofNat_lt.mp (hspan createdAt ttl.toNat hrep.1 h)

/-- **When the sum is right**: the cast does not wrap, and the sum is an instant. -/
theorem fitsExactly_iff {r : OriginRecord} {ttl : UInt64} (hrep : Representable r.createdAt) :
    FitsExactly r.createdAt ttl ↔
      asI64 ttl = (ttl.toNat : ℤ) ∧ Representable (expiresAt r ttl) := by
  constructor
  · intro h
    have hcast : asI64 ttl = (ttl.toNat : ℤ) := by rw [asI64_eq, if_pos (h.lt hrep)]
    refine ⟨hcast, ?_, ?_⟩
    · have hlater : r.createdAt ≤ expiresAt r ttl := by
        rw [expiresAt, hcast]
        exact Int.le_add_of_nonneg_right (by omega)
      exact Int.le_trans hrep.1 hlater
    · rw [expiresAt, hcast]
      exact h
  · rintro ⟨hcast, -, hmax⟩
    rwa [expiresAt, hcast] at hmax

/-! ### The origins the scan gets to -/

section Scan

variable {I : Type} [IndexBackend I]

/-- The lookups of the test of an idle origin succeed. -/
def Found (s : Stores I) (o : OriginId) : Prop :=
  ∃ policy, s.policies.lookup o = some policy ∧
    ∀ ttl, policy.retention.ttlSeconds = some ttl → ∃ r, s.registry.lookup o = some r

/-- The time to live of an origin, where it has one, ends at an instant. -/
def TtlFits (s : Stores I) (o : OriginId) : Prop :=
  ∀ policy ttl r, s.policies.lookup o = some policy → policy.retention.ttlSeconds = some ttl →
    s.registry.lookup o = some r → FitsExactly r.createdAt ttl

/-- **The scan goes well** as far as it goes: the time to live of each idle origin it gets
to ends at an instant. -/
def ScanFits (s : Stores I) : List OriginId → Prop
  | [] => True
  | o :: oids => (Idle s o → TtlFits s o) ∧ ((Idle s o → Found s o) → ScanFits s oids)

/-- The cast of the time to live of an origin, where the planner makes one, does not
wrap. -/
def CastsWell (s : Stores I) (o : OriginId) : Prop :=
  ∀ policy ttl r, s.policies.lookup o = some policy → policy.retention.ttlSeconds = some ttl →
    s.registry.lookup o = some r → asI64 ttl = (ttl.toNat : ℤ)

/-- The origin whose record a call asks for. -/
def StoreCall.aged? : StoreCall → Option OriginId
  | .getOrigin o => some o
  | _ => none

/-- **A program computes ends of times to live soundly**: it does not panic, and no cast it
makes wraps. -/
def EndsSoundly {α : Type} (s : Stores I) (p : Service α) : Prop :=
  (Prog.run Stores.handle p s).1 ≠ .panic ∧
    ∀ o ∈ (Prog.trace Stores.handle p s).filterMap StoreCall.aged?, CastsWell s o

variable {s : Stores I} {o : OriginId} {planner : GcPlanner}

theorem endsSoundly_pure {α : Type} (a : α) : EndsSoundly s (pure a : Service α) :=
  ⟨by simp, by simp [Prog.trace]⟩

/-- A composition whose first part only reads. -/
theorem endsSoundly_bind {α β : Type} {p : Service α} {f : α → Service β}
    (hreads : (Prog.run Stores.handle p s).2 = s) :
    EndsSoundly s (p >>= f) ↔
      EndsSoundly s p ∧ ∀ a, (Prog.run Stores.handle p s).1 = .ok a → EndsSoundly s (f a) := by
  rcases hp : Prog.run Stores.handle p s with ⟨out, s'⟩
  obtain rfl : s' = s := by rw [← hreads, hp]
  simp only [EndsSoundly, Prog.run_bind, Prog.trace_bind, hp]
  cases out with
  | ok a =>
    simp only [List.filterMap_append, List.forall_mem_append, Outcome.ok.injEq, ne_eq,
      reduceCtorEq, not_false_eq_true, true_and, forall_eq']
    tauto
  | err e => simp
  | panic => simp

/-- A selection by tests that only read. -/
theorem endsSoundly_select_cons {ι : Type} {f : ι → Service Bool} {x : ι} {xs : List ι}
    (hreads : ∀ x, (f x).Preserves Stores.handle fun t => t = s) :
    EndsSoundly s (Prog.select f (x :: xs)) ↔ EndsSoundly s (f x) ∧
      ((Prog.run Stores.handle (f x) s).1.isOk = true → EndsSoundly s (Prog.select f xs)) := by
  have hxs : (Prog.run Stores.handle (Prog.select f xs) s).2 = s :=
    Prog.Preserves.run (.select fun x _ => hreads x) rfl
  rw [Prog.select, endsSoundly_bind ((hreads x).run rfl)]
  refine and_congr_right fun _ => ?_
  have htail : ∀ keep : Bool,
      EndsSoundly s (Prog.select f xs >>= fun rest => pure (if keep then x :: rest else rest)) ↔
        EndsSoundly s (Prog.select f xs) := fun keep => by
    rw [endsSoundly_bind hxs]
    exact and_iff_left fun a _ => endsSoundly_pure _
  rcases (Prog.run Stores.handle (f x) s).1 with keep | e | _
  · exact ⟨fun h _ => (htail keep).mp (h keep rfl), fun h a ha => (htail a).mpr (h rfl)⟩
  · simp [Outcome.isOk]
  · simp [Outcome.isOk]

/-- A call that reads, and that asks for no record. -/
theorem endsSoundly_read {β : Type} {c : StoreCall} {f : StoreCall.Ret c → Service β}
    {a : StoreCall.Ret c} (hc : c.aged? = none)
    (hrun : Prog.run Stores.handle (Store.invoke c) s = (.ok a, s)) :
    EndsSoundly s (Store.invoke c >>= f) ↔ EndsSoundly s (f a) := by
  have htrace : Prog.trace Stores.handle (Store.invoke c >>= f) s =
      c :: Prog.trace Stores.handle (f a) s := by
    rw [Prog.trace_bind_ok hrun]
    rfl
  rw [EndsSoundly, EndsSoundly, Prog.run_bind_ok hrun, htrace, List.filterMap_cons_none hc]

/-- A call that fails. -/
theorem endsSoundly_fail {β : Type} {c : StoreCall} {f : StoreCall.Ret c → Service β}
    {e : SodlError} (hc : ∀ o, c.aged? = some o → CastsWell s o)
    (hrun : Prog.run Stores.handle (Store.invoke c) s = (.err e, s)) :
    EndsSoundly s (Store.invoke c >>= f) := by
  have htrace : Prog.trace Stores.handle (Store.invoke c >>= f) s = [c] := by
    rw [Prog.trace_bind, hrun]
    rfl
  refine ⟨by rw [Prog.run_bind_err hrun]; simp, fun o ho => ?_⟩
  rw [htrace, List.mem_filterMap] at ho
  obtain ⟨d, hd, hdo⟩ := ho
  rw [List.mem_singleton.mp hd] at hdo
  exact hc o hdo

/-- The call that asks for a record. -/
theorem endsSoundly_getOrigin {β : Type} {f : OriginRecord → Service β} {r : OriginRecord}
    (hr : s.registry.lookup o = some r) :
    EndsSoundly s (Store.getOrigin o >>= f) ↔ CastsWell s o ∧ EndsSoundly s (f r) := by
  have hrun : Prog.run Stores.handle (Store.getOrigin o) s = (.ok r, s) := Stores.run_found rfl hr
  have htrace : Prog.trace Stores.handle (Store.getOrigin o >>= f) s =
      .getOrigin o :: Prog.trace Stores.handle (f r) s := by
    rw [Prog.trace_bind_ok hrun]
    rfl
  have haged : StoreCall.aged? (.getOrigin o) = some o := rfl
  rw [EndsSoundly, EndsSoundly, Prog.run_bind_ok hrun, htrace, List.filterMap_cons_some haged,
    List.forall_mem_cons]
  tauto

/-! ### One test -/

/-- The last step of a test is sound if the sum is an instant. -/
theorem endsSoundly_addSeconds {r : OriginRecord} {ttl : UInt64} :
    EndsSoundly s (do
      let expiresAt ← Prog.lift (addSeconds r.createdAt (asI64 ttl))
      pure !(planner.now < expiresAt) : Service Bool) ↔ Representable (expiresAt r ttl) := by
  by_cases hrange : Representable (expiresAt r ttl)
  · have hadd : addSeconds r.createdAt (asI64 ttl) = .ok (expiresAt r ttl) := if_pos hrange
    rw [hadd]
    exact iff_of_true (endsSoundly_pure _) hrange
  · have hadd : addSeconds r.createdAt (asI64 ttl) = .panic := if_neg hrange
    rw [hadd]
    exact iff_of_false (fun h => h.1 rfl) hrange

/-- **The test of an origin is sound** if the origin is held, or its time to live fits. -/
theorem endsSoundly_originTest
    (hrep : ∀ o r, s.registry.lookup o = some r → Representable r.createdAt) :
    EndsSoundly s (planner.originTest o) ↔ (Idle s o → TtlFits s o) := by
  have hcount : Prog.run Stores.handle (Store.getOriginCount o) s =
      (.ok (IndexBackend.getOrigin o s.index), s) := rfl
  have hpins : Prog.run Stores.handle (Store.listPinsForOrigin o) s =
      (.ok ((s.pins.entries.map Sigma.snd).filter (Stores.targetsOrigin o)), s) := rfl
  rw [GcPlanner.originTest, endsSoundly_read rfl hcount]
  by_cases hrefs : IndexBackend.getOrigin o s.index = 0
  swap
  · rw [if_pos hrefs]
    exact iff_of_true (endsSoundly_pure _) fun hidle => absurd hidle.refs hrefs
  rw [if_neg (not_not.mpr hrefs), endsSoundly_read rfl hpins]
  rcases hactive : ((s.pins.entries.map Sigma.snd).filter (Stores.targetsOrigin o)).any
      (fun p => decide (p.state ≠ .released)) with _ | _
  swap
  · rw [if_pos hactive]
    refine iff_of_true (endsSoundly_pure _) fun hidle => ?_
    rw [any_pinned_iff.mpr hidle.unpinned] at hactive
    exact absurd hactive Bool.false_ne_true
  have hidle : Idle s o := ⟨hrefs, any_pinned_iff.mp hactive⟩
  rw [hactive, if_neg Bool.false_ne_true, imp_iff_right hidle]
  -- the lookups of an idle origin: its policy, and its record where the policy asks for its age
  rcases hp : s.policies.lookup o with _ | policy
  · have hget : Prog.run Stores.handle (Store.getOriginPolicy o) s = (.err .notFound, s) :=
      Stores.run_notFound rfl hp
    exact iff_of_true (endsSoundly_fail (by simp [StoreCall.aged?]) hget)
      fun p _ _ h => by simp [hp] at h
  have hget : Prog.run Stores.handle (Store.getOriginPolicy o) s = (.ok policy, s) :=
    Stores.run_found rfl hp
  rw [endsSoundly_read rfl hget]
  rcases httl : policy.retention.ttlSeconds with _ | ttl
  · exact iff_of_true (endsSoundly_pure _) fun p t r h ht => by
      obtain rfl : policy = p := Option.some.inj (hp.symm.trans h)
      simp [httl] at ht
  rcases hr : s.registry.lookup o with _ | r
  · have hrec : Prog.run Stores.handle (Store.getOrigin o) s = (.err .notFound, s) :=
      Stores.run_notFound rfl hr
    have hnone : ∀ r, s.registry.lookup o ≠ some r := fun r => by simp [hr]
    exact iff_of_true (endsSoundly_fail (fun o' ho' => by
      obtain rfl : o = o' := Option.some.inj ho'
      exact fun _ _ r _ _ h => absurd h (hnone r)) hrec) fun _ _ r _ _ h => absurd h (hnone r)
  -- all of them are there, so that everything hangs on the one sum
  have hcast : CastsWell s o ↔ asI64 ttl = (ttl.toNat : ℤ) := by
    refine ⟨fun h => h policy ttl r hp httl hr, fun h p t _ hp' ht _ => ?_⟩
    obtain rfl : policy = p := Option.some.inj (hp.symm.trans hp')
    obtain rfl : ttl = t := Option.some.inj (httl.symm.trans ht)
    exact h
  have hfits : TtlFits s o ↔ FitsExactly r.createdAt ttl := by
    refine ⟨fun h => h policy ttl r hp httl hr, fun h p t r' hp' ht hr' => ?_⟩
    obtain rfl : policy = p := Option.some.inj (hp.symm.trans hp')
    obtain rfl : ttl = t := Option.some.inj (httl.symm.trans ht)
    obtain rfl : r = r' := Option.some.inj (hr.symm.trans hr')
    exact h
  rw [hfits, fitsExactly_iff (hrep o r hr), ← hcast]
  dsimp only
  rw [endsSoundly_getOrigin hr, endsSoundly_addSeconds]

/-! ### The scan -/

/-- The tests of a scan end soundly if the scan goes well. -/
theorem endsSoundly_select
    (hrep : ∀ o r, s.registry.lookup o = some r → Representable r.createdAt)
    (oids : List OriginId) :
    EndsSoundly s (Prog.select planner.originTest oids) ↔ ScanFits s oids := by
  induction oids with
  | nil => exact iff_of_true (endsSoundly_pure _) trivial
  | cons o oids ih =>
    rw [endsSoundly_select_cons fun o => originTest_reads planner o s,
      endsSoundly_originTest hrep, ih]
    refine and_congr_right fun hfits => imp_congr_left ?_
    by_cases hidle : Idle s o
    · rw [run_originTest_idle planner hidle, isOk_verdict, imp_iff_right hidle]
      refine exists_congr fun policy => and_congr_right fun hp => forall₂_congr fun ttl httl => ?_
      refine exists_congr fun r => and_iff_left_of_imp fun hr => ?_
      exact ((fitsExactly_iff (hrep o r hr)).mp (hfits hidle policy ttl r hp httl hr)).2
    · rw [run_originTest_busy planner hidle]
      exact iff_of_true rfl fun h => absurd h hidle

/-- The test of a blob only reads. -/
theorem blobTest_reads (b : BlobId) :
    (GcPlanner.blobTest b).Preserves Stores.handle fun t => t = s :=
  Prog.Preserves.bind (.perform fun _ hs => hs) fun _ => trivial

/-- The blob half of a plan asks for no record. -/
theorem endsSoundly_select_blobTest (bids : List BlobId) :
    EndsSoundly s (Prog.select GcPlanner.blobTest bids) := by
  have htest : ∀ b, EndsSoundly s (GcPlanner.blobTest b) := by
    intro b
    have hcount : Prog.run Stores.handle (Store.getBlobCount b) s =
        (.ok (IndexBackend.getBlob b s.index), s) := rfl
    rw [GcPlanner.blobTest, endsSoundly_read rfl hcount]
    exact endsSoundly_pure _
  induction bids with
  | nil => exact endsSoundly_pure _
  | cons b bids ih =>
    exact (endsSoundly_select_cons blobTest_reads).mpr ⟨htest b, fun _ => ih⟩

/-- **A plan ends soundly** if its scan of the origins goes well. -/
theorem endsSoundly_plan
    (hrep : ∀ o r, s.registry.lookup o = some r → Representable r.createdAt)
    {oids : List OriginId} (hoids : IndexBackend.listOrigins s.index = .ok oids) :
    EndsSoundly s planner.plan ↔ ScanFits s oids := by
  have hlist : Prog.run Stores.handle Store.listOrigins s = (.ok oids, s) := Prod.ext hoids rfl
  have hblobs : Prog.run Stores.handle Store.listBlobs s =
      (.ok (IndexBackend.listBlobs s.index), s) := rfl
  rw [GcPlanner.plan, endsSoundly_read rfl hlist, endsSoundly_bind
    (Prog.Preserves.run (.select fun o _ => originTest_reads planner o s) rfl),
    endsSoundly_select hrep]
  refine and_iff_left fun marked _ => ?_
  rw [endsSoundly_read rfl hblobs,
    endsSoundly_bind (Prog.Preserves.run (.select fun b _ => blobTest_reads b) rfl)]
  exact ⟨endsSoundly_select_blobTest _, fun _ _ => endsSoundly_pure _⟩

/-- Where every lookup succeeds, the scan gets to every origin. -/
theorem ScanFits.all {oids : List OriginId} (h : ScanFits s oids)
    (hfound : ∀ o ∈ oids, Idle s o → Found s o) : ∀ o ∈ oids, Idle s o → TtlFits s o := by
  induction oids with
  | nil => exact fun o ho => absurd ho List.not_mem_nil
  | cons o oids ih =>
    obtain ⟨hfits, hrest⟩ := h
    refine List.forall_mem_cons.mpr ⟨hfits, ?_⟩
    exact ih (hrest (hfound o (List.mem_cons_self ..))) fun o ho =>
      hfound o (List.mem_cons_of_mem _ ho)

/-- An origin that passes its test is idle. -/
theorem run_originTest_eq_true :
    (Prog.run Stores.handle (planner.originTest o) s).1 = .ok true ↔
      Idle s o ∧ planner.verdict s o = .ok true := by
  by_cases hidle : Idle s o
  · rw [run_originTest_idle planner hidle]
    exact (and_iff_right hidle).symm
  · rw [run_originTest_busy planner hidle]
    simp [hidle]

omit [IndexBackend I] in
/-- An origin with a time to live passes its test when that has passed, as the planner
computes it. -/
theorem verdict_eq_true {policy : OriginPolicy} {ttl : UInt64} {r : OriginRecord}
    (hp : s.policies.lookup o = some policy) (httl : policy.retention.ttlSeconds = some ttl)
    (hr : s.registry.lookup o = some r) (hrep : Representable r.createdAt)
    (hfits : FitsExactly r.createdAt ttl) :
    planner.verdict s o = .ok true ↔
      r.createdAt + (ttl.toNat : ℤ) * 1000000000 ≤ planner.now := by
  obtain ⟨hcast, hrange⟩ := (fitsExactly_iff hrep).mp hfits
  have hadd : addSeconds r.createdAt (asI64 ttl) = .ok (expiresAt r ttl) := if_pos hrange
  simp only [GcPlanner.verdict, hp, httl, hr, hadd, Outcome.ok_bind, Outcome.pure_eq,
    Outcome.ok.injEq, Bool.not_eq_true', decide_eq_false_iff_not, not_lt]
  rw [expiresAt, hcast]

/-- What a plan that was made says about the origins it marks. -/
theorem mem_originTombstone {pl : GcPlan}
    (hpl : (Prog.run Stores.handle planner.plan s).1 = .ok pl) {oids : List OriginId}
    (hoids : IndexBackend.listOrigins s.index = .ok oids) :
    (∀ o ∈ oids, Idle s o → Found s o) ∧
      ∀ o, o ∈ pl.originTombstone ↔ o ∈ oids ∧ Idle s o ∧ planner.verdict s o = .ok true := by
  have hok : (Prog.run Stores.handle planner.plan s).1.isOk = true := by
    rw [hpl]
    rfl
  constructor
  · intro o ho hidle
    have htest := (plan_isOk_iff hoids).mp hok o ho
    rw [run_originTest_idle planner hidle] at htest
    obtain ⟨policy, hp, hages⟩ := isOk_verdict.mp htest
    exact ⟨policy, hp, fun ttl httl => (hages ttl httl).imp fun _ => And.left⟩
  · intro o
    obtain ⟨⟨oids', hoids', hmem⟩, -⟩ := plan_eq_ok hpl
    obtain rfl : oids' = oids := Outcome.ok.inj (hoids'.symm.trans hoids)
    rw [hmem, run_originTest_eq_true]

/-- Where the scan goes well, an origin with a time to live is marked when that has
passed. -/
theorem marked_iff (hrep : ∀ o r, s.registry.lookup o = some r → Representable r.createdAt)
    {oids : List OriginId} (hoids : IndexBackend.listOrigins s.index = .ok oids)
    (hscan : ScanFits s oids) {pl : GcPlan}
    (hpl : (Prog.run Stores.handle planner.plan s).1 = .ok pl) {policy : OriginPolicy}
    {ttl : UInt64} {r : OriginRecord} (hp : s.policies.lookup o = some policy)
    (httl : policy.retention.ttlSeconds = some ttl) (hr : s.registry.lookup o = some r) :
    o ∈ pl.originTombstone ↔
      o ∈ oids ∧ Idle s o ∧ r.createdAt + (ttl.toNat : ℤ) * 1000000000 ≤ planner.now := by
  obtain ⟨hfound, hmem⟩ := mem_originTombstone hpl hoids
  rw [hmem]
  refine and_congr_right fun ho => and_congr_right fun hidle => ?_
  exact verdict_eq_true hp httl hr (hrep o r hr)
    (hscan.all hfound o ho hidle policy ttl r hp httl hr)

/-- The origins of which a plan computes when their time to live ends. -/
def agedBy (planner : GcPlanner) (s : Stores I) : List OriginId :=
  (Prog.trace Stores.handle planner.plan s).filterMap StoreCall.aged?

/-- **Times to live are safe**: a plan does not panic and casts no time to live to another
number, and it marks an origin with a time to live only when that has passed; a longer one
makes no origin eligible earlier. -/
structure TtlSafe (s : Stores I) : Prop where
  noPanic : ∀ planner : GcPlanner, Representable planner.now →
    (Prog.run Stores.handle planner.plan s).1 ≠ .panic
  noOverflow : ∀ planner : GcPlanner, Representable planner.now →
    ∀ o ∈ agedBy planner s, CastsWell s o
  exact : ∀ (planner : GcPlanner) (pl : GcPlan), Representable planner.now →
    (Prog.run Stores.handle planner.plan s).1 = .ok pl → ∀ o ∈ pl.originTombstone,
      ∀ policy ttl r, s.policies.lookup o = some policy →
        policy.retention.ttlSeconds = some ttl → s.registry.lookup o = some r →
        (ttl.toNat : ℤ) * 1000000000 ≤ planner.now - r.createdAt
  longer : ∀ (planner : GcPlanner) (pl pl' : GcPlan) (o : OriginId) (policy policy' : OriginPolicy)
    (ttl ttl' : UInt64), Representable planner.now → s.policies.lookup o = some policy' →
    policy'.retention.ttlSeconds = some ttl' → policy.retention.ttlSeconds = some ttl →
    ttl ≤ ttl' → (Prog.run Stores.handle planner.plan s).1 = .ok pl' →
    (Prog.run Stores.handle planner.plan
      { s with policies := s.policies.insert o policy }).1 = .ok pl →
    o ∈ pl'.originTombstone → o ∈ pl.originTombstone

/-- A shorter time to live fits where a longer one does. -/
theorem FitsExactly.of_le {createdAt : OffsetDateTime} {ttl ttl' : UInt64} (hle : ttl ≤ ttl')
    (h : FitsExactly createdAt ttl') : FitsExactly createdAt ttl := by
  have hnat : (ttl.toNat : ℤ) * 1000000000 ≤ (ttl'.toNat : ℤ) * 1000000000 := by
    have hle' : ttl.toNat ≤ ttl'.toNat := UInt64.le_iff_toNat_le.mp hle
    omega
  exact (Int.add_le_add_left hnat createdAt).trans h

/-- **When times to live are safe**: if and only if, for every origin that the scan gets to
and that nothing holds, the instant it was made at and its time to live add up, as exact
integers, to an instant. -/
theorem ttlSafe_iff (hrep : ∀ o r, s.registry.lookup o = some r → Representable r.createdAt)
    {oids : List OriginId} (hoids : IndexBackend.listOrigins s.index = .ok oids) :
    TtlSafe s ↔ ScanFits s oids := by
  constructor
  · intro h
    have hzero : Representable (GcPlanner.mk none 0).now := ⟨by decide, by decide⟩
    exact (endsSoundly_plan hrep hoids).mp ⟨h.noPanic _ hzero, h.noOverflow _ hzero⟩
  · intro hscan
    have hsound : ∀ planner : GcPlanner, EndsSoundly s planner.plan := fun planner =>
      (endsSoundly_plan hrep hoids).mpr hscan
    refine ⟨fun planner _ => (hsound planner).1, fun planner _ => (hsound planner).2, ?_, ?_⟩
    · intro planner pl _ hpl o ho policy ttl r hp httl hr
      obtain ⟨-, -, hdue⟩ := (marked_iff hrep hoids hscan hpl hp httl hr).mp ho
      exact Int.le_sub_left_of_add_le hdue
    · intro planner pl pl' o policy policy' ttl ttl' _ hp' httl' httl hle hpl' hpl ho
      obtain ⟨hfound, hmem⟩ := mem_originTombstone hpl' hoids
      obtain ⟨hlisted, hidle, -⟩ := (hmem o).mp ho
      obtain ⟨p, hp, hrecs⟩ := hfound o hlisted hidle
      obtain rfl : policy' = p := Option.some.inj (hp'.symm.trans hp)
      obtain ⟨r, hr⟩ := hrecs ttl' httl'
      obtain ⟨-, -, hdue⟩ := (marked_iff hrep hoids hscan hpl' hp' httl' hr).mp ho
      have hfits : FitsExactly r.createdAt ttl' :=
        hscan.all hfound o hlisted hidle policy' ttl' r hp' httl' hr
      -- with the shorter time to live the origin passes as well
      refine ((mem_originTombstone hpl hoids).2 o).mpr ⟨hlisted, ⟨hidle.refs, hidle.unpinned⟩, ?_⟩
      have hp : (s.policies.insert o policy).lookup o = some policy :=
        Table.lookup_insert_self _ _ _
      refine (verdict_eq_true (s := { s with policies := s.policies.insert o policy }) hp httl hr
        (hrep o r hr) (hfits.of_le hle)).mpr ?_
      have hnat : (ttl.toNat : ℤ) * 1000000000 ≤ (ttl'.toNat : ℤ) * 1000000000 := by
        have hle' : ttl.toNat ≤ ttl'.toNat := UInt64.le_iff_toNat_le.mp hle
        omega
      exact (Int.add_le_add_left hnat r.createdAt).trans hdue

end Scan

/-! ### A time to live without end -/

instance (t : OffsetDateTime) : Decidable (Representable t) :=
  inferInstanceAs (Decidable (minDateTime ≤ t ∧ t ≤ maxDateTime))

/-- What holds of all rows of a table holds of what is looked up. -/
theorem forall_lookup_of_entries {t : Table OriginId OriginRecord} {p : OriginRecord → Prop}
    (h : ∀ e ∈ t.entries, p e.2) : ∀ o r, t.lookup o = some r → p r := fun _ _ hr =>
  h _ (Table.mem_entries.mpr hr)

theorem ttlSafe_iff_replay :
    let s := (replay samplePlatform [plainUpload, firstTombstone] sampleStart).2
    TtlSafe s ↔ ScanFits s [⟨sampleUuid 0⟩] :=
  ttlSafe_iff (forall_lookup_of_entries (by decide +kernel)) (by decide +kernel)

/-- Upload three bytes, to be kept for as many seconds as a signed number holds. -/
def endlessUpload : SodlService × ServiceOp :=
  (sampleService none, .upload (sampleRequest (some 0x7fffffffffffffff) [1, 2, 3]))

/-- **The planner panics** at an upload with a long time to live whose references are
gone. -/
theorem not_ttlSafe :
    ¬∀ (P : Platform) (clock : ℕ → OffsetDateTime) (uuids : ℕ → Uuid) (H : History)
      (s : Stores MemIndex), Run (serviceStep P) (Stores.start clock uuids) H s →
      (∀ o r, s.registry.lookup o = some r → Representable r.createdAt) → TtlSafe s := by
  intro h
  have hsafe := h samplePlatform _ _ _ _
    (replay_run samplePlatform [endlessUpload, firstTombstone] sampleStart)
    (forall_lookup_of_entries (by decide +kernel))
  have hpanic : (Prog.run Stores.handle samplePlanner.plan
      (replay samplePlatform [endlessUpload, firstTombstone] sampleStart).2).1 = .panic := by
    decide +kernel
  exact hsafe.noPanic samplePlanner (by decide) hpanic

end Sodl
