import Sodl.BlobRefs

/-!
# Origin references

The origin counters of the index against the references a run has handed out: a
representation, a share, a derivation and a pin each hold one. The first is read
off the registry and the last off the pin store; a share that was released looks
like any other in its store, so shares are read off the history.

Every operation moves the counter by as much as the references, with one
exception: `release_share` and `unpin` do not ask whether they were called
before. The second release of an id takes a reference off the counter that
belongs to somebody else, unless the counter is at zero already
(`Sodl.originAccounting_iff`).
-/

namespace Sodl

open Effect

variable {P : Platform}

/-! ### Reading the references off a history -/

/-- The share an event made, with its origin. -/
def Event.shared? (e : Event) : Option (ShareId × OriginId) :=
  match e.op, e.outcome with
  | .share _ _ o _, .ok (.shared i) => some (i, o)
  | _, _ => none

/-- The share an event released. -/
def Event.released? (e : Event) : Option ShareId :=
  match e.op, e.outcome with
  | .releaseShare i, .ok _ => some i
  | _, _ => none

/-- The origin an event derived from. -/
def Event.derived? (e : Event) : Option OriginId :=
  match e.op, e.outcome with
  | .derive o _ _, .ok _ => some o
  | _, _ => none

/-- The pin an event made. -/
def Event.pinned? (e : Event) : Option String :=
  match e.op, e.outcome with
  | .pinOrigin _ _ _, .ok (.pinned i) => some i
  | _, _ => none

/-- The shares that were made, with their origins. -/
def shares (H : History) : List (ShareId × OriginId) := H.filterMap Event.shared?

/-- The shares that were released, as often as they were. -/
def releasedShares (H : History) : List ShareId := H.filterMap Event.released?

/-- The origins that were derived from, as often as they were. -/
def derivations (H : History) : List OriginId := H.filterMap Event.derived?

/-- The pins that were made. -/
def pins (H : History) : List String := H.filterMap Event.pinned?

/-- No id was handed out twice. -/
structure FreshIds (H : History) : Prop where
  shares : ((shares H).map Prod.fst).Nodup
  pins : (pins H).Nodup

/-- The representations an origin has now. -/
def representationCount (s : Stores MemIndex) (o : OriginId) : ℕ :=
  ((s.registry.lookup o).map fun r => r.representations.length).getD 0

/-- The shares of an origin that were never released. -/
def unreleasedShares (H : History) (o : OriginId) : ℕ :=
  (shares H).countP fun x => x.2 = o ∧ x.1 ∉ releasedShares H

/-- Whether a pin holds a reference to an origin. -/
def holds (o : OriginId) (p : PinRecord) : Bool := p.target = .origin o ∧ p.state ≠ .released

/-- The pins of an origin that are not released. -/
def unreleasedPins (s : Stores MemIndex) (o : OriginId) : ℕ :=
  Table.sumBy (fun _ p => (holds o p).toNat) s.pins

/-- The references to an origin. -/
def originRefs (H : History) (s : Stores MemIndex) (o : OriginId) : ℕ :=
  representationCount s o + unreleasedShares H o + (derivations H).count o + unreleasedPins s o

/-- **Origin reference accounting**: every counter says how many references there
are, and an origin is a candidate for collection only if there are none. -/
structure OriginAccounting (H : History) (s : Stores MemIndex) : Prop where
  refcount : ∀ o, s.index.originCounts.get o = originRefs H s o
  candidate : ∀ o, (Prog.run Stores.handle (SodlService.isGcCandidate o) s).1 = .ok true →
    representationCount s o = 0 ∧ unreleasedShares H o = 0 ∧ (derivations H).count o = 0 ∧
      unreleasedPins s o = 0

theorem run_isGcCandidate (o : OriginId) (s : Stores MemIndex) :
    Prog.run Stores.handle (SodlService.isGcCandidate o) s =
      (.ok (s.index.originCounts.get o == 0), s) := rfl

/-- The counters decide. -/
theorem originAccounting_iff_refcount {H : History} {s : Stores MemIndex} :
    OriginAccounting H s ↔ ∀ o, s.index.originCounts.get o = originRefs H s o := by
  refine ⟨fun h => h.refcount, fun h => ⟨h, fun o hc => ?_⟩⟩
  rw [run_isGcCandidate, Outcome.ok.injEq, beq_iff_eq, h o, originRefs] at hc
  omega

/-! ### Releasing again -/

/-- An event that releases a share or a pin of an origin which is released
already. -/
def ReleasesAgain (H : History) (s : Stores MemIndex) (e : Event) (o : OriginId) : Prop :=
  match e.op with
  | .releaseShare i => i ∈ releasedShares H ∧ ∃ r, s.shares.lookup i.val = some r ∧ r.originId = o
  | .unpin i => ∃ p, s.pins.lookup i = some p ∧ p.target = .origin o ∧ p.state = .released
  | _ => False

/-! ### The records against the history -/

/-- What the stores of shares and pins hold stems from the history. -/
structure RefRecords (H : History) (s : Stores MemIndex) : Prop where
  shared : ∀ i r, s.shares.lookup i = some r → (⟨i⟩, r.originId) ∈ shares H
  released : ∀ i ∈ releasedShares H, ∃ o, (i, o) ∈ shares H
  pinned : ∀ i p, s.pins.lookup i = some p → i ∈ pins H ∧ ∃ o, p.target = .origin o

theorem RefRecords.start (clock : ℕ → OffsetDateTime) (uuids : ℕ → Uuid) :
    RefRecords [] (Stores.start clock uuids) where
  shared i r h := absurd h (by simp [Stores.start, Stores.empty])
  released i h := absurd h (by simp [releasedShares])
  pinned i p h := absurd h (by simp [Stores.start, Stores.empty])

/-- What a step adds to the records, it adds to the history. -/
theorem RefRecords.snoc {H : History} {s s' : Stores MemIndex} {e : Event} (hi : RefRecords H s)
    (hsh : ∀ i r, s'.shares.lookup i = some r →
      s.shares.lookup i = some r ∨ e.shared? = some (⟨i⟩, r.originId))
    (hrel : ∀ i, e.released? = some i → ∃ o, (i, o) ∈ shares H)
    (hpin : ∀ i p, s'.pins.lookup i = some p →
      (i ∈ pins H ∨ e.pinned? = some i) ∧ ∃ o, p.target = .origin o) :
    RefRecords (H ++ [e]) s' where
  shared i r h := mem_filterMap_snoc.mpr ((hsh i r h).imp_left (hi.shared i r))
  released i h := by
    obtain ⟨o, ho⟩ := (mem_filterMap_snoc.mp h).elim (hi.released i) (hrel i)
    exact ⟨o, mem_filterMap_snoc.mpr (Or.inl ho)⟩
  pinned i p h := ⟨mem_filterMap_snoc.mpr (hpin i p h).1, (hpin i p h).2⟩

theorem RefRecords.step {H : History} {s s' : Stores MemIndex} {e : Event} (hi : RefRecords H s)
    (h : Happens P s e s') : RefRecords (H ++ [e]) s' := by
  have hold : ∀ i p, s.pins.lookup i = some p →
      (i ∈ pins H ∨ e.pinned? = some i) ∧ ∃ o, p.target = .origin o :=
    fun i p hp => ⟨Or.inl (hi.pinned i p hp).1, (hi.pinned i p hp).2⟩
  cases h with
  | upload => exact hi.snoc (fun _ _ => Or.inl) (by simp [Event.released?]) hold
  | uploadStops => exact hi.snoc (fun _ _ => Or.inl) (by simp [Event.released?]) hold
  | share svc fromPrincipal toPrincipal originId caps r hid ho =>
    refine hi.snoc (fun i r' hr' => ?_) (by simp [Event.released?]) hold
    rcases Table.lookup_insert_eq_some hr' with ⟨rfl, rfl⟩ | ⟨-, hr'⟩
    · exact Or.inr (congrArg (fun o => some (_, o)) ho.symm)
    · exact Or.inl hr'
  | shareStops => exact hi.snoc (fun _ _ => Or.inl) (by simp [Event.released?]) hold
  | derive => exact hi.snoc (fun _ _ => Or.inl) (by simp [Event.released?]) hold
  | pinOrigin svc requestedBy originId minReplicas =>
    refine hi.snoc (fun _ _ => Or.inl) (by simp [Event.released?]) fun i p hp => ?_
    rcases Table.lookup_insert_eq_some hp with ⟨rfl, rfl⟩ | ⟨-, hp⟩
    · exact ⟨Or.inr rfl, originId, rfl⟩
    · exact hold i p hp
  | releaseShare svc shareId r hr =>
    refine hi.snoc (fun _ _ => Or.inl) (fun i hrel => ?_) hold
    obtain rfl : shareId = i := by simpa [Event.released?] using hrel
    exact ⟨r.originId, hi.shared _ r hr⟩
  | unpin svc pinId p hp =>
    refine hi.snoc (fun _ _ => Or.inl) (by simp [Event.released?]) fun i q hq => ?_
    rcases Table.lookup_insert_eq_some hq with ⟨rfl, rfl⟩ | ⟨-, hq⟩
    · exact ⟨Or.inl (hi.pinned _ p hp).1, (hi.pinned _ p hp).2⟩
    · exact hold i q hq
  | tombstoneOrigin => exact hi.snoc (fun _ _ => Or.inl) (by simp [Event.released?]) hold
  | notFound svc op hop =>
    refine hi.snoc (fun _ _ => Or.inl) (fun i hrel => ?_) hold
    simp [Event.released?] at hrel

/-! ### The references against the history -/

/-- Taking one key out of a list without repeated keys. -/
theorem countP_ne_key {κ ν : Type} [DecidableEq κ] {l : List (κ × ν)}
    (hl : (l.map Prod.fst).Nodup) {k : κ} {v : ν} (hmem : (k, v) ∈ l) (q : κ × ν → Bool) :
    (l.countP fun x => q x && decide (x.1 ≠ k)) + (q (k, v)).toNat = l.countP q := by
  induction l with
  | nil => exact absurd hmem (by simp)
  | cons y l ih =>
    rw [List.map_cons, List.nodup_cons] at hl
    rw [List.countP_cons, List.countP_cons]
    rcases List.mem_cons.mp hmem with rfl | hmem
    · -- the key does not occur again
      have hrest : (l.countP fun x => q x && decide (x.1 ≠ k)) = l.countP q := by
        refine List.countP_congr fun x hx => ?_
        have hne : x.1 ≠ k := by
          rintro rfl
          have hk := List.mem_map_of_mem (f := Prod.fst) hx
          exact hl.1 hk
        simp [hne]
      rw [hrest]
      cases q (k, v) <;> simp
    · have hne : y.1 ≠ k := fun h => hl.1 (h ▸ List.mem_map_of_mem hmem)
      have hy : (q y && decide (y.1 ≠ k)) = q y := by simp [hne]
      have hrest := ih hl.2 hmem
      simp only [hy]
      omega

theorem unreleasedShares_snoc {H : History} {e : Event} {o : OriginId} (hs : e.shared? = none)
    (hr : e.released? = none) : unreleasedShares (H ++ [e]) o = unreleasedShares H o := by
  rw [unreleasedShares, unreleasedShares, shares, releasedShares, filterMap_snoc, filterMap_snoc,
    hs, hr, Option.toList_none, Option.toList_none, List.append_nil, List.append_nil]
  rfl

/-- A share that was made under a fresh id is an unreleased one. -/
theorem unreleasedShares_share {H : History} {s : Stores MemIndex} {e : Event} {o o' : OriginId}
    {i : ShareId} (hi : RefRecords H s) (hf : FreshIds (H ++ [e])) (hs : e.shared? = some (i, o'))
    (hr : e.released? = none) :
    unreleasedShares (H ++ [e]) o = unreleasedShares H o + if o' = o then 1 else 0 := by
  have hfresh := hf.shares
  rw [shares, filterMap_snoc, hs, Option.toList_some, List.map_append, List.nodup_append] at hfresh
  have hnew : i ∉ H.filterMap Event.released? := by
    intro hrel
    obtain ⟨o'', hmem⟩ := hi.released i hrel
    exact hfresh.2.2 i (List.mem_map_of_mem hmem) i (by simp) rfl
  rw [unreleasedShares, unreleasedShares, shares, releasedShares, filterMap_snoc, filterMap_snoc,
    hs, hr, Option.toList_none, Option.toList_some, List.append_nil, List.countP_append]
  refine congrArg _ ?_
  simp only [List.countP_singleton, decide_eq_true_eq, hnew, not_false_eq_true, and_true]

/-- Releasing a share takes it off the unreleased ones, the first time. -/
theorem unreleasedShares_release {H : History} {e : Event} {o o' : OriginId} {i : ShareId}
    (hf : FreshIds (H ++ [e])) (hmem : (i, o') ∈ shares H) (hs : e.shared? = none)
    (hr : e.released? = some i) :
    unreleasedShares (H ++ [e]) o + (decide (o' = o ∧ i ∉ releasedShares H)).toNat =
      unreleasedShares H o := by
  have hfresh := hf.shares
  rw [shares, filterMap_snoc, hs, Option.toList_none, List.append_nil] at hfresh
  have hkey := countP_ne_key hfresh hmem fun x => decide (x.2 = o ∧ x.1 ∉ releasedShares H)
  rw [unreleasedShares, unreleasedShares, shares, releasedShares, filterMap_snoc, filterMap_snoc,
    hs, hr, Option.toList_none, Option.toList_some, List.append_nil]
  refine Eq.trans (congrArg (· + _) (List.countP_congr fun x _ => ?_)) hkey
  simp only [decide_eq_true_eq, Bool.and_eq_true, List.mem_append, List.mem_singleton, not_or]
  tauto

theorem count_derivations_snoc (H : History) (e : Event) (o : OriginId) :
    (derivations (H ++ [e])).count o = (derivations H).count o + e.derived?.toList.count o := by
  rw [derivations, filterMap_snoc, List.count_append]
  rfl

/-- What a step does to the references of an origin and to its counter: it moves
both alike. -/
def MovesRefs (H : History) (s : Stores MemIndex) (e : Event) (s' : Stores MemIndex)
    (o : OriginId) : Prop :=
  ∃ up down, down ≤ originRefs H s o ∧
    originRefs (H ++ [e]) s' o + down = originRefs H s o + up ∧
    s'.index.originCounts.get o = s.index.originCounts.get o + up - down

theorem representationCount_congr {s s' : Stores MemIndex} (h : s'.registry = s.registry)
    (o : OriginId) : representationCount s' o = representationCount s o := by
  rw [representationCount, h, representationCount]

theorem unreleasedPins_congr {s s' : Stores MemIndex} (h : s'.pins = s.pins) (o : OriginId) :
    unreleasedPins s' o = unreleasedPins s o := by
  rw [unreleasedPins, h, unreleasedPins]

section Step

variable {H : History} {s s' : Stores MemIndex} {e : Event} {o o' : OriginId}

/-- A step that leaves shares and pins alone, where the counter follows the
representations and the derivations. -/
theorem MovesRefs.of_eq {m n : ℕ} (hs : e.shared? = none) (hr : e.released? = none)
    (hp : s'.pins = s.pins) (hn : n ≤ representationCount s o)
    (hrep : representationCount s' o + e.derived?.toList.count o + n =
      representationCount s o + m)
    (hc : s'.index.originCounts.get o = s.index.originCounts.get o + m - n) :
    MovesRefs H s e s' o := by
  have hsh := unreleasedShares_snoc (H := H) (o := o) hs hr
  have hder := count_derivations_snoc H e o
  have hpin := unreleasedPins_congr hp o
  refine ⟨m, n, ?_, ?_, hc⟩
  · rw [originRefs]
    omega
  · rw [originRefs, originRefs]
    omega

/-- A step that makes a share. -/
theorem MovesRefs.share {i : ShareId} (hi : RefRecords H s) (hf : FreshIds (H ++ [e]))
    (hs : e.shared? = some (i, o')) (hr : e.released? = none) (hd : e.derived? = none)
    (hreg : s'.registry = s.registry) (hp : s'.pins = s.pins)
    (hc : s'.index.originCounts = s.index.originCounts.inc o') : MovesRefs H s e s' o := by
  have hsh := unreleasedShares_share (o := o) hi hf hs hr
  have hder := count_derivations_snoc H e o
  rw [hd, Option.toList_none, List.count_nil] at hder
  refine ⟨if o = o' then 1 else 0, 0, Nat.zero_le _, ?_, ?_⟩
  · rw [originRefs, originRefs, representationCount_congr hreg, unreleasedPins_congr hp]
    simp only [eq_comm (a := o)]
    omega
  · rw [hc, Counter.get_inc]
    rfl

/-- A step that makes a pin. -/
theorem MovesRefs.pin {i : String} {p : PinRecord} (hi : RefRecords H s)
    (hf : FreshIds (H ++ [e])) (hpin : e.pinned? = some i) (hs : e.shared? = none)
    (hr : e.released? = none) (hd : e.derived? = none) (hreg : s'.registry = s.registry)
    (hp : s'.pins = s.pins.insert i p) (htarget : p.target = .origin o')
    (hstate : p.state ≠ .released) (hc : s'.index.originCounts = s.index.originCounts.inc o') :
    MovesRefs H s e s' o := by
  have hsh := unreleasedShares_snoc (H := H) (o := o) hs hr
  have hder := count_derivations_snoc H e o
  rw [hd, Option.toList_none, List.count_nil] at hder
  -- the id is fresh, so the store gains a row
  have hfree : s.pins.lookup i = none := by
    have hfresh := hf.pins
    rw [pins, filterMap_snoc, hpin, Option.toList_some, List.nodup_append] at hfresh
    rcases hl : s.pins.lookup i with _ | q
    · rfl
    · exact absurd rfl (hfresh.2.2 i (hi.pinned i q hl).1 i (List.mem_singleton_self i))
  have hsum := Table.sumBy_insert_new (f := fun _ p => (holds o p).toNat) (v := p) hfree
  have hholds : (holds o p).toNat = if o = o' then 1 else 0 := by
    by_cases ho : o = o' <;> simp [holds, htarget, hstate, ho, eq_comm (a := o')]
  refine ⟨if o = o' then 1 else 0, 0, Nat.zero_le _, ?_, ?_⟩
  · rw [originRefs, originRefs, representationCount_congr hreg, unreleasedPins, hp, hsum, hholds,
      unreleasedPins]
    omega
  · rw [hc, Counter.get_inc]
    rfl

/-- A step that releases a reference to `o'`, for the first time or again. -/
theorem released_or_again {first : Prop} [Decidable first]
    (hrefs : originRefs (H ++ [e]) s' o + (decide (o' = o ∧ first)).toNat = originRefs H s o)
    (hc : s'.index.originCounts = s.index.originCounts.dec o')
    (hagain : ReleasesAgain H s e o ↔ o' = o ∧ ¬first) :
    (¬ReleasesAgain H s e o ∧ MovesRefs H s e s' o) ∨
      (ReleasesAgain H s e o ∧ originRefs (H ++ [e]) s' o = originRefs H s o ∧
        s'.index.originCounts.get o = s.index.originCounts.get o - 1) := by
  rw [hagain, hc, Counter.get_dec]
  by_cases ho : o' = o
  · subst ho
    by_cases hfirst : first
    · refine Or.inl ⟨fun h => h.2 hfirst, 0, 1, ?_, ?_, ?_⟩
      · simp [hfirst] at hrefs
        omega
      · simpa [hfirst] using hrefs
      · rw [hc, Counter.get_dec_self, Nat.add_zero]
    · refine Or.inr ⟨⟨rfl, hfirst⟩, ?_, ?_⟩
      · simpa [hfirst] using hrefs
      · rw [if_pos rfl]
  · refine Or.inl ⟨fun h => ho h.1, 0, 0, Nat.zero_le _, ?_, ?_⟩
    · simpa [ho] using hrefs
    · rw [hc, Counter.get_dec_ne (Ne.symm ho)]
      rfl

theorem release_refs {i : ShareId} (hf : FreshIds (H ++ [e])) (hmem : (i, o') ∈ shares H)
    (hs : e.shared? = none) (hr : e.released? = some i) (hd : e.derived? = none)
    (hreg : s'.registry = s.registry) (hp : s'.pins = s.pins) :
    originRefs (H ++ [e]) s' o + (decide (o' = o ∧ i ∉ releasedShares H)).toNat =
      originRefs H s o := by
  have hsh := unreleasedShares_release (o := o) hf hmem hs hr
  have hder := count_derivations_snoc H e o
  rw [hd, Option.toList_none, List.count_nil] at hder
  rw [originRefs, originRefs, representationCount_congr hreg, unreleasedPins_congr hp]
  omega

theorem unpin_refs {i : String} {p : PinRecord} (hlook : s.pins.lookup i = some p)
    (htarget : p.target = .origin o') (hs : e.shared? = none) (hr : e.released? = none)
    (hd : e.derived? = none) (hreg : s'.registry = s.registry)
    (hp : s'.pins = s.pins.insert i { p with state := .released }) :
    originRefs (H ++ [e]) s' o + (decide (o' = o ∧ p.state ≠ .released)).toNat =
      originRefs H s o := by
  have hsh := unreleasedShares_snoc (H := H) (o := o) hs hr
  have hder := count_derivations_snoc H e o
  rw [hd, Option.toList_none, List.count_nil] at hder
  have hsum := Table.sumBy_replace (f := fun _ p => (holds o p).toNat)
    (v := { p with state := .released }) hlook
  have hnew : holds o { p with state := .released } = false := by simp [holds]
  have hold : holds o p = decide (o' = o ∧ p.state ≠ .released) := by simp [holds, htarget]
  rw [hnew, hold] at hsum
  rw [originRefs, originRefs, representationCount_congr hreg, unreleasedPins, hp, unreleasedPins]
  simp only [Bool.toNat_false] at hsum
  omega

end Step

theorem get_foldl_dec (c : Counter OriginId) (o o' : OriginId) (reps : List Representation) :
    (reps.foldl (fun c _ => c.dec o') c).get o = c.get o - if o = o' then reps.length else 0 := by
  rw [Counter.foldl_dec, Counter.get_decAll, List.count_replicate]
  simp only [beq_iff_eq, eq_comm (a := o)]

/-- **What a step does to the references and the counter of an origin**: it moves
both alike, or it releases something again, and then the counter alone goes
down. -/
theorem Happens.originRefs {H : History} {s s' : Stores MemIndex} {e : Event} (ht : Tracks H s)
    (hi : RefRecords H s) (hf : FreshIds (H ++ [e])) (h : Happens P s e s') (o : OriginId) :
    (¬ReleasesAgain H s e o ∧ MovesRefs H s e s' o) ∨
      (ReleasesAgain H s e o ∧ Sodl.originRefs (H ++ [e]) s' o = Sodl.originRefs H s o ∧
        s'.index.originCounts.get o = s.index.originCounts.get o - 1) := by
  cases h with
  | upload svc req L hL hfree =>
    refine Or.inl ⟨id, MovesRefs.of_eq (m := if o = ⟨s.uuids 0⟩ then 1 else 0) (n := 0)
      rfl rfl rfl (Nat.zero_le _) ?_ (Counter.get_inc ..)⟩
    by_cases ho : o = ⟨s.uuids 0⟩
    · subst ho
      simp [representationCount, SodlService.uploaded, uploadRecord, hfree, Event.derived?]
    · simp [representationCount, SodlService.uploaded, Table.lookup_insert_ne ho, Event.derived?,
        ho]
  | uploadStops => exact Or.inl ⟨id, .of_eq (m := 0) (n := 0) rfl rfl rfl (Nat.zero_le _) rfl rfl⟩
  | share => exact Or.inl ⟨id, .share hi hf rfl rfl rfl rfl rfl rfl⟩
  | shareStops svc fromPrincipal toPrincipal originId caps out n hout =>
    refine Or.inl ⟨id, .of_eq (m := 0) (n := 0) ?_ rfl rfl (Nat.zero_le _) rfl rfl⟩
    cases out with
    | ok r => exact absurd hout (by simp [Outcome.isOk])
    | err e => rfl
    | panic => rfl
  | derive svc originId kind mediaKind =>
    refine Or.inl ⟨id, .of_eq (m := if o = originId then 1 else 0) (n := 0) rfl rfl rfl
      (Nat.zero_le _) ?_ (Counter.get_inc ..)⟩
    rw [Event.derived?, Option.toList_some, List.count_singleton]
    simp only [beq_iff_eq, eq_comm (a := o)]
    rfl
  | pinOrigin =>
    exact Or.inl ⟨id, .pin hi hf rfl rfl rfl rfl rfl rfl rfl (by simp [SodlService.originPin]) rfl⟩
  | releaseShare svc shareId r hr =>
    refine released_or_again (release_refs hf (hi.shared _ r hr) rfl rfl rfl rfl rfl) rfl ?_
    constructor
    · rintro ⟨hrel, r', hr', ho⟩
      obtain rfl : r = r' := Option.some.inj (hr.symm.trans hr')
      exact ⟨ho, fun h => h hrel⟩
    · rintro ⟨ho, hrel⟩
      exact ⟨not_not.mp hrel, r, hr, ho⟩
  | unpin svc pinId p hp =>
    obtain ⟨o', htarget⟩ := (hi.pinned _ p hp).2
    refine released_or_again (unpin_refs hp htarget rfl rfl rfl rfl rfl) ?_ ?_
    · simp only [SodlService.unpinnedIndex, htarget]
    · constructor
      · rintro ⟨q, hq, hqt, hstate⟩
        obtain rfl : p = q := Option.some.inj (hp.symm.trans hq)
        rw [htarget] at hqt
        exact ⟨PinTarget.origin.inj hqt, fun h => h hstate⟩
      · rintro ⟨rfl, hstate⟩
        exact ⟨p, hp, htarget, not_not.mp hstate⟩
  | tombstoneOrigin svc originId reason r hr =>
    have hid : r.originId = originId := ht.keyed _ r hr
    refine Or.inl ⟨id, .of_eq (m := 0) (n := if o = originId then r.representations.length else 0)
      rfl rfl rfl ?_ ?_ (get_foldl_dec ..)⟩
    · by_cases ho : o = originId
      · subst ho
        simp [representationCount, hr]
      · simp [ho]
    · by_cases ho : o = originId
      · subst ho
        simp [representationCount, hr, hid, SodlService.tombstoneRecord, Event.derived?]
      · simp [representationCount, hid, Table.lookup_insert_ne ho, Event.derived?, ho]
  | notFound svc op hop =>
    rcases hop with ⟨i, rfl, hl⟩ | ⟨i, rfl, hl⟩ | ⟨o', r, rfl, hl⟩
    · refine Or.inl ⟨?_, .of_eq (m := 0) (n := 0) rfl rfl rfl (Nat.zero_le _) rfl rfl⟩
      rintro ⟨-, r, hr, -⟩
      rw [hl] at hr
      exact absurd hr (by simp)
    · refine Or.inl ⟨?_, .of_eq (m := 0) (n := 0) rfl rfl rfl (Nat.zero_le _) rfl rfl⟩
      rintro ⟨p, hp, -⟩
      rw [hl] at hp
      exact absurd hp (by simp)
    · exact Or.inl ⟨id, .of_eq (m := 0) (n := 0) rfl rfl rfl (Nat.zero_le _) rfl rfl⟩

/-! ### Runs of the service -/

theorem refRecords_of_run {clock : ℕ → OffsetDateTime} {uuids : ℕ → Uuid} {H : History}
    {s : Stores MemIndex} (hrun : Run (serviceStep P) (Stores.start clock uuids) H s) :
    RefRecords H s :=
  hrun.invariant (.start clock uuids) fun _ _ _ _ _ hi he => hi.step (serviceStep_happens he)

theorem serviceStep_unique (s : Stores MemIndex) (e : Event) (s' s'' : Stores MemIndex)
    (h : serviceStep P s e s') (h' : serviceStep P s e s'') : s' = s'' :=
  congrArg Prod.snd (h.symm.trans h')

theorem FreshIds.of_append {H H' : History} (h : FreshIds (H ++ H')) : FreshIds H where
  shares := by
    have hs := h.shares
    rw [Sodl.shares, List.filterMap_append, List.map_append] at hs
    exact (List.nodup_append.mp hs).1
  pins := by
    have hp := h.pins
    rw [Sodl.pins, List.filterMap_append] at hp
    exact (List.nodup_append.mp hp).1

/-- **When the accounting holds**: it holds all along a run if and only if, whenever
the run releases a share or a pin that is released already, nothing is counted for
its origin any more. -/
theorem originAccounting_iff {clock : ℕ → OffsetDateTime} {uuids : ℕ → Uuid} {K : History}
    {s : Stores MemIndex} (hrun : Run (serviceStep P) (Stores.start clock uuids) K s)
    (hfresh : FreshIds K) :
    (∀ H H' t, K = H ++ H' → Run (serviceStep P) (Stores.start clock uuids) H t →
      OriginAccounting H t) ↔
    ∀ H e H' t, K = H ++ e :: H' → Run (serviceStep P) (Stores.start clock uuids) H t →
      ∀ o, ReleasesAgain H t e o → t.index.originCounts.get o = 0 := by
  refine Run.throughout_iff (I := OriginAccounting)
    (C := fun H t e => ∀ o, ReleasesAgain H t e o → t.index.originCounts.get o = 0)
    serviceStep_unique (originAccounting_iff_refcount.mpr fun o => rfl) ?_ hrun
  intro H e H' t t' hK ht he hacc
  have hf : FreshIds (H ++ [e]) := by
    rw [hK, List.append_cons] at hfresh
    exact hfresh.of_append
  have hrefs := (serviceStep_happens he).originRefs (blobLedger_of_run ht).tracks
    (refRecords_of_run ht) hf
  constructor
  · -- a counter that goes down while the references stay was at zero
    intro hacc' o hagain
    rcases hrefs o with ⟨hnot, -⟩ | ⟨-, hsame, hcnt⟩
    · exact absurd hagain hnot
    · have h1 := hacc.refcount o
      have h2 := hacc'.refcount o
      omega
  · intro hzero
    refine originAccounting_iff_refcount.mpr fun o => ?_
    have h1 := hacc.refcount o
    rcases hrefs o with ⟨-, up, down, hle, hmove, hcnt⟩ | ⟨hagain, hsame, hcnt⟩
    · omega
    · have h2 := hzero o hagain
      omega

/-! ### A pin released twice -/

/-- Release the pin of the first origin made. -/
def firstUnpin : SodlService × ServiceOp :=
  (sampleService none, .unpin (SodlService.pinIdOf samplePlatform (sampleUuid 2)))

theorem originAccounting_iff_replay :
    let ops := [plainUpload, firstPin, firstUnpin]
    let K := (replay samplePlatform ops sampleStart).1
    (∀ H H' t, K = H ++ H' → Run (serviceStep samplePlatform) sampleStart H t →
      OriginAccounting H t) ↔
    ∀ H e H' t, K = H ++ e :: H' → Run (serviceStep samplePlatform) sampleStart H t →
      ∀ o, ReleasesAgain H t e o → t.index.originCounts.get o = 0 :=
  originAccounting_iff
    (replay_run samplePlatform [plainUpload, firstPin, firstUnpin] sampleStart)
    ⟨by decide +kernel, by decide +kernel⟩

/-- An upload, a pin, and the pin released twice: nothing is counted for an origin
that has its representation still. -/
theorem not_originAccounting :
    ¬∀ (P : Platform) (clock : ℕ → OffsetDateTime) (uuids : ℕ → Uuid) (K : History)
      (s : Stores MemIndex), Run (serviceStep P) (Stores.start clock uuids) K s →
      FreshIds K → (∀ e ∈ K, e.outcome.isOk = true) → OriginAccounting K s := by
  intro h
  have hacc := h samplePlatform _ _ _ _
    (replay_run samplePlatform [plainUpload, firstPin, firstUnpin, firstUnpin] sampleStart)
    ⟨by decide +kernel, by decide +kernel⟩ (by decide +kernel)
  have hrep := (hacc.candidate ⟨sampleUuid 0⟩ (by decide +kernel)).1
  exact absurd hrep (by decide +kernel)

end Sodl
