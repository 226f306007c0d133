import Sodl.Weights.Transparent
import Sodl.Weights.Watched

/-!
# Pins and evictions at once

Any number of calls to the weight store service over one registry, interleaved lock by lock. What
is at stake is `Sodl.PinKept`: once a pin for identity or logic has returned, its entry stays as it
is pinned, and no call that starts later gives it up or deletes its blob.

The interleavings of the source do not keep it: an eviction looks at an entry under one lock and
removes it under another, whatever it has become (`Sodl.not_pinKept`). They keep it where every
step is `Sodl.WeightPool.UpToDate`: what a call gives up or replaces is not pinned for good since
the call looked (`Sodl.pinKept_of_upToDate`).
-/

namespace Sodl

open Effect

/-! ### Pools of calls -/

/-- A call on its way. -/
abbrev WeightThread : Type := Thread weightSig SodlError Unit WeightTask WeightTrail

/-- Calls over one registry. -/
abbrev WeightPool : Type := Pool weightSig SodlError Unit WeightTask WeightTrail WeightState

/-- The pool before anything has happened. -/
def WeightPool.start (P : Platform) (svc : WeightStoreService) (ts : List WeightTask)
    (s : WeightState) : WeightPool :=
  ⟨s, ts.map fun t => ⟨t, WeightTrail.start, t.prog P svc⟩⟩

/-- One locked section, or one call to the blob store, of one thread. -/
abbrev WeightPoolStep (W : WeightWorld) : WeightPool → Move weightSig → WeightPool → Prop :=
  Pool.Step (weightHandler W) WeightTrail.note

/-- An id is cached and pinned for identity or logic. -/
def WeightState.Holds (s : WeightState) (k : String) : Prop :=
  ∃ e, s.entries.lookup k = some e ∧ e.Protected

instance WeightState.decidableHolds (s : WeightState) (k : String) : Decidable (s.Holds k) :=
  decidable_of_iff (∃ e ∈ s.entries.lookup k, e.Protected) <| by
    simp only [Option.mem_def, WeightState.Holds]

/-- The thread at a position has made no call. -/
def WeightPool.NotBegun (p : WeightPool) (i : ℕ) : Prop :=
  ∀ t, p.threads[i]? = some t → t.trail.began = false

/-- **What is pinned for good stays**, from a pool in which its pin has returned, through some
moves, to another: it is cached as it is pinned, and no call that begins on the way takes it out of
the registry, replaces it or deletes its blob. -/
def PinKept (p : WeightPool) (L : List (Move weightSig)) (q : WeightPool) : Prop :=
  ∀ t ∈ p.threads, t.result? = some (.ok ()) → ∀ b, t.task.pins? = some b →
    q.state.Holds b.val ∧
      ∀ m ∈ L, p.NotBegun m.1 → b.val ∉ m.2.overwrites ∧ m.2 ≠ .blobDelete b

/-- **What a call gives up or replaces is as free as the thread saw it**: it is not pinned for good
since. -/
def WeightPool.UpToDate (p : WeightPool) (m : Move weightSig) : Prop :=
  ∀ k ∈ m.2.overwrites, ∀ t ∈ p.threads[m.1]?, t.trail.saw k = true → ¬p.state.Holds k

instance WeightPool.decidableUpToDate (p : WeightPool) (m : Move weightSig) :
    Decidable (p.UpToDate m) :=
  inferInstanceAs (Decidable (∀ k ∈ m.2.overwrites, ∀ t ∈ p.threads[m.1]?,
    t.trail.saw k = true → ¬p.state.Holds k))

/-! ### One call -/

section Calls

variable {W : WeightWorld} {s : WeightState} {c : WeightCall} {k : String}

/-- What a call does to the registry. -/
theorem entries_handler (W : WeightWorld) (s : WeightState) (c : WeightCall) :
    ((weightHandler W c s).2.entries = s.entries ∧ c.secures = []) ∨
      (∃ key, c = .entriesTouch key) ∨ (∃ key entry, c = .entriesInsert key entry) ∨
      (∃ key, c = .entriesRemove key) ∨ ∃ keys, c = .entriesEvict keys := by
  cases c with
  | entriesTouch key => exact Or.inr (Or.inl ⟨key, rfl⟩)
  | entriesInsert key entry => exact Or.inr (Or.inr (Or.inl ⟨key, entry, rfl⟩))
  | entriesRemove key => exact Or.inr (Or.inr (Or.inr (Or.inl ⟨key, rfl⟩)))
  | entriesEvict keys => exact Or.inr (Or.inr (Or.inr (Or.inr ⟨keys, rfl⟩)))
  | now | entriesRead | entriesIter | countsRead | countsBump => exact Or.inl ⟨rfl, rfl⟩
  | blobHas id =>
    refine Or.inl ⟨?_, rfl⟩
    rw [weightHandler]
    split <;> rfl
  | blobGet id =>
    refine Or.inl ⟨?_, rfl⟩
    rw [weightHandler]
    split <;> rfl
  | blobPut id data =>
    refine Or.inl ⟨?_, rfl⟩
    rw [weightHandler]
    split <;> rfl
  | blobDelete id =>
    refine Or.inl ⟨?_, rfl⟩
    rw [weightHandler]
    split <;> rfl

/-- **What a call does not overwrite stays pinned.** -/
theorem WeightState.Holds.handler (h : s.Holds k) (hk : k ∉ c.overwrites) :
    (weightHandler W c s).2.Holds k := by
  obtain ⟨e, he, hp⟩ := h
  rcases entries_handler W s c with ⟨hsame, -⟩ | ⟨key, rfl⟩ | ⟨key, entry, rfl⟩ | ⟨key, rfl⟩ |
    ⟨keys, rfl⟩
  · exact ⟨e, by rw [hsame, he], hp⟩
  · -- a touch keeps the reason
    have hentries : (weightHandler W (.entriesTouch key) s).2.entries =
        (s.touch key (W.clock s.calls)).entries := rfl
    rw [WeightState.Holds, hentries, WeightPinRegistry.entries_touch]
    by_cases hkey : k = key
    · subst hkey
      rw [he]
      exact ⟨{ e with lastAccessed := W.clock s.calls }, Table.lookup_insert_self _ _ _, hp⟩
    · rcases s.entries.lookup key with _ | e'
      · exact ⟨e, he, hp⟩
      · exact ⟨e, (Table.lookup_insert_ne hkey).trans he, hp⟩
  · by_cases hkey : k = key
    · subst hkey
      refine ⟨entry, Table.lookup_insert_self _ _ _, ?_⟩
      by_contra hno
      have hno : ¬entry.reason.isProtected = true := hno
      exact hk (by simp [WeightCall.overwrites, hno])
    · exact ⟨e, (Table.lookup_insert_ne hkey).trans he, hp⟩
  · have hkey : k ≠ key := fun heq => hk (List.mem_singleton.mpr heq)
    exact ⟨e, (Table.lookup_erase_ne hkey).trans he, hp⟩
  · have hkeys : k ∉ keys := hk
    refine ⟨e, ?_, hp⟩
    show (s.entries.eraseAll keys).lookup k = some e
    rw [Table.lookup_eraseAll, if_neg hkeys, he]

/-- What a call pins for good is pinned afterwards. -/
theorem holds_of_mem_secures (hk : k ∈ c.secures) : (weightHandler W c s).2.Holds k := by
  rcases entries_handler W s c with ⟨-, hnone⟩ | ⟨key, rfl⟩ | ⟨key, entry, rfl⟩ | ⟨key, rfl⟩ |
    ⟨keys, rfl⟩
  · rw [hnone] at hk
    exact absurd hk List.not_mem_nil
  · exact absurd hk List.not_mem_nil
  · by_cases hp : entry.reason.isProtected = true
    · obtain rfl : k = key := by simpa [WeightCall.secures, hp] using hk
      exact ⟨entry, Table.lookup_insert_self _ _ _, hp⟩
    · simp [WeightCall.secures, hp] at hk
  · exact absurd hk List.not_mem_nil
  · exact absurd hk List.not_mem_nil

/-- **A look at what is pinned for good shows it so.** -/
theorem not_shows_of_holds (h : s.Holds k) : c.shows (weightHandler W c s).1 k = false := by
  obtain ⟨e, he, hp⟩ := h
  have hp : e.reason.isProtected = true := hp
  cases c with
  | entriesRead => simp [weightHandler, WeightCall.shows, he, hp]
  | entriesIter =>
    refine Bool.eq_false_iff.mpr fun hany => ?_
    obtain ⟨r, hr, hfree⟩ := List.any_eq_true.mp hany
    obtain ⟨hkey, hfree⟩ := Bool.and_eq_true_iff.mp hfree
    -- a key stands in one row only
    have hrow := (W.iter_perm s.calls s.entries.rows).mem_iff.mp hr
    have hlookup : s.entries.lookup r.1 = some r.2 := Table.mem_rows.mp hrow
    rw [beq_iff_eq.mp hkey, he] at hlookup
    rw [← Option.some.inj hlookup, hp] at hfree
    exact absurd hfree (by simp)
  | entriesTouch key =>
    by_cases hkey : key = k
    · subst hkey
      simp [weightHandler, WeightCall.shows, he]
    · rcases hl : s.entries.lookup key with _ | e'
      · simp [weightHandler, WeightCall.shows, hl, hkey]
      · simp [weightHandler, WeightCall.shows, hl]
  | now | entriesInsert | entriesRemove | entriesEvict | countsRead | countsBump | blobHas |
    blobGet | blobPut | blobDelete => rfl

end Calls

/-! ### Runs of steps that are up to date -/

section Runs

variable {P : Platform} {W : WeightWorld} {svc : WeightStoreService}

/-- The steps of a pool that are up to date. -/
def WeightPool.UpToDateStep (W : WeightWorld) (p : WeightPool) (m : Move weightSig)
    (p' : WeightPool) : Prop :=
  WeightPoolStep W p m p' ∧ p.UpToDate m

open WeightPool (UpToDateStep)

/-- A turn of a pool. -/
abbrev WeightTurn (W : WeightWorld) (p p' : WeightPool) (c : WeightCall)
    (pre post : List WeightThread) (t t' : WeightThread) : Prop :=
  Pool.Turn (weightHandler W) (fun _ => weightWatch) p p' c pre post t t'

/-- **The invariant of a pool**: every thread keeps to its watch, has seen nothing before it began,
and what a thread has pinned for good is. -/
structure PinsHold (p : WeightPool) : Prop where
  guided : p.Guided (fun _ => weightWatch) WeightTask.Done
  unseen : ∀ t ∈ p.threads, t.trail.began = false → ∀ k, t.trail.saw k = false
  held : ∀ t ∈ p.threads, ∀ k ∈ t.trail.secured, p.state.Holds k

theorem PinsHold.start (ts : List WeightTask) (s : WeightState) :
    PinsHold (WeightPool.start P svc ts s) := by
  refine ⟨fun t ht => ?_, fun t ht _ k => ?_, fun t ht k hk => ?_⟩
  · obtain ⟨task, -, rfl⟩ := List.mem_map.mp ht
    exact task.guided P svc
  · obtain ⟨task, -, rfl⟩ := List.mem_map.mp ht
    rfl
  · obtain ⟨task, -, rfl⟩ := List.mem_map.mp ht
    exact absurd hk List.not_mem_nil

section Turn

variable {p p' : WeightPool} {c : WeightCall} {pre post : List WeightThread} {t t' : WeightThread}

/-- The thread whose turn it is, at its position. -/
theorem getElem?_turn (ht : WeightTurn W p p' c pre post t t') :
    p.threads[pre.length]? = some t := by
  rw [ht.before, List.getElem?_append_right (Nat.le_refl _), Nat.sub_self]
  rfl

/-- A turn that is up to date overwrites nothing that is pinned for good. -/
theorem not_mem_overwrites (ht : WeightTurn W p p' c pre post t t')
    (hfresh : p.UpToDate (pre.length, c)) {k : String} (hk : p.state.Holds k) :
    k ∉ c.overwrites := fun hmem =>
  hfresh k hmem t (getElem?_turn ht) (ht.may k (List.mem_append_left _ hmem)) hk

theorem holds_turn (ht : WeightTurn W p p' c pre post t t') (hfresh : p.UpToDate (pre.length, c))
    {k : String} (hk : p.state.Holds k) : p'.state.Holds k := by
  rw [ht.state]
  exact hk.handler (not_mem_overwrites ht hfresh hk)

end Turn

/-- **A step that is up to date keeps the invariant.** -/
theorem PinsHold.step {p p' : WeightPool} {m : Move weightSig} (hp : PinsHold p)
    (hs : UpToDateStep W p m p') : PinsHold p' := by
  obtain ⟨i, c⟩ := m
  obtain ⟨hs, hfresh⟩ := hs
  obtain ⟨pre, post, t, t', ht, rfl⟩ := hp.guided.turn (fun _ => rfl) hs
  have htrail : t'.trail = WeightTrail.note t.trail c (weightHandler W c p.state).1 := ht.trail
  refine ⟨hp.guided.after (fun _ => rfl) (fun _ => trivial) hs, fun u hu hnot => ?_,
    fun u hu k hk => ?_⟩
  · rcases ht.cases hu with rfl | ⟨-, hu⟩
    · rw [htrail] at hnot
      exact absurd hnot (by simp [WeightTrail.note])
    · exact hp.unseen u hu hnot
  · rcases ht.cases hu with rfl | ⟨-, hu⟩
    · rw [htrail] at hk
      rcases List.mem_append.mp hk with hk | hk
      · rw [ht.state]
        exact holds_of_mem_secures hk
      · exact holds_turn ht hfresh (hp.held t ht.mem k hk)
    · exact holds_turn ht hfresh (hp.held u hu k hk)

/-- What holds on the way from a pool in which an id is pinned for good: it is, and the threads
that had not begun have not seen it free, and have taken nothing away from it. -/
structure KeptSince (p : WeightPool) (k : String) (L : List (Move weightSig)) (q : WeightPool) :
    Prop where
  invariant : PinsHold q
  held : q.state.Holds k
  unseen : ∀ i, p.NotBegun i → ∀ t ∈ q.threads[i]?, t.trail.saw k = false
  untouched : ∀ m ∈ L, p.NotBegun m.1 → k ∉ m.2.discards

theorem KeptSince.start {p : WeightPool} {k : String} (hp : PinsHold p) (hk : p.state.Holds k) :
    KeptSince p k [] p where
  invariant := hp
  held := hk
  unseen _ hi t ht := hp.unseen t (List.mem_of_getElem? ht) (hi t ht) k
  untouched _ hm := absurd hm List.not_mem_nil

theorem KeptSince.step {p q q' : WeightPool} {k : String} {L : List (Move weightSig)}
    {m : Move weightSig} (h : KeptSince p k L q) (hs : UpToDateStep W q m q') :
    KeptSince p k (L ++ [m]) q' := by
  have hinv := h.invariant.step hs
  obtain ⟨i, c⟩ := m
  obtain ⟨hs, hfresh⟩ := hs
  obtain ⟨pre, post, t, t', ht, rfl⟩ := h.invariant.guided.turn (fun _ => rfl) hs
  have htrail : t'.trail = WeightTrail.note t.trail c (weightHandler W c q.state).1 := ht.trail
  refine ⟨hinv, holds_turn ht hfresh h.held, fun j hj u hu => ?_, fun m hm hnot => ?_⟩
  · rcases Nat.lt_trichotomy j pre.length with hlt | rfl | hgt
    · refine h.unseen j hj u ?_
      rw [ht.after, List.getElem?_append_left hlt] at hu
      rwa [ht.before, List.getElem?_append_left hlt]
    · -- the thread looks at an id that is pinned for good
      obtain rfl : t' = u := by
        rw [ht.after, List.getElem?_append_right (Nat.le_refl _), Nat.sub_self] at hu
        exact Option.some.inj hu
      rw [htrail]
      show (t.trail.saw k || c.shows (weightHandler W c q.state).1 k) = false
      rw [h.unseen _ hj t (getElem?_turn ht), not_shows_of_holds h.held, Bool.or_false]
    · refine h.unseen j hj u ?_
      obtain ⟨n, hn⟩ : ∃ n, j - pre.length = n + 1 := ⟨j - pre.length - 1, by omega⟩
      rw [ht.after, List.getElem?_append_right (by omega), hn, List.getElem?_cons_succ] at hu
      rwa [ht.before, List.getElem?_append_right (by omega), hn, List.getElem?_cons_succ]
  · rcases List.mem_append.mp hm with hm | hm
    · exact h.untouched m hm hnot
    · obtain rfl := List.mem_singleton.mp hm
      intro hmem
      have hsaw := ht.may k hmem
      rw [h.unseen _ hnot t (getElem?_turn ht)] at hsaw
      exact absurd hsaw (by simp)

/-- **Pins that are kept**: in every run whose steps are up to date, from any state, with any calls
at once. -/
theorem pinKept_of_upToDate (P : Platform) (W : WeightWorld) (svc : WeightStoreService)
    (ts : List WeightTask) (s : WeightState) {K L : List (Move weightSig)} {p q : WeightPool}
    (hp : Run (UpToDateStep W) (WeightPool.start P svc ts s) K p)
    (hq : Run (UpToDateStep W) p L q) : PinKept p L q := by
  intro t ht hret b hb
  have hinv : PinsHold p := hp.invariant (I := fun _ p => PinsHold p) (PinsHold.start ts s)
    fun _ _ _ _ _ hp hs => hp.step hs
  have hheld := hinv.held t ht b.val (hinv.guided.of_result ht hret b hb rfl)
  have hkept : KeptSince p b.val L q := hq.invariant (I := KeptSince p b.val)
    (KeptSince.start hinv hheld) fun _ _ _ _ _ h hs => h.step hs
  refine ⟨hkept.held, fun m hm hnot => ⟨fun hmem => ?_, fun hdel => ?_⟩⟩
  · exact hkept.untouched m hm hnot (List.mem_append_left _ hmem)
  · refine hkept.untouched m hm hnot ?_
    rw [hdel]
    exact List.mem_singleton_self _

end Runs

/-! ### An eviction that looked before the pin -/

open WeightPool (UpToDateStep)

/-- Some calls about to begin, over an empty registry and one blob. -/
def sampleWeightPool (ts : List WeightTask) : WeightPool :=
  WeightPool.start samplePlatform Sample.weightService ts
    (WeightState.fresh ((∅ : Table BlobId Bytes).insert Sample.weightBlobId Sample.weightBlob))

/-- A pin for identity of the blob. -/
def samplePin : WeightTask := .pinIdentity Sample.originOne Sample.weightBlobId

/-- An eviction of the blob. -/
def sampleEviction : WeightTask := .evict Sample.weightBlobId

/-- The pin has returned. -/
def pinReturned (p : WeightPool) : Bool :=
  p.threads.any fun t => decide (t.task = samplePin ∧ t.result? = some (.ok ()))

/-- Some turns on from a pool. -/
def playOn (test : WeightPool → Move weightSig → Bool) (is : List ℕ)
    (f : WeightPool → Bool) (p : WeightPool) : Bool :=
  (Pool.play (weightHandler sampleWorld) WeightTrail.note test is p).any f

theorem pinKept_of_upToDate_sample :
    ∃ K p L q, Run (UpToDateStep sampleWorld) (sampleWeightPool [samplePin, sampleEviction]) K p ∧
      Run (UpToDateStep sampleWorld) p L q ∧ pinReturned p = true ∧
      (∀ t ∈ q.threads, ¬t.Running) ∧ PinKept p L q := by
  have hplay : playOn (fun p m => decide (p.UpToDate m)) (List.replicate 7 0)
      (fun p => pinReturned p && playOn (fun p m => decide (p.UpToDate m)) [1]
        (fun q => decide (∀ t ∈ q.threads, ¬t.Running)) p)
      (sampleWeightPool [samplePin, sampleEviction]) = true := by
    decide +kernel
  obtain ⟨K, p, hK, hp⟩ := Pool.exists_run_of_play_any hplay
  obtain ⟨hret, hp⟩ := Bool.and_eq_true_iff.mp hp
  obtain ⟨L, q, hL, hq⟩ := Pool.exists_run_of_play_any hp
  have hK : Run (UpToDateStep sampleWorld) (sampleWeightPool [samplePin, sampleEviction]) K p :=
    hK.mono fun _ _ _ h => ⟨h.1, of_decide_eq_true h.2⟩
  have hL : Run (UpToDateStep sampleWorld) p L q :=
    hL.mono fun _ _ _ h => ⟨h.1, of_decide_eq_true h.2⟩
  exact ⟨K, p, L, q, hK, hL, hret, of_decide_eq_true hq,
    pinKept_of_upToDate samplePlatform sampleWorld Sample.weightService _ _ hK hL⟩

/-- **A pin between the two locks of an eviction**: the eviction finds no entry, the pin goes
through, and the eviction removes what it pinned. -/
theorem not_pinKept :
    ¬∀ (P : Platform) (W : WeightWorld) (svc : WeightStoreService) (ts : List WeightTask)
      (s : WeightState) (K L : List (Move weightSig)) (p q : WeightPool),
      Run (WeightPoolStep W) (WeightPool.start P svc ts s) K p → Run (WeightPoolStep W) p L q →
      PinKept p L q := by
  intro h
  have hplay : playOn (fun _ _ => true) (0 :: List.replicate 7 1)
      (fun p => pinReturned p && playOn (fun _ _ => true) [0]
        (fun q => decide (¬q.state.Holds Sample.weightBlobId.val)) p)
      (sampleWeightPool [sampleEviction, samplePin]) = true := by
    decide +kernel
  obtain ⟨K, p, hK, hp⟩ := Pool.exists_run_of_play_any hplay
  obtain ⟨hret, hp⟩ := Bool.and_eq_true_iff.mp hp
  obtain ⟨L, q, hL, hq⟩ := Pool.exists_run_of_play_any hp
  obtain ⟨t, ht, hret⟩ := List.any_eq_true.mp hret
  obtain ⟨htask, hret⟩ := of_decide_eq_true hret
  have hpins : t.task.pins? = some Sample.weightBlobId := by
    rw [htask]
    rfl
  exact of_decide_eq_true hq (h samplePlatform sampleWorld Sample.weightService _ _ K L p q
    (hK.mono fun _ _ _ h => h.1) (hL.mono fun _ _ _ h => h.1) t ht hret _ hpins).1

end Sodl
