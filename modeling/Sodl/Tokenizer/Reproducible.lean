import Mathlib.Data.Nat.Find
import Sodl.Tokenizer.Turns

/-!
# When training can be reproduced

The order of the hash maps decides which of several best pairs is merged. Where there is only one at
the start of every turn, all runs are alike (`Sodl.Alike`): they have the same words, if in another
order, and the same vocabulary and merges. And where two pairs are best at the start of some turn,
the first time this happens there is a run that merges the one and a run that merges the other, and
what is merged at a turn stays merged. So training can be reproduced exactly if there are no ties
(`Sodl.trainBpe_reproducible_iff`), or if there is nothing to reproduce: training does not start, or
every run panics as it has no id left.
-/

namespace Sodl

variable {order order' : HashOrder} {st st' : BpeState} {count : Pair → ℕ} {best pair : Pair}
  {i n m : ℕ} {build : Build} {text : Bytes} {vocabSize special : ℕ}

/-- Two pairs occur most often, and at least twice. -/
def Tied (count : Pair → ℕ) : Prop := ∃ p q, p ≠ q ∧ IsBest count p ∧ IsBest count q

/-- At the start of no turn do two pairs occur most often. -/
def NoTies (text : Bytes) (vocabSize special : ℕ) : Prop :=
  ∀ n < turns vocabSize special, ¬ Tied (pairCount
    (HashOrder.asKept.trainLoop n 0 (HashOrder.asKept.trainStart text special)).words)

/-! ### Runs that are alike -/

/-- Two states are the same, up to the order of the words. -/
structure Alike (st st' : BpeState) : Prop where
  words : st.words.Perm st'.words
  vocab : st.vocab = st'.vocab
  merges : st.merges = st'.merges
  nextId : st.nextId = st'.nextId

theorem Alike.start (order order' : HashOrder) (text : Bytes) (special : ℕ) :
    Alike (order.trainStart text special) (order'.trainStart text special) where
  words := ((order.words_perm _).trans (order'.words_perm _).symm).map _
  vocab := rfl
  merges := rfl
  nextId := rfl

theorem Alike.merge (h : Alike st st') (pair : Pair) : Alike (st.merge pair) (st'.merge pair) where
  words := by
    rw [BpeState.merge, BpeState.merge, h.nextId]
    exact h.words.map _
  vocab := by rw [BpeState.merge, BpeState.merge, h.vocab, h.nextId]
  merges := by rw [BpeState.merge, BpeState.merge, h.merges, h.nextId]
  nextId := by rw [BpeState.merge, BpeState.merge, h.nextId]

/-- **One turn** of two runs that are alike, where there is no tie. -/
theorem Alike.step (h : Alike st st') (htied : ¬ Tied (pairCount st'.words)) (i : ℕ) :
    Alike ((order.trainStep i st).getD st) ((order'.trainStep i st').getD st') := by
  have hcount := pairCount_perm h.words
  rcases hstep : order.trainStep i st with _ | st₁
  · have hstop := HashOrder.trainStep_eq_none_iff.mp hstep
    rw [hcount] at hstop
    rw [HashOrder.trainStep_eq_none_iff.mpr hstop]
    exact h
  · obtain ⟨p, hp, rfl⟩ := HashOrder.trainStep_eq_some hstep
    rw [hcount] at hp
    rcases hstep' : order'.trainStep i st' with _ | st₁'
    · exact absurd (HashOrder.trainStep_eq_none_iff.mp hstep' p) (Nat.not_lt.mpr hp.twice)
    · obtain ⟨q, hq, rfl⟩ := HashOrder.trainStep_eq_some hstep'
      obtain rfl : p = q := by
        by_contra hne
        exact htied ⟨p, q, hne, hp, hq⟩
      exact h.merge p

/-- **Runs without ties are alike**, turn by turn. -/
theorem alike_trainLoop (order order' : HashOrder) (n : ℕ)
    (hties : ∀ m < n, ¬ Tied (pairCount
      (order'.trainLoop m 0 (order'.trainStart text special)).words)) :
    Alike (order.trainLoop n 0 (order.trainStart text special))
      (order'.trainLoop n 0 (order'.trainStart text special)) := by
  induction n with
  | zero => exact Alike.start order order' text special
  | succ n ih =>
    rw [HashOrder.trainLoop_succ, HashOrder.trainLoop_succ]
    exact (ih fun m hm => hties m (by omega)).step (hties n (by omega)) (0 + n)

/-! ### Runs that part -/

/-- What was merged stays merged. -/
theorem HashOrder.merges_initial (order : HashOrder) (st : BpeState) (h : m ≤ n) :
    (order.trainLoop m 0 st).merges <+: (order.trainLoop n 0 st).merges := by
  induction n, h using Nat.le_induction with
  | base => exact List.prefix_rfl
  | succ n _ ih =>
    rw [HashOrder.trainLoop_succ]
    rcases hstep : order.trainStep (0 + n) (order.trainLoop n 0 st) with _ | st'
    · exact ih
    · obtain ⟨best, -, rfl⟩ := HashOrder.trainStep_eq_some hstep
      exact ih.trans (List.prefix_append _ _)

/-- **At the first tie** a best pair is merged where it is favoured. -/
theorem merges_favouring (hties : ∀ m < n, ¬ Tied (pairCount
      (HashOrder.asKept.trainLoop m 0 (HashOrder.asKept.trainStart text special)).words))
    (hbest : IsBest (pairCount
      (HashOrder.asKept.trainLoop n 0 (HashOrder.asKept.trainStart text special)).words) best)
    (hn : n < turns vocabSize special) {r : BpeTrainResult}
    (hr : (HashOrder.asKept.favouring fun _ _ => best).trainBpe build text vocabSize special =
      some r) :
    (HashOrder.asKept.trainLoop n 0 (HashOrder.asKept.trainStart text special)).merges ++
        [(best.1, best.2, (HashOrder.asKept.trainLoop n 0
          (HashOrder.asKept.trainStart text special)).nextId)] <+: r.merges := by
  obtain ⟨-, -, rfl⟩ := HashOrder.trainBpe_eq_some_iff.mp hr
  have halike := alike_trainLoop (HashOrder.asKept.favouring fun _ _ => best) HashOrder.asKept n
    hties
  have hstep : (HashOrder.asKept.favouring fun _ _ => best).trainStep (0 + n)
      ((HashOrder.asKept.favouring fun _ _ => best).trainLoop n 0
        ((HashOrder.asKept.favouring fun _ _ => best).trainStart text special)) =
      some (((HashOrder.asKept.favouring fun _ _ => best).trainLoop n 0
        ((HashOrder.asKept.favouring fun _ _ => best).trainStart text special)).merge best) :=
    HashOrder.trainStep_favouring (pairCount_perm halike.words ▸ hbest) rfl
  have hnext := HashOrder.trainLoop_succ (HashOrder.asKept.favouring fun _ _ => best) n 0
    ((HashOrder.asKept.favouring fun _ _ => best).trainStart text special)
  rw [hstep, Option.getD_some] at hnext
  have hprefix := (HashOrder.asKept.favouring fun _ _ => best).merges_initial
    ((HashOrder.asKept.favouring fun _ _ => best).trainStart text special) (Nat.succ_le_of_lt hn)
  rw [hnext, BpeState.merge, halike.merges, halike.nextId] at hprefix
  exact hprefix

/-- Runs that are alike run out of ids alike. -/
theorem runsOut_iff_of_noTies (hties : NoTies text vocabSize special) (order : HashOrder) :
    order.RunsOut build (turns vocabSize special) 0 (order.trainStart text special) ↔
      HashOrder.asKept.RunsOut build (turns vocabSize special) 0
        (HashOrder.asKept.trainStart text special) := by
  refine exists_congr fun m => and_congr_right fun hm => ?_
  have halike := alike_trainLoop order HashOrder.asKept m fun k hk => hties k (hk.trans hm)
  rw [halike.nextId, pairCount_perm halike.words]

/-- **Training can be reproduced exactly if there are no ties.** For every build, text and size, all
orders of the hash maps make for the same result, if at the start of no turn two pairs occur most
often, and only then – unless no run returns: training does not start with such sizes, or every run
gets to a turn that is to merge when no id is left. -/
theorem trainBpe_reproducible_iff (build : Build) (text : Bytes) (vocabSize special : ℕ) :
    (∀ order order' : HashOrder, order.trainBpe build text vocabSize special =
      order'.trainBpe build text vocabSize special) ↔
      NoTies text vocabSize special ∨ ¬ build.Starts vocabSize special ∨
        ∀ order : HashOrder, order.RunsOut build (turns vocabSize special) 0
          (order.trainStart text special) := by
  classical
  constructor
  · intro hsame
    by_contra hno
    obtain ⟨hno, hreturns⟩ := not_or.mp hno
    obtain ⟨hstarts, hruns⟩ := not_or.mp hreturns
    obtain ⟨order, hruns⟩ := not_forall.mp hruns
    -- a run that returns, so that all do
    have hr : ∀ order' : HashOrder, order'.trainBpe build text vocabSize special =
        some (order.trainLoop (turns vocabSize special) 0 (order.trainStart text special)).result :=
      fun order' => (hsame order' order).trans
        (HashOrder.trainBpe_eq_some_iff.mpr ⟨not_not.mp hstarts, hruns, rfl⟩)
    have hties : ∃ n, n < turns vocabSize special ∧ Tied (pairCount
        (HashOrder.asKept.trainLoop n 0 (HashOrder.asKept.trainStart text special)).words) := by
      by_contra hnone
      exact hno fun n hn htied => hnone ⟨n, hn, htied⟩
    -- the first tie
    obtain ⟨hlt, p, q, hne, hp, hq⟩ := Nat.find_spec hties
    have hbefore : ∀ m < Nat.find hties, ¬ Tied (pairCount
        (HashOrder.asKept.trainLoop m 0 (HashOrder.asKept.trainStart text special)).words) :=
      fun m hm htied => Nat.find_min hties hm ⟨hm.trans hlt, htied⟩
    have hmergesP := merges_favouring hbefore hp hlt (hr _)
    have hmergesQ := merges_favouring hbefore hq hlt (hr _)
    have heq := (List.prefix_of_prefix_length_le hmergesP hmergesQ (by simp)).eq_of_length (by simp)
    obtain ⟨hfst, hrest⟩ := Prod.mk.inj (List.cons.inj (List.append_cancel_left heq)).1
    exact hne (Prod.ext hfst (Prod.mk.inj hrest).1)
  · intro h order order'
    refine Option.ext fun r => ?_
    rw [HashOrder.trainBpe_eq_some_iff, HashOrder.trainBpe_eq_some_iff]
    rcases h with hties | hstarts | hruns
    · have halike := alike_trainLoop order HashOrder.asKept (turns vocabSize special) hties
      have halike' := alike_trainLoop order' HashOrder.asKept (turns vocabSize special) hties
      rw [runsOut_iff_of_noTies hties order, runsOut_iff_of_noTies hties order', BpeState.result,
        BpeState.result, halike.merges, halike.vocab, halike'.merges, halike'.vocab]
    · exact ⟨fun hr => absurd hr.1 hstarts, fun hr => absurd hr.1 hstarts⟩
    · exact ⟨fun hr => absurd (hruns order) hr.2.1, fun hr => absurd (hruns order') hr.2.1⟩

/-- Two words, twice each. -/
def tiedText : Bytes := [0x61, 0x62, 0x20, 0x61, 0x62, 0x20, 0x63, 0x64, 0x20, 0x63, 0x64]

/-- One run merges the pair of the one word, another that of the other. -/
theorem trainBpe_irreproducible :
    (HashOrder.asKept.favouring fun _ _ => (0x61, 0x62)).trainBpe .wrapping tiedText 257 0 ≠
      (HashOrder.asKept.favouring fun _ _ => (0x63, 0x64)).trainBpe .wrapping tiedText 257 0 := by
  have hmerges : ((HashOrder.asKept.favouring fun _ _ => (0x61, 0x62)).trainBpe .wrapping
        tiedText 257 0).map BpeTrainResult.merges ≠
      ((HashOrder.asKept.favouring fun _ _ => (0x63, 0x64)).trainBpe .wrapping
        tiedText 257 0).map BpeTrainResult.merges := by
    decide +kernel
  exact fun h => hmerges (congrArg (Option.map BpeTrainResult.merges) h)

end Sodl
