import Mathlib.Data.List.Flatten
import Mathlib.Data.List.Sort

/-!
# Positions in a concatenation

The pieces of a concatenation are found by their running totals: the entry at a position lies in
the piece whose number a binary search for the position returns, `Bisect.bisectRight`, and its
place there is what is left of the position after the pieces before (`Bisect.locate`). Empty
pieces need no care, since the search goes to the right of all totals that are reached.
-/

namespace Bisect

variable {α : Type}

/-! ### Binary search -/

section

variable [LinearOrder α]

/-- The search between `lo` and `hi`, halving what is between them. -/
def bisectFrom (a : List α) (x : α) : ℕ → ℕ → ℕ → ℕ
  | 0, lo, _ => lo
  | fuel + 1, lo, hi =>
    if lo < hi then
      match a[(lo + hi) / 2]? with
      | none => lo
      | some y =>
        if x < y then bisectFrom a x fuel lo ((lo + hi) / 2)
        else bisectFrom a x fuel ((lo + hi) / 2 + 1) hi
    else lo

/-- Where `x` goes into a sorted list, after all entries that equal it. -/
def bisectRight (a : List α) (x : α) : ℕ := bisectFrom a x a.length 0 a.length

/-- A position that has before it the entries up to `x`, and behind it the greater ones. -/
def Splits (a : List α) (x : α) (r : ℕ) : Prop := ∀ j y, a[j]? = some y → (j < r ↔ y ≤ x)

variable {a : List α} {x : α}

/-- The entries of a sorted list are in the order of their positions. -/
theorem le_of_sorted (hsorted : a.Pairwise (· ≤ ·)) {i j : ℕ} (hij : i ≤ j) {y z : α}
    (hy : a[i]? = some y) (hz : a[j]? = some z) : y ≤ z := by
  obtain ⟨hi, rfl⟩ := List.getElem?_eq_some_iff.mp hy
  obtain ⟨hj, rfl⟩ := List.getElem?_eq_some_iff.mp hz
  rcases Nat.eq_or_lt_of_le hij with rfl | hlt
  · exact le_refl _
  · exact List.pairwise_iff_getElem.mp hsorted i j hi hj hlt

theorem splits_of_left_right {lo : ℕ} (hleft : ∀ j y, a[j]? = some y → j < lo → y ≤ x)
    (hright : ∀ j y, a[j]? = some y → lo ≤ j → x < y) : Splits a x lo := by
  intro j y hy
  refine ⟨hleft j y hy, fun hle => ?_⟩
  by_contra hj
  exact absurd hle (not_le.mpr (hright j y hy (not_lt.mp hj)))

/-- What the search keeps: everything before `lo` was passed, everything from `hi` on excluded. -/
theorem bisectFrom_splits (hsorted : a.Pairwise (· ≤ ·)) (fuel lo hi : ℕ) (hlo : lo ≤ hi)
    (hhi : hi ≤ a.length) (hfuel : hi - lo ≤ fuel)
    (hleft : ∀ j y, a[j]? = some y → j < lo → y ≤ x)
    (hright : ∀ j y, a[j]? = some y → hi ≤ j → x < y) :
    Splits a x (bisectFrom a x fuel lo hi) := by
  induction fuel generalizing lo hi with
  | zero =>
    obtain rfl : lo = hi := by omega
    exact splits_of_left_right hleft hright
  | succ fuel ih =>
    rw [bisectFrom]
    by_cases hlt : lo < hi
    · have hmid : (lo + hi) / 2 < a.length := by omega
      have hy := List.getElem?_eq_getElem hmid
      rw [if_pos hlt, hy]
      dsimp only
      by_cases hx : x < a[(lo + hi) / 2]
      · rw [if_pos hx]
        refine ih lo ((lo + hi) / 2) (by omega) (by omega) (by omega) hleft ?_
        exact fun j z hz hj => lt_of_lt_of_le hx (le_of_sorted hsorted hj hy hz)
      · rw [if_neg hx]
        refine ih ((lo + hi) / 2 + 1) hi (by omega) hhi (by omega) ?_ hright
        exact fun j z hz hj => le_trans (le_of_sorted hsorted (by omega) hz hy) (not_lt.mp hx)
    · obtain rfl : lo = hi := by omega
      rw [if_neg hlt]
      exact splits_of_left_right hleft hright

/-- **The search splits a sorted list.** -/
theorem bisectRight_splits (hsorted : a.Pairwise (· ≤ ·)) (x : α) :
    Splits a x (bisectRight a x) := by
  refine bisectFrom_splits hsorted a.length 0 a.length (Nat.zero_le _) le_rfl (by omega) ?_ ?_
  · exact fun j y _ hj => absurd hj (Nat.not_lt_zero j)
  · intro j y hy hj
    obtain ⟨hlt, -⟩ := List.getElem?_eq_some_iff.mp hy
    omega

end

/-! ### Running totals -/

/-- The totals of a list of numbers, beginning with what came before it. -/
def totals : ℕ → List ℕ → List ℕ
  | _, [] => []
  | t, n :: ns => (t + n) :: totals (t + n) ns

@[simp] theorem length_totals (t : ℕ) (ns : List ℕ) : (totals t ns).length = ns.length := by
  induction ns generalizing t with
  | nil => rfl
  | cons n ns ih => rw [totals, List.length_cons, ih, List.length_cons]

theorem le_of_mem_totals {t x : ℕ} {ns : List ℕ} (h : x ∈ totals t ns) : t ≤ x := by
  induction ns generalizing t with
  | nil => exact absurd h List.not_mem_nil
  | cons n ns ih =>
    rcases List.mem_cons.mp h with rfl | h
    · omega
    · have := ih h
      omega

theorem pairwise_totals (t : ℕ) (ns : List ℕ) : (totals t ns).Pairwise (· ≤ ·) := by
  induction ns generalizing t with
  | nil => exact List.Pairwise.nil
  | cons n ns ih => exact List.pairwise_cons.mpr ⟨fun _ hx => le_of_mem_totals hx, ih _⟩

/-- The total before a piece. -/
def before (t : ℕ) (ns : List ℕ) : ℕ → ℕ
  | 0 => t
  | r + 1 => (totals t ns)[r]?.getD t

/-- **Running totals find the piece of a position**, and its place in the piece. -/
theorem locate (pieces : List (List α)) (t i : ℕ) (hi : t ≤ i)
    (hlt : i < t + pieces.flatten.length) {r : ℕ}
    (hr : Splits (totals t (pieces.map List.length)) i r) :
    ∃ piece, pieces[r]? = some piece ∧ before t (pieces.map List.length) r ≤ i ∧
      piece[i - before t (pieces.map List.length) r]? = pieces.flatten[i - t]? := by
  induction pieces generalizing t r with
  | nil => simp only [List.flatten_nil, List.length_nil] at hlt; omega
  | cons piece pieces ih =>
    rw [List.map_cons, totals] at hr
    rw [List.flatten_cons, List.length_append] at hlt
    have hfirst := hr 0 _ rfl
    by_cases hpast : t + piece.length ≤ i
    · -- the position is behind the first piece
      obtain ⟨r, rfl⟩ : ∃ k, r = k + 1 := ⟨r - 1, by have := hfirst.mpr hpast; omega⟩
      obtain ⟨found, hfound, hle, hget⟩ := ih (t + piece.length) hpast (by omega)
        fun j y hy => Nat.succ_lt_succ_iff.symm.trans (hr (j + 1) y hy)
      have hbefore : before t ((piece :: pieces).map List.length) (r + 1) =
          before (t + piece.length) (pieces.map List.length) r := by
        cases r with
        | zero => rfl
        | succ r =>
          obtain ⟨hr', -⟩ := List.getElem?_eq_some_iff.mp hfound
          have hr'' : r < (totals (t + piece.length) (pieces.map List.length)).length := by
            rw [length_totals, List.length_map]
            omega
          rw [before, before, List.map_cons, totals, List.getElem?_cons_succ,
            List.getElem?_eq_getElem hr'']
          rfl
      refine ⟨found, hfound, hbefore ▸ hle, ?_⟩
      rw [hbefore, hget, List.flatten_cons, List.getElem?_append_right (by omega)]
      congr 1
      omega
    · obtain rfl : r = 0 := by
        by_contra hne
        exact hpast (hfirst.mp (Nat.pos_of_ne_zero hne))
      refine ⟨piece, rfl, hi, ?_⟩
      rw [before, List.flatten_cons, List.getElem?_append_left (by omega)]

end Bisect
