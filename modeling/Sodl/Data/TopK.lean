import Mathlib.Data.List.Perm.Basic
import Mathlib.Order.Basic
import Mathlib.Order.Defs.LinearOrder
import Mathlib.Order.Lattice

/-!
# The best of a list

The `k` entries of a list that score best, as a property of a list of entries
(`Top.IsTop`): there are as many of them as can be, they stand in the order of their scores,
and no entry that was left out has a better one. Where scores are tied there are several
such lists; they score alike (`Top.IsTop.map_eq`) and agree in what lies above a tie
(`Top.IsTop.filter_perm`).

* `Top.isTop_best` – sorting and cutting gives such a list;
* `Top.isTop_append_iff` – a list that was selected from a part of the entries is one of all
  of them exactly when each of the others is matched by `k` entries of the part.
-/

namespace Top

variable {α β K : Type} [LinearOrder K]

/-- A list from its best entry down. Entries that are tied keep their order. -/
def descending (score : α → K) (l : List α) : List α := l.mergeSort fun x y => score y ≤ score x

/-- The best `k` entries of a list. -/
def best (score : α → K) (k : ℕ) (l : List α) : List α := (descending score l).take k

/-- The best `k` entries of a list, the best of them first. -/
structure IsTop (score : α → K) (k : ℕ) (l top : List α) : Prop where
  length : top.length = min k l.length
  sorted : top.Pairwise fun x y => score y ≤ score x
  leftOut : ∃ rest, (top ++ rest).Perm l ∧ ∀ x ∈ rest, ∀ y ∈ top, score x ≤ score y

variable {score : α → K} {k : ℕ} {l l' top top' : List α}

theorem descending_perm (score : α → K) (l : List α) : (descending score l).Perm l :=
  List.mergeSort_perm l _

theorem pairwise_descending (score : α → K) (l : List α) :
    (descending score l).Pairwise fun x y => score y ≤ score x := by
  have h := @List.pairwise_mergeSort _ (fun x y => decide (score y ≤ score x))
    (fun x y z hxy hyz => by
      simp only [decide_eq_true_eq] at hxy hyz ⊢
      exact le_trans hyz hxy)
    (fun x y => by
      simp only [Bool.or_eq_true, decide_eq_true_eq]
      exact le_total _ _) l
  exact h.imp fun hxy => by simpa only [decide_eq_true_eq] using hxy

theorem isTop_best (score : α → K) (k : ℕ) (l : List α) : IsTop score k l (best score k l) := by
  have hsorted := pairwise_descending score l
  refine ⟨?_, hsorted.sublist (List.take_sublist k _), (descending score l).drop k, ?_, ?_⟩
  · rw [best, List.length_take, (descending_perm score l).length_eq]
  · rw [best, List.take_append_drop]
    exact descending_perm score l
  · intro x hx y hy
    rw [← List.take_append_drop k (descending score l), List.pairwise_append] at hsorted
    exact hsorted.2.2 y hy x hx

theorem IsTop.of_perm (h : IsTop score k l top) (hl : l.Perm l') : IsTop score k l' top := by
  obtain ⟨rest, hperm, hrest⟩ := h.leftOut
  exact ⟨hl.length_eq ▸ h.length, h.sorted, rest, hperm.trans hl, hrest⟩

/-- What is left of a selection when only a part of each entry is looked at. -/
theorem IsTop.map (h : IsTop score k l top) {score' : β → K} {f : α → β}
    (hf : ∀ x, score' (f x) = score x) : IsTop score' k (l.map f) (top.map f) := by
  obtain ⟨rest, hperm, hrest⟩ := h.leftOut
  refine ⟨by rw [List.length_map, List.length_map, h.length], ?_, rest.map f, ?_, ?_⟩
  · rw [List.pairwise_map]
    exact h.sorted.imp fun hxy => by rwa [hf, hf]
  · rw [← List.map_append]
    exact hperm.map f
  · rintro x' hx' y' hy'
    obtain ⟨x, hx, rfl⟩ := List.mem_map.mp hx'
    obtain ⟨y, hy, rfl⟩ := List.mem_map.mp hy'
    rw [hf, hf]
    exact hrest x hx y hy

/-- A selection starts an arrangement of the list from its best entry down. -/
theorem IsTop.exists_pairwise (h : IsTop score k l top) :
    ∃ rest, (top ++ rest).Perm l ∧ (top ++ rest).Pairwise fun x y => score y ≤ score x := by
  obtain ⟨rest, hperm, hrest⟩ := h.leftOut
  have hdesc := descending_perm score rest
  refine ⟨descending score rest, (hdesc.append_left top).trans hperm, ?_⟩
  refine List.pairwise_append.mpr ⟨h.sorted, pairwise_descending score rest, ?_⟩
  exact fun y hy x hx => hrest x (hdesc.mem_iff.mp hx) y hy

/-- **Selections score alike**, whatever the ties. -/
theorem IsTop.map_eq (h : IsTop score k l top) (h' : IsTop score k l top') :
    top.map score = top'.map score := by
  obtain ⟨rest, hperm, hsorted⟩ := h.exists_pairwise
  obtain ⟨rest', hperm', hsorted'⟩ := h'.exists_pairwise
  have hall : (top ++ rest).map score = (top' ++ rest').map score := by
    refine @List.Perm.eq_of_pairwise _ (fun a b => b ≤ a) _ _ (fun a b _ _ hab hba => ?_) ?_ ?_
      ((hperm.trans hperm'.symm).map score)
    · exact le_antisymm hba hab
    · exact List.pairwise_map.mpr hsorted
    · exact List.pairwise_map.mpr hsorted'
  rw [List.map_append, List.map_append] at hall
  refine (List.append_inj hall ?_).1
  rw [List.length_map, List.length_map, h.length, h'.length]

/-- **Selections agree in what scores above one of their entries.** -/
theorem IsTop.filter_perm (h : IsTop score k l top) {t : K} (ht : ∃ y ∈ top, score y ≤ t) :
    (top.filter fun x => t < score x).Perm (l.filter fun x => t < score x) := by
  obtain ⟨rest, hperm, hrest⟩ := h.leftOut
  obtain ⟨y, hy, hyt⟩ := ht
  have hnone : rest.filter (fun x => t < score x) = [] := by
    refine List.filter_eq_nil_iff.mpr fun x hx => ?_
    rw [decide_eq_true_eq, not_lt]
    exact le_trans (hrest x hx y hy) hyt
  have hfilter := hperm.filter fun x => t < score x
  rwa [List.filter_append, hnone, List.append_nil] at hfilter

/-- An entry that is matched by `k` entries of the list is not better than one of the best
`k` of them. -/
theorem IsTop.score_le (h : IsTop score k l top) {x : α}
    (hx : k ≤ (l.filter fun y => score x ≤ score y).length) {y : α} (hy : y ∈ top) :
    score x ≤ score y := by
  obtain ⟨rest, hperm, hrest⟩ := h.leftOut
  by_contra hlt
  -- were it better than the entry, so it would be than all that were left out
  have hnone : rest.filter (fun z => score x ≤ score z) = [] := by
    refine List.filter_eq_nil_iff.mpr fun z hz => ?_
    rw [decide_eq_true_eq]
    exact fun hxz => hlt (le_trans hxz (hrest z hz y hy))
  have hfilter := (hperm.filter fun z => score x ≤ score z).length_eq
  rw [List.filter_append, hnone, List.append_nil] at hfilter
  have hfewer : (top.filter fun z => score x ≤ score z).length < top.length :=
    List.length_filter_lt_length_iff_exists.mpr ⟨y, hy, by simpa using hlt⟩
  have hlen := h.length
  omega

/-- **A selection from a part of the entries** is one of all of them exactly when each of the
others is matched by `k` entries of the part. -/
theorem isTop_append_iff (h : IsTop score k l top) (dropped : List α) :
    IsTop score k (l ++ dropped) top ↔
      ∀ x ∈ dropped, k ≤ (l.filter fun y => score x ≤ score y).length := by
  obtain ⟨rest, hperm, hrest⟩ := h.leftOut
  have hlen := h.length
  constructor
  · intro hall x hx
    obtain ⟨rest', hperm', hrest'⟩ := hall.leftOut
    have hlen' := hall.length
    have hpos : 0 < dropped.length := List.length_pos_of_mem hx
    rw [List.length_append] at hlen'
    have hleft : (rest ++ dropped).Perm rest' := by
      refine (List.perm_append_left_iff top).mp ?_
      rw [← List.append_assoc]
      exact (hperm.append_right dropped).trans hperm'.symm
    have hbest : top.filter (fun y => score x ≤ score y) = top := by
      refine List.filter_eq_self.mpr fun y hy => ?_
      rw [decide_eq_true_eq]
      exact hrest' x (hleft.mem_iff.mp (List.mem_append_right _ hx)) y hy
    have hfilter := (hperm.filter fun y => score x ≤ score y).length_eq
    rw [List.filter_append, List.length_append, hbest] at hfilter
    omega
  · intro hmatched
    refine ⟨?_, h.sorted, rest ++ dropped, ?_, ?_⟩
    · rw [hlen, List.length_append]
      cases dropped with
      | nil => rw [List.length_nil, Nat.add_zero]
      | cons x dropped =>
        have hx := hmatched x (List.mem_cons_self ..)
        have hle := (List.filter_sublist (l := l) (p := fun y => score x ≤ score y)).length_le
        omega
    · rw [← List.append_assoc]
      exact hperm.append_right dropped
    · intro x hx y hy
      rcases List.mem_append.mp hx with hx | hx
      · exact hrest x hx y hy
      · exact h.score_le (hmatched x hx) hy

end Top
