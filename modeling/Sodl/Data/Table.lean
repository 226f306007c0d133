import Mathlib.Algebra.BigOperators.Group.List.Basic
import Mathlib.Algebra.GroupWithZero.Nat
import Mathlib.Data.List.AList
import Mathlib.Data.List.Induction

/-!
# Tables and saturating counters

A `Table` is a finite map that can be enumerated: an association list without
repeated keys. What a store keeps – records under their ids, counts under the
ids they count – is a table, and what is said about a store as a whole is a sum
over its table.

* `Table.sumBy` adds a quantity over the rows; `Table.sumBy_insert_new` and
  `Table.sumBy_replace` say what one write does to the sum;
* `Counter` is a table of counts, with an increment, and a decrement that stops
  at zero. `Counter.get_incAll` and `Counter.get_decAll` give the counts after a
  list of increments or decrements, and `Counter.mem_dec` records that a
  decrement leaves a row behind even where there was none.
-/

/-- A finite map that can be enumerated. -/
abbrev Table (κ ν : Type) : Type := AList fun _ : κ => ν

namespace Table

variable {κ ν : Type} [DecidableEq κ]

/-- The value under a key. -/
def lookup (t : Table κ ν) (k : κ) : Option ν := AList.lookup k t

/-- Write a value under a key, over the one that may be there. -/
def insert (t : Table κ ν) (k : κ) (v : ν) : Table κ ν := AList.insert k v t

/-- Remove a key and its value. -/
def erase (t : Table κ ν) (k : κ) : Table κ ν := AList.erase k t

@[simp] theorem lookup_empty (k : κ) : lookup (∅ : Table κ ν) k = none := rfl

@[simp] theorem lookup_insert_self (t : Table κ ν) (k : κ) (v : ν) :
    (t.insert k v).lookup k = some v := AList.lookup_insert t

theorem lookup_insert_ne {t : Table κ ν} {k k' : κ} {v : ν} (h : k ≠ k') :
    (t.insert k' v).lookup k = t.lookup k := AList.lookup_insert_ne h

theorem lookup_insert (t : Table κ ν) (k k' : κ) (v : ν) :
    (t.insert k' v).lookup k = if k = k' then some v else t.lookup k := by
  by_cases h : k = k'
  · rw [if_pos h, h, lookup_insert_self]
  · rw [if_neg h, lookup_insert_ne h]

@[simp] theorem lookup_erase_self (t : Table κ ν) (k : κ) : (t.erase k).lookup k = none :=
  AList.lookup_erase k t

theorem lookup_erase_ne {t : Table κ ν} {k k' : κ} (h : k ≠ k') :
    (t.erase k').lookup k = t.lookup k := AList.lookup_erase_ne h

/-- A row that a write adds or that was there before it. -/
theorem lookup_insert_eq_some {t : Table κ ν} {k k' : κ} {v w : ν}
    (h : (t.insert k' v).lookup k = some w) :
    (k = k' ∧ v = w) ∨ (k ≠ k' ∧ t.lookup k = some w) := by
  rw [lookup_insert] at h
  by_cases hk : k = k'
  · rw [if_pos hk] at h
    exact Or.inl ⟨hk, Option.some.inj h⟩
  · rw [if_neg hk] at h
    exact Or.inr ⟨hk, h⟩

/-- A row an erasure left in place was there before it. -/
theorem lookup_of_lookup_erase {t : Table κ ν} {k k' : κ} {w : ν}
    (h : (t.erase k').lookup k = some w) : k ≠ k' ∧ t.lookup k = some w := by
  have hk : k ≠ k' := by
    rintro rfl
    rw [lookup_erase_self] at h
    exact absurd h (by simp)
  rw [lookup_erase_ne hk] at h
  exact ⟨hk, h⟩

theorem mem_entries {t : Table κ ν} {k : κ} {v : ν} :
    (⟨k, v⟩ : Sigma fun _ : κ => ν) ∈ t.entries ↔ t.lookup k = some v :=
  AList.mem_lookup_iff.symm

theorem mem_iff_exists_lookup {t : Table κ ν} {k : κ} : k ∈ t ↔ ∃ v, t.lookup k = some v := by
  have h : (t.lookup k).isSome ↔ k ∈ t := AList.lookup_isSome
  rw [← h, Option.isSome_iff_exists]

theorem lookup_eq_none {t : Table κ ν} {k : κ} : t.lookup k = none ↔ k ∉ t :=
  AList.lookup_eq_none

theorem mem_insert {t : Table κ ν} {k k' : κ} {v : ν} : k ∈ t.insert k' v ↔ k = k' ∨ k ∈ t :=
  AList.mem_insert t

/-- What was there is still there, or it is what was erased. -/
theorem mem_erase_or {t : Table κ ν} {k k' : κ} (hk : k ∈ t) : k ∈ t.erase k' ∨ k' = k :=
  (ne_or_eq k k').imp (fun hne => AList.mem_erase.mpr ⟨hne, hk⟩) Eq.symm

/-- Remove the rows of a list of keys. -/
def eraseAll (t : Table κ ν) (ks : List κ) : Table κ ν := ks.foldl erase t

theorem mem_eraseAll {t : Table κ ν} {ks : List κ} {k : κ} (hk : k ∉ ks) (ht : k ∈ t) :
    k ∈ t.eraseAll ks := by
  induction ks generalizing t with
  | nil => exact ht
  | cons j ks ih =>
    rw [List.mem_cons, not_or] at hk
    exact ih hk.2 (AList.mem_erase.mpr ⟨hk.1, ht⟩)

theorem lookup_of_lookup_eraseAll {t : Table κ ν} {ks : List κ} {k : κ} {v : ν}
    (h : (t.eraseAll ks).lookup k = some v) : t.lookup k = some v := by
  induction ks generalizing t with
  | nil => exact h
  | cons j ks ih => exact (lookup_of_lookup_erase (ih h)).2

section Fold

variable {α : Type*} {f : α → κ} {g : α → ν} {l : List α} {t : Table κ ν} {k : κ}

/-- A row of a table to which rows were added is one of them, or was there before. -/
theorem lookup_foldl_insert {v : ν}
    (h : (l.foldl (fun t a => t.insert (f a) (g a)) t).lookup k = some v) :
    (∃ a ∈ l, f a = k ∧ g a = v) ∨ t.lookup k = some v := by
  induction l generalizing t with
  | nil => exact Or.inr h
  | cons a l ih =>
    rcases ih h with ⟨b, hb, hkey⟩ | h
    · exact Or.inl ⟨b, List.mem_cons_of_mem _ hb, hkey⟩
    · rcases lookup_insert_eq_some h with ⟨rfl, rfl⟩ | ⟨-, h⟩
      · exact Or.inl ⟨a, List.mem_cons_self .., rfl, rfl⟩
      · exact Or.inr h

theorem mem_foldl_insert :
    k ∈ l.foldl (fun t a => t.insert (f a) (g a)) t ↔ k ∈ t ∨ k ∈ l.map f := by
  induction l generalizing t with
  | nil => simp
  | cons a l ih =>
    rw [List.foldl_cons, ih, mem_insert, List.map_cons, List.mem_cons]
    tauto

end Fold

/-! ### Sums over the rows -/

/-- The sum of a quantity over the rows. -/
def sumBy (f : κ → ν → ℕ) (t : Table κ ν) : ℕ := (t.entries.map fun e => f e.1 e.2).sum

omit [DecidableEq κ] in
@[simp] theorem sumBy_empty (f : κ → ν → ℕ) : sumBy f (∅ : Table κ ν) = 0 := rfl

theorem sumBy_insert (f : κ → ν → ℕ) (t : Table κ ν) (k : κ) (v : ν) :
    sumBy f (t.insert k v) = f k v + sumBy f (t.erase k) := by
  rw [sumBy, insert, AList.entries_insert, List.map_cons, List.sum_cons]
  rfl

private theorem sum_kerase (f : κ → ν → ℕ) (k : κ) :
    ∀ l : List (Sigma fun _ : κ => ν), ((List.kerase k l).map fun e => f e.1 e.2).sum +
      ((List.dlookup k l).elim 0 (f k)) = (l.map fun e => f e.1 e.2).sum := by
  intro l
  induction l with
  | nil => simp
  | cons e l ih =>
    obtain ⟨k', v⟩ := e
    by_cases h : k = k'
    · subst h
      have he : List.kerase k ((⟨k, v⟩ : Sigma fun _ : κ => ν) :: l) = l := List.kerase_cons_eq rfl
      rw [he, List.dlookup_cons_eq]
      simp [Nat.add_comm]
    · rw [List.kerase_cons_ne h, List.dlookup_cons_ne _ _ h]
      simp only [List.map_cons, List.sum_cons]
      omega

/-- Erasing a row takes its share off the sum. -/
theorem sumBy_erase_add (f : κ → ν → ℕ) (t : Table κ ν) (k : κ) :
    sumBy f (t.erase k) + (t.lookup k).elim 0 (f k) = sumBy f t :=
  sum_kerase f k t.entries

/-- A write under a new key adds its share to the sum. -/
theorem sumBy_insert_new {f : κ → ν → ℕ} {t : Table κ ν} {k : κ} {v : ν}
    (h : t.lookup k = none) : sumBy f (t.insert k v) = f k v + sumBy f t := by
  have he := sumBy_erase_add f t k
  rw [h] at he
  rw [sumBy_insert, ← he]
  simp

/-- A write over an old row exchanges its share in the sum. -/
theorem sumBy_replace {f : κ → ν → ℕ} {t : Table κ ν} {k : κ} {v w : ν}
    (h : t.lookup k = some w) : sumBy f (t.insert k v) + f k w = f k v + sumBy f t := by
  have he := sumBy_erase_add f t k
  rw [h] at he
  rw [sumBy_insert, ← he]
  simp [Nat.add_assoc]

/-- A row's share is at most the sum. -/
theorem le_sumBy {f : κ → ν → ℕ} {t : Table κ ν} {k : κ} {v : ν} (h : t.lookup k = some v) :
    f k v ≤ sumBy f t := by
  have he := sumBy_erase_add f t k
  rw [h] at he
  simp only [Option.elim_some] at he
  omega

theorem sumBy_eq_zero {f : κ → ν → ℕ} {t : Table κ ν} :
    sumBy f t = 0 ↔ ∀ k v, t.lookup k = some v → f k v = 0 := by
  constructor
  · intro h k v hk
    have := le_sumBy (f := f) hk
    omega
  · intro h
    refine List.sum_eq_zero fun n hn => ?_
    obtain ⟨⟨k, v⟩, he, rfl⟩ := List.mem_map.mp hn
    exact h k v (mem_entries.mp he)

/-- **A sum over the rows as a sum over a list** that names the rows: each element
of the list names a row of its own, and the rows left unnamed add nothing. The
induction takes the named rows off the table one after another. -/
theorem sumBy_eq_sum {ι : Type} {f : κ → ν → ℕ} {t : Table κ ν} {is : List ι} {g : ι → κ}
    {w : ι → ℕ} (hnodup : (is.map g).Nodup)
    (hrow : ∀ i ∈ is, ∃ v, t.lookup (g i) = some v ∧ f (g i) v = w i)
    (hrest : ∀ k v, t.lookup k = some v → k ∉ is.map g → f k v = 0) :
    sumBy f t = (is.map w).sum := by
  induction is generalizing t with
  | nil => exact sumBy_eq_zero.mpr fun k v hk => hrest k v hk (by simp)
  | cons i is ih =>
    rw [List.map_cons, List.nodup_cons] at hnodup
    obtain ⟨v, hv, hg⟩ := hrow i (List.mem_cons_self ..)
    have he := sumBy_erase_add f t (g i)
    rw [hv] at he
    have hih : sumBy f (t.erase (g i)) = (is.map w).sum := by
      refine ih hnodup.2 (fun j hj => ?_) (fun k w hk hnot => ?_)
      · obtain ⟨w, hw, hgj⟩ := hrow j (List.mem_cons_of_mem i hj)
        have hne : g j ≠ g i := fun h => hnodup.1 (h ▸ List.mem_map_of_mem hj)
        exact ⟨w, (lookup_erase_ne hne).trans hw, hgj⟩
      · obtain ⟨hne, hk'⟩ := lookup_of_lookup_erase hk
        refine hrest k w hk' ?_
        rw [List.map_cons, List.mem_cons]
        exact fun h => h.elim hne hnot
    rw [List.map_cons, List.sum_cons, ← hih, ← hg, ← he]
    exact Nat.add_comm _ _

/-- A sum over a list that names rows of its own is at most the sum over all
rows. -/
theorem sum_le_sumBy {ι : Type} {f : κ → ν → ℕ} {t : Table κ ν} {is : List ι} {g : ι → κ}
    {w : ι → ℕ} (hnodup : (is.map g).Nodup)
    (hrow : ∀ i ∈ is, ∃ v, t.lookup (g i) = some v ∧ w i ≤ f (g i) v) :
    (is.map w).sum ≤ sumBy f t := by
  induction is generalizing t with
  | nil => exact Nat.zero_le _
  | cons i is ih =>
    rw [List.map_cons, List.nodup_cons] at hnodup
    obtain ⟨v, hv, hg⟩ := hrow i (List.mem_cons_self ..)
    have he := sumBy_erase_add f t (g i)
    rw [hv] at he
    have hih : (is.map w).sum ≤ sumBy f (t.erase (g i)) := by
      refine ih hnodup.2 fun j hj => ?_
      obtain ⟨w, hw, hgj⟩ := hrow j (List.mem_cons_of_mem i hj)
      have hne : g j ≠ g i := fun h => hnodup.1 (h ▸ List.mem_map_of_mem hj)
      exact ⟨w, (lookup_erase_ne hne).trans hw, hgj⟩
    simp only [Option.elim_some] at he
    rw [List.map_cons, List.sum_cons]
    omega

end Table

/-! ### Saturating counters -/

/-- A table of counts. A missing row counts zero. -/
abbrev Counter (κ : Type) : Type := Table κ ℕ

namespace Counter

variable {κ : Type} [DecidableEq κ]

/-- The count of a key. -/
def get (c : Counter κ) (k : κ) : ℕ := (c.lookup k).getD 0

/-- Add one to the count of a key. -/
def inc (c : Counter κ) (k : κ) : Counter κ := c.insert k (c.get k + 1)

/-- Take one off the count of a key, stopping at zero. -/
def dec (c : Counter κ) (k : κ) : Counter κ := c.insert k (c.get k - 1)

/-- Increment once for each element of a list. -/
def incAll (c : Counter κ) (ks : List κ) : Counter κ := ks.foldl inc c

/-- Decrement once for each element of a list. -/
def decAll (c : Counter κ) (ks : List κ) : Counter κ := ks.foldl dec c

@[simp] theorem get_empty (k : κ) : get (∅ : Counter κ) k = 0 := rfl

theorem get_inc (c : Counter κ) (k j : κ) : (c.inc k).get j = c.get j + if j = k then 1 else 0 := by
  rw [get, inc, Table.lookup_insert]
  by_cases h : j = k
  · simp [h]
  · simp [h, get]

theorem get_dec (c : Counter κ) (k j : κ) : (c.dec k).get j = c.get j - if j = k then 1 else 0 := by
  rw [get, dec, Table.lookup_insert]
  by_cases h : j = k
  · simp [h]
  · simp [h, get]

@[simp] theorem get_inc_self (c : Counter κ) (k : κ) : (c.inc k).get k = c.get k + 1 := by
  simp [get_inc]

@[simp] theorem get_dec_self (c : Counter κ) (k : κ) : (c.dec k).get k = c.get k - 1 := by
  simp [get_dec]

theorem get_dec_ne {c : Counter κ} {k j : κ} (h : j ≠ k) : (c.dec k).get j = c.get j := by
  simp [get_dec, h]

/-- The counts after a list of increments. -/
theorem get_incAll (c : Counter κ) (ks : List κ) (j : κ) :
    (c.incAll ks).get j = c.get j + ks.count j := by
  induction ks generalizing c with
  | nil => rfl
  | cons k ks ih =>
    have h : (c.incAll (k :: ks)) = (c.inc k).incAll ks := rfl
    rw [h, ih, get_inc, List.count_cons]
    simp only [beq_iff_eq, eq_comm (a := j)]
    omega

/-- The counts after a list of decrements. -/
theorem get_decAll (c : Counter κ) (ks : List κ) (j : κ) :
    (c.decAll ks).get j = c.get j - ks.count j := by
  induction ks generalizing c with
  | nil => rfl
  | cons k ks ih =>
    have h : (c.decAll (k :: ks)) = (c.dec k).decAll ks := rfl
    rw [h, ih, get_dec, List.count_cons]
    simp only [beq_iff_eq, eq_comm (a := j)]
    omega

theorem mem_inc {c : Counter κ} {k j : κ} : j ∈ c.inc k ↔ j = k ∨ j ∈ c := Table.mem_insert

/-- A decrement leaves a row behind, also where there was none. -/
theorem mem_dec {c : Counter κ} {k j : κ} : j ∈ c.dec k ↔ j = k ∨ j ∈ c := Table.mem_insert

theorem mem_incAll {c : Counter κ} {ks : List κ} {j : κ} : j ∈ c.incAll ks ↔ j ∈ ks ∨ j ∈ c := by
  induction ks generalizing c with
  | nil => simp [incAll]
  | cons k ks ih =>
    have h : (c.incAll (k :: ks)) = (c.inc k).incAll ks := rfl
    rw [h, ih, mem_inc, List.mem_cons]
    tauto

theorem mem_decAll {c : Counter κ} {ks : List κ} {j : κ} : j ∈ c.decAll ks ↔ j ∈ ks ∨ j ∈ c := by
  induction ks generalizing c with
  | nil => simp [decAll]
  | cons k ks ih =>
    have h : (c.decAll (k :: ks)) = (c.dec k).decAll ks := rfl
    rw [h, ih, mem_dec, List.mem_cons]
    tauto

/-- Decrementing one key again and again. -/
theorem foldl_dec {α : Type} (c : Counter κ) (k : κ) (l : List α) :
    l.foldl (fun c _ => c.dec k) c = c.decAll (List.replicate l.length k) := by
  rw [decAll, ← List.map_const', List.foldl_map]

/-! ### The level of a sequence of steps -/

/-- Where a counter stands after a sequence of increments (`true`) and decrements
(`false`), starting from zero. -/
def level (steps : List Bool) : ℕ := steps.foldl (fun n up => if up then n + 1 else n - 1) 0

@[simp] theorem level_nil : level [] = 0 := rfl

theorem level_snoc (steps : List Bool) (up : Bool) :
    level (steps ++ [up]) = if up then level steps + 1 else level steps - 1 := by
  rw [level, List.foldl_append]
  rfl

/-- **The level is the largest surplus of a final segment.** The decrements that
found the counter at zero are the ones before the segment begins. -/
theorem le_level_iff {steps : List Bool} {n : ℕ} :
    n ≤ level steps ↔ n = 0 ∨ ∃ t, t <:+ steps ∧ t.count false + n ≤ t.count true := by
  induction steps using List.reverseRecOn generalizing n with
  | nil =>
    rw [level_nil]
    constructor
    · intro h
      exact Or.inl (Nat.le_zero.mp h)
    · rintro (rfl | ⟨t, ht, h⟩)
      · exact Nat.le_refl 0
      · rw [List.suffix_nil.mp ht] at h
        simpa using h
  | append_singleton steps up ih =>
    -- a final segment of the longer sequence is empty or ends in the new step
    have hseg : (n = 0 ∨ ∃ t, t <:+ steps ++ [up] ∧ t.count false + n ≤ t.count true) ↔
        n = 0 ∨ ∃ t, t <:+ steps ∧
          (t ++ [up]).count false + n ≤ (t ++ [up]).count true := by
      constructor
      · rintro (h | ⟨t, ht, h⟩)
        · exact Or.inl h
        rcases List.suffix_concat_iff.mp ht with rfl | ⟨t', rfl, ht'⟩
        · exact Or.inl (by simpa using h)
        · exact Or.inr ⟨t', ht', h⟩
      · rintro (h | ⟨t, ht, h⟩)
        · exact Or.inl h
        · exact Or.inr ⟨t ++ [up], List.suffix_concat_iff.mpr (Or.inr ⟨t, rfl, ht⟩), h⟩
    rw [level_snoc, hseg]
    simp only [List.count_append, List.count_singleton]
    cases up with
    | true =>
      have hih := ih (n := n - 1)
      simp only [if_true]
      constructor
      · intro h
        rcases Nat.eq_zero_or_pos n with rfl | hpos
        · exact Or.inl rfl
        · rcases hih.mp (by omega) with h0 | ⟨t, ht, hle⟩
          · exact Or.inr ⟨[], List.nil_suffix, by simp; omega⟩
          · exact Or.inr ⟨t, ht, by simp; omega⟩
      · rintro (rfl | ⟨t, ht, hle⟩)
        · exact Nat.zero_le _
        · rcases Nat.eq_zero_or_pos n with rfl | hpos
          · exact Nat.zero_le _
          · have h := hih.mpr (Or.inr ⟨t, ht, by simp at hle; omega⟩)
            omega
    | false =>
      have hih := ih (n := n + 1)
      simp only [Bool.false_eq_true, if_false]
      constructor
      · intro h
        rcases Nat.eq_zero_or_pos n with rfl | hpos
        · exact Or.inl rfl
        · rcases hih.mp (by omega) with h0 | ⟨t, ht, hle⟩
          · exact absurd h0 (by omega)
          · exact Or.inr ⟨t, ht, by simp; omega⟩
      · rintro (rfl | ⟨t, ht, hle⟩)
        · exact Nat.zero_le _
        · have h := hih.mpr (Or.inr ⟨t, ht, by simp at hle; omega⟩)
          omega

/-- A counter is above zero if some final segment of its steps has more increments
than decrements. -/
theorem level_pos_iff {steps : List Bool} :
    0 < level steps ↔ ∃ t, t <:+ steps ∧ t.count false < t.count true := by
  refine (le_level_iff (n := 1)).trans ⟨?_, fun h => Or.inr h⟩
  rintro (h | h)
  · exact absurd h Nat.one_ne_zero
  · exact h

end Counter
