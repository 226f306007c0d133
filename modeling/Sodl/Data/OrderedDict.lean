import Sodl.Data.Dict

/-!
# Dictionaries in the order of use

A dictionary is a cache that forgets what was used longest ago when a row moves to the end as it is
used (`Dict.moveToEnd`) and rows leave from the front (`Dict.evict`). Moving changes nothing of
what is found; evicting keeps to the bound, and keeps the last row as long as the bound admits one.
-/

namespace Dict

variable {κ ν : Type} [DecidableEq κ] {d : Dict κ ν} {k k' : κ} {v : ν} {row : κ × ν}

theorem get?_eq_none_iff : d.get? k = none ↔ k ∉ d.keys := by
  induction d with
  | nil => exact ⟨fun _ => List.not_mem_nil, fun _ => rfl⟩
  | cons row d ih =>
    obtain ⟨j, w⟩ := row
    rw [get?, keys, List.map_cons, List.mem_cons, not_or, ← keys]
    by_cases hj : j = k
    · rw [if_pos hj]
      exact ⟨by rintro ⟨⟩, fun h => absurd hj.symm h.1⟩
    · rw [if_neg hj, ih]
      exact ⟨fun h => ⟨Ne.symm hj, h⟩, And.right⟩

theorem exists_get?_of_mem_keys (h : k ∈ d.keys) : ∃ v, d.get? k = some v :=
  Option.ne_none_iff_exists'.mp fun hnone => get?_eq_none_iff.mp hnone h

theorem get?_append (d e : Dict κ ν) (k : κ) : get? (d ++ e) k = (d.get? k).or (e.get? k) := by
  induction d with
  | nil => rfl
  | cons row d ih =>
    obtain ⟨j, w⟩ := row
    rw [List.cons_append, get?, get?, ih]
    split_ifs <;> rfl

theorem mem_keys_set_iff : k' ∈ (d.set k v).keys ↔ k' = k ∨ k' ∈ d.keys := by
  rw [← not_iff_not, not_or, ← get?_eq_none_iff, ← get?_eq_none_iff, get?_set]
  by_cases hk : k' = k
  · rw [if_pos hk]
    exact ⟨nofun, fun h => absurd hk h.1⟩
  · rw [if_neg hk]
    exact ⟨fun h => ⟨hk, h⟩, And.right⟩

theorem mem_keys_update_iff {e : Dict κ ν} : k ∈ (d.update e).keys ↔ k ∈ d.keys ∨ k ∈ e.keys := by
  induction e generalizing d with
  | nil => exact (or_iff_left List.not_mem_nil).symm
  | cons row e ih =>
    have hkeys : keys (row :: e) = row.1 :: keys e := rfl
    rw [update_cons, ih, mem_keys_set_iff, hkeys, List.mem_cons, or_comm (a := k = row.1),
      or_assoc]

/-! ### Moving a row to the end -/

/-- Move the row of a key to the end, if there is one. -/
def moveToEnd (d : Dict κ ν) (k : κ) : Dict κ ν :=
  match d.get? k with
  | none => d
  | some v => d.erase k ++ [(k, v)]

theorem moveToEnd_of_get? (h : d.get? k = some v) : d.moveToEnd k = d.erase k ++ [(k, v)] := by
  rw [moveToEnd, h]

theorem mem_of_mem_moveToEnd (h : row ∈ d.moveToEnd k) : row ∈ d := by
  rw [moveToEnd] at h
  split at h
  · exact h
  · rename_i v hv
    rcases List.mem_append.mp h with h | h
    · exact List.mem_of_mem_filter h
    · obtain rfl := List.mem_singleton.mp h
      exact mem_of_get? hv

/-- Moving a row changes nothing of what is found. -/
theorem get?_moveToEnd (d : Dict κ ν) (k k' : κ) : (d.moveToEnd k).get? k' = d.get? k' := by
  cases hv : d.get? k with
  | none => rw [moveToEnd, hv]
  | some v =>
    rw [moveToEnd_of_get? hv, get?_append, get?_erase]
    by_cases hk : k' = k
    · rw [if_pos hk, Option.none_or, get?, if_pos hk.symm, hk, hv]
    · rw [if_neg hk, get?, if_neg (Ne.symm hk), get?_nil, Option.or_none]

theorem length_moveToEnd_le (d : Dict κ ν) (k : κ) : (d.moveToEnd k).length ≤ d.length := by
  cases hv : d.get? k with
  | none => exact Nat.le_of_eq (by rw [moveToEnd, hv])
  | some v =>
    have hlt : (d.erase k).length < d.length :=
      List.length_filter_lt_length_iff_exists.mpr ⟨(k, v), mem_of_get? hv, by simp⟩
    rw [moveToEnd_of_get? hv, List.length_append, List.length_singleton]
    exact hlt

/-! ### Evicting from the front -/

/-- Drop rows from the front until no more than `capacity` are left. -/
def evict (capacity : ℕ) : Dict κ ν → Dict κ ν
  | [] => []
  | row :: d => if capacity < d.length + 1 then evict capacity d else row :: d

omit [DecidableEq κ] in
theorem mem_of_mem_evict {capacity : ℕ} (h : row ∈ d.evict capacity) : row ∈ d := by
  induction d with
  | nil => exact h
  | cons first d ih =>
    rw [evict] at h
    split_ifs at h
    · exact List.mem_cons_of_mem _ (ih h)
    · exact h

omit [DecidableEq κ] in
theorem length_evict_le (capacity : ℕ) (d : Dict κ ν) : (d.evict capacity).length ≤ capacity := by
  induction d with
  | nil => exact Nat.zero_le _
  | cons first d ih =>
    rw [evict]
    split_ifs with h
    · exact ih
    · exact Nat.le_of_not_lt h

omit [DecidableEq κ] in
/-- The last row stays. -/
theorem mem_evict_append {capacity : ℕ} (h : 0 < capacity) (d : Dict κ ν) (row : κ × ν) :
    row ∈ evict capacity (d ++ [row]) := by
  induction d with
  | nil =>
    rw [List.nil_append, evict, List.length_nil, if_neg (Nat.not_lt.mpr h)]
    exact List.mem_singleton_self row
  | cons first d ih =>
    rw [List.cons_append, evict]
    split_ifs
    · exact ih
    · exact List.mem_cons_of_mem _ (List.mem_append_right _ (List.mem_singleton_self row))

end Dict
