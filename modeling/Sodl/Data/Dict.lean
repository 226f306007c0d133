import Mathlib.Data.List.Basic
import Mathlib.Data.List.Nodup
import Mathlib.Data.List.Perm.Basic

/-!
# Dictionaries

A dictionary that is gone through in the order in which its keys were first assigned: a list of
rows. Assigning to a key that is there leaves its row in place (`Dict.set`).
-/

/-- A finite map that keeps the order of its keys. -/
abbrev Dict (κ ν : Type) : Type := List (κ × ν)

namespace Dict

variable {κ ν : Type} [DecidableEq κ]

/-- The value under a key. -/
def get? : Dict κ ν → κ → Option ν
  | [], _ => none
  | (j, w) :: d, k => if j = k then some w else get? d k

/-- Assign a value to a key, in the place the key has or else at the end. -/
def set : Dict κ ν → κ → ν → Dict κ ν
  | [], k, v => [(k, v)]
  | (j, w) :: d, k, v => if j = k then (k, v) :: d else (j, w) :: set d k v

/-- Remove a key and its value. -/
def erase (d : Dict κ ν) (k : κ) : Dict κ ν := d.filter fun row => row.1 ≠ k

@[simp] theorem get?_nil (k : κ) : get? ([] : Dict κ ν) k = none := rfl

theorem get?_set (d : Dict κ ν) (k k' : κ) (v : ν) :
    (d.set k v).get? k' = if k' = k then some v else d.get? k' := by
  induction d with
  | nil =>
    rw [set, get?]
    exact if_congr eq_comm rfl rfl
  | cons row d ih =>
    obtain ⟨j, w⟩ := row
    rw [set]
    by_cases hj : j = k
    · rw [if_pos hj, get?, get?, hj]
      by_cases hk : k' = k
      · rw [if_pos hk.symm, if_pos hk]
      · rw [if_neg (Ne.symm hk), if_neg hk, if_neg (Ne.symm hk)]
    · rw [if_neg hj, get?, get?, ih]
      by_cases hk : k' = k
      · rw [if_pos hk, if_pos hk, if_neg (hk ▸ hj)]
      · rw [if_neg hk, if_neg hk]

@[simp] theorem get?_set_self (d : Dict κ ν) (k : κ) (v : ν) : (d.set k v).get? k = some v := by
  rw [get?_set, if_pos rfl]

theorem get?_set_of_ne {d : Dict κ ν} {k k' : κ} {v : ν} (h : k' ≠ k) :
    (d.set k v).get? k' = d.get? k' := by
  rw [get?_set, if_neg h]

/-- What is found after a key was removed. -/
theorem get?_erase (d : Dict κ ν) (k k' : κ) :
    (d.erase k).get? k' = if k' = k then none else d.get? k' := by
  induction d with
  | nil => exact (ite_self none).symm
  | cons row d ih =>
    obtain ⟨j, w⟩ := row
    rw [erase] at ih
    by_cases hj : j = k
    · rw [erase, List.filter_cons_of_neg (by simp [hj]), ih, get?, hj]
      by_cases hk : k' = k
      · rw [if_pos hk, if_pos hk]
      · rw [if_neg hk, if_neg hk, if_neg (Ne.symm hk)]
    · rw [erase, List.filter_cons_of_pos (by simpa using hj), get?, get?, ih]
      by_cases hk : k' = k
      · rw [if_pos hk, if_pos hk, if_neg (hk ▸ hj)]
      · rw [if_neg hk, if_neg hk]

/-- What is found under a key is in a row. -/
theorem mem_of_get? {d : Dict κ ν} {k : κ} {v : ν} (h : d.get? k = some v) : (k, v) ∈ d := by
  induction d with
  | nil => exact absurd h nofun
  | cons row d ih =>
    obtain ⟨j, w⟩ := row
    rw [get?] at h
    by_cases hj : j = k
    · rw [if_pos hj] at h
      rw [← hj, Option.some.inj h]
      exact List.mem_cons_self ..
    · rw [if_neg hj] at h
      exact List.mem_cons_of_mem _ (ih h)

/-- The rows after an assignment. -/
theorem mem_of_mem_set {d : Dict κ ν} {k : κ} {v : ν} {row : κ × ν} (h : row ∈ d.set k v) :
    row = (k, v) ∨ row ∈ d := by
  induction d with
  | nil => exact Or.inl (List.mem_singleton.mp h)
  | cons row' d ih =>
    obtain ⟨j, w⟩ := row'
    rw [set] at h
    by_cases hj : j = k
    · rw [if_pos hj] at h
      exact (List.mem_cons.mp h).imp_right (List.mem_cons_of_mem _)
    · rw [if_neg hj] at h
      rcases List.mem_cons.mp h with rfl | h
      · exact Or.inr (List.mem_cons_self ..)
      · exact (ih h).imp_right (List.mem_cons_of_mem _)

/-! ### Keys that occur once -/

/-- The keys of a dictionary, in order. -/
def keys (d : Dict κ ν) : List κ := d.map Prod.fst

theorem mem_keys_set {d : Dict κ ν} {k k' : κ} {v : ν} (h : k' ∈ (d.set k v).keys) :
    k' = k ∨ k' ∈ d.keys := by
  obtain ⟨row, hrow, rfl⟩ := List.mem_map.mp h
  rcases mem_of_mem_set hrow with rfl | hrow
  · exact Or.inl rfl
  · exact Or.inr (List.mem_map_of_mem hrow)

theorem nodup_set {d : Dict κ ν} (h : d.keys.Nodup) (k : κ) (v : ν) : (d.set k v).keys.Nodup := by
  induction d with
  | nil => exact List.pairwise_singleton _ k
  | cons row d ih =>
    obtain ⟨j, w⟩ := row
    obtain ⟨hj, hd⟩ := List.nodup_cons.mp h
    rw [set]
    by_cases hjk : j = k
    · rw [if_pos hjk]
      exact List.nodup_cons.mpr ⟨hjk ▸ hj, hd⟩
    · rw [if_neg hjk]
      refine List.nodup_cons.mpr ⟨fun hmem => ?_, ih hd⟩
      exact (mem_keys_set hmem).elim hjk hj

theorem nodup_erase {d : Dict κ ν} (h : d.keys.Nodup) (k : κ) : (d.erase k).keys.Nodup :=
  h.sublist (List.filter_sublist.map Prod.fst)

/-- A row is found under its key. -/
theorem get?_of_mem {d : Dict κ ν} (h : d.keys.Nodup) {k : κ} {v : ν} (hrow : (k, v) ∈ d) :
    d.get? k = some v := by
  induction d with
  | nil => exact absurd hrow List.not_mem_nil
  | cons row d ih =>
    obtain ⟨j, w⟩ := row
    obtain ⟨hj, hd⟩ := List.nodup_cons.mp h
    rw [get?]
    rcases List.mem_cons.mp hrow with heq | hrow
    · obtain ⟨rfl, rfl⟩ := Prod.mk.inj heq
      exact if_pos rfl
    · have hne : j ≠ k := by
        rintro rfl
        exact hj (List.mem_map.mpr ⟨(j, v), hrow, rfl⟩)
      rw [if_neg hne]
      exact ih hd hrow

theorem mem_erase {d : Dict κ ν} {k : κ} {row : κ × ν} : row ∈ d.erase k ↔ row ∈ d ∧ row.1 ≠ k := by
  simp [erase]

/-- Dictionaries whose keys occur once have the same rows when the same is found under each
key. -/
theorem perm_iff_get? {d d' : Dict κ ν} (h : d.keys.Nodup) (h' : d'.keys.Nodup) :
    d.Perm d' ↔ ∀ k, d.get? k = d'.get? k := by
  rw [List.perm_ext_iff_of_nodup (h.of_map _) (h'.of_map _)]
  have hmem : ∀ {d : Dict κ ν}, d.keys.Nodup → ∀ row, row ∈ d ↔ d.get? row.1 = some row.2 :=
    fun hd _ => ⟨get?_of_mem hd, mem_of_get?⟩
  constructor
  · intro hrows k
    refine Option.ext fun v => ?_
    exact (hmem h (k, v)).symm.trans ((hrows (k, v)).trans (hmem h' (k, v)))
  · intro hget row
    rw [hmem h, hmem h', hget]

/-- What is found after the values were mapped. -/
theorem get?_map {ν' : Type} (f : ν → ν') (d : Dict κ ν) (k : κ) :
    Dict.get? (d.map (Prod.map id f)) k = (d.get? k).map f := by
  induction d with
  | nil => rfl
  | cons row d ih =>
    obtain ⟨j, w⟩ := row
    rw [List.map_cons, Prod.map_apply, id, get?, get?, ih]
    split_ifs <;> rfl

/-! ### Assigning the rows of another dictionary -/

/-- Assign every row of `e`, in order. -/
def update (d e : Dict κ ν) : Dict κ ν := e.foldl (fun d row => d.set row.1 row.2) d

@[simp] theorem update_nil (d : Dict κ ν) : d.update [] = d := rfl

theorem update_cons (d e : Dict κ ν) (row : κ × ν) :
    d.update (row :: e) = (d.set row.1 row.2).update e := rfl

/-- What is found after the rows of another dictionary were assigned. -/
theorem get?_update {e : Dict κ ν} (h : e.keys.Nodup) (d : Dict κ ν) (k : κ) :
    (d.update e).get? k = (Dict.get? e k).or (d.get? k) := by
  induction e generalizing d with
  | nil => rfl
  | cons row e ih =>
    obtain ⟨j, w⟩ := row
    obtain ⟨hj, he⟩ := List.nodup_cons.mp h
    rw [update_cons, ih he, get?_set, get?]
    by_cases hjk : j = k
    · have hnone : Dict.get? e k = none := by
        refine Option.eq_none_iff_forall_ne_some.mpr fun v hv => hj ?_
        exact List.mem_map.mpr ⟨(k, v), mem_of_get? hv, hjk.symm⟩
      rw [if_pos hjk, if_pos hjk.symm, hnone, Option.none_or, Option.some_or]
    · rw [if_neg hjk, if_neg (Ne.symm hjk)]

/-- A key that is not assigned keeps what it has. -/
theorem get?_update_of_notMem {e : Dict κ ν} {k : κ} (h : k ∉ e.keys) (d : Dict κ ν) :
    (d.update e).get? k = d.get? k := by
  induction e generalizing d with
  | nil => rfl
  | cons row e ih =>
    obtain ⟨hrow, he⟩ := not_or.mp (mt List.mem_cons.mpr h)
    rw [update_cons, ih he, get?_set, if_neg hrow]

theorem nodup_update {d : Dict κ ν} (h : d.keys.Nodup) (e : Dict κ ν) :
    (d.update e).keys.Nodup := by
  induction e generalizing d with
  | nil => exact h
  | cons row e ih => exact ih (nodup_set h row.1 row.2)

/-- The rows after the rows of another dictionary were assigned. -/
theorem mem_of_mem_update {d e : Dict κ ν} {row : κ × ν} (h : row ∈ d.update e) :
    row ∈ d ∨ row ∈ e := by
  induction e generalizing d with
  | nil => exact Or.inl h
  | cons row' e ih =>
    rcases ih h with h | h
    · rcases mem_of_mem_set h with rfl | h
      · exact Or.inr (List.mem_cons_self ..)
      · exact Or.inl h
    · exact Or.inr (List.mem_cons_of_mem _ h)

/-- A key that is not there is assigned at the end. -/
theorem set_of_notMem {d : Dict κ ν} {k : κ} (h : k ∉ d.keys) (v : ν) :
    d.set k v = d ++ [(k, v)] := by
  induction d with
  | nil => rfl
  | cons row d ih =>
    obtain ⟨j, w⟩ := row
    obtain ⟨hj, hd⟩ := not_or.mp (mt List.mem_cons.mpr h)
    rw [set, if_neg (Ne.symm hj), ih hd, List.cons_append]

/-- New rows are assigned at the end. -/
theorem update_eq_append {d e : Dict κ ν} (h : (d ++ e).keys.Nodup) : d.update e = d ++ e := by
  induction e generalizing d with
  | nil => exact (List.append_nil d).symm
  | cons row e ih =>
    have hsplit : d ++ row :: e = (d ++ [row]) ++ e := by
      rw [List.append_assoc, List.singleton_append]
    have hnew : row.1 ∉ d.keys := by
      rw [keys, List.map_append, List.map_cons, List.nodup_append] at h
      exact fun hmem => h.2.2 row.1 hmem row.1 (List.mem_cons_self ..) rfl
    rw [update_cons, set_of_notMem hnew, hsplit]
    exact ih (hsplit ▸ h)

end Dict
