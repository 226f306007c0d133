import Mathlib.Data.List.Basic

/-!
# Records of one size, back to back

Values that are each written in `size` symbols stand behind each other without a mark between
them. `Records.slice` is the part of a list between two positions, and `Records.records` cuts a
part into its records.

Whoever takes such a list apart may come upon a part that cannot be read; what is read in the end
is then known to have been read part by part (`Except.bind_eq_ok_iff`).
-/

/-- One reading after another succeeds exactly if both do, the second with what the first has
found. -/
theorem Except.bind_eq_ok_iff {ε α β : Type} {o : Except ε α} {f : α → Except ε β} {b : β} :
    (o >>= f) = .ok b ↔ ∃ a, o = .ok a ∧ f a = .ok b := by
  constructor
  · intro h
    cases o with
    | error e => exact absurd h nofun
    | ok a => exact ⟨a, rfl, h⟩
  · rintro ⟨a, rfl, h⟩
    exact h

namespace Records

variable {α β : Type}

/-- The entries from a position up to another one. -/
def slice (l : List β) (start stop : ℕ) : List β := (l.take stop).drop start

/-- Cut the first `n` records of a size off the front. -/
def records (size : ℕ) : ℕ → List β → List (List β)
  | 0, _ => []
  | n + 1, l => l.take size :: records size n (l.drop size)

/-- A part is found between the lengths of what comes before it and of both. -/
theorem slice_append {l part rest : List β} {start stop : ℕ} (hstart : l.length = start)
    (hstop : start + part.length = stop) : slice (l ++ (part ++ rest)) start stop = part := by
  subst hstart hstop
  rw [slice, List.take_append, List.take_of_length_le (Nat.le_add_right _ _),
    Nat.add_sub_cancel_left, List.take_left, List.drop_left]

@[simp] theorem length_records (size n : ℕ) (l : List β) : (records size n l).length = n := by
  induction n generalizing l with
  | zero => rfl
  | succ n ih => rw [records, List.length_cons, ih]

/-- **What was written record by record is cut into these records.** -/
theorem records_flatMap {size : ℕ} {f : α → List β} {l : List α}
    (hsize : ∀ a ∈ l, (f a).length = size) :
    records size l.length (l.flatMap f) = l.map f := by
  induction l with
  | nil => rfl
  | cons a l ih =>
    have ha := hsize a (List.mem_cons_self ..)
    rw [List.length_cons, List.flatMap_cons, records, List.take_left' ha, List.drop_left' ha,
      ih fun b hb => hsize b (List.mem_cons_of_mem _ hb), List.map_cons]

theorem length_flatMap_of_forall {size : ℕ} {f : α → List β} {l : List α}
    (hsize : ∀ a ∈ l, (f a).length = size) :
    (l.flatMap f).length = l.length * size := by
  induction l with
  | nil => exact (Nat.zero_mul size).symm
  | cons a l ih =>
    rw [List.flatMap_cons, List.length_append, hsize a (List.mem_cons_self ..),
      ih fun b hb => hsize b (List.mem_cons_of_mem _ hb), List.length_cons, Nat.succ_mul,
      Nat.add_comm]

/-- Rows of one length are cut out of their concatenation. -/
theorem records_flatten {size : ℕ} {rows : List (List β)}
    (hsize : ∀ row ∈ rows, row.length = size) :
    records size rows.length rows.flatten = rows := by
  have h := records_flatMap (f := id) hsize
  rwa [List.map_id, List.flatMap_id] at h

end Records
