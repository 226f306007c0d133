import Mathlib.Data.List.Perm.Basic
import Mathlib.Data.List.Flatten

/-!
# Taking every `n`-th entry

`Stride.stride n k l` are the entries of `l` at the positions `k`, `k + n`, `k + 2 n` and so on.
Beginning at each of the first `n` positions deals a list out among `n` parts
(`Stride.flatten_perm`).
-/

namespace Stride

variable {α : Type}

/-- Pass over `k` entries, and from there on take one and pass over `n - 1`. -/
def stride (n : ℕ) : ℕ → List α → List α
  | _, [] => []
  | 0, x :: l => x :: stride n (n - 1) l
  | k + 1, _ :: l => stride n k l

@[simp] theorem stride_nil (n k : ℕ) : stride n k ([] : List α) = [] := by
  rw [stride]

/-- The parts a list is dealt out into. -/
def parts (n : ℕ) (l : List α) : List (List α) := (List.range n).map fun k => stride n k l

/-- **Every entry is dealt to one part.** -/
theorem flatten_perm {n : ℕ} (hn : 0 < n) (l : List α) : (parts n l).flatten.Perm l := by
  obtain ⟨n, rfl⟩ : ∃ m, n = m + 1 := ⟨n - 1, by omega⟩
  induction l with
  | nil => simp [parts]
  | cons x l ih =>
    -- dealing out `x :: l`, the last part of `l` comes first, and gets `x`
    have hcons : parts (n + 1) (x :: l) =
        (x :: stride (n + 1) n l) :: (List.range n).map fun k => stride (n + 1) k l := by
      rw [parts, List.range_succ_eq_map, List.map_cons, List.map_map]
      rfl
    have hlast : parts (n + 1) l =
        ((List.range n).map fun k => stride (n + 1) k l) ++ [stride (n + 1) n l] := by
      rw [parts, List.range_succ, List.map_append]
      rfl
    rw [hlast, List.flatten_append, List.flatten_singleton] at ih
    rw [hcons, List.flatten_cons, List.cons_append]
    exact List.Perm.cons x (List.perm_append_comm.trans ih)

end Stride
