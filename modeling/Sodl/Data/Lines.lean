import Mathlib.Data.List.Basic
import Mathlib.Data.Nat.Notation

/-!
# Texts and their lines

A text that is written piece by piece, each piece ended by a separator, can be read back
only as far as its lines go: what is known of it is the list of the lines of the pieces,
one after the other, and a cut between two lines is as good as any other. Here `List.splitOn`
takes a text to its lines.

* `Lines.splitOn_injective`: the lines determine the text;
* `Lines.not_mem_of_mem_splitOn` and `Lines.exists_splitOn`: what can be the lines of a text.
-/

namespace Lines

variable {β : Type} [DecidableEq β] {sep : β}

/-- A text is told by its lines. -/
theorem splitOn_injective (sep : β) : Function.Injective (List.splitOn sep) := by
  intro s t h
  calc s = [sep].intercalate (s.splitOn sep) := (List.intercalate_splitOn sep).symm
    _ = [sep].intercalate (t.splitOn sep) := congrArg _ h
    _ = t := List.intercalate_splitOn sep

/-- No line contains the separator. -/
theorem not_mem_of_mem_splitOn {s l : List β} (hl : l ∈ s.splitOn sep) : sep ∉ l := by
  induction s generalizing l with
  | nil =>
    rw [List.splitOn_nil] at hl
    obtain rfl := List.mem_singleton.mp hl
    exact List.not_mem_nil
  | cons a s ih =>
    rw [List.splitOn_cons_eq_if_modifyHead] at hl
    split at hl
    · rcases List.mem_cons.mp hl with rfl | hl
      · exact List.not_mem_nil
      · exact ih hl
    · rename_i hne
      rcases hs : s.splitOn sep with _ | ⟨l₀, ls⟩
      · exact absurd hs (List.splitOn_ne_nil sep s)
      · rw [hs] at ih hl
        rcases List.mem_cons.mp hl with rfl | hl
        · intro hmem
          rcases List.mem_cons.mp hmem with rfl | hmem
          · exact hne (by simp)
          · exact ih (List.mem_cons_self ..) hmem
        · exact ih (List.mem_cons_of_mem _ hl)

/-- Some lines, none of which contains the separator, are the lines of a text. -/
theorem exists_splitOn {ls : List (List β)} (hne : ls ≠ []) (h : ∀ l ∈ ls, sep ∉ l) :
    ∃ s : List β, s.splitOn sep = ls :=
  ⟨_, List.splitOn_intercalate sep h hne⟩

/-- A text is cut at its first separator in one way. -/
theorem append_cons_inj {a a' b b' : List β} (ha : sep ∉ a) (ha' : sep ∉ a')
    (h : a ++ sep :: b = a' ++ sep :: b') : a = a' ∧ b = b' := by
  have hlines := congrArg (List.splitOn sep) h
  rw [List.splitOn_append_cons_self_of_not_mem ha, List.splitOn_append_cons_self_of_not_mem ha']
    at hlines
  exact ⟨(List.cons.inj hlines).1, splitOn_injective sep (List.cons.inj hlines).2⟩

end Lines
