import Mathlib.Data.List.Chain
import Mathlib.Data.List.Nodup
import Mathlib.Data.List.Perm.Subperm
import Mathlib.Order.Basic

/-!
# Going up

From an element to the next one above it, as long as there is one (`Ascent.ascend`). A way up that
ends is a chain, from an element that has nothing above it down to the one it started from. It
goes through no element twice, whatever is above what: the way up from an element is the same each
time (`Ascent.nodup`). So it takes no more turns than there are elements.

It ends if each element has a number, which goes down on the way up (`Ascent.ends`). An element
need not have one number only.
-/

namespace Ascent

variable {α : Type} (above : α → Option α)

/-- The way up from an element, its end first, if it takes at most so many turns. -/
def ascend : ℕ → α → Option (List α)
  | 0, _ => none
  | fuel + 1, a =>
    match above a with
    | none => some [a]
    | some b => (ascend fuel b).map fun way => way ++ [a]

variable {above} {fuel fuel' : ℕ} {a b : α} {way : List α}

theorem ascend_succ : ascend above (fuel + 1) a =
    match above a with
    | none => some [a]
    | some b => (ascend above fuel b).map fun way => way ++ [a] := rfl

/-- **A way up is one turn**, or leads to the next element and up from there. -/
theorem ascend_succ_eq_some_iff :
    ascend above (fuel + 1) a = some way ↔ (above a = none ∧ way = [a]) ∨
      ∃ b rest, above a = some b ∧ ascend above fuel b = some rest ∧ way = rest ++ [a] := by
  rw [ascend_succ]
  constructor
  · intro h
    cases hb : above a with
    | none =>
      rw [hb] at h
      exact Or.inl ⟨rfl, (Option.some.inj h).symm⟩
    | some b =>
      rw [hb] at h
      obtain ⟨rest, hrest, rfl⟩ := Option.map_eq_some_iff.mp h
      exact Or.inr ⟨b, rest, rfl, hrest, rfl⟩
  · rintro (⟨hnone, rfl⟩ | ⟨b, rest, hb, hrest, rfl⟩)
    · rw [hnone]
    · rw [hb]
      exact Option.map_eq_some_iff.mpr ⟨rest, hrest, rfl⟩

theorem getLast?_eq (h : ascend above fuel a = some way) : way.getLast? = some a := by
  cases fuel with
  | zero => exact absurd h nofun
  | succ fuel =>
    rcases ascend_succ_eq_some_iff.mp h with ⟨-, rfl⟩ | ⟨b, rest, -, -, rfl⟩
    · rfl
    · exact List.getLast?_concat

theorem length_pos (h : ascend above fuel a = some way) : 0 < way.length := by
  cases way with
  | nil => exact absurd (getLast?_eq h) nofun
  | cons b way => exact Nat.succ_pos _

theorem length_le_fuel (h : ascend above fuel a = some way) : way.length ≤ fuel := by
  induction fuel generalizing a way with
  | zero => exact absurd h nofun
  | succ fuel ih =>
    rcases ascend_succ_eq_some_iff.mp h with ⟨-, rfl⟩ | ⟨b, rest, -, hrest, rfl⟩
    · exact Nat.succ_le_succ (Nat.zero_le fuel)
    · rw [List.length_append]
      exact Nat.succ_le_succ (ih hrest)

/-- A way takes as many turns as it is long. -/
theorem of_length_le (h : ascend above fuel a = some way) (hle : way.length ≤ fuel') :
    ascend above fuel' a = some way := by
  induction fuel generalizing a way fuel' with
  | zero => exact absurd h nofun
  | succ fuel ih =>
    rcases fuel' with _ | fuel'
    · exact absurd (length_pos h) (Nat.not_lt.mpr hle)
    · refine ascend_succ_eq_some_iff.mpr ?_
      rcases ascend_succ_eq_some_iff.mp h with hend | ⟨b, rest, hb, hrest, rfl⟩
      · exact Or.inl hend
      · rw [List.length_append, List.length_singleton] at hle
        exact Or.inr ⟨b, rest, hb, ih hrest (Nat.le_of_succ_le_succ hle), rfl⟩

/-- **The way up is one**, however many turns it may take. -/
theorem unique {way' : List α} (h : ascend above fuel a = some way)
    (h' : ascend above fuel' a = some way') : way = way' := by
  have hmax := of_length_le h (Nat.le_max_left way.length way'.length)
  have hmax' := of_length_le h' (Nat.le_max_right way.length way'.length)
  exact Option.some.inj (hmax.symm.trans hmax')

/-- From an element of a way on, it is the way up from there. -/
theorem exists_prefix (h : ascend above fuel a = some way) (hb : b ∈ way) :
    ∃ way', ascend above fuel b = some way' ∧ way' <+: way := by
  induction fuel generalizing a way with
  | zero => exact absurd h nofun
  | succ fuel ih =>
    rcases ascend_succ_eq_some_iff.mp h with ⟨-, rfl⟩ | ⟨c, rest, -, hrest, rfl⟩
    · obtain rfl := List.mem_singleton.mp hb
      exact ⟨[b], h, List.prefix_rfl⟩
    · rcases List.mem_append.mp hb with hb | hb
      · obtain ⟨way', hway', hprefix⟩ := ih hrest hb
        have hfuel := (length_le_fuel hway').trans (Nat.le_succ fuel)
        exact ⟨way', of_length_le hway' hfuel, hprefix.trans (List.prefix_append rest [a])⟩
      · obtain rfl := List.mem_singleton.mp hb
        exact ⟨rest ++ [b], h, List.prefix_rfl⟩

/-- **No element comes twice.** Its way up would be a part of itself. -/
theorem nodup (h : ascend above fuel a = some way) : way.Nodup := by
  induction fuel generalizing a way with
  | zero => exact absurd h nofun
  | succ fuel ih =>
    rcases ascend_succ_eq_some_iff.mp h with ⟨-, rfl⟩ | ⟨b, rest, hb, hrest, rfl⟩
    · exact List.nodup_singleton a
    · refine List.Nodup.append (ih hrest) (List.nodup_singleton a) fun c hc hca => ?_
      obtain rfl := List.mem_singleton.mp hca
      obtain ⟨way', hway', hprefix⟩ := exists_prefix hrest hc
      obtain rfl := unique hway' h
      have hle := hprefix.length_le
      rw [List.length_append, List.length_singleton] at hle
      exact absurd hle (Nat.not_succ_le_self rest.length)

/-- Each element is what is above the one after it. -/
theorem isChain (h : ascend above fuel a = some way) :
    way.IsChain fun b a => above a = some b := by
  induction fuel generalizing a way with
  | zero => exact absurd h nofun
  | succ fuel ih =>
    rcases ascend_succ_eq_some_iff.mp h with ⟨-, rfl⟩ | ⟨b, rest, hb, hrest, rfl⟩
    · exact List.isChain_singleton a
    · refine List.isChain_append.mpr ⟨ih hrest, List.isChain_singleton a, ?_⟩
      intro c hc d hd
      obtain rfl := Option.some.inj hd
      obtain rfl := Option.some.inj ((getLast?_eq hrest).symm.trans hc)
      exact hb

/-- Nothing is above the first element. -/
theorem above_head?_eq_none (h : ascend above fuel a = some way) :
    ∀ b, way.head? = some b → above b = none := by
  induction fuel generalizing a way with
  | zero => exact absurd h nofun
  | succ fuel ih =>
    intro b hb
    rcases ascend_succ_eq_some_iff.mp h with ⟨hnone, rfl⟩ | ⟨c, rest, -, hrest, rfl⟩
    · obtain rfl := Option.some.inj hb
      exact hnone
    · refine ih hrest b ?_
      cases rest with
      | nil => exact absurd (length_pos hrest) (Nat.lt_irrefl 0)
      | cons d rest => exact hb

/-- A way leads through elements of a set that it does not leave. -/
theorem subset {p : α → Prop} (hp : ∀ a b, above a = some b → p b) (ha : p a)
    (h : ascend above fuel a = some way) : ∀ b ∈ way, p b := by
  induction fuel generalizing a way with
  | zero => exact absurd h nofun
  | succ fuel ih =>
    rcases ascend_succ_eq_some_iff.mp h with ⟨-, rfl⟩ | ⟨c, rest, hc, hrest, rfl⟩
    · exact List.forall_mem_singleton.mpr ha
    · exact List.forall_mem_append.mpr ⟨ih (hp a c hc) hrest, List.forall_mem_singleton.mpr ha⟩

variable (above) in
/-- **A way up ends** if the numbers of the elements go down on it. -/
theorem ends (number : α → ℕ → Prop)
    (hdown : ∀ a n, number a n → ∀ b, above a = some b → ∃ m < n, number b m) {n : ℕ}
    (ha : number a n) : ∃ fuel way, ascend above fuel a = some way := by
  induction n using Nat.strong_induction_on generalizing a with
  | _ n ih =>
    cases hb : above a with
    | none => exact ⟨1, [a], ascend_succ_eq_some_iff.mpr (Or.inl ⟨hb, rfl⟩)⟩
    | some b =>
      obtain ⟨m, hm, hnumber⟩ := hdown a n ha b hb
      obtain ⟨fuel, way, hway⟩ := ih m hm hnumber
      exact ⟨fuel + 1, way ++ [a], ascend_succ_eq_some_iff.mpr (Or.inr ⟨b, way, hb, hway, rfl⟩)⟩

/-- Where the elements are those of a list, as many turns are enough. -/
theorem ascend_of_length_le {l : List α} (hl : ∀ a b, above a = some b → b ∈ l) (ha : a ∈ l)
    (h : ascend above fuel a = some way) (hle : l.length ≤ fuel') :
    ascend above fuel' a = some way := by
  have hsub : way.Subperm l := (nodup h).subperm (subset hl ha h)
  exact of_length_le h (hsub.length_le.trans hle)

end Ascent
