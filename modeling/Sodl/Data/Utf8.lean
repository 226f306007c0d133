import Mathlib.Data.Char
import Mathlib.Data.List.Lex
import Mathlib.Order.Lattice

/-!
# Texts and their bytes, in order

Some languages compare texts character by character, by code point, and others byte by byte, in
UTF-8. It is the same order: of two characters the smaller one has the smaller encoding, and the
two encodings differ at a byte that both have, so that what follows them does not matter.

* `Encoding.Separates` is that property of an encoding of symbols by lists;
* `Encoding.flatMap_lt_iff` is what it gives for whole texts;
* `Encoding.separates_utf8` is that UTF-8 has it.
-/

namespace Encoding

variable {α β : Type}

/-- A smaller symbol has an encoding that is smaller whatever comes behind. -/
def Separates [LT α] [LT β] (enc : α → List β) : Prop :=
  ∀ a b, a < b → ∀ xs ys, enc a ++ xs < enc b ++ ys

theorem append_lt_append_left [LT β] (xs : List β) {ys zs : List β} (h : ys < zs) :
    xs ++ ys < xs ++ zs := by
  induction xs with
  | nil => exact h
  | cons x xs ih => exact List.Lex.cons ih

/-- A separating encoding keeps the order of texts. -/
theorem flatMap_lt [LT α] [LT β] {enc : α → List β} (henc : Separates enc)
    (hne : ∀ a, enc a ≠ []) {as bs : List α} (h : as < bs) :
    as.flatMap enc < bs.flatMap enc := by
  induction h with
  | nil =>
    rename_i b bs
    rw [List.flatMap_nil, List.flatMap_cons]
    cases hb : enc b with
    | nil => exact absurd hb (hne b)
    | cons y ys => exact List.Lex.nil
  | cons _ ih =>
    rw [List.flatMap_cons, List.flatMap_cons]
    exact append_lt_append_left _ ih
  | rel hab =>
    rw [List.flatMap_cons, List.flatMap_cons]
    exact henc _ _ hab _ _

/-- Texts compare as their encodings do. -/
theorem flatMap_lt_iff [LinearOrder α] [LT β] [Std.Asymm (· < · : β → β → Prop)]
    {enc : α → List β} (henc : Separates enc) (hne : ∀ a, enc a ≠ []) {as bs : List α} :
    as.flatMap enc < bs.flatMap enc ↔ as < bs := by
  refine ⟨fun h => ?_, flatMap_lt henc hne⟩
  rcases lt_trichotomy as bs with hlt | heq | hgt
  · exact hlt
  · subst heq
    exact absurd h (List.lt_asymm h)
  · exact absurd h (List.lt_asymm (flatMap_lt henc hne hgt))

/-! ### UTF-8 -/

theorem ofNat_cons_lt_iff {m n : ℕ} (hm : m < 256) (hn : n < 256) (xs ys : List UInt8) :
    UInt8.ofNat m :: xs < UInt8.ofNat n :: ys ↔ m < n ∨ m = n ∧ xs < ys := by
  rw [List.cons_lt_cons_iff, UInt8.lt_iff_toNat_lt, ← UInt8.toNat_inj, UInt8.toNat_ofNat',
    UInt8.toNat_ofNat', Nat.mod_eq_of_lt hm, Nat.mod_eq_of_lt hn]

instance asymm_uint8 : Std.Asymm (· < · : UInt8 → UInt8 → Prop) := ⟨fun _ _ => UInt8.lt_asymm⟩

/-- **UTF-8 separates characters**: the lead byte grows with the length of the encoding, and within
a length the digits do. -/
theorem separates_utf8 : Separates String.utf8EncodeChar := by
  intro c d hcd xs ys
  have hcd : c.val.toNat < d.val.toNat := hcd
  have hd : d.val.toNat < 1114112 := by
    rcases d.valid with h | h
    · exact Nat.lt_trans h (by decide)
    · exact h.2
  unfold String.utf8EncodeChar
  dsimp only
  generalize c.val.toNat = m at hcd ⊢
  generalize d.val.toNat = n at hcd hd ⊢
  -- the first digit in base 64 that differs
  have h1 : m / 64 < n / 64 ∨ m / 64 = n / 64 ∧ m % 64 < n % 64 := by omega
  have h2 : m / 64 < n / 64 →
      m / 4096 < n / 4096 ∨ m / 4096 = n / 4096 ∧ m / 64 % 64 < n / 64 % 64 := by omega
  have h3 : m / 4096 < n / 4096 → m / 262144 < n / 262144 ∨
      m / 262144 = n / 262144 ∧ m / 4096 % 64 < n / 4096 % 64 := by omega
  have hm8 : m / 262144 % 8 = m / 262144 := Nat.mod_eq_of_lt (by omega)
  have hn8 : n / 262144 % 8 = n / 262144 := Nat.mod_eq_of_lt (by omega)
  -- the lengths of the two encodings
  split_ifs <;>
    simp (disch := omega) only [hm8, hn8, List.cons_append, List.nil_append,
      ofNat_cons_lt_iff] <;> omega

/-- Texts compare by code point as their bytes in UTF-8 do. -/
theorem utf8_lt_iff {as bs : List Char} :
    as.flatMap String.utf8EncodeChar < bs.flatMap String.utf8EncodeChar ↔ as < bs := by
  have hne : ∀ c : Char, String.utf8EncodeChar c ≠ [] := fun _ => String.utf8EncodeChar_ne_nil
  exact flatMap_lt_iff separates_utf8 hne

end Encoding
