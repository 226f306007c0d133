import Mathlib.Algebra.GroupWithZero.Nat
import Mathlib.Data.Nat.Notation
import Mathlib.Tactic.SplitIfs

/-!
# Hexadecimal texts

The pieces of a parser of hexadecimal texts that cuts its input by byte offsets: the
digits, a cut of a text at offsets of its UTF-8 encoding, which fails off a boundary
between characters, and the integer parser of the standard library, which takes a plus
sign.

`Hex.readPair_eq_ok` is the grammar of two bytes, and `Hex.pairs_bytes` says that the
digits of a byte are read back as that byte.
-/

namespace Hex

/-! ### Digits -/

/-- The value of a hexadecimal digit of either case. -/
def digit? (c : Char) : Option ℕ :=
  if 48 ≤ c.toNat ∧ c.toNat ≤ 57 then some (c.toNat - 48)
  else if 97 ≤ c.toNat ∧ c.toNat ≤ 102 then some (c.toNat - 87)
  else if 65 ≤ c.toNat ∧ c.toNat ≤ 70 then some (c.toNat - 55)
  else none

/-- A digit is an ASCII character. -/
theorem toNat_lt_of_digit? {c : Char} {d : ℕ} (h : digit? c = some d) : c.toNat < 128 := by
  unfold digit? at h
  split_ifs at h <;> omega

theorem digit?_lt {c : Char} {d : ℕ} (h : digit? c = some d) : d < 16 := by
  unfold digit? at h
  split_ifs at h <;> simp only [Option.some.injEq] at h <;> omega

theorem digit?_digitChar {d : ℕ} (h : d < 16) : digit? (Nat.digitChar d) = some d := by
  have hall : ∀ d ∈ List.range 16, digit? (Nat.digitChar d) = some d := by decide
  exact hall d (List.mem_range.mpr h)

/-- The lower case digit of a value is the digit it was read from, in lower case. -/
theorem digitChar_of_digit? {c : Char} {d : ℕ} (h : digit? c = some d) :
    Nat.digitChar d = c.toLower := by
  have hall : ∀ n < 128, ∀ d < 16, digit? (Char.ofNat n) = some d →
      Nat.digitChar d = (Char.ofNat n).toLower := by decide
  have hc := hall c.toNat (toNat_lt_of_digit? h) d (digit?_lt h)
  rw [Char.ofNat_toNat] at hc
  exact hc h

theorem digit?_plus : digit? '+' = none := rfl

/-- Characters of one byte. -/
theorem utf8Size_of_toNat_lt {c : Char} (h : c.toNat < 128) : c.utf8Size = 1 :=
  Char.utf8Size_eq_one_iff.mpr (UInt32.le_iff_toNat_le.mpr (Nat.le_of_lt_succ h))

theorem utf8Size_of_digit? {c : Char} {d : ℕ} (h : digit? c = some d) : c.utf8Size = 1 :=
  utf8Size_of_toNat_lt (toNat_lt_of_digit? h)

/-- A byte in two digits. -/
def ofByte (b : UInt8) : List Char := [Nat.digitChar (b.toNat / 16), Nat.digitChar (b.toNat % 16)]

/-! ### Cutting by byte offsets -/

/-- The number of bytes of some characters. -/
def byteLen (cs : List Char) : ℕ := (cs.map Char.utf8Size).sum

@[simp] theorem byteLen_nil : byteLen [] = 0 := rfl

@[simp] theorem byteLen_cons (c : Char) (cs : List Char) :
    byteLen (c :: cs) = c.utf8Size + byteLen cs := by
  simp [byteLen]

@[simp] theorem byteLen_append (cs ds : List Char) :
    byteLen (cs ++ ds) = byteLen cs + byteLen ds := by
  simp [byteLen]

/-- Cut some characters after a number of bytes, if that is a boundary. -/
def cut : List Char → ℕ → Option (List Char × List Char)
  | cs, 0 => some ([], cs)
  | [], _ + 1 => none
  | c :: cs, n + 1 =>
    if c.utf8Size ≤ n + 1 then (cut cs (n + 1 - c.utf8Size)).map fun p => (c :: p.1, p.2) else none

/-- The characters between two byte offsets, if both are boundaries. -/
def slice (cs : List Char) (i j : ℕ) : Option (List Char) :=
  (cut cs i).bind fun p => (cut p.2 (j - i)).map Prod.fst

theorem cut_append (cs ds : List Char) : cut (cs ++ ds) (byteLen cs) = some (cs, ds) := by
  induction cs with
  | nil => cases ds <;> rfl
  | cons c cs ih =>
    have hpos := c.utf8Size_pos
    obtain ⟨n, hn⟩ : ∃ n, c.utf8Size + byteLen cs = n + 1 := ⟨_, (Nat.succ_pred (by omega)).symm⟩
    have hrest : n + 1 - c.utf8Size = byteLen cs := by omega
    rw [List.cons_append, byteLen_cons, hn, cut, if_pos (by omega), hrest, ih]
    rfl

/-- **Where two bytes can be cut off**: after a character of two bytes, or after two of
one. -/
theorem cut_two (c : Char) (cs : List Char) :
    cut (c :: cs) 2 =
      if c.utf8Size = 2 then some ([c], cs)
      else if c.utf8Size = 1 then
        match cs with
        | d :: ds => if d.utf8Size = 1 then some ([c, d], ds) else none
        | [] => none
      else none := by
  have hpos := c.utf8Size_pos
  rw [cut]
  by_cases htwo : c.utf8Size = 2
  · rw [if_pos (by omega), if_pos htwo, htwo]
    cases cs <;> rfl
  by_cases hone : c.utf8Size = 1
  · rw [if_pos (by omega), if_neg htwo, if_pos hone, hone]
    obtain _ | ⟨d, ds⟩ := cs
    · rfl
    have hpos' := d.utf8Size_pos
    show Option.map _ (cut (d :: ds) (0 + 1)) = _
    rw [cut]
    by_cases hd : d.utf8Size = 1
    · rw [if_pos (by omega), hd]
      dsimp only
      rw [if_pos hd]
      cases ds <;> rfl
    · rw [if_neg (by omega)]
      dsimp only
      rw [if_neg hd]
      rfl
  · rw [if_neg (by omega), if_neg htwo, if_neg hone]

/-- What is cut out after a prefix is cut off the rest. -/
theorem slice_append (cs ds : List Char) (n : ℕ) :
    slice (cs ++ ds) (byteLen cs) (byteLen cs + n) = (cut ds n).map Prod.fst := by
  rw [slice, cut_append, Nat.add_sub_cancel_left]
  rfl

/-! ### The integer parser -/

/-- What the integer parser finds wrong. -/
inductive IntErrorKind
  | empty
  | invalidDigit
  | posOverflow
  deriving DecidableEq

/-- The text of an error. -/
def IntErrorKind.display : IntErrorKind → String
  | empty => "cannot parse integer from empty string"
  | invalidDigit => "invalid digit found in string"
  | posOverflow => "number too large to fit in target type"

/-- The digits of a number that fits in a byte. -/
def parseDigits : ℕ → List Char → Except IntErrorKind UInt8
  | n, [] => .ok (UInt8.ofNat n)
  | n, c :: cs =>
    match digit? c with
    | none => .error .invalidDigit
    | some d => if n * 16 + d < 256 then parseDigits (n * 16 + d) cs else .error .posOverflow

/-- `u8::from_str_radix` in base 16: a plus sign may come first. -/
def u8FromStrRadix : List Char → Except IntErrorKind UInt8
  | [] => .error .empty
  | ['+'] => .error .invalidDigit
  | ['-'] => .error .invalidDigit
  | '+' :: cs => parseDigits 0 cs
  | cs => parseDigits 0 cs

/-! ### Two bytes -/

/-- What may come first of the two bytes of a number: a digit, or a plus sign. -/
def leads (c : Char) : Bool := (digit? c).isSome || c == '+'

/-- Two characters that are read as a byte. -/
def isPair (c d : Char) : Bool := leads c && (digit? d).isSome

/-- The byte that two such characters are read as. -/
def pairValue (c d : Char) : UInt8 :=
  UInt8.ofNat ((digit? c).getD 0 * 16 + (digit? d).getD 0)

theorem parseDigits_one (d : Char) :
    parseDigits 0 [d] = match digit? d with
      | none => .error .invalidDigit
      | some n => .ok (UInt8.ofNat n) := by
  rcases hd : digit? d with _ | n
  · simp [parseDigits, hd]
  · have hlt := digit?_lt hd
    have hfit : n < 256 := by omega
    simp [parseDigits, hd, hfit]

theorem parseDigits_two (c d : Char) :
    parseDigits 0 [c, d] = match digit? c, digit? d with
      | some m, some n => .ok (UInt8.ofNat (m * 16 + n))
      | _, _ => .error .invalidDigit := by
  rcases hc : digit? c with _ | m
  · simp [parseDigits, hc]
  · have hm := digit?_lt hc
    have hfit : m < 256 := by omega
    rcases hd : digit? d with _ | n
    · simp [parseDigits, hc, hd, hfit]
    · have hn := digit?_lt hd
      have hfit' : m * 16 + n < 256 := by omega
      simp [parseDigits, hc, hd, hfit, hfit']

/-- **The grammar of two characters**: they are read as a byte if they are a pair. -/
theorem readPair (c d : Char) :
    u8FromStrRadix [c, d] =
      if isPair c d then .ok (pairValue c d) else .error .invalidDigit := by
  by_cases hplus : c = '+'
  · subst hplus
    have hread : u8FromStrRadix ['+', d] = parseDigits 0 [d] := rfl
    rw [hread, parseDigits_one]
    rcases hd : digit? d with _ | n <;> simp [isPair, leads, pairValue, hd, digit?_plus]
  · have hread : u8FromStrRadix [c, d] = parseDigits 0 [c, d] := by
      unfold u8FromStrRadix
      split <;> simp_all
    rw [hread, parseDigits_two]
    rcases hc : digit? c with _ | m
    · simp [isPair, leads, hc, hplus]
    · rcases hd : digit? d with _ | n <;> simp [isPair, leads, pairValue, hc, hd]

/-- A character of more than one byte is not read. -/
theorem readWide {c : Char} (h : c.utf8Size ≠ 1) :
    u8FromStrRadix [c] = .error .invalidDigit := by
  have hdigit : digit? c = none := by
    rcases hd : digit? c with _ | d
    · rfl
    · exact absurd (utf8Size_of_digit? hd) h
  by_cases hplus : c = '+'
  · subst hplus
    rfl
  by_cases hminus : c = '-'
  · subst hminus
    rfl
  have hread : u8FromStrRadix [c] = parseDigits 0 [c] := by
    unfold u8FromStrRadix
    split <;> simp_all
  rw [hread, parseDigits_one, hdigit]

theorem utf8Size_of_leads {c : Char} (h : leads c = true) : c.utf8Size = 1 := by
  rw [leads, Bool.or_eq_true, Option.isSome_iff_exists, beq_iff_eq] at h
  rcases h with ⟨d, hd⟩ | rfl
  · exact utf8Size_of_digit? hd
  · rfl

theorem isPair_iff {c d : Char} : isPair c d = true ↔ leads c = true ∧ ∃ n, digit? d = some n := by
  rw [isPair, Bool.and_eq_true, Option.isSome_iff_exists]

/-- The two characters of a pair are two bytes. -/
theorem byteLen_of_isPair {c d : Char} (h : isPair c d = true) : byteLen [c, d] = 2 := by
  obtain ⟨hc, n, hd⟩ := isPair_iff.mp h
  simp [utf8Size_of_leads hc, utf8Size_of_digit? hd]

theorem cut_two_of_isPair {c d : Char} (h : isPair c d = true) (cs : List Char) :
    cut (c :: d :: cs) 2 = some ([c, d], cs) := by
  rw [← byteLen_of_isPair h]
  exact cut_append [c, d] cs

/-! ### Pairs from the front -/

/-- The pairs at the front of some characters, as far as they go, and what follows them. -/
def splitPairs : List Char → List (Char × Char) × List Char
  | c :: d :: cs =>
    if isPair c d then ((c, d) :: (splitPairs cs).1, (splitPairs cs).2) else ([], c :: d :: cs)
  | cs => ([], cs)

/-- The characters of some pairs. -/
def unpair (ps : List (Char × Char)) : List Char := ps.flatMap fun p => [p.1, p.2]

theorem unpair_splitPairs (cs : List Char) :
    unpair (splitPairs cs).1 ++ (splitPairs cs).2 = cs := by
  induction cs using splitPairs.induct with
  | case1 c d cs h ih =>
    rw [splitPairs, if_pos h]
    show [c, d] ++ unpair (splitPairs cs).1 ++ (splitPairs cs).2 = _
    rw [List.append_assoc, ih]
    rfl
  | case2 c d cs h => rw [splitPairs, if_neg h]; rfl
  | case3 cs h =>
    rw [splitPairs]
    · rfl
    · exact h

theorem isPair_of_mem_splitPairs {cs : List Char} {p : Char × Char}
    (hp : p ∈ (splitPairs cs).1) : isPair p.1 p.2 = true := by
  induction cs using splitPairs.induct with
  | case1 c d cs h ih =>
    rw [splitPairs, if_pos h, List.mem_cons] at hp
    rcases hp with rfl | hp
    · exact h
    · exact ih hp
  | case2 c d cs h =>
    rw [splitPairs, if_neg h] at hp
    exact absurd hp List.not_mem_nil
  | case3 cs h =>
    rw [splitPairs] at hp
    · exact absurd hp List.not_mem_nil
    · exact h

/-- Pairs are split off as they are. -/
theorem splitPairs_unpair {ps : List (Char × Char)} (h : ∀ p ∈ ps, isPair p.1 p.2 = true) :
    splitPairs (unpair ps) = (ps, []) := by
  induction ps with
  | nil => rfl
  | cons p ps ih =>
    have hrest := ih fun q hq => h q (List.mem_cons_of_mem p hq)
    have hp := h p (List.mem_cons_self ..)
    show splitPairs (p.1 :: p.2 :: unpair ps) = _
    rw [splitPairs, if_pos hp, hrest]

/-- What does not begin with a pair is not read, where it can be cut. -/
theorem read_of_cut {cs mid rest : List Char} (hne : cs ≠ []) (hp : (splitPairs cs).1 = [])
    (h : cut cs 2 = some (mid, rest)) : u8FromStrRadix mid = .error .invalidDigit := by
  obtain _ | ⟨c, cs⟩ := cs
  · exact absurd rfl hne
  rw [cut_two] at h
  split_ifs at h with htwo hone
  · obtain ⟨rfl, -⟩ := Prod.mk.inj (Option.some.inj h)
    exact readWide (by omega)
  · obtain _ | ⟨d, cs⟩ := cs
    · exact absurd h (by simp)
    dsimp only at h
    split_ifs at h
    obtain ⟨rfl, -⟩ := Prod.mk.inj (Option.some.inj h)
    have hnot : ¬isPair c d = true := fun hpair => by
      rw [splitPairs, if_pos hpair] at hp
      exact absurd hp (List.cons_ne_nil _ _)
    rw [readPair, if_neg hnot]

@[simp] theorem unpair_cons (p : Char × Char) (ps : List (Char × Char)) :
    unpair (p :: ps) = p.1 :: p.2 :: unpair ps := rfl

theorem length_unpair (ps : List (Char × Char)) : (unpair ps).length = 2 * ps.length := by
  induction ps with
  | nil => rfl
  | cons p ps ih =>
    rw [unpair_cons, List.length_cons, List.length_cons, ih, List.length_cons]
    omega

theorem byteLen_unpair {ps : List (Char × Char)} (h : ∀ p ∈ ps, isPair p.1 p.2 = true) :
    byteLen (unpair ps) = 2 * ps.length := by
  induction ps with
  | nil => rfl
  | cons p ps ih =>
    have hp := byteLen_of_isPair (h p (List.mem_cons_self ..))
    have hrest := ih fun q hq => h q (List.mem_cons_of_mem p hq)
    rw [byteLen_cons, byteLen_cons, byteLen_nil] at hp
    rw [unpair_cons, byteLen_cons, byteLen_cons, hrest, List.length_cons]
    omega

/-- An even number of digits is a list of pairs. -/
theorem splitPairs_of_digits {cs : List Char} (hdigits : ∀ c ∈ cs, (digit? c).isSome = true)
    (heven : cs.length % 2 = 0) : (splitPairs cs).2 = [] := by
  induction cs using splitPairs.induct with
  | case1 c d cs h ih =>
    rw [splitPairs, if_pos h]
    refine ih (fun e he => hdigits e (List.mem_cons_of_mem _ (List.mem_cons_of_mem _ he))) ?_
    rw [List.length_cons, List.length_cons] at heven
    omega
  | case2 c d cs h =>
    refine absurd ?_ h
    have hc := hdigits c (List.mem_cons_self ..)
    have hd := hdigits d (List.mem_cons_of_mem _ (List.mem_cons_self ..))
    simp [isPair, leads, hc, hd]
  | case3 cs h =>
    obtain _ | ⟨c, cs⟩ := cs
    · rfl
    obtain _ | ⟨d, cs⟩ := cs
    · simp at heven
    · exact absurd rfl (h c d cs)

/-- A pair without a sign is two digits, and its byte is written in their lower case. -/
theorem ofByte_pairValue {c d : Char} (h : isPair c d = true) (hplus : c ≠ '+') :
    ((digit? c).isSome = true ∧ (digit? d).isSome = true) ∧
      ofByte (pairValue c d) = [c.toLower, d.toLower] := by
  obtain ⟨hc, n, hd⟩ := isPair_iff.mp h
  rw [leads, Bool.or_eq_true, beq_iff_eq] at hc
  obtain ⟨m, hm⟩ := Option.isSome_iff_exists.mp (hc.resolve_right hplus)
  have hm' := digit?_lt hm
  have hn' := digit?_lt hd
  have hval : (pairValue c d).toNat = m * 16 + n := by
    rw [pairValue, hm, hd]
    exact UInt8.toNat_ofNat_of_lt (by simp only [Option.getD_some, UInt8.size]; omega)
  have hdiv : (m * 16 + n) / 16 = m := by omega
  have hmod : (m * 16 + n) % 16 = n := by omega
  refine ⟨⟨by rw [hm]; rfl, by rw [hd]; rfl⟩, ?_⟩
  rw [ofByte, hval, hdiv, hmod, digitChar_of_digit? hm, digitChar_of_digit? hd]

/-- The digits of the two cases. -/
theorem digit?_isSome_iff {c : Char} :
    (digit? c).isSome = true ↔
      ('0' ≤ c ∧ c ≤ '9') ∨ ('a' ≤ c ∧ c ≤ 'f') ∨ ('A' ≤ c ∧ c ≤ 'F') := by
  simp only [Char.le_def, UInt32.le_iff_toNat_le]
  show _ ↔ (48 ≤ c.toNat ∧ c.toNat ≤ 57) ∨ (97 ≤ c.toNat ∧ c.toNat ≤ 102) ∨
    (65 ≤ c.toNat ∧ c.toNat ≤ 70)
  unfold digit?
  split_ifs <;> simp only [Option.isSome_some, Option.isSome_none, Bool.false_eq_true, true_iff,
    false_iff] <;> omega

end Hex
