import Mathlib.Data.List.Sort
import Mathlib.Data.String.Basic
import Mathlib.Tactic.SplitIfs
import Sodl.Data.Dict

/-!
# JSON values and their texts

A JSON value over an arbitrary type of numbers, and the text a compact writer makes of it
that escapes everything but printable ASCII and can sort the fields of an object by their
keys.

* `JsonTree.print_injective` – the text without sorting tells any two values apart;
* `JsonTree.dumps_eq_iff` – the text with sorted keys is that of the value up to the order
  of the fields (`JsonTree.Same`), at every depth, where the keys of each object are
  distinct.

The text of a number is left open: a `JsonTree.NumberFormat` writes each number in one way,
without a character that ends a value and starting like no other kind of value.
-/

/-- A JSON value over a type of numbers. The fields of an object stand in an order. -/
inductive JsonTree (ν : Type)
  | null
  | bool (b : Bool)
  | num (n : ν)
  | str (s : String)
  | arr (items : List (JsonTree ν))
  | obj (fields : List (String × JsonTree ν))

namespace JsonTree

variable {ν : Type}

/-! ### Strings -/

/-- The characters that are escaped by one letter, and the letter. -/
def shortEscape (c : Char) : Option Char :=
  if c = '"' then some '"'
  else if c = '\\' then some '\\'
  else if c = '\n' then some 'n'
  else if c = '\r' then some 'r'
  else if c = '\t' then some 't'
  else if c.toNat = 8 then some 'b'
  else if c.toNat = 12 then some 'f'
  else none

/-- The code units of a character in UTF-16. -/
def utf16 (c : Char) : List ℕ :=
  if c.toNat < 0x10000 then [c.toNat]
  else [0xD800 + (c.toNat - 0x10000) / 0x400, 0xDC00 + (c.toNat - 0x10000) % 0x400]

/-- A code unit in four hexadecimal digits. -/
def unitEscape (n : ℕ) : List Char :=
  ['\\', 'u', Nat.digitChar (n / 0x1000 % 16), Nat.digitChar (n / 0x100 % 16),
    Nat.digitChar (n / 0x10 % 16), Nat.digitChar (n % 16)]

/-- A character as it stands in the text of a string. -/
def escape (c : Char) : List Char :=
  match shortEscape c with
  | some d => ['\\', d]
  | none =>
    if 32 ≤ c.toNat ∧ c.toNat ≤ 126 then [c] else (utf16 c).flatMap unitEscape

/-- A string with its quotes. -/
def printString (s : String) : List Char := '"' :: (s.toList.flatMap escape ++ ['"'])

/-- What the one-letter escapes are. -/
theorem shortEscape_eq_some {c d : Char} (h : shortEscape c = some d) :
    (c, d) = ('"', '"') ∨ (c, d) = ('\\', '\\') ∨ (c, d) = ('\n', 'n') ∨ (c, d) = ('\r', 'r') ∨
      (c, d) = ('\t', 't') ∨ (c, d) = (Char.ofNat 8, 'b') ∨ (c, d) = (Char.ofNat 12, 'f') := by
  unfold shortEscape at h
  have hnum : ∀ {n : ℕ}, c.toNat = n → c = Char.ofNat n := by
    rintro n rfl
    exact (Char.ofNat_toNat c).symm
  split_ifs at h with h1 h2 h3 h4 h5 h6 h7
  · exact Or.inl (by rw [h1, ← Option.some.inj h])
  · exact Or.inr (Or.inl (by rw [h2, ← Option.some.inj h]))
  · exact Or.inr (Or.inr (Or.inl (by rw [h3, ← Option.some.inj h])))
  · exact Or.inr (Or.inr (Or.inr (Or.inl (by rw [h4, ← Option.some.inj h]))))
  · exact Or.inr (Or.inr (Or.inr (Or.inr (Or.inl (by rw [h5, ← Option.some.inj h])))))
  · exact Or.inr (Or.inr (Or.inr (Or.inr (Or.inr (Or.inl (by
      rw [hnum h6, ← Option.some.inj h]))))))
  · exact Or.inr (Or.inr (Or.inr (Or.inr (Or.inr (Or.inr (by
      rw [hnum h7, ← Option.some.inj h]))))))

theorem shortEscape_injective {c c' d : Char} (h : shortEscape c = some d)
    (h' : shortEscape c' = some d) : c = c' := by
  rcases shortEscape_eq_some h with h | h | h | h | h | h | h <;>
    rcases shortEscape_eq_some h' with h' | h' | h' | h' | h' | h' | h' <;>
      obtain ⟨rfl, rfl⟩ := Prod.mk.inj h <;> obtain ⟨rfl, hd⟩ := Prod.mk.inj h' <;>
        first
          | rfl
          | exact absurd hd (by decide)

/-- No one-letter escape is the letter of a code unit. -/
theorem shortEscape_ne_u (c : Char) : shortEscape c ≠ some 'u' := by
  intro h
  rcases shortEscape_eq_some h with h | h | h | h | h | h | h <;>
    exact absurd (Prod.mk.inj h).2 (by decide)

/-- **The ways a character is written**: by a letter, by itself, or by its code units. -/
theorem escape_cases (c : Char) :
    (∃ d, shortEscape c = some d ∧ escape c = ['\\', d]) ∨
      (c ≠ '"' ∧ c ≠ '\\' ∧ escape c = [c]) ∨ escape c = (utf16 c).flatMap unitEscape := by
  unfold escape
  cases hc : shortEscape c with
  | some d => exact Or.inl ⟨d, rfl, rfl⟩
  | none =>
    have hq : c ≠ '"' := by rintro rfl; exact absurd hc (by decide)
    have hb : c ≠ '\\' := by rintro rfl; exact absurd hc (by decide)
    by_cases hp : 32 ≤ c.toNat ∧ c.toNat ≤ 126
    · exact Or.inr (Or.inl ⟨hq, hb, if_pos hp⟩)
    · exact Or.inr (Or.inr (if_neg hp))

theorem digitChar_injective {d e : ℕ} (hd : d < 16) (he : e < 16)
    (h : Nat.digitChar d = Nat.digitChar e) : d = e := by
  have hall : ∀ d ∈ List.range 16, ∀ e ∈ List.range 16,
      Nat.digitChar d = Nat.digitChar e → d = e := by decide
  exact hall d (List.mem_range.mpr hd) e (List.mem_range.mpr he) h

/-- A code unit is told by its four digits. -/
theorem unitEscape_append_inj {m n : ℕ} (hm : m < 0x10000) (hn : n < 0x10000) {r r' : List Char}
    (h : unitEscape m ++ r = unitEscape n ++ r') : m = n ∧ r = r' := by
  simp only [unitEscape, List.cons_append, List.nil_append, List.cons.injEq, true_and] at h
  obtain ⟨h1, h2, h3, h4, hr⟩ := h
  have h1 := digitChar_injective (Nat.mod_lt _ (by decide)) (Nat.mod_lt _ (by decide)) h1
  have h2 := digitChar_injective (Nat.mod_lt _ (by decide)) (Nat.mod_lt _ (by decide)) h2
  have h3 := digitChar_injective (Nat.mod_lt _ (by decide)) (Nat.mod_lt _ (by decide)) h3
  have h4 := digitChar_injective (Nat.mod_lt _ (by decide)) (Nat.mod_lt _ (by decide)) h4
  exact ⟨by omega, hr⟩

/-- A character is no surrogate. -/
theorem toNat_bounds (c : Char) : c.toNat < 0xD800 ∨ 0xDFFF < c.toNat ∧ c.toNat < 0x110000 :=
  c.valid

theorem eq_of_toNat_eq {c c' : Char} (h : c.toNat = c'.toNat) : c = c' := by
  rw [← Char.ofNat_toNat c, ← Char.ofNat_toNat c', h]

/-- A character is told by its code units. -/
theorem flatMap_unitEscape_append_inj {c c' : Char} {r r' : List Char}
    (h : (utf16 c).flatMap unitEscape ++ r = (utf16 c').flatMap unitEscape ++ r') :
    c = c' ∧ r = r' := by
  have hc := toNat_bounds c
  have hc' := toNat_bounds c'
  unfold utf16 at h
  -- a unit of a character of two is in the range of the surrogates
  split_ifs at h with h1 h2 h2 <;>
    simp only [List.flatMap_cons, List.flatMap_nil, List.append_nil, List.append_assoc] at h
  · obtain ⟨hn, hr⟩ := unitEscape_append_inj h1 h2 h
    exact ⟨eq_of_toNat_eq hn, hr⟩
  · obtain ⟨hn, -⟩ := unitEscape_append_inj h1 (by omega) h
    omega
  · obtain ⟨hn, -⟩ := unitEscape_append_inj (by omega) h2 h
    omega
  · obtain ⟨hn, h⟩ := unitEscape_append_inj (by omega) (by omega) h
    obtain ⟨hm, hr⟩ := unitEscape_append_inj (by omega) (by omega) h
    exact ⟨eq_of_toNat_eq (by omega), hr⟩

/-- The code units start with a backslash and the letter `u`. -/
theorem exists_flatMap_unitEscape (c : Char) :
    ∃ t, (utf16 c).flatMap unitEscape = '\\' :: 'u' :: t := by
  unfold utf16
  split_ifs
  · exact ⟨_, rfl⟩
  · exact ⟨_, rfl⟩

/-- A character is told by the text it starts. -/
theorem escape_append_inj {c c' : Char} {r r' : List Char} (h : escape c ++ r = escape c' ++ r') :
    c = c' ∧ r = r' := by
  obtain ⟨t, ht⟩ := exists_flatMap_unitEscape c
  obtain ⟨t', ht'⟩ := exists_flatMap_unitEscape c'
  rcases escape_cases c with ⟨d, hd, he⟩ | ⟨-, hb, he⟩ | he <;>
    rcases escape_cases c' with ⟨d', hd', he'⟩ | ⟨-, hb', he'⟩ | he' <;>
      rw [he, he'] at h
  · obtain ⟨-, h⟩ := List.cons.inj h
    obtain ⟨rfl, hr⟩ := List.cons.inj h
    exact ⟨shortEscape_injective hd hd', hr⟩
  · exact absurd (List.cons.inj h).1.symm hb'
  · rw [ht'] at h
    obtain ⟨-, h⟩ := List.cons.inj h
    exact absurd ((List.cons.inj h).1 ▸ hd) (shortEscape_ne_u c)
  · exact absurd (List.cons.inj h).1 hb
  · exact List.cons.inj h
  · rw [ht'] at h
    exact absurd (List.cons.inj h).1 hb
  · rw [ht] at h
    obtain ⟨-, h⟩ := List.cons.inj h
    exact absurd ((List.cons.inj h).1 ▸ hd') (shortEscape_ne_u c')
  · rw [ht] at h
    exact absurd (List.cons.inj h).1.symm hb'
  · exact flatMap_unitEscape_append_inj h

/-- No character is written starting with a quote. -/
theorem escape_append_ne_quote (c : Char) (r r' : List Char) : escape c ++ r ≠ '"' :: r' := by
  obtain ⟨t, ht⟩ := exists_flatMap_unitEscape c
  rcases escape_cases c with ⟨d, -, he⟩ | ⟨hq, -, he⟩ | he <;> rw [he]
  · exact fun h => absurd (List.cons.inj h).1 (by decide)
  · exact fun h => hq (List.cons.inj h).1
  · rw [ht]
    exact fun h => absurd (List.cons.inj h).1 (by decide)

theorem flatMap_escape_append_inj {cs cs' r r' : List Char}
    (h : cs.flatMap escape ++ '"' :: r = cs'.flatMap escape ++ '"' :: r') : cs = cs' ∧ r = r' := by
  induction cs generalizing cs' with
  | nil =>
    cases cs' with
    | nil => exact ⟨rfl, (List.cons.inj h).2⟩
    | cons c' cs' =>
      rw [List.flatMap_cons, List.append_assoc] at h
      exact absurd h.symm (escape_append_ne_quote c' _ _)
  | cons c cs ih =>
    cases cs' with
    | nil =>
      rw [List.flatMap_cons, List.append_assoc] at h
      exact absurd h (escape_append_ne_quote c _ _)
    | cons c' cs' =>
      rw [List.flatMap_cons, List.flatMap_cons, List.append_assoc, List.append_assoc] at h
      obtain ⟨rfl, htail⟩ := escape_append_inj h
      obtain ⟨rfl, hr⟩ := ih htail
      exact ⟨rfl, hr⟩

/-- **A string is told by the text it starts.** -/
theorem printString_append_inj {s s' : String} {r r' : List Char}
    (h : printString s ++ r = printString s' ++ r') : s = s' ∧ r = r' := by
  simp only [printString, List.cons_append, List.append_assoc, List.nil_append] at h
  obtain ⟨hs, hr⟩ := flatMap_escape_append_inj (List.cons.inj h).2
  exact ⟨String.toList_inj.mp hs, hr⟩

/-! ### Numbers -/

/-- How numbers are written: each in one way, without a character that ends a value, and
starting like no other kind of value. -/
structure NumberFormat (ν : Type) where
  text : ν → List Char
  injective : Function.Injective text
  noStop : ∀ n, ∀ c ∈ text n, c ≠ ',' ∧ c ≠ ']' ∧ c ≠ '}'
  start : ∀ n, ∃ c t, text n = c :: t ∧ c ∉ ['n', 't', 'f', '"', '[', '{']

/-- What follows a value in a text: nothing, or a character that ends it. -/
def Stops : List Char → Prop
  | [] => True
  | c :: _ => c = ',' ∨ c = ']' ∨ c = '}'

theorem append_inj_of_stops {p : Char → Prop} {t t' r r' : List Char} (ht : ∀ c ∈ t, ¬p c)
    (ht' : ∀ c ∈ t', ¬p c) (hr : ∀ c s, r = c :: s → p c) (hr' : ∀ c s, r' = c :: s → p c)
    (h : t ++ r = t' ++ r') : t = t' ∧ r = r' := by
  induction t generalizing t' with
  | nil =>
    cases t' with
    | nil => exact ⟨rfl, h⟩
    | cons c' t' => exact absurd (hr c' _ h) (ht' c' (List.mem_cons_self ..))
  | cons c t ih =>
    cases t' with
    | nil => exact absurd (hr' c _ h.symm) (ht c (List.mem_cons_self ..))
    | cons c' t' =>
      obtain ⟨rfl, htail⟩ := List.cons.inj h
      obtain ⟨rfl, hrest⟩ := ih (fun c hc => ht c (List.mem_cons_of_mem _ hc))
        (fun c hc => ht' c (List.mem_cons_of_mem _ hc)) htail
      exact ⟨rfl, hrest⟩

/-- **A number is told by the text it starts**, up to where the text stops. -/
theorem NumberFormat.append_inj (F : NumberFormat ν) {n n' : ν} {r r' : List Char} (hr : Stops r)
    (hr' : Stops r') (h : F.text n ++ r = F.text n' ++ r') : n = n' ∧ r = r' := by
  have hstop : ∀ {r : List Char}, Stops r → ∀ c s, r = c :: s → c = ',' ∨ c = ']' ∨ c = '}' := by
    rintro r hr c s rfl
    exact hr
  obtain ⟨htext, hrest⟩ := append_inj_of_stops (p := fun c => c = ',' ∨ c = ']' ∨ c = '}')
    (fun c hc => by simpa using F.noStop n c hc) (fun c hc => by simpa using F.noStop n' c hc)
    (hstop hr) (hstop hr') h
  exact ⟨F.injective htext, hrest⟩

/-! ### The text of a value -/

mutual

/-- The compact text of a value: nothing stands between the tokens. -/
def print (F : NumberFormat ν) : JsonTree ν → List Char
  | null => ['n', 'u', 'l', 'l']
  | bool true => ['t', 'r', 'u', 'e']
  | bool false => ['f', 'a', 'l', 's', 'e']
  | num n => F.text n
  | str s => printString s
  | arr [] => ['[', ']']
  | arr (x :: xs) => '[' :: (print F x ++ printItems F xs)
  | obj [] => ['{', '}']
  | obj ((k, v) :: l) => '{' :: (printString k ++ ':' :: (print F v ++ printFields F l))

/-- The items after the first one, with the closing bracket. -/
def printItems (F : NumberFormat ν) : List (JsonTree ν) → List Char
  | [] => [']']
  | x :: xs => ',' :: (print F x ++ printItems F xs)

/-- The fields after the first one, with the closing brace. -/
def printFields (F : NumberFormat ν) : List (String × JsonTree ν) → List Char
  | [] => ['}']
  | (k, v) :: l => ',' :: (printString k ++ ':' :: (print F v ++ printFields F l))

end

/-- The kinds of value, which the first character of a text tells apart. -/
inductive Kind
  | null
  | true
  | false
  | num
  | str
  | arr
  | obj
  deriving DecidableEq

def kind : JsonTree ν → Kind
  | null => .null
  | bool Bool.true => .true
  | bool Bool.false => .false
  | num _ => .num
  | str _ => .str
  | arr _ => .arr
  | obj _ => .obj

/-- The kind a first character stands for. -/
def kindOf (c : Char) : Kind :=
  if c = 'n' then .null
  else if c = 't' then .true
  else if c = 'f' then .false
  else if c = '"' then .str
  else if c = '[' then .arr
  else if c = '{' then .obj
  else .num

theorem exists_print_eq (F : NumberFormat ν) (j : JsonTree ν) :
    ∃ c t, print F j = c :: t ∧ kindOf c = j.kind := by
  match j with
  | null => exact ⟨'n', _, by rw [print], rfl⟩
  | bool true => exact ⟨'t', _, by rw [print], rfl⟩
  | bool false => exact ⟨'f', _, by rw [print], rfl⟩
  | num n =>
    obtain ⟨c, t, htext, hc⟩ := F.start n
    simp only [List.mem_cons, List.not_mem_nil, or_false, not_or] at hc
    obtain ⟨h1, h2, h3, h4, h5, h6⟩ := hc
    refine ⟨c, t, by rw [print, htext], ?_⟩
    rw [kindOf, if_neg h1, if_neg h2, if_neg h3, if_neg h4, if_neg h5, if_neg h6]
    rfl
  | str s => exact ⟨'"', _, by rw [print, printString], rfl⟩
  | arr [] => exact ⟨'[', _, by rw [print], rfl⟩
  | arr (x :: xs) => exact ⟨'[', _, by rw [print], rfl⟩
  | obj [] => exact ⟨'{', _, by rw [print], rfl⟩
  | obj ((k, v) :: l) => exact ⟨'{', _, by rw [print], rfl⟩

theorem kind_eq_of_print (F : NumberFormat ν) {j j' : JsonTree ν} {r r' : List Char}
    (h : print F j ++ r = print F j' ++ r') : j.kind = j'.kind := by
  obtain ⟨c, t, hj, hc⟩ := exists_print_eq F j
  obtain ⟨c', t', hj', hc'⟩ := exists_print_eq F j'
  rw [hj, hj', List.cons_append, List.cons_append] at h
  rw [← hc, ← hc', (List.cons.inj h).1]

/-- No value is written starting with a bracket or brace that closes. -/
theorem print_append_ne (F : NumberFormat ν) (j : JsonTree ν) {c : Char} (hc : c = ']' ∨ c = '}')
    (r r' : List Char) : print F j ++ r ≠ c :: r' := by
  intro h
  obtain ⟨d, t, hj, hd⟩ := exists_print_eq F j
  rw [hj, List.cons_append] at h
  obtain ⟨rfl, -⟩ := List.cons.inj h
  have hnum : j.kind = .num := by
    rw [← hd]
    rcases hc with rfl | rfl <;> rfl
  match j with
  | num n =>
    rw [print] at hj
    have hstop := F.noStop n d (hj ▸ List.mem_cons_self ..)
    exact hc.elim hstop.2.1 hstop.2.2

theorem stops_printItems (F : NumberFormat ν) (xs : List (JsonTree ν)) (r : List Char) :
    Stops (printItems F xs ++ r) := by
  cases xs with
  | nil => rw [printItems]; exact Or.inr (Or.inl rfl)
  | cons x xs => rw [printItems]; exact Or.inl rfl

theorem stops_printFields (F : NumberFormat ν) (l : List (String × JsonTree ν)) (r : List Char) :
    Stops (printFields F l ++ r) := by
  match l with
  | [] => rw [printFields]; exact Or.inr (Or.inr rfl)
  | (k, v) :: l => rw [printFields]; exact Or.inl rfl

mutual

/-- **A value is told by the text it starts**, up to where the text stops. -/
theorem print_append_inj (F : NumberFormat ν) : ∀ {j j' : JsonTree ν} {r r' : List Char},
    Stops r → Stops r' → print F j ++ r = print F j' ++ r' → j = j' ∧ r = r'
  | null, j', r, r', hr, hr', h => by
    have hk := kind_eq_of_print F h
    match j' with
    | null => exact ⟨rfl, List.append_cancel_left h⟩
  | bool true, j', r, r', hr, hr', h => by
    have hk := kind_eq_of_print F h
    match j' with
    | bool true => exact ⟨rfl, List.append_cancel_left h⟩
  | bool false, j', r, r', hr, hr', h => by
    have hk := kind_eq_of_print F h
    match j' with
    | bool false => exact ⟨rfl, List.append_cancel_left h⟩
  | num n, j', r, r', hr, hr', h => by
    have hk := kind_eq_of_print F h
    match j' with
    | num n' =>
      rw [print, print] at h
      obtain ⟨rfl, hrest⟩ := F.append_inj hr hr' h
      exact ⟨rfl, hrest⟩
  | str s, j', r, r', hr, hr', h => by
    have hk := kind_eq_of_print F h
    match j' with
    | str s' =>
      rw [print, print] at h
      obtain ⟨rfl, hrest⟩ := printString_append_inj h
      exact ⟨rfl, hrest⟩
  | arr [], j', r, r', hr, hr', h => by
    have hk := kind_eq_of_print F h
    match j' with
    | arr [] => exact ⟨rfl, List.append_cancel_left h⟩
    | arr (x' :: xs') =>
      rw [print, print] at h
      have htail : print F x' ++ (printItems F xs' ++ r') = ']' :: r := by
        rw [← List.append_assoc]
        exact (List.cons.inj h).2.symm
      exact absurd htail (print_append_ne F x' (Or.inl rfl) _ _)
  | arr (x :: xs), j', r, r', hr, hr', h => by
    have hk := kind_eq_of_print F h
    match j' with
    | arr [] =>
      rw [print, print] at h
      have htail : print F x ++ (printItems F xs ++ r) = ']' :: r' := by
        rw [← List.append_assoc]
        exact (List.cons.inj h).2
      exact absurd htail (print_append_ne F x (Or.inl rfl) _ _)
    | arr (x' :: xs') =>
      rw [print, print, List.cons_append, List.cons_append, List.append_assoc,
        List.append_assoc] at h
      obtain ⟨rfl, htail⟩ := print_append_inj F (stops_printItems F xs r)
        (stops_printItems F xs' r') (List.cons.inj h).2
      obtain ⟨rfl, hrest⟩ := printItems_append_inj F htail
      exact ⟨rfl, hrest⟩
  | obj [], j', r, r', hr, hr', h => by
    have hk := kind_eq_of_print F h
    match j' with
    | obj [] => exact ⟨rfl, List.append_cancel_left h⟩
    | obj ((k', v') :: l') =>
      rw [print, print, printString] at h
      exact absurd (List.cons.inj (List.cons.inj h).2).1 (by decide)
  | obj ((k, v) :: l), j', r, r', hr, hr', h => by
    have hk := kind_eq_of_print F h
    match j' with
    | obj [] =>
      rw [print, print, printString] at h
      exact absurd (List.cons.inj (List.cons.inj h).2).1 (by decide)
    | obj ((k', v') :: l') =>
      rw [print, print, List.cons_append, List.cons_append, List.append_assoc, List.append_assoc,
        List.cons_append, List.cons_append, List.append_assoc, List.append_assoc] at h
      obtain ⟨rfl, hfield⟩ := printString_append_inj (List.cons.inj h).2
      obtain ⟨rfl, htail⟩ := print_append_inj F (stops_printFields F l r)
        (stops_printFields F l' r') (List.cons.inj hfield).2
      obtain ⟨rfl, hrest⟩ := printFields_append_inj F htail
      exact ⟨rfl, hrest⟩

theorem printItems_append_inj (F : NumberFormat ν) : ∀ {xs xs' : List (JsonTree ν)}
    {r r' : List Char}, printItems F xs ++ r = printItems F xs' ++ r' → xs = xs' ∧ r = r'
  | [], xs', r, r', h => by
    match xs' with
    | [] => exact ⟨rfl, List.append_cancel_left h⟩
    | x' :: xs' =>
      rw [printItems, printItems] at h
      exact absurd (List.cons.inj h).1 (by decide)
  | x :: xs, xs', r, r', h => by
    match xs' with
    | [] =>
      rw [printItems, printItems] at h
      exact absurd (List.cons.inj h).1 (by decide)
    | x' :: xs' =>
      rw [printItems, printItems, List.cons_append, List.cons_append, List.append_assoc,
        List.append_assoc] at h
      obtain ⟨rfl, htail⟩ := print_append_inj F (stops_printItems F xs r)
        (stops_printItems F xs' r') (List.cons.inj h).2
      obtain ⟨rfl, hrest⟩ := printItems_append_inj F htail
      exact ⟨rfl, hrest⟩

theorem printFields_append_inj (F : NumberFormat ν) : ∀ {l l' : List (String × JsonTree ν)}
    {r r' : List Char}, printFields F l ++ r = printFields F l' ++ r' → l = l' ∧ r = r'
  | [], l', r, r', h => by
    match l' with
    | [] => exact ⟨rfl, List.append_cancel_left h⟩
    | (k', v') :: l' =>
      rw [printFields, printFields] at h
      exact absurd (List.cons.inj h).1 (by decide)
  | (k, v) :: l, l', r, r', h => by
    match l' with
    | [] =>
      rw [printFields, printFields] at h
      exact absurd (List.cons.inj h).1 (by decide)
    | (k', v') :: l' =>
      rw [printFields, printFields, List.cons_append, List.cons_append, List.append_assoc,
        List.append_assoc, List.cons_append, List.cons_append, List.append_assoc,
        List.append_assoc] at h
      obtain ⟨rfl, hfield⟩ := printString_append_inj (List.cons.inj h).2
      obtain ⟨rfl, htail⟩ := print_append_inj F (stops_printFields F l r)
        (stops_printFields F l' r') (List.cons.inj hfield).2
      obtain ⟨rfl, hrest⟩ := printFields_append_inj F htail
      exact ⟨rfl, hrest⟩

end

/-- **The text of a value determines it.** -/
theorem print_injective (F : NumberFormat ν) : Function.Injective (print F) := by
  intro j j' h
  exact (@print_append_inj ν F j j' [] [] trivial trivial (by rw [h])).1

/-! ### Values up to the order of their fields -/

/-- **The same JSON value**: equal up to the order of the fields, at every depth. -/
inductive Same : JsonTree ν → JsonTree ν → Prop
  | refl (j : JsonTree ν) : Same j j
  | symm {j k : JsonTree ν} : Same j k → Same k j
  | trans {j k m : JsonTree ν} : Same j k → Same k m → Same j m
  | perm {l l' : List (String × JsonTree ν)} : l.Perm l' → Same (obj l) (obj l')
  | item {x y : JsonTree ν} (xs ys : List (JsonTree ν)) :
    Same x y → Same (arr (xs ++ x :: ys)) (arr (xs ++ y :: ys))
  | field {v w : JsonTree ν} (k : String) (l m : List (String × JsonTree ν)) :
    Same v w → Same (obj (l ++ (k, v) :: m)) (obj (l ++ (k, w) :: m))

mutual

/-- The keys of each object are distinct. -/
def Distinct : JsonTree ν → Prop
  | arr xs => DistinctItems xs
  | obj l => (l.map Prod.fst).Nodup ∧ DistinctFields l
  | _ => True

def DistinctItems : List (JsonTree ν) → Prop
  | [] => True
  | x :: xs => Distinct x ∧ DistinctItems xs

def DistinctFields : List (String × JsonTree ν) → Prop
  | [] => True
  | (_, v) :: l => Distinct v ∧ DistinctFields l

end

theorem distinctItems_iff {xs : List (JsonTree ν)} : DistinctItems xs ↔ ∀ x ∈ xs, x.Distinct := by
  induction xs with
  | nil => exact ⟨fun _ _ h => absurd h List.not_mem_nil, fun _ => trivial⟩
  | cons x xs ih => rw [DistinctItems, ih, List.forall_mem_cons]

theorem distinctFields_iff {l : List (String × JsonTree ν)} :
    DistinctFields l ↔ ∀ row ∈ l, row.2.Distinct := by
  induction l with
  | nil => exact ⟨fun _ _ h => absurd h List.not_mem_nil, fun _ => trivial⟩
  | cons row l ih => rw [DistinctFields, ih, List.forall_mem_cons]

theorem distinct_arr {xs : List (JsonTree ν)} : (arr xs).Distinct ↔ ∀ x ∈ xs, x.Distinct := by
  rw [Distinct, distinctItems_iff]

theorem distinct_obj {l : List (String × JsonTree ν)} :
    (obj l).Distinct ↔ (l.map Prod.fst).Nodup ∧ ∀ row ∈ l, row.2.Distinct := by
  rw [Distinct, distinctFields_iff]

theorem Same.distinct_iff {j k : JsonTree ν} (h : Same j k) : j.Distinct ↔ k.Distinct := by
  induction h with
  | refl j => exact Iff.rfl
  | symm _ ih => exact ih.symm
  | trans _ _ ih₁ ih₂ => exact ih₁.trans ih₂
  | perm h =>
    rw [distinct_obj, distinct_obj, (h.map Prod.fst).nodup_iff]
    exact and_congr_right fun _ => forall_congr' fun row => by rw [h.mem_iff]
  | item xs ys _ ih =>
    rw [distinct_arr, distinct_arr, List.forall_mem_append, List.forall_mem_append,
      List.forall_mem_cons, List.forall_mem_cons, ih]
  | field k l m _ ih =>
    rw [distinct_obj, distinct_obj, List.forall_mem_append, List.forall_mem_append,
      List.forall_mem_cons, List.forall_mem_cons, ih, List.map_append, List.map_append,
      List.map_cons, List.map_cons]

/-- A field comes no later than another one. -/
def KeyLe (row row' : String × JsonTree ν) : Prop := row.1 ≤ row'.1

instance : DecidableRel (KeyLe (ν := ν)) := fun row row' =>
  inferInstanceAs (Decidable (row.1 ≤ row'.1))

mutual

/-- The value with the fields of each object in the order of their keys. -/
def sortKeys : JsonTree ν → JsonTree ν
  | null => null
  | bool b => bool b
  | num n => num n
  | str s => str s
  | arr xs => arr (sortItems xs)
  | obj l => obj ((sortFields l).insertionSort KeyLe)

def sortItems : List (JsonTree ν) → List (JsonTree ν)
  | [] => []
  | x :: xs => sortKeys x :: sortItems xs

def sortFields : List (String × JsonTree ν) → List (String × JsonTree ν)
  | [] => []
  | (k, v) :: l => (k, sortKeys v) :: sortFields l

end

/-- The compact text of a value whose keys are sorted as they are written. -/
def dumps (F : NumberFormat ν) (j : JsonTree ν) : List Char := print F (sortKeys j)

theorem sortItems_eq_map (xs : List (JsonTree ν)) : sortItems xs = xs.map sortKeys := by
  induction xs with
  | nil => rw [sortItems, List.map_nil]
  | cons x xs ih => rw [sortItems, ih, List.map_cons]

theorem sortFields_eq_map (l : List (String × JsonTree ν)) :
    sortFields l = l.map (Prod.map id sortKeys) := by
  induction l with
  | nil => rw [sortFields, List.map_nil]
  | cons row l ih =>
    rw [sortFields, ih, List.map_cons]
    rfl

theorem sortKeys_arr (xs : List (JsonTree ν)) : sortKeys (arr xs) = arr (xs.map sortKeys) := by
  rw [sortKeys, sortItems_eq_map]

theorem sortKeys_obj (l : List (String × JsonTree ν)) :
    sortKeys (obj l) = obj ((l.map (Prod.map id sortKeys)).insertionSort KeyLe) := by
  rw [sortKeys, sortFields_eq_map]

theorem map_fst_sorted (l : List (String × JsonTree ν)) :
    (l.map (Prod.map id sortKeys)).map Prod.fst = l.map Prod.fst := by
  rw [List.map_map]
  rfl

/-- Fields with distinct keys have one sorted arrangement. -/
theorem insertionSort_eq_iff {l l' : List (String × JsonTree ν)} (h : (l.map Prod.fst).Nodup) :
    l.insertionSort KeyLe = l'.insertionSort KeyLe ↔ l.Perm l' := by
  have hperm := List.perm_insertionSort KeyLe l
  have hperm' := List.perm_insertionSort KeyLe l'
  constructor
  · intro heq
    exact hperm.symm.trans (heq ▸ hperm')
  · intro hll'
    have : Std.Total (KeyLe (ν := ν)) := ⟨fun u v => String.le_total u.1 v.1⟩
    have : IsTrans _ (KeyLe (ν := ν)) := ⟨fun _ _ _ => String.le_trans⟩
    refine List.Perm.eq_of_pairwise (fun u v hu hv huv hvu => ?_)
      (List.pairwise_insertionSort KeyLe _) (List.pairwise_insertionSort KeyLe _)
      (hperm.trans (hll'.trans hperm'.symm))
    exact List.inj_on_of_nodup_map h (hperm.mem_iff.mp hu)
      (hll'.mem_iff.mpr (hperm'.mem_iff.mp hv)) (String.le_antisymm huv hvu)

theorem Same.items {xs ys : List (JsonTree ν)} (h : List.Forall₂ Same xs ys) :
    Same (arr xs) (arr ys) := by
  suffices hpre : ∀ pre : List (JsonTree ν), Same (arr (pre ++ xs)) (arr (pre ++ ys)) from hpre []
  induction h with
  | nil => exact fun pre => .refl _
  | @cons x y xs ys hxy _ ih =>
    intro pre
    have hrest := ih (pre ++ [y])
    rw [List.append_assoc, List.append_assoc] at hrest
    exact (Same.item pre xs hxy).trans hrest

theorem Same.fields {l m : List (String × JsonTree ν)}
    (h : List.Forall₂ (fun row row' => row.1 = row'.1 ∧ Same row.2 row'.2) l m) :
    Same (obj l) (obj m) := by
  suffices hpre : ∀ pre : List (String × JsonTree ν),
      Same (obj (pre ++ l)) (obj (pre ++ m)) from hpre []
  induction h with
  | nil => exact fun pre => .refl _
  | @cons row row' l m hrow _ ih =>
    intro pre
    obtain ⟨k, v⟩ := row
    obtain ⟨k', v'⟩ := row'
    obtain ⟨rfl, hv⟩ := hrow
    have hrest := ih (pre ++ [(k, v')])
    rw [List.append_assoc, List.append_assoc] at hrest
    exact (Same.field k pre l hv).trans hrest

mutual

/-- Sorting keeps the value. -/
theorem same_sortKeys : ∀ j : JsonTree ν, Same j (sortKeys j)
  | null => by rw [sortKeys]; exact .refl _
  | bool b => by rw [sortKeys]; exact .refl _
  | num n => by rw [sortKeys]; exact .refl _
  | str s => by rw [sortKeys]; exact .refl _
  | arr xs => by
    rw [sortKeys]
    exact Same.items (same_sortItems xs)
  | obj l => by
    rw [sortKeys]
    exact (Same.fields (same_sortFields l)).trans
      (.perm (List.perm_insertionSort KeyLe _).symm)

theorem same_sortItems : ∀ xs : List (JsonTree ν), List.Forall₂ Same xs (sortItems xs)
  | [] => by rw [sortItems]; exact .nil
  | x :: xs => by
    rw [sortItems]
    exact .cons (same_sortKeys x) (same_sortItems xs)

theorem same_sortFields : ∀ l : List (String × JsonTree ν),
    List.Forall₂ (fun row row' => row.1 = row'.1 ∧ Same row.2 row'.2) l (sortFields l)
  | [] => by rw [sortFields]; exact .nil
  | (k, v) :: l => by
    rw [sortFields]
    exact .cons ⟨rfl, same_sortKeys v⟩ (same_sortFields l)

end

/-- The same value is sorted into one. -/
theorem Same.sortKeys_eq {j k : JsonTree ν} (h : Same j k) (hj : j.Distinct) :
    sortKeys j = sortKeys k := by
  induction h with
  | refl j => rfl
  | symm h ih => exact (ih (h.distinct_iff.mpr hj)).symm
  | trans h _ ih₁ ih₂ => exact (ih₁ hj).trans (ih₂ (h.distinct_iff.mp hj))
  | perm h =>
    rw [sortKeys_obj, sortKeys_obj, (insertionSort_eq_iff ?_).mpr (h.map _)]
    rw [map_fst_sorted]
    exact (distinct_obj.mp hj).1
  | @item x y xs ys _ ih =>
    have hx := distinct_arr.mp hj x (List.mem_append_right _ (List.mem_cons_self ..))
    rw [sortKeys_arr, sortKeys_arr, List.map_append, List.map_append, List.map_cons,
      List.map_cons, ih hx]
  | @field v w k l m _ ih =>
    have hv := (distinct_obj.mp hj).2 (k, v) (List.mem_append_right _ (List.mem_cons_self ..))
    rw [sortKeys_obj, sortKeys_obj, List.map_append, List.map_append, List.map_cons,
      List.map_cons, Prod.map_apply, Prod.map_apply, ih hv]

theorem sortKeys_eq_iff {j k : JsonTree ν} (hj : j.Distinct) :
    sortKeys j = sortKeys k ↔ Same j k := by
  constructor
  · intro h
    exact (same_sortKeys j).trans (h ▸ (same_sortKeys k).symm)
  · exact fun h => h.sortKeys_eq hj

/-- **The text with sorted keys is that of the value**, whatever the order of its fields. -/
theorem dumps_eq_iff (F : NumberFormat ν) {j k : JsonTree ν} (hj : j.Distinct) :
    dumps F j = dumps F k ↔ Same j k :=
  (print_injective F).eq_iff.trans (sortKeys_eq_iff hj)

/-- **Objects with distinct keys are the same value when they hold the same under each
key.** -/
theorem same_obj_iff {l l' : List (String × JsonTree ν)} (h : (obj l).Distinct)
    (h' : (obj l').Distinct) :
    Same (obj l) (obj l') ↔
      ∀ k, (Dict.get? l k).map sortKeys = (Dict.get? l' k).map sortKeys := by
  have hkeys := (distinct_obj.mp h).1
  have hkeys' := (distinct_obj.mp h').1
  rw [← sortKeys_eq_iff h, sortKeys_obj, sortKeys_obj, obj.injEq,
    insertionSort_eq_iff (by rwa [map_fst_sorted]),
    Dict.perm_iff_get? (by rwa [Dict.keys, map_fst_sorted]) (by rwa [Dict.keys, map_fst_sorted])]
  simp only [Dict.get?_map]

end JsonTree
