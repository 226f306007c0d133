import Mathlib.Data.List.Basic
import Sodl.Crypto
import Sodl.Data.Hex

/-!
# Master keys in text

A master key is 32 bytes, and travels as text (`crates/sodl-crypto/src/aead.rs`):
`from_hex` is to take 64 hexadecimal digits of either case and nothing else, and
`master_key_hex` writes the lower case ones.

The parser cuts the text every two bytes and hands each pair to the integer parser of the
standard library. That takes a plus sign for the first digit of a pair, and the cut panics
off a boundary between characters, so that some texts are keys that should not be, and some
stop the caller (`Sodl.parsesAsDocumented_iff`).
-/

namespace Sodl

open Effect

/-! ### The parser -/

/-- The pairs of bytes at some offsets of a text, each read as a byte. -/
def readBytesAt (hex : List Char) : List ℕ → Outcome SodlError Bytes
  | [] => .ok []
  | i :: is =>
    match Hex.slice hex i (i + 2) with
    -- a `str` cannot be cut inside a character
    | none => .panic
    | some pair =>
      match Hex.u8FromStrRadix pair with
      | .error e => .err (.invalid ("invalid hex: " ++ e.display))
      | .ok b => do
        let bs ← readBytesAt hex is
        .ok (b :: bs)

/-- `hex_to_bytes`. -/
def hexToBytes (hex : String) : Outcome SodlError Bytes :=
  let len := Hex.byteLen hex.toList
  if len % 2 ≠ 0 then .err (.invalid "hex string length must be even")
  else readBytesAt hex.toList (List.range' 0 (len / 2) 2)

/-- `bytes_to_hex`. -/
def bytesToHex (bytes : Bytes) : String := String.ofList (bytes.flatMap Hex.ofByte)

/-- `AeadCrypto::from_hex`: the master key of the provider. -/
def fromHex (hex : String) : Outcome SodlError (Vector UInt8 32) := do
  let bytes ← hexToBytes hex
  if h : bytes.length = 32 then .ok ⟨bytes.toArray, h⟩
  else .err (.invalid ("master key must be 32 bytes, got " ++ toString bytes.length))

/-- `AeadCrypto::master_key_hex`. -/
def masterKeyHex (masterKey : Vector UInt8 32) : String := bytesToHex masterKey.toList

/-! ### What is read -/

/-- What the parser makes of a text of even length: the bytes of its pairs, or what the
first two bytes after them give. -/
def readOut (cs : List Char) : Outcome SodlError Bytes :=
  if (Hex.splitPairs cs).2 = [] then
    .ok ((Hex.splitPairs cs).1.map fun p => Hex.pairValue p.1 p.2)
  else if (Hex.cut (Hex.splitPairs cs).2 2).isSome then
    .err (.invalid ("invalid hex: " ++ Hex.IntErrorKind.invalidDigit.display))
  else .panic

theorem readOut_cons {c d : Char} (h : Hex.isPair c d = true) (cs : List Char) :
    readOut (c :: d :: cs) = (do
      let bs ← readOut cs
      .ok (Hex.pairValue c d :: bs)) := by
  have hsplit : Hex.splitPairs (c :: d :: cs) =
      ((c, d) :: (Hex.splitPairs cs).1, (Hex.splitPairs cs).2) := by
    rw [Hex.splitPairs, if_pos h]
  rw [readOut, readOut, hsplit]
  dsimp only
  split_ifs <;> rfl

/-- The loop stops at what does not begin with a pair. -/
theorem readBytesAt_stop (pre : List Char) {cs : List Char} (hne : cs ≠ [])
    (hstop : (Hex.splitPairs cs).1 = []) (n : ℕ) :
    readBytesAt (pre ++ cs) (List.range' (Hex.byteLen pre) (n + 1) 2) = readOut cs := by
  have hrest : (Hex.splitPairs cs).2 = cs := by
    have hall := Hex.unpair_splitPairs cs
    rw [hstop] at hall
    exact hall
  rw [List.range'_succ, readBytesAt, Hex.slice_append, readOut, hrest, if_neg hne]
  rcases hcut : Hex.cut cs 2 with _ | ⟨mid, rest⟩
  · rfl
  · simp only [Option.map_some, Hex.read_of_cut hne hstop hcut]
    rfl

/-- **The loop over a text**, from where its first pairs have been read. -/
theorem readBytesAt_eq (pre cs : List Char) (n : ℕ) (hlen : Hex.byteLen cs = 2 * n) :
    readBytesAt (pre ++ cs) (List.range' (Hex.byteLen pre) n 2) = readOut cs := by
  induction cs using Hex.splitPairs.induct generalizing pre n with
  | case1 c d cs hpair ih =>
    have htwo : Hex.byteLen [c, d] = 2 := Hex.byteLen_of_isPair hpair
    have hsplit : Hex.byteLen (c :: d :: cs) = 2 + Hex.byteLen cs := by
      rw [← htwo, ← Hex.byteLen_append]
      rfl
    obtain ⟨m, rfl⟩ : ∃ m, n = m + 1 := ⟨n - 1, by omega⟩
    have hrest := ih (pre ++ [c, d]) m (by omega)
    rw [List.append_assoc, Hex.byteLen_append, htwo] at hrest
    rw [List.range'_succ, readBytesAt, Hex.slice_append, Hex.cut_two_of_isPair hpair,
      readOut_cons hpair, ← hrest]
    simp only [Option.map_some, Hex.readPair, if_pos hpair]
    rfl
  | case2 c d cs hpair =>
    have hpos := c.utf8Size_pos
    obtain ⟨m, rfl⟩ : ∃ m, n = m + 1 := ⟨n - 1, by
      rw [Hex.byteLen_cons] at hlen
      omega⟩
    refine readBytesAt_stop pre (List.cons_ne_nil _ _) ?_ m
    rw [Hex.splitPairs, if_neg hpair]
  | case3 cs hnot =>
    obtain _ | ⟨c, cs⟩ := cs
    · obtain rfl : n = 0 := by
        rw [Hex.byteLen_nil] at hlen
        omega
      rfl
    · have hpos := c.utf8Size_pos
      obtain ⟨m, rfl⟩ : ∃ m, n = m + 1 := ⟨n - 1, by
        rw [Hex.byteLen_cons] at hlen
        omega⟩
      refine readBytesAt_stop pre (List.cons_ne_nil _ _) ?_ m
      rw [Hex.splitPairs]
      exact hnot

/-- **What the parser makes of a text.** -/
theorem hexToBytes_eq (hex : String) :
    hexToBytes hex =
      if Hex.byteLen hex.toList % 2 ≠ 0 then .err (.invalid "hex string length must be even")
      else readOut hex.toList := by
  rw [hexToBytes]
  split_ifs with h
  · rfl
  · exact readBytesAt_eq [] hex.toList _ (by omega)

/-! ### Which texts are keys -/

/-- The documented format: 64 hexadecimal digits of either case. -/
def IsHexKey (s : String) : Prop :=
  s.length = 64 ∧ ∀ c ∈ s.toList,
    ('0' ≤ c ∧ c ≤ '9') ∨ ('a' ≤ c ∧ c ≤ 'f') ∨ ('A' ≤ c ∧ c ≤ 'F')

/-- The pairs at the front of a text, and what follows them. -/
abbrev frontPairs (s : String) : List (Char × Char) := (Hex.splitPairs s.toList).1
@[inherit_doc frontPairs]
abbrev afterPairs (s : String) : List Char := (Hex.splitPairs s.toList).2

theorem isPair_of_mem_frontPairs {s : String} {p : Char × Char} (hp : p ∈ frontPairs s) :
    Hex.isPair p.1 p.2 = true :=
  Hex.isPair_of_mem_splitPairs hp

/-- A text that is all pairs. -/
theorem toList_eq_unpair {s : String} (h : afterPairs s = []) :
    s.toList = Hex.unpair (frontPairs s) := by
  have hall : Hex.unpair (frontPairs s) ++ afterPairs s = s.toList :=
    Hex.unpair_splitPairs s.toList
  rw [h, List.append_nil] at hall
  exact hall.symm

/-- A text that is all pairs is read. -/
theorem hexToBytes_of_pairs {s : String} (h : afterPairs s = []) :
    hexToBytes s = .ok ((frontPairs s).map fun p => Hex.pairValue p.1 p.2) := by
  have hlen : Hex.byteLen s.toList % 2 = 0 := by
    rw [toList_eq_unpair h, Hex.byteLen_unpair fun p hp => isPair_of_mem_frontPairs hp]
    omega
  rw [hexToBytes_eq, if_neg (not_not.mpr hlen), readOut, if_pos h]

/-- What the parser of keys returns. -/
theorem fromHex_eq_ok {s : String} {k : Vector UInt8 32} :
    fromHex s = .ok k ↔
      afterPairs s = [] ∧ k.toList = (frontPairs s).map fun p => Hex.pairValue p.1 p.2 := by
  constructor
  · intro h
    obtain ⟨bytes, hbytes, hkey⟩ := Outcome.bind_eq_ok.mp h
    split_ifs at hkey with hlen
    obtain rfl := Outcome.ok.inj hkey
    rw [hexToBytes_eq, readOut] at hbytes
    split_ifs at hbytes with _ hrest
    exact ⟨hrest, (Outcome.ok.inj hbytes).symm⟩
  · rintro ⟨hrest, hk⟩
    have hlen : ((frontPairs s).map fun p => Hex.pairValue p.1 p.2).length = 32 := by
      rw [← hk, Vector.length_toList]
    rw [fromHex, hexToBytes_of_pairs hrest, Outcome.ok_bind, dif_pos hlen]
    refine congrArg Outcome.ok (Vector.toArray_inj.mp (Array.ext' ?_))
    exact hk.symm

/-- **Which texts are taken for keys**: those that are 32 pairs. -/
theorem isOk_fromHex {s : String} :
    (fromHex s).isOk = true ↔ afterPairs s = [] ∧ (frontPairs s).length = 32 := by
  constructor
  · intro h
    rcases hk : fromHex s with k | e | _
    · obtain ⟨hrest, hval⟩ := fromHex_eq_ok.mp hk
      have hlen := congrArg List.length hval
      rw [Vector.length_toList, List.length_map] at hlen
      exact ⟨hrest, hlen.symm⟩
    · rw [hk] at h
      exact absurd h (by simp [Outcome.isOk])
    · rw [hk] at h
      exact absurd h (by simp [Outcome.isOk])
  · rintro ⟨hrest, hlen⟩
    have hmap : ((frontPairs s).map fun p => Hex.pairValue p.1 p.2).length = 32 := by
      rw [List.length_map, hlen]
    rw [fromHex, hexToBytes_of_pairs hrest, Outcome.ok_bind, dif_pos hmap]
    rfl

/-- **Which texts stop the caller**: those that cannot be cut after their pairs. -/
theorem fromHex_eq_panic {s : String} :
    fromHex s = .panic ↔ Hex.byteLen s.toList % 2 = 0 ∧ afterPairs s ≠ [] ∧
      Hex.cut (afterPairs s) 2 = none := by
  rw [fromHex, hexToBytes_eq]
  by_cases hlen : Hex.byteLen s.toList % 2 = 0
  · rw [if_neg (not_not.mpr hlen), readOut]
    by_cases hrest : afterPairs s = []
    · rw [if_pos hrest, Outcome.ok_bind]
      split_ifs <;> simp [hrest]
    · rw [if_neg hrest]
      rcases hcut : Hex.cut (afterPairs s) 2 with _ | p <;> simp [hlen, hrest]
  · rw [if_pos hlen]
    simp [hlen]

/-- **Which texts are of the documented format**: 32 pairs without a sign. -/
theorem isHexKey_iff {s : String} :
    IsHexKey s ↔ afterPairs s = [] ∧ (frontPairs s).length = 32 ∧
      ∀ p ∈ frontPairs s, p.1 ≠ '+' := by
  have hlength : s.length = s.toList.length := String.length_toList.symm
  simp only [IsHexKey, ← Hex.digit?_isSome_iff]
  constructor
  · rintro ⟨hlen, hdigits⟩
    have hrest : afterPairs s = [] := Hex.splitPairs_of_digits hdigits (by rw [← hlength, hlen])
    have hall := toList_eq_unpair hrest
    rw [hlength, hall, Hex.length_unpair] at hlen
    refine ⟨hrest, by omega, fun p hp hplus => ?_⟩
    have hmem : p.1 ∈ s.toList := by
      rw [hall]
      exact List.mem_flatMap.mpr ⟨p, hp, List.mem_cons_self ..⟩
    have hdigit := hdigits p.1 hmem
    rw [hplus, Hex.digit?_plus] at hdigit
    exact absurd hdigit (by simp)
  · rintro ⟨hrest, hlen, hplus⟩
    have hall := toList_eq_unpair hrest
    refine ⟨by rw [hlength, hall, Hex.length_unpair, hlen], fun c hc => ?_⟩
    rw [hall] at hc
    obtain ⟨p, hp, hcp⟩ := List.mem_flatMap.mp hc
    obtain ⟨⟨h1, h2⟩, -⟩ := Hex.ofByte_pairValue (isPair_of_mem_frontPairs hp) (hplus p hp)
    rcases List.mem_cons.mp hcp with rfl | hcp
    · exact h1
    · rwa [List.mem_singleton.mp hcp]

/-! ### Keys that are written -/

/-- The digits of some bytes, two by two. -/
def digitPairs (bytes : Bytes) : List (Char × Char) :=
  bytes.map fun b => (Nat.digitChar (b.toNat / 16), Nat.digitChar (b.toNat % 16))

theorem bytesToHex_eq (bytes : Bytes) :
    (bytesToHex bytes).toList = Hex.unpair (digitPairs bytes) := by
  rw [bytesToHex, String.toList_ofList, Hex.unpair, digitPairs, List.flatMap_map]
  rfl

theorem digit?_digitPairs (b : UInt8) :
    Hex.digit? (Nat.digitChar (b.toNat / 16)) = some (b.toNat / 16) ∧
      Hex.digit? (Nat.digitChar (b.toNat % 16)) = some (b.toNat % 16) := by
  have hb := b.toNat_lt
  exact ⟨Hex.digit?_digitChar (by omega), Hex.digit?_digitChar (by omega)⟩

/-- The digits of a byte are read as that byte. -/
theorem pairValue_digitPairs (b : UInt8) :
    Hex.pairValue (Nat.digitChar (b.toNat / 16)) (Nat.digitChar (b.toNat % 16)) = b := by
  rw [Hex.pairValue, (digit?_digitPairs b).1, (digit?_digitPairs b).2, Option.getD_some,
    Option.getD_some, Nat.div_add_mod', UInt8.ofNat_toNat]

theorem splitPairs_bytesToHex (bytes : Bytes) :
    Hex.splitPairs (bytesToHex bytes).toList = (digitPairs bytes, []) := by
  rw [bytesToHex_eq]
  refine Hex.splitPairs_unpair fun p hp => ?_
  obtain ⟨b, -, rfl⟩ := List.mem_map.mp hp
  simp [Hex.isPair, Hex.leads, (digit?_digitPairs b).1, (digit?_digitPairs b).2]

/-- **A key that is written is read back.** -/
theorem fromHex_masterKeyHex (k : Vector UInt8 32) : fromHex (masterKeyHex k) = .ok k := by
  have hsplit := splitPairs_bytesToHex k.toList
  refine fromHex_eq_ok.mpr ⟨congrArg Prod.snd hsplit, ?_⟩
  have hfront : frontPairs (masterKeyHex k) = digitPairs k.toList := congrArg Prod.fst hsplit
  rw [hfront, digitPairs, List.map_map]
  exact (List.map_id'' pairValue_digitPairs _).symm

/-- A key of the documented format is written in lower case. -/
theorem masterKeyHex_of_fromHex {s : String} {k : Vector UInt8 32} (h : fromHex s = .ok k)
    (hplus : ∀ p ∈ frontPairs s, p.1 ≠ '+') : masterKeyHex k = s.toLower := by
  obtain ⟨hrest, hval⟩ := fromHex_eq_ok.mp h
  refine String.toList_injective ?_
  have hlower : s.toLower.toList = s.toList.map Char.toLower := String.toList_map ..
  rw [masterKeyHex, bytesToHex, String.toList_ofList, hval, hlower, toList_eq_unpair hrest,
    List.flatMap_map, Hex.unpair, List.map_flatMap]
  refine List.flatMap_congr fun p hp => ?_
  exact (Hex.ofByte_pairValue (isPair_of_mem_frontPairs hp) (hplus p hp)).2

/-! ### When a text is parsed as documented -/

/-- **A text is parsed as documented**: the parser does not panic, takes it if it is of the
documented format, and then the key is written as the text in lower case. -/
structure ParsesAsDocumented (s : String) : Prop where
  noPanic : fromHex s ≠ .panic
  accepts : (fromHex s).isOk = true ↔ IsHexKey s
  writes : ∀ k, fromHex s = .ok k → masterKeyHex k = s.toLower

/-- A text that is not one of those that go wrong: where its length in bytes is even, two
bytes can be cut off what follows its pairs; and if it is 32 pairs, none of them has a
sign. -/
structure PlainText (s : String) : Prop where
  boundary : Hex.byteLen s.toList % 2 = 0 → afterPairs s ≠ [] → Hex.cut (afterPairs s) 2 ≠ none
  unsigned : afterPairs s = [] → (frontPairs s).length = 32 → ∀ p ∈ frontPairs s, p.1 ≠ '+'

/-- **When a text is parsed as documented**; the text of a key always is. -/
theorem parsesAsDocumented_iff (s : String) (key : Vector UInt8 32) :
    (ParsesAsDocumented s ↔ PlainText s) ∧ fromHex (masterKeyHex key) = .ok key := by
  refine ⟨⟨fun h => ⟨fun hlen hrest hcut => ?_, fun hrest hlen => ?_⟩, fun h =>
    ⟨fun hpanic => ?_, ?_, fun k hk => ?_⟩⟩, fromHex_masterKeyHex key⟩
  · exact h.noPanic (fromHex_eq_panic.mpr ⟨hlen, hrest, hcut⟩)
  · exact (isHexKey_iff.mp (h.accepts.mp (isOk_fromHex.mpr ⟨hrest, hlen⟩))).2.2
  · obtain ⟨hlen, hrest, hcut⟩ := fromHex_eq_panic.mp hpanic
    exact h.boundary hlen hrest hcut
  · rw [isOk_fromHex, isHexKey_iff]
    exact ⟨fun ⟨hrest, hlen⟩ => ⟨hrest, hlen, h.unsigned hrest hlen⟩,
      fun ⟨hrest, hlen, _⟩ => ⟨hrest, hlen⟩⟩
  · have hok : (fromHex s).isOk = true := by
      rw [hk]
      rfl
    obtain ⟨hrest, hlen⟩ := isOk_fromHex.mp hok
    exact masterKeyHex_of_fromHex hk (h.unsigned hrest hlen)

/-- **The parser takes other texts**, with a plus sign for a digit, and panics inside a
character of three bytes. -/
theorem not_parsesAsDocumented :
    ¬ParsesAsDocumented (String.ofList (List.replicate 32 ['+', 'f']).flatten) ∧
      ¬ParsesAsDocumented (String.ofList ['a', 'b', '0', '€']) := by
  constructor
  · intro h
    have hkey := h.accepts.mp (by decide +kernel)
    have hmem : '+' ∈ (String.ofList (List.replicate 32 ['+', 'f']).flatten).toList := by
      rw [String.toList_ofList]
      exact List.mem_cons_self ..
    exact absurd (hkey.2 '+' hmem) (by decide)
  · intro h
    exact h.noPanic (by decide +kernel)

end Sodl
