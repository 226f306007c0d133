import Sodl.Cas
import Sodl.Crypto
import Sodl.Data.Codec

/-!
# A platform to compute with

The functions of other crates are parameters of the development. Here they are
given concrete values, so that the definitions can be evaluated on an input: a
"digest" that writes the bytes out in hexadecimal, which has no collisions for
the plain reason that it forgets nothing, the usual text of a UUID, and the JSON
text of a chunk manifest in the field order and spacing of `serde_json::to_vec`,
for manifests whose strings need no escapes.

`Sodl.samplePlatform` has every property a platform is asked for anywhere:
`Sodl.samplePlatform_collisionFree`, `Sodl.samplePlatform_digestsAreHex`,
`Sodl.samplePlatform_jsonRoundTrips`, `Sodl.samplePlatform_uuidRoundTrips`,
`Sodl.samplePlatform_grantsBounded`.
-/

namespace Sodl

open Effect

namespace Sample

/-! ### Hexadecimal -/

/-- The two hexadecimal digits of a byte. -/
def hexByte (b : UInt8) : List Char := [Nat.digitChar (b.toNat / 16), Nat.digitChar (b.toNat % 16)]

/-- Bytes written out in hexadecimal. -/
def hex (bs : Bytes) : List Char := bs.flatMap hexByte

/-- The value of a hexadecimal digit. -/
def hexValue (c : Char) : Option ℕ := (List.range 16).find? fun n => Nat.digitChar n = c

/-- Read bytes from their hexadecimal digits. -/
def unhex : List Char → Option Bytes
  | [] => some []
  | c :: d :: cs => do
    let hi ← hexValue c
    let lo ← hexValue d
    let rest ← unhex cs
    some (UInt8.ofNat (16 * hi + lo) :: rest)
  | _ => none

theorem hexValue_digitChar {n : ℕ} (h : n < 16) : hexValue (Nat.digitChar n) = some n := by
  have hall : ∀ n ∈ List.range 16, hexValue (Nat.digitChar n) = some n := by decide
  exact hall n (List.mem_range.mpr h)

theorem digitChar_mem {n : ℕ} (h : n < 16) : Nat.digitChar n ∈ "0123456789abcdef".toList := by
  have hall : ∀ n ∈ List.range 16, Nat.digitChar n ∈ "0123456789abcdef".toList := by decide
  exact hall n (List.mem_range.mpr h)

theorem unhex_hex (bs : Bytes) : unhex (hex bs) = some bs := by
  induction bs with
  | nil => rfl
  | cons b bs ih =>
    have hb := b.toNat_lt
    have hhi := hexValue_digitChar (n := b.toNat / 16) (by omega)
    have hlo := hexValue_digitChar (n := b.toNat % 16) (by omega)
    have hval : UInt8.ofNat (16 * (b.toNat / 16) + b.toNat % 16) = b := by
      rw [Nat.div_add_mod]
      exact UInt8.ofNat_toNat
    have hcons : hex (b :: bs) =
        Nat.digitChar (b.toNat / 16) :: Nat.digitChar (b.toNat % 16) :: hex bs := rfl
    rw [hcons, unhex, hhi, hlo, ih]
    exact congrArg (fun v => some (v :: bs)) hval

theorem hex_injective : Function.Injective hex := by
  intro a b h
  have ha := unhex_hex a
  rw [h, unhex_hex] at ha
  exact (Option.some.inj ha).symm

theorem mem_hex {bs : Bytes} {c : Char} (h : c ∈ hex bs) : c ∈ "0123456789abcdef".toList := by
  obtain ⟨b, -, hc⟩ := List.mem_flatMap.mp h
  have hb := b.toNat_lt
  rcases List.mem_cons.mp hc with rfl | hc
  · exact digitChar_mem (by omega)
  · obtain rfl := List.mem_singleton.mp hc
    exact digitChar_mem (by omega)

/-- A digest that forgets nothing: a zero, and the bytes in hexadecimal. -/
def digest (bs : Bytes) : String := String.ofList ('0' :: hex bs)

/-! ### UUIDs -/

/-- The hyphenated text of a UUID. -/
def uuidText (u : Uuid) : String :=
  let bs := u.asBytes.toList
  String.ofList (hex (bs.take 4) ++ '-' :: hex ((bs.drop 4).take 2) ++ '-' ::
    hex ((bs.drop 6).take 2) ++ '-' :: hex ((bs.drop 8).take 2) ++ '-' :: hex (bs.drop 10))

/-- Read a UUID from its hyphenated text. -/
def uuidParse (s : String) : Option Uuid := do
  let bs ← unhex (s.toList.filter (· ≠ '-'))
  if h : bs.toArray.size = 16 then
    let u : Uuid := ⟨⟨bs.toArray, h⟩⟩
    if uuidText u = s then some u else none
  else none

theorem filter_hex (bs : Bytes) : (hex bs).filter (· ≠ '-') = hex bs := by
  refine List.filter_eq_self.mpr fun c hc => ?_
  have hall : "0123456789abcdef".toList.all (fun c => decide (c ≠ '-')) = true := by decide
  exact List.all_eq_true.mp hall c (mem_hex hc)

theorem hex_append (a b : Bytes) : hex (a ++ b) = hex a ++ hex b := List.flatMap_append

theorem filter_uuidText (u : Uuid) :
    (uuidText u).toList.filter (· ≠ '-') = hex u.asBytes.toList := by
  have hsplit : u.asBytes.toList = u.asBytes.toList.take 4 ++ ((u.asBytes.toList.drop 4).take 2 ++
      ((u.asBytes.toList.drop 6).take 2 ++ ((u.asBytes.toList.drop 8).take 2 ++
        u.asBytes.toList.drop 10))) := by
    have h8 := List.take_append_drop 2 (u.asBytes.toList.drop 8)
    have h6 := List.take_append_drop 2 (u.asBytes.toList.drop 6)
    have h4 := List.take_append_drop 2 (u.asBytes.toList.drop 4)
    rw [List.drop_drop] at h8 h6 h4
    rw [h8, h6, h4, List.take_append_drop]
  conv_rhs => rw [hsplit]
  simp only [uuidText, String.toList_ofList, hex_append, List.filter_append, List.filter_cons,
    filter_hex]
  simp

theorem uuidParse_uuidText (u : Uuid) : uuidParse (uuidText u) = some u := by
  have hsize : u.asBytes.toList.toArray.size = 16 := by simp
  have hu : (⟨⟨u.asBytes.toList.toArray, hsize⟩⟩ : Uuid) = u := by
    obtain ⟨⟨⟨l⟩, hl⟩⟩ := u
    rfl
  rw [uuidParse, filter_uuidText, unhex_hex]
  simp only [Option.bind_eq_bind, Option.bind_some, dif_pos hsize, hu, if_true]

/-! ### Chunk manifests as JSON -/

/-- The byte of an ASCII character. -/
def byteOf (c : Char) : UInt8 := UInt8.ofNat c.toNat

/-- The bytes of an ASCII text. -/
def ascii (s : String) : Bytes := s.toList.map byteOf

/-- A character that stands for itself in a JSON string. -/
def plainChar (c : Char) : Bool := 0x20 ≤ c.toNat && c.toNat < 0x7f && c != '\x22' && c != '\x5c'

/-- A text of such characters. -/
def plain (s : String) : Bool := s.toList.all plainChar

theorem charOf_byteOf {c : Char} (h : plainChar c = true) : Char.ofNat (byteOf c).toNat = c := by
  have hlt : c.toNat < 0x7f := by
    simp only [plainChar, Bool.and_eq_true, decide_eq_true_eq] at h
    exact h.1.1.2
  have hsize : c.toNat < UInt8.size := by
    show c.toNat < 256
    omega
  rw [byteOf, UInt8.toNat_ofNat_of_lt' hsize, Char.ofNat_toNat]

theorem byteOf_ne_quote {c : Char} (h : plainChar c = true) : byteOf c ≠ byteOf '\x22' := by
  intro he
  have hc := charOf_byteOf h
  rw [he] at hc
  have hq : c = '\x22' := hc.symm.trans (by decide)
  rw [hq] at h
  exact absurd h (by decide)

/-- A string up to its closing quote. -/
def stringCodec : Codec UInt8 String :=
  Codec.token (byteOf '\x22') (fun s => plain s = true) ascii
    (fun bs => some (String.ofList (bs.map fun b => Char.ofNat b.toNat)))
    (by
      intro s hs hmem
      obtain ⟨c, hc, heq⟩ := List.mem_map.mp hmem
      exact byteOf_ne_quote (List.all_eq_true.mp hs c hc) heq)
    (by
      intro s hs
      have hmap : (ascii s).map (fun b => Char.ofNat b.toNat) = s.toList := by
        rw [ascii, List.map_map]
        refine (List.map_congr_left fun c hc => ?_).trans (List.map_id _)
        exact charOf_byteOf (List.all_eq_true.mp hs c hc)
      rw [hmap, String.ofList_toList])

/-- A decimal digit. -/
def digitByte (d : ℕ) : UInt8 := UInt8.ofNat (48 + d)

/-- Read a number below `bound` from its digits. -/
def scanNumber (bound : ℕ) (bs : Bytes) : Option ℕ :=
  if bs ≠ [] ∧ (bs.all fun b => 48 ≤ b.toNat ∧ b.toNat < 58) then
    let n := Codec.ofDigits (bs.map fun b => b.toNat - 48)
    if n < bound then some n else none
  else none

theorem digitByte_toNat {d : ℕ} (h : d < 10) : (digitByte d).toNat = 48 + d :=
  UInt8.toNat_ofNat_of_lt' (by
    show 48 + d < 256
    omega)

theorem scanNumber_digits {bound n : ℕ} (hb : bound ≤ 10 ^ 20) (hn : n < bound) :
    scanNumber bound ((Codec.digits 20 n).map digitByte) = some n := by
  have hne : (Codec.digits 20 n).map digitByte ≠ [] := by
    simpa using Codec.digits_ne_nil 19 n
  have hdig : ∀ b ∈ (Codec.digits 20 n).map digitByte, 48 ≤ b.toNat ∧ b.toNat < 58 := by
    intro b hmem
    obtain ⟨d, hd, rfl⟩ := List.mem_map.mp hmem
    have hd10 := Codec.digits_lt hd
    rw [digitByte_toNat hd10]
    omega
  have hall : (((Codec.digits 20 n).map digitByte).all fun b => 48 ≤ b.toNat ∧ b.toNat < 58) =
      true := List.all_eq_true.mpr fun b hmem => decide_eq_true (hdig b hmem)
  have hback : ((Codec.digits 20 n).map digitByte).map (fun b => b.toNat - 48) =
      Codec.digits 20 n := by
    rw [List.map_map]
    refine (List.map_congr_left fun d hd => ?_).trans (List.map_id _)
    show (digitByte d).toNat - 48 = d
    rw [digitByte_toNat (Codec.digits_lt hd)]
    omega
  rw [scanNumber, if_pos ⟨hne, hall⟩, hback, Codec.ofDigits_digits (by omega)]
  simp [hn]

/-- A number below `bound` up to the symbol `stop`, which is not a digit. -/
def numberCodec (bound : ℕ) (stop : UInt8) (hb : bound ≤ 10 ^ 20)
    (hs : stop.toNat < 48 ∨ 58 ≤ stop.toNat) :
    Codec UInt8 ℕ :=
  Codec.token stop (fun n => n < bound) (fun n => (Codec.digits 20 n).map digitByte)
    (scanNumber bound)
    (by
      intro n _ hmem
      obtain ⟨d, hd, rfl⟩ := List.mem_map.mp hmem
      have hd10 := Codec.digits_lt hd
      rw [digitByte_toNat hd10] at hs
      omega)
    (fun n hn => scanNumber_digits hb hn)

/-- A `u32` up to a stop symbol. -/
def u32Codec (stop : UInt8) (hs : stop.toNat < 48 ∨ 58 ≤ stop.toNat) : Codec UInt8 UInt32 :=
  (numberCodec (2 ^ 32) stop (by decide) hs).imap UInt32.ofNat UInt32.toNat fun _ =>
    UInt32.ofNat_toNat

/-- A `u64` up to a stop symbol. -/
def u64Codec (stop : UInt8) (hs : stop.toNat < 48 ∨ 58 ≤ stop.toNat) : Codec UInt8 UInt64 :=
  (numberCodec (2 ^ 64) stop (by decide) hs).imap UInt64.ofNat UInt64.toNat fun _ =>
    UInt64.ofNat_toNat

/-- The JSON text of a chunk entry. -/
def entryCodec : Codec UInt8 ChunkEntry :=
  ((Codec.literal (ascii "\x7b\"blob_id\":\"")).pair (stringCodec.pair
    ((Codec.literal (ascii ",\"offset\":")).pair ((u64Codec (byteOf ',') (by decide)).pair
      ((Codec.literal (ascii "\"length\":")).pair (u32Codec (byteOf '\x7d') (by decide))))))).imap
    (fun p => ⟨⟨p.2.1⟩, p.2.2.2.1, p.2.2.2.2.2⟩)
    (fun c => ((), c.blobId.val, (), c.offset, (), c.length)) fun _ => rfl

/-- The JSON text of a chunk manifest. -/
def manifestCodec : Codec UInt8 ChunkManifest :=
  ((Codec.literal (ascii "\x7b\"version\":")).pair ((u32Codec (byteOf ',') (by decide)).pair
    ((Codec.literal (ascii "\"total_size\":")).pair ((u64Codec (byteOf ',') (by decide)).pair
      ((Codec.literal (ascii "\"chunk_count\":")).pair ((u32Codec (byteOf ',') (by decide)).pair
        ((Codec.literal (ascii "\"hash_alg\":\"")).pair (stringCodec.pair
          ((Codec.literal (ascii ",\"chunks\":")).pair
            ((Codec.array entryCodec (byteOf '[') (byteOf ',') (byteOf ']') (by decide)
              (by
                intro a _ rest
                exact ⟨_, _, rfl, by decide⟩)).pair
              (Codec.literal (ascii "\x7d")))))))))))).imap
    (fun p => ⟨p.2.1, p.2.2.2.1, p.2.2.2.2.2.1, p.2.2.2.2.2.2.2.1, p.2.2.2.2.2.2.2.2.2.1⟩)
    (fun m => ((), m.version, (), m.totalSize, (), m.chunkCount, (), m.hashAlg, (), m.chunks, ()))
    fun _ => rfl

/-- A manifest whose strings need no escapes. -/
def plainManifest (m : ChunkManifest) : Bool :=
  plain m.hashAlg && m.chunks.all fun c => plain c.blobId.val

theorem entryCodec_valid {c : ChunkEntry} (h : plain c.blobId.val = true) : entryCodec.Valid c :=
  ⟨trivial, h, trivial, c.offset.toNat_lt, trivial, c.length.toNat_lt⟩

theorem manifestCodec_valid {m : ChunkManifest} (h : plainManifest m = true) :
    manifestCodec.Valid m := by
  simp only [plainManifest, Bool.and_eq_true, List.all_eq_true] at h
  exact ⟨trivial, m.version.toNat_lt, trivial, m.totalSize.toNat_lt, trivial,
    m.chunkCount.toNat_lt, trivial, h.1, trivial, fun c hc => entryCodec_valid (h.2 c hc), trivial⟩

end Sample

/-! ### The platform -/

/-- A platform to compute with, whose allocator serves up to a megabyte. -/
def samplePlatform : Platform where
  hexDigest _ bs := Sample.digest bs
  uuidToString := Sample.uuidText
  uuidParseStr := Sample.uuidParse
  manifestToVec m :=
    if Sample.plainManifest m then .ok (Sample.manifestCodec.print m)
    else .error "string needs escapes"
  manifestFromSlice := Sample.manifestCodec.parse
  grants n := n ≤ 2 ^ 20

theorem samplePlatform_collisionFree : samplePlatform.CollisionFree := by
  intro alg a b h
  have hl : '0' :: Sample.hex a = '0' :: Sample.hex b := String.ofList_injective h
  exact Sample.hex_injective (List.cons.inj hl).2

theorem samplePlatform_digestsAreHex : samplePlatform.DigestsAreHex := by
  intro alg b
  have hdigit : ∀ c ∈ '0' :: Sample.hex b, c ∈ "0123456789abcdef".toList := by
    refine List.forall_mem_cons.mpr ⟨by decide, fun c hc => ?_⟩
    obtain ⟨x, -, hx⟩ := List.mem_flatMap.mp hc
    have hlt := x.toNat_lt
    rcases List.mem_cons.mp hx with rfl | hx
    · exact Sample.digitChar_mem (by omega)
    · rw [List.mem_singleton.mp hx]
      exact Sample.digitChar_mem (by omega)
  have hlist : (samplePlatform.hexDigest alg b).toList = '0' :: Sample.hex b := String.toList_ofList
  refine ⟨fun hempty => ?_, fun c hc => hdigit c (hlist ▸ hc)⟩
  rw [hempty] at hlist
  exact absurd hlist nofun

theorem samplePlatform_jsonRoundTrips : samplePlatform.JsonRoundTrips := by
  intro m b h
  by_cases hp : Sample.plainManifest m = true
  · have hb : Sample.manifestCodec.print m = b := by
      simpa [samplePlatform, hp] using h
    rw [← hb]
    exact Sample.manifestCodec.parse_print (Sample.manifestCodec_valid hp)
  · simp [samplePlatform, hp] at h

theorem samplePlatform_grantsBounded : samplePlatform.GrantsBounded := by
  intro n h
  have hn : n ≤ 2 ^ 20 := of_decide_eq_true h
  exact Nat.le_trans hn (by decide)

theorem samplePlatform_uuidRoundTrips : samplePlatform.UuidRoundTrips := Sample.uuidParse_uuidText

end Sodl
