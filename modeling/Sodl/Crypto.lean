import Sodl.Platform

/-!
# Crypto providers

The encryption boundary (`crates/sodl-crypto`): a provider encrypts and decrypts
bytes for an origin, and the three providers of the workspace. `NullCrypto` does
nothing, `DevXorCrypto` masks every byte, and `AeadCrypto` derives a key per
origin and a nonce per plaintext and wraps the cipher in a versioned envelope.

Nothing else in the workspace looks into a provider. What its callers need is
`Sodl.Crypto.RoundTrips`, and each of the three has it:
`Sodl.nullCrypto_roundTrips`, `Sodl.devXorCrypto_roundTrips`, and
`Sodl.aeadCrypto_roundTrips` where the cipher behind it is lawful.
-/

namespace Sodl

open Effect

/-- Components that can both encrypt and decrypt. -/
structure Crypto where
  encryptForOrigin : OriginId → Bytes → Outcome SodlError Bytes
  decryptForOrigin : OriginId → Bytes → Outcome SodlError Bytes

/-- What was encrypted for an origin decrypts for it. -/
def Crypto.RoundTrips (c : Crypto) : Prop :=
  ∀ o x y, c.encryptForOrigin o x = .ok y → c.decryptForOrigin o y = .ok x

/-! ### The development providers -/

/-- `NullCrypto`: no encryption. -/
def nullCrypto : Crypto where
  encryptForOrigin _ plaintext := .ok plaintext
  decryptForOrigin _ ciphertext := .ok ciphertext

theorem nullCrypto_roundTrips : nullCrypto.RoundTrips := by
  intro o x y h
  exact congrArg Outcome.ok (Outcome.ok.inj h).symm

/-- The mask of `DevXorCrypto`: the key byte and every byte of the origin id. -/
def devXorMask (keyByte : UInt8) (o : OriginId) : UInt8 :=
  o.uuid.asBytes.toList.foldl (· ^^^ ·) keyByte

/-- Mask every byte. -/
def devXorApply (keyByte : UInt8) (o : OriginId) (bytes : Bytes) : Bytes :=
  bytes.map fun v => v ^^^ devXorMask keyByte o

/-- `DevXorCrypto`: decryption is encryption again. -/
def devXorCrypto (keyByte : UInt8) : Crypto where
  encryptForOrigin o plaintext := .ok (devXorApply keyByte o plaintext)
  decryptForOrigin o ciphertext := .ok (devXorApply keyByte o ciphertext)

theorem devXorApply_devXorApply (keyByte : UInt8) (o : OriginId) (x : Bytes) :
    devXorApply keyByte o (devXorApply keyByte o x) = x := by
  have hxor : ∀ v : UInt8, v ^^^ devXorMask keyByte o ^^^ devXorMask keyByte o = v := by
    intro v
    rw [UInt8.xor_assoc, UInt8.xor_self, UInt8.xor_zero]
  rw [devXorApply, devXorApply, List.map_map]
  exact List.map_id'' hxor x

theorem devXorCrypto_roundTrips (keyByte : UInt8) : (devXorCrypto keyByte).RoundTrips := by
  intro o x y h
  obtain rfl : devXorApply keyByte o x = y := Outcome.ok.inj h
  exact congrArg Outcome.ok (devXorApply_devXorApply keyByte o x)

/-! ### The production provider -/

/-- The functions of other crates behind `AeadCrypto`. -/
structure AeadSuite where
  /-- `Hkdf::<Sha256>::new(None, master_key)` expanded by an info text to 32 bytes. -/
  hkdfExpand : Vector UInt8 32 → String → Bytes
  /-- The 32 bytes of a BLAKE3 hash. -/
  blake3 : Bytes → Bytes
  /-- `XChaCha20Poly1305` under a key and a nonce: ciphertext and tag. -/
  encrypt : Bytes → Bytes → Bytes → Option Bytes
  /-- Its inverse, failing on a tag that does not match. -/
  decrypt : Bytes → Bytes → Bytes → Option Bytes

/-- What `AeadCrypto` relies on. -/
structure AeadSuite.Lawful (A : AeadSuite) : Prop where
  blake3_length : ∀ b, (A.blake3 b).length = 32
  encrypt_length : ∀ k n x y, A.encrypt k n x = some y → y.length = x.length + 16
  decrypt_encrypt : ∀ k n x y, A.encrypt k n x = some y → A.decrypt k n y = some x

/-- The version byte of an envelope. -/
def envelopeVersion : UInt8 := 0x01

/-- The length of a nonce. -/
def nonceLen : ℕ := 24

/-- The shortest envelope: version, nonce and tag. -/
def minCiphertextLen : ℕ := 1 + nonceLen + 16

variable (P : Platform) (A : AeadSuite)

/-- The key of an origin. -/
def deriveOriginKey (masterKey : Vector UInt8 32) (o : OriginId) : Bytes :=
  A.hkdfExpand masterKey ("sodl-origin-v1:" ++ P.uuidToString o.uuid)

/-- The nonce of a plaintext under a key. -/
def deterministicNonce (originKey plaintext : Bytes) : Bytes :=
  (A.blake3 (originKey ++ plaintext)).take nonceLen

/-- `AeadCrypto`: an envelope of version, nonce, and ciphertext with its tag. -/
def aeadCrypto (masterKey : Vector UInt8 32) : Crypto where
  encryptForOrigin o plaintext :=
    let originKey := deriveOriginKey P A masterKey o
    let nonce := deterministicNonce A originKey plaintext
    match A.encrypt originKey nonce plaintext with
    | none => .err (.crypto "AEAD encrypt failed: aead::Error")
    | some ciphertext => .ok (envelopeVersion :: (nonce ++ ciphertext))
  decryptForOrigin o ciphertext :=
    if ciphertext.length < minCiphertextLen then
      .err (.crypto ("ciphertext too short: " ++ toString ciphertext.length ++ " bytes (min " ++
        toString minCiphertextLen ++ ")"))
    else
      match ciphertext with
      -- not reached: a version is the least there is
      | [] => .panic
      | version :: rest =>
        if version ≠ envelopeVersion then
          .err (.crypto ("unsupported ciphertext version: 0x" ++ hexByte version ++
            " (expected 0x" ++ hexByte envelopeVersion ++ ")"))
        else
          match A.decrypt (deriveOriginKey P A masterKey o) (rest.take nonceLen)
              (rest.drop nonceLen) with
          | none => .err (.crypto "AEAD decrypt failed (wrong key or tampered): aead::Error")
          | some plaintext => .ok plaintext
where
  /-- Two hexadecimal digits. -/
  hexByte (b : UInt8) : String :=
    String.ofList [Nat.digitChar (b.toNat / 16), Nat.digitChar (b.toNat % 16)]

variable {A}

theorem deterministicNonce_length (hA : A.Lawful) (originKey plaintext : Bytes) :
    (deterministicNonce A originKey plaintext).length = nonceLen := by
  rw [deterministicNonce, List.length_take, hA.blake3_length]
  rfl

/-- What is encrypted is an envelope around a nonce and a ciphertext. -/
theorem encryptForOrigin_eq_ok {masterKey : Vector UInt8 32} {o : OriginId} {x y : Bytes}
    (h : (aeadCrypto P A masterKey).encryptForOrigin o x = .ok y) :
    ∃ ct, A.encrypt (deriveOriginKey P A masterKey o)
        (deterministicNonce A (deriveOriginKey P A masterKey o) x) x = some ct ∧
      y = envelopeVersion :: (deterministicNonce A (deriveOriginKey P A masterKey o) x ++ ct) := by
  rcases hct : A.encrypt (deriveOriginKey P A masterKey o)
      (deterministicNonce A (deriveOriginKey P A masterKey o) x) x with _ | ct
  · simp [aeadCrypto, hct] at h
  · refine ⟨ct, rfl, ?_⟩
    simpa [aeadCrypto, hct, eq_comm] using h

/-- An envelope is cut at the nonce, and the rest is decrypted. -/
theorem decryptForOrigin_envelope (masterKey : Vector UInt8 32) (o : OriginId) {nonce ct : Bytes}
    (hnonce : nonce.length = nonceLen) (hct : 16 ≤ ct.length) :
    (aeadCrypto P A masterKey).decryptForOrigin o (envelopeVersion :: (nonce ++ ct)) =
      match A.decrypt (deriveOriginKey P A masterKey o) nonce ct with
      | none => .err (.crypto "AEAD decrypt failed (wrong key or tampered): aead::Error")
      | some plaintext => .ok plaintext := by
  have hlen : ¬(envelopeVersion :: (nonce ++ ct)).length < minCiphertextLen := by
    simp only [List.length_cons, List.length_append, hnonce, minCiphertextLen]
    omega
  have htake : (nonce ++ ct).take nonceLen = nonce := by rw [← hnonce, List.take_left]
  have hdrop : (nonce ++ ct).drop nonceLen = ct := by rw [← hnonce, List.drop_left]
  show (if _ < minCiphertextLen then _ else _) = _
  rw [if_neg hlen]
  simp only [ne_eq, not_true_eq_false, if_false, htake, hdrop]

theorem aeadCrypto_roundTrips (hA : A.Lawful) (masterKey : Vector UInt8 32) :
    (aeadCrypto P A masterKey).RoundTrips := by
  intro o x y h
  obtain ⟨ct, hct, rfl⟩ := encryptForOrigin_eq_ok P h
  have hlen := hA.encrypt_length _ _ _ _ hct
  rw [decryptForOrigin_envelope P masterKey o (deterministicNonce_length hA _ x) (by omega),
    hA.decrypt_encrypt _ _ _ _ hct]

end Sodl
