import Sodl.Chunk.Manifest

/-!
# What the workspace takes from other crates

The hash functions, the UUID text format, the JSON reader and writer of the chunk
manifest, and the allocator are not part of the repository. A `Sodl.Platform` is
a choice of them, and every definition that uses one takes the platform as its
first argument.

What the code relies on is stated next to it, as properties of a platform:
`Sodl.Platform.CollisionFree` for the hashes, `Sodl.Platform.JsonRoundTrips` for
`serde_json`, and so on. None of them mentions a definition of the repository.
-/

namespace Sodl

open Effect

/-- Hash algorithm identifier. -/
inductive HashAlg
  | blake3
  | sha256
  deriving DecidableEq

/-- The name of an algorithm, as it stands before the colon of a blob id. -/
def HashAlg.name : HashAlg → String
  | blake3 => "blake3"
  | sha256 => "sha256"

/-- The third-party functions the workspace calls. -/
structure Platform where
  /-- The hexadecimal digest of an algorithm: `blake3::hash(..).to_hex()` and
  `format!("{:x}", Sha256)`. -/
  hexDigest : HashAlg → Bytes → String
  /-- `Uuid`'s hyphenated text form. -/
  uuidToString : Uuid → String
  /-- `Uuid::parse_str`. -/
  uuidParseStr : String → Option Uuid
  /-- `serde_json::to_vec` on a chunk manifest, with the text of its error. -/
  manifestToVec : ChunkManifest → Except String Bytes
  /-- `serde_json::from_slice` at the type of chunk manifests, with the error
  dropped. -/
  manifestFromSlice : Bytes → Option ChunkManifest
  /-- Whether the allocator serves a buffer of a given capacity. -/
  grants : ℕ → Bool

namespace Platform

/-- No two byte strings have the same digest. -/
def CollisionFree (P : Platform) : Prop := ∀ alg, Function.Injective (P.hexDigest alg)

/-- A manifest that was written is read back as it was. -/
def JsonRoundTrips (P : Platform) : Prop :=
  ∀ m b, P.manifestToVec m = .ok b → P.manifestFromSlice b = some m

/-- No buffer is larger than `isize::MAX` bytes. -/
def GrantsBounded (P : Platform) : Prop := ∀ n, P.grants n = true → n ≤ isizeMax

/-- Digests are written in hexadecimal digits, at least one of them. -/
def DigestsAreHex (P : Platform) : Prop :=
  ∀ alg b, P.hexDigest alg b ≠ "" ∧ ∀ c ∈ (P.hexDigest alg b).toList, c ∈ "0123456789abcdef".toList

/-- Different UUIDs are written differently. -/
def UuidTextInjective (P : Platform) : Prop := Function.Injective P.uuidToString

/-- A UUID that was written is read back as it was. -/
def UuidRoundTrips (P : Platform) : Prop := ∀ u, P.uuidParseStr (P.uuidToString u) = some u

theorem UuidRoundTrips.injective {P : Platform} (h : P.UuidRoundTrips) : P.UuidTextInjective := by
  intro u v huv
  have hu := h u
  rw [huv, h v] at hu
  exact (Option.some.inj hu).symm

/-- `Vec::with_capacity`: an empty buffer, or a panic or abort where the allocator
does not serve the capacity. -/
def vecWithCapacity (P : Platform) (n : ℕ) : Outcome SodlError Bytes :=
  if P.grants n then .ok [] else .panic

/-- Whether a buffer made with a capacity can hold `n` bytes: within the capacity
it need not grow, beyond it the allocator has to serve it again. -/
def Holds (P : Platform) (capacity n : ℕ) : Prop := n ≤ capacity ∨ P.grants n = true

instance (P : Platform) (capacity n : ℕ) : Decidable (P.Holds capacity n) :=
  inferInstanceAs (Decidable (_ ∨ _))

/-- `Vec::extend_from_slice` on a buffer made with a capacity: a panic or abort
where it would have to grow and cannot. -/
def extendFromSlice (P : Platform) (capacity : ℕ) (buf bytes : Bytes) : Outcome SodlError Bytes :=
  if P.Holds capacity (buf ++ bytes).length then .ok (buf ++ bytes) else .panic

end Platform

end Sodl
