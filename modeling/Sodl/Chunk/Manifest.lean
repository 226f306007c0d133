import Mathlib.Algebra.GroupWithZero.Nat
import Mathlib.Data.UInt
import Sodl.Core
import Sodl.Effect.Prog

/-!
# The chunk manifest

The root blob of a chunked payload (`crates/sodl-chunk/src/manifest.rs`): which
blobs hold the chunks, where each of them starts and how long it is. A manifest
is written by `Sodl.chunkAndStore` and read back by `Sodl.reassemble`, and the
reader is meant to `Sodl.ChunkManifest.validate` it first.

`Sodl.ChunkManifest.validate_eq_ok` says what the four checks amount to.
-/

namespace Sodl

open Effect

/-- Consecutive spans: each starts where the one before it ended, the first at
`expected`. A span is an offset and a length. -/
def Contiguous : UInt64 → List (UInt64 × UInt32) → Prop
  | _, [] => True
  | expected, c :: cs => c.1 = expected ∧ Contiguous (expected + c.2.toUInt64) cs

instance decidableContiguous : ∀ (expected : UInt64) (cs : List (UInt64 × UInt32)),
    Decidable (Contiguous expected cs)
  | _, [] => isTrue trivial
  | expected, c :: cs =>
    haveI := decidableContiguous (expected + c.2.toUInt64) cs
    inferInstanceAs (Decidable (c.1 = expected ∧ Contiguous _ cs))

/-- A single chunk within a manifest. -/
structure ChunkEntry where
  /-- Content-addressed id of this chunk's blob. -/
  blobId : BlobId
  /-- Byte offset within the original payload. -/
  offset : UInt64
  /-- Length of this chunk in bytes. -/
  length : UInt32
  deriving DecidableEq

/-- Where an entry's chunk lies in the payload. -/
def ChunkEntry.span (c : ChunkEntry) : UInt64 × UInt32 := (c.offset, c.length)

/-- Root manifest of a chunked payload. -/
structure ChunkManifest where
  /-- Manifest format version (currently `1`). -/
  version : UInt32
  /-- Total size of the reassembled payload in bytes. -/
  totalSize : UInt64
  /-- Number of chunks. -/
  chunkCount : UInt32
  /-- Hash algorithm used for the chunk ids. -/
  hashAlg : String
  /-- The chunks, in payload order. -/
  chunks : List ChunkEntry
  deriving DecidableEq

namespace ChunkManifest

/-- The chunk lengths added up as the release build adds `u64`s. -/
def lengthSum (m : ChunkManifest) : UInt64 := (m.chunks.map fun c => c.length.toUInt64).sum

/-- The loop over the offsets: each chunk must start where the one before it
ended. -/
def checkOffsets : UInt64 → List ChunkEntry → Outcome SodlError Unit
  | _, [] => .ok ()
  | expected, c :: cs =>
    if c.offset ≠ expected then
      .err (.invalid ("chunk offset gap: expected " ++ toString expected ++ ", got " ++
        toString c.offset))
    else checkOffsets (expected + c.length.toUInt64) cs

/-- Validate internal consistency. -/
def validate (m : ChunkManifest) : Outcome SodlError Unit :=
  if m.version ≠ 1 then
    .err (.invalid ("unsupported chunk manifest version: " ++ toString m.version))
  else if m.chunkCount ≠ UInt32.ofNat m.chunks.length then
    .err (.invalid "chunk_count doesn't match chunks length")
  else if m.lengthSum ≠ m.totalSize then
    .err (.invalid ("total_size mismatch: declared " ++ toString m.totalSize ++ ", actual " ++
      toString m.lengthSum))
  else checkOffsets 0 m.chunks

theorem checkOffsets_eq_ok {expected : UInt64} {cs : List ChunkEntry} :
    checkOffsets expected cs = .ok () ↔ Contiguous expected (cs.map ChunkEntry.span) := by
  induction cs generalizing expected with
  | nil => simp [checkOffsets, Contiguous]
  | cons c cs ih =>
    by_cases h : c.offset = expected
    · simp [checkOffsets, Contiguous, ChunkEntry.span, h, ih]
    · simp [checkOffsets, Contiguous, ChunkEntry.span, h]

/-- **What validation accepts.** -/
theorem validate_eq_ok {m : ChunkManifest} :
    m.validate = .ok () ↔ m.version = 1 ∧ m.chunkCount = UInt32.ofNat m.chunks.length ∧
      m.lengthSum = m.totalSize ∧ Contiguous 0 (m.chunks.map ChunkEntry.span) := by
  rw [validate]
  by_cases hv : m.version = 1
  · by_cases hc : m.chunkCount = UInt32.ofNat m.chunks.length
    · by_cases hs : m.lengthSum = m.totalSize
      · simp [hv, hc, hs, checkOffsets_eq_ok]
      · simp [hv, hc, hs]
    · simp [hv, hc]
  · simp [hv]

/-- The size a manifest's chunks really add up to. -/
def chunksSize (m : ChunkManifest) : ℕ := (m.chunks.map fun c => c.length.toNat).sum

private theorem toNat_sum_toUInt64 (ls : List ChunkEntry)
    (h : (ls.map fun c => c.length.toNat).sum < 2 ^ 64) :
    ((ls.map fun c : ChunkEntry => c.length.toUInt64).sum).toNat =
      (ls.map fun c => c.length.toNat).sum := by
  induction ls with
  | nil => rfl
  | cons c ls ih =>
    simp only [List.map_cons, List.sum_cons] at h ⊢
    rw [UInt64.toNat_add, ih (by omega), UInt32.toNat_toUInt64]
    exact Nat.mod_eq_of_lt h

/-- Where the true sum is the declared size, the `u64` sum is it too. -/
theorem lengthSum_eq_totalSize {m : ChunkManifest} (h : m.chunksSize = m.totalSize.toNat) :
    m.lengthSum = m.totalSize := by
  have hlt : m.chunksSize < 2 ^ 64 := h ▸ m.totalSize.toNat_lt
  exact UInt64.toNat_inj.mp ((toNat_sum_toUInt64 m.chunks hlt).trans h)

end ChunkManifest

end Sodl
