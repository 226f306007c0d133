import Sodl.Chunk.Reassemble
import Sodl.Sample
import Sodl.History

/-!
# Which manifests are put together

Root bytes that parse as a chunk manifest are handed to `Sodl.reassemble` as they
are: the reader checks every chunk and the total size, and
`Sodl.ChunkManifest.validate` is called by nobody. So a manifest that reads has
chunks of the declared size (`Sodl.Reads.chunksSize_eq`), while its version, its
chunk count and its offsets are whatever the bytes say, and the buffer is asked
for before a single chunk was seen.

`Sodl.OnlyWellFormed` is what the reader should guarantee for the bytes found
under a root id, and `Sodl.onlyWellFormed_iff` says for which bytes and which
content of the store it does.
-/

namespace Sodl

open Effect

/-- **Only well-formed manifests are put together**: reading what the root bytes
parse to does not panic, and ends in a value only if the manifest is valid and its
lengths add up to the declared size, as numbers and not only modulo `2 ^ 64`. -/
structure OnlyWellFormed (P : Platform) {σ : Type} (h : Handler storeSig σ) (s : σ)
    (root : Bytes) : Prop where
  noPanic : ∀ m, tryParseManifest P root = some m →
    (Prog.run h (reassemble P m) s).1 ≠ .panic
  valid : ∀ m x, tryParseManifest P root = some m →
    (Prog.run h (reassemble P m) s).1 = .ok x →
      m.validate = .ok () ∧ m.chunksSize = m.totalSize.toNat

variable {P : Platform} {σ : Type} {h : Handler storeSig σ} {s : σ} {fetch : Content}

/-- A manifest that reads is valid where its version, its count and its offsets
are. -/
theorem Reads.validate_iff {m : ChunkManifest} {x : Bytes} (hr : Reads P fetch m x) :
    m.validate = .ok () ↔ m.version = 1 ∧ m.chunkCount = UInt32.ofNat m.chunks.length ∧
      Contiguous 0 (m.chunks.map ChunkEntry.span) := by
  have hsum := ChunkManifest.lengthSum_eq_totalSize hr.chunksSize_eq
  rw [ChunkManifest.validate_eq_ok]
  tauto

/-- **For which root bytes only well-formed manifests are put together**: bytes
that are no manifest, or one that can be read without a panic and that, if all its
chunks are there, has version 1, the right count and contiguous offsets. -/
theorem onlyWellFormed_iff (hread : ReadsAs h s fetch) (root : Bytes) :
    OnlyWellFormed P h s root ↔ ∀ m, tryParseManifest P root = some m →
      SafeToRead P fetch m ∧ ((∃ x, Reads P fetch m x) →
        m.version = 1 ∧ m.chunkCount = UInt32.ofNat m.chunks.length ∧
          Contiguous 0 (m.chunks.map ChunkEntry.span)) := by
  constructor
  · rintro ⟨hpanic, hvalid⟩ m hm
    have hne := hpanic m hm
    rw [run_reassemble P hread] at hne
    have hsafe := gather_ne_panic.mp hne
    refine ⟨hsafe, fun ⟨x, hx⟩ => hx.validate_iff.mp (hvalid m x hm ?_).1⟩
    rw [run_reassemble P hread]
    exact gather_eq_ok.mpr ⟨hsafe.granted, hx⟩
  · intro hall
    refine ⟨fun m hm => ?_, fun m x hm hx => ?_⟩
    · rw [run_reassemble P hread]
      exact gather_ne_panic.mpr (hall m hm).1
    · rw [run_reassemble P hread] at hx
      have hr := (gather_eq_ok.mp hx).2
      exact ⟨hr.validate_iff.mpr ((hall m hm).2 ⟨x, hr⟩), hr.chunksSize_eq⟩

/-! ### A manifest that is, and one that is not -/

/-- The manifest of the bytes 1, 2, 3 in chunks of two. -/
def threeBytesManifest : ChunkManifest :=
  chunkManifest samplePlatform .blake3 3 (sampleChunking.effectiveChunker [1, 2, 3])

theorem manifestToVec_threeBytes : samplePlatform.manifestToVec threeBytesManifest =
    .ok (Sample.manifestCodec.print threeBytesManifest) := by
  have hplain : Sample.plainManifest threeBytesManifest = true := by decide +kernel
  simp only [samplePlatform, hplain, if_true]

theorem tryParseManifest_threeBytes : tryParseManifest samplePlatform
    (Sample.manifestCodec.print threeBytesManifest) = some threeBytesManifest :=
  samplePlatform_jsonRoundTrips _ _ manifestToVec_threeBytes

theorem onlyWellFormed_iff_threeBytes :
    OnlyWellFormed samplePlatform Stores.handle
      (replay samplePlatform [chunkedUpload] sampleStart).2
      (Sample.manifestCodec.print threeBytesManifest) := by
  refine (onlyWellFormed_iff (readsAs_handle _) _).mpr fun m hm => ?_
  obtain rfl : threeBytesManifest = m :=
    Option.some.inj (tryParseManifest_threeBytes.symm.trans hm)
  have hgather : gather samplePlatform (replay samplePlatform [chunkedUpload] sampleStart).2.content
      threeBytesManifest = .ok [1, 2, 3] := by decide +kernel
  exact ⟨gather_ne_panic.mp (by rw [hgather]; simp), fun _ => by decide +kernel⟩

/-- An empty manifest of a version that does not exist yet. -/
def laterManifest : ChunkManifest where
  version := 2
  totalSize := 0
  chunkCount := 0
  hashAlg := "blake3"
  chunks := []

/-- **The reader puts together what it should reject**: a manifest of version 2. -/
theorem not_onlyWellFormed :
    ¬∀ P : Platform, P.CollisionFree → P.JsonRoundTrips → P.GrantsBounded →
      ∀ (s : Stores MemIndex) (root : Bytes), OnlyWellFormed P Stores.handle s root := by
  intro h
  have hall := h samplePlatform samplePlatform_collisionFree samplePlatform_jsonRoundTrips
    samplePlatform_grantsBounded sampleStart (Sample.manifestCodec.print laterManifest)
  have hparse : tryParseManifest samplePlatform (Sample.manifestCodec.print laterManifest) =
      some laterManifest := by decide +kernel
  have hread : (Prog.run Stores.handle (reassemble samplePlatform laterManifest) sampleStart).1 =
      .ok [] := by decide +kernel
  exact absurd (hall.valid laterManifest [] hparse hread).1 (by decide +kernel)

end Sodl
