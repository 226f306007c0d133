import Mathlib.Algebra.Order.Field.Rat
import Mathlib.Data.List.Sort
import Sodl.Persist
import Sodl.Service

/-!
# Provenance

Where a sequence of bytes may come from: the uploads with the same payload, and the
uploads that share a chunk with it (`resolve_provenance` of `crates/sodl-service/src/lib.rs`
over the trait `ProvenanceIndex`). An index counts, for a list of fingerprints, how many of
them each origin was recorded under.

The in-memory index counts the elements of the list, and the database the different ones
among them. Neither says in which order it finds origins with the same count: a hash map
gives its entries in some order, and so does a `SELECT` without `ORDER BY`, so that an
order is a parameter (`Sodl.Unordered`). Ratios are exact.
-/

namespace Sodl

open Effect

/-! ### The index -/

/-- The orders in which a hash map gives its entries and a `SELECT` its rows. -/
structure Unordered where
  entries : List (OriginId × ℕ) → List (OriginId × ℕ)
  rows : List String → List String
  entries_perm : ∀ l, (entries l).Perm l
  rows_perm : ∀ l, (rows l).Perm l

/-- The part of the trait `ProvenanceIndex` that reads. -/
class ProvenanceIndex (I : Type) where
  findByPayloadFingerprint : Unordered → String → I → Outcome SodlError (List OriginId)
  findByChunkFingerprints : Unordered → List String → I → Outcome SodlError (List (OriginId × ℕ))

/-- `counts.into_iter().collect()`, sorted by descending count. -/
def sortedCounts (u : Unordered) (counts : Counter OriginId) : List (OriginId × ℕ) :=
  (u.entries (counts.entries.map fun e => (e.1, e.2))).insertionSort fun a b => b.2 ≤ a.2

instance : ProvenanceIndex MemIndex where
  findByPayloadFingerprint _ fingerprint i :=
    .ok ((i.payloadFingerprints.lookup fingerprint).getD [])
  findByChunkFingerprints u fingerprints i :=
    let count (counts : Counter OriginId) (fingerprint : String) : Counter OriginId :=
      match i.chunkFingerprints.lookup fingerprint with
      | some origins => counts.incAll origins
      | none => counts
    -- a fingerprint that comes twice counts twice
    .ok (sortedCounts u (fingerprints.foldl count ∅))

namespace SqliteIndex

variable (P : Platform)

/-- `SELECT origin_id … WHERE fingerprint = ?1`. -/
def selectOrigins (u : Unordered) (rows : List (String × String)) (fingerprint : String) :
    Outcome SodlError (List OriginId) :=
  parseOrigins P (u.rows ((rows.filter fun r => r.1 = fingerprint).map Prod.snd))

/-- Count the origins recorded under each of some fingerprints. -/
def countOrigins (u : Unordered) (rows : List (String × String)) :
    List String → Counter OriginId → Outcome SodlError (Counter OriginId)
  | [], counts => .ok counts
  | fingerprint :: fingerprints, counts => do
    let origins ← selectOrigins P u rows fingerprint
    countOrigins u rows fingerprints (counts.incAll origins)

instance : ProvenanceIndex (SqliteIndex P) where
  findByPayloadFingerprint u fingerprint i := selectOrigins P u i.payloadFingerprints fingerprint
  -- a fingerprint that was met before is skipped
  findByChunkFingerprints u fingerprints i := do
    let counts ← countOrigins P u i.chunkFingerprints fingerprints.eraseDups ∅
    .ok (sortedCounts u counts)

end SqliteIndex

/-! ### Resolution -/

inductive ProvenanceMatchKind
  | exactPayload
  | chunkOverlap (matchedChunks totalChunks : ℕ) (ratio : ℚ)
  deriving DecidableEq

structure ProvenanceCandidate where
  originId : OriginId
  kind : ProvenanceMatchKind
  confidence : ℚ
  deriving DecidableEq

structure ProvenanceResolution where
  payloadFingerprint : String
  chunkFingerprints : List String
  candidates : List ProvenanceCandidate
  deriving DecidableEq

/-- An origin found by its payload. -/
def exactCandidate (o : OriginId) : ProvenanceCandidate := ⟨o, .exactPayload, 1⟩

/-- An origin found by its chunks. -/
def overlapCandidate (totalChunks : ℕ) (e : OriginId × ℕ) : ProvenanceCandidate :=
  let ratio : ℚ := e.2 / totalChunks
  ⟨e.1, .chunkOverlap e.2 totalChunks ratio, min ratio (95 / 100)⟩

/-- `resolve_provenance`, over the index alone. -/
def SodlService.resolveProvenance (P : Platform) (svc : SodlService) {I : Type}
    [ProvenanceIndex I] (u : Unordered) (bytes : Bytes) (i : I) :
    Outcome SodlError ProvenanceResolution := do
  let payloadFingerprint := (computeBlobId P bytes .blake3).val
  let chunkFingerprints := svc.chunkFingerprints P bytes
  let exactOrigins ← ProvenanceIndex.findByPayloadFingerprint u payloadFingerprint i
  let totalChunks := max chunkFingerprints.length 1
  let overlaps ← ProvenanceIndex.findByChunkFingerprints u chunkFingerprints i
  -- an exact match is not listed again, and no match is none
  let overlaps := overlaps.filter fun e =>
    decide (e.1 ∉ exactOrigins) && decide (¬(e.2 / totalChunks : ℚ) ≤ 0)
  let candidates := exactOrigins.map exactCandidate ++ overlaps.map (overlapCandidate totalChunks)
  .ok { payloadFingerprint, chunkFingerprints,
        candidates := candidates.insertionSort fun a b => b.confidence ≤ a.confidence }

end Sodl
