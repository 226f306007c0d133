import Sodl.Data.Table
import Sodl.Records

/-!
# The index

Reference counts, lineage edges and provenance fingerprints, behind four traits
(`crates/sodl-index/src/lib.rs`). A backend of the index is a type with the
operations of `Sodl.IndexBackend`; `Sodl.MemIndex` is the in-memory one.

The counts of the in-memory index saturate at zero, and both an increment and a
decrement create the row they find missing; what is listed by a scan is the set
of rows, whatever their counts.
-/

namespace Sodl

open Effect

/-- The operations of an index backend: the traits `RefCounter`, `ScanIndex`,
`LineageStore` and `ProvenanceIndex`. The backends of the workspace return `Ok`
from every one of them, apart from the listing of origins, which may find a row
it cannot read, and the recording of an edge, whose id may be taken. -/
class IndexBackend (I : Type) where
  incOrigin : OriginId → RefKind → I → I
  decOrigin : OriginId → RefKind → I → I
  getOrigin : OriginId → I → ℕ
  incBlob : BlobId → RefKind → I → I
  decBlob : BlobId → RefKind → I → I
  getBlob : BlobId → I → ℕ
  listOrigins : I → Outcome SodlError (List OriginId)
  listBlobs : I → List BlobId
  addEdge : LineageEdge → I → Outcome SodlError Unit × I
  listEdgesForOrigin : OriginId → I → List LineageEdge
  putPayloadFingerprint : OriginId → String → I → I
  putChunkFingerprints : OriginId → List String → I → I

/-- The in-memory index. -/
structure MemIndex where
  originCounts : Counter OriginId
  blobCounts : Counter BlobId
  edges : List LineageEdge
  payloadFingerprints : Table String (List OriginId)
  chunkFingerprints : Table String (List OriginId)

namespace MemIndex

/-- `MemIndex::new`. -/
def new : MemIndex := ⟨∅, ∅, [], ∅, ∅⟩

/-- Record an origin under a fingerprint, once. -/
def recordFingerprint (o : OriginId) (t : Table String (List OriginId)) (fingerprint : String) :
    Table String (List OriginId) :=
  let origins := (t.lookup fingerprint).getD []
  t.insert fingerprint (if o ∈ origins then origins else origins ++ [o])

instance : IndexBackend MemIndex where
  incOrigin o _ i := { i with originCounts := i.originCounts.inc o }
  decOrigin o _ i := { i with originCounts := i.originCounts.dec o }
  getOrigin o i := i.originCounts.get o
  incBlob b _ i := { i with blobCounts := i.blobCounts.inc b }
  decBlob b _ i := { i with blobCounts := i.blobCounts.dec b }
  getBlob b i := i.blobCounts.get b
  -- rows whose count is zero are listed as well
  listOrigins i := .ok i.originCounts.keys
  listBlobs i := i.blobCounts.keys
  addEdge e i := (.ok (), { i with edges := i.edges ++ [e] })
  listEdgesForOrigin o i := i.edges.filter fun e => e.originId = o
  putPayloadFingerprint o f i :=
    { i with payloadFingerprints := recordFingerprint o i.payloadFingerprints f }
  putChunkFingerprints o fs i :=
    { i with chunkFingerprints := fs.foldl (recordFingerprint o) i.chunkFingerprints }

@[simp] theorem incOrigin_eq (o : OriginId) (k : RefKind) (i : MemIndex) :
    IndexBackend.incOrigin o k i = { i with originCounts := i.originCounts.inc o } := rfl

@[simp] theorem decOrigin_eq (o : OriginId) (k : RefKind) (i : MemIndex) :
    IndexBackend.decOrigin o k i = { i with originCounts := i.originCounts.dec o } := rfl

@[simp] theorem getOrigin_eq (o : OriginId) (i : MemIndex) :
    IndexBackend.getOrigin o i = i.originCounts.get o := rfl

@[simp] theorem incBlob_eq (b : BlobId) (k : RefKind) (i : MemIndex) :
    IndexBackend.incBlob b k i = { i with blobCounts := i.blobCounts.inc b } := rfl

@[simp] theorem decBlob_eq (b : BlobId) (k : RefKind) (i : MemIndex) :
    IndexBackend.decBlob b k i = { i with blobCounts := i.blobCounts.dec b } := rfl

@[simp] theorem getBlob_eq (b : BlobId) (i : MemIndex) :
    IndexBackend.getBlob b i = i.blobCounts.get b := rfl

@[simp] theorem listOrigins_eq (i : MemIndex) :
    IndexBackend.listOrigins i = .ok i.originCounts.keys := rfl

@[simp] theorem listBlobs_eq (i : MemIndex) : IndexBackend.listBlobs i = i.blobCounts.keys := rfl

@[simp] theorem addEdge_eq (e : LineageEdge) (i : MemIndex) :
    IndexBackend.addEdge e i = (.ok (), { i with edges := i.edges ++ [e] }) := rfl

@[simp] theorem putPayloadFingerprint_eq (o : OriginId) (f : String) (i : MemIndex) :
    IndexBackend.putPayloadFingerprint o f i =
      { i with payloadFingerprints := recordFingerprint o i.payloadFingerprints f } := rfl

@[simp] theorem putChunkFingerprints_eq (o : OriginId) (fs : List String) (i : MemIndex) :
    IndexBackend.putChunkFingerprints o fs i =
      { i with chunkFingerprints := fs.foldl (recordFingerprint o) i.chunkFingerprints } := rfl

end MemIndex

end Sodl
