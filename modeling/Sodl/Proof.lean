import Mathlib.Data.List.Sort
import Sodl.Cas
import Sodl.Records

/-!
# Lineage proofs

The digest of an origin's lineage (`crates/sodl-proof/src/lib.rs`): the edges,
sorted by their ids, are fed to a hash after a line that names the version and
one that names the origin. A share carries the digest of the lineage that was
there when it was made.
-/

namespace Sodl

open Effect

/-- The UTF-8 bytes of a text, as `str::as_bytes` returns them. -/
def utf8 (s : String) : Bytes := s.toByteArray.data.toList

/-- A deterministic, unsigned proof of an origin's lineage state at a point in
time. -/
structure LineageProof where
  originId : OriginId
  /-- Hex digest over the canonicalized lineage edges. -/
  digest : String
  createdAt : OffsetDateTime
  deriving DecidableEq

/-- Signs and verifies lineage proof digests. -/
structure ProofSigner where
  /-- Identifier of the key used. -/
  keyId : String
  signDigestB64 : String → Outcome SodlError String
  verifyDigestB64 : String → String → Outcome SodlError Bool

/-- The stable text of a reference kind. -/
def kindString : RefKind → String
  | .originRepresentation name => "origin_rep:" ++ name
  | .share shareId fromPrincipal toPrincipal =>
    "share:" ++ shareId.val ++ ":" ++ fromPrincipal.val ++ ":" ++ toPrincipal.val
  | .derivation derivationId => "derivation:" ++ derivationId.val
  | .pin pinId => "pin:" ++ pinId

variable (P : Platform)

/-- What one edge feeds to the hash. -/
def edgeText (e : LineageEdge) : String :=
  e.edgeId ++ "\n" ++ P.uuidToString e.originId.uuid ++ "\n" ++
    (match e.blobId with
      | some b => b.val
      | none => "-") ++ "\n" ++ kindString e.kind ++ "\n"

/-- The edges sorted by their ids, edges with equal ids in the order given. -/
def sortEdges (edges : List LineageEdge) : List LineageEdge :=
  edges.insertionSort fun a b => a.edgeId ≤ b.edgeId

/-- Everything fed to the hash. -/
def proofText (originId : OriginId) (edges : List LineageEdge) : String :=
  "SODL_LINEAGE_PROOF_V1\n" ++ P.uuidToString originId.uuid ++ "\n" ++
    String.join ((sortEdges edges).map (edgeText P))

/-- Generate an unsigned lineage proof for an origin based on provided edges. -/
def generateProofUnsigned (originId : OriginId) (edges : List LineageEdge)
    (now : OffsetDateTime) : LineageProof where
  originId := originId
  digest := P.hexDigest .blake3 (utf8 (proofText P originId edges))
  createdAt := now

end Sodl
