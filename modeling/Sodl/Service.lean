import Sodl.Chunk.Reassemble
import Sodl.Crypto
import Sodl.Proof

/-!
# The service facade

The operations an application calls (`crates/sodl-service/src/lib.rs`): upload
and read back a payload, share it, derive from it, pin it, and undo each of
these. Every operation is a sequence of store calls in the order of the source,
with an early return where the source has a `?`.

A service is a choice of crypto provider, hash algorithm, signer and chunking
configuration; the stores it acts on are the state of the run.
-/

namespace Sodl

open Effect

/-! ### The service and its requests -/

/-- The encrypting view of a blob store (`crates/sodl-store/src/lib.rs`), which names a blob by the
hash of its ciphertext. -/
structure EncryptedCas where
  crypto : Crypto
  hashAlg : HashAlg

/-- Main facade: what the service is set up with. The stores it works on are not part of it, but of
the state. -/
structure SodlService where
  /-- Encrypted CAS helper against a durable store. -/
  encCas : EncryptedCas
  /-- Crypto provider (per-origin). -/
  crypto : Crypto
  /-- Optional signer for lineage proof digests. -/
  proofSigner : Option ProofSigner
  /-- Chunking configuration; `none` disables chunking. -/
  chunkConfig : Option ChunkPipelineConfig
  /-- One provider serves both fields, as `AppState::service` wires them. -/
  encCas_crypto : encCas.crypto = crypto

/-- Input for upload: the payload, and what the record of its origin is made from. -/
structure UploadRequest where
  owner : PrincipalId
  mediaKind : MediaKind
  mime : Option String
  durabilityPolicy : OriginPolicy
  bytes : Bytes

/-- Result of upload: the new origin, the root blob of its payload, and the chunks below it. -/
structure UploadResult where
  originId : OriginId
  blobId : BlobId
  /-- If the payload was chunked, the chunk blobs. -/
  chunkBlobs : List BlobId
  /-- Whether the payload was chunked. -/
  chunked : Bool
  deriving DecidableEq

variable (P : Platform)

/-! ### Upload and readback -/

/-- `EncryptedCas::put_plain`: the payload is encrypted for its origin and put as one blob. -/
def EncryptedCas.putPlain (e : EncryptedCas) (originId : OriginId) (plaintext : Bytes) :
    Service BlobId := do
  let ciphertext ← Prog.lift (e.crypto.encryptForOrigin originId plaintext)
  let blobId := computeBlobId P ciphertext e.hashAlg
  Store.putBlob blobId ciphertext
  pure blobId

/-- `new_origin_id`, which draws a UUID. That it is new is not looked up. -/
def newOriginId : Service OriginId := do
  let uuid ← Store.newV4
  pure ⟨uuid⟩

/-- The reason an upload gives for its references, by the name of the representation it
registers. -/
def sourceRef : RefKind := .originRepresentation "source"

/-- The representation an upload registers: its root blob alone, without the chunks below it. -/
def sourceRepresentation (req : UploadRequest) (blobId : BlobId) : Representation where
  name := "source"
  mediaKind := req.mediaKind
  mime := req.mime
  sizeBytes := none
  rootBlobs := [blobId]

/-- The record an upload registers, with the durability of its policy and one representation. -/
def uploadRecord (req : UploadRequest) (originId : OriginId) (blobId : BlobId)
    (now : OffsetDateTime) : OriginRecord :=
  { OriginRecord.new originId req.mediaKind req.durabilityPolicy.retention.durability now with
    owner := some req.owner
    representations := [sourceRepresentation req blobId] }

/-- The id of a fresh lineage edge. -/
def edgeId (uuid : Uuid) : String := "edge:" ++ P.uuidToString uuid

namespace SodlService

variable (svc : SodlService)

/-- Step 3 of `upload`: store the bytes, chunked or as a single blob. -/
def storePayload (originId : OriginId) (bytes : Bytes) :
    Service (BlobId × List BlobId × Bool) :=
  -- without a chunking configuration the payload is one blob
  match svc.chunkConfig with
  | some cfg => do
    let ciphertext ← Prog.lift (svc.crypto.encryptForOrigin originId bytes)
    let result ← chunkAndStore P ciphertext svc.encCas.hashAlg cfg
    pure (result.rootBlob, result.chunkBlobs, result.chunked)
  | none => do
    let blobId ← svc.encCas.putPlain P originId bytes
    pure (blobId, [], false)

/-- The provenance fingerprints of a plaintext: the ids of its chunks, or its own id where the
service does not cut payloads. -/
def chunkFingerprints (bytes : Bytes) : List String :=
  match svc.chunkConfig with
  | some cfg => (computeChunkBlobIds P bytes .blake3 cfg).map BlobId.val
  | none => [(computeBlobId P bytes .blake3).val]

/-- Step 4 of `upload`: register the origin, take its references, record lineage
and provenance. -/
def register (req : UploadRequest) (originId : OriginId) (blobId : BlobId)
    (chunkBlobs : List BlobId) : Service Unit := do
  -- the list `root_blobs` of the source, which holds the chunks as well, is not read again
  let now ← Store.nowUtc
  Store.createOrigin (uploadRecord req originId blobId now)
  Store.incOrigin originId sourceRef
  Store.incBlob blobId sourceRef
  Prog.forEach (fun cb => Store.incBlob cb sourceRef) chunkBlobs
  let uuid ← Store.newV4
  let createdAt ← Store.nowUtc
  Store.addEdge { edgeId := edgeId P uuid, originId, blobId := some blobId, kind := sourceRef,
                  createdAt }
  Store.putPayloadFingerprint originId (computeBlobId P req.bytes .blake3).val
  Store.putChunkFingerprints originId (svc.chunkFingerprints P req.bytes)

/-- Upload bytes as a new origin: the policy, the blobs, and then the record with its references and
its edge. -/
def upload (req : UploadRequest) : Service UploadResult := do
  let originId ← newOriginId
  -- the policy is stored before anything can fail, and stays
  Store.putOriginPolicy { req.durabilityPolicy with originId }
  let (blobId, chunkBlobs, chunked) ← svc.storePayload P originId req.bytes
  svc.register P req originId blobId chunkBlobs
  pure { originId, blobId, chunkBlobs, chunked }

/-- `Option::ok_or(NotFound)`, by which a missing representation is told like a missing blob. -/
def okOrNotFound {α : Type} : Option α → Service α
  | some a => pure a
  | none => Prog.raise .notFound

/-- What `get_payload` makes of the bytes found under the root id: a manifest whose chunks are put
together, or else the ciphertext itself, which is checked against its id. -/
def readRoot (originId : OriginId) (rootId : BlobId) (rootBytes : Bytes) : Service Bytes :=
  match tryParseManifest P rootBytes with
  | some manifest => do
    let ciphertext ← reassemble P manifest
    Prog.lift (svc.crypto.decryptForOrigin originId ciphertext)
  | none => do
    Prog.lift (verifyIntegrity P rootId rootBytes)
    Prog.lift (svc.crypto.decryptForOrigin originId rootBytes)

/-- Retrieve the full payload of an origin, from the root of its first representation. -/
def getPayload (originId : OriginId) : Service Bytes := do
  let rec' ← Store.getOrigin originId
  -- only the first root blob of the first representation is read
  let rep ← okOrNotFound rec'.representations.head?
  let rootId ← okOrNotFound rep.rootBlobs.head?
  let rootBytes ← Store.getBlob rootId
  svc.readRoot P originId rootId rootBytes

/-! ### Lineage proofs -/

/-- `lineage_proof_at`: the proof over the edges strictly before a cutoff, as the index lists them
now. -/
def lineageProofAt (originId : OriginId) (cutoff : OffsetDateTime) : Service LineageProof := do
  let edges ← Store.listEdgesForOrigin originId
  pure (generateProofUnsigned P originId (edges.filter fun e => e.createdAt < cutoff) cutoff)

/-- Verify an anchored share proof: the digest is made again at the anchor of the share, and the
signature checked where there is one. -/
def verifyShareProof (share : ShareRecord) : Service Bool := do
  let proof ← lineageProofAt P share.originId share.lineageProofCreatedAt
  if proof.digest ≠ share.lineageProofDigest then pure false
  else
    match share.lineageProofKeyId, share.lineageProofSigB64 with
    | some _, some sig =>
      match svc.proofSigner with
      | some signer => Prog.lift (signer.verifyDigestB64 share.lineageProofDigest sig)
      | none => pure false
    -- a share without a signature passes on its digest alone
    | _, _ => pure true

/-- The signature of a digest, where a signer is configured, together with the id of its key. -/
def signProof (digest : String) : Service (Option String × Option String) :=
  match svc.proofSigner with
  | some signer => do
    let sig ← Prog.lift (signer.signDigestB64 digest)
    pure (some signer.keyId, some sig)
  | none => pure (none, none)

/-! ### References -/

/-- Take a reference to an origin and record the edge that says why; the common
end of `share`, `derive` and `pin_origin`. -/
def reference (originId : OriginId) (kind : RefKind) : Service Unit := do
  Store.incOrigin originId kind
  let uuid ← Store.newV4
  let createdAt ← Store.nowUtc
  Store.addEdge { edgeId := edgeId P uuid, originId, blobId := none, kind, createdAt }

/-- Create a share record from one principal to another, anchored at the lineage of the origin at
that time. -/
def share (fromPrincipal toPrincipal : PrincipalId) (originId : OriginId)
    (caps : List Capability) : Service ShareId := do
  let uuid ← Store.newV4
  let shareId : ShareId := ⟨"share:" ++ P.uuidToString uuid⟩
  -- the clock is read for the anchor, and once more for the record
  let anchorTime ← Store.nowUtc
  let proof ← lineageProofAt P originId anchorTime
  let (proofKeyId, proofSigB64) ← svc.signProof proof.digest
  let now ← Store.nowUtc
  let s : ShareRecord :=
    { schema := schemaVersion
      shareId
      originId
      derivationId := none
      fromPrincipal
      toPrincipal
      createdAt := now
      capabilities := caps
      lineageProofDigest := proof.digest
      lineageProofCreatedAt := anchorTime
      lineageProofKeyId := proofKeyId
      lineageProofSigB64 := proofSigB64 }
  Prog.lift s.validate
  Store.putShare s
  reference P originId (.share shareId fromPrincipal toPrincipal)
  pure shareId

/-- Record a derivation manifest (view/edit) for an origin, and take a reference to the origin for
it. -/
def derive (originId : OriginId) (kind : DerivationKind) (mediaKind : MediaKind) :
    Service DerivationId := do
  let uuid ← Store.newV4
  let derivationId : DerivationId := ⟨"drv:" ++ P.uuidToString uuid⟩
  let now ← Store.nowUtc
  let m := DerivationManifest.new originId derivationId mediaKind kind now
  Prog.lift m.validate
  Store.putDerivation m
  reference P originId (.derivation derivationId)
  pure derivationId

/-- Release a share (decrements origin refcount). Its record stays where it is. -/
def releaseShare (shareId : ShareId) : Service Unit := do
  -- the record stays, so a share can be released again
  let s ← Store.getShare shareId
  Store.decOrigin s.originId (.share s.shareId s.fromPrincipal s.toPrincipal)

/-- Release a pin (decrements origin refcount and marks pin released). -/
def unpin (pinId : String) : Service Unit := do
  let p ← Store.getPin pinId
  Store.releasePin pinId
  match p.target with
  | .origin originId => Store.decOrigin originId (.pin pinId)
  -- a pin of a representation counts for no origin
  | .representation _ _ => pure ()

/-- Simple GC eligibility check, by the counter of the origin alone. -/
def isGcCandidate (originId : OriginId) : Service Bool := do
  let n ← Store.getOriginCount originId
  pure (n == 0)

/-- Create a pin for an origin (durable intent). -/
def pinOrigin (requestedBy : PrincipalId) (originId : OriginId) (minReplicas : UInt8) :
    Service String := do
  let uuid ← Store.newV4
  let pinId := "pin:" ++ P.uuidToString uuid
  let now ← Store.nowUtc
  Store.createPin
    { pinId
      target := .origin originId
      requestedBy
      createdAt := now
      state := .pending
      minReplicas := some minReplicas
      requiredZones := [] }
  reference P originId (.pin pinId)
  pure pinId

/-- The references one representation holds, given back: one to the origin, and one to each of its
root blobs. -/
def releaseRepresentation (originId : OriginId) (rep : Representation) : Service Unit := do
  Store.decOrigin originId (.originRepresentation rep.name)
  Prog.forEach (fun b => Store.decBlob b (.originRepresentation rep.name)) rep.rootBlobs

/-- The record of a tombstoned origin: it says when and why, and lists no representations any
more. -/
def tombstoneRecord (r : OriginRecord) (now : OffsetDateTime) (reason : String) : OriginRecord :=
  { r with tombstonedAt := some now, tombstoneReason := some reason, representations := [] }

/-- Tombstone an origin and decrement the blob refcounts of its representations, one representation
after the other. -/
def tombstoneOrigin (originId : OriginId) (reason : String) : Service Unit := do
  let r ← Store.getOrigin originId
  let now ← Store.nowUtc
  Prog.forEach (releaseRepresentation originId) r.representations
  -- the record is written last, when the references are given back
  Store.updateOrigin (tombstoneRecord r now reason)

end SodlService

end Sodl
