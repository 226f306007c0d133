import Sodl.Gc
import Sodl.Service

/-!
# The HTTP handlers

The handlers of the REST API that change the stores
(`crates/sodl-api/src/handlers.rs`). Most of them parse the request, call one
operation of the service and translate its error into a status code; creating an
origin from representations, storing a blob and deleting one act on the stores
themselves.

A handler is a program whose error is the response it rejects the request with.
What is done to a response after it was chosen – rendering it as JSON, formatting
the fields of a record – is left out, and so is what happens to a request before
a handler sees it: a request body is the structure it was deserialized to.
-/

namespace Sodl

open Effect

/-! ### Responses -/

/-- The status codes the handlers use, by the names that the source has for them. -/
inductive StatusCode
  | ok
  | created
  | noContent
  | badRequest
  | forbidden
  | notFound
  | conflict
  | internalServerError
  deriving DecidableEq

/-- A response that rejects a request: a status and the text of `ErrorResponse`. -/
structure Rejection where
  status : StatusCode
  error : String
  deriving DecidableEq

/-- Map an error to a response with an appropriate status code. The text is that of the error,
except where the source keeps it to itself. -/
def errResponse (e : SodlError) : Rejection :=
  match e with
  | .notFound => ⟨.notFound, e.display⟩
  | .conflict => ⟨.conflict, e.display⟩
  | .unauthorized => ⟨.forbidden, e.display⟩
  | .invalid _ => ⟨.badRequest, e.display⟩
  | .integrity => ⟨.internalServerError, "integrity check failed"⟩
  | _ => ⟨.internalServerError, e.display⟩

/-- A handler: it calls the stores, and returns a value or a rejection. -/
abbrev ApiHandler (α : Type) : Type := Prog storeSig Rejection α

/-- A routine of the workspace, as the handlers call it: `.map_err(err_response)?`. Its error ends
the handler. -/
def orReject {α : Type} (p : Service α) : ApiHandler α := p.mapErr errResponse

/-! ### Shared state -/

/-- The choices of a server; the stores are the state of the run. -/
structure AppState where
  /-- Crypto provider. -/
  crypto : Crypto
  /-- Hash algorithm used for blob ids. -/
  hashAlg : HashAlg
  /-- Optional proof signer for lineage digests. -/
  proofSigner : Option ProofSigner
  /-- Chunking pipeline configuration. -/
  chunkConfig : Option ChunkPipelineConfig

/-- Build a request-scoped service from the state of the server, which lives as long as the server
does. -/
def AppState.service (state : AppState) : SodlService where
  encCas := ⟨state.crypto, state.hashAlg⟩
  crypto := state.crypto
  proofSigner := state.proofSigner
  chunkConfig := state.chunkConfig
  encCas_crypto := rfl

/-! ### Parse helpers

The texts are compared in lower case. None of the words they are compared with
has a letter that a character outside ASCII lowers to, so the lower case of
ASCII decides. -/

def parseMediaKind (s : String) : MediaKind :=
  match s.toLower with
  | "image" => .image
  | "audio" => .audio
  | "video" => .video
  | "document" => .document
  | "ai_model" | "aimodel" | "model" => .aiModel
  | _ => .binary

def parseDurability (s : String) : Durability :=
  match s.toLower with
  | "ephemeral" => .ephemeral
  | "durable" => .durable
  | _ => .bestEffort

def parseCapability (s : String) : Capability :=
  match s.toLower with
  | "reshare" => .reshare
  | "derive" => .derive
  | "pin" => .pin
  | "admin" => .admin
  | _ => .read

/-- The policy of a new origin, with sensible defaults: one replica is asked for where the origin is
to be durable. -/
def defaultPolicy (originId : OriginId) (durability : Durability) : OriginPolicy where
  originId := originId
  retention :=
    { durability
      ttlSeconds := none
      minReplicas := if durability = .durable then some 1 else none }
  access := { defaultCaps := [.read], allowReshare := true, allowDerivation := true }

/-! ### Requests -/

/-- The JSON metadata of an upload, the texts of which are taken as they come. -/
structure UploadMeta where
  owner : String
  mediaKind : String
  mime : Option String
  durability : String
  deriving DecidableEq

/-- A field of a multipart body, with how reading it went: a field that cannot be read ends the
request. -/
inductive FormField
  /-- The field `meta`: its text, and what the text was parsed to. -/
  | metadata (text : Except String (Except String UploadMeta))
  /-- The field `file`. -/
  | file (bytes : Except String Bytes)
  /-- Any other field. -/
  | other

/-- A multipart body: its fields, or the error of the one that could not be had. -/
abbrev Multipart : Type := List (Except String FormField)

/-- A representation in a request to create an origin, with the ids of its blobs as texts. -/
structure CreateRepresentationRequest where
  name : String
  mediaKind : String
  mime : Option String
  sizeBytes : Option UInt64
  rootBlobs : List String
  deriving DecidableEq

/-- A request to create an origin from blobs that are there already, under any number of
representations. -/
structure CreateOriginRequest where
  owner : Option String
  mediaKind : String
  durability : String
  representations : List CreateRepresentationRequest
  deriving DecidableEq

/-- A request to share an origin, with the capabilities by their names. -/
structure ShareRequest where
  fromPrincipal : String
  toPrincipal : String
  originId : String
  capabilities : List String
  deriving DecidableEq

/-- A request to derive from an origin, with the kind and the media kind by their names. -/
structure DeriveRequest where
  originId : String
  kind : String
  description : Option String
  mediaKind : String
  deriving DecidableEq

/-- A request to pin an origin on at least some number of nodes. -/
structure PinRequest where
  originId : String
  requestedBy : String
  minReplicas : UInt8
  deriving DecidableEq

/-- The response to a blob that was stored, which says whether it was there before. -/
structure BlobCreateResponse where
  blobId : BlobId
  existed : Bool
  sizeBytes : ℕ
  deriving DecidableEq

namespace AppState

variable (P : Platform) (state : AppState)

/-- Read an origin id from a path or a body, in any form that the parser of UUIDs takes. -/
def parseOriginId (s : String) : ApiHandler OriginId :=
  match P.uuidParseStr s with
  | some uuid => pure ⟨uuid⟩
  | none => Prog.raise ⟨.badRequest, "invalid origin_id: " ++ s⟩

/-! ### Origins -/

/-- The check that a listed blob is there, which does not take a reference to it. -/
def requireBlob (blobId : BlobId) : ApiHandler Unit := do
  let there ← orReject (Store.hasBlob blobId)
  if there then pure () else Prog.raise ⟨.notFound, "blob not found: " ++ blobId.val⟩

/-- The reference of a representation to one of its blobs, and its lineage edge. -/
def referenceBlob (originId : OriginId) (name : String) (blobId : BlobId) : ApiHandler Unit := do
  orReject (Store.incBlob blobId (.originRepresentation name))
  let uuid ← orReject Store.newV4
  let createdAt ← orReject Store.nowUtc
  orReject (Store.addEdge { edgeId := edgeId P uuid, originId, blobId := some blobId,
                            kind := .originRepresentation name, createdAt })

/-- One turn of the loop of `create_origin`: its blobs are checked, and the references taken one by
one. -/
def addRepresentation (originId : OriginId) (rep : CreateRepresentationRequest) :
    ApiHandler Representation := do
  let rootBlobs := rep.rootBlobs.map BlobId.mk
  -- all its blobs are checked before a reference is taken
  Prog.forEach requireBlob rootBlobs
  orReject (Store.incOrigin originId (.originRepresentation rep.name))
  Prog.forEach (referenceBlob P originId rep.name) rootBlobs
  pure { name := rep.name
         mediaKind := parseMediaKind rep.mediaKind
         mime := rep.mime
         sizeBytes := rep.sizeBytes
         rootBlobs }

/-- The loop of `create_origin` over the representations of the request. The references of the turns
before a failure stay taken. -/
def addRepresentations (originId : OriginId) :
    List CreateRepresentationRequest → ApiHandler (List Representation)
  | [] => pure []
  | rep :: reps => do
    let r ← addRepresentation P originId rep
    let rs ← addRepresentations originId reps
    pure (r :: rs)

/-- The record of an origin created from representations, with the owner of the request, if it names
one. -/
def createdRecord (req : CreateOriginRequest) (originId : OriginId) (now : OffsetDateTime)
    (representations : List Representation) : OriginRecord :=
  { OriginRecord.new originId (parseMediaKind req.mediaKind) (parseDurability req.durability)
      now with
    owner := req.owner.map PrincipalId.mk
    representations }

/-- `POST /v1/origins`: the policy is stored first, the references are taken next, and the record is
written last. -/
def createOrigin (req : CreateOriginRequest) : ApiHandler OriginRecord := do
  let originId ← orReject newOriginId
  let durability := parseDurability req.durability
  orReject (Store.putOriginPolicy (defaultPolicy originId durability))
  let now ← orReject Store.nowUtc
  -- the policy is stored by now, whatever becomes of the representations
  let representations ← addRepresentations P originId req.representations
  let record := createdRecord req originId now representations
  orReject (Store.createOrigin record)
  pure record

/-- The loop of `upload` over the fields of its form: the last field of a name counts, and the first
that fails ends it. -/
def readForm : Multipart → Option UploadMeta × Option Bytes →
    Except Rejection (Option UploadMeta × Option Bytes)
  | [], acc => .ok acc
  | .error e :: _, _ => .error ⟨.badRequest, "multipart error: " ++ e⟩
  | .ok (.metadata (.error e)) :: _, _ => .error ⟨.badRequest, "read meta: " ++ e⟩
  | .ok (.metadata (.ok (.error e))) :: _, _ => .error ⟨.badRequest, "parse meta: " ++ e⟩
  | .ok (.metadata (.ok (.ok m))) :: fields, acc => readForm fields (some m, acc.2)
  | .ok (.file (.error e)) :: _, _ => .error ⟨.badRequest, "read file: " ++ e⟩
  | .ok (.file (.ok bytes)) :: fields, acc => readForm fields (acc.1, some bytes)
  | .ok .other :: fields, acc => readForm fields acc

/-- The metadata and the bytes of an upload, both of which have to be there. -/
def parseUpload (body : Multipart) : Except Rejection (UploadMeta × Bytes) :=
  match readForm body (none, none) with
  | .error r => .error r
  | .ok (none, _) => .error ⟨.badRequest, "missing 'meta' field"⟩
  | .ok (some _, none) => .error ⟨.badRequest, "missing 'file' field"⟩
  | .ok (some m, some bytes) => .ok (m, bytes)

/-- The request the service gets; the id in its policy is overwritten there. -/
def uploadRequest (m : UploadMeta) (bytes : Bytes) (originId : OriginId) : UploadRequest where
  owner := ⟨m.owner⟩
  mediaKind := parseMediaKind m.mediaKind
  mime := m.mime
  durabilityPolicy := defaultPolicy originId (parseDurability m.durability)
  bytes := bytes

/-- `POST /v1/upload`: the form is read to its end before anything is stored. -/
def upload (body : Multipart) : ApiHandler UploadResult :=
  match parseUpload body with
  | .error r => Prog.raise r
  | .ok (m, bytes) => do
    let originId ← orReject newOriginId
    -- the service draws an id of its own
    orReject (state.service.upload P (uploadRequest m bytes originId))

/-- `DELETE /v1/origins/:id`, with a reason of its own where the request gives none. -/
def tombstoneOrigin (id : String) (reason : Option String) : ApiHandler Unit := do
  let oid ← parseOriginId P id
  orReject (SodlService.tombstoneOrigin oid (reason.getD "deleted by owner"))

/-! ### Blobs -/

/-- `POST /v1/blobs`, with the text of the header `x-blob-id`: an id that is not that of the body is
refused. -/
def createBlob (expected : Option String) (body : Bytes) :
    ApiHandler (StatusCode × BlobCreateResponse) :=
  let blobId := computeBlobId P body state.hashAlg
  match expected.filter (· ≠ blobId.val) with
  | some e =>
    Prog.raise ⟨.badRequest, "x-blob-id mismatch: expected " ++ e ++ ", computed " ++ blobId.val⟩
  | none => do
    let existed ← orReject (Store.hasBlob blobId)
    if existed then pure (.ok, ⟨blobId, true, body.length⟩)
    else do
      orReject (Store.putBlob blobId body)
      pure (.created, ⟨blobId, false, body.length⟩)

/-- `DELETE /v1/blobs/:id`: the blob has to be there, and the guard of its counter decides. -/
def deleteBlob (id : String) : ApiHandler Unit := do
  let blobId : BlobId := ⟨id⟩
  let there ← orReject (Store.hasBlob blobId)
  if !there then Prog.raise (errResponse .notFound)
  else do
    -- the guard looks the id up as it was written
    let refs ← orReject (Store.getBlobCount blobId)
    if 0 < refs then
      Prog.raise ⟨.conflict, "blob is still referenced and cannot be deleted: " ++ blobId.val⟩
    else orReject (Store.deleteBlob blobId)

/-! ### Shares, derivations and pins -/

/-- `POST /v1/shares`, where a capability that is not known counts as `read`. -/
def createShare (req : ShareRequest) : ApiHandler ShareId := do
  let oid ← parseOriginId P req.originId
  orReject (state.service.share P ⟨req.fromPrincipal⟩ ⟨req.toPrincipal⟩ oid
    (req.capabilities.map parseCapability))

/-- `DELETE /v1/shares/:id`, with the id as it stands in the path of the request. -/
def releaseShare (id : String) : ApiHandler Unit := orReject (SodlService.releaseShare ⟨id⟩)

/-- The kind of derivation a request names: what is not known is a transformation, with its
description. -/
def derivationKind (req : DeriveRequest) : DerivationKind :=
  match req.kind.toLower with
  | "trim" => .trim ⟨0, 0⟩
  | "crop" => .crop 0 0 0 0
  | _ => .transform (req.description.getD "transform")

/-- `POST /v1/derivations`, where the media kind is read as for an upload. -/
def createDerivation (req : DeriveRequest) : ApiHandler DerivationId := do
  let oid ← parseOriginId P req.originId
  orReject (SodlService.derive P oid (derivationKind req) (parseMediaKind req.mediaKind))

/-- `POST /v1/pins`, of an origin. A representation cannot be pinned by a request. -/
def createPin (req : PinRequest) : ApiHandler String := do
  let oid ← parseOriginId P req.originId
  orReject (SodlService.pinOrigin P ⟨req.requestedBy⟩ oid req.minReplicas)

/-- `DELETE /v1/pins/:id`, with the id as it stands in the path of the request. -/
def releasePin (id : String) : ApiHandler Unit := orReject (SodlService.unpin id)

end AppState

end Sodl
