import Sodl.Core
import Sodl.Effect.Prog

/-!
# The metadata records

What the metadata stores keep: origins and their representations
(`crates/sodl-origin`), policies and pins (`crates/sodl-policy`), shares and
derivations (`crates/sodl-manifest`), references and lineage edges
(`crates/sodl-index`), tombstones (`crates/sodl-gc`).

Fields that no modelled function reads or writes (fingerprints, key references,
storage zones) are left out.
-/

namespace Sodl

open Effect

/-! ### Origins -/

/-- A named representation of an origin. -/
structure Representation where
  name : String
  mediaKind : MediaKind
  mime : Option String
  sizeBytes : Option UInt64
  /-- Root blobs of this representation (single blob or chunk tree roots). -/
  rootBlobs : List BlobId
  deriving DecidableEq

/-- A registered origin (logical asset family). -/
structure OriginRecord where
  originId : OriginId
  mediaKind : MediaKind
  durability : Durability
  createdAt : OffsetDateTime
  tombstonedAt : Option OffsetDateTime
  tombstoneReason : Option String
  /-- The representations of the same logical origin. -/
  representations : List Representation
  owner : Option PrincipalId
  deriving DecidableEq

/-- `OriginRecord::new`, with the instant `now_utc` returned. -/
def OriginRecord.new (originId : OriginId) (mediaKind : MediaKind) (durability : Durability)
    (now : OffsetDateTime) : OriginRecord where
  originId := originId
  mediaKind := mediaKind
  durability := durability
  createdAt := now
  tombstonedAt := none
  tombstoneReason := none
  representations := []
  owner := none

/-- The root blobs of all representations, in order. -/
def OriginRecord.rootBlobs (r : OriginRecord) : List BlobId :=
  r.representations.flatMap Representation.rootBlobs

/-! ### Policies and pins -/

/-- Retention policy of an origin. -/
structure RetentionPolicy where
  durability : Durability
  ttlSeconds : Option UInt64
  minReplicas : Option UInt8
  deriving DecidableEq

/-- Access policy of an origin. -/
structure AccessPolicy where
  defaultCaps : List Capability
  allowReshare : Bool
  allowDerivation : Bool
  deriving DecidableEq

/-- Policy attached to an origin. -/
structure OriginPolicy where
  originId : OriginId
  retention : RetentionPolicy
  access : AccessPolicy
  deriving DecidableEq

/-- What a pin applies to. -/
inductive PinTarget
  | origin (originId : OriginId)
  | representation (originId : OriginId) (name : String)
  deriving DecidableEq

/-- The origin a pin is for, as a whole or in part. -/
def PinTarget.originId : PinTarget → OriginId
  | .origin o => o
  | .representation o _ => o

/-- Pin lifecycle state. -/
inductive PinState
  | pending
  | active
  | released
  deriving DecidableEq

/-- A durable failure domain. -/
structure StorageZone where
  name : String
  deriving DecidableEq

/-- A pin: durable intent. -/
structure PinRecord where
  pinId : String
  target : PinTarget
  requestedBy : PrincipalId
  createdAt : OffsetDateTime
  state : PinState
  minReplicas : Option UInt8
  requiredZones : List StorageZone
  deriving DecidableEq

/-! ### Shares and derivations -/

/-- A timeline segment. -/
structure TimelineRange where
  startMs : UInt64
  endMs : UInt64
  deriving DecidableEq

/-- Derivation kind. -/
inductive DerivationKind
  | trim (range : TimelineRange)
  | crop (x y w h : UInt32)
  | transform (description : String)
  deriving DecidableEq

/-- How to obtain a derived view or object from its origin. -/
structure DerivationManifest where
  schema : String
  originId : OriginId
  derivationId : DerivationId
  createdAt : OffsetDateTime
  mediaKind : MediaKind
  kind : DerivationKind
  deriving DecidableEq

/-- `DerivationManifest::new`, with the instant `now_utc` returned. -/
def DerivationManifest.new (originId : OriginId) (derivationId : DerivationId)
    (mediaKind : MediaKind) (kind : DerivationKind) (now : OffsetDateTime) :
    DerivationManifest where
  schema := schemaVersion
  originId := originId
  derivationId := derivationId
  createdAt := now
  mediaKind := mediaKind
  kind := kind

/-- The text of a schema mismatch, common to both manifests. -/
def schemaMismatch (got : String) : SodlError :=
  .invalid ("schema mismatch: expected " ++ schemaVersion ++ ", got " ++ got)

/-- `DerivationManifest::validate`. -/
def DerivationManifest.validate (m : DerivationManifest) : Outcome SodlError Unit :=
  if m.schema ≠ schemaVersion then .err (schemaMismatch m.schema) else .ok ()

/-- A share edge between two principals. -/
structure ShareRecord where
  schema : String
  shareId : ShareId
  originId : OriginId
  derivationId : Option DerivationId
  fromPrincipal : PrincipalId
  toPrincipal : PrincipalId
  createdAt : OffsetDateTime
  capabilities : List Capability
  lineageProofDigest : String
  lineageProofCreatedAt : OffsetDateTime
  lineageProofKeyId : Option String
  lineageProofSigB64 : Option String
  deriving DecidableEq

/-- `char::is_whitespace`: the characters with the property `White_Space`. -/
def isWhitespace (c : Char) : Bool :=
  (9 ≤ c.toNat && c.toNat ≤ 13) || c.toNat == 0x20 || c.toNat == 0x85 || c.toNat == 0xA0 ||
    c.toNat == 0x1680 || (0x2000 ≤ c.toNat && c.toNat ≤ 0x200A) || c.toNat == 0x2028 ||
    c.toNat == 0x2029 || c.toNat == 0x202F || c.toNat == 0x205F || c.toNat == 0x3000

/-- `s.trim().is_empty()`. -/
def trimIsEmpty (s : String) : Bool := s.toList.all isWhitespace

/-- `ShareRecord::validate`. -/
def ShareRecord.validate (s : ShareRecord) : Outcome SodlError Unit :=
  if s.schema ≠ schemaVersion then .err (schemaMismatch s.schema)
  else if trimIsEmpty s.lineageProofDigest then .err (.invalid "missing lineage_proof_digest")
  else .ok ()

/-! ### References and lineage -/

/-- Why a count was changed, or what a lineage edge records. -/
inductive RefKind
  | originRepresentation (name : String)
  | share (shareId : ShareId) (fromPrincipal toPrincipal : PrincipalId)
  | derivation (derivationId : DerivationId)
  | pin (pinId : String)
  deriving DecidableEq

/-- An edge of the lineage graph. -/
structure LineageEdge where
  edgeId : String
  originId : OriginId
  blobId : Option BlobId
  kind : RefKind
  createdAt : OffsetDateTime
  deriving DecidableEq

/-! ### Tombstones -/

/-- What a tombstone of the collector is for. -/
inductive TombstoneKind
  | origin
  | blob
  deriving DecidableEq

/-- A deletion record of the collector. -/
structure Tombstone where
  tombstoneId : String
  kind : TombstoneKind
  originId : Option OriginId
  blobId : Option BlobId
  reason : String
  createdAt : OffsetDateTime
  deriving DecidableEq

end Sodl
