import Mathlib.Algebra.Group.Nat.Defs
import Mathlib.Data.Int.Notation
import Mathlib.Data.Nat.Notation

/-!
# Identifiers, enumerations and errors

The shared primitives of `crates/sodl-core`, with the two standard types the rest
of the development needs next to them: byte buffers and points in time.

In SODL bytes are immutable and identity is separate from them, so almost every
definition here is a newtype: an origin is named by a UUID, a blob by a string
`alg:hex` computed from its bytes, a share, a derivation and a pin by a string
drawn for it.
-/

namespace Sodl

/-- A byte buffer. -/
abbrev Bytes : Type := List UInt8

/-- A point in time, in nanoseconds since the Unix epoch. -/
abbrev OffsetDateTime : Type := ℤ

/-- The largest length of a buffer: `isize::MAX` on a 64-bit machine. -/
def isizeMax : ℕ := 2 ^ 63 - 1

/-- A UUID: sixteen bytes. -/
structure Uuid where
  /-- The bytes, as `Uuid::as_bytes` returns them. -/
  asBytes : Vector UInt8 16
  deriving DecidableEq

/-- A stable identifier for an origin (logical asset family). -/
structure OriginId where
  /-- The UUID behind it. -/
  uuid : Uuid
  deriving DecidableEq

/-- A stable identifier for a derivation of an origin. -/
structure DerivationId where
  /-- The identifier. -/
  val : String
  deriving DecidableEq

/-- A stable identifier for a share edge in the lineage graph. -/
structure ShareId where
  /-- The identifier. -/
  val : String
  deriving DecidableEq

/-- A stable identifier for an immutable blob, of the form `alg:hex`. -/
structure BlobId where
  /-- The identifier. -/
  val : String
  deriving DecidableEq

theorem BlobId.val_inj {b c : BlobId} : b.val = c.val ↔ b = c := by
  rcases b with ⟨v⟩
  rcases c with ⟨w⟩
  exact ⟨fun h => congrArg BlobId.mk h, fun h => congrArg BlobId.val h⟩

/-- An entity capable of accessing content. -/
structure PrincipalId where
  /-- The identifier. -/
  val : String
  deriving DecidableEq

/-- Durability class of an origin or of a blob reference. -/
inductive Durability
  | ephemeral
  | bestEffort
  | durable
  deriving DecidableEq

/-- Access capability. -/
inductive Capability
  | read
  | reshare
  | derive
  | pin
  | admin
  deriving DecidableEq

/-- Media type hint for content behaviour. -/
inductive MediaKind
  | binary
  | image
  | audio
  | video
  | document
  | aiModel
  deriving DecidableEq

/-- Schema tag for manifests and policies. -/
def schemaVersion : String := "sodl-v1"

/-- The errors of every crate of the workspace. -/
inductive SodlError
  | notFound
  | integrity
  | unauthorized
  | conflict
  | invalid (msg : String)
  | io (msg : String)
  | crypto (msg : String)
  | unsupported (msg : String)
  | compression (msg : String)
  | serialization (msg : String)
  | weightStore (msg : String)
  deriving DecidableEq

/-- The text of an error. -/
def SodlError.display : SodlError → String
  | notFound => "not found"
  | integrity => "integrity check failed"
  | unauthorized => "unauthorized"
  | conflict => "conflict"
  | invalid msg => "invalid input: " ++ msg
  | io msg => "io: " ++ msg
  | crypto msg => "crypto: " ++ msg
  | unsupported msg => "unsupported operation: " ++ msg
  | compression msg => "compression: " ++ msg
  | serialization msg => "serialization: " ++ msg
  | weightStore msg => "weight store: " ++ msg

end Sodl
