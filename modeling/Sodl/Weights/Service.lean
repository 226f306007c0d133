import Sodl.Crypto
import Sodl.Effect.Runs
import Sodl.Weights.Registry

/-!
# The weight store service

`WeightBlobStore` (`crates/sodl-store/src/weight_store.rs`) stores clusters: as JSON, compressed,
encrypted for an origin, under the hash of what comes out. `WeightStoreService`
(`crates/sodl-service/src/weight_service.rs`) puts a pin registry in front of it, and loads a
cluster from there if it can.

How a cluster is written and compressed is left to a `Sodl.WeightCodec`.
-/

namespace Sodl

open Effect
open WeightCall (invoke)

/-- The functions of other crates behind the store. -/
structure WeightCodec where
  /-- `serde_json::to_vec` at the type of clusters, with the text of its error. -/
  toVec : WeightCluster → Except String Bytes
  /-- `serde_json::from_slice`. -/
  fromSlice : Bytes → Except String WeightCluster
  /-- The zstd encoder at a level. -/
  encode : ℤ → Bytes → Except String Bytes
  /-- The zstd decoder. -/
  decode : Bytes → Except String Bytes

/-- `map_err` on a result of another crate. -/
def Outcome.ofExcept {α : Type} (f : String → SodlError) : Except String α → Outcome SodlError α
  | .ok a => .ok a
  | .error e => .err (f e)

structure WeightBlobStore where
  codec : WeightCodec
  crypto : Option Crypto
  hashAlg : HashAlg
  compressionLevel : ℤ

structure StoreStats where
  blobId : BlobId
  rawBytes : ℕ
  compressedBytes : ℕ
  storedBytes : ℕ
  wasDeduped : Bool
  deriving DecidableEq

namespace WeightBlobStore

variable (P : Platform) (store : WeightBlobStore)

/-- Encrypt if there is a provider. -/
def encrypt (originId : OriginId) (compressed : Bytes) : Outcome SodlError Bytes :=
  match store.crypto with
  | some crypto => crypto.encryptForOrigin originId compressed
  | none => .ok compressed

/-- Decrypt if there is a provider. -/
def decrypt (originId : OriginId) (stored : Bytes) : Outcome SodlError Bytes :=
  match store.crypto with
  | some crypto => crypto.decryptForOrigin originId stored
  | none => .ok stored

/-- Store a cluster under the hash of its bytes, unless they are there. -/
def put (originId : OriginId) (cluster : WeightCluster) : WeightProg StoreStats := do
  let raw ← Prog.lift (Outcome.ofExcept .serialization (store.codec.toVec cluster))
  let compressed ← Prog.lift
    (Outcome.ofExcept .compression (store.codec.encode store.compressionLevel raw))
  let toStore ← Prog.lift (store.encrypt originId compressed)
  let blobId := computeBlobId P toStore store.hashAlg
  let wasDeduped ← invoke (.blobHas blobId)
  if wasDeduped then
    pure ⟨blobId, raw.length, compressed.length, toStore.length, wasDeduped⟩
  else
    invoke (.blobPut blobId toStore)
    pure ⟨blobId, raw.length, compressed.length, toStore.length, wasDeduped⟩

/-- What is done with the bytes of a blob: verify, decrypt, decompress, deserialise. -/
def reconstruct (originId : OriginId) (blobId : BlobId) (stored : Bytes) :
    Outcome SodlError WeightCluster := do
  verifyIntegrity P blobId stored
  let compressed ← store.decrypt originId stored
  let raw ← Outcome.ofExcept .compression (store.codec.decode compressed)
  Outcome.ofExcept .serialization (store.codec.fromSlice raw)

/-- Fetch and reconstruct a cluster. -/
def get (originId : OriginId) (blobId : BlobId) : WeightProg WeightCluster := do
  let stored ← invoke (.blobGet blobId)
  Prog.lift (store.reconstruct P originId blobId stored)

end WeightBlobStore

structure WeightStoreService where
  store : WeightBlobStore
  /-- `max_entries` of the registry. -/
  cacheCapacity : ℕ

namespace WeightStoreService

variable (P : Platform) (svc : WeightStoreService)

/-- Serve a cluster from the registry, or fetch it and pin it. -/
def loadCluster (originId : OriginId) (blobId : BlobId) : WeightProg WeightCluster := do
  match ← WeightPinRegistry.get blobId with
  | some cluster => pure cluster
  | none =>
    let cluster ← svc.store.get P originId blobId
    let _ ← (WeightPinRegistry.pin svc.cacheCapacity blobId cluster .frequentUse).succeeds
    pure cluster

/-- Pin a cluster for a reason, from the registry or fetched. -/
def pinCluster (reason : WeightPinReason) (originId : OriginId) (blobId : BlobId) :
    WeightProg Unit := do
  match ← WeightPinRegistry.get blobId with
  | some cluster => WeightPinRegistry.pin svc.cacheCapacity blobId cluster reason
  | none =>
    let cluster ← svc.store.get P originId blobId
    WeightPinRegistry.pin svc.cacheCapacity blobId cluster reason

def pinIdentityCluster : OriginId → BlobId → WeightProg Unit := svc.pinCluster P .identity

def pinLogicCluster : OriginId → BlobId → WeightProg Unit := svc.pinCluster P .logic

def prefetchCluster (originId : OriginId) (blobId : BlobId) : WeightProg Unit := do
  if ← WeightPinRegistry.isPinned blobId then
    pure ()
  else
    let cluster ← svc.store.get P originId blobId
    WeightPinRegistry.pin svc.cacheCapacity blobId cluster .prefetch

def evictCluster (blobId : BlobId) : WeightProg Bool := WeightPinRegistry.unpin blobId

def storeCluster (originId : OriginId) (cluster : WeightCluster) : WeightProg StoreStats :=
  svc.store.put P originId cluster

/-- Remove it from the registry if it is there, then delete its blob. -/
def deleteCluster (blobId : BlobId) : WeightProg Unit := do
  if ← WeightPinRegistry.isPinned blobId then
    let _ ← WeightPinRegistry.unpin blobId
    invoke (.blobDelete blobId)
  else
    invoke (.blobDelete blobId)

end WeightStoreService

end Sodl
