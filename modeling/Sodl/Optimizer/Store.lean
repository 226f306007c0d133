import Mathlib.Data.Finset.Card
import Mathlib.Data.Finset.Erase
import Sodl.Cas
import Sodl.Data.Table
import Sodl.Effect.Collect
import Sodl.Effect.Fault
import Sodl.Sample

/-!
# The optimizer-state store

Blocks of optimizer state in a write-back cache (`crates/sodl-service/src/optimizer_state.rs`).
A block that is stored stays in memory, marked dirty, until it is flushed: it is then
compressed and written as a blob, and the manifest of its origin, a file of the registry
directory, records the id. A block that is not in memory is read back through the manifest.

The store is shared. Its cache and its set of pinned keys stand behind one mutex each, while
manifests and blobs are read and written without one, so every method is a program over the
signature `Sodl.optimizerSig`: taking and dropping a guard is a call, and so is each access
through a guard, each manifest that is read or written, and each blob operation.

The registry directory is a table from file names to manifests, and the blob directory one
from blob ids to bytes: the JSON text of a manifest is exact, and a blob that is there is not
written again. Whatever can fail in the source can fail here, at any time
(`Sodl.OptimizerState.faults`), with an error that is the environment's.
-/

namespace Sodl

open Effect

/-! ### What the store takes from elsewhere -/

/-- A JSON value, by its text; the store only passes it on from the caller to the record and
back. -/
structure JsonValue where
  text : String
  deriving DecidableEq

/-- An `f64`, by its bits, so that two values are equal exactly if they are the same number with the
same sign, or the same NaN. -/
structure F64 where
  bits : UInt64
  deriving DecidableEq

/-- Neither NaN nor one of the infinities: not all bits of the exponent are set. -/
def F64.isFinite (x : F64) : Bool := (x.bits >>> 52) &&& 0x7ff != 0x7ff

/-- A number that JSON can write: `serde_json` writes `null` for NaN and the infinities. -/
abbrev FiniteF64 : Type := { x : F64 // x.isFinite = true }

/-- What the stores for artifacts use besides the hashes: the compression, the reading of JSON, and
the orders in which a `HashMap` with string keys and a `HashSet` of blob ids are gone through, which
the language leaves open. -/
structure ArtifactPlatform extends Platform where
  /-- `zstd::stream::encode_all`, with the text of its error. -/
  encodeAll : Bytes → ℤ → Except String Bytes
  /-- `zstd::stream::decode_all`, with the text of its error. -/
  decodeAll : Bytes → Except String Bytes
  /-- The number that `serde_json` reads where it has written one. Without its feature
  `float_roundtrip`, which the workspace does not ask for, this may be a neighbour of the number. -/
  readNumber : FiniteF64 → FiniteF64
  /-- The value that `serde_json` reads in a registry where it has written one. It reads none where
  arrays and objects are nested too deeply. -/
  readValue : JsonValue → Option JsonValue
  /-- What was read once can be written and read again. -/
  readValue_again : ∀ v v', readValue v = some v' → (readValue v').isSome = true
  keyOrder : List String → List String
  mem_keyOrder : ∀ l k, k ∈ keyOrder l ↔ k ∈ l
  idOrder : List BlobId → List BlobId
  mem_idOrder : ∀ l b, b ∈ idOrder l ↔ b ∈ l

/-- What was compressed, at whatever level, is decompressed to what it was. -/
def ArtifactPlatform.ZstdRoundTrips (P : ArtifactPlatform) : Prop :=
  ∀ data level compressed, P.encodeAll data level = .ok compressed →
    P.decodeAll compressed = .ok data

/-- What JSON was written is read as it was, numbers and values alike. -/
structure ArtifactPlatform.JsonRoundTrips (P : ArtifactPlatform) : Prop where
  number : ∀ x, P.readNumber x = x
  value : ∀ v, P.readValue v = some v

/-- The blob id of compressed bytes, which the stores for artifacts take over the bytes as they are
on disk. -/
abbrev ArtifactPlatform.blobId (P : ArtifactPlatform) (compressed : Bytes) : BlobId :=
  computeBlobId P.toPlatform compressed .blake3

/-! ### Records, manifests and cached blocks -/

/-- What a manifest has of a block: the id of its compressed blob, the two sizes, and what the
caller gave along with the payload. -/
structure OptimizerBlockRecord where
  blockId : String
  blobId : BlobId
  step : UInt64
  shardKey : Option String
  sizeRaw : ℕ
  sizeStored : ℕ
  storedAt : OffsetDateTime
  metadata : JsonValue
  deriving DecidableEq

/-- The manifest of an origin: the records of the blocks that were flushed, by their ids. -/
structure OptimizerStateManifest where
  schema : String
  originId : String
  blocks : Table String OptimizerBlockRecord
  updatedAt : OffsetDateTime
  deriving DecidableEq

/-- The manifest of an origin that has none yet, at an instant. -/
def OptimizerStateManifest.new (originId : String) (now : OffsetDateTime) :
    OptimizerStateManifest where
  schema := schemaVersion
  originId := originId
  blocks := ∅
  updatedAt := now

/-- What storing a block replies: whether it was only staged or was flushed at once, and how many
blocks of the origin are dirty after it. -/
structure OptimizerStoreResult where
  originId : String
  blockId : String
  blobId : Option BlobId
  step : UInt64
  staged : Bool
  flushed : Bool
  sizeRaw : ℕ
  sizeStored : ℕ
  dirtyBlocks : ℕ
  metadata : JsonValue

/-- What the caller gives for a block. -/
structure OptimizerBlockInput where
  blockId : String
  payload : Bytes
  step : UInt64
  shardKey : Option String
  metadata : JsonValue

/-- The counts that `cache_stats` reads off the cache and the pinned keys, with the limits of the
store. -/
structure OptimizerCacheStats where
  cacheEntries : ℕ
  dirtyEntries : ℕ
  pinnedEntries : ℕ
  cacheCapacity : ℕ
  writebackThreshold : ℕ

/-- An entry of the cache: the payload with what the caller gave along with it, whether it waits to
be flushed, whether it is pinned, and the record it was last flushed under. -/
structure CachedOptimizerBlock where
  bytes : Bytes
  step : UInt64
  shardKey : Option String
  metadata : JsonValue
  dirty : Bool
  pinned : Bool
  lastTouch : OffsetDateTime
  latestRecord : Option OptimizerBlockRecord
  deriving DecidableEq

namespace CachedOptimizerBlock

/-- An entry as `store_block` makes it where there was none: dirty, not pinned, and without a
record. -/
def new (bytes : Bytes) (step : UInt64) (shardKey : Option String) (metadata : JsonValue)
    (now : OffsetDateTime) : CachedOptimizerBlock where
  bytes := bytes
  step := step
  shardKey := shardKey
  metadata := metadata
  dirty := true
  pinned := false
  lastTouch := now
  latestRecord := none

/-- The entry after it was looked at: only the instant of the last touch is new, by which the
entries to be evicted are ordered. -/
def touch (b : CachedOptimizerBlock) (now : OffsetDateTime) : CachedOptimizerBlock :=
  { b with lastTouch := now }

/-- What `store_block` writes over an entry, old or new. The record the entry was last flushed under
is left where it is. -/
def stage (b : CachedOptimizerBlock) (input : OptimizerBlockInput) (pinned : Bool)
    (now : OffsetDateTime) : CachedOptimizerBlock :=
  { b with
    bytes := input.payload
    step := input.step
    shardKey := input.shardKey
    metadata := input.metadata
    dirty := true
    lastTouch := now
    pinned := pinned }

/-- A block read back through its record: it has the record, and it is clean. -/
def hydrated (bytes : Bytes) (record : OptimizerBlockRecord) (pinned : Bool)
    (now : OffsetDateTime) : CachedOptimizerBlock where
  bytes := bytes
  step := record.step
  shardKey := record.shardKey
  metadata := record.metadata
  dirty := false
  pinned := pinned
  lastTouch := now
  latestRecord := some record

/-- What a flush writes over an entry after its blob was put: it is clean, and it has the new
record. -/
def mark (b : CachedOptimizerBlock) (record : OptimizerBlockRecord) (now : OffsetDateTime) :
    CachedOptimizerBlock :=
  { b with dirty := false, latestRecord := some record, lastTouch := now }

end CachedOptimizerBlock

/-- The cache, by key. The code has a `HashMap`, whose order of entries is that of the platform. -/
abbrev OptimizerCache : Type := Table String CachedOptimizerBlock

/-! ### The calls -/

/-- The mutexes of the store: one over the cache, and one over the set of pinned keys. -/
inductive Mutex
  | cache
  | pinned
  deriving DecidableEq

/-- What is done to the cache through its guard, one entry at a time. -/
inductive CacheUpdate
  /-- `entry(key).or_insert_with(..)`, and what `store_block` then assigns. -/
  | stage (key : String) (input : OptimizerBlockInput) (pinned : Bool) (now : OffsetDateTime)
  | touch (key : String) (now : OffsetDateTime)
  | insert (key : String) (block : CachedOptimizerBlock)
  | remove (key : String)
  | mark (key : String) (record : OptimizerBlockRecord) (now : OffsetDateTime)
  | setPinned (key : String) (pinned : Bool)

/-- `get_mut`, and a change of the entry if it is there; where there is no entry under the key,
nothing is done. -/
def adjust (c : OptimizerCache) (key : String)
    (f : CachedOptimizerBlock → CachedOptimizerBlock) : OptimizerCache :=
  match c.lookup key with
  | some block => c.insert key (f block)
  | none => c

/-- The cache after it was changed through its guard. -/
def CacheUpdate.apply : CacheUpdate → OptimizerCache → OptimizerCache
  | .stage key input pinned now, c =>
    let entry := (c.lookup key).getD
      (.new input.payload input.step input.shardKey input.metadata now)
    c.insert key (entry.stage input pinned now)
  | .touch key now, c => adjust c key fun block => block.touch now
  | .insert key block, c => c.insert key block
  | .remove key, c => c.erase key
  | .mark key record now, c => adjust c key fun block => block.mark record now
  | .setPinned key pinned, c => adjust c key fun block => { block with pinned := pinned }

/-- What the methods ask of their environment. Each access to what the threads share is a call of
its own, so that other threads can come in between. -/
inductive OptimizerCall
  /-- Taking a guard, and dropping it. -/
  | lock (m : Mutex)
  | unlock (m : Mutex)
  /-- Access through a guard. -/
  | getCache
  | update (u : CacheUpdate)
  | getPinned
  | setPinned (s : Finset String)
  /-- The registry directory: a manifest that may be there, a write of one (to a temporary file
  that is then renamed), and the names of the files. -/
  | readManifest (name : String)
  | writeManifest (name : String) (m : OptimizerStateManifest)
  | readDir
  /-- `FsBlobStore`. -/
  | hasBlob (b : BlobId)
  | putBlob (b : BlobId) (data : Bytes)
  | getBlob (b : BlobId)
  | deleteBlob (b : BlobId)
  /-- `compress` and `decompress`. -/
  | encode (data : Bytes) (level : ℤ)
  | decode (data : Bytes)
  /-- `OffsetDateTime::now_utc`. -/
  | nowUtc

/-- What a call replies with, where it does not fail. -/
@[reducible] def OptimizerCall.Ret : OptimizerCall → Type
  | .getCache => OptimizerCache
  | .getPinned => Finset String
  | .readManifest _ => Option OptimizerStateManifest
  | .readDir => List String
  | .hasBlob _ => Bool
  | .getBlob _ => Bytes
  | .encode _ _ => Bytes
  | .decode _ => Bytes
  | .nowUtc => OffsetDateTime
  | _ => Unit

/-- The signature of the store: its calls, what they reply with, and the errors they fail with. -/
@[reducible] def optimizerSig : Sig := ⟨SodlError, OptimizerCall, OptimizerCall.Ret⟩

/-- A method of the store, as the tree of the calls it makes and of what it does with their
replies. -/
abbrev OptimizerProg (α : Type) : Type := Prog optimizerSig SodlError α

namespace Optimizer

/-- Make one call, and end in its error if it fails. -/
abbrev invoke (c : OptimizerCall) : OptimizerProg c.Ret := Prog.perform (S := optimizerSig) c

/-- A change of the cache through its guard. -/
abbrev update (u : CacheUpdate) : OptimizerProg Unit := invoke (.update u)
/-- The cache, as it is seen through its guard. -/
abbrev getCache : OptimizerProg OptimizerCache := invoke .getCache
/-- The pinned keys, as they are seen through their guard. -/
abbrev getPinned : OptimizerProg (Finset String) := invoke .getPinned
/-- The clock, which every instant in an entry or a record is read off. -/
abbrev nowUtc : OptimizerProg OffsetDateTime := invoke .nowUtc

variable {α : Type}

/-- A block under a guard, which is dropped however the block ends: by a value, by an error, or by a
panic. -/
def withLock (m : Mutex) (body : OptimizerProg α) : OptimizerProg α := do
  invoke (.lock m)
  Prog.closing (S := optimizerSig) (.unlock m) body

/-- A block under a guard, which is skipped where the guard is not to be had because a thread
panicked with it. -/
def ifLocked (m : Mutex) (body : OptimizerProg Unit) : OptimizerProg Unit :=
  Prog.call (S := optimizerSig) (.lock m) fun
    | .ok _ => Prog.closing (S := optimizerSig) (.unlock m) body
    | .err _ => pure ()
    | .panic => .ret .panic

end Optimizer

/-! ### Texts -/

/-- Split a list of characters at the first occurrence of `::`, which is dropped; there is no result
where it does not occur. -/
def splitColons : List Char → Option (List Char × List Char)
  | [] => none
  | c :: cs =>
    match c, cs with
    | ':', ':' :: rest => some ([], rest)
    | _, _ => (splitColons cs).map fun p => (c :: p.1, p.2)

/-- `str::split_once("::")`: what stands before the first `::` of a text, and what stands behind
it. -/
def splitOnceColons (s : String) : Option (String × String) :=
  (splitColons s.toList).map fun p => (String.ofList p.1, String.ofList p.2)

/-- `str::starts_with`. -/
def startsWith (s pat : String) : Bool := pat.toList.isPrefixOf s.toList

/-- `str::ends_with`. -/
def endsWith (s pat : String) : Bool := pat.toList.isSuffixOf s.toList

/-- An origin id as part of a file name: `replace(':', "_").replace('/', "_")`. Two origin ids may
have one file name. -/
def safeName (originId : String) : String :=
  String.ofList (originId.toList.map fun c => if c = ':' ∨ c = '/' then '_' else c)

/-- The prefix of the keys of an origin, by which the code finds its entries in the cache. -/
def originPrefix (originId : String) : String := originId ++ "::"

/-- The key of a block in the cache: the id of its origin and its own, with `::` between them. -/
def cacheKey (originId blockId : String) : String := originPrefix originId ++ blockId

/-- The file of an origin's manifest in the registry directory. -/
def manifestName (originId : String) : String := safeName originId ++ ".optimizer.json"

/-! ### The methods -/

/-- The settings of a store. What it keeps is in `Sodl.OptimizerState`, as it is shared. -/
structure OptimizerStateStore where
  compressionLevel : ℤ
  cacheCapacity : ℕ
  writebackThreshold : ℕ

open Optimizer

namespace OptimizerStateStore

/-- A store as it is opened: neither the capacity nor the threshold is below one. -/
def «open» (compressionLevel : ℤ) (cacheCapacity writebackThreshold : ℕ) :
    OptimizerStateStore :=
  ⟨compressionLevel, max cacheCapacity 1, max writebackThreshold 1⟩

/-- The capacity is set, to one at the least. No entry is evicted until room is made the next
time. -/
def setCacheCapacity (store : OptimizerStateStore) (cacheCapacity : ℕ) : OptimizerStateStore :=
  { store with cacheCapacity := max cacheCapacity 1 }

variable (P : ArtifactPlatform) (store : OptimizerStateStore)

/-- The manifest of an origin, or a new one where there is no file; the new one is not written. -/
def loadManifest (originId : String) : OptimizerProg OptimizerStateManifest := do
  match ← invoke (.readManifest (manifestName originId)) with
  | some manifest => pure manifest
  | none =>
    let now ← nowUtc
    pure (.new originId now)

/-- The file of an origin's manifest is replaced, with a temporary file that is renamed. -/
def saveManifest (manifest : OptimizerStateManifest) : OptimizerProg Unit :=
  invoke (.writeManifest (manifestName manifest.originId) manifest)

/-- The blob ids a manifest names, one for each of its records. -/
def blobIds (manifest : OptimizerStateManifest) : List BlobId :=
  manifest.blocks.entries.map fun e => e.2.blobId

/-- The blob ids that the manifests of some files name. A file that has gone since it was listed is
an error of reading it. -/
def referencedFrom : List String → OptimizerProg (List BlobId)
  | [] => pure []
  | name :: rest => do
    match ← invoke (.readManifest name) with
    | none => Prog.raise (.io ("read optimizer manifest " ++ name))
    | some manifest =>
      let referenced ← referencedFrom rest
      pure (blobIds manifest ++ referenced)

/-- The blob ids that any manifest of the registry directory names, whatever its origin. -/
def referencedBlobIds : OptimizerProg (List BlobId) := do
  let names ← invoke .readDir
  referencedFrom (names.filter fun name => endsWith name ".optimizer.json")

/-- Delete those of some blobs that are there and not referenced, and count them. -/
def gcFrom (referenced : List BlobId) : List BlobId → OptimizerProg ℕ :=
  Prog.collect (· ∈ referenced) (fun blobId => invoke (.hasBlob blobId))
    fun blobId => invoke (.deleteBlob blobId)

/-- Delete those of some candidates that no manifest names. With no candidates the directory is not
read. -/
def gcBlobIds (candidates : List BlobId) : OptimizerProg ℕ :=
  if candidates.isEmpty then pure 0
  else do
    let referenced ← referencedBlobIds
    gcFrom referenced (P.idOrder candidates)

/-- Remove candidates from the front, as long as the cache is too large. -/
def dropWhileFull : List String → ℕ → OptimizerProg Unit
  | [], _ => pure ()
  | key :: rest, size =>
    if store.cacheCapacity < size then do
      update (.remove key)
      dropWhileFull rest (size - 1)
    else pure ()

/-- The keys that may be evicted, least recently touched first: neither dirty nor pinned, by the
entry or by the copy of the pinned keys. -/
def evictable (cache : OptimizerCache) (pinnedSnapshot : Finset String) : List String :=
  let candidates := (P.keyOrder cache.keys).filterMap fun key =>
    (cache.lookup key).bind fun block =>
      if !block.dirty && !block.pinned && key ∉ pinnedSnapshot then some (key, block.lastTouch)
      else none
  (candidates.mergeSort fun a b => a.2 ≤ b.2).map Prod.fst

/-- Make room in the cache. The pinned keys are copied before the cache is looked at, and their
guard is dropped in between. -/
def enforceCacheCapacity : OptimizerProg Unit := do
  let pinnedSnapshot ← withLock .pinned getPinned
  withLock .cache do
    let cache ← getCache
    if cache.keys.length ≤ store.cacheCapacity then pure ()
    else store.dropWhileFull (evictable P cache pinnedSnapshot) cache.keys.length

/-- How many blocks whose keys begin with a prefix are dirty. -/
def dirtyWith (keyPrefix : String) (cache : OptimizerCache) : ℕ :=
  (cache.entries.filter fun e => startsWith e.1 keyPrefix && e.2.dirty).length

/-- Write a blob unless there is one under its id. -/
def putMissing (blobId : BlobId) (data : Bytes) : OptimizerProg Unit := do
  if ← invoke (.hasBlob blobId) then pure () else invoke (.putBlob blobId data)

/-- The record of a block that was compressed at an instant, with the id of the compressed bytes. -/
def recordOf (blockId : String) (block : CachedOptimizerBlock) (compressed : Bytes)
    (storedAt : OffsetDateTime) : OptimizerBlockRecord where
  blockId := blockId
  blobId := P.blobId compressed
  step := block.step
  shardKey := block.shardKey
  sizeRaw := block.bytes.length
  sizeStored := compressed.length
  storedAt := storedAt
  metadata := block.metadata

/-- The replaced blobs, after a record took the place of the one that may be there: a blob that the
block had before, and has no longer, is one of them. -/
def replacing (manifest : OptimizerStateManifest) (record : OptimizerBlockRecord)
    (replaced : List BlobId) : List BlobId :=
  match manifest.blocks.lookup record.blockId with
  | some previous =>
    if previous.blobId = record.blobId then replaced else replaced.insert previous.blobId
  | none => replaced

/-- The loop of a flush over its keys, under the guard of the cache. Each dirty block is compressed,
put and marked clean; the manifest and the replaced blobs are collected, and saved and deleted
afterwards. -/
def flushLoop : List String → OptimizerStateManifest → List BlobId →
    OptimizerProg (OptimizerStateManifest × List BlobId)
  | [], manifest, replaced => pure (manifest, replaced)
  | key :: rest, manifest, replaced => do
    let cache ← getCache
    match cache.lookup key with
    | none => flushLoop rest manifest replaced
    | some block =>
      if !block.dirty then flushLoop rest manifest replaced
      else
        let compressed ← invoke (.encode block.bytes store.compressionLevel)
        putMissing (P.blobId compressed) compressed
        match splitOnceColons key with
        | none => Prog.raise (.invalid ("invalid optimizer cache key: " ++ key))
        | some (_, blockId) =>
          let storedAt ← nowUtc
          let record := recordOf P blockId block compressed storedAt
          let updatedAt ← nowUtc
          let now ← nowUtc
          update (.mark key record now)
          flushLoop rest
            { manifest with
              blocks := manifest.blocks.insert blockId record, updatedAt := updatedAt }
            (replacing manifest record replaced)

/-- Flush the blocks under some keys: the loop runs under the guard of the cache, and the manifest
is saved after the guard was dropped. -/
def flushKeys (originId : String) (keys : List String) : OptimizerProg OptimizerStateManifest := do
  let manifest ← loadManifest originId
  if keys.isEmpty then pure manifest
  else
    let (manifest, replaced) ← withLock .cache (store.flushLoop P keys manifest [])
    saveManifest manifest
    let _ ← gcBlobIds P replaced
    store.enforceCacheCapacity P
    pure manifest

/-- Flush all blocks of an origin that the cache has, in the order of the map. -/
def flushOrigin (originId : String) : OptimizerProg OptimizerStateManifest := do
  let keys ← withLock .cache do
    let cache ← getCache
    pure ((P.keyOrder cache.keys).filter fun key => startsWith key (originPrefix originId))
  store.flushKeys P originId keys

/-- Flush some blocks of an origin, in the order they are named in. -/
def flushBlocks (originId : String) (blockIds : List String) :
    OptimizerProg OptimizerStateManifest :=
  store.flushKeys P originId (blockIds.map (cacheKey originId))

/-- The manifest of an origin as it is on disk, without what is not flushed. -/
def manifest (originId : String) : OptimizerProg OptimizerStateManifest := loadManifest originId

/-- The blob id under which a block was last flushed, if it ever was. -/
def latestBlobId (originId blockId : String) : OptimizerProg (Option BlobId) := do
  let manifest ← loadManifest originId
  pure ((manifest.blocks.lookup blockId).map (·.blobId))

/-- How many blocks are dirty, of one origin or of all. -/
def dirtyBlockCount (originFilter : Option String) : OptimizerProg ℕ :=
  withLock .cache do
    let cache ← getCache
    match originFilter with
    | some originId => pure (dirtyWith (originPrefix originId) cache)
    | none => pure (cache.entries.filter fun e => e.2.dirty).length

/-- Stage a block and, where enough blocks of the origin are dirty, flush the origin. The pinned
keys are looked at first, and their guard is dropped before that of the cache is taken. -/
def storeBlock (originId : String) (input : OptimizerBlockInput) :
    OptimizerProg OptimizerStoreResult := do
  let key := cacheKey originId input.blockId
  let isPinned ← withLock .pinned do
    let pinned ← getPinned
    pure (decide (key ∈ pinned))
  let dirtyBlocks ← withLock .cache do
    let now ← nowUtc
    update (.stage key input isPinned now)
    let cache ← getCache
    pure (dirtyWith (originPrefix originId) cache)
  let result : OptimizerStoreResult :=
    { originId := originId, blockId := input.blockId, blobId := none, step := input.step,
      staged := true, flushed := false, sizeRaw := input.payload.length, sizeStored := 0,
      dirtyBlocks := dirtyBlocks, metadata := input.metadata }
  if store.writebackThreshold ≤ dirtyBlocks then
    let manifest ← store.flushOrigin P originId
    let result := match manifest.blocks.lookup input.blockId with
      | some record => { result with
          blobId := some record.blobId, staged := false, flushed := true,
          sizeStored := record.sizeStored }
      | none => result
    let dirtyBlocks ← dirtyBlockCount (some originId)
    pure { result with dirtyBlocks := dirtyBlocks }
  else pure result

/-- What a batch returns for one of its inputs, by the manifest of the flush if there was one. -/
def batchResult (originId : String) (manifest : Option OptimizerStateManifest) (dirtyAfter : ℕ)
    (input : OptimizerBlockInput) : OptimizerStoreResult :=
  let record := manifest.bind fun resolved => resolved.blocks.lookup input.blockId
  { originId := originId, blockId := input.blockId, blobId := record.map (·.blobId),
    step := input.step, staged := record.isNone, flushed := record.isSome,
    sizeRaw := input.payload.length, sizeStored := (record.map (·.sizeStored)).getD 0,
    dirtyBlocks := dirtyAfter, metadata := input.metadata }

/-- Stage many blocks under the two guards at once, and flush the origin where enough of its blocks
are dirty after them. -/
def storeBlocks (originId : String) (inputs : List OptimizerBlockInput) :
    OptimizerProg (List OptimizerStoreResult) :=
  if inputs.isEmpty then pure []
  else do
    withLock .pinned <| withLock .cache <| Prog.forEach (fun input => do
      let key := cacheKey originId input.blockId
      let pinned ← getPinned
      let now ← nowUtc
      update (.stage key input (decide (key ∈ pinned)) now)) inputs
    let dirtyBlocks ← dirtyBlockCount (some originId)
    if store.writebackThreshold ≤ dirtyBlocks then
      let manifest ← store.flushOrigin P originId
      let dirtyAfter ← dirtyBlockCount (some originId)
      pure (inputs.map (batchResult originId (some manifest) dirtyAfter))
    else pure (inputs.map (batchResult originId none dirtyBlocks))

/-- The payload of a block: from the cache if it is there, or else through the record of the block,
after which it is put into the cache and room is made. -/
def loadBlock (originId blockId : String) : OptimizerProg Bytes := do
  let key := cacheKey originId blockId
  let hit ← withLock .cache do
    let cache ← getCache
    match cache.lookup key with
    | some block =>
      let now ← nowUtc
      update (.touch key now)
      pure (some block.bytes)
    | none => pure none
  match hit with
  | some bytes => pure bytes
  | none =>
    let manifest ← loadManifest originId
    match manifest.blocks.lookup blockId with
    | none => Prog.raise .notFound
    | some record =>
      let compressed ← invoke (.getBlob record.blobId)
      let bytes ← invoke (.decode compressed)
      let isPinned ← withLock .pinned do
        let pinned ← getPinned
        pure (decide (key ∈ pinned))
      withLock .cache do
        let now ← nowUtc
        update (.insert key (.hydrated bytes record isPinned now))
      store.enforceCacheCapacity P
      pure bytes

/-- The part of `load_blocks` under the first guard: what is in the cache, and the ids of what is
not. -/
def loadCached (originId : String) :
    List String → OptimizerProg (Table String Bytes × List String)
  | [] => pure (∅, [])
  | blockId :: rest => do
    let key := cacheKey originId blockId
    let cache ← getCache
    match cache.lookup key with
    | some block =>
      let now ← nowUtc
      update (.touch key now)
      let (payloads, missing) ← loadCached originId rest
      pure ((payloads.insert blockId block.bytes), missing)
    | none =>
      let (payloads, missing) ← loadCached originId rest
      pure (payloads, blockId :: missing)

/-- The part of `load_blocks` that reads the missing blocks back. A block without a record is passed
over; a blob that cannot be read ends the whole load. -/
def hydrateFrom (originId : String) (manifest : OptimizerStateManifest)
    (pinnedSnapshot : Finset String) :
    List String → OptimizerProg (List (String × CachedOptimizerBlock))
  | [] => pure []
  | blockId :: rest =>
    match manifest.blocks.lookup blockId with
    | none => hydrateFrom originId manifest pinnedSnapshot rest
    | some record => do
      let compressed ← invoke (.getBlob record.blobId)
      let bytes ← invoke (.decode compressed)
      let now ← nowUtc
      let key := cacheKey originId blockId
      let hydrated ← hydrateFrom originId manifest pinnedSnapshot rest
      pure ((blockId, .hydrated bytes record (decide (key ∈ pinnedSnapshot)) now) :: hydrated)

/-- The payloads of many blocks: those that are in the cache, and those that are recorded. Blocks
that are neither are left out. -/
def loadBlocks (originId : String) (blockIds : List String) :
    OptimizerProg (Table String Bytes) := do
  let (payloads, missing) ← withLock .cache (loadCached originId blockIds)
  if missing.isEmpty then pure payloads
  else
    let manifest ← loadManifest originId
    let pinnedSnapshot ← withLock .pinned getPinned
    let hydrated ← hydrateFrom originId manifest pinnedSnapshot missing
    let payloads := hydrated.foldl (fun t e => t.insert e.1 e.2.bytes) payloads
    if hydrated.isEmpty then pure payloads
    else
      withLock .cache <|
        Prog.forEach (fun e => update (.insert (cacheKey originId e.1) e.2)) hydrated
      store.enforceCacheCapacity P
      pure payloads

/-- Load some blocks one after the other, and count those that were found; the errors are
dropped. -/
def prefetchBlocks (originId : String) : List String → OptimizerProg ℕ
  | [] => pure 0
  | blockId :: rest => do
    let ok ← (store.loadBlock P originId blockId).succeeds
    let loaded ← prefetchBlocks originId rest
    pure (if ok then loaded + 1 else loaded)

/-- Pin some blocks: their keys are put into the set, and their entries, if there are any, are
marked as pinned. Where the guard of the cache is not to be had, the entry is left as it is. -/
def pinBlocks (originId : String) (blockIds : List String) : OptimizerProg Unit :=
  withLock .pinned <| Prog.forEach (fun blockId => do
    let key := cacheKey originId blockId
    let pinned ← getPinned
    invoke (.setPinned (insert key pinned))
    ifLocked .cache (update (.setPinned key true))) blockIds

/-- Take the pins of some blocks away again, and make room in the cache. -/
def unpinBlocks (originId : String) (blockIds : List String) : OptimizerProg Unit := do
  withLock .pinned <| Prog.forEach (fun blockId => do
    let key := cacheKey originId blockId
    let pinned ← getPinned
    invoke (.setPinned (pinned.erase key))
    ifLocked .cache (update (.setPinned key false))) blockIds
  store.enforceCacheCapacity P

/-- The loop of `evict_blocks`, which counts the entries it removes. Entries that are dirty or
pinned stay. -/
def evictFrom (originId : String) (pinned : Finset String) : List String → OptimizerProg ℕ
  | [] => pure 0
  | blockId :: rest => do
    let key := cacheKey originId blockId
    let cache ← getCache
    match cache.lookup key with
    | some block =>
      if block.dirty || block.pinned || decide (key ∈ pinned) then
        evictFrom originId pinned rest
      else
        update (.remove key)
        let evicted ← evictFrom originId pinned rest
        pure (evicted + 1)
    | none => evictFrom originId pinned rest

/-- Remove some blocks from the cache, under both guards, and count them. -/
def evictBlocks (originId : String) (blockIds : List String) : OptimizerProg ℕ :=
  withLock .pinned do
    let pinned ← getPinned
    withLock .cache (evictFrom originId pinned blockIds)

/-- The counts of the store, under both guards: that of the cache is taken first, unlike in the
methods that change the two. -/
def cacheStats : OptimizerProg OptimizerCacheStats :=
  withLock .cache do
    let cache ← getCache
    withLock .pinned do
      let pinned ← getPinned
      pure
        { cacheEntries := cache.keys.length
          dirtyEntries := (cache.entries.filter fun e => e.2.dirty).length
          pinnedEntries := pinned.card
          cacheCapacity := store.cacheCapacity
          writebackThreshold := store.writebackThreshold }

end OptimizerStateStore

/-! ### What the calls do -/

/-- What the methods share, in front of a clock and of what will fail. -/
structure OptimizerState where
  cache : OptimizerCache
  pinned : Finset String
  registry : Table String OptimizerStateManifest
  blobs : Table BlobId Bytes
  /-- What the clock will read, call after call. -/
  clock : ℕ → OffsetDateTime
  /-- The errors in which the calls that can fail will end, call after call. -/
  faults : ℕ → Option SodlError

/-- A store with nothing in memory, over some directories. -/
def OptimizerState.opened (registry : Table String OptimizerStateManifest)
    (blobs : Table BlobId Bytes) (clock : ℕ → OffsetDateTime) (faults : ℕ → Option SodlError) :
    OptimizerState where
  cache := ∅
  pinned := ∅
  registry := registry
  blobs := blobs
  clock := clock
  faults := faults

/-- Whether a call can fail: locking, reading and writing files, and compression can, while what is
done through a guard cannot. -/
def OptimizerCall.fallible : OptimizerCall → Bool
  | .unlock _ | .getCache | .update _ | .getPinned | .setPinned _ | .nowUtc => false
  | _ => true

namespace OptimizerState

/-- What a call does where nothing fails. The guards are not part of the state: whether a
guard is to be had depends on the other methods that are under way. -/
def answer (P : ArtifactPlatform) : Handler optimizerSig OptimizerState
  | .lock _, s => (.ok (), s)
  | .unlock _, s => (.ok (), s)
  | .getCache, s => (.ok s.cache, s)
  | .update u, s => (.ok (), { s with cache := u.apply s.cache })
  | .getPinned, s => (.ok s.pinned, s)
  | .setPinned pinned, s => (.ok (), { s with pinned := pinned })
  | .readManifest name, s => (.ok (s.registry.lookup name), s)
  | .writeManifest name m, s => (.ok (), { s with registry := s.registry.insert name m })
  | .readDir, s => (.ok s.registry.keys, s)
  | .hasBlob b, s => (.ok (s.blobs.lookup b).isSome, s)
  | .putBlob b data, s =>
    -- a blob that is there is left as it is
    (.ok (), if (s.blobs.lookup b).isSome then s else { s with blobs := s.blobs.insert b data })
  | .getBlob b, s =>
    (match s.blobs.lookup b with
      | some data => .ok data
      | none => .err .notFound, s)
  | .deleteBlob b, s => (.ok (), { s with blobs := s.blobs.erase b })
  | .encode data level, s =>
    (match P.encodeAll data level with
      | .ok compressed => .ok compressed
      | .error err => .err (.compression ("compress optimizer block: " ++ err)), s)
  | .decode data, s =>
    (match P.decodeAll data with
      | .ok bytes => .ok bytes
      | .error err => .err (.compression ("decompress optimizer block: " ++ err)), s)
  | .nowUtc, s => (.ok (s.clock 0), { s with clock := fun n => s.clock (n + 1) })

/-- What a call does: it ends in the error that is next, if one is, and otherwise does what it
should. -/
def handle (P : ArtifactPlatform) : Handler optimizerSig OptimizerState := fun c s =>
  if c.fallible then
    match s.faults 0 with
    | some e => (.err e, { s with faults := fun n => s.faults (n + 1) })
    | none => answer P c { s with faults := fun n => s.faults (n + 1) }
  else answer P c s

/-- The store is one whose calls may fail. -/
theorem faulty_handle (P : ArtifactPlatform) :
    Faulty (handle P) (answer P) OptimizerCall.fallible
      fun s t => ∃ f, t = { s with faults := f } := by
  refine Faulty.of_next (fun s => s.faults 0)
    (fun s => { s with faults := fun n => s.faults (n + 1) }) (fun _ => ⟨_, rfl⟩)
    (fun s => ⟨s.faults, rfl⟩) fun c s => ?_
  rw [handle]
  cases s.faults 0 <;> rfl

end OptimizerState

/-! ### A platform to compute with -/

/-- The sample platform, with a compression that leaves the bytes as they are, and JSON that is read
as it was written. -/
def sampleArtifacts : ArtifactPlatform where
  toPlatform := samplePlatform
  encodeAll data _ := .ok data
  decodeAll data := .ok data
  readNumber x := x
  readValue v := some v
  readValue_again _ _ _ := rfl
  keyOrder l := l
  mem_keyOrder _ _ := Iff.rfl
  idOrder l := l
  mem_idOrder _ _ := Iff.rfl

/-- The sample platform decompresses what it compressed, as it leaves both alone. -/
theorem sampleArtifacts_zstdRoundTrips : sampleArtifacts.ZstdRoundTrips := by
  intro data level compressed h
  obtain rfl := Except.ok.inj h
  rfl

/-- The sample platform reads JSON as it was written. -/
theorem sampleArtifacts_jsonRoundTrips : sampleArtifacts.JsonRoundTrips :=
  ⟨fun _ => rfl, fun _ => rfl⟩

end Sodl
