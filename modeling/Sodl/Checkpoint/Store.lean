import Sodl.Optimizer.Store

/-!
# The checkpoint store

Checkpoints of training runs (`crates/sodl-service/src/checkpoint_store.rs`). The payload of a
checkpoint is compressed and written as a blob; its record is appended to the registry of its
origin, one JSON document for each origin, and the oldest records make room where there is a limit.
The blobs of records that are gone are deleted unless the registry of some origin still names
them.

Nothing is locked: a method reads the registry, changes it and writes it back, and it tests,
writes and deletes blobs one by one. Every method is a program over the signature
`Sodl.checkpointSig`, one call for each of these. To put a blob or to write a registry takes several
steps on the files, which are told apart in `Sodl.Checkpoint.Staged`; here each is taken as a whole,
as it is where no other writer is at the same file.

A registry is written as text. What matters of the text is what becomes of numbers: a finite
number is written so that it can be told from all others, any other as `null`
(`Sodl.CheckpointRegistryText`). What is read there is up to the package `serde_json`: a number may
be read as a neighbour of what was written, and `null` is read as no loss at all, and is no metric
(`Sodl.CheckpointRecordText.parse`). So it is with the values within the metadata. The rest of a
record comes back as it was.
-/

namespace Sodl

open Effect

/-! ### Numbers -/

/-- An `f64` as `serde_json` writes it: a number, or `null`. -/
def F64.toJson (x : F64) : Option FiniteF64 := if h : x.isFinite = true then some ⟨x, h⟩ else none

/-! ### Records and registries -/

/-- What a record is apart from its numbers and its metadata: what is read back as it was. -/
structure CheckpointFields where
  checkpointId : String
  blobId : BlobId
  originId : String
  step : UInt64
  epoch : Option UInt64
  parentCheckpointId : Option String
  stage : String
  optimizerExternalized : Bool
  optimizerOriginId : Option String
  optimizerLayoutFingerprint : Option String
  optimizerBlockCount : ℕ
  datasetManifests : List String
  knowledgeLogs : List String
  sizeRaw : ℕ
  sizeStored : ℕ
  createdAt : OffsetDateTime
  notes : String
  deriving DecidableEq

/-- A record of a checkpoint, as `list_checkpoints` gives it. The metrics are in the order of their
names, as in the `BTreeMap` of the code. -/
structure CheckpointRecord extends CheckpointFields where
  loss : Option F64
  metrics : List (String × F64)
  metadata : JsonValue
  deriving DecidableEq

/-- What the caller gives for a checkpoint besides its payload, all of which goes into the record as
it is. -/
structure CheckpointSaveRequest where
  step : UInt64
  epoch : Option UInt64
  loss : Option F64
  metrics : List (String × F64)
  parentCheckpointId : Option String
  stage : String
  metadata : JsonValue
  optimizerExternalized : Bool
  optimizerOriginId : Option String
  optimizerLayoutFingerprint : Option String
  optimizerBlockCount : ℕ
  datasetManifests : List String
  knowledgeLogs : List String
  notes : String
  deriving DecidableEq

/-- The registry of an origin: its records, the oldest first. -/
structure CheckpointRegistry where
  originId : String
  checkpoints : List CheckpointRecord

/-- A record as it is written: a number that JSON cannot write is `null`. -/
structure CheckpointRecordText extends CheckpointFields where
  loss : Option FiniteF64
  metrics : List (String × Option FiniteF64)
  metadata : JsonValue
  deriving DecidableEq

/-- A registry as it is written, which is what stands in its file. -/
structure CheckpointRegistryText where
  originId : String
  checkpoints : List CheckpointRecordText
  deriving DecidableEq

/-- A record, written: its fields as they are, and its numbers as `serde_json` writes them. -/
def CheckpointRecord.toText (r : CheckpointRecord) : CheckpointRecordText where
  toCheckpointFields := r.toCheckpointFields
  loss := r.loss.bind F64.toJson
  metrics := r.metrics.map fun e => (e.1, e.2.toJson)
  metadata := r.metadata

/-- A metric, read: `null` is none, so that a registry with one cannot be read at all. -/
def parseMetric (P : ArtifactPlatform) (e : String × Option FiniteF64) : Option (String × F64) :=
  e.2.map fun x => (e.1, (P.readNumber x).val)

/-- A record, read: `null` is no loss, and a metric or metadata that cannot be read leave no
record. -/
def CheckpointRecordText.parse (P : ArtifactPlatform) (t : CheckpointRecordText) :
    Option CheckpointRecord := do
  let metrics ← t.metrics.mapM (parseMetric P)
  let metadata ← P.readValue t.metadata
  pure
    { toCheckpointFields := t.toCheckpointFields
      loss := t.loss.map fun x => (P.readNumber x).val
      metrics := metrics
      metadata := metadata }

/-- `serde_json::to_vec_pretty` of a registry: the text of each of its records, in their order. -/
def CheckpointRegistry.toText (g : CheckpointRegistry) : CheckpointRegistryText where
  originId := g.originId
  checkpoints := g.checkpoints.map CheckpointRecord.toText

/-- `serde_json::from_slice` of a registry: one record that cannot be read leaves no registry. -/
def CheckpointRegistryText.parse (P : ArtifactPlatform) (t : CheckpointRegistryText) :
    Option CheckpointRegistry :=
  (t.checkpoints.mapM (CheckpointRecordText.parse P)).map fun records => ⟨t.originId, records⟩

/-! ### The calls -/

/-- What the methods ask of their environment: the registry files, the blob store, the compression,
the clock, and new ids. -/
inductive CheckpointCall
  /-- The registry directory: a registry that may be there, a write of one (to a temporary file
  that is then renamed), and the names of the files. -/
  | readRegistry (name : String)
  | writeRegistry (name : String) (g : CheckpointRegistry)
  | readDir
  /-- `FsBlobStore`. -/
  | hasBlob (b : BlobId)
  | putBlob (b : BlobId) (data : Bytes)
  | getBlob (b : BlobId)
  | deleteBlob (b : BlobId)
  /-- `compress` and `decompress`. -/
  | encode (data : Bytes) (level : ℤ)
  | decode (data : Bytes)
  /-- `format!("ckpt:{}", Uuid::new_v4())`. -/
  | newId
  /-- `OffsetDateTime::now_utc`. -/
  | nowUtc

/-- What a call replies with, where it does not fail. -/
@[reducible] def CheckpointCall.Ret : CheckpointCall → Type
  | .readRegistry _ => Option CheckpointRegistryText
  | .readDir => List String
  | .hasBlob _ => Bool
  | .getBlob _ => Bytes
  | .encode _ _ => Bytes
  | .decode _ => Bytes
  | .newId => String
  | .nowUtc => OffsetDateTime
  | _ => Unit

/-- The signature of the store: its calls, what they reply with, and the errors they fail with. -/
@[reducible] def checkpointSig : Sig := ⟨SodlError, CheckpointCall, CheckpointCall.Ret⟩

/-- A method of the store, as the tree of the calls it makes and of what it does with their
replies. -/
abbrev CheckpointProg (α : Type) : Type := Prog checkpointSig SodlError α

/-- Make one call, and end in its error if it fails. -/
abbrev Checkpoint.invoke (c : CheckpointCall) : CheckpointProg c.Ret :=
  Prog.perform (S := checkpointSig) c

/-- The file of an origin's registry. Two origin ids may have one file name, and then share a
registry. -/
def registryName (originId : String) : String := safeName originId ++ ".json"

/-! ### The methods -/

/-- The settings of a store: the level it compresses with, and how many checkpoints it keeps of an
origin, where zero is all of them. -/
structure CheckpointStore where
  compressionLevel : ℤ
  maxCheckpoints : ℕ

open Checkpoint

namespace CheckpointStore

variable (P : ArtifactPlatform) (store : CheckpointStore)

/-- The records of a registry that was read, or the error that its text cannot be parsed. -/
def parseRegistry (name : String) (text : CheckpointRegistryText) :
    CheckpointProg CheckpointRegistry :=
  match text.parse P with
  | some registry => pure registry
  | none => Prog.raise (.serialization ("parse checkpoint registry " ++ name))

/-- The records of an origin: none where there is no file. -/
def loadRegistry (originId : String) : CheckpointProg (List CheckpointRecord) := do
  match ← invoke (.readRegistry (registryName originId)) with
  | none => pure []
  | some text =>
    let registry ← parseRegistry P (registryName originId) text
    pure registry.checkpoints

/-- The registry of an origin is replaced by one with the records. -/
def saveRegistry (originId : String) (records : List CheckpointRecord) : CheckpointProg Unit :=
  invoke (.writeRegistry (registryName originId) ⟨originId, records⟩)

/-- The blob ids that the registries of some files name. A file that has gone since it was listed is
an error of reading it. -/
def referencedFrom : List String → CheckpointProg (List BlobId)
  | [] => pure []
  | name :: rest => do
    match ← invoke (.readRegistry name) with
    | none => Prog.raise (.io ("read checkpoint registry " ++ name))
    | some text =>
      let registry ← parseRegistry P name text
      let referenced ← referencedFrom rest
      pure (registry.checkpoints.map (·.blobId) ++ referenced)

/-- The blob ids that any registry of the directory names, whatever its origin. -/
def referencedBlobIds : CheckpointProg (List BlobId) := do
  let names ← invoke .readDir
  referencedFrom P (names.filter fun name => endsWith name ".json")

/-- Delete those of some blobs that are there and not referenced, and count them. -/
def gcFrom (referenced : List BlobId) : List BlobId → CheckpointProg ℕ :=
  Prog.collect (· ∈ referenced) (fun blobId => invoke (.hasBlob blobId))
    fun blobId => invoke (.deleteBlob blobId)

/-- Delete those of some candidates that no registry names. With no candidates the directory is not
read. -/
def gcBlobIds (candidates : List BlobId) : CheckpointProg ℕ :=
  if candidates.isEmpty then pure 0
  else do
    let referenced ← referencedBlobIds P
    gcFrom referenced (P.idOrder candidates.dedup)

/-- The record of an id, the first one if there are more, or the last record where no id is
given. -/
def findRecord (records : List CheckpointRecord) :
    Option String → Outcome SodlError CheckpointRecord
  | some checkpointId =>
    match records.find? fun record => record.checkpointId = checkpointId with
    | some record => .ok record
    | none => .err .notFound
  | none =>
    match records.getLast? with
    | some record => .ok record
    | none => .err .notFound

/-- The record that is made of a request, with the id that was drawn and the blob id of the
compressed payload. -/
def recordOf (originId : String) (payload : Bytes) (request : CheckpointSaveRequest)
    (compressed : Bytes) (checkpointId : String) (createdAt : OffsetDateTime) :
    CheckpointRecord where
  checkpointId := checkpointId
  blobId := P.blobId compressed
  originId := originId
  step := request.step
  epoch := request.epoch
  loss := request.loss
  metrics := request.metrics
  parentCheckpointId := request.parentCheckpointId
  stage := request.stage
  metadata := request.metadata
  optimizerExternalized := request.optimizerExternalized
  optimizerOriginId := request.optimizerOriginId
  optimizerLayoutFingerprint := request.optimizerLayoutFingerprint
  optimizerBlockCount := request.optimizerBlockCount
  datasetManifests := request.datasetManifests
  knowledgeLogs := request.knowledgeLogs
  sizeRaw := payload.length
  sizeStored := compressed.length
  createdAt := createdAt
  notes := request.notes

/-- Write a blob unless there is one under its id. -/
def putMissing (blobId : BlobId) (data : Bytes) : CheckpointProg Unit := do
  if ← invoke (.hasBlob blobId) then pure () else invoke (.putBlob blobId data)

/-- How many records of `n` have to go so that no more are left than the store keeps. -/
def excess (n : ℕ) : ℕ :=
  if 0 < store.maxCheckpoints ∧ store.maxCheckpoints < n then n - store.maxCheckpoints else 0

/-- Save a checkpoint: the blob is put first, then its record is added to the registry, which is
saved without the oldest ones, and at last the blobs of those are collected. -/
def saveCheckpointBytes (originId : String) (payload : Bytes) (request : CheckpointSaveRequest) :
    CheckpointProg CheckpointRecord := do
  let compressed ← invoke (.encode payload store.compressionLevel)
  putMissing (P.blobId compressed) compressed
  let checkpointId ← invoke .newId
  let createdAt ← invoke .nowUtc
  let record := recordOf P originId payload request compressed checkpointId createdAt
  let records ← loadRegistry P originId
  let records := records ++ [record]
  let evicted := records.take (store.excess records.length)
  saveRegistry originId (records.drop (store.excess records.length))
  let _ ← gcBlobIds P (evicted.map (·.blobId))
  pure record

/-- The payload of a checkpoint, of the last one where no id is given. -/
def loadCheckpointBytes (originId : String) (checkpointId : Option String) :
    CheckpointProg Bytes := do
  let records ← loadRegistry P originId
  let record ← Prog.lift (findRecord records checkpointId)
  let compressed ← invoke (.getBlob record.blobId)
  invoke (.decode compressed)

/-- The records of an origin, the oldest first. -/
def listCheckpoints (originId : String) : CheckpointProg (List CheckpointRecord) :=
  loadRegistry P originId

/-- The record of a checkpoint, of the last one where no id is given. -/
def getCheckpoint (originId : String) (checkpointId : Option String) :
    CheckpointProg CheckpointRecord := do
  let records ← loadRegistry P originId
  Prog.lift (findRecord records checkpointId)

/-- The loop that goes from a record to its parent, for at most `fuel` turns; a map from ids to
records keeps the last record of an id. -/
def lineageFrom (records : List CheckpointRecord) :
    ℕ → CheckpointRecord → Option (List CheckpointRecord)
  | 0, _ => none
  | fuel + 1, current =>
    match current.parentCheckpointId.bind fun parentId =>
        records.reverse.find? fun record => record.checkpointId = parentId with
    | none => some [current]
    | some parent => (lineageFrom records fuel parent).map fun lineage => lineage ++ [current]

/-- The lineage of a record, its root first, if the loop ends within `fuel` turns. -/
def getLineage (fuel : ℕ) (originId : String) (checkpointId : Option String) :
    CheckpointProg (Option (List CheckpointRecord)) := do
  let records ← loadRegistry P originId
  if records.isEmpty then pure (some [])
  else
    let current ← Prog.lift (findRecord records checkpointId)
    pure (lineageFrom records fuel current)

/-- Delete the records of an id, and the blobs that only they named. Whether there were any is the
reply. -/
def deleteCheckpoint (originId checkpointId : String) : CheckpointProg Bool := do
  let records ← loadRegistry P originId
  let removed := records.filter fun record => record.checkpointId = checkpointId
  let retained := records.filter fun record => record.checkpointId ≠ checkpointId
  if removed.isEmpty then pure false
  else
    saveRegistry originId retained
    let _ ← gcBlobIds P (removed.map (·.blobId))
    pure true

end CheckpointStore

/-! ### What the calls do -/

/-- What the methods share, in front of a clock, of the ids that will be drawn and of what will
fail. -/
structure CheckpointState where
  registry : Table String CheckpointRegistryText
  blobs : Table BlobId Bytes
  /-- What the clock will read, call after call. -/
  clock : ℕ → OffsetDateTime
  /-- The ids that will be drawn, one after the other. -/
  ids : ℕ → String
  /-- The errors in which the calls that can fail will end, call after call. -/
  faults : ℕ → Option SodlError

/-- A store whose registry directory is empty, over some blobs, in front of a clock, of ids and of
what will fail. -/
def CheckpointState.opened (blobs : Table BlobId Bytes) (clock : ℕ → OffsetDateTime)
    (ids : ℕ → String) (faults : ℕ → Option SodlError) : CheckpointState where
  registry := ∅
  blobs := blobs
  clock := clock
  ids := ids
  faults := faults

/-- Whether a call can fail: all can but drawing an id and reading the clock. -/
def CheckpointCall.fallible : CheckpointCall → Bool
  | .newId | .nowUtc => false
  | _ => true

namespace CheckpointState

/-- What a call does where nothing fails, to the tables that stand for the two directories. -/
def answer (P : ArtifactPlatform) : Handler checkpointSig CheckpointState
  | .readRegistry name, s => (.ok (s.registry.lookup name), s)
  | .writeRegistry name g, s => (.ok (), { s with registry := s.registry.insert name g.toText })
  | .readDir, s => (.ok s.registry.keys, s)
  | .hasBlob b, s => (.ok (s.blobs.lookup b).isSome, s)
  | .putBlob b data, s =>
    -- a blob that is there is left as it is
    (.ok (), if (s.blobs.lookup b).isSome then s else { s with blobs := s.blobs.insert b data })
  | .getBlob b, s =>
    (match s.blobs.lookup b with
      | some data => .ok data
      | none => .err .notFound, s)
  | .deleteBlob b, s => (.ok (), { s with blobs := s.blobs.erase b })
  | .encode data level, s =>
    (match P.encodeAll data level with
      | .ok compressed => .ok compressed
      | .error err => .err (.compression ("compress checkpoint payload: " ++ err)), s)
  | .decode data, s =>
    (match P.decodeAll data with
      | .ok bytes => .ok bytes
      | .error err => .err (.compression ("decompress checkpoint payload: " ++ err)), s)
  | .newId, s => (.ok (s.ids 0), { s with ids := fun n => s.ids (n + 1) })
  | .nowUtc, s => (.ok (s.clock 0), { s with clock := fun n => s.clock (n + 1) })

/-- What a call does: it ends in the error that is next, if one is, and otherwise does what it
should. -/
def handle (P : ArtifactPlatform) : Handler checkpointSig CheckpointState := fun c s =>
  if c.fallible then
    match s.faults 0 with
    | some e => (.err e, { s with faults := fun n => s.faults (n + 1) })
    | none => answer P c { s with faults := fun n => s.faults (n + 1) }
  else answer P c s

/-- The store is one whose calls may fail: a call that does leaves everything but the errors that
are to come. -/
theorem faulty_handle (P : ArtifactPlatform) :
    Faulty (handle P) (answer P) CheckpointCall.fallible
      fun s t => ∃ f, t = { s with faults := f } := by
  refine Faulty.of_next (fun s => s.faults 0)
    (fun s => { s with faults := fun n => s.faults (n + 1) }) (fun _ => ⟨_, rfl⟩)
    (fun s => ⟨s.faults, rfl⟩) fun c s => ?_
  rw [handle]
  cases s.faults 0 <;> rfl

end CheckpointState

end Sodl
