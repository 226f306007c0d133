import Mathlib.Algebra.Order.Ring.Rat
import Mathlib.Data.List.Dedup
import Sodl.Data.Dict
import Sodl.FsBlobs
import Sodl.Optimizer.Store

/-!
# Artifacts

`ArtifactStore` (`src/python/sodl_weights/artifact_store.py`): data is compressed and put as a
blob, and a manifest, one for each origin, records what was put. The manifests are kept in memory
once they are needed, and each change is written to a file whose name is made from the origin
(`Sodl.Python.ArtifactStore.manifestPath`).

Whether a blob may go with its artifact is asked of the files: the manifests in the directory, as
they are found by `glob("*.json")`. These are not all the manifests there are. The name of an origin
may lead into a directory below or elsewhere, where the `glob` does not look; and a manifest whose
file could not be written is in memory only.

The files are a table from the places of files to manifests (`Sodl.Python.ManifestTree`): the text
of a manifest is exact, and a directory that was made for a file is where something is below it. The
blob store is a table from ids to bytes. Instants are microseconds, and the seconds that records
state are whole. Not modelled are the time a manifest was made, which nothing reads, and what
`store_tensor` does to a tensor before it stores the array.
-/

namespace Sodl

open UnixPath

namespace Python

/-! ### Manifests -/

/-- Metadata attached to a stored artifact: what it is called and tagged with, and the blob it is
kept in. -/
structure ArtifactMetadata where
  artifactId : String
  blobId : BlobId
  name : String
  artifactType : String
  originId : String
  shape : Option (List ℕ)
  dtype : Option String
  sizeRaw : ℕ
  sizeStored : ℕ
  createdAt : ℤ
  tags : Dict String String
  deriving DecidableEq

/-- Manifest tracking all artifacts for an origin, under their ids and in the order in which they
were added. -/
structure ArtifactManifest where
  originId : String
  artifacts : Dict String ArtifactMetadata
  deriving DecidableEq

/-- The manifests on disk by the places of their files, with the directories that were there
before them. -/
structure ManifestTree where
  dirs : List (List Name)
  files : Table (List Name) ArtifactManifest

namespace ManifestTree

variable (t : ManifestTree)

def isDir (loc : List Name) : Bool :=
  (t.dirs.any fun dir => loc.isPrefixOf dir) ||
    t.files.keys.any fun file => loc.isPrefixOf file && loc ≠ file

/-- A file stands on the way to a place, so that no directory can be made there. -/
def isBlocked (loc : List Name) : Bool :=
  t.files.keys.any fun file => file.isPrefixOf loc && file ≠ loc

/-- `exists`, and `ArtifactManifest.load` if so. A place where nothing is gives no manifest and no
error. -/
def load (loc : List Name) : Except SodlError (Option ArtifactManifest) :=
  if t.isDir loc then .error (.io IoError.isADirectory.display) else .ok (t.files.lookup loc)

/-- `ArtifactManifest.save`, which makes the directories a file needs, and fails where a file or a
directory is in the way. -/
def save (loc : List Name) (manifest : ArtifactManifest) : Except SodlError ManifestTree :=
  if t.isBlocked loc then .error (.io IoError.notADirectory.display)
  else if t.isDir loc then .error (.io IoError.isADirectory.display)
  else .ok { t with files := t.files.insert loc manifest }

/-- The names in a directory, of files and of directories, each once. -/
def entries (dir : List Name) : List Name :=
  ((t.dirs ++ t.files.keys).filterMap fun loc =>
    if dir.isPrefixOf loc then loc[dir.length]? else none).dedup

/-- `glob("*.json")`. The order in which the names come decides nothing but which of several errors
is raised. -/
def globJson (dir : List Name) : List (List Name) :=
  ((t.entries dir).filter fun name => ".json".toList.isSuffixOf name).map fun name => dir ++ [name]

/-- The manifests at some places, in their order. The first that cannot be read fails all of
them. -/
def loadAll : List (List Name) → Except SodlError (List ArtifactManifest)
  | [] => .ok []
  | loc :: locs => do
    match ← t.load loc with
    | none => .error (.io IoError.notFound.display)
    | some manifest =>
      let manifests ← loadAll locs
      pure (manifest :: manifests)

end ManifestTree

/-! ### The store -/

structure ArtifactStore where
  cwd : List Name
  manifestDir : Path
  zstdLevel : ℤ

/-- What the store has in memory and on disk: a manifest in memory is not looked for on disk
again. -/
structure ArtifactState where
  tree : ManifestTree
  /-- `_manifests`. -/
  manifests : Table String ArtifactManifest
  blobs : Table BlobId Bytes

/-- What a new artifact is called, with the identifier and the time it gets. -/
structure ArtifactLabel where
  name : String
  tags : Dict String String
  artifactId : String
  createdAt : ℤ

/-- What `_store_raw` is called with, by each of the ways to store something. -/
structure ArtifactInput where
  originId : String
  data : Bytes
  artifactType : String
  shape : Option (List ℕ)
  dtype : Option String
  label : ArtifactLabel

/-- What arrays and JSON values are stored as, with what is recorded of an array besides. -/
structure ArtifactFormats (A J : Type) where
  /-- `_serialize_numpy`. -/
  serializeNumpy : A → Except SodlError Bytes
  shape : A → List ℕ
  dtype : A → String
  /-- `_serialize_json`. -/
  serializeJson : J → Except SodlError Bytes

/-- Which artifacts are let go: of those beyond the last so many the ones that are old enough, or
all where no age is given, and none with the protected tags. -/
structure RetentionPolicy where
  keepLast : ℤ
  maxAgeSeconds : Option ℚ
  protectedTags : Dict String String

namespace ArtifactStore

/-- `_safe_origin_filename`, which takes only the colons away: what else is in an id goes into the
path. -/
def safeOriginFilename (originId : String) : List Char :=
  originId.toList.flatMap fun c => if c = ':' then ['_', '_'] else [c]

variable {A J : Type} (P : ArtifactPlatform) (self : ArtifactStore)

/-- `_manifest_path`: the path is joined as Python does it, so an id that begins with a slash leaves
the directory. -/
def manifestPath (originId : String) : Path :=
  join self.manifestDir (safeOriginFilename originId ++ ".json".toList)

/-- Where the file of a manifest is, with the path followed from the working directory. -/
def place (originId : String) : List Name := locate self.cwd (self.manifestPath originId)

def getManifest (originId : String) (s : ArtifactState) :
    Except SodlError ArtifactManifest × ArtifactState :=
  match s.manifests.lookup originId with
  | some manifest => (.ok manifest, s)
  | none =>
    match s.tree.load (self.place originId) with
    | .error e => (.error e, s)
    | .ok found =>
      let manifest := found.getD ⟨originId, []⟩
      (.ok manifest, { s with manifests := s.manifests.insert originId manifest })

/-- A manifest is changed in memory, and then saved. What cannot be saved stays changed in
memory. -/
def saveManifest (originId : String) (manifest : ArtifactManifest) (s : ArtifactState) :
    Except SodlError Unit × ArtifactState :=
  let s := { s with manifests := s.manifests.insert originId manifest }
  match s.tree.save (self.place originId) manifest with
  | .error e => (.error e, s)
  | .ok tree => (.ok (), { s with tree := tree })

def allManifests (s : ArtifactState) : Except SodlError (List ArtifactManifest) :=
  s.tree.loadAll (s.tree.globJson (locate self.cwd self.manifestDir))

def referencedBlobIds (exclude : String × String) (s : ArtifactState) :
    Except SodlError (List BlobId) := do
  let manifests ← self.allManifests s
  pure (manifests.flatMap fun manifest =>
    (manifest.artifacts.filter fun row => exclude ≠ (manifest.originId, row.1)).map
      fun row => row.2.blobId)

/-- What is recorded of data that was compressed: its blob is named by the compressed bytes. -/
def metadata (input : ArtifactInput) (compressed : Bytes) : ArtifactMetadata where
  artifactId := input.label.artifactId
  blobId := P.blobId compressed
  name := input.label.name
  artifactType := input.artifactType
  originId := input.originId
  shape := input.shape
  dtype := input.dtype
  sizeRaw := input.data.length
  sizeStored := compressed.length
  createdAt := input.label.createdAt
  tags := input.label.tags

/-- `_store_raw`: the blob is written first, and the manifest of the origin is saved with the record
behind it. -/
def storeRaw (input : ArtifactInput) (s : ArtifactState) :
    Except SodlError ArtifactMetadata × ArtifactState :=
  match P.encodeAll input.data self.zstdLevel with
  | .error e => (.error (.compression e), s)
  | .ok compressed =>
    let record := metadata P input compressed
    let s := { s with blobs := s.blobs.insert record.blobId compressed }
    match self.getManifest input.originId s with
    | (.error e, s) => (.error e, s)
    | (.ok manifest, s) =>
      let manifest :=
        { manifest with artifacts := manifest.artifacts.set record.artifactId record }
      match self.saveManifest input.originId manifest s with
      | (.error e, s) => (.error e, s)
      | (.ok _, s) => (.ok record, s)

def store (originId : String) (data : Bytes) (label : ArtifactLabel) (s : ArtifactState) :
    Except SodlError ArtifactMetadata × ArtifactState :=
  self.storeRaw P ⟨originId, data, "bytes", none, none, label⟩ s

def storeNumpy (F : ArtifactFormats A J) (originId : String) (array : A) (label : ArtifactLabel)
    (s : ArtifactState) : Except SodlError ArtifactMetadata × ArtifactState :=
  match F.serializeNumpy array with
  | .error e => (.error e, s)
  | .ok data =>
    self.storeRaw P
      ⟨originId, data, "numpy", some (F.shape array), some (F.dtype array), label⟩ s

def storeJson (F : ArtifactFormats A J) (originId : String) (obj : J) (label : ArtifactLabel)
    (s : ArtifactState) : Except SodlError ArtifactMetadata × ArtifactState :=
  match F.serializeJson obj with
  | .error e => (.error e, s)
  | .ok data => self.storeRaw P ⟨originId, data, "json", none, none, label⟩ s

/-- `_load_raw`: the blob under an id is decompressed. Whether it is the one of the id is not looked
at. -/
def loadRaw (blobId : BlobId) (s : ArtifactState) : Except SodlError Bytes :=
  match s.blobs.lookup blobId with
  | none => .error .notFound
  | some compressed => (P.decodeAll compressed).mapError .compression

/-- The artifacts of a manifest, of one type if one is given, from the oldest on. -/
def listing (artifactType : Option String) (manifest : ArtifactManifest) : List ArtifactMetadata :=
  let artifacts := manifest.artifacts.map Prod.snd
  let ofType := match artifactType with
    | none => artifacts
    | some t => if t = "" then artifacts else artifacts.filter fun a => a.artifactType = t
  ofType.mergeSort fun a b => a.createdAt ≤ b.createdAt

def listArtifacts (originId : String) (artifactType : Option String) (s : ArtifactState) :
    Except SodlError (List ArtifactMetadata) × ArtifactState :=
  match self.getManifest originId s with
  | (.error e, s) => (.error e, s)
  | (.ok manifest, s) => (.ok (listing artifactType manifest), s)

/-- The blob of an artifact that was removed goes unless it is referred to. -/
def deleteBlob (originId artifactId : String) (blobId : BlobId) (s : ArtifactState) :
    Except SodlError Bool × ArtifactState :=
  match self.referencedBlobIds (originId, artifactId) s with
  | .error e => (.error e, s)
  | .ok referenced =>
    (.ok true, if blobId ∈ referenced then s else { s with blobs := s.blobs.erase blobId })

def deleteArtifact (originId artifactId : String) (deleteBlobIfUnreferenced : Bool)
    (s : ArtifactState) : Except SodlError Bool × ArtifactState :=
  match self.getManifest originId s with
  | (.error e, s) => (.error e, s)
  | (.ok manifest, s) =>
    match manifest.artifacts.get? artifactId with
    | none => (.ok false, s)
    | some record =>
      let manifest := { manifest with artifacts := manifest.artifacts.erase artifactId }
      match self.saveManifest originId manifest s with
      | (.error e, s) => (.error e, s)
      | (.ok _, s) =>
        if deleteBlobIfUnreferenced then self.deleteBlob originId artifactId record.blobId s
        else (.ok true, s)

/-- Whether an artifact has all the protected tags. Where there are none, nothing is protected. -/
def isProtected (policy : RetentionPolicy) (a : ArtifactMetadata) : Bool :=
  !policy.protectedTags.isEmpty &&
    policy.protectedTags.all fun tag => a.tags.get? tag.1 = some tag.2

/-- The artifacts a policy lets go at an instant, of those an origin has. -/
def expired (policy : RetentionPolicy) (now : ℤ) (artifacts : List ArtifactMetadata) :
    List ArtifactMetadata :=
  let keepIds := if 0 < policy.keepLast then
    (artifacts.drop (artifacts.length - policy.keepLast.toNat)).map (·.artifactId) else []
  artifacts.filter fun a => a.artifactId ∉ keepIds && !isProtected policy a &&
    match policy.maxAgeSeconds with
    | some maxAge => ¬(now : ℚ) / 1000000 - a.createdAt < maxAge
    | none => 0 < policy.keepLast

/-- The deletions of a retention, one after the other, which collect what was removed. -/
def removeAll (originId : String) (deleteBlobs : Bool) :
    List ArtifactMetadata → ArtifactState →
      Except SodlError (List ArtifactMetadata) × ArtifactState
  | [], s => (.ok [], s)
  | a :: rest, s =>
    match self.deleteArtifact originId a.artifactId deleteBlobs s with
    | (.error e, s) => (.error e, s)
    | (.ok gone, s) =>
      match removeAll originId deleteBlobs rest s with
      | (.error e, s) => (.error e, s)
      | (.ok removed, s) => (.ok (if gone then a :: removed else removed), s)

def enforceRetention (originId : String) (policy : RetentionPolicy) (now : ℤ)
    (deleteUnreferencedBlobs : Bool) (s : ArtifactState) :
    Except SodlError (List ArtifactMetadata) × ArtifactState :=
  match self.listArtifacts originId none s with
  | (.error e, s) => (.error e, s)
  | (.ok artifacts, s) =>
    self.removeAll originId deleteUnreferencedBlobs (expired policy now artifacts) s

end ArtifactStore

end Python

end Sodl
