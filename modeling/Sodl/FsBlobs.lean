import Sodl.Api
import Sodl.Data.Paths

/-!
# The filesystem blob store

Blobs as files below a root directory (`crates/sodl-cas/src/lib.rs`): the blob with the id
`alg:hex` is the file `alg/he/x`, and is written to a temporary file first. The store takes
the id apart at the colon and behind the second byte, and joins the parts as they are.

The file system is a table from the names that lead to a node to the node, in front of a
working directory. What a call of `std::fs` does is said there for files and directories;
links, permissions and full disks are left out.
-/

namespace Sodl

open Effect UnixPath

/-! ### The file system -/

inductive Node
  | file (data : Bytes)
  | dir

/-- An error of the file system, of those that the calls of the store can come to. -/
inductive IoError
  | notFound
  | alreadyExists
  | notADirectory
  | isADirectory

/-- The text of an error, with the number that Linux gives it. -/
def IoError.display : IoError → String
  | .notFound => "No such file or directory (os error 2)"
  | .alreadyExists => "File exists (os error 17)"
  | .notADirectory => "Not a directory (os error 20)"
  | .isADirectory => "Is a directory (os error 21)"

/-- A file system and the working directory. The root of the file system is always there. -/
structure Disk where
  cwd : List Name
  nodes : Table (List Name) Node

namespace Disk

def nodeAt (d : Disk) (loc : List Name) : Option Node :=
  if loc = [] then some .dir else d.nodes.lookup loc

/-- `Path::exists`, which holds of directories as it does of files. -/
def pathExists (d : Disk) (p : Path) : Bool := (d.nodeAt (locate d.cwd p)).isSome

/-- `fs::read`, of the file that a path leads to from the working directory. -/
def read (d : Disk) (p : Path) : Except IoError Bytes :=
  match d.nodeAt (locate d.cwd p) with
  | some (.file data) => .ok data
  | some .dir => .error .isADirectory
  | none => .error .notFound

/-- `fs::write`: a file that is there is written over, and a new one needs its directory. -/
def write (d : Disk) (p : Path) (data : Bytes) : Except IoError Disk :=
  let loc := locate d.cwd p
  match d.nodeAt loc with
  | some (.file _) => .ok { d with nodes := d.nodes.insert loc (.file data) }
  | some .dir => .error .isADirectory
  | none =>
    -- a new file needs its directory
    match d.nodeAt loc.dropLast with
    | some .dir => .ok { d with nodes := d.nodes.insert loc (.file data) }
    | some (.file _) => .error .notADirectory
    | none => .error .notFound

/-- `fs::rename`, of a file: what is under the new name is replaced, unless it is a directory. -/
def rename (d : Disk) (p q : Path) : Except IoError Disk :=
  match d.nodeAt (locate d.cwd p) with
  | some (.file data) =>
    match d.nodeAt (locate d.cwd q) with
    | some .dir => .error .isADirectory
    | _ => .ok { d with nodes :=
        (d.nodes.erase (locate d.cwd p)).insert (locate d.cwd q) (.file data) }
  | some .dir => .error .isADirectory
  | none => .error .notFound

/-- `fs::remove_file`, which removes no directory. -/
def removeFile (d : Disk) (p : Path) : Except IoError Disk :=
  match d.nodeAt (locate d.cwd p) with
  | some (.file _) => .ok { d with nodes := d.nodes.erase (locate d.cwd p) }
  | some .dir => .error .isADirectory
  | none => .error .notFound

/-- Make some directories, one below the other. Those that were made before an error stay. -/
def makeDirs : List (List Name) → Disk → Except IoError Unit × Disk
  | [], d => (.ok (), d)
  | loc :: locs, d =>
    match d.nodeAt loc with
    | some .dir => makeDirs locs d
    | some (.file _) => (.error (if locs = [] then .alreadyExists else .notADirectory), d)
    | none => makeDirs locs { d with nodes := d.nodes.insert loc .dir }

/-- `fs::create_dir_all`: the directories of a path from the root of the disk on. -/
def createDirAll (d : Disk) (p : Path) : Except IoError Unit × Disk :=
  d.makeDirs (locate d.cwd p).inits

end Disk

/-! ### The store -/

/-- Filesystem-backed blob store: the directory below which it keeps its files, as it was given. -/
structure FsBlobStore where
  root : Path

/-- A text cut behind a number of bytes, if that is between two characters. -/
def splitAtByte : ℕ → List Char → Option (List Char × List Char)
  | 0, cs => some ([], cs)
  | _ + 1, [] => none
  | n + 1, c :: cs =>
    if c.utf8Size ≤ n + 1 then
      (splitAtByte (n + 1 - c.utf8Size) cs).map fun p => (c :: p.1, p.2)
    else none

namespace FsBlobStore

variable (store : FsBlobStore)

/-- Resolve a blob id to the directory and the path of its file. -/
def blobPath (id : BlobId) : Outcome SodlError (Path × Path) :=
  match splitOnce ':' id.val with
  | none => .err (.invalid "BlobId missing prefix")
  | some (alg, hex) =>
    if hex.utf8ByteSize < 3 then .err (.invalid "BlobId hex too short")
    else
      -- slicing inside of a character panics
      match splitAtByte 2 hex.toList with
      | none => .panic
      | some (pre, rest) =>
        let dir := join (join store.root alg.toList) pre
        .ok (dir, join dir rest)

/-- The path `put` writes to before it renames, which is one path for all puts of a blob. -/
def tmpPath (path : Path) : Path := withExtension path "tmp".toList

def has (id : BlobId) (d : Disk) : Outcome SodlError Bool := do
  let (_, path) ← store.blobPath id
  pure (d.pathExists path)

def put (id : BlobId) (data : Bytes) (d : Disk) : Outcome SodlError Unit × Disk :=
  match store.blobPath id with
  | .err e => (.err e, d)
  | .panic => (.panic, d)
  | .ok (dir, path) =>
    -- what is at the path counts as the blob, whatever it is
    if d.pathExists path then (.ok (), d)
    else
      match d.createDirAll dir with
      | (.error e, d) => (.err (.io ("mkdir " ++ String.ofList dir ++ ": " ++ e.display)), d)
      | (.ok _, d) =>
        match d.write (tmpPath path) data with
        | .error e =>
          (.err (.io ("write " ++ String.ofList (tmpPath path) ++ ": " ++ e.display)), d)
        | .ok d =>
          match d.rename (tmpPath path) path with
          | .error e => (.err (.io ("rename " ++ String.ofList path ++ ": " ++ e.display)), d)
          | .ok d => (.ok (), d)

def get (id : BlobId) (d : Disk) : Outcome SodlError Bytes := do
  let (_, path) ← store.blobPath id
  match d.read path with
  | .ok data => pure data
  | .error .notFound => .err .notFound
  | .error e => .err (.io ("read " ++ String.ofList path ++ ": " ++ e.display))

def delete (id : BlobId) (d : Disk) : Outcome SodlError Unit × Disk :=
  match store.blobPath id with
  | .err e => (.err e, d)
  | .panic => (.panic, d)
  | .ok (_, path) =>
    match d.removeFile path with
    | .ok d => (.ok (), d)
    -- deleting what is not there succeeds
    | .error .notFound => (.ok (), d)
    | .error e => (.err (.io ("delete " ++ String.ofList path ++ ": " ++ e.display)), d)

/-- The stores with their blobs on a disk: the calls for blobs go to the files, and all others to
the stores in memory. -/
def handle {I : Type} [IndexBackend I] : Handler storeSig (Stores I × Disk)
  | .hasBlob b, s => (store.has b s.2, s)
  | .putBlob b data, s => ((store.put b data s.2).1, s.1, (store.put b data s.2).2)
  | .getBlob b, s => (store.get b s.2, s)
  | .deleteBlob b, s => ((store.delete b s.2).1, s.1, (store.delete b s.2).2)
  | c, s => ((Stores.handle c s.1).1, (Stores.handle c s.1).2, s.2)

end FsBlobStore

/-- `GET /v1/blobs/:id`, with the id as it stands in the path of the request. -/
def getBlob (id : String) : ApiHandler Bytes := orReject (Store.getBlob ⟨id⟩)

/-! ### What the requests touch -/

section Requests

variable {I : Type} [IndexBackend I] {store : FsBlobStore} {id : String} {s : Stores I}
  {d d' : Disk} {loc : List Name}

theorem Disk.nodeAt_removeFile {p : Path} (h : d.removeFile p = .ok d')
    (hloc : loc ≠ locate d.cwd p) : d'.nodeAt loc = d.nodeAt loc := by
  rw [Disk.removeFile] at h
  split at h
  · rw [← Except.ok.inj h, Disk.nodeAt, Disk.nodeAt]
    exact congrArg (ite _ _) (Table.lookup_erase_ne hloc)
  · exact absurd h (by simp)
  · exact absurd h (by simp)

theorem FsBlobStore.cwd_delete (store : FsBlobStore) (b : BlobId) (d : Disk) :
    (store.delete b d).2.cwd = d.cwd := by
  rw [FsBlobStore.delete]
  rcases store.blobPath b with ⟨dir, path⟩ | e | _
  · simp only
    rcases hd : d.removeFile path with e | d'
    · rcases e <;> rfl
    · rw [Disk.removeFile] at hd
      split at hd
      · rw [← Except.ok.inj hd]
      · exact absurd hd (by simp)
      · exact absurd hd (by simp)
  · rfl
  · rfl

/-- Deleting a blob changes nothing but its file: no directory is removed with it. -/
theorem FsBlobStore.nodeAt_delete {b : BlobId}
    (hloc : ∀ dir path, store.blobPath b = .ok (dir, path) → loc ≠ locate d.cwd path) :
    (store.delete b d).2.nodeAt loc = d.nodeAt loc := by
  rw [FsBlobStore.delete]
  rcases hb : store.blobPath b with ⟨dir, path⟩ | e | _
  · simp only
    rcases hd : d.removeFile path with e | d'
    · rcases e <;> rfl
    · exact Disk.nodeAt_removeFile hd (hloc dir path hb)
  · rfl
  · rfl

/-- A request to delete a blob changes nothing but its file, whether the guard lets it through or
not. -/
theorem nodeAt_deleteBlob
    (hloc : ∀ dir path, store.blobPath ⟨id⟩ = .ok (dir, path) → loc ≠ locate d.cwd path) :
    (Prog.run store.handle (AppState.deleteBlob id) (s, d)).2.2.nodeAt loc = d.nodeAt loc := by
  have hdelete : ∀ t : Stores I × Disk, t.2.cwd = d.cwd ∧ t.2.nodeAt loc = d.nodeAt loc →
      (store.delete ⟨id⟩ t.2).2.cwd = d.cwd ∧ (store.delete ⟨id⟩ t.2).2.nodeAt loc =
        d.nodeAt loc := by
    rintro t ⟨hcwd, hat⟩
    refine ⟨(store.cwd_delete ⟨id⟩ t.2).trans hcwd, ?_⟩
    rw [store.nodeAt_delete fun dir path hb => hcwd.symm ▸ hloc dir path hb, hat]
  have hkept : (AppState.deleteBlob id).Preserves store.handle
      fun t : Stores I × Disk => t.2.cwd = d.cwd ∧ t.2.nodeAt loc = d.nodeAt loc := by
    -- the two checks only read
    refine (Prog.Preserves.mapErr (Prog.Preserves.perform fun _ ht => ht)).bind fun there => ?_
    split
    · trivial
    · refine (Prog.Preserves.mapErr (Prog.Preserves.perform fun _ ht => ht)).bind fun refs => ?_
      split
      · trivial
      · exact Prog.Preserves.mapErr (Prog.Preserves.perform hdelete)
  exact (hkept.run (s := (s, d)) ⟨rfl, rfl⟩).2

/-- A request for a blob depends on its file alone: two disks that agree there give one answer. -/
theorem run_getBlob_congr (hcwd : d'.cwd = d.cwd)
    (hloc : ∀ dir path, store.blobPath ⟨id⟩ = .ok (dir, path) →
      d.nodeAt (locate d.cwd path) = d'.nodeAt (locate d.cwd path)) :
    (Prog.run store.handle (getBlob id) (s, d)).1 =
      (Prog.run store.handle (getBlob id) (s, d')).1 := by
  have hget : store.get ⟨id⟩ d = store.get ⟨id⟩ d' := by
    rw [FsBlobStore.get, FsBlobStore.get]
    rcases hb : store.blobPath ⟨id⟩ with ⟨dir, path⟩ | e | _
    · have hread : d.read path = d'.read path := by
        rw [Disk.read, Disk.read, hcwd, hloc dir path hb]
      simp only [Outcome.ok_bind, hread]
    · rfl
    · rfl
  rw [getBlob, orReject, Prog.run_mapErr, Prog.run_mapErr]
  exact congrArg (Outcome.mapErr errResponse) hget

end Requests

end Sodl
