import Mathlib.Data.List.DropRight
import Sodl.FetchSources
import Sodl.PutGet
import Sodl.PythonProof

/-!
# The blob store of the Python SDK

`BlobStore` (`src/python/sodl_weights/store.py`), which keeps blobs in files of its own, or, where
the native module is there, hands them to `PyFsBlobStore` (`crates/sodl-python-ffi/src/lib.rs`) and
falls back to its own files when that raises. Behind the files on disk it looks into the
directories, at the peers and at the edge servers it was set up with.

What a request is answered with is given for the time of a call (`Sodl.Python.Net`). The record of
who provided a blob, which neither side reads while it serves one, is left out.

Of the two, `PyFsBlobStore` checks what it fetches from elsewhere against the id. What
`BlobStore` fetches itself it does not check, and neither of them checks what is in its files.
Still a read writes nothing but what it returns (`Sodl.Python.BlobStore.get_spec`).
-/

namespace Sodl

open Effect UnixPath

namespace Python

/-! ### Names and addresses -/

/-- Normalize a blob id or `.blob` filename to `blake3:<hex>`: white space, directories and the
suffix go, and an id without an algorithm gets one. -/
def canonicalBlobId (value : String) : List Char :=
  let raw := strip isSpace value.toList
  let name := (raw.map fun c => if c = '\\' then '/' else c).rtakeWhile (· ≠ '/')
  let name := if ".blob".toList.isSuffixOf name then name.take (name.length - 5) else name
  if ':' ∈ name then name else "blake3:".toList ++ name

/-- `canonical_blob_id(blob_id).split(":", 1)[1]`, which is not checked to be hexadecimal. -/
def hexHash (id : BlobId) : List Char := ((canonicalBlobId id.val).dropWhile (· ≠ ':')).tail

/-- `_path_for_root`: the files of a root all stand in one directory. -/
def pathForRoot (root : Path) (id : BlobId) : Path := join root (hexHash id ++ ".blob".toList)

/-- What `quote` leaves as it is: letters, digits, four other characters, and the colon that it is
given. -/
def isUnreserved (b : UInt8) : Bool :=
  let c := Char.ofNat b.toNat
  (b < 128 && c.isAlphanum) || c = '_' || c = '.' || c = '-' || c = '~' || c = ':'

/-- `quote(text, safe=":")`, byte by byte of the text in UTF-8. -/
def quote (text : String) : String :=
  String.ofList ((utf8 text).flatMap fun b =>
    if isUnreserved b then [Char.ofNat b.toNat]
    else ['%', (Nat.digitChar (b.toNat / 16)).toUpper, (Nat.digitChar (b.toNat % 16)).toUpper])

/-- `_remote_blob_url`, with the id as it was given, not in its canonical form. -/
def remoteBlobUrl (baseUrl : String) (id : BlobId) : String :=
  trimEndMatches '/' baseUrl ++ "/v1/blobs/" ++ quote id.val

/-- What `urlopen` ends in, of which `_fetch_remote_blob` tells three kinds apart. -/
inductive UrlReply
  /-- A response, whose body may fail to be read. -/
  | response (status : ℕ) (body : Option Bytes)
  | httpError (code : ℕ)
  /-- `URLError`, and whatever else is raised. -/
  | failed

/-- What the requests of a call are answered with: those of the native module, and those of
Python. -/
structure Net where
  client : HttpClient
  urlopen : String → UrlReply

/-! ### The store -/

structure BlobStore where
  root : Path
  sourceRoots : List Path
  peerUrls : List String
  edgeUrls : List String
  /-- Whether there is an `_ffi_store`. -/
  native : Bool

variable (P : Platform)

namespace PyFsBlobStore

variable (store : BlobStore) (net : Net)

def inner : FsBlobStore := ⟨store.root⟩

def sources : List FsBlobStore := store.sourceRoots.map FsBlobStore.mk

def peerSource : DiscoveredPeerSource where
  findProviders _ := .ok (store.peerUrls.map PeerAddr.mk)
  getBlob := HttpPeerClient.getBlob ⟨net.client⟩

def edgeProvider : HttpEdgeProvider := ⟨net.client, store.edgeUrls⟩

/-- Whether one of some stores has a blob. The first that fails ends the search. -/
def anyHas (id : BlobId) (d : Disk) : List FsBlobStore → Outcome SodlError Bool
  | [] => pure false
  | source :: rest => do
    if ← source.has id d then pure true else anyHas id d rest

def has (id : BlobId) (d : Disk) : Outcome SodlError Bool := do
  if ← (inner store).has id d then pure true
  else
    let peer ← if store.peerUrls = [] then pure none else (peerSource store net).fetch id
    if peer.isSome then pure true
    else
      let edge ← if store.edgeUrls = [] then pure none else (edgeProvider store net).getBlob id
      if edge.isSome then pure true else anyHas id d (sources store)

def put (id : BlobId) (data : Bytes) (d : Disk) : Outcome SodlError Unit × Disk :=
  (inner store).put id data d

/-- The sources of the pipeline, as they are at a disk: the peers, the edges, and the other
directories, in this order. -/
def sourceRefs (d : Disk) : List FetchSource :=
  (if store.peerUrls = [] then [] else [.peers (peerSource store net)]) ++
    (if store.edgeUrls = [] then [] else [.edge (edgeProvider store net)]) ++
    (sources store).map fun source => .store ⟨fun id => source.has id d, fun id => source.get id d⟩

/-- The calls of the pipeline, with the files as its cache, and no policy that could refuse. -/
def handle : Handler (fetchSig Unit FetchSource) Disk
  | .check _ _ _ _, d => (.ok (), d)
  | .has id, d => ((inner store).has id d, d)
  | .get id, d => ((inner store).get id d, d)
  | .put id data, d => (inner store).put id data d
  | .fetch src id, d => (src.fetch id, d)

def get (id : BlobId) (d : Disk) : Outcome SodlError Bytes × Disk :=
  match (inner store).has id d with
  | .err e => (.err e, d)
  | .panic => (.panic, d)
  | .ok true => ((inner store).get id d, d)
  | .ok false =>
    -- the loop that looks for a source to be recorded
    match anyHas id d (sources store) with
    | .err e => (.err e, d)
    | .panic => (.panic, d)
    | .ok _ =>
      let pipeline : FetchPipeline Unit FetchSource := ⟨sourceRefs store net d, none⟩
      Prog.run (handle store) (pipeline.getFor P none none id) d

end PyFsBlobStore

namespace BlobStore

variable (store : BlobStore) (net : Net)

/-- `_path`, of the store without the native module. -/
def path (id : BlobId) : Path := pathForRoot store.root id

/-- The paths of a blob below the source roots, in the order of the roots. -/
def sourcePaths (id : BlobId) : List Path := store.sourceRoots.map fun root => pathForRoot root id

/-- `_fetch_remote_blob`: the first body among some servers. What it has been given is not compared
with the id. -/
def fetchRemoteBlob (id : BlobId) : List String → Outcome SodlError (Option Bytes)
  | [] => .ok none
  | baseUrl :: rest =>
    match net.urlopen (remoteBlobUrl baseUrl id) with
    | .response status body =>
      if status = 200 then
        match body with
        | some data => .ok (some data)
        | none => .err (.io "read")
      else fetchRemoteBlob id rest
    | .httpError code => if code = 404 then fetchRemoteBlob id rest else .err .notFound
    | .failed => .err .notFound

/-- The first of some paths that leads to something, be it a directory. -/
def firstPath (d : Disk) (paths : List Path) : Option Path := paths.find? d.pathExists

/-- `has`, without the native module: the files are looked at first, and then the servers. -/
def flatHas (id : BlobId) (d : Disk) : Outcome SodlError Bool := do
  if d.pathExists (store.path id) then pure true
  else if (firstPath d (store.sourcePaths id)).isSome then pure true
  else
    let peer ← fetchRemoteBlob net id store.peerUrls
    if peer.isSome then pure true
    else
      let edge ← fetchRemoteBlob net id store.edgeUrls
      pure edge.isSome

def has (id : BlobId) (d : Disk) : Outcome SodlError Bool :=
  if store.native then
    match PyFsBlobStore.has store net id d with
    | .ok true => .ok true
    | .panic => .panic
    | _ => store.flatHas net id d
  else store.flatHas net id d

/-- `read_bytes`, whose error is that of the file system. -/
def readBytes (d : Disk) (p : Path) : Outcome SodlError Bytes :=
  match d.read p with
  | .ok data => .ok data
  | .error e => .err (.io e.display)

/-- `write_bytes`, which writes in place: there is no second name that would be renamed. -/
def writeBytes (d : Disk) (p : Path) (data : Bytes) : Outcome SodlError Unit × Disk :=
  match d.write p data with
  | .ok d' => (.ok (), d')
  | .error e => (.err (.io e.display), d)

def put (id : BlobId) (data : Bytes) (d : Disk) : Outcome SodlError Unit × Disk :=
  if store.native then PyFsBlobStore.put store id data d
  else writeBytes d (store.path id) data

/-- What was found is written to a place, which may fail or not. -/
def keep (write : Bytes → Disk → Outcome SodlError Unit × Disk) (found : Outcome SodlError Bytes)
    (d : Disk) : Outcome SodlError Bytes × Disk :=
  match found with
  | .ok data => ((write data d).1 >>= fun _ => .ok data, (write data d).2)
  | .err e => (.err e, d)
  | .panic => (.panic, d)

/-- The write of what the native store did not have, whose exceptions are passed over. -/
def tryPut (id : BlobId) (data : Bytes) (d : Disk) : Outcome SodlError Unit × Disk :=
  match PyFsBlobStore.put store id data d with
  | (.panic, d') => (.panic, d')
  | (_, d') => (.ok (), d')

/-- What the servers have: the peers first, and then the edges, if no peer has it. -/
def remote (id : BlobId) : Outcome SodlError (Option Bytes) := do
  match ← fetchRemoteBlob net id store.peerUrls with
  | some data => pure (some data)
  | none => fetchRemoteBlob net id store.edgeUrls

/-- What `get` finds when the native store has raised: the files by their other names, and then the
servers once more. -/
def legacy (id : BlobId) (d : Disk) : Outcome SodlError Bytes :=
  match firstPath d (store.path id :: store.sourcePaths id) with
  | some p => readBytes d p
  | none => do
    match ← store.remote net id with
    | some data => pure data
    | none => .err .notFound

/-- What `get` finds without the native module when its own file is not there. -/
def elsewhere (id : BlobId) (d : Disk) : Outcome SodlError Bytes := do
  match ← store.remote net id with
  | some data => pure data
  | none =>
    match firstPath d (store.sourcePaths id) with
    | some p => readBytes d p
    | none => .err .notFound

def get (id : BlobId) (d : Disk) : Outcome SodlError Bytes × Disk :=
  if store.native then
    match PyFsBlobStore.get P store net id d with
    | (.ok data, d') => (.ok data, d')
    | (.panic, d') => (.panic, d')
    | (.err _, d') => keep (store.tryPut id) (store.legacy net id d') d'
  else if d.pathExists (store.path id) then (readBytes d (store.path id), d)
  else keep (fun data d => writeBytes d (store.path id) data) (store.elsewhere net id d) d

/-! ### What a call may write -/

/-- The place of the file a blob has in the store, which is not the same with and without the native
module. -/
def OwnFile (cwd : List Name) (id : BlobId) (loc : List Name) : Prop :=
  if store.native then
    ∃ dir path, (PyFsBlobStore.inner store).blobPath id = .ok (dir, path) ∧ loc = locate cwd path
  else loc = locate cwd (store.path id)

/-- The place of the file the native store writes to first, one for all writes of a blob. -/
def TmpFile (cwd : List Name) (id : BlobId) (loc : List Name) : Prop :=
  store.native = true ∧ ∃ dir path, (PyFsBlobStore.inner store).blobPath id = .ok (dir, path) ∧
    loc = locate cwd (FsBlobStore.tmpPath path)

/-- From one disk to another, the file of a blob may have got bytes of a kind; the temporary file
apart, no other file has changed. -/
structure Writes (id : BlobId) (wrote : Bytes → Prop) (d d' : Disk) : Prop where
  cwd : d'.cwd = d.cwd
  files : ∀ loc, d'.fileAt loc = d.fileAt loc ∨
    (store.OwnFile d.cwd id loc ∧ ∃ b, d'.fileAt loc = some b ∧ wrote b) ∨
      store.TmpFile d.cwd id loc

variable {store net P} {id : BlobId} {wrote wrote' : Bytes → Prop} {data : Bytes}
  {d d' d'' : Disk}

theorem Writes.refl (d : Disk) : store.Writes id wrote d d := ⟨rfl, fun _ => Or.inl rfl⟩

/-- What writes no more than some bytes writes no more than others that these are among. -/
theorem Writes.mono (h : store.Writes id wrote d d') (hsub : ∀ b, wrote b → wrote' b) :
    store.Writes id wrote' d d' := by
  refine ⟨h.cwd, fun loc => ?_⟩
  rcases h.files loc with heq | ⟨hown, b, hb, hw⟩ | htmp
  · exact Or.inl heq
  · exact Or.inr (Or.inl ⟨hown, b, hb, hsub b hw⟩)
  · exact Or.inr (Or.inr htmp)

/-- One write after the other: both leave the other files alone, and what is in the file is what one
of them wrote. -/
theorem Writes.trans (h : store.Writes id wrote d d') (h' : store.Writes id wrote d' d'') :
    store.Writes id wrote d d'' := by
  refine ⟨h'.cwd.trans h.cwd, fun loc => ?_⟩
  have hfiles' := h'.files loc
  rw [h.cwd] at hfiles'
  rcases hfiles' with heq | hrest
  · rw [heq]
    exact h.files loc
  · exact Or.inr hrest

/-- A native put writes its data into the file of the blob, or into none, and touches no other file
but its temporary one. -/
theorem writes_put_native (hnative : store.native = true) (id : BlobId) (data : Bytes) (d : Disk) :
    store.Writes id (fun b => (PyFsBlobStore.put store id data d).1 = .ok () ∧ b = data) d
      (PyFsBlobStore.put store id data d).2 := by
  rcases hpath : (PyFsBlobStore.inner store).blobPath id with ⟨dir, path⟩ | e | _
  · obtain ⟨hcwd, hothers, hnew, hold⟩ := FsBlobStore.put_spec hpath data d
    refine ⟨hcwd, fun loc => ?_⟩
    by_cases hown : loc = locate d.cwd path
    · have hplace : store.OwnFile d.cwd id loc := by
        rw [OwnFile, if_pos hnative]
        exact ⟨dir, path, hpath, hown⟩
      subst hown
      by_cases hok : ((PyFsBlobStore.inner store).put id data d).1 = .ok ()
      · by_cases hthere : d.pathExists path = true
        · exact Or.inl (by rw [PyFsBlobStore.put, FsBlobStore.put_of_pathExists hpath hthere])
        · exact Or.inr (Or.inl ⟨hplace, data, hnew hok (Bool.eq_false_iff.mpr hthere), hok, rfl⟩)
      · exact Or.inl (hold hok)
    · by_cases htmp : loc = locate d.cwd (FsBlobStore.tmpPath path)
      · exact Or.inr (Or.inr ⟨hnative, dir, path, hpath, htmp⟩)
      · refine Or.inl (hothers loc ?_)
        simp [files, hown, htmp]
  · rw [PyFsBlobStore.put, FsBlobStore.put, hpath]
    exact Writes.refl d
  · rw [PyFsBlobStore.put, FsBlobStore.put, hpath]
    exact Writes.refl d

/-- A plain write writes its data into the file of the blob, and touches no other. -/
theorem writes_writeBytes (hflat : store.native = false) :
    store.Writes id (fun b => (writeBytes d (store.path id) data).1 = .ok () ∧ b = data) d
      (writeBytes d (store.path id) data).2 := by
  rw [writeBytes]
  rcases hw : d.write (store.path id) data with e | d₁
  · exact Writes.refl d
  · obtain ⟨hcwd, -, hnode⟩ := Disk.nodeAt_write hw
    refine ⟨hcwd, fun loc => ?_⟩
    by_cases hown : loc = locate d.cwd (store.path id)
    · have hplace : store.OwnFile d.cwd id loc := by
        rwa [OwnFile, hflat, if_neg Bool.false_ne_true]
      refine Or.inr (Or.inl ⟨hplace, data, ?_, rfl, rfl⟩)
      rw [Disk.fileAt, hnode, if_pos hown]
    · refine Or.inl (Disk.fileAt_congr ?_)
      rw [hnode, if_neg hown]

/-- **A put writes nothing but its data**, and that only if it returns. -/
theorem put_spec (store : BlobStore) (id : BlobId) (data : Bytes) (d : Disk) :
    store.Writes id (fun b => (store.put id data d).1 = .ok () ∧ b = data) d
      (store.put id data d).2 := by
  rw [put]
  split
  · rename_i hnative
    exact writes_put_native hnative id data d
  · rename_i hflat
    exact writes_writeBytes (Bool.eq_false_iff.mpr hflat)

/-- The sources of the native pipeline, one after the other: what is put into the files is what is
returned. -/
theorem writes_fetchFrom (hnative : store.native = true) (srcs : List FetchSource) (d : Disk) :
    store.Writes id
      (fun b => (Prog.run (PyFsBlobStore.handle store) (fetchFrom P id srcs) d).1 = .ok b) d
      (Prog.run (PyFsBlobStore.handle store) (fetchFrom P id srcs) d).2 := by
  induction srcs with
  | nil => exact Writes.refl d
  | cons src srcs ih =>
    rw [fetchFrom, Prog.run_bind, Prog.run_perform]
    rcases hfetch : src.fetch id with (_ | b) | e | _
    · simp only [PyFsBlobStore.handle, hfetch]
      exact ih
    · simp only [PyFsBlobStore.handle, hfetch, Prog.run_lift_bind]
      rcases verifyIntegrity P id b with u | e | _
      · have hput := writes_put_native hnative id b d
        simp only [Prog.run_bind_pure]
        refine hput.mono fun x hx => ?_
        obtain ⟨hok, rfl⟩ := hx
        exact congrArg (· >>= fun _ => Outcome.ok x) hok
      · exact Writes.refl d
      · exact Writes.refl d
    · simp only [PyFsBlobStore.handle, hfetch]
      exact Writes.refl d
    · simp only [PyFsBlobStore.handle, hfetch]
      exact Writes.refl d

/-- **The native store writes nothing but what it returns**, whether it finds it in its files or
elsewhere. -/
theorem writes_get_native (hnative : store.native = true) (net : Net) (id : BlobId) (d : Disk) :
    store.Writes id (fun b => (PyFsBlobStore.get P store net id d).1 = .ok b) d
      (PyFsBlobStore.get P store net id d).2 := by
  rw [PyFsBlobStore.get]
  rcases hhas : (PyFsBlobStore.inner store).has id d with (_ | _) | e | _
  · rcases PyFsBlobStore.anyHas id d (PyFsBlobStore.sources store) with _ | e | _
    · simp only [FetchPipeline.getFor, FetchPipeline.authorize, Prog.pure_eq, Prog.ret_ok_bind]
      rw [Prog.run_bind, Prog.run_perform]
      simp only [PyFsBlobStore.handle, hhas, Bool.false_eq_true, if_false]
      exact writes_fetchFrom hnative _ d
    · exact Writes.refl d
    · exact Writes.refl d
  · exact Writes.refl d
  · exact Writes.refl d
  · exact Writes.refl d

/-- What is found is kept by a write that writes nothing else, and nothing is written where nothing
is found. -/
theorem writes_keep (id : BlobId) (d : Disk)
    (write : Bytes → Disk → Outcome SodlError Unit × Disk)
    (hwrite : ∀ x, store.Writes id (fun b => (write x d).1 = .ok () ∧ b = x) d (write x d).2)
    (found : Outcome SodlError Bytes) :
    store.Writes id (fun b => (keep write found d).1 = .ok b) d (keep write found d).2 := by
  rcases found with x | e | _
  · refine (hwrite x).mono fun b hb => ?_
    obtain ⟨hok, rfl⟩ := hb
    exact congrArg (· >>= fun _ => Outcome.ok b) hok
  · exact Writes.refl d
  · exact Writes.refl d

theorem writes_tryPut (hnative : store.native = true) :
    store.Writes id (fun b => (store.tryPut id data d).1 = .ok () ∧ b = data) d
      (store.tryPut id data d).2 := by
  have hput := writes_put_native hnative id data d
  rw [tryPut]
  rcases hr : PyFsBlobStore.put store id data d with ⟨u | e | _, d₁⟩
  · rw [hr] at hput
    exact hput
  · rw [hr] at hput
    exact hput.mono fun b hb => absurd hb.1 nofun
  · rw [hr] at hput
    exact hput

/-- **A read writes nothing but what it returns**, with the native module and without it. -/
theorem get_spec (P : Platform) (store : BlobStore) (net : Net) (id : BlobId) (d : Disk) :
    store.Writes id (fun b => (store.get P net id d).1 = .ok b) d (store.get P net id d).2 := by
  rw [get]
  split
  · rename_i hnative
    have hget := writes_get_native (P := P) hnative net id d
    rcases hr : PyFsBlobStore.get P store net id d with ⟨x | e | _, d₁⟩
    · rw [hr] at hget
      exact hget
    · rw [hr] at hget
      exact (hget.mono fun b hb => absurd hb nofun).trans
        (writes_keep id d₁ (store.tryPut id) (fun x => writes_tryPut hnative) _)
    · rw [hr] at hget
      exact hget
  · rename_i hflat
    split
    · exact Writes.refl d
    · exact writes_keep id d (fun x d => writeBytes d (store.path id) x)
        (fun x => writes_writeBytes (Bool.eq_false_iff.mpr hflat)) _

end BlobStore

end Python

end Sodl
