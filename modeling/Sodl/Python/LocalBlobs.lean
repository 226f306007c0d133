import Sodl.Python.Federation

/-!
# Blobs in a store of their own files

A store of the SDK that is set up with no other directories and no servers
(`Sodl.Python.BlobStore.Alone`), asked for blobs under the ids that are computed from them. It looks
for a blob in two places: in the file the native module gives it, and in the flat one of old, which
is the only one without the native module. The places of different blobs are different, and no
temporary file is at any of them (`Sodl.Python.BlobStore.Place.eq_of_ownFile`); so when there is
nothing wrong in the places (`Sodl.Python.BlobStore.Sound`), puts and reads leave it so, a blob that
has got its file keeps it, and what the store answers is the blob or nothing.
-/

namespace Sodl

open Effect UnixPath

namespace Python

/-! ### Names -/

section Names

variable {P : Platform} (hhex : P.DigestsAreHex) {data : Bytes}
include hhex

/-- The digest in the id of a blob is read back from it. -/
theorem hexHash_computed :
    hexHash (computeBlobId P data .blake3) = (P.hexDigest .blake3 data).toList := by
  obtain ⟨hne, hdigits⟩ := hhex .blake3 data
  have hval : (computeBlobId P data .blake3).val.toList =
      "blake3:".toList ++ (P.hexDigest .blake3 data).toList := by
    simp [computeBlobId, HashAlg.name]
  have hchars : ∀ c ∈ (computeBlobId P data .blake3).val.toList,
      c ∈ "blake3:0123456789abcdef".toList := by
    have hname : ("blake3:".toList.all fun c => c ∈ "blake3:0123456789abcdef".toList) = true := by
      decide
    have hdigit : ("0123456789abcdef".toList.all fun c =>
        c ∈ "blake3:0123456789abcdef".toList) = true := by decide
    intro c hc
    rw [hval, List.mem_append] at hc
    rcases hc with hc | hc
    · exact of_decide_eq_true (List.all_eq_true.mp hname c hc)
    · exact of_decide_eq_true (List.all_eq_true.mp hdigit c (hdigits c hc))
  have hfree : ∀ p : Char → Bool, ("blake3:0123456789abcdef".toList.all fun c => !p c) = true →
      ∀ c ∈ (computeBlobId P data .blake3).val.toList, p c = false := by
    intro p hp c hc
    simpa using List.all_eq_true.mp hp c (hchars c hc)
  have hstrip := strip_of_forall (hfree isSpace (by decide))
  have hmap : ((computeBlobId P data .blake3).val.toList.map fun c => if c = '\\' then '/' else c) =
      (computeBlobId P data .blake3).val.toList := by
    refine (List.map_congr_left fun c hc => if_neg ?_).trans (List.map_id _)
    exact of_decide_eq_false (hfree (· = '\\') (by decide) c hc)
  have htake : (computeBlobId P data .blake3).val.toList.rtakeWhile (· ≠ '/') =
      (computeBlobId P data .blake3).val.toList := by
    refine List.rtakeWhile_eq_self_iff.mpr fun c hc => ?_
    exact decide_eq_true (of_decide_eq_false (hfree (· = '/') (by decide) c hc))
  have hsuffix : ".blob".toList.isSuffixOf (computeBlobId P data .blake3).val.toList = false := by
    refine Bool.eq_false_iff.mpr fun h => ?_
    have hmem := (List.isSuffixOf_iff_suffix.mp h).subset (show 'o' ∈ ".blob".toList by decide)
    exact absurd (hchars _ hmem) (by decide)
  have hcolon : ':' ∈ (computeBlobId P data .blake3).val.toList := by
    rw [hval]
    exact List.mem_append_left _ (by decide)
  rw [hexHash, canonicalBlobId, hstrip, hmap, htake, hsuffix]
  simp only [Bool.false_eq_true, if_false, if_pos hcolon]
  rw [hval]
  rfl

/-- The name of the flat file of a blob. -/
theorem components_flatName :
    components ((P.hexDigest .blake3 data).toList ++ ".blob".toList) =
      [(P.hexDigest .blake3 data).toList ++ ".blob".toList] := by
  obtain ⟨hne, hdigits⟩ := hhex .blake3 data
  have hslash : '/' ∉ (P.hexDigest .blake3 data).toList ++ ".blob".toList := by
    intro hmem
    rcases List.mem_append.mp hmem with hmem | hmem
    · exact absurd (hdigits _ hmem) (by decide)
    · exact absurd hmem (by decide)
  have hsplit : ((P.hexDigest .blake3 data).toList ++ ".blob".toList).splitOn '/' =
      [(P.hexDigest .blake3 data).toList ++ ".blob".toList] := by
    have hc := List.splitOn_intercalate '/' (List.forall_mem_singleton.mpr hslash)
      (List.cons_ne_nil _ _)
    rwa [List.intercalate_singleton] at hc
  have hcounts : counts ((P.hexDigest .blake3 data).toList ++ ".blob".toList) = true := by
    refine decide_eq_true ⟨by simp, fun h => ?_⟩
    have hlen := congrArg List.length h
    simp at hlen
  rw [components, hsplit, List.filter_cons_of_pos hcounts, List.filter_nil]

end Names

namespace BlobStore

/-! ### Places -/

variable (P : Platform) (store : BlobStore)

/-- A store that looks nowhere but in its own files. -/
structure Alone : Prop where
  sourceRoots : store.sourceRoots = []
  peerUrls : store.peerUrls = []
  edgeUrls : store.edgeUrls = []

/-- Where a blob is looked for: in its file, and in the flat one of old. -/
def Place (cwd : List Name) (x : Bytes) (loc : List Name) : Prop :=
  store.OwnFile cwd (computeBlobId P x .blake3) loc ∨
    loc = locate cwd (store.path (computeBlobId P x .blake3))

/-- **A sound store**: what is in the places of a blob is the blob, and the native module finds no
directory where it has its file. -/
structure Sound (d : Disk) : Prop where
  places : ∀ x loc b, store.Place P d.cwd x loc → d.fileAt loc = some b → b = x
  clear : store.native = true →
    ∀ x, ¬(PyFsBlobStore.inner store).DirAt (computeBlobId P x .blake3) d

/-- A blob is in its file. -/
def Keeps (x : Bytes) (d : Disk) : Prop :=
  ∃ loc, store.OwnFile d.cwd (computeBlobId P x .blake3) loc ∧ d.fileAt loc = some x

variable {P store} {x y : Bytes} {cwd loc : List Name} {d d' : Disk}

/-- The flat file is right below the root. -/
theorem locate_path (hhex : P.DigestsAreHex) :
    locate cwd (store.path (computeBlobId P x .blake3)) =
      locate cwd store.root ++ [(P.hexDigest .blake3 x).toList ++ ".blob".toList] := by
  have hne : (P.hexDigest .blake3 x).toList ++ ".blob".toList ≠ dotDot := by
    intro h
    have hlen := congrArg List.length h
    simp [dotDot] at hlen
  have hslash : isAbsolute ((P.hexDigest .blake3 x).toList ++ ".blob".toList) = false := by
    refine isAbsolute_append (fun h => (hhex .blake3 x).1 (String.toList_inj.mp h)) fun hmem => ?_
    exact absurd ((hhex .blake3 x).2 _ hmem) (by decide)
  rw [path, pathForRoot, hexHash_computed hhex, locate_join hslash, components_flatName hhex,
    List.foldl_cons, List.foldl_nil, enter, if_neg hne]

/-- The file of the native module is three names below. -/
theorem OwnFile.exists_trail (hhex : P.DigestsAreHex) (hnative : store.native = true)
    (h : store.OwnFile cwd (computeBlobId P x .blake3) loc) :
    ∃ p : IdParts, (computeBlobId P x .blake3).taken = some (some p) ∧ p.Plain ∧
      loc = locate cwd store.root ++ [p.alg, p.pre, p.rest] := by
  rw [OwnFile, if_pos hnative] at h
  obtain ⟨dir, path, hpath, rfl⟩ := h
  obtain ⟨p, htaken, rfl⟩ := exists_parts hpath
  obtain ⟨q, hq, hplain⟩ := plain_computed hhex htaken
  obtain rfl := Option.some.inj hq
  refine ⟨p, htaken, hplain, ?_⟩
  rw [Sodl.locate_path hplain.inside.relative, foldl_enter_of_descend hplain.descend_eq]
  rfl

theorem TmpFile.exists_trail (hhex : P.DigestsAreHex)
    (h : store.TmpFile cwd (computeBlobId P x .blake3) loc) :
    ∃ p : IdParts, p.Plain ∧
      loc = locate cwd store.root ++ [p.alg, p.pre, p.rest ++ ".tmp".toList] := by
  obtain ⟨-, dir, path, hpath, rfl⟩ := h
  obtain ⟨p, htaken, rfl⟩ := exists_parts hpath
  obtain ⟨q, hq, hplain⟩ := plain_computed hhex htaken
  obtain rfl := Option.some.inj hq
  have htrails := hplain.trails_eq
  rw [IdParts.trails] at htrails
  have htmp := (List.cons.inj (List.cons.inj htrails).2).1
  refine ⟨p, hplain, ?_⟩
  rw [locate_tmpPath hplain.inside.relative hplain.inside.components_ne_nil,
    foldl_enter_of_descend htmp]
  rfl

/-- **Different blobs have different files**, and none is where another one is looked for. -/
theorem Place.eq_of_ownFile (hcf : P.CollisionFree) (hhex : P.DigestsAreHex)
    (hx : store.Place P cwd x loc) (hy : store.OwnFile cwd (computeBlobId P y .blake3) loc) :
    y = x := by
  by_cases hnative : store.native = true
  · obtain ⟨p, hp, -, hloc⟩ := hy.exists_trail hhex hnative
    rcases hx with hx | hx
    · obtain ⟨q, hq, -, hloc'⟩ := hx.exists_trail hhex hnative
      have hsame := List.append_cancel_left (hloc.symm.trans hloc')
      simp only [List.cons.injEq, and_true] at hsame
      have hval : (computeBlobId P y .blake3).val.toList =
          (computeBlobId P x .blake3).val.toList := by
        rw [val_of_taken hp, val_of_taken hq, hsame.1, hsame.2.1, hsame.2.2]
      exact computeBlobId_injective hcf (BlobId.val_inj.mp (String.toList_inj.mp hval))
    · rw [locate_path hhex] at hx
      have hsame := List.append_cancel_left (hloc.symm.trans hx)
      exact absurd (congrArg List.length hsame) (by simp)
  · rw [OwnFile, if_neg hnative, locate_path hhex] at hy
    have hx' : loc = locate cwd (store.path (computeBlobId P x .blake3)) := by
      rcases hx with hx | hx
      · rwa [OwnFile, if_neg hnative] at hx
      · exact hx
    rw [locate_path hhex] at hx'
    have hsame := List.append_cancel_left (hy.symm.trans hx')
    have hdigest := List.append_cancel_right (List.cons.inj hsame).1
    exact hcf .blake3 (String.toList_inj.mp hdigest)

/-- No temporary file is where a blob is looked for. -/
theorem Place.not_tmpFile (hhex : P.DigestsAreHex) (hx : store.Place P cwd x loc) :
    ¬store.TmpFile cwd (computeBlobId P y .blake3) loc := by
  intro htmp
  have hnative := htmp.1
  obtain ⟨p, -, hloc⟩ := htmp.exists_trail hhex
  rcases hx with hx | hx
  · obtain ⟨q, -, hplain, hloc'⟩ := hx.exists_trail hhex hnative
    have hsame := List.append_cancel_left (hloc.symm.trans hloc')
    simp only [List.cons.injEq, and_true] at hsame
    exact hplain.rest.dot (hsame.2.2 ▸ List.mem_append_right _ (List.mem_cons_self ..))
  · rw [locate_path hhex] at hx
    have hsame := List.append_cancel_left (hloc.symm.trans hx)
    exact absurd (congrArg List.length hsame) (by simp)

/-- Where nothing is, nothing is wrong. -/
theorem Sound.empty (hhex : P.DigestsAreHex) (cwd : List Name) : store.Sound P ⟨cwd, ∅⟩ where
  places x loc b _ hfile := by
    rw [Disk.fileAt, Disk.nodeAt] at hfile
    split_ifs at hfile
    cases hfile
  clear hnative x := by
    rintro ⟨dir, path, hpath, hdir⟩
    have hown : store.OwnFile cwd (computeBlobId P x .blake3) (locate cwd path) := by
      rw [OwnFile, if_pos hnative]
      exact ⟨dir, path, hpath, rfl⟩
    obtain ⟨p, -, -, hloc⟩ := hown.exists_trail hhex hnative
    rw [Disk.nodeAt] at hdir
    split_ifs at hdir with hroot
    · rw [hloc] at hroot
      exact absurd hroot (by simp)
    · cases hdir

/-! ### Directories -/

/-- Directories are made only where they are asked for. -/
theorem dir_of_makeDirs {locs : List (List Name)}
    (h : (Disk.makeDirs locs d).2.nodeAt loc = some .dir) :
    d.nodeAt loc = some .dir ∨ loc ∈ locs := by
  induction locs generalizing d with
  | nil => exact Or.inl h
  | cons l locs ih =>
    rw [Disk.makeDirs] at h
    rcases hl : d.nodeAt l with _ | b | _
    · rw [hl] at h
      rcases ih h with h | h
      · by_cases heq : loc = l
        · exact Or.inr (heq ▸ List.mem_cons_self ..)
        · rw [Disk.nodeAt, Table.lookup_insert, if_neg heq] at h
          exact Or.inl h
      · exact Or.inr (List.mem_cons_of_mem _ h)
    · rw [hl] at h
      exact Or.inl h
    · rw [hl] at h
      exact (ih h).imp_right (List.mem_cons_of_mem _)

/-- A put of the native module makes directories above its file only. -/
theorem dir_of_put {inner : FsBlobStore} {id : BlobId} {dir path : Path} {data : Bytes}
    (hpath : inner.blobPath id = .ok (dir, path))
    (h : (inner.put id data d).2.nodeAt loc = some .dir) :
    d.nodeAt loc = some .dir ∨ loc ∈ (locate d.cwd dir).inits := by
  by_cases hthere : d.pathExists path = true
  · rw [FsBlobStore.put_of_pathExists hpath hthere] at h
    exact Or.inl h
  · rw [FsBlobStore.put, hpath] at h
    simp only [if_neg hthere, Disk.createDirAll] at h
    have hmade : (Disk.makeDirs (locate d.cwd dir).inits d).2.nodeAt loc = some .dir →
        d.nodeAt loc = some .dir ∨ loc ∈ (locate d.cwd dir).inits := dir_of_makeDirs
    rcases hm : Disk.makeDirs (locate d.cwd dir).inits d with ⟨r, d₁⟩
    rw [hm] at h hmade
    rcases r with e | u
    · exact hmade h
    · simp only at h
      rcases hw : d₁.write (FsBlobStore.tmpPath path) data with e | d₂
      · rw [hw] at h
        exact hmade h
      · obtain ⟨-, -, hnode₂⟩ := Disk.nodeAt_write hw
        have hdir₂ : d₂.nodeAt loc = some .dir → d₁.nodeAt loc = some .dir := by
          intro h
          rw [hnode₂] at h
          split_ifs at h
          · cases h
          · exact h
        rw [hw] at h
        simp only at h
        rcases hr : d₂.rename (FsBlobStore.tmpPath path) path with e | d₃
        · rw [hr] at h
          exact hmade (hdir₂ h)
        · obtain ⟨b, -, -, hnode₃⟩ := Disk.nodeAt_rename hr
          rw [hr] at h
          simp only at h
          rw [hnode₃] at h
          split_ifs at h
          · cases h
          · exact hmade (hdir₂ h)

/-- A put makes no directory where the native module has a file. -/
theorem not_dirAt_put (hhex : P.DigestsAreHex) (hnative : store.native = true) {data : Bytes}
    (h : ¬(PyFsBlobStore.inner store).DirAt (computeBlobId P x .blake3) d) :
    ¬(PyFsBlobStore.inner store).DirAt (computeBlobId P x .blake3)
      (PyFsBlobStore.put store (computeBlobId P y .blake3) data d).2 := by
  rcases hpath : (PyFsBlobStore.inner store).blobPath (computeBlobId P y .blake3)
    with ⟨dir', path'⟩ | e | _
  · rintro ⟨dir, path, hx, hdir⟩
    obtain ⟨hcwd, -⟩ := FsBlobStore.put_spec hpath data d
    rw [PyFsBlobStore.put, hcwd] at hdir
    refine h ⟨dir, path, hx, (dir_of_put hpath hdir).resolve_right fun hmem => ?_⟩
    -- three names below the root is not above three names below the root
    have hown : store.OwnFile d.cwd (computeBlobId P x .blake3) (locate d.cwd path) := by
      rw [OwnFile, if_pos hnative]
      exact ⟨dir, path, hx, rfl⟩
    obtain ⟨p, -, -, hloc⟩ := hown.exists_trail hhex hnative
    obtain ⟨q, htaken, hq⟩ := exists_parts hpath
    obtain ⟨q', hq', hplain⟩ := plain_computed hhex htaken
    obtain rfl := Option.some.inj hq'
    have hdir' : dir' = q.dir store.root := by
      have hparts : (PyFsBlobStore.inner store).blobPath (computeBlobId P y .blake3) =
          .ok (q.dir store.root, q.path store.root) := blobPath_of_taken htaken
      exact (Prod.mk.inj (Outcome.ok.inj (hpath.symm.trans hparts))).1
    have hlocated : (locate d.cwd dir').length ≤ (locate d.cwd store.root).length + 2 := by
      rw [hdir', IdParts.dir, locate_join hplain.pre.isAbsolute_eq,
        locate_join hplain.alg.isAbsolute_eq, hplain.alg.components_eq, hplain.pre.components_eq]
      simp [enter, hplain.alg.ne_dotDot, hplain.pre.ne_dotDot]
    have hle := (List.mem_inits _ _).mp hmem |>.length_le
    rw [hloc, List.length_append] at hle
    simp only [List.length_cons, List.length_nil] at hle
    omega
  · rw [PyFsBlobStore.put, FsBlobStore.put, hpath]
    exact h
  · rw [PyFsBlobStore.put, FsBlobStore.put, hpath]
    exact h

/-! ### What puts and reads leave -/

section Sound

variable (hcf : P.CollisionFree) (hhex : P.DigestsAreHex)
include hcf hhex

/-- What is in the places stays right where only the blob itself is written. -/
theorem Sound.places_of_writes (h : store.Sound P d)
    (hwrites : store.Writes (computeBlobId P y .blake3) (· = y) d d') {b : Bytes}
    (hplace : store.Place P d'.cwd x loc) (hfile : d'.fileAt loc = some b) : b = x := by
  rw [hwrites.cwd] at hplace
  rcases hwrites.files loc with heq | ⟨hown, b', hb', rfl⟩ | htmp
  · exact h.places x loc b hplace (heq.symm.trans hfile)
  · rw [hplace.eq_of_ownFile hcf hhex hown] at hb'
    exact Option.some.inj (hfile.symm.trans hb')
  · exact absurd htmp (hplace.not_tmpFile hhex)

/-- A blob that is in its file stays there. -/
theorem Keeps.writes (h : store.Keeps P x d)
    (hwrites : store.Writes (computeBlobId P y .blake3) (· = y) d d') : store.Keeps P x d' := by
  obtain ⟨loc, hown, hfile⟩ := h
  refine ⟨loc, hwrites.cwd ▸ hown, ?_⟩
  have hplace : store.Place P d.cwd x loc := Or.inl hown
  rcases hwrites.files loc with heq | ⟨hown', b, hb, rfl⟩ | htmp
  · exact heq.trans hfile
  · rw [hb, hplace.eq_of_ownFile hcf hhex hown']
  · exact absurd htmp (hplace.not_tmpFile hhex)

end Sound

/-! ### What a sound store answers -/

/-- The native module finds a path for the id, or rejects it. -/
theorem blobPath_ne_panic (hhex : P.DigestsAreHex) (inner : FsBlobStore) (x : Bytes) :
    inner.blobPath (computeBlobId P x .blake3) ≠ .panic := by
  rw [blobPath_eq]
  rcases htaken : (computeBlobId P x .blake3).taken with _ | o
  · simp
  · obtain ⟨p, rfl, -⟩ := plain_computed hhex htaken
    simp

theorem inner_has_ne_panic (hhex : P.DigestsAreHex) (inner : FsBlobStore) (x : Bytes) (d : Disk) :
    inner.has (computeBlobId P x .blake3) d ≠ .panic := by
  have hpath := blobPath_ne_panic hhex inner x
  rw [FsBlobStore.has]
  rcases hr : inner.blobPath (computeBlobId P x .blake3) with p | e | _
  · simp
  · simp
  · exact absurd hr hpath

theorem has_ne_panic (halone : store.Alone) (hhex : P.DigestsAreHex) (net : Net) (x : Bytes)
    (d : Disk) : store.has net (computeBlobId P x .blake3) d ≠ .panic := by
  have hflat : store.flatHas net (computeBlobId P x .blake3) d ≠ .panic := by
    rw [flatHas, sourcePaths, halone.sourceRoots, halone.peerUrls, halone.edgeUrls]
    simp only [fetchRemoteBlob, firstPath, List.map_nil, List.find?_nil]
    split <;> simp [Pure.pure, Outcome.ok_bind]
  have hnative : PyFsBlobStore.has store net (computeBlobId P x .blake3) d ≠ .panic := by
    have hinner := inner_has_ne_panic hhex (PyFsBlobStore.inner store) x d
    rw [PyFsBlobStore.has, PyFsBlobStore.sources, halone.sourceRoots, halone.peerUrls,
      halone.edgeUrls]
    rcases hr : (PyFsBlobStore.inner store).has (computeBlobId P x .blake3) d with b | e | _
    · cases b <;> simp [Pure.pure, PyFsBlobStore.anyHas, Outcome.ok_bind]
    · simp
    · exact absurd hr hinner
  rw [has]
  split
  · split
    · simp
    · rename_i hpanic
      exact absurd hpanic hnative
    · exact hflat
  · exact hflat

/-- What is read at a place is the blob. -/
theorem Sound.readBytes (h : store.Sound P d) {p : Path}
    (hplace : store.Place P d.cwd x (locate d.cwd p)) :
    readBytes d p ≠ .panic ∧ ∀ b, readBytes d p = .ok b → b = x := by
  rw [BlobStore.readBytes]
  rcases hread : d.read p with e | b
  · simp
  · refine ⟨by simp, ?_⟩
    rintro _ ⟨⟩
    exact h.places x _ b hplace (Disk.read_eq_ok.mp hread)

/-- What the native module reads is the blob, and it leaves the files alone. -/
theorem Sound.nativeGet (h : store.Sound P d) (halone : store.Alone) (hhex : P.DigestsAreHex)
    (hnative : store.native = true) (net : Net) (x : Bytes) :
    ∃ o, PyFsBlobStore.get P store net (computeBlobId P x .blake3) d = (o, d) ∧ o ≠ .panic ∧
      ∀ b, o = .ok b → b = x := by
  have hinner := inner_has_ne_panic hhex (PyFsBlobStore.inner store) x d
  rw [PyFsBlobStore.get, PyFsBlobStore.sources, halone.sourceRoots]
  rcases hr : (PyFsBlobStore.inner store).has (computeBlobId P x .blake3) d with (_ | _) | e | _
  · refine ⟨.err .notFound, ?_, by simp, by simp⟩
    simp only [PyFsBlobStore.anyHas, List.map_nil, Pure.pure, FetchPipeline.getFor,
      FetchPipeline.authorize, PyFsBlobStore.sourceRefs, halone.peerUrls, halone.edgeUrls,
      PyFsBlobStore.sources, halone.sourceRoots, if_true, List.append_nil]
    rw [Prog.ret_ok_bind, Prog.run_bind, Prog.run_perform]
    simp only [PyFsBlobStore.handle, hr, Bool.false_eq_true, if_false]
    rfl
  · refine ⟨_, rfl, ?_, fun b hb => ?_⟩
    · obtain ⟨⟨dir, path⟩, hpath, -⟩ := Outcome.bind_eq_ok.mp hr
      rw [FsBlobStore.get, hpath, Outcome.ok_bind]
      dsimp only
      split <;> simp
    · obtain ⟨⟨dir, path⟩, hpath, -⟩ := Outcome.bind_eq_ok.mp hr
      have hplace : store.Place P d.cwd x (locate d.cwd path) := by
        refine Or.inl ?_
        rw [OwnFile, if_pos hnative]
        exact ⟨dir, path, hpath, rfl⟩
      exact h.places x _ b hplace ((FsBlobStore.get_eq_ok hpath).mp hb)
  · exact ⟨.err e, rfl, by simp, by simp⟩
  · exact absurd hr hinner

theorem nativePut_ne_panic (hhex : P.DigestsAreHex) (data : Bytes) :
    (PyFsBlobStore.put store (computeBlobId P x .blake3) data d).1 ≠ .panic := by
  have hpath := blobPath_ne_panic hhex (PyFsBlobStore.inner store) x
  rw [PyFsBlobStore.put, FsBlobStore.put]
  rcases hr : (PyFsBlobStore.inner store).blobPath (computeBlobId P x .blake3) with p | e | _
  · dsimp only
    repeat' split
    all_goals simp
  · simp
  · exact absurd hr hpath

theorem put_ne_panic (hhex : P.DigestsAreHex) (data : Bytes) :
    (store.put (computeBlobId P x .blake3) data d).1 ≠ .panic := by
  rw [put]
  split
  · exact nativePut_ne_panic hhex data
  · rw [writeBytes]
    split <;> simp

/-- What was found is kept, or cannot be, which is passed over. -/
theorem tryPut_fst (hhex : P.DigestsAreHex) (data : Bytes) :
    (store.tryPut (computeBlobId P x .blake3) data d).1 = .ok () := by
  have hput : (PyFsBlobStore.put store (computeBlobId P x .blake3) data d).1 ≠ .panic :=
    nativePut_ne_panic hhex data
  rw [tryPut]
  split
  · rename_i hpanic
    exact absurd (congrArg Prod.fst hpanic) hput
  · rfl

/-- **What a sound store reads is the blob.** -/
theorem Sound.get (h : store.Sound P d) (halone : store.Alone) (hhex : P.DigestsAreHex) (net : Net)
    (x : Bytes) :
    (store.get P net (computeBlobId P x .blake3) d).1 ≠ .panic ∧
      ∀ b, (store.get P net (computeBlobId P x .blake3) d).1 = .ok b → b = x := by
  have hremote : store.remote net (computeBlobId P x .blake3) = .ok none := by
    rw [remote, halone.peerUrls, halone.edgeUrls]
    rfl
  have hflat := h.readBytes (p := store.path (computeBlobId P x .blake3)) (x := x) (Or.inr rfl)
  rw [BlobStore.get]
  by_cases hnative : store.native = true
  · obtain ⟨o, hget, hpanic, hok⟩ := h.nativeGet halone hhex hnative net x
    rw [if_pos hnative, hget]
    rcases o with b | e | _
    · exact ⟨by simp, fun b' hb => hok b' hb⟩
    · -- the flat file of old, if there is one
      dsimp only
      have hlegacy : store.legacy net (computeBlobId P x .blake3) d ≠ .panic ∧
          ∀ b, store.legacy net (computeBlobId P x .blake3) d = .ok b → b = x := by
        -- by its definition: its equation lemma takes long to make
        delta legacy
        rw [sourcePaths, halone.sourceRoots, List.map_nil, firstPath, List.find?_singleton]
        split
        · rename_i p hp
          split at hp
          · obtain rfl := Option.some.inj hp
            exact hflat
          · cases hp
        · rw [hremote]
          simp
      rcases hl : store.legacy net (computeBlobId P x .blake3) d with b | e | _
      · rw [keep, tryPut_fst hhex]
        refine ⟨by simp, fun b' hb => hlegacy.2 b' ?_⟩
        rw [hl]
        exact hb
      · simp [keep]
      · exact absurd hl hlegacy.1
    · exact absurd rfl hpanic
  · rw [if_neg hnative]
    by_cases hthere : d.pathExists (store.path (computeBlobId P x .blake3)) = true
    · rw [if_pos hthere]
      dsimp only
      exact hflat
    · have helsewhere : store.elsewhere net (computeBlobId P x .blake3) d = .err .notFound := by
        rw [elsewhere, hremote, sourcePaths, halone.sourceRoots]
        rfl
      rw [if_neg hthere, helsewhere]
      simp [keep]

/-- A store stays sound over a put of a blob. -/
theorem Sound.after_put (h : store.Sound P d) (hcf : P.CollisionFree) (hhex : P.DigestsAreHex)
    (x : Bytes) : store.Sound P (store.put (computeBlobId P x .blake3) x d).2 where
  places y loc b hplace hfile := h.places_of_writes hcf hhex
    ((store.put_spec _ x d).mono fun _ hb => hb.2) hplace hfile
  clear hnative y := by
    rw [BlobStore.put, if_pos hnative]
    exact not_dirAt_put hhex hnative (h.clear hnative y)

/-- A store stays sound over a read of a blob. -/
theorem Sound.after_get (h : store.Sound P d) (hcf : P.CollisionFree) (hhex : P.DigestsAreHex)
    (halone : store.Alone) (net : Net) (x : Bytes) :
    store.Sound P (store.get P net (computeBlobId P x .blake3) d).2 where
  places y loc b hplace hfile := h.places_of_writes hcf hhex
    ((get_spec P store net _ d).mono (h.get halone hhex net x).2) hplace hfile
  clear hnative y := by
    obtain ⟨o, hget, hpanic, -⟩ := h.nativeGet halone hhex hnative net x
    rw [BlobStore.get, if_pos hnative, hget]
    rcases o with b | e | _
    · exact h.clear hnative y
    · dsimp only
      rcases store.legacy net (computeBlobId P x .blake3) d with b | e | _
      · rw [keep, tryPut]
        have hput : ¬(PyFsBlobStore.inner store).DirAt (computeBlobId P y .blake3)
            (PyFsBlobStore.put store (computeBlobId P x .blake3) b d).2 :=
          not_dirAt_put hhex hnative (h.clear hnative y)
        rcases hr : PyFsBlobStore.put store (computeBlobId P x .blake3) b d with ⟨u | e | _, d₁⟩
        · rw [hr] at hput
          exact hput
        · rw [hr] at hput
          exact hput
        · rw [hr] at hput
          exact hput
      · exact h.clear hnative y
      · exact h.clear hnative y
    · exact absurd rfl hpanic

/-- **Nothing goes wrong**: from one state of the files to another, the store stays sound, and what
is in its file stays there. -/
structure Upheld (P : Platform) (store : BlobStore) (d d' : Disk) : Prop where
  sound : store.Sound P d'
  keeps : ∀ y, store.Keeps P y d → store.Keeps P y d'

theorem Upheld.refl (h : store.Sound P d) : Upheld P store d d := ⟨h, fun _ hkeeps => hkeeps⟩

theorem Upheld.trans {d'' : Disk} (h : Upheld P store d d') (h' : Upheld P store d' d'') :
    Upheld P store d d'' :=
  ⟨h'.sound, fun y hkeeps => h'.keeps y (h.keeps y hkeeps)⟩

theorem Sound.upheld_put (h : store.Sound P d) (hcf : P.CollisionFree) (hhex : P.DigestsAreHex)
    (x : Bytes) : Upheld P store d (store.put (computeBlobId P x .blake3) x d).2 :=
  ⟨h.after_put hcf hhex x, fun _ hkeeps =>
    hkeeps.writes hcf hhex ((store.put_spec _ x d).mono fun _ hb => hb.2)⟩

theorem Sound.upheld_get (h : store.Sound P d) (hcf : P.CollisionFree) (hhex : P.DigestsAreHex)
    (halone : store.Alone) (net : Net) (x : Bytes) :
    Upheld P store d (store.get P net (computeBlobId P x .blake3) d).2 :=
  ⟨h.after_get hcf hhex halone net x, fun _ hkeeps =>
    hkeeps.writes hcf hhex ((get_spec P store net _ d).mono (h.get halone hhex net x).2)⟩

/-- A put of a blob that returns has put it into its file. -/
theorem Sound.keeps_of_put (h : store.Sound P d)
    (hput : (store.put (computeBlobId P x .blake3) x d).1 = .ok ()) :
    store.Keeps P x (store.put (computeBlobId P x .blake3) x d).2 := by
  by_cases hnative : store.native = true
  · rw [put, if_pos hnative] at hput ⊢
    obtain ⟨dir, path, hpath⟩ := FsBlobStore.blobPath_of_put hput
    obtain ⟨hcwd, -, hnew, -⟩ := FsBlobStore.put_spec hpath x d
    have hown : store.OwnFile d.cwd (computeBlobId P x .blake3) (locate d.cwd path) := by
      rw [OwnFile, if_pos hnative]
      exact ⟨dir, path, hpath, rfl⟩
    refine ⟨locate d.cwd path, ?_, ?_⟩
    · rw [PyFsBlobStore.put, hcwd]
      exact hown
    · by_cases hthere : d.pathExists path = true
      · rw [PyFsBlobStore.put, FsBlobStore.put_of_pathExists hpath hthere]
        rw [Disk.pathExists] at hthere
        rcases hnode : d.nodeAt (locate d.cwd path) with _ | b | _
        · rw [hnode] at hthere
          cases hthere
        · have hfile : d.fileAt (locate d.cwd path) = some b := by rw [Disk.fileAt, hnode]
          rw [hfile, h.places x _ b (Or.inl hown) hfile]
        · exact absurd ((FsBlobStore.dirAt_iff hpath).mpr hnode) (h.clear hnative x)
      · exact hnew hput (Bool.eq_false_iff.mpr hthere)
  · rw [put, if_neg hnative, writeBytes] at hput ⊢
    rcases hw : d.write (store.path (computeBlobId P x .blake3)) x with e | d₁
    · rw [hw] at hput
      cases hput
    · obtain ⟨hcwd, -, hnode⟩ := Disk.nodeAt_write hw
      refine ⟨locate d.cwd (store.path (computeBlobId P x .blake3)), ?_, ?_⟩
      · dsimp only
        rw [OwnFile, if_neg hnative, hcwd]
      · dsimp only
        rw [Disk.fileAt, hnode, if_pos rfl]

end BlobStore

namespace FederationManager

variable {P : Platform} {m : FederationManager} {env : Surroundings} {x : Bytes} {d : Disk}

variable (env) in
/-- **The local part of a read of a sound store** comes back with the blob or with nothing, and with
the blob if it is in its file. -/
theorem tryLocal_of_sound (h : m.store.Sound P d) (halone : m.store.Alone)
    (hhex : P.DigestsAreHex) :
    ((m.tryLocal P env (computeBlobId P x .blake3) d).1 = .ok none ∨
        (m.tryLocal P env (computeBlobId P x .blake3) d).1 = .ok (some x)) ∧
      (m.store.Keeps P x d →
        (m.tryLocal P env (computeBlobId P x .blake3) d).1 = .ok (some x)) := by
  have heither : (m.tryLocal P env (computeBlobId P x .blake3) d).1 = .ok none ∨
      (m.tryLocal P env (computeBlobId P x .blake3) d).1 = .ok (some x) := by
    have hhas := BlobStore.has_ne_panic halone hhex env.hasNet x d
    obtain ⟨hpanic, hok⟩ := h.get halone hhex env.getNet x
    rw [tryLocal]
    rcases hr : m.store.has env.hasNet (computeBlobId P x .blake3) d with (_ | _) | e | _
    · exact Or.inl rfl
    · dsimp only
      rcases hg : m.store.get P env.getNet (computeBlobId P x .blake3) d with ⟨b | e | _, d'⟩
      · rw [hg] at hok
        exact Or.inr (congrArg (Outcome.ok ∘ some) (hok b rfl))
      · exact Or.inl rfl
      · rw [hg] at hpanic
        exact absurd rfl hpanic
    · exact Or.inl rfl
    · exact absurd hr hhas
  refine ⟨heither, ?_⟩
  rintro ⟨loc, hown, hfile⟩
  exact heither.resolve_left (tryLocal_ne_none hown hfile)

variable (env) in
/-- Nothing goes wrong in the local part of a read. -/
theorem upheld_tryLocal (h : m.store.Sound P d) (hcf : P.CollisionFree) (hhex : P.DigestsAreHex)
    (halone : m.store.Alone) :
    BlobStore.Upheld P m.store d (m.tryLocal P env (computeBlobId P x .blake3) d).2 := by
  have hget := h.upheld_get hcf hhex halone env.getNet x
  rw [tryLocal]
  rcases m.store.has env.hasNet (computeBlobId P x .blake3) d with (_ | _) | e | _
  · exact BlobStore.Upheld.refl h
  · dsimp only
    rcases hg : m.store.get P env.getNet (computeBlobId P x .blake3) d with ⟨b | e | _, d'⟩
    · rw [hg] at hget
      exact hget
    · rw [hg] at hget
      exact hget
    · rw [hg] at hget
      exact hget
  · exact BlobStore.Upheld.refl h
  · exact BlobStore.Upheld.refl h

end FederationManager

end Python

end Sodl
