import Sodl.Effect.Runs
import Sodl.Python.Artifacts

/-!
# Artifacts outlive one another

What the calls of one `Sodl.Python.ArtifactStore` leave of the artifacts they are not about. An
artifact lives as long as its blob does, and a blob is let go when no manifest that the `glob` finds
refers to it. So the artifacts that are at risk are those in other places: of an origin whose file
is not directly in the directory, or in memory only (`Sodl.Python.ArtifactStore.DeletesClean`).
And two origins are kept apart only as far as their files are (`Sodl.Python.ArtifactStore.Apart`).

In a run whose steps all see to that, every artifact that is listed loads
(`Sodl.artifacts_survive`). The invariant is `Sodl.Python.ArtifactStore.Sound`: of the manifests in
memory and on file, what they record was stored, and its blob is there.
-/

namespace Sodl

open Effect UnixPath

namespace Python

variable {A J : Type}

/-! ### Calls -/

/-- A call of the store; or the store is opened anew on the same directories. -/
inductive ArtifactOp (A J : Type)
  | store (originId : String) (data : Bytes) (label : ArtifactLabel)
  | storeNumpy (originId : String) (array : A) (label : ArtifactLabel)
  | storeJson (originId : String) (obj : J) (label : ArtifactLabel)
  | listArtifacts (originId : String) (artifactType : Option String)
  | deleteArtifact (originId artifactId : String) (deleteBlobIfUnreferenced : Bool)
  | enforceRetention (originId : String) (policy : RetentionPolicy) (now : ℤ)
    (deleteUnreferencedBlobs : Bool)
  | reopen

namespace ArtifactOp

/-- The origin a call is about. -/
def originId? : ArtifactOp A J → Option String
  | store o _ _ | storeNumpy o _ _ | storeJson o _ _ | listArtifacts o _ | deleteArtifact o _ _
  | enforceRetention o _ _ _ => some o
  | reopen => none

/-- What a call stores. -/
def input? (F : ArtifactFormats A J) : ArtifactOp A J → Option ArtifactInput
  | store o data label => some ⟨o, data, "bytes", none, none, label⟩
  | storeNumpy o array label => (F.serializeNumpy array).toOption.map fun data =>
    ⟨o, data, "numpy", some (F.shape array), some (F.dtype array), label⟩
  | storeJson o obj label => (F.serializeJson obj).toOption.map fun data =>
    ⟨o, data, "json", none, none, label⟩
  | _ => none

end ArtifactOp

/-- A store with nothing in memory, over what is on disk. -/
def ArtifactState.reopened (s : ArtifactState) : ArtifactState := { s with manifests := ∅ }

/-- A store that was opened for the first time, where there are some directories. -/
def ArtifactState.fresh (dirs : List (List Name)) : ArtifactState := ⟨⟨dirs, ∅⟩, ∅, ∅⟩

namespace ArtifactStore

variable (P : ArtifactPlatform) (F : ArtifactFormats A J) (store : ArtifactStore)

/-- The state after a call. -/
def next (s : ArtifactState) : ArtifactOp A J → ArtifactState
  | .store o data label => (store.store P o data label s).2
  | .storeNumpy o array label => (store.storeNumpy P F o array label s).2
  | .storeJson o obj label => (store.storeJson P F o obj label s).2
  | .listArtifacts o artifactType => (store.listArtifacts o artifactType s).2
  | .deleteArtifact o id deleteBlob => (store.deleteArtifact o id deleteBlob s).2
  | .enforceRetention o policy now deleteBlobs =>
    (store.enforceRetention o policy now deleteBlobs s).2
  | .reopen => s.reopened

/-- The artifacts a retention deletes, each with the state it is deleted from. -/
def removals (o : String) : List ArtifactMetadata → ArtifactState → List (String × ArtifactState)
  | [], _ => []
  | a :: rest, s => (a.artifactId, s) ::
    match store.deleteArtifact o a.artifactId true s with
    | (.error _, _) => []
    | (.ok _, s) => removals o rest s

/-- The artifacts a call deletes with their blobs: the origin, the identifier, and the state each
is deleted from. -/
def deletions (s : ArtifactState) : ArtifactOp A J → List (String × String × ArtifactState)
  | .deleteArtifact o id true => [(o, id, s)]
  | .enforceRetention o policy now true =>
    match store.listArtifacts o none s with
    | (.error _, _) => []
    | (.ok artifacts, s) => (store.removals o (expired policy now artifacts) s).map fun d => (o, d)
  | _ => []

/-! ### What is asked of the calls, and what they see to -/

/-- An artifact is recorded for an origin in memory, or on file. -/
def Cached (s : ArtifactState) (o : String) (a : ArtifactMetadata) : Prop :=
  ∃ manifest, s.manifests.lookup o = some manifest ∧ a ∈ manifest.artifacts.map Prod.snd

def Filed (s : ArtifactState) (o : String) (a : ArtifactMetadata) : Prop :=
  ∃ manifest, s.tree.files.lookup (store.place o) = some manifest ∧
    a ∈ manifest.artifacts.map Prod.snd

/-- The `glob` finds the file of an origin. -/
def InView (o : String) : Prop :=
  ∃ name, ".json".toList <:+ name ∧
    store.place o = locate store.cwd store.manifestDir ++ [name]

variable (U : Set String)

/-- The file of an origin is not at or below the place of the file of another. -/
def Apart (o : String) : Prop := ∀ o' ∈ U, o' ≠ o → ¬store.place o' <+: store.place o

/-- Whoever else refers to the blob of an artifact that is deleted is seen to do so. -/
def DeletesClean (o id : String) (s : ArtifactState) : Prop :=
  ∀ manifest record, (store.getManifest o s).1 = .ok manifest →
    manifest.artifacts.get? id = some record →
      (∀ row ∈ manifest.artifacts, row.1 ≠ id → row.2.blobId = record.blobId → store.InView o) ∧
      ∀ o' ∈ U, o' ≠ o → ∀ a, Cached s o' a ∨ store.Filed s o' a → a.blobId = record.blobId →
        store.InView o' ∧ store.Filed s o' a

/-- A call is about an origin of `U`; a new artifact goes to a file that is apart, and the
deletions are clean. -/
structure Clean (s : ArtifactState) (op : ArtifactOp A J) : Prop where
  origin : ∀ o, op.originId? = some o → o ∈ U
  apart : ∀ input, op.input? F = some input → store.Apart U input.originId
  deletions : ∀ d ∈ store.deletions s op, store.DeletesClean U d.1 d.2.1 d.2.2

/-- What is made of data by a call is an artifact. -/
def Stores (op : ArtifactOp A J) (o : String) (a : ArtifactMetadata) (data : Bytes) : Prop :=
  ∃ input compressed, op.input? F = some input ∧ input.originId = o ∧ input.data = data ∧
    P.encodeAll data store.zstdLevel = .ok compressed ∧ a = metadata P input compressed

/-- The artifacts that are listed for an origin, by the store or by one that is opened anew, were
stored, and load as what they were stored. -/
def Intact (H : List (ArtifactOp A J)) (s : ArtifactState) (o : String) : Prop :=
  ∀ artifactType artifacts, (store.listArtifacts o artifactType s).1 = .ok artifacts ∨
    (store.listArtifacts o artifactType s.reopened).1 = .ok artifacts →
      ∀ a ∈ artifacts, (∃ op ∈ H, ∃ data, store.Stores P F op o a data) ∧
        ∀ op ∈ H, ∀ o' data, store.Stores P F op o' a data →
          loadRaw P a.blobId s = .ok data

/-- The blobs that are gone from a state to a later one are not referred to. -/
def LetsGoUnreferred (s s' : ArtifactState) : Prop :=
  ∀ b, s'.blobs.lookup b = none → (s.blobs.lookup b).isSome →
    ∀ o ∈ U, ∀ a, Cached s' o a ∨ store.Filed s' o a → a.blobId ≠ b

/-- What is listed for an origin is the same. -/
def ListsSame (s s' : ArtifactState) (o : String) : Prop :=
  ∀ artifactType,
    (store.listArtifacts o artifactType s').1 = (store.listArtifacts o artifactType s).1 ∧
    (store.listArtifacts o artifactType s'.reopened).1 =
      (store.listArtifacts o artifactType s.reopened).1

end ArtifactStore

/-! ### Files -/

namespace ManifestTree

variable {t t' : ManifestTree} {loc loc' : List Name} {manifest : ArtifactManifest}

theorem isDir_iff : t.isDir loc = true ↔
    (∃ dir ∈ t.dirs, loc <+: dir) ∨ ∃ file ∈ t.files, loc <+: file ∧ loc ≠ file := by
  simp [isDir, AList.mem_keys]

/-- What a file is saved over, and what is read afterwards. -/
theorem save_spec (h : t.save loc manifest = .ok t') :
    t'.dirs = t.dirs ∧ t'.files = t.files.insert loc manifest ∧
      ∀ loc', ¬loc' <+: loc → t'.load loc' = t.load loc' := by
  rw [save] at h
  split at h
  · exact absurd h nofun
  · split at h
    · exact absurd h nofun
    · obtain rfl := Except.ok.inj h
      refine ⟨rfl, rfl, fun loc' hloc => ?_⟩
      have hne : loc' ≠ loc := by
        rintro rfl
        exact hloc List.prefix_rfl
      have hdir : ({ t with files := t.files.insert loc manifest } : ManifestTree).isDir loc' =
          t.isDir loc' := by
        rw [Bool.eq_iff_iff, isDir_iff, isDir_iff]
        refine or_congr_right ⟨?_, ?_⟩
        · rintro ⟨file, hfile, hpre, hfne⟩
          rcases Table.mem_insert.mp hfile with rfl | hfile
          · exact absurd hpre hloc
          · exact ⟨file, hfile, hpre, hfne⟩
        · rintro ⟨file, hfile, hpre, hfne⟩
          exact ⟨file, Table.mem_insert.mpr (Or.inr hfile), hpre, hfne⟩
      rw [load, load, hdir, Table.lookup_insert_ne hne]

/-- A file that the `glob` finds is among the manifests it loads. -/
theorem mem_of_loadAll {locs : List (List Name)} {manifests : List ArtifactManifest}
    (h : t.loadAll locs = .ok manifests) (hloc : loc ∈ locs)
    (hfile : t.files.lookup loc = some manifest) : manifest ∈ manifests := by
  induction locs generalizing manifests with
  | nil => exact absurd hloc List.not_mem_nil
  | cons first locs ih =>
    rw [loadAll] at h
    rcases hfirst : t.load first with e | _ | m
    · rw [hfirst] at h
      exact absurd h nofun
    · rw [hfirst] at h
      exact absurd h nofun
    · rcases hrest : t.loadAll locs with e | ms
      · rw [hfirst, hrest] at h
        exact absurd h nofun
      · rw [hfirst, hrest] at h
        obtain rfl : m :: ms = manifests := Except.ok.inj h
        rcases List.mem_cons.mp hloc with rfl | hloc
        · rw [load] at hfirst
          split at hfirst
          · exact absurd hfirst nofun
          · rw [hfile] at hfirst
            rw [Option.some.inj (Except.ok.inj hfirst)]
            exact List.mem_cons_self ..
        · exact List.mem_cons_of_mem _ (ih hrest hloc)

theorem mem_globJson {dir : List Name} {name : Name} (hname : ".json".toList <:+ name)
    (hfile : t.files.lookup (dir ++ [name]) = some manifest) :
    dir ++ [name] ∈ t.globJson dir := by
  refine List.mem_map_of_mem (f := fun name => dir ++ [name]) (List.mem_filter.mpr ⟨?_, ?_⟩)
  · refine List.mem_dedup.mpr (List.mem_filterMap.mpr ⟨dir ++ [name], ?_, ?_⟩)
    · exact List.mem_append_right _
        (AList.mem_keys.mpr (Table.mem_iff_exists_lookup.mpr ⟨manifest, hfile⟩))
    · simp
  · exact List.isSuffixOf_iff_suffix.mpr hname

end ManifestTree

namespace ArtifactStore

variable {P : ArtifactPlatform} {F : ArtifactFormats A J} {store : ArtifactStore} {U : Set String}
  {s s' s'' : ArtifactState} {o id : String} {manifest : ArtifactManifest}
  {H : List (ArtifactOp A J)}

/-! ### Steps are confined to an origin -/

/-- Nothing that another origin sees has changed. -/
structure Confined (store : ArtifactStore) (U : Set String) (o : String) (s s' : ArtifactState) :
    Prop where
  manifests : ∀ o', o' ≠ o → s'.manifests.lookup o' = s.manifests.lookup o'
  loads : ∀ o' ∈ U, o' ≠ o →
    s'.tree.load (store.place o') = s.tree.load (store.place o')

theorem Confined.refl (s : ArtifactState) : Confined store U o s s :=
  ⟨fun _ _ => rfl, fun _ _ _ => rfl⟩

theorem Confined.trans (h : Confined store U o s s') (h' : Confined store U o s' s'') :
    Confined store U o s s'' :=
  ⟨fun o' ho => (h'.manifests o' ho).trans (h.manifests o' ho),
    fun o' hU ho => (h'.loads o' hU ho).trans (h.loads o' hU ho)⟩

theorem fst_getManifest (o : String) (s : ArtifactState) : (store.getManifest o s).1 =
    match s.manifests.lookup o with
    | some manifest => .ok manifest
    | none => (s.tree.load (store.place o)).map fun found => found.getD ⟨o, []⟩ := by
  rw [getManifest]
  rcases s.manifests.lookup o with _ | m
  · rcases s.tree.load (store.place o) with e | found
    · rfl
    · rfl
  · rfl

theorem fst_listArtifacts (o : String) (artifactType : Option String) (s : ArtifactState) :
    (store.listArtifacts o artifactType s).1 =
      (store.getManifest o s).1.map (listing artifactType) := by
  rw [listArtifacts]
  rcases store.getManifest o s with ⟨e | m, t⟩
  · rfl
  · rfl

/-- **Other origins are listed as they were.** -/
theorem Confined.listsSame (h : Confined store U o s s') {o' : String} (ho' : o' ∈ U)
    (hne : o' ≠ o) : store.ListsSame s s' o' := by
  intro artifactType
  simp only [fst_listArtifacts, fst_getManifest]
  rw [h.manifests o' hne, h.loads o' ho' hne]
  refine ⟨rfl, ?_⟩
  show Except.map _ ((s'.tree.load _).map _) = Except.map _ ((s.tree.load _).map _)
  rw [h.loads o' ho' hne]

/-- The manifest of an origin is brought into memory, and nothing else happens. -/
theorem getManifest_cases (store : ArtifactStore) (o : String) (s : ArtifactState) :
    (∃ e, store.getManifest o s = (.error e, s)) ∨
    ∃ manifest s', store.getManifest o s = (.ok manifest, s') ∧ s'.tree = s.tree ∧
      s'.blobs = s.blobs ∧
      (∀ o', s'.manifests.lookup o' = if o' = o then some manifest else s.manifests.lookup o') ∧
      (s.manifests.lookup o = some manifest ∨
        s.tree.files.lookup (store.place o) = some manifest ∨ manifest = ⟨o, []⟩) := by
  rw [getManifest]
  rcases hm : s.manifests.lookup o with _ | m
  · rcases hl : s.tree.load (store.place o) with e | found
    · exact Or.inl ⟨e, rfl⟩
    · refine Or.inr ⟨_, _, rfl, rfl, rfl, fun o' => Table.lookup_insert .., Or.inr ?_⟩
      rw [ManifestTree.load] at hl
      split at hl
      · exact absurd hl nofun
      · rw [← Except.ok.inj hl]
        rcases s.tree.files.lookup (store.place o) with _ | m
        · exact Or.inr rfl
        · exact Or.inl rfl
  · refine Or.inr ⟨m, s, rfl, rfl, rfl, fun o' => ?_, Or.inl rfl⟩
    by_cases ho : o' = o
    · rw [if_pos ho, ho, hm]
    · rw [if_neg ho]

/-! ### The invariant -/

/-- What a manifest of an origin records was stored, and its blob is there. -/
structure Good (P : ArtifactPlatform) (F : ArtifactFormats A J) (store : ArtifactStore)
    (U : Set String) (H : List (ArtifactOp A J)) (blobs : Table BlobId Bytes) (o : String)
    (manifest : ArtifactManifest) : Prop where
  originId : manifest.originId = o
  stored : ∀ row ∈ manifest.artifacts, ∃ op ∈ H, ∃ data, store.Stores P F op o row.2 data
  alive : ∀ row ∈ manifest.artifacts, (blobs.lookup row.2.blobId).isSome
  apart : manifest.artifacts ≠ [] → store.Apart U o

/-- Both in memory and on file, the manifests are good. -/
structure Sound (P : ArtifactPlatform) (F : ArtifactFormats A J) (store : ArtifactStore)
    (U : Set String) (H : List (ArtifactOp A J)) (s : ArtifactState) : Prop where
  cached : ∀ o ∈ U, ∀ manifest, s.manifests.lookup o = some manifest →
    Good P F store U H s.blobs o manifest
  filed : ∀ o ∈ U, ∀ manifest, s.tree.files.lookup (store.place o) = some manifest →
    Good P F store U H s.blobs o manifest
  ids : ∀ b compressed, s.blobs.lookup b = some compressed → b = P.blobId compressed

theorem Sound.fresh (dirs : List (List Name)) :
    Sound P F store U [] (ArtifactState.fresh dirs) where
  cached _ _ _ h := absurd h nofun
  filed _ _ _ h := absurd h nofun
  ids _ _ h := absurd h nofun

variable {H' : List (ArtifactOp A J)} {blobs blobs' : Table BlobId Bytes}

/-- A longer history, and blobs that are still there. -/
theorem Good.mono (h : Good P F store U H blobs o manifest) (hsub : H ⊆ H')
    (halive : ∀ row ∈ manifest.artifacts, (blobs.lookup row.2.blobId).isSome →
      (blobs'.lookup row.2.blobId).isSome) : Good P F store U H' blobs' o manifest where
  originId := h.originId
  stored row hrow := by
    obtain ⟨op, hop, hdata⟩ := h.stored row hrow
    exact ⟨op, hsub hop, hdata⟩
  alive row hrow := halive row hrow (h.alive row hrow)
  apart := h.apart

theorem Good.new (o : String) : Good P F store U H blobs o ⟨o, []⟩ where
  originId := rfl
  stored _ hrow := absurd hrow List.not_mem_nil
  alive _ hrow := absurd hrow List.not_mem_nil
  apart h := absurd rfl h

theorem Good.erase (h : Good P F store U H blobs o manifest) (id : String) :
    Good P F store U H blobs o { manifest with artifacts := manifest.artifacts.erase id } where
  originId := h.originId
  stored row hrow := h.stored row (Dict.mem_erase.mp hrow).1
  alive row hrow := h.alive row (Dict.mem_erase.mp hrow).1
  apart hne := h.apart fun hnil => hne (by
    show Dict.erase manifest.artifacts id = []
    rw [hnil]
    rfl)

theorem Sound.mono (h : Sound P F store U H s) (hsub : H ⊆ H') : Sound P F store U H' s where
  cached o ho manifest hm := (h.cached o ho manifest hm).mono hsub fun _ _ => id
  filed o ho manifest hm := (h.filed o ho manifest hm).mono hsub fun _ _ => id
  ids := h.ids

theorem Sound.getManifest (h : Sound P F store U H s) (ho : o ∈ U)
    (hget : store.getManifest o s = (.ok manifest, s')) :
    Sound P F store U H s' ∧ Good P F store U H s'.blobs o manifest ∧
      Confined store U o s s' ∧ s'.blobs = s.blobs ∧ s'.tree = s.tree ∧
      ∀ o', s'.manifests.lookup o' = if o' = o then some manifest else s.manifests.lookup o' := by
  rcases getManifest_cases store o s with ⟨e, he⟩ | ⟨m, t, hm, htree, hblobs, hlook, hof⟩
  · rw [he] at hget
    exact absurd (congrArg Prod.fst hget) nofun
  · rw [hm] at hget
    obtain ⟨hmm, rfl⟩ := Prod.mk.inj hget
    obtain rfl := Except.ok.inj hmm
    have hgood : Good P F store U H t.blobs o m := by
      rw [hblobs]
      rcases hof with hof | hof | rfl
      · exact h.cached o ho m hof
      · exact h.filed o ho m hof
      · exact Good.new o
    refine ⟨⟨fun o' ho' m' hm' => ?_, fun o' ho' m' hm' => ?_, ?_⟩, hgood,
      ⟨fun o' hne => ?_, fun o' _ _ => by rw [htree]⟩, hblobs, htree, hlook⟩
    · rw [hlook] at hm'
      by_cases hoo : o' = o
      · rw [if_pos hoo] at hm'
        rw [hoo, ← Option.some.inj hm']
        exact hgood
      · rw [if_neg hoo] at hm'
        rw [hblobs]
        exact h.cached o' ho' m' hm'
    · rw [htree] at hm'
      rw [hblobs]
      exact h.filed o' ho' m' hm'
    · rw [hblobs]
      exact h.ids
    · rw [hlook, if_neg hne]

/-- A good manifest is saved to a file that is apart. -/
theorem Sound.saveManifest (h : Sound P F store U H s) (hapart : store.Apart U o)
    (hgood : Good P F store U H s.blobs o manifest) {r : Except SodlError Unit}
    (hsave : store.saveManifest o manifest s = (r, s')) :
    Sound P F store U H s' ∧ Confined store U o s s' ∧ s'.blobs = s.blobs ∧
      (∀ o', s'.manifests.lookup o' = if o' = o then some manifest else s.manifests.lookup o') ∧
      (r = .ok () → ∀ o' ∈ U, s'.tree.files.lookup (store.place o') =
        if o' = o then some manifest else s.tree.files.lookup (store.place o')) := by
  have hcached : ∀ o' ∈ U, ∀ m, (s.manifests.insert o manifest).lookup o' = some m →
      Good P F store U H s.blobs o' m := by
    intro o' ho' m hm
    rcases Table.lookup_insert_eq_some hm with ⟨rfl, rfl⟩ | ⟨-, hm⟩
    · exact hgood
    · exact h.cached o' ho' m hm
  rw [ArtifactStore.saveManifest] at hsave
  rcases hs : s.tree.save (store.place o) manifest with e | t
  · rw [hs] at hsave
    obtain ⟨rfl, rfl⟩ := Prod.mk.inj hsave
    refine ⟨⟨hcached, h.filed, h.ids⟩, ⟨fun o' hne => Table.lookup_insert_ne hne, fun _ _ _ => rfl⟩,
      rfl, fun o' => Table.lookup_insert .., nofun⟩
  · rw [hs] at hsave
    obtain ⟨rfl, rfl⟩ := Prod.mk.inj hsave
    obtain ⟨hdirs, hfiles, hloads⟩ := ManifestTree.save_spec hs
    have hlook : ∀ o' ∈ U, t.files.lookup (store.place o') =
        if o' = o then some manifest else s.tree.files.lookup (store.place o') := by
      intro o' ho'
      rw [hfiles]
      by_cases hoo : o' = o
      · rw [if_pos hoo, hoo, Table.lookup_insert_self]
      · refine (Table.lookup_insert_ne fun heq => hapart o' ho' hoo ?_).trans (if_neg hoo).symm
        rw [heq]
    refine ⟨⟨hcached, fun o' ho' m hm => ?_, h.ids⟩,
      ⟨fun o' hne => Table.lookup_insert_ne hne, fun o' ho' hne => hloads _ (hapart o' ho' hne)⟩,
      rfl, fun o' => Table.lookup_insert .., fun _ => hlook⟩
    rw [hlook o' ho'] at hm
    by_cases hoo : o' = o
    · rw [if_pos hoo] at hm
      rw [hoo, ← Option.some.inj hm]
      exact hgood
    · rw [if_neg hoo] at hm
      exact h.filed o' ho' m hm

/-- A blob nobody refers to is let go. -/
theorem Sound.eraseBlob (h : Sound P F store U H s) {b : BlobId}
    (hfree : ∀ o ∈ U, ∀ a, Cached s o a ∨ store.Filed s o a → a.blobId ≠ b) :
    Sound P F store U H { s with blobs := s.blobs.erase b } where
  cached o ho manifest hm := (h.cached o ho manifest hm).mono (fun _ => id) fun row hrow hsome => by
    have hne := hfree o ho row.2 (Or.inl ⟨manifest, hm, List.mem_map_of_mem hrow⟩)
    rwa [Table.lookup_erase_ne hne]
  filed o ho manifest hm := (h.filed o ho manifest hm).mono (fun _ => id) fun row hrow hsome => by
    have hne := hfree o ho row.2 (Or.inr ⟨manifest, hm, List.mem_map_of_mem hrow⟩)
    rwa [Table.lookup_erase_ne hne]
  ids b' compressed hb := h.ids b' compressed (Table.lookup_of_lookup_erase hb).2

theorem Sound.insertBlob (h : Sound P F store U H s) (compressed : Bytes) :
    Sound P F store U H
      { s with blobs := s.blobs.insert (P.blobId compressed) compressed } := by
  have hkept : ∀ b, (s.blobs.lookup b).isSome →
      ((s.blobs.insert (P.blobId compressed) compressed).lookup b).isSome := by
    intro b hb
    rw [Table.lookup_insert]
    split
    · rfl
    · exact hb
  refine ⟨fun o ho m hm => (h.cached o ho m hm).mono (fun _ => id) fun row _ => hkept _,
    fun o ho m hm => (h.filed o ho m hm).mono (fun _ => id) fun row _ => hkept _,
    fun b c hb => ?_⟩
  rcases Table.lookup_insert_eq_some hb with ⟨rfl, rfl⟩ | ⟨-, hb⟩
  · rfl
  · exact h.ids b c hb

/-- What a manifest in the view of the `glob` records is taken as referred to. -/
theorem mem_referencedBlobIds {referenced : List BlobId} {exclude : String × String}
    (h : store.referencedBlobIds exclude s = .ok referenced) (hview : store.InView o)
    (hfile : s.tree.files.lookup (store.place o) = some manifest)
    {row : String × ArtifactMetadata} (hrow : row ∈ manifest.artifacts)
    (hne : exclude ≠ (manifest.originId, row.1)) : row.2.blobId ∈ referenced := by
  obtain ⟨name, hname, hplace⟩ := hview
  rw [referencedBlobIds, allManifests] at h
  rcases hall : s.tree.loadAll (s.tree.globJson (locate store.cwd store.manifestDir)) with e | ms
  · rw [hall] at h
    exact absurd h nofun
  · rw [hall] at h
    rw [hplace] at hfile
    have hmem := ManifestTree.mem_of_loadAll hall (ManifestTree.mem_globJson hname hfile) hfile
    rw [← Except.ok.inj h]
    refine List.mem_flatMap.mpr ⟨manifest, hmem, List.mem_map.mpr ⟨row, ?_, rfl⟩⟩
    exact List.mem_filter.mpr ⟨hrow, decide_eq_true hne⟩

/-! ### Deletions -/

/-- Whoever refers to a blob is seen to do so. -/
def Seen (store : ArtifactStore) (U : Set String) (exclude : String × String) (s : ArtifactState)
    (b : BlobId) : Prop :=
  ∀ o ∈ U, ∀ a, Cached s o a ∨ store.Filed s o a → a.blobId = b → store.InView o ∧
    ∃ manifest, s.tree.files.lookup (store.place o) = some manifest ∧
      ∃ row ∈ manifest.artifacts, row.2 = a ∧ exclude ≠ (o, row.1)

theorem Sound.deleteBlob (h : Sound P F store U H s) {b : BlobId} (hseen : Seen store U (o, id) s b)
    {r : Except SodlError Bool} (hdelete : store.deleteBlob o id b s = (r, s')) :
    Sound P F store U H s' ∧ Confined store U o s s' := by
  rw [ArtifactStore.deleteBlob] at hdelete
  rcases hrefs : store.referencedBlobIds (o, id) s with e | referenced
  · rw [hrefs] at hdelete
    obtain ⟨-, rfl⟩ := Prod.mk.inj hdelete
    exact ⟨h, Confined.refl _⟩
  · rw [hrefs] at hdelete
    obtain ⟨-, rfl⟩ := Prod.mk.inj hdelete
    by_cases href : b ∈ referenced
    · rw [if_pos href]
      exact ⟨h, Confined.refl _⟩
    · rw [if_neg href]
      refine ⟨h.eraseBlob fun o' ho' a ha hblob => href ?_, fun _ _ => rfl, fun _ _ _ => rfl⟩
      obtain ⟨hview, manifest, hfile, row, hrow, rfl, hne⟩ := hseen o' ho' a ha hblob
      rw [← hblob]
      refine mem_referencedBlobIds hrefs hview hfile hrow ?_
      rwa [(h.filed o' ho' manifest hfile).originId]

/-- What a clean deletion finds when its manifest is saved. -/
theorem DeletesClean.seen {record : ArtifactMetadata} {s₁ s₂ : ArtifactState}
    (h : store.DeletesClean U o id s) (hget : store.getManifest o s = (.ok manifest, s₁))
    (hrecord : manifest.artifacts.get? id = some record)
    (hlook : ∀ o', s₂.manifests.lookup o' =
      if o' = o then some { manifest with artifacts := manifest.artifacts.erase id }
        else s.manifests.lookup o')
    (hfiles : ∀ o' ∈ U, s₂.tree.files.lookup (store.place o') =
      if o' = o then some { manifest with artifacts := manifest.artifacts.erase id }
        else s.tree.files.lookup (store.place o')) :
    Seen store U (o, id) s₂ record.blobId := by
  intro o' ho' a ha hblob
  obtain ⟨hown, hothers⟩ := h manifest record (congrArg Prod.fst hget) hrecord
  have hfile := hfiles o' ho'
  by_cases hoo : o' = o
  · -- an artifact of the same origin, which the file that was just saved has
    subst hoo
    rw [if_pos rfl] at hfile
    have hrow : ∃ row ∈ manifest.artifacts.erase id, row.2 = a := by
      rcases ha with ⟨m, hm, ha⟩ | ⟨m, hm, ha⟩
      · rw [hlook, if_pos rfl] at hm
        obtain rfl := Option.some.inj hm
        exact List.mem_map.mp ha
      · rw [hfile] at hm
        obtain rfl := Option.some.inj hm
        exact List.mem_map.mp ha
    obtain ⟨row, hrow, rfl⟩ := hrow
    obtain ⟨hrow', hne⟩ := Dict.mem_erase.mp hrow
    exact ⟨hown row hrow' hne hblob, _, hfile, row, hrow, rfl,
      fun heq => hne (congrArg Prod.snd heq).symm⟩
  · -- one of another origin, which has its file as before
    rw [if_neg hoo] at hfile
    have ha' : Cached s o' a ∨ store.Filed s o' a := by
      rcases ha with ⟨m, hm, ha⟩ | ⟨m, hm, ha⟩
      · rw [hlook, if_neg hoo] at hm
        exact Or.inl ⟨m, hm, ha⟩
      · rw [hfile] at hm
        exact Or.inr ⟨m, hm, ha⟩
    obtain ⟨hview, m, hm, ha⟩ := hothers o' ho' hoo a ha' hblob
    obtain ⟨row, hrow, rfl⟩ := List.mem_map.mp ha
    exact ⟨hview, m, hfile.trans hm, row, hrow, rfl,
      fun heq => hoo (congrArg Prod.fst heq).symm⟩

/-- A manifest that is not to be had leaves everything as it was. -/
theorem eq_of_getManifest_error {e : SodlError} (hget : store.getManifest o s = (.error e, s')) :
    s' = s := by
  rcases getManifest_cases store o s with ⟨e', he⟩ | ⟨m, t, hm, -⟩
  · exact (Prod.mk.inj (hget.symm.trans he)).2
  · exact absurd (congrArg Prod.fst (hget.symm.trans hm)) nofun

/-- **A clean deletion** keeps the blobs of the artifacts that are left. -/
theorem Sound.deleteArtifact (h : Sound P F store U H s) (ho : o ∈ U) {deleteBlob : Bool}
    (hclean : deleteBlob = true → store.DeletesClean U o id s) {r : Except SodlError Bool}
    (hdelete : store.deleteArtifact o id deleteBlob s = (r, s')) :
    Sound P F store U H s' ∧ Confined store U o s s' := by
  rw [ArtifactStore.deleteArtifact] at hdelete
  rcases hget : store.getManifest o s with ⟨e | m, s₁⟩
  · rw [hget] at hdelete
    obtain ⟨-, rfl⟩ := Prod.mk.inj hdelete
    rw [eq_of_getManifest_error hget]
    exact ⟨h, Confined.refl _⟩
  · obtain ⟨hs₁, hgood, hconf₁, -, htree₁, hlook₁⟩ := h.getManifest ho hget
    rw [hget] at hdelete
    rcases hrecord : m.artifacts.get? id with _ | record
    · simp only [hrecord] at hdelete
      obtain ⟨-, rfl⟩ := Prod.mk.inj hdelete
      exact ⟨hs₁, hconf₁⟩
    · have hapart := hgood.apart (List.ne_nil_of_mem (Dict.mem_of_get? hrecord))
      rcases hsave : store.saveManifest o
        { m with artifacts := m.artifacts.erase id } s₁ with ⟨r₂, s₂⟩
      obtain ⟨hs₂, hconf₂, -, hlook₂, hfiles₂⟩ := hs₁.saveManifest hapart (hgood.erase id) hsave
      simp only [hrecord, hsave] at hdelete
      rcases r₂ with e | u
      · obtain ⟨-, rfl⟩ := Prod.mk.inj hdelete
        exact ⟨hs₂, hconf₁.trans hconf₂⟩
      · cases deleteBlob with
        | false =>
          obtain ⟨-, rfl⟩ := Prod.mk.inj hdelete
          exact ⟨hs₂, hconf₁.trans hconf₂⟩
        | true =>
          have hseen : Seen store U (o, id) s₂ record.blobId := by
            refine (hclean rfl).seen hget hrecord (fun o' => ?_) fun o' ho' => ?_
            · rw [hlook₂, hlook₁]
              split <;> rfl
            · rw [hfiles₂ rfl o' ho', htree₁]
          obtain ⟨hs₃, hconf₃⟩ := hs₂.deleteBlob hseen hdelete
          exact ⟨hs₃, (hconf₁.trans hconf₂).trans hconf₃⟩

/-- In a sound state, no blob that is gone is referred to. -/
theorem Sound.letsGoUnreferred (h : Sound P F store U H s') (s : ArtifactState) :
    store.LetsGoUnreferred U s s' := by
  intro b hgone _ o ho a ha hblob
  have hsome : (s'.blobs.lookup a.blobId).isSome := by
    rcases ha with ⟨m, hm, ha⟩ | ⟨m, hm, ha⟩
    · obtain ⟨row, hrow, rfl⟩ := List.mem_map.mp ha
      exact (h.cached o ho m hm).alive row hrow
    · obtain ⟨row, hrow, rfl⟩ := List.mem_map.mp ha
      exact (h.filed o ho m hm).alive row hrow
  rw [hblob, hgone] at hsome
  exact absurd hsome nofun

/-- The deletions of a retention are clean one after the other. -/
theorem Sound.removeAll (ho : o ∈ U) {deleteBlobs : Bool} (as : List ArtifactMetadata)
    (h : Sound P F store U H s)
    (hclean : deleteBlobs = true → ∀ d ∈ store.removals o as s, store.DeletesClean U o d.1 d.2)
    {r : Except SodlError (List ArtifactMetadata)}
    (hremove : store.removeAll o deleteBlobs as s = (r, s')) :
    Sound P F store U H s' ∧ Confined store U o s s' ∧
      (deleteBlobs = true → ∀ d ∈ store.removals o as s, Sound P F store U H d.2) := by
  induction as generalizing s s' r with
  | nil =>
    obtain ⟨-, rfl⟩ := Prod.mk.inj hremove
    exact ⟨h, Confined.refl _, fun _ d hd => absurd hd List.not_mem_nil⟩
  | cons a as ih =>
    rw [ArtifactStore.removeAll] at hremove
    rcases hdelete : store.deleteArtifact o a.artifactId deleteBlobs s with ⟨e | gone, s₁⟩
    · obtain ⟨hs₁, hconf₁⟩ := h.deleteArtifact ho
        (fun hb => hclean hb (a.artifactId, s) (List.mem_cons_self ..)) hdelete
      rw [hdelete] at hremove
      obtain ⟨-, rfl⟩ := Prod.mk.inj hremove
      refine ⟨hs₁, hconf₁, fun hb d hd => ?_⟩
      subst hb
      rw [removals, hdelete, List.mem_singleton] at hd
      rw [hd]
      exact h
    · obtain ⟨hs₁, hconf₁⟩ := h.deleteArtifact ho
        (fun hb => hclean hb (a.artifactId, s) (List.mem_cons_self ..)) hdelete
      have hrest : deleteBlobs = true →
          store.removals o (a :: as) s = (a.artifactId, s) :: store.removals o as s₁ := by
        rintro rfl
        rw [removals, hdelete]
      rw [hdelete] at hremove
      rcases hrem : store.removeAll o deleteBlobs as s₁ with ⟨r₂, s₂⟩
      obtain ⟨hs₂, hconf₂, hall⟩ := ih hs₁ (fun hb d hd => hclean hb d (by
        rw [hrest hb]
        exact List.mem_cons_of_mem _ hd)) hrem
      have hs' : s' = s₂ := by
        simp only [hrem] at hremove
        rcases r₂ with e | removed
        · exact (Prod.mk.inj hremove).2.symm
        · exact (Prod.mk.inj hremove).2.symm
      rw [hs']
      refine ⟨hs₂, hconf₁.trans hconf₂, fun hb d hd => ?_⟩
      rw [hrest hb] at hd
      rcases List.mem_cons.mp hd with rfl | hd
      · exact h
      · exact hall hb d hd

/-! ### One call -/

theorem Sound.listArtifacts (h : Sound P F store U H s) (ho : o ∈ U) {artifactType : Option String}
    {r : Except SodlError (List ArtifactMetadata)}
    (hlist : store.listArtifacts o artifactType s = (r, s')) :
    Sound P F store U H s' ∧ Confined store U o s s' := by
  rw [ArtifactStore.listArtifacts] at hlist
  rcases hget : store.getManifest o s with ⟨e | m, s₁⟩
  · rw [hget] at hlist
    obtain ⟨-, rfl⟩ := Prod.mk.inj hlist
    rw [eq_of_getManifest_error hget]
    exact ⟨h, Confined.refl _⟩
  · obtain ⟨hs₁, -, hconf, -⟩ := h.getManifest ho hget
    rw [hget] at hlist
    obtain ⟨-, rfl⟩ := Prod.mk.inj hlist
    exact ⟨hs₁, hconf⟩

theorem Sound.enforceRetention {policy : RetentionPolicy} {now : ℤ} {deleteBlobs : Bool}
    (h : Sound P F store U H s)
    (hclean : store.Clean F U s (.enforceRetention o policy now deleteBlobs))
    {r : Except SodlError (List ArtifactMetadata)}
    (hretain : store.enforceRetention o policy now deleteBlobs s = (r, s')) :
    Sound P F store U H s' ∧ Confined store U o s s' ∧
      ∀ d ∈ store.deletions s (.enforceRetention o policy now deleteBlobs : ArtifactOp A J),
        d.1 = o ∧ Sound P F store U H d.2.2 := by
  have ho := hclean.origin o rfl
  rw [ArtifactStore.enforceRetention] at hretain
  rcases hlist : store.listArtifacts o none s with ⟨e | artifacts, s₁⟩
  · obtain ⟨hs₁, hconf₁⟩ := h.listArtifacts ho hlist
    rw [hlist] at hretain
    obtain ⟨-, rfl⟩ := Prod.mk.inj hretain
    refine ⟨hs₁, hconf₁, fun d hd => ?_⟩
    cases deleteBlobs with
    | false => exact absurd hd List.not_mem_nil
    | true =>
      rw [deletions, hlist] at hd
      exact absurd hd List.not_mem_nil
  · obtain ⟨hs₁, hconf₁⟩ := h.listArtifacts ho hlist
    rw [hlist] at hretain
    have hdel : deleteBlobs = true →
        store.deletions s (.enforceRetention o policy now deleteBlobs : ArtifactOp A J) =
          (store.removals o (expired policy now artifacts) s₁).map fun d => (o, d) := by
      rintro rfl
      rw [deletions, hlist]
    obtain ⟨hs₂, hconf₂, hall⟩ := hs₁.removeAll ho (expired policy now artifacts)
      (fun hb d hd => hclean.deletions (o, d) (by
        rw [hdel hb]
        exact List.mem_map_of_mem hd)) hretain
    refine ⟨hs₂, hconf₁.trans hconf₂, fun d hd => ?_⟩
    cases deleteBlobs with
    | false => exact absurd hd List.not_mem_nil
    | true =>
      rw [hdel rfl] at hd
      obtain ⟨d', hd', rfl⟩ := List.mem_map.mp hd
      exact ⟨rfl, hall rfl d' hd'⟩

/-- A new artifact is recorded in a file that is apart. -/
theorem Sound.storeRaw {op : ArtifactOp A J} {input : ArtifactInput}
    (h : Sound P F store U H s) (ho : input.originId ∈ U) (hapart : store.Apart U input.originId)
    (hinput : op.input? F = some input) {r : Except SodlError ArtifactMetadata}
    (hstore : store.storeRaw P input s = (r, s')) :
    Sound P F store U (H ++ [op]) s' ∧ Confined store U input.originId s s' := by
  have hH := h.mono (List.subset_append_left H [op])
  rw [ArtifactStore.storeRaw] at hstore
  rcases hencode : P.encodeAll input.data store.zstdLevel with e | compressed
  · rw [hencode] at hstore
    obtain ⟨-, rfl⟩ := Prod.mk.inj hstore
    exact ⟨hH, Confined.refl _⟩
  · have hput := hH.insertBlob compressed
    rw [hencode] at hstore
    simp only at hstore
    have hconf₀ : Confined store U input.originId s
        { s with blobs := s.blobs.insert (metadata P input compressed).blobId compressed } :=
      ⟨fun _ _ => rfl, fun _ _ _ => rfl⟩
    rcases hget : store.getManifest input.originId
      { s with blobs := s.blobs.insert (metadata P input compressed).blobId compressed } with
        ⟨e | m, s₁⟩
    · rw [hget] at hstore
      obtain ⟨-, rfl⟩ := Prod.mk.inj hstore
      rw [eq_of_getManifest_error hget]
      exact ⟨hput, hconf₀⟩
    · obtain ⟨hs₁, hgood, hconf₁, hblobs₁, -⟩ := hput.getManifest ho hget
      have hnew : Good P F store U (H ++ [op]) s₁.blobs input.originId
          { m with
            artifacts := m.artifacts.set (metadata P input compressed).artifactId
              (metadata P input compressed) } := by
        refine ⟨hgood.originId, fun row hrow => ?_, fun row hrow => ?_, fun _ => hapart⟩
        · rcases Dict.mem_of_mem_set hrow with rfl | hrow
          · exact ⟨op, List.mem_append_right _ (List.mem_singleton_self _), input.data, input,
              compressed, hinput, rfl, rfl, hencode, rfl⟩
          · exact hgood.stored row hrow
        · rcases Dict.mem_of_mem_set hrow with rfl | hrow
          · rw [hblobs₁]
            exact Option.isSome_of_eq_some (Table.lookup_insert_self s.blobs _ compressed)
          · exact hgood.alive row hrow
      rw [hget] at hstore
      simp only at hstore
      rcases hsave : store.saveManifest input.originId
        { m with
          artifacts := m.artifacts.set (metadata P input compressed).artifactId
            (metadata P input compressed) } s₁ with ⟨r₂, s₂⟩
      obtain ⟨hs₂, hconf₂, -⟩ := hs₁.saveManifest hapart hnew hsave
      have hs' : s' = s₂ := by
        simp only [hsave] at hstore
        rcases r₂ with e | u
        · exact (Prod.mk.inj hstore).2.symm
        · exact (Prod.mk.inj hstore).2.symm
      rw [hs']
      exact ⟨hs₂, (hconf₀.trans hconf₁).trans hconf₂⟩

theorem Sound.reopened (h : Sound P F store U H s) : Sound P F store U H s.reopened :=
  ⟨fun _ _ _ hm => absurd hm nofun, h.filed, h.ids⟩

/-- **The step**: a clean call leaves a sound state, and the other origins as they are. -/
theorem Sound.next {op : ArtifactOp A J} (h : Sound P F store U H s)
    (hclean : store.Clean F U s op) :
    Sound P F store U (H ++ [op]) (store.next P F s op) ∧
      ∀ o, op.originId? = some o → Confined store U o s (store.next P F s op) := by
  have hH := h.mono (List.subset_append_left H [op])
  cases op with
  | store o data label =>
    have hinput : (ArtifactOp.store o data label : ArtifactOp A J).input? F =
        some ⟨o, data, "bytes", none, none, label⟩ := rfl
    obtain ⟨hs, hconf⟩ := h.storeRaw (hclean.origin o rfl) (hclean.apart _ hinput) hinput rfl
    exact ⟨hs, fun o' ho' => Option.some.inj ho' ▸ hconf⟩
  | storeNumpy o array label =>
    rcases hdata : F.serializeNumpy array with e | data
    · rw [ArtifactStore.next, ArtifactStore.storeNumpy, hdata]
      exact ⟨hH, fun o' _ => Confined.refl _⟩
    · have hinput : (ArtifactOp.storeNumpy o array label : ArtifactOp A J).input? F =
          some ⟨o, data, "numpy", some (F.shape array), some (F.dtype array), label⟩ := by
        rw [ArtifactOp.input?, hdata]
        rfl
      obtain ⟨hs, hconf⟩ := h.storeRaw (hclean.origin o rfl) (hclean.apart _ hinput) hinput rfl
      rw [ArtifactStore.next, ArtifactStore.storeNumpy, hdata]
      exact ⟨hs, fun o' ho' => Option.some.inj ho' ▸ hconf⟩
  | storeJson o obj label =>
    rcases hdata : F.serializeJson obj with e | data
    · rw [ArtifactStore.next, ArtifactStore.storeJson, hdata]
      exact ⟨hH, fun o' _ => Confined.refl _⟩
    · have hinput : (ArtifactOp.storeJson o obj label : ArtifactOp A J).input? F =
          some ⟨o, data, "json", none, none, label⟩ := by
        rw [ArtifactOp.input?, hdata]
        rfl
      obtain ⟨hs, hconf⟩ := h.storeRaw (hclean.origin o rfl) (hclean.apart _ hinput) hinput rfl
      rw [ArtifactStore.next, ArtifactStore.storeJson, hdata]
      exact ⟨hs, fun o' ho' => Option.some.inj ho' ▸ hconf⟩
  | listArtifacts o artifactType =>
    obtain ⟨hs, hconf⟩ := hH.listArtifacts (hclean.origin o rfl) rfl
    exact ⟨hs, fun o' ho' => Option.some.inj ho' ▸ hconf⟩
  | deleteArtifact o id deleteBlob =>
    have hdelete : deleteBlob = true → store.DeletesClean U o id s := by
      rintro rfl
      exact hclean.deletions (o, id, s) (List.mem_singleton_self _)
    obtain ⟨hs, hconf⟩ := hH.deleteArtifact (hclean.origin o rfl) hdelete rfl
    exact ⟨hs, fun o' ho' => Option.some.inj ho' ▸ hconf⟩
  | enforceRetention o policy now deleteBlobs =>
    obtain ⟨hs, hconf, -⟩ := hH.enforceRetention hclean rfl
    exact ⟨hs, fun o' ho' => Option.some.inj ho' ▸ hconf⟩
  | reopen => exact ⟨hH.reopened, nofun⟩

/-- The blobs that go with the artifacts a clean call deletes are not referred to. -/
theorem Sound.deletions {op : ArtifactOp A J} (h : Sound P F store U H s)
    (hclean : store.Clean F U s op) : ∀ d ∈ store.deletions s op,
      store.LetsGoUnreferred U d.2.2 (store.deleteArtifact d.1 d.2.1 true d.2.2).2 := by
  have hone : ∀ d ∈ store.deletions s op, d.1 ∈ U → Sound P F store U H d.2.2 →
      store.LetsGoUnreferred U d.2.2 (store.deleteArtifact d.1 d.2.1 true d.2.2).2 := by
    intro d hd ho hs
    exact (hs.deleteArtifact ho (fun _ => hclean.deletions d hd) rfl).1.letsGoUnreferred _
  cases op with
  | deleteArtifact o id deleteBlob =>
    intro d hd
    cases deleteBlob with
    | false => exact absurd hd List.not_mem_nil
    | true =>
      obtain rfl := List.mem_singleton.mp hd
      exact hone _ hd (hclean.origin o rfl) h
  | enforceRetention o policy now deleteBlobs =>
    intro d hd
    obtain ⟨rfl, hs⟩ := (h.enforceRetention hclean rfl).2.2 d hd
    exact hone d hd (hclean.origin _ rfl) hs
  | _ => exact fun d hd => absurd hd List.not_mem_nil

/-- What is listed is recorded in memory or on file. -/
theorem refers_of_listed {artifactType : Option String} {artifacts : List ArtifactMetadata}
    (h : (store.listArtifacts o artifactType s).1 = .ok artifacts) {a : ArtifactMetadata}
    (ha : a ∈ artifacts) : Cached s o a ∨ store.Filed s o a := by
  rw [fst_listArtifacts] at h
  rcases getManifest_cases store o s with ⟨e, he⟩ | ⟨m, t, hm, -, -, -, hof⟩
  · rw [he] at h
    exact absurd h nofun
  · rw [hm] at h
    obtain rfl := Except.ok.inj h
    have hmem : a ∈ m.artifacts.map Prod.snd := by
      simp only [listing, List.mem_mergeSort] at ha
      rcases artifactType with _ | t
      · exact ha
      · dsimp only at ha
        split at ha
        · exact ha
        · exact (List.mem_filter.mp ha).1
    rcases hof with hof | hof | rfl
    · exact Or.inl ⟨m, hof, hmem⟩
    · exact Or.inr ⟨m, hof, hmem⟩
    · exact absurd hmem List.not_mem_nil

/-- **In a sound state, what is listed loads.** -/
theorem Sound.intact (h : Sound P F store U H s) (hcf : P.CollisionFree) (hzstd : P.ZstdRoundTrips)
    (ho : o ∈ U) : store.Intact P F H s o := by
  intro artifactType artifacts hlisted a ha
  have hrefers : Cached s o a ∨ store.Filed s o a := by
    rcases hlisted with hl | hl
    · exact refers_of_listed hl ha
    · rcases refers_of_listed hl ha with ⟨m, hm, -⟩ | hfiled
      · exact absurd hm nofun
      · exact Or.inr hfiled
  obtain ⟨m, hgood, hmem⟩ : ∃ m, Good P F store U H s.blobs o m ∧
      a ∈ m.artifacts.map Prod.snd := by
    rcases hrefers with ⟨m, hm, ha⟩ | ⟨m, hm, ha⟩
    · exact ⟨m, h.cached o ho m hm, ha⟩
    · exact ⟨m, h.filed o ho m hm, ha⟩
  obtain ⟨row, hrow, rfl⟩ := List.mem_map.mp hmem
  refine ⟨hgood.stored row hrow, fun op _ o' data hstores => ?_⟩
  obtain ⟨input, compressed, -, -, rfl, hencode, hmeta⟩ := hstores
  obtain ⟨c, hc⟩ := Option.isSome_iff_exists.mp (hgood.alive row hrow)
  -- the blob that is there is the one that was put
  have hsame : c = compressed := by
    have hid : P.blobId c = P.blobId compressed := by
      rw [← h.ids _ c hc, hmeta]
      rfl
    exact computeBlobId_injective hcf hid
  rw [loadRaw, hc, hsame]
  dsimp only
  rw [hzstd _ _ _ hencode]
  rfl

end ArtifactStore

end Python

/-- **Artifacts outlive one another** in every run of clean calls of a store that starts afresh:
each artifact that is listed, by the store or by one that is opened anew, loads as what it was
stored; a clean call deletes no blob that is referred to; and it leaves what is listed for the other
origins as it is. -/
theorem artifacts_survive {A J : Type} {P : ArtifactPlatform} (hcf : P.CollisionFree)
    (hzstd : P.ZstdRoundTrips) {F : Python.ArtifactFormats A J} {store : Python.ArtifactStore}
    {U : Set String} {dirs : List (List Name)} {H : List (Python.ArtifactOp A J)}
    {s : Python.ArtifactState}
    (hrun : Run (fun s op s' => store.Clean F U s op ∧ s' = store.next P F s op)
      (.fresh dirs) H s) :
    (∀ o ∈ U, store.Intact P F H s o) ∧
    ∀ op, store.Clean F U s op →
      store.LetsGoUnreferred U s (store.next P F s op) ∧
      (∀ d ∈ store.deletions s op,
        store.LetsGoUnreferred U d.2.2 (store.deleteArtifact d.1 d.2.1 true d.2.2).2) ∧
      ∀ o, op.originId? = some o → ∀ o' ∈ U, o' ≠ o →
        store.ListsSame s (store.next P F s op) o' := by
  have hsound : Python.ArtifactStore.Sound P F store U H s := by
    refine hrun.invariant (Python.ArtifactStore.Sound.fresh dirs) ?_
    rintro H s op s' - hs ⟨hclean, rfl⟩
    exact (hs.next hclean).1
  refine ⟨fun o ho => hsound.intact hcf hzstd ho, fun op hclean => ?_⟩
  obtain ⟨hnext, hconf⟩ := hsound.next hclean
  exact ⟨hnext.letsGoUnreferred s, hsound.deletions hclean,
    fun o ho o' ho' hne => (hconf o ho).listsSame ho' hne⟩

private def bareFormats : Python.ArtifactFormats Unit Unit :=
  ⟨fun _ => .ok [], fun _ => [], fun _ => "float64", fun _ => .ok []⟩

private def flatArtifacts : Python.ArtifactStore := ⟨[], "/m".toList, 3⟩

private def labelled (artifactId : String) : Python.ArtifactLabel := ⟨"weights", [], artifactId, 0⟩

/-- The same bytes are stored for two origins, and deleted for the second. -/
private def sharedCalls (o o' : String) : List (Python.ArtifactOp Unit Unit) :=
  [.store o [1] (labelled "1"), .store o' [1] (labelled "2"), .deleteArtifact o' "2" true]

private def afterCalls (ops : List (Python.ArtifactOp Unit Unit)) : Python.ArtifactState :=
  ops.foldl (flatArtifacts.next sampleArtifacts bareFormats) (.fresh [["m".toList]])

private def artifactOf (o artifactId : String) : Python.ArtifactMetadata :=
  Python.ArtifactStore.metadata sampleArtifacts
    ⟨o, [1], "bytes", none, none, labelled artifactId⟩ [1]

/-- The bytes are shared by two origins whose manifests are in the directory. -/
theorem artifacts_survive_shared :
    Python.ArtifactStore.loadRaw sampleArtifacts (artifactOf "a" "1").blobId
      (afterCalls (sharedCalls "a" "b")) = .ok [1] := by
  let U : Set String := {"a", "b"}
  have hapart : ∀ o ∈ U, flatArtifacts.Apart U o := by
    rintro o (rfl | rfl) o' (rfl | rfl) hne
    · exact absurd rfl hne
    · decide +kernel
    · decide +kernel
    · exact absurd rfl hne
  have hview : flatArtifacts.InView "a" := ⟨"a.json".toList, by decide +kernel, by decide +kernel⟩
  have hstore : ∀ o ∈ U, ∀ id s, flatArtifacts.Clean bareFormats U s
      (.store o [1] (labelled id) : Python.ArtifactOp Unit Unit) := by
    refine fun o ho id s => ⟨fun o' ho' => Option.some.inj ho' ▸ ho, fun input hinput => ?_, nofun⟩
    rw [← Option.some.inj hinput]
    exact hapart o ho
  have hfiled : (afterCalls ((sharedCalls "a" "b").take 2)).manifests.lookup "a" =
      (afterCalls ((sharedCalls "a" "b").take 2)).tree.files.lookup (flatArtifacts.place "a") := by
    decide +kernel
  have hmanifest : (flatArtifacts.getManifest "b"
      (afterCalls ((sharedCalls "a" "b").take 2))).1 = .ok ⟨"b", [("2", artifactOf "b" "2")]⟩ := by
    decide +kernel
  have hdelete : flatArtifacts.Clean bareFormats U (afterCalls ((sharedCalls "a" "b").take 2))
      (.deleteArtifact "b" "2" true : Python.ArtifactOp Unit Unit) := by
    refine ⟨fun o ho => Option.some.inj ho ▸ Or.inr rfl, nofun, fun d hd => ?_⟩
    obtain rfl := List.mem_singleton.mp hd
    intro m record hm hrecord
    obtain rfl := Except.ok.inj (hmanifest.symm.trans hm)
    refine ⟨fun row hrow hne => absurd (congrArg Prod.fst (List.mem_singleton.mp hrow)) hne, ?_⟩
    rintro o (rfl | rfl) hne a (⟨m', hm', ha⟩ | ha) -
    · exact ⟨hview, m', hfiled.symm.trans hm', ha⟩
    · exact ⟨hview, ha⟩
    · exact absurd rfl hne
    · exact absurd rfl hne
  have hrun : Run (fun s op s' => flatArtifacts.Clean bareFormats U s op ∧
      s' = flatArtifacts.next sampleArtifacts bareFormats s op) (.fresh [["m".toList]])
      (sharedCalls "a" "b") (afterCalls (sharedCalls "a" "b")) :=
    Run.cons ⟨hstore _ (Or.inl rfl) _ _, rfl⟩ (Run.cons ⟨hstore _ (Or.inr rfl) _ _, rfl⟩
      (Run.single ⟨hdelete, rfl⟩))
  have hlisted : (flatArtifacts.listArtifacts "a" none (afterCalls (sharedCalls "a" "b"))).1 =
      .ok [artifactOf "a" "1"] := by decide +kernel
  have hintact := (artifacts_survive samplePlatform_collisionFree sampleArtifacts_zstdRoundTrips
    hrun).1 "a" (Or.inl rfl)
  exact (hintact none _ (Or.inl hlisted) _ (List.mem_singleton_self _)).2 _
    (List.mem_cons_self ..) "a" [1] ⟨_, [1], rfl, rfl, rfl, rfl, rfl⟩

/-- The manifest of one of the origins is in a directory below, where it is not looked for: its
artifact is left without a blob. And the manifests of two origins have one name. -/
theorem not_artifacts_survive :
    ¬flatArtifacts.Intact sampleArtifacts bareFormats (sharedCalls "org/a" "b")
      (afterCalls (sharedCalls "org/a" "b")) "org/a" ∧
    ¬flatArtifacts.ListsSame (afterCalls []) (afterCalls [.store "a:b" [1] (labelled "1")])
      "a__b" := by
  constructor
  · intro h
    have hlisted : (flatArtifacts.listArtifacts "org/a" none
        (afterCalls (sharedCalls "org/a" "b"))).1 = .ok [artifactOf "org/a" "1"] := by
      decide +kernel
    have hloads := (h none _ (Or.inl hlisted) _ (List.mem_singleton_self _)).2 _
      (List.mem_cons_self ..) "org/a" [1] ⟨_, [1], rfl, rfl, rfl, rfl, rfl⟩
    exact absurd hloads (by decide +kernel)
  · intro h
    exact absurd (h none).1 (by decide +kernel)

end Sodl
