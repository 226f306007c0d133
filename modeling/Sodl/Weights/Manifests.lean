import Mathlib.Data.List.Sort
import Sodl.Optimizer.Store

/-!
# Weight manifests

The clusters of a run by their blobs (`crates/sodl-service/src/weight_manifest.rs`): one JSON
document for each run, in a file of its own. Who writes the manifest anew deletes the blobs that
the old one named and the new one does not, if the store was opened with a blob root.

The store knows no manifest but its own. So what a write deletes is told by two manifests, the old
and the new (`Sodl.WeightManifestStore.GivesUp`), and by nothing else that may name a blob.
-/

namespace Sodl

open Effect

/-! ### Manifests -/

structure WeightManifestCluster where
  clusterId : UInt64
  blobId : BlobId
  memberTokenIds : List UInt32
  deriving DecidableEq

/-- The metadata of a manifest: a JSON object, or any other JSON value. -/
inductive WeightMetadata
  | object (fields : Table String JsonValue)
  | other (value : JsonValue)
  deriving DecidableEq

structure WeightManifest where
  originId : String
  vocabSize : ℕ
  embeddingDim : ℕ
  clusters : List WeightManifestCluster
  metadata : WeightMetadata
  deriving DecidableEq

/-- The blobs that some clusters name. -/
def clusterBlobs (clusters : List WeightManifestCluster) : List BlobId :=
  clusters.map WeightManifestCluster.blobId

def defaultJsonObject : WeightMetadata := .object ∅

/-- The fields of metadata that is an object; anything else has none. -/
def WeightMetadata.fields : WeightMetadata → Table String JsonValue
  | object fields => fields
  | other _ => ∅

/-- Bring the fields of an object in; anything else that comes in has none. -/
def mergeMetadata (target incoming : WeightMetadata) : WeightMetadata :=
  .object (incoming.fields.entries.foldl (fun t e => t.insert e.1 e.2) target.fields)

/-! ### The calls -/

inductive WeightManifestCall
  /-- A manifest that may be there, and a write of one (to a temporary file that is then
  renamed). -/
  | readManifest (path : String)
  | writeManifest (path : String) (m : WeightManifest)
  /-- `FsBlobStore`. -/
  | hasBlob (b : BlobId)
  | deleteBlob (b : BlobId)

/-- What a call replies with. -/
@[reducible] def WeightManifestCall.Ret : WeightManifestCall → Type
  | .readManifest _ => Option WeightManifest
  | .writeManifest _ _ => Unit
  | .hasBlob _ => Bool
  | .deleteBlob _ => Unit

@[reducible] def weightManifestSig : Sig := ⟨SodlError, WeightManifestCall, WeightManifestCall.Ret⟩

abbrev WeightManifestProg (α : Type) : Type := Prog weightManifestSig SodlError α

/-- Make one call. -/
abbrev WeightManifestCall.invoke (c : WeightManifestCall) : WeightManifestProg c.Ret :=
  Prog.perform (S := weightManifestSig) c

/-! ### The methods -/

structure WeightManifestStore where
  manifestPath : String
  /-- Whether the store was opened with a blob root. -/
  blobStore : Bool
  deriving DecidableEq

namespace WeightManifestStore

open WeightManifestCall (invoke)

variable (P : ArtifactPlatform) (store : WeightManifestStore)

def loadManifest : WeightManifestProg (Option WeightManifest) :=
  invoke (.readManifest store.manifestPath)

/-- The manifest that takes the place of the previous one. -/
def nextManifest (previous : Option WeightManifest) (originId : String)
    (vocabSize embeddingDim : ℕ) (clusters : List WeightManifestCluster)
    (metadata : Option WeightMetadata) : WeightManifest :=
  let resolved := (previous.map WeightManifest.metadata).getD defaultJsonObject
  { originId := originId
    vocabSize := vocabSize
    embeddingDim := embeddingDim
    clusters := clusters.insertionSort fun a b => a.clusterId ≤ b.clusterId
    metadata := match metadata with
      | some next => mergeMetadata resolved next
      | none => resolved }

/-- The blobs that the previous clusters name and the live ones do not. -/
def staleBlobIds (previous live : List WeightManifestCluster) : List BlobId :=
  ((clusterBlobs previous).filter fun b => b ∉ clusterBlobs live).dedup

/-- Delete a blob if it is there. -/
def deletePresent (b : BlobId) : WeightManifestProg Unit := do
  if ← invoke (.hasBlob b) then invoke (.deleteBlob b) else pure ()

def writeManifest (originId : String) (vocabSize embeddingDim : ℕ)
    (clusters : List WeightManifestCluster) (metadata : Option WeightMetadata) :
    WeightManifestProg WeightManifest := do
  let previous ← store.loadManifest
  let manifest := nextManifest previous originId vocabSize embeddingDim clusters metadata
  invoke (.writeManifest store.manifestPath manifest)
  match previous with
  | some previous =>
    if store.blobStore then
      Prog.forEach deletePresent (P.idOrder (staleBlobIds previous.clusters manifest.clusters))
      pure manifest
    else pure manifest
  | none => pure manifest

end WeightManifestStore

/-! ### What the calls do -/

/-- The manifests by their paths, and the blobs, in front of what will fail. -/
structure WeightManifestState where
  manifests : Table String WeightManifest
  blobs : Table BlobId Bytes
  /-- The errors in which the calls will end, call after call. -/
  faults : ℕ → Option SodlError

namespace WeightManifestState

/-- What a call does where nothing fails. -/
def answer : Handler weightManifestSig WeightManifestState
  | .readManifest path, s => (.ok (s.manifests.lookup path), s)
  | .writeManifest path m, s => (.ok (), { s with manifests := s.manifests.insert path m })
  | .hasBlob b, s => (.ok (s.blobs.lookup b).isSome, s)
  | .deleteBlob b, s => (.ok (), { s with blobs := s.blobs.erase b })

/-- What a call does: it ends in the error that is next, if one is, and otherwise does what it
should. -/
def handle : Handler weightManifestSig WeightManifestState := fun c s =>
  match s.faults 0 with
  | some e => (.err e, { s with faults := fun n => s.faults (n + 1) })
  | none => answer c { s with faults := fun n => s.faults (n + 1) }

/-- The store is one whose calls may fail. -/
theorem faulty_handle :
    Faulty handle answer (fun _ => true) fun s t => ∃ f, t = { s with faults := f } := by
  refine Faulty.of_next (fun s => s.faults 0)
    (fun s => { s with faults := fun n => s.faults (n + 1) }) (fun _ => ⟨_, rfl⟩)
    (fun s => ⟨s.faults, rfl⟩) fun c s => ?_
  rw [handle]
  cases s.faults 0 <;> rfl

/-- The manifest at a path names a blob. -/
def Names (s : WeightManifestState) (path : String) (b : BlobId) : Prop :=
  ∃ m, s.manifests.lookup path = some m ∧ b ∈ clusterBlobs m.clusters

instance decidableNames (s : WeightManifestState) (path : String) (b : BlobId) :
    Decidable (s.Names path b) :=
  decidable_of_iff (∃ m ∈ s.manifests.lookup path, b ∈ clusterBlobs m.clusters) <| by
    simp only [Option.mem_def, Names]

end WeightManifestState

/-! ### What a write gives up -/

namespace WeightManifestStore

open WeightManifestCall (invoke)
open WeightManifestState (handle)

variable {P : ArtifactPlatform} {store : WeightManifestStore}

/-- **A blob that a write gives up**: the manifest names it, and the clusters that are written do
not. -/
def GivesUp (store : WeightManifestStore) (s : WeightManifestState)
    (clusters : List WeightManifestCluster) (b : BlobId) : Prop :=
  store.blobStore = true ∧ s.Names store.manifestPath b ∧ b ∉ clusterBlobs clusters

/-- A call that may fail: what holds before it does not speak of what will fail. -/
theorem triple_call {c : WeightManifestCall} {pre stop : WeightManifestState → Prop}
    {post : c.Ret → WeightManifestState → Prop}
    (hpre : ∀ s f, pre s → pre { s with faults := f }) (hstop : ∀ s, pre s → stop s)
    (hc : Prog.Triple WeightManifestState.answer pre (invoke c) post stop) :
    Prog.Triple handle pre (invoke c) post stop := by
  refine Prog.Triple.of_faulty WeightManifestState.faulty_handle (fun s t hsame hs => ?_) hstop hc
  obtain ⟨f, rfl⟩ := hsame
  exact hpre s f hs

variable {b : BlobId} {M : Table String WeightManifest}

/-- Some manifests, and a blob that is there or among some others. -/
abbrev KeptBut (M : Table String WeightManifest) (b : BlobId) (given : Prop) :
    WeightManifestState → Prop :=
  Spared WeightManifestState.manifests (b ∈ ·.blobs) M given

theorem triple_deletePresent {given : Prop} {b' : BlobId} (hb : b' = b → given) :
    Prog.Triple handle (KeptBut M b given) (deletePresent b') (fun _ => KeptBut M b given)
      (KeptBut M b given) := by
  refine Prog.Triple.bind (M := fun _ => KeptBut M b given)
    (triple_call (fun _ _ hs => hs) (fun _ hs => hs) (Spared.perform fun s =>
      ⟨_, s, rfl, rfl, Or.inl⟩)) fun there => ?_
  cases there with
  | false => exact Prog.Triple.pure fun _ hs => hs
  | true =>
    exact triple_call (fun _ _ hs => hs) (fun _ hs => hs) (Spared.perform fun _ =>
      ⟨(), _, rfl, rfl, fun hmem => (Table.mem_erase_or hmem).imp_right hb⟩)

theorem triple_deleteAll {given : Prop} {bs : List BlobId} (hb : b ∈ bs → given) :
    Prog.Triple handle (KeptBut M b given) (Prog.forEach deletePresent bs)
      (fun _ => KeptBut M b given) (KeptBut M b given) := by
  induction bs with
  | nil => exact Prog.Triple.pure fun _ hs => hs
  | cons b' bs ih =>
    refine Prog.Triple.bind (triple_deletePresent fun heq => hb ?_) fun _ =>
      ih fun hmem => hb (List.mem_cons_of_mem _ hmem)
    rw [heq]
    exact List.mem_cons_self ..

theorem mem_clusterBlobs_next {previous : Option WeightManifest} {originId : String}
    {vocabSize embeddingDim : ℕ} {clusters : List WeightManifestCluster}
    {metadata : Option WeightMetadata} :
    b ∈ clusterBlobs
        (nextManifest previous originId vocabSize embeddingDim clusters metadata).clusters ↔
      b ∈ clusterBlobs clusters :=
  ((List.perm_insertionSort _ clusters).map _).mem_iff

theorem mem_staleBlobIds {previous live : List WeightManifestCluster} :
    b ∈ staleBlobIds previous live ↔ b ∈ clusterBlobs previous ∧ b ∉ clusterBlobs live := by
  rw [staleBlobIds, List.mem_dedup, List.mem_filter, decide_eq_true_eq]

section Write

variable {s : WeightManifestState} {originId : String} {vocabSize embeddingDim : ℕ}
  {clusters : List WeightManifestCluster} {metadata : Option WeightMetadata}

/-- A write leaves the old manifests and every blob, or the new ones and every blob that is not
given up. -/
theorem triple_writeManifest :
    Prog.Triple handle (KeptBut s.manifests b False)
      (store.writeManifest P originId vocabSize embeddingDim clusters metadata)
      (fun _ t => KeptBut s.manifests b False t ∨
        KeptBut (s.manifests.insert store.manifestPath (nextManifest
          (s.manifests.lookup store.manifestPath) originId vocabSize embeddingDim clusters
          metadata)) b (store.GivesUp s clusters b) t)
      (fun t => KeptBut s.manifests b False t ∨
        KeptBut (s.manifests.insert store.manifestPath (nextManifest
          (s.manifests.lookup store.manifestPath) originId vocabSize embeddingDim clusters
          metadata)) b (store.GivesUp s clusters b) t) := by
  let before : WeightManifestState → Prop := KeptBut s.manifests b False
  let after : WeightManifestState → Prop :=
    KeptBut (s.manifests.insert store.manifestPath (nextManifest
      (s.manifests.lookup store.manifestPath) originId vocabSize embeddingDim clusters metadata)) b
      (store.GivesUp s clusters b)
  rw [writeManifest, loadManifest]
  refine Prog.Triple.bind (M := fun previous t =>
      previous = s.manifests.lookup store.manifestPath ∧ before t)
    (triple_call (fun _ _ ht => ht) (fun _ ht => Or.inl ht) (Prog.Triple.perform fun t ht =>
      ⟨_, t, rfl, congrArg _ ht.1, ht⟩)) fun previous => ?_
  refine Prog.Triple.bind (M := fun _ t =>
      previous = s.manifests.lookup store.manifestPath ∧ after t)
    (triple_call (fun _ _ ht => ht) (fun _ ht => Or.inl ht.2) (Prog.Triple.perform fun t ht =>
      ⟨(), _, rfl, ht.1, ?_, ?_⟩)) fun _ t ht => ?_
  · show t.manifests.insert _ _ = s.manifests.insert _ _
    rw [ht.2.1, ht.1]
  · exact Or.inl (ht.2.there_of_not not_false)
  · -- the new manifest is written, and the blobs of the old one are looked through
    obtain ⟨hprevious, ht⟩ := ht
    have hpure : Prog.Triple handle after (pure (nextManifest previous originId vocabSize
        embeddingDim clusters metadata) : WeightManifestProg WeightManifest)
        (fun _ t => before t ∨ after t) (fun t => before t ∨ after t) :=
      Prog.Triple.pure fun _ h => Or.inr h
    cases previous with
    | none => exact hpure t ht
    | some old =>
      simp only
      by_cases hroot : store.blobStore = true
      · rw [if_pos hroot]
        refine Prog.Triple.bind ((triple_deleteAll fun hmem => ?_).weaken (fun _ h => h)
          (fun _ _ h => h) fun _ h => Or.inr h) (fun _ => hpure) t ht
        obtain ⟨hold, hlive⟩ := mem_staleBlobIds.mp ((P.mem_idOrder _ _).mp hmem)
        exact ⟨hroot, ⟨old, hprevious.symm, hold⟩, fun hnew =>
          hlive (mem_clusterBlobs_next.mpr hnew)⟩
      · rw [if_neg hroot]
        exact hpure t ht

/-- **A write keeps what it does not give up**, and changes no other manifest; and what it deletes
its manifest no longer names. -/
theorem writeManifest_keeps {s' : WeightManifestState}
    (hs' : ((store.writeManifest P originId vocabSize embeddingDim clusters metadata).run
      handle s).2 = s') (hb : b ∈ s.blobs) :
    (∀ path, path ≠ store.manifestPath → s'.manifests.lookup path = s.manifests.lookup path) ∧
      (b ∈ s'.blobs ∨ store.GivesUp s clusters b ∧ ¬s'.Names store.manifestPath b) := by
  subst hs'
  rcases Prog.triple_const_iff.mp triple_writeManifest s ⟨rfl, Or.inl hb⟩ with h | h
  · exact ⟨fun path _ => by rw [h.1], Or.inl (h.there_of_not not_false)⟩
  · refine ⟨fun path hne => ?_, h.2.imp_right fun hgiven => ⟨hgiven, ?_⟩⟩
    · rw [h.1, Table.lookup_insert_ne hne]
    · rintro ⟨m, hm, hnew⟩
      rw [h.1, Table.lookup_insert_self] at hm
      rw [← Option.some.inj hm] at hnew
      exact hgiven.2.2 (mem_clusterBlobs_next.mp hnew)

end Write

end WeightManifestStore

end Sodl
