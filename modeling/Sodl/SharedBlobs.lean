import Sodl.Checkpoint.GivenUp
import Sodl.Checkpoint.Runs
import Sodl.Effect.Runs
import Sodl.Optimizer.GivenUp
import Sodl.Weights.Manifests

/-!
# Stores over one blob directory

Any number of weight manifests, an optimizer-state store and a checkpoint store, each with manifests
or registries of its own, over one directory of blobs. Equal bytes have one id, so a blob may be
named by several of them; but each looks only at its own names when it deletes.

What is at stake is `Sodl.SharedState.KeepsInUse`: a blob that is there stays, along every run after
whose every step some manifest or registry names it. It does not hold of all runs: a run whose
manifest is written anew deletes the blobs of the other runs (`Sodl.not_keepsInUse`). It holds of
the runs whose every step is `Sodl.SharedState.Unshared`, which gives up no blob that another store
names (`Sodl.keepsInUse_of_unshared`).
-/

namespace Sodl

open Effect

/-! ### The stores -/

/-- The limits of the stores that are opened beside the weight manifests. -/
structure SharedStores where
  optimizer : OptimizerStateStore
  checkpoint : CheckpointStore

/-- What the stores know and write, over one blob directory. -/
structure SharedState where
  weights : WeightManifestState
  optimizer : OptimizerState
  checkpoint : CheckpointState
  optimizer_blobs : optimizer.blobs = weights.blobs
  checkpoint_blobs : checkpoint.blobs = weights.blobs

/-- What a manifest or a registry belongs to: each weight manifest is a run's own. -/
inductive BlobOwner
  | manifest (path : String)
  | optimizer
  | checkpoint
  deriving DecidableEq

/-- A call to one of the stores. A weight manifest store is opened for each manifest. -/
inductive SharedOp
  | writeManifest (store : WeightManifestStore) (originId : String) (vocabSize embeddingDim : ℕ)
      (clusters : List WeightManifestCluster) (metadata : Option WeightMetadata)
  | optimizer (op : OptimizerOp)
  | checkpoint (op : CheckpointOp)

namespace SharedState

variable (t : SharedState)

/-- The blob directory. -/
def blobs : Table BlobId Bytes := t.weights.blobs

def withWeights (w : WeightManifestState) : SharedState where
  weights := w
  optimizer := { t.optimizer with blobs := w.blobs }
  checkpoint := { t.checkpoint with blobs := w.blobs }
  optimizer_blobs := rfl
  checkpoint_blobs := rfl

def withOptimizer (o : OptimizerState) : SharedState where
  weights := { t.weights with blobs := o.blobs }
  optimizer := o
  checkpoint := { t.checkpoint with blobs := o.blobs }
  optimizer_blobs := rfl
  checkpoint_blobs := rfl

def withCheckpoint (c : CheckpointState) : SharedState where
  weights := { t.weights with blobs := c.blobs }
  optimizer := { t.optimizer with blobs := c.blobs }
  checkpoint := c
  optimizer_blobs := rfl
  checkpoint_blobs := rfl

/-- The manifests or registries of an owner name a blob. -/
def Names (b : BlobId) : BlobOwner → Prop
  | .manifest path => t.weights.Names path b
  | .optimizer => t.optimizer.Names b
  | .checkpoint => t.checkpoint.Names b

/-- Some manifest or registry names a blob. -/
def InUse (b : BlobId) : Prop := ∃ owner, t.Names b owner

end SharedState

namespace SharedOp

variable (P : ArtifactPlatform) (stores : SharedStores)

/-- Whose manifest or registry a call is about. -/
def owner : SharedOp → BlobOwner
  | writeManifest store _ _ _ _ _ => .manifest store.manifestPath
  | optimizer _ => .optimizer
  | checkpoint _ => .checkpoint

/-- What a call leaves, whatever it ends in. -/
def next (t : SharedState) : SharedOp → SharedState
  | writeManifest store originId vocabSize embeddingDim clusters metadata =>
    t.withWeights ((store.writeManifest P originId vocabSize embeddingDim clusters metadata).run
      WeightManifestState.handle t.weights).2
  | optimizer op =>
    t.withOptimizer ((op.prog P stores.optimizer).run (OptimizerState.handle P) t.optimizer).2
  | checkpoint op =>
    t.withCheckpoint ((op.prog P stores.checkpoint).run (CheckpointState.handle P) t.checkpoint).2

/-- **A blob that a call gives up**, as far as the names of its own store go. -/
def GivesUp (t : SharedState) (b : BlobId) : SharedOp → Prop
  | writeManifest store _ _ _ clusters _ => store.GivesUp t.weights clusters b
  | optimizer op => op.GivesUp P stores.optimizer t.optimizer b
  | checkpoint op => op.GivesUp P stores.checkpoint t.checkpoint b

/-- One call after another. -/
def Step (t : SharedState) (op : SharedOp) (t' : SharedState) : Prop := op.next P stores t = t'

end SharedOp

namespace SharedState

/-- **What is in use stays**: a blob that is there is there after every run of some steps, if some
manifest or registry names it after each of them. -/
def KeepsInUse (step : SharedState → SharedOp → SharedState → Prop) (t : SharedState) : Prop :=
  ∀ b ∈ t.blobs, ∀ K t', Run (fun t op t' => step t op t' ∧ t'.InUse b) t K t' → b ∈ t'.blobs

/-- **A call that gives up no blob of another store**: the blobs that are there and that it gives
up are named by its own manifest or registry alone. -/
def Unshared (P : ArtifactPlatform) (stores : SharedStores) (t : SharedState) (op : SharedOp) :
    Prop :=
  ∀ b ∈ t.blobs, op.GivesUp P stores t b → ∀ owner, owner ≠ op.owner → ¬t.Names b owner

end SharedState

/-! ### One call -/

section Step

variable {P : ArtifactPlatform} {stores : SharedStores} {t : SharedState} {op : SharedOp}
  {b : BlobId} {owner : BlobOwner}

/-- A call to one store leaves the names of the others. -/
theorem names_next_of_ne (hb : b ∈ t.blobs) (hne : owner ≠ op.owner)
    (h : (op.next P stores t).Names b owner) : t.Names b owner := by
  cases op with
  | writeManifest store o v d clusters metadata =>
    cases owner with
    | manifest path =>
      -- the manifest at another path is as it was
      have hpath : path ≠ store.manifestPath := fun h => hne (congrArg BlobOwner.manifest h)
      obtain ⟨m, hm, hmem⟩ := h
      have hkeeps : ∀ path, path ≠ store.manifestPath →
          ((store.writeManifest P o v d clusters metadata).run WeightManifestState.handle
            t.weights).2.manifests.lookup path = t.weights.manifests.lookup path :=
        (WeightManifestStore.writeManifest_keeps rfl hb).1
      exact ⟨m, (hkeeps path hpath).symm.trans hm, hmem⟩
    | optimizer => exact h
    | checkpoint => exact h
  | optimizer op =>
    cases owner with
    | manifest path => exact h
    | optimizer => exact absurd rfl hne
    | checkpoint => exact h
  | checkpoint op =>
    cases owner with
    | manifest path => exact h
    | optimizer => exact h
    | checkpoint => exact absurd rfl hne

/-- A call keeps a blob, or gives it up, and then its own store no longer names it. -/
theorem next_keeps (op : SharedOp) (hb : b ∈ t.blobs) :
    b ∈ (op.next P stores t).blobs ∨
      op.GivesUp P stores t b ∧ ¬(op.next P stores t).Names b op.owner := by
  cases op with
  | writeManifest store o v d clusters metadata =>
    exact (WeightManifestStore.writeManifest_keeps rfl hb).2
  | optimizer op =>
    refine Optimizer.call_keeps rfl ?_
    rw [t.optimizer_blobs]
    exact hb
  | checkpoint op =>
    refine Checkpoint.call_keeps rfl ?_
    rw [t.checkpoint_blobs]
    exact hb

/-- **A call that gives up no blob of another store** keeps what is in use. -/
theorem SharedState.Unshared.keeps (hop : t.Unshared P stores op) (hb : b ∈ t.blobs)
    (huse : (op.next P stores t).InUse b) : b ∈ (op.next P stores t).blobs := by
  rcases next_keeps op hb with hkept | ⟨hgiven, hno⟩
  · exact hkept
  · obtain ⟨owner, howner⟩ := huse
    by_cases hne : owner = op.owner
    · subst hne
      exact absurd howner hno
    · exact absurd (names_next_of_ne hb hne howner) (hop b hb hgiven owner hne)

end Step

/-! ### Runs -/

/-- **What is in use stays**, along the runs whose steps give up no blob of another store. -/
theorem keepsInUse_of_unshared (P : ArtifactPlatform) (stores : SharedStores) (t : SharedState) :
    t.KeepsInUse fun t op t' => t.Unshared P stores op ∧ SharedOp.Step P stores t op t' := by
  intro b hb K t' hrun
  refine hrun.invariant (I := fun _ t => b ∈ t.blobs) hb ?_
  rintro H u op u' - hu ⟨⟨hop, rfl⟩, huse⟩
  exact hop.keeps hu huse

/-! ### Two runs with one cluster in common -/

section Sample

def sampleSharedStores : SharedStores where
  optimizer := .open 3 32 8
  checkpoint := ⟨3, 2⟩

/-- The blob of a cluster that was written for two runs. -/
def sampleCommonBlob : BlobId := sampleArtifacts.blobId [1]

/-- The blob of a cluster that was written for one run only. -/
def sampleOwnBlob : BlobId := sampleArtifacts.blobId [2]

/-- The stores as they are opened, over a directory with some blobs. -/
def SharedState.opened (blobs : Table BlobId Bytes) : SharedState where
  weights := ⟨∅, blobs, fun _ => none⟩
  optimizer := .opened ∅ blobs (fun _ => 0) fun _ => none
  checkpoint := .opened blobs (fun _ => 0) Checkpoint.sampleIds fun _ => none
  optimizer_blobs := rfl
  checkpoint_blobs := rfl

/-- The stores over a directory with one blob. -/
def sampleShared : SharedState := .opened (Table.insert ∅ sampleCommonBlob [1])

/-- A manifest of some clusters is written for a run. -/
def sampleWrite (run : String) (clusters : List WeightManifestCluster) : SharedOp :=
  .writeManifest ⟨run, true⟩ run 1 1 clusters none

/-- What the stores are after a call, where their manifests are written in turn. -/
def SharedState.after (t : SharedState) (op : SharedOp) : SharedState :=
  op.next sampleArtifacts sampleSharedStores t

/-- A write for a run that has no manifest yet gives up nothing. -/
theorem unshared_sampleWrite_new {t : SharedState} {run : String}
    {clusters : List WeightManifestCluster} (hnew : t.weights.manifests.lookup run = none) :
    t.Unshared sampleArtifacts sampleSharedStores (sampleWrite run clusters) := by
  rintro b - ⟨-, ⟨m, hm, -⟩, -⟩
  exact absurd (hnew.symm.trans hm) (by simp)

/-- **The manifest of one run** is written anew, and the blob goes that it alone has named; the blob
that another run's manifest names stays. -/
theorem keepsInUse_of_unshared_own : ∃ K t', Run (fun t op t' =>
      t.Unshared sampleArtifacts sampleSharedStores op ∧
        SharedOp.Step sampleArtifacts sampleSharedStores t op t')
      (.opened (Table.insert (Table.insert ∅ sampleCommonBlob [1]) sampleOwnBlob [2])) K t' ∧
    sampleCommonBlob ∈ t'.blobs ∧ sampleOwnBlob ∉ t'.blobs := by
  let t₀ : SharedState :=
    .opened (Table.insert (Table.insert ∅ sampleCommonBlob [1]) sampleOwnBlob [2])
  let two : SharedOp := sampleWrite "two.json" [⟨0, sampleCommonBlob, [0]⟩]
  let one : SharedOp := sampleWrite "one.json" [⟨0, sampleOwnBlob, [0]⟩]
  let again : SharedOp := sampleWrite "one.json" []
  let t₂ : SharedState := (t₀.after two).after one
  -- what the last write gives up is named by no other manifest
  have hagain : t₂.Unshared sampleArtifacts sampleSharedStores again := by
    rintro b - ⟨-, ⟨m, hm, hb⟩, -⟩ owner hne hnames
    obtain rfl : m = ⟨"one.json", 1, 1, [⟨0, sampleOwnBlob, [0]⟩], defaultJsonObject⟩ :=
      (Option.some.inj hm).symm
    obtain rfl : b = sampleOwnBlob := List.mem_singleton.mp hb
    cases owner with
    | manifest path =>
      obtain ⟨m', hm', hb'⟩ := hnames
      have hpath : path ≠ "one.json" := fun h => hne (congrArg BlobOwner.manifest h)
      have hlookup : t₂.weights.manifests.lookup path =
          (t₀.after two).weights.manifests.lookup path := Table.lookup_insert_ne hpath
      rw [hlookup] at hm'
      by_cases htwo : path = "two.json"
      · subst htwo
        obtain rfl : m' = ⟨"two.json", 1, 1, [⟨0, sampleCommonBlob, [0]⟩], defaultJsonObject⟩ :=
          (Option.some.inj hm').symm
        exact absurd hb' (by decide)
      · have hnone : (t₀.after two).weights.manifests.lookup path = none :=
          Table.lookup_insert_ne htwo
        exact absurd (hnone.symm.trans hm') (by simp)
    | optimizer =>
      obtain ⟨name, m', -, hm', -⟩ := hnames
      have hnone : t₂.optimizer.registry.lookup name = none := rfl
      exact absurd (hnone.symm.trans hm') (by simp)
    | checkpoint =>
      obtain ⟨name, -, r, hr, -⟩ := hnames
      exact absurd hr List.not_mem_nil
  have hrun : Run (fun t op t' => (t.Unshared sampleArtifacts sampleSharedStores op ∧
      SharedOp.Step sampleArtifacts sampleSharedStores t op t') ∧ t'.InUse sampleCommonBlob)
      t₀ [two, one, again] (t₂.after again) :=
    Run.cons ⟨⟨unshared_sampleWrite_new rfl, rfl⟩, .manifest "two.json",
        (by decide : (t₀.after two).weights.Names "two.json" sampleCommonBlob)⟩
      (Run.cons ⟨⟨unshared_sampleWrite_new rfl, rfl⟩, .manifest "two.json",
          (by decide : t₂.weights.Names "two.json" sampleCommonBlob)⟩
        (Run.single ⟨⟨hagain, rfl⟩, .manifest "two.json",
          (by decide : (t₂.after again).weights.Names "two.json" sampleCommonBlob)⟩))
  exact ⟨_, _, hrun.mono fun _ _ _ h => h.1,
    keepsInUse_of_unshared sampleArtifacts sampleSharedStores t₀ sampleCommonBlob (by decide) _ _
      hrun, by decide⟩

/-- **The manifest of one run** is written anew, and the blob goes that another run's manifest
names. -/
theorem not_keepsInUse :
    ¬sampleShared.KeepsInUse (SharedOp.Step sampleArtifacts sampleSharedStores) := by
  intro hkeeps
  let one : SharedOp := sampleWrite "one.json" [⟨0, sampleCommonBlob, [0]⟩]
  let two : SharedOp := sampleWrite "two.json" [⟨0, sampleCommonBlob, [0]⟩]
  let again : SharedOp := sampleWrite "one.json" []
  let t : SharedState := ((sampleShared.after one).after two).after again
  have hone : (sampleShared.after one).Names sampleCommonBlob (.manifest "one.json") :=
    (by decide : (sampleShared.after one).weights.Names "one.json" sampleCommonBlob)
  have htwo : ((sampleShared.after one).after two).Names sampleCommonBlob (.manifest "two.json") :=
    (by decide : ((sampleShared.after one).after two).weights.Names "two.json" sampleCommonBlob)
  have hagain : t.Names sampleCommonBlob (.manifest "two.json") :=
    (by decide : t.weights.Names "two.json" sampleCommonBlob)
  have hrun : Run (fun t op t' => SharedOp.Step sampleArtifacts sampleSharedStores t op t' ∧
      t'.InUse sampleCommonBlob) sampleShared [one, two, again] t :=
    Run.cons ⟨rfl, _, hone⟩ (Run.cons ⟨rfl, _, htwo⟩ (Run.single ⟨rfl, _, hagain⟩))
  exact absurd (hkeeps sampleCommonBlob (by decide) _ t hrun) (by decide)

end Sample

end Sodl
