import Mathlib.Algebra.GroupWithZero.Nat
import Sodl.Sample
import Sodl.Weights.ClusterJson

/-!
# Clusters and layer shards, stored and read back

The clusters of a model are stored layer by layer, with a manifest that names the blobs of
each layer (`Sodl.WeightBlobStore.putMultiLayerShards`). A cluster that is written and cannot be
read is stored like any other, and found out when it is loaded.

`Sodl.weightShards_loadBack_iff` says that everything is read back as it was stored exactly when
all the numbers are finite, and no blob was there before under one of the ids with other bytes.
The bytes of a manifest are left to a `Sodl.ManifestCodec`.
-/

namespace Sodl

open Effect
open WeightCall (invoke)

/-! ### Layers -/

/-- Layer-scoped cluster shard metadata. -/
structure LayerShardRecord where
  layerName : String
  clusterIds : List ClusterId
  totalClusters : ℕ
  totalRawBytes : ℕ
  totalStoredBytes : ℕ
  deriving DecidableEq

/-- Manifest describing a multi-layer sharded model export. -/
structure MultiLayerShardManifest where
  originId : OriginId
  layers : List LayerShardRecord
  createdAt : OffsetDateTime
  deriving DecidableEq

/-- Aggregate statistics for storing a multi-layer manifest and its shards. -/
structure MultiLayerStoreStats where
  manifest : MultiLayerShardManifest
  manifestBlobId : BlobId
  totalClusters : ℕ
  totalRawBytes : ℕ
  totalStoredBytes : ℕ

/-- `serde_json` at the type of shard manifests, with the texts of its errors. -/
structure ManifestCodec where
  toVec : MultiLayerShardManifest → Except String Bytes
  fromSlice : Bytes → Except String MultiLayerShardManifest

/-- A manifest that was written is read back as it was. Nothing is asked of texts that no writer
made. -/
def ManifestCodec.RoundTrips (M : ManifestCodec) : Prop :=
  ∀ m b, M.toVec m = .ok b → M.fromSlice b = .ok m

namespace WeightBlobStore

variable (P : Platform) (store : WeightBlobStore) (M : ManifestCodec)

/-- The loop of `put_layer_shard`: each cluster is put, and its id and its sizes go to the sums
before the next one. -/
def putClusters (originId : OriginId) :
    List WeightCluster → List ClusterId → ℕ → ℕ → WeightProg (List ClusterId × ℕ × ℕ)
  | [], clusterIds, totalRawBytes, totalStoredBytes =>
    pure (clusterIds, totalRawBytes, totalStoredBytes)
  | cluster :: rest, clusterIds, totalRawBytes, totalStoredBytes => do
    let stats ← store.put P originId cluster
    putClusters originId rest (clusterIds ++ [stats.blobId]) (totalRawBytes + stats.rawBytes)
      (totalStoredBytes + stats.storedBytes)

/-- Store all clusters for one named layer, up to the first that fails, whose error is passed on. -/
def putLayerShard (originId : OriginId) (layerName : String) (clusters : List WeightCluster) :
    WeightProg LayerShardRecord := do
  let (clusterIds, totalRawBytes, totalStoredBytes) ← store.putClusters P originId clusters [] 0 0
  pure ⟨layerName, clusterIds, clusters.length, totalRawBytes, totalStoredBytes⟩

/-- The clusters under some ids, up to the first that fails. -/
def getClusters (originId : OriginId) : List ClusterId → WeightProg (List WeightCluster)
  | [] => pure []
  | clusterId :: rest => do
    let cluster ← store.get P originId clusterId
    let clusters ← getClusters originId rest
    pure (cluster :: clusters)

/-- Load all clusters referenced by one layer shard record, in the order of its ids. -/
def getLayerShard (originId : OriginId) (record : LayerShardRecord) :
    WeightProg (List WeightCluster) :=
  store.getClusters P originId record.clusterIds

/-- The loop of `put_multi_layer_shards`: the record of each layer goes behind those before it, and
its totals into the sums. -/
def putLayers (originId : OriginId) :
    List (String × List WeightCluster) → List LayerShardRecord → ℕ → ℕ → ℕ →
      WeightProg (List LayerShardRecord × ℕ × ℕ × ℕ)
  | [], layerRecords, totalClusters, totalRawBytes, totalStoredBytes =>
    pure (layerRecords, totalClusters, totalRawBytes, totalStoredBytes)
  | (layerName, clusters) :: rest, layerRecords, totalClusters, totalRawBytes,
      totalStoredBytes => do
    let record ← store.putLayerShard P originId layerName clusters
    putLayers originId rest (layerRecords ++ [record]) (totalClusters + record.totalClusters)
      (totalRawBytes + record.totalRawBytes) (totalStoredBytes + record.totalStoredBytes)

/-- Store the manifest as a content-addressed blob: written, compressed and encrypted for its
origin, and put unless it is there. -/
def storeMultilayerManifest (originId : OriginId) (manifest : MultiLayerShardManifest) :
    WeightProg BlobId := do
  let raw ← Prog.lift (Outcome.ofExcept .serialization (M.toVec manifest))
  let compressed ← Prog.lift
    (Outcome.ofExcept .compression (store.codec.encode store.compressionLevel raw))
  let toStore ← Prog.lift (store.encrypt originId compressed)
  let blobId := computeBlobId P toStore store.hashAlg
  if ← invoke (.blobHas blobId) then
    pure blobId
  else
    invoke (.blobPut blobId toStore)
    pure blobId

/-- Store a full multi-layer export, in the order of the names of the layers, and its
manifest, at an instant. -/
def putMultiLayerShards (originId : OriginId) (layers : List (String × List WeightCluster))
    (now : OffsetDateTime) : WeightProg MultiLayerStoreStats := do
  let (layerRecords, totalClusters, totalRawBytes, totalStoredBytes) ←
    store.putLayers P originId layers [] 0 0 0
  let manifest : MultiLayerShardManifest := ⟨originId, layerRecords, now⟩
  let manifestBlobId ← store.storeMultilayerManifest P M originId manifest
  pure ⟨manifest, manifestBlobId, totalClusters, totalRawBytes, totalStoredBytes⟩

/-- What is done with the bytes of a manifest blob: they are checked against their id first, and
then decrypted, decompressed and read. -/
def reconstructManifest (originId : OriginId) (blobId : BlobId) (stored : Bytes) :
    Outcome SodlError MultiLayerShardManifest := do
  verifyIntegrity P blobId stored
  let compressed ← store.decrypt originId stored
  let raw ← Outcome.ofExcept .compression (store.codec.decode compressed)
  Outcome.ofExcept .serialization (M.fromSlice raw)

/-- Load a previously stored multi-layer manifest, for an origin that may be another than the one it
was stored for. -/
def loadMultilayerManifest (originId : OriginId) (blobId : BlobId) :
    WeightProg MultiLayerShardManifest := do
  let stored ← invoke (.blobGet blobId)
  Prog.lift (store.reconstructManifest P M originId blobId stored)

/-! ### What a put leaves -/

/-- What is there under an id, if anything, hashes to it. A blob that is missing is intact in this
sense. -/
def Intact (blobs : Table BlobId Bytes) (id : BlobId) : Prop :=
  ∀ data, blobs.lookup id = some data → verifyIntegrity P id data = .ok ()

/-- The blobs after a put, which does not write what is there, whether it is intact or not. -/
def putUnlessThere (blobs : Table BlobId Bytes) (id : BlobId) (bytes : Bytes) :
    Table BlobId Bytes :=
  if (blobs.lookup id).isSome then blobs else blobs.insert id bytes

/-- Blobs are added under their hashes, and stay: none is altered, and none is taken away. -/
structure Grows (blobs blobs' : Table BlobId Bytes) : Prop where
  stays : ∀ {id data}, blobs.lookup id = some data → blobs'.lookup id = some data
  added : ∀ {id data}, blobs'.lookup id = some data →
    blobs.lookup id = some data ∨ verifyIntegrity P id data = .ok ()

/-- Some bytes as they are stored: compressed, and encrypted for an origin if the store has a
cipher. -/
def Seals (originId : OriginId) (raw bytes : Bytes) : Prop :=
  ∃ compressed, store.codec.encode store.compressionLevel raw = .ok compressed ∧
    store.encrypt originId compressed = .ok bytes

/-- The JSON of a cluster, and the bytes that are stored for it. -/
def sealed (originId : OriginId) (cluster : WeightCluster) : Outcome SodlError (Bytes × Bytes) := do
  let raw ← Outcome.ofExcept .serialization (store.codec.toVec cluster)
  let compressed ← Outcome.ofExcept .compression (store.codec.encode store.compressionLevel raw)
  let bytes ← store.encrypt originId compressed
  pure (raw, bytes)

/-- The bytes of a cluster that is stored: those of its JSON, and those that are stored. -/
def sizes (originId : OriginId) (cluster : WeightCluster) : ℕ × ℕ :=
  match store.sealed originId cluster with
  | .ok (raw, bytes) => (raw.length, bytes.length)
  | _ => (0, 0)

variable {P store M} {W : WeightWorld} {originId : OriginId} {s s' : WeightState}
variable {blobs blobs' blobs'' : Table BlobId Bytes}

theorem Grows.refl (blobs : Table BlobId Bytes) : Grows P blobs blobs := ⟨id, Or.inl⟩

theorem Grows.trans (h : Grows P blobs blobs') (h' : Grows P blobs' blobs'') :
    Grows P blobs blobs'' where
  stays hlook := h'.stays (h.stays hlook)
  added hlook := (h'.added hlook).elim h.added Or.inr

/-- What was not intact stays so, and what is added is. -/
theorem Grows.intact_iff (h : Grows P blobs blobs') {id : BlobId} :
    Intact P blobs' id ↔ Intact P blobs id := by
  constructor
  · exact fun hi data hlook => hi data (h.stays hlook)
  · exact fun hi data hlook => (h.added hlook).elim (hi data) fun hok => hok

theorem grows_putUnlessThere (blobs : Table BlobId Bytes) (bytes : Bytes) (alg : HashAlg) :
    Grows P blobs (putUnlessThere blobs (computeBlobId P bytes alg) bytes) := by
  unfold putUnlessThere
  split
  · exact Grows.refl blobs
  · next hnone =>
    have hnone' : blobs.lookup (computeBlobId P bytes alg) = none := by simpa using hnone
    constructor
    · intro id data hlook
      have hne : id ≠ computeBlobId P bytes alg := by
        rintro rfl
        exact absurd (hnone'.symm.trans hlook) nofun
      rw [Table.lookup_insert_ne hne]
      exact hlook
    · intro id data hlook
      rcases Table.lookup_insert_eq_some hlook with ⟨rfl, rfl⟩ | ⟨-, hlook⟩
      · exact Or.inr (verifyIntegrity_computeBlobId bytes alg)
      · exact Or.inl hlook

theorem isSome_lookup_putUnlessThere (blobs : Table BlobId Bytes) (id : BlobId) (bytes : Bytes) :
    ((putUnlessThere blobs id bytes).lookup id).isSome = true := by
  unfold putUnlessThere
  split
  · assumption
  · rw [Table.lookup_insert_self]
    rfl

/-- The two calls of a put, where it went through: whatever the first has answered, the blobs are
those of the put. -/
theorem run_putUnlessThere {α : Type} {f : Bool → α} {id : BlobId} {bytes : Bytes} {a : α}
    (h : Prog.run (weightHandler W) (invoke (.blobHas id) >>= fun had =>
      if had then pure (f had) else invoke (.blobPut id bytes) >>= fun _ => pure (f had)) s =
        (.ok a, s')) :
    (∃ had, a = f had) ∧ s'.blobs = putUnlessThere s.blobs id bytes := by
  obtain ⟨had, s₁, hhas, hrest⟩ := Prog.run_bind_eq_ok h
  rw [Prog.run_perform] at hhas
  have hhas' : had = (s.blobs.lookup id).isSome ∧ s₁.blobs = s.blobs := by
    simp only [weightHandler] at hhas
    split at hhas
    · cases hhas
    · obtain ⟨hhad, rfl⟩ := Prod.mk.inj hhas
      exact ⟨(Outcome.ok.inj hhad).symm, rfl⟩
  obtain ⟨hhad, hblobs⟩ := hhas'
  rw [putUnlessThere, ← hhad]
  cases had with
  | true =>
    obtain ⟨ha, rfl⟩ := Prod.mk.inj hrest
    exact ⟨⟨true, (Outcome.ok.inj ha).symm⟩, hblobs⟩
  | false =>
    obtain ⟨⟨⟩, s₂, hput, hpure⟩ := Prog.run_bind_eq_ok hrest
    obtain ⟨ha, rfl⟩ := Prod.mk.inj hpure
    refine ⟨⟨false, (Outcome.ok.inj ha).symm⟩, ?_⟩
    rw [Prog.run_perform] at hput
    simp only [weightHandler] at hput
    split at hput
    · cases hput
    · obtain ⟨-, rfl⟩ := Prod.mk.inj hput
      rw [← hblobs]
      rfl

/-- A step that only takes an outcome makes no call, and the run goes on with what it gave. -/
theorem run_ofExcept_bind {α β : Type} {f : String → SodlError} {r : Except String α}
    {k : α → WeightProg β} {b : β}
    (h : Prog.run (weightHandler W) (Prog.lift (Outcome.ofExcept f r) >>= k) s = (.ok b, s')) :
    ∃ a, r = .ok a ∧ Prog.run (weightHandler W) (k a) s = (.ok b, s') := by
  cases r with
  | ok a => exact ⟨a, rfl, h⟩
  | error e => exact absurd h nofun

theorem run_lift_bind_eq_ok {α β : Type} {r : Outcome SodlError α} {k : α → WeightProg β} {b : β}
    (h : Prog.run (weightHandler W) (Prog.lift r >>= k) s = (.ok b, s')) :
    ∃ a, r = .ok a ∧ Prog.run (weightHandler W) (k a) s = (.ok b, s') := by
  rw [Prog.run_lift_bind] at h
  cases r with
  | ok a => exact ⟨a, rfl, h⟩
  | err e => exact absurd h nofun
  | panic => exact absurd h nofun

theorem exists_run_eq_ok {α : Type} {prog : WeightProg α}
    (h : (Prog.run (weightHandler W) prog s).1.isOk = true) :
    ∃ a s', Prog.run (weightHandler W) prog s = (.ok a, s') := by
  rcases hrun : Prog.run (weightHandler W) prog s with ⟨a | e | -, s'⟩
  · exact ⟨a, s', rfl⟩
  · rw [hrun] at h
    exact absurd h nofun
  · rw [hrun] at h
    exact absurd h nofun

/-- **What a put of a cluster does**: its bytes are sealed for the origin, and put under the id of
what they were sealed to. -/
theorem put_eq_ok {cluster : WeightCluster} {stats : StoreStats}
    (h : Prog.run (weightHandler W) (store.put P originId cluster) s = (.ok stats, s')) :
    ∃ raw bytes, store.codec.toVec cluster = .ok raw ∧ store.Seals originId raw bytes ∧
      stats.blobId = computeBlobId P bytes store.hashAlg ∧
      (stats.rawBytes, stats.storedBytes) = store.sizes originId cluster ∧
      s'.blobs = putUnlessThere s.blobs stats.blobId bytes := by
  unfold put at h
  obtain ⟨raw, hraw, h⟩ := run_ofExcept_bind h
  obtain ⟨compressed, hcompressed, h⟩ := run_ofExcept_bind h
  obtain ⟨bytes, hbytes, h⟩ := run_lift_bind_eq_ok h
  obtain ⟨⟨had, rfl⟩, hblobs⟩ := run_putUnlessThere h
  have hsealed : store.sealed originId cluster = .ok (raw, bytes) := by
    rw [sealed, hraw, Outcome.ofExcept, Outcome.ok_bind, hcompressed, Outcome.ofExcept,
      Outcome.ok_bind, hbytes]
    rfl
  refine ⟨raw, bytes, hraw, ⟨compressed, hcompressed, hbytes⟩, rfl, ?_, hblobs⟩
  rw [sizes, hsealed]

/-- **What storing a manifest does**, as with a cluster: sealed for the origin, and put under the id
of what it was sealed to. -/
theorem storeMultilayerManifest_eq_ok {manifest : MultiLayerShardManifest} {id : BlobId}
    (h : Prog.run (weightHandler W) (store.storeMultilayerManifest P M originId manifest) s =
      (.ok id, s')) :
    ∃ raw bytes, M.toVec manifest = .ok raw ∧ store.Seals originId raw bytes ∧
      id = computeBlobId P bytes store.hashAlg ∧ s'.blobs = putUnlessThere s.blobs id bytes := by
  unfold storeMultilayerManifest at h
  obtain ⟨raw, hraw, h⟩ := run_ofExcept_bind h
  obtain ⟨compressed, hcompressed, h⟩ := run_ofExcept_bind h
  obtain ⟨bytes, hbytes, h⟩ := run_lift_bind_eq_ok h
  obtain ⟨⟨had, rfl⟩, hblobs⟩ := run_putUnlessThere (f := fun _ => _) h
  exact ⟨raw, bytes, hraw, ⟨compressed, hcompressed, hbytes⟩, rfl, hblobs⟩

/-! ### What is read back -/

/-- What was compressed and encrypted is decrypted and decompressed, by a store whose cipher and
codec belong together. -/
structure Lawful (store : WeightBlobStore) : Prop where
  zstd : ∀ level raw b, store.codec.encode level raw = .ok b → store.codec.decode b = .ok raw
  crypto : ∀ crypto, store.crypto = some crypto → crypto.RoundTrips

theorem Seals.decrypt {raw bytes : Bytes} (h : store.Seals originId raw bytes)
    (hstore : store.Lawful) :
    ∃ compressed, store.decrypt originId bytes = .ok compressed ∧
      store.codec.decode compressed = .ok raw := by
  obtain ⟨compressed, hencode, hencrypt⟩ := h
  refine ⟨compressed, ?_, hstore.zstd _ _ _ hencode⟩
  unfold encrypt at hencrypt
  unfold WeightBlobStore.decrypt
  split at hencrypt
  · next crypto hcrypto => exact hstore.crypto crypto hcrypto _ _ _ hencrypt
  · exact congrArg Outcome.ok (Outcome.ok.inj hencrypt).symm

theorem ofExcept_eq_ok {α : Type} {f : String → SodlError} {r : Except String α} {a : α} :
    Outcome.ofExcept f r = .ok a ↔ r = .ok a := by
  cases r with
  | ok b =>
    rw [Outcome.ofExcept]
    exact ⟨fun h => congrArg Except.ok (Outcome.ok.inj h), fun h => congrArg _ (Except.ok.inj h)⟩
  | error e => exact ⟨fun h => absurd h nofun, fun h => absurd h nofun⟩

variable {ν : Type} {J : SerdeJson ν}

/-- The store writes clusters as JSON, with whatever compression it has. -/
def Writes (store : WeightBlobStore) (J : SerdeJson ν) : Prop :=
  store.codec = J.weightCodec store.codec.encode store.codec.decode

/-- **A cluster is read from a blob** that is what was put, if it is finite. -/
theorem reconstruct_eq_ok_iff (hcf : P.CollisionFree) (hJ : J.RoundTrips) (hstore : store.Lawful)
    (hcodec : store.Writes J)
    {cluster : WeightCluster} {raw bytes : Bytes} (hraw : store.codec.toVec cluster = .ok raw)
    (hseals : store.Seals originId raw bytes) (data : Bytes) :
    store.reconstruct P originId (computeBlobId P bytes store.hashAlg) data = .ok cluster ↔
      verifyIntegrity P (computeBlobId P bytes store.hashAlg) data = .ok () ∧
        cluster.IsFinite := by
  obtain ⟨compressed, hdecrypt, hdecode⟩ := hseals.decrypt hstore
  have hslice : store.codec.fromSlice raw = .ok cluster ↔ cluster.IsFinite := by
    rw [hcodec] at hraw ⊢
    have hread := hJ.value _ _ hraw
    rw [← SerdeJson.clusterFromJson_clusterToJson hJ cluster]
    change J.read raw >>= J.clusterFromJson = _ ↔ _
    rw [hread]
    exact Iff.rfl
  rw [reconstruct]
  cases hverify : verifyIntegrity P (computeBlobId P bytes store.hashAlg) data with
  | ok u =>
    obtain rfl := eq_of_verifyIntegrity hcf hverify
    rw [Outcome.ok_bind, hdecrypt, Outcome.ok_bind, hdecode]
    change Outcome.ofExcept _ (store.codec.fromSlice raw) = _ ↔ _
    rw [ofExcept_eq_ok, hslice]
    exact ⟨fun h => ⟨rfl, h⟩, And.right⟩
  | err e => exact ⟨fun h => absurd h nofun, fun h => absurd h.1 nofun⟩
  | panic => exact ⟨fun h => absurd h nofun, fun h => absurd h.1 nofun⟩

/-- A manifest is read from a blob that is what was put, and from no other: the check of the id
decides. -/
theorem reconstructManifest_eq_ok_iff (hcf : P.CollisionFree) (hM : M.RoundTrips)
    (hstore : store.Lawful) {manifest : MultiLayerShardManifest} {raw bytes : Bytes}
    (hraw : M.toVec manifest = .ok raw) (hseals : store.Seals originId raw bytes) (data : Bytes) :
    store.reconstructManifest P M originId (computeBlobId P bytes store.hashAlg) data =
        .ok manifest ↔
      verifyIntegrity P (computeBlobId P bytes store.hashAlg) data = .ok () := by
  obtain ⟨compressed, hdecrypt, hdecode⟩ := hseals.decrypt hstore
  rw [reconstructManifest]
  cases hverify : verifyIntegrity P (computeBlobId P bytes store.hashAlg) data with
  | ok u =>
    obtain rfl := eq_of_verifyIntegrity hcf hverify
    rw [Outcome.ok_bind, hdecrypt, Outcome.ok_bind, hdecode]
    change Outcome.ofExcept _ (M.fromSlice raw) = _ ↔ _
    rw [ofExcept_eq_ok, hM _ _ hraw]
    exact ⟨fun _ => rfl, fun _ => rfl⟩
  | err e => exact ⟨fun h => absurd h nofun, fun h => absurd h nofun⟩
  | panic => exact ⟨fun h => absurd h nofun, fun h => absurd h nofun⟩

/-- A world that answers every call to the blob store, so that only what is missing fails. -/
def Answers (W : WeightWorld) : Prop := ∀ i, W.fault i = none

theorem run_get (P : Platform) (store : WeightBlobStore) (originId : OriginId) (hW : Answers W)
    {s : WeightState} {id : BlobId} {data : Bytes} (hlook : s.blobs.lookup id = some data) :
    Prog.run (weightHandler W) (store.get P originId id) s =
      (store.reconstruct P originId id data, s.tick) := by
  rw [get, Prog.run_bind, Prog.run_perform]
  simp only [weightHandler, hW s.calls, hlook, Prog.run_lift]

theorem run_loadMultilayerManifest (hW : Answers W) {id : BlobId} {data : Bytes}
    (hlook : s.blobs.lookup id = some data) :
    Prog.run (weightHandler W) (store.loadMultilayerManifest P M originId id) s =
      (store.reconstructManifest P M originId id data, s.tick) := by
  rw [loadMultilayerManifest, Prog.run_bind, Prog.run_perform]
  simp only [weightHandler, hW s.calls, hlook, Prog.run_lift]

/-- The clusters of a layer are read one by one, and all of them come back exactly if each does. -/
theorem run_getClusters_iff (hW : Answers W) {ids : List ClusterId} {clusters : List WeightCluster}
    {s : WeightState} (hthere : ∀ id ∈ ids, (s.blobs.lookup id).isSome = true) :
    (Prog.run (weightHandler W) (store.getClusters P originId ids) s).1 = .ok clusters ↔
      List.Forall₂ (fun cluster id => ∃ data, s.blobs.lookup id = some data ∧
        store.reconstruct P originId id data = .ok cluster) clusters ids := by
  induction ids generalizing clusters s with
  | nil =>
    rw [getClusters, List.forall₂_nil_right_iff]
    exact ⟨fun h => (Outcome.ok.inj h).symm, fun h => congrArg Outcome.ok h.symm⟩
  | cons id ids ih =>
    obtain ⟨data, hlook⟩ := Option.isSome_iff_exists.mp (hthere id (List.mem_cons_self ..))
    have hrest : ∀ {cs}, (Prog.run (weightHandler W) (store.getClusters P originId ids) s.tick).1 =
        .ok cs ↔ List.Forall₂ (fun cluster id => ∃ data, s.blobs.lookup id = some data ∧
          store.reconstruct P originId id data = .ok cluster) cs ids :=
      ih fun i hi => hthere i (List.mem_cons_of_mem _ hi)
    constructor
    · intro h
      obtain ⟨cluster, s₁, hget, htail⟩ := Prog.run_bind_eq_ok (Prod.ext h rfl)
      rw [run_get P store originId hW hlook] at hget
      obtain ⟨hread, rfl⟩ := Prod.mk.inj hget
      obtain ⟨cs, s₂, hcs, hpure⟩ := Prog.run_bind_eq_ok htail
      obtain rfl := Outcome.ok.inj (Prod.mk.inj hpure).1
      exact .cons ⟨data, hlook, hread⟩ (hrest.mp (congrArg Prod.fst hcs))
    · intro h
      cases h with
      | cons hfirst hothers =>
        obtain ⟨data', hlook', hread⟩ := hfirst
        obtain rfl := Option.some.inj (hlook.symm.trans hlook')
        have hget := run_get P store originId hW hlook
        rw [hread] at hget
        rw [getClusters, Prog.run_bind_ok hget, Prog.run_bind_pure, hrest.mpr hothers]
        rfl

/-! ### Layer by layer -/

/-- A cluster was stored under an id: something is there under the hash of what it was sealed to. -/
def StoredAs (P : Platform) (store : WeightBlobStore) (originId : OriginId)
    (blobs : Table BlobId Bytes) (cluster : WeightCluster) (id : BlobId) : Prop :=
  ∃ raw bytes, store.codec.toVec cluster = .ok raw ∧ store.Seals originId raw bytes ∧
    id = computeBlobId P bytes store.hashAlg ∧ (blobs.lookup id).isSome = true

/-- What was stored stays stored while blobs are added. -/
theorem StoredAs.grows {cluster : WeightCluster} {id : BlobId}
    (h : StoredAs P store originId blobs cluster id) (hgrows : Grows P blobs blobs') :
    StoredAs P store originId blobs' cluster id := by
  obtain ⟨raw, bytes, hraw, hseals, hid, hthere⟩ := h
  obtain ⟨data, hdata⟩ := Option.isSome_iff_exists.mp hthere
  exact ⟨raw, bytes, hraw, hseals, hid, Option.isSome_iff_exists.mpr ⟨data, hgrows.stays hdata⟩⟩

/-- A put stores its cluster, gives its sizes, and lets the blobs grow. -/
theorem put_spec {cluster : WeightCluster} {stats : StoreStats}
    (h : Prog.run (weightHandler W) (store.put P originId cluster) s = (.ok stats, s')) :
    StoredAs P store originId s'.blobs cluster stats.blobId ∧
      (stats.rawBytes, stats.storedBytes) = store.sizes originId cluster ∧
      Grows P s.blobs s'.blobs := by
  obtain ⟨raw, bytes, hraw, hseals, hid, hsizes, hblobs⟩ := put_eq_ok h
  rw [hblobs]
  refine ⟨⟨raw, bytes, hraw, hseals, hid, isSome_lookup_putUnlessThere ..⟩, hsizes, ?_⟩
  rw [hid]
  exact grows_putUnlessThere ..

/-- **The loop over the clusters** adds an id for each, in order, and the sizes of all of them. -/
theorem putClusters_spec {clusters : List WeightCluster} {ids all : List ClusterId}
    {raw stored raw' stored' : ℕ} {s s' : WeightState}
    (h : Prog.run (weightHandler W) (store.putClusters P originId clusters ids raw stored) s =
      (.ok (all, raw', stored'), s')) :
    (∃ new, all = ids ++ new ∧
        List.Forall₂ (StoredAs P store originId s'.blobs) clusters new) ∧
      raw' = raw + (clusters.map fun c => (store.sizes originId c).1).sum ∧
      stored' = stored + (clusters.map fun c => (store.sizes originId c).2).sum ∧
      Grows P s.blobs s'.blobs := by
  induction clusters generalizing ids raw stored s with
  | nil =>
    obtain ⟨hall, rfl⟩ := Prod.mk.inj h
    obtain ⟨rfl, hbytes⟩ := Prod.mk.inj (Outcome.ok.inj hall)
    obtain ⟨rfl, rfl⟩ := Prod.mk.inj hbytes
    exact ⟨⟨[], (List.append_nil _).symm, .nil⟩, rfl, rfl, Grows.refl _⟩
  | cons cluster clusters ih =>
    obtain ⟨stats, s₁, hput, hrest⟩ := Prog.run_bind_eq_ok h
    obtain ⟨hstored, hsizes, hgrows⟩ := put_spec hput
    obtain ⟨⟨new, hall, hnew⟩, hraw, hbytes, hgrows'⟩ := ih hrest
    refine ⟨⟨stats.blobId :: new, ?_, .cons (hstored.grows hgrows') hnew⟩, ?_, ?_,
      hgrows.trans hgrows'⟩
    · rw [hall, List.append_assoc, List.singleton_append]
    · rw [hraw, List.map_cons, List.sum_cons, ← hsizes, Nat.add_assoc]
    · rw [hbytes, List.map_cons, List.sum_cons, ← hsizes, Nat.add_assoc]

/-- A record is that of a layer whose clusters were stored: its name, its ids one for each cluster,
and its sums. -/
structure RecordOf (P : Platform) (store : WeightBlobStore) (originId : OriginId)
    (blobs : Table BlobId Bytes) (layer : String × List WeightCluster)
    (record : LayerShardRecord) : Prop where
  name : record.layerName = layer.1
  total : record.totalClusters = layer.2.length
  raw : record.totalRawBytes = (layer.2.map fun c => (store.sizes originId c).1).sum
  bytes : record.totalStoredBytes = (layer.2.map fun c => (store.sizes originId c).2).sum
  stored : List.Forall₂ (StoredAs P store originId blobs) layer.2 record.clusterIds

/-- The record of a layer stays right while blobs are added. -/
theorem RecordOf.grows {layer : String × List WeightCluster} {record : LayerShardRecord}
    (h : RecordOf P store originId blobs layer record) (hgrows : Grows P blobs blobs') :
    RecordOf P store originId blobs' layer record where
  name := h.name
  total := h.total
  raw := h.raw
  bytes := h.bytes
  stored := h.stored.imp fun _ _ hs => hs.grows hgrows

/-- **Storing a layer** returns its record, and adds blobs only under their hashes. -/
theorem putLayerShard_spec {layerName : String} {clusters : List WeightCluster}
    {record : LayerShardRecord}
    (h : Prog.run (weightHandler W) (store.putLayerShard P originId layerName clusters) s =
      (.ok record, s')) :
    RecordOf P store originId s'.blobs (layerName, clusters) record ∧
      Grows P s.blobs s'.blobs := by
  obtain ⟨⟨all, raw, stored⟩, s₁, hput, hpure⟩ := Prog.run_bind_eq_ok h
  obtain ⟨hrecord, rfl⟩ := Prod.mk.inj hpure
  obtain rfl := Outcome.ok.inj hrecord
  obtain ⟨⟨new, hall, hnew⟩, hraw, hbytes, hgrows⟩ := putClusters_spec hput
  rw [List.nil_append] at hall
  rw [Nat.zero_add] at hraw hbytes
  exact ⟨⟨rfl, rfl, hraw, hbytes, hall ▸ hnew⟩, hgrows⟩

/-- **The loop over the layers** makes a record for each, and sums up what the records say. -/
theorem putLayers_spec {layers : List (String × List WeightCluster)}
    {records all : List LayerShardRecord} {n raw stored n' raw' stored' : ℕ} {s s' : WeightState}
    (h : Prog.run (weightHandler W) (store.putLayers P originId layers records n raw stored) s =
      (.ok (all, n', raw', stored'), s')) :
    ∃ new, all = records ++ new ∧ List.Forall₂ (RecordOf P store originId s'.blobs) layers new ∧
      n' = n + (new.map (·.totalClusters)).sum ∧ raw' = raw + (new.map (·.totalRawBytes)).sum ∧
      stored' = stored + (new.map (·.totalStoredBytes)).sum ∧ Grows P s.blobs s'.blobs := by
  induction layers generalizing records n raw stored s with
  | nil =>
    obtain ⟨hall, rfl⟩ := Prod.mk.inj h
    obtain ⟨rfl, hcounts⟩ := Prod.mk.inj (Outcome.ok.inj hall)
    obtain ⟨rfl, hbytes⟩ := Prod.mk.inj hcounts
    obtain ⟨rfl, rfl⟩ := Prod.mk.inj hbytes
    exact ⟨[], (List.append_nil _).symm, .nil, rfl, rfl, rfl, Grows.refl _⟩
  | cons layer layers ih =>
    obtain ⟨record, s₁, hput, hrest⟩ := Prog.run_bind_eq_ok h
    obtain ⟨hrecord, hgrows⟩ := putLayerShard_spec hput
    obtain ⟨new, hall, hnew, hn, hraw, hstored, hgrows'⟩ := ih hrest
    refine ⟨record :: new, ?_, .cons (hrecord.grows hgrows') hnew, ?_, ?_, ?_,
      hgrows.trans hgrows'⟩
    · rw [hall, List.append_assoc, List.singleton_append]
    · rw [hn, List.map_cons, List.sum_cons, Nat.add_assoc]
    · rw [hraw, List.map_cons, List.sum_cons, Nat.add_assoc]
    · rw [hstored, List.map_cons, List.sum_cons, Nat.add_assoc]

/-- A cluster that was stored is read back exactly if its numbers are finite and its blob is
intact. -/
theorem StoredAs.read_iff (hcf : P.CollisionFree) (hJ : J.RoundTrips) (hstore : store.Lawful)
    (hcodec : store.Writes J) {cluster : WeightCluster} {id : BlobId}
    (h : StoredAs P store originId blobs cluster id) :
    (∃ data, blobs.lookup id = some data ∧ store.reconstruct P originId id data = .ok cluster) ↔
      cluster.IsFinite ∧ Intact P blobs id := by
  obtain ⟨raw, bytes, hraw, hseals, rfl, hthere⟩ := h
  obtain ⟨data, hlook⟩ := Option.isSome_iff_exists.mp hthere
  have hiff := reconstruct_eq_ok_iff hcf hJ hstore hcodec hraw hseals
  constructor
  · rintro ⟨data', hlook', hread⟩
    obtain ⟨hverify, hfinite⟩ := (hiff data').mp hread
    refine ⟨hfinite, fun d hd => ?_⟩
    obtain rfl := Option.some.inj (hlook'.symm.trans hd)
    exact hverify
  · rintro ⟨hfinite, hintact⟩
    exact ⟨data, hlook, (hiff data).mpr ⟨hintact data hlook, hfinite⟩⟩

/-- Clusters that were stored are all read back exactly if all are finite and all their blobs
intact. -/
theorem forall₂_read_iff (hcf : P.CollisionFree) (hJ : J.RoundTrips) (hstore : store.Lawful)
    (hcodec : store.Writes J) {clusters : List WeightCluster} {ids : List ClusterId}
    (h : List.Forall₂ (StoredAs P store originId blobs) clusters ids) :
    List.Forall₂ (fun cluster id => ∃ data, blobs.lookup id = some data ∧
        store.reconstruct P originId id data = .ok cluster) clusters ids ↔
      (∀ cluster ∈ clusters, cluster.IsFinite) ∧ ∀ id ∈ ids, Intact P blobs id := by
  induction h with
  | nil =>
    exact ⟨fun _ => ⟨fun _ h => absurd h List.not_mem_nil, fun _ h => absurd h List.not_mem_nil⟩,
      fun _ => .nil⟩
  | cons hfirst _ ih =>
    rw [List.forall₂_cons, ih, hfirst.read_iff hcf hJ hstore hcodec, List.forall_mem_cons,
      List.forall_mem_cons, and_and_and_comm]

theorem isSome_of_stored {clusters : List WeightCluster} {ids : List ClusterId}
    (h : List.Forall₂ (StoredAs P store originId blobs) clusters ids) :
    ∀ id ∈ ids, (blobs.lookup id).isSome = true := by
  induction h with
  | nil => exact fun _ h => absurd h List.not_mem_nil
  | cons hfirst _ ih =>
    obtain ⟨-, -, -, -, -, hthere⟩ := hfirst
    exact List.forall_mem_cons.mpr ⟨hthere, ih⟩

/-- The shard of a layer is read back exactly if its clusters are finite and its blobs
intact. -/
theorem RecordOf.getLayerShard_iff (hcf : P.CollisionFree) (hJ : J.RoundTrips)
    (hstore : store.Lawful) (hcodec : store.Writes J) (hW : Answers W)
    {layer : String × List WeightCluster} {record : LayerShardRecord}
    (h : RecordOf P store originId s.blobs layer record) :
    (Prog.run (weightHandler W) (store.getLayerShard P originId record) s).1 = .ok layer.2 ↔
      (∀ cluster ∈ layer.2, cluster.IsFinite) ∧ ∀ id ∈ record.clusterIds, Intact P s.blobs id := by
  rw [getLayerShard, run_getClusters_iff hW (isSome_of_stored h.stored),
    forall₂_read_iff hcf hJ hstore hcodec h.stored]

/-- The shards of the layers, one with each record, come back exactly under the same two
conditions. -/
theorem getLayerShards_iff (hcf : P.CollisionFree) (hJ : J.RoundTrips) (hstore : store.Lawful)
    (hcodec : store.Writes J) (hW : Answers W) {layers : List (String × List WeightCluster)}
    {records : List LayerShardRecord}
    (h : List.Forall₂ (RecordOf P store originId s.blobs) layers records) :
    List.Forall₂ (fun layer record =>
        (Prog.run (weightHandler W) (store.getLayerShard P originId record) s).1 = .ok layer.2)
        layers records ↔
      (∀ layer ∈ layers, ∀ cluster ∈ layer.2, cluster.IsFinite) ∧
        ∀ id ∈ records.flatMap (·.clusterIds), Intact P s.blobs id := by
  induction h with
  | nil =>
    exact ⟨fun _ => ⟨fun _ h => absurd h List.not_mem_nil, fun _ h => absurd h List.not_mem_nil⟩,
      fun _ => .nil⟩
  | cons hfirst _ ih =>
    rw [List.forall₂_cons, ih, hfirst.getLayerShard_iff hcf hJ hstore hcodec hW,
      List.forall_mem_cons, List.flatMap_cons, List.forall_mem_append, and_and_and_comm]

/-- There is a record for each layer, with its name and the sums over its clusters, and the totals
are the sums over the records. -/
structure SumsUp (store : WeightBlobStore) (originId : OriginId)
    (layers : List (String × List WeightCluster)) (stats : MultiLayerStoreStats) : Prop where
  layerNames : stats.manifest.layers.map (·.layerName) = layers.map Prod.fst
  layerClusters : stats.manifest.layers.map (·.totalClusters) =
    layers.map fun layer => layer.2.length
  layerRaw : stats.manifest.layers.map (·.totalRawBytes) =
    layers.map fun layer => (layer.2.map fun c => (store.sizes originId c).1).sum
  layerStored : stats.manifest.layers.map (·.totalStoredBytes) =
    layers.map fun layer => (layer.2.map fun c => (store.sizes originId c).2).sum
  clusters : stats.totalClusters = (stats.manifest.layers.map (·.totalClusters)).sum
  raw : stats.totalRawBytes = (stats.manifest.layers.map (·.totalRawBytes)).sum
  stored : stats.totalStoredBytes = (stats.manifest.layers.map (·.totalStoredBytes)).sum

/-- The manifest is loaded as it was stored, and with the record of each layer its clusters. -/
def LoadsBack (P : Platform) (store : WeightBlobStore) (M : ManifestCodec) (originId : OriginId)
    (W : WeightWorld) (s : WeightState) (layers : List (String × List WeightCluster))
    (stats : MultiLayerStoreStats) : Prop :=
  (Prog.run (weightHandler W)
      (store.loadMultilayerManifest P M originId stats.manifestBlobId) s).1 =
    .ok stats.manifest ∧
  List.Forall₂ (fun layer record =>
    (Prog.run (weightHandler W) (store.getLayerShard P originId record) s).1 = .ok layer.2)
    layers stats.manifest.layers

/-- The blobs a manifest stands for, and its own behind them. -/
def blobIds (stats : MultiLayerStoreStats) : List BlobId :=
  stats.manifest.layers.flatMap (·.clusterIds) ++ [stats.manifestBlobId]

theorem map_of_recordOf {layers : List (String × List WeightCluster)}
    {records : List LayerShardRecord}
    (h : List.Forall₂ (RecordOf P store originId blobs) layers records) :
    records.map (·.layerName) = layers.map Prod.fst ∧
      records.map (·.totalClusters) = layers.map (fun layer => layer.2.length) ∧
      records.map (·.totalRawBytes) =
        layers.map (fun layer => (layer.2.map fun c => (store.sizes originId c).1).sum) ∧
      records.map (·.totalStoredBytes) =
        layers.map fun layer => (layer.2.map fun c => (store.sizes originId c).2).sum := by
  induction h with
  | nil => exact ⟨rfl, rfl, rfl, rfl⟩
  | cons hfirst _ ih =>
    obtain ⟨hnames, htotals, hraw, hbytes⟩ := ih
    exact ⟨congrArg₂ List.cons hfirst.name hnames, congrArg₂ List.cons hfirst.total htotals,
      congrArg₂ List.cons hfirst.raw hraw, congrArg₂ List.cons hfirst.bytes hbytes⟩

/-- **What storing the layers does**: a record for each of them, a manifest that is stored behind
them, and sums over all. -/
theorem putMultiLayerShards_spec {layers : List (String × List WeightCluster)}
    {now : OffsetDateTime} {stats : MultiLayerStoreStats}
    (h : Prog.run (weightHandler W) (store.putMultiLayerShards P M originId layers now) s =
      (.ok stats, s')) :
    List.Forall₂ (RecordOf P store originId s'.blobs) layers stats.manifest.layers ∧
      (∃ raw bytes, M.toVec stats.manifest = .ok raw ∧ store.Seals originId raw bytes ∧
        stats.manifestBlobId = computeBlobId P bytes store.hashAlg ∧
        (s'.blobs.lookup stats.manifestBlobId).isSome = true) ∧
      SumsUp store originId layers stats ∧ Grows P s.blobs s'.blobs := by
  obtain ⟨⟨records, n, raw, stored⟩, s₁, hput, hrest⟩ := Prog.run_bind_eq_ok h
  obtain ⟨id, s₂, hmanifest, hpure⟩ := Prog.run_bind_eq_ok hrest
  obtain ⟨hstats, rfl⟩ := Prod.mk.inj hpure
  obtain rfl := Outcome.ok.inj hstats
  obtain ⟨new, hall, hnew, hn, hraw, hstored, hgrows⟩ := putLayers_spec hput
  rw [List.nil_append] at hall
  subst hall
  obtain ⟨rawManifest, bytes, hvec, hseals, hid, hblobs⟩ := storeMultilayerManifest_eq_ok hmanifest
  have hgrows' : Grows P s₁.blobs s₂.blobs := by
    rw [hblobs, hid]
    exact grows_putUnlessThere ..
  obtain ⟨hnames, htotals, hraws, hbytes⟩ := map_of_recordOf hnew
  refine ⟨hnew.imp fun _ _ hr => hr.grows hgrows', ⟨rawManifest, bytes, hvec, hseals, hid, ?_⟩,
    ⟨hnames, htotals, hraws, hbytes, ?_, ?_, ?_⟩, hgrows.trans hgrows'⟩
  · rw [hblobs]
    exact isSome_lookup_putUnlessThere ..
  · rw [hn, Nat.zero_add]
  · rw [hraw, Nat.zero_add]
  · rw [hstored, Nat.zero_add]

/-- The manifest is loaded exactly if its blob is intact, whatever has become of the clusters. -/
theorem loadMultilayerManifest_iff (hcf : P.CollisionFree) (hM : M.RoundTrips)
    (hstore : store.Lawful) (hW : Answers W) {manifest : MultiLayerShardManifest} {id : BlobId}
    (h : ∃ raw bytes, M.toVec manifest = .ok raw ∧ store.Seals originId raw bytes ∧
      id = computeBlobId P bytes store.hashAlg ∧ (s.blobs.lookup id).isSome = true) :
    (Prog.run (weightHandler W) (store.loadMultilayerManifest P M originId id) s).1 =
        .ok manifest ↔ Intact P s.blobs id := by
  obtain ⟨raw, bytes, hraw, hseals, rfl, hthere⟩ := h
  obtain ⟨data, hlook⟩ := Option.isSome_iff_exists.mp hthere
  rw [run_loadMultilayerManifest hW hlook,
    reconstructManifest_eq_ok_iff hcf hM hstore hraw hseals data]
  constructor
  · intro hverify d hd
    obtain rfl := Option.some.inj (hlook.symm.trans hd)
    exact hverify
  · exact fun hintact => hintact data hlook

/-- A cluster that was stored is read back exactly if it is finite and its blob intact. -/
theorem StoredAs.get_iff (hcf : P.CollisionFree) (hJ : J.RoundTrips) (hstore : store.Lawful)
    (hcodec : store.Writes J) (hW : Answers W) {cluster : WeightCluster} {id : BlobId}
    (h : StoredAs P store originId s.blobs cluster id) :
    (Prog.run (weightHandler W) (store.get P originId id) s).1 = .ok cluster ↔
      cluster.IsFinite ∧ Intact P s.blobs id := by
  rw [← h.read_iff hcf hJ hstore hcodec]
  obtain ⟨-, -, -, -, -, hthere⟩ := h
  obtain ⟨data, hlook⟩ := Option.isSome_iff_exists.mp hthere
  rw [run_get P store originId hW hlook]
  constructor
  · exact fun hread => ⟨data, hlook, hread⟩
  · rintro ⟨data', hlook', hread⟩
    obtain rfl := Option.some.inj (hlook.symm.trans hlook')
    exact hread

end WeightBlobStore

open WeightBlobStore

/-- **What was stored is read back if it is finite.** If `put` returned, `get` gives the cluster
exactly if its numbers are finite and there was nothing else under its id. If
`put_multi_layer_shards` returned, the manifest and the layers are loaded as they were stored
exactly if all the numbers are finite and there was nothing else under one of the ids; the totals
add up either way. -/
theorem weightShards_loadBack_iff {P : Platform} {store : WeightBlobStore} {M : ManifestCodec}
    {ν : Type} {J : SerdeJson ν} (hcf : P.CollisionFree) (hJ : J.RoundTrips) (hM : M.RoundTrips)
    (hstore : store.Lawful) (hcodec : store.Writes J) (originId : OriginId) (W : WeightWorld)
    (s : WeightState) :
    (∀ cluster stats s', Prog.run (weightHandler W) (store.put P originId cluster) s =
        (.ok stats, s') → ∀ W', Answers W' →
      ((Prog.run (weightHandler W') (store.get P originId stats.blobId) s').1 = .ok cluster ↔
        cluster.IsFinite ∧ Intact P s.blobs stats.blobId)) ∧
    ∀ layers now stats s', Prog.run (weightHandler W)
        (store.putMultiLayerShards P M originId layers now) s = (.ok stats, s') →
      SumsUp store originId layers stats ∧ ∀ W', Answers W' →
        (LoadsBack P store M originId W' s' layers stats ↔
          (∀ layer ∈ layers, ∀ cluster ∈ layer.2, cluster.IsFinite) ∧
            ∀ id ∈ blobIds stats, Intact P s.blobs id) := by
  constructor
  · intro cluster stats s' h W' hW'
    obtain ⟨hstored, -, hgrows⟩ := put_spec h
    rw [hstored.get_iff hcf hJ hstore hcodec hW', hgrows.intact_iff]
  · intro layers now stats s' h
    obtain ⟨hrecords, hmanifest, hsums, hgrows⟩ := putMultiLayerShards_spec h
    refine ⟨hsums, fun W' hW' => ?_⟩
    have hintact : ∀ ids : List BlobId,
        (∀ id ∈ ids, Intact P s'.blobs id) ↔ ∀ id ∈ ids, Intact P s.blobs id :=
      fun ids => forall₂_congr fun _ _ => hgrows.intact_iff
    rw [LoadsBack, loadMultilayerManifest_iff hcf hM hstore hW' hmanifest,
      getLayerShards_iff hcf hJ hstore hcodec hW' hrecords, blobIds, List.forall_mem_append,
      hintact, hgrows.intact_iff, List.forall_mem_singleton]
    constructor
    · exact fun ⟨hid, hfinite, hids⟩ => ⟨hfinite, hids, hid⟩
    · exact fun ⟨hfinite, hids, hid⟩ => ⟨hid, hfinite, hids⟩

/-! ### A store to compute with -/

namespace Sample

/-- Numbers of clusters, as they are given: singles by their bits, and the integers. -/
abbrev ClusterNumber := F32 ⊕ ℕ

/-- The text of a cluster of one number, as `serde_json` writes it. -/
def scalarText (x : String) : Bytes :=
  ascii ("\x7b\"cluster_id\":null,\"centroid\":[" ++ x ++
    "],\"member_token_ids\":[],\"offsets\":[],\"dim\":1\x7d")

def scalarCluster (bits : UInt32) : WeightCluster := ⟨none, [⟨bits⟩], [], [], 1⟩

/-- Writes the cluster of the number one, and clusters of a number that is not finite. -/
def writeScalar : JsonTree ClusterNumber → Except String Bytes
  | .obj [("cluster_id", .null), ("centroid", .arr [x]), ("member_token_ids", .arr []),
      ("offsets", .arr []), ("dim", .num (.inr 1))] =>
    match x with
    | .null => .ok (scalarText "null")
    | .num (.inl x) => if x = ⟨0x3F800000⟩ then .ok (scalarText "1.0") else .error "unknown"
    | _ => .error "unknown"
  | _ => .error "unknown"

def scalarFields (x : JsonTree ClusterNumber) : JsonTree ClusterNumber :=
  .obj [("cluster_id", .null), ("centroid", .arr [x]), ("member_token_ids", .arr []),
    ("offsets", .arr []), ("dim", .num (.inr 1))]

def serdeJson : SerdeJson ClusterNumber where
  single := .inl
  readSingle
    | .inl x => .ok x
    | .inr _ => .error "invalid number"
  u32 n := .inr n.toNat
  readU32
    | .inr n => .ok (UInt32.ofNat n)
    | .inl _ => .error "invalid number"
  usize := .inr
  readUsize
    | .inr n => .ok n
    | .inl _ => .error "invalid number"
  invalidType _ expected := "invalid type, expected " ++ expected
  write := writeScalar
  read b :=
    if b = scalarText "null" then .ok (scalarFields .null)
    else if b = scalarText "1.0" then .ok (scalarFields (.num (.inl ⟨0x3F800000⟩)))
    else .error "expected value"

theorem serdeJson_roundTrips : serdeJson.RoundTrips where
  single x _ := rfl
  u32 n := congrArg Except.ok UInt32.ofNat_toNat
  usize n := rfl
  value v b h := by
    change writeScalar v = .ok b at h
    unfold writeScalar at h
    split at h
    · split at h
      · obtain rfl := Except.ok.inj h
        rfl
      · split at h
        · next hx =>
          obtain rfl := Except.ok.inj h
          rw [hx]
          rfl
        · exact absurd h nofun
      · exact absurd h nofun
    · exact absurd h nofun

/-- A store whose encoder and whose cipher leave the bytes as they are. -/
def shardStore : WeightBlobStore where
  codec := serdeJson.weightCodec (fun _ b => .ok b) .ok
  crypto := some nullCrypto
  hashAlg := .blake3
  compressionLevel := 3

theorem shardStore_lawful : shardStore.Lawful where
  zstd _ _ _ h := congrArg Except.ok (Except.ok.inj h).symm
  crypto c h := by
    obtain rfl := Option.some.inj h
    exact nullCrypto_roundTrips

def shardLayers : List (String × List WeightCluster) := [("a", [scalarCluster 0x3F800000])]

/-- The manifest of a layer with a cluster, as the store makes it at the instant zero. -/
def shardManifest : MultiLayerShardManifest where
  originId := ⟨⟨Vector.replicate 16 0⟩⟩
  layers := [⟨"a", [computeBlobId samplePlatform (scalarText "1.0") .blake3], 1,
    (scalarText "1.0").length, (scalarText "1.0").length⟩]
  createdAt := 0

/-- A codec that knows one manifest. -/
def shardManifestCodec : ManifestCodec where
  toVec m := if m = shardManifest then .ok [42] else .error "unknown"
  fromSlice b := if b = [42] then .ok shardManifest else .error "expected value"

theorem shardManifestCodec_roundTrips : shardManifestCodec.RoundTrips := by
  intro m b h
  change (if m = shardManifest then _ else _) = _ at h
  split at h
  · next hm =>
    obtain rfl := Except.ok.inj h
    rw [hm]
    rfl
  · exact absurd h nofun

/-- Nothing is there before: no entries, no counts and no blobs. -/
def noBlobs : WeightState := ⟨∅, ∅, ∅, 0⟩

theorem intact_noBlobs (id : BlobId) : Intact samplePlatform noBlobs.blobs id :=
  fun _ h => absurd ((Table.lookup_empty id).symm.trans h) nofun

end Sample

/-- A cluster and a layer with it, read back from the store that they were put into. -/
theorem weightShards_loadBack_scalar :
    (∃ stats s', Prog.run (weightHandler sampleWorld) (Sample.shardStore.put samplePlatform
        ⟨⟨Vector.replicate 16 0⟩⟩ (Sample.scalarCluster 0x3F800000)) Sample.noBlobs =
          (.ok stats, s') ∧
      (Prog.run (weightHandler sampleWorld) (Sample.shardStore.get samplePlatform
        ⟨⟨Vector.replicate 16 0⟩⟩ stats.blobId) s').1 = .ok (Sample.scalarCluster 0x3F800000)) ∧
    ∃ stats s', Prog.run (weightHandler sampleWorld) (Sample.shardStore.putMultiLayerShards
        samplePlatform Sample.shardManifestCodec ⟨⟨Vector.replicate 16 0⟩⟩ Sample.shardLayers 0)
          Sample.noBlobs = (.ok stats, s') ∧
      SumsUp Sample.shardStore ⟨⟨Vector.replicate 16 0⟩⟩ Sample.shardLayers stats ∧
      LoadsBack samplePlatform Sample.shardStore Sample.shardManifestCodec
        ⟨⟨Vector.replicate 16 0⟩⟩ sampleWorld s' Sample.shardLayers stats := by
  have hback := weightShards_loadBack_iff samplePlatform_collisionFree Sample.serdeJson_roundTrips
    Sample.shardManifestCodec_roundTrips Sample.shardStore_lawful rfl
    ⟨⟨Vector.replicate 16 0⟩⟩ sampleWorld Sample.noBlobs
  have hanswers : Answers sampleWorld := fun _ => rfl
  constructor
  · exact ⟨_, _, rfl, (hback.1 _ _ _ rfl _ hanswers).mpr ⟨by decide, Sample.intact_noBlobs _⟩⟩
  · have hput : (Prog.run (weightHandler sampleWorld) (Sample.shardStore.putMultiLayerShards
        samplePlatform Sample.shardManifestCodec ⟨⟨Vector.replicate 16 0⟩⟩ Sample.shardLayers 0)
        Sample.noBlobs).1.isOk := by
      decide +kernel
    obtain ⟨stats, s', hrun⟩ := exists_run_eq_ok hput
    obtain ⟨hsums, hloads⟩ := hback.2 _ _ _ _ hrun
    exact ⟨stats, s', hrun, hsums, (hloads _ hanswers).mpr
      ⟨by decide, fun id _ => Sample.intact_noBlobs id⟩⟩

/-- **Stored, and not read**: a cluster with a number that is not one. -/
theorem weightShards_notReadBack :
    (samplePlatform.CollisionFree ∧ Sample.serdeJson.RoundTrips ∧ Sample.shardStore.Lawful) ∧
    ∃ stats s', Prog.run (weightHandler sampleWorld) (Sample.shardStore.put samplePlatform
        ⟨⟨Vector.replicate 16 0⟩⟩ (Sample.scalarCluster 0x7FC00000)) Sample.noBlobs =
          (.ok stats, s') ∧
      (Prog.run (weightHandler sampleWorld) (Sample.shardStore.get samplePlatform
        ⟨⟨Vector.replicate 16 0⟩⟩ stats.blobId) s').1 =
          .err (.serialization "invalid type, expected f32") := by
  refine ⟨⟨samplePlatform_collisionFree, Sample.serdeJson_roundTrips, Sample.shardStore_lawful⟩,
    _, _, rfl, ?_⟩
  rw [WeightBlobStore.run_get samplePlatform Sample.shardStore _ (fun _ => rfl)
      (Table.lookup_insert_self ..),
    reconstruct, verifyIntegrity_computeBlobId]
  rfl

end Sodl
