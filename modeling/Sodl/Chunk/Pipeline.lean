import Sodl.Cas
import Sodl.Chunk.Chunker
import Sodl.Stores

/-!
# The chunk pipeline

Writing a payload, whole or in chunks (`crates/sodl-chunk/src/lib.rs`). A payload
longer than the inline threshold is split, every chunk becomes a blob, and a
manifest of the chunks becomes the root blob; a shorter one is its own root blob.

What the writer leaves behind is a function of the payload alone, so it is
stated without the stores: `Sodl.layout` is the result together with the list of
writes, and `Sodl.run_chunkAndStore` says that running the writer performs
exactly these writes.
-/

namespace Sodl

open Effect

/-! ### Configuration -/

/-- Configuration for the chunked upload pipeline. -/
structure ChunkPipelineConfig where
  /-- Payloads smaller than this are stored as a single blob. -/
  inlineThreshold : UInt64
  /-- Chunker to use above the threshold, `FastCdcChunker::default()` if `none`. -/
  chunker : Option Chunker

namespace ChunkPipelineConfig

/-- `ChunkPipelineConfig::default`: a threshold of 256 KiB. -/
def default : ChunkPipelineConfig := ⟨256 * 1024, none⟩

/-- The chunker in force. -/
def effectiveChunker (cfg : ChunkPipelineConfig) : Chunker :=
  cfg.chunker.getD FastCdcChunker.default.chunk

/-- Whether a payload is stored as a single blob. -/
def Inlines (cfg : ChunkPipelineConfig) (data : Bytes) : Prop :=
  UInt64.ofNat data.length ≤ cfg.inlineThreshold

instance (cfg : ChunkPipelineConfig) (data : Bytes) : Decidable (cfg.Inlines data) :=
  inferInstanceAs (Decidable (UInt64.ofNat data.length ≤ cfg.inlineThreshold))

end ChunkPipelineConfig

/-- Result of a chunked upload. -/
structure ChunkedUploadResult where
  /-- The single blob, or the blob holding the serialized manifest. -/
  rootBlob : BlobId
  /-- All chunk blobs (empty if inlined). -/
  chunkBlobs : List BlobId
  /-- Total payload size in bytes. -/
  totalSize : UInt64
  /-- Whether chunking was actually applied. -/
  chunked : Bool
  deriving DecidableEq

/-! ### Writing -/

variable (P : Platform)

/-- The manifest entry of a chunk. -/
def chunkEntry (alg : HashAlg) (d : ChunkDescriptor) : ChunkEntry where
  blobId := computeBlobId P d.data alg
  offset := d.offset
  length := d.length

/-- The manifest of a chunked payload. -/
def chunkManifest (alg : HashAlg) (totalSize : UInt64) (chunks : List ChunkDescriptor) :
    ChunkManifest where
  version := 1
  totalSize := totalSize
  chunkCount := UInt32.ofNat (chunks.map (chunkEntry P alg)).length
  hashAlg := alg.name
  chunks := chunks.map (chunkEntry P alg)

/-- Store a payload, automatically chunking if it exceeds the inline threshold. -/
def chunkAndStore (data : Bytes) (alg : HashAlg) (cfg : ChunkPipelineConfig) :
    Service ChunkedUploadResult := do
  let totalSize := UInt64.ofNat data.length
  if cfg.Inlines data then
    let blobId := computeBlobId P data alg
    Store.putBlob blobId data
    pure { rootBlob := blobId, chunkBlobs := [], totalSize, chunked := false }
  else
    let chunks := cfg.effectiveChunker data
    -- `entries` and `chunk_blobs` collect a value per turn; neither steers the loop
    Prog.forEach (fun d => Store.putBlob (computeBlobId P d.data alg) d.data) chunks
    let manifest := chunkManifest P alg totalSize chunks
    match P.manifestToVec manifest with
    | .error e => Prog.raise (.io ("serialize chunk manifest: " ++ e))
    | .ok manifestBytes =>
      let manifestBlob := computeBlobId P manifestBytes alg
      Store.putBlob manifestBlob manifestBytes
      pure { rootBlob := manifestBlob,
             chunkBlobs := chunks.map fun d => computeBlobId P d.data alg,
             totalSize, chunked := true }

/-- Compute content-addressed chunk fingerprints without storing bytes. -/
def computeChunkBlobIds (data : Bytes) (alg : HashAlg) (cfg : ChunkPipelineConfig) :
    List BlobId :=
  if cfg.Inlines data then [computeBlobId P data alg]
  else (cfg.effectiveChunker data).map fun d => computeBlobId P d.data alg

/-- What writing a payload leaves behind: the result, and the blobs written, in
order. -/
structure Layout where
  result : ChunkedUploadResult
  writes : List (BlobId × Bytes)

/-- What storing a single blob leaves behind. -/
def inlineLayout (data : Bytes) (alg : HashAlg) : Layout where
  result := { rootBlob := computeBlobId P data alg, chunkBlobs := [],
              totalSize := UInt64.ofNat data.length, chunked := false }
  writes := [(computeBlobId P data alg, data)]

/-- The write of one chunk. -/
def chunkWrite (alg : HashAlg) (d : ChunkDescriptor) : BlobId × Bytes :=
  (computeBlobId P d.data alg, d.data)

/-- What `chunk_and_store` leaves behind where it does not fail. -/
def layout (data : Bytes) (alg : HashAlg) (cfg : ChunkPipelineConfig) : Except String Layout :=
  if cfg.Inlines data then .ok (inlineLayout P data alg)
  else
    let totalSize := UInt64.ofNat data.length
    let chunks := cfg.effectiveChunker data
    (P.manifestToVec (chunkManifest P alg totalSize chunks)).map fun b =>
      { result := { rootBlob := computeBlobId P b alg,
                    chunkBlobs := chunks.map fun d => computeBlobId P d.data alg,
                    totalSize, chunked := true },
        writes := chunks.map (chunkWrite P alg) ++ [(computeBlobId P b alg, b)] }

/-- Writes under their own ids: each id is computed from the bytes written. -/
def ContentAddressed (ws : List (BlobId × Bytes)) : Prop :=
  ∀ w ∈ ws, ∃ alg, w.1 = computeBlobId P w.2 alg

theorem contentAddressed_chunkWrites (alg : HashAlg) (chunks : List ChunkDescriptor) :
    ContentAddressed P (chunks.map (chunkWrite P alg)) := by
  intro w hw
  obtain ⟨d, -, rfl⟩ := List.mem_map.mp hw
  exact ⟨alg, rfl⟩

theorem contentAddressed_inlineLayout (data : Bytes) (alg : HashAlg) :
    ContentAddressed P (inlineLayout P data alg).writes := by
  intro w hw
  obtain rfl := List.mem_singleton.mp hw
  exact ⟨alg, rfl⟩

variable {P}

/-- A layout where the payload was stored as a single blob, and one where it was
split. -/
theorem layout_eq_ok {data : Bytes} {alg : HashAlg} {cfg : ChunkPipelineConfig} {L : Layout}
    (h : layout P data alg cfg = .ok L) :
    (cfg.Inlines data ∧ L = inlineLayout P data alg) ∨
      ∃ b, ¬cfg.Inlines data ∧ P.manifestToVec (chunkManifest P alg (UInt64.ofNat data.length)
          (cfg.effectiveChunker data)) = .ok b ∧
        L = { result := { rootBlob := computeBlobId P b alg,
                          chunkBlobs := (cfg.effectiveChunker data).map fun d =>
                            computeBlobId P d.data alg,
                          totalSize := UInt64.ofNat data.length, chunked := true },
              writes := (cfg.effectiveChunker data).map (chunkWrite P alg) ++
                [(computeBlobId P b alg, b)] } := by
  by_cases hi : cfg.Inlines data
  · rw [layout, if_pos hi] at h
    exact Or.inl ⟨hi, (Except.ok.inj h).symm⟩
  · rcases hm : P.manifestToVec (chunkManifest P alg (UInt64.ofNat data.length)
      (cfg.effectiveChunker data)) with e | b
    · simp [layout, hi, hm, Except.map] at h
    · simp only [layout, if_neg hi, hm, Except.map, Except.ok.injEq] at h
      exact Or.inr ⟨b, hi, rfl, h.symm⟩

theorem layout_contentAddressed {data : Bytes} {alg : HashAlg} {cfg : ChunkPipelineConfig}
    {L : Layout} (h : layout P data alg cfg = .ok L) : ContentAddressed P L.writes := by
  rcases layout_eq_ok h with ⟨-, rfl⟩ | ⟨b, -, -, rfl⟩
  · exact contentAddressed_inlineLayout P data alg
  · intro w hw
    rcases List.mem_append.mp hw with hw | hw
    · exact contentAddressed_chunkWrites P alg _ w hw
    · obtain rfl := List.mem_singleton.mp hw
      exact ⟨alg, rfl⟩

/-- The blobs a layout writes are the chunks and the root. -/
theorem layout_writes {data : Bytes} {alg : HashAlg} {cfg : ChunkPipelineConfig} {L : Layout}
    (h : layout P data alg cfg = .ok L) :
    L.writes.map Prod.fst = L.result.chunkBlobs ++ [L.result.rootBlob] := by
  rcases layout_eq_ok h with ⟨-, rfl⟩ | ⟨b, -, -, rfl⟩
  · rfl
  · simp [chunkWrite, Function.comp_def]

variable (P)

/-- The blobs after a list of writes. -/
def putAll (t : Table BlobId Bytes) (ws : List (BlobId × Bytes)) : Table BlobId Bytes :=
  ws.foldl (fun t w => t.insert w.1 w.2) t

variable {P}

theorem mem_putAll {t : Table BlobId Bytes} {ws : List (BlobId × Bytes)} {b : BlobId} :
    b ∈ putAll t ws ↔ b ∈ ws.map Prod.fst ∨ b ∈ t := by
  induction ws generalizing t with
  | nil => simp [putAll]
  | cons w ws ih =>
    have hcons : putAll t (w :: ws) = putAll (t.insert w.1 w.2) ws := rfl
    rw [hcons, ih, Table.mem_insert, List.map_cons, List.mem_cons]
    tauto

/-- Blobs written under their own ids. -/
theorem lookup_putAll {ws : List (BlobId × Bytes)} (hws : ContentAddressed P ws)
    {t : Table BlobId Bytes} {b : BlobId} {data : Bytes} (h : (putAll t ws).lookup b = some data) :
    t.lookup b = some data ∨ ∃ alg, b = computeBlobId P data alg := by
  induction ws generalizing t with
  | nil => exact Or.inl h
  | cons w ws ih =>
    rcases ih (fun v hv => hws v (List.mem_cons_of_mem w hv)) h with hl | ha
    · rcases Table.lookup_insert_eq_some hl with ⟨rfl, rfl⟩ | ⟨-, hl⟩
      · exact Or.inr (hws w (List.mem_cons_self ..))
      · exact Or.inl hl
    · exact Or.inr ha

variable (P)

/-- The stores after a list of writes. -/
def Stores.writeAll {I : Type} (s : Stores I) (ws : List (BlobId × Bytes)) : Stores I :=
  { s with blobs := putAll s.blobs ws }

section Write

variable {I : Type} [IndexBackend I]

theorem run_putChunks (alg : HashAlg) (chunks : List ChunkDescriptor) (s : Stores I) :
    Prog.run Stores.handle
      (Prog.forEach (fun d => Store.putBlob (computeBlobId P d.data alg) d.data) chunks) s =
      (.ok (), s.writeAll (chunks.map (chunkWrite P alg))) := by
  induction chunks generalizing s with
  | nil => rfl
  | cons d ds ih =>
    have hput : Prog.run Stores.handle (Store.putBlob (computeBlobId P d.data alg) d.data) s =
        (.ok (), { s with blobs := s.blobs.insert (computeBlobId P d.data alg) d.data }) := rfl
    rw [Prog.forEach, Prog.run_bind_ok hput, ih]
    rfl

/-- **Running the writer** performs the writes of the layout; where the manifest
cannot be serialized, it has already written the chunks. -/
theorem run_chunkAndStore (data : Bytes) (alg : HashAlg) (cfg : ChunkPipelineConfig)
    (s : Stores I) :
    Prog.run Stores.handle (chunkAndStore P data alg cfg) s =
      match layout P data alg cfg with
      | .ok L => (.ok L.result, s.writeAll L.writes)
      | .error e => (.err (.io ("serialize chunk manifest: " ++ e)),
          s.writeAll ((cfg.effectiveChunker data).map (chunkWrite P alg))) := by
  by_cases hi : cfg.Inlines data
  · simp [chunkAndStore, layout, inlineLayout, hi, Prog.perform, Stores.handle, Stores.writeAll,
      putAll]
  · rw [chunkAndStore, layout, if_neg hi, if_neg hi,
      Prog.run_bind_ok (run_putChunks P alg (cfg.effectiveChunker data) s)]
    rcases hm : P.manifestToVec (chunkManifest P alg (UInt64.ofNat data.length)
      (cfg.effectiveChunker data)) with e | b
    · simp [hm, Except.map]
    · simp [hm, Prog.perform, Stores.handle, Stores.writeAll, putAll, Except.map]

end Write

end Sodl
