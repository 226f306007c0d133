import Sodl.Chunk.Reassemble
import Sodl.Sample

/-!
# The chunk pipeline loses nothing

`chunk_and_store`, `compute_chunk_blob_ids`, `ChunkManifest::validate` and `reassemble`
(`crates/sodl-chunk/src/lib.rs`, `manifest.rs`) each go over the chunks of a payload, and have to
find the same in them.

The blob store is any that is keyed exactly (`Sodl.ExactKeyed`): a write that is acknowledged binds
its own id and no other. A writer that gets to its end has then left every one of its writes in the
store (`Sodl.triple_chunkAndStore`), although a chunk may occur twice, and although the store may
have held anything before: ids are computed from what is written under them, so that two writes
under one id are the same write. The rest is said of the layout.
-/

namespace Sodl

open Effect

/-! ### A store that is keyed exactly -/

/-- **A blob store that is keyed exactly**: a read gives its content and leaves it as it is, and a
write that is acknowledged binds its own id to its own bytes, and no other id to anything else. -/
structure ExactKeyed {σ : Type} (h : Handler storeSig σ) (content : σ → Content) : Prop where
  reads : ∀ s, ReadsAs h s (content s)
  puts : ∀ b data s s', h (.putBlob b data) s = (.ok (), s') →
    ∀ b', content s' b' = if b' = b then .ok data else content s b'

/-- The in-memory store is one. -/
theorem exactKeyed_handle {I : Type} [IndexBackend I] :
    ExactKeyed (Stores.handle (I := I)) Stores.content where
  reads := readsAs_handle
  puts b data s s' hput b' := by
    obtain ⟨-, rfl⟩ := Prod.mk.inj hput
    rw [Stores.content, Table.lookup_insert]
    split
    · rfl
    · rfl

/-- Every one of the writes is in the store. -/
def HoldsAll {σ : Type} (content : σ → Content) (ws : List (BlobId × Bytes)) (s : σ) : Prop :=
  ∀ w ∈ ws, content s w.1 = .ok w.2

section Writing

variable {P : Platform} {σ : Type} {h : Handler storeSig σ} {content : σ → Content}
  {ws : List (BlobId × Bytes)}

/-- One more write leaves the others in the store. -/
theorem triple_putBlob (hcf : P.CollisionFree) (hstore : ExactKeyed h content)
    (hws : ContentAddressed P ws) (data : Bytes) (alg : HashAlg) :
    Prog.Triple h (HoldsAll content ws) (Store.putBlob (computeBlobId P data alg) data)
      (fun _ => HoldsAll content (ws ++ [(computeBlobId P data alg, data)])) (fun _ => True) := by
  intro s hs
  rw [Prog.run_perform]
  rcases hput : h (.putBlob (computeBlobId P data alg) data) s with ⟨o, s'⟩
  cases o with
  | ok u =>
    intro w hw
    rw [hstore.puts _ _ _ _ hput]
    rcases List.mem_append.mp hw with hw | hw
    · split
      · -- the same id is the id of the same bytes
        rename_i hid
        obtain ⟨alg', hid'⟩ := hws w hw
        rw [computeBlobId_injective hcf (hid'.symm.trans hid)]
      · exact hs w hw
    · obtain rfl := List.mem_singleton.mp hw
      exact if_pos rfl
  | err e => trivial
  | panic => trivial

/-- **The writer leaves its layout in the store**, if it gets to its end. -/
theorem triple_chunkAndStore (hcf : P.CollisionFree) (hstore : ExactKeyed h content)
    (data : Bytes) (alg : HashAlg) (cfg : ChunkPipelineConfig) :
    Prog.Triple h (fun _ => True) (chunkAndStore P data alg cfg)
      (fun r s => ∃ L, layout P data alg cfg = .ok L ∧ r = L.result ∧ HoldsAll content L.writes s)
      (fun _ => True) := by
  have hnone : ∀ s, True → HoldsAll content [] s := fun s _ => nofun
  by_cases hi : cfg.Inlines data
  · rw [chunkAndStore, if_pos hi, layout, if_pos hi]
    have hnil : ContentAddressed P [] := nofun
    refine Prog.Triple.bind ((triple_putBlob hcf hstore hnil data alg).weaken hnone
      (fun _ _ => id) (fun _ => id)) fun _ => Prog.Triple.pure fun s hs => ?_
    exact ⟨_, rfl, rfl, hs⟩
  · rw [chunkAndStore, if_neg hi, layout, if_neg hi]
    -- the loop over the chunks
    have hloop : Prog.Triple h (HoldsAll content [])
        (Prog.forEach (fun d => Store.putBlob (computeBlobId P d.data alg) d.data)
          (cfg.effectiveChunker data))
        (fun _ => HoldsAll content ((cfg.effectiveChunker data).map (chunkWrite P alg)))
        (fun _ => True) := by
      refine Prog.Triple.forEach (I := fun done => HoldsAll content (done.map (chunkWrite P alg)))
        (fun done d => ?_) [] (cfg.effectiveChunker data)
      rw [List.map_append]
      exact triple_putBlob hcf hstore (contentAddressed_chunkWrites P alg done) d.data alg
    refine Prog.Triple.bind (hloop.weaken hnone (fun _ _ => id) (fun _ => id)) fun _ => ?_
    -- the manifest
    rcases hm : P.manifestToVec (chunkManifest P alg (UInt64.ofNat data.length)
      (cfg.effectiveChunker data)) with e | b
    · simp only [hm]
      exact Prog.Triple.raise fun s _ => trivial
    · simp only [hm]
      refine Prog.Triple.bind (triple_putBlob hcf hstore (contentAddressed_chunkWrites P alg _) b
        alg) fun _ => Prog.Triple.pure fun s hs => ?_
      exact ⟨_, rfl, rfl, hs⟩

end Writing

/-! ### The manifest of a payload -/

section Manifest

variable {P : Platform} {alg : HashAlg} {data : Bytes} {chunks : List ChunkDescriptor}

/-- A payload of fewer than `2 ^ 32` chunks has a length that a `u64` holds. -/
theorem IsPartition.length_lt (hpart : IsPartition data chunks) (hcount : chunks.length < 2 ^ 32) :
    data.length < 2 ^ 64 := by
  have hsum : ∀ ds : List ChunkDescriptor, (∀ d ∈ ds, d.length.toNat = d.data.length) →
      (ds.flatMap ChunkDescriptor.data).length ≤ ds.length * 2 ^ 32 := by
    intro ds
    induction ds with
    | nil => exact fun _ => Nat.zero_le _
    | cons d ds ih =>
      intro hall
      obtain ⟨hd, hds⟩ := List.forall_mem_cons.mp hall
      have hlt := d.length.toNat_lt
      have hrest := ih hds
      rw [List.flatMap_cons, List.length_append, List.length_cons, Nat.succ_mul]
      omega
  have hle := hsum chunks hpart.length_eq
  rw [hpart.flatten] at hle
  calc data.length ≤ chunks.length * 2 ^ 32 := hle
    _ < 2 ^ 32 * 2 ^ 32 := Nat.mul_lt_mul_of_pos_right hcount (by decide)
    _ = 2 ^ 64 := by rw [← Nat.pow_add]

/-- The spans of the entries are those of the chunks. -/
theorem map_span_chunkManifest (n : UInt64) :
    (chunkManifest P alg n chunks).chunks.map ChunkEntry.span =
      chunks.map ChunkDescriptor.span := by
  rw [chunkManifest, List.map_map]
  rfl

/-- **The manifest of a payload is valid.** -/
theorem validate_chunkManifest (hpart : IsPartition data chunks)
    (hlen : (UInt64.ofNat data.length).toNat = data.length) :
    (chunkManifest P alg (UInt64.ofNat data.length) chunks).validate = .ok () := by
  refine ChunkManifest.validate_eq_ok.mpr ⟨rfl, rfl, ?_, ?_⟩
  · -- what reads as the payload over a store of its chunks has its size
    refine ChunkManifest.lengthSum_eq_totalSize ?_
    rw [ChunkManifest.chunksSize, chunkManifest, List.map_map]
    have hlength : (chunks.map ((fun c => c.length.toNat) ∘ chunkEntry P alg)).sum =
        (chunks.flatMap ChunkDescriptor.data).length := by
      rw [List.length_flatMap]
      exact congrArg List.sum (List.map_congr_left hpart.length_eq)
    rw [hlength, hpart.flatten, hlen]
  · rw [map_span_chunkManifest]
    exact hpart.contiguous

end Manifest

/-- **The chunk pipeline loses nothing and agrees with itself.** Let the chunker partition the
payload, into fewer than `2 ^ 32` chunks, and let the writer get to its end over a store that is
keyed exactly.

* Where it has split the payload, the root parses as a manifest that is valid, whose chunks are
  those of the result and those that are computed without a store; and the manifest is put together
  to the payload, if there is the memory for it.
* Where it has not, the root is the payload, and the one blob that is computed without a store. -/
theorem chunkAndStore_lossless {P : Platform} (hcf : P.CollisionFree) (hjson : P.JsonRoundTrips)
    {σ : Type} {h : Handler storeSig σ} {content : σ → Content} (hstore : ExactKeyed h content)
    {data : Bytes} {alg : HashAlg} {cfg : ChunkPipelineConfig}
    (hpart : IsPartition data (cfg.effectiveChunker data))
    (hcount : (cfg.effectiveChunker data).length < 2 ^ 32) {s s' : σ} {r : ChunkedUploadResult}
    (hrun : Prog.run h (chunkAndStore P data alg cfg) s = (.ok r, s')) :
    (r.chunked = true → ∃ root m, content s' r.rootBlob = .ok root ∧
      tryParseManifest P root = some m ∧ m.validate = .ok () ∧
      m.chunks.map ChunkEntry.blobId = r.chunkBlobs ∧
      r.chunkBlobs = computeChunkBlobIds P data alg cfg ∧
      (P.grants data.length = true → Prog.run h (reassemble P m) s' = (.ok data, s'))) ∧
    (r.chunked = false → content s' r.rootBlob = .ok data ∧
      computeChunkBlobIds P data alg cfg = [r.rootBlob]) := by
  have hwritten := triple_chunkAndStore hcf hstore data alg cfg s trivial
  rw [hrun] at hwritten
  obtain ⟨L, hL, rfl, hholds⟩ := hwritten
  rcases layout_eq_ok hL with ⟨hi, rfl⟩ | ⟨root, hi, hm, rfl⟩
  · refine ⟨nofun, fun _ => ⟨hholds _ (List.mem_singleton.mpr rfl), ?_⟩⟩
    rw [computeChunkBlobIds, if_pos hi]
    rfl
  · have hlen : (UInt64.ofNat data.length).toNat = data.length :=
      UInt64.toNat_ofNat_of_lt' (hpart.length_lt hcount)
    refine ⟨fun _ => ⟨root, _, hholds _ (List.mem_append.mpr (Or.inr (List.mem_singleton.mpr rfl))),
      hjson _ _ hm, validate_chunkManifest hpart hlen, ?_, ?_, fun hgrants => ?_⟩, nofun⟩
    · rw [chunkManifest, List.map_map]
      rfl
    · rw [computeChunkBlobIds, if_neg hi]
    · have hthere : ∀ d ∈ cfg.effectiveChunker data,
          content s' (computeBlobId P d.data alg) = .ok d.data := fun d hd =>
        hholds (chunkWrite P alg d) (List.mem_append.mpr (Or.inl (List.mem_map_of_mem hd)))
      rw [run_reassemble P (hstore.reads s')]
      refine Prod.ext (gather_eq_ok.mpr ⟨?_, reads_chunkManifest hpart hlen hthere⟩) rfl
      rw [chunkManifest, hlen]
      exact hgrants

/-- Single bytes, one of them twice, above a threshold of one byte. -/
private def singleBytes : ChunkPipelineConfig :=
  ⟨1, some (FixedSizeChunker.chunk ⟨1, by decide⟩)⟩

/-- A payload in which a chunk occurs twice. -/
theorem chunkAndStore_lossless_repeated : ∃ r s' m,
    Prog.run Stores.handle (chunkAndStore samplePlatform [7, 8, 7] .blake3 singleBytes)
      (Stores.empty MemIndex.new (fun _ => 0) fun _ => ⟨Vector.replicate 16 0⟩) = (.ok r, s') ∧
    r.chunkBlobs = computeChunkBlobIds samplePlatform [7, 8, 7] .blake3 singleBytes ∧
    Prog.run Stores.handle (reassemble samplePlatform m) s' = (.ok [7, 8, 7], s') := by
  have hpart : IsPartition [7, 8, 7] (singleBytes.effectiveChunker [7, 8, 7]) :=
    FixedSizeChunker.partitions _ _
  have hlayout : (layout samplePlatform [7, 8, 7] .blake3 singleBytes).isOk := by decide +kernel
  rcases hL : layout samplePlatform [7, 8, 7] .blake3 singleBytes with e | L
  · rw [hL] at hlayout
    exact absurd hlayout Bool.false_ne_true
  · have hrun := run_chunkAndStore samplePlatform [7, 8, 7] .blake3 singleBytes
      (Stores.empty MemIndex.new (fun _ => 0) fun _ => ⟨Vector.replicate 16 0⟩)
    rw [hL] at hrun
    have hchunked : L.result.chunked = true := by
      rcases layout_eq_ok hL with ⟨hi, -⟩ | ⟨b, -, -, rfl⟩
      · exact absurd hi (by decide)
      · rfl
    have hlossless := chunkAndStore_lossless samplePlatform_collisionFree
      samplePlatform_jsonRoundTrips exactKeyed_handle hpart (by decide +kernel) hrun
    obtain ⟨root, m, -, -, -, -, hids, hread⟩ := hlossless.1 hchunked
    exact ⟨_, _, m, hrun, hids, hread (by decide)⟩

end Sodl
