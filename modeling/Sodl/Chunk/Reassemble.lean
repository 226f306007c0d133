import Mathlib.Algebra.GroupWithZero.Nat
import Sodl.Chunk.Pipeline

/-!
# Putting a chunked payload together again

The reading half of `crates/sodl-chunk/src/lib.rs`: a manifest is parsed, its
chunks are fetched one after another, each is checked against its own id and its
declared length, and their concatenation has to have the declared size.

The reader looks at a store only through what a read of each blob ends in, the
*content* of the store. `Sodl.gather` is what the reader makes of a content, and
`Sodl.run_reassemble` says that running it against any store with that content
ends in the same. What it ends in is then said without it:

* `Sodl.gather_eq_ok`: it ends in `x` exactly where the chunks are there and `x`
  is their concatenation (`Sodl.Reads`), and the allocator serves the buffer;
* `Sodl.gather_ne_panic`: it panics unless the buffer and every chunk it gets to
  can be had (`Sodl.SafeToRead`);
* `Sodl.reads_chunkManifest` and `Sodl.Reads.eq_of_chunkManifest`: the manifest of
  a split payload reads as the payload where its chunks are there, and never as
  anything else.
-/

namespace Sodl

open Effect

variable (P : Platform)

/-! ### The reader -/

/-- The loop of `reassemble`: fetch, check and append one chunk after another. The
buffer was made with the given capacity. -/
def appendChunks (capacity : ℕ) : List ChunkEntry → Bytes → Service Bytes
  | [], buf => pure buf
  | entry :: rest, buf => do
    let chunk ← Store.getBlob entry.blobId
    Prog.lift (verifyIntegrity P entry.blobId chunk)
    if chunk.length ≠ entry.length.toNat then Prog.raise .integrity
    else
      let buf ← Prog.lift (P.extendFromSlice capacity buf chunk)
      appendChunks capacity rest buf

/-- Reassemble a chunked payload from a manifest. -/
def reassemble (manifest : ChunkManifest) : Service Bytes := do
  let buf ← Prog.lift (P.vecWithCapacity manifest.totalSize.toNat)
  let buf ← appendChunks P manifest.totalSize.toNat manifest.chunks buf
  -- no buffer is longer than `isize::MAX`, so `buf.len() as u64` keeps its length
  if buf.length ≠ manifest.totalSize.toNat then Prog.raise .integrity else pure buf

/-- Try to parse a blob as a chunk manifest. -/
def tryParseManifest (blob : Bytes) : Option ChunkManifest := P.manifestFromSlice blob

/-! ### What the reader makes of a store's content -/

/-- A store content: what a read of each blob ends in. -/
abbrev Content : Type := BlobId → Outcome SodlError Bytes

/-- A handler whose blob store, in a state, has a given content, and which a read
leaves in that state. -/
def ReadsAs {σ : Type} (h : Handler storeSig σ) (s : σ) (fetch : Content) : Prop :=
  ∀ b, h (.getBlob b) s = (fetch b, s)

/-- The content of the in-memory blob store. -/
def Stores.content {I : Type} (s : Stores I) : Content := fun b => Stores.found (s.blobs.lookup b)

theorem readsAs_handle {I : Type} [IndexBackend I] (s : Stores I) :
    ReadsAs Stores.handle s s.content := fun _ => rfl

/-- The bytes of a list of chunks, each fetched and checked. -/
def gatherChunks (fetch : Content) (capacity : ℕ) :
    List ChunkEntry → Bytes → Outcome SodlError Bytes
  | [], buf => .ok buf
  | entry :: rest, buf => do
    let chunk ← fetch entry.blobId
    verifyIntegrity P entry.blobId chunk
    -- offsets are not looked at
    if chunk.length ≠ entry.length.toNat then .err .integrity
    else
      let buf ← P.extendFromSlice capacity buf chunk
      gatherChunks fetch capacity rest buf

/-- The payload a manifest describes, over a store content. -/
def gather (fetch : Content) (manifest : ChunkManifest) : Outcome SodlError Bytes := do
  let buf ← P.vecWithCapacity manifest.totalSize.toNat
  let buf ← gatherChunks P fetch manifest.totalSize.toNat manifest.chunks buf
  if buf.length ≠ manifest.totalSize.toNat then .err .integrity else .ok buf

section Run

variable {σ : Type} {h : Handler storeSig σ} {s : σ} {fetch : Content}

theorem run_appendChunks (hread : ReadsAs h s fetch) (capacity : ℕ) (entries : List ChunkEntry)
    (buf : Bytes) :
    Prog.run h (appendChunks P capacity entries buf) s =
      (gatherChunks P fetch capacity entries buf, s) := by
  induction entries generalizing buf with
  | nil => rfl
  | cons entry rest ih =>
    have hget : Prog.run h (Store.getBlob entry.blobId) s = (fetch entry.blobId, s) :=
      hread entry.blobId
    rw [appendChunks, gatherChunks, Prog.run_bind, hget]
    rcases fetch entry.blobId with chunk | e | _
    · simp only [Outcome.ok_bind]
      rw [Prog.run_lift_bind]
      rcases verifyIntegrity P entry.blobId chunk with u | e | _
      · by_cases hlen : chunk.length ≠ entry.length.toNat
        · simp [hlen]
        · simp only [Outcome.ok_bind, if_neg hlen]
          rw [Prog.run_lift_bind]
          rcases P.extendFromSlice capacity buf chunk with buf' | e | _
          · exact ih buf'
          · rfl
          · rfl
      · rfl
      · rfl
    · rfl
    · rfl

/-- **Running the reader** leaves the stores alone and ends in what the content
says. -/
theorem run_reassemble (hread : ReadsAs h s fetch) (manifest : ChunkManifest) :
    Prog.run h (reassemble P manifest) s = (gather P fetch manifest, s) := by
  rw [reassemble, gather, Prog.run_lift_bind]
  rcases P.vecWithCapacity manifest.totalSize.toNat with buf | e | _
  · simp only [Outcome.ok_bind]
    rw [Prog.run_bind, run_appendChunks P hread]
    rcases gatherChunks P fetch manifest.totalSize.toNat manifest.chunks buf with buf' | e | _
    · by_cases hlen : buf'.length ≠ manifest.totalSize.toNat
      · simp [hlen]
      · simp [hlen]
    · rfl
    · rfl
  · rfl
  · rfl

end Run

/-! ### Where the reader ends in a value -/

/-- A chunk that passes the reader's checks: its blob is there, under an id
computed from it, and has the declared length. -/
structure ReadsChunk (fetch : Content) (entry : ChunkEntry) (data : Bytes) : Prop where
  fetched : fetch entry.blobId = .ok data
  verified : verifyIntegrity P entry.blobId data = .ok ()
  length_eq : data.length = entry.length.toNat

/-- **A manifest reads as a payload**: every chunk passes, the payload is their
concatenation, and has the declared size. -/
structure Reads (fetch : Content) (m : ChunkManifest) (x : Bytes) : Prop where
  chunks : ∃ datas, List.Forall₂ (ReadsChunk P fetch) m.chunks datas ∧ datas.flatten = x
  size : x.length = m.totalSize.toNat

variable {P} {fetch : Content} {capacity : ℕ} {entry : ChunkEntry} {rest : List ChunkEntry}
  {buf x : Bytes}

/-- One turn of the loop, on a chunk that passes. -/
theorem gatherChunks_cons_of_reads {data : Bytes} (h : ReadsChunk P fetch entry data) :
    gatherChunks P fetch capacity (entry :: rest) buf =
      (P.extendFromSlice capacity buf data >>= gatherChunks P fetch capacity rest) := by
  rw [gatherChunks, h.fetched, Outcome.ok_bind, h.verified, Outcome.ok_bind,
    if_neg (not_not.mpr h.length_eq)]

/-- One turn of the loop, on a chunk that does not. -/
theorem gatherChunks_cons_of_not_reads (capacity : ℕ) (rest : List ChunkEntry) (buf : Bytes)
    (h : ∀ data, ¬ReadsChunk P fetch entry data) :
    fetch entry.blobId = .panic ∧ gatherChunks P fetch capacity (entry :: rest) buf = .panic ∨
      ∃ e, gatherChunks P fetch capacity (entry :: rest) buf = .err e := by
  rw [gatherChunks]
  rcases hf : fetch entry.blobId with chunk | e | _
  · right
    rw [Outcome.ok_bind]
    rcases hv : verifyIntegrity P entry.blobId chunk with u | e | _
    · have hlen : chunk.length ≠ entry.length.toNat := fun hl => h chunk ⟨hf, hv, hl⟩
      exact ⟨.integrity, if_pos hlen⟩
    · exact ⟨e, rfl⟩
    · exact absurd hv (verifyIntegrity_ne_panic _ _)
  · exact Or.inr ⟨e, rfl⟩
  · exact Or.inl ⟨rfl, rfl⟩

theorem extendFromSlice_of_holds {data : Bytes} (h : P.Holds capacity (buf ++ data).length) :
    P.extendFromSlice capacity buf data = .ok (buf ++ data) := if_pos h

theorem extendFromSlice_of_not_holds {data : Bytes} (h : ¬P.Holds capacity (buf ++ data).length) :
    P.extendFromSlice capacity buf data = .panic := if_neg h

/-- The loop ends in the concatenation of chunks that pass. -/
theorem exists_reads_of_gatherChunks (h : gatherChunks P fetch capacity rest buf = .ok x) :
    ∃ datas, List.Forall₂ (ReadsChunk P fetch) rest datas ∧ x = buf ++ datas.flatten := by
  induction rest generalizing buf with
  | nil => exact ⟨[], .nil, by simpa [gatherChunks, eq_comm] using h⟩
  | cons entry rest ih =>
    by_cases hread : ∃ data, ReadsChunk P fetch entry data
    · obtain ⟨data, hd⟩ := hread
      rw [gatherChunks_cons_of_reads hd] at h
      obtain ⟨buf', hbuf, hrest⟩ := Outcome.bind_eq_ok.mp h
      obtain ⟨datas, hall, rfl⟩ := ih hrest
      obtain rfl : buf ++ data = buf' := by
        by_cases hh : P.Holds capacity (buf ++ data).length
        · exact Outcome.ok.inj ((extendFromSlice_of_holds hh).symm.trans hbuf)
        · exact absurd ((extendFromSlice_of_not_holds hh).symm.trans hbuf) (by simp)
      exact ⟨data :: datas, .cons hd hall, by simp⟩
    · rcases gatherChunks_cons_of_not_reads capacity rest buf
        (not_exists.mp hread) with ⟨-, hp⟩ | ⟨e, he⟩
      · exact absurd (hp.symm.trans h) (by simp)
      · exact absurd (he.symm.trans h) (by simp)

/-- Chunks that pass, and that the buffer holds without growing, are read through. -/
theorem gatherChunks_of_reads {datas : List Bytes}
    (hall : List.Forall₂ (ReadsChunk P fetch) rest datas)
    (hlen : (buf ++ datas.flatten).length ≤ capacity) :
    gatherChunks P fetch capacity rest buf = .ok (buf ++ datas.flatten) := by
  induction hall generalizing buf with
  | nil => simp [gatherChunks]
  | @cons entry data rest datas hd _ ih =>
    have happ : buf ++ (data :: datas).flatten = buf ++ data ++ datas.flatten := by simp
    have hholds : P.Holds capacity (buf ++ data).length := by
      rw [happ, List.length_append] at hlen
      exact Or.inl (by omega)
    rw [gatherChunks_cons_of_reads hd, extendFromSlice_of_holds hholds, Outcome.ok_bind, happ]
    exact ih (happ ▸ hlen)

/-- **Where the reader ends in a value.** -/
theorem gather_eq_ok {m : ChunkManifest} :
    gather P fetch m = .ok x ↔ P.grants m.totalSize.toNat = true ∧ Reads P fetch m x := by
  by_cases hg : P.grants m.totalSize.toNat = true
  · have hcap : P.vecWithCapacity m.totalSize.toNat = .ok [] := if_pos hg
    rw [gather, hcap, Outcome.ok_bind]
    constructor
    · intro h
      obtain ⟨buf', hbuf, hret⟩ := Outcome.bind_eq_ok.mp h
      by_cases hsize : buf'.length ≠ m.totalSize.toNat
      · simp [hsize] at hret
      · obtain rfl : buf' = x := by simpa [hsize] using hret
        obtain ⟨datas, hall, hx⟩ := exists_reads_of_gatherChunks hbuf
        exact ⟨hg, ⟨datas, hall, hx.symm⟩, not_not.mp hsize⟩
    · rintro ⟨-, ⟨datas, hall, rfl⟩, hsize⟩
      have hrun : gatherChunks P fetch m.totalSize.toNat m.chunks [] = .ok ([] ++ datas.flatten) :=
        gatherChunks_of_reads hall (le_of_eq hsize)
      rw [hrun, Outcome.ok_bind, List.nil_append, if_neg (not_not.mpr hsize)]
  · have hcap : P.vecWithCapacity m.totalSize.toNat = .panic := if_neg hg
    rw [gather, hcap]
    simp [hg]

theorem length_flatten_of_reads {datas : List Bytes}
    (hall : List.Forall₂ (ReadsChunk P fetch) rest datas) :
    datas.flatten.length = (rest.map fun c => c.length.toNat).sum := by
  induction hall with
  | nil => rfl
  | cons hd _ ih =>
    rw [List.map_cons, List.sum_cons, List.flatten_cons, List.length_append, ih, hd.length_eq]

/-- A manifest that reads as a payload has chunks of the declared size. -/
theorem Reads.chunksSize_eq {m : ChunkManifest} (h : Reads P fetch m x) :
    m.chunksSize = m.totalSize.toNat := by
  obtain ⟨⟨datas, hall, rfl⟩, hsize⟩ := h
  exact (length_flatten_of_reads hall).symm.trans hsize

/-- A chunk reads as one byte string. -/
theorem ReadsChunk.unique {data data' : Bytes} (h : ReadsChunk P fetch entry data)
    (h' : ReadsChunk P fetch entry data') : data = data' :=
  Outcome.ok.inj (h.fetched.symm.trans h'.fetched)

/-! ### Where the reader panics -/

variable (P) in
/-- **Nothing panics on the way**: the allocator serves the declared size; and
behind chunks that pass, the next read ends, and its chunk fits in the buffer or
the buffer can grow. -/
structure SafeToRead (fetch : Content) (m : ChunkManifest) : Prop where
  granted : P.grants m.totalSize.toNat = true
  served : ∀ pre entry post datas, m.chunks = pre ++ entry :: post →
    List.Forall₂ (ReadsChunk P fetch) pre datas →
      fetch entry.blobId ≠ .panic ∧ ∀ data, ReadsChunk P fetch entry data →
        P.Holds m.totalSize.toNat (datas.flatten ++ data).length

/-- Where the loop panics. The induction is on the chunks still to be read,
generalised over the buffer. -/
theorem gatherChunks_eq_panic :
    gatherChunks P fetch capacity rest buf = .panic ↔
      ∃ pre entry post datas, rest = pre ++ entry :: post ∧
        List.Forall₂ (ReadsChunk P fetch) pre datas ∧
          (fetch entry.blobId = .panic ∨ ∃ data, ReadsChunk P fetch entry data ∧
            ¬P.Holds capacity (buf ++ datas.flatten ++ data).length) := by
  induction rest generalizing buf with
  | nil => simp [gatherChunks]
  | cons entry rest ih =>
    by_cases hread : ∃ data, ReadsChunk P fetch entry data
    · obtain ⟨data, hd⟩ := hread
      rw [gatherChunks_cons_of_reads hd]
      by_cases hh : P.Holds capacity (buf ++ data).length
      · -- the first chunk is read through; what panics is further on
        rw [extendFromSlice_of_holds hh, Outcome.ok_bind, ih]
        constructor
        · rintro ⟨pre, e, post, datas, rfl, hpre, he⟩
          refine ⟨entry :: pre, e, post, data :: datas, rfl, .cons hd hpre, ?_⟩
          simpa using he
        · rintro ⟨pre, e, post, datas, hsplit, hpre, he⟩
          cases hpre with
          | nil =>
            obtain ⟨rfl, rfl⟩ := List.cons.inj hsplit
            rcases he with hp | ⟨data', hd', hno⟩
            · exact absurd (hd.fetched.symm.trans hp) (by simp)
            · obtain rfl : data = data' := hd.unique hd'
              exact absurd hh (by simpa using hno)
          | @cons e₀ data' pre datas hd' hpre =>
            obtain ⟨rfl, rfl⟩ := List.cons.inj hsplit
            obtain rfl : data = data' := hd.unique hd'
            exact ⟨pre, e, post, datas, rfl, hpre, by simpa using he⟩
      · -- the buffer cannot hold the first chunk
        rw [extendFromSlice_of_not_holds hh, Outcome.panic_bind]
        refine ⟨fun _ => ⟨[], entry, rest, [], rfl, .nil, Or.inr ⟨data, hd, ?_⟩⟩, fun _ => rfl⟩
        simpa using hh
    · rcases gatherChunks_cons_of_not_reads capacity rest buf
        (not_exists.mp hread) with ⟨hf, hp⟩ | ⟨err, he⟩
      · rw [hp]
        exact ⟨fun _ => ⟨[], entry, rest, [], rfl, .nil, Or.inl hf⟩, fun _ => rfl⟩
      · -- the loop ends in an error at the first chunk, and so gets to no other
        rw [he]
        refine ⟨fun h => absurd h (by simp), ?_⟩
        rintro ⟨pre, e, post, datas, hsplit, hpre, hor⟩
        cases hpre with
        | nil =>
          obtain ⟨rfl, rfl⟩ := List.cons.inj hsplit
          rcases hor with hp | ⟨data, hd, -⟩
          · rw [gatherChunks, hp] at he
            exact he.symm
          · exact absurd ⟨data, hd⟩ hread
        | cons hd _ =>
          obtain ⟨rfl, -⟩ := List.cons.inj hsplit
          exact absurd ⟨_, hd⟩ hread

/-- **Where the reader does not panic.** -/
theorem gather_ne_panic {m : ChunkManifest} :
    gather P fetch m ≠ .panic ↔ SafeToRead P fetch m := by
  by_cases hg : P.grants m.totalSize.toNat = true
  · have hcap : P.vecWithCapacity m.totalSize.toNat = .ok [] := if_pos hg
    have hloop : gather P fetch m = .panic ↔
        gatherChunks P fetch m.totalSize.toNat m.chunks [] = .panic := by
      rw [gather, hcap, Outcome.ok_bind]
      rcases gatherChunks P fetch m.totalSize.toNat m.chunks [] with buf' | e | _
      · by_cases hsize : buf'.length = m.totalSize.toNat <;> simp [hsize]
      · simp
      · simp
    rw [ne_eq, hloop, gatherChunks_eq_panic]
    constructor
    · intro h
      refine ⟨hg, fun pre entry post datas hsplit hpre => ⟨fun hp => ?_, fun data hd => ?_⟩⟩
      · exact h ⟨pre, entry, post, datas, hsplit, hpre, Or.inl hp⟩
      · by_contra hno
        exact h ⟨pre, entry, post, datas, hsplit, hpre, Or.inr ⟨data, hd, by simpa using hno⟩⟩
    · rintro ⟨-, hserved⟩ ⟨pre, entry, post, datas, hsplit, hpre, hor⟩
      obtain ⟨hf, hholds⟩ := hserved pre entry post datas hsplit hpre
      rcases hor with hp | ⟨data, hd, hno⟩
      · exact hf hp
      · exact hno (by simpa using hholds data hd)
  · have hcap : P.vecWithCapacity m.totalSize.toNat = .panic := if_neg hg
    rw [gather, hcap, Outcome.panic_bind]
    exact ⟨fun h => absurd rfl h, fun h => absurd h.granted hg⟩

/-! ### The manifest of a split payload -/

section Split

variable {alg : HashAlg} {chunks : List ChunkDescriptor} {data : Bytes} {n : UInt64}

/-- **A split payload reads back** where its chunks are there. -/
theorem reads_chunkManifest (hpart : IsPartition data chunks) (hn : n.toNat = data.length)
    (hthere : ∀ d ∈ chunks, fetch (computeBlobId P d.data alg) = .ok d.data) :
    Reads P fetch (chunkManifest P alg n chunks) data where
  chunks := by
    refine ⟨chunks.map ChunkDescriptor.data, ?_, List.flatMap_def.symm.trans hpart.flatten⟩
    rw [chunkManifest, List.forall₂_map_left_iff, List.forall₂_map_right_iff, List.forall₂_same]
    intro d hd
    exact ⟨hthere d hd, verifyIntegrity_computeBlobId d.data alg, (hpart.length_eq d hd).symm⟩
  size := hn.symm

/-- **The manifest of a split payload reads as nothing else**, whatever the store
holds: each chunk is checked against an id that names one byte string. -/
theorem Reads.eq_of_chunkManifest (hcf : P.CollisionFree) (hpart : IsPartition data chunks)
    (h : Reads P fetch (chunkManifest P alg n chunks) x) : x = data := by
  obtain ⟨⟨datas, hall, rfl⟩, -⟩ := h
  rw [← hpart.flatten]
  clear hpart
  rw [chunkManifest, List.forall₂_map_left_iff] at hall
  induction hall with
  | nil => rfl
  | cons hd _ ih =>
    rw [List.flatten_cons, List.flatMap_cons, ih, eq_of_verifyIntegrity hcf hd.verified]

end Split

end Sodl
