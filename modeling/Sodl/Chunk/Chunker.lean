import Mathlib.Order.MinMax
import Sodl.Chunk.Manifest

/-!
# Splitting a payload into chunks

The `Chunker` trait and its two implementations (`crates/sodl-chunk/src/lib.rs`
and `fastcdc.rs`). Both walk the payload from the front and cut off one chunk
after another; they differ in where they cut, after a fixed width
(`Sodl.FixedSizeChunker`) or where a rolling hash of the content says so
(`Sodl.FastCdcChunker`).

The contract of the trait is `Sodl.Partitions`: the chunks cover the payload
with no gap and no overlap. The walk meets it whenever each cut takes at least
one byte and at most what is left (`Sodl.splitLoop_partition`), and so do both
chunkers.
-/

namespace Sodl

open Effect

/-- Description of a single chunk within a payload. -/
structure ChunkDescriptor where
  /-- Byte offset within the original payload. -/
  offset : UInt64
  /-- Length in bytes. -/
  length : UInt32
  /-- The raw chunk bytes. -/
  data : Bytes

/-- Where a chunk lies in the payload. -/
def ChunkDescriptor.span (d : ChunkDescriptor) : UInt64 × UInt32 := (d.offset, d.length)

/-- A strategy for splitting a byte payload into chunks. -/
abbrev Chunker : Type := Bytes → List ChunkDescriptor

/-- The chunks of a payload cover it exactly, with no gaps or overlaps. -/
structure IsPartition (data : Bytes) (cs : List ChunkDescriptor) : Prop where
  /-- Put one after the other, the chunks are the payload. -/
  flatten : (cs.flatMap ChunkDescriptor.data) = data
  /-- Each declares its own length. -/
  length_eq : ∀ c ∈ cs, c.length.toNat = c.data.length
  /-- Each starts where the one before it ended. -/
  contiguous : Contiguous 0 (cs.map ChunkDescriptor.span)

/-- What the trait asks of its implementations. -/
def Partitions (chunker : Chunker) : Prop := ∀ data, IsPartition data (chunker data)

/-! ### The walk -/

/-- The loop of both chunkers: cut off `cut rest` bytes, and go on behind them.
The first argument bounds the number of turns; a payload is never cut more often
than it is long. -/
def splitLoop (cut : Bytes → ℕ) : ℕ → ℕ → Bytes → List ChunkDescriptor
  | 0, _, _ => []
  | fuel + 1, offset, rest =>
    if rest = [] then []
    else
      let n := cut rest
      { offset := UInt64.ofNat offset, length := UInt32.ofNat n, data := rest.take n } ::
        splitLoop cut fuel (offset + n) (rest.drop n)

/-- A cut takes at least one byte, at most what is left, and a length a `u32`
holds. -/
structure Cuts (cut : Bytes → ℕ) : Prop where
  pos : ∀ rest, rest ≠ [] → 0 < cut rest
  le : ∀ rest, cut rest ≤ rest.length
  lt : ∀ rest, cut rest < 2 ^ 32

section Walk

variable {cut : Bytes → ℕ}

private theorem toUInt64_ofNat_of_lt {n : ℕ} (h : n < 2 ^ 32) :
    (UInt32.ofNat n).toUInt64 = UInt64.ofNat n := by
  refine UInt64.toNat_inj.mp ?_
  rw [UInt32.toNat_toUInt64, UInt32.toNat_ofNat_of_lt' h, UInt64.toNat_ofNat_of_lt']
  exact Nat.lt_of_lt_of_le h (by decide)

/-- **The walk covers what is left.** The induction is on the number of turns,
generalised over where the walk stands. -/
theorem splitLoop_partition (hc : Cuts cut) (fuel offset : ℕ) (rest : Bytes)
    (hfuel : rest.length ≤ fuel) :
    ((splitLoop cut fuel offset rest).flatMap ChunkDescriptor.data) = rest ∧
      (∀ c ∈ splitLoop cut fuel offset rest, c.length.toNat = c.data.length) ∧
      Contiguous (UInt64.ofNat offset)
        ((splitLoop cut fuel offset rest).map ChunkDescriptor.span) := by
  induction fuel generalizing offset rest with
  | zero =>
    obtain rfl : rest = [] := List.eq_nil_of_length_eq_zero (by omega)
    exact ⟨rfl, by simp [splitLoop], trivial⟩
  | succ fuel ih =>
    by_cases hr : rest = []
    · subst hr
      exact ⟨rfl, by simp [splitLoop], trivial⟩
    · have hpos := hc.pos rest hr
      have hle := hc.le rest
      have hlt := hc.lt rest
      have hdrop : (rest.drop (cut rest)).length ≤ fuel := by
        rw [List.length_drop]
        omega
      obtain ⟨hf, hl, hcon⟩ := ih (offset + cut rest) (rest.drop (cut rest)) hdrop
      have heq : splitLoop cut (fuel + 1) offset rest =
          { offset := UInt64.ofNat offset, length := UInt32.ofNat (cut rest),
            data := rest.take (cut rest) } ::
          splitLoop cut fuel (offset + cut rest) (rest.drop (cut rest)) := by
        rw [splitLoop, if_neg hr]
      rw [heq]
      refine ⟨?_, ?_, ?_⟩
      · rw [List.flatMap_cons, hf]
        exact List.take_append_drop _ _
      · intro c hmem
        rcases List.mem_cons.mp hmem with rfl | hmem
        · show (UInt32.ofNat (cut rest)).toNat = (rest.take (cut rest)).length
          rw [UInt32.toNat_ofNat_of_lt' hlt, List.length_take, Nat.min_eq_left hle]
        · exact hl c hmem
      · refine ⟨rfl, ?_⟩
        show Contiguous (UInt64.ofNat offset + (UInt32.ofNat (cut rest)).toUInt64) _
        rw [toUInt64_ofNat_of_lt hlt, ← UInt64.ofNat_add]
        exact hcon

theorem partitions_splitLoop (hc : Cuts cut) :
    Partitions fun data => splitLoop cut data.length 0 data := by
  intro data
  obtain ⟨hf, hl, hcon⟩ := splitLoop_partition hc data.length 0 data le_rfl
  exact ⟨hf, hl, hcon⟩

end Walk

/-! ### Fixed-size chunks -/

/-- Fixed-width chunker; the last chunk may be shorter. -/
structure FixedSizeChunker where
  /-- Target chunk size in bytes. -/
  chunkSize : UInt32
  /-- `FixedSizeChunker::new` asserts it. -/
  chunkSize_pos : 0 < chunkSize.toNat

namespace FixedSizeChunker

/-- The width of the next chunk: `(offset + cs).min(data.len()) - offset`. -/
def cut (c : FixedSizeChunker) (rest : Bytes) : ℕ := min c.chunkSize.toNat rest.length

/-- `FixedSizeChunker::chunk`. -/
def chunk (c : FixedSizeChunker) : Chunker := fun data => splitLoop c.cut data.length 0 data

theorem cuts (c : FixedSizeChunker) : Cuts c.cut where
  pos rest hr := by
    have := c.chunkSize_pos
    have := List.length_pos_iff.mpr hr
    simp only [cut]
    omega
  le rest := Nat.min_le_right _ _
  lt rest := Nat.lt_of_le_of_lt (Nat.min_le_left _ _) c.chunkSize.toNat_lt

theorem partitions (c : FixedSizeChunker) : Partitions c.chunk := partitions_splitLoop c.cuts

end FixedSizeChunker

/-! ### Content-defined chunks -/

/-- One step of xorshift64. -/
def xorshift64 (state : UInt64) : UInt64 :=
  let s := state ^^^ (state <<< 13)
  let s := s ^^^ (s >>> 7)
  s ^^^ (s <<< 17)

/-- The first `n` states after a seed. -/
def xorshiftTable : ℕ → UInt64 → List UInt64
  | 0, _ => []
  | n + 1, state => xorshift64 state :: xorshiftTable n (xorshift64 state)

/-- The gear-hash table: 256 states of a generator seeded with `42`. -/
def gearTable : List UInt64 := xorshiftTable 256 42

/-- FastCDC chunker with configurable size bounds. -/
structure FastCdcChunker where
  /-- Minimum chunk size in bytes. No boundary is checked below this. -/
  minSize : UInt32
  /-- Target average chunk size. Used to derive the gear-hash mask. -/
  avgSize : UInt32
  /-- Maximum chunk size. A boundary is forced at this length. -/
  maxSize : UInt32
  /-- `FastCdcChunker::new` asserts both. -/
  minSize_lt : minSize.toNat < avgSize.toNat
  avgSize_lt : avgSize.toNat < maxSize.toNat

namespace FastCdcChunker

/-- `FastCdcChunker::default`. -/
def default : FastCdcChunker where
  minSize := 16 * 1024
  avgSize := 64 * 1024
  maxSize := 256 * 1024
  minSize_lt := by decide
  avgSize_lt := by decide

/-- The mask from the target average size: as many low bits as the position of
its highest bit. -/
def mask (c : FastCdcChunker) : UInt64 := UInt64.ofNat (2 ^ Nat.log2 c.avgSize.toNat - 1)

/-- The scan of `cut_point`: from position `i`, over the bytes up to `max`. -/
def scan (mask : UInt64) (max : ℕ) : ℕ → UInt64 → Bytes → ℕ
  | _, _, [] => max
  | i, hash, b :: bs =>
    let hash' := (hash <<< 1) + gearTable.getD b.toNat 0
    if hash' &&& mask = 0 then i + 1 else scan mask max (i + 1) hash' bs

/-- Find the cut point within the data: the first boundary between the two
bounds `min_size` and `max_size`, or the upper one. -/
def cutPoint (c : FastCdcChunker) (data : Bytes) : ℕ :=
  let lo := min c.minSize.toNat data.length
  let hi := min c.maxSize.toNat data.length
  scan c.mask hi lo 0 ((data.take hi).drop lo)

/-- `FastCdcChunker::chunk`. -/
def chunk (c : FastCdcChunker) : Chunker := fun data =>
  if data = [] then [{ offset := 0, length := 0, data := [] }]
  else splitLoop c.cutPoint data.length 0 data

theorem scan_bounds (mask : UInt64) (max i : ℕ) (hash : UInt64) (bs : Bytes)
    (h : i + bs.length ≤ max) (hpos : 0 < max) :
    0 < scan mask max i hash bs ∧ scan mask max i hash bs ≤ max := by
  induction bs generalizing i hash with
  | nil => exact ⟨hpos, le_rfl⟩
  | cons b bs ih =>
    rw [List.length_cons] at h
    simp only [scan]
    split
    · omega
    · exact ih (i + 1) _ (by omega)

theorem cutPoint_bounds (c : FastCdcChunker) {data : Bytes} (hd : data ≠ []) :
    0 < c.cutPoint data ∧ c.cutPoint data ≤ min c.maxSize.toNat data.length := by
  have hlen := List.length_pos_iff.mpr hd
  have h1 := c.minSize_lt
  have h2 := c.avgSize_lt
  have hmax : 0 < min c.maxSize.toNat data.length := lt_min (by omega) hlen
  refine scan_bounds _ _ _ _ _ ?_ hmax
  have hmin : min c.minSize.toNat data.length ≤ min c.maxSize.toNat data.length :=
    min_le_min_right _ (by omega)
  have hle : min c.maxSize.toNat data.length ≤ data.length := Nat.min_le_right _ _
  rw [List.length_drop, List.length_take]
  omega

theorem cutPoint_nil (c : FastCdcChunker) : c.cutPoint [] = 0 := by
  simp [cutPoint, scan]

theorem cuts (c : FastCdcChunker) : Cuts c.cutPoint where
  pos _ hr := (c.cutPoint_bounds hr).1
  le rest := by
    by_cases hr : rest = []
    · rw [hr, cutPoint_nil]
      exact Nat.zero_le _
    · exact (c.cutPoint_bounds hr).2.trans (Nat.min_le_right _ _)
  lt rest := by
    by_cases hr : rest = []
    · rw [hr, cutPoint_nil]
      decide
    · exact Nat.lt_of_le_of_lt ((c.cutPoint_bounds hr).2.trans (Nat.min_le_left _ _))
        c.maxSize.toNat_lt

theorem partitions (c : FastCdcChunker) : Partitions c.chunk := by
  intro data
  by_cases hd : data = []
  · subst hd
    exact ⟨rfl, by simp [chunk], by simp [chunk, ChunkDescriptor.span, Contiguous]⟩
  · have hchunk : c.chunk data = splitLoop c.cutPoint data.length 0 data := if_neg hd
    rw [hchunk]
    exact partitions_splitLoop c.cuts data

end FastCdcChunker

end Sodl
