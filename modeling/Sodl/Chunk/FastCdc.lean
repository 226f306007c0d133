import Sodl.Chunk.Chunker
import Sodl.Effect.Loop

/-!
# The loops of FastCDC

`FastCdcChunker::chunk` (`crates/sodl-chunk/src/fastcdc.rs`) as it stands: two `while` loops, one in
the other, over indices into a slice. Here every index, slice, shift, subtraction and conversion is
checked. An index out of range, a shift by too many bits or a subtraction below zero is a panic, and
so is a conversion with `as` that would lose bits, which the source would pass over in silence.

The loops end, nothing is ever checked in vain, and what they compute is the walk of
`Sodl.FastCdcChunker.chunk` (`Sodl.FastCdcChunker.chunkLoop_eq`). What is said of that walk – where
its chunks lie, and how long they are – is then said of the source
(`Sodl.fastCdc_partitions`).
-/

namespace Sodl

open Effect

/-- `u64::leading_zeros`. -/
def leadingZeros (x : UInt64) : ℕ := if x = 0 then 64 else 63 - Nat.log2 x.toNat

namespace FastCdcChunker

variable (c : FastCdcChunker)

/-! ### The source, with its checks -/

/-- `FastCdcChunker::new`. -/
def new (minSize avgSize maxSize : UInt32) : Outcome SodlError FastCdcChunker :=
  if h : minSize.toNat < avgSize.toNat ∧ avgSize.toNat < maxSize.toNat then
    .ok ⟨minSize, avgSize, maxSize, h.1, h.2⟩
  else .panic

/-- `mask`: `(1u64 << (bits - 1)) - 1`. -/
def maskChecked : Outcome SodlError UInt64 :=
  let zeros := leadingZeros c.avgSize.toUInt64
  if 64 < zeros then .panic
  else
    let bits := 64 - zeros
    if bits < 1 ∨ 64 ≤ bits - 1 then .panic
    else
      let high := (1 : UInt64) <<< UInt64.ofNat (bits - 1)
      if high < 1 then .panic else .ok (high - 1)

/-- Where the loop of `cut_point` stands. -/
structure Scan where
  hash : UInt64
  i : ℕ

/-- A turn of the loop of `cut_point`. -/
def scanTurn (mask : UInt64) (max : ℕ) (data : Bytes) : Loop Scan SodlError ℕ := fun s =>
  if s.i < max then
    match data[s.i]? with
    | none => some .panic
    | some byte =>
      match gearTable[byte.toNat]? with
      | none => some .panic
      | some gear =>
        let hash := (s.hash <<< 1) + gear
        if hash &&& mask = 0 then some (.ok (.inl (s.i + 1)))
        else some (.ok (.inr ⟨hash, s.i + 1⟩))
  else some (.ok (.inl max))

/-- `cut_point`. -/
def cutPointLoop (fuel : ℕ) (data : Bytes) : Option (Outcome SodlError ℕ) :=
  let lo := min c.minSize.toNat data.length
  let hi := min c.maxSize.toNat data.length
  match c.maskChecked with
  | .ok mask => (scanTurn mask hi data).run fuel ⟨0, lo⟩
  | .err e => some (.err e)
  | .panic => some .panic

/-- Where the loop of `chunk` stands. -/
structure Walk where
  chunks : List ChunkDescriptor
  offset : ℕ

/-- A turn of the loop of `chunk`. -/
def walkTurn (fuel : ℕ) (data : Bytes) : Loop Walk SodlError (List ChunkDescriptor) := fun w =>
  if w.offset < data.length then
    let remaining := data.drop w.offset
    match c.cutPointLoop fuel remaining with
    | some (.ok cut) =>
      -- `&remaining[..cut]`, `offset as u64`, `cut as u32` and `offset += cut`
      if remaining.length < cut ∨ 2 ^ 64 ≤ w.offset ∨ 2 ^ 32 ≤ cut ∨ 2 ^ 64 ≤ w.offset + cut then
        some .panic
      else
        let chunk : ChunkDescriptor :=
          { offset := UInt64.ofNat w.offset, length := UInt32.ofNat cut,
            data := remaining.take cut }
        some (.ok (.inr ⟨w.chunks ++ [chunk], w.offset + cut⟩))
    | some (.err e) => some (.err e)
    | some .panic => some .panic
    | none => none
  else some (.ok (.inl w.chunks))

/-- `chunk`. -/
def chunkLoop (fuel : ℕ) (data : Bytes) : Option (Outcome SodlError (List ChunkDescriptor)) :=
  if data = [] then some (.ok [{ offset := 0, length := 0, data := [] }])
  else (c.walkTurn fuel data).run fuel ⟨[], 0⟩

/-! ### Nothing goes wrong -/

theorem length_xorshiftTable (n : ℕ) (state : UInt64) : (xorshiftTable n state).length = n := by
  induction n generalizing state with
  | zero => rfl
  | succ n ih => rw [xorshiftTable, List.length_cons, ih]

/-- Every byte has an entry of the table. -/
theorem gearTable_getElem? (byte : UInt8) :
    gearTable[byte.toNat]? = some (gearTable.getD byte.toNat 0) := by
  have hlt : byte.toNat < gearTable.length := by
    rw [gearTable, length_xorshiftTable]
    exact byte.toNat_lt
  rw [List.getD_eq_getElem?_getD, List.getElem?_eq_getElem hlt, Option.getD_some]

theorem toNat_avgSize_pos : 0 < c.avgSize.toNat := Nat.zero_lt_of_lt c.minSize_lt

/-- **The mask is computed without overflow.** -/
theorem maskChecked_eq : c.maskChecked = .ok c.mask := by
  have hpos := c.toNat_avgSize_pos
  have hto : c.avgSize.toUInt64.toNat = c.avgSize.toNat := UInt32.toNat_toUInt64 _
  have hne : c.avgSize.toUInt64 ≠ 0 := by
    intro h
    rw [h] at hto
    exact hpos.ne hto
  have hlog : Nat.log2 c.avgSize.toNat < 32 := (Nat.log2_lt hpos.ne').mpr c.avgSize.toNat_lt
  have hzeros : leadingZeros c.avgSize.toUInt64 = 63 - Nat.log2 c.avgSize.toNat := by
    rw [leadingZeros, if_neg hne, hto]
  have hbits : 64 - leadingZeros c.avgSize.toUInt64 - 1 = Nat.log2 c.avgSize.toNat := by omega
  have hpow : 2 ^ Nat.log2 c.avgSize.toNat < 2 ^ 64 := Nat.pow_lt_pow_right (by decide) (by omega)
  -- one bit, at the position of the highest of the average
  have hhigh : (1 : UInt64) <<< UInt64.ofNat (Nat.log2 c.avgSize.toNat) =
      UInt64.ofNat (2 ^ Nat.log2 c.avgSize.toNat) := by
    have hlt64 : Nat.log2 c.avgSize.toNat < 2 ^ 64 := hlog.trans (by decide)
    refine UInt64.toNat_inj.mp ?_
    rw [UInt64.toNat_shiftLeft, UInt64.toNat_ofNat_of_lt' hpow, UInt64.toNat_ofNat_of_lt' hlt64,
      Nat.mod_eq_of_lt (hlog.trans (by decide)), Nat.shiftLeft_eq, UInt64.toNat_one, Nat.one_mul]
    exact Nat.mod_eq_of_lt hpow
  have hle : (1 : ℕ) ≤ 2 ^ Nat.log2 c.avgSize.toNat := Nat.one_le_two_pow
  have hge : ¬UInt64.ofNat (2 ^ Nat.log2 c.avgSize.toNat) < 1 := by
    rw [UInt64.lt_iff_toNat_lt, UInt64.toNat_ofNat_of_lt' hpow]
    exact Nat.not_lt.mpr hle
  simp only [maskChecked]
  rw [if_neg (by omega), hbits, if_neg (by omega), hhigh, if_neg hge, mask,
    UInt64.ofNat_sub hle]
  rfl

/-- **The inner loop** ends at the cut point, with an index in range at every turn. -/
theorem scanTurn_run {mask : UInt64} {max : ℕ} {data : Bytes} (hmax : max ≤ data.length)
    {fuel lo : ℕ} (hlo : lo ≤ max) (hfuel : max < fuel) :
    (scanTurn mask max data).run fuel ⟨0, lo⟩ =
      some (.ok (scan mask max lo 0 ((data.take max).drop lo))) := by
  have hrun : ∃ n, (scanTurn mask max data).run fuel ⟨0, lo⟩ = some (.ok n) ∧
      n = scan mask max lo 0 ((data.take max).drop lo) := by
    refine Loop.run_of_measure
      (I := fun s => s.i ≤ max ∧ scan mask max s.i s.hash ((data.take max).drop s.i) =
        scan mask max lo 0 ((data.take max).drop lo))
      (fun s => max - s.i) (fun s hs => ?_) ⟨hlo, rfl⟩
      (Nat.lt_of_le_of_lt (Nat.sub_le _ _) hfuel)
    obtain ⟨hle, heq⟩ := hs
    rw [scanTurn]
    by_cases hlt : s.i < max
    · have hidx : s.i < (data.take max).length := by
        rw [List.length_take]
        omega
      have hget : data[s.i]? = some (data.take max)[s.i] := by
        rw [List.getElem_take, ← List.getElem?_eq_getElem]
      rw [List.drop_eq_getElem_cons hidx, scan] at heq
      rw [if_pos hlt, hget]
      simp only [gearTable_getElem?]
      split
      · rename_i hhit
        rw [if_pos hhit] at heq
        exact Or.inl ⟨_, rfl, heq⟩
      · rename_i hmiss
        rw [if_neg hmiss] at heq
        exact Or.inr ⟨_, rfl, ⟨hlt, heq⟩, Nat.sub_lt_sub_left hlt (Nat.lt_succ_self _)⟩
    · have hnil : (data.take max).drop s.i = [] := by
        rw [List.drop_eq_nil_iff, List.length_take]
        omega
      rw [hnil, scan] at heq
      rw [if_neg hlt]
      exact Or.inl ⟨_, rfl, heq⟩
  obtain ⟨n, hn, rfl⟩ := hrun
  exact hn

/-- The bounds of a scan are in order. -/
theorem min_bounds (data : Bytes) :
    min c.minSize.toNat data.length ≤ min c.maxSize.toNat data.length :=
  min_le_min_right _ (c.minSize_lt.trans c.avgSize_lt).le

theorem cutPointLoop_eq {fuel : ℕ} {data : Bytes} (hfuel : data.length < fuel) :
    c.cutPointLoop fuel data = some (.ok (c.cutPoint data)) := by
  rw [cutPointLoop, maskChecked_eq]
  exact scanTurn_run (Nat.min_le_right _ _) (c.min_bounds data)
    (Nat.lt_of_le_of_lt (Nat.min_le_right _ _) hfuel)

end FastCdcChunker

/-! ### The walk -/

/-- The walk over what is left, with as many turns as there are bytes. -/
def walk (cut : Bytes → ℕ) (offset : ℕ) (rest : Bytes) : List ChunkDescriptor :=
  splitLoop cut rest.length offset rest

/-- The chunk that is cut off. -/
def cutOff (cut : Bytes → ℕ) (offset : ℕ) (rest : Bytes) : ChunkDescriptor where
  offset := UInt64.ofNat offset
  length := UInt32.ofNat (cut rest)
  data := rest.take (cut rest)

section Walk

variable {cut : Bytes → ℕ} {fuel fuel' offset : ℕ} {rest : Bytes}

theorem splitLoop_nil : splitLoop cut fuel offset [] = [] := by
  cases fuel with
  | zero => rfl
  | succ fuel => rw [splitLoop, if_pos rfl]

/-- More turns than there are bytes make no difference. -/
theorem splitLoop_congr (hc : Cuts cut) (hfuel : rest.length ≤ fuel)
    (hfuel' : rest.length ≤ fuel') :
    splitLoop cut fuel offset rest = splitLoop cut fuel' offset rest := by
  induction fuel generalizing fuel' offset rest with
  | zero =>
    obtain rfl := List.eq_nil_of_length_eq_zero (Nat.le_zero.mp hfuel)
    rw [splitLoop_nil, splitLoop_nil]
  | succ fuel ih =>
    by_cases hr : rest = []
    · rw [hr, splitLoop_nil, splitLoop_nil]
    · have hpos := hc.pos rest hr
      have hlen := List.length_pos_iff.mpr hr
      obtain ⟨n, rfl⟩ : ∃ n, fuel' = n + 1 := ⟨fuel' - 1, by omega⟩
      rw [splitLoop, splitLoop, if_neg hr, if_neg hr]
      refine congrArg _ (ih ?_ ?_)
      · rw [List.length_drop]
        omega
      · rw [List.length_drop]
        omega

theorem walk_nil : walk cut offset [] = [] := rfl

/-- **One turn of the walk.** -/
theorem walk_eq (hc : Cuts cut) (hr : rest ≠ []) : walk cut offset rest =
    cutOff cut offset rest :: walk cut (offset + cut rest) (rest.drop (cut rest)) := by
  have hpos := hc.pos rest hr
  have hlen := List.length_pos_iff.mpr hr
  obtain ⟨n, hn⟩ : ∃ n, rest.length = n + 1 := ⟨rest.length - 1, by omega⟩
  rw [walk, hn, splitLoop, if_neg hr]
  refine congrArg _ (splitLoop_congr hc ?_ le_rfl)
  rw [List.length_drop]
  omega

/-- **The rule of the walk**: what holds at the end, and before a chunk if behind it, holds
everywhere. -/
theorem walk_induction (hc : Cuts cut) {motive : ℕ → Bytes → Prop}
    (nil : ∀ offset, motive offset [])
    (cons : ∀ offset rest, rest ≠ [] → motive (offset + cut rest) (rest.drop (cut rest)) →
      motive offset rest) (offset : ℕ) (rest : Bytes) : motive offset rest := by
  generalize hn : rest.length = n
  induction n using Nat.strong_induction_on generalizing offset rest with
  | _ n ih =>
    by_cases hr : rest = []
    · subst hr
      exact nil offset
    · have hpos := hc.pos rest hr
      have hlen := List.length_pos_iff.mpr hr
      refine cons offset rest hr (ih _ ?_ _ _ rfl)
      rw [List.length_drop]
      omega

theorem length_cutOff (hc : Cuts cut) : (cutOff cut offset rest).length.toNat = cut rest :=
  UInt32.toNat_ofNat_of_lt' (hc.lt rest)

theorem length_data_cutOff (hc : Cuts cut) : (cutOff cut offset rest).data.length = cut rest := by
  rw [cutOff, List.length_take, Nat.min_eq_left (hc.le rest)]

/-- A chunk of the walk starts behind those before it. -/
theorem offset_of_walk (hc : Cuts cut) {pre post : List ChunkDescriptor} {d : ChunkDescriptor}
    (h : walk cut offset rest = pre ++ d :: post) :
    d.offset = UInt64.ofNat (offset + (pre.flatMap ChunkDescriptor.data).length) := by
  induction offset, rest using walk_induction hc generalizing pre with
  | nil offset => exact absurd h (by simp [walk_nil])
  | cons offset rest hr ih =>
    rw [walk_eq hc hr] at h
    cases pre with
    | nil =>
      obtain ⟨rfl, -⟩ := List.cons.inj h
      rfl
    | cons d' pre =>
      obtain ⟨rfl, hrest⟩ := List.cons.inj h
      rw [ih hrest, List.flatMap_cons, List.length_append, length_data_cutOff hc, Nat.add_assoc]

end Walk

namespace FastCdcChunker

variable {c : FastCdcChunker} {data : Bytes}

theorem chunk_eq_walk (hd : data ≠ []) : c.chunk data = walk c.cutPoint 0 data := if_neg hd

/-- **The outer loop** ends with the chunks of the walk, and nothing overflows on the way. -/
theorem chunkLoop_eq (hslice : data.length ≤ isizeMax) {fuel : ℕ} (hfuel : data.length < fuel) :
    c.chunkLoop fuel data = some (.ok (c.chunk data)) := by
  by_cases hd : data = []
  · rw [chunkLoop, chunk, if_pos hd, if_pos hd]
  · rw [chunkLoop, if_neg hd, chunk_eq_walk hd]
    have hsize : isizeMax < 2 ^ 64 := by decide
    have hrun : ∃ cs, (c.walkTurn fuel data).run fuel ⟨[], 0⟩ = some (.ok cs) ∧
        cs = walk c.cutPoint 0 data := by
      refine Loop.run_of_measure
        (I := fun w => w.offset ≤ data.length ∧
          w.chunks ++ walk c.cutPoint w.offset (data.drop w.offset) = walk c.cutPoint 0 data)
        (fun w => data.length - w.offset) (fun w hw => ?_) ⟨Nat.zero_le _, rfl⟩
        (Nat.lt_of_le_of_lt (Nat.sub_le _ _) hfuel)
      obtain ⟨hle, heq⟩ := hw
      rw [walkTurn]
      by_cases hlt : w.offset < data.length
      · have hlen : (data.drop w.offset).length = data.length - w.offset := List.length_drop
        have hne : data.drop w.offset ≠ [] := List.ne_nil_of_length_pos (by omega)
        have hpos := c.cuts.pos _ hne
        have hcut := c.cuts.le (data.drop w.offset)
        have hlt32 := c.cuts.lt (data.drop w.offset)
        rw [if_pos hlt]
        dsimp only
        rw [c.cutPointLoop_eq (by omega)]
        dsimp only
        rw [if_neg (by omega)]
        refine Or.inr ⟨_, rfl, ⟨by dsimp only; omega, ?_⟩, by dsimp only; omega⟩
        rw [walk_eq c.cuts hne, List.drop_drop] at heq
        rw [← heq, List.append_assoc]
        rfl
      · have hnil : data.drop w.offset = [] := List.drop_eq_nil_iff.mpr (Nat.le_of_not_lt hlt)
        rw [hnil, walk_nil, List.append_nil] at heq
        rw [if_neg hlt]
        exact Or.inl ⟨_, rfl, heq⟩
    obtain ⟨cs, hcs, rfl⟩ := hrun
    exact hcs

/-! ### How long the chunks are -/

/-- The scan does not stop where it begins. -/
theorem lt_scan {mask : UInt64} {max i j : ℕ} {hash : UInt64} {bs : Bytes} (hij : j ≤ i)
    (hj : j < max) : j < scan mask max i hash bs := by
  induction bs generalizing i hash with
  | nil => exact hj
  | cons b bs ih =>
    rw [scan]
    split
    · exact Nat.lt_succ_of_le hij
    · exact ih (hij.trans (Nat.le_succ i))

/-- A chunk behind which something is left is longer than the lower bound. -/
theorem minSize_lt_cutPoint (h : c.cutPoint data < data.length) :
    c.minSize.toNat < c.cutPoint data := by
  have hmin := c.minSize_lt
  have havg := c.avgSize_lt
  rw [cutPoint] at h ⊢
  rcases Nat.lt_or_ge c.minSize.toNat data.length with hlt | hge
  · -- the scan begins at the lower bound
    rw [Nat.min_eq_left hlt.le]
    exact lt_scan le_rfl (lt_min (by omega) hlt)
  · -- there is nothing to scan, and all is cut off
    have hnil : (data.take (min c.maxSize.toNat data.length)).drop
        (min c.minSize.toNat data.length) = [] := by
      rw [List.drop_eq_nil_iff, List.length_take]
      omega
    rw [hnil, scan] at h
    omega

/-- The lengths of the chunks of a walk: all but the last are longer than the lower bound, none is
empty, and none is longer than the upper one. -/
theorem length_of_walk (offset : ℕ) (rest : Bytes) :
    (∀ d ∈ walk c.cutPoint offset rest, 1 ≤ d.length.toNat ∧ d.length.toNat ≤ c.maxSize.toNat) ∧
      ∀ d ∈ (walk c.cutPoint offset rest).dropLast, c.minSize.toNat < d.length.toNat := by
  induction offset, rest using walk_induction c.cuts with
  | nil offset => exact ⟨nofun, nofun⟩
  | cons offset rest hr ih =>
    have hbounds := c.cutPoint_bounds hr
    rw [walk_eq c.cuts hr]
    refine ⟨List.forall_mem_cons.mpr ⟨?_, ih.1⟩, fun d hd => ?_⟩
    · rw [length_cutOff c.cuts]
      exact ⟨hbounds.1, hbounds.2.trans (Nat.min_le_left _ _)⟩
    · by_cases hrest : rest.drop (c.cutPoint rest) = []
      · rw [hrest, walk_nil] at hd
        exact absurd hd List.not_mem_nil
      · have hwalk : walk c.cutPoint (offset + c.cutPoint rest)
            (rest.drop (c.cutPoint rest)) ≠ [] := by
          rw [walk_eq c.cuts hrest]
          exact List.cons_ne_nil _ _
        rw [List.dropLast_cons_of_ne_nil hwalk] at hd
        rcases List.mem_cons.mp hd with rfl | hd
        · rw [length_cutOff c.cuts]
          refine minSize_lt_cutPoint (Nat.lt_of_not_le fun hle => hrest ?_)
          exact List.drop_eq_nil_iff.mpr hle
        · exact ih.2 d hd

end FastCdcChunker

/-- **FastCDC partitions its input within bounds.** With any sizes that `new` accepts, over any
slice that is not empty:

* every cut point is found, and takes at least one byte;
* both loops end, and no index, slice, shift, subtraction or conversion goes wrong in them;
* the chunks are the slice when put together, each declares its length and starts where the one
  before it ended;
* all but the last are longer than the lower bound, the last has a byte at least, and none is longer
  than the upper bound. -/
theorem fastCdc_partitions {minSize avgSize maxSize : UInt32} {c : FastCdcChunker}
    (hnew : FastCdcChunker.new minSize avgSize maxSize = .ok c) {data : Bytes} (hne : data ≠ [])
    (hslice : data.length ≤ isizeMax) :
    (∀ rest : Bytes, rest ≠ [] → ∀ fuel, rest.length < fuel →
      ∃ n, c.cutPointLoop fuel rest = some (.ok n) ∧ 1 ≤ n) ∧
    ∃ cs, (∀ fuel, data.length < fuel → c.chunkLoop fuel data = some (.ok cs)) ∧
      cs.flatMap ChunkDescriptor.data = data ∧
      (∀ d ∈ cs, d.length.toNat = d.data.length) ∧
      (∀ pre d post, cs = pre ++ d :: post →
        d.offset.toNat = (pre.flatMap ChunkDescriptor.data).length) ∧
      (∀ d ∈ cs.dropLast, minSize.toNat < d.length.toNat ∧ d.length.toNat ≤ maxSize.toNat) ∧
      ∃ last, cs.getLast? = some last ∧ 1 ≤ last.length.toNat ∧
        last.length.toNat ≤ maxSize.toNat := by
  obtain ⟨hmin, hmax⟩ : c.minSize = minSize ∧ c.maxSize = maxSize := by
    rw [FastCdcChunker.new] at hnew
    split at hnew
    · obtain rfl := Outcome.ok.inj hnew
      exact ⟨rfl, rfl⟩
    · exact absurd hnew (by simp)
  have hpart := c.partitions data
  obtain ⟨hlength, hlower⟩ := FastCdcChunker.length_of_walk (c := c) 0 data
  rw [← FastCdcChunker.chunk_eq_walk hne] at hlength hlower
  rw [hmin] at hlower
  rw [hmax] at hlength
  refine ⟨fun rest hr fuel hfuel => ⟨_, c.cutPointLoop_eq hfuel, (c.cutPoint_bounds hr).1⟩,
    c.chunk data, fun fuel => FastCdcChunker.chunkLoop_eq hslice, hpart.flatten, hpart.length_eq,
    fun pre d post hsplit => ?_,
    fun d hd => ⟨hlower d hd, (hlength d (List.dropLast_subset _ hd)).2⟩, ?_⟩
  · -- an offset is less than the length of the slice
    have hflatten := hpart.flatten
    rw [hsplit, List.flatMap_append] at hflatten
    have hlen := congrArg List.length hflatten
    rw [List.length_append] at hlen
    rw [FastCdcChunker.chunk_eq_walk hne] at hsplit
    rw [offset_of_walk c.cuts hsplit, Nat.zero_add, UInt64.toNat_ofNat_of_lt']
    have hsize : isizeMax < 2 ^ 64 := by decide
    exact Nat.lt_of_le_of_lt (by omega) hsize
  · have hcs : c.chunk data ≠ [] := by
      rw [FastCdcChunker.chunk_eq_walk hne, walk_eq c.cuts hne]
      exact List.cons_ne_nil _ _
    exact ⟨_, List.getLast?_eq_some_getLast hcs, hlength _ (List.getLast_mem hcs)⟩

/-- Sizes from zero on, and a payload of three bytes. -/
theorem fastCdc_partitions_threeBytes : ∃ c cs, FastCdcChunker.new 0 1 2 = .ok c ∧
    (∀ fuel, 3 < fuel → c.chunkLoop fuel [1, 2, 3] = some (.ok cs)) ∧
    cs.flatMap ChunkDescriptor.data = [1, 2, 3] := by
  have hnew : ∃ c, FastCdcChunker.new 0 1 2 = .ok c := ⟨_, rfl⟩
  obtain ⟨c, hc⟩ := hnew
  have hslice : ([1, 2, 3] : Bytes).length ≤ isizeMax := by decide
  obtain ⟨-, cs, hrun, hflatten, -⟩ := fastCdc_partitions hc (List.cons_ne_nil _ _) hslice
  exact ⟨c, cs, hc, hrun, hflatten⟩

end Sodl
