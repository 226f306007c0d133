import Mathlib.Data.List.Forall2
import Mathlib.Data.List.Infix
import Sodl.Chunk.FastCdc

/-!
# The boundaries of FastCDC depend on the content around them

`FastCdcChunker::cut_point` starts afresh behind every boundary and reads forward, so that what it
decides depends on the bytes behind the boundary and on nothing before it. Two things follow for
the chunks of two byte strings.

* If the strings end alike, and the common end begins at a boundary of each, the chunks behind that
  boundary are the same but for where they lie. The walks start at the same bytes
  (`Sodl.forall₂_walk`), and a boundary cuts a walk in two (`Sodl.walk_split`).
* If the strings begin alike, the chunks within the common beginning are the same. Here the
  argument is on a single cut (`Sodl.FastCdcChunker.cutPoint_congr`): the scan hits among the bytes
  that are common, or it is at the upper bound, which the other scan reaches as well. What is behind
  the cut enters through the lengths only, and a cut that leaves something behind does not feel it.
-/

namespace Sodl

/-- Where a chunk ends. -/
def ChunkDescriptor.stop (d : ChunkDescriptor) : ℕ := d.offset.toNat + d.length.toNat

/-- A boundary: the start of the payload, or the end of a chunk. -/
def IsBoundary (cs : List ChunkDescriptor) (p : ℕ) : Prop := p = 0 ∨ ∃ d ∈ cs, d.stop = p

instance (cs : List ChunkDescriptor) (p : ℕ) : Decidable (IsBoundary cs p) :=
  inferInstanceAs (Decidable (_ ∨ _))

/-- The chunks behind a position, without the one of a payload that is empty. -/
def behind (p : ℕ) (cs : List ChunkDescriptor) : List ChunkDescriptor :=
  cs.filter fun d => p ≤ d.offset.toNat ∧ d.data ≠ []

/-- The same chunk, as far from `n` as the other is from `m`. -/
def Shifted (m n : ℕ) (d e : ChunkDescriptor) : Prop :=
  e.data = d.data ∧ e.length = d.length ∧ d.offset.toNat + n = e.offset.toNat + m

/-! ### Two walks over the same bytes -/

section Walk

variable {cut : Bytes → ℕ} {offset : ℕ} {rest : Bytes}

theorem toNat_offset_cutOff (h : offset ≤ isizeMax) :
    (cutOff cut offset rest).offset.toNat = offset :=
  UInt64.toNat_ofNat_of_lt' (Nat.lt_of_le_of_lt h (by decide))

theorem stop_cutOff (hc : Cuts cut) (h : offset ≤ isizeMax) :
    (cutOff cut offset rest).stop = offset + cut rest := by
  rw [ChunkDescriptor.stop, toNat_offset_cutOff h, length_cutOff hc]

/-- What is left behind a cut is within the bound of a slice. -/
theorem add_length_drop (hc : Cuts cut) (h : offset + rest.length ≤ isizeMax) :
    offset + cut rest + (rest.drop (cut rest)).length ≤ isizeMax := by
  have hle := hc.le rest
  rw [List.length_drop]
  omega

/-- The chunks of a walk lie where it starts or behind, and are not empty. -/
theorem mem_walk (hc : Cuts cut) (hlen : offset + rest.length ≤ isizeMax) :
    ∀ d ∈ walk cut offset rest, offset ≤ d.offset.toNat ∧ d.data ≠ [] := by
  induction offset, rest using walk_induction hc with
  | nil offset => exact nofun
  | cons offset rest hr ih =>
    rw [walk_eq hc hr]
    refine List.forall_mem_cons.mpr ⟨⟨?_, ?_⟩, fun d hd => ?_⟩
    · rw [toNat_offset_cutOff (by omega)]
    · refine List.ne_nil_of_length_pos ?_
      rw [length_data_cutOff hc]
      exact hc.pos rest hr
    · obtain ⟨hle, hne⟩ := ih (add_length_drop hc hlen) d hd
      exact ⟨by omega, hne⟩

/-- **Two walks over the same bytes** cut off the same chunks, wherever each of them starts. -/
theorem forall₂_walk (hc : Cuts cut) {m n : ℕ} (hm : m + rest.length ≤ isizeMax)
    (hn : n + rest.length ≤ isizeMax) :
    List.Forall₂ (Shifted m n) (walk cut m rest) (walk cut n rest) := by
  -- the distance stays what it is at the start
  suffices h : ∀ i, m + i + rest.length ≤ isizeMax → n + i + rest.length ≤ isizeMax →
      List.Forall₂ (Shifted m n) (walk cut (m + i) rest) (walk cut (n + i) rest) from h 0 hm hn
  clear hm hn
  intro i hm hn
  induction i, rest using walk_induction hc with
  | nil i => exact List.Forall₂.nil
  | cons i rest hr ih =>
    rw [walk_eq hc hr, walk_eq hc hr]
    refine List.Forall₂.cons ⟨rfl, rfl, ?_⟩ ?_
    · rw [toNat_offset_cutOff (by omega), toNat_offset_cutOff (by omega)]
      omega
    · rw [Nat.add_assoc, Nat.add_assoc]
      refine ih ?_ ?_
      · rw [← Nat.add_assoc]
        exact add_length_drop hc hm
      · rw [← Nat.add_assoc]
        exact add_length_drop hc hn

/-- **A boundary cuts a walk in two**: from there on it is the walk over what is left. -/
theorem walk_split (hc : Cuts cut) (hlen : offset + rest.length ≤ isizeMax) {p : ℕ}
    (hp : p = offset ∨ ∃ d ∈ walk cut offset rest, d.stop = p) :
    offset ≤ p ∧ p ≤ offset + rest.length ∧ ∃ pre, (∀ d ∈ pre, d.offset.toNat < p) ∧
      walk cut offset rest = pre ++ walk cut p (rest.drop (p - offset)) := by
  induction offset, rest using walk_induction hc with
  | nil offset =>
    rcases hp with rfl | ⟨d, hd, -⟩
    · exact ⟨le_rfl, Nat.le_add_right _ _, [], nofun, by rw [List.drop_nil, List.nil_append]⟩
    · exact absurd hd List.not_mem_nil
  | cons offset rest hr ih =>
    have hpos := hc.pos rest hr
    have hle := hc.le rest
    have hlen' := add_length_drop hc hlen
    rcases hp with rfl | ⟨d, hd, rfl⟩
    · exact ⟨le_rfl, Nat.le_add_right _ _, [], nofun, by rw [Nat.sub_self]; rfl⟩
    · -- the boundary is behind the first chunk, and is one of the walk that follows
      have hnext : d.stop = offset + cut rest ∨ ∃ e ∈ walk cut (offset + cut rest)
          (rest.drop (cut rest)), e.stop = d.stop := by
        rw [walk_eq hc hr] at hd
        rcases List.mem_cons.mp hd with rfl | hd
        · exact Or.inl (stop_cutOff hc (by omega))
        · exact Or.inr ⟨d, hd, rfl⟩
      obtain ⟨hge, hlast, pre, hpre, heq⟩ := ih hlen' hnext
      rw [List.length_drop] at hlast
      rw [List.drop_drop, show cut rest + (d.stop - (offset + cut rest)) = d.stop - offset by omega]
        at heq
      refine ⟨by omega, by omega, cutOff cut offset rest :: pre,
        List.forall_mem_cons.mpr ⟨?_, hpre⟩, ?_⟩
      · rw [toNat_offset_cutOff (by omega)]
        omega
      · rw [walk_eq hc hr, heq, List.cons_append]

/-- The chunks behind a boundary are those of the walk that starts there. -/
theorem behind_walk (hc : Cuts cut) (hlen : rest.length ≤ isizeMax) {p : ℕ}
    (hp : IsBoundary (walk cut 0 rest) p) :
    behind p (walk cut 0 rest) = walk cut p (rest.drop p) := by
  obtain ⟨-, hle, pre, hpre, heq⟩ := walk_split hc (by omega) hp
  rw [Nat.sub_zero] at heq
  have hall : ∀ d ∈ walk cut p (rest.drop p), p ≤ d.offset.toNat ∧ d.data ≠ [] := by
    refine mem_walk hc ?_
    rw [List.length_drop]
    omega
  have hnone : pre.filter (fun d => p ≤ d.offset.toNat ∧ d.data ≠ []) = [] := by
    refine List.filter_eq_nil_iff.mpr fun d hd hbehind => ?_
    exact absurd (of_decide_eq_true hbehind).1 (Nat.not_le.mpr (hpre d hd))
  have hevery : (walk cut p (rest.drop p)).filter
      (fun d => p ≤ d.offset.toNat ∧ d.data ≠ []) = walk cut p (rest.drop p) :=
    List.filter_eq_self.mpr fun d hd => decide_eq_true (hall d hd)
  rw [behind, heq, List.filter_append, hnone, List.nil_append, hevery]

end Walk

/-! ### A single cut -/

namespace FastCdcChunker

variable {c : FastCdcChunker} {p x y : Bytes}

/-- Where a scan stops, if it stops among the first bytes, depends on these alone; and if it does
not, it goes on from a hash that does. -/
theorem scan_append (mask : UInt64) (i : ℕ) (hash : UInt64) (u : Bytes) :
    (∃ j, ∀ max t, scan mask max i hash (u ++ t) = j) ∨
      ∃ hash', ∀ max t, scan mask max i hash (u ++ t) = scan mask max (i + u.length) hash' t := by
  induction u generalizing i hash with
  | nil => exact Or.inr ⟨hash, fun max t => rfl⟩
  | cons b u ih =>
    simp only [List.cons_append, scan]
    split
    · exact Or.inl ⟨i + 1, fun max t => rfl⟩
    · rw [List.length_cons, Nat.add_comm u.length, ← Nat.add_assoc]
      exact ih (i + 1) _

/-- What a scan reads begins with what it has in common. -/
theorem drop_take_eq_append {data : Bytes} {lo k hi : ℕ} (hp : p <+: data) (hk : k ≤ p.length)
    (hlo : lo ≤ k) (hhi : k ≤ hi) :
    (data.take hi).drop lo = (p.take k).drop lo ++ (data.take hi).drop k := by
  have htake : (data.take hi).take k = p.take k := by
    obtain ⟨t, rfl⟩ := hp
    rw [List.take_take, Nat.min_eq_left hhi, List.take_append_of_le_length hk]
  have hlen : lo ≤ (p.take k).length := by
    rw [List.length_take, Nat.min_eq_left hk]
    exact hlo
  rw [← List.drop_append_of_le_length hlen, ← htake, List.take_append_drop]

/-- **A cut depends on what it cuts off**, as long as it leaves something behind. -/
theorem cutPoint_congr (hx : p <+: x) (hy : p <+: y) (hlt : c.cutPoint x < x.length)
    (hle : c.cutPoint x ≤ p.length) : c.cutPoint y = c.cutPoint x := by
  have hmin := minSize_lt_cutPoint hlt
  have hmax : c.cutPoint x ≤ c.maxSize.toNat := by
    refine (c.cutPoint_bounds ?_).2.trans (Nat.min_le_left _ _)
    exact List.ne_nil_of_length_pos (by omega)
  have hylen : p.length ≤ y.length := hy.length_le
  -- both scans begin at the lower bound, and read the same bytes up to the cut
  have hlox : min c.minSize.toNat x.length = c.minSize.toNat := Nat.min_eq_left (by omega)
  have hloy : min c.minSize.toNat y.length = c.minSize.toNat := Nat.min_eq_left (by omega)
  have hhix : c.cutPoint x ≤ min c.maxSize.toNat x.length := le_min hmax hlt.le
  have hhiy : c.cutPoint x ≤ min c.maxSize.toNat y.length := le_min hmax (by omega)
  have hcutx : c.cutPoint x = scan c.mask (min c.maxSize.toNat x.length) c.minSize.toNat 0
      ((p.take (c.cutPoint x)).drop c.minSize.toNat ++
        (x.take (min c.maxSize.toNat x.length)).drop (c.cutPoint x)) := by
    rw [← drop_take_eq_append hx hle hmin.le hhix]
    conv_lhs => rw [cutPoint, hlox]
  have hcuty : c.cutPoint y = scan c.mask (min c.maxSize.toNat y.length) c.minSize.toNat 0
      ((p.take (c.cutPoint x)).drop c.minSize.toNat ++
        (y.take (min c.maxSize.toNat y.length)).drop (c.cutPoint x)) := by
    rw [← drop_take_eq_append hy hle hmin.le hhiy]
    conv_lhs => rw [cutPoint, hloy]
  have hlen : c.minSize.toNat + ((p.take (c.cutPoint x)).drop c.minSize.toNat).length =
      c.cutPoint x := by
    rw [List.length_drop, List.length_take, Nat.min_eq_left hle]
    omega
  rcases scan_append c.mask c.minSize.toNat 0 ((p.take (c.cutPoint x)).drop c.minSize.toNat) with
    ⟨j, hj⟩ | ⟨hash, hgoes⟩
  · -- the scan hits among the common bytes
    rw [hj] at hcutx hcuty
    rw [hcutx, hcuty]
  · -- it does not, and so the cut is forced
    rw [hgoes, hlen] at hcutx hcuty
    have hforced : min c.maxSize.toNat x.length ≤ c.cutPoint x := by
      refine Nat.le_of_not_lt fun h => ?_
      have hfurther : c.cutPoint x < scan c.mask (min c.maxSize.toNat x.length) (c.cutPoint x) hash
          ((x.take (min c.maxSize.toNat x.length)).drop (c.cutPoint x)) := lt_scan le_rfl h
      exact absurd hcutx (Nat.ne_of_lt hfurther)
    have hnil : (y.take (min c.maxSize.toNat y.length)).drop (c.cutPoint x) = [] := by
      rw [List.drop_eq_nil_iff, List.length_take]
      omega
    rw [hcuty, hnil, scan]
    omega

/-- **The chunks within a common beginning** are chunks of both. -/
theorem mem_walk_of_prefix {offset : ℕ} (hx : p <+: x) (hy : p <+: y)
    (hlen : offset + x.length ≤ isizeMax) :
    ∀ d ∈ (walk c.cutPoint offset x).dropLast, d.stop ≤ offset + p.length →
      d ∈ walk c.cutPoint offset y := by
  induction offset, x using walk_induction c.cuts generalizing p y with
  | nil offset => exact nofun
  | cons offset x hr ih =>
    intro d hd hstop
    rw [walk_eq c.cuts hr] at hd
    by_cases hrest : x.drop (c.cutPoint x) = []
    · rw [hrest, walk_nil] at hd
      exact absurd hd List.not_mem_nil
    · have hlt : c.cutPoint x < x.length :=
        Nat.lt_of_not_le fun hle => hrest (List.drop_eq_nil_iff.mpr hle)
      have hlen' := add_length_drop c.cuts hlen
      have hwalk : walk c.cutPoint (offset + c.cutPoint x) (x.drop (c.cutPoint x)) ≠ [] := by
        rw [walk_eq c.cuts hrest]
        exact List.cons_ne_nil _ _
      rw [List.dropLast_cons_of_ne_nil hwalk] at hd
      -- the first chunk ends no later than the one in question
      have hle : c.cutPoint x ≤ p.length := by
        rcases List.mem_cons.mp hd with rfl | hd
        · rw [stop_cutOff c.cuts (by omega)] at hstop
          omega
        · have hoff := (mem_walk c.cuts hlen' d (List.dropLast_subset _ hd)).1
          rw [ChunkDescriptor.stop] at hstop
          omega
      have hcut := cutPoint_congr hx hy hlt hle
      have hpos := c.cuts.pos x hr
      have hyne : y ≠ [] := List.ne_nil_of_length_pos (by have := hy.length_le; omega)
      have htake : y.take (c.cutPoint x) = x.take (c.cutPoint x) := by
        obtain ⟨s, rfl⟩ := hx
        obtain ⟨t, rfl⟩ := hy
        rw [List.take_append_of_le_length hle, List.take_append_of_le_length hle]
      rw [walk_eq c.cuts hyne, hcut]
      rcases List.mem_cons.mp hd with rfl | hd
      · refine List.mem_cons.mpr (Or.inl ?_)
        rw [cutOff, cutOff, hcut, htake]
      · refine List.mem_cons.mpr (Or.inr (ih (hx.drop _) (hy.drop _) hlen' d hd ?_))
        rw [List.length_drop]
        omega

/-- The chunks behind a boundary of each of two payloads that end alike. -/
theorem forall₂_behind {a b s : Bytes} (ha : (a ++ s).length ≤ isizeMax)
    (hb : (b ++ s).length ≤ isizeMax) (hba : IsBoundary (c.chunk (a ++ s)) a.length)
    (hbb : IsBoundary (c.chunk (b ++ s)) b.length) :
    List.Forall₂ (Shifted a.length b.length) (behind a.length (c.chunk (a ++ s)))
      (behind b.length (c.chunk (b ++ s))) := by
  have hwalk : ∀ {d : Bytes}, (d ++ s).length ≤ isizeMax →
      IsBoundary (c.chunk (d ++ s)) d.length →
      behind d.length (c.chunk (d ++ s)) = walk c.cutPoint d.length s := by
    intro d hlen hboundary
    by_cases hne : d ++ s = []
    · -- the chunk of an empty payload is not behind anything
      obtain ⟨rfl, rfl⟩ := List.append_eq_nil_iff.mp hne
      rfl
    · rw [chunk_eq_walk hne] at hboundary ⊢
      rw [behind_walk c.cuts hlen hboundary, List.drop_left]
  rw [List.length_append] at ha hb
  rw [hwalk (by rw [List.length_append]; exact ha) hba,
    hwalk (by rw [List.length_append]; exact hb) hbb]
  exact forall₂_walk c.cuts ha hb

/-- The chunks within a common beginning of two payloads. -/
theorem mem_chunk_of_prefix (hx : p <+: x) (hy : p <+: y) (hlen : x.length ≤ isizeMax) :
    ∀ d ∈ (c.chunk x).dropLast, d.stop ≤ p.length → d ∈ c.chunk y := by
  intro d hd hstop
  by_cases hxe : x = []
  · rw [chunk, if_pos hxe] at hd
    exact absurd hd List.not_mem_nil
  · rw [chunk_eq_walk hxe] at hd
    have hlen' : 0 + x.length ≤ isizeMax := by omega
    have hmem := mem_walk_of_prefix hx hy hlen' d hd (by omega)
    rw [chunk_eq_walk]
    · exact hmem
    · rintro rfl
      exact absurd hmem List.not_mem_nil

/-- A chunk within a beginning behind which something is left is not the last. -/
theorem mem_dropLast_of_stop {s : Bytes} (hs : s ≠ []) (hlen : (p ++ s).length ≤ isizeMax)
    {d : ChunkDescriptor} (hd : d ∈ c.chunk (p ++ s)) (hstop : d.stop ≤ p.length) :
    d ∈ (c.chunk (p ++ s)).dropLast := by
  have hne : p ++ s ≠ [] := fun h => hs (List.append_eq_nil_iff.mp h).2
  have hpart := c.partitions (p ++ s)
  have hcs : c.chunk (p ++ s) ≠ [] := List.ne_nil_of_mem hd
  rw [← List.dropLast_append_getLast hcs] at hd
  rcases List.mem_append.mp hd with hd | hd
  · exact hd
  · -- the last one ends with the payload
    obtain rfl := List.mem_singleton.mp hd
    have hsplit := (List.dropLast_append_getLast hcs).symm
    have hlength := congrArg List.length hpart.flatten
    have hself := hpart.length_eq _ (List.getLast_mem hcs)
    rw [hsplit, List.flatMap_append, List.length_append, List.flatMap_singleton] at hlength
    have hwalk := (chunk_eq_walk hne).symm.trans hsplit
    have hoff := congrArg UInt64.toNat (offset_of_walk c.cuts hwalk)
    rw [Nat.zero_add, UInt64.toNat_ofNat_of_lt'] at hoff
    · have hpos := List.length_pos_iff.mpr hs
      rw [ChunkDescriptor.stop, hoff, hself, hlength, List.length_append] at hstop
      omega
    · exact Nat.lt_of_le_of_lt (by omega) (show isizeMax < 2 ^ 64 by decide)

end FastCdcChunker

/-- **The boundaries of FastCDC depend on the content around them**, whatever the sizes.

* Where two slices end alike, and the common end begins at a boundary of each, the chunks behind it
  have the same data, as far from the one boundary as from the other.
* Where they begin alike, a chunk of the one that is not its last and ends within the common
  beginning is a chunk of the other.
* So an edit in the middle leaves the chunks before it as they were; and once a boundary of the new
  slice is where one of the old was, so are all that follow. -/
theorem fastCdc_local (c : FastCdcChunker) :
    (∀ a b s : Bytes, (a ++ s).length ≤ isizeMax → (b ++ s).length ≤ isizeMax →
      IsBoundary (c.chunk (a ++ s)) a.length → IsBoundary (c.chunk (b ++ s)) b.length →
      List.Forall₂ (Shifted a.length b.length) (behind a.length (c.chunk (a ++ s)))
        (behind b.length (c.chunk (b ++ s)))) ∧
    (∀ p x y : Bytes, x.length ≤ isizeMax → p <+: x → p <+: y →
      ∀ d ∈ (c.chunk x).dropLast, d.stop ≤ p.length → d ∈ c.chunk y) ∧
    (∀ p u v s t : Bytes, (p ++ u ++ s ++ t).length ≤ isizeMax →
      (p ++ v ++ s ++ t).length ≤ isizeMax →
      (u ++ s ++ t ≠ [] → ∀ d ∈ c.chunk (p ++ u ++ s ++ t), d.stop ≤ p.length →
        d ∈ c.chunk (p ++ v ++ s ++ t)) ∧
      (IsBoundary (c.chunk (p ++ u ++ s ++ t)) (p ++ u ++ s).length →
        IsBoundary (c.chunk (p ++ v ++ s ++ t)) (p ++ v ++ s).length →
        List.Forall₂ (Shifted (p ++ u ++ s).length (p ++ v ++ s).length)
          (behind (p ++ u ++ s).length (c.chunk (p ++ u ++ s ++ t)))
          (behind (p ++ v ++ s).length (c.chunk (p ++ v ++ s ++ t))))) := by
  refine ⟨fun a b s => FastCdcChunker.forall₂_behind,
    fun p x y hlen hx hy => FastCdcChunker.mem_chunk_of_prefix hx hy hlen,
    fun p u v s t hu hv => ⟨fun hne d hd hstop => ?_,
      FastCdcChunker.forall₂_behind hu hv⟩⟩
  have hassoc : ∀ w : Bytes, p ++ w ++ s ++ t = p ++ (w ++ s ++ t) := by
    intro w
    simp only [List.append_assoc]
  have hlast := FastCdcChunker.mem_dropLast_of_stop hne (by rw [← hassoc]; exact hu)
    (by rw [← hassoc]; exact hd) hstop
  rw [← hassoc] at hlast
  exact FastCdcChunker.mem_chunk_of_prefix (p := p) ⟨_, (hassoc u).symm⟩ ⟨_, (hassoc v).symm⟩ hu d
    hlast hstop

/-- The chunker of the tests below: a boundary behind every byte. -/
private def byteChunker : FastCdcChunker where
  minSize := 0
  avgSize := 1
  maxSize := 2
  minSize_lt := by decide
  avgSize_lt := by decide

/-- A byte in front of two others: the chunks behind it are moved by one. And the chunk in front of
an edit stays. -/
theorem fastCdc_local_twoBytes :
    List.Forall₂ (Shifted 0 1) (behind 0 (byteChunker.chunk [1, 2]))
      (behind 1 (byteChunker.chunk [7, 1, 2])) ∧
    (∀ d ∈ (byteChunker.chunk [1, 2]).dropLast, d.stop ≤ 1 → d ∈ byteChunker.chunk [1, 3, 4]) ∧
    ∀ d ∈ byteChunker.chunk [1, 2, 3], d.stop ≤ 1 → d ∈ byteChunker.chunk [1, 3] := by
  obtain ⟨hends, hbegins, hedit⟩ := fastCdc_local byteChunker
  exact ⟨hends [] [7] [1, 2] (by decide) (by decide) (by decide +kernel) (by decide +kernel),
    hbegins [1] [1, 2] [1, 3, 4] (by decide) ⟨[2], rfl⟩ ⟨[3, 4], rfl⟩,
    (hedit [1] [2] [] [] [3] (by decide) (by decide)).1 (by decide)⟩

end Sodl
