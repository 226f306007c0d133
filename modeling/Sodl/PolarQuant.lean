import Mathlib.Algebra.Order.Ring.Rat
import Mathlib.Data.List.TakeDrop
import Sodl.Core
import Sodl.Data.LittleEndian
import Sodl.Effect.Prog

/-!
# Polar quantization

`crates/sodl-polar-quant/src/lib.rs` turns a weight vector into a byte for its norm and a byte for
each of its angles, and writes these behind the dimension. The number of angles is derived in four
places: by the quantizer, by the check of the decoder, by its slice, and by the dequantizer.

They fit (`Sodl.PolarQuant.wire_format`): what is written is read back, whatever is read is what
was written of it, nothing panics, and a vector that was read has as many components as it says.

The arithmetic of `f32` is a parameter. The machine has 64 bits, and memory for what fits into its
address space.
-/

namespace Sodl

open Effect

namespace PolarQuant

variable {R : Type}

/-- The functions of `f32` that are used. -/
structure F32 (R : Type) where
  /-- The number a literal denotes. -/
  lit : ℚ → R
  pi : R
  mul : R → R → R
  add : R → R → R
  sub : R → R → R
  div : R → R → R
  /-- `<`, which does not hold of a `NaN`. -/
  lt : R → R → Bool
  le : R → R → Bool
  isFinite : R → Bool
  abs : R → R
  sqrt : R → R
  log2 : R → R
  powf : R → R → R
  round : R → R
  acos : R → R
  cos : R → R
  sin : R → R
  max : R → R → R
  remEuclid : R → R → R
  /-- `x.clamp(min, max)`. -/
  clamp : R → R → R → R
  /-- `as u8`, which saturates. -/
  asU8 : R → UInt8
  asU32 : R → UInt32
  ofU8 : UInt8 → R

/-- Errors from polar quantization operations. -/
inductive PolarQuantError
  | emptyVector
  | dimensionMismatch (expected got : ℕ)
  | corrupted (text : String)
  deriving DecidableEq

/-- A polar-quantized weight vector. -/
structure PolarQuantized where
  normQ8 : UInt8
  angles : List UInt8
  originalDim : ℕ
  deriving DecidableEq

/-! ### Machine arithmetic -/

/-- `a + b` of `usize`. -/
def usizeAdd {ε : Type} (a b : ℕ) : Outcome ε ℕ := if a + b < 2 ^ 64 then .ok (a + b) else .panic

/-- `a - b` of `usize`. -/
def usizeSub {ε : Type} (a b : ℕ) : Outcome ε ℕ := if b ≤ a then .ok (a - b) else .panic

/-- `data[start..stop]`. -/
def slice {ε : Type} (data : Bytes) (start stop : ℕ) : Outcome ε Bytes :=
  if start ≤ stop ∧ stop ≤ data.length then .ok ((data.drop start).take (stop - start)) else .panic

/-- `Vec::with_capacity` for entries of four bytes. -/
def withCapacity {ε : Type} (entries : ℕ) : Outcome ε Unit :=
  if entries * 4 ≤ isizeMax then .ok () else .panic

/-! ### Norms and angles -/

section

variable (F : F32 R)

def quantizeNorm (norm : R) : UInt8 :=
  if F.le norm (F.lit 0) || !F.isFinite norm then 0
  else
    let q := F.round (F.add (F.mul (F.log2 norm) (F.lit 4)) (F.lit 128))
    F.asU8 (F.clamp q (F.lit 0) (F.lit 255))

def dequantizeNorm (q : UInt8) : R :=
  F.powf (F.lit 2) (F.div (F.sub (F.ofU8 q) (F.lit 128)) (F.lit 4))

def quantizeAngle (theta : R) : UInt8 :=
  let normalized := F.remEuclid theta (F.mul (F.lit 2) F.pi)
  let q := F.round (F.mul (F.div normalized (F.mul (F.lit 2) F.pi)) (F.lit 256))
  UInt8.ofNat ((F.asU32 q).toNat % 256)

def dequantizeAngle (q : UInt8) : R :=
  F.mul (F.ofU8 q) (F.div (F.mul (F.lit 2) F.pi) (F.lit 256))

/-! ### Vectors -/

/-- `cos_theta.clamp(-1.0, 1.0).acos()`. -/
def thetaOf (u remaining : R) : R :=
  let cosTheta := if F.lt (F.lit (1 / 10 ^ 20)) remaining then F.div u (F.sqrt remaining)
    else F.lit 0
  F.acos (F.clamp cosTheta (F.lit (-1)) (F.lit 1))

/-- The loop over the angles, with the entries of the unit vector it still goes over. -/
def angleLoop (unit : List R) : List ℕ → R → List UInt8 → Outcome PolarQuantError (List UInt8)
  | [], _, angles => .ok angles
  | i :: rest, remaining, angles =>
    match unit[i]? with
    | none => .panic
    | some u =>
      let theta := thetaOf F u remaining
      let turned := unit[i + 1]?.any fun next => F.lt next (F.lit 0) && i == unit.length - 2
      let signed := if turned then F.sub (F.mul (F.lit 2) F.pi) theta else theta
      let remaining := F.max (F.sub remaining (F.mul u u)) (F.lit 0)
      angleLoop unit rest remaining (angles ++ [quantizeAngle F signed])

def quantizeVector : List R → Outcome PolarQuantError PolarQuantized
  | [] => .err .emptyVector
  | [w] => .ok ⟨quantizeNorm F (F.abs w), [if F.le (F.lit 0) w then 0 else 128], 1⟩
  | weights => do
    let norm := F.sqrt ((weights.map fun w => F.mul w w).foldl F.add (F.lit 0))
    let safeNorm := if F.lt (F.lit (1 / 10 ^ 30)) norm then norm else F.lit 1
    let unit := weights.map fun w => F.div w safeNorm
    let last ← usizeSub weights.length 1
    let angles ← angleLoop F unit (List.range last) (F.lit 1) []
    pure ⟨quantizeNorm F norm, angles, weights.length⟩

/-- The loop over the angles of a vector of `count` angles, from angle `i` on. -/
def componentLoop (norm : R) (count : ℕ) : ℕ → R → List UInt8 → List R
  | _, _, [] => []
  | i, scale, angle :: rest =>
    let theta := dequantizeAngle F angle
    let scale' := F.mul scale (F.sin theta)
    F.mul (F.mul norm scale) (F.cos theta) ::
      ((if i = count - 1 then [F.mul norm scale'] else []) ++
        componentLoop norm count (i + 1) scale' rest)

/-- `resize`. -/
def resize (l : List R) (n : ℕ) (fill : R) : List R :=
  l.take n ++ List.replicate (n - l.length) fill

def dequantizeVector (pq : PolarQuantized) : Outcome PolarQuantError (List R) :=
  if pq.originalDim = 0 then .err .emptyVector
  else do
    let components ← usizeAdd pq.angles.length 1
    if components < pq.originalDim ∧ 1 < pq.originalDim then
      .err (.dimensionMismatch (pq.originalDim - 1) pq.angles.length)
    else
      let norm := dequantizeNorm F pq.normQ8
      if pq.originalDim = 1 then
        let sign := if 128 ≤ pq.angles.head?.getD 0 then F.lit (-1) else F.lit 1
        pure [F.mul sign norm]
      else
        withCapacity pq.originalDim
        let result := componentLoop F norm pq.angles.length 0 (F.lit 1) pq.angles
        pure (resize result pq.originalDim (F.lit 0))

end

/-! ### The wire format -/

def toBytes (pq : PolarQuantized) : Bytes :=
  LittleEndian.toLe 4 (pq.originalDim % 2 ^ 32) ++ [pq.normQ8] ++ pq.angles

def fromBytes (data : Bytes) : Outcome PolarQuantError PolarQuantized :=
  if data.length < 5 then .err (.corrupted "payload too short")
  else do
    let head ← slice data 0 4
    let dim := LittleEndian.ofLe head
    match data[4]? with
    | none => .panic
    | some normQ8 =>
      let expectedAngles := if 1 < dim then dim - 1 else 1
      let expected ← usizeAdd 5 expectedAngles
      if data.length < expected then
        .err (.corrupted s!"expected {expectedAngles} angle bytes, got {data.length - 5}")
      else
        let angles ← slice data 5 expected
        pure ⟨normQ8, angles, dim⟩

/-! ### Lengths -/

/-- How many angles a vector has. -/
def angleCount (dim : ℕ) : ℕ := max (dim - 1) 1

theorem length_resize (l : List R) (n : ℕ) (fill : R) : (resize l n fill).length = n := by
  rw [resize, List.length_append, List.length_take, List.length_replicate]
  omega

/-! ### What is read -/

theorem slice_eq {ε : Type} {data : Bytes} {start stop : ℕ} (h : start ≤ stop)
    (h' : stop ≤ data.length) :
    (slice data start stop : Outcome ε Bytes) = .ok ((data.drop start).take (stop - start)) :=
  if_pos ⟨h, h'⟩

/-- **What the decoder returns**: on short input an error, and else what the bytes say. -/
theorem fromBytes_spec (data : Bytes) :
    (data.length < 5 + angleCount (LittleEndian.ofLe (data.take 4)) ∧
        ∃ text, fromBytes data = .err (.corrupted text)) ∨
      ∃ (normQ8 : UInt8) (angles rest : Bytes),
        fromBytes data = .ok ⟨normQ8, angles, LittleEndian.ofLe (data.take 4)⟩ ∧
        angles.length = angleCount (LittleEndian.ofLe (data.take 4)) ∧
        data = data.take 4 ++ [normQ8] ++ angles ++ rest ∧ (data.take 4).length = 4 := by
  rw [fromBytes]
  by_cases hshort : data.length < 5
  · rw [if_pos hshort]
    exact Or.inl ⟨by omega, _, rfl⟩
  · have hhead : (data.take 4).length = 4 := by
      rw [List.length_take]
      omega
    have hdim : LittleEndian.ofLe (data.take 4) < 256 ^ 4 := by
      have := LittleEndian.ofLe_lt (data.take 4)
      rwa [hhead] at this
    have hfifth : data[4]? = some data[4] := List.getElem?_eq_getElem (by omega)
    rw [if_neg hshort, slice_eq (by omega) (by omega), Outcome.ok_bind, hfifth]
    dsimp only
    rw [List.drop_zero, Nat.sub_zero]
    set dim := LittleEndian.ofLe (data.take 4)
    have hangles : (if 1 < dim then dim - 1 else 1) = angleCount dim := by
      rw [angleCount]
      split_ifs <;> omega
    have hcount : angleCount dim ≤ 256 ^ 4 := by
      rw [angleCount]
      omega
    rw [hangles, usizeAdd, if_pos (by omega), Outcome.ok_bind]
    by_cases hfew : data.length < 5 + angleCount dim
    · rw [if_pos hfew]
      exact Or.inl ⟨hfew, _, rfl⟩
    · rw [if_neg hfew, slice_eq (by omega) (by omega), Outcome.ok_bind]
      refine Or.inr ⟨data[4], _, (data.drop 5).drop (angleCount dim), rfl, ?_, ?_, hhead⟩
      · rw [List.length_take, List.length_drop]
        omega
      · have hsplit : data.drop 4 = data[4] :: data.drop 5 := List.drop_eq_getElem_cons _
        rw [Nat.add_sub_cancel_left, List.append_assoc, List.take_append_drop,
          List.append_assoc, List.singleton_append, ← hsplit, List.take_append_drop]

theorem fromBytes_toBytes {pq : PolarQuantized} (hdim : pq.originalDim < 2 ^ 32)
    (hangles : pq.angles.length = angleCount pq.originalDim) :
    fromBytes (toBytes pq) = .ok pq := by
  have hhead : (toBytes pq).take 4 = LittleEndian.toLe 4 pq.originalDim := by
    rw [toBytes, Nat.mod_eq_of_lt hdim, List.append_assoc]
    exact List.take_left' (LittleEndian.length_toLe 4 _)
  have hread : LittleEndian.ofLe ((toBytes pq).take 4) = pq.originalDim := by
    rw [hhead]
    exact LittleEndian.ofLe_toLe hdim
  have hlength : (toBytes pq).length = 5 + angleCount pq.originalDim := by
    rw [toBytes, List.length_append, List.length_append, LittleEndian.length_toLe, hangles]
    rfl
  rcases fromBytes_spec (toBytes pq) with
    ⟨hfew, -⟩ | ⟨normQ8, angles, rest, hok, hcount, hsplit, -⟩
  · rw [hread, hlength] at hfew
    exact absurd hfew (lt_irrefl _)
  · rw [hread] at hok hcount
    rw [hhead, toBytes, Nat.mod_eq_of_lt hdim] at hsplit
    simp only [List.append_assoc, List.singleton_append, List.append_cancel_left_eq] at hsplit
    rw [List.cons_append] at hsplit
    obtain ⟨hnorm, htail⟩ := List.cons.inj hsplit
    have hnothing : pq.angles ++ [] = angles ++ rest := by rw [List.append_nil, htail]
    have hsame := (List.append_inj hnothing (hangles.trans hcount.symm)).1
    rw [hok, ← hnorm, ← hsame]

/-- The decoder returns a vector of its input, not more. -/
theorem toBytes_of_fromBytes {data : Bytes} {pq : PolarQuantized} (h : fromBytes data = .ok pq) :
    toBytes pq <+: data ∧ (toBytes pq).length = 5 + pq.angles.length ∧
      pq.originalDim < 2 ^ 32 ∧ pq.angles.length = angleCount pq.originalDim := by
  rcases fromBytes_spec data with
    ⟨-, text, htext⟩ | ⟨normQ8, angles, rest, hok, hcount, hsplit, hhead⟩
  · rw [htext] at h
    exact absurd h nofun
  · obtain rfl := Outcome.ok.inj (hok.symm.trans h)
    have hdim : LittleEndian.ofLe (data.take 4) < 256 ^ 4 := by
      have := LittleEndian.ofLe_lt (data.take 4)
      rwa [hhead] at this
    have hbytes : LittleEndian.toLe 4 (LittleEndian.ofLe (data.take 4)) = data.take 4 := by
      have := LittleEndian.toLe_ofLe (data.take 4)
      rwa [hhead] at this
    refine ⟨⟨rest, ?_⟩, ?_, hdim, hcount⟩
    · rw [toBytes, Nat.mod_eq_of_lt (show _ < 2 ^ 32 from hdim), hbytes]
      exact hsplit.symm
    · rw [toBytes, List.length_append, List.length_append, LittleEndian.length_toLe]
      rfl

/-- A vector with an angle for each of its dimensions but one has all its components. -/
theorem dequantizeVector_spec (F : F32 R) {pq : PolarQuantized} (hpos : 1 ≤ pq.originalDim)
    (hdim : pq.originalDim < 2 ^ 32) (hangles : pq.angles.length = angleCount pq.originalDim) :
    ∃ v, dequantizeVector F pq = .ok v ∧ v.length = pq.originalDim := by
  rw [angleCount] at hangles
  rw [dequantizeVector, if_neg (by omega), usizeAdd, if_pos (by omega), Outcome.ok_bind,
    if_neg (by omega)]
  dsimp only
  by_cases hone : pq.originalDim = 1
  · rw [if_pos hone]
    exact ⟨_, rfl, hone.symm⟩
  · rw [if_neg hone, withCapacity, if_pos (by rw [isizeMax]; omega)]
    exact ⟨_, rfl, length_resize ..⟩

/-- **The wire format is exact and its decoder total.** What is written is read back; nothing that
is read panics, and it is what would be written of it; and every vector of at least one dimension
that was read has all its components. -/
theorem wire_format (F : F32 R) :
    (∀ pq : PolarQuantized, pq.originalDim < 2 ^ 32 →
      pq.angles.length = max (pq.originalDim - 1) 1 → fromBytes (toBytes pq) = .ok pq) ∧
    (∀ data : Bytes, fromBytes data ≠ .panic) ∧
    (∀ (data : Bytes) (pq : PolarQuantized), fromBytes data = .ok pq →
      toBytes pq <+: data ∧ (toBytes pq).length = 5 + pq.angles.length) ∧
    ∀ (data : Bytes) (pq : PolarQuantized), fromBytes data = .ok pq → 1 ≤ pq.originalDim →
      ∃ v, dequantizeVector F pq = .ok v ∧ v.length = pq.originalDim := by
  refine ⟨fun _ => fromBytes_toBytes, fun data => ?_, fun data pq h => ?_, fun data pq h hpos => ?_⟩
  · rcases fromBytes_spec data with ⟨-, text, htext⟩ | ⟨normQ8, angles, rest, hok, -⟩
    · rw [htext]
      exact nofun
    · rw [hok]
      exact nofun
  · obtain ⟨hstart, hlength, -⟩ := toBytes_of_fromBytes h
    exact ⟨hstart, hlength⟩
  · obtain ⟨-, -, hdim, hangles⟩ := toBytes_of_fromBytes h
    exact dequantizeVector_spec F hpos hdim hangles

/-- Rational arithmetic, in which the functions that leave the rationals are replaced by others. -/
def sampleF32 : F32 ℚ where
  lit := id
  pi := 355 / 113
  mul := (· * ·)
  add := (· + ·)
  sub := (· - ·)
  div := (· / ·)
  lt x y := decide (x < y)
  le x y := decide (x ≤ y)
  isFinite _ := true
  abs x := |x|
  sqrt := id
  log2 x := x - 1
  powf _ y := if y = 0 then 1 else 0
  round := id
  acos x := 1 - x
  cos x := 1 - x
  sin := id
  max := max
  remEuclid x _ := x
  clamp x lo hi := max lo (min x hi)
  asU8 x := UInt8.ofNat x.num.toNat
  asU32 x := UInt32.ofNat x.num.toNat
  ofU8 b := b.toNat

/-- A vector of four numbers by its norm and its three angles, with a byte behind it that is not
part of it. -/
theorem wire_format_four :
    fromBytes [4, 0, 0, 0, 128, 0, 64, 200, 9] = .ok ⟨128, [0, 64, 200], 4⟩ ∧
      fromBytes (toBytes ⟨128, [0, 64, 200], 4⟩) = .ok ⟨128, [0, 64, 200], 4⟩ ∧
      ∃ v, dequantizeVector sampleF32 ⟨128, [0, 64, 200], 4⟩ = .ok v ∧ v.length = 4 := by
  have hread : fromBytes [4, 0, 0, 0, 128, 0, 64, 200, 9] = .ok ⟨128, [0, 64, 200], 4⟩ := by decide
  refine ⟨hread, (wire_format sampleF32).1 _ (by decide) (by decide), ?_⟩
  exact (wire_format sampleF32).2.2.2 _ _ hread (by decide)

end PolarQuant

end Sodl
