import Mathlib.Algebra.Order.Floor.Ring
import Mathlib.Algebra.Order.Field.Basic
import Mathlib.Tactic.Linarith
import Mathlib.Tactic.FieldSimp
import Mathlib.Tactic.Ring

/-!
# Quantization in steps

A number is quantized by rounding its quotient by a step and clipping the result to `±m`
(`Quantize.level`). Multiplying by the step again is off by half a step, unless it was clipped;
and what lies within `m` times a number `t` is clipped only if `t` is more than the step
(`Quantize.abs_level_mul_sub_le`).
-/

namespace Quantize

variable {K : Type} [Field K] [LinearOrder K] [IsStrictOrderedRing K] [FloorRing K]

/-- Round to the nearest integer, and half way between two of them to the even one. -/
def roundHalfEven (x : K) : ℤ :=
  if x - ⌊x⌋ < 1 / 2 ∨ x - ⌊x⌋ = 1 / 2 ∧ ⌊x⌋ % 2 = 0 then ⌊x⌋ else ⌊x⌋ + 1

theorem abs_roundHalfEven_sub_le (x : K) : |(roundHalfEven x : K) - x| ≤ 1 / 2 := by
  have hlow := Int.floor_le x
  have hhigh := Int.lt_floor_add_one x
  rw [roundHalfEven, abs_le]
  split_ifs with h
  · have hhalf : x - ⌊x⌋ ≤ 1 / 2 := h.elim le_of_lt fun h => le_of_eq h.1
    constructor <;> linarith
  · have hhalf : 1 / 2 ≤ x - ⌊x⌋ := not_lt.mp fun hlt => h (Or.inl hlt)
    rw [Int.cast_add, Int.cast_one]
    constructor <;> linarith

/-- Confine a number to what is at most `m` from zero. -/
def clip (m : ℕ) (q : ℤ) : ℤ := max (-m) (min q m)

theorem abs_clip_le (m : ℕ) (q : ℤ) : |clip m q| ≤ m := by
  rw [clip, abs_le]
  omega

/-- The level of a number at a step, of `2 m + 1` levels. -/
def level (m : ℕ) (step x : K) : ℤ := clip m (roundHalfEven (x / step))

theorem abs_level_le (m : ℕ) (step x : K) : |(level m step x : K)| ≤ m := by
  have h : ((|level m step x| : ℤ) : K) ≤ ((m : ℤ) : K) := Int.cast_le.mpr (abs_clip_le m _)
  rwa [Int.cast_abs, Int.cast_natCast] at h

/-- **The error of quantization**: half a step, or by how much `m` steps fall short of `m t`, which
bounds the number. -/
theorem abs_level_mul_sub_le {m : ℕ} {step t x : K} (hstep : 0 < step) (hx : |x| ≤ m * t) :
    |(level m step x : K) * step - x| ≤ max (step / 2) (m * (t - step)) := by
  set r := roundHalfEven (x / step) with hr
  obtain ⟨hlow, hhigh⟩ := abs_le.mp (abs_roundHalfEven_sub_le (x / step))
  obtain ⟨hxlow, hxhigh⟩ := abs_le.mp hx
  have hquot : x / step * step = x := div_mul_cancel₀ x (ne_of_gt hstep)
  -- the rounded quotient, times the step
  have hbelow : x - step / 2 ≤ r * step := by
    have := mul_le_mul_of_nonneg_right (show x / step - 1 / 2 ≤ r by linarith) (le_of_lt hstep)
    rw [sub_mul, hquot] at this
    linarith
  have habove : (r : K) * step ≤ x + step / 2 := by
    have := mul_le_mul_of_nonneg_right (show (r : K) ≤ x / step + 1 / 2 by linarith)
      (le_of_lt hstep)
    rw [add_mul, hquot] at this
    linarith
  rw [level, ← hr, clip]
  rcases lt_trichotomy (m : ℤ) r with hgt | heq | hlt
  · -- clipped from above
    have hcast : ((m : ℤ) : K) + 1 ≤ r := by
      have : ((m : ℤ) + 1 : ℤ) ≤ r := hgt
      exact_mod_cast this
    have hmul : ((m : K) + 1) * step ≤ r * step :=
      mul_le_mul_of_nonneg_right (by exact_mod_cast hcast) (le_of_lt hstep)
    rw [min_eq_right (le_of_lt hgt), max_eq_right (by omega), Int.cast_natCast, abs_le]
    refine ⟨?_, ?_⟩
    · have := le_max_right (step / 2) ((m : K) * (t - step))
      linarith
    · have := le_max_left (step / 2) ((m : K) * (t - step))
      linarith
  · have := le_max_left (step / 2) ((m : K) * (t - step))
    rw [← heq, min_self, max_eq_right (by omega), heq, abs_le]
    constructor <;> linarith
  · by_cases hneg : r < -m
    · -- clipped from below
      have hcast : (r : K) ≤ -((m : ℤ) : K) - 1 := by
        have : r ≤ -(m : ℤ) - 1 := by omega
        exact_mod_cast this
      have hmul : (r : K) * step ≤ (-(m : K) - 1) * step :=
        mul_le_mul_of_nonneg_right (by exact_mod_cast hcast) (le_of_lt hstep)
      rw [min_eq_left (le_of_lt hlt), max_eq_left (le_of_lt hneg), Int.cast_neg,
        Int.cast_natCast, abs_le]
      refine ⟨?_, ?_⟩
      · have := le_max_left (step / 2) ((m : K) * (t - step))
        linarith
      · have := le_max_right (step / 2) ((m : K) * (t - step))
        linarith
    · have := le_max_left (step / 2) ((m : K) * (t - step))
      rw [min_eq_left (le_of_lt hlt), max_eq_right (not_lt.mp hneg), abs_le]
      constructor <;> linarith

end Quantize
