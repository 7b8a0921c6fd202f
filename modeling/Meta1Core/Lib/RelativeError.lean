import Mathlib.Algebra.Order.Field.Basic
import Mathlib.Data.Rat.Cast.Order
import Mathlib.Tactic.FieldSimp
import Mathlib.Tactic.Linarith
import Mathlib.Tactic.NormNum
import Mathlib.Tactic.Positivity
import Mathlib.Tactic.Ring

/-!
# Relative errors

Approximations of a positive rational number.  Errors of consecutive approximations add up, and two
numbers that are further apart than their errors keep their order.
-/

namespace Meta1Core.Lib

/-- `y` differs from `x` by at most the fraction `e` of `x`. -/
def Near (e x y : ℚ) : Prop := |y - x| ≤ x * e

namespace Near

variable {e e' x y z : ℚ}

theorem iff : Near e x y ↔ x * (1 - e) ≤ y ∧ y ≤ x * (1 + e) := by
  rw [Near, abs_le]
  constructor
  · rintro ⟨hlower, hupper⟩
    constructor <;> linarith
  · rintro ⟨hlower, hupper⟩
    constructor <;> linarith

theorem refl (hx : 0 ≤ x) (he : 0 ≤ e) : Near e x x := by
  rw [Near, sub_self, abs_zero]
  exact mul_nonneg hx he

theorem mono (h : Near e x y) (hx : 0 ≤ x) (hle : e ≤ e') : Near e' x y :=
  h.trans (mul_le_mul_of_nonneg_left hle hx)

theorem trans (h : Near e x y) (h' : Near e' y z) (hy : y ≤ 2 * x) (he' : 0 ≤ e') :
    Near (e + 2 * e') x z := by
  have hle : y * e' ≤ 2 * x * e' := mul_le_mul_of_nonneg_right hy he'
  calc |z - x| = |(z - y) + (y - x)| := by ring_nf
    _ ≤ |z - y| + |y - x| := abs_add_le _ _
    _ ≤ y * e' + x * e := add_le_add h' h
    _ ≤ 2 * x * e' + x * e := by linarith
    _ = x * (e + 2 * e') := by ring

theorem of_closer (h : Near e x y) (hz : |z - x| ≤ |y - x|) : Near e x z := hz.trans h

end Near

theorem le_of_near {e g x y x' y' : ℚ} (hx : Near e x x') (hy : Near e y y') (hpos : 0 ≤ x)
    (he : e ≤ 1) (hgap : x * (1 + g) ≤ y) (hg : 1 + e ≤ (1 + g) * (1 - e)) : x' ≤ y' :=
  calc x' ≤ x * (1 + e) := (Near.iff.mp hx).2
    _ ≤ x * ((1 + g) * (1 - e)) := mul_le_mul_of_nonneg_left hg hpos
    _ = x * (1 + g) * (1 - e) := by ring
    _ ≤ y * (1 - e) := mul_le_mul_of_nonneg_right hgap (by linarith)
    _ ≤ y' := (Near.iff.mp hy).1

theorem near_halves {n d k : ℤ} (hk : 2 ≤ k) (hn : k ≤ n) (hd : k ≤ d) :
    Near (2 / k) (n / d : ℚ) (((n / 2 : ℤ) : ℚ) / ((d / 2 : ℤ) : ℚ)) := by
  have hkq : (2 : ℚ) ≤ k := by exact_mod_cast hk
  have hnq : (k : ℚ) ≤ n := by exact_mod_cast hn
  have hdq : (k : ℚ) ≤ d := by exact_mod_cast hd
  have hn_upper : (2 : ℚ) * ((n / 2 : ℤ) : ℚ) ≤ n := by exact_mod_cast (by omega : 2 * (n / 2) ≤ n)
  have hn_lower : (n : ℚ) - 1 ≤ 2 * ((n / 2 : ℤ) : ℚ) := by
    exact_mod_cast (by omega : n - 1 ≤ 2 * (n / 2))
  have hd_upper : (2 : ℚ) * ((d / 2 : ℤ) : ℚ) ≤ d := by exact_mod_cast (by omega : 2 * (d / 2) ≤ d)
  have hd_lower : (d : ℚ) - 1 ≤ 2 * ((d / 2 : ℤ) : ℚ) := by
    exact_mod_cast (by omega : d - 1 ≤ 2 * (d / 2))
  have hd_pos : (0 : ℚ) < d := by linarith
  have hd_half : (0 : ℚ) < ((d / 2 : ℤ) : ℚ) := by linarith
  have hk_pos : (0 : ℚ) < k := by linarith
  rw [Near.iff]
  constructor
  · rw [le_div_iff₀ hd_half]
    -- the numerator loses at most one unit of at least `k`
    have hlost : (n : ℚ) / k ≥ 1 := (one_le_div hk_pos).mpr hnq
    have hfrac : (0 : ℚ) ≤ n / d := by
      apply div_nonneg
      · linarith
      · exact hd_pos.le
    by_cases hsign : (1 : ℚ) - 2 / k ≤ 0
    · have hnonneg : (0 : ℚ) ≤ ((n / 2 : ℤ) : ℚ) := by linarith
      have hle : (n : ℚ) / d * (1 - 2 / k) ≤ 0 := mul_nonpos_of_nonneg_of_nonpos hfrac hsign
      have hneg := mul_nonpos_of_nonpos_of_nonneg hle hd_half.le
      linarith
    · push Not at hsign
      have hcoeff : (0 : ℚ) ≤ n / d * (1 - 2 / k) := mul_nonneg hfrac hsign.le
      calc (n : ℚ) / d * (1 - 2 / k) * ((d / 2 : ℤ) : ℚ)
          ≤ n / d * (1 - 2 / k) * (d / 2) := by
            apply mul_le_mul_of_nonneg_left _ hcoeff
            linarith
        _ = (n - 2 * (n / k)) / 2 := by
            field_simp
        _ ≤ ((n / 2 : ℤ) : ℚ) := by linarith
  · rw [div_le_iff₀ hd_half]
    -- the denominator loses at most one unit of at least `k`
    have hlost : (d : ℚ) / k ≥ 1 := (one_le_div hk_pos).mpr hdq
    have hcoeff : (0 : ℚ) ≤ n / d * (1 + 2 / k) := by
      apply mul_nonneg
      · apply div_nonneg
        · linarith
        · exact hd_pos.le
      · positivity
    have hgain : (d : ℚ) ≤ (1 + 2 / k) * (d - 1) := by
      have hexpand : (1 + 2 / k) * ((d : ℚ) - 1) = d - 1 + 2 * (d / k) - 2 / k := by
        field_simp
        ring
      have hsmall : (2 : ℚ) / k ≤ 1 := (div_le_one hk_pos).mpr hkq
      linarith
    calc ((n / 2 : ℤ) : ℚ) ≤ n / d * d / 2 := by
          rw [div_mul_cancel₀ _ hd_pos.ne']
          linarith
      _ ≤ n / d * ((1 + 2 / k) * (d - 1)) / 2 := by
          have hfrac : (0 : ℚ) ≤ n / d := div_nonneg (by linarith) hd_pos.le
          have := mul_le_mul_of_nonneg_left hgain hfrac
          linarith
      _ = n / d * (1 + 2 / k) * ((d - 1) / 2) := by ring
      _ ≤ n / d * (1 + 2 / k) * ((d / 2 : ℤ) : ℚ) := by
          apply mul_le_mul_of_nonneg_left _ hcoeff
          linarith

end Meta1Core.Lib
