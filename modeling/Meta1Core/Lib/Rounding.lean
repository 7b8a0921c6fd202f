import Mathlib.Algebra.Order.Ring.Int
import Mathlib.Tactic.Linarith
import Mathlib.Tactic.Ring

/-!
# Rounding through a ratio

An amount `x` is worth `x * n / d`, rounded down.
-/

namespace Meta1Core.Lib

def ceilDiv (a n : ℤ) : ℤ := (a + (n - 1)) / n

variable {a b n d x y : ℤ}

theorem ceilDiv_le_iff (hn : 0 < n) : ceilDiv a n ≤ y ↔ a ≤ y * n := by
  have hsplit : (y + 1) * n = y * n + n := by ring
  unfold ceilDiv
  rw [← Int.lt_add_one_iff, Int.ediv_lt_iff_lt_mul hn, hsplit]
  omega

theorem lt_ceilDiv_iff (hn : 0 < n) : y < ceilDiv a n ↔ y * n < a := by
  rw [← not_le, ceilDiv_le_iff hn, not_le]

theorem le_ceilDiv_mul (a : ℤ) (hn : 0 < n) : a ≤ ceilDiv a n * n := (ceilDiv_le_iff hn).mp le_rfl

theorem ceilDiv_pos (ha : 0 < a) (hn : 0 < n) : 0 < ceilDiv a n := by
  rw [lt_ceilDiv_iff hn, zero_mul]
  exact ha

theorem ceilDiv_nonneg (ha : 0 ≤ a) (hn : 0 < n) : 0 ≤ ceilDiv a n := by
  unfold ceilDiv
  exact Int.ediv_nonneg (by omega) hn.le

theorem ceilDiv_mono (h : a ≤ b) (hn : 0 < n) : ceilDiv a n ≤ ceilDiv b n := by
  rw [ceilDiv_le_iff hn]
  exact h.trans (le_ceilDiv_mul b hn)

theorem le_ceilDiv_value (x : ℤ) (hn : 0 < n) (hd : 0 < d) : x ≤ ceilDiv (x * n) d * d / n := by
  rw [Int.le_ediv_iff_mul_le hn]
  exact le_ceilDiv_mul _ hd

/-- `p` is the least amount that is worth as much as `x`, and `r` is what both are worth. -/
structure RoundsTo (n d x r p : ℤ) : Prop where
  value : x * n / d = r
  least : ceilDiv (r * d) n = p

namespace RoundsTo

variable {r p : ℤ}

section

variable (h : RoundsTo n d x r p)

include h

theorem value_mul_le (hd : 0 < d) : r * d ≤ x * n := by
  rw [← Int.le_ediv_iff_mul_le hd, h.value]

theorem mul_lt_value_succ (hd : 0 < d) : x * n < (r + 1) * d := by
  rw [← Int.ediv_lt_iff_lt_mul hd, h.value]
  exact lt_add_one r

theorem le (hn : 0 < n) (hd : 0 < d) : p ≤ x := by
  rw [← h.least, ceilDiv_le_iff hn]
  exact h.value_mul_le hd

theorem value_mul_le_least (hn : 0 < n) : r * d ≤ p * n := by
  rw [← h.least]
  exact le_ceilDiv_mul _ hn

theorem least_lt (hn : 0 < n) : (p - 1) * n < r * d := by
  rw [← lt_ceilDiv_iff hn, h.least]
  exact sub_one_lt p

theorem least_value (hn : 0 < n) (hd : 0 < d) : p * n / d = r := by
  apply le_antisymm
  · calc p * n / d ≤ x * n / d := by
          apply Int.ediv_le_ediv hd
          exact mul_le_mul_of_nonneg_right (h.le hn hd) hn.le
      _ = r := h.value
  · rw [Int.le_ediv_iff_mul_le hd]
    exact h.value_mul_le_least hn

theorem least_le (hn : 0 < n) (hd : 0 < d) (hy : y * n / d = r) : p ≤ y := by
  rw [← h.least, ceilDiv_le_iff hn, ← Int.le_ediv_iff_mul_le hd, hy]

theorem leftover_value (hn : 0 < n) (hd : 0 < d) : (x - p) * n / d = 0 := by
  have hover := h.mul_lt_value_succ hd
  have hpaid := h.value_mul_le_least hn
  apply Int.ediv_eq_zero_of_lt
  · exact mul_nonneg (sub_nonneg.mpr (h.le hn hd)) hn.le
  · linarith only [hover, hpaid, show (x - p) * n = x * n - p * n by ring,
      show (r + 1) * d = r * d + d by ring]

theorem least_pos (hn : 0 < n) (hd : 0 < d) (hr : 0 < r) : 0 < p := by
  rw [← h.least]
  exact ceilDiv_pos (mul_pos hr hd) hn

end

end RoundsTo

end Meta1Core.Lib
