import Mathlib.Data.Rat.Lemmas
import Mathlib.Tactic
import Meta1Core.Fc.Exception

/-!
# `ratio_type`, that is `boost::rational<int32_t>`

The value of each operation is the exact one as long as every product and sum on the way fits
`int32_t`; those intermediate results are what is checked here.
-/

namespace Meta1Core

def int32 (n : Int) : Except Exception Int :=
  if -2 ^ 31 ≤ n ∧ n < 2 ^ 31 then .ok n else .error .undefined

/-- Conversion of a `uint32_t` to `int32_t` -/
def int32OfU32 (n : Nat) : Int := if n < 2 ^ 31 then n else n - 2 ^ 32

def ratioMk (n d : Int) : Except Exception ℚ := do
  if d = 0 then .error (.std "bad rational: zero denominator") else
  let g : Int := Int.gcd n d
  if d < 0 then
    let _ ← int32 (-(n / g))
    let _ ← int32 (-(d / g))
  return n / d

def ratioMulInt (r : ℚ) (i : Int) : Except Exception ℚ := do
  let g : Int := Int.gcd i r.den
  let _ ← int32 (r.num * (i / g))
  return r * i

def ratioDivInt (r : ℚ) (i : Int) : Except Exception ℚ := do
  if i = 0 then .error (.std "bad rational: zero denominator") else
  if r.num = 0 then return r
  let g : Int := Int.gcd r.num i
  let _ ← int32 (r.den * (i / g))
  return r / i

def ratioAdd (a b : ℚ) : Except Exception ℚ := do
  let g : Int := Int.gcd a.den b.den
  let den : Int := a.den / g
  let left ← int32 (a.num * (b.den / g))
  let right ← int32 (b.num * den)
  let num ← int32 (left + right)
  let g' : Int := Int.gcd num g
  let _ ← int32 (den * (b.den / g'))
  return a + b

theorem int32_bind {α : Type} {n : Int} {f : Int → Except Exception α}
    (hlo : 0 ≤ n) (hhi : n < 2 ^ 31) : (int32 n >>= f) = f n := by
  have hfits : int32 n = .ok n := if_pos ⟨by omega, hhi⟩
  rw [hfits]
  rfl

theorem int32OfU32_of_lt {n : Nat} (h : n < 2 ^ 31) : int32OfU32 n = n := if_pos h

theorem ratioMk_ok {n d : Int} (hd : 0 < d) : ratioMk n d = .ok (n / d) := by
  unfold ratioMk
  rw [if_neg (ne_of_gt hd), if_neg (not_lt.mpr hd.le)]
  rfl

private theorem ediv_gcd_bounds (b m n : Int) (hb : 0 ≤ b) :
    0 ≤ b / (Int.gcd m n : Int) ∧ b / (Int.gcd m n : Int) ≤ b :=
  ⟨Int.ediv_nonneg hb (Int.natCast_nonneg _), Int.ediv_le_self _ hb⟩

theorem ratioMulInt_ok {r : ℚ} {i : Int} (hr : 0 ≤ r.num) (hi : 0 ≤ i)
    (hfit : r.num * i < 2 ^ 31) : ratioMulInt r i = .ok (r * i) := by
  obtain ⟨h0, hle⟩ := ediv_gcd_bounds i i r.den hi
  have hprod : r.num * (i / (Int.gcd i r.den : Int)) ≤ r.num * i :=
    mul_le_mul_of_nonneg_left hle hr
  have hnonneg : 0 ≤ r.num * (i / (Int.gcd i r.den : Int)) := mul_nonneg hr h0
  unfold ratioMulInt
  dsimp only
  rw [int32_bind hnonneg (by linarith)]
  rfl

theorem ratioDivInt_ok {r : ℚ} {i : Int} (hi : 0 < i) (hfit : r.den * i < 2 ^ 31) :
    ratioDivInt r i = .ok (r / i) := by
  unfold ratioDivInt
  rw [if_neg (ne_of_gt hi)]
  split
  · rename_i hnum
    rw [Rat.num_eq_zero.mp hnum, zero_div]
    rfl
  · obtain ⟨h0, hle⟩ := ediv_gcd_bounds i r.num i hi.le
    have hden : (0 : Int) ≤ r.den := Int.natCast_nonneg _
    have hprod : r.den * (i / (Int.gcd r.num i : Int)) ≤ r.den * i :=
      mul_le_mul_of_nonneg_left hle hden
    have hnonneg : 0 ≤ r.den * (i / (Int.gcd r.num i : Int)) := mul_nonneg hden h0
    dsimp only
    rw [int32_bind hnonneg (by linarith)]
    rfl

theorem ratioAdd_ok {a b : ℚ} (ha : 0 ≤ a.num) (hb : 0 ≤ b.num)
    (hnum : a.num * b.den + b.num * a.den < 2 ^ 31) (hden : (a.den * b.den : Int) < 2 ^ 31) :
    ratioAdd a b = .ok (a + b) := by
  have hda : (0 : Int) ≤ a.den := Int.natCast_nonneg _
  have hdb : (0 : Int) ≤ b.den := Int.natCast_nonneg _
  obtain ⟨ha0, hale⟩ := ediv_gcd_bounds a.den a.den b.den hda
  obtain ⟨hb0, hble⟩ := ediv_gcd_bounds b.den a.den b.den hdb
  have hleft : a.num * (b.den / (Int.gcd a.den b.den : Int)) ≤ a.num * b.den :=
    mul_le_mul_of_nonneg_left hble ha
  have hright : b.num * (a.den / (Int.gcd a.den b.den : Int)) ≤ b.num * a.den :=
    mul_le_mul_of_nonneg_left hale hb
  have hleft0 := mul_nonneg ha hb0
  have hright0 := mul_nonneg hb ha0
  unfold ratioAdd
  dsimp only
  rw [int32_bind hleft0 (by linarith), int32_bind hright0 (by linarith),
    int32_bind (add_nonneg hleft0 hright0) (by linarith)]
  generalize a.num * (b.den / (Int.gcd a.den b.den : Int)) +
    b.num * (a.den / (Int.gcd a.den b.den : Int)) = num
  obtain ⟨hc0, hcle⟩ := ediv_gcd_bounds b.den num (Int.gcd a.den b.den) hdb
  have hprod : (a.den / (Int.gcd a.den b.den : Int)) *
      (b.den / (Int.gcd num (Int.gcd a.den b.den) : Int)) ≤ a.den * b.den :=
    mul_le_mul hale hcle hc0 hda
  rw [int32_bind (mul_nonneg ha0 hc0) (by linarith)]
  rfl

end Meta1Core
