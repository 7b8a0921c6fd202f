import Mathlib.Algebra.Order.Field.Basic
import Mathlib.Data.Rat.Cast.Order
import Mathlib.Tactic.FieldSimp
import Mathlib.Tactic.Positivity
import Mathlib.Tactic.Ring
import Meta1Core.Protocol.Asset

/-!
# The price floor of the core asset (`market_evaluator.cpp`)

An order that sells or buys the core asset must not value it below its backing.
-/

namespace Meta1Core.Market

open Protocol

def safeMul128 (a b : Nat) : Except Exception Nat :=
  if a * b < 2 ^ 128 then .ok (a * b) else .error (.fc "overflow")

theorem safeMul128_of_lt {a b : Nat} (h : a * b < 2 ^ 128) : safeMul128 a b = .ok (a * b) :=
  if_pos h

theorem safeMul128_of_le {a b : Nat} (h : 2 ^ 128 ≤ a * b) :
    safeMul128 a b = .error (.fc "overflow") :=
  if_neg (not_lt.mpr h)

def scaledPrecision (precision : Nat) : Except Exception Nat := do
  fcAssert (precision < 19) "precision < 19"
  return 10 ^ precision

theorem scaledPrecision_of_lt {p : Nat} (h : p < 19) : scaledPrecision p = .ok (10 ^ p) := by
  unfold scaledPrecision
  rw [fcAssert, if_pos h]
  rfl

/-- What the check reads: `o` satoshis of the other asset against `m` satoshis of the core asset -/
structure FloorTerms where
  o : Int
  m : Int
  usdPriceNum : UInt64
  usdPriceDen : UInt64
  cumulative : Nat
  maxSupply : Int
  meta1Precision : Nat
  otherPrecision : Nat
  deriving DecidableEq

namespace FloorTerms

/-- `LHS *= ten_to_precision_delta`, or `RHS` where the other asset has the larger precision -/
def scaleProducts (t : FloorTerms) (lhs rhs : Nat) : Except Exception (Nat × Nat) :=
  if t.otherPrecision ≤ t.meta1Precision then do
    let tenToPrecisionDelta ← scaledPrecision (t.meta1Precision - t.otherPrecision)
    return (← safeMul128 lhs tenToPrecisionDelta, rhs)
  else do
    let tenToPrecisionDelta ← scaledPrecision (t.otherPrecision - t.meta1Precision)
    return (lhs, ← safeMul128 rhs tenToPrecisionDelta)

def products (t : FloorTerms) : Except Exception (Nat × Nat) := do
  let meta1Supply := t.maxSupply.tdiv (← scaledPrecision t.meta1Precision)
  let lhs ← safeMul128 (← safeMul128 (uint128 t.o) t.usdPriceNum.toNat) (uint128 meta1Supply)
  let rhs ← safeMul128 (← safeMul128 (uint128 t.m) t.usdPriceDen.toNat) t.cumulative
  t.scaleProducts lhs rhs

def tooLow : String :=
  "The implied valuation for the META1 token is too low: ${LHS} >= ${RHS}"

def check (t : FloorTerms) : Except Exception Unit := do
  let (lhs, rhs) ← t.products
  fcAssert (rhs ≤ lhs) tooLow

/-! ## The inequality -/

def supply (t : FloorTerms) : Nat := t.maxSupply.toNat / 10 ^ t.meta1Precision

def orderPrice (t : FloorTerms) : ℚ :=
  (t.o / 10 ^ t.otherPrecision) / (t.m / 10 ^ t.meta1Precision) *
    (t.usdPriceNum.toNat / t.usdPriceDen.toNat)

/-- The order values all core tokens together at least at their backing. -/
def MeetsFloor (t : FloorTerms) : Prop := (t.cumulative : ℚ) ≤ t.orderPrice * t.supply

def lhs (t : FloorTerms) : Nat :=
  t.o.toNat * t.usdPriceNum.toNat * t.supply * 10 ^ (t.meta1Precision - t.otherPrecision)

def rhs (t : FloorTerms) : Nat :=
  t.m.toNat * t.usdPriceDen.toNat * t.cumulative * 10 ^ (t.otherPrecision - t.meta1Precision)

def ProductsFit (t : FloorTerms) : Prop := t.lhs < 2 ^ 128 ∧ t.rhs < 2 ^ 128

instance (t : FloorTerms) : Decidable t.ProductsFit := inferInstanceAs (Decidable (_ ∧ _))

structure Sound (t : FloorTerms) : Prop where
  o_pos : 0 < t.o
  o_le : t.o ≤ maxShareSupply
  m_pos : 0 < t.m
  m_le : t.m ≤ maxShareSupply
  den_pos : 0 < t.usdPriceDen
  maxSupply_nonneg : 0 ≤ t.maxSupply
  maxSupply_le : t.maxSupply ≤ maxShareSupply
  meta1Precision_lt : t.meta1Precision < 19
  otherPrecision_lt : t.otherPrecision < 19

variable {t : FloorTerms}

theorem meetsFloor_iff_div (h : 0 < t.supply) :
    t.MeetsFloor ↔ (t.cumulative : ℚ) / t.supply ≤ t.orderPrice := by
  have hsupply : (0 : ℚ) < t.supply := Nat.cast_pos.mpr h
  exact (div_le_iff₀ hsupply).symm

theorem pow_min_mul (a b : Nat) : (10 : ℚ) ^ a = 10 ^ Min.min a b * 10 ^ (a - b) := by
  rw [← pow_add]
  congr 1
  omega

theorem meetsFloor_iff (h : t.Sound) : t.MeetsFloor ↔ t.rhs ≤ t.lhs := by
  have hm : (0 : ℚ) < t.m := Int.cast_pos.mpr h.m_pos
  have hden : (0 : ℚ) < t.usdPriceDen.toNat := Nat.cast_pos.mpr (UInt64.lt_iff_toNat_lt.mp h.den_pos)
  have ho : ((t.o.toNat : ℕ) : ℚ) = t.o := by
    exact_mod_cast Int.toNat_of_nonneg h.o_pos.le
  have hmNat : ((t.m.toNat : ℕ) : ℚ) = t.m := by
    exact_mod_cast Int.toNat_of_nonneg h.m_pos.le
  set p := t.meta1Precision with hp
  set q := t.otherPrecision with hq
  have hprice : t.orderPrice * t.supply =
      t.o * t.usdPriceNum.toNat * t.supply * 10 ^ (p - q) /
        (t.m * t.usdPriceDen.toNat * 10 ^ (q - p)) := by
    rw [orderPrice, ← hp, ← hq, pow_min_mul p q, pow_min_mul q p, min_comm q p]
    field_simp
  have hbottom : (0 : ℚ) < t.m * t.usdPriceDen.toNat * 10 ^ (q - p) := by positivity
  rw [MeetsFloor, hprice, le_div_iff₀ hbottom, ← Nat.cast_le (α := ℚ), rhs, lhs, ← hp, ← hq]
  push_cast
  have hreorder : (t.cumulative : ℚ) * (t.m * t.usdPriceDen.toNat * 10 ^ (q - p)) =
      t.m * t.usdPriceDen.toNat * t.cumulative * 10 ^ (q - p) := by ring
  rw [ho, hmNat, hreorder]

theorem uint128_supply (h : t.Sound) :
    uint128 (t.maxSupply.tdiv ((10 ^ t.meta1Precision : Nat) : Int)) = t.supply := by
  obtain ⟨n, hn⟩ := Int.eq_ofNat_of_zero_le h.maxSupply_nonneg
  have hle : n ≤ 9000000000000000000 := by
    have hmax := h.maxSupply_le
    rw [hn] at hmax
    unfold maxShareSupply at hmax
    omega
  rw [supply, hn, Int.toNat_natCast, ← Int.ofNat_tdiv]
  apply uint128_natCast
  calc n / 10 ^ t.meta1Precision ≤ n := Nat.div_le_self _ _
    _ < 2 ^ 128 := by omega

theorem uint128_eq_toNat {v : Int} (h0 : 0 < v) (h : v ≤ maxShareSupply) :
    uint128 v = v.toNat := by
  unfold maxShareSupply at h
  have hcast := uint128_of_nonneg h0.le (by omega)
  omega

theorem amount_mul_lt {v : Int} (h : v ≤ maxShareSupply) (n : UInt64) :
    v.toNat * n.toNat < 2 ^ 128 := by
  unfold maxShareSupply at h
  have hn : n.toNat < 2 ^ 64 := n.toNat_lt
  calc v.toNat * n.toNat ≤ 9000000000000000000 * 2 ^ 64 := by
        apply Nat.mul_le_mul
        · omega
        · omega
    _ < 2 ^ 128 := by decide

theorem scaleProducts_eq (h : t.Sound) {l r : Nat} (hl : l < 2 ^ 128) (hr : r < 2 ^ 128) :
    t.scaleProducts l r =
      if l * 10 ^ (t.meta1Precision - t.otherPrecision) < 2 ^ 128 ∧
          r * 10 ^ (t.otherPrecision - t.meta1Precision) < 2 ^ 128 then
        .ok (l * 10 ^ (t.meta1Precision - t.otherPrecision),
          r * 10 ^ (t.otherPrecision - t.meta1Precision))
      else .error (.fc "overflow") := by
  have hp := h.meta1Precision_lt
  have hq := h.otherPrecision_lt
  unfold scaleProducts
  by_cases hle : t.otherPrecision ≤ t.meta1Precision
  · have hone : t.otherPrecision - t.meta1Precision = 0 := by omega
    rw [if_pos hle, hone, pow_zero, mul_one, scaledPrecision_of_lt (by omega)]
    by_cases hfit : l * 10 ^ (t.meta1Precision - t.otherPrecision) < 2 ^ 128
    · rw [if_pos ⟨hfit, hr⟩]
      show (safeMul128 _ _ >>= fun x => _) = _
      rw [safeMul128_of_lt hfit]
      rfl
    · rw [if_neg (fun hboth => hfit hboth.1)]
      show (safeMul128 _ _ >>= fun x => _) = _
      rw [safeMul128_of_le (not_lt.mp hfit)]
      rfl
  · have hone : t.meta1Precision - t.otherPrecision = 0 := by omega
    rw [if_neg hle, hone, pow_zero, mul_one, scaledPrecision_of_lt (by omega)]
    by_cases hfit : r * 10 ^ (t.otherPrecision - t.meta1Precision) < 2 ^ 128
    · rw [if_pos ⟨hl, hfit⟩]
      show (safeMul128 _ _ >>= fun x => _) = _
      rw [safeMul128_of_lt hfit]
      rfl
    · rw [if_neg (fun hboth => hfit hboth.2)]
      show (safeMul128 _ _ >>= fun x => _) = _
      rw [safeMul128_of_le (not_lt.mp hfit)]
      rfl

theorem not_fit_of_prefix {a n k : Nat} (h : 2 ^ 128 ≤ a) : ¬a * 10 ^ (n - k) < 2 ^ 128 := by
  have hpow : 0 < 10 ^ (n - k) := Nat.pow_pos (by decide)
  exact not_lt.mpr (h.trans (Nat.le_mul_of_pos_right a hpow))

theorem products_eq (h : t.Sound) :
    t.products =
      if t.ProductsFit then .ok (t.lhs, t.rhs) else .error (.fc "overflow") := by
  have hl := amount_mul_lt h.o_le t.usdPriceNum
  have hr := amount_mul_lt h.m_le t.usdPriceDen
  unfold products
  rw [scaledPrecision_of_lt h.meta1Precision_lt, uint128_eq_toNat h.o_pos h.o_le,
    uint128_eq_toNat h.m_pos h.m_le]
  show (safeMul128 _ _ >>= fun a => safeMul128 a (uint128 (t.maxSupply.tdiv _)) >>= fun l =>
    safeMul128 _ _ >>= fun b => safeMul128 b _ >>= fun r => t.scaleProducts l r) = _
  rw [uint128_supply h, safeMul128_of_lt hl]
  show (safeMul128 (t.o.toNat * t.usdPriceNum.toNat) t.supply >>= fun l =>
    safeMul128 _ _ >>= fun b => safeMul128 b _ >>= fun r => t.scaleProducts l r) = _
  by_cases hlhs : t.o.toNat * t.usdPriceNum.toNat * t.supply < 2 ^ 128
  · rw [safeMul128_of_lt hlhs]
    show (safeMul128 _ _ >>= fun b => safeMul128 b _ >>= fun r => t.scaleProducts _ r) = _
    rw [safeMul128_of_lt hr]
    show (safeMul128 (t.m.toNat * t.usdPriceDen.toNat) t.cumulative >>= fun r =>
      t.scaleProducts _ r) = _
    by_cases hrhs : t.m.toNat * t.usdPriceDen.toNat * t.cumulative < 2 ^ 128
    · rw [safeMul128_of_lt hrhs]
      exact scaleProducts_eq h hlhs hrhs
    · rw [safeMul128_of_le (not_lt.mp hrhs),
        if_neg (fun hfit => not_fit_of_prefix (not_lt.mp hrhs) hfit.2)]
      rfl
  · rw [safeMul128_of_le (not_lt.mp hlhs),
      if_neg (fun hfit => not_fit_of_prefix (not_lt.mp hlhs) hfit.1)]
    rfl

theorem check_eq_ok (h : t.Sound) : t.check = .ok () ↔ t.ProductsFit ∧ t.MeetsFloor := by
  unfold check
  rw [products_eq h, meetsFloor_iff h]
  by_cases hfit : t.ProductsFit
  · rw [if_pos hfit, and_iff_right hfit]
    exact fcAssert_eq_ok
  · rw [if_neg hfit]
    show Except.error _ = Except.ok () ↔ _
    simp [hfit]

theorem check_of_not_fit (h : t.Sound) (hfit : ¬t.ProductsFit) :
    t.check = .error (.fc "overflow") := by
  unfold check
  rw [products_eq h, if_neg hfit]
  rfl

end FloorTerms

end Meta1Core.Market
