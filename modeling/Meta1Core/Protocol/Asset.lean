import Mathlib.Algebra.Order.Ring.Abs
import Mathlib.Algebra.Order.Ring.Rat
import Mathlib.Data.Rat.Lemmas
import Meta1Core.Fc.Exception

/-!
# Amounts and prices (`asset.hpp`, `asset.cpp`)

Amounts are `fc::safe<int64_t>`: an operation whose result does not fit throws.  The products of
amounts are computed in `uint128_t`, where the product of two amounts that are not negative is
exact; a negative product wraps to a value far above every limit that is asserted afterwards.
-/

namespace Meta1Core.Protocol

abbrev AssetId := Nat
abbrev AccountId := Nat

def core : AssetId := 0

def maxShareSupply : Int := 9000000000000000000

def percent100 : Nat := 10000

def safe (v : Int) : Except Exception Int :=
  if -(2 ^ 63) ≤ v ∧ v < 2 ^ 63 then .ok v else .error (.fc "overflow")

theorem safe_eq_ok {v w : Int} : safe v = .ok w ↔ w = v ∧ -(2 ^ 63) ≤ v ∧ v < 2 ^ 63 := by
  unfold safe
  split
  · rw [Except.ok.injEq, eq_comm]
    tauto
  · simp_all

theorem of_safe {v w : Int} (h : safe v = .ok w) : w = v ∧ -(2 ^ 63) ≤ v ∧ v < 2 ^ 63 :=
  safe_eq_ok.mp h

def uint128 (v : Int) : Nat := (v % 2 ^ 128).toNat

def int64Cast (v : Nat) : Int := (v : Int).bmod (2 ^ 64)

theorem uint128_of_nonneg {v : Int} (h0 : 0 ≤ v) (h : v < 2 ^ 128) : (uint128 v : Int) = v := by
  unfold uint128
  omega

theorem uint128_natCast {n : Nat} (h : n < 2 ^ 128) : uint128 n = n := by
  unfold uint128
  omega

theorem int64Cast_of_lt {n : Nat} (h : n < 2 ^ 63) : int64Cast n = n := by
  unfold int64Cast
  rw [Int.bmod_def]
  omega

structure Asset where
  amount : Int
  assetId : AssetId
  deriving DecidableEq

namespace Asset

def neg (a : Asset) : Asset := { a with amount := -a.amount }

def add (a b : Asset) : Except Exception Asset := do
  fcAssert (a.assetId = b.assetId) "asset_id == o.asset_id"
  return ⟨← safe (a.amount + b.amount), a.assetId⟩

def sub (a b : Asset) : Except Exception Asset := do
  fcAssert (a.assetId = b.assetId) "a.asset_id == b.asset_id"
  return ⟨← safe (a.amount - b.amount), a.assetId⟩

def lt (a b : Asset) : Except Exception Bool := do
  fcAssert (a.assetId = b.assetId) "a.asset_id == b.asset_id"
  return a.amount < b.amount

def le (a b : Asset) : Except Exception Bool := do
  return !(← lt b a)

def min (a b : Asset) : Except Exception Asset := do
  return if ← lt b a then b else a

theorem lt_eq_ok {a b : Asset} {c : Bool} :
    a.lt b = .ok c ↔ a.assetId = b.assetId ∧ c = decide (a.amount < b.amount) := by
  unfold lt
  rw [fcAssert_bind_eq_ok]
  refine and_congr_right fun _ => ?_
  exact ⟨fun h => (Except.ok.inj h).symm, fun h => congrArg Except.ok h.symm⟩

theorem le_eq {a b : Asset} (h : a.assetId = b.assetId) :
    a.le b = .ok (decide (a.amount ≤ b.amount)) := by
  unfold le lt fcAssert
  rw [if_pos h.symm]
  by_cases hle : a.amount ≤ b.amount
  · simp [hle, bind, Except.bind, pure, Except.pure]
  · simp [hle, not_le.mp hle, bind, Except.bind, pure, Except.pure]

end Asset

structure Price where
  base : Asset
  quote : Asset
  deriving DecidableEq

namespace Price

def null : Price := ⟨⟨0, core⟩, ⟨0, core⟩⟩

def isNull (p : Price) : Prop := p.base.assetId = core ∧ p.quote.assetId = core

instance (p : Price) : Decidable p.isNull := inferInstanceAs (Decidable (_ ∧ _))

def inv (p : Price) : Price := ⟨p.quote, p.base⟩

def same (a b : Price) : Prop :=
  a.base.assetId = b.base.assetId ∧ a.quote.assetId = b.quote.assetId ∧
    b.quote.amount * a.base.amount = a.quote.amount * b.base.amount

instance (a b : Price) : Decidable (same a b) := inferInstanceAs (Decidable (_ ∧ _))

def lt (a b : Price) : Prop :=
  a.base.assetId < b.base.assetId ∨
    a.base.assetId = b.base.assetId ∧
      (a.quote.assetId < b.quote.assetId ∨ a.quote.assetId = b.quote.assetId ∧
          b.quote.amount * a.base.amount < a.quote.amount * b.base.amount)

instance (a b : Price) : Decidable (lt a b) := inferInstanceAs (Decidable (_ ∨ _))

def le (a b : Price) : Prop := ¬lt b a

instance (a b : Price) : Decidable (le a b) := inferInstanceAs (Decidable (¬_))

def max (base quote : AssetId) : Price := ⟨⟨maxShareSupply, base⟩, ⟨1, quote⟩⟩

def min (base quote : AssetId) : Price := ⟨⟨1, base⟩, ⟨maxShareSupply, quote⟩⟩

def validate (p : Price) : Except Exception Unit := do
  fcAssert (0 < p.base.amount) "base.amount > share_type(0)"
  fcAssert (0 < p.quote.amount) "quote.amount > share_type(0)"
  fcAssert (p.base.assetId ≠ p.quote.assetId) "base.asset_id != quote.asset_id"

end Price

namespace Asset

def div (base quote : Asset) : Except Exception Price := do
  fcAssert (base.assetId ≠ quote.assetId) "base.asset_id != quote.asset_id"
  return ⟨base, quote⟩

/-- One side of `asset * price` and of `multiply_and_round_up`: `n / d`, with `n` a product of
amounts to which `slack` is added -/
def scale (n d slack : Int) (id : AssetId) : Except Exception Asset := do
  fcAssert (0 < d) "amount.value > 0"
  fcAssert (0 ≤ n + slack ∧ (n + slack) / d ≤ maxShareSupply) "result <= GRAPHENE_MAX_SHARE_SUPPLY"
  return ⟨(n + slack) / d, id⟩

def mul (a : Asset) (p : Price) : Except Exception Asset :=
  if a.assetId = p.base.assetId then
    scale (a.amount * p.quote.amount) p.base.amount 0 p.quote.assetId
  else if a.assetId = p.quote.assetId then
    scale (a.amount * p.base.amount) p.quote.amount 0 p.base.assetId
  else .error (.fc "invalid asset * price")

def multiplyAndRoundUp (a : Asset) (p : Price) : Except Exception Asset :=
  if a.assetId = p.base.assetId then
    scale (a.amount * p.quote.amount) p.base.amount (p.base.amount - 1) p.quote.assetId
  else if a.assetId = p.quote.assetId then
    scale (a.amount * p.base.amount) p.quote.amount (p.quote.amount - 1) p.base.assetId
  else .error (.fc "invalid asset::multiply_and_round_up(price)")

variable {a b r : Asset}

theorem add_eq_ok (h : a.add b = .ok r) :
    a.assetId = b.assetId ∧ r = ⟨a.amount + b.amount, a.assetId⟩ := by
  obtain ⟨hid, hrest⟩ := of_fcAssert h
  obtain ⟨v, hsafe, hv⟩ := Lib.of_bind hrest
  cases hv
  obtain ⟨rfl, -⟩ := of_safe hsafe
  exact ⟨hid, rfl⟩

theorem sub_eq_ok (h : a.sub b = .ok r) :
    a.assetId = b.assetId ∧ r = ⟨a.amount - b.amount, a.assetId⟩ := by
  obtain ⟨hid, hrest⟩ := of_fcAssert h
  obtain ⟨v, hsafe, hv⟩ := Lib.of_bind hrest
  cases hv
  obtain ⟨rfl, -⟩ := of_safe hsafe
  exact ⟨hid, rfl⟩

theorem min_eq_ok (h : a.min b = .ok r) :
    a.assetId = b.assetId ∧ r = ⟨Min.min a.amount b.amount, a.assetId⟩ := by
  obtain ⟨lower, hlt, hr⟩ := Lib.of_bind h
  obtain ⟨hid, hlower⟩ := of_fcAssert hlt
  cases hlower
  cases hr
  refine ⟨hid.symm, ?_⟩
  by_cases hba : b.amount < a.amount
  · rw [if_pos (decide_eq_true hba), min_eq_right hba.le, ← hid]
  · rw [if_neg (fun h => hba (of_decide_eq_true h)), min_eq_left (not_lt.mp hba)]

theorem scale_eq_ok {n d slack : Int} {id : AssetId} :
    scale n d slack id = .ok r ↔
      0 < d ∧ 0 ≤ n + slack ∧ (n + slack) / d ≤ maxShareSupply ∧ r = ⟨(n + slack) / d, id⟩ := by
  unfold scale
  rw [fcAssert_bind_eq_ok, fcAssert_bind_eq_ok, and_assoc]
  refine and_congr_right fun _ => and_congr_right fun _ => and_congr_right fun _ => ?_
  exact ⟨fun h => (Except.ok.inj h).symm, fun h => congrArg Except.ok h.symm⟩

theorem amount_nonneg_of_scale {n d slack : Int} {id : AssetId} (h : scale n d slack id = .ok r) :
    0 ≤ r.amount := by
  obtain ⟨hpos, hnonneg, -, rfl⟩ := scale_eq_ok.mp h
  exact Int.ediv_nonneg hnonneg hpos.le

theorem amount_nonneg_of_multiplyAndRoundUp {p : Price} (h : a.multiplyAndRoundUp p = .ok r) :
    0 ≤ r.amount := by
  unfold multiplyAndRoundUp at h
  split at h
  · exact amount_nonneg_of_scale h
  split at h
  · exact amount_nonneg_of_scale h
  · cases h

theorem mul_base_eq_ok {p : Price} (h : a.assetId = p.base.assetId) :
    a.mul p = .ok r ↔
      0 < p.base.amount ∧ 0 ≤ a.amount * p.quote.amount ∧
        a.amount * p.quote.amount / p.base.amount ≤ maxShareSupply ∧
        r = ⟨a.amount * p.quote.amount / p.base.amount, p.quote.assetId⟩ := by
  rw [mul, if_pos h, scale_eq_ok, add_zero]

theorem multiplyAndRoundUp_quote_eq_ok {p : Price} (h : a.assetId = p.quote.assetId)
    (hne : p.quote.assetId ≠ p.base.assetId) :
    a.multiplyAndRoundUp p = .ok r ↔
      0 < p.quote.amount ∧ 0 ≤ a.amount * p.base.amount + (p.quote.amount - 1) ∧
        (a.amount * p.base.amount + (p.quote.amount - 1)) / p.quote.amount ≤ maxShareSupply ∧
        r = ⟨(a.amount * p.base.amount + (p.quote.amount - 1)) / p.quote.amount,
          p.base.assetId⟩ := by
  rw [multiplyAndRoundUp, if_neg (fun heq => hne (h.symm.trans heq)), if_pos h, scale_eq_ok]

end Asset

/-- A value of `boost::rational<int128_t>`; signed overflow is undefined. -/
def rational128 (q : Rat) : Except Exception Rat :=
  if |q.num| < 2 ^ 127 ∧ (q.den : Int) < 2 ^ 127 then .ok q else .error .undefined

/-- `a - b`, with the products that the subtraction computes on the way -/
def sub128 (a b : Rat) : Except Exception Rat := do
  let g := Nat.gcd a.den b.den
  if 2 ^ 127 ≤ |a.num * (b.den / g : Nat)| ∨ 2 ^ 127 ≤ |b.num * (a.den / g : Nat)| then
    throw .undefined
  rational128 (a - b)

namespace Price

/-- What the loop of `price * ratio` makes of the exact product: halve both sides until they fit. -/
structure Shrunk where
  value : Rat
  shrinked : Bool
  usingMax : Bool

/-- The loop of `price * ratio`; the numerator and the denominator of the product have less than
`fuel` bits. -/
def shrink : (fuel : Nat) → Rat → Bool → Except Exception Shrunk
  | 0, _, _ => .error .diverges
  | fuel + 1, cp, shrinked =>
    if cp.num ≤ maxShareSupply ∧ (cp.den : Int) ≤ maxShareSupply then .ok ⟨cp, shrinked, false⟩
    else if cp.num = 1 then .ok ⟨mkRat 1 maxShareSupply.toNat, shrinked, true⟩
    else if cp.den = 1 then .ok ⟨mkRat maxShareSupply 1, shrinked, true⟩
    else shrink fuel (mkRat (cp.num / 2) (cp.den / 2)) true

/-- The other candidate for a product that had to be shrunk: one side is 1 -/
def unitCandidate (ocp : Rat) : Rat :=
  if ocp.den < ocp.num then mkRat (Min.min (ocp.num / ocp.den) maxShareSupply) 1
  else mkRat 1 (Min.min (ocp.den / ocp.num) maxShareSupply).toNat

/-- Of the two candidates take the one that is closer to the exact product. -/
def refine (ocp : Rat) (r : Shrunk) : Except Exception Rat := do
  if r.shrinked = false then return r.value
  let ncp := unitCandidate ocp
  if ncp.num = maxShareSupply ∨ (ncp.den : Int) = maxShareSupply then return ncp
  let diff1 ← sub128 ncp ocp
  let diff2 ← sub128 r.value ocp
  return if |diff1| < |diff2| then ncp else r.value

def mulRatio (p : Price) (num den : Nat) : Except Exception Price := do
  p.validate
  fcAssert (0 < num ∧ 0 < den) "r.numerator() > 0 && r.denominator() > 0"
  if num = den then return p
  let ocp ← rational128 (mkRat p.base.amount p.quote.amount.toNat * mkRat num den)
  let r ← shrink 128 ocp false
  let cp ← refine ocp r
  let np ← Asset.div ⟨cp.num, p.base.assetId⟩ ⟨cp.den, p.quote.assetId⟩
  let np :=
    if (r.shrinked ∨ r.usingMax) ∧ (den < num ∧ lt np p ∨ num < den ∧ lt p np) then p else np
  np.validate
  return np

/-- `p / r` -/
def divRatio (p : Price) (num den : Nat) : Except Exception Price := mulRatio p den num

end Price

def collateralRatioDenom : Nat := 1000

structure PriceFeed where
  settlementPrice : Price := Price.null
  coreExchangeRate : Price := Price.null
  maintenanceCollateralRatio : Nat := 1750
  maximumShortSqueezeRatio : Nat := 1500
  deriving DecidableEq

namespace PriceFeed

def maxShortSqueezePrice (f : PriceFeed) : Except Exception Price :=
  f.settlementPrice.mulRatio collateralRatioDenom f.maximumShortSqueezeRatio

def maintenanceCollateralization (f : PriceFeed) : Except Exception Price :=
  if f.settlementPrice.isNull then .ok Price.null
  else f.settlementPrice.inv.mulRatio f.maintenanceCollateralRatio collateralRatioDenom

/-- `price_feed::validate`, with `GRAPHENE_MIN_COLLATERAL_RATIO` and
`GRAPHENE_MAX_COLLATERAL_RATIO` -/
def validate (f : PriceFeed) : Except Exception Unit := do
  if ¬f.settlementPrice.isNull then f.settlementPrice.validate
  fcAssert (1001 ≤ f.maximumShortSqueezeRatio) "maximum_short_squeeze_ratio"
  fcAssert (f.maximumShortSqueezeRatio ≤ 32000) "maximum_short_squeeze_ratio"
  fcAssert (1001 ≤ f.maintenanceCollateralRatio) "maintenance_collateral_ratio"
  fcAssert (f.maintenanceCollateralRatio ≤ 32000) "maintenance_collateral_ratio"

end PriceFeed

end Meta1Core.Protocol
