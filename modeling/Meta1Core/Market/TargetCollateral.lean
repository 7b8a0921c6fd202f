import Meta1Core.Ledger.Objects

/-!
# How much of a call order to cover (`market_object.cpp`)

A call order with a target collateral ratio sells only as much collateral as brings it back to the
target.  The amount is solved from a fraction; where rounding spoils the solution, a binary search
and then a search forward look for an amount that meets the target.
-/

namespace Meta1Core.Market

open Protocol Ledger

structure Cover where
  toPay : Int
  toCover : Int
  deriving DecidableEq

/-- A call order with a target, once all prices are in collateral / debt -/
structure CallTarget where
  order : CallOrder
  matchPrice : Price
  targetCollateralization : Price
  deriving DecidableEq

namespace CallTarget

variable (c : CallTarget)

def payFor (toCover : Int) : Except Exception Int := do
  return (← (⟨toCover, c.order.debtType⟩ : Asset).mul c.matchPrice).amount

def payForRoundUp (toCover : Int) : Except Exception Int := do
  return (← (⟨toCover, c.order.debtType⟩ : Asset).multiplyAndRoundUp c.matchPrice).amount

def coverWith (toPay : Int) : Except Exception Int := do
  return (← (⟨toPay, c.order.collateralType⟩ : Asset).mul c.matchPrice).amount

def resultIsGood (p : Cover) : Except Exception Bool := do
  let collateral ← c.order.getCollateral.sub ⟨p.toPay, c.order.collateralType⟩
  let debt ← c.order.getDebt.sub ⟨p.toCover, c.order.debtType⟩
  let newCollateralization ← collateral.div debt
  return c.targetCollateralization.lt newCollateralization

structure Range where
  min : Cover
  max : Cover
  maxIsOk : Bool
  deriving DecidableEq

def meanOfPay (r : Range) : Except Exception Cover := do
  let toPay := (← safe ((← safe (r.min.toPay + r.max.toPay)) + 1)) / 2
  if toPay = r.max.toPay then return ⟨toPay, r.max.toCover⟩
  else do
    let toCover ← c.coverWith toPay
    if r.max.toCover ≤ toCover then return r.max
    else do
      let toPay ← c.payForRoundUp toCover
      fcAssert (toPay < r.max.toPay) "to_pay.amount < max_to_pay.amount"
      return ⟨toPay, toCover⟩

def meanOfCover (r : Range) : Except Exception Cover := do
  let toCover := (← safe (r.min.toCover + r.max.toCover)) / 2
  if toCover = r.max.toCover then return ⟨r.max.toPay, toCover⟩
  else do
    let toPay ← c.payForRoundUp toCover
    if r.max.toPay ≤ toPay then return r.max
    else do
      let toCover ← c.coverWith toPay
      return if r.max.toCover ≤ toCover then r.max else ⟨toPay, toCover⟩

/-- The mean; where it has not moved away from the minimums, or has moved beyond the maximums, the
maximums -/
def mean (r : Range) : Except Exception Cover := do
  let p ← (if c.matchPrice.base.amount < c.matchPrice.quote.amount then c.meanOfPay r
    else c.meanOfCover r)
  return if p.toPay ≤ r.min.toPay ∨ p.toCover ≤ r.min.toCover ∨ r.max.toPay < p.toPay ∨
      r.max.toCover < p.toCover then r.max else p

/-- How the binary search ends: with a result, or with the maximums, which are not good -/
inductive Narrowed where
  | result (toCover : Int)
  | tooSmall (p : Cover)
  deriving DecidableEq

def binarySearch : (fuel : Nat) → Range → Except Exception Narrowed
  | 0, _ => .error .diverges
  | fuel + 1, r => do
    let p ← c.mean r
    if p.toPay = r.max.toPay ∧ (r.maxIsOk ∨ p.toPay = c.order.collateral) then
      return .result p.toCover
    fcAssert (p.toPay < c.order.collateral ∧ p.toCover < c.order.debt)
      "to_pay.amount < collateral && to_cover.amount < debt"
    if ← c.resultIsGood p then
      if p.toPay = r.max.toPay then return .result p.toCover
      else binarySearch fuel { r with max := p, maxIsOk := true }
    else if p.toPay = r.max.toPay then return .tooSmall p
    else binarySearch fuel { r with min := p }

def stepForward (p : Cover) (d2 : Nat) : Except Exception (Option Cover) :=
  if c.matchPrice.quote.amount < c.matchPrice.base.amount then do
    let toPay ← safe (p.toPay + int64Cast d2)
    if c.order.collateral ≤ toPay then return none
    let toCover ← c.coverWith toPay
    if c.order.debt ≤ toCover then return none
    let toPay ← c.payForRoundUp toCover
    if c.order.collateral ≤ toPay then return none
    return some ⟨toPay, toCover⟩
  else do
    let toCover ← safe (p.toCover + int64Cast d2)
    if c.order.debt ≤ toCover then return none
    let toPay ← c.payForRoundUp toCover
    if c.order.collateral ≤ toPay then return none
    let toCover ← c.coverWith toPay
    if c.order.debt ≤ toCover then return none
    return some ⟨toPay, toCover⟩

def searchForward : (fuel : Nat) → (d2 d3 : Nat) → Cover → Except Exception Int
  | 0, _, _, _ => .error .diverges
  | fuel + 1, d2, d3, p => do
    match ← c.stepForward p d2 with
    | none => return c.order.debt
    | some p =>
      fcAssert (p.toPay < c.order.collateral ∧ p.toCover < c.order.debt)
        "to_pay.amount < collateral && to_cover.amount < debt"
      if ← c.resultIsGood p then return p.toCover
      else searchForward fuel d3 ((d2 + d3) % 2 ^ 64) p

/-- Enough rounds for either search: each moves an amount by at least one unit. -/
def rounds : Nat := 2 ^ 64

def maximums (toCoverAmt : Int) : Except Exception Cover := do
  let maxToPay ← (if toCoverAmt = c.order.debt then pure c.order.collateral
    else c.payForRoundUp toCoverAmt)
  let maxToPay := Min.min maxToPay c.order.collateral
  let maxToCover ← (if maxToPay = c.order.collateral then pure c.order.debt
    else c.coverWith maxToPay)
  return if c.order.debt ≤ maxToCover then ⟨c.order.collateral, c.order.debt⟩
    else ⟨maxToPay, maxToCover⟩

/-- The search for an amount above `p`, which is too small, and at most the solution with the
fraction -/
def search (p : Cover) (toCoverAmt : Int) : Except Exception Int := do
  let max ← c.maximums toCoverAmt
  if max.toPay ≤ p.toPay ∨ max.toCover ≤ p.toCover then return c.order.debt
  fcAssert (p.toPay < max.toPay ∧ p.toCover < max.toCover)
    "max_to_pay > to_pay && max_to_cover > to_cover"
  match ← c.binarySearch rounds ⟨p, max, false⟩ with
  | .result toCover => return toCover
  | .tooSmall p => c.searchForward rounds 1 1 p

/-- `to_pay` and `to_cover` after the stabilization: down, down and up -/
def stabilize (toCoverAmt : Int) : Except Exception Cover := do
  let toCover ← c.coverWith (← c.payFor toCoverAmt)
  return ⟨← c.payForRoundUp toCover, toCover⟩

/-- From the solution of the fraction to the amount to cover.  `step` is what the fraction adds to
the numerator. -/
def solve (numerator denominator step : Int) : Except Exception Int := do
  let toCoverAmt := numerator / denominator
  if c.order.debt ≤ toCoverAmt then return c.order.debt
  let p ← c.stabilize toCoverAmt
  if c.order.debt ≤ p.toCover ∨ c.order.collateral ≤ p.toPay then return c.order.debt
  if ← c.resultIsGood p then return p.toCover
  else c.search p (Min.min ((numerator + step) / denominator + 1) c.order.debt)

end CallTarget

def Price.facing (p : Price) (o : CallOrder) : Price :=
  if p.base.assetId = o.collateralType then p else p.inv

def Price.Faces (p : Price) (o : CallOrder) : Prop :=
  p.base.assetId = o.collateralType ∧ p.quote.assetId = o.debtType

instance (p : Price) (o : CallOrder) : Decidable (Price.Faces p o) :=
  inferInstanceAs (Decidable (_ ∧ _))

def getMaxDebtToCover (o : CallOrder) (matchPrice feedPrice : Price)
    (maintenanceCollateralRatio : Nat) (maintenanceCollateralization : Price) :
    Except Exception Int := do
  let feed := Price.facing feedPrice o
  fcAssert (Price.Faces feed o)
    "feed_price.base.asset_id == call_price.base.asset_id && feed_price.quote.asset_id == call_price.quote.asset_id"
  fcAssert (Price.Faces maintenanceCollateralization o)
    "maintenance_collateralization->base.asset_id == call_price.base.asset_id && maintenance_collateralization->quote.asset_id == call_price.quote.asset_id"
  let collateralization ← o.getCollateral.div o.getDebt
  if maintenanceCollateralization.lt collateralization then return 0
  match o.targetCollateralRatio with
  | none => return o.debt
  | some target =>
    let tcr := Max.max target maintenanceCollateralRatio
    let targetCollateralization ← feed.mulRatio tcr collateralRatioDenom
    let mp := Price.facing matchPrice o
    fcAssert (Price.Faces mp o)
      "match_price.base.asset_id == call_price.base.asset_id && match_price.quote.asset_id == call_price.quote.asset_id"
    let numerator := feed.base.amount * mp.quote.amount * o.debt * tcr -
      feed.quote.amount * mp.quote.amount * o.collateral * collateralRatioDenom
    if numerator < 0 then return 0
    let step := feed.base.amount * mp.quote.amount * tcr
    let denominator := step - feed.quote.amount * mp.base.amount * collateralRatioDenom
    if denominator ≤ 0 then return o.debt
    CallTarget.solve ⟨o, mp, targetCollateralization⟩ numerator denominator step

end Meta1Core.Market
