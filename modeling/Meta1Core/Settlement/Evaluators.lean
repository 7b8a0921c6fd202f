import Meta1Core.Market.Calls

/-!
# Global settlement and its end (`db_market.cpp`, `db_maint.cpp`, `asset_evaluator.cpp`)

A global settlement gathers the collateral of all call orders in a fund, from which holders are paid
at one price.  It ends when the asset is revived, by a feed at which the fund suffices or by bids
that together take over the whole supply.
-/

namespace Meta1Core.Settlement

open Protocol Ledger Market

def settleCall (settlementPrice : Price) (gathered : Asset) (id : Nat) : Evaluation Asset := do
  let order ← callOrders.fetch id
  -- round up, in favor of global settlement fund
  let pays ← order.getDebt.multiplyAndRoundUp settlementPrice
  let pays ← pays.min order.getCollateral
  let gathered ← gathered.add pays
  let filled ← fillCallOrder id pays order.getDebt
  require filled "fill_call_order( order, pays, order.get_debt(), settlement_price, true )"
  return gathered

/-- The loop over the call orders, which accumulates `collateral_gathered` -/
def settleCalls (settlementPrice : Price) : Asset → List Nat → Evaluation Asset
  | gathered, [] => pure gathered
  | gathered, id :: rest => do
    let gathered ← settleCall settlementPrice gathered id
    settleCalls settlementPrice gathered rest

def globallySettleAsset (mia : AssetId) (settlementPrice : Price) : Evaluation Unit := do
  let a ← assets.fetch mia
  let bitasset ← bitassetData a
  require (¬bitasset.hasSettlement) "black swan already occurred, it should not happen again"
  let backing := bitasset.options.shortBackingAsset
  let _ ← assets.fetch backing
  let calls := (callsByPrice backing mia (← get)).map (·.1)
  let gathered ← settleCalls settlementPrice ⟨0, backing⟩ calls
  let price ← Asset.div ⟨a.currentSupply, mia⟩ gathered
  updateBitasset mia fun b =>
    return { b with settlementPrice := price, settlementFund := gathered.amount }
  -- the supply did not change, although filling the call orders reduced it
  assets.update mia fun b => return { b with currentSupply := a.currentSupply }

/-! ## `asset_settle_operation` -/

structure AssetSettleOperation where
  fee : Asset
  account : AccountId
  amount : Asset
  deriving DecidableEq

inductive SettleResult where
  | settled (amount : Asset)
  | order (id : Nat)
  deriving DecidableEq

/-- `settled_amount`; the last holder gets the whole fund, to avoid rounding problems. -/
def settledAmount (bitasset : BitassetData) (currentSupply : Int) (amount : Asset) :
    Except Exception Asset := do
  let settled ← amount.mul bitasset.settlementPrice
  if amount.amount = currentSupply then return { settled with amount := bitasset.settlementFund }
  fcAssert (settled.amount ≤ bitasset.settlementFund)
    "settled_amount.amount <= bitasset.settlement_fund"
  return settled

def settlementPays (bitasset : BitassetData) (currentSupply : Int) (amount settled : Asset) :
    Except Exception Asset :=
  if amount.amount ≠ currentSupply ∧ settled.amount ≠ 0 then
    settled.multiplyAndRoundUp bitasset.settlementPrice
  else .ok amount

/-- Take the settled amount out of the fund, and pay it less the market fee. -/
def paySettled (account : AccountId) (mia : AssetId) (settled : Asset) : Evaluation Asset := do
  if 0 < settled.amount then
    updateBitasset mia fun b =>
      return { b with settlementFund := ← safe (b.settlementFund - settled.amount) }
    let payer ← accounts.fetch account
    let issuerFees ← payMarketFees (some payer) settled.assetId settled false
    let received ← settled.sub issuerFees
    onlyIf (0 < received.amount) (adjustBalance account received)
    return received
  else return settled

namespace AssetSettleOperation

def validate (op : AssetSettleOperation) : Except Exception Unit := do
  fcAssert (0 ≤ op.fee.amount) "fee.amount >= 0"
  fcAssert (0 ≤ op.amount.amount) "amount.amount >= 0"

def checkBitasset (a : AssetObject) (bitasset : BitassetData) : Evaluation Unit := do
  require (a.options.flags.disableForceSettle = false ∨ bitasset.hasSettlement)
    "asset_to_settle->can_force_settle() || bitasset.has_settlement()"
  if bitasset.isPredictionMarket then
    require bitasset.hasSettlement
      "global settlement must occur before force settling a prediction market"
  else
    require (¬bitasset.currentFeed.settlementPrice.isNull ∨ bitasset.hasSettlement)
      "Cannot force settle with no price feed."

def doEvaluate (op : AssetSettleOperation) : Evaluation Unit := do
  let a ← assets.fetch op.amount.assetId
  let bitasset ← bitassetData a
  checkBitasset a bitasset
  let _ ← accounts.fetch op.account
  require (op.amount.amount ≤ getBalance op.account op.amount.assetId (← get))
    "d.get_balance(d.get(op.account), *asset_to_settle) >= op.amount"

def applySettled (op : AssetSettleOperation) (a : AssetObject) (bitasset : BitassetData) :
    Evaluation SettleResult := do
  let settled ← settledAmount bitasset a.currentSupply op.amount
  require (settled.amount ≠ 0 ∨ bitasset.isPredictionMarket)
    "Settle amount is too small to receive anything due to rounding"
  let pays ← settlementPays bitasset a.currentSupply op.amount settled
  adjustBalance op.account pays.neg
  let received ← paySettled op.account op.amount.assetId settled
  adjustSupply op.amount.assetId (-pays.amount)
  return .settled received

def doApply (op : AssetSettleOperation) : Evaluation SettleResult := do
  let a ← assets.fetch op.amount.assetId
  let bitasset ← bitassetData a
  if bitasset.hasSettlement then op.applySettled a bitasset
  else
    adjustBalance op.account op.amount.neg
    let now := (← get).headBlockTime
    let id ← forceSettlements.create
      ⟨op.account, op.amount, now + bitasset.options.forceSettlementDelaySec⟩
    return .order id

def evaluate (ctx : TransactionEvaluationState) (requiredFee : Int) (op : AssetSettleOperation) :
    Evaluation SettleResult := do
  op.validate
  startEvaluate ctx op.account op.fee requiredFee op.doEvaluate fun _ => op.doApply

end AssetSettleOperation

/-! ## Bids -/

def cancelBid (id : Nat) : Evaluation Unit := do
  let bid ← collateralBids.fetch id
  adjustBalance bid.bidder bid.invSwanPrice.base
  collateralBids.remove id

/-- `create< call_order_object >`; no account has two call orders of one asset. -/
def createCallOrder (order : CallOrder) : Evaluation Unit := do
  require (((← get).callOrders.findId fun o =>
      o.borrower = order.borrower ∧ o.debtType = order.debtType) = none)
    "Could not create object! Most likely a uniqueness constraint is violated."
  let _ ← callOrders.create order

/-- `create< collateral_bid_object >`; no account has two bids on one asset. -/
def createBid (bid : CollateralBid) : Evaluation Nat := do
  require (((← get).collateralBids.findId fun b =>
      b.bidder = bid.bidder ∧ b.debtType = bid.debtType) = none)
    "Could not create object! Most likely a uniqueness constraint is violated."
  collateralBids.create bid

def executeBid (id : Nat) (debtCovered collateralFromFund : Int) : Evaluation Unit := do
  let bid ← collateralBids.fetch id
  let base := bid.invSwanPrice.base
  let collateral ← safe (base.amount + collateralFromFund)
  createCallOrder
    { borrower := bid.bidder, collateral := collateral, debt := debtCovered,
      callPrice := ⟨⟨1, base.assetId⟩, ⟨1, bid.debtType⟩⟩, targetCollateralRatio := none }
  onlyIf (base.assetId = core) <|
    accounts.update bid.bidder fun a =>
      return { a with totalCoreInOrders := ← safe (a.totalCoreInOrders + collateral) }
  collateralBids.remove id

def bidsByPrice (backing mia : AssetId) (s : State) : List (Σ _ : Nat, CollateralBid) :=
  ordered (fun b b' => b'.invSwanPrice.lt b.invSwanPrice) <|
    s.collateralBids.rows.entries.filter fun e =>
      e.2.debtType = mia ∧ e.2.invSwanPrice.le (Price.max backing mia)

/-- The loop of `_cancel_bids_and_revive_mpa` -/
def cancelBids : List Nat → Evaluation Unit
  | [] => pure ()
  | id :: rest => do
    cancelBid id
    cancelBids rest

def cancelBidsAndReviveMpa (bitasset : AssetId) (bad : AssetId) : Evaluation Unit := do
  let a ← assets.fetch bitasset
  require a.bitasset.isSome "bitasset.is_market_issued()"
  let data ← bitassetData (← assets.fetch bad)
  require data.hasSettlement "bad.has_settlement()"
  require (data.isPredictionMarket = false) "!bad.is_prediction_market"
  cancelBids ((bidsByPrice data.options.shortBackingAsset bitasset (← get)).map (·.1))
  updateBitasset bad fun b => return { b with settlementPrice := Price.null, settlementFund := 0 }

def executePseudoBid (bitasset : AssetId) (a : AssetObject) (bad : BitassetData) :
    Evaluation Unit := do
  let price ← Asset.div ⟨0, bad.options.shortBackingAsset⟩ ⟨a.currentSupply, bitasset⟩
  let bid ← createBid ⟨a.issuer, price⟩
  executeBid bid a.currentSupply bad.settlementFund

def reviveBitasset (bitasset : AssetId) : Evaluation Unit := do
  let a ← assets.fetch bitasset
  let bad ← bitassetData a
  require bad.hasSettlement "bad.has_settlement()"
  require (bad.isPredictionMarket = false) "!bad.is_prediction_market"
  require (¬bad.currentFeed.settlementPrice.isNull) "!bad.current_feed.settlement_price.is_null()"
  if 0 < a.currentSupply then executePseudoBid bitasset a bad
  else require (bad.settlementFund = 0) "bad.settlement_fund == 0"
  cancelBidsAndReviveMpa bitasset bitasset

/-! ## `process_bids` -/

/-- The loop of `price::call_price`; numerator and denominator have less than `fuel` bits. -/
def shrinkUp : (fuel : Nat) → Rat → Except Exception Rat
  | 0, _ => .error .diverges
  | fuel + 1, cp =>
    if maxShareSupply < cp.num ∨ maxShareSupply < (cp.den : Int) then
      shrinkUp fuel (mkRat (cp.num / 2 + 1) (cp.den / 2 + 1))
    else .ok cp

def callPrice (debt collateral : Asset) (collateralRatio : Nat) : Except Exception Price := do
  fcAssert (collateral.amount ≠ 0) "bad rational: zero denominator"
  let cp ← rational128 ((debt.amount : Rat) / collateral.amount *
    mkRat collateralRatio collateralRatioDenom)
  let cp ← shrinkUp 128 cp
  Asset.div ⟨cp.den, collateral.assetId⟩ ⟨cp.num, debt.assetId⟩

/-- `debt_in_bid`, which is not more than the supply -/
def debtInBid (currentSupply : Int) (bid : CollateralBid) : Asset :=
  let debt := bid.invSwanPrice.quote
  if currentSupply < debt.amount then { debt with amount := currentSupply } else debt

/-- Whether the debt in a bid, with its share of the fund, would be called at once -/
def undercollateralized (bad : BitassetData) (currentSupply : Int) (bid : CollateralBid) :
    Except Exception Bool := do
  let debt := debtInBid currentSupply bid
  let totalCollateral ← debt.mul bad.settlementPrice
  let totalCollateral ← totalCollateral.add bid.invSwanPrice.base
  let price ← callPrice debt totalCollateral bad.currentFeed.maintenanceCollateralRatio
  return bad.currentFeed.settlementPrice.le price.inv

def coverSupply (bad : BitassetData) (currentSupply : Int) :
    Int → List (Σ _ : Nat, CollateralBid) → Except Exception (Int × List (Σ _ : Nat, CollateralBid))
  | covered, [] => .ok (covered, [])
  | covered, e :: rest =>
    if covered < currentSupply then do
      if ← undercollateralized bad currentSupply e.2 then return (covered, [])
      let covered ← safe (covered + (debtInBid currentSupply e.2).amount)
      let (covered, chosen) ← coverSupply bad currentSupply covered rest
      return (covered, e :: chosen)
    else .ok (covered, [])

/-- What the second loop of `process_bids` gives a bid: its debt and its share of the fund -/
def bidShare (bad : BitassetData) (currentSupply toCover remainingFund : Int)
    (bid : CollateralBid) : Except Exception (Int × Int) := do
  let debt := debtInBid currentSupply bid
  let collateral ← debt.mul bad.settlementPrice
  if toCover ≤ debt.amount then return (toCover, remainingFund)
  return (debt.amount, collateral.amount)

def executeBids (bad : BitassetData) (currentSupply : Int) :
    Int → Int → List (Σ _ : Nat, CollateralBid) → Evaluation (Int × Int)
  | toCover, remainingFund, [] => pure (toCover, remainingFund)
  | toCover, remainingFund, e :: rest => do
    let (debt, collateral) ← bidShare bad currentSupply toCover remainingFund e.2
    let toCover ← safe (toCover - debt)
    let remainingFund ← safe (remainingFund - collateral)
    executeBid e.1 debt collateral
    executeBids bad currentSupply toCover remainingFund rest

def reviveByBids (id toRevive : AssetId) (bad : BitassetData) (currentSupply : Int)
    (chosen : List (Σ _ : Nat, CollateralBid)) : Evaluation Unit := do
  let (toCover, remainingFund) ←
    executeBids bad currentSupply currentSupply bad.settlementFund chosen
  require (remainingFund = 0) "remaining_fund == 0"
  require (toCover = 0) "to_cover == 0"
  cancelBidsAndReviveMpa toRevive id

def processBids (id : AssetId) : Evaluation Unit := do
  let bad ← bitassetData (← assets.fetch id)
  if bad.isPredictionMarket then return
  if bad.currentFeed.settlementPrice.isNull then return
  let backing := bad.options.shortBackingAsset
  let zero ← Asset.mul ⟨0, backing⟩ bad.settlementPrice
  let toRevive ← assets.fetch zero.assetId
  let bids := bidsByPrice backing zero.assetId (← get)
  let (covered, chosen) ← coverSupply bad toRevive.currentSupply 0 bids
  if covered < toRevive.currentSupply then return
  reviveByBids id zero.assetId bad toRevive.currentSupply chosen

/-! ## `bid_collateral_operation` -/

structure BidCollateralOperation where
  fee : Asset
  bidder : AccountId
  additionalCollateral : Asset
  debtCovered : Asset
  deriving DecidableEq

namespace BidCollateralOperation

def validate (op : BidCollateralOperation) : Except Exception Unit := do
  fcAssert (0 ≤ op.fee.amount) "fee.amount >= 0"
  fcAssert (op.debtCovered.amount = 0 ∨
      0 < op.debtCovered.amount ∧ 0 < op.additionalCollateral.amount)
    "debt_covered.amount == 0 || (debt_covered.amount > 0 && additional_collateral.amount > 0)"

def find (op : BidCollateralOperation) (s : State) : Option Nat :=
  s.collateralBids.findId fun b => b.bidder = op.bidder ∧ b.debtType = op.debtCovered.assetId

def doEvaluate (op : BidCollateralOperation) : Evaluation (Option Nat) := do
  let _ ← accounts.fetch op.bidder
  let debtAsset ← assets.fetch op.debtCovered.assetId
  let bitasset ← bitassetData debtAsset
  require bitasset.hasSettlement "_bitasset_data->has_settlement()"
  require (op.additionalCollateral.assetId = bitasset.options.shortBackingAsset)
    "o.additional_collateral.asset_id == _bitasset_data->options.short_backing_asset"
  require (bitasset.isPredictionMarket = false) "Cannot bid on a prediction market!"
  onlyIf (0 < op.additionalCollateral.amount) do
    require (op.additionalCollateral.amount ≤
        getBalance op.bidder op.additionalCollateral.assetId (← get))
      "Cannot bid collateral when payer only has less"
  let bid := op.find (← get)
  require (bid.isSome ∨ 0 < op.debtCovered.amount) "Can't find bid to cancel?!"
  return bid

def placeBid (op : BidCollateralOperation) : Evaluation Unit := do
  adjustBalance op.bidder op.additionalCollateral.neg
  let price ← Asset.div op.additionalCollateral op.debtCovered
  let _ ← createBid ⟨op.bidder, price⟩

def doApply (op : BidCollateralOperation) (bid : Option Nat) : Evaluation Unit := do
  bid.elim (pure ()) cancelBid
  onlyIf (op.debtCovered.amount ≠ 0) op.placeBid

def evaluate (ctx : TransactionEvaluationState) (requiredFee : Int)
    (op : BidCollateralOperation) : Evaluation Unit := do
  op.validate
  startEvaluate ctx op.bidder op.fee requiredFee op.doEvaluate op.doApply

end BidCollateralOperation

end Meta1Core.Settlement
