import Meta1Core.Market.Calls

/-!
# Force settlements (`db_market.cpp`, `db_update.cpp`)

A force settlement that is due is matched against the least collateralized call order, again and
again, until it is gone or the volume of its asset is used up.
-/

namespace Meta1Core.Settlement

open Lib (Rows Index)
open Protocol Ledger Market

def ForceSettlement.settlementAssetId (f : ForceSettlement) : AssetId := f.balance.assetId

def settlementsByExpiration (s : State) : List (Σ _ : Nat, ForceSettlement) :=
  ordered (fun f f' =>
    ForceSettlement.settlementAssetId f < ForceSettlement.settlementAssetId f' ∨
      ForceSettlement.settlementAssetId f = ForceSettlement.settlementAssetId f' ∧
        f.settlementDate < f'.settlementDate) s.forceSettlements.rows.entries

/-- The call order at `lower_bound( price::min( backing, mia ) )` of the index `by_collateral` -/
def leastCollateralized (backing mia : AssetId) (s : State) : Option (Σ _ : Nat, CallOrder) :=
  (ordered (fun o o' => (CallOrder.collateralization o).lt (CallOrder.collateralization o'))
    (s.callOrders.rows.entries.filter fun e =>
      (Price.min backing mia).le (CallOrder.collateralization e.2))).head?

/-- The limit orders between `price::max` and `price::min` of a market, the best price first -/
def limitOrdersByPrice (mia backing : AssetId) (s : State) : List (Σ _ : Nat, LimitOrder) :=
  ordered (fun o o' => o'.sellPrice.lt o.sellPrice) <|
    s.limitOrders.rows.entries.filter fun e =>
      (Price.min mia backing).le e.2.sellPrice ∧ e.2.sellPrice.le (Price.max mia backing)

/-- How a match of a call order and a force settlement ends: with a trade, or with nothing, where the
settlement may be cancelled -/
inductive SettleMatch where
  | nothing (cancelSettle : Bool)
  | trade (callPays callReceives : Asset) (cullSettleOrder : Bool)
  deriving DecidableEq

/-- The amounts of `match( call, settle, match_price, max_settlement, fill_price )` -/
def settleAmounts (callDebt settleBalance maxSettlement : Asset) (matchPrice : Price) :
    Except Exception SettleMatch := do
  let settleForSale ← settleBalance.min maxSettlement
  let callReceives ← settleForSale.min callDebt
  let callPays ← callReceives.mul matchPrice
  if callPays.amount = 0 then
    if callReceives = callDebt then
      return .trade ⟨1, callPays.assetId⟩ callReceives false
    else return .nothing (callReceives = settleBalance)
  else if callReceives = callDebt then do
    let callPays ← callReceives.multiplyAndRoundUp matchPrice
    return .trade callPays callReceives false
  else do
    let rounded ← callPays.multiplyAndRoundUp matchPrice
    return .trade callPays rounded (callReceives = settleBalance ∧ rounded ≠ settleBalance)

def cancelSettleOrder (id : Nat) : Evaluation Unit := do
  let order ← forceSettlements.fetch id
  adjustBalance order.owner order.balance
  forceSettlements.remove id

/-- `fill_settle_order`, which tells whether the settlement is gone -/
def fillSettleOrder (id : Nat) (pays receives : Asset) (isMaker : Bool) : Evaluation Bool := do
  let settle ← forceSettlements.fetch id
  let owner ← accounts.fetch settle.owner
  let issuerFees ← payMarketFees (some owner) receives.assetId receives isMaker
  let part ← pays.lt settle.balance
  onlyIf part <| forceSettlements.update id fun f => return { f with balance := ← f.balance.sub pays }
  adjustBalance settle.owner (← receives.sub issuerFees)
  onlyIf (part = false) (forceSettlements.remove id)
  return !part

/-- The second half of `match( call, settle, … )`: both orders are filled. -/
def tradeSettle (callId settleId : Nat) (settleAsset : AssetId) : SettleMatch → Evaluation Asset
  | .nothing cancelSettle => do
    onlyIf cancelSettle (cancelSettleOrder settleId)
    return ⟨0, settleAsset⟩
  | .trade callPays callReceives cullSettleOrder => do
    let _ ← fillCallOrder callId callPays callReceives
    let _ ← fillSettleOrder settleId callReceives callPays false
    onlyIf cullSettleOrder (cancelSettleOrder settleId)
    return callReceives

def matchSettle (callId settleId : Nat) (matchPrice : Price) (maxSettlement : Asset) :
    Evaluation Asset := do
  let call ← callOrders.fetch callId
  let settle ← forceSettlements.fetch settleId
  require (call.debtType = settle.balance.assetId) "call.get_debt().asset_id == settle.balance.asset_id"
  require (0 < call.debt ∧ 0 < call.collateral ∧ 0 < settle.balance.amount)
    "call.debt > 0 && call.collateral > 0 && settle.balance.amount > 0"
  let outcome ← settleAmounts call.getDebt settle.balance maxSettlement matchPrice
  tradeSettle callId settleId settle.balance.assetId outcome

/-- What `check_for_blackswan` looks at: whether the least collateralized call order cannot be covered
at the best bid, nor at the maximum short squeeze price -/
def blackSwanDetected (mia : AssetId) (bitasset : BitassetData) (s : State) :
    Except Exception Bool := do
  let backing := bitasset.options.shortBackingAsset
  if bitasset.hasSettlement then return true
  if bitasset.currentFeed.settlementPrice.isNull then return false
  match leastCollateralized backing mia s with
  | none => return false
  | some ⟨_, call⟩ =>
    if call.debtType ≠ mia then return false
    let squeeze ← bitasset.currentFeed.maxShortSqueezePrice
    let highest ← (match (limitOrdersByPrice mia backing s).head? with
      | none => pure squeeze
      | some ⟨_, bid⟩ => do
        fcAssert (squeeze.base.assetId = bid.sellPrice.base.assetId)
          "highest.base.asset_id == limit_itr->sell_price.base.asset_id"
        return if bid.sellPrice.lt squeeze then squeeze else bid.sellPrice)
    return highest.le call.collateralization.inv

/-! ## The loops -/

def maxForceSettlementVolume (bitasset : BitassetData) (currentSupply : Int) :
    Except Exception Int :=
  let percent := bitasset.options.maximumForceSettlementVolume
  if percent = 0 then return 0
  else if percent = percent100 then safe (currentSupply + bitasset.forceSettledVolume)
  else
    let volume := (uint128 currentSupply + uint128 bitasset.forceSettledVolume) * percent / percent100
    return int64Cast volume

/-- What `clear_expired_orders` keeps between two settlements; `settlement_price` is always the fill
price. -/
structure Cursor where
  currentAsset : AssetId
  maxSettlementVolume : Asset := ⟨0, core⟩
  settlementFillPrice : Price := Price.null
  currentAssetFinished : Bool := false
  deriving DecidableEq

def nextAsset (c : Cursor) (s : State) : Option Cursor :=
  ((settlementsByExpiration s).find? fun e =>
      c.currentAsset < ForceSettlement.settlementAssetId e.2).map fun bound =>
    { c with
      currentAsset := ForceSettlement.settlementAssetId bound.2
      currentAssetFinished := false }

/-- One settlement is matched until it is gone or the volume is used up: the volume, and whether the
last match was in vain; `none` where the fuel is used up. -/
def settleOrder (c : Cursor) (backing : AssetId) (id : Nat) :
    (fuel : Nat) → Asset → Evaluation (Option (Asset × Bool))
  | 0, _ => return none
  | fuel + 1, settled => do
    if ¬(← settled.lt c.maxSettlementVolume) ∨ (← get).forceSettlements.find id = none then
      return some (settled, false)
    else do
      match leastCollateralized backing c.currentAsset (← get) with
      | none => throw (.abort "itr != call_index.end() && itr->debt_type() == mia_object.get_id()")
      | some ⟨callId, call⟩ =>
        cAssert (call.debtType = c.currentAsset)
          "itr != call_index.end() && itr->debt_type() == mia_object.get_id()"
        let maxSettlement ← c.maxSettlementVolume.sub settled
        let order ← forceSettlements.fetch id
        if order.balance.amount = 0 then do
          cancelSettleOrder id
          return some (settled, false)
        else do
          let newSettled ← matchSettle callId id c.settlementFillPrice maxSettlement
          if newSettled.amount = 0 then
            return some (settled, decide ((← get).forceSettlements.find id ≠ none))
          else settleOrder c backing id fuel (← settled.add newSettled)

inductive Round where
  | last
  | next (c : Cursor)
  | endless
  deriving DecidableEq

def skipAsset (c : Cursor) (s : State) : Round :=
  match nextAsset c s with
  | some c => .next c
  | none => .last

def fillPriceFor (c : Cursor) (mia : BitassetData) : Except Exception Cursor :=
  if c.settlementFillPrice.base.assetId ≠ c.currentAsset then do
    let price ← mia.currentFeed.settlementPrice.divRatio
      (percent100 - mia.options.forceSettlementOffsetPercent) percent100
    return { c with settlementFillPrice := price }
  else return c

def maxVolumeFor (c : Cursor) (mia : BitassetData) (currentSupply : Int) : Except Exception Cursor :=
  if c.maxSettlementVolume.assetId ≠ c.currentAsset then do
    let volume ← maxForceSettlementVolume mia currentSupply
    return { c with maxSettlementVolume := ⟨volume, c.currentAsset⟩ }
  else return c

/-- The settlement `id` of an asset whose volume is not used up.  Each match takes at least one unit
of its balance. -/
def settleFirst (c : Cursor) (mia : BitassetData) (id : Nat) (balance : Int) : Evaluation Round := do
  let c ← fillPriceFor c mia
  match ← settleOrder c mia.options.shortBackingAsset id (balance.toNat + 1)
      ⟨mia.forceSettledVolume, c.currentAsset⟩ with
  | none => return .endless
  | some (settled, inVain) =>
    onlyIf (mia.forceSettledVolume ≠ settled.amount) <|
      updateBitasset c.currentAsset fun b => return { b with forceSettledVolume := settled.amount }
    return .next { c with currentAssetFinished := c.currentAssetFinished || inVain }

def settleAt (c : Cursor) (id : Nat) (order : ForceSettlement) : Evaluation Round := do
  let miaObject ← assets.fetch c.currentAsset
  let mia ← bitassetData miaObject
  if mia.hasSettlement then do
    cancelSettleOrder id
    return .next c
  else if (← get).headBlockTime < order.settlementDate then return skipAsset c (← get)
  else if mia.currentFeed.settlementPrice.isNull then do
    cancelSettleOrder id
    return .next c
  else if mia.options.forceSettlementOffsetPercent = percent100 then do
    cancelSettleOrder id
    return .next c
  else do
    let c ← maxVolumeFor c mia miaObject.currentSupply
    if c.maxSettlementVolume.amount ≤ mia.forceSettledVolume ∨ c.currentAssetFinished then
      return skipAsset c (← get)
    else settleFirst c mia id order.balance.amount

/-- A round of the outer loop: the first settlement of the current asset or of a later one -/
def settleNext (c : Cursor) : Evaluation Round := do
  match (settlementsByExpiration (← get)).find? fun e =>
      c.currentAsset ≤ ForceSettlement.settlementAssetId e.2 with
  | none => return .last
  | some ⟨id, order⟩ =>
    settleAt { c with currentAsset := ForceSettlement.settlementAssetId order } id order

/-- The outer loop, which tells whether it ended before the fuel was used up -/
def settleAll : (fuel : Nat) → Cursor → Evaluation Bool
  | 0, _ => return false
  | fuel + 1, c => do
    match ← settleNext c with
    | .last => return true
    | .next c => settleAll fuel c
    | .endless => return false

def clearExpiredSettlements (fuel : Nat) : Evaluation Bool := do
  match (settlementsByExpiration (← get)).head? with
  | none => return true
  | some ⟨_, order⟩ => settleAll fuel { currentAsset := ForceSettlement.settlementAssetId order }

end Meta1Core.Settlement
