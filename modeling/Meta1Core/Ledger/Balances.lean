import Meta1Core.Ledger.Objects

/-!
# Balances and fees (`db_balance.cpp`, `evaluator.cpp`, the fees of `db_market.cpp`)

Every operation is evaluated in the same frame: the fee is checked, the operation is evaluated and
applied, and the fee leaves the account of the payer last.
-/

namespace Meta1Core.Ledger

open Lib (Rows Index Returns Relates)
open Protocol

def getBalance (account : AccountId) (id : AssetId) (s : State) : Int :=
  (s.balances.lookup (account, id)).getD 0

def adjustBalance (account : AccountId) (delta : Asset) : Evaluation Unit := do
  if delta.amount = 0 then return
  match (← get).balances.lookup (account, delta.assetId) with
  | none =>
    require (0 < delta.amount) "Insufficient Balance"
    modify fun s => { s with balances := s.balances.insert (account, delta.assetId) delta.amount }
  | some balance =>
    if delta.amount < 0 then require (-delta.amount ≤ balance) "Insufficient Balance"
    let balance ← safe (balance + delta.amount)
    modify fun s => { s with balances := s.balances.insert (account, delta.assetId) balance }

def isAuthorizedAsset (account : AccountObject) (id : AssetId) (a : AssetObject) : Bool :=
  if a.options.flags.whiteList = false ∧ account.allowedAssets = none then true
  else if account.allowedAssets.any (id ∉ ·) then false
  else if account.blacklistingAccounts.any (· ∈ a.options.blacklistAuthorities) then false
  else if a.options.whitelistAuthorities = [] then true
  else account.whitelistingAccounts.any (· ∈ a.options.whitelistAuthorities)

def calculatePercent (value : Int) (percent : Nat) : Except Exception Int := do
  let a := uint128 (uint128 value * percent) / percent100
  fcAssert ((a : Int) ≤ maxShareSupply) "overflow when calculating percent"
  return a

def calculateMarketFee (id : AssetId) (a : AssetObject) (tradeAmount : Asset) (isMaker : Bool) :
    Except Exception Asset := do
  let feePercent :=
    if isMaker then a.options.marketFeePercent
    else a.options.takerFeePercent.getD a.options.marketFeePercent
  if a.options.flags.chargeMarketFee = false then return ⟨0, id⟩
  if isMaker ∧ a.options.marketFeePercent = 0 then return ⟨0, id⟩
  if ¬isMaker ∧ a.options.takerFeePercent = some 0 then return ⟨0, id⟩
  let value ← calculatePercent tradeAmount.amount feePercent
  return ⟨Min.min value a.options.maxMarketFee, id⟩

def findMarketFeeBalance (owner : AccountId) (id : AssetId) (s : State) : Option Nat :=
  s.vestingBalances.findId fun vbo => vbo.owner = owner ∧ vbo.balance.assetId = id

def depositMarketFeeVestingBalance (account : AccountId) (delta : Asset) : Evaluation Unit := do
  require (0 ≤ delta.amount) "Invalid negative value for balance"
  if delta.amount = 0 then return
  match findMarketFeeBalance account delta.assetId (← get) with
  | none =>
    let _ ← vestingBalances.create ⟨account, delta⟩
  | some id =>
    vestingBalances.update id fun vbo => return { vbo with balance := ← vbo.balance.add delta }

def payRewards (seller : AccountObject) (id : AssetId) (a : AssetObject) (issuerFees : Asset) :
    Evaluation Int := do
  let whiteList := a.options.whitelistMarketFeeSharing.getD []
  if whiteList ≠ [] ∧ seller.registrar ∉ whiteList then return 0
  let rewardPercent := a.options.rewardPercent.getD 0
  if rewardPercent = 0 then return 0
  let reward ← calculatePercent issuerFees.amount rewardPercent
  if ¬0 < reward then return 0
  if ¬isAuthorizedAsset (← accounts.fetch seller.registrar) id a then return 0
  require (reward ≤ issuerFees.amount) "Market reward should not be greater than issuer fees"
  let mut registrarReward := reward
  if seller.referrer ≠ seller.registrar then
    let referrerReward ← calculatePercent reward seller.referrerRewardsPercentage
    if 0 < referrerReward ∧ isAuthorizedAsset (← accounts.fetch seller.referrer) id a then
      require (referrerReward ≤ reward) "Referrer reward shouldn't be greater than total reward"
      registrarReward ← safe (reward - referrerReward)
      depositMarketFeeVestingBalance seller.referrer ⟨referrerReward, id⟩
  if 0 < registrarReward then
    depositMarketFeeVestingBalance seller.registrar ⟨registrarReward, id⟩
  return reward

def payCalculatedMarketFees (seller : Option AccountObject) (id : AssetId)
    (receives issuerFees : Asset) : Evaluation Unit := do
  require (← issuerFees.le receives) "Market fee shouldn't be greater than receives"
  if 0 < issuerFees.amount then
    let a ← assets.fetch id
    let reward ← seller.elim (pure 0) fun seller => payRewards seller id a issuerFees
    if reward < issuerFees.amount then
      assets.update id fun a => do
        let rest ← safe (issuerFees.amount - reward)
        return { a with accumulatedFees := ← safe (a.accumulatedFees + rest) }

def payMarketFees (seller : Option AccountObject) (id : AssetId) (receives : Asset)
    (isMaker : Bool) : Evaluation Asset := do
  let fees ← calculateMarketFee id (← assets.fetch id) receives isMaker
  payCalculatedMarketFees seller id receives fees
  return fees

def AccountObject.payFee (coreFee threshold : Int) (a : AccountObject) :
    Except Exception AccountObject :=
  if threshold < coreFee then return { a with pendingFees := ← safe (a.pendingFees + coreFee) }
  else return { a with pendingVestedFees := ← safe (a.pendingVestedFees + coreFee) }

structure TransactionEvaluationState where
  skipFee : Bool := false
  skipFeeScheduleCheck : Bool := false
  deriving DecidableEq

def prepareFee (payer : AccountId) (fee : Asset) : Evaluation Int := do
  require (0 ≤ fee.amount) "fee.amount >= 0"
  let account ← accounts.fetch payer
  let a ← assets.fetch fee.assetId
  require (isAuthorizedAsset account fee.assetId a)
    "Account attempted to pay fee by using an unauthorized asset"
  if fee.assetId = core then return fee.amount
  let feeFromPool ← fee.mul a.options.coreExchangeRate
  require (feeFromPool.assetId = core) "fee_from_pool.asset_id == asset_id_type()"
  require (feeFromPool.amount ≤ a.feePool) "Fee pool balance is less than required"
  return feeFromPool.amount

def convertFee (ctx : TransactionEvaluationState) (fee : Asset) (coreFeePaid : Int) :
    Evaluation Unit := do
  if ctx.skipFee = false ∧ fee.assetId ≠ core then
    assets.update fee.assetId fun a => do
      let accumulatedFees ← safe (a.accumulatedFees + fee.amount)
      return { a with accumulatedFees, feePool := ← safe (a.feePool - coreFeePaid) }

def payFee (ctx : TransactionEvaluationState) (payer : AccountId) (coreFeePaid : Int) :
    Evaluation Unit := do
  if ctx.skipFee = false then
    let threshold := (← get).cashbackVestingThreshold
    accounts.update payer (AccountObject.payFee coreFeePaid threshold)

/-- `pay_fba_fee`; `isConfigured` is what `fba_accumulator_object::is_configured` says. -/
def payFbaFee (isConfigured : State → Nat → Bool) (ctx : TransactionEvaluationState)
    (payer : AccountId) (fbaId : Nat) (coreFeePaid : Int) : Evaluation Unit := do
  let _ ← fbaAccumulators.fetch fbaId
  if isConfigured (← get) fbaId then
    fbaAccumulators.update fbaId fun fba =>
      return { fba with accumulatedFbaFees := ← safe (fba.accumulatedFbaFees + coreFeePaid) }
  else payFee ctx payer coreFeePaid

def startEvaluateWith {α β : Type} (ctx : TransactionEvaluationState) (payer : AccountId)
    (fee : Asset) (requiredFee : Int) (pay : Int → Evaluation Unit) (doEvaluate : Evaluation α)
    (doApply : α → Evaluation β) : Evaluation β := do
  let coreFeePaid ← prepareFee payer fee
  if ctx.skipFeeScheduleCheck = false then
    require (requiredFee ≤ coreFeePaid) "Insufficient Fee Paid"
  let prepared ← doEvaluate
  convertFee ctx fee coreFeePaid
  pay coreFeePaid
  let result ← doApply prepared
  adjustBalance payer fee.neg
  return result

/-- The same, for an operation that pays its fee as the default does -/
def startEvaluate {α β : Type} (ctx : TransactionEvaluationState) (payer : AccountId) (fee : Asset)
    (requiredFee : Int) (doEvaluate : Evaluation α) (doApply : α → Evaluation β) :
    Evaluation β :=
  startEvaluateWith ctx payer fee requiredFee (payFee ctx payer) doEvaluate doApply

end Meta1Core.Ledger
