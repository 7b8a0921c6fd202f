import Meta1Core.Ledger.Balances

/-!
# Liquidity pools (`liquidity_pool_evaluator.cpp`)

The amounts are computed in `uint128_t` and cast back to `int64_t`; products and sums wrap at 2^128
and casts at 2^64, and a division by zero is undefined.
-/

namespace Meta1Core.Pools

open Protocol Ledger

def div128 (n d : Nat) : Except Exception Nat :=
  if d = 0 then .error .undefined else .ok (n / d)

def divRoundUp128 (n d : Nat) : Except Exception Nat := div128 (uint128 ((n : Int) + d - 1)) d

def mul128 (a b : Nat) : Nat := uint128 ((a : Int) * b)

def updateVirtualValue (p : LiquidityPool) : LiquidityPool :=
  { p with virtualValue := mul128 (uint128 p.balanceA) (uint128 p.balanceB) }

/-! ## Operations -/

structure LiquidityPoolCreateOperation where
  fee : Asset
  account : AccountId
  assetA : AssetId
  assetB : AssetId
  shareAsset : AssetId
  takerFeePercent : Nat
  withdrawalFeePercent : Nat
  deriving DecidableEq

structure LiquidityPoolDeleteOperation where
  fee : Asset
  account : AccountId
  pool : Nat
  deriving DecidableEq

structure LiquidityPoolDepositOperation where
  fee : Asset
  account : AccountId
  pool : Nat
  amountA : Asset
  amountB : Asset
  deriving DecidableEq

structure LiquidityPoolWithdrawOperation where
  fee : Asset
  account : AccountId
  pool : Nat
  shareAmount : Asset
  deriving DecidableEq

structure LiquidityPoolExchangeOperation where
  fee : Asset
  account : AccountId
  pool : Nat
  amountToSell : Asset
  minToReceive : Asset
  deriving DecidableEq

structure AssetIssueOperation where
  fee : Asset
  issuer : AccountId
  assetToIssue : Asset
  issueToAccount : AccountId
  deriving DecidableEq

structure AssetReserveOperation where
  fee : Asset
  payer : AccountId
  amountToReserve : Asset
  deriving DecidableEq

structure ExchangeResult where
  paid : List Asset := []
  received : List Asset := []
  fees : List Asset := []
  deriving DecidableEq

namespace LiquidityPoolCreateOperation

def validate (op : LiquidityPoolCreateOperation) : Except Exception Unit := do
  fcAssert (0 ≤ op.fee.amount) "Fee should not be negative"
  fcAssert (op.assetA < op.assetB) "ID of the first asset should be smaller than ID of the second asset"
  fcAssert (op.assetA ≠ op.shareAsset ∧ op.assetB ≠ op.shareAsset)
    "Share asset can not be the same as one of the assets in the pool"
  fcAssert (op.takerFeePercent ≤ percent100) "Taker fee percent should not exceed 100%"
  fcAssert (op.withdrawalFeePercent ≤ percent100) "Withdrawal fee percent should not exceed 100%"

def doEvaluate (op : LiquidityPoolCreateOperation) : Evaluation Unit := do
  let _ ← assets.fetch op.assetA
  let _ ← assets.fetch op.assetB
  let shareAsset ← assets.fetch op.shareAsset
  require (shareAsset.issuer = op.account)
    "Only the asset owner can set an asset as the share asset of a liquidity pool"
  require (shareAsset.bitasset.isNone)
    "Can not specify a market-issued asset as the share asset of a liquidity pool"
  require (shareAsset.forLiquidityPool.isNone)
    "The share asset is already bound to another liquidity pool"
  require (shareAsset.currentSupply = 0) "Current supply of the share asset needs to be zero"

def doApply (op : LiquidityPoolCreateOperation) : Evaluation ExchangeResult := do
  -- by_share_asset is unique
  require ((← get).liquidityPools.findId (·.shareAsset = op.shareAsset) = none)
    "Could not create object! Most likely a uniqueness constraint is violated."
  let pool ← liquidityPools.create
    { assetA := op.assetA
      assetB := op.assetB
      shareAsset := op.shareAsset
      takerFeePercent := op.takerFeePercent
      withdrawalFeePercent := op.withdrawalFeePercent }
  assets.update op.shareAsset fun a => return { a with forLiquidityPool := some pool }
  return {}

end LiquidityPoolCreateOperation

namespace LiquidityPoolDeleteOperation

def validate (op : LiquidityPoolDeleteOperation) : Except Exception Unit :=
  fcAssert (0 ≤ op.fee.amount) "Fee should not be negative"

def doEvaluate (op : LiquidityPoolDeleteOperation) : Evaluation LiquidityPool := do
  let pool ← liquidityPools.fetch op.pool
  require (pool.balanceA = 0 ∧ pool.balanceB = 0) "Can not delete a non-empty pool"
  let shareAsset ← assets.fetch pool.shareAsset
  require (shareAsset.issuer = op.account) "The account is not the owner of the liquidity pool"
  return pool

def doApply (op : LiquidityPoolDeleteOperation) (pool : LiquidityPool) :
    Evaluation ExchangeResult := do
  assets.update pool.shareAsset fun a => return { a with forLiquidityPool := none }
  liquidityPools.remove op.pool
  return {}

end LiquidityPoolDeleteOperation

/-! ## Deposits -/

/-- The 128-bit amounts of a deposit into a pool that is not empty -/
structure DepositAmounts where
  newSupply : Nat
  a128 : Nat
  b128 : Nat
  deriving DecidableEq

def depositAmounts (pool : LiquidityPool) (supply maxSupply amountA amountB : Int) :
    Except Exception DepositAmounts := do
  let maxNewSupply ← safe (maxSupply - supply)
  let supply128 := uint128 supply
  let newSupplyIfA ← div128 (mul128 supply128 (uint128 amountA)) (uint128 pool.balanceA)
  let newSupplyIfB ← div128 (mul128 supply128 (uint128 amountB)) (uint128 pool.balanceB)
  let newSupply := Min.min (Min.min newSupplyIfA newSupplyIfB) (uint128 maxNewSupply)
  fcAssert (0 < newSupply) "Aborting due to zero outcome"
  let a128 ← divRoundUp128 (mul128 newSupply (uint128 pool.balanceA)) supply128
  fcAssert (a128 ≤ uint128 amountA) "Internal error"
  let b128 ← divRoundUp128 (mul128 newSupply (uint128 pool.balanceB)) supply128
  fcAssert (b128 ≤ uint128 amountB) "Internal error"
  return ⟨newSupply, a128, b128⟩

structure Deposit where
  poolReceivesA : Int
  poolReceivesB : Int
  accountReceives : Int
  deriving DecidableEq

namespace LiquidityPoolDepositOperation

def validate (op : LiquidityPoolDepositOperation) : Except Exception Unit := do
  fcAssert (0 ≤ op.fee.amount) "Fee should not be negative"
  fcAssert (0 < op.amountA.amount ∧ 0 < op.amountB.amount)
    "Both amounts of the assets should be positive"
  fcAssert (op.amountA.assetId < op.amountB.assetId)
    "ID of the first asset should be smaller than ID of the second asset"

def doEvaluate (op : LiquidityPoolDepositOperation) : Evaluation Deposit := do
  let pool ← liquidityPools.fetch op.pool
  require (op.amountA.assetId = pool.assetA) "Asset type A mismatch"
  require (op.amountB.assetId = pool.assetB) "Asset type B mismatch"
  require ((pool.balanceA = 0) ↔ (pool.balanceB = 0)) "Internal error"
  let shareAsset ← assets.fetch pool.shareAsset
  require (pool.balanceA = 0 → shareAsset.issuer = op.account)
    "The initial deposit can only be done by the pool owner"
  require ((pool.balanceA = 0) ↔ (shareAsset.currentSupply = 0)) "Internal error"
  require (shareAsset.currentSupply < shareAsset.options.maxSupply)
    "Can not create new supply for the share asset"
  let account ← accounts.fetch op.account
  require (isAuthorizedAsset account pool.shareAsset shareAsset)
    "The account is unauthorized by the share asset"
  require (isAuthorizedAsset account pool.assetA (← assets.fetch pool.assetA))
    "The account is unauthorized by asset A"
  require (isAuthorizedAsset account pool.assetB (← assets.fetch pool.assetB))
    "The account is unauthorized by asset B"
  if pool.balanceA = 0 then
    let shareAmount := Max.max op.amountA.amount op.amountB.amount
    require (shareAmount ≤ shareAsset.options.maxSupply)
      "For initial deposit, each amount of the two assets in the pool should not be greater than the maximum supply of the share asset"
    return ⟨op.amountA.amount, op.amountB.amount, shareAmount⟩
  else
    let m ← depositAmounts pool shareAsset.currentSupply shareAsset.options.maxSupply
      op.amountA.amount op.amountB.amount
    return ⟨int64Cast m.a128, int64Cast m.b128, int64Cast m.newSupply⟩

def move (op : LiquidityPoolDepositOperation) (d : Deposit) : Evaluation Unit := do
  let pool ← liquidityPools.fetch op.pool
  adjustBalance op.account ⟨-d.poolReceivesA, pool.assetA⟩
  adjustBalance op.account ⟨-d.poolReceivesB, pool.assetB⟩
  adjustBalance op.account ⟨d.accountReceives, pool.shareAsset⟩
  liquidityPools.update op.pool fun p => do
    let balanceA ← safe (p.balanceA + d.poolReceivesA)
    let balanceB ← safe (p.balanceB + d.poolReceivesB)
    return updateVirtualValue { p with balanceA, balanceB }
  assets.update pool.shareAsset fun a =>
    return { a with currentSupply := ← safe (a.currentSupply + d.accountReceives) }

def doApply (op : LiquidityPoolDepositOperation) (d : Deposit) : Evaluation ExchangeResult := do
  op.move d
  let pool ← liquidityPools.fetch op.pool
  require (0 < pool.balanceA ∧ 0 < pool.balanceB) "Internal error"
  require (0 < (← assets.fetch pool.shareAsset).currentSupply) "Internal error"
  return { paid := [⟨d.poolReceivesA, pool.assetA⟩, ⟨d.poolReceivesB, pool.assetB⟩]
           received := [⟨d.accountReceives, pool.shareAsset⟩] }

end LiquidityPoolDepositOperation

/-! ## Withdrawals -/

/-- The 128-bit amounts that the withdrawal of a part of the shares comes to in one asset -/
structure WithdrawAmount where
  pays : Nat
  fee : Nat
  deriving DecidableEq

def withdrawAmount (share balance supply : Int) (feePercent : Nat) :
    Except Exception WithdrawAmount := do
  let a128 ← div128 (mul128 (uint128 share) (uint128 balance)) (uint128 supply)
  fcAssert (a128 < uint128 balance) "Internal error"
  let fee := mul128 a128 feePercent / percent100
  fcAssert (fee ≤ a128) "Withdrawal fee percent of the pool is too high"
  return ⟨a128 - fee, fee⟩

structure Withdrawal where
  poolPaysA : Int
  poolPaysB : Int
  feeA : Int
  feeB : Int
  deriving DecidableEq

/-- Credit what a withdrawal pays of one asset, if it pays anything. -/
def payOut (account : AccountId) (pays : Asset) : Evaluation Unit :=
  if 0 < pays.amount then adjustBalance account pays else pure ()

namespace LiquidityPoolWithdrawOperation

def validate (op : LiquidityPoolWithdrawOperation) : Except Exception Unit := do
  fcAssert (0 ≤ op.fee.amount) "Fee should not be negative"
  fcAssert (0 < op.shareAmount.amount) "Amount of the share asset should be positive"

def doEvaluate (op : LiquidityPoolWithdrawOperation) : Evaluation Withdrawal := do
  let pool ← liquidityPools.fetch op.pool
  require (op.shareAmount.assetId = pool.shareAsset) "Share asset type mismatch"
  require (0 < pool.balanceA ∧ 0 < pool.balanceB) "The pool has not been initialized"
  let shareAsset ← assets.fetch pool.shareAsset
  let account ← accounts.fetch op.account
  require (isAuthorizedAsset account pool.shareAsset shareAsset)
    "The account is unauthorized by the share asset"
  require (isAuthorizedAsset account pool.assetA (← assets.fetch pool.assetA))
    "The account is unauthorized by asset A"
  require (isAuthorizedAsset account pool.assetB (← assets.fetch pool.assetB))
    "The account is unauthorized by asset B"
  require (op.shareAmount.amount ≤ shareAsset.currentSupply)
    "Can not withdraw an amount that is more than the current supply"
  if shareAsset.currentSupply = op.shareAmount.amount then
    return ⟨pool.balanceA, pool.balanceB, 0, 0⟩
  else
    let a ← withdrawAmount op.shareAmount.amount pool.balanceA shareAsset.currentSupply
      pool.withdrawalFeePercent
    let b ← withdrawAmount op.shareAmount.amount pool.balanceB shareAsset.currentSupply
      pool.withdrawalFeePercent
    require (0 < a.pays ∨ 0 < b.pays) "Aborting due to zero outcome"
    return ⟨int64Cast a.pays, int64Cast b.pays, int64Cast a.fee, int64Cast b.fee⟩

def move (op : LiquidityPoolWithdrawOperation) (w : Withdrawal) : Evaluation Unit := do
  let pool ← liquidityPools.fetch op.pool
  adjustBalance op.account op.shareAmount.neg
  payOut op.account ⟨w.poolPaysA, pool.assetA⟩
  payOut op.account ⟨w.poolPaysB, pool.assetB⟩
  assets.update pool.shareAsset fun a =>
    return { a with currentSupply := ← safe (a.currentSupply - op.shareAmount.amount) }
  liquidityPools.update op.pool fun p => do
    let balanceA ← safe (p.balanceA - w.poolPaysA)
    let balanceB ← safe (p.balanceB - w.poolPaysB)
    return updateVirtualValue { p with balanceA, balanceB }

def doApply (op : LiquidityPoolWithdrawOperation) (w : Withdrawal) :
    Evaluation ExchangeResult := do
  op.move w
  let pool ← liquidityPools.fetch op.pool
  require ((pool.balanceA = 0) ↔ (pool.balanceB = 0)) "Internal error"
  require ((pool.balanceA = 0) ↔ ((← assets.fetch pool.shareAsset).currentSupply = 0))
    "Internal error"
  return { paid := [op.shareAmount]
           received := [⟨w.poolPaysA, pool.assetA⟩, ⟨w.poolPaysB, pool.assetB⟩]
           fees := [⟨w.feeA, pool.assetA⟩, ⟨w.feeB, pool.assetB⟩] }

end LiquidityPoolWithdrawOperation

/-! ## Exchanges -/

/-- What a pool with `virtualValue` gives up of the asset of which it holds `pays`, when it comes to
hold `newBalance` of the other one: the difference and its taker fee -/
structure ExchangeAmount where
  delta : Nat
  poolTakerFee : Nat
  deriving DecidableEq

def exchangeAmount (virtualValue : Nat) (newBalance pays : Int) (feePercent : Nat) :
    Except Exception ExchangeAmount := do
  let newPays ← divRoundUp128 virtualValue (uint128 newBalance)
  fcAssert ((newPays : Int) ≤ pays) "Internal error"
  let delta := uint128 (uint128 pays - newPays)
  let poolTakerFee := mul128 delta feePercent / percent100
  fcAssert (poolTakerFee ≤ delta) "Taker fee percent of the pool is too high"
  return ⟨delta, poolTakerFee⟩

structure Exchange where
  makerMarketFee : Asset
  poolReceives : Asset
  poolPays : Asset
  takerMarketFee : Asset
  accountReceives : Asset
  poolTakerFee : Asset
  deriving DecidableEq

namespace LiquidityPoolExchangeOperation

def validate (op : LiquidityPoolExchangeOperation) : Except Exception Unit := do
  fcAssert (0 ≤ op.fee.amount) "Fee should not be negative"
  fcAssert (0 < op.amountToSell.amount) "Amount to sell should be positive"
  fcAssert (0 < op.minToReceive.amount) "Minimum amount to receive should be positive"
  fcAssert (op.amountToSell.assetId ≠ op.minToReceive.assetId)
    "ID of the two assets should not be the same"

/-- What is exchanged, once it is known which of the two assets the pool receives -/
def amounts (op : LiquidityPoolExchangeOperation) (pool : LiquidityPool)
    (receivesAsset paysAsset : AssetObject) (receivesBalance paysBalance : Int) :
    Except Exception Exchange := do
  let makerMarketFee ←
    calculateMarketFee op.amountToSell.assetId receivesAsset op.amountToSell true
  fcAssert (← makerMarketFee.lt op.amountToSell)
    "Aborting since the maker market fee of the selling asset is too high"
  let poolReceives ← op.amountToSell.sub makerMarketFee
  let newBalance ← safe (receivesBalance + poolReceives.amount)
  let x ← exchangeAmount pool.virtualValue newBalance paysBalance pool.takerFeePercent
  let poolPays : Asset := ⟨int64Cast (x.delta - x.poolTakerFee), op.minToReceive.assetId⟩
  let takerMarketFee ← calculateMarketFee op.minToReceive.assetId paysAsset poolPays false
  fcAssert (← takerMarketFee.le poolPays)
    "Market fee should not be greater than the amount to receive"
  let accountReceives ← poolPays.sub takerMarketFee
  fcAssert (op.minToReceive.amount ≤ accountReceives.amount) "Unable to exchange at expected price"
  return ⟨makerMarketFee, poolReceives, poolPays, takerMarketFee, accountReceives,
    ⟨int64Cast x.poolTakerFee, op.minToReceive.assetId⟩⟩

def doEvaluate (op : LiquidityPoolExchangeOperation) : Evaluation Exchange := do
  let pool ← liquidityPools.fetch op.pool
  require (0 < pool.balanceA ∧ 0 < pool.balanceB) "The pool has not been initialized"
  require ((op.amountToSell.assetId = pool.assetA ∧ op.minToReceive.assetId = pool.assetB) ∨
      (op.amountToSell.assetId = pool.assetB ∧ op.minToReceive.assetId = pool.assetA))
    "Asset type mismatch"
  let account ← accounts.fetch op.account
  let assetA ← assets.fetch pool.assetA
  require (isAuthorizedAsset account pool.assetA assetA) "The account is unauthorized by asset A"
  let assetB ← assets.fetch pool.assetB
  require (isAuthorizedAsset account pool.assetB assetB) "The account is unauthorized by asset B"
  if op.amountToSell.assetId = pool.assetA then
    op.amounts pool assetA assetB pool.balanceA pool.balanceB
  else
    op.amounts pool assetB assetA pool.balanceB pool.balanceA

/-- The changes that `liquidity_pool_exchange_evaluator::do_apply` makes; returns the virtual value
that the pool had before -/
def move (op : LiquidityPoolExchangeOperation) (x : Exchange) : Evaluation Nat := do
  let pool ← liquidityPools.fetch op.pool
  adjustBalance op.account op.amountToSell.neg
  adjustBalance op.account x.accountReceives
  let owner ← accounts.fetch (← assets.fetch pool.shareAsset).issuer
  payCalculatedMarketFees (some owner) op.amountToSell.assetId op.amountToSell x.makerMarketFee
  let account ← accounts.fetch op.account
  payCalculatedMarketFees (some account) op.minToReceive.assetId x.poolPays x.takerMarketFee
  liquidityPools.update op.pool fun p =>
    if op.amountToSell.assetId = pool.assetA then do
      let balanceA ← safe (p.balanceA + x.poolReceives.amount)
      let balanceB ← safe (p.balanceB - x.poolPays.amount)
      return updateVirtualValue { p with balanceA, balanceB }
    else do
      let balanceB ← safe (p.balanceB + x.poolReceives.amount)
      let balanceA ← safe (p.balanceA - x.poolPays.amount)
      return updateVirtualValue { p with balanceA, balanceB }
  return pool.virtualValue

def doApply (op : LiquidityPoolExchangeOperation) (x : Exchange) : Evaluation ExchangeResult := do
  let oldVirtualValue ← op.move x
  let pool ← liquidityPools.fetch op.pool
  require (0 < pool.balanceA ∧ 0 < pool.balanceB) "Internal error"
  require (oldVirtualValue ≤ pool.virtualValue) "Internal error"
  return { paid := [op.amountToSell]
           received := [x.accountReceives]
           fees := [x.makerMarketFee, x.takerMarketFee, x.poolTakerFee] }

end LiquidityPoolExchangeOperation

/-! ## Supply by hand -/

namespace AssetIssueOperation

def validate (op : AssetIssueOperation) : Except Exception Unit := do
  fcAssert (0 ≤ op.fee.amount) "fee.amount >= 0"
  fcAssert (op.assetToIssue.amount ≤ maxShareSupply)
    "asset_to_issue.amount.value <= GRAPHENE_MAX_SHARE_SUPPLY"
  fcAssert (0 < op.assetToIssue.amount) "asset_to_issue.amount.value > 0"
  fcAssert (op.assetToIssue.assetId ≠ core) "asset_to_issue.asset_id != asset_id_type(0)"

def doEvaluate (op : AssetIssueOperation) : Evaluation Unit := do
  let a ← assets.fetch op.assetToIssue.assetId
  require (op.issuer = a.issuer) "o.issuer == a.issuer"
  require (a.bitasset.isNone) "Cannot manually issue a market-issued asset."
  require (a.forLiquidityPool.isNone) "Cannot manually issue a liquidity pool share asset."
  let toAccount ← accounts.fetch op.issueToAccount
  require (isAuthorizedAsset toAccount op.assetToIssue.assetId a)
    "is_authorized_asset( d, *to_account, a )"
  require ((← safe (a.currentSupply + op.assetToIssue.amount)) ≤ a.options.maxSupply)
    "(asset_dyn_data->current_supply + o.asset_to_issue.amount) <= a.options.max_supply"

def doApply (op : AssetIssueOperation) : Evaluation ExchangeResult := do
  adjustBalance op.issueToAccount op.assetToIssue
  assets.update op.assetToIssue.assetId fun a =>
    return { a with currentSupply := ← safe (a.currentSupply + op.assetToIssue.amount) }
  return {}

end AssetIssueOperation

namespace AssetReserveOperation

def validate (op : AssetReserveOperation) : Except Exception Unit := do
  fcAssert (0 ≤ op.fee.amount) "fee.amount >= 0"
  fcAssert (op.amountToReserve.amount ≤ maxShareSupply)
    "amount_to_reserve.amount.value <= GRAPHENE_MAX_SHARE_SUPPLY"
  fcAssert (0 < op.amountToReserve.amount) "amount_to_reserve.amount.value > 0"

def doEvaluate (op : AssetReserveOperation) : Evaluation Unit := do
  let a ← assets.fetch op.amountToReserve.assetId
  require (a.bitasset.isNone) "Cannot reserve because it is a market-issued asset"
  let fromAccount ← accounts.fetch op.payer
  require (isAuthorizedAsset fromAccount op.amountToReserve.assetId a)
    "is_authorized_asset( d, *from_account, a )"
  if a.forLiquidityPool.isNone then
    require (op.amountToReserve.amount ≤ a.currentSupply)
      "Can not reserve an amount that is more than the current supply"
  else
    require (op.amountToReserve.amount < a.currentSupply)
      "The asset is a liquidity pool share asset thus can only reserve an amount that is less than the current supply"

def doApply (op : AssetReserveOperation) : Evaluation ExchangeResult := do
  adjustBalance op.payer op.amountToReserve.neg
  assets.update op.amountToReserve.assetId fun a =>
    return { a with currentSupply := ← safe (a.currentSupply - op.amountToReserve.amount) }
  return {}

end AssetReserveOperation

inductive Operation where
  | create (op : LiquidityPoolCreateOperation)
  | delete (op : LiquidityPoolDeleteOperation)
  | deposit (op : LiquidityPoolDepositOperation)
  | withdraw (op : LiquidityPoolWithdrawOperation)
  | exchange (op : LiquidityPoolExchangeOperation)
  | issue (op : AssetIssueOperation)
  | reserve (op : AssetReserveOperation)
  deriving DecidableEq

def evaluate (ctx : TransactionEvaluationState) (calculateFee : Operation → Int) (op : Operation) :
    Evaluation ExchangeResult := do
  let requiredFee := calculateFee op
  match op with
  | .create op =>
    op.validate
    startEvaluate ctx op.account op.fee requiredFee op.doEvaluate fun _ => op.doApply
  | .delete op =>
    op.validate
    startEvaluate ctx op.account op.fee requiredFee op.doEvaluate op.doApply
  | .deposit op =>
    op.validate
    startEvaluate ctx op.account op.fee requiredFee op.doEvaluate op.doApply
  | .withdraw op =>
    op.validate
    startEvaluate ctx op.account op.fee requiredFee op.doEvaluate op.doApply
  | .exchange op =>
    op.validate
    startEvaluate ctx op.account op.fee requiredFee op.doEvaluate op.doApply
  | .issue op =>
    op.validate
    startEvaluate ctx op.issuer op.fee requiredFee op.doEvaluate fun _ => op.doApply
  | .reserve op =>
    op.validate
    startEvaluate ctx op.payer op.fee requiredFee op.doEvaluate fun _ => op.doApply

end Meta1Core.Pools
