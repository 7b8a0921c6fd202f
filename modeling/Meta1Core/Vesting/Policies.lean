import Meta1Core.Ledger.Objects

/-!
# Vesting policies (`vesting_balance_object.cpp`)

The linear policy reconstructs what was withdrawn from the balance that is left; the one of coin
days counts seconds times amount, in 128 bits, and what is deposited as vested is multiplied in 64
bits before it is added.
-/

namespace Meta1Core.Vesting

open Protocol

structure VestingPolicyContext where
  balance : Asset
  now : Nat
  amount : Asset
  deriving DecidableEq

structure LinearVestingPolicy where
  beginTimestamp : Nat
  vestingCliffSeconds : Nat
  vestingDurationSeconds : Nat
  beginBalance : Int
  deriving DecidableEq

namespace LinearVestingPolicy

def totalVested (p : LinearVestingPolicy) (elapsedSeconds : Nat) : Int :=
  if elapsedSeconds < p.vestingDurationSeconds then
    int64Cast (uint128 (uint128 p.beginBalance * elapsedSeconds) / p.vestingDurationSeconds % 2 ^ 64)
  else p.beginBalance

def getAllowedWithdraw (p : LinearVestingPolicy) (ctx : VestingPolicyContext) :
    Except Exception Asset := do
  if ctx.now ≤ p.beginTimestamp then return ⟨0, ctx.balance.assetId⟩
  let elapsedSeconds := ctx.now - p.beginTimestamp
  if elapsedSeconds < p.vestingCliffSeconds then return ⟨0, ctx.balance.assetId⟩
  let totalVested := p.totalVested elapsedSeconds
  cAssert (0 ≤ totalVested) "total_vested >= 0"
  let withdrawnAlready ← safe (p.beginBalance - ctx.balance.amount)
  cAssert (0 ≤ withdrawnAlready) "withdrawn_already >= 0"
  let allowedWithdraw ← safe (totalVested - withdrawnAlready)
  cAssert (0 ≤ allowedWithdraw) "allowed_withdraw >= 0"
  return ⟨allowedWithdraw, ctx.balance.assetId⟩

def isWithdrawAllowed (p : LinearVestingPolicy) (ctx : VestingPolicyContext) :
    Except Exception Bool := do
  if ctx.amount.assetId ≠ ctx.balance.assetId then return false
  ctx.amount.le (← p.getAllowedWithdraw ctx)

end LinearVestingPolicy

/-! ## `cdd_vesting_policy` -/

structure CddVestingPolicy where
  vestingSeconds : Nat := 0
  coinSecondsEarned : Nat := 0
  startClaim : Nat := 0
  coinSecondsEarnedLastUpdate : Nat := 0
  deriving DecidableEq

namespace CddVestingPolicy

def divisor (p : CddVestingPolicy) : Nat := max p.vestingSeconds 1

def computeCoinSecondsEarned (p : CddVestingPolicy) (ctx : VestingPolicyContext) :
    Except Exception Nat := do
  cAssert (p.coinSecondsEarnedLastUpdate ≤ ctx.now) "ctx.now >= coin_seconds_earned_last_update"
  let deltaSeconds := ctx.now - p.coinSecondsEarnedLastUpdate
  let deltaCoinSeconds := uint128 (uint128 ctx.balance.amount * deltaSeconds)
  let coinSecondsEarnedCap := uint128 (uint128 ctx.balance.amount * p.divisor)
  return min (uint128 (p.coinSecondsEarned + deltaCoinSeconds)) coinSecondsEarnedCap

def updateCoinSecondsEarned (p : CddVestingPolicy) (ctx : VestingPolicyContext) :
    Except Exception CddVestingPolicy := do
  let coinSecondsEarned ← p.computeCoinSecondsEarned ctx
  return { p with coinSecondsEarned, coinSecondsEarnedLastUpdate := ctx.now }

def getAllowedWithdraw (p : CddVestingPolicy) (ctx : VestingPolicyContext) :
    Except Exception Asset := do
  if ctx.now ≤ p.startClaim then return ⟨0, ctx.balance.assetId⟩
  let csEarned ← p.computeCoinSecondsEarned ctx
  let withdrawAvailable := csEarned / p.divisor
  cAssert (withdrawAvailable ≤ uint128 ctx.balance.amount)
    "withdraw_available <= ctx.balance.amount.value"
  return ⟨int64Cast (withdrawAvailable % 2 ^ 64), ctx.balance.assetId⟩

def onDeposit (p : CddVestingPolicy) (ctx : VestingPolicyContext) :
    Except Exception CddVestingPolicy :=
  p.updateCoinSecondsEarned ctx

/-- A product of an `int64_t` and a `uint32_t`, which is an `int64_t` -/
def product64 (amount : Int) (seconds : Nat) : Except Exception Int :=
  if -(2 ^ 63) ≤ amount * seconds ∧ amount * seconds < 2 ^ 63 then .ok (amount * seconds)
  else .error .undefined

def onDepositVested (p : CddVestingPolicy) (ctx : VestingPolicyContext) :
    Except Exception CddVestingPolicy := do
  let p ← p.onDeposit ctx
  let product ← product64 ctx.amount.amount p.divisor
  return { p with coinSecondsEarned := uint128 (p.coinSecondsEarned + product) }

def onWithdraw (p : CddVestingPolicy) (ctx : VestingPolicyContext) :
    Except Exception CddVestingPolicy := do
  let p ← p.updateCoinSecondsEarned ctx
  let coinSecondsNeeded := uint128 (uint128 ctx.amount.amount * p.divisor)
  cAssert (coinSecondsNeeded ≤ p.coinSecondsEarned) "coin_seconds_needed <= coin_seconds_earned"
  return { p with coinSecondsEarned := p.coinSecondsEarned - coinSecondsNeeded }

def isWithdrawAllowed (p : CddVestingPolicy) (ctx : VestingPolicyContext) :
    Except Exception Bool := do
  ctx.amount.le (← p.getAllowedWithdraw ctx)

end CddVestingPolicy

inductive VestingPolicy where
  | linear (policy : LinearVestingPolicy)
  | cdd (policy : CddVestingPolicy)
  | instant
  deriving DecidableEq

namespace VestingPolicy

def getAllowedWithdraw (ctx : VestingPolicyContext) : VestingPolicy → Except Exception Asset
  | .linear p => p.getAllowedWithdraw ctx
  | .cdd p => p.getAllowedWithdraw ctx
  | .instant => .ok ctx.balance

def isWithdrawAllowed (ctx : VestingPolicyContext) : VestingPolicy → Except Exception Bool
  | .linear p => p.isWithdrawAllowed ctx
  | .cdd p => p.isWithdrawAllowed ctx
  | .instant => if ctx.amount.assetId ≠ ctx.balance.assetId then .ok false
      else ctx.amount.le ctx.balance

def onDeposit (ctx : VestingPolicyContext) : VestingPolicy → Except Exception VestingPolicy
  | .linear p => .ok (.linear p)
  | .cdd p => do return .cdd (← p.onDeposit ctx)
  | .instant => .ok .instant

def onDepositVested (ctx : VestingPolicyContext) : VestingPolicy → Except Exception VestingPolicy
  | .linear _ => .error (.fc "May not deposit vested into a linear vesting balance.")
  | .cdd p => do return .cdd (← p.onDepositVested ctx)
  | .instant => .ok .instant

def onWithdraw (ctx : VestingPolicyContext) : VestingPolicy → Except Exception VestingPolicy
  | .linear p => .ok (.linear p)
  | .cdd p => do return .cdd (← p.onWithdraw ctx)
  | .instant => .ok .instant

end VestingPolicy

/-! ## `vesting_balance_object` -/

inductive VestingBalanceType where
  | unspecified
  | cashback
  | worker
  | witness
  | marketFeeSharing
  deriving DecidableEq

structure VestingBalanceObject where
  owner : AccountId
  balance : Asset
  policy : VestingPolicy
  balanceType : VestingBalanceType := .unspecified
  deriving DecidableEq

namespace VestingBalanceObject

def getAllowedWithdraw (vbo : VestingBalanceObject) (now : Nat) : Except Exception Asset :=
  vbo.policy.getAllowedWithdraw ⟨vbo.balance, now, ⟨0, core⟩⟩

def isWithdrawAllowed (vbo : VestingBalanceObject) (now : Nat) (amount : Asset) :
    Except Exception Bool := do
  let result ← vbo.policy.isWithdrawAllowed ⟨vbo.balance, now, amount⟩
  let covered ← amount.le vbo.balance
  cAssert (covered = true ∨ result = false) "(amount <= balance) || (!result)"
  return result

def deposit (vbo : VestingBalanceObject) (now : Nat) (amount : Asset) :
    Except Exception VestingBalanceObject := do
  let policy ← vbo.policy.onDeposit ⟨vbo.balance, now, amount⟩
  let balance ← vbo.balance.add amount
  return { vbo with policy, balance }

def depositVested (vbo : VestingBalanceObject) (now : Nat) (amount : Asset) :
    Except Exception VestingBalanceObject := do
  let policy ← vbo.policy.onDepositVested ⟨vbo.balance, now, amount⟩
  let balance ← vbo.balance.add amount
  return { vbo with policy, balance }

def withdraw (vbo : VestingBalanceObject) (now : Nat) (amount : Asset) :
    Except Exception VestingBalanceObject := do
  let covered ← amount.le vbo.balance
  cAssert (covered = true) "amount <= balance"
  let policy ← vbo.policy.onWithdraw ⟨vbo.balance, now, amount⟩
  let balance ← vbo.balance.sub amount
  return { vbo with policy, balance }

end VestingBalanceObject

end Meta1Core.Vesting
