import Meta1Core.Allocation.Time
import Meta1Core.Ledger.Extended

/-!
# Withdrawal permissions (`withdraw_permission_evaluator.cpp`, `withdraw_permission.cpp`)

An account lets another one withdraw up to a limit in each of a number of periods.
-/

namespace Meta1Core.Permissions

open Allocation (u32)
open Lib (Index)
open Protocol Ledger

structure WithdrawPermission where
  withdrawFromAccount : AccountId
  authorizedAccount : AccountId
  withdrawalLimit : Asset
  withdrawalPeriodSec : Nat
  periodStartTime : Nat
  expiration : Nat
  claimedThisPeriod : Int := 0
  deriving DecidableEq

def WithdrawPermission.availableThisPeriod (p : WithdrawPermission) (currentTime : Nat) :
    Except Exception Asset :=
  if u32 (p.periodStartTime + p.withdrawalPeriodSec) ≤ currentTime then .ok p.withdrawalLimit
  else if p.claimedThisPeriod < p.withdrawalLimit.amount then do
    let rest ← safe (p.withdrawalLimit.amount - p.claimedThisPeriod)
    return ⟨rest, p.withdrawalLimit.assetId⟩
  else .ok ⟨0, p.withdrawalLimit.assetId⟩

structure Objects where
  blockInterval : Nat
  permissions : Index WithdrawPermission

abbrev State := Extended Objects
abbrev Evaluation := Extended.Evaluation Objects

open Extended

def fetchPermission (id : Nat) : Evaluation WithdrawPermission := do
  match (← get).objects.permissions.find id with
  | some p => return p
  | none => throw (.fc "Unable to find Object")

def writePermissions (f : Index WithdrawPermission → Index WithdrawPermission) :
    Evaluation Unit :=
  modify fun s =>
    { s with objects := { s.objects with permissions := f s.objects.permissions } }

structure CreateOperation where
  fee : Asset
  withdrawFromAccount : AccountId
  authorizedAccount : AccountId
  withdrawalLimit : Asset
  withdrawalPeriodSec : Nat
  periodsUntilExpiration : Nat
  periodStartTime : Nat
  deriving DecidableEq

namespace CreateOperation

def expiration (op : CreateOperation) : Nat :=
  u32 (op.periodStartTime + u32 (op.periodsUntilExpiration * op.withdrawalPeriodSec))

def validate (op : CreateOperation) : Except Exception Unit := do
  fcAssert (0 ≤ op.fee.amount) "fee.amount >= 0"
  fcAssert (op.withdrawFromAccount ≠ op.authorizedAccount)
    "withdraw_from_account != authorized_account"
  fcAssert (0 < op.withdrawalLimit.amount) "withdrawal_limit.amount > 0"
  fcAssert (0 < op.withdrawalPeriodSec) "withdrawal_period_sec > 0"
  fcAssert (0 < op.periodsUntilExpiration) "periods_until_expiration > 0"

def doEvaluate (op : CreateOperation) : Evaluation Unit := do
  let _ ← onLedger (accounts.fetch op.withdrawFromAccount)
  let _ ← onLedger (accounts.fetch op.authorizedAccount)
  let _ ← onLedger (assets.fetch op.withdrawalLimit.assetId)
  let now ← headBlockTime
  require (now < op.periodStartTime) "op.period_start_time > d.head_block_time()"
  require (now < op.expiration)
    "op.period_start_time + op.periods_until_expiration * op.withdrawal_period_sec > d.head_block_time()"
  require ((← get).objects.blockInterval ≤ op.withdrawalPeriodSec)
    "op.withdrawal_period_sec >= d.get_global_properties().parameters.block_interval"

def permission (op : CreateOperation) : WithdrawPermission where
  withdrawFromAccount := op.withdrawFromAccount
  authorizedAccount := op.authorizedAccount
  withdrawalLimit := op.withdrawalLimit
  withdrawalPeriodSec := op.withdrawalPeriodSec
  periodStartTime := op.periodStartTime
  expiration := op.expiration

def doApply (op : CreateOperation) : Evaluation Nat := do
  let id := (← get).objects.permissions.next
  writePermissions (·.create op.permission)
  return id

def evaluate (ctx : TransactionEvaluationState) (requiredFee : Int) (op : CreateOperation) :
    Evaluation Nat := do
  op.validate
  startEvaluate ctx op.withdrawFromAccount op.fee requiredFee op.doEvaluate fun _ => op.doApply

end CreateOperation

/-! ## `withdraw_permission_claim_operation` -/

structure ClaimOperation where
  fee : Asset
  withdrawPermission : Nat
  withdrawFromAccount : AccountId
  withdrawToAccount : AccountId
  amountToWithdraw : Asset
  deriving DecidableEq

namespace ClaimOperation

def validate (op : ClaimOperation) : Except Exception Unit := do
  fcAssert (op.withdrawToAccount ≠ op.withdrawFromAccount)
    "withdraw_to_account != withdraw_from_account"
  fcAssert (0 < op.amountToWithdraw.amount) "amount_to_withdraw.amount > 0"
  fcAssert (0 ≤ op.fee.amount) "fee.amount >= 0"

def checkAsset (op : ClaimOperation) (permit : WithdrawPermission) : Evaluation Unit := do
  require (op.amountToWithdraw.amount ≤ getBalance op.withdrawFromAccount
      op.amountToWithdraw.assetId (← get).ledger)
    "d.get_balance(op.withdraw_from_account, op.amount_to_withdraw.asset_id) >= op.amount_to_withdraw"
  let a ← onLedger (assets.fetch op.amountToWithdraw.assetId)
  require (a.options.flags.transferRestricted = false ∨
      a.issuer = permit.authorizedAccount ∨ a.issuer = permit.withdrawFromAccount)
    "Asset has transfer_restricted flag enabled"
  let toAccount ← onLedger (accounts.fetch permit.authorizedAccount)
  require (isAuthorizedAsset toAccount op.amountToWithdraw.assetId a)
    "Account is unauthorized to transact asset due to whitelist / blacklist"
  let fromAccount ← onLedger (accounts.fetch op.withdrawFromAccount)
  require (isAuthorizedAsset fromAccount op.amountToWithdraw.assetId a)
    "Account is unauthorized to withdraw asset due to whitelist / blacklist"

def doEvaluate (op : ClaimOperation) : Evaluation Unit := do
  let now ← headBlockTime
  let permit ← fetchPermission op.withdrawPermission
  require (now < permit.expiration) "permit.expiration > head_block_time"
  require (permit.authorizedAccount = op.withdrawToAccount)
    "permit.authorized_account == op.withdraw_to_account"
  require (permit.withdrawFromAccount = op.withdrawFromAccount)
    "permit.withdraw_from_account == op.withdraw_from_account"
  require (permit.periodStartTime ≤ now) "permit.period_start_time <= head_block_time"
  let available ← permit.availableThisPeriod now
  require (← op.amountToWithdraw.le available)
    "op.amount_to_withdraw <= permit.available_this_period( head_block_time )"
  op.checkAsset permit

/-- `claimed_this_period` after a claim, with the number of periods that ended since the last one -/
def claimedAfter (periods : Nat) (claimed amount : Int) : Except Exception Int :=
  if periods = 0 then safe (claimed + amount) else .ok amount

def claim (amount : Int) (now : Nat) (p : WithdrawPermission) :
    Except Exception WithdrawPermission := do
  let periods := (now - p.periodStartTime) / p.withdrawalPeriodSec
  let claimed ← claimedAfter periods p.claimedThisPeriod amount
  return { p with
    periodStartTime := u32 (p.periodStartTime + periods * p.withdrawalPeriodSec)
    claimedThisPeriod := claimed }

def doApply (op : ClaimOperation) : Evaluation Unit := do
  let permit ← fetchPermission op.withdrawPermission
  let permit ← claim op.amountToWithdraw.amount (← headBlockTime) permit
  writePermissions (·.modify op.withdrawPermission fun _ => permit)
  onLedger (adjustBalance op.withdrawFromAccount op.amountToWithdraw.neg)
  onLedger (adjustBalance op.withdrawToAccount op.amountToWithdraw)

def evaluate (ctx : TransactionEvaluationState) (requiredFee : Int) (op : ClaimOperation) :
    Evaluation Unit := do
  op.validate
  startEvaluate ctx op.withdrawToAccount op.fee requiredFee op.doEvaluate fun _ => op.doApply

end ClaimOperation

def updateWithdrawPermissions (now : Nat) (permissions : Index WithdrawPermission) :
    Index WithdrawPermission :=
  let expired := (permissions.rows.entries.filter fun e => e.2.expiration ≤ now).map (·.1)
  expired.foldl Index.remove permissions

inductive Event where
  | create (ctx : TransactionEvaluationState) (requiredFee : Int) (op : CreateOperation)
  | claim (ctx : TransactionEvaluationState) (requiredFee : Int) (op : ClaimOperation)
  | block (time : Nat)
  /-- Whatever else the chain does, to everything but the permissions -/
  | elsewhere (ledger : Ledger.State) (blockInterval : Nat)

inductive Record where
  | created (id : Nat) (op : CreateOperation)
  | claimed (id : Nat) (time : Nat) (amount : Int)
  deriving DecidableEq

structure Chain where
  state : State
  history : List Record := []

def step (c : Chain) : Event → Except Exception Chain
  | .create ctx requiredFee op => do
    let id := c.state.objects.permissions.next
    let s ← Lib.commit (op.evaluate ctx requiredFee) c.state
    return ⟨s, c.history ++ [.created id op]⟩
  | .claim ctx requiredFee op => do
    let s ← Lib.commit (op.evaluate ctx requiredFee) c.state
    return ⟨s, c.history ++
      [.claimed op.withdrawPermission c.state.ledger.headBlockTime op.amountToWithdraw.amount]⟩
  | .block time => do
    fcAssert (c.state.ledger.headBlockTime < time ∧ time < 2 ^ 32)
      "head_block_time() < next_block.timestamp"
    return { c with state :=
      { ledger := { c.state.ledger with headBlockTime := time }
        objects := { c.state.objects with
          permissions := updateWithdrawPermissions time c.state.objects.permissions } } }
  | .elsewhere ledger blockInterval => do
    fcAssert (ledger.headBlockTime = c.state.ledger.headBlockTime) "the time is that of the head"
    return { c with state := ⟨ledger, { c.state.objects with blockInterval }⟩ }

end Meta1Core.Permissions
