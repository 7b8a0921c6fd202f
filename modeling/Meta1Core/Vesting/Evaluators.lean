import Meta1Core.Allocation.Time
import Meta1Core.Ledger.Extended
import Meta1Core.Vesting.Policies

/-!
# Vesting balances (`vesting_balance_evaluator.cpp`, `balance_evaluator.cpp`, `db_balance.cpp`)

Vesting balances are created by an operation, for a worker, and with the first cashback, witness pay
or market fee.  Balances of the genesis state are claimed, and removed as soon as they are empty.
-/

namespace Meta1Core.Vesting

open Allocation (u32)
open Lib (Index Rows)
open Protocol Ledger

structure BalanceObject where
  owner : Address
  balance : Asset
  vestingPolicy : Option LinearVestingPolicy
  lastClaimDate : Nat := 0
  deriving DecidableEq

/-- The objects that vest, the references to them, and the `chain_parameters` for new ones.  A worker
is known by its vesting balance. -/
structure Objects where
  cashbackVestingPeriodSeconds : Nat
  witnessPayVestingSeconds : Nat
  vestingBalances : Index VestingBalanceObject := ∅
  balances : Index BalanceObject := ∅
  cashbackVb : Rows AccountId Nat := ∅
  payVb : Rows Nat Nat := ∅
  workers : Index Nat := ∅

abbrev State := Extended Objects
abbrev Evaluation := Extended.Evaluation Objects

open Extended

def fetch {V : Type} (read : Objects → Index V) (id : Nat) : Evaluation V := do
  match (read (← get).objects).find id with
  | some v => return v
  | none => throw (.fc "Unable to find Object")

def Objects.setVestingBalances (x : Objects) (t : Index VestingBalanceObject) : Objects :=
  { x with vestingBalances := t }

def Objects.setBalances (x : Objects) (t : Index BalanceObject) : Objects := { x with balances := t }

def write (f : Objects → Objects) : Evaluation Unit :=
  modify fun s => { s with objects := f s.objects }

def createVestingBalance (vbo : VestingBalanceObject) : Evaluation Nat := do
  let id := (← get).objects.vestingBalances.next
  write fun x => x.setVestingBalances (x.vestingBalances.create vbo)
  return id

def storeVestingBalance (id : Nat) (vbo : VestingBalanceObject) : Evaluation Unit :=
  write fun x => x.setVestingBalances (x.vestingBalances.modify id fun _ => vbo)

/-! ## `vesting_balance_create_operation` -/

inductive VestingPolicyInitializer where
  | linear (beginTimestamp vestingCliffSeconds vestingDurationSeconds : Nat)
  | cdd (startClaim vestingSeconds : Nat)
  | instant
  deriving DecidableEq

def VestingPolicyInitializer.init (initBalance : Int) (now : Nat) :
    VestingPolicyInitializer → VestingPolicy
  | .linear beginTimestamp vestingCliffSeconds vestingDurationSeconds =>
    .linear ⟨beginTimestamp, vestingCliffSeconds, vestingDurationSeconds, initBalance⟩
  | .cdd startClaim vestingSeconds =>
    .cdd { vestingSeconds, startClaim, coinSecondsEarnedLastUpdate := now }
  | .instant => .instant

structure CreateOperation where
  fee : Asset
  creator : AccountId
  owner : AccountId
  amount : Asset
  policy : VestingPolicyInitializer
  deriving DecidableEq

namespace CreateOperation

def validate (op : CreateOperation) : Except Exception Unit := do
  fcAssert (0 ≤ op.fee.amount) "fee.amount >= 0"
  fcAssert (0 < op.amount.amount) "amount.amount > 0"

def doEvaluate (op : CreateOperation) : Evaluation Unit := do
  let _ ← onLedger (accounts.fetch op.creator)
  let _ ← onLedger (accounts.fetch op.owner)
  require (0 < op.amount.amount) "op.amount.amount > 0"
  require (op.amount.amount ≤ getBalance op.creator op.amount.assetId (← get).ledger)
    "d.get_balance( creator_account.id, op.amount.asset_id ) >= op.amount"
  let a ← onLedger (assets.fetch op.amount.assetId)
  require (a.options.flags.transferRestricted = false)
    "!op.amount.asset_id(d).is_transfer_restricted()"

def doApply (op : CreateOperation) : Evaluation Nat := do
  let now ← headBlockTime
  require (op.amount.amount ≤ getBalance op.creator op.amount.assetId (← get).ledger)
    "d.get_balance( op.creator, op.amount.asset_id ) >= op.amount"
  onLedger (adjustBalance op.creator op.amount.neg)
  createVestingBalance ⟨op.owner, op.amount, op.policy.init op.amount.amount now, .unspecified⟩

def evaluate (ctx : TransactionEvaluationState) (requiredFee : Int) (op : CreateOperation) :
    Evaluation Nat := do
  op.validate
  startEvaluate ctx op.creator op.fee requiredFee op.doEvaluate fun _ => op.doApply

end CreateOperation

structure WithdrawOperation where
  fee : Asset
  vestingBalance : Nat
  owner : AccountId
  amount : Asset
  deriving DecidableEq

namespace WithdrawOperation

def validate (op : WithdrawOperation) : Except Exception Unit := do
  fcAssert (0 ≤ op.fee.amount) "fee.amount >= 0"
  fcAssert (0 < op.amount.amount) "amount.amount > 0"
  fcAssert (op.owner ≠ tempAccount) "owner != GRAPHENE_TEMP_ACCOUNT"

def doEvaluate (op : WithdrawOperation) : Evaluation Unit := do
  let now ← headBlockTime
  let vbo ← fetch Objects.vestingBalances op.vestingBalance
  require (op.owner = vbo.owner) "op.owner == vbo.owner"
  let allowed ← vbo.isWithdrawAllowed now op.amount
  require (allowed = true) "vbo.is_withdraw_allowed( now, op.amount )"
  let covered ← op.amount.le vbo.balance
  let _ ← cAssert (covered = true) "op.amount <= vbo.balance"
  let _ ← onLedger (accounts.fetch op.owner)

def doApply (op : WithdrawOperation) : Evaluation Unit := do
  let now ← headBlockTime
  let vbo ← fetch Objects.vestingBalances op.vestingBalance
  let vbo ← vbo.withdraw now op.amount
  storeVestingBalance op.vestingBalance vbo
  onLedger (adjustBalance op.owner op.amount)

def evaluate (ctx : TransactionEvaluationState) (requiredFee : Int) (op : WithdrawOperation) :
    Evaluation Unit := do
  op.validate
  startEvaluate ctx op.owner op.fee requiredFee op.doEvaluate fun _ => op.doApply

end WithdrawOperation

/-! ## `balance_claim_operation` -/

structure BalanceClaimOperation where
  fee : Asset
  depositToAccount : AccountId
  balanceToClaim : Nat
  balanceOwnerKey : PublicKey
  totalClaimed : Asset
  deriving DecidableEq

/-- Whether a key, or one of the addresses that are derived from it, is the owner of a balance -/
abbrev KeyOwns := PublicKey → Address → Bool

def nullKey : PublicKey := 0

def day : Nat := 86400

namespace BalanceClaimOperation

def validate (op : BalanceClaimOperation) : Except Exception Unit := do
  fcAssert (op.fee = ⟨0, core⟩) "fee == asset()"
  fcAssert (op.balanceOwnerKey ≠ nullKey) "balance_owner_key != public_key_type()"

/-- The checks of `do_evaluate` on the amount.  A difference of times may be negative. -/
def checkAmount (op : BalanceClaimOperation) (now : Nat) (balance : BalanceObject) :
    Except Exception Unit := do
  fcAssert (op.totalClaimed.assetId = balance.balance.assetId)
    "op.total_claimed.asset_id == balance->asset_type()"
  match balance.vestingPolicy with
  | some policy =>
    let allowed ← policy.isWithdrawAllowed ⟨balance.balance, now, op.totalClaimed⟩
    fcAssert (allowed = true) "Attempted to claim from a vesting balance"
    fcAssert ((day : Int) ≤ now - balance.lastClaimDate)
      "Genesis vesting balances may not be claimed more than once per day."
  | none => fcAssert (op.totalClaimed = balance.balance) "op.total_claimed == balance->balance"

def doEvaluate (keyOwns : KeyOwns) (op : BalanceClaimOperation) : Evaluation BalanceObject := do
  let balance ← fetch Objects.balances op.balanceToClaim
  require (keyOwns op.balanceOwnerKey balance.owner = true)
    "Balance owner key was specified but balance's actual owner is another one"
  let now ← headBlockTime
  let _ ← op.checkAmount now balance
  return balance

/-- Whether something of the balance is left: `is_vesting_balance() && total_claimed < balance` -/
def leavesRest (op : BalanceClaimOperation) (balance : BalanceObject) : Except Exception Bool :=
  if balance.vestingPolicy = none then .ok false else op.totalClaimed.lt balance.balance

/-- `balance_claim_evaluator::do_apply`; `on_withdraw` of a linear policy does nothing. -/
def doApply (op : BalanceClaimOperation) (balance : BalanceObject) : Evaluation Unit := do
  let now ← headBlockTime
  let rest ← op.leavesRest balance
  if rest then
    let amount ← balance.balance.sub op.totalClaimed
    write fun x => x.setBalances (x.balances.modify op.balanceToClaim fun _ =>
      { balance with balance := amount, lastClaimDate := now })
  else write fun x => x.setBalances (x.balances.remove op.balanceToClaim)
  onLedger (adjustBalance op.depositToAccount op.totalClaimed)

def evaluate (keyOwns : KeyOwns) (ctx : TransactionEvaluationState) (op : BalanceClaimOperation) :
    Evaluation Unit := do
  op.validate
  startEvaluate ctx op.depositToAccount op.fee 0 (op.doEvaluate keyOwns) op.doApply

end BalanceClaimOperation

/-! ## Deposits of the chain -/

/-- The balance that `deposit_lazy_vesting` adds to, unless one of its checks breaks the loop -/
def lazyTarget (t : Index VestingBalanceObject) (ovbid : Option Nat) (reqVestingSeconds : Nat)
    (reqOwner : AccountId) : Except Exception (Option (Nat × VestingBalanceObject)) :=
  match ovbid with
  | none => .ok none
  | some id =>
    match t.find id with
    | none => .error (.fc "Unable to find Object")
    | some vbo =>
      match vbo.policy with
      | .cdd policy =>
        if vbo.owner = reqOwner ∧ policy.vestingSeconds = reqVestingSeconds then
          .ok (some (id, vbo))
        else .ok none
      | _ => .ok none

def depositInto (requireVesting : Bool) (vbo : VestingBalanceObject) (now : Nat) (amount : Asset) :
    Except Exception VestingBalanceObject :=
  if requireVesting then vbo.deposit now amount else vbo.depositVested now amount

def initialCoinSeconds (requireVesting : Bool) (amount : Int) (vestingSeconds : Nat) :
    Except Exception Nat := do
  if requireVesting then return 0
  return uint128 (← CddVestingPolicy.product64 amount vestingSeconds)

def depositLazyVesting (ovbid : Option Nat) (amount : Int) (reqVestingSeconds : Nat)
    (balanceType : VestingBalanceType) (reqOwner : AccountId) (requireVesting : Bool) :
    Evaluation (Option Nat) := do
  if amount = 0 then return none
  let now ← headBlockTime
  match ← lazyTarget (← get).objects.vestingBalances ovbid reqVestingSeconds reqOwner with
  | some (id, vbo) =>
    let vbo ← depositInto requireVesting vbo now ⟨amount, core⟩
    storeVestingBalance id vbo
    return none
  | none =>
    let coinSecondsEarned ← initialCoinSeconds requireVesting amount reqVestingSeconds
    let policy : CddVestingPolicy :=
      { vestingSeconds := reqVestingSeconds, coinSecondsEarned, coinSecondsEarnedLastUpdate := now }
    return some (← createVestingBalance ⟨reqOwner, ⟨amount, core⟩, .cdd policy, balanceType⟩)

/-- The accounts of the chain itself, which get no cashback -/
def blockchainAccounts : List AccountId := [committeeAccount, 1, 2, 3, tempAccount]

def depositCashback (acct : AccountId) (amount : Int) (requireVesting : Bool) :
    Evaluation Unit := do
  if amount = 0 then return
  if acct ∈ blockchainAccounts then
    onLedger (assets.update core fun a =>
      return { a with currentSupply := ← safe (a.currentSupply - amount) })
  else
    let x := (← get).objects
    let newVbid ← depositLazyVesting (x.cashbackVb.lookup acct) amount
      x.cashbackVestingPeriodSeconds .cashback acct requireVesting
    match newVbid with
    | some id => write fun x => { x with cashbackVb := x.cashbackVb.insert acct id }
    | none => return

def depositWitnessPay (wit : Nat) (witnessAccount : AccountId) (amount : Int) :
    Evaluation Unit := do
  if amount = 0 then return
  let x := (← get).objects
  let newVbid ← depositLazyVesting (x.payVb.lookup wit) amount x.witnessPayVestingSeconds .witness
    witnessAccount true
  match newVbid with
  | some id => write fun x => { x with payVb := x.payVb.insert wit id }
  | none => return

def initWorker (workerAccount : AccountId) (payVestingPeriodDays : Nat) : Evaluation Unit := do
  let now ← headBlockTime
  let policy : CddVestingPolicy :=
    { vestingSeconds := u32 (payVestingPeriodDays * day), coinSecondsEarnedLastUpdate := now }
  let id ← createVestingBalance ⟨workerAccount, ⟨0, core⟩, .cdd policy, .worker⟩
  write fun x => { x with workers := x.workers.create id }

def payWorker (worker : Nat) (pay : Int) : Evaluation Unit := do
  let now ← headBlockTime
  let id ← fetch Objects.workers worker
  let vbo ← fetch Objects.vestingBalances id
  let vbo ← vbo.deposit now ⟨pay, core⟩
  storeVestingBalance id vbo

def depositMarketFee (account : AccountId) (delta : Asset) : Evaluation Unit := do
  require (0 ≤ delta.amount) "Invalid negative value for balance"
  if delta.amount = 0 then return
  let now ← headBlockTime
  let found := (← get).objects.vestingBalances.findId fun vbo =>
    vbo.balanceType = .marketFeeSharing ∧ vbo.owner = account ∧ vbo.balance.assetId = delta.assetId
  match found with
  | none =>
    let _ ← createVestingBalance ⟨account, delta, .instant, .marketFeeSharing⟩
  | some id =>
    let vbo ← fetch Objects.vestingBalances id
    let vbo ← vbo.depositVested now delta
    storeVestingBalance id vbo

inductive Event where
  | create (ctx : TransactionEvaluationState) (requiredFee : Int) (op : CreateOperation)
  | withdraw (ctx : TransactionEvaluationState) (requiredFee : Int) (op : WithdrawOperation)
  | claim (ctx : TransactionEvaluationState) (op : BalanceClaimOperation)
  | cashback (acct : AccountId) (amount : Int) (requireVesting : Bool)
  | witnessPay (wit : Nat) (witnessAccount : AccountId) (amount : Int)
  | worker (workerAccount : AccountId) (payVestingPeriodDays : Nat)
  | workerPay (worker : Nat) (pay : Int)
  | marketFee (account : AccountId) (delta : Asset)
  | block (time : Nat)
  | elsewhere (ledger : Ledger.State) (cashbackSeconds witnessPaySeconds : Nat)

inductive Source where
  | vestingBalance (id : Nat)
  | genesisBalance (id : Nat)
  deriving DecidableEq

structure Withdrawal where
  source : Source
  time : Nat
  amount : Int
  deriving DecidableEq

/-- The chain with what has been withdrawn so far, the latest last -/
structure Chain where
  state : State
  history : List Withdrawal := []

def evaluateOther : Event → Evaluation Unit
  | .create ctx requiredFee op => do
    let _ ← op.evaluate ctx requiredFee
  | .cashback acct amount requireVesting => depositCashback acct amount requireVesting
  | .witnessPay wit witnessAccount amount => depositWitnessPay wit witnessAccount amount
  | .worker workerAccount days => initWorker workerAccount days
  | .workerPay worker pay => payWorker worker pay
  | .marketFee account delta => depositMarketFee account delta
  | .block time => do
    require ((← get).ledger.headBlockTime < time ∧ time < 2 ^ 32)
      "head_block_time() < next_block.timestamp"
    modify fun s => { s with ledger := { s.ledger with headBlockTime := time } }
  | .elsewhere ledger cashbackSeconds witnessPaySeconds => do
    require (ledger.headBlockTime = (← get).ledger.headBlockTime) "the time is that of the head"
    modify fun s => ⟨ledger, { s.objects with
      cashbackVestingPeriodSeconds := cashbackSeconds
      witnessPayVestingSeconds := witnessPaySeconds }⟩
  | .withdraw .. => return
  | .claim .. => return

/-- One operation, or one of the things that the chain does by itself -/
def step (keyOwns : KeyOwns) (c : Chain) : Event → Except Exception Chain
  | .withdraw ctx requiredFee op => do
    let s ← Lib.commit (op.evaluate ctx requiredFee) c.state
    return ⟨s, c.history ++ [⟨.vestingBalance op.vestingBalance, c.state.ledger.headBlockTime,
      op.amount.amount⟩]⟩
  | .claim ctx op => do
    let s ← Lib.commit (op.evaluate keyOwns ctx) c.state
    return ⟨s, c.history ++ [⟨.genesisBalance op.balanceToClaim, c.state.ledger.headBlockTime,
      op.totalClaimed.amount⟩]⟩
  | e => do
    let s ← Lib.commit (evaluateOther e) c.state
    return { c with state := s }

end Meta1Core.Vesting
