import Mathlib.Data.List.Sort
import Meta1Core.Vesting.Deposits

/-!
# The budget (`db_maint.cpp`, `worker_evaluator.cpp`)

At the end of a maintenance interval a part of the reserve becomes the budget of the next one: first
the pay of the witnesses, then that of the workers, in the order of their votes.
-/

namespace Meta1Core.Budget

open Lib (Index)
open Protocol
open Vesting (VestingBalanceObject IsShare)

def coreAssetCycleRate : Nat := 17

def coreAssetCycleRateBits : Nat := 32

def dayCount : Nat := 86400000000

inductive WorkerType where
  | refund (totalBurned : Int)
  | vestingBalance (balance : Nat)
  | burn (totalBurned : Int)
  deriving DecidableEq

structure WorkerObject where
  workBeginDate : Nat
  workEndDate : Nat
  dailyPay : Int
  worker : WorkerType
  totalVotesFor : Nat := 0
  totalVotesAgainst : Nat := 0
  deriving DecidableEq

namespace WorkerObject

def isActive (w : WorkerObject) (now : Nat) : Bool := w.workBeginDate ≤ now ∧ now ≤ w.workEndDate

def approvingStake (w : WorkerObject) : Int :=
  int64Cast w.totalVotesFor - int64Cast w.totalVotesAgainst

end WorkerObject

structure ChainParameters where
  blockInterval : Nat := 5
  maintenanceInterval : Nat := 86400
  witnessPayPerBlock : Int := 2534
  workerBudgetPerDay : Int := 500000000000000
  deriving DecidableEq

/-- `chain_parameters::validate`, as far as it is about these, and the types of the fields -/
structure ChainParameters.Validated (p : ChainParameters) : Prop where
  blockInterval : 1 ≤ p.blockInterval ∧ p.blockInterval ≤ 30
  maintenanceInterval : p.blockInterval < p.maintenanceInterval ∧
    p.maintenanceInterval % p.blockInterval = 0 ∧ p.maintenanceInterval < 2 ^ 32
  witnessPayPerBlock : IsShare p.witnessPayPerBlock
  workerBudgetPerDay : IsShare p.workerBudgetPerDay

instance (p : ChainParameters) : Decidable p.Validated :=
  decidable_of_iff ((1 ≤ p.blockInterval ∧ p.blockInterval ≤ 30) ∧
    (p.blockInterval < p.maintenanceInterval ∧ p.maintenanceInterval % p.blockInterval = 0 ∧
      p.maintenanceInterval < 2 ^ 32) ∧ IsShare p.witnessPayPerBlock ∧ IsShare p.workerBudgetPerDay)
    ⟨fun h => ⟨h.1, h.2.1, h.2.2.1, h.2.2.2⟩,
      fun h => ⟨h.blockInterval, h.maintenanceInterval, h.witnessPayPerBlock, h.workerBudgetPerDay⟩⟩

structure BudgetRecord where
  timeSinceLastBudget : Nat := 0
  fromInitialReserve : Int := 0
  fromAccumulatedFees : Int := 0
  fromUnusedWitnessBudget : Int := 0
  requestedWitnessBudget : Int := 0
  totalBudget : Int := 0
  witnessBudget : Int := 0
  workerBudget : Int := 0
  leftoverWorkerFunds : Int := 0
  supplyDelta : Int := 0
  deriving DecidableEq

/-- `maxSupply`, `currentSupply` and `accumulatedFees` are those of the core asset, `nullBalance` is
what the null account has of it. -/
structure State where
  headBlockTime : Nat
  nextMaintenanceTime : Nat
  lastBudgetTime : Nat := 0
  witnessBudget : Int := 0
  maxSupply : Int
  currentSupply : Int
  accumulatedFees : Int := 0
  nullBalance : Int := 0
  parameters : ChainParameters := {}
  workers : Index WorkerObject := ∅
  vestingBalances : Index VestingBalanceObject := ∅
  lifetimeMembers : List AccountId := []
  budgetRecords : List (Nat × BudgetRecord) := []

/-- `refund_worker_type::pay_worker`, `vesting_balance_worker_type::pay_worker` and
`burn_worker_type::pay_worker` -/
def WorkerType.payWorker (pay : Int) (s : State) : WorkerType → Except Exception (WorkerType × State)
  | .refund totalBurned => do
    let totalBurned ← safe (totalBurned + pay)
    let currentSupply ← safe (s.currentSupply - pay)
    return (.refund totalBurned, { s with currentSupply })
  | .vestingBalance balance =>
    match s.vestingBalances.find balance with
    | none => .error (.fc "Unable to find Object")
    | some b => do
      let b ← b.deposit s.headBlockTime ⟨pay, core⟩
      return (.vestingBalance balance,
        { s with vestingBalances := s.vestingBalances.modify balance fun _ => b })
  | .burn totalBurned => do
    let totalBurned ← safe (totalBurned + pay)
    -- `adjust_balance` of the null account
    fcAssert (pay < 0 → -pay ≤ s.nullBalance) "Insufficient Balance"
    let nullBalance ← safe (s.nullBalance + pay)
    return (.burn totalBurned, { s with nullBalance })

namespace State

def allWorkers (s : State) : List (Nat × WorkerObject) :=
  (List.range s.workers.next).filterMap fun id => (s.workers.find id).map fun w => (id, w)

def preferred (wa wb : Nat × WorkerObject) : Bool :=
  if wa.2.approvingStake ≠ wb.2.approvingStake then wb.2.approvingStake < wa.2.approvingStake
  else wa.1 < wb.1

def activeWorkers (s : State) : List (Nat × WorkerObject) :=
  (s.allWorkers.filter fun w => w.2.isActive s.headBlockTime ∧ 0 < w.2.approvingStake).insertionSort
    fun wa wb => preferred wb wa = false

/-- `passed_time_count` in `pay_workers`, in microseconds -/
def passedTimeCount (s : State) : Int :=
  ((s.headBlockTime : Int) - s.lastBudgetTime) * 1000000

def requestedPay (s : State) (w : WorkerObject) : Int :=
  int64Cast (uint128 (uint128 w.dailyPay * s.passedTimeCount) / dayCount % 2 ^ 64)

end State

def payActiveWorkers (requestedPay : WorkerObject → Int) :
    List (Nat × WorkerObject) → Int → State → Except Exception (Int × State)
  | [], budget, s => .ok (budget, s)
  | (id, activeWorker) :: rest, budget, s =>
    if budget ≤ 0 then .ok (budget, s)
    else do
      let actualPay := min budget (requestedPay activeWorker)
      let (worker, s) ← activeWorker.worker.payWorker actualPay s
      let s := { s with workers := s.workers.modify id fun w => { w with worker } }
      let budget ← safe (budget - actualPay)
      payActiveWorkers requestedPay rest budget s

def payWorkers (budget : Int) (s : State) : Except Exception (Int × State) :=
  payActiveWorkers s.requestedPay s.activeWorkers budget s

def initializeBudgetRecord (s : State) : Except Exception BudgetRecord := do
  let fromInitialReserve ← safe (s.maxSupply - s.currentSupply)
  let rec0 : BudgetRecord :=
    { fromInitialReserve
      fromAccumulatedFees := s.accumulatedFees
      fromUnusedWitnessBudget := s.witnessBudget }
  if s.lastBudgetTime = 0 ∨ s.headBlockTime ≤ s.lastBudgetTime then return rec0
  let dt := s.headBlockTime - s.lastBudgetTime
  let reserve ← safe (fromInitialReserve + s.accumulatedFees)
  let reserve ← safe (reserve + s.witnessBudget)
  let budget := uint128 (uint128 (uint128 (uint128 reserve * dt) * coreAssetCycleRate) +
    (2 ^ coreAssetCycleRateBits - 1)) / 2 ^ coreAssetCycleRateBits
  return { rec0 with
    timeSinceLastBudget := dt
    totalBudget := if budget < uint128 reserve then int64Cast (budget % 2 ^ 64) else reserve }

/-- `witness_pay_per_block.value * blocks_to_maint`, a product of an `int64_t` and a `uint64_t` -/
def requestedWitnessBudget (witnessPayPerBlock : Int) (blocksToMaint : Nat) : Int :=
  int64Cast ((witnessPayPerBlock * blocksToMaint) % 2 ^ 64).toNat

def State.blocksToMaint (s : State) : Nat :=
  (s.nextMaintenanceTime - s.headBlockTime + s.parameters.blockInterval - 1) /
    s.parameters.blockInterval

/-- `process_budget`.  The assertion about `supply_delta` holds by what it is. -/
def processBudget (s : State) : Except Exception State := do
  cAssert (s.headBlockTime < s.nextMaintenanceTime) "time_to_maint > 0"
  let timeToMaint := s.nextMaintenanceTime - s.headBlockTime
  cAssert (0 < s.parameters.blockInterval) "gpo.parameters.block_interval > 0"
  let rec0 ← initializeBudgetRecord s
  let requested := requestedWitnessBudget s.parameters.witnessPayPerBlock s.blocksToMaint
  let witnessBudget := min requested rec0.totalBudget
  let availableFunds ← safe (rec0.totalBudget - witnessBudget)
  let workerBudget128 :=
    uint128 (uint128 s.parameters.workerBudgetPerDay * timeToMaint) / 86400
  let workerBudget :=
    if uint128 availableFunds ≤ workerBudget128 then availableFunds
    else int64Cast (workerBudget128 % 2 ^ 64)
  let availableFunds ← safe (availableFunds - workerBudget)
  let (leftoverWorkerFunds, s') ← payWorkers workerBudget s
  let _ ← safe (availableFunds + leftoverWorkerFunds)
  let delta ← safe (witnessBudget + workerBudget)
  let delta ← safe (delta - leftoverWorkerFunds)
  let delta ← safe (delta - rec0.fromAccumulatedFees)
  let supplyDelta ← safe (delta - rec0.fromUnusedWitnessBudget)
  let currentSupply ← safe (s'.currentSupply + supplyDelta)
  let record : BudgetRecord :=
    { rec0 with
      requestedWitnessBudget := requested
      witnessBudget
      workerBudget
      leftoverWorkerFunds
      supplyDelta }
  return { s' with
    currentSupply
    accumulatedFees := 0
    witnessBudget
    lastBudgetTime := s.headBlockTime
    budgetRecords := s'.budgetRecords ++ [(s.headBlockTime, record)] }

/-! ## Workers are created -/

def maxWorkerNameLength : Nat := 63

def maxUrlLength : Nat := 127

inductive WorkerInitializer where
  | refund
  | vestingBalance (payVestingPeriodDays : Nat)
  | burn
  deriving DecidableEq

structure WorkerCreateOperation where
  feeAmount : Int := 0
  owner : AccountId
  workBeginDate : Nat
  workEndDate : Nat
  dailyPay : Int
  name : String := ""
  url : String := ""
  initializer : WorkerInitializer
  deriving DecidableEq

namespace WorkerCreateOperation

def validate (op : WorkerCreateOperation) : Except Exception Unit := do
  fcAssert (0 ≤ op.feeAmount) "fee.amount >= 0"
  fcAssert (op.workBeginDate < op.workEndDate) "work_end_date > work_begin_date"
  fcAssert (0 < op.dailyPay) "daily_pay > 0"
  fcAssert (op.dailyPay < maxShareSupply) "daily_pay < GRAPHENE_MAX_SHARE_SUPPLY"
  fcAssert (op.name.utf8ByteSize < maxWorkerNameLength)
    "name.size() < GRAPHENE_MAX_WORKER_NAME_LENGTH"
  fcAssert (op.url.utf8ByteSize < maxUrlLength) "url.size() < GRAPHENE_MAX_URL_LENGTH"

def doEvaluate (op : WorkerCreateOperation) (s : State) : Except Exception Unit := do
  fcAssert (op.owner ∈ s.lifetimeMembers) "d.get(o.owner).is_lifetime_member()"
  fcAssert (s.headBlockTime ≤ op.workBeginDate) "o.work_begin_date >= d.head_block_time()"

/-- The balance that `worker_init_visitor` creates.  The period is a `uint32_t`. -/
def vestingBalanceObject (op : WorkerCreateOperation) (payVestingPeriodDays : Nat) (now : Nat) :
    VestingBalanceObject where
  owner := op.owner
  balance := ⟨0, core⟩
  balanceType := .worker
  policy := .cdd {
    vestingSeconds := payVestingPeriodDays * 86400 % 2 ^ 32
    coinSecondsEarned := 0
    coinSecondsEarnedLastUpdate := now }

def initWorker (op : WorkerCreateOperation) (s : State) : WorkerType × State :=
  match op.initializer with
  | .refund => (.refund 0, s)
  | .burn => (.burn 0, s)
  | .vestingBalance payVestingPeriodDays =>
    let b := op.vestingBalanceObject payVestingPeriodDays s.headBlockTime
    (.vestingBalance s.vestingBalances.next,
      { s with vestingBalances := s.vestingBalances.create b })

def doApply (op : WorkerCreateOperation) (s : State) : State :=
  let (worker, s) := op.initWorker s
  let w : WorkerObject :=
    { workBeginDate := op.workBeginDate
      workEndDate := op.workEndDate
      dailyPay := op.dailyPay
      worker }
  { s with workers := s.workers.create w }

def apply (op : WorkerCreateOperation) (s : State) : Except Exception State := do
  op.validate
  op.doEvaluate s
  return op.doApply s

end WorkerCreateOperation

/-! ## The chain -/

/-- `next_maintenance_time` as `perform_chain_maintenance` computes it, a `uint32_t` -/
def State.laterMaintenanceTime (s : State) (blockNum : Nat) : Nat :=
  let maintenanceInterval := s.parameters.maintenanceInterval
  if s.nextMaintenanceTime ≤ s.headBlockTime then
    if blockNum = 1 then
      (s.headBlockTime / maintenanceInterval + 1) * maintenanceInterval % 2 ^ 32
    else
      let y := (s.headBlockTime - s.nextMaintenanceTime) / maintenanceInterval
      (s.nextMaintenanceTime + (y + 1) * maintenanceInterval % 2 ^ 32) % 2 ^ 32
  else s.nextMaintenanceTime

/-- The state in which `perform_chain_maintenance` processes the budget -/
def State.beforeBudget (s : State) (blockNum : Nat) : State :=
  { s with nextMaintenanceTime := s.laterMaintenanceTime blockNum }

structure Elsewhere where
  headBlockTime : Nat
  parameters : ChainParameters
  lifetimeMembers : List AccountId
  currentSupply : Int
  accumulatedFees : Int
  witnessBudget : Int
  nullBalance : Int
  vestingBalances : Index VestingBalanceObject

def Elsewhere.applyTo (change : Elsewhere) (s : State) : State :=
  { s with
    headBlockTime := change.headBlockTime
    parameters := change.parameters
    lifetimeMembers := change.lifetimeMembers
    currentSupply := change.currentSupply
    accumulatedFees := change.accumulatedFees
    witnessBudget := change.witnessBudget
    nullBalance := change.nullBalance
    vestingBalances := change.vestingBalances }

inductive Event where
  | createWorker (op : WorkerCreateOperation)
  | countVotes (id : Nat) (totalVotesFor totalVotesAgainst : Nat)
  | maintenance (blockNum : Nat)
  | elsewhere (change : Elsewhere)

def step (s : State) : Event → Except Exception State
  | .createWorker op => op.apply s
  | .countVotes id totalVotesFor totalVotesAgainst =>
    let workers := s.workers.modify id fun w => { w with totalVotesFor, totalVotesAgainst }
    .ok { s with workers }
  | .maintenance blockNum => processBudget (s.beforeBudget blockNum)
  | .elsewhere change => .ok (change.applyTo s)

/-- A state that `init_genesis` makes, before the workers of the genesis are created -/
structure IsGenesis (s : State) : Prop where
  nextMaintenanceTime : s.nextMaintenanceTime = 0
  lastBudgetTime : s.lastBudgetTime = 0
  accumulatedFees : s.accumulatedFees = 0
  witnessBudget : s.witnessBudget = 0
  nullBalance : s.nullBalance = 0
  workers : s.workers = ∅
  vestingBalances : s.vestingBalances = ∅
  budgetRecords : s.budgetRecords = []

end Meta1Core.Budget
