import Meta1Core.Voting.Objects

/-!
# Votes and maintenance (`account_evaluator.cpp`, `db_balance.cpp`, `db_maint.cpp`)

Everything that writes to what the votes depend on, and the two ways of counting them: the
maintenance of the accounts as the source has it, which visits only the accounts that are flagged in
`by_maintenance_seq`, and the plain one that goes through all of them.
-/

namespace Meta1Core.Voting

open Lib (Index)
open Protocol
open Vesting (VestingBalanceObject)

/-! ## Accounts -/

def hardfork453Time : Nat := 1450288800

def hardfork607Time : Nat := 1458752400

def hardfork613Time : Nat := 1458752400

def hardforkCore143Time : Nat := 1512747600

def days (n : Nat) : Nat := n * 86400

def Ballot.has (b : Ballot) (id : VoteId) : Bool :=
  match id.type with
  | some .committee => b.committee.contains id
  | some .witness => b.witnesses.contains id
  | some .worker => b.approveWorkers.contains id
  | none => false

def verifyAccountVotes (s : State) (options : AccountOptions) : Except Exception Unit := do
  fcAssert (options.numWitness ≤ s.parameters.maximumWitnessCount)
    "Voted for more witnesses than currently allowed"
  fcAssert (options.numCommittee ≤ s.parameters.maximumCommitteeCount)
    "Voted for more committee members than currently allowed"
  fcAssert ((s.accounts.find options.votingAccount).isSome) "Invalid proxy account specified."
  fcAssert (∀ id ∈ options.votes, id.instanceNumber < s.ballot.nextAvailableVoteId)
    "Can not vote for an id which does not exist."
  fcAssert (hardfork607Time ≤ s.headBlockTime →
      ∀ id ∈ options.votes, id.type = some .worker → id ∉ s.ballot.againstWorkers)
    "Can no longer vote against a worker."
  fcAssert (hardforkCore143Time ≤ s.headBlockTime → ∀ id ∈ options.votes, s.ballot.has id = true)
    "Can not vote for an id which does not exist."

structure AccountCreateOperation where
  registrar : AccountId
  referrer : AccountId
  referrerPercent : Nat := 0
  name : String
  options : AccountOptions := {}
  deriving DecidableEq

namespace AccountCreateOperation

/-- The percentage that `do_apply` stores: before the hard fork a small one was meant in full percent. -/
def storedPercent (op : AccountCreateOperation) (now : Nat) : Nat :=
  if now ≤ hardfork453Time ∧ op.referrer ≠ op.registrar ∧ op.referrerPercent ≠ 0 ∧
      op.referrerPercent ≤ 256 then
    min (op.referrerPercent * 100) percent100
  else op.referrerPercent

/-- `account_create_evaluator::do_evaluate`.  An empty name would be refused by the index, whose
names are unique. -/
def doEvaluate (s : State) (op : AccountCreateOperation) : Except Exception Unit := do
  let registrar ← s.account op.registrar
  fcAssert (registrar.isLifetimeMember = true) "Only Lifetime members may register an account."
  let referrer ← s.account op.referrer
  fcAssert (referrer.isMember s.headBlockTime = true)
    "The referrer must be either a lifetime or annual subscriber."
  verifyAccountVotes s op.options
  fcAssert (∀ id ∈ s.ids, s.nameOf id ≠ op.name) "Account already exists."

def created (s : State) (op : AccountCreateOperation) (lifetimeReferrer : AccountId) :
    AccountObject where
  name := op.name
  registrar := op.registrar
  referrer := op.referrer
  lifetimeReferrer
  networkFeePercentage := s.parameters.networkPercentOfFee
  lifetimeReferrerFeePercentage := s.parameters.lifetimeReferrerPercentOfFee
  referrerRewardsPercentage := op.storedPercent s.headBlockTime
  options := op.options
  statistics := { isVoting := op.options.isVoting }

def evaluate (op : AccountCreateOperation) (s : State) : Except Exception State := do
  op.doEvaluate s
  let referrer ← s.account op.referrer
  return { s with accounts := s.accounts.create (op.created s referrer.lifetimeReferrer) }

end AccountCreateOperation

def AccountObject.updateOptions (options : AccountOptions) (a : AccountObject) : AccountObject :=
  { a with
    options
    statistics :=
      if options.isVoting = a.options.isVoting then a.statistics
      else { a.statistics with isVoting := !a.statistics.isVoting } }

/-- `account_update_evaluator`, as far as it sets new options -/
def updateAccount (account : AccountId) (newOptions : AccountOptions) (s : State) :
    Except Exception State := do
  let _ ← s.account account
  verifyAccountVotes s newOptions
  return s.modifyAccount account (AccountObject.updateOptions newOptions)

def AccountObject.becomeLifetimeMember (id : AccountId) (a : AccountObject) : AccountObject :=
  { a with
    membershipExpirationDate := maximumTime
    registrar := id
    referrer := id
    lifetimeReferrer := id
    lifetimeReferrerFeePercentage := percent100 - a.networkFeePercentage }

def upgradeAccount (account : AccountId) (upgradeToLifetimeMember : Bool) (s : State) :
    Except Exception State := do
  let a ← s.account account
  fcAssert (a.isLifetimeMember = false) "!account->is_lifetime_member()"
  if upgradeToLifetimeMember then
    let s ← processFees account s
    return s.modifyAccount account (AccountObject.becomeLifetimeMember account)
  fcAssert (s.headBlockTime ≤ hardfork613Time) "d.head_block_time() <= HARDFORK_613_TIME"
  if a.isAnnualMember s.headBlockTime then
    fcAssert (a.membershipExpirationDate - s.headBlockTime < days 3650)
      "May not extend annual membership more than a decade into the future."
    return s.modifyAccount account fun a =>
      { a with membershipExpirationDate := a.membershipExpirationDate + days 365 }
  let s ← processFees account s
  return s.modifyAccount account fun a =>
    { a with referrer := account, membershipExpirationDate := s.headBlockTime + days 365 }

/-! ## Balances, fees and orders -/

def AccountObject.adjustCoreBalance (delta : Int) (a : AccountObject) :
    Except Exception AccountObject :=
  match a.coreBalance with
  | none => do
    fcAssert (0 < delta) "Insufficient Balance"
    return { a with coreBalance := some ⟨delta, true⟩ }
  | some b => do
    fcAssert (delta < 0 → -delta ≤ b.balance) "Insufficient Balance"
    return { a with coreBalance := some ⟨← safe (b.balance + delta), true⟩ }

def adjustBalance (account : AccountId) (delta : Int) (s : State) : Except Exception State := do
  if delta = 0 then return s
  let a ← s.account account
  let a ← a.adjustCoreBalance delta
  return s.modifyAccount account fun _ => a

def payFee (account : AccountId) (coreFee : Int) (s : State) : Except Exception State := do
  let a ← s.account account
  let statistics ← a.statistics.payFee coreFee s.parameters.cashbackVestingThreshold
  return s.modifyAccount account fun a => { a with statistics }

def addCoreInOrders (account : AccountId) (delta : Int) (s : State) : Except Exception State := do
  let a ← s.account account
  let totalCoreInOrders ← safe (a.statistics.totalCoreInOrders + delta)
  return s.modifyAccount account fun a =>
    { a with statistics := { a.statistics with totalCoreInOrders } }

/-- A limit order that sells core, or a call order that is backed by core, is created. -/
def placeOrder (o : CoreOrder) (s : State) : Except Exception State := do
  fcAssert (0 ≤ o.core) "an order holds no negative amount"
  let s ← addCoreInOrders o.owner o.core s
  return { s with orders := s.orders.create o }

/-- An order takes in more core, or gives some of its core back, or pays it. -/
def changeOrder (id : Nat) (remains : Int) (s : State) : Except Exception State := do
  match s.orders.find id with
  | none => .error (.fc "Unable to find Object")
  | some o =>
    fcAssert (0 ≤ remains) "an order holds no negative amount"
    let s ← addCoreInOrders o.owner (remains - o.core) s
    return { s with orders := s.orders.modify id fun o => { o with core := remains } }

def closeOrder (id : Nat) (s : State) : Except Exception State := do
  match s.orders.find id with
  | none => .error (.fc "Unable to find Object")
  | some o =>
    let s ← addCoreInOrders o.owner (-o.core) s
    return { s with orders := s.orders.remove id }

/-! ## Tallying -/

/-- `_vote_tally_buffer`, `_witness_count_histogram_buffer`, `_committee_count_histogram_buffer` and
`_total_voting_stake` -/
structure Tallies where
  voteTally : List (BitVec 64) := []
  witnessCountHistogram : List (BitVec 64) := []
  committeeCountHistogram : List (BitVec 64) := []
  totalVotingStake : BitVec 64 := 0
  deriving DecidableEq

def resize (n : Nat) (xs : List (BitVec 64)) : List (BitVec 64) :=
  xs.take n ++ List.replicate (n - xs.length) 0

namespace Tallies

def start (s : State) (t : Tallies) : Tallies where
  voteTally := resize s.ballot.nextAvailableVoteId t.voteTally
  witnessCountHistogram := resize (s.parameters.maximumWitnessCount / 2 + 1) t.witnessCountHistogram
  committeeCountHistogram :=
    resize (s.parameters.maximumCommitteeCount / 2 + 1) t.committeeCountHistogram
  totalVotingStake := 0

def count (maximum num : Nat) (stake : BitVec 64) (histogram : List (BitVec 64)) :
    List (BitVec 64) :=
  if num ≤ maximum then histogram.modify (min (num / 2) (histogram.length - 1)) (· + stake)
  else histogram

/-- The part of `vote_tally_helper::operator()` that writes to the buffers; a vote beyond the end of its
buffer is ignored. -/
def add (parameters : ChainParameters) (opinion : AccountOptions) (stake : BitVec 64)
    (t : Tallies) : Tallies where
  voteTally :=
    opinion.votes.foldl (fun tally id => tally.modify id.instanceNumber (· + stake)) t.voteTally
  witnessCountHistogram :=
    count parameters.maximumWitnessCount opinion.numWitness stake t.witnessCountHistogram
  committeeCountHistogram :=
    count parameters.maximumCommitteeCount opinion.numCommittee stake t.committeeCountHistogram
  totalVotingStake := t.totalVotingStake + stake

end Tallies

namespace State

/-- `count_non_member_votes || stake_account.is_member( head_block_time() )` -/
def counts (s : State) (a : AccountObject) : Bool :=
  s.parameters.countNonMemberVotes || a.isMember s.headBlockTime

def opinionOf (s : State) (a : AccountObject) : Except Exception AccountOptions :=
  if a.options.votingAccount = proxyToSelfAccount then .ok a.options
  else do return (← s.account a.options.votingAccount).options

/-- `cashback_vb.valid() ? (*cashback_vb)( d ).balance.amount.value : 0` -/
def cashbackOf (s : State) (a : AccountObject) : Except Exception Int :=
  match a.cashbackVb with
  | none => .ok 0
  | some id =>
    match s.vestingBalances.find id with
    | some vbo => .ok vbo.balance.amount
    | none => .error (.fc "Unable to find Object")

end State

def tallyHelper (s : State) (stakeAccount : AccountObject) (stats : AccountStatistics)
    (t : Tallies) : Except Exception Tallies := do
  if s.counts stakeAccount = false then return t
  let opinion ← s.opinionOf stakeAccount
  let cashback ← s.cashbackOf stakeAccount
  let stake := stats.totalCoreInOrders + cashback + stats.coreInBalance
  return t.add s.parameters opinion (.ofInt 64 stake)

/-! ## Maintenance -/

/-- `aso.core_in_balance = bal_obj.balance`, for a balance whose flag is set -/
def AccountObject.refresh (a : AccountObject) : AccountObject :=
  match a.coreBalance with
  | some ⟨balance, true⟩ =>
    { a with
      statistics := { a.statistics with coreInBalance := balance }
      coreBalance := some ⟨balance, false⟩ }
  | _ => a

def refreshBalances (s : State) : State :=
  s.ids.foldl (fun s id => s.modifyAccount id AccountObject.refresh) s

def flagged (d : State × Tallies) (id : AccountId) : Bool :=
  (d.1.accounts.find id).any fun a => a.statistics.needMaintenance

def visitAccount (id : AccountId) (d : State × Tallies) : Except Exception (State × Tallies) := do
  let a ← d.1.account id
  let t ← tallyFlagged a
  let s ← processFees id d.1
  return (s, t)
where
  tallyFlagged (a : AccountObject) : Except Exception Tallies :=
    if a.statistics.hasSomeCoreVoting then tallyHelper d.1 a a.statistics d.2 else .ok d.2

/-- The second loop, with the accounts that it visits; it goes through `by_maintenance_seq` from
`lower_bound( true )` on. -/
def sweepAccounts (s : State) (t : Tallies) :
    Except Exception (List AccountId × State × Tallies) :=
  Lib.Sweep.sweep s.byName flagged visitAccount .diverges s.byName.length
    (s.byName.filter (flagged (s, t))).head? (s, t)

/-- `perform_account_maintenance( vote_tally_helper )`, on what is left in the buffers -/
def performAccountMaintenance (s : State) (t : Tallies) : Except Exception (State × Tallies) :=
  (sweepAccounts (refreshBalances s) (t.start s)).map Prod.snd

inductive Event where
  | createAccount (op : AccountCreateOperation)
  | updateAccount (account : AccountId) (newOptions : AccountOptions)
  | upgradeAccount (account : AccountId) (upgradeToLifetimeMember : Bool)
  | adjustBalance (account : AccountId) (delta : Int)
  | payFee (account : AccountId) (coreFee : Int)
  | placeOrder (o : CoreOrder)
  | changeOrder (id : Nat) (remains : Int)
  | closeOrder (id : Nat)
  | createVestingBalance (vbo : VestingBalanceObject)
  | changeVestingBalance (id : Nat) (vbo : VestingBalanceObject)
  /-- `perform_account_maintenance`, on what an earlier one left in the buffers -/
  | maintenance (t : Tallies)
  | elsewhere (headBlockTime : Nat) (parameters : ChainParameters) (ballot : Ballot)
      (currentSupply accumulatedFees : Int)

def step (s : State) : Event → Except Exception State
  | .createAccount op => op.evaluate s
  | .updateAccount account newOptions => Voting.updateAccount account newOptions s
  | .upgradeAccount account upgrade => Voting.upgradeAccount account upgrade s
  | .adjustBalance account delta => Voting.adjustBalance account delta s
  | .payFee account coreFee => Voting.payFee account coreFee s
  | .placeOrder o => Voting.placeOrder o s
  | .changeOrder id remains => Voting.changeOrder id remains s
  | .closeOrder id => Voting.closeOrder id s
  | .createVestingBalance vbo => .ok { s with vestingBalances := s.vestingBalances.create vbo }
  | .changeVestingBalance id vbo =>
    .ok { s with vestingBalances := s.vestingBalances.modify id fun _ => vbo }
  | .maintenance t => (performAccountMaintenance s t).map Prod.fst
  | .elsewhere headBlockTime parameters ballot currentSupply accumulatedFees =>
    .ok { s with headBlockTime, parameters, ballot, currentSupply, accumulatedFees }

/-- One of the accounts that `init_genesis` makes by hand -/
def specialAccount (name : String) (referrer : AccountId) (networkFeePercentage : Nat) :
    AccountObject where
  name
  membershipExpirationDate := maximumTime
  registrar := referrer
  referrer
  lifetimeReferrer := referrer
  networkFeePercentage
  lifetimeReferrerFeePercentage := percent100 - networkFeePercentage

def specialAccounts (maxCoreSupply : Int) : List AccountObject :=
  [{ specialAccount "committee-account" committeeAccount 4000 with
      statistics := { coreInBalance := maxCoreSupply }
      coreBalance := some ⟨maxCoreSupply, false⟩ },
    specialAccount "witness-account" 1 4000,
    specialAccount "relaxed-committee-account" 2 4000,
    specialAccount "null-account" 3 0,
    specialAccount "temp-account" tempAccount 4000,
    specialAccount "proxy-to-self" 3 0]

/-- The index of the accounts; the ids up to `num_special_accounts` are used up. -/
def genesisAccounts (maxCoreSupply : Int) (numSpecialAccounts : Nat) : Index AccountObject :=
  let t := (specialAccounts maxCoreSupply).foldl Index.create ∅
  { t with
    next := max t.next numSpecialAccounts
    below := fun id h => lt_of_lt_of_le (t.below id h) (le_max_left ..) }

/-- The state in which `init_genesis` starts to apply operations -/
def genesis (maxCoreSupply : Int) (numSpecialAccounts : Nat) (initialTimestamp : Nat)
    (initialParameters : ChainParameters) : State where
  accounts := genesisAccounts maxCoreSupply numSpecialAccounts
  headBlockTime := initialTimestamp
  parameters := initialParameters
  currentSupply := maxCoreSupply

def IsGenesis (s : State) : Prop :=
  ∃ maxCoreSupply numSpecialAccounts initialTimestamp initialParameters, 0 ≤ maxCoreSupply ∧
    s = genesis maxCoreSupply numSpecialAccounts initialTimestamp initialParameters

end Meta1Core.Voting
