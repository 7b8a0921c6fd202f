import Mathlib.Data.List.Sort
import Meta1Core.Lib.Sweep
import Meta1Core.Vesting.Evaluators

/-!
# Accounts as the votes see them (`account_object.hpp`, `account_object.cpp`, `db_balance.cpp`)

The statistics of an account repeat three things that are stored elsewhere: whether the account is
voting, how much core it has, and whether it has a vesting balance for its cashback.
-/

namespace Meta1Core.Voting

open Lib (Index)
open Protocol
open Vesting (VestingBalanceObject)

/-! ## Options -/

def proxyToSelfAccount : AccountId := 5

def maximumTime : Nat := 2 ^ 32 - 1

inductive VoteType where
  | committee
  | witness
  | worker
  deriving DecidableEq

/-- `vote_id_type`, with the type in the lower 8 bits and the instance in the upper 24 -/
structure VoteId where
  content : Nat
  deriving DecidableEq

def VoteId.of (type : VoteType) (instanceNumber : Nat) : VoteId :=
  match type with
  | .committee => ⟨instanceNumber * 2 ^ 8⟩
  | .witness => ⟨instanceNumber * 2 ^ 8 + 1⟩
  | .worker => ⟨instanceNumber * 2 ^ 8 + 2⟩

def VoteId.type (id : VoteId) : Option VoteType :=
  match id.content % 2 ^ 8 with
  | 0 => some .committee
  | 1 => some .witness
  | 2 => some .worker
  | _ => none

def VoteId.instanceNumber (id : VoteId) : Nat := id.content / 2 ^ 8

structure AccountOptions where
  votingAccount : AccountId := proxyToSelfAccount
  numWitness : Nat := 0
  numCommittee : Nat := 0
  votes : List VoteId := []
  deriving DecidableEq

def AccountOptions.isVoting (o : AccountOptions) : Bool :=
  o.votingAccount ≠ proxyToSelfAccount ∨ o.votes ≠ []

structure AccountStatistics where
  totalCoreInOrders : Int := 0
  coreInBalance : Int := 0
  hasCashbackVb : Bool := false
  isVoting : Bool := false
  lifetimeFeesPaid : Int := 0
  pendingFees : Int := 0
  pendingVestedFees : Int := 0
  deriving DecidableEq

namespace AccountStatistics

def hasSomeCoreVoting (a : AccountStatistics) : Bool :=
  a.isVoting ∧ (0 < a.totalCoreInOrders ∨ 0 < a.coreInBalance ∨ a.hasCashbackVb)

def hasPendingFees (a : AccountStatistics) : Bool := 0 < a.pendingFees ∨ 0 < a.pendingVestedFees

def needMaintenance (a : AccountStatistics) : Bool := a.hasSomeCoreVoting || a.hasPendingFees

def payFee (a : AccountStatistics) (coreFee cashbackVestingThreshold : Int) :
    Except Exception AccountStatistics :=
  if cashbackVestingThreshold < coreFee then do
    return { a with pendingFees := ← safe (a.pendingFees + coreFee) }
  else do
    return { a with pendingVestedFees := ← safe (a.pendingVestedFees + coreFee) }

end AccountStatistics

/-! ## Accounts -/

structure AccountBalance where
  balance : Int
  maintenanceFlag : Bool := false
  deriving DecidableEq

/-- `account_object` with its statistics and its core balance; the statistics repeat the name, too, which
never changes. -/
structure AccountObject where
  name : String
  membershipExpirationDate : Nat := 0
  registrar : AccountId := 0
  referrer : AccountId := 0
  lifetimeReferrer : AccountId := 0
  networkFeePercentage : Nat := 4000
  lifetimeReferrerFeePercentage : Nat := 0
  referrerRewardsPercentage : Nat := 0
  options : AccountOptions := {}
  cashbackVb : Option Nat := none
  statistics : AccountStatistics := {}
  coreBalance : Option AccountBalance := none
  deriving DecidableEq

namespace AccountObject

def isLifetimeMember (a : AccountObject) : Bool := a.membershipExpirationDate = maximumTime

def isBasicAccount (a : AccountObject) (now : Nat) : Bool := a.membershipExpirationDate < now

def isAnnualMember (a : AccountObject) (now : Nat) : Bool :=
  !a.isLifetimeMember && !a.isBasicAccount now

def isMember (a : AccountObject) (now : Nat) : Bool := !a.isBasicAccount now

end AccountObject

/-! ## The state -/

/-- The part of an order that counts as a stake: `for_sale` of a limit order that sells core, or the
`collateral` of a call order that is backed by core -/
structure CoreOrder where
  owner : AccountId
  core : Int
  deriving DecidableEq

structure ChainParameters where
  countNonMemberVotes : Bool := true
  maximumWitnessCount : Nat := 10001
  maximumCommitteeCount : Nat := 10001
  networkPercentOfFee : Nat := 4000
  lifetimeReferrerPercentOfFee : Nat := 3000
  cashbackVestingPeriodSeconds : Nat := 31536000
  cashbackVestingThreshold : Int := 100000000000
  deriving DecidableEq

/-- What may be voted for: `next_available_vote_id`, and the vote ids in the indexes of the committee
members, the witnesses and the workers -/
structure Ballot where
  nextAvailableVoteId : Nat := 0
  committee : List VoteId := []
  witnesses : List VoteId := []
  approveWorkers : List VoteId := []
  againstWorkers : List VoteId := []
  deriving DecidableEq

/-- The objects that the votes depend on; `currentSupply` and `accumulatedFees` are those of the core
asset. -/
structure State where
  accounts : Index AccountObject
  vestingBalances : Index VestingBalanceObject := ∅
  orders : Index CoreOrder := ∅
  headBlockTime : Nat
  parameters : ChainParameters := {}
  ballot : Ballot := {}
  currentSupply : Int
  accumulatedFees : Int := 0

namespace State

def account (s : State) (id : AccountId) : Except Exception AccountObject :=
  match s.accounts.find id with
  | some a => .ok a
  | none => .error (.fc "Unable to find Object")

def modifyAccount (s : State) (id : AccountId) (f : AccountObject → AccountObject) : State :=
  { s with accounts := s.accounts.modify id f }

def ids (s : State) : List AccountId :=
  (List.range s.accounts.next).filter fun id => (s.accounts.find id).isSome

def nameOf (s : State) (id : AccountId) : String :=
  ((s.accounts.find id).map AccountObject.name).getD ""

def byName (s : State) : List AccountId :=
  s.ids.insertionSort fun x y => ¬s.nameOf y < s.nameOf x

end State

def cutFee (a : Int) (p : Nat) : Int :=
  if a = 0 ∨ p = 0 then 0
  else if p = percent100 then a
  else int64Cast (uint128 (uint128 a * p) / percent100 % 2 ^ 64)

def depositLazyVesting (ovbid : Option Nat) (amount : Int) (reqVestingSeconds : Nat)
    (balanceType : Vesting.VestingBalanceType) (reqOwner : AccountId) (requireVesting : Bool)
    (s : State) : Except Exception (Option Nat × State) := do
  if amount = 0 then return (none, s)
  let now := s.headBlockTime
  match ← Vesting.lazyTarget s.vestingBalances ovbid reqVestingSeconds reqOwner with
  | some (id, vbo) =>
    let vbo ← Vesting.depositInto requireVesting vbo now ⟨amount, core⟩
    return (none, { s with vestingBalances := s.vestingBalances.modify id fun _ => vbo })
  | none =>
    let coinSecondsEarned ← Vesting.initialCoinSeconds requireVesting amount reqVestingSeconds
    let policy : Vesting.CddVestingPolicy :=
      { vestingSeconds := reqVestingSeconds, coinSecondsEarned, coinSecondsEarnedLastUpdate := now }
    let vbo : VestingBalanceObject := ⟨reqOwner, ⟨amount, core⟩, .cdd policy, balanceType⟩
    return (some s.vestingBalances.next, { s with vestingBalances := s.vestingBalances.create vbo })

/-- `_acct.cashback_vb = *new_vbid`, together with the flag in the statistics -/
def AccountObject.receives (id : Nat) (a : AccountObject) : AccountObject :=
  { a with cashbackVb := some id, statistics := { a.statistics with hasCashbackVb := true } }

def depositCashback (acct : AccountId) (amount : Int) (requireVesting : Bool) (s : State) :
    Except Exception State := do
  let a ← s.account acct
  if amount = 0 then return s
  if acct ∈ Vesting.blockchainAccounts then
    return { s with currentSupply := ← safe (s.currentSupply - amount) }
  let (newVbid, s) ← depositLazyVesting a.cashbackVb amount
    s.parameters.cashbackVestingPeriodSeconds .cashback acct requireVesting s
  match newVbid with
  | some id => return s.modifyAccount acct (AccountObject.receives id)
  | none => return s

def State.referrerOf (s : State) (a : AccountObject) : Except Exception AccountId := do
  let referrer ← s.account a.referrer
  return if referrer.isBasicAccount s.headBlockTime then a.lifetimeReferrer else a.referrer

/-- `pay_out_fees` in `process_fees`.  The referrer is written also if it stays; the other assertion of
the source holds by what the cuts are. -/
def payOutFees (account : AccountId) (coreFeeTotal : Int) (requireVesting : Bool) (s : State) :
    Except Exception State := do
  let a ← s.account account
  let referrer ← s.referrerOf a
  let s := s.modifyAccount account fun acc => { acc with referrer }
  let networkCut := cutFee coreFeeTotal a.networkFeePercentage
  cAssert (networkCut ≤ coreFeeTotal) "network_cut <= core_fee_total"
  let lifetimeCut := cutFee coreFeeTotal a.lifetimeReferrerFeePercentage
  let rest ← safe (coreFeeTotal - networkCut)
  let referral ← safe (rest - lifetimeCut)
  let accumulatedFees ← safe (s.accumulatedFees + networkCut)
  let s := { s with accumulatedFees }
  let referrerCut := cutFee referral a.referrerRewardsPercentage
  let registrarCut ← safe (referral - referrerCut)
  let s ← depositCashback a.lifetimeReferrer lifetimeCut requireVesting s
  let s ← depositCashback referrer referrerCut requireVesting s
  depositCashback a.registrar registrarCut requireVesting s

/-- What `process_fees` does to the statistics once the fees are paid out -/
def AccountObject.settleFees (lifetimeFeesPaid : Int) (a : AccountObject) : AccountObject :=
  { a with statistics :=
      { a.statistics with lifetimeFeesPaid, pendingFees := 0, pendingVestedFees := 0 } }

def processFees (account : AccountId) (s : State) : Except Exception State := do
  let a ← s.account account
  let stats := a.statistics
  if ¬stats.hasPendingFees then return s
  let s ← payOutFees account stats.pendingFees true s
  let s ← payOutFees account stats.pendingVestedFees false s
  let paid ← safe (stats.pendingFees + stats.pendingVestedFees)
  let lifetimeFeesPaid ← safe (stats.lifetimeFeesPaid + paid)
  return s.modifyAccount account (AccountObject.settleFees lifetimeFeesPaid)

end Meta1Core.Voting
