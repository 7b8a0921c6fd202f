import Mathlib.Data.List.MinMax
import Mathlib.Data.Prod.Lex
import Meta1Core.Lib.Rows
import Meta1Core.Proposals.RequiredApprovals
import Meta1Core.Protocol.Authority

/-!
# Proposals (`proposal_evaluator.cpp`, `db_block.cpp`, `db_update.cpp`)

A proposal holds operations and collects approvals of them.  It is executed by the update that
completes its approvals, or, if it has a review period, only when it expires.

What the rest of the chain does with its objects `σ` and its operations `ω` is a parameter.
-/

namespace Meta1Core.Proposals

open Lib (FlatSet)
open Protocol (AccountId Authority committeeAccount)

abbrev PublicKey := Nat

abbrev Address := Nat

def relaxedCommitteeAccount : AccountId := 2

def nullAccount : AccountId := 3

def maxShareSupply : Nat := 9000000000000000000

def hardforkCore1479Time : Nat := 1545436800

/-! ## Operations -/

/-- `proposal_create_operation`; `α` are the operations that may be proposed. -/
structure ProposalCreate (α : Type) where
  feePayingAccount : AccountId
  proposedOps : List α
  expirationTime : Nat
  reviewPeriodSeconds : Option Nat := none

structure ProposalUpdate where
  feePayingAccount : AccountId
  proposal : ProposalId
  activeApprovalsToAdd : FlatSet AccountId := ∅
  activeApprovalsToRemove : FlatSet AccountId := ∅
  ownerApprovalsToAdd : FlatSet AccountId := ∅
  ownerApprovalsToRemove : FlatSet AccountId := ∅
  keyApprovalsToAdd : FlatSet PublicKey := ∅
  keyApprovalsToRemove : FlatSet PublicKey := ∅

structure ProposalDelete where
  feePayingAccount : AccountId
  usingOwnerAuthority : Bool := false
  proposal : ProposalId

/-- `transfer_operation`, of the core asset -/
structure Transfer where
  source : AccountId
  target : AccountId
  amount : Nat

inductive Operation (ω : Type) where
  | create (o : ProposalCreate (Operation ω))
  | update (o : ProposalUpdate)
  | delete (o : ProposalDelete)
  | transfer (o : Transfer)
  | other (o : ω)

/-- What `operation_get_required_authorities` adds to its three arguments -/
structure RequiredAuthorities where
  active : FlatSet AccountId := ∅
  owner : FlatSet AccountId := ∅
  other : List (Authority PublicKey Address) := []

/-- `proposal_update_operation::get_required_authorities`: all keys are needed. -/
def ProposalUpdate.otherAuthorities (o : ProposalUpdate) : List (Authority PublicKey Address) :=
  let keys := o.keyApprovalsToAdd.insertAll o.keyApprovalsToRemove.elems
  if keys.elems = [] then []
  else [{
    weightThreshold := keys.elems.length.toUInt32
    accountAuths := []
    keyAuths := keys.elems.map (·, 1)
    addressAuths := [] }]

structure HardforkVisitor1479 where
  maxUpdateInstance : Nat := 0
  nestedUpdateCount : Nat := 0

namespace HardforkVisitor1479

def meet (v : HardforkVisitor1479) (proposal : ProposalId) : HardforkVisitor1479 where
  maxUpdateInstance :=
    if v.nestedUpdateCount = 0 ∨ v.maxUpdateInstance < proposal then proposal else v.maxUpdateInstance
  nestedUpdateCount := v.nestedUpdateCount + 1

mutual

def visit {ω : Type} (v : HardforkVisitor1479) : Operation ω → HardforkVisitor1479
  | .create o => visitAll v o.proposedOps
  | .update o => v.meet o.proposal
  | .delete o => v.meet o.proposal
  | .transfer _ => v
  | .other _ => v

def visitAll {ω : Type} (v : HardforkVisitor1479) : List (Operation ω) → HardforkVisitor1479
  | [] => v
  | op :: ops => visitAll (visit v op) ops

end

end HardforkVisitor1479

/-- `proposal_object`.  `committeeReviewPeriod` is the parameter of the chain when it was created. -/
structure Proposal (ω : Type) extends Approvals where
  expirationTime : Nat
  reviewPeriodTime : Option Nat
  operations : List (Operation ω)
  availableKeyApprovals : FlatSet PublicKey := ∅
  proposer : AccountId
  failReason : String := ""
  committeeReviewPeriod : Nat

structure Rest (σ ω : Type) where
  /-- `prepare_fee`, before `do_evaluate` -/
  prepareFee : Operation ω → σ → Except Exception Unit
  /-- `convert_fee` and `pay_fee`, before `do_apply` -/
  payFee : Operation ω → σ → Except Exception σ
  /-- `db_adjust_balance` of the fee payer, after `do_apply` -/
  adjustBalance : Operation ω → σ → Except Exception σ
  /-- the evaluators of the other operations, with their fees; the time is that of the head block. -/
  applyTransfer : Nat → Transfer → σ → Except Exception σ
  applyOther : Nat → ω → σ → Except Exception σ
  /-- `operation_get_required_authorities` -/
  requiredAuthorities : ω → RequiredAuthorities
  /-- the other hardfork visitors, and `validate` -/
  checkProposed : Nat → ProposalCreate (Operation ω) → σ → Except Exception Unit
  /-- `is_authorized_to_execute` -/
  isAuthorizedToExecute : Nat → Proposal ω → σ → Bool
  committeeProposalReviewPeriod : σ → Nat
  maximumProposalLifetime : σ → Nat

/-- A proposal that has been executed, as it was then -/
structure Execution (ω : Type) where
  id : ProposalId
  proposal : Proposal ω
  headBlockTime : Nat
  clearing : Bool

/-- The chain as far as proposals are concerned; `clearing`: a block has set the time and has not
removed the expired proposals yet. -/
structure ProposalChain (σ ω : Type) where
  proposals : Lib.Index (Proposal ω) := ∅
  headBlockTime : Nat
  activeWitnesses : Nat
  rest : σ
  clearing : Bool := false
  executed : List (Execution ω) := []

variable {σ ω : Type}

/-- `operation_get_required_authorities`, with the fee payer among the active ones -/
def requiredAuthorities (r : Rest σ ω) : Operation ω → RequiredAuthorities
  | .create o => { active := FlatSet.ofList [o.feePayingAccount] }
  | .update o => {
      active := (FlatSet.ofList [o.feePayingAccount]).insertAll
        (o.activeApprovalsToAdd.elems ++ o.activeApprovalsToRemove.elems)
      owner := FlatSet.ofList (o.ownerApprovalsToAdd.elems ++ o.ownerApprovalsToRemove.elems)
      other := o.otherAuthorities }
  | .delete o => { active := FlatSet.ofList [o.feePayingAccount] }
  | .transfer o => { active := FlatSet.ofList [o.source] }
  | .other o => r.requiredAuthorities o

namespace ProposalChain

def find (s : ProposalChain σ ω) (id : ProposalId) : Except Exception (Proposal ω) :=
  match s.proposals.find id with
  | some p => .ok p
  | none => .error (.fc "Unable to find Object")

def evaluateCreate (r : Rest σ ω) (o : ProposalCreate (Operation ω)) (s : ProposalChain σ ω) :
    Except Exception Unit := do
  r.checkProposed s.headBlockTime o s.rest
  fcAssert (s.headBlockTime < o.expirationTime) "Proposal has already expired on creation."
  fcAssert (o.expirationTime ≤ (s.headBlockTime + r.maximumProposalLifetime s.rest) % 2 ^ 32)
    "Proposal expiration time is too far in the future."
  fcAssert (∀ t ∈ o.reviewPeriodSeconds, t < o.expirationTime - s.headBlockTime)
    "Proposal review period must be less than its overall lifetime."
  fcAssert (∀ op ∈ o.proposedOps, (requiredAuthorities r op).other = []) "other.size() == 0"
  -- If we're dealing with the committee authority, make sure this transaction has a sufficient review period.
  if ∃ op ∈ o.proposedOps, committeeAccount ∈ (requiredAuthorities r op).active ∨
      committeeAccount ∈ (requiredAuthorities r op).owner then
    match o.reviewPeriodSeconds with
    | none => .error (.fc "Review period not given, but at least ${min} required")
    | some t =>
      fcAssert (r.committeeProposalReviewPeriod s.rest ≤ t)
        "Review period of ${t} specified, but at least ${min} required"
  else .ok ()

def preventingTransfer : Transfer := ⟨nullAccount, relaxedCommitteeAccount, maxShareSupply⟩

/-- The object that `proposal_create_evaluator::do_apply` creates -/
def newProposal (r : Rest σ ω) (committeeReviewPeriod : Nat) (o : ProposalCreate (Operation ω))
    (operations : List (Operation ω)) : Proposal ω where
  requiredActiveApprovals := FlatSet.ofList (Lib.setDifference (· < ·)
    (FlatSet.ofList (o.proposedOps.flatMap fun op => (requiredAuthorities r op).active.elems)).elems
    (FlatSet.ofList (o.proposedOps.flatMap fun op => (requiredAuthorities r op).owner.elems)).elems)
  requiredOwnerApprovals :=
    FlatSet.ofList (o.proposedOps.flatMap fun op => (requiredAuthorities r op).owner.elems)
  expirationTime := o.expirationTime
  reviewPeriodTime := o.reviewPeriodSeconds.map fun t => o.expirationTime - t
  operations := operations
  proposer := o.feePayingAccount
  committeeReviewPeriod

def applyCreate (r : Rest σ ω) (committeeReviewPeriod : Nat) (o : ProposalCreate (Operation ω))
    (s : ProposalChain σ ω) : Except Exception (ProposalChain σ ω) := do
  let v := HardforkVisitor1479.visitAll {} o.proposedOps
  let future := v.nestedUpdateCount ≠ 0 ∧ s.proposals.next ≤ v.maxUpdateInstance
  if hardforkCore1479Time < s.headBlockTime then
    fcAssert (¬future) "Cannot update/delete a proposal with a future id!"
    return { s with proposals := s.proposals.create (newProposal r committeeReviewPeriod o o.proposedOps) }
  else
    -- prevent approval
    let operations := if future then o.proposedOps ++ [.transfer preventingTransfer] else o.proposedOps
    return { s with proposals := s.proposals.create (newProposal r committeeReviewPeriod o operations) }

/-- The assertions of `proposal_update_evaluator::do_evaluate` -/
def checkUpdate (headBlockTime : Nat) (o : ProposalUpdate) (p : Proposal ω) : Except Exception Unit := do
  fcAssert ((∃ t ∈ p.reviewPeriodTime, t ≤ headBlockTime) →
      o.activeApprovalsToAdd = ∅ ∧ o.ownerApprovalsToAdd = ∅)
    "This proposal is in its review period. No new approvals may be added."
  fcAssert (∀ id ∈ o.activeApprovalsToRemove.elems, id ∈ p.availableActiveApprovals) ""
  fcAssert (∀ id ∈ o.ownerApprovalsToRemove.elems, id ∈ p.availableOwnerApprovals) ""

def evaluateUpdate (o : ProposalUpdate) (s : ProposalChain σ ω) : Except Exception (Proposal ω) := do
  let p ← s.find o.proposal
  checkUpdate s.headBlockTime o p
  return p

/-- What `proposal_update_evaluator::do_apply` does to the object -/
def updateApprovals (o : ProposalUpdate) (p : Proposal ω) : Proposal ω :=
  { p with
    availableActiveApprovals :=
      (p.availableActiveApprovals.insertAll o.activeApprovalsToAdd.elems).eraseAll
        o.activeApprovalsToRemove.elems
    availableOwnerApprovals :=
      (p.availableOwnerApprovals.insertAll o.ownerApprovalsToAdd.elems).eraseAll
        o.ownerApprovalsToRemove.elems
    availableKeyApprovals :=
      (p.availableKeyApprovals.insertAll o.keyApprovalsToAdd.elems).eraseAll
        o.keyApprovalsToRemove.elems }

def applyUpdate (r : Rest σ ω)
    (push : ProposalChain σ ω → ProposalId → Except Exception (ProposalChain σ ω))
    (o : ProposalUpdate) (p : Proposal ω) (s : ProposalChain σ ω) :
    Except Exception (ProposalChain σ ω) := do
  let s' := { s with proposals := s.proposals.modify o.proposal (updateApprovals o) }
  -- Proposals with a review period may never be executed except at their expiration.
  if p.reviewPeriodTime.isSome then return s'
  else if r.isAuthorizedToExecute s'.headBlockTime (updateApprovals o p) s'.rest then
    match push s' o.proposal with
    | .ok s'' => return s''
    | .error (.fc e) =>
      return { s' with proposals := s'.proposals.modify o.proposal fun p => { p with failReason := e } }
    | .error e => throw e
  else return s'

def evaluateDelete (o : ProposalDelete) (s : ProposalChain σ ω) : Except Exception Unit := do
  let p ← s.find o.proposal
  fcAssert (o.feePayingAccount ∈
      if o.usingOwnerAuthority then p.requiredOwnerApprovals else p.requiredActiveApprovals)
    "Provided authority is not authoritative for this proposal."

def applyDelete (o : ProposalDelete) (s : ProposalChain σ ω) : Except Exception (ProposalChain σ ω) :=
  return { s with proposals := s.proposals.remove o.proposal }

/-! ## Execution -/

/-- `evaluate` and `apply` of an evaluator, whose `do_evaluate` and `do_apply` are given -/
def evaluator {α : Type} (r : Rest σ ω) (op : Operation ω)
    (doEvaluate : ProposalChain σ ω → Except Exception α)
    (doApply : α → ProposalChain σ ω → Except Exception (ProposalChain σ ω)) (s : ProposalChain σ ω) :
    Except Exception (ProposalChain σ ω) := do
  r.prepareFee op s.rest
  let a ← doEvaluate s
  let rest ← r.payFee op s.rest
  let s' ← doApply a { s with rest := rest }
  return { s' with rest := ← r.adjustBalance op s'.rest }

def applyOperation (r : Rest σ ω)
    (push : ProposalChain σ ω → ProposalId → Except Exception (ProposalChain σ ω))
    (s : ProposalChain σ ω) : Operation ω → Except Exception (ProposalChain σ ω)
  | .create o => s.evaluator r (.create o) (evaluateCreate r o) fun _ =>
      applyCreate r (r.committeeProposalReviewPeriod s.rest) o
  | .update o => s.evaluator r (.update o) (evaluateUpdate o) (applyUpdate r push o)
  | .delete o => s.evaluator r (.delete o) (evaluateDelete o) fun _ => applyDelete o
  | .transfer o => do return { s with rest := ← r.applyTransfer s.headBlockTime o s.rest }
  | .other o => do return { s with rest := ← r.applyOther s.headBlockTime o s.rest }

/-- `push_proposal`, with the nesting left until `push_proposal_nesting_guard` throws -/
def pushProposal (r : Rest σ ω) :
    (nesting : Nat) → ProposalChain σ ω → ProposalId → Except Exception (ProposalChain σ ω)
  | 0, _, _ => .error (.fc "Max proposal nesting depth exceeded!")
  | nesting + 1, s, id =>
    match s.proposals.find id with
    | none => .error .undefined
    | some p => do
      let s' ← Lib.run (applyOperation r (pushProposal r nesting)) s p.operations
      -- the reference dangles if the operations have removed the proposal
      if (s'.proposals.find id).isNone then throw .undefined
      else return { s' with
        proposals := s'.proposals.remove id
        executed := ⟨id, p, s.headBlockTime, s.clearing⟩ :: s'.executed }

def maxNesting (s : ProposalChain σ ω) : Nat := s.activeWitnesses * 2

def firstToExpire (s : ProposalChain σ ω) : Option (Σ _ : ProposalId, Proposal ω) :=
  s.proposals.rows.entries.argmin fun e => toLex (e.2.expirationTime, e.1)

def clearExpired (r : Rest σ ω) : (fuel : Nat) → ProposalChain σ ω → Except Exception (ProposalChain σ ω)
  | 0, _ => .error .diverges
  | fuel + 1, s =>
    match s.firstToExpire with
    | none => .ok s
    | some ⟨id, p⟩ =>
      if p.expirationTime ≤ s.headBlockTime then
        let removed := { s with proposals := s.proposals.remove id }
        if r.isAuthorizedToExecute s.headBlockTime p s.rest then
          match s.pushProposal r s.maxNesting id with
          | .ok s' => clearExpired r fuel s'
          | .error (.fc _) => clearExpired r fuel removed
          | .error e => .error e
        else clearExpired r fuel removed
      else .ok s

def clearExpiredProposals (r : Rest σ ω) (s : ProposalChain σ ω) : Except Exception (ProposalChain σ ω) :=
  s.clearExpired r (s.proposals.rows.entries.length + 1)

end ProposalChain

/-- What happens to the chain.  A block applies its transactions, sets the time together with whatever else it
does to other objects, and then removes the expired proposals. -/
inductive ProposalEvent (σ ω : Type) where
  | transaction (operations : List (Operation ω))
  | nextBlock (timestamp activeWitnesses : Nat) (rest : σ)
  | clearExpired

namespace ProposalChain

def step (r : Rest σ ω) (s : ProposalChain σ ω) :
    ProposalEvent σ ω → Except Exception (ProposalChain σ ω)
  | .transaction operations => do
    fcAssert (s.clearing = false) "the expired proposals have been removed"
    Lib.run (applyOperation r (pushProposal r s.maxNesting)) s operations
  | .nextBlock timestamp activeWitnesses rest => do
    fcAssert (s.clearing = false) "the expired proposals have been removed"
    fcAssert (s.headBlockTime < timestamp) "head_block_time() < next_block.timestamp"
    return { s with
      headBlockTime := timestamp
      activeWitnesses := activeWitnesses
      rest := rest
      clearing := true }
  | .clearExpired => do
    fcAssert (s.clearing = true) "a block has set the time"
    let s' ← s.clearExpiredProposals r
    return { s' with clearing := false }

def Initial (s : ProposalChain σ ω) : Prop :=
  s.proposals = ∅ ∧ s.clearing = false ∧ s.executed = []

end ProposalChain

end Meta1Core.Proposals
