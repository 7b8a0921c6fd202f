import Meta1Core.Db.Session
import Meta1Core.Proposals.Evaluators

/-!
# The execution of a proposal (`database::push_proposal`)

The operations of a proposal are applied in an undo session of their own, which is started even when
the undo history is disabled.

An evaluator is a tree of calls of the database, so that it cannot see more than the objects: how it
goes on depends on the objects after each call and on what the call has thrown.
-/

namespace Meta1Core.Proposals

open Db (IndexId Iteration ObjectDatabase ObjectId UndoDatabase UndoState UniqueKeys)

def hardfork483Time : Nat := 1450378800

inductive ChainObject (τ ω : Type) where
  | proposal (p : Proposal ω)
  | other (v : τ)

inductive Calls (V ω : Type) where
  | done
  | throw (message : String)
  | create (index : IndexId) (v : V) (next : ObjectDatabase V → Option Exception → Calls V ω)
  | modify (id : ObjectId) (v : V) (next : ObjectDatabase V → Option Exception → Calls V ω)
  | remove (id : ObjectId) (next : ObjectDatabase V → Option Exception → Calls V ω)
  /-- `push_applied_operation`, for a virtual operation -/
  | applied (op : ω) (next : Calls V ω)
  | pushProposal (id : ObjectId) (next : ObjectDatabase V → Option String → Calls V ω)

/-- An order of the loops for each time that an undo state is walked -/
structure Orders (V : Type) where
  order : Nat → UndoState V → Iteration V
  visits : ∀ n st, (order n st).Visits st

/-- The evaluators, and what they look up in the objects -/
structure Evaluators (τ ω : Type) where
  /-- `prepare_fee`, before `do_evaluate` -/
  prepareFee : Operation ω → ObjectDatabase (ChainObject τ ω) → Calls (ChainObject τ ω) (Operation ω)
  /-- `convert_fee` and `pay_fee`, before `do_apply` -/
  payFee : Operation ω → ObjectDatabase (ChainObject τ ω) → Calls (ChainObject τ ω) (Operation ω)
  /-- `db_adjust_balance` of the fee payer, after `do_apply` -/
  adjustBalance : Operation ω → ObjectDatabase (ChainObject τ ω) → Calls (ChainObject τ ω) (Operation ω)
  /-- the evaluators of the operations other than updates, with their fees -/
  evaluate : Operation ω → ObjectDatabase (ChainObject τ ω) → Calls (ChainObject τ ω) (Operation ω)
  isAuthorizedToExecute : ObjectDatabase (ChainObject τ ω) → Proposal ω → Bool
  headBlockTime : ObjectDatabase (ChainObject τ ω) → Nat
  /-- `active_witnesses.size()` -/
  activeWitnesses : ObjectDatabase (ChainObject τ ω) → Nat

/-- The parts of `database` that the execution moves; `walked` counts the undo states that have been
walked. -/
structure ChainDatabase (V ω : Type) where
  undo : UndoDatabase V
  appliedOps : List (Option ω) := []
  pushProposalNestingDepth : Nat := 0
  walked : Nat := 0

/-- `FC_CAPTURE_AND_RETHROW` makes an `fc::exception` of whatever is thrown. -/
def captured : Exception → String
  | .fc message => message
  | .std what => what
  | _ => "unhandled exception"

def proposalIndex : IndexId := ⟨1, 10⟩

/-- `proposal_update_evaluator::do_evaluate` -/
def evaluateUpdate {τ ω : Type} (c : Evaluators τ ω) (o : ProposalUpdate)
    (d : ObjectDatabase (ChainObject τ ω)) : Calls (ChainObject τ ω) (Operation ω) :=
  match d.objects.lookup ⟨proposalIndex, o.proposal⟩ with
  | some (.proposal p) =>
    match ProposalChain.checkUpdate (c.headBlockTime d) o p with
    | .error e => .throw (captured e)
    | .ok () => .done
  | _ => .throw "Unable to find Object"

/-- `proposal_update_evaluator::do_apply` -/
def applyUpdate {τ ω : Type} (c : Evaluators τ ω) (o : ProposalUpdate)
    (d : ObjectDatabase (ChainObject τ ω)) : Calls (ChainObject τ ω) (Operation ω) :=
  let id : ObjectId := ⟨proposalIndex, o.proposal⟩
  match d.objects.lookup id with
  | some (.proposal p) =>
    .modify id (.proposal (ProposalChain.updateApprovals o p)) fun d thrown =>
      match thrown with
      | some e => .throw (captured e)
      | none =>
        if p.reviewPeriodTime.isSome then .done
        else if c.isAuthorizedToExecute d (ProposalChain.updateApprovals o p) then
          -- All required approvals are satisfied. Execute!
          .pushProposal id fun d thrown =>
            match thrown with
            | none => .done
            | some e =>
              match d.objects.lookup id with
              | some (.proposal p) => .modify id (.proposal { p with failReason := e }) fun _ thrown =>
                match thrown with
                | some e => .throw (captured e)
                | none => .done
              | _ => .throw "Unable to find Object"
        else .done
  | _ => .throw "Unable to find Object"

/-- The steps of `evaluate` and `apply` of an evaluator -/
def steps {τ ω : Type} (c : Evaluators τ ω) :
    Operation ω → List (ObjectDatabase (ChainObject τ ω) → Calls (ChainObject τ ω) (Operation ω))
  | .update o => [c.prepareFee (.update o), evaluateUpdate c o, c.payFee (.update o), applyUpdate c o,
      c.adjustBalance (.update o)]
  | op => [c.evaluate op]

variable {V τ ω : Type}

namespace ChainDatabase

section

variable [UniqueKeys V]

/-- Make the calls of an evaluator.  `push` is `push_proposal`; an error is the end of the program. -/
def runCalls (push : ChainDatabase V ω → ObjectId → Except Exception (ChainDatabase V ω × Option String)) :
    Calls V ω → ChainDatabase V ω → Except Exception (ChainDatabase V ω × Option String)
  | .done, s => .ok (s, none)
  | .throw message, s => .ok (s, some message)
  | .create index v next, s =>
    let (undo, thrown) := s.undo.create index v
    runCalls push (next undo.db thrown) { s with undo := undo }
  | .modify id v next, s =>
    let (undo, thrown) := s.undo.modify id v
    runCalls push (next undo.db thrown) { s with undo := undo }
  | .remove id next, s =>
    let (undo, thrown) := s.undo.remove id
    runCalls push (next undo.db thrown) { s with undo := undo }
  | .applied op next, s => runCalls push next { s with appliedOps := s.appliedOps ++ [some op] }
  | .pushProposal id next, s =>
    match push s id with
    | .ok (s', thrown) => runCalls push (next s'.undo.db thrown) s'
    | .error e => .error e

/-- Make the calls of one step after the other, up to the first that throws. -/
def runSteps (push : ChainDatabase V ω → ObjectId → Except Exception (ChainDatabase V ω × Option String)) :
    List (ObjectDatabase V → Calls V ω) → ChainDatabase V ω →
      Except Exception (ChainDatabase V ω × Option String)
  | [], s => .ok (s, none)
  | calls :: rest, s =>
    match runCalls push (calls s.undo.db) s with
    | .ok (s, none) => runSteps push rest s
    | x => x

def nextOrder (orders : Orders V) (s : ChainDatabase V ω) : Iteration V :=
  orders.order s.walked (s.undo.stack.headD {})

/-- The destructor of a session that has not been merged; it ends the program if `undo` throws. -/
def undoSession (orders : Orders V) (s : ChainDatabase V ω) : Except Exception (ChainDatabase V ω) :=
  match s.undo.undo (s.nextOrder orders) with
  | .ok undo => .ok { s with undo := undo, walked := s.walked + 1 }
  | .error _ => .error (.abort "std::terminate()")

def endSession (orders : Orders V) (s : ChainDatabase V ω) (thrown : Option String) :
    Except Exception (ChainDatabase V ω × Option String) :=
  match thrown with
  | none =>
    match s.undo.merge (s.nextOrder orders) with
    | .ok undo => .ok ({ s with undo := undo, walked := s.walked + 1 }, none)
    | .error (.fc message) => (·, some message) <$> s.undoSession orders
    | .error e => .error e
  | some message => (·, some message) <$> s.undoSession orders

/-- A session that is started even when the history is disabled, with room for its undo state -/
def startSession (s : ChainDatabase V ω) : ChainDatabase V ω :=
  { s with undo :=
      (if s.undo.maxSize ≤ s.undo.stack.length then s.undo.setMaxSize (s.undo.stack.length + 1)
        else s.undo).forceUndoSession }

def disableOnExit (disabled : Bool) (s : ChainDatabase V ω) : ChainDatabase V ω :=
  if disabled then { s with undo := { s.undo with disabled := true } } else s

end

section

variable [UniqueKeys (ChainObject τ ω)]

def applyOperation (c : Evaluators τ ω)
    (push : ChainDatabase (ChainObject τ ω) (Operation ω) → ObjectId →
      Except Exception (ChainDatabase (ChainObject τ ω) (Operation ω) × Option String))
    (s : ChainDatabase (ChainObject τ ω) (Operation ω)) (op : Operation ω) :
    Except Exception (ChainDatabase (ChainObject τ ω) (Operation ω) × Option String) :=
  runSteps push (steps c op) { s with appliedOps := s.appliedOps ++ [some op] }

/-- The loop over the operations, which ends with the first exception -/
def applyOperations (c : Evaluators τ ω)
    (push : ChainDatabase (ChainObject τ ω) (Operation ω) → ObjectId →
      Except Exception (ChainDatabase (ChainObject τ ω) (Operation ω) × Option String)) :
    List (Operation ω) → ChainDatabase (ChainObject τ ω) (Operation ω) →
      Except Exception (ChainDatabase (ChainObject τ ω) (Operation ω) × Option String)
  | [], s => .ok (s, none)
  | op :: ops, s =>
    match applyOperation c push s op with
    | .ok (s, none) => applyOperations c push ops s
    | x => x

def execute (c : Evaluators τ ω)
    (push : ChainDatabase (ChainObject τ ω) (Operation ω) → ObjectId →
      Except Exception (ChainDatabase (ChainObject τ ω) (Operation ω) × Option String))
    (id : ObjectId) (ops : List (Operation ω)) (s : ChainDatabase (ChainObject τ ω) (Operation ω)) :
    Except Exception (ChainDatabase (ChainObject τ ω) (Operation ω) × Option String) :=
  match applyOperations c push ops s with
  | .ok (s, none) =>
    -- the reference to the proposal dangles if the operations have removed it
    if (s.undo.db.objects.lookup id).isNone then .error .undefined
    else
      let (undo, thrown) := s.undo.remove id
      .ok ({ s with undo := undo }, thrown.map captured)
  | x => x

/-- What the handler of an exception does to the operations that have been applied since -/
def takeBack (c : Evaluators τ ω) (oldAppliedOpsSize : Nat)
    (s : ChainDatabase (ChainObject τ ω) (Operation ω)) :
    ChainDatabase (ChainObject τ ω) (Operation ω) :=
  if c.headBlockTime s.undo.db ≤ hardfork483Time then
    { s with appliedOps := s.appliedOps.take oldAppliedOpsSize ++
        (s.appliedOps.drop oldAppliedOpsSize).map fun _ => none }
  else { s with appliedOps := s.appliedOps.take oldAppliedOpsSize }

/-- `push_proposal`; the fuel bounds how deep proposals are nested. -/
def pushProposal (c : Evaluators τ ω) (orders : Orders (ChainObject τ ω)) : (fuel : Nat) →
    ChainDatabase (ChainObject τ ω) (Operation ω) → ObjectId →
      Except Exception (ChainDatabase (ChainObject τ ω) (Operation ω) × Option String)
  | 0, _, _ => .error .diverges
  | fuel + 1, s, id =>
    match s.undo.db.objects.lookup id with
    | some (.proposal p) =>
      if s.pushProposalNestingDepth < c.activeWitnesses s.undo.db * 2 then do
        let inner := { s with pushProposalNestingDepth := s.pushProposalNestingDepth + 1 }
        let (s', thrown) ← execute c (pushProposal c orders fuel) id p.operations inner.startSession
        let (s', thrown) ← s'.endSession orders thrown
        let s' := { s'.disableOnExit s.undo.disabled with
          pushProposalNestingDepth := s'.pushProposalNestingDepth - 1 }
        match thrown with
        | none => .ok (s', none)
        | some message => .ok (s'.takeBack c s.appliedOps.length, some message)
      else .ok (s.takeBack c s.appliedOps.length, some "Max proposal nesting depth exceeded!")
    | _ => .error .undefined

end

end ChainDatabase

end Meta1Core.Proposals
