import Meta1Core.Blocks.PushBlock
import Meta1Core.Transactions.Duplicates

/-!
# Pending transactions (`db_block.cpp`, `db_with.hpp`)

Pending transactions are applied in an undo session on top of the head block.  A push of a block
takes them away, and puts them back when it returns or throws, after those of the blocks that it
popped.
-/

namespace Meta1Core.Pending

open Blocks (ChainLogic ForkItem)
open Transactions (ChainRules Checkpoints Skip State View applyBlock applyTransaction of_applyBlock of_applyBlockWith unlessSkipped)

structure Processed (Trx Result : Type) where
  trx : Trx
  results : List Result
  deriving DecidableEq

variable {σ Id Block TrxId Trx : Type} [DecidableEq Id] [DecidableEq TrxId]

/-- What pending transactions and the production of blocks need besides the rules of the chain -/
structure Rules (R : ChainRules σ Id Block TrxId Trx) (Result Key : Type) where
  checkpoints : Checkpoints Id
  operationResults : Skip → View σ Id → Trx → List Result
  /-- `fc::raw::pack_size` of a transaction, without and with the results of its operations -/
  packSize : Trx → Nat
  packSizeProcessed : Processed Trx Result → Nat
  /-- `max_block_header_size`, from the witness -/
  maxBlockHeaderSize : Nat → Nat
  maximumBlockSize : σ → Nat
  slotAtTime : View σ Id → Nat → Nat
  scheduledWitness : View σ Id → Nat → Nat
  /-- `witness_id(*this).signing_key == block_signing_private_key.get_public_key()` -/
  isSigningKey : View σ Id → Nat → Key → Bool
  /-- A block of these parts, signed if there is a key -/
  assemble : Id → Nat → Nat → List (Processed Trx Result) → Option Key → Block
  /-- What `update_global_dynamic_data` passes to `_fork_db.set_max_size`, if the block gets there -/
  forkWindow : Skip → State R → Block → Option Nat
  /-- `_undo_db.max_size()` after a block, from its `size()` and its `max_size()` before -/
  undoWindow : Skip → State R → Block → Nat → Nat → Nat
  /-- The same after a transaction, whose proposals may raise it -/
  proposalWindow : Skip → State R → Trx → Nat → Nat → Nat
  forkWindow_of_apply : ∀ skip s b s', applyBlock R checkpoints skip s b = .ok s' →
    forkWindow skip s b ≠ none
  /-- `head_block_number - last_irreversible_block_num + 1` -/
  forkWindow_pos : ∀ skip s b size, forkWindow skip s b = some size → 0 < size
  le_undoWindow : ∀ skip s b size n m, forkWindow skip s b = some size →
    size ≤ undoWindow skip s b n m

variable {R : ChainRules σ Id Block TrxId Trx} {Result Key : Type}

theorem headId_of_applyBlock {c : Checkpoints Id} {skip : Skip} {s s' : State R} {b : Block}
    (h : applyBlock R c skip s b = .ok s') :
    R.previous b = s.view.headId ∧ s'.view.headId = R.id b ∧ s'.view.headNum = R.blockNum b := by
  obtain ⟨skip', happly, -, -⟩ := of_applyBlock h
  have happlied := of_applyBlockWith happly
  refine ⟨happlied.previous.symm, ?_, happlied.headNum⟩
  obtain ⟨_, -, happly⟩ := Lib.of_bind happly
  obtain ⟨-, happly⟩ := of_fcAssert happly
  obtain ⟨-, happly⟩ := of_fcAssert happly
  obtain ⟨_, -, happly⟩ := Lib.of_bind happly
  obtain ⟨_, -, happly⟩ := Lib.of_bind happly
  cases happly
  rfl

theorem toOption_eq_some {α : Type} {x : Except Exception α} {a : α} :
    x.toOption = some a ↔ x = .ok a := by
  cases x with
  | error e => simp [Except.toOption]
  | ok b => simp [Except.toOption]

/-- The blocks of the chain, under the flags of a call -/
def Rules.logic (L : Rules R Result Key) (skip : Skip) : ChainLogic (State R) Id Block where
  toBlockIds := R.toBlockIds
  genesis := .genesis R
  headId s := s.view.headId
  headNum s := s.view.headNum
  apply s b := (applyBlock R L.checkpoints skip s b).toOption
  forkWindow := L.forkWindow skip
  undoWindow := L.undoWindow skip
  headId_genesis := rfl
  headNum_genesis := rfl
  previous_of_apply _ _ _ h := (headId_of_applyBlock (toOption_eq_some.mp h)).1
  headId_of_apply _ _ _ h := (headId_of_applyBlock (toOption_eq_some.mp h)).2.1
  headNum_of_apply _ b _ h :=
    (headId_of_applyBlock (toOption_eq_some.mp h)).2.2.trans (R.numFromId_id b).symm
  forkWindow_of_apply s b s' h := L.forkWindow_of_apply skip s b s' (toOption_eq_some.mp h)
  forkWindow_pos := L.forkWindow_pos skip
  le_undoWindow := L.le_undoWindow skip

section

variable {L : Rules R Result Key} {skip : Skip}

@[simp] theorem logic_toBlockIds : (L.logic skip).toBlockIds = R.toBlockIds := rfl

@[simp] theorem logic_headId (s : State R) : (L.logic skip).headId s = s.view.headId := rfl

@[simp] theorem logic_headNum (s : State R) : (L.logic skip).headNum s = s.view.headNum := rfl

end

/-- The parts of `database` that blocks and pending transactions move; `session` is the object state
of `_pending_tx_session`. -/
structure Db (R : ChainRules σ Id Block TrxId Trx) (Result : Type) where
  node : Blocks.Node (State R) Block
  pending : List (Processed Trx Result) := []
  popped : List Trx := []
  session : Option (State R) := none

namespace Db

def visible (s : Db R Result) : State R := s.session.getD s.node.state

variable (L : Rules R Result Key) (skip : Skip)

def start : Db R Result := { node := .start (L.logic {}) }

/-- `start_undo_session` on top of the sessions that are open, which drops the oldest states -/
def startSession (s : Db R Result) (sessions : Nat) : Db R Result :=
  { s with node := { s.node with undo := s.node.undo.take (s.node.undoMax - sessions) } }

/-- Start `_pending_tx_session` if it is not valid. -/
def openPending (s : Db R Result) : Db R Result :=
  if s.session.isSome then s else { s.startSession 0 with session := some s.node.state }

/-- `_apply_transaction` in a session on top of `_pending_tx_session` -/
def tryTransaction (s : Db R Result) (trx : Trx) :
    Db R Result × Except Exception (Processed Trx Result × State R) :=
  let s := s.startSession 1
  let undoMax := L.proposalWindow skip s.visible trx (s.node.undo.length + 2) s.node.undoMax
  let processed : Processed Trx Result := ⟨trx, L.operationResults skip s.visible.view trx⟩
  ({ s with node := { s.node with undoMax } },
    (applyTransaction R skip s.visible trx).map fun state => (processed, state))

def pushTransactionWith (s : Db R Result) (trx : Trx) :
    Db R Result × Except Exception (Processed Trx Result) :=
  match s.openPending.tryTransaction L skip trx with
  | (s, .ok (processed, state)) =>
    -- merge the temporary session
    ({ s with pending := s.pending ++ [processed], session := some state }, .ok processed)
  | (s, .error e) => (s, .error e)

def pushTransaction (s : Db R Result) (trx : Trx) :
    Db R Result × Except Exception (Processed Trx Result) :=
  match fcAssert (L.packSize trx < 1024 * 1024) "Transaction exceeds maximum transaction size." with
  | .ok () => s.pushTransactionWith L skip trx
  | .error e => (s, .error e)

/-! ## Blocks -/

/-- `apply_block` and `_block_id_to_block.store` in a session of their own -/
def applyBlock (s : Db R Result) (b : Block) : Db R Result × Bool :=
  let (node, applied) := s.node.applyBlock (L.logic skip) b
  ({ s with node }, applied)

def headItem (s : Db R Result) : Option (ForkItem Block) :=
  match s.node.fork.head with
  | none => none
  | some head =>
    if R.id head.data = s.node.state.view.headId then some head
    else s.node.fork.fetchBlock R.toBlockIds s.node.state.view.headId

def popBlock (held : List (ForkItem Block)) (s : Db R Result) : Db R Result × Option Exception :=
  let transactions := s.headItem.elim [] fun item => R.transactions item.data
  match s.node.popBlock (L.logic skip) held with
  | (node, none) =>
    ({ s with node, session := none, popped := transactions ++ s.popped }, none)
  | (node, some e) => ({ s with node, session := none }, some e)

def popUntil (held : List (ForkItem Block)) (target : Id) :
    Nat → Db R Result → Db R Result × Option Exception
  | 0, s => (s, some .diverges)
  | fuel + 1, s =>
    if s.node.state.view.headId ≠ target then
      match s.popBlock L skip held with
      | (s, none) => popUntil held target fuel s
      | (s, some e) => (s, some e)
    else (s, none)

def restoreBranch : List (ForkItem Block) → Db R Result → Db R Result × Option Exception
  | [], s => (s, none)
  | item :: rest, s =>
    match s.applyBlock L skip item.data with
    | (s, true) => restoreBranch rest s
    | (s, false) => (s, some (.fc "apply_block"))

/-- What `_push_block` does when a block of the new fork does not apply -/
def switchBack (firsts seconds invalid : List (ForkItem Block)) (front : ForkItem Block) (target : Id)
    (s : Db R Result) : Db R Result × Exception :=
  let held := firsts ++ seconds
  let removed :=
    invalid.foldl (fun f item => f.remove R.toBlockIds held (R.id item.data)) s.node.fork
  let s := { s with node := { s.node with fork := removed.setHead front } }
  match s.popUntil L skip held target (s.node.undo.length + 1) with
  | (s, some e) => (s, e)
  | (s, none) =>
    match s.restoreBranch L skip seconds.reverse with
    | (s, some e) => (s, e)
    | (s, none) => (s, .fc "apply_block")

def pushBranch (firsts seconds : List (ForkItem Block)) (front : ForkItem Block) (target : Id) :
    List (ForkItem Block) → Db R Result → Db R Result × Except Exception Bool
  | [], s => (s, .ok true)
  | item :: rest, s =>
    match s.applyBlock L skip item.data with
    | (s, true) => pushBranch firsts seconds front target rest s
    | (s, false) =>
      let (s, e) := s.switchBack L skip firsts seconds (item :: rest) front target
      (s, .error e)

def switchForks (s : Db R Result) (newHead : ForkItem Block) :
    Db R Result × Except Exception Bool :=
  match s.node.fork.fetchBranchFrom R.toBlockIds (R.id newHead.data) s.node.state.view.headId with
  | .error e => (s, .error e)
  | .ok (firsts, seconds) =>
    match seconds.head?, seconds.getLast? with
    | some front, some back =>
      let target := R.previous back.data
      match s.popUntil L skip (firsts ++ seconds) target (s.node.undo.length + 1) with
      | (s, some e) => (s, .error e)
      | (s, none) => s.pushBranch L skip firsts seconds front target firsts.reverse
    | _, _ => (s, .error .undefined)

def pushBlockWith (s : Db R Result) (b : Block) : Db R Result × Except Exception Bool :=
  match s.node.fork.pushBlock R.toBlockIds b with
  | .error e => (s, .error e)
  | .ok (fork, newHead) =>
    let s := { s with node := { s.node with fork } }
    if R.previous newHead.data ≠ s.node.state.view.headId then
      if s.node.state.view.headNum < R.blockNum newHead.data then s.switchForks L skip newHead
      else (s, .ok false)
    else
      match s.applyBlock L skip b with
      | (s, true) => (s, .ok false)
      | (s, false) =>
        ({ s with node := { s.node with fork := s.node.fork.remove R.toBlockIds [] (R.id b) } },
          .error (.fc "apply_block"))

/-- A transaction that is not known is pushed again, and ignored if it is invalid. -/
def restoreTransaction (s : Db R Result) (trx : Trx) : Db R Result :=
  if s.visible.knows (R.trxId trx) then s else (s.pushTransactionWith L skip trx).1

def restorePending (s : Db R Result) (pending : List (Processed Trx Result)) : Db R Result :=
  let s := { s.popped.foldl (restoreTransaction L skip) s with popped := [] }
  (pending.map Processed.trx).foldl (restoreTransaction L skip) s

/-- `push_block`; `clear_pending` finds `_pending_tx` moved out already. -/
def pushBlock (s : Db R Result) (b : Block) : Db R Result × Except Exception Bool :=
  let (s', result) := ({ s with pending := [], session := none } : Db R Result).pushBlockWith L skip b
  (s'.restorePending L skip s.pending, result)

/-! ## `_generate_block` -/

def checkSlot (v : View σ Id) (time witness : Nat) : Except Exception Unit := do
  fcAssert (0 < L.slotAtTime v time) "slot_num > 0"
  fcAssert (L.scheduledWitness v (L.slotAtTime v time) = witness) "scheduled_witness == witness_id"

def checkSigningKey (v : View σ Id) (witness : Nat) (key : Key) : Except Exception Unit :=
  unlessSkipped skip.witnessSignature (fcAssert (L.isSigningKey v witness key = true)
    "witness_id(*this).signing_key == block_signing_private_key.get_public_key()")

/-- The loop over the pending transactions: those that would make the block too big are postponed,
and those that do not apply any more are left out. -/
def selectTransactions (maximum : Nat) :
    Nat → List (Processed Trx Result) → Db R Result → Db R Result × List (Processed Trx Result)
  | _, [], s => (s, [])
  | total, tx :: rest, s =>
    if maximum < total + L.packSizeProcessed tx then selectTransactions maximum total rest s
    else
      match s.tryTransaction L skip tx.trx with
      | (s, .error _) => selectTransactions maximum total rest s
      | (s, .ok (processed, state)) =>
        -- the results may be larger than before
        let size := total + L.packSizeProcessed processed
        if maximum < size then selectTransactions maximum total rest s
        else
          let (s, chosen) := selectTransactions maximum size rest { s with session := some state }
          (s, processed :: chosen)

def assembleBlock (s : Db R Result) (time witness : Nat) (key : Key) : Db R Result × Block :=
  let head := s.node.state
  let s := { s.startSession 0 with session := some head }
  let (s, chosen) := s.selectTransactions L skip (L.maximumBlockSize head.view.objects)
    (L.maxBlockHeaderSize witness) s.pending
  ({ s with session := none },
    L.assemble head.view.headId time witness chosen
      (if skip.witnessSignature then none else some key))

def generateBlock (s : Db R Result) (time witness : Nat) (key : Key) :
    Db R Result × Except Exception Block :=
  match checkSlot L s.visible.view time witness with
  | .error e => (s, .error e)
  | .ok () =>
    -- reset to head block state
    let s := { s with session := none }
    match checkSigningKey L skip s.node.state.view witness key with
    | .error e => (s, .error e)
    | .ok () =>
      let (s, b) := s.assembleBlock L skip time witness key
      -- skip authority check when pushing self-generated blocks
      match s.pushBlock L { skip with transactionSignatures := true } b with
      | (s, .ok _) => (s, .ok b)
      | (s, .error e) => (s, .error e)

end Db

/-- The calls that clients, peers and the witness plugin make -/
inductive Event (Block Trx Key : Type) where
  | pushTransaction (trx : Trx) (skip : Skip)
  | pushBlock (b : Block) (skip : Skip)
  | generateBlock (time witness : Nat) (key : Key) (skip : Skip)

/-- A call that throws leaves the database that it left behind. -/
def step (L : Rules R Result Key) (s : Db R Result) :
    Event Block Trx Key → Except Exception (Db R Result)
  | .pushTransaction trx skip => .ok (s.pushTransaction L skip trx).1
  | .pushBlock b skip => .ok (s.pushBlock L skip b).1
  | .generateBlock time witness key skip => .ok (s.generateBlock L skip time witness key).1

end Meta1Core.Pending
