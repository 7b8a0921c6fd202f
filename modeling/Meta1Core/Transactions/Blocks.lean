import Meta1Core.Allocation.Time
import Meta1Core.Blocks.ForkDatabase
import Meta1Core.Lib.Expiring

/-!
# Transactions in blocks (`db_block.cpp`, `db_update.cpp`, `db_management.cpp`)

Blocks up to the last checkpoint are applied without most checks, and a reindex skips the check for
duplicates until the blocks are recent enough; what is applied so is not recorded either.
-/

namespace Meta1Core.Transactions

open Allocation (u32 u32Sub)
open Blocks (BlockIds)
open Lib (Expiring)

structure Skip where
  witnessSignature : Bool := false
  transactionSignatures : Bool := false
  transactionDupeCheck : Bool := false
  blockSizeCheck : Bool := false
  taposCheck : Bool := false
  merkleCheck : Bool := false
  assertEvaluation : Bool := false
  undoHistoryCheck : Bool := false
  witnessScheduleCheck : Bool := false
  deriving DecidableEq

def Skip.everything : Skip := ⟨true, true, true, true, true, true, true, true, true⟩

/-- The object database apart from the transaction index.  What only the API reads, such as
`recently_missed_count`, is left out. -/
structure View (σ Id : Type) where
  objects : σ
  headNum : Nat
  headTime : Nat
  headId : Id

/-- What blocks and transactions hold, and what is done with them besides the check for duplicates -/
structure ChainRules (σ Id Block TrxId Trx : Type) extends BlockIds Id Block where
  genesis : σ
  genesisTime : Nat
  timestamp : Block → Nat
  transactions : Block → List Trx
  trxId : Trx → TrxId
  expiration : Trx → Nat
  /-- `transaction::validate` -/
  validate : Trx → Except Exception Unit
  verifyAuthority : View σ Id → Trx → Except Exception Unit
  /-- `trx.ref_block_prefix == tapos_block_summary.block_id._hash[1].value()` -/
  matchesReference : View σ Id → Trx → Bool
  /-- `trx.get_packed_size() <= chain_parameters.maximum_transaction_size` -/
  fitsSize : View σ Id → Trx → Bool
  maximumTimeUntilExpiration : σ → Nat
  applyOperations : Skip → View σ Id → Trx → Except Exception σ
  /-- The size of a block, its merkle root and its witness -/
  checkBlock : Skip → View σ Id → Block → Except Exception Unit
  /-- What `_apply_block` does after the transactions, from `update_witness_missed_blocks` on -/
  finish : Skip → View σ Id → Block → Except Exception σ
  timestamp_lt : ∀ b, timestamp b < 2 ^ 32
  /-- The id is a hash of the transaction, the signatures apart. -/
  expiration_eq_of_trxId_eq : ∀ t t', trxId t = trxId t' → expiration t = expiration t'
  /-- The parameters change at maintenance only. -/
  maximum_of_applyOperations : ∀ skip v t x, applyOperations skip v t = .ok x →
    maximumTimeUntilExpiration x = maximumTimeUntilExpiration v.objects
  /-- The flags skip checks, and nothing else. -/
  applyOperations_unique : ∀ skip skip' v t x x', applyOperations skip v t = .ok x →
    applyOperations skip' v t = .ok x' → x = x'
  finish_unique : ∀ skip skip' v b x x', finish skip v b = .ok x → finish skip' v b = .ok x' → x = x'

variable {σ Id Block TrxId Trx : Type}

/-- The object database: `recorded` is the transaction index, in the order `by_expiration`. -/
structure State (R : ChainRules σ Id Block TrxId Trx) where
  view : View σ Id
  recorded : Expiring R.expiration

section Rules

variable (R : ChainRules σ Id Block TrxId Trx)

def State.genesis : State R := ⟨⟨R.genesis, 0, R.genesisTime, R.zero⟩, ∅⟩

variable [DecidableEq Id] [DecidableEq TrxId]

/-- `is_known_transaction` -/
def State.knows {R : ChainRules σ Id Block TrxId Trx} (s : State R) (id : TrxId) : Prop :=
  ∃ t ∈ s.recorded.rows, R.trxId t = id

instance {R : ChainRules σ Id Block TrxId Trx} (s : State R) (id : TrxId) :
    Decidable (s.knows id) :=
  inferInstanceAs (Decidable (∃ t ∈ s.recorded.rows, _))

def unlessSkipped (skipped : Bool) (check : Except Exception Unit) : Except Exception Unit :=
  if skipped then .ok () else check

/-- The checks of TaPoS, of the expiration and of the size.  Expirations are `uint32_t`. -/
def checkReference (skip : Skip) (v : View σ Id) (trx : Trx) : Except Exception Unit := do
  unlessSkipped skip.taposCheck
    (fcAssert (R.matchesReference v trx = true)
      "trx.ref_block_prefix == tapos_block_summary.block_id._hash[1].value()")
  fcAssert (R.expiration trx ≤ u32 (v.headTime + R.maximumTimeUntilExpiration v.objects))
    "trx.expiration <= now + chain_parameters.maximum_time_until_expiration"
  fcAssert (v.headTime ≤ R.expiration trx) "now <= trx.expiration"
  unlessSkipped skip.blockSizeCheck
    (fcAssert (R.fitsSize v trx = true) "Transaction exceeds maximum transaction size.")

/-- Insert a transaction into the unique transactions database. -/
def State.record {R : ChainRules σ Id Block TrxId Trx} (s : State R) (skip : Skip) (trx : Trx) :
    Expiring R.expiration :=
  if skip.transactionDupeCheck then s.recorded else s.recorded.insert trx

def applyTransaction (skip : Skip) (s : State R) (trx : Trx) : Except Exception (State R) := do
  R.validate trx
  unlessSkipped skip.transactionDupeCheck
    (fcAssert (¬s.knows (R.trxId trx)) "Transaction is already in the database")
  unlessSkipped skip.transactionSignatures (R.verifyAuthority s.view trx)
  -- skip all manner of expiration and TaPoS checking if we're on block 1
  unlessSkipped (s.view.headNum = 0) (checkReference R skip s.view trx)
  let objects ← R.applyOperations skip s.view trx
  return ⟨{ s.view with objects }, s.record skip trx⟩

def applyTransactions (skip : Skip) : State R → List Trx → Except Exception (State R)
  | s, [] => .ok s
  | s, trx :: rest => do
    let s ← applyTransaction R skip s trx
    applyTransactions skip s rest

def applyBlockWith (skip : Skip) (s : State R) (b : Block) : Except Exception (State R) := do
  R.checkBlock skip s.view b
  fcAssert (s.view.headId = R.previous b) "head_block_id() == next_block.previous"
  fcAssert (s.view.headTime < R.timestamp b) "head_block_time() < next_block.timestamp"
  let s ← applyTransactions R skip s (R.transactions b)
  let objects ← R.finish skip s.view b
  return ⟨⟨objects, R.blockNum b, R.timestamp b, R.id b⟩, s.recorded.clear (R.timestamp b)⟩

structure Checkpoints (Id : Type) where
  entries : List (Nat × Id)
  sorted : entries.Pairwise fun e e' => e.1 < e'.1

def Checkpoints.none : Checkpoints Id := ⟨[], List.Pairwise.nil⟩

/-- A block up to the last checkpoint, for which almost everything is skipped -/
def Checkpoints.Covers (c : Checkpoints Id) (b : Block) : Prop :=
  ∃ last ∈ c.entries.getLast?, last.2 ≠ R.zero ∧ R.blockNum b ≤ last.1

instance (c : Checkpoints Id) (b : Block) : Decidable (c.Covers R b) :=
  inferInstanceAs (Decidable (∃ last ∈ c.entries.getLast?, _))

def checkpointSkip (c : Checkpoints Id) (skip : Skip) (b : Block) : Except Exception Skip :=
  match c.entries.getLast? with
  | .none => .ok skip
  | some last =>
    if last.2 ≠ R.zero then do
      fcAssert (∀ id ∈ c.entries.lookup (R.blockNum b), R.id b = id)
        "Block did not match checkpoint"
      return if R.blockNum b ≤ last.1 then Skip.everything else skip
    else .ok skip

def applyBlock (c : Checkpoints Id) (skip : Skip) (s : State R) (b : Block) :
    Except Exception (State R) := do
  let skip ← checkpointSkip R c skip b
  applyBlockWith R skip s b

/-- The variables of `reindex`.  A block in the queue is kept together with the
`maximum_time_until_expiration` that it was compared with when it was loaded. -/
structure Replay (Block : Type) where
  disk : Nat → Option Block
  last : Block
  nextNum : Nat
  skip : Skip
  queue : List (Block × Nat) := []

def Replay.Loads (r : Replay Block) : Prop :=
  r.nextNum ≤ R.blockNum r.last ∧ r.queue.length < 20

instance (r : Replay Block) : Decidable (r.Loads R) := inferInstanceAs (Decidable (_ ∧ _))

/-- `chain` are the blocks that led to the state, the newest first; `replayedUntil` is how far a
reindex that skipped the check for duplicates had to get. -/
structure Node (R : ChainRules σ Id Block TrxId Trx) where
  state : State R
  chain : List Block := []
  undo : List (State R × List Block) := []
  replay : Option (Replay Block) := .none
  replayedUntil : Nat := 0

def Node.start : Node R := { state := .genesis R }

def Node.apply {R : ChainRules σ Id Block TrxId Trx} (n : Node R) (c : Checkpoints Id) (skip : Skip)
    (b : Block) : Except Exception (Node R) := do
  let state ← applyBlock R c skip n.state b
  return { n with state, chain := b :: n.chain, undo := (n.state, n.chain) :: n.undo }

def Replay.load {R : ChainRules σ Id Block TrxId Trx} (r : Replay Block) (s : State R) :
    Replay Block :=
  match r.disk r.nextNum with
  | some b =>
    let maximum := R.maximumTimeUntilExpiration s.view.objects
    let recent : Bool := u32Sub (R.timestamp r.last) maximum ≤ R.timestamp b
    { r with
      nextNum := r.nextNum + 1
      skip := if recent then { r.skip with transactionDupeCheck := false } else r.skip
      queue := r.queue ++ [(b, maximum)] }
  -- a gap: don't load more blocks
  | .none => { r with nextNum := R.blockNum r.last + 1 }

def Node.replayTurn {R : ChainRules σ Id Block TrxId Trx} (n : Node R) (c : Checkpoints Id)
    (r : Replay Block) : Except Exception (Node R) :=
  if r.Loads R then .ok { n with replay := some (r.load n.state) }
  else
    match r.queue with
    | q :: queue => do
      let n ← n.apply c r.skip q.1
      return { n with replay := some { r with queue } }
    | [] => .ok { n with replay := .none }

/-- The first lines of `reindex`; the undo history is empty when a node starts. -/
def Node.startReindex {R : ChainRules σ Id Block TrxId Trx} (n : Node R) (disk : Nat → Option Block)
    (last : Block) (skip : Skip) : Node R :=
  if R.blockNum last ≤ n.state.view.headNum then n
  else
    { n with
      undo := []
      replay := some { disk, last, nextNum := n.state.view.headNum + 1, skip }
      replayedUntil :=
        if skip.transactionDupeCheck then max n.replayedUntil (R.timestamp last)
        else n.replayedUntil }

/-- What happens to a node; another fork is switched to by popping and pushing blocks. -/
inductive Event (Block : Type) where
  | pushBlock (b : Block) (skip : Skip)
  | popBlock
  | wipe
  | reindex (disk : Nat → Option Block) (last : Block) (skip : Skip)
  | replayTurn

def step (c : Checkpoints Id) (n : Node R) : Event Block → Except Exception (Node R)
  | .pushBlock b skip => do
    fcAssert (n.replay.isNone = true) "_opened"
    n.apply c skip b
  | .popBlock => do
    fcAssert (n.replay.isNone = true) "_opened"
    match n.undo with
    | (state, chain) :: undo => .ok { n with state, chain, undo }
    | [] => .error (.fc "!_stack.empty()")
  | .wipe => do
    fcAssert (n.replay.isNone = true) "_opened"
    return .start R
  | .reindex disk last skip => do
    fcAssert (n.replay.isNone = true) "_opened"
    return n.startReindex disk last skip
  | .replayTurn =>
    match n.replay with
    | some r => n.replayTurn c r
    | .none => .error (.fc "_opened")

end Rules

end Meta1Core.Transactions
