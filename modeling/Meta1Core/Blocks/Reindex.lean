import Meta1Core.Allocation.Time
import Meta1Core.Blocks.Replay

/-!
# Reindexing (`database::reindex`)

A node that starts applies the blocks on disk that its object state does not have yet.  Blocks that
may still be undone are pushed, which also stores them again, older ones are only applied.
-/

namespace Meta1Core.Blocks

variable {σ Id Block : Type}

/-- `apply_block` with `skip_transaction_dupe_check` and without it -/
structure ReindexLogic (σ Id Block : Type) extends ChainLogic σ Id Block where
  applySkipping : σ → Block → Option σ
  previous_of_applySkipping : ∀ s b s', applySkipping s b = some s' → previous b = headId s
  headId_of_applySkipping : ∀ s b s', applySkipping s b = some s' → headId s' = id b
  headNum_of_applySkipping :
    ∀ s b s', applySkipping s b = some s' → headNum s' = numFromId (id b)
  forkWindow_of_applySkipping : ∀ s b s', applySkipping s b = some s' → forkWindow s b ≠ none
  timestamp : Block → Nat
  /-- of the global properties -/
  maximumTimeUntilExpiration : σ → Nat
  /-- `head_block_number` is the number in `head_block_id`. -/
  headNum_eq : ∀ s, headNum s = numFromId (headId s)

/-- `apply_block` under a setting of `skip_transaction_dupe_check` -/
def ReindexLogic.skipping (L : ReindexLogic σ Id Block) (skip : Bool) : ChainLogic σ Id Block :=
  { L.toChainLogic with
    apply := if skip then L.applySkipping else L.apply
    previous_of_apply := by
      cases skip with
      | true => exact L.previous_of_applySkipping
      | false => exact L.previous_of_apply
    headId_of_apply := by
      cases skip with
      | true => exact L.headId_of_applySkipping
      | false => exact L.headId_of_apply
    headNum_of_apply := by
      cases skip with
      | true => exact L.headNum_of_applySkipping
      | false => exact L.headNum_of_apply
    forkWindow_of_apply := by
      cases skip with
      | true => exact L.forkWindow_of_applySkipping
      | false => exact L.forkWindow_of_apply }

/-- `block_database`: the numbers of the entries, from the end of the index file on, and the blocks
that can be read back -/
structure BlockDatabase (P : BlockIds Id Block) where
  numbers : List Nat
  block : Nat → Option Block
  descending : numbers.Pairwise (· > ·)
  mem_numbers : ∀ n b, block n = some b → n ∈ numbers
  blockNum_eq : ∀ n b, block n = some b → P.blockNum b = n

def lastBlock (block : Nat → Option Block) : List Nat → Option (Nat × Block)
  | [] => none
  | n :: numbers =>
    match block n with
    | some b => some (n, b)
    | none => lastBlock block numbers

/-- Remove the blocks from the last one on, until they are not above the given number. -/
def dropAbove (i : Nat) : List Nat → (Nat → Option Block) → Nat → Option Block
  | [], block => block
  | n :: numbers, block =>
    match block n with
    | none => dropAbove i numbers block
    | some _ => if n ≤ i then block else dropAbove i numbers (Function.update block n none)

/-! ## The loop -/

def maxUndoHistory : Nat := 10000

/-- The local variables of the loop; `skip` is the bit of `skip_transaction_dupe_check`. -/
structure Cursor (Block : Type) where
  queue : List Block := []
  nextBlockNum : Nat
  i : Nat
  skip : Bool

structure Bounds (Block : Type) where
  numbers : List Nat
  lastBlockNum : Nat
  last : Block
  undoPoint : Nat

variable [DecidableEq Id] (L : ReindexLogic σ Id Block)

def Node.applyDirectly (P : ChainLogic σ Id Block) (s : Node σ Block) (b : Block) :
    Except Exception (Node σ Block) :=
  match P.apply s.state b with
  | none => .error (.fc "apply_block")
  | some state => .ok { s with
    state := state
    fork :=
      match P.forkWindow s.state b with
      | some size => s.fork.setMaxSize P.toBlockIds size
      | none => s.fork
    undoMax := P.undoWindow s.state b s.undo.length s.undoMax }

/-- `push_block`, as something that may throw -/
def Node.pushed (P : ChainLogic σ Id Block) (s : Node σ Block) (b : Block) :
    Except Exception (Node σ Block) :=
  match s.pushBlock P b with
  | (s, .ok _) => .ok s
  | (_, .error e) => .error e

def Cursor.load (last : Block) (c : Cursor Block) (s : σ) (b : Block) : Cursor Block :=
  { c with
    queue := c.queue ++ [b]
    nextBlockNum := c.nextBlockNum + 1
    skip := c.skip && !decide
      (Allocation.u32Sub (L.timestamp last) (L.maximumTimeUntilExpiration s) ≤ L.timestamp b) }

def Cursor.applyFront (undoPoint : Nat) (c : Cursor Block) (s : Node σ Block) (b : Block) :
    Except Exception (Node σ Block) :=
  if c.i < undoPoint then s.applyDirectly (L.skipping c.skip) b
  else s.pushed (L.skipping c.skip) b

/-- The loop of `reindex`; every turn uses up a number to read or a block in the queue. -/
def reindexLoop (bounds : Bounds Block) : Nat → Cursor Block → Node σ Block →
    Except Exception (Node σ Block)
  | 0, _, _ => .error .diverges
  | fuel + 1, c, s =>
    if c.nextBlockNum ≤ bounds.lastBlockNum ∧ c.queue.length < 20 then
      match s.blocks c.nextBlockNum with
      | some b => reindexLoop bounds fuel (c.load L bounds.last s.state b) s
      | none =>
        -- a gap: don't load more blocks
        reindexLoop bounds fuel { c with nextBlockNum := bounds.lastBlockNum + 1 }
          { s with blocks := dropAbove c.i bounds.numbers s.blocks }
    else
      match c.queue with
      | [] => .ok s
      | b :: queue => do
        let s ← c.applyFront L bounds.undoPoint s b
        reindexLoop bounds fuel { c with queue, i := c.i + 1 } s

/-- `_fork_db.start_block` with the head block, if it may still be undone -/
def startFork {P : BlockIds Id Block} (db : BlockDatabase P) (head undoPoint forkMax : Nat) :
    Except Exception (ForkDatabase Block) :=
  if undoPoint ≤ head ∧ 0 < head then
    match db.block head with
    | some b =>
      .ok { index := [⟨0, b, none⟩], head := some ⟨0, b, none⟩, maxSize := forkMax, nextRef := 1 }
    | none => .error .undefined
  else .ok { maxSize := forkMax }

/-- `database::reindex`, of an object state at some height and the blocks on disk -/
def reindex (state : σ) (undoMax forkMax : Nat) (skip : Bool) (db : BlockDatabase L.toBlockIds) :
    Except Exception (Node σ Block) :=
  let head := L.headNum state
  match lastBlock db.block db.numbers with
  | none => .ok ⟨state, [], undoMax, { maxSize := forkMax }, db.block⟩
  | some (lastBlockNum, last) =>
    if lastBlockNum ≤ head then .ok ⟨state, [], undoMax, { maxSize := forkMax }, db.block⟩
    else do
      let undoPoint := if lastBlockNum < maxUndoHistory then 0 else lastBlockNum - maxUndoHistory
      let fork ← startFork db head undoPoint forkMax
      reindexLoop L ⟨db.numbers, lastBlockNum, last, undoPoint⟩ (2 * (lastBlockNum - head) + 1)
        { nextBlockNum := head + 1, i := head + 1, skip } ⟨state, [], undoMax, fork, db.block⟩

/-- The blocks are applied one after the other, each with or without the check for duplicates. -/
inductive Replays (s : σ) : List Block → σ → Prop
  | base : Replays s [] s
  | block {run : List Block} {s' s'' : σ} {b : Block} (skip : Bool) :
      Replays s run s' → (L.skipping skip).apply s' b = some s'' → Replays s (run ++ [b]) s''

/-- The blocks from a height on, up to the first number without a block -/
structure IsRun (block : Nat → Option Block) (height : Nat) (run : List Block) : Prop where
  blocks : ∀ k b, run[k]? = some b → block (height + 1 + k) = some b
  gap : block (height + 1 + run.length) = none

/-- A consistent node: the object state is the replay of the run of blocks above the old height, the run
is on disk, and nothing else is above the old height. -/
structure Restored (state : σ) (db : BlockDatabase L.toBlockIds) (s : Node σ Block) : Prop where
  replays : ∃ run, IsRun db.block (L.headNum state) run ∧ Replays L state run s.state ∧
    ∀ k b, run[k]? = some b → s.blocks (L.headNum state + 1 + k) = some b
  stored_iff : ∀ n, L.headNum state < n → ((s.blocks n).isSome ↔ n ≤ L.headNum s.state)

end Meta1Core.Blocks
