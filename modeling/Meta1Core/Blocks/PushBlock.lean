import Meta1Core.Blocks.ForkDatabase

/-!
# Pushing and popping blocks (`database::push_block`, `database::pop_block`)

A call that throws may have changed the object state, the fork database and the blocks on disk, so
it returns the node that it leaves behind together with its outcome.
-/

namespace Meta1Core.Blocks

/-- `apply_block` as a partial function of the object state; it returns no state when it throws. -/
structure ChainLogic (σ Id Block : Type) extends BlockIds Id Block where
  genesis : σ
  /-- `head_block_id()` -/
  headId : σ → Id
  /-- `head_block_num()` -/
  headNum : σ → Nat
  apply : σ → Block → Option σ
  /-- What `update_global_dynamic_data` passes to `_fork_db.set_max_size`, if the block gets there.
  The setting survives the failure of the block. -/
  forkWindow : σ → Block → Option Nat
  /-- `_undo_db.max_size()` after the block, from its `size()` and its `max_size()` before -/
  undoWindow : σ → Block → Nat → Nat → Nat
  headId_genesis : headId genesis = zero
  headNum_genesis : headNum genesis = 0
  /-- `validate_block_header` -/
  previous_of_apply : ∀ s b s', apply s b = some s' → previous b = headId s
  /-- `update_global_dynamic_data` -/
  headId_of_apply : ∀ s b s', apply s b = some s' → headId s' = id b
  headNum_of_apply : ∀ s b s', apply s b = some s' → headNum s' = numFromId (id b)
  forkWindow_of_apply : ∀ s b s', apply s b = some s' → forkWindow s b ≠ none
  /-- `head_block_number - last_irreversible_block_num + 1` -/
  forkWindow_pos : ∀ s b size, forkWindow s b = some size → 0 < size
  /-- Both sizes are set to the same value; proposals only raise that of the undo history. -/
  le_undoWindow : ∀ s b size n m, forkWindow s b = some size → size ≤ undoWindow s b n m

/-- The parts of `database` that blocks move; `undo` are the object states that `pop_commit` goes
back to, the newest first. -/
structure Node (σ Block : Type) where
  state : σ
  undo : List σ
  undoMax : Nat
  fork : ForkDatabase Block
  blocks : Nat → Option Block

variable {σ Id Block : Type} [DecidableEq Id]

namespace Node

variable (P : ChainLogic σ Id Block)

/-- A node after `init_genesis`; `GRAPHENE_MIN_UNDO_HISTORY` is 10. -/
def start : Node σ Block where
  state := P.genesis
  undo := []
  undoMax := 10
  fork := {}
  blocks := fun _ => none

/-- A session around `apply_block` and `_block_id_to_block.store`, which is committed if the block
applies and undone if it does not -/
def applyBlock (s : Node σ Block) (b : Block) : Node σ Block × Bool :=
  -- `start_undo_session` drops the oldest states
  let undo := s.undo.take s.undoMax
  let s' := { s with
    fork :=
      match P.forkWindow s.state b with
      | some size => s.fork.setMaxSize P.toBlockIds size
      | none => s.fork
    undoMax := P.undoWindow s.state b (undo.length + 1) s.undoMax }
  match P.apply s.state b with
  | some state =>
    ({ s' with
      state := state
      undo := s.state :: undo
      blocks := Function.update s.blocks (P.numFromId (P.id b)) (some b) }, true)
  | none => ({ s' with undo := undo }, false)

/-- `database::pop_block`, with the fork items that the caller holds -/
def popBlock (held : List (ForkItem Block)) (s : Node σ Block) :
    Node σ Block × Option Exception :=
  match s.fork.head with
  | none => (s, some (.fc "Trying to pop() from empty fork database!?"))
  | some head =>
    let popped : Except Exception (ForkDatabase Block) :=
      if P.id head.data = P.headId s.state then s.fork.popBlock held
      else
        match s.fork.fetchBlock P.toBlockIds (P.headId s.state) with
        | none => .error (.fc "Trying to pop() block that's not in fork database!?")
        | some _ => .ok s.fork
    match popped with
    | .error e => (s, some e)
    | .ok fork =>
      -- `pop_undo`
      match s.undo with
      | [] => ({ s with fork := fork }, some (.fc "!_stack.empty()"))
      | state :: undo => ({ s with fork := fork, state := state, undo := undo }, none)

/-- `while( head_block_id() != target ) pop_block();` — every turn uses up an undo state. -/
def popUntil (held : List (ForkItem Block)) (target : Id) :
    Nat → Node σ Block → Node σ Block × Option Exception
  | 0, s => (s, some .diverges)
  | fuel + 1, s =>
    if P.headId s.state ≠ target then
      match s.popBlock P held with
      | (s, none) => popUntil held target fuel s
      | (s, some e) => (s, some e)
    else (s, none)

/-- Restore all blocks from the good fork; an exception gets out. -/
def restoreBranch : List (ForkItem Block) → Node σ Block → Node σ Block × Option Exception
  | [], s => (s, none)
  | item :: rest, s =>
    match s.applyBlock P item.data with
    | (s, true) => restoreBranch rest s
    | (s, false) => (s, some (.fc "apply_block"))

/-- A block of the new fork does not apply: the rest of the fork is removed, the old head is set
again and the old fork restored.  It throws in any case. -/
def switchBack (firsts seconds invalid : List (ForkItem Block)) (front : ForkItem Block) (target : Id)
    (s : Node σ Block) : Node σ Block × Exception :=
  let held := firsts ++ seconds
  let removed := invalid.foldl (fun f item => f.remove P.toBlockIds held (P.id item.data)) s.fork
  let s := { s with fork := removed.setHead front }
  match s.popUntil P held target (s.undo.length + 1) with
  | (s, some e) => (s, e)
  | (s, none) =>
    match s.restoreBranch P seconds.reverse with
    | (s, some e) => (s, e)
    | (s, none) => (s, .fc "apply_block")

def pushBranch (firsts seconds : List (ForkItem Block)) (front : ForkItem Block) (target : Id) :
    List (ForkItem Block) → Node σ Block → Node σ Block × Except Exception Bool
  | [], s => (s, .ok true)
  | item :: rest, s =>
    match s.applyBlock P item.data with
    | (s, true) => pushBranch firsts seconds front target rest s
    | (s, false) =>
      let (s, e) := s.switchBack P firsts seconds (item :: rest) front target
      (s, .error e)

def switchForks (s : Node σ Block) (newHead : ForkItem Block) :
    Node σ Block × Except Exception Bool :=
  match s.fork.fetchBranchFrom P.toBlockIds (P.id newHead.data) (P.headId s.state) with
  | .error e => (s, .error e)
  | .ok (firsts, seconds) =>
    match seconds.head?, seconds.getLast? with
    | some front, some back =>
      let target := P.previous back.data
      -- pop blocks until we hit the forked block
      match s.popUntil P (firsts ++ seconds) target (s.undo.length + 1) with
      | (s, some e) => (s, .error e)
      | (s, none) => s.pushBranch P firsts seconds front target firsts.reverse
    | _, _ => (s, .error .undefined)

/-- `database::_push_block`, which tells whether it switched forks -/
def pushBlock (s : Node σ Block) (b : Block) : Node σ Block × Except Exception Bool :=
  match s.fork.pushBlock P.toBlockIds b with
  | .error e => (s, .error e)
  | .ok (fork, newHead) =>
    let s := { s with fork := fork }
    if P.previous newHead.data ≠ P.headId s.state then
      if P.headNum s.state < P.blockNum newHead.data then s.switchForks P newHead
      else (s, .ok false)
    else
      match s.applyBlock P b with
      | (s, true) => (s, .ok false)
      | (s, false) =>
        ({ s with fork := s.fork.remove P.toBlockIds [] (P.id b) }, .error (.fc "apply_block"))

end Node

end Meta1Core.Blocks
