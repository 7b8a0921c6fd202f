import Meta1Core.Fc.Exception
import Mathlib.Data.List.Nodup

/-!
# The fork database (`fork_database`)

Blocks that are not final yet are items of a tree.  The index and the head own their items; an item
points to its parent by a weak pointer, which is dead once the parent has left the index and is not
the head.
-/

namespace Meta1Core.Blocks

open Lib

/-- Block headers: `id()`, `previous`, `num_from_id` and the id `block_id_type()` -/
structure BlockIds (Id Block : Type) where
  id : Block → Id
  previous : Block → Id
  numFromId : Id → Nat
  zero : Id
  /-- The id holds `block_num()`, which is the number after that of the previous block. -/
  num_id : ∀ b, numFromId (id b) = numFromId (previous b) + 1
  num_zero : numFromId zero = 0
  /-- The id is a hash of the header, the transactions apart. -/
  previous_eq_of_id_eq : ∀ b b', id b = id b' → previous b = previous b'

structure ForkItem (Block : Type) where
  ref : Nat
  data : Block
  prev : Option Nat
  deriving DecidableEq

structure ForkDatabase (Block : Type) where
  index : List (ForkItem Block) := []
  head : Option (ForkItem Block) := none
  maxSize : Nat := 1024
  nextRef : Nat := 0

variable {Id Block : Type}

namespace BlockIds

def blockNum (P : BlockIds Id Block) (b : Block) : Nat := P.numFromId (P.previous b) + 1

theorem numFromId_id (P : BlockIds Id Block) (b : Block) : P.numFromId (P.id b) = P.blockNum b :=
  P.num_id b

theorem id_ne_zero (P : BlockIds Id Block) (b : Block) : P.id b ≠ P.zero := by
  intro h
  have hnum := P.num_id b
  rw [h, P.num_zero] at hnum
  exact absurd hnum (Nat.zero_ne_add_one _)

end BlockIds

namespace ForkDatabase

variable (P : BlockIds Id Block) [DecidableEq Id]

/-- `weak_ptr::lock`, with the items that the caller holds besides the index and the head -/
def lock (f : ForkDatabase Block) (held : List (ForkItem Block)) (ref : Nat) :
    Option (ForkItem Block) :=
  (f.index ++ f.head.toList ++ held).find? (·.ref = ref)

def parent (f : ForkDatabase Block) (held : List (ForkItem Block)) (item : ForkItem Block) :
    Option (ForkItem Block) :=
  item.prev.bind (f.lock held)

def fetchBlock (f : ForkDatabase Block) (id : Id) : Option (ForkItem Block) :=
  f.index.find? fun item => P.id item.data = id

def popBlock (f : ForkDatabase Block) (held : List (ForkItem Block)) :
    Except Exception (ForkDatabase Block) :=
  match f.head with
  | none => .error (.fc "no block to pop")
  | some head =>
    match f.parent held head with
    | none => .error (.fc "popping block would leave head block null")
    | some prev => .ok { f with head := some prev }

/-- Drop the items of the index that are `max_size` below the head. -/
def prune (f : ForkDatabase Block) (headNum : Nat) : ForkDatabase Block :=
  { f with index := f.index.filter fun item => headNum - f.maxSize ≤ P.blockNum item.data }

/-- `_index.insert`; the index by id is unique, so a block that is already there is not inserted. -/
def insertItem (f : ForkDatabase Block) (item : ForkItem Block) : ForkDatabase Block :=
  { f with
    index := if (f.fetchBlock P (P.id item.data)).isSome then f.index else f.index ++ [item]
    nextRef := f.nextRef + 1 }

def linkOf (f : ForkDatabase Block) (b : Block) : Except Exception (Option Nat) :=
  if f.head.isSome ∧ P.previous b ≠ P.zero then
    match f.fetchBlock P (P.previous b) with
    | none => .error (.fc "block does not link to known chain")
    | some item => .ok (some item.ref)
  else .ok none

def pushBlock (f : ForkDatabase Block) (b : Block) :
    Except Exception (ForkDatabase Block × ForkItem Block) := do
  -- make sure the block is within the range that we are caching
  fcAssert (∀ head ∈ f.head, P.blockNum head.data - f.maxSize < P.blockNum b)
    "attempting to push a block that is too old"
  let prev ← f.linkOf P b
  let item : ForkItem Block := ⟨f.nextRef, b, prev⟩
  let inserted := insertItem P f item
  match f.head with
  | none => return ({ inserted with head := some item }, item)
  | some head =>
    if P.blockNum head.data < P.blockNum b then
      return (prune P { inserted with head := some item } (P.blockNum b), item)
    else return (inserted, head)

def setMaxSize (f : ForkDatabase Block) (size : Nat) : ForkDatabase Block :=
  let f := { f with maxSize := size }
  match f.head with
  | none => f
  | some head => prune P f (P.blockNum head.data)

def remove (f : ForkDatabase Block) (held : List (ForkItem Block)) (id : Id) :
    ForkDatabase Block :=
  let f := { f with index := f.index.filter fun item => P.id item.data ≠ id }
  match f.head with
  | none => f
  | some head =>
    if P.id head.data = id then
      match f.popBlock held with
      | .ok f => f
      | .error _ => { f with head := none }
    else f

def setHead (f : ForkDatabase Block) (item : ForkItem Block) : ForkDatabase Block :=
  { f with head := some item }

/-- The first two loops of `fetch_branch_from`, with the items passed; references decrease along the
links, so `fuel` is never used up. -/
def descend (f : ForkDatabase Block) (num : Nat) : Nat → ForkItem Block →
    Except Exception (List (ForkItem Block) × ForkItem Block)
  | 0, _ => .error .diverges
  | fuel + 1, item =>
    if num < P.blockNum item.data then
      match f.parent [] item with
      | none => .error (.fc "branch")
      | some prev => do
        let (passed, last) ← descend f num fuel prev
        return (item :: passed, last)
    else .ok ([], item)

/-- The last loop of `fetch_branch_from`, down to items with the same previous block -/
def meet (f : ForkDatabase Block) : Nat → ForkItem Block → ForkItem Block →
    Except Exception (List (ForkItem Block) × List (ForkItem Block))
  | 0, _, _ => .error .diverges
  | fuel + 1, first, second =>
    if P.previous first.data ≠ P.previous second.data then
      match f.parent [] first, f.parent [] second with
      | some first', some second' => do
        let (firsts, seconds) ← meet f fuel first' second'
        return (first :: firsts, second :: seconds)
      | none, _ => .error (.fc "first_branch")
      | _, none => .error (.fc "second_branch")
    else .ok ([first], [second])

def fetchBranchFrom (f : ForkDatabase Block) (first second : Id) :
    Except Exception (List (ForkItem Block) × List (ForkItem Block)) := do
  match f.fetchBlock P first, f.fetchBlock P second with
  | some first, some second =>
    let (firsts, first) ← descend P f (P.blockNum second.data) (f.nextRef + 1) first
    let (seconds, second) ← descend P f (P.blockNum first.data) (f.nextRef + 1) second
    let (firsts', seconds') ← meet P f (f.nextRef + 1) first second
    return (firsts ++ firsts', seconds ++ seconds')
  | none, _ => .error (.fc "first_branch_itr != _index.get<block_id>().end()")
  | _, none => .error (.fc "second_branch_itr != _index.get<block_id>().end()")

variable {P} {f : ForkDatabase Block}

theorem fetchBlock_eq_some {id : Id} {item : ForkItem Block} (h : f.fetchBlock P id = some item) :
    item ∈ f.index ∧ P.id item.data = id :=
  ⟨List.mem_of_find?_eq_some h, by simpa using List.find?_some h⟩

omit [DecidableEq Id] in
theorem descend_head {num fuel : Nat} {item last : ForkItem Block} {passed : List (ForkItem Block)}
    (h : descend P f num fuel item = .ok (passed, last)) :
    (passed ++ [last]).head? = some item := by
  cases fuel with
  | zero => cases h
  | succ fuel =>
    rw [descend] at h
    split at h
    · split at h
      · cases h
      · obtain ⟨⟨passed', last'⟩, -, hret⟩ := of_bind h
        cases hret
        rfl
    · cases h
      rfl

variable {firsts seconds : List (ForkItem Block)}

theorem meet_head {fuel : Nat} {first second : ForkItem Block}
    (h : meet P f fuel first second = .ok (firsts, seconds)) :
    firsts.head? = some first ∧ seconds.head? = some second := by
  cases fuel with
  | zero => cases h
  | succ fuel =>
    rw [meet] at h
    split at h
    · split at h
      · obtain ⟨⟨firsts', seconds'⟩, -, hret⟩ := of_bind h
        cases hret
        exact ⟨rfl, rfl⟩
      · cases h
      · cases h
    · cases h
      exact ⟨rfl, rfl⟩

theorem fetchBranchFrom_eq_ok {a b : Id} (h : f.fetchBranchFrom P a b = .ok (firsts, seconds)) :
    ∃ first second passed last passed' last' firsts' seconds',
      f.fetchBlock P a = some first ∧ f.fetchBlock P b = some second ∧
      descend P f (P.blockNum second.data) (f.nextRef + 1) first = .ok (passed, last) ∧
      descend P f (P.blockNum last.data) (f.nextRef + 1) second = .ok (passed', last') ∧
      meet P f (f.nextRef + 1) last last' = .ok (firsts', seconds') ∧
      firsts = passed ++ firsts' ∧ seconds = passed' ++ seconds' := by
  unfold fetchBranchFrom at h
  split at h
  · rename_i first second hfirst hsecond
    obtain ⟨⟨passed, last⟩, hpassed, h⟩ := of_bind h
    obtain ⟨⟨passed', last'⟩, hpassed', h⟩ := of_bind h
    obtain ⟨⟨firsts', seconds'⟩, hmeet, h⟩ := of_bind h
    cases h
    exact ⟨first, second, passed, last, passed', last', firsts', seconds', hfirst, hsecond,
      hpassed, hpassed', hmeet, rfl, rfl⟩
  · cases h
  · cases h

theorem fetchBranchFrom_head {a b : Id} (h : f.fetchBranchFrom P a b = .ok (firsts, seconds)) :
    (∃ first, firsts.head? = some first ∧ f.fetchBlock P a = some first) ∧
      ∃ second, seconds.head? = some second ∧ f.fetchBlock P b = some second := by
  obtain ⟨first, second, passed, last, passed', last', firsts', seconds', hfirst, hsecond, hpassed,
    hpassed', hmeet, rfl, rfl⟩ := fetchBranchFrom_eq_ok h
  have hhead := descend_head hpassed
  have hhead' := descend_head hpassed'
  obtain ⟨hmeet1, hmeet2⟩ := meet_head hmeet
  refine ⟨⟨first, ?_, hfirst⟩, second, ?_, hsecond⟩
  · cases passed with
    | nil =>
      cases hhead
      exact hmeet1
    | cons item rest => exact hhead
  · cases passed' with
    | nil =>
      cases hhead'
      exact hmeet2
    | cons item rest => exact hhead'

end ForkDatabase

end Meta1Core.Blocks
