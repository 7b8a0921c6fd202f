import Meta1Core.Fc.Exception
import Meta1Core.Lib.Table

/-!
# The object database and its undo history (`object_database`, `undo_database`)

An index hands out object ids in sequence and refuses two objects that share the value of a unique
key.  Every change is noted in the newest undo state, so that it can be taken back.
-/

namespace Meta1Core.Db

open Lib (Table)

structure IndexId where
  space : Nat
  type : Nat
  deriving DecidableEq

structure ObjectId where
  index : IndexId
  number : Nat
  deriving DecidableEq

/-- The unique keys of the objects of an index: two objects clash when they share one of them. -/
class UniqueKeys (V : Type) where
  clash : V → V → Prop
  symm : ∀ v w, clash v w → clash w v
  decidable : DecidableRel clash

instance {V : Type} [UniqueKeys V] : DecidableRel (UniqueKeys.clash (V := V)) :=
  UniqueKeys.decidable

structure ObjectDatabase (V : Type) where
  objects : Table ObjectId V
  nextId : IndexId → Nat

structure UndoState (V : Type) where
  oldValues : Table ObjectId V := ∅
  oldIndexNextIds : Table IndexId Nat := ∅
  newIds : Finset ObjectId := ∅
  removed : Table ObjectId V := ∅

/-- `undo_database` with the database it watches; the back of the deque is the head of the list -/
structure UndoDatabase (V : Type) where
  db : ObjectDatabase V
  disabled : Bool
  activeSessions : Nat
  stack : List (UndoState V)
  maxSize : Nat

variable {V : Type} [UniqueKeys V]

namespace ObjectDatabase

/-- An object of the same index other than `id` shares a unique key with `v`. -/
def Violates (d : ObjectDatabase V) (id : ObjectId) (v : V) : Prop :=
  d.objects.Any fun id' v' => id' ≠ id ∧ id'.index = id.index ∧ UniqueKeys.clash v v'

instance (d : ObjectDatabase V) (id : ObjectId) (v : V) : Decidable (d.Violates id v) :=
  inferInstanceAs (Decidable (d.objects.Any _))

def getObject (d : ObjectDatabase V) (id : ObjectId) : Except Exception V :=
  match d.objects.lookup id with
  | some v => .ok v
  | none => .error (.fc "Unable to find Object")

def insert (d : ObjectDatabase V) (id : ObjectId) (v : V) : Except Exception (ObjectDatabase V) :=
  if d.objects.lookup id ≠ none ∨ d.Violates id v then
    .error (.fc "Could not insert object, most likely a uniqueness constraint was violated")
  else .ok { d with objects := d.objects.insert id v }

/-- `generic_index::modify`; the container drops an element that comes to violate a unique key. -/
def modify (d : ObjectDatabase V) (id : ObjectId) (v : V) : ObjectDatabase V × Option Exception :=
  if d.Violates id v then
    ({ d with objects := d.objects.erase id },
      some (.fc "Could not modify object, most likely an index constraint was violated"))
  else ({ d with objects := d.objects.insert id v }, none)

def remove (d : ObjectDatabase V) (id : ObjectId) : ObjectDatabase V :=
  { d with objects := d.objects.erase id }

def setNextId (d : ObjectDatabase V) (index : IndexId) (next : Nat) : ObjectDatabase V :=
  { d with nextId := Function.update d.nextId index next }

end ObjectDatabase

/-! ## Notes in the undo state -/

namespace UndoState

def onCreate (st : UndoState V) (id : ObjectId) : UndoState V :=
  { st with
    oldIndexNextIds :=
      match st.oldIndexNextIds.lookup id.index with
      | none => st.oldIndexNextIds.insert id.index id.number
      | some _ => st.oldIndexNextIds
    newIds := Insert.insert id st.newIds }

def onModify (st : UndoState V) (id : ObjectId) (v : V) : UndoState V :=
  if id ∈ st.newIds then st
  else
    match st.oldValues.lookup id with
    | some _ => st
    | none => { st with oldValues := st.oldValues.insert id v }

def onRemove (st : UndoState V) (id : ObjectId) (v : V) : UndoState V :=
  if id ∈ st.newIds then { st with newIds := st.newIds.erase id }
  else
    match st.oldValues.lookup id with
    | some was =>
      { st with removed := st.removed.insert id was, oldValues := st.oldValues.erase id }
    | none =>
      match st.removed.lookup id with
      | some _ => st
      | none => { st with removed := st.removed.insert id v }

end UndoState

namespace UndoDatabase

/-- Note a change in the newest undo state, unless the undo history is disabled. -/
def note (s : UndoDatabase V) (f : UndoState V → UndoState V) : UndoDatabase V :=
  if s.disabled then s
  else
    match s.stack with
    | [] => { s with stack := [f {}] }
    | st :: stack => { s with stack := f st :: stack }

def create (s : UndoDatabase V) (index : IndexId) (v : V) : UndoDatabase V × Option Exception :=
  let id : ObjectId := ⟨index, s.db.nextId index⟩
  if s.db.objects.lookup id ≠ none ∨ s.db.Violates id v then
    (s, some (.fc "Could not create object! Most likely a uniqueness constraint is violated."))
  else
    let db := { s.db with objects := s.db.objects.insert id v }
    (note { s with db := db.setNextId index (id.number + 1) } (·.onCreate id), none)

/-- `primary_index::modify`: the value is noted before the container is touched. -/
def modify (s : UndoDatabase V) (id : ObjectId) (v : V) : UndoDatabase V × Option Exception :=
  match s.db.getObject id with
  | .error e => (s, some e)
  | .ok before =>
    let (db, thrown) := s.db.modify id v
    ({ note s (·.onModify id before) with db := db }, thrown)

def remove (s : UndoDatabase V) (id : ObjectId) : UndoDatabase V × Option Exception :=
  match s.db.getObject id with
  | .error e => (s, some e)
  | .ok before => ({ note s (·.onRemove id before) with db := s.db.remove id }, none)

def startUndoSession (s : UndoDatabase V) : UndoDatabase V :=
  if s.disabled then s
  else
    -- `while( size() > max_size() ) _stack.pop_front()` drops the oldest states
    { s with stack := {} :: s.stack.take s.maxSize, activeSessions := s.activeSessions + 1 }

/-- `start_undo_session( true )` enables the history. -/
def forceUndoSession (s : UndoDatabase V) : UndoDatabase V :=
  { s with
    disabled := false
    stack := {} :: s.stack.take s.maxSize
    activeSessions := s.activeSessions + 1 }

def setMaxSize (s : UndoDatabase V) (size : Nat) : UndoDatabase V := { s with maxSize := size }

end UndoDatabase

structure Iteration (V : Type) where
  oldValues : List (ObjectId × V)
  newIds : List ObjectId
  oldIndexNextIds : List (IndexId × Nat)
  removed : List (ObjectId × V)

structure Iteration.Visits (order : Iteration V) (st : UndoState V) : Prop where
  oldValues : st.oldValues.Visits order.oldValues
  newIds : order.newIds.Nodup ∧ ∀ id, id ∈ order.newIds ↔ id ∈ st.newIds
  oldIndexNextIds : st.oldIndexNextIds.Visits order.oldIndexNextIds
  removed : st.removed.Visits order.removed

/-! ## Undo -/

/-- The first loop of `undo`: put the old values back. -/
def restoreValues : List (ObjectId × V) → ObjectDatabase V → Except Exception (ObjectDatabase V)
  | [], d => .ok d
  | (id, was) :: rest, d => do
    let _ ← d.getObject id
    match d.modify id was with
    | (d', none) => restoreValues rest d'
    | (_, some e) => .error e

def removeNew : List ObjectId → ObjectDatabase V → Except Exception (ObjectDatabase V)
  | [], d => .ok d
  | id :: rest, d => do
    let _ ← d.getObject id
    removeNew rest (d.remove id)

def resetNextIds : List (IndexId × Nat) → ObjectDatabase V → ObjectDatabase V
  | [], d => d
  | (index, next) :: rest, d => resetNextIds rest (d.setNextId index next)

/-- The last loop of `undo`: insert what was removed. -/
def insertRemoved : List (ObjectId × V) → ObjectDatabase V → Except Exception (ObjectDatabase V)
  | [], d => .ok d
  | (id, was) :: rest, d => do
    let d' ← d.insert id was
    insertRemoved rest d'

/-- The four loops that `undo` and `pop_commit` share -/
def revert (order : Iteration V) (d : ObjectDatabase V) : Except Exception (ObjectDatabase V) := do
  let d ← restoreValues order.oldValues d
  let d ← removeNew order.newIds d
  insertRemoved order.removed (resetNextIds order.oldIndexNextIds d)

namespace UndoDatabase

def undo (order : Iteration V) (s : UndoDatabase V) : Except Exception (UndoDatabase V) := do
  fcAssert (s.disabled = false) "!_disabled"
  fcAssert (0 < s.activeSessions) "_active_sessions > 0"
  match s.stack with
  | [] => .error .undefined
  | _ :: stack =>
    let db ← revert order s.db
    return { s with db := db, stack := stack, activeSessions := s.activeSessions - 1 }

def commit (s : UndoDatabase V) : Except Exception (UndoDatabase V) := do
  fcAssert (0 < s.activeSessions) "_active_sessions > 0"
  return { s with activeSessions := s.activeSessions - 1 }

/-- `undo_database::pop_commit`, which leaves the history enabled -/
def popCommit (order : Iteration V) (s : UndoDatabase V) : Except Exception (UndoDatabase V) := do
  fcAssert (s.activeSessions = 0) "_active_sessions == 0"
  match s.stack with
  | [] => .error (.fc "!_stack.empty()")
  | _ :: stack =>
    let db ← revert order s.db
    return { s with db := db, stack := stack, disabled := false }

end UndoDatabase

/-! ## Merge -/

/-- The loop of `merge` over the old values of the inner state.  An `assert` that fails ends the
program. -/
def mergeOldValues : List (ObjectId × V) → UndoState V → Except Exception (UndoState V)
  | [], prev => .ok prev
  | (id, was) :: rest, prev =>
    if id ∈ prev.newIds then mergeOldValues rest prev
    else if id ∈ prev.oldValues then mergeOldValues rest prev
    else if id ∈ prev.removed then .error (.std "del+upd")
    else mergeOldValues rest { prev with oldValues := prev.oldValues.insert id was }

def mergeNewIds : List ObjectId → UndoState V → UndoState V
  | [], prev => prev
  | id :: rest, prev => mergeNewIds rest { prev with newIds := Insert.insert id prev.newIds }

def mergeNextIds : List (IndexId × Nat) → UndoState V → UndoState V
  | [], prev => prev
  | (index, next) :: rest, prev =>
    if index ∈ prev.oldIndexNextIds then mergeNextIds rest prev
    else mergeNextIds rest
      { prev with oldIndexNextIds := prev.oldIndexNextIds.insert index next }

def mergeRemoved : List (ObjectId × V) → UndoState V → Except Exception (UndoState V)
  | [], prev => .ok prev
  | (id, was) :: rest, prev =>
    if id ∈ prev.newIds then
      -- new + del -> nop
      mergeRemoved rest { prev with newIds := prev.newIds.erase id }
    else
      match prev.oldValues.lookup id with
      | some was' =>
        -- upd(was=X) + del(was=Y) -> del(was=X)
        mergeRemoved rest
          { prev with removed := prev.removed.insert id was', oldValues := prev.oldValues.erase id }
      | none =>
        if id ∈ prev.removed then .error (.std "del+del")
        else mergeRemoved rest { prev with removed := prev.removed.insert id was }

/-- The four loops of `merge`: the outer state becomes the composition of both. -/
def mergeStates (order : Iteration V) (prev : UndoState V) : Except Exception (UndoState V) := do
  let prev ← mergeOldValues order.oldValues prev
  mergeRemoved order.removed (mergeNextIds order.oldIndexNextIds (mergeNewIds order.newIds prev))

def UndoDatabase.merge (order : Iteration V) (s : UndoDatabase V) :
    Except Exception (UndoDatabase V) := do
  fcAssert (0 < s.activeSessions) "_active_sessions > 0"
  match s.stack with
  | [_] =>
    if s.activeSessions = 1 then return { s with stack := [], activeSessions := 0 }
    else .error (.fc "_stack.size() >=2")
  | _ :: prev :: stack =>
    let merged ← mergeStates order prev
    return { s with stack := merged :: stack, activeSessions := s.activeSessions - 1 }
  | [] => .error (.fc "_stack.size() >=2")

/-- The calls inside a session: changes, and nested sessions that are undone or merged.  The caller
may catch what a change throws. -/
inductive Body (V : Type) where
  | done
  | create (index : IndexId) (v : V) (rest : Body V)
  | modify (id : ObjectId) (v : V) (rest : Body V)
  | remove (id : ObjectId) (rest : Body V)
  | undone (inner rest : Body V)
  | merged (inner rest : Body V)

def Body.depth : Body V → Nat
  | .done => 0
  | .create _ _ rest => rest.depth
  | .modify _ _ rest => rest.depth
  | .remove _ rest => rest.depth
  | .undone inner rest => max (inner.depth + 1) rest.depth
  | .merged inner rest => max (inner.depth + 1) rest.depth

/-- The states that the calls of a session can lead to.  An exception in the undo of a nested session
ends the program. -/
inductive Exec : Body V → UndoDatabase V → UndoDatabase V → Prop
  | done {s : UndoDatabase V} : Exec .done s s
  | create {s s' : UndoDatabase V} {index : IndexId} {v : V} {rest : Body V} :
      Exec rest (s.create index v).1 s' → Exec (.create index v rest) s s'
  | modify {s s' : UndoDatabase V} {id : ObjectId} {v : V} {rest : Body V} :
      Exec rest (s.modify id v).1 s' → Exec (.modify id v rest) s s'
  | remove {s s' : UndoDatabase V} {id : ObjectId} {rest : Body V} :
      Exec rest (s.remove id).1 s' → Exec (.remove id rest) s s'
  | undone {s s1 s2 s' : UndoDatabase V} {inner rest : Body V} {order : Iteration V}
      {st : UndoState V} : Exec inner s.startUndoSession s1 → s1.stack.head? = some st →
      order.Visits st → s1.undo order = .ok s2 → Exec rest s2 s' → Exec (.undone inner rest) s s'
  | merged {s s1 s2 s' : UndoDatabase V} {inner rest : Body V} {order : Iteration V}
      {st : UndoState V} : Exec inner s.startUndoSession s1 → s1.stack.head? = some st →
      order.Visits st → s1.merge order = .ok s2 → Exec rest s2 s' → Exec (.merged inner rest) s s'

end Meta1Core.Db
