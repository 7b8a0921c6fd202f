import Meta1Core.Db.Exactness
import Meta1Core.Lib.Chunks
import Meta1Core.Protocol.Asset

/-!
# Account balances (`account_object.cpp`, `db_balance.cpp`)

No unique key of the table consists of an owner and an asset.  The secondary index
`balances_by_account_index` finds the balance of an account, and `adjust_balance` relies on it to
create no second one.
-/

namespace Meta1Core.Db

open Lib (Table cellAt setCell addChunk)
open Protocol (Asset AssetId AccountId core safe)

/-! ## The secondary index -/

structure BalancesByAccount where
  balances : List (List (Table AssetId ObjectId)) := []
  idsBeingModified : List ObjectId := []

namespace BalancesByAccount

variable (bits : Nat)

/-- `while( balances.size() < ... )`: add chunks at the end, `count` of them. -/
def addChunks : (count : Nat) → List (List (Table AssetId ObjectId)) →
    List (List (Table AssetId ObjectId))
  | 0, balances => balances
  | count + 1, balances => addChunks count (addChunk bits ∅ balances.length balances)

def objectInserted (x : BalancesByAccount) (id : ObjectId) (abo : AccountBalance) :
    Except Exception BalancesByAccount :=
  let balances := addChunks bits ((abo.owner >>> bits) + 1 - x.balances.length) x.balances
  match cellAt bits balances abo.owner with
  | none => .error .undefined
  | some mine =>
    match setCell bits balances abo.owner (mine.insert abo.assetType id) with
    | none => .error .undefined
    | some balances => .ok { x with balances := balances }

def objectRemoved (x : BalancesByAccount) (abo : AccountBalance) :
    Except Exception BalancesByAccount :=
  if x.balances.length < (abo.owner >>> bits) + 1 then .ok x
  else
    match cellAt bits x.balances abo.owner with
    | none => .error .undefined
    | some mine =>
      match setCell bits x.balances abo.owner (mine.erase abo.assetType) with
      | none => .error .undefined
      | some balances => .ok { x with balances := balances }

def aboutToModify (x : BalancesByAccount) (before : ObjectId) : BalancesByAccount :=
  { x with idsBeingModified := before :: x.idsBeingModified }

def objectModified (x : BalancesByAccount) (after : ObjectId) :
    Except Exception BalancesByAccount :=
  match x.idsBeingModified with
  | [] => .error .undefined
  | top :: rest => do
    fcAssert (top = after) "Modification of ID is not supported!"
    return { x with idsBeingModified := rest }

def getAccountBalance (x : BalancesByAccount) (acct : AccountId) (asset : AssetId) :
    Except Exception (Option ObjectId) :=
  if x.balances.length < (acct >>> bits) + 1 then .ok none
  else
    match cellAt bits x.balances acct with
    | none => .error .undefined
    | some mine => .ok (mine.lookup asset)

end BalancesByAccount

structure BalanceDatabase where
  undo : UndoDatabase AccountBalance
  index : BalancesByAccount := {}

namespace BalanceDatabase

variable (bits : Nat)

def create (s : BalanceDatabase) (v : AccountBalance) : BalanceDatabase × Option Exception :=
  match s.undo.create balanceIndex v with
  | (u, some e) => ({ s with undo := u }, some e)
  | (u, none) =>
    match s.index.objectInserted bits ⟨balanceIndex, s.undo.db.nextId balanceIndex⟩ v with
    | .error e => ({ s with undo := u }, some e)
    | .ok x => (⟨u, x⟩, none)

def remove (s : BalanceDatabase) (id : ObjectId) : BalanceDatabase × Option Exception :=
  match s.undo.db.getObject id with
  | .error e => (s, some e)
  | .ok abo =>
    match s.index.objectRemoved bits abo with
    | .error e => (s, some e)
    | .ok x => (⟨(s.undo.remove id).1, x⟩, none)

/-- `primary_index::modify`, with a functor that may throw first; the reference to an object that is
gone dangles. -/
def modify (s : BalanceDatabase) (id : ObjectId)
    (m : AccountBalance → Except Exception AccountBalance) : BalanceDatabase × Option Exception :=
  match s.undo.db.getObject id with
  | .error _ => (s, some .undefined)
  | .ok abo =>
    let noted : BalanceDatabase :=
      ⟨s.undo.note (·.onModify id abo), s.index.aboutToModify id⟩
    match m abo with
    | .error e => (noted, some e)
    | .ok v =>
      match noted.undo.db.modify id v with
      | (db, some e) => ({ noted with undo := { noted.undo with db := db } }, some e)
      | (db, none) =>
        let modified : BalanceDatabase := { noted with undo := { noted.undo with db := db } }
        match noted.index.objectModified id with
        | .error e => (modified, some e)
        | .ok x => ({ modified with index := x }, none)

def getBalance (s : BalanceDatabase) (owner : AccountId) (asset : AssetId) :
    Except Exception Int := do
  match ← s.index.getAccountBalance bits owner asset with
  | none => return 0
  | some id =>
    match s.undo.db.objects.lookup id with
    | none => .error .undefined
    | some abo => return abo.balance

def adjusted (delta : Asset) (b : AccountBalance) : Except Exception AccountBalance := do
  cAssert (delta.assetId = b.assetType) "delta.asset_id == asset_type"
  let balance ← safe (b.balance + delta.amount)
  return { b with
    balance := balance
    maintenanceFlag := if b.assetType = core then true else b.maintenanceFlag }

/-- The check of `adjust_balance` for a balance that is there -/
def sufficient (abo : AccountBalance) (delta : Asset) : Except Exception Unit := do
  if delta.amount < 0 then
    let required ← safe (-delta.amount)
    fcAssert (abo.assetType = delta.assetId) "a.asset_id == b.asset_id"
    fcAssert (required ≤ abo.balance) "Insufficient Balance"

def adjustBalance (s : BalanceDatabase) (account : AccountId) (delta : Asset) :
    BalanceDatabase × Option Exception :=
  if delta.amount = 0 then (s, none)
  else
    match s.index.getAccountBalance bits account delta.assetId with
    | .error e => (s, some e)
    | .ok none =>
      if 0 < delta.amount then
        s.create bits {
          owner := account
          assetType := delta.assetId
          balance := delta.amount
          maintenanceFlag := decide (delta.assetId = core) }
      else (s, some (.fc "Insufficient Balance"))
    | .ok (some id) =>
      match s.undo.db.objects.lookup id with
      | none => (s, some .undefined)
      | some abo =>
        match sufficient abo delta with
        | .error e => (s, some e)
        | .ok () => s.modify id (adjusted delta)

def restoreValues : List (ObjectId × AccountBalance) →
    ObjectDatabase AccountBalance × BalancesByAccount →
      Except Exception (ObjectDatabase AccountBalance × BalancesByAccount)
  | [], s => .ok s
  | (id, was) :: rest, (d, x) => do
    let _ ← d.getObject id
    let x := x.aboutToModify id
    match d.modify id was with
    | (_, some e) => .error e
    | (d, none) => do
      let x ← x.objectModified id
      restoreValues rest (d, x)

def removeNew : List ObjectId → ObjectDatabase AccountBalance × BalancesByAccount →
    Except Exception (ObjectDatabase AccountBalance × BalancesByAccount)
  | [], s => .ok s
  | id :: rest, (d, x) => do
    let abo ← d.getObject id
    let x ← x.objectRemoved bits abo
    removeNew rest (d.remove id, x)

def insertRemoved : List (ObjectId × AccountBalance) →
    ObjectDatabase AccountBalance × BalancesByAccount →
      Except Exception (ObjectDatabase AccountBalance × BalancesByAccount)
  | [], s => .ok s
  | (id, was) :: rest, (d, x) => do
    let d ← d.insert id was
    let x ← x.objectInserted bits id was
    insertRemoved rest (d, x)

/-- The loops that `undo` and `pop_commit` share -/
def revert (order : Iteration AccountBalance)
    (s : ObjectDatabase AccountBalance × BalancesByAccount) :
    Except Exception (ObjectDatabase AccountBalance × BalancesByAccount) := do
  let s ← restoreValues order.oldValues s
  let (d, x) ← removeNew bits order.newIds s
  insertRemoved bits order.removed (resetNextIds order.oldIndexNextIds d, x)

def undoSession (order : Iteration AccountBalance) (s : BalanceDatabase) :
    Except Exception BalanceDatabase := do
  fcAssert (s.undo.disabled = false) "!_disabled"
  fcAssert (0 < s.undo.activeSessions) "_active_sessions > 0"
  match s.undo.stack with
  | [] => .error .undefined
  | _ :: stack =>
    let (db, x) ← revert bits order (s.undo.db, s.index)
    return ⟨{ s.undo with
      db := db, stack := stack, activeSessions := s.undo.activeSessions - 1 }, x⟩

def popCommit (order : Iteration AccountBalance) (s : BalanceDatabase) :
    Except Exception BalanceDatabase := do
  fcAssert (s.undo.activeSessions = 0) "_active_sessions == 0"
  match s.undo.stack with
  | [] => .error (.fc "!_stack.empty()")
  | _ :: stack =>
    let (db, x) ← revert bits order (s.undo.db, s.index)
    return ⟨{ s.undo with db := db, stack := stack, disabled := false }, x⟩

end BalanceDatabase

/-- Adjustments, objects that enter and leave the index, and sessions; `order` is the order in which
their loops see the undo state. -/
inductive BalanceCall where
  | adjustBalance (account : AccountId) (delta : Asset)
  | insert (v : AccountBalance)
  | remove (id : ObjectId)
  | startUndoSession
  | forceUndoSession
  | disable
  | undo (order : Iteration AccountBalance)
  | merge (order : Iteration AccountBalance)
  | commit
  | popCommit (order : Iteration AccountBalance)
  | setMaxSize (size : Nat)

namespace BalanceDatabase

/-- A call; one that throws leaves the state that it has made by then. -/
def step (bits : Nat) (s : BalanceDatabase) : BalanceCall → Except Exception BalanceDatabase
  | .adjustBalance account delta => .ok (s.adjustBalance bits account delta).1
  | .insert v => .ok (s.create bits v).1
  | .remove id => .ok (s.remove bits id).1
  | .startUndoSession => .ok { s with undo := s.undo.startUndoSession }
  | .forceUndoSession => .ok { s with undo := s.undo.forceUndoSession }
  | .disable => .ok { s with undo := { s.undo with disabled := true } }
  | .undo order => s.undoSession bits order
  | .merge order => do
    let u ← s.undo.merge order
    return { s with undo := u }
  | .commit => do
    let u ← s.undo.commit
    return { s with undo := u }
  | .popCommit order => s.popCommit bits order
  | .setMaxSize size => .ok { s with undo := s.undo.setMaxSize size }

/-- The loops see the whole undo state, and the history is disabled only when it is empty. -/
def Regular (s : BalanceDatabase) : BalanceCall → Prop
  | .disable => s.undo.stack = []
  | .undo order => ∀ st ∈ s.undo.stack.head?, order.Visits st
  | .merge order => ∀ st ∈ s.undo.stack.head?, order.Visits st
  | .popCommit order => ∀ st ∈ s.undo.stack.head?, order.Visits st
  | _ => True

def Has (d : ObjectDatabase AccountBalance) (acct : AccountId) (asset : AssetId) (id : ObjectId) :
    Prop :=
  ∃ v, d.objects.lookup id = some v ∧ v.owner = acct ∧ v.assetType = asset

/-- An object that enters the index from outside is not negative, and its owner has no other one in
the asset. -/
def Fitting (s : BalanceDatabase) : BalanceCall → Prop
  | .insert v => 0 ≤ v.balance ∧ ∀ id, ¬Has s.undo.db v.owner v.assetType id
  | _ => True

end BalanceDatabase

end Meta1Core.Db
