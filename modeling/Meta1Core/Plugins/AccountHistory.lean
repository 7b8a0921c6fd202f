import Meta1Core.Lib.FlatSet
import Meta1Core.Lib.Table
import Meta1Core.Protocol.Asset

/-!
# The account history (`account_history_plugin.cpp`)

After each block the plugin stores the applied operations, and for each account that an operation
impacts an entry with a sequence number and the id of the entry before.  Only the newest entries of
an account are kept.
-/

namespace Meta1Core.Plugins

open Lib (FlatSet Table)
open Protocol

structure HistoryEntry where
  id : Nat
  account : AccountId
  operationId : Nat
  sequence : Nat
  next : Nat
deriving DecidableEq

structure HistoryStatistics where
  mostRecentOp : Nat := 0
  totalOps : Nat := 0
  removedOps : Nat := 0

/-- The options of the plugin; `max` bounds the entries of an account. -/
structure AccountHistoryOptions where
  trackedAccounts : FlatSet AccountId := ∅
  partialOperations : Bool := false
  maxOpsPerAccount : Nat

/-- The objects of the plugin; `ω` are the operations with their results. -/
structure AccountHistory (ω : Type) where
  operations : List (Nat × ω) := []
  nextOperationId : Nat := 0
  entries : List HistoryEntry := []
  nextEntryId : Nat := 0
  statistics : Table AccountId HistoryStatistics := ∅
  usedIds : List Nat := []

variable {ω : Type}

namespace AccountHistory

def bySeq (s : AccountHistory ω) (account : AccountId) : List HistoryEntry :=
  (s.entries.filter fun e => e.account = account).insertionSort fun e e' => e.sequence ≤ e'.sequence

/-- Remove the operation if no entry refers to it; `remove_op_id(db)` throws if there is none. -/
def removeUnreferenced (operationId : Nat) (s : AccountHistory ω) :
    Except (AccountHistory ω) (AccountHistory ω) :=
  if ∃ e ∈ s.entries, e.operationId = operationId then .ok s
  else if operationId ∉ s.operations.map Prod.fst then .error s
  else .ok { s with operations := s.operations.filter fun x => x.1 ≠ operationId }

/-- Remove the earliest entry of an account, unless it is the one just added. -/
def removeEarliest (opts : AccountHistoryOptions) (account : AccountId) (ath : HistoryEntry)
    (s : AccountHistory ω) : Except (AccountHistory ω) (AccountHistory ω) :=
  match s.bySeq account with
  | [] => .ok s
  | itr :: rest =>
    if itr.id = ath.id then .ok s
    else
      let removed : AccountHistory ω := { s with
        entries := s.entries.filter fun e => e.id ≠ itr.id
        statistics :=
          match s.statistics.lookup account with
          | none => s.statistics
          | some stats => s.statistics.insert account { stats with removedOps := stats.removedOps + 1 } }
      -- modify previous node's next pointer
      let unlinked : AccountHistory ω :=
        match rest.head? with
        | none => removed
        | some first => { removed with
            entries := removed.entries.map fun e => if e.id = first.id then { e with next := 0 } else e }
      if opts.partialOperations then unlinked.removeUnreferenced itr.operationId else .ok unlinked

/-- `add_account_history`; `account_id(db)` throws if there is no such account. -/
def addAccountHistory (opts : AccountHistoryOptions) (operationId : Nat) (s : AccountHistory ω)
    (account : AccountId) : Except (AccountHistory ω) (AccountHistory ω) :=
  match s.statistics.lookup account with
  | none => .error s
  | some stats =>
    let ath : HistoryEntry := ⟨s.nextEntryId, account, operationId, stats.totalOps + 1, stats.mostRecentOp⟩
    let added : AccountHistory ω := { s with
      entries := s.entries ++ [ath]
      nextEntryId := s.nextEntryId + 1
      statistics := s.statistics.insert account
        { stats with mostRecentOp := ath.id, totalOps := ath.sequence } }
    if opts.maxOpsPerAccount < ath.sequence - stats.removedOps then added.removeEarliest opts account ath
    else .ok added

end AccountHistory

/-! ## One operation after the other -/

/-- The local variables of `update_account_histories`; `oho` is the id of the operation that has been
stored. -/
structure HistoryPass (ω : Type) where
  history : AccountHistory ω
  isFirst : Bool := true
  oho : Option Nat := none

namespace HistoryPass

def createOho (op : ω) (p : HistoryPass ω) : HistoryPass ω where
  history := { p.history with
    operations := p.history.operations ++ [(p.history.nextOperationId, op)]
    nextOperationId := p.history.nextOperationId + 1
    usedIds := p.history.usedIds ++ [p.history.nextOperationId] }
  isFirst := false
  oho := some p.history.nextOperationId

def useNextId (p : HistoryPass ω) : HistoryPass ω :=
  { p with history := { p.history with
      nextOperationId := p.history.nextOperationId + 1
      usedIds := p.history.usedIds ++ [p.history.nextOperationId] } }

/-- `skip_oho_id`; an object that is created and removed at once takes an id too. -/
def skipOhoId (undoEnabled : Bool) (p : HistoryPass ω) : HistoryPass ω :=
  if p.isFirst && undoEnabled then { p.useNextId with isFirst := false } else p.useNextId

def addAccountHistory (opts : AccountHistoryOptions) (operationId : Nat) (p : HistoryPass ω)
    (account : AccountId) : Except (AccountHistory ω) (HistoryPass ω) :=
  match p.history.addAccountHistory opts operationId account with
  | .ok history => .ok { p with history := history }
  | .error history => .error history

def addAll (opts : AccountHistoryOptions) (impacted : FlatSet AccountId) (op : ω) (p : HistoryPass ω) :
    Except (AccountHistory ω) (HistoryPass ω) :=
  let p := if impacted.elems ≠ [] ∧ p.oho = none then p.createOho op else p
  if 0 < opts.maxOpsPerAccount then
    match p.oho with
    | none => .ok p
    | some operationId => impacted.elems.foldlM (addAccountHistory opts operationId) p
  else .ok p

/-- One turn of the loop over the tracked accounts -/
def addIfImpacted (opts : AccountHistoryOptions) (impacted : FlatSet AccountId) (op : ω)
    (p : HistoryPass ω) (account : AccountId) : Except (AccountHistory ω) (HistoryPass ω) :=
  if account ∈ impacted then
    match p.oho with
    | none => (p.createOho op).addAccountHistory opts p.history.nextOperationId account
    | some operationId => p.addAccountHistory opts operationId account
  else .ok p

/-- One operation; it is missing if it was applied and failed later. -/
def processOp (opts : AccountHistoryOptions) (undoEnabled : Bool) (impacted : ω → FlatSet AccountId)
    (p : HistoryPass ω) (op : Option ω) : Except (AccountHistory ω) (HistoryPass ω) := do
  let p := { p with oho := none }
  match op with
  | none => return p.skipOhoId undoEnabled
  | some op =>
    if opts.maxOpsPerAccount = 0 ∧ opts.partialOperations = true then return p.skipOhoId undoEnabled
    else
      let p := if opts.partialOperations then p else p.createOho op
      let p ←
        if opts.trackedAccounts.elems = [] then p.addAll opts (impacted op) op
        else if 0 < opts.maxOpsPerAccount then
          opts.trackedAccounts.elems.foldlM (addIfImpacted opts (impacted op) op) p
        else .ok p
      return if opts.partialOperations = true ∧ p.oho = none then p.skipOhoId undoEnabled else p

end HistoryPass

def AccountHistory.update (opts : AccountHistoryOptions) (undoEnabled : Bool)
    (impacted : ω → FlatSet AccountId) (ops : List (Option ω)) (s : AccountHistory ω) :
    AccountHistory ω :=
  match ops.foldlM (HistoryPass.processOp opts undoEnabled impacted) { history := s } with
  | .ok p => p.history
  | .error history => history

structure HistoryBlock (ω : Type) where
  newAccounts : List AccountId
  applied : List (Option ω)
  undoEnabled : Bool

structure HistoryChain (ω : Type) where
  history : AccountHistory ω := {}
  applied : List (Option ω) := []

def AccountHistory.createAccount (s : AccountHistory ω) (account : AccountId) : AccountHistory ω :=
  if (s.statistics.lookup account).isSome then s
  else { s with statistics := s.statistics.insert account {} }

def HistoryChain.step (opts : AccountHistoryOptions) (impacted : ω → FlatSet AccountId)
    (c : HistoryChain ω) (b : HistoryBlock ω) : Except Exception (HistoryChain ω) :=
  .ok {
    history := (b.newAccounts.foldl AccountHistory.createAccount c.history).update opts b.undoEnabled
      impacted b.applied
    applied := c.applied ++ b.applied }

/-- Follow `next` from an entry, the newest first.  The null id ends the list; it is also the id of
the very first entry. -/
def AccountHistory.follow (s : AccountHistory ω) (account : AccountId) :
    (fuel : Nat) → (id : Nat) → Except Exception (List HistoryEntry)
  | 0, _ => .error .diverges
  | fuel + 1, id =>
    match s.entries.find? fun e => e.id = id with
    | none => if id = 0 then .ok [] else .error (.fc "Unable to find Object")
    | some e =>
      if id = 0 then .ok (if e.account = account then [e] else [])
      else (e :: ·) <$> s.follow account fuel e.next

end Meta1Core.Plugins
