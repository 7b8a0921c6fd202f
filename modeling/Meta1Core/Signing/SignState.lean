import Meta1Core.Lib.Stateful
import Meta1Core.Protocol.Authority
import Mathlib.Data.List.Sort
import Mathlib.Logic.Function.Basic

/-!
# Checking the authority of a transaction

`verify_authority` searches the graph of authorities for signatures.  The search is written over
what it asks of a `sign_state` (`Signer`); `signState` gives the answers of the source.
-/

namespace Meta1Core.Signing

open Lib Protocol

scoped instance lawfulBEq_of_linearOrder {Key : Type} [LinearOrder Key] : LawfulBEq Key :=
  instLawfulBEq

/-- The hashes of a public key.  `ptsAddress k compressed version` is
    `address( pts_address( k, compressed, version ) )`. -/
structure Hashing (Key Addr : Type) where
  ptsAddress : Key → Bool → UInt8 → Addr
  address : Key → Addr

/-- The addresses `signed_by` accepts for a key, in the order it enters them in its tables -/
def Hashing.addresses {Key Addr : Type} (h : Hashing Key Addr) (k : Key) : List Addr :=
  [h.ptsAddress k false 56, h.ptsAddress k true 56, h.ptsAddress k false 0, h.ptsAddress k true 0,
    h.address k]

/-- What keeps `verify_authority` from returning -/
inductive Failure where
  | invalidCommitteeApproval
  | txMissingOtherAuth
  | txMissingOwnerAuth (id : AccountId)
  | txMissingActiveAuth (id : AccountId)
  | txIrrelevantSig
  /-- undefined: the text of an assertion reads through a null `authority*` -/
  | nullAuthority
  /-- undefined: `itr->second` for an `itr` that is `end()` -/
  | endIterator
  deriving DecidableEq

abbrev Check (σ : Type) := EStateM Failure σ

section

variable {Key Addr : Type}

/-- What the search asks of the state it runs on -/
structure Signer (Key Addr σ : Type) where
  /-- note an authority whose entries are looked at -/
  examine : Authority Key Addr → Check σ PUnit
  signedByKey : Key → Check σ Bool
  signedByAddress : Addr → Check σ Bool
  isApproved : AccountId → Check σ Bool
  approve : AccountId → Check σ PUnit

/-- The constant members of a `sign_state` that the search reads -/
structure Rules (Key Addr : Type) where
  getActive : AccountId → Option (Authority Key Addr)
  getOwner : AccountId → Option (Authority Key Addr)
  allowNonImmediateOwner : Bool
  maxRecursion : UInt32

variable {σ : Type}

/-- One of the three loops of `check_authority`; `none` once the threshold is reached, otherwise the
weight so far -/
def weigh {α : Type} (signed : α → Check σ Bool) (threshold : UInt32) :
    List (α × UInt16) → UInt32 → Check σ (Option UInt32)
  | [], total => pure (some total)
  | (a, w) :: rest, total => do
    if ← signed a then
      if threshold ≤ total + w.toUInt32 then pure none
      else weigh signed threshold rest (total + w.toUInt32)
    else weigh signed threshold rest total

variable (S : Signer Key Addr σ) (rules : Rules Key Addr)

def weighSignatures (au : Authority Key Addr) : Check σ (Option UInt32) := do
  S.examine au
  match ← weigh S.signedByKey au.weightThreshold au.keyAuths 0 with
  | none => pure none
  | some total => weigh S.signedByAddress au.weightThreshold au.addressAuths total

/-- `check_authority( au, depth )`, where `approves` answers for an account of `account_auths` -/
def checkWith (approves : AccountId → Check σ Bool) (au : Authority Key Addr) :
    Check σ Bool := do
  match ← weighSignatures S au with
  | none => pure true
  | some total =>
    match ← weigh approves au.weightThreshold au.accountAuths total with
    | none => pure true
    | some total => pure (decide (au.weightThreshold ≤ total))

def checkPointer (check : Authority Key Addr → Check σ Bool) :
    Option (Authority Key Addr) → Check σ Bool
  | none => pure false
  | some au => check au

/-- `check( get_active( id ) ) || ( allow_non_immediate_owner && check( get_owner( id ) ) )` -/
def checkAccount (check : Authority Key Addr → Check σ Bool) (id : AccountId) :
    Check σ Bool := do
  if ← checkPointer check (rules.getActive id) then pure true
  else if rules.allowNonImmediateOwner then checkPointer check (rules.getOwner id)
  else pure false

/-- The first argument is `max_recursion - depth`: at `depth == max_recursion` only an account that
is approved already counts. -/
def approves : Nat → AccountId → Check σ Bool
  | 0, id => S.isApproved id
  | levels + 1, id => do
    if ← S.isApproved id then pure true
    else if ← checkAccount rules (checkWith S (approves levels)) id then
      S.approve id
      pure true
    else pure false

/-- `check_authority( au )`, at depth zero -/
def checkAuthority : Authority Key Addr → Check σ Bool :=
  checkWith S (approves S rules rules.maxRecursion.toNat)

def checkAuthorityOf (id : AccountId) : Check σ Bool := do
  if ← S.isApproved id then pure true
  else checkAccount rules (checkAuthority S rules) id

structure Required (Key Addr : Type) where
  active : List AccountId
  owner : List AccountId
  other : List (Authority Key Addr)

/-- `GRAPHENE_ASSERT( s.check_authority( &auth ), tx_missing_other_auth )` -/
def checkOther (au : Authority Key Addr) : Check σ PUnit := do
  if ← checkAuthority S rules au then pure ⟨⟩ else throw .txMissingOtherAuth

/-- The assertion of the loop over `required_owner`; its text reads `*get_owner( id )`. -/
def checkOwner (ownerApprovals : List AccountId) (id : AccountId) : Check σ PUnit := do
  if id ∈ ownerApprovals then pure ⟨⟩
  else if ← checkPointer (checkAuthority S rules) (rules.getOwner id) then pure ⟨⟩
  else throw (if (rules.getOwner id).isSome then .txMissingOwnerAuth id else .nullAuthority)

/-- The assertion of the loop over `required_active`; its text reads both authorities. -/
def checkActive (id : AccountId) : Check σ PUnit := do
  if ← checkAuthorityOf S rules id then pure ⟨⟩
  else if ← checkPointer (checkAuthority S rules) (rules.getOwner id) then pure ⟨⟩
  else throw (if (rules.getActive id).isSome ∧ (rules.getOwner id).isSome then
    .txMissingActiveAuth id else .nullAuthority)

def each {α : Type} (body : α → Check σ PUnit) : List α → Check σ PUnit
  | [] => pure ⟨⟩
  | a :: rest => do
    body a
    each body rest

def search (required : Required Key Addr) (ownerApprovals : List AccountId) :
    Check σ PUnit := do
  each (checkOther S rules) required.other
  each (checkOwner S rules ownerApprovals) required.owner
  each (checkActive S rules) required.active

end

/-! ## The state of the source -/

section

variable {Key Addr : Type} [LinearOrder Key] [DecidableEq Addr]

abbrev AddressSigs (Key Addr : Type) := Addr → Option Key

/-- Enter every address of every key; a later key takes the place of an earlier one. -/
def addressSigs (h : Hashing Key Addr) (keys : List Key) : AddressSigs Key Addr :=
  keys.foldl
    (fun sigs k => (h.addresses k).foldl (fun sigs a => Function.update sigs a (some k)) sigs)
    fun _ => none

/-- The tables `signed_by( address )` makes when it is first called -/
structure AddressTables (Key Addr : Type) where
  available : AddressSigs Key Addr
  provided : AddressSigs Key Addr

/-- The members of a `sign_state` that the search writes.  `examined` is not among them: it
    records which authorities the search has come to. -/
structure SignState (Key Addr : Type) where
  providedSignatures : List (Key × Bool)
  addressTables : Option (AddressTables Key Addr) := none
  approvedBy : List AccountId
  examined : List (Authority Key Addr) := []

def setSigned (k : Key) (signatures : List (Key × Bool)) : List (Key × Bool) :=
  if k ∈ signatures.map Prod.fst then
    signatures.map fun entry => if entry.1 = k then (k, true) else entry
  else signatures.orderedInsert (fun a b => a.1 ≤ b.1) (k, true)

def markSigned (k : Key) : Check (SignState Key Addr) Bool := do
  modify fun s => { s with providedSignatures := setSigned k s.providedSignatures }
  pure true

def signedByKey (availableKeys : List Key) (k : Key) : Check (SignState Key Addr) Bool := do
  if k ∈ (← get).providedSignatures.map Prod.fst ∨ k ∈ availableKeys then markSigned k
  else pure false

/-- The tables of `signed_by( a )`, made at the first call -/
def getAddressTables (h : Hashing Key Addr) (availableKeys : List Key) :
    Check (SignState Key Addr) (AddressTables Key Addr) := do
  let s ← get
  match s.addressTables with
  | some tables => pure tables
  | none =>
    let tables : AddressTables Key Addr :=
      { available := addressSigs h availableKeys
        provided := addressSigs h (s.providedSignatures.map Prod.fst) }
    set { s with addressTables := some tables }
    pure tables

def signedByAddress (h : Hashing Key Addr) (availableKeys : List Key) (a : Addr) :
    Check (SignState Key Addr) Bool := do
  let tables ← getAddressTables h availableKeys
  match tables.provided a with
  | some k => markSigned k
  | none =>
    match tables.available a with
    | some k => if k ∈ availableKeys then markSigned k else pure false
    -- nothing returns here: the last statement reads `itr->second`, and `itr` is `end()`
    | none => throw .endIterator

def signState (h : Hashing Key Addr) (availableKeys : List Key) :
    Signer Key Addr (SignState Key Addr) where
  examine au := modify fun s => { s with examined := au :: s.examined }
  signedByKey := signedByKey availableKeys
  signedByAddress := signedByAddress h availableKeys
  isApproved id := do pure (decide (id ∈ (← get).approvedBy))
  approve id := modify fun s => { s with approvedBy := s.approvedBy.insert id }

def SignState.make (sigs : List Key) : SignState Key Addr where
  providedSignatures := sigs.map fun k => (k, false)
  approvedBy := [tempAccount]

def removeUnusedSignatures : Check (SignState Key Addr) Bool := do
  let s ← get
  set { s with providedSignatures := s.providedSignatures.filter (·.2) }
  pure (s.providedSignatures.any fun entry => !entry.2)

/-- `flat_set::insert` -/
def insertSorted (id : AccountId) (ids : List AccountId) : List AccountId :=
  if id ∈ ids then ids else ids.orderedInsert (· ≤ ·) id

/-- `operation_get_required_authorities`; `requires op` are the accounts and the authorities that an
operation adds. -/
def operationGetRequiredAuthorities {Op : Type} (requires : Op → Required Key Addr) (op : Op)
    (required : Required Key Addr) : Required Key Addr where
  active := (requires op).active.foldl (fun ids id => insertSorted id ids) required.active
  owner := (requires op).owner.foldl (fun ids id => insertSorted id ids) required.owner
  other := required.other ++ (requires op).other

def requiredAuthorities {Op : Type} (requires : Op → Required Key Addr) (ops : List Op) :
    Required Key Addr :=
  ops.foldl (fun required op => operationGetRequiredAuthorities requires op required)
    { active := [], owner := [], other := [] }

def approvedInitially (activeApprovals ownerApprovals : List AccountId) : List AccountId :=
  (activeApprovals ++ ownerApprovals).foldl (fun ids id => ids.insert id) [tempAccount]

def verifyAuthority {Op : Type} (requires : Op → Required Key Addr) (h : Hashing Key Addr)
    (rules : Rules Key Addr) (ops : List Op) (allowCommittee : Bool)
    (ownerApprovals : List AccountId) : Check (SignState Key Addr) PUnit := do
  let required := requiredAuthorities requires ops
  if allowCommittee = false ∧ committeeAccount ∈ required.active then
    throw .invalidCommitteeApproval
  else
    search (signState h []) rules required ownerApprovals
    if ← removeUnusedSignatures then throw .txIrrelevantSig else pure ⟨⟩

/-- The `sign_state` of `verify_authority` when its loops begin -/
def verifyAuthorityState (sigs : List Key) (activeApprovals ownerApprovals : List AccountId) :
    SignState Key Addr :=
  { SignState.make sigs with approvedBy := approvedInitially activeApprovals ownerApprovals }

end

end Meta1Core.Signing
