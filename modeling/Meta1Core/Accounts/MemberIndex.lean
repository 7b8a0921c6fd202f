import Meta1Core.Lib.Links
import Meta1Core.Voting.Evaluators

/-!
# The index of memberships (`account_member_index`)

The index remembers what an account referred to before a modification, and compares afterwards.
There is one place to remember it in, so a modification inside a modification overwrites what was
remembered for the outer one.
-/

namespace Meta1Core.Accounts

open Lib (FlatSet Links Table)
open Protocol

variable {Key Addr : Type}

/-- `account_object`, with what the members are taken from; `memoKey` is in its options. -/
structure AccountObject (Key Addr : Type) extends Voting.AccountObject where
  owner : Authority Key Addr
  active : Authority Key Addr
  memoKey : Key

namespace AccountObject

def RefersToAccount (a : AccountObject Key Addr) (id : AccountId) : Prop :=
  id ∈ a.owner.accountAuths.map Prod.fst ∨ id ∈ a.active.accountAuths.map Prod.fst

def RefersToKey (a : AccountObject Key Addr) (k : Key) : Prop :=
  k ∈ a.owner.keyAuths.map Prod.fst ∨ k ∈ a.active.keyAuths.map Prod.fst ∨ k = a.memoKey

def RefersToAddress (address : Key → Addr) (a : AccountObject Key Addr) (x : Addr) : Prop :=
  x ∈ a.owner.addressAuths.map Prod.fst ∨ x ∈ a.active.addressAuths.map Prod.fst ∨
    x = address a.memoKey

def keys (a : AccountObject Key Addr) : List Key :=
  a.owner.keyAuths.map Prod.fst ++ a.active.keyAuths.map Prod.fst ++ [a.memoKey]

end AccountObject

variable [LinearOrder Key] [LinearOrder Addr]

/-! ## The index -/

section Index

variable (address : Key → Addr)

def getAccountMembers (a : AccountObject Key Addr) : FlatSet AccountId :=
  .ofList (a.owner.accountAuths.map Prod.fst ++ a.active.accountAuths.map Prod.fst)

/-- `get_key_members`; the order is that of `pubkey_comparator`. -/
def getKeyMembers (a : AccountObject Key Addr) : FlatSet Key := .ofList a.keys

def getAddressMembers (a : AccountObject Key Addr) : FlatSet Addr :=
  .ofList (a.owner.addressAuths.map Prod.fst ++ a.active.addressAuths.map Prod.fst ++
    [address a.memoKey])

/-- The `operator<` that `std::set_difference` finds for two keys: it is that of their addresses. -/
def lessByAddress (k k' : Key) : Prop := address k < address k'

instance : DecidableRel (lessByAddress address) := fun k k' =>
  inferInstanceAs (Decidable (address k < address k'))

end Index

structure AccountMemberIndex (Key Addr : Type) [LinearOrder Key] [LinearOrder Addr] where
  accountToAccountMemberships : Links AccountId AccountId := ∅
  accountToKeyMemberships : Links Key AccountId := ∅
  accountToAddressMemberships : Links Addr AccountId := ∅
  beforeAccountMembers : FlatSet AccountId := ∅
  beforeKeyMembers : FlatSet Key := ∅
  beforeAddressMembers : FlatSet Addr := ∅

namespace AccountMemberIndex

variable (address : Key → Addr)

def objectInserted (t : AccountMemberIndex Key Addr) (id : AccountId) (a : AccountObject Key Addr) :
    AccountMemberIndex Key Addr :=
  { t with
    accountToAccountMemberships := t.accountToAccountMemberships.linkAll (getAccountMembers a).elems id
    accountToKeyMemberships := t.accountToKeyMemberships.linkAll (getKeyMembers a).elems id
    accountToAddressMemberships :=
      t.accountToAddressMemberships.linkAll (getAddressMembers address a).elems id }

def objectRemoved (t : AccountMemberIndex Key Addr) (id : AccountId) (a : AccountObject Key Addr) :
    AccountMemberIndex Key Addr :=
  { t with
    accountToKeyMemberships := t.accountToKeyMemberships.unlinkAll (getKeyMembers a).elems id
    accountToAddressMemberships :=
      t.accountToAddressMemberships.unlinkAll (getAddressMembers address a).elems id
    accountToAccountMemberships :=
      t.accountToAccountMemberships.unlinkAll (getAccountMembers a).elems id }

def aboutToModify (t : AccountMemberIndex Key Addr) (a : AccountObject Key Addr) :
    AccountMemberIndex Key Addr :=
  { t with
    beforeKeyMembers := getKeyMembers a
    beforeAddressMembers := getAddressMembers address a
    beforeAccountMembers := getAccountMembers a }

def objectModified (t : AccountMemberIndex Key Addr) (id : AccountId) (a : AccountObject Key Addr) :
    AccountMemberIndex Key Addr :=
  { t with
    accountToAccountMemberships := t.accountToAccountMemberships.relink (· < ·)
      t.beforeAccountMembers.elems (getAccountMembers a).elems id
    accountToKeyMemberships := t.accountToKeyMemberships.relink (lessByAddress address)
      t.beforeKeyMembers.elems (getKeyMembers a).elems id
    accountToAddressMemberships := t.accountToAddressMemberships.relink (· < ·)
      t.beforeAddressMembers.elems (getAddressMembers address a).elems id }

end AccountMemberIndex

/-! ## The accounts -/

structure Register (Key Addr : Type) [LinearOrder Key] [LinearOrder Addr] where
  accounts : Table AccountId (AccountObject Key Addr) := ∅
  index : AccountMemberIndex Key Addr := {}

/-- Code that works on the accounts; what it has done before it throws stays done. -/
abbrev Action (Key Addr : Type) [LinearOrder Key] [LinearOrder Addr] (α : Type) :=
  EStateM Exception (Register Key Addr) α

namespace Register

variable (address : Key → Addr)

def getAccount (id : AccountId) : Action Key Addr (AccountObject Key Addr) := fun s =>
  match s.accounts.lookup id with
  | some a => .ok a s
  | none => .error (.fc "Unable to find Object") s

def write (id : AccountId) (f : AccountObject Key Addr → AccountObject Key Addr) :
    Action Key Addr PUnit := do
  let a ← getAccount id
  EStateM.modifyGet fun s => (⟨⟩, { s with accounts := s.accounts.insert id (f a) })

def notify (f : AccountMemberIndex Key Addr → AccountMemberIndex Key Addr) :
    Action Key Addr PUnit :=
  EStateM.modifyGet fun s => (⟨⟩, { s with index := f s.index })

/-- `primary_index::modify`; nobody tells the index if the functor throws. -/
def modify (id : AccountId) (functor : Action Key Addr PUnit) : Action Key Addr PUnit := do
  let before ← getAccount id
  notify fun t => t.aboutToModify address before
  functor
  let after ← getAccount id
  notify fun t => t.objectModified address id after

def insert (id : AccountId) (a : AccountObject Key Addr) : Action Key Addr PUnit := fun s =>
  match s.accounts.lookup id with
  | some _ => .error (.fc "Could not insert object") s
  | none => .ok ⟨⟩ ⟨s.accounts.insert id a, s.index.objectInserted address id a⟩

def remove (id : AccountId) : Action Key Addr PUnit := do
  let a ← getAccount id
  EStateM.modifyGet fun s => (⟨⟩, ⟨s.accounts.erase id, s.index.objectRemoved address id a⟩)

end Register

/-! ## The evaluators -/

section Evaluators

open Register

variable (address : Key → Addr)

structure AccountUpdateOperation (Key Addr : Type) where
  owner : Option (Authority Key Addr) := none
  active : Option (Authority Key Addr) := none
  newMemoKey : Option Key := none

def AccountUpdateOperation.update (o : AccountUpdateOperation Key Addr)
    (a : AccountObject Key Addr) : AccountObject Key Addr :=
  { a with
    owner := o.owner.getD a.owner
    active := o.active.getD a.active
    memoKey := o.newMemoKey.getD a.memoKey }

def updateAccount (id : AccountId) (o : AccountUpdateOperation Key Addr) : Action Key Addr PUnit :=
  modify address id (write id o.update)

/-- What one `pay_out_fees` finds: whether the referrer is a basic account, and what each
`deposit_lazy_vesting` does -/
structure Payout where
  referrerIsBasic : Bool
  toLifetimeReferrer : Except Exception (Option Nat)
  toReferrer : Except Exception (Option Nat)
  toRegistrar : Except Exception (Option Nat)

def depositCashback (acct : AccountId) (newVbid : Except Exception (Option Nat)) :
    Action Key Addr PUnit := do
  match newVbid with
  | .error e => throw e
  | .ok none => pure ⟨⟩
  | .ok (some vb) => modify address acct (write acct fun a => { a with cashbackVb := some vb })

def payOutFees (account : AccountId) (payout : Payout) : Action Key Addr PUnit := do
  if payout.referrerIsBasic then
    modify address account (write account fun acc => { acc with referrer := acc.lifetimeReferrer })
  let a ← getAccount account
  depositCashback address a.lifetimeReferrer payout.toLifetimeReferrer
  depositCashback address a.referrer payout.toReferrer
  depositCashback address a.registrar payout.toRegistrar

/-- `process_fees`; there are no payouts if no fees are pending. -/
def processFees (account : AccountId) : Option (Payout × Payout) → Action Key Addr PUnit
  | none => pure ⟨⟩
  | some (pending, vested) => do
    payOutFees address account pending
    payOutFees address account vested

/-- `do_apply` of `account_upgrade`; the fees are processed while the account is being modified. -/
def upgradeAccount (id : AccountId) (upgradeToLifetimeMember : Bool) (headBlockTime : Nat)
    (fees : Option (Payout × Payout)) : Action Key Addr PUnit :=
  modify address id do
    let a ← getAccount id
    if upgradeToLifetimeMember then
      processFees address id fees
      write id fun a =>
        { a with toAccountObject := Voting.AccountObject.becomeLifetimeMember id a.toAccountObject }
    else if Voting.hardfork613Time < headBlockTime then
      throw (.fc "d.head_block_time() <= HARDFORK_613_TIME")
    else if ¬a.isAnnualMember headBlockTime then
      processFees address id fees
      write id fun a =>
        { a with referrer := id, membershipExpirationDate := headBlockTime + Voting.days 365 }
    else if a.membershipExpirationDate - headBlockTime < Voting.days 3650 then
      write id fun a =>
        { a with membershipExpirationDate := a.membershipExpirationDate + Voting.days 365 }
    else throw (.fc "May not extend annual membership more than a decade into the future.")

end Evaluators

inductive Event (Key Addr : Type) where
  | create (id : AccountId) (a : AccountObject Key Addr)
  | remove (id : AccountId)
  | update (id : AccountId) (o : AccountUpdateOperation Key Addr)
  | upgrade (id : AccountId) (upgradeToLifetimeMember : Bool) (headBlockTime : Nat)
      (fees : Option (Payout × Payout))
  /-- any other modification, with the value that it leaves: those of the maintenance and of `undo` -/
  | assign (id : AccountId) (a : AccountObject Key Addr)

def Event.keys : Event Key Addr → List Key
  | .create _ a => a.keys
  | .remove _ => []
  | .update _ o =>
    o.owner.toList.flatMap (fun au => au.keyAuths.map Prod.fst) ++
      o.active.toList.flatMap (fun au => au.keyAuths.map Prod.fst) ++ o.newMemoKey.toList
  | .upgrade _ _ _ _ => []
  | .assign _ a => a.keys

namespace Register

variable (address : Key → Addr)

def handle : Event Key Addr → Action Key Addr PUnit
  | .create id a => insert address id a
  | .remove id => remove address id
  | .update id o => updateAccount address id o
  | .upgrade id upgradeToLifetimeMember headBlockTime fees =>
    upgradeAccount address id upgradeToLifetimeMember headBlockTime fees
  | .assign id a => modify address id (write id fun _ => a)

/-- The register after some code, whether it has thrown or not -/
def after {α : Type} (m : Action Key Addr α) (s : Register Key Addr) : Register Key Addr :=
  match m s with
  | .ok _ s' => s'
  | .error _ s' => s'

def history (es : List (Event Key Addr)) : Register Key Addr :=
  es.foldl (fun s e => after (handle address e) s) {}

/-- The three maps are the inverse relations. -/
structure Exact (s : Register Key Addr) : Prop where
  accounts : s.index.accountToAccountMemberships.Inverts fun id k =>
    ∃ a, s.accounts.lookup id = some a ∧ a.RefersToAccount k
  keys : s.index.accountToKeyMemberships.Inverts fun id k =>
    ∃ a, s.accounts.lookup id = some a ∧ a.RefersToKey k
  addresses : s.index.accountToAddressMemberships.Inverts fun id x =>
    ∃ a, s.accounts.lookup id = some a ∧ a.RefersToAddress address x

end Register

end Meta1Core.Accounts
