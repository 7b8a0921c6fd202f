import Meta1Core.Accounts.FeeScaling
import Meta1Core.Voting.Evaluators

/-!
# Special authorities (`account_evaluator.cpp`, `special_authority_object.hpp`)

So that the maintenance finds them, there is a `special_authority_object` for each of them, which
the evaluators of `account_create` and `account_update` keep in step with the accounts.
-/

namespace Meta1Core.Accounts

open Lib (Index)
open Protocol

def hardfork516Time : Nat := 1456250400

def nullAccount : AccountId := 3

def defaultMaxBuybackMarkets : Nat := 4

inductive SpecialAuthority where
  | noSpecialAuthority
  | topHoldersSpecialAuthority (asset : AssetId) (numTopHolders : UInt8)
  deriving DecidableEq

structure AccountAuthorities (Key Addr : Type) where
  owner : Authority Key Addr
  active : Authority Key Addr
  ownerSpecialAuthority : SpecialAuthority := .noSpecialAuthority
  activeSpecialAuthority : SpecialAuthority := .noSpecialAuthority
  topNControlFlags : UInt8 := 0

def AccountAuthorities.hasSpecialAuthority {Key Addr : Type} (a : AccountAuthorities Key Addr) : Bool :=
  a.ownerSpecialAuthority ≠ .noSpecialAuthority ∨ a.activeSpecialAuthority ≠ .noSpecialAuthority

structure SpecialAuthorityObject where
  account : AccountId
  deriving DecidableEq

structure BuybackAsset where
  issuer : AccountId
  buybackAccount : Option AccountId := none
  deriving DecidableEq

/-- The objects that the evaluators use; the authorities stand under the ids of the accounts. -/
structure Chain (Key Addr : Type) where
  voting : Voting.State
  authorities : AccountId → AccountAuthorities Key Addr
  properties : Properties
  maximumAuthorityMembership : Nat := 10
  assets : Index BuybackAsset := ∅
  /-- the `buyback_object`s, by the asset to buy -/
  buybacks : Index AssetId := ∅
  specialAuthorities : Index SpecialAuthorityObject := ∅

structure BuybackAccountOptions where
  assetToBuy : AssetId
  assetToBuyIssuer : AccountId
  markets : List AssetId
  deriving DecidableEq

structure AccountCreateOperation (Key Addr : Type) extends Voting.AccountCreateOperation where
  owner : Authority Key Addr
  active : Authority Key Addr
  ownerSpecialAuthority : Option SpecialAuthority := none
  activeSpecialAuthority : Option SpecialAuthority := none
  buybackOptions : Option BuybackAccountOptions := none

structure AccountChange (Key Addr : Type) where
  account : AccountId
  owner : Option (Authority Key Addr) := none
  active : Option (Authority Key Addr) := none
  newOptions : Option Voting.AccountOptions := none
  ownerSpecialAuthority : Option SpecialAuthority := none
  activeSpecialAuthority : Option SpecialAuthority := none

/-! ## Checks -/

def validateSpecialAuthority : SpecialAuthority → Except Exception Unit
  | .noSpecialAuthority => .ok ()
  | .topHoldersSpecialAuthority _ numTopHolders => fcAssert (0 < numTopHolders) "a.num_top_holders > 0"

def nullAuthority {Key Addr : Type} : Authority Key Addr where
  weightThreshold := 1
  accountAuths := [(nullAccount, 1)]
  keyAuths := []
  addressAuths := []

def ifPresent {α : Type} (extension : Option α) (f : α → Except Exception Unit) : Except Exception Unit :=
  match extension with
  | some a => f a
  | none => .ok ()

variable {Key Addr : Type}

def verifyAuthorityAccounts (s : Chain Key Addr) (a : Authority Key Addr) : Except Exception Unit := do
  fcAssert (a.accountAuths.length + a.keyAuths.length + a.addressAuths.length ≤
    s.maximumAuthorityMembership) "Maximum authority membership exceeded"
  fcAssert (∀ entry ∈ a.accountAuths, (s.voting.accounts.find entry.1).isSome)
    "Account specified in authority does not exist"

def evaluateSpecialAuthority (s : Chain Key Addr) : SpecialAuthority → Except Exception Unit
  | .noSpecialAuthority => .ok ()
  | .topHoldersSpecialAuthority asset _ =>
    -- require asset to exist
    fcAssert ((s.assets.find asset).isSome) "Unable to find Object"

def evaluateBuybackAccountOptions (s : Chain Key Addr) (bbo : BuybackAccountOptions) :
    Except Exception Unit :=
  match s.assets.find bbo.assetToBuy with
  | none => .error (.fc "Unable to find Object")
  | some a => do
    fcAssert (a.issuer = bbo.assetToBuyIssuer) "Incorrect asset issuer specified in buyback_account_options"
    fcAssert (a.buybackAccount = none) "Cannot create buyback for asset which already has buyback"
    fcAssert (bbo.markets.length < defaultMaxBuybackMarkets) "Too many buyback markets"

def createSpecialAuthority (t : Index SpecialAuthorityObject) (account : AccountId) :
    Except Exception (Index SpecialAuthorityObject) :=
  match t.findId (·.account = account) with
  | some _ => .error (.fc "Could not create object! Most likely a uniqueness constraint is violated.")
  | none => .ok (t.create ⟨account⟩)

/-- Removing the `special_authority_object` of an account; there is an `assert` that it exists. -/
def removeSpecialAuthority (t : Index SpecialAuthorityObject) (account : AccountId) :
    Except Exception (Index SpecialAuthorityObject) :=
  match t.findId (·.account = account) with
  | some id => .ok (t.remove id)
  | none => .error .undefined

namespace AccountCreateOperation

def validate [DecidableEq Key] [DecidableEq Addr] (o : AccountCreateOperation Key Addr) :
    Except Exception Unit := do
  ifPresent o.ownerSpecialAuthority validateSpecialAuthority
  ifPresent o.activeSpecialAuthority validateSpecialAuthority
  ifPresent o.buybackOptions fun bbo => do
    fcAssert (o.ownerSpecialAuthority = none) "!(extensions.value.owner_special_authority.valid())"
    fcAssert (o.activeSpecialAuthority = none) "!(extensions.value.active_special_authority.valid())"
    fcAssert (o.owner = nullAuthority) "owner == authority::null_authority()"
    fcAssert (o.active = nullAuthority) "active == authority::null_authority()"
    fcAssert (0 < bbo.markets.length) "n_markets > 0"
    fcAssert (∀ m ∈ bbo.markets, m ≠ bbo.assetToBuy) "m != extensions.value.buyback_options->asset_to_buy"

def doEvaluate (s : Chain Key Addr) (o : AccountCreateOperation Key Addr) : Except Exception Unit := do
  fcAssert (s.voting.headBlockTime < hardfork516Time → o.ownerSpecialAuthority = none)
    "!op.extensions.value.owner_special_authority.valid()"
  fcAssert (s.voting.headBlockTime < hardfork516Time → o.activeSpecialAuthority = none)
    "!op.extensions.value.active_special_authority.valid()"
  let registrar ← s.voting.account o.registrar
  fcAssert (registrar.isLifetimeMember = true) "Only Lifetime members may register an account."
  let referrer ← s.voting.account o.referrer
  fcAssert (referrer.isMember s.voting.headBlockTime = true)
    "The referrer must be either a lifetime or annual subscriber."
  verifyAuthorityAccounts s o.owner
  verifyAuthorityAccounts s o.active
  ifPresent o.ownerSpecialAuthority (evaluateSpecialAuthority s)
  ifPresent o.activeSpecialAuthority (evaluateSpecialAuthority s)
  ifPresent o.buybackOptions (evaluateBuybackAccountOptions s)
  Voting.verifyAccountVotes s.voting o.options
  fcAssert (o.name ≠ "" → ∀ id ∈ s.voting.ids, s.voting.nameOf id ≠ o.name) "Account already exists."

def authorities (o : AccountCreateOperation Key Addr) : AccountAuthorities Key Addr where
  owner := o.owner
  active := o.active
  ownerSpecialAuthority := o.ownerSpecialAuthority.getD .noSpecialAuthority
  activeSpecialAuthority := o.activeSpecialAuthority.getD .noSpecialAuthority

/-- The end of `do_apply`: the buyback of the new account -/
def createBuyback (account : AccountId) (s : Chain Key Addr) (bbo : BuybackAccountOptions) :
    Except Exception (Chain Key Addr) :=
  if (s.buybacks.findId (· = bbo.assetToBuy)).isSome then
    .error (.fc "Could not create object! Most likely a uniqueness constraint is violated.")
  else if (s.assets.find bbo.assetToBuy).isNone then .error (.fc "Unable to find Object")
  else .ok { s with
    buybacks := s.buybacks.create bbo.assetToBuy
    assets := s.assets.modify bbo.assetToBuy fun a => { a with buybackAccount := some account } }

def doApply (s : Chain Key Addr) (o : AccountCreateOperation Key Addr) :
    Except Exception (Chain Key Addr) := do
  let referrer ← s.voting.account o.referrer
  let newAccount := s.voting.accounts.next
  let properties ← accountCreate s.properties
  let specialAuthorities ←
    (if o.ownerSpecialAuthority.isSome ∨ o.activeSpecialAuthority.isSome then
      createSpecialAuthority s.specialAuthorities newAccount
    else .ok s.specialAuthorities)
  let s := { s with
    voting := { s.voting with
      accounts := s.voting.accounts.create (o.created s.voting referrer.lifetimeReferrer) }
    authorities := Function.update s.authorities newAccount o.authorities
    properties := properties
    specialAuthorities := specialAuthorities }
  match o.buybackOptions with
  | some bbo => createBuyback newAccount s bbo
  | none => .ok s

end AccountCreateOperation

namespace AccountChange

/-- The checks of `account_update_operation::validate` on the extensions -/
def validate (o : AccountChange Key Addr) : Except Exception Unit := do
  fcAssert (o.owner.isSome ∨ o.active.isSome ∨ o.newOptions.isSome ∨ o.ownerSpecialAuthority.isSome ∨
    o.activeSpecialAuthority.isSome) "has_action"
  ifPresent o.ownerSpecialAuthority validateSpecialAuthority
  ifPresent o.activeSpecialAuthority validateSpecialAuthority

def doEvaluate (s : Chain Key Addr) (o : AccountChange Key Addr) : Except Exception Unit := do
  fcAssert (s.voting.headBlockTime < hardfork516Time → o.ownerSpecialAuthority = none)
    "!o.extensions.value.owner_special_authority.valid()"
  fcAssert (s.voting.headBlockTime < hardfork516Time → o.activeSpecialAuthority = none)
    "!o.extensions.value.active_special_authority.valid()"
  ifPresent o.owner (verifyAuthorityAccounts s)
  ifPresent o.active (verifyAuthorityAccounts s)
  ifPresent o.ownerSpecialAuthority (evaluateSpecialAuthority s)
  ifPresent o.activeSpecialAuthority (evaluateSpecialAuthority s)
  let _ ← s.voting.account o.account
  ifPresent o.newOptions (Voting.verifyAccountVotes s.voting)

/-- The functor that `do_apply` modifies the account with -/
def update (o : AccountChange Key Addr) (a : AccountAuthorities Key Addr) : AccountAuthorities Key Addr where
  owner := o.owner.getD a.owner
  active := o.active.getD a.active
  ownerSpecialAuthority := o.ownerSpecialAuthority.getD a.ownerSpecialAuthority
  activeSpecialAuthority := o.activeSpecialAuthority.getD a.activeSpecialAuthority
  topNControlFlags :=
    if o.owner.isSome ∨ o.active.isSome ∨ o.ownerSpecialAuthority.isSome ∨ o.activeSpecialAuthority.isSome
    then 0 else a.topNControlFlags

def doApply (s : Chain Key Addr) (o : AccountChange Key Addr) : Except Exception (Chain Key Addr) := do
  let before := s.authorities o.account
  let after := o.update before
  let specialAuthorities ←
    (if before.hasSpecialAuthority ∧ ¬after.hasSpecialAuthority then
      removeSpecialAuthority s.specialAuthorities o.account
    else if ¬before.hasSpecialAuthority ∧ after.hasSpecialAuthority then
      createSpecialAuthority s.specialAuthorities o.account
    else .ok s.specialAuthorities)
  return { s with
    voting :=
      match o.newOptions with
      | some options => s.voting.modifyAccount o.account (Voting.AccountObject.updateOptions options)
      | none => s.voting
    authorities := Function.update s.authorities o.account after
    specialAuthorities := specialAuthorities }

end AccountChange

end Meta1Core.Accounts
