import Mathlib.Data.List.Sort
import Meta1Core.Allocation.Time
import Meta1Core.Ledger.Extended

/-!
# Hashed time locks (`htlc_evaluator.cpp`, `htlc.cpp`, `clear_expired_htlcs`)

An amount leaves the account of its owner and is locked until somebody shows the preimage of a hash,
or until the lock expires.
-/

namespace Meta1Core.Htlc

open Allocation (u32)
open Lib (Index)
open Protocol Ledger

inductive HashAlgorithm where
  | ripemd160
  | sha1
  | sha256
  deriving DecidableEq

abbrev Bytes := List UInt8

structure HtlcHash where
  algorithm : HashAlgorithm
  digest : Bytes
  deriving DecidableEq

abbrev Hashing := HashAlgorithm → Bytes → Bytes

def HtlcHash.visit (hashing : Hashing) (h : HtlcHash) (preimage : Bytes) : Bool :=
  hashing h.algorithm preimage = h.digest

structure HtlcObject where
  fromAccount : AccountId
  toAccount : AccountId
  amount : Asset
  preimageHash : HtlcHash
  preimageSize : Nat
  expiration : Nat
  deriving DecidableEq

structure HtlcOptions where
  maxTimeoutSecs : Nat
  maxPreimageSize : Nat
  deriving DecidableEq

structure Objects where
  updatableHtlcOptions : Option HtlcOptions := none
  htlcs : Index HtlcObject := ∅

abbrev State := Extended Objects
abbrev Evaluation := Extended.Evaluation Objects

open Extended

def fetchHtlc (id : Nat) : Evaluation HtlcObject := do
  match (← get).objects.htlcs.find id with
  | some h => return h
  | none => throw (.fc "Unable to find Object")

def writeHtlcs (f : Index HtlcObject → Index HtlcObject) : Evaluation Unit :=
  modify fun s => { s with objects := { s.objects with htlcs := f s.objects.htlcs } }

structure CreateOperation where
  fee : Asset
  fromAccount : AccountId
  toAccount : AccountId
  amount : Asset
  preimageHash : HtlcHash
  preimageSize : Nat
  claimPeriodSeconds : Nat
  deriving DecidableEq

namespace CreateOperation

def validate (op : CreateOperation) : Except Exception Unit := do
  fcAssert (0 ≤ op.fee.amount) "Fee amount should not be negative"
  fcAssert (0 < op.amount.amount) "HTLC amount should be greater than zero"

def fetchOptions : Evaluation HtlcOptions := do
  match (← get).objects.updatableHtlcOptions with
  | some options => return options
  | none => throw (.fc "HTLC Committee options are not set.")

def doEvaluate (op : CreateOperation) : Evaluation Unit := do
  let options ← fetchOptions
  require (op.claimPeriodSeconds ≤ options.maxTimeoutSecs) "HTLC Timeout exceeds allowed length"
  require (op.preimageSize ≤ options.maxPreimageSize)
    "HTLC preimage length exceeds allowed length"
  require (op.amount.amount ≤ getBalance op.fromAccount op.amount.assetId (← get).ledger)
    "Insufficient funds"
  let assetToTransfer ← onLedger (assets.fetch op.amount.assetId)
  let fromAccount ← onLedger (accounts.fetch op.fromAccount)
  let toAccount ← onLedger (accounts.fetch op.toAccount)
  require (isAuthorizedAsset fromAccount op.amount.assetId assetToTransfer)
    "Asset is not authorized for account."
  require (isAuthorizedAsset toAccount op.amount.assetId assetToTransfer)
    "Asset is not authorized for account."

def htlc (op : CreateOperation) (now : Nat) : HtlcObject where
  fromAccount := op.fromAccount
  toAccount := op.toAccount
  amount := op.amount
  preimageHash := op.preimageHash
  preimageSize := op.preimageSize
  expiration := u32 (now + op.claimPeriodSeconds)

def doApply (op : CreateOperation) : Evaluation Nat := do
  onLedger (adjustBalance op.fromAccount op.amount.neg)
  let now ← headBlockTime
  let id := (← get).objects.htlcs.next
  writeHtlcs (·.create (op.htlc now))
  return id

def evaluate (ctx : TransactionEvaluationState) (requiredFee : Int) (op : CreateOperation) :
    Evaluation Nat := do
  op.validate
  startEvaluate ctx op.fromAccount op.fee requiredFee op.doEvaluate fun _ => op.doApply

end CreateOperation

structure RedeemOperation where
  fee : Asset
  htlcId : Nat
  redeemer : AccountId
  preimage : Bytes
  deriving DecidableEq

namespace RedeemOperation

def validate (op : RedeemOperation) : Except Exception Unit :=
  fcAssert (0 ≤ op.fee.amount) "Fee amount should not be negative"

def doEvaluate (hashing : Hashing) (op : RedeemOperation) : Evaluation HtlcObject := do
  let htlcObj ← fetchHtlc op.htlcId
  require (op.preimage.length = htlcObj.preimageSize) "Preimage size mismatch."
  require (htlcObj.preimageHash.visit hashing op.preimage = true)
    "Provided preimage does not generate correct hash."
  return htlcObj

def doApply (op : RedeemOperation) (htlcObj : HtlcObject) : Evaluation Unit := do
  onLedger (adjustBalance htlcObj.toAccount htlcObj.amount)
  writeHtlcs (·.remove op.htlcId)

def evaluate (hashing : Hashing) (ctx : TransactionEvaluationState) (requiredFee : Int)
    (op : RedeemOperation) : Evaluation Unit := do
  op.validate
  startEvaluate ctx op.redeemer op.fee requiredFee (op.doEvaluate hashing) op.doApply

end RedeemOperation

/-! ## `htlc_extend_operation` -/

structure ExtendOperation where
  fee : Asset
  htlcId : Nat
  updateIssuer : AccountId
  secondsToAdd : Nat
  deriving DecidableEq

namespace ExtendOperation

def validate (op : ExtendOperation) : Except Exception Unit :=
  fcAssert (0 ≤ op.fee.amount) "Fee amount should not be negative"

/-- The options that `do_evaluate` reads without asking whether they are set -/
def readOptions : Evaluation HtlcOptions := do
  match (← get).objects.updatableHtlcOptions with
  | some options => return options
  | none => throw .undefined

/-- `htlc_extend_evaluator::do_evaluate`; the first sum is one of 64-bit numbers, the others are
times. -/
def doEvaluate (op : ExtendOperation) : Evaluation Unit := do
  let htlcObj ← fetchHtlc op.htlcId
  require (op.updateIssuer = htlcObj.fromAccount) "HTLC may only be extended by its creator."
  require (htlcObj.expiration + op.secondsToAdd < 2 ^ 32 - 1)
    "Extension would cause an invalid date"
  let options ← readOptions
  let now ← headBlockTime
  require (u32 (htlcObj.expiration + op.secondsToAdd) ≤ u32 (now + options.maxTimeoutSecs))
    "Extension pushes contract too far into the future"

def extend (op : ExtendOperation) (h : HtlcObject) : HtlcObject :=
  { h with expiration := u32 (h.expiration + op.secondsToAdd) }

def doApply (op : ExtendOperation) : Evaluation Unit :=
  writeHtlcs (·.modify op.htlcId op.extend)

def evaluate (ctx : TransactionEvaluationState) (requiredFee : Int) (op : ExtendOperation) :
    Evaluation Unit := do
  op.validate
  startEvaluate ctx op.updateIssuer op.fee requiredFee op.doEvaluate fun _ => op.doApply

end ExtendOperation

def byExpiration (e e' : Σ _ : Nat, HtlcObject) : Prop :=
  e.2.expiration < e'.2.expiration ∨ e.2.expiration = e'.2.expiration ∧ e.1 ≤ e'.1

instance : DecidableRel byExpiration := fun _ _ => inferInstanceAs (Decidable (_ ∨ _ ∧ _))

def expiredHtlcs (now : Nat) (htlcs : Index HtlcObject) : List (Σ _ : Nat, HtlcObject) :=
  (htlcs.rows.entries.filter fun e => e.2.expiration ≤ now).insertionSort byExpiration

/-- One turn of the loop of `clear_expired_htlcs` -/
def refund (e : Σ _ : Nat, HtlcObject) : Evaluation Unit := do
  onLedger (adjustBalance e.2.fromAccount e.2.amount)
  writeHtlcs (·.remove e.1)

def clearExpiredHtlcs : Evaluation Unit := do
  let s ← get
  (expiredHtlcs s.ledger.headBlockTime s.objects.htlcs).forM refund

def applyBlock (time : Nat) : Evaluation Unit := do
  modify fun s => { s with ledger := { s.ledger with headBlockTime := time } }
  clearExpiredHtlcs

/-! ## The chain -/

inductive Event where
  | create (ctx : TransactionEvaluationState) (requiredFee : Int) (op : CreateOperation)
  | redeem (ctx : TransactionEvaluationState) (requiredFee : Int) (op : RedeemOperation)
  | extend (ctx : TransactionEvaluationState) (requiredFee : Int) (op : ExtendOperation)
  | block (time : Nat)
  | elsewhere (ledger : Ledger.State) (options : Option HtlcOptions)

inductive Record where
  | created (id : Nat) (op : CreateOperation)
  | redeemed (id : Nat) (preimage : Bytes) (account : AccountId) (amount : Asset)
  | refunded (id : Nat) (time : Nat) (account : AccountId) (amount : Asset)
  | fee (payer : AccountId) (fee : Asset)
  | elsewhere (before after : Ledger.State)

/-- The chain with what has moved the balances so far, the latest last -/
structure Chain where
  state : State
  history : List Record := []

def Chain.find (c : Chain) (id : Nat) : Option HtlcObject := c.state.objects.htlcs.find id

def Chain.redemption (c : Chain) (op : RedeemOperation) : List Record :=
  (c.find op.htlcId).toList.map fun h => .redeemed op.htlcId op.preimage h.toAccount h.amount

def Chain.refunds (c : Chain) (time : Nat) : List Record :=
  (expiredHtlcs time c.state.objects.htlcs).map fun e =>
    .refunded e.1 time e.2.fromAccount e.2.amount

def step (hashing : Hashing) (c : Chain) : Event → Except Exception Chain
  | .create ctx requiredFee op => do
    let id := c.state.objects.htlcs.next
    let s ← Lib.commit (op.evaluate ctx requiredFee) c.state
    return ⟨s, c.history ++ [.created id op, .fee op.fromAccount op.fee]⟩
  | .redeem ctx requiredFee op => do
    let s ← Lib.commit (op.evaluate hashing ctx requiredFee) c.state
    return ⟨s, c.history ++ c.redemption op ++ [.fee op.redeemer op.fee]⟩
  | .extend ctx requiredFee op => do
    let s ← Lib.commit (op.evaluate ctx requiredFee) c.state
    return ⟨s, c.history ++ [.fee op.updateIssuer op.fee]⟩
  | .block time => do
    fcAssert (c.state.ledger.headBlockTime < time ∧ time < 2 ^ 32)
      "head_block_time() < next_block.timestamp"
    let s ← Lib.commit (applyBlock time) c.state
    return ⟨s, c.history ++ c.refunds time⟩
  | .elsewhere ledger options => do
    fcAssert (ledger.headBlockTime = c.state.ledger.headBlockTime) "the time is that of the head"
    return ⟨⟨ledger, { c.state.objects with updatableHtlcOptions := options }⟩,
      c.history ++ [.elsewhere c.state.ledger ledger]⟩

end Meta1Core.Htlc
