import Meta1Core.Ledger.Balances

/-!
# Confidential transfers (`confidential.cpp`, `confidential_evaluator.cpp`)

The three operations that move amounts between public balances and blinded ones.
-/

namespace Meta1Core.Confidential

open Protocol Ledger

structure TransferToBlindOperation where
  fee : Asset
  amount : Asset
  sender : AccountId
  blindingFactor : Fin groupOrder
  outputs : List BlindOutput

structure TransferFromBlindOperation where
  fee : Asset
  amount : Asset
  recipient : AccountId
  blindingFactor : Fin groupOrder
  inputs : List BlindInput

structure BlindTransferOperation where
  fee : Asset
  inputs : List BlindInput
  outputs : List BlindOutput

/-- The loops of `validate` count in `uint32_t`; over a longer vector they do not end. -/
def countable {α : Type} (items : List α) : Except Exception Unit :=
  if items.length < 2 ^ 32 then .ok () else .error .diverges

/-- The sum of two `int64_t` that are not negative; signed overflow is undefined. -/
def addInt64 (a b : Int) : Except Exception Int :=
  if a + b < 2 ^ 63 then .ok (a + b) else .error .undefined

section

-- the order of commitments, which is that of their bytes
variable (before : Commitment → Commitment → Bool)

def validateOrder (message : String) (previous : Option Commitment) (current : Commitment) :
    Except Exception Unit :=
  fcAssert (∀ c ∈ previous, before c current) message

def validateOutputs (message : String) :
    Option Commitment → List BlindOutput → Except Exception Unit
  | _, [] => .ok ()
  | previous, out :: rest => do
    validateOrder before message previous out.commitment
    fcAssert (out.owner.isImpossible = false) "!outputs[i].owner.is_impossible()"
    validateOutputs message (some out.commitment) rest

def validateInputs (message : String) :
    Option Commitment → List BlindInput → Except Exception Unit
  | _, [] => .ok ()
  | previous, input :: rest => do
    validateOrder before message previous input.commitment
    validateInputs message (some input.commitment) rest

def validateRanges : List BlindOutput → Except Exception Unit
  | [] => .ok ()
  | out :: rest => do
    let maxValue ← rangeGetInfo out.rangeProof
    fcAssert ((maxValue : Int) ≤ maxShareSupply) "info.max_value <= GRAPHENE_MAX_SHARE_SUPPLY"
    validateRanges rest

/-- The range proofs are only looked at if there is more than one output. -/
def validateRangeProofs (outputs : List BlindOutput) : Except Exception Unit :=
  if 1 < outputs.length then validateRanges outputs else .ok ()

def TransferToBlindOperation.validate (op : TransferToBlindOperation) :
    Except Exception Unit := do
  fcAssert (0 ≤ op.fee.amount) "fee.amount >= 0"
  fcAssert (0 < op.amount.amount) "amount.amount > 0"
  countable op.outputs
  validateOutputs before "all outputs must be sorted by commitment id" none op.outputs
  fcAssert (op.outputs ≠ []) "there must be at least one output"
  let publicC := blind op.blindingFactor op.amount.amount.toNat
  fcAssert (verifySum [publicC] (op.outputs.map (·.commitment)) 0) ""
  validateRangeProofs op.outputs

def TransferFromBlindOperation.validate (op : TransferFromBlindOperation) :
    Except Exception Unit := do
  fcAssert (0 < op.amount.amount) "amount.amount > 0"
  fcAssert (0 ≤ op.fee.amount) "fee.amount >= 0"
  fcAssert (op.inputs ≠ []) "inputs.size() > 0"
  fcAssert (op.amount.assetId = op.fee.assetId) "amount.asset_id == fee.asset_id"
  let netPublic ← addInt64 op.fee.amount op.amount.amount
  let out := blind op.blindingFactor netPublic.toNat
  countable op.inputs
  validateInputs before "all inputs must be sorted by commitment id" none op.inputs
  fcAssert (op.inputs ≠ []) "there must be at least one input"
  fcAssert (verifySum (op.inputs.map (·.commitment)) [out] 0) "fc::ecc::verify_sum( in, out, 0 )"

def BlindTransferOperation.validate (op : BlindTransferOperation) : Except Exception Unit := do
  let inputs := op.inputs.map (·.commitment)
  let outputs := op.outputs.map (·.commitment)
  countable op.inputs
  validateInputs before "in[i-1] < in[i]" none op.inputs
  countable op.outputs
  validateOutputs before "out[i-1] < out[i]" none op.outputs
  fcAssert (op.inputs ≠ []) "there must be at least one input"
  fcAssert (verifySum inputs outputs op.fee.amount) ""
  validateRangeProofs op.outputs
  fcAssert (verifySum inputs outputs op.fee.amount) ""

end

/-! ## Evaluation -/

def findBlindedBalance (c : Commitment) (s : State) : Option Nat :=
  s.blindedBalances.findId fun balance => balance.commitment = c

/-- The object of a commitment, which must be there -/
def getBlindedBalance (message : String) (c : Commitment) : Evaluation Nat := do
  match findBlindedBalance c (← get) with
  | some id => pure id
  | none => throw (.fc message)

def each {α : Type} (f : α → Evaluation Unit) : List α → Evaluation Unit
  | [] => pure ()
  | a :: rest => do
    f a
    each f rest

def checkOwner (out : BlindOutput) : Evaluation Unit :=
  each (fun entry => do let _ ← accounts.fetch entry.1) out.owner.accountAuths

def checkInput (message : String) (assetId : AssetId) (input : BlindInput) :
    Evaluation Unit := do
  let balance ← blindedBalances.fetch (← getBlindedBalance message input.commitment)
  require (balance.assetId = assetId) "itr->asset_id == o.fee.asset_id"
  require (balance.owner = input.owner) "itr->owner == in.owner"

def removeInput (message : String) (input : BlindInput) : Evaluation Unit := do
  blindedBalances.remove (← getBlindedBalance message input.commitment)

/-- An output in `do_apply`; no two objects have the same commitment. -/
def createOutput (assetId : AssetId) (out : BlindOutput) : Evaluation Unit := do
  require (findBlindedBalance out.commitment (← get) = none)
    "Could not create object! Most likely a uniqueness constraint is violated."
  let _ ← blindedBalances.create
    { commitment := out.commitment, assetId := assetId, owner := out.owner }

/-- Change `confidential_supply` and assert that it is not negative. -/
def adjustConfidentialSupply (assetId : AssetId) (delta : Int) : Evaluation Unit :=
  assets.update assetId fun a => do
    let supply ← safe (a.confidentialSupply + delta)
    fcAssert (0 ≤ supply) "obj.confidential_supply >= 0"
    return { a with confidentialSupply := supply }

namespace TransferToBlindOperation

def doEvaluate (op : TransferToBlindOperation) : Evaluation Unit := do
  let a ← assets.fetch op.amount.assetId
  require (a.options.flags.disableConfidential = false) "atype.allow_confidential()"
  require (a.options.flags.transferRestricted = false) "!atype.is_transfer_restricted()"
  require (a.options.flags.whiteList = false) "!(atype.options.flags & white_list)"
  each checkOwner op.outputs

def doApply (op : TransferToBlindOperation) : Evaluation Unit := do
  adjustBalance op.sender op.amount.neg
  adjustConfidentialSupply op.amount.assetId op.amount.amount
  each (createOutput op.amount.assetId) op.outputs

end TransferToBlindOperation

namespace TransferFromBlindOperation

def doEvaluate (op : TransferFromBlindOperation) : Evaluation Unit := do
  let _ ← assets.fetch op.fee.assetId
  each (checkInput "itr != cidx.end()" op.fee.assetId) op.inputs

def doApply (op : TransferFromBlindOperation) : Evaluation Unit := do
  adjustBalance tempAccount op.fee
  adjustBalance op.recipient op.amount
  each (removeInput "itr != cidx.end()") op.inputs
  let taken ← safe (op.amount.amount + op.fee.amount)
  adjustConfidentialSupply op.amount.assetId (-taken)

end TransferFromBlindOperation

namespace BlindTransferOperation

def doEvaluate (op : BlindTransferOperation) : Evaluation Unit := do
  let _ ← assets.fetch op.fee.assetId
  each checkOwner op.outputs
  each (checkInput "blind_transfer_unknown_commitment" op.fee.assetId) op.inputs

def doApply (op : BlindTransferOperation) : Evaluation Unit := do
  adjustBalance tempAccount op.fee
  each (removeInput "blind_transfer_unknown_commitment") op.inputs
  each (createOutput op.fee.assetId) op.outputs
  adjustConfidentialSupply op.fee.assetId (-op.fee.amount)

end BlindTransferOperation

inductive Operation where
  | toBlind (op : TransferToBlindOperation)
  | fromBlind (op : TransferFromBlindOperation)
  | blindTransfer (op : BlindTransferOperation)

structure Context where
  trxState : TransactionEvaluationState
  calculateFee : Operation → Int
  before : Commitment → Commitment → Bool
  isConfigured : State → Nat → Bool

def fbaAccumulatorIdTransferToBlind : Nat := 0
def fbaAccumulatorIdBlindTransfer : Nat := 1
def fbaAccumulatorIdTransferFromBlind : Nat := 2

def evaluate (ctx : Context) (op : Operation) : Evaluation Unit := do
  let pay := payFbaFee ctx.isConfigured ctx.trxState
  match op with
  | .toBlind o =>
    o.validate ctx.before
    startEvaluateWith ctx.trxState o.sender o.fee (ctx.calculateFee op)
      (pay o.sender fbaAccumulatorIdTransferToBlind) o.doEvaluate fun _ => o.doApply
  | .fromBlind o =>
    o.validate ctx.before
    startEvaluateWith ctx.trxState tempAccount o.fee (ctx.calculateFee op)
      (pay tempAccount fbaAccumulatorIdTransferFromBlind) o.doEvaluate fun _ => o.doApply
  | .blindTransfer o =>
    o.validate ctx.before
    startEvaluateWith ctx.trxState tempAccount o.fee (ctx.calculateFee op)
      (pay tempAccount fbaAccumulatorIdBlindTransfer) o.doEvaluate fun _ => o.doApply

def step (s : State) (e : Context × Operation) : Except Exception State :=
  Lib.commit (evaluate e.1 e.2) s

end Meta1Core.Confidential
