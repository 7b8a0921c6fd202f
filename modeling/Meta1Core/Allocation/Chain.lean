import Meta1Core.Allocation.Property

/-!
# Smooth allocation as a state machine

The part of the chain state that smooth allocation reads and writes, the evaluators of the
operations on limitations and properties, `update_smooth_allocation`, and the events that move a
chain: an operation, evaluated at the time of the previous block, or the end of a block.
-/

namespace Meta1Core.Allocation

structure AssetLimitationObject where
  id : Nat
  limitSymbol : String
  issuer : Nat
  cumulativeSellLimit : Nat
  deriving DecidableEq

/-- The indexes that smooth allocation works on.  Of an account only the name and the id are read, of
an asset the symbol. -/
structure ChainState where
  headBlockTime : Nat
  accounts : List (String × Nat)
  assets : List String
  assetLimitations : List AssetLimitationObject
  nextAssetLimitationId : Nat
  properties : List PropertyObject
  nextPropertyId : Nat
  deriving DecidableEq

namespace ChainState

def findAccount (s : ChainState) (name : String) : Option Nat :=
  (s.accounts.find? (·.1 = name)).map (·.2)

def findLimitation (s : ChainState) (symbol : String) : Option AssetLimitationObject :=
  s.assetLimitations.find? (·.limitSymbol = symbol)

/-- `property_id_type::operator()( db )` -/
def getProperty (s : ChainState) (id : Nat) : Except Exception PropertyObject :=
  match s.properties.find? (·.id = id) with
  | some p => .ok p
  | none => .error (.fc "Unable to find Object")

def modifyProperty (s : ChainState) (p : PropertyObject) : ChainState :=
  { s with properties := s.properties.map fun q => if q.id = p.id then p else q }

end ChainState

def setSellLimit (symbol : String) (limit : Nat) (alos : List AssetLimitationObject) :
    List AssetLimitationObject :=
  alos.map fun a => if a.limitSymbol = symbol then { a with cumulativeSellLimit := limit } else a

/-! ## Evaluators -/

structure AssetLimitationCreateOperation where
  fee : Int
  limitSymbol : String
  issuer : Nat
  deriving DecidableEq

def AssetLimitationCreateOperation.validate (op : AssetLimitationCreateOperation) :
    Except Exception Unit :=
  fcAssert (0 ≤ op.fee) "fee.amount >= 0"

def AssetLimitationCreateOperation.doEvaluate (op : AssetLimitationCreateOperation)
    (s : ChainState) : Except Exception Unit := do
  fcAssert (s.findLimitation op.limitSymbol = none)
    "asset_limitation_id_itr == asset_limitation_indx.end()"
  fcAssert (s.findAccount "meta1" ≠ none) "Unable to find meta1 account"
  fcAssert (s.findAccount "meta1" = some op.issuer)
    "limit asset cannot create with this account , limit asset can be created only by meta1 account"

def AssetLimitationCreateOperation.doApply (op : AssetLimitationCreateOperation)
    (s : ChainState) : ChainState :=
  { s with
    assetLimitations := s.assetLimitations ++ [⟨s.nextAssetLimitationId, op.limitSymbol, op.issuer, 0⟩]
    nextAssetLimitationId := s.nextAssetLimitationId + 1 }

structure AssetLimitationUpdateOperation where
  fee : Int
  issuer : Nat
  assetLimitationObjectToUpdate : Nat
  deriving DecidableEq

/-- `asset_limitation_update_evaluator`, whose `do_apply` modifies nothing -/
def AssetLimitationUpdateOperation.evaluate (op : AssetLimitationUpdateOperation)
    (s : ChainState) : Except Exception Unit := do
  fcAssert (0 ≤ op.fee) "fee.amount >= 0"
  match s.assetLimitations.find? (·.id = op.assetLimitationObjectToUpdate) with
  | none => .error (.fc "Unable to find Object")
  | some a =>
    fcAssert (op.issuer = a.issuer) "Incorrect issuer for limitation asset!"
    fcAssert (s.findAccount "meta1" = some op.issuer)
      "backed asset cannot update with this account , backed asset can be updated only by meta1 account"

def PropertyCreateOperation.doEvaluate (op : PropertyCreateOperation) (s : ChainState) :
    Except Exception Unit := do
  fcAssert (∀ p ∈ s.properties, p.propertyId ≠ op.propertyId)
    "property_id_itr == property_indx.end()"
  op.validate
  fcAssert (s.findLimitation op.backedByAssetSymbol ≠ none)
    "asset_limitation_object not exists for backed_by_asset_symbol"
  fcAssert (s.findAccount "meta1" ≠ none) "Unable to find meta1 account"
  fcAssert (s.findAccount "meta1" = some op.issuer)
    "backed asset cannot create with this account , backed asset can be created only by meta1 account"
  fcAssert (4 ≤ op.allocationDurationMinutes.toNat) "op.allocation_duration_minutes >= 4"

def PropertyCreateOperation.doApply (op : PropertyCreateOperation) (s : ChainState) :
    Except Exception ChainState := do
  let p ← createProperty s.headBlockTime op s.nextPropertyId
  return { s with properties := s.properties ++ [p], nextPropertyId := s.nextPropertyId + 1 }

def PropertyUpdateOperation.doEvaluate (op : PropertyUpdateOperation) (s : ChainState) :
    Except Exception PropertyObject := do
  let p ← s.getProperty op.propertyToUpdate
  fcAssert (op.issuer = p.issuer) "Incorrect issuer for backed asset!"
  op.validate
  fcAssert (s.findLimitation p.backedByAssetSymbol ≠ none)
    "asset_limitation_object not exists for backed_by_asset_symbol"
  fcAssert (s.findAccount "meta1" = some op.issuer)
    "backed asset cannot update with this account , backed asset can be updated only by meta1 account"
  return p

def PropertyUpdateOperation.doApply (op : PropertyUpdateOperation) (p : PropertyObject)
    (s : ChainState) : ChainState :=
  s.modifyProperty { p with options := op.newOptions }

def PropertyApproveOperation.doEvaluate (op : PropertyApproveOperation) (s : ChainState) :
    Except Exception PropertyObject := do
  let p ← s.getProperty op.propertyToApprove
  fcAssert (op.issuer = p.issuer) "Incorrect issuer for backed asset!"
  op.validate
  fcAssert (s.headBlockTime < p.approvalEndDate) "The approval deadline passed"
  fcAssert (p.approvalDate = none) "Backing asset is already approved!"
  return p

def PropertyApproveOperation.doApply (_op : PropertyApproveOperation) (p : PropertyObject)
    (s : ChainState) : Except Exception ChainState := do
  let approved ← approveProperty s.headBlockTime p
  return s.modifyProperty approved

def PropertyDeleteOperation.doEvaluate (op : PropertyDeleteOperation) (s : ChainState) :
    Except Exception PropertyObject := do
  let p ← s.getProperty op.property
  fcAssert (p.issuer = op.feePayingAccount) "_property->issuer == o.fee_paying_account"
  return p

def u64Sub (a b : Nat) : Nat := (a + 2 ^ 64 - b) % 2 ^ 64

/-- The first half of `property_delete_evaluator::do_apply`: roll back the limit that the property
contributed to. -/
def rollBackSellLimit (p : PropertyObject) (s : ChainState) :
    Except Exception (List AssetLimitationObject) :=
  match s.findLimitation p.backedByAssetSymbol with
  | none => .ok s.assetLimitations
  | some a => do
    let contribution ← calcMeta1Contribution p
    return setSellLimit p.backedByAssetSymbol (u64Sub a.cumulativeSellLimit contribution)
      s.assetLimitations

def PropertyDeleteOperation.doApply (_op : PropertyDeleteOperation) (p : PropertyObject)
    (s : ChainState) : Except Exception ChainState := do
  let alos ← rollBackSellLimit p s
  return { s with
    assetLimitations := alos
    properties := s.properties.filter (·.id ≠ p.id) }

/-! ## `update_smooth_allocation` -/

/-- The first loop: every limitation is on a symbol whose asset exists. -/
def checkLimitationAssets (s : ChainState) : Except Exception Unit :=
  fcAssert (∀ a ∈ s.assetLimitations, a.limitSymbol ∈ s.assets) "itr != asset_idx.end()"

/-- The third loop: the contribution of every property, beside the symbol it backs. -/
def contributions (ps : List PropertyObject) : Except Exception (List (String × Nat)) :=
  ps.mapM fun p => do return (p.backedByAssetSymbol, ← calcMeta1Contribution p)

def contributionTo (symbol : String) (cs : List (String × Nat)) : Nat :=
  ((cs.filter (·.1 = symbol)).map (·.2)).sum

/-- The symbols of a `std::map`, in the order of its iteration -/
def mapKeys (cs : List (String × Nat)) : List String :=
  ((cs.map (·.1)).dedup).insertionSort (· ≤ ·)

/-- The last loop, with the limits assigned before an assertion failed, if one did.  The casts leave
the checked sum as it is. -/
def assignSellLimits (cs : List (String × Nat)) :
    List String → List AssetLimitationObject → List AssetLimitationObject × Option Exception
  | [], alos => (alos, none)
  | symbol :: symbols, alos =>
    if contributionTo symbol cs ≤ 2 ^ 64 - 1 then
      if (alos.find? (·.limitSymbol = symbol)).isSome then
        assignSellLimits cs symbols (setSellLimit symbol (contributionTo symbol cs) alos)
      else (alos, some (.fc "itr != asset_limitation_idx.end()"))
    else (alos, some (.fc "contribution <= max_uint64"))

/-- The `try` block: the state that it leaves behind, and what was thrown, if anything was -/
def smoothAllocationBody (s : ChainState) : ChainState × Option Exception :=
  match checkLimitationAssets s with
  | .error e => (s, some e)
  | .ok () =>
    match s.properties.mapM (allocateProperty s.headBlockTime) with
    | .error e => (s, some e)
    | .ok ps =>
      match contributions ps with
      | .error e => ({ s with properties := ps }, some e)
      | .ok cs =>
        let (alos, thrown) := assignSellLimits cs (mapKeys cs) s.assetLimitations
        ({ s with properties := ps, assetLimitations := alos }, thrown)

/-- `database::update_smooth_allocation` drops an `fc::exception`; any other exception leaves it. -/
def updateSmoothAllocation (s : ChainState) : Except Exception ChainState :=
  match smoothAllocationBody s with
  | (s', none) => .ok s'
  | (s', some (.fc _)) => .ok s'
  | (_, some e) => .error e

inductive Event where
  /-- an `account_create_operation` registers a name that is not yet taken -/
  | accountCreate (name : String)
  /-- an `asset_create_operation` registers a symbol that is not yet taken -/
  | assetCreate (symbol : String)
  | assetLimitationCreate (op : AssetLimitationCreateOperation)
  | assetLimitationUpdate (op : AssetLimitationUpdateOperation)
  | propertyCreate (op : PropertyCreateOperation)
  | propertyUpdate (op : PropertyUpdateOperation)
  | propertyApprove (op : PropertyApproveOperation)
  | propertyDelete (op : PropertyDeleteOperation)
  /-- the block that carries the operations since the last one ends -/
  | block (timestamp : UInt32)
  deriving DecidableEq

/-- Operations see the time of the previous block; `_apply_block` moves the time after the last of
them and ends with `update_smooth_allocation`. -/
def applyEvent (s : ChainState) : Event → Except Exception ChainState
  | .accountCreate name => do
    fcAssert (s.findAccount name = none) "Account already exists."
    return { s with accounts := s.accounts ++ [(name, s.accounts.length)] }
  | .assetCreate symbol => do
    fcAssert (symbol ∉ s.assets) "asset_symbol_itr == asset_indx.end()"
    return { s with assets := s.assets ++ [symbol] }
  | .assetLimitationCreate op => do
    op.validate
    op.doEvaluate s
    return op.doApply s
  | .assetLimitationUpdate op => do
    op.evaluate s
    return s
  | .propertyCreate op => do
    op.doEvaluate s
    op.doApply s
  | .propertyUpdate op => do
    let p ← op.doEvaluate s
    return op.doApply p s
  | .propertyApprove op => do
    let p ← op.doEvaluate s
    op.doApply p s
  | .propertyDelete op => do
    op.validate
    let p ← op.doEvaluate s
    op.doApply p s
  | .block timestamp => do
    fcAssert (s.headBlockTime < timestamp.toNat) "head_block_time() < next_block.timestamp"
    updateSmoothAllocation { s with headBlockTime := timestamp.toNat }

structure ChainState.Genesis (s : ChainState) : Prop where
  headBlockTime_lt : s.headBlockTime < 2 ^ 32
  assetLimitations : s.assetLimitations = []
  properties : s.properties = []

def testOptions : PropertyOptions where
  description := "some description"
  title := "some title"
  ownerContactEmail := "my@email.com"
  custodian := "you"
  detailedDocumentLink := "https://fsf.com"
  imageUrl := "https://purepng.com/metal-1701528976849tkdsl.png"
  propertyAssignee := "222"
  propertySuretyBondValue := 1
  propertySuretyBondNumber := 33104

def testGenesis (headBlockTime : Nat) : ChainState where
  headBlockTime := headBlockTime
  accounts := [("meta1", 0)]
  assets := ["META1"]
  assetLimitations := []
  nextAssetLimitationId := 0
  properties := []
  nextPropertyId := 0

def testProperty (propertyId : UInt32) (value : UInt64) (minutes : UInt32) (symbol : String) :
    Event :=
  .propertyCreate ⟨0, propertyId, 0, value, minutes, symbol, testOptions⟩

end Meta1Core.Allocation
