import Meta1Core.Allocation.Time
import Meta1Core.Fc.Ratio

/-!
# Properties that back an asset (`property_object`, `property_ops`)

The data of a property, the checks on the operations that create and change one, its allocation
progress, its contribution, and what one block does to one property.
-/

namespace Meta1Core.Allocation

/-! ## Operations and their `validate()` -/

structure PropertyOptions where
  description : String
  title : String
  ownerContactEmail : String
  custodian : String
  detailedDocumentLink : String
  imageUrl : String
  propertyAssignee : String
  propertySuretyBondValue : UInt64
  propertySuretyBondNumber : UInt64
  deriving DecidableEq

def isWordChar (c : Char) : Bool := c.isAlphanum || c == '_'

/-- `is_email_valid`: the whole text matches `(\w+)(\.|_)?(\w*)@(\w+)(\.(\w+))+`, where an
underscore is itself a word character. -/
def isEmailValid (email : String) : Bool :=
  match email.toList.splitOn '@' with
  | [localPart, domain] =>
    (match localPart.splitOn '.' with
      | [w] => w ≠ [] && w.all isWordChar
      | [w, w'] => w ≠ [] && w.all isWordChar && w'.all isWordChar
      | _ => false) &&
    (let labels := domain.splitOn '.'
     2 ≤ labels.length && labels.all fun w => w ≠ [] && w.all isWordChar)
  | _ => false

def PropertyOptions.validate (o : PropertyOptions) : Except Exception Unit := do
  fcAssert (o.ownerContactEmail ≠ "") "!owner_contact_email.empty()"
  fcAssert (isEmailValid o.ownerContactEmail) "is_email_valid(owner_contact_email)"
  fcAssert (o.description ≠ "") "!description.empty()"
  fcAssert (o.custodian ≠ "") "!custodian.empty()"
  fcAssert (o.title ≠ "") "!title.empty()"
  fcAssert (o.detailedDocumentLink ≠ "") "!detailed_document_link.empty()"
  fcAssert (o.propertyAssignee ≠ "") "!property_assignee.empty()"
  fcAssert (0 ≤ o.propertySuretyBondValue) "property_surety_bond_value >= 0"
  fcAssert (0 ≤ o.propertySuretyBondNumber) "property_surety_bond_number >= 0"

structure PropertyCreateOperation where
  fee : Int
  propertyId : UInt32
  issuer : Nat
  appraisedPropertyValue : UInt64
  allocationDurationMinutes : UInt32
  backedByAssetSymbol : String
  commonOptions : PropertyOptions
  deriving DecidableEq

def PropertyCreateOperation.validate (op : PropertyCreateOperation) : Except Exception Unit := do
  fcAssert (0 ≤ op.fee) "fee.amount >= 0"
  fcAssert (0 ≤ op.appraisedPropertyValue) "appraised_property_value >= 0"
  fcAssert (4 ≤ op.allocationDurationMinutes.toNat) "allocation_duration_minutes >= 4"
  fcAssert (op.allocationDurationMinutes.toNat % 4 = 0)
    "The allocation duration should be a multiple of 4 minutes"
  op.commonOptions.validate

structure PropertyUpdateOperation where
  fee : Int
  issuer : Nat
  propertyToUpdate : Nat
  newOptions : PropertyOptions
  deriving DecidableEq

def PropertyUpdateOperation.validate (op : PropertyUpdateOperation) : Except Exception Unit := do
  fcAssert (0 ≤ op.fee) "fee.amount >= 0"
  op.newOptions.validate

structure PropertyApproveOperation where
  fee : Int
  issuer : Nat
  propertyToApprove : Nat
  deriving DecidableEq

def PropertyApproveOperation.validate (op : PropertyApproveOperation) : Except Exception Unit :=
  fcAssert (0 ≤ op.fee) "fee.amount >= 0"

structure PropertyDeleteOperation where
  fee : Int
  property : Nat
  feePayingAccount : Nat
  deriving DecidableEq

def PropertyDeleteOperation.validate (op : PropertyDeleteOperation) : Except Exception Unit :=
  fcAssert (0 ≤ op.fee) "fee.amount >= 0"

/-! ## The object -/

structure PropertyObject where
  id : Nat
  propertyId : UInt32
  issuer : Nat
  appraisedPropertyValue : UInt64
  allocationDurationMinutes : UInt32
  backedByAssetSymbol : String
  options : PropertyOptions
  creationDate : Nat
  approvalDate : Option Nat
  expired : Bool
  initialEndDate : Nat
  initialCounter : Nat
  initialCounterMax : Nat
  approvalEndDate : Nat
  approvalCounter : Nat
  approvalCounterMax : Nat
  nextAllocationDate : Nat
  deriving DecidableEq

/-- `fc::safe<uint32_t>` multiplication -/
def safeMulU32 (a b : Nat) : Except Exception Nat :=
  if a * b < 2 ^ 32 then .ok (a * b) else .error (.fc "Integer Overflow")

/-- The constructor that `property_create_evaluator::do_apply` passes to `create`. -/
def createProperty (headBlockTime : Nat) (op : PropertyCreateOperation) (id : Nat) :
    Except Exception PropertyObject := do
  let fullDurationSeconds ← safeMulU32 op.allocationDurationMinutes.toNat 60
  let startTime := calcMeta1NextStartTime headBlockTime
  let period ← calcMeta1AllocationInitialParameters startTime fullDurationSeconds
  return {
    id := id
    propertyId := op.propertyId
    issuer := op.issuer
    appraisedPropertyValue := op.appraisedPropertyValue
    allocationDurationMinutes := op.allocationDurationMinutes
    backedByAssetSymbol := op.backedByAssetSymbol
    options := op.commonOptions
    creationDate := startTime
    approvalDate := none
    expired := false
    initialEndDate := period.timeTo25Percent
    initialCounter := 0
    initialCounterMax := period.timeTo25PercentIntervals
    approvalEndDate := period.timeTo100Percent
    approvalCounter := 0
    approvalCounterMax :=
      u32Sub period.timeTo100PercentIntervals period.timeTo25PercentIntervals
    nextAllocationDate := u32 (startTime + meta1IntervalBetweenAllocationSeconds) }

/-- The modification that `property_approve_evaluator::do_apply` makes. -/
def approveProperty (now : Nat) (p : PropertyObject) : Except Exception PropertyObject :=
  if now < p.initialEndDate then
    -- the initial phase: the schedule fixed at creation stays as it is
    .ok { p with approvalDate := some now }
  else do
    let restart ← calcMeta1AllocationRestartParameters now p.approvalEndDate
    fcAssert (p.approvalCounter = 0) "The approval phase counter was not at zero as expected"
    return { p with
      approvalDate := some restart.restartTime
      approvalCounterMax := restart.intervalsToEnd
      nextAllocationDate := u32 (restart.restartTime + meta1IntervalBetweenAllocationSeconds) }

def PropertyObject.getAllocationProgress (p : PropertyObject) : Except Exception ℚ := do
  let initial ← ratioMk (int32OfU32 p.initialCounter) (int32OfU32 p.initialCounterMax)
  let approval ← ratioMk (int32OfU32 p.approvalCounter) (int32OfU32 p.approvalCounterMax)
  let a ← ratioDivInt initial 4
  let tripled ← ratioMulInt approval 3
  let b ← ratioDivInt tripled 4
  ratioAdd a b

def calcMeta1Contribution (p : PropertyObject) : Except Exception Nat := do
  let c128 := p.appraisedPropertyValue.toNat * 10 % 2 ^ 128
  let progress ← p.getAllocationProgress
  let num := (progress.num % 2 ^ 128).toNat
  let den := progress.den
  let multiplicationResult := (c128 * num + den - 1) % 2 ^ 128 / den
  fcAssert (multiplicationResult ≤ 2 ^ 64 - 1) "multiplication_result <= max_uint64"
  return multiplicationResult

/-- The body of the catch-up loop of `update_smooth_allocation`. -/
def PropertyObject.allocateInterval (p : PropertyObject) : PropertyObject :=
  let p := { p with
    nextAllocationDate := u32 (p.nextAllocationDate + meta1IntervalBetweenAllocationSeconds) }
  if p.initialCounter < p.initialCounterMax then
    { p with initialCounter := p.initialCounter + 1 }
  else if p.approvalDate.isSome ∧ p.approvalCounter < p.approvalCounterMax then
    { p with approvalCounter := p.approvalCounter + 1 }
  else p

/-- `while( hbt >= p.next_allocation_date )`: there are `2^32` next allocation dates, so a loop that
has not ended after that many rounds never does. -/
def catchUp (hbt : Nat) : Nat → PropertyObject → Except Exception PropertyObject
  | 0, _ => .error .diverges
  | rounds + 1, p =>
    if hbt ≥ p.nextAllocationDate then catchUp hbt rounds p.allocateInterval else .ok p

/-- What the per-property loop of `update_smooth_allocation` does to `p` at head block time
`hbt`. -/
def allocateProperty (hbt : Nat) (p : PropertyObject) : Except Exception PropertyObject :=
  if p.expired then .ok p
  else if hbt ≥ p.approvalEndDate then
    if p.approvalDate.isNone then
      -- the unapproved property has expired
      .ok { p with expired := true, initialCounter := 0, approvalCounter := 0 }
    else
      -- the approved property has matured
      .ok { p with
        expired := true
        initialCounter := p.initialCounterMax
        approvalCounter := p.approvalCounterMax }
  else if hbt > p.initialEndDate ∧ p.approvalDate.isNone then .ok p
  else catchUp hbt (2 ^ 32) p

end Meta1Core.Allocation
