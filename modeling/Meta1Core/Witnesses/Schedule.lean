import Meta1Core.Allocation.Time
import Meta1Core.Lib.Rows
import Mathlib.Data.List.Sort

/-!
# Witnesses and slots (`db_witness_schedule.cpp`, `db_update.cpp`)

Time is divided into slots of one block interval.  The shuffled witnesses own the slots in turn, and
a block moves three counters that say which slot comes next: the time of the head block, the
absolute slot number and, for each witness, what it has signed.
-/

namespace Meta1Core.Witnesses

open Allocation (u32)
open Lib (Index)

abbrev WitnessId := Nat

def u64 (n : Nat) : Nat := n % 2 ^ 64

/-! ## Objects -/

/-- `block_id_type`: a hash that holds the number of the block in its first word -/
structure BlockId where
  num : Nat
  hash : Nat
  deriving DecidableEq

/-- `signed_block_header`; `digest` stands for the hash of the header, and `signee` for the key that
made the signature. -/
structure Block where
  previous : BlockId
  timestamp : Nat
  witness : WitnessId
  digest : Nat
  signee : Nat
  deriving DecidableEq

namespace Block

def blockNum (b : Block) : Nat := b.previous.num + 1

def id (b : Block) : BlockId := ⟨b.blockNum, b.digest⟩

end Block

structure WitnessObject where
  signingKey : Nat
  lastAslot : Nat := 0
  totalMissed : Int := 0
  lastConfirmedBlockNum : Nat := 0
  deriving DecidableEq

/-- `flat_set< witness_id_type >`, a vector in ascending order -/
structure WitnessSet where
  ids : List WitnessId
  ascending : ids.Pairwise (· < ·)
  deriving DecidableEq

/-- `chain_parameters`; the interval and the skipped slots are `uint8_t`. -/
structure Parameters where
  blockInterval : Nat
  maintenanceSkipSlots : Nat
  witnessPayPerBlock : Int
  deriving DecidableEq

/-- `dynamic_global_property_object`; of the `dynamic_flags` there is only the maintenance flag. -/
structure DynamicProperties where
  headBlockNumber : Nat := 0
  headBlockId : BlockId := ⟨0, 0⟩
  time : Nat
  currentWitness : WitnessId := 0
  nextMaintenanceTime : Nat := 0
  witnessBudget : Int := 0
  recentlyMissedCount : Nat := 0
  currentAslot : Nat := 0
  maintenanceFlag : Bool := false
  lastIrreversibleBlockNum : Nat := 0
  deriving DecidableEq

structure State where
  parameters : Parameters
  activeWitnesses : WitnessSet
  dynamic : DynamicProperties
  /-- `current_shuffled_witnesses` of the `witness_schedule_object` -/
  shuffledWitnesses : List WitnessId
  witnesses : Index WitnessObject

structure NodeOptions where
  skipWitnessSignature : Bool := false
  skipWitnessScheduleCheck : Bool := false
  skipUndoHistoryCheck : Bool := false
  lastCheckpoint : Option Nat := none
  deriving DecidableEq

namespace State

variable (s : State)

def fetchWitness (w : WitnessId) : Except Exception WitnessObject :=
  match s.witnesses.find w with
  | some o => .ok o
  | none => .error (.fc "Unable to find Object")

def modifyWitness (w : WitnessId) (f : WitnessObject → WitnessObject) : State :=
  { s with witnesses := s.witnesses.modify w f }

def getScheduledWitness (slotNum : Nat) : Except Exception WitnessId :=
  let currentAslot := u64 (s.dynamic.currentAslot + slotNum)
  match s.shuffledWitnesses[currentAslot % s.shuffledWitnesses.length]? with
  | some w => .ok w
  | none => .error .undefined

def getSlotTime (slotNum : Nat) : Nat :=
  let interval := s.parameters.blockInterval
  if slotNum = 0 then 0
  else if s.dynamic.headBlockNumber = 0 then
    -- the first block is at genesis time plus one block interval
    u32 (s.dynamic.time + u32 (slotNum * interval))
  else
    let headBlockAbsSlot := s.dynamic.time / interval
    let headSlotTime := u32 (headBlockAbsSlot * interval)
    let slotNum :=
      if s.dynamic.maintenanceFlag then u32 (slotNum + s.parameters.maintenanceSkipSlots)
      else slotNum
    u32 (headSlotTime + u32 (slotNum * interval))

def getSlotAtTime (time : Nat) : Nat :=
  let firstSlotTime := s.getSlotTime 1
  if time < firstSlotTime then 0
  else u32 ((time - firstSlotTime) / s.parameters.blockInterval + 1)

/-- The loop of `update_witness_missed_blocks` over the slots that passed without a block -/
def countMissed : List Nat → State → Except Exception State
  | [], s => .ok s
  | i :: rest, s => do
    let w ← s.getScheduledWitness (i + 1)
    let _ ← s.fetchWitness w
    countMissed rest (s.modifyWitness w fun o => { o with totalMissed := o.totalMissed + 1 })

def updateWitnessMissedBlocks (b : Block) : Except Exception (State × Nat) := do
  let slot := s.getSlotAtTime b.timestamp
  fcAssert (slot ≠ 0) "Trying to push double-produced block onto current block?!"
  let missedBlocks := slot - 1
  if missedBlocks < s.shuffledWitnesses.length then
    return (← countMissed (List.range missedBlocks) s, missedBlocks)
  else return (s, missedBlocks)

def recentlyMissed (options : NodeOptions) (blockNum missedBlocks count : Nat) : Nat :=
  if blockNum = 1 then 0
  else if options.lastCheckpoint.any (blockNum ≤ ·) then 0
  else if missedBlocks ≠ 0 then u32 (count + 4 * missedBlocks)
  else if 4 < count then count - 3
  else count - 1

def updateGlobalDynamicData (options : NodeOptions) (b : Block) (missedBlocks : Nat) :
    Except Exception State := do
  let dynamic := { s.dynamic with
    recentlyMissedCount :=
      recentlyMissed options b.blockNum missedBlocks s.dynamic.recentlyMissedCount
    headBlockNumber := b.blockNum
    headBlockId := b.id
    time := b.timestamp
    currentWitness := b.witness
    currentAslot := u64 (s.dynamic.currentAslot + u32 (missedBlocks + 1)) }
  if options.skipUndoHistoryCheck = false then
    fcAssert (dynamic.headBlockNumber - dynamic.lastIrreversibleBlockNum < 10000)
      "The database does not have enough undo history"
  return { s with dynamic := dynamic }

def updateSigningWitness (b : Block) : Except Exception State := do
  let newBlockAslot := u64 (s.dynamic.currentAslot + s.getSlotAtTime b.timestamp)
  let witnessPay := min s.parameters.witnessPayPerBlock s.dynamic.witnessBudget
  let _ ← s.fetchWitness b.witness
  let s := { s with
    dynamic := { s.dynamic with witnessBudget := s.dynamic.witnessBudget - witnessPay } }
  return s.modifyWitness b.witness fun o =>
    { o with lastAslot := newBlockAslot, lastConfirmedBlockNum := b.blockNum }

/-- `GRAPHENE_100_PERCENT - GRAPHENE_IRREVERSIBLE_THRESHOLD` of `n` -/
def irreversibleOffset (n : Nat) : Nat := (10000 - 7000) * n / 10000

/-- `update_last_irreversible_block`; `nth_element` puts the element there that a sort would. -/
def updateLastIrreversibleBlock : Except Exception State := do
  let witObjs ← s.activeWitnesses.ids.mapM s.fetchWitness
  let confirmed := (witObjs.map (·.lastConfirmedBlockNum)).insertionSort (· ≤ ·)
  match confirmed[irreversibleOffset witObjs.length]? with
  | none => .error .undefined
  | some num =>
    if s.dynamic.lastIrreversibleBlockNum < num then
      return { s with dynamic := { s.dynamic with lastIrreversibleBlockNum := num } }
    else return s

def updateMaintenanceFlag (flag : Bool) : State :=
  { s with dynamic := { s.dynamic with maintenanceFlag := flag } }

def shuffleKey (time i : Nat) : Nat :=
  let k := u64 (time <<< 32 + u64 (i * 2685821657736338717))
  let k := k ^^^ (k >>> 12)
  let k := k ^^^ u64 (k <<< 25)
  let k := k ^^^ (k >>> 27)
  u64 (k * 2685821657736338717)

def swap (ws : List WitnessId) (i j : Nat) : List WitnessId :=
  match ws[i]?, ws[j]? with
  | some wi, some wj => (ws.set i wj).set j wi
  | _, _ => ws

def shuffle (time : Nat) (ws : List WitnessId) : List WitnessId :=
  (List.range ws.length).foldl (fun ws i =>
    swap ws i (i + shuffleKey time i % (ws.length - i))) ws

/-- Whether `update_witness_schedule` shuffles the witnesses anew -/
def Reshuffles : Prop := s.dynamic.headBlockNumber % s.activeWitnesses.ids.length = 0

instance : Decidable s.Reshuffles := inferInstanceAs (Decidable (_ = _))

def updateWitnessSchedule : State :=
  if s.Reshuffles then
    { s with shuffledWitnesses := shuffle s.dynamic.time s.activeWitnesses.ids }
  else s

/-! ## A block -/

def validateBlockHeader (options : NodeOptions) (b : Block) : Except Exception Unit := do
  fcAssert (s.dynamic.headBlockId = b.previous) "head_block_id() == next_block.previous"
  fcAssert (s.dynamic.time < b.timestamp) "head_block_time() < next_block.timestamp"
  let witness ← s.fetchWitness b.witness
  if options.skipWitnessSignature = false then
    fcAssert (b.signee = witness.signingKey) "next_block.validate_signee( witness.signing_key )"
  if options.skipWitnessScheduleCheck = false then
    let slotNum := s.getSlotAtTime b.timestamp
    fcAssert (0 < slotNum) "slot_num > 0"
    let scheduledWitness ← s.getScheduledWitness slotNum
    fcAssert (b.witness = scheduledWitness) "Witness produced block at wrong time"

end State

/-- What an operation of a transaction can do to a witness: `witness_create_operation` and
`witness_update_operation` -/
inductive WitnessOperation where
  | create (signingKey : Nat)
  | update (witness : WitnessId) (signingKey : Nat)
  deriving DecidableEq

structure Maintenance where
  activeWitnesses : WitnessSet
  parameters : Parameters
  nextMaintenanceTime : Nat
  witnessBudget : Int

/-- A block with what its transactions and its maintenance, if there is one, come to -/
structure BlockEvent where
  options : NodeOptions := {}
  block : Block
  operations : List WitnessOperation := []
  maintenance : Maintenance

namespace State

variable (s : State)

/-- `apply_transaction`, as far as it concerns witnesses -/
def applyOperation : WitnessOperation → State
  | .create signingKey => { s with witnesses := s.witnesses.create { signingKey } }
  | .update w signingKey => s.modifyWitness w fun o => { o with signingKey }

def performChainMaintenance (m : Maintenance) : State :=
  { s with
    activeWitnesses := m.activeWitnesses
    parameters := m.parameters
    dynamic := { s.dynamic with
      nextMaintenanceTime := m.nextMaintenanceTime
      witnessBudget := m.witnessBudget } }

def applyBlock (e : BlockEvent) : Except Exception State := do
  s.validateBlockHeader e.options e.block
  let maintNeeded : Bool := s.dynamic.nextMaintenanceTime ≤ e.block.timestamp
  let s := e.operations.foldl applyOperation s
  let (s, missed) ← s.updateWitnessMissedBlocks e.block
  let s ← s.updateGlobalDynamicData e.options e.block missed
  let s ← s.updateSigningWitness e.block
  let s ← s.updateLastIrreversibleBlock
  let s := if maintNeeded then s.performChainMaintenance e.maintenance else s
  let s := s.updateMaintenanceFlag maintNeeded
  return s.updateWitnessSchedule

end State

end Meta1Core.Witnesses
