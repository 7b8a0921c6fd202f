import Meta1Core.Witnesses.Schedule

/-!
# Slots stay in step

The time of a slot and the slot of a time are inverse to each other as long as the times fit into 32
bits.
-/

namespace Meta1Core.Witnesses

open Allocation (u32 u32_of_lt)
open Lib (Index of_bind)

namespace State

variable {s s' : State}

def skippedSlots (s : State) : Nat :=
  if s.dynamic.maintenanceFlag then s.parameters.maintenanceSkipSlots else 0

/-- The time of a slot in seconds that do not wrap -/
def slotStart (s : State) (n : Nat) : Nat :=
  s.dynamic.time / s.parameters.blockInterval * s.parameters.blockInterval +
    (n + s.skippedSlots) * s.parameters.blockInterval

def SlotFits (s : State) (n : Nat) : Prop := s.slotStart n < 2 ^ 32

instance (n : Nat) : Decidable (s.SlotFits n) := inferInstanceAs (Decidable (_ < _))

theorem u32_add_mul (a n i : Nat) : u32 (u32 a + u32 (u32 n * i)) = u32 (a + n * i) := by
  simp [u32, Nat.add_mod, Nat.mul_mod]

theorem u32_add_mul' (a n i : Nat) : u32 (u32 a + u32 (n * i)) = u32 (a + n * i) := by
  simp [u32, Nat.add_mod]

variable {missed n t : Nat}

theorem getSlotTime_eq (hhead : 0 < s.dynamic.headBlockNumber) (hn : 1 ≤ n) :
    s.getSlotTime n = u32 (s.slotStart n) := by
  have hn' : n ≠ 0 := by omega
  have hhead' : s.dynamic.headBlockNumber ≠ 0 := by omega
  simp only [getSlotTime, slotStart, skippedSlots, hn', hhead', if_false]
  cases s.dynamic.maintenanceFlag with
  | true =>
    simp only [if_true]
    exact u32_add_mul _ _ _
  | false =>
    simp only [Bool.false_eq_true, if_false, Nat.add_zero]
    exact u32_add_mul' _ _ _

theorem getSlotTime_of_fits (hhead : 0 < s.dynamic.headBlockNumber) (hn : 1 ≤ n)
    (hfits : s.SlotFits n) : s.getSlotTime n = s.slotStart n := by
  rw [getSlotTime_eq hhead hn]
  exact u32_of_lt hfits

theorem slotStart_add (n k : Nat) :
    s.slotStart (n + k) = s.slotStart n + k * s.parameters.blockInterval := by
  simp only [slotStart]
  ring

theorem SlotFits.le {m : Nat} (h : s.SlotFits m) (hle : n ≤ m) : s.SlotFits n := by
  obtain ⟨k, rfl⟩ := Nat.exists_eq_add_of_le hle
  unfold SlotFits at *
  rw [slotStart_add] at h
  omega

section

variable (hhead : 0 < s.dynamic.headBlockNumber) (hinterval : 1 ≤ s.parameters.blockInterval)

include hhead hinterval

theorem getSlotAtTime_of_fits (hfirst : s.SlotFits 1) (ht : s.slotStart 1 ≤ t) (hlt : t < 2 ^ 32) :
    s.getSlotAtTime t = (t - s.slotStart 1) / s.parameters.blockInterval + 1 := by
  have htime := getSlotTime_of_fits hhead (Nat.le_refl 1) hfirst
  simp only [getSlotAtTime, htime, Nat.not_lt.mpr ht, if_false]
  apply u32_of_lt
  -- the first slot is at least one interval after the epoch, so there is room for the slot itself
  have hone : s.parameters.blockInterval ≤ s.slotStart 1 := by
    rw [show (1 : Nat) = 0 + 1 from rfl, slotStart_add]
    omega
  have hquot := Nat.div_le_self (t - s.slotStart 1) s.parameters.blockInterval
  omega

theorem getSlotAtTime_getSlotTime (hn : 1 ≤ n) (hfits : s.SlotFits n) :
    s.getSlotAtTime (s.getSlotTime n) = n := by
  obtain ⟨k, rfl⟩ := Nat.exists_eq_add_of_le hn
  have hstart := slotStart_add (s := s) 1 k
  have hfirst : s.SlotFits 1 := hfits.le hn
  rw [getSlotTime_of_fits hhead hn hfits,
    getSlotAtTime_of_fits hhead hinterval hfirst (by omega) hfits, hstart, Nat.add_sub_cancel_left,
    Nat.mul_div_cancel _ hinterval, Nat.add_comm]

theorem slotStart_getSlotAtTime (hfirst : s.SlotFits 1) (ht : s.slotStart 1 ≤ t) (hlt : t < 2 ^ 32) :
    1 ≤ s.getSlotAtTime t ∧ s.slotStart (s.getSlotAtTime t) ≤ t ∧
      t < s.slotStart (s.getSlotAtTime t + 1) := by
  rw [getSlotAtTime_of_fits hhead hinterval hfirst ht hlt]
  have hle := Nat.div_mul_le_self (t - s.slotStart 1) s.parameters.blockInterval
  have hgt := Nat.lt_div_mul_add (a := t - s.slotStart 1) hinterval
  generalize (t - s.slotStart 1) / s.parameters.blockInterval = q at *
  have hslot := slotStart_add (s := s) 1 q
  have hnext := slotStart_add (s := s) 1 (q + 1)
  rw [Nat.add_comm 1 q] at hslot
  rw [show 1 + (q + 1) = q + 1 + 1 by omega, Nat.add_mul, Nat.one_mul] at hnext
  omega

end

def lastConfirmed (s : State) (w : WitnessId) : Option Nat :=
  (s.witnesses.find w).map (·.lastConfirmedBlockNum)

theorem lastConfirmed_modifyWitness (w : WitnessId) (f : WitnessObject → WitnessObject)
    (hf : ∀ o, (f o).lastConfirmedBlockNum = o.lastConfirmedBlockNum) (w' : WitnessId) :
    (s.modifyWitness w f).lastConfirmed w' = s.lastConfirmed w' := by
  simp only [lastConfirmed, modifyWitness, Index.find_modify]
  split
  · rename_i heq
    simp [heq, Function.comp_def, hf]
  · rfl

structure SameConfirmations (s s' : State) : Prop where
  frame : s' = { s with witnesses := s'.witnesses }
  confirmed : ∀ w n, s'.lastConfirmed w = some n → n = 0 ∨ s.lastConfirmed w = some n

theorem SameConfirmations.refl (s : State) : SameConfirmations s s :=
  ⟨rfl, fun _ _ h => .inr h⟩

theorem SameConfirmations.trans {t : State} (h : SameConfirmations s s')
    (h' : SameConfirmations s' t) : SameConfirmations s t where
  frame := by
    rw [h'.frame, h.frame]
  confirmed := by
    intro w n hn
    rcases h'.confirmed w n hn with hzero | hn
    · exact .inl hzero
    · exact h.confirmed w n hn

theorem modifyWitness_same (w : WitnessId) (f : WitnessObject → WitnessObject)
    (hf : ∀ o, (f o).lastConfirmedBlockNum = o.lastConfirmedBlockNum) :
    SameConfirmations s (s.modifyWitness w f) where
  frame := rfl
  confirmed := by
    intro w' n hn
    rw [lastConfirmed_modifyWitness w f hf] at hn
    exact .inr hn

theorem applyOperation_same (op : WitnessOperation) : SameConfirmations s (s.applyOperation op) := by
  cases op with
  | update w key => exact modifyWitness_same w _ fun _ => rfl
  | create key =>
    refine ⟨rfl, fun w n hn => ?_⟩
    simp only [applyOperation, lastConfirmed, Index.find_create] at hn
    split at hn
    · -- the new witness
      cases hn
      exact .inl rfl
    · exact .inr hn

theorem applyOperations_same (ops : List WitnessOperation) :
    SameConfirmations s (ops.foldl applyOperation s) := by
  induction ops generalizing s with
  | nil => exact .refl s
  | cons op ops ih => exact (applyOperation_same op).trans ih

theorem countMissed_same {slots : List Nat} (h : countMissed slots s = .ok s') :
    SameConfirmations s s' := by
  induction slots generalizing s with
  | nil =>
    cases h
    exact .refl _
  | cons i rest ih =>
    obtain ⟨w, -, h⟩ := of_bind h
    obtain ⟨o, -, h⟩ := of_bind h
    refine SameConfirmations.trans ?_ (ih h)
    exact modifyWitness_same w _ fun _ => rfl

variable {b : Block}

theorem updateWitnessMissedBlocks_spec (h : s.updateWitnessMissedBlocks b = .ok (s', missed)) :
    SameConfirmations s s' ∧ s.getSlotAtTime b.timestamp ≠ 0 ∧
      missed = s.getSlotAtTime b.timestamp - 1 := by
  obtain ⟨hslot, h⟩ := of_fcAssert h
  dsimp only at h
  split at h
  · obtain ⟨t, ht, h⟩ := of_bind h
    cases h
    exact ⟨countMissed_same ht, hslot, rfl⟩
  · cases h
    exact ⟨.refl s, hslot, rfl⟩

theorem updateGlobalDynamicData_spec {options : NodeOptions}
    (h : s.updateGlobalDynamicData options b missed = .ok s') :
    s' = { s with dynamic := { s.dynamic with
      recentlyMissedCount :=
        recentlyMissed options b.blockNum missed s.dynamic.recentlyMissedCount
      headBlockNumber := b.blockNum
      headBlockId := b.id
      time := b.timestamp
      currentWitness := b.witness
      currentAslot := u64 (s.dynamic.currentAslot + u32 (missed + 1)) } } := by
  unfold updateGlobalDynamicData at h
  dsimp only at h
  split at h
  · obtain ⟨-, h⟩ := of_fcAssert h
    cases h
    rfl
  · cases h
    rfl

theorem updateSigningWitness_spec (h : s.updateSigningWitness b = .ok s') : (∃ budget, s' = { s with
      dynamic := { s.dynamic with witnessBudget := budget }, witnesses := s'.witnesses }) ∧
      ∀ w n, s'.lastConfirmed w = some n →
        w = b.witness ∧ n = b.blockNum ∨ s.lastConfirmed w = some n := by
  obtain ⟨o, ho, h⟩ := of_bind h
  cases h
  refine ⟨⟨_, rfl⟩, fun w n hn => ?_⟩
  simp only [lastConfirmed, modifyWitness, Index.find_modify] at hn
  split at hn
  · rename_i hw
    rw [Option.map_map, Option.map_eq_some_iff] at hn
    obtain ⟨_, -, rfl⟩ := hn
    exact .inl ⟨hw, rfl⟩
  · exact .inr hn

theorem updateLastIrreversibleBlock_spec (h : s.updateLastIrreversibleBlock = .ok s') :
    ∃ witObjs num, List.Forall₂ (fun w o => s.witnesses.find w = some o)
        s.activeWitnesses.ids witObjs ∧
      ((witObjs.map (·.lastConfirmedBlockNum)).insertionSort (· ≤ ·))[
        irreversibleOffset witObjs.length]? = some num ∧
      s' = { s with dynamic := { s.dynamic with
        lastIrreversibleBlockNum := max s.dynamic.lastIrreversibleBlockNum num } } := by
  obtain ⟨witObjs, hwit, h⟩ := of_bind h
  have hfind : List.Forall₂ (fun w o => s.witnesses.find w = some o)
      s.activeWitnesses.ids witObjs := by
    refine (Lib.mapM_eq_ok.mp hwit).imp fun w o hw => ?_
    unfold fetchWitness at hw
    split at hw
    · rename_i heq
      cases hw
      exact heq
    · cases hw
  dsimp only at h
  split at h
  · cases h
  · rename_i num hnum
    refine ⟨witObjs, num, hfind, hnum, ?_⟩
    split at h
    · rename_i hlt
      cases h
      rw [Nat.max_eq_right hlt.le]
    · rename_i hle
      cases h
      rw [Nat.max_eq_left (Nat.not_lt.mp hle)]

structure BlockApplied (s : State) (e : BlockEvent) (s' : State) : Prop where
  previous : s.dynamic.headBlockId = e.block.previous
  slot_pos : s.getSlotAtTime e.block.timestamp ≠ 0
  headBlockId : s'.dynamic.headBlockId = e.block.id
  headBlockNumber : s'.dynamic.headBlockNumber = e.block.blockNum
  time : s'.dynamic.time = e.block.timestamp
  currentAslot : s'.dynamic.currentAslot =
    u64 (s.dynamic.currentAslot + u32 (s.getSlotAtTime e.block.timestamp - 1 + 1))
  unmaintained : s'.dynamic.maintenanceFlag = false →
    s'.parameters = s.parameters ∧ s'.activeWitnesses = s.activeWitnesses
  shuffledWitnesses : ¬s'.Reshuffles → s'.shuffledWitnesses = s.shuffledWitnesses
  lastConfirmed : ∀ w n, s'.lastConfirmed w = some n →
    n = 0 ∨ (w = e.block.witness ∧ n = e.block.blockNum) ∨ s.lastConfirmed w = some n
  lastIrreversible : ∃ confirmed num,
    List.Forall₂ (fun w n => s'.lastConfirmed w = some n)
      s.activeWitnesses.ids confirmed ∧
    (confirmed.insertionSort (· ≤ ·))[irreversibleOffset confirmed.length]? = some num ∧
    s'.dynamic.lastIrreversibleBlockNum = max s.dynamic.lastIrreversibleBlockNum num

theorem updateWitnessSchedule_spec (s : State) :
    s.updateWitnessSchedule =
      { s with shuffledWitnesses := s.updateWitnessSchedule.shuffledWitnesses } := by
  unfold updateWitnessSchedule
  split <;> rfl

theorem updateWitnessSchedule_of_not (h : ¬s.updateWitnessSchedule.Reshuffles) :
    s.updateWitnessSchedule.shuffledWitnesses = s.shuffledWitnesses := by
  have hsame : ¬s.Reshuffles := by
    rw [updateWitnessSchedule_spec] at h
    exact h
  rw [updateWitnessSchedule, if_neg hsame]

variable {e : BlockEvent}

theorem applyBlock_spec (h : s.applyBlock e = .ok s') : BlockApplied s e s' := by
  obtain ⟨_, hvalid, h1⟩ := of_bind h
  have hprevious := (of_fcAssert hvalid).1
  obtain ⟨⟨s2, missed⟩, hmissed, h2⟩ := of_bind h1
  obtain ⟨s3, hglobal, h3⟩ := of_bind h2
  obtain ⟨s4, hsigning, h4⟩ := of_bind h3
  obtain ⟨s5, hirreversible, h5⟩ := of_bind h4
  -- one statement after the other, from the state before the block
  have hops := applyOperations_same (s := s) e.operations
  obtain ⟨hcount, hslot1, rfl⟩ := updateWitnessMissedBlocks_spec hmissed
  have hslot : (e.operations.foldl applyOperation s).getSlotAtTime e.block.timestamp =
      s.getSlotAtTime e.block.timestamp := by
    rw [hops.frame]
    rfl
  rw [hslot] at hslot1
  have hsame := hops.trans hcount
  have hs2 := hsame.frame
  have hs3 := updateGlobalDynamicData_spec hglobal
  dsimp only at hs3
  rw [hslot] at hs3
  obtain ⟨⟨budget, hs4⟩, hconfirmed⟩ := updateSigningWitness_spec hsigning
  obtain ⟨witObjs, num, hfind, hnum, hs5⟩ := updateLastIrreversibleBlock_spec hirreversible
  have hactive : s4.activeWitnesses = s.activeWitnesses := by rw [hs4, hs3, hs2]
  have hframe : s5 = { s with
      witnesses := s4.witnesses
      dynamic := { s.dynamic with
        recentlyMissedCount := s3.dynamic.recentlyMissedCount
        headBlockNumber := e.block.blockNum
        headBlockId := e.block.id
        time := e.block.timestamp
        currentWitness := e.block.witness
        currentAslot :=
          u64 (s.dynamic.currentAslot + u32 (s.getSlotAtTime e.block.timestamp - 1 + 1))
        witnessBudget := budget
        lastIrreversibleBlockNum := max s.dynamic.lastIrreversibleBlockNum num } } := by
    rw [hs5, hs4, hs3, hs2]
  -- what the last three statements leave alone
  obtain ⟨s6, hs6⟩ : ∃ s6, s6 = if decide (s.dynamic.nextMaintenanceTime ≤ e.block.timestamp) = true
      then s5.performChainMaintenance e.maintenance else s5 := ⟨_, rfl⟩
  have hs' : s' = (s6.updateMaintenanceFlag
      (decide (s.dynamic.nextMaintenanceTime ≤ e.block.timestamp))).updateWitnessSchedule := by
    rw [hs6]
    exact (Except.ok.inj h5).symm
  have hlast := updateWitnessSchedule_spec
    (s6.updateMaintenanceFlag (decide (s.dynamic.nextMaintenanceTime ≤ e.block.timestamp)))
  rw [← hs'] at hlast
  have hlastConfirmed : ∀ w, s'.lastConfirmed w = s4.lastConfirmed w := by
    intro w
    have hwitnesses : s'.witnesses = s4.witnesses := by
      rw [hlast, hs6]
      simp only [updateMaintenanceFlag]
      split <;> simp [performChainMaintenance, hframe]
    simp only [lastConfirmed, hwitnesses]
  constructor
  case previous => exact hprevious
  case slot_pos => exact hslot1
  case headBlockId =>
    rw [hlast, hs6]
    simp only [updateMaintenanceFlag]
    split <;> simp [performChainMaintenance, hframe]
  case headBlockNumber =>
    rw [hlast, hs6]
    simp only [updateMaintenanceFlag]
    split <;> simp [performChainMaintenance, hframe]
  case time =>
    rw [hlast, hs6]
    simp only [updateMaintenanceFlag]
    split <;> simp [performChainMaintenance, hframe]
  case currentAslot =>
    rw [hlast, hs6]
    simp only [updateMaintenanceFlag]
    split <;> simp [performChainMaintenance, hframe]
  case unmaintained =>
    intro hflag
    rw [hlast] at hflag ⊢
    simp only [updateMaintenanceFlag, decide_eq_false_iff_not] at hflag
    rw [hs6, if_neg (by simpa using hflag)]
    simp [updateMaintenanceFlag, hframe]
  case shuffledWitnesses =>
    intro hnot
    rw [hs'] at hnot ⊢
    rw [updateWitnessSchedule_of_not hnot, hs6]
    simp only [updateMaintenanceFlag]
    split <;> simp [performChainMaintenance, hframe]
  case lastConfirmed =>
    intro w n hn
    rw [hlastConfirmed] at hn
    rcases hconfirmed w n hn with hsigned | hn
    · exact .inr (.inl hsigned)
    · have hn2 : s2.lastConfirmed w = some n := by
        rw [hs3] at hn
        exact hn
      rcases hsame.confirmed w n hn2 with hzero | hn
      · exact .inl hzero
      · exact .inr (.inr hn)
  case lastIrreversible =>
    refine ⟨witObjs.map (·.lastConfirmedBlockNum), num, ?_, ?_, ?_⟩
    · rw [← hactive, List.forall₂_map_right_iff]
      refine hfind.imp fun w o hw => ?_
      rw [hlastConfirmed, lastConfirmed, hw]
      rfl
    · rw [List.length_map]
      exact hnum
    · rw [hlast, hs6]
      simp only [updateMaintenanceFlag]
      split <;> simp [performChainMaintenance, hframe]

theorem getSlotAtTime_lt (t : Nat) : s.getSlotAtTime t < 2 ^ 32 := by
  unfold getSlotAtTime
  dsimp only
  split
  · decide
  · exact Nat.mod_lt _ (by decide)

theorem BlockApplied.slotStart_eq (h : BlockApplied s e s') (hhead : 0 < s.dynamic.headBlockNumber)
    (hinterval : 1 ≤ s.parameters.blockInterval) (hfirst : s.SlotFits 1)
    (htime : e.block.timestamp < 2 ^ 32) (hbefore : s.dynamic.maintenanceFlag = false)
    (hafter : s'.dynamic.maintenanceFlag = false) (k : Nat) :
    s'.slotStart k = s.slotStart (s.getSlotAtTime e.block.timestamp + k) := by
  have hfirstTime := getSlotTime_of_fits hhead (Nat.le_refl 1) hfirst
  have hle : s.slotStart 1 ≤ e.block.timestamp := by
    -- the slot of a time before the first slot is 0
    by_contra hlt
    have hzero := h.slot_pos
    simp [getSlotAtTime, hfirstTime, Nat.not_le.mp hlt] at hzero
  obtain ⟨-, hlow, hhigh⟩ := slotStart_getSlotAtTime hhead hinterval hfirst hle htime
  generalize s.getSlotAtTime e.block.timestamp = slot at *
  have hparameters := (h.unmaintained hafter).1
  -- both ends of the slot are multiples of the interval, so the quotient of the new head is known
  have hquot : e.block.timestamp / s.parameters.blockInterval =
      s.dynamic.time / s.parameters.blockInterval + slot := by
    simp only [slotStart, skippedSlots, hbefore, Bool.false_eq_true, if_false, Nat.add_zero,
      ← Nat.add_mul] at hlow hhigh
    exact Nat.div_eq_of_lt_le hlow hhigh
  simp only [slotStart, skippedSlots, hbefore, hafter, Bool.false_eq_true, if_false, Nat.add_zero,
    h.time, hparameters, hquot]
  ring

theorem u64_add_add (a b k : Nat) : u64 (u64 (a + b) + k) = u64 (a + (b + k)) := by
  simp [u64, Nat.add_assoc]

theorem BlockApplied.getScheduledWitness_eq (h : BlockApplied s e s') (hshuffle : ¬s'.Reshuffles)
    (k : Nat) : s'.getScheduledWitness k =
      s.getScheduledWitness (s.getSlotAtTime e.block.timestamp + k) := by
  have hslot : u32 (s.getSlotAtTime e.block.timestamp - 1 + 1) =
      s.getSlotAtTime e.block.timestamp := by
    have hlt := getSlotAtTime_lt (s := s) e.block.timestamp
    have hpos := h.slot_pos
    rw [Nat.sub_add_cancel (by omega)]
    exact u32_of_lt hlt
  have haslot := h.currentAslot
  rw [hslot] at haslot
  simp only [getScheduledWitness, h.shuffledWitnesses hshuffle, haslot, u64_add_add]

end State

open State in
/-- Slots and times are inverse to each other wherever the times fit into 32 bits, and the slots
after a block, with their witnesses, are those that came after the slot of the block. -/
theorem slots_in_step (s : State) (hhead : 0 < s.dynamic.headBlockNumber)
    (hinterval : 1 ≤ s.parameters.blockInterval) :
    (∀ n, 1 ≤ n → s.SlotFits n → s.getSlotAtTime (s.getSlotTime n) = n) ∧
    (s.SlotFits 1 → ∀ t, t < 2 ^ 32 → s.getSlotTime 1 ≤ t → s.getSlotTime (s.getSlotAtTime t) ≤ t ∧
        (s.SlotFits (s.getSlotAtTime t + 1) → t < s.getSlotTime (s.getSlotAtTime t + 1))) ∧
    (s.SlotFits 1 → ∀ e s', s.applyBlock e = .ok s' → e.block.timestamp < 2 ^ 32 →
      s.dynamic.maintenanceFlag = false → s'.dynamic.maintenanceFlag = false → ¬s'.Reshuffles →
      ∀ k, 1 ≤ k → s'.getSlotTime k = s.getSlotTime (s.getSlotAtTime e.block.timestamp + k) ∧
          s'.getScheduledWitness k =
            s.getScheduledWitness (s.getSlotAtTime e.block.timestamp + k)) := by
  refine ⟨fun n hn hfits => getSlotAtTime_getSlotTime hhead hinterval hn hfits, ?_, ?_⟩
  · intro hfirst t hlt ht
    rw [getSlotTime_of_fits hhead (Nat.le_refl 1) hfirst] at ht
    obtain ⟨hslot, hlow, hhigh⟩ := slotStart_getSlotAtTime hhead hinterval hfirst ht hlt
    constructor
    · rw [getSlotTime_of_fits hhead hslot (Nat.lt_of_le_of_lt hlow hlt)]
      exact hlow
    · intro hnext
      rw [getSlotTime_of_fits hhead (by omega) hnext]
      exact hhigh
  · intro hfirst e s' happly htime hbefore hafter hshuffle k hk
    have h := applyBlock_spec happly
    have hhead' : 0 < s'.dynamic.headBlockNumber := by
      rw [h.headBlockNumber]
      exact Nat.succ_pos _
    constructor
    · rw [getSlotTime_eq hhead' hk, getSlotTime_eq hhead (by omega),
        h.slotStart_eq hhead hinterval hfirst htime hbefore hafter]
    · exact h.getScheduledWitness_eq hshuffle k

def sampleState : State where
  parameters := ⟨5, 3, 0⟩
  activeWitnesses := ⟨[0, 1, 2], by decide⟩
  dynamic :=
    { headBlockNumber := 7, headBlockId := ⟨7, 70⟩, time := 1003, nextMaintenanceTime := 2000,
      currentAslot := 200 }
  shuffledWitnesses := [2, 0, 1]
  witnesses := ((Index.create ∅ ⟨10, 0, 0, 5⟩).create ⟨11, 0, 0, 7⟩).create ⟨12, 0, 0, 6⟩

def sampleBlock : BlockEvent where
  block := ⟨⟨7, 70⟩, 1012, 0, 80, 10⟩
  maintenance := ⟨⟨[], .nil⟩, ⟨5, 3, 0⟩, 0, 0⟩

theorem slots_in_step_second :
    sampleState.getSlotAtTime (sampleState.getSlotTime 4) = 4 ∧
      sampleState.getSlotTime (sampleState.getSlotAtTime 1012) ≤ 1012 ∧
      ∃ s', sampleState.applyBlock sampleBlock = .ok s' ∧
        s'.getSlotTime 3 = sampleState.getSlotTime 5 ∧
        s'.getScheduledWitness 3 = sampleState.getScheduledWitness 5 := by
  obtain ⟨hinverse, hbetween, hblock⟩ := slots_in_step sampleState (by decide) (by decide)
  have happlied : Lib.Succeeds (sampleState.applyBlock sampleBlock) fun s' =>
      s'.dynamic.maintenanceFlag = false ∧ ¬s'.Reshuffles := by decide
  obtain ⟨s', happly, hflag, hshuffle⟩ := happlied
  refine ⟨hinverse 4 (by decide) (by decide), (hbetween (by decide) 1012 (by decide) (by decide)).1,
    s', happly, ?_⟩
  exact hblock (by decide) sampleBlock s' happly (by decide) rfl hflag hshuffle 3 (by decide)

end Meta1Core.Witnesses
