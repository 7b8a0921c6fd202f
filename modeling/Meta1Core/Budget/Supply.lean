import Meta1Core.Budget.Payroll

/-!
# The budget and the supply (`process_budget`)

What a budget releases comes out of the reserve, and what is not assigned to the witnesses or paid to a
worker goes back to it, so that the supply of the core asset stays below its maximum.
-/

namespace Meta1Core.Budget

open Lib (Index Outcome bind_eq_ok)
open Protocol
open Vesting (VestingBalanceObject Usable IsShare)

variable {s s' : State}

namespace State

def reserve (s : State) : Int :=
  s.maxSupply - s.currentSupply + s.accumulatedFees + s.witnessBudget

/-- There is no budget before the second maintenance. -/
def HasBudget (s : State) : Prop := s.lastBudgetTime ≠ 0 ∧ s.lastBudgetTime < s.headBlockTime

instance (s : State) : Decidable s.HasBudget := inferInstanceAs (Decidable (_ ∧ _))

/-- `total_budget`: the reserve times the seconds that passed times the cycle rate, rounded up -/
def totalBudget (s : State) : Int :=
  if s.HasBudget then
    min s.reserve ((s.reserve * ((s.headBlockTime : Int) - s.lastBudgetTime) * coreAssetCycleRate +
      (2 ^ 32 - 1)) / 2 ^ 32)
  else 0

def requestedWitnessBudget (s : State) : Int :=
  s.parameters.witnessPayPerBlock * s.blocksToMaint

def requestedWorkerBudget (s : State) : Int :=
  s.parameters.workerBudgetPerDay * ((s.nextMaintenanceTime : Int) - s.headBlockTime) / 86400

def proratedPay (s : State) (w : WorkerObject) : Int := w.dailyPay * s.passedTimeCount / dayCount

end State

theorem releasable_eq {reserve : Int} (hnonneg : 0 ≤ reserve) (hle : reserve ≤ 9000000000000000000)
    {dt : Nat} (hdt : dt < 2 ^ 32) :
    (if uint128 (uint128 (uint128 (uint128 reserve * dt) * coreAssetCycleRate) +
        (2 ^ coreAssetCycleRateBits - 1)) / 2 ^ coreAssetCycleRateBits < uint128 reserve then
      int64Cast (uint128 (uint128 (uint128 (uint128 reserve * dt) * coreAssetCycleRate) +
        (2 ^ coreAssetCycleRateBits - 1)) / 2 ^ coreAssetCycleRateBits % 2 ^ 64)
    else reserve) = min reserve ((reserve * dt * coreAssetCycleRate + (2 ^ 32 - 1)) / 2 ^ 32) := by
  obtain ⟨r, rfl⟩ := Int.eq_ofNat_of_zero_le hnonneg
  have hproduct : r * dt < 2 ^ 64 * 2 ^ 32 :=
    Nat.mul_lt_mul_of_lt_of_lt (by omega : r < 2 ^ 64) hdt
  have hr : uint128 (r : Int) = r := uint128_natCast (by omega)
  have hfirst : uint128 ((r : Int) * dt) = r * dt := by
    rw [← Nat.cast_mul]
    exact uint128_natCast (by omega)
  have hsecond : uint128 (((r * dt : Nat) : Int) * coreAssetCycleRate) = r * dt * 17 := by
    unfold coreAssetCycleRate
    rw [← Nat.cast_mul]
    exact uint128_natCast (by omega)
  have hthird : uint128 (((r * dt * 17 : Nat) : Int) + (2 ^ coreAssetCycleRateBits - 1)) =
      r * dt * 17 + 4294967295 := by
    unfold coreAssetCycleRateBits
    have hcast : ((r * dt * 17 : Nat) : Int) + (2 ^ 32 - 1) = (r * dt * 17 + 4294967295 : Nat) := by
      rw [Nat.cast_add]
      rfl
    rw [hcast]
    exact uint128_natCast (by omega)
  have hexact : ((r : Int) * dt * coreAssetCycleRate + (2 ^ 32 - 1)) / 2 ^ 32 =
      ((r * dt * 17 + 4294967295) / 4294967296 : Nat) := by
    unfold coreAssetCycleRate
    rw [Int.natCast_ediv, Nat.cast_add, Nat.cast_mul, Nat.cast_mul]
    rfl
  rw [hr, hfirst, hsecond, hthird, hexact]
  have hbits : 2 ^ coreAssetCycleRateBits = 4294967296 := rfl
  rw [hbits]
  generalize (r * dt * 17 + 4294967295) / 4294967296 = budget
  split
  · rename_i hlt
    rw [Nat.mod_eq_of_lt (by omega), int64Cast_of_lt (by omega)]
    omega
  · omega

/-- Fees, the budget of the witnesses, vesting balances and the null account are covered by the supply,
which is at most its maximum. -/
structure Backed (s : State) : Prop where
  supply : s.currentSupply ≤ s.maxSupply ∧ s.maxSupply ≤ maxShareSupply
  accumulatedFees : 0 ≤ s.accumulatedFees
  witnessBudget : 0 ≤ s.witnessBudget
  nullBalance : 0 ≤ s.nullBalance
  vests : s.VestsNonneg
  backed : s.nullBalance + s.vested + s.accumulatedFees + s.witnessBudget ≤ s.currentSupply

/-- What the chain promises of a state: the supply is backed, the parameters are valid, and the balances
of the workers are usable. -/
structure Sound (s : State) : Prop extends Backed s where
  dailyPay : ∀ n w, s.workers.find n = some w → 0 ≤ w.dailyPay ∧ w.dailyPay ≤ maxShareSupply
  vesting : ∀ n w id, s.workers.find n = some w → w.worker = .vestingBalance id →
    ∃ vbo p, s.vestingBalances.find id = some vbo ∧ Usable s.headBlockTime vbo ∧
      vbo.policy = .cdd p
  counters : ∀ n w t, s.workers.find n = some w → w.worker = .refund t ∨ w.worker = .burn t → 0 ≤ t
  time : s.headBlockTime < 2 ^ 32 ∧ s.nextMaintenanceTime < 2 ^ 32
  parameters : s.parameters.Validated

/-- No product leaves its width: the pay of the witnesses and of each worker are values of `share_type`,
and the budget of the workers is not negative. -/
structure Regular (s : State) : Prop where
  witness : 0 ≤ s.requestedWitnessBudget ∧ s.requestedWitnessBudget < 2 ^ 63
  worker : 0 ≤ s.parameters.workerBudgetPerDay
  daily : s.HasBudget → ∀ e ∈ s.activeWorkers, s.proratedPay e.2 < 2 ^ 63

instance (s : State) : Decidable (Regular s) :=
  decidable_of_iff ((0 ≤ s.requestedWitnessBudget ∧ s.requestedWitnessBudget < 2 ^ 63) ∧
    0 ≤ s.parameters.workerBudgetPerDay ∧
      (s.HasBudget → ∀ e ∈ s.activeWorkers, s.proratedPay e.2 < 2 ^ 63))
    ⟨fun h => ⟨h.1, h.2.1, h.2.2⟩, fun h => ⟨h.witness, h.worker, h.daily⟩⟩

namespace Sound

theorem vested_nonneg (h : Sound s) : 0 ≤ s.vested := by
  apply Index.total_nonneg
  intro id vbo hfound
  split
  · rename_i hcore
    exact h.vests id vbo hfound hcore
  · exact le_refl 0

theorem amount_le_vested (h : Sound s) {id : Nat} {vbo : VestingBalanceObject}
    (hfound : s.vestingBalances.find id = some vbo) (hcore : vbo.balance.assetId = core) :
    vbo.balance.amount ≤ s.vested := by
  have hnonneg : ∀ id vbo, s.vestingBalances.find id = some vbo →
      0 ≤ if vbo.balance.assetId = core then vbo.balance.amount else 0 := by
    intro id vbo hfound
    split
    · rename_i hcore
      exact h.vests id vbo hfound hcore
    · exact le_refl 0
  have hle : s.vestingBalances.weightAt (fun _ (vbo : VestingBalanceObject) =>
      if vbo.balance.assetId = core then vbo.balance.amount else 0) id ≤ s.vested :=
    Index.weightAt_le_total hnonneg id
  rw [Index.weightAt_of_find hfound, if_pos hcore] at hle
  exact hle

theorem bounds (h : Sound s) : 0 ≤ s.currentSupply ∧ 0 ≤ s.reserve ∧ s.reserve ≤ maxShareSupply ∧
    s.accumulatedFees + s.witnessBudget ≤ s.currentSupply := by
  have hvested := h.vested_nonneg
  have hnull := h.nullBalance
  have hfees := h.accumulatedFees
  have hwitness := h.witnessBudget
  have hbacked := h.backed
  obtain ⟨hsupply, hmax⟩ := h.supply
  unfold State.reserve
  omega

theorem totalBudget_bounds (h : Sound s) : 0 ≤ s.totalBudget ∧ s.totalBudget ≤ s.reserve := by
  obtain ⟨-, hreserve, -, -⟩ := h.bounds
  unfold State.totalBudget
  split
  · rename_i hbudget
    refine ⟨le_min hreserve ?_, min_le_left _ _⟩
    have hdt : 0 ≤ (s.headBlockTime : Int) - s.lastBudgetTime := by
      have hlt := hbudget.2
      omega
    apply Int.ediv_nonneg
    · have hproduct : 0 ≤ s.reserve * ((s.headBlockTime : Int) - s.lastBudgetTime) *
          coreAssetCycleRate := Int.mul_nonneg (Int.mul_nonneg hreserve hdt) (by decide)
      omega
    · norm_num
  · exact ⟨le_refl 0, hreserve⟩

theorem initializeBudgetRecord_eq (h : Sound s) : ∃ timeSinceLastBudget,
    initializeBudgetRecord s = .ok {
      timeSinceLastBudget
      fromInitialReserve := s.maxSupply - s.currentSupply
      fromAccumulatedFees := s.accumulatedFees
      fromUnusedWitnessBudget := s.witnessBudget
      totalBudget := s.totalBudget } := by
  obtain ⟨hsupply, hmax⟩ := h.supply
  obtain ⟨hcurrent, hreserve, hreserve_le, hheld⟩ := h.bounds
  have hfees := h.accumulatedFees
  have hwitness := h.witnessBudget
  unfold maxShareSupply at hmax hreserve_le
  have hinitial : safe (s.maxSupply - s.currentSupply) = .ok (s.maxSupply - s.currentSupply) :=
    safe_eq_ok.mpr ⟨rfl, by omega, by omega⟩
  unfold initializeBudgetRecord
  rw [hinitial]
  by_cases hbudget : s.HasBudget
  · have hnot : ¬(s.lastBudgetTime = 0 ∨ s.headBlockTime ≤ s.lastBudgetTime) := by
      obtain ⟨hlast, hlt⟩ := hbudget
      omega
    have hfirst : safe (s.maxSupply - s.currentSupply + s.accumulatedFees) =
        .ok (s.maxSupply - s.currentSupply + s.accumulatedFees) :=
      safe_eq_ok.mpr ⟨rfl, by omega, by omega⟩
    have hsecond : safe (s.maxSupply - s.currentSupply + s.accumulatedFees + s.witnessBudget) =
        .ok s.reserve := by
      unfold State.reserve at hreserve hreserve_le
      exact safe_eq_ok.mpr ⟨rfl, by omega, by omega⟩
    refine ⟨s.headBlockTime - s.lastBudgetTime, ?_⟩
    show (if _ then _ else _) = _
    rw [if_neg hnot]
    show (safe (s.maxSupply - s.currentSupply + s.accumulatedFees) >>= _) = _
    rw [hfirst]
    show (safe (s.maxSupply - s.currentSupply + s.accumulatedFees + s.witnessBudget) >>= _) = _
    rw [hsecond]
    have htime : ((s.headBlockTime - s.lastBudgetTime : Nat) : Int) =
        s.headBlockTime - s.lastBudgetTime := Int.ofNat_sub hbudget.2.le
    have hdt : s.headBlockTime - s.lastBudgetTime < 2 ^ 32 :=
      lt_of_le_of_lt (Nat.sub_le _ _) h.time.1
    unfold State.totalBudget
    rw [if_pos hbudget, ← htime, ← releasable_eq hreserve hreserve_le hdt]
    rfl
  · have hnot : s.lastBudgetTime = 0 ∨ s.headBlockTime ≤ s.lastBudgetTime := by
      unfold State.HasBudget at hbudget
      omega
    refine ⟨0, ?_⟩
    show (if _ then _ else _) = _
    rw [if_pos hnot]
    unfold State.totalBudget
    rw [if_neg hbudget]
    rfl

end Sound

theorem int64Cast_toNat_emod {x : Int} (hnonneg : 0 ≤ x) (hlt : x < 2 ^ 63) :
    int64Cast (x % 2 ^ 64).toNat = x := by
  obtain ⟨n, rfl⟩ := Int.eq_ofNat_of_zero_le hnonneg
  have hmod : ((n : Int) % 2 ^ 64).toNat = n := by omega
  rw [hmod, int64Cast_of_lt (by omega)]

theorem requestedWitnessBudget_eq (h : Regular s) :
    requestedWitnessBudget s.parameters.witnessPayPerBlock s.blocksToMaint =
      s.requestedWitnessBudget :=
  int64Cast_toNat_emod h.witness.1 h.witness.2

theorem int64Cast_prorated {daily passed day : Nat} (hdaily : daily < 2 ^ 64)
    (hpassed : passed < 2 ^ 64) (hsmall : daily * passed / day < 2 ^ 63) :
    int64Cast (uint128 ((uint128 (daily : Int) : Int) * (passed : Int)) / day % 2 ^ 64) =
      (daily * passed / day : Nat) := by
  have hproduct : daily * passed < 2 ^ 64 * 2 ^ 64 := Nat.mul_lt_mul_of_lt_of_lt hdaily hpassed
  have hd : uint128 (daily : Int) = daily := uint128_natCast (by omega)
  have hpay : uint128 ((daily : Int) * passed) = daily * passed := by
    rw [← Nat.cast_mul]
    exact uint128_natCast (by omega)
  rw [hd, hpay, Nat.mod_eq_of_lt (by omega), int64Cast_of_lt hsmall]

theorem requestedPay_eq (hbudget : s.HasBudget) (htime : s.headBlockTime < 2 ^ 32)
    {w : WorkerObject} (hdaily : 0 ≤ w.dailyPay ∧ w.dailyPay ≤ maxShareSupply)
    (hsmall : s.proratedPay w < 2 ^ 63) :
    s.requestedPay w = s.proratedPay w ∧ 0 ≤ s.proratedPay w := by
  obtain ⟨d, hd⟩ := Int.eq_ofNat_of_zero_le hdaily.1
  have hle : d ≤ 9000000000000000000 := by
    have hle := hdaily.2
    unfold maxShareSupply at hle
    omega
  have hpassed : s.passedTimeCount = ((s.headBlockTime - s.lastBudgetTime) * 1000000 : Nat) := by
    unfold State.passedTimeCount
    rw [Nat.cast_mul, Int.ofNat_sub hbudget.2.le]
    rfl
  have hlt : (s.headBlockTime - s.lastBudgetTime) * 1000000 < 2 ^ 64 := by omega
  unfold State.requestedPay
  unfold State.proratedPay at hsmall ⊢
  rw [hpassed, hd] at hsmall ⊢
  generalize (s.headBlockTime - s.lastBudgetTime) * 1000000 = passed at hsmall hlt ⊢
  generalize dayCount = day at hsmall ⊢
  have hexact : (d : Int) * passed / day = (d * passed / day : Nat) := by
    rw [Int.natCast_ediv, Nat.cast_mul]
  rw [hexact] at hsmall ⊢
  exact ⟨int64Cast_prorated (by omega) hlt (by omega), Int.natCast_nonneg _⟩

theorem workerBudget_eq {available perDay : Int} (havailable : 0 ≤ available)
    (hle : available ≤ 9000000000000000000) (hperDay : 0 ≤ perDay) (hsmall : perDay < 2 ^ 63)
    {timeToMaint : Nat} (htime : timeToMaint < 2 ^ 32) :
    (if uint128 available ≤ uint128 (uint128 perDay * timeToMaint) / 86400 then available
      else int64Cast (uint128 (uint128 perDay * timeToMaint) / 86400 % 2 ^ 64)) =
      min available (perDay * timeToMaint / 86400) := by
  obtain ⟨a, rfl⟩ := Int.eq_ofNat_of_zero_le havailable
  obtain ⟨d, rfl⟩ := Int.eq_ofNat_of_zero_le hperDay
  have hproduct : d * timeToMaint < 2 ^ 64 * 2 ^ 32 :=
    Nat.mul_lt_mul_of_lt_of_lt (by omega : d < 2 ^ 64) htime
  have ha : uint128 (a : Int) = a := uint128_natCast (by omega)
  have hd : uint128 (d : Int) = d := uint128_natCast (by omega)
  have hwide : uint128 ((d : Int) * timeToMaint) = d * timeToMaint := by
    rw [← Nat.cast_mul]
    exact uint128_natCast (by omega)
  have hexact : (d : Int) * timeToMaint / 86400 = (d * timeToMaint / 86400 : Nat) := by
    rw [Int.natCast_ediv, Nat.cast_mul]
    rfl
  rw [ha, hd, hwide, hexact]
  generalize d * timeToMaint / 86400 = requested
  split
  · omega
  · rename_i hlt
    rw [Nat.mod_eq_of_lt (by omega), int64Cast_of_lt (by omega)]
    omega

theorem mem_activeWorkers {e : Nat × WorkerObject} (h : e ∈ s.activeWorkers) :
    s.workers.find e.1 = some e.2 := by
  unfold State.activeWorkers at h
  rw [List.mem_insertionSort, List.mem_filter] at h
  obtain ⟨id, -, hid⟩ := List.mem_filterMap.mp h.1
  obtain ⟨w, hw, rfl⟩ := Option.map_eq_some_iff.mp hid
  exact hw

theorem map_fst_workers (t : Index WorkerObject) (ids : List Nat) :
    (ids.filterMap fun id => (t.find id).map fun w => (id, w)).map Prod.fst =
      ids.filter fun id => (t.find id).isSome := by
  induction ids with
  | nil => rfl
  | cons id ids ih =>
    cases hw : t.find id with
    | none =>
      rw [List.filterMap_cons_none (by rw [hw]; rfl), ih, List.filter_cons_of_neg (by simp [hw])]
    | some w =>
      rw [List.filterMap_cons_some (b := (id, w)) (by rw [hw]; rfl), List.map_cons, ih,
        List.filter_cons_of_pos (by simp [hw])]

theorem nodup_activeWorkers (s : State) : (s.activeWorkers.map Prod.fst).Nodup := by
  have hall : (s.allWorkers.map Prod.fst).Nodup := by
    unfold State.allWorkers
    rw [map_fst_workers]
    exact List.nodup_range.filter _
  unfold State.activeWorkers
  apply ((List.perm_insertionSort _ _).map Prod.fst).nodup_iff.mpr
  exact hall.sublist (List.filter_sublist.map _)

/-! ## What a budget does -/

theorem allot_congr {f g : WorkerObject → Int} {ws : List (Nat × WorkerObject)}
    (h : ∀ e ∈ ws, f e.2 = g e.2) (budget : Int) : allot f ws budget = allot g ws budget := by
  induction ws generalizing budget with
  | nil => rfl
  | cons e rest ih =>
    obtain ⟨he, hrest⟩ := List.forall_mem_cons.mp h
    unfold allot
    rw [he, ih hrest]

theorem allot_of_used (share : WorkerObject → Int) (ws : List (Nat × WorkerObject)) {budget : Int}
    (h : budget ≤ 0) : allot share ws budget = [] := by
  cases ws with
  | nil => rfl
  | cons e rest => exact if_pos h

theorem payActiveWorkers_of_used (requestedPay : WorkerObject → Int)
    (ws : List (Nat × WorkerObject)) {budget : Int} (h : budget ≤ 0) (s : State) :
    payActiveWorkers requestedPay ws budget s = .ok (budget, s) := by
  cases ws with
  | nil => rfl
  | cons e rest => exact if_pos h

theorem paidOut_eq (ps : List (Nat × WorkerObject × Int)) :
    paidOut (fun _ pay => pay) ps = paidOut WorkerType.refunded ps +
      paidOut WorkerType.burned ps + paidOut WorkerType.vested ps := by
  induction ps with
  | nil => rfl
  | cons p rest ih =>
    have hparts : p.2.2 = p.2.1.worker.refunded p.2.2 + p.2.1.worker.burned p.2.2 +
        p.2.1.worker.vested p.2.2 := by
      cases p.2.1.worker
      all_goals simp [WorkerType.refunded, WorkerType.burned, WorkerType.vested]
    simp only [paidOut_cons, ih]
    omega

namespace State

def assignedWitnessBudget (s : State) : Int := min s.requestedWitnessBudget s.totalBudget

def workerBudget (s : State) : Int :=
  min (s.totalBudget - s.assignedWitnessBudget) s.requestedWorkerBudget

def payroll (s : State) : List (Nat × WorkerObject × Int) :=
  allot s.proratedPay s.activeWorkers s.workerBudget

def workerPay (s : State) : Int := paidOut (fun _ pay => pay) s.payroll

def supplyDelta (s : State) : Int :=
  s.assignedWitnessBudget + s.workerPay - s.accumulatedFees - s.witnessBudget

def booked (s : State) (timeSinceLastBudget : Nat) (r : Int × State)
    (supplyDelta currentSupply : Int) : State :=
  { r.2 with
    currentSupply
    accumulatedFees := 0
    witnessBudget := s.assignedWitnessBudget
    lastBudgetTime := s.headBlockTime
    budgetRecords := r.2.budgetRecords ++ [(s.headBlockTime, {
      timeSinceLastBudget
      fromInitialReserve := s.maxSupply - s.currentSupply
      fromAccumulatedFees := s.accumulatedFees
      fromUnusedWitnessBudget := s.witnessBudget
      requestedWitnessBudget := s.requestedWitnessBudget
      totalBudget := s.totalBudget
      witnessBudget := s.assignedWitnessBudget
      workerBudget := s.workerBudget
      leftoverWorkerFunds := r.1
      supplyDelta })] }

/-- What `process_budget` does when the workers are paid -/
def bookBudget (s : State) (timeSinceLastBudget : Nat) (r : Int × State) : Except Exception State := do
  let _ ← safe (s.totalBudget - s.assignedWitnessBudget - s.workerBudget + r.1)
  let delta ← safe (s.assignedWitnessBudget + s.workerBudget)
  let delta ← safe (delta - r.1)
  let delta ← safe (delta - s.accumulatedFees)
  let supplyDelta ← safe (delta - s.witnessBudget)
  let currentSupply ← safe (r.2.currentSupply + supplyDelta)
  return s.booked timeSinceLastBudget r supplyDelta currentSupply

end State

structure Budgeted (s s' : State) : Prop where
  total : 0 ≤ s.totalBudget ∧ s.totalBudget ≤ s.reserve
  witnessBudget : s'.witnessBudget = s.assignedWitnessBudget ∧ 0 ≤ s'.witnessBudget
  shares : ∀ p ∈ s.payroll, 0 ≤ p.2.2 ∧ p.2.2 ≤ s.proratedPay p.2.1
  assigned : s'.witnessBudget + s.workerPay ≤ s.totalBudget
  currentSupply : s'.currentSupply =
    s.currentSupply + s.supplyDelta - paidOut WorkerType.refunded s.payroll
  maxSupply : s'.maxSupply = s.maxSupply ∧ s'.currentSupply ≤ s'.maxSupply
  accumulatedFees : s'.accumulatedFees = 0
  lastBudgetTime : s'.lastBudgetTime = s.headBlockTime
  nullBalance : s'.nullBalance = s.nullBalance + paidOut WorkerType.burned s.payroll
  vested : s'.vested = s.vested + paidOut WorkerType.vested s.payroll
  workers : ∀ p ∈ s.payroll, s.workers.find p.1 = some p.2.1 ∧ s'.workers.find p.1 =
    some { p.2.1 with worker := p.2.1.worker.credited p.2.2 }
  others : ∀ id ∉ s.payroll.map Prod.fst, s'.workers.find id = s.workers.find id
  vests : s'.VestsNonneg
  balances : ∀ id vbo p, s.vestingBalances.find id = some vbo → Usable s.headBlockTime vbo →
    vbo.policy = .cdd p → ∃ vbo' p', s'.vestingBalances.find id = some vbo' ∧
      Usable s.headBlockTime vbo' ∧ vbo'.policy = .cdd p' ∧
        vbo'.balance.amount = vbo.balance.amount + paidOut (WorkerType.vestedAt id) s.payroll
  untouched : ∀ id, (∀ p ∈ s.payroll, p.2.1.worker ≠ .vestingBalance id) →
    s'.vestingBalances.find id = s.vestingBalances.find id
  frame : s' = { s with
    lastBudgetTime := s'.lastBudgetTime
    witnessBudget := s'.witnessBudget
    currentSupply := s'.currentSupply
    accumulatedFees := s'.accumulatedFees
    nullBalance := s'.nullBalance
    workers := s'.workers
    vestingBalances := s'.vestingBalances
    budgetRecords := s'.budgetRecords }
  record : ∃ timeSinceLastBudget,
    s'.budgetRecords = s.budgetRecords ++ [(s.headBlockTime, {
      timeSinceLastBudget
      fromInitialReserve := s.maxSupply - s.currentSupply
      fromAccumulatedFees := s.accumulatedFees
      fromUnusedWitnessBudget := s.witnessBudget
      requestedWitnessBudget := s.requestedWitnessBudget
      totalBudget := s.totalBudget
      witnessBudget := s.assignedWitnessBudget
      workerBudget := s.workerBudget
      leftoverWorkerFunds := s.workerBudget - s.workerPay
      supplyDelta := s.supplyDelta })]

namespace Sound

theorem assignedWitnessBudget_bounds (h : Sound s) (hregular : Regular s) :
    0 ≤ s.assignedWitnessBudget ∧ s.assignedWitnessBudget ≤ s.totalBudget :=
  ⟨le_min hregular.witness.1 h.totalBudget_bounds.1, min_le_right _ _⟩

theorem workerBudget_bounds (h : Sound s) (hregular : Regular s)
    (hnext : s.headBlockTime < s.nextMaintenanceTime) :
    0 ≤ s.workerBudget ∧ s.assignedWitnessBudget + s.workerBudget ≤ s.totalBudget := by
  obtain ⟨hassigned, hle⟩ := h.assignedWitnessBudget_bounds hregular
  have htime : 0 ≤ (s.nextMaintenanceTime : Int) - s.headBlockTime := by omega
  have hrequested : 0 ≤ s.requestedWorkerBudget :=
    Int.ediv_nonneg (Int.mul_nonneg hregular.worker htime) (by norm_num)
  unfold State.workerBudget
  omega

theorem covered (h : Sound s) {budget : Int} (hbudget : 0 ≤ budget) (hle : budget ≤ s.reserve) :
    Covered s budget := by
  obtain ⟨hsupply, hmax⟩ := h.supply
  obtain ⟨hcurrent, hreserve, hreserve_le, hheld⟩ := h.bounds
  have hvested := h.vested_nonneg
  have hnull := h.nullBalance
  have hbacked := h.backed
  unfold maxShareSupply at hmax hreserve_le
  unfold State.reserve at hle
  constructor
  case supply => omega
  case null => omega
  case vesting =>
    intro n w id hw hkind
    obtain ⟨vbo, p, hfound, husable, hp⟩ := h.vesting n w id hw hkind
    have hamount := h.amount_le_vested hfound husable.assetId
    exact ⟨vbo, p, hfound, husable, hp, by omega⟩
  case counters => exact h.counters

theorem outcome_payWorkers (h : Sound s) (hregular : Regular s)
    (hnext : s.headBlockTime < s.nextMaintenanceTime) :
    Outcome (fun r => r.1 = s.workerBudget - s.workerPay ∧ PaidAll s.payroll s r.2)
      (fun e => e = .fc "overflow" ∧ ∃ p ∈ s.payroll, p.2.1.worker.Overflows p.2.2)
      (payWorkers s.workerBudget s) := by
  obtain ⟨htotal, hreserve⟩ := h.totalBudget_bounds
  obtain ⟨hassigned, -⟩ := h.assignedWitnessBudget_bounds hregular
  obtain ⟨hbudget, hle⟩ := h.workerBudget_bounds hregular hnext
  unfold payWorkers State.workerPay State.payroll
  by_cases hhas : s.HasBudget
  · have hrequested : ∀ e ∈ s.activeWorkers,
        s.requestedPay e.2 = s.proratedPay e.2 ∧ 0 ≤ s.proratedPay e.2 := fun e he =>
      requestedPay_eq hhas h.time.1 (h.dailyPay e.1 e.2 (mem_activeWorkers he))
        (hregular.daily hhas e he)
    rw [← allot_congr (fun e he => (hrequested e he).1)]
    exact outcome_payActiveWorkers s.requestedPay (h.covered hbudget (by omega)) hbudget
      (nodup_activeWorkers s) (fun e he => mem_activeWorkers he)
      (fun e he => (hrequested e he).1 ▸ (hrequested e he).2)
  · -- without a budget nobody is asked
    have hzero : s.totalBudget = 0 := if_neg hhas
    have hused : s.workerBudget ≤ 0 := by omega
    rw [allot_of_used _ _ hused, payActiveWorkers_of_used _ _ hused]
    exact ⟨(sub_zero _).symm, .nil s⟩

theorem workerPay_bounds (h : Sound s) (hregular : Regular s)
    (hnext : s.headBlockTime < s.nextMaintenanceTime) :
    (∀ p ∈ s.payroll, 0 ≤ p.2.2 ∧ p.2.2 ≤ s.proratedPay p.2.1) ∧ 0 ≤ s.workerPay ∧
      s.workerPay ≤ s.workerBudget := by
  obtain ⟨hbudget, hle⟩ := h.workerBudget_bounds hregular hnext
  obtain ⟨hassigned, -⟩ := h.assignedWitnessBudget_bounds hregular
  have hshares : ∀ p ∈ s.payroll, 0 ≤ p.2.2 ∧ p.2.2 ≤ s.proratedPay p.2.1 := by
    by_cases hhas : s.HasBudget
    · intro p hp
      refine allot_bounds (fun e he => ?_) hp
      exact (requestedPay_eq hhas h.time.1 (h.dailyPay e.1 e.2 (mem_activeWorkers he))
        (hregular.daily hhas e he)).2
    · intro p hp
      have hzero : s.totalBudget = 0 := if_neg hhas
      have hnil : s.payroll = [] := allot_of_used _ _ (by omega)
      rw [hnil] at hp
      cases hp
  refine ⟨hshares, ?_, paidOut_allot_le hbudget⟩
  apply List.sum_nonneg
  intro pay hpay
  obtain ⟨p, hp, rfl⟩ := List.mem_map.mp hpay
  exact (hshares p hp).1

theorem refunded_bounds (h : Sound s) (hregular : Regular s)
    (hnext : s.headBlockTime < s.nextMaintenanceTime) :
    0 ≤ paidOut WorkerType.refunded s.payroll ∧
      paidOut WorkerType.refunded s.payroll ≤ s.workerPay := by
  have hshares := (h.workerPay_bounds hregular hnext).1
  have hparts : ∀ part : WorkerType → Int → Int,
      (∀ w pay, 0 ≤ pay → 0 ≤ part w pay) → 0 ≤ paidOut part s.payroll := by
    intro part hpart
    apply List.sum_nonneg
    intro pay hpay
    obtain ⟨p, hp, rfl⟩ := List.mem_map.mp hpay
    exact hpart _ _ (hshares p hp).1
  have hrefunded := hparts WorkerType.refunded fun w pay hpay => by
    cases w <;> simp [WorkerType.refunded, hpay]
  have hburned := hparts WorkerType.burned fun w pay hpay => by
    cases w <;> simp [WorkerType.burned, hpay]
  have hvested := hparts WorkerType.vested fun w pay hpay => by
    cases w <;> simp [WorkerType.vested, hpay]
  have hsum := paidOut_eq s.payroll
  unfold State.workerPay
  omega

/-! ## The books -/

theorem processBudget_eq (h : Sound s) (hregular : Regular s)
    (hnext : s.headBlockTime < s.nextMaintenanceTime) : ∃ timeSinceLastBudget,
    processBudget s = payWorkers s.workerBudget s >>= s.bookBudget timeSinceLastBudget := by
  obtain ⟨-, hreserve, hreserve_le, -⟩ := h.bounds
  obtain ⟨htotal, htotal_le⟩ := h.totalBudget_bounds
  obtain ⟨hassigned, hassigned_le⟩ := h.assignedWitnessBudget_bounds hregular
  obtain ⟨hbudget, hbudget_le⟩ := h.workerBudget_bounds hregular hnext
  obtain ⟨timeSinceLastBudget, hrecord⟩ := h.initializeBudgetRecord_eq
  unfold maxShareSupply at hreserve_le
  have hworkers := workerBudget_eq (Int.sub_nonneg_of_le hassigned_le) (by omega) hregular.worker
    h.parameters.workerBudgetPerDay.2 (lt_of_le_of_lt (Nat.sub_le _ s.headBlockTime) h.time.2)
  have hexact : min (s.totalBudget - s.assignedWitnessBudget) (s.parameters.workerBudgetPerDay *
      ((s.nextMaintenanceTime - s.headBlockTime : Nat) : Int) / 86400) = s.workerBudget := by
    unfold State.workerBudget State.requestedWorkerBudget
    rw [Int.ofNat_sub hnext.le]
  rw [hexact] at hworkers
  have hfold : min s.requestedWitnessBudget s.totalBudget = s.assignedWitnessBudget := rfl
  refine ⟨timeSinceLastBudget, ?_⟩
  unfold processBudget
  rw [show cAssert (s.headBlockTime < s.nextMaintenanceTime) "time_to_maint > 0" = .ok () from
    if_pos hnext]
  show cAssert (0 < s.parameters.blockInterval) _ >>= _ = _
  rw [show cAssert (0 < s.parameters.blockInterval) "gpo.parameters.block_interval > 0" = .ok ()
    from if_pos h.parameters.blockInterval.1]
  show initializeBudgetRecord s >>= _ = _
  rw [hrecord]
  show safe (s.totalBudget - min (Budget.requestedWitnessBudget _ _) s.totalBudget) >>= _ = _
  rw [requestedWitnessBudget_eq hregular]
  dsimp only
  rw [hfold, safe_eq_ok.mpr ⟨rfl, by omega, by omega⟩]
  change safe (s.totalBudget - s.assignedWitnessBudget - (if _ then _ else _)) >>= _ = _
  rw [hworkers, safe_eq_ok.mpr ⟨rfl, by omega, by omega⟩]
  rfl

section

variable (h : Sound s) (hregular : Regular s) (hnext : s.headBlockTime < s.nextMaintenanceTime)
  (hall : PaidAll s.payroll s s') (timeSinceLastBudget : Nat)

include h hregular hnext hall

theorem bookBudget_eq : s.bookBudget timeSinceLastBudget (s.workerBudget - s.workerPay, s') =
    .ok (s.booked timeSinceLastBudget (s.workerBudget - s.workerPay, s') s.supplyDelta
      (s'.currentSupply + s.supplyDelta)) := by
  obtain ⟨hsupply, hmax⟩ := h.supply
  obtain ⟨hcurrent, hreserve, hreserve_le, hheld⟩ := h.bounds
  obtain ⟨htotal, htotal_le⟩ := h.totalBudget_bounds
  obtain ⟨hassigned, hassigned_le⟩ := h.assignedWitnessBudget_bounds hregular
  obtain ⟨hbudget, hbudget_le⟩ := h.workerBudget_bounds hregular hnext
  obtain ⟨-, hpay, hpay_le⟩ := h.workerPay_bounds hregular hnext
  obtain ⟨hrefunded, hrefunded_le⟩ := h.refunded_bounds hregular hnext
  have hfees := h.accumulatedFees
  have hwitness := h.witnessBudget
  unfold maxShareSupply at hmax hreserve_le
  have hok : ∀ v : Int, -(2 ^ 63) ≤ v → v < 2 ^ 63 → safe v = .ok v := fun v hlow hhigh =>
    safe_eq_ok.mpr ⟨rfl, hlow, hhigh⟩
  have hdelta : s.assignedWitnessBudget + s.workerBudget - (s.workerBudget - s.workerPay) -
      s.accumulatedFees - s.witnessBudget = s.supplyDelta := by
    unfold State.supplyDelta
    omega
  have hsupply' := hall.currentSupply
  have hdelta' : s.supplyDelta = s.assignedWitnessBudget + s.workerPay - s.accumulatedFees -
    s.witnessBudget := rfl
  have hreserve_eq : s.reserve =
    s.maxSupply - s.currentSupply + s.accumulatedFees + s.witnessBudget := rfl
  unfold State.bookBudget
  dsimp only
  rw [hok _ (by omega) (by omega)]
  show safe (s.assignedWitnessBudget + s.workerBudget) >>= _ = _
  rw [hok _ (by omega) (by omega)]
  show safe (s.assignedWitnessBudget + s.workerBudget - (s.workerBudget - s.workerPay)) >>= _ = _
  rw [hok _ (by omega) (by omega)]
  show safe (s.assignedWitnessBudget + s.workerBudget - (s.workerBudget - s.workerPay) -
    s.accumulatedFees) >>= _ = _
  rw [hok _ (by omega) (by omega)]
  show safe (s.assignedWitnessBudget + s.workerBudget - (s.workerBudget - s.workerPay) -
    s.accumulatedFees - s.witnessBudget) >>= _ = _
  rw [hdelta, hok _ (by omega) (by omega)]
  show safe (s'.currentSupply + s.supplyDelta) >>= _ = _
  rw [hok _ (by omega) (by omega)]
  rfl

theorem budgeted_booked : Budgeted s (s.booked timeSinceLastBudget
    (s.workerBudget - s.workerPay, s') s.supplyDelta (s'.currentSupply + s.supplyDelta)) := by
  obtain ⟨hsupply, hmax⟩ := h.supply
  obtain ⟨hassigned, hassigned_le⟩ := h.assignedWitnessBudget_bounds hregular
  obtain ⟨hbudget, hbudget_le⟩ := h.workerBudget_bounds hregular hnext
  obtain ⟨hshares, hpay, hpay_le⟩ := h.workerPay_bounds hregular hnext
  obtain ⟨hrefunded, hrefunded_le⟩ := h.refunded_bounds hregular hnext
  obtain ⟨-, hreserve, hreserve_le, -⟩ := h.bounds
  obtain ⟨htotal, htotal_le⟩ := h.totalBudget_bounds
  unfold maxShareSupply at hmax
  have hsupply' := hall.currentSupply
  have hdelta' : s.supplyDelta = s.assignedWitnessBudget + s.workerPay - s.accumulatedFees -
    s.witnessBudget := rfl
  have hreserve_eq : s.reserve =
    s.maxSupply - s.currentSupply + s.accumulatedFees + s.witnessBudget := rfl
  constructor
  case total => exact ⟨htotal, htotal_le⟩
  case witnessBudget => exact ⟨rfl, hassigned⟩
  case shares => exact hshares
  case assigned =>
    show s.assignedWitnessBudget + s.workerPay ≤ s.totalBudget
    omega
  case currentSupply =>
    show s'.currentSupply + s.supplyDelta = _
    omega
  case maxSupply =>
    have hmax' : s'.maxSupply = s.maxSupply := by rw [hall.frame]
    refine ⟨hmax', ?_⟩
    show s'.currentSupply + s.supplyDelta ≤ s'.maxSupply
    omega
  case accumulatedFees => rfl
  case lastBudgetTime => rfl
  case nullBalance => exact hall.nullBalance
  case vested => exact hall.vested
  case workers =>
    intro p hp
    exact ⟨mem_activeWorkers (mem_of_mem_allot hp), hall.credited p hp⟩
  case others => exact hall.others
  case vests => exact hall.nonneg h.vests
  case balances =>
    intro id vbo p hfound husable hp
    have hamount := h.amount_le_vested hfound husable.assetId
    have hbacked := h.backed
    have hnull := h.nullBalance
    have hfees := h.accumulatedFees
    have hwitness := h.witnessBudget
    have hsmall : vbo.balance.amount + s.workerPay < 2 ^ 63 := by omega
    exact hall.balances id vbo p hfound husable hp hsmall
  case untouched => exact hall.untouched
  case frame =>
    unfold State.booked
    dsimp only
    rw [hall.frame]
  case record =>
    refine ⟨timeSinceLastBudget, ?_⟩
    have hrecords : s'.budgetRecords = s.budgetRecords := by rw [hall.frame]
    show s'.budgetRecords ++ _ = _
    rw [hrecords]

end

theorem outcome_processBudget (h : Sound s) (hregular : Regular s)
    (hnext : s.headBlockTime < s.nextMaintenanceTime) :
    Outcome (Budgeted s)
      (fun e => e = .fc "overflow" ∧ ∃ p ∈ s.payroll, p.2.1.worker.Overflows p.2.2)
      (processBudget s) := by
  have hloop := h.outcome_payWorkers hregular hnext
  obtain ⟨timeSinceLastBudget, heq⟩ := h.processBudget_eq hregular hnext
  rw [heq]
  cases hpaid : payWorkers s.workerBudget s with
  | error e =>
    -- only the loop over the workers throws
    rw [hpaid] at hloop
    exact hloop
  | ok r =>
    obtain ⟨leftoverWorkerFunds, s'⟩ := r
    rw [hpaid] at hloop
    obtain ⟨rfl, hall⟩ := hloop
    show Outcome _ _ (s.bookBudget timeSinceLastBudget (s.workerBudget - s.workerPay, s'))
    rw [h.bookBudget_eq hregular hnext hall]
    exact h.budgeted_booked hregular hnext hall timeSinceLastBudget

end Sound

end Meta1Core.Budget
