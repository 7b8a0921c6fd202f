import Meta1Core.Budget.Supply

/-!
# The budget in every run

The supply stays backed in every state that a chain reaches, so each budget is what it should be as long
as the products of its amounts fit into their types.
-/

namespace Meta1Core.Budget

open Lib (Index Outcome of_bind)
open Protocol
open Vesting (VestingBalanceObject Usable)

variable {s s' : State}

/-- What the rest of the chain promises: time goes on, the parameters are validated, the supply covers
what is held, and a vesting balance stays usable. -/
structure Elsewhere.Admitted (change : Elsewhere) (s : State) : Prop where
  time : s.headBlockTime ≤ change.headBlockTime ∧ change.headBlockTime < 2 ^ 32
  parameters : change.parameters.Validated
  backed : Backed (change.applyTo s)
  vesting : ∀ id vbo p, s.vestingBalances.find id = some vbo → Usable s.headBlockTime vbo →
    vbo.policy = .cdd p → ∃ vbo' p', change.vestingBalances.find id = some vbo' ∧
      Usable change.headBlockTime vbo' ∧ vbo'.policy = .cdd p'

/-- The next maintenance is in the range of `time_point_sec`. -/
def State.InTime (s : State) : Prop :=
  s.headBlockTime + s.parameters.maintenanceInterval < 2 ^ 32

instance (s : State) : Decidable s.InTime := inferInstanceAs (Decidable (_ < _))

/-- The budgets whose amounts fit, and whatever the chain does else -/
def Admitted (s : State) : Event → Prop
  | .maintenance blockNum => s.InTime ∧ Regular (s.beforeBudget blockNum)
  | .elsewhere change => change.Admitted s
  | _ => True

structure ValidGenesis (s : State) : Prop where
  genesis : IsGenesis s
  supply : 0 ≤ s.currentSupply ∧ s.currentSupply ≤ s.maxSupply ∧ s.maxSupply ≤ maxShareSupply
  parameters : s.parameters.Validated
  time : s.headBlockTime < 2 ^ 32

theorem lt_laterMaintenanceTime (hparameters : s.parameters.Validated) (hinTime : s.InTime)
    (hnext : s.nextMaintenanceTime < 2 ^ 32) (blockNum : Nat) :
    s.headBlockTime < s.laterMaintenanceTime blockNum ∧
      s.laterMaintenanceTime blockNum < 2 ^ 32 := by
  have hinterval : 0 < s.parameters.maintenanceInterval :=
    Nat.lt_of_le_of_lt (Nat.zero_le _) hparameters.maintenanceInterval.1
  unfold State.InTime at hinTime
  unfold State.laterMaintenanceTime
  dsimp only
  generalize s.parameters.maintenanceInterval = interval at hinterval hinTime ⊢
  split
  · rename_i hpassed
    split
    · have hlt := Nat.lt_div_mul_add hinterval (a := s.headBlockTime)
      have hle := Nat.div_mul_le_self s.headBlockTime interval
      rw [Nat.add_mul, Nat.one_mul, Nat.mod_eq_of_lt (by omega)]
      omega
    · have hlt := Nat.lt_div_mul_add hinterval (a := s.headBlockTime - s.nextMaintenanceTime)
      have hle := Nat.div_mul_le_self (s.headBlockTime - s.nextMaintenanceTime) interval
      rw [Nat.add_mul, Nat.one_mul]
      rw [Nat.mod_eq_of_lt (a := _ + interval) (by omega), Nat.mod_eq_of_lt (by omega)]
      omega
  · omega

/-! ## Steps -/

namespace Sound

theorem beforeBudget (h : Sound s) (hinTime : s.InTime) (blockNum : Nat) :
    Sound (s.beforeBudget blockNum) where
  supply := h.supply
  accumulatedFees := h.accumulatedFees
  witnessBudget := h.witnessBudget
  nullBalance := h.nullBalance
  vests := h.vests
  backed := h.backed
  dailyPay := h.dailyPay
  vesting := h.vesting
  counters := h.counters
  time := ⟨h.time.1, (lt_laterMaintenanceTime h.parameters hinTime h.time.2 blockNum).2⟩
  parameters := h.parameters

theorem budgeted (h : Sound s) (hs : Budgeted s s') : Sound s' := by
  have hmax := h.supply.2
  have hbacked := h.backed
  have hsum := paidOut_eq s.payroll
  have hsupply := hs.currentSupply
  have hdelta : s.supplyDelta = s.assignedWitnessBudget + paidOut (fun _ pay => pay) s.payroll -
    s.accumulatedFees - s.witnessBudget := rfl
  have hwitness := hs.witnessBudget
  have htime : s'.headBlockTime = s.headBlockTime := by rw [hs.frame]
  have hnext : s'.nextMaintenanceTime = s.nextMaintenanceTime := by rw [hs.frame]
  have hparameters : s'.parameters = s.parameters := by rw [hs.frame]
  -- a worker is an old one, or one of the payroll with his counter
  have hworkers : ∀ n w, s'.workers.find n = some w → ∃ w' pay, s.workers.find n = some w' ∧
      w.dailyPay = w'.dailyPay ∧ 0 ≤ pay ∧
      (w.worker = w'.worker ∨ w.worker = w'.worker.credited pay) := by
    intro n w hw
    by_cases hmem : n ∈ s.payroll.map Prod.fst
    · obtain ⟨p, hp, rfl⟩ := List.mem_map.mp hmem
      obtain ⟨hold, hnew⟩ := hs.workers p hp
      rw [hw] at hnew
      cases hnew
      exact ⟨p.2.1, p.2.2, hold, rfl, (hs.shares p hp).1, .inr rfl⟩
    · rw [hs.others n hmem] at hw
      exact ⟨w, 0, hw, rfl, le_refl 0, .inl rfl⟩
  have hburned : 0 ≤ paidOut WorkerType.burned s.payroll := by
    apply List.sum_nonneg
    intro part hpart
    obtain ⟨p, hp, rfl⟩ := List.mem_map.mp hpart
    have hshare := (hs.shares p hp).1
    cases p.2.1.worker <;> simp [WorkerType.burned, hshare]
  constructor
  case toBacked =>
    constructor
    case supply =>
      rw [hs.maxSupply.1]
      exact ⟨hs.maxSupply.1 ▸ hs.maxSupply.2, hmax⟩
    case accumulatedFees => exact hs.accumulatedFees.ge
    case witnessBudget => exact hwitness.2
    case nullBalance =>
      rw [hs.nullBalance]
      exact Int.add_nonneg h.nullBalance hburned
    case vests => exact hs.vests
    case backed =>
      rw [hs.nullBalance, hs.vested, hs.accumulatedFees]
      omega
  case dailyPay =>
    intro n w hw
    obtain ⟨w', pay, hold, hdaily, -⟩ := hworkers n w hw
    rw [hdaily]
    exact h.dailyPay n w' hold
  case vesting =>
    intro n w id hw hkind
    obtain ⟨w', pay, hold, -, -, hsame⟩ := hworkers n w hw
    have hkind' : w'.worker = .vestingBalance id := by
      rcases hsame with hsame | hsame
      · exact hsame.symm.trans hkind
      · exact WorkerType.credited_eq_vestingBalance.mp (hsame.symm.trans hkind)
    obtain ⟨vbo, p, hfound, husable, hp⟩ := h.vesting n w' id hold hkind'
    obtain ⟨vbo', p', hfound', husable', hp', -⟩ := hs.balances id vbo p hfound husable hp
    rw [htime]
    exact ⟨vbo', p', hfound', husable', hp'⟩
  case counters =>
    intro n w t hw hkind
    obtain ⟨w', pay, hold, -, hpay, hsame⟩ := hworkers n w hw
    rcases hsame with hsame | hsame
    · exact h.counters n w' t hold (hsame ▸ hkind)
    · rw [hsame] at hkind
      obtain ⟨t', hkind', rfl⟩ := WorkerType.credited_eq_counter hkind
      exact Int.add_nonneg (h.counters n w' t' hold hkind') hpay
  case time =>
    rw [htime, hnext]
    exact h.time
  case parameters =>
    rw [hparameters]
    exact h.parameters

theorem countVotes (h : Sound s) (id totalVotesFor totalVotesAgainst : Nat) :
    Sound { s with workers :=
      s.workers.modify id fun w => { w with totalVotesFor, totalVotesAgainst } } := by
  have hworkers : ∀ n w, (s.workers.modify id fun w =>
      { w with totalVotesFor, totalVotesAgainst }).find n = some w →
      ∃ w', s.workers.find n = some w' ∧ w.dailyPay = w'.dailyPay ∧ w.worker = w'.worker := by
    intro n w hw
    rw [Index.find_modify] at hw
    split at hw
    · rename_i heq
      obtain ⟨w', hw', rfl⟩ := Option.map_eq_some_iff.mp hw
      exact ⟨w', heq ▸ hw', rfl, rfl⟩
    · exact ⟨w, hw, rfl, rfl⟩
  constructor
  case toBacked =>
    exact ⟨h.supply, h.accumulatedFees, h.witnessBudget, h.nullBalance, h.vests, h.backed⟩
  case dailyPay =>
    intro n w hw
    obtain ⟨w', hold, hdaily, -⟩ := hworkers n w hw
    rw [hdaily]
    exact h.dailyPay n w' hold
  case vesting =>
    intro n w id hw hkind
    obtain ⟨w', hold, -, hsame⟩ := hworkers n w hw
    exact h.vesting n w' id hold (hsame ▸ hkind)
  case counters =>
    intro n w t hw hkind
    obtain ⟨w', hold, -, hsame⟩ := hworkers n w hw
    exact h.counters n w' t hold (hsame ▸ hkind)
  case time => exact h.time
  case parameters => exact h.parameters

theorem elsewhere (h : Sound s) {change : Elsewhere} (hchange : change.Admitted s) :
    Sound (change.applyTo s) where
  toBacked := hchange.backed
  dailyPay := h.dailyPay
  vesting := by
    intro n w id hw hkind
    obtain ⟨vbo, p, hfound, husable, hp⟩ := h.vesting n w id hw hkind
    exact hchange.vesting id vbo p hfound husable hp
  counters := h.counters
  time := ⟨hchange.time.2, h.time.2⟩
  parameters := hchange.parameters

theorem createWorker (h : Sound s) {w : WorkerObject}
    (hdaily : 0 ≤ w.dailyPay ∧ w.dailyPay ≤ maxShareSupply)
    (hvesting : ∀ id, w.worker = .vestingBalance id → ∃ vbo p,
      s.vestingBalances.find id = some vbo ∧ Usable s.headBlockTime vbo ∧ vbo.policy = .cdd p)
    (hcounters : ∀ t, w.worker = .refund t ∨ w.worker = .burn t → 0 ≤ t) :
    Sound { s with workers := s.workers.create w } := by
  have hworkers : ∀ n v, (s.workers.create w).find n = some v →
      v = w ∨ s.workers.find n = some v := by
    intro n v hv
    rw [Index.find_create] at hv
    split at hv
    · exact .inl (Option.some.inj hv).symm
    · exact .inr hv
  constructor
  case toBacked =>
    exact ⟨h.supply, h.accumulatedFees, h.witnessBudget, h.nullBalance, h.vests, h.backed⟩
  case dailyPay =>
    intro n v hv
    rcases hworkers n v hv with rfl | hv
    · exact hdaily
    · exact h.dailyPay n v hv
  case vesting =>
    intro n v id hv hkind
    rcases hworkers n v hv with rfl | hv
    · exact hvesting id hkind
    · exact h.vesting n v id hv hkind
  case counters =>
    intro n v t hv hkind
    rcases hworkers n v hv with rfl | hv
    · exact hcounters t hkind
    · exact h.counters n v t hv hkind
  case time => exact h.time
  case parameters => exact h.parameters

theorem createVestingBalance (h : Sound s) {vbo : VestingBalanceObject}
    (hempty : vbo.balance = ⟨0, core⟩) :
    Sound { s with vestingBalances := s.vestingBalances.create vbo } := by
  have hkeep : ∀ id old, s.vestingBalances.find id = some old →
      (s.vestingBalances.create vbo).find id = some old := by
    intro id old hold
    rw [Index.find_create, if_neg (Index.lt_next hold).ne]
    exact hold
  constructor
  case toBacked =>
    constructor
    case supply => exact h.supply
    case accumulatedFees => exact h.accumulatedFees
    case witnessBudget => exact h.witnessBudget
    case nullBalance => exact h.nullBalance
    case vests =>
      intro id old hold hcore
      change (s.vestingBalances.create vbo).find id = some old at hold
      rw [Index.find_create] at hold
      split at hold
      · cases hold
        rw [hempty]
      · exact h.vests id old hold hcore
    case backed =>
      have hvested : Index.total (fun _ (vbo : VestingBalanceObject) =>
          if vbo.balance.assetId = core then vbo.balance.amount else 0)
          (s.vestingBalances.create vbo) = s.vested := by
        rw [Index.total_create, hempty, if_pos rfl, add_zero]
        rfl
      show s.nullBalance + Index.total _ (s.vestingBalances.create vbo) + _ + _ ≤ _
      rw [hvested]
      exact h.backed
  case dailyPay => exact h.dailyPay
  case vesting =>
    intro n w id hw hkind
    obtain ⟨old, p, hfound, husable, hp⟩ := h.vesting n w id hw hkind
    exact ⟨old, p, hkeep id old hfound, husable, hp⟩
  case counters => exact h.counters
  case time => exact h.time
  case parameters => exact h.parameters

end Sound

theorem WorkerCreateOperation.of_apply {op : WorkerCreateOperation} (hs : op.apply s = .ok s') :
    0 < op.dailyPay ∧ op.dailyPay < maxShareSupply ∧ s' = op.doApply s := by
  unfold WorkerCreateOperation.apply at hs
  obtain ⟨u, hvalidate, hs⟩ := of_bind hs
  obtain ⟨u', -, hs⟩ := of_bind hs
  cases hs
  unfold WorkerCreateOperation.validate at hvalidate
  obtain ⟨-, hvalidate⟩ := of_fcAssert hvalidate
  obtain ⟨-, hvalidate⟩ := of_fcAssert hvalidate
  obtain ⟨hpositive, hvalidate⟩ := of_fcAssert hvalidate
  obtain ⟨hsmall, -⟩ := of_fcAssert hvalidate
  exact ⟨hpositive, hsmall, rfl⟩

theorem Sound.apply (h : Sound s) {op : WorkerCreateOperation} (hs : op.apply s = .ok s') :
    Sound s' := by
  obtain ⟨hpositive, hsmall, rfl⟩ := op.of_apply hs
  unfold WorkerCreateOperation.doApply WorkerCreateOperation.initWorker
  cases op.initializer with
  | refund =>
    exact h.createWorker ⟨hpositive.le, hsmall.le⟩ (fun _ hkind => nomatch hkind)
      fun t hkind => by rcases hkind with hkind | hkind <;> cases hkind; decide
  | burn =>
    exact h.createWorker ⟨hpositive.le, hsmall.le⟩ (fun _ hkind => nomatch hkind)
      fun t hkind => by rcases hkind with hkind | hkind <;> cases hkind; decide
  | vestingBalance payVestingPeriodDays =>
    have hempty : (op.vestingBalanceObject payVestingPeriodDays s.headBlockTime).balance =
        ⟨0, core⟩ := rfl
    have hnew := h.createVestingBalance hempty
    refine hnew.createWorker ⟨hpositive.le, hsmall.le⟩ ?_ fun t hkind => ?_
    · intro id hkind
      cases hkind
      refine ⟨op.vestingBalanceObject payVestingPeriodDays s.headBlockTime, _, ?_, ?_, rfl⟩
      · show (s.vestingBalances.create _).find s.vestingBalances.next = _
        rw [Index.find_create, if_pos rfl]
      · constructor
        case assetId => rfl
        case nonneg => exact le_refl 0
        case small => norm_num [WorkerCreateOperation.vestingBalanceObject]
        case past =>
          intro p hp
          cases hp
          exact le_refl _
    · rcases hkind with hkind | hkind
      · cases hkind
      · cases hkind

theorem Sound.outcome_maintenance (h : Sound s) {blockNum : Nat}
    (hadmitted : Admitted s (.maintenance blockNum)) :
    Outcome (Budgeted (s.beforeBudget blockNum))
      (fun e => e = .fc "overflow" ∧
        ∃ p ∈ (s.beforeBudget blockNum).payroll, p.2.1.worker.Overflows p.2.2)
      (step s (.maintenance blockNum)) :=
  (h.beforeBudget hadmitted.1 blockNum).outcome_processBudget hadmitted.2
    (lt_laterMaintenanceTime h.parameters hadmitted.1 h.time.2 blockNum).1

theorem Sound.step (h : Sound s) {e : Event} (he : Admitted s e) (hs : step s e = .ok s') :
    Sound s' := by
  cases e with
  | createWorker op => exact h.apply hs
  | countVotes id totalVotesFor totalVotesAgainst =>
    cases hs
    exact h.countVotes id totalVotesFor totalVotesAgainst
  | maintenance blockNum =>
    have hbudget := h.outcome_maintenance he
    rw [hs] at hbudget
    exact (h.beforeBudget he.1 blockNum).budgeted hbudget
  | elsewhere change =>
    cases hs
    exact h.elsewhere he

theorem sound_genesis (h : ValidGenesis s) : Sound s := by
  obtain ⟨hgenesis, ⟨hnonneg, hsupply, hmax⟩, hparameters, htime⟩ := h
  have hworkers : ∀ n w, s.workers.find n ≠ some w := by
    rw [hgenesis.workers]
    exact fun n w hw => nomatch hw
  have hvested : s.vested = 0 := by
    unfold State.vested
    rw [hgenesis.vestingBalances]
    rfl
  constructor
  case toBacked =>
    constructor
    case supply => exact ⟨hsupply, hmax⟩
    case accumulatedFees => exact hgenesis.accumulatedFees.ge
    case witnessBudget => exact hgenesis.witnessBudget.ge
    case nullBalance => exact hgenesis.nullBalance.ge
    case vests =>
      intro id vbo hfound
      rw [hgenesis.vestingBalances] at hfound
      cases hfound
    case backed =>
      rw [hgenesis.nullBalance, hvested, hgenesis.accumulatedFees, hgenesis.witnessBudget]
      exact hnonneg
  case dailyPay => exact fun n w hw => absurd hw (hworkers n w)
  case vesting => exact fun n w _ hw => absurd hw (hworkers n w)
  case counters => exact fun n w _ hw => absurd hw (hworkers n w)
  case time =>
    rw [hgenesis.nextMaintenanceTime]
    exact ⟨htime, by decide⟩
  case parameters => exact hparameters

def Reached : State → Prop := Lib.Reachable step ValidGenesis Admitted

theorem sound_of_reached (h : Reached s) : Sound s :=
  Lib.Reachable.invariant Sound (fun _ => sound_genesis) (fun _ _ _ hsound => hsound.step) h

theorem Reached.wait (h : Reached s) {t : Nat} (hle : s.headBlockTime ≤ t) (hlt : t < 2 ^ 32) :
    Reached { s with headBlockTime := t } := by
  have hsound := sound_of_reached h
  let change : Elsewhere :=
    { headBlockTime := t
      parameters := s.parameters
      lifetimeMembers := s.lifetimeMembers
      currentSupply := s.currentSupply
      accumulatedFees := s.accumulatedFees
      witnessBudget := s.witnessBudget
      nullBalance := s.nullBalance
      vestingBalances := s.vestingBalances }
  have hchange : change.Admitted s := {
    time := ⟨hle, hlt⟩
    parameters := hsound.parameters
    backed := ⟨hsound.supply, hsound.accumulatedFees, hsound.witnessBudget, hsound.nullBalance,
      hsound.vests, hsound.backed⟩
    vesting := fun id vbo p hfound husable hp => ⟨vbo, p, hfound, husable.later hle, hp⟩ }
  exact Lib.Reachable.step (e := .elsewhere change) h hchange rfl

/-! ## A sample -/

def sampleGenesis : State where
  headBlockTime := 1000
  nextMaintenanceTime := 0
  maxSupply := 9000000000000000000
  currentSupply := 1000000000000000
  lifetimeMembers := [0]

def sampleWorker : WorkerCreateOperation where
  owner := 0
  workBeginDate := 1000
  workEndDate := 1000000000
  dailyPay := 1000
  initializer := .refund

theorem validGenesis_sample : ValidGenesis sampleGenesis where
  genesis := ⟨rfl, rfl, rfl, rfl, rfl, rfl, rfl, rfl⟩
  supply := by decide
  parameters := by decide
  time := by decide

def sampleVestingWorker : WorkerCreateOperation :=
  { sampleWorker with initializer := .vestingBalance 1 }

def sampleEvents : List Event :=
  [.maintenance 1, .createWorker sampleWorker, .createWorker sampleVestingWorker,
    .countVotes 0 1 0, .countVotes 1 1 0]

theorem sample_steps : Lib.StepsMeet step Admitted sampleGenesis sampleEvents := by
  refine And.intro (And.intro (by decide) (by decide)) ?_
  have hrest : ∀ e ∈ sampleEvents.tail, ∀ s, Admitted s e := by
    intro e he s
    rcases List.mem_cons.mp he with rfl | he
    · trivial
    rcases List.mem_cons.mp he with rfl | he
    · trivial
    rcases List.mem_pair.mp he with rfl | rfl
    · trivial
    · trivial
  cases step sampleGenesis (.maintenance 1) with
  | ok s => exact Lib.StepsMeet.of_forall hrest s
  | error e => trivial

theorem exists_reached {P : State → Prop}
    (hend : Lib.Succeeds (Lib.run step sampleGenesis sampleEvents) fun s =>
      s.headBlockTime ≤ 86400 ∧ P { s with headBlockTime := 86400 }) :
    ∃ s, Reached s ∧ P s := by
  obtain ⟨s, hreached, hle, hP⟩ :=
    Lib.Reachable.of_run sampleEvents validGenesis_sample sample_steps hend
  exact ⟨_, Reached.wait hreached hle (by decide), hP⟩

/-- In every reached state the supply is at most its maximum, and the next budget takes from the reserve
what it assigns, unless a `total_burned` overflows. -/
theorem processBudget_neverOverIssues (h : Reached s) {blockNum : Nat}
    (hadmitted : Admitted s (.maintenance blockNum)) :
    s.currentSupply ≤ s.maxSupply ∧
    Outcome (Budgeted (s.beforeBudget blockNum))
      (fun e => e = .fc "overflow" ∧
        ∃ p ∈ (s.beforeBudget blockNum).payroll, p.2.1.worker.Overflows p.2.2)
      (step s (.maintenance blockNum)) :=
  have hsound := sound_of_reached h
  ⟨hsound.supply.1, hsound.outcome_maintenance hadmitted⟩

theorem processBudget_neverOverIssues_sample : ∃ s, Reached s ∧
    (s.beforeBudget 2).workerPay = 988 + 988 ∧
    Lib.Succeeds (step s (.maintenance 2)) (fun s' =>
      (s'.vestingBalances.find 0).map (·.balance) = some ⟨988, core⟩) ∧
    s.currentSupply ≤ s.maxSupply ∧
    Outcome (Budgeted (s.beforeBudget 2))
      (fun e => e = .fc "overflow" ∧ ∃ p ∈ (s.beforeBudget 2).payroll, p.2.1.worker.Overflows p.2.2)
      (step s (.maintenance 2)) := by
  obtain ⟨s, hreached, hinTime, hregular, hpay, hvested⟩ := exists_reached (P := fun s =>
    s.InTime ∧ Regular (s.beforeBudget 2) ∧ (s.beforeBudget 2).workerPay = 988 + 988 ∧
    Lib.Succeeds (step s (.maintenance 2)) fun s' =>
      (s'.vestingBalances.find 0).map (·.balance) = some ⟨988, core⟩) (by decide +kernel)
  exact ⟨s, hreached, hpay, hvested, processBudget_neverOverIssues hreached ⟨hinTime, hregular⟩⟩

/-- The supply does not rise by what a worker gives back. -/
theorem processBudget_refunds : ∃ s blockNum, Reached s ∧ Admitted s (.maintenance blockNum) ∧
    Lib.Succeeds (step s (.maintenance blockNum)) fun s' =>
      s'.currentSupply ≠ s.currentSupply + (s'.witnessBudget + (s.beforeBudget blockNum).workerPay -
        s.accumulatedFees - s.witnessBudget) := by
  obtain ⟨s, hreached, hinTime, hregular, hbudget⟩ := exists_reached (P := fun s =>
    s.InTime ∧ Regular (s.beforeBudget 2) ∧ Lib.Succeeds (step s (.maintenance 2)) fun s' =>
      s'.currentSupply ≠ s.currentSupply + (s'.witnessBudget + (s.beforeBudget 2).workerPay -
        s.accumulatedFees - s.witnessBudget)) (by decide +kernel)
  exact ⟨s, 2, hreached, ⟨hinTime, hregular⟩, hbudget⟩

end Meta1Core.Budget
