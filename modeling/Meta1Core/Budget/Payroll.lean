import Meta1Core.Budget.Objects

/-!
# The payroll (`pay_workers`)

The workers take what they ask for from the budget, one after the other, until it is used up.  What
they get is told by the list alone; where it goes, by the kind of the worker.
-/

namespace Meta1Core.Budget

open Lib (Index Outcome bind_eq_ok)
open Protocol
open Vesting (VestingBalanceObject CddVestingPolicy Usable)

variable {s s' : State}

def allot (share : WorkerObject → Int) :
    List (Nat × WorkerObject) → Int → List (Nat × WorkerObject × Int)
  | [], _ => []
  | e :: rest, budget =>
    if budget ≤ 0 then []
    else (e.1, e.2, min budget (share e.2)) ::
      allot share rest (budget - min budget (share e.2))

section

variable {share : WorkerObject → Int} {ws : List (Nat × WorkerObject)} {budget : Int}

theorem mem_of_mem_allot {p : Nat × WorkerObject × Int} (h : p ∈ allot share ws budget) :
    (p.1, p.2.1) ∈ ws := by
  induction ws generalizing budget with
  | nil => cases h
  | cons e rest ih =>
    unfold allot at h
    split at h
    · cases h
    · rcases List.mem_cons.mp h with rfl | h
      · exact List.mem_cons_self
      · exact List.mem_cons_of_mem _ (ih h)

theorem allot_bounds (hshare : ∀ e ∈ ws, 0 ≤ share e.2) {p : Nat × WorkerObject × Int}
    (h : p ∈ allot share ws budget) : 0 ≤ p.2.2 ∧ p.2.2 ≤ share p.2.1 := by
  induction ws generalizing budget with
  | nil => cases h
  | cons e rest ih =>
    obtain ⟨he, hrest⟩ := List.forall_mem_cons.mp hshare
    unfold allot at h
    split at h
    · cases h
    · rename_i hbudget
      rcases List.mem_cons.mp h with rfl | h
      · exact ⟨le_min (not_le.mp hbudget).le he, min_le_right _ _⟩
      · exact ih hrest h

def paidOut (part : WorkerType → Int → Int) (ps : List (Nat × WorkerObject × Int)) : Int :=
  (ps.map fun p => part p.2.1.worker p.2.2).sum

@[simp] theorem paidOut_cons (part : WorkerType → Int → Int) (p : Nat × WorkerObject × Int)
    (ps : List (Nat × WorkerObject × Int)) :
    paidOut part (p :: ps) = part p.2.1.worker p.2.2 + paidOut part ps :=
  List.sum_cons

theorem paidOut_allot_nonneg (hshare : ∀ e ∈ ws, 0 ≤ share e.2) :
    0 ≤ paidOut (fun _ pay => pay) (allot share ws budget) := by
  apply List.sum_nonneg
  intro pay hpay
  obtain ⟨p, hp, rfl⟩ := List.mem_map.mp hpay
  exact (allot_bounds hshare hp).1

theorem paidOut_allot_le (hbudget : 0 ≤ budget) :
    paidOut (fun _ pay => pay) (allot share ws budget) ≤ budget := by
  induction ws generalizing budget with
  | nil => exact hbudget
  | cons e rest ih =>
    unfold allot
    split
    · exact hbudget
    · have hrest := ih (Int.sub_nonneg_of_le (min_le_left budget (share e.2)))
      rw [paidOut_cons]
      dsimp only
      omega

end

namespace WorkerType

def credited (pay : Int) : WorkerType → WorkerType
  | .refund totalBurned => .refund (totalBurned + pay)
  | .vestingBalance balance => .vestingBalance balance
  | .burn totalBurned => .burn (totalBurned + pay)

/-- The pay does not fit into `total_burned`. -/
def Overflows (pay : Int) : WorkerType → Prop
  | .refund totalBurned => 2 ^ 63 ≤ totalBurned + pay
  | .vestingBalance _ => False
  | .burn totalBurned => 2 ^ 63 ≤ totalBurned + pay

theorem credited_eq_vestingBalance {w : WorkerType} {pay : Int} {id : Nat} :
    w.credited pay = .vestingBalance id ↔ w = .vestingBalance id := by
  cases w with
  | refund t => exact iff_of_false (fun h => nomatch h) (fun h => nomatch h)
  | vestingBalance b => rfl
  | burn t => exact iff_of_false (fun h => nomatch h) (fun h => nomatch h)

theorem credited_eq_counter {w : WorkerType} {pay t : Int}
    (h : w.credited pay = .refund t ∨ w.credited pay = .burn t) :
    ∃ t', (w = .refund t' ∨ w = .burn t') ∧ t = t' + pay := by
  cases w with
  | refund t' =>
    rcases h with h | h
    · exact ⟨t', .inl rfl, (WorkerType.refund.inj h).symm⟩
    · cases h
  | vestingBalance b =>
    rcases h with h | h
    · cases h
    · cases h
  | burn t' =>
    rcases h with h | h
    · cases h
    · exact ⟨t', .inr rfl, (WorkerType.burn.inj h).symm⟩

def refunded : WorkerType → Int → Int
  | .refund _, pay => pay
  | _, _ => 0

def burned : WorkerType → Int → Int
  | .burn _, pay => pay
  | _, _ => 0

def vested : WorkerType → Int → Int
  | .vestingBalance _, pay => pay
  | _, _ => 0

def vestedAt (id : Nat) : WorkerType → Int → Int
  | .vestingBalance balance, pay => if balance = id then pay else 0
  | _, _ => 0

theorem vestedAt_le (w : WorkerType) (id : Nat) {pay : Int} (h : 0 ≤ pay) :
    w.vestedAt id pay ≤ pay := by
  cases w with
  | refund t => exact h
  | vestingBalance balance =>
    show (if balance = id then pay else 0) ≤ pay
    split
    · exact le_refl pay
    · exact h
  | burn t => exact h

end WorkerType

def State.vested (s : State) : Int :=
  s.vestingBalances.total fun _ vbo =>
    if vbo.balance.assetId = core then vbo.balance.amount else 0

def State.VestsNonneg (s : State) : Prop :=
  ∀ id vbo, s.vestingBalances.find id = some vbo → vbo.balance.assetId = core →
    0 ≤ vbo.balance.amount

/-- What `pay_worker` relies on when a budget is paid out: no sum leaves the range of a `share_type`, and
the vesting balances of the workers are usable. -/
structure Covered (s : State) (budget : Int) : Prop where
  supply : -(2 ^ 63) ≤ s.currentSupply - budget ∧ s.currentSupply < 2 ^ 63
  null : 0 ≤ s.nullBalance ∧ s.nullBalance + budget < 2 ^ 63
  vesting : ∀ n w id, s.workers.find n = some w → w.worker = .vestingBalance id →
    ∃ vbo p, s.vestingBalances.find id = some vbo ∧ Usable s.headBlockTime vbo ∧
      vbo.policy = .cdd p ∧ vbo.balance.amount + budget < 2 ^ 63
  counters : ∀ n w t, s.workers.find n = some w → w.worker = .refund t ∨ w.worker = .burn t → 0 ≤ t

structure Paid (w : WorkerType) (pay : Int) (s s' : State) : Prop where
  currentSupply : s'.currentSupply = s.currentSupply - w.refunded pay
  nullBalance : s'.nullBalance = s.nullBalance + w.burned pay
  vested : s'.vested = s.vested + w.vested pay
  frame : s' = { s with
    currentSupply := s'.currentSupply
    nullBalance := s'.nullBalance
    vestingBalances := s'.vestingBalances }
  nonneg : s.VestsNonneg → s'.VestsNonneg
  balances : ∀ id vbo p, s.vestingBalances.find id = some vbo → Usable s.headBlockTime vbo →
    vbo.policy = .cdd p → vbo.balance.amount + pay < 2 ^ 63 →
      ∃ vbo' p', s'.vestingBalances.find id = some vbo' ∧ Usable s.headBlockTime vbo' ∧
        vbo'.policy = .cdd p' ∧ vbo'.balance.amount = vbo.balance.amount + w.vestedAt id pay
  untouched : ∀ id, w ≠ .vestingBalance id →
    s'.vestingBalances.find id = s.vestingBalances.find id

theorem Covered.outcome_payWorker {budget pay : Int} (h : Covered s budget) {n : Nat}
    {w : WorkerObject} (hw : s.workers.find n = some w) (hnonneg : 0 ≤ pay) (hle : pay ≤ budget) :
    Outcome (fun r => r.1 = w.worker.credited pay ∧ Paid w.worker pay s r.2)
      (fun e => e = .fc "overflow" ∧ w.worker.Overflows pay) (w.worker.payWorker pay s) := by
  have hunchanged : ∀ id vbo (p : CddVestingPolicy), s.vestingBalances.find id = some vbo →
      Usable s.headBlockTime vbo → vbo.policy = .cdd p → vbo.balance.amount + pay < 2 ^ 63 →
        ∃ vbo' p', s.vestingBalances.find id = some vbo' ∧ Usable s.headBlockTime vbo' ∧
          vbo'.policy = .cdd p' ∧ vbo'.balance.amount = vbo.balance.amount + 0 :=
    fun id vbo p hfound husable hp _ => ⟨vbo, p, hfound, husable, hp, (add_zero _).symm⟩
  obtain ⟨hsupply, hsupply'⟩ := h.supply
  obtain ⟨hnull, hnull'⟩ := h.null
  cases hkind : w.worker with
  | refund totalBurned =>
    have hcounter := h.counters n w totalBurned hw (.inl hkind)
    show Outcome _ _ (safe (totalBurned + pay) >>= _)
    by_cases hlt : totalBurned + pay < 2 ^ 63
    · have hsafe : safe (totalBurned + pay) = .ok (totalBurned + pay) :=
        safe_eq_ok.mpr ⟨rfl, by omega, hlt⟩
      have hsafe' : safe (s.currentSupply - pay) = .ok (s.currentSupply - pay) :=
        safe_eq_ok.mpr ⟨rfl, by omega, by omega⟩
      rw [hsafe]
      show Outcome _ _ (safe (s.currentSupply - pay) >>= _)
      rw [hsafe']
      exact ⟨rfl, rfl, (add_zero _).symm, (add_zero _).symm, rfl, id, hunchanged, fun _ _ => rfl⟩
    · have hsafe : safe (totalBurned + pay) = .error (.fc "overflow") :=
        if_neg fun hand => hlt hand.2
      rw [hsafe]
      exact ⟨rfl, not_lt.mp hlt⟩
  | vestingBalance balance =>
    obtain ⟨vbo, p, hfound, husable, hp, hlt⟩ := h.vesting n w balance hw hkind
    have hsmall : vbo.balance.amount + pay < 2 ^ 63 := by omega
    have hamount := husable.nonneg
    obtain ⟨vbo', hdeposit⟩ := (Vesting.depositInto_isOk_iff true husable hp hnonneg
      (by omega)).mpr ⟨.inl rfl, hsmall⟩
    obtain ⟨husable', howner, hbalance, p', hp', -⟩ :=
      Vesting.usable_of_depositInto husable hp hnonneg hsmall hdeposit
    have hdeposit' : vbo.deposit s.headBlockTime ⟨pay, core⟩ = .ok vbo' := hdeposit
    unfold WorkerType.payWorker
    dsimp only
    rw [hfound]
    dsimp only
    rw [hdeposit']
    refine ⟨rfl, (sub_zero _).symm, (add_zero _).symm, ?_, rfl, ?_, ?_, ?_⟩
    · show Index.total _ (s.vestingBalances.modify balance fun _ => vbo') = s.vested + pay
      rw [Index.total_modify _ hfound, if_pos husable.assetId, if_pos husable'.assetId, hbalance]
      unfold State.vested
      ring
    · intro hall id old hold hcore
      change (s.vestingBalances.modify balance fun _ => vbo').find id = some old at hold
      rw [Index.find_modify] at hold
      split at hold
      · rw [hfound] at hold
        cases hold
        exact husable'.nonneg
      · exact hall id old hold hcore
    · intro id old q hold husable_old hq hsmall_old
      show ∃ vbo'' p'', (s.vestingBalances.modify balance fun _ => vbo').find id = some vbo'' ∧ _
      rw [Index.find_modify]
      by_cases heq : id = balance
      · subst heq
        rw [hfound] at hold
        cases hold
        rw [if_pos rfl, hfound]
        refine ⟨vbo', p', rfl, husable', hp', ?_⟩
        rw [hbalance, WorkerType.vestedAt, if_pos rfl]
      · rw [if_neg heq, WorkerType.vestedAt, if_neg (Ne.symm heq)]
        exact hunchanged id old q hold husable_old hq hsmall_old
    · intro id hid
      show (s.vestingBalances.modify balance fun _ => vbo').find id = _
      rw [Index.find_modify, if_neg fun heq : id = balance => hid (heq ▸ rfl)]
  | burn totalBurned =>
    have hcounter := h.counters n w totalBurned hw (.inr hkind)
    show Outcome _ _ (safe (totalBurned + pay) >>= _)
    by_cases hlt : totalBurned + pay < 2 ^ 63
    · have hsafe : safe (totalBurned + pay) = .ok (totalBurned + pay) :=
        safe_eq_ok.mpr ⟨rfl, by omega, hlt⟩
      have hassert : fcAssert (pay < 0 → -pay ≤ s.nullBalance) "Insufficient Balance" = .ok () :=
        if_pos fun hneg => absurd hneg (not_lt.mpr hnonneg)
      have hsafe' : safe (s.nullBalance + pay) = .ok (s.nullBalance + pay) :=
        safe_eq_ok.mpr ⟨rfl, by omega, by omega⟩
      rw [hsafe]
      show Outcome _ _ (fcAssert _ _ >>= _)
      rw [hassert]
      show Outcome _ _ (safe (s.nullBalance + pay) >>= _)
      rw [hsafe']
      exact ⟨rfl, (sub_zero _).symm, rfl, (add_zero _).symm, rfl, id, hunchanged, fun _ _ => rfl⟩
    · have hsafe : safe (totalBurned + pay) = .error (.fc "overflow") :=
        if_neg fun hand => hlt hand.2
      rw [hsafe]
      exact ⟨rfl, not_lt.mp hlt⟩

structure PaidAll (ps : List (Nat × WorkerObject × Int)) (s s' : State) : Prop where
  currentSupply : s'.currentSupply = s.currentSupply - paidOut WorkerType.refunded ps
  nullBalance : s'.nullBalance = s.nullBalance + paidOut WorkerType.burned ps
  vested : s'.vested = s.vested + paidOut WorkerType.vested ps
  frame : s' = { s with
    currentSupply := s'.currentSupply
    nullBalance := s'.nullBalance
    vestingBalances := s'.vestingBalances
    workers := s'.workers }
  nonneg : s.VestsNonneg → s'.VestsNonneg
  balances : ∀ id vbo p, s.vestingBalances.find id = some vbo → Usable s.headBlockTime vbo →
    vbo.policy = .cdd p → vbo.balance.amount + paidOut (fun _ pay => pay) ps < 2 ^ 63 →
      ∃ vbo' p', s'.vestingBalances.find id = some vbo' ∧ Usable s.headBlockTime vbo' ∧
        vbo'.policy = .cdd p' ∧
          vbo'.balance.amount = vbo.balance.amount + paidOut (WorkerType.vestedAt id) ps
  untouched : ∀ id, (∀ p ∈ ps, p.2.1.worker ≠ .vestingBalance id) →
    s'.vestingBalances.find id = s.vestingBalances.find id
  credited : ∀ p ∈ ps, s'.workers.find p.1 =
    some { p.2.1 with worker := p.2.1.worker.credited p.2.2 }
  others : ∀ id ∉ ps.map Prod.fst, s'.workers.find id = s.workers.find id

theorem PaidAll.nil (s : State) : PaidAll [] s s where
  currentSupply := (sub_zero _).symm
  nullBalance := (add_zero _).symm
  vested := (add_zero _).symm
  frame := rfl
  nonneg := id
  balances _ vbo p hfound husable hp _ := ⟨vbo, p, hfound, husable, hp, (add_zero _).symm⟩
  untouched _ _ := rfl
  credited _ hp := nomatch hp
  others _ _ := rfl

def State.credit (s : State) (n : Nat) (worker : WorkerType) : State :=
  { s with workers := s.workers.modify n fun w => { w with worker } }

theorem State.find_credit (s : State) (n : Nat) (worker : WorkerType) (id : Nat) :
    (s.credit n worker).workers.find id =
      if id = n then (s.workers.find n).map fun w => { w with worker } else s.workers.find id :=
  Index.find_modify ..

theorem Paid.workers {w : WorkerType} {pay : Int} (h : Paid w pay s s') :
    s'.workers = s.workers := by
  rw [h.frame]

section

variable {n : Nat} {w : WorkerObject} {budget pay : Int}

theorem Covered.after (h : Covered s budget) (hw : s.workers.find n = some w) (hnonneg : 0 ≤ pay)
    (hle : pay ≤ budget) (hpaid : Paid w.worker pay s s') :
    Covered (s'.credit n (w.worker.credited pay)) (budget - pay) := by
  obtain ⟨hsupply, hsupply'⟩ := h.supply
  obtain ⟨hnull, hnull'⟩ := h.null
  have hpart : 0 ≤ w.worker.refunded pay ∧ w.worker.refunded pay ≤ pay ∧
      0 ≤ w.worker.burned pay ∧ w.worker.burned pay ≤ pay := by
    cases w.worker with
    | refund t => exact ⟨hnonneg, le_refl _, le_refl _, hnonneg⟩
    | vestingBalance b => exact ⟨le_refl _, hnonneg, le_refl _, hnonneg⟩
    | burn t => exact ⟨le_refl _, hnonneg, hnonneg, le_refl _⟩
  have htime : s'.headBlockTime = s.headBlockTime := by rw [hpaid.frame]
  -- a worker of the new state is an old one, or the one who was paid
  have hworkers : ∀ m v, (s'.credit n (w.worker.credited pay)).workers.find m = some v →
      ∃ v', s.workers.find m = some v' ∧ (v.worker = v'.worker ∨
        v'.worker = w.worker ∧ v.worker = w.worker.credited pay) := by
    intro m v hv
    rw [State.find_credit, hpaid.workers] at hv
    split at hv
    · rename_i heq
      rw [hw] at hv
      cases hv
      exact ⟨w, heq ▸ hw, .inr ⟨rfl, rfl⟩⟩
    · exact ⟨v, hv, .inl rfl⟩
  constructor
  case supply =>
    show -(2 ^ 63) ≤ s'.currentSupply - (budget - pay) ∧ s'.currentSupply < 2 ^ 63
    rw [hpaid.currentSupply]
    omega
  case null =>
    show 0 ≤ s'.nullBalance ∧ s'.nullBalance + (budget - pay) < 2 ^ 63
    rw [hpaid.nullBalance]
    omega
  case vesting =>
    intro m v id hv hkind
    obtain ⟨v', hv', hsame⟩ := hworkers m v hv
    have hkind' : v'.worker = .vestingBalance id := by
      rcases hsame with hsame | ⟨hold, hnew⟩
      · rw [← hsame, hkind]
      · rw [hold]
        exact WorkerType.credited_eq_vestingBalance.mp (hnew.symm.trans hkind)
    obtain ⟨vbo, p, hfound, husable, hp, hlt⟩ := h.vesting m v' id hv' hkind'
    have hamount := husable.nonneg
    obtain ⟨vbo', p', hfound', husable', hp', hamount'⟩ :=
      hpaid.balances id vbo p hfound husable hp (by omega)
    have hle' := w.worker.vestedAt_le id hnonneg
    refine ⟨vbo', p', hfound', ?_, hp', by omega⟩
    show Usable s'.headBlockTime vbo'
    rw [htime]
    exact husable'
  case counters =>
    intro m v t hv hkind
    obtain ⟨v', hv', hsame⟩ := hworkers m v hv
    rcases hsame with hsame | ⟨hold, hnew⟩
    · exact h.counters m v' t hv' (hsame ▸ hkind)
    · rw [hnew] at hkind
      obtain ⟨t', hkind', rfl⟩ := WorkerType.credited_eq_counter hkind
      have hcounter := h.counters m v' t' hv' (hold ▸ hkind')
      omega

theorem PaidAll.cons {ps : List (Nat × WorkerObject × Int)} (hw : s.workers.find n = some w)
    (hnonneg : 0 ≤ pay) (hpaid : Paid w.worker pay s s')
    {s'' : State} (h : PaidAll ps (s'.credit n (w.worker.credited pay)) s'')
    (hnotMem : n ∉ ps.map Prod.fst) (hrest : 0 ≤ paidOut (fun _ pay => pay) ps) :
    PaidAll ((n, w, pay) :: ps) s s'' := by
  have hfind := s'.find_credit n (w.worker.credited pay)
  rw [hpaid.workers, hw] at hfind
  constructor
  case currentSupply =>
    rw [h.currentSupply, paidOut_cons]
    show s'.currentSupply - _ = _
    rw [hpaid.currentSupply, sub_sub]
  case nullBalance =>
    rw [h.nullBalance, paidOut_cons]
    show s'.nullBalance + _ = _
    rw [hpaid.nullBalance, add_assoc]
  case vested =>
    rw [h.vested, paidOut_cons]
    show s'.vested + _ = _
    rw [hpaid.vested, add_assoc]
  case frame =>
    rw [h.frame]
    show ({ s' with
      currentSupply := s''.currentSupply
      nullBalance := s''.nullBalance
      vestingBalances := s''.vestingBalances
      workers := s''.workers } : State) = _
    rw [hpaid.frame]
  case nonneg => exact fun hall => h.nonneg (hpaid.nonneg hall)
  case balances =>
    intro id vbo p hfound husable hp hlt
    rw [paidOut_cons] at hlt
    dsimp only at hlt
    obtain ⟨vbo', p', hfound', husable', hp', hamount'⟩ :=
      hpaid.balances id vbo p hfound husable hp (by omega)
    have hle := w.worker.vestedAt_le id hnonneg
    have htime : s'.headBlockTime = s.headBlockTime := by rw [hpaid.frame]
    obtain ⟨vbo'', p'', hfound'', husable'', hp'', hamount''⟩ :=
      h.balances id vbo' p' hfound' (htime.symm ▸ husable') hp' (by omega)
    change Usable s'.headBlockTime vbo'' at husable''
    rw [htime] at husable''
    refine ⟨vbo'', p'', hfound'', husable'', hp'', ?_⟩
    rw [hamount'', hamount', paidOut_cons, add_assoc]
  case untouched =>
    intro id hid
    obtain ⟨hfirst, hrest⟩ := List.forall_mem_cons.mp hid
    exact (h.untouched id hrest).trans (hpaid.untouched id hfirst)
  case credited =>
    intro p hp
    rcases List.mem_cons.mp hp with rfl | hp
    · rw [h.others n hnotMem, hfind, if_pos rfl]
      rfl
    · exact h.credited p hp
  case others =>
    intro id hid
    rw [List.map_cons, List.mem_cons, not_or] at hid
    rw [h.others id hid.2, hfind, if_neg hid.1]

end

theorem outcome_payActiveWorkers (share : WorkerObject → Int) {ws : List (Nat × WorkerObject)}
    {budget : Int} (h : Covered s budget) (hbudget : 0 ≤ budget)
    (hnodup : (ws.map Prod.fst).Nodup) (hfind : ∀ e ∈ ws, s.workers.find e.1 = some e.2)
    (hshare : ∀ e ∈ ws, 0 ≤ share e.2) :
    Outcome
      (fun r => r.1 = budget - paidOut (fun _ pay => pay) (allot share ws budget) ∧
        PaidAll (allot share ws budget) s r.2)
      (fun e => e = .fc "overflow" ∧ ∃ p ∈ allot share ws budget, p.2.1.worker.Overflows p.2.2)
      (payActiveWorkers share ws budget s) := by
  induction ws generalizing s budget with
  | nil => exact ⟨(sub_zero _).symm, .nil s⟩
  | cons e rest ih =>
    obtain ⟨n, w⟩ := e
    obtain ⟨hw, hfind⟩ := List.forall_mem_cons.mp hfind
    obtain ⟨hshare_w, hshare⟩ := List.forall_mem_cons.mp hshare
    obtain ⟨hnotMem, hnodup⟩ := List.nodup_cons.mp hnodup
    unfold allot payActiveWorkers
    by_cases hused : budget ≤ 0
    · rw [if_pos hused, if_pos hused]
      exact ⟨(sub_zero _).symm, .nil s⟩
    rw [if_neg hused, if_neg hused]
    dsimp only
    have hnonneg : 0 ≤ min budget (share w) := le_min hbudget hshare_w
    have hle : min budget (share w) ≤ budget := min_le_left _ _
    generalize min budget (share w) = pay at hnonneg hle ⊢
    have hsafe : safe (budget - pay) = .ok (budget - pay) := by
      obtain ⟨hnull, hnull'⟩ := h.null
      exact safe_eq_ok.mpr ⟨rfl, by omega, by omega⟩
    have hone := h.outcome_payWorker hw hnonneg hle
    cases hpay : w.worker.payWorker pay s with
    | error err =>
      rw [hpay] at hone
      exact ⟨hone.1, (n, w, pay), List.mem_cons_self, hone.2⟩
    | ok r =>
      obtain ⟨worker, s'⟩ := r
      rw [hpay] at hone
      obtain ⟨hworker, hpaid⟩ := hone
      dsimp only at hworker hpaid
      subst hworker
      show Outcome _ _ (safe (budget - pay) >>= _)
      rw [hsafe]
      have hrest := ih (h.after hw hnonneg hle hpaid) (Int.sub_nonneg_of_le hle) hnodup ?_ hshare
      · refine Outcome.imp hrest ?_ ?_
        · rintro ⟨left, s''⟩ ⟨hleft, hall⟩
          dsimp only at hleft hall
          refine ⟨?_, hall.cons hw hnonneg hpaid ?_ ?_⟩
          · rw [hleft, paidOut_cons, sub_sub]
          · intro hmem
            obtain ⟨p, hp, rfl⟩ := List.mem_map.mp hmem
            exact hnotMem (List.mem_map.mpr ⟨_, mem_of_mem_allot hp, rfl⟩)
          · exact paidOut_allot_nonneg hshare
        · rintro err ⟨rfl, p, hp, hoverflows⟩
          exact ⟨rfl, p, List.mem_cons_of_mem _ hp, hoverflows⟩
      · intro e he
        rw [State.find_credit, if_neg, hpaid.workers]
        · exact hfind e he
        · rintro rfl
          exact hnotMem (List.mem_map.mpr ⟨e, he, rfl⟩)

end Meta1Core.Budget
