import Meta1Core.Vesting.Evaluators

/-!
# What happens to vesting balances

A step creates a vesting balance, deposits into one that does not vest linearly, withdraws from one,
or leaves them all alone.
-/

namespace Meta1Core.Vesting

open Lib (Index Rows Returns bind_eq_ok of_bind)
open Protocol Ledger Extended

variable {s s' : State}

variable {id reqVestingSeconds : Nat} {u : Unit} {vbo vbo' : VestingBalanceObject}
  {ctx : TransactionEvaluationState} {amount : Asset} {requireVesting : Bool}

theorem of_fetch {V β : Type} {read : Objects → Index V} {f : V → Evaluation β} {b : β}
    (h : Returns (fetch read id >>= f) s b s') :
    ∃ v, (read s.objects).find id = some v ∧ Returns (f v) s b s' := by
  unfold fetch at h
  rw [bind_assoc, Returns.get_bind_iff] at h
  cases hv : (read s.objects).find id with
  | none => simp [hv, Returns.bind_iff, Returns.throw_iff] at h
  | some v => exact ⟨v, rfl, by simpa [hv] using h⟩

theorem returns_write {f : Objects → Objects} :
    Returns (write f) s u s' ↔ s' = { s with objects := f s.objects } :=
  Returns.modify_iff

theorem returns_createVestingBalance :
    Returns (createVestingBalance vbo) s id s' ↔
      id = s.objects.vestingBalances.next ∧ s' = { s with
        objects := s.objects.setVestingBalances (s.objects.vestingBalances.create vbo) } := by
  unfold createVestingBalance
  rw [Returns.get_bind_iff, Returns.bind_iff]
  constructor
  · rintro ⟨_, t, hwrite, hpure⟩
    obtain ⟨rfl, rfl⟩ := hpure.of_pure
    exact ⟨rfl, returns_write.mp hwrite⟩
  · rintro ⟨rfl, rfl⟩
    exact ⟨(), _, returns_write.mpr rfl, rfl⟩

theorem returns_storeVestingBalance :
    Returns (storeVestingBalance id vbo) s u s' ↔
      s' = { s with
        objects := s.objects.setVestingBalances
          (s.objects.vestingBalances.modify id fun _ => vbo) } :=
  returns_write

theorem CreateOperation.of_evaluate {requiredFee : Int} {op : CreateOperation}
    (h : Returns (op.evaluate ctx requiredFee) s id s') :
    0 < op.amount.amount ∧ s'.ledger.headBlockTime = s.ledger.headBlockTime ∧
      s'.objects = s.objects.setVestingBalances (s.objects.vestingBalances.create ⟨op.owner,
        op.amount, op.policy.init op.amount.amount s.ledger.headBlockTime, .unspecified⟩) := by
  obtain ⟨_, hvalid, h⟩ := h.of_lift
  obtain ⟨-, hvalid⟩ := of_fcAssert hvalid
  have hpositive := fcAssert_eq_ok.mp hvalid
  obtain ⟨x, s1, s2, s3, -, hevaluate, hpaid, happly, hs', hfee⟩ := of_startEvaluate h
  -- `do_evaluate` only reads
  obtain ⟨_, -, hevaluate⟩ := Extended.of_fetch hevaluate
  obtain ⟨_, -, hevaluate⟩ := Extended.of_fetch hevaluate
  obtain ⟨-, hevaluate⟩ := of_require hevaluate
  have hevaluate := hevaluate.of_get
  obtain ⟨-, hevaluate⟩ := of_require hevaluate
  obtain ⟨_, -, hevaluate⟩ := Extended.of_fetch hevaluate
  obtain ⟨ledger, hrequire, hs1⟩ := returns_onLedger.mp hevaluate
  obtain ⟨-, rfl⟩ := Ledger.returns_require.mp hrequire
  have hs1 : s1 = s := hs1
  have happly := of_headBlockTime happly
  have happly := happly.of_get
  obtain ⟨-, happly⟩ := of_require happly
  obtain ⟨_, l4, hdebit, happly⟩ := of_onLedger happly
  obtain ⟨-, hs3⟩ := returns_createVestingBalance.mp happly
  have htime : s2.ledger.headBlockTime = s.ledger.headBlockTime := by
    rw [hpaid.fees.headBlockTime, hs1]
  refine ⟨hpositive, ?_, ?_⟩
  · rw [adjustBalance_frame hfee, hs3]
    show l4.headBlockTime = _
    rw [adjustBalance_frame hdebit]
    exact htime
  · rw [hs', hs3]
    show s2.objects.setVestingBalances _ = _
    rw [htime, hpaid.objects, hs1]

theorem WithdrawOperation.of_evaluate {requiredFee : Int} {op : WithdrawOperation}
    (h : Returns (op.evaluate ctx requiredFee) s u s') :
    ∃ vbo vbo', s.objects.vestingBalances.find op.vestingBalance = some vbo ∧
      0 < op.amount.amount ∧
      vbo.isWithdrawAllowed s.ledger.headBlockTime op.amount = .ok true ∧
      vbo.withdraw s.ledger.headBlockTime op.amount = .ok vbo' ∧
      s'.ledger.headBlockTime = s.ledger.headBlockTime ∧
      s'.objects = s.objects.setVestingBalances
        (s.objects.vestingBalances.modify op.vestingBalance fun _ => vbo') := by
  obtain ⟨_, hvalid, h⟩ := h.of_lift
  obtain ⟨-, hvalid⟩ := of_fcAssert hvalid
  obtain ⟨hpositive, -⟩ := of_fcAssert hvalid
  obtain ⟨x, s1, s2, s3, -, hevaluate, hpaid, happly, hs', hfee⟩ := of_startEvaluate h
  have hevaluate := of_headBlockTime hevaluate
  obtain ⟨vbo, hfound, hevaluate⟩ := of_fetch hevaluate
  obtain ⟨-, hevaluate⟩ := of_require hevaluate
  obtain ⟨allowed, hallowed, hevaluate⟩ := hevaluate.of_lift
  obtain ⟨rfl, hevaluate⟩ := of_require hevaluate
  obtain ⟨_, -, hevaluate⟩ := hevaluate.of_lift
  obtain ⟨_, -, hevaluate⟩ := hevaluate.of_lift
  obtain ⟨_, -, hevaluate⟩ := Extended.of_fetch hevaluate
  obtain ⟨-, hs1⟩ := hevaluate.of_pure
  -- the fee is paid before the balance is read again
  have happly := of_headBlockTime happly
  rw [hpaid.fees.headBlockTime, hs1] at happly
  obtain ⟨vbo2, hfound2, happly⟩ := of_fetch happly
  rw [hpaid.objects, hs1, hfound] at hfound2
  cases hfound2
  obtain ⟨vbo', hwithdraw, happly⟩ := happly.of_lift
  obtain ⟨_, s4, hstore, happly⟩ := happly.of_bind
  have hs4 := returns_storeVestingBalance.mp hstore
  obtain ⟨l5, hcredit, hs3⟩ := returns_onLedger.mp happly
  refine ⟨vbo, vbo', hfound, hpositive, hallowed, hwithdraw, ?_, ?_⟩
  · rw [adjustBalance_frame hfee, hs3]
    show l5.headBlockTime = _
    rw [adjustBalance_frame hcredit, hs4]
    show s2.ledger.headBlockTime = _
    rw [hpaid.fees.headBlockTime, hs1]
  · rw [hs', hs3]
    show s4.objects = _
    rw [hs4]
    show s2.objects.setVestingBalances _ = _
    rw [hpaid.objects, hs1]

def BalanceClaimOperation.balancesAfter (op : BalanceClaimOperation) (now : Nat)
    (balance : BalanceObject) (rest : Bool) (amount : Asset) (t : Index BalanceObject) :
    Index BalanceObject :=
  if rest then t.modify op.balanceToClaim fun _ =>
    { balance with balance := amount, lastClaimDate := now }
  else t.remove op.balanceToClaim

theorem BalanceClaimOperation.of_evaluate {keyOwns : KeyOwns} {op : BalanceClaimOperation}
    (h : Returns (op.evaluate keyOwns ctx) s u s') :
    ∃ balance rest amount, s.objects.balances.find op.balanceToClaim = some balance ∧
      op.checkAmount s.ledger.headBlockTime balance = .ok () ∧
      op.leavesRest balance = .ok rest ∧
      (rest = true → balance.balance.sub op.totalClaimed = .ok amount) ∧
      s'.ledger.headBlockTime = s.ledger.headBlockTime ∧
      s'.objects = s.objects.setBalances
        (op.balancesAfter s.ledger.headBlockTime balance rest amount s.objects.balances) := by
  obtain ⟨_, -, h⟩ := h.of_lift
  obtain ⟨x, s1, s2, s3, -, hevaluate, hpaid, happly, hs', hfee⟩ := of_startEvaluate h
  obtain ⟨balance, hfound, hevaluate⟩ := of_fetch hevaluate
  obtain ⟨-, hevaluate⟩ := of_require hevaluate
  have hevaluate := of_headBlockTime hevaluate
  obtain ⟨_, hcheck, hevaluate⟩ := hevaluate.of_lift
  obtain ⟨rfl, hs1⟩ := hevaluate.of_pure
  have happly := of_headBlockTime happly
  rw [hpaid.fees.headBlockTime, hs1] at happly
  obtain ⟨rest, hrest, happly⟩ := happly.of_lift
  -- both branches end with the credit
  have hboth : ∃ amount l5,
      (rest = true → x.balance.sub op.totalClaimed = .ok amount) ∧
      Returns (adjustBalance op.depositToAccount op.totalClaimed) s2.ledger () l5 ∧
      s3 = ⟨l5, s2.objects.setBalances
        (op.balancesAfter s.ledger.headBlockTime x rest amount s2.objects.balances)⟩ := by
    rcases happly.of_ite with ⟨hrest, happly⟩ | ⟨hrest, happly⟩
    · obtain ⟨amount, hamount, happly⟩ := happly.of_lift
      obtain ⟨_, s4, hwrite, happly⟩ := happly.of_bind
      have hs4 := returns_write.mp hwrite
      obtain ⟨l5, hcredit, hs3⟩ := returns_onLedger.mp happly
      rw [hs4] at hcredit hs3
      refine ⟨amount, l5, fun _ => hamount, hcredit, ?_⟩
      rw [hs3, BalanceClaimOperation.balancesAfter, if_pos hrest]
    · obtain ⟨_, s4, hwrite, happly⟩ := happly.of_bind
      have hs4 := returns_write.mp hwrite
      obtain ⟨l5, hcredit, hs3⟩ := returns_onLedger.mp happly
      rw [hs4] at hcredit hs3
      refine ⟨⟨0, core⟩, l5, fun htrue => absurd htrue hrest, hcredit, ?_⟩
      rw [hs3, BalanceClaimOperation.balancesAfter, if_neg hrest]
  obtain ⟨amount, l5, hamount, hcredit, hs3⟩ := hboth
  refine ⟨x, rest, amount, hfound, hcheck, hrest, hamount, ?_, ?_⟩
  · rw [adjustBalance_frame hfee, hs3]
    show l5.headBlockTime = _
    rw [adjustBalance_frame hcredit]
    show s2.ledger.headBlockTime = _
    rw [hpaid.fees.headBlockTime, hs1]
  · rw [hs', hs3]
    show s2.objects.setBalances _ = _
    rw [hpaid.objects, hs1]

theorem of_lazyTarget {t : Index VestingBalanceObject} {ovbid : Option Nat} {reqOwner : AccountId}
    (h : lazyTarget t ovbid reqVestingSeconds reqOwner = .ok (some (id, vbo))) :
    ovbid = some id ∧ t.find id = some vbo ∧
      ∃ p, vbo.policy = .cdd p ∧ p.vestingSeconds = reqVestingSeconds := by
  unfold lazyTarget at h
  split at h
  · cases h
  split at h
  · cases h
  rename_i hfound
  split at h
  · rename_i policy hpolicy
    split at h
    · rename_i hmatches
      cases h
      exact ⟨rfl, hfound, policy, hpolicy, hmatches.2⟩
    · cases h
  · cases h

theorem returns_depositLazyVesting {ovbid : Option Nat} {amount : Int}
    {balanceType : VestingBalanceType} {reqOwner : AccountId} {r : Option Nat} :
    Returns (depositLazyVesting ovbid amount reqVestingSeconds balanceType reqOwner requireVesting)
        s r s' ↔
      amount = 0 ∧ r = none ∧ s' = s ∨
      amount ≠ 0 ∧ ((∃ id vbo vbo',
          lazyTarget s.objects.vestingBalances ovbid reqVestingSeconds reqOwner =
            .ok (some (id, vbo)) ∧
          depositInto requireVesting vbo s.ledger.headBlockTime ⟨amount, core⟩ = .ok vbo' ∧
          r = none ∧ s' = { s with
            objects := s.objects.setVestingBalances
              (s.objects.vestingBalances.modify id fun _ => vbo') }) ∨
        lazyTarget s.objects.vestingBalances ovbid reqVestingSeconds reqOwner = .ok none ∧
          ∃ coinSecondsEarned,
            initialCoinSeconds requireVesting amount reqVestingSeconds = .ok coinSecondsEarned ∧
            r = some s.objects.vestingBalances.next ∧ s' = { s with
              objects := s.objects.setVestingBalances (s.objects.vestingBalances.create
                ⟨reqOwner, ⟨amount, core⟩,
                  .cdd ⟨reqVestingSeconds, coinSecondsEarned, 0, s.ledger.headBlockTime⟩,
                  balanceType⟩) }) := by
  unfold depositLazyVesting
  rw [Returns.ite_iff]
  refine or_congr (and_congr_right fun _ => Returns.pure_iff) (and_congr_right fun _ => ?_)
  rw [returns_headBlockTime_bind, Returns.get_bind_iff, Returns.lift_bind_iff]
  constructor
  · rintro ⟨target, htarget, h⟩
    cases target with
    | some found =>
      obtain ⟨vbo', hdeposit, h⟩ := h.of_lift
      obtain ⟨_, s1, hstore, h⟩ := h.of_bind
      obtain ⟨rfl, rfl⟩ := h.of_pure
      exact .inl ⟨found.1, found.2, vbo', htarget, hdeposit, rfl,
        returns_storeVestingBalance.mp hstore⟩
    | none =>
      obtain ⟨coinSecondsEarned, hinitial, h⟩ := h.of_lift
      obtain ⟨id, s1, hcreate, h⟩ := h.of_bind
      obtain ⟨rfl, rfl⟩ := h.of_pure
      obtain ⟨rfl, hs'⟩ := returns_createVestingBalance.mp hcreate
      exact .inr ⟨htarget, coinSecondsEarned, hinitial, rfl, hs'⟩
  · rintro (⟨id, vbo, vbo', htarget, hdeposit, rfl, hs'⟩ |
      ⟨htarget, coinSecondsEarned, hinitial, rfl, hs'⟩)
    · refine ⟨some (id, vbo), htarget, Returns.lift_bind_iff.mpr ⟨vbo', hdeposit, ?_⟩⟩
      exact Returns.bind_iff.mpr ⟨(), s', returns_storeVestingBalance.mpr hs',
        rfl⟩
    · refine ⟨none, htarget, Returns.lift_bind_iff.mpr ⟨coinSecondsEarned, hinitial, ?_⟩⟩
      exact Returns.bind_iff.mpr ⟨_, s', returns_createVestingBalance.mpr ⟨rfl, hs'⟩,
        rfl⟩

theorem of_depositInto {now : Nat} (h : depositInto requireVesting vbo now amount = .ok vbo') :
    ∃ policy, (if requireVesting then vbo.policy.onDeposit ⟨vbo.balance, now, amount⟩
          else vbo.policy.onDepositVested ⟨vbo.balance, now, amount⟩) = .ok policy ∧
      amount.assetId = vbo.balance.assetId ∧
      vbo' = { vbo with
        policy := policy
        balance := ⟨vbo.balance.amount + amount.amount, vbo.balance.assetId⟩ } := by
  have hadd : ∀ balance, vbo.balance.add amount = .ok balance →
      amount.assetId = vbo.balance.assetId ∧
        balance = ⟨vbo.balance.amount + amount.amount, vbo.balance.assetId⟩ := by
    intro balance hbalance
    obtain ⟨hasset, hbalance⟩ := of_fcAssert hbalance
    obtain ⟨sum, hsum, hbalance⟩ := of_bind hbalance
    obtain ⟨rfl, -⟩ := of_safe hsum
    cases hbalance
    exact ⟨hasset.symm, rfl⟩
  unfold depositInto at h
  split at h
  all_goals
    obtain ⟨policy, hpolicy, h⟩ := of_bind h
    obtain ⟨balance, hbalance, h⟩ := of_bind h
    cases h
    obtain ⟨hasset, rfl⟩ := hadd balance hbalance
    exact ⟨policy, by simp [*], hasset, rfl⟩

/-! ## Steps that are no withdrawals -/

inductive Fresh (x : Objects) (now : Nat) : Event → VestingBalanceObject → Prop
  | create (ctx : TransactionEvaluationState) (requiredFee : Int) (op : CreateOperation)
      (hpositive : 0 < op.amount.amount) :
      Fresh x now (.create ctx requiredFee op)
        ⟨op.owner, op.amount, op.policy.init op.amount.amount now, .unspecified⟩
  | cashback (acct : AccountId) (amount : Int) (requireVesting : Bool) (coinSecondsEarned : Nat)
      (hinitial : initialCoinSeconds requireVesting amount x.cashbackVestingPeriodSeconds =
        .ok coinSecondsEarned) :
      Fresh x now (.cashback acct amount requireVesting) ⟨acct, ⟨amount, core⟩,
        .cdd ⟨x.cashbackVestingPeriodSeconds, coinSecondsEarned, 0, now⟩, .cashback⟩
  | witnessPay (wit : Nat) (witnessAccount : AccountId) (amount : Int) :
      Fresh x now (.witnessPay wit witnessAccount amount) ⟨witnessAccount, ⟨amount, core⟩,
        .cdd ⟨x.witnessPayVestingSeconds, 0, 0, now⟩, .witness⟩
  | worker (workerAccount : AccountId) (days : Nat) :
      Fresh x now (.worker workerAccount days) ⟨workerAccount, ⟨0, core⟩,
        .cdd ⟨Allocation.u32 (days * day), 0, 0, now⟩, .worker⟩
  | marketFee (account : AccountId) (delta : Asset) :
      Fresh x now (.marketFee account delta) ⟨account, delta, .instant, .marketFeeSharing⟩

inductive Deposits (x : Objects) : Event → Nat → Bool → Asset → Prop
  | cashback (acct : AccountId) (amount : Int) (requireVesting : Bool) (id : Nat)
      (href : x.cashbackVb.lookup acct = some id) :
      Deposits x (.cashback acct amount requireVesting) id requireVesting ⟨amount, core⟩
  | witnessPay (wit : Nat) (witnessAccount : AccountId) (amount : Int) (id : Nat)
      (href : x.payVb.lookup wit = some id) :
      Deposits x (.witnessPay wit witnessAccount amount) id true ⟨amount, core⟩
  | workerPay (worker : Nat) (pay : Int) (id : Nat) (href : x.workers.find worker = some id) :
      Deposits x (.workerPay worker pay) id true ⟨pay, core⟩
  | marketFee (account : AccountId) (delta : Asset) (id : Nat) (vbo : VestingBalanceObject)
      (hfound : x.vestingBalances.find id = some vbo)
      (htype : vbo.balanceType = .marketFeeSharing) :
      Deposits x (.marketFee account delta) id false delta

inductive VestingStep (x : Objects) (now : Nat) (e : Event) : Index VestingBalanceObject → Prop
  | same : VestingStep x now e x.vestingBalances
  | created (vbo : VestingBalanceObject) (hfresh : Fresh x now e vbo) :
      VestingStep x now e (x.vestingBalances.create vbo)
  | deposited (id : Nat) (requireVesting : Bool) (amount : Asset) (vbo vbo' : VestingBalanceObject)
      (hdeposits : Deposits x e id requireVesting amount)
      (hfound : x.vestingBalances.find id = some vbo)
      (hdeposit : depositInto requireVesting vbo now amount = .ok vbo') :
      VestingStep x now e (x.vestingBalances.modify id fun _ => vbo')

def CoreCdd (t : Index VestingBalanceObject) (id : Nat) : Prop :=
  ∃ vbo p, t.find id = some vbo ∧ vbo.policy = .cdd p ∧ vbo.balance.assetId = core

structure References (x : Objects) : Prop where
  cashback : ∀ acct id, x.cashbackVb.lookup acct = some id → CoreCdd x.vestingBalances id
  pay : ∀ wit id, x.payVb.lookup wit = some id → CoreCdd x.vestingBalances id
  workers : ∀ worker id, x.workers.find worker = some id → CoreCdd x.vestingBalances id
  marketFee : ∀ id vbo, x.vestingBalances.find id = some vbo →
    vbo.balanceType = .marketFeeSharing → vbo.policy = .instant

theorem References.of_deposits {x : Objects} (h : References x) {e : Event}
    (hdeposits : Deposits x e id requireVesting amount)
    (hfound : x.vestingBalances.find id = some vbo) :
    (∃ p, vbo.policy = .cdd p) ∨ vbo.policy = .instant := by
  have hcdd : CoreCdd x.vestingBalances id → ∃ p, vbo.policy = .cdd p := by
    rintro ⟨vbo', p, hfound', hpolicy, -⟩
    rw [hfound] at hfound'
    cases hfound'
    exact ⟨p, hpolicy⟩
  cases hdeposits with
  | cashback acct amount _ _ href => exact .inl (hcdd (h.cashback _ _ href))
  | witnessPay wit account amount _ href => exact .inl (hcdd (h.pay _ _ href))
  | workerPay worker pay _ href => exact .inl (hcdd (h.workers _ _ href))
  | marketFee account delta _ vbo' hfound' htype =>
    rw [hfound] at hfound'
    cases hfound'
    exact .inr (h.marketFee _ _ hfound htype)

theorem kind_of_depositInto {now : Nat} (h : depositInto requireVesting vbo now amount = .ok vbo') :
    (∀ p, vbo.policy = .cdd p → ∃ p', vbo'.policy = .cdd p') ∧
      (vbo.policy = .instant → vbo'.policy = .instant) ∧
      vbo'.balance.assetId = vbo.balance.assetId ∧ vbo'.balanceType = vbo.balanceType := by
  obtain ⟨policy, hpolicy, -, rfl⟩ := of_depositInto h
  refine ⟨?_, ?_, rfl, rfl⟩
  · intro p hp
    rw [hp] at hpolicy
    split at hpolicy
    all_goals
      obtain ⟨p', -, hpolicy⟩ := of_bind hpolicy
      cases hpolicy
      exact ⟨p', rfl⟩
  · intro hp
    rw [hp] at hpolicy
    split at hpolicy
    all_goals
      cases hpolicy
      rfl

theorem CoreCdd.create {t : Index VestingBalanceObject} (h : CoreCdd t id)
    (vbo : VestingBalanceObject) : CoreCdd (t.create vbo) id := by
  obtain ⟨vbo', p, hfound, hp⟩ := h
  have hne : id ≠ t.next := by
    intro heq
    rw [heq, Index.find_next] at hfound
    cases hfound
  refine ⟨vbo', p, ?_, hp⟩
  rw [Index.find_create, if_neg hne, hfound]

theorem CoreCdd.modify {t : Index VestingBalanceObject} {id' : Nat} (h : CoreCdd t id)
    (hfound : t.find id' = some vbo)
    (hpolicy : ∀ p, vbo.policy = .cdd p → ∃ p', vbo'.policy = .cdd p')
    (hasset : vbo'.balance.assetId = vbo.balance.assetId) :
    CoreCdd (t.modify id' fun _ => vbo') id := by
  obtain ⟨vbo1, p, hfound1, hp, hcore⟩ := h
  by_cases hid : id = id'
  · subst hid
    rw [hfound] at hfound1
    cases hfound1
    obtain ⟨p', hp'⟩ := hpolicy p hp
    refine ⟨vbo', p', ?_, hp', hasset.trans hcore⟩
    rw [Index.find_modify, if_pos rfl, hfound]
    rfl
  · refine ⟨vbo1, p, ?_, hp, hcore⟩
    rw [Index.find_modify, if_neg hid, hfound1]

namespace VestingStep

variable {x : Objects} {now : Nat} {e : Event} {t : Index VestingBalanceObject}

theorem coreCdd (h : VestingStep x now e t) {id : Nat} (hid : CoreCdd x.vestingBalances id) :
    CoreCdd t id := by
  cases h with
  | same => exact hid
  | created vbo => exact hid.create vbo
  | deposited id' requireVesting amount vbo vbo' _ hfound hdeposit =>
    have hkind := kind_of_depositInto hdeposit
    exact hid.modify hfound hkind.1 hkind.2.2.1

theorem marketFee (h : VestingStep x now e t)
    (hold : ∀ id vbo, x.vestingBalances.find id = some vbo →
      vbo.balanceType = .marketFeeSharing → vbo.policy = .instant) :
    ∀ id vbo, t.find id = some vbo → vbo.balanceType = .marketFeeSharing →
      vbo.policy = .instant := by
  intro id vbo hfound htype
  cases h with
  | same => exact hold id vbo hfound htype
  | created new hfresh =>
    rw [Index.find_create] at hfound
    split at hfound
    · cases hfound
      cases hfresh <;> first | rfl | cases htype
    · exact hold id vbo hfound htype
  | deposited id' requireVesting amount old new _ hold' hdeposit =>
    rw [Index.find_modify, hold'] at hfound
    split at hfound
    · cases hfound
      obtain ⟨-, hinstant, -, hsame⟩ := kind_of_depositInto hdeposit
      exact hinstant (hold id' old hold' (hsame ▸ htype))
    · exact hold id vbo hfound htype

theorem references (h : VestingStep x now e t) (hrefs : References x) :
    References (x.setVestingBalances t) where
  cashback acct id href := h.coreCdd (hrefs.cashback acct id href)
  pay wit id href := h.coreCdd (hrefs.pay wit id href)
  workers worker id href := h.coreCdd (hrefs.workers worker id href)
  marketFee := h.marketFee hrefs.marketFee

end VestingStep

structure Other (s s' : State) (e : Event) : Prop where
  vesting : VestingStep s.objects s.ledger.headBlockTime e s'.objects.vestingBalances
  balances : s'.objects.balances = s.objects.balances
  later : s.ledger.headBlockTime ≤ s'.ledger.headBlockTime
  fits : s.ledger.headBlockTime < 2 ^ 32 → s'.ledger.headBlockTime < 2 ^ 32
  references : References s.objects → References s'.objects

namespace Other

variable {e : Event}

theorem of_vesting {t : Index VestingBalanceObject}
    (htime : s'.ledger.headBlockTime = s.ledger.headBlockTime)
    (hobjects : s'.objects = s.objects.setVestingBalances t)
    (hstep : VestingStep s.objects s.ledger.headBlockTime e t) : Other s s' e := by
  constructor
  case vesting => rw [hobjects]; exact hstep
  case balances => rw [hobjects]; rfl
  case later => rw [htime]
  case fits => rw [htime]; exact id
  case references => rw [hobjects]; exact hstep.references

theorem of_same (htime : s'.ledger.headBlockTime = s.ledger.headBlockTime)
    (hobjects : s'.objects = s.objects) : Other s s' e :=
  of_vesting htime hobjects .same

theorem of_created {vbo : VestingBalanceObject} {x : Objects}
    (htime : s'.ledger.headBlockTime = s.ledger.headBlockTime) (hobjects : s'.objects = x)
    (hvesting : x.vestingBalances = s.objects.vestingBalances.create vbo)
    (hbalances : x.balances = s.objects.balances)
    (hfresh : Fresh s.objects s.ledger.headBlockTime e vbo)
    (hreferences : References (s.objects.setVestingBalances
      (s.objects.vestingBalances.create vbo)) →
      CoreCdd (s.objects.vestingBalances.create vbo) s.objects.vestingBalances.next → References x)
    (hcdd : ∃ p, vbo.policy = .cdd p) (hcore : vbo.balance.assetId = core) : Other s s' e := by
  have hstep : VestingStep s.objects s.ledger.headBlockTime e x.vestingBalances := by
    rw [hvesting]
    exact .created vbo hfresh
  constructor
  case vesting => rw [hobjects]; exact hstep
  case balances => rw [hobjects, hbalances]
  case later => rw [htime]
  case fits => rw [htime]; exact id
  case references =>
    intro hrefs
    rw [hobjects]
    obtain ⟨p, hp⟩ := hcdd
    rw [hvesting] at hstep
    apply hreferences (hstep.references hrefs)
    exact ⟨vbo, p, by rw [Index.find_create, if_pos rfl], hp, hcore⟩

end Other

theorem initialCoinSeconds_of_require {amount : Int} {seconds coinSecondsEarned : Nat}
    (h : initialCoinSeconds true amount seconds = .ok coinSecondsEarned) :
    coinSecondsEarned = 0 := by
  cases h
  rfl

theorem depositCashback_other {acct : AccountId} {amount : Int}
    (h : Returns (depositCashback acct amount requireVesting) s u s') :
    Other s s' (.cashback acct amount requireVesting) := by
  rcases h.of_ite with ⟨-, h⟩ | ⟨-, h⟩
  · obtain ⟨-, rfl⟩ := h.of_pure
    exact .of_same rfl rfl
  rcases h.of_ite with ⟨-, h⟩ | ⟨-, h⟩
  · -- the accounts of the chain only reduce the supply
    obtain ⟨ledger, hupdate, rfl⟩ := returns_onLedger.mp h
    obtain ⟨_, _, -, -, rfl⟩ := Table.update_iff.mp hupdate
    exact .of_same rfl rfl
  have h := h.of_get
  obtain ⟨newVbid, s1, hlazy, hrest⟩ := h.of_bind
  rcases returns_depositLazyVesting.mp hlazy with ⟨-, rfl, rfl⟩ | ⟨-, hcases⟩
  · obtain ⟨-, rfl⟩ := hrest.of_pure
    exact .of_same rfl rfl
  rcases hcases with ⟨id, vbo, vbo', htarget, hdeposit, rfl, rfl⟩ |
    ⟨-, coinSecondsEarned, hinitial, rfl, rfl⟩
  · obtain ⟨-, rfl⟩ := hrest.of_pure
    obtain ⟨href, hfound, -⟩ := of_lazyTarget htarget
    exact .of_vesting rfl rfl
      (.deposited id requireVesting _ vbo vbo' (.cashback _ _ _ _ href) hfound hdeposit)
  · have hs' := returns_write.mp hrest
    rw [hs']
    refine .of_created rfl rfl rfl rfl (.cashback _ _ _ _ hinitial) ?_ ⟨_, rfl⟩ rfl
    intro hrefs hnew
    refine ⟨?_, hrefs.pay, hrefs.workers, hrefs.marketFee⟩
    intro acct' id hlookup
    replace hlookup : (s.objects.cashbackVb.insert acct _).lookup acct' = some id := hlookup
    rw [Rows.lookup_insert_eq] at hlookup
    split at hlookup
    · cases hlookup
      exact hnew
    · exact hrefs.cashback acct' id hlookup

theorem depositWitnessPay_other {wit : Nat} {witnessAccount : AccountId} {amount : Int}
    (h : Returns (depositWitnessPay wit witnessAccount amount) s u s') :
    Other s s' (.witnessPay wit witnessAccount amount) := by
  rcases h.of_ite with ⟨-, h⟩ | ⟨-, h⟩
  · obtain ⟨-, rfl⟩ := h.of_pure
    exact .of_same rfl rfl
  have h := h.of_get
  obtain ⟨newVbid, s1, hlazy, hrest⟩ := h.of_bind
  rcases returns_depositLazyVesting.mp hlazy with ⟨-, rfl, rfl⟩ | ⟨-, hcases⟩
  · obtain ⟨-, rfl⟩ := hrest.of_pure
    exact .of_same rfl rfl
  rcases hcases with ⟨id, vbo, vbo', htarget, hdeposit, rfl, rfl⟩ |
    ⟨-, coinSecondsEarned, hinitial, rfl, rfl⟩
  · obtain ⟨-, rfl⟩ := hrest.of_pure
    obtain ⟨href, hfound, -⟩ := of_lazyTarget htarget
    exact .of_vesting rfl rfl
      (.deposited id true _ vbo vbo' (.witnessPay _ _ _ _ href) hfound hdeposit)
  · obtain rfl := initialCoinSeconds_of_require hinitial
    have hs' := returns_write.mp hrest
    rw [hs']
    refine .of_created rfl rfl rfl rfl (.witnessPay _ _ _) ?_ ⟨_, rfl⟩ rfl
    intro hrefs hnew
    refine ⟨hrefs.cashback, ?_, hrefs.workers, hrefs.marketFee⟩
    intro wit' id hlookup
    replace hlookup : (s.objects.payVb.insert wit _).lookup wit' = some id := hlookup
    rw [Rows.lookup_insert_eq] at hlookup
    split at hlookup
    · cases hlookup
      exact hnew
    · exact hrefs.pay wit' id hlookup

theorem initWorker_other {workerAccount : AccountId} {days : Nat}
    (h : Returns (initWorker workerAccount days) s u s') :
    Other s s' (.worker workerAccount days) := by
  have h := of_headBlockTime h
  obtain ⟨id, s1, hcreate, h⟩ := h.of_bind
  obtain ⟨rfl, rfl⟩ := returns_createVestingBalance.mp hcreate
  have hs' := returns_write.mp h
  rw [hs']
  refine .of_created rfl rfl rfl rfl (.worker _ _) ?_ ⟨_, rfl⟩ rfl
  intro hrefs hnew
  refine ⟨hrefs.cashback, hrefs.pay, ?_, hrefs.marketFee⟩
  intro worker id hfound
  replace hfound : (s.objects.workers.create _).find worker = some id := hfound
  rw [Index.find_create] at hfound
  split at hfound
  · cases hfound
    exact hnew
  · exact hrefs.workers worker id hfound

theorem payWorker_other {worker : Nat} {pay : Int} (h : Returns (payWorker worker pay) s u s') :
    Other s s' (.workerPay worker pay) := by
  have h := of_headBlockTime h
  obtain ⟨id, href, h⟩ := of_fetch h
  obtain ⟨vbo, hfound, h⟩ := of_fetch h
  obtain ⟨vbo', hdeposit, h⟩ := h.of_lift
  rw [returns_storeVestingBalance.mp h]
  exact .of_vesting rfl rfl (.deposited id true _ vbo vbo' (.workerPay _ _ _ href) hfound hdeposit)

theorem depositMarketFee_other {account : AccountId} {delta : Asset}
    (h : Returns (depositMarketFee account delta) s u s') :
    Other s s' (.marketFee account delta) := by
  obtain ⟨-, h⟩ := of_require h
  rcases h.of_ite with ⟨-, h⟩ | ⟨-, h⟩
  · obtain ⟨-, rfl⟩ := h.of_pure
    exact .of_same rfl rfl
  have h := of_headBlockTime h
  have h := h.of_get
  dsimp only at h
  split at h
  · obtain ⟨id, s1, hcreate, h⟩ := h.of_bind
    obtain ⟨-, rfl⟩ := h.of_pure
    obtain ⟨-, rfl⟩ := returns_createVestingBalance.mp hcreate
    exact .of_vesting rfl rfl (.created _ (.marketFee _ _))
  · rename_i id hid
    obtain ⟨vbo, hfound, h⟩ := of_fetch h
    obtain ⟨vbo', hdeposit, h⟩ := h.of_lift
    rw [returns_storeVestingBalance.mp h]
    obtain ⟨vbo1, hfound1, hkind⟩ := Index.of_findId_eq_some hid
    rw [hfound1] at hfound
    cases hfound
    exact .of_vesting rfl rfl (.deposited id false _ vbo vbo'
      (.marketFee _ _ _ vbo hfound1 (of_decide_eq_true hkind).1) hfound1 hdeposit)

theorem evaluateOther_other {e : Event} (h : Returns (evaluateOther e) s u s') :
    Other s s' e := by
  cases e with
  | create ctx requiredFee op =>
    obtain ⟨id, s1, hevaluate, h⟩ := h.of_bind
    obtain ⟨-, rfl⟩ := h.of_pure
    obtain ⟨hpositive, htime, hobjects⟩ := op.of_evaluate hevaluate
    exact .of_vesting htime hobjects (.created _ (.create ctx requiredFee op hpositive))
  | withdraw ctx requiredFee op =>
    obtain ⟨-, rfl⟩ := h.of_pure
    exact .of_same rfl rfl
  | claim ctx op =>
    obtain ⟨-, rfl⟩ := h.of_pure
    exact .of_same rfl rfl
  | cashback acct amount requireVesting => exact depositCashback_other h
  | witnessPay wit witnessAccount amount => exact depositWitnessPay_other h
  | worker workerAccount days => exact initWorker_other h
  | workerPay worker pay => exact payWorker_other h
  | marketFee account delta => exact depositMarketFee_other h
  | block time =>
    have h := h.of_get
    obtain ⟨htime, h⟩ := of_require h
    rw [Returns.modify_iff.mp h]
    exact ⟨.same, rfl, Nat.le_of_lt htime.1, fun _ => htime.2, id⟩
  | elsewhere ledger cashbackSeconds witnessPaySeconds =>
    have h := h.of_get
    obtain ⟨htime, h⟩ := of_require h
    rw [Returns.modify_iff.mp h]
    exact ⟨.same, rfl, Nat.le_of_eq htime.symm, fun hlt => by rw [htime]; exact hlt,
      fun hrefs => ⟨hrefs.1, hrefs.2, hrefs.3, hrefs.4⟩⟩

theorem of_withdraw {now : Nat} (h : vbo.withdraw now amount = .ok vbo') :
    ∃ policy, vbo.policy.onWithdraw ⟨vbo.balance, now, amount⟩ = .ok policy ∧
      amount.amount ≤ vbo.balance.amount ∧
      vbo' = { vbo with
        policy := policy
        balance := ⟨vbo.balance.amount - amount.amount, vbo.balance.assetId⟩ } := by
  obtain ⟨covered, hcovered, hchecked⟩ := of_bind h
  obtain ⟨htrue, hupdated⟩ := cAssert_bind_eq_ok.mp hchecked
  obtain ⟨policy, hpolicy, hsubtracted⟩ := of_bind hupdated
  obtain ⟨balance, hbalance, hvbo'⟩ := of_bind hsubtracted
  cases hvbo'
  obtain ⟨-, hbalance⟩ := of_fcAssert hbalance
  obtain ⟨rest, hrest, hbalance⟩ := of_bind hbalance
  obtain ⟨rfl, -⟩ := of_safe hrest
  cases hbalance
  rw [htrue] at hcovered
  obtain ⟨lower, hlower, hcovered⟩ := of_bind hcovered
  obtain ⟨-, hlower⟩ := of_fcAssert hlower
  cases hlower
  refine ⟨policy, hpolicy, ?_, rfl⟩
  have hnot := Except.ok.inj hcovered
  simpa using hnot

theorem withdraw_eq_ok {now : Nat} {policy : VestingPolicy}
    (hasset : amount.assetId = vbo.balance.assetId)
    (hpolicy : vbo.policy.onWithdraw ⟨vbo.balance, now, amount⟩ = .ok policy)
    (hnonneg : 0 ≤ amount.amount) (hle : amount.amount ≤ vbo.balance.amount)
    (hfits : vbo.balance.amount < 2 ^ 63) :
    vbo.withdraw now amount = .ok { vbo with
      policy := policy
      balance := ⟨vbo.balance.amount - amount.amount, vbo.balance.assetId⟩ } := by
  have hsub : vbo.balance.sub amount =
      .ok ⟨vbo.balance.amount - amount.amount, vbo.balance.assetId⟩ := by
    apply fcAssert_bind_eq_ok.mpr
    exact ⟨hasset.symm, bind_eq_ok.mpr ⟨_, safe_eq_ok.mpr ⟨rfl, by omega, by omega⟩, rfl⟩⟩
  unfold VestingBalanceObject.withdraw
  rw [Asset.le_eq hasset]
  refine bind_eq_ok.mpr ⟨_, rfl, cAssert_bind_eq_ok.mpr ⟨decide_eq_true hle, ?_⟩⟩
  exact bind_eq_ok.mpr ⟨policy, hpolicy, bind_eq_ok.mpr ⟨_, hsub, rfl⟩⟩

theorem of_isWithdrawAllowed {now : Nat} (h : vbo.isWithdrawAllowed now amount = .ok true) :
    vbo.policy.isWithdrawAllowed ⟨vbo.balance, now, amount⟩ = .ok true := by
  obtain ⟨result, hresult, hrest⟩ := of_bind h
  obtain ⟨covered, -, hchecked⟩ := of_bind hrest
  obtain ⟨-, hreturned⟩ := cAssert_bind_eq_ok.mp hchecked
  rw [hresult, show result = true from Except.ok.inj hreturned]

theorem References.withdraw {x : Objects} (h : References x) {now : Nat}
    (hfound : x.vestingBalances.find id = some vbo) (hwithdraw : vbo.withdraw now amount = .ok vbo') :
    References (x.setVestingBalances (x.vestingBalances.modify id fun _ => vbo')) := by
  obtain ⟨policy, hpolicy, -, rfl⟩ := of_withdraw hwithdraw
  have hcdd : ∀ id', CoreCdd x.vestingBalances id' →
      CoreCdd (x.vestingBalances.modify id fun _ => { vbo with
        policy := policy
        balance := ⟨vbo.balance.amount - amount.amount, vbo.balance.assetId⟩ }) id' := by
    intro id' hid'
    apply hid'.modify hfound
    · intro p hp
      rw [hp] at hpolicy
      obtain ⟨p', -, hpolicy⟩ := of_bind hpolicy
      cases hpolicy
      exact ⟨p', rfl⟩
    · rfl
  constructor
  case cashback => exact fun acct id' href => hcdd id' (h.cashback acct id' href)
  case pay => exact fun wit id' href => hcdd id' (h.pay wit id' href)
  case workers => exact fun worker id' href => hcdd id' (h.workers worker id' href)
  case marketFee =>
    intro id' vbo1 hfound1 htype
    replace hfound1 : (Index.modify _ _ _).find id' = some vbo1 := hfound1
    rw [Index.find_modify, hfound] at hfound1
    split at hfound1
    · cases hfound1
      rw [h.marketFee id vbo hfound htype] at hpolicy
      cases hpolicy
      rfl
    · exact h.marketFee id' vbo1 hfound1 htype

structure NoneVesting (c : Chain) : Prop where
  vestingBalances : c.state.objects.vestingBalances = ∅
  cashbackVb : c.state.objects.cashbackVb = ∅
  payVb : c.state.objects.payVb = ∅
  workers : c.state.objects.workers = ∅
  time : c.state.ledger.headBlockTime < 2 ^ 32

theorem NoneVesting.references {c : Chain} (h : NoneVesting c) : References c.state.objects := by
  constructor
  case cashback => intro acct id hid; rw [h.cashbackVb] at hid; cases hid
  case pay => intro wit id hid; rw [h.payVb] at hid; cases hid
  case workers => intro worker id hid; rw [h.workers] at hid; cases hid
  case marketFee => intro id vbo hfound; rw [h.vestingBalances] at hfound; cases hfound

structure Withdrew (c c' : Chain) (op : WithdrawOperation) (vbo vbo' : VestingBalanceObject) :
    Prop where
  found : c.state.objects.vestingBalances.find op.vestingBalance = some vbo
  positive : 0 < op.amount.amount
  allowed : vbo.isWithdrawAllowed c.state.ledger.headBlockTime op.amount = .ok true
  withdraw : vbo.withdraw c.state.ledger.headBlockTime op.amount = .ok vbo'
  time : c'.state.ledger.headBlockTime = c.state.ledger.headBlockTime
  objects : c'.state.objects = c.state.objects.setVestingBalances
    (c.state.objects.vestingBalances.modify op.vestingBalance fun _ => vbo')
  history : c'.history = c.history ++ [⟨.vestingBalance op.vestingBalance,
    c.state.ledger.headBlockTime, op.amount.amount⟩]

structure Claimed (c c' : Chain) (op : BalanceClaimOperation) (balance : BalanceObject)
    (rest : Bool) (amount : Asset) : Prop where
  found : c.state.objects.balances.find op.balanceToClaim = some balance
  checked : op.checkAmount c.state.ledger.headBlockTime balance = .ok ()
  leaves : op.leavesRest balance = .ok rest
  subtracted : rest = true → balance.balance.sub op.totalClaimed = .ok amount
  time : c'.state.ledger.headBlockTime = c.state.ledger.headBlockTime
  objects : c'.state.objects = c.state.objects.setBalances
    (op.balancesAfter c.state.ledger.headBlockTime balance rest amount c.state.objects.balances)
  history : c'.history = c.history ++ [⟨.genesisBalance op.balanceToClaim,
    c.state.ledger.headBlockTime, op.totalClaimed.amount⟩]

inductive Stepped (c c' : Chain) : Event → Prop
  | withdraw (ctx : TransactionEvaluationState) (requiredFee : Int) (op : WithdrawOperation)
      (vbo vbo' : VestingBalanceObject) (h : Withdrew c c' op vbo vbo') :
      Stepped c c' (.withdraw ctx requiredFee op)
  | claim (ctx : TransactionEvaluationState) (op : BalanceClaimOperation) (balance : BalanceObject)
      (rest : Bool) (amount : Asset) (h : Claimed c c' op balance rest amount) :
      Stepped c c' (.claim ctx op)
  | other (e : Event) (hhistory : c'.history = c.history) (h : Other c.state c'.state e) :
      Stepped c c' e

theorem step_stepped {keyOwns : KeyOwns} {c c' : Chain} {e : Event}
    (hstep : step keyOwns c e = .ok c') : Stepped c c' e := by
  have hother : (do
      let s ← Lib.commit (evaluateOther e) c.state
      return { c with state := s }) = .ok c' → Stepped c c' e := by
    intro h
    obtain ⟨state, hcommit, hc'⟩ := of_bind h
    cases hc'
    obtain ⟨_, hreturns⟩ := Lib.commit_eq_ok.mp hcommit
    exact .other e rfl (evaluateOther_other hreturns)
  cases e with
  | withdraw ctx requiredFee op =>
    obtain ⟨state, hcommit, hc'⟩ := of_bind hstep
    cases hc'
    obtain ⟨_, hreturns⟩ := Lib.commit_eq_ok.mp hcommit
    obtain ⟨vbo, vbo', hfound, hpositive, hallowed, hwithdraw, htime, hobjects⟩ :=
      op.of_evaluate hreturns
    exact .withdraw ctx requiredFee op vbo vbo'
      ⟨hfound, hpositive, hallowed, hwithdraw, htime, hobjects, rfl⟩
  | claim ctx op =>
    obtain ⟨state, hcommit, hc'⟩ := of_bind hstep
    cases hc'
    obtain ⟨_, hreturns⟩ := Lib.commit_eq_ok.mp hcommit
    obtain ⟨balance, rest, amount, hfound, hchecked, hleaves, hamount, htime, hobjects⟩ :=
      op.of_evaluate hreturns
    exact .claim ctx op balance rest amount
      ⟨hfound, hchecked, hleaves, hamount, htime, hobjects, rfl⟩
  | create ctx requiredFee op => exact hother hstep
  | cashback acct amount requireVesting => exact hother hstep
  | witnessPay wit witnessAccount amount => exact hother hstep
  | worker workerAccount days => exact hother hstep
  | workerPay worker pay => exact hother hstep
  | marketFee account delta => exact hother hstep
  | block time => exact hother hstep
  | elsewhere ledger cashbackSeconds witnessPaySeconds => exact hother hstep

end Meta1Core.Vesting
