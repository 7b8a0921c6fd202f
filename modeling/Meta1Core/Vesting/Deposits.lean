import Meta1Core.Vesting.CoinDays

/-!
# When a deposit succeeds (`vesting_balance_object::deposit`, `deposit_vested`)

A deposit into a balance of coin days fails for two reasons only: the sum leaves the range of a
`share_type`, or the product of 64 bits of a vested deposit does.
-/

namespace Meta1Core.Vesting

open Lib (Index bind_eq_ok of_bind)
open Protocol

/-- The values of `share_type` -/
def IsShare (v : Int) : Prop := -(2 ^ 63) ≤ v ∧ v < 2 ^ 63

instance (v : Int) : Decidable (IsShare v) := inferInstanceAs (Decidable (_ ∧ _))

structure Usable (now : Nat) (vbo : VestingBalanceObject) : Prop where
  assetId : vbo.balance.assetId = core
  nonneg : 0 ≤ vbo.balance.amount
  small : vbo.balance.amount < 2 ^ 63
  past : ∀ p, vbo.policy = .cdd p → p.coinSecondsEarnedLastUpdate ≤ now

variable {vbo : VestingBalanceObject} {amount : Int} {p : CddVestingPolicy}

theorem Usable.later {now now' : Nat} (h : Usable now vbo) (hle : now ≤ now') : Usable now' vbo :=
  ⟨h.assetId, h.nonneg, h.small, fun p hp => Nat.le_trans (h.past p hp) hle⟩

theorem product64_isOk_iff (hnonneg : 0 ≤ amount) (seconds : Nat) :
    (∃ product, CddVestingPolicy.product64 amount seconds = .ok product) ↔
      amount * seconds < 2 ^ 63 := by
  have hproduct : 0 ≤ amount * seconds := Int.mul_nonneg hnonneg (by omega)
  unfold CddVestingPolicy.product64
  split
  · rename_i hfits
    exact iff_of_true ⟨_, rfl⟩ hfits.2
  · rename_i hfits
    refine iff_of_false (fun ⟨_, hok⟩ => nomatch hok) fun hlt => hfits ⟨?_, hlt⟩
    omega

theorem onDeposit_of_past {ctx : VestingPolicyContext} (h : p.coinSecondsEarnedLastUpdate ≤ ctx.now) :
    ∃ coinSecondsEarned, p.onDeposit ctx =
      .ok { p with coinSecondsEarned, coinSecondsEarnedLastUpdate := ctx.now } := by
  obtain ⟨coinSecondsEarned, hcompute⟩ : ∃ n, p.computeCoinSecondsEarned ctx = .ok n :=
    ⟨_, cAssert_bind_eq_ok.mpr ⟨h, rfl⟩⟩
  refine ⟨coinSecondsEarned, ?_⟩
  unfold CddVestingPolicy.onDeposit CddVestingPolicy.updateCoinSecondsEarned
  rw [hcompute]
  rfl

theorem policy_isOk_iff (ctx : VestingPolicyContext) (requireVesting : Bool)
    (hpast : p.coinSecondsEarnedLastUpdate ≤ ctx.now) (hnonneg : 0 ≤ ctx.amount.amount)
    (hsmall : ctx.amount.amount < 2 ^ 63) :
    (∃ policy, (if requireVesting then (VestingPolicy.cdd p).onDeposit ctx
        else (VestingPolicy.cdd p).onDepositVested ctx) = .ok policy) ↔
      requireVesting = true ∨ ctx.amount.amount * p.vestingSeconds < 2 ^ 63 := by
  obtain ⟨n, hdeposit⟩ := onDeposit_of_past hpast
  cases requireVesting with
  | true =>
    exact iff_of_true ⟨_, bind_eq_ok.mpr ⟨_, hdeposit, rfl⟩⟩ (.inl rfl)
  | false =>
    -- a period of 0 counts as one of a second
    have hdivisor : ctx.amount.amount * p.divisor < 2 ^ 63 ↔
        ctx.amount.amount * p.vestingSeconds < 2 ^ 63 := by
      unfold CddVestingPolicy.divisor
      rcases Nat.eq_zero_or_pos p.vestingSeconds with hzero | hpos
      · rw [hzero, Nat.zero_max, Nat.cast_one, Nat.cast_zero, mul_one, mul_zero]
        exact iff_of_true hsmall (by norm_num)
      · rw [Nat.max_eq_left hpos]
    have hproduct := product64_isOk_iff hnonneg p.divisor
    rw [hdivisor] at hproduct
    rw [← hproduct]
    constructor
    · rintro ⟨policy, hpolicy⟩
      obtain ⟨q, hq, -⟩ := of_bind hpolicy
      obtain ⟨q', hq', hq⟩ := of_bind hq
      obtain ⟨product, hproduct, -⟩ := of_bind hq
      rw [hdeposit] at hq'
      cases hq'
      exact .inr ⟨product, hproduct⟩
    · rintro (hfalse | ⟨product, hproduct⟩)
      · cases hfalse
      · obtain ⟨q, hq⟩ : ∃ q, p.onDepositVested ctx = .ok q :=
          ⟨_, bind_eq_ok.mpr ⟨_, hdeposit, bind_eq_ok.mpr ⟨product, hproduct, rfl⟩⟩⟩
        exact ⟨_, bind_eq_ok.mpr ⟨q, hq, rfl⟩⟩

theorem depositInto_isOk_iff {now : Nat} (requireVesting : Bool) (h : Usable now vbo)
    (hp : vbo.policy = .cdd p) (hnonneg : 0 ≤ amount) (hsmall : amount < 2 ^ 63) :
    (∃ vbo', depositInto requireVesting vbo now ⟨amount, core⟩ = .ok vbo') ↔
      (requireVesting = true ∨ amount * p.vestingSeconds < 2 ^ 63) ∧
        vbo.balance.amount + amount < 2 ^ 63 := by
  have hbalance := h.nonneg
  have hpolicy := policy_isOk_iff ⟨vbo.balance, now, ⟨amount, core⟩⟩ requireVesting (h.past p hp)
    hnonneg hsmall
  have hadd : (∃ balance, vbo.balance.add ⟨amount, core⟩ = .ok balance) ↔
      vbo.balance.amount + amount < 2 ^ 63 := by
    constructor
    · rintro ⟨balance, hadd⟩
      obtain ⟨-, hadd⟩ := of_fcAssert hadd
      obtain ⟨sum, hsum, -⟩ := of_bind hadd
      exact (of_safe hsum).2.2
    · intro hlt
      have hsum : safe (vbo.balance.amount + amount) = .ok (vbo.balance.amount + amount) :=
        safe_eq_ok.mpr ⟨rfl, Int.le_trans (by norm_num) (Int.add_nonneg hbalance hnonneg), hlt⟩
      exact ⟨⟨vbo.balance.amount + amount, vbo.balance.assetId⟩,
        fcAssert_bind_eq_ok.mpr ⟨h.assetId, bind_eq_ok.mpr ⟨_, hsum, rfl⟩⟩⟩
  rw [← hpolicy, ← hadd, ← hp]
  unfold depositInto VestingBalanceObject.deposit VestingBalanceObject.depositVested
  cases requireVesting
  all_goals
    constructor
    · rintro ⟨vbo', hdeposit⟩
      obtain ⟨policy, hpolicy, hdeposit⟩ := of_bind hdeposit
      obtain ⟨balance, hbalance, -⟩ := of_bind hdeposit
      exact ⟨⟨policy, hpolicy⟩, balance, hbalance⟩
    · rintro ⟨⟨policy, hpolicy⟩, balance, hbalance⟩
      exact ⟨_, bind_eq_ok.mpr ⟨policy, hpolicy, bind_eq_ok.mpr ⟨balance, hbalance, rfl⟩⟩⟩

theorem seconds_of_policy {ctx : VestingPolicyContext} {requireVesting : Bool}
    {policy : VestingPolicy} (h : (if requireVesting then (VestingPolicy.cdd p).onDeposit ctx
      else (VestingPolicy.cdd p).onDepositVested ctx) = .ok policy) :
    ∃ p', policy = .cdd p' ∧ p'.vestingSeconds = p.vestingSeconds ∧
      p'.coinSecondsEarnedLastUpdate = ctx.now := by
  cases requireVesting with
  | true =>
    obtain ⟨q, hq, hpolicy⟩ := of_bind h
    obtain ⟨n, -, hq⟩ := of_bind hq
    cases hq
    cases hpolicy
    exact ⟨_, rfl, rfl, rfl⟩
  | false =>
    obtain ⟨q, hq, hpolicy⟩ := of_bind h
    obtain ⟨q', hq', hq⟩ := of_bind hq
    obtain ⟨n, -, hq'⟩ := of_bind hq'
    obtain ⟨product, -, hq⟩ := of_bind hq
    cases hq'
    cases hq
    cases hpolicy
    exact ⟨_, rfl, rfl, rfl⟩

theorem usable_of_depositInto {now : Nat} {vbo' : VestingBalanceObject} {requireVesting : Bool}
    (h : Usable now vbo) (hp : vbo.policy = .cdd p) (hnonneg : 0 ≤ amount)
    (hsmall : vbo.balance.amount + amount < 2 ^ 63)
    (hdeposit : depositInto requireVesting vbo now ⟨amount, core⟩ = .ok vbo') :
    Usable now vbo' ∧ vbo'.owner = vbo.owner ∧
      vbo'.balance.amount = vbo.balance.amount + amount ∧
      ∃ p', vbo'.policy = .cdd p' ∧ p'.vestingSeconds = p.vestingSeconds := by
  obtain ⟨policy, hpolicy, -, rfl⟩ := of_depositInto hdeposit
  rw [hp] at hpolicy
  obtain ⟨p', rfl, hseconds, htime⟩ := seconds_of_policy hpolicy
  refine ⟨⟨h.assetId, Int.add_nonneg h.nonneg hnonneg, hsmall, ?_⟩, rfl, rfl, p', rfl, hseconds⟩
  intro q hq
  cases hq
  exact htime.le

theorem initialCoinSeconds_isOk_iff (requireVesting : Bool) (hnonneg : 0 ≤ amount) (seconds : Nat) :
    (∃ n, initialCoinSeconds requireVesting amount seconds = .ok n) ↔
      requireVesting = true ∨ amount * seconds < 2 ^ 63 := by
  cases requireVesting with
  | true => exact iff_of_true ⟨0, rfl⟩ (.inl rfl)
  | false =>
    rw [initialCoinSeconds_vested hnonneg, or_iff_right Bool.false_ne_true]
    split
    · rename_i hlt
      exact iff_of_true ⟨_, rfl⟩ hlt
    · rename_i hlt
      exact iff_of_false (fun ⟨_, hfalse⟩ => nomatch hfalse) hlt

end Meta1Core.Vesting
