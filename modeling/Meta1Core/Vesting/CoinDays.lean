import Meta1Core.Vesting.Steps

/-!
# Coin days

The seconds that a balance earned never exceed those of its whole vesting period, so what may be
withdrawn never exceeds the balance.
-/

namespace Meta1Core.Vesting

open Lib (Index Returns Reachable bind_eq_ok of_bind)
open Protocol Ledger

namespace CddVestingPolicy

variable {p : CddVestingPolicy} {balance : Int} {now : Nat}

theorem divisor_pos (p : CddVestingPolicy) : 0 < p.divisor := by
  unfold divisor
  omega

def earned (p : CddVestingPolicy) (balance : Int) (now : Nat) : Nat :=
  min (p.coinSecondsEarned + balance.toNat * (now - p.coinSecondsEarnedLastUpdate))
    (balance.toNat * p.divisor)

def allowed (p : CddVestingPolicy) (balance : Int) (now : Nat) : Int :=
  if now ≤ p.startClaim then 0 else (p.earned balance now / p.divisor : Nat)

structure Sane (p : CddVestingPolicy) (balance : Int) (now : Nat) : Prop where
  nonneg : 0 ≤ balance
  le : balance ≤ maxShareSupply
  seconds : p.vestingSeconds < 2 ^ 32
  updated : p.coinSecondsEarnedLastUpdate ≤ now
  earned : p.coinSecondsEarned ≤ balance.toNat * p.divisor

theorem Sane.later {now' : Nat} (h : p.Sane balance now) (hle : now ≤ now') :
    p.Sane balance now' :=
  ⟨h.nonneg, h.le, h.seconds, Nat.le_trans h.updated hle, h.earned⟩

theorem earned_le (p : CddVestingPolicy) (balance : Int) (now : Nat) :
    p.earned balance now ≤ balance.toNat * p.divisor := Nat.min_le_right _ _

theorem Sane.product_lt (h : p.Sane balance now) {seconds : Nat} (hseconds : seconds < 2 ^ 32) :
    balance.toNat * seconds < 2 ^ 96 := by
  have hle := h.le
  have hbalance : balance.toNat ≤ 2 ^ 63 := by
    unfold maxShareSupply at hle
    omega
  calc balance.toNat * seconds ≤ 2 ^ 63 * 2 ^ 32 := Nat.mul_le_mul hbalance (Nat.le_of_lt hseconds)
    _ < 2 ^ 96 := by decide

theorem Sane.divisor_lt (h : p.Sane balance now) : p.divisor < 2 ^ 32 := by
  have := h.seconds
  unfold divisor
  omega

theorem Sane.computeCoinSecondsEarned (h : p.Sane balance now) (htime : now < 2 ^ 32)
    (id : AssetId) (amount : Asset) :
    p.computeCoinSecondsEarned ⟨⟨balance, id⟩, now, amount⟩ = .ok (p.earned balance now) := by
  have hbalance : uint128 balance = balance.toNat := by
    have hnonneg := h.nonneg
    have hle := h.le
    unfold maxShareSupply at hle
    unfold uint128
    omega
  have hdelta : balance.toNat * (now - p.coinSecondsEarnedLastUpdate) < 2 ^ 96 :=
    h.product_lt (by omega)
  have hcap : balance.toNat * p.divisor < 2 ^ 96 := h.product_lt h.divisor_lt
  have hearned := h.earned
  unfold CddVestingPolicy.computeCoinSecondsEarned
  apply cAssert_bind_eq_ok.mpr
  refine ⟨h.updated, ?_⟩
  dsimp only
  rw [hbalance]
  simp only [← Nat.cast_mul, ← Nat.cast_add]
  rw [uint128_natCast (Nat.lt_trans hdelta (by decide)),
    uint128_natCast (Nat.lt_trans hcap (by decide)), uint128_natCast (by omega)]
  rfl

theorem quotient_le (p : CddVestingPolicy) (balance : Int) (now : Nat) :
    p.earned balance now / p.divisor ≤ balance.toNat := by
  apply Nat.div_le_of_le_mul
  rw [Nat.mul_comm]
  exact earned_le p balance now

theorem Sane.allowed_nonneg_le (h : p.Sane balance now) :
    0 ≤ p.allowed balance now ∧ p.allowed balance now ≤ balance := by
  have hnonneg := h.nonneg
  have hquotient := p.quotient_le balance now
  unfold allowed
  generalize p.earned balance now / p.divisor = quotient at hquotient ⊢
  split
  · omega
  · omega

theorem Sane.getAllowedWithdraw (h : p.Sane balance now) (htime : now < 2 ^ 32) (id : AssetId)
    (amount : Asset) :
    p.getAllowedWithdraw ⟨⟨balance, id⟩, now, amount⟩ = .ok ⟨p.allowed balance now, id⟩ := by
  unfold CddVestingPolicy.getAllowedWithdraw allowed
  by_cases hstart : now ≤ p.startClaim
  · rw [if_pos hstart, if_pos hstart]
    rfl
  · rw [if_neg hstart, if_neg hstart, h.computeCoinSecondsEarned htime]
    have hnonneg := h.nonneg
    have hle := h.le
    have hquotient := p.quotient_le balance now
    unfold maxShareSupply at hle
    have hbalance : uint128 balance = balance.toNat := by
      unfold uint128
      omega
    refine bind_eq_ok.mpr ⟨_, rfl, cAssert_bind_eq_ok.mpr ⟨?_, ?_⟩⟩
    · dsimp only
      rw [hbalance]
      exact hquotient
    · dsimp only
      rw [Nat.mod_eq_of_lt (by omega), int64Cast_of_lt (by omega)]
      rfl

theorem Sane.isWithdrawAllowed (h : p.Sane balance now) (htime : now < 2 ^ 32) {id : AssetId}
    {amount : Asset} (hasset : amount.assetId = id) :
    p.isWithdrawAllowed ⟨⟨balance, id⟩, now, amount⟩ =
      .ok (decide (amount.amount ≤ p.allowed balance now)) := by
  unfold CddVestingPolicy.isWithdrawAllowed
  rw [h.getAllowedWithdraw htime]
  exact Asset.le_eq hasset

def update (p : CddVestingPolicy) (balance : Int) (now : Nat) : CddVestingPolicy :=
  { p with coinSecondsEarned := p.earned balance now, coinSecondsEarnedLastUpdate := now }

theorem Sane.onDeposit (h : p.Sane balance now) (htime : now < 2 ^ 32) (id : AssetId)
    (amount : Asset) :
    p.onDeposit ⟨⟨balance, id⟩, now, amount⟩ = .ok (p.update balance now) := by
  unfold CddVestingPolicy.onDeposit updateCoinSecondsEarned
  rw [h.computeCoinSecondsEarned htime]
  rfl

/-- The policy with more seconds, of as many units as `amount` says -/
def addSeconds (p : CddVestingPolicy) (amount : Int) : CddVestingPolicy :=
  { p with coinSecondsEarned := p.coinSecondsEarned + amount.toNat * p.divisor }

theorem Sane.onDepositVested (h : p.Sane balance now) (htime : now < 2 ^ 32) (id : AssetId)
    {amount : Asset} (hnonneg : 0 ≤ amount.amount) :
    p.onDepositVested ⟨⟨balance, id⟩, now, amount⟩ =
      if amount.amount * p.divisor < 2 ^ 63 then
        .ok ((p.update balance now).addSeconds amount.amount)
      else .error .undefined := by
  have hproduct : 0 ≤ amount.amount * p.divisor := Int.mul_nonneg hnonneg (by omega)
  unfold CddVestingPolicy.onDepositVested
  rw [h.onDeposit htime]
  by_cases hfits : amount.amount * p.divisor < 2 ^ 63
  · have hcast : amount.amount * p.divisor = (amount.amount.toNat * p.divisor : Nat) := by
      rw [Nat.cast_mul, Int.toNat_of_nonneg hnonneg]
    have hearned := p.earned_le balance now
    have hcap : balance.toNat * p.divisor < 2 ^ 96 := h.product_lt h.divisor_lt
    have hfitted : product64 amount.amount p.divisor = .ok (amount.amount * p.divisor) :=
      if_pos ⟨by omega, hfits⟩
    have hsum : uint128 ((p.update balance now).coinSecondsEarned + amount.amount * p.divisor) =
        p.earned balance now + amount.amount.toNat * p.divisor := by
      rw [hcast, ← Nat.cast_add]
      show uint128 ((p.earned balance now + amount.amount.toNat * p.divisor : Nat) : Int) = _
      exact uint128_natCast (by omega)
    rw [if_pos hfits]
    refine bind_eq_ok.mpr ⟨_, rfl, bind_eq_ok.mpr ⟨_, hfitted, ?_⟩⟩
    rw [hsum]
    rfl
  · have hundefined : product64 amount.amount p.divisor = .error .undefined :=
      if_neg fun hand => hfits hand.2
    rw [if_neg hfits]
    show (product64 amount.amount p.divisor >>= _) = _
    rw [hundefined]
    rfl

/-- The policy with fewer seconds, of as many units as `amount` says -/
def removeSeconds (p : CddVestingPolicy) (amount : Int) : CddVestingPolicy :=
  { p with coinSecondsEarned := p.coinSecondsEarned - amount.toNat * p.divisor }

theorem le_earned_of_le_allowed {amount : Int} (hle : amount ≤ p.allowed balance now) :
    amount.toNat * p.divisor ≤ p.earned balance now := by
  have hquotient : amount.toNat ≤ p.earned balance now / p.divisor := by
    unfold allowed at hle
    generalize p.earned balance now / p.divisor = quotient at hle ⊢
    split at hle
    · omega
    · omega
  exact (Nat.le_div_iff_mul_le p.divisor_pos).mp hquotient

theorem Sane.onWithdraw (h : p.Sane balance now) (htime : now < 2 ^ 32) (id : AssetId)
    {amount : Asset} (hnonneg : 0 ≤ amount.amount)
    (hle : amount.amount ≤ p.allowed balance now) :
    p.onWithdraw ⟨⟨balance, id⟩, now, amount⟩ =
      .ok ((p.update balance now).removeSeconds amount.amount) := by
  have hneeded := le_earned_of_le_allowed hle
  have hearned := earned_le p balance now
  have hcap : balance.toNat * p.divisor < 2 ^ 96 := h.product_lt h.divisor_lt
  have hcovered := h.allowed_nonneg_le.2
  have hmax := h.le
  unfold maxShareSupply at hmax
  have hamount : uint128 amount.amount = amount.amount.toNat := by
    unfold uint128
    omega
  have hproduct : uint128 ((uint128 amount.amount : Int) * p.divisor) =
      amount.amount.toNat * p.divisor := by
    rw [hamount, ← Nat.cast_mul, uint128_natCast (by omega)]
  unfold CddVestingPolicy.onWithdraw updateCoinSecondsEarned
  rw [h.computeCoinSecondsEarned htime]
  refine bind_eq_ok.mpr ⟨_, rfl, cAssert_bind_eq_ok.mpr ⟨?_, ?_⟩⟩
  · show uint128 ((uint128 amount.amount : Int) * p.divisor) ≤ p.earned balance now
    rw [hproduct]
    exact hneeded
  · show Except.ok { p.update balance now with
      coinSecondsEarned := p.earned balance now - uint128 ((uint128 amount.amount : Int) *
        p.divisor) } = _
    rw [hproduct]
    rfl

@[simp] theorem divisor_update (p : CddVestingPolicy) (balance : Int) (now : Nat) :
    (p.update balance now).divisor = p.divisor := rfl

@[simp] theorem divisor_addSeconds (p : CddVestingPolicy) (amount : Int) :
    (p.addSeconds amount).divisor = p.divisor := rfl

@[simp] theorem divisor_removeSeconds (p : CddVestingPolicy) (amount : Int) :
    (p.removeSeconds amount).divisor = p.divisor := rfl

theorem Sane.deposit (h : p.Sane balance now) {amount : Int} (hnonneg : 0 ≤ amount)
    (hle : balance + amount ≤ maxShareSupply) : (p.update balance now).Sane (balance + amount) now := by
  have hbalance := h.nonneg
  constructor
  case nonneg => omega
  case le => exact hle
  case seconds => exact h.seconds
  case updated => exact Nat.le_refl now
  case earned =>
    rw [divisor_update]
    apply Nat.le_trans (p.earned_le balance now)
    exact Nat.mul_le_mul_right _ (by omega)

theorem Sane.depositVested (h : p.Sane balance now) {amount : Int} (hnonneg : 0 ≤ amount)
    (hle : balance + amount ≤ maxShareSupply) :
    ((p.update balance now).addSeconds amount).Sane (balance + amount) now := by
  have hbalance := h.nonneg
  constructor
  case nonneg => omega
  case le => exact hle
  case seconds => exact h.seconds
  case updated => exact Nat.le_refl now
  case earned =>
    have hsum : (balance + amount).toNat = balance.toNat + amount.toNat := by omega
    rw [divisor_addSeconds, divisor_update, hsum, Nat.add_mul]
    exact Nat.add_le_add_right (p.earned_le balance now) _

theorem Sane.withdraw (h : p.Sane balance now) {amount : Int} (hnonneg : 0 ≤ amount)
    (hle : amount ≤ p.allowed balance now) :
    ((p.update balance now).removeSeconds amount).Sane (balance - amount) now := by
  have hbalance := h.nonneg
  have hmax := h.le
  have hcovered := h.allowed_nonneg_le.2
  constructor
  case nonneg => omega
  case le => omega
  case seconds => exact h.seconds
  case updated => exact Nat.le_refl now
  case earned =>
    have hdifference : (balance - amount).toNat = balance.toNat - amount.toNat := by omega
    rw [divisor_removeSeconds, divisor_update, hdifference, Nat.sub_mul]
    exact Nat.sub_le_sub_right (p.earned_le balance now) _

theorem allowed_addSeconds {amount : Int} (hbalance : 0 ≤ balance) (hnonneg : 0 ≤ amount)
    (hstart : p.startClaim < now) :
    ((p.update balance now).addSeconds amount).allowed (balance + amount) now =
      p.allowed balance now + amount := by
  have hsum : (balance + amount).toNat = balance.toNat + amount.toNat := by omega
  have hcap : p.earned balance now + amount.toNat * p.divisor ≤
      (balance + amount).toNat * p.divisor := by
    rw [hsum, Nat.add_mul]
    exact Nat.add_le_add_right (p.earned_le balance now) _
  have hearned : ((p.update balance now).addSeconds amount).earned (balance + amount) now =
      p.earned balance now + amount.toNat * p.divisor := by
    change min (p.earned balance now + amount.toNat * p.divisor +
      (balance + amount).toNat * (now - now)) ((balance + amount).toNat * p.divisor) = _
    rw [Nat.sub_self, Nat.mul_zero, Nat.add_zero, Nat.min_eq_left hcap]
  unfold allowed
  rw [hearned, divisor_addSeconds, divisor_update, Nat.add_mul_div_right _ _ p.divisor_pos,
    if_neg (show ¬now ≤ p.startClaim by omega), if_neg]
  · omega
  · show ¬now ≤ p.startClaim
    omega

end CddVestingPolicy

open CddVestingPolicy

section Balance

variable {vbo : VestingBalanceObject} {p : CddVestingPolicy} {now : Nat}

theorem getAllowedWithdraw_eq (hp : vbo.policy = .cdd p) (h : p.Sane vbo.balance.amount now)
    (htime : now < 2 ^ 32) :
    vbo.getAllowedWithdraw now = .ok ⟨p.allowed vbo.balance.amount now, vbo.balance.assetId⟩ := by
  unfold VestingBalanceObject.getAllowedWithdraw
  rw [hp]
  exact h.getAllowedWithdraw htime vbo.balance.assetId _

theorem add_eq_ok {a b : Asset} (hasset : b.assetId = a.assetId)
    (hfits : -(2 ^ 63) ≤ a.amount + b.amount ∧ a.amount + b.amount < 2 ^ 63) :
    a.add b = .ok ⟨a.amount + b.amount, a.assetId⟩ := by
  apply fcAssert_bind_eq_ok.mpr
  exact ⟨hasset.symm, bind_eq_ok.mpr ⟨_, safe_eq_ok.mpr ⟨rfl, hfits⟩, rfl⟩⟩

variable {vbo' : VestingBalanceObject} {p' : CddVestingPolicy}

theorem deposit_sane (hp : vbo.policy = .cdd p) (h : p.Sane vbo.balance.amount now)
    (htime : now < 2 ^ 32) {amount : Asset} {requireVesting : Bool} (hnonneg : 0 ≤ amount.amount)
    (hle : vbo.balance.amount + amount.amount ≤ maxShareSupply)
    (hdeposit : depositInto requireVesting vbo now amount = .ok vbo') (hp' : vbo'.policy = .cdd p') :
    p'.Sane vbo'.balance.amount now := by
  obtain ⟨policy, hpolicy, -, rfl⟩ := of_depositInto hdeposit
  replace hp' : policy = .cdd p' := hp'
  rw [hp', hp] at hpolicy
  split at hpolicy
  · obtain ⟨q, hq, hpolicy⟩ := of_bind hpolicy
    cases hpolicy
    replace hq : p.onDeposit ⟨⟨vbo.balance.amount, vbo.balance.assetId⟩, now, amount⟩ = .ok p' := hq
    rw [h.onDeposit htime] at hq
    cases hq
    exact h.deposit hnonneg hle
  · obtain ⟨q, hq, hpolicy⟩ := of_bind hpolicy
    cases hpolicy
    replace hq : p.onDepositVested ⟨⟨vbo.balance.amount, vbo.balance.assetId⟩, now, amount⟩ =
      .ok p' := hq
    rw [h.onDepositVested htime _ hnonneg] at hq
    split at hq
    · cases hq
      exact h.depositVested hnonneg hle
    · cases hq

theorem withdraw_sane (hp : vbo.policy = .cdd p) (h : p.Sane vbo.balance.amount now)
    (htime : now < 2 ^ 32) {amount : Asset} (hnonneg : 0 ≤ amount.amount)
    (hle : amount.amount ≤ p.allowed vbo.balance.amount now)
    (hwithdraw : vbo.withdraw now amount = .ok vbo') (hp' : vbo'.policy = .cdd p') :
    p'.Sane vbo'.balance.amount now := by
  obtain ⟨policy, hpolicy, -, rfl⟩ := of_withdraw hwithdraw
  replace hp' : policy = .cdd p' := hp'
  rw [hp', hp] at hpolicy
  obtain ⟨q, hq, hpolicy⟩ := of_bind hpolicy
  cases hpolicy
  replace hq : p.onWithdraw ⟨⟨vbo.balance.amount, vbo.balance.assetId⟩, now, amount⟩ = .ok p' := hq
  rw [h.onWithdraw htime _ hnonneg hle] at hq
  cases hq
  exact h.withdraw hnonneg hle

/-- What the claims of a balance of coin days come to at a time -/
structure Exact (vbo : VestingBalanceObject) (p : CddVestingPolicy) (now : Nat) (free : Int) :
    Prop where
  /-- What may be withdrawn is a part of the balance. -/
  returns : vbo.getAllowedWithdraw now = .ok ⟨free, vbo.balance.assetId⟩
  nonneg : 0 ≤ free
  le : free ≤ vbo.balance.amount
  /-- It can be withdrawn, and the seconds that are left are exact. -/
  withdraw : ∀ amount, amount.assetId = vbo.balance.assetId → 0 ≤ amount.amount →
    amount.amount ≤ free → vbo.isWithdrawAllowed now amount = .ok true ∧
      ∃ vbo' p', vbo.withdraw now amount = .ok vbo' ∧ vbo'.policy = .cdd p' ∧
        vbo'.balance = ⟨vbo.balance.amount - amount.amount, vbo.balance.assetId⟩ ∧
        (p'.coinSecondsEarned : Int) = min
          (p.coinSecondsEarned + vbo.balance.amount * (now - p.coinSecondsEarnedLastUpdate))
          (vbo.balance.amount * p.divisor) - amount.amount * p.divisor
  /-- A vested deposit may be withdrawn immediately, if and only if its product fits 64 bits. -/
  vested : ∀ amount, amount.assetId = vbo.balance.assetId → 0 ≤ amount.amount →
    vbo.balance.amount + amount.amount ≤ maxShareSupply → p.startClaim < now →
    ((∃ vbo', vbo.depositVested now amount = .ok vbo' ∧
      vbo'.getAllowedWithdraw now = .ok ⟨free + amount.amount, vbo.balance.assetId⟩) ↔
        amount.amount * p.divisor < 2 ^ 63)

theorem depositVested_exact (hp : vbo.policy = .cdd p) (h : p.Sane vbo.balance.amount now)
    (htime : now < 2 ^ 32) {amount : Asset} (hasset : amount.assetId = vbo.balance.assetId)
    (hnonneg : 0 ≤ amount.amount) (hle : vbo.balance.amount + amount.amount ≤ maxShareSupply)
    (hstart : p.startClaim < now) :
    (∃ vbo', vbo.depositVested now amount = .ok vbo' ∧ vbo'.getAllowedWithdraw now =
      .ok ⟨p.allowed vbo.balance.amount now + amount.amount, vbo.balance.assetId⟩) ↔
        amount.amount * p.divisor < 2 ^ 63 := by
  have hbalance := h.nonneg
  have hvested : vbo.policy.onDepositVested ⟨vbo.balance, now, amount⟩ =
      if amount.amount * p.divisor < 2 ^ 63 then
        .ok (.cdd ((p.update vbo.balance.amount now).addSeconds amount.amount))
      else .error .undefined := by
    rw [hp]
    show (p.onDepositVested ⟨⟨vbo.balance.amount, vbo.balance.assetId⟩, now, amount⟩ >>= _) = _
    rw [h.onDepositVested htime _ hnonneg]
    split
    · rfl
    · rfl
  have hadd : vbo.balance.add amount =
      .ok ⟨vbo.balance.amount + amount.amount, vbo.balance.assetId⟩ := by
    unfold maxShareSupply at hle
    exact add_eq_ok hasset (by omega)
  by_cases hfits : amount.amount * p.divisor < 2 ^ 63
  · rw [if_pos hfits] at hvested
    refine iff_of_true ⟨_, bind_eq_ok.mpr ⟨_, hvested, bind_eq_ok.mpr
      ⟨_, hadd, rfl⟩⟩, ?_⟩ hfits
    rw [getAllowedWithdraw_eq rfl (h.depositVested hnonneg hle) htime,
      allowed_addSeconds hbalance hnonneg hstart]
  · rw [if_neg hfits] at hvested
    refine iff_of_false ?_ hfits
    rintro ⟨vbo', hdeposit, -⟩
    obtain ⟨policy, hpolicy, -⟩ := of_bind hdeposit
    rw [hvested] at hpolicy
    cases hpolicy

theorem exact_of_sane (hp : vbo.policy = .cdd p) (h : p.Sane vbo.balance.amount now)
    (htime : now < 2 ^ 32) : Exact vbo p now (p.allowed vbo.balance.amount now) := by
  have hbalance := h.nonneg
  have hmax := h.le
  unfold maxShareSupply at hmax
  obtain ⟨hnonneg, hle⟩ := h.allowed_nonneg_le
  constructor
  case returns => exact getAllowedWithdraw_eq hp h htime
  case nonneg => exact hnonneg
  case le => exact hle
  case withdraw =>
    intro amount hasset hamount hallowed
    have hpolicy : vbo.policy.onWithdraw ⟨vbo.balance, now, amount⟩ =
        .ok (.cdd ((p.update vbo.balance.amount now).removeSeconds amount.amount)) := by
      rw [hp]
      show (p.onWithdraw ⟨⟨vbo.balance.amount, vbo.balance.assetId⟩, now, amount⟩ >>= _) = _
      rw [h.onWithdraw htime _ hamount hallowed]
      rfl
    constructor
    · unfold VestingBalanceObject.isWithdrawAllowed
      rw [hp, Asset.le_eq hasset]
      have hdecide := h.isWithdrawAllowed htime hasset
      rw [decide_eq_true hallowed] at hdecide
      refine bind_eq_ok.mpr ⟨_, hdecide, bind_eq_ok.mpr ⟨_, rfl, ?_⟩⟩
      apply cAssert_bind_eq_ok.mpr
      exact ⟨.inl (decide_eq_true (by omega)), rfl⟩
    · refine ⟨_, _, withdraw_eq_ok hasset hpolicy hamount (by omega) (by omega), rfl, rfl, ?_⟩
      have hneeded := le_earned_of_le_allowed hallowed
      have hupdated := h.updated
      show ((p.earned vbo.balance.amount now - amount.amount.toNat * p.divisor : Nat) : Int) = _
      rw [Nat.cast_sub hneeded, CddVestingPolicy.earned]
      push_cast
      rw [Int.toNat_of_nonneg hbalance, Int.toNat_of_nonneg hamount, Nat.cast_sub hupdated]
  case vested =>
    intro amount hasset hamount hfits hstart
    exact depositVested_exact hp h htime hasset hamount hfits hstart

end Balance

/-! ## The chain -/

/-- A deposit fits: the amount, the balance with it and the period are in range. -/
structure Room (x : Objects) (ovbid : Option Nat) (amount : Int) (seconds : Nat) : Prop where
  nonneg : 0 ≤ amount
  le : amount ≤ maxShareSupply
  seconds : seconds < 2 ^ 32
  sum : ∀ id vbo, ovbid = some id → x.vestingBalances.find id = some vbo →
    vbo.balance.amount + amount ≤ maxShareSupply

/-- `uint32_t vesting_seconds` -/
def VestingPolicyInitializer.Fits : VestingPolicyInitializer → Prop
  | .cdd _ vestingSeconds => vestingSeconds < 2 ^ 32
  | _ => True

/-- Amounts and balances are at most the largest supply. -/
def InRange (c : Chain) : Event → Prop
  | .create _ _ op => op.amount.amount ≤ maxShareSupply ∧ op.policy.Fits
  | .cashback acct amount _ => Room c.state.objects (c.state.objects.cashbackVb.lookup acct) amount
      c.state.objects.cashbackVestingPeriodSeconds
  | .witnessPay wit _ amount => Room c.state.objects (c.state.objects.payVb.lookup wit) amount
      c.state.objects.witnessPayVestingSeconds
  | .workerPay worker pay => Room c.state.objects (c.state.objects.workers.find worker) pay 0
  | _ => True

structure SoundCdd (c : Chain) : Prop where
  time : c.state.ledger.headBlockTime < 2 ^ 32
  references : References c.state.objects
  sane : ∀ id vbo p, c.state.objects.vestingBalances.find id = some vbo → vbo.policy = .cdd p →
    p.Sane vbo.balance.amount c.state.ledger.headBlockTime

variable {c c' : Chain}

theorem NoneVesting.soundCdd (h : NoneVesting c) : SoundCdd c := by
  refine ⟨h.time, h.references, ?_⟩
  intro id vbo p hfound
  rw [h.vestingBalances] at hfound
  cases hfound

variable {requireVesting : Bool}

theorem initialCoinSeconds_le {amount : Int} {seconds n : Nat} (hnonneg : 0 ≤ amount)
    (h : initialCoinSeconds requireVesting amount seconds = .ok n) :
    n ≤ amount.toNat * max seconds 1 := by
  unfold initialCoinSeconds at h
  split at h
  · cases h
    exact Nat.zero_le _
  · obtain ⟨product, hproduct, h⟩ := of_bind h
    cases h
    unfold product64 at hproduct
    split at hproduct
    · rename_i hfits
      cases hproduct
      have hcast : amount * seconds = (amount.toNat * seconds : Nat) := by
        rw [Nat.cast_mul, Int.toNat_of_nonneg hnonneg]
      rw [hcast, uint128_natCast (by omega)]
      exact Nat.mul_le_mul_left _ (Nat.le_max_left ..)
    · cases hproduct

theorem sane_fresh {balance : Int} {seconds startClaim now n : Nat} (hnonneg : 0 ≤ balance)
    (hle : balance ≤ maxShareSupply) (hseconds : seconds < 2 ^ 32)
    (hn : n ≤ balance.toNat * max seconds 1) :
    CddVestingPolicy.Sane ⟨seconds, n, startClaim, now⟩ balance now :=
  ⟨hnonneg, hle, hseconds, Nat.le_refl now, hn⟩

variable {e : Event}

theorem Fresh.sane {vbo : VestingBalanceObject}
    (h : Fresh c.state.objects c.state.ledger.headBlockTime e vbo) (hcond : InRange c e)
    {p : CddVestingPolicy} (hp : vbo.policy = .cdd p) :
    p.Sane vbo.balance.amount c.state.ledger.headBlockTime := by
  cases h with
  | create ctx requiredFee op hpositive =>
    obtain ⟨hle, hseconds⟩ := hcond
    dsimp only at hp
    cases hpolicy : op.policy with
    | linear beginTimestamp cliff duration =>
      rw [hpolicy] at hp
      cases hp
    | cdd startClaim seconds =>
      rw [hpolicy] at hp hseconds
      cases hp
      exact sane_fresh (Int.le_of_lt hpositive) hle hseconds (Nat.zero_le _)
    | instant =>
      rw [hpolicy] at hp
      cases hp
  | cashback acct amount requireVesting n hinitial =>
    cases hp
    exact sane_fresh hcond.nonneg hcond.le hcond.seconds
      (initialCoinSeconds_le hcond.nonneg hinitial)
  | witnessPay wit account amount =>
    cases hp
    exact sane_fresh hcond.nonneg hcond.le hcond.seconds (Nat.zero_le _)
  | worker account days =>
    cases hp
    have hzero : (0 : Int) ≤ maxShareSupply := by decide
    exact sane_fresh (Int.le_refl 0) hzero (Nat.mod_lt _ (by decide)) (Nat.zero_le _)
  | marketFee => cases hp

variable {id : Nat}

theorem Deposits.room {amount : Asset} (h : Deposits c.state.objects e id requireVesting amount)
    (hs : SoundCdd c) (hcond : InRange c e) {vbo : VestingBalanceObject}
    (hfound : c.state.objects.vestingBalances.find id = some vbo) {p : CddVestingPolicy}
    (hp : vbo.policy = .cdd p) :
    0 ≤ amount.amount ∧ vbo.balance.amount + amount.amount ≤ maxShareSupply := by
  cases h with
  | cashback acct amount _ _ href => exact ⟨hcond.nonneg, hcond.sum id vbo href hfound⟩
  | witnessPay wit account amount _ href => exact ⟨hcond.nonneg, hcond.sum id vbo href hfound⟩
  | workerPay worker pay _ href => exact ⟨hcond.nonneg, hcond.sum id vbo href hfound⟩
  | marketFee account _ _ vbo' hfound' htype =>
    rw [hfound] at hfound'
    cases hfound'
    -- market fees go to instant balances
    rw [hs.references.marketFee id vbo hfound htype] at hp
    cases hp

theorem SoundCdd.other (h : SoundCdd c) (hcond : InRange c e) (hother : Other c.state c'.state e) :
    SoundCdd c' := by
  have hlater := hother.later
  refine ⟨hother.fits h.time, hother.references h.references, ?_⟩
  intro id vbo p hfound hp
  have hvesting := hother.vesting
  generalize c'.state.objects.vestingBalances = t at hvesting hfound
  apply Sane.later _ hlater
  cases hvesting with
  | same => exact h.sane id vbo p hfound hp
  | created new hfresh =>
    rw [Index.find_create] at hfound
    split at hfound
    · cases hfound
      exact hfresh.sane hcond hp
    · exact h.sane id vbo p hfound hp
  | deposited id' requireVesting amount old new hdeposits hold hdeposit =>
    rw [Index.find_modify, hold] at hfound
    split at hfound
    · cases hfound
      have hkind := kind_of_depositInto hdeposit
      rcases h.references.of_deposits hdeposits hold with ⟨q, hq⟩ | hinstant
      · obtain ⟨hnonneg, hle⟩ := hdeposits.room h hcond hold hq
        exact deposit_sane hq (h.sane id' old q hold hq) h.time hnonneg hle hdeposit hp
      · rw [hkind.2.1 hinstant] at hp
        cases hp
    · exact h.sane id vbo p hfound hp

theorem SoundCdd.withdraw {op : WithdrawOperation} {vbo vbo' : VestingBalanceObject}
    (h : SoundCdd c) (hw : Withdrew c c' op vbo vbo') : SoundCdd c' := by
  have hvesting : c'.state.objects.vestingBalances =
      c.state.objects.vestingBalances.modify op.vestingBalance fun _ => vbo' := by
    rw [hw.objects]
    rfl
  constructor
  case time => rw [hw.time]; exact h.time
  case references =>
    rw [hw.objects]
    exact h.references.withdraw hw.found hw.withdraw
  case sane =>
    intro id vbo1 p' hfound hp'
    rw [hvesting, Index.find_modify, hw.found] at hfound
    rw [hw.time]
    split at hfound
    · cases hfound
      obtain ⟨policy, hpolicy, -, rfl⟩ := of_withdraw hw.withdraw
      -- the policy is still one of coin days, and what was withdrawn was allowed
      obtain ⟨p, hp⟩ : ∃ p, vbo.policy = .cdd p := by
        replace hp' : policy = .cdd p' := hp'
        rw [hp'] at hpolicy
        cases hkind : vbo.policy with
        | linear q =>
          rw [hkind] at hpolicy
          cases hpolicy
        | cdd q => exact ⟨q, rfl⟩
        | instant =>
          rw [hkind] at hpolicy
          cases hpolicy
      have hsane := h.sane _ vbo p hw.found hp
      have hallowed := of_isWithdrawAllowed hw.allowed
      rw [hp] at hallowed
      have hasset : op.amount.assetId = vbo.balance.assetId := by
        obtain ⟨covered, hcovered, -⟩ := of_bind hw.withdraw
        obtain ⟨_, hlower, -⟩ := of_bind hcovered
        exact (of_fcAssert hlower).1.symm
      have hle : op.amount.amount ≤ p.allowed vbo.balance.amount
          c.state.ledger.headBlockTime := by
        have hdecide := hsane.isWithdrawAllowed h.time hasset
        exact of_decide_eq_true (Except.ok.inj (hdecide.symm.trans hallowed))
      exact withdraw_sane hp hsane h.time (Int.le_of_lt hw.positive) hle hw.withdraw hp'
    · exact h.sane id vbo1 p' hfound hp'

theorem SoundCdd.claim {op : BalanceClaimOperation} {b : BalanceObject} {rest : Bool}
    {amount : Asset} (h : SoundCdd c) (hclaimed : Claimed c c' op b rest amount) :
    SoundCdd c' := by
  have hvesting : c'.state.objects.vestingBalances = c.state.objects.vestingBalances := by
    rw [hclaimed.objects]
    rfl
  constructor
  case time => rw [hclaimed.time]; exact h.time
  case references =>
    rw [hclaimed.objects]
    exact ⟨h.references.1, h.references.2, h.references.3, h.references.4⟩
  case sane =>
    rw [hvesting, hclaimed.time]
    exact h.sane

variable {keyOwns : KeyOwns}

theorem step_soundCdd (h : SoundCdd c) (hcond : InRange c e) (hstep : step keyOwns c e = .ok c') :
    SoundCdd c' := by
  cases step_stepped hstep with
  | withdraw ctx requiredFee op vbo vbo' hw => exact h.withdraw hw
  | claim ctx op b rest amount hclaimed => exact h.claim hclaimed
  | other e hhistory hother => exact h.other hcond hother

theorem soundCdd_of_reachable (h : Reachable (step keyOwns) NoneVesting InRange c) :
    SoundCdd c := by
  apply h.invariant SoundCdd
  · intro c0 h0
    exact h0.soundCdd
  · intro c1 e c2 hs hcond hstep
    exact step_soundCdd hs hcond hstep

/-! ## Deposits that are vested -/

/-- What may be withdrawn from a balance; nothing as long as it does not exist -/
def allowedAt (t : Index VestingBalanceObject) (id now : Nat) : Except Exception Int :=
  match t.find id with
  | some vbo => do return (← vbo.getAllowedWithdraw now).amount
  | none => .ok 0

/-- A vested deposit succeeds, and just its amount more may be withdrawn immediately. -/
def RaisesByAmount (s : State) (ovbid : Option Nat) (amount : Int) (seconds : Nat)
    (balanceType : VestingBalanceType) (owner : AccountId) : Prop :=
  ∃ r s', Returns (depositLazyVesting ovbid amount seconds balanceType owner false) s r s' ∧
    ∃ id free, (r = some id ∨ r = none ∧ ovbid = some id) ∧
      allowedAt s.objects.vestingBalances id s.ledger.headBlockTime = .ok free ∧
      allowedAt s'.objects.vestingBalances id s.ledger.headBlockTime = .ok (free + amount)

variable {t : Index VestingBalanceObject}

theorem allowedAt_of_find {now : Nat} {vbo : VestingBalanceObject} (h : t.find id = some vbo)
    {free : Asset} (hfree : vbo.getAllowedWithdraw now = .ok free) :
    allowedAt t id now = .ok free.amount := by
  unfold allowedAt
  rw [h]
  exact bind_eq_ok.mpr ⟨free, hfree, rfl⟩

theorem of_allowedAt {now : Nat} {vbo : VestingBalanceObject} (h : t.find id = some vbo)
    {free : Int} (hfree : allowedAt t id now = .ok free) :
    ∃ a, vbo.getAllowedWithdraw now = .ok a ∧ a.amount = free := by
  unfold allowedAt at hfree
  rw [h] at hfree
  obtain ⟨a, ha, hpure⟩ := of_bind hfree
  exact ⟨a, ha, Except.ok.inj hpure⟩

theorem initialCoinSeconds_vested {amount : Int} (hnonneg : 0 ≤ amount) (seconds : Nat) :
    initialCoinSeconds false amount seconds =
      if amount * seconds < 2 ^ 63 then .ok (amount.toNat * seconds) else .error .undefined := by
  have hproduct : 0 ≤ amount * seconds := Int.mul_nonneg hnonneg (by omega)
  have hcast : amount * seconds = (amount.toNat * seconds : Nat) := by
    rw [Nat.cast_mul, Int.toNat_of_nonneg hnonneg]
  by_cases hfits : amount * seconds < 2 ^ 63
  · have hfitted : product64 amount seconds = .ok (amount * seconds) :=
      if_pos ⟨by omega, hfits⟩
    rw [if_pos hfits]
    refine bind_eq_ok.mpr ⟨_, hfitted, ?_⟩
    rw [hcast, uint128_natCast (by omega)]
    rfl
  · have hundefined : product64 amount seconds = .error .undefined :=
      if_neg fun hand => hfits hand.2
    rw [if_neg hfits]
    show (product64 amount seconds >>= _) = _
    rw [hundefined]
    rfl

theorem allowed_created {amount : Int} {seconds now : Nat} (hnonneg : 0 ≤ amount)
    (hnow : 0 < now) :
    CddVestingPolicy.allowed ⟨seconds, amount.toNat * seconds, 0, now⟩ amount now =
      if seconds = 0 then 0 else amount := by
  unfold CddVestingPolicy.allowed CddVestingPolicy.earned CddVestingPolicy.divisor
  rw [if_neg (show ¬now ≤ 0 by omega)]
  simp only [Nat.sub_self, Nat.mul_zero, Nat.add_zero]
  split
  · rename_i hzero
    subst hzero
    simp
  · rename_i hne
    have hmax : max seconds 1 = seconds := Nat.max_eq_left (by omega)
    rw [hmax, Nat.min_self, Nat.mul_div_cancel _ (by omega)]
    omega

variable {ovbid : Option Nat} {amount : Int} {seconds : Nat} {owner : AccountId}

theorem raises_topUp (hs : SoundCdd c) (balanceType : VestingBalanceType)
    {vbo : VestingBalanceObject}
    (htarget : lazyTarget c.state.objects.vestingBalances ovbid seconds owner = .ok (some (id, vbo)))
    (hcore : ∀ id, ovbid = some id → CoreCdd c.state.objects.vestingBalances id)
    (hroom : Room c.state.objects ovbid amount seconds) (hpositive : 0 < amount)
    (hstart : ∀ p, vbo.policy = .cdd p → p.startClaim < c.state.ledger.headBlockTime) :
    RaisesByAmount c.state ovbid amount seconds balanceType owner ↔
      amount * (max seconds 1 : Nat) < 2 ^ 63 := by
  obtain ⟨href, hfound, p, hp, hseconds⟩ := of_lazyTarget htarget
  have hasset : core = vbo.balance.assetId := by
    obtain ⟨vbo', q, hfound', -, hasset⟩ := hcore id href
    rw [hfound] at hfound'
    cases hfound'
    exact hasset.symm
  have hsane := hs.sane id vbo p hfound hp
  have hreturns := getAllowedWithdraw_eq hp hsane hs.time
  have hnonneg : 0 ≤ (Asset.mk amount core).amount := hroom.nonneg
  have hexact := depositVested_exact hp hsane hs.time hasset hnonneg
    (hroom.sum id vbo href hfound) (hstart p hp)
  have hdivisor : p.divisor = max seconds 1 := by
    rw [← hseconds]
    rfl
  rw [hdivisor] at hexact
  rw [← hexact]
  have hstored : ∀ vbo', (c.state.objects.vestingBalances.modify id fun _ => vbo').find id =
      some vbo' := by
    intro vbo'
    rw [Index.find_modify, if_pos rfl, hfound]
    rfl
  constructor
  · rintro ⟨r, s', hlazy, id', free, hid', hbefore, hafter⟩
    rcases returns_depositLazyVesting.mp hlazy with ⟨hzero, -⟩ | ⟨-, hcases⟩
    · omega
    rcases hcases with ⟨id1, vbo1, vbo', htarget1, hdeposit, rfl, rfl⟩ | ⟨hnone, -⟩
    · rw [htarget] at htarget1
      cases htarget1
      have hid : id' = id := by
        rcases hid' with hr | ⟨-, hid'⟩
        · cases hr
        · rw [href] at hid'
          exact (Option.some.inj hid').symm
      rw [hid] at hbefore hafter
      obtain ⟨a, ha, hfree⟩ := of_allowedAt hfound hbefore
      rw [hreturns] at ha
      cases ha
      obtain ⟨a', ha', hfree'⟩ := of_allowedAt (hstored vbo') hafter
      refine ⟨vbo', hdeposit, ?_⟩
      -- the asset of the answer is that of the balance
      obtain ⟨policy, hpolicy, -, hvbo'⟩ := of_depositInto hdeposit
      obtain ⟨q, hq⟩ := (kind_of_depositInto hdeposit).1 p hp
      have hsane' := deposit_sane hp hsane hs.time hnonneg (hroom.sum id vbo href hfound) hdeposit hq
      have hreturns' := getAllowedWithdraw_eq hq hsane' hs.time
      rw [hreturns'] at ha'
      cases ha'
      have hasset' : vbo'.balance.assetId = vbo.balance.assetId := by rw [hvbo']
      dsimp only at hfree hfree'
      rw [hreturns', hfree', hasset']
      dsimp only
      rw [hfree]
    · rw [htarget] at hnone
      cases hnone
  · rintro ⟨vbo', hdeposit, hafter⟩
    refine ⟨none, _, returns_depositLazyVesting.mpr (.inr ⟨by omega, .inl
      ⟨id, vbo, vbo', htarget, hdeposit, rfl, rfl⟩⟩), id, _, .inr ⟨rfl, href⟩,
      allowedAt_of_find hfound hreturns, ?_⟩
    exact allowedAt_of_find (hstored vbo') hafter

theorem raises_created (hs : SoundCdd c) (balanceType : VestingBalanceType)
    (htarget : lazyTarget c.state.objects.vestingBalances ovbid seconds owner = .ok none)
    (hroom : Room c.state.objects ovbid amount seconds) (hpositive : 0 < amount)
    (hhead : 0 < c.state.ledger.headBlockTime) :
    RaisesByAmount c.state ovbid amount seconds balanceType owner ↔
      amount * (max seconds 1 : Nat) < 2 ^ 63 ∧ seconds ≠ 0 := by
  have hnonneg := hroom.nonneg
  have hle := hroom.le
  have hinitial := initialCoinSeconds_vested hroom.nonneg seconds
  have hafter : ∀ n, n = amount.toNat * seconds →
      allowedAt (c.state.objects.vestingBalances.create ⟨owner, ⟨amount, core⟩,
        .cdd ⟨seconds, n, 0, c.state.ledger.headBlockTime⟩, balanceType⟩)
        c.state.objects.vestingBalances.next c.state.ledger.headBlockTime =
        .ok (if seconds = 0 then 0 else amount) := by
    rintro n rfl
    have hsane : CddVestingPolicy.Sane
        ⟨seconds, amount.toNat * seconds, 0, c.state.ledger.headBlockTime⟩ amount
        c.state.ledger.headBlockTime :=
      sane_fresh hnonneg hle hroom.seconds (Nat.mul_le_mul_left _ (Nat.le_max_left ..))
    rw [← allowed_created hnonneg hhead]
    have hcreated := Index.find_create c.state.objects.vestingBalances ⟨owner, ⟨amount, core⟩,
      .cdd ⟨seconds, amount.toNat * seconds, 0, c.state.ledger.headBlockTime⟩, balanceType⟩
      c.state.objects.vestingBalances.next
    rw [if_pos rfl] at hcreated
    exact allowedAt_of_find hcreated (getAllowedWithdraw_eq rfl hsane hs.time)
  have hbefore : allowedAt c.state.objects.vestingBalances c.state.objects.vestingBalances.next
      c.state.ledger.headBlockTime = .ok 0 := by
    unfold allowedAt
    rw [Index.find_next]
  constructor
  · rintro ⟨r, s', hlazy, id', free, hid', hbefore', hafter'⟩
    rcases returns_depositLazyVesting.mp hlazy with ⟨hzero, -⟩ | ⟨-, hcases⟩
    · omega
    rcases hcases with ⟨id1, vbo1, vbo', htarget1, -⟩ | ⟨-, n, hn, rfl, rfl⟩
    · rw [htarget] at htarget1
      cases htarget1
    · have hid : id' = c.state.objects.vestingBalances.next := by
        rcases hid' with hid' | ⟨hr, -⟩
        · exact (Option.some.inj hid').symm
        · cases hr
      rw [hid, hbefore] at hbefore'
      cases hbefore'
      rw [hinitial] at hn
      split at hn
      · rename_i hfits
        cases hn
        have hsame := (hafter _ rfl).symm.trans (hid ▸ hafter')
        have hne : seconds ≠ 0 := by
          intro hzero
          rw [if_pos hzero] at hsame
          have := Except.ok.inj hsame
          omega
        rw [Nat.max_eq_left (show 1 ≤ seconds by omega)]
        exact ⟨hfits, hne⟩
      · cases hn
  · rintro ⟨hfits, hne⟩
    rw [Nat.max_eq_left (show 1 ≤ seconds by omega)] at hfits
    rw [if_pos hfits] at hinitial
    refine ⟨_, _, returns_depositLazyVesting.mpr (.inr ⟨by omega, .inr
      ⟨htarget, _, hinitial, rfl, rfl⟩⟩), _, 0, .inl rfl, hbefore, ?_⟩
    rw [zero_add]
    have := hafter _ rfl
    rw [if_neg hne] at this
    exact this

/-- Where the chain deposits vested cashback or the pay of a witness -/
def Referenced (x : Objects) (ovbid : Option Nat) : Prop :=
  (∃ acct, ovbid = x.cashbackVb.lookup acct) ∨ ∃ wit, ovbid = x.payVb.lookup wit

theorem Referenced.coreCdd {x : Objects} (h : References x) (hovbid : Referenced x ovbid) :
    ∀ id, ovbid = some id → CoreCdd x.vestingBalances id := by
  intro id hid
  rcases hovbid with ⟨acct, rfl⟩ | ⟨wit, rfl⟩
  · exact h.cashback acct id hid
  · exact h.pay wit id hid

/-- What a vested deposit of the chain needs in order to be exact: a product of 64 bits, and a period
that is not empty where the balance is created -/
def VestsExactly (t : Index VestingBalanceObject) (ovbid : Option Nat) (amount : Int)
    (seconds : Nat) (owner : AccountId) : Prop :=
  amount * (max seconds 1 : Nat) < 2 ^ 63 ∧
    (lazyTarget t ovbid seconds owner = .ok none → seconds ≠ 0)

/-- In every run whose amounts are in range, the seconds of a balance are at most those of its
period, a part of it may be withdrawn and can be, and a vested deposit raises that by just its
amount if and only if its product fits 64 bits and it finds a balance or a period. -/
theorem coin_days_exact {keyOwns : KeyOwns}
    (h : Reachable (step keyOwns) NoneVesting InRange c) :
    (∀ id vbo p, c.state.objects.vestingBalances.find id = some vbo → vbo.policy = .cdd p →
      (p.coinSecondsEarned : Int) ≤ vbo.balance.amount * p.divisor ∧
      ∀ now, c.state.ledger.headBlockTime ≤ now → now < 2 ^ 32 → ∃ free, Exact vbo p now free) ∧
    ∀ ovbid amount seconds balanceType owner, Referenced c.state.objects ovbid →
      Room c.state.objects ovbid amount seconds → 0 < amount → 0 < c.state.ledger.headBlockTime →
      (∀ id vbo p, ovbid = some id → c.state.objects.vestingBalances.find id = some vbo →
        vbo.policy = .cdd p → p.startClaim < c.state.ledger.headBlockTime) →
      (RaisesByAmount c.state ovbid amount seconds balanceType owner ↔
        VestsExactly c.state.objects.vestingBalances ovbid amount seconds owner) := by
  have hsound := soundCdd_of_reachable h
  constructor
  · intro id vbo p hfound hp
    have hsane := hsound.sane id vbo p hfound hp
    have hnonneg := hsane.nonneg
    have hearned := hsane.earned
    constructor
    · calc (p.coinSecondsEarned : Int) ≤ (vbo.balance.amount.toNat * p.divisor : Nat) := by
            exact_mod_cast hearned
        _ = vbo.balance.amount * p.divisor := by rw [Nat.cast_mul, Int.toNat_of_nonneg hnonneg]
    · intro now hle htime
      exact ⟨_, exact_of_sane hp (hsane.later hle) htime⟩
  · intro ovbid amount seconds balanceType owner hovbid hroom hpositive hhead hstart
    have hcore := hovbid.coreCdd hsound.references
    cases htarget : lazyTarget c.state.objects.vestingBalances ovbid seconds owner with
    | error e =>
      -- a reference leads to a balance that exists
      exfalso
      unfold lazyTarget at htarget
      split at htarget
      · cases htarget
      · rename_i id
        obtain ⟨vbo, p, hfound, hp, -⟩ := hcore id rfl
        rw [hfound] at htarget
        dsimp only at htarget
        rw [hp] at htarget
        dsimp only at htarget
        split at htarget
        · cases htarget
        · cases htarget
    | ok target =>
      cases target with
      | some found =>
        obtain ⟨href, hfound, -⟩ := of_lazyTarget htarget
        have hraises := raises_topUp hsound balanceType htarget hcore hroom hpositive
          fun p hp => hstart found.1 found.2 p href hfound hp
        rw [hraises]
        unfold VestsExactly
        rw [htarget]
        exact (and_iff_left nofun).symm
      | none =>
        have hraises := raises_created hsound balanceType htarget hroom hpositive hhead
        rw [hraises]
        unfold VestsExactly
        rw [htarget]
        exact and_congr_right fun _ => ⟨fun hne _ => hne, fun hall => hall rfl⟩

def instantChain : Chain where
  state :=
    { ledger := { headBlockTime := 1600000000 }
      objects := { cashbackVestingPeriodSeconds := 0, witnessPayVestingSeconds := 86400 } }

def addressIsKey : KeyOwns := fun key owner => key = owner

theorem instantChain_noneVesting : NoneVesting instantChain := ⟨rfl, rfl, rfl, rfl, by decide⟩

instance (x : Objects) (ovbid : Option Nat) (amount : Int) (seconds : Nat) :
    Decidable (Room x ovbid amount seconds) :=
  decidable_of_iff (0 ≤ amount ∧ amount ≤ maxShareSupply ∧ seconds < 2 ^ 32 ∧
      ∀ vbo ∈ ovbid.bind x.vestingBalances.find, vbo.balance.amount + amount ≤ maxShareSupply)
    ⟨fun ⟨hnonneg, hle, hseconds, hsum⟩ => ⟨hnonneg, hle, hseconds, fun _ vbo hid hvbo =>
        hsum vbo (hid ▸ hvbo)⟩,
      fun h => ⟨h.nonneg, h.le, h.seconds, fun vbo hvbo =>
        (Option.bind_eq_some_iff.mp hvbo).elim fun _ hid => h.sum _ vbo hid.1 hid.2⟩⟩

instance : ∀ i : VestingPolicyInitializer, Decidable i.Fits
  | .cdd _ _ => inferInstanceAs (Decidable (_ < _))
  | .linear _ _ _ | .instant => inferInstanceAs (Decidable True)

instance (c : Chain) : ∀ e, Decidable (InRange c e)
  | .create _ _ op => inferInstanceAs (Decidable (_ ∧ op.policy.Fits))
  | .cashback _ _ _ | .witnessPay _ _ _ | .workerPay _ _ => inferInstanceAs (Decidable (Room _ _ _ _))
  | .withdraw _ _ _ | .claim _ _ | .worker _ _ | .marketFee _ _ | .block _ | .elsewhere _ _ _ =>
    inferInstanceAs (Decidable True)

def VestingPolicy.startsBefore (now : Nat) : VestingPolicy → Bool
  | .cdd p => p.startClaim < now
  | .linear _ | .instant => false

def dayChain : Chain where
  state :=
    { ledger :=
        { headBlockTime := 1600000000
          accounts := ⟨(∅ : Lib.Rows Nat AccountObject).insert 7 { registrar := 0, referrer := 0 }, 8,
            by decide +kernel⟩
          assets := Index.create ∅ { issuer := 0, options := { coreExchangeRate := Price.null } } }
      objects := { cashbackVestingPeriodSeconds := 86400, witnessPayVestingSeconds := 86400 } }

/-- Two deposits half a day apart, and a withdrawal of most of what is free then -/
def dayEvents : List Event :=
  [.cashback 7 100 true, .block 1600043200, .cashback 7 60 false,
    .withdraw {} 0 ⟨⟨0, core⟩, 0, 7, ⟨90, core⟩⟩, .block 1600050000]

theorem coin_days_exact_day :
    ∃ c, Reachable (step addressIsKey) NoneVesting InRange c ∧
      allowedAt c.state.objects.vestingBalances 0 1600050000 = .ok 25 ∧
      RaisesByAmount c.state (some 0) 30 86400 .cashback 7 := by
  obtain ⟨c, hreach, hallowed, htime, hcashback, hroom, hstart⟩ :
      ∃ c, Reachable (step addressIsKey) NoneVesting InRange c ∧
        allowedAt c.state.objects.vestingBalances 0 1600050000 = .ok 25 ∧
        0 < c.state.ledger.headBlockTime ∧ some 0 = c.state.objects.cashbackVb.lookup 7 ∧
        Room c.state.objects (some 0) 30 86400 ∧
        (c.state.objects.vestingBalances.find 0).all
          (fun vbo => vbo.policy.startsBefore c.state.ledger.headBlockTime) :=
    Reachable.of_run dayEvents (s := dayChain) ⟨rfl, rfl, rfl, rfl, by decide⟩ (by decide +kernel)
      (by decide +kernel)
  have hexact := (coin_days_exact hreach).2 (some 0) 30 86400 .cashback 7
  refine ⟨c, hreach, hallowed, (hexact (.inl ⟨7, hcashback⟩) hroom (by decide) htime ?_).mpr
    ⟨by decide, fun _ => by decide⟩⟩
  rintro id vbo p ⟨⟩ hfound hp
  rw [hfound, Option.all_some, hp] at hstart
  exact of_decide_eq_true hstart

/-- The first cashback may be withdrawn a second later only, although nothing has to vest. -/
theorem first_cashback_waits :
    NoneVesting instantChain ∧ InRange instantChain (.cashback 7 100 false) ∧
      Lib.Succeeds (step addressIsKey instantChain (.cashback 7 100 false)) (fun c =>
        allowedAt c.state.objects.vestingBalances 0 1600000000 = .ok 0 ∧
        allowedAt c.state.objects.vestingBalances 0 1600000001 = .ok 100) ∧
      ¬RaisesByAmount instantChain.state none 100 0 .cashback 7 := by
  have hroom : Room instantChain.state.objects none 100 0 :=
    ⟨by decide, by decide, by decide, nofun⟩
  refine ⟨instantChain_noneVesting, hroom, by decide +kernel, ?_⟩
  have htarget : lazyTarget instantChain.state.objects.vestingBalances none 0 7 = .ok none := rfl
  have hcreated := raises_created instantChain_noneVesting.soundCdd .cashback htarget hroom
    (by decide) (by decide)
  rw [hcreated]
  exact fun hexact => hexact.2 rfl

end Meta1Core.Vesting
