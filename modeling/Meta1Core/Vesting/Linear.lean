import Meta1Core.Vesting.Steps

/-!
# Linear vesting

What was withdrawn from a balance is what is missing from its begin balance, and at most as much is
missing as has vested.
-/

namespace Meta1Core.Vesting

open Lib (Index Returns Reachable bind_eq_ok of_bind)
open Protocol Ledger

namespace LinearVestingPolicy

variable {p : LinearVestingPolicy} {balance : Int} {now : Nat}

/-- What has vested at a time: nothing before the cliff, and everything when the duration is over -/
def vested (p : LinearVestingPolicy) (time : Nat) : Int :=
  if time < p.beginTimestamp + p.vestingCliffSeconds then 0
  else if p.beginTimestamp + p.vestingDurationSeconds ≤ time then p.beginBalance
  else p.beginBalance * (time - p.beginTimestamp) / p.vestingDurationSeconds

def Started (p : LinearVestingPolicy) (time : Nat) : Prop :=
  p.beginTimestamp < time ∧ p.beginTimestamp + p.vestingCliffSeconds ≤ time

instance (p : LinearVestingPolicy) (time : Nat) : Decidable (p.Started time) :=
  inferInstanceAs (Decidable (_ ∧ _))

theorem part_nonneg_le {b e d : Int} (hb : 0 ≤ b) (he : 0 ≤ e) (hd : e < d) :
    0 ≤ b * e / d ∧ b * e / d ≤ b := by
  constructor
  · exact Int.ediv_nonneg (Int.mul_nonneg hb he) (by omega)
  · apply Int.ediv_le_of_le_mul (by omega)
    exact Int.mul_le_mul_of_nonneg_left (by omega) hb

theorem vested_nonneg (hb : 0 ≤ p.beginBalance) (time : Nat) : 0 ≤ p.vested time := by
  unfold vested
  split
  · exact Int.le_refl 0
  split
  · exact hb
  · exact (part_nonneg_le hb (by omega) (by omega)).1

theorem vested_le (hb : 0 ≤ p.beginBalance) (time : Nat) : p.vested time ≤ p.beginBalance := by
  unfold vested
  split
  · exact hb
  split
  · exact Int.le_refl _
  · exact (part_nonneg_le hb (by omega) (by omega)).2

theorem vested_mono (hb : 0 ≤ p.beginBalance) {time time' : Nat} (h : time ≤ time') :
    p.vested time ≤ p.vested time' := by
  by_cases hcliff : time < p.beginTimestamp + p.vestingCliffSeconds
  · rw [vested, if_pos hcliff]
    exact vested_nonneg hb time'
  by_cases hover : p.beginTimestamp + p.vestingDurationSeconds ≤ time'
  · rw [vested.eq_def p time', if_neg (by omega), if_pos hover]
    exact vested_le hb time
  · rw [vested, vested, if_neg hcliff, if_neg (by omega), if_neg (by omega), if_neg hover]
    apply Int.ediv_le_ediv (by omega)
    exact Int.mul_le_mul_of_nonneg_left (by omega) hb

theorem totalVested_eq (hb : 0 ≤ p.beginBalance) (hb' : p.beginBalance < 2 ^ 63)
    (htime : now < 2 ^ 32) (h : p.Started now) :
    p.totalVested (now - p.beginTimestamp) = p.vested now := by
  obtain ⟨hbegin, hcliff⟩ := h
  unfold totalVested vested
  rw [if_neg (show ¬now < p.beginTimestamp + p.vestingCliffSeconds by omega)]
  by_cases hduration : now - p.beginTimestamp < p.vestingDurationSeconds
  · rw [if_pos hduration, if_neg (by omega)]
    have hbalance : (uint128 p.beginBalance : Int) = p.beginBalance :=
      uint128_of_nonneg hb (by omega)
    have helapsed : ((now - p.beginTimestamp : Nat) : Int) = now - p.beginTimestamp := by omega
    have hle : p.beginBalance * (now - p.beginTimestamp : Nat) ≤ 2 ^ 63 * 2 ^ 32 :=
      Int.mul_le_mul (by omega) (by omega) (by omega) (by omega)
    have hpart := part_nonneg_le hb (Int.natCast_nonneg (now - p.beginTimestamp))
      (d := p.vestingDurationSeconds) (by omega)
    have hproduct : (uint128 (uint128 p.beginBalance * (now - p.beginTimestamp : Nat)) : Int) =
        p.beginBalance * (now - p.beginTimestamp : Nat) := by
      rw [hbalance]
      apply uint128_of_nonneg (Int.mul_nonneg hb (by omega)) (by omega)
    have hquotient : ((uint128 (uint128 p.beginBalance * (now - p.beginTimestamp : Nat)) /
        p.vestingDurationSeconds : Nat) : Int) =
        p.beginBalance * (now - p.beginTimestamp : Nat) / p.vestingDurationSeconds := by
      rw [Int.natCast_ediv, hproduct]
    rw [Nat.mod_eq_of_lt (by omega), int64Cast_of_lt (by omega), hquotient, helapsed]
  · rw [if_neg hduration, if_pos (by omega)]

def allowed (p : LinearVestingPolicy) (balance : Int) (now : Nat) : Int :=
  if p.Started now then p.vested now - (p.beginBalance - balance) else 0

/-- The balance is a part of the begin balance, and what is missing has vested as soon as something
may be withdrawn. -/
structure Covers (p : LinearVestingPolicy) (balance : Int) (now : Nat) : Prop where
  nonneg : 0 ≤ balance
  le : balance ≤ p.beginBalance
  fits : p.beginBalance < 2 ^ 63
  missing : ∀ time, now ≤ time → p.Started time → p.beginBalance - balance ≤ p.vested time

theorem Covers.later {now' : Nat} (h : p.Covers balance now) (hle : now ≤ now') :
    p.Covers balance now' :=
  ⟨h.nonneg, h.le, h.fits, fun time htime hstarted =>
    h.missing time (Nat.le_trans hle htime) hstarted⟩

theorem Covers.allowed_nonneg_le (h : p.Covers balance now) :
    0 ≤ p.allowed balance now ∧ p.allowed balance now ≤ balance := by
  have hnonneg := h.nonneg
  have hle := h.le
  unfold allowed
  split
  · rename_i hstarted
    have hmissing := h.missing now (Nat.le_refl _) hstarted
    have hvested := vested_le (p := p) (by omega) now
    omega
  · omega

theorem Covers.getAllowedWithdraw (h : p.Covers balance now) (htime : now < 2 ^ 32)
    (id : AssetId) (amount : Asset) :
    p.getAllowedWithdraw ⟨⟨balance, id⟩, now, amount⟩ = .ok ⟨p.allowed balance now, id⟩ := by
  have hnonneg := h.nonneg
  have hle := h.le
  have hfits := h.fits
  unfold LinearVestingPolicy.getAllowedWithdraw allowed
  by_cases hbegin : now ≤ p.beginTimestamp
  · rw [if_pos hbegin, if_neg (fun hstarted => by have := hstarted.1; omega)]
    rfl
  rw [if_neg hbegin]
  by_cases hcliff : now - p.beginTimestamp < p.vestingCliffSeconds
  · dsimp only
    rw [if_pos hcliff, if_neg (fun hstarted => by have := hstarted.2; omega)]
    rfl
  have hstarted : p.Started now := ⟨by omega, by omega⟩
  have hmissing := h.missing now (Nat.le_refl _) hstarted
  have hvested := vested_le (p := p) (by omega) now
  have hvested0 := vested_nonneg (p := p) (by omega) now
  dsimp only
  rw [if_neg hcliff, if_pos hstarted, totalVested_eq (by omega) hfits htime hstarted]
  apply cAssert_bind_eq_ok.mpr
  refine ⟨hvested0, bind_eq_ok.mpr ⟨_, safe_eq_ok.mpr ⟨rfl, by omega, by omega⟩, ?_⟩⟩
  apply cAssert_bind_eq_ok.mpr
  refine ⟨by omega, bind_eq_ok.mpr ⟨_, safe_eq_ok.mpr ⟨rfl, by omega, by omega⟩, ?_⟩⟩
  apply cAssert_bind_eq_ok.mpr
  exact ⟨by omega, rfl⟩

variable {id : AssetId} {amount : Asset}

theorem Covers.isWithdrawAllowed (h : p.Covers balance now) (htime : now < 2 ^ 32)
    (hasset : amount.assetId = id) : p.isWithdrawAllowed ⟨⟨balance, id⟩, now, amount⟩ =
      .ok (decide (amount.amount ≤ p.allowed balance now)) := by
  unfold LinearVestingPolicy.isWithdrawAllowed
  rw [if_neg (not_not.mpr hasset), h.getAllowedWithdraw htime]
  exact Asset.le_eq hasset

theorem Covers.le_allowed (h : p.Covers balance now) (htime : now < 2 ^ 32)
    (hallowed : p.isWithdrawAllowed ⟨⟨balance, id⟩, now, amount⟩ = .ok true) :
    amount.amount ≤ p.allowed balance now := by
  by_cases hasset : amount.assetId = id
  · rw [h.isWithdrawAllowed htime hasset] at hallowed
    exact of_decide_eq_true (Except.ok.inj hallowed)
  · unfold LinearVestingPolicy.isWithdrawAllowed at hallowed
    rw [if_pos hasset] at hallowed
    cases hallowed

end LinearVestingPolicy

def withdrawn (source : Source) (time : Nat) (history : List Withdrawal) : Int :=
  Lib.total (fun w => if w.source = source ∧ w.time ≤ time then w.amount else 0) history

def withdrawnInAll (source : Source) (history : List Withdrawal) : Int :=
  Lib.total (fun w => if w.source = source then w.amount else 0) history

section History

variable {source : Source} {time : Nat} {history : List Withdrawal} {w : Withdrawal}

theorem withdrawn_concat :
    withdrawn source time (history ++ [w]) = withdrawn source time history +
      if w.source = source ∧ w.time ≤ time then w.amount else 0 := by
  simp [withdrawn]

theorem withdrawnInAll_concat :
    withdrawnInAll source (history ++ [w]) = withdrawnInAll source history +
      if w.source = source then w.amount else 0 := by
  simp [withdrawnInAll]

theorem withdrawn_of_past (h : ∀ w ∈ history, w.time ≤ time) :
    withdrawn source time history = withdrawnInAll source history := by
  apply Lib.total_congr
  intro w hw
  simp only [h w hw, and_true]

theorem withdrawn_eq_zero (h : ∀ w ∈ history, w.source ≠ source) :
    withdrawn source time history = 0 :=
  Lib.total_eq_zero fun w hw => if_neg fun hand => h w hw hand.1

theorem withdrawnInAll_eq_zero (h : ∀ w ∈ history, w.source ≠ source) :
    withdrawnInAll source history = 0 :=
  Lib.total_eq_zero fun w hw => if_neg (h w hw)

end History

structure Kept (p : LinearVestingPolicy) (source : Source) (start balance : Int)
    (history : List Withdrawal) (now : Nat) : Prop where
  covers : p.Covers balance now
  start_le : start ≤ p.beginBalance
  total : withdrawnInAll source history = start - balance
  early : ∀ time, withdrawn source time history ≤ p.vested time

namespace Kept

variable {p : LinearVestingPolicy} {source : Source} {start balance : Int}
  {history : List Withdrawal} {now : Nat}

theorem fresh (hcovers : p.Covers balance now) (hnone : ∀ w ∈ history, w.source ≠ source) :
    Kept p source balance balance history now := by
  have hnonneg := hcovers.nonneg
  have hle := hcovers.le
  constructor
  case covers => exact hcovers
  case start_le => exact hle
  case total =>
    rw [withdrawnInAll_eq_zero hnone]
    omega
  case early =>
    intro time
    rw [withdrawn_eq_zero hnone]
    exact LinearVestingPolicy.vested_nonneg (by omega) time

theorem later {now' : Nat} (h : Kept p source start balance history now) (hle : now ≤ now') :
    Kept p source start balance history now' :=
  ⟨h.covers.later hle, h.start_le, h.total, h.early⟩

theorem other (h : Kept p source start balance history now) {w : Withdrawal}
    (hw : w.source ≠ source) : Kept p source start balance (history ++ [w]) now := by
  constructor
  case covers => exact h.covers
  case start_le => exact h.start_le
  case total => rw [withdrawnInAll_concat, if_neg hw, add_zero, h.total]
  case early =>
    intro time
    rw [withdrawn_concat, if_neg fun hand => hw hand.1, add_zero]
    exact h.early time

theorem withdraw (h : Kept p source start balance history now) {amount : Int}
    (hpast : ∀ w ∈ history, w.time ≤ now) (hnonneg : 0 ≤ amount)
    (hallowed : amount ≤ p.allowed balance now) :
    Kept p source start (balance - amount) (history ++ [⟨source, now, amount⟩]) now := by
  have hle := h.covers.le
  have hbalance := h.covers.nonneg
  have hstart := h.start_le
  have hcovered := h.covers.allowed_nonneg_le.2
  have htotal := h.total
  -- either nothing is withdrawn, or what is missing now has vested
  have hmissing : amount = 0 ∨ p.beginBalance - (balance - amount) ≤ p.vested now := by
    unfold LinearVestingPolicy.allowed at hallowed
    split at hallowed
    · right
      omega
    · left
      omega
  constructor
  case covers =>
    constructor
    case nonneg => omega
    case le => omega
    case fits => exact h.covers.fits
    case missing =>
      intro time htime hstarted
      rcases hmissing with hzero | hmissing
      · have := h.covers.missing time htime hstarted
        omega
      · have := LinearVestingPolicy.vested_mono (p := p) (by omega) htime
        omega
  case start_le => exact hstart
  case total =>
    rw [withdrawnInAll_concat, if_pos rfl, htotal]
    show start - balance + amount = start - (balance - amount)
    omega
  case early =>
    intro time
    rw [withdrawn_concat]
    have hearly := h.early time
    split
    · rename_i hand
      dsimp only at hand ⊢
      rcases hmissing with hzero | hmissing
      · omega
      · -- by now all of the history counts
        have hall : withdrawn source time history = withdrawnInAll source history :=
          withdrawn_of_past fun w hw => Nat.le_trans (hpast w hw) hand.2
        have := LinearVestingPolicy.vested_mono (p := p) (by omega) hand.2
        omega
    · omega

end Kept

/-- `init_genesis`: a balance that vests has at most its begin balance, and what is missing has
vested. -/
structure Initial (c : Chain) : Prop extends NoneVesting c where
  history : c.history = []
  balances : ∀ id b p, c.state.objects.balances.find id = some b → b.vestingPolicy = some p →
    p.Covers b.balance.amount c.state.ledger.headBlockTime

/-- No claim is negative; the amount of a new balance is an `int64_t`. -/
def ClaimsNonneg (_ : Chain) : Event → Prop
  | .claim _ op => 0 ≤ op.totalClaimed.amount
  | .create _ _ op => op.amount.amount < 2 ^ 63
  | _ => True

structure Sound (c0 c : Chain) : Prop where
  time : c.state.ledger.headBlockTime < 2 ^ 32
  past : ∀ w ∈ c.history, w.time ≤ c.state.ledger.headBlockTime
  below : ∀ w ∈ c.history, ∀ id, w.source = .vestingBalance id →
    id < c.state.objects.vestingBalances.next
  references : References c.state.objects
  linear : ∀ id vbo p, c.state.objects.vestingBalances.find id = some vbo →
    vbo.policy = .linear p →
    Kept p (.vestingBalance id) p.beginBalance vbo.balance.amount c.history
      c.state.ledger.headBlockTime
  origin : ∀ id b, c.state.objects.balances.find id = some b →
    ∃ b0, c0.state.objects.balances.find id = some b0 ∧ b0.vestingPolicy = b.vestingPolicy
  genesis : ∀ id b p, c.state.objects.balances.find id = some b → b.vestingPolicy = some p →
    ∃ start, Kept p (.genesisBalance id) start b.balance.amount c.history
      c.state.ledger.headBlockTime
  claimed : ∀ id b0 p, c0.state.objects.balances.find id = some b0 → b0.vestingPolicy = some p →
    ∀ time, withdrawn (.genesisBalance id) time c.history ≤ p.vested time

variable {c0 c c' : Chain}

theorem Initial.sound (h : Initial c) : Sound c c := by
  have hnone : ∀ source, ∀ w ∈ c.history, w.source ≠ source := by
    intro source w hw
    rw [h.history] at hw
    cases hw
  constructor
  case time => exact h.time
  case past => simp [h.history]
  case below => simp [h.history]
  case references => exact h.references
  case linear =>
    intro id vbo p hfound
    rw [h.vestingBalances] at hfound
    cases hfound
  case origin => exact fun id b hfound => ⟨b, hfound, rfl⟩
  case genesis =>
    intro id b p hfound hpolicy
    exact ⟨_, Kept.fresh (h.balances id b p hfound hpolicy) (hnone _)⟩
  case claimed =>
    intro id b0 p hfound hpolicy
    exact (Kept.fresh (h.balances id b0 p hfound hpolicy) (hnone _)).early

variable {e : Event} {vbo : VestingBalanceObject}

theorem Fresh.linear {x : Objects} {now : Nat} (h : Fresh x now e vbo) (hcond : ClaimsNonneg c e)
    {p : LinearVestingPolicy} (hp : vbo.policy = .linear p) :
    0 ≤ p.beginBalance ∧ p.beginBalance < 2 ^ 63 ∧ vbo.balance.amount = p.beginBalance := by
  cases h with
  | create ctx requiredFee op hpositive =>
    dsimp only at hp
    cases hpolicy : op.policy with
    | linear beginTimestamp cliff duration =>
      rw [hpolicy] at hp
      cases hp
      exact ⟨Int.le_of_lt hpositive, hcond, rfl⟩
    | cdd startClaim seconds =>
      rw [hpolicy] at hp
      cases hp
    | instant =>
      rw [hpolicy] at hp
      cases hp
  | cashback => cases hp
  | witnessPay => cases hp
  | worker => cases hp
  | marketFee => cases hp

theorem Sound.other (h : Sound c0 c) (hcond : ClaimsNonneg c e) (hhistory : c'.history = c.history)
    (hother : Other c.state c'.state e) : Sound c0 c' := by
  have hlater := hother.later
  -- an object that was there before is kept, and a new one is fresh
  have hkept : ∀ id vbo p, c.state.objects.vestingBalances.find id = some vbo →
      vbo.policy = .linear p → Kept p (.vestingBalance id) p.beginBalance vbo.balance.amount
        c'.history c'.state.ledger.headBlockTime := by
    intro id vbo p hfound hp
    rw [hhistory]
    exact (h.linear id vbo p hfound hp).later hlater
  constructor
  case time => exact hother.fits h.time
  case past =>
    intro w hw
    rw [hhistory] at hw
    exact Nat.le_trans (h.past w hw) hlater
  case below =>
    intro w hw id hsource
    rw [hhistory] at hw
    have hid := h.below w hw id hsource
    have hvesting := hother.vesting
    generalize c'.state.objects.vestingBalances = t at hvesting ⊢
    cases hvesting with
    | same => exact hid
    | created vbo _ => exact Nat.lt_succ_of_lt hid
    | deposited id' requireVesting amount vbo vbo' _ _ _ => exact hid
  case references => exact hother.references h.references
  case linear =>
    intro id vbo p hfound hp
    have hvesting := hother.vesting
    generalize c'.state.objects.vestingBalances = t at hvesting hfound
    cases hvesting with
    | same => exact hkept id vbo p hfound hp
    | created new hfresh =>
      rw [Index.find_create] at hfound
      split at hfound
      · rename_i hid
        cases hfound
        obtain ⟨hnonneg, hfits, hall⟩ := hfresh.linear hcond hp
        rw [hall]
        apply Kept.fresh
        · refine ⟨hnonneg, Int.le_refl _, hfits, ?_⟩
          intro time _ _
          rw [sub_self]
          exact LinearVestingPolicy.vested_nonneg hnonneg time
        · intro w hw hsource
          rw [hhistory] at hw
          have := h.below w hw id hsource
          omega
      · exact hkept id vbo p hfound hp
    | deposited id' requireVesting amount old new hdeposits hold hdeposit =>
      rw [Index.find_modify, hold] at hfound
      split at hfound
      · -- nothing is deposited into a balance that vests linearly
        cases hfound
        have hkind := kind_of_depositInto hdeposit
        rcases h.references.of_deposits hdeposits hold with ⟨q, hq⟩ | hinstant
        · obtain ⟨q', hq'⟩ := hkind.1 q hq
          rw [hq'] at hp
          cases hp
        · rw [hkind.2.1 hinstant] at hp
          cases hp
      · exact hkept id vbo p hfound hp
  case origin =>
    rw [hother.balances]
    exact h.origin
  case genesis =>
    intro id b p hfound hp
    rw [hother.balances] at hfound
    obtain ⟨start, hstart⟩ := h.genesis id b p hfound hp
    rw [hhistory]
    exact ⟨start, hstart.later hlater⟩
  case claimed =>
    rw [hhistory]
    exact h.claimed

theorem Sound.withdraw {op : WithdrawOperation} {vbo' : VestingBalanceObject} (h : Sound c0 c)
    (hw : Withdrew c c' op vbo vbo') : Sound c0 c' := by
  obtain ⟨policy, hpolicy, -, rfl⟩ := of_withdraw hw.withdraw
  have hvesting : c'.state.objects.vestingBalances = c.state.objects.vestingBalances.modify
      op.vestingBalance fun _ => { vbo with
        policy := policy
        balance := ⟨vbo.balance.amount - op.amount.amount, vbo.balance.assetId⟩ } := by
    rw [hw.objects]
    rfl
  have hbalances : c'.state.objects.balances = c.state.objects.balances := by
    rw [hw.objects]
    rfl
  constructor
  case time => rw [hw.time]; exact h.time
  case past =>
    intro w hmem
    rw [hw.history] at hmem
    rw [hw.time]
    rcases List.mem_append.mp hmem with hmem | hmem
    · exact h.past w hmem
    · rw [List.mem_singleton.mp hmem]
  case below =>
    intro w hmem id hsource
    rw [hw.history] at hmem
    rw [hvesting]
    show id < c.state.objects.vestingBalances.next
    rcases List.mem_append.mp hmem with hmem | hmem
    · exact h.below w hmem id hsource
    · rw [List.mem_singleton.mp hmem] at hsource
      cases hsource
      exact Index.lt_next hw.found
  case references =>
    rw [hw.objects]
    exact h.references.withdraw hw.found hw.withdraw
  case linear =>
    intro id vbo1 p hfound hp
    rw [hvesting, Index.find_modify, hw.found] at hfound
    rw [hw.history, hw.time]
    split at hfound
    · rename_i hid
      subst hid
      cases hfound
      -- the policy does not change with a withdrawal
      have hlinear : vbo.policy = .linear p := by
        replace hp : policy = .linear p := hp
        rw [hp] at hpolicy
        cases hkind : vbo.policy with
        | linear q =>
          rw [hkind] at hpolicy
          cases hpolicy
          rfl
        | cdd q =>
          rw [hkind] at hpolicy
          obtain ⟨q', -, hpolicy⟩ := of_bind hpolicy
          cases hpolicy
        | instant =>
          rw [hkind] at hpolicy
          cases hpolicy
      have hkept := h.linear _ vbo p hw.found hlinear
      apply hkept.withdraw h.past (Int.le_of_lt hw.positive)
      have hallowed := of_isWithdrawAllowed hw.allowed
      rw [hlinear] at hallowed
      exact hkept.covers.le_allowed h.time hallowed
    · rename_i hid
      refine (h.linear id vbo1 p hfound hp).other ?_
      intro hsource
      cases hsource
      exact hid rfl
  case origin =>
    rw [hbalances]
    exact h.origin
  case genesis =>
    intro id b p hfound hp
    rw [hbalances] at hfound
    obtain ⟨start, hstart⟩ := h.genesis id b p hfound hp
    rw [hw.history, hw.time]
    exact ⟨start, hstart.other nofun⟩
  case claimed =>
    intro id b0 p hfound hp time
    rw [hw.history, withdrawn_concat, if_neg (fun hand => nomatch hand.1), add_zero]
    exact h.claimed id b0 p hfound hp time

variable {op : BalanceClaimOperation} {b : BalanceObject}

theorem BalanceClaimOperation.of_checkAmount {now : Nat} {p : LinearVestingPolicy}
    (hp : b.vestingPolicy = some p) (h : op.checkAmount now b = .ok ()) :
    p.isWithdrawAllowed ⟨b.balance, now, op.totalClaimed⟩ = .ok true := by
  obtain ⟨-, hchecked⟩ := of_fcAssert h
  rw [hp] at hchecked
  obtain ⟨allowed, hallowed, hrest⟩ := of_bind hchecked
  obtain ⟨htrue, -⟩ := of_fcAssert hrest
  rw [hallowed, htrue]

theorem Sound.claim {rest : Bool} {amount : Asset} (h : Sound c0 c)
    (hnonneg : 0 ≤ op.totalClaimed.amount) (hclaimed : Claimed c c' op b rest amount) :
    Sound c0 c' := by
  have hvesting : c'.state.objects.vestingBalances = c.state.objects.vestingBalances := by
    rw [hclaimed.objects]
    rfl
  have hfind : ∀ id, c'.state.objects.balances.find id =
      if id = op.balanceToClaim then
        if rest then some { b with
          balance := amount
          lastClaimDate := c.state.ledger.headBlockTime } else none
      else c.state.objects.balances.find id := by
    intro id
    rw [hclaimed.objects]
    show (op.balancesAfter _ b rest amount c.state.objects.balances).find id = _
    unfold BalanceClaimOperation.balancesAfter
    cases rest with
    | true =>
      show (Index.modify _ _ _).find id = _
      rw [Index.find_modify, hclaimed.found]
      rfl
    | false =>
      show (Index.remove _ _).find id = _
      rw [Index.find_remove]
      rfl
  -- what is left, and what was claimed, of a balance that vests
  have hkept : ∀ p, b.vestingPolicy = some p → ∃ start,
      Kept p (.genesisBalance op.balanceToClaim) start
        (b.balance.amount - op.totalClaimed.amount) c'.history c.state.ledger.headBlockTime := by
    intro p hp
    obtain ⟨start, hstart⟩ := h.genesis _ b p hclaimed.found hp
    have hallowed := hstart.covers.le_allowed h.time (op.of_checkAmount hp hclaimed.checked)
    rw [hclaimed.history]
    exact ⟨start, hstart.withdraw h.past hnonneg hallowed⟩
  constructor
  case time => rw [hclaimed.time]; exact h.time
  case past =>
    intro w hmem
    rw [hclaimed.history] at hmem
    rw [hclaimed.time]
    rcases List.mem_append.mp hmem with hmem | hmem
    · exact h.past w hmem
    · rw [List.mem_singleton.mp hmem]
  case below =>
    intro w hmem id hsource
    rw [hclaimed.history] at hmem
    rw [hvesting]
    rcases List.mem_append.mp hmem with hmem | hmem
    · exact h.below w hmem id hsource
    · rw [List.mem_singleton.mp hmem] at hsource
      cases hsource
  case references =>
    rw [hclaimed.objects]
    exact ⟨h.references.1, h.references.2, h.references.3, h.references.4⟩
  case linear =>
    intro id vbo p hfound hp
    rw [hvesting] at hfound
    rw [hclaimed.history, hclaimed.time]
    exact (h.linear id vbo p hfound hp).other nofun
  case origin =>
    intro id b1 hfound
    rw [hfind] at hfound
    split at hfound
    · rename_i hid
      split at hfound
      · cases hfound
        rw [hid]
        exact h.origin _ b hclaimed.found
      · cases hfound
    · exact h.origin id b1 hfound
  case genesis =>
    intro id b1 p hfound hp
    rw [hfind] at hfound
    rw [hclaimed.time]
    split at hfound
    · rename_i hid
      subst hid
      split at hfound
      · rename_i hrest
        cases hfound
        obtain ⟨start, hstart⟩ := hkept p hp
        obtain ⟨-, hsub⟩ := of_fcAssert (hclaimed.subtracted hrest)
        obtain ⟨difference, hdifference, hamount⟩ := of_bind hsub
        obtain ⟨rfl, -⟩ := of_safe hdifference
        cases hamount
        exact ⟨start, hstart⟩
      · cases hfound
    · rename_i hid
      obtain ⟨start, hstart⟩ := h.genesis id b1 p hfound hp
      refine ⟨start, ?_⟩
      rw [hclaimed.history]
      apply hstart.other
      intro hsource
      cases hsource
      exact hid rfl
  case claimed =>
    intro id b0 p hfound hp time
    by_cases hid : id = op.balanceToClaim
    · subst hid
      -- the balance that is claimed still has the policy that it began with
      obtain ⟨b1, hfound1, hpolicy⟩ := h.origin _ b hclaimed.found
      rw [hfound] at hfound1
      cases hfound1
      obtain ⟨start, hstart⟩ := hkept p (hpolicy ▸ hp)
      exact hstart.early time
    · rw [hclaimed.history, withdrawn_concat, if_neg, add_zero]
      · exact h.claimed id b0 p hfound hp time
      · intro hand
        cases hand.1
        exact hid rfl

theorem step_sound {keyOwns : KeyOwns} (h : Sound c0 c) (hcond : ClaimsNonneg c e)
    (hstep : step keyOwns c e = .ok c') : Sound c0 c' := by
  cases step_stepped hstep with
  | withdraw ctx requiredFee op vbo vbo' hw => exact h.withdraw hw
  | claim ctx op b rest amount hclaimed => exact h.claim hcond hclaimed
  | other e hhistory hother => exact h.other hcond hhistory hother

/-- The functions of a policy return, whatever is asked, and allow a part of the balance. -/
def Returning (p : LinearVestingPolicy) (balance : Asset) (head : Nat) : Prop :=
  ∀ now, head ≤ now → now < 2 ^ 32 → ∃ allowed, 0 ≤ allowed ∧ allowed ≤ balance.amount ∧
    ∀ amount, p.getAllowedWithdraw ⟨balance, now, amount⟩ = .ok ⟨allowed, balance.assetId⟩ ∧
      p.isWithdrawAllowed ⟨balance, now, amount⟩ =
        .ok (decide (amount.assetId = balance.assetId ∧ amount.amount ≤ allowed))

theorem LinearVestingPolicy.Covers.returning {p : LinearVestingPolicy} {balance : Asset}
    {head : Nat} (h : p.Covers balance.amount head) : Returning p balance head := by
  intro now hle htime
  have hnow := h.later hle
  obtain ⟨hnonneg, hbalance⟩ := hnow.allowed_nonneg_le
  refine ⟨_, hnonneg, hbalance, fun amount => ⟨?_, ?_⟩⟩
  · exact hnow.getAllowedWithdraw htime balance.assetId amount
  · by_cases hasset : amount.assetId = balance.assetId
    · rw [hnow.isWithdrawAllowed htime hasset]
      simp [hasset]
    · unfold LinearVestingPolicy.isWithdrawAllowed
      rw [if_pos hasset]
      simp [hasset]
      rfl

/-- A withdrawal of an amount of the asset passes every assertion on its way. -/
def Withdrawable (vbo : VestingBalanceObject) (head : Nat) : Prop :=
  ∀ now, head ≤ now → now < 2 ^ 32 → ∀ amount, amount.assetId = vbo.balance.assetId →
    ∃ allowed, vbo.isWithdrawAllowed now amount = .ok allowed ∧
      (allowed = true → 0 ≤ amount.amount → ∃ vbo', vbo.withdraw now amount = .ok vbo')

theorem Returning.withdrawable {p : LinearVestingPolicy} {head : Nat}
    (h : Returning p vbo.balance head) (hp : vbo.policy = .linear p)
    (hfits : vbo.balance.amount < 2 ^ 63) : Withdrawable vbo head := by
  intro now hle htime amount hasset
  obtain ⟨allowed, hnonneg, hbalance, hall⟩ := h now hle htime
  have hdecide := (hall amount).2
  have hcovered : amount.le vbo.balance =
      .ok (decide (amount.amount ≤ vbo.balance.amount)) := Asset.le_eq hasset
  refine ⟨decide (amount.assetId = vbo.balance.assetId ∧ amount.amount ≤ allowed), ?_, ?_⟩
  · unfold VestingBalanceObject.isWithdrawAllowed
    rw [hp, hcovered]
    refine bind_eq_ok.mpr ⟨_, hdecide, bind_eq_ok.mpr ⟨_, rfl, ?_⟩⟩
    apply cAssert_bind_eq_ok.mpr
    refine ⟨?_, rfl⟩
    by_cases hle : amount.amount ≤ allowed
    · left
      exact decide_eq_true (by omega)
    · right
      exact decide_eq_false fun hand => hle hand.2
  · intro htrue hamount
    have hle := (of_decide_eq_true htrue).2
    have hpolicy : vbo.policy.onWithdraw ⟨vbo.balance, now, amount⟩ = .ok (.linear p) := by
      rw [hp]
      rfl
    exact ⟨_, withdraw_eq_ok hasset hpolicy hamount (by omega) hfits⟩

/-- If genesis balances begin with what is left of them and no claim is negative, then no more is
withdrawn from a linear vesting balance until a time than has vested then, and the functions of its
policy return and allow a part of the balance. -/
theorem linear_never_early {keyOwns : KeyOwns} (h0 : Initial c0)
    (h : Reachable (step keyOwns) (· = c0) ClaimsNonneg c) :
    (∀ id vbo p, c.state.objects.vestingBalances.find id = some vbo → vbo.policy = .linear p →
      (∀ time, withdrawn (.vestingBalance id) time c.history ≤ p.vested time) ∧
      Returning p vbo.balance c.state.ledger.headBlockTime ∧
      Withdrawable vbo c.state.ledger.headBlockTime) ∧
    (∀ id b0 p, c0.state.objects.balances.find id = some b0 → b0.vestingPolicy = some p →
      ∀ time, withdrawn (.genesisBalance id) time c.history ≤ p.vested time) ∧
    ∀ id b p, c.state.objects.balances.find id = some b → b.vestingPolicy = some p →
      Returning p b.balance c.state.ledger.headBlockTime := by
  have hsound : Sound c0 c := by
    apply h.invariant (Sound c0)
    · rintro _ rfl
      exact h0.sound
    · intro c1 e c2 hs hcond hstep
      exact step_sound hs hcond hstep
  refine ⟨?_, hsound.claimed, ?_⟩
  · intro id vbo p hfound hp
    have hkept := hsound.linear id vbo p hfound hp
    have hle := hkept.covers.le
    have hfits := hkept.covers.fits
    have hreturning := hkept.covers.returning
    exact ⟨hkept.early, hreturning, hreturning.withdrawable hp (by omega)⟩
  · intro id b p hfound hp
    obtain ⟨start, hstart⟩ := hsound.genesis id b p hfound hp
    exact hstart.covers.returning

instance (c : Chain) : (e : Event) → Decidable (ClaimsNonneg c e)
  | .claim _ op => inferInstanceAs (Decidable (0 ≤ op.totalClaimed.amount))
  | .create _ _ op => inferInstanceAs (Decidable (op.amount.amount < 2 ^ 63))
  | .withdraw .. | .cashback .. | .witnessPay .. | .worker .. | .workerPay .. | .marketFee ..
  | .block .. | .elsewhere .. => .isTrue trivial

def samplePolicy : LinearVestingPolicy := ⟨1600000000, 0, 100, 1000⟩

def sampleChain : Chain where
  state :=
    { ledger :=
        { headBlockTime := 1600000050
          accounts := Index.create ∅ { registrar := 0, referrer := 0 }
          balances := AList.insert (0, core) 10 ∅
          assets := Index.create ∅
            { issuer := 0, options := { coreExchangeRate := ⟨⟨1, core⟩, ⟨1, core⟩⟩ } } }
      objects :=
        { cashbackVestingPeriodSeconds := 0
          witnessPayVestingSeconds := 0
          balances := Index.create ∅ ⟨7, ⟨1000, core⟩, some samplePolicy, 0⟩ } }

def sampleKeyOwns : KeyOwns := fun key owner => key = owner

def sampleClaim (amount : Int) : Event := .claim {} ⟨⟨0, core⟩, 0, 0, 7, ⟨amount, core⟩⟩

theorem sampleChain_initial : Initial sampleChain := by
  constructor
  case balances =>
    intro id b p hfound hp
    replace hfound : (Index.create ∅ _).find id = some b := hfound
    rw [Index.find_create] at hfound
    split at hfound
    · cases hfound
      cases hp
      refine ⟨by decide, by decide, by decide, ?_⟩
      intro time _ _
      exact LinearVestingPolicy.vested_nonneg (p := samplePolicy) (by decide) time
    · cases hfound
  case toNoneVesting => exact ⟨rfl, rfl, rfl, rfl, by decide⟩
  case history => rfl

theorem linear_never_early_half :
    ∃ c, Reachable (step sampleKeyOwns) (· = sampleChain) ClaimsNonneg c ∧
      withdrawn (.genesisBalance 0) 1600000050 c.history = 500 ∧
      ∀ time, withdrawn (.genesisBalance 0) time c.history ≤ samplePolicy.vested time := by
  have hrun : ∃ c, Reachable (step sampleKeyOwns) (· = sampleChain) ClaimsNonneg c ∧
      withdrawn (.genesisBalance 0) 1600000050 c.history = 500 := by
    refine Reachable.of_run (s := sampleChain) [sampleClaim 500] rfl ?_ ?_
    · decide +kernel
    · decide +kernel
  obtain ⟨c, hreach, hclaimed⟩ := hrun
  refine ⟨c, hreach, hclaimed, ?_⟩
  exact (linear_never_early sampleChain_initial hreach).2.1 0 _ samplePolicy rfl rfl

/-- A claim of minus one is accepted and adds to the balance, which is more than its begin balance
then. -/
theorem assertion_fails :
    ∃ c, Initial sampleChain ∧
      Reachable (step sampleKeyOwns) (· = sampleChain) (fun _ _ => True) c ∧
      ∃ b, c.state.objects.balances.find 0 = some b ∧ b.vestingPolicy = some samplePolicy ∧
        samplePolicy.getAllowedWithdraw ⟨b.balance, c.state.ledger.headBlockTime, ⟨0, core⟩⟩ =
          .error (.abort "withdrawn_already >= 0") := by
  have hrun : ∃ c, Reachable (step sampleKeyOwns) (· = sampleChain) (fun _ _ => True) c ∧
      (c.state.objects.balances.find 0 = some ⟨7, ⟨1001, core⟩, some samplePolicy, 1600000050⟩ ∧
        c.state.ledger.headBlockTime = 1600000050) := by
    refine Reachable.of_run (s := sampleChain) [sampleClaim (-1)] rfl ?_ ?_
    · decide +kernel
    · decide +kernel
  obtain ⟨c, hreach, hfound, htime⟩ := hrun
  refine ⟨c, sampleChain_initial, hreach, _, hfound, rfl, ?_⟩
  rw [htime]
  decide +kernel

end Meta1Core.Vesting
