import Mathlib.Algebra.Order.Field.Basic
import Mathlib.Tactic.Linarith
import Meta1Core.Pools.Representation

/-!
# The value of a share

The product of the two balances of a pool, per share squared.  Rounding favours the pool, so no
deposit, no withdrawal of a part of the shares and no exchange lowers it, and whoever deposits and
at once withdraws again gets at most what they paid.
-/

namespace Meta1Core.Pools

open Lib (Index Returns Relates Raises Reachable)
open Protocol Ledger

variable {s s' t : State} {id : Nat} {p : LiquidityPool} {a : AssetObject}

def PoolAt (s : State) (id : Nat) (p : LiquidityPool) (a : AssetObject) : Prop :=
  s.liquidityPools.find id = some p ∧ s.assets.find p.shareAsset = some a

def valuePerShare (p : LiquidityPool) (a : AssetObject) : ℚ :=
  p.balanceA * p.balanceB / a.currentSupply ^ 2

theorem valuePerShare_le {p' : LiquidityPool} {a' : AssetObject} (ha : 0 < a.currentSupply)
    (ha' : 0 < a'.currentSupply)
    (h : p.balanceA * p.balanceB * a'.currentSupply ^ 2 ≤
      p'.balanceA * p'.balanceB * a.currentSupply ^ 2) :
    valuePerShare p a ≤ valuePerShare p' a' := by
  have hpos : (0 : ℚ) < a.currentSupply := by exact_mod_cast ha
  have hpos' : (0 : ℚ) < a'.currentSupply := by exact_mod_cast ha'
  unfold valuePerShare
  rw [div_le_div_iff₀ (pow_pos hpos 2) (pow_pos hpos' 2)]
  exact_mod_cast h

theorem product_le {x y x' y' supply supply' : Int} (hx : 0 ≤ x) (hy : 0 ≤ y)
    (hsupply' : 0 ≤ supply') (hA : x * supply' ≤ x' * supply)
    (hB : y * supply' ≤ y' * supply) : x * y * supply' ^ 2 ≤ x' * y' * supply ^ 2 := by
  calc x * y * supply' ^ 2 = x * supply' * (y * supply') := by ring
    _ ≤ x' * supply * (y' * supply) :=
      mul_le_mul hA hB (mul_nonneg hy hsupply') ((mul_nonneg hx hsupply').trans hA)
    _ = x' * y' * supply ^ 2 := by ring

def Trades (s : State) (e : TransactionEvaluationState × Operation) : Prop :=
  e.2.Representable ∧ match e.2 with
    | .deposit _ | .exchange _ => True
    | .withdraw op => ∀ p a, PoolAt s op.pool p a → op.shareAmount.amount < a.currentSupply
    | .create _ | .delete _ | .issue _ | .reserve _ => False

theorem deposit_rounds {op : LiquidityPoolDepositOperation} {d : Deposit}
    (hvalid : op.validate = .ok ())
    (hrep : op.amountA.amount < 2 ^ 63 ∧ op.amountB.amount < 2 ^ 63)
    (hpool : PoolSound p a.currentSupply)
    (hmax : a.currentSupply ≤ a.options.maxSupply ∧ a.options.maxSupply ≤ maxShareSupply)
    (hpos : 0 < a.currentSupply) (hd : DepositOutcome op p a d) :
    0 < d.accountReceives ∧ d.accountReceives * p.balanceA ≤ d.poolReceivesA * a.currentSupply ∧
      d.accountReceives * p.balanceB ≤ d.poolReceivesB * a.currentSupply := by
  cases hd with
  | initial hempty hle => exact absurd hpos (hpool.empty hempty).2
  | further m hnonempty hm =>
    obtain ⟨bA, bB, supply, maxSupply, i, j, hbA, hbB, hs, -, hi, hj, -, -, -, hmax63, hspec⟩ :=
      depositAmounts_ok hvalid hrep hpool hnonempty hmax hm
    obtain ⟨hca, hcb, hcs⟩ := hspec.casts hmax63 (by omega) (by omega)
    dsimp only
    rw [hca, hcb, hcs, hbA, hbB, hs]
    refine ⟨by exact_mod_cast hspec.pos, ?_, ?_⟩
    · exact_mod_cast hspec.roundedUpA.le
    · exact_mod_cast hspec.roundedUpB.le

theorem withdraw_rounds {op : LiquidityPoolWithdrawOperation} {w : Withdrawal}
    (hvalid : op.validate = .ok ()) (hpool : PoolSound p a.currentSupply)
    (hmax : a.currentSupply ≤ a.options.maxSupply ∧ a.options.maxSupply ≤ maxShareSupply)
    (hA : 0 < p.balanceA) (hB : 0 < p.balanceB) (hlt : op.shareAmount.amount < a.currentSupply)
    (hw : WithdrawOutcome op p a w) :
    w.poolPaysA * a.currentSupply ≤ op.shareAmount.amount * p.balanceA ∧
      w.poolPaysB * a.currentSupply ≤ op.shareAmount.amount * p.balanceB := by
  obtain ⟨-, hvalid⟩ := of_fcAssert hvalid
  have hshare := fcAssert_eq_ok.mp hvalid
  cases hw with
  | all hall => omega
  | part wa wb hpart hwa hwb =>
    have hs63 : a.currentSupply < 2 ^ 63 := lt_of_le_of_lt (hmax.1.trans hmax.2) (by decide)
    obtain ⟨hca, -, -, hsumA⟩ := withdrawAmount_sound hshare hlt hs63 hA hpool.ltA hwa
    obtain ⟨hcb, -, -, hsumB⟩ := withdrawAmount_sound hshare hlt hs63 hB hpool.ltB hwb
    have hsupply : 0 ≤ a.currentSupply := (hshare.trans hlt).le
    have hfeeA := mul_nonneg (Int.natCast_nonneg wa.fee) hsupply
    have hfeeB := mul_nonneg (Int.natCast_nonneg wb.fee) hsupply
    dsimp only
    rw [hca, hcb]
    constructor
    · linarith
    · linarith

variable {calculateFee : Operation → Int} {e : TransactionEvaluationState × Operation}

/-- What a trade does to the pool that it is with: its balances and the supply of its shares change
so that the value per share does not fall. -/
theorem trade_moves (hsound : Sound (view s)) (htrades : Trades s e)
    (hstep : step calculateFee s e = .ok s') :
    ∃ id p a x y delta, (view s).pools id = some p ∧ (view s).assets p.shareAsset = some a ∧
      view s' = (view s).move id p a x y delta ∧
      (0 < a.currentSupply → 0 < a.currentSupply + delta ∧
        p.balanceA * p.balanceB * (a.currentSupply + delta) ^ 2 ≤ x * y * a.currentSupply ^ 2) := by
  obtain ⟨ctx, op⟩ := e
  obtain ⟨hrep, htrades⟩ := htrades
  obtain ⟨r, h⟩ := Lib.commit_eq_ok.mp hstep
  cases op with
  | create op => exact htrades.elim
  | delete op => exact htrades.elim
  | issue op => exact htrades.elim
  | reserve op => exact htrades.elim
  | deposit op =>
    obtain ⟨_, hvalid, h⟩ := h.of_lift
    obtain ⟨p, a, d, hp, ha, hd, hA, hB, hmoved, -⟩ := deposit_accepted h
    have hpool := (hsound.share hp ha).2
    refine ⟨op.pool, p, a, _, _, _, hp, ha, hmoved, fun hpos => ?_⟩
    obtain ⟨hshares, hroundA, hroundB⟩ :=
      deposit_rounds hvalid hrep hpool (hsound.supply _ a ha).2 hpos hd
    refine ⟨by omega, product_le hpool.nonnegA hpool.nonnegB (by omega) ?_ ?_⟩
    · linarith [mul_comm p.balanceA d.accountReceives]
    · linarith [mul_comm p.balanceB d.accountReceives]
  | withdraw op =>
    obtain ⟨_, hvalid, h⟩ := h.of_lift
    obtain ⟨p, a, w, hp, ha, -, hA, hB, -, hw, hmoved, -⟩ := withdraw_accepted h
    have hpool := (hsound.share hp ha).2
    obtain ⟨b, hb, rfl⟩ := Option.map_eq_some_iff.mp ha
    have hlt : op.shareAmount.amount < b.withoutFees.currentSupply := htrades p b ⟨hp, hb⟩
    refine ⟨op.pool, p, _, _, _, _, hp, ha, hmoved, fun hpos => ?_⟩
    obtain ⟨hroundA, hroundB⟩ :=
      withdraw_rounds hvalid hpool (hsound.supply _ _ ha).2 hA hB hlt hw
    refine ⟨by omega, product_le hpool.nonnegA hpool.nonnegB (by omega) ?_ ?_⟩
    · linarith [mul_comm p.balanceA op.shareAmount.amount]
    · linarith [mul_comm p.balanceB op.shareAmount.amount]
  | exchange op =>
    obtain ⟨_, hvalid, h⟩ := h.of_lift
    obtain ⟨p, a, x, b, hp, ha, hA, hB, hx, rfl, hA63, hB63, hmoved⟩ := exchange_accepted h
    refine ⟨op.pool, p, a, _, _, _, hp, ha, hmoved, fun hpos => ?_⟩
    rw [Int.add_zero]
    exact ⟨hpos, mul_le_mul_of_nonneg_right
      (exchange_sound (hsound.share hp ha).2 hA hB hx ⟨hA63, hB63⟩).2 (sq_nonneg _)⟩

theorem trade_value (hsound : Sound (view s)) (htrades : Trades s e)
    (hstep : step calculateFee s e = .ok s') (hat : PoolAt s id p a) (hpos : 0 < a.currentSupply) :
    ∃ p' a', PoolAt s' id p' a' ∧ 0 < a'.currentSupply ∧ valuePerShare p a ≤ valuePerShare p' a' := by
  obtain ⟨j, q, b, x, y, delta, hq, hb, hmoved, hvalue⟩ := trade_moves hsound htrades hstep
  have ha := State.assetView_of_find hat.2
  rcases eq_or_ne id j with rfl | hne
  · obtain rfl : p = q := Option.some.inj (hat.1.symm.trans hq)
    cases ha.symm.trans hb
    have hpool : (view s').pools id = some (withBalances p x y) := by
      rw [hmoved]
      exact View.move_pools ..
    have hasset : (view s').assets p.shareAsset = some (addSupply a.withoutFees delta) := by
      rw [hmoved]
      exact View.setAsset_self _ _ _
    obtain ⟨a', ha', heq⟩ := Option.map_eq_some_iff.mp hasset
    have hsupply : a'.currentSupply = a.currentSupply + delta :=
      congrArg AssetObject.currentSupply heq
    obtain ⟨hpos', hproduct⟩ := hvalue hpos
    refine ⟨withBalances p x y, a', ⟨hpool, ha'⟩, by rw [hsupply]; exact hpos', ?_⟩
    refine valuePerShare_le hpos (by rw [hsupply]; exact hpos') ?_
    rw [hsupply]
    exact hproduct
  · -- another pool has another share asset
    have hshare : p.shareAsset ≠ q.shareAsset := by
      intro heq
      have hfor := (hsound.share hat.1 (heq ▸ hb)).1
      exact hne (Option.some.inj (hfor.symm.trans (hsound.share hq hb).1))
    have hpool : (view s').pools id = some p := by
      rw [hmoved]
      exact (View.setPool_of_ne _ hne _).trans hat.1
    have hasset : (view s').assets p.shareAsset = some a.withoutFees := by
      rw [hmoved]
      exact (View.setAsset_of_ne _ hshare _).trans ha
    obtain ⟨a', ha', heq⟩ := Option.map_eq_some_iff.mp hasset
    have hsupply : a'.withoutFees.currentSupply = a.withoutFees.currentSupply :=
      congrArg AssetObject.currentSupply heq
    change a'.currentSupply = a.currentSupply at hsupply
    refine ⟨p, a', ⟨hpool, ha'⟩, by rw [hsupply]; exact hpos, le_of_eq ?_⟩
    rw [valuePerShare, valuePerShare, hsupply]

theorem roundTrip_le {ctx ctx' : TransactionEvaluationState} {op : LiquidityPoolDepositOperation}
    {op' : LiquidityPoolWithdrawOperation} {r r' : ExchangeResult} (hsound : Sound (view s))
    (hrep : (Operation.deposit op).Representable)
    (hdeposit : Returns (evaluate ctx calculateFee (.deposit op)) s r s')
    (hwithdraw : Returns (evaluate ctx' calculateFee (.withdraw op')) s' r' t)
    (hpool : op'.pool = op.pool) (hshares : r.received = [op'.shareAmount])
    (hat : PoolAt s op.pool p a) (hpos : 0 < a.currentSupply) :
    ∃ paidA paidB backA backB, r.paid = [⟨paidA, p.assetA⟩, ⟨paidB, p.assetB⟩] ∧
      r'.received = [⟨backA, p.assetA⟩, ⟨backB, p.assetB⟩] ∧ backA ≤ paidA ∧ backB ≤ paidB := by
  have hsound' := evaluate_sound hsound hrep hdeposit
  obtain ⟨_, hvalid, hdeposit⟩ := hdeposit.of_lift
  obtain ⟨_, hvalid', hwithdraw⟩ := hwithdraw.of_lift
  obtain ⟨q, b, d, hq, hb, hd, -, -, hmoved, hpaid, hreceived⟩ := deposit_accepted hdeposit
  obtain rfl : p = q := Option.some.inj (hat.1.symm.trans hq)
  cases (State.assetView_of_find hat.2).symm.trans hb
  obtain ⟨hnew, hroundA, hroundB⟩ :=
    deposit_rounds hvalid hrep (hsound.share hq hb).2 (hsound.supply _ _ hb).2 hpos hd
  obtain ⟨p', a', w, hp', ha', -, hA, hB, -, hw, -, hback⟩ := withdraw_accepted hwithdraw
  have hpool' := (hsound'.share hp' ha').2
  have hsupply' := hsound'.supply _ _ ha'
  rw [hmoved, hpool] at hp'
  cases (View.move_pools ..).symm.trans hp'
  rw [hmoved] at ha'
  cases (View.setAsset_self _ p.shareAsset _).symm.trans ha'
  rw [hreceived] at hshares
  have hamount : op'.shareAmount.amount = d.accountReceives := by
    rw [← (List.cons.inj hshares).1]
  have hlt : op'.shareAmount.amount < a.currentSupply + d.accountReceives := by omega
  obtain ⟨hbackA, hbackB⟩ := withdraw_rounds hvalid' hpool' hsupply'.2 hA hB hlt hw
  have hsum : 0 < a.currentSupply + d.accountReceives := by omega
  refine ⟨_, _, _, _, hpaid, hback, le_of_mul_le_mul_right ?_ hsum, le_of_mul_le_mul_right ?_ hsum⟩
  · calc w.poolPaysA * (a.currentSupply + d.accountReceives)
        ≤ op'.shareAmount.amount * (p.balanceA + d.poolReceivesA) := hbackA
      _ = d.accountReceives * p.balanceA + d.accountReceives * d.poolReceivesA := by
        rw [hamount]
        ring
      _ ≤ d.poolReceivesA * a.currentSupply + d.accountReceives * d.poolReceivesA := by
        exact Int.add_le_add_right hroundA _
      _ = d.poolReceivesA * (a.currentSupply + d.accountReceives) := by ring
  · calc w.poolPaysB * (a.currentSupply + d.accountReceives)
        ≤ op'.shareAmount.amount * (p.balanceB + d.poolReceivesB) := hbackB
      _ = d.accountReceives * p.balanceB + d.accountReceives * d.poolReceivesB := by
        rw [hamount]
        ring
      _ ≤ d.poolReceivesB * a.currentSupply + d.accountReceives * d.poolReceivesB := by
        exact Int.add_le_add_right hroundB _
      _ = d.poolReceivesB * (a.currentSupply + d.accountReceives) := by ring

/-- Deposits 103 and 52 into the first pool and withdraws the 103 shares at once. -/
def roundTrip : Evaluation (ExchangeResult × ExchangeResult) := do
  let r ← evaluate {} (fun _ => 0) (.deposit ⟨⟨0, 0⟩, 1, 0, ⟨103, 0⟩, ⟨52, 1⟩⟩)
  let r' ← evaluate {} (fun _ => 0) (.withdraw ⟨⟨0, 0⟩, 1, 0, ⟨103, 2⟩⟩)
  return (r, r')

end Meta1Core.Pools
