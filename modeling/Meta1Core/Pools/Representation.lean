import Meta1Core.Pools.InternalError
import Meta1Core.Pools.Invariant

/-!
# Liquidity pools in every reachable state

Runs of the operations on pools and supplies.  In every state that a run reaches the invariant
holds, no assertion labelled "Internal error" can fail whatever is sent next, and no cast loses
anything.
-/

namespace Meta1Core.Pools

open Lib (Index Returns Relates Raises Reachable)
open Protocol Ledger

variable {s s2 s' : State}

theorem deposit_silent {op : LiquidityPoolDepositOperation} (hsound : Sound (view s))
    (hvalid : op.validate = .ok ())
    (hrep : op.amountA.amount < 2 ^ 63 ∧ op.amountB.amount < 2 ^ 63) :
    ¬Raises op.doEvaluate s internalError := by
  intro h
  obtain ⟨p, hp, h⟩ := raises_fetch_bind h
  have hp := (fetchPool_view hp).2
  obtain ⟨-, h⟩ := raises_require_bind (by decide) h
  obtain ⟨-, h⟩ := raises_require_bind (by decide) h
  obtain ⟨a', ha', -, hpool⟩ := hsound.pool _ p hp
  have hnonnegA := hpool.nonnegA
  have hnonnegB := hpool.nonnegB
  have hboth := hpool.both
  have hshares := hpool.shares
  replace h := raises_assert_bind (by omega) h
  obtain ⟨a, ha, h⟩ := raises_fetch_bind h
  have ha := (fetchAsset_view ha).2
  cases ha'.symm.trans ha
  have hsupply := hsound.supply _ _ ha
  obtain ⟨-, h⟩ := raises_require_bind (by decide) h
  replace h := raises_assert_bind (by
    change p.balanceA = 0 ↔ a.withoutFees.currentSupply = 0
    omega) h
  obtain ⟨-, h⟩ := raises_require_bind (by decide) h
  obtain ⟨_, -, h⟩ := raises_fetch_bind h
  obtain ⟨-, h⟩ := raises_require_bind (by decide) h
  obtain ⟨_, -, h⟩ := raises_fetch_bind h
  obtain ⟨-, h⟩ := raises_require_bind (by decide) h
  obtain ⟨_, -, h⟩ := raises_fetch_bind h
  obtain ⟨-, h⟩ := raises_require_bind (by decide) h
  rcases Raises.ite_iff.mp h with ⟨-, h⟩ | ⟨hnonempty, h⟩
  · obtain ⟨-, h⟩ := raises_require_bind (by simp) h
    exact Raises.pure_iff.mp h
  · rcases Raises.lift_bind_iff.mp h with h | ⟨m, -, h⟩
    · rcases depositAmounts_sound hvalid hrep hpool hnonempty hsupply.2 with herr | ⟨m, _, _, _, _,
        _, _, hok, -⟩
      · exact absurd (Except.error.inj (herr.symm.trans h)) (by decide)
      · exact nomatch hok.symm.trans h
    · exact Raises.pure_iff.mp h

theorem updateSupply_silent (id : AssetId) (f : AssetObject → Int) :
    Silent (assets.update id fun a => return { a with currentSupply := ← safe (f a) }) :=
  update_avoids not_ledgerText _ _ fun _ => bind_ne_error (safe_ne_error not_ledgerText _) fun _ => nofun

theorem updateBalances_silent (id : Nat) (f g : LiquidityPool → Int) :
    Silent (liquidityPools.update id fun p => do
      let balanceA ← safe (f p)
      let balanceB ← safe (g p)
      return updateVirtualValue { p with balanceA, balanceB }) :=
  update_avoids not_ledgerText _ _ fun _ => bind_ne_error (safe_ne_error not_ledgerText _) fun _ =>
    bind_ne_error (safe_ne_error not_ledgerText _) fun _ => nofun

variable {p : LiquidityPool}

theorem fetch_moved {v : View} {id : Nat} {q : LiquidityPool} {a b : AssetObject} {x y delta : Int}
    {t : State} (hmoved : view t = v.move id p a x y delta)
    (hq : Returns (liquidityPools.fetch id) t q t) (hb : Returns (assets.fetch q.shareAsset) t b t) :
    q = withBalances p x y ∧ b.currentSupply = a.currentSupply + delta := by
  have hq := (fetchPool_view hq).2
  rw [hmoved] at hq
  cases (View.move_pools ..).symm.trans hq
  have hb := (fetchAsset_view hb).2
  rw [hmoved] at hb
  have heq := Option.some.inj ((View.setAsset_self _ p.shareAsset _).symm.trans hb)
  exact ⟨rfl, (congrArg AssetObject.currentSupply heq).symm⟩

theorem deposit_apply_silent {op : LiquidityPoolDepositOperation} {d : Deposit}
    (hsound : Sound (view s)) (hvalid : op.validate = .ok ())
    (hrep : op.amountA.amount < 2 ^ 63 ∧ op.amountB.amount < 2 ^ 63)
    (hevaluate : Returns op.doEvaluate s d s) (hview : view s2 = view s) :
    ¬Raises (op.doApply d) s2 internalError := by
  intro h
  have hsilent : Silent (op.move d) :=
    .bind (fetch_silent _ _) fun _ => .bind (adjustBalance_avoids not_ledgerText _ _) fun _ =>
      .bind (adjustBalance_avoids not_ledgerText _ _) fun _ => .bind (adjustBalance_avoids not_ledgerText _ _) fun _ =>
        .bind (updateBalances_silent _ _ _) fun _ => updateSupply_silent _ _
  obtain ⟨_, s3, hmove, h⟩ := hsilent.raises_bind h
  obtain ⟨-, p, a, hp, ha, hd⟩ := deposit_evaluated hevaluate
  obtain ⟨q, b, hq, hb, hA, hB, hmoved⟩ := deposit_moved hmove
  rw [hview] at hq hb hmoved
  cases hq.symm.trans hp
  cases hb.symm.trans ha
  obtain ⟨hsupply, hbalances, -⟩ := deposit_sound hvalid hrep (hsound.share hp ha).2
    (hsound.supply _ a ha) hd hA hB
  obtain ⟨q', hq', h⟩ := raises_fetch_bind h
  have hfetch := (fetchPool_view hq').2
  rw [hmoved] at hfetch
  cases (View.move_pools ..).symm.trans hfetch
  replace h := raises_assert_bind hbalances h
  obtain ⟨b', hb', h⟩ := raises_fetch_bind h
  obtain ⟨-, hb'⟩ := fetch_moved hmoved hq' hb'
  replace h := raises_assert_bind (by rw [hb']; exact hsupply.1) h
  exact Raises.pure_iff.mp h

variable {feePercent : Nat}

theorem withdrawAmount_silent {share balance supply : Int} (hshare : 0 < share)
    (hlt : share < supply) (hs63 : supply < 2 ^ 63) (hbalance : 0 < balance)
    (hb63 : balance < 2 ^ 63) :
    withdrawAmount share balance supply feePercent ≠ .error internalError := by
  obtain ⟨n, rfl⟩ := Int.eq_ofNat_of_zero_le hshare.le
  obtain ⟨b, rfl⟩ := Int.eq_ofNat_of_zero_le hbalance.le
  obtain ⟨k, rfl⟩ := Int.eq_ofNat_of_zero_le (hshare.trans hlt).le
  intro h
  rcases withdrawAmount_spec feePercent (show n < k by omega) (show 0 < b by omega) (by omega)
    (by omega) with herr | ⟨w, hw, -⟩
  · exact absurd (Except.error.inj (herr.symm.trans h)) (by decide)
  · exact nomatch hw.symm.trans h

theorem withdraw_silent {op : LiquidityPoolWithdrawOperation} (hsound : Sound (view s))
    (hvalid : op.validate = .ok ()) : ¬Raises op.doEvaluate s internalError := by
  intro h
  obtain ⟨-, hvalid⟩ := of_fcAssert hvalid
  have hshare := fcAssert_eq_ok.mp hvalid
  obtain ⟨p, hp, h⟩ := raises_fetch_bind h
  have hp := (fetchPool_view hp).2
  obtain ⟨-, h⟩ := raises_require_bind (by decide) h
  obtain ⟨hpos, h⟩ := raises_require_bind (by decide) h
  obtain ⟨a, ha, h⟩ := raises_fetch_bind h
  have ha := (fetchAsset_view ha).2
  have hpool := (hsound.share hp ha).2
  have hsupply := hsound.supply _ _ ha
  obtain ⟨_, -, h⟩ := raises_fetch_bind h
  obtain ⟨-, h⟩ := raises_require_bind (by decide) h
  obtain ⟨_, -, h⟩ := raises_fetch_bind h
  obtain ⟨-, h⟩ := raises_require_bind (by decide) h
  obtain ⟨_, -, h⟩ := raises_fetch_bind h
  obtain ⟨-, h⟩ := raises_require_bind (by decide) h
  obtain ⟨hle, h⟩ := raises_require_bind (by decide) h
  rcases Raises.ite_iff.mp h with ⟨-, h⟩ | ⟨hpart, h⟩
  · exact Raises.pure_iff.mp h
  · have hlt : op.shareAmount.amount < a.currentSupply := lt_of_le_of_ne hle (Ne.symm hpart)
    have hs63 : a.currentSupply < 2 ^ 63 := by
      have : a.currentSupply ≤ maxShareSupply := hsupply.2.1.trans hsupply.2.2
      unfold maxShareSupply at this
      omega
    rcases Raises.lift_bind_iff.mp h with h | ⟨wa, -, h⟩
    · exact withdrawAmount_silent hshare hlt hs63 hpos.1 hpool.ltA h
    rcases Raises.lift_bind_iff.mp h with h | ⟨wb, -, h⟩
    · exact withdrawAmount_silent hshare hlt hs63 hpos.2 hpool.ltB h
    obtain ⟨-, h⟩ := raises_require_bind (by decide) h
    exact Raises.pure_iff.mp h

theorem withdraw_apply_silent {op : LiquidityPoolWithdrawOperation} {w : Withdrawal}
    (hsound : Sound (view s)) (hvalid : op.validate = .ok ())
    (hevaluate : Returns op.doEvaluate s w s) (hview : view s2 = view s) :
    ¬Raises (op.doApply w) s2 internalError := by
  intro h
  have hpayOut (x : Asset) : Silent (payOut op.account x) :=
    .ite (adjustBalance_avoids not_ledgerText _ _) (.pure _)
  have hsilent : Silent (op.move w) :=
    .bind (fetch_silent _ _) fun _ => .bind (adjustBalance_avoids not_ledgerText _ _) fun _ =>
      .bind (hpayOut _) fun _ => .bind (hpayOut _) fun _ =>
        .bind (updateSupply_silent _ _) fun _ => updateBalances_silent _ _ _
  obtain ⟨_, s3, hmove, h⟩ := hsilent.raises_bind h
  obtain ⟨-, p, a, hp, ha, -, hA, hB, hle, hw⟩ := withdraw_evaluated hevaluate
  obtain ⟨q, b, hq, hb, -, -, hmoved⟩ := withdraw_moved hmove
  rw [hview] at hq hb hmoved
  cases hq.symm.trans hp
  cases hb.symm.trans ha
  obtain ⟨hnonneg, -, hpool⟩ := withdraw_sound hvalid (hsound.share hp ha).2
    (hsound.supply _ a ha) hA hB hle hw
  have hboth := hpool.both
  have hshares := hpool.shares
  have hnonnegA := hpool.nonnegA
  have hnonnegB := hpool.nonnegB
  obtain ⟨q', hq', h⟩ := raises_fetch_bind h
  have hfetch := (fetchPool_view hq').2
  rw [hmoved] at hfetch
  cases (View.move_pools ..).symm.trans hfetch
  replace h := raises_assert_bind (by omega) h
  obtain ⟨b', hb', h⟩ := raises_fetch_bind h
  obtain ⟨-, hb'⟩ := fetch_moved hmoved hq' hb'
  replace h := raises_assert_bind (by rw [hb']; omega) h
  exact Raises.pure_iff.mp h

theorem exchangeAmount_silent {virtualValue : Nat} {receives newBalance pays : Int}
    (hreceives : 0 < receives) (hpays : 0 < pays) (hp63 : pays < 2 ^ 63)
    (hvirtual : (virtualValue : Int) = receives * pays) (hnew : receives ≤ newBalance)
    (h63 : newBalance < 2 ^ 63) :
    exchangeAmount virtualValue newBalance pays feePercent ≠ .error internalError := by
  obtain ⟨r, rfl⟩ := Int.eq_ofNat_of_zero_le hreceives.le
  obtain ⟨y, rfl⟩ := Int.eq_ofNat_of_zero_le hpays.le
  obtain ⟨n, rfl⟩ := Int.eq_ofNat_of_zero_le (hreceives.le.trans hnew)
  obtain rfl : virtualValue = r * y := by exact_mod_cast hvirtual
  intro h
  rcases exchangeAmount_spec feePercent (show 0 < r by omega) (show 0 < y by omega)
    (show r ≤ n by omega) (by omega) (by omega) with herr | ⟨e, he, -⟩
  · exact absurd (Except.error.inj (herr.symm.trans h)) (by decide)
  · exact nomatch he.symm.trans h

variable {op : LiquidityPoolExchangeOperation}

theorem exchange_amounts_silent {receivesAsset paysAsset : AssetObject}
    {receivesBalance paysBalance : Int} (hreceives : 0 < receivesBalance) (hpays : 0 < paysBalance)
    (hp63 : paysBalance < 2 ^ 63)
    (hvirtual : (p.virtualValue : Int) = receivesBalance * paysBalance) :
    op.amounts p receivesAsset paysAsset receivesBalance paysBalance ≠ .error internalError := by
  refine bind_ne_error (calculateMarketFee_ne_error not_ledgerText _ _ _ _) fun makerFee => ?_
  intro h
  rcases bind_eq_error.mp h with h | ⟨lower, hlt, h⟩
  · exact asset_lt_ne_error not_ledgerText _ _ h
  rcases bind_eq_error.mp h with h | ⟨_, htrue, h⟩
  · exact fcAssert_ne_error (by decide) h
  rcases bind_eq_error.mp h with h | ⟨receives, hsub, h⟩
  · exact asset_sub_ne_error not_ledgerText _ _ h
  rcases bind_eq_error.mp h with h | ⟨newBalance, hnew, h⟩
  · exact safe_ne_error not_ledgerText _ h
  have hreceived := received_pos hlt (fcAssert_eq_ok.mp htrue) hsub
  rcases bind_eq_error.mp h with h | ⟨e, -, h⟩
  · obtain ⟨hnew, -, h63⟩ := of_safe hnew
    exact exchangeAmount_silent hreceives hpays hp63 hvirtual (by omega) (by omega) h
  revert h
  exact bind_ne_error (calculateMarketFee_ne_error not_ledgerText _ _ _ _) fun _ =>
    bind_ne_error (asset_le_ne_error not_ledgerText _ _) fun _ => bind_ne_error (fcAssert_ne_error (by decide))
      fun _ => bind_ne_error (asset_sub_ne_error not_ledgerText _ _) fun _ =>
        bind_ne_error (fcAssert_ne_error (by decide)) fun _ => nofun

theorem exchange_silent (hsound : Sound (view s)) :
    ¬Raises op.doEvaluate s internalError := by
  intro h
  obtain ⟨p, hp, h⟩ := raises_fetch_bind h
  have hp := (fetchPool_view hp).2
  obtain ⟨a, -, -, hpool⟩ := hsound.pool _ p hp
  obtain ⟨hpos, h⟩ := raises_require_bind (by decide) h
  obtain ⟨-, h⟩ := raises_require_bind (by decide) h
  obtain ⟨_, -, h⟩ := raises_fetch_bind h
  obtain ⟨_, -, h⟩ := raises_fetch_bind h
  obtain ⟨-, h⟩ := raises_require_bind (by decide) h
  obtain ⟨_, -, h⟩ := raises_fetch_bind h
  obtain ⟨-, h⟩ := raises_require_bind (by decide) h
  rcases Raises.ite_iff.mp h with ⟨-, h⟩ | ⟨-, h⟩
  · exact exchange_amounts_silent hpos.1 hpos.2 hpool.ltB hpool.virtualValue (Raises.lift_iff.mp h)
  · exact exchange_amounts_silent hpos.2 hpos.1 hpool.ltA
      (by rw [hpool.virtualValue, Int.mul_comm]) (Raises.lift_iff.mp h)

theorem exchange_apply_silent {x : Exchange} (hsound : Sound (view s))
    (hevaluate : Returns op.doEvaluate s x s) (hview : view s2 = view s) :
    ¬Raises (op.doApply x) s2 internalError := by
  intro h
  have hsilent : Silent (op.move x) := by
    refine .bind (fetch_silent _ _) fun p => .bind (adjustBalance_avoids not_ledgerText _ _) fun _ =>
      .bind (adjustBalance_avoids not_ledgerText _ _) fun _ => .bind (fetch_silent _ _) fun _ => .bind (fetch_silent _ _) fun _ =>
        .bind (payCalculatedMarketFees_avoids not_ledgerText _ _ _ _) fun _ => .bind (fetch_silent _ _) fun _ =>
          .bind (payCalculatedMarketFees_avoids not_ledgerText _ _ _ _) fun _ =>
            .bind (update_avoids not_ledgerText _ _ fun q => ?_) fun _ => .pure _
    split
    all_goals exact bind_ne_error (safe_ne_error not_ledgerText _) fun _ =>
      bind_ne_error (safe_ne_error not_ledgerText _) fun _ => nofun
  obtain ⟨_, s3, hmove, h⟩ := hsilent.raises_bind h
  obtain ⟨-, p, hp, hpos, hpos', hx⟩ := exchange_evaluated hevaluate
  obtain ⟨q, a, b, hq, ha, rfl, hA, hB, rfl, hmoved⟩ := exchange_moved hmove
  rw [hview] at hq ha hmoved
  cases hq.symm.trans hp
  have hpool := (hsound.share hp ha).2
  obtain ⟨hpool', hproduct⟩ := exchange_sound hpool hpos hpos' hx ⟨hA, hB⟩
  have hpositive := hpool'.shares.mpr (hpool.shares.mp hpos)
  obtain ⟨q', hq', h⟩ := raises_fetch_bind h
  have hfetch := (fetchPool_view hq').2
  rw [hmoved] at hfetch
  cases (View.move_pools ..).symm.trans hfetch
  replace h := raises_assert_bind ⟨hpositive, hpool'.both.mp hpositive⟩ h
  replace h := raises_assert_bind (by
    have hvirtual := hpool'.virtualValue
    have hvirtual' := hpool.virtualValue
    rw [← hvirtual'] at hproduct
    exact Int.ofNat_le.mp (hproduct.trans (le_of_eq hvirtual.symm))) h
  exact Raises.pure_iff.mp h

theorem create_silent (op : LiquidityPoolCreateOperation) :
    Silent op.doEvaluate ∧ Silent op.doApply := by
  constructor
  · exact .bind (fetch_silent _ _) fun _ => .bind (fetch_silent _ _) fun _ => .bind (fetch_silent _ _) fun _ =>
      .bind (.require (by decide)) fun _ => .bind (.require (by decide)) fun _ =>
        .bind (.require (by decide)) fun _ => .require (by decide)
  · exact .bind .get fun _ => .bind (.require (by decide)) fun _ => .bind (create_avoids _ _) fun _ =>
      .bind (update_avoids not_ledgerText _ _ fun _ => nofun) fun _ => .pure _

theorem delete_silent (op : LiquidityPoolDeleteOperation) (p : LiquidityPool) :
    Silent op.doEvaluate ∧ Silent (op.doApply p) := by
  constructor
  · exact .bind (fetch_silent _ _) fun _ => .bind (.require (by decide)) fun _ => .bind (fetch_silent _ _) fun _ =>
      .bind (.require (by decide)) fun _ => .pure _
  · exact .bind (update_avoids not_ledgerText _ _ fun _ => nofun) fun _ => .bind (.modify _) fun _ => .pure _

theorem issue_silent (op : AssetIssueOperation) : Silent op.doEvaluate ∧ Silent op.doApply := by
  constructor
  · exact .bind (fetch_silent _ _) fun _ => .bind (.require (by decide)) fun _ =>
      .bind (.require (by decide)) fun _ => .bind (.require (by decide)) fun _ =>
        .bind (fetch_silent _ _) fun _ => .bind (.require (by decide)) fun _ =>
          .bind (.lift (safe_ne_error not_ledgerText _)) fun _ => .require (by decide)
  · exact .bind (adjustBalance_avoids not_ledgerText _ _) fun _ => .bind (updateSupply_silent _ _) fun _ => .pure _

theorem reserve_silent (op : AssetReserveOperation) :
    Silent op.doEvaluate ∧ Silent op.doApply := by
  constructor
  · exact .bind (fetch_silent _ _) fun _ => .bind (.require (by decide)) fun _ =>
      .bind (fetch_silent _ _) fun _ => .bind (.require (by decide)) fun _ =>
        .ite (.require (by decide)) (.require (by simp))
  · exact .bind (adjustBalance_avoids not_ledgerText _ _) fun _ => .bind (updateSupply_silent _ _) fun _ => .pure _

theorem validate_ne_error :
    (∀ op : LiquidityPoolCreateOperation, op.validate ≠ .error internalError) ∧
    (∀ op : LiquidityPoolDeleteOperation, op.validate ≠ .error internalError) ∧
    (∀ op : LiquidityPoolDepositOperation, op.validate ≠ .error internalError) ∧
    (∀ op : LiquidityPoolWithdrawOperation, op.validate ≠ .error internalError) ∧
    (∀ op : LiquidityPoolExchangeOperation, op.validate ≠ .error internalError) ∧
    (∀ op : AssetIssueOperation, op.validate ≠ .error internalError) ∧
    (∀ op : AssetReserveOperation, op.validate ≠ .error internalError) := by
  refine ⟨fun op => ?_, fun op => ?_, fun op => ?_, fun op => ?_, fun op => ?_, fun op => ?_,
    fun op => ?_⟩
  · exact bind_ne_error (fcAssert_ne_error (by decide)) fun _ =>
      bind_ne_error (fcAssert_ne_error (by simp)) fun _ =>
        bind_ne_error (fcAssert_ne_error (by decide)) fun _ =>
          bind_ne_error (fcAssert_ne_error (by decide)) fun _ => fcAssert_ne_error (by decide)
  · exact fcAssert_ne_error (by decide)
  · exact bind_ne_error (fcAssert_ne_error (by decide)) fun _ =>
      bind_ne_error (fcAssert_ne_error (by decide)) fun _ => fcAssert_ne_error (by simp)
  · exact bind_ne_error (fcAssert_ne_error (by decide)) fun _ => fcAssert_ne_error (by decide)
  · exact bind_ne_error (fcAssert_ne_error (by decide)) fun _ =>
      bind_ne_error (fcAssert_ne_error (by decide)) fun _ =>
        bind_ne_error (fcAssert_ne_error (by decide)) fun _ => fcAssert_ne_error (by decide)
  · exact bind_ne_error (fcAssert_ne_error (by decide)) fun _ =>
      bind_ne_error (fcAssert_ne_error (by decide)) fun _ =>
        bind_ne_error (fcAssert_ne_error (by decide)) fun _ => fcAssert_ne_error (by decide)
  · exact bind_ne_error (fcAssert_ne_error (by decide)) fun _ =>
      bind_ne_error (fcAssert_ne_error (by decide)) fun _ => fcAssert_ne_error (by decide)

variable {ctx : TransactionEvaluationState}

theorem startEvaluate_silent {α : Type} {payer : AccountId} {fee : Asset} {requiredFee : Int}
    {v : Except Exception Unit} {doEvaluate : Evaluation α}
    {doApply : α → Evaluation ExchangeResult} (hv : v ≠ .error internalError)
    (hunchanged : ∀ x s1, Returns doEvaluate s x s1 → s1 = s)
    (hevaluate : v = .ok () → ¬Raises doEvaluate s internalError)
    (happly : ∀ x s2, v = .ok () → Returns doEvaluate s x s → view s2 = view s →
      ¬Raises (doApply x) s2 internalError) :
    ¬Raises (liftM v >>= fun _ => startEvaluate ctx payer fee requiredFee doEvaluate doApply) s
      internalError := by
  intro h
  rcases Raises.lift_bind_iff.mp h with h | ⟨_, hvalid, h⟩
  · exact hv h
  rcases of_raises_startEvaluate not_ledgerText h with h | ⟨x, s1, s2, hx, hfees, -, hraises⟩
  · exact hevaluate hvalid h
  · obtain rfl := hunchanged x s1 hx
    exact happly x s2 hvalid hx (view_eq_of_feesOnly hfees) hraises

variable {calculateFee : Operation → Int}

theorem evaluate_silent {op : Operation} (hsound : Sound (view s)) (hrep : op.Representable) :
    ¬Raises (evaluate ctx calculateFee op) s internalError := by
  obtain ⟨hcreate, hdelete, hdeposit, hwithdraw, hexchange, hissue, hreserve⟩ := validate_ne_error
  cases op with
  | create op =>
    exact startEvaluate_silent (hcreate op) (fun _ _ h => (create_evaluated h).1)
      (fun _ => (create_silent op).1 s) fun _ s2 _ _ _ => (create_silent op).2 s2
  | delete op =>
    exact startEvaluate_silent (hdelete op) (fun _ _ h => (delete_evaluated h).1)
      (fun _ => (delete_silent op ⟨0, 0, 0, 0, 0, 0, 0, 0⟩).1 s)
      fun p s2 _ _ _ => (delete_silent op p).2 s2
  | deposit op =>
    exact startEvaluate_silent (hdeposit op) (fun _ _ h => (deposit_evaluated h).1)
      (fun hvalid => deposit_silent hsound hvalid hrep)
      fun _ _ hvalid hx hview => deposit_apply_silent hsound hvalid hrep hx hview
  | withdraw op =>
    exact startEvaluate_silent (hwithdraw op) (fun _ _ h => (withdraw_evaluated h).1)
      (fun hvalid => withdraw_silent hsound hvalid)
      fun _ _ hvalid hx hview => withdraw_apply_silent hsound hvalid hx hview
  | exchange op =>
    exact startEvaluate_silent (hexchange op) (fun _ _ h => (exchange_evaluated h).1)
      (fun _ => exchange_silent hsound) fun _ _ _ hx hview => exchange_apply_silent hsound hx hview
  | issue op =>
    exact startEvaluate_silent (hissue op) (fun _ _ h => (issue_evaluated h).1)
      (fun _ => (issue_silent op).1 s) fun _ s2 _ _ _ => (issue_silent op).2 s2
  | reserve op =>
    exact startEvaluate_silent (hreserve op) (fun _ _ h => (reserve_evaluated h).1)
      (fun _ => (reserve_silent op).1 s) fun _ s2 _ _ _ => (reserve_silent op).2 s2

/-! ## Runs -/

/-- An operation that is evaluated in a transaction; if it throws, nothing happened. -/
def step (calculateFee : Operation → Int) (s : State)
    (e : TransactionEvaluationState × Operation) : Except Exception State :=
  Lib.commit (evaluate e.1 calculateFee e.2) s

/-- A state without pools, in which every asset has a supply within its limits -/
structure Initial (s : State) : Prop where
  pools : ∀ id, s.liquidityPools.find id = none
  supply : ∀ id a, s.assets.find id = some a → 0 ≤ a.currentSupply ∧
    a.currentSupply ≤ a.options.maxSupply ∧ a.options.maxSupply ≤ maxShareSupply

abbrev Reached (calculateFee : Operation → Int) : State → Prop :=
  Reachable (step calculateFee) Initial fun _ e => e.2.Representable

/-- The representation invariant: a pool holds both of its assets or none, and has shares exactly
if it holds something; its virtual value is the exact product. -/
def Representation (s : State) : Prop :=
  ∀ id p, s.liquidityPools.find id = some p → ∃ a, s.assets.find p.shareAsset = some a ∧
    (0 < p.balanceA ↔ 0 < p.balanceB) ∧ (0 < p.balanceB ↔ 0 < a.currentSupply) ∧
    (p.virtualValue : Int) = p.balanceA * p.balanceB ∧ a.currentSupply ≤ a.options.maxSupply

/-- The casts to `int64_t` that the evaluation of an operation makes give the 128-bit values that
they are applied to, wherever the evaluation gets that far. -/
def CastsLossless (s : State) : Operation → Prop
  | .deposit op => ∀ p a m, s.liquidityPools.find op.pool = some p →
      s.assets.find p.shareAsset = some a → p.balanceA ≠ 0 →
      depositAmounts p a.currentSupply a.options.maxSupply op.amountA.amount op.amountB.amount =
        .ok m →
      int64Cast m.a128 = m.a128 ∧ int64Cast m.b128 = m.b128 ∧ int64Cast m.newSupply = m.newSupply
  | .withdraw op => ∀ p a, s.liquidityPools.find op.pool = some p →
      s.assets.find p.shareAsset = some a → 0 < p.balanceA ∧ 0 < p.balanceB →
      op.shareAmount.amount < a.currentSupply → ∀ balance ∈ [p.balanceA, p.balanceB], ∀ w,
      withdrawAmount op.shareAmount.amount balance a.currentSupply p.withdrawalFeePercent = .ok w →
      int64Cast w.pays = w.pays ∧ int64Cast w.fee = w.fee
  | .exchange op => ∀ p receives pays received newBalance e,
      s.liquidityPools.find op.pool = some p → 0 < p.balanceA ∧ 0 < p.balanceB →
      (receives, pays) ∈ [(p.balanceA, p.balanceB), (p.balanceB, p.balanceA)] → 0 < received →
      safe (receives + received) = .ok newBalance →
      exchangeAmount p.virtualValue newBalance pays p.takerFeePercent = .ok e →
      int64Cast (e.delta - e.poolTakerFee) = (e.delta : Int) - e.poolTakerFee ∧
        int64Cast e.poolTakerFee = e.poolTakerFee
  | .create _ | .delete _ | .issue _ | .reserve _ => True

def Operation.validate : Operation → Except Exception Unit
  | .create op => op.validate
  | .delete op => op.validate
  | .deposit op => op.validate
  | .withdraw op => op.validate
  | .exchange op => op.validate
  | .issue op => op.validate
  | .reserve op => op.validate

theorem sound_of_initial (h : Initial s) : Sound (view s) where
  supply := by
    intro id a ha
    obtain ⟨b, hb, rfl⟩ := Option.map_eq_some_iff.mp ha
    exact h.supply id b hb
  pool := fun id p hp => nomatch (h.pools id).symm.trans hp

theorem sound_of_reached (h : Reached calculateFee s) : Sound (view s) := by
  refine h.invariant (fun s => Sound (view s)) (fun _ => sound_of_initial) ?_
  intro s e s' hsound hrep hstep
  obtain ⟨r, hret⟩ := Lib.commit_eq_ok.mp hstep
  exact evaluate_sound hsound hrep hret

theorem representation_of_sound (h : Sound (view s)) : Representation s := by
  intro id p hp
  obtain ⟨a, ha, -, hpool⟩ := h.pool id p hp
  have hsupply := h.supply _ a ha
  obtain ⟨b, hb, rfl⟩ := Option.map_eq_some_iff.mp ha
  exact ⟨b, hb, hpool.both, hpool.both.symm.trans hpool.shares, hpool.virtualValue, hsupply.2.1⟩

theorem castsLossless_of_sound (h : Sound (view s)) {op : Operation} (hrep : op.Representable)
    (hvalid : op.validate = .ok ()) : CastsLossless s op := by
  cases op with
  | deposit op =>
    intro p a m hp ha hnonempty hm
    have ha' := State.assetView_of_find ha
    have hsupply := h.supply _ _ ha'
    obtain ⟨_, _, _, maxSupply, x, y, -, -, -, -, hx, hy, -, -, -, hmax63, hspec⟩ :=
      depositAmounts_ok (a := a) hvalid hrep (h.share hp ha').2 hnonempty hsupply.2 hm
    have hrep' : op.amountA.amount < 2 ^ 63 ∧ op.amountB.amount < 2 ^ 63 := hrep
    exact hspec.casts hmax63 (by omega) (by omega)
  | withdraw op =>
    intro p a hp ha hpos hlt balance hbalance w hw
    have ha' := State.assetView_of_find ha
    have hsupply : a.currentSupply ≤ maxShareSupply :=
      (h.supply _ _ ha').2.1.trans (h.supply _ _ ha').2.2
    have hpool := (h.share hp ha').2
    obtain ⟨-, hvalid⟩ := of_fcAssert hvalid
    have hshare := fcAssert_eq_ok.mp hvalid
    have hs63 : a.currentSupply < 2 ^ 63 := lt_of_le_of_lt hsupply (by decide)
    have hbounds : 0 < balance ∧ balance < 2 ^ 63 := by
      rcases List.mem_pair.mp hbalance with rfl | rfl
      · exact ⟨hpos.1, hpool.ltA⟩
      · exact ⟨hpos.2, hpool.ltB⟩
    obtain ⟨hpays, hfee, -⟩ := withdrawAmount_sound hshare hlt hs63 hbounds.1 hbounds.2 hw
    exact ⟨hpays, hfee⟩
  | exchange op =>
    intro p receives pays received newBalance e hp hpos hside hreceived hnew he
    obtain ⟨a, -, -, hpool⟩ := h.pool _ p hp
    obtain ⟨rfl, -, h63⟩ := of_safe hnew
    rcases List.mem_pair.mp hside with heq | heq
    · cases heq
      obtain ⟨hpays, hfee, -⟩ := exchangeAmount_sound hpos.1 hpos.2 hpool.ltB hpool.virtualValue
        (by omega) h63 he
      exact ⟨hpays, hfee⟩
    · cases heq
      obtain ⟨hpays, hfee, -⟩ := exchangeAmount_sound hpos.2 hpos.1 hpool.ltA
        (by rw [hpool.virtualValue, Int.mul_comm]) (by omega) h63 he
      exact ⟨hpays, hfee⟩
  | create op => trivial
  | delete op => trivial
  | issue op => trivial
  | reserve op => trivial

/-- Every reachable state represents its pools soundly; from there no operation fails with an
internal error, and none of its casts loses anything. -/
theorem pools_represented {calculateFee : Operation → Int} (h : Reached calculateFee s) :
    Representation s ∧
    (∀ (ctx : TransactionEvaluationState) (op : Operation), op.Representable →
      ¬Raises (evaluate ctx calculateFee op) s internalError) ∧
    (∀ op : Operation, op.Representable → op.validate = .ok () → CastsLossless s op) := by
  have hsound := sound_of_reached h
  exact ⟨representation_of_sound hsound, fun _ _ hrep => evaluate_silent hsound hrep,
    fun _ hrep hvalid => castsLossless_of_sound hsound hrep hvalid⟩

def seeded : State :=
  let options : AssetOptions := { coreExchangeRate := ⟨⟨1, 0⟩, ⟨1, 1⟩⟩ }
  { accounts := ((∅ : Index AccountObject).create ⟨0, 0, 0, [], [], none, 0, 0, 0⟩).create
      ⟨0, 0, 0, [], [], none, 0, 0, 0⟩
    assets := (((∅ : Index AssetObject).create
      { issuer := 0, options, currentSupply := 5000 }).create
      { issuer := 0, options, currentSupply := 5000 }).create { issuer := 1, options }
    balances := ((∅ : Lib.Rows (AccountId × AssetId) Int).insert (1, 0) 5000).insert (1, 1) 5000 }

theorem seeded_initial : Initial seeded where
  pools := fun _ => rfl
  supply := Index.forall_find_iff.mpr (by decide +kernel)

def poolRun (deposits : List (Int × Int)) : List (TransactionEvaluationState × Operation) :=
  ({}, .create ⟨⟨0, 0⟩, 1, 0, 1, 2, 30, 10⟩) ::
    deposits.map fun d => ({}, .deposit ⟨⟨0, 0⟩, 1, 0, ⟨d.1, 0⟩, ⟨d.2, 1⟩⟩)

theorem pools_represented_deposited :
    ∃ s, (Reached (fun _ => 0) s ∧ s.liquidityPools.find 0 =
        some ⟨0, 1, 1102, 552, 2, 30, 10, 608304⟩) ∧
      Representation s ∧
      (∀ (ctx : TransactionEvaluationState) (op : Operation), op.Representable →
        ¬Raises (evaluate ctx (fun _ => 0) op) s internalError) ∧
      (∀ op : Operation, op.Representable → op.validate = .ok () → CastsLossless s op) := by
  obtain ⟨s, hreached, hpool⟩ : ∃ s, Reached (fun _ => 0) s ∧
      s.liquidityPools.find 0 = some ⟨0, 1, 1102, 552, 2, 30, 10, 608304⟩ := Reachable.of_run
    (poolRun [(999, 500), (103, 52)]) seeded_initial (by decide +kernel) (by decide +kernel)
  exact ⟨s, ⟨hreached, hpool⟩, pools_represented hreached⟩

end Meta1Core.Pools
