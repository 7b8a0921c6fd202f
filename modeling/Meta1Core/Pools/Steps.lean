import Mathlib.Logic.Function.Basic
import Meta1Core.Ledger.Frame
import Meta1Core.Pools.Amounts

/-!
# What the operations do to pools and supplies

The pools and the assets apart from their fees are all that the pool evaluators decide on.  For each
operation: what its evaluation found out, and what its application did to this view of the state.
-/

namespace Meta1Core.Pools

open Lib (Index Returns Relates Raises of_bind)
open Protocol Ledger

@[ext] structure View where
  pools : Nat → Option LiquidityPool
  assets : AssetId → Option AssetObject

def view (s : State) : View := ⟨s.liquidityPools.find, s.assetView⟩

namespace View

def setPool (v : View) (id : Nat) (p : LiquidityPool) : View :=
  { v with pools := Function.update v.pools id (some p) }

def removePool (v : View) (id : Nat) : View :=
  { v with pools := Function.update v.pools id none }

def setAsset (v : View) (id : AssetId) (a : AssetObject) : View :=
  { v with assets := Function.update v.assets id (some a) }

theorem setPool_self (v : View) (id : Nat) (p : LiquidityPool) :
    (v.setPool id p).pools id = some p :=
  Function.update_self id _ v.pools

theorem setPool_of_ne (v : View) {id j : Nat} (h : j ≠ id) (p : LiquidityPool) :
    (v.setPool id p).pools j = v.pools j :=
  Function.update_of_ne h _ v.pools

theorem removePool_of_ne (v : View) {id j : Nat} (h : j ≠ id) :
    (v.removePool id).pools j = v.pools j :=
  Function.update_of_ne h _ v.pools

theorem setAsset_self (v : View) (id : AssetId) (a : AssetObject) :
    (v.setAsset id a).assets id = some a :=
  Function.update_self id _ v.assets

theorem setAsset_of_ne (v : View) {id j : AssetId} (h : j ≠ id) (a : AssetObject) :
    (v.setAsset id a).assets j = v.assets j :=
  Function.update_of_ne h _ v.assets

end View

variable {s s' : State}

theorem view_eq_of_feesOnly (h : FeesOnly s s') : view s' = view s := by
  rw [view, view, h.liquidityPools, funext h.assets]

theorem view_eq_of_relates {α : Type} {x : Evaluation α} {a : α} (hx : Relates FeesOnly x)
    (h : Returns x s a s') : view s' = view s :=
  view_eq_of_feesOnly (hx _ _ _ h)

variable {id : AssetId} {a : AssetObject}

theorem fetchAsset_view (h : Returns (assets.fetch id) s a s') :
    s' = s ∧ (view s).assets id = some a.withoutFees := by
  obtain ⟨hfind, rfl⟩ := Table.fetch_iff.mp h
  exact ⟨rfl, State.assetView_of_find hfind⟩

variable {p : LiquidityPool} {u : Unit} {op : LiquidityPoolExchangeOperation} {r : ExchangeResult}

theorem fetchPool_view {id : Nat} (h : Returns (liquidityPools.fetch id) s p s') :
    s' = s ∧ (view s).pools id = some p := by
  obtain ⟨hfind, rfl⟩ := Table.fetch_iff.mp h
  exact ⟨rfl, hfind⟩

theorem updateAsset_view {f : AssetObject → Except Exception AssetObject}
    (h : Returns (assets.update id f) s u s') :
    ∃ a a', (view s).assets id = some a.withoutFees ∧ f a = .ok a' ∧
      view s' = (view s).setAsset id a'.withoutFees := by
  obtain ⟨a, a', hfind, hf, rfl, hview⟩ := assetView_of_update h
  refine ⟨a, a', State.assetView_of_find hfind, hf, View.ext rfl (funext fun j => ?_)⟩
  exact (hview j).trans (Function.update_apply ..).symm

theorem updatePool_view {id : Nat} {f : LiquidityPool → Except Exception LiquidityPool}
    (h : Returns (liquidityPools.update id f) s u s') :
    ∃ p p', (view s).pools id = some p ∧ f p = .ok p' ∧ view s' = (view s).setPool id p' := by
  obtain ⟨p, p', hfind, hf, rfl⟩ := Table.update_iff.mp h
  have hfind' : s.liquidityPools.find id = some p := hfind
  refine ⟨p, p', hfind', hf, View.ext (funext fun j => ?_) rfl⟩
  change (s.liquidityPools.modify id fun _ => p').find j =
    Function.update s.liquidityPools.find id (some p') j
  rw [Index.find_modify, Function.update_apply, hfind']
  rfl

def addSupply (a : AssetObject) (delta : Int) : AssetObject :=
  { a with currentSupply := a.currentSupply + delta }

theorem updateSupply_view (delta : Int) (h : Returns (assets.update id fun a =>
      return { a with currentSupply := ← safe (a.currentSupply + delta) }) s u s') :
    ∃ a, (view s).assets id = some a ∧ view s' = (view s).setAsset id (addSupply a delta) := by
  obtain ⟨a, a', hfind, hf, hview⟩ := updateAsset_view h
  obtain ⟨supply, hsafe, hf⟩ := of_bind hf
  cases hf
  unfold safe at hsafe
  split at hsafe
  · cases hsafe
    exact ⟨_, hfind, hview⟩
  · cases hsafe

def withBalances (p : LiquidityPool) (balanceA balanceB : Int) : LiquidityPool :=
  updateVirtualValue { p with balanceA, balanceB }

/-- The view after the pool `id` got the balances `balanceA` and `balanceB` and its share asset
`delta` more shares -/
def View.move (v : View) (id : Nat) (p : LiquidityPool) (a : AssetObject)
    (balanceA balanceB delta : Int) : View :=
  (v.setPool id (withBalances p balanceA balanceB)).setAsset p.shareAsset (addSupply a delta)

theorem View.move_pools (v : View) (id : Nat) (p : LiquidityPool) (a : AssetObject)
    (balanceA balanceB delta : Int) :
    (v.move id p a balanceA balanceB delta).pools id = some (withBalances p balanceA balanceB) :=
  View.setPool_self v id _

theorem updateBalances_view {id : Nat} {f g : LiquidityPool → Int}
    (h : Returns (liquidityPools.update id fun p => do
      let balanceA ← safe (f p)
      let balanceB ← safe (g p)
      return updateVirtualValue { p with balanceA, balanceB }) s u s') :
    ∃ p, (view s).pools id = some p ∧ f p < 2 ^ 63 ∧ g p < 2 ^ 63 ∧
      view s' = (view s).setPool id (withBalances p (f p) (g p)) := by
  obtain ⟨p, p', hfind, hf, hview⟩ := updatePool_view h
  obtain ⟨balanceA, hA, hf⟩ := of_bind hf
  obtain ⟨balanceB, hB, hf⟩ := of_bind hf
  obtain ⟨rfl, -, hA63⟩ := of_safe hA
  obtain ⟨rfl, -, hB63⟩ := of_safe hB
  cases hf
  exact ⟨p, hfind, hA63, hB63, hview⟩

inductive DepositOutcome (op : LiquidityPoolDepositOperation) (p : LiquidityPool)
    (a : AssetObject) : Deposit → Prop
  | initial (hempty : p.balanceA = 0)
      (hmax : Max.max op.amountA.amount op.amountB.amount ≤ a.options.maxSupply) :
      DepositOutcome op p a
        ⟨op.amountA.amount, op.amountB.amount, Max.max op.amountA.amount op.amountB.amount⟩
  | further (m : DepositAmounts) (hnonempty : p.balanceA ≠ 0)
      (hm : depositAmounts p a.currentSupply a.options.maxSupply op.amountA.amount
        op.amountB.amount = .ok m) :
      DepositOutcome op p a ⟨int64Cast m.a128, int64Cast m.b128, int64Cast m.newSupply⟩

theorem deposit_evaluated {op : LiquidityPoolDepositOperation} {d : Deposit}
    (h : Returns op.doEvaluate s d s') :
    s' = s ∧ ∃ p a, (view s).pools op.pool = some p ∧ (view s).assets p.shareAsset = some a ∧
      DepositOutcome op p a d := by
  simp only [LiquidityPoolDepositOperation.doEvaluate, Returns.bind_iff, returns_require] at h
  obtain ⟨p, _, hp, _, _, ⟨-, rfl⟩, _, _, ⟨-, rfl⟩, _, _, ⟨-, rfl⟩, a, _, ha, _, _, ⟨-, rfl⟩, _, _,
    ⟨-, rfl⟩, _, _, ⟨-, rfl⟩, account, _, haccount, _, _, ⟨-, rfl⟩, _, _, hassetA, _, _, ⟨-, rfl⟩,
    _, _, hassetB, _, _, ⟨-, rfl⟩, h⟩ := h
  obtain ⟨rfl, hp⟩ := fetchPool_view hp
  obtain ⟨rfl, ha⟩ := fetchAsset_view ha
  obtain ⟨-, rfl⟩ := Table.fetch_iff.mp haccount
  obtain ⟨rfl, -⟩ := fetchAsset_view hassetA
  obtain ⟨rfl, -⟩ := fetchAsset_view hassetB
  rcases h.of_ite with ⟨hempty, h⟩ | ⟨hnonempty, h⟩
  · obtain ⟨_, _, hmax, hret⟩ := h.of_bind
    obtain ⟨hle, rfl⟩ := returns_require.mp hmax
    obtain ⟨rfl, rfl⟩ := hret.of_pure
    exact ⟨rfl, p, _, hp, ha, .initial hempty hle⟩
  · obtain ⟨m, _, hm, hret⟩ := h.of_bind
    obtain ⟨hok, rfl⟩ := Returns.lift_iff.mp hm
    obtain ⟨rfl, rfl⟩ := hret.of_pure
    exact ⟨rfl, p, _, hp, ha, .further m hnonempty hok⟩

theorem deposit_moved {op : LiquidityPoolDepositOperation} {d : Deposit}
    (h : Returns (op.move d) s u s') :
    ∃ p a, (view s).pools op.pool = some p ∧ (view s).assets p.shareAsset = some a ∧
      p.balanceA + d.poolReceivesA < 2 ^ 63 ∧ p.balanceB + d.poolReceivesB < 2 ^ 63 ∧
      view s' = (view s).move op.pool p a (p.balanceA + d.poolReceivesA)
        (p.balanceB + d.poolReceivesB) d.accountReceives := by
  simp only [LiquidityPoolDepositOperation.move, Returns.bind_iff] at h
  obtain ⟨p, _, hp, _, s1, h1, _, s2, h2, _, s3, h3, _, s4, h4, h5⟩ := h
  obtain ⟨rfl, hp⟩ := fetchPool_view hp
  have h1 := view_eq_of_relates (adjustBalance_feesOnly _ _) h1
  have h2 := view_eq_of_relates (adjustBalance_feesOnly _ _) h2
  have h3 := view_eq_of_relates (adjustBalance_feesOnly _ _) h3
  have hview := h3.trans (h2.trans h1)
  obtain ⟨q, hq, hA, hB, hpools⟩ := updateBalances_view h4
  rw [hview] at hq hpools
  obtain rfl : q = p := Option.some.inj (hq.symm.trans hp)
  obtain ⟨a, ha, hsupply⟩ := updateSupply_view _ h5
  rw [hpools] at ha hsupply
  exact ⟨q, a, hp, ha, hA, hB, hsupply⟩

inductive WithdrawOutcome (op : LiquidityPoolWithdrawOperation) (p : LiquidityPool)
    (a : AssetObject) : Withdrawal → Prop
  | all (hall : a.currentSupply = op.shareAmount.amount) :
      WithdrawOutcome op p a ⟨p.balanceA, p.balanceB, 0, 0⟩
  | part (wa wb : WithdrawAmount) (hpart : a.currentSupply ≠ op.shareAmount.amount)
      (hwa : withdrawAmount op.shareAmount.amount p.balanceA a.currentSupply
        p.withdrawalFeePercent = .ok wa)
      (hwb : withdrawAmount op.shareAmount.amount p.balanceB a.currentSupply
        p.withdrawalFeePercent = .ok wb) :
      WithdrawOutcome op p a
        ⟨int64Cast wa.pays, int64Cast wb.pays, int64Cast wa.fee, int64Cast wb.fee⟩

variable {w : Withdrawal}

theorem withdraw_evaluated {op : LiquidityPoolWithdrawOperation} (h : Returns op.doEvaluate s w s') :
    s' = s ∧ ∃ p a, (view s).pools op.pool = some p ∧ (view s).assets p.shareAsset = some a ∧
      op.shareAmount.assetId = p.shareAsset ∧ 0 < p.balanceA ∧ 0 < p.balanceB ∧
      op.shareAmount.amount ≤ a.currentSupply ∧ WithdrawOutcome op p a w := by
  simp only [LiquidityPoolWithdrawOperation.doEvaluate, Returns.bind_iff, returns_require] at h
  obtain ⟨p, _, hp, _, _, ⟨hshare, rfl⟩, _, _, ⟨hpos, rfl⟩, a, _, ha, account, _, haccount, _, _,
    ⟨-, rfl⟩, _, _, hassetA, _, _, ⟨-, rfl⟩, _, _, hassetB, _, _, ⟨-, rfl⟩, _, _, ⟨hle, rfl⟩,
    hrest⟩ := h
  obtain ⟨rfl, hp⟩ := fetchPool_view hp
  obtain ⟨rfl, ha⟩ := fetchAsset_view ha
  obtain ⟨-, rfl⟩ := Table.fetch_iff.mp haccount
  obtain ⟨rfl, -⟩ := fetchAsset_view hassetA
  obtain ⟨rfl, -⟩ := fetchAsset_view hassetB
  suffices s' = _ ∧ WithdrawOutcome op p a.withoutFees w from
    ⟨this.1, p, _, hp, ha, hshare, hpos.1, hpos.2, hle, this.2⟩
  rcases hrest.of_ite with ⟨hall, hret⟩ | ⟨hpart, hret⟩
  · obtain ⟨rfl, rfl⟩ := hret.of_pure
    exact ⟨rfl, .all hall⟩
  · simp only [Returns.bind_iff, Returns.lift_iff, returns_require, Returns.pure_iff] at hret
    obtain ⟨wa, _, ⟨hwa, rfl⟩, wb, _, ⟨hwb, rfl⟩, _, _, ⟨-, rfl⟩, rfl, rfl⟩ := hret
    exact ⟨rfl, .part wa wb hpart hwa hwb⟩

theorem payOut_feesOnly (account : AccountId) (pays : Asset) :
    Relates FeesOnly (payOut account pays) :=
  .ite (adjustBalance_feesOnly _ _) (.pure _)

theorem withdraw_moved {op : LiquidityPoolWithdrawOperation} (h : Returns (op.move w) s u s') :
    ∃ p a, (view s).pools op.pool = some p ∧ (view s).assets p.shareAsset = some a ∧
      p.balanceA - w.poolPaysA < 2 ^ 63 ∧ p.balanceB - w.poolPaysB < 2 ^ 63 ∧
      view s' = (view s).move op.pool p a (p.balanceA - w.poolPaysA) (p.balanceB - w.poolPaysB)
        (-op.shareAmount.amount) := by
  simp only [LiquidityPoolWithdrawOperation.move, Returns.bind_iff] at h
  obtain ⟨p, _, hp, _, s1, h1, _, s2, h2, _, s3, h3, _, s4, h4, h5⟩ := h
  obtain ⟨rfl, hp⟩ := fetchPool_view hp
  have hview := (view_eq_of_relates (payOut_feesOnly _ _) h3).trans
    ((view_eq_of_relates (payOut_feesOnly _ _) h2).trans
      (view_eq_of_relates (adjustBalance_feesOnly _ _) h1))
  obtain ⟨a, ha, hsupply⟩ := updateSupply_view (-op.shareAmount.amount) h4
  rw [hview] at ha hsupply
  obtain ⟨q, hq, hA, hB, hpools⟩ := updateBalances_view h5
  rw [hsupply] at hq hpools
  obtain rfl : q = p := Option.some.inj (hq.symm.trans hp)
  exact ⟨q, a, hp, ha, hA, hB, hpools⟩

/-! ## Exchanges -/

/-- What the pool receives and pays in an exchange of `sold`, given what it holds of the asset that
it receives and of the one that it pays -/
structure ExchangeOutcome (p : LiquidityPool) (receivesBalance paysBalance : Int) (x : Exchange) :
    Prop where
  received_pos : 0 < x.poolReceives.amount
  fits : receivesBalance + x.poolReceives.amount < 2 ^ 63
  amount : ∃ e, exchangeAmount p.virtualValue (receivesBalance + x.poolReceives.amount) paysBalance
      p.takerFeePercent = .ok e ∧
    x.poolPays.amount = int64Cast (e.delta - e.poolTakerFee) ∧
    x.poolTakerFee.amount = int64Cast e.poolTakerFee

theorem received_pos {sold fee received : Asset} {lower : Bool} (hlt : fee.lt sold = .ok lower)
    (htrue : lower = true) (hsub : sold.sub fee = .ok received) : 0 < received.amount := by
  obtain ⟨-, hlt⟩ := of_fcAssert hlt
  obtain ⟨-, hsub⟩ := of_fcAssert hsub
  obtain ⟨rest, hrest, hsub⟩ := of_bind hsub
  obtain ⟨rfl, -⟩ := of_safe hrest
  cases hsub
  cases hlt
  have := of_decide_eq_true htrue
  dsimp only
  omega

variable {x : Exchange}

theorem exchange_amounts {receivesAsset paysAsset : AssetObject} {receivesBalance paysBalance : Int}
    (h : op.amounts p receivesAsset paysAsset receivesBalance paysBalance = .ok x) :
    ExchangeOutcome p receivesBalance paysBalance x := by
  obtain ⟨makerFee, -, h⟩ := of_bind h
  obtain ⟨lower, hlt, h⟩ := of_bind h
  obtain ⟨htrue, h⟩ := of_fcAssert h
  obtain ⟨receives, hsub, h⟩ := of_bind h
  obtain ⟨newBalance, hnew, h⟩ := of_bind h
  obtain ⟨e, he, h⟩ := of_bind h
  obtain ⟨takerFee, -, h⟩ := of_bind h
  obtain ⟨_, -, h⟩ := of_bind h
  obtain ⟨-, h⟩ := of_fcAssert h
  obtain ⟨accountReceives, -, h⟩ := of_bind h
  obtain ⟨-, h⟩ := of_fcAssert h
  cases h
  obtain ⟨rfl, -, hfits⟩ := of_safe hnew
  exact ⟨received_pos hlt htrue hsub, hfits, e, he, by dsimp only, by dsimp only⟩

theorem exchange_evaluated (h : Returns op.doEvaluate s x s') :
    s' = s ∧ ∃ p, (view s).pools op.pool = some p ∧ 0 < p.balanceA ∧ 0 < p.balanceB ∧
      if op.amountToSell.assetId = p.assetA then ExchangeOutcome p p.balanceA p.balanceB x
      else ExchangeOutcome p p.balanceB p.balanceA x := by
  simp only [LiquidityPoolExchangeOperation.doEvaluate, Returns.bind_iff, returns_require,
    Returns.ite_iff, Returns.lift_iff] at h
  obtain ⟨p, _, hp, _, _, ⟨hpos, rfl⟩, _, _, ⟨-, rfl⟩, account, _, haccount, assetA, _, hassetA,
    _, _, ⟨-, rfl⟩, assetB, _, hassetB, _, _, ⟨-, rfl⟩, hrest⟩ := h
  obtain ⟨rfl, hp⟩ := fetchPool_view hp
  obtain ⟨-, rfl⟩ := Table.fetch_iff.mp haccount
  obtain ⟨rfl, -⟩ := fetchAsset_view hassetA
  obtain ⟨rfl, -⟩ := fetchAsset_view hassetB
  rcases hrest with ⟨hside, hx, rfl⟩ | ⟨hside, hx, rfl⟩
  · exact ⟨rfl, p, hp, hpos.1, hpos.2, by rw [if_pos hside]; exact exchange_amounts hx⟩
  · exact ⟨rfl, p, hp, hpos.1, hpos.2, by rw [if_neg hside]; exact exchange_amounts hx⟩

def exchangedBalances (p : LiquidityPool) (sellsA : Prop) [Decidable sellsA] (x : Exchange) :
    Int × Int :=
  if sellsA then (p.balanceA + x.poolReceives.amount, p.balanceB - x.poolPays.amount)
  else (p.balanceA - x.poolPays.amount, p.balanceB + x.poolReceives.amount)

theorem addSupply_zero (a : AssetObject) : addSupply a 0 = a := by
  rw [addSupply, add_zero]

theorem View.move_zero {v : View} (ha : v.assets p.shareAsset = some a) (id : Nat)
    (balanceA balanceB : Int) :
    v.move id p a balanceA balanceB 0 = v.setPool id (withBalances p balanceA balanceB) := by
  rw [View.move, addSupply_zero, View.setAsset]
  refine View.ext rfl ?_
  change Function.update v.assets p.shareAsset (some a) = v.assets
  rw [← ha, Function.update_eq_self]

theorem exchange_moved {old : Nat} (h : Returns (op.move x) s old s') :
    ∃ p a b, (view s).pools op.pool = some p ∧ (view s).assets p.shareAsset = some a ∧
      b = exchangedBalances p (op.amountToSell.assetId = p.assetA) x ∧
      b.1 < 2 ^ 63 ∧ b.2 < 2 ^ 63 ∧ old = p.virtualValue ∧
      view s' = (view s).move op.pool p a b.1 b.2 0 := by
  simp only [LiquidityPoolExchangeOperation.move, Returns.bind_iff, Returns.pure_iff] at h
  obtain ⟨p, _, hp, _, s1, h1, _, s2, h2, a, _, hshare, owner, _, howner, _, s3, h3, account, _,
    haccount, _, s4, h4, _, s5, h5, rfl, rfl⟩ := h
  obtain ⟨rfl, hp⟩ := fetchPool_view hp
  obtain ⟨rfl, ha⟩ := fetchAsset_view hshare
  obtain ⟨-, rfl⟩ := Table.fetch_iff.mp howner
  obtain ⟨-, rfl⟩ := Table.fetch_iff.mp haccount
  have hview2 := (view_eq_of_relates (adjustBalance_feesOnly _ _) h2).trans
    (view_eq_of_relates (adjustBalance_feesOnly _ _) h1)
  have hview := (view_eq_of_relates (payCalculatedMarketFees_feesOnly _ _ _ _) h4).trans
    ((view_eq_of_relates (payCalculatedMarketFees_feesOnly _ _ _ _) h3).trans hview2)
  rw [hview2] at ha
  obtain ⟨q, q', hq, hf, hpools⟩ := updatePool_view h5
  rw [hview] at hq hpools
  obtain rfl : q = p := Option.some.inj (hq.symm.trans hp)
  refine ⟨q, a.withoutFees, _, hp, ha, rfl, ?_⟩
  unfold exchangedBalances
  split at hf
  all_goals
    rename_i hside
    obtain ⟨balance, hfirst, hf⟩ := of_bind hf
    obtain ⟨balance', hsecond, hf⟩ := of_bind hf
    obtain ⟨rfl, -, hfits⟩ := of_safe hfirst
    obtain ⟨rfl, -, hfits'⟩ := of_safe hsecond
    cases hf
  · rw [if_pos hside, View.move_zero ha]
    exact ⟨hfits, hfits', rfl, hpools⟩
  · rw [if_neg hside, View.move_zero ha]
    exact ⟨hfits', hfits, rfl, hpools⟩

theorem create_evaluated {op : LiquidityPoolCreateOperation} (h : Returns op.doEvaluate s u s') :
    s' = s ∧ ∃ a, (view s).assets op.shareAsset = some a ∧ a.forLiquidityPool = none ∧
      a.currentSupply = 0 := by
  simp only [LiquidityPoolCreateOperation.doEvaluate, Returns.bind_iff, returns_require] at h
  obtain ⟨_, _, hassetA, _, _, hassetB, a, _, ha, _, _, ⟨-, rfl⟩, _, _, ⟨-, rfl⟩, _, _,
    ⟨hnone, rfl⟩, hzero, rfl⟩ := h
  obtain ⟨rfl, -⟩ := fetchAsset_view hassetA
  obtain ⟨rfl, -⟩ := fetchAsset_view hassetB
  obtain ⟨rfl, ha⟩ := fetchAsset_view ha
  exact ⟨rfl, _, ha, Option.isNone_iff_eq_none.mp hnone, hzero⟩

def LiquidityPoolCreateOperation.newPool (op : LiquidityPoolCreateOperation) : LiquidityPool :=
  { assetA := op.assetA
    assetB := op.assetB
    shareAsset := op.shareAsset
    takerFeePercent := op.takerFeePercent
    withdrawalFeePercent := op.withdrawalFeePercent }

theorem create_applied {op : LiquidityPoolCreateOperation} (h : Returns op.doApply s r s') :
    ∃ id a, (view s).pools id = none ∧ (view s).assets op.shareAsset = some a ∧
      view s' = ((view s).setPool id op.newPool).setAsset op.shareAsset
        { a with forLiquidityPool := some id } := by
  simp only [LiquidityPoolCreateOperation.doApply, Returns.bind_iff, returns_require,
    Returns.get_iff] at h
  obtain ⟨_, _, ⟨rfl, rfl⟩, _, _, ⟨-, rfl⟩, id, s1, hcreate, _, s2, hupdate, hret⟩ := h
  obtain ⟨rfl, rfl⟩ := hret.of_pure
  obtain ⟨rfl, rfl⟩ := Table.create_iff.mp hcreate
  obtain ⟨a, a', ha, hf, hview⟩ := updateAsset_view hupdate
  cases hf
  refine ⟨_, a.withoutFees, Index.find_next _, ha, ?_⟩
  rw [hview]
  refine View.ext (funext fun j => ?_) rfl
  change (Index.create _ _).find j = Function.update (Index.find _) _ _ j
  rw [Index.find_create, Function.update_apply]
  rfl

theorem delete_evaluated {op : LiquidityPoolDeleteOperation} (h : Returns op.doEvaluate s p s') :
    s' = s ∧ (view s).pools op.pool = some p ∧ p.balanceA = 0 := by
  simp only [LiquidityPoolDeleteOperation.doEvaluate, Returns.bind_iff, returns_require,
    Returns.pure_iff] at h
  obtain ⟨q, _, hq, _, _, ⟨hzero, rfl⟩, a, _, ha, _, _, ⟨-, rfl⟩, rfl, rfl⟩ := h
  obtain ⟨rfl, hq⟩ := fetchPool_view hq
  obtain ⟨rfl, -⟩ := fetchAsset_view ha
  exact ⟨rfl, hq, hzero.1⟩

theorem delete_applied {op : LiquidityPoolDeleteOperation} (h : Returns (op.doApply p) s r s') :
    ∃ a, (view s).assets p.shareAsset = some a ∧
      view s' = ((view s).removePool op.pool).setAsset p.shareAsset
        { a with forLiquidityPool := none } := by
  simp only [LiquidityPoolDeleteOperation.doApply, Returns.bind_iff, Returns.pure_iff,
    Table.remove_iff] at h
  obtain ⟨_, s1, hupdate, _, _, rfl, rfl, rfl⟩ := h
  obtain ⟨a, a', ha, hf, hview⟩ := updateAsset_view hupdate
  cases hf
  refine ⟨a.withoutFees, ha, ?_⟩
  have hassets := congrArg View.assets hview
  have hpools := congrArg View.pools hview
  refine View.ext (funext fun j => ?_) hassets
  change (Index.remove _ _).find j = Function.update (view s).pools _ _ j
  rw [Index.find_remove, Function.update_apply]
  exact ite_congr rfl (fun _ => rfl) fun _ => congrFun hpools j

theorem issue_evaluated {op : AssetIssueOperation} (h : Returns op.doEvaluate s u s') :
    s' = s ∧ ∃ a, (view s).assets op.assetToIssue.assetId = some a ∧ a.forLiquidityPool = none ∧
      a.currentSupply + op.assetToIssue.amount ≤ a.options.maxSupply := by
  simp only [AssetIssueOperation.doEvaluate, Returns.bind_iff, returns_require,
    Returns.lift_iff] at h
  obtain ⟨a, _, ha, _, _, ⟨-, rfl⟩, _, _, ⟨-, rfl⟩, _, _, ⟨hnone, rfl⟩, account, _, haccount, _, _,
    ⟨-, rfl⟩, sum, _, ⟨hsum, rfl⟩, hle, rfl⟩ := h
  obtain ⟨rfl, ha⟩ := fetchAsset_view ha
  obtain ⟨-, rfl⟩ := Table.fetch_iff.mp haccount
  obtain ⟨rfl, -⟩ := of_safe hsum
  exact ⟨rfl, _, ha, Option.isNone_iff_eq_none.mp hnone, hle⟩

theorem issue_applied {op : AssetIssueOperation} (h : Returns op.doApply s r s') :
    ∃ a, (view s).assets op.assetToIssue.assetId = some a ∧
      view s' = (view s).setAsset op.assetToIssue.assetId (addSupply a op.assetToIssue.amount) := by
  simp only [AssetIssueOperation.doApply, Returns.bind_iff, Returns.pure_iff] at h
  obtain ⟨_, s1, h1, _, s2, h2, rfl, rfl⟩ := h
  have hview := view_eq_of_relates (adjustBalance_feesOnly _ _) h1
  obtain ⟨a, ha, hsupply⟩ := updateSupply_view _ h2
  rw [hview] at ha hsupply
  exact ⟨a, ha, hsupply⟩

theorem reserve_evaluated {op : AssetReserveOperation} (h : Returns op.doEvaluate s u s') :
    s' = s ∧ ∃ a, (view s).assets op.amountToReserve.assetId = some a ∧
      op.amountToReserve.amount ≤ a.currentSupply ∧
      (a.forLiquidityPool ≠ none → op.amountToReserve.amount < a.currentSupply) := by
  simp only [AssetReserveOperation.doEvaluate, Returns.bind_iff, returns_require] at h
  obtain ⟨a, _, ha, _, _, ⟨-, rfl⟩, account, _, haccount, _, _, ⟨-, rfl⟩, hrest⟩ := h
  obtain ⟨rfl, ha⟩ := fetchAsset_view ha
  obtain ⟨-, rfl⟩ := Table.fetch_iff.mp haccount
  rcases hrest.of_ite with ⟨hnone, hret⟩ | ⟨-, hret⟩
  · obtain ⟨hle, rfl⟩ := returns_require.mp hret
    exact ⟨rfl, _, ha, hle, fun hne => absurd (Option.isNone_iff_eq_none.mp hnone) hne⟩
  · obtain ⟨hlt, rfl⟩ := returns_require.mp hret
    exact ⟨rfl, _, ha, le_of_lt hlt, fun _ => hlt⟩

theorem reserve_applied {op : AssetReserveOperation} (h : Returns op.doApply s r s') :
    ∃ a, (view s).assets op.amountToReserve.assetId = some a ∧
      view s' = (view s).setAsset op.amountToReserve.assetId
        (addSupply a (-op.amountToReserve.amount)) := by
  simp only [AssetReserveOperation.doApply, Returns.bind_iff, Returns.pure_iff] at h
  obtain ⟨_, s1, h1, _, s2, h2, rfl, rfl⟩ := h
  have hview := view_eq_of_relates (adjustBalance_feesOnly _ _) h1
  obtain ⟨a, ha, hsupply⟩ := updateSupply_view (-op.amountToReserve.amount) h2
  rw [hview] at ha hsupply
  exact ⟨a, ha, hsupply⟩

end Meta1Core.Pools
