import Mathlib.Order.Bounds.Basic
import Meta1Core.Ledger.Avoids
import Meta1Core.Market.LimitOrders

/-!
# Limit orders are matched fairly

Two limit orders that cross trade at the price of the maker.  The bigger side trades at that price or
better, the smaller side loses less than a unit to rounding, and one of the two leaves the book.
-/

namespace Meta1Core.Market

open Lib (Rows Index Returns Raises RoundsTo)
open Protocol Ledger

variable {o : LimitOrder}

theorem amountToReceive_of_worth (hp : GoodPrice o.sellPrice) (hsale : 0 ≤ o.forSale)
    (hle : LimitOrder.worth o ≤ maxShareSupply) :
    o.amountToReceive = .ok ⟨LimitOrder.worth o, o.sellPrice.quote.assetId⟩ :=
  mul_base hp hsale hle

theorem worth_of_amountToReceive {r : Asset} (h : o.amountToReceive = .ok r) :
    r.amount = LimitOrder.worth o := by
  obtain ⟨-, -, -, rfl⟩ := (Asset.mul_base_eq_ok (a := o.amountForSale) rfl).mp h
  rfl

theorem worth_afterFill (o : LimitOrder) (pays : Int) :
    LimitOrder.worth (LimitOrder.afterFill o pays) =
      (o.forSale - pays) * o.sellPrice.quote.amount / o.sellPrice.base.amount :=
  rfl

theorem worth_afterFill_le (hp : GoodPrice o.sellPrice) {pays : Int} (hpays : 0 ≤ pays) :
    LimitOrder.worth (LimitOrder.afterFill o pays) ≤ LimitOrder.worth o := by
  rw [worth_afterFill]
  apply Int.ediv_le_ediv hp.base_pos
  apply mul_le_mul_of_nonneg_right _ hp.quote_pos.le
  omega

variable {taker maker : LimitOrder}

theorem own_price_le (htaker : GoodPrice taker.sellPrice) (hmaker : GoodPrice maker.sellPrice)
    (hcross : LimitOrder.Crosses taker maker) {x : Int} (hx : 0 ≤ x)
    (h : x * maker.sellPrice.base.amount / maker.sellPrice.quote.amount = 0) :
    x * taker.sellPrice.quote.amount / taker.sellPrice.base.amount = 0 := by
  have hq := hmaker.quote_pos
  have hlt : x * maker.sellPrice.base.amount < maker.sellPrice.quote.amount := by
    have hlt := (Int.ediv_lt_iff_lt_mul hq).mp (h.trans_lt zero_lt_one)
    rwa [one_mul] at hlt
  apply Int.ediv_eq_zero_of_lt (mul_nonneg hx htaker.quote_pos.le)
  apply lt_of_mul_lt_mul_right _ hq.le
  calc x * taker.sellPrice.quote.amount * maker.sellPrice.quote.amount
      = x * (taker.sellPrice.quote.amount * maker.sellPrice.quote.amount) := mul_assoc _ _ _
    _ ≤ x * (taker.sellPrice.base.amount * maker.sellPrice.base.amount) :=
        mul_le_mul_of_nonneg_left hcross hx
    _ = taker.sellPrice.base.amount * (x * maker.sellPrice.base.amount) := by ring
    _ < taker.sellPrice.base.amount * maker.sellPrice.quote.amount :=
        mul_lt_mul_of_pos_left hlt htaker.base_pos

/-- The smaller side of a trade pays `pays` for `gets` at `n / d`: the bigger side trades at that
price or better, and nothing less than `pays` is worth `gets`. -/
structure FairTrade (n d pays gets : Int) : Prop where
  bigger : gets * d ≤ pays * n
  smaller : IsLeast {x | x * n / d = gets} pays
  rounding : (pays - 1) * n < gets * d

structure FairMatch (taker maker : LimitOrder) (m : LimitMatch) : Prop where
  usdPays_id : m.usdPays.assetId = taker.sellPrice.base.assetId
  usdReceives_id : m.usdReceives.assetId = maker.sellPrice.base.assetId
  takerPays_pos : 1 ≤ m.usdPays.amount
  takerPays_le : m.usdPays.amount ≤ taker.forSale
  makerPays_pos : 1 ≤ m.usdReceives.amount
  makerPays_le : m.usdReceives.amount ≤ maker.forSale
  takerSmaller : taker.forSale ≤ LimitOrder.worth maker →
    FairTrade maker.sellPrice.base.amount maker.sellPrice.quote.amount m.usdPays.amount
      m.usdReceives.amount
  makerSmaller : LimitOrder.worth maker < taker.forSale →
    FairTrade maker.sellPrice.quote.amount maker.sellPrice.base.amount m.usdReceives.amount
      m.usdPays.amount
  takerLeft : m.cullTaker = true →
    ∃ r, (LimitOrder.afterFill taker m.usdPays.amount).amountToReceive = .ok r
  makerLeft : ∃ r, (LimitOrder.afterFill maker m.usdReceives.amount).amountToReceive = .ok r
  /-- one of the two is worth nothing any more -/
  small : m.cullTaker = true ∧ LimitOrder.worth (LimitOrder.afterFill taker m.usdPays.amount) = 0 ∨
    LimitOrder.worth (LimitOrder.afterFill maker m.usdReceives.amount) = 0

structure LimitOrder.Resting (o : LimitOrder) : Prop extends LimitOrder.Sound o where
  worth_pos : 0 < LimitOrder.worth o

theorem fairTrade_of_roundsTo {n d x r p : Int} (h : RoundsTo n d x r p) (hn : 0 < n) (hd : 0 < d) :
    FairTrade n d p r where
  bigger := h.value_mul_le_least hn
  smaller := ⟨h.least_value hn hd, fun _ hy => h.least_le hn hd hy⟩
  rounding := h.least_lt hn

theorem limitAmounts_fair (htaker : LimitOrder.Sound taker) (hmaker : LimitOrder.Resting maker)
    (hopp : LimitOrder.Opposite taker maker) (hcross : LimitOrder.Crosses taker maker)
    (hworth : LimitOrder.worth maker ≤ maxShareSupply) :
    ∃ outcome,
      limitAmounts taker.amountForSale maker.amountForSale maker.sellPrice = .ok outcome ∧
      (outcome = none →
        taker.forSale * maker.sellPrice.base.amount / maker.sellPrice.quote.amount = 0) ∧
      ∀ m, outcome = some m → FairMatch taker maker m := by
  have hbase := hmaker.price.base_pos
  have hquote := hmaker.price.quote_pos
  rcases le_or_gt taker.forSale (LimitOrder.worth maker) with hle | hlt
  · obtain ⟨r, p, hround, hr_le, hamounts⟩ :=
      limitAmounts_taker hmaker.toSound htaker.forSale_pos hopp hworth hle
    refine ⟨_, hamounts, fun hnone => ?_, fun m hm => ?_⟩
    · by_cases hzero : r = 0
      · rw [hround.value, hzero]
      · rw [if_neg hzero] at hnone
        cases hnone
    · by_cases hzero : r = 0
      · rw [if_pos hzero] at hm
        cases hm
      rw [if_neg hzero] at hm
      cases hm
      have hr_nonneg : 0 ≤ r := by
        rw [← hround.value]
        exact Int.ediv_nonneg (mul_nonneg htaker.forSale_pos.le hbase.le) hquote.le
      have hr_pos : 0 < r := lt_of_le_of_ne hr_nonneg (Ne.symm hzero)
      have hp_le := hround.le hbase hquote
      have hleft := hround.leftover_value hbase hquote
      have hown : LimitOrder.worth (LimitOrder.afterFill taker p) = 0 :=
        own_price_le htaker.price hmaker.price hcross (sub_nonneg.mpr hp_le) hleft
      exact
        { usdPays_id := hopp.base.symm
          usdReceives_id := rfl
          takerPays_pos := hround.least_pos hbase hquote hr_pos
          takerPays_le := hp_le
          makerPays_pos := hr_pos
          makerPays_le := hr_le
          takerSmaller := fun _ => fairTrade_of_roundsTo hround hbase hquote
          makerSmaller := fun hlt => absurd hlt (not_lt.mpr hle)
          takerLeft := fun _ => ⟨_, amountToReceive_of_worth (o := LimitOrder.afterFill taker p)
            htaker.price (sub_nonneg.mpr hp_le) (hown.trans_le (by decide))⟩
          makerLeft := ⟨_, amountToReceive_of_worth (o := LimitOrder.afterFill maker r) hmaker.price
            (sub_nonneg.mpr hr_le) ((worth_afterFill_le hmaker.price hr_nonneg).trans hworth)⟩
          small := Or.inl ⟨rfl, hown⟩ }
  · obtain ⟨p, hround, hamounts⟩ := limitAmounts_maker hmaker.toSound hopp hworth hlt
    refine ⟨_, hamounts, nofun, fun m hm => ?_⟩
    cases hm
    have hp_le := hround.le hquote hbase
    have hown : LimitOrder.worth (LimitOrder.afterFill maker p) = 0 :=
      hround.leftover_value hquote hbase
    exact
      { usdPays_id := hopp.base.symm
        usdReceives_id := rfl
        takerPays_pos := hmaker.worth_pos
        takerPays_le := hlt.le
        makerPays_pos := hround.least_pos hquote hbase hmaker.worth_pos
        makerPays_le := hp_le
        takerSmaller := fun hle => absurd hle (not_le.mpr hlt)
        makerSmaller := fun _ => fairTrade_of_roundsTo hround hquote hbase
        takerLeft := nofun
        makerLeft := ⟨_, amountToReceive_of_worth (o := LimitOrder.afterFill maker p) hmaker.price
          (sub_nonneg.mpr hp_le) (hown.trans_le (by decide))⟩
        small := Or.inr hown }

def resultText : String := "result != 0"

theorem resultText_notMem : resultText ∉ ledgerTexts := by decide

theorem cancelLimitOrder_avoids (cancelFee : Int) (virtualOp skip : Bool) (id : Nat) :
    Avoids resultText (cancelLimitOrder cancelFee virtualOp id skip) := by
  have h := resultText_notMem
  have hsafe (v : Int) := safe_ne_error h v
  have hpayFee (a b : Int) (v : AccountObject) :
      AccountObject.payFee a b v ≠ .error (.fc resultText) := by
    unfold AccountObject.payFee
    split
    all_goals exact bind_ne_error (hsafe _) fun _ => nofun
  have hcancel (order : LimitOrder) : Avoids resultText (payCancelFee cancelFee order) := by
    unfold payCancelFee
    refine .ite (.pure _) (.bind .get fun _ => .bind (update_avoids h _ _ (hpayFee _ _)) fun _ =>
      .bind (.lift (hsafe _)) fun _ => .ite (.pure _) ?_)
    exact .bind (update_avoids h _ _ fun _ => bind_ne_error (hsafe _) fun _ => nofun) fun _ =>
      .bind (.lift (hsafe _)) fun _ => .pure _
  have hrefund (order : LimitOrder) (fee : Int) (paid : Asset) :
      Avoids resultText (refundDeferredFee order fee paid) :=
    .ite (adjustBalance_avoids h _ _) (.bind (adjustBalance_avoids h _ _) fun _ =>
      update_avoids h _ _ fun _ => bind_ne_error (hsafe _) fun _ => nofun)
  refine .bind (fetch_avoids h _ _) fun order => .bind (.ite (hcancel _) (.pure _)) fun fees =>
    .bind (.ite (update_avoids h _ _ fun _ => bind_ne_error (hsafe _) fun _ => nofun) (.pure _))
      fun _ => .bind (adjustBalance_avoids h _ _) fun _ => .bind (hrefund _ _ _) fun _ => .modify _

theorem fillLimitOrder_avoids (cancelFee : Int) (id : Nat) (pays receives : Asset)
    (cull isMaker : Bool) :
    Avoids resultText (fillLimitOrder cancelFee id pays receives cull isMaker) := by
  have h := resultText_notMem
  have hsafe (v : Int) := safe_ne_error h v
  have hpayFee (a b : Int) (v : AccountObject) :
      AccountObject.payFee a b v ≠ .error (.fc resultText) := by
    unfold AccountObject.payFee
    split
    all_goals exact bind_ne_error (hsafe _) fun _ => nofun
  have hpayOrder (account : AccountId) (gets : Asset) :
      Avoids resultText (payOrder account gets pays) :=
    .bind (.ite (update_avoids h _ _ fun _ => bind_ne_error (hsafe _) fun _ => nofun) (.pure _))
      fun _ => adjustBalance_avoids h _ _
  have hdeferred (order : LimitOrder) : Avoids resultText (payDeferredFee order) :=
    .bind .get fun _ => .bind (.ite (update_avoids h _ _ (hpayFee _ _)) (.pure _)) fun _ =>
      .ite (update_avoids h _ _ fun _ => bind_ne_error (hsafe _) fun _ => nofun) (.pure _)
  have hcull : Avoids resultText (maybeCullSmallOrder cancelFee id) :=
    .bind (fetch_avoids h _ _) fun _ => .bind (.lift (asset_mul_ne_error h _ _)) fun _ =>
      .ite (.bind (cancelLimitOrder_avoids _ _ _ _) fun _ => .pure _) (.pure _)
  refine .bind (fetch_avoids h _ _) fun order => .bind (.require (by decide)) fun _ =>
    .bind (.require (by decide)) fun _ => .bind (fetch_avoids h _ _) fun seller =>
    .bind (payMarketFees_avoids h _ _ _ _) fun fees => .bind (.lift (asset_sub_ne_error h _ _))
      fun net => .bind (hpayOrder _ _) fun _ => .bind (hdeferred _) fun _ =>
        .ite (.bind (.modify _) fun _ => .pure _) (.bind (update_avoids h _ _ fun _ => ?_) fun _ => ?_)
  · exact bind_ne_error (hsafe _) fun _ => nofun
  · exact .ite hcull (.pure _)

variable {cancelFee : Int} {takerId makerId : Nat}

theorem filled_of_fairMatch {m : LimitMatch} {takerFilled makerFilled : Bool} {s s1 s2 : State}
    (hne : takerId ≠ makerId) (htaker : s.limitOrders.find takerId = some taker)
    (hmaker : s.limitOrders.find makerId = some maker) (hfair : FairMatch taker maker m)
    (h1 : Returns (fillLimitOrder cancelFee takerId m.usdPays m.usdReceives m.cullTaker false) s
      takerFilled s1)
    (h2 : Returns (fillLimitOrder cancelFee makerId m.usdReceives m.usdPays true true) s1
      makerFilled s2) : (takerFilled = true ∨ makerFilled = true) ∧
      (s2.limitOrders.find takerId = none ∨ s2.limitOrders.find makerId = none) := by
  obtain ⟨t, hfilled1⟩ := of_fillLimitOrder h1
  obtain ⟨o, hfilled2⟩ := of_fillLimitOrder h2
  obtain rfl : taker = t := Option.some.inj (htaker.symm.trans hfilled1.found)
  have hmaker1 : s1.limitOrders.find makerId = some maker := by
    rw [hfilled1.others _ hne.symm, hmaker]
  obtain rfl : maker = o := Option.some.inj (hmaker1.symm.trans hfilled2.found)
  have hsome : takerFilled = true ∨ makerFilled = true := by
    -- an order that stays behind is not small, but one of the two is
    rcases hfair.small with ⟨hcull, hzero⟩ | hzero
    · left
      by_contra hstays
      obtain ⟨r, hr, hne⟩ := hfilled1.notSmall (eq_false_of_ne_true hstays) hcull
      exact hne ((worth_of_amountToReceive hr).trans hzero)
    · right
      by_contra hstays
      obtain ⟨r, hr, hne⟩ := hfilled2.notSmall (eq_false_of_ne_true hstays) rfl
      exact hne ((worth_of_amountToReceive hr).trans hzero)
  refine ⟨hsome, ?_⟩
  rcases hsome with htrue | htrue
  · left
    rw [hfilled2.others _ hne]
    exact hfilled1.gone htrue
  · right
    exact hfilled2.gone htrue

theorem matchLimit_eq {s : State} {outcome : Option LimitMatch}
    (htaker : s.limitOrders.find takerId = some taker)
    (hmaker : s.limitOrders.find makerId = some maker) (hopp : LimitOrder.Opposite taker maker)
    (hsale : 0 < taker.forSale ∧ 0 < maker.forSale)
    (hamounts : limitAmounts taker.amountForSale maker.amountForSale maker.sellPrice = .ok outcome) :
    matchLimit cancelFee takerId makerId maker.sellPrice s =
      tradeLimit cancelFee takerId makerId outcome s := by
  have hfetch {id : Nat} {o : LimitOrder} (h : s.limitOrders.find id = some o) :
      limitOrders.fetch id s = .ok o s := Table.fetch_iff.mpr ⟨h, rfl⟩
  unfold matchLimit
  show (EStateM.bind (limitOrders.fetch takerId) _) s = _
  rw [EStateM.bind, hfetch htaker]
  show (EStateM.bind (limitOrders.fetch makerId) _) s = _
  rw [EStateM.bind, hfetch hmaker]
  dsimp only
  rw [require, if_pos hopp.quote]
  show ((require _ _ >>= fun _ => _ : Evaluation Nat)) s = _
  rw [require, if_pos hopp.base]
  show ((require _ _ >>= fun _ => _ : Evaluation Nat)) s = _
  rw [require, if_pos hsale, hamounts]
  rfl

structure FairAndTotal (taker maker : LimitOrder) : Prop where
  amounts : ∃ outcome,
    limitAmounts taker.amountForSale maker.amountForSale maker.sellPrice = .ok outcome ∧
    (outcome = none →
      taker.forSale * maker.sellPrice.base.amount / maker.sellPrice.quote.amount = 0) ∧
    ∀ m, outcome = some m → FairMatch taker maker m
  assertion : ∀ cancelFee takerId makerId s, takerId ≠ makerId →
    s.limitOrders.find takerId = some taker → s.limitOrders.find makerId = some maker →
    ¬Raises (matchLimit cancelFee takerId makerId maker.sellPrice) s (.fc resultText)
  removed : ∀ cancelFee takerId makerId s r s', takerId ≠ makerId →
    s.limitOrders.find takerId = some taker → s.limitOrders.find makerId = some maker →
    Returns (matchLimit cancelFee takerId makerId maker.sellPrice) s r s' →
    limitAmounts taker.amountForSale maker.amountForSale maker.sellPrice ≠ .ok none →
    s'.limitOrders.find takerId = none ∨ s'.limitOrders.find makerId = none

end Meta1Core.Market
