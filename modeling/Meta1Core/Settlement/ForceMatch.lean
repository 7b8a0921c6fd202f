import Meta1Core.Market.Matching
import Meta1Core.Protocol.RatioMonotone
import Meta1Core.Settlement.ForceSettlements
import Meta1Core.Settlement.Solvency

/-!
# Force settlements are matched safely

As long as no black swan is detected and margin calls have been made, the least collateralized call
order can pay for its debt at the settlement price.  No match then takes more than its collateral, and
the settler is paid for whatever is taken.  `check_call_orders` makes the margin calls; that it has run
is assumed here, and without it a bid can hide a swan.
-/

namespace Meta1Core.Settlement

open Lib (Rows Index Returns Raises RoundsTo ceilDiv)
open Protocol Ledger Market

theorem min_amounts (x y : Int) (id : AssetId) :
    (⟨x, id⟩ : Asset).min ⟨y, id⟩ = .ok ⟨Min.min x y, id⟩ := by
  unfold Asset.min Asset.lt fcAssert
  rw [if_pos rfl]
  show Except.ok (if decide (y < x) = true then (⟨y, id⟩ : Asset) else ⟨x, id⟩) = _
  by_cases hlt : y < x
  · rw [if_pos (decide_eq_true hlt), min_eq_right hlt.le]
  · rw [if_neg (fun hdecide => hlt (of_decide_eq_true hdecide)), min_eq_left (not_lt.mp hlt)]

/-- What a trade of a call order and a force settlement takes from both -/
structure SafeTrade (price : Price) (debt collateral balance max : Int) (pays receives : Asset)
    (cull : Bool) : Prop where
  pays_id : pays.assetId = price.quote.assetId
  receives_id : receives.assetId = price.base.assetId
  pays_pos : 0 < pays.amount
  pays_le : pays.amount ≤ collateral
  receives_pos : 0 < receives.amount
  /-- at most what was to be received before it was rounded again -/
  receives_le : receives.amount ≤ Min.min (Min.min balance max) debt
  cull_lt : cull = true → receives.amount < balance

theorem settleAmounts_safe {price : Price} (hp : GoodPrice price)
    {debt collateral balance max : Int} (hdebt : 0 < debt) (hdebt_le : debt ≤ maxShareSupply)
    (hcollateral : 0 < collateral) (hcollateral_le : collateral ≤ maxShareSupply)
    (hbalance : 0 < balance) (hmax : 0 < max)
    (hcover : debt * price.quote.amount ≤ collateral * price.base.amount) :
    ∃ outcome, settleAmounts ⟨debt, price.base.assetId⟩ ⟨balance, price.base.assetId⟩
        ⟨max, price.base.assetId⟩ price = .ok outcome ∧
      ∀ pays receives cull, outcome = .trade pays receives cull →
        SafeTrade price debt collateral balance max pays receives cull := by
  have hbase := hp.base_pos
  have hquote := hp.quote_pos
  obtain ⟨x, hx⟩ : ∃ x, Min.min (Min.min balance max) debt = x := ⟨_, rfl⟩
  have hx_pos : 0 < x := by
    rw [← hx]
    exact lt_min (lt_min hbalance hmax) hdebt
  have hx_le : x ≤ debt := by
    rw [← hx]
    exact min_le_right _ _
  have hx_balance : x ≤ balance := by
    rw [← hx]
    exact (min_le_left _ _).trans (min_le_left _ _)
  have hvalue : x * price.quote.amount ≤ collateral * price.base.amount :=
    (mul_le_mul_of_nonneg_right hx_le hquote.le).trans hcover
  obtain ⟨r, hr⟩ : ∃ r, x * price.quote.amount / price.base.amount = r := ⟨_, rfl⟩
  have hr_nonneg : 0 ≤ r := by
    rw [← hr]
    exact Int.ediv_nonneg (mul_nonneg hx_pos.le hquote.le) hbase.le
  have hr_le : r ≤ collateral := by
    rw [← hr]
    exact Int.ediv_le_of_le_mul hbase hvalue
  have hpays := mul_base hp hx_pos.le (by rw [hr]; exact hr_le.trans hcollateral_le)
  unfold settleAmounts
  rw [min_amounts]
  show ∃ outcome, ((⟨Min.min balance max, _⟩ : Asset).min ⟨debt, _⟩ >>= fun a => _) = _ ∧ _
  rw [min_amounts]
  show ∃ outcome, ((⟨Min.min (Min.min balance max) debt, price.base.assetId⟩ : Asset).mul price >>=
    fun a => _) = _ ∧ _
  rw [hx, hpays, hr]
  show ∃ outcome, (if r = 0 then if (⟨x, _⟩ : Asset) = ⟨debt, _⟩ then _ else _ else _) = _ ∧ _
  by_cases hzero : r = 0
  · rw [if_pos hzero]
    by_cases hall : (⟨x, price.base.assetId⟩ : Asset) = ⟨debt, price.base.assetId⟩
    · -- a unit of collateral for the whole debt
      rw [if_pos hall]
      refine ⟨_, rfl, fun pays receives cull h => ?_⟩
      cases h
      exact ⟨rfl, rfl, zero_lt_one, hcollateral, hx_pos, hx.ge, nofun⟩
    · rw [if_neg hall]
      exact ⟨_, rfl, nofun⟩
  rw [if_neg hzero]
  by_cases hall : (⟨x, price.base.assetId⟩ : Asset) = ⟨debt, price.base.assetId⟩
  · have hup_le : ceilDiv (x * price.quote.amount) price.base.amount ≤ collateral :=
      (Lib.ceilDiv_le_iff hbase).mpr hvalue
    rw [if_pos hall, multiplyAndRoundUp_base hp hx_pos.le (hup_le.trans hcollateral_le)]
    refine ⟨_, rfl, fun pays receives cull h => ?_⟩
    cases h
    exact ⟨rfl, rfl, Lib.ceilDiv_pos (mul_pos hx_pos hquote) hbase, hup_le, hx_pos, hx.ge, nofun⟩
  · have hround : RoundsTo price.quote.amount price.base.amount x r
        (ceilDiv (r * price.base.amount) price.quote.amount) := ⟨hr, rfl⟩
    have hp_le := hround.le hquote hbase
    have hr_pos : 0 < r := lt_of_le_of_ne hr_nonneg (Ne.symm hzero)
    rw [if_neg hall, multiplyAndRoundUp_quote hp hr_nonneg (hp_le.trans (hx_le.trans hdebt_le))]
    refine ⟨_, rfl, fun pays receives cull h => ?_⟩
    cases h
    refine ⟨rfl, rfl, hr_pos, hr_le, hround.least_pos hquote hbase hr_pos, hp_le.trans hx.ge,
      fun hcull => ?_⟩
    obtain ⟨hfull, hpart⟩ := of_decide_eq_true hcull
    have hx_eq : x = balance := congrArg Asset.amount hfull
    apply lt_of_le_of_ne (hp_le.trans hx_balance)
    intro heq
    exact hpart (by rw [heq])

/-- How margin calls leave a market in which no black swan is detected: the least collateralized call
order is above the maintenance collateralization, or no bid reaches the maximum short squeeze
price. -/
def MarginCallsMade (mia : AssetId) (bitasset : BitassetData) (call : CallOrder) (s : State) : Prop :=
  bitasset.currentMaintenanceCollateralization.lt call.collateralization ∨
    ∀ squeeze, bitasset.currentFeed.maxShortSqueezePrice = .ok squeeze →
      ∀ e ∈ limitOrdersByPrice mia bitasset.options.shortBackingAsset s,
        e.2.sellPrice.lt squeeze

/-- A match that `clear_expired_orders` makes for an asset for which no black swan is detected -/
structure Settleable (mia : AssetId) (bitasset : BitassetData) (callId : Nat) (call : CallOrder)
    (settleId : Nat) (settle : ForceSettlement) (max : Int) (price : Price) (s : State) : Prop where
  call_least : leastCollateralized bitasset.options.shortBackingAsset mia s = some ⟨callId, call⟩
  call_debt : call.debtType = mia
  call_collateral : call.collateralType = bitasset.options.shortBackingAsset
  debt_pos : 0 < call.debt
  debt_le : call.debt ≤ maxShareSupply
  collateral_pos : 0 < call.collateral
  collateral_le : call.collateral ≤ maxShareSupply
  settle_find : s.forceSettlements.find settleId = some settle
  settle_asset : settle.balance.assetId = mia
  settle_pos : 0 < settle.balance.amount
  max_pos : 0 < max
  ids : mia ≠ bitasset.options.shortBackingAsset
  feed_base : bitasset.currentFeed.settlementPrice.base.assetId = mia
  feed_quote :
    bitasset.currentFeed.settlementPrice.quote.assetId = bitasset.options.shortBackingAsset
  feed_valid : bitasset.currentFeed.validate = .ok ()
  maintenance_eq : bitasset.currentFeed.maintenanceCollateralization =
    .ok bitasset.currentMaintenanceCollateralization
  price_eq : bitasset.currentFeed.settlementPrice.divRatio
    (percent100 - bitasset.options.forceSettlementOffsetPercent) percent100 = .ok price
  not_null : ¬bitasset.currentFeed.settlementPrice.isNull
  noSwan : blackSwanDetected mia bitasset s = .ok false

variable {mia : AssetId} {bitasset : BitassetData} {callId settleId : Nat} {call : CallOrder}
  {settle : ForceSettlement} {max : Int} {price : Price} {s s' : State}

theorem of_blackSwanDetected
    (hleast : leastCollateralized bitasset.options.shortBackingAsset mia s = some ⟨callId, call⟩)
    (hdebt : call.debtType = mia) (hnull : ¬bitasset.currentFeed.settlementPrice.isNull)
    (h : blackSwanDetected mia bitasset s = .ok false) :
    ∃ squeeze highest, bitasset.currentFeed.maxShortSqueezePrice = .ok squeeze ∧
      call.collateralization.inv.lt highest ∧
      (highest = squeeze ∨ ∃ e ∈ limitOrdersByPrice mia bitasset.options.shortBackingAsset s,
          highest = e.2.sellPrice ∧ ¬e.2.sellPrice.lt squeeze) := by
  unfold blackSwanDetected at h
  dsimp only at h
  by_cases hsettled : bitasset.hasSettlement
  · rw [if_pos hsettled] at h
    cases h
  rw [if_neg hsettled, if_neg hnull, hleast] at h
  dsimp only at h
  rw [if_neg (not_not.mpr hdebt)] at h
  obtain ⟨squeeze, hsqueeze, h⟩ := Lib.of_bind h
  obtain ⟨highest, hhighest, h⟩ := Lib.of_bind h
  have hlt : call.collateralization.inv.lt highest := by
    by_contra hle
    have htrue : decide (highest.le call.collateralization.inv) = true := decide_eq_true hle
    rw [Except.ok.inj h] at htrue
    cases htrue
  refine ⟨squeeze, highest, hsqueeze, hlt, ?_⟩
  split at hhighest
  · cases hhighest
    exact Or.inl rfl
  · rename_i id bid hhead
    obtain ⟨-, hhighest⟩ := of_fcAssert hhighest
    cases hhighest
    split
    · exact Or.inl rfl
    · rename_i hnot
      exact Or.inr ⟨_, List.mem_of_mem_head? hhead, rfl, hnot⟩

theorem value_inv (p : Price) : p.inv.value = p.value⁻¹ := by
  unfold Price.value Price.inv
  rw [inv_div]

theorem PriceFeed.of_validate {f : PriceFeed} (hnull : ¬f.settlementPrice.isNull)
    (h : f.validate = .ok ()) :
    0 < f.settlementPrice.base.amount ∧ 0 < f.settlementPrice.quote.amount ∧
      1001 ≤ f.maximumShortSqueezeRatio ∧ 1001 ≤ f.maintenanceCollateralRatio := by
  unfold PriceFeed.validate at h
  rw [if_pos hnull] at h
  obtain ⟨u, hprice, h⟩ := Lib.of_bind h
  obtain ⟨hbase, hquote⟩ := Price.validate_eq_ok hprice
  obtain ⟨hsqueeze, h⟩ := of_fcAssert h
  obtain ⟨-, h⟩ := of_fcAssert h
  obtain ⟨hmaintenance, -⟩ := of_fcAssert h
  exact ⟨hbase, hquote, hsqueeze, hmaintenance⟩

namespace Settleable

variable (h : Settleable mia bitasset callId call settleId settle max price s)
include h

theorem value_lt (hcalled : MarginCallsMade mia bitasset call s) :
    call.collateralization.inv.value < bitasset.currentFeed.settlementPrice.value := by
  obtain ⟨hbase, hquote, hmssr, hmcr⟩ := PriceFeed.of_validate h.not_null h.feed_valid
  have hcollateral := h.collateral_pos
  rcases hcalled with habove | hnobid
  · -- above the maintenance collateralization
    have heq := h.maintenance_eq
    unfold PriceFeed.maintenanceCollateralization at heq
    rw [if_neg h.not_null] at heq
    have hscaled := Price.scaled_of_mulRatio heq
    have hle := Price.le_mulRatio heq (show collateralRatioDenom ≤ _ by unfold collateralRatioDenom; omega)
    have hlt := (Price.lt_iff_value (b := call.collateralization)
      (hscaled.base_id.trans (h.feed_quote.trans h.call_collateral.symm))
      (hscaled.quote_id.trans (h.feed_base.trans h.call_debt.symm)) hscaled.quote_pos'
      h.debt_pos).mp habove
    rw [value_inv] at hle ⊢
    have hpos := Price.value_pos hbase hquote
    exact inv_lt_of_inv_lt₀ hpos (lt_of_le_of_lt hle hlt)
  · -- below the squeeze price
    obtain ⟨squeeze, highest, hsqueeze, hlt, hhighest⟩ :=
      of_blackSwanDetected h.call_least h.call_debt h.not_null h.noSwan
    have heq : highest = squeeze := by
      rcases hhighest with heq | ⟨e, hmem, -, hnot⟩
      · exact heq
      · exact absurd (hnobid _ hsqueeze e hmem) hnot
    rw [heq] at hlt
    have hscaled := Price.scaled_of_mulRatio hsqueeze
    have hle := Price.mulRatio_le hsqueeze (show collateralRatioDenom < _ by unfold collateralRatioDenom; omega)
    have hlt := (Price.lt_iff_value (a := call.collateralization.inv)
      (h.call_debt.trans (h.feed_base.symm.trans hscaled.base_id.symm))
      (h.call_collateral.trans (h.feed_quote.symm.trans hscaled.quote_id.symm)) hcollateral
      hscaled.quote_pos').mp hlt
    exact lt_of_lt_of_le hlt hle

theorem price_good : GoodPrice price ∧ price.base.assetId = mia ∧
    price.quote.assetId = bitasset.options.shortBackingAsset := by
  have hscaled := Price.scaled_of_mulRatio h.price_eq
  have hbase := hscaled.base_id.trans h.feed_base
  have hquote := hscaled.quote_id.trans h.feed_quote
  exact ⟨⟨hscaled.base_pos', hscaled.quote_pos', by rw [hbase, hquote]; exact h.ids⟩, hbase, hquote⟩

theorem covered (hcalled : MarginCallsMade mia bitasset call s) :
    call.debt * price.quote.amount ≤ call.collateral * price.base.amount := by
  obtain ⟨hprice, -⟩ := h.price_good
  have hle := Price.le_mulRatio h.price_eq (Nat.sub_le _ _)
  have hlt : call.collateralization.inv.value < price.value := lt_of_lt_of_le (h.value_lt hcalled) hle
  have hcollateral : (0 : ℚ) < call.collateral := by exact_mod_cast h.collateral_pos
  have hquote : (0 : ℚ) < price.quote.amount := by exact_mod_cast hprice.quote_pos
  have hmul : (call.debt : ℚ) * price.quote.amount < price.base.amount * call.collateral :=
    (div_lt_div_iff₀ hcollateral hquote).mp hlt
  have hmul' : call.debt * price.quote.amount < price.base.amount * call.collateral := by
    exact_mod_cast hmul
  rw [mul_comm call.collateral]
  exact hmul'.le

end Settleable

/-! ## The match -/

/-- The text of the assertion of `fill_call_order` -/
def coveredText : String := "order.collateral >= pays.amount"

theorem coveredText_notMem : coveredText ∉ ledgerTexts := by decide

theorem find_of_leastCollateralized {backing : AssetId} {e : Σ _ : Nat, CallOrder}
    (h : leastCollateralized backing mia s = some e) : s.callOrders.find e.1 = some e.2 := by
  have hmem := mem_ordered.mp (List.mem_of_mem_head? h)
  exact Rows.mem_entries_iff.mp (List.mem_filter.mp hmem).1

theorem cancelSettleOrder_avoids {text : String} (h : text ∉ ledgerTexts) (id : Nat) :
    Avoids text (cancelSettleOrder id) :=
  .bind (fetch_avoids h _ _) fun _ => .bind (adjustBalance_avoids h _ _) fun _ => .modify _

theorem onlyIf_avoids {text : String} {c : Prop} [Decidable c] {x : Evaluation Unit}
    (h : Avoids text x) : Avoids text (onlyIf c x) :=
  .ite h (.pure _)

theorem fillSettleOrder_avoids {text : String} (h : text ∉ ledgerTexts) (id : Nat)
    (pays receives : Asset) (isMaker : Bool) :
    Avoids text (fillSettleOrder id pays receives isMaker) := by
  have hlt (a b : Asset) : a.lt b ≠ .error (.fc text) :=
    bind_ne_error (fcAssert_ne_error (ne_of_ledgerTexts h (by decide))) fun _ => nofun
  refine .bind (fetch_avoids h _ _) fun settle => .bind (fetch_avoids h _ _) fun owner =>
    .bind (payMarketFees_avoids h _ _ _ _) fun fees => .bind (.lift (hlt _ _)) fun part => ?_
  refine .bind (onlyIf_avoids (update_avoids h _ _ fun _ => ?_)) fun _ =>
    .bind (.lift (asset_sub_ne_error h _ _)) fun _ => .bind (adjustBalance_avoids h _ _) fun _ =>
    .bind (onlyIf_avoids (.modify _)) fun _ => .pure _
  exact bind_ne_error (asset_sub_ne_error h _ _) fun _ => nofun

theorem raises_fillCallOrder {id : Nat} {pays receives : Asset}
    (h : Raises (fillCallOrder id pays receives) s (.fc coveredText)) :
    ∃ order, s.callOrders.find id = some order ∧ order.collateral < pays.amount := by
  have havoids := coveredText_notMem
  have hsafe (v : Int) := safe_ne_error havoids v
  unfold fillCallOrder at h
  obtain ⟨order, t, hfetch, h1⟩ := (fetch_avoids havoids _ _).raises_bind h
  obtain ⟨hfind, rfl⟩ := Table.fetch_iff.mp hfetch
  have hdebtText : "order.debt_type() == receives.asset_id" ≠ coveredText := by decide
  have hcollateralText : "order.collateral_type() == pays.asset_id" ≠ coveredText := by decide
  obtain ⟨_, t, hrequire, h2⟩ := (Avoids.require hdebtText).raises_bind h1
  obtain ⟨-, rfl⟩ := returns_require.mp hrequire
  obtain ⟨_, t, hrequire, h3⟩ := (Avoids.require hcollateralText).raises_bind h2
  obtain ⟨-, rfl⟩ := returns_require.mp hrequire
  refine ⟨order, hfind, ?_⟩
  rcases Raises.bind_iff.mp h3 with hraises | ⟨_, t, -, hraises⟩
  · exact not_le.mp (raises_require.mp hraises).1
  -- nothing after the assertion has its text
  refine absurd hraises (Avoids.bind (fetch_avoids havoids _ _) (fun mia => ?_) _)
  refine .bind (.require (by decide)) fun _ => .bind (.lift (hsafe _)) fun debt =>
    .bind (.lift (hsafe _)) fun collateral => .bind (update_avoids havoids _ _ fun _ => nofun) fun _ =>
    .bind (adjustSupply_avoids havoids _ _) fun _ => .bind ?_ fun _ =>
    .bind (onlyIf_avoids (.modify _)) fun _ => .pure _
  refine .bind (onlyIf_avoids (adjustBalance_avoids havoids _ _)) fun _ =>
    onlyIf_avoids (update_avoids havoids _ _ fun _ => bind_ne_error (hsafe _) fun _ => ?_)
  dsimp only
  split
  · exact bind_ne_error (hsafe _) fun _ => nofun
  · exact nofun

/-- The settlement is left alone, or cancelled and given back. -/
def LeftOrRefunded (settleId : Nat) (s s' : State) : Prop :=
  s' = s ∨ Returns (cancelSettleOrder settleId) s () s'

structure SafeSettlement (callId : Nat) (call : CallOrder) (settleId : Nat)
    (settle : ForceSettlement) (max : Asset) (price : Price) (s : State) : Prop where
  amounts : ∃ outcome, settleAmounts call.getDebt settle.balance max price = .ok outcome ∧
    ∀ pays receives cull, outcome = .trade pays receives cull →
      SafeTrade price call.debt call.collateral settle.balance.amount max.amount pays receives cull
  assertion : ¬Raises (matchSettle callId settleId price max) s (.fc coveredText)
  returned : ∀ r s', Returns (matchSettle callId settleId price max) s r s' → r.amount ≤ max.amount
  /-- balance is given up only for collateral -/
  paid : ∀ r s', Returns (matchSettle callId settleId price max) s r s' →
    r.amount = 0 ∧ LeftOrRefunded settleId s s' ∨
      ∃ pays closed filled t t', 0 < pays.amount ∧ 0 < r.amount ∧
        r.amount ≤ settle.balance.amount ∧ Returns (fillCallOrder callId pays r) s closed t ∧
        Returns (fillSettleOrder settleId r pays false) t filled t' ∧ LeftOrRefunded settleId t' s'

theorem returns_onlyIf_cancel {cancel : Bool} {u : Unit}
    (h : Returns (onlyIf cancel (cancelSettleOrder settleId)) s u s') :
    LeftOrRefunded settleId s s' := by
  rcases returns_onlyIf.mp h with ⟨-, hcancel⟩ | ⟨-, heq⟩
  · exact Or.inr hcancel
  · exact Or.inl heq

theorem matchSettle_eq {outcome : SettleMatch} {max : Asset}
    (hcall : s.callOrders.find callId = some call)
    (hsettle : s.forceSettlements.find settleId = some settle)
    (hasset : call.debtType = settle.balance.assetId)
    (hpos : 0 < call.debt ∧ 0 < call.collateral ∧ 0 < settle.balance.amount)
    (hamounts : settleAmounts call.getDebt settle.balance max price = .ok outcome) :
    matchSettle callId settleId price max s =
      tradeSettle callId settleId settle.balance.assetId outcome s := by
  have hfetch : callOrders.fetch callId s = .ok call s := Table.fetch_iff.mpr ⟨hcall, rfl⟩
  have hfetch' : forceSettlements.fetch settleId s = .ok settle s :=
    Table.fetch_iff.mpr ⟨hsettle, rfl⟩
  unfold matchSettle
  show (EStateM.bind (callOrders.fetch callId) _) s = _
  rw [EStateM.bind, hfetch]
  show (EStateM.bind (forceSettlements.fetch settleId) _) s = _
  rw [EStateM.bind, hfetch']
  dsimp only
  rw [require, if_pos hasset]
  show ((require _ _ >>= fun _ => _ : Evaluation Asset)) s = _
  rw [require, if_pos hpos, hamounts]
  rfl

def settleFeed : PriceFeed := { settlementPrice := ⟨⟨1, 1⟩, ⟨10, 0⟩⟩ }

def settleBitasset : BitassetData where
  options := {}
  currentFeed := settleFeed
  currentMaintenanceCollateralization := ⟨⟨35, 0⟩, ⟨2, 1⟩⟩

def settleState : State where
  callOrders := Index.create ∅ ⟨3, 20000, 1000, ⟨⟨1, 0⟩, ⟨1, 1⟩⟩, none⟩
  forceSettlements := Index.create ∅ ⟨2, ⟨300, 1⟩, 0⟩

/-- The call order owes 1000 with a collateral of 5000 where the feed asks for 10000, and a bid far above
the feed hides it. -/
def uncalledState : State where
  callOrders := Index.create ∅ ⟨3, 5000, 1000, ⟨⟨1, 0⟩, ⟨1, 1⟩⟩, none⟩
  forceSettlements := Index.create ∅ ⟨2, ⟨800, 1⟩, 0⟩
  limitOrders := Index.create ∅ ⟨4, 0, 100, ⟨⟨100, 1⟩, ⟨200, 0⟩⟩, 0, ⟨0, 0⟩⟩

end Meta1Core.Settlement
