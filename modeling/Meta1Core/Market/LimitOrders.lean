import Meta1Core.Market.Calls
import Meta1Core.Market.Matching
import Meta1Core.Market.TargetCollateral

/-!
# Limit orders (`db_market.cpp`)

A limit order is filled by another limit order or by a call order.
-/

namespace Meta1Core.Market

open Lib (Rows Index Returns Relates RoundsTo)
open Protocol Ledger

/-- The cancellation fee of a virtual operation, out of the deferred fee -/
def payCancelFee (cancelFee : Int) (order : LimitOrder) : Evaluation (Int × Asset) := do
  let coreCancelFee := Min.min cancelFee order.deferredFee
  if coreCancelFee ≤ 0 then return (order.deferredFee, order.deferredPaidFee)
  let threshold := (← get).cashbackVestingThreshold
  accounts.update order.seller (AccountObject.payFee coreCancelFee threshold)
  let deferredFee ← safe (order.deferredFee - coreCancelFee)
  if order.deferredPaidFee.amount = 0 then return (deferredFee, order.deferredPaidFee)
  let fee128 := uint128 (uint128 order.deferredPaidFee.amount * coreCancelFee + order.deferredFee - 1)
  let cancelFeeAmount := int64Cast (fee128 / uint128 order.deferredFee)
  assets.update order.deferredPaidFee.assetId fun a =>
    return { a with accumulatedFees := ← safe (a.accumulatedFees + cancelFeeAmount) }
  let paid ← safe (order.deferredPaidFee.amount - cancelFeeAmount)
  return (deferredFee, { order.deferredPaidFee with amount := paid })

def refundDeferredFee (order : LimitOrder) (deferredFee : Int) (deferredPaidFee : Asset) :
    Evaluation Unit := do
  if order.deferredPaidFee.amount = 0 then adjustBalance order.seller ⟨deferredFee, core⟩
  else do
    adjustBalance order.seller deferredPaidFee
    assets.update deferredPaidFee.assetId fun a =>
      return { a with feePool := ← safe (a.feePool + deferredFee) }

/-- `cancel_limit_order`.  `cancelFee` is what the fee schedule charges for a cancellation. -/
def cancelLimitOrder (cancelFee : Int) (createVirtualOp : Bool) (id : Nat)
    (skipCancelFee : Bool := false) : Evaluation Unit := do
  let order ← limitOrders.fetch id
  let fees ← (if createVirtualOp ∧ ¬skipCancelFee ∧ 0 < order.deferredFee then
    payCancelFee cancelFee order
    else pure (order.deferredFee, order.deferredPaidFee))
  onlyIf (order.sellAssetId = core) <|
    accounts.update order.seller fun a =>
      return { a with totalCoreInOrders := ← safe (a.totalCoreInOrders - order.forSale) }
  adjustBalance order.seller order.amountForSale
  refundDeferredFee order fees.1 fees.2
  limitOrders.remove id

def maybeCullSmallOrder (cancelFee : Int) (id : Nat) : Evaluation Bool := do
  let order ← limitOrders.fetch id
  let receives ← order.amountToReceive
  if receives.amount = 0 then
    cancelLimitOrder cancelFee true id
    return true
  else return false

def payOrder (receiver : AccountId) (receives pays : Asset) : Evaluation Unit := do
  onlyIf (pays.assetId = core) <|
    accounts.update receiver fun a =>
      return { a with totalCoreInOrders := ← safe (a.totalCoreInOrders - pays.amount) }
  adjustBalance receiver receives

/-- The deferred fee of an order that is filled for the first time -/
def payDeferredFee (order : LimitOrder) : Evaluation Unit := do
  let threshold := (← get).cashbackVestingThreshold
  onlyIf (0 < order.deferredFee) <|
    accounts.update order.seller (AccountObject.payFee order.deferredFee threshold)
  onlyIf (0 < order.deferredPaidFee.amount) <|
    assets.update order.deferredPaidFee.assetId fun a =>
      return { a with accumulatedFees := ← safe (a.accumulatedFees + order.deferredPaidFee.amount) }

def LimitOrder.afterFill (o : LimitOrder) (pays : Int) : LimitOrder :=
  { o with
    forSale := o.forSale - pays
    deferredFee := 0
    deferredPaidFee := { o.deferredPaidFee with amount := 0 } }

/-- `fill_limit_order`, which tells whether the order is gone -/
def fillLimitOrder (cancelFee : Int) (id : Nat) (pays receives : Asset)
    (cullIfSmall isMaker : Bool) : Evaluation Bool := do
  let order ← limitOrders.fetch id
  require (order.amountForSale.assetId = pays.assetId)
    "order.amount_for_sale().asset_id == pays.asset_id"
  require (pays.assetId ≠ receives.assetId) "pays.asset_id != receives.asset_id"
  let seller ← accounts.fetch order.seller
  let issuerFees ← payMarketFees (some seller) receives.assetId receives isMaker
  let net ← receives.sub issuerFees
  payOrder order.seller net pays
  payDeferredFee order
  if pays = order.amountForSale then
    limitOrders.remove id
    return true
  else do
    limitOrders.update id fun o => do
      let _ ← safe (o.forSale - pays.amount)
      return LimitOrder.afterFill o pays.amount
    if cullIfSmall then maybeCullSmallOrder cancelFee id else return false

/-- The second half of `match( taker, maker, match_price )`: both orders are filled, unless the taker
would pay something for nothing -/
def tradeLimit (cancelFee : Int) (usdId coreId : Nat) : Option LimitMatch → Evaluation Nat
  | none => return 1
  | some m => do
    let usdFilled ← fillLimitOrder cancelFee usdId m.usdPays m.usdReceives m.cullTaker false
    let coreFilled ← fillLimitOrder cancelFee coreId m.usdReceives m.usdPays true true
    let result := usdFilled.toNat + 2 * coreFilled.toNat
    require (result ≠ 0) "result != 0"
    return result

def matchLimit (cancelFee : Int) (usdId coreId : Nat) (matchPrice : Price) : Evaluation Nat := do
  let usd ← limitOrders.fetch usdId
  let core ← limitOrders.fetch coreId
  require (usd.sellPrice.quote.assetId = core.sellPrice.base.assetId)
    "usd.sell_price.quote.asset_id == core.sell_price.base.asset_id"
  require (usd.sellPrice.base.assetId = core.sellPrice.quote.assetId)
    "usd.sell_price.base.asset_id == core.sell_price.quote.asset_id"
  require (0 < usd.forSale ∧ 0 < core.forSale) "usd.for_sale > 0 && core.for_sale > 0"
  let amounts ← limitAmounts usd.amountForSale core.amountForSale matchPrice
  tradeLimit cancelFee usdId coreId amounts

/-! ## What a fill does to the book -/

def SameOrders (s s' : State) : Prop := s'.limitOrders = s.limitOrders

theorem SameOrders.trans {s s' t : State} (h : SameOrders s s') (h' : SameOrders s' t) :
    SameOrders s t :=
  Eq.trans h' h

instance : Std.Refl SameOrders := ⟨fun _ => rfl⟩

instance : IsTrans State SameOrders := ⟨fun _ _ _ => SameOrders.trans⟩

variable {s s' : State}

theorem sameOrders_of_feesOnly {α : Type} {x : Evaluation α} (h : Relates FeesOnly x) :
    Relates SameOrders x :=
  fun s a s' hx => (h s a s' hx).limitOrders

theorem update_sameOrders {V : Type} {t : Table V}
    (ht : ∀ s i, (t.write s i).limitOrders = s.limitOrders) (id : Nat)
    (f : V → Except Exception V) : Relates SameOrders (t.update id f) := by
  intro s u s' h
  obtain ⟨v, v', -, -, rfl⟩ := Table.update_iff.mp h
  exact ht _ _

theorem onlyIf_sameOrders {c : Prop} [Decidable c] {x : Evaluation Unit}
    (h : Relates SameOrders x) : Relates SameOrders (onlyIf c x) :=
  .ite h (.pure _)

theorem payCancelFee_sameOrders (cancelFee : Int) (order : LimitOrder) :
    Relates SameOrders (payCancelFee cancelFee order) := by
  unfold payCancelFee
  refine .ite (.pure _) (.bind .get fun _ => .bind (update_sameOrders (fun _ _ => rfl) _ _) fun _ =>
    .bind (.lift _) fun _ => .ite (.pure _) ?_)
  exact .bind (update_sameOrders (fun _ _ => rfl) _ _) fun _ => .bind (.lift _) fun _ => .pure _

theorem refundDeferredFee_sameOrders (order : LimitOrder) (fee : Int) (paid : Asset) :
    Relates SameOrders (refundDeferredFee order fee paid) :=
  .ite (sameOrders_of_feesOnly (adjustBalance_feesOnly _ _))
    (.bind (sameOrders_of_feesOnly (adjustBalance_feesOnly _ _)) fun _ =>
      update_sameOrders (fun _ _ => rfl) _ _)

theorem payOrder_sameOrders (receiver : AccountId) (receives pays : Asset) :
    Relates SameOrders (payOrder receiver receives pays) :=
  .bind (onlyIf_sameOrders (update_sameOrders (fun _ _ => rfl) _ _)) fun _ =>
    sameOrders_of_feesOnly (adjustBalance_feesOnly _ _)

theorem payDeferredFee_sameOrders (order : LimitOrder) :
    Relates SameOrders (payDeferredFee order) :=
  .bind .get fun _ => .bind (onlyIf_sameOrders (update_sameOrders (fun _ _ => rfl) _ _)) fun _ =>
    onlyIf_sameOrders (update_sameOrders (fun _ _ => rfl) _ _)

variable {cancelFee : Int} {id : Nat}

theorem of_cancelLimitOrder {virtualOp skip : Bool} {u : Unit}
    (h : Returns (cancelLimitOrder cancelFee virtualOp id skip) s u s') :
    s'.limitOrders = s.limitOrders.remove id := by
  unfold cancelLimitOrder at h
  obtain ⟨order, -, h⟩ := of_fetch h
  have hfees : Relates SameOrders (if virtualOp ∧ ¬skip ∧ 0 < order.deferredFee then
      payCancelFee cancelFee order else pure (order.deferredFee, order.deferredPaidFee)) :=
    .ite (payCancelFee_sameOrders _ _) (.pure _)
  obtain ⟨fees, t1, h1, h⟩ := h.of_bind
  obtain ⟨_, t2, h2, h⟩ := h.of_bind
  obtain ⟨_, t3, h3, h⟩ := h.of_bind
  obtain ⟨_, t4, h4, h⟩ := h.of_bind
  have hsame2 : SameOrders t1 t2 :=
    onlyIf_sameOrders (update_sameOrders (fun _ _ => rfl) _ _) _ _ _ h2
  have hsame3 : SameOrders t2 t3 := sameOrders_of_feesOnly (adjustBalance_feesOnly _ _) _ _ _ h3
  have hsame4 : SameOrders t3 t4 := refundDeferredFee_sameOrders _ _ _ _ _ _ h4
  have hsame : SameOrders s t4 :=
    SameOrders.trans (hfees _ _ _ h1) (hsame2.trans (hsame3.trans hsame4))
  rw [Table.remove_iff.mp h]
  show t4.limitOrders.remove id = _
  rw [hsame]

/-- What is left of a book when the order `id` has been filled, and perhaps culled -/
structure Filled (id : Nat) (pays : Asset) (cull filled : Bool) (order : LimitOrder) (s s' : State) :
    Prop where
  found : s.limitOrders.find id = some order
  sells : order.sellPrice.base.assetId = pays.assetId
  others : ∀ j ≠ id, s'.limitOrders.find j = s.limitOrders.find j
  gone : filled = true → s'.limitOrders.find id = none
  left : filled = false → pays ≠ order.amountForSale ∧
    s'.limitOrders.find id = some (LimitOrder.afterFill order pays.amount)
  notSmall : filled = false → cull = true →
    ∃ receives, (LimitOrder.afterFill order pays.amount).amountToReceive = .ok receives ∧
      receives.amount ≠ 0

theorem of_maybeCullSmallOrder {culled : Bool}
    (h : Returns (maybeCullSmallOrder cancelFee id) s culled s') :
    ∃ order receives, s.limitOrders.find id = some order ∧ order.amountToReceive = .ok receives ∧
      (receives.amount = 0 ∧ culled = true ∧ s'.limitOrders = s.limitOrders.remove id ∨
        receives.amount ≠ 0 ∧ culled = false ∧ s' = s) := by
  unfold maybeCullSmallOrder at h
  obtain ⟨order, hfind, h⟩ := of_fetch h
  obtain ⟨receives, hreceives, h⟩ := h.of_lift
  refine ⟨order, receives, hfind, hreceives, ?_⟩
  rcases h.of_ite with ⟨hzero, h⟩ | ⟨hne, h⟩
  · obtain ⟨_, t, hcancel, h⟩ := h.of_bind
    obtain ⟨rfl, rfl⟩ := h.of_pure
    exact Or.inl ⟨hzero, rfl, of_cancelLimitOrder hcancel⟩
  · obtain ⟨rfl, rfl⟩ := h.of_pure
    exact Or.inr ⟨hne, rfl, rfl⟩

theorem of_fillLimitOrder {pays receives : Asset} {cull isMaker filled : Bool}
    (h : Returns (fillLimitOrder cancelFee id pays receives cull isMaker) s filled s') :
    ∃ order, Filled id pays cull filled order s s' := by
  unfold fillLimitOrder at h
  obtain ⟨order, hfind, h⟩ := of_fetch h
  obtain ⟨hsells, h⟩ := of_require h
  obtain ⟨-, h⟩ := of_require h
  obtain ⟨seller, -, h⟩ := of_fetch h
  obtain ⟨fees, t1, h1, h⟩ := h.of_bind
  obtain ⟨net, -, h⟩ := h.of_lift
  obtain ⟨_, t2, h2, h⟩ := h.of_bind
  obtain ⟨_, t3, h3, h⟩ := h.of_bind
  have hsame1 : SameOrders s t1 := (payMarketFees_feesOnly _ _ _ _ _ _ _ h1).limitOrders
  have hsame2 : SameOrders t1 t2 := payOrder_sameOrders _ _ _ _ _ _ h2
  have hsame3 : SameOrders t2 t3 := payDeferredFee_sameOrders _ _ _ _ h3
  have hsame : t3.limitOrders = s.limitOrders := hsame1.trans (hsame2.trans hsame3)
  refine ⟨order, ?_⟩
  rcases h.of_ite with ⟨hall, h⟩ | ⟨hpart, h⟩
  · obtain ⟨_, t4, hremove, h⟩ := h.of_bind
    obtain ⟨rfl, rfl⟩ := h.of_pure
    have hbook : s'.limitOrders = s.limitOrders.remove id := by
      rw [Table.remove_iff.mp hremove, ← hsame]
      rfl
    refine ⟨hfind, hsells, fun j hj => ?_, fun _ => ?_, nofun, nofun⟩
    · rw [hbook, Index.find_remove, if_neg hj]
    · rw [hbook, Index.find_remove, if_pos rfl]
  · obtain ⟨_, t4, hupdate, h⟩ := h.of_bind
    obtain ⟨o, o', ho, ho', ht4⟩ := Table.update_iff.mp hupdate
    obtain ⟨_, -, ho'⟩ := Lib.of_bind ho'
    cases ho'
    have hbook : t4.limitOrders =
        s.limitOrders.modify id fun _ => LimitOrder.afterFill o pays.amount := by
      rw [ht4, ← hsame]
      rfl
    have ho : s.limitOrders.find id = some o := by
      rw [← hsame]
      exact ho
    have hfind : s.limitOrders.find id = some order := hfind
    obtain rfl : order = o := Option.some.inj (hfind.symm.trans ho)
    have hothers : ∀ j ≠ id, t4.limitOrders.find j = s.limitOrders.find j := by
      intro j hj
      rw [hbook, Index.find_modify, if_neg hj]
    have hleft : t4.limitOrders.find id = some (LimitOrder.afterFill order pays.amount) := by
      rw [hbook, Index.find_modify, if_pos rfl, hfind]
      rfl
    by_cases hcull : cull = true
    · rw [if_pos hcull] at h
      obtain ⟨o, r, hfound, hr, hcase⟩ := of_maybeCullSmallOrder h
      obtain rfl : LimitOrder.afterFill order pays.amount = o :=
        Option.some.inj (hleft.symm.trans hfound)
      rcases hcase with ⟨hzero, rfl, hbook'⟩ | ⟨hne, rfl, rfl⟩
      · refine ⟨hfind, hsells, fun j hj => ?_, fun _ => ?_, nofun, nofun⟩
        · rw [hbook', Index.find_remove, if_neg hj, hothers j hj]
        · rw [hbook', Index.find_remove, if_pos rfl]
      · exact ⟨hfind, hsells, hothers, nofun, fun _ => ⟨hpart, hleft⟩, fun _ _ => ⟨r, hr, hne⟩⟩
    · rw [if_neg hcull] at h
      obtain ⟨rfl, rfl⟩ := h.of_pure
      exact ⟨hfind, hsells, hothers, nofun, fun _ => ⟨hpart, hleft⟩, fun _ ht => absurd ht hcull⟩

end Meta1Core.Market
