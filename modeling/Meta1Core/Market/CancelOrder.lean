import Meta1Core.Ledger.Supply
import Meta1Core.Market.LimitOrderCreate
import Meta1Core.Market.LimitOrders

/-!
# The fee of a limit order, from its creation to its end (`market_evaluator.cpp`, `db_market.cpp`)

The fee of a new limit order is deferred: the order holds it in core, together with what was paid for
it in another asset.  The first fill charges all of it.  A cancellation charges at most the
cancellation fee and gives back the rest.
-/

namespace Meta1Core.Market

open Lib (Rows Index Returns Relates ceilDiv bind_eq_ok of_bind)
open Protocol Ledger

namespace LimitOrderCreateOperation

/-- `limit_order_create_evaluator::convert_fee`: the fee pool pays, and what was paid to it is not
accumulated yet. -/
def convertFee (op : LimitOrderCreateOperation) (ctx : TransactionEvaluationState)
    (coreFeePaid : Int) : Evaluation Unit :=
  onlyIf (ctx.skipFee = false ∧ op.fee.assetId ≠ core) <|
    assets.update op.fee.assetId fun a => return { a with feePool := ← safe (a.feePool - coreFeePaid) }

/-- `limit_order_create_evaluator::pay_fee`: `_deferred_fee` and `_deferred_paid_fee` -/
def deferFee (op : LimitOrderCreateOperation) (coreFeePaid : Int) : Int × Asset :=
  (coreFeePaid, if op.fee.assetId ≠ core then op.fee else ⟨0, core⟩)

/-- `limit_order_create_evaluator::do_apply` before the order is matched -/
def placeOrder (op : LimitOrderCreateOperation) (deferred : Int × Asset) : Evaluation Nat := do
  onlyIf (op.amountToSell.assetId = core) <|
    accounts.update op.seller fun a =>
      return { a with totalCoreInOrders := ← safe (a.totalCoreInOrders + op.amountToSell.amount) }
  adjustBalance op.seller op.amountToSell.neg
  let price ← op.amountToSell.div op.minToReceive
  limitOrders.create
    { expiration := op.expiration
      seller := op.seller
      forSale := op.amountToSell.amount
      sellPrice := price
      deferredFee := deferred.1
      deferredPaidFee := deferred.2 }

def openOrder (op : LimitOrderCreateOperation) (ctx : TransactionEvaluationState) :
    Evaluation Nat := do
  let coreFeePaid ← prepareFee op.seller op.fee
  op.convertFee ctx coreFeePaid
  op.placeOrder (op.deferFee coreFeePaid)

end LimitOrderCreateOperation

/-! ## What a cancellation moves -/

/-- The fees of an order are amounts of a `share_type`, and none is negative. -/
structure LimitOrder.InRange (o : LimitOrder) : Prop where
  deferredFee_nonneg : 0 ≤ o.deferredFee
  deferredFee_lt : o.deferredFee < 2 ^ 63
  paid_nonneg : 0 ≤ o.deferredPaidFee.amount
  paid_lt : o.deferredPaidFee.amount < 2 ^ 63

def LimitOrder.charged (o : LimitOrder) (cancelFee : Nat) (createVirtualOp skipCancelFee : Bool) :
    Int :=
  if createVirtualOp ∧ ¬skipCancelFee then min cancelFee o.deferredFee else 0

/-- The same part of what was paid for the deferred fee, rounded up -/
def LimitOrder.chargedPaid (o : LimitOrder) (fee : Int) : Int :=
  ceilDiv (o.deferredPaidFee.amount * fee) o.deferredFee

def LimitOrder.cancelFlow (o : LimitOrder) (fee : Int) : Flow :=
  .toBalance o.seller o.amountForSale +
    .toOrders o.seller (if o.sellAssetId = core then -o.forSale else 0) + .toCoreFees o.seller fee +
    if o.deferredPaidFee.amount = 0 then .toBalance o.seller ⟨o.deferredFee - fee, core⟩
    else
      .toBalance o.seller
          ⟨o.deferredPaidFee.amount - LimitOrder.chargedPaid o fee, o.deferredPaidFee.assetId⟩ +
        .toAccumulatedFees o.deferredPaidFee.assetId (LimitOrder.chargedPaid o fee) +
        .toFeePool o.deferredPaidFee.assetId (o.deferredFee - fee)

namespace LimitOrder.InRange

variable {o : LimitOrder}

theorem charged_bounds (h : LimitOrder.InRange o) (cancelFee : Nat) (virtualOp skip : Bool) :
    0 ≤ LimitOrder.charged o cancelFee virtualOp skip ∧
      LimitOrder.charged o cancelFee virtualOp skip ≤ o.deferredFee := by
  have hnonneg := h.deferredFee_nonneg
  unfold LimitOrder.charged
  split <;> omega

variable {fee : Int}

theorem chargedPaid_bounds (h : LimitOrder.InRange o) (h0 : 0 ≤ fee) (hle : fee ≤ o.deferredFee) :
    0 ≤ LimitOrder.chargedPaid o fee ∧ LimitOrder.chargedPaid o fee ≤ o.deferredPaidFee.amount := by
  have hpaid := h.paid_nonneg
  unfold LimitOrder.chargedPaid
  rcases eq_or_lt_of_le h.deferredFee_nonneg with hzero | hpos
  · -- nothing is deferred
    rw [← hzero]
    simp [ceilDiv, hpaid]
  · constructor
    · exact Lib.ceilDiv_nonneg (mul_nonneg hpaid h0) hpos
    · rw [Lib.ceilDiv_le_iff hpos]
      exact mul_le_mul_of_nonneg_left hle hpaid

theorem product_lt (h : LimitOrder.InRange o) (hle : fee ≤ o.deferredFee) :
    o.deferredPaidFee.amount * fee + o.deferredFee - 1 < 2 ^ 128 := by
  have hproduct : o.deferredPaidFee.amount * fee ≤ (2 ^ 63 - 1) * (2 ^ 63 - 1) := by
    calc o.deferredPaidFee.amount * fee
        ≤ o.deferredPaidFee.amount * o.deferredFee := mul_le_mul_of_nonneg_left hle h.paid_nonneg
      _ ≤ (2 ^ 63 - 1) * (2 ^ 63 - 1) := by
        apply mul_le_mul
        · exact Int.le_sub_one_of_lt h.paid_lt
        · exact Int.le_sub_one_of_lt h.deferredFee_lt
        · exact h.deferredFee_nonneg
        · decide
  have hfee := h.deferredFee_lt
  omega

theorem fee128_eq (h : LimitOrder.InRange o) (hpos : 0 < fee) (hle : fee ≤ o.deferredFee) :
    int64Cast (uint128 (uint128 o.deferredPaidFee.amount * fee + o.deferredFee - 1) /
      uint128 o.deferredFee) = LimitOrder.chargedPaid o fee := by
  have hpaid := h.paid_nonneg
  have hpaid_lt := h.paid_lt
  have hfee := h.deferredFee_lt
  have hproduct : 0 ≤ o.deferredPaidFee.amount * fee := mul_nonneg hpaid hpos.le
  have hbounds := h.chargedPaid_bounds hpos.le hle
  have hquotient : ((uint128 (uint128 o.deferredPaidFee.amount * fee + o.deferredFee - 1) /
      uint128 o.deferredFee : Nat) : Int) = LimitOrder.chargedPaid o fee := by
    rw [Int.natCast_ediv, uint128_of_nonneg hpaid (by omega),
      uint128_of_nonneg (by omega) (h.product_lt hle), uint128_of_nonneg (by omega) (by omega)]
    unfold LimitOrder.chargedPaid ceilDiv
    rw [add_sub_assoc]
  rw [int64Cast_of_lt (by omega), hquotient]

end LimitOrder.InRange

variable {s s' t : State} {order : LimitOrder}

variable {cancelFee id : Nat} {skip virtualOp : Bool}

variable {fees : Int × Asset}

theorem of_payCancelFee (horder : LimitOrder.InRange order) (hpos : 0 < order.deferredFee)
    (h : Returns (payCancelFee cancelFee order) s fees s') :
    let fee := min (cancelFee : Int) order.deferredFee
    let paid := LimitOrder.chargedPaid order fee
    fees = (order.deferredFee - fee,
      ⟨order.deferredPaidFee.amount - paid, order.deferredPaidFee.assetId⟩) ∧
      Flows (.toCoreFees order.seller fee + .toAccumulatedFees order.deferredPaidFee.assetId paid)
        s s' := by
  intro fee paid
  unfold payCancelFee at h
  rcases h.of_ite with ⟨hzero, h⟩ | ⟨hfee, h⟩
  · -- there is no cancellation fee
    obtain ⟨rfl, rfl⟩ := h.of_pure
    have hfee : fee = 0 := by omega
    have hpaid : paid = 0 := by
      show ceilDiv (order.deferredPaidFee.amount * fee) order.deferredFee = 0
      rw [hfee, mul_zero, ceilDiv, zero_add]
      exact Int.ediv_eq_zero_of_lt (by omega) (by omega)
    rw [hfee, hpaid, sub_zero, sub_zero, Flow.toCoreFees_zero, Flow.toAccumulatedFees_zero, add_zero]
    exact ⟨rfl, .refl _⟩
  · replace h := h.of_get
    obtain ⟨_, s1, hpay, h⟩ := h.of_bind
    obtain ⟨deferredFee, hdeferred, h⟩ := h.of_lift
    obtain ⟨rfl, -⟩ := of_safe hdeferred
    have hcore : Flows (.toCoreFees order.seller fee) s s1 := .payFee hpay
    rcases h.of_ite with ⟨hnone, h⟩ | ⟨-, h⟩
    · obtain ⟨rfl, rfl⟩ := h.of_pure
      have hpaid : paid = 0 := by
        show ceilDiv (order.deferredPaidFee.amount * fee) order.deferredFee = 0
        rw [hnone, zero_mul, ceilDiv, zero_add]
        exact Int.ediv_eq_zero_of_lt (by omega) (by omega)
      rw [hpaid, sub_zero, Flow.toAccumulatedFees_zero, add_zero]
      exact ⟨rfl, hcore⟩
    · dsimp only at h
      rw [horder.fee128_eq (by omega : 0 < fee) (by omega)] at h
      obtain ⟨_, s2, hassets, h⟩ := h.of_bind
      obtain ⟨left, hleft, h⟩ := h.of_lift
      obtain ⟨rfl, -⟩ := of_safe hleft
      obtain ⟨rfl, rfl⟩ := h.of_pure
      have haccumulated : Flows (.toAccumulatedFees order.deferredPaidFee.assetId paid +
          .toFeePool order.deferredPaidFee.assetId 0) s1 s' := by
        apply Flows.updateAsset hassets
        intro a a' ha'
        obtain ⟨v, hv, heq⟩ := of_bind ha'
        obtain ⟨rfl, -⟩ := of_safe hv
        cases heq
        exact ⟨rfl, (add_zero _).symm⟩
      rw [Flow.toFeePool_zero, add_zero] at haccumulated
      exact ⟨rfl, hcore.trans haccumulated⟩

variable {u : Unit}

theorem of_refundDeferredFee {fee : Int} {paid : Asset}
    (h : Returns (refundDeferredFee order fee paid) s u s') :
    Flows (if order.deferredPaidFee.amount = 0 then .toBalance order.seller ⟨fee, core⟩
      else .toBalance order.seller paid + .toFeePool paid.assetId fee) s s' := by
  unfold refundDeferredFee at h
  rcases h.of_ite with ⟨hzero, h⟩ | ⟨hpaid, h⟩
  · rw [if_pos hzero]
    exact .adjustBalance h
  · rw [if_neg hpaid]
    obtain ⟨_, t, hbalance, h⟩ := h.of_bind
    have hpool : Flows (.toAccumulatedFees paid.assetId 0 + .toFeePool paid.assetId fee) t s' := by
      apply Flows.updateAsset h
      intro a a' ha'
      obtain ⟨v, hv, heq⟩ := of_bind ha'
      obtain ⟨rfl, -⟩ := of_safe hv
      cases heq
      exact ⟨(add_zero _).symm, rfl⟩
    rw [Flow.toAccumulatedFees_zero, zero_add] at hpool
    exact (Flows.adjustBalance hbalance).trans hpool

theorem flows_coreInOrders {c : Prop} [Decidable c] {account : AccountId} {delta : Int}
    {g : AccountObject → Except Exception AccountObject}
    (hg : ∀ a a', g a = .ok a' → a'.pendingFees = a.pendingFees ∧
      a'.pendingVestedFees = a.pendingVestedFees ∧
        a'.totalCoreInOrders = a.totalCoreInOrders + delta)
    (h : Returns (onlyIf c (accounts.update account g)) s u s') :
    Flows (.toOrders account (if c then delta else 0)) s s' := by
  rcases h.of_ite with ⟨hc, h⟩ | ⟨hc, h⟩
  · have hflows : Flows (.toCoreFees account 0 + .toOrders account delta) s s' := by
      apply Flows.updateAccount h
      intro a a' ha'
      obtain ⟨hfees, hvested, horders⟩ := hg a a' ha'
      rw [hfees, hvested]
      exact ⟨(add_zero _).symm, horders⟩
    rw [if_pos hc]
    simpa using hflows
  · obtain ⟨-, rfl⟩ := h.of_pure
    rw [if_neg hc, Flow.toOrders_zero]
    exact .refl _

theorem chargedPaid_zero (horder : LimitOrder.InRange order) :
    LimitOrder.chargedPaid order 0 = 0 := by
  have hbounds := horder.chargedPaid_bounds le_rfl horder.deferredFee_nonneg
  have hnonneg := horder.deferredFee_nonneg
  unfold LimitOrder.chargedPaid at hbounds ⊢
  rw [mul_zero] at hbounds ⊢
  rcases eq_or_lt_of_le hnonneg with hzero | hpos
  · rw [← hzero]
    simp [ceilDiv]
  · rw [ceilDiv, zero_add]
    exact Int.ediv_eq_zero_of_lt (by omega) (by omega)

theorem of_chargeCancelFee (horder : LimitOrder.InRange order)
    (h : Returns (if virtualOp ∧ ¬skip ∧ 0 < order.deferredFee then payCancelFee cancelFee order
      else pure (order.deferredFee, order.deferredPaidFee)) s fees s') :
    let fee := LimitOrder.charged order cancelFee virtualOp skip
    let paid := LimitOrder.chargedPaid order fee
    fees = (order.deferredFee - fee,
      ⟨order.deferredPaidFee.amount - paid, order.deferredPaidFee.assetId⟩) ∧
      Flows (.toCoreFees order.seller fee + .toAccumulatedFees order.deferredPaidFee.assetId paid)
        s s' := by
  have hnonneg := horder.deferredFee_nonneg
  rcases h.of_ite with ⟨⟨hvirtual, hskip, hpos⟩, h⟩ | ⟨hnot, h⟩
  · have hfee : LimitOrder.charged order cancelFee virtualOp skip =
        min (cancelFee : Int) order.deferredFee := if_pos ⟨hvirtual, hskip⟩
    rw [hfee]
    exact of_payCancelFee horder hpos h
  · obtain ⟨rfl, rfl⟩ := h.of_pure
    have hfee : LimitOrder.charged order cancelFee virtualOp skip = 0 := by
      unfold LimitOrder.charged
      split
      · rename_i hcharges
        have hzero : ¬0 < order.deferredFee := fun hpos => hnot ⟨hcharges.1, hcharges.2, hpos⟩
        omega
      · rfl
    rw [hfee]
    intro fee paid
    have hpaid : paid = 0 := chargedPaid_zero horder
    rw [hpaid, Flow.toCoreFees_zero, Flow.toAccumulatedFees_zero, add_zero, sub_zero, sub_zero]
    exact ⟨rfl, .refl _⟩

theorem flows_of_cancelLimitOrder (hfind : s.limitOrders.find id = some order)
    (horder : LimitOrder.InRange order)
    (h : Returns (cancelLimitOrder cancelFee virtualOp id skip) s u s') :
    Flows (LimitOrder.cancelFlow order (LimitOrder.charged order cancelFee virtualOp skip)) s s' := by
  unfold cancelLimitOrder at h
  obtain ⟨order', hfind', h⟩ := of_fetch h
  obtain rfl : order = order' := Option.some.inj (hfind.symm.trans hfind')
  obtain ⟨fees, t1, hcharge, h⟩ := h.of_bind
  obtain ⟨_, t2, hrelease, h⟩ := h.of_bind
  obtain ⟨_, t3, hsold, h⟩ := h.of_bind
  obtain ⟨_, t4, hrefund, h⟩ := h.of_bind
  obtain ⟨hfees, hcharged⟩ := of_chargeCancelFee horder hcharge
  rw [hfees] at hrefund
  have hreleased : Flows (.toOrders order.seller
      (if order.sellAssetId = core then -order.forSale else 0)) t1 t2 := by
    apply flows_coreInOrders _ hrelease
    intro a a' ha'
    obtain ⟨v, hv, heq⟩ := of_bind ha'
    obtain ⟨rfl, -⟩ := of_safe hv
    cases heq
    exact ⟨rfl, rfl, sub_eq_add_neg _ _⟩
  have hremoved : Flows 0 t4 s' := by
    rw [Table.remove_iff.mp h]
    exact .of_same rfl rfl rfl rfl
  have hflows := (((hcharged.trans hreleased).trans (.adjustBalance hsold)).trans
    (of_refundDeferredFee hrefund)).trans hremoved
  refine cast (congrArg (Flows · s s') ?_) hflows
  unfold LimitOrder.cancelFlow
  by_cases hzero : order.deferredPaidFee.amount = 0
  · -- nothing was paid in another asset, so no part of it is charged
    have hpaid : LimitOrder.chargedPaid order (LimitOrder.charged order cancelFee virtualOp skip) = 0 := by
      have hcharged := horder.charged_bounds cancelFee virtualOp skip
      have hbounds := horder.chargedPaid_bounds hcharged.1 hcharged.2
      omega
    rw [if_pos hzero, if_pos hzero, hpaid, Flow.toAccumulatedFees_zero]
    abel
  · rw [if_neg hzero, if_neg hzero]
    abel

theorem inRange_of_supplied (h : Supplied s) (hfind : s.limitOrders.find id = some order) :
    LimitOrder.InRange order := by
  obtain ⟨hsale, hfee, hpaid⟩ := h.limitOrders id order hfind
  refine ⟨hfee, ?_, hpaid, ?_⟩
  · have hroom := h.balance_room hfind core
    have hpublic := h.balances.publicBalance_nonneg core
    unfold LimitOrder.held maxShareSupply at hroom
    rw [if_pos rfl] at hroom
    split at hroom <;> split at hroom <;> omega
  · have hroom := h.balance_room hfind order.deferredPaidFee.assetId
    have hpublic := h.balances.publicBalance_nonneg order.deferredPaidFee.assetId
    unfold LimitOrder.held maxShareSupply at hroom
    rw [if_pos rfl] at hroom
    split at hroom <;> split at hroom <;> omega

structure Refundable (order : LimitOrder) (s s1 : State) : Prop where
  balances : s1.balances = s.balances
  seller : ∃ a, s1.accounts.find order.seller = some a ∧ 0 ≤ a.totalCoreInOrders ∧
    a.totalCoreInOrders ≤ maxShareSupply
  feePool : order.deferredPaidFee.amount ≠ 0 → ∃ a, s1.assets.find order.deferredPaidFee.assetId =
    some a ∧ 0 ≤ a.feePool ∧ a.feePool + order.deferredFee < 2 ^ 63

theorem exists_returns_charge (h : Supplied s) (hfind : s.limitOrders.find id = some order)
    (hseller : ∃ a, s.accounts.find order.seller = some a)
    (hasset : order.deferredPaidFee.amount ≠ 0 →
      ∃ a, s.assets.find order.deferredPaidFee.assetId = some a) (cancelFee : Nat)
    (virtualOp skip : Bool) :
    ∃ fees s1, Returns (if virtualOp ∧ ¬skip ∧ 0 < order.deferredFee then
        payCancelFee cancelFee order
      else pure (order.deferredFee, order.deferredPaidFee)) s fees s1 ∧ Refundable order s s1 := by
  have horder := inRange_of_supplied h hfind
  obtain ⟨a, ha⟩ := hseller
  obtain ⟨hpending, hvested, horders, horders_le⟩ := h.accounts _ _ ha
  -- the room that the charge needs
  have hcoreRoom := h.pending_room hfind ha
  have hassetRoom : ∀ b, s.assets.find order.deferredPaidFee.assetId = some b →
      b.accumulatedFees + order.deferredPaidFee.amount ≤ maxShareSupply ∧
        b.feePool + order.deferredFee ≤ maxShareSupply :=
    fun b hb => ⟨h.accumulated_room hfind hb, h.feePool_room hfind hb⟩
  unfold maxShareSupply at hcoreRoom hassetRoom
  by_cases hcharges : virtualOp ∧ ¬skip ∧ 0 < order.deferredFee
  swap
  · refine ⟨_, s, Returns.ite_iff.mpr (Or.inr ⟨hcharges, rfl⟩),
      rfl, ⟨a, ha, horders, horders_le⟩, fun hpaid => ?_⟩
    obtain ⟨b, hb⟩ := hasset hpaid
    have hroom := (hassetRoom b hb).2
    exact ⟨b, hb, (h.assets _ _ hb).2, by omega⟩
  rw [if_pos hcharges]
  unfold payCancelFee
  by_cases hzero : min (cancelFee : Int) order.deferredFee ≤ 0
  · refine ⟨_, s, Returns.ite_iff.mpr (Or.inl ⟨hzero, rfl⟩),
      rfl, ⟨a, ha, horders, horders_le⟩, fun hpaid => ?_⟩
    obtain ⟨b, hb⟩ := hasset hpaid
    have hroom := (hassetRoom b hb).2
    exact ⟨b, hb, (h.assets _ _ hb).2, by omega⟩
  obtain ⟨a', ha', htotal⟩ : ∃ a', AccountObject.payFee (min (cancelFee : Int) order.deferredFee)
      s.cashbackVestingThreshold a = .ok a' ∧ a'.totalCoreInOrders = a.totalCoreInOrders := by
    unfold AccountObject.payFee
    split
    · exact ⟨_, bind_eq_ok.mpr ⟨_, safe_eq_ok.mpr ⟨rfl, by omega, by omega⟩, rfl⟩, rfl⟩
    · exact ⟨_, bind_eq_ok.mpr ⟨_, safe_eq_ok.mpr ⟨rfl, by omega, by omega⟩, rfl⟩, rfl⟩
  have hpay : Returns (accounts.update order.seller (AccountObject.payFee
      (min (cancelFee : Int) order.deferredFee) s.cashbackVestingThreshold)) s ()
      { s with accounts := s.accounts.modify order.seller fun _ => a' } :=
    Table.update_iff.mpr ⟨a, a', ha, ha', rfl⟩
  have hsafe : safe (order.deferredFee - min (cancelFee : Int) order.deferredFee) =
      .ok (order.deferredFee - min (cancelFee : Int) order.deferredFee) := by
    have hlt := horder.deferredFee_lt
    exact safe_eq_ok.mpr ⟨rfl, by omega, by omega⟩
  have hseller : (s.accounts.modify order.seller fun _ => a').find order.seller = some a' := by
    rw [Index.find_modify, if_pos rfl, ha]
    rfl
  have hstart {α : Type} {f : Int → Evaluation α} {r : α} {s1 : State} (hrest : Returns
      (f (order.deferredFee - min (cancelFee : Int) order.deferredFee))
      { s with accounts := s.accounts.modify order.seller fun _ => a' } r s1) :
      Returns (do
        let threshold := (← get).cashbackVestingThreshold
        accounts.update order.seller
          (AccountObject.payFee (min (cancelFee : Int) order.deferredFee) threshold)
        let deferredFee ← safe (order.deferredFee - min (cancelFee : Int) order.deferredFee)
        f deferredFee) s r s1 :=
    Returns.get_bind_iff.mpr (Returns.bind_iff.mpr
      ⟨(), _, hpay, Returns.lift_bind_iff.mpr ⟨_, hsafe, hrest⟩⟩)
  by_cases hnone : order.deferredPaidFee.amount = 0
  · refine ⟨_, _, Returns.ite_iff.mpr (Or.inr ⟨hzero, hstart (Returns.ite_iff.mpr
      (Or.inl ⟨hnone, rfl⟩))⟩), rfl,
      ⟨a', hseller, htotal ▸ horders, htotal ▸ horders_le⟩, fun hpaid => absurd hnone hpaid⟩
  · obtain ⟨b, hb⟩ := hasset hnone
    obtain ⟨hfeesRoom, hpoolRoom⟩ := hassetRoom b hb
    have hfees := (h.assets _ _ hb).1
    have hfee : 0 < min (cancelFee : Int) order.deferredFee := not_le.mp hzero
    have hle : min (cancelFee : Int) order.deferredFee ≤ order.deferredFee := min_le_right _ _
    have hpaid := horder.chargedPaid_bounds hfee.le hle
    have hfee128 := horder.fee128_eq hfee hle
    generalize LimitOrder.chargedPaid order (min (cancelFee : Int) order.deferredFee) = paid
      at hpaid hfee128
    have haccumulated : safe (b.accumulatedFees + paid) = .ok (b.accumulatedFees + paid) := by
      clear hfee128
      exact safe_eq_ok.mpr ⟨rfl, by omega, by omega⟩
    have hleft : safe (order.deferredPaidFee.amount - paid) =
        .ok (order.deferredPaidFee.amount - paid) := by
      have hlt := horder.paid_lt
      clear hfee128
      exact safe_eq_ok.mpr ⟨rfl, by omega, by omega⟩
    refine ⟨(order.deferredFee - min (cancelFee : Int) order.deferredFee,
      ⟨order.deferredPaidFee.amount - paid, order.deferredPaidFee.assetId⟩), { s with
      accounts := s.accounts.modify order.seller fun _ => a'
      assets := s.assets.modify order.deferredPaidFee.assetId fun _ =>
        { b with accumulatedFees := b.accumulatedFees + paid } },
      Returns.ite_iff.mpr (Or.inr ⟨hzero, hstart (Returns.ite_iff.mpr (Or.inr ⟨hnone, ?_⟩))⟩), rfl,
      ⟨a', hseller, htotal ▸ horders, htotal ▸ horders_le⟩, fun _ =>
        ⟨{ b with accumulatedFees := b.accumulatedFees + paid }, ?_, (h.assets _ _ hb).2, ?_⟩⟩
    · dsimp only
      rw [hfee128]
      exact Returns.bind_iff.mpr ⟨(), _, Table.update_iff.mpr
        ⟨b, { b with accumulatedFees := b.accumulatedFees + paid }, hb,
          bind_eq_ok.mpr ⟨_, haccumulated, rfl⟩, rfl⟩,
        Returns.lift_bind_iff.mpr ⟨_, hleft, rfl⟩⟩
    · show (s.assets.modify order.deferredPaidFee.assetId _).find _ = _
      rw [Index.find_modify, if_pos rfl, hb]
      rfl
    · dsimp only
      clear hfee128
      omega

theorem exists_returns_refund (order : LimitOrder) (hs : s.BalancesNonneg) {fee paid : Int}
    (hfee : 0 ≤ fee)
    (hfee_le : fee ≤ order.deferredFee) (hpaid : 0 ≤ paid)
    (hcore : order.deferredPaidFee.amount = 0 → s.publicBalance core + fee < 2 ^ 63)
    (hother : s.publicBalance order.deferredPaidFee.assetId + paid < 2 ^ 63)
    (hpool : order.deferredPaidFee.amount ≠ 0 → ∃ a,
      s.assets.find order.deferredPaidFee.assetId = some a ∧ 0 ≤ a.feePool ∧
        a.feePool + order.deferredFee < 2 ^ 63) :
    ∃ s', Returns (refundDeferredFee order fee ⟨paid, order.deferredPaidFee.assetId⟩) s () s' := by
  unfold refundDeferredFee
  by_cases hzero : order.deferredPaidFee.amount = 0
  · rw [if_pos hzero]
    exact exists_returns_credit _ _ hs hfee (hcore hzero)
  · rw [if_neg hzero]
    obtain ⟨t, ht⟩ := exists_returns_credit order.seller
      ⟨paid, order.deferredPaidFee.assetId⟩ hs hpaid hother
    obtain ⟨a, ha, hpool0, hroom⟩ := hpool hzero
    have hfind : t.assets.find order.deferredPaidFee.assetId = some a := by
      rw [adjustBalance_frame ht]
      exact ha
    refine ⟨_, Returns.bind_iff.mpr ⟨(), t, ht, Table.update_iff.mpr
      ⟨a, { a with feePool := a.feePool + fee }, hfind, ?_, rfl⟩⟩⟩
    exact bind_eq_ok.mpr ⟨_, safe_eq_ok.mpr ⟨rfl, by omega, by omega⟩, rfl⟩

theorem exists_returns_cancelLimitOrder (h : Supplied s)
    (hfind : s.limitOrders.find id = some order)
    (hseller : ∃ a, s.accounts.find order.seller = some a)
    (hasset : order.deferredPaidFee.amount ≠ 0 →
      ∃ a, s.assets.find order.deferredPaidFee.assetId = some a) (cancelFee : Nat)
    (virtualOp skip : Bool) :
    ∃ s', Returns (cancelLimitOrder cancelFee virtualOp id skip) s () s' := by
  have horder := inRange_of_supplied h hfind
  obtain ⟨fees, s1, hcharge, hrefundable⟩ :=
    exists_returns_charge h hfind hseller hasset cancelFee virtualOp skip
  obtain ⟨hfees, -⟩ := of_chargeCancelFee horder hcharge
  have hfee := horder.charged_bounds cancelFee virtualOp skip
  have hpaid := horder.chargedPaid_bounds hfee.1 hfee.2
  generalize LimitOrder.charged order cancelFee virtualOp skip = fee at hfees hfee hpaid
  generalize LimitOrder.chargedPaid order fee = paid at hfees hpaid
  -- what was for sale leaves the orders
  obtain ⟨s2, hrelease, hbalances2, hassets2⟩ : ∃ s2,
      Returns (onlyIf (order.sellAssetId = core) (accounts.update order.seller fun a =>
        return { a with totalCoreInOrders := ← safe (a.totalCoreInOrders - order.forSale) })) s1 () s2 ∧
      s2.balances = s.balances ∧ s2.assets = s1.assets := by
    unfold onlyIf
    by_cases hsell : order.sellAssetId = core
    · rw [if_pos hsell]
      obtain ⟨a, ha, horders, horders_le⟩ := hrefundable.seller
      have hroom := h.balance_room hfind core
      have hpublic := h.balances.publicBalance_nonneg core
      have hsale := (h.limitOrders id order hfind).1
      unfold LimitOrder.held at hroom
      rw [if_pos hsell.symm, if_pos rfl] at hroom
      have hsafe : safe (a.totalCoreInOrders - order.forSale) =
          .ok (a.totalCoreInOrders - order.forSale) := by
        have hdeferred := horder.deferredFee_nonneg
        have hpaid_nonneg := horder.paid_nonneg
        unfold maxShareSupply at hroom horders_le
        apply safe_eq_ok.mpr
        split at hroom <;> exact ⟨rfl, by omega, by omega⟩
      exact ⟨_, Table.update_iff.mpr ⟨a, _, ha, bind_eq_ok.mpr ⟨_, hsafe, rfl⟩, rfl⟩,
        hrefundable.balances, rfl⟩
    · rw [if_neg hsell]
      exact ⟨s1, rfl, hrefundable.balances, rfl⟩
  have hs2 : s2.BalancesNonneg := balancesNonneg_congr hbalances2 h.balances
  have hpublic2 := publicBalance_congr hbalances2
  have hpublic := h.balances.publicBalance_nonneg
  have hroom (i : AssetId) : s.publicBalance i + ((if i = order.sellAssetId then order.forSale else 0) +
      (if i = core then order.deferredFee else 0) +
      if i = order.deferredPaidFee.assetId then order.deferredPaidFee.amount else 0) <
        2 ^ 63 := by
    have hle := h.balance_room hfind i
    unfold LimitOrder.held maxShareSupply at hle
    omega
  have hsale := (h.limitOrders id order hfind).1
  have hdeferred := horder.deferredFee_nonneg
  have hpaid_nonneg := horder.paid_nonneg
  have hpart (c : Prop) [Decidable c] {v : Int} (hv : 0 ≤ v) : 0 ≤ if c then v else 0 := by
    split
    · exact hv
    · exact le_rfl
  -- it comes back, and then the rest of the fee does
  obtain ⟨s3, hsold⟩ := exists_returns_credit order.seller order.amountForSale hs2 hsale
    (by
      rw [hpublic2]
      have hsell := hroom order.sellAssetId
      have hcore := hpart (order.sellAssetId = core) hdeferred
      have hother := hpart (order.sellAssetId = order.deferredPaidFee.assetId) hpaid_nonneg
      rw [if_pos rfl] at hsell
      show s.publicBalance order.sellAssetId + order.forSale < 2 ^ 63
      omega)
  obtain ⟨hs3, hnonneg3, hpublic3, -⟩ := adjustBalance_spec hsold hs2
  have hassets3 : s3.assets = s1.assets := by rw [hs3]; exact hassets2
  have hbalance3 (i : AssetId) : s3.publicBalance i =
      s.publicBalance i + if i = order.sellAssetId then order.forSale else 0 := by
    rw [hpublic3, hpublic2]
    rfl
  obtain ⟨s4, hrefund⟩ := exists_returns_refund order hnonneg3 (sub_nonneg.mpr hfee.2)
    (sub_le_self _ hfee.1) (sub_nonneg.mpr hpaid.2)
    (fun _ => by
      have hcore := hroom core
      have hother := hpart (core = order.deferredPaidFee.assetId) hpaid_nonneg
      rw [if_pos rfl] at hcore
      rw [hbalance3]
      omega)
    (by
      have hother := hroom order.deferredPaidFee.assetId
      have hcore := hpart (order.deferredPaidFee.assetId = core) hdeferred
      rw [if_pos rfl] at hother
      rw [hbalance3]
      omega)
    (hassets3 ▸ hrefundable.feePool)
  rw [hfees] at hcharge
  exact ⟨_, returns_fetch_bind.mpr ⟨order, hfind, Returns.bind_iff.mpr ⟨_, s1, hcharge,
    Returns.bind_iff.mpr ⟨(), s2, hrelease, Returns.bind_iff.mpr ⟨(), s3, hsold,
    Returns.bind_iff.mpr ⟨(), s4, hrefund, Table.remove_iff.mpr rfl⟩⟩⟩⟩⟩⟩

/-! ## The fee over the life of an order -/

def SameAccounts (s s' : State) : Prop := s'.accounts = s.accounts

instance : Std.Refl SameAccounts := ⟨fun _ => rfl⟩

instance : IsTrans State SameAccounts := ⟨fun _ _ _ h h' => Eq.trans h' h⟩

theorem SameAccounts.coreFees (h : SameAccounts s s') (account : AccountId) :
    s'.coreFees account = s.coreFees account := by
  unfold State.coreFees
  rw [show s'.accounts = s.accounts from h]

theorem update_sameAccounts {V : Type} {t : Table V}
    (ht : ∀ s i, (t.write s i).accounts = s.accounts) (id : Nat) (f : V → Except Exception V) :
    Relates SameAccounts (t.update id f) := by
  intro s u s' h
  obtain ⟨v, v', -, -, rfl⟩ := Table.update_iff.mp h
  exact ht _ _

theorem payMarketFees_sameAccounts (seller : Option AccountObject) (id : AssetId)
    (receives : Asset) (isMaker : Bool) :
    Relates SameAccounts (payMarketFees seller id receives isMaker) := by
  refine relates_payMarketFees (fun account delta => ?_)
    (fun _ _ => update_sameAccounts (fun _ _ => rfl) _ _) _ _ _
  unfold depositMarketFeeVestingBalance
  refine .bind (relates_require _ _) fun _ => .ite (.pure _) (.bind .get fun s => ?_)
  split
  · refine .bind (fun s id s' h => ?_) fun _ => .pure _
    obtain ⟨-, rfl⟩ := Table.create_iff.mp h
    rfl
  · exact update_sameAccounts (fun _ _ => rfl) _ _

theorem flows_of_payDeferredFee (horder : LimitOrder.InRange order)
    (h : Returns (payDeferredFee order) s u s') :
    Flows (.toCoreFees order.seller order.deferredFee +
      .toAccumulatedFees order.deferredPaidFee.assetId order.deferredPaidFee.amount) s s' := by
  unfold payDeferredFee at h
  replace h := h.of_get
  obtain ⟨_, t, hcore, h⟩ := h.of_bind
  have hpending : Flows (.toCoreFees order.seller order.deferredFee) s t := by
    rcases hcore.of_ite with ⟨-, hpay⟩ | ⟨hnot, hpure⟩
    · exact .payFee hpay
    · obtain ⟨-, rfl⟩ := hpure.of_pure
      have hzero : order.deferredFee = 0 := by
        have hnonneg := horder.deferredFee_nonneg
        omega
      rw [hzero, Flow.toCoreFees_zero]
      exact .refl _
  refine hpending.trans ?_
  rcases h.of_ite with ⟨-, hupdate⟩ | ⟨hnot, hpure⟩
  · have hflows : Flows (.toAccumulatedFees order.deferredPaidFee.assetId
        order.deferredPaidFee.amount + .toFeePool order.deferredPaidFee.assetId 0) t s' := by
      apply Flows.updateAsset hupdate
      intro a a' ha'
      obtain ⟨v, hv, heq⟩ := of_bind ha'
      obtain ⟨rfl, -⟩ := of_safe hv
      cases heq
      exact ⟨rfl, (add_zero _).symm⟩
    simpa using hflows
  · obtain ⟨-, rfl⟩ := hpure.of_pure
    have hzero : order.deferredPaidFee.amount = 0 := by
      have hnonneg := horder.paid_nonneg
      omega
    rw [hzero, Flow.toAccumulatedFees_zero]
    exact .refl _

theorem coreFees_of_cancelLimitOrder (hfind : s.limitOrders.find id = some order)
    (horder : LimitOrder.InRange order)
    (h : Returns (cancelLimitOrder cancelFee virtualOp id skip) s u s') :
    s'.coreFees order.seller = s.coreFees order.seller +
      LimitOrder.charged order cancelFee virtualOp skip := by
  have hflows := flows_of_cancelLimitOrder hfind horder h
  rw [hflows.coreFees]
  unfold LimitOrder.cancelFlow
  by_cases hzero : order.deferredPaidFee.amount = 0
  · rw [if_pos hzero]
    simp [Flow.toBalance, Flow.toOrders, Flow.toCoreFees]
  · rw [if_neg hzero]
    simp [Flow.toBalance, Flow.toOrders, Flow.toCoreFees, Flow.toAccumulatedFees, Flow.toFeePool]

theorem inRange_afterFill (order : LimitOrder) (pays : Int) :
    LimitOrder.InRange (LimitOrder.afterFill order pays) := by
  refine ⟨le_rfl, ?_, le_rfl, ?_⟩
  · show (0 : Int) < 2 ^ 63
    decide
  · show (0 : Int) < 2 ^ 63
    decide

theorem coreFees_of_fillLimitOrder {pays receives : Asset} {cull isMaker filled : Bool}
    (hfind : s.limitOrders.find id = some order) (horder : LimitOrder.InRange order)
    (h : Returns (fillLimitOrder cancelFee id pays receives cull isMaker) s filled s') :
    s'.coreFees order.seller = s.coreFees order.seller + order.deferredFee := by
  unfold fillLimitOrder at h
  obtain ⟨order', hfind', h⟩ := of_fetch h
  obtain rfl : order = order' := Option.some.inj (hfind.symm.trans hfind')
  obtain ⟨-, h⟩ := of_require h
  obtain ⟨-, h⟩ := of_require h
  obtain ⟨seller, -, h⟩ := of_fetch h
  obtain ⟨fees, t1, hfees, h⟩ := h.of_bind
  obtain ⟨net, -, h⟩ := h.of_lift
  obtain ⟨_, t2, hpaid, h⟩ := h.of_bind
  obtain ⟨_, t3, hdeferred, h⟩ := h.of_bind
  have h1 : t1.coreFees order.seller = s.coreFees order.seller :=
    (payMarketFees_sameAccounts _ _ _ _ _ _ _ hfees).coreFees _
  have h2 : t2.coreFees order.seller = t1.coreFees order.seller := by
    obtain ⟨_, t, hlocked, hcredit⟩ := hpaid.of_bind
    have hflows : Flows (.toOrders order.seller (if pays.assetId = core then -pays.amount else 0))
        t1 t := by
      apply flows_coreInOrders _ hlocked
      intro a a' ha'
      obtain ⟨v, hv, heq⟩ := of_bind ha'
      obtain ⟨rfl, -⟩ := of_safe hv
      cases heq
      exact ⟨rfl, rfl, sub_eq_add_neg _ _⟩
    rw [(hflows.trans (.adjustBalance hcredit)).coreFees]
    simp [Flow.toOrders, Flow.toBalance]
  have h3 : t3.coreFees order.seller = t2.coreFees order.seller + order.deferredFee := by
    rw [(flows_of_payDeferredFee horder hdeferred).coreFees]
    simp [Flow.toCoreFees, Flow.toAccumulatedFees]
  rw [← h1, ← h2, ← h3]
  rcases h.of_ite with ⟨-, h⟩ | ⟨-, h⟩
  · obtain ⟨_, t4, hremove, h⟩ := h.of_bind
    obtain ⟨-, rfl⟩ := h.of_pure
    rw [Table.remove_iff.mp hremove]
    rfl
  · obtain ⟨_, t4, hupdate, h⟩ := h.of_bind
    obtain ⟨o, o', ho, ho', ht4⟩ := Table.update_iff.mp hupdate
    have hsame : t3.limitOrders = s.limitOrders :=
      SameOrders.trans (payMarketFees_feesOnly _ _ _ _ _ _ _ hfees).limitOrders
        (SameOrders.trans (payOrder_sameOrders _ _ _ _ _ _ hpaid)
          (payDeferredFee_sameOrders _ _ _ _ hdeferred))
    have ho : t3.limitOrders.find id = some o := ho
    obtain rfl : order = o := by
      rw [hsame, hfind] at ho
      exact Option.some.inj ho
    have h4 : t4.coreFees order.seller = t3.coreFees order.seller := by rw [ht4]; rfl
    rw [← h4]
    rcases h.of_ite with ⟨-, h⟩ | ⟨-, h⟩
    swap
    · obtain ⟨-, rfl⟩ := h.of_pure
      rfl
    -- what is left may be too small to stay, but its fee was charged already
    have hleft : t4.limitOrders.find id = some o' := by
      have hfound : (t3.limitOrders.modify id fun _ => o').find id = some o' := by
        rw [Index.find_modify, if_pos rfl, ho]
        rfl
      rw [ht4]
      exact hfound
    obtain ⟨_, -, ho'⟩ := of_bind ho'
    cases ho'
    unfold maybeCullSmallOrder at h
    obtain ⟨small, hsmall, h⟩ := of_fetch h
    obtain rfl : LimitOrder.afterFill order pays.amount = small :=
      Option.some.inj (hleft.symm.trans hsmall)
    obtain ⟨receives', -, h⟩ := h.of_lift
    rcases h.of_ite with ⟨-, h⟩ | ⟨-, h⟩
    · obtain ⟨_, t5, hcancel, h⟩ := h.of_bind
      obtain ⟨-, rfl⟩ := h.of_pure
      have hcharged : LimitOrder.charged (LimitOrder.afterFill order pays.amount) cancelFee true false = 0 := by
        show (if _ then min (cancelFee : Int) 0 else 0) = 0
        rw [min_eq_right (Int.natCast_nonneg cancelFee), ite_self]
      have hcancelled := coreFees_of_cancelLimitOrder hleft (inRange_afterFill _ _) hcancel
      rw [hcharged, add_zero] at hcancelled
      exact hcancelled
    · obtain ⟨-, rfl⟩ := h.of_pure
      rfl

/-- The calls that concern the fee of the order `id`, from `s0` on, and what they added to the pending
fees of its seller; anything else may happen in between. -/
inductive Charges (id : Nat) (seller : AccountId) (s0 : State) : Int → State → Prop
  | start : Charges id seller s0 0 s0
  | elsewhere {n : Int} {s t : State} : Charges id seller s0 n s →
      t.limitOrders.find id = s.limitOrders.find id → Charges id seller s0 n t
  | fill {n : Int} {s t : State} {cancelFee : Nat} {pays receives : Asset}
      {cull isMaker filled : Bool} : Charges id seller s0 n s →
      Returns (fillLimitOrder cancelFee id pays receives cull isMaker) s filled t →
      Charges id seller s0 (n + (t.coreFees seller - s.coreFees seller)) t
  | cancel {n : Int} {s t : State} {cancelFee : Nat} {virtualOp skip : Bool} :
      Charges id seller s0 n s → Returns (cancelLimitOrder cancelFee virtualOp id skip) s () t →
      Charges id seller s0 (n + (t.coreFees seller - s.coreFees seller)) t

def Balanced (id : Nat) (seller : AccountId) (deferred : Int) (n : Int) (s : State) : Prop :=
  0 ≤ n ∧ match s.limitOrders.find id with
    | none => n ≤ deferred
    | some o => o.seller = seller ∧ LimitOrder.InRange o ∧ n + o.deferredFee = deferred

theorem Charges.balanced {seller : AccountId} {s0 : State} {n : Int} (h : Charges id seller s0 n s)
    (hfind : s0.limitOrders.find id = some order) (hseller : order.seller = seller)
    (horder : LimitOrder.InRange order) :
    Balanced id seller order.deferredFee n s := by
  induction h with
  | start =>
    refine ⟨le_rfl, ?_⟩
    rw [hfind]
    exact ⟨hseller, horder, zero_add _⟩
  | elsewhere _ hsame ih =>
    unfold Balanced at ih ⊢
    rw [hsame]
    exact ih
  | @fill n s t cancelFee pays receives cull isMaker filled _ hfill ih =>
    obtain ⟨hn, hbalanced⟩ := ih
    obtain ⟨o, hfilled⟩ := of_fillLimitOrder hfill
    rw [hfilled.found] at hbalanced
    obtain ⟨rfl, hrange, hsum⟩ := hbalanced
    have hfees := coreFees_of_fillLimitOrder hfilled.found hrange hfill
    have hnonneg := hrange.deferredFee_nonneg
    refine ⟨by omega, ?_⟩
    cases filled with
    | true =>
      rw [hfilled.gone rfl]
      dsimp only
      omega
    | false =>
      rw [(hfilled.left rfl).2]
      refine ⟨rfl, inRange_afterFill _ _, ?_⟩
      show _ + (0 : Int) = _
      omega
  | @cancel n s t cancelFee virtualOp skip _ hcancel ih =>
    obtain ⟨hn, hbalanced⟩ := ih
    obtain ⟨o, hfound, -⟩ := of_fetch hcancel
    have hfound : s.limitOrders.find id = some o := hfound
    rw [hfound] at hbalanced
    obtain ⟨rfl, hrange, hsum⟩ := hbalanced
    have hfees := coreFees_of_cancelLimitOrder hfound hrange hcancel
    have hcharged := hrange.charged_bounds cancelFee virtualOp skip
    refine ⟨by omega, ?_⟩
    rw [of_cancelLimitOrder hcancel, Index.find_remove, if_pos rfl]
    dsimp only
    omega

theorem bounds_of_prepareFee {payer : AccountId} {fee : Asset} {coreFeePaid : Int}
    (hfee : fee.amount < 2 ^ 63) (h : Returns (prepareFee payer fee) s coreFeePaid s') :
    0 ≤ fee.amount ∧ 0 ≤ coreFeePaid ∧ coreFeePaid < 2 ^ 63 := by
  unfold prepareFee at h
  obtain ⟨hnonneg, h⟩ := of_require h
  obtain ⟨account, -, h⟩ := of_fetch h
  obtain ⟨a, -, h⟩ := of_fetch h
  obtain ⟨-, h⟩ := of_require h
  refine ⟨hnonneg, ?_⟩
  rcases h.of_ite with ⟨-, h⟩ | ⟨-, h⟩
  · obtain ⟨rfl, -⟩ := h.of_pure
    exact ⟨hnonneg, hfee⟩
  · obtain ⟨feeFromPool, hmul, h⟩ := h.of_lift
    obtain ⟨-, h⟩ := of_require h
    obtain ⟨-, h⟩ := of_require h
    obtain ⟨rfl, -⟩ := h.of_pure
    have hscaled {n d : Int} {i : AssetId} (hscale : Asset.scale n d 0 i = .ok feeFromPool) :
        0 ≤ feeFromPool.amount ∧ feeFromPool.amount < 2 ^ 63 := by
      have hamount := Asset.amount_nonneg_of_scale hscale
      obtain ⟨-, -, hle, rfl⟩ := Asset.scale_eq_ok.mp hscale
      unfold maxShareSupply at hle
      exact ⟨hamount, by dsimp only; omega⟩
    unfold Asset.mul at hmul
    split at hmul
    · exact hscaled hmul
    split at hmul
    · exact hscaled hmul
    · cases hmul

theorem of_openOrder {op : LimitOrderCreateOperation} {ctx : TransactionEvaluationState}
    (hfee : op.fee.amount < 2 ^ 63) (h : Returns (op.openOrder ctx) s id s') :
    ∃ coreFeePaid order, Returns (prepareFee op.seller op.fee) s coreFeePaid s ∧
      s'.limitOrders.find id = some order ∧ order.seller = op.seller ∧
      order.deferredFee = coreFeePaid ∧ LimitOrder.InRange order := by
  unfold LimitOrderCreateOperation.openOrder at h
  obtain ⟨coreFeePaid, s1, hprepare, h⟩ := h.of_bind
  rw [prepareFee_unchanged _ _ _ _ _ hprepare] at hprepare
  obtain ⟨hpaid, hcore, hlt⟩ := bounds_of_prepareFee hfee hprepare
  obtain ⟨_, s2, -, h⟩ := h.of_bind
  unfold LimitOrderCreateOperation.placeOrder at h
  obtain ⟨_, s3, -, h⟩ := h.of_bind
  obtain ⟨_, s4, -, h⟩ := h.of_bind
  obtain ⟨price, -, h⟩ := h.of_lift
  obtain ⟨rfl, rfl⟩ := Table.create_iff.mp h
  have hfind (o : LimitOrder) : (s4.limitOrders.create o).find s4.limitOrders.next = some o := by
    rw [Index.find_create, if_pos rfl]
  have hdeferred : 0 ≤ (op.deferFee coreFeePaid).2.amount ∧
      (op.deferFee coreFeePaid).2.amount < 2 ^ 63 := by
    unfold LimitOrderCreateOperation.deferFee
    dsimp only
    split
    · exact ⟨hpaid, hfee⟩
    · decide
  exact ⟨coreFeePaid, _, hprepare, hfind _, rfl, rfl, hcore, hlt, hdeferred.1, hdeferred.2⟩

def feePoolState : State where
  accounts := ((∅ : Index AccountObject).create { registrar := 0, referrer := 0 }).create
    { registrar := 0, referrer := 0 }
  balances := (AList.insert (1, 0) 200 ∅).insert (1, 1) 50
  assets := ((∅ : Index AssetObject).create
      { issuer := 0, options := { coreExchangeRate := ⟨⟨1, 0⟩, ⟨1, 0⟩⟩ } }).create
    { issuer := 0, feePool := 1000, options := { coreExchangeRate := ⟨⟨1, 1⟩, ⟨2, 0⟩⟩ } }

def sellAll : LimitOrderCreateOperation where
  fee := ⟨50, 1⟩
  seller := 1
  amountToSell := ⟨200, 0⟩
  minToReceive := ⟨20, 1⟩
  expiration := 100

def sellAllOrder : LimitOrder where
  expiration := 100
  seller := 1
  forSale := 200
  sellPrice := ⟨⟨200, 0⟩, ⟨20, 1⟩⟩
  deferredFee := 100
  deferredPaidFee := ⟨50, 1⟩

def restingState : State where
  accounts := ((∅ : Index AccountObject).create { registrar := 0, referrer := 0 }).create
    { registrar := 0, referrer := 0, totalCoreInOrders := 200 }
  balances := (AList.insert (1, 1) 50 ∅).insert (1, 0) 0
  assets := ((∅ : Index AssetObject).create
      { issuer := 0, options := { coreExchangeRate := ⟨⟨1, 0⟩, ⟨1, 0⟩⟩ } }).create
    { issuer := 0, feePool := 900, options := { coreExchangeRate := ⟨⟨1, 1⟩, ⟨2, 0⟩⟩ } }
  limitOrders := (∅ : Index LimitOrder).create sellAllOrder

theorem restingState_supplied : Supplied restingState where
  balances k v h := by
    have hall : ∀ e ∈ restingState.balances.entries, 0 ≤ e.2 := by decide
    exact hall ⟨k, v⟩ (Rows.mem_entries_iff.mpr h)
  limitOrders := Index.forall_find_iff.mpr (by decide)
  assets := Index.forall_find_iff.mpr (by decide)
  accounts := Index.forall_find_iff.mpr (by decide)
  vestingBalances := Index.forall_find_iff.mpr (by decide)
  held_le
    | 0 => by decide
    | 1 => by decide
    | id + 2 => by
      have hzero : restingState.held (id + 2) = 0 := rfl
      rw [hzero]
      decide

end Meta1Core.Market
