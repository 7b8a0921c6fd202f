import Meta1Core.Market.Matching
import Meta1Core.Market.TargetCollateral
import Meta1Core.Protocol.RatioMonotone

/-!
# The amount to cover meets the target

Whatever `get_max_debt_to_cover` returns, short of the whole debt, comes with the payment that a
match makes for it, and what then remains of the position is above the target.
-/

namespace Meta1Core.Market

open Lib (ceilDiv bind_eq_ok of_bind)
open Protocol Ledger

namespace CallTarget

variable {c : CallTarget}

structure Facing (c : CallTarget) : Prop where
  faces : Price.Faces c.matchPrice c.order
  ids : c.order.collateralType ≠ c.order.debtType

variable {d toCover toCoverAmt toPay x y : Int}

theorem payForRoundUp_eq_ok (hc : c.Facing) :
    c.payForRoundUp x = .ok y ↔
      0 < c.matchPrice.quote.amount ∧
        0 ≤ x * c.matchPrice.base.amount + (c.matchPrice.quote.amount - 1) ∧
        ceilDiv (x * c.matchPrice.base.amount) c.matchPrice.quote.amount ≤ maxShareSupply ∧
        y = ceilDiv (x * c.matchPrice.base.amount) c.matchPrice.quote.amount := by
  obtain ⟨hbase, hquote⟩ := hc.faces
  have hne : c.matchPrice.quote.assetId ≠ c.matchPrice.base.assetId := by
    rw [hbase, hquote]
    exact hc.ids.symm
  unfold payForRoundUp
  rw [bind_eq_ok]
  constructor
  · rintro ⟨r, hr, hy⟩
    obtain ⟨hpos, hnonneg, hle, rfl⟩ :=
      (Asset.multiplyAndRoundUp_quote_eq_ok (a := ⟨x, c.order.debtType⟩) hquote.symm hne).mp hr
    exact ⟨hpos, hnonneg, hle, (Except.ok.inj hy).symm⟩
  · rintro ⟨hpos, hnonneg, hle, rfl⟩
    exact ⟨_, (Asset.multiplyAndRoundUp_quote_eq_ok (a := ⟨x, c.order.debtType⟩) hquote.symm
      hne).mpr ⟨hpos, hnonneg, hle, rfl⟩, rfl⟩

theorem coverWith_eq_ok (hc : c.Facing) :
    c.coverWith x = .ok y ↔
      0 < c.matchPrice.base.amount ∧ 0 ≤ x * c.matchPrice.quote.amount ∧
        x * c.matchPrice.quote.amount / c.matchPrice.base.amount ≤ maxShareSupply ∧
        y = x * c.matchPrice.quote.amount / c.matchPrice.base.amount := by
  have hbase := hc.faces.1
  unfold coverWith
  rw [bind_eq_ok]
  constructor
  · rintro ⟨r, hr, hy⟩
    obtain ⟨hpos, hnonneg, hle, rfl⟩ :=
      (Asset.mul_base_eq_ok (a := ⟨x, c.order.collateralType⟩) hbase.symm).mp hr
    exact ⟨hpos, hnonneg, hle, (Except.ok.inj hy).symm⟩
  · rintro ⟨hpos, hnonneg, hle, rfl⟩
    exact ⟨_, (Asset.mul_base_eq_ok (a := ⟨x, c.order.collateralType⟩) hbase.symm).mpr
      ⟨hpos, hnonneg, hle, rfl⟩, rfl⟩

structure Paired (c : CallTarget) (p : Cover) : Prop where
  pays : c.payForRoundUp p.toCover = .ok p.toPay
  nonneg : 0 ≤ p.toCover

theorem coverWith_nonneg (hc : c.Facing) (h : c.coverWith x = .ok y) : 0 ≤ y := by
  obtain ⟨hpos, hnonneg, -, rfl⟩ := (coverWith_eq_ok hc).mp h
  exact Int.ediv_nonneg hnonneg hpos.le

theorem paired_of_coverWith (hc : c.Facing) (hcover : c.coverWith x = .ok toCover)
    (hpay : c.payForRoundUp toCover = .ok toPay) :
    c.Paired ⟨toPay, toCover⟩ :=
  ⟨hpay, coverWith_nonneg hc hcover⟩

theorem paired_of_payForRoundUp (hc : c.Facing) (hpay : c.payForRoundUp x = .ok toPay)
    (hcover : c.coverWith toPay = .ok toCover) :
    c.Paired ⟨toPay, toCover⟩ := by
  refine ⟨?_, coverWith_nonneg hc hcover⟩
  have hnonneg := coverWith_nonneg hc hcover
  obtain ⟨hquote, -, hmax, rfl⟩ := (payForRoundUp_eq_ok hc).mp hpay
  obtain ⟨hbase, -, -, rfl⟩ := (coverWith_eq_ok hc).mp hcover
  have hsame : ceilDiv (ceilDiv (x * c.matchPrice.base.amount) c.matchPrice.quote.amount *
      c.matchPrice.quote.amount / c.matchPrice.base.amount * c.matchPrice.base.amount)
        c.matchPrice.quote.amount =
      ceilDiv (x * c.matchPrice.base.amount) c.matchPrice.quote.amount := by
    apply le_antisymm
    · rw [Lib.ceilDiv_le_iff hquote]
      exact Int.ediv_mul_le _ hbase.ne'
    · apply Lib.ceilDiv_mono _ hquote
      apply mul_le_mul_of_nonneg_right _ hbase.le
      rw [Int.le_ediv_iff_mul_le hbase]
      exact Lib.le_ceilDiv_mul _ hquote
  have hproduct := mul_nonneg hnonneg hbase.le
  apply (payForRoundUp_eq_ok hc).mpr
  refine ⟨hquote, ?_, ?_, hsame.symm⟩
  · dsimp only at hproduct ⊢
    omega
  · rw [hsame]
    exact hmax

def after (c : CallTarget) (p : Cover) : Price :=
  ⟨⟨c.order.collateral - p.toPay, c.order.collateralType⟩,
    ⟨c.order.debt - p.toCover, c.order.debtType⟩⟩

theorem of_resultIsGood {p : Cover} (h : c.resultIsGood p = .ok true) :
    c.targetCollateralization.lt (c.after p) := by
  obtain ⟨collateral, hcollateral, h⟩ := of_bind h
  obtain ⟨debt, hdebt, h⟩ := of_bind h
  obtain ⟨collateralization, hdiv, h⟩ := of_bind h
  obtain ⟨-, rfl⟩ := Asset.sub_eq_ok hcollateral
  obtain ⟨-, rfl⟩ := Asset.sub_eq_ok hdebt
  obtain ⟨-, hprice⟩ := of_fcAssert hdiv
  cases hprice
  exact of_decide_eq_true (Except.ok.inj h)

structure Meets (c : CallTarget) (p : Cover) : Prop where
  paired : c.Paired p
  pays_lt : p.toPay < c.order.collateral
  cover_lt : p.toCover < c.order.debt
  good : c.resultIsGood p = .ok true

def Result (c : CallTarget) (d : Int) : Prop :=
  d = c.order.debt ∨ ∃ p, c.Meets p ∧ p.toCover = d

def Bound (c : CallTarget) (p : Cover) : Prop :=
  c.Paired p ∧ p.toPay < c.order.collateral ∨ p = ⟨c.order.collateral, c.order.debt⟩

theorem of_mean (hc : c.Facing) {r : Range} {p : Cover} (h : c.mean r = .ok p) :
    p = r.max ∨ c.Paired p ∧ p.toPay < r.max.toPay := by
  obtain ⟨p', hp', h⟩ := of_bind h
  have hmean : p' = r.max ∨ c.Paired p' ∧ p'.toPay < r.max.toPay := by
    split at hp'
    · -- the step of collateral is smaller
      obtain ⟨sum, -, hp'⟩ := of_bind hp'
      obtain ⟨sum', -, hp'⟩ := of_bind hp'
      dsimp only at hp'
      split at hp'
      · rename_i heq
        cases hp'
        left
        rw [heq]
      obtain ⟨toCover, hcover, hp'⟩ := of_bind hp'
      split at hp'
      · cases hp'
        exact Or.inl rfl
      obtain ⟨toPay, hpay, hp'⟩ := of_bind hp'
      obtain ⟨hlt, hp'⟩ := of_fcAssert hp'
      cases hp'
      exact Or.inr ⟨paired_of_coverWith hc hcover hpay, hlt⟩
    · -- the step of debt is smaller or equal
      obtain ⟨sum, -, hp'⟩ := of_bind hp'
      dsimp only at hp'
      split at hp'
      · rename_i heq
        cases hp'
        left
        rw [heq]
      obtain ⟨toPay, hpay, hp'⟩ := of_bind hp'
      split at hp'
      · cases hp'
        exact Or.inl rfl
      rename_i hlt
      obtain ⟨toCover, hcover, hp'⟩ := of_bind hp'
      cases hp'
      split
      · exact Or.inl rfl
      · exact Or.inr ⟨paired_of_payForRoundUp hc hpay hcover, not_le.mp hlt⟩
  cases h
  split
  · exact Or.inl rfl
  · exact hmean

theorem of_binarySearch (hc : c.Facing) {fuel : Nat} {r : Range} (hmax : c.Bound r.max)
    (hok : r.maxIsOk = true → c.Meets r.max) (h : c.binarySearch fuel r = .ok (.result d)) :
    c.Result d := by
  induction fuel generalizing r with
  | zero => cases h
  | succ fuel ih =>
    unfold binarySearch at h
    obtain ⟨p, hp, h⟩ := of_bind h
    have hcase := of_mean hc hp
    have heq_max : p.toPay = r.max.toPay → p = r.max := by
      intro heq
      rcases hcase with hmaxEq | ⟨-, hlt⟩
      · exact hmaxEq
      · exact absurd heq hlt.ne
    split at h
    · rename_i hend
      obtain rfl := heq_max hend.1
      cases h
      rcases hend.2 with hisOk | hall
      · exact Or.inr ⟨_, hok hisOk, rfl⟩
      · rcases hmax with ⟨-, hlt⟩ | heverything
        · exact absurd hall hlt.ne
        · left
          rw [heverything]
    obtain ⟨⟨hpay_lt, hcover_lt⟩, h⟩ := of_fcAssert h
    obtain ⟨good, hgood, h⟩ := of_bind h
    have hpaired : c.Paired p := by
      rcases hcase with rfl | ⟨hpaired, -⟩
      · rcases hmax with ⟨hpaired, -⟩ | heverything
        · exact hpaired
        · rw [heverything] at hpay_lt
          exact absurd hpay_lt (lt_irrefl _)
      · exact hpaired
    split at h
    · rename_i htrue
      have hmeets : c.Meets p := ⟨hpaired, hpay_lt, hcover_lt, htrue ▸ hgood⟩
      split at h
      · cases h
        exact Or.inr ⟨p, hmeets, rfl⟩
      · exact ih (Or.inl ⟨hpaired, hpay_lt⟩) (fun _ => hmeets) h
    · split at h
      · cases h
      · exact ih (r := { r with min := p }) hmax hok h

theorem of_stepForward (hc : c.Facing) {p p' : Cover} {d2 : Nat}
    (h : c.stepForward p d2 = .ok (some p')) : c.Paired p' := by
  unfold stepForward at h
  split at h
  · obtain ⟨toPay, -, h⟩ := of_bind h
    split at h
    · cases h
    obtain ⟨toCover, hcover, h⟩ := of_bind h
    split at h
    · cases h
    obtain ⟨toPay', hpay, h⟩ := of_bind h
    split at h
    · cases h
    cases h
    exact paired_of_coverWith hc hcover hpay
  · obtain ⟨toCover, -, h⟩ := of_bind h
    split at h
    · cases h
    obtain ⟨toPay, hpay, h⟩ := of_bind h
    split at h
    · cases h
    obtain ⟨toCover', hcover, h⟩ := of_bind h
    split at h
    · cases h
    cases h
    exact paired_of_payForRoundUp hc hpay hcover

theorem of_searchForward (hc : c.Facing) {fuel d2 d3 : Nat} {p : Cover}
    (h : c.searchForward fuel d2 d3 p = .ok d) : c.Result d := by
  induction fuel generalizing d2 d3 p with
  | zero => cases h
  | succ fuel ih =>
    unfold searchForward at h
    obtain ⟨step, hstep, h⟩ := of_bind h
    cases step with
    | none =>
      cases h
      exact Or.inl rfl
    | some p' =>
      obtain ⟨⟨hpay_lt, hcover_lt⟩, h⟩ := of_fcAssert h
      obtain ⟨good, hgood, h⟩ := of_bind h
      split at h
      · rename_i htrue
        cases h
        exact Or.inr ⟨p', ⟨of_stepForward hc hstep, hpay_lt, hcover_lt, htrue ▸ hgood⟩, rfl⟩
      · exact ih h

theorem of_maximums (hc : c.Facing) {max : Cover} (h : c.maximums toCoverAmt = .ok max) :
    c.Bound max := by
  obtain ⟨maxToPay, hpay, h⟩ := of_bind h
  obtain ⟨maxToCover, hcover, h⟩ := of_bind h
  cases h
  by_cases hall : Min.min maxToPay c.order.collateral = c.order.collateral
  · rw [if_pos hall] at hcover
    cases hcover
    right
    rw [if_pos le_rfl]
  rw [if_neg hall] at hcover
  have hmin : Min.min maxToPay c.order.collateral = maxToPay :=
    (min_choice _ _).resolve_right hall
  have hlt : maxToPay < c.order.collateral := by
    rcases lt_or_ge maxToPay c.order.collateral with hlt | hge
    · exact hlt
    · exact absurd (min_eq_right hge) hall
  rw [hmin] at hcover ⊢
  by_cases hdebt : toCoverAmt = c.order.debt
  · rw [if_pos hdebt] at hpay
    cases hpay
    exact absurd hlt (lt_irrefl _)
  rw [if_neg hdebt] at hpay
  split
  · exact Or.inr rfl
  · exact Or.inl ⟨paired_of_payForRoundUp hc hpay hcover, hlt⟩

theorem of_search (hc : c.Facing) {p : Cover} (h : c.search p toCoverAmt = .ok d) : c.Result d := by
  obtain ⟨max, hmax, h⟩ := of_bind h
  split at h
  · cases h
    exact Or.inl rfl
  obtain ⟨-, h⟩ := of_fcAssert h
  obtain ⟨narrowed, hnarrowed, h⟩ := of_bind h
  cases narrowed with
  | result toCover =>
    cases h
    exact of_binarySearch hc (of_maximums hc hmax) (fun hok => absurd hok Bool.false_ne_true) hnarrowed
  | tooSmall p => exact of_searchForward hc h

theorem of_solve (hc : c.Facing) {numerator denominator step : Int}
    (h : c.solve numerator denominator step = .ok d) : c.Result d := by
  unfold solve at h
  dsimp only at h
  split at h
  · cases h
    exact Or.inl rfl
  obtain ⟨p, hp, h⟩ := of_bind h
  split at h
  · cases h
    exact Or.inl rfl
  rename_i hpart
  obtain ⟨good, hgood, h⟩ := of_bind h
  split at h
  · rename_i htrue
    cases h
    obtain ⟨toPay, hpay, hp⟩ := of_bind hp
    obtain ⟨toCover, hcover, hp⟩ := of_bind hp
    obtain ⟨toPay', hpay', hp⟩ := of_bind hp
    cases hp
    push Not at hpart
    exact Or.inr ⟨_, ⟨paired_of_coverWith hc hcover hpay', hpart.2, hpart.1, htrue ▸ hgood⟩, rfl⟩
  · exact of_search hc h

end CallTarget

/-! ## The amount of a call -/

/-- A call order with a target at prices that `check_call_orders` passes on: the maintenance
collateralization is that of the feed, and the order is not above it. -/
structure Called (o : CallOrder) (matchPrice feedPrice : Price) (mcr target : Nat)
    (maintenance targetCollateralization : Price) : Prop where
  ids : o.collateralType ≠ o.debtType
  debt_pos : 0 < o.debt
  hasTarget : o.targetCollateralRatio = some target
  matchGood : GoodPrice matchPrice
  matchFaces : Price.Faces (Price.facing matchPrice o) o
  feedFaces : Price.Faces (Price.facing feedPrice o) o
  mcr_gt : collateralRatioDenom < mcr
  mcr_le : mcr ≤ 32000
  maintenance_eq : (Price.facing feedPrice o).mulRatio mcr collateralRatioDenom = .ok maintenance
  target_eq : (Price.facing feedPrice o).mulRatio (Max.max target mcr) collateralRatioDenom =
    .ok targetCollateralization
  callable : ¬maintenance.lt o.collateralization

def CallOrder.left (o : CallOrder) (pays d : Int) : Price :=
  ⟨⟨o.collateral - pays, o.collateralType⟩, ⟨o.debt - d, o.debtType⟩⟩

/-- To cover `d` closes the position, or leaves it above the target and above the maintenance
collateralization. -/
def MeetsTarget (o : CallOrder) (matchPrice maintenance target : Price) (d : Int) : Prop :=
  d = o.debt ∨
    0 < d ∧ d < o.debt ∧ ∃ pays,
      (⟨d, o.debtType⟩ : Asset).multiplyAndRoundUp matchPrice = .ok ⟨pays, o.collateralType⟩ ∧
        pays < o.collateral ∧ target.lt (CallOrder.left o pays d) ∧
        maintenance.lt (CallOrder.left o pays d)

section

variable {o : CallOrder} {matchPrice feedPrice maintenance targetCollateralization : Price}
  {mcr target : Nat}

theorem multiplyAndRoundUp_inv {a : Asset} {p : Price} (hne : p.base.assetId ≠ p.quote.assetId) :
    a.multiplyAndRoundUp p.inv = a.multiplyAndRoundUp p := by
  unfold Asset.multiplyAndRoundUp Price.inv
  by_cases hbase : a.assetId = p.base.assetId
  · rw [if_pos hbase, if_pos hbase, if_neg (fun hquote => hne (hbase.symm.trans hquote))]
  · rw [if_neg hbase, if_neg hbase]

theorem multiplyAndRoundUp_facing {a : Asset} {p : Price}
    (hne : p.base.assetId ≠ p.quote.assetId) :
    a.multiplyAndRoundUp (Price.facing p o) = a.multiplyAndRoundUp p := by
  unfold Price.facing
  split
  · rfl
  · exact multiplyAndRoundUp_inv hne

theorem facing_pos {p : Price} (hp : GoodPrice p) :
    0 < (Price.facing p o).base.amount ∧ 0 < (Price.facing p o).quote.amount := by
  unfold Price.facing
  split
  · exact ⟨hp.base_pos, hp.quote_pos⟩
  · exact ⟨hp.quote_pos, hp.base_pos⟩

namespace Called

variable (h : Called o matchPrice feedPrice mcr target maintenance targetCollateralization)
include h

theorem facing : CallTarget.Facing ⟨o, Price.facing matchPrice o, targetCollateralization⟩ :=
  ⟨h.matchFaces, h.ids⟩

theorem maintenance_le : maintenance.value ≤ targetCollateralization.value :=
  Price.mulRatio_mono h.maintenance_eq h.target_eq h.mcr_gt (le_max_right _ _) h.mcr_le

theorem maintenance_lt {pays d : Int} (hd : d < o.debt)
    (hlt : targetCollateralization.lt (CallOrder.left o pays d)) :
    maintenance.lt (CallOrder.left o pays d) := by
  obtain ⟨-, -, -, hbase, hquote, -, hpos, -⟩ := Price.of_mulRatio h.maintenance_eq h.mcr_gt
  obtain ⟨-, -, -, hbase', hquote', -, hpos', -⟩ :=
    Price.of_mulRatio h.target_eq (lt_of_lt_of_le h.mcr_gt (le_max_right _ _))
  obtain ⟨hfeed, hfeed'⟩ := h.feedFaces
  have hleft : 0 < (CallOrder.left o pays d).quote.amount := sub_pos.mpr hd
  rw [Price.lt_iff_value (b := CallOrder.left o pays d) (hbase'.trans hfeed)
    (hquote'.trans hfeed') hpos' hleft] at hlt
  rw [Price.lt_iff_value (b := CallOrder.left o pays d) (hbase.trans hfeed)
    (hquote.trans hfeed') hpos hleft]
  exact lt_of_le_of_lt h.maintenance_le hlt

theorem not_good_zero (hlt : targetCollateralization.lt (CallOrder.left o 0 0)) : False := by
  apply h.callable
  have hgood := h.maintenance_lt h.debt_pos hlt
  unfold CallOrder.left at hgood
  rw [sub_zero, sub_zero] at hgood
  exact hgood

theorem of_result {d : Int}
    (hresult : CallTarget.Result ⟨o, Price.facing matchPrice o, targetCollateralization⟩ d) :
    MeetsTarget o matchPrice maintenance targetCollateralization d := by
  rcases hresult with hall | ⟨p, hmeets, rfl⟩
  · exact Or.inl hall
  right
  have hlt : targetCollateralization.lt (CallOrder.left o p.toPay p.toCover) :=
    CallTarget.of_resultIsGood hmeets.good
  obtain ⟨toPay, hpays, hamount⟩ := of_bind hmeets.paired.pays
  have hid : toPay.assetId = o.collateralType := by
    obtain ⟨-, -, -, rfl⟩ := (Asset.multiplyAndRoundUp_quote_eq_ok
      (a := ⟨p.toCover, o.debtType⟩) h.matchFaces.2.symm
      (fun heq => h.ids (h.matchFaces.1.symm.trans (heq.symm.trans h.matchFaces.2)))).mp hpays
    rw [h.matchFaces.1]
  have hpays' : (⟨p.toCover, o.debtType⟩ : Asset).multiplyAndRoundUp matchPrice =
      .ok ⟨p.toPay, o.collateralType⟩ := by
    rw [← multiplyAndRoundUp_facing h.matchGood.ids (o := o), ← hid, ← Except.ok.inj hamount]
    exact hpays
  have hpos : 0 < p.toCover := by
    rcases hmeets.paired.nonneg.lt_or_eq with hpos | hzero
    · exact hpos
    · -- nothing is paid for nothing
      have hpay : p.toPay = 0 := by
        obtain ⟨hquote, -, -, heq⟩ :=
          (CallTarget.payForRoundUp_eq_ok h.facing).mp hmeets.paired.pays
        rw [heq, ← hzero, zero_mul]
        apply Int.ediv_eq_zero_of_lt <;> omega
      rw [hpay, ← hzero] at hlt
      exact (h.not_good_zero hlt).elim
  exact ⟨hpos, hmeets.cover_lt, p.toPay, hpays', hmeets.pays_lt, hlt,
    h.maintenance_lt hmeets.cover_lt hlt⟩

theorem getMaxDebtToCover_eq :
    getMaxDebtToCover o matchPrice feedPrice mcr maintenance =
      (let feed := Price.facing feedPrice o
       let mp := Price.facing matchPrice o
       let tcr := Max.max target mcr
       let numerator := feed.base.amount * mp.quote.amount * o.debt * tcr -
         feed.quote.amount * mp.quote.amount * o.collateral * collateralRatioDenom
       let step := feed.base.amount * mp.quote.amount * tcr
       let denominator := step - feed.quote.amount * mp.base.amount * collateralRatioDenom
       if numerator < 0 then .ok 0
       else if denominator ≤ 0 then .ok o.debt
       else CallTarget.solve ⟨o, mp, targetCollateralization⟩ numerator denominator step) := by
  obtain ⟨-, -, -, hbase, hquote, -⟩ := Price.of_mulRatio h.maintenance_eq h.mcr_gt
  have hfaces : Price.Faces maintenance o := ⟨hbase.trans h.feedFaces.1, hquote.trans h.feedFaces.2⟩
  have hdiv : o.getCollateral.div o.getDebt = .ok o.collateralization := by
    unfold Asset.div fcAssert
    rw [if_pos (show o.getCollateral.assetId ≠ o.getDebt.assetId from h.ids)]
    rfl
  unfold getMaxDebtToCover fcAssert
  dsimp only
  rw [if_pos h.feedFaces, if_pos hfaces, if_pos h.matchFaces, hdiv]
  show (if _ then _ else _) = _
  rw [if_neg h.callable, h.hasTarget]
  dsimp only
  rw [h.target_eq]
  rfl

end Called

/-- `get_max_debt_to_cover` meets the target exactly where the position is not above it before
rounding; above it the function covers nothing, although the rounded maintenance collateralization
calls the order. -/
theorem getMaxDebtToCover_meets_iff
    (h : Called o matchPrice feedPrice mcr target maintenance targetCollateralization) :
    (∀ d, getMaxDebtToCover o matchPrice feedPrice mcr maintenance = .ok d →
        MeetsTarget o matchPrice maintenance targetCollateralization d) ↔
      o.collateral * (Price.facing feedPrice o).quote.amount * collateralRatioDenom ≤
        o.debt * (Price.facing feedPrice o).base.amount * (Max.max target mcr : Nat) := by
  obtain ⟨-, hquote⟩ := facing_pos (o := o) h.matchGood
  have hsign : (Price.facing feedPrice o).base.amount * (Price.facing matchPrice o).quote.amount *
        o.debt * (Max.max target mcr : Nat) - (Price.facing feedPrice o).quote.amount *
        (Price.facing matchPrice o).quote.amount * o.collateral * collateralRatioDenom =
      (o.debt * (Price.facing feedPrice o).base.amount * (Max.max target mcr : Nat) -
        o.collateral * (Price.facing feedPrice o).quote.amount * collateralRatioDenom) *
        (Price.facing matchPrice o).quote.amount := by ring
  rw [h.getMaxDebtToCover_eq]
  dsimp only
  rw [hsign]
  constructor
  · intro hmeets
    by_contra hgt
    have hlt : (o.debt * (Price.facing feedPrice o).base.amount * (Max.max target mcr : Nat) -
        o.collateral * (Price.facing feedPrice o).quote.amount * collateralRatioDenom) *
        (Price.facing matchPrice o).quote.amount < 0 :=
      mul_neg_of_neg_of_pos (by omega) hquote
    have hdebt := h.debt_pos
    rcases hmeets 0 (if_pos hlt) with hzero | ⟨hzero, -⟩ <;> omega
  · intro hle d hd
    rw [if_neg (not_lt.mpr (mul_nonneg (by omega) hquote.le))] at hd
    split at hd
    · exact Or.inl (Except.ok.inj hd).symm
    · exact h.of_result (CallTarget.of_solve h.facing hd)

end

theorem getMaxDebtToCover_meets_iff_seventeen :
    (17000 : Int) * 1 * collateralRatioDenom ≤ 1000 * 10 * (Max.max 2000 1750 : Nat) ∧
      ∀ d, getMaxDebtToCover ⟨7, 17000, 1000, ⟨⟨1, 0⟩, ⟨1, 5⟩⟩, some 2000⟩ ⟨⟨11, 0⟩, ⟨1, 5⟩⟩
          ⟨⟨10, 0⟩, ⟨1, 5⟩⟩ 1750 ⟨⟨35, 0⟩, ⟨2, 5⟩⟩ = .ok d →
        MeetsTarget ⟨7, 17000, 1000, ⟨⟨1, 0⟩, ⟨1, 5⟩⟩, some 2000⟩ ⟨⟨11, 0⟩, ⟨1, 5⟩⟩
          ⟨⟨35, 0⟩, ⟨2, 5⟩⟩ ⟨⟨20, 0⟩, ⟨1, 5⟩⟩ d :=
  ⟨by decide, (getMaxDebtToCover_meets_iff (show Called _ _ _ _ 2000 _ _ from
    ⟨by decide, by decide, rfl, ⟨by decide, by decide, by decide⟩, by decide, by decide, by decide,
      by decide, by decide +kernel, by decide +kernel, by decide⟩)).mpr (by decide)⟩

/-- The feed is (2^56)/(2^56 + 1); its product with 1.751 has to be rounded, upwards.  The position
is at the rounded maintenance collateralization, so it is called, and nothing is covered. -/
theorem getMaxDebtToCover_zero :
    Called ⟨7, 1751 * 2 ^ 52, 125 * 2 ^ 55 + 62, ⟨⟨1, 0⟩, ⟨1, 5⟩⟩, some 1751⟩ ⟨⟨1, 0⟩, ⟨1, 5⟩⟩
        ⟨⟨2 ^ 56, 0⟩, ⟨2 ^ 56 + 1, 5⟩⟩ 1751 1751 ⟨⟨1751 * 2 ^ 51, 0⟩, ⟨125 * 2 ^ 54 + 31, 5⟩⟩
        ⟨⟨1751 * 2 ^ 51, 0⟩, ⟨125 * 2 ^ 54 + 31, 5⟩⟩ ∧
      getMaxDebtToCover ⟨7, 1751 * 2 ^ 52, 125 * 2 ^ 55 + 62, ⟨⟨1, 0⟩, ⟨1, 5⟩⟩, some 1751⟩
          ⟨⟨1, 0⟩, ⟨1, 5⟩⟩ ⟨⟨2 ^ 56, 0⟩, ⟨2 ^ 56 + 1, 5⟩⟩ 1751
          ⟨⟨1751 * 2 ^ 51, 0⟩, ⟨125 * 2 ^ 54 + 31, 5⟩⟩ = .ok 0 ∧
      ¬MeetsTarget ⟨7, 1751 * 2 ^ 52, 125 * 2 ^ 55 + 62, ⟨⟨1, 0⟩, ⟨1, 5⟩⟩, some 1751⟩
          ⟨⟨1, 0⟩, ⟨1, 5⟩⟩ ⟨⟨1751 * 2 ^ 51, 0⟩, ⟨125 * 2 ^ 54 + 31, 5⟩⟩
          ⟨⟨1751 * 2 ^ 51, 0⟩, ⟨125 * 2 ^ 54 + 31, 5⟩⟩ 0 := by
  refine ⟨⟨by decide, by decide, rfl, ⟨by decide, by decide, by decide⟩, by decide, by decide,
    by decide, by decide, by decide +kernel, by decide +kernel, by decide⟩, by decide +kernel, ?_⟩
  rintro (hall | ⟨hpos, -⟩)
  · exact absurd hall (by decide)
  · exact absurd hpos (lt_irrefl 0)

end Meta1Core.Market
