import Meta1Core.Market.TargetSearch

/-!
# When the amount to cover is found

`get_max_debt_to_cover` returns an amount between 1 and the debt exactly when the position is not
above the target before rounding and every round of its searches stays within the limits of its
types.
-/

namespace Meta1Core.Market

open Lib (ceilDiv of_bind)
open Relation (ReflTransGen)
open Protocol Ledger

namespace CallTarget

variable {c : CallTarget}

section

variable {t : Int} {p : Cover}

theorem maximums_eq (hc : c.Ready) (ht : 0 ≤ t) (hle : t ≤ c.order.debt) (hfits : c.MaximumsFit t) :
    c.maximums t = .ok (c.maxCover t) := by
  have hpay_le := hc.pay_le_collateral hle
  unfold maximums maxCover
  by_cases hdebt : t = c.order.debt
  · rw [if_pos hdebt, if_pos (Or.inl hdebt)]
    show ((if Min.min c.order.collateral c.order.collateral = c.order.collateral then
      pure c.order.debt else c.coverWith _ : Except Exception Int) >>= fun _ => _) = _
    rw [min_self, if_pos rfl]
    show Except.ok (if c.order.debt ≤ c.order.debt then _ else _) = _
    rw [if_pos le_rfl]
  rw [if_neg hdebt, hc.payForRoundUp_eq ht (hpay_le.trans hc.collateral_le)]
  show ((if Min.min (c.pay t) c.order.collateral = c.order.collateral then
    pure c.order.debt else c.coverWith (Min.min (c.pay t) c.order.collateral) :
      Except Exception Int) >>= fun maxToCover => pure (if c.order.debt ≤ maxToCover then
        (⟨c.order.collateral, c.order.debt⟩ : Cover)
      else ⟨Min.min (c.pay t) c.order.collateral, maxToCover⟩)) = _
  rw [min_eq_left hpay_le]
  by_cases hall : c.pay t = c.order.collateral
  · rw [if_pos hall, if_pos (Or.inr (Or.inl hall.ge))]
    show Except.ok (if c.order.debt ≤ c.order.debt then _ else _) = _
    rw [if_pos le_rfl]
  have hlt : ¬c.order.collateral ≤ c.pay t := not_le.mpr (lt_of_le_of_ne hpay_le hall)
  rw [if_neg hall, hc.coverWith_eq (hc.pay_nonneg ht) ((hfits.resolve_left hdebt).resolve_left hlt)]
  show Except.ok (if c.order.debt ≤ c.worth (c.pay t) then _ else _) = _
  by_cases hworth : c.order.debt ≤ c.worth (c.pay t)
  · rw [if_pos hworth, if_pos (Or.inr (Or.inr hworth))]
  · rw [if_neg hworth, if_neg (by simp only [hdebt, hlt, hworth, or_self, not_false_eq_true])]

theorem maximumsFit_of_maximums (hc : c.Ready) (hle : t ≤ c.order.debt) {m : Cover}
    (h : c.maximums t = .ok m) : c.MaximumsFit t := by
  have hpay_le := hc.pay_le_collateral hle
  by_cases hdebt : t = c.order.debt
  · exact Or.inl hdebt
  obtain ⟨maxToPay, hpay, h1⟩ := of_bind h
  rw [if_neg hdebt] at hpay
  obtain ⟨-, -, -, hpay⟩ := (payForRoundUp_eq_ok hc.facing).mp hpay
  have hpay : maxToPay = c.pay t := hpay
  rw [hpay] at h1
  dsimp only at h1
  rw [min_eq_left hpay_le] at h1
  obtain ⟨maxToCover, hcover, -⟩ := of_bind h1
  split at hcover
  · rename_i hall
    exact Or.inr (Or.inl hall.ge)
  · exact Or.inr (Or.inr (hc.worth_of_coverWith hcover).2)

theorem inRange_start (hc : c.Ready) (hle : t ≤ c.order.debt) (hpay : 0 ≤ p.toPay)
    (hcover : 0 ≤ p.toCover) (hpay_lt : p.toPay < (c.maxCover t).toPay)
    (hcover_lt : p.toCover < (c.maxCover t).toCover) : c.InRange ⟨p, c.maxCover t, false⟩ := by
  refine ⟨hpay, hcover, hpay_lt, hcover_lt, ?_, ?_, ?_, ?_⟩
  all_goals
    unfold maxCover
    split
  · exact le_rfl
  · exact hc.pay_le_collateral hle
  · exact le_rfl
  · rename_i hpart
    simp only [not_or, not_le] at hpart
    exact hpart.2.2.le
  · exact fun hne => absurd rfl hne
  · rename_i hpart
    simp only [not_or, not_le] at hpart
    exact fun _ => hpart.2.2
  · exact hc.below.le
  · exact Int.ediv_mul_le _ hc.base_pos.ne'

theorem search_returns_iff (hc : c.Ready) (ht : 0 ≤ t) (hle : t ≤ c.order.debt) (hpay : 0 ≤ p.toPay)
    (hcover : 0 ≤ p.toCover) : (∃ d, c.search p t = .ok d) ↔ c.SearchFits p t := by
  have hone : Nat.fib (0 + 1) % 2 ^ 64 = 1 ∧ Nat.fib (0 + 2) % 2 ^ 64 = 1 := by decide
  have hrange (hnot : ¬((c.maxCover t).toPay ≤ p.toPay ∨ (c.maxCover t).toCover ≤ p.toCover)) :
      c.InRange ⟨p, c.maxCover t, false⟩ := by
    rw [not_or, not_le, not_le] at hnot
    exact inRange_start hc hle hpay hcover hnot.1 hnot.2
  have hsearch (hfits : c.MaximumsFit t)
      (hnot : ¬((c.maxCover t).toPay ≤ p.toPay ∨ (c.maxCover t).toCover ≤ p.toCover)) :
      ∃ next, c.search p t = (c.binarySearch rounds ⟨p, c.maxCover t, false⟩ >>= next) ∧
        (∀ toCover, next (.result toCover) = .ok toCover) ∧
        ∀ q, next (.tooSmall q) = c.searchForward rounds 1 1 q := by
    have hlt := hnot
    rw [not_or, not_le, not_le] at hlt
    apply Exists.intro
    refine ⟨?_, ?_, ?_⟩
    · unfold search
      rw [maximums_eq hc ht hle hfits]
      show (if _ then _ else _) = _
      rw [if_neg hnot]
      show (fcAssert _ _ >>= fun _ => _) = _
      rw [fcAssert, if_pos hlt]
      rfl
    · exact fun _ => rfl
    · exact fun _ => rfl
  constructor
  · rintro ⟨d, hd⟩
    have hmax : c.MaximumsFit t := by
      obtain ⟨m, hm, -⟩ := of_bind hd
      exact maximumsFit_of_maximums hc hle hm
    refine ⟨hmax, ?_⟩
    by_cases hnot : (c.maxCover t).toPay ≤ p.toPay ∨ (c.maxCover t).toCover ≤ p.toCover
    · exact hnot.imp_right Or.inl
    refine Or.inr (Or.inr fun stage hstage => ?_)
    obtain ⟨next, hnext, -, hforward⟩ := hsearch hmax hnot
    rw [hnext] at hd
    obtain ⟨narrowed, hnarrowed, hd⟩ := of_bind hd
    rcases fits_of_binarySearch hc (hrange hnot) hnarrowed hstage with
      hfits | ⟨q, rfl, honward, hrest⟩
    · exact hfits
    · rw [hforward, ← hone.1] at hd
      exact fits_of_searchForward hc honward (Nat.zero_le _) hd hrest
  · rintro ⟨hmax, hrounds⟩
    by_cases hnot : (c.maxCover t).toPay ≤ p.toPay ∨ (c.maxCover t).toCover ≤ p.toCover
    · refine ⟨c.order.debt, ?_⟩
      unfold search
      rw [maximums_eq hc ht hle hmax]
      show (if _ then _ else _) = _
      rw [if_pos hnot]
      rfl
    have hfits := (hrounds.resolve_left (fun hle => hnot (Or.inl hle))).resolve_left
      (fun hle => hnot (Or.inr hle))
    have hr := hrange hnot
    have hfuel : ((c.maxCover t).toPay - p.toPay).toNat < rounds := by
      have hmax_pay := hr.max_pay.trans hc.collateral_le
      unfold maxShareSupply at hmax_pay
      unfold rounds
      dsimp only at hmax_pay
      omega
    obtain ⟨next, hnext, hresult, htooSmall⟩ := hsearch hmax hnot
    rw [hnext]
    rcases binarySearch_ends hc hr hfuel hfits with ⟨d, hd⟩ | ⟨q, hq, hreach, honward⟩
    · exact ⟨d, by rw [hd]; exact hresult d⟩
    · have hforward : ∃ d, c.searchForward rounds (Nat.fib (0 + 1) % 2 ^ 64)
          (Nat.fib (0 + 2) % 2 ^ 64) q = .ok d :=
        searchForward_ends hc honward (Nat.zero_le _) (by unfold rounds; omega) fun stage hstage =>
          hfits stage (hreach.trans hstage)
      rw [hone.1, hone.2] at hforward
      obtain ⟨d, hd⟩ := hforward
      exact ⟨d, by rw [hq]; exact (htooSmall q).trans hd⟩

end

def solution (c : CallTarget) (x : Int) : Cover :=
  let toCover := c.worth (x * c.matchPrice.base.amount / c.matchPrice.quote.amount)
  ⟨c.pay toCover, toCover⟩

/-- From the solution of the fraction on, every round stays within the limits. -/
def SolveFits (c : CallTarget) (numerator denominator step : Int) : Prop :=
  c.order.debt ≤ numerator / denominator ∨ c.Good (c.solution (numerator / denominator)) ∨
    c.SearchFits (c.solution (numerator / denominator))
      (Min.min ((numerator + step) / denominator + 1) c.order.debt)

theorem stabilize_eq (hc : c.Ready) {x : Int} (hx : 0 ≤ x) (hlt : x < c.order.debt) :
    c.stabilize x = .ok (c.solution x) ∧ 0 ≤ (c.solution x).toPay ∧
      (c.solution x).toPay < c.order.collateral ∧ 0 ≤ (c.solution x).toCover ∧
      (c.solution x).toCover < c.order.debt := by
  have hbase := hc.base_pos
  have hquote := hc.quote_pos
  obtain ⟨y, hy⟩ : ∃ y, x * c.matchPrice.base.amount / c.matchPrice.quote.amount = y := ⟨_, rfl⟩
  have hy_nonneg : 0 ≤ y := by
    rw [← hy]
    exact Int.ediv_nonneg (mul_nonneg hx hbase.le) hquote.le
  have hy_lt : y < c.order.collateral := by
    rw [← hy]
    exact Int.ediv_lt_of_lt_mul hquote
      ((mul_le_mul_of_nonneg_right hlt.le hbase.le).trans_lt hc.below)
  have hy_le := hy_lt.le.trans hc.collateral_le
  have hworth : c.worth y ≤ x := by
    apply Int.ediv_le_of_le_mul hbase
    rw [← hy]
    exact Int.ediv_mul_le _ hquote.ne'
  have hworth_nonneg := hc.worth_nonneg hy_nonneg
  have hpay_le := hc.pay_worth_le y
  have hgood : GoodPrice c.matchPrice :=
    ⟨hbase, hquote, by rw [hc.facing.faces.1, hc.facing.faces.2]; exact hc.facing.ids⟩
  have hpayFor : c.payFor x = .ok y := by
    have hmul := mul_quote hgood hx (by rw [hy]; exact hy_le)
    unfold payFor
    rw [← hc.facing.faces.2, hmul, hy]
    rfl
  have hsolution : c.solution x = ⟨c.pay (c.worth y), c.worth y⟩ := by
    unfold solution
    rw [hy]
  rw [hsolution]
  refine ⟨?_, hc.pay_nonneg hworth_nonneg, hpay_le.trans_lt hy_lt, hworth_nonneg,
    hworth.trans_lt hlt⟩
  unfold stabilize
  rw [hpayFor]
  show (c.coverWith y >>= fun toCover => _) = _
  rw [hc.coverWith_eq hy_nonneg ((hworth.trans hlt.le).trans hc.debt_le)]
  show (c.payForRoundUp (c.worth y) >>= fun toPay => _) = _
  rw [hc.payForRoundUp_eq hworth_nonneg (hpay_le.trans hy_le)]
  rfl

theorem solve_returns_iff {numerator denominator step : Int}
    (hc : numerator / denominator < c.order.debt → c.Ready) (hn : 0 ≤ numerator)
    (hd : 0 < denominator) (hstep : 0 ≤ step) (hdebt : 0 < c.order.debt) :
    (∃ d, c.solve numerator denominator step = .ok d) ↔ c.SolveFits numerator denominator step := by
  have hx : 0 ≤ numerator / denominator := Int.ediv_nonneg hn hd.le
  have ht : 0 ≤ Min.min ((numerator + step) / denominator + 1) c.order.debt := by
    have hsum := Int.ediv_nonneg (show 0 ≤ numerator + step by omega) hd.le
    omega
  unfold SolveFits
  by_cases hall : c.order.debt ≤ numerator / denominator
  · refine ⟨fun _ => Or.inl hall, fun _ => ⟨c.order.debt, ?_⟩⟩
    unfold solve
    dsimp only
    rw [if_pos hall]
    rfl
  have hready := hc (not_le.mp hall)
  obtain ⟨hstable, hpay, hpay_lt, hcover, hcover_lt⟩ := stabilize_eq hready hx (not_le.mp hall)
  have hpart : ¬(c.order.debt ≤ (c.solution (numerator / denominator)).toCover ∨
      c.order.collateral ≤ (c.solution (numerator / denominator)).toPay) := by omega
  have hsolve : c.solve numerator denominator step =
      if c.Good (c.solution (numerator / denominator)) then
        .ok (c.solution (numerator / denominator)).toCover
      else c.search (c.solution (numerator / denominator))
        (Min.min ((numerator + step) / denominator + 1) c.order.debt) := by
    unfold solve
    dsimp only
    rw [if_neg hall, hstable]
    show (if _ then _ else _) = _
    rw [if_neg hpart]
    show (c.resultIsGood _ >>= fun _ => _) = _
    rw [hready.resultIsGood_eq hpay hpay_lt.le hcover hcover_lt.le]
    show (if decide (c.Good _) = true then _ else _) = (if c.Good _ then _ else _)
    by_cases hgood : c.Good (c.solution (numerator / denominator))
    · rw [if_pos (decide_eq_true hgood), if_pos hgood]
      rfl
    · rw [if_neg (fun hdecide => hgood (of_decide_eq_true hdecide)), if_neg hgood]
  rw [hsolve, or_iff_right hall]
  by_cases hgood : c.Good (c.solution (numerator / denominator))
  · rw [if_pos hgood]
    exact ⟨fun _ => Or.inl hgood, fun _ => ⟨_, rfl⟩⟩
  · rw [if_neg hgood, or_iff_right hgood]
    exact search_returns_iff hready ht (min_le_right _ _) hpay hcover

end CallTarget

/-- A call order with a target, all amounts within the share supply: the maintenance
collateralization is that of the feed, and the order is not above it. -/
structure Callable (o : CallOrder) (matchPrice feedPrice : Price) (mcr target : Nat)
    (maintenance : Price) : Prop where
  ids : o.collateralType ≠ o.debtType
  debt_pos : 0 < o.debt
  debt_le : o.debt ≤ maxShareSupply
  collateral_le : o.collateral ≤ maxShareSupply
  hasTarget : o.targetCollateralRatio = some target
  matchGood : GoodPrice matchPrice
  matchFaces : Price.Faces (Price.facing matchPrice o) o
  feedFaces : Price.Faces (Price.facing feedPrice o) o
  mcr_gt : collateralRatioDenom < mcr
  mcr_le : mcr ≤ 32000
  maintenance_eq : (Price.facing feedPrice o).mulRatio mcr collateralRatioDenom = .ok maintenance
  callable : ¬maintenance.lt o.collateralization

variable {o : CallOrder} {matchPrice feedPrice maintenance targetCollateralization : Price}
  {mcr target : Nat}

theorem Callable.called (h : Callable o matchPrice feedPrice mcr target maintenance)
    (htarget : (Price.facing feedPrice o).mulRatio (Max.max target mcr) collateralRatioDenom =
      .ok targetCollateralization) :
    Called o matchPrice feedPrice mcr target maintenance targetCollateralization :=
  ⟨h.ids, h.debt_pos, h.hasTarget, h.matchGood, h.matchFaces, h.feedFaces, h.mcr_gt, h.mcr_le,
    h.maintenance_eq, htarget, h.callable⟩

/-- The searches of a call stay within the limits, or the debt has to be covered in full without
them. -/
def CallFits (o : CallOrder) (matchPrice feedPrice : Price) (tcr : Nat)
    (targetCollateralization : Price) : Prop :=
  let feed := Price.facing feedPrice o
  let mp := Price.facing matchPrice o
  let step := feed.base.amount * mp.quote.amount * tcr
  step ≤ feed.quote.amount * mp.base.amount * collateralRatioDenom ∨
    CallTarget.SolveFits ⟨o, mp, targetCollateralization⟩
      (feed.base.amount * mp.quote.amount * o.debt * tcr -
        feed.quote.amount * mp.quote.amount * o.collateral * collateralRatioDenom)
      (step - feed.quote.amount * mp.base.amount * collateralRatioDenom) step

section

variable {numerator denominator step : Int}
  (h : Called o matchPrice feedPrice mcr target maintenance targetCollateralization)
  (hdebt : o.debt ≤ maxShareSupply) (hcollateral : o.collateral ≤ maxShareSupply)
  (hnumerator : numerator = step * o.debt - (Price.facing feedPrice o).quote.amount *
    (Price.facing matchPrice o).quote.amount * o.collateral * collateralRatioDenom)
  (hdenominator : denominator = step - (Price.facing feedPrice o).quote.amount *
    (Price.facing matchPrice o).base.amount * collateralRatioDenom)
  (hd : 0 < denominator)
include h hdebt hcollateral hnumerator hdenominator hd

theorem Called.ready (hlt : numerator / denominator < o.debt) :
    CallTarget.Ready ⟨o, Price.facing matchPrice o, targetCollateralization⟩ := by
  obtain ⟨hbase, hquote⟩ := facing_pos (o := o) h.matchGood
  refine ⟨h.facing, hbase, hquote, h.debt_pos, hdebt, hcollateral, ?_⟩
  show o.debt * (Price.facing matchPrice o).base.amount <
    o.collateral * (Price.facing matchPrice o).quote.amount
  have hfeed := (Price.scaled_of_mulRatio h.maintenance_eq).quote_pos
  have hless : numerator < o.debt * denominator := (Int.ediv_lt_iff_lt_mul hd).mp hlt
  rw [hnumerator, hdenominator] at hless
  have hfactor : 0 < (Price.facing feedPrice o).quote.amount * (collateralRatioDenom : Int) :=
    mul_pos hfeed (by decide)
  apply lt_of_mul_lt_mul_right _ hfactor.le
  linarith

theorem Called.solve_returns_iff (hn : 0 ≤ numerator) (hstep : 0 ≤ step) :
    (∃ d, CallTarget.solve ⟨o, Price.facing matchPrice o, targetCollateralization⟩ numerator
        denominator step = .ok d) ↔
      CallTarget.SolveFits ⟨o, Price.facing matchPrice o, targetCollateralization⟩ numerator
        denominator step :=
  CallTarget.solve_returns_iff
    (fun hlt => h.ready hdebt hcollateral hnumerator hdenominator hd hlt) hn hd hstep h.debt_pos

end

/-- `get_max_debt_to_cover` returns an amount between 1 and the debt exactly when the target
collateralization can be computed, the position is not above the target before rounding, and every
round of the searches stays within the limits. -/
theorem getMaxDebtToCover_returns_iff
    (h : Callable o matchPrice feedPrice mcr target maintenance) :
    (∃ d, getMaxDebtToCover o matchPrice feedPrice mcr maintenance = .ok d ∧ 1 ≤ d ∧ d ≤ o.debt) ↔
      ∃ targetCollateralization,
        (Price.facing feedPrice o).mulRatio (Max.max target mcr) collateralRatioDenom =
            .ok targetCollateralization ∧
          o.collateral * (Price.facing feedPrice o).quote.amount * collateralRatioDenom ≤
            o.debt * (Price.facing feedPrice o).base.amount * (Max.max target mcr : Nat) ∧
          CallFits o matchPrice feedPrice (Max.max target mcr) targetCollateralization := by
  obtain ⟨hmp_base, hmp_quote⟩ := facing_pos (o := o) h.matchGood
  have hfeed : 0 < (Price.facing feedPrice o).base.amount ∧
      0 < (Price.facing feedPrice o).quote.amount := by
    have hscaled := Price.scaled_of_mulRatio h.maintenance_eq
    exact ⟨hscaled.base_pos, hscaled.quote_pos⟩
  have hsign : (Price.facing feedPrice o).base.amount * (Price.facing matchPrice o).quote.amount *
        o.debt * (Max.max target mcr : Nat) - (Price.facing feedPrice o).quote.amount *
        (Price.facing matchPrice o).quote.amount * o.collateral * collateralRatioDenom =
      (o.debt * (Price.facing feedPrice o).base.amount * (Max.max target mcr : Nat) -
        o.collateral * (Price.facing feedPrice o).quote.amount * collateralRatioDenom) *
        (Price.facing matchPrice o).quote.amount := by ring
  have hstep : 0 ≤ (Price.facing feedPrice o).base.amount * (Price.facing matchPrice o).quote.amount *
      (Max.max target mcr : Nat) :=
    mul_nonneg (mul_nonneg hfeed.1.le hmp_quote.le) (Int.natCast_nonneg _)
  constructor
  · rintro ⟨d, hd, hd_pos, hd_le⟩
    have htarget : ∃ T, (Price.facing feedPrice o).mulRatio (Max.max target mcr)
        collateralRatioDenom = .ok T := by
      unfold getMaxDebtToCover at hd
      obtain ⟨-, hd⟩ := of_fcAssert hd
      obtain ⟨-, hd⟩ := of_fcAssert hd
      obtain ⟨collateralization, hdiv, hd⟩ := of_bind hd
      obtain ⟨-, hdiv⟩ := of_fcAssert hdiv
      obtain rfl : o.collateralization = collateralization := Except.ok.inj hdiv
      rw [if_neg h.callable, h.hasTarget] at hd
      obtain ⟨T, hT, -⟩ := of_bind hd
      exact ⟨T, hT⟩
    obtain ⟨T, hT⟩ := htarget
    have hcalled := h.called hT
    rw [hcalled.getMaxDebtToCover_eq] at hd
    dsimp only at hd
    rw [hsign] at hd
    refine ⟨T, hT, ?_⟩
    by_cases hlt : (o.debt * (Price.facing feedPrice o).base.amount * (Max.max target mcr : Nat) -
        o.collateral * (Price.facing feedPrice o).quote.amount * collateralRatioDenom) *
        (Price.facing matchPrice o).quote.amount < 0
    · rw [if_pos hlt] at hd
      obtain rfl := Except.ok.inj hd
      omega
    rw [if_neg hlt] at hd
    have hnumerator := nonneg_of_mul_nonneg_left (not_lt.mp hlt) hmp_quote
    refine ⟨sub_nonneg.mp hnumerator, ?_⟩
    by_cases hden : (Price.facing feedPrice o).base.amount * (Price.facing matchPrice o).quote.amount *
        (Max.max target mcr : Nat) - (Price.facing feedPrice o).quote.amount *
        (Price.facing matchPrice o).base.amount * collateralRatioDenom ≤ 0
    · exact Or.inl (sub_nonpos.mp hden)
    rw [if_neg hden, ← hsign] at hd
    right
    refine (hcalled.solve_returns_iff h.debt_le h.collateral_le (by ring) rfl (not_le.mp hden) ?_
      hstep).mp ⟨d, hd⟩
    rw [hsign]
    exact not_lt.mp hlt
  · rintro ⟨T, hT, hle, hfits⟩
    have hcalled := h.called hT
    have hnumerator := mul_nonneg (sub_nonneg.mpr hle) hmp_quote.le
    rw [hcalled.getMaxDebtToCover_eq]
    dsimp only
    rw [if_neg (by rw [hsign]; exact not_lt.mpr hnumerator)]
    by_cases hden : (Price.facing feedPrice o).base.amount * (Price.facing matchPrice o).quote.amount *
        (Max.max target mcr : Nat) - (Price.facing feedPrice o).quote.amount *
        (Price.facing matchPrice o).base.amount * collateralRatioDenom ≤ 0
    · exact ⟨o.debt, by rw [if_pos hden], h.debt_pos, le_rfl⟩
    have hsolve := hfits.resolve_left (fun hle => hden (sub_nonpos.mpr hle))
    obtain ⟨d, hd⟩ := (hcalled.solve_returns_iff h.debt_le h.collateral_le (by ring) rfl
      (not_le.mp hden) (by rw [hsign]; exact hnumerator) hstep).mpr hsolve
    refine ⟨d, by rw [if_neg hden, hd], ?_⟩
    -- a result of the search meets the target, and so it is positive
    rcases hcalled.of_result (CallTarget.of_solve hcalled.facing hd) with hall | ⟨hpos, hlt, -⟩
    · have hdebt := h.debt_pos
      omega
    · omega

namespace CallTarget

variable {c : CallTarget}

def Valid (c : CallTarget) : Stage → Prop
  | .narrow r => c.InRange r
  | .forward p k => c.Onward p k ∧ k ≤ 91

theorem Next.valid (hc : c.Ready) {stage stage' : Stage} (h : c.Next stage stage')
    (hstage : c.Valid stage) : c.Valid stage' := by
  cases h with
  | lower hmoved _ => exact (InRange.lower hc hstage hmoved).1
  | raise hmoved _ => exact (InRange.raise hc hstage hmoved).1
  | beyond hmax _ hpart _ => exact ⟨onward_zero hc hstage hmax hpart, Nat.zero_le _⟩
  | step hnext _ =>
    have hlt := hstage.1.lt_of_next hc hnext
    exact ⟨hstage.1.next hc hnext, by omega⟩

theorem Valid.fits (hc : c.Ready) (hcollateral : c.order.collateral ≤ 2 ^ 61)
    (hdebt : c.order.debt ≤ 2 ^ 61) (hworth : c.worth c.order.collateral ≤ maxShareSupply)
    {stage : Stage} (h : c.Valid stage) : c.Fits stage := by
  have hworth_le {y : Int} (hy : y ≤ c.order.collateral) : c.worth y ≤ maxShareSupply :=
    (hc.worth_mono hy).trans hworth
  cases stage with
  | narrow r =>
    have hr : c.InRange r := h
    have hpay := hr.pay_lt
    have hcover := hr.cover_lt
    have hmax := hr.max_pay
    have hmax' := hr.max_cover
    show c.MeanFits r
    unfold MeanFits
    split
    · exact ⟨by omega, Or.inr (hworth_le (by omega))⟩
    · omega
  | forward p k =>
    obtain ⟨hp, hk⟩ := h
    have hpay := hp.pay_lt
    have hcover := hp.cover_lt
    have hfar := hp.far
    show c.StepFits p (Nat.fib (k + 1))
    unfold StepFits
    split
    · rename_i hprice
      rw [if_pos hprice] at hfar
      obtain ⟨h91, -⟩ := fib_values
      have hk' : k < 91 := by
        by_contra hge
        have hle := Nat.fib_mono (show 91 ≤ k by omega)
        omega
      have hle := Nat.fib_mono (show k + 1 ≤ 91 by omega)
      omega
    · rename_i hprice
      rw [if_neg hprice] at hfar
      have hle := Nat.fib_mono (show k + 1 ≤ k + 2 by omega)
      refine ⟨by omega, ?_⟩
      by_cases hall : c.order.debt ≤ p.toCover + Nat.fib (k + 1)
      · exact Or.inl hall
      · exact Or.inr (Or.inr (hworth_le (hc.pay_le_collateral (not_le.mp hall).le)))

theorem searchFits_of_small (hc : c.Ready) (hcollateral : c.order.collateral ≤ 2 ^ 61)
    (hdebt : c.order.debt ≤ 2 ^ 61) (hworth : c.worth c.order.collateral ≤ maxShareSupply)
    {p : Cover} {t : Int} (hle : t ≤ c.order.debt) (hpay : 0 ≤ p.toPay) (hcover : 0 ≤ p.toCover) :
    c.SearchFits p t := by
  refine ⟨Or.inr (Or.inr ((hc.worth_mono (hc.pay_le_collateral hle)).trans hworth)), ?_⟩
  by_cases hpay_lt : p.toPay < (c.maxCover t).toPay
  · by_cases hcover_lt : p.toCover < (c.maxCover t).toCover
    · refine Or.inr (Or.inr fun stage hstage => ?_)
      have hvalid : c.Valid stage := by
        induction hstage with
        | refl => exact inRange_start hc hle hpay hcover hpay_lt hcover_lt
        | tail _ hnext ih => exact hnext.valid hc ih
      exact hvalid.fits hc hcollateral hdebt hworth
    · exact Or.inr (Or.inl (not_lt.mp hcover_lt))
  · exact Or.inl (not_lt.mp hpay_lt)

end CallTarget

/-- A position of less than `2 ^ 61` whose collateral is worth no more than the share supply stays
within the limits, whatever the target is. -/
theorem Called.callFits_of_small
    (h : Called o matchPrice feedPrice mcr target maintenance targetCollateralization)
    (hcollateral : o.collateral ≤ 2 ^ 61) (hdebt : o.debt ≤ 2 ^ 61)
    (hworth : o.collateral * (Price.facing matchPrice o).quote.amount ≤
      maxShareSupply * (Price.facing matchPrice o).base.amount)
    (hle : o.collateral * (Price.facing feedPrice o).quote.amount * collateralRatioDenom ≤
      o.debt * (Price.facing feedPrice o).base.amount * (Max.max target mcr : Nat)) :
    CallFits o matchPrice feedPrice (Max.max target mcr) targetCollateralization := by
  obtain ⟨hbase, hquote⟩ := facing_pos (o := o) h.matchGood
  unfold CallFits
  dsimp only
  by_cases hstep : (Price.facing feedPrice o).base.amount * (Price.facing matchPrice o).quote.amount *
      (Max.max target mcr : Nat) ≤ (Price.facing feedPrice o).quote.amount *
        (Price.facing matchPrice o).base.amount * collateralRatioDenom
  · exact Or.inl hstep
  right
  obtain ⟨numerator, hnumerator⟩ : ∃ n, (Price.facing feedPrice o).base.amount *
      (Price.facing matchPrice o).quote.amount * o.debt * (Max.max target mcr : Nat) -
      (Price.facing feedPrice o).quote.amount * (Price.facing matchPrice o).quote.amount *
        o.collateral * collateralRatioDenom = n := ⟨_, rfl⟩
  obtain ⟨denominator, hdenominator⟩ : ∃ d, (Price.facing feedPrice o).base.amount *
      (Price.facing matchPrice o).quote.amount * (Max.max target mcr : Nat) -
      (Price.facing feedPrice o).quote.amount * (Price.facing matchPrice o).base.amount *
        collateralRatioDenom = d := ⟨_, rfl⟩
  have hd : 0 < denominator := by
    rw [← hdenominator]
    exact sub_pos.mpr (not_le.mp hstep)
  have hn : 0 ≤ numerator := by
    have hproduct := mul_nonneg (sub_nonneg.mpr hle) hquote.le
    rw [← hnumerator]
    linarith
  rw [hnumerator, hdenominator]
  by_cases hall : o.debt ≤ numerator / denominator
  · exact Or.inl hall
  have hready := h.ready (hdebt.trans (by decide)) (hcollateral.trans (by decide))
    (by rw [← hnumerator]; ring) hdenominator.symm hd (not_le.mp hall)
  obtain ⟨-, hpay, -, hcover, -⟩ :=
    CallTarget.stabilize_eq hready (Int.ediv_nonneg hn hd.le) (not_le.mp hall)
  have hworth' : CallTarget.worth ⟨o, Price.facing matchPrice o, targetCollateralization⟩
      o.collateral ≤ maxShareSupply := Int.ediv_le_of_le_mul hbase hworth
  exact Or.inr (Or.inr (CallTarget.searchFits_of_small hready hcollateral hdebt hworth'
    (min_le_right _ _) hpay hcover))

theorem getMaxDebtToCover_returns_iff_seventeen :
    ∃ d, getMaxDebtToCover ⟨7, 17000, 1000, ⟨⟨1, 0⟩, ⟨1, 5⟩⟩, some 2000⟩ ⟨⟨11, 0⟩, ⟨1, 5⟩⟩
        ⟨⟨10, 0⟩, ⟨1, 5⟩⟩ 1750 ⟨⟨35, 0⟩, ⟨2, 5⟩⟩ = .ok d ∧ 1 ≤ d ∧ d ≤ 1000 := by
  have h : Callable ⟨7, 17000, 1000, ⟨⟨1, 0⟩, ⟨1, 5⟩⟩, some 2000⟩ ⟨⟨11, 0⟩, ⟨1, 5⟩⟩
      ⟨⟨10, 0⟩, ⟨1, 5⟩⟩ 1750 2000 ⟨⟨35, 0⟩, ⟨2, 5⟩⟩ :=
    ⟨by decide, by decide, by decide, by decide, rfl, ⟨by decide, by decide, by decide⟩, by decide,
      by decide, by decide, by decide, by decide +kernel, by decide⟩
  have htarget : (Price.facing ⟨⟨10, 0⟩, ⟨1, 5⟩⟩ ⟨7, 17000, 1000, ⟨⟨1, 0⟩, ⟨1, 5⟩⟩, some 2000⟩).mulRatio
      (Max.max 2000 1750) collateralRatioDenom = .ok ⟨⟨20, 0⟩, ⟨1, 5⟩⟩ := by decide +kernel
  exact (getMaxDebtToCover_returns_iff h).mpr ⟨_, htarget, by decide,
    (h.called htarget).callFits_of_small (by decide) (by decide) (by decide) (by decide)⟩

/-- With 9 * 10^18 of collateral for a debt of 6 * 10^18 the sum of the first mean is above 2^63. -/
theorem getMaxDebtToCover_overflow :
    Callable ⟨7, 9 * 10 ^ 18, 6 * 10 ^ 18, ⟨⟨1, 0⟩, ⟨1, 5⟩⟩, some 10000⟩ ⟨⟨19, 0⟩, ⟨20, 5⟩⟩
        ⟨⟨9, 0⟩, ⟨10, 5⟩⟩ 1750 10000 ⟨⟨63, 0⟩, ⟨40, 5⟩⟩ ∧
      getMaxDebtToCover ⟨7, 9 * 10 ^ 18, 6 * 10 ^ 18, ⟨⟨1, 0⟩, ⟨1, 5⟩⟩, some 10000⟩
          ⟨⟨19, 0⟩, ⟨20, 5⟩⟩ ⟨⟨9, 0⟩, ⟨10, 5⟩⟩ 1750 ⟨⟨63, 0⟩, ⟨40, 5⟩⟩ = .error (.fc "overflow") ∧
      ¬∃ d, getMaxDebtToCover ⟨7, 9 * 10 ^ 18, 6 * 10 ^ 18, ⟨⟨1, 0⟩, ⟨1, 5⟩⟩, some 10000⟩
          ⟨⟨19, 0⟩, ⟨20, 5⟩⟩ ⟨⟨9, 0⟩, ⟨10, 5⟩⟩ 1750 ⟨⟨63, 0⟩, ⟨40, 5⟩⟩ = .ok d ∧
        1 ≤ d ∧ d ≤ 6 * 10 ^ 18 := by
  have herror : getMaxDebtToCover ⟨7, 9 * 10 ^ 18, 6 * 10 ^ 18, ⟨⟨1, 0⟩, ⟨1, 5⟩⟩, some 10000⟩
      ⟨⟨19, 0⟩, ⟨20, 5⟩⟩ ⟨⟨9, 0⟩, ⟨10, 5⟩⟩ 1750 ⟨⟨63, 0⟩, ⟨40, 5⟩⟩ = .error (.fc "overflow") := by
    decide +kernel
  refine ⟨⟨by decide, by decide, by decide, by decide, rfl, ⟨by decide, by decide, by decide⟩,
    by decide, by decide, by decide, by decide, by decide +kernel, by decide⟩, herror, ?_⟩
  rintro ⟨d, hd, -⟩
  rw [herror] at hd
  cases hd

end Meta1Core.Market
