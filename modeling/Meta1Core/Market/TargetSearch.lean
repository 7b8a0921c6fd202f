import Mathlib.Data.Nat.Fib.Basic
import Mathlib.Logic.Relation
import Meta1Core.Market.TargetMet

/-!
# The search without limits

The two searches of `get_max_debt_to_cover` over unbounded integers: which ranges and which steps
they go through.
-/

namespace Meta1Core.Market

open Lib (ceilDiv of_bind)
open Relation (ReflTransGen)
open Protocol Ledger

namespace CallTarget

variable (c : CallTarget)

def pay (x : Int) : Int := ceilDiv (x * c.matchPrice.base.amount) c.matchPrice.quote.amount

/-- The debt that a payment is worth, rounded down -/
def worth (y : Int) : Int := y * c.matchPrice.quote.amount / c.matchPrice.base.amount

def Good (p : Cover) : Prop := c.targetCollateralization.lt (c.after p)

instance (p : Cover) : Decidable (c.Good p) := inferInstanceAs (Decidable (Price.lt _ _))

def midOfPay (r : Range) : Cover :=
  let toPay := (r.min.toPay + r.max.toPay + 1) / 2
  if toPay = r.max.toPay ∨ r.max.toCover ≤ c.worth toPay then r.max
  else ⟨c.pay (c.worth toPay), c.worth toPay⟩

def midOfCover (r : Range) : Cover :=
  let toPay := c.pay ((r.min.toCover + r.max.toCover) / 2)
  if r.max.toPay ≤ toPay ∨ r.max.toCover ≤ c.worth toPay then r.max
  else ⟨toPay, c.worth toPay⟩

def midCover (r : Range) : Cover :=
  if c.matchPrice.base.amount < c.matchPrice.quote.amount then c.midOfPay r else c.midOfCover r

def meanCover (r : Range) : Cover :=
  if (c.midCover r).toPay ≤ r.min.toPay ∨ (c.midCover r).toCover ≤ r.min.toCover then r.max
  else c.midCover r

def nextCover (p : Cover) (d : Nat) : Option Cover :=
  if c.matchPrice.quote.amount < c.matchPrice.base.amount then
    let toCover := c.worth (p.toPay + d)
    if c.order.collateral ≤ p.toPay + d ∨ c.order.debt ≤ toCover ∨
        c.order.collateral ≤ c.pay toCover then none
    else some ⟨c.pay toCover, toCover⟩
  else
    let toPay := c.pay (p.toCover + d)
    if c.order.debt ≤ p.toCover + d ∨ c.order.collateral ≤ toPay ∨
        c.order.debt ≤ c.worth toPay then none
    else some ⟨toPay, c.worth toPay⟩

/-- `maximums` -/
def maxCover (t : Int) : Cover :=
  if t = c.order.debt ∨ c.order.collateral ≤ c.pay t ∨ c.order.debt ≤ c.worth (c.pay t) then
    ⟨c.order.collateral, c.order.debt⟩
  else ⟨c.pay t, c.worth (c.pay t)⟩

/-- Where the searches are: in the binary search, or at the step `fib (k + 1)` of the search forward -/
inductive Stage where
  | narrow (r : Range)
  | forward (p : Cover) (k : Nat)
  deriving DecidableEq

/-- A round of either search that does not return -/
inductive Next : Stage → Stage → Prop
  | lower {r : Range} (hmoved : (c.meanCover r).toPay ≠ r.max.toPay) (hgood : c.Good (c.meanCover r)) :
    Next (.narrow r) (.narrow { r with max := c.meanCover r, maxIsOk := true })
  | raise {r : Range} (hmoved : (c.meanCover r).toPay ≠ r.max.toPay)
      (hbad : ¬c.Good (c.meanCover r)) :
    Next (.narrow r) (.narrow { r with min := c.meanCover r })
  | beyond {r : Range} (hmax : (c.meanCover r).toPay = r.max.toPay) (hok : r.maxIsOk = false)
      (hpart : r.max.toPay ≠ c.order.collateral) (hbad : ¬c.Good (c.meanCover r)) :
    Next (.narrow r) (.forward (c.meanCover r) 0)
  | step {p q : Cover} {k : Nat} (hnext : c.nextCover p (Nat.fib (k + 1)) = some q)
      (hbad : ¬c.Good q) :
    Next (.forward p k) (.forward q (k + 1))

/-- The sum that the mean is calculated from is an `int64_t`, and what the mean is worth is within the
share supply. -/
def MeanFits (r : Range) : Prop :=
  if c.matchPrice.base.amount < c.matchPrice.quote.amount then
    r.min.toPay + r.max.toPay + 1 < 2 ^ 63 ∧
      ((r.min.toPay + r.max.toPay + 1) / 2 = r.max.toPay ∨
        c.worth ((r.min.toPay + r.max.toPay + 1) / 2) ≤ maxShareSupply)
  else r.min.toCover + r.max.toCover < 2 ^ 63

/-- The sum of a step forward is an `int64_t`, and what is paid then is worth no more than the share
supply. -/
def StepFits (p : Cover) (d : Nat) : Prop :=
  if c.matchPrice.quote.amount < c.matchPrice.base.amount then p.toPay + d < 2 ^ 63
  else p.toCover + d < 2 ^ 63 ∧
    (c.order.debt ≤ p.toCover + d ∨ c.order.collateral ≤ c.pay (p.toCover + d) ∨
      c.worth (c.pay (p.toCover + d)) ≤ maxShareSupply)

def Fits : Stage → Prop
  | .narrow r => c.MeanFits r
  | .forward p k => c.StepFits p (Nat.fib (k + 1))

def MaximumsFit (t : Int) : Prop :=
  t = c.order.debt ∨ c.order.collateral ≤ c.pay t ∨ c.worth (c.pay t) ≤ maxShareSupply

/-- Every round of the search above `p` stays within the limits. -/
def SearchFits (p : Cover) (t : Int) : Prop :=
  c.MaximumsFit t ∧
    ((c.maxCover t).toPay ≤ p.toPay ∨ (c.maxCover t).toCover ≤ p.toCover ∨
      ∀ stage, ReflTransGen c.Next (.narrow ⟨p, c.maxCover t, false⟩) stage → c.Fits stage)

/-- The position and the match price are positive, and at that price the debt is worth less than the
collateral. -/
structure Ready : Prop where
  facing : c.Facing
  base_pos : 0 < c.matchPrice.base.amount
  quote_pos : 0 < c.matchPrice.quote.amount
  debt_pos : 0 < c.order.debt
  debt_le : c.order.debt ≤ maxShareSupply
  collateral_le : c.order.collateral ≤ maxShareSupply
  below : c.order.debt * c.matchPrice.base.amount <
    c.order.collateral * c.matchPrice.quote.amount

variable {c} {x y : Int}

theorem sub_amounts (id : AssetId) (hlow : -(2 ^ 63) ≤ x - y) (hhigh : x - y < 2 ^ 63) :
    (⟨x, id⟩ : Asset).sub ⟨y, id⟩ = .ok ⟨x - y, id⟩ := by
  unfold Asset.sub fcAssert
  rw [if_pos rfl]
  show (safe (x - y) >>= fun v => pure (⟨v, id⟩ : Asset)) = _
  rw [safe_eq_ok.mpr ⟨rfl, hlow, hhigh⟩]
  rfl

namespace Ready

variable (hc : c.Ready)
include hc

theorem pay_nonneg (hx : 0 ≤ x) : 0 ≤ c.pay x :=
  Lib.ceilDiv_nonneg (mul_nonneg hx hc.base_pos.le) hc.quote_pos

theorem worth_nonneg (hy : 0 ≤ y) : 0 ≤ c.worth y :=
  Int.ediv_nonneg (mul_nonneg hy hc.quote_pos.le) hc.base_pos.le

theorem pay_le_collateral (hx : x ≤ c.order.debt) : c.pay x ≤ c.order.collateral := by
  unfold pay
  rw [Lib.ceilDiv_le_iff hc.quote_pos]
  exact (mul_le_mul_of_nonneg_right hx hc.base_pos.le).trans hc.below.le

theorem pay_worth_le (y : Int) : c.pay (c.worth y) ≤ y := by
  unfold pay
  rw [Lib.ceilDiv_le_iff hc.quote_pos]
  exact Int.ediv_mul_le _ hc.base_pos.ne'

theorem worth_le (hprice : c.matchPrice.quote.amount ≤ c.matchPrice.base.amount) (hy : 0 ≤ y) :
    c.worth y ≤ y := by
  apply Int.ediv_le_of_le_mul hc.base_pos
  exact mul_le_mul_of_nonneg_left hprice hy

theorem worth_mono (h : x ≤ y) : c.worth x ≤ c.worth y :=
  Int.ediv_le_ediv hc.base_pos (mul_le_mul_of_nonneg_right h hc.quote_pos.le)

theorem le_worth_pay (x : Int) : x ≤ c.worth (c.pay x) := by
  unfold worth
  rw [Int.le_ediv_iff_mul_le hc.base_pos]
  exact Lib.le_ceilDiv_mul _ hc.quote_pos

theorem payForRoundUp_eq (hx : 0 ≤ x) (hle : c.pay x ≤ maxShareSupply) :
    c.payForRoundUp x = .ok (c.pay x) := by
  have hproduct := mul_nonneg hx hc.base_pos.le
  have hquote := hc.quote_pos
  exact (payForRoundUp_eq_ok hc.facing).mpr ⟨hquote, by omega, hle, rfl⟩

theorem coverWith_eq (hy : 0 ≤ y) (hle : c.worth y ≤ maxShareSupply) :
    c.coverWith y = .ok (c.worth y) :=
  (coverWith_eq_ok hc.facing).mpr ⟨hc.base_pos, mul_nonneg hy hc.quote_pos.le, hle, rfl⟩

theorem worth_of_coverWith {v : Int} (h : c.coverWith y = .ok v) :
    v = c.worth y ∧ c.worth y ≤ maxShareSupply := by
  obtain ⟨-, -, hle, rfl⟩ := (coverWith_eq_ok hc.facing).mp h
  exact ⟨rfl, hle⟩

theorem resultIsGood_eq {p : Cover} (hpay : 0 ≤ p.toPay) (hpay' : p.toPay ≤ c.order.collateral)
    (hcover : 0 ≤ p.toCover) (hcover' : p.toCover ≤ c.order.debt) :
    c.resultIsGood p = .ok (decide (c.Good p)) := by
  have hdebt := hc.debt_le
  have hcollateral := hc.collateral_le
  unfold maxShareSupply at hdebt hcollateral
  have hsub : c.order.getCollateral.sub ⟨p.toPay, c.order.collateralType⟩ =
      .ok ⟨c.order.collateral - p.toPay, c.order.collateralType⟩ :=
    sub_amounts _ (by omega) (by omega)
  have hsub' : c.order.getDebt.sub ⟨p.toCover, c.order.debtType⟩ =
      .ok ⟨c.order.debt - p.toCover, c.order.debtType⟩ :=
    sub_amounts _ (by omega) (by omega)
  unfold resultIsGood
  rw [hsub, hsub']
  show (Asset.div _ _ >>= fun v => _) = _
  unfold Asset.div fcAssert
  rw [if_pos hc.facing.ids]
  rfl

end Ready

variable (c) in
structure InRange (r : Range) : Prop where
  min_pay : 0 ≤ r.min.toPay
  min_cover : 0 ≤ r.min.toCover
  pay_lt : r.min.toPay < r.max.toPay
  cover_lt : r.min.toCover < r.max.toCover
  max_pay : r.max.toPay ≤ c.order.collateral
  max_cover : r.max.toCover ≤ c.order.debt
  part : r.max.toPay ≠ c.order.collateral → r.max.toCover < c.order.debt
  /-- the payment is worth what it covers -/
  backed : r.max.toCover * c.matchPrice.base.amount ≤ r.max.toPay * c.matchPrice.quote.amount

structure Inside (c : CallTarget) (r : Range) (p : Cover) : Prop where
  pay_gt : r.min.toPay < p.toPay
  pay_lt : p.toPay < r.max.toPay
  cover_gt : r.min.toCover < p.toCover
  cover_lt : p.toCover < r.max.toCover
  backed : p.toCover * c.matchPrice.base.amount ≤ p.toPay * c.matchPrice.quote.amount

section

variable {r : Range}

theorem midCover_cases (hc : c.Ready) (hr : c.InRange r) :
    c.midCover r = r.max ∨ (c.midCover r).toPay < r.max.toPay ∧
      (c.midCover r).toCover < r.max.toCover ∧
      (c.midCover r).toCover * c.matchPrice.base.amount ≤
        (c.midCover r).toPay * c.matchPrice.quote.amount := by
  have hpay := hr.pay_lt
  unfold midCover
  split
  · unfold midOfPay
    dsimp only
    split
    · exact Or.inl rfl
    · rename_i hmax
      obtain ⟨hne, hlt⟩ := not_or.mp hmax
      have hle := hc.pay_worth_le ((r.min.toPay + r.max.toPay + 1) / 2)
      exact Or.inr ⟨by dsimp only; omega, not_le.mp hlt, Lib.le_ceilDiv_mul _ hc.quote_pos⟩
  · unfold midOfCover
    dsimp only
    split
    · exact Or.inl rfl
    · rename_i hmax
      obtain ⟨hpay_lt, hcover_lt⟩ := not_or.mp hmax
      exact Or.inr ⟨not_le.mp hpay_lt, not_le.mp hcover_lt, Int.ediv_mul_le _ hc.base_pos.ne'⟩

theorem meanCover_cases (hc : c.Ready) (hr : c.InRange r) :
    c.meanCover r = r.max ∨ c.Inside r (c.meanCover r) := by
  unfold meanCover
  split
  · exact Or.inl rfl
  rename_i hmoved
  obtain ⟨hpay_gt, hcover_gt⟩ := not_or.mp hmoved
  refine (midCover_cases hc hr).imp_right fun ⟨hpay_lt, hcover_lt, hbacked⟩ => ?_
  exact ⟨not_le.mp hpay_gt, hpay_lt, not_le.mp hcover_gt, hcover_lt, hbacked⟩

theorem meanOfPay_eq (hc : c.Ready) (hr : c.InRange r)
    (hsum : r.min.toPay + r.max.toPay + 1 < 2 ^ 63)
    (hworth : (r.min.toPay + r.max.toPay + 1) / 2 = r.max.toPay ∨
      c.worth ((r.min.toPay + r.max.toPay + 1) / 2) ≤ maxShareSupply) :
    c.meanOfPay r = .ok (c.midOfPay r) := by
  have hmin := hr.min_pay
  have hlt := hr.pay_lt
  have hle := hr.max_pay.trans hc.collateral_le
  obtain ⟨v, hv⟩ : ∃ v, (r.min.toPay + r.max.toPay + 1) / 2 = v := ⟨_, rfl⟩
  have hv_nonneg : 0 ≤ v := by omega
  have hv_le : v ≤ r.max.toPay := by omega
  unfold meanOfPay midOfPay
  dsimp only
  rw [safe_eq_ok.mpr ⟨rfl, by omega, by omega⟩]
  show (safe (r.min.toPay + r.max.toPay + 1) >>= fun w => _) = _
  rw [safe_eq_ok.mpr ⟨rfl, by omega, hsum⟩]
  show (if (r.min.toPay + r.max.toPay + 1) / 2 = r.max.toPay then _ else _) = _
  rw [hv] at hworth ⊢
  by_cases hmax : v = r.max.toPay
  · rw [if_pos hmax, if_pos (Or.inl hmax), hmax]
    rfl
  have hfits := hworth.resolve_left hmax
  rw [if_neg hmax, hc.coverWith_eq hv_nonneg hfits]
  show (if r.max.toCover ≤ c.worth v then _ else _) = _
  by_cases hcover : r.max.toCover ≤ c.worth v
  · rw [if_pos hcover, if_pos (Or.inr hcover)]
    rfl
  have hback := hc.pay_worth_le v
  have hstable : c.pay (c.worth v) < r.max.toPay := by omega
  rw [if_neg hcover, if_neg (not_or.mpr ⟨hmax, hcover⟩),
    hc.payForRoundUp_eq (hc.worth_nonneg hv_nonneg) (by omega)]
  show (fcAssert _ _ >>= fun _ => _) = _
  rw [fcAssert, if_pos hstable]
  rfl

theorem meanOfCover_eq (hc : c.Ready) (hr : c.InRange r)
    (hprice : c.matchPrice.quote.amount ≤ c.matchPrice.base.amount)
    (hsum : r.min.toCover + r.max.toCover < 2 ^ 63) :
    c.meanOfCover r = .ok (c.midOfCover r) := by
  have hmin := hr.min_cover
  have hlt := hr.cover_lt
  have hmaxCover := hr.max_cover
  obtain ⟨v, hv⟩ : ∃ v, (r.min.toCover + r.max.toCover) / 2 = v := ⟨_, rfl⟩
  have hv_nonneg : 0 ≤ v := by omega
  have hv_lt : v < r.max.toCover := by omega
  have hpay_le : c.pay v ≤ maxShareSupply :=
    (hc.pay_le_collateral (by omega)).trans hc.collateral_le
  unfold meanOfCover midOfCover
  dsimp only
  rw [safe_eq_ok.mpr ⟨rfl, by omega, hsum⟩]
  show (if (r.min.toCover + r.max.toCover) / 2 = r.max.toCover then _ else _) = _
  rw [hv, if_neg hv_lt.ne, hc.payForRoundUp_eq hv_nonneg hpay_le]
  show (if r.max.toPay ≤ c.pay v then _ else _) = _
  by_cases hpay : r.max.toPay ≤ c.pay v
  · rw [if_pos hpay, if_pos (Or.inl hpay)]
    rfl
  have hpay_nonneg := hc.pay_nonneg hv_nonneg
  rw [if_neg hpay, hc.coverWith_eq hpay_nonneg ((hc.worth_le hprice hpay_nonneg).trans hpay_le)]
  show Except.ok (if r.max.toCover ≤ c.worth (c.pay v) then _ else _) = _
  by_cases hcover : r.max.toCover ≤ c.worth (c.pay v)
  · rw [if_pos hcover, if_pos (Or.inr hcover)]
  · rw [if_neg hcover, if_neg (not_or.mpr ⟨hpay, hcover⟩)]

theorem mean_eq (hc : c.Ready) (hr : c.InRange r) (hfits : c.MeanFits r) :
    c.mean r = .ok (c.meanCover r) := by
  have hmid : (if c.matchPrice.base.amount < c.matchPrice.quote.amount then c.meanOfPay r
      else c.meanOfCover r) = .ok (c.midCover r) := by
    unfold MeanFits at hfits
    unfold midCover
    split
    · rename_i hprice
      rw [if_pos hprice] at hfits
      exact meanOfPay_eq hc hr hfits.1 hfits.2
    · rename_i hprice
      rw [if_neg hprice] at hfits
      exact meanOfCover_eq hc hr (not_lt.mp hprice) hfits
  have hiff : ((c.midCover r).toPay ≤ r.min.toPay ∨ (c.midCover r).toCover ≤ r.min.toCover ∨
      r.max.toPay < (c.midCover r).toPay ∨ r.max.toCover < (c.midCover r).toCover) ↔
      (c.midCover r).toPay ≤ r.min.toPay ∨ (c.midCover r).toCover ≤ r.min.toCover := by
    rcases midCover_cases hc hr with heq | ⟨hpay, hcover, -⟩
    · rw [heq]
      omega
    · omega
  unfold mean
  rw [hmid]
  show Except.ok (if (c.midCover r).toPay ≤ r.min.toPay ∨ (c.midCover r).toCover ≤ r.min.toCover ∨
    r.max.toPay < (c.midCover r).toPay ∨ r.max.toCover < (c.midCover r).toCover then _ else _) = _
  simp only [hiff]
  rfl

theorem meanFits_of_mean (hc : c.Ready) {p : Cover} (h : c.mean r = .ok p) : c.MeanFits r := by
  obtain ⟨p', hp', -⟩ := of_bind h
  unfold MeanFits
  split at hp'
  · rename_i hprice
    rw [if_pos hprice]
    obtain ⟨sum, hsum, hp'⟩ := of_bind hp'
    obtain ⟨rfl, -⟩ := of_safe hsum
    obtain ⟨sum', hsum', hp'⟩ := of_bind hp'
    obtain ⟨rfl, -, hlt⟩ := of_safe hsum'
    dsimp only at hp'
    refine ⟨hlt, ?_⟩
    split at hp'
    · rename_i hmax
      exact Or.inl hmax
    · obtain ⟨toCover, hcover, -⟩ := of_bind hp'
      exact Or.inr (hc.worth_of_coverWith hcover).2
  · rename_i hprice
    rw [if_neg hprice]
    obtain ⟨sum, hsum, -⟩ := of_bind hp'
    obtain ⟨rfl, -, hlt⟩ := of_safe hsum
    exact hlt

theorem binarySearch_succ (hc : c.Ready) (hr : c.InRange r) (hfits : c.MeanFits r) (fuel : Nat) :
    c.binarySearch (fuel + 1) r =
      if (c.meanCover r).toPay = r.max.toPay ∧
          (r.maxIsOk ∨ (c.meanCover r).toPay = c.order.collateral) then
        .ok (.result (c.meanCover r).toCover)
      else if c.Good (c.meanCover r) then
        if (c.meanCover r).toPay = r.max.toPay then .ok (.result (c.meanCover r).toCover)
        else c.binarySearch fuel { r with max := c.meanCover r, maxIsOk := true }
      else if (c.meanCover r).toPay = r.max.toPay then .ok (.tooSmall (c.meanCover r))
      else c.binarySearch fuel { r with min := c.meanCover r } := by
  have hcases := meanCover_cases hc hr
  have hmin := hr.min_pay
  have hmin' := hr.min_cover
  have hlt := hr.pay_lt
  have hlt' := hr.cover_lt
  have hmax := hr.max_pay
  have hmax' := hr.max_cover
  rw [binarySearch, mean_eq hc hr hfits]
  show (if (c.meanCover r).toPay = r.max.toPay ∧
    (r.maxIsOk ∨ (c.meanCover r).toPay = c.order.collateral) then _ else _) = _
  by_cases hend : (c.meanCover r).toPay = r.max.toPay ∧
      (r.maxIsOk ∨ (c.meanCover r).toPay = c.order.collateral)
  · rw [if_pos hend, if_pos hend]
    rfl
  rw [if_neg hend, if_neg hend]
  have hpart : (c.meanCover r).toPay < c.order.collateral ∧
      (c.meanCover r).toCover < c.order.debt := by
    rcases hcases with heq | hinside
    · rw [heq] at hend ⊢
      have hne : r.max.toPay ≠ c.order.collateral := fun hall => hend ⟨rfl, Or.inr hall⟩
      exact ⟨lt_of_le_of_ne hmax hne, hr.part hne⟩
    · exact ⟨hinside.pay_lt.trans_le hmax, hinside.cover_lt.trans_le hmax'⟩
  have hnonneg : 0 ≤ (c.meanCover r).toPay ∧ 0 ≤ (c.meanCover r).toCover := by
    rcases hcases with heq | hinside
    · rw [heq]
      omega
    · have hpay := hinside.pay_gt
      have hcover := hinside.cover_gt
      omega
  show (fcAssert _ _ >>= fun _ => _) = _
  rw [fcAssert, if_pos hpart]
  show (c.resultIsGood (c.meanCover r) >>= fun _ => _) = _
  rw [hc.resultIsGood_eq hnonneg.1 hpart.1.le hnonneg.2 hpart.2.le]
  show (if decide (c.Good (c.meanCover r)) = true then _ else _) = _
  by_cases hgood : c.Good (c.meanCover r)
  · rw [if_pos (decide_eq_true hgood), if_pos hgood]
    rfl
  · rw [if_neg (fun hdecide => hgood (of_decide_eq_true hdecide)), if_neg hgood]
    rfl

namespace InRange

theorem lower (hc : c.Ready) (hr : c.InRange r) (hmoved : (c.meanCover r).toPay ≠ r.max.toPay) :
    c.InRange { r with max := c.meanCover r, maxIsOk := true } ∧
      (c.meanCover r).toPay < r.max.toPay := by
  rcases meanCover_cases hc hr with heq | hinside
  · exact absurd (by rw [heq]) hmoved
  have hcover := hinside.cover_lt.trans_le hr.max_cover
  exact ⟨⟨hr.min_pay, hr.min_cover, hinside.pay_gt, hinside.cover_gt,
    hinside.pay_lt.le.trans hr.max_pay, hcover.le, fun _ => hcover, hinside.backed⟩, hinside.pay_lt⟩

theorem raise (hc : c.Ready) (hr : c.InRange r) (hmoved : (c.meanCover r).toPay ≠ r.max.toPay) :
    c.InRange { r with min := c.meanCover r } ∧ r.min.toPay < (c.meanCover r).toPay := by
  rcases meanCover_cases hc hr with heq | hinside
  · exact absurd (by rw [heq]) hmoved
  exact ⟨⟨hr.min_pay.trans hinside.pay_gt.le, hr.min_cover.trans hinside.cover_gt.le,
    hinside.pay_lt, hinside.cover_lt, hr.max_pay, hr.max_cover, hr.part, hr.backed⟩, hinside.pay_gt⟩

end InRange

variable (c) in
/-- Where the search forward is after `k` steps: it has moved about as far as the steps add up to. -/
structure Onward (p : Cover) (k : Nat) : Prop where
  cover_pos : 0 < p.toCover
  pay_lt : p.toPay < c.order.collateral
  cover_lt : p.toCover < c.order.debt
  backed : p.toCover * c.matchPrice.base.amount ≤ p.toPay * c.matchPrice.quote.amount
  far : if c.matchPrice.quote.amount < c.matchPrice.base.amount then (Nat.fib k : Int) ≤ 2 * p.toPay
    else (Nat.fib (k + 2) : Int) ≤ p.toCover + 1

theorem onward_zero (hc : c.Ready) (hr : c.InRange r) (hmax : (c.meanCover r).toPay = r.max.toPay)
    (hpart : r.max.toPay ≠ c.order.collateral) : c.Onward (c.meanCover r) 0 := by
  have heq : c.meanCover r = r.max := by
    rcases meanCover_cases hc hr with heq | hinside
    · exact heq
    · exact absurd hmax hinside.pay_lt.ne
  have hmin := hr.min_cover
  have hlt := hr.cover_lt
  have hmin' := hr.min_pay
  have hlt' := hr.pay_lt
  rw [heq]
  refine ⟨by omega, lt_of_le_of_ne hr.max_pay hpart, hr.part hpart, hr.backed, ?_⟩
  split
  · show (0 : Int) ≤ 2 * r.max.toPay
    omega
  · show (1 : Int) ≤ r.max.toCover + 1
    omega

theorem binarySearch_ends (hc : c.Ready) {fuel : Nat} (hr : c.InRange r)
    (hfuel : (r.max.toPay - r.min.toPay).toNat < fuel)
    (hfits : ∀ stage, ReflTransGen c.Next (.narrow r) stage → c.Fits stage) :
    (∃ d, c.binarySearch fuel r = .ok (.result d)) ∨
      ∃ p, c.binarySearch fuel r = .ok (.tooSmall p) ∧
        ReflTransGen c.Next (.narrow r) (.forward p 0) ∧ c.Onward p 0 := by
  induction fuel generalizing r with
  | zero => omega
  | succ fuel ih =>
    rw [binarySearch_succ hc hr (hfits _ .refl)]
    by_cases hend : (c.meanCover r).toPay = r.max.toPay ∧
        (r.maxIsOk ∨ (c.meanCover r).toPay = c.order.collateral)
    · rw [if_pos hend]
      exact Or.inl ⟨_, rfl⟩
    rw [if_neg hend]
    have hpay := hr.pay_lt
    by_cases hgood : c.Good (c.meanCover r)
    · rw [if_pos hgood]
      by_cases hmoved : (c.meanCover r).toPay = r.max.toPay
      · rw [if_pos hmoved]
        exact Or.inl ⟨_, rfl⟩
      rw [if_neg hmoved]
      obtain ⟨hr', hless⟩ := hr.lower hc hmoved
      have hstep := Next.lower hmoved hgood
      refine (ih hr' (by dsimp only; omega) fun stage hstage => hfits stage (hstage.head hstep)).imp_right ?_
      rintro ⟨p, hp, hreach, hon⟩
      exact ⟨p, hp, hreach.head hstep, hon⟩
    · rw [if_neg hgood]
      by_cases hmoved : (c.meanCover r).toPay = r.max.toPay
      · rw [if_pos hmoved]
        rw [hmoved, not_and, not_or] at hend
        obtain ⟨hok, hpart⟩ := hend rfl
        exact Or.inr ⟨_, rfl, .single (.beyond hmoved (Bool.eq_false_of_not_eq_true hok) hpart hgood),
          onward_zero hc hr hmoved hpart⟩
      rw [if_neg hmoved]
      obtain ⟨hr', hmore⟩ := hr.raise hc hmoved
      have hstep := Next.raise hmoved hgood
      refine (ih hr' (by dsimp only; omega) fun stage hstage => hfits stage (hstage.head hstep)).imp_right ?_
      rintro ⟨p, hp, hreach, hon⟩
      exact ⟨p, hp, hreach.head hstep, hon⟩

theorem fits_of_binarySearch (hc : c.Ready) {fuel : Nat} (hr : c.InRange r) {n : Narrowed}
    (h : c.binarySearch fuel r = .ok n) {stage : Stage}
    (hstage : ReflTransGen c.Next (.narrow r) stage) :
    c.Fits stage ∨
      ∃ p, n = .tooSmall p ∧ c.Onward p 0 ∧ ReflTransGen c.Next (.forward p 0) stage := by
  induction fuel generalizing r with
  | zero => cases h
  | succ fuel ih =>
    have hfits : c.MeanFits r := by
      obtain ⟨p, hp, -⟩ := of_bind h
      exact meanFits_of_mean hc hp
    rw [binarySearch_succ hc hr hfits] at h
    rcases hstage.cases_head with rfl | ⟨next, hnext, hrest⟩
    · exact Or.inl hfits
    cases hnext with
    | lower hmoved hgood =>
      rw [if_neg (fun hend => hmoved hend.1), if_pos hgood, if_neg hmoved] at h
      exact ih (hr.lower hc hmoved).1 h hrest
    | raise hmoved hbad =>
      rw [if_neg (fun hend => hmoved hend.1), if_neg hbad, if_neg hmoved] at h
      exact ih (hr.raise hc hmoved).1 h hrest
    | beyond hmax hok hpart hbad =>
      have hend : ¬((c.meanCover r).toPay = r.max.toPay ∧
          (r.maxIsOk ∨ (c.meanCover r).toPay = c.order.collateral)) := by
        rw [hok, hmax]
        rintro ⟨-, hfalse | hall⟩
        · cases hfalse
        · exact hpart hall
      rw [if_neg hend, if_neg hbad, if_pos hmax] at h
      exact Or.inr ⟨_, (Except.ok.inj h).symm, onward_zero hc hr hmax hpart, hrest⟩

theorem fib_values : Nat.fib 91 = 4660046610375530309 ∧ Nat.fib 92 = 7540113804746346429 ∧
    Nat.fib 93 = 12200160415121876738 := by
  decide +kernel

variable {p q : Cover} {k : Nat}

namespace Onward

theorem pay_pos (hc : c.Ready) (h : c.Onward p k) : 0 < p.toPay := by
  have hproduct := (mul_pos h.cover_pos hc.base_pos).trans_le h.backed
  exact pos_of_mul_pos_left hproduct hc.quote_pos.le

theorem lt_of_next (hc : c.Ready) (h : c.Onward p k)
    (hnext : c.nextCover p (Nat.fib (k + 1)) = some q) : k < 91 := by
  obtain ⟨h91, h92, h93⟩ := fib_values
  have hfar := h.far
  have hdebt := hc.debt_le
  have hcollateral := hc.collateral_le
  have hlt := h.cover_lt
  unfold maxShareSupply at hdebt hcollateral
  by_contra hge
  have hle := Nat.fib_mono (show 91 ≤ k by omega)
  have hle' := Nat.fib_mono (show 92 ≤ k + 1 by omega)
  have hle'' := Nat.fib_mono (show 93 ≤ k + 2 by omega)
  unfold nextCover at hnext
  split at hnext
  · rename_i hprice
    rw [if_pos hprice] at hfar
    dsimp only at hnext
    split at hnext
    · cases hnext
    · omega
  · rename_i hprice
    rw [if_neg hprice] at hfar
    omega

theorem next (hc : c.Ready) (h : c.Onward p k)
    (hnext : c.nextCover p (Nat.fib (k + 1)) = some q) : c.Onward q (k + 1) := by
  have hpay := h.pay_pos hc
  have hcover := h.cover_pos
  have hfar := h.far
  unfold nextCover at hnext
  split at hnext
  · rename_i hprice
    dsimp only at hnext
    split at hnext
    · cases hnext
    rename_i hpart
    obtain ⟨hlt, hlt', hlt''⟩ : ¬_ ∧ ¬_ ∧ ¬_ := by simpa only [not_or] using hpart
    cases hnext
    obtain ⟨y, hy⟩ : ∃ y, p.toPay + (Nat.fib (k + 1) : Int) = y := ⟨_, rfl⟩
    rw [hy] at hlt' hlt'' ⊢
    have hworth : 1 ≤ c.worth y := by
      unfold worth
      rw [Int.le_ediv_iff_mul_le hc.base_pos]
      calc 1 * c.matchPrice.base.amount ≤ p.toCover * c.matchPrice.base.amount :=
            mul_le_mul_of_nonneg_right hcover hc.base_pos.le
        _ ≤ p.toPay * c.matchPrice.quote.amount := h.backed
        _ ≤ y * c.matchPrice.quote.amount :=
            mul_le_mul_of_nonneg_right (by omega) hc.quote_pos.le
    have hbacked : c.worth y * c.matchPrice.base.amount ≤
        c.pay (c.worth y) * c.matchPrice.quote.amount := Lib.le_ceilDiv_mul _ hc.quote_pos
    refine ⟨hworth, not_le.mp hlt'', not_le.mp hlt', hbacked, ?_⟩
    rw [if_pos hprice]
    -- what is rounded off is less than what is kept
    have hround : y * c.matchPrice.quote.amount < (c.worth y + 1) * c.matchPrice.base.amount :=
      Int.lt_ediv_add_one_mul_self _ hc.base_pos
    have hdouble : y * c.matchPrice.quote.amount <
        2 * c.pay (c.worth y) * c.matchPrice.quote.amount := by
      have hbase := mul_le_mul_of_nonneg_right hworth hc.base_pos.le
      linarith
    have hy_lt := lt_of_mul_lt_mul_right hdouble hc.quote_pos.le
    show (Nat.fib (k + 1) : Int) ≤ 2 * c.pay (c.worth y)
    omega
  · rename_i hprice
    rw [if_neg hprice] at hfar
    dsimp only at hnext
    split at hnext
    · cases hnext
    rename_i hpart
    obtain ⟨hlt, hlt', hlt''⟩ : ¬_ ∧ ¬_ ∧ ¬_ := by simpa only [not_or] using hpart
    cases hnext
    have hback := hc.le_worth_pay (p.toCover + Nat.fib (k + 1))
    have hfib : Nat.fib (k + 1 + 2) = Nat.fib (k + 1) + Nat.fib (k + 2) := Nat.fib_add_two
    refine ⟨by dsimp only; omega, not_le.mp hlt', not_le.mp hlt'',
      Int.ediv_mul_le _ hc.base_pos.ne', ?_⟩
    rw [if_neg hprice]
    dsimp only
    omega

end Onward

theorem int64Cast_fib (hk : k ≤ 91) : int64Cast (Nat.fib (k + 1) % 2 ^ 64) = Nat.fib (k + 1) := by
  obtain ⟨-, h92, -⟩ := fib_values
  have hle := Nat.fib_mono (show k + 1 ≤ 92 by omega)
  rw [Nat.mod_eq_of_lt (by omega)]
  exact int64Cast_of_lt (by omega)

theorem stepForward_eq (hc : c.Ready) (h : c.Onward p k) (hk : k ≤ 91)
    (hfits : c.StepFits p (Nat.fib (k + 1))) :
    c.stepForward p (Nat.fib (k + 1) % 2 ^ 64) = .ok (c.nextCover p (Nat.fib (k + 1))) := by
  have hpay := h.pay_pos hc
  have hcover := h.cover_pos
  unfold stepForward nextCover
  rw [int64Cast_fib hk]
  unfold StepFits at hfits
  by_cases hprice : c.matchPrice.quote.amount < c.matchPrice.base.amount
  · rw [if_pos hprice] at hfits
    rw [if_pos hprice, if_pos hprice, safe_eq_ok.mpr ⟨rfl, by omega, hfits⟩]
    obtain ⟨y, hy⟩ : ∃ y, p.toPay + (Nat.fib (k + 1) : Int) = y := ⟨_, rfl⟩
    rw [hy]
    dsimp only
    show (if c.order.collateral ≤ y then _ else _) = _
    by_cases hall : c.order.collateral ≤ y
    · rw [if_pos hall, if_pos (Or.inl hall)]
      rfl
    have hy_nonneg : 0 ≤ y := by omega
    have hy_le : y ≤ maxShareSupply := (not_le.mp hall).le.trans hc.collateral_le
    rw [if_neg hall, hc.coverWith_eq hy_nonneg ((hc.worth_le hprice.le hy_nonneg).trans hy_le)]
    show (if c.order.debt ≤ c.worth y then _ else _) = _
    by_cases hall' : c.order.debt ≤ c.worth y
    · rw [if_pos hall', if_pos (Or.inr (Or.inl hall'))]
      rfl
    rw [if_neg hall', hc.payForRoundUp_eq (hc.worth_nonneg hy_nonneg)
      ((hc.pay_worth_le y).trans hy_le)]
    show (if c.order.collateral ≤ c.pay (c.worth y) then _ else _) = _
    by_cases hall'' : c.order.collateral ≤ c.pay (c.worth y)
    · rw [if_pos hall'', if_pos (Or.inr (Or.inr hall''))]
      rfl
    · rw [if_neg hall'', if_neg (by simp only [hall, hall', hall'', or_self, not_false_eq_true])]
      rfl
  · rw [if_neg hprice] at hfits
    rw [if_neg hprice, if_neg hprice, safe_eq_ok.mpr ⟨rfl, by omega, hfits.1⟩]
    have hworth := hfits.2
    obtain ⟨x, hx⟩ : ∃ x, p.toCover + (Nat.fib (k + 1) : Int) = x := ⟨_, rfl⟩
    rw [hx] at hworth ⊢
    dsimp only
    show (if c.order.debt ≤ x then _ else _) = _
    by_cases hall : c.order.debt ≤ x
    · rw [if_pos hall, if_pos (Or.inl hall)]
      rfl
    have hx_nonneg : 0 ≤ x := by omega
    have hpay_le := hc.pay_le_collateral (not_le.mp hall).le
    rw [if_neg hall, hc.payForRoundUp_eq hx_nonneg (hpay_le.trans hc.collateral_le)]
    show (if c.order.collateral ≤ c.pay x then _ else _) = _
    by_cases hall' : c.order.collateral ≤ c.pay x
    · rw [if_pos hall', if_pos (Or.inr (Or.inl hall'))]
      rfl
    have hworth_le := (hworth.resolve_left hall).resolve_left hall'
    rw [if_neg hall', hc.coverWith_eq (hc.pay_nonneg hx_nonneg) hworth_le]
    show (if c.order.debt ≤ c.worth (c.pay x) then _ else _) = _
    by_cases hall'' : c.order.debt ≤ c.worth (c.pay x)
    · rw [if_pos hall'', if_pos (Or.inr (Or.inr hall''))]
      rfl
    · rw [if_neg hall'', if_neg (by simp only [hall, hall', hall'', or_self, not_false_eq_true])]
      rfl

theorem stepFits_of_stepForward (hc : c.Ready) (hk : k ≤ 91) {o : Option Cover}
    (h : c.stepForward p (Nat.fib (k + 1) % 2 ^ 64) = .ok o) : c.StepFits p (Nat.fib (k + 1)) := by
  unfold stepForward at h
  rw [int64Cast_fib hk] at h
  unfold StepFits
  split at h
  · rename_i hprice
    rw [if_pos hprice]
    obtain ⟨y, hy, -⟩ := of_bind h
    exact (of_safe hy).2.2
  · rename_i hprice
    rw [if_neg hprice]
    obtain ⟨x, hx, h1⟩ := of_bind h
    obtain ⟨rfl, -, hlt⟩ := of_safe hx
    refine ⟨hlt, ?_⟩
    split at h1
    · rename_i hall
      exact Or.inl hall
    obtain ⟨toPay, hpay, h2⟩ := of_bind h1
    obtain ⟨-, -, -, rfl⟩ := (payForRoundUp_eq_ok hc.facing).mp hpay
    split at h2
    · rename_i hall
      exact Or.inr (Or.inl hall)
    obtain ⟨toCover, hcover, -⟩ := of_bind h2
    exact Or.inr (Or.inr (hc.worth_of_coverWith hcover).2)

theorem searchForward_succ (hc : c.Ready) (h : c.Onward p k) (hk : k ≤ 91)
    (hfits : c.StepFits p (Nat.fib (k + 1))) (fuel : Nat) :
    c.searchForward (fuel + 1) (Nat.fib (k + 1) % 2 ^ 64) (Nat.fib (k + 2) % 2 ^ 64) p =
      match c.nextCover p (Nat.fib (k + 1)) with
      | none => .ok c.order.debt
      | some q => if c.Good q then .ok q.toCover
        else c.searchForward fuel (Nat.fib (k + 2) % 2 ^ 64) (Nat.fib (k + 3) % 2 ^ 64) q := by
  rw [searchForward, stepForward_eq hc h hk hfits]
  show (match c.nextCover p (Nat.fib (k + 1)) with
    | none => _
    | some q => _) = _
  cases hnext : c.nextCover p (Nat.fib (k + 1)) with
  | none => rfl
  | some q =>
    have hq := h.next hc hnext
    have hsum : (Nat.fib (k + 1) % 2 ^ 64 + Nat.fib (k + 2) % 2 ^ 64) % 2 ^ 64 =
        Nat.fib (k + 3) % 2 ^ 64 := by
      rw [show Nat.fib (k + 3) = Nat.fib (k + 1) + Nat.fib (k + 2) from Nat.fib_add_two, ← Nat.add_mod]
    show (fcAssert _ _ >>= fun _ => _) = _
    rw [fcAssert, if_pos ⟨hq.pay_lt, hq.cover_lt⟩]
    show (c.resultIsGood q >>= fun _ => _) = _
    rw [hc.resultIsGood_eq (hq.pay_pos hc).le hq.pay_lt.le hq.cover_pos.le hq.cover_lt.le]
    show (if decide (c.Good q) = true then _ else _) = (if c.Good q then _ else _)
    by_cases hgood : c.Good q
    · rw [if_pos (decide_eq_true hgood), if_pos hgood]
      rfl
    · rw [if_neg (fun hdecide => hgood (of_decide_eq_true hdecide)), if_neg hgood, hsum]

theorem searchForward_ends (hc : c.Ready) {fuel : Nat} (h : c.Onward p k) (hk : k ≤ 91)
    (hfuel : 91 < fuel + k)
    (hfits : ∀ stage, ReflTransGen c.Next (.forward p k) stage → c.Fits stage) :
    ∃ d, c.searchForward fuel (Nat.fib (k + 1) % 2 ^ 64) (Nat.fib (k + 2) % 2 ^ 64) p = .ok d := by
  induction fuel generalizing p k with
  | zero => omega
  | succ fuel ih =>
    rw [searchForward_succ hc h hk (hfits _ .refl)]
    cases hnext : c.nextCover p (Nat.fib (k + 1)) with
    | none => exact ⟨_, rfl⟩
    | some q =>
      dsimp only
      by_cases hgood : c.Good q
      · rw [if_pos hgood]
        exact ⟨_, rfl⟩
      rw [if_neg hgood]
      have hlt := h.lt_of_next hc hnext
      exact ih (h.next hc hnext) (by omega) (by omega) fun stage hstage =>
        hfits stage (hstage.head (.step hnext hgood))

theorem fits_of_searchForward (hc : c.Ready) {fuel : Nat} (h : c.Onward p k) (hk : k ≤ 91) {d : Int}
    (hret : c.searchForward fuel (Nat.fib (k + 1) % 2 ^ 64) (Nat.fib (k + 2) % 2 ^ 64) p = .ok d)
    {stage : Stage} (hstage : ReflTransGen c.Next (.forward p k) stage) : c.Fits stage := by
  induction fuel generalizing p k with
  | zero => cases hret
  | succ fuel ih =>
    have hfits : c.StepFits p (Nat.fib (k + 1)) := by
      obtain ⟨o, ho, -⟩ := of_bind hret
      exact stepFits_of_stepForward hc hk ho
    rcases hstage.cases_head with rfl | ⟨next, hnext, hrest⟩
    · exact hfits
    cases hnext with
    | step hnext hbad =>
      have hlt := h.lt_of_next hc hnext
      rw [searchForward_succ hc h hk hfits, hnext] at hret
      dsimp only at hret
      rw [if_neg hbad] at hret
      exact ih (h.next hc hnext) (by omega) hret hrest

end

end CallTarget

end Meta1Core.Market
