import Mathlib.Algebra.Order.BigOperators.Group.List
import Mathlib.Algebra.Order.Ring.Int
import Mathlib.Tactic.Linarith
import Mathlib.Tactic.Ring

/-!
# A fund that is paid out at a fixed price

A fund of `gathered0` is paid out to the holders of `supply0` units at the price of the beginning.
-/

namespace Meta1Core.Settlement

structure Fund where
  supply0 : Int
  gathered0 : Int
  supply : Int
  fund : Int
  deriving DecidableEq

namespace Fund

def taken (f : Fund) (amount : Int) : Int :=
  if amount = f.supply then f.fund else amount * f.gathered0 / f.supply0

def burned (f : Fund) (amount : Int) : Int :=
  if amount ≠ f.supply ∧ f.taken amount ≠ 0 then
    (f.taken amount * f.supply0 + (f.gathered0 - 1)) / f.gathered0
  else amount

def settle (f : Fund) (amount : Int) : Fund :=
  { f with supply := f.supply - f.burned amount, fund := f.fund - f.taken amount }

structure Sound (f : Fund) : Prop where
  supply0_nonneg : 0 ≤ f.supply0
  gathered0_nonneg : 0 ≤ f.gathered0
  supply_nonneg : 0 ≤ f.supply
  fund_nonneg : 0 ≤ f.fund
  covered : f.supply * f.gathered0 ≤ f.fund * f.supply0
  empty : f.supply = 0 → f.fund = 0

def start (supply gathered : Int) : Fund := ⟨supply, gathered, supply, gathered⟩

theorem sound_start {supply gathered : Int} (hsupply : 0 ≤ supply) (hgathered : 0 ≤ gathered)
    (hempty : supply = 0 → gathered = 0) : (start supply gathered).Sound where
  supply0_nonneg := hsupply
  gathered0_nonneg := hgathered
  supply_nonneg := hsupply
  fund_nonneg := hgathered
  covered := Int.le_of_eq (mul_comm _ _)
  empty := hempty

variable {f : Fund} {amount : Int}

theorem Sound.quotient_mul_le (hpos : 0 < f.supply0) :
    amount * f.gathered0 / f.supply0 * f.supply0 ≤ amount * f.gathered0 :=
  Int.ediv_mul_le _ (ne_of_gt hpos)

theorem Sound.quotient_le (h : f.Sound) (hpos : 0 < f.supply0) (hle : amount ≤ f.supply) :
    amount * f.gathered0 / f.supply0 ≤ f.fund := by
  have hmul : amount * f.gathered0 ≤ f.fund * f.supply0 :=
    (Int.mul_le_mul_of_nonneg_right hle h.gathered0_nonneg).trans h.covered
  calc amount * f.gathered0 / f.supply0 ≤ f.fund * f.supply0 / f.supply0 :=
        Int.ediv_le_ediv hpos hmul
    _ = f.fund := Int.mul_ediv_cancel _ (ne_of_gt hpos)

theorem Sound.quotient_nonneg (h : f.Sound) (hamount : 0 ≤ amount) :
    0 ≤ amount * f.gathered0 / f.supply0 :=
  Int.ediv_nonneg (Int.mul_nonneg hamount h.gathered0_nonneg) h.supply0_nonneg

theorem Sound.taken_le (h : f.Sound) (hpos : 0 < f.supply0) (hle : amount ≤ f.supply) :
    f.taken amount ≤ f.fund := by
  unfold taken
  split
  · exact Int.le_refl _
  · exact h.quotient_le hpos hle

theorem Sound.taken_nonneg (h : f.Sound) (hamount : 0 ≤ amount) : 0 ≤ f.taken amount := by
  unfold taken
  split
  · exact h.fund_nonneg
  · exact h.quotient_nonneg hamount

theorem Sound.burned_spec (h : f.Sound) (hpos : 0 < f.supply0) (hamount : 0 ≤ amount)
    (hne : amount ≠ f.supply) :
    f.taken amount * f.supply0 ≤ f.burned amount * f.gathered0 ∧ f.burned amount ≤ amount ∧
      0 ≤ f.burned amount := by
  have htaken : f.taken amount = amount * f.gathered0 / f.supply0 := if_neg hne
  have hmul : f.taken amount * f.supply0 ≤ amount * f.gathered0 := by
    rw [htaken]
    exact Sound.quotient_mul_le hpos
  unfold burned
  by_cases hzero : f.taken amount = 0
  · rw [if_neg (fun hand => hand.2 hzero)]
    exact ⟨hmul, Int.le_refl _, hamount⟩
  rw [if_pos ⟨hne, hzero⟩]
  -- something is taken, so something was gathered
  have hgathered : 0 < f.gathered0 := by
    refine lt_of_le_of_ne h.gathered0_nonneg fun heq => hzero ?_
    rw [htaken, ← heq, Int.mul_zero, Int.zero_ediv]
  have htakenNonneg := h.taken_nonneg hamount
  have hceil := Int.lt_ediv_add_one_mul_self (f.taken amount * f.supply0 + (f.gathered0 - 1))
    hgathered
  refine ⟨by linarith, ?_, ?_⟩
  · refine Int.lt_add_one_iff.mp (Int.ediv_lt_of_lt_mul hgathered ?_)
    linarith
  · have hnonneg : 0 ≤ f.taken amount * f.supply0 := Int.mul_nonneg htakenNonneg hpos.le
    exact Int.ediv_nonneg (by omega) hgathered.le

theorem Sound.settle (h : f.Sound) (hpos : 0 < f.supply0) (hamount : 0 ≤ amount)
    (hle : amount ≤ f.supply) : (f.settle amount).Sound := by
  by_cases heq : amount = f.supply
  · -- the last holder takes the rest
    have htaken : f.taken amount = f.fund := if_pos heq
    have hburned : f.burned amount = f.supply := by
      unfold burned
      rw [if_neg (fun hand => hand.1 heq), heq]
    refine ⟨h.supply0_nonneg, h.gathered0_nonneg, ?_, ?_, ?_, fun _ => ?_⟩
    all_goals simp [Fund.settle, htaken, hburned]
  · obtain ⟨hworth, hburned, -⟩ := h.burned_spec hpos hamount heq
    have htaken := h.taken_le hpos hle
    have hlt : amount < f.supply := lt_of_le_of_ne hle heq
    have hcovered := h.covered
    refine ⟨h.supply0_nonneg, h.gathered0_nonneg, ?_, ?_, ?_, fun hempty => ?_⟩
    · change 0 ≤ f.supply - f.burned amount
      omega
    · change 0 ≤ f.fund - f.taken amount
      omega
    · change (f.supply - f.burned amount) * f.gathered0 ≤ (f.fund - f.taken amount) * f.supply0
      rw [Int.sub_mul, Int.sub_mul]
      omega
    · change f.supply - f.burned amount = 0 at hempty
      omega

/-- What a bid for `debt` units takes over: these units and their share of the fund, or all that is
left. -/
def share (f : Fund) (debt : Int) : Int × Int :=
  if f.supply ≤ debt then (f.supply, f.fund) else (debt, debt * f.gathered0 / f.supply0)

def cover (f : Fund) (debt : Int) : Fund :=
  { f with supply := f.supply - (f.share debt).1, fund := f.fund - (f.share debt).2 }

theorem Sound.share_nonneg (h : f.Sound) {debt : Int} (hdebt : 0 ≤ debt) :
    0 ≤ (f.share debt).1 ∧ 0 ≤ (f.share debt).2 := by
  unfold share
  split
  · exact ⟨h.supply_nonneg, h.fund_nonneg⟩
  · exact ⟨hdebt, h.quotient_nonneg hdebt⟩

theorem Sound.share_le (h : f.Sound) (hpos : 0 < f.supply0) (debt : Int) :
    (f.share debt).1 ≤ f.supply ∧ (f.share debt).2 ≤ f.fund := by
  unfold share
  split
  · exact ⟨Int.le_refl _, Int.le_refl _⟩
  · rename_i hlt
    have hle : debt ≤ f.supply := (not_le.mp hlt).le
    exact ⟨hle, h.quotient_le hpos hle⟩

theorem Sound.cover (h : f.Sound) (hpos : 0 < f.supply0) (debt : Int) : (f.cover debt).Sound := by
  obtain ⟨hsupply, hfund⟩ := h.share_le hpos debt
  refine ⟨h.supply0_nonneg, h.gathered0_nonneg, Int.sub_nonneg.mpr hsupply,
    Int.sub_nonneg.mpr hfund, ?_, ?_⟩
  · change (f.supply - (f.share debt).1) * f.gathered0 ≤ (f.fund - (f.share debt).2) * f.supply0
    rw [Int.sub_mul, Int.sub_mul]
    unfold share
    split
    · simp
    · have hshare : debt * f.gathered0 / f.supply0 * f.supply0 ≤ debt * f.gathered0 :=
        Sound.quotient_mul_le hpos
      have hcovered := h.covered
      dsimp only
      omega
  · intro hempty
    change f.supply - (f.share debt).1 = 0 at hempty
    change f.fund - (f.share debt).2 = 0
    unfold share at hempty ⊢
    split
    · exact Int.sub_self _
    · rename_i hlt
      rw [if_neg hlt] at hempty
      dsimp only at hempty
      omega

theorem cover_supply_le (f : Fund) (debt : Int) :
    (f.cover debt).supply ≤ max 0 (f.supply - debt) := by
  change f.supply - (f.share debt).1 ≤ _
  unfold share
  split
  · exact (Int.sub_self _).trans_le (le_max_left _ _)
  · exact le_max_right _ _

def shares : Fund → List Int → List (Int × Int)
  | _, [] => []
  | f, debt :: debts => f.share debt :: (f.cover debt).shares debts

def coverAll : Fund → List Int → Fund
  | f, [] => f
  | f, debt :: debts => (f.cover debt).coverAll debts

theorem shares_length (f : Fund) (debts : List Int) : (f.shares debts).length = debts.length := by
  induction debts generalizing f with
  | nil => rfl
  | cons debt debts ih => rw [shares, List.length_cons, ih, List.length_cons]

theorem shares_sum (f : Fund) (debts : List Int) :
    ((f.shares debts).map (·.1)).sum = f.supply - (f.coverAll debts).supply ∧
      ((f.shares debts).map (·.2)).sum = f.fund - (f.coverAll debts).fund := by
  induction debts generalizing f with
  | nil => exact ⟨(Int.sub_self _).symm, (Int.sub_self _).symm⟩
  | cons debt debts ih =>
    obtain ⟨hsupply, hfund⟩ := ih (f.cover debt)
    rw [shares, List.map_cons, List.sum_cons, List.map_cons, List.sum_cons, hsupply, hfund, coverAll]
    dsimp only [cover]
    exact ⟨by omega, by omega⟩

theorem Sound.shares_nonneg (h : f.Sound) (hpos : 0 < f.supply0) {debts : List Int}
    (hdebts : ∀ d ∈ debts, 0 ≤ d) : ∀ p ∈ f.shares debts, 0 ≤ p.1 ∧ 0 ≤ p.2 := by
  induction debts generalizing f with
  | nil => exact nofun
  | cons debt debts ih =>
    intro p hp
    rcases List.mem_cons.mp hp with rfl | hp
    · exact h.share_nonneg (hdebts debt List.mem_cons_self)
    · exact ih (h.cover hpos debt) hpos (fun d hd => hdebts d (List.mem_cons_of_mem _ hd)) p hp

theorem Sound.coverAll (h : f.Sound) (hpos : 0 < f.supply0) (debts : List Int) :
    (f.coverAll debts).Sound := by
  induction debts generalizing f with
  | nil => exact h
  | cons debt debts ih => exact ih (h.cover hpos debt) hpos

theorem coverAll_supply_le (f : Fund) {debts : List Int} (hdebts : ∀ d ∈ debts, 0 ≤ d) :
    (f.coverAll debts).supply ≤ max 0 (f.supply - debts.sum) := by
  induction debts generalizing f with
  | nil =>
    rw [List.sum_nil, Int.sub_zero]
    exact le_max_right _ _
  | cons debt debts ih =>
    have hcover := cover_supply_le f debt
    have hrest := ih (f.cover debt) fun d hd => hdebts d (List.mem_cons_of_mem _ hd)
    have hsum : 0 ≤ debts.sum := List.sum_nonneg fun d hd => hdebts d (List.mem_cons_of_mem _ hd)
    rw [List.sum_cons, Fund.coverAll]
    omega

theorem Sound.coverAll_eq_zero (h : f.Sound) (hpos : 0 < f.supply0) {debts : List Int}
    (hdebts : ∀ d ∈ debts, 0 ≤ d) (hcovered : f.supply ≤ debts.sum) :
    (f.coverAll debts).supply = 0 ∧ (f.coverAll debts).fund = 0 := by
  have hsound := h.coverAll hpos debts
  have hnonneg := hsound.supply_nonneg
  have hle := coverAll_supply_le f hdebts
  have hzero : (f.coverAll debts).supply = 0 := by omega
  exact ⟨hzero, hsound.empty hzero⟩

end Fund

end Meta1Core.Settlement
