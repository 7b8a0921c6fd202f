import Meta1Core.Allocation.Property

/-!
# Allocation progress and contribution are exact

`get_allocation_progress` computes with 32-bit rationals.  As long as the approval phase only
starts to count once the initial phase is complete, one of the two summands is `0` or `1/4` and
no intermediate result overflows.
-/

namespace Meta1Core.Allocation

def PropertyObject.progress (p : PropertyObject) : ℚ :=
  p.initialCounter / (4 * p.initialCounterMax) + 3 * p.approvalCounter / (4 * p.approvalCounterMax)

/-- A bound on both counter maxima: an allocation duration is at most `2^32` seconds. -/
def counterBound : Nat := 71582788

structure PropertyObject.CountersSound (p : PropertyObject) : Prop where
  initialMax_pos : 0 < p.initialCounterMax
  initialMax_le : p.initialCounterMax ≤ counterBound
  approvalMax_le : p.approvalCounterMax ≤ counterBound
  initial_le : p.initialCounter ≤ p.initialCounterMax
  approval_le : p.approvalCounter ≤ p.approvalCounterMax
  /-- the approval phase waits for the initial phase -/
  phase : p.approvalCounter = 0 ∨ p.initialCounter = p.initialCounterMax
  unapproved : p.approvalDate = none → p.approvalCounter = 0

private theorem ratDen_le (m n : Nat) (hn : 0 < n) : (((m : ℚ) / n).den : Int) ≤ n := by
  have hdvd := Rat.den_dvd m n
  rw [Rat.divInt_eq_div, Int.cast_natCast, Int.cast_natCast] at hdvd
  exact Int.le_of_dvd (by exact_mod_cast hn) hdvd

private theorem ratNum_nonneg (m n : Nat) : 0 ≤ ((m : ℚ) / n).num :=
  Rat.num_nonneg.mpr (by positivity)

private theorem ratNum_le (m n : Nat) (hn : 0 < n) : ((m : ℚ) / n).num ≤ m := by
  rcases Nat.eq_zero_or_pos m with rfl | hm
  · simp
  · have hdvd := Rat.num_dvd m (b := n) (by exact_mod_cast hn.ne')
    rw [Rat.divInt_eq_div, Int.cast_natCast, Int.cast_natCast] at hdvd
    exact Int.le_of_dvd (by exact_mod_cast hm) hdvd

private theorem quarterOfQuotient (m n : Nat) (hn : 0 < n) (hbound : n ≤ counterBound) :
    ratioDivInt ((m : ℚ) / n) 4 = .ok ((m : ℚ) / (4 * n)) := by
  have hden := ratDen_le m n hn
  unfold counterBound at hbound
  rw [ratioDivInt_ok (by decide) (by omega)]
  congr 1
  push_cast
  rw [div_div, mul_comm]

private theorem tripleOfQuotient (m n : Nat) (hn : 0 < n) (hle : m ≤ n) (hbound : n ≤ counterBound) :
    ratioMulInt ((m : ℚ) / n) 3 = .ok (((3 * m : Nat) : ℚ) / n) := by
  have hnum := ratNum_le m n hn
  have hnum0 := ratNum_nonneg m n
  unfold counterBound at hbound
  rw [ratioMulInt_ok hnum0 (by decide) (by omega)]
  congr 1
  push_cast
  ring

private theorem addZero (m n : Nat) (hn : 0 < n) (hle : m ≤ n) (hbound : n ≤ counterBound) :
    ratioAdd ((m : ℚ) / (4 * n)) 0 = .ok ((m : ℚ) / (4 * n)) := by
  have hcast : (m : ℚ) / (4 * n) = (m : ℚ) / ((4 * n : Nat) : ℚ) := by push_cast; rfl
  have hnum := ratNum_le m (4 * n) (by omega)
  have hnum0 := ratNum_nonneg m (4 * n)
  have hden := ratDen_le m (4 * n) (by omega)
  have hzeroNum : (0 : ℚ).num = 0 := rfl
  have hzeroDen : (0 : ℚ).den = 1 := rfl
  unfold counterBound at hbound
  rw [hcast, ratioAdd_ok hnum0 (by rw [hzeroNum]) (by rw [hzeroNum, hzeroDen]; omega)
    (by rw [hzeroDen]; omega), add_zero]

private theorem quarterAdd (m n : Nat) (hn : 0 < n) (hle : m ≤ n) (hbound : n ≤ counterBound) :
    ratioAdd (1 / 4) (((3 * m : Nat) : ℚ) / (4 * n)) =
      .ok (1 / 4 + ((3 * m : Nat) : ℚ) / (4 * n)) := by
  have hcast : ((3 * m : Nat) : ℚ) / (4 * n) = ((3 * m : Nat) : ℚ) / ((4 * n : Nat) : ℚ) := by
    push_cast; rfl
  have hnum := ratNum_le (3 * m) (4 * n) (by omega)
  have hnum0 := ratNum_nonneg (3 * m) (4 * n)
  have hden := ratDen_le (3 * m) (4 * n) (by omega)
  have hquarterNum : (1 / 4 : ℚ).num = 1 := by norm_num
  have hquarterDen : (1 / 4 : ℚ).den = 4 := by norm_num
  unfold counterBound at hbound
  rw [hcast, ratioAdd_ok (by rw [hquarterNum]; decide) hnum0
    (by rw [hquarterNum, hquarterDen]; push_cast at *; omega)
    (by rw [hquarterDen]; push_cast at *; omega)]

variable {p : PropertyObject}

theorem getAllocationProgress_eq (h : p.CountersSound) (hA : 0 < p.approvalCounterMax) :
    p.getAllocationProgress = .ok p.progress := by
  have hI := h.initialMax_pos
  have hIle := h.initialMax_le
  have hAle := h.approvalMax_le
  have hbound : counterBound < 2 ^ 31 := by decide
  have hi := h.initial_le
  have ha := h.approval_le
  unfold PropertyObject.getAllocationProgress
  rw [int32OfU32_of_lt (by omega), int32OfU32_of_lt (by omega), int32OfU32_of_lt (by omega),
    int32OfU32_of_lt (by omega), ratioMk_ok (by exact_mod_cast hI), ratioMk_ok (by exact_mod_cast hA)]
  change (ratioDivInt (((p.initialCounter : Int) : ℚ) / ((p.initialCounterMax : Int) : ℚ)) 4 >>= fun a =>
    ratioMulInt (((p.approvalCounter : Int) : ℚ) / ((p.approvalCounterMax : Int) : ℚ)) 3 >>= fun t =>
    ratioDivInt t 4 >>= fun b => ratioAdd a b) = _
  rw [Int.cast_natCast, Int.cast_natCast, Int.cast_natCast, Int.cast_natCast,
    quarterOfQuotient _ _ hI hIle, tripleOfQuotient _ _ hA ha hAle]
  change (ratioDivInt _ 4 >>= fun b => ratioAdd _ b) = _
  rw [quarterOfQuotient _ _ hA hAle]
  change ratioAdd _ _ = _
  unfold PropertyObject.progress
  rcases h.phase with h0 | h1
  · have hzero : ((3 * p.approvalCounter : Nat) : ℚ) / (4 * p.approvalCounterMax) = 0 := by
      rw [h0]; simp
    have hzero' : 3 * (p.approvalCounter : ℚ) / (4 * p.approvalCounterMax) = 0 := by
      rw [h0]; simp
    rw [hzero, hzero', addZero _ _ hI hi hIle, add_zero]
  · have hIq : (p.initialCounterMax : ℚ) ≠ 0 := by exact_mod_cast hI.ne'
    have hquarter : (p.initialCounter : ℚ) / (4 * p.initialCounterMax) = 1 / 4 := by
      rw [h1]; field_simp
    rw [hquarter, quarterAdd _ _ hA ha hAle]
    push_cast
    rfl

private theorem counterRatio_bounds {m n : Nat} (hle : m ≤ n) :
    (0 : ℚ) ≤ (m : ℚ) / n ∧ (m : ℚ) / n ≤ 1 :=
  ⟨by positivity, div_le_one_of_le₀ (by exact_mod_cast hle) (by positivity)⟩

theorem progress_eq_weighted (p : PropertyObject) :
    p.progress = 1 / 4 * (p.initialCounter / p.initialCounterMax) +
      3 / 4 * (p.approvalCounter / p.approvalCounterMax) := by
  unfold PropertyObject.progress
  rw [mul_div_assoc', mul_div_assoc', ← div_div, ← div_div]
  ring

theorem progress_mem_unit (h : p.CountersSound) :
    0 ≤ p.progress ∧ p.progress ≤ 1 := by
  obtain ⟨hi0, hi1⟩ := counterRatio_bounds h.initial_le
  obtain ⟨ha0, ha1⟩ := counterRatio_bounds h.approval_le
  rw [progress_eq_weighted]
  constructor <;> linarith

theorem progress_unapproved_le (h : p.CountersSound) (hnone : p.approvalDate = none) :
    p.progress ≤ 1 / 4 := by
  obtain ⟨_, hi1⟩ := counterRatio_bounds h.initial_le
  rw [progress_eq_weighted, h.unapproved hnone]
  simp only [Nat.cast_zero, zero_div, mul_zero, add_zero]
  linarith

theorem progress_eq_one (hI : 0 < p.initialCounterMax) (hA : 0 < p.approvalCounterMax)
    (hi : p.initialCounter = p.initialCounterMax) (ha : p.approvalCounter = p.approvalCounterMax) :
    p.progress = 1 := by
  have hIq : (p.initialCounterMax : ℚ) ≠ 0 := by exact_mod_cast hI.ne'
  have hAq : (p.approvalCounterMax : ℚ) ≠ 0 := by exact_mod_cast hA.ne'
  rw [progress_eq_weighted, hi, ha, div_self hIq, div_self hAq]
  norm_num

theorem progress_eq_zero (hi : p.initialCounter = 0) (ha : p.approvalCounter = 0) :
    p.progress = 0 := by
  rw [progress_eq_weighted, hi, ha]
  simp

theorem progress_mono {q : PropertyObject} (hI : q.initialCounterMax = p.initialCounterMax)
    (hA : q.approvalCounterMax = p.approvalCounterMax) (hi : p.initialCounter ≤ q.initialCounter)
    (ha : p.approvalCounter ≤ q.approvalCounter) : p.progress ≤ q.progress := by
  rw [progress_eq_weighted, progress_eq_weighted, hI, hA]
  have hi' : (p.initialCounter : ℚ) ≤ q.initialCounter := by exact_mod_cast hi
  have ha' : (p.approvalCounter : ℚ) ≤ q.approvalCounter := by exact_mod_cast ha
  gcongr

theorem progress_eq_quarter_iff (hI : 0 < p.initialCounterMax) (ha : p.approvalCounter = 0) :
    p.progress = 1 / 4 ↔ p.initialCounter = p.initialCounterMax := by
  have hIq : (p.initialCounterMax : ℚ) ≠ 0 := by exact_mod_cast hI.ne'
  rw [progress_eq_weighted, ha]
  simp only [Nat.cast_zero, zero_div, mul_zero, add_zero]
  constructor
  · intro h
    have hone : (p.initialCounter : ℚ) / p.initialCounterMax = 1 := by linarith
    exact_mod_cast (div_eq_one_iff_eq hIq).mp hone
  · intro h
    rw [h, div_self hIq]
    norm_num

def exactContribution (value : Nat) (progress : ℚ) : Nat :=
  (value * 10 * progress.num.toNat + progress.den - 1) / progress.den

theorem exactContribution_zero (value : Nat) : exactContribution value 0 = 0 := by
  have hnum : (0 : ℚ).num.toNat = 0 := rfl
  have hden : (0 : ℚ).den = 1 := rfl
  rw [exactContribution, hnum, hden, Nat.mul_zero, Nat.zero_add, Nat.sub_self, Nat.zero_div]

private theorem num_le_den {r : ℚ} (h : r ≤ 1) : r.num ≤ r.den := by
  have hle := (Rat.le_iff r 1).mp h
  simpa using hle

theorem exactContribution_le {value : Nat} {progress : ℚ} (h : progress ≤ 1) :
    exactContribution value progress ≤ value * 10 := by
  have hden := progress.pos
  have hnum : progress.num.toNat ≤ progress.den := by
    have := num_le_den h
    omega
  have hmul : value * 10 * progress.num.toNat ≤ value * 10 * progress.den :=
    Nat.mul_le_mul_left _ hnum
  unfold exactContribution
  rw [Nat.div_le_iff_le_mul_add_pred hden, Nat.mul_comm progress.den]
  omega

private theorem progress_den_lt (h : p.CountersSound) (hA : 0 < p.approvalCounterMax) :
    p.progress.den < 2 ^ 31 := by
  have hI := h.initialMax_pos
  have hIle := h.initialMax_le
  have hAle := h.approvalMax_le
  unfold counterBound at hIle hAle
  have hIq : (p.initialCounterMax : ℚ) ≠ 0 := by exact_mod_cast hI.ne'
  have hAq : (p.approvalCounterMax : ℚ) ≠ 0 := by exact_mod_cast hA.ne'
  rcases h.phase with h0 | h1
  · have hfrac : p.progress = ((p.initialCounter : Nat) : ℚ) / ((4 * p.initialCounterMax : Nat) : ℚ) := by
      unfold PropertyObject.progress
      rw [h0]
      push_cast
      ring
    have hle := ratDen_le p.initialCounter (4 * p.initialCounterMax) (by omega)
    rw [← hfrac] at hle
    omega
  · have hfrac : p.progress = ((p.approvalCounterMax + 3 * p.approvalCounter : Nat) : ℚ) /
        ((4 * p.approvalCounterMax : Nat) : ℚ) := by
      unfold PropertyObject.progress
      rw [h1]
      push_cast
      field_simp
    have hle := ratDen_le (p.approvalCounterMax + 3 * p.approvalCounter)
      (4 * p.approvalCounterMax) (by omega)
    rw [← hfrac] at hle
    omega

theorem calcMeta1Contribution_eq (h : p.CountersSound) (hA : 0 < p.approvalCounterMax) :
    calcMeta1Contribution p =
      (fcAssert (exactContribution p.appraisedPropertyValue.toNat p.progress ≤ 2 ^ 64 - 1)
        "multiplication_result <= max_uint64" >>= fun _ =>
          .ok (exactContribution p.appraisedPropertyValue.toNat p.progress)) := by
  obtain ⟨h0, h1⟩ := progress_mem_unit h
  have hnum0 : 0 ≤ p.progress.num := Rat.num_nonneg.mpr h0
  have hnum1 := num_le_den h1
  have hden := progress_den_lt h hA
  have hvalue := p.appraisedPropertyValue.toNat_lt
  have hc128 : p.appraisedPropertyValue.toNat * 10 % 2 ^ 128 =
      p.appraisedPropertyValue.toNat * 10 := Nat.mod_eq_of_lt (by omega)
  have hnum : (p.progress.num % 2 ^ 128).toNat = p.progress.num.toNat := by
    rw [Int.emod_eq_of_lt hnum0 (by omega)]
  have hprod : p.appraisedPropertyValue.toNat * 10 * p.progress.num.toNat ≤
      (2 ^ 64 * 10) * 2 ^ 31 := Nat.mul_le_mul (by omega) (by omega)
  have hsum : (p.appraisedPropertyValue.toNat * 10 * p.progress.num.toNat + p.progress.den - 1) %
      2 ^ 128 = p.appraisedPropertyValue.toNat * 10 * p.progress.num.toNat + p.progress.den - 1 :=
    Nat.mod_eq_of_lt (by omega)
  unfold calcMeta1Contribution
  rw [getAllocationProgress_eq h hA]
  change (fcAssert ((p.appraisedPropertyValue.toNat * 10 % 2 ^ 128 *
    (p.progress.num % 2 ^ 128).toNat + p.progress.den - 1) % 2 ^ 128 / p.progress.den ≤ 2 ^ 64 - 1)
    _ >>= _) = _
  simp only [hc128, hnum, hsum]
  rfl

theorem calcMeta1Contribution_ok (h : p.CountersSound) (hA : 0 < p.approvalCounterMax)
    (hfits : exactContribution p.appraisedPropertyValue.toNat p.progress ≤ 2 ^ 64 - 1) :
    calcMeta1Contribution p = .ok (exactContribution p.appraisedPropertyValue.toNat p.progress) := by
  rw [calcMeta1Contribution_eq h hA, fcAssert_bind_eq_ok]
  exact ⟨hfits, rfl⟩

end Meta1Core.Allocation
