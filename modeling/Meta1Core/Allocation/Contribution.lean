import Mathlib.Algebra.Order.Floor.Semifield
import Meta1Core.Allocation.Lifecycle

/-!
# Progress and contribution in the states that a chain reaches

`get_allocation_progress` and `calc_meta1_contribution` are exact for every property that a chain comes to
have, unless a late approval has left it without an approval phase: then there is no progress to compute.
-/

namespace Meta1Core.Allocation

open Lib

theorem exactContribution_eq_ceil (value : Nat) {progress : ℚ} (h : 0 ≤ progress) :
    exactContribution value progress = ⌈(10 * value * progress : ℚ)⌉₊ := by
  have hden := progress.den_pos
  have hdenQ : (0 : ℚ) < progress.den := by exact_mod_cast hden
  have hnum : ((progress.num.toNat : ℕ) : ℚ) = progress.num := by
    have hcast : ((progress.num.toNat : ℕ) : ℤ) = progress.num := Int.toNat_of_nonneg (Rat.num_nonneg.mpr h)
    exact_mod_cast hcast
  have hquotient : (10 * value * progress : ℚ) =
      ((value * 10 * progress.num.toNat : ℕ) : ℚ) / progress.den := by
    push_cast
    rw [hnum, mul_div_assoc, Rat.num_div_den]
    ring
  rw [hquotient]
  unfold exactContribution
  generalize value * 10 * progress.num.toNat = n
  apply le_antisymm
  · rw [Nat.div_le_iff_le_mul_add_pred hden]
    have hle : (n : ℚ) ≤ progress.den * ⌈(n : ℚ) / progress.den⌉₊ := by
      have hceil := Nat.le_ceil ((n : ℚ) / progress.den)
      rw [div_le_iff₀ hdenQ] at hceil
      rw [mul_comm]
      exact hceil
    have hle' : n ≤ progress.den * ⌈(n : ℚ) / progress.den⌉₊ := by exact_mod_cast hle
    omega
  · rw [Nat.ceil_le, div_le_iff₀ hdenQ]
    have hlt := Nat.lt_div_mul_add hden (a := n + progress.den - 1)
    have hle : n ≤ (n + progress.den - 1) / progress.den * progress.den := by omega
    exact_mod_cast hle

def PropertyObject.ceilContribution (p : PropertyObject) : Nat :=
  ⌈(10 * p.appraisedPropertyValue.toNat * p.progress : ℚ)⌉₊

structure PropertyObject.Exact (p : PropertyObject) : Prop where
  progress : p.getAllocationProgress = .ok p.progress
  contribution : p.ceilContribution ≤ 2 ^ 64 - 1 → calcMeta1Contribution p = .ok p.ceilContribution
  tooLarge : 2 ^ 64 - 1 < p.ceilContribution →
    calcMeta1Contribution p = .error (.fc "multiplication_result <= max_uint64")

variable {p q : PropertyObject}

theorem PropertyObject.CountersSound.exact (h : p.CountersSound) (hA : 0 < p.approvalCounterMax) :
    p.Exact := by
  have hceil := exactContribution_eq_ceil p.appraisedPropertyValue.toNat (progress_mem_unit h).1
  have heq := calcMeta1Contribution_eq h hA
  rw [hceil] at heq
  constructor
  · exact getAllocationProgress_eq h hA
  · intro hfits
    unfold PropertyObject.ceilContribution at hfits
    unfold fcAssert at heq
    rw [if_pos hfits] at heq
    exact heq
  · intro hlarge
    unfold PropertyObject.ceilContribution at hlarge
    unfold fcAssert at heq
    rw [if_neg (Nat.not_le.mpr hlarge)] at heq
    exact heq

theorem getAllocationProgress_zero (hI : 0 < p.initialCounterMax) (hI' : p.initialCounterMax < 2 ^ 31)
    (hA : p.approvalCounterMax = 0) :
    p.getAllocationProgress = .error (.std "bad rational: zero denominator") := by
  unfold PropertyObject.getAllocationProgress
  rw [int32OfU32_of_lt hI', ratioMk_ok (by exact_mod_cast hI), hA]
  rfl

theorem PropertyObject.CountersSound.exact_iff (h : p.CountersSound) :
    p.Exact ↔ p.approvalCounterMax ≠ 0 := by
  constructor
  · intro hexact hzero
    have hbound : p.initialCounterMax < 2 ^ 31 := lt_of_le_of_lt h.initialMax_le (by decide)
    have hprogress := hexact.progress
    rw [getAllocationProgress_zero h.initialMax_pos hbound hzero] at hprogress
    cases hprogress
  · intro hne
    exact h.exact (Nat.pos_of_ne_zero hne)

theorem PropertyObject.Exact.eq_ceilContribution (h : p.Exact) {c : Nat} (hc : calcMeta1Contribution p = .ok c) :
    c = p.ceilContribution := by
  by_cases hfits : p.ceilContribution ≤ 2 ^ 64 - 1
  · rw [h.contribution hfits] at hc
    cases hc
    rfl
  · rw [h.tooLarge (Nat.not_le.mp hfits)] at hc
    cases hc

theorem contribution_bounds (h : 0 ≤ p.progress) :
    10 * p.appraisedPropertyValue.toNat * p.progress ≤ p.ceilContribution ∧
      (p.ceilContribution : ℚ) < 10 * p.appraisedPropertyValue.toNat * p.progress + 1 := by
  constructor
  · exact Nat.le_ceil _
  · apply Nat.ceil_lt_add_one
    positivity

theorem contribution_mono (hvalue : p.appraisedPropertyValue = q.appraisedPropertyValue)
    (hle : p.progress ≤ q.progress) : p.ceilContribution ≤ q.ceilContribution := by
  unfold PropertyObject.ceilContribution
  rw [hvalue]
  apply Nat.ceil_mono
  gcongr

/-- Progress and contribution of a property are exact just if it has an approval phase, and it has
one if late approvals leave an interval.  The contribution is within one unit and grows with the
progress. -/
theorem contribution_exact {s : ChainState}
    (h : Reachable applyEvent ChainState.Genesis (fun _ _ => True) s) :
    (∀ p ∈ s.properties, p.initialCounter ≤ p.initialCounterMax ∧ p.approvalCounter ≤ p.approvalCounterMax ∧
      (p.Exact ↔ p.approvalCounterMax ≠ 0) ∧ ∀ c, calcMeta1Contribution p = .ok c →
        10 * p.appraisedPropertyValue.toNat * p.progress ≤ c ∧
          (c : ℚ) < 10 * p.appraisedPropertyValue.toNat * p.progress + 1) ∧
    (∀ t, Reachable applyEvent ChainState.Genesis (fun _ _ => True) t → ∀ p ∈ s.properties,
      ∀ q ∈ t.properties, p.appraisedPropertyValue = q.appraisedPropertyValue → p.progress ≤ q.progress →
        ∀ c d, calcMeta1Contribution p = .ok c → calcMeta1Contribution q = .ok d → c ≤ d) ∧
    (Reachable applyEvent ChainState.Genesis lateApprovalFits s →
      ∀ p ∈ s.properties, p.approvalCounterMax ≠ 0) := by
  -- a contribution is only computed where there is a progress
  have hcomputed : ∀ s, Reachable applyEvent ChainState.Genesis (fun _ _ => True) s →
      ∀ p ∈ s.properties, ∀ c, calcMeta1Contribution p = .ok c → c = p.ceilContribution := by
    intro s h p hp c hc
    have hcounters := ((reachable_sound h).properties p hp).toCountersSound
    by_cases hzero : p.approvalCounterMax = 0
    · have hbound : p.initialCounterMax < 2 ^ 31 := lt_of_le_of_lt hcounters.initialMax_le (by decide)
      unfold calcMeta1Contribution at hc
      rw [getAllocationProgress_zero hcounters.initialMax_pos hbound hzero] at hc
      cases hc
    · exact (hcounters.exact (Nat.pos_of_ne_zero hzero)).eq_ceilContribution hc
  have hsound := reachable_sound h
  refine ⟨fun p hp => ?_, fun t ht p hp q hq hvalue hle c d hc hd => ?_, fun hfits p hp => ?_⟩
  · have hcounters := (hsound.properties p hp).toCountersSound
    refine ⟨hcounters.initial_le, hcounters.approval_le, hcounters.exact_iff, fun c hc => ?_⟩
    rw [hcomputed s h p hp c hc]
    exact contribution_bounds (progress_mem_unit hcounters).1
  · rw [hcomputed s h p hp c hc, hcomputed t ht q hq d hd]
    exact contribution_mono hvalue hle
  · exact (reachable_approvalPhases (fun _ _ hcond => hcond) hfits p hp).ne'

theorem contribution_exact_maturing :
    ∃ s, Reachable applyEvent ChainState.Genesis (fun _ _ => True) s ∧
      ∃ p ∈ s.properties, p.expired = true ∧ p.Exact := by
  have hgenesis : (testGenesis 1).Genesis := ⟨by decide, rfl, rfl⟩
  have hend : Lib.Succeeds (Lib.run applyEvent (testGenesis 1) maturingRun) fun s =>
      ∃ p ∈ s.properties, p.expired = true ∧ p.approvalCounterMax ≠ 0 := by decide +kernel
  obtain ⟨s, hreach, p, hp, hexpired, hmax⟩ :=
    Reachable.of_run maturingRun hgenesis (StepsMeet.of_forall (fun _ _ _ => trivial) _) hend
  obtain ⟨-, -, hexact, -⟩ := (contribution_exact hreach).1 p hp
  exact ⟨s, hreach, p, hp, hexpired, hexact.mpr hmax⟩

/-- A property that is approved 44 seconds before an end date that has wrapped has no progress. -/
theorem contribution_not_exact :
    ∃ s, Reachable applyEvent ChainState.Genesis (fun _ _ => True) s ∧
      ∃ p ∈ s.properties, p.initialCounter ≤ p.initialCounterMax ∧
        p.approvalCounter ≤ p.approvalCounterMax ∧ ¬p.Exact := by
  have hgenesis : (testGenesis 3221225520).Genesis := ⟨by decide, rfl, rfl⟩
  have hend : Lib.Succeeds (Lib.run applyEvent (testGenesis 3221225520) wrappedRun) fun s =>
      ∃ p ∈ s.properties, p.initialCounter ≤ p.initialCounterMax ∧
        p.approvalCounter ≤ p.approvalCounterMax ∧
        p.getAllocationProgress = .error (.std "bad rational: zero denominator") := by decide +kernel
  obtain ⟨s, hreach, p, hp, hi, ha, herror⟩ :=
    Reachable.of_run wrappedRun hgenesis (StepsMeet.of_forall (fun _ _ _ => trivial) _) hend
  refine ⟨s, hreach, p, hp, hi, ha, fun hexact => ?_⟩
  have hprogress := hexact.progress
  rw [herror] at hprogress
  cases hprogress

end Meta1Core.Allocation
