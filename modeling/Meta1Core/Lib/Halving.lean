import Mathlib.Algebra.GroupWithZero.Nat
import Mathlib.Data.List.Pairwise
import Mathlib.Tactic.Common

/-!
# Numbers that halve the distance to a bound

The numbers from `low` up to `high`, each a little more than halfway from the one before it to
`high`.  They get denser towards `high`, which is the last one.
-/

namespace Meta1Core.Lib

/-- `fuel` is at least `high + 1 - low` where nothing is missing. -/
def halving (high : Nat) : Nat → Nat → List Nat
  | 0, _ => []
  | fuel + 1, low => if low ≤ high then low :: halving high fuel (low + (high - low + 2) / 2) else []

variable {high fuel low n : Nat}

theorem halving_of_le (h : low ≤ high) :
    halving high (fuel + 1) low = low :: halving high fuel (low + (high - low + 2) / 2) := by
  rw [halving, if_pos h]

theorem halving_of_lt (h : high < low) (fuel : Nat) : halving high fuel low = [] := by
  cases fuel with
  | zero => rfl
  | succ fuel => rw [halving, if_neg (by omega)]

theorem bounds_of_mem_halving (h : n ∈ halving high fuel low) : low ≤ n ∧ n ≤ high := by
  induction fuel generalizing low with
  | zero => cases h
  | succ fuel ih =>
    by_cases hle : low ≤ high
    · rw [halving_of_le hle] at h
      rcases List.mem_cons.mp h with rfl | h
      · exact ⟨Nat.le_refl _, hle⟩
      · have hn := ih h
        omega
    · rw [halving_of_lt (by omega)] at h
      cases h

theorem pairwise_halving : (halving high fuel low).Pairwise (· < ·) := by
  induction fuel generalizing low with
  | zero => exact List.Pairwise.nil
  | succ fuel ih =>
    by_cases hle : low ≤ high
    · rw [halving_of_le hle]
      refine List.Pairwise.cons (fun n hn => ?_) ih
      have hbounds := bounds_of_mem_halving hn
      omega
    · rw [halving_of_lt (by omega)]
      exact List.Pairwise.nil

theorem getLast?_halving (hle : low ≤ high) (hfuel : high < low + fuel) :
    (halving high fuel low).getLast? = some high := by
  induction fuel generalizing low with
  | zero => omega
  | succ fuel ih =>
    rw [halving_of_le hle]
    by_cases hnext : low + (high - low + 2) / 2 ≤ high
    · rw [List.getLast?_cons, ih hnext (by omega)]
      rfl
    · rw [halving_of_lt (by omega), show low = high from by omega]
      rfl

/-- Below any number that is not smaller than `low` there is one of the list whose distance to
`high` is at most double. -/
theorem exists_halving_le {bound : Nat} (hlow : low ≤ bound) (hbound : bound ≤ high)
    (hfuel : high < low + fuel) :
    ∃ n ∈ halving high fuel low, n ≤ bound ∧ high - n ≤ 2 * (high - bound) ∧
      ∀ m ∈ halving high fuel low, m ≤ bound → m ≤ n := by
  induction fuel generalizing low with
  | zero => omega
  | succ fuel ih =>
    rw [halving_of_le (Nat.le_trans hlow hbound)]
    by_cases hnext : low + (high - low + 2) / 2 ≤ bound
    · obtain ⟨n, hn, hle, hhalf, hmax⟩ := ih hnext (by omega)
      refine ⟨n, List.mem_cons_of_mem _ hn, hle, hhalf, fun m hm hmle => ?_⟩
      rcases List.mem_cons.mp hm with rfl | hm
      · have hbounds := bounds_of_mem_halving hn
        omega
      · exact hmax m hm hmle
    · refine ⟨low, List.mem_cons_self, hlow, by omega, fun m hm hmle => ?_⟩
      rcases List.mem_cons.mp hm with rfl | hm
      · exact Nat.le_refl _
      · have hbounds := bounds_of_mem_halving hm
        omega

theorem length_halving_le {bits : Nat} (h : high - low + 1 < 2 ^ bits) :
    (halving high fuel low).length ≤ bits := by
  induction fuel generalizing low bits with
  | zero => exact Nat.zero_le _
  | succ fuel ih =>
    cases bits with
    | zero => omega
    | succ bits =>
      by_cases hle : low ≤ high
      · rw [halving_of_le hle]
        refine Nat.succ_le_succ ?_
        rw [Nat.pow_succ] at h
        by_cases hnext : low + (high - low + 2) / 2 ≤ high
        · exact ih (by omega)
        · rw [halving_of_lt (by omega)]
          exact Nat.zero_le _
      · rw [halving_of_lt (by omega)]
        exact Nat.zero_le _

theorem filter_le_append_filter_lt {nums : List Nat} (h : nums.Pairwise (· < ·)) (bound : Nat) :
    nums.filter (· ≤ bound) ++ nums.filter (bound < ·) = nums := by
  induction nums with
  | nil => rfl
  | cons n nums ih =>
    obtain ⟨hn, h⟩ := List.pairwise_cons.mp h
    rw [List.filter_cons, List.filter_cons]
    by_cases hle : n ≤ bound
    · rw [if_pos (decide_eq_true hle), if_neg (by simpa using hle), List.cons_append, ih h]
    · have hnone : nums.filter (· ≤ bound) = [] := by
        rw [List.filter_eq_nil_iff]
        intro m hm hmle
        have hlt := hn m hm
        have hmle := of_decide_eq_true hmle
        omega
      have ih := ih h
      rw [hnone, List.nil_append] at ih
      rw [if_neg (by simpa using hle), if_pos (by simpa using hle), hnone, ih]
      rfl

end Meta1Core.Lib
