import Meta1Core.Elections.Counts

/-!
# The median of the wishes (`db_maint.cpp`)

The loop that finds the number of witnesses walks the histogram until it has passed half of the
stake that has expressed an opinion, or stands at the last place.
-/

namespace Meta1Core.Elections

open Protocol
open Voting (Tallies)

def countLoop (histogram : List (BitVec 64)) (stakeTarget : Int) :
    (fuel count : Nat) → (stakeTally : Int) → Except Exception Nat
  | 0, _, _ => .error .diverges
  | fuel + 1, count, stakeTally =>
    if count < histogram.length - 1 ∧ stakeTally ≤ stakeTarget then
      match histogram[count + 1]? with
      | some stake => do
        countLoop histogram stakeTarget fuel (count + 1) (← safe (stakeTally + stake.toInt))
      | none => .error .undefined
    else return count

/-- The index that the numbers of witnesses and of committee members are made from -/
def electedIndex (histogram : List (BitVec 64)) (totalVotingStake : BitVec 64) :
    Except Exception Nat := do
  cAssert (0 < histogram.length) "_count_histogram_buffer.size() > 0"
  let stakeTarget : Int := ((totalVotingStake - histogram.getD 0 0).toNat / 2 : Nat)
  -- accounts that vote for 0 or 1 do not get to express an opinion
  if stakeTarget > 0 then countLoop histogram stakeTarget histogram.length 0 0 else return 0

def electedCount (index minimum : Nat) : Nat := max (index * 2 + 1) minimum

section Wishes

-- how many a voter wishes for, and the maximum that may be wished for
variable (desired : Voter → Nat) (maximum : Nat)

def opinionStake (voters : List Voter) : Nat := stakeOf (fun v => 2 ≤ desired v) voters

/-- The stake that wishes for at most `n`; a wish for more than the maximum is one for the maximum. -/
def wantsAtMost (n : Nat) (voters : List Voter) : Nat :=
  stakeOf (fun v => 2 ≤ desired v ∧ min (desired v) maximum ≤ n) voters

/-- The least index `k` such that more than half of the stake that has expressed an opinion wishes for
at most `2 * k + 1`; without any opinion it is 0. -/
structure Median (voters : List Voter) (k : Nat) : Prop where
  least : ∀ j < k, 2 * wantsAtMost desired maximum (2 * j + 1) voters ≤ opinionStake desired voters
  reached : 0 < opinionStake desired voters →
    opinionStake desired voters < 2 * wantsAtMost desired maximum (2 * k + 1) voters
  abstained : opinionStake desired voters = 0 → k = 0

variable {desired maximum}

theorem Median.eq {voters : List Voter} {k k' : Nat} (h : Median desired maximum voters k)
    (h' : Median desired maximum voters k') : k = k' := by
  rcases Nat.eq_zero_or_pos (opinionStake desired voters) with hzero | hpos
  · rw [h.abstained hzero, h'.abstained hzero]
  · rcases Nat.lt_trichotomy k k' with hlt | heq | hlt
    · have := h'.least k hlt
      have := h.reached hpos
      omega
    · exact heq
    · have := h.least k' hlt
      have := h'.reached hpos
      omega

theorem Median.least_place {voters : List Voter} {k : Nat}
    (hpos : 0 < opinionStake desired voters)
    (hleast : ∀ j < k, 2 * wantsAtMost desired maximum (2 * j + 1) voters ≤ opinionStake desired voters)
    (hreached : opinionStake desired voters < 2 * wantsAtMost desired maximum (2 * k + 1) voters) :
    Median desired maximum voters k :=
  ⟨hleast, fun _ => hreached, fun hzero => absurd hzero (by omega)⟩

theorem wantsAtMost_last {voters : List Voter} :
    wantsAtMost desired maximum (2 * (maximum / 2) + 1) voters = opinionStake desired voters := by
  apply stakeOf_congr
  intro v _
  rw [Bool.eq_iff_iff, decide_eq_true_eq, decide_eq_true_eq]
  omega

theorem Median.exists (voters : List Voter) : ∃ k, Median desired maximum voters k := by
  rcases Nat.eq_zero_or_pos (opinionStake desired voters) with hzero | hpos
  · exact ⟨0, fun j hj => absurd hj (Nat.not_lt_zero j), fun hpos => absurd hpos (by omega),
      fun _ => rfl⟩
  · have hlast : ∃ k, opinionStake desired voters <
        2 * wantsAtMost desired maximum (2 * k + 1) voters :=
      ⟨maximum / 2, by rw [wantsAtMost_last]; omega⟩
    refine ⟨Nat.find hlast, Median.least_place hpos (fun j hj => ?_) (Nat.find_spec hlast)⟩
    exact Nat.not_lt.mp (Nat.find_min hlast hj)

def sumTo (places : Nat → Nat) : Nat → Nat
  | 0 => 0
  | k + 1 => sumTo places k + places (k + 1)

theorem sumTo_mono (places : Nat → Nat) {j k : Nat} (h : j ≤ k) : sumTo places j ≤ sumTo places k := by
  induction h with
  | refl => exact Nat.le_refl _
  | step _ ih => exact Nat.le_trans ih (Nat.le_add_right _ _)

theorem countLoop_spec {histogram : List (BitVec 64)} {places : Nat → Nat} {target last : Nat}
    (hplaces : ∀ i ≤ last, ∃ c, histogram[i]? = some c ∧ c.toNat = places i)
    (hlen : histogram.length = last + 1) (hfits : sumTo places last < 2 ^ 63) :
    ∀ (fuel count : Nat), count ≤ last → last < count + fuel →
      (∀ j < count, sumTo places j ≤ target) →
      ∃ k, countLoop histogram target fuel count (sumTo places count) = .ok k ∧ k ≤ last ∧
        (∀ j < k, sumTo places j ≤ target) ∧ (k = last ∨ target < sumTo places k) := by
  intro fuel
  induction fuel with
  | zero => exact fun count hle hlt _ => absurd hlt (by omega)
  | succ fuel ih =>
    intro count hle hlt hbefore
    rw [countLoop]
    by_cases hgo : count < histogram.length - 1 ∧ (sumTo places count : Int) ≤ target
    · rw [if_pos hgo]
      obtain ⟨c, hc, hcount⟩ := hplaces (count + 1) (by omega)
      have hsum : sumTo places (count + 1) = sumTo places count + c.toNat := by
        rw [hcount]
        rfl
      have hmono := sumTo_mono places (show count + 1 ≤ last by omega)
      have hint : c.toInt = c.toNat := BitVec.toInt_eq_toNat_of_lt (by omega)
      have hsafe : safe ((sumTo places count : Int) + c.toInt) =
          .ok (sumTo places (count + 1) : Int) := by
        rw [safe_eq_ok, hint, hsum]
        omega
      rw [hc]
      show ∃ k, (safe _ >>= _) = _ ∧ _
      rw [hsafe]
      apply ih (count + 1) (by omega) (by omega)
      intro j hj
      rcases Nat.lt_succ_iff_lt_or_eq.mp hj with hj | rfl
      · exact hbefore j hj
      · omega
    · rw [if_neg hgo]
      exact ⟨count, rfl, hle, hbefore, by omega⟩

variable {voters : List Voter}

theorem sumTo_places (place : Voter → Option Nat) (k : Nat) :
    sumTo (fun i => stakeOf (fun v => place v = some i) voters) k =
      stakeOf (fun v => (place v).any fun i => 1 ≤ i && i ≤ k) voters := by
  induction k with
  | zero =>
    show 0 = _
    rw [stakeOf_congr (q := fun _ => false), stakeOf_none]
    intro v _
    cases place v with
    | none => rfl
    | some i =>
      simp only [Option.any_some, Bool.and_eq_false_iff, decide_eq_false_iff_not]
      omega
  | succ k ih =>
    rw [sumTo, ih, ← stakeOf_add]
    · apply stakeOf_congr
      intro v _
      cases place v with
      | none => rfl
      | some i =>
        rw [Bool.eq_iff_iff]
        simp only [Option.any_some, Option.some.injEq, Bool.or_eq_true, Bool.and_eq_true,
          decide_eq_true_eq]
        omega
    · intro v _ h
      cases hv : place v with
      | none => simp [hv] at h
      | some i =>
        simp only [hv, Option.any_some, Option.some.injEq, Bool.and_eq_true, decide_eq_true_eq] at h
        omega

theorem sumTo_eq_wantsAtMost {k : Nat} (hk : k < maximum / 2) :
    sumTo (fun i => stakeOf (fun v => placeOf maximum (maximum / 2 + 1) (desired v) = some i) voters)
      k = wantsAtMost desired maximum (2 * k + 1) voters := by
  rw [sumTo_places fun v => placeOf maximum (maximum / 2 + 1) (desired v)]
  apply stakeOf_congr
  intro v _
  rw [Bool.eq_iff_iff, decide_eq_true_eq]
  unfold placeOf
  split
  · simp only [Option.any_some, Bool.and_eq_true, decide_eq_true_eq]
    omega
  · simp only [Option.any_none, Bool.false_eq_true, false_iff]
    omega

theorem sumTo_lt (h : Electorate voters) (place : Voter → Option Nat) (k : Nat) :
    sumTo (fun i => stakeOf (fun v => place v = some i) voters) k < 2 ^ 63 := by
  rw [sumTo_places]
  exact h.lt _

def histogramOf (desired : Voter → Nat) (maximum : Nat) (voters : List Voter) : List (BitVec 64) :=
  voters.foldl (fun h v => Tallies.count maximum (desired v) v.stake h)
    (List.replicate (maximum / 2 + 1) 0)

theorem getElem?_histogramOf (h : Electorate voters) {i : Nat} (hi : i ≤ maximum / 2) :
    ∃ c, (histogramOf desired maximum voters)[i]? = some c ∧
      c.toNat = stakeOf (fun v => placeOf maximum (maximum / 2 + 1) (desired v) = some i) voters :=
  getElem?_foldl_count desired h (by omega)

theorem length_histogramOf : (histogramOf desired maximum voters).length = maximum / 2 + 1 :=
  (length_foldl_count desired voters _).trans List.length_replicate

theorem total_sub_first (h : Electorate voters) {total : BitVec 64}
    (htotal : total.toNat = stakeOf (fun _ => true) voters) :
    (total - (histogramOf desired maximum voters).getD 0 0).toNat =
      stakeOf (fun v => placeOf maximum (maximum / 2 + 1) (desired v) ≠ some 0) voters := by
  obtain ⟨c, hc, hcount⟩ := @getElem?_histogramOf desired maximum voters h 0 (Nat.zero_le _)
  have hsplit : stakeOf (fun _ => true) voters =
      stakeOf (fun v => placeOf maximum (maximum / 2 + 1) (desired v) ≠ some 0) voters +
        stakeOf (fun v => placeOf maximum (maximum / 2 + 1) (desired v) = some 0) voters := by
    rw [← stakeOf_add]
    · apply stakeOf_congr
      intro v _
      simp
    · intro v _
      simp
  rw [List.getD_eq_getElem?_getD, hc, Option.getD_some, BitVec.toNat_sub_of_le]
  · omega
  · rw [BitVec.le_def]
    omega

theorem stakeOf_placed (hmax : 2 ≤ maximum) :
    stakeOf (fun v => placeOf maximum (maximum / 2 + 1) (desired v) ≠ some 0) voters =
      opinionStake desired voters := by
  apply stakeOf_congr
  intro v _
  rw [Bool.eq_iff_iff, decide_eq_true_eq, decide_eq_true_eq]
  unfold placeOf
  split
  · simp only [ne_eq, Option.some.injEq]
    omega
  · simp only [ne_eq, reduceCtorEq, not_false_eq_true, true_iff]
    omega

theorem electedIndex_spec (h : Electorate voters) {total : BitVec 64}
    (htotal : total.toNat = stakeOf (fun _ => true) voters) :
    ∃ k, electedIndex (histogramOf desired maximum voters) total = .ok k ∧ k ≤ maximum / 2 ∧
      (opinionStake desired voters ≠ 1 → Median desired maximum voters k) ∧
      (opinionStake desired voters = 1 → k = 0) := by
  have hlen := @length_histogramOf desired maximum voters
  have hsub := @total_sub_first desired maximum voters h total htotal
  unfold electedIndex
  rw [cAssert_of (by omega)]
  simp only [bind, Except.bind]
  rw [hsub]
  obtain ⟨k, hloop, hle, hbefore, hstop⟩ :=
    @countLoop_spec (histogramOf desired maximum voters) _
      (stakeOf (fun v => placeOf maximum (maximum / 2 + 1) (desired v) ≠ some 0) voters / 2)
      (maximum / 2) (fun i hi => getElem?_histogramOf h hi) hlen
      (sumTo_lt h (fun v => placeOf maximum (maximum / 2 + 1) (desired v)) _)
      (histogramOf desired maximum voters).length 0 (Nat.zero_le _) (by omega)
      (fun j hj => absurd hj (Nat.not_lt_zero j))
  rcases Nat.lt_or_ge maximum 2 with hmax | hmax
  · -- there is only one place
    have hk : k = 0 := by omega
    subst hk
    refine ⟨0, ?_, Nat.zero_le _, fun _ => ?_, fun _ => rfl⟩
    · split
      · exact hloop
      · rfl
    · refine ⟨fun j hj => absurd hj (Nat.not_lt_zero j), fun hpos => ?_, fun _ => rfl⟩
      have hlast := @wantsAtMost_last desired maximum voters
      rw [show maximum / 2 = 0 by omega] at hlast
      rw [hlast]
      omega
  · rw [stakeOf_placed hmax] at hloop hbefore hstop ⊢
    by_cases htarget : ((opinionStake desired voters / 2 : Nat) : Int) > 0
    · rw [if_pos htarget]
      refine ⟨k, hloop, hle, fun _ => ?_, fun hone => absurd hone (by omega)⟩
      apply Median.least_place (by omega)
      · intro j hj
        have := hbefore j hj
        rw [sumTo_eq_wantsAtMost (by omega)] at this
        omega
      · rcases Nat.lt_or_eq_of_le hle with hlt | rfl
        · have := hstop.resolve_left (by omega)
          rw [sumTo_eq_wantsAtMost hlt] at this
          omega
        · rw [wantsAtMost_last]
          omega
    · rw [if_neg htarget]
      refine ⟨0, rfl, Nat.zero_le _, fun hne => ?_, fun _ => rfl⟩
      have hzero : opinionStake desired voters = 0 := by omega
      exact ⟨fun j hj => absurd hj (Nat.not_lt_zero j), fun hpos => absurd hpos (by omega),
        fun _ => rfl⟩

end Wishes

end Meta1Core.Elections
