import Meta1Core.Allocation.Progress

/-!
# What create, approve and one block do to a property

One specification for each of the three routines that write the schedule of a property, and the
invariant of a single property that all three keep.
-/

namespace Meta1Core.Allocation

/-- The start of the last minute below `2^32` -/
def lastMinute : Nat := 4294967280

structure PropertyObject.Sound (now : Nat) (p : PropertyObject) : Prop
    extends p.CountersSound where
  approvalEndDate_le : p.approvalEndDate ≤ lastMinute
  /-- A next allocation date that wrapped at creation belongs to a property whose initial phase
  is over, and an approval then sets the date anew. -/
  nextAllocation_aligned : p.nextAllocationDate % 60 = 0 ∨
    p.approvalDate = none ∧ p.initialEndDate < now
  expired_past : p.expired = true → p.approvalEndDate ≤ now
  expired_counters : p.expired = true →
    p.approvalDate ≠ none ∧ p.initialCounter = p.initialCounterMax ∧
      p.approvalCounter = p.approvalCounterMax ∨
    p.approvalDate = none ∧ p.initialCounter = 0 ∧ p.approvalCounter = 0

variable {op : PropertyCreateOperation} {hbt id now rounds : Nat} {p q : PropertyObject}

theorem PropertyCreateOperation.validate_ok (h : op.validate = .ok ()) :
    4 ≤ op.allocationDurationMinutes.toNat ∧ op.allocationDurationMinutes.toNat % 4 = 0 := by
  unfold PropertyCreateOperation.validate at h
  obtain ⟨-, h⟩ := of_fcAssert h
  obtain ⟨-, h⟩ := of_fcAssert h
  obtain ⟨hmin, h⟩ := of_fcAssert h
  obtain ⟨hmod, -⟩ := of_fcAssert h
  exact ⟨hmin, hmod⟩

structure PropertyObject.FreshSchedule (minutes start : Nat) (p : PropertyObject) : Prop where
  creationDate : p.creationDate = start
  approvalDate : p.approvalDate = none
  expired : p.expired = false
  initialEndDate : p.initialEndDate = u32 (start + minutes * 15)
  initialCounter : p.initialCounter = 0
  initialCounterMax : p.initialCounterMax = minutes / 4
  approvalEndDate : p.approvalEndDate = u32 (start + minutes * 60)
  approvalCounter : p.approvalCounter = 0
  approvalCounterMax : p.approvalCounterMax = minutes - minutes / 4
  nextAllocationDate : p.nextAllocationDate = u32 (start + 60)

theorem createProperty_ok (hnow : now < 2 ^ 32) (h : createProperty now op id = .ok p) :
    op.allocationDurationMinutes.toNat * 60 < 2 ^ 32 ∧ (now / 60 + 1) * 60 < 2 ^ 32 ∧
      p.id = id ∧ p.propertyId = op.propertyId ∧
      p.appraisedPropertyValue = op.appraisedPropertyValue ∧
      p.backedByAssetSymbol = op.backedByAssetSymbol ∧
      p.FreshSchedule op.allocationDurationMinutes.toNat ((now / 60 + 1) * 60) := by
  unfold createProperty at h
  obtain ⟨seconds, hsafe, h⟩ := Lib.of_bind h
  obtain ⟨period, hperiod, h⟩ := Lib.of_bind h
  unfold safeMulU32 at hsafe
  split at hsafe
  · rename_i hfits
    cases hsafe
    have hstartLt : calcMeta1NextStartTime now < 2 ^ 32 := by
      rw [calcMeta1NextStartTime_eq now hnow]
      exact u32_lt _
    obtain ⟨haligned, -, rfl⟩ := calcMeta1AllocationInitialParameters_ok hstartLt hperiod
    obtain ⟨hstart, hstartFits⟩ := calcMeta1NextStartTime_of_aligned now hnow haligned
    have hminutes : op.allocationDurationMinutes.toNat * 60 / 60 =
        op.allocationDurationMinutes.toNat := Nat.mul_div_cancel _ (by decide)
    have hquarter : op.allocationDurationMinutes.toNat * 60 / 4 =
        op.allocationDurationMinutes.toNat * 15 := by omega
    cases h
    refine ⟨hfits, hstartFits, rfl, rfl, rfl, rfl, hstart, rfl, rfl, ?_, rfl, ?_, ?_, rfl, ?_, ?_⟩
    · simp only [hstart, hquarter]
    · simp only [hminutes]
    · simp only [hstart]
    · simp only [hminutes]
      exact u32Sub_of_le (by omega) (by omega)
    · simp only [hstart, meta1IntervalBetweenAllocationSeconds]
  · cases hsafe

theorem createProperty_sound (hnow : now < 2 ^ 32) (hvalid : op.validate = .ok ())
    (h : createProperty now op id = .ok p) :
    p.Sound now ∧ 0 < p.approvalCounterMax := by
  obtain ⟨hmin, hmod⟩ := PropertyCreateOperation.validate_ok hvalid
  obtain ⟨hfits, hstart, -, -, -, -, hp⟩ := createProperty_ok hnow h
  generalize op.allocationDurationMinutes.toNat = minutes at *
  have hI := hp.initialCounterMax
  have hA := hp.approvalCounterMax
  refine ⟨⟨⟨by omega, ?_, ?_, ?_, ?_, .inl hp.approvalCounter, fun _ => hp.approvalCounter⟩,
    ?_, ?_, ?_, ?_⟩, by omega⟩
  · unfold counterBound
    omega
  · unfold counterBound
    omega
  · rw [hp.initialCounter]
    exact Nat.zero_le _
  · rw [hp.approvalCounter]
    exact Nat.zero_le _
  · rw [hp.approvalEndDate]
    unfold lastMinute
    by_cases hwrap : (now / 60 + 1) * 60 + minutes * 60 < 2 ^ 32
    · rw [u32_of_lt hwrap]
      omega
    · rw [u32_of_wrap (not_lt.mp hwrap) (by omega)]
      omega
  · rw [hp.nextAllocationDate, hp.initialEndDate]
    by_cases hwrap : (now / 60 + 1) * 60 + 60 < 2 ^ 32
    · left
      rw [u32_of_lt hwrap]
      omega
    · -- the property was created in the last minute: all of its dates wrapped
      right
      refine ⟨hp.approvalDate, ?_⟩
      rw [u32_of_wrap (by omega) (by omega)]
      omega
  · rw [hp.expired]
    exact fun h => absurd h (by decide)
  · rw [hp.expired]
    exact fun h => absurd h (by decide)

theorem approveProperty_ok (hnow : now < 2 ^ 32) (hend : p.approvalEndDate ≤ lastMinute)
    (h : approveProperty now p = .ok q) :
    now < p.initialEndDate ∧ q = { p with approvalDate := some now } ∨
    p.initialEndDate ≤ now ∧ now < p.approvalEndDate ∧ p.approvalCounter = 0 ∧
      q = { p with
        approvalDate := some (now / 60 * 60)
        approvalCounterMax := (p.approvalEndDate - now / 60 * 60) / 60
        nextAllocationDate := now / 60 * 60 + 60 } := by
  unfold approveProperty at h
  split at h
  · rename_i hearly
    cases h
    exact .inl ⟨hearly, rfl⟩
  · rename_i hlate
    obtain ⟨restart, hrestart, h⟩ := Lib.of_bind h
    obtain ⟨hzero, h⟩ := of_fcAssert h
    unfold lastMinute at hend
    obtain ⟨hlt, rfl⟩ := calcMeta1AllocationRestartParameters_ok hnow (by omega) hrestart
    refine .inr ⟨not_lt.mp hlate, hlt, hzero, ?_⟩
    cases h
    have hnext : u32 (now / 60 * 60 + meta1IntervalBetweenAllocationSeconds) = now / 60 * 60 + 60 :=
      u32_of_lt (by unfold meta1IntervalBetweenAllocationSeconds; omega)
    rw [hnext]

theorem approveProperty_terms (hnow : now < 2 ^ 32) (hend : p.approvalEndDate ≤ lastMinute)
    (h : approveProperty now p = .ok q) :
    q.id = p.id ∧ q.backedByAssetSymbol = p.backedByAssetSymbol ∧
      q.appraisedPropertyValue = p.appraisedPropertyValue := by
  rcases approveProperty_ok hnow hend h with ⟨-, rfl⟩ | ⟨-, -, -, rfl⟩
  · exact ⟨rfl, rfl, rfl⟩
  · exact ⟨rfl, rfl, rfl⟩

theorem approveProperty_schedule (hnow : now < 2 ^ 32) (hend : p.approvalEndDate ≤ lastMinute)
    (h : approveProperty now p = .ok q) :
    q.approvalDate ≠ none ∧ q.initialEndDate = p.initialEndDate ∧
      q.approvalEndDate = p.approvalEndDate ∧ q.initialCounterMax = p.initialCounterMax ∧
      q.approvalCounterMax = (if now < p.initialEndDate then p.approvalCounterMax
        else (p.approvalEndDate - now / 60 * 60) / 60) ∧
      q.initialCounter = p.initialCounter ∧ q.approvalCounter = p.approvalCounter ∧
      q.expired = p.expired := by
  rcases approveProperty_ok hnow hend h with ⟨hearly, rfl⟩ | ⟨hlate, -, -, rfl⟩
  · exact ⟨Option.some_ne_none _, rfl, rfl, rfl, (if_pos hearly).symm, rfl, rfl, rfl⟩
  · exact ⟨Option.some_ne_none _, rfl, rfl, rfl, (if_neg (not_lt.mpr hlate)).symm, rfl, rfl, rfl⟩

theorem approveProperty_sound (hnow : now < 2 ^ 32) (hp : p.Sound now)
    (hdeadline : now < p.approvalEndDate) (h : approveProperty now p = .ok q) : q.Sound now := by
  have hnotExpired : p.expired = true → False := fun he => by
    have := hp.expired_past he
    omega
  rcases approveProperty_ok hnow hp.approvalEndDate_le h with ⟨hearly, rfl⟩ | ⟨-, hlt, hzero, rfl⟩
  · refine ⟨⟨hp.initialMax_pos, hp.initialMax_le, hp.approvalMax_le, hp.initial_le,
      hp.approval_le, hp.phase, fun hnone => nomatch hnone⟩, hp.approvalEndDate_le, ?_,
      fun he => absurd he hnotExpired, fun he => absurd he hnotExpired⟩
    rcases hp.nextAllocation_aligned with haligned | ⟨-, hover⟩
    · exact .inl haligned
    · exact absurd hover (by omega)
  · have hend := hp.approvalEndDate_le
    unfold lastMinute at hend
    refine ⟨⟨hp.initialMax_pos, hp.initialMax_le, ?_, hp.initial_le, ?_, .inl hzero,
      fun hnone => nomatch hnone⟩, hp.approvalEndDate_le, .inl ?_,
      fun he => absurd he hnotExpired, fun he => absurd he hnotExpired⟩
    · unfold counterBound
      dsimp only
      omega
    · dsimp only
      omega
    · dsimp only
      omega

/-! ## One block -/

def PropertyObject.allocateIntervals (k : Nat) (p : PropertyObject) : PropertyObject :=
  { p with
    nextAllocationDate := p.nextAllocationDate + 60 * k
    initialCounter := min p.initialCounterMax (p.initialCounter + k)
    approvalCounter :=
      if p.approvalDate.isSome then
        min p.approvalCounterMax
          (p.approvalCounter + (k - (p.initialCounterMax - p.initialCounter)))
      else p.approvalCounter }

def PropertyObject.intervalsDue (hbt : Nat) (p : PropertyObject) : Nat :=
  if hbt < p.nextAllocationDate then 0 else (hbt - p.nextAllocationDate) / 60 + 1

theorem allocateIntervals_zero (hi : p.initialCounter ≤ p.initialCounterMax)
    (ha : p.approvalCounter ≤ p.approvalCounterMax) : p.allocateIntervals 0 = p := by
  unfold PropertyObject.allocateIntervals
  simp only [Nat.mul_zero, Nat.add_zero, Nat.zero_sub, Nat.min_eq_right hi, Nat.min_eq_right ha,
    ite_self]

theorem allocateIntervals_succ {k : Nat} (hnext : p.nextAllocationDate + 60 < 2 ^ 32)
    (hi : p.initialCounter ≤ p.initialCounterMax) (ha : p.approvalCounter ≤ p.approvalCounterMax) :
    p.allocateInterval.allocateIntervals k = p.allocateIntervals (k + 1) := by
  have hdate : u32 (p.nextAllocationDate + meta1IntervalBetweenAllocationSeconds) + 60 * k =
      p.nextAllocationDate + 60 * (k + 1) := by
    rw [meta1IntervalBetweenAllocationSeconds, u32_of_lt hnext]
    omega
  unfold PropertyObject.allocateInterval PropertyObject.allocateIntervals
  dsimp only
  by_cases hinitial : p.initialCounter < p.initialCounterMax
  · have hleft : p.initialCounterMax - p.initialCounter =
        p.initialCounterMax - (p.initialCounter + 1) + 1 := by omega
    rw [if_pos hinitial]
    simp only [hdate, hleft, Nat.add_sub_add_right, Nat.add_assoc, Nat.add_comm 1 k]
  · have hfull : p.initialCounter = p.initialCounterMax := by omega
    rw [if_neg hinitial]
    by_cases happroved : p.approvalDate.isSome ∧ p.approvalCounter < p.approvalCounterMax
    · rw [if_pos happroved]
      simp only [hdate, hfull, happroved.1, if_true, Nat.sub_self, Nat.sub_zero, Nat.add_assoc,
        Nat.add_comm 1 k, Nat.min_eq_left (Nat.le_add_right _ _)]
    · rw [if_neg happroved]
      by_cases hsome : p.approvalDate.isSome
      · have hmax : p.approvalCounter = p.approvalCounterMax := by
          by_contra hne
          exact happroved ⟨hsome, by omega⟩
        simp only [hdate, hfull, hsome, if_true, Nat.sub_self, Nat.sub_zero, hmax,
          Nat.min_eq_left (Nat.le_add_right _ _)]
      · simp only [hdate, hfull, if_neg hsome, Nat.min_eq_left (Nat.le_add_right _ _)]

theorem allocateInterval_counters (hi : p.initialCounter ≤ p.initialCounterMax)
    (ha : p.approvalCounter ≤ p.approvalCounterMax) :
    p.allocateInterval.initialCounter ≤ p.allocateInterval.initialCounterMax ∧
      p.allocateInterval.approvalCounter ≤ p.allocateInterval.approvalCounterMax := by
  unfold PropertyObject.allocateInterval
  dsimp only
  split
  · exact ⟨by dsimp only; omega, ha⟩
  · split
    · exact ⟨hi, by dsimp only; omega⟩
    · exact ⟨hi, ha⟩

theorem allocateInterval_nextAllocationDate (p : PropertyObject) :
    p.allocateInterval.nextAllocationDate = u32 (p.nextAllocationDate + 60) := by
  unfold PropertyObject.allocateInterval
  dsimp only
  split
  · rfl
  · split <;> rfl

theorem catchUp_eq (hhbt : hbt < lastMinute) (haligned : p.nextAllocationDate % 60 = 0)
    (hi : p.initialCounter ≤ p.initialCounterMax) (ha : p.approvalCounter ≤ p.approvalCounterMax)
    (hrounds : p.intervalsDue hbt < rounds) :
    catchUp hbt rounds p = .ok (p.allocateIntervals (p.intervalsDue hbt)) := by
  -- induction on the fuel; one round lowers the number of rounds due by one
  induction rounds generalizing p with
  | zero => exact absurd hrounds (Nat.not_lt_zero _)
  | succ rounds ih =>
    rw [catchUp]
    by_cases hdue : hbt < p.nextAllocationDate
    · have hzero : p.intervalsDue hbt = 0 := if_pos hdue
      rw [if_neg (by omega), hzero, allocateIntervals_zero hi ha]
    · have hpos : p.intervalsDue hbt = (hbt - p.nextAllocationDate) / 60 + 1 := if_neg hdue
      unfold lastMinute at hhbt
      have hnext : p.nextAllocationDate + 60 < 2 ^ 32 := by omega
      have hdate : p.allocateInterval.nextAllocationDate = p.nextAllocationDate + 60 := by
        rw [allocateInterval_nextAllocationDate, u32_of_lt hnext]
      have hless : p.allocateInterval.intervalsDue hbt + 1 = p.intervalsDue hbt := by
        rw [hpos]
        unfold PropertyObject.intervalsDue
        rw [hdate]
        split <;> omega
      obtain ⟨hi', ha'⟩ := allocateInterval_counters hi ha
      rw [if_pos (not_lt.mp hdue), ih (by rw [hdate]; omega) hi' ha' (by omega),
        allocateIntervals_succ hnext hi ha, hless]

def PropertyObject.SameTerms (p q : PropertyObject) : Prop :=
  ∃ expired initialCounter approvalCounter nextAllocationDate,
    q = { p with
      expired := expired
      initialCounter := initialCounter
      approvalCounter := approvalCounter
      nextAllocationDate := nextAllocationDate }

theorem PropertyObject.SameTerms.refl (p : PropertyObject) : p.SameTerms p :=
  ⟨p.expired, p.initialCounter, p.approvalCounter, p.nextAllocationDate, rfl⟩

theorem PropertyObject.SameTerms.trans {r : PropertyObject} (hpq : p.SameTerms q)
    (hqr : q.SameTerms r) : p.SameTerms r := by
  obtain ⟨_, _, _, _, rfl⟩ := hpq
  obtain ⟨e, i, a, n, rfl⟩ := hqr
  exact ⟨e, i, a, n, rfl⟩

theorem allocateInterval_sameTerms (p : PropertyObject) : p.SameTerms p.allocateInterval := by
  unfold PropertyObject.allocateInterval
  dsimp only
  split
  · exact ⟨_, _, _, _, rfl⟩
  · split <;> exact ⟨_, _, _, _, rfl⟩

theorem catchUp_sameTerms (h : catchUp hbt rounds p = .ok q) : p.SameTerms q := by
  induction rounds generalizing p with
  | zero => cases h
  | succ rounds ih =>
    rw [catchUp] at h
    split at h
    · exact (allocateInterval_sameTerms p).trans (ih h)
    · cases h
      exact .refl _

theorem allocateProperty_sameTerms (h : allocateProperty hbt p = .ok q) : p.SameTerms q := by
  unfold allocateProperty at h
  split at h
  · cases h
    exact .refl _
  · split at h
    · split at h
      · cases h
        exact ⟨_, _, _, _, rfl⟩
      · cases h
        exact ⟨_, _, _, _, rfl⟩
    · split at h
      · cases h
        exact .refl _
      · exact catchUp_sameTerms h

theorem catchUp_error {e : Exception} (h : catchUp hbt rounds p = .error e) : e = .diverges := by
  induction rounds generalizing p with
  | zero => cases h; rfl
  | succ rounds ih =>
    rw [catchUp] at h
    split at h
    · exact ih h
    · cases h

theorem allocateProperty_error {e : Exception} (h : allocateProperty hbt p = .error e) :
    e = .diverges := by
  unfold allocateProperty at h
  split at h
  · cases h
  · split at h
    · split at h <;> cases h
    · split at h
      · cases h
      · exact catchUp_error h

theorem allocateProperty_catchUp (hlive : p.expired = false) (hbefore : hbt < p.approvalEndDate)
    (hphase : hbt ≤ p.initialEndDate ∨ p.approvalDate ≠ none)
    (hlast : p.approvalEndDate ≤ lastMinute) (haligned : p.nextAllocationDate % 60 = 0)
    (hi : p.initialCounter ≤ p.initialCounterMax) (ha : p.approvalCounter ≤ p.approvalCounterMax) :
    allocateProperty hbt p = .ok (p.allocateIntervals (p.intervalsDue hbt)) := by
  have hskip : ¬(hbt > p.initialEndDate ∧ p.approvalDate.isNone) := by
    rintro ⟨hover, hnone⟩
    rcases hphase with hin | hsome
    · omega
    · exact hsome (Option.isNone_iff_eq_none.mp hnone)
  unfold allocateProperty
  rw [hlive, if_neg (by decide), if_neg (by omega), if_neg hskip]
  refine catchUp_eq (by omega) haligned hi ha ?_
  unfold PropertyObject.intervalsDue lastMinute at *
  split <;> omega

theorem allocateProperty_cases (hp : p.Sound now) (hle : now ≤ hbt) :
    p.expired = true ∧ allocateProperty hbt p = .ok p ∨
    p.expired = false ∧ p.approvalEndDate ≤ hbt ∧ p.approvalDate = none ∧
      allocateProperty hbt p =
        .ok { p with expired := true, initialCounter := 0, approvalCounter := 0 } ∨
    p.expired = false ∧ p.approvalEndDate ≤ hbt ∧ p.approvalDate ≠ none ∧
      allocateProperty hbt p = .ok { p with
        expired := true
        initialCounter := p.initialCounterMax
        approvalCounter := p.approvalCounterMax } ∨
    p.expired = false ∧ hbt < p.approvalEndDate ∧ p.initialEndDate < hbt ∧
      p.approvalDate = none ∧ allocateProperty hbt p = .ok p ∨
    p.expired = false ∧ hbt < p.approvalEndDate ∧ (hbt ≤ p.initialEndDate ∨ p.approvalDate ≠ none) ∧
      p.nextAllocationDate % 60 = 0 ∧
      allocateProperty hbt p = .ok (p.allocateIntervals (p.intervalsDue hbt)) := by
  unfold allocateProperty
  by_cases hexpired : p.expired = true
  · exact .inl ⟨hexpired, if_pos hexpired⟩
  rw [if_neg hexpired]
  have hlive : p.expired = false := by simpa using hexpired
  by_cases hend : hbt ≥ p.approvalEndDate
  · rw [if_pos hend]
    by_cases hnone : p.approvalDate = none
    · rw [hnone]
      exact .inr (.inl ⟨hlive, hend, rfl, rfl⟩)
    · rw [if_neg (by rwa [Option.isNone_iff_eq_none])]
      exact .inr (.inr (.inl ⟨hlive, hend, hnone, rfl⟩))
  · rw [if_neg hend]
    have hbefore : hbt < p.approvalEndDate := not_le.mp hend
    by_cases hskip : hbt > p.initialEndDate ∧ p.approvalDate.isNone
    · rw [if_pos hskip]
      exact .inr (.inr (.inr (.inl
        ⟨hlive, hbefore, hskip.1, Option.isNone_iff_eq_none.mp hskip.2, rfl⟩)))
    · rw [if_neg hskip]
      have hphase : hbt ≤ p.initialEndDate ∨ p.approvalDate ≠ none := by
        by_contra hcon
        push Not at hcon
        exact hskip ⟨hcon.1, Option.isNone_iff_eq_none.mpr hcon.2⟩
      have haligned : p.nextAllocationDate % 60 = 0 := by
        rcases hp.nextAllocation_aligned with h | ⟨hnone, hover⟩
        · exact h
        · rcases hphase with hin | hsome
          · exact absurd hover (by omega)
          · exact absurd hnone hsome
      have hcaught := allocateProperty_catchUp hlive hbefore hphase hp.approvalEndDate_le haligned
        hp.initial_le hp.approval_le
      unfold allocateProperty at hcaught
      rw [if_neg hexpired, if_neg hend, if_neg hskip] at hcaught
      exact .inr (.inr (.inr (.inr ⟨hlive, hbefore, hphase, haligned, hcaught⟩)))

theorem allocateProperty_sound (hp : p.Sound now) (hle : now ≤ hbt)
    (h : allocateProperty hbt p = .ok q) : q.Sound hbt := by
  have haligned : p.nextAllocationDate % 60 = 0 ∨ p.approvalDate = none ∧ p.initialEndDate < hbt :=
    hp.nextAllocation_aligned.imp id fun ⟨hnone, hlt⟩ => ⟨hnone, by omega⟩
  have hpast : p.expired = true → p.approvalEndDate ≤ hbt := fun he => by
    have := hp.expired_past he
    omega
  rcases allocateProperty_cases hp hle with ⟨_, heq⟩ | ⟨_, hend, hnone, heq⟩ |
    ⟨_, hend, hsome, heq⟩ | ⟨_, _, _, _, heq⟩ | ⟨hlive, hbefore, hphase, hal, heq⟩ <;>
    rw [heq] at h <;> cases h
  · exact ⟨hp.toCountersSound, hp.approvalEndDate_le, haligned, hpast, hp.expired_counters⟩
  · exact ⟨⟨hp.initialMax_pos, hp.initialMax_le, hp.approvalMax_le, Nat.zero_le _, Nat.zero_le _,
      .inl rfl, fun _ => rfl⟩, hp.approvalEndDate_le, haligned, fun _ => hend,
      fun _ => .inr ⟨hnone, rfl, rfl⟩⟩
  · exact ⟨⟨hp.initialMax_pos, hp.initialMax_le, hp.approvalMax_le, le_refl _, le_refl _,
      .inr rfl, fun hnone => absurd hnone hsome⟩, hp.approvalEndDate_le, haligned, fun _ => hend,
      fun _ => .inl ⟨hsome, rfl, rfl⟩⟩
  · exact ⟨hp.toCountersSound, hp.approvalEndDate_le, haligned, hpast, hp.expired_counters⟩
  · refine ⟨⟨hp.initialMax_pos, hp.initialMax_le, hp.approvalMax_le, min_le_left _ _, ?_, ?_, ?_⟩,
      hp.approvalEndDate_le, .inl ?_, fun he => absurd he (by simp [PropertyObject.allocateIntervals, hlive]),
      fun he => absurd he (by simp [PropertyObject.allocateIntervals, hlive])⟩
    · unfold PropertyObject.allocateIntervals
      dsimp only
      split
      · exact min_le_left _ _
      · exact hp.approval_le
    · -- the approval counter only moves with the rounds left over by the initial phase
      unfold PropertyObject.allocateIntervals
      dsimp only
      have hi := hp.initial_le
      rcases hp.phase with h0 | h1
      · rw [h0]
        split <;> omega
      · right
        omega
    · intro hnone
      have hnone' : p.approvalDate = none := hnone
      unfold PropertyObject.allocateIntervals
      dsimp only
      rw [hnone']
      exact hp.unapproved hnone'
    · unfold PropertyObject.allocateIntervals
      dsimp only
      omega

theorem allocateProperty_terminates (hp : p.Sound now) (hle : now ≤ hbt) :
    ∃ q, allocateProperty hbt p = .ok q := by
  rcases allocateProperty_cases hp hle with ⟨_, h⟩ | ⟨_, _, _, h⟩ | ⟨_, _, _, h⟩ | ⟨_, _, _, _, h⟩ |
    ⟨_, _, _, _, h⟩ <;> exact ⟨_, h⟩

theorem allocateProperty_progress (hp : p.Sound now) (hle : now ≤ hbt)
    (h : allocateProperty hbt p = .ok q) :
    p.progress ≤ q.progress ∨
      p.expired = false ∧ q.expired = true ∧ p.approvalDate = none ∧ q.approvalDate = none := by
  rcases allocateProperty_cases hp hle with ⟨_, heq⟩ | ⟨hlive, _, hnone, heq⟩ |
    ⟨_, _, _, heq⟩ | ⟨_, _, _, _, heq⟩ | ⟨_, _, _, _, heq⟩ <;> rw [heq] at h <;> cases h
  · exact .inl (le_refl _)
  · exact .inr ⟨hlive, rfl, hnone, hnone⟩
  · exact .inl (progress_mono rfl rfl hp.initial_le hp.approval_le)
  · exact .inl (le_refl _)
  · refine .inl (progress_mono rfl rfl ?_ ?_)
    · exact le_min hp.initial_le (Nat.le_add_right _ _)
    · unfold PropertyObject.allocateIntervals
      dsimp only
      split
      · exact le_min hp.approval_le (Nat.le_add_right _ _)
      · exact le_refl _

end Meta1Core.Allocation
