import Meta1Core.Allocation.Steps

/-!
# The dates of a new property

The duration is converted to seconds with an overflow check, but it is added to the start time
without one.
-/

namespace Meta1Core.Allocation

def allocationInstants (creationDate lo hi : Nat) : Finset Nat :=
  (Finset.Ioc lo hi).filter fun t =>
    creationDate ≤ t ∧ (t - creationDate) % meta1IntervalBetweenAllocationSeconds = 0

theorem card_allocationInstants (creationDate a b : Nat) :
    (allocationInstants creationDate (creationDate + 60 * a) (creationDate + 60 * b)).card = b - a := by
  have himage : allocationInstants creationDate (creationDate + 60 * a) (creationDate + 60 * b) =
      (Finset.Ioc a b).image fun n => creationDate + 60 * n := by
    ext t
    unfold allocationInstants meta1IntervalBetweenAllocationSeconds
    rw [Finset.mem_filter, Finset.mem_image, Finset.mem_Ioc]
    constructor
    · intro ⟨⟨hlo, hhi⟩, hle, hmod⟩
      refine ⟨(t - creationDate) / 60, ?_, by omega⟩
      rw [Finset.mem_Ioc]
      omega
    · intro ⟨n, hn, heq⟩
      rw [Finset.mem_Ioc] at hn
      omega
  have hinj : Function.Injective fun n => creationDate + 60 * n := by
    intro m n hmn
    dsimp only at hmn
    omega
  rw [himage, Finset.card_image_of_injective _ hinj, Nat.card_Ioc]

structure PropertyObject.WellOrdered (p : PropertyObject) : Prop where
  creationDate_lt : p.creationDate < p.initialEndDate
  initialEndDate_lt : p.initialEndDate < p.approvalEndDate
  lt_nextAllocationDate : p.creationDate < p.nextAllocationDate
  nextAllocationDate_le : p.nextAllocationDate ≤ p.initialEndDate
  initialCounterMax_pos : 0 < p.initialCounterMax
  approvalCounterMax_pos : 0 < p.approvalCounterMax
  initialCounterMax_eq :
    p.initialCounterMax = (allocationInstants p.creationDate p.creationDate p.initialEndDate).card
  approvalCounterMax_eq :
    p.approvalCounterMax = (allocationInstants p.creationDate p.initialEndDate p.approvalEndDate).card

/-- The dates and counters are what they are without any wrapping. -/
structure PropertyObject.Unwrapped (now minutes : Nat) (p : PropertyObject) : Prop where
  creationDate : p.creationDate = meta1ReferenceTime + ((now - meta1ReferenceTime) / 60 + 1) * 60
  nextAllocationDate : p.nextAllocationDate = p.creationDate + 60
  initialEndDate : p.initialEndDate = p.creationDate + minutes * 60 / 4
  approvalEndDate : p.approvalEndDate = p.creationDate + minutes * 60
  initialCounterMax : p.initialCounterMax = minutes / 4
  approvalCounterMax : p.initialCounterMax + p.approvalCounterMax = minutes

section

variable {now minutes : Nat} {p : PropertyObject}

theorem PropertyObject.FreshSchedule.wellOrdered (hp : p.FreshSchedule minutes ((now / 60 + 1) * 60))
    (hmin : 4 ≤ minutes) (hmod : minutes % 4 = 0) (hfits : (now / 60 + 1) * 60 + minutes * 60 < 2 ^ 32) :
    p.WellOrdered ∧ p.Unwrapped now minutes := by
  obtain ⟨k, hk⟩ : ∃ k, minutes = 4 * k := ⟨minutes / 4, by omega⟩
  have hcreation := hp.creationDate
  have hnext : p.nextAllocationDate = p.creationDate + 60 := by
    rw [hp.nextAllocationDate, hcreation, u32_of_lt (by omega)]
  have hinitial : p.initialEndDate = p.creationDate + 60 * k := by
    rw [hp.initialEndDate, hcreation, u32_of_lt (by omega)]
    omega
  have happroval : p.approvalEndDate = p.creationDate + 60 * (4 * k) := by
    rw [hp.approvalEndDate, hcreation, u32_of_lt (by omega)]
    omega
  have hI : p.initialCounterMax = k := by
    rw [hp.initialCounterMax]
    omega
  have hA : p.approvalCounterMax = 4 * k - k := by
    rw [hp.approvalCounterMax]
    omega
  have hinstants := card_allocationInstants p.creationDate 0 k
  rw [Nat.mul_zero, Nat.add_zero] at hinstants
  constructor
  · constructor
    · omega
    · omega
    · omega
    · omega
    · omega
    · omega
    · rw [hI, hinitial, hinstants, Nat.sub_zero]
    · rw [hA, hinitial, happroval, card_allocationInstants]
  · constructor
    · rw [hcreation, meta1ReferenceTime, Nat.zero_add, Nat.sub_zero]
    · exact hnext
    · omega
    · omega
    · exact hp.initialCounterMax
    · omega

theorem PropertyObject.FreshSchedule.fits (hp : p.FreshSchedule minutes ((now / 60 + 1) * 60))
    (hnow : (now / 60 + 1) * 60 < 2 ^ 32) (hminutes : minutes * 60 < 2 ^ 32) (hordered : p.WellOrdered) :
    (now / 60 + 1) * 60 + minutes * 60 < 2 ^ 32 := by
  by_contra hwraps
  have hcreation := hp.creationDate
  have happroval := hp.approvalEndDate
  rw [u32_of_wrap (by omega) (by omega)] at happroval
  have hinitial := hp.initialEndDate
  have hlt := hordered.creationDate_lt
  have hlt' := hordered.initialEndDate_lt
  by_cases hfits : (now / 60 + 1) * 60 + minutes * 15 < 2 ^ 32
  · rw [u32_of_lt hfits] at hinitial
    omega
  · rw [u32_of_wrap (by omega) (by omega)] at hinitial
    omega

end

/-- The dates of a new property are in order just if the schedule ends before `2^32`. -/
theorem propertyCreate_dates {s s' : ChainState} {op : PropertyCreateOperation}
    (hnow : s.headBlockTime < 2 ^ 31) (h : applyEvent s (.propertyCreate op) = .ok s') :
    ∃ p, s'.properties = s.properties ++ [p] ∧
      (p.WellOrdered ∧ p.Unwrapped s.headBlockTime op.allocationDurationMinutes.toNat ↔
        calcMeta1NextStartTime s.headBlockTime + op.allocationDurationMinutes.toNat * 60 < 2 ^ 32) := by
  have htime : s.headBlockTime < 2 ^ 32 := by omega
  obtain ⟨hvalid, -, p, hp, rfl⟩ := propertyCreate_ok h
  obtain ⟨hmin, hmod⟩ := PropertyCreateOperation.validate_ok hvalid
  obtain ⟨hseconds, hstart, -, -, -, -, hfresh⟩ := createProperty_ok htime hp
  refine ⟨p, rfl, ?_⟩
  rw [calcMeta1NextStartTime_eq _ htime, u32_of_lt hstart]
  constructor
  · intro hboth
    exact hfresh.fits hstart hseconds hboth.1
  · intro hfits
    exact hfresh.wellOrdered hmin hmod hfits

def limitedGenesis : ChainState :=
  { testGenesis 1600000000 with
    assetLimitations := [⟨0, "META1", 0, 0⟩]
    nextAssetLimitationId := 1 }

theorem propertyCreate_dates_week :
    ∃ s' p, applyEvent limitedGenesis (testProperty 1 1000000000 10080 "META1") = .ok s' ∧
      s'.properties = [p] ∧ p.WellOrdered := by
  have hstep : Lib.Succeeds (applyEvent limitedGenesis (testProperty 1 1000000000 10080 "META1"))
      fun _ => True := by decide +kernel
  obtain ⟨s', hs', -⟩ := hstep
  obtain ⟨p, hproperties, hiff⟩ := propertyCreate_dates (by decide) hs'
  exact ⟨s', p, hs', hproperties, (hiff.mpr (by decide +kernel)).1⟩

/-- The longest duration that the check on the seconds lets pass: the approval end date has wrapped. -/
theorem propertyCreate_wrapped :
    limitedGenesis.headBlockTime < 2 ^ 31 ∧
      ∃ s' p, applyEvent limitedGenesis (testProperty 1 1000000000 71582788 "META1") = .ok s' ∧
        p ∈ s'.properties ∧ ¬p.WellOrdered := by
  have hstep : Lib.Succeeds (applyEvent limitedGenesis (testProperty 1 1000000000 71582788 "META1"))
      fun s' => ∃ p ∈ s'.properties, p.approvalEndDate < p.initialEndDate := by decide +kernel
  obtain ⟨s', hs', p, hp, hlt⟩ := hstep
  exact ⟨by decide, s', p, hs', hp, fun hordered => absurd hordered.initialEndDate_lt hlt.not_gt⟩

end Meta1Core.Allocation
