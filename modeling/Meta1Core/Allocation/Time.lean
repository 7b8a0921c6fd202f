import Meta1Core.Fc.Exception

/-!
# Allocation times (`allocation.cpp`)

A `time_point_sec` is a `uint32_t` count of seconds, so every sum and difference of times below
wraps at `2^32`.
-/

namespace Meta1Core.Allocation

def u32 (n : Nat) : Nat := n % 2 ^ 32

def u32Sub (a b : Nat) : Nat := (a + 2 ^ 32 - b) % 2 ^ 32

def meta1ReferenceTime : Nat := 0

def meta1IntervalBetweenAllocationSeconds : Nat := 60

def calcNextStartTime (currentTime epoch intervalSeconds : Nat) : Nat :=
  let durationSinceEpochSeconds := u32Sub currentTime epoch
  let intervalsSinceEpoch := durationSinceEpochSeconds / intervalSeconds
  let nextInterval := u32 (intervalsSinceEpoch + 1)
  let durationToNextIntervalSeconds := u32 (nextInterval * intervalSeconds)
  u32 (epoch + durationToNextIntervalSeconds)

def calcPrecedingStartTime (currentTime epoch intervalSeconds : Nat) : Nat :=
  let durationSinceEpochSeconds := u32Sub currentTime epoch
  let intervalsSinceEpoch := durationSinceEpochSeconds / intervalSeconds
  let durationToPrecedingIntervalSeconds := u32 (intervalsSinceEpoch * intervalSeconds)
  u32 (epoch + durationToPrecedingIntervalSeconds)

def calcMeta1NextStartTime (currentTime : Nat) : Nat :=
  calcNextStartTime currentTime meta1ReferenceTime meta1IntervalBetweenAllocationSeconds

def calcMeta1PrecedingStartTime (currentTime : Nat) : Nat :=
  calcPrecedingStartTime currentTime meta1ReferenceTime meta1IntervalBetweenAllocationSeconds

structure AppreciationPeriodParameters where
  timeTo25Percent : Nat
  timeTo25PercentIntervals : Nat
  timeTo100Percent : Nat
  timeTo100PercentIntervals : Nat
  deriving DecidableEq

structure AppreciationRestartParameters where
  restartTime : Nat
  intervalsToEnd : Nat
  deriving DecidableEq

def calcMeta1AllocationInitialParameters (startTime durationSeconds : Nat) :
    Except Exception AppreciationPeriodParameters := do
  let durationSinceReferenceSeconds := u32Sub startTime meta1ReferenceTime
  fcAssert (durationSinceReferenceSeconds % meta1IntervalBetweenAllocationSeconds = 0)
    "remainder_of_intervals_since_reference_time == 0"
  fcAssert (durationSeconds % meta1IntervalBetweenAllocationSeconds = 0)
    "remainder_of_duration == 0"
  let timeTo100PercentIntervals := durationSeconds / meta1IntervalBetweenAllocationSeconds
  return {
    timeTo25Percent := u32 (startTime + durationSeconds / 4)
    timeTo25PercentIntervals := timeTo100PercentIntervals / 4
    timeTo100Percent := u32 (startTime + durationSeconds)
    timeTo100PercentIntervals := timeTo100PercentIntervals }

def calcMeta1AllocationRestartParameters (currentTime endTime : Nat) :
    Except Exception AppreciationRestartParameters := do
  fcAssert (currentTime < endTime) "current_time.sec_since_epoch() < end_time.sec_since_epoch()"
  let restartTime := calcMeta1PrecedingStartTime currentTime
  let durationSeconds := u32Sub endTime restartTime
  return {
    restartTime := restartTime
    intervalsToEnd := durationSeconds / meta1IntervalBetweenAllocationSeconds }

theorem u32_of_lt {n : Nat} (h : n < 2 ^ 32) : u32 n = n := Nat.mod_eq_of_lt h

theorem u32_of_wrap {n : Nat} (hlo : 2 ^ 32 ≤ n) (hhi : n < 2 ^ 33) : u32 n = n - 2 ^ 32 := by
  unfold u32
  rw [Nat.mod_eq_sub_mod hlo]
  exact Nat.mod_eq_of_lt (by omega)

theorem u32_lt (n : Nat) : u32 n < 2 ^ 32 := Nat.mod_lt _ (by decide)

theorem u32Sub_of_le {a b : Nat} (ha : a < 2 ^ 32) (hb : b ≤ a) : u32Sub a b = a - b := by
  have hrw : a + 2 ^ 32 - b = a - b + 2 ^ 32 := by omega
  unfold u32Sub
  rw [hrw, Nat.add_mod_right]
  exact Nat.mod_eq_of_lt (by omega)

theorem calcMeta1PrecedingStartTime_eq (now : Nat) (hnow : now < 2 ^ 32) :
    calcMeta1PrecedingStartTime now = now / 60 * 60 := by
  unfold calcMeta1PrecedingStartTime calcPrecedingStartTime meta1ReferenceTime
    meta1IntervalBetweenAllocationSeconds
  dsimp only
  have hle : now / 60 * 60 ≤ now := Nat.div_mul_le_self now 60
  have hlt : now / 60 * 60 < 2 ^ 32 := by omega
  rw [u32Sub_of_le hnow (Nat.zero_le _), Nat.sub_zero, u32_of_lt hlt, Nat.zero_add, u32_of_lt hlt]

theorem calcMeta1NextStartTime_eq (now : Nat) (hnow : now < 2 ^ 32) :
    calcMeta1NextStartTime now = u32 ((now / 60 + 1) * 60) := by
  unfold calcMeta1NextStartTime calcNextStartTime meta1ReferenceTime
    meta1IntervalBetweenAllocationSeconds
  dsimp only
  rw [u32Sub_of_le hnow (Nat.zero_le _), Nat.sub_zero, u32_of_lt (n := now / 60 + 1) (by omega),
    Nat.zero_add, u32_of_lt (u32_lt _)]

theorem calcMeta1NextStartTime_of_aligned (now : Nat) (hnow : now < 2 ^ 32)
    (haligned : calcMeta1NextStartTime now % 60 = 0) :
    calcMeta1NextStartTime now = (now / 60 + 1) * 60 ∧ (now / 60 + 1) * 60 < 2 ^ 32 := by
  rw [calcMeta1NextStartTime_eq now hnow] at *
  by_cases hwrap : (now / 60 + 1) * 60 < 2 ^ 32
  · exact ⟨u32_of_lt hwrap, hwrap⟩
  · have hlast : now / 60 = 71582788 := by omega
    rw [hlast] at haligned
    exact absurd haligned (by decide)

theorem calcMeta1AllocationInitialParameters_ok {startTime durationSeconds : Nat}
    {period : AppreciationPeriodParameters} (hstart : startTime < 2 ^ 32)
    (h : calcMeta1AllocationInitialParameters startTime durationSeconds = .ok period) :
    startTime % 60 = 0 ∧ durationSeconds % 60 = 0 ∧
      period = ⟨u32 (startTime + durationSeconds / 4), durationSeconds / 60 / 4,
        u32 (startTime + durationSeconds), durationSeconds / 60⟩ := by
  unfold calcMeta1AllocationInitialParameters at h
  obtain ⟨hs, hrest⟩ := of_fcAssert h
  obtain ⟨hd, hperiod⟩ := of_fcAssert hrest
  rw [meta1ReferenceTime, u32Sub_of_le hstart (Nat.zero_le _)] at hs
  refine ⟨hs, hd, ?_⟩
  cases hperiod
  rfl

theorem calcMeta1AllocationRestartParameters_ok {now endTime : Nat}
    {restart : AppreciationRestartParameters} (hnow : now < 2 ^ 32) (hend : endTime < 2 ^ 32)
    (h : calcMeta1AllocationRestartParameters now endTime = .ok restart) :
    now < endTime ∧ restart = ⟨now / 60 * 60, (endTime - now / 60 * 60) / 60⟩ := by
  unfold calcMeta1AllocationRestartParameters at h
  obtain ⟨hlt, hrestart⟩ := of_fcAssert h
  refine ⟨hlt, ?_⟩
  rw [calcMeta1PrecedingStartTime_eq now hnow] at hrestart
  cases hrestart
  rw [u32Sub_of_le hend (by omega)]
  rfl

end Meta1Core.Allocation
