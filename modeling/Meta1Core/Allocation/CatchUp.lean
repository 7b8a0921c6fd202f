import Meta1Core.Allocation.Schedule

/-!
# One property through a sequence of blocks

The catch-up loop makes up for blocks that were missed, once it runs.  For an unapproved property it
does not run after the initial end date: the test that skips such a property comes first.
-/

namespace Meta1Core.Allocation

def allocateBlocks (p : PropertyObject) (ts : List Nat) : Except Exception PropertyObject :=
  Lib.run (fun p t => allocateProperty t p) p ts

variable {ts : List Nat} {c t u : Nat}

theorem allocateBlocks_concat_eq_ok {p q : PropertyObject} :
    allocateBlocks p (ts ++ [t]) = .ok q ↔
      ∃ r, allocateBlocks p ts = .ok r ∧ allocateProperty t r = .ok q := by
  unfold allocateBlocks
  rw [Lib.run_append_eq_ok]
  constructor
  · rintro ⟨r, hr, hlast⟩
    obtain ⟨q', hq', hnil⟩ := Lib.run_cons_eq_ok.mp hlast
    cases hnil
    exact ⟨r, hr, hq'⟩
  · rintro ⟨r, hr, hlast⟩
    exact ⟨r, hr, Lib.run_cons_eq_ok.mpr ⟨q, hlast, rfl⟩⟩

/-- The whole intervals up to the last of the blocks that is not later than the initial end date -/
def PropertyObject.coveredBy (p : PropertyObject) (ts : List Nat) : Nat :=
  ((ts.filter (· ≤ p.initialEndDate)).getLast?.getD 0 - p.creationDate) / 60

theorem coveredBy_concat (p : PropertyObject) (ts : List Nat) (t : Nat) :
    p.coveredBy (ts ++ [t]) =
      if t ≤ p.initialEndDate then (t - p.creationDate) / 60 else p.coveredBy ts := by
  unfold PropertyObject.coveredBy
  rw [List.filter_append]
  by_cases ht : t ≤ p.initialEndDate
  · simp [ht]
  · simp [ht]

theorem lastCovered_mem (ts : List Nat) (bound : Nat) :
    (ts.filter (· ≤ bound)).getLast?.getD 0 = 0 ∨
      (ts.filter (· ≤ bound)).getLast?.getD 0 ∈ ts ∧
        (ts.filter (· ≤ bound)).getLast?.getD 0 ≤ bound := by
  cases h : (ts.filter (· ≤ bound)).getLast? with
  | none => exact .inl rfl
  | some t =>
    obtain ⟨hmem, hle⟩ := List.mem_filter.mp (List.mem_of_getLast? h)
    exact .inr ⟨hmem, by simpa using hle⟩

theorem coveredBy_le {p : PropertyObject} (h : ∀ u ∈ ts, u ≤ t) :
    p.coveredBy ts ≤ (t - p.creationDate) / 60 := by
  unfold PropertyObject.coveredBy
  rcases lastCovered_mem ts p.initialEndDate with hzero | ⟨hmem, -⟩
  · rw [hzero]
    omega
  · have := h _ hmem
    omega

theorem le_coveredBy {p : PropertyObject} (hchain : ts.Pairwise (· < ·)) (hu : u ∈ ts)
    (hin : u ≤ p.initialEndDate) :
    (u - p.creationDate) / 60 ≤ p.coveredBy ts := by
  induction ts using List.reverseRecOn with
  | nil => cases hu
  | append_singleton ts t ih =>
    rw [List.pairwise_append] at hchain
    obtain ⟨hts, -, hlt⟩ := hchain
    rw [coveredBy_concat]
    rcases List.mem_append.mp hu with hu | hu
    · have := hlt u hu t (List.mem_singleton_self t)
      split
      · omega
      · exact ih hts hu
    · rw [List.mem_singleton.mp hu] at hin ⊢
      rw [if_pos hin]

/-! ## Increasing block times -/

theorem pairwise_init {now : Nat} (h : (now :: (ts ++ [t])).Pairwise (· < ·)) :
    (now :: ts).Pairwise (· < ·) := by
  rw [← List.cons_append, List.pairwise_append] at h
  exact h.1

theorem lt_concat {now : Nat} (h : (now :: (ts ++ [t])).Pairwise (· < ·)) (hu : u ∈ now :: ts) :
    u < t := by
  rw [← List.cons_append, List.pairwise_append] at h
  exact h.2.2 u hu t (List.mem_singleton_self t)

theorem last_mem (now : Nat) (ts : List Nat) : ts.getLast?.getD now ∈ now :: ts := by
  cases h : ts.getLast? with
  | none => exact List.mem_cons_self
  | some u => exact List.mem_cons_of_mem _ (List.mem_of_getLast? h)

theorem last_lt_concat {now : Nat} (h : (now :: (ts ++ [t])).Pairwise (· < ·)) :
    ts.getLast?.getD now < t :=
  lt_concat h (last_mem now ts)

theorem le_last {now : Nat} (h : (now :: ts).Pairwise (· < ·)) (hu : u ∈ now :: ts) :
    u ≤ ts.getLast?.getD now := by
  induction ts using List.reverseRecOn with
  | nil => exact (List.mem_singleton.mp hu).le
  | append_singleton ts t _ =>
    rw [List.getLast?_concat, Option.getD_some]
    rcases List.mem_append.mp (List.cons_append .. ▸ hu : u ∈ (now :: ts) ++ [t]) with hu | hu
    · exact (lt_concat h hu).le
    · exact (List.mem_singleton.mp hu).le

theorem allocateProperty_idle {p : PropertyObject} (hlive : p.expired = false)
    (hbefore : t < p.approvalEndDate)
    (hidle : t < p.nextAllocationDate ∨ p.initialEndDate < t ∧ p.approvalDate = none) :
    allocateProperty t p = .ok p := by
  unfold allocateProperty
  rw [hlive, if_neg (by decide), if_neg (by omega)]
  by_cases hskip : t > p.initialEndDate ∧ p.approvalDate.isNone
  · exact if_pos hskip
  · rw [if_neg hskip]
    rcases hidle with hnext | ⟨hover, hnone⟩
    · rw [show (2 ^ 32 : Nat) = (2 ^ 32 - 1) + 1 from rfl, catchUp, if_neg (by omega)]
    · exact absurd ⟨hover, Option.isNone_iff_eq_none.mpr hnone⟩ hskip

theorem allocateBlocks_idle {p : PropertyObject} (hlive : p.expired = false)
    (hidle : ∀ t ∈ ts, t < p.approvalEndDate ∧
      (t < p.nextAllocationDate ∨ p.initialEndDate < t ∧ p.approvalDate = none)) :
    allocateBlocks p ts = .ok p := by
  induction ts with
  | nil => rfl
  | cons t ts ih =>
    obtain ⟨hbefore, h⟩ := hidle t List.mem_cons_self
    refine Lib.run_cons_eq_ok.mpr ⟨p, allocateProperty_idle hlive hbefore h, ?_⟩
    exact ih fun u hu => hidle u (List.mem_cons_of_mem _ hu)

def PropertyObject.afterIntervals (p : PropertyObject) (c : Nat) : PropertyObject :=
  { p with initialCounter := c, nextAllocationDate := u32 (p.creationDate + 60 * (c + 1)) }

structure PropertyObject.Fresh (p : PropertyObject) : Prop where
  approvalDate : p.approvalDate = none
  expired : p.expired = false
  initialCounter : p.initialCounter = 0
  approvalCounter : p.approvalCounter = 0
  nextAllocationDate : p.nextAllocationDate = u32 (p.creationDate + 60)
  creation_aligned : p.creationDate % 60 = 0
  initialEndDate : p.initialEndDate = p.creationDate + 60 * p.initialCounterMax
  initialEnd_lt : p.initialEndDate + 60 ≤ p.approvalEndDate
  approvalEndDate_le : p.approvalEndDate ≤ lastMinute

theorem afterIntervals_zero {p : PropertyObject} (hi : p.initialCounter = 0)
    (hnext : p.nextAllocationDate = u32 (p.creationDate + 60)) : p.afterIntervals 0 = p := by
  unfold PropertyObject.afterIntervals
  rw [← hnext, ← hi]

theorem afterIntervals_next {p : PropertyObject} (hp : p.Fresh) (hc : c ≤ p.initialCounterMax) :
    (p.afterIntervals c).nextAllocationDate = p.creationDate + 60 * (c + 1) := by
  have hdates := hp.initialEndDate
  have hlt := hp.initialEnd_lt
  have hlast := hp.approvalEndDate_le
  unfold lastMinute at hlast
  exact u32_of_lt (by omega)

theorem allocateProperty_initial {p : PropertyObject} (hp : p.Fresh) (hc : c ≤ p.initialCounterMax)
    (hreached : c ≤ (t - p.creationDate) / 60) (hbefore : t < p.approvalEndDate) :
    allocateProperty t (p.afterIntervals c) = .ok (p.afterIntervals
      (if t ≤ p.initialEndDate then (t - p.creationDate) / 60 else c)) := by
  by_cases hin : t ≤ p.initialEndDate
  · have hend := hp.initialEndDate
    have haligned := hp.creation_aligned
    have hnext := afterIntervals_next hp hc
    have hcount : c + (p.afterIntervals c).intervalsDue t = (t - p.creationDate) / 60 := by
      unfold PropertyObject.intervalsDue
      rw [hnext]
      split <;> omega
    have hdate : p.creationDate + 60 * (c + 1) + 60 * (p.afterIntervals c).intervalsDue t =
        (p.afterIntervals ((t - p.creationDate) / 60)).nextAllocationDate := by
      rw [afterIntervals_next hp (by omega)]
      omega
    have hmin : min p.initialCounterMax (c + (p.afterIntervals c).intervalsDue t) =
        (t - p.creationDate) / 60 := by omega
    rw [if_pos hin, allocateProperty_catchUp (p := p.afterIntervals c) hp.expired hbefore
      (.inl hin) hp.approvalEndDate_le (by rw [hnext]; omega) hc
      (by unfold PropertyObject.afterIntervals; dsimp only; rw [hp.approvalCounter]; omega)]
    unfold PropertyObject.allocateIntervals
    rw [hnext, hdate]
    generalize (p.afterIntervals c).intervalsDue t = k at *
    unfold PropertyObject.afterIntervals
    simp only [hp.approvalDate, Option.isSome_none, Bool.false_eq_true, if_false, hmin]
  · rw [if_neg hin]
    exact allocateProperty_idle hp.expired hbefore
      (.inr ⟨not_le.mp hin, hp.approvalDate⟩)

theorem allocateBlocks_initial {p : PropertyObject} (hp : p.Fresh) (hchain : ts.Pairwise (· < ·))
    (hbefore : ∀ t ∈ ts, t < p.approvalEndDate) :
    allocateBlocks p ts = .ok (p.afterIntervals (p.coveredBy ts)) ∧
      p.coveredBy ts ≤ p.initialCounterMax := by
  induction ts using List.reverseRecOn with
  | nil =>
    have hzero : p.coveredBy [] = 0 := by simp [PropertyObject.coveredBy]
    rw [hzero, afterIntervals_zero hp.initialCounter hp.nextAllocationDate]
    exact ⟨rfl, Nat.zero_le _⟩
  | append_singleton ts t ih =>
    rw [List.pairwise_append] at hchain
    obtain ⟨hts, -, hlt⟩ := hchain
    have hlast : ∀ u ∈ ts, u < t := fun u hu => hlt u hu t (List.mem_singleton_self t)
    obtain ⟨hearlier, hle⟩ := ih hts fun u hu => hbefore u (List.mem_append_left _ hu)
    have ht := hbefore t (List.mem_append_right _ (List.mem_singleton_self t))
    have hstep := allocateProperty_initial hp hle (coveredBy_le fun u hu => (hlast u hu).le) ht
    rw [coveredBy_concat]
    refine ⟨allocateBlocks_concat_eq_ok.mpr ⟨_, hearlier, hstep⟩, ?_⟩
    have hend := hp.initialEndDate
    split
    · omega
    · exact hle

theorem allocateIntervals_add {p : PropertyObject} {j k : Nat}
    (hi : p.initialCounter ≤ p.initialCounterMax) (ha : p.approvalCounter ≤ p.approvalCounterMax) :
    (p.allocateIntervals j).allocateIntervals k = p.allocateIntervals (j + k) := by
  have hdate : p.nextAllocationDate + 60 * j + 60 * k = p.nextAllocationDate + 60 * (j + k) := by
    omega
  have hinitial : min p.initialCounterMax (min p.initialCounterMax (p.initialCounter + j) + k) =
      min p.initialCounterMax (p.initialCounter + (j + k)) := by omega
  have happroval : min p.approvalCounterMax (min p.approvalCounterMax
        (p.approvalCounter + (j - (p.initialCounterMax - p.initialCounter))) +
        (k - (p.initialCounterMax - min p.initialCounterMax (p.initialCounter + j)))) =
      min p.approvalCounterMax
        (p.approvalCounter + (j + k - (p.initialCounterMax - p.initialCounter))) := by omega
  unfold PropertyObject.allocateIntervals
  dsimp only
  rw [hdate, hinitial]
  by_cases hsome : p.approvalDate.isSome
  · rw [if_pos hsome, if_pos hsome, if_pos hsome, happroval]
  · rw [if_neg hsome, if_neg hsome, if_neg hsome]

theorem intervalsDue_add {p : PropertyObject} (hle : t ≤ u) :
    p.intervalsDue t + (p.allocateIntervals (p.intervalsDue t)).intervalsDue u =
      p.intervalsDue u := by
  have hnext : (p.allocateIntervals (p.intervalsDue t)).nextAllocationDate =
      p.nextAllocationDate + 60 * p.intervalsDue t := rfl
  have hdue : ∀ v, (p.allocateIntervals (p.intervalsDue t)).intervalsDue v =
      if v < p.nextAllocationDate + 60 * p.intervalsDue t then 0
      else (v - (p.nextAllocationDate + 60 * p.intervalsDue t)) / 60 + 1 := fun v => by
    rw [PropertyObject.intervalsDue, hnext]
  rw [hdue]
  unfold PropertyObject.intervalsDue
  split <;> split <;> split <;> omega

theorem allocateBlocks_approved {p : PropertyObject} {now : Nat} (hsome : p.approvalDate ≠ none)
    (hlive : p.expired = false) (hlast : p.approvalEndDate ≤ lastMinute)
    (haligned : p.nextAllocationDate % 60 = 0) (hi : p.initialCounter ≤ p.initialCounterMax)
    (ha : p.approvalCounter ≤ p.approvalCounterMax) (hnow : p.intervalsDue now = 0)
    (hchain : (now :: ts).Pairwise (· < ·)) (hbefore : ∀ t ∈ ts, t < p.approvalEndDate) :
    allocateBlocks p ts = .ok (p.allocateIntervals (p.intervalsDue (ts.getLast?.getD now))) := by
  induction ts using List.reverseRecOn with
  | nil =>
    rw [List.getLast?_nil, Option.getD_none, hnow, allocateIntervals_zero hi ha]
    rfl
  | append_singleton ts t ih =>
    have hearlier := ih (pairwise_init hchain) fun u hu => hbefore u (List.mem_append_left _ hu)
    have ht := hbefore t (List.mem_append_right _ (List.mem_singleton_self t))
    have hle := (last_lt_concat hchain).le
    generalize ts.getLast?.getD now = u at *
    refine allocateBlocks_concat_eq_ok.mpr ⟨_, hearlier, ?_⟩
    have hnext : (p.allocateIntervals (p.intervalsDue u)).nextAllocationDate % 60 = 0 := by
      unfold PropertyObject.allocateIntervals
      dsimp only
      omega
    have hcounter : (p.allocateIntervals (p.intervalsDue u)).approvalCounter ≤
        p.approvalCounterMax := by
      unfold PropertyObject.allocateIntervals
      dsimp only
      split
      · exact min_le_left _ _
      · exact ha
    rw [allocateProperty_catchUp (p := p.allocateIntervals (p.intervalsDue u)) hlive ht
      (.inr hsome) hlast hnext (min_le_left _ _) hcounter, allocateIntervals_add hi ha,
      intervalsDue_add hle]
    simp

theorem allocateProperty_settled {now : Nat} {p q : PropertyObject} (hp : p.Sound now)
    (hle : now ≤ t) (hend : p.approvalEndDate ≤ t) (h : allocateProperty t p = .ok q) :
    q.expired = true ∧
      q.initialCounter = (if p.approvalDate = none then 0 else p.initialCounterMax) ∧
      q.approvalCounter = (if p.approvalDate = none then 0 else p.approvalCounterMax) := by
  rcases allocateProperty_cases hp hle with ⟨he, heq⟩ | ⟨_, _, hnone, heq⟩ | ⟨_, _, hsome, heq⟩ |
    ⟨_, hlt, _⟩ | ⟨_, hlt, _⟩
  · rw [heq] at h
    cases h
    rcases hp.expired_counters he with ⟨hsome, hi, ha⟩ | ⟨hnone, hi, ha⟩
    · exact ⟨he, by rw [if_neg hsome, hi], by rw [if_neg hsome, ha]⟩
    · exact ⟨he, by rw [if_pos hnone, hi], by rw [if_pos hnone, ha]⟩
  · rw [heq] at h
    cases h
    exact ⟨rfl, (if_pos hnone).symm, (if_pos hnone).symm⟩
  · rw [heq] at h
    cases h
    exact ⟨rfl, (if_neg hsome).symm, (if_neg hsome).symm⟩
  · omega
  · omega

theorem allocateBlocks_sound {now : Nat} {p q : PropertyObject} (hp : p.Sound now)
    (hchain : (now :: ts).Pairwise (· < ·)) (h : allocateBlocks p ts = .ok q) :
    q.Sound (ts.getLast?.getD now) ∧ p.SameTerms q := by
  induction ts using List.reverseRecOn generalizing q with
  | nil =>
    cases h
    exact ⟨hp, .refl _⟩
  | append_singleton ts t ih =>
    obtain ⟨r, hr, hlast⟩ := allocateBlocks_concat_eq_ok.mp h
    obtain ⟨hsound, hterms⟩ := ih (pairwise_init hchain) hr
    rw [List.getLast?_concat, Option.getD_some]
    exact ⟨allocateProperty_sound hsound (last_lt_concat hchain).le hlast,
      hterms.trans (allocateProperty_sameTerms hlast)⟩

theorem allocateBlocks_settled {now : Nat} {p q : PropertyObject} (hp : p.Sound now)
    (hchain : (now :: ts).Pairwise (· < ·)) (h : allocateBlocks p ts = .ok q) (hne : ts ≠ [])
    (hend : p.approvalEndDate ≤ ts.getLast?.getD now) :
    q.expired = true ∧
      q.initialCounter = (if p.approvalDate = none then 0 else p.initialCounterMax) ∧
      q.approvalCounter = (if p.approvalDate = none then 0 else p.approvalCounterMax) := by
  induction ts using List.reverseRecOn with
  | nil => exact absurd rfl hne
  | append_singleton ts t _ =>
    obtain ⟨r, hr, hlast⟩ := allocateBlocks_concat_eq_ok.mp h
    obtain ⟨hsound, _, _, _, _, rfl⟩ := allocateBlocks_sound hp (pairwise_init hchain) hr
    rw [List.getLast?_concat, Option.getD_some] at hend
    have hsettled := allocateProperty_settled hsound (last_lt_concat hchain).le hend hlast
    exact hsettled

/-! ## The outcome for one property -/

/-- A property as `property_create_evaluator` makes it at head block time `now` -/
structure PropertyObject.CreatedAt (now minutes : Nat) (p : PropertyObject) : Prop
    extends p.FreshSchedule minutes ((now / 60 + 1) * 60), p.Sound now where
  minutes_min : 4 ≤ minutes
  minutes_mod : minutes % 4 = 0
  minutes_fits : minutes * 60 < 2 ^ 32
  start_fits : (now / 60 + 1) * 60 < 2 ^ 32

/-- The intervals counted at time `t` before the end date, when the blocks before the approval (or
up to `t`) covered `c` of them; after an approval none is missed -/
def PropertyObject.intervalsBy (p : PropertyObject) (approval : Option Nat) (t c : Nat) : Nat :=
  match approval with
  | none => c
  | some a => if a < p.initialEndDate then (t - p.creationDate) / 60 else c + (t / 60 - a / 60)

/-- The initial phase is counted first. -/
def PropertyObject.countersAt (p : PropertyObject) (n : Nat) : Nat × Nat :=
  (min p.initialCounterMax n, n - p.initialCounterMax)

theorem countersAt_inj {p p' : PropertyObject} {n n' : Nat}
    (h : p.initialCounterMax = p'.initialCounterMax) : p.countersAt n = p'.countersAt n' ↔ n = n' := by
  unfold PropertyObject.countersAt
  rw [h, Prod.mk.injEq]
  omega

section Outcome

variable {now minutes : Nat} {p : PropertyObject} (hp : p.CreatedAt now minutes)

include hp

theorem created_fresh (hend : (now / 60 + 1) * 60 + minutes * 60 < 2 ^ 32) : p.Fresh := by
  have hmin := hp.minutes_min
  have hmod := hp.minutes_mod
  have hcreation := hp.creationDate
  have hI := hp.initialCounterMax
  have hE1 := hp.initialEndDate
  have hE2 := hp.approvalEndDate
  rw [u32_of_lt (by omega)] at hE1 hE2
  refine ⟨hp.approvalDate, hp.expired, hp.initialCounter, hp.approvalCounter, ?_, ?_, ?_, ?_,
    hp.approvalEndDate_le⟩
  · rw [hp.nextAllocationDate, hcreation]
  · omega
  · omega
  · omega

theorem created_wrapped (hend : 2 ^ 32 ≤ (now / 60 + 1) * 60 + minutes * 60) :
    p.approvalEndDate + 16 ≤ p.creationDate ∧
      (p.creationDate < p.nextAllocationDate ∨ p.initialEndDate ≤ now) := by
  have hmin := hp.minutes_min
  have hfits := hp.minutes_fits
  have hstart := hp.start_fits
  rw [hp.creationDate, hp.nextAllocationDate, hp.initialEndDate, hp.approvalEndDate,
    u32_of_wrap hend (by omega)]
  refine ⟨by omega, ?_⟩
  by_cases hnext : (now / 60 + 1) * 60 + 60 < 2 ^ 32
  · rw [u32_of_lt hnext]
    omega
  · right
    rw [u32_of_wrap (by omega) (by omega)]
    omega

variable {ts : List Nat} {q : PropertyObject}

theorem created_covered_iff (hchain : (now :: ts).Pairwise (· < ·))
    (hbefore : ∀ t ∈ ts, t < p.approvalEndDate) :
    p.coveredBy ts = p.initialCounterMax ↔ p.initialEndDate ∈ ts := by
  have hI := hp.initialMax_pos
  have hcreation := hp.creationDate
  have hfits := hp.minutes_fits
  have hstart := hp.start_fits
  by_cases hend : (now / 60 + 1) * 60 + minutes * 60 < 2 ^ 32
  · have hfresh := created_fresh hp hend
    have hE1 := hfresh.initialEndDate
    constructor
    · intro hfull
      unfold PropertyObject.coveredBy at hfull
      rcases lastCovered_mem ts p.initialEndDate with hzero | ⟨hmem, hle⟩
      · omega
      · have heq : (ts.filter (· ≤ p.initialEndDate)).getLast?.getD 0 = p.initialEndDate := by
          omega
        exact heq ▸ hmem
    · intro hmem
      have hge := le_coveredBy (List.pairwise_cons.mp hchain).2 hmem (le_refl _)
      have hle := (allocateBlocks_initial hfresh (List.pairwise_cons.mp hchain).2 hbefore).2
      omega
  · -- the end date has wrapped: no block is left that could cover anything
    obtain ⟨hsoon, -⟩ := created_wrapped hp (not_lt.mp hend)
    have hle : p.coveredBy ts ≤ (p.approvalEndDate - p.creationDate) / 60 :=
      coveredBy_le fun t ht => (hbefore t ht).le
    refine iff_of_false (by omega) fun hmem => ?_
    have hlt := hbefore _ hmem
    have hgt := (List.pairwise_cons.mp hchain).1 _ hmem
    have hE1 := hp.initialEndDate
    by_cases hwrap : (now / 60 + 1) * 60 + minutes * 15 < 2 ^ 32
    · rw [u32_of_lt hwrap] at hE1
      omega
    · rw [u32_of_wrap (not_lt.mp hwrap) (by omega)] at hE1
      omega

theorem created_before (hchain : (now :: ts).Pairwise (· < ·))
    (hbefore : ∀ t ∈ ts, t < p.approvalEndDate) :
    p.coveredBy ts ≤ p.initialCounterMax ∧
      allocateBlocks p ts = .ok (p.afterIntervals (p.coveredBy ts)) := by
  rw [List.pairwise_cons] at hchain
  by_cases hend : (now / 60 + 1) * 60 + minutes * 60 < 2 ^ 32
  · obtain ⟨hblocks, hle⟩ := allocateBlocks_initial (created_fresh hp hend) hchain.2 hbefore
    exact ⟨hle, hblocks⟩
  · obtain ⟨hsoon, hnext⟩ := created_wrapped hp (not_lt.mp hend)
    have hzero : p.coveredBy ts = 0 := by
      have hle : p.coveredBy ts ≤ (p.approvalEndDate - p.creationDate) / 60 :=
        coveredBy_le fun t ht => (hbefore t ht).le
      omega
    rw [hzero, afterIntervals_zero hp.initialCounter
      (by rw [hp.nextAllocationDate, hp.creationDate])]
    refine ⟨Nat.zero_le _, allocateBlocks_idle hp.expired fun t ht => ⟨hbefore t ht, ?_⟩⟩
    have hlt := hbefore t ht
    have hafter := hchain.1 t ht
    rcases hnext with hlater | hover
    · exact .inl (by omega)
    · exact .inr ⟨by omega, hp.approvalDate⟩

theorem created_next_early (hnow : now ≤ ts.getLast?.getD now)
    (hchain : (now :: ts).Pairwise (· < ·)) (hbefore : ∀ t ∈ ts, t < p.approvalEndDate)
    (hearly : ts.getLast?.getD now < p.initialEndDate) :
    (p.afterIntervals (p.coveredBy ts)).nextAllocationDate =
      p.creationDate + 60 * (p.coveredBy ts + 1) := by
  by_cases hend : (now / 60 + 1) * 60 + minutes * 60 < 2 ^ 32
  · exact afterIntervals_next (created_fresh hp hend) (created_before hp hchain hbefore).1
  · obtain ⟨hsoon, hnext⟩ := created_wrapped hp (not_lt.mp hend)
    have hzero : p.coveredBy ts = 0 := by
      have hle : p.coveredBy ts ≤ (p.approvalEndDate - p.creationDate) / 60 :=
        coveredBy_le fun t ht => (hbefore t ht).le
      omega
    have hstart := hp.start_fits
    have hcreation := hp.creationDate
    have hdate := hp.nextAllocationDate
    rw [hzero]
    refine u32_of_lt ?_
    by_contra hwrap
    rw [u32_of_wrap (by omega) (by omega)] at hdate
    omega

theorem created_coveredBy_early (hchain : (now :: ts).Pairwise (· < ·))
    (hearly : ts.getLast?.getD now ≤ p.initialEndDate) :
    p.coveredBy ts = (ts.getLast?.getD now - p.creationDate) / 60 := by
  have hcreation := hp.creationDate
  induction ts using List.reverseRecOn with
  | nil =>
    have hzero : p.coveredBy [] = 0 := by simp [PropertyObject.coveredBy]
    rw [hzero, List.getLast?_nil, Option.getD_none]
    omega
  | append_singleton ts t _ =>
    rw [List.getLast?_concat, Option.getD_some] at *
    rw [coveredBy_concat, if_pos hearly]

theorem created_unapproved (hchain : (now :: ts).Pairwise (· < ·))
    (hbefore : ∀ t ∈ ts, t < p.approvalEndDate) (h : allocateBlocks p ts = .ok q) (t : Nat) :
    (q.initialCounter, q.approvalCounter) =
        p.countersAt (p.intervalsBy none t (p.coveredBy ts)) ∧ q.expired = false := by
  obtain ⟨hle, hblocks⟩ := created_before hp hchain hbefore
  rw [hblocks] at h
  cases h
  exact ⟨Prod.ext (min_eq_right hle).symm
    (hp.approvalCounter.trans (Nat.sub_eq_zero_of_le hle).symm), hp.expired⟩

theorem created_approvalPhase_le {t : Nat} (hend : t < p.approvalEndDate) :
    (t - p.creationDate) / 60 - p.initialCounterMax ≤ p.approvalCounterMax := by
  have hmax := hp.approvalCounterMax
  have hI := hp.initialCounterMax
  by_cases hfits : (now / 60 + 1) * 60 + minutes * 60 < 2 ^ 32
  · have hcreation := hp.creationDate
    have hE2 := hp.approvalEndDate
    rw [u32_of_lt hfits] at hE2
    omega
  · obtain ⟨hsoon, -⟩ := created_wrapped hp (not_lt.mp hfits)
    omega

theorem approved_early {a c t : Nat} (hc : c ≤ p.initialCounterMax)
    (hcovered : c = (a - p.creationDate) / 60)
    (hnext : (p.afterIntervals c).nextAllocationDate = p.creationDate + 60 * (c + 1))
    (hearly : a < p.initialEndDate) (hchain : (a :: ts).Pairwise (· < ·))
    (hlast : t = ts.getLast?.getD a) (hle : a ≤ t) (hend : t < p.approvalEndDate)
    (hbefore : ∀ t ∈ ts, t < p.approvalEndDate)
    (h : allocateBlocks { p.afterIntervals c with approvalDate := some a } ts = .ok q) :
    (q.initialCounter, q.approvalCounter) = p.countersAt (p.intervalsBy (some a) t c) ∧
      q.expired = false := by
  have haligned : p.creationDate % 60 = 0 := by
    rw [hp.creationDate]
    omega
  have hdue : ∀ u, ({ p.afterIntervals c with approvalDate := some a } :
      PropertyObject).intervalsDue u =
        if u < p.creationDate + 60 * (c + 1) then 0
        else (u - (p.creationDate + 60 * (c + 1))) / 60 + 1 := fun u => by
    rw [← hnext]
    rfl
  have hnow : ({ p.afterIntervals c with approvalDate := some a } :
      PropertyObject).intervalsDue a = 0 := by
    rw [hdue, if_pos (by omega)]
  have hblocks := allocateBlocks_approved (p := { p.afterIntervals c with approvalDate := some a })
    (Option.some_ne_none a) hp.expired hp.approvalEndDate_le
    (by change (p.afterIntervals c).nextAllocationDate % 60 = 0; rw [hnext]; omega) hc
    hp.approval_le hnow hchain hbefore
  rw [← hlast] at hblocks
  rw [hblocks] at h
  cases h
  refine ⟨?_, hp.expired⟩
  have hcount : c + ({ p.afterIntervals c with approvalDate := some a } :
      PropertyObject).intervalsDue t = (t - p.creationDate) / 60 := by
    rw [hdue]
    split <;> omega
  have hmax := created_approvalPhase_le hp hend
  unfold PropertyObject.intervalsBy
  dsimp only
  rw [if_pos hearly]
  rw [← hcount] at hmax ⊢
  generalize ({ p.afterIntervals c with approvalDate := some a } :
      PropertyObject).intervalsDue t = k at *
  refine Prod.ext rfl ?_
  change min p.approvalCounterMax (p.approvalCounter + (k - (p.initialCounterMax - c))) =
    c + k - p.initialCounterMax
  rw [hp.approvalCounter]
  omega

theorem approved_late {a c t : Nat} (hc : c ≤ p.initialCounterMax) (hlate : p.initialEndDate ≤ a)
    (hchain : (a :: ts).Pairwise (· < ·)) (hlast : t = ts.getLast?.getD a) (hle : a ≤ t)
    (hend : t < p.approvalEndDate) (hbefore : ∀ t ∈ ts, t < p.approvalEndDate)
    (h : allocateBlocks { p.afterIntervals c with
      approvalDate := some (a / 60 * 60)
      approvalCounterMax := (p.approvalEndDate - a / 60 * 60) / 60
      nextAllocationDate := a / 60 * 60 + 60 } ts = .ok q) :
    (q.initialCounter, q.approvalCounter) = p.countersAt (p.intervalsBy (some a) t c) ∧
      q.expired = false := by
  have hdue : ∀ u, a ≤ u → ({ p.afterIntervals c with
      approvalDate := some (a / 60 * 60)
      approvalCounterMax := (p.approvalEndDate - a / 60 * 60) / 60
      nextAllocationDate := a / 60 * 60 + 60 } : PropertyObject).intervalsDue u =
        u / 60 - a / 60 := by
    intro u hu
    unfold PropertyObject.intervalsDue
    dsimp only
    split <;> omega
  have hblocks := allocateBlocks_approved (p := { p.afterIntervals c with
      approvalDate := some (a / 60 * 60)
      approvalCounterMax := (p.approvalEndDate - a / 60 * 60) / 60
      nextAllocationDate := a / 60 * 60 + 60 })
    (Option.some_ne_none _) hp.expired hp.approvalEndDate_le (by dsimp only; omega) hc
    (by change p.approvalCounter ≤ _; rw [hp.approvalCounter]; exact Nat.zero_le _)
    (by rw [hdue a (le_refl a)]; omega) hchain hbefore
  rw [← hlast, hdue t hle] at hblocks
  rw [hblocks] at h
  cases h
  refine ⟨?_, hp.expired⟩
  unfold PropertyObject.intervalsBy
  dsimp only
  rw [if_neg (not_lt.mpr hlate)]
  refine Prod.ext rfl ?_
  change min ((p.approvalEndDate - a / 60 * 60) / 60)
    (p.approvalCounter + (t / 60 - a / 60 - (p.initialCounterMax - c))) =
      c + (t / 60 - a / 60) - p.initialCounterMax
  rw [hp.approvalCounter]
  omega

theorem created_approved {a t : Nat} {us : List Nat} {r q' : PropertyObject}
    (hchain : (now :: ts).Pairwise (· < ·)) (hbefore : ∀ t ∈ ts, t < p.approvalEndDate)
    (h : allocateBlocks p ts = .ok q) (ha : a = ts.getLast?.getD now) (hnow : now ≤ a)
    (hdeadline : a < p.approvalEndDate) (happrove : approveProperty a q = .ok r)
    (hchain' : (a :: us).Pairwise (· < ·)) (ht : t = us.getLast?.getD a) (hle : a ≤ t)
    (hend : t < p.approvalEndDate) (hbefore' : ∀ t ∈ us, t < p.approvalEndDate)
    (h' : allocateBlocks r us = .ok q') :
    (q'.initialCounter, q'.approvalCounter) =
        p.countersAt (p.intervalsBy (some a) t (p.coveredBy ts)) ∧ q'.expired = false := by
  obtain ⟨hc, hblocks⟩ := created_before hp hchain hbefore
  rw [hblocks] at h
  cases h
  have hlast := hp.approvalEndDate_le
  have hrange : a < 2 ^ 32 := by
    unfold lastMinute at hlast
    omega
  rcases approveProperty_ok (p := p.afterIntervals (p.coveredBy ts)) hrange hlast happrove with
    ⟨hearly, rfl⟩ | ⟨hlate, -, -, rfl⟩
  · have hearly' : a < p.initialEndDate := hearly
    rw [ha] at hnow hearly'
    have hcovered := created_coveredBy_early hp hchain hearly'.le
    have hnext := created_next_early hp hnow hchain hbefore hearly'
    rw [← ha] at hcovered
    exact approved_early hp hc hcovered hnext hearly hchain' ht hle hend hbefore' h'
  · exact approved_late hp hc hlate hchain' ht hle hend hbefore' h'

end Outcome

end Meta1Core.Allocation
