import Meta1Core.Allocation.CatchUp
import Meta1Core.Allocation.Lifecycle

/-!
# Missed blocks

Two runs that create the same property, approve it or not, and end at the same time, compared.  An
operation is evaluated at the time of the block before the one that carries it, so the blocks that
two runs do not share can move the creation and the approval as well.
-/

namespace Meta1Core.Allocation

open Lib

variable {s s' s0 : ChainState} {p p0 : PropertyObject} {op : PropertyCreateOperation}

theorem block_follows {t : UInt32} (hp : p ∈ s.properties) (h : applyEvent s (.block t) = .ok s') :
    ∃ q ∈ s'.properties, s.Frozen ∧ q = p ∨ ¬s.Frozen ∧ allocateProperty t.toNat p = .ok q := by
  obtain ⟨-, hupdate⟩ := block_ok h
  rcases updateSmoothAllocation_ok hupdate with ⟨hf, rfl⟩ | ⟨hf, ps, hps, ⟨-, rfl⟩ | ⟨cs, -, rfl⟩⟩
  · exact ⟨p, hp, .inl ⟨hf, rfl⟩⟩
  all_goals
    obtain ⟨q, hq, hpq⟩ := exists_of_mem_left hps hp
    exact ⟨q, hq, .inr ⟨hf, hpq⟩⟩

def lastBlockTime (headBlockTime : Nat) (ts : List UInt32) : Nat :=
  (ts.map UInt32.toNat).getLast?.getD headBlockTime

theorem lastBlockTime_cons (headBlockTime : Nat) (t : UInt32) (ts : List UInt32) :
    lastBlockTime headBlockTime (t :: ts) = lastBlockTime t.toNat ts := by
  unfold lastBlockTime
  rw [List.map_cons, List.getLast?_cons, Option.getD_some]

theorem blocks_move {ts : List UInt32} (hs : s.Sound)
    (h : Lib.run applyEvent s (ts.map .block) = .ok s') :
    s'.Sound ∧ (s'.Frozen ↔ s.Frozen) ∧
      (s.headBlockTime :: ts.map UInt32.toNat).Pairwise (· < ·) ∧
      s'.headBlockTime = lastBlockTime s.headBlockTime ts ∧
      s'.nextPropertyId = s.nextPropertyId := by
  induction ts generalizing s with
  | nil =>
    cases h
    exact ⟨hs, Iff.rfl, List.pairwise_singleton .., rfl, rfl⟩
  | cons t ts ih =>
    obtain ⟨s1, hstep, hrest⟩ := run_cons_eq_ok.mp h
    obtain ⟨htime, hlt, hfrozen, hid⟩ := block_moves hstep
    obtain ⟨hs', hfrozen', hchain, hlast, hid'⟩ := ih (applyEvent_sound hs hstep) hrest
    rw [htime] at hchain hlast
    refine ⟨hs', hfrozen'.trans hfrozen, ?_, hlast.trans (lastBlockTime_cons ..).symm,
      hid'.trans hid⟩
    rw [List.map_cons, List.pairwise_cons]
    refine ⟨fun u hu => ?_, hchain⟩
    rcases List.mem_cons.mp hu with rfl | hu
    · exact hlt
    · exact hlt.trans ((List.pairwise_cons.mp hchain).1 u hu)

theorem blocks_follow {ts : List UInt32} (hp : p ∈ s.properties)
    (h : Lib.run applyEvent s (ts.map .block) = .ok s') :
    ∃ q ∈ s'.properties,
      s.Frozen ∧ q = p ∨ ¬s.Frozen ∧ allocateBlocks p (ts.map UInt32.toNat) = .ok q := by
  induction ts generalizing s p with
  | nil =>
    cases h
    exact ⟨p, hp, (em _).imp (fun hf => ⟨hf, rfl⟩) fun hf => ⟨hf, rfl⟩⟩
  | cons t ts ih =>
    obtain ⟨s1, hstep, hrest⟩ := run_cons_eq_ok.mp h
    obtain ⟨-, -, hfrozen, -⟩ := block_moves hstep
    obtain ⟨q, hq, hpq⟩ := block_follows hp hstep
    obtain ⟨r, hr, hqr⟩ := ih hq hrest
    refine ⟨r, hr, ?_⟩
    rcases hpq with ⟨hf, rfl⟩ | ⟨hf, hpq⟩
    · rcases hqr with ⟨-, rfl⟩ | ⟨hnot, -⟩
      · exact .inl ⟨hf, rfl⟩
      · exact absurd (hfrozen.mpr hf) hnot
    · rcases hqr with ⟨hf', -⟩ | ⟨-, hqr⟩
      · exact absurd (hfrozen.mp hf') hf
      · exact .inr ⟨hf, run_cons_eq_ok.mpr ⟨q, hpq, hqr⟩⟩

theorem getProperty_of_mem {q : PropertyObject} {id : Nat} (hs : s.Sound) (hp : p ∈ s.properties)
    (hid : p.id = id) (hq : s.getProperty id = .ok q) : q = p := by
  obtain ⟨hmem, hqid⟩ := getProperty_ok hq
  exact List.inj_on_of_nodup_map hs.ids_nodup hmem hp (hqid.trans hid.symm)

theorem propertyCreate_follows (hs : s.Sound) (h : applyEvent s (.propertyCreate op) = .ok s') :
    s'.Sound ∧ s'.headBlockTime = s.headBlockTime ∧ (s'.Frozen ↔ s.Frozen) ∧
      ∃ p ∈ s'.properties, createProperty s.headBlockTime op s.nextPropertyId = .ok p ∧
        p.id = s.nextPropertyId ∧
        p.CreatedAt s.headBlockTime op.allocationDurationMinutes.toNat := by
  obtain ⟨hvalid, -, p, hp, rfl⟩ := propertyCreate_ok h
  have hsound := (createProperty_sound hs.headBlockTime_lt hvalid hp).1
  obtain ⟨hmin, hmod⟩ := PropertyCreateOperation.validate_ok hvalid
  obtain ⟨hfits, hstart, hid, -, -, -, hfresh⟩ := createProperty_ok hs.headBlockTime_lt hp
  exact ⟨applyEvent_sound hs h, rfl, Iff.rfl, p, List.mem_append_right _ (List.mem_singleton_self p),
    hp, hid, ⟨hfresh, hsound, hmin, hmod, hfits, hstart⟩⟩

theorem propertyApprove_follows {op : PropertyApproveOperation} (hs : s.Sound)
    (hp : p ∈ s.properties) (hid : p.id = op.propertyToApprove)
    (h : applyEvent s (.propertyApprove op) = .ok s') :
    s'.Sound ∧ s'.headBlockTime = s.headBlockTime ∧ (s'.Frozen ↔ s.Frozen) ∧
      s.headBlockTime < p.approvalEndDate ∧
      ∃ q ∈ s'.properties, approveProperty s.headBlockTime p = .ok q := by
  obtain ⟨p', hp', hid', hdeadline, -, q, hq, rfl⟩ := propertyApprove_ok h
  have hsame : p' = p := List.inj_on_of_nodup_map hs.ids_nodup hp' hp (hid'.trans hid.symm)
  subst hsame
  refine ⟨applyEvent_sound hs h, rfl, Iff.rfl, hdeadline, q, ?_, hq⟩
  have hqid := (approveProperty_terms hs.headBlockTime_lt
    (hs.properties p' hp').approvalEndDate_le hq).1
  exact List.mem_map.mpr ⟨p', hp', if_pos hqid.symm⟩

structure PropertyObject.SameSchedule (p q : PropertyObject) : Prop where
  id : q.id = p.id
  initialEndDate : q.initialEndDate = p.initialEndDate
  approvalEndDate : q.approvalEndDate = p.approvalEndDate
  initialCounterMax : q.initialCounterMax = p.initialCounterMax
  approvalCounterMax : q.approvalCounterMax = p.approvalCounterMax

theorem property_follows {ts : List UInt32} (hs : s.Sound) (hp : p ∈ s.properties)
    (h : Lib.run applyEvent s (ts.map .block) = .ok s') :
    s'.Sound ∧ (s'.Frozen ↔ s.Frozen) ∧
      (s.headBlockTime :: ts.map UInt32.toNat).Pairwise (· < ·) ∧
      s'.headBlockTime = (ts.map UInt32.toNat).getLast?.getD s.headBlockTime ∧
      ∃ q ∈ s'.properties, p.SameSchedule q ∧
        (s.Frozen ∧ q = p ∨ ¬s.Frozen ∧ allocateBlocks p (ts.map UInt32.toNat) = .ok q) := by
  obtain ⟨hs', hfrozen, hchain, hlast, -⟩ := blocks_move hs h
  obtain ⟨q, hq, hfollow⟩ := blocks_follow hp h
  refine ⟨hs', hfrozen, hchain, hlast, q, hq, ?_, hfollow⟩
  rcases hfollow with ⟨-, rfl⟩ | ⟨-, hfollow⟩
  · exact ⟨rfl, rfl, rfl, rfl, rfl⟩
  · obtain ⟨_, _, _, _, rfl⟩ := (allocateBlocks_sound (hs.properties p hp) hchain hfollow).2
    exact ⟨rfl, rfl, rfl, rfl, rfl⟩

theorem created_follows {ts : List UInt32} (hs0 : s0.Sound)
    (hcreate : createProperty s0.headBlockTime op s0.nextPropertyId = .ok p0)
    (h : Lib.run applyEvent s0 (.propertyCreate op :: ts.map .block) = .ok s) :
    p0.CreatedAt s0.headBlockTime op.allocationDurationMinutes.toNat ∧
      p0.id = s0.nextPropertyId ∧ s.Sound ∧ (s.Frozen ↔ s0.Frozen) ∧
      (s0.headBlockTime :: ts.map UInt32.toNat).Pairwise (· < ·) ∧
      s.headBlockTime = (ts.map UInt32.toNat).getLast?.getD s0.headBlockTime ∧
      ∃ q ∈ s.properties, p0.SameSchedule q ∧
        (s0.Frozen ∧ q = p0 ∨ ¬s0.Frozen ∧ allocateBlocks p0 (ts.map UInt32.toNat) = .ok q) := by
  obtain ⟨s1, hstep, hblocks⟩ := run_cons_eq_ok.mp h
  obtain ⟨hs1, htime, hfrozen, p1, hp1, hcreate1, hid, hcreated⟩ := propertyCreate_follows hs0 hstep
  cases hcreate.symm.trans hcreate1
  obtain ⟨hs, hfrozen', hrest⟩ := property_follows hs1 hp1 hblocks
  rw [htime, hfrozen] at hrest
  exact ⟨hcreated, hid, hs, hfrozen'.trans hfrozen, hrest⟩

/-! ## Two runs compared -/

/-- Blocks pass, a property is created, more blocks pass, it is approved or not, and after an approval
blocks pass again. -/
def propertyEvents (op : PropertyCreateOperation) (earlier before : List UInt32)
    (approval : Option PropertyApproveOperation) (after : List UInt32) : List Event :=
  earlier.map .block ++ .propertyCreate op :: (before.map .block ++
    match approval with
    | none => []
    | some approve => .propertyApprove approve :: after.map .block)

def PropertyObject.approvalPhase (p : PropertyObject) : Option Nat → Nat
  | none => p.approvalCounterMax
  | some a =>
    if a < p.initialEndDate then p.approvalCounterMax
    else (p.approvalEndDate - a / 60 * 60) / 60

def PropertyObject.settledCounters (p : PropertyObject) : Option Nat → Nat × Nat
  | none => (0, 0)
  | some a => (p.initialCounterMax, p.approvalPhase (some a))

/-- What a run leaves of the property `p0` that it created: `p`, at time `t`, with `c` intervals of
the initial phase covered -/
structure Outcome (s0 : ChainState) (p0 : PropertyObject) (approval : Option Nat) (c t : Nat)
    (p : PropertyObject) : Prop where
  initialEndDate : p.initialEndDate = p0.initialEndDate
  approvalEndDate : p.approvalEndDate = p0.approvalEndDate
  initialCounterMax : p.initialCounterMax = p0.initialCounterMax
  approvalCounterMax : p.approvalCounterMax = p0.approvalPhase approval
  frozen : s0.Frozen → (p.initialCounter, p.approvalCounter) = (0, 0) ∧ p.expired = false
  running : ¬s0.Frozen → t < p0.approvalEndDate → c ≤ p0.initialCounterMax ∧
    (p.initialCounter, p.approvalCounter) = p0.countersAt (p0.intervalsBy approval t c) ∧
      p.expired = false
  settled : ¬s0.Frozen → p0.approvalEndDate ≤ t →
    t = s0.headBlockTime ∧ (p.initialCounter, p.approvalCounter) = (0, 0) ∧ p.expired = false ∨
    s0.headBlockTime < t ∧ (p.initialCounter, p.approvalCounter) = p0.settledCounters approval ∧
      p.expired = true

theorem outcome_unapproved {before : List UInt32} (hs0 : s0.Sound)
    (hcreate : createProperty s0.headBlockTime op s0.nextPropertyId = .ok p0)
    (hrun : Lib.run applyEvent s0 (.propertyCreate op :: before.map .block) = .ok s)
    (hp : s.getProperty s0.nextPropertyId = .ok p) :
    Outcome s0 p0 none (p0.coveredBy (before.map UInt32.toNat)) s.headBlockTime p := by
  obtain ⟨hcreated, hid, hs, -, hchain, hlast, q, hq, hsame, hfollow⟩ :=
    created_follows hs0 hcreate hrun
  cases getProperty_of_mem hs hq (hsame.id.trans hid) hp
  refine ⟨hsame.initialEndDate, hsame.approvalEndDate, hsame.initialCounterMax,
    hsame.approvalCounterMax, fun hf => ?_, fun hf hlt => ?_, fun hf hend => ?_⟩
  · obtain ⟨-, rfl⟩ := hfollow.resolve_right fun h => h.1 hf
    exact ⟨Prod.ext hcreated.initialCounter hcreated.approvalCounter, hcreated.expired⟩
  all_goals
    replace hfollow := (hfollow.resolve_left fun h => hf h.1).2
  · have hbefore : ∀ t ∈ before.map UInt32.toNat, t < p0.approvalEndDate := fun t ht =>
      (le_last hchain (List.mem_cons_of_mem _ ht)).trans_lt (hlast ▸ hlt)
    exact ⟨(created_before hcreated hchain hbefore).1,
      created_unapproved hcreated hchain hbefore hfollow _⟩
  · by_cases hnil : before = []
    · subst hnil
      cases hfollow
      exact .inl ⟨hlast, Prod.ext hcreated.initialCounter hcreated.approvalCounter,
        hcreated.expired⟩
    · have hne : before.map UInt32.toNat ≠ [] := by simpa using hnil
      obtain ⟨he, hi, ha⟩ := allocateBlocks_settled hcreated.toSound hchain hfollow hne (hlast ▸ hend)
      rw [if_pos hcreated.approvalDate] at hi ha
      refine .inr ⟨?_, Prod.ext hi ha, he⟩
      obtain ⟨t, ht⟩ := List.exists_mem_of_ne_nil _ hne
      have hgt := (List.pairwise_cons.mp hchain).1 t ht
      have hle := le_last hchain (List.mem_cons_of_mem _ ht)
      rw [hlast]
      exact hgt.trans_le hle

theorem outcome_approved {approve : PropertyApproveOperation} {before after : List UInt32}
    (hs0 : s0.Sound) (happrove : approve.propertyToApprove = s0.nextPropertyId)
    (hcreate : createProperty s0.headBlockTime op s0.nextPropertyId = .ok p0)
    (hrun : Lib.run applyEvent s0 (.propertyCreate op ::
      (before.map .block ++ .propertyApprove approve :: after.map .block)) = .ok s)
    (hp : s.getProperty s0.nextPropertyId = .ok p) :
    Outcome s0 p0 (some (lastBlockTime s0.headBlockTime before))
      (p0.coveredBy (before.map UInt32.toNat)) s.headBlockTime p ∧
    lastBlockTime s0.headBlockTime before < p0.approvalEndDate ∧
    (s0.headBlockTime :: before.map UInt32.toNat).Pairwise (· < ·) := by
  rw [← List.cons_append] at hrun
  obtain ⟨s2, hbefore, hrest⟩ := run_append_eq_ok.mp hrun
  obtain ⟨s3, hstep3, hafter⟩ := run_cons_eq_ok.mp hrest
  obtain ⟨hcreated, hid, hs2, hfrozen2, hchain, hlast, q, hq, hsame, hfollow⟩ :=
    created_follows hs0 hcreate hbefore
  have hqid := hsame.id.trans hid
  obtain ⟨hs3, htime3, hfrozen3, hdeadline, r, hr, happroved⟩ :=
    propertyApprove_follows hs2 hq (hqid.trans happrove.symm) hstep3
  obtain ⟨hs, -, hchain', hlast', q', hq', hsame', hfollow'⟩ := property_follows hs3 hr hafter
  rw [htime3] at hchain' hlast'
  rw [lastBlockTime, ← hlast]
  have hrange := hs2.headBlockTime_lt
  have hqE2 := (hs2.properties q hq).approvalEndDate_le
  have hrid := (approveProperty_terms hrange hqE2 happroved).1
  have hrsound : r.Sound s2.headBlockTime := htime3 ▸ hs3.properties r hr
  obtain ⟨hrsome, hrE1, hrE2, hrI, hrA, hri, hra, hrexpired⟩ :=
    approveProperty_schedule hrange hqE2 happroved
  cases getProperty_of_mem hs hq' (hsame'.id.trans (hrid.trans hqid)) hp
  have hphase : r.approvalCounterMax = p0.approvalPhase (some s2.headBlockTime) := by
    rw [hrA, hsame.initialEndDate, hsame.approvalEndDate, hsame.approvalCounterMax]
    rfl
  rw [hsame.approvalEndDate] at hdeadline
  rw [hfrozen3.trans hfrozen2] at hfollow'
  refine ⟨⟨hsame'.initialEndDate.trans (hrE1.trans hsame.initialEndDate),
    hsame'.approvalEndDate.trans (hrE2.trans hsame.approvalEndDate),
    hsame'.initialCounterMax.trans (hrI.trans hsame.initialCounterMax),
    hsame'.approvalCounterMax.trans hphase, fun hf => ?_, fun hf hlt => ?_,
    fun hf hend => ?_⟩, hdeadline, hchain⟩
  · obtain ⟨-, rfl⟩ := hfollow.resolve_right fun h => h.1 hf
    obtain ⟨-, rfl⟩ := hfollow'.resolve_right fun h => h.1 hf
    exact ⟨Prod.ext (hri.trans hcreated.initialCounter) (hra.trans hcreated.approvalCounter),
      hrexpired.trans hcreated.expired⟩
  all_goals
    replace hfollow := (hfollow.resolve_left fun h => hf h.1).2
    replace hfollow' := (hfollow'.resolve_left fun h => hf h.1).2
    have hle : s0.headBlockTime ≤ s2.headBlockTime := hlast ▸ le_last hchain List.mem_cons_self
  · have hbefore' : ∀ t ∈ before.map UInt32.toNat, t < p0.approvalEndDate := fun t ht =>
      (hlast ▸ le_last hchain (List.mem_cons_of_mem _ ht)).trans_lt hdeadline
    have hafter' : ∀ t ∈ after.map UInt32.toNat, t < p0.approvalEndDate := fun t ht =>
      (hlast' ▸ le_last hchain' (List.mem_cons_of_mem _ ht)).trans_lt hlt
    exact ⟨(created_before hcreated hchain hbefore').1,
      created_approved hcreated hchain hbefore' hfollow hlast hle hdeadline happroved hchain' hlast'
        (hlast' ▸ le_last hchain' List.mem_cons_self) hlt hafter' hfollow'⟩
  · have hne : after.map UInt32.toNat ≠ [] := fun hnil => by
      rw [hnil] at hlast'
      have : s.headBlockTime = s2.headBlockTime := hlast'
      omega
    obtain ⟨he, hi, ha⟩ := allocateBlocks_settled hrsound hchain' hfollow' hne
      (by rw [← hlast', hrE2, hsame.approvalEndDate]; exact hend)
    rw [if_neg hrsome] at hi ha
    exact .inr ⟨by omega, Prod.ext (hi.trans (hrI.trans hsame.initialCounterMax)) (ha.trans hphase), he⟩

structure PropertyObject.SameAllocation (p q : PropertyObject) : Prop where
  initialCounter : p.initialCounter = q.initialCounter
  approvalCounter : p.approvalCounter = q.approvalCounter
  expired : p.expired = q.expired
  progress : p.getAllocationProgress = q.getAllocationProgress

theorem getAllocationProgress_ne_ok {x : ℚ} (h : p.CountersSound) (hA : p.approvalCounterMax = 0) :
    p.getAllocationProgress ≠ .ok x := by
  have hI := h.initialMax_pos
  have hIle := h.initialMax_le
  unfold counterBound at hIle
  unfold PropertyObject.getAllocationProgress
  rw [int32OfU32_of_lt (n := p.initialCounterMax) (by omega), ratioMk_ok (by exact_mod_cast hI), hA]
  nofun

/-- Equal counters are the same progress, unless the approval phases are not as long. -/
theorem getAllocationProgress_eq_iff {p' : PropertyObject} (h : p.CountersSound)
    (h' : p'.CountersSound) (hI : p.initialCounterMax = p'.initialCounterMax)
    (hi : p.initialCounter = p'.initialCounter) (ha : p.approvalCounter = p'.approvalCounter) :
    p.getAllocationProgress = p'.getAllocationProgress ↔
      p.approvalCounterMax = p'.approvalCounterMax ∨
        0 < p.approvalCounterMax ∧ 0 < p'.approvalCounterMax ∧ p.approvalCounter = 0 := by
  by_cases hA : p.approvalCounterMax = p'.approvalCounterMax
  · refine iff_of_true ?_ (.inl hA)
    unfold PropertyObject.getAllocationProgress
    rw [hI, hi, ha, hA]
  rcases Nat.eq_zero_or_pos p.approvalCounterMax with hzero | hpos
  · have hpos' : 0 < p'.approvalCounterMax := by omega
    rw [getAllocationProgress_eq h' hpos']
    exact iff_of_false (getAllocationProgress_ne_ok h hzero) (by omega)
  rcases Nat.eq_zero_or_pos p'.approvalCounterMax with hzero | hpos'
  · rw [getAllocationProgress_eq h hpos]
    exact iff_of_false (getAllocationProgress_ne_ok h' hzero).symm (by omega)
  have hpos_q : (0 : ℚ) < 4 * p.approvalCounterMax := by positivity
  have hpos_q' : (0 : ℚ) < 4 * p'.approvalCounterMax := by positivity
  rw [getAllocationProgress_eq h hpos, getAllocationProgress_eq h' hpos', Except.ok.injEq]
  unfold PropertyObject.progress
  rw [hI, hi, ← ha, add_right_inj, div_eq_div_iff hpos_q.ne' hpos_q'.ne']
  constructor
  · intro heq
    have hcross : p.approvalCounter * p'.approvalCounterMax =
        p.approvalCounter * p.approvalCounterMax := by
      have : (p.approvalCounter : ℚ) * p'.approvalCounterMax =
          p.approvalCounter * p.approvalCounterMax := by linarith
      exact_mod_cast this
    refine .inr ⟨hpos, hpos', ?_⟩
    by_contra hne
    exact hA (Nat.eq_of_mul_eq_mul_left (Nat.pos_of_ne_zero hne) hcross).symm
  · rintro (heq | ⟨-, -, hzero⟩)
    · exact absurd heq hA
    · simp [hzero]

theorem Outcome.sameAllocation_iff {s0' : ChainState} {p0' p' : PropertyObject}
    {a a' : Option Nat} {c c' t : Nat} (h : Outcome s0 p0 a c t p) (h' : Outcome s0' p0' a' c' t p')
    (hp : p.CountersSound) (hp' : p'.CountersSound) (hfrozen : s0'.Frozen ↔ s0.Frozen)
    (hI : p0.initialCounterMax = p0'.initialCounterMax)
    (hA : p0.approvalCounterMax = p0'.approvalCounterMax) (ha : a.isSome = a'.isSome)
    (hlt : s0.headBlockTime < t) (hlt' : s0'.headBlockTime < t) :
    p.SameAllocation p' ↔
      (s0.Frozen ∨ p0.approvalEndDate ≤ t ∧ p0'.approvalEndDate ≤ t ∨
        t < p0.approvalEndDate ∧ t < p0'.approvalEndDate ∧
          p0.intervalsBy a t c = p0'.intervalsBy a' t c') ∧
      (p0.approvalPhase a = p0'.approvalPhase a' ∨
        0 < p0.approvalPhase a ∧ 0 < p0'.approvalPhase a' ∧ (s0.Frozen ∨ t < p0.approvalEndDate ∧
            p0.intervalsBy a t c ≤ p0.initialCounterMax)) := by
  have hmax : p.initialCounterMax = p'.initialCounterMax :=
    h.initialCounterMax.trans (hI.trans h'.initialCounterMax.symm)
  have hiff : p.SameAllocation p' ↔
      ((p.initialCounter, p.approvalCounter) = (p'.initialCounter, p'.approvalCounter) ∧
        p.expired = p'.expired) ∧ (p0.approvalPhase a = p0'.approvalPhase a' ∨
          0 < p0.approvalPhase a ∧ 0 < p0'.approvalPhase a' ∧ p.approvalCounter = 0) := by
    rw [← h.approvalCounterMax, ← h'.approvalCounterMax]
    constructor
    · intro hsame
      exact ⟨⟨Prod.ext hsame.initialCounter hsame.approvalCounter, hsame.expired⟩,
        (getAllocationProgress_eq_iff hp hp' hmax hsame.initialCounter
          hsame.approvalCounter).mp hsame.progress⟩
    · rintro ⟨⟨hcounters, hexpired⟩, hphase⟩
      obtain ⟨hi, ha⟩ := Prod.mk.inj hcounters
      exact ⟨hi, ha, hexpired, (getAllocationProgress_eq_iff hp hp' hmax hi ha).mpr hphase⟩
  rw [hiff]
  by_cases hf : s0.Frozen
  · obtain ⟨hc, he⟩ := h.frozen hf
    obtain ⟨hc', he'⟩ := h'.frozen (hfrozen.mpr hf)
    rw [hc, hc', he, he', (Prod.mk.inj hc).2]
    simp [hf]
  have hf' : ¬s0'.Frozen := mt hfrozen.mp hf
  rw [or_iff_right hf, or_iff_right hf]
  by_cases hend : p0.approvalEndDate ≤ t
  · obtain ⟨-, hc, he⟩ := (h.settled hf hend).resolve_left fun h => absurd h.1 hlt.ne'
    by_cases hend' : p0'.approvalEndDate ≤ t
    · -- the counters are full, or the property was never approved
      obtain ⟨-, hc', he'⟩ := (h'.settled hf' hend').resolve_left fun h => absurd h.1 hlt'.ne'
      have hphase : p0.settledCounters a = p0'.settledCounters a' ↔
          p0.approvalPhase a = p0'.approvalPhase a' := by
        match a, a', ha with
        | none, none, _ => exact iff_of_true rfl hA
        | some a, some a', _ =>
          unfold PropertyObject.settledCounters
          rw [Prod.mk.injEq]
          exact and_iff_right hI
      rw [hc, hc', he, he', hphase]
      simp only [hend, hend', not_lt.mpr hend, and_true, true_and, false_and, and_false, or_false]
      exact ⟨fun h => h.1, fun h => ⟨h, .inl h⟩⟩
    · obtain ⟨-, -, he'⟩ := h'.running hf' (not_le.mp hend')
      simp [he, he', hend', not_lt.mpr hend]
  · obtain ⟨-, hc, he⟩ := h.running hf (not_le.mp hend)
    by_cases hend' : p0'.approvalEndDate ≤ t
    · obtain ⟨-, hc', he'⟩ := (h'.settled hf' hend').resolve_left fun h => absurd h.1 hlt'.ne'
      simp [he, he', hend, not_lt.mpr hend']
    · obtain ⟨-, hc', he'⟩ := h'.running hf' (not_le.mp hend')
      have hzero : p.approvalCounter = 0 ↔ p0.intervalsBy a t c ≤ p0.initialCounterMax := by
        rw [(Prod.mk.inj hc).2]
        exact Nat.sub_eq_zero_iff_le
      rw [hzero, hc, hc', he, he', countersAt_inj hI]
      simp only [hend, not_le.mp hend, not_le.mp hend', and_true, true_and, false_and, false_or]

theorem unapproved_quarter_iff {before : List UInt32} (hs0 : s0.Sound)
    (hcreate : createProperty s0.headBlockTime op s0.nextPropertyId = .ok p0)
    (hrun : Lib.run applyEvent s0 (.propertyCreate op :: before.map .block) = .ok s)
    (hp : s.getProperty s0.nextPropertyId = .ok p) (hend : s.headBlockTime < p0.approvalEndDate) :
    p.getAllocationProgress = .ok (1 / 4) ↔
      ¬s0.Frozen ∧ ∃ t ∈ before, t.toNat = p0.initialEndDate := by
  have houtcome := outcome_unapproved hs0 hcreate hrun hp
  have hsound := (run_sound hs0 hrun).properties p (getProperty_ok hp).1
  obtain ⟨hcreated, -, -, -, hchain, hlast, -⟩ := created_follows hs0 hcreate hrun
  have hA : 0 < p.approvalCounterMax := by
    have hmin := hcreated.minutes_min
    rw [houtcome.approvalCounterMax, PropertyObject.approvalPhase, hcreated.approvalCounterMax]
    omega
  rw [getAllocationProgress_eq hsound.toCountersSound hA, Except.ok.injEq]
  have hI := hsound.initialMax_pos
  by_cases hf : s0.Frozen
  · obtain ⟨hi, ha⟩ := Prod.mk.inj (houtcome.frozen hf).1
    rw [progress_eq_quarter_iff hI ha]
    exact iff_of_false (by omega) fun h => h.1 hf
  · obtain ⟨hle, hcounters, -⟩ := houtcome.running hf hend
    obtain ⟨hi, ha⟩ := Prod.mk.inj hcounters
    replace hi := hi.trans (min_eq_right hle)
    replace ha := ha.trans (Nat.sub_eq_zero_of_le hle)
    have hbefore : ∀ t ∈ before.map UInt32.toNat, t < p0.approvalEndDate := fun t ht =>
      (hlast ▸ le_last hchain (List.mem_cons_of_mem _ ht)).trans_lt hend
    rw [progress_eq_quarter_iff hI ha, hi, houtcome.initialCounterMax]
    change p0.coveredBy _ = _ ↔ _
    rw [created_covered_iff hcreated hchain hbefore, List.mem_map]
    exact ⟨fun h => ⟨hf, h⟩, fun h => h.2⟩

theorem outcome_propertyEvents {approval : Option PropertyApproveOperation}
    {earlier before after : List UInt32} (hs0 : s0.Sound)
    (hcreate : createProperty (lastBlockTime s0.headBlockTime earlier) op s0.nextPropertyId = .ok p0)
    (happrove : ∀ a ∈ approval, a.propertyToApprove = s0.nextPropertyId)
    (hrun : Lib.run applyEvent s0 (propertyEvents op earlier before approval after) = .ok s)
    (hp : s.getProperty s0.nextPropertyId = .ok p) :
    ∃ s1 : ChainState, s1.Sound ∧ (s1.Frozen ↔ s0.Frozen) ∧
      s1.headBlockTime = lastBlockTime s0.headBlockTime earlier ∧
      p0.FreshSchedule op.allocationDurationMinutes.toNat ((s1.headBlockTime / 60 + 1) * 60) ∧
      Outcome s1 p0 (approval.map fun _ => lastBlockTime s1.headBlockTime before)
        (p0.coveredBy (before.map UInt32.toNat)) s.headBlockTime p ∧
      (approval = none → s.headBlockTime < p0.approvalEndDate →
        (p.getAllocationProgress = .ok (1 / 4) ↔
          ¬s1.Frozen ∧ ∃ t ∈ before, t.toNat = p0.initialEndDate)) := by
  obtain ⟨s1, hearlier, hrun⟩ := run_append_eq_ok.mp hrun
  obtain ⟨hs1, hfrozen, -, hhead, hid⟩ := blocks_move hs0 hearlier
  rw [← hid] at hp happrove
  rw [← hhead, ← hid] at hcreate
  obtain ⟨s2, hstep, -⟩ := run_cons_eq_ok.mp hrun
  obtain ⟨-, -, -, p1, -, hcreate1, -, hcreated⟩ := propertyCreate_follows hs1 hstep
  cases hcreate.symm.trans hcreate1
  refine ⟨s1, hs1, hfrozen, hhead, hcreated.toFreshSchedule, ?_⟩
  cases approval with
  | none =>
    rw [List.append_nil] at hrun
    exact ⟨outcome_unapproved hs1 hcreate hrun hp,
      fun _ hlt => unapproved_quarter_iff hs1 hcreate hrun hp hlt⟩
  | some approve =>
    exact ⟨(outcome_approved hs1 (happrove approve rfl) hcreate hrun hp).1, fun h => nomatch h⟩

/-- Two runs from the same state create the same property, approve it or not, and end at the same
time, after the blocks that carry the operations.  They leave it with the same allocation exactly
when

* the chain is frozen, both are past the end date, or both have counted the same number of intervals,
  where the blocks before the approval have counted what they covered and none is missed after it;
* and the approvals left equally many intervals of the approval phase, or none of them is counted yet.

Between its two end dates an unapproved property is at a quarter exactly when a block came at the
initial end date. -/
theorem missedBlocks_sameAllocation_iff {s0 s s' : ChainState} {op : PropertyCreateOperation}
    {approval : Option PropertyApproveOperation}
    {earlier before after earlier' before' after' : List UInt32} {t1 t1' : Nat}
    {p0 p0' p p' : PropertyObject}
    (h0 : Reachable applyEvent ChainState.Genesis (fun _ _ => True) s0)
    (ht1 : lastBlockTime s0.headBlockTime earlier = t1)
    (ht1' : lastBlockTime s0.headBlockTime earlier' = t1')
    (hcreate : createProperty t1 op s0.nextPropertyId = .ok p0)
    (hcreate' : createProperty t1' op s0.nextPropertyId = .ok p0')
    (happrove : ∀ a ∈ approval, a.propertyToApprove = s0.nextPropertyId)
    (hrun : Lib.run applyEvent s0 (propertyEvents op earlier before approval after) = .ok s)
    (hrun' : Lib.run applyEvent s0 (propertyEvents op earlier' before' approval after') = .ok s')
    (hcarried : t1 < s.headBlockTime) (hcarried' : t1' < s.headBlockTime)
    (hend : s.headBlockTime = s'.headBlockTime)
    (hp : s.getProperty s0.nextPropertyId = .ok p)
    (hp' : s'.getProperty s0.nextPropertyId = .ok p') :
    let a := approval.map fun _ => lastBlockTime t1 before
    let a' := approval.map fun _ => lastBlockTime t1' before'
    let n := p0.intervalsBy a s.headBlockTime (p0.coveredBy (before.map UInt32.toNat))
    let n' := p0'.intervalsBy a' s.headBlockTime (p0'.coveredBy (before'.map UInt32.toNat))
    (p.SameAllocation p' ↔
      (s0.Frozen ∨ p0.approvalEndDate ≤ s.headBlockTime ∧ p0'.approvalEndDate ≤ s.headBlockTime ∨
        s.headBlockTime < p0.approvalEndDate ∧ s.headBlockTime < p0'.approvalEndDate ∧ n = n') ∧
      (p0.approvalPhase a = p0'.approvalPhase a' ∨
        0 < p0.approvalPhase a ∧ 0 < p0'.approvalPhase a' ∧
          (s0.Frozen ∨ s.headBlockTime < p0.approvalEndDate ∧ n ≤ p0.initialCounterMax))) ∧
    (approval = none → p0.initialEndDate < s.headBlockTime → s.headBlockTime < p0.approvalEndDate →
      (p.getAllocationProgress = .ok (1 / 4) ↔
        ¬s0.Frozen ∧ ∃ t ∈ before, t.toNat = p0.initialEndDate)) := by
  have hs0 := reachable_sound h0
  subst ht1 ht1'
  have hsound := ((run_sound hs0 hrun).properties p (getProperty_ok hp).1).toCountersSound
  have hsound' := ((run_sound hs0 hrun').properties p' (getProperty_ok hp').1).toCountersSound
  obtain ⟨s1, -, hfrozen, hhead, hfresh, houtcome, hquarter⟩ :=
    outcome_propertyEvents hs0 hcreate happrove hrun hp
  obtain ⟨s1', -, hfrozen', hhead', hfresh', houtcome', -⟩ :=
    outcome_propertyEvents hs0 hcreate' happrove hrun' hp'
  -- the dates may differ between the runs, the lengths of the phases do not
  rw [← hend] at houtcome'
  have hiff := houtcome.sameAllocation_iff houtcome' hsound hsound' (hfrozen'.trans hfrozen.symm)
    (hfresh.initialCounterMax.trans hfresh'.initialCounterMax.symm)
    (hfresh.approvalCounterMax.trans hfresh'.approvalCounterMax.symm)
    (by rw [Option.isSome_map, Option.isSome_map]) (hhead ▸ hcarried) (hhead' ▸ hcarried')
  rw [hfrozen, hhead, hhead'] at hiff
  rw [hfrozen] at hquarter
  exact ⟨hiff, fun hnone _ hlt => hquarter hnone hlt⟩

def testChain : ChainState :=
  AssetLimitationCreateOperation.doApply ⟨0, "META1", 0⟩ (testGenesis 1)

theorem testChain_reachable :
    Reachable applyEvent ChainState.Genesis (fun _ _ => True) testChain :=
  .step (.init ⟨by decide, rfl, rfl⟩) trivial (rfl : applyEvent (testGenesis 1)
    (.assetLimitationCreate ⟨0, "META1", 0⟩) = .ok testChain)

def shortProperty : PropertyCreateOperation :=
  ⟨0, 1, 0, 1000000000, 4, "META1", testOptions⟩

/-- The approval comes at 80 in one run and at 100 in the other. -/
theorem missedBlocks_sameAllocation_covered :
    ∃ s s' p p',
      Lib.run applyEvent testChain
        (propertyEvents shortProperty [] [61, 80] (some ⟨0, 0, 0⟩) [130, 200]) = .ok s ∧
      Lib.run applyEvent testChain
        (propertyEvents shortProperty [30] [61, 100] (some ⟨0, 0, 0⟩) [130, 140, 200]) = .ok s' ∧
      s.getProperty 0 = .ok p ∧ s'.getProperty 0 = .ok p' ∧ p.SameAllocation p' := by
  obtain ⟨p0, hcreate, hphase⟩ : Lib.Succeeds (createProperty 1 shortProperty 0) fun p0 =>
      200 < p0.approvalEndDate ∧ p0.approvalPhase (some 80) = p0.approvalPhase (some 100) ∧
        p0.intervalsBy (some 80) 200 (p0.coveredBy [61, 80]) =
          p0.intervalsBy (some 100) 200 (p0.coveredBy [61, 100]) := by decide +kernel
  have hcreate' : createProperty 30 shortProperty 0 = .ok p0 := by
    rw [← hcreate]
    decide +kernel
  obtain ⟨s, hrun, hhead, p, hp, -⟩ : Lib.Succeeds (Lib.run applyEvent testChain
      (propertyEvents shortProperty [] [61, 80] (some ⟨0, 0, 0⟩) [130, 200])) fun s =>
        s.headBlockTime = 200 ∧ Lib.Succeeds (s.getProperty 0) fun _ => True := by decide +kernel
  obtain ⟨s', hrun', hhead', p', hp', -⟩ : Lib.Succeeds (Lib.run applyEvent testChain
      (propertyEvents shortProperty [30] [61, 100] (some ⟨0, 0, 0⟩) [130, 140, 200])) fun s =>
        s.headBlockTime = 200 ∧ Lib.Succeeds (s.getProperty 0) fun _ => True := by decide +kernel
  obtain ⟨hend, hphase, hn⟩ := hphase
  refine ⟨s, s', p, p', hrun, hrun', hp, hp', ?_⟩
  refine (missedBlocks_sameAllocation_iff testChain_reachable
    (show lastBlockTime testChain.headBlockTime [] = 1 from rfl)
    (show lastBlockTime testChain.headBlockTime [30] = 30 from rfl) hcreate hcreate'
    (fun a ha => Option.some.inj ha ▸ rfl) hrun hrun' (by rw [hhead]; decide)
    (by rw [hhead]; decide) (hhead.trans hhead'.symm) hp hp').1.mpr ?_
  rw [hhead]
  exact ⟨.inr (.inr ⟨hend, hend, hn⟩), .inl hphase⟩

/-- Without the block 120 the only interval of the initial phase is lost. -/
theorem missedBlocks_interval_lost :
    Reachable applyEvent ChainState.Genesis (fun _ _ => True) testChain ∧
    Lib.Succeeds (Lib.run applyEvent testChain
        (propertyEvents shortProperty [] [61, 120, 130] none [])) fun s =>
      Lib.Succeeds (Lib.run applyEvent testChain
          (propertyEvents shortProperty [] [61, 130] none [])) fun s' =>
        s.headBlockTime = s'.headBlockTime ∧
        Lib.Succeeds (s.getProperty 0) fun p => Lib.Succeeds (s'.getProperty 0) fun p' =>
          p.initialEndDate < s.headBlockTime ∧ s.headBlockTime < p.approvalEndDate ∧
          p.initialCounter = 1 ∧ p.getAllocationProgress = .ok (1 / 4) ∧
          p'.initialCounter = 0 ∧ p'.getAllocationProgress = .ok 0 :=
  ⟨testChain_reachable, by decide +kernel⟩

end Meta1Core.Allocation
