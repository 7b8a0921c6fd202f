import Meta1Core.Allocation.Lifecycle

/-!
# Late approval

A property that is approved after its initial phase starts its approval phase at the beginning of
the minute, with as many intervals as are left until the end date.
-/

namespace Meta1Core.Allocation

open Lib

/-- The end date of a property that waits for its approval is a whole minute, unless it has wrapped; then it
is before the initial end date, or the initial phase never begins. -/
def PropertyObject.Timely (now : Nat) (p : PropertyObject) : Prop :=
  p.approvalDate = none → p.approvalEndDate % 60 = 0 ∨ p.approvalEndDate ≤ p.initialEndDate ∨
    p.initialEndDate < now ∧ p.initialCounter = 0

theorem createProperty_timely {now id : Nat} {op : PropertyCreateOperation} {p : PropertyObject}
    (hnow : now < 2 ^ 32) (h : createProperty now op id = .ok p) : p.Timely now := by
  obtain ⟨hfits, hstart, -, -, -, -, hp⟩ := createProperty_ok hnow h
  intro _
  have hinitial := hp.initialEndDate
  have happroval := hp.approvalEndDate
  generalize op.allocationDurationMinutes.toNat = minutes at *
  by_cases hend : (now / 60 + 1) * 60 + minutes * 60 < 2 ^ 32
  · rw [u32_of_lt hend] at happroval
    omega
  · rw [u32_of_wrap (by omega) (by omega)] at happroval
    by_cases hquarter : (now / 60 + 1) * 60 + minutes * 15 < 2 ^ 32
    · rw [u32_of_lt hquarter] at hinitial
      omega
    · rw [u32_of_wrap (by omega) (by omega)] at hinitial
      exact .inr (.inr ⟨by omega, hp.initialCounter⟩)

theorem allocateProperty_timely {now hbt : Nat} {p q : PropertyObject} (hp : p.Sound now)
    (htimely : p.Timely now) (hle : now ≤ hbt) (h : allocateProperty hbt p = .ok q) : q.Timely hbt := by
  intro hnone
  obtain ⟨_, _, _, _, hq⟩ := allocateProperty_sameTerms h
  have hnone' : p.approvalDate = none := by
    rw [hq] at hnone
    exact hnone
  rcases htimely hnone' with haligned | hbefore | ⟨hover, hzero⟩
  · rw [hq]
    exact .inl haligned
  · rw [hq]
    exact .inr (.inl hbefore)
  · -- the initial phase is over, so no interval is added to it
    have hcounter : q.initialCounter = 0 := by
      rcases allocateProperty_cases hp hle with ⟨-, heq⟩ | ⟨-, -, -, heq⟩ | ⟨-, -, hsome, -⟩ |
        ⟨-, -, -, -, heq⟩ | ⟨-, -, hphase, -, -⟩
      · rw [heq] at h
        cases h
        exact hzero
      · rw [heq] at h
        cases h
        rfl
      · exact absurd hnone' hsome
      · rw [heq] at h
        cases h
        exact hzero
      · rcases hphase with hin | hsome
        · omega
        · exact absurd hnone' hsome
    refine .inr (.inr ⟨?_, hcounter⟩)
    rw [hq]
    show p.initialEndDate < hbt
    omega

variable {s s' t : ChainState}

theorem reachable_timely (h : Reachable applyEvent ChainState.Genesis (fun _ _ => True) s) :
    s.Sound ∧ ∀ p ∈ s.properties, p.Timely s.headBlockTime := by
  refine h.invariant (fun s => s.Sound ∧ ∀ p ∈ s.properties, p.Timely s.headBlockTime) ?_ ?_
  · intro s hs
    refine ⟨hs.sound, fun p hp => ?_⟩
    rw [hs.properties] at hp
    cases hp
  · intro s e s' ⟨hs, htimely⟩ _ hstep
    refine ⟨applyEvent_sound hs hstep, fun q hq => ?_⟩
    obtain ⟨-, hle, hsame, hdescent⟩ := applyEvent_descent hstep
    cases hdescent q hq with
    | kept hmem =>
      intro hnone
      rcases htimely q hmem hnone with haligned | hbefore | ⟨hover, hzero⟩
      · exact .inl haligned
      · exact .inr (.inl hbefore)
      · exact .inr (.inr ⟨hover.trans_le hle, hzero⟩)
    | created hvalid hcreate =>
      rw [hsame (fun t heq => by cases heq)]
      exact createProperty_timely hs.headBlockTime_lt hcreate
    | updated p hp heq =>
      rw [hsame (fun t heq => by cases heq), heq]
      exact htimely p hp
    | approved p hp hid hdeadline hnone happrove =>
      intro hnone'
      obtain ⟨hsome, -⟩ :=
        approveProperty_schedule hs.headBlockTime_lt (hs.properties p hp).approvalEndDate_le happrove
      exact absurd hnone' hsome
    | @allocated t p hp hlt hallocate =>
      rw [(block_moves hstep).1]
      exact allocateProperty_timely (hs.properties p hp) (htimely p hp) hlt.le hallocate

structure PropertyObject.LateApproved (restart now : Nat) (p : PropertyObject) : Prop where
  approved : p.approvalDate ≠ none
  complete : p.initialCounter = p.initialCounterMax
  approvalCounterMax_pos : 0 < p.approvalCounterMax
  approvalEndDate : p.approvalEndDate = restart + 60 * p.approvalCounterMax
  running : p.expired = false → now < p.approvalEndDate ∧
    p.nextAllocationDate = restart + 60 * (p.approvalCounter + 1) ∧
    restart + 60 * p.approvalCounter ≤ now ∧ now < restart + 60 * (p.approvalCounter + 1)
  settled : p.expired = true → p.approvalEndDate ≤ now ∧ p.approvalCounter = p.approvalCounterMax

namespace PropertyObject.LateApproved

variable {restart now hbt : Nat} {p q : PropertyObject}

theorem counter_iff (h : p.LateApproved restart now) :
    p.approvalCounter = p.approvalCounterMax ↔ p.approvalEndDate ≤ now := by
  cases hexpired : p.expired with
  | true =>
    obtain ⟨hend, hfull⟩ := h.settled hexpired
    exact ⟨fun _ => hend, fun _ => hfull⟩
  | false =>
    obtain ⟨hbefore, -, hpassed, -⟩ := h.running hexpired
    have hend := h.approvalEndDate
    constructor
    · intro hfull
      omega
    · intro hle
      omega

theorem counter_eq (h : p.LateApproved restart now) (hbefore : now < p.approvalEndDate) :
    p.approvalCounter = (now - restart) / 60 := by
  cases hexpired : p.expired with
  | true =>
    obtain ⟨hend, -⟩ := h.settled hexpired
    omega
  | false =>
    obtain ⟨-, -, hpassed, hnext⟩ := h.running hexpired
    omega

/-- A block adds the intervals that have passed since the last one, or completes the phase. -/
theorem allocate (h : p.LateApproved restart now) (hp : p.Sound now) (hlt : now < hbt)
    (hallocate : allocateProperty hbt p = .ok q) : q.LateApproved restart hbt := by
  have hend := h.approvalEndDate
  rcases allocateProperty_cases hp hlt.le with ⟨hexpired, heq⟩ | ⟨-, -, hnone, -⟩ |
    ⟨hlive, hover, hsome, heq⟩ | ⟨-, -, -, hnone, -⟩ | ⟨hlive, hbefore, -, -, heq⟩
  · rw [heq] at hallocate
    cases hallocate
    obtain ⟨hpast, hfull⟩ := h.settled hexpired
    refine ⟨h.approved, h.complete, h.approvalCounterMax_pos, hend, fun hlive => ?_, fun _ => ?_⟩
    · rw [hexpired] at hlive
      cases hlive
    · exact ⟨by omega, hfull⟩
  · exact absurd hnone h.approved
  · rw [heq] at hallocate
    cases hallocate
    exact ⟨hsome, rfl, h.approvalCounterMax_pos, hend, fun hlive => (nomatch hlive), fun _ => ⟨hover, rfl⟩⟩
  · exact absurd hnone h.approved
  · rw [heq] at hallocate
    cases hallocate
    obtain ⟨-, hnext, hpassed, hsoon⟩ := h.running hlive
    have hcomplete := h.complete
    have happroved : p.approvalDate.isSome = true := Option.isSome_iff_ne_none.mpr h.approved
    -- the rounds that are due all go to the approval counter
    have hdue : p.approvalCounter + p.intervalsDue hbt = (hbt - restart) / 60 := by
      unfold PropertyObject.intervalsDue
      rw [hnext]
      split
      · omega
      · omega
    have hcounter : (p.allocateIntervals (p.intervalsDue hbt)).approvalCounter = (hbt - restart) / 60 := by
      unfold PropertyObject.allocateIntervals
      dsimp only
      rw [if_pos happroved, hcomplete, Nat.sub_self, Nat.sub_zero, hdue]
      apply min_eq_right
      omega
    refine ⟨h.approved, ?_, h.approvalCounterMax_pos, hend, fun _ => ?_, fun hexpired => ?_⟩
    · show min p.initialCounterMax (p.initialCounter + _) = p.initialCounterMax
      rw [hcomplete]
      exact min_eq_left (Nat.le_add_right _ _)
    · refine ⟨hbefore, ?_, ?_, ?_⟩
      · rw [hcounter]
        show p.nextAllocationDate + 60 * p.intervalsDue hbt = _
        omega
      · rw [hcounter]
        omega
      · rw [hcounter]
        omega
    · have hlive' : p.expired = true := hexpired
      rw [hlive] at hlive'
      cases hlive'

theorem withOptions (h : p.LateApproved restart now) (options : PropertyOptions) :
    { p with options := options }.LateApproved restart now :=
  ⟨h.approved, h.complete, h.approvalCounterMax_pos, h.approvalEndDate, h.running, h.settled⟩

end PropertyObject.LateApproved

theorem approveProperty_late {now : Nat} {p q : PropertyObject} (hnow : now < 2 ^ 32) (hp : p.Sound now)
    (htimely : p.Timely now) (hnone : p.approvalDate = none) (hdeadline : now < p.approvalEndDate)
    (hcomplete : p.initialCounter = p.initialCounterMax) (hlate : p.initialEndDate ≤ now)
    (h : approveProperty now p = .ok q) : q.LateApproved (now / 60 * 60) now := by
  have haligned : p.approvalEndDate % 60 = 0 := by
    rcases htimely hnone with haligned | hbefore | ⟨-, hzero⟩
    · exact haligned
    · omega
    · have hpos := hp.initialMax_pos
      omega
  have hlive : p.expired ≠ true := by
    intro hexpired
    have hpast := hp.expired_past hexpired
    omega
  rcases approveProperty_ok hnow hp.approvalEndDate_le h with ⟨hearly, -⟩ | ⟨-, -, hzero, rfl⟩
  · omega
  · have hend : p.approvalEndDate = now / 60 * 60 + 60 * ((p.approvalEndDate - now / 60 * 60) / 60) := by
      omega
    refine ⟨Option.some_ne_none _, hcomplete, ?_, hend, fun _ => ⟨hdeadline, ?_, ?_, ?_⟩, fun hexpired => ?_⟩
    · show 0 < (p.approvalEndDate - now / 60 * 60) / 60
      omega
    · show now / 60 * 60 + 60 = now / 60 * 60 + 60 * (p.approvalCounter + 1)
      rw [hzero]
    · show now / 60 * 60 + 60 * p.approvalCounter ≤ now
      omega
    · show now < now / 60 * 60 + 60 * (p.approvalCounter + 1)
      omega
    · exact absurd hexpired hlive

/-- When a block ends, every limitation names a symbol whose asset exists. -/
def unfrozenBlock (s : ChainState) : Event → Prop
  | .block _ => ¬s.Frozen
  | _ => True

instance (s : ChainState) : (e : Event) → Decidable (unfrozenBlock s e)
  | .block _ => inferInstanceAs (Decidable (¬s.Frozen))
  | .accountCreate _ | .assetCreate _ | .assetLimitationCreate _ | .assetLimitationUpdate _
  | .propertyCreate _ | .propertyUpdate _ | .propertyApprove _ | .propertyDelete _ => .isTrue trivial

structure ChainState.LateApproved (id restart endDate : Nat) (s : ChainState) : Prop where
  sound : s.Sound
  id_lt : id < s.nextPropertyId
  property : ∀ p ∈ s.properties, p.id = id →
    p.LateApproved restart s.headBlockTime ∧ p.approvalEndDate = endDate

theorem ChainState.LateApproved.event {id restart endDate : Nat} {e : Event}
    (h : s.LateApproved id restart endDate) (hunfrozen : unfrozenBlock s e)
    (hstep : applyEvent s e = .ok s') : s'.LateApproved id restart endDate := by
  obtain ⟨hnext, -, hsame, hdescent⟩ := applyEvent_descent hstep
  refine ⟨applyEvent_sound h.sound hstep, h.id_lt.trans_le hnext, fun q hq hid => ?_⟩
  by_cases hblock : ∃ t, e = .block t
  · obtain ⟨t, rfl⟩ := hblock
    obtain ⟨htime, hlt, -⟩ := block_moves hstep
    obtain ⟨-, hupdate⟩ := block_ok hstep
    have hallocated : ∃ p ∈ s.properties, allocateProperty t.toNat p = .ok q := by
      rcases updateSmoothAllocation_ok hupdate with ⟨hfrozen, -⟩ | ⟨-, ps, hps, ⟨-, rfl⟩ | ⟨cs, -, rfl⟩⟩
      · exact absurd hfrozen hunfrozen
      · exact exists_of_mem_right hps hq
      · exact exists_of_mem_right hps hq
    obtain ⟨p, hp, hallocate⟩ := hallocated
    obtain ⟨_, _, _, _, hterms⟩ := allocateProperty_sameTerms hallocate
    have hpid : p.id = id := by
      rw [hterms] at hid
      exact hid
    obtain ⟨hlate, hend⟩ := h.property p hp hpid
    rw [htime]
    refine ⟨hlate.allocate (h.sound.properties p hp) hlt hallocate, ?_⟩
    rw [hterms]
    exact hend
  rw [hsame fun t heq => hblock ⟨t, heq⟩]
  cases hdescent q hq with
  | kept hmem => exact h.property q hmem hid
  | created hvalid hcreate =>
    have hnew := (createProperty_ok h.sound.headBlockTime_lt hcreate).2.2.1
    have hlt := h.id_lt
    omega
  | updated p hp heq =>
    subst heq
    obtain ⟨hlate, hend⟩ := h.property p hp hid
    exact ⟨hlate.withOptions _, hend⟩
  | approved p hp hpid hdeadline hnone happrove =>
    -- it has been approved already
    obtain ⟨hqid, -⟩ := approveProperty_terms h.sound.headBlockTime_lt
      (h.sound.properties p hp).approvalEndDate_le happrove
    obtain ⟨hlate, -⟩ := h.property p hp (hqid.symm.trans hid)
    exact absurd hnone hlate.approved
  | allocated => exact absurd ⟨_, rfl⟩ hblock

theorem ChainState.LateApproved.reachable {id restart endDate : Nat}
    (h : s.LateApproved id restart endDate) (ht : Reachable applyEvent (· = s) unfrozenBlock t) :
    t.LateApproved id restart endDate := by
  refine ht.invariant (ChainState.LateApproved id restart endDate) ?_ ?_
  · intro _ heq
    rw [heq]
    exact h
  · intro s e s' h hunfrozen hstep
    exact h.event hunfrozen hstep

theorem ChainState.LateApproved.progress_le {id restart endDate : Nat}
    (h : s.LateApproved id restart endDate) (ht : Reachable applyEvent (· = s) unfrozenBlock t)
    {p q : PropertyObject} (hp : p ∈ s.properties) (hpid : p.id = id) (hq : q ∈ t.properties)
    (hqid : q.id = id) : p.progress ≤ q.progress := by
  obtain ⟨-, -, hdevelops⟩ := reachable_develops h.sound ht
  rcases hdevelops q hq with hnew | ⟨p', hp', hpq⟩
  · have hlt := h.id_lt
    omega
  · have hsame : p' = p := by
      apply List.inj_on_of_nodup_map h.sound.ids_nodup hp' hp
      rw [← hpq.id, hqid, hpid]
    rw [← hsame]
    rcases hpq.progress with hle | ⟨-, -, hnone⟩
    · exact hle
    · have hlate := (h.reachable ht).property q hq hqid
      exact absurd hnone hlate.1.approved

theorem propertyApprove_late {op : PropertyApproveOperation} {p : PropertyObject} (hs : s.Sound)
    (htimely : ∀ p ∈ s.properties, p.Timely s.headBlockTime) (hp : p ∈ s.properties)
    (hid : p.id = op.propertyToApprove) (hcomplete : p.initialCounter = p.initialCounterMax)
    (hlate : p.initialEndDate ≤ s.headBlockTime) (h : applyEvent s (.propertyApprove op) = .ok s') :
    s'.LateApproved p.id (s.headBlockTime / 60 * 60) p.approvalEndDate ∧
      ∃ q ∈ s'.properties, q.id = p.id ∧ q.progress = 1 / 4 := by
  have hs' := applyEvent_sound hs h
  obtain ⟨p', hp', hid', hdeadline, hnone, q, hq, rfl⟩ := propertyApprove_ok h
  have hsame : p' = p := List.inj_on_of_nodup_map hs.ids_nodup hp' hp (hid'.trans hid.symm)
  subst hsame
  have hsound := hs.properties p' hp'
  obtain ⟨hqid, -⟩ := approveProperty_terms hs.headBlockTime_lt hsound.approvalEndDate_le hq
  obtain ⟨-, -, hend, -⟩ := approveProperty_schedule hs.headBlockTime_lt hsound.approvalEndDate_le hq
  have hphase := approveProperty_late hs.headBlockTime_lt hsound (htimely p' hp') hnone hdeadline
    hcomplete hlate hq
  refine ⟨⟨hs', hs.ids_lt p' hp', fun r hr hrid => ?_⟩, q, ?_, hqid, ?_⟩
  · rcases mem_modifyProperty hr with rfl | ⟨-, hne⟩
    · exact ⟨hphase, hend⟩
    · exact absurd (hrid.trans hqid.symm) hne
  · exact List.mem_map.mpr ⟨p', hp', if_pos hqid.symm⟩
  · rw [approveProperty_progress hs.headBlockTime_lt hsound hq]
    have hzero := hsound.unapproved hnone
    exact (progress_eq_quarter_iff hsound.initialMax_pos hzero).mpr hcomplete

/-- A property is approved after its initial phase.  As long as blocks end with an asset for every
limitation, the progress rises from a quarter through the restarted approval phase, and the counter
is full from the first block at or after the end date on, and not before. -/
theorem lateApproval_finishes {s s' : ChainState} {op : PropertyApproveOperation} {p : PropertyObject}
    (hs : Reachable applyEvent ChainState.Genesis (fun _ _ => True) s) (hp : p ∈ s.properties)
    (hid : p.id = op.propertyToApprove) (hcomplete : p.initialCounter = p.initialCounterMax)
    (hlate : p.initialEndDate ≤ s.headBlockTime) (h : applyEvent s (.propertyApprove op) = .ok s') :
    (∃ q ∈ s'.properties, q.id = p.id ∧ q.progress = 1 / 4) ∧
    ∀ t, Reachable applyEvent (· = s') unfrozenBlock t → ∀ q ∈ t.properties, q.id = p.id →
      1 ≤ q.approvalCounterMax ∧ q.getAllocationProgress = .ok q.progress ∧ 1 / 4 ≤ q.progress ∧
      (t.headBlockTime < p.approvalEndDate →
        q.approvalCounter = (t.headBlockTime - s.headBlockTime / 60 * 60) / 60) ∧
      (q.approvalCounter = q.approvalCounterMax ↔ p.approvalEndDate ≤ t.headBlockTime) ∧
      ∀ t', Reachable applyEvent (· = t) unfrozenBlock t' → ∀ q' ∈ t'.properties, q'.id = p.id →
        q.progress ≤ q'.progress := by
  obtain ⟨hsound, htimely⟩ := reachable_timely hs
  obtain ⟨hstart, q0, hq0, hid0, hquarter⟩ := propertyApprove_late hsound htimely hp hid hcomplete hlate h
  refine ⟨⟨q0, hq0, hid0, hquarter⟩, fun t ht q hq hqid => ?_⟩
  have hphase := hstart.reachable ht
  obtain ⟨hq', hend⟩ := hphase.property q hq hqid
  have hcounters := (hphase.sound.properties q hq).toCountersSound
  refine ⟨hq'.approvalCounterMax_pos, ?_, ?_, fun hbefore => ?_, ?_, fun t' ht' q' hmem hid' => ?_⟩
  · exact getAllocationProgress_eq hcounters hq'.approvalCounterMax_pos
  · rw [← hquarter]
    exact hstart.progress_le ht hq0 hid0 hq hqid
  · apply hq'.counter_eq
    rw [hend]
    exact hbefore
  · rw [hq'.counter_iff, hend]
  · exact hphase.progress_le ht' hq hqid hmem hid'

def initialPhase : List Event :=
  [.assetLimitationCreate ⟨0, "META1", 0⟩, testProperty 1 1000000000 4 "META1", .block 61, .block 120,
    .block 130]

def approvalPhase : List Event := [.block 180, .block 240, .block 300]

theorem lateApproval_finishes_minutes :
    ∃ s s' p t q, Reachable applyEvent ChainState.Genesis (fun _ _ => True) s ∧ p ∈ s.properties ∧
      applyEvent s (.propertyApprove ⟨0, 0, 0⟩) = .ok s' ∧
      Reachable applyEvent (· = s') unfrozenBlock t ∧ q ∈ t.properties ∧ q.id = p.id ∧
      q.approvalCounter = q.approvalCounterMax := by
  have hgenesis : (testGenesis 1).Genesis := ⟨by decide, rfl, rfl⟩
  have hend : Lib.Succeeds (Lib.run applyEvent (testGenesis 1) initialPhase) fun s =>
      ∃ p ∈ s.properties, p.id = 0 ∧ p.initialCounter = p.initialCounterMax ∧
        p.initialEndDate ≤ s.headBlockTime ∧
        Lib.Succeeds (applyEvent s (.propertyApprove ⟨0, 0, 0⟩)) fun s' =>
          StepsMeet applyEvent unfrozenBlock s' approvalPhase ∧
          Lib.Succeeds (Lib.run applyEvent s' approvalPhase) fun t =>
            p.approvalEndDate ≤ t.headBlockTime ∧ ∃ q ∈ t.properties, q.id = p.id := by
    decide +kernel
  obtain ⟨s, hs, p, hp, hid, hcomplete, hlate, s', happrove, hmeet, hrun⟩ :=
    Reachable.of_run initialPhase hgenesis (StepsMeet.of_forall (fun _ _ _ => trivial) _) hend
  have hblocks : ∃ t, Reachable applyEvent (· = s') unfrozenBlock t ∧
      p.approvalEndDate ≤ t.headBlockTime ∧ ∃ q ∈ t.properties, q.id = p.id :=
    Reachable.of_run approvalPhase rfl hmeet hrun
  obtain ⟨t, ht, hover, q, hq, hqid⟩ := hblocks
  obtain ⟨-, hfinishes⟩ := lateApproval_finishes hs hp hid hcomplete hlate happrove
  obtain ⟨-, -, -, -, hfull, -⟩ := hfinishes t ht q hq hqid
  exact ⟨s, s', p, t, q, hs, hp, happrove, ht, hq, hqid, hfull.mpr hover⟩

/-- The same with a limitation on a symbol without an asset: nothing is allocated any more. -/
theorem lateApproval_frozen :
    ∃ s s' p t q, Reachable applyEvent ChainState.Genesis (fun _ _ => True) s ∧ p ∈ s.properties ∧
      p.initialCounter = p.initialCounterMax ∧ p.initialEndDate < s.headBlockTime ∧
      p.id = 0 ∧ applyEvent s (.propertyApprove ⟨0, 0, 0⟩) = .ok s' ∧
      Lib.run applyEvent s' approvalPhase = .ok t ∧ p.approvalEndDate ≤ t.headBlockTime ∧
      q ∈ t.properties ∧ q.id = p.id ∧ q.approvalCounter ≠ q.approvalCounterMax := by
  have hgenesis : (testGenesis 1).Genesis := ⟨by decide, rfl, rfl⟩
  have hend : Lib.Succeeds
      (Lib.run applyEvent (testGenesis 1) (initialPhase ++ [.assetLimitationCreate ⟨0, "GOLD", 0⟩])) fun s =>
      ∃ p ∈ s.properties, p.initialCounter = p.initialCounterMax ∧ p.initialEndDate < s.headBlockTime ∧
        p.id = 0 ∧ Lib.Succeeds (applyEvent s (.propertyApprove ⟨0, 0, 0⟩)) fun s' =>
          Lib.Succeeds (Lib.run applyEvent s' approvalPhase) fun t =>
            p.approvalEndDate ≤ t.headBlockTime ∧
              ∃ q ∈ t.properties, q.id = p.id ∧ q.approvalCounter ≠ q.approvalCounterMax := by
    decide +kernel
  obtain ⟨s, hs, p, hp, hcomplete, hlate, hid, s', happrove, t, ht, hover, q, hq, hqid, hnot⟩ :=
    Reachable.of_run _ hgenesis (StepsMeet.of_forall (fun _ _ _ => trivial) _) hend
  exact ⟨s, s', p, t, q, hs, hp, hcomplete, hlate, hid, happrove, ht, hover, hq, hqid, hnot⟩

end Meta1Core.Allocation
