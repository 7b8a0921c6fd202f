import Meta1Core.Allocation.Steps

/-!
# The life of a property

The invariant of the whole chain, kept by every event, and what it says about every property of
every reachable state.
-/

namespace Meta1Core.Allocation

open Lib

structure ChainState.Sound (s : ChainState) : Prop where
  headBlockTime_lt : s.headBlockTime < 2 ^ 32
  properties : ∀ p ∈ s.properties, p.Sound s.headBlockTime
  ids_lt : ∀ p ∈ s.properties, p.id < s.nextPropertyId
  ids_nodup : (s.properties.map (·.id)).Nodup
  symbols_nodup : (s.assetLimitations.map (·.limitSymbol)).Nodup
  backed : ∀ p ∈ s.properties, p.backedByAssetSymbol ∈ s.assetLimitations.map (·.limitSymbol)

variable {s s' : ChainState} {p q : PropertyObject} {cond : ChainState → Event → Prop}

theorem ChainState.Genesis.sound (h : s.Genesis) : s.Sound := by
  refine ⟨h.headBlockTime_lt, ?_, ?_, ?_, ?_, ?_⟩ <;> simp [h.properties, h.assetLimitations]

theorem modifyProperty_sound (hs : s.Sound) (hp : p ∈ s.properties) (hq : q.Sound s.headBlockTime)
    (hid : q.id = p.id) (hsymbol : q.backedByAssetSymbol = p.backedByAssetSymbol) :
    (s.modifyProperty q).Sound := by
  refine ⟨hs.headBlockTime_lt, ?_, ?_, ?_, hs.symbols_nodup, ?_⟩
  · intro r hr
    rcases mem_modifyProperty hr with rfl | ⟨hr, -⟩
    · exact hq
    · exact hs.properties r hr
  · intro r hr
    rcases mem_modifyProperty hr with rfl | ⟨hr, -⟩
    · rw [hid]
      exact hs.ids_lt p hp
    · exact hs.ids_lt r hr
  · rw [modifyProperty_ids]
    exact hs.ids_nodup
  · intro r hr
    rcases mem_modifyProperty hr with rfl | ⟨hr, -⟩
    · rw [hsymbol]
      exact hs.backed p hp
    · exact hs.backed r hr

theorem assetLimitationCreate_sound {op : AssetLimitationCreateOperation} (hs : s.Sound)
    (hfresh : ∀ a ∈ s.assetLimitations, a.limitSymbol ≠ op.limitSymbol) :
    (op.doApply s).Sound := by
  have hsymbols : (op.doApply s).assetLimitations.map (·.limitSymbol) =
      s.assetLimitations.map (·.limitSymbol) ++ [op.limitSymbol] := by
    simp [AssetLimitationCreateOperation.doApply]
  refine ⟨hs.headBlockTime_lt, hs.properties, hs.ids_lt, hs.ids_nodup, ?_, ?_⟩
  · rw [hsymbols, List.nodup_append]
    refine ⟨hs.symbols_nodup, List.nodup_singleton _, ?_⟩
    intro symbol hmem other hother heq
    obtain ⟨a, ha, rfl⟩ := List.mem_map.mp hmem
    exact hfresh a ha (heq.trans (List.mem_singleton.mp hother))
  · intro p hp
    rw [hsymbols]
    exact List.mem_append_left _ (hs.backed p hp)

theorem propertyCreate_sound {op : PropertyCreateOperation} (hs : s.Sound)
    (hvalid : op.validate = .ok ())
    (hlimit : ∃ a ∈ s.assetLimitations, a.limitSymbol = op.backedByAssetSymbol)
    (hp : createProperty s.headBlockTime op s.nextPropertyId = .ok p) :
    ({ s with properties := s.properties ++ [p], nextPropertyId := s.nextPropertyId + 1 } :
      ChainState).Sound := by
  obtain ⟨-, -, hid, -, -, hsymbol, -⟩ := createProperty_ok hs.headBlockTime_lt hp
  refine ⟨hs.headBlockTime_lt, ?_, ?_, ?_, hs.symbols_nodup, ?_⟩
  · intro q hq
    rcases List.mem_append.mp hq with hq | hq
    · exact hs.properties q hq
    · rw [List.mem_singleton.mp hq]
      exact (createProperty_sound hs.headBlockTime_lt hvalid hp).1
  · intro q hq
    rcases List.mem_append.mp hq with hq | hq
    · exact Nat.lt_succ_of_lt (hs.ids_lt q hq)
    · rw [List.mem_singleton.mp hq, hid]
      exact Nat.lt_succ_self _
  · rw [List.map_append, List.nodup_append]
    refine ⟨hs.ids_nodup, List.nodup_singleton _, ?_⟩
    intro i hi j hj heq
    obtain ⟨q, hq, rfl⟩ := List.mem_map.mp hi
    have hlt := hs.ids_lt q hq
    rw [List.map_singleton, List.mem_singleton, hid] at hj
    omega
  · intro q hq
    rcases List.mem_append.mp hq with hq | hq
    · exact hs.backed q hq
    · obtain ⟨a, ha, hasymbol⟩ := hlimit
      rw [List.mem_singleton.mp hq, hsymbol, ← hasymbol]
      exact List.mem_map_of_mem ha

variable {alos : List AssetLimitationObject}

theorem propertyDelete_sound (hs : s.Sound)
    (halos : alos.map (·.limitSymbol) = s.assetLimitations.map (·.limitSymbol)) : ({ s with
      assetLimitations := alos
      properties := s.properties.filter (·.id ≠ p.id) } : ChainState).Sound := by
  have hmem : ∀ q, q ∈ s.properties.filter (·.id ≠ p.id) → q ∈ s.properties :=
    fun q hq => (List.mem_filter.mp hq).1
  refine ⟨hs.headBlockTime_lt, fun q hq => hs.properties q (hmem q hq),
    fun q hq => hs.ids_lt q (hmem q hq), ?_, ?_, ?_⟩
  · exact hs.ids_nodup.sublist (List.filter_sublist.map _)
  · exact halos ▸ hs.symbols_nodup
  · intro q hq
    exact halos ▸ hs.backed q (hmem q hq)

theorem blockProperties_sound {t : Nat} {ps : List PropertyObject} (hs : s.Sound) (ht : t < 2 ^ 32)
    (hle : s.headBlockTime ≤ t)
    (hps : List.Forall₂ (fun p q => allocateProperty t p = .ok q) s.properties ps)
    (halos : alos.map (·.limitSymbol) = s.assetLimitations.map (·.limitSymbol)) :
    ({ s with headBlockTime := t, properties := ps, assetLimitations := alos } :
      ChainState).Sound := by
  have hids : s.properties.map (·.id) = ps.map (·.id) :=
    map_eq_of_forall₂ (fun p q h => by
      obtain ⟨_, _, _, _, rfl⟩ := allocateProperty_sameTerms h
      rfl) hps
  refine ⟨ht, ?_, ?_, hids ▸ hs.ids_nodup, halos ▸ hs.symbols_nodup, ?_⟩
  · intro q hq
    obtain ⟨p, hp, h⟩ := exists_of_mem_right hps hq
    exact allocateProperty_sound (hs.properties p hp) hle h
  · intro q hq
    obtain ⟨p, hp, h⟩ := exists_of_mem_right hps hq
    obtain ⟨_, _, _, _, rfl⟩ := allocateProperty_sameTerms h
    exact hs.ids_lt p hp
  · intro q hq
    obtain ⟨p, hp, h⟩ := exists_of_mem_right hps hq
    obtain ⟨_, _, _, _, rfl⟩ := allocateProperty_sameTerms h
    exact halos ▸ hs.backed p hp

theorem frozenBlock_sound {t : Nat} (hs : s.Sound) (ht : t < 2 ^ 32) (hle : s.headBlockTime ≤ t) :
    ({ s with headBlockTime := t } : ChainState).Sound := by
  refine ⟨ht, ?_, hs.ids_lt, hs.ids_nodup, hs.symbols_nodup, hs.backed⟩
  intro p hp
  have h := hs.properties p hp
  refine ⟨h.toCountersSound, h.approvalEndDate_le, ?_, ?_, h.expired_counters⟩
  · exact h.nextAllocation_aligned.imp id fun ⟨hnone, hlt⟩ => ⟨hnone, Nat.lt_of_lt_of_le hlt hle⟩
  · exact fun he => (h.expired_past he).trans hle

theorem block_sound {t : UInt32} (hs : s.Sound) (h : applyEvent s (.block t) = .ok s') :
    s'.Sound := by
  obtain ⟨hlt, hupdate⟩ := block_ok h
  rcases updateSmoothAllocation_ok hupdate with ⟨-, rfl⟩ | ⟨-, ps, hps, ⟨-, rfl⟩ | ⟨cs, -, rfl⟩⟩
  · exact frozenBlock_sound hs t.toNat_lt hlt.le
  · exact blockProperties_sound (s := s) hs t.toNat_lt hlt.le hps rfl
  · exact blockProperties_sound (s := s) hs t.toNat_lt hlt.le hps (assignSellLimits_symbols ..)

variable {e : Event}

theorem applyEvent_sound (hs : s.Sound) (h : applyEvent s e = .ok s') : s'.Sound := by
  cases e with
  | accountCreate name =>
    rw [accountCreate_ok h]
    exact ⟨hs.headBlockTime_lt, hs.properties, hs.ids_lt, hs.ids_nodup, hs.symbols_nodup, hs.backed⟩
  | assetCreate symbol =>
    rw [assetCreate_ok h]
    exact ⟨hs.headBlockTime_lt, hs.properties, hs.ids_lt, hs.ids_nodup, hs.symbols_nodup, hs.backed⟩
  | assetLimitationCreate op =>
    obtain ⟨hfresh, rfl⟩ := assetLimitationCreate_ok h
    exact assetLimitationCreate_sound hs hfresh
  | assetLimitationUpdate op =>
    rw [assetLimitationUpdate_ok h]
    exact hs
  | propertyCreate op =>
    obtain ⟨hvalid, hlimit, p, hp, rfl⟩ := propertyCreate_ok h
    exact propertyCreate_sound hs hvalid hlimit hp
  | propertyUpdate op =>
    obtain ⟨p, hp, rfl⟩ := propertyUpdate_ok h
    have hsound := hs.properties p hp
    exact modifyProperty_sound hs hp ⟨⟨hsound.initialMax_pos, hsound.initialMax_le,
      hsound.approvalMax_le, hsound.initial_le, hsound.approval_le, hsound.phase,
      hsound.unapproved⟩, hsound.approvalEndDate_le, hsound.nextAllocation_aligned,
      hsound.expired_past, hsound.expired_counters⟩ rfl rfl
  | propertyApprove op =>
    obtain ⟨p, hp, -, hdeadline, -, q, hq, rfl⟩ := propertyApprove_ok h
    have hsound := hs.properties p hp
    have hq' := approveProperty_sound hs.headBlockTime_lt hsound hdeadline hq
    rcases approveProperty_ok hs.headBlockTime_lt hsound.approvalEndDate_le hq with
      ⟨-, rfl⟩ | ⟨-, -, -, rfl⟩
    · exact modifyProperty_sound hs hp hq' rfl rfl
    · exact modifyProperty_sound hs hp hq' rfl rfl
  | propertyDelete op =>
    obtain ⟨p, -, alos, ⟨-, rfl⟩ | ⟨a, c, -, -, rfl⟩, rfl⟩ := propertyDelete_ok h
    · exact propertyDelete_sound hs rfl
    · exact propertyDelete_sound hs (setSellLimit_symbols ..)
  | block t => exact block_sound hs h

theorem reachable_sound (h : Reachable applyEvent ChainState.Genesis cond s) : s.Sound :=
  h.invariant ChainState.Sound (fun _ hs => hs.sound) (fun _ _ _ hs _ hstep => applyEvent_sound hs hstep)

theorem run_sound {t : ChainState} {es : List Event} (hs : s.Sound)
    (h : Lib.run applyEvent s es = .ok t) : t.Sound := by
  induction es generalizing s with
  | nil => cases h; exact hs
  | cons e es ih =>
    obtain ⟨s', hstep, hrest⟩ := run_cons_eq_ok.mp h
    exact ih (applyEvent_sound hs hstep) hrest

/-- An approval after the initial phase leaves at least one whole interval until the end date. -/
def lateApprovalFits (s : ChainState) : Event → Prop
  | .propertyApprove op =>
    ∀ p ∈ s.properties, p.id = op.propertyToApprove → p.initialEndDate ≤ s.headBlockTime →
      calcMeta1PrecedingStartTime s.headBlockTime + meta1IntervalBetweenAllocationSeconds ≤
        p.approvalEndDate
  | _ => True

instance (s : ChainState) : (e : Event) → Decidable (lateApprovalFits s e)
  | .propertyApprove op =>
    inferInstanceAs (Decidable (∀ p ∈ s.properties, p.id = op.propertyToApprove →
      p.initialEndDate ≤ s.headBlockTime →
      calcMeta1PrecedingStartTime s.headBlockTime + meta1IntervalBetweenAllocationSeconds ≤
        p.approvalEndDate))
  | .accountCreate _ | .assetCreate _ | .assetLimitationCreate _ | .assetLimitationUpdate _
  | .propertyCreate _ | .propertyUpdate _ | .propertyDelete _ | .block _ => .isTrue trivial

def ChainState.ApprovalPhases (s : ChainState) : Prop :=
  ∀ p ∈ s.properties, 0 < p.approvalCounterMax

variable {op : PropertyApproveOperation}

theorem approveProperty_approvalPhase (hs : s.Sound) (hp : p ∈ s.properties)
    (hid : p.id = op.propertyToApprove) (hA : 0 < p.approvalCounterMax)
    (hfits : lateApprovalFits s (.propertyApprove op))
    (hq : approveProperty s.headBlockTime p = .ok q) : 0 < q.approvalCounterMax := by
  have hnow := hs.headBlockTime_lt
  rcases approveProperty_ok hnow (hs.properties p hp).approvalEndDate_le hq with
    ⟨-, rfl⟩ | ⟨hlate, -, -, rfl⟩
  · exact hA
  · have hroom := hfits p hp hid hlate
    rw [calcMeta1PrecedingStartTime_eq _ hnow, meta1IntervalBetweenAllocationSeconds] at hroom
    dsimp only
    omega

inductive Descent (s : ChainState) (q : PropertyObject) : Event → Prop
  | kept {e : Event} : q ∈ s.properties → Descent s q e
  | created {op : PropertyCreateOperation} : op.validate = .ok () →
      createProperty s.headBlockTime op s.nextPropertyId = .ok q →
      Descent s q (.propertyCreate op)
  | updated {op : PropertyUpdateOperation} (p : PropertyObject) : p ∈ s.properties →
      q = { p with options := op.newOptions } → Descent s q (.propertyUpdate op)
  | approved {op : PropertyApproveOperation} (p : PropertyObject) : p ∈ s.properties →
      p.id = op.propertyToApprove → s.headBlockTime < p.approvalEndDate → p.approvalDate = none →
      approveProperty s.headBlockTime p = .ok q → Descent s q (.propertyApprove op)
  | allocated {t : UInt32} (p : PropertyObject) : p ∈ s.properties → s.headBlockTime < t.toNat →
      allocateProperty t.toNat p = .ok q → Descent s q (.block t)

theorem applyEvent_descent (h : applyEvent s e = .ok s') :
    s.nextPropertyId ≤ s'.nextPropertyId ∧ s.headBlockTime ≤ s'.headBlockTime ∧
      ((∀ t, e ≠ .block t) → s'.headBlockTime = s.headBlockTime) ∧
      ∀ q ∈ s'.properties, Descent s q e := by
  cases e with
  | accountCreate name =>
    rw [accountCreate_ok h]
    exact ⟨le_refl _, le_refl _, fun _ => rfl, fun q hq => .kept hq⟩
  | assetCreate symbol =>
    rw [assetCreate_ok h]
    exact ⟨le_refl _, le_refl _, fun _ => rfl, fun q hq => .kept hq⟩
  | assetLimitationCreate op =>
    obtain ⟨-, rfl⟩ := assetLimitationCreate_ok h
    exact ⟨le_refl _, le_refl _, fun _ => rfl, fun q hq => .kept hq⟩
  | assetLimitationUpdate op =>
    rw [assetLimitationUpdate_ok h]
    exact ⟨le_refl _, le_refl _, fun _ => rfl, fun q hq => .kept hq⟩
  | propertyCreate op =>
    obtain ⟨hvalid, -, p, hp, rfl⟩ := propertyCreate_ok h
    refine ⟨Nat.le_succ _, le_refl _, fun _ => rfl, fun q hq => ?_⟩
    rcases List.mem_append.mp hq with hq | hq
    · exact .kept hq
    · rw [List.mem_singleton.mp hq]
      exact .created hvalid hp
  | propertyUpdate op =>
    obtain ⟨p, hp, rfl⟩ := propertyUpdate_ok h
    refine ⟨le_refl _, le_refl _, fun _ => rfl, fun q hq => ?_⟩
    rcases mem_modifyProperty hq with rfl | ⟨hq, -⟩
    · exact .updated p hp rfl
    · exact .kept hq
  | propertyApprove op =>
    obtain ⟨p, hp, hid, hdeadline, hnone, r, hr, rfl⟩ := propertyApprove_ok h
    refine ⟨le_refl _, le_refl _, fun _ => rfl, fun q hq => ?_⟩
    rcases mem_modifyProperty hq with rfl | ⟨hq, -⟩
    · exact .approved p hp hid hdeadline hnone hr
    · exact .kept hq
  | propertyDelete op =>
    obtain ⟨p, -, alos, -, rfl⟩ := propertyDelete_ok h
    exact ⟨le_refl _, le_refl _, fun _ => rfl, fun q hq => .kept (List.mem_filter.mp hq).1⟩
  | block t =>
    obtain ⟨hlt, hupdate⟩ := block_ok h
    rcases updateSmoothAllocation_ok hupdate with ⟨-, rfl⟩ | ⟨-, ps, hps, ⟨-, rfl⟩ | ⟨cs, -, rfl⟩⟩
    · exact ⟨le_refl _, hlt.le, fun hblock => absurd rfl (hblock t), fun q hq => .kept hq⟩
    all_goals
      refine ⟨le_refl _, hlt.le, fun hblock => absurd rfl (hblock t), fun q hq => ?_⟩
      obtain ⟨p, hp, hpq⟩ := exists_of_mem_right hps hq
      exact .allocated p hp hlt hpq

theorem block_moves {t : UInt32} (h : applyEvent s (.block t) = .ok s') :
    s'.headBlockTime = t.toNat ∧ s.headBlockTime < t.toNat ∧ (s'.Frozen ↔ s.Frozen) ∧
      s'.nextPropertyId = s.nextPropertyId := by
  obtain ⟨hlt, hupdate⟩ := block_ok h
  rcases updateSmoothAllocation_ok hupdate with ⟨-, rfl⟩ | ⟨-, ps, -, ⟨-, rfl⟩ | ⟨cs, -, rfl⟩⟩
  · exact ⟨rfl, hlt, Iff.rfl, rfl⟩
  · exact ⟨rfl, hlt, Iff.rfl, rfl⟩
  · refine ⟨rfl, hlt, ?_, rfl⟩
    rw [frozen_iff, frozen_iff, assignSellLimits_symbols]

theorem applyEvent_approvalPhases (hs : s.Sound) (hA : s.ApprovalPhases)
    (hfits : lateApprovalFits s e) (h : applyEvent s e = .ok s') : s'.ApprovalPhases := by
  intro q hq
  cases (applyEvent_descent h).2.2.2 q hq with
  | kept hmem => exact hA q hmem
  | created hvalid hcreate => exact (createProperty_sound hs.headBlockTime_lt hvalid hcreate).2
  | updated p hp heq =>
    subst heq
    exact hA p hp
  | approved p hp hid hdeadline hnone happrove =>
    exact approveProperty_approvalPhase hs hp hid (hA p hp) hfits happrove
  | allocated p hp hlt hallocate =>
    obtain ⟨_, _, _, _, rfl⟩ := allocateProperty_sameTerms hallocate
    exact hA p hp

theorem reachable_approvalPhases (hcond : ∀ s e, cond s e → lateApprovalFits s e)
    (h : Reachable applyEvent ChainState.Genesis cond s) : s.ApprovalPhases := by
  refine (h.invariant (fun s => s.Sound ∧ s.ApprovalPhases) ?_ ?_).2
  · intro s hs
    exact ⟨hs.sound, fun p hp => by rw [hs.properties] at hp; cases hp⟩
  · intro s e s' ⟨hs, hA⟩ hc hstep
    exact ⟨applyEvent_sound hs hstep, applyEvent_approvalPhases hs hA (hcond s e hc) hstep⟩

/-- How a property may develop: its progress does not fall unless it expires without approval, and
an expired one keeps its counters. -/
structure PropertyObject.Develops (p q : PropertyObject) : Prop where
  id : q.id = p.id
  expired : p.expired = true →
    q.expired = true ∧ (q.approvalDate = none ↔ p.approvalDate = none)
  progress : p.progress ≤ q.progress ∨
    p.expired = false ∧ q.expired = true ∧ q.approvalDate = none

theorem PropertyObject.Develops.refl (p : PropertyObject) : p.Develops p :=
  ⟨rfl, fun h => ⟨h, Iff.rfl⟩, .inl (le_refl _)⟩

theorem PropertyObject.Develops.trans {r : PropertyObject} (hpq : p.Develops q) (hqr : q.Develops r) :
    p.Develops r := by
  refine ⟨hqr.id.trans hpq.id, fun hp => ?_, ?_⟩
  · obtain ⟨hq, hnone⟩ := hpq.expired hp
    obtain ⟨hr, hnone'⟩ := hqr.expired hq
    exact ⟨hr, hnone'.trans hnone⟩
  · rcases hpq.progress with hle | ⟨hlive, hq, hnone⟩
    · rcases hqr.progress with hle' | ⟨hq, hr, hnone⟩
      · exact .inl (hle.trans hle')
      · refine .inr ⟨?_, hr, hnone⟩
        by_contra hp
        have := (hpq.expired (by simpa using hp)).1
        rw [this] at hq
        cases hq
    · obtain ⟨hr, hnone'⟩ := hqr.expired hq
      exact .inr ⟨hlive, hr, hnone'.mpr hnone⟩

theorem approveProperty_progress {now : Nat} (hnow : now < 2 ^ 32) (hp : p.Sound now)
    (h : approveProperty now p = .ok q) : q.progress = p.progress := by
  rcases approveProperty_ok hnow hp.approvalEndDate_le h with ⟨-, rfl⟩ | ⟨-, -, hzero, rfl⟩
  · rfl
  · unfold PropertyObject.progress
    simp [hzero]

theorem Descent.develops (hs : s.Sound) (h : Descent s q e) :
    q.id = s.nextPropertyId ∨ ∃ p ∈ s.properties, p.Develops q := by
  cases h with
  | kept hmem => exact .inr ⟨q, hmem, .refl q⟩
  | created hvalid hcreate =>
    exact .inl (createProperty_ok hs.headBlockTime_lt hcreate).2.2.1
  | updated p hp heq =>
    subst heq
    exact .inr ⟨p, hp, rfl, fun h => ⟨h, Iff.rfl⟩, .inl (le_refl _)⟩
  | approved p hp hid hdeadline hnone happrove =>
    have hsound := hs.properties p hp
    refine .inr ⟨p, hp, ?_, fun he => ?_,
      .inl (approveProperty_progress hs.headBlockTime_lt hsound happrove).ge⟩
    · rcases approveProperty_ok hs.headBlockTime_lt hsound.approvalEndDate_le happrove with
        ⟨-, rfl⟩ | ⟨-, -, -, rfl⟩ <;> rfl
    · have := hsound.expired_past he
      omega
  | allocated p hp hlt hallocate =>
    have hsound := hs.properties p hp
    refine .inr ⟨p, hp, ?_, fun he => ?_, ?_⟩
    · obtain ⟨_, _, _, _, rfl⟩ := allocateProperty_sameTerms hallocate
      rfl
    · unfold allocateProperty at hallocate
      rw [if_pos he] at hallocate
      cases hallocate
      exact ⟨he, Iff.rfl⟩
    · rcases allocateProperty_progress hsound hlt.le hallocate with hle | ⟨hlive, he, -, hnone⟩
      · exact .inl hle
      · exact .inr ⟨hlive, he, hnone⟩

theorem reachable_develops {t : ChainState} (hs : s.Sound)
    (h : Reachable applyEvent (· = s) cond t) :
    t.Sound ∧ s.nextPropertyId ≤ t.nextPropertyId ∧
      ∀ q ∈ t.properties, s.nextPropertyId ≤ q.id ∨ ∃ p ∈ s.properties, p.Develops q := by
  refine h.invariant (fun t => t.Sound ∧ s.nextPropertyId ≤ t.nextPropertyId ∧
    ∀ q ∈ t.properties, s.nextPropertyId ≤ q.id ∨ ∃ p ∈ s.properties, p.Develops q) ?_ ?_
  · rintro _ rfl
    exact ⟨hs, le_refl _, fun q hq => .inr ⟨q, hq, .refl q⟩⟩
  · rintro t e t' ⟨ht, hnext, hprops⟩ - hstep
    obtain ⟨hnext', -, -, hdescent⟩ := applyEvent_descent hstep
    refine ⟨applyEvent_sound ht hstep, hnext.trans hnext', fun r hr => ?_⟩
    rcases (hdescent r hr).develops ht with hid | ⟨q, hq, hqr⟩
    · exact .inl (hid ▸ hnext)
    · rcases hprops q hq with hid | ⟨p, hp, hpq⟩
      · exact .inl (hqr.id ▸ hid)
      · exact .inr ⟨p, hp, hpq.trans hqr⟩

/-- What holds of a property throughout its life, in terms of the progress that
`get_allocation_progress` computes -/
structure PropertyObject.Lifecycle (p : PropertyObject) : Prop where
  initialCounter_le : p.initialCounter ≤ p.initialCounterMax
  approvalCounter_le : p.approvalCounter ≤ p.approvalCounterMax
  initialCounterMax_pos : 0 < p.initialCounterMax
  approvalCounterMax_pos : 0 < p.approvalCounterMax
  approved : 0 < p.approvalCounter → p.approvalDate ≠ none
  progress : ∃ r, p.getAllocationProgress = .ok r ∧ 0 ≤ r ∧ r ≤ 1 ∧
    (p.approvalDate = none → r ≤ 1 / 4) ∧
    (p.expired = true → p.approvalDate ≠ none ∧ r = 1 ∨ p.approvalDate = none ∧ r = 0)

theorem PropertyObject.Sound.lifecycle {now : Nat} (h : p.Sound now) (hA : 0 < p.approvalCounterMax) :
    p.Lifecycle := by
  obtain ⟨h0, h1⟩ := progress_mem_unit h.toCountersSound
  refine ⟨h.initial_le, h.approval_le, h.initialMax_pos, hA, ?_, p.progress,
    getAllocationProgress_eq h.toCountersSound hA, h0, h1,
    progress_unapproved_le h.toCountersSound, fun he => ?_⟩
  · intro hpos hnone
    have := h.unapproved hnone
    omega
  · rcases h.expired_counters he with ⟨hsome, hi, ha⟩ | ⟨hnone, hi, ha⟩
    · exact .inl ⟨hsome, progress_eq_one h.initialMax_pos hA hi ha⟩
    · exact .inr ⟨hnone, progress_eq_zero hi ha⟩

theorem propertyApprove_doApply (hs : s.Sound) (h : op.doEvaluate s = .ok p) :
    p.approvalCounter = 0 ∧ ∃ s', op.doApply p s = .ok s' := by
  obtain ⟨hmem, -, hdeadline, hnone⟩ := propertyApprove_evaluate_ok h
  have hzero := (hs.properties p hmem).unapproved hnone
  refine ⟨hzero, ?_⟩
  unfold PropertyApproveOperation.doApply approveProperty calcMeta1AllocationRestartParameters
    fcAssert
  by_cases hearly : s.headBlockTime < p.initialEndDate
  · rw [if_pos hearly]
    exact ⟨_, rfl⟩
  · rw [if_neg hearly, if_pos hdeadline, if_pos hzero]
    exact ⟨_, rfl⟩

/-- In a run in which every late approval leaves an interval, every property is in its lifecycle,
the assertion on the approval counter never fails, and progress only falls when an unapproved
property expires. -/
theorem property_lifecycle {s : ChainState}
    (h : Reachable applyEvent ChainState.Genesis lateApprovalFits s) :
    (∀ p ∈ s.properties, p.Lifecycle) ∧
    (∀ (op : PropertyApproveOperation) (p : PropertyObject), op.doEvaluate s = .ok p →
      p.approvalCounter = 0 ∧ ∃ s', op.doApply p s = .ok s') ∧
    ∀ t, Reachable applyEvent (· = s) lateApprovalFits t →
      ∀ p ∈ s.properties, ∀ q ∈ t.properties, q.id = p.id →
        ∃ r r', p.getAllocationProgress = .ok r ∧ q.getAllocationProgress = .ok r' ∧
          (r ≤ r' ∨ p.expired = false ∧ q.expired = true ∧ q.approvalDate = none) := by
  have hs := reachable_sound h
  have hA := reachable_approvalPhases (fun _ _ hc => hc) h
  refine ⟨fun p hp => (hs.properties p hp).lifecycle (hA p hp),
    fun op p heval => propertyApprove_doApply hs heval, ?_⟩
  intro t ht p hp q hq hid
  obtain ⟨htSound, -, hdevelops⟩ := reachable_develops hs ht
  have htA := reachable_approvalPhases (fun _ _ hc => hc) (h.trans ht)
  refine ⟨p.progress, q.progress,
    getAllocationProgress_eq (hs.properties p hp).toCountersSound (hA p hp),
    getAllocationProgress_eq (htSound.properties q hq).toCountersSound (htA q hq), ?_⟩
  rcases hdevelops q hq with hnew | ⟨p', hp', hpq⟩
  · exact absurd (hs.ids_lt p hp) (by omega)
  · have hsame : p' = p := List.inj_on_of_nodup_map hs.ids_nodup hp' hp (hpq.id.symm.trans hid)
    exact hsame ▸ hpq.progress

def maturingRun : List Event :=
  [.assetLimitationCreate ⟨0, "META1", 0⟩, testProperty 1 1000000000 4 "META1", .block 61,
    .propertyApprove ⟨0, 0, 0⟩, .block 130, .block 400]

theorem property_lifecycle_maturing :
    ∃ s, Reachable applyEvent ChainState.Genesis lateApprovalFits s ∧
      (∃ p ∈ s.properties, p.expired = true ∧ p.getAllocationProgress = .ok 1) ∧
      ∀ p ∈ s.properties, p.Lifecycle := by
  have hgenesis : (testGenesis 1).Genesis := ⟨by decide, rfl, rfl⟩
  have hend : Lib.Succeeds (Lib.run applyEvent (testGenesis 1) maturingRun) fun s =>
      ∃ p ∈ s.properties, p.expired = true ∧ p.getAllocationProgress = .ok 1 := by decide +kernel
  have hmeet : StepsMeet applyEvent lateApprovalFits (testGenesis 1) maturingRun := by
    decide +kernel
  obtain ⟨s, hreach, hmature⟩ := Reachable.of_run maturingRun hgenesis hmeet hend
  exact ⟨s, hreach, hmature, (property_lifecycle hreach).1⟩

/-- The longest allocation, started in the last quarter of the range of `time_point_sec`: its dates
wrap, and its approval phase ends 44 seconds after the block before its creation. -/
def wrappedRun : List Event :=
  [.assetLimitationCreate ⟨0, "META1", 0⟩, testProperty 1 1000000000 71582788 "META1",
    .propertyApprove ⟨0, 0, 0⟩]

theorem property_lifecycle_wrapped :
    ∃ s, Reachable applyEvent ChainState.Genesis (fun _ _ => True) s ∧
      ∃ p ∈ s.properties, p.approvalCounterMax = 0 ∧
        p.getAllocationProgress = .error (.std "bad rational: zero denominator") ∧
        applyEvent s (.block 3221225523) = .error (.std "bad rational: zero denominator") := by
  have hgenesis : (testGenesis 3221225520).Genesis := ⟨by decide, rfl, rfl⟩
  exact Reachable.of_run wrappedRun hgenesis (by decide +kernel) (by decide +kernel)

end Meta1Core.Allocation
