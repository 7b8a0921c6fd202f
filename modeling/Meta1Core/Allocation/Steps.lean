import Meta1Core.Allocation.Chain
import Meta1Core.Allocation.Schedule

/-!
# What one event does to the chain

An inversion lemma for every kind of event, and the invariant that all of them keep.
-/

namespace Meta1Core.Allocation

open Lib

variable {s s' : ChainState}

variable {p : PropertyObject}

theorem getProperty_ok {id : Nat} (h : s.getProperty id = .ok p) :
    p ∈ s.properties ∧ p.id = id := by
  unfold ChainState.getProperty at h
  split at h
  · rename_i q hq
    cases h
    exact ⟨List.mem_of_find?_eq_some hq, by simpa using List.find?_some hq⟩
  · cases h

variable {symbol : String}

theorem findLimitation_some {a : AssetLimitationObject} (h : s.findLimitation symbol = some a) :
    a ∈ s.assetLimitations ∧ a.limitSymbol = symbol :=
  ⟨List.mem_of_find?_eq_some h, by simpa using List.find?_some h⟩

theorem findLimitation_none :
    s.findLimitation symbol = none ↔ ∀ a ∈ s.assetLimitations, a.limitSymbol ≠ symbol := by
  unfold ChainState.findLimitation
  rw [List.find?_eq_none]
  simp

theorem mem_modifyProperty {q : PropertyObject} (h : q ∈ (s.modifyProperty p).properties) :
    q = p ∨ q ∈ s.properties ∧ q.id ≠ p.id := by
  obtain ⟨r, hr, rfl⟩ := List.mem_map.mp h
  by_cases hid : r.id = p.id
  · exact .inl (if_pos hid)
  · rw [if_neg hid]
    exact .inr ⟨hr, hid⟩

theorem modifyProperty_ids (s : ChainState) (p : PropertyObject) :
    (s.modifyProperty p).properties.map (·.id) = s.properties.map (·.id) := by
  unfold ChainState.modifyProperty
  rw [List.map_map]
  apply List.map_congr_left
  intro q _
  by_cases hid : q.id = p.id
  · simp [hid]
  · simp [hid]

theorem setSellLimit_symbols (symbol : String) (limit : Nat) (alos : List AssetLimitationObject) :
    (setSellLimit symbol limit alos).map (·.limitSymbol) = alos.map (·.limitSymbol) := by
  unfold setSellLimit
  rw [List.map_map]
  apply List.map_congr_left
  intro a _
  by_cases ha : a.limitSymbol = symbol
  · simp [ha]
  · simp [ha]

theorem assignSellLimits_symbols (cs : List (String × Nat)) (symbols : List String)
    (alos : List AssetLimitationObject) :
    (assignSellLimits cs symbols alos).1.map (·.limitSymbol) = alos.map (·.limitSymbol) := by
  induction symbols generalizing alos with
  | nil => rfl
  | cons symbol symbols ih =>
    rw [assignSellLimits]
    split
    · split
      · rw [ih, setSellLimit_symbols]
      · rfl
    · rfl

/-! ## Inversion of each event -/

theorem accountCreate_ok {name : String} (h : applyEvent s (.accountCreate name) = .ok s') :
    s' = { s with accounts := s.accounts ++ [(name, s.accounts.length)] } := by
  obtain ⟨-, h⟩ := of_fcAssert h
  cases h
  rfl

theorem assetCreate_ok (h : applyEvent s (.assetCreate symbol) = .ok s') :
    s' = { s with assets := s.assets ++ [symbol] } := by
  obtain ⟨-, h⟩ := of_fcAssert h
  cases h
  rfl

theorem assetLimitationCreate_ok {op : AssetLimitationCreateOperation}
    (h : applyEvent s (.assetLimitationCreate op) = .ok s') :
    (∀ a ∈ s.assetLimitations, a.limitSymbol ≠ op.limitSymbol) ∧ s' = op.doApply s := by
  obtain ⟨_, -, h⟩ := of_bind h
  obtain ⟨_, heval, h⟩ := of_bind h
  obtain ⟨hfresh, -⟩ := of_fcAssert heval
  cases h
  exact ⟨findLimitation_none.mp hfresh, rfl⟩

theorem assetLimitationUpdate_ok {op : AssetLimitationUpdateOperation}
    (h : applyEvent s (.assetLimitationUpdate op) = .ok s') : s' = s := by
  obtain ⟨_, -, h⟩ := of_bind h
  cases h
  rfl

theorem propertyCreate_ok {op : PropertyCreateOperation}
    (h : applyEvent s (.propertyCreate op) = .ok s') :
    op.validate = .ok () ∧ (∃ a ∈ s.assetLimitations, a.limitSymbol = op.backedByAssetSymbol) ∧
      ∃ p, createProperty s.headBlockTime op s.nextPropertyId = .ok p ∧
        s' = { s with properties := s.properties ++ [p], nextPropertyId := s.nextPropertyId + 1 } := by
  obtain ⟨_, heval, h⟩ := of_bind h
  obtain ⟨-, heval⟩ := of_fcAssert heval
  obtain ⟨_, hvalid, heval⟩ := of_bind heval
  obtain ⟨hlimit, -⟩ := of_fcAssert heval
  obtain ⟨a, ha⟩ := Option.ne_none_iff_exists'.mp hlimit
  obtain ⟨p, hp, h⟩ := of_bind h
  cases h
  exact ⟨hvalid, ⟨a, findLimitation_some ha⟩, p, hp, rfl⟩

theorem propertyUpdate_ok {op : PropertyUpdateOperation}
    (h : applyEvent s (.propertyUpdate op) = .ok s') :
    ∃ p ∈ s.properties, s' = s.modifyProperty { p with options := op.newOptions } := by
  obtain ⟨p, heval, h⟩ := of_bind h
  obtain ⟨q, hq, heval⟩ := of_bind heval
  obtain ⟨-, heval⟩ := of_fcAssert heval
  obtain ⟨_, -, heval⟩ := of_bind heval
  obtain ⟨-, heval⟩ := of_fcAssert heval
  obtain ⟨-, heval⟩ := of_fcAssert heval
  cases heval
  cases h
  exact ⟨p, (getProperty_ok hq).1, rfl⟩

variable {op : PropertyApproveOperation}

theorem propertyApprove_evaluate_ok (h : op.doEvaluate s = .ok p) :
    p ∈ s.properties ∧ p.id = op.propertyToApprove ∧ s.headBlockTime < p.approvalEndDate ∧
      p.approvalDate = none := by
  obtain ⟨q, hq, h⟩ := of_bind h
  obtain ⟨-, h⟩ := of_fcAssert h
  obtain ⟨_, -, h⟩ := of_bind h
  obtain ⟨hdeadline, h⟩ := of_fcAssert h
  obtain ⟨hnone, h⟩ := of_fcAssert h
  cases h
  exact ⟨(getProperty_ok hq).1, (getProperty_ok hq).2, hdeadline, hnone⟩

theorem propertyApprove_ok (h : applyEvent s (.propertyApprove op) = .ok s') :
    ∃ p ∈ s.properties, p.id = op.propertyToApprove ∧ s.headBlockTime < p.approvalEndDate ∧
      p.approvalDate = none ∧
      ∃ q, approveProperty s.headBlockTime p = .ok q ∧ s' = s.modifyProperty q := by
  obtain ⟨p, heval, h⟩ := of_bind h
  obtain ⟨hmem, hid, hdeadline, hnone⟩ := propertyApprove_evaluate_ok heval
  obtain ⟨q, hq, h⟩ := of_bind h
  cases h
  exact ⟨p, hmem, hid, hdeadline, hnone, q, hq, rfl⟩

theorem propertyDelete_ok {op : PropertyDeleteOperation}
    (h : applyEvent s (.propertyDelete op) = .ok s') :
    ∃ p ∈ s.properties, ∃ alos,
      (s.findLimitation p.backedByAssetSymbol = none ∧ alos = s.assetLimitations ∨
        ∃ a c, s.findLimitation p.backedByAssetSymbol = some a ∧ calcMeta1Contribution p = .ok c ∧
          alos = setSellLimit p.backedByAssetSymbol (u64Sub a.cumulativeSellLimit c)
            s.assetLimitations) ∧
      s' = { s with
        assetLimitations := alos
        properties := s.properties.filter (·.id ≠ p.id) } := by
  obtain ⟨_, -, h⟩ := of_bind h
  obtain ⟨p, heval, h⟩ := of_bind h
  obtain ⟨q, hq, heval⟩ := of_bind heval
  obtain ⟨-, heval⟩ := of_fcAssert heval
  cases heval
  obtain ⟨alos, halos, h⟩ := of_bind h
  refine ⟨p, (getProperty_ok hq).1, alos, ?_, ?_⟩
  · unfold rollBackSellLimit at halos
    split at halos
    · rename_i hnone
      cases halos
      exact .inl ⟨hnone, rfl⟩
    · rename_i a ha
      obtain ⟨c, hc, halos⟩ := of_bind halos
      cases halos
      exact .inr ⟨a, c, ha, hc, rfl⟩
  · cases h
    rfl

/-- A limitation on a symbol without an asset stops `update_smooth_allocation` in its first loop. -/
def ChainState.Frozen (s : ChainState) : Prop :=
  ∃ a ∈ s.assetLimitations, a.limitSymbol ∉ s.assets

instance (s : ChainState) : Decidable s.Frozen :=
  inferInstanceAs (Decidable (∃ a ∈ s.assetLimitations, a.limitSymbol ∉ s.assets))

theorem frozen_iff :
    s.Frozen ↔ ∃ symbol ∈ s.assetLimitations.map (·.limitSymbol), symbol ∉ s.assets := by
  constructor
  · rintro ⟨a, ha, hmissing⟩
    exact ⟨a.limitSymbol, List.mem_map_of_mem ha, hmissing⟩
  · rintro ⟨symbol, hsymbol, hmissing⟩
    obtain ⟨a, ha, rfl⟩ := List.mem_map.mp hsymbol
    exact ⟨a, ha, hmissing⟩

theorem updateSmoothAllocation_ok (h : updateSmoothAllocation s = .ok s') :
    s.Frozen ∧ s' = s ∨
    ¬s.Frozen ∧ ∃ ps, List.Forall₂ (fun p q => allocateProperty s.headBlockTime p = .ok q)
        s.properties ps ∧
      ((∃ m, contributions ps = .error (.fc m)) ∧ s' = { s with properties := ps } ∨
        ∃ cs, contributions ps = .ok cs ∧ s' = { s with
          properties := ps
          assetLimitations := (assignSellLimits cs (mapKeys cs) s.assetLimitations).1 }) := by
  unfold updateSmoothAllocation smoothAllocationBody checkLimitationAssets fcAssert at h
  by_cases hall : ∀ a ∈ s.assetLimitations, a.limitSymbol ∈ s.assets
  · rw [if_pos hall] at h
    dsimp only at h
    refine .inr ⟨fun ⟨a, ha, hmissing⟩ => hmissing (hall a ha), ?_⟩
    cases hps : s.properties.mapM (allocateProperty s.headBlockTime) with
    | error e =>
      obtain ⟨p, -, hp⟩ := mapM_eq_error hps
      rw [hps, allocateProperty_error hp] at h
      cases h
    | ok ps =>
      rw [hps] at h
      dsimp only at h
      refine ⟨ps, mapM_eq_ok.mp hps, ?_⟩
      cases hcs : contributions ps with
      | error e =>
        rw [hcs] at h
        cases e with
        | fc m =>
          cases h
          exact .inl ⟨⟨m, rfl⟩, rfl⟩
        | std w => cases h
        | undefined => cases h
        | abort a => cases h
        | diverges => cases h
      | ok cs =>
        rw [hcs] at h
        refine .inr ⟨cs, rfl, ?_⟩
        split at h
        · rename_i hbody
          cases h
          exact (Prod.mk.inj hbody).1.symm
        · rename_i hbody
          cases h
          exact (Prod.mk.inj hbody).1.symm
        · cases h
  · rw [if_neg hall] at h
    cases h
    push Not at hall
    exact .inl ⟨hall, rfl⟩

theorem block_ok {t : UInt32} (h : applyEvent s (.block t) = .ok s') :
    s.headBlockTime < t.toNat ∧
      updateSmoothAllocation { s with headBlockTime := t.toNat } = .ok s' := by
  obtain ⟨hlt, h⟩ := of_fcAssert h
  exact ⟨hlt, h⟩

end Meta1Core.Allocation
