import Meta1Core.Allocation.Lifecycle
import Meta1Core.Lib.KeyedSum

/-!
# Sell limits and what backs them

The cumulative sell limit of a symbol is meant to be the sum of the contributions of the properties
that back it.
-/

namespace Meta1Core.Allocation

open Lib

def PropertyObject.contribution (p : PropertyObject) : Nat :=
  exactContribution p.appraisedPropertyValue.toNat p.progress

/-- The most that a property can come to contribute -/
def PropertyObject.potential (p : PropertyObject) : Nat :=
  if p.approvalDate.isSome then p.appraisedPropertyValue.toNat * 10
  else if p.expired then 0
  else (p.appraisedPropertyValue.toNat * 10 + 3) / 4

def backingTotal (f : PropertyObject → Nat) (symbol : String) (ps : List PropertyObject) : Nat :=
  Lib.total (fun p => if p.backedByAssetSymbol = symbol then f p else 0) ps

def ChainState.PotentialFits (s : ChainState) : Prop :=
  ∀ symbol, backingTotal PropertyObject.potential symbol s.properties ≤ 2 ^ 64 - 1

/-- The creation or approval of a property keeps what its symbol's properties can contribute
within 64 bits. -/
def potentialStaysFit (s : ChainState) : Event → Prop
  | .propertyCreate op =>
    backingTotal PropertyObject.potential op.backedByAssetSymbol s.properties +
      (op.appraisedPropertyValue.toNat * 10 + 3) / 4 ≤ 2 ^ 64 - 1
  | .propertyApprove op =>
    ∀ p ∈ s.properties, p.id = op.propertyToApprove →
      backingTotal PropertyObject.potential p.backedByAssetSymbol
        (s.properties.filter (·.id ≠ p.id)) + p.appraisedPropertyValue.toNat * 10 ≤ 2 ^ 64 - 1
  | _ => True

instance (s : ChainState) : (e : Event) → Decidable (potentialStaysFit s e)
  | .propertyCreate op =>
    inferInstanceAs (Decidable (backingTotal PropertyObject.potential op.backedByAssetSymbol
      s.properties + (op.appraisedPropertyValue.toNat * 10 + 3) / 4 ≤ 2 ^ 64 - 1))
  | .propertyApprove op =>
    inferInstanceAs (Decidable (∀ p ∈ s.properties, p.id = op.propertyToApprove →
      backingTotal PropertyObject.potential p.backedByAssetSymbol
        (s.properties.filter (·.id ≠ p.id)) + p.appraisedPropertyValue.toNat * 10 ≤ 2 ^ 64 - 1))
  | .accountCreate _ | .assetCreate _ | .assetLimitationCreate _ | .assetLimitationUpdate _
  | .propertyUpdate _ | .propertyDelete _ | .block _ => .isTrue trivial

variable {id now t value : Nat} {p q : PropertyObject} {f : PropertyObject → Nat} {symbol : String}
  {ps qs : List PropertyObject}

theorem exactContribution_le_iff {bound : Nat} {progress : ℚ} :
    exactContribution value progress ≤ bound ↔
      value * 10 * progress.num.toNat ≤ bound * progress.den := by
  have hden := progress.pos
  unfold exactContribution
  rw [Nat.div_le_iff_le_mul_add_pred hden, Nat.mul_comm progress.den]
  omega

theorem exactContribution_le_quarter {progress : ℚ} (h : progress ≤ 1 / 4) :
    exactContribution value progress ≤ (value * 10 + 3) / 4 := by
  have hnum : progress.num * 4 ≤ progress.den := by
    have hle := (Rat.le_iff progress (1 / 4)).mp h
    have hquarterNum : (1 / 4 : ℚ).num = 1 := by norm_num
    have hquarterDen : (1 / 4 : ℚ).den = 4 := by norm_num
    rw [hquarterNum, hquarterDen] at hle
    omega
  rw [exactContribution_le_iff]
  calc value * 10 * progress.num.toNat
      ≤ (value * 10 + 3) / 4 * 4 * progress.num.toNat := Nat.mul_le_mul_right _ (by omega)
    _ = (value * 10 + 3) / 4 * (4 * progress.num.toNat) := Nat.mul_assoc ..
    _ ≤ (value * 10 + 3) / 4 * progress.den := Nat.mul_le_mul_left _ (by omega)

theorem contribution_le_potential (h : p.Sound now) :
    p.contribution ≤ p.potential := by
  unfold PropertyObject.contribution PropertyObject.potential
  by_cases hnone : p.approvalDate = none
  · rw [hnone, if_neg (by decide)]
    by_cases he : p.expired = true
    · rw [if_pos he]
      rcases h.expired_counters he with ⟨hsome, -⟩ | ⟨-, hi, ha⟩
      · exact absurd hnone hsome
      · rw [progress_eq_zero hi ha, exactContribution_zero]
    · rw [if_neg he]
      exact exactContribution_le_quarter (progress_unapproved_le h.toCountersSound hnone)
  · rw [if_pos (Option.isSome_iff_ne_none.mpr hnone)]
    exact exactContribution_le (progress_mem_unit h.toCountersSound).2

theorem backingTotal_mono {g : PropertyObject → Nat} (h : ∀ p ∈ ps, f p ≤ g p) :
    backingTotal f symbol ps ≤ backingTotal g symbol ps := by
  apply total_mono
  intro p hp
  split
  · exact h p hp
  · exact le_refl _

theorem le_backingTotal (hp : p ∈ ps) : f p ≤ backingTotal f p.backedByAssetSymbol ps := by
  have hle := le_total_of_mem
    (fun q => if q.backedByAssetSymbol = p.backedByAssetSymbol then f q else 0) hp
  rwa [if_pos rfl] at hle

section Fits

variable {s : ChainState} (hs : s.Sound) (hfits : s.PotentialFits)

include hs hfits

theorem contributionTotal_fits (symbol : String) :
    backingTotal PropertyObject.contribution symbol s.properties ≤ 2 ^ 64 - 1 :=
  (backingTotal_mono fun p hp => contribution_le_potential (hs.properties p hp)).trans
    (hfits symbol)

theorem contribution_fits {p : PropertyObject} (hp : p ∈ s.properties) :
    p.contribution ≤ 2 ^ 64 - 1 :=
  (le_backingTotal hp).trans (contributionTotal_fits hs hfits _)

theorem calcMeta1Contribution_of_fits (hA : s.ApprovalPhases) {p : PropertyObject}
    (hp : p ∈ s.properties) : calcMeta1Contribution p = .ok p.contribution :=
  calcMeta1Contribution_ok (hs.properties p hp).toCountersSound (hA p hp)
    (contribution_fits hs hfits hp)

end Fits

theorem backingTotal_replace {s : ChainState} (hs : s.Sound) (hp : p ∈ s.properties)
    (hid : q.id = p.id) (hsymbol : q.backedByAssetSymbol = p.backedByAssetSymbol) (symbol : String) :
    backingTotal f symbol (s.modifyProperty q).properties +
        (if p.backedByAssetSymbol = symbol then f p else 0) =
      backingTotal f symbol s.properties + (if p.backedByAssetSymbol = symbol then f q else 0) := by
  have h := total_replace PropertyObject.id
    (fun q => if q.backedByAssetSymbol = symbol then f q else 0) hs.ids_nodup hp hid
  rw [hsymbol] at h
  exact h

theorem backingTotal_remove {s : ChainState} (hs : s.Sound) (hp : p ∈ s.properties)
    (symbol : String) :
    backingTotal f symbol (s.properties.filter (·.id ≠ p.id)) +
        (if p.backedByAssetSymbol = symbol then f p else 0) =
      backingTotal f symbol s.properties :=
  total_remove PropertyObject.id
    (fun q => if q.backedByAssetSymbol = symbol then f q else 0) hs.ids_nodup hp

theorem allocateProperty_potential {hbt : Nat} (h : allocateProperty hbt p = .ok q) :
    q.potential ≤ p.potential := by
  by_cases he : p.expired = true
  · unfold allocateProperty at h
    rw [if_pos he] at h
    cases h
    exact le_refl _
  · obtain ⟨expired, _, _, _, rfl⟩ := allocateProperty_sameTerms h
    unfold PropertyObject.potential
    dsimp only
    split
    · exact le_refl _
    · split
      · exact Nat.zero_le _
      · exact le_refl _

theorem blockProperties_potential (symbol : String)
    (h : List.Forall₂ (fun p q => allocateProperty t p = .ok q) ps qs) :
    backingTotal PropertyObject.potential symbol qs ≤
      backingTotal PropertyObject.potential symbol ps := by
  refine total_mono_of_forall₂ (fun p q hpq => ?_) h
  have hle := allocateProperty_potential hpq
  obtain ⟨_, _, _, _, rfl⟩ := allocateProperty_sameTerms hpq
  split
  · exact hle
  · exact le_refl _

theorem blockProperties_symbols (h : List.Forall₂ (fun p q => allocateProperty t p = .ok q) ps qs) :
    ps.map (·.backedByAssetSymbol) = qs.map (·.backedByAssetSymbol) := by
  refine map_eq_of_forall₂ (fun p q hpq => ?_) h
  obtain ⟨_, _, _, _, rfl⟩ := allocateProperty_sameTerms hpq
  rfl

variable {op : PropertyCreateOperation}

theorem createProperty_potential (hnow : now < 2 ^ 32) (h : createProperty now op id = .ok p) :
    p.potential = (op.appraisedPropertyValue.toNat * 10 + 3) / 4 ∧
      p.backedByAssetSymbol = op.backedByAssetSymbol := by
  obtain ⟨-, -, -, -, hvalue, hsymbol, hp⟩ := createProperty_ok hnow h
  refine ⟨?_, hsymbol⟩
  unfold PropertyObject.potential
  rw [hp.approvalDate, hp.expired, hvalue]
  rfl

theorem approveProperty_potential (hnow : now < 2 ^ 32) (hend : p.approvalEndDate ≤ lastMinute)
    (h : approveProperty now p = .ok q) :
    q.potential = p.appraisedPropertyValue.toNat * 10 := by
  rcases approveProperty_ok hnow hend h with ⟨-, rfl⟩ | ⟨-, -, -, rfl⟩
  · rfl
  · rfl

variable {s' : ChainState} {e : Event}

theorem applyEvent_potentialFits {s : ChainState} (hs : s.Sound) (hfits : s.PotentialFits)
    (hstays : potentialStaysFit s e) (h : applyEvent s e = .ok s') : s'.PotentialFits := by
  intro symbol
  have hbefore := hfits symbol
  cases e with
  | accountCreate name => rw [accountCreate_ok h]; exact hbefore
  | assetCreate asset => rw [assetCreate_ok h]; exact hbefore
  | assetLimitationCreate op => rw [(assetLimitationCreate_ok h).2]; exact hbefore
  | assetLimitationUpdate op => rw [assetLimitationUpdate_ok h]; exact hbefore
  | propertyCreate op =>
    obtain ⟨-, -, p, hp, rfl⟩ := propertyCreate_ok h
    obtain ⟨hpotential, hsymbol⟩ := createProperty_potential hs.headBlockTime_lt hp
    have hnew : backingTotal PropertyObject.potential symbol (s.properties ++ [p]) =
        backingTotal PropertyObject.potential symbol s.properties +
          if op.backedByAssetSymbol = symbol then
            (op.appraisedPropertyValue.toNat * 10 + 3) / 4 else 0 := by
      unfold backingTotal
      rw [total_append, total_cons, total_nil, hpotential, hsymbol, Nat.add_zero]
    rw [hnew]
    by_cases hsame : op.backedByAssetSymbol = symbol
    · rw [if_pos hsame, ← hsame]
      exact hstays
    · rw [if_neg hsame]
      exact hbefore
  | propertyUpdate op =>
    obtain ⟨p, hp, rfl⟩ := propertyUpdate_ok h
    have hsum := backingTotal_replace (f := PropertyObject.potential)
      (q := { p with options := op.newOptions }) hs hp rfl rfl symbol
    have hsame : ({ p with options := op.newOptions } : PropertyObject).potential = p.potential :=
      rfl
    rw [hsame] at hsum
    omega
  | propertyApprove op =>
    obtain ⟨p, hp, hid, -, -, q, hq, rfl⟩ := propertyApprove_ok h
    have hend := (hs.properties p hp).approvalEndDate_le
    obtain ⟨hqid, hqsymbol, -⟩ := approveProperty_terms hs.headBlockTime_lt hend hq
    have hpotential := approveProperty_potential hs.headBlockTime_lt hend hq
    have hsum := backingTotal_replace (f := PropertyObject.potential) hs hp hqid hqsymbol symbol
    have hrest := backingTotal_remove (f := PropertyObject.potential) hs hp symbol
    by_cases hsame : p.backedByAssetSymbol = symbol
    · have hroom := hstays p hp hid
      rw [hsame] at hroom
      rw [if_pos hsame] at hsum hrest
      rw [if_pos hsame] at hsum
      omega
    · rw [if_neg hsame, if_neg hsame] at hsum
      omega
  | propertyDelete op =>
    obtain ⟨p, hp, alos, -, rfl⟩ := propertyDelete_ok h
    have hrest := backingTotal_remove (f := PropertyObject.potential) hs hp symbol
    dsimp only
    omega
  | block t =>
    obtain ⟨-, hupdate⟩ := block_ok h
    rcases updateSmoothAllocation_ok hupdate with ⟨-, rfl⟩ | ⟨-, ps, hps, ⟨-, rfl⟩ | ⟨cs, -, rfl⟩⟩
    · exact hbefore
    · exact (blockProperties_potential symbol hps).trans hbefore
    · exact (blockProperties_potential symbol hps).trans hbefore

theorem mem_mapKeys {cs : List (String × Nat)} :
    symbol ∈ mapKeys cs ↔ symbol ∈ cs.map (·.1) := by
  unfold mapKeys
  rw [List.mem_insertionSort, List.mem_dedup]

theorem assignSellLimits_ok (cs : List (String × Nat)) (symbols : List String)
    (alos : List AssetLimitationObject)
    (hfit : ∀ symbol ∈ symbols, contributionTo symbol cs ≤ 2 ^ 64 - 1)
    (hlimit : ∀ symbol ∈ symbols, symbol ∈ alos.map (·.limitSymbol)) :
    (assignSellLimits cs symbols alos).2 = none ∧
      ∀ a ∈ (assignSellLimits cs symbols alos).1,
        a.limitSymbol ∈ symbols ∧ a.cumulativeSellLimit = contributionTo a.limitSymbol cs ∨
        a.limitSymbol ∉ symbols ∧ a ∈ alos := by
  induction symbols generalizing alos with
  | nil => exact ⟨rfl, fun a ha => .inr ⟨List.not_mem_nil, ha⟩⟩
  | cons symbol symbols ih =>
    have hfound : (alos.find? (·.limitSymbol = symbol)).isSome := by
      obtain ⟨a, ha, hsymbol⟩ := List.mem_map.mp (hlimit symbol List.mem_cons_self)
      exact List.find?_isSome.mpr ⟨a, ha, by simpa using hsymbol⟩
    rw [assignSellLimits, if_pos (hfit symbol List.mem_cons_self), if_pos hfound]
    obtain ⟨hnone, hassigned⟩ := ih (setSellLimit symbol (contributionTo symbol cs) alos)
      (fun other hother => hfit other (List.mem_cons_of_mem _ hother))
      (fun other hother => by
        rw [setSellLimit_symbols]
        exact hlimit other (List.mem_cons_of_mem _ hother))
    refine ⟨hnone, fun a ha => ?_⟩
    rcases hassigned a ha with ⟨hmem, hsum⟩ | ⟨hmem, ha⟩
    · exact .inl ⟨List.mem_cons_of_mem _ hmem, hsum⟩
    · obtain ⟨b, hb, rfl⟩ := List.mem_map.mp ha
      by_cases hsame : b.limitSymbol = symbol
      · rw [if_pos hsame]
        exact .inl ⟨by simp [hsame], by simp [hsame]⟩
      · rw [if_neg hsame] at hmem ⊢
        exact .inr ⟨by simp [hsame, hmem], hb⟩

def exactContributions (ps : List PropertyObject) : List (String × Nat) :=
  ps.map fun p => (p.backedByAssetSymbol, p.contribution)

theorem contributions_ok (h : ∀ p ∈ ps, calcMeta1Contribution p = .ok p.contribution) :
    contributions ps = .ok (exactContributions ps) := by
  unfold contributions exactContributions
  rw [mapM_eq_ok, List.forall₂_map_right_iff, List.forall₂_same]
  intro p hp
  rw [h p hp]
  rfl

theorem contributionTo_exact (symbol : String) (ps : List PropertyObject) :
    contributionTo symbol (exactContributions ps) =
      backingTotal PropertyObject.contribution symbol ps := by
  have htotal : contributionTo symbol (exactContributions ps) =
      Lib.total Prod.snd ((exactContributions ps).filter (·.1 = symbol)) := rfl
  rw [htotal, total_filter]
  unfold exactContributions backingTotal Lib.total
  rw [List.map_map]
  congr 1
  apply List.map_congr_left
  intro p _
  simp

theorem mem_mapKeys_exact :
    symbol ∈ mapKeys (exactContributions ps) ↔ ∃ p ∈ ps, p.backedByAssetSymbol = symbol := by
  rw [mem_mapKeys, exactContributions, List.map_map, List.mem_map]
  rfl

theorem exists_blockProperties {s : ChainState} (hs : s.Sound) (hle : s.headBlockTime ≤ t) :
    ∃ ps, List.Forall₂ (fun p q => allocateProperty t p = .ok q) s.properties ps := by
  suffices h : ∀ ps, (∀ p ∈ ps, p.Sound s.headBlockTime) →
      ∃ qs, List.Forall₂ (fun p q => allocateProperty t p = .ok q) ps qs from
    h s.properties hs.properties
  intro ps hps
  induction ps with
  | nil => exact ⟨[], .nil⟩
  | cons p ps ih =>
    obtain ⟨q, hq⟩ := allocateProperty_terminates (hps p List.mem_cons_self) hle
    obtain ⟨qs, hqs⟩ := ih fun p hp => hps p (List.mem_cons_of_mem _ hp)
    exact ⟨q :: qs, .cons hq hqs⟩

theorem smoothAllocationBody_ok {s : ChainState} (hs : s.Sound) (hA : s.ApprovalPhases)
    (hfits : s.PotentialFits) (ht : t < 2 ^ 32) (hle : s.headBlockTime ≤ t) (hassets : ¬s.Frozen) :
    ∃ s',
    smoothAllocationBody { s with headBlockTime := t } = (s', none) ∧
      List.Forall₂ (fun p q => allocateProperty t p = .ok q) s.properties s'.properties ∧
      ∀ a ∈ s'.assetLimitations,
        a.cumulativeSellLimit =
          backingTotal PropertyObject.contribution a.limitSymbol s'.properties ∨
        a ∈ s.assetLimitations ∧ (∀ p ∈ s.properties, p.backedByAssetSymbol ≠ a.limitSymbol) ∧
          ∀ p ∈ s'.properties, p.backedByAssetSymbol ≠ a.limitSymbol := by
  have hall : ∀ a ∈ s.assetLimitations, a.limitSymbol ∈ s.assets := by
    intro a ha
    by_contra hmissing
    exact hassets ⟨a, ha, hmissing⟩
  obtain ⟨ps, hps⟩ := exists_blockProperties hs hle
  have hmoved : ({ s with headBlockTime := t, properties := ps } : ChainState).Sound :=
    blockProperties_sound hs ht hle hps rfl
  have hmovedA : ({ s with headBlockTime := t, properties := ps } : ChainState).ApprovalPhases := by
    intro q hq
    obtain ⟨p, hp, hpq⟩ := exists_of_mem_right hps hq
    obtain ⟨_, _, _, _, rfl⟩ := allocateProperty_sameTerms hpq
    exact hA p hp
  have hmovedFits :
      ({ s with headBlockTime := t, properties := ps } : ChainState).PotentialFits :=
    fun symbol => (blockProperties_potential symbol hps).trans (hfits symbol)
  have hcs : contributions ps = .ok (exactContributions ps) :=
    contributions_ok fun p hp => calcMeta1Contribution_of_fits hmoved hmovedFits hmovedA hp
  obtain ⟨hnone, hassigned⟩ := assignSellLimits_ok (exactContributions ps)
    (mapKeys (exactContributions ps)) s.assetLimitations
    (fun symbol _ => by
      rw [contributionTo_exact]
      exact contributionTotal_fits hmoved hmovedFits symbol)
    (fun symbol hsymbol => by
      obtain ⟨p, hp, rfl⟩ := mem_mapKeys_exact.mp hsymbol
      exact hmoved.backed p hp)
  refine ⟨{ s with
    headBlockTime := t
    properties := ps
    assetLimitations := (assignSellLimits (exactContributions ps)
      (mapKeys (exactContributions ps)) s.assetLimitations).1 }, ?_, hps, ?_⟩
  · unfold smoothAllocationBody checkLimitationAssets fcAssert
    rw [if_pos hall]
    dsimp only
    rw [mapM_eq_ok.mpr hps]
    dsimp only
    rw [hcs]
    dsimp only
    rw [hnone]
  · intro a ha
    rcases hassigned a ha with ⟨-, hsum⟩ | ⟨hmem, ha⟩
    · exact .inl (hsum.trans (contributionTo_exact _ _))
    · refine .inr ⟨ha, fun p hp heq => hmem (mem_mapKeys_exact.mpr ?_),
        fun p hp heq => hmem (mem_mapKeys_exact.mpr ⟨p, hp, heq⟩)⟩
      have hp' : a.limitSymbol ∈ ps.map (·.backedByAssetSymbol) :=
        blockProperties_symbols hps ▸ heq ▸ List.mem_map_of_mem hp
      exact List.mem_map.mp hp'

def ChainState.LimitsMatch (s : ChainState) : Prop :=
  ∀ a ∈ s.assetLimitations,
    a.cumulativeSellLimit = backingTotal PropertyObject.contribution a.limitSymbol s.properties

theorem createProperty_contribution (hnow : now < 2 ^ 32) (h : createProperty now op id = .ok p) :
    p.contribution = 0 := by
  obtain ⟨-, -, -, -, -, -, hp⟩ := createProperty_ok hnow h
  rw [PropertyObject.contribution, progress_eq_zero hp.initialCounter hp.approvalCounter,
    exactContribution_zero]

theorem backingTotal_none (h : ∀ p ∈ ps, p.backedByAssetSymbol ≠ symbol) :
    backingTotal f symbol ps = 0 :=
  total_eq_zero fun p hp => if_neg (h p hp)

theorem modifyProperty_limitsMatch {s : ChainState} (hs : s.Sound) (hmatch : s.LimitsMatch)
    (hp : p ∈ s.properties) (hid : q.id = p.id)
    (hsymbol : q.backedByAssetSymbol = p.backedByAssetSymbol)
    (hcontribution : q.contribution = p.contribution) : (s.modifyProperty q).LimitsMatch := by
  intro a ha
  have hsum := backingTotal_replace (f := PropertyObject.contribution) hs hp hid hsymbol
    a.limitSymbol
  rw [hcontribution] at hsum
  rw [Nat.add_right_cancel hsum]
  exact hmatch a ha

variable {a : AssetLimitationObject}

theorem rollBack_exact {s : ChainState} (hs : s.Sound) (hfits : s.PotentialFits)
    (hmatch : s.LimitsMatch) (hp : p ∈ s.properties)
    (ha : s.findLimitation p.backedByAssetSymbol = some a) :
    p.contribution ≤ a.cumulativeSellLimit ∧
      u64Sub a.cumulativeSellLimit p.contribution = a.cumulativeSellLimit - p.contribution := by
  obtain ⟨hmem, hsymbol⟩ := findLimitation_some ha
  have hlimit := hmatch a hmem
  rw [hsymbol] at hlimit
  have hle : p.contribution ≤ a.cumulativeSellLimit := hlimit ▸ le_backingTotal hp
  have hmax := hlimit ▸ contributionTotal_fits hs hfits p.backedByAssetSymbol
  refine ⟨hle, ?_⟩
  unfold u64Sub
  omega

theorem propertyDelete_limitsMatch {s : ChainState} (hs : s.Sound) (hfits : s.PotentialFits)
    (hmatch : s.LimitsMatch) (hp : p ∈ s.properties)
    (ha : s.findLimitation p.backedByAssetSymbol = some a) : ({ s with
      assetLimitations := setSellLimit p.backedByAssetSymbol
        (u64Sub a.cumulativeSellLimit p.contribution) s.assetLimitations
      properties := s.properties.filter (·.id ≠ p.id) } : ChainState).LimitsMatch := by
  obtain ⟨hle, hsub⟩ := rollBack_exact hs hfits hmatch hp ha
  obtain ⟨hmem, hsymbol⟩ := findLimitation_some ha
  intro b hb
  obtain ⟨c, hc, rfl⟩ := List.mem_map.mp hb
  have hrest := backingTotal_remove (f := PropertyObject.contribution) hs hp c.limitSymbol
  by_cases hsame : c.limitSymbol = p.backedByAssetSymbol
  · rw [if_pos hsame.symm] at hrest
    rw [if_pos hsame]
    have hlimit := hmatch a hmem
    rw [hsymbol, ← hsame] at hlimit
    dsimp only
    omega
  · rw [if_neg (Ne.symm hsame)] at hrest
    rw [if_neg hsame, hmatch c hc]
    exact hrest.symm

theorem block_limitsMatch {s : ChainState} {t : UInt32} (hs : s.Sound) (hA : s.ApprovalPhases)
    (hfits : s.PotentialFits) (hmatch : s.LimitsMatch) (h : applyEvent s (.block t) = .ok s') :
    s'.LimitsMatch := by
  obtain ⟨hlt, hupdate⟩ := block_ok h
  by_cases hfrozen : s.Frozen
  · -- the first loop throws before anything has changed
    rcases updateSmoothAllocation_ok hupdate with ⟨-, rfl⟩ | ⟨hnot, -⟩
    · exact hmatch
    · exact absurd hfrozen hnot
  · obtain ⟨s'', hbody, -, hlimits⟩ :=
      smoothAllocationBody_ok hs hA hfits t.toNat_lt hlt.le hfrozen
    unfold updateSmoothAllocation at hupdate
    rw [hbody] at hupdate
    cases hupdate
    intro a ha
    rcases hlimits a ha with hsum | ⟨hold, hbefore, hafter⟩
    · exact hsum
    · -- the map has no entry for a symbol without properties, and its limit was zero before
      rw [backingTotal_none hafter, hmatch a hold, backingTotal_none hbefore]

theorem applyEvent_limitsMatch {s : ChainState} (hs : s.Sound) (hA : s.ApprovalPhases)
    (hfits : s.PotentialFits) (hmatch : s.LimitsMatch) (h : applyEvent s e = .ok s') :
    s'.LimitsMatch := by
  cases e with
  | accountCreate name => rw [accountCreate_ok h]; exact hmatch
  | assetCreate symbol => rw [assetCreate_ok h]; exact hmatch
  | assetLimitationCreate op =>
    obtain ⟨hfresh, rfl⟩ := assetLimitationCreate_ok h
    intro a ha
    rcases List.mem_append.mp ha with ha | ha
    · exact hmatch a ha
    · -- nothing can back a symbol before it has a limitation
      rw [List.mem_singleton.mp ha]
      refine (backingTotal_none fun p hp heq => ?_).symm
      obtain ⟨b, hb, hsymbol⟩ := List.mem_map.mp (hs.backed p hp)
      exact hfresh b hb (hsymbol.trans heq)
  | assetLimitationUpdate op => rw [assetLimitationUpdate_ok h]; exact hmatch
  | propertyCreate op =>
    obtain ⟨-, -, p, hp, rfl⟩ := propertyCreate_ok h
    intro a ha
    have hzero := createProperty_contribution hs.headBlockTime_lt hp
    unfold backingTotal
    rw [total_append, total_cons, total_nil, hzero, ite_self, Nat.add_zero]
    exact hmatch a ha
  | propertyUpdate op =>
    obtain ⟨p, hp, rfl⟩ := propertyUpdate_ok h
    exact modifyProperty_limitsMatch hs hmatch hp rfl rfl rfl
  | propertyApprove op =>
    obtain ⟨p, hp, -, -, -, q, hq, rfl⟩ := propertyApprove_ok h
    have hsound := hs.properties p hp
    obtain ⟨hid, hsymbol, hvalue⟩ :=
      approveProperty_terms hs.headBlockTime_lt hsound.approvalEndDate_le hq
    refine modifyProperty_limitsMatch hs hmatch hp hid hsymbol ?_
    unfold PropertyObject.contribution
    rw [hvalue, approveProperty_progress hs.headBlockTime_lt hsound hq]
  | propertyDelete op =>
    obtain ⟨p, hp, alos, ⟨hnone, -⟩ | ⟨a, c, ha, hc, rfl⟩, rfl⟩ := propertyDelete_ok h
    · obtain ⟨b, hb, hsymbol⟩ := List.mem_map.mp (hs.backed p hp)
      exact absurd hsymbol (findLimitation_none.mp hnone b hb)
    · rw [calcMeta1Contribution_of_fits hs hfits hA hp] at hc
      cases hc
      exact propertyDelete_limitsMatch hs hfits hmatch hp ha
  | block t => exact block_limitsMatch hs hA hfits hmatch h

def limitsStayExact (s : ChainState) (e : Event) : Prop :=
  lateApprovalFits s e ∧ potentialStaysFit s e

instance (s : ChainState) (e : Event) : Decidable (limitsStayExact s e) :=
  inferInstanceAs (Decidable (lateApprovalFits s e ∧ potentialStaysFit s e))

structure ChainState.LedgerSound (s : ChainState) : Prop extends s.Sound where
  approvalPhases : s.ApprovalPhases
  potentialFits : s.PotentialFits
  limitsMatch : s.LimitsMatch

theorem reachable_ledgerSound {cond : ChainState → Event → Prop} {s : ChainState}
    (hcond : ∀ s e, cond s e → limitsStayExact s e)
    (h : Reachable applyEvent ChainState.Genesis cond s) : s.LedgerSound := by
  refine h.invariant ChainState.LedgerSound ?_ ?_
  · intro s hs
    refine ⟨hs.sound, ?_, ?_, ?_⟩
    · intro p hp
      rw [hs.properties] at hp
      cases hp
    · intro symbol
      rw [hs.properties]
      exact Nat.zero_le _
    · intro a ha
      rw [hs.assetLimitations] at ha
      cases ha
  · intro s e s' hs hc hstep
    obtain ⟨hlate, hstays⟩ := hcond s e hc
    exact ⟨applyEvent_sound hs.toSound hstep,
      applyEvent_approvalPhases hs.toSound hs.approvalPhases hlate hstep,
      applyEvent_potentialFits hs.toSound hs.potentialFits hstays hstep,
      applyEvent_limitsMatch hs.toSound hs.approvalPhases hs.potentialFits hs.limitsMatch hstep⟩

def ChainState.backing (s : ChainState) (symbol : String) : List PropertyObject :=
  s.properties.filter (·.backedByAssetSymbol = symbol)

/-- In a run that stays within 64 bits every sell limit is the sum of what
`calc_meta1_contribution` returns for the live properties of its symbol, and no rollback wraps. -/
theorem sellLimit_eq_contributions {s : ChainState}
    (h : Reachable applyEvent ChainState.Genesis limitsStayExact s) :
    (∀ a ∈ s.assetLimitations, ∃ cs, (s.backing a.limitSymbol).mapM calcMeta1Contribution = .ok cs ∧
      a.cumulativeSellLimit = cs.sum) ∧
    ∀ p ∈ s.properties, ∃ a c, s.findLimitation p.backedByAssetSymbol = some a ∧
      calcMeta1Contribution p = .ok c ∧ c ≤ a.cumulativeSellLimit ∧
      u64Sub a.cumulativeSellLimit c = a.cumulativeSellLimit - c := by
  have hs := reachable_ledgerSound (fun _ _ hc => hc) h
  have hcalc : ∀ p ∈ s.properties, calcMeta1Contribution p = .ok p.contribution :=
    fun p hp => calcMeta1Contribution_of_fits hs.toSound hs.potentialFits hs.approvalPhases hp
  constructor
  · intro a ha
    refine ⟨(s.backing a.limitSymbol).map PropertyObject.contribution, ?_, ?_⟩
    · rw [mapM_eq_ok, List.forall₂_map_right_iff, List.forall₂_same]
      exact fun p hp => hcalc p (List.mem_filter.mp hp).1
    · rw [hs.limitsMatch a ha]
      have hfilter := total_filter PropertyObject.contribution
        (fun p => decide (p.backedByAssetSymbol = a.limitSymbol)) s.properties
      simp only [decide_eq_true_eq] at hfilter
      exact hfilter.symm
  · intro p hp
    have hlimit : s.findLimitation p.backedByAssetSymbol ≠ none := fun hnone => by
      obtain ⟨b, hb, hsymbol⟩ := List.mem_map.mp (hs.backed p hp)
      exact findLimitation_none.mp hnone b hb hsymbol
    obtain ⟨a, ha⟩ := Option.ne_none_iff_exists'.mp hlimit
    obtain ⟨hle, hsub⟩ := rollBack_exact hs.toSound hs.potentialFits hs.limitsMatch hp ha
    exact ⟨a, p.contribution, ha, hcalc p hp, hle, hsub⟩

theorem sellLimit_eq_contributions_maturing :
    ∃ s, Reachable applyEvent ChainState.Genesis limitsStayExact s ∧
      ∃ a ∈ s.assetLimitations, a.cumulativeSellLimit = 10000000000 ∧
        ∃ cs, (s.backing a.limitSymbol).mapM calcMeta1Contribution = .ok cs ∧
          a.cumulativeSellLimit = cs.sum := by
  have hgenesis : (testGenesis 1).Genesis := ⟨by decide, rfl, rfl⟩
  have hmeet : StepsMeet applyEvent limitsStayExact (testGenesis 1) maturingRun := by
    decide +kernel
  have hend : Lib.Succeeds (Lib.run applyEvent (testGenesis 1) maturingRun) fun s =>
      ∃ a ∈ s.assetLimitations, a.cumulativeSellLimit = 10000000000 := by decide +kernel
  obtain ⟨s, hreach, a, ha, hlimit⟩ := Reachable.of_run maturingRun hgenesis hmeet hend
  exact ⟨s, hreach, a, ha, hlimit, (sellLimit_eq_contributions hreach).1 a ha⟩

def overflowingRun : List Event :=
  [.assetCreate "GOLD", .assetLimitationCreate ⟨0, "META1", 0⟩, .assetLimitationCreate ⟨0, "GOLD", 0⟩,
    testProperty 1 1000000000 4 "META1", testProperty 2 18446744073709551615 4 "GOLD", .block 120]

/-- The limit of the other symbol stays behind, and the deletion of its property wraps it. -/
theorem sellLimit_overflowing :
    ∃ s, Reachable applyEvent ChainState.Genesis (fun _ _ => True) s ∧
      (∃ a ∈ s.assetLimitations, a.limitSymbol = "META1" ∧ a.cumulativeSellLimit = 0 ∧
        (s.backing a.limitSymbol).mapM calcMeta1Contribution = .ok [2500000000]) ∧
      Lib.Succeeds (Lib.run applyEvent s [.propertyDelete ⟨0, 0, 0⟩]) fun s' =>
        ∃ a ∈ s'.assetLimitations, a.limitSymbol = "META1" ∧
          a.cumulativeSellLimit = 2 ^ 64 - 2500000000 := by
  have hgenesis : (testGenesis 1).Genesis := ⟨by decide, rfl, rfl⟩
  exact Reachable.of_run overflowingRun hgenesis (by decide +kernel) (by decide +kernel)

def limitationHasAsset (s : ChainState) : Event → Prop
  | .assetLimitationCreate op => op.limitSymbol ∈ s.assets
  | _ => True

instance (s : ChainState) : (e : Event) → Decidable (limitationHasAsset s e)
  | .assetLimitationCreate op => inferInstanceAs (Decidable (op.limitSymbol ∈ s.assets))
  | .accountCreate _ | .assetCreate _ | .assetLimitationUpdate _ | .propertyCreate _
  | .propertyUpdate _ | .propertyApprove _ | .propertyDelete _ | .block _ => .isTrue trivial

def allocationStaysAlive (s : ChainState) (e : Event) : Prop :=
  limitsStayExact s e ∧ limitationHasAsset s e

instance (s : ChainState) (e : Event) : Decidable (allocationStaysAlive s e) :=
  inferInstanceAs (Decidable (limitsStayExact s e ∧ limitationHasAsset s e))

theorem applyEvent_notFrozen {s : ChainState} (hfrozen : ¬s.Frozen)
    (hasset : limitationHasAsset s e) (h : applyEvent s e = .ok s') : ¬s'.Frozen := by
  rw [frozen_iff] at hfrozen ⊢
  push Not at hfrozen ⊢
  cases e with
  | accountCreate name => rw [accountCreate_ok h]; exact hfrozen
  | assetCreate symbol =>
    rw [assetCreate_ok h]
    exact fun symbol hsymbol => List.mem_append_left _ (hfrozen symbol hsymbol)
  | assetLimitationCreate op =>
    rw [(assetLimitationCreate_ok h).2]
    intro symbol hsymbol
    rw [AssetLimitationCreateOperation.doApply, List.map_append] at hsymbol
    rcases List.mem_append.mp hsymbol with hold | hnew
    · exact hfrozen symbol hold
    · rw [List.mem_singleton.mp hnew]
      exact hasset
  | assetLimitationUpdate op => rw [assetLimitationUpdate_ok h]; exact hfrozen
  | propertyCreate op =>
    obtain ⟨-, -, p, -, rfl⟩ := propertyCreate_ok h
    exact hfrozen
  | propertyUpdate op =>
    obtain ⟨p, -, rfl⟩ := propertyUpdate_ok h
    exact hfrozen
  | propertyApprove op =>
    obtain ⟨p, -, -, -, -, q, -, rfl⟩ := propertyApprove_ok h
    exact hfrozen
  | propertyDelete op =>
    obtain ⟨p, -, alos, ⟨-, rfl⟩ | ⟨a, c, -, -, rfl⟩, rfl⟩ := propertyDelete_ok h
    · exact hfrozen
    · rw [setSellLimit_symbols]
      exact hfrozen
  | block t =>
    obtain ⟨-, hupdate⟩ := block_ok h
    rcases updateSmoothAllocation_ok hupdate with ⟨-, rfl⟩ | ⟨-, ps, -, ⟨-, rfl⟩ | ⟨cs, -, rfl⟩⟩
    · exact hfrozen
    · exact hfrozen
    · rw [assignSellLimits_symbols]
      exact hfrozen

/-- In such a run `update_smooth_allocation` completes in every state at every later time, and
moves every property. -/
theorem smoothAllocation_completes {s : ChainState} {t : Nat}
    (h : Reachable applyEvent ChainState.Genesis allocationStaysAlive s) (ht : t < 2 ^ 32)
    (hle : s.headBlockTime ≤ t) :
    ∃ s', smoothAllocationBody { s with headBlockTime := t } = (s', none) ∧
      List.Forall₂ (fun p q => allocateProperty t p = .ok q) s.properties s'.properties := by
  have hs := reachable_ledgerSound (fun _ _ hc => hc.1) h
  have hfrozen : ¬s.Frozen := by
    refine h.invariant (¬ChainState.Frozen ·) ?_ fun s e s' hs hc => applyEvent_notFrozen hs hc.2
    rintro s hs ⟨a, ha, -⟩
    rw [hs.assetLimitations] at ha
    cases ha
  obtain ⟨s', hbody, hmoved, -⟩ :=
    smoothAllocationBody_ok hs.toSound hs.approvalPhases hs.potentialFits ht hle hfrozen
  exact ⟨s', hbody, hmoved⟩

theorem smoothAllocation_completes_maturing :
    ∃ s s', Reachable applyEvent ChainState.Genesis allocationStaysAlive s ∧
      (∃ p ∈ s.properties, p.expired = true) ∧
      smoothAllocationBody { s with headBlockTime := 500 } = (s', none) := by
  have hgenesis : (testGenesis 1).Genesis := ⟨by decide, rfl, rfl⟩
  have hmeet : StepsMeet applyEvent allocationStaysAlive (testGenesis 1) maturingRun := by
    decide +kernel
  have hend : Lib.Succeeds (Lib.run applyEvent (testGenesis 1) maturingRun) fun s =>
      s.headBlockTime ≤ 500 ∧ ∃ p ∈ s.properties, p.expired = true := by decide +kernel
  obtain ⟨s, hreach, hle, hmature⟩ := Reachable.of_run maturingRun hgenesis hmeet hend
  obtain ⟨s', hbody, -⟩ := smoothAllocation_completes hreach (by decide) hle
  exact ⟨s, s', hreach, hmature, hbody⟩

def frozenRun : List Event :=
  [.assetLimitationCreate ⟨0, "META1", 0⟩, testProperty 1 1000000000 4 "META1",
    .assetLimitationCreate ⟨0, "GOLD", 0⟩, .block 120]

/-- From then on no block moves a property or a limit of any symbol. -/
theorem smoothAllocation_frozen :
    ∃ s, Reachable applyEvent ChainState.Genesis (fun _ _ => True) s ∧
      smoothAllocationBody s = (s, some (.fc "itr != asset_idx.end()")) ∧
      ∃ p ∈ s.properties, p.nextAllocationDate ≤ s.headBlockTime ∧ p.initialCounter = 0 := by
  have hgenesis : (testGenesis 1).Genesis := ⟨by decide, rfl, rfl⟩
  exact Reachable.of_run frozenRun hgenesis (by decide +kernel) (by decide +kernel)

end Meta1Core.Allocation
