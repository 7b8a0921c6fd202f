import Mathlib.Tactic.Linarith
import Meta1Core.Plugins.GroupedOrders

/-!
# The ranges of the groups

Within a market a price is its value, and a group is a range of values.
-/

namespace Meta1Core.Plugins

open Lib (OrderedMap)
open Protocol

variable {group : Nat} {idx : OgData} {p : SellPrice}

def minValue : Rat := 1 / maxShareSupply
def maxValue : Rat := maxShareSupply

theorem value_min (p : SellPrice) : p.min.value = minValue := by
  show ((1 : Int) : Rat) / (maxShareSupply : Int) = minValue
  rw [Int.cast_one]
  rfl

theorem value_max (p : SellPrice) : p.max.value = maxValue := by
  show ((maxShareSupply : Int) : Rat) / (1 : Int) = maxValue
  rw [Int.cast_one, div_one]
  rfl

theorem minValue_lt_maxValue : minValue < maxValue := by
  unfold minValue maxValue maxShareSupply
  norm_num

theorem cappedMax_iff : p.cappedMax ↔ maxValue < p.value := by
  rw [← value_max p]
  exact SellPrice.lt_iff rfl

theorem cappedMin_iff : p.cappedMin ↔ p.value < minValue := by
  have hlt : p.lt p.min ↔ p.value < minValue := by
    rw [← value_min p]
    exact SellPrice.lt_iff rfl
  unfold SellPrice.cappedMin
  rw [cappedMax_iff, hlt]
  have hrange := minValue_lt_maxValue
  constructor
  · exact And.right
  · intro hmin
    exact ⟨by linarith, hmin⟩

theorem market_capped (p : SellPrice) : p.capped.market = p.market := by
  unfold SellPrice.capped
  split
  · rfl
  split <;> rfl

theorem capped_cases (p : SellPrice) :
    (maxValue < p.value ∧ p.cappedMax ∧ ¬p.cappedMin ∧ p.capped.value = maxValue) ∨
      (p.value < minValue ∧ ¬p.cappedMax ∧ p.cappedMin ∧ p.capped.value = minValue) ∨
      (minValue ≤ p.value ∧ p.value ≤ maxValue ∧ ¬p.cappedMax ∧ ¬p.cappedMin ∧
        p.capped.value = p.value) := by
  unfold SellPrice.capped
  by_cases hmax : p.cappedMax
  · have hvalue := cappedMax_iff.mp hmax
    have hmin : ¬p.cappedMin := fun hmin => hmin.1 hmax
    rw [if_pos hmax]
    exact .inl ⟨hvalue, hmax, hmin, value_max p⟩
  · by_cases hmin : p.cappedMin
    · rw [if_neg hmax, if_pos hmin]
      exact .inr (.inl ⟨cappedMin_iff.mp hmin, hmax, hmin, value_min p⟩)
    · rw [if_neg hmax, if_neg hmin]
      have hlower := mt cappedMin_iff.mpr hmin
      have hupper := mt cappedMax_iff.mpr hmax
      exact .inr (.inr ⟨by linarith, by linarith, hmax, hmin, rfl⟩)

namespace OrderGroup

def market (e : OrderGroup) : AssetId × AssetId := e.1.minPrice.market
def lo (e : OrderGroup) : Rat := e.1.minPrice.value
def hi (e : OrderGroup) : Rat := e.2.maxPrice.value

def Holds (e : OrderGroup) (p : SellPrice) : Prop :=
  market e = p.market ∧ lo e ≤ p.value ∧ p.value ≤ hi e

instance (e : OrderGroup) (p : SellPrice) : Decidable (Holds e p) := inferInstanceAs (Decidable (_ ∧ _))

end OrderGroup

open OrderGroup (lo hi Holds)

variable {e e' : OrderGroup} {c : SellPrice}

theorem sameMarket_iff :
    SameMarket group p e ↔ e.1.group = group ∧ OrderGroup.market e = p.market := by
  unfold SameMarket OrderGroup.market SellPrice.market
  rw [Prod.mk.injEq]

theorem sameMarket_of_between {a b : LimitOrderGroupKey} (hgroup : a.group = b.group)
    (hmarket : a.minPrice.market = b.minPrice.market) (ha : ¬e.1.lt a) (hb : ¬b.lt e.1) :
    SameMarket a.group a.minPrice e := by
  obtain ⟨hbase, hquote⟩ := Prod.mk.inj hmarket
  unfold LimitOrderGroupKey.lt SellPrice.lt Price.lt at ha hb
  unfold SameMarket
  grind

theorem key_lt_iff {a b : LimitOrderGroupKey} (hgroup : a.group = b.group)
    (hmarket : a.minPrice.market = b.minPrice.market) :
    a.lt b ↔ b.minPrice.value < a.minPrice.value := by
  rw [LimitOrderGroupKey.lt, SellPrice.lt_iff hmarket.symm]
  simp [hgroup]

theorem key_lt_price (h : SameMarket group c e) :
    e.1.lt ⟨group, c⟩ ↔ c.value < lo e := by
  obtain ⟨hgroup, hmarket⟩ := sameMarket_iff.mp h
  exact key_lt_iff (b := ⟨group, c⟩) hgroup hmarket

theorem key_lt_key (h : SameMarket group c e) (h' : SameMarket group c e') :
    e.1.lt e'.1 ↔ lo e' < lo e := by
  obtain ⟨hgroup, hmarket⟩ := sameMarket_iff.mp h
  obtain ⟨hgroup', hmarket'⟩ := sameMarket_iff.mp h'
  exact key_lt_iff (hgroup.trans hgroup'.symm) (hmarket.trans hmarket'.symm)

theorem eq_of_lo_eq (he : e ∈ idx) (he' : e' ∈ idx) (h : SameMarket group p e)
    (h' : SameMarket group p e') (heq : lo e = lo e') : e = e' := by
  rcases idx.eq_or_lt he he' with hsame | hkey | hkey
  · exact hsame
  · rw [key_lt_key h h', heq] at hkey
    exact absurd hkey (lt_irrefl _)
  · rw [key_lt_key h' h, heq] at hkey
    exact absurd hkey (lt_irrefl _)

theorem lowerBound_spec (h : idx.lowerBound ⟨group, c⟩ = some e) (hsame : SameMarket group c e) :
    e ∈ idx ∧ lo e ≤ c.value ∧ ∀ e' ∈ idx, SameMarket group c e' → lo e' ≤ c.value → lo e' ≤ lo e := by
  obtain ⟨hmem, hnot, hfirst⟩ := OrderedMap.of_lowerBound_eq_some h
  rw [key_lt_price hsame, not_lt] at hnot
  refine ⟨hmem, hnot, ?_⟩
  intro e' he' hsame' hle
  have hnot' : ¬e'.1.lt ⟨group, c⟩ := by
    rw [key_lt_price hsame', not_lt]
    exact hle
  have hbefore := hfirst e' he' hnot'
  rw [key_lt_key hsame' hsame, not_lt] at hbefore
  exact hbefore

theorem lowerBound_none (h : ∀ e, idx.lowerBound ⟨group, c⟩ = some e → ¬SameMarket group c e)
    (he' : e' ∈ idx) (hsame' : SameMarket group c e') : c.value < lo e' := by
  by_contra hnot
  have hnot' : ¬e'.1.lt ⟨group, c⟩ := by
    rw [key_lt_price hsame']
    exact hnot
  cases hbound : idx.lowerBound ⟨group, c⟩ with
  | none => exact hnot' (OrderedMap.of_lowerBound_eq_none hbound e' he')
  | some e =>
    obtain ⟨-, hafter, hfirst⟩ := OrderedMap.of_lowerBound_eq_some hbound
    obtain ⟨hgroup', hmarket'⟩ := sameMarket_iff.mp hsame'
    have hbefore := hfirst e' he' hnot'
    exact h e hbound (sameMarket_of_between (a := ⟨group, c⟩) hgroup'.symm hmarket'.symm hafter hbefore)

theorem previous_spec (h : idx.previous ⟨group, c⟩ = some e) (hsame : SameMarket group c e) :
    e ∈ idx ∧ c.value < lo e ∧ ∀ e' ∈ idx, SameMarket group c e' → c.value < lo e' → lo e ≤ lo e' := by
  obtain ⟨hmem, hlt, hlast⟩ := OrderedMap.of_previous_eq_some h
  rw [key_lt_price hsame] at hlt
  refine ⟨hmem, hlt, ?_⟩
  intro e' he' hsame' hless
  have hafter := hlast e' he' ((key_lt_price hsame').mpr hless)
  rw [key_lt_key hsame hsame', not_lt] at hafter
  exact hafter

theorem previous_none (h : ∀ e, idx.previous ⟨group, c⟩ = some e → ¬SameMarket group c e)
    (he' : e' ∈ idx) (hsame' : SameMarket group c e') : lo e' ≤ c.value := by
  by_contra hnot
  have hlt' := (key_lt_price hsame').mpr (not_le.mp hnot)
  cases hprevious : idx.previous ⟨group, c⟩ with
  | none => exact OrderedMap.of_previous_eq_none hprevious e' he' hlt'
  | some e =>
    obtain ⟨-, hbefore, hlast⟩ := OrderedMap.of_previous_eq_some hprevious
    obtain ⟨hgroup', hmarket'⟩ := sameMarket_iff.mp hsame'
    have hafter := hlast e' he' hlt'
    have hbetween := sameMarket_of_between (b := ⟨group, c⟩) hgroup' hmarket' hafter fun hlt =>
      irrefl_of LimitOrderGroupKey.lt _ (trans_of LimitOrderGroupKey.lt hbefore hlt)
    obtain ⟨hgroup, hmarket⟩ := sameMarket_iff.mp hbetween
    exact h e hprevious (sameMarket_iff.mpr ⟨hgroup.trans hgroup', hmarket.trans hmarket'⟩)

theorem key_new (h : ∀ e ∈ idx, SameMarket group p e → lo e ≠ p.value) (he : e ∈ idx) :
    e.1.lt ⟨group, p⟩ ∨ LimitOrderGroupKey.lt ⟨group, p⟩ e.1 := by
  rw [LimitOrderGroupKey.lt_iff, LimitOrderGroupKey.lt_iff]
  rcases Nat.lt_trichotomy e.1.group group with hgroup | hgroup | hgroup
  · exact .inl (.inl hgroup)
  · rcases lt_trichotomy e.1.minPrice.rank p.rank with hrank | hrank | hrank
    · exact .inr (.inr ⟨hgroup.symm, hrank⟩)
    · obtain ⟨hbase, hrest⟩ := Prod.mk.inj (toLex.injective hrank)
      obtain ⟨hquote, hvalue⟩ := Prod.mk.inj (toLex.injective hrest)
      exact absurd hvalue (h e he ⟨hgroup, hbase, hquote⟩)
    · exact .inl (.inr ⟨hgroup, hrank⟩)
  · exact .inr (.inl hgroup)

end Meta1Core.Plugins
