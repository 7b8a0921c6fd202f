import Meta1Core.Plugins.GroupInsertion

/-!
# Removal

A plain `lower_bound` finds the group that an order is in, since the groups do not meet.
-/

namespace Meta1Core.Plugins

open Lib (OrderedMap)
open OrderGroup (lo hi Holds)
open Protocol

variable {wrapped : Rat → Rat → Rat} {group : Nat} {orders : List LimitOrder} {idx idx' : OgData}
  {s : LimitOrderGroupIndex} {o : LimitOrder} {p : SellPrice}

theorem forSaleIn_cons (o : LimitOrder) (orders : List LimitOrder) (e : OrderGroup) :
    forSaleIn (o :: orders) e = (if Holds e o.sellPrice then o.forSale else 0) + forSaleIn orders e :=
  Lib.total_cons ..

theorem forSaleIn_nonneg (orders : List LimitOrder) (e : OrderGroup) : 0 ≤ forSaleIn orders e := by
  induction orders with
  | nil => exact le_rfl
  | cons o orders ih =>
    rw [forSaleIn_cons]
    have hpos := o.forSale_pos
    split <;> omega

theorem not_holds_of_forSaleIn {e : OrderGroup} (h : forSaleIn orders e = 0) :
    ∀ o ∈ orders, ¬Holds e o.sellPrice := by
  induction orders with
  | nil => exact fun o ho => absurd ho List.not_mem_nil
  | cons first orders ih =>
    rw [forSaleIn_cons] at h
    have hpos := first.forSale_pos
    have hrest := forSaleIn_nonneg orders e
    by_cases hfirst : Holds e first.sellPrice
    · rw [if_pos hfirst] at h
      omega
    · rw [if_neg hfirst, zero_add] at h
      intro o ho
      rcases List.mem_cons.mp ho with rfl | ho
      · exact hfirst
      · exact ih h o ho

theorem Tidy.subtract (h : Tidy group (o :: orders) idx) {e : OrderGroup} (he : e ∈ idx)
    (hgroup : e.1.group = group) (hholds : Holds e o.sellPrice)
    (hmem : ∀ x, x ∈ idx' ↔
      x = (e.1, { e.2 with totalForSale := e.2.totalForSale - o.forSale }) ∨ x ∈ idx ∧ x ≠ e) :
    Tidy group orders idx' := by
  -- the ranges are the same as before
  have hback : ∀ x ∈ idx', ∃ x' ∈ idx, x'.1 = x.1 ∧ x'.2.maxPrice = x.2.maxPrice := by
    intro x hx
    rcases (hmem x).mp hx with rfl | ⟨hx, -⟩
    · exact ⟨e, he, rfl, rfl⟩
    · exact ⟨x, hx, rfl, rfl⟩
  constructor
  · intro x hx hgroup'
    obtain ⟨x', hx', hkey, hmax⟩ := hback x hx
    have hmarket := h.market x' hx' (hkey ▸ hgroup')
    unfold OrderGroup.market at hmarket ⊢
    rwa [← hkey, ← hmax]
  · intro x hx hgroup'
    obtain ⟨x', hx', hkey, hmax⟩ := hback x hx
    have hordered := h.ordered x' hx' (hkey ▸ hgroup')
    unfold OrderGroup.lo OrderGroup.hi at hordered ⊢
    rwa [← hkey, ← hmax]
  · intro p x hx y hy hsame hsame' hlt
    obtain ⟨x', hx', hkey, hmax⟩ := hback x hx
    obtain ⟨y', hy', hkey', -⟩ := hback y hy
    unfold SameMarket at hsame hsame'
    unfold OrderGroup.lo at hlt
    rw [← hkey] at hsame hlt
    rw [← hkey'] at hsame' hlt
    have hbelow := h.apart p x' hx' y' hy' hsame hsame' hlt
    obtain ⟨hhi, hlo, hmin⟩ := hbelow
    unfold OrderGroup.lo OrderGroup.hi at hhi
    unfold OrderGroup.lo at hlo hmin
    rw [hmax, hkey'] at hhi
    rw [hkey] at hlo
    rw [hkey'] at hmin
    exact ⟨hhi, hlo, hmin⟩
  · intro y hy
    obtain ⟨x, hx, hgroup', hholds'⟩ := h.covered y (List.mem_cons_of_mem _ hy)
    by_cases hxe : x = e
    · subst hxe
      exact ⟨_, (hmem _).mpr (.inl rfl), hgroup', hholds'⟩
    · exact ⟨x, (hmem x).mpr (.inr ⟨hx, hxe⟩), hgroup', hholds'⟩
  · intro x hx hgroup'
    rcases (hmem x).mp hx with rfl | ⟨hx, hne⟩
    · have htotal := h.total e he hgroup
      rw [forSaleIn_cons, if_pos hholds] at htotal
      show e.2.totalForSale - o.forSale = forSaleIn orders e
      omega
    · have htotal := h.total x hx hgroup'
      have hnot : ¬Holds x o.sellPrice := fun hholds' =>
        hne (h.eq_of_holds hx he hgroup' hgroup hholds' hholds)
      rwa [forSaleIn_cons, if_neg hnot, zero_add] at htotal

theorem Tidy.erase (h : Tidy group (o :: orders) idx) {e : OrderGroup} (he : e ∈ idx)
    (hgroup : e.1.group = group) (hholds : Holds e o.sellPrice) (hlast : forSaleIn orders e = 0) :
    Tidy group orders (OrderedMap.erase idx e.1) := by
  constructor
  · intro x hx
    exact h.market x ((OrderedMap.mem_erase he).mp hx).1
  · intro x hx
    exact h.ordered x ((OrderedMap.mem_erase he).mp hx).1
  · intro p x hx y hy
    exact h.apart p x ((OrderedMap.mem_erase he).mp hx).1 y ((OrderedMap.mem_erase he).mp hy).1
  · intro y hy
    obtain ⟨x, hx, hgroup', hholds'⟩ := h.covered y (List.mem_cons_of_mem _ hy)
    refine ⟨x, (OrderedMap.mem_erase he).mpr ⟨hx, ?_⟩, hgroup', hholds'⟩
    rintro rfl
    exact not_holds_of_forSaleIn hlast y hy hholds'
  · intro x hx hgroup'
    obtain ⟨hx, hne⟩ := (OrderedMap.mem_erase he).mp hx
    have htotal := h.total x hx hgroup'
    have hnot : ¬Holds x o.sellPrice := fun hholds' =>
      hne (h.eq_of_holds hx he hgroup' hgroup hholds' hholds)
    rwa [forSaleIn_cons, if_neg hnot, zero_add] at htotal

theorem Tidy.lowerBound_eq (h : Tidy group (o :: orders) idx) :
    ∃ e, idx.lowerBound ⟨group, o.sellPrice⟩ = some e ∧ e ∈ idx ∧ SameMarket group o.sellPrice e ∧
      Holds e o.sellPrice := by
  obtain ⟨e, he, hgroup, hholds⟩ := h.covered o List.mem_cons_self
  have hsame := sameMarket_of_holds hgroup hholds
  have hfound : ∃ e', idx.lowerBound ⟨group, o.sellPrice⟩ = some e' ∧ SameMarket group o.sellPrice e' := by
    by_contra hnone
    have hlt : o.sellPrice.value < lo e := by
      apply lowerBound_none _ he hsame
      intro e' hbound hsame'
      exact hnone ⟨e', hbound, hsame'⟩
    exact absurd hholds.2.1 (not_le.mpr hlt)
  obtain ⟨e', hbound, hsame'⟩ := hfound
  obtain ⟨he', hle, hhighest⟩ := lowerBound_spec hbound hsame'
  rcases (hhighest e he hsame hholds.2.1).lt_or_eq with hlt | heq
  · have hbelow := (h.apart _ e he e' he' hsame hsame' hlt).hi_lt
    exact absurd (hbelow.trans_le hle) (not_lt.mpr hholds.2.2)
  · rw [eq_of_lo_eq he he' hsame hsame' heq] at hholds
    exact ⟨e', hbound, he', hsame', hholds⟩

theorem Tidy.removeFrom_eq (h : Tidy group (o :: orders) s.ogData) (removeEmpty : Bool) :
    ∃ e ∈ s.ogData, SameMarket group o.sellPrice e ∧ Holds e o.sellPrice ∧
      e.2.totalForSale = o.forSale + forSaleIn orders e ∧
      s.removeFrom o removeEmpty group =
        if removeEmpty = false ∨ o.forSale < e.2.totalForSale then
          { s with
            ogData := s.ogData.assign e.1 { e.2 with totalForSale := e.2.totalForSale - o.forSale } }
        else { s with ogData := s.ogData.erase e.1 } := by
  obtain ⟨e, hbound, he, hsame, hholds⟩ := h.lowerBound_eq
  have htotal := h.total e he hsame.1
  rw [forSaleIn_cons, if_pos hholds] at htotal
  have hrest := forSaleIn_nonneg orders e
  have hreaches : ¬e.2.maxPrice.lt o.sellPrice := by
    rw [hi_lt_iff rfl (h.hi_market he hsame)]
    exact not_lt.mpr hholds.2.2
  refine ⟨e, he, hsame, hholds, htotal, ?_⟩
  unfold LimitOrderGroupIndex.removeFrom
  rw [hbound]
  dsimp only
  rw [if_neg (by rintro (hnot | hnot); exacts [hnot hsame, hreaches hnot]), if_neg (by omega)]

structure Kept (group : Nat) (s s' : LimitOrderGroupIndex) : Prop where
  log : s'.log = s.log
  trackedGroups : s'.trackedGroups = s.trackedGroups
  others : ∀ e : OrderGroup, e.1.group ≠ group → (e ∈ s'.ogData ↔ e ∈ s.ogData)

theorem Tidy.removeFrom (h : Tidy group (o :: orders) s.ogData) (removeEmpty : Bool) :
    Tidy group orders (s.removeFrom o removeEmpty group).ogData ∧
      Kept group s (s.removeFrom o removeEmpty group) := by
  obtain ⟨e, he, hsame, hholds, htotal, heq⟩ := h.removeFrom_eq removeEmpty
  have hmem : ∀ x, x ∈ s.ogData.assign e.1 { e.2 with totalForSale := e.2.totalForSale - o.forSale } ↔
      x = (e.1, { e.2 with totalForSale := e.2.totalForSale - o.forSale }) ∨ x ∈ s.ogData ∧ x ≠ e :=
    fun x => OrderedMap.mem_assign_old _ he
  have hothers : ∀ x : OrderGroup, x.1.group ≠ group → x ≠ e := by
    rintro x hx rfl
    exact hx hsame.1
  rw [heq]
  split
  · refine ⟨h.subtract he hsame.1 hholds hmem, rfl, rfl, ?_⟩
    intro x hx
    show x ∈ s.ogData.assign _ _ ↔ _
    rw [hmem]
    constructor
    · rintro (rfl | ⟨hx', -⟩)
      · exact absurd hsame.1 hx
      · exact hx'
    · exact fun hx' => .inr ⟨hx', hothers x hx⟩
  · rename_i hlast
    rw [not_or] at hlast
    have hrest := forSaleIn_nonneg orders e
    refine ⟨h.erase he hsame.1 hholds (by omega), rfl, rfl, ?_⟩
    intro x hx
    show x ∈ OrderedMap.erase s.ogData e.1 ↔ _
    rw [OrderedMap.mem_erase he, and_iff_left_iff_imp]
    exact fun _ => hothers x hx

structure SameRanges (group : Nat) (idx idx' : OgData) : Prop where
  back : ∀ x ∈ idx', x.1.group = group → ∃ x' ∈ idx, x'.1 = x.1 ∧ x'.2.maxPrice = x.2.maxPrice
  forth : ∀ x ∈ idx, x.1.group = group → ∃ x' ∈ idx', x'.1 = x.1 ∧ x'.2.maxPrice = x.2.maxPrice

namespace SameRanges

theorem of_iff (h : ∀ e : OrderGroup, e.1.group = group → (e ∈ idx' ↔ e ∈ idx)) :
    SameRanges group idx idx' where
  back x hx hgroup := ⟨x, (h x hgroup).mp hx, rfl, rfl⟩
  forth x hx hgroup := ⟨x, (h x hgroup).mpr hx, rfl, rfl⟩

theorem trans {idx'' : OgData} (h : SameRanges group idx idx') (h' : SameRanges group idx' idx'') :
    SameRanges group idx idx'' where
  back x hx hgroup := by
    obtain ⟨x', hx', hkey, hmax⟩ := h'.back x hx hgroup
    obtain ⟨x'', hx'', hkey', hmax'⟩ := h.back x' hx' (hkey ▸ hgroup)
    exact ⟨x'', hx'', hkey'.trans hkey, hmax'.trans hmax⟩
  forth x hx hgroup := by
    obtain ⟨x', hx', hkey, hmax⟩ := h.forth x hx hgroup
    obtain ⟨x'', hx'', hkey', hmax'⟩ := h'.forth x' hx' (hkey ▸ hgroup)
    exact ⟨x'', hx'', hkey'.trans hkey, hmax'.trans hmax⟩

theorem sameMarket {x x' : OrderGroup} (hkey : x'.1 = x.1) (h : SameMarket group p x) :
    SameMarket group p x' := by
  unfold SameMarket at h ⊢
  rwa [hkey]

theorem lowersMax (h : SameRanges group idx idx') (hlowers : LowersMax group p idx') :
    LowersMax group p idx := by
  obtain ⟨hmin, e, he, hsame, hhi, hlo, hprice⟩ := hlowers
  obtain ⟨e', he', hkey, hmax⟩ := h.back e he hsame.1
  refine ⟨hmin, e', he', sameMarket hkey hsame, ?_, ?_, ?_⟩
  · rwa [hmax]
  · rwa [hkey]
  · rwa [hmax]

theorem overrunsNext (h : SameRanges group idx idx') (hoverruns : OverrunsNext wrapped group p idx') :
    OverrunsNext wrapped group p idx := by
  obtain ⟨hmax, e, he, hsame, hlo, hhighest, htakes, next, hnext, hsame', hlo', hprice⟩ := hoverruns
  obtain ⟨e', he', hkey, hmaxPrice⟩ := h.back e he hsame.1
  obtain ⟨next', hnext', hkey', -⟩ := h.back next hnext hsame'.1
  refine ⟨hmax, e', he', sameMarket hkey hsame, ?_, ?_, ?_, next', hnext', sameMarket hkey' hsame', ?_, ?_⟩
  · rwa [hkey]
  · intro x hx hsame'' hlt
    obtain ⟨x', hx', hkey'', -⟩ := h.forth x hx hsame''.1
    rw [hkey, ← hkey''] at hlt
    rw [← hkey'']
    exact hhighest x' hx' (sameMarket hkey'' hsame'') hlt
  · unfold TakesIn at htakes ⊢
    rwa [hkey, hmaxPrice]
  · rwa [hkey']
  · rwa [hkey']

end SameRanges

theorem removeFrom_sameRanges (h : Tidy group (o :: orders) s.ogData) :
    SameRanges group s.ogData (s.removeFrom o false group).ogData := by
  obtain ⟨e, he, -, -, -, heq⟩ := h.removeFrom_eq false
  rw [heq, if_pos (.inl rfl)]
  constructor
  · intro x hx _
    rcases (OrderedMap.mem_assign_old _ he).mp hx with rfl | ⟨hx, -⟩
    · exact ⟨e, he, rfl, rfl⟩
    · exact ⟨x, hx, rfl, rfl⟩
  · intro x hx _
    by_cases hxe : x = e
    · subst hxe
      exact ⟨_, (OrderedMap.mem_assign_old _ he).mpr (.inl rfl), rfl, rfl⟩
    · exact ⟨x, (OrderedMap.mem_assign_old _ he).mpr (.inr ⟨hx, hxe⟩), rfl, rfl⟩

end Meta1Core.Plugins
