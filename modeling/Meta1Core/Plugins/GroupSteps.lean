import Meta1Core.Lib.KeyedSum
import Meta1Core.Plugins.GroupRanges

/-!
# One order more, one order less

The groups of a market do not meet, each order is in one of them, and the sum of a group is that of
the orders in it.
-/

namespace Meta1Core.Plugins

open Lib (OrderedMap total)
open OrderGroup (lo hi Holds)
open Protocol

variable {wrapped : Rat → Rat → Rat} {group : Nat} {orders : List LimitOrder} {idx idx' : OgData}
  {o : LimitOrder} {p : SellPrice}

structure Below (e e' : OrderGroup) : Prop where
  hi_lt : hi e < lo e'
  lo_le : lo e ≤ maxValue
  lt_lo : minValue < lo e'

def forSaleIn (orders : List LimitOrder) (e : OrderGroup) : Int :=
  total (fun o => if Holds e o.sellPrice then o.forSale else 0) orders

structure Tidy (group : Nat) (orders : List LimitOrder) (idx : OgData) : Prop where
  market : ∀ e ∈ idx, e.1.group = group → e.2.maxPrice.market = OrderGroup.market e
  ordered : ∀ e ∈ idx, e.1.group = group → lo e ≤ hi e
  apart : ∀ p, ∀ e ∈ idx, ∀ e' ∈ idx, SameMarket group p e → SameMarket group p e' →
    lo e < lo e' → Below e e'
  covered : ∀ o ∈ orders, ∃ e ∈ idx, e.1.group = group ∧ Holds e o.sellPrice
  total : ∀ e ∈ idx, e.1.group = group → e.2.totalForSale = forSaleIn orders e

theorem tidy_empty : Tidy group [] ∅ where
  market _ he := absurd he (OrderedMap.notMem_empty _)
  ordered _ he := absurd he (OrderedMap.notMem_empty _)
  apart _ _ he := absurd he (OrderedMap.notMem_empty _)
  covered _ ho := absurd ho List.not_mem_nil
  total _ he := absurd he (OrderedMap.notMem_empty _)

theorem Tidy.congr (h : Tidy group orders idx)
    (hiff : ∀ e : OrderGroup, e.1.group = group → (e ∈ idx' ↔ e ∈ idx)) : Tidy group orders idx' where
  market e he hgroup := h.market e ((hiff e hgroup).mp he) hgroup
  ordered e he hgroup := h.ordered e ((hiff e hgroup).mp he) hgroup
  apart p e he e' he' hsame hsame' :=
    h.apart p e ((hiff e hsame.1).mp he) e' ((hiff e' hsame'.1).mp he') hsame hsame'
  covered o ho := by
    obtain ⟨e, he, hgroup, hholds⟩ := h.covered o ho
    exact ⟨e, (hiff e hgroup).mpr he, hgroup, hholds⟩
  total e he hgroup := h.total e ((hiff e hgroup).mp he) hgroup

theorem sameMarket_of_holds {e : OrderGroup} (hgroup : e.1.group = group) (h : Holds e p) :
    SameMarket group p e := sameMarket_iff.mpr ⟨hgroup, h.1⟩

theorem Tidy.eq_of_holds (h : Tidy group orders idx) {e e' : OrderGroup} (he : e ∈ idx) (he' : e' ∈ idx)
    (hgroup : e.1.group = group) (hgroup' : e'.1.group = group) (hholds : Holds e p)
    (hholds' : Holds e' p) : e = e' := by
  have hsame := sameMarket_of_holds hgroup hholds
  have hsame' := sameMarket_of_holds hgroup' hholds'
  rcases lt_trichotomy (lo e) (lo e') with hlt | heq | hlt
  · have hbelow := (h.apart p e he e' he' hsame hsame' hlt).hi_lt
    exact absurd (hbelow.trans_le hholds'.2.1) (not_lt.mpr hholds.2.2)
  · exact eq_of_lo_eq he he' hsame hsame' heq
  · have hbelow := (h.apart p e' he' e he hsame' hsame hlt).hi_lt
    exact absurd (hbelow.trans_le hholds.2.1) (not_lt.mpr hholds'.2.2)

structure Inserted (group : Nat) (orders : List LimitOrder) (o : LimitOrder) (idx idx' : OgData) : Prop where
  tidy : Tidy group (o :: orders) idx'
  others : ∀ e : OrderGroup, e.1.group ≠ group → (e ∈ idx' ↔ e ∈ idx)

theorem Tidy.change (h : Tidy group orders idx) (n : OrderGroup) (old : Option OrderGroup)
    (hmem : ∀ e, e ∈ idx' ↔ e = n ∨ e ∈ idx ∧ old ≠ some e) (hgroup : n.1.group = group)
    (hmarket : n.2.maxPrice.market = OrderGroup.market n) (hholds : Holds n o.sellPrice)
    (hold : ∀ e, old = some e →
      e ∈ idx ∧ SameMarket group o.sellPrice e ∧ lo n ≤ lo e ∧ hi e ≤ hi n)
    (htotal : n.2.totalForSale = o.forSale + old.elim 0 fun e => e.2.totalForSale)
    (hapart : ∀ e ∈ idx, SameMarket group o.sellPrice e → old ≠ some e → Below e n ∨ Below n e) :
    Inserted group orders o idx idx' := by
  have hsame : SameMarket group o.sellPrice n := sameMarket_of_holds hgroup hholds
  have hordered : lo n ≤ hi n := hholds.2.1.trans hholds.2.2
  -- a group apart from the new one holds none of its prices
  have hother : ∀ e ∈ idx, e.1.group = group → old ≠ some e → ∀ q : SellPrice, Holds n q → ¬Holds e q := by
    intro e he hgroup' hne q hq hq'
    have hsame' : SameMarket group o.sellPrice e :=
      sameMarket_iff.mpr ⟨hgroup', hq'.1.trans (hq.1.symm.trans hholds.1)⟩
    rcases hapart e he hsame' hne with hbelow | hbelow
    · exact absurd (hbelow.hi_lt.trans_le hq.2.1) (not_lt.mpr hq'.2.2)
    · exact absurd (hbelow.hi_lt.trans_le hq'.2.1) (not_lt.mpr hq.2.2)
  have hnew : ∀ x ∈ orders, Holds n x.sellPrice ↔ ∃ e, old = some e ∧ Holds e x.sellPrice := by
    intro x hx
    constructor
    · intro hn
      obtain ⟨e, he, hgroup', hholds'⟩ := h.covered x hx
      by_cases hne : old = some e
      · exact ⟨e, hne, hholds'⟩
      · exact absurd hholds' (hother e he hgroup' hne _ hn)
    · rintro ⟨e, heq, hmarket', hlo, hhi⟩
      obtain ⟨-, hsame', hlo', hhi'⟩ := hold e heq
      refine ⟨?_, hlo'.trans hlo, hhi.trans hhi'⟩
      rw [← hmarket', (sameMarket_iff.mp hsame).2, (sameMarket_iff.mp hsame').2]
  constructor
  · constructor
    · intro e he hgroup'
      rcases (hmem e).mp he with rfl | ⟨he, -⟩
      · exact hmarket
      · exact h.market e he hgroup'
    · intro e he hgroup'
      rcases (hmem e).mp he with rfl | ⟨he, -⟩
      · exact hordered
      · exact h.ordered e he hgroup'
    · intro p e he e' he' hsame1 hsame2 hlt
      have hp : OrderGroup.market n = p.market → ∀ x, SameMarket group p x →
          SameMarket group o.sellPrice x := by
        intro hmarket' x hx
        obtain ⟨hgroup', hmarket''⟩ := sameMarket_iff.mp hx
        exact sameMarket_iff.mpr ⟨hgroup', hmarket''.trans (hmarket'.symm.trans hholds.1)⟩
      rcases (hmem e).mp he with rfl | ⟨he, hne⟩
      · rcases (hmem e').mp he' with rfl | ⟨he', hne'⟩
        · exact absurd hlt (lt_irrefl _)
        · have hsame' := hp (sameMarket_iff.mp hsame1).2 e' hsame2
          rcases hapart e' he' hsame' hne' with hbelow | hbelow
          · have hle := h.ordered e' he' hsame2.1
            exact absurd (hle.trans_lt hbelow.hi_lt) (not_lt.mpr hlt.le)
          · exact hbelow
      · rcases (hmem e').mp he' with rfl | ⟨he', hne'⟩
        · have hsame' := hp (sameMarket_iff.mp hsame2).2 e hsame1
          rcases hapart e he hsame' hne with hbelow | hbelow
          · exact hbelow
          · exact absurd (hordered.trans_lt hbelow.hi_lt) (not_lt.mpr hlt.le)
        · exact h.apart p e he e' he' hsame1 hsame2 hlt
    · intro x hx
      rcases List.mem_cons.mp hx with rfl | hx
      · exact ⟨n, (hmem n).mpr (.inl rfl), hgroup, hholds⟩
      · obtain ⟨e, he, hgroup', hholds'⟩ := h.covered x hx
        by_cases hne : old = some e
        · exact ⟨n, (hmem n).mpr (.inl rfl), hgroup, (hnew x hx).mpr ⟨e, hne, hholds'⟩⟩
        · exact ⟨e, (hmem e).mpr (.inr ⟨he, hne⟩), hgroup', hholds'⟩
    · intro e he hgroup'
      unfold forSaleIn
      rw [Lib.total_cons]
      rcases (hmem e).mp he with rfl | ⟨he, hne⟩
      · rw [if_pos hholds, htotal]
        cases hcase : old with
        | none =>
          rw [Lib.total_eq_zero]
          · rfl
          · intro x hx
            apply if_neg
            intro hx'
            obtain ⟨e', heq, -⟩ := (hnew x hx).mp hx'
            rw [hcase] at heq
            cases heq
        | some e' =>
          obtain ⟨he', hsame', -⟩ := hold e' hcase
          show _ + e'.2.totalForSale = _
          rw [h.total e' he' hsame'.1, forSaleIn]
          congr 1
          apply Lib.total_congr
          intro x hx
          have hiff : Holds e x.sellPrice ↔ Holds e' x.sellPrice := by
            rw [hnew x hx, hcase]
            constructor
            · rintro ⟨e'', heq, hholds''⟩
              cases heq
              exact hholds''
            · intro hholds''
              exact ⟨e', rfl, hholds''⟩
          simp only [hiff]
      · rw [if_neg (hother e he hgroup' hne _ hholds), zero_add]
        exact h.total e he hgroup'
  · intro e hgroup'
    rw [hmem]
    constructor
    · rintro (rfl | ⟨he, -⟩)
      · exact absurd hgroup hgroup'
      · exact he
    · intro he
      refine .inr ⟨he, ?_⟩
      intro heq
      exact hgroup' (hold e heq).2.1.1

theorem Tidy.createOgo (h : Tidy group orders idx)
    (hgap : ∀ e ∈ idx, SameMarket group o.sellPrice e →
      hi e < o.sellPrice.value ∧ lo e ≤ maxValue ∧ minValue < o.sellPrice.value ∨
        o.sellPrice.value < lo e ∧ o.sellPrice.value ≤ maxValue ∧ minValue < lo e) :
    Inserted group orders o idx (idx.createOgo group o) := by
  have hnew : ∀ e ∈ idx, e.1.lt ⟨group, o.sellPrice⟩ ∨ LimitOrderGroupKey.lt ⟨group, o.sellPrice⟩ e.1 := by
    intro e he
    apply key_new _ he
    intro e he hsame heq
    have hle := h.ordered e he hsame.1
    rcases hgap e he hsame with hgap | hgap
    · exact absurd (hle.trans_lt hgap.1) (by rw [heq]; exact lt_irrefl _)
    · rw [heq] at hgap
      exact lt_irrefl _ hgap.1
  let n : OrderGroup := (⟨group, o.sellPrice⟩, ⟨o.sellPrice, o.forSale⟩)
  apply h.change n none
  · intro e
    unfold OgData.createOgo
    rw [OrderedMap.mem_assign_new _ hnew]
    simp [n]
  · rfl
  · rfl
  · exact ⟨rfl, le_rfl, le_rfl⟩
  · intro e heq
    cases heq
  · exact (add_zero _).symm
  · intro e he hsame _
    rcases hgap e he hsame with ⟨hhi, hlo, hmin⟩ | ⟨hlo, hmax, hmin⟩
    · exact .inl ⟨hhi, hlo, hmin⟩
    · exact .inr ⟨hlo, hmax, hmin⟩

theorem Tidy.rekey (h : Tidy group orders idx) {e : OrderGroup} (he : e ∈ idx)
    (hsame : SameMarket group o.sellPrice e) (hlt : o.sellPrice.value < lo e)
    (hbelow : ∀ e' ∈ idx, SameMarket group o.sellPrice e' → lo e' < lo e →
      hi e' < o.sellPrice.value ∧ minValue < o.sellPrice.value)
    (hok : idx.rekey group o e = .ok idx') : Inserted group orders o idx idx' := by
  obtain ⟨totalForSale, hsafe, hok⟩ := Lib.of_bind hok
  obtain ⟨rfl, -⟩ := of_safe hsafe
  cases hok
  have happart : ∀ e' ∈ idx, SameMarket group o.sellPrice e' → e' ≠ e → lo e' < lo e ∨ Below e e' := by
    intro e' he' hsame' hne
    rcases lt_trichotomy (lo e') (lo e) with hlt' | heq | hlt'
    · exact .inl hlt'
    · exact absurd (eq_of_lo_eq he' he hsame' hsame heq) hne
    · exact .inr (h.apart _ e he e' he' hsame hsame' hlt')
  have hnew : ∀ e' ∈ OrderedMap.erase idx e.1,
      e'.1.lt ⟨group, o.sellPrice⟩ ∨ LimitOrderGroupKey.lt ⟨group, o.sellPrice⟩ e'.1 := by
    intro e' he'
    apply key_new _ he'
    intro e' he' hsame' heq
    obtain ⟨he', hne⟩ := (OrderedMap.mem_erase he).mp he'
    rcases happart e' he' hsame' hne with hlt' | hbelow'
    · have hhi := (hbelow e' he' hsame' hlt').1
      have hle := h.ordered e' he' hsame'.1
      linarith
    · have hhi := hbelow'.hi_lt
      have hle := h.ordered e he hsame.1
      linarith
  let n : OrderGroup := (⟨group, o.sellPrice⟩, ⟨e.2.maxPrice, o.forSale + e.2.totalForSale⟩)
  apply h.change n (some e)
  · intro e'
    rw [OrderedMap.mem_assign_new _ hnew, OrderedMap.mem_erase he, Option.some_inj.ne, ne_comm]
  · rfl
  · exact (h.market e he hsame.1).trans (sameMarket_iff.mp hsame).2
  · exact ⟨rfl, le_rfl, hlt.le.trans (h.ordered e he hsame.1)⟩
  · intro e' heq
    cases heq
    exact ⟨he, hsame, hlt.le, le_rfl⟩
  · rfl
  · intro e' he' hsame' hne
    rcases happart e' he' hsame' fun heq => hne (by rw [heq]) with hlt' | hbelow'
    · obtain ⟨hhi, hmin⟩ := hbelow e' he' hsame' hlt'
      exact .inl ⟨hhi, (h.apart _ e' he' e he hsame' hsame hlt').lo_le, hmin⟩
    · exact .inr ⟨hbelow'.hi_lt, hlt.le.trans hbelow'.lo_le, hbelow'.lt_lo⟩

theorem Tidy.addTo (h : Tidy group orders idx) {e : OrderGroup} (he : e ∈ idx)
    (hsame : SameMarket group o.sellPrice e) {maxPrice : SellPrice}
    (hmarket : maxPrice.market = o.sellPrice.market) (hlo : lo e ≤ o.sellPrice.value)
    (hhi : o.sellPrice.value ≤ maxPrice.value) (hmax : hi e ≤ maxPrice.value)
    (habove : ∀ e' ∈ idx, SameMarket group o.sellPrice e' → lo e < lo e' → maxPrice.value < lo e')
    (hok : idx.addTo o maxPrice e = .ok idx') : Inserted group orders o idx idx' := by
  obtain ⟨totalForSale, hsafe, hok⟩ := Lib.of_bind hok
  obtain ⟨rfl, -⟩ := of_safe hsafe
  cases hok
  have hmarket' := (sameMarket_iff.mp hsame).2
  let n : OrderGroup := (e.1, ⟨maxPrice, e.2.totalForSale + o.forSale⟩)
  apply h.change n (some e)
  · intro e'
    rw [OrderedMap.mem_assign_old _ he, Option.some_inj.ne, ne_comm]
  · exact hsame.1
  · exact hmarket.trans hmarket'.symm
  · exact ⟨hmarket', hlo, hhi⟩
  · intro e' heq
    cases heq
    exact ⟨he, hsame, le_rfl, hmax⟩
  · exact Int.add_comm ..
  · intro e' he' hsame' hne
    rcases lt_trichotomy (lo e') (lo e) with hlt | heq | hlt
    · have hbelow := h.apart _ e' he' e he hsame' hsame hlt
      exact .inl ⟨hbelow.hi_lt, hbelow.lo_le, hbelow.lt_lo⟩
    · exact absurd (congrArg some (eq_of_lo_eq he he' hsame hsame' heq.symm)) hne
    · have hbelow := h.apart _ e he e' he' hsame hsame' hlt
      exact .inr ⟨habove e' he' hsame' hlt, hbelow.lo_le, hbelow.lt_lo⟩

end Meta1Core.Plugins
