import Meta1Core.Plugins.GroupRemoval

/-!
# Runs of the grouped order book

As long as no order is inserted or modified at a price that spoils the groups, the groups of each tracked
percentage partition the limit orders, and an order that is removed is always found.
-/

namespace Meta1Core.Plugins

open Lib (OrderedMap Reachable of_bind)
open OrderGroup (lo hi Holds)
open Protocol

variable {wrapped : Rat → Rat → Rat} {group : Nat} {orders : List LimitOrder} {idx idx' : OgData}
  {s s' : LimitOrderGroupIndex} {b : GroupedBook} {o : LimitOrder} {p : SellPrice}

def InRange (e : OrderGroup) (p : SellPrice) : Prop := ¬p.lt e.1.minPrice ∧ ¬e.2.maxPrice.lt p

instance (e : OrderGroup) (p : SellPrice) : Decidable (InRange e p) := inferInstanceAs (Decidable (_ ∧ _))

structure GroupedBook.Partitioned (b : GroupedBook) : Prop where
  ordered : ∀ e ∈ b.index.ogData, e.1.group ∈ b.index.trackedGroups →
    e.2.maxPrice.market = e.1.minPrice.market ∧ ¬e.2.maxPrice.lt e.1.minPrice
  disjoint : ∀ e ∈ b.index.ogData, ∀ e' ∈ b.index.ogData, e.1.group ∈ b.index.trackedGroups →
    e.1.group = e'.1.group → e ≠ e' → ∀ p, ¬(InRange e p ∧ InRange e' p)
  unique : ∀ group ∈ b.index.trackedGroups, ∀ o ∈ b.orders,
    ∃! e, e ∈ b.index.ogData ∧ e.1.group = group ∧ InRange e o.sellPrice
  total : ∀ e ∈ b.index.ogData, e.1.group ∈ b.index.trackedGroups →
    e.2.totalForSale = ((b.orders.filter fun o => InRange e o.sellPrice).map LimitOrder.forSale).sum
  found : ∀ o ∈ b.orders, ∀ removeEmpty, (b.index.removeOrder o removeEmpty).log = b.index.log
  silent : b.index.log = []

/-- No order, and the percentages are a `flat_set` without 0. -/
structure GroupedBook.Initial (b : GroupedBook) : Prop where
  orders : b.orders = []
  ogData : b.index.ogData.entries = []
  log : b.index.log = []
  sorted : b.index.trackedGroups.Pairwise (· < ·)
  pos : ∀ group ∈ b.index.trackedGroups, 0 < group

def LimitOrderGroupIndex.Fits (wrapped : Rat → Rat → Rat) (p : SellPrice) (s : LimitOrderGroupIndex) : Prop :=
  ∀ group ∈ s.trackedGroups, ¬LowersMax group p s.ogData ∧ ¬OverrunsNext wrapped group p s.ogData

instance (p : SellPrice) (s : LimitOrderGroupIndex) : Decidable (s.Fits wrapped p) :=
  inferInstanceAs (Decidable (∀ group ∈ s.trackedGroups, _))

def GroupedBook.Regular (wrapped : Rat → Rat → Rat) (b : GroupedBook) : OrderEvent → Prop
  | .insert o => b.index.Fits wrapped o.sellPrice
  | .modify id _ _ => ∀ o ∈ b.orders, o.id = id → b.index.Fits wrapped o.sellPrice
  | .remove _ => True

instance GroupedBook.decidableRegular (b : GroupedBook) : (event : OrderEvent) → Decidable (b.Regular wrapped event)
  | .insert o => inferInstanceAs (Decidable (b.index.Fits wrapped o.sellPrice))
  | .modify id _ _ => inferInstanceAs
      (Decidable (∀ o ∈ b.orders, o.id = id → b.index.Fits wrapped o.sellPrice))
  | .remove _ => .isTrue trivial

structure Removed (groups : List Nat) (orders : List LimitOrder) (s s' : LimitOrderGroupIndex) : Prop where
  log : s'.log = s.log
  trackedGroups : s'.trackedGroups = s.trackedGroups
  tidy : ∀ group ∈ groups, Tidy group orders s'.ogData
  others : ∀ e : OrderGroup, e.1.group ∉ groups → (e ∈ s'.ogData ↔ e ∈ s.ogData)

theorem removed_foldl {groups : List Nat} (hnodup : groups.Nodup) (removeEmpty : Bool)
    (h : ∀ group ∈ groups, Tidy group (o :: orders) s.ogData) :
    Removed groups orders s (groups.foldl (LimitOrderGroupIndex.removeFrom o removeEmpty) s) ∧
      (removeEmpty = false → ∀ group ∈ groups, SameRanges group s.ogData
        (groups.foldl (LimitOrderGroupIndex.removeFrom o removeEmpty) s).ogData) := by
  induction groups generalizing s with
  | nil =>
    refine ⟨⟨rfl, rfl, ?_, fun e _ => Iff.rfl⟩, ?_⟩
    · exact fun group hgroup => absurd hgroup List.not_mem_nil
    · exact fun _ group hgroup => absurd hgroup List.not_mem_nil
  | cons first groups ih =>
    obtain ⟨hfirst, hnodup⟩ := List.nodup_cons.mp hnodup
    have htidyFirst := h first List.mem_cons_self
    obtain ⟨htidy, hkept⟩ := htidyFirst.removeFrom removeEmpty
    have hne : ∀ group ∈ groups, group ≠ first := by
      rintro group hgroup rfl
      exact hfirst hgroup
    have hothers : ∀ group ∈ groups, ∀ e : OrderGroup, e.1.group = group →
        (e ∈ (s.removeFrom o removeEmpty first).ogData ↔ e ∈ s.ogData) := by
      rintro group hgroup e rfl
      exact hkept.others e (hne _ hgroup)
    obtain ⟨hremoved, hranges⟩ := ih hnodup fun group hgroup =>
      (h group (List.mem_cons_of_mem _ hgroup)).congr (hothers group hgroup)
    have hlater : ∀ e : OrderGroup, e.1.group = first →
        (e ∈ (groups.foldl (LimitOrderGroupIndex.removeFrom o removeEmpty)
          (s.removeFrom o removeEmpty first)).ogData ↔ e ∈ (s.removeFrom o removeEmpty first).ogData) := by
      rintro e rfl
      exact hremoved.others e hfirst
    refine ⟨⟨hremoved.log.trans hkept.log, hremoved.trackedGroups.trans hkept.trackedGroups, ?_, ?_⟩, ?_⟩
    · intro group hgroup
      rcases List.mem_cons.mp hgroup with rfl | hgroup
      · exact htidy.congr hlater
      · exact hremoved.tidy group hgroup
    · intro e he
      rw [List.mem_cons, not_or] at he
      exact (hremoved.others e he.2).trans (hkept.others e he.1)
    · intro hkeep group hgroup
      rcases List.mem_cons.mp hgroup with rfl | hgroup
      · subst hkeep
        exact (removeFrom_sameRanges htidyFirst).trans (.of_iff hlater)
      · exact (SameRanges.of_iff (hothers group hgroup)).trans (hranges hkeep group hgroup)

theorem inserted_foldlM {groups : List Nat} (hnodup : groups.Nodup) (hpos : ∀ group ∈ groups, 0 < group)
    (h : ∀ group ∈ groups, Tidy group orders idx)
    (hfits : ∀ group ∈ groups, ¬LowersMax group o.sellPrice idx ∧ ¬OverrunsNext wrapped group o.sellPrice idx)
    (hok : groups.foldlM (fun idx group => OgData.insertOrder wrapped group o idx) idx = .ok idx') :
    (∀ group ∈ groups, Tidy group (o :: orders) idx') ∧
      ∀ e : OrderGroup, e.1.group ∉ groups → (e ∈ idx' ↔ e ∈ idx) := by
  induction groups generalizing idx with
  | nil =>
    cases hok
    exact ⟨fun group hgroup => absurd hgroup List.not_mem_nil, fun e _ => Iff.rfl⟩
  | cons first groups ih =>
    obtain ⟨hfirst, hnodup⟩ := List.nodup_cons.mp hnodup
    rw [List.foldlM_cons] at hok
    obtain ⟨idx1, hinsert, hok⟩ := of_bind hok
    have hself : first ∈ first :: groups := List.mem_cons_self
    have hinserted := (h first hself).insertOrder (hpos first hself) (hfits first hself).1
      (hfits first hself).2 hinsert
    have hothers : ∀ group ∈ groups, ∀ e : OrderGroup, e.1.group = group → (e ∈ idx1 ↔ e ∈ idx) := by
      rintro group hgroup e rfl
      apply hinserted.others e
      intro heq
      exact hfirst (heq ▸ hgroup)
    obtain ⟨htidy, hlater⟩ := ih hnodup (fun group hgroup => hpos group (List.mem_cons_of_mem _ hgroup))
      (fun group hgroup => (h group (List.mem_cons_of_mem _ hgroup)).congr (hothers group hgroup))
      (fun group hgroup => by
        have hranges := SameRanges.of_iff (hothers group hgroup)
        obtain ⟨hlowers, hoverruns⟩ := hfits group (List.mem_cons_of_mem _ hgroup)
        exact ⟨mt hranges.lowersMax hlowers, mt hranges.overrunsNext hoverruns⟩) hok
    constructor
    · intro group hgroup
      rcases List.mem_cons.mp hgroup with rfl | hgroup
      · apply hinserted.tidy.congr
        rintro e rfl
        exact hlater e hfirst
      · exact htidy group hgroup
    · intro e he
      rw [List.mem_cons, not_or] at he
      exact (hlater e he.2).trans (hinserted.others e he.1)

theorem Tidy.perm {orders' : List LimitOrder} (h : Tidy group orders idx) (hperm : orders.Perm orders') :
    Tidy group orders' idx where
  market := h.market
  ordered := h.ordered
  apart := h.apart
  covered o ho := h.covered o (hperm.mem_iff.mpr ho)
  total e he hgroup := by
    rw [h.total e he hgroup]
    exact (hperm.map _).sum_eq

namespace GroupedBook

structure Neat (b : GroupedBook) : Prop where
  tidy : ∀ group ∈ b.index.trackedGroups, Tidy group b.orders b.index.ogData
  log : b.index.log = []
  ids : (b.orders.map LimitOrder.id).Nodup
  sorted : b.index.trackedGroups.Pairwise (· < ·)
  pos : ∀ group ∈ b.index.trackedGroups, 0 < group

theorem Initial.neat (h : b.Initial) : b.Neat where
  tidy group _ := by
    rw [h.orders]
    apply tidy_empty.congr
    intro e _
    rw [OrderedMap.mem_def, h.ogData]
    rfl
  log := h.log
  ids := by
    rw [h.orders]
    exact List.nodup_nil
  sorted := h.sorted
  pos := h.pos

theorem of_get_eq_ok {id : Nat} (hids : (b.orders.map LimitOrder.id).Nodup) (h : b.get id = .ok o) :
    o ∈ b.orders ∧ o.id = id ∧ b.orders.Perm (o :: b.without id) := by
  unfold get at h
  split at h
  · rename_i found hfind
    cases h
    have hmem := List.mem_of_find?_eq_some hfind
    have hid : o.id = id := by simpa using List.find?_some hfind
    have hnodup := List.Nodup.of_map LimitOrder.id hids
    refine ⟨hmem, hid, ?_⟩
    rw [List.perm_ext_iff_of_nodup hnodup]
    · intro x
      unfold without
      rw [List.mem_cons, List.mem_filter, decide_eq_true_iff]
      constructor
      · intro hx
        by_cases hid' : x.id = id
        · exact .inl (List.inj_on_of_nodup_map hids hx hmem (hid'.trans hid.symm))
        · exact .inr ⟨hx, hid'⟩
      · rintro (rfl | ⟨hx, -⟩)
        · exact hmem
        · exact hx
    · rw [List.nodup_cons]
      refine ⟨?_, hnodup.filter _⟩
      intro ho
      exact of_decide_eq_true (List.mem_filter.mp ho).2 hid
  · cases h

theorem Neat.removeOrder {rest : List LimitOrder} (h : b.Neat) (hperm : b.orders.Perm (o :: rest))
    (removeEmpty : Bool) :
    Removed b.index.trackedGroups rest b.index (b.index.removeOrder o removeEmpty) ∧
      (removeEmpty = false → ∀ group ∈ b.index.trackedGroups,
        SameRanges group b.index.ogData (b.index.removeOrder o removeEmpty).ogData) :=
  removed_foldl (h.sorted.imp Nat.ne_of_lt) removeEmpty
    fun group hgroup => (h.tidy group hgroup).perm hperm

theorem objectInserted_tidy {s' : LimitOrderGroupIndex} {s : LimitOrderGroupIndex}
    (hsorted : s.trackedGroups.Pairwise (· < ·)) (hpos : ∀ group ∈ s.trackedGroups, 0 < group)
    (h : ∀ group ∈ s.trackedGroups, Tidy group orders s.ogData) (hfits : s.Fits wrapped o.sellPrice)
    (hok : s.objectInserted wrapped o = .ok s') :
    s'.log = s.log ∧ s'.trackedGroups = s.trackedGroups ∧
      ∀ group ∈ s.trackedGroups, Tidy group (o :: orders) s'.ogData := by
  obtain ⟨ogData, hfold, hok⟩ := of_bind hok
  cases hok
  exact ⟨rfl, rfl, (inserted_foldlM (hsorted.imp Nat.ne_of_lt) hpos h hfits hfold).1⟩

theorem Neat.step {b' : GroupedBook} {event : OrderEvent} (h : b.Neat)
    (hregular : b.Regular wrapped event) (hok : b.step wrapped event = .ok b') : b'.Neat := by
  cases event with
  | insert o =>
    obtain ⟨hnew, hok⟩ := of_fcAssert hok
    obtain ⟨index, hinsert, hok⟩ := of_bind hok
    cases hok
    obtain ⟨hlog, hgroups, htidy⟩ := objectInserted_tidy h.sorted h.pos h.tidy hregular hinsert
    constructor
    · rw [hgroups]
      exact htidy
    · exact hlog.trans h.log
    · rw [List.map_cons, List.nodup_cons]
      exact ⟨hnew, h.ids⟩
    · rw [hgroups]
      exact h.sorted
    · rw [hgroups]
      exact h.pos
  | modify id forSale forSale_pos =>
    obtain ⟨o, hget, hok⟩ := of_bind hok
    obtain ⟨index, hinsert, hok⟩ := of_bind hok
    cases hok
    obtain ⟨hmem, hid, hperm⟩ := of_get_eq_ok h.ids hget
    obtain ⟨hremoved, hranges⟩ := h.removeOrder hperm false
    set o' : LimitOrder := { o with forSale := forSale, forSale_pos := forSale_pos }
    have hfits : (b.index.removeOrder o false).Fits wrapped o'.sellPrice := by
      intro group hgroup
      rw [hremoved.trackedGroups] at hgroup
      obtain ⟨hlowers, hoverruns⟩ := hregular o hmem hid group hgroup
      have hsame := hranges rfl group hgroup
      exact ⟨mt hsame.lowersMax hlowers, mt hsame.overrunsNext hoverruns⟩
    have hsorted : (b.index.removeOrder o false).trackedGroups.Pairwise (· < ·) := by
      rw [hremoved.trackedGroups]
      exact h.sorted
    have hpos : ∀ group ∈ (b.index.removeOrder o false).trackedGroups, 0 < group := by
      rw [hremoved.trackedGroups]
      exact h.pos
    have hbefore : ∀ group ∈ (b.index.removeOrder o false).trackedGroups,
        Tidy group (b.without id) (b.index.removeOrder o false).ogData := by
      rw [hremoved.trackedGroups]
      exact hremoved.tidy
    obtain ⟨hlog, hgroups, htidy⟩ := objectInserted_tidy hsorted hpos hbefore hfits hinsert
    constructor
    · rw [hgroups]
      exact htidy
    · exact (hlog.trans hremoved.log).trans h.log
    · have hids := (hperm.map LimitOrder.id).nodup_iff.mp h.ids
      rwa [List.map_cons] at hids ⊢
    · rw [hgroups]
      exact hsorted
    · rw [hgroups]
      exact hpos
  | remove id =>
    obtain ⟨o, hget, hok⟩ := of_bind hok
    cases hok
    obtain ⟨-, -, hperm⟩ := of_get_eq_ok h.ids hget
    obtain ⟨hremoved, -⟩ := h.removeOrder hperm true
    constructor
    · rw [hremoved.trackedGroups]
      exact hremoved.tidy
    · exact hremoved.log.trans h.log
    · exact h.ids.sublist (List.filter_sublist.map _)
    · rw [hremoved.trackedGroups]
      exact h.sorted
    · rw [hremoved.trackedGroups]
      exact h.pos

theorem inRange_iff {e : OrderGroup} (hmarket : e.2.maxPrice.market = OrderGroup.market e) :
    InRange e p ↔ Holds e p := by
  unfold InRange Holds
  constructor
  · rintro ⟨hlo, hhi⟩
    have hsame : OrderGroup.market e = p.market := by
      obtain ⟨hbase, hquote⟩ := Prod.mk.inj hmarket
      unfold SellPrice.lt Price.lt at hlo hhi
      unfold OrderGroup.market SellPrice.market
      rw [Prod.mk.injEq]
      grind
    rw [SellPrice.lt_iff hsame.symm] at hlo
    rw [SellPrice.lt_iff (hmarket.trans hsame)] at hhi
    exact ⟨hsame, not_lt.mp hlo, not_lt.mp hhi⟩
  · rintro ⟨hsame, hlo, hhi⟩
    rw [SellPrice.lt_iff hsame.symm, SellPrice.lt_iff (hmarket.trans hsame)]
    exact ⟨not_lt.mpr hlo, not_lt.mpr hhi⟩

theorem Neat.partitioned (h : b.Neat) : b.Partitioned where
  ordered e he hgroup := by
    have htidy := h.tidy _ hgroup
    have hmarket := htidy.market e he rfl
    refine ⟨hmarket, ?_⟩
    rw [SellPrice.lt_iff hmarket]
    exact not_lt.mpr (htidy.ordered e he rfl)
  disjoint e he e' he' hgroup heq hne p hboth := by
    have htidy := h.tidy _ hgroup
    obtain ⟨hin, hin'⟩ := hboth
    rw [inRange_iff (htidy.market e he rfl)] at hin
    rw [inRange_iff (htidy.market e' he' heq.symm)] at hin'
    exact hne (htidy.eq_of_holds he he' rfl heq.symm hin hin')
  unique group hgroup o ho := by
    have htidy := h.tidy group hgroup
    obtain ⟨e, he, hgroup', hholds⟩ := htidy.covered o ho
    refine ⟨e, ⟨he, hgroup', (inRange_iff (htidy.market e he hgroup')).mpr hholds⟩, ?_⟩
    rintro e' ⟨he', hgroup'', hin⟩
    rw [inRange_iff (htidy.market e' he' hgroup'')] at hin
    exact htidy.eq_of_holds he' he hgroup'' hgroup' hin hholds
  total e he hgroup := by
    have htidy := h.tidy _ hgroup
    have htotal := Lib.total_filter LimitOrder.forSale (fun o => decide (InRange e o.sellPrice)) b.orders
    rw [htidy.total e he rfl]
    show _ = Lib.total _ _
    rw [htotal]
    apply Lib.total_congr
    intro o _
    simp only [decide_eq_true_iff, inRange_iff (htidy.market e he rfl)]
  found o ho removeEmpty := by
    obtain ⟨before, after, heq⟩ := List.append_of_mem ho
    have hperm : b.orders.Perm (o :: (before ++ after)) := by
      rw [heq]
      exact List.perm_middle
    exact (h.removeOrder hperm removeEmpty).1.log
  silent := h.log

end GroupedBook

/-- In runs whose orders spoil no group, the groups partition the orders. -/
theorem groups_partition
    (h : Reachable (GroupedBook.step wrapped) GroupedBook.Initial (GroupedBook.Regular wrapped) b) :
    b.Partitioned := by
  have hneat : b.Neat := by
    apply h.invariant GroupedBook.Neat
    · intro b hinit
      exact hinit.neat
    · intro b event b' hneat hregular hstep
      exact hneat.step hregular hstep
  exact hneat.partitioned

def orderAt (id : Nat) (base quote forSale : Nat) (hbase : 0 < base) (hquote : 0 < quote)
    (hsale : 0 < forSale) : LimitOrder :=
  ⟨id, ⟨⟨⟨base, 0⟩, ⟨quote, 1⟩⟩, Int.natCast_pos.mpr hbase, Int.natCast_pos.mpr hquote, by simp⟩,
    forSale, Int.natCast_pos.mpr hsale⟩

def emptyBook : GroupedBook := { index := { trackedGroups := [10, 100] } }

theorem emptyBook_initial : emptyBook.Initial := ⟨rfl, rfl, rfl, by decide, by decide⟩

/-- Two orders within 1% of each other and one far away; one of them is filled in part, and the last one
removed. -/
def closeOrders : List OrderEvent :=
  [.insert (orderAt 0 1000 1000 50 (by decide) (by decide) (by decide)),
    .insert (orderAt 1 1005 1000 70 (by decide) (by decide) (by decide)),
    .insert (orderAt 2 2000 1000 20 (by decide) (by decide) (by decide)),
    .modify 1 30 (by decide), .remove 2]

theorem groups_partition_close : ∃ b : GroupedBook, b.Partitioned ∧
    b.index.ogData.entries.map (fun e => (e.1.group, e.2.totalForSale)) = [(10, 30), (10, 50), (100, 80)] := by
  have hrun : ∃ b, Reachable (GroupedBook.step fun a b => a - b) GroupedBook.Initial
      (GroupedBook.Regular fun a b => a - b) b ∧
        b.index.ogData.entries.map (fun e => (e.1.group, e.2.totalForSale)) =
          [(10, 30), (10, 50), (100, 80)] :=
    Reachable.of_run closeOrders emptyBook_initial (by decide +kernel) (by decide +kernel)
  obtain ⟨b, hreach, hentries⟩ := hrun
  exact ⟨b, groups_partition hreach, hentries⟩

def tinyPrices : List OrderEvent :=
  [.insert (orderAt 0 1 9200000000000000000 1 (by decide) (by decide) (by decide)),
    .insert (orderAt 1 1 9050000000000000000 1 (by decide) (by decide) (by decide)),
    .insert (orderAt 2 1 9100000000000000000 1 (by decide) (by decide) (by decide))]

/-- The second order is in no group any more. -/
theorem groups_not_partition : ¬∀ (wrapped : Rat → Rat → Rat) (b : GroupedBook),
    Reachable (GroupedBook.step wrapped) GroupedBook.Initial (fun _ _ => True) b → b.Partitioned := by
  intro hall
  have hrun : ∃ b, Reachable (GroupedBook.step fun a b => a - b) GroupedBook.Initial (fun _ _ => True) b ∧
      (10 ∈ b.index.trackedGroups ∧ ∃ o ∈ b.orders, ∀ e ∈ b.index.ogData.entries,
        e.1.group = 10 → ¬InRange e o.sellPrice) :=
    Reachable.of_run tinyPrices emptyBook_initial (by decide +kernel) (by decide +kernel)
  obtain ⟨b, hreach, htracked, o, ho, hnone⟩ := hrun
  obtain ⟨e, ⟨he, hgroup, hin⟩, -⟩ := (hall _ b hreach).unique 10 htracked o ho
  exact hnone e he hgroup hin

end Meta1Core.Plugins
