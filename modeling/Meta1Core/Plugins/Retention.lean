import Meta1Core.Lib.Ranges
import Meta1Core.Plugins.MarketHistory

/-!
# Which records are kept

Each fill that was ever processed would have a record with its number for an id.  The records that are
there are those that are not behind both bounds of the last fill of their market.
-/

namespace Meta1Core.Plugins

open Lib (ClosedBelow rel_of_key_lt)

variable {opts : HistoryOptions} {fills : List (Nat × FillOrder)} {s : MarketHistory} {now : Nat}
  {o : FillOrder} {m : Market}

def fillsOf (m : Market) (fills : List (Nat × FillOrder)) : Nat := fills.countP fun e => e.2.market = m

def recordOf (fills : List (Nat × FillOrder)) (e : Nat × FillOrder) : OrderHistory :=
  ⟨fills.length, e.2.market, -fillsOf e.2.market fills, e.1, e.2⟩

/-- The records of all fills, if none had ever been removed -/
def createdFrom : List (Nat × FillOrder) → List (Nat × FillOrder) → List OrderHistory
  | [], _ => []
  | e :: rest, done => recordOf done e :: createdFrom rest (done ++ [e])

def created (fills : List (Nat × FillOrder)) : List OrderHistory := createdFrom fills []

theorem createdFrom_concat (rest done : List (Nat × FillOrder)) (e : Nat × FillOrder) :
    createdFrom (rest ++ [e]) done = createdFrom rest done ++ [recordOf (done ++ rest) e] := by
  induction rest generalizing done with
  | nil => simp [createdFrom]
  | cons e' rest ih => simp [createdFrom, ih, List.append_assoc]

theorem created_concat (fills : List (Nat × FillOrder)) (e : Nat × FillOrder) :
    created (fills ++ [e]) = created fills ++ [recordOf fills e] := createdFrom_concat fills [] e

theorem fillsOf_concat (m : Market) (fills : List (Nat × FillOrder)) (e : Nat × FillOrder) :
    fillsOf m (fills ++ [e]) = fillsOf m fills + if e.2.market = m then 1 else 0 := by
  simp [fillsOf, List.countP_append, List.countP_singleton]

theorem created_map (fills : List (Nat × FillOrder)) :
    (created fills).map (fun r => (r.time, r.op)) = fills := by
  induction fills using List.reverseRecOn with
  | nil => rfl
  | append_singleton fills e ih =>
    rw [created_concat, List.map_append, ih]
    rfl

variable {r r' : OrderHistory}

theorem entry_of_mem (hr : r ∈ created fills) : (r.time, r.op) ∈ fills := by
  have hmem : (r.time, r.op) ∈ (created fills).map fun r => (r.time, r.op) :=
    List.mem_map.mpr ⟨r, hr, rfl⟩
  rwa [created_map] at hmem

theorem id_lt_of_mem (hr : r ∈ created fills) : r.id < fills.length := by
  induction fills using List.reverseRecOn with
  | nil => cases hr
  | append_singleton fills e ih =>
    rw [List.length_append, List.length_singleton]
    rw [created_concat, List.mem_append, List.mem_singleton] at hr
    rcases hr with hr | rfl
    · exact Nat.lt_succ_of_lt (ih hr)
    · exact Nat.lt_succ_self _

theorem created_pairwise_id (fills : List (Nat × FillOrder)) :
    (created fills).Pairwise fun r r' => r.id < r'.id := by
  induction fills using List.reverseRecOn with
  | nil => exact .nil
  | append_singleton fills e ih =>
    rw [created_concat, List.pairwise_append]
    refine ⟨ih, List.pairwise_singleton _ _, ?_⟩
    intro r hr r' hr'
    rw [List.mem_singleton.mp hr']
    exact id_lt_of_mem hr

theorem created_nodup (fills : List (Nat × FillOrder)) : (created fills).Nodup := by
  apply (created_pairwise_id fills).imp
  intro r r' hlt heq
  rw [heq] at hlt
  exact Nat.lt_irrefl _ hlt

theorem eq_of_id_eq (hr : r ∈ created fills) (hr' : r' ∈ created fills) (hid : r.id = r'.id) :
    r = r' := by
  have hnodup : ((created fills).map OrderHistory.id).Nodup :=
    List.pairwise_map.mpr ((created_pairwise_id fills).imp Nat.ne_of_lt)
  exact List.inj_on_of_nodup_map hnodup hr hr' hid

theorem sequence_bounds (hr : r ∈ created fills) :
    -(fillsOf r.market fills : Int) < r.sequence ∧ r.sequence ≤ 0 := by
  induction fills using List.reverseRecOn with
  | nil => cases hr
  | append_singleton fills e ih =>
    rw [fillsOf_concat]
    rw [created_concat, List.mem_append, List.mem_singleton] at hr
    rcases hr with hr | rfl
    · have hold := ih hr
      split <;> omega
    · simp only [recordOf, if_true]
      omega

theorem created_pairwise_sequence (fills : List (Nat × FillOrder)) :
    (created fills).Pairwise fun r r' => r.market = r'.market → r'.sequence < r.sequence := by
  induction fills using List.reverseRecOn with
  | nil => exact .nil
  | append_singleton fills e ih =>
    rw [created_concat, List.pairwise_append]
    refine ⟨ih, List.pairwise_singleton _ _, ?_⟩
    intro r hr r' hr' hmarket
    rw [List.mem_singleton.mp hr'] at hmarket ⊢
    have hbounds := (sequence_bounds hr).1
    rwa [hmarket] at hbounds

theorem exists_newest (h : 0 < fillsOf m fills) :
    ∃ r ∈ created fills, r.market = m ∧ r.sequence = 1 - fillsOf m fills := by
  induction fills using List.reverseRecOn with
  | nil => cases h
  | append_singleton fills e ih =>
    rw [fillsOf_concat] at h ⊢
    rw [created_concat]
    by_cases hm : e.2.market = m
    · refine ⟨recordOf fills e, by simp, hm, ?_⟩
      subst hm
      show -((fillsOf e.2.market fills : Nat) : Int) = _
      rw [if_pos rfl]
      omega
    · rw [if_neg hm] at h ⊢
      obtain ⟨r, hr, hmarket, hsequence⟩ := ih h
      exact ⟨r, List.mem_append_left _ hr, hmarket, hsequence⟩

def newer (fills : List (Nat × FillOrder)) (r : OrderHistory) : Nat :=
  (created fills).countP fun r' => r'.market = r.market ∧ r.id < r'.id

theorem newer_eq (hr : r ∈ created fills) :
    (newer fills r : Int) = r.sequence + fillsOf r.market fills - 1 := by
  unfold newer
  induction fills using List.reverseRecOn with
  | nil => cases hr
  | append_singleton fills e ih =>
    rw [created_concat, List.mem_append, List.mem_singleton] at hr
    rw [fillsOf_concat, created_concat, List.countP_append, List.countP_singleton]
    rcases hr with hr | rfl
    · have hid := id_lt_of_mem hr
      have hold := ih hr
      by_cases hm : e.2.market = r.market
      · have hcounted : (recordOf fills e).market = r.market ∧ r.id < (recordOf fills e).id := ⟨hm, hid⟩
        rw [if_pos (decide_eq_true hcounted), if_pos hm]
        omega
      · have hskipped : ¬((recordOf fills e).market = r.market ∧ r.id < (recordOf fills e).id) :=
          fun hcounted => hm hcounted.1
        rw [if_neg (by simp [hskipped]), if_neg hm]
        omega
    · have hnone : (created fills).countP
          (fun r' => r'.market = (recordOf fills e).market ∧ (recordOf fills e).id < r'.id) = 0 := by
        apply List.countP_eq_zero.mpr
        intro r' hr' hcounted
        have hlt : fills.length < r'.id := (of_decide_eq_true hcounted).2
        exact absurd (id_lt_of_mem hr') (Nat.not_lt.mpr hlt.le)
      rw [hnone]
      show _ = -((fillsOf e.2.market fills : Nat) : Int) + ((fillsOf e.2.market fills + _ : Nat) : Int) - 1
      simp [recordOf]

structure Timed (fills : List (Nat × FillOrder)) (now : Nat) : Prop where
  pairwise : fills.Pairwise fun e e' => e.1 ≤ e'.1
  pos : ∀ e ∈ fills, 0 < e.1
  le_now : ∀ e ∈ fills, e.1 ≤ now

theorem Timed.concat (h : Timed fills now) (hnow : 0 < now) (o : FillOrder) :
    Timed (fills ++ [(now, o)]) now where
  pairwise := by
    rw [List.pairwise_append]
    refine ⟨h.pairwise, List.pairwise_singleton _ _, ?_⟩
    intro e he e' he'
    rw [List.mem_singleton.mp he']
    exact h.le_now e he
  pos e he := by
    rcases List.mem_append.mp he with he | he
    · exact h.pos e he
    · rw [List.mem_singleton.mp he]
      exact hnow
  le_now e he := by
    rcases List.mem_append.mp he with he | he
    · exact h.le_now e he
    · rw [List.mem_singleton.mp he]

theorem Timed.created_pairwise (h : Timed fills now) :
    (created fills).Pairwise fun r r' => r.time ≤ r'.time := by
  have hpairwise := h.pairwise
  rw [← created_map fills, List.pairwise_map] at hpairwise
  exact hpairwise

theorem Timed.older (h : Timed fills now) (hr : r ∈ created fills) (hr' : r' ∈ created fills)
    (hid : r.id < r'.id) :
    r.time ≤ r'.time ∧ (r.market = r'.market → r'.sequence < r.sequence) :=
  rel_of_key_lt ((created_pairwise_id fills).and (h.created_pairwise.and (created_pairwise_sequence fills)))
    hr hr' hid

theorem minTime_lt (hseconds : 0 < opts.maxOrderHisSecondsPerMarket) (hnow : 0 < now) :
    MarketHistory.minTime opts now < now := by
  unfold MarketHistory.minTime
  split <;> omega

theorem minTime_mono {t : Nat} (h : t ≤ now) :
    MarketHistory.minTime opts t ≤ MarketHistory.minTime opts now := by
  unfold MarketHistory.minTime
  split <;> split <;> omega

def Behind (opts : HistoryOptions) (sequence : Int) (now : Nat) (r : OrderHistory) : Prop :=
  sequence + opts.maxOrderHisRecordsPerMarket ≤ r.sequence ∧ r.time ≤ MarketHistory.minTime opts now

instance (opts : HistoryOptions) (sequence : Int) (now : Nat) (r : OrderHistory) :
    Decidable (Behind opts sequence now r) := inferInstanceAs (Decidable (_ ∧ _))

/-- The records that are there are records of fills, and those that are missing are behind both bounds of
a later fill of their market. -/
structure Stored (opts : HistoryOptions) (fills : List (Nat × FillOrder)) (s : MarketHistory) : Prop where
  nextId : s.nextId = fills.length
  sublist : s.orderHistory.Sublist (created fills)
  missing : ∀ r ∈ created fills, r ∉ s.orderHistory →
    ∃ r' ∈ created fills, r'.market = r.market ∧ Behind opts r'.sequence r'.time r

theorem stored_empty : Stored opts [] {} := ⟨rfl, List.Sublist.refl _, fun _ hr => nomatch hr⟩

namespace Stored

theorem pairwise (h : Stored opts fills s) (ht : Timed fills now) (m : Market) :
    (s.newestFirst m).Pairwise fun r r' =>
      r'.id < r.id ∧ r.sequence < r'.sequence ∧ r'.time ≤ r.time := by
  have hall : (created fills).Pairwise fun r r' =>
      r.id < r'.id ∧ (r.market = r'.market → r'.sequence < r.sequence) ∧ r.time ≤ r'.time :=
    (created_pairwise_id fills).and ((created_pairwise_sequence fills).and ht.created_pairwise)
  unfold MarketHistory.newestFirst
  rw [List.pairwise_reverse]
  apply ((hall.sublist h.sublist).filter _).imp_of_mem
  intro r r' hr hr' hand
  have hm := of_decide_eq_true (List.mem_filter.mp hr).2
  have hm' := of_decide_eq_true (List.mem_filter.mp hr').2
  exact ⟨hand.1, hand.2.1 (hm.trans hm'.symm), hand.2.2⟩

variable {r : OrderHistory}

theorem mem_newestFirst :
    r ∈ s.newestFirst m ↔ r ∈ s.orderHistory ∧ r.market = m := by
  unfold MarketHistory.newestFirst
  rw [List.mem_reverse, List.mem_filter, decide_eq_true_iff]

section

variable (h : Stored opts fills s)

include h

theorem byKey_eq (ht : Timed fills now) (m : Market) : s.byKey m = s.newestFirst m :=
  ((h.pairwise ht m).imp fun hr => hr.2.1.le).insertionSort_eq

theorem byMarketTime_eq (ht : Timed fills now) (m : Market) :
    s.byMarketTime m = s.newestFirst m := by
  apply List.Pairwise.insertionSort_eq
  apply (h.pairwise ht m).imp
  intro r r' hr
  rcases hr.2.2.lt_or_eq with hlt | heq
  · exact .inl hlt
  · exact .inr ⟨heq.symm, hr.2.1.le⟩

theorem newest_mem (ht : Timed fills now) (hseconds : 0 < opts.maxOrderHisSecondsPerMarket)
    (hr : r ∈ created fills) (hnewest : r.sequence = 1 - fillsOf r.market fills) :
    r ∈ s.orderHistory := by
  by_contra hnot
  obtain ⟨r', hr', hmarket, -, htime⟩ := h.missing r hr hnot
  -- the fill that removed it would be newer
  have hbounds := (sequence_bounds hr').1
  rw [hmarket] at hbounds
  have hpos := ht.pos _ (entry_of_mem hr')
  have hlt : r.time < r'.time := htime.trans_lt (minTime_lt hseconds hpos)
  rcases Nat.lt_trichotomy r.id r'.id with hid | hid | hid
  · have hlower := (ht.older hr hr' hid).2 hmarket.symm
    omega
  · rw [eq_of_id_eq hr hr' hid] at hlt
    exact Nat.lt_irrefl _ hlt
  · exact absurd hlt (Nat.not_lt.mpr (ht.older hr' hr hid).1)

theorem newSequence_eq (ht : Timed fills now) (hseconds : 0 < opts.maxOrderHisSecondsPerMarket)
    (m : Market) : s.newSequence m = -fillsOf m fills := by
  have hpairwise := h.pairwise ht m
  unfold MarketHistory.newSequence
  rw [h.byKey_eq ht]
  by_cases hnone : fillsOf m fills = 0
  · have hempty : s.newestFirst m = [] := by
      apply List.eq_nil_iff_forall_not_mem.mpr
      intro r hview
      obtain ⟨hr, rfl⟩ := mem_newestFirst.mp hview
      have hbounds := sequence_bounds (h.sublist.subset hr)
      omega
    rw [hempty, hnone]
    rfl
  · obtain ⟨newest, hnewest, rfl, hsequence⟩ := exists_newest (Nat.pos_of_ne_zero hnone)
    have hmem := mem_newestFirst.mpr ⟨h.newest_mem ht hseconds hnewest hsequence, rfl⟩
    cases hview : s.newestFirst newest.market with
    | nil =>
      rw [hview] at hmem
      cases hmem
    | cons r rest =>
      show r.sequence - 1 = _
      have hr : r ∈ s.newestFirst newest.market := hview ▸ List.mem_cons_self
      obtain ⟨hr, hmarket⟩ := mem_newestFirst.mp hr
      have hbounds := (sequence_bounds (h.sublist.subset hr)).1
      rw [hmarket] at hbounds
      rw [hview] at hmem hpairwise
      -- the first record has the lowest sequence number
      rcases List.mem_cons.mp hmem with rfl | hmem
      · omega
      · have hlower := ((List.pairwise_cons.mp hpairwise).1 newest hmem).2.1
        omega

theorem head_filter (ht : Timed fills now) {p : OrderHistory → Bool} {first : OrderHistory}
    (hfirst : ((s.newestFirst m).filter p).head? = some first) :
    first ∈ s.newestFirst m ∧ p first = true ∧
      ∀ r ∈ s.newestFirst m, p r = true → first.sequence ≤ r.sequence := by
  have hpairwise := (h.pairwise ht m).filter p
  cases hview : (s.newestFirst m).filter p with
  | nil =>
    rw [hview] at hfirst
    cases hfirst
  | cons r rest =>
    rw [hview] at hfirst hpairwise
    cases hfirst
    have hmem : first ∈ (s.newestFirst m).filter p := hview ▸ List.mem_cons_self
    obtain ⟨hfirst, hp⟩ := List.mem_filter.mp hmem
    refine ⟨hfirst, hp, fun r hr hpr => ?_⟩
    have hr : r ∈ first :: rest := hview ▸ List.mem_filter.mpr ⟨hr, hpr⟩
    rcases List.mem_cons.mp hr with rfl | hr
    · exact le_rfl
    · exact ((List.pairwise_cons.mp hpairwise).1 r hr).2.1.le

theorem time_antitone (ht : Timed fills now) {r' : OrderHistory} (hr : r ∈ s.newestFirst m)
    (hr' : r' ∈ s.newestFirst m) (hle : r.sequence ≤ r'.sequence) : r'.time ≤ r.time := by
  obtain ⟨hr, hm⟩ := mem_newestFirst.mp hr
  obtain ⟨hr', hm'⟩ := mem_newestFirst.mp hr'
  replace hr := h.sublist.subset hr
  replace hr' := h.sublist.subset hr'
  rcases Nat.lt_trichotomy r.id r'.id with hid | hid | hid
  · have hlt := (ht.older hr hr' hid).2 (hm.trans hm'.symm)
    omega
  · rw [eq_of_id_eq hr hr' hid]
  · exact (ht.older hr' hr hid).1

theorem mem_oldRecords (ht : Timed fills now) {sequence : Int} {t : Nat} :
    r ∈ s.oldRecords opts t sequence m ↔ r ∈ s.newestFirst m ∧ Behind opts sequence t r := by
  have hpairwise := h.pairwise ht m
  have hexcess : ClosedBelow (fun r => r.sequence < sequence + opts.maxOrderHisRecordsPerMarket)
      (s.newestFirst m) :=
    .of_pairwise hpairwise fun x y hxy hy =>
      decide_eq_true (hxy.2.1.trans (of_decide_eq_true hy))
  have haged : ClosedBelow (fun r => MarketHistory.minTime opts t < r.time) (s.newestFirst m) :=
    .of_pairwise hpairwise fun x y hxy hy =>
      decide_eq_true ((of_decide_eq_true hy).trans_le hxy.2.2)
  unfold MarketHistory.oldRecords Behind
  simp only [h.byKey_eq ht, h.byMarketTime_eq ht, hexcess.dropWhile_eq, haged.dropWhile_eq]
  cases hfirst : ((s.newestFirst m).filter fun r =>
      !decide (r.sequence < sequence + opts.maxOrderHisRecordsPerMarket)).head? with
  | none =>
    have hnone := List.filter_eq_nil_iff.mp (List.head?_eq_none_iff.mp hfirst)
    refine iff_of_false List.not_mem_nil ?_
    rintro ⟨hr, hle, -⟩
    exact hnone r hr (by simpa using hle)
  | some first =>
    cases hfirst' : ((s.newestFirst m).filter fun r =>
        !decide (MarketHistory.minTime opts t < r.time)).head? with
    | none =>
      have hnone := List.filter_eq_nil_iff.mp (List.head?_eq_none_iff.mp hfirst')
      refine iff_of_false List.not_mem_nil ?_
      rintro ⟨hr, -, hle⟩
      exact hnone r hr (by simpa using hle)
    | some first' =>
      obtain ⟨hmem, hp, hleast⟩ := h.head_filter ht hfirst
      obtain ⟨hmem', hp', hleast'⟩ := h.head_filter ht hfirst'
      simp only [Bool.not_eq_true', decide_eq_false_iff_not, not_lt] at hp hp' hleast hleast'
      dsimp only
      split
      · -- the range by sequence numbers is the shorter one
        rename_i hle
        rw [List.mem_filter, Bool.not_eq_true', decide_eq_false_iff_not, not_lt]
        refine and_congr_right fun hr => iff_self_and.mpr fun hseq => ?_
        exact (h.time_antitone ht hmem' hr (hle.trans (hleast r hr hseq))).trans hp'
      · rename_i hlt
        rw [List.mem_filter, Bool.not_eq_true', decide_eq_false_iff_not, not_lt]
        refine and_congr_right fun hr => (iff_and_self.mpr fun htime => ?_)
        have hle := hleast' r hr htime
        omega

theorem add (e : Nat × FillOrder) {s' : MarketHistory} (hnextId : s'.nextId = s.nextId + 1)
    (hhistory : s'.orderHistory = s.orderHistory ++ [recordOf fills e]) :
    Stored opts (fills ++ [e]) s' where
  nextId := by rw [hnextId, h.nextId, List.length_append, List.length_singleton]
  sublist := by
    rw [hhistory, created_concat]
    exact h.sublist.append (List.Sublist.refl _)
  missing r hr hnot := by
    rw [created_concat, List.mem_append] at hr
    rw [hhistory, List.mem_append, not_or] at hnot
    obtain ⟨r', hr', hbehind⟩ := h.missing r (hr.resolve_right hnot.2) hnot.1
    exact ⟨r', by rw [created_concat]; exact List.mem_append_left _ hr', hbehind⟩

end

def RemovedBy (opts : HistoryOptions) (fills : List (Nat × FillOrder)) (now : Nat) (o : FillOrder)
    (r : OrderHistory) : Prop :=
  r.market = o.market ∧ Behind opts (-fillsOf o.market fills) now r

instance (r : OrderHistory) : Decidable (RemovedBy opts fills now o r) :=
  inferInstanceAs (Decidable (_ ∧ _))

theorem record_orderHistory (h : Stored opts fills s) (ht : Timed fills now) (hnow : 0 < now)
    (hseconds : 0 < opts.maxOrderHisSecondsPerMarket) :
    (s.record opts now o).orderHistory =
      (s.orderHistory ++ [recordOf fills (now, o)]).filter fun r => ¬RemovedBy opts fills now o r := by
  unfold MarketHistory.record MarketHistory.removeAll
  rw [h.newSequence_eq ht hseconds, h.nextId]
  set added : MarketHistory := { s with
    orderHistory := s.orderHistory ++ [recordOf fills (now, o)]
    nextId := fills.length + 1
    tickerMeta := s.tickerMeta <|> some ⟨fills.length, false⟩ } with hadded
  have hstored : Stored opts (fills ++ [(now, o)]) added :=
    h.add (now, o) (by rw [h.nextId]) rfl
  apply List.filter_congr
  intro r hr
  have hcreated := hstored.sublist.subset hr
  apply decide_eq_decide.mpr
  apply not_congr
  rw [List.mem_map]
  constructor
  · rintro ⟨r', hr', hid⟩
    obtain ⟨hview, hbehind⟩ := (hstored.mem_oldRecords (ht.concat hnow o)).mp hr'
    obtain ⟨hmem, hmarket⟩ := mem_newestFirst.mp hview
    rw [← eq_of_id_eq (hstored.sublist.subset hmem) hcreated hid]
    exact ⟨hmarket, hbehind⟩
  · rintro ⟨hmarket, hbehind⟩
    exact ⟨r, (hstored.mem_oldRecords (ht.concat hnow o)).mpr
      ⟨mem_newestFirst.mpr ⟨hr, hmarket⟩, hbehind⟩, rfl⟩

end Stored

theorem processFillOrder_orderHistory :
    (s.processFillOrder opts now o).orderHistory = (s.record opts now o).orderHistory := by
  unfold MarketHistory.processFillOrder
  dsimp only
  split <;> rfl

theorem processFillOrder_nextId : (s.processFillOrder opts now o).nextId = s.nextId + 1 := by
  unfold MarketHistory.processFillOrder
  dsimp only
  split <;> rfl

theorem processFillOrder_tickerMeta :
    (s.processFillOrder opts now o).tickerMeta = (s.tickerMeta <|> some ⟨s.nextId, false⟩) := by
  unfold MarketHistory.processFillOrder
  dsimp only
  split <;> rfl

namespace Stored

section

variable (h : Stored opts fills s) (ht : Timed fills now) (hnow : 0 < now)
  (hseconds : 0 < opts.maxOrderHisSecondsPerMarket)

include h ht hnow hseconds

theorem processFillOrder_orderHistory : (s.processFillOrder opts now o).orderHistory =
      (s.orderHistory ++ [recordOf fills (now, o)]).filter fun r => ¬RemovedBy opts fills now o r := by
  rw [Plugins.processFillOrder_orderHistory, h.record_orderHistory ht hnow hseconds]

theorem processFillOrder : Stored opts (fills ++ [(now, o)]) (s.processFillOrder opts now o) where
  nextId := by
    rw [processFillOrder_nextId, h.nextId, List.length_append, List.length_singleton]
  sublist := by
    rw [h.processFillOrder_orderHistory ht hnow hseconds, created_concat]
    exact List.filter_sublist.trans (h.sublist.append (List.Sublist.refl _))
  missing r hr hnot := by
    rw [h.processFillOrder_orderHistory ht hnow hseconds, List.mem_filter, not_and] at hnot
    by_cases hmem : r ∈ s.orderHistory ++ [recordOf fills (now, o)]
    · -- the new fill has removed it
      have hremoved : RemovedBy opts fills now o r := by simpa using hnot hmem
      exact ⟨recordOf fills (now, o), by simp [created_concat], hremoved.1.symm, hremoved.2⟩
    · rw [List.mem_append, not_or] at hmem
      rw [created_concat, List.mem_append] at hr
      obtain ⟨r', hr', hbehind⟩ := h.missing r (hr.resolve_right hmem.2) hmem.1
      exact ⟨r', by rw [created_concat]; exact List.mem_append_left _ hr', hbehind⟩

theorem retained {r : OrderHistory} (hr : r ∈ created (fills ++ [(now, o)]))
    (hmarket : r.market = o.market) : r ∈ (s.processFillOrder opts now o).orderHistory ↔
      newer (fills ++ [(now, o)]) r < opts.maxOrderHisRecordsPerMarket ∨
        (now : Int) - opts.maxOrderHisSecondsPerMarket < r.time := by
  have hnewer := newer_eq hr
  have hpos := (ht.concat hnow o).pos _ (entry_of_mem hr)
  rw [fillsOf_concat, if_pos hmarket.symm] at hnewer
  have hbehind : RemovedBy opts fills now o r ↔
      ¬(newer (fills ++ [(now, o)]) r < opts.maxOrderHisRecordsPerMarket ∨
        (now : Int) - opts.maxOrderHisSecondsPerMarket < r.time) := by
    unfold RemovedBy Behind MarketHistory.minTime
    rw [hmarket] at hnewer
    simp only [hmarket, true_and]
    split <;> omega
  rw [h.processFillOrder_orderHistory ht hnow hseconds, List.mem_filter, decide_eq_true_iff, hbehind,
    not_not]
  refine ⟨And.right, fun hkept => ⟨?_, hkept⟩⟩
  by_contra hmem
  rw [List.mem_append, not_or] at hmem
  rw [created_concat, List.mem_append] at hr
  -- whatever has removed the record before, the new fill is newer and later
  obtain ⟨r', hr', hmarket', hseq, htime⟩ := h.missing r (hr.resolve_right hmem.2) hmem.1
  refine absurd hkept (hbehind.mp ⟨hmarket, ?_, ?_⟩)
  · have hbounds := (sequence_bounds hr').1
    rw [hmarket', hmarket] at hbounds
    omega
  · exact htime.trans (minTime_mono (ht.le_now _ (entry_of_mem hr')))

end

end Stored

end Meta1Core.Plugins
