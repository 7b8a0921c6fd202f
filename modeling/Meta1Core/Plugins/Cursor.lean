import Meta1Core.Plugins.Retention

/-!
# The cursor

The cursor stands between the records that are older than a day and the others, whatever has been pruned
since it was moved: the flag says on which side the record at the cursor is, and a new record is always
behind the cursor.
-/

namespace Meta1Core.Plugins

open Lib (ClosedBelow)

variable {opts : HistoryOptions} {fills : List (Nat × FillOrder)} {s : MarketHistory} {now t : Nat}
  {o : FillOrder}

def Old (now : Nat) (e : Nat × FillOrder) : Prop := e.1 + 86400 < now

instance (now : Nat) (e : Nat × FillOrder) : Decidable (Old now e) := inferInstanceAs (Decidable (_ < _))

def MarketTickerMeta.Passed (cursor : MarketTickerMeta) (r : OrderHistory) : Prop :=
  r.id < cursor.rollingMinOrderHisId ∨
    cursor.skipMinOrderHisId = true ∧ r.id = cursor.rollingMinOrderHisId

structure Boundary (now : Nat) (s : MarketHistory) : Prop where
  unset : s.tickerMeta = none → s.orderHistory = []
  bound : ∀ cursor, s.tickerMeta = some cursor → cursor.rollingMinOrderHisId < s.nextId
  passed : ∀ cursor, s.tickerMeta = some cursor → ∀ r ∈ s.orderHistory,
    cursor.Passed r ↔ Old now (r.time, r.op)

theorem boundary_empty : Boundary 0 {} where
  unset _ := rfl
  bound _ hcursor := nomatch hcursor
  passed _ hcursor := nomatch hcursor

theorem lt_lastDay_iff (ht : t < 2 ^ 32) (hday : 86400 ≤ t) (r : OrderHistory) :
    r.time < MarketHistory.lastDay t ↔ Old t (r.time, r.op) := by
  unfold MarketHistory.lastDay Old
  rw [Allocation.u32Sub_of_le ht hday]
  omega

theorem Old.mono {e : Nat × FillOrder} (h : Old now e) (hle : now ≤ t) : Old t e :=
  Nat.lt_of_lt_of_le h hle

namespace Boundary

theorem add (h : Boundary now s) (hs : Stored opts fills s) (hlt : now < t) :
    ∀ cursor, (s.tickerMeta <|> some ⟨s.nextId, false⟩) = some cursor →
      cursor.rollingMinOrderHisId < s.nextId + 1 ∧
        ∀ r ∈ s.orderHistory ++ [recordOf fills (t, o)], cursor.Passed r ↔ Old now (r.time, r.op) := by
  have hnew : (recordOf fills (t, o)).id = s.nextId := hs.nextId.symm
  have hrecent : ¬Old now ((recordOf fills (t, o)).time, (recordOf fills (t, o)).op) := by
    show ¬(t + 86400 < now)
    omega
  intro cursor hcursor
  simp only [List.mem_append, List.mem_singleton]
  cases hmeta : s.tickerMeta with
  | none =>
    rw [hmeta] at hcursor
    cases hcursor
    refine ⟨Nat.lt_succ_self _, ?_⟩
    rintro r (hr | rfl)
    · rw [h.unset hmeta] at hr
      cases hr
    · simp [MarketTickerMeta.Passed, hnew, hrecent]
  | some cursor' =>
    rw [hmeta] at hcursor
    cases hcursor
    have hbound := h.bound cursor hmeta
    refine ⟨Nat.lt_succ_of_lt hbound, ?_⟩
    rintro r (hr | rfl)
    · exact h.passed cursor hmeta r hr
    · apply iff_of_false _ hrecent
      unfold MarketTickerMeta.Passed
      omega

theorem processFillOrder (h : Boundary now s) (hs : Stored opts fills s) (ht : Timed fills t)
    (hlt : now < t) (hseconds : 0 < opts.maxOrderHisSecondsPerMarket) :
    Boundary now (s.processFillOrder opts t o) where
  unset hnone := by
    rw [processFillOrder_tickerMeta] at hnone
    cases hmeta : s.tickerMeta with
    | none => rw [hmeta] at hnone; cases hnone
    | some cursor => rw [hmeta] at hnone; cases hnone
  bound cursor hcursor := by
    rw [processFillOrder_tickerMeta] at hcursor
    rw [processFillOrder_nextId]
    exact (h.add (o := o) hs hlt cursor hcursor).1
  passed cursor hcursor r hr := by
    rw [processFillOrder_tickerMeta] at hcursor
    rw [hs.processFillOrder_orderHistory ht (Nat.zero_lt_of_lt hlt) hseconds] at hr
    exact (h.add hs hlt cursor hcursor).2 r (List.mem_filter.mp hr).1

end Boundary

theorem Stored.pairwise_order (hs : Stored opts fills s) (ht : Timed fills now) :
    s.orderHistory.Pairwise fun r r' => r.id < r'.id ∧ r.time ≤ r'.time :=
  ((created_pairwise_id fills).and ht.created_pairwise).sublist hs.sublist

theorem fromCursor_eq (hs : Stored opts fills s) (cursor : MarketTickerMeta) :
    s.fromCursor cursor = s.orderHistory.filter fun r => !decide (r.id < cursor.rollingMinOrderHisId) := by
  have hclosed : ClosedBelow (fun r => decide (r.id < cursor.rollingMinOrderHisId)) s.orderHistory := by
    apply ClosedBelow.of_pairwise ((created_pairwise_id fills).sublist hs.sublist)
    intro x y hxy hy
    exact decide_eq_true (hxy.trans (of_decide_eq_true hy))
  exact hclosed.dropWhile_eq

theorem closedBelow_lastDay (hs : Stored opts fills s) (ht : Timed fills now)
    (cursor : MarketTickerMeta) :
    ClosedBelow (fun r => decide (r.time < MarketHistory.lastDay t)) (s.fromCursor cursor) := by
  rw [fromCursor_eq hs]
  apply ClosedBelow.of_pairwise ((hs.pairwise_order ht).filter _)
  intro x y hxy hy
  exact decide_eq_true (hxy.2.trans_lt (of_decide_eq_true hy))

theorem rolled_eq (rollingMin : Nat) (skip : Bool) {records : List OrderHistory}
    (hpairwise : records.Pairwise fun r r' => r.id < r'.id) :
    MarketHistory.rolled rollingMin skip records =
      records.filter fun r => r.op.isMaker && !(skip && decide (r.id = rollingMin)) := by
  induction records generalizing skip with
  | nil => rfl
  | cons r records ih =>
    obtain ⟨hfirst, hrest⟩ := List.pairwise_cons.mp hpairwise
    unfold MarketHistory.rolled
    by_cases hskip : (skip && decide (r.id = rollingMin)) = true
    · rw [if_pos hskip, ih false hrest, List.filter_cons_of_neg (by simp [hskip])]
      apply List.filter_congr
      intro r' hr'
      obtain ⟨-, hid⟩ := Bool.and_eq_true_iff.mp hskip
      have hne : r'.id ≠ rollingMin := of_decide_eq_true hid ▸ (hfirst r' hr').ne'
      simp [hne]
    · rw [if_neg hskip, ih skip hrest]
      cases hmaker : r.op.isMaker with
      | true => rw [List.filter_cons_of_pos (by simp [hmaker, hskip])]; rfl
      | false => rw [List.filter_cons_of_neg (by simp [hmaker])]; rfl

theorem Boundary.expired_eq (h : Boundary now s) (hs : Stored opts fills s) (htimed : Timed fills t)
    (ht : t < 2 ^ 32) (hday : 86400 ≤ t) :
    s.expired t = s.orderHistory.filter fun r =>
      r.op.isMaker && (!decide (Old now (r.time, r.op)) && decide (Old t (r.time, r.op))) := by
  unfold MarketHistory.expired
  cases hmeta : s.tickerMeta with
  | none =>
    rw [h.unset hmeta]
    rfl
  | some cursor =>
    dsimp only
    have hpairwise : (s.fromCursor cursor).Pairwise fun r r' => r.id < r'.id := by
      rw [fromCursor_eq hs]
      exact ((created_pairwise_id fills).sublist hs.sublist).filter _
    rw [(closedBelow_lastDay hs htimed cursor).takeWhile_eq, rolled_eq _ _ (hpairwise.filter _),
      fromCursor_eq hs, List.filter_filter, List.filter_filter]
    apply List.filter_congr
    intro r hr
    have hpassed := h.passed cursor hmeta r hr
    have hlast := lt_lastDay_iff ht hday r
    unfold MarketTickerMeta.Passed at hpassed
    rw [Bool.eq_iff_iff]
    simp only [Bool.and_eq_true, Bool.not_eq_true', Bool.and_eq_false_iff, decide_eq_true_iff,
      decide_eq_false_iff_not, ← hpassed, hlast]
    grind

namespace Boundary

variable {cursor : MarketTickerMeta}

theorem old_iff_before (h : Boundary now s) (hs : Stored opts fills s) (htimed : Timed fills t)
    (hle : now ≤ t) (ht : t < 2 ^ 32) (hday : 86400 ≤ t) (hmeta : s.tickerMeta = some cursor)
    {first : OrderHistory} {rest : List OrderHistory}
    (hview : ((s.fromCursor cursor).dropWhile fun r => decide (r.time < MarketHistory.lastDay t)) =
      first :: rest) :
    first ∈ s.orderHistory ∧ cursor.rollingMinOrderHisId ≤ first.id ∧
      ∀ r ∈ s.orderHistory, Old t (r.time, r.op) ↔ r.id < first.id := by
  rw [(closedBelow_lastDay hs htimed cursor).dropWhile_eq, fromCursor_eq hs, List.filter_filter] at hview
  have hpairwise := ((created_pairwise_id fills).sublist hs.sublist).filter fun r =>
    !decide (r.time < MarketHistory.lastDay t) && !decide (r.id < cursor.rollingMinOrderHisId)
  have hfirst : first ∈ first :: rest := List.mem_cons_self
  rw [← hview, List.mem_filter] at hfirst
  rw [hview] at hpairwise
  obtain ⟨hmem, hfirst⟩ := hfirst
  simp only [Bool.and_eq_true, Bool.not_eq_true', decide_eq_false_iff_not, lt_lastDay_iff ht hday,
    Nat.not_lt] at hfirst
  refine ⟨hmem, hfirst.2, ?_⟩
  intro r hr
  constructor
  · intro hold
    by_contra hnot
    rcases (Nat.not_lt.mp hnot).lt_or_eq with hlt | heq
    · -- an older record with a higher id
      have hle := (htimed.older (hs.sublist.subset hmem) (hs.sublist.subset hr) hlt).1
      exact hfirst.1 (Nat.lt_of_le_of_lt (Nat.add_le_add_right hle _) hold)
    · rw [← eq_of_id_eq (hs.sublist.subset hmem) (hs.sublist.subset hr) heq] at hold
      exact hfirst.1 hold
  · intro hlt
    by_contra hnot
    by_cases hbefore : r.id < cursor.rollingMinOrderHisId
    · exact hnot (((h.passed cursor hmeta r hr).mp (.inl hbefore)).mono hle)
    · -- it would be the first one
      have hrest : r ∈ first :: rest := by
        rw [← hview, List.mem_filter]
        refine ⟨hr, ?_⟩
        simp only [Bool.and_eq_true, Bool.not_eq_true', decide_eq_false_iff_not, lt_lastDay_iff ht hday]
        exact ⟨hnot, hbefore⟩
      rcases List.mem_cons.mp hrest with rfl | hrest
      · exact Nat.lt_irrefl _ hlt
      · exact Nat.lt_asymm hlt ((List.pairwise_cons.mp hpairwise).1 r hrest)

theorem le_lastMinHisId (h : Boundary now s) (hs : Stored opts fills s) (hle : now ≤ t)
    (ht : t < 2 ^ 32) (hday : 86400 ≤ t) (hmeta : s.tickerMeta = some cursor)
    (hview : ((s.fromCursor cursor).dropWhile fun r => decide (r.time < MarketHistory.lastDay t)) = [])
    {lastMinHisId : Nat} (hlast : ((((s.fromCursor cursor).takeWhile fun r =>
      decide (r.time < MarketHistory.lastDay t)).getLast?.map OrderHistory.id).getD
        cursor.rollingMinOrderHisId) = lastMinHisId) :
    lastMinHisId < s.nextId ∧
      ∀ r ∈ s.orderHistory, Old t (r.time, r.op) ∧ r.id ≤ lastMinHisId := by
  have htake : ((s.fromCursor cursor).takeWhile fun r => decide (r.time < MarketHistory.lastDay t)) =
      s.fromCursor cursor := by
    have happend := List.takeWhile_append_dropWhile (p := fun r : OrderHistory =>
      decide (r.time < MarketHistory.lastDay t)) (l := s.fromCursor cursor)
    rwa [hview, List.append_nil] at happend
  have hold : ∀ r ∈ s.fromCursor cursor, Old t (r.time, r.op) := by
    intro r hr
    rw [← htake] at hr
    exact (lt_lastDay_iff ht hday r).mp (of_decide_eq_true (List.all_eq_true.mp List.all_takeWhile r hr))
  have hpairwise := ((created_pairwise_id fills).sublist hs.sublist).filter fun r =>
    !decide (r.id < cursor.rollingMinOrderHisId)
  rw [← fromCursor_eq hs] at hpairwise
  rw [htake] at hlast
  have hmem : ∀ r, r ∈ s.fromCursor cursor ↔
      r ∈ s.orderHistory ∧ cursor.rollingMinOrderHisId ≤ r.id := by
    intro r
    rw [fromCursor_eq hs, List.mem_filter]
    simp
  have hcases : ∀ r ∈ s.orderHistory, r.id < cursor.rollingMinOrderHisId ∨ r ∈ s.fromCursor cursor := by
    intro r hr
    rw [hmem]
    rcases Nat.lt_or_ge r.id cursor.rollingMinOrderHisId with hlt | hge
    · exact .inl hlt
    · exact .inr ⟨hr, hge⟩
  have hlastMin : cursor.rollingMinOrderHisId ≤ lastMinHisId ∧ lastMinHisId < s.nextId ∧
      ∀ r ∈ s.fromCursor cursor, r.id ≤ lastMinHisId := by
    rcases List.eq_nil_or_concat (s.fromCursor cursor) with hnil | ⟨before, last, hconcat⟩
    · rw [hnil] at hlast ⊢
      cases hlast
      exact ⟨le_rfl, h.bound cursor hmeta, fun r hr => nomatch hr⟩
    · rw [hconcat] at hlast hpairwise ⊢
      have hlastmem := (hmem last).mp (by rw [hconcat]; simp)
      rw [List.concat_eq_append, List.getLast?_concat] at hlast
      cases hlast
      rw [List.concat_eq_append, List.pairwise_append] at hpairwise
      refine ⟨hlastmem.2, hs.nextId ▸ id_lt_of_mem (hs.sublist.subset hlastmem.1), ?_⟩
      intro r hr
      rw [List.concat_eq_append, List.mem_append, List.mem_singleton] at hr
      rcases hr with hr | rfl
      · exact (hpairwise.2.2 r hr last (List.mem_singleton_self _)).le
      · exact le_rfl
  refine ⟨hlastMin.2.1, ?_⟩
  intro r hr
  rcases hcases r hr with hlt | hfrom
  · exact ⟨((h.passed cursor hmeta r hr).mp (.inl hlt)).mono hle, hlt.le.trans hlastMin.1⟩
  · exact ⟨hold r hfrom, hlastMin.2.2 r hfrom⟩

theorem moveCursor (h : Boundary now s) (hs : Stored opts fills s) (htimed : Timed fills t)
    (hle : now ≤ t) (ht : t < 2 ^ 32) (hday : 86400 ≤ t) (hmeta : s.tickerMeta = some cursor) :
    (s.moveCursor t cursor).rollingMinOrderHisId < s.nextId ∧
      ∀ r ∈ s.orderHistory, (s.moveCursor t cursor).Passed r ↔ Old t (r.time, r.op) := by
  unfold MarketHistory.moveCursor
  cases hview : (s.fromCursor cursor).dropWhile fun r => decide (r.time < MarketHistory.lastDay t) with
  | cons first rest =>
    obtain ⟨hmem, hcursor, hold⟩ := h.old_iff_before hs htimed hle ht hday hmeta hview
    dsimp only
    split
    · refine ⟨hs.nextId ▸ id_lt_of_mem (hs.sublist.subset hmem), ?_⟩
      intro r hr
      rw [hold r hr]
      simp [MarketTickerMeta.Passed]
    · rename_i heq
      rw [not_not] at heq
      refine ⟨h.bound cursor hmeta, ?_⟩
      intro r hr
      rw [hold r hr, heq]
      apply or_iff_left
      rintro ⟨hskip, hid⟩
      -- the record at the cursor would have been old before
      have hpassed : cursor.Passed first := .inr ⟨hskip, heq⟩
      have hfirst := ((h.passed cursor hmeta first hmem).mp hpassed).mono hle
      exact Nat.lt_irrefl _ ((hold first hmem).mp hfirst)
  | nil =>
    dsimp only
    obtain ⟨hbound, hold⟩ := h.le_lastMinHisId hs hle ht hday hmeta hview rfl
    split
    · refine ⟨hbound, ?_⟩
      intro r hr
      apply iff_of_true _ (hold r hr).1
      rcases (hold r hr).2.lt_or_eq with hlt | heq
      · exact .inl hlt
      · exact .inr ⟨rfl, heq⟩
    · rename_i hsame
      rw [not_or, not_not, not_not] at hsame
      refine ⟨h.bound cursor hmeta, ?_⟩
      intro r hr
      apply iff_of_true _ (hold r hr).1
      have hle := (hold r hr).2
      rw [hsame.2] at hle
      rcases hle.lt_or_eq with hlt | heq
      · exact .inl hlt
      · exact .inr ⟨hsame.1, heq⟩

theorem rollOut (h : Boundary now s) (hs : Stored opts fills s) (htimed : Timed fills t)
    (hle : now ≤ t) (ht : t < 2 ^ 32) (hday : 86400 ≤ t) {s' : MarketHistory}
    (hhistory : s'.orderHistory = s.orderHistory) (hnextId : s'.nextId = s.nextId)
    (hmeta' : s'.tickerMeta = s.tickerMeta.map (s.moveCursor t)) : Boundary t s' where
  unset hnone := by
    rw [hmeta', Option.map_eq_none_iff] at hnone
    rw [hhistory, h.unset hnone]
  bound cursor' hcursor' := by
    rw [hmeta', Option.map_eq_some_iff] at hcursor'
    obtain ⟨cursor, hmeta, rfl⟩ := hcursor'
    rw [hnextId]
    exact (h.moveCursor hs htimed hle ht hday hmeta).1
  passed cursor' hcursor' := by
    rw [hmeta', Option.map_eq_some_iff] at hcursor'
    obtain ⟨cursor, hmeta, rfl⟩ := hcursor'
    rw [hhistory]
    exact (h.moveCursor hs htimed hle ht hday hmeta).2

end Boundary

end Meta1Core.Plugins
