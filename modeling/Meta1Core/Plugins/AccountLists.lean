import Meta1Core.Plugins.AccountHistory

/-!
# The list of an account

The entries of an account, in the order in which they were added, have consecutive sequence numbers,
and each one points to the entry before.
-/

namespace Meta1Core.Plugins

open Lib (FlatSet Table Outcome)
open Protocol

variable {ω : Type} {opts : AccountHistoryOptions} {s s' : AccountHistory ω} {a : AccountId}
  {stats : HistoryStatistics}

/-! ## Lists that are linked backwards -/

def Listed : (prev sequence : Nat) → List HistoryEntry → Prop
  | _, _, [] => True
  | prev, sequence, e :: es => e.next = prev ∧ e.sequence = sequence ∧ Listed e.id (sequence + 1) es

def lastId : (prev : Nat) → List HistoryEntry → Nat
  | prev, [] => prev
  | _, e :: es => lastId e.id es

variable {operationId prev sequence : Nat} {es rest : List HistoryEntry}

theorem listed_concat {e : HistoryEntry} (h : Listed prev sequence es)
    (hnext : e.next = lastId prev es) (hsequence : e.sequence = sequence + es.length) :
    Listed prev sequence (es ++ [e]) := by
  induction es generalizing prev sequence with
  | nil => exact ⟨hnext, hsequence, trivial⟩
  | cons first es ih =>
    obtain ⟨hfirst, hfirst', hrest⟩ := h
    refine ⟨hfirst, hfirst', ih hrest hnext ?_⟩
    rw [hsequence, List.length_cons]
    omega

theorem lastId_concat (prev : Nat) (es : List HistoryEntry) (e : HistoryEntry) :
    lastId prev (es ++ [e]) = e.id := by
  induction es generalizing prev with
  | nil => rfl
  | cons first es ih => exact ih first.id

theorem Listed.map_sequence (h : Listed prev sequence es) :
    es.map HistoryEntry.sequence = List.range' sequence es.length := by
  induction es generalizing prev sequence with
  | nil => rfl
  | cons e es ih =>
    obtain ⟨-, hsequence, hrest⟩ := h
    rw [List.map_cons, List.length_cons, List.range'_succ, ih hrest, hsequence]

theorem Listed.next_eq {e : HistoryEntry} (h : Listed prev sequence (es ++ e :: rest)) :
    e.next = lastId prev es := by
  induction es generalizing prev sequence with
  | nil => exact h.1
  | cons first es ih => exact ih h.2.2

theorem Listed.pairwise (h : Listed prev sequence es) :
    es.Pairwise fun e e' => e.sequence < e'.sequence := by
  have hlt : (es.map HistoryEntry.sequence).Pairwise (· < ·) := by
    rw [h.map_sequence]
    exact List.pairwise_lt_range'
  exact List.pairwise_map.mp hlt

def AccountHistory.entriesOf (s : AccountHistory ω) (account : AccountId) : List HistoryEntry :=
  s.entries.filter fun e => e.account = account

structure Linked (opts : AccountHistoryOptions) (s : AccountHistory ω) : Prop where
  ids : s.entries.Pairwise fun e e' => e.id < e'.id
  bound : ∀ e ∈ s.entries, e.id < s.nextEntryId
  known : ∀ e ∈ s.entries, (s.statistics.lookup e.account).isSome
  referred : ∀ e ∈ s.entries, e.operationId ∈ s.operations.map Prod.fst
  listed : ∀ a stats, s.statistics.lookup a = some stats →
    Listed 0 (stats.removedOps + 1) (s.entriesOf a)
  count : ∀ a stats, s.statistics.lookup a = some stats →
    stats.removedOps + (s.entriesOf a).length = stats.totalOps ∧
      (s.entriesOf a).length ≤ opts.maxOpsPerAccount
  last : ∀ a stats, s.statistics.lookup a = some stats → stats.mostRecentOp = lastId 0 (s.entriesOf a)

theorem linked_empty : Linked opts ({} : AccountHistory ω) where
  ids := .nil
  bound _ he := nomatch he
  known _ he := nomatch he
  referred _ he := nomatch he
  listed _ _ h := nomatch h
  count _ _ h := nomatch h
  last _ _ h := nomatch h

namespace Linked

theorem eq_of_id_eq (h : Linked opts s) {e e' : HistoryEntry} (he : e ∈ s.entries) (he' : e' ∈ s.entries)
    (hid : e.id = e'.id) : e = e' := by
  have hnodup : (s.entries.map HistoryEntry.id).Nodup :=
    List.pairwise_map.mpr (h.ids.imp Nat.ne_of_lt)
  exact List.inj_on_of_nodup_map hnodup he he' hid

theorem congr (h : Linked opts s) (hentries : s'.entries = s.entries)
    (hnext : s'.nextEntryId = s.nextEntryId) (hstatistics : s'.statistics = s.statistics)
    (hreferred : ∀ e ∈ s.entries, e.operationId ∈ s'.operations.map Prod.fst) : Linked opts s' where
  ids := by rw [hentries]; exact h.ids
  bound := by rw [hentries, hnext]; exact h.bound
  known := by rw [hentries, hstatistics]; exact h.known
  referred := by rw [hentries]; exact hreferred
  listed := by unfold AccountHistory.entriesOf; rw [hentries, hstatistics]; exact h.listed
  count := by unfold AccountHistory.entriesOf; rw [hentries, hstatistics]; exact h.count
  last := by unfold AccountHistory.entriesOf; rw [hentries, hstatistics]; exact h.last

theorem of_account (hids : s'.entries.Pairwise fun e e' => e.id < e'.id)
    (hbound : ∀ e ∈ s'.entries, e.id < s'.nextEntryId) (h : Linked opts s) {new : HistoryStatistics}
    (hstatistics : ∀ a', s'.statistics.lookup a' = if a' = a then some new else s.statistics.lookup a')
    (hothers : ∀ a', a' ≠ a → s'.entriesOf a' = s.entriesOf a')
    (hreferred : ∀ e ∈ s'.entries, e.operationId ∈ s'.operations.map Prod.fst)
    (hlisted : Listed 0 (new.removedOps + 1) (s'.entriesOf a))
    (hcount : new.removedOps + (s'.entriesOf a).length = new.totalOps ∧
      (s'.entriesOf a).length ≤ opts.maxOpsPerAccount)
    (hlast : new.mostRecentOp = lastId 0 (s'.entriesOf a)) : Linked opts s' where
  ids := hids
  bound := hbound
  known e he := by
    rw [hstatistics]
    split
    · rfl
    · rename_i hne
      have hmem : e ∈ s'.entriesOf e.account := List.mem_filter.mpr ⟨he, decide_eq_true rfl⟩
      rw [hothers _ hne] at hmem
      exact h.known e (List.mem_filter.mp hmem).1
  referred := hreferred
  listed a' stats' hlookup := by
    rw [hstatistics] at hlookup
    split at hlookup
    · rename_i heq
      cases hlookup
      rw [heq]
      exact hlisted
    · rename_i hne
      rw [hothers a' hne]
      exact h.listed a' stats' hlookup
  count a' stats' hlookup := by
    rw [hstatistics] at hlookup
    split at hlookup
    · rename_i heq
      cases hlookup
      rw [heq]
      exact hcount
    · rename_i hne
      rw [hothers a' hne]
      exact h.count a' stats' hlookup
  last a' stats' hlookup := by
    rw [hstatistics] at hlookup
    split at hlookup
    · rename_i heq
      cases hlookup
      rw [heq]
      exact hlast
    · rename_i hne
      rw [hothers a' hne]
      exact h.last a' stats' hlookup

end Linked

/-! ## One more entry -/

structure KeepsOperations (s s' : AccountHistory ω) : Prop where
  nextOperationId : s'.nextOperationId = s.nextOperationId
  usedIds : s'.usedIds = s.usedIds
  operations : ∀ x ∈ s'.operations, x ∈ s.operations
  accounts : ∀ a, (s'.statistics.lookup a).isSome = (s.statistics.lookup a).isSome

theorem KeepsOperations.refl (s : AccountHistory ω) : KeepsOperations s s :=
  ⟨rfl, rfl, fun _ hx => hx, fun _ => rfl⟩

theorem KeepsOperations.trans {s'' : AccountHistory ω} (h : KeepsOperations s s')
    (h' : KeepsOperations s' s'') : KeepsOperations s s'' where
  nextOperationId := h'.nextOperationId.trans h.nextOperationId
  usedIds := h'.usedIds.trans h.usedIds
  operations x hx := h.operations x (h'.operations x hx)
  accounts a := (h'.accounts a).trans (h.accounts a)

theorem Linked.removeUnreferenced (h : Linked opts s)
    (hthere : operationId ∈ s.operations.map Prod.fst) :
    ∃ s', s.removeUnreferenced operationId = .ok s' ∧ Linked opts s' ∧ KeepsOperations s s' ∧
      s'.entries = s.entries := by
  unfold AccountHistory.removeUnreferenced
  by_cases hreferred : ∃ e ∈ s.entries, e.operationId = operationId
  · rw [if_pos hreferred]
    exact ⟨s, rfl, h, KeepsOperations.refl s, rfl⟩
  · rw [if_neg hreferred, if_neg (not_not.mpr hthere)]
    refine ⟨_, rfl, h.congr rfl rfl rfl ?_, ⟨rfl, rfl, ?_, fun _ => rfl⟩, rfl⟩
    · intro e he
      obtain ⟨x, hx, hid⟩ := List.mem_map.mp (h.referred e he)
      refine List.mem_map.mpr ⟨x, List.mem_filter.mpr ⟨hx, decide_eq_true ?_⟩, hid⟩
      rw [hid]
      exact fun heq => hreferred ⟨e, he, heq⟩
    · exact fun x hx => (List.mem_filter.mp hx).1

def clearNext (id : Nat) (e : HistoryEntry) : HistoryEntry := if e.id = id then { e with next := 0 } else e

@[simp] theorem clearNext_id (id : Nat) (e : HistoryEntry) : (clearNext id e).id = e.id := by
  unfold clearNext
  split <;> rfl

@[simp] theorem clearNext_account (id : Nat) (e : HistoryEntry) : (clearNext id e).account = e.account := by
  unfold clearNext
  split <;> rfl

@[simp] theorem clearNext_operationId (id : Nat) (e : HistoryEntry) :
    (clearNext id e).operationId = e.operationId := by
  unfold clearNext
  split <;> rfl

theorem clearNext_of_ne {id : Nat} {e : HistoryEntry} (h : e.id ≠ id) : clearNext id e = e := if_neg h

theorem entriesOf_removed {entries : List HistoryEntry}
    (hids : entries.Pairwise fun e e' => e.id < e'.id) {itr first : HistoryEntry}
    (hview : (entries.filter fun e => e.account = a) = itr :: first :: rest) :
    (((entries.filter fun e => e.id ≠ itr.id).map (clearNext first.id)).filter fun e => e.account = a) =
        { first with next := 0 } :: rest ∧
      ∀ a', a' ≠ a →
        (((entries.filter fun e => e.id ≠ itr.id).map (clearNext first.id)).filter
          fun e => e.account = a') = entries.filter fun e => e.account = a' := by
  have hmem : ∀ e ∈ itr :: first :: rest, e ∈ entries ∧ e.account = a := by
    intro e he
    rw [← hview, List.mem_filter, decide_eq_true_iff] at he
    exact he
  have hinj : ∀ e ∈ entries, ∀ e' ∈ entries, e.id = e'.id → e = e' := by
    intro e he e' he' hid
    exact List.inj_on_of_nodup_map (List.pairwise_map.mpr (hids.imp Nat.ne_of_lt)) he he' hid
  have hswap : ∀ a', (((entries.filter fun e => e.id ≠ itr.id).map (clearNext first.id)).filter
      fun e => e.account = a') =
        ((entries.filter fun e => e.account = a').filter fun e => e.id ≠ itr.id).map
          (clearNext first.id) := by
    intro a'
    rw [List.filter_map, List.filter_filter, List.filter_filter]
    congr 1
    apply List.filter_congr
    intro e _
    simp only [Function.comp_apply, clearNext_account]
    exact Bool.and_comm ..
  constructor
  · have hsorted := hids.filter fun e => e.account = a
    rw [hview] at hsorted
    obtain ⟨hitr, hsorted⟩ := List.pairwise_cons.mp hsorted
    obtain ⟨hfirst, -⟩ := List.pairwise_cons.mp hsorted
    have hkept : ∀ e ∈ first :: rest, decide (e.id ≠ itr.id) = true := by
      intro e he
      exact decide_eq_true (hitr e he).ne'
    have hrest : rest.map (clearNext first.id) = rest.map id := by
      apply List.map_congr_left
      intro e he
      exact clearNext_of_ne (hfirst e he).ne'
    have hcleared : clearNext first.id first = { first with next := 0 } := if_pos rfl
    rw [hswap, hview, List.filter_cons_of_neg (by simp), List.filter_eq_self.mpr hkept, List.map_cons,
      hrest, List.map_id, hcleared]
  · intro a' hne
    -- the two ids are those of entries of the account
    have hother : ∀ e ∈ entries.filter (fun e => e.account = a'), ∀ e' ∈ itr :: first :: rest,
        e.id ≠ e'.id := by
      intro e he e' he' hid
      obtain ⟨he, haccount⟩ := List.mem_filter.mp he
      obtain ⟨hentry, haccount'⟩ := hmem e' he'
      rw [hinj e he e' hentry hid] at haccount
      exact hne ((of_decide_eq_true haccount).symm.trans haccount')
    have hkept : ∀ e ∈ entries.filter (fun e => e.account = a'), decide (e.id ≠ itr.id) = true := by
      intro e he
      exact decide_eq_true (hother e he itr List.mem_cons_self)
    have hrest : (entries.filter fun e => e.account = a').map (clearNext first.id) =
        (entries.filter fun e => e.account = a').map id := by
      apply List.map_congr_left
      intro e he
      exact clearNext_of_ne (hother e he first (by simp))
    rw [hswap, List.filter_eq_self.mpr hkept, hrest, List.map_id]

def newEntry (s : AccountHistory ω) (stats : HistoryStatistics) (operationId : Nat) (a : AccountId) :
    HistoryEntry := ⟨s.nextEntryId, a, operationId, stats.totalOps + 1, stats.mostRecentOp⟩

def newStatistics (s : AccountHistory ω) (stats : HistoryStatistics) : HistoryStatistics :=
  { stats with mostRecentOp := s.nextEntryId, totalOps := stats.totalOps + 1 }

def withEntry (s : AccountHistory ω) (stats : HistoryStatistics) (operationId : Nat) (a : AccountId) :
    AccountHistory ω :=
  { s with
    entries := s.entries ++ [newEntry s stats operationId a]
    nextEntryId := s.nextEntryId + 1
    statistics := s.statistics.insert a (newStatistics s stats) }

structure EntryAdded (s s' : AccountHistory ω) (stats : HistoryStatistics) (operationId : Nat)
    (a : AccountId) : Prop where
  ids : s'.entries.Pairwise fun e e' => e.id < e'.id
  bound : ∀ e ∈ s'.entries, e.id < s'.nextEntryId
  referred : ∀ e ∈ s'.entries, e.operationId ∈ s'.operations.map Prod.fst
  self : s'.entriesOf a = s.entriesOf a ++ [newEntry s stats operationId a]
  others : ∀ a', a' ≠ a → s'.entriesOf a' = s.entriesOf a'
  listed : Listed 0 (stats.removedOps + 1) (s'.entriesOf a)
  keeps : KeepsOperations s s'

theorem Linked.withEntry (h : Linked opts s) (hthere : operationId ∈ s.operations.map Prod.fst)
    (hstats : s.statistics.lookup a = some stats) :
    EntryAdded s (withEntry s stats operationId a) stats operationId a := by
  have hself : (Plugins.withEntry s stats operationId a).entriesOf a =
      s.entriesOf a ++ [newEntry s stats operationId a] := by
    unfold AccountHistory.entriesOf Plugins.withEntry
    rw [List.filter_append]
    simp [newEntry]
  constructor
  · apply List.pairwise_append.mpr
    refine ⟨h.ids, List.pairwise_singleton _ _, ?_⟩
    intro e he e' he'
    rw [List.mem_singleton.mp he']
    exact h.bound e he
  · intro e he
    rcases List.mem_append.mp he with he | he
    · exact Nat.lt_succ_of_lt (h.bound e he)
    · rw [List.mem_singleton.mp he]
      exact Nat.lt_succ_self _
  · intro e he
    rcases List.mem_append.mp he with he | he
    · exact h.referred e he
    · rw [List.mem_singleton.mp he]
      exact hthere
  · exact hself
  · intro a' hne
    unfold AccountHistory.entriesOf Plugins.withEntry
    have hnone : [newEntry s stats operationId a].filter (fun e => decide (e.account = a')) = [] := by
      apply List.filter_eq_nil_iff.mpr
      intro e he haccount
      rw [List.mem_singleton.mp he] at haccount
      exact hne.symm (of_decide_eq_true haccount)
    rw [List.filter_append, hnone, List.append_nil]
  · rw [hself]
    apply listed_concat (h.listed a stats hstats) (h.last a stats hstats)
    have hcount := (h.count a stats hstats).1
    show stats.totalOps + 1 = _
    omega
  · refine ⟨rfl, rfl, fun _ hx => hx, ?_⟩
    intro a'
    show ((s.statistics.insert a _).lookup a').isSome = _
    rw [Table.lookup_insert_eq]
    split
    · rename_i heq
      rw [heq, hstats]
      rfl
    · rfl

theorem Linked.removeEarliest (h : Linked opts s) (hmax : 0 < opts.maxOpsPerAccount)
    (hthere : operationId ∈ s.operations.map Prod.fst) (hstats : s.statistics.lookup a = some stats)
    (hfull : opts.maxOpsPerAccount ≤ (s.entriesOf a).length) :
    ∃ s', (Plugins.withEntry s stats operationId a).removeEarliest opts a
        (newEntry s stats operationId a) = .ok s' ∧
      Linked opts s' ∧ KeepsOperations s s' ∧ operationId ∈ s'.operations.map Prod.fst := by
  obtain ⟨hcount, hle⟩ := h.count a stats hstats
  have hadded := h.withEntry hthere hstats
  set ath := newEntry s stats operationId a with hath
  set added := Plugins.withEntry s stats operationId a
  obtain ⟨itr, older, hes⟩ := List.exists_cons_of_ne_nil (List.ne_nil_of_length_pos (hmax.trans_le hfull))
  obtain ⟨first, rest, hrest⟩ := List.exists_cons_of_ne_nil
    (List.append_ne_nil_of_right_ne_nil older (List.cons_ne_nil ath []))
  have hview : added.entriesOf a = itr :: first :: rest := by
    rw [hadded.self, hes, List.cons_append, hrest]
  have hbySeq : added.bySeq a = itr :: first :: rest :=
    ((hadded.listed.pairwise.imp Nat.le_of_lt).insertionSort_eq).trans hview
  have hitr : itr ∈ s.entries := by
    have hmem : itr ∈ s.entriesOf a := hes ▸ List.mem_cons_self
    exact (List.mem_filter.mp hmem).1
  have hne : itr.id ≠ ath.id := (h.bound itr hitr).ne
  have hlookup : added.statistics.lookup a = some (newStatistics s stats) := Finmap.lookup_insert _
  let removed : HistoryStatistics := { newStatistics s stats with removedOps := stats.removedOps + 1 }
  let unlinked : AccountHistory ω := { added with
    entries := (added.entries.filter fun e => e.id ≠ itr.id).map (clearNext first.id)
    statistics := added.statistics.insert a removed }
  have hremove : added.removeEarliest opts a ath =
      if opts.partialOperations then unlinked.removeUnreferenced itr.operationId else .ok unlinked := by
    unfold AccountHistory.removeEarliest
    rw [hbySeq]
    dsimp only
    rw [if_neg hne, hlookup]
    rfl
  have hkept : (unlinked.entriesOf a = { first with next := 0 } :: rest) ∧
      ∀ a', a' ≠ a → unlinked.entriesOf a' = added.entriesOf a' := entriesOf_removed hadded.ids hview
  have hlen : ({ first with next := 0 } :: rest).length = (s.entriesOf a).length := by
    show (first :: rest).length = _
    rw [← hrest, hes, List.length_append, List.length_singleton, List.length_cons]
  have hstatistics : ∀ a', unlinked.statistics.lookup a' =
      if a' = a then some removed else s.statistics.lookup a' := by
    intro a'
    show ((s.statistics.insert a _).insert a _).lookup a' = _
    rw [Table.lookup_insert_eq, Table.lookup_insert_eq]
    split <;> rfl
  have hreferred : ∀ e ∈ unlinked.entries, e.operationId ∈ unlinked.operations.map Prod.fst := by
    intro e he
    obtain ⟨e0, he0, rfl⟩ := List.mem_map.mp he
    rw [clearNext_operationId]
    exact hadded.referred e0 (List.mem_filter.mp he0).1
  have hlinked : Linked opts unlinked := by
    apply Linked.of_account _ _ h hstatistics _ hreferred
    · have hlisted := hadded.listed
      rw [hview] at hlisted
      obtain ⟨-, -, -, hsequence, hrest'⟩ := hlisted
      rw [hkept.1]
      exact ⟨rfl, hsequence, hrest'⟩
    · rw [hkept.1, hlen]
      show stats.removedOps + 1 + _ = stats.totalOps + 1 ∧ _
      omega
    · rw [hkept.1]
      have hconcat := lastId_concat itr.id older ath
      rw [hrest] at hconcat
      exact hconcat.symm
    · apply List.pairwise_map.mpr
      apply (hadded.ids.filter _).imp
      intro e e' hlt
      rwa [clearNext_id, clearNext_id]
    · intro e he
      obtain ⟨e0, he0, rfl⟩ := List.mem_map.mp he
      rw [clearNext_id]
      exact hadded.bound e0 (List.mem_filter.mp he0).1
    · intro a' hne'
      exact (hkept.2 a' hne').trans (hadded.others a' hne')
  have hkeeps : KeepsOperations s unlinked := by
    refine ⟨rfl, rfl, fun _ hx => hx, ?_⟩
    intro a'
    rw [hstatistics]
    split
    · rename_i heq
      rw [heq, hstats]
      rfl
    · rfl
  rw [hremove]
  cases opts.partialOperations with
  | false => exact ⟨unlinked, rfl, hlinked, hkeeps, hthere⟩
  | true =>
    obtain ⟨s', hok, hlinked', hkeeps', hentries⟩ := hlinked.removeUnreferenced (h.referred itr hitr)
    refine ⟨s', hok, hlinked', hkeeps.trans hkeeps', ?_⟩
    -- the new entry refers to the operation
    have hmem : clearNext first.id ath ∈ s'.entries := by
      rw [hentries]
      apply List.mem_map_of_mem
      exact List.mem_filter.mpr ⟨List.mem_append_right _ (List.mem_singleton_self _),
        decide_eq_true hne.symm⟩
    have hthere' := hlinked'.referred _ hmem
    rwa [clearNext_operationId] at hthere'

theorem Linked.addAccountHistory (h : Linked opts s) (hmax : 0 < opts.maxOpsPerAccount)
    (hthere : operationId ∈ s.operations.map Prod.fst) (hstats : s.statistics.lookup a = some stats) :
    ∃ s', s.addAccountHistory opts operationId a = .ok s' ∧ Linked opts s' ∧ KeepsOperations s s' ∧
      operationId ∈ s'.operations.map Prod.fst := by
  obtain ⟨hcount, hle⟩ := h.count a stats hstats
  have hadd : s.addAccountHistory opts operationId a =
      if opts.maxOpsPerAccount < stats.totalOps + 1 - stats.removedOps then
        (Plugins.withEntry s stats operationId a).removeEarliest opts a (newEntry s stats operationId a)
      else .ok (Plugins.withEntry s stats operationId a) := by
    unfold AccountHistory.addAccountHistory
    rw [hstats]
    rfl
  rw [hadd]
  by_cases hfull : opts.maxOpsPerAccount < stats.totalOps + 1 - stats.removedOps
  · rw [if_pos hfull]
    exact h.removeEarliest hmax hthere hstats (by omega)
  · rw [if_neg hfull]
    have hadded := h.withEntry hthere hstats
    refine ⟨_, rfl, ?_, hadded.keeps, hthere⟩
    apply Linked.of_account hadded.ids hadded.bound h (fun a' => Table.lookup_insert_eq ..) hadded.others
      hadded.referred hadded.listed
    · rw [hadded.self, List.length_append, List.length_singleton]
      show stats.removedOps + _ = stats.totalOps + 1 ∧ _
      omega
    · rw [hadded.self, lastId_concat]
      rfl

end Meta1Core.Plugins
