import Meta1Core.Plugins.AccountLists

/-!
# Histories over runs

Whatever is applied, the lists of the accounts stay right: an exception leaves a list either with
the new entry or without.
-/

namespace Meta1Core.Plugins

open Lib (FlatSet Table Outcome Reachable)
open Protocol

variable {ω : Type} {opts : AccountHistoryOptions} {impacted : ω → FlatSet AccountId}
  {s : AccountHistory ω} {p0 p : HistoryPass ω} {a : AccountId} {op : ω}

/-- The list of each account has the entries that have not been removed, and the newest ones only. -/
structure AccountHistory.Right (opts : AccountHistoryOptions) (s : AccountHistory ω) : Prop where
  sequences : ∀ a stats, s.statistics.lookup a = some stats → stats.removedOps ≤ stats.totalOps ∧
    (s.entriesOf a).map HistoryEntry.sequence =
      List.range' (stats.removedOps + 1) (stats.totalOps - stats.removedOps)
  count : ∀ a stats, s.statistics.lookup a = some stats → (s.entriesOf a).length ≤ opts.maxOpsPerAccount
  followed : ∀ a stats, s.statistics.lookup a = some stats → ∀ fuel, (s.entriesOf a).length < fuel →
    s.follow a fuel stats.mostRecentOp = .ok (s.entriesOf a).reverse
  stored : ∀ e ∈ s.entries, ∃ op, (e.operationId, op) ∈ s.operations
  known : ∀ e ∈ s.entries, (s.statistics.lookup e.account).isSome

/-- Each applied operation has used up the id of its position, and is stored under that id if at all. -/
structure HistoryChain.Numbered (c : HistoryChain ω) : Prop where
  used : c.history.usedIds = List.range c.applied.length
  stored : ∀ id op, (id, op) ∈ c.history.operations → c.applied[id]? = some (some op)

def Records (opts : AccountHistoryOptions) (impacted : FlatSet AccountId) (a : AccountId) : Prop :=
  0 < opts.maxOpsPerAccount ∧ a ∈ impacted ∧
    (opts.trackedAccounts.elems = [] ∨ a ∈ opts.trackedAccounts)

instance (impacted : FlatSet AccountId) (a : AccountId) : Decidable (Records opts impacted a) :=
  inferInstanceAs (Decidable (_ ∧ _))

/-- The accounts for which entries are added exist when the block has been applied. -/
def HistoryChain.Existing (opts : AccountHistoryOptions) (impacted : ω → FlatSet AccountId)
    (c : HistoryChain ω) (b : HistoryBlock ω) : Prop :=
  ∀ op, some op ∈ b.applied → ∀ a, Records opts (impacted op) a →
    a ∈ b.newAccounts ∨ (c.history.statistics.lookup a).isSome

instance HistoryChain.decidableExisting (c : HistoryChain ω) (b : HistoryBlock ω) :
    Decidable (c.Existing opts impacted b) :=
  decidable_of_iff (∀ x ∈ b.applied, ∀ op ∈ x, ∀ a ∈ (impacted op).elems, Records opts (impacted op) a →
      a ∈ b.newAccounts ∨ (c.history.statistics.lookup a).isSome)
    ⟨fun h op hop a hrecords => h _ hop op rfl a hrecords.2.1 hrecords,
      fun h x hx op hop a _ hrecords => h op (by rwa [Option.mem_def.mp hop] at hx) a hrecords⟩

namespace Linked

theorem find?_eq (h : Linked opts s) {e : HistoryEntry} (he : e ∈ s.entries) :
    (s.entries.find? fun e' => e'.id = e.id) = some e := by
  cases hfind : s.entries.find? fun e' => e'.id = e.id with
  | none => exact absurd (decide_eq_true rfl) (List.find?_eq_none.mp hfind e he)
  | some e' =>
    have hid : e'.id = e.id := by simpa using List.find?_some hfind
    rw [h.eq_of_id_eq (List.mem_of_find?_eq_some hfind) he hid]

theorem follow_eq (h : Linked opts s) {stats : HistoryStatistics}
    (hstats : s.statistics.lookup a = some stats) {es rest : List HistoryEntry}
    (hview : s.entriesOf a = es ++ rest) (hzero : es = [] → ∀ e ∈ s.entries, e.id = 0 → e.account ≠ a)
    {fuel : Nat} (hfuel : es.length < fuel) : s.follow a fuel (lastId 0 es) = .ok es.reverse := by
  induction es using List.reverseRecOn generalizing rest fuel with
  | nil =>
    obtain ⟨fuel, rfl⟩ := Nat.exists_eq_succ_of_ne_zero (Nat.ne_of_gt hfuel)
    show s.follow a (fuel + 1) 0 = _
    unfold AccountHistory.follow
    split
    · rfl
    · rename_i e hfind
      have hid : e.id = 0 := by simpa using List.find?_some hfind
      have hother := hzero rfl e (List.mem_of_find?_eq_some hfind) hid
      rw [if_pos rfl, if_neg hother]
      rfl
  | append_singleton es e ih =>
    rw [List.length_append, List.length_singleton] at hfuel
    obtain ⟨fuel, rfl⟩ := Nat.exists_eq_succ_of_ne_zero (Nat.ne_of_gt (Nat.zero_lt_of_lt hfuel))
    rw [List.append_assoc, List.singleton_append] at hview
    have hmem : e ∈ s.entriesOf a := by simp [hview]
    obtain ⟨he, haccount⟩ := List.mem_filter.mp hmem
    have haccount : e.account = a := of_decide_eq_true haccount
    have hids : (es ++ e :: rest).Pairwise fun e e' => e.id < e'.id := by
      rw [← hview]
      exact h.ids.filter _
    rw [List.pairwise_append, List.pairwise_cons] at hids
    have hnext : e.next = lastId 0 es := by
      have hlisted := h.listed a stats hstats
      rw [hview] at hlisted
      exact hlisted.next_eq
    rw [lastId_concat]
    unfold AccountHistory.follow
    rw [h.find?_eq he]
    dsimp only
    by_cases hid : e.id = 0
    · -- nothing comes before the first entry of all
      have hnil : es = [] := by
        apply List.eq_nil_iff_forall_not_mem.mpr
        intro e' he'
        have hlt := hids.2.2 e' he' e List.mem_cons_self
        omega
      subst hnil
      rw [if_pos hid, if_pos haccount]
      rfl
    · rw [if_neg hid, hnext, ih hview _ (Nat.lt_of_succ_lt_succ hfuel)]
      · simp [Functor.map, Except.map]
      · intro hnil e' he' hid' haccount'
        subst hnil
        have hmem' : e' ∈ s.entriesOf a := List.mem_filter.mpr ⟨he', decide_eq_true haccount'⟩
        rw [hview] at hmem'
        rcases List.mem_cons.mp hmem' with rfl | hmem'
        · exact hid hid'
        · have hlt := hids.2.1.1 e' hmem'
          omega

theorem right (h : Linked opts s) : s.Right opts where
  sequences a stats hstats := by
    obtain ⟨hcount, -⟩ := h.count a stats hstats
    refine ⟨by omega, ?_⟩
    rw [(h.listed a stats hstats).map_sequence]
    congr 1
    omega
  count a stats hstats := (h.count a stats hstats).2
  followed a stats hstats fuel hfuel := by
    rw [h.last a stats hstats]
    apply h.follow_eq hstats (List.append_nil _).symm _ hfuel
    intro hnil e he hid haccount
    have hmem : e ∈ s.entriesOf a := List.mem_filter.mpr ⟨he, decide_eq_true haccount⟩
    rw [hnil] at hmem
    cases hmem
  stored e he := by
    obtain ⟨x, hx, hid⟩ := List.mem_map.mp (h.referred e he)
    exact ⟨x.2, hid ▸ hx⟩
  known := h.known

end Linked

structure Turn (opts : AccountHistoryOptions) (p0 : HistoryPass ω) (op : ω) (p : HistoryPass ω) : Prop where
  linked : Linked opts p.history
  accounts : ∀ a, (p.history.statistics.lookup a).isSome = (p0.history.statistics.lookup a).isSome
  progress :
    p.oho = none ∧ p.history.nextOperationId = p0.history.nextOperationId ∧
        p.history.usedIds = p0.history.usedIds ∧
        (∀ x ∈ p.history.operations, x ∈ p0.history.operations) ∨
      p.oho = some p0.history.nextOperationId ∧
        p.history.nextOperationId = p0.history.nextOperationId + 1 ∧
        p.history.usedIds = p0.history.usedIds ++ [p0.history.nextOperationId] ∧
        p0.history.nextOperationId ∈ p.history.operations.map Prod.fst ∧
        ∀ x ∈ p.history.operations, x ∈ p0.history.operations ∨ x = (p0.history.nextOperationId, op)

def Interrupted (opts : AccountHistoryOptions) (impacted : FlatSet AccountId) (p0 : HistoryPass ω)
    (s : AccountHistory ω) : Prop :=
  Linked opts s ∧ ∃ a, Records opts impacted a ∧ p0.history.statistics.lookup a = none

theorem Turn.createOho (h : Turn opts p0 op p) (hnone : p.oho = none) : Turn opts p0 op (p.createOho op) := by
  rcases h.progress with ⟨-, hnext, hused, hoperations⟩ | ⟨hsome, -⟩
  · have hreferred : ∀ e ∈ p.history.entries,
        e.operationId ∈ (p.createOho op).history.operations.map Prod.fst := by
      intro e he
      obtain ⟨x, hx, hid⟩ := List.mem_map.mp (h.linked.referred e he)
      exact List.mem_map.mpr ⟨x, List.mem_append_left _ hx, hid⟩
    constructor
    · exact h.linked.congr rfl rfl rfl hreferred
    · exact h.accounts
    · right
      unfold HistoryPass.createOho
      dsimp only
      rw [hnext, hused]
      refine ⟨rfl, rfl, rfl, by simp, ?_⟩
      intro x hx
      rw [List.mem_append, List.mem_singleton] at hx
      exact hx.imp_left (hoperations x)
  · rw [hnone] at hsome
    cases hsome

variable {imp : FlatSet AccountId}

theorem Turn.addAccountHistory (h : Turn opts p0 op p) {operationId : Nat}
    (hoho : p.oho = some operationId) (hrecords : Records opts imp a) :
    Outcome (fun p' => Turn opts p0 op p' ∧ p'.oho = some operationId) (Interrupted opts imp p0)
      (p.addAccountHistory opts operationId a) := by
  rcases h.progress with ⟨hnone, -⟩ | ⟨hsome, hnext, hused, hthere, hoperations⟩
  · rw [hoho] at hnone
    cases hnone
  · rw [hoho] at hsome
    cases hsome
    unfold HistoryPass.addAccountHistory
    cases hstats : p.history.statistics.lookup a with
    | none =>
      have hthrow : p.history.addAccountHistory opts p0.history.nextOperationId a = .error p.history := by
        unfold AccountHistory.addAccountHistory
        rw [hstats]
      rw [hthrow]
      refine ⟨h.linked, a, hrecords, ?_⟩
      have haccounts := h.accounts a
      rw [hstats] at haccounts
      exact Option.isNone_iff_eq_none.mp (by simpa using haccounts.symm)
    | some stats =>
      obtain ⟨s', hok, hlinked, hkeeps, hthere'⟩ :=
        h.linked.addAccountHistory hrecords.1 hthere hstats
      rw [hok]
      refine ⟨⟨hlinked, ?_, .inr ⟨hoho, ?_, ?_, hthere', ?_⟩⟩, hoho⟩
      · exact fun a' => (hkeeps.accounts a').trans (h.accounts a')
      · exact hkeeps.nextOperationId.trans hnext
      · exact hkeeps.usedIds.trans hused
      · exact fun x hx => hoperations x (hkeeps.operations x hx)

theorem Turn.addAll (h : Turn opts p0 op p) (htracked : opts.trackedAccounts.elems = []) :
    Outcome (fun p' => Turn opts p0 op p' ∧ (p'.oho = none → p.oho = none)) (Interrupted opts imp p0)
      (p.addAll opts imp op) := by
  unfold HistoryPass.addAll
  have hcreated : Turn opts p0 op (if imp.elems ≠ [] ∧ p.oho = none then p.createOho op else p) ∧
      ((if imp.elems ≠ [] ∧ p.oho = none then p.createOho op else p).oho = none → p.oho = none) := by
    split
    · rename_i hcreate
      exact ⟨h.createOho hcreate.2, fun _ => hcreate.2⟩
    · exact ⟨h, id⟩
  generalize (if imp.elems ≠ [] ∧ p.oho = none then p.createOho op else p) = p' at hcreated
  dsimp only
  split
  · rename_i hmax
    cases hoho : p'.oho with
    | none => exact hcreated
    | some operationId =>
      have hloop : Outcome (fun p'' => Turn opts p0 op p'' ∧ p''.oho = some operationId)
          (Interrupted opts imp p0)
          (imp.elems.foldlM (HistoryPass.addAccountHistory opts operationId) p') := by
        apply Lib.outcome_foldlM _ ⟨hcreated.1, hoho⟩
        rintro p'' a ha ⟨hturn, hoho'⟩
        exact hturn.addAccountHistory hoho' ⟨hmax, ha, .inl htracked⟩
      apply hloop.imp _ fun _ hq => hq
      rintro p'' ⟨hturn, hoho'⟩
      exact ⟨hturn, fun hnone => absurd (hoho'.symm.trans hnone) (by simp)⟩
  · exact hcreated

theorem Turn.addIfImpacted (h : Turn opts p0 op p) (hmax : 0 < opts.maxOpsPerAccount)
    (htracked : a ∈ opts.trackedAccounts) :
    Outcome (fun p' => Turn opts p0 op p' ∧ (p'.oho = none → p.oho = none)) (Interrupted opts imp p0)
      (p.addIfImpacted opts imp op a) := by
  unfold HistoryPass.addIfImpacted
  split
  · rename_i ha
    have hrecords : Records opts imp a := ⟨hmax, ha, .inr htracked⟩
    cases hoho : p.oho with
    | none =>
      have hstored : (p.createOho op).oho = some p.history.nextOperationId := rfl
      exact ((h.createOho hoho).addAccountHistory hstored hrecords).imp (fun _ hand => ⟨hand.1, fun _ => rfl⟩)
        fun _ hq => hq
    | some operationId =>
      apply (h.addAccountHistory hoho hrecords).imp _ fun _ hq => hq
      rintro p' ⟨hturn, hoho'⟩
      exact ⟨hturn, fun hnone => absurd (hoho'.symm.trans hnone) (by simp)⟩
  · exact ⟨h, id⟩

theorem Turn.addTracked (h : Turn opts p0 op p) (hmax : 0 < opts.maxOpsPerAccount) :
    Outcome (fun p' => Turn opts p0 op p' ∧ (p'.oho = none → p.oho = none)) (Interrupted opts imp p0)
      (opts.trackedAccounts.elems.foldlM (HistoryPass.addIfImpacted opts imp op) p) := by
  apply Lib.outcome_foldlM _ ⟨h, id⟩
  rintro p' a ha ⟨hturn, hkept⟩
  exact (hturn.addIfImpacted hmax ha).imp (fun _ hand => ⟨hand.1, fun hnone => hkept (hand.2 hnone)⟩)
    fun _ hq => hq

structure Turned (opts : AccountHistoryOptions) (p0 : HistoryPass ω) (op : Option ω) (p : HistoryPass ω) :
    Prop where
  linked : Linked opts p.history
  accounts : ∀ a, (p.history.statistics.lookup a).isSome = (p0.history.statistics.lookup a).isSome
  nextOperationId : p.history.nextOperationId = p0.history.nextOperationId + 1
  usedIds : p.history.usedIds = p0.history.usedIds ++ [p0.history.nextOperationId]
  operations : ∀ x ∈ p.history.operations,
    x ∈ p0.history.operations ∨ x.1 = p0.history.nextOperationId ∧ op = some x.2

theorem skipOhoId_history (p : HistoryPass ω) (undoEnabled : Bool) :
    (p.skipOhoId undoEnabled).history = p.useNextId.history := by
  unfold HistoryPass.skipOhoId
  split <;> rfl

theorem turned_skipOhoId (hlinked : Linked opts p.history)
    (haccounts : ∀ a, (p.history.statistics.lookup a).isSome = (p0.history.statistics.lookup a).isSome)
    (hnext : p.history.nextOperationId = p0.history.nextOperationId)
    (hused : p.history.usedIds = p0.history.usedIds)
    (hoperations : ∀ x ∈ p.history.operations, x ∈ p0.history.operations) (undoEnabled : Bool)
    (op' : Option ω) : Turned opts p0 op' (p.skipOhoId undoEnabled) := by
  have hlinked' : Linked opts p.useNextId.history := hlinked.congr rfl rfl rfl hlinked.referred
  constructor
  · rw [skipOhoId_history]
    exact hlinked'
  · rw [skipOhoId_history]
    exact haccounts
  · rw [skipOhoId_history]
    show p.history.nextOperationId + 1 = _
    rw [hnext]
  · rw [skipOhoId_history]
    show p.history.usedIds ++ [p.history.nextOperationId] = _
    rw [hnext, hused]
  · rw [skipOhoId_history]
    exact fun x hx => .inl (hoperations x hx)

theorem Turn.turned (h : Turn opts p0 op p) (undoEnabled : Bool)
    (hstored : opts.partialOperations = false → p.oho ≠ none) :
    Turned opts p0 (some op)
      (if opts.partialOperations = true ∧ p.oho = none then p.skipOhoId undoEnabled else p) := by
  rcases h.progress with ⟨hnone, hnext, hused, hoperations⟩ | ⟨hsome, hnext, hused, -, hoperations⟩
  · have hsome' : opts.partialOperations = true := by
      by_contra hfalse
      exact hstored (by simpa using hfalse) hnone
    rw [if_pos ⟨hsome', hnone⟩]
    exact turned_skipOhoId h.linked h.accounts hnext hused hoperations undoEnabled (some op)
  · have hoho : ¬(opts.partialOperations = true ∧ p.oho = none) := by simp [hsome]
    rw [if_neg hoho]
    constructor
    · exact h.linked
    · exact h.accounts
    · exact hnext
    · exact hused
    · intro x hx
      rcases hoperations x hx with hold | rfl
      · exact .inl hold
      · exact .inr ⟨rfl, rfl⟩

theorem Linked.processOp (h : Linked opts p.history) (impacted : ω → FlatSet AccountId) (undoEnabled : Bool)
    (op : Option ω) :
    Outcome (Turned opts p op)
      (fun s => Linked opts s ∧ ∃ o, op = some o ∧ ∃ a, Records opts (impacted o) a ∧
        p.history.statistics.lookup a = none)
      (p.processOp opts undoEnabled impacted op) := by
  have hskip : Turned opts p op (HistoryPass.skipOhoId undoEnabled { p with oho := none }) :=
    @turned_skipOhoId _ opts p { p with oho := none } h (fun _ => rfl) rfl rfl (fun _ hx => hx)
      undoEnabled op
  unfold HistoryPass.processOp
  cases op with
  | none => exact hskip
  | some o =>
    have hstart : Turn opts p o { p with oho := none } :=
      ⟨h, fun _ => rfl, .inl ⟨rfl, rfl, rfl, fun _ hx => hx⟩⟩
    dsimp only
    split
    · exact hskip
    · have hfirst : Turn opts p o
          (if opts.partialOperations then { p with oho := none }
            else HistoryPass.createOho o { p with oho := none }) ∧
          (opts.partialOperations = false → (if opts.partialOperations then { p with oho := none }
              else HistoryPass.createOho o { p with oho := none }).oho ≠ none) := by
        split
        · rename_i hsome'
          exact ⟨hstart, fun hfalse => absurd (hsome'.symm.trans hfalse) (by simp)⟩
        · exact ⟨hstart.createOho rfl, fun _ => by simp [HistoryPass.createOho]⟩
      generalize (if opts.partialOperations then { p with oho := none }
        else HistoryPass.createOho o { p with oho := none }) = p1 at hfirst
      have hrest : ∀ p', Turn opts p o p' ∧ (p'.oho = none → p1.oho = none) →
          Outcome (Turned opts p (some o)) (Interrupted opts (impacted o) p)
            (pure (if opts.partialOperations = true ∧ p'.oho = none then p'.skipOhoId undoEnabled else p')) :=
        fun p' hand => hand.1.turned undoEnabled fun hfalse hnone => hfirst.2 hfalse (hand.2 hnone)
      have hinterrupted : ∀ s, Interrupted opts (impacted o) p s → Linked opts s ∧
          ∃ o', some o = some o' ∧ ∃ a, Records opts (impacted o') a ∧
            p.history.statistics.lookup a = none := fun s hs => ⟨hs.1, o, rfl, hs.2⟩
      split
      · rename_i htracked
        exact ((hfirst.1.addAll htracked).bind hrest).imp (fun _ hp => hp) hinterrupted
      · split
        · rename_i hmax
          exact ((hfirst.1.addTracked hmax).bind hrest).imp (fun _ hp => hp) hinterrupted
        · exact (hrest p1 ⟨hfirst.1, id⟩).imp (fun _ hp => hp) hinterrupted

structure Passed (opts : AccountHistoryOptions) (s : AccountHistory ω) (ops : List (Option ω))
    (s' : AccountHistory ω) : Prop where
  linked : Linked opts s'
  accounts : ∀ a, (s'.statistics.lookup a).isSome = (s.statistics.lookup a).isSome
  nextOperationId : s'.nextOperationId = s.nextOperationId + ops.length
  usedIds : s'.usedIds = s.usedIds ++ List.range' s.nextOperationId ops.length
  operations : ∀ x ∈ s'.operations,
    x ∈ s.operations ∨ ∃ k, x.1 = s.nextOperationId + k ∧ ops[k]? = some (some x.2)

theorem Turned.passed {p' : HistoryPass ω} {op : Option ω} {ops : List (Option ω)} (h : Turned opts p op p')
    (h' : Passed opts p'.history ops s) : Passed opts p.history (op :: ops) s where
  linked := h'.linked
  accounts a := (h'.accounts a).trans (h.accounts a)
  nextOperationId := by
    rw [h'.nextOperationId, h.nextOperationId, List.length_cons]
    omega
  usedIds := by
    rw [h'.usedIds, h.usedIds, h.nextOperationId, List.length_cons, List.range'_succ, List.append_assoc]
    rfl
  operations x hx := by
    rcases h'.operations x hx with hold | ⟨k, hid, hop⟩
    · rcases h.operations x hold with hold | ⟨hid, hop⟩
      · exact .inl hold
      · refine .inr ⟨0, hid, ?_⟩
        rw [List.getElem?_cons_zero, hop]
    · refine .inr ⟨k + 1, ?_, ?_⟩
      · rw [hid, h.nextOperationId]
        omega
      · rw [List.getElem?_cons_succ, hop]

theorem Linked.processAll (h : Linked opts p.history) (impacted : ω → FlatSet AccountId) (undoEnabled : Bool)
    (ops : List (Option ω)) :
    Outcome (fun p' => Passed opts p.history ops p'.history)
      (fun s => Linked opts s ∧ ∃ o, some o ∈ ops ∧ ∃ a, Records opts (impacted o) a ∧
        p.history.statistics.lookup a = none)
      (ops.foldlM (HistoryPass.processOp opts undoEnabled impacted) p) := by
  induction ops generalizing p with
  | nil =>
    constructor
    · exact h
    · exact fun _ => rfl
    · rfl
    · exact (List.append_nil _).symm
    · exact fun x hx => .inl hx
  | cons op ops ih =>
    rw [List.foldlM_cons]
    have hfirst := (h.processOp impacted undoEnabled op).imp (fun _ hp => hp)
      fun s ⟨hs, o, ho, a, hrecords, hnone⟩ =>
        (⟨hs, o, List.mem_cons.mpr (.inl ho.symm), a, hrecords, hnone⟩ : Linked opts s ∧
          ∃ o', some o' ∈ op :: ops ∧ ∃ a, Records opts (impacted o') a ∧
            p.history.statistics.lookup a = none)
    apply hfirst.bind
    intro p' hturned
    apply (ih hturned.linked).imp
    · exact fun p'' hpassed => hturned.passed hpassed
    · rintro s ⟨hs, o, ho, a, hrecords, hnone⟩
      refine ⟨hs, o, List.mem_cons_of_mem _ ho, a, hrecords, ?_⟩
      have haccounts := hturned.accounts a
      rw [hnone] at haccounts
      exact Option.isNone_iff_eq_none.mp (by simpa using haccounts.symm)

theorem Linked.update (h : Linked opts s) (impacted : ω → FlatSet AccountId) (undoEnabled : Bool)
    (ops : List (Option ω)) :
    Linked opts (s.update opts undoEnabled impacted ops) ∧
      ((∀ o, some o ∈ ops → ∀ a, Records opts (impacted o) a → (s.statistics.lookup a).isSome) →
        Passed opts s ops (s.update opts undoEnabled impacted ops)) := by
  have hall := @Linked.processAll _ opts { history := s } h impacted undoEnabled ops
  unfold AccountHistory.update
  cases hrun : ops.foldlM (HistoryPass.processOp opts undoEnabled impacted) { history := s } with
  | ok p =>
    rw [hrun] at hall
    exact ⟨hall.linked, fun _ => hall⟩
  | error s' =>
    rw [hrun] at hall
    obtain ⟨hlinked, o, ho, a, hrecords, hnone⟩ := hall
    refine ⟨hlinked, fun hexisting => ?_⟩
    have hsome := hexisting o ho a hrecords
    rw [hnone] at hsome
    cases hsome

theorem Linked.createAccount (h : Linked opts s) (a : AccountId) : Linked opts (s.createAccount a) := by
  unfold AccountHistory.createAccount
  split
  · exact h
  · rename_i hnew
    have hnone : s.entriesOf a = [] := by
      apply List.filter_eq_nil_iff.mpr
      intro e he haccount
      have hknown := h.known e he
      rw [of_decide_eq_true haccount] at hknown
      exact hnew hknown
    have hlookup : ∀ a', (s.statistics.insert a ({} : HistoryStatistics)).lookup a' =
        if a' = a then some {} else s.statistics.lookup a' :=
      fun a' => Table.lookup_insert_eq s.statistics a a' {}
    apply @Linked.of_account _ opts s { s with statistics := s.statistics.insert a {} } a h.ids h.bound h
      {} hlookup
    · exact fun _ _ => rfl
    · exact h.referred
    · show Listed 0 1 (s.entriesOf a)
      rw [hnone]
      trivial
    · show 0 + (s.entriesOf a).length = 0 ∧ (s.entriesOf a).length ≤ opts.maxOpsPerAccount
      rw [hnone]
      exact ⟨rfl, Nat.zero_le _⟩
    · show 0 = lastId 0 (s.entriesOf a)
      rw [hnone]
      rfl

theorem createAccount_isSome (s : AccountHistory ω) (a a' : AccountId) :
    ((s.createAccount a).statistics.lookup a').isSome = (decide (a' = a) || (s.statistics.lookup a').isSome) := by
  unfold AccountHistory.createAccount
  split
  · rename_i hold
    by_cases heq : a' = a
    · rw [heq, hold, Bool.or_true]
    · simp [heq]
  · show ((s.statistics.insert a {}).lookup a').isSome = _
    rw [Table.lookup_insert_eq]
    by_cases heq : a' = a
    · simp [heq]
    · simp [heq]

structure AccountsCreated (s : AccountHistory ω) (accounts : List AccountId) (s' : AccountHistory ω) : Prop where
  nextOperationId : s'.nextOperationId = s.nextOperationId
  usedIds : s'.usedIds = s.usedIds
  operations : s'.operations = s.operations
  exist : ∀ a, a ∈ accounts ∨ (s.statistics.lookup a).isSome → (s'.statistics.lookup a).isSome

theorem accountsCreated (s : AccountHistory ω) (accounts : List AccountId) :
    AccountsCreated s accounts (accounts.foldl AccountHistory.createAccount s) := by
  induction accounts generalizing s with
  | nil =>
    constructor
    · rfl
    · rfl
    · rfl
    · intro a ha
      exact ha.resolve_left (by simp)
  | cons first accounts ih =>
    obtain ⟨hnext, hused, hoperations, hexist⟩ := ih (s.createAccount first)
    have hkeeps : (s.createAccount first).nextOperationId = s.nextOperationId ∧
        (s.createAccount first).usedIds = s.usedIds ∧
        (s.createAccount first).operations = s.operations := by
      unfold AccountHistory.createAccount
      split
      · exact ⟨rfl, rfl, rfl⟩
      · exact ⟨rfl, rfl, rfl⟩
    rw [List.foldl_cons]
    constructor
    · rw [hnext, hkeeps.1]
    · rw [hused, hkeeps.2.1]
    · rw [hoperations, hkeeps.2.2]
    · intro a ha
      apply hexist
      rw [createAccount_isSome, Bool.or_eq_true, decide_eq_true_eq]
      rcases ha with ha | ha
      · rcases List.mem_cons.mp ha with rfl | ha
        · exact .inr (.inl rfl)
        · exact .inl ha
      · exact .inr (.inr ha)

theorem Linked.createAll (h : Linked opts s) (accounts : List AccountId) :
    Linked opts (accounts.foldl AccountHistory.createAccount s) := by
  induction accounts generalizing s with
  | nil => exact h
  | cons first accounts ih => exact ih (h.createAccount first)

namespace HistoryChain

variable {c c' : HistoryChain ω} {b : HistoryBlock ω}

theorem step_linked (h : Linked opts c.history) (hstep : c.step opts impacted b = .ok c') :
    Linked opts c'.history := by
  cases hstep
  exact ((h.createAll b.newAccounts).update impacted b.undoEnabled b.applied).1

structure InStep (c : HistoryChain ω) : Prop where
  numbered : c.Numbered
  nextOperationId : c.history.nextOperationId = c.applied.length

theorem InStep.step (h : c.InStep) (hlinked : Linked opts c.history) (hexisting : c.Existing opts impacted b)
    (hstep : c.step opts impacted b = .ok c') : c'.InStep := by
  cases hstep
  have hcreated := accountsCreated c.history b.newAccounts
  have hpassed : Passed opts (b.newAccounts.foldl AccountHistory.createAccount c.history) b.applied _ :=
    ((hlinked.createAll b.newAccounts).update impacted b.undoEnabled b.applied).2
      fun o ho a hrecords => hcreated.exist a (hexisting o ho a hrecords)
  generalize AccountHistory.update opts b.undoEnabled impacted b.applied
    (b.newAccounts.foldl AccountHistory.createAccount c.history) = s' at hpassed
  have hnext : (b.newAccounts.foldl AccountHistory.createAccount c.history).nextOperationId =
      c.applied.length := by rw [hcreated.nextOperationId, h.nextOperationId]
  refine ⟨⟨?_, ?_⟩, ?_⟩
  · show s'.usedIds = List.range (c.applied ++ b.applied).length
    rw [hpassed.usedIds, hcreated.usedIds, hnext, h.numbered.used, List.length_append, List.range_add]
    rw [List.range'_eq_map_range]
  · intro id op hx
    show (c.applied ++ b.applied)[id]? = some (some op)
    rcases hpassed.operations (id, op) hx with hold | ⟨k, hid, hop⟩
    · rw [hcreated.operations] at hold
      have hthere := h.numbered.stored id op hold
      obtain ⟨hlt, -⟩ := List.getElem?_eq_some_iff.mp hthere
      rw [List.getElem?_append_left hlt, hthere]
    · rw [hnext] at hid
      dsimp only at hid
      rw [hid, List.getElem?_append_right (Nat.le_add_right _ _), Nat.add_sub_cancel_left, hop]
  · show s'.nextOperationId = (c.applied ++ b.applied).length
    rw [hpassed.nextOperationId, hnext, List.length_append]

end HistoryChain

/-- In every run the lists are right; the ids are those of the positions in runs whose blocks impact
existing accounts only. -/
theorem histories_right {c : HistoryChain ω} :
    (Reachable (HistoryChain.step opts impacted) (· = {}) (fun _ _ => True) c → c.history.Right opts) ∧
      (Reachable (HistoryChain.step opts impacted) (· = {}) (HistoryChain.Existing opts impacted) c →
        c.Numbered) := by
  constructor
  · intro h
    have hlinked : Linked opts c.history := by
      apply h.invariant fun c => Linked opts c.history
      · rintro c rfl
        exact linked_empty
      · intro c b c' hlinked _ hstep
        exact HistoryChain.step_linked hlinked hstep
    exact hlinked.right
  · intro h
    have hboth : Linked opts c.history ∧ c.InStep := by
      apply h.invariant fun c => Linked opts c.history ∧ c.InStep
      · rintro c rfl
        exact ⟨linked_empty, ⟨rfl, fun _ _ hx => nomatch hx⟩, rfl⟩
      · rintro c b c' ⟨hlinked, hinstep⟩ hexisting hstep
        exact ⟨HistoryChain.step_linked hlinked hstep, hinstep.step hlinked hexisting hstep⟩
    exact hboth.2.numbered

def namingBlock (newAccounts : List AccountId) : HistoryBlock (FlatSet AccountId) where
  newAccounts := newAccounts
  applied := [some ⟨[0, 7], by decide⟩, none, some ⟨[0], by decide⟩]
  undoEnabled := true

def oneEntry : AccountHistoryOptions := { maxOpsPerAccount := 1 }

theorem histories_right_named : ∃ c : HistoryChain (FlatSet AccountId),
    c.history.Right oneEntry ∧ c.Numbered ∧
      c.history.entries.map (fun e => (e.account, e.operationId, e.sequence)) = [(7, 0, 1), (0, 2, 2)] := by
  have hrun : ∃ c, Reachable (HistoryChain.step oneEntry id) (· = {})
      (HistoryChain.Existing oneEntry id) c ∧
        c.history.entries.map (fun e => (e.account, e.operationId, e.sequence)) =
          [(7, 0, 1), (0, 2, 2)] :=
    Reachable.of_run [namingBlock [0, 7]] rfl (by decide +kernel) (by decide +kernel)
  obtain ⟨c, hreach, hentries⟩ := hrun
  exact ⟨c, histories_right.1 (hreach.mono fun _ _ _ => trivial), histories_right.2 hreach, hentries⟩

def onlyFirst : AccountHistoryOptions := { trackedAccounts := ⟨[0], by decide⟩, maxOpsPerAccount := 1 }

/-- Account 7 does not exist, and the operations after the first get no ids. -/
theorem histories_not_right : ¬∀ (opts opts' : AccountHistoryOptions)
    (blocks : List (HistoryBlock (FlatSet AccountId))) (c c' : HistoryChain (FlatSet AccountId)),
    0 < opts.maxOpsPerAccount → 0 < opts'.maxOpsPerAccount →
      Lib.run (HistoryChain.step opts id) {} blocks = .ok c →
        Lib.run (HistoryChain.step opts' id) {} blocks = .ok c' →
          c.history.Right opts ∧ c.history.usedIds = c'.history.usedIds := by
  intro hall
  have hfirst : Lib.Succeeds (Lib.run (HistoryChain.step oneEntry id) {} [namingBlock [0]])
      fun c => c.history.usedIds = [0] := by decide +kernel
  have hsecond : Lib.Succeeds (Lib.run (HistoryChain.step onlyFirst id) {} [namingBlock [0]])
      fun c => c.history.usedIds = [0, 1, 2] := by decide +kernel
  obtain ⟨c, hrun, hused⟩ := hfirst
  obtain ⟨c', hrun', hused'⟩ := hsecond
  have hsame := (hall oneEntry onlyFirst _ c c' (by decide) (by decide) hrun hrun').2
  rw [hused, hused'] at hsame
  exact absurd hsame (by decide)

end Meta1Core.Plugins
