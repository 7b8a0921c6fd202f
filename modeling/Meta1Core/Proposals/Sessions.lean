import Meta1Core.Proposals.PushProposal

/-!
# The session of a proposal

In its session the operations of a proposal change the objects and the newest undo state, and
nothing else: a nested execution takes its own undo state away again.
-/

namespace Meta1Core.Proposals

open Db (IndexId Iteration ObjectDatabase ObjectId Records UndoDatabase UndoState UniqueKeys Watching)

variable {V τ ω : Type}

namespace ChainDatabase

section

variable [UniqueKeys V] {s s' : ChainDatabase V ω} {d0 : ObjectDatabase V} {below : List (UndoState V)}
  {applied : List (Option ω)} {active nesting : Nat} {orders : Orders V} {thrown thrown' : Option String}

/-! ## What holds in a session -/

structure Inside (d0 : ObjectDatabase V) (below : List (UndoState V)) (active nesting : Nat)
    (applied : List (Option ω)) (s : ChainDatabase V ω) : Prop where
  watching : ∃ st, Watching d0 st below [] s.undo
  active : s.undo.activeSessions = active
  nesting : s.pushProposalNestingDepth = nesting
  applied : ∃ more, s.appliedOps = applied ++ more

/-- The newest undo state records the changes since it was pushed.  Without undo history there are no undo
states. -/
structure Regular (s : UndoDatabase V) : Prop where
  wf : s.db.Wf
  recorded : ∀ st rest, s.stack = st :: rest → ∃ d0, d0.Wf ∧ Records d0 st s.db
  disabled : s.disabled = true → s.stack = []

structure Pushed (headBlockTime : ObjectDatabase V → Nat) (s : ChainDatabase V ω) (id : ObjectId)
    (s' : ChainDatabase V ω) (thrown : Option String) : Prop where
  wf : s'.undo.db.Wf
  disabled : s'.undo.disabled = s.undo.disabled
  active : s'.undo.activeSessions = s.undo.activeSessions
  nesting : s'.pushProposalNestingDepth = s.pushProposalNestingDepth
  applied : ∃ more, s'.appliedOps = s.appliedOps ++ more
  takenBack : thrown ≠ none → s'.undo.db = s.undo.db ∧ s'.undo.stack = s.undo.stack ∧
    (hardfork483Time < headBlockTime s.undo.db → s'.appliedOps = s.appliedOps)
  merged : thrown = none → (s.undo.stack = [] → s'.undo.stack = []) ∧
    ∀ d0 st rest, s.undo.stack = st :: rest → d0.Wf → Records d0 st s.undo.db →
      ∃ st', s'.undo.stack = st' :: rest ∧ Records d0 st' s'.undo.db
  gone : thrown = none → s'.undo.db.objects.lookup id = none

def Pushes (headBlockTime : ObjectDatabase V → Nat)
    (push : ChainDatabase V ω → ObjectId → Except Exception (ChainDatabase V ω × Option String)) : Prop :=
  ∀ s id s' thrown, Regular s.undo → push s id = .ok (s', thrown) → Pushed headBlockTime s id s' thrown

theorem Inside.regular (h : Inside d0 below active nesting applied s) : Regular s.undo := by
  obtain ⟨st, hwatching⟩ := h.watching
  refine ⟨hwatching.wf, fun st' rest hstack => ?_, fun hdisabled => ?_⟩
  · rw [hwatching.stack] at hstack
    cases hstack
    exact ⟨d0, hwatching.start_wf, hwatching.records⟩
  · rw [hwatching.enabled] at hdisabled
    cases hdisabled

theorem Inside.withUndo (h : Inside d0 below active nesting applied s) {undo : UndoDatabase V}
    (hundo : ∃ st', Watching d0 st' below [] undo ∧ undo.maxSize = s.undo.maxSize ∧
      undo.activeSessions = s.undo.activeSessions) :
    Inside d0 below active nesting applied { s with undo := undo } := by
  obtain ⟨st', hwatching, -, hactive⟩ := hundo
  exact ⟨⟨st', hwatching⟩, hactive.trans h.active, h.nesting, h.applied⟩

theorem Inside.noteApplied (h : Inside d0 below active nesting applied s) (op : ω) :
    Inside d0 below active nesting applied { s with appliedOps := s.appliedOps ++ [some op] } := by
  obtain ⟨more, hmore⟩ := h.applied
  refine ⟨h.watching, h.active, h.nesting, more ++ [some op], ?_⟩
  rw [hmore, List.append_assoc]

theorem Inside.pushed (h : Inside d0 below active nesting applied s) {headBlockTime : ObjectDatabase V → Nat}
    {id : ObjectId} (hpushed : Pushed headBlockTime s id s' thrown) :
    Inside d0 below active nesting applied s' := by
  obtain ⟨st, hwatching⟩ := h.watching
  obtain ⟨more, hmore⟩ := h.applied
  obtain ⟨more', hmore'⟩ := hpushed.applied
  constructor
  · have henabled : s'.undo.disabled = false := hpushed.disabled.trans hwatching.enabled
    cases thrown with
    | none =>
      obtain ⟨st', hstack, hrecords⟩ :=
        (hpushed.merged rfl).2 d0 st _ hwatching.stack hwatching.start_wf hwatching.records
      exact ⟨st', henabled, hstack, hrecords, hwatching.start_wf, hpushed.wf⟩
    | some message =>
      obtain ⟨hdb, hstack, -⟩ := hpushed.takenBack (Option.some_ne_none message)
      refine ⟨st, henabled, hstack.trans hwatching.stack, ?_, hwatching.start_wf, hpushed.wf⟩
      rw [hdb]
      exact hwatching.records
  · exact hpushed.active.trans h.active
  · exact hpushed.nesting.trans h.nesting
  · exact ⟨more ++ more', by rw [hmore', hmore, List.append_assoc]⟩

theorem Inside.runCalls {headBlockTime : ObjectDatabase V → Nat}
    {push : ChainDatabase V ω → ObjectId → Except Exception (ChainDatabase V ω × Option String)}
    (hpush : Pushes headBlockTime push) (calls : Calls V ω)
    (h : Inside d0 below active nesting applied s) (hrun : s.runCalls push calls = .ok (s', thrown)) :
    Inside d0 below active nesting applied s' := by
  induction calls generalizing s with
  | done =>
    cases hrun
    exact h
  | throw message =>
    cases hrun
    exact h
  | create index v next ih =>
    obtain ⟨st, hwatching⟩ := h.watching
    exact ih _ _ (h.withUndo (hwatching.create index v)) hrun
  | modify id v next ih =>
    obtain ⟨st, hwatching⟩ := h.watching
    exact ih _ _ (h.withUndo (hwatching.modify id v)) hrun
  | remove id next ih =>
    obtain ⟨st, hwatching⟩ := h.watching
    exact ih _ _ (h.withUndo (hwatching.remove id)) hrun
  | applied op next ih => exact ih (h.noteApplied op) hrun
  | pushProposal id next ih =>
    unfold ChainDatabase.runCalls at hrun
    cases hok : push s id with
    | error e =>
      rw [hok] at hrun
      cases hrun
    | ok result =>
      obtain ⟨s1, thrown1⟩ := result
      rw [hok] at hrun
      exact ih _ _ (h.pushed (hpush s id s1 thrown1 h.regular hok)) hrun

omit [UniqueKeys V] in
theorem startSession_db (s : ChainDatabase V ω) : s.startSession.undo.db = s.undo.db := by
  unfold startSession
  split
  · rfl
  · rfl

theorem inside_startSession (hs : Regular s.undo) :
    Inside s.undo.db s.undo.stack (s.undo.activeSessions + 1) s.pushProposalNestingDepth s.appliedOps
      s.startSession := by
  have hall : ∀ size, s.undo.stack.length ≤ size → s.undo.stack.take size = s.undo.stack :=
    fun size hsize => List.take_of_length_le hsize
  have hstack : s.startSession.undo.stack = {} :: (s.undo.stack ++ []) := by
    unfold startSession
    rw [List.append_nil]
    split
    · show {} :: s.undo.stack.take (s.undo.stack.length + 1) = _
      rw [hall _ (Nat.le_succ _)]
    · rename_i hroom
      show {} :: s.undo.stack.take s.undo.maxSize = _
      rw [hall _ (Nat.le_of_not_le hroom)]
  have hdb := startSession_db s
  have hrecords : Records s.undo.db {} s.startSession.undo.db := by
    rw [hdb]
    exact Records.start s.undo.db
  have hwf : s.startSession.undo.db.Wf := hdb.symm ▸ hs.wf
  refine ⟨⟨{}, ⟨?_, hstack, hrecords, hs.wf, hwf⟩⟩, ?_, rfl, [], (List.append_nil _).symm⟩
  · unfold startSession
    split
    · rfl
    · rfl
  · unfold startSession
    split
    · rfl
    · rfl

structure Undone (d0 : ObjectDatabase V) (below : List (UndoState V)) (s s' : ChainDatabase V ω) : Prop where
  db : s'.undo.db = d0
  stack : s'.undo.stack = below
  disabled : s'.undo.disabled = false
  active : s'.undo.activeSessions = s.undo.activeSessions - 1
  nesting : s'.pushProposalNestingDepth = s.pushProposalNestingDepth
  applied : s'.appliedOps = s.appliedOps

theorem Inside.undoSession (h : Inside d0 below active nesting applied s) (hactive : 0 < active)
    (hundo : s.undoSession orders = .ok s') : Undone d0 below s s' := by
  obtain ⟨st, hwatching⟩ := h.watching
  have hpositive : 0 < s.undo.activeSessions := h.active.symm ▸ hactive
  unfold ChainDatabase.undoSession nextOrder at hundo
  rw [Db.undo_eq hwatching.enabled hpositive hwatching.stack] at hundo
  rw [hwatching.stack, List.headD_cons] at hundo
  cases hrevert : Db.revert (orders.order s.walked st) s.undo.db with
  | error e =>
    rw [hrevert] at hundo
    cases hundo
  | ok db =>
    rw [hrevert] at hundo
    cases hundo
    have hback : db = d0 := Db.revert_eq hwatching.records (orders.visits s.walked st) hrevert
    exact ⟨hback, List.append_nil _, hwatching.enabled, rfl, rfl, rfl⟩

structure Merged (d0 : ObjectDatabase V) (below : List (UndoState V)) (s s' : ChainDatabase V ω) : Prop where
  db : s'.undo.db = s.undo.db
  alone : below = [] → s'.undo.stack = []
  merged : ∀ d st rest, below = st :: rest → d.Wf → Records d st d0 →
    ∃ st', s'.undo.stack = st' :: rest ∧ Records d st' s'.undo.db
  disabled : s'.undo.disabled = false
  active : s'.undo.activeSessions = s.undo.activeSessions - 1
  nesting : s'.pushProposalNestingDepth = s.pushProposalNestingDepth
  applied : s'.appliedOps = s.appliedOps

theorem Inside.endSession (h : Inside d0 below active nesting applied s) (hactive : 0 < active)
    (hbelow : ∀ st rest, below = st :: rest → ∃ d, d.Wf ∧ Records d st d0)
    (hend : s.endSession orders thrown = .ok (s', thrown')) :
    thrown' = none ∧ thrown = none ∧ Merged d0 below s s' ∨
      (∃ message, thrown' = some message) ∧ (thrown = none → below = [] ∧ active ≠ 1) ∧
        (thrown ≠ none → thrown' = thrown) ∧ Undone d0 below s s' := by
  have hundo : ∀ message, (·, some message) <$> s.undoSession orders = .ok (s', thrown') →
      thrown' = some message ∧ Undone d0 below s s' := by
    intro message hmap
    cases hok : s.undoSession orders with
    | error e =>
      rw [hok] at hmap
      cases hmap
    | ok s1 =>
      rw [hok] at hmap
      cases hmap
      exact ⟨rfl, h.undoSession hactive hok⟩
  unfold ChainDatabase.endSession at hend
  cases thrown with
  | some message =>
    obtain ⟨hthrown, hundone⟩ := hundo message hend
    exact .inr ⟨⟨message, hthrown⟩, fun hnone => (nomatch hnone), fun _ => hthrown, hundone⟩
  | none =>
    obtain ⟨st, hwatching⟩ := h.watching
    have hpositive : 0 < s.undo.activeSessions := h.active.symm ▸ hactive
    have hstack := hwatching.stack
    rw [List.append_nil] at hstack
    dsimp only at hend
    cases below with
    | nil =>
      -- the only undo state: it is dropped if there is no other session
      have hmerge : s.undo.merge (s.nextOrder orders) =
          if s.undo.activeSessions = 1 then .ok { s.undo with stack := [], activeSessions := 0 }
          else .error (.fc "_stack.size() >=2") := by
        unfold UndoDatabase.merge fcAssert
        rw [if_pos hpositive, hstack]
        rfl
      by_cases hone : s.undo.activeSessions = 1
      · rw [hmerge, if_pos hone] at hend
        cases hend
        refine .inl ⟨rfl, rfl, rfl, fun _ => rfl, fun d st' rest hcons => (nomatch hcons),
          hwatching.enabled, ?_, rfl, rfl⟩
        show 0 = s.undo.activeSessions - 1
        rw [hone]
      · rw [hmerge, if_neg hone] at hend
        obtain ⟨hthrown, hundone⟩ := hundo _ hend
        have hopen : active ≠ 1 := h.active ▸ hone
        exact .inr ⟨⟨_, hthrown⟩, fun _ => ⟨rfl, hopen⟩, fun hsome => absurd rfl hsome, hundone⟩
    | cons prev rest =>
      obtain ⟨d, hd, hprev⟩ := hbelow prev rest rfl
      have hvisits : (s.nextOrder orders).Visits st := by
        unfold nextOrder
        rw [hstack]
        exact orders.visits s.walked st
      have hcausal := hprev.causal hwatching.records hd
      obtain ⟨C, hstates, hC⟩ := Db.mergeStates_composed hprev hwatching.records hcausal hvisits
      rw [Db.merge_eq hpositive hstack, hstates] at hend
      cases hend
      refine .inl ⟨rfl, rfl, rfl, fun hnil => (nomatch hnil), fun d' st' rest' hcons hd' hrecords => ?_,
        hwatching.enabled, rfl, rfl, rfl⟩
      cases hcons
      -- the composition does not depend on where the outer session began
      have hcausal' := hrecords.causal hwatching.records hd'
      exact ⟨C, rfl, hrecords.compose hwatching.records hcausal' hC⟩

end

end ChainDatabase

end Meta1Core.Proposals
