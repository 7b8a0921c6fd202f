import Meta1Core.Proposals.Atomic

/-!
# With and without undo history

Evaluators see the objects only, so an execution does the same to the objects whether there is an undo
history, as in the node that follows the chain, or none, as in a replay.
-/

namespace Meta1Core.Proposals

open Db (IndexId Iteration ObjectDatabase ObjectId Records UndoDatabase UndoState UniqueKeys Watching)

variable {V τ ω : Type}

namespace ChainDatabase

/-- The same objects, with undo states that may differ -/
structure Same (s t : ChainDatabase V ω) : Prop where
  db : s.undo.db = t.undo.db
  appliedOps : s.appliedOps = t.appliedOps
  nesting : s.pushProposalNestingDepth = t.pushProposalNestingDepth

section

variable [UniqueKeys V] {s s' t t' : ChainDatabase V ω} {d0 d0' : ObjectDatabase V}
  {below below' : List (UndoState V)} {applied applied' : List (Option ω)}
  {active active' nesting nesting' : Nat} {thrown thrown' : Option String} {id : ObjectId}
  {headBlockTime : ObjectDatabase V → Nat}
  {push push' : ChainDatabase V ω → ObjectId → Except Exception (ChainDatabase V ω × Option String)}

def SessionsKept (s : UndoDatabase V) : Prop := s.stack = [] → s.activeSessions = 0

def Alike (push push' : ChainDatabase V ω → ObjectId → Except Exception (ChainDatabase V ω × Option String)) :
    Prop :=
  ∀ s t id s' t' thrown thrown', Regular s.undo → Regular t.undo → SessionsKept s.undo →
    SessionsKept t.undo → Same s t → push s id = .ok (s', thrown) → push' t id = .ok (t', thrown') →
      thrown = thrown' ∧ Same s' t'

omit [UniqueKeys V] in
theorem note_db (u : UndoDatabase V) (f : UndoState V → UndoState V) : (u.note f).db = u.db := by
  unfold UndoDatabase.note
  split
  · rfl
  · split <;> rfl

theorem create_same {u w : UndoDatabase V} (h : u.db = w.db) (index : IndexId) (v : V) :
    (u.create index v).1.db = (w.create index v).1.db ∧ (u.create index v).2 = (w.create index v).2 := by
  unfold UndoDatabase.create
  rw [h]
  dsimp only
  split
  · exact ⟨h, rfl⟩
  · rw [note_db, note_db]
    exact ⟨rfl, rfl⟩

theorem modify_same {u w : UndoDatabase V} (h : u.db = w.db) (id : ObjectId) (v : V) :
    (u.modify id v).1.db = (w.modify id v).1.db ∧ (u.modify id v).2 = (w.modify id v).2 := by
  unfold UndoDatabase.modify
  rw [h]
  split
  · exact ⟨h, rfl⟩
  · exact ⟨rfl, rfl⟩

omit [UniqueKeys V] in
theorem remove_same {u w : UndoDatabase V} (h : u.db = w.db) (id : ObjectId) :
    (u.remove id).1.db = (w.remove id).1.db ∧ (u.remove id).2 = (w.remove id).2 := by
  unfold UndoDatabase.remove
  rw [h]
  split
  · exact ⟨h, rfl⟩
  · exact ⟨rfl, rfl⟩

theorem Inside.sessionsKept (h : Inside d0 below active nesting applied s) : SessionsKept s.undo := by
  obtain ⟨st, hwatching⟩ := h.watching
  intro hempty
  rw [hwatching.stack] at hempty
  cases hempty

theorem Same.runCalls (hpush : Pushes headBlockTime push) (hpush' : Pushes headBlockTime push')
    (halike : Alike push push') (calls : Calls V ω) (h : Inside d0 below active nesting applied s)
    (h' : Inside d0' below' active' nesting' applied' t) (hsame : Same s t)
    (hrun : s.runCalls push calls = .ok (s', thrown)) (hrun' : t.runCalls push' calls = .ok (t', thrown')) :
    thrown = thrown' ∧ Same s' t' := by
  induction calls generalizing s t with
  | done =>
    cases hrun
    cases hrun'
    exact ⟨rfl, hsame⟩
  | throw message =>
    cases hrun
    cases hrun'
    exact ⟨rfl, hsame⟩
  | create index v next ih =>
    obtain ⟨st, hwatching⟩ := h.watching
    obtain ⟨st', hwatching'⟩ := h'.watching
    obtain ⟨hdb, hthrown⟩ := create_same hsame.db index v
    unfold ChainDatabase.runCalls at hrun hrun'
    dsimp only at hrun hrun'
    rw [← hdb, ← hthrown] at hrun'
    exact ih _ _ (h.withUndo (hwatching.create index v)) (h'.withUndo (hwatching'.create index v))
      ⟨hdb, hsame.appliedOps, hsame.nesting⟩ hrun hrun'
  | modify id v next ih =>
    obtain ⟨st, hwatching⟩ := h.watching
    obtain ⟨st', hwatching'⟩ := h'.watching
    obtain ⟨hdb, hthrown⟩ := modify_same hsame.db id v
    unfold ChainDatabase.runCalls at hrun hrun'
    dsimp only at hrun hrun'
    rw [← hdb, ← hthrown] at hrun'
    exact ih _ _ (h.withUndo (hwatching.modify id v)) (h'.withUndo (hwatching'.modify id v))
      ⟨hdb, hsame.appliedOps, hsame.nesting⟩ hrun hrun'
  | remove id next ih =>
    obtain ⟨st, hwatching⟩ := h.watching
    obtain ⟨st', hwatching'⟩ := h'.watching
    obtain ⟨hdb, hthrown⟩ := remove_same hsame.db id
    unfold ChainDatabase.runCalls at hrun hrun'
    dsimp only at hrun hrun'
    rw [← hdb, ← hthrown] at hrun'
    exact ih _ _ (h.withUndo (hwatching.remove id)) (h'.withUndo (hwatching'.remove id))
      ⟨hdb, hsame.appliedOps, hsame.nesting⟩ hrun hrun'
  | applied op next ih =>
    have hnoted := (h.noteApplied op)
    have hnoted' := (h'.noteApplied op)
    refine ih hnoted hnoted' ⟨hsame.db, ?_, hsame.nesting⟩ hrun hrun'
    show s.appliedOps ++ [some op] = t.appliedOps ++ [some op]
    rw [hsame.appliedOps]
  | pushProposal id next ih =>
    unfold ChainDatabase.runCalls at hrun hrun'
    cases hok : push s id with
    | error e =>
      rw [hok] at hrun
      cases hrun
    | ok result =>
      obtain ⟨s1, thrown1⟩ := result
      cases hok' : push' t id with
      | error e =>
        rw [hok'] at hrun'
        cases hrun'
      | ok result' =>
        obtain ⟨t1, thrown1'⟩ := result'
        rw [hok] at hrun
        rw [hok'] at hrun'
        dsimp only at hrun hrun'
        obtain ⟨rfl, hsame1⟩ := halike s t id s1 t1 thrown1 thrown1' h.regular h'.regular h.sessionsKept
          h'.sessionsKept hsame hok hok'
        rw [← hsame1.db] at hrun'
        exact ih _ _ (h.pushed (hpush s id s1 thrown1 h.regular hok))
          (h'.pushed (hpush' t id t1 thrown1 h'.regular hok')) hsame1 hrun hrun'

end

section

variable [UniqueKeys (ChainObject τ ω)] {c : Evaluators τ ω} {orders orders' : Orders (ChainObject τ ω)}
  {s s' t t' : ChainDatabase (ChainObject τ ω) (Operation ω)}
  {d0 d0' : ObjectDatabase (ChainObject τ ω)} {below below' : List (UndoState (ChainObject τ ω))}
  {applied applied' : List (Option (Operation ω))} {active active' nesting nesting' : Nat}
  {thrown thrown' : Option String} {id : ObjectId}
  {headBlockTime : ObjectDatabase (ChainObject τ ω) → Nat}
  {push push' : ChainDatabase (ChainObject τ ω) (Operation ω) → ObjectId →
    Except Exception (ChainDatabase (ChainObject τ ω) (Operation ω) × Option String)}

section

variable (hpush : Pushes headBlockTime push) (hpush' : Pushes headBlockTime push')
  (halike : Alike push push')

include hpush hpush' halike

theorem Same.runSteps
    (steps : List (ObjectDatabase (ChainObject τ ω) → Calls (ChainObject τ ω) (Operation ω)))
    (h : Inside d0 below active nesting applied s)
    (h' : Inside d0' below' active' nesting' applied' t) (hsame : Same s t)
    (hrun : s.runSteps push steps = .ok (s', thrown))
    (hrun' : t.runSteps push' steps = .ok (t', thrown')) : thrown = thrown' ∧ Same s' t' := by
  induction steps generalizing s t with
  | nil =>
    cases hrun
    cases hrun'
    exact ⟨rfl, hsame⟩
  | cons calls rest ih =>
    unfold ChainDatabase.runSteps at hrun hrun'
    rw [← hsame.db] at hrun'
    cases hcalls : s.runCalls push (calls s.undo.db) with
    | error e =>
      rw [hcalls] at hrun
      cases hrun
    | ok result =>
      obtain ⟨s1, thrown1⟩ := result
      cases hcalls' : t.runCalls push' (calls s.undo.db) with
      | error e =>
        rw [hcalls'] at hrun'
        cases hrun'
      | ok result' =>
        obtain ⟨t1, thrown1'⟩ := result'
        obtain ⟨rfl, hsame1⟩ := hsame.runCalls hpush hpush' halike _ h h' hcalls hcalls'
        rw [hcalls] at hrun
        rw [hcalls'] at hrun'
        cases thrown1 with
        | none => exact ih (h.runCalls hpush _ hcalls) (h'.runCalls hpush' _ hcalls') hsame1 hrun hrun'
        | some message =>
          cases hrun
          cases hrun'
          exact ⟨rfl, hsame1⟩

theorem Same.applyOperation (op : Operation ω) (h : Inside d0 below active nesting applied s)
    (h' : Inside d0' below' active' nesting' applied' t) (hsame : Same s t)
    (happly : s.applyOperation c push op = .ok (s', thrown))
    (happly' : t.applyOperation c push' op = .ok (t', thrown')) :
    thrown = thrown' ∧ Same s' t' := by
  have hnoted : Same { s with appliedOps := s.appliedOps ++ [some op] }
      { t with appliedOps := t.appliedOps ++ [some op] } := by
    refine ⟨hsame.db, ?_, hsame.nesting⟩
    show s.appliedOps ++ [some op] = t.appliedOps ++ [some op]
    rw [hsame.appliedOps]
  exact hnoted.runSteps hpush hpush' halike _ (h.noteApplied op) (h'.noteApplied op) happly happly'

theorem Same.applyOperations (ops : List (Operation ω))
    (h : Inside d0 below active nesting applied s)
    (h' : Inside d0' below' active' nesting' applied' t) (hsame : Same s t)
    (happly : s.applyOperations c push ops = .ok (s', thrown))
    (happly' : t.applyOperations c push' ops = .ok (t', thrown')) :
    thrown = thrown' ∧ Same s' t' := by
  induction ops generalizing s t with
  | nil =>
    cases happly
    cases happly'
    exact ⟨rfl, hsame⟩
  | cons op ops ih =>
    unfold ChainDatabase.applyOperations at happly happly'
    cases hop : s.applyOperation c push op with
    | error e =>
      rw [hop] at happly
      cases happly
    | ok result =>
      obtain ⟨s1, thrown1⟩ := result
      cases hop' : t.applyOperation c push' op with
      | error e =>
        rw [hop'] at happly'
        cases happly'
      | ok result' =>
        obtain ⟨t1, thrown1'⟩ := result'
        obtain ⟨rfl, hsame1⟩ := hsame.applyOperation hpush hpush' halike op h h' hop hop'
        rw [hop] at happly
        rw [hop'] at happly'
        cases thrown1 with
        | none =>
          exact ih (h.applyOperation hpush op hop) (h'.applyOperation hpush' op hop') hsame1 happly happly'
        | some message =>
          cases happly
          cases happly'
          exact ⟨rfl, hsame1⟩

theorem Same.execute (ops : List (Operation ω)) (h : Inside d0 below active nesting applied s)
    (h' : Inside d0' below' active' nesting' applied' t) (hsame : Same s t)
    (hexecute : s.execute c push id ops = .ok (s', thrown))
    (hexecute' : t.execute c push' id ops = .ok (t', thrown')) : thrown = thrown' ∧ Same s' t' := by
  unfold ChainDatabase.execute at hexecute hexecute'
  cases hops : s.applyOperations c push ops with
  | error e =>
    rw [hops] at hexecute
    cases hexecute
  | ok result =>
    obtain ⟨s1, thrown1⟩ := result
    cases hops' : t.applyOperations c push' ops with
    | error e =>
      rw [hops'] at hexecute'
      cases hexecute'
    | ok result' =>
      obtain ⟨t1, thrown1'⟩ := result'
      obtain ⟨rfl, hsame1⟩ := hsame.applyOperations hpush hpush' halike ops h h' hops hops'
      rw [hops] at hexecute
      rw [hops'] at hexecute'
      cases thrown1 with
      | none =>
        obtain ⟨hdb, hthrown⟩ := remove_same hsame1.db id
        dsimp only at hexecute hexecute'
        rw [← hsame1.db, ← hthrown] at hexecute'
        split at hexecute
        · cases hexecute
        · rename_i hlive
          rw [if_neg hlive] at hexecute'
          cases hexecute
          cases hexecute'
          exact ⟨rfl, hdb, hsame1.appliedOps, hsame1.nesting⟩
      | some message =>
        cases hexecute
        cases hexecute'
        exact ⟨rfl, hsame1⟩

end

omit [UniqueKeys (ChainObject τ ω)] in
theorem Same.takeBack (h : Same s t) (c : Evaluators τ ω) (size : Nat) :
    Same (s.takeBack c size) (t.takeBack c size) := by
  unfold ChainDatabase.takeBack
  rw [h.db, h.appliedOps]
  split
  · exact ⟨h.db, rfl, h.nesting⟩
  · exact ⟨h.db, rfl, h.nesting⟩

omit [UniqueKeys (ChainObject τ ω)] in
theorem Same.ended (h : Same s t) (disabled disabled' : Bool) :
    Same { s.disableOnExit disabled with pushProposalNestingDepth := s.pushProposalNestingDepth - 1 }
      { t.disableOnExit disabled' with pushProposalNestingDepth := t.pushProposalNestingDepth - 1 } := by
  obtain ⟨hdb, -, -, -, happlied⟩ := disableOnExit_undo disabled s
  obtain ⟨hdb', -, -, -, happlied'⟩ := disableOnExit_undo disabled' t
  constructor
  · show (s.disableOnExit disabled).undo.db = (t.disableOnExit disabled').undo.db
    rw [hdb, hdb', h.db]
  · show (s.disableOnExit disabled).appliedOps = (t.disableOnExit disabled').appliedOps
    rw [happlied, happlied', h.appliedOps]
  · show s.pushProposalNestingDepth - 1 = t.pushProposalNestingDepth - 1
    rw [h.nesting]

theorem Same.pushProposal {fuel fuel' : Nat} (hs : Regular s.undo) (ht : Regular t.undo)
    (hkept : SessionsKept s.undo) (hkept' : SessionsKept t.undo) (hsame : Same s t)
    (h : s.pushProposal c orders fuel id = .ok (s', thrown))
    (h' : t.pushProposal c orders' fuel' id = .ok (t', thrown')) : thrown = thrown' ∧ Same s' t' := by
  induction fuel generalizing fuel' s t s' t' thrown thrown' id with
  | zero => cases h
  | succ fuel ih =>
    obtain ⟨n, p, hn, hlookup, hcases⟩ := of_pushProposal h
    obtain ⟨n', p', rfl, hlookup', hcases'⟩ := of_pushProposal h'
    cases hn
    rw [← hsame.db, hlookup] at hlookup'
    cases hlookup'
    rw [← hsame.db, ← hsame.nesting, ← hsame.appliedOps] at hcases'
    rcases hcases with ⟨hfull, rfl, rfl⟩ | ⟨hroom, s1, thrown1, s2, hexecute, hend, hresult⟩
    · rcases hcases' with ⟨-, rfl, rfl⟩ | ⟨hroom, -⟩
      · exact ⟨rfl, hsame.takeBack c _⟩
      · exact absurd hroom hfull
    · rcases hcases' with ⟨hfull, -⟩ | ⟨-, t1, thrown1', t2, hexecute', hend', hresult'⟩
      · exact absurd hroom hfull
      · have hstart : Inside s.undo.db s.undo.stack (s.undo.activeSessions + 1)
            (s.pushProposalNestingDepth + 1) s.appliedOps
            (startSession { s with pushProposalNestingDepth := s.pushProposalNestingDepth + 1 }) :=
          @inside_startSession _ _ _
            { s with pushProposalNestingDepth := s.pushProposalNestingDepth + 1 } hs
        have hstart' : Inside t.undo.db t.undo.stack (t.undo.activeSessions + 1)
            (s.pushProposalNestingDepth + 1) s.appliedOps
            (startSession { t with
              appliedOps := s.appliedOps
              pushProposalNestingDepth := s.pushProposalNestingDepth + 1 }) :=
          @inside_startSession _ _ _
            { t with
              appliedOps := s.appliedOps
              pushProposalNestingDepth := s.pushProposalNestingDepth + 1 } ht
        have hstarted : Same
            (startSession { s with pushProposalNestingDepth := s.pushProposalNestingDepth + 1 })
            (startSession { t with
              appliedOps := s.appliedOps
              pushProposalNestingDepth := s.pushProposalNestingDepth + 1 }) :=
          ⟨by rw [startSession_db, startSession_db]; exact hsame.db, rfl, rfl⟩
        have hpush := pushes_pushProposal c orders fuel
        have hpush' := pushes_pushProposal c orders' n'
        have halike : Alike (ChainDatabase.pushProposal c orders fuel)
            (ChainDatabase.pushProposal c orders' n') :=
          fun s t id s' t' thrown thrown' hs ht hkept hkept' hsame h h' => ih hs ht hkept hkept' hsame h h'
        obtain ⟨rfl, hsame1⟩ :=
          hstarted.execute hpush hpush' halike p.operations hstart hstart' hexecute hexecute'
        have hinside := (hstart.execute hpush p.operations hexecute).1
        have hinside' := (hstart'.execute hpush' p.operations hexecute').1
        -- the session can be merged, as no other one is open if it is alone on the stack
        have hmergeable : ¬(s.undo.stack = [] ∧ s.undo.activeSessions + 1 ≠ 1) :=
          fun ⟨hempty, hopen⟩ => hopen (congrArg (· + 1) (hkept hempty))
        have hmergeable' : ¬(t.undo.stack = [] ∧ t.undo.activeSessions + 1 ≠ 1) :=
          fun ⟨hempty, hopen⟩ => hopen (congrArg (· + 1) (hkept' hempty))
        dsimp only at hresult hresult'
        rcases hinside.endSession (Nat.succ_pos _) hs.recorded hend with
          ⟨rfl, hnone, hmerged⟩ | ⟨⟨message, rfl⟩, hbelow, hthrown, hundone⟩
        · rcases hinside'.endSession (Nat.succ_pos _) ht.recorded hend' with
            ⟨rfl, -, hmerged'⟩ | ⟨-, hbelow', -, -⟩
          · rw [if_pos rfl] at hresult hresult'
            subst hresult hresult'
            have hmerges : Same s2 t2 := by
              constructor
              · rw [hmerged.db, hmerged'.db, hsame1.db]
              · rw [hmerged.applied, hmerged'.applied, hsame1.appliedOps]
              · rw [hmerged.nesting, hmerged'.nesting, hsame1.nesting]
            exact ⟨rfl, hmerges.ended s.undo.disabled t.undo.disabled⟩
          · exact absurd (hbelow' hnone) hmergeable'
        · rcases hinside'.endSession (Nat.succ_pos _) ht.recorded hend' with
            ⟨rfl, hnone', -⟩ | ⟨⟨message', rfl⟩, hbelow', hthrown', hundone'⟩
          · exact absurd (hbelow hnone') hmergeable
          · rw [if_neg (Option.some_ne_none _)] at hresult hresult'
            subst hresult hresult'
            have hundoes : Same s2 t2 := by
              constructor
              · rw [hundone.db, hundone'.db, hsame.db]
              · rw [hundone.applied, hundone'.applied, hsame1.appliedOps]
              · rw [hundone.nesting, hundone'.nesting, hsame1.nesting]
            have hends := (hundoes.ended s.undo.disabled t.undo.disabled).takeBack c s.appliedOps.length
            have hsome : thrown1 ≠ none := fun hnone => hmergeable (hbelow hnone)
            refine ⟨?_, hends⟩
            rw [hthrown hsome, hthrown' hsome]

end

end ChainDatabase

end Meta1Core.Proposals
