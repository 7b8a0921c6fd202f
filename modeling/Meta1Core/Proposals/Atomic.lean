import Meta1Core.Proposals.Sessions

/-!
# `push_proposal` is atomic

The execution of a proposal either throws, and then the objects and the undo states are as before, or it
removes the proposal and merges its changes into the undo state below.
-/

namespace Meta1Core.Proposals

open Db (IndexId Iteration ObjectDatabase ObjectId Records UndoDatabase UndoState UniqueKeys Watching)

variable {τ ω : Type} [UniqueKeys (ChainObject τ ω)] {c : Evaluators τ ω}
  {orders : Orders (ChainObject τ ω)}

namespace ChainDatabase

variable {s s' : ChainDatabase (ChainObject τ ω) (Operation ω)} {d0 : ObjectDatabase (ChainObject τ ω)}
  {below : List (UndoState (ChainObject τ ω))} {applied : List (Option (Operation ω))}
  {active nesting : Nat} {thrown : Option String} {id : ObjectId}
  {headBlockTime : ObjectDatabase (ChainObject τ ω) → Nat}
  {push : ChainDatabase (ChainObject τ ω) (Operation ω) → ObjectId →
    Except Exception (ChainDatabase (ChainObject τ ω) (Operation ω) × Option String)}

section

variable (hpush : Pushes headBlockTime push) (h : Inside d0 below active nesting applied s)

include hpush h

theorem Inside.runSteps
    (steps : List (ObjectDatabase (ChainObject τ ω) → Calls (ChainObject τ ω) (Operation ω)))
    (hrun : s.runSteps push steps = .ok (s', thrown)) :
    Inside d0 below active nesting applied s' := by
  induction steps generalizing s with
  | nil =>
    cases hrun
    exact h
  | cons calls rest ih =>
    unfold ChainDatabase.runSteps at hrun
    split at hrun
    · rename_i s1 hcalls
      exact ih (h.runCalls hpush _ hcalls) hrun
    · exact h.runCalls hpush _ hrun

theorem Inside.applyOperation (op : Operation ω)
    (happly : s.applyOperation c push op = .ok (s', thrown)) :
    Inside d0 below active nesting applied s' :=
  (h.noteApplied op).runSteps hpush _ happly

theorem Inside.applyOperations (ops : List (Operation ω))
    (happly : s.applyOperations c push ops = .ok (s', thrown)) :
    Inside d0 below active nesting applied s' := by
  induction ops generalizing s with
  | nil =>
    cases happly
    exact h
  | cons op ops ih =>
    unfold ChainDatabase.applyOperations at happly
    split at happly
    · rename_i s1 hop
      exact ih (h.applyOperation hpush op hop) happly
    · exact h.applyOperation hpush op happly

theorem Inside.execute (ops : List (Operation ω))
    (hexecute : s.execute c push id ops = .ok (s', thrown)) :
    Inside d0 below active nesting applied s' ∧
      (thrown = none → s'.undo.db.objects.lookup id = none) := by
  unfold ChainDatabase.execute at hexecute
  split at hexecute
  · rename_i s1 hok
    have h1 : Inside d0 below active nesting applied s1 := h.applyOperations hpush ops hok
    split at hexecute
    · cases hexecute
    · rename_i hlive
      obtain ⟨before, hbefore⟩ := Option.ne_none_iff_exists'.mp (mt Option.isNone_iff_eq_none.mpr hlive)
      have hremove : s1.undo.remove id =
          ({ s1.undo.note (·.onRemove id before) with db := s1.undo.db.remove id }, none) := by
        unfold UndoDatabase.remove
        rw [Db.getObject_ok.mpr hbefore]
      obtain ⟨st, hwatching⟩ := h1.watching
      have hinside := h1.withUndo (hwatching.remove id)
      rw [hremove] at hexecute hinside
      cases hexecute
      refine ⟨hinside, fun _ => ?_⟩
      exact Finmap.lookup_erase id s1.undo.db.objects
  · rename_i hnot
    refine ⟨h.applyOperations hpush ops hexecute, fun hnone => ?_⟩
    subst hnone
    exact absurd hexecute (hnot s')

end

omit [UniqueKeys (ChainObject τ ω)] in
theorem takeBack_undo (c : Evaluators τ ω) (size : Nat) (s : ChainDatabase (ChainObject τ ω) (Operation ω)) :
    (s.takeBack c size).undo = s.undo ∧
      (s.takeBack c size).pushProposalNestingDepth = s.pushProposalNestingDepth := by
  unfold takeBack
  split
  · exact ⟨rfl, rfl⟩
  · exact ⟨rfl, rfl⟩

omit [UniqueKeys (ChainObject τ ω)] in
/-- The operations that have been applied since are taken back; at first only their places were emptied. -/
theorem takeBack_appliedOps (c : Evaluators τ ω) {more : List (Option (Operation ω))}
    (hmore : s.appliedOps = applied ++ more) :
    (∃ more', (s.takeBack c applied.length).appliedOps = applied ++ more') ∧
      (hardfork483Time < c.headBlockTime s.undo.db →
        (s.takeBack c applied.length).appliedOps = applied) := by
  unfold takeBack
  split
  · rename_i hearly
    refine ⟨⟨more.map fun _ => none, ?_⟩, fun hlate => absurd hearly (Nat.not_le.mpr hlate)⟩
    show s.appliedOps.take applied.length ++ (s.appliedOps.drop applied.length).map _ = _
    rw [hmore, List.take_left, List.drop_left]
  · have htake : s.appliedOps.take applied.length = applied := by rw [hmore, List.take_left]
    exact ⟨⟨[], htake.trans (List.append_nil _).symm⟩, fun _ => htake⟩

omit [UniqueKeys (ChainObject τ ω)] in
theorem disableOnExit_undo (disabled : Bool) (s : ChainDatabase (ChainObject τ ω) (Operation ω)) :
    (s.disableOnExit disabled).undo.db = s.undo.db ∧
      (s.disableOnExit disabled).undo.stack = s.undo.stack ∧
      (s.disableOnExit disabled).undo.activeSessions = s.undo.activeSessions ∧
      (s.disableOnExit disabled).undo.disabled = (disabled || s.undo.disabled) ∧
      (s.disableOnExit disabled).appliedOps = s.appliedOps := by
  unfold disableOnExit
  cases disabled with
  | true => exact ⟨rfl, rfl, rfl, rfl, rfl⟩
  | false => exact ⟨rfl, rfl, rfl, (Bool.false_or _).symm, rfl⟩

theorem of_pushProposal {fuel : Nat} (h : s.pushProposal c orders fuel id = .ok (s', thrown)) :
    ∃ fuel' p, fuel = fuel' + 1 ∧ s.undo.db.objects.lookup id = some (.proposal p) ∧
      (¬s.pushProposalNestingDepth < c.activeWitnesses s.undo.db * 2 ∧
          s' = s.takeBack c s.appliedOps.length ∧ thrown = some "Max proposal nesting depth exceeded!" ∨
        s.pushProposalNestingDepth < c.activeWitnesses s.undo.db * 2 ∧ ∃ s1 thrown1 s2,
          execute c (pushProposal c orders fuel') id p.operations
              (startSession { s with pushProposalNestingDepth := s.pushProposalNestingDepth + 1 }) =
            .ok (s1, thrown1) ∧
          s1.endSession orders thrown1 = .ok (s2, thrown) ∧
          let ended := { s2.disableOnExit s.undo.disabled with
            pushProposalNestingDepth := s2.pushProposalNestingDepth - 1 }
          s' = if thrown = none then ended else ended.takeBack c s.appliedOps.length) := by
  cases fuel with
  | zero => cases h
  | succ fuel =>
    unfold pushProposal at h
    split at h
    · rename_i p hlookup
      refine ⟨fuel, p, rfl, hlookup, ?_⟩
      split at h
      · rename_i hroom
        obtain ⟨⟨s1, thrown1⟩, hexecute, h⟩ := Lib.of_bind h
        obtain ⟨⟨s2, thrown2⟩, hend, h⟩ := Lib.of_bind h
        refine .inr ⟨hroom, s1, thrown1, s2, hexecute, ?_⟩
        cases thrown2 with
        | none =>
          cases h
          exact ⟨hend, rfl⟩
        | some message =>
          cases h
          exact ⟨hend, rfl⟩
      · rename_i hfull
        cases h
        exact .inl ⟨hfull, rfl, rfl⟩
    · cases h

/-- The guard throws before the session starts. -/
theorem Regular.pushed_takeBack (hs : Regular s.undo)
    (c : Evaluators τ ω) (message : String) :
    Pushed c.headBlockTime s id (s.takeBack c s.appliedOps.length) (some message) := by
  obtain ⟨hundo, hnesting⟩ := takeBack_undo c s.appliedOps.length s
  obtain ⟨happlied, hlate⟩ := takeBack_appliedOps c (List.append_nil s.appliedOps).symm
  constructor
  · rw [hundo]
    exact hs.wf
  · rw [hundo]
  · rw [hundo]
  · exact hnesting
  · exact happlied
  · intro _
    rw [hundo]
    exact ⟨rfl, rfl, hlate⟩
  · exact fun hnone => (nomatch hnone)
  · exact fun hnone => (nomatch hnone)

/-- `s2` when `push_proposal`, which began in `s`, is left -/
def exited (s s2 : ChainDatabase (ChainObject τ ω) (Operation ω)) :
    ChainDatabase (ChainObject τ ω) (Operation ω) :=
  { s2.disableOnExit s.undo.disabled with
    pushProposalNestingDepth := s2.pushProposalNestingDepth - 1 }

section

variable {s1 s2 : ChainDatabase (ChainObject τ ω) (Operation ω)}
  (hinside : Inside s.undo.db s.undo.stack (s.undo.activeSessions + 1)
    (s.pushProposalNestingDepth + 1) s.appliedOps s1)

include hinside

theorem Inside.pushed_merged (hmerged : Merged s.undo.db s.undo.stack s1 s2)
    (hgone : s1.undo.db.objects.lookup id = none) :
    Pushed headBlockTime s id (exited s s2) none := by
  obtain ⟨st, hwatching⟩ := hinside.watching
  obtain ⟨more, hmore⟩ := hinside.applied
  obtain ⟨hdb, hstack, hactive, hdisabled, hkept⟩ := disableOnExit_undo s.undo.disabled s2
  constructor
  · show (s2.disableOnExit s.undo.disabled).undo.db.Wf
    rw [hdb, hmerged.db]
    exact hwatching.wf
  · show (s2.disableOnExit s.undo.disabled).undo.disabled = _
    rw [hdisabled, hmerged.disabled, Bool.or_false]
  · show (s2.disableOnExit s.undo.disabled).undo.activeSessions = _
    rw [hactive, hmerged.active, hinside.active]
    rfl
  · show s2.pushProposalNestingDepth - 1 = _
    rw [hmerged.nesting, hinside.nesting]
    rfl
  · refine ⟨more, ?_⟩
    show (s2.disableOnExit s.undo.disabled).appliedOps = _
    rw [hkept, hmerged.applied, hmore]
  · exact fun hsome => absurd rfl hsome
  · intro _
    have hstack' : (exited s s2).undo.stack = s2.undo.stack := hstack
    rw [hstack']
    refine ⟨hmerged.alone, fun d0 st rest hcons hd0 hrecords => ?_⟩
    obtain ⟨st', hst', hrecords'⟩ := hmerged.merged d0 st rest hcons hd0 hrecords
    refine ⟨st', hst', ?_⟩
    show Records d0 st' (s2.disableOnExit s.undo.disabled).undo.db
    rw [hdb]
    exact hrecords'
  · intro _
    show (s2.disableOnExit s.undo.disabled).undo.db.objects.lookup id = none
    rw [hdb, hmerged.db]
    exact hgone

theorem Inside.pushed_undone (hs : Regular s.undo) (hundone : Undone s.undo.db s.undo.stack s1 s2)
    (c : Evaluators τ ω) (message : String) :
    Pushed c.headBlockTime s id ((exited s s2).takeBack c s.appliedOps.length) (some message) := by
  obtain ⟨more, hmore⟩ := hinside.applied
  obtain ⟨hdb, hstack, hactive, hdisabled, hkept⟩ := disableOnExit_undo s.undo.disabled s2
  have hexited : (exited s s2).appliedOps = s.appliedOps ++ more := by
    show (s2.disableOnExit s.undo.disabled).appliedOps = _
    rw [hkept, hundone.applied, hmore]
  obtain ⟨happlied, hlate⟩ := takeBack_appliedOps c hexited
  obtain ⟨hundo, hnesting⟩ := takeBack_undo c s.appliedOps.length (exited s s2)
  have hback : (exited s s2).undo.db = s.undo.db := hdb.trans hundone.db
  constructor
  · rw [hundo, hback]
    exact hs.wf
  · rw [hundo]
    show (s2.disableOnExit s.undo.disabled).undo.disabled = _
    rw [hdisabled, hundone.disabled, Bool.or_false]
  · rw [hundo]
    show (s2.disableOnExit s.undo.disabled).undo.activeSessions = _
    rw [hactive, hundone.active, hinside.active]
    rfl
  · rw [hnesting]
    show s2.pushProposalNestingDepth - 1 = _
    rw [hundone.nesting, hinside.nesting]
    rfl
  · exact happlied
  · intro _
    refine ⟨?_, ?_, fun htime => hlate ?_⟩
    · rw [hundo]
      exact hback
    · rw [hundo]
      exact hstack.trans hundone.stack
    · rw [hback]
      exact htime
  · exact fun hnone => (nomatch hnone)
  · exact fun hnone => (nomatch hnone)

end

theorem pushes_pushProposal (c : Evaluators τ ω) (orders : Orders (ChainObject τ ω)) (fuel : Nat) :
    Pushes c.headBlockTime (pushProposal c orders fuel) := by
  induction fuel with
  | zero =>
    intro s id s' thrown _ h
    cases h
  | succ fuel ih =>
    intro s id s' thrown hs h
    obtain ⟨fuel', p, hfuel, hlookup, hcases⟩ := of_pushProposal h
    cases hfuel
    rcases hcases with ⟨-, rfl, rfl⟩ | ⟨-, s1, thrown1, s2, hexecute, hend, hresult⟩
    · exact hs.pushed_takeBack c _
    · have hstart : Inside s.undo.db s.undo.stack (s.undo.activeSessions + 1)
          (s.pushProposalNestingDepth + 1) s.appliedOps
          (startSession { s with pushProposalNestingDepth := s.pushProposalNestingDepth + 1 }) :=
        @inside_startSession _ _ _
          { s with pushProposalNestingDepth := s.pushProposalNestingDepth + 1 } hs
      obtain ⟨hinside, hgone⟩ := hstart.execute ih p.operations hexecute
      dsimp only at hresult
      -- the session is merged without an exception, and undone with one
      rcases hinside.endSession (Nat.succ_pos _) hs.recorded hend with
        ⟨rfl, rfl, hmerged⟩ | ⟨⟨message, rfl⟩, -, -, hundone⟩
      · rw [if_pos rfl] at hresult
        subst hresult
        exact hinside.pushed_merged hmerged (hgone rfl)
      · rw [if_neg (Option.some_ne_none message)] at hresult
        subst hresult
        exact hinside.pushed_undone hs hundone c message

end ChainDatabase

end Meta1Core.Proposals
