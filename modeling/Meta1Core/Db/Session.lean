import Meta1Core.Db.Merge

/-!
# Sessions of the undo history

A session runs over the state that `start_undo_session` pushed.  Nested sessions push theirs on top
of it and take them away again, by `undo` or by `merge`.
-/

namespace Meta1Core.Db

open Lib (Succeeds)

variable {V : Type} [UniqueKeys V]

/-- The session that began at `d0` is on top of the stack, over the states `open_` of the sessions
that are still open around it and over older ones. -/
structure Watching (d0 : ObjectDatabase V) (st : UndoState V) (open_ older : List (UndoState V))
    (s : UndoDatabase V) : Prop where
  enabled : s.disabled = false
  stack : s.stack = st :: (open_ ++ older)
  records : Records d0 st s.db
  start_wf : d0.Wf
  wf : s.db.Wf

namespace Watching

variable {d0 : ObjectDatabase V} {st : UndoState V} {open_ older : List (UndoState V)}
  {s : UndoDatabase V}

omit [UniqueKeys V] in
theorem note_eq (henabled : s.disabled = false) {rest : List (UndoState V)}
    (hstack : s.stack = st :: rest) (f : UndoState V → UndoState V) :
    s.note f = { s with stack := f st :: rest } := by
  unfold UndoDatabase.note
  rw [if_neg (by rw [henabled]; exact Bool.false_ne_true), hstack]

theorem create (h : Watching d0 st open_ older s) (index : IndexId) (v : V) :
    ∃ st', Watching d0 st' open_ older (s.create index v).1 ∧
      (s.create index v).1.maxSize = s.maxSize ∧
      (s.create index v).1.activeSessions = s.activeSessions := by
  unfold UndoDatabase.create
  dsimp only
  split
  · exact ⟨st, h, rfl, rfl⟩
  · rename_i hfits
    obtain ⟨hfresh, hfits⟩ := not_or.mp hfits
    have hnote : ∀ db f, ({ s with db := db } : UndoDatabase V).note f =
        { s with db := db, stack := f st :: (open_ ++ older) } :=
      fun db f => note_eq (s := { s with db := db }) h.enabled h.stack f
    rw [hnote]
    exact ⟨st.onCreate ⟨index, s.db.nextId index⟩,
      ⟨h.enabled, rfl, h.records.create h.start_wf index v, h.start_wf, create_wf h.wf hfits⟩, rfl, rfl⟩

theorem modify (h : Watching d0 st open_ older s) (id : ObjectId) (v : V) :
    ∃ st', Watching d0 st' open_ older (s.modify id v).1 ∧
      (s.modify id v).1.maxSize = s.maxSize ∧
      (s.modify id v).1.activeSessions = s.activeSessions := by
  unfold UndoDatabase.modify
  cases hget : s.db.getObject id with
  | error e => exact ⟨st, h, rfl, rfl⟩
  | ok before =>
    have hlive := getObject_ok.mp hget
    dsimp only
    rw [note_eq h.enabled h.stack]
    refine ⟨st.onModify id before, ⟨h.enabled, rfl, h.records.modify hlive ?_ ?_, h.start_wf,
      modify_wf h.wf v hlive⟩, rfl, rfl⟩
    · intro id' hne
      unfold ObjectDatabase.modify
      split
      · exact Finmap.lookup_erase_ne hne
      · exact Finmap.lookup_insert_of_ne _ hne
    · unfold ObjectDatabase.modify
      split
      · rfl
      · rfl

theorem remove (h : Watching d0 st open_ older s) (id : ObjectId) :
    ∃ st', Watching d0 st' open_ older (s.remove id).1 ∧
      (s.remove id).1.maxSize = s.maxSize ∧
      (s.remove id).1.activeSessions = s.activeSessions := by
  unfold UndoDatabase.remove
  cases hget : s.db.getObject id with
  | error e => exact ⟨st, h, rfl, rfl⟩
  | ok before =>
    have hlive := getObject_ok.mp hget
    dsimp only
    rw [note_eq h.enabled h.stack]
    exact ⟨st.onRemove id before, ⟨h.enabled, rfl, h.records.remove hlive, h.start_wf,
      erase_wf h.wf id⟩, rfl, rfl⟩

theorem startUndoSession (h : Watching d0 st open_ older s) (hroom : open_.length < s.maxSize) :
    ∃ older', Watching s.db {} (st :: open_) older' s.startUndoSession := by
  unfold UndoDatabase.startUndoSession
  rw [if_neg (by rw [h.enabled]; exact Bool.false_ne_true)]
  refine ⟨older.take (s.maxSize - (open_.length + 1)), h.enabled, ?_, Records.start s.db, h.wf,
    h.wf⟩
  show {} :: s.stack.take s.maxSize = _
  have hlength : (st :: open_).length ≤ s.maxSize := hroom
  rw [h.stack, ← List.cons_append, List.take_append, List.take_of_length_le hlength]
  rfl

end Watching

omit [UniqueKeys V] in
theorem startUndoSession_maxSize (s : UndoDatabase V) :
    s.startUndoSession.maxSize = s.maxSize := by
  unfold UndoDatabase.startUndoSession
  split
  · rfl
  · rfl

omit [UniqueKeys V] in
theorem startUndoSession_activeSessions {s : UndoDatabase V} (henabled : s.disabled = false) :
    s.startUndoSession.activeSessions = s.activeSessions + 1 := by
  unfold UndoDatabase.startUndoSession
  rw [if_neg (by rw [henabled]; exact Bool.false_ne_true)]

theorem watching_start {s : UndoDatabase V} (henabled : s.disabled = false) (hwf : s.db.Wf) :
    ∃ older, Watching s.db {} [] older s.startUndoSession := by
  unfold UndoDatabase.startUndoSession
  rw [if_neg (by rw [henabled]; exact Bool.false_ne_true)]
  exact ⟨_, henabled, rfl, Records.start s.db, hwf, hwf⟩

theorem undo_eq {s : UndoDatabase V} {st : UndoState V} {rest : List (UndoState V)}
    {order : Iteration V} (henabled : s.disabled = false) (hactive : 0 < s.activeSessions)
    (hstack : s.stack = st :: rest) :
    s.undo order = (revert order s.db).map fun db =>
      { s with db := db, stack := rest, activeSessions := s.activeSessions - 1 } := by
  unfold UndoDatabase.undo fcAssert
  rw [if_pos henabled, if_pos hactive, hstack]
  cases revert order s.db with
  | error e => rfl
  | ok db => rfl

omit [UniqueKeys V] in
theorem merge_eq {s : UndoDatabase V} {st prev : UndoState V} {rest : List (UndoState V)}
    (hactive : 0 < s.activeSessions) (hstack : s.stack = st :: prev :: rest)
    (order : Iteration V) :
    s.merge order = (mergeStates order prev).map fun merged =>
      { s with stack := merged :: rest, activeSessions := s.activeSessions - 1 } := by
  unfold UndoDatabase.merge fcAssert
  rw [if_pos hactive, hstack]
  show (mergeStates order prev >>= fun merged => _) = _
  cases mergeStates order prev with
  | error e => rfl
  | ok merged => rfl

theorem Watching.undone {d0 : ObjectDatabase V} {st top st1 : UndoState V}
    {open_ older older1 : List (UndoState V)} {s s1 s2 : UndoDatabase V} {order : Iteration V}
    (hw : Watching d0 st open_ older s) (hw1 : Watching s.db top (st :: open_) older1 s1)
    (hactive : 0 < s1.activeSessions) (hhead : s1.stack.head? = some st1)
    (hvisits : order.Visits st1) (hundo : s1.undo order = .ok s2) :
    s2.db = s.db ∧ Watching d0 st open_ older1 s2 ∧ s2.maxSize = s1.maxSize ∧
      s2.activeSessions = s1.activeSessions - 1 := by
  have htop : top = st1 := by
    rw [hw1.stack] at hhead
    exact Option.some.inj hhead
  subst htop
  rw [undo_eq hw1.enabled hactive hw1.stack] at hundo
  cases hrevert : revert order s1.db with
  | error e =>
    rw [hrevert] at hundo
    cases hundo
  | ok db =>
    rw [hrevert] at hundo
    cases hundo
    obtain rfl := revert_eq hw1.records hvisits hrevert
    exact ⟨rfl, ⟨hw1.enabled, rfl, hw.records, hw.start_wf, hw.wf⟩, rfl, rfl⟩

theorem Watching.merged {d0 : ObjectDatabase V} {st top st1 : UndoState V}
    {open_ older older1 : List (UndoState V)} {s s1 s2 : UndoDatabase V} {order : Iteration V}
    (hw : Watching d0 st open_ older s) (hw1 : Watching s.db top (st :: open_) older1 s1)
    (hactive : 0 < s1.activeSessions) (hhead : s1.stack.head? = some st1)
    (hvisits : order.Visits st1) (hmerge : s1.merge order = .ok s2) :
    ∃ C, Causal st top ∧ Composed st top C ∧ s2.db = s1.db ∧ Watching d0 C open_ older1 s2 ∧
      s2.maxSize = s1.maxSize ∧ s2.activeSessions = s1.activeSessions - 1 := by
  have htop : top = st1 := by
    rw [hw1.stack] at hhead
    exact Option.some.inj hhead
  subst htop
  have hcausal := hw.records.causal hw1.records hw.start_wf
  obtain ⟨C, hstates, hC⟩ := mergeStates_composed hw.records hw1.records hcausal hvisits
  rw [merge_eq hactive hw1.stack, hstates] at hmerge
  cases hmerge
  exact ⟨C, hcausal, hC, rfl,
    ⟨hw1.enabled, rfl, hw.records.compose hw1.records hcausal hC, hw.start_wf, hw1.wf⟩, rfl, rfl⟩

theorem Exec.watching {body : Body V} {s s' : UndoDatabase V} (h : Exec body s s') :
    ∀ {d0 : ObjectDatabase V} {st : UndoState V} {open_ older : List (UndoState V)},
      Watching d0 st open_ older s → open_.length + body.depth ≤ s.maxSize →
      ∃ st' older', Watching d0 st' open_ older' s' ∧ s'.maxSize = s.maxSize ∧
        s'.activeSessions = s.activeSessions := by
  induction h with
  | done =>
    intro d0 st open_ older hw hdepth
    exact ⟨st, older, hw, rfl, rfl⟩
  | @create s s' index v rest hrest ih =>
    intro d0 st open_ older hw hdepth
    obtain ⟨st1, hw1, hmax, hactive⟩ := hw.create index v
    obtain ⟨st', older', hw', hmax', hactive'⟩ := ih hw1 (hmax.symm ▸ hdepth)
    exact ⟨st', older', hw', hmax'.trans hmax, hactive'.trans hactive⟩
  | @modify s s' id v rest hrest ih =>
    intro d0 st open_ older hw hdepth
    obtain ⟨st1, hw1, hmax, hactive⟩ := hw.modify id v
    obtain ⟨st', older', hw', hmax', hactive'⟩ := ih hw1 (hmax.symm ▸ hdepth)
    exact ⟨st', older', hw', hmax'.trans hmax, hactive'.trans hactive⟩
  | @remove s s' id rest hrest ih =>
    intro d0 st open_ older hw hdepth
    obtain ⟨st1, hw1, hmax, hactive⟩ := hw.remove id
    obtain ⟨st', older', hw', hmax', hactive'⟩ := ih hw1 (hmax.symm ▸ hdepth)
    exact ⟨st', older', hw', hmax'.trans hmax, hactive'.trans hactive⟩
  | @undone s s1 s2 s' inner rest order st1 hinner hhead hvisits hundo hrest ihinner ihrest =>
    intro d0 st open_ older hw hdepth
    have hdepth' : open_.length + max (inner.depth + 1) rest.depth ≤ s.maxSize := hdepth
    obtain ⟨older0, hw0⟩ := hw.startUndoSession (by omega)
    obtain ⟨top, older1, hw1, hmax1, hactive1⟩ := ihinner hw0 (by
      rw [startUndoSession_maxSize, List.length_cons]
      omega)
    rw [startUndoSession_maxSize] at hmax1
    rw [startUndoSession_activeSessions hw.enabled] at hactive1
    obtain ⟨-, hw2, hmax2, hactive2⟩ :=
      hw.undone hw1 (hactive1 ▸ Nat.succ_pos _) hhead hvisits hundo
    obtain ⟨st', older', hw', hmax', hactive'⟩ := ihrest hw2 (by
      rw [hmax2, hmax1]
      omega)
    refine ⟨st', older', hw', hmax'.trans (hmax2.trans hmax1), hactive'.trans ?_⟩
    rw [hactive2, hactive1]
    rfl
  | @merged s s1 s2 s' inner rest order st1 hinner hhead hvisits hmerge hrest ihinner ihrest =>
    intro d0 st open_ older hw hdepth
    have hdepth' : open_.length + max (inner.depth + 1) rest.depth ≤ s.maxSize := hdepth
    obtain ⟨older0, hw0⟩ := hw.startUndoSession (by omega)
    obtain ⟨top, older1, hw1, hmax1, hactive1⟩ := ihinner hw0 (by
      rw [startUndoSession_maxSize, List.length_cons]
      omega)
    rw [startUndoSession_maxSize] at hmax1
    rw [startUndoSession_activeSessions hw.enabled] at hactive1
    obtain ⟨C, -, -, -, hw2, hmax2, hactive2⟩ :=
      hw.merged hw1 (hactive1 ▸ Nat.succ_pos _) hhead hvisits hmerge
    obtain ⟨st', older', hw', hmax', hactive'⟩ := ihrest hw2 (by
      rw [hmax2, hmax1]
      omega)
    refine ⟨st', older', hw', hmax'.trans (hmax2.trans hmax1), hactive'.trans ?_⟩
    rw [hactive2, hactive1]
    rfl

end Meta1Core.Db
