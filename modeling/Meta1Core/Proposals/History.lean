import Mathlib.Data.Nat.Pairing
import Meta1Core.Proposals.Modes

/-!
# Executions in the states that a chain reaches

Along a chain the undo states stack up, and each of them records the changes since it was pushed.
-/

namespace Meta1Core.Proposals

open Db (IndexId ObjectDatabase ObjectId Records UndoDatabase UndoState UniqueKeys Watching)
open Lib (Reachable of_bind)

variable {V τ ω : Type}

inductive Event (V ω : Type) where
  | create (index : IndexId) (v : V)
  | modify (id : ObjectId) (v : V)
  | remove (id : ObjectId)
  | applied (op : Option ω)
  | clearAppliedOps
  | startUndoSession
  | undo
  | merge
  | commit
  | popCommit
  | setMaxSize (size : Nat)
  | enable
  | disable
  | pushProposal (fuel : Nat) (id : ObjectId)

namespace ChainDatabase

section

variable [UniqueKeys V] {s : UndoDatabase V} {d : ObjectDatabase V} {stack : List (UndoState V)}

def Chained : List (UndoState V) → ObjectDatabase V → Prop
  | [], _ => True
  | st :: rest, d => ∃ d0, d0.Wf ∧ Records d0 st d ∧ Chained rest d0

structure Consistent (s : UndoDatabase V) : Prop where
  wf : s.db.Wf
  chained : Chained s.stack s.db
  disabled : s.disabled = true → s.stack = []
  sessions : s.activeSessions ≤ s.stack.length

theorem Chained.take (h : Chained stack d) (size : Nat) : Chained (stack.take size) d := by
  induction stack generalizing size d with
  | nil =>
    rw [List.take_nil]
    exact h
  | cons st rest ih =>
    cases size with
    | zero =>
      rw [List.take_zero]
      trivial
    | succ size =>
      obtain ⟨d0, hwf, hrecords, hrest⟩ := h
      rw [List.take_succ_cons]
      exact ⟨d0, hwf, hrecords, ih hrest size⟩

theorem Consistent.regular (h : Consistent s) : Regular s := by
  refine ⟨h.wf, fun st rest hstack => ?_, h.disabled⟩
  have hchained := h.chained
  rw [hstack] at hchained
  obtain ⟨d0, hwf, hrecords, -⟩ := hchained
  exact ⟨d0, hwf, hrecords⟩

theorem Consistent.sessionsKept (h : Consistent s) : SessionsKept s := by
  intro hempty
  have hsessions := h.sessions
  rw [hempty] at hsessions
  exact Nat.le_zero.mp hsessions

/-- A change of the objects, which is noted unless the history is disabled.  The first one after the history
was enabled pushes an undo state. -/
structure Noted (change : UndoDatabase V → UndoDatabase V) : Prop where
  db : ∀ s t, s.db = t.db → (change s).db = (change t).db
  active : ∀ s, (change s).activeSessions = s.activeSessions
  watching : ∀ d0 st below s, Watching d0 st below [] s → ∃ st', Watching d0 st' below [] (change s)
  off : ∀ s, s.disabled = true → (change s).stack = s.stack
  first : ∀ s, s.disabled = false → s.stack = [] →
    change s = s ∨ change s = change { s with stack := [{}] }

omit [UniqueKeys V] in
theorem note_off {s : UndoDatabase V} (hoff : s.disabled = true) (f : UndoState V → UndoState V) :
    s.note f = s := by
  unfold UndoDatabase.note
  exact if_pos hoff

omit [UniqueKeys V] in
theorem note_activeSessions (s : UndoDatabase V) (f : UndoState V → UndoState V) :
    (s.note f).activeSessions = s.activeSessions := by
  unfold UndoDatabase.note
  split
  · rfl
  · split <;> rfl

omit [UniqueKeys V] in
theorem note_first {s : UndoDatabase V} (hstack : s.stack = []) (f : UndoState V → UndoState V)
    (henabled : s.disabled = false) : s.note f = { s with stack := [{}] }.note f := by
  unfold UndoDatabase.note
  rw [hstack, henabled]
  rfl

theorem noted_create (index : IndexId) (v : V) : Noted fun s => (s.create index v).1 := by
  constructor
  · exact fun s t hdb => (create_same hdb index v).1
  · intro s
    unfold UndoDatabase.create
    dsimp only
    split
    · rfl
    · exact note_activeSessions _ _
  · intro d0 st below s h
    obtain ⟨st', hwatching, -⟩ := h.create index v
    exact ⟨st', hwatching⟩
  · intro s hoff
    unfold UndoDatabase.create
    dsimp only
    split
    · rfl
    · rw [note_off]
      exact hoff
  · intro s henabled hstack
    unfold UndoDatabase.create
    dsimp only
    split
    · exact .inl rfl
    · rw [note_first]
      · exact .inr rfl
      · exact hstack
      · exact henabled

theorem noted_modify (id : ObjectId) (v : V) : Noted fun s => (s.modify id v).1 := by
  constructor
  · exact fun s t hdb => (modify_same hdb id v).1
  · intro s
    unfold UndoDatabase.modify
    split
    · rfl
    · exact note_activeSessions _ _
  · intro d0 st below s h
    obtain ⟨st', hwatching, -⟩ := h.modify id v
    exact ⟨st', hwatching⟩
  · intro s hoff
    unfold UndoDatabase.modify
    split
    · rfl
    · rw [note_off hoff]
  · intro s henabled hstack
    unfold UndoDatabase.modify
    dsimp only
    cases s.db.getObject id with
    | error e => exact .inl rfl
    | ok before =>
      dsimp only
      rw [note_first hstack _ henabled]
      exact .inr rfl

theorem noted_remove (id : ObjectId) : Noted fun s : UndoDatabase V => (s.remove id).1 := by
  constructor
  · exact fun s t hdb => (remove_same hdb id).1
  · intro s
    unfold UndoDatabase.remove
    split
    · rfl
    · exact note_activeSessions _ _
  · intro d0 st below s h
    obtain ⟨st', hwatching, -⟩ := h.remove id
    exact ⟨st', hwatching⟩
  · intro s hoff
    unfold UndoDatabase.remove
    split
    · rfl
    · rw [note_off hoff]
  · intro s henabled hstack
    unfold UndoDatabase.remove
    dsimp only
    cases s.db.getObject id with
    | error e => exact .inl rfl
    | ok before =>
      dsimp only
      rw [note_first hstack _ henabled]
      exact .inr rfl

theorem Consistent.noted {change : UndoDatabase V → UndoDatabase V} (hchange : Noted change)
    (h : Consistent s) {st : UndoState V} {rest : List (UndoState V)} (henabled : s.disabled = false)
    (hstack : s.stack = st :: rest) : Consistent (change s) := by
  have hchained := h.chained
  rw [hstack] at hchained
  obtain ⟨d0, hwf, hrecords, hrest⟩ := hchained
  have hwatching : Watching d0 st rest [] s := by
    refine ⟨henabled, ?_, hrecords, hwf, h.wf⟩
    rw [List.append_nil]
    exact hstack
  obtain ⟨st', hwatching'⟩ := hchange.watching d0 st rest s hwatching
  constructor
  · exact hwatching'.wf
  · rw [hwatching'.stack, List.append_nil]
    exact ⟨d0, hwf, hwatching'.records, hrest⟩
  · intro hdisabled
    rw [hwatching'.enabled] at hdisabled
    cases hdisabled
  · have hsessions := h.sessions
    rw [hstack] at hsessions
    rw [hwatching'.stack, List.append_nil, hchange.active]
    exact hsessions

theorem Consistent.withState (h : Consistent s) (hstack : s.stack = []) :
    Consistent { s with disabled := false, stack := [{}] } := by
  constructor
  · exact h.wf
  · exact ⟨s.db, h.wf, Records.start s.db, trivial⟩
  · exact fun hdisabled => (nomatch hdisabled)
  · show s.activeSessions ≤ 1
    rw [h.sessionsKept hstack]
    exact Nat.zero_le 1

theorem Consistent.change {change : UndoDatabase V → UndoDatabase V} (hchange : Noted change)
    (h : Consistent s) : Consistent (change s) := by
  cases hoff : s.disabled with
  | true =>
    -- the objects change as they would on an enabled history
    have hstack := h.disabled hoff
    have htwin := (h.withState hstack).noted hchange rfl rfl
    have hkept : (change s).stack = [] := (hchange.off s hoff).trans hstack
    constructor
    · rw [hchange.db s { s with disabled := false, stack := [{}] } rfl]
      exact htwin.wf
    · rw [hkept]
      trivial
    · exact fun _ => hkept
    · rw [hchange.active, h.sessionsKept hstack]
      exact Nat.zero_le _
  | false =>
    cases hstack : s.stack with
    | cons st rest => exact h.noted hchange hoff hstack
    | nil =>
      rcases hchange.first s hoff hstack with hsame | hfirst
      · rw [hsame]
        exact h
      · rw [hfirst]
        have htwin := h.withState hstack
        rw [← hoff] at htwin
        exact htwin.noted hchange hoff rfl

theorem Consistent.startUndoSession (h : Consistent s) (hroom : s.activeSessions ≤ s.maxSize) :
    Consistent s.startUndoSession := by
  unfold UndoDatabase.startUndoSession
  split
  · exact h
  · rename_i henabled
    constructor
    · exact h.wf
    · exact ⟨s.db, h.wf, Records.start s.db, h.chained.take s.maxSize⟩
    · exact fun hdisabled => absurd hdisabled henabled
    · show s.activeSessions + 1 ≤ (s.stack.take s.maxSize).length + 1
      rw [List.length_take]
      exact Nat.succ_le_succ (le_min hroom h.sessions)

theorem Consistent.reverted (h : Consistent s) {st : UndoState V} {rest : List (UndoState V)}
    (hstack : s.stack = st :: rest) {order : Db.Iteration V} (hvisits : order.Visits st)
    {db : ObjectDatabase V} (hrevert : Db.revert order s.db = .ok db) : db.Wf ∧ Chained rest db := by
  have hchained := h.chained
  rw [hstack] at hchained
  obtain ⟨d0, hwf, hrecords, hrest⟩ := hchained
  have hback : db = d0 := Db.revert_eq hrecords hvisits hrevert
  rw [hback]
  exact ⟨hwf, hrest⟩

theorem Consistent.undo (h : Consistent s) {order : Db.Iteration V} {s' : UndoDatabase V}
    (hvisits : order.Visits (s.stack.headD {})) (hundo : s.undo order = .ok s') : Consistent s' := by
  unfold UndoDatabase.undo at hundo
  obtain ⟨henabled, hundo⟩ := of_fcAssert hundo
  obtain ⟨-, hundo⟩ := of_fcAssert hundo
  cases hstack : s.stack with
  | nil =>
    rw [hstack] at hundo
    cases hundo
  | cons st rest =>
    rw [hstack] at hundo hvisits
    obtain ⟨db, hrevert, hundo⟩ := of_bind hundo
    cases hundo
    obtain ⟨hwf, hrest⟩ := h.reverted hstack hvisits hrevert
    refine ⟨hwf, hrest, fun hdisabled => ?_, ?_⟩
    · rw [henabled] at hdisabled
      cases hdisabled
    · have hsessions := h.sessions
      rw [hstack] at hsessions
      exact Nat.sub_le_of_le_add hsessions

theorem Consistent.popCommit (h : Consistent s) {order : Db.Iteration V} {s' : UndoDatabase V}
    (hvisits : order.Visits (s.stack.headD {})) (hpop : s.popCommit order = .ok s') : Consistent s' := by
  unfold UndoDatabase.popCommit at hpop
  obtain ⟨hnone, hpop⟩ := of_fcAssert hpop
  cases hstack : s.stack with
  | nil =>
    rw [hstack] at hpop
    cases hpop
  | cons st rest =>
    rw [hstack] at hpop hvisits
    obtain ⟨db, hrevert, hpop⟩ := of_bind hpop
    cases hpop
    obtain ⟨hwf, hrest⟩ := h.reverted hstack hvisits hrevert
    refine ⟨hwf, hrest, fun hdisabled => (nomatch hdisabled), ?_⟩
    show s.activeSessions ≤ rest.length
    rw [hnone]
    exact Nat.zero_le _

theorem Consistent.merge (h : Consistent s) {order : Db.Iteration V} {s' : UndoDatabase V}
    (hvisits : order.Visits (s.stack.headD {})) (hmerge : s.merge order = .ok s') : Consistent s' := by
  unfold UndoDatabase.merge at hmerge
  obtain ⟨-, hmerge⟩ := of_fcAssert hmerge
  match hstack : s.stack with
  | [] =>
    rw [hstack] at hmerge
    cases hmerge
  | [_] =>
    rw [hstack] at hmerge
    dsimp only at hmerge
    split at hmerge
    · cases hmerge
      exact ⟨h.wf, trivial, fun _ => rfl, Nat.zero_le _⟩
    · cases hmerge
  | st :: prev :: rest =>
    rw [hstack] at hmerge hvisits
    obtain ⟨merged, hstates, hmerge⟩ := of_bind hmerge
    cases hmerge
    have hchained := h.chained
    rw [hstack] at hchained
    obtain ⟨d1, -, hinner, d0, hwf, houter, hrest⟩ := hchained
    have hcausal := houter.causal hinner hwf
    obtain ⟨C, hC, hcomposed⟩ := Db.mergeStates_composed houter hinner hcausal hvisits
    rw [hstates] at hC
    cases hC
    refine ⟨h.wf, ⟨d0, hwf, houter.compose hinner hcausal hcomposed, hrest⟩, fun hdisabled => ?_, ?_⟩
    · have hempty := h.disabled hdisabled
      rw [hstack] at hempty
      cases hempty
    · have hsessions := h.sessions
      rw [hstack] at hsessions
      exact Nat.sub_le_of_le_add hsessions

end

variable [UniqueKeys (ChainObject τ ω)]

/-- What one event does; an error is the end of the program. -/
def step (c : Evaluators τ ω) (orders : Orders (ChainObject τ ω))
    (s : ChainDatabase (ChainObject τ ω) (Operation ω)) :
    Event (ChainObject τ ω) (Operation ω) →
      Except Exception (ChainDatabase (ChainObject τ ω) (Operation ω))
  | .create index v => .ok { s with undo := (s.undo.create index v).1 }
  | .modify id v => .ok { s with undo := (s.undo.modify id v).1 }
  | .remove id => .ok { s with undo := (s.undo.remove id).1 }
  | .applied op => .ok { s with appliedOps := s.appliedOps ++ [op] }
  | .clearAppliedOps => .ok { s with appliedOps := [] }
  | .startUndoSession => .ok { s with undo := s.undo.startUndoSession }
  | .undo => do
    let undo ← s.undo.undo (s.nextOrder orders)
    return { s with undo := undo, walked := s.walked + 1 }
  | .merge => do
    let undo ← s.undo.merge (s.nextOrder orders)
    return { s with undo := undo, walked := s.walked + 1 }
  | .commit => do
    let undo ← s.undo.commit
    return { s with undo := undo }
  | .popCommit => do
    let undo ← s.undo.popCommit (s.nextOrder orders)
    return { s with undo := undo, walked := s.walked + 1 }
  | .setMaxSize size => .ok { s with undo := s.undo.setMaxSize size }
  | .enable => .ok { s with undo := { s.undo with disabled := false } }
  | .disable => .ok { s with undo := { s.undo with disabled := true } }
  | .pushProposal fuel id => do
    let (s', _) ← s.pushProposal c orders fuel id
    return s'

/-- The history is disabled when a chain begins and when it is replayed, before there are undo
states.  There is room for the sessions that are open: that of a block and that of a transaction in
it. -/
def Allowed (s : ChainDatabase (ChainObject τ ω) (Operation ω)) :
    Event (ChainObject τ ω) (Operation ω) → Prop
  | .disable => s.undo.stack = []
  | .startUndoSession => s.undo.activeSessions ≤ s.undo.maxSize
  | _ => True

structure Opened (s : ChainDatabase (ChainObject τ ω) (Operation ω)) : Prop where
  wf : s.undo.db.Wf
  stack : s.undo.stack = []
  sessions : s.undo.activeSessions = 0

variable {c c' : Evaluators τ ω} {orders orders' : Orders (ChainObject τ ω)}
  {s s' t t' : ChainDatabase (ChainObject τ ω) (Operation ω)} {id : ObjectId} {thrown : Option String}

theorem Consistent.pushed_tail (h : Consistent s.undo)
    {headBlockTime : ObjectDatabase (ChainObject τ ω) → Nat}
    (hpushed : Pushed headBlockTime s id s' thrown) :
    s'.undo.stack.length = s.undo.stack.length ∧ s'.undo.stack.tail = s.undo.stack.tail := by
  cases thrown with
  | some message =>
    obtain ⟨-, hstack, -⟩ := hpushed.takenBack (Option.some_ne_none message)
    rw [hstack]
    exact ⟨rfl, rfl⟩
  | none =>
    obtain ⟨halone, hmerged⟩ := hpushed.merged rfl
    cases hold : s.undo.stack with
    | nil =>
      rw [halone hold]
      exact ⟨rfl, rfl⟩
    | cons st rest =>
      have hchained := h.chained
      rw [hold] at hchained
      obtain ⟨d0, hwf, hrecords, -⟩ := hchained
      obtain ⟨st', hnew, -⟩ := hmerged d0 st rest hold hwf hrecords
      rw [hnew]
      exact ⟨rfl, rfl⟩

theorem Consistent.pushed (h : Consistent s.undo)
    {headBlockTime : ObjectDatabase (ChainObject τ ω) → Nat}
    (hpushed : Pushed headBlockTime s id s' thrown) : Consistent s'.undo := by
  have hlength := (h.pushed_tail hpushed).1
  have hchained : Chained s'.undo.stack s'.undo.db := by
    cases thrown with
    | some message =>
      obtain ⟨hdb, hstack, -⟩ := hpushed.takenBack (Option.some_ne_none message)
      rw [hdb, hstack]
      exact h.chained
    | none =>
      obtain ⟨halone, hmerged⟩ := hpushed.merged rfl
      cases hold : s.undo.stack with
      | nil =>
        rw [halone hold]
        trivial
      | cons st rest =>
        have hchained := h.chained
        rw [hold] at hchained
        obtain ⟨d0, hwf, hrecords, hrest⟩ := hchained
        obtain ⟨st', hnew, hrecords'⟩ := hmerged d0 st rest hold hwf hrecords
        rw [hnew]
        exact ⟨d0, hwf, hrecords', hrest⟩
  refine ⟨hpushed.wf, hchained, fun hdisabled => ?_, ?_⟩
  · rw [hpushed.disabled] at hdisabled
    rw [h.disabled hdisabled] at hlength
    exact List.length_eq_zero_iff.mp hlength
  · rw [hpushed.active, hlength]
    exact h.sessions

theorem Consistent.step {e : Event (ChainObject τ ω) (Operation ω)} (h : Consistent s.undo)
    (hallowed : Allowed s e) (hstep : s.step c orders e = .ok s') : Consistent s'.undo := by
  have hvisits : (s.nextOrder orders).Visits (s.undo.stack.headD {}) := orders.visits _ _
  cases e with
  | create index v =>
    cases hstep
    exact h.change (noted_create index v)
  | modify id v =>
    cases hstep
    exact h.change (noted_modify id v)
  | remove id =>
    cases hstep
    exact h.change (noted_remove id)
  | applied op =>
    cases hstep
    exact h
  | clearAppliedOps =>
    cases hstep
    exact h
  | startUndoSession =>
    cases hstep
    exact h.startUndoSession hallowed
  | undo =>
    obtain ⟨undo, hundo, hstep⟩ := of_bind hstep
    cases hstep
    exact h.undo hvisits hundo
  | merge =>
    obtain ⟨undo, hmerge, hstep⟩ := of_bind hstep
    cases hstep
    exact h.merge hvisits hmerge
  | commit =>
    obtain ⟨undo, hcommit, hstep⟩ := of_bind hstep
    obtain ⟨-, hcommit⟩ := of_fcAssert hcommit
    cases hcommit
    cases hstep
    exact ⟨h.wf, h.chained, h.disabled, (Nat.sub_le _ 1).trans h.sessions⟩
  | popCommit =>
    obtain ⟨undo, hpop, hstep⟩ := of_bind hstep
    cases hstep
    exact h.popCommit hvisits hpop
  | setMaxSize size =>
    cases hstep
    exact ⟨h.wf, h.chained, h.disabled, h.sessions⟩
  | enable =>
    cases hstep
    exact ⟨h.wf, h.chained, fun hdisabled => (nomatch hdisabled), h.sessions⟩
  | disable =>
    cases hstep
    exact ⟨h.wf, h.chained, fun _ => hallowed, h.sessions⟩
  | pushProposal fuel id =>
    obtain ⟨⟨s1, thrown⟩, hpush, hstep⟩ := of_bind hstep
    cases hstep
    exact h.pushed (pushes_pushProposal c orders fuel s id s' thrown h.regular hpush)

theorem consistent_of_reachable (h : Reachable (step c orders) Opened Allowed s) : Consistent s.undo := by
  refine h.invariant (fun s => Consistent s.undo) (fun s hopened => ?_)
    (fun s e s' h hallowed hstep => h.step hallowed hstep)
  refine ⟨hopened.wf, ?_, fun _ => hopened.stack, ?_⟩
  · rw [hopened.stack]
    trivial
  · rw [hopened.sessions]
    exact Nat.zero_le _

end ChainDatabase

instance : UniqueKeys (ChainObject Unit Bool) where
  clash _ _ := False
  symm _ _ := id
  decidable _ _ := inferInstanceAs (Decidable False)

def indexCode (index : IndexId) : Nat := Nat.pair index.space index.type

theorem indexCode_injective : Function.Injective indexCode := by
  rintro ⟨s, t⟩ ⟨s', t'⟩ h
  obtain ⟨rfl, rfl⟩ := Nat.pair_eq_pair.mp h
  rfl

def objectCode (id : ObjectId) : Nat := Nat.pair (indexCode id.index) id.number

theorem objectCode_injective : Function.Injective objectCode := by
  rintro ⟨i, n⟩ ⟨i', n'⟩ h
  obtain ⟨hindex, hnumber⟩ := Nat.pair_eq_pair.mp h
  exact congrArg₂ ObjectId.mk (indexCode_injective hindex) hnumber

def sortedOrders (V : Type) : Orders V where
  order _ st := {
    oldValues := (Lib.Table.sortedKeys objectCode objectCode_injective st.oldValues.keys).filterMap fun id =>
      (st.oldValues.lookup id).map (id, ·)
    newIds := Lib.Table.sortedKeys objectCode objectCode_injective st.newIds
    oldIndexNextIds := (Lib.Table.sortedKeys indexCode indexCode_injective st.oldIndexNextIds.keys).filterMap
      fun index => (st.oldIndexNextIds.lookup index).map (index, ·)
    removed := (Lib.Table.sortedKeys objectCode objectCode_injective st.removed.keys).filterMap fun id =>
      (st.removed.lookup id).map (id, ·) }
  visits _ st := by
    have hnew := Lib.Table.coe_sortedKeys objectCode objectCode_injective st.newIds
    refine ⟨Lib.Table.visits_sorted _ _ _, ⟨?_, fun id => ?_⟩, Lib.Table.visits_sorted _ _ _, Lib.Table.visits_sorted _ _ _⟩
    · exact Multiset.coe_nodup.mp (hnew ▸ st.newIds.nodup)
    · rw [← Multiset.mem_coe, hnew]
      rfl

/-- One of the other operations creates an object, and the other one throws. -/
def someEvaluators (time : Nat) : Evaluators Unit Bool where
  prepareFee _ _ := .done
  payFee _ _ := .done
  adjustBalance _ _ := .done
  evaluate op _ := match op with
    | .other true => .create ⟨2, 0⟩ (.other ()) fun _ _ => .done
    | .other false => .throw "Assert Exception"
    | _ => .done
  isAuthorizedToExecute _ _ := true
  headBlockTime _ := time
  activeWitnesses _ := 11

def proposing (ops : List (Operation Bool)) : ChainObject Unit Bool :=
  .proposal {
    expirationTime := 1600000000
    reviewPeriodTime := none
    operations := ops
    proposer := 7
    committeeReviewPeriod := 1209600 }

def firstUpdate : Operation Bool := .update { feePayingAccount := 7, proposal := 0 }

def emptyChain (disabled : Bool) : ChainDatabase (ChainObject Unit Bool) (Operation Bool) where
  undo := {
    db := { objects := ∅, nextId := fun _ => 0 }
    disabled := disabled
    activeSessions := 0
    stack := []
    maxSize := 256 }

/-- The second and the third proposal execute the first one; the second one then throws. -/
def threeProposals (disabled : Bool) : ChainDatabase (ChainObject Unit Bool) (Operation Bool) where
  undo :=
    let u := ((emptyChain disabled).undo.create proposalIndex (proposing [.other true])).1
    let u := (u.create proposalIndex (proposing [.other true, firstUpdate, .other false])).1
    (u.startUndoSession.create proposalIndex (proposing [.other true, firstUpdate])).1

namespace ChainDatabase

theorem threeProposals_reachable (time : Nat) (disabled : Bool) :
    Reachable (step (someEvaluators time) (sortedOrders _)) Opened Allowed (threeProposals disabled) := by
  have hopened : Opened (emptyChain disabled) := ⟨by cases disabled <;> decide, rfl, rfl⟩
  have hcreate {s : ChainDatabase (ChainObject Unit Bool) (Operation Bool)} (v : ChainObject Unit Bool)
      (hs : Reachable (step (someEvaluators time) (sortedOrders _)) Opened Allowed s) :
      Reachable (step (someEvaluators time) (sortedOrders _)) Opened Allowed
        { s with undo := (s.undo.create proposalIndex v).1 } :=
    Reachable.step (e := Event.create proposalIndex v) hs trivial rfl
  have htwo := hcreate (proposing [.other true, firstUpdate, .other false])
    (hcreate (proposing [.other true]) (.init hopened))
  have hstarted := Reachable.step (e := Event.startUndoSession) htwo
    (show _ ≤ _ by cases disabled <;> decide) rfl
  exact hcreate (proposing [.other true, firstUpdate]) hstarted

end ChainDatabase

end Meta1Core.Proposals
