import Meta1Core.Db.Session

/-!
# Undo is exact, merge is composition

Both hold up to unique keys.  An old value is put back while the objects that came after it are
still there, so it must not share a unique key with one of them; and a `modify` that was refused
has dropped an object that `undo` then looks for.
-/

namespace Meta1Core.Db

open Lib (Succeeds)

variable {V : Type} [UniqueKeys V]

structure AccountBalance where
  owner : Nat
  assetType : Nat
  balance : Int
  maintenanceFlag : Bool := false
  deriving DecidableEq

/-- The unique key `by_asset_balance`; `by_id` is the key of the table. -/
instance : UniqueKeys AccountBalance where
  clash v w := v.assetType = w.assetType ∧ v.balance = w.balance ∧ v.owner = w.owner
  symm _ _ := fun ⟨hasset, hbalance, howner⟩ => ⟨hasset.symm, hbalance.symm, howner.symm⟩
  decidable _ _ := inferInstanceAs (Decidable (_ ∧ _ ∧ _))

/-- `implementation_ids`, `impl_account_balance_object_type` -/
def balanceIndex : IndexId := ⟨2, 5⟩

def oneBalance : UndoDatabase AccountBalance where
  db := {
    objects := Finmap.singleton ⟨balanceIndex, 0⟩ { owner := 1, assetType := 0, balance := 100 }
    nextId := fun index => if index = balanceIndex then 1 else 0 }
  disabled := false
  activeSessions := 0
  stack := []
  maxSize := 256

def handOver (rest : Body AccountBalance) : Body AccountBalance :=
  .modify ⟨balanceIndex, 0⟩ { owner := 2, assetType := 0, balance := 100 } rest

def handedOver : UndoDatabase AccountBalance :=
  (oneBalance.startUndoSession.modify ⟨balanceIndex, 0⟩
    { owner := 2, assetType := 0, balance := 100 }).1

def refill (rest : Body AccountBalance) : Body AccountBalance :=
  .create balanceIndex { owner := 1, assetType := 0, balance := 100 } rest

/-! ## The ends of a session -/

/-- Whatever the order of its loops, `undo` returns and leaves a state that satisfies `P`. -/
def AlwaysUndoes (s : UndoDatabase V) (P : UndoDatabase V → Prop) : Prop :=
  ∀ st, s.stack.head? = some st → ∀ order : Iteration V, order.Visits st →
    Succeeds (s.undo order) P

/-- Whatever the order of its loops, `pop_commit` after `commit` returns and leaves a state that
satisfies `P`. -/
def AlwaysPops (s : UndoDatabase V) (P : UndoDatabase V → Prop) : Prop :=
  ∀ st, s.stack.head? = some st → ∀ order : Iteration V, order.Visits st →
    Succeeds (s.commit >>= (·.popCommit order)) P

section Watching

variable {d0 : ObjectDatabase V} {st : UndoState V} {open_ older : List (UndoState V)}
  {s : UndoDatabase V}

theorem Watching.alwaysUndoes_iff (h : Watching d0 st open_ older s)
    (hactive : 0 < s.activeSessions) (P : UndoDatabase V → Prop) :
    AlwaysUndoes s P ↔ (Intact st s.db ∧ Compatible d0 s.db) ∧
      P { s with db := d0, stack := open_ ++ older, activeSessions := s.activeSessions - 1 } := by
  have hhead : s.stack.head? = some st := by
    rw [h.stack]
    rfl
  rw [← revert_iff h.records h.start_wf h.wf]
  constructor
  · intro hall
    have hdb : ∀ order : Iteration V, order.Visits st → revert order s.db = .ok d0 ∧
        P { s with db := d0, stack := open_ ++ older,
                   activeSessions := s.activeSessions - 1 } := by
      intro order hvisits
      obtain ⟨r, hr, hP⟩ := hall st hhead order hvisits
      rw [undo_eq h.enabled hactive h.stack] at hr
      cases hrevert : revert order s.db with
      | error e =>
        rw [hrevert] at hr
        cases hr
      | ok db =>
        rw [hrevert] at hr
        cases hr
        obtain rfl := revert_eq h.records hvisits hrevert
        exact ⟨rfl, hP⟩
    obtain ⟨order, hvisits⟩ := exists_visits st
    exact ⟨fun order hvisits => (hdb order hvisits).1, (hdb order hvisits).2⟩
  · rintro ⟨hall, hP⟩ st' hhead' order hvisits
    obtain rfl : st = st' := Option.some.inj (hhead.symm.trans hhead')
    rw [undo_eq h.enabled hactive h.stack, hall order hvisits]
    exact ⟨_, rfl, hP⟩

theorem Watching.alwaysPops_iff (h : Watching d0 st open_ older s) (hactive : s.activeSessions = 1) :
    AlwaysPops s (·.db = d0) ↔ Intact st s.db ∧ Compatible d0 s.db := by
  have hhead : s.stack.head? = some st := by
    rw [h.stack]
    rfl
  have hpop : ∀ order : Iteration V, (s.commit >>= (·.popCommit order)) =
      (revert order s.db).map fun db =>
        { s with db := db, stack := open_ ++ older, activeSessions := 0, disabled := false } := by
    intro order
    unfold UndoDatabase.commit UndoDatabase.popCommit fcAssert
    rw [hactive, h.stack]
    show (revert order s.db >>= fun db => _) = _
    cases revert order s.db with
    | error e => rfl
    | ok db => rfl
  rw [← revert_iff h.records h.start_wf h.wf]
  constructor
  · intro hall order hvisits
    obtain ⟨r, hr, hdb⟩ := hall st hhead order hvisits
    rw [hpop] at hr
    cases hrevert : revert order s.db with
    | error e =>
      rw [hrevert] at hr
      cases hr
    | ok db =>
      rw [hrevert] at hr
      cases hr
      exact congrArg Except.ok hdb
  · intro hall st' hhead' order hvisits
    obtain rfl : st = st' := Option.some.inj (hhead.symm.trans hhead')
    rw [hpop, hall order hvisits]
    exact ⟨_, rfl, rfl⟩

end Watching

/-- After any calls in a session, `undo` restores the objects and the next ids of its start exactly
when nothing that the undo state names is gone and no earlier value is in the way; `commit` and
`pop_commit` do so for an outermost session. -/
theorem undo_exact {s s' : UndoDatabase V} {body : Body V} (henabled : s.disabled = false)
    (hwf : s.db.Wf) (hdepth : body.depth ≤ s.maxSize) (h : Exec body s.startUndoSession s') :
    ∃ st older, s'.stack = st :: older ∧
      (AlwaysUndoes s' (·.db = s.db) ↔ Intact st s'.db ∧ Compatible s.db s'.db) ∧
      (s.activeSessions = 0 →
        (AlwaysPops s' (·.db = s.db) ↔ Intact st s'.db ∧ Compatible s.db s'.db)) := by
  obtain ⟨older0, hw0⟩ := watching_start henabled hwf
  obtain ⟨st, older, hw, -, hactive⟩ := h.watching hw0 (by
    rw [startUndoSession_maxSize, List.length_nil, Nat.zero_add]
    exact hdepth)
  rw [startUndoSession_activeSessions henabled] at hactive
  refine ⟨st, [] ++ older, hw.stack, ?_, fun hnone => ?_⟩
  · rw [hw.alwaysUndoes_iff (hactive ▸ Nat.succ_pos _)]
    exact and_iff_left rfl
  · exact hw.alwaysPops_iff (by rw [hactive, hnone])

theorem undo_exact_handOver :
    ∃ s', Exec (handOver .done) oneBalance.startUndoSession s' ∧
      ∃ st older, s'.stack = st :: older ∧
        (AlwaysUndoes s' (·.db = oneBalance.db) ↔
          Intact st s'.db ∧ Compatible oneBalance.db s'.db) ∧
        (oneBalance.activeSessions = 0 → (AlwaysPops s' (·.db = oneBalance.db) ↔
          Intact st s'.db ∧ Compatible oneBalance.db s'.db)) :=
  ⟨_, .modify .done, undo_exact rfl (by decide) (by decide) (.modify .done)⟩

/-- The first owner of a balance gets another one of the same amount: `undo` and `pop_commit` put
the old balance back before they remove the other one, and throw. -/
theorem undo_refilled :
    ∃ s', Exec (handOver (refill .done)) oneBalance.startUndoSession s' ∧
      ¬AlwaysUndoes s' (·.db = oneBalance.db) ∧ ¬AlwaysPops s' (·.db = oneBalance.db) := by
  have hexec : Exec (handOver (refill .done)) oneBalance.startUndoSession _ :=
    .modify (.create .done)
  obtain ⟨older0, hw0⟩ := watching_start (s := oneBalance) rfl (by decide)
  obtain ⟨st, older, hw, -, hactive⟩ := hexec.watching hw0 (by decide)
  refine ⟨_, hexec, ?_, ?_⟩
  · rw [hw.alwaysUndoes_iff (by rw [hactive]; decide)]
    intro hundoes
    exact absurd hundoes.1.2 (by decide)
  · rw [hw.alwaysPops_iff hactive]
    intro hpops
    exact absurd hpops.2 (by decide)

/-- Undoing the merged state leads where undoing the inner and then the outer state leads. -/
def SameEffect (merged separate : UndoDatabase V) : Prop :=
  ∀ d, AlwaysUndoes merged (·.db = d) ↔
    AlwaysUndoes separate fun r => AlwaysUndoes r (·.db = d)

theorem Watching.merge_sameEffect_iff {d0 : ObjectDatabase V} {s1 s2 : UndoDatabase V}
    {A B : UndoState V} {older1 older : List (UndoState V)} {order : Iteration V}
    (hA : Watching d0 A [] older1 s1) (hB : Watching s1.db B [A] older s2)
    (hactive : 1 < s2.activeSessions) (hvisits : order.Visits B) :
    ∃ s3, s2.merge order = .ok s3 ∧ s3.db = s2.db ∧
      (SameEffect s3 s2 ↔ (Intact A s1.db → Intact B s2.db →
        (Compatible d0 s2.db ↔ Compatible s1.db s2.db ∧ Compatible d0 s1.db))) := by
  have hcausal := hA.records.causal hB.records hA.start_wf
  obtain ⟨C, hstates, hC⟩ := mergeStates_composed hA.records hB.records hcausal hvisits
  have hmerge := merge_eq (Nat.zero_lt_of_lt hactive) hB.stack order
  rw [hstates] at hmerge
  refine ⟨_, hmerge, rfl, ?_⟩
  -- the session over the merged state, and the outer session once the inner one is undone
  have hmerged : Watching d0 C [] older
      { s2 with stack := C :: older, activeSessions := s2.activeSessions - 1 } :=
    ⟨hB.enabled, rfl, hA.records.compose hB.records hcausal hC, hA.start_wf, hB.wf⟩
  have hseparate : Watching d0 A [] older
      { s2 with db := s1.db, stack := A :: older, activeSessions := s2.activeSessions - 1 } :=
    ⟨hB.enabled, rfl, hA.records, hA.start_wf, hA.wf⟩
  have hleft : ∀ d, AlwaysUndoes
      { s2 with stack := C :: older, activeSessions := s2.activeSessions - 1 } (·.db = d) ↔
      ((Intact A s1.db ∧ Intact B s2.db) ∧ Compatible d0 s2.db) ∧ d0 = d := by
    intro d
    rw [hmerged.alwaysUndoes_iff (Nat.sub_pos_of_lt hactive), ← hC.intact_iff hB.records hcausal]
  have hright : ∀ d, AlwaysUndoes s2 (fun r => AlwaysUndoes r (·.db = d)) ↔
      (Intact B s2.db ∧ Compatible s1.db s2.db) ∧
        (Intact A s1.db ∧ Compatible d0 s1.db) ∧ d0 = d := by
    intro d
    rw [hB.alwaysUndoes_iff (Nat.zero_lt_of_lt hactive)]
    refine and_congr_right fun _ => ?_
    exact hseparate.alwaysUndoes_iff (Nat.sub_pos_of_lt hactive) _
  constructor
  · intro hsame hintactA hintactB
    have hd := (hleft d0).symm.trans ((hsame d0).trans (hright d0))
    constructor
    · intro hcompatible
      obtain ⟨⟨-, hB'⟩, ⟨-, hA'⟩, -⟩ := hd.mp ⟨⟨⟨hintactA, hintactB⟩, hcompatible⟩, rfl⟩
      exact ⟨hB', hA'⟩
    · rintro ⟨hB', hA'⟩
      exact (hd.mpr ⟨⟨hintactB, hB'⟩, ⟨hintactA, hA'⟩, rfl⟩).1.2
  · intro hiff d
    refine (hleft d).trans (Iff.trans ⟨?_, ?_⟩ (hright d).symm)
    · rintro ⟨⟨⟨hintactA, hintactB⟩, hcompatible⟩, hd⟩
      obtain ⟨hB', hA'⟩ := (hiff hintactA hintactB).mp hcompatible
      exact ⟨⟨hintactB, hB'⟩, ⟨hintactA, hA'⟩, hd⟩
    · rintro ⟨⟨hintactB, hB'⟩, ⟨hintactA, hA'⟩, hd⟩
      exact ⟨⟨⟨hintactA, hintactB⟩, (hiff hintactA hintactB).mpr ⟨hB', hA'⟩⟩, hd⟩

theorem Exec.watching_inner {s s1 s2 : UndoDatabase V} {outer inner : Body V}
    (henabled : s.disabled = false) (hwf : s.db.Wf) (houterDepth : outer.depth ≤ s.maxSize)
    (hinnerDepth : inner.depth < s.maxSize) (houter : Exec outer s.startUndoSession s1)
    (hinner : Exec inner s1.startUndoSession s2) :
    ∃ A B older1 older, Watching s.db A [] older1 s1 ∧ Watching s1.db B [A] older s2 ∧
      s2.activeSessions = s.activeSessions + 2 := by
  obtain ⟨older0, hw0⟩ := watching_start henabled hwf
  obtain ⟨A, older1, hA, hmax1, hactive1⟩ := houter.watching hw0 (by
    rw [startUndoSession_maxSize, List.length_nil, Nat.zero_add]
    exact houterDepth)
  rw [startUndoSession_maxSize] at hmax1
  rw [startUndoSession_activeSessions henabled] at hactive1
  obtain ⟨older2, hw2⟩ := hA.startUndoSession (by
    rw [hmax1]
    exact Nat.zero_lt_of_lt hinnerDepth)
  obtain ⟨B, older3, hB, -, hactive2⟩ := hinner.watching hw2 (by
    rw [startUndoSession_maxSize, hmax1, List.length_singleton]
    omega)
  rw [startUndoSession_activeSessions hA.enabled, hactive1] at hactive2
  exact ⟨A, B, older1, older3, hA, hB, hactive2⟩

/-- `merge` of the undo states of a session and of one inside of it never meets a case marked N/A,
and returns.  Its undo has the effect of both undos exactly when the earlier values are in the way of
both or of neither, or something is gone. -/
theorem merge_composes {s s1 s2 : UndoDatabase V} {outer inner : Body V}
    (henabled : s.disabled = false) (hwf : s.db.Wf) (houterDepth : outer.depth ≤ s.maxSize)
    (hinnerDepth : inner.depth < s.maxSize) (houter : Exec outer s.startUndoSession s1)
    (hinner : Exec inner s1.startUndoSession s2) :
    ∃ A B older, s2.stack = B :: A :: older ∧ Causal A B ∧
      ∀ order : Iteration V, order.Visits B → ∃ s3, s2.merge order = .ok s3 ∧
        s3.db = s2.db ∧
        (SameEffect s3 s2 ↔ (Intact A s1.db → Intact B s2.db →
          (Compatible s.db s2.db ↔ Compatible s1.db s2.db ∧ Compatible s.db s1.db))) := by
  obtain ⟨A, B, older1, older, hA, hB, hactive⟩ :=
    Exec.watching_inner henabled hwf houterDepth hinnerDepth houter hinner
  refine ⟨A, B, older, hB.stack, hA.records.causal hB.records hwf, fun order hvisits => ?_⟩
  exact hA.merge_sameEffect_iff hB (by omega) hvisits

theorem merge_composes_handOver :
    ∃ s1 s2, Exec (handOver .done) oneBalance.startUndoSession s1 ∧
      Exec (.remove ⟨balanceIndex, 0⟩ .done) s1.startUndoSession s2 ∧
      ∃ A B older, s2.stack = B :: A :: older ∧ Causal A B ∧
        ∀ order : Iteration AccountBalance, order.Visits B → ∃ s3, s2.merge order = .ok s3 ∧
          s3.db = s2.db ∧
          (SameEffect s3 s2 ↔ (Intact A s1.db → Intact B s2.db → (Compatible oneBalance.db s2.db ↔
              Compatible s1.db s2.db ∧ Compatible oneBalance.db s1.db))) :=
  ⟨_, _, .modify .done, .remove .done, merge_composes rfl (by decide) (by decide) (by decide)
    (.modify .done) (.remove .done)⟩

/-- The first owner gets another balance in a session inside: undoing both sessions goes back to the
start, undoing the merged state throws. -/
theorem merge_refilled :
    ∃ s1 s2, Exec (handOver .done) oneBalance.startUndoSession s1 ∧
      Exec (refill .done) s1.startUndoSession s2 ∧
      ∃ B order, s2.stack.head? = some B ∧ order.Visits B ∧
        ∃ s3, s2.merge order = .ok s3 ∧ ¬SameEffect s3 s2 := by
  have houter : Exec (handOver .done) oneBalance.startUndoSession handedOver := .modify .done
  have hinner : Exec (refill .done) handedOver.startUndoSession _ := .create .done
  obtain ⟨A, B, older1, older, hA, hB, hactive⟩ :=
    Exec.watching_inner rfl (by decide) (by decide) (by decide) houter hinner
  obtain ⟨order, hvisits⟩ := exists_visits B
  obtain ⟨s3, hmerge, -, hiff⟩ := hA.merge_sameEffect_iff hB (by rw [hactive]; decide) hvisits
  refine ⟨_, _, houter, hinner, B, order, by rw [hB.stack]; rfl, hvisits, s3, hmerge, ?_⟩
  rw [hiff]
  intro hall
  obtain rfl := (List.cons.inj hA.stack).1
  obtain rfl := (List.cons.inj hB.stack).1
  exact absurd (hall (by decide) (by decide)) (by decide)

end Meta1Core.Db
