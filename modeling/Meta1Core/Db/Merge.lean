import Meta1Core.Db.Revert

/-!
# Merging two undo states

`merge` folds the inner state into the outer one, object by object, along the 4x4 table of the
source.
-/

namespace Meta1Core.Db

open Lib (Table)

variable {V : Type} {A B C : UndoState V}

/-- None of the cases that the table of `merge` marks N/A. -/
structure Causal (A B : UndoState V) : Prop where
  /-- `new+new`, `upd+new`, `del+new` -/
  new : ∀ id ∈ B.newIds, id ∉ A.newIds ∧ A.oldValues.lookup id = none ∧ A.removed.lookup id = none
  /-- `del+upd` -/
  upd : ∀ id was, B.oldValues.lookup id = some was → A.removed.lookup id = none
  /-- `del+del` -/
  del : ∀ id was, B.removed.lookup id = some was → A.removed.lookup id = none

theorem Records.causal [UniqueKeys V] {d0 d1 d : ObjectDatabase V} (hA : Records d0 A d1)
    (hB : Records d1 B d) (hd0 : d0.Wf) : Causal A B := by
  have hstart : ∀ id was, d0.objects.lookup id = some was → ∀ hnew : id ∈ B.newIds, False := by
    intro id was hwas hnew
    obtain ⟨-, -, hle, -⟩ := hB.created id hnew
    have hlt := hd0.live_lt id was hwas
    have hle0 := hA.next_le id.index
    omega
  refine ⟨fun id hnew => ⟨fun hnewA => ?_, ?_, ?_⟩, fun id was hwas => ?_, fun id was hwas => ?_⟩
  · obtain ⟨-, -, -, hlt⟩ := hA.created id hnewA
    obtain ⟨-, -, hle, -⟩ := hB.created id hnew
    omega
  · cases hold : A.oldValues.lookup id with
    | none => rfl
    | some was => exact (hstart id was (hA.updated id was hold).1 hnew).elim
  · cases hremoved : A.removed.lookup id with
    | none => rfl
    | some was => exact (hstart id was (hA.removed id was hremoved).1 hnew).elim
  · exact hA.removed_eq_none_of_live (hB.updated id was hwas).1
  · exact hA.removed_eq_none_of_live (hB.removed id was hwas).1

variable {entries : List (ObjectId × V)} {prev : UndoState V}

theorem mergeOldValues_spec (hnodup : (entries.map Prod.fst).Nodup)
    (hcausal : ∀ e ∈ entries, prev.removed.lookup e.1 = none) :
    ∃ oldValues, mergeOldValues entries prev = .ok { prev with oldValues := oldValues } ∧
      (∀ id, id ∉ entries.map Prod.fst → oldValues.lookup id = prev.oldValues.lookup id) ∧
      ∀ e ∈ entries, oldValues.lookup e.1 =
        (prev.oldValues.lookup e.1).or (if e.1 ∈ prev.newIds then none else some e.2) := by
  induction entries generalizing prev with
  | nil => exact ⟨prev.oldValues, rfl, fun _ _ => rfl, fun e he => nomatch he⟩
  | cons e rest ih =>
    obtain ⟨id, was⟩ := e
    rw [List.map_cons, List.nodup_cons] at hnodup
    have hne : ∀ e ∈ rest, e.1 ≠ id := fun e he heq =>
      hnodup.1 (heq ▸ (List.mem_map_of_mem he : e.1 ∈ rest.map Prod.fst))
    -- the state after this turn differs from `prev` at most in the old value of `id`
    suffices hturn : ∃ next : Table ObjectId V,
        mergeOldValues ((id, was) :: rest) prev =
          mergeOldValues rest { prev with oldValues := next } ∧
        (∀ id' ≠ id, next.lookup id' = prev.oldValues.lookup id') ∧
        next.lookup id =
          (prev.oldValues.lookup id).or (if id ∈ prev.newIds then none else some was) by
      obtain ⟨next, hstep, hother, hself⟩ := hturn
      obtain ⟨oldValues, hrest, hframe, hentries⟩ :=
        @ih { prev with oldValues := next } hnodup.2
          fun e he => hcausal e (List.mem_cons_of_mem _ he)
      refine ⟨oldValues, hstep.trans hrest, fun id' hid' => ?_, fun e he => ?_⟩
      · rw [List.map_cons, List.mem_cons, not_or] at hid'
        rw [hframe id' hid'.2]
        exact hother id' hid'.1
      · rcases List.mem_cons.mp he with rfl | he
        · rw [hframe id hnodup.1]
          exact hself
        · rw [hentries e he]
          dsimp only
          rw [hother e.1 (hne e he)]
    have hcausal' : id ∉ prev.removed :=
      Finmap.lookup_eq_none.mp (hcausal _ List.mem_cons_self)
    by_cases hnew : id ∈ prev.newIds
    · refine ⟨prev.oldValues, ?_, fun _ _ => rfl, ?_⟩
      · rw [mergeOldValues, if_pos hnew]
      · rw [if_pos hnew, Option.or_none]
    · cases hold : prev.oldValues.lookup id with
      | some x =>
        refine ⟨prev.oldValues, ?_, fun _ _ => rfl, ?_⟩
        · rw [mergeOldValues, if_neg hnew, if_pos (Finmap.mem_iff.mpr ⟨x, hold⟩)]
        · rw [hold, Option.some_or]
      | none =>
        refine ⟨prev.oldValues.insert id was, ?_, fun id' hid' => ?_, ?_⟩
        · rw [mergeOldValues, if_neg hnew, if_neg (Finmap.lookup_eq_none.mp hold), if_neg hcausal']
        · exact Finmap.lookup_insert_of_ne _ hid'
        · rw [if_neg hnew, Option.none_or, Finmap.lookup_insert]

theorem mergeNewIds_eq (ids : List ObjectId) (prev : UndoState V) :
    mergeNewIds ids prev = { prev with newIds := prev.newIds ∪ ids.toFinset } := by
  induction ids generalizing prev with
  | nil => simp [mergeNewIds]
  | cons id rest ih =>
    rw [mergeNewIds, ih]
    simp [Finset.insert_union, Finset.union_insert]

theorem mergeNextIds_spec (entries : List (IndexId × Nat)) (prev : UndoState V)
    (hnodup : (entries.map Prod.fst).Nodup) :
    ∃ next, mergeNextIds entries prev = { prev with oldIndexNextIds := next } ∧
      (∀ index, index ∉ entries.map Prod.fst →
        next.lookup index = prev.oldIndexNextIds.lookup index) ∧
      ∀ e ∈ entries, next.lookup e.1 = (prev.oldIndexNextIds.lookup e.1).or (some e.2) := by
  induction entries generalizing prev with
  | nil => exact ⟨prev.oldIndexNextIds, rfl, fun _ _ => rfl, fun e he => nomatch he⟩
  | cons e rest ih =>
    obtain ⟨index, noted⟩ := e
    rw [List.map_cons, List.nodup_cons] at hnodup
    have hne : ∀ e ∈ rest, e.1 ≠ index := fun e he heq =>
      hnodup.1 (heq ▸ (List.mem_map_of_mem he : e.1 ∈ rest.map Prod.fst))
    suffices hturn : ∃ turn : Table IndexId Nat,
        mergeNextIds ((index, noted) :: rest) prev =
          mergeNextIds rest { prev with oldIndexNextIds := turn } ∧
        (∀ index' ≠ index, turn.lookup index' = prev.oldIndexNextIds.lookup index') ∧
        turn.lookup index = (prev.oldIndexNextIds.lookup index).or (some noted) by
      obtain ⟨turn, hstep, hother, hself⟩ := hturn
      obtain ⟨next, hrest, hframe, hentries⟩ :=
        ih { prev with oldIndexNextIds := turn } hnodup.2
      refine ⟨next, hstep.trans hrest, fun index' hindex' => ?_, fun e he => ?_⟩
      · rw [List.map_cons, List.mem_cons, not_or] at hindex'
        rw [hframe index' hindex'.2]
        exact hother index' hindex'.1
      · rcases List.mem_cons.mp he with rfl | he
        · rw [hframe index hnodup.1]
          exact hself
        · rw [hentries e he]
          dsimp only
          rw [hother e.1 (hne e he)]
    cases hold : prev.oldIndexNextIds.lookup index with
    | some x =>
      refine ⟨prev.oldIndexNextIds, ?_, fun _ _ => rfl, ?_⟩
      · rw [mergeNextIds, if_pos (Finmap.mem_iff.mpr ⟨x, hold⟩)]
      · rw [hold, Option.some_or]
    | none =>
      refine ⟨prev.oldIndexNextIds.insert index noted, ?_, fun index' hindex' => ?_, ?_⟩
      · rw [mergeNextIds, if_neg (Finmap.lookup_eq_none.mp hold)]
      · exact Finmap.lookup_insert_of_ne _ hindex'
      · rw [Option.none_or, Finmap.lookup_insert]

structure RemovedAt (prev next : UndoState V) (id : ObjectId) (was : V) : Prop where
  newIds : id ∉ next.newIds
  oldValues : next.oldValues.lookup id = if id ∈ prev.newIds then prev.oldValues.lookup id else none
  removed : next.removed.lookup id =
    if id ∈ prev.newIds then none else some ((prev.oldValues.lookup id).getD was)

structure AgreeAt (prev next : UndoState V) (id : ObjectId) : Prop where
  newIds : id ∈ next.newIds ↔ id ∈ prev.newIds
  oldValues : next.oldValues.lookup id = prev.oldValues.lookup id
  removed : next.removed.lookup id = prev.removed.lookup id

theorem mergeRemoved_cons {id : ObjectId} (was : V) (rest : List (ObjectId × V))
    (hcausal : prev.removed.lookup id = none) :
    ∃ next, mergeRemoved ((id, was) :: rest) prev = mergeRemoved rest next ∧
      RemovedAt prev next id was ∧ (∀ id' ≠ id, AgreeAt prev next id') ∧
      next.oldIndexNextIds = prev.oldIndexNextIds := by
  by_cases hnew : id ∈ prev.newIds
  · refine ⟨{ prev with newIds := prev.newIds.erase id }, ?_, ⟨?_, ?_, ?_⟩,
      fun id' hid' => ⟨?_, rfl, rfl⟩, rfl⟩
    · rw [mergeRemoved, if_pos hnew]
    · exact Finset.notMem_erase id prev.newIds
    · rw [if_pos hnew]
    · rw [if_pos hnew]
      exact hcausal
    · exact Finset.mem_erase.trans (and_iff_right hid')
  · cases hold : prev.oldValues.lookup id with
    | some x =>
      refine ⟨⟨prev.oldValues.erase id, prev.oldIndexNextIds, prev.newIds,
        prev.removed.insert id x⟩, ?_, ⟨hnew, ?_, ?_⟩, fun id' hid' => ⟨Iff.rfl, ?_, ?_⟩, rfl⟩
      · rw [mergeRemoved, if_neg hnew, hold]
      · rw [if_neg hnew]
        exact Finmap.lookup_erase id prev.oldValues
      · rw [if_neg hnew, hold]
        exact Finmap.lookup_insert _
      · exact Finmap.lookup_erase_ne hid'
      · exact Finmap.lookup_insert_of_ne _ hid'
    | none =>
      refine ⟨{ prev with removed := prev.removed.insert id was }, ?_, ⟨hnew, ?_, ?_⟩,
        fun id' hid' => ⟨Iff.rfl, rfl, ?_⟩, rfl⟩
      · rw [mergeRemoved, if_neg hnew, hold]
        exact if_neg (Finmap.lookup_eq_none.mp hcausal)
      · rw [if_neg hnew]
        exact hold
      · rw [if_neg hnew, hold]
        exact Finmap.lookup_insert _
      · exact Finmap.lookup_insert_of_ne _ hid'

theorem mergeRemoved_spec (hnodup : (entries.map Prod.fst).Nodup)
    (hcausal : ∀ e ∈ entries, prev.removed.lookup e.1 = none) :
    ∃ next, mergeRemoved entries prev = .ok next ∧
      (∀ e ∈ entries, RemovedAt prev next e.1 e.2) ∧
      (∀ id, id ∉ entries.map Prod.fst → AgreeAt prev next id) ∧
      next.oldIndexNextIds = prev.oldIndexNextIds := by
  induction entries generalizing prev with
  | nil =>
    exact ⟨prev, rfl, fun e he => (nomatch he), fun _ _ => ⟨Iff.rfl, rfl, rfl⟩, rfl⟩
  | cons e rest ih =>
    rw [List.map_cons, List.nodup_cons] at hnodup
    have hne : ∀ e' ∈ rest, e'.1 ≠ e.1 := fun e' he' heq =>
      hnodup.1 (heq ▸ (List.mem_map_of_mem he' : e'.1 ∈ rest.map Prod.fst))
    obtain ⟨mid, hturn, hself, hother, hmid⟩ :=
      mergeRemoved_cons e.2 rest (hcausal e List.mem_cons_self)
    obtain ⟨next, hrest, hentries, hframe, hnext⟩ := @ih mid hnodup.2 fun e' he' =>
      (hother e'.1 (hne e' he')).removed.trans (hcausal e' (List.mem_cons_of_mem _ he'))
    refine ⟨next, hturn.trans hrest, fun e' he' => ?_, fun id hid => ?_, hnext.trans hmid⟩
    · rcases List.mem_cons.mp he' with rfl | he'
      · have hagree := hframe e'.1 hnodup.1
        exact ⟨fun hmem => hself.newIds (hagree.newIds.mp hmem),
          hagree.oldValues.trans hself.oldValues, hagree.removed.trans hself.removed⟩
      · have hagree := hother e'.1 (hne e' he')
        obtain ⟨hnew, hold, hremoved⟩ := hentries e' he'
        refine ⟨hnew, ?_, ?_⟩
        · rw [hold, hagree.oldValues]
          exact if_congr hagree.newIds rfl rfl
        · rw [hremoved, hagree.oldValues]
          exact if_congr hagree.newIds rfl rfl
    · rw [List.map_cons, List.mem_cons, not_or] at hid
      have hfirst := hother id hid.1
      have hrest := hframe id hid.2
      exact ⟨hrest.newIds.trans hfirst.newIds, hrest.oldValues.trans hfirst.oldValues,
        hrest.removed.trans hfirst.removed⟩

/-- The composition of an outer state `A` and an inner state `B`, by the table of `merge`: the
column of `del`, the other columns, and the next ids -/
structure Composed (A B C : UndoState V) : Prop where
  del_of_new : ∀ id was, B.removed.lookup id = some was → id ∈ A.newIds →
    id ∉ C.newIds ∧ C.oldValues.lookup id = none ∧ C.removed.lookup id = none
  del_of_not_new : ∀ id was, B.removed.lookup id = some was → id ∉ A.newIds →
    id ∉ C.newIds ∧ C.oldValues.lookup id = none ∧
      C.removed.lookup id = some ((A.oldValues.lookup id).getD was)
  other : ∀ id, B.removed.lookup id = none →
    (id ∈ C.newIds ↔ id ∈ A.newIds ∨ id ∈ B.newIds) ∧
      C.oldValues.lookup id =
        (A.oldValues.lookup id).or (if id ∈ A.newIds then none else B.oldValues.lookup id) ∧
      C.removed.lookup id = A.removed.lookup id
  next : ∀ index, C.oldIndexNextIds.lookup index =
    (A.oldIndexNextIds.lookup index).or (B.oldIndexNextIds.lookup index)

section Compose

variable {d0 d1 d : ObjectDatabase V} {order : Iteration V}

theorem mergeStates_composed (hA : Records d0 A d1) (hB : Records d1 B d) (hcausal : Causal A B)
    (hvisits : order.Visits B) : ∃ C, mergeStates order A = .ok C ∧ Composed A B C := by
  have holdB : ∀ e ∈ order.oldValues, B.oldValues.lookup e.1 = some e.2 :=
    fun e he => (hvisits.oldValues.mem_iff e.1 e.2).mp he
  have hremovedB : ∀ e ∈ order.removed, B.removed.lookup e.1 = some e.2 :=
    fun e he => (hvisits.removed.mem_iff e.1 e.2).mp he
  obtain ⟨oldValues, hold, holdFrame, holdEntries⟩ :=
    mergeOldValues_spec hvisits.oldValues.nodup fun e he => hcausal.upd e.1 e.2 (holdB e he)
  obtain ⟨nexts, hnext, hnextFrame, hnextEntries⟩ :=
    mergeNextIds_spec order.oldIndexNextIds
      { A with oldValues := oldValues, newIds := A.newIds ∪ order.newIds.toFinset }
      hvisits.oldIndexNextIds.nodup
  obtain ⟨C, hC, hdel, hframe, hnextC⟩ := @mergeRemoved_spec V order.removed
    ⟨oldValues, nexts, A.newIds ∪ order.newIds.toFinset, A.removed⟩ hvisits.removed.nodup
    fun e he => hcausal.del e.1 e.2 (hremovedB e he)
  -- what the last loop finds
  have hnewIds : ∀ id, id ∈ A.newIds ∪ order.newIds.toFinset ↔ id ∈ A.newIds ∨ id ∈ B.newIds := by
    intro id
    rw [Finset.mem_union, List.mem_toFinset, hvisits.newIds.2]
  have holdValues : ∀ id, oldValues.lookup id =
      (A.oldValues.lookup id).or (if id ∈ A.newIds then none else B.oldValues.lookup id) := by
    intro id
    cases hlookup : B.oldValues.lookup id with
    | none =>
      rw [holdFrame, ite_self, Option.or_none]
      rw [hvisits.oldValues.mem_keys_iff]
      exact Finmap.lookup_eq_none.mp hlookup
    | some was => exact holdEntries (id, was) ((hvisits.oldValues.mem_iff id was).mpr hlookup)
  have hat : ∀ id was, B.removed.lookup id = some was →
      RemovedAt ⟨oldValues, nexts, A.newIds ∪ order.newIds.toFinset, A.removed⟩ C id was ∧
      (id ∈ A.newIds ∪ order.newIds.toFinset ↔ id ∈ A.newIds) ∧
      oldValues.lookup id = A.oldValues.lookup id := by
    intro id was hwas
    refine ⟨hdel (id, was) ((hvisits.removed.mem_iff id was).mpr hwas), ?_, ?_⟩
    · rw [hnewIds]
      refine or_iff_left fun hnew => ?_
      rw [(hB.created id hnew).2.1] at hwas
      cases hwas
    · cases hlookup : B.oldValues.lookup id with
      | none => rw [holdValues, hlookup, ite_self, Option.or_none]
      | some x =>
        rw [(hB.updated id x hlookup).2.2] at hwas
        cases hwas
  refine ⟨C, ?_, ?_, ?_, ?_, ?_⟩
  · rw [mergeStates, hold]
    show mergeRemoved order.removed (mergeNextIds order.oldIndexNextIds
      (mergeNewIds order.newIds { A with oldValues := oldValues })) = .ok C
    rw [mergeNewIds_eq, hnext, hC]
  · intro id was hwas hnew
    obtain ⟨hremovedAt, hnewIff, holdAt⟩ := hat id was hwas
    refine ⟨hremovedAt.newIds, ?_, ?_⟩
    · rw [hremovedAt.oldValues, if_pos (hnewIff.mpr hnew)]
      dsimp only
      rw [holdAt]
      cases hlookup : A.oldValues.lookup id with
      | none => rfl
      | some x => exact absurd hnew (hA.updated id x hlookup).2.1
    · rw [hremovedAt.removed, if_pos (hnewIff.mpr hnew)]
  · intro id was hwas hnew
    obtain ⟨hremovedAt, hnewIff, holdAt⟩ := hat id was hwas
    refine ⟨hremovedAt.newIds, ?_, ?_⟩
    · rw [hremovedAt.oldValues, if_neg (hnewIff.not.mpr hnew)]
    · rw [hremovedAt.removed, if_neg (hnewIff.not.mpr hnew)]
      dsimp only
      rw [holdAt]
  · intro id hnone
    have hagree := hframe id (by
      rw [hvisits.removed.mem_keys_iff]
      exact Finmap.lookup_eq_none.mp hnone)
    exact ⟨hagree.newIds.trans (hnewIds id), hagree.oldValues.trans (holdValues id), hagree.removed⟩
  · intro index
    rw [hnextC]
    cases hlookup : B.oldIndexNextIds.lookup index with
    | none =>
      rw [Option.or_none]
      refine hnextFrame index ?_
      rw [hvisits.oldIndexNextIds.mem_keys_iff]
      exact Finmap.lookup_eq_none.mp hlookup
    | some next =>
      exact hnextEntries (index, next)
        ((hvisits.oldIndexNextIds.mem_iff index next).mpr hlookup)

/-- Outside the column of `del`, each object is in at most one row and column. -/
theorem Composed.new_cases (hC : Composed A B C) {id : ObjectId} (hid : id ∈ C.newIds) :
    B.removed.lookup id = none ∧ (id ∈ A.newIds ∨ id ∈ B.newIds) := by
  cases hremoved : B.removed.lookup id with
  | none => exact ⟨rfl, (hC.other id hremoved).1.mp hid⟩
  | some was =>
    by_cases hnew : id ∈ A.newIds
    · exact absurd hid (hC.del_of_new id was hremoved hnew).1
    · exact absurd hid (hC.del_of_not_new id was hremoved hnew).1

theorem Composed.old_cases (hC : Composed A B C) {id : ObjectId} {was : V}
    (hwas : C.oldValues.lookup id = some was) :
    B.removed.lookup id = none ∧ (A.oldValues.lookup id = some was ∨
      id ∉ A.newIds ∧ A.oldValues.lookup id = none ∧ B.oldValues.lookup id = some was) := by
  cases hremoved : B.removed.lookup id with
  | some x =>
    by_cases hnew : id ∈ A.newIds
    · rw [(hC.del_of_new id x hremoved hnew).2.1] at hwas
      cases hwas
    · rw [(hC.del_of_not_new id x hremoved hnew).2.1] at hwas
      cases hwas
  | none =>
    rw [(hC.other id hremoved).2.1] at hwas
    cases hlookup : A.oldValues.lookup id with
    | some x =>
      rw [hlookup, Option.some_or] at hwas
      exact ⟨rfl, .inl hwas⟩
    | none =>
      rw [hlookup, Option.none_or] at hwas
      split at hwas
      · cases hwas
      · exact ⟨rfl, .inr ⟨‹_›, rfl, hwas⟩⟩

/-- An object that only the inner session touched was as it was. -/
theorem Records.before_of_live (hA : Records d0 A d1) {id : ObjectId} {was : V}
    (hwas : d1.objects.lookup id = some was) (hnew : id ∉ A.newIds)
    (hold : A.oldValues.lookup id = none) : d0.objects.lookup id = some was := by
  rw [← hA.untouched id hold hnew (hA.removed_eq_none_of_live hwas)]
  exact hwas

namespace Composed

variable {id : ObjectId} {was : V}

section

variable (hA : Records d0 A d1) (hB : Records d1 B d)

include hA hB

theorem updated (hcausal : Causal A B) (hC : Composed A B C)
    (hwas : C.oldValues.lookup id = some was) :
    d0.objects.lookup id = some was ∧ id ∉ C.newIds ∧ C.removed.lookup id = none := by
  obtain ⟨hremoved, hcases⟩ := hC.old_cases hwas
  obtain ⟨hnewIff, -, hremovedC⟩ := hC.other id hremoved
  rw [hremovedC, hnewIff, not_or]
  rcases hcases with hold | ⟨hnew, hold, holdB⟩
  · obtain ⟨hstart, hnew, hremovedA⟩ := hA.updated id was hold
    refine ⟨hstart, ⟨hnew, fun hnewB => ?_⟩, hremovedA⟩
    rw [(hcausal.new id hnewB).2.1] at hold
    cases hold
  · obtain ⟨hlive, hnewB, -⟩ := hB.updated id was holdB
    exact ⟨hA.before_of_live hlive hnew hold, ⟨hnew, hnewB⟩, hcausal.upd id was holdB⟩

theorem created (hcausal : Causal A B) (hC : Composed A B C) (hid : id ∈ C.newIds) :
    d0.objects.lookup id = none ∧ C.removed.lookup id = none ∧
      d0.nextId id.index ≤ id.number ∧ id.number < d.nextId id.index := by
  obtain ⟨hremoved, hcases⟩ := hC.new_cases hid
  rw [(hC.other id hremoved).2.2]
  rcases hcases with hnew | hnew
  · obtain ⟨hstart, hremovedA, hle, hlt⟩ := hA.created id hnew
    exact ⟨hstart, hremovedA, hle, hlt.trans_le (hB.next_le id.index)⟩
  · obtain ⟨hlookup, -, hle, hlt⟩ := hB.created id hnew
    obtain ⟨hnewA, hold, hremovedA⟩ := hcausal.new id hnew
    refine ⟨?_, hremovedA, (hA.next_le id.index).trans hle, hlt⟩
    rw [← hA.untouched id hold hnewA hremovedA]
    exact hlookup

theorem removed (hcausal : Causal A B) (hC : Composed A B C) (hwas : C.removed.lookup id = some was) :
    d0.objects.lookup id = some was ∧ d.objects.lookup id = none := by
  cases hremoved : B.removed.lookup id with
  | none =>
    rw [(hC.other id hremoved).2.2] at hwas
    obtain ⟨hstart, hgone⟩ := hA.removed id was hwas
    refine ⟨hstart, ?_⟩
    -- the inner session does not touch an object that is gone
    have hnewB : id ∉ B.newIds := fun hnew => by
      rw [(hcausal.new id hnew).2.2] at hwas
      cases hwas
    have holdB : B.oldValues.lookup id = none := by
      cases hold : B.oldValues.lookup id with
      | none => rfl
      | some x =>
        rw [hcausal.upd id x hold] at hwas
        cases hwas
    rw [hB.untouched id holdB hnewB hremoved, hgone]
  | some x =>
    obtain ⟨hlive, hgone⟩ := hB.removed id x hremoved
    by_cases hnew : id ∈ A.newIds
    · rw [(hC.del_of_new id x hremoved hnew).2.2] at hwas
      cases hwas
    · rw [(hC.del_of_not_new id x hremoved hnew).2.2] at hwas
      cases hwas
      refine ⟨?_, hgone⟩
      cases hold : A.oldValues.lookup id with
      | none => exact hA.before_of_live hlive hnew hold
      | some y => exact (hA.updated id y hold).1

theorem untouched (hC : Composed A B C) (hold : C.oldValues.lookup id = none) (hnew : id ∉ C.newIds)
    (hremoved : C.removed.lookup id = none) : d.objects.lookup id = d0.objects.lookup id := by
  cases hremovedB : B.removed.lookup id with
  | some x =>
    by_cases hnewA : id ∈ A.newIds
    · rw [(hB.removed id x hremovedB).2, (hA.created id hnewA).1]
    · rw [(hC.del_of_not_new id x hremovedB hnewA).2.2] at hremoved
      cases hremoved
  | none =>
    obtain ⟨hnewIff, holdEq, hremovedEq⟩ := hC.other id hremovedB
    obtain ⟨hnewA, hnewB⟩ := not_or.mp (hnewIff.not.mp hnew)
    rw [holdEq, if_neg hnewA, Option.or_eq_none_iff] at hold
    rw [hB.untouched id hold.2 hnewB hremovedB,
      hA.untouched id hold.1 hnewA (hremovedEq.symm.trans hremoved)]

theorem next_noted (hC : Composed A B C) {index : IndexId} {next : Nat}
    (hlookup : C.oldIndexNextIds.lookup index = some next) : d0.nextId index = next := by
  rw [hC.next] at hlookup
  cases hA' : A.oldIndexNextIds.lookup index with
  | some x =>
    rw [hA', Option.some_or] at hlookup
    cases hlookup
    exact hA.next_noted index next hA'
  | none =>
    rw [hA', Option.none_or] at hlookup
    rw [← hA.next_untouched index hA']
    exact hB.next_noted index next hlookup

end

end Composed

theorem Records.compose (hA : Records d0 A d1) (hB : Records d1 B d) (hcausal : Causal A B)
    (hC : Composed A B C) : Records d0 C d where
  updated _ _ := hC.updated hA hB hcausal
  created _ := hC.created hA hB hcausal
  removed _ _ := hC.removed hA hB hcausal
  untouched _ := hC.untouched hA hB
  next_noted _ _ := hC.next_noted hA hB
  next_untouched index hlookup := by
    rw [hC.next, Option.or_eq_none_iff] at hlookup
    rw [hB.next_untouched index hlookup.2, hA.next_untouched index hlookup.1]
  next_le index := (hA.next_le index).trans (hB.next_le index)

theorem Composed.intact_iff (hB : Records d1 B d) (hcausal : Causal A B) (hC : Composed A B C) :
    Intact C d ↔ Intact A d1 ∧ Intact B d := by
  -- what the outer state names is named by the composition, unless the inner session removed it
  have hkeeps : ∀ id, B.removed.lookup id = none →
      (∀ was, A.oldValues.lookup id = some was → C.oldValues.lookup id = some was) ∧
      (id ∈ A.newIds ∨ id ∈ B.newIds → id ∈ C.newIds) := by
    intro id hremoved
    obtain ⟨hnewIff, holdEq, -⟩ := hC.other id hremoved
    refine ⟨fun was hwas => ?_, hnewIff.mpr⟩
    rw [holdEq, hwas, Option.some_or]
  -- an object that was there before the inner session and that it did not remove
  have hback : ∀ id v, B.removed.lookup id = none → id ∉ B.newIds →
      d.objects.lookup id = some v → ∃ w, d1.objects.lookup id = some w := by
    intro id v hremoved hnew hlive
    cases hold : B.oldValues.lookup id with
    | some was => exact ⟨was, (hB.updated id was hold).1⟩
    | none => exact ⟨v, (hB.untouched id hold hnew hremoved).symm.trans hlive⟩
  constructor
  · intro hintact
    refine ⟨⟨fun id was hwas => ?_, fun id hnew => ?_⟩, fun id was hwas => ?_, fun id hnew => ?_⟩
    · cases hremoved : B.removed.lookup id with
      | some x => exact ⟨x, (hB.removed id x hremoved).1⟩
      | none =>
        obtain ⟨v, hv⟩ := hintact.oldValues id was ((hkeeps id hremoved).1 was hwas)
        refine hback id v hremoved (fun hnewB => ?_) hv
        rw [(hcausal.new id hnewB).2.1] at hwas
        cases hwas
    · cases hremoved : B.removed.lookup id with
      | some x => exact ⟨x, (hB.removed id x hremoved).1⟩
      | none =>
        obtain ⟨v, hv⟩ := hintact.newIds id ((hkeeps id hremoved).2 (.inl hnew))
        exact hback id v hremoved (fun hnewB => (hcausal.new id hnewB).1 hnew) hv
    · obtain ⟨-, -, hremoved⟩ := hB.updated id was hwas
      by_cases hnew : id ∈ A.newIds
      · exact hintact.newIds id ((hkeeps id hremoved).2 (.inl hnew))
      · have holdC := (hC.other id hremoved).2.1
        rw [if_neg hnew, hwas] at holdC
        cases hold : A.oldValues.lookup id with
        | some x => exact hintact.oldValues id x ((hkeeps id hremoved).1 x hold)
        | none =>
          rw [hold, Option.none_or] at holdC
          exact hintact.oldValues id was holdC
    · exact hintact.newIds id ((hkeeps id (hB.created id hnew).2.1).2 (.inr hnew))
  · rintro ⟨hintactA, hintactB⟩
    -- what the outer session left is still there, unless the inner session removed it
    have hstill : ∀ id v, B.removed.lookup id = none → d1.objects.lookup id = some v →
        ∃ w, d.objects.lookup id = some w := by
      intro id v hremoved hlive
      cases hold : B.oldValues.lookup id with
      | some was => exact hintactB.oldValues id was hold
      | none =>
        by_cases hnew : id ∈ B.newIds
        · exact hintactB.newIds id hnew
        · exact ⟨v, (hB.untouched id hold hnew hremoved).trans hlive⟩
    refine ⟨fun id was hwas => ?_, fun id hnew => ?_⟩
    · obtain ⟨hremoved, hold | ⟨-, -, holdB⟩⟩ := hC.old_cases hwas
      · obtain ⟨v, hv⟩ := hintactA.oldValues id was hold
        exact hstill id v hremoved hv
      · exact hintactB.oldValues id was holdB
    · obtain ⟨hremoved, hnewA | hnewB⟩ := hC.new_cases hnew
      · obtain ⟨v, hv⟩ := hintactA.newIds id hnewA
        exact hstill id v hremoved hv
      · exact hintactB.newIds id hnewB

end Compose

end Meta1Core.Db
