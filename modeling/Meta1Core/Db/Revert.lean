import Meta1Core.Db.Records

/-!
# Going back along an undo state

The loops that `undo` and `pop_commit` share go back to the start of the session, or they throw.
-/

namespace Meta1Core.Db

open Lib (Table bind_eq_ok of_bind)

variable {V : Type} [UniqueKeys V]

variable {entries rest : List (ObjectId × V)} {d' : ObjectDatabase V}

variable {id : ObjectId}

theorem restoreValues_cons {was : V} {d : ObjectDatabase V} :
    restoreValues ((id, was) :: rest) d = .ok d' ↔
      (∃ v, d.objects.lookup id = some v) ∧ ¬d.Violates id was ∧
        restoreValues rest { d with objects := d.objects.insert id was } = .ok d' := by
  rw [restoreValues, bind_eq_ok]
  unfold ObjectDatabase.modify
  constructor
  · rintro ⟨v, hget, hrest⟩
    by_cases hfits : d.Violates id was
    · rw [if_pos hfits] at hrest
      cases hrest
    · rw [if_neg hfits] at hrest
      exact ⟨⟨v, getObject_ok.mp hget⟩, hfits, hrest⟩
  · rintro ⟨⟨v, hget⟩, hfits, hrest⟩
    refine ⟨v, getObject_ok.mpr hget, ?_⟩
    rw [if_neg hfits]
    exact hrest

omit [UniqueKeys V] in
theorem removeNew_cons {rest : List ObjectId} {d : ObjectDatabase V} :
    removeNew (id :: rest) d = .ok d' ↔
      (∃ v, d.objects.lookup id = some v) ∧ removeNew rest (d.remove id) = .ok d' := by
  rw [removeNew, bind_eq_ok]
  constructor
  · rintro ⟨v, hget, hrest⟩
    exact ⟨⟨v, getObject_ok.mp hget⟩, hrest⟩
  · rintro ⟨⟨v, hget⟩, hrest⟩
    exact ⟨v, getObject_ok.mpr hget, hrest⟩

theorem insertRemoved_cons {was : V} {d : ObjectDatabase V} :
    insertRemoved ((id, was) :: rest) d = .ok d' ↔
      d.objects.lookup id = none ∧ ¬d.Violates id was ∧
        insertRemoved rest { d with objects := d.objects.insert id was } = .ok d' := by
  rw [insertRemoved, bind_eq_ok]
  unfold ObjectDatabase.insert
  constructor
  · rintro ⟨d1, hinsert, hrest⟩
    split at hinsert
    · cases hinsert
    · rename_i hfits
      obtain ⟨hgone, hfits⟩ := not_or.mp hfits
      cases hinsert
      exact ⟨not_not.mp hgone, hfits, hrest⟩
  · rintro ⟨hgone, hfits, hrest⟩
    exact ⟨_, if_neg (not_or.mpr ⟨not_not.mpr hgone, hfits⟩), hrest⟩

theorem restoreValues_eq {d : ObjectDatabase V} (h : restoreValues entries d = .ok d') :
    d' = { d with objects := Table.insertAll entries d.objects } := by
  induction entries generalizing d with
  | nil =>
    cases h
    rfl
  | cons e rest ih => exact ih (restoreValues_cons.mp h).2.2

variable {ids : List ObjectId}

omit [UniqueKeys V] in
theorem removeNew_eq {d : ObjectDatabase V} (h : removeNew ids d = .ok d') :
    d' = { d with objects := Table.eraseAll ids d.objects } := by
  induction ids generalizing d with
  | nil =>
    cases h
    rfl
  | cons id rest ih => exact ih (removeNew_cons.mp h).2

theorem insertRemoved_eq {d : ObjectDatabase V} (h : insertRemoved entries d = .ok d') :
    d' = { d with objects := Table.insertAll entries d.objects } := by
  induction entries generalizing d with
  | nil =>
    cases h
    rfl
  | cons e rest ih => exact ih (insertRemoved_cons.mp h).2.2

omit [UniqueKeys V] in
theorem resetNextIds_objects (entries : List (IndexId × Nat)) (d : ObjectDatabase V) :
    (resetNextIds entries d).objects = d.objects := by
  induction entries generalizing d with
  | nil => rfl
  | cons e rest ih => exact ih _

variable {index : IndexId}

omit [UniqueKeys V] in
theorem resetNextIds_nextId_of_notMem {entries : List (IndexId × Nat)} {d : ObjectDatabase V}
    (h : index ∉ entries.map Prod.fst) :
    (resetNextIds entries d).nextId index = d.nextId index := by
  induction entries generalizing d with
  | nil => rfl
  | cons e rest ih =>
    rw [List.map_cons, List.mem_cons, not_or] at h
    rw [resetNextIds, ih h.2]
    exact Function.update_of_ne h.1 _ _

omit [UniqueKeys V] in
theorem resetNextIds_nextId_of_mem {entries : List (IndexId × Nat)} {d : ObjectDatabase V}
    {next : Nat} (hnodup : (entries.map Prod.fst).Nodup) (h : (index, next) ∈ entries) :
    (resetNextIds entries d).nextId index = next := by
  induction entries generalizing d with
  | nil => cases h
  | cons e rest ih =>
    rw [List.map_cons, List.nodup_cons] at hnodup
    rcases List.mem_cons.mp h with rfl | h
    · rw [resetNextIds, resetNextIds_nextId_of_notMem hnodup.1]
      exact Function.update_self _ _ _
    · exact ih hnodup.2 h

theorem restoreValues_succeeds {d0 : ObjectDatabase V} (hd0 : d0.Wf) {d : ObjectDatabase V}
    (hwas : ∀ e ∈ entries, d0.objects.lookup e.1 = some e.2)
    (hlive : ∀ e ∈ entries, ∃ v, d.objects.lookup e.1 = some v)
    (hfits : ∀ e ∈ entries, ¬d.Violates e.1 e.2) : ∃ d', restoreValues entries d = .ok d' := by
  induction entries generalizing d with
  | nil => exact ⟨d, rfl⟩
  | cons e rest ih =>
    obtain ⟨id, was⟩ := e
    suffices hrest : ∃ d', restoreValues rest { d with objects := d.objects.insert id was } = .ok d' by
      obtain ⟨d', hd'⟩ := hrest
      exact ⟨d', restoreValues_cons.mpr ⟨hlive _ List.mem_cons_self,
        hfits _ List.mem_cons_self, hd'⟩⟩
    refine ih (fun e he => hwas e (List.mem_cons_of_mem _ he)) (fun e he => ?_) (fun e he => ?_)
    · obtain ⟨v, hv⟩ := hlive e (List.mem_cons_of_mem _ he)
      dsimp only
      rw [Table.lookup_insert_eq]
      split
      · exact ⟨was, rfl⟩
      · exact ⟨v, hv⟩
    · rw [violates_iff]
      rintro ⟨id', v', hlookup, hne, hrest⟩
      dsimp only at hlookup
      rw [Table.lookup_insert_eq] at hlookup
      split at hlookup
      · -- two old values stood side by side at the start
        rename_i heq
        cases hlookup
        subst heq
        exact hd0.unique e.1 e.2 (hwas e (List.mem_cons_of_mem _ he))
          (violates_iff.mpr ⟨id', was, hwas _ List.mem_cons_self, hne, hrest⟩)
      · exact hfits e (List.mem_cons_of_mem _ he)
          (violates_iff.mpr ⟨id', v', hlookup, hne, hrest⟩)

omit [UniqueKeys V] in
theorem removeNew_succeeds {d : ObjectDatabase V} (hnodup : ids.Nodup)
    (hlive : ∀ id ∈ ids, ∃ v, d.objects.lookup id = some v) : ∃ d', removeNew ids d = .ok d' := by
  induction ids generalizing d with
  | nil => exact ⟨d, rfl⟩
  | cons id rest ih =>
    rw [List.nodup_cons] at hnodup
    obtain ⟨d', hd'⟩ := @ih (d.remove id) hnodup.2 (fun id' hid' => by
      obtain ⟨v, hv⟩ := hlive id' (List.mem_cons_of_mem _ hid')
      have hne : id' ≠ id := fun heq => hnodup.1 (heq ▸ hid')
      exact ⟨v, (Finmap.lookup_erase_ne hne).trans hv⟩)
    exact ⟨d', removeNew_cons.mpr ⟨hlive id List.mem_cons_self, hd'⟩⟩

theorem insertRemoved_succeeds {d0 : ObjectDatabase V} (hd0 : d0.Wf) {d : ObjectDatabase V}
    (hnodup : (entries.map Prod.fst).Nodup) (hwas : ∀ e ∈ entries, d0.objects.lookup e.1 = some e.2)
    (hgone : ∀ e ∈ entries, d.objects.lookup e.1 = none)
    (hsub : ∀ id v, d.objects.lookup id = some v → d0.objects.lookup id = some v) :
    ∃ d', insertRemoved entries d = .ok d' := by
  induction entries generalizing d with
  | nil => exact ⟨d, rfl⟩
  | cons e rest ih =>
    obtain ⟨id, was⟩ := e
    have hstart : d0.objects.lookup id = some was := hwas _ List.mem_cons_self
    rw [List.map_cons, List.nodup_cons] at hnodup
    suffices hrest : ∃ d', insertRemoved rest { d with objects := d.objects.insert id was } = .ok d' by
      obtain ⟨d', hd'⟩ := hrest
      refine ⟨d', insertRemoved_cons.mpr ⟨hgone _ List.mem_cons_self, ?_, hd'⟩⟩
      intro hviolates
      obtain ⟨id', v', hlookup, hrest⟩ := violates_iff.mp hviolates
      exact hd0.unique id was hstart (violates_iff.mpr ⟨id', v', hsub id' v' hlookup, hrest⟩)
    refine ih hnodup.2 (fun e he => hwas e (List.mem_cons_of_mem _ he)) (fun e he => ?_)
      (fun id' v' hv' => ?_)
    · have hmem : e.1 ∈ rest.map Prod.fst := List.mem_map_of_mem he
      have hne : e.1 ≠ id := fun heq => hnodup.1 (heq ▸ hmem)
      exact (Finmap.lookup_insert_of_ne _ hne).trans (hgone e (List.mem_cons_of_mem _ he))
    · dsimp only at hv'
      rw [Table.lookup_insert_eq] at hv'
      split at hv'
      · rename_i heq
        cases hv'
        rw [heq, hstart]
      · exact hsub id' v' hv'

def rolledBack (order : Iteration V) (d : ObjectDatabase V) : Table ObjectId V :=
  Table.eraseAll order.newIds (Table.insertAll order.oldValues d.objects)

section Revert

variable {d0 d : ObjectDatabase V} {st : UndoState V} {order : Iteration V}

omit [UniqueKeys V] in
theorem rolledBack_lookup (h : Records d0 st d) (hvisits : order.Visits st) (id : ObjectId) :
    (rolledBack order d).lookup id =
      if st.removed.lookup id = none then d0.objects.lookup id else none := by
  rw [rolledBack, Table.lookup_eraseAll, hvisits.oldValues.lookup_insertAll]
  by_cases hnew : id ∈ st.newIds
  · obtain ⟨hstart, hremoved, -⟩ := h.created id hnew
    rw [if_pos ((hvisits.newIds.2 id).mpr hnew), if_pos hremoved, hstart]
  · rw [if_neg (fun hmem => hnew ((hvisits.newIds.2 id).mp hmem))]
    cases hold : st.oldValues.lookup id with
    | some was =>
      obtain ⟨hstart, -, hremoved⟩ := h.updated id was hold
      rw [if_pos hremoved, hstart, Option.some_or]
    | none =>
      rw [Option.none_or]
      cases hremoved : st.removed.lookup id with
      | none => rw [if_pos rfl, h.untouched id hold hnew hremoved]
      | some was => rw [if_neg (Option.some_ne_none was), (h.removed id was hremoved).2]

theorem revert_eq (h : Records d0 st d) (hvisits : order.Visits st) {d' : ObjectDatabase V}
    (hrevert : revert order d = .ok d') : d' = d0 := by
  obtain ⟨d1, h1, hrevert⟩ := of_bind hrevert
  obtain ⟨d2, h2, hrevert⟩ := of_bind hrevert
  obtain rfl := restoreValues_eq h1
  obtain rfl := removeNew_eq h2
  obtain rfl := insertRemoved_eq hrevert
  have hobjects : Table.insertAll order.removed (rolledBack order d) = d0.objects := by
    refine Finmap.ext_lookup fun id => ?_
    rw [hvisits.removed.lookup_insertAll, rolledBack_lookup h hvisits]
    cases hremoved : st.removed.lookup id with
    | none => rw [if_pos rfl, Option.none_or]
    | some was => rw [(h.removed id was hremoved).1, Option.some_or]
  have hnext : (resetNextIds order.oldIndexNextIds
      { d with objects := rolledBack order d }).nextId = d0.nextId := by
    funext index
    cases hlookup : st.oldIndexNextIds.lookup index with
    | none =>
      rw [resetNextIds_nextId_of_notMem]
      · exact h.next_untouched index hlookup
      · rw [hvisits.oldIndexNextIds.mem_keys_iff]
        exact Finmap.lookup_eq_none.mp hlookup
    | some next =>
      rw [resetNextIds_nextId_of_mem hvisits.oldIndexNextIds.nodup
        ((hvisits.oldIndexNextIds.mem_iff index next).mpr hlookup)]
      exact (h.next_noted index next hlookup).symm
  rw [resetNextIds_objects]
  exact congrArg₂ ObjectDatabase.mk hobjects hnext

structure Intact (st : UndoState V) (d : ObjectDatabase V) : Prop where
  oldValues : ∀ id was, st.oldValues.lookup id = some was → ∃ v, d.objects.lookup id = some v
  newIds : ∀ id ∈ st.newIds, ∃ v, d.objects.lookup id = some v

/-- No object that is there before and after has an earlier value that shares a unique key with
another object of the later database. -/
def Compatible (d0 d : ObjectDatabase V) : Prop :=
  ∀ id was now, d0.objects.lookup id = some was → d.objects.lookup id = some now →
    ¬d.Violates id was

instance (st : UndoState V) (d : ObjectDatabase V) [DecidableEq V] : Decidable (Intact st d) :=
  decidable_of_iff (¬st.oldValues.Any (fun id _ => d.objects.lookup id = none) ∧
      ∀ id ∈ st.newIds, d.objects.lookup id ≠ none) <| by
    rw [Table.any_iff]
    push Not
    simp only [Option.ne_none_iff_exists']
    exact ⟨fun h => ⟨h.1, h.2⟩, fun h => ⟨h.oldValues, h.newIds⟩⟩

instance (d0 d : ObjectDatabase V) [DecidableEq V] : Decidable (Compatible d0 d) :=
  decidable_of_iff (¬d0.objects.Any fun id was => d.objects.lookup id ≠ none ∧ d.Violates id was) <| by
    rw [Table.any_iff]
    push Not
    simp only [Option.ne_none_iff_exists']
    exact ⟨fun h id was now hwas hnow => h id was hwas ⟨now, hnow⟩,
      fun h id was hwas ⟨now, hnow⟩ => h id was now hwas hnow⟩

theorem revert_of_restored (h : Records d0 st d) (hd0 : d0.Wf) (hvisits : order.Visits st)
    (hintact : Intact st d) {d1 : ObjectDatabase V}
    (hrestored : restoreValues order.oldValues d = .ok d1) : revert order d = .ok d0 := by
  have h1 := hrestored
  obtain rfl := restoreValues_eq hrestored
  obtain ⟨d2, h2⟩ : ∃ d2, removeNew order.newIds
      { d with objects := Table.insertAll order.oldValues d.objects } = .ok d2 := by
    apply removeNew_succeeds hvisits.newIds.1
    intro id hid
    obtain ⟨v, hv⟩ := hintact.newIds id ((hvisits.newIds.2 id).mp hid)
    dsimp only
    rw [hvisits.oldValues.lookup_insertAll, hv]
    cases st.oldValues.lookup id with
    | none => exact ⟨v, rfl⟩
    | some was => exact ⟨was, rfl⟩
  obtain rfl := removeNew_eq h2
  obtain ⟨d3, h3⟩ : ∃ d3, insertRemoved order.removed (resetNextIds order.oldIndexNextIds
      { d with objects := rolledBack order d }) = .ok d3 := by
    have hremoved : ∀ e ∈ order.removed, st.removed.lookup e.1 = some e.2 :=
      fun e he => (hvisits.removed.mem_iff e.1 e.2).mp he
    apply insertRemoved_succeeds hd0 hvisits.removed.nodup
    · exact fun e he => (h.removed e.1 e.2 (hremoved e he)).1
    · intro e he
      rw [resetNextIds_objects]
      dsimp only
      rw [rolledBack_lookup h hvisits, hremoved e he, if_neg (Option.some_ne_none _)]
    · intro id v hv
      rw [resetNextIds_objects] at hv
      dsimp only at hv
      rw [rolledBack_lookup h hvisits] at hv
      split at hv
      · exact hv
      · cases hv
  have hrevert : revert order d = .ok d3 :=
    bind_eq_ok.mpr ⟨_, h1, bind_eq_ok.mpr ⟨_, h2, h3⟩⟩
  rw [hrevert, revert_eq h hvisits hrevert]

theorem revert_succeeds (h : Records d0 st d) (hd0 : d0.Wf) (hvisits : order.Visits st)
    (hintact : Intact st d) (hcompatible : Compatible d0 d) : revert order d = .ok d0 := by
  have hold : ∀ e ∈ order.oldValues, st.oldValues.lookup e.1 = some e.2 :=
    fun e he => (hvisits.oldValues.mem_iff e.1 e.2).mp he
  obtain ⟨d1, h1⟩ : ∃ d1, restoreValues order.oldValues d = .ok d1 := by
    apply restoreValues_succeeds hd0
    · exact fun e he => (h.updated e.1 e.2 (hold e he)).1
    · exact fun e he => hintact.oldValues e.1 e.2 (hold e he)
    · intro e he
      obtain ⟨now, hnow⟩ := hintact.oldValues e.1 e.2 (hold e he)
      exact hcompatible e.1 e.2 now (h.updated e.1 e.2 (hold e he)).1 hnow
  exact revert_of_restored h hd0 hvisits hintact h1

omit [UniqueKeys V] in
theorem exists_visits (st : UndoState V) : ∃ order : Iteration V, order.Visits st := by
  obtain ⟨oldValues, hold⟩ := Table.exists_visits st.oldValues
  obtain ⟨next, hnext⟩ := Table.exists_visits st.oldIndexNextIds
  obtain ⟨removed, hremoved⟩ := Table.exists_visits st.removed
  exact ⟨⟨oldValues, st.newIds.toList, next, removed⟩,
    ⟨hold, ⟨st.newIds.nodup_toList, fun _ => Finset.mem_toList⟩, hnext, hremoved⟩⟩

theorem revert_iff (h : Records d0 st d) (hd0 : d0.Wf) (hd : d.Wf) :
    (∀ order : Iteration V, order.Visits st → revert order d = .ok d0) ↔
      Intact st d ∧ Compatible d0 d := by
  constructor
  · intro hall
    obtain ⟨order, hvisits⟩ := exists_visits st
    -- an order that starts with the given old value
    have hfirst : ∀ id was, st.oldValues.lookup id = some was →
        (∃ v, d.objects.lookup id = some v) ∧ ¬d.Violates id was := by
      intro id was hwas
      obtain ⟨rest, hrest⟩ := Table.exists_visits_first hwas
      have hrevert := hall { order with oldValues := (id, was) :: rest }
        ⟨hrest, hvisits.newIds, hvisits.oldIndexNextIds, hvisits.removed⟩
      obtain ⟨d1, h1, -⟩ := of_bind hrevert
      obtain ⟨hlive, hfits, -⟩ := restoreValues_cons.mp h1
      exact ⟨hlive, hfits⟩
    refine ⟨⟨fun id was hwas => (hfirst id was hwas).1, fun id hid => ?_⟩, ?_⟩
    · -- an order that starts with the given new object
      have hsplit : (id :: (st.newIds.erase id).toList).Nodup ∧
          ∀ id', id' ∈ id :: (st.newIds.erase id).toList ↔ id' ∈ st.newIds := by
        refine ⟨List.nodup_cons.mpr ⟨?_, Finset.nodup_toList _⟩, fun id' => ?_⟩
        · rw [Finset.mem_toList]
          exact Finset.notMem_erase id st.newIds
        · rw [List.mem_cons, Finset.mem_toList, ← Finset.mem_insert, Finset.insert_erase hid]
      have hrevert := hall { order with newIds := id :: (st.newIds.erase id).toList }
        ⟨hvisits.oldValues, hsplit, hvisits.oldIndexNextIds, hvisits.removed⟩
      obtain ⟨d1, h1, hrevert⟩ := of_bind hrevert
      obtain ⟨d2, h2, -⟩ := of_bind hrevert
      obtain rfl := restoreValues_eq h1
      obtain ⟨⟨v, hv⟩, -⟩ := removeNew_cons.mp h2
      dsimp only at hv
      rw [hvisits.oldValues.lookup_insertAll] at hv
      cases hold : st.oldValues.lookup id with
      | none => exact ⟨v, by rwa [hold, Option.none_or] at hv⟩
      | some was => exact absurd hid (h.updated id was hold).2.1
    · intro id was now hwas hnow
      cases hold : st.oldValues.lookup id with
      | some was' =>
        have hstart := (h.updated id was' hold).1
        rw [hwas] at hstart
        cases hstart
        exact (hfirst id was hold).2
      | none =>
        -- the value did not change
        have hnew : id ∉ st.newIds := fun hmem => by
          rw [(h.created id hmem).1] at hwas
          cases hwas
        have hsame := h.untouched id hold hnew (h.removed_eq_none_of_live hnow)
        exact hd.unique id was (hsame.trans hwas)
  · rintro ⟨hintact, hcompatible⟩ order hvisits
    exact revert_succeeds h hd0 hvisits hintact hcompatible

end Revert

end Meta1Core.Db
