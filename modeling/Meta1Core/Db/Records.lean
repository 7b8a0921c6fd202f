import Meta1Core.Db.UndoDatabase

/-!
# What an undo state records

An undo state stands between two databases: the one at the start of its session and the one now.
-/

namespace Meta1Core.Db

open Lib (Table)

variable {V : Type} [UniqueKeys V]

/-! ## Well-formed databases -/

theorem violates_iff {d : ObjectDatabase V} {id : ObjectId} {v : V} :
    d.Violates id v ↔ ∃ id' v', d.objects.lookup id' = some v' ∧ id' ≠ id ∧
      id'.index = id.index ∧ UniqueKeys.clash v v' :=
  Table.any_iff

/-- Ids come from the next id of their index, and no two objects share a unique key. -/
structure ObjectDatabase.Wf (d : ObjectDatabase V) : Prop where
  live_lt : ∀ id v, d.objects.lookup id = some v → id.number < d.nextId id.index
  unique : ∀ id v, d.objects.lookup id = some v → ¬d.Violates id v

instance (d : ObjectDatabase V) : Decidable d.Wf :=
  decidable_of_iff (¬d.objects.Any (fun id _ => d.nextId id.index ≤ id.number) ∧
      ¬d.objects.Any fun id v => d.Violates id v) <| by
    rw [Table.any_iff, Table.any_iff]
    push Not
    exact ⟨fun h => ⟨h.1, h.2⟩, fun h => ⟨h.live_lt, h.unique⟩⟩

omit [UniqueKeys V] in
theorem getObject_ok {d : ObjectDatabase V} {id : ObjectId} {v : V} :
    d.getObject id = .ok v ↔ d.objects.lookup id = some v := by
  unfold ObjectDatabase.getObject
  cases d.objects.lookup id with
  | none => simp
  | some w => simp

theorem insert_unique {d : ObjectDatabase V} {id : ObjectId} {v : V} (hd : d.Wf)
    (hfits : ¬d.Violates id v) (id' : ObjectId) (v' : V)
    (h : (d.objects.insert id v).lookup id' = some v') :
    ¬({ d with objects := d.objects.insert id v } : ObjectDatabase V).Violates id' v' := by
  rw [violates_iff]
  rintro ⟨id2, v2, hlookup2, hne, hindex, hclash⟩
  rw [Table.lookup_insert_eq] at h
  dsimp only at hlookup2
  rw [Table.lookup_insert_eq] at hlookup2
  by_cases hid : id' = id
  · -- the new object against an old one
    rw [if_pos hid] at h
    cases h
    rw [if_neg (fun heq => hne (heq.trans hid.symm))] at hlookup2
    subst hid
    exact hfits (violates_iff.mpr ⟨id2, v2, hlookup2, hne, hindex, hclash⟩)
  · rw [if_neg hid] at h
    by_cases hid2 : id2 = id
    · -- an old object against the new one
      rw [if_pos hid2] at hlookup2
      cases hlookup2
      subst hid2
      exact hfits (violates_iff.mpr
        ⟨id', v', h, Ne.symm hne, hindex.symm, UniqueKeys.symm _ _ hclash⟩)
    · rw [if_neg hid2] at hlookup2
      exact hd.unique id' v' h (violates_iff.mpr ⟨id2, v2, hlookup2, hne, hindex, hclash⟩)

theorem create_wf {d : ObjectDatabase V} (hd : d.Wf) {index : IndexId} {v : V}
    (hfits : ¬d.Violates ⟨index, d.nextId index⟩ v) :
    (({ d with objects := d.objects.insert ⟨index, d.nextId index⟩ v } : ObjectDatabase V).setNextId
      index (d.nextId index + 1)).Wf := by
  refine ⟨fun id' v' hlookup => ?_, insert_unique hd hfits⟩
  show id'.number < Function.update d.nextId index (d.nextId index + 1) id'.index
  change (d.objects.insert ⟨index, d.nextId index⟩ v).lookup id' = some v' at hlookup
  rw [Table.lookup_insert_eq] at hlookup
  split at hlookup
  · rename_i heq
    rw [heq, Function.update_self]
    exact Nat.lt_succ_self _
  · have hlt := hd.live_lt id' v' hlookup
    rw [Function.update_apply]
    split
    · rename_i heq
      rw [heq] at hlt
      exact Nat.lt_succ_of_lt hlt
    · exact hlt

theorem erase_wf {d : ObjectDatabase V} (hd : d.Wf) (id : ObjectId) : (d.remove id).Wf := by
  have hold : ∀ id' v', (d.remove id).objects.lookup id' = some v' →
      d.objects.lookup id' = some v' := by
    intro id' v' h
    rw [ObjectDatabase.remove, Table.lookup_erase_eq] at h
    split at h
    · cases h
    · exact h
  refine ⟨fun id' v' h => hd.live_lt id' v' (hold id' v' h), fun id' v' h hviolates => ?_⟩
  obtain ⟨id2, v2, h2, hrest⟩ := violates_iff.mp hviolates
  exact hd.unique id' v' (hold id' v' h) (violates_iff.mpr ⟨id2, v2, hold id2 v2 h2, hrest⟩)

theorem modify_wf {d : ObjectDatabase V} (hd : d.Wf) {id : ObjectId} {before : V} (v : V)
    (hlive : d.objects.lookup id = some before) : (d.modify id v).1.Wf := by
  unfold ObjectDatabase.modify
  split
  · exact erase_wf hd id
  · rename_i hfits
    refine ⟨fun id' v' h => ?_, insert_unique hd hfits⟩
    dsimp only at h ⊢
    rw [Table.lookup_insert_eq] at h
    split at h
    · rename_i heq
      rw [heq]
      exact hd.live_lt id before hlive
    · exact hd.live_lt id' v' h

/-- What the undo state `st` records between the database `d0` at the start of its session and `d`
now.  An object that a refused `modify` dropped is noted but gone. -/
structure Records (d0 : ObjectDatabase V) (st : UndoState V) (d : ObjectDatabase V) : Prop where
  updated : ∀ id was, st.oldValues.lookup id = some was →
    d0.objects.lookup id = some was ∧ id ∉ st.newIds ∧ st.removed.lookup id = none
  created : ∀ id ∈ st.newIds, d0.objects.lookup id = none ∧ st.removed.lookup id = none ∧
    d0.nextId id.index ≤ id.number ∧ id.number < d.nextId id.index
  removed : ∀ id was, st.removed.lookup id = some was →
    d0.objects.lookup id = some was ∧ d.objects.lookup id = none
  untouched : ∀ id, st.oldValues.lookup id = none → id ∉ st.newIds → st.removed.lookup id = none →
    d.objects.lookup id = d0.objects.lookup id
  next_noted : ∀ index next, st.oldIndexNextIds.lookup index = some next → d0.nextId index = next
  next_untouched : ∀ index, st.oldIndexNextIds.lookup index = none →
    d.nextId index = d0.nextId index
  next_le : ∀ index, d0.nextId index ≤ d.nextId index

omit [UniqueKeys V] in
theorem Records.start (d : ObjectDatabase V) : Records d {} d := by
  constructor <;> simp

namespace Records

variable {d0 d d' : ObjectDatabase V} {st : UndoState V} {id : ObjectId}

theorem lookup_eq_none_of_le {d : ObjectDatabase V} (hd : d.Wf)
    (hle : d.nextId id.index ≤ id.number) : d.objects.lookup id = none := by
  cases hlookup : d.objects.lookup id with
  | none => rfl
  | some v => exact absurd (hd.live_lt id v hlookup) (Nat.not_lt.mpr hle)

omit [UniqueKeys V] in
theorem removed_eq_none_of_live (h : Records d0 st d) {v : V}
    (hlive : d.objects.lookup id = some v) : st.removed.lookup id = none := by
  cases hremoved : st.removed.lookup id with
  | none => rfl
  | some was =>
    rw [(h.removed id was hremoved).2] at hlive
    cases hlive

omit [UniqueKeys V] in
theorem onCreate_lookup (st : UndoState V) (id : ObjectId) (index : IndexId) :
    (st.onCreate id).oldIndexNextIds.lookup index =
      if index = id.index then some ((st.oldIndexNextIds.lookup id.index).getD id.number)
      else st.oldIndexNextIds.lookup index := by
  unfold UndoState.onCreate
  cases hlookup : st.oldIndexNextIds.lookup id.index with
  | none => exact Table.lookup_insert_eq _ _ _ _
  | some next =>
    by_cases hindex : index = id.index
    · rw [if_pos hindex, hindex]
      exact hlookup
    · rw [if_neg hindex]

theorem create (h : Records d0 st d) (hd0 : d0.Wf) (index : IndexId) (v : V) :
    let id : ObjectId := ⟨index, d.nextId index⟩
    Records d0 (st.onCreate id)
      (({ d with objects := d.objects.insert id v } : ObjectDatabase V).setNextId index
        (id.number + 1)) := by
  intro id
  have hfresh : d0.objects.lookup id = none := lookup_eq_none_of_le hd0 (h.next_le index)
  -- what was there at the start is not the new object
  have hne : ∀ id' was, d0.objects.lookup id' = some was → id' ≠ id := by
    rintro id' was hwas rfl
    rw [hfresh] at hwas
    cases hwas
  have hnext : ∀ index', (Function.update d.nextId index (id.number + 1)) index' =
      if index' = index then d.nextId index + 1 else d.nextId index' := by
    intro index'
    rw [Function.update_apply]
  have hnoted : ∀ index', (st.onCreate id).oldIndexNextIds.lookup index' =
      if index' = index then some ((st.oldIndexNextIds.lookup index).getD (d.nextId index))
      else st.oldIndexNextIds.lookup index' := by
    exact fun index' => onCreate_lookup st id index'
  refine ⟨fun id' was hwas => ?_, fun id' hid' => ?_, fun id' was hwas => ?_,
    fun id' hold hnew hremoved => ?_, fun index' next hlookup => ?_, fun index' hlookup => ?_,
    fun index' => ?_⟩
  · obtain ⟨hstart, hnew, hremoved⟩ := h.updated id' was hwas
    refine ⟨hstart, fun hmem => ?_, hremoved⟩
    rcases Finset.mem_insert.mp hmem with heq | hmem
    · exact hne id' was hstart heq
    · exact hnew hmem
  · rcases Finset.mem_insert.mp hid' with rfl | hmem
    · refine ⟨hfresh, ?_, h.next_le index, ?_⟩
      · cases hremoved : st.removed.lookup id with
        | none => exact hremoved
        | some was => exact absurd rfl (hne id was (h.removed id was hremoved).1)
      · show id.number < Function.update d.nextId index (id.number + 1) id.index
        rw [hnext, if_pos rfl]
        exact Nat.lt_succ_self _
    · obtain ⟨hstart, hremoved, hle, hlt⟩ := h.created id' hmem
      refine ⟨hstart, hremoved, hle, ?_⟩
      show id'.number < Function.update d.nextId index (id.number + 1) id'.index
      rw [hnext]
      split
      · rename_i heq
        rw [heq] at hlt
        omega
      · exact hlt
  · obtain ⟨hstart, hgone⟩ := h.removed id' was hwas
    refine ⟨hstart, ?_⟩
    show (d.objects.insert id v).lookup id' = none
    rw [Finmap.lookup_insert_of_ne _ (hne id' was hstart), hgone]
  · obtain ⟨hid', hnew⟩ := not_or.mp fun hmem => hnew (Finset.mem_insert.mpr hmem)
    show (d.objects.insert id v).lookup id' = _
    rw [Finmap.lookup_insert_of_ne _ hid', h.untouched id' hold hnew hremoved]
  · rw [hnoted] at hlookup
    split at hlookup
    · rename_i hindex
      subst hindex
      cases hlookup' : st.oldIndexNextIds.lookup index' with
      | none =>
        rw [hlookup'] at hlookup
        cases hlookup
        exact (h.next_untouched index' hlookup').symm
      | some next' =>
        rw [hlookup'] at hlookup
        cases hlookup
        exact h.next_noted index' next' hlookup'
    · exact h.next_noted index' next hlookup
  · rw [hnoted] at hlookup
    split at hlookup
    · cases hlookup
    · rename_i hindex
      show Function.update d.nextId index (id.number + 1) index' = _
      rw [hnext, if_neg hindex, h.next_untouched index' hlookup]
  · show _ ≤ Function.update d.nextId index (id.number + 1) index'
    rw [hnext]
    split
    · rename_i hindex
      rw [hindex]
      exact Nat.le_succ_of_le (h.next_le index)
    · exact h.next_le index'

omit [UniqueKeys V] in
theorem modify (h : Records d0 st d) {before : V} (hlive : d.objects.lookup id = some before)
    (hframe : ∀ id' ≠ id, d'.objects.lookup id' = d.objects.lookup id')
    (hnext : d'.nextId = d.nextId) : Records d0 (st.onModify id before) d' := by
  have hnotRemoved := h.removed_eq_none_of_live hlive
  -- the fields that do not speak about the modified object
  have hremoved : ∀ id' was, st.removed.lookup id' = some was →
      d0.objects.lookup id' = some was ∧ d'.objects.lookup id' = none := by
    intro id' was hwas
    obtain ⟨hstart, hgone⟩ := h.removed id' was hwas
    have hne : id' ≠ id := by
      rintro rfl
      rw [hnotRemoved] at hwas
      cases hwas
    exact ⟨hstart, (hframe id' hne).trans hgone⟩
  have hcreated : ∀ id' ∈ st.newIds, d0.objects.lookup id' = none ∧
      st.removed.lookup id' = none ∧ d0.nextId id'.index ≤ id'.number ∧
      id'.number < d'.nextId id'.index := by
    rw [hnext]
    exact h.created
  unfold UndoState.onModify
  split
  · rename_i hnew
    refine ⟨h.updated, hcreated, hremoved, fun id' hold hnew' hremoved' => ?_, h.next_noted,
      hnext ▸ h.next_untouched, hnext ▸ h.next_le⟩
    rw [hframe id' (fun heq => hnew' (heq ▸ hnew)), h.untouched id' hold hnew' hremoved']
  · rename_i hnew
    split
    · rename_i was hwas
      refine ⟨h.updated, hcreated, hremoved, fun id' hold hnew' hremoved' => ?_, h.next_noted,
        hnext ▸ h.next_untouched, hnext ▸ h.next_le⟩
      have hne : id' ≠ id := by
        rintro rfl
        rw [hwas] at hold
        cases hold
      rw [hframe id' hne, h.untouched id' hold hnew' hremoved']
    · rename_i hold
      refine ⟨fun id' was hwas => ?_, hcreated, hremoved, fun id' hold' hnew' hremoved' => ?_,
        h.next_noted, hnext ▸ h.next_untouched, hnext ▸ h.next_le⟩
      · rw [Table.lookup_insert_eq] at hwas
        split at hwas
        · rename_i heq
          cases hwas
          subst heq
          exact ⟨(h.untouched id' hold hnew hnotRemoved).symm.trans hlive, hnew, hnotRemoved⟩
        · exact h.updated id' was hwas
      · rw [Table.lookup_insert_eq] at hold'
        split at hold'
        · cases hold'
        · rename_i hne
          rw [hframe id' hne, h.untouched id' hold' hnew' hremoved']

omit [UniqueKeys V] in
theorem remove (h : Records d0 st d) {before : V} (hlive : d.objects.lookup id = some before) :
    Records d0 (st.onRemove id before) (d.remove id) := by
  have hgone : ∀ id', (d.remove id).objects.lookup id' =
      if id' = id then none else d.objects.lookup id' := Table.lookup_erase_eq d.objects id
  have hnotRemoved := h.removed_eq_none_of_live hlive
  have hremoved : ∀ id' was, st.removed.lookup id' = some was →
      d0.objects.lookup id' = some was ∧ (d.remove id).objects.lookup id' = none := by
    intro id' was hwas
    obtain ⟨hstart, hlookup⟩ := h.removed id' was hwas
    rw [hgone, hlookup]
    exact ⟨hstart, ite_self none⟩
  unfold UndoState.onRemove
  split
  · rename_i hnew
    obtain ⟨hstart, -⟩ := h.created id hnew
    refine ⟨fun id' was hwas => ?_, fun id' hmem => ?_, hremoved,
      fun id' hold hnew' hremoved' => ?_, h.next_noted, h.next_untouched, h.next_le⟩
    · obtain ⟨hstart', hnew', hremoved'⟩ := h.updated id' was hwas
      exact ⟨hstart', fun hmem => hnew' (Finset.mem_of_mem_erase hmem), hremoved'⟩
    · exact h.created id' (Finset.mem_of_mem_erase hmem)
    · rw [hgone]
      split
      · rename_i heq
        rw [heq, hstart]
      · rename_i hne
        exact h.untouched id' hold (fun hmem => hnew' (Finset.mem_erase.mpr ⟨hne, hmem⟩)) hremoved'
  · rename_i hnew
    -- the value at the start moves to `removed`, from the old values or from the database
    have hmoved : ∀ was, d0.objects.lookup id = some was → ∀ oldValues : Table ObjectId V,
        (∀ id', oldValues.lookup id' = if id' = id then none else st.oldValues.lookup id') →
        Records d0 { st with oldValues := oldValues, removed := st.removed.insert id was }
          (d.remove id) := by
      intro was hstart oldValues hold
      refine ⟨fun id' was' hwas' => ?_, fun id' hmem => ?_, fun id' was' hwas' => ?_,
        fun id' hold' hnew' hremoved' => ?_, h.next_noted, h.next_untouched, h.next_le⟩
      · rw [hold] at hwas'
        split at hwas'
        · cases hwas'
        · rename_i hne
          rw [Finmap.lookup_insert_of_ne _ hne]
          exact h.updated id' was' hwas'
      · obtain ⟨hstart', hrest⟩ := h.created id' hmem
        have hne : id' ≠ id := fun heq => hnew (heq ▸ hmem)
        rw [Finmap.lookup_insert_of_ne _ hne]
        exact ⟨hstart', hrest⟩
      · rw [Table.lookup_insert_eq] at hwas'
        split at hwas'
        · rename_i heq
          cases hwas'
          subst heq
          exact ⟨hstart, by rw [hgone, if_pos rfl]⟩
        · exact hremoved id' was' hwas'
      · rw [Table.lookup_insert_eq] at hremoved'
        split at hremoved'
        · cases hremoved'
        · rename_i hne
          rw [hold, if_neg hne] at hold'
          rw [hgone, if_neg hne, h.untouched id' hold' hnew' hremoved']
    split
    · rename_i was hwas
      exact hmoved was (h.updated id was hwas).1 _ (Table.lookup_erase_eq st.oldValues id)
    · rename_i hold
      rw [hnotRemoved]
      refine hmoved before ((h.untouched id hold hnew hnotRemoved).symm.trans hlive) _ ?_
      intro id'
      split
      · rename_i heq
        rw [heq, hold]
      · rfl

end Records

end Meta1Core.Db
