import Mathlib.Data.List.TakeWhile
import Meta1Core.Db.Exactness

/-!
# When undo throws

In a session of calls that all return, everything the undo state names is still there, and only the
first loop of `undo` can throw.
-/

namespace Meta1Core.Db

open Lib (Table)

variable {V : Type} [UniqueKeys V]

/-- The states that the calls of a session can lead to when all of them return -/
inductive Legal : Body V → UndoDatabase V → UndoDatabase V → Prop
  | done {s : UndoDatabase V} : Legal .done s s
  | create {s s1 s' : UndoDatabase V} {index : IndexId} {v : V} {rest : Body V} :
      s.create index v = (s1, none) → Legal rest s1 s' → Legal (.create index v rest) s s'
  | modify {s s1 s' : UndoDatabase V} {id : ObjectId} {v : V} {rest : Body V} :
      s.modify id v = (s1, none) → Legal rest s1 s' → Legal (.modify id v rest) s s'
  | remove {s s1 s' : UndoDatabase V} {id : ObjectId} {rest : Body V} :
      s.remove id = (s1, none) → Legal rest s1 s' → Legal (.remove id rest) s s'
  | undone {s s1 s2 s' : UndoDatabase V} {inner rest : Body V} {order : Iteration V}
      {st : UndoState V} : Legal inner s.startUndoSession s1 → s1.stack.head? = some st →
      order.Visits st → s1.undo order = .ok s2 → Legal rest s2 s' → Legal (.undone inner rest) s s'
  | merged {s s1 s2 s' : UndoDatabase V} {inner rest : Body V} {order : Iteration V}
      {st : UndoState V} : Legal inner s.startUndoSession s1 → s1.stack.head? = some st →
      order.Visits st → s1.merge order = .ok s2 → Legal rest s2 s' → Legal (.merged inner rest) s s'

theorem Legal.exec {body : Body V} {s s' : UndoDatabase V} (h : Legal body s s') :
    Exec body s s' := by
  induction h with
  | done => exact .done
  | create hcall _ ih =>
    apply Exec.create
    rw [hcall]
    exact ih
  | modify hcall _ ih =>
    apply Exec.modify
    rw [hcall]
    exact ih
  | remove hcall _ ih =>
    apply Exec.remove
    rw [hcall]
    exact ih
  | undone _ hhead hvisits hundo _ ihinner ihrest =>
    exact .undone ihinner hhead hvisits hundo ihrest
  | merged _ hhead hvisits hmerge _ ihinner ihrest =>
    exact .merged ihinner hhead hvisits hmerge ihrest

/-! ## Nothing is gone -/

namespace Intact

variable {st : UndoState V} {d : ObjectDatabase V} {id : ObjectId} {v : V}

section

omit [UniqueKeys V]

theorem start (d : ObjectDatabase V) : Intact ({} : UndoState V) d := by
  constructor
  · intro id was h
    simp at h
  · intro id h
    simp at h

theorem insert (h : Intact st d) (next : IndexId → Nat) :
    Intact st { d with objects := d.objects.insert id v, nextId := next } := by
  have hkept : ∀ id', (∃ w, d.objects.lookup id' = some w) →
      ∃ w, (d.objects.insert id v).lookup id' = some w := by
    intro id' hlive
    rw [Table.lookup_insert_eq]
    by_cases heq : id' = id
    · simp [heq]
    · simpa [heq] using hlive
  exact ⟨fun id' was hwas => hkept id' (h.oldValues id' was hwas),
    fun id' hnew => hkept id' (h.newIds id' hnew)⟩

theorem onCreate (h : Intact st d) (hlive : ∃ w, d.objects.lookup id = some w) :
    Intact (st.onCreate id) d := by
  refine ⟨h.oldValues, fun id' hnew => ?_⟩
  rcases Finset.mem_insert.mp hnew with rfl | hmem
  · exact hlive
  · exact h.newIds id' hmem

theorem onModify (h : Intact st d) (hlive : ∃ w, d.objects.lookup id = some w) :
    Intact (st.onModify id v) d := by
  unfold UndoState.onModify
  split
  · exact h
  split
  · exact h
  · refine ⟨fun id' was hwas => ?_, h.newIds⟩
    rw [Table.lookup_insert_eq] at hwas
    split at hwas
    · rename_i heq
      rw [heq]
      exact hlive
    · exact h.oldValues id' was hwas

theorem onRemove (h : Intact st d)
    (hnamed : ∀ was, st.oldValues.lookup id = some was → id ∉ st.newIds) :
    Intact (st.onRemove id v) (d.remove id) := by
  have hkept : ∀ id', id' ≠ id → (∃ w, d.objects.lookup id' = some w) →
      ∃ w, (d.remove id).objects.lookup id' = some w := by
    intro id' hne hlive
    show ∃ w, (d.objects.erase id).lookup id' = some w
    rw [Table.lookup_erase_eq, if_neg hne]
    exact hlive
  unfold UndoState.onRemove
  split
  · rename_i hnew
    constructor
    · intro id' was hwas
      apply hkept id' _ (h.oldValues id' was hwas)
      rintro rfl
      exact hnamed was hwas hnew
    · intro id' hmem
      obtain ⟨hne, hmem⟩ := Finset.mem_erase.mp hmem
      exact hkept id' hne (h.newIds id' hmem)
  · rename_i hnew
    have hids : ∀ id' ∈ st.newIds, ∃ w, (d.remove id).objects.lookup id' = some w := by
      intro id' hmem
      exact hkept id' (fun heq => hnew (heq ▸ hmem)) (h.newIds id' hmem)
    split
    · refine ⟨fun id' was hwas => ?_, hids⟩
      rw [Table.lookup_erase_eq] at hwas
      split at hwas
      · cases hwas
      · rename_i hne
        exact hkept id' hne (h.oldValues id' was hwas)
    · rename_i hold
      have holds : ∀ id' was, st.oldValues.lookup id' = some was →
          ∃ w, (d.remove id).objects.lookup id' = some w := by
        intro id' was hwas
        apply hkept id' _ (h.oldValues id' was hwas)
        rintro rfl
        rw [hold] at hwas
        cases hwas
      split
      · exact ⟨holds, hids⟩
      · exact ⟨holds, hids⟩

end

end Intact

def NothingGone (s : UndoDatabase V) : Prop := ∀ st ∈ s.stack.head?, Intact st s.db

namespace Watching

variable {d0 : ObjectDatabase V} {st : UndoState V} {open_ older : List (UndoState V)}
  {s s' : UndoDatabase V} {id : ObjectId} {v : V}

theorem nothingGone_iff (h : Watching d0 st open_ older s) : NothingGone s ↔ Intact st s.db := by
  simp [NothingGone, h.stack]

theorem nothingGone_create {index : IndexId} (h : Watching d0 st open_ older s)
    (hcall : s.create index v = (s', none)) (hs : NothingGone s) : NothingGone s' := by
  have hintact := h.nothingGone_iff.mp hs
  unfold UndoDatabase.create at hcall
  dsimp only at hcall
  split at hcall
  · cases hcall
  · cases hcall
    have hnote : ∀ db f, ({ s with db := db } : UndoDatabase V).note f =
        { s with db := db, stack := f st :: (open_ ++ older) } :=
      fun db f => note_eq (s := { s with db := db }) h.enabled h.stack f
    rw [hnote]
    intro st' hst'
    cases hst'
    apply Intact.onCreate (hintact.insert _)
    exact ⟨v, Finmap.lookup_insert _⟩

theorem nothingGone_modify (h : Watching d0 st open_ older s)
    (hcall : s.modify id v = (s', none)) (hs : NothingGone s) : NothingGone s' := by
  have hintact := h.nothingGone_iff.mp hs
  unfold UndoDatabase.modify at hcall
  split at hcall
  · cases hcall
  · by_cases hviolates : s.db.Violates id v
    · simp [ObjectDatabase.modify, hviolates] at hcall
    · simp only [ObjectDatabase.modify, if_neg hviolates, Prod.mk.injEq, and_true] at hcall
      rw [← hcall, note_eq h.enabled h.stack]
      intro st' hst'
      cases hst'
      apply Intact.onModify (hintact.insert _)
      exact ⟨v, Finmap.lookup_insert _⟩

theorem nothingGone_remove (h : Watching d0 st open_ older s)
    (hcall : s.remove id = (s', none)) (hs : NothingGone s) : NothingGone s' := by
  have hintact := h.nothingGone_iff.mp hs
  unfold UndoDatabase.remove at hcall
  split at hcall
  · cases hcall
  · cases hcall
    rw [note_eq h.enabled h.stack]
    intro st' hst'
    cases hst'
    exact hintact.onRemove fun was hwas => (h.records.updated id was hwas).2.1

end Watching

theorem Legal.nothingGone {body : Body V} {s s' : UndoDatabase V} (h : Legal body s s') :
    ∀ {d0 : ObjectDatabase V} {st : UndoState V} {open_ older : List (UndoState V)},
      Watching d0 st open_ older s → open_.length + body.depth ≤ s.maxSize → NothingGone s →
      NothingGone s' := by
  induction h with
  | done => exact fun _ _ hs => hs
  | @create s s1 s' index v rest hcall _ ih =>
    intro d0 st open_ older hw hdepth hs
    obtain ⟨st1, hw1, hmax, -⟩ := hw.create index v
    rw [hcall] at hw1 hmax
    exact ih hw1 (hmax.symm ▸ hdepth) (hw.nothingGone_create hcall hs)
  | @modify s s1 s' id v rest hcall _ ih =>
    intro d0 st open_ older hw hdepth hs
    obtain ⟨st1, hw1, hmax, -⟩ := hw.modify id v
    rw [hcall] at hw1 hmax
    exact ih hw1 (hmax.symm ▸ hdepth) (hw.nothingGone_modify hcall hs)
  | @remove s s1 s' id rest hcall _ ih =>
    intro d0 st open_ older hw hdepth hs
    obtain ⟨st1, hw1, hmax, -⟩ := hw.remove id
    rw [hcall] at hw1 hmax
    exact ih hw1 (hmax.symm ▸ hdepth) (hw.nothingGone_remove hcall hs)
  | @undone s s1 s2 s' inner rest order st1 hinner hhead hvisits hundo _ ihinner ihrest =>
    intro d0 st open_ older hw hdepth hs
    have hdepth' : open_.length + max (inner.depth + 1) rest.depth ≤ s.maxSize := hdepth
    obtain ⟨older0, hw0⟩ := hw.startUndoSession (by omega)
    obtain ⟨top, older1, hw1, hmax1, hactive1⟩ := hinner.exec.watching hw0 (by
      rw [startUndoSession_maxSize, List.length_cons]
      omega)
    rw [startUndoSession_maxSize] at hmax1
    rw [startUndoSession_activeSessions hw.enabled] at hactive1
    obtain ⟨hdb, hw2, hmax2, -⟩ :=
      hw.undone hw1 (hactive1 ▸ Nat.succ_pos _) hhead hvisits hundo
    apply ihrest hw2
    · rw [hmax2, hmax1]
      omega
    · -- the outer state names what it named before
      rw [hw2.nothingGone_iff, hdb]
      exact hw.nothingGone_iff.mp hs
  | @merged s s1 s2 s' inner rest order st1 hinner hhead hvisits hmerge _ ihinner ihrest =>
    intro d0 st open_ older hw hdepth hs
    have hdepth' : open_.length + max (inner.depth + 1) rest.depth ≤ s.maxSize := hdepth
    obtain ⟨older0, hw0⟩ := hw.startUndoSession (by omega)
    have hroom : (st :: open_).length + inner.depth ≤ s.startUndoSession.maxSize := by
      rw [startUndoSession_maxSize, List.length_cons]
      omega
    obtain ⟨top, older1, hw1, hmax1, hactive1⟩ := hinner.exec.watching hw0 hroom
    rw [startUndoSession_maxSize] at hmax1
    rw [startUndoSession_activeSessions hw.enabled] at hactive1
    obtain ⟨C, hcausal, hC, hdb, hw2, hmax2, -⟩ :=
      hw.merged hw1 (hactive1 ▸ Nat.succ_pos _) hhead hvisits hmerge
    apply ihrest hw2
    · rw [hmax2, hmax1]
      omega
    · have hinner1 := ihinner hw0 hroom (hw0.nothingGone_iff.mpr (.start _))
      rw [hw2.nothingGone_iff, hdb, hC.intact_iff hw1.records hcausal]
      exact ⟨hw.nothingGone_iff.mp hs, hw1.nothingGone_iff.mp hinner1⟩

/-- Every old value that shares a unique key with the present value of another object of its index
comes after the old value of that object. -/
def Unobstructed (entries : List (ObjectId × V)) (d : ObjectDatabase V) : Prop :=
  ∀ e ∈ entries, ¬d.objects.Any fun id v => id ≠ e.1 ∧ id.index = e.1.index ∧
    UniqueKeys.clash e.2 v ∧ id ∉ (entries.takeWhile fun e' => e'.1 ≠ e.1).map Prod.fst

instance (entries : List (ObjectId × V)) (d : ObjectDatabase V) :
    Decidable (Unobstructed entries d) :=
  inferInstanceAs (Decidable (∀ e ∈ entries, _))

variable {entries : List (ObjectId × V)}

theorem unobstructed_iff {d : ObjectDatabase V} :
    Unobstructed entries d ↔ ∀ e ∈ entries, ∀ id v, d.objects.lookup id = some v → id ≠ e.1 →
      id.index = e.1.index → UniqueKeys.clash e.2 v →
      id ∈ (entries.takeWhile fun e' => e'.1 ≠ e.1).map Prod.fst := by
  unfold Unobstructed
  refine forall₂_congr fun e _ => ?_
  rw [Table.any_iff]
  push Not
  rfl

theorem unobstructed_cons {d0 d : ObjectDatabase V} (hd0 : d0.Wf) {id : ObjectId} {was : V}
    {rest : List (ObjectId × V)} (hnodup : (((id, was) :: rest).map Prod.fst).Nodup)
    (hwas : ∀ e ∈ (id, was) :: rest, d0.objects.lookup e.1 = some e.2) :
    Unobstructed ((id, was) :: rest) d ↔
      ¬d.Violates id was ∧ Unobstructed rest { d with objects := d.objects.insert id was } := by
  rw [List.map_cons, List.nodup_cons] at hnodup
  have hnotMem : ∀ e ∈ rest, e.1 ≠ id := fun e he heq =>
    hnodup.1 (List.mem_map.mpr ⟨e, he, heq⟩)
  have htake : ∀ e ∈ rest, (((id, was) :: rest).takeWhile fun e' => e'.1 ≠ e.1) =
      (id, was) :: rest.takeWhile fun e' => e'.1 ≠ e.1 := by
    intro e he
    rw [List.takeWhile_cons_of_pos (by simpa using (hnotMem e he).symm)]
  rw [unobstructed_iff, unobstructed_iff, List.forall_mem_cons, violates_iff]
  apply and_congr
  · rw [List.takeWhile_cons_of_neg (by simp)]
    simp only [List.map_nil, List.not_mem_nil]
    push Not
    rfl
  · refine forall₂_congr fun e he => ?_
    rw [htake e he]
    simp only [List.map_cons, List.mem_cons, Table.lookup_insert_eq]
    constructor
    · intro h id' v' hlookup hne hindex hclash
      split at hlookup
      · -- two old values stood side by side at the start
        rename_i heq
        cases hlookup
        exfalso
        apply hd0.unique e.1 e.2 (hwas e (List.mem_cons_of_mem _ he))
        exact violates_iff.mpr
          ⟨id', was, heq ▸ hwas _ List.mem_cons_self, hne, hindex, hclash⟩
      · rename_i hid
        exact (h id' v' hlookup hne hindex hclash).resolve_left hid
    · intro h id' v' hlookup hne hindex hclash
      by_cases hid : id' = id
      · exact .inl hid
      · apply Or.inr
        apply h id' v' _ hne hindex hclash
        rw [if_neg hid]
        exact hlookup

theorem restoreValues_iff {d0 : ObjectDatabase V} (hd0 : d0.Wf) {d : ObjectDatabase V}
    (hnodup : (entries.map Prod.fst).Nodup) (hwas : ∀ e ∈ entries, d0.objects.lookup e.1 = some e.2)
    (hlive : ∀ e ∈ entries, ∃ v, d.objects.lookup e.1 = some v) :
    (∃ d', restoreValues entries d = .ok d') ↔ Unobstructed entries d := by
  induction entries generalizing d with
  | nil => simp [restoreValues, Unobstructed]
  | cons e rest ih =>
    obtain ⟨id, was⟩ := e
    have hlive' : ∀ e ∈ rest, ∃ v,
        ({ d with objects := d.objects.insert id was } : ObjectDatabase V).objects.lookup e.1 =
          some v := by
      intro e he
      obtain ⟨v, hv⟩ := hlive e (List.mem_cons_of_mem _ he)
      show ∃ v, (d.objects.insert id was).lookup e.1 = some v
      rw [Table.lookup_insert_eq]
      by_cases heq : e.1 = id
      · simp [heq]
      · simp [heq, hv]
    rw [unobstructed_cons hd0 hnodup hwas,
      ← ih (List.nodup_cons.mp hnodup).2 (fun e he => hwas e (List.mem_cons_of_mem _ he)) hlive']
    simp only [restoreValues_cons, exists_and_left]
    exact and_iff_right (hlive (id, was) List.mem_cons_self)

theorem Legal.watching {s s' : UndoDatabase V} {body : Body V} (henabled : s.disabled = false)
    (hwf : s.db.Wf) (hdepth : body.depth ≤ s.maxSize) (h : Legal body s.startUndoSession s') :
    ∃ st older, Watching s.db st [] older s' ∧ Intact st s'.db ∧ 0 < s'.activeSessions := by
  obtain ⟨older0, hw0⟩ := watching_start henabled hwf
  have hroom : ([] : List (UndoState V)).length + body.depth ≤ s.startUndoSession.maxSize := by
    rw [startUndoSession_maxSize, List.length_nil, Nat.zero_add]
    exact hdepth
  obtain ⟨st, older, hw, -, hactive⟩ := h.exec.watching hw0 hroom
  rw [startUndoSession_activeSessions henabled] at hactive
  have hgone := h.nothingGone hw0 hroom (hw0.nothingGone_iff.mpr (.start _))
  exact ⟨st, older, hw, hw.nothingGone_iff.mp hgone, hactive ▸ Nat.succ_pos _⟩

namespace Watching

variable {d0 : ObjectDatabase V} {st : UndoState V} {older : List (UndoState V)}
  {s : UndoDatabase V} {order : Iteration V}

theorem undo_iff (hw : Watching d0 st [] older s) (hintact : Intact st s.db)
    (hactive : 0 < s.activeSessions) (hvisits : order.Visits st) :
    (∃ r, s.undo order = .ok r) ↔ Unobstructed order.oldValues s.db := by
  have hold : ∀ e ∈ order.oldValues, st.oldValues.lookup e.1 = some e.2 :=
    fun e he => (hvisits.oldValues.mem_iff e.1 e.2).mp he
  rw [undo_eq hw.enabled hactive hw.stack, ← restoreValues_iff hw.start_wf
    hvisits.oldValues.nodup (fun e he => (hw.records.updated e.1 e.2 (hold e he)).1)
    (fun e he => hintact.oldValues e.1 e.2 (hold e he))]
  constructor
  · rintro ⟨r, hr⟩
    cases hrevert : revert order s.db with
    | error e =>
      rw [hrevert] at hr
      cases hr
    | ok db =>
      obtain ⟨d1, h1, -⟩ := Lib.of_bind hrevert
      exact ⟨d1, h1⟩
  · rintro ⟨d1, h1⟩
    rw [revert_of_restored hw.records hw.start_wf hvisits hintact h1]
    exact ⟨_, rfl⟩

theorem undo_db {r : UndoDatabase V} (hw : Watching d0 st [] older s)
    (hactive : 0 < s.activeSessions) (hvisits : order.Visits st) (hr : s.undo order = .ok r) :
    r.db = d0 := by
  rw [undo_eq hw.enabled hactive hw.stack] at hr
  cases hrevert : revert order s.db with
  | error e =>
    rw [hrevert] at hr
    cases hr
  | ok db =>
    rw [hrevert] at hr
    cases hr
    exact revert_eq hw.records hvisits hrevert

end Watching

/-- After calls in a session that all return, `undo` returns exactly when the order in which it
visits the old values puts each of them back after those of the objects that hold one of its unique
keys now; it then restores the start of the session. -/
theorem undo_returns_iff {s s' : UndoDatabase V} {body : Body V} (henabled : s.disabled = false)
    (hwf : s.db.Wf) (hdepth : body.depth ≤ s.maxSize) (h : Legal body s.startUndoSession s') :
    ∃ st older, s'.stack = st :: older ∧ ∀ order : Iteration V, order.Visits st →
      ((∃ r, s'.undo order = .ok r) ↔ Unobstructed order.oldValues s'.db) ∧
      ∀ r, s'.undo order = .ok r → r.db = s.db := by
  obtain ⟨st, older, hw, hintact, hactive⟩ := h.watching henabled hwf hdepth
  refine ⟨st, [] ++ older, hw.stack, fun order hvisits => ?_⟩
  constructor
  · exact hw.undo_iff hintact hactive hvisits
  · exact fun r hr => hw.undo_db hactive hvisits hr

theorem undo_returns_iff_handOver :
    ∃ s', Legal (handOver .done) oneBalance.startUndoSession s' ∧
      ∃ st older, s'.stack = st :: older ∧ ∀ order : Iteration AccountBalance, order.Visits st →
        ((∃ r, s'.undo order = .ok r) ↔ Unobstructed order.oldValues s'.db) ∧
        ∀ r, s'.undo order = .ok r → r.db = oneBalance.db :=
  have hlegal : Legal (handOver .done) oneBalance.startUndoSession _ := .modify rfl .done
  ⟨_, hlegal, undo_returns_iff rfl (by decide) (by decide) hlegal⟩

def twoBalances : UndoDatabase AccountBalance where
  db := {
    objects := (Finmap.singleton ⟨balanceIndex, 0⟩
      ({ owner := 1, assetType := 0, balance := 100 } : AccountBalance)).insert ⟨balanceIndex, 1⟩
        { owner := 2, assetType := 0, balance := 100 }
    nextId := fun index => if index = balanceIndex then 2 else 0 }
  disabled := false
  activeSessions := 0
  stack := []
  maxSize := 256

def swapOwners : Body AccountBalance :=
  .modify ⟨balanceIndex, 0⟩ { owner := 3, assetType := 0, balance := 100 } <|
  .modify ⟨balanceIndex, 1⟩ { owner := 1, assetType := 0, balance := 100 } <|
  .modify ⟨balanceIndex, 0⟩ { owner := 2, assetType := 0, balance := 100 } .done

theorem not_unobstructed_of_swap {d : ObjectDatabase V} {id id' : ObjectId} {was was' now now' : V}
    (hmem : (id, was) ∈ entries) (hmem' : (id', was') ∈ entries)
    (hnow : d.objects.lookup id = some now) (hnow' : d.objects.lookup id' = some now')
    (hne : id' ≠ id) (hindex : id'.index = id.index) (hclash : UniqueKeys.clash was now')
    (hclash' : UniqueKeys.clash was' now) :
    ¬Unobstructed entries d := by
  rw [unobstructed_iff]
  intro h
  have hfirst := h _ hmem id' now' hnow' hne hindex hclash
  have hsecond := h _ hmem' id now hnow hne.symm hindex.symm hclash'
  -- the loop cannot pass each of them before the other
  have hnot : ∀ {a b : ObjectId}, (entries.takeWhile fun e => e.1 ≠ a) <+:
      (entries.takeWhile fun e => e.1 ≠ b) →
      b ∉ (entries.takeWhile fun e => e.1 ≠ a).map Prod.fst := by
    intro a b hbefore hb
    obtain ⟨e, he, rfl⟩ := List.mem_map.mp hb
    simpa using List.mem_takeWhile_imp (hbefore.subset he)
  rcases List.prefix_or_prefix_of_prefix
    (List.takeWhile_prefix fun e : ObjectId × V => decide (e.1 ≠ id))
    (List.takeWhile_prefix fun e : ObjectId × V => decide (e.1 ≠ id') : _ <+: entries)
    with hbefore | hafter
  · exact hnot hbefore hfirst
  · exact hnot hafter hsecond

/-- All calls of the swap return, and `undo` throws in every order. -/
theorem undo_swapped : ∃ s', Legal swapOwners twoBalances.startUndoSession s' ∧
    ∀ st, s'.stack.head? = some st → ∀ order : Iteration AccountBalance, order.Visits st →
      ¬∃ r, s'.undo order = .ok r := by
  have hlegal : Legal swapOwners twoBalances.startUndoSession _ :=
    .modify rfl (.modify rfl (.modify rfl .done))
  obtain ⟨st, older, hw, hintact, hactive⟩ := hlegal.watching rfl (by decide) (by decide)
  refine ⟨_, hlegal, fun st' hst' order hvisits => ?_⟩
  obtain rfl : st = st' := by
    rw [hw.stack] at hst'
    exact Option.some.inj hst'
  rw [hw.undo_iff hintact hactive hvisits]
  obtain rfl := (List.cons.inj hw.stack).1
  have hmem : (⟨balanceIndex, 0⟩, { owner := 1, assetType := 0, balance := 100 }) ∈
      order.oldValues := (hvisits.oldValues.mem_iff _ _).mpr (by decide)
  have hmem' : (⟨balanceIndex, 1⟩, { owner := 2, assetType := 0, balance := 100 }) ∈
      order.oldValues := (hvisits.oldValues.mem_iff _ _).mpr (by decide)
  exact not_unobstructed_of_swap hmem hmem' rfl rfl (by decide) rfl (by decide) (by decide)

end Meta1Core.Db
