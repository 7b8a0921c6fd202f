import Mathlib.Order.Defs.Unbundled
import Meta1Core.Lib.Ranges

/-!
# Maps that are ordered by a comparison

`std::map` keeps its entries in the order of a comparison of keys.  `lower_bound` is the first entry
that is not less than a key, and the iterator before it is the last entry that is.
-/

namespace Meta1Core.Lib

universe u v

structure OrderedMap (κ : Type u) (V : Type v) (lt : κ → κ → Prop) where
  entries : List (κ × V)
  sorted : entries.Pairwise fun e e' => lt e.1 e'.1

namespace OrderedMap

variable {κ : Type u} {V : Type v} {lt : κ → κ → Prop}

instance : EmptyCollection (OrderedMap κ V lt) := ⟨⟨[], .nil⟩⟩

instance : Membership (κ × V) (OrderedMap κ V lt) := ⟨fun m e => e ∈ m.entries⟩

variable {m : OrderedMap κ V lt} {e old : κ × V} {k : κ}

theorem mem_def : e ∈ m ↔ e ∈ m.entries := Iff.rfl

@[simp] theorem notMem_empty (e : κ × V) : e ∉ (∅ : OrderedMap κ V lt) := List.not_mem_nil

theorem eq_or_lt (m : OrderedMap κ V lt) {e' : κ × V} (he : e ∈ m) (he' : e' ∈ m) :
    e = e' ∨ lt e.1 e'.1 ∨ lt e'.1 e.1 := by
  obtain ⟨entries, sorted⟩ := m
  rw [mem_def] at he he'
  dsimp only at he he'
  induction sorted with
  | nil => cases he
  | cons hfirst _ ih =>
    rcases List.mem_cons.mp he with rfl | hrest
    · rcases List.mem_cons.mp he' with rfl | hrest'
      · exact .inl rfl
      · exact .inr (.inl (hfirst e' hrest'))
    · rcases List.mem_cons.mp he' with rfl | hrest'
      · exact .inr (.inr (hfirst e hrest))
      · exact ih hrest hrest'

variable [DecidableRel lt]

def lowerBound (m : OrderedMap κ V lt) (k : κ) : Option (κ × V) := m.entries.find? fun e => ¬lt e.1 k

/-- `--lower_bound( k )` -/
def previous (m : OrderedMap κ V lt) (k : κ) : Option (κ × V) :=
  (m.entries.takeWhile fun e => lt e.1 k).getLast?

theorem of_lowerBound_eq_some [IsStrictOrder κ lt] (h : m.lowerBound k = some e) :
    e ∈ m ∧ ¬lt e.1 k ∧ ∀ e' ∈ m, ¬lt e'.1 k → ¬lt e'.1 e.1 := by
  unfold lowerBound at h
  have hmem := List.mem_of_find?_eq_some h
  have hnot : ¬lt e.1 k := by simpa using List.find?_some h
  refine ⟨hmem, hnot, ?_⟩
  intro e' he' hnot' hlt
  -- the entries before the first one that is not less are less
  obtain ⟨-, before, after, hentries, hbefore⟩ := List.find?_eq_some_iff_append.mp h
  have hsorted := m.sorted
  rw [hentries, List.pairwise_append, List.pairwise_cons] at hsorted
  rw [mem_def, hentries, List.mem_append, List.mem_cons] at he'
  rcases he' with he' | rfl | he'
  · have hless := hbefore e' he'
    simp only [decide_not, Bool.not_not, decide_eq_true_iff] at hless
    exact hnot' hless
  · exact irrefl_of lt e'.1 hlt
  · exact irrefl_of lt e.1 (trans_of lt (hsorted.2.1.1 e' he') hlt)

theorem of_lowerBound_eq_none (h : m.lowerBound k = none) :
    ∀ e ∈ m, lt e.1 k := by
  intro e he
  unfold lowerBound at h
  simpa using List.find?_eq_none.mp h e he

theorem takeWhile_eq [IsStrictOrder κ lt] (m : OrderedMap κ V lt) (k : κ) :
    m.entries.takeWhile (fun e => lt e.1 k) = m.entries.filter fun e => lt e.1 k := by
  apply ClosedBelow.takeWhile_eq
  apply ClosedBelow.of_pairwise m.sorted
  intro e e' hlt hless
  exact decide_eq_true (trans_of lt hlt (of_decide_eq_true hless))

theorem of_previous_eq_some [IsStrictOrder κ lt] (h : m.previous k = some e) :
    e ∈ m ∧ lt e.1 k ∧ ∀ e' ∈ m, lt e'.1 k → ¬lt e.1 e'.1 := by
  unfold previous at h
  rw [takeWhile_eq] at h
  obtain ⟨before, hfilter⟩ := List.getLast?_eq_some_iff.mp h
  have hmem : e ∈ m.entries.filter fun e => lt e.1 k := by simp [hfilter]
  obtain ⟨hmem, hlt⟩ := List.mem_filter.mp hmem
  refine ⟨hmem, of_decide_eq_true hlt, ?_⟩
  intro e' he' hlt' hafter
  have hsorted := m.sorted.filter fun e => lt e.1 k
  have hmem' : e' ∈ m.entries.filter fun e => lt e.1 k := List.mem_filter.mpr ⟨he', decide_eq_true hlt'⟩
  rw [hfilter] at hsorted hmem'
  rw [List.pairwise_append] at hsorted
  rcases List.mem_append.mp hmem' with hbefore | hlast
  · exact irrefl_of lt e.1 (trans_of lt hafter (hsorted.2.2 e' hbefore e (List.mem_singleton_self _)))
  · rw [List.mem_singleton.mp hlast] at hafter
    exact irrefl_of lt e.1 hafter

theorem of_previous_eq_none [IsStrictOrder κ lt] (h : m.previous k = none) :
    ∀ e ∈ m, ¬lt e.1 k := by
  intro e he hlt
  unfold previous at h
  rw [takeWhile_eq, List.getLast?_eq_none_iff, List.filter_eq_nil_iff] at h
  exact h e he (decide_eq_true hlt)

/-- `m[ k ] = v`, on the list: an equivalent key stays as it is. -/
def assignList (lt : κ → κ → Prop) [DecidableRel lt] (k : κ) (v : V) : List (κ × V) → List (κ × V)
  | [] => [(k, v)]
  | e :: rest =>
    if lt k e.1 then (k, v) :: e :: rest
    else if lt e.1 k then e :: assignList lt k v rest
    else (e.1, v) :: rest

theorem key_of_mem_assignList {v : V} {entries : List (κ × V)} (h : e ∈ assignList lt k v entries) :
    e.1 = k ∨ ∃ e' ∈ entries, e'.1 = e.1 := by
  induction entries with
  | nil =>
    rw [List.mem_singleton.mp h]
    exact .inl rfl
  | cons first rest ih =>
    unfold assignList at h
    split at h
    · rcases List.mem_cons.mp h with rfl | h
      · exact .inl rfl
      · exact .inr ⟨e, h, rfl⟩
    split at h
    · rcases List.mem_cons.mp h with rfl | h
      · exact .inr ⟨e, List.mem_cons_self, rfl⟩
      · exact (ih h).imp_right fun ⟨e', he', hkey⟩ => ⟨e', List.mem_cons_of_mem _ he', hkey⟩
    · rcases List.mem_cons.mp h with rfl | h
      · exact .inr ⟨first, List.mem_cons_self, rfl⟩
      · exact .inr ⟨e, List.mem_cons_of_mem _ h, rfl⟩

theorem sorted_assignList [IsStrictOrder κ lt] (k : κ) (v : V) {entries : List (κ × V)}
    (h : entries.Pairwise fun e e' => lt e.1 e'.1) :
    (assignList lt k v entries).Pairwise fun e e' => lt e.1 e'.1 := by
  induction h with
  | nil => exact List.pairwise_singleton _ _
  | @cons first rest hfirst hrest ih =>
    unfold assignList
    split
    · rename_i hlt
      apply List.pairwise_cons.mpr
      refine ⟨?_, List.pairwise_cons.mpr ⟨hfirst, hrest⟩⟩
      intro e he
      rcases List.mem_cons.mp he with rfl | he
      · exact hlt
      · exact trans_of lt hlt (hfirst e he)
    split
    · rename_i hlt
      apply List.pairwise_cons.mpr
      refine ⟨?_, ih⟩
      intro e he
      rcases key_of_mem_assignList he with hkey | ⟨e', he', hkey⟩
      · rw [hkey]
        exact hlt
      · rw [← hkey]
        exact hfirst e' he'
    · exact List.pairwise_cons.mpr ⟨hfirst, hrest⟩

def assign [IsStrictOrder κ lt] (m : OrderedMap κ V lt) (k : κ) (v : V) : OrderedMap κ V lt :=
  ⟨assignList lt k v m.entries, sorted_assignList k v m.sorted⟩

def erase (m : OrderedMap κ V lt) (k : κ) : OrderedMap κ V lt :=
  ⟨m.entries.filter fun e => lt e.1 k ∨ lt k e.1, m.sorted.filter _⟩

theorem mem_assign_new [IsStrictOrder κ lt] (v : V) (hnew : ∀ e ∈ m, lt e.1 k ∨ lt k e.1) :
    e ∈ m.assign k v ↔ e = (k, v) ∨ e ∈ m := by
  obtain ⟨entries, sorted⟩ := m
  show e ∈ assignList lt k v entries ↔ e = (k, v) ∨ e ∈ entries
  replace hnew : ∀ e ∈ entries, lt e.1 k ∨ lt k e.1 := hnew
  clear sorted
  induction entries with
  | nil => simp [assignList]
  | cons first rest ih =>
    have ih := ih fun e he => hnew e (List.mem_cons_of_mem _ he)
    unfold assignList
    split
    · exact List.mem_cons
    split
    · rw [List.mem_cons, List.mem_cons]
      tauto
    · rename_i hnot hnot'
      exact absurd (hnew first List.mem_cons_self) (by tauto)

theorem mem_assign_old [IsStrictOrder κ lt] (v : V) (hold : old ∈ m) :
    e ∈ m.assign old.1 v ↔ e = (old.1, v) ∨ e ∈ m ∧ e ≠ old := by
  obtain ⟨entries, sorted⟩ := m
  show e ∈ assignList lt old.1 v entries ↔ e = (old.1, v) ∨ e ∈ entries ∧ e ≠ old
  replace hold : old ∈ entries := hold
  induction sorted with
  | nil => cases hold
  | @cons first rest hfirst _ ih =>
    unfold assignList
    split
    · -- nothing from the first entry on is less than the first one
      rename_i hlt
      rcases List.mem_cons.mp hold with rfl | hrest
      · exact absurd hlt (irrefl_of lt _)
      · exact absurd (trans_of lt hlt (hfirst old hrest)) (irrefl_of lt _)
    split
    · rename_i hlt
      have hne : first ≠ old := by
        rintro rfl
        exact irrefl_of lt _ hlt
      have hrest : old ∈ rest := (List.mem_cons.mp hold).resolve_left hne.symm
      have hrest := ih hrest
      rw [List.mem_cons, List.mem_cons]
      constructor
      · rintro (rfl | he)
        · exact .inr ⟨.inl rfl, hne⟩
        · exact (hrest.mp he).imp_right fun hand => ⟨.inr hand.1, hand.2⟩
      · rintro (heq | ⟨rfl | he, hne'⟩)
        · exact .inr (hrest.mpr (.inl heq))
        · exact .inl rfl
        · exact .inr (hrest.mpr (.inr ⟨he, hne'⟩))
    · rename_i hnot
      rcases List.mem_cons.mp hold with rfl | hrest
      · rw [List.mem_cons, List.mem_cons]
        have hne : ∀ e ∈ rest, e ≠ old := by
          rintro e he rfl
          exact irrefl_of lt _ (hfirst e he)
        constructor
        · rintro (rfl | he)
          · exact .inl rfl
          · exact .inr ⟨.inr he, hne e he⟩
        · rintro (rfl | ⟨rfl | he, hne'⟩)
          · exact .inl rfl
          · exact absurd rfl hne'
          · exact .inr he
      · exact absurd (hfirst old hrest) hnot

theorem mem_erase [IsStrictOrder κ lt] (hold : old ∈ m) : e ∈ m.erase old.1 ↔ e ∈ m ∧ e ≠ old := by
  show e ∈ m.entries.filter _ ↔ _
  rw [List.mem_filter, decide_eq_true_iff]
  apply and_congr_right
  intro he
  constructor
  · rintro hlt rfl
    exact irrefl_of lt _ (or_self_iff.mp hlt)
  · intro hne
    exact (m.eq_or_lt he hold).resolve_left hne

end OrderedMap

end Meta1Core.Lib
