import Mathlib.Data.List.AList
import Mathlib.Tactic.Ring
import Meta1Core.Lib.KeyedSum

/-!
# Tables with totals

A table is a list of rows with pairwise different keys.  A row is written or erased by its key, and
a total over all rows moves by the weights of the row that was there and of the row that is there
now.
-/

namespace Meta1Core.Lib

universe u v

abbrev Rows (κ : Type u) (V : Type v) := AList fun _ : κ => V

namespace Rows

variable {κ : Type u} {V : Type v}

def total (weight : κ → V → Int) (t : Rows κ V) : Int :=
  Lib.total (fun e : Σ _ : κ, V => weight e.1 e.2) t.entries

variable [DecidableEq κ]

variable {weight : κ → V → Int} {t : Rows κ V}

theorem total_nonneg (h : ∀ k v, t.lookup k = some v → 0 ≤ weight k v) : 0 ≤ total weight t := by
  unfold total Lib.total
  refine List.sum_nonneg fun x hx => ?_
  obtain ⟨e, he, rfl⟩ := List.mem_map.mp hx
  exact h e.1 e.2 (AList.mem_lookup_iff.mpr he)

def weightAt (weight : κ → V → Int) (t : Rows κ V) (k : κ) : Int :=
  match t.lookup k with
  | some v => weight k v
  | none => 0

theorem weightAt_of_lookup {k : κ} {v : V} (h : t.lookup k = some v) :
    t.weightAt weight k = weight k v := by
  rw [weightAt, h]

theorem weightAt_of_none {k : κ} (h : t.lookup k = none) : t.weightAt weight k = 0 := by
  rw [weightAt, h]

theorem lookup_insert_eq (t : Rows κ V) (k k' : κ) (v : V) :
    (t.insert k v).lookup k' = if k' = k then some v else t.lookup k' := by
  by_cases h : k' = k
  · subst h
    rw [if_pos rfl, AList.lookup_insert]
  · rw [if_neg h, AList.lookup_insert_ne h]

theorem lookup_erase_eq (t : Rows κ V) (k k' : κ) :
    (t.erase k).lookup k' = if k' = k then none else t.lookup k' := by
  by_cases h : k' = k
  · subst h
    rw [if_pos rfl, AList.lookup_erase]
  · rw [if_neg h, AList.lookup_erase_ne h]

theorem mem_entries_iff {k : κ} {v : V} :
    (⟨k, v⟩ : Σ _ : κ, V) ∈ t.entries ↔ t.lookup k = some v :=
  AList.mem_lookup_iff.symm

theorem filter_erase {p : (Σ _ : κ, V) → Bool} {k : κ} {v : V} (h : t.lookup k = some v)
    (hp : p ⟨k, v⟩ = false) : (t.erase k).entries.filter p = t.entries.filter p := by
  obtain ⟨v', l1, l2, -, hsplit, herase⟩ :=
    List.exists_of_kerase (AList.mem_keys.mp (AList.lookup_isSome.mp (by rw [h]; rfl)))
  have hv' : t.lookup k = some v' := by
    rw [← mem_entries_iff, hsplit]
    exact List.mem_append_right _ List.mem_cons_self
  cases h.symm.trans hv'
  rw [show (t.erase k).entries = l1 ++ l2 from herase, hsplit, List.filter_append, List.filter_append,
    List.filter_cons_of_neg (by rw [hp]; exact Bool.false_ne_true)]

theorem total_erase (weight : κ → V → Int) (t : Rows κ V) (k : κ) :
    total weight (t.erase k) = total weight t - t.weightAt weight k := by
  by_cases hk : k ∈ t
  · obtain ⟨v, l1, l2, -, hsplit, herase⟩ := List.exists_of_kerase (AList.mem_keys.mp hk)
    have hlookup : t.lookup k = some v := by
      rw [← mem_entries_iff, hsplit]
      exact List.mem_append_right _ List.mem_cons_self
    have hentries : (t.erase k).entries = l1 ++ l2 := herase
    rw [weightAt_of_lookup hlookup, total, total, hentries, hsplit, total_append, total_append,
      total_cons]
    ring
  · have hentries : (t.erase k).entries = t.entries :=
      List.kerase_of_notMem_keys fun h => hk (AList.mem_keys.mpr h)
    rw [weightAt_of_none (AList.lookup_eq_none.mpr hk), total, hentries, total, sub_zero]

theorem le_total (weight : κ → V → Int) (h : ∀ k v, t.lookup k = some v → 0 ≤ weight k v) {k : κ}
    {v : V} (hk : t.lookup k = some v) :
    weight k v ≤ total weight t := by
  have hrest : 0 ≤ total weight (t.erase k) := by
    refine total_nonneg fun k' v' hv' => ?_
    rw [lookup_erase_eq] at hv'
    split at hv'
    · cases hv'
    · exact h k' v' hv'
  rw [total_erase, weightAt_of_lookup hk] at hrest
  omega

theorem total_insert (weight : κ → V → Int) (t : Rows κ V) (k : κ) (v : V) :
    total weight (t.insert k v) = total weight t - t.weightAt weight k + weight k v := by
  have hentries : (t.insert k v).entries = ⟨k, v⟩ :: (t.erase k).entries := rfl
  rw [← total_erase, total, hentries, total_cons, total, add_comm]

theorem total_le_total {w w' : κ → V → Int} {t' : Rows κ V}
    (hw : ∀ k v, t.lookup k = some v → 0 ≤ w k v)
    (h : ∀ k v', t'.lookup k = some v' → ∃ v, t.lookup k = some v ∧ w' k v' ≤ w k v) :
    total w' t' ≤ total w t := by
  induction t' using AList.insertRec generalizing t with
  | H0 => exact total_nonneg hw
  | IH k v' t' hk ih =>
    obtain ⟨v, hv, hle⟩ := h k v' (AList.lookup_insert _)
    have hrest : total w' t' ≤ total w (t.erase k) := by
      apply ih
      · intro j u hu
        rw [lookup_erase_eq] at hu
        split at hu
        · cases hu
        · exact hw j u hu
      · intro j u hu
        have hne : j ≠ k := by
          rintro rfl
          exact hk (AList.lookup_isSome.mp (by rw [hu]; rfl))
        rw [lookup_erase_eq, if_neg hne]
        exact h j u (by rw [lookup_insert_eq, if_neg hne, hu])
    rw [total_erase, weightAt_of_lookup hv] at hrest
    rw [total_insert, weightAt_of_none (AList.lookup_eq_none.mpr hk)]
    omega

end Rows

/-- Objects under ids that are handed out in sequence -/
structure Index (V : Type v) where
  rows : Rows Nat V
  next : Nat
  below : ∀ k ∈ rows, k < next

namespace Index

variable {V : Type v}

instance : EmptyCollection (Index V) := ⟨⟨∅, 0, fun _ h => absurd h (AList.notMem_empty _)⟩⟩

def find (t : Index V) (id : Nat) : Option V := t.rows.lookup id

def findId (t : Index V) (p : V → Bool) : Option Nat :=
  (t.rows.entries.find? fun e => p e.2).map (·.1)

def create (t : Index V) (v : V) : Index V :=
  { rows := t.rows.insert t.next v
    next := t.next + 1
    below := by
      intro k hk
      rcases (AList.mem_insert _).mp hk with rfl | hk
      · exact Nat.lt_succ_self _
      · exact Nat.lt_succ_of_lt (t.below k hk) }

def modify (t : Index V) (id : Nat) (f : V → V) : Index V :=
  { rows :=
      match t.rows.lookup id with
      | some v => t.rows.insert id (f v)
      | none => t.rows
    next := t.next
    below := by
      intro k hk
      split at hk
      · rename_i v hv
        rcases (AList.mem_insert _).mp hk with rfl | hk
        · exact t.below k (AList.lookup_isSome.mp (by rw [hv]; rfl))
        · exact t.below k hk
      · exact t.below k hk }

def remove (t : Index V) (id : Nat) : Index V :=
  { rows := t.rows.erase id
    next := t.next
    below := fun k hk => t.below k ((AList.mem_erase).mp hk).2 }

def total (weight : Nat → V → Int) (t : Index V) : Int := t.rows.total weight

def weightAt (weight : Nat → V → Int) (t : Index V) (id : Nat) : Int := t.rows.weightAt weight id

theorem find_next (t : Index V) : t.find t.next = none :=
  AList.lookup_eq_none.mpr fun h => Nat.lt_irrefl _ (t.below _ h)

variable {t : Index V} {id : Nat} {v : V} {p : V → Bool} {weight : Nat → V → Int}

theorem lt_next (h : t.find id = some v) : id < t.next :=
  t.below id (AList.lookup_isSome.mp (by rw [show t.rows.lookup id = some v from h]; rfl))

theorem find_create (t : Index V) (v : V) (id : Nat) :
    (t.create v).find id = if id = t.next then some v else t.find id :=
  Rows.lookup_insert_eq _ _ _ _

theorem find_foldl_create (t : Index V) (vs : List V) (id : Nat) :
    (vs.foldl create t).find id = if id < t.next then t.find id else vs[id - t.next]? := by
  induction vs generalizing t with
  | nil =>
    rw [List.foldl_nil, List.getElem?_nil]
    split
    · rfl
    · rename_i hlt
      cases hfind : t.find id with
      | none => rfl
      | some v => exact absurd (t.below id (AList.lookup_isSome.mp (by
          rw [show t.rows.lookup id = some v from hfind]; rfl))) hlt
  | cons v vs ih =>
    have hnext : (t.create v).next = t.next + 1 := rfl
    rw [List.foldl_cons, ih, hnext, find_create]
    by_cases heq : id = t.next
    · rw [if_pos (by omega), if_pos heq, if_neg (by omega), heq, Nat.sub_self]
      rfl
    · by_cases hlt : id < t.next
      · rw [if_pos (by omega), if_neg heq, if_pos hlt]
      · obtain ⟨n, hn⟩ : ∃ n, id - t.next = n + 1 := ⟨id - t.next - 1, by omega⟩
        have hsub : id - (t.next + 1) = n := by omega
        rw [if_neg (by omega), if_neg hlt, hn, hsub, List.getElem?_cons_succ]

theorem find_modify (t : Index V) (id : Nat) (f : V → V) (id' : Nat) :
    (t.modify id f).find id' = if id' = id then (t.find id).map f else t.find id' := by
  change (match t.rows.lookup id with
    | some v => t.rows.insert id (f v)
    | none => t.rows).lookup id' = _
  unfold find
  cases hlookup : t.rows.lookup id with
  | some v =>
    dsimp only
    rw [Rows.lookup_insert_eq]
    rfl
  | none =>
    dsimp only
    split
    · rename_i heq
      rw [heq, hlookup]
      rfl
    · rfl

theorem find_remove (t : Index V) (id id' : Nat) :
    (t.remove id).find id' = if id' = id then none else t.find id' :=
  Rows.lookup_erase_eq _ _ _

theorem filter_remove {p : (Σ _ : Nat, V) → Bool} (h : t.find id = some v) (hp : p ⟨id, v⟩ = false) :
    (t.remove id).rows.entries.filter p = t.rows.entries.filter p :=
  Rows.filter_erase h hp

theorem filter_modify {p : (Σ _ : Nat, V) → Bool} {f : V → V} (h : t.find id = some v)
    (hp : p ⟨id, v⟩ = false) (hp' : p ⟨id, f v⟩ = false) :
    (t.modify id f).rows.entries.filter p = t.rows.entries.filter p := by
  have hlookup : t.rows.lookup id = some v := h
  have hentries : (t.modify id f).rows.entries = ⟨id, f v⟩ :: (t.rows.erase id).entries := by
    simp only [modify, hlookup]
    rfl
  rw [hentries, List.filter_cons_of_neg (by rw [hp']; exact Bool.false_ne_true),
    Rows.filter_erase h hp]

theorem forall_find_iff {P : Nat → V → Prop} :
    (∀ id v, t.find id = some v → P id v) ↔ ∀ e ∈ t.rows.entries, P e.1 e.2 :=
  ⟨fun h e he => h e.1 e.2 (Rows.mem_entries_iff.mp he),
    fun h id v hv => h ⟨id, v⟩ (Rows.mem_entries_iff.mpr hv)⟩

theorem of_findId_eq_some (h : t.findId p = some id) :
    ∃ v, t.find id = some v ∧ p v = true := by
  obtain ⟨e, he, rfl⟩ := Option.map_eq_some_iff.mp h
  exact ⟨e.2, Rows.mem_entries_iff.mp (List.mem_of_find?_eq_some he), by
    simpa using List.find?_some he⟩

theorem of_findId_eq_none (h : t.findId p = none) (hv : t.find id = some v) : p v = false := by
  have hnone := Option.map_eq_none_iff.mp h
  simpa using List.find?_eq_none.mp hnone ⟨id, v⟩ (Rows.mem_entries_iff.mpr hv)

theorem findId_eq_none (h : ∀ id v, t.find id = some v → p v = false) : t.findId p = none := by
  refine Option.map_eq_none_iff.mpr (List.find?_eq_none.mpr fun e he => ?_)
  rw [h e.1 e.2 (Rows.mem_entries_iff.mp he)]
  exact Bool.false_ne_true

theorem modify_eq_of_find (h : t.find id = some v) (f : V → V) :
    (t.modify id fun _ => f v) = t.modify id f := by
  have hlookup : t.rows.lookup id = some v := h
  simp only [modify, hlookup]

theorem find_foldl_remove (t : Index V) (ids : List Nat) (id : Nat) :
    (ids.foldl remove t).find id = if id ∈ ids then none else t.find id := by
  induction ids generalizing t with
  | nil => rw [List.foldl_nil, if_neg List.not_mem_nil]
  | cons i ids ih =>
    rw [List.foldl_cons, ih, find_remove]
    by_cases hmem : id ∈ ids
    · rw [if_pos hmem, if_pos (List.mem_cons_of_mem _ hmem)]
    · simp only [hmem, List.mem_cons, or_false, if_false]

theorem find_foldl_remove_eq_filter {ids : List Nat}
    (hids : id ∈ ids ↔ ∃ v, t.find id = some v ∧ p v = false) :
    (ids.foldl remove t).find id = (t.find id).filter p := by
  rw [find_foldl_remove]
  cases hfind : t.find id with
  | none => rw [ite_self]; rfl
  | some v =>
    have hfails : id ∈ ids ↔ p v = false := by
      rw [hids, hfind]
      simp
    by_cases hp : p v = true
    · rw [if_neg (by simp [hfails, hp]), Option.filter_some, if_pos hp]
    · rw [if_pos (hfails.mpr (Bool.eq_false_iff.mpr hp)), Option.filter_some, if_neg hp]

theorem total_nonneg (h : ∀ id v, t.find id = some v → 0 ≤ weight id v) : 0 ≤ total weight t :=
  Rows.total_nonneg fun _ _ hv => h _ _ hv

theorem total_le_total {w w' : Nat → V → Int} {t' : Index V}
    (hw : ∀ id v, t.find id = some v → 0 ≤ w id v)
    (h : ∀ id v', t'.find id = some v' → ∃ v, t.find id = some v ∧ w' id v' ≤ w id v) :
    total w' t' ≤ total w t :=
  Rows.total_le_total hw h

theorem total_create (weight : Nat → V → Int) (t : Index V) (v : V) :
    total weight (t.create v) = total weight t + weight t.next v := by
  change Rows.total weight (t.rows.insert t.next v) = _
  rw [Rows.total_insert, Rows.weightAt_of_none t.find_next, sub_zero]
  rfl

theorem total_modify (weight : Nat → V → Int) (h : t.find id = some v) (f : V → V) :
    total weight (t.modify id f) = total weight t - weight id v + weight id (f v) := by
  have hrows : (t.modify id f).rows = t.rows.insert id (f v) := by
    have hlookup : t.rows.lookup id = some v := h
    simp only [modify, hlookup]
  rw [total, hrows, Rows.total_insert, Rows.weightAt_of_lookup h]
  rfl

theorem total_remove (weight : Nat → V → Int) (h : t.find id = some v) :
    total weight (t.remove id) = total weight t - weight id v := by
  change Rows.total weight (t.rows.erase id) = _
  rw [Rows.total_erase, Rows.weightAt_of_lookup h]
  rfl

theorem weightAt_of_find (h : t.find id = some v) : t.weightAt weight id = weight id v :=
  Rows.weightAt_of_lookup h

theorem weightAt_modify (weight : Nat → V → Int) (h : t.find id = some v) (f : V → V) (id' : Nat) :
    (t.modify id f).weightAt weight id' =
      t.weightAt weight id' + if id' = id then weight id (f v) - weight id v else 0 := by
  have hfind := find_modify t id f id'
  by_cases heq : id' = id
  · subst heq
    rw [if_pos rfl, h] at hfind
    rw [if_pos rfl, weightAt_of_find hfind, weightAt_of_find h]
    ring
  · rw [if_neg heq] at hfind ⊢
    rw [add_zero]
    show (match (t.modify id f).rows.lookup id' with | some v => weight id' v | none => 0) = _
    rw [show (t.modify id f).rows.lookup id' = t.rows.lookup id' from hfind]
    rfl

theorem weightAt_nonneg (h : ∀ id v, t.find id = some v → 0 ≤ weight id v) (id : Nat) :
    0 ≤ t.weightAt weight id := by
  cases hfind : t.find id with
  | none => exact (Rows.weightAt_of_none hfind).ge
  | some v => rw [weightAt_of_find hfind]; exact h id v hfind

theorem weightAt_le_total (h : ∀ id v, t.find id = some v → 0 ≤ weight id v) (id : Nat) :
    t.weightAt weight id ≤ total weight t := by
  cases hfind : t.find id with
  | none => exact (Rows.weightAt_of_none hfind).le.trans (total_nonneg h)
  | some v =>
    rw [weightAt_of_find hfind]
    exact Rows.le_total weight (fun k w hw => h k w hw) hfind

end Index

end Meta1Core.Lib
