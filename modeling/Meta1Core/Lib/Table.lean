import Mathlib.Data.Finmap
import Mathlib.Data.List.Sort

/-!
# Finite maps and the order in which they are visited

A hash table has contents, which a finite map captures, and an order in which a loop over it sees
them.  A loop is a function of a list that enumerates the map, and what it guarantees must hold for
every such list.
-/

namespace Meta1Core.Lib

universe u v

abbrev Table (κ : Type u) (V : Type v) := Finmap fun _ : κ => V

namespace Table

variable {κ : Type u} {V : Type v} [DecidableEq κ]

theorem lookup_insert_eq (m : Table κ V) (k k' : κ) (v : V) :
    (m.insert k v).lookup k' = if k' = k then some v else m.lookup k' := by
  by_cases h : k' = k
  · subst h
    rw [if_pos rfl, Finmap.lookup_insert]
  · rw [if_neg h, Finmap.lookup_insert_of_ne _ h]

theorem lookup_erase_eq (m : Table κ V) (k k' : κ) :
    (m.erase k).lookup k' = if k' = k then none else m.lookup k' := by
  by_cases h : k' = k
  · subst h
    rw [if_pos rfl, Finmap.lookup_erase]
  · rw [if_neg h, Finmap.lookup_erase_ne h]

def Any (m : Table κ V) (P : κ → V → Prop) : Prop := ∃ e ∈ m.entries, P e.1 e.2

instance (m : Table κ V) (P : κ → V → Prop) [∀ k v, Decidable (P k v)] : Decidable (m.Any P) :=
  Multiset.decidableExistsMultiset (p := fun e : Σ _ : κ, V => P e.1 e.2)

theorem any_iff {m : Table κ V} {P : κ → V → Prop} :
    m.Any P ↔ ∃ k v, m.lookup k = some v ∧ P k v := by
  constructor
  · rintro ⟨⟨k, v⟩, hmem, hP⟩
    exact ⟨k, v, Finmap.lookup_eq_some_iff.mpr hmem, hP⟩
  · rintro ⟨k, v, hlookup, hP⟩
    exact ⟨⟨k, v⟩, Finmap.lookup_eq_some_iff.mp hlookup, hP⟩

structure Visits (m : Table κ V) (order : List (κ × V)) : Prop where
  nodup : (order.map Prod.fst).Nodup
  mem_iff : ∀ k v, (k, v) ∈ order ↔ m.lookup k = some v

instance (m : Table κ V) : (order : List (κ × V)) → [DecidableEq V] →
    Decidable (m.Visits order) := fun order _ =>
  decidable_of_iff ((order.map Prod.fst).Nodup ∧ (∀ e ∈ order, m.lookup e.1 = some e.2) ∧
      ¬m.Any fun k v => (k, v) ∉ order) <| by
    rw [any_iff]
    push Not
    constructor
    · rintro ⟨hnodup, hsub, hall⟩
      exact ⟨hnodup, fun k v => ⟨fun h => hsub (k, v) h, hall k v⟩⟩
    · rintro ⟨hnodup, hiff⟩
      exact ⟨hnodup, fun e he => (hiff e.1 e.2).mp he, fun k v h => (hiff k v).mpr h⟩

theorem exists_visits (m : Table κ V) : ∃ order, m.Visits order := by
  induction m using Finmap.induction_on with
  | H a =>
    refine ⟨a.entries.map fun e => (e.1, e.2), ?_, ?_⟩
    · rw [List.map_map]
      exact a.nodupKeys
    · intro k v
      rw [Finmap.lookup_eq_some_iff, List.mem_map]
      constructor
      · rintro ⟨e, he, heq⟩
        cases heq
        exact he
      · intro h
        exact ⟨⟨k, v⟩, h, rfl⟩

def sortedKeys (code : κ → Nat) (hcode : Function.Injective code) (keys : Finset κ) : List κ :=
  Quot.liftOn keys.val (fun l => l.insertionSort fun a b => code a ≤ code b) fun l l' hperm => by
    have hanti : Std.Antisymm fun a b : κ => code a ≤ code b :=
      ⟨fun a b hab hba => hcode (Nat.le_antisymm hab hba)⟩
    have htotal : Std.Total fun a b : κ => code a ≤ code b := ⟨fun a b => Nat.le_total _ _⟩
    have htrans : IsTrans κ fun a b : κ => code a ≤ code b := ⟨fun a b c => Nat.le_trans⟩
    exact (((List.perm_insertionSort _ l).trans hperm).trans
      (List.perm_insertionSort _ l').symm).eq_of_pairwise' (List.pairwise_insertionSort _ l)
        (List.pairwise_insertionSort _ l')

omit [DecidableEq κ] in
theorem coe_sortedKeys (code : κ → Nat) (hcode : Function.Injective code) (keys : Finset κ) :
    (sortedKeys code hcode keys : Multiset κ) = keys.val := by
  obtain ⟨s, hs⟩ := keys
  induction s using Quot.ind with
  | mk l => exact Multiset.coe_eq_coe.mpr (List.perm_insertionSort _ l)

theorem visits_sorted (code : κ → Nat) (hcode : Function.Injective code) (m : Table κ V) :
    m.Visits ((sortedKeys code hcode m.keys).filterMap fun k => (m.lookup k).map (k, ·)) := by
  have hkeys := coe_sortedKeys code hcode m.keys
  have hsome {k k' : κ} {v : V} : (m.lookup k').map (k', ·) = some (k, v) ↔
      k' = k ∧ m.lookup k = some v := by
    constructor
    · intro h
      obtain ⟨v', hv', heq⟩ := Option.map_eq_some_iff.mp h
      cases heq
      exact ⟨rfl, hv'⟩
    · rintro ⟨rfl, h⟩
      rw [h, Option.map_some]
  constructor
  · have hnodup : (sortedKeys code hcode m.keys).Nodup := Multiset.coe_nodup.mp (hkeys ▸ m.keys.nodup)
    rw [List.map_filterMap]
    refine hnodup.filterMap fun k k' a hk hk' => ?_
    obtain ⟨⟨b, v⟩, h, rfl⟩ := Option.map_eq_some_iff.mp hk
    obtain ⟨⟨b', v'⟩, h', heq⟩ := Option.map_eq_some_iff.mp hk'
    rw [(hsome.mp h).1, (hsome.mp h').1]
    exact heq.symm
  · intro k v
    rw [List.mem_filterMap]
    constructor
    · rintro ⟨k', -, h⟩
      exact (hsome.mp h).2
    · intro h
      refine ⟨k, ?_, hsome.mpr ⟨rfl, h⟩⟩
      rw [← Multiset.mem_coe, hkeys]
      exact Finmap.mem_keys.mpr (Finmap.mem_iff.mpr ⟨v, h⟩)

theorem exists_visits_first {m : Table κ V} {k : κ} {v : V} (h : m.lookup k = some v) :
    ∃ order, m.Visits ((k, v) :: order) := by
  obtain ⟨order, hnodup, hiff⟩ := exists_visits (m.erase k)
  refine ⟨order, ?_, ?_⟩
  · rw [List.map_cons, List.nodup_cons]
    refine ⟨fun hmem => ?_, hnodup⟩
    obtain ⟨⟨k', v'⟩, hentry, rfl⟩ := List.mem_map.mp hmem
    have hlookup := (hiff k' v').mp hentry
    rw [Finmap.lookup_erase] at hlookup
    cases hlookup
  · intro k' v'
    rw [List.mem_cons, hiff, lookup_erase_eq, Prod.mk.injEq]
    by_cases hk : k' = k
    · subst hk
      rw [if_pos rfl, h]
      simp [eq_comm]
    · simp [hk]

def insertAll (entries : List (κ × V)) (m : Table κ V) : Table κ V :=
  entries.foldl (fun m e => m.insert e.1 e.2) m

def eraseAll (keys : List κ) (m : Table κ V) : Table κ V :=
  keys.foldl (fun m k => m.erase k) m

theorem lookup_insertAll_of_notMem {entries : List (κ × V)} {m : Table κ V} {k : κ}
    (h : k ∉ entries.map Prod.fst) : (insertAll entries m).lookup k = m.lookup k := by
  induction entries generalizing m with
  | nil => rfl
  | cons e entries ih =>
    rw [List.map_cons, List.mem_cons, not_or] at h
    change (insertAll entries (m.insert e.1 e.2)).lookup k = _
    rw [ih h.2, Finmap.lookup_insert_of_ne _ h.1]

theorem lookup_insertAll_of_mem {entries : List (κ × V)} {m : Table κ V} {k : κ} {v : V}
    (hnodup : (entries.map Prod.fst).Nodup) (h : (k, v) ∈ entries) :
    (insertAll entries m).lookup k = some v := by
  induction entries generalizing m with
  | nil => cases h
  | cons e entries ih =>
    rw [List.map_cons, List.nodup_cons] at hnodup
    change (insertAll entries (m.insert e.1 e.2)).lookup k = _
    rcases List.mem_cons.mp h with rfl | h
    · rw [lookup_insertAll_of_notMem hnodup.1, Finmap.lookup_insert]
    · exact ih hnodup.2 h

theorem lookup_eraseAll {keys : List κ} {m : Table κ V} {k : κ} :
    (eraseAll keys m).lookup k = if k ∈ keys then none else m.lookup k := by
  induction keys generalizing m with
  | nil => rfl
  | cons head keys ih =>
    change (eraseAll keys (m.erase head)).lookup k = _
    rw [ih, lookup_erase_eq]
    by_cases hk : k = head
    · simp [hk]
    · simp [hk]

namespace Visits

variable {m : Table κ V} {order : List (κ × V)}

theorem mem_keys_iff (h : m.Visits order) {k : κ} : k ∈ order.map Prod.fst ↔ k ∈ m := by
  rw [Finmap.mem_iff, List.mem_map]
  constructor
  · rintro ⟨⟨k', v⟩, hmem, rfl⟩
    exact ⟨v, (h.mem_iff k' v).mp hmem⟩
  · rintro ⟨v, hlookup⟩
    exact ⟨(k, v), (h.mem_iff k v).mpr hlookup, rfl⟩

theorem lookup_insertAll (h : m.Visits order) (base : Table κ V) (k : κ) :
    (insertAll order base).lookup k = (m.lookup k).or (base.lookup k) := by
  cases hlookup : m.lookup k with
  | none =>
    rw [lookup_insertAll_of_notMem, Option.none_or]
    rw [h.mem_keys_iff]
    exact Finmap.lookup_eq_none.mp hlookup
  | some v => exact lookup_insertAll_of_mem h.nodup ((h.mem_iff k v).mpr hlookup)

end Visits

end Table

end Meta1Core.Lib
