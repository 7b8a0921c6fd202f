import Mathlib.Data.List.Sort
import Mathlib.Data.Prod.Lex

/-!
# Rows in the order of a key

Rows are sorted by a key, and by their ids where the keys are equal.  What a search from the front
finds is then the least of all rows that it could have found.  Where a key only tells classes of rows
apart, the first row depends on the rows of the lowest class alone.
-/

namespace Meta1Core.Lib

universe u v w

variable {V : Type u} {K : Type v} [LinearOrder K] {rows : List (Σ _ : Nat, V)}

def KeyOrder (key : V → K) (e e' : Σ _ : Nat, V) : Prop :=
  toLex (key e.2, e.1) ≤ toLex (key e'.2, e'.1)

instance (key : V → K) : DecidableRel (KeyOrder key) := fun _ _ => inferInstanceAs (Decidable (_ ≤ _))

instance (key : V → K) : Std.Total (KeyOrder key) := ⟨fun _ _ => le_total _ _⟩

instance (key : V → K) : IsTrans (Σ _ : Nat, V) (KeyOrder key) := ⟨fun _ _ _ => le_trans⟩

theorem keyOrder_iff {key : V → K} {e e' : Σ _ : Nat, V} :
    KeyOrder key e e' ↔ key e.2 < key e'.2 ∨ key e.2 = key e'.2 ∧ e.1 ≤ e'.1 :=
  Prod.Lex.toLex_le_toLex

theorem insertionSort_congr {α : Type w} {r s : α → α → Prop} [DecidableRel r] [DecidableRel s]
    {l : List α} (h : ∀ a ∈ l, ∀ b ∈ l, r a b ↔ s a b) : l.insertionSort r = l.insertionSort s := by
  have hsame := List.map_insertionSort (r := r) (s := s) id l h
  rw [List.map_id, List.map_id] at hsame
  exact hsame

theorem pairwise_insertionSort_of_key {before : V → V → Prop} [DecidableRel before] {key : V → K}
    (h : ∀ e ∈ rows, ∀ e' ∈ rows, before e.2 e'.2 ↔ key e.2 < key e'.2) :
    (rows.insertionSort fun e e' => before e.2 e'.2 ∨ ¬before e'.2 e.2 ∧ e.1 ≤ e'.1).Pairwise
      (KeyOrder key) := by
  have hrel : ∀ e ∈ rows, ∀ e' ∈ rows,
      (before e.2 e'.2 ∨ ¬before e'.2 e.2 ∧ e.1 ≤ e'.1) ↔ KeyOrder key e e' := by
    intro e he e' he'
    rw [h e he e' he', h e' he' e he, keyOrder_iff, not_lt]
    constructor
    · rintro (hlt | ⟨hle, hid⟩)
      · exact Or.inl hlt
      · exact hle.lt_or_eq.imp_right fun heq => ⟨heq, hid⟩
    · rintro (hlt | ⟨heq, hid⟩)
      · exact Or.inl hlt
      · exact Or.inr ⟨heq.le, hid⟩
  rw [insertionSort_congr hrel]
  exact List.pairwise_insertionSort _ _

theorem find?_least {α : Type w} {r : α → α → Prop} {l : List α} {p : α → Bool} {e : α}
    (hsorted : l.Pairwise r) (h : l.find? p = some e) :
    ∀ e' ∈ l, p e' = true → e' = e ∨ r e e' := by
  obtain ⟨-, before, after, rfl, hbefore⟩ := List.find?_eq_some_iff_append.mp h
  intro e' he' hp
  rcases List.mem_append.mp he' with hmem | hmem
  · have hnot := hbefore e' hmem
    rw [hp] at hnot
    cases hnot
  rcases List.mem_cons.mp hmem with heq | hmem
  · exact Or.inl heq
  · right
    exact List.rel_of_pairwise_cons (List.pairwise_append.mp hsorted).2.1 hmem

theorem head?_least {α : Type w} {r : α → α → Prop} {l : List α} {e : α} (hsorted : l.Pairwise r)
    (h : l.head? = some e) : ∀ e' ∈ l, e' = e ∨ r e e' := by
  cases l with
  | nil => cases h
  | cons x xs =>
    cases h
    intro e' he'
    rcases List.mem_cons.mp he' with heq | hmem
    · exact Or.inl heq
    · exact Or.inr (List.rel_of_pairwise_cons hsorted hmem)

/-! ## The first row by a class -/

section Class

variable {α : Type w} {r : α → α → Prop} [DecidableRel r] {key : α → K} {l l' : List α} {a : α}

theorem head?_insertionSort_cons (a : α) (l : List α) : ((a :: l).insertionSort r).head? =
    some ((l.insertionSort r).head?.elim a fun b => if r a b then a else b) := by
  rw [List.insertionSort_cons]
  cases l.insertionSort r with
  | nil => rfl
  | cons b rest =>
    rw [List.head?_cons, Option.elim_some, List.orderedInsert_cons]
    split
    · rfl
    · rfl

-- rows of a lower class come first, whatever the order within a class is
variable (hr : ∀ a b, key a < key b → r a b ∧ ¬r b a)

include hr

theorem key_le_of_head? (h : (l.insertionSort r).head? = some a) : ∀ b ∈ l, key a ≤ key b := by
  induction l generalizing a with
  | nil => nofun
  | cons c l ih =>
    rw [head?_insertionSort_cons, Option.some.injEq] at h
    cases hhead : (l.insertionSort r).head? with
    | none =>
      have hnil : l = [] := by
        have hperm := List.perm_insertionSort r l
        rw [List.head?_eq_none_iff.mp hhead] at hperm
        exact hperm.nil_eq.symm
      rw [hhead] at h
      subst hnil h
      intro b hb
      rw [List.mem_singleton.mp hb]
      exact le_rfl
    | some d =>
      have hd := ih hhead
      rw [hhead, Option.elim_some] at h
      intro b hb
      split at h
      · rename_i hcd
        subst h
        rcases List.mem_cons.mp hb with rfl | hb
        · exact le_rfl
        · exact (not_lt.mp fun hlt => (hr _ _ hlt).2 hcd).trans (hd b hb)
      · rename_i hcd
        subst h
        rcases List.mem_cons.mp hb with rfl | hb
        · exact not_lt.mp fun hlt => hcd (hr _ _ hlt).1
        · exact hd b hb

theorem head?_of_filter {k : K} (hk : ∀ b ∈ l, k ≤ key b)
    (h : ((l.filter fun b => key b = k).insertionSort r).head? = some a) :
    (l.insertionSort r).head? = some a := by
  have hmem : ∀ {l : List α} {b}, (l.insertionSort r).head? = some b → b ∈ l := fun h =>
    (List.mem_insertionSort r).mp (List.mem_of_mem_head? h)
  induction l generalizing a with
  | nil => exact h
  | cons c l ih =>
    have hk' : ∀ b ∈ l, k ≤ key b := fun b hb => hk b (List.mem_cons_of_mem _ hb)
    rw [head?_insertionSort_cons]
    by_cases hc : key c = k
    · rw [List.filter_cons_of_pos (by simpa using hc), head?_insertionSort_cons] at h
      cases hfilter : ((l.filter fun b => key b = k).insertionSort r).head? with
      | some b =>
        rw [hfilter] at h
        rw [ih hk' hfilter]
        exact h
      | none =>
        rw [hfilter, Option.elim_none] at h
        rw [← h]
        cases hhead : (l.insertionSort r).head? with
        | none => rfl
        | some b =>
          have hnil : l.filter (fun b => key b = k) = [] := by
            have hperm := List.perm_insertionSort r (l.filter fun b => key b = k)
            rw [List.head?_eq_none_iff.mp hfilter] at hperm
            exact hperm.nil_eq.symm
          have hb := hmem hhead
          have hne : key b ≠ k := fun heq => by
            have : b ∈ l.filter fun b => key b = k := List.mem_filter.mpr ⟨hb, by simpa using heq⟩
            rw [hnil] at this
            cases this
          rw [Option.elim_some, if_pos (hr c b (hc ▸ lt_of_le_of_ne (hk' b hb) hne.symm)).1]
    · rw [List.filter_cons_of_neg (by simpa using hc)] at h
      have ha : key a = k := by simpa using (List.mem_filter.mp (hmem h)).2
      have hlt : key a < key c := ha ▸ lt_of_le_of_ne (hk c List.mem_cons_self) (Ne.symm hc)
      rw [ih hk' h, Option.elim_some, if_neg (hr a c hlt).2]

theorem head?_of_sameClass (h : (l.insertionSort r).head? = some a) (hk : ∀ b ∈ l', key a ≤ key b)
    (hsame : l'.filter (fun b => key b = key a) = l.filter fun b => key b = key a) :
    (l'.insertionSort r).head? = some a := by
  have hle := key_le_of_head? hr h
  cases hfilter : ((l.filter fun b => key b = key a).insertionSort r).head? with
  | none =>
    have hmem : a ∈ l.filter fun b => key b = key a := List.mem_filter.mpr
      ⟨(List.mem_insertionSort r).mp (List.mem_of_mem_head? h), by simp⟩
    rw [← List.mem_insertionSort r, List.head?_eq_none_iff.mp hfilter] at hmem
    cases hmem
  | some b =>
    cases h.symm.trans (head?_of_filter hr hle hfilter)
    exact head?_of_filter hr hk (hsame ▸ hfilter)

end Class

end Meta1Core.Lib
