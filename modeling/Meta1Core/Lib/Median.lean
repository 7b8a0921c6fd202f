import Mathlib.Data.List.Forall2
import Mathlib.Data.List.Sort

/-!
# Order statistics

The element at position `k` of a sorted list is reached by all but `k` of the elements.  Two
selections from one list that together are longer than the list have elements in common.
-/

namespace Meta1Core.Lib

universe u v

variable {α : Type u} {β : Type v}

theorem length_sub_le_countP {p : α → Bool} {l : List α} {k : Nat} (h : ∀ a ∈ l.drop k, p a) :
    l.length - k ≤ l.countP p := by
  calc l.length - k = (l.drop k).length := by rw [List.length_drop]
    _ = (l.drop k).countP p := (List.countP_eq_length.mpr h).symm
    _ ≤ l.countP p := (List.drop_sublist k l).countP_le

theorem length_sub_le_countP_insertionSort [LinearOrder α] {l : List α} {k : Nat} {v : α}
    (h : (l.insertionSort (· ≤ ·))[k]? = some v) : l.length - k ≤ l.countP (v ≤ ·) := by
  have hperm := List.perm_insertionSort (· ≤ ·) l
  rw [← hperm.length_eq, ← hperm.countP_eq]
  apply length_sub_le_countP
  intro a ha
  have hsorted := (List.pairwise_insertionSort (· ≤ ·) l).drop (i := k)
  obtain ⟨hk, rfl⟩ := List.getElem?_eq_some_iff.mp h
  rw [List.drop_eq_getElem_cons hk] at ha hsorted
  simp only [decide_eq_true_eq]
  rcases List.mem_cons.mp ha with rfl | ha
  · exact le_refl _
  · exact List.rel_of_pairwise_cons hsorted ha

theorem countP_le_of_forall₂ {R : α → β → Prop} {p : α → Bool} {q : β → Bool} {as : List α}
    {bs : List β} (h : List.Forall₂ R as bs) (himp : ∀ a b, R a b → q b → p a) :
    bs.countP q ≤ as.countP p := by
  induction h with
  | nil => exact Nat.le_refl _
  | @cons a b as bs hab _ ih =>
    rw [List.countP_cons, List.countP_cons]
    by_cases hq : q b
    · simp only [hq, himp a b hab hq, if_true]
      omega
    · simp only [hq, Bool.false_eq_true, if_false]
      omega

theorem countP_add_countP_le (p q : α → Bool) (l : List α) :
    l.countP p + l.countP q ≤ l.length + l.countP fun a => p a && q a := by
  induction l with
  | nil => simp
  | cons a l ih =>
    simp only [List.countP_cons, List.length_cons]
    cases p a <;> cases q a <;> simp <;> omega

/-! ## Weak orders -/

/-- A strict weak order of the elements of a list, what `std::sort` and its kin require of `<` -/
structure WeakOrderOn (lt : α → α → Prop) (l : List α) : Prop where
  asymm : ∀ a ∈ l, ∀ b ∈ l, lt a b → ¬lt b a
  trans_not : ∀ a ∈ l, ∀ b ∈ l, ∀ c ∈ l, ¬lt a b → ¬lt b c → ¬lt a c

namespace WeakOrderOn

variable {lt : α → α → Prop} {l l' : List α}

theorem subset (h : WeakOrderOn lt l) (hsub : l' ⊆ l) : WeakOrderOn lt l' where
  asymm a ha b hb := h.asymm a (hsub ha) b (hsub hb)
  trans_not a ha b hb c hc := h.trans_not a (hsub ha) b (hsub hb) c (hsub hc)

theorem irrefl (h : WeakOrderOn lt l) {a : α} (ha : a ∈ l) : ¬lt a a :=
  fun haa => h.asymm a ha a ha haa haa

theorem flip (h : WeakOrderOn lt l) : WeakOrderOn (flip lt) l where
  asymm _ ha _ hb := h.asymm _ hb _ ha
  trans_not _ ha _ hb _ hc hab hbc := h.trans_not _ hc _ hb _ ha hbc hab

theorem of_map {r : β → β → Prop} {key : α → β} (h : WeakOrderOn r (l.map key)) :
    WeakOrderOn (fun a b => r (key a) (key b)) l where
  asymm _ ha _ hb := h.asymm _ (List.mem_map_of_mem ha) _ (List.mem_map_of_mem hb)
  trans_not _ ha _ hb _ hc :=
    h.trans_not _ (List.mem_map_of_mem ha) _ (List.mem_map_of_mem hb) _ (List.mem_map_of_mem hc)

theorem of_key {K : Type v} [LinearOrder K] (key : α → K)
    (h : ∀ a ∈ l, ∀ b ∈ l, lt a b ↔ key a < key b) : WeakOrderOn lt l where
  asymm a ha b hb hab := by
    rw [h a ha b hb] at hab
    rw [h b hb a ha]
    exact hab.asymm
  trans_not a ha b hb c hc hab hbc := by
    rw [h a ha b hb, not_lt] at hab
    rw [h b hb c hc, not_lt] at hbc
    rw [h a ha c hc, not_lt]
    exact hbc.trans hab

theorem exists_least (h : WeakOrderOn lt l) (hne : l ≠ []) : ∃ a ∈ l, ∀ b ∈ l, ¬lt b a := by
  induction l with
  | nil => exact absurd rfl hne
  | cons a l ih =>
    have htail : WeakOrderOn lt l := h.subset (List.subset_cons_self a l)
    by_cases hl : l = []
    · subst hl
      refine ⟨a, List.mem_cons_self, fun b hb => ?_⟩
      rw [List.mem_singleton.mp hb]
      exact h.irrefl List.mem_cons_self
    obtain ⟨m, hm, hleast⟩ := ih htail hl
    have hm' : m ∈ a :: l := List.mem_cons_of_mem _ hm
    by_cases hlt : lt a m
    · -- the new element is below the least of the others
      refine ⟨a, List.mem_cons_self, fun b hb => ?_⟩
      rcases List.mem_cons.mp hb with rfl | hb
      · exact h.irrefl hb
      · have hma := h.asymm a List.mem_cons_self m hm' hlt
        exact h.trans_not b (List.mem_cons_of_mem _ hb) m hm' a List.mem_cons_self
          (hleast b hb) hma
    · refine ⟨m, hm', fun b hb => ?_⟩
      rcases List.mem_cons.mp hb with rfl | hb
      · exact hlt
      · exact hleast b hb

end WeakOrderOn

/-- Between the least and the greatest of some elements -/
structure Within (lt : α → α → Prop) (l : List α) (x : α) : Prop where
  above : ∃ a ∈ l, (∀ b ∈ l, ¬lt b a) ∧ ¬lt x a
  below : ∃ a ∈ l, (∀ b ∈ l, ¬lt a b) ∧ ¬lt a x

theorem Within.of_exists {lt : α → α → Prop} {l l' : List α} {x : α} (h : WeakOrderOn lt l)
    (hsub : l' ⊆ l) (hx : x ∈ l) (hlow : ∃ a ∈ l', ¬lt x a) (hhigh : ∃ a ∈ l', ¬lt a x) :
    Within lt l' x := by
  obtain ⟨a, ha, hxa⟩ := hlow
  obtain ⟨b, hb, hbx⟩ := hhigh
  have horder := h.subset hsub
  have hne : l' ≠ [] := List.ne_nil_of_mem ha
  obtain ⟨m, hm, hleast⟩ := horder.exists_least hne
  obtain ⟨n, hn, hgreatest⟩ := horder.flip.exists_least hne
  constructor
  · exact ⟨m, hm, hleast, h.trans_not x hx a (hsub ha) m (hsub hm) hxa (hleast a ha)⟩
  · exact ⟨n, hn, hgreatest, h.trans_not n (hsub hn) b (hsub hb) x hx (hgreatest b hb) hbx⟩

theorem Within.congr {lt : α → α → Prop} {l l' : List α} {x : α} (h : Within lt l x)
    (hmem : ∀ a, a ∈ l ↔ a ∈ l') : Within lt l' x := by
  obtain ⟨⟨a, ha, hleast, hxa⟩, b, hb, hgreatest, hbx⟩ := h
  exact ⟨⟨a, (hmem a).mp ha, fun c hc => hleast c ((hmem c).mpr hc), hxa⟩,
    b, (hmem b).mp hb, fun c hc => hgreatest c ((hmem c).mpr hc), hbx⟩

/-- `std::nth_element`, as far as it is specified: nothing before position `n` is above the element
there, and nothing after it is below. -/
structure NthElement (α : Type u) where
  run : (lt : α → α → Prop) → [DecidableRel lt] → Nat → List α → List α
  perm : ∀ (lt : α → α → Prop) [DecidableRel lt] (n : Nat) (l : List α), WeakOrderOn lt l →
    (run lt n l).Perm l
  partitions : ∀ (lt : α → α → Prop) [DecidableRel lt] (n : Nat) (l : List α), WeakOrderOn lt l →
    ∀ x, (run lt n l)[n]? = some x →
      (∀ y ∈ (run lt n l).take n, ¬lt x y) ∧ ∀ y ∈ (run lt n l).drop (n + 1), ¬lt y x

theorem median_between (lt : α → α → Prop) {l : List α} {x : α} (hx : l[l.length / 2]? = some x)
    (hirrefl : ¬lt x x) (htake : ∀ y ∈ l.take (l.length / 2), ¬lt x y)
    (hdrop : ∀ y ∈ l.drop (l.length / 2 + 1), ¬lt y x) {faulty : α → Bool}
    (hfew : 2 * l.countP faulty < l.length) :
    (∃ a ∈ l, faulty a = false ∧ ¬lt x a) ∧ ∃ a ∈ l, faulty a = false ∧ ¬lt a x := by
  obtain ⟨hlt, rfl⟩ := List.getElem?_eq_some_iff.mp hx
  -- a half that includes the middle has an element that is not faulty
  have hhalf {part : List α} (hpart : part.Sublist l) (hlong : l.length ≤ 2 * part.length) :
      ∃ a ∈ part, faulty a = false := by
    by_contra hnone
    have hall : part.countP faulty = part.length :=
      List.countP_eq_length.mpr fun a ha => by
        by_contra hfaulty
        exact hnone ⟨a, ha, by simpa using hfaulty⟩
    have hle : part.countP faulty ≤ l.countP faulty := hpart.countP_le
    omega
  constructor
  · obtain ⟨a, ha, hhonest⟩ := hhalf (List.take_sublist (l.length / 2 + 1) l) (by
      rw [List.length_take]
      omega)
    refine ⟨a, List.mem_of_mem_take ha, hhonest, ?_⟩
    rw [List.take_succ_eq_append_getElem hlt, List.mem_append, List.mem_singleton] at ha
    rcases ha with ha | rfl
    · exact htake a ha
    · exact hirrefl
  · obtain ⟨a, ha, hhonest⟩ := hhalf (List.drop_sublist (l.length / 2) l) (by
      rw [List.length_drop]
      omega)
    refine ⟨a, List.mem_of_mem_drop ha, hhonest, ?_⟩
    rw [List.drop_eq_getElem_cons hlt] at ha
    rcases List.mem_cons.mp ha with rfl | ha
    · exact hirrefl
    · exact hdrop a ha

theorem NthElement.within_median (nth : NthElement α) {r : β → β → Prop} [DecidableRel r]
    (key : α → β) {l : List α} (h : WeakOrderOn r (l.map key)) (hne : l ≠ []) :
    ∃ x ∈ l, (nth.run (fun a b => r (key a) (key b)) (l.length / 2) l)[l.length / 2]? = some x ∧
      ∀ faulty : α → Bool, 2 * l.countP faulty < l.length →
        Within r ((l.filter fun a => !faulty a).map key) (key x) := by
  have horder := h.of_map
  have hperm := nth.perm _ (l.length / 2) l horder
  have hlength := hperm.length_eq
  have hpos : 0 < l.length := List.length_pos_iff.mpr hne
  have hpartitions := nth.partitions _ (l.length / 2) l horder
  generalize nth.run (fun a b => r (key a) (key b)) (l.length / 2) l = t at *
  have hhalf : l.length / 2 < t.length := by omega
  obtain ⟨x, hmiddle⟩ : ∃ x, t[l.length / 2]? = some x :=
    ⟨t[l.length / 2], List.getElem?_eq_getElem hhalf⟩
  have hx : x ∈ l := hperm.subset (List.mem_of_getElem? hmiddle)
  obtain ⟨htake, hdrop⟩ := hpartitions x hmiddle
  refine ⟨x, hx, hmiddle, fun faulty hfew => ?_⟩
  rw [← hlength] at hmiddle htake hdrop
  obtain ⟨⟨a, ha, hhonest, hxa⟩, b, hb, hhonest', hbx⟩ :=
    median_between (fun a b => r (key a) (key b)) hmiddle (horder.irrefl hx) htake hdrop
      (show 2 * t.countP faulty < t.length by
        rw [hperm.countP_eq, hlength]
        exact hfew)
  have hmem {c : α} (hc : c ∈ t) (hhonest : faulty c = false) :
      key c ∈ (l.filter fun a => !faulty a).map key :=
    List.mem_map_of_mem (List.mem_filter.mpr ⟨hperm.subset hc, by simp [hhonest]⟩)
  apply Within.of_exists h _ (List.mem_map_of_mem hx) ⟨key a, hmem ha hhonest, hxa⟩
    ⟨key b, hmem hb hhonest', hbx⟩
  exact List.map_subset key (List.filter_subset_self l)

theorem WeakOrderOn.pairwise_insertionSort {lt : α → α → Prop} [DecidableRel lt] {l : List α}
    (h : WeakOrderOn lt l) : (l.insertionSort fun a b => ¬lt b a).Pairwise fun a b => ¬lt b a := by
  induction l with
  | nil => exact List.Pairwise.nil
  | cons a l ih =>
    have hsorted := ih (h.subset (List.subset_cons_self a l))
    have hperm := List.perm_insertionSort (fun a b => ¬lt b a) l
    have horder : WeakOrderOn lt (a :: l.insertionSort fun a b => ¬lt b a) :=
      h.subset (hperm.cons a).subset
    rw [List.insertionSort_cons]
    clear ih hperm h
    generalize l.insertionSort (fun a b => ¬lt b a) = t at hsorted horder
    induction t with
    | nil => exact List.pairwise_singleton ..
    | cons b t ih =>
      obtain ⟨hb, ht⟩ := List.pairwise_cons.mp hsorted
      have ha : a ∈ a :: b :: t := List.mem_cons_self
      have hb' : b ∈ a :: b :: t := List.mem_cons_of_mem _ List.mem_cons_self
      have ht' : t ⊆ a :: b :: t := fun c hc =>
        List.mem_cons_of_mem _ (List.mem_cons_of_mem _ hc)
      rw [List.orderedInsert_cons]
      by_cases hba : lt b a
      · rw [if_neg (not_not.mpr hba)]
        apply List.pairwise_cons.mpr
        refine ⟨fun c hc => ?_, ih ht (horder.subset (List.cons_subset.mpr ⟨ha, ht'⟩))⟩
        rcases List.mem_cons.mp ((List.perm_orderedInsert _ a t).subset hc) with rfl | hc
        · exact horder.asymm b hb' c ha hba
        · exact hb c hc
      · rw [if_pos hba]
        apply List.pairwise_cons.mpr
        refine ⟨fun c hc => ?_, hsorted⟩
        rcases List.mem_cons.mp hc with rfl | hc
        · exact hba
        · exact horder.trans_not c (ht' hc) b hb' a ha (hb c hc) hba

def NthElement.sort (α : Type u) : NthElement α where
  run lt _ _ l := l.insertionSort fun a b => ¬lt b a
  perm _ _ _ l _ := List.perm_insertionSort _ l
  partitions lt _ n l h x hx := by
    have hsorted := h.pairwise_insertionSort
    generalize l.insertionSort (fun a b => ¬lt b a) = t at hx hsorted ⊢
    obtain ⟨hn, rfl⟩ := List.getElem?_eq_some_iff.mp hx
    rw [← List.take_append_drop n t, List.drop_eq_getElem_cons hn] at hsorted
    obtain ⟨-, hdrop, htake⟩ := List.pairwise_append.mp hsorted
    exact ⟨fun y hy => htake y hy _ List.mem_cons_self,
      fun y hy => (List.pairwise_cons.mp hdrop).1 y hy⟩

end Meta1Core.Lib
