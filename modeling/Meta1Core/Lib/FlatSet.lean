import Mathlib.Data.List.Sort
import Mathlib.Data.Finset.Basic
import Mathlib.Tactic.Common

/-!
# Sorted sets and the difference of ranges

`std::set` and `flat_set` keep their elements in ascending order.  `std::set_difference` walks two
ranges side by side and copies what it finds in the first only.
-/

namespace Meta1Core.Lib

universe u

structure FlatSet (α : Type u) [LinearOrder α] where
  elems : List α
  sorted : elems.Pairwise (· < ·)

namespace FlatSet

variable {α : Type u} [LinearOrder α]

instance : EmptyCollection (FlatSet α) := ⟨⟨[], .nil⟩⟩

instance : Inhabited (FlatSet α) := ⟨∅⟩

instance : Membership α (FlatSet α) := ⟨fun s a => a ∈ s.elems⟩

instance (s : FlatSet α) (a : α) : Decidable (a ∈ s) := inferInstanceAs (Decidable (a ∈ s.elems))

instance [Repr α] : Repr (FlatSet α) := ⟨fun s => reprPrec s.elems⟩

instance : DecidableEq (FlatSet α) := fun s t =>
  decidable_of_iff (s.elems = t.elems) (by cases s; cases t; simp)

variable {s : FlatSet α} {a b : α} {xs : List α}

theorem mem_def : a ∈ s ↔ a ∈ s.elems := Iff.rfl

theorem nodup (s : FlatSet α) : s.elems.Nodup := s.sorted.imp ne_of_lt

@[simp] theorem notMem_empty (a : α) : a ∉ (∅ : FlatSet α) := List.not_mem_nil

@[ext] theorem ext {t : FlatSet α} (h : ∀ a, a ∈ s ↔ a ∈ t) : s = t := by
  obtain ⟨xs, hxs⟩ := s
  obtain ⟨ys, hys⟩ := t
  obtain rfl : xs = ys := hxs.eq_of_mem_iff hys h
  rfl

def insertList (a : α) : List α → List α
  | [] => [a]
  | b :: rest => if a < b then a :: b :: rest else if a = b then b :: rest else b :: insertList a rest

theorem mem_insertList : b ∈ insertList a xs ↔ b = a ∨ b ∈ xs := by
  induction xs with
  | nil => simp [insertList]
  | cons c rest ih =>
    rw [insertList]
    split
    · rw [List.mem_cons]
    · split
      · rename_i heq
        subst heq
        simp
      · rw [List.mem_cons, ih, List.mem_cons]
        exact or_left_comm

theorem pairwise_insertList (h : xs.Pairwise (· < ·)) :
    (insertList a xs).Pairwise (· < ·) := by
  induction xs with
  | nil => exact List.pairwise_singleton _ _
  | cons c rest ih =>
    obtain ⟨hfirst, hrest⟩ := List.pairwise_cons.mp h
    rw [insertList]
    split
    · rename_i hlt
      refine List.pairwise_cons.mpr ⟨fun b hb => ?_, h⟩
      rcases List.mem_cons.mp hb with rfl | hb
      · exact hlt
      · exact hlt.trans (hfirst b hb)
    · split
      · exact h
      · rename_i hle hne
        refine List.pairwise_cons.mpr ⟨fun b hb => ?_, ih hrest⟩
        rcases mem_insertList.mp hb with rfl | hb
        · exact lt_of_le_of_ne (not_lt.mp hle) (Ne.symm hne)
        · exact hfirst b hb

def insert (s : FlatSet α) (a : α) : FlatSet α := ⟨insertList a s.elems, pairwise_insertList s.sorted⟩

def erase (s : FlatSet α) (a : α) : FlatSet α := ⟨s.elems.filter (· ≠ a), s.sorted.filter _⟩

def insertAll (s : FlatSet α) (xs : List α) : FlatSet α := xs.foldl insert s

def eraseAll (s : FlatSet α) (xs : List α) : FlatSet α := xs.foldl erase s

@[simp] theorem mem_insert : b ∈ s.insert a ↔ b = a ∨ b ∈ s :=
  mem_insertList

@[simp] theorem mem_erase : b ∈ s.erase a ↔ b ∈ s ∧ b ≠ a := by
  show b ∈ s.elems.filter _ ↔ _
  rw [List.mem_filter, decide_eq_true_eq]
  rfl

@[simp] theorem mem_insertAll :
    b ∈ s.insertAll xs ↔ b ∈ xs ∨ b ∈ s := by
  induction xs generalizing s with
  | nil => simp [insertAll]
  | cons a xs ih =>
    show b ∈ (s.insert a).insertAll xs ↔ _
    rw [ih, mem_insert, List.mem_cons]
    tauto

@[simp] theorem mem_eraseAll :
    b ∈ s.eraseAll xs ↔ b ∈ s ∧ b ∉ xs := by
  induction xs generalizing s with
  | nil => simp [eraseAll]
  | cons a xs ih =>
    show b ∈ (s.erase a).eraseAll xs ↔ _
    rw [ih, mem_erase, List.mem_cons]
    tauto

def ofList (xs : List α) : FlatSet α := insertAll ∅ xs

@[simp] theorem mem_ofList : b ∈ ofList xs ↔ b ∈ xs := by
  simp [ofList]

end FlatSet

section SetDifference

variable {α : Type u} (lt : α → α → Prop) [DecidableRel lt]

def setDifference : List α → List α → List α
  | [], _ => []
  | x :: xs, [] => x :: xs
  | x :: xs, y :: ys =>
    if lt x y then x :: setDifference xs (y :: ys)
    else if lt y x then setDifference (x :: xs) ys
    else setDifference xs ys
  termination_by xs ys => xs.length + ys.length

def meetings : List α → List α → List (α × α)
  | [], _ => []
  | _ :: _, [] => []
  | x :: xs, y :: ys =>
    if lt x y then meetings xs (y :: ys)
    else if lt y x then meetings (x :: xs) ys
    else (x, y) :: meetings xs ys
  termination_by xs ys => xs.length + ys.length

variable {lt}

theorem setDifference_perm (xs ys : List α) :
    (setDifference lt xs ys ++ (meetings lt xs ys).map Prod.fst).Perm xs := by
  fun_induction setDifference lt xs ys with
  | case1 ys => simp [meetings]
  | case2 x xs => simp [meetings]
  | case3 x xs y ys hlt ih =>
    rw [meetings, if_pos hlt]
    exact ih.cons x
  | case4 x xs y ys hlt hgt ih =>
    rw [meetings, if_neg hlt, if_pos hgt]
    exact ih
  | case5 x xs y ys hlt hgt ih =>
    rw [meetings, if_neg hlt, if_neg hgt]
    exact List.perm_middle.trans (ih.cons x)

theorem of_mem_meetings {xs ys : List α} {p : α × α} (h : p ∈ meetings lt xs ys) :
    p.1 ∈ xs ∧ p.2 ∈ ys ∧ ¬lt p.1 p.2 ∧ ¬lt p.2 p.1 := by
  fun_induction meetings lt xs ys with
  | case1 ys => cases h
  | case2 x xs => cases h
  | case3 x xs y ys hlt ih =>
    obtain ⟨hx, hy, hnot⟩ := ih h
    exact ⟨List.mem_cons_of_mem _ hx, hy, hnot⟩
  | case4 x xs y ys hlt hgt ih =>
    obtain ⟨hx, hy, hnot⟩ := ih h
    exact ⟨hx, List.mem_cons_of_mem _ hy, hnot⟩
  | case5 x xs y ys hlt hgt ih =>
    rcases List.mem_cons.mp h with rfl | h
    · exact ⟨List.mem_cons_self, List.mem_cons_self, hlt, hgt⟩
    · obtain ⟨hx, hy, hnot⟩ := ih h
      exact ⟨List.mem_cons_of_mem _ hx, List.mem_cons_of_mem _ hy, hnot⟩

theorem meetings_swap (hasymm : ∀ x y, lt x y → ¬lt y x) (xs ys : List α) :
    meetings lt ys xs = (meetings lt xs ys).map Prod.swap := by
  fun_induction meetings lt xs ys with
  | case1 ys => cases ys <;> simp [meetings]
  | case2 x xs => simp [meetings]
  | case3 x xs y ys hlt ih =>
    rw [meetings, if_neg (hasymm _ _ hlt), if_pos hlt]
    exact ih
  | case4 x xs y ys hlt hgt ih =>
    rw [meetings, if_pos hgt]
    exact ih
  | case5 x xs y ys hlt hgt ih =>
    rw [meetings, if_neg hgt, if_neg hlt, ih]
    rfl

theorem exists_common (hasymm : ∀ x y, lt x y → ¬lt y x) {xs ys : List α} (hxs : xs.Nodup)
    (hys : ys.Nodup) (heq : ∀ x ∈ xs, ∀ y ∈ ys, ¬lt x y → ¬lt y x → x = y) :
    ∃ common : List α, (∀ a ∈ common, a ∈ xs ∧ a ∈ ys) ∧
      (∀ a, a ∈ setDifference lt xs ys ↔ a ∈ xs ∧ a ∉ common) ∧
      ∀ a, a ∈ setDifference lt ys xs ↔ a ∈ ys ∧ a ∉ common := by
  have hsame : ∀ p ∈ meetings lt xs ys, p.1 = p.2 := by
    intro p hp
    obtain ⟨hx, hy, hlt, hgt⟩ := of_mem_meetings hp
    exact heq p.1 hx p.2 hy hlt hgt
  have hswap : (meetings lt ys xs).map Prod.fst = (meetings lt xs ys).map Prod.fst := by
    rw [meetings_swap hasymm, List.map_map]
    exact List.map_congr_left fun p hp => (hsame p hp).symm
  have hmem : ∀ {zs ws : List α}, zs.Nodup → ∀ a, a ∈ setDifference lt zs ws ↔
      a ∈ zs ∧ a ∉ (meetings lt zs ws).map Prod.fst := by
    intro zs ws hzs a
    have hperm : (setDifference lt zs ws ++ (meetings lt zs ws).map Prod.fst).Perm zs :=
      setDifference_perm zs ws
    have hdisjoint := (List.nodup_append.mp (hperm.nodup_iff.mpr hzs)).2.2
    rw [← hperm.mem_iff, List.mem_append]
    constructor
    · exact fun ha => ⟨.inl ha, fun hmeet => hdisjoint a ha a hmeet rfl⟩
    · rintro ⟨ha | ha, hnot⟩
      · exact ha
      · exact absurd ha hnot
  refine ⟨(meetings lt xs ys).map Prod.fst, ?_, hmem hxs, ?_⟩
  · intro a ha
    obtain ⟨p, hp, rfl⟩ := List.mem_map.mp ha
    obtain ⟨hx, hy, -⟩ := of_mem_meetings hp
    exact ⟨hx, hsame p hp ▸ hy⟩
  · intro a
    rw [hmem hys, hswap]

end SetDifference

end Meta1Core.Lib
