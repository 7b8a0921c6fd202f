import Mathlib.Data.List.Basic
import Mathlib.Data.List.Nodup
import Mathlib.Data.List.TakeWhile
import Mathlib.Tactic.Common

/-!
# Ranges and positions in sorted lists

`lower_bound` cuts a sorted list in two.  A cut by a property that holds of everything before an
element for which it holds is the same as a filter, and the length of the list stands for `end()`.
-/

namespace Meta1Core.Lib

universe u v

variable {α : Type u} {xs ys : List α} {p q : α → Bool}

def ClosedBelow (p : α → Bool) (xs : List α) : Prop := xs.Pairwise fun x y => p y = true → p x = true

theorem ClosedBelow.of_pairwise {r : α → α → Prop} (h : xs.Pairwise r)
    (hp : ∀ x y, r x y → p y = true → p x = true) : ClosedBelow p xs :=
  h.imp fun {x y} hr => hp x y hr

theorem ClosedBelow.dropWhile_eq (h : ClosedBelow p xs) : xs.dropWhile p = xs.filter fun x => !p x := by
  induction xs with
  | nil => rfl
  | cons x xs ih =>
    obtain ⟨hx, hxs⟩ := List.pairwise_cons.mp h
    cases hpx : p x with
    | true =>
      rw [List.dropWhile_cons_of_pos hpx, List.filter_cons_of_neg (by simp [hpx])]
      exact ih hxs
    | false =>
      have hall : ∀ y ∈ xs, (!p y) = true := by
        intro y hy
        cases hpy : p y with
        | true => exact absurd (hx y hy hpy) (by simp [hpx])
        | false => rfl
      rw [List.dropWhile_cons_of_neg (by simp [hpx]), List.filter_cons_of_pos (by simp [hpx]),
        List.filter_eq_self.mpr hall]

theorem ClosedBelow.takeWhile_eq (h : ClosedBelow p xs) : xs.takeWhile p = xs.filter p := by
  induction xs with
  | nil => rfl
  | cons x xs ih =>
    obtain ⟨hx, hxs⟩ := List.pairwise_cons.mp h
    cases hpx : p x with
    | true =>
      rw [List.takeWhile_cons_of_pos hpx, List.filter_cons_of_pos hpx]
      exact congrArg (x :: ·) (ih hxs)
    | false =>
      have hall : xs.filter p = [] := by
        apply List.filter_eq_nil_iff.mpr
        intro y hy hpy
        have hpos := hx y hy hpy
        rw [hpx] at hpos
        cases hpos
      rw [List.takeWhile_cons_of_neg (by simp [hpx]), List.filter_cons_of_neg (by simp [hpx]), hall]

theorem ClosedBelow.filter_append (h : ClosedBelow p xs) (hpq : ∀ x ∈ xs, p x = true → q x = true)
    (r : α → Bool) :
    xs.filter (fun x => r x && p x) ++ xs.filter (fun x => r x && (!p x && q x)) =
      xs.filter fun x => r x && q x := by
  induction xs with
  | nil => rfl
  | cons x xs ih =>
    obtain ⟨hx, hxs⟩ := List.pairwise_cons.mp h
    have ih := ih hxs fun y hy => hpq y (List.mem_cons_of_mem _ hy)
    have hpqx := hpq x List.mem_cons_self
    cases hpx : p x with
    | true =>
      simp only [List.filter_cons, hpx, hpqx hpx, Bool.not_true, Bool.and_false,
        Bool.and_true, Bool.false_eq_true, if_false]
      cases r x with
      | true => exact congrArg (x :: ·) ih
      | false => exact ih
    | false =>
      -- nothing further on is in the first range
      have hnone : xs.filter (fun x => r x && p x) = [] := by
        apply List.filter_eq_nil_iff.mpr
        intro y hy hpy
        have hpos := hx y hy (Bool.and_eq_true_iff.mp hpy).2
        rw [hpx] at hpos
        cases hpos
      rw [hnone, List.nil_append] at ih
      simp only [List.filter_cons, hpx, Bool.not_false, Bool.true_and, Bool.and_false,
        Bool.false_eq_true, if_false, hnone, List.nil_append, ih]

theorem rel_of_key_lt {key : α → Nat} {r : α → α → Prop}
    (h : xs.Pairwise fun x y => key x < key y ∧ r x y) {x y : α} (hx : x ∈ xs) (hy : y ∈ xs)
    (hlt : key x < key y) : r x y := by
  induction h with
  | nil => cases hx
  | cons hfirst _ ih =>
    rcases List.mem_cons.mp hx with rfl | hxs
    · rcases List.mem_cons.mp hy with rfl | hys
      · exact absurd hlt (Nat.lt_irrefl _)
      · exact (hfirst y hys).2
    · rcases List.mem_cons.mp hy with rfl | hys
      · exact absurd hlt (Nat.lt_asymm (hfirst x hxs).1)
      · exact ih hxs hys

theorem filter_eq_of_sublist (h : xs.Sublist ys) (hnodup : ys.Nodup)
    (hall : ∀ y ∈ ys, p y = true → y ∈ xs) : xs.filter p = ys.filter p := by
  apply (h.filter p).eq_of_length_le
  apply (hnodup.filter p).length_le_of_subset
  intro y hy
  obtain ⟨hmem, hpy⟩ := List.mem_filter.mp hy
  exact List.mem_filter.mpr ⟨hall y hmem hpy, hpy⟩

variable {before : α → Bool}

def lowerBound (before : α → Bool) (xs : List α) : Nat := xs.findIdx fun x => !before x

theorem lowerBound_le (before : α → Bool) (xs : List α) : lowerBound before xs ≤ xs.length :=
  List.findIdx_le_length

theorem take_lowerBound (before : α → Bool) (xs : List α) :
    xs.take (lowerBound before xs) = xs.takeWhile before := by
  rw [List.takeWhile_eq_take_findIdx_not]
  rfl

theorem ClosedBelow.lt_lowerBound_iff (h : ClosedBelow before xs) {i : Nat} (hi : i < xs.length) :
    i < lowerBound before xs ↔ before xs[i] = true := by
  constructor
  · intro hlt
    have hnot := List.not_of_lt_findIdx hlt
    simpa using hnot
  · intro hbefore
    by_contra hle
    have hlt : lowerBound before xs < xs.length := Nat.lt_of_le_of_lt (Nat.not_lt.mp hle) hi
    have hfirst : before xs[lowerBound before xs] = false := by
      have hfound : (!before xs[lowerBound before xs]) = true := List.findIdx_getElem (w := hlt)
      simpa using hfound
    rcases Nat.lt_or_eq_of_le (Nat.not_lt.mp hle) with hlt' | heq
    · have hpair := List.pairwise_iff_getElem.mp h _ _ hlt hi hlt' hbefore
      rw [hfirst] at hpair
      cases hpair
    · subst heq
      rw [hfirst] at hbefore
      cases hbefore

theorem lowerBound_cons_of_pos {x : α} (h : before x = true) :
    lowerBound before (x :: xs) = lowerBound before xs + 1 := by
  rw [lowerBound, List.findIdx_cons, h]
  rfl

theorem lowerBound_cons_of_neg {x : α} (h : before x = false) : lowerBound before (x :: xs) = 0 := by
  rw [lowerBound, List.findIdx_cons, h]
  rfl

theorem ClosedBelow.drop_take_lowerBound {after : α → Bool} (h : ClosedBelow before xs)
    (h' : ClosedBelow after xs) :
    (xs.take (lowerBound after xs)).drop (lowerBound before xs) =
      xs.filter fun x => !before x && after x := by
  rw [take_lowerBound]
  induction xs with
  | nil => rfl
  | cons x xs ih =>
    have ih := ih (List.pairwise_cons.mp h).2 (List.pairwise_cons.mp h').2
    cases hbefore : before x with
    | false =>
      have hnone : ∀ y ∈ x :: xs, before y = false := by
        intro y hy
        rcases List.mem_cons.mp hy with rfl | hy
        · exact hbefore
        · cases hy' : before y with
          | false => rfl
          | true => exact nomatch hbefore.symm.trans ((List.pairwise_cons.mp h).1 y hy hy')
      rw [lowerBound_cons_of_neg hbefore, List.drop_zero, h'.takeWhile_eq]
      apply List.filter_congr
      intro y hy
      rw [hnone y hy]
      rfl
    | true =>
      rw [lowerBound_cons_of_pos hbefore, List.filter_cons_of_neg (by simp [hbefore])]
      cases hafter : after x with
      | true =>
        rw [List.takeWhile_cons_of_pos hafter]
        exact ih
      | false =>
        rw [List.takeWhile_cons_of_neg (by simp [hafter]), List.drop_nil]
        symm
        apply List.filter_eq_nil_iff.mpr
        intro y hy hboth
        have hy' := (List.pairwise_cons.mp h').1 y hy (Bool.and_eq_true_iff.mp hboth).2
        exact nomatch hafter.symm.trans hy'

theorem findIdx_key_eq {β : Type v} [DecidableEq β] {key : α → β}
    (h : xs.Pairwise fun x y => key x ≠ key y) {i : Nat} {x : α} (hx : xs[i]? = some x) :
    (xs.findIdx fun y => key y = key x) = i := by
  obtain ⟨hi, rfl⟩ := List.getElem?_eq_some_iff.mp hx
  rw [List.findIdx_eq hi]
  refine ⟨decide_eq_true rfl, fun j hj => ?_⟩
  apply decide_eq_false
  exact List.pairwise_iff_getElem.mp h j i (Nat.lt_trans hj hi) hi hj

/-- `while( itr != itr_stop && room > 0 ) { push_back( *itr ); ++itr; }`, where `end()` has no
element -/
def collect (xs : List α) (itrStop : Nat) : (room itr : Nat) → Option (List α)
  | 0, _ => some []
  | room + 1, itr =>
    if itr = itrStop then some []
    else
      match xs[itr]? with
      | none => none
      | some x => (collect xs itrStop room (itr + 1)).map (x :: ·)

theorem collect_eq {itrStop : Nat} (hstop : itrStop ≤ xs.length) (room : Nat) {itr : Nat}
    (hle : itr ≤ itrStop) :
    collect xs itrStop room itr = some (((xs.take itrStop).drop itr).take room) := by
  induction room generalizing itr with
  | zero => rfl
  | succ room ih =>
    unfold collect
    by_cases heq : itr = itrStop
    · rw [if_pos heq, heq, List.drop_of_length_le (List.length_take_le _ _)]
      rfl
    · have hlt : itr < itrStop := Nat.lt_of_le_of_ne hle heq
      have hitr : itr < (xs.take itrStop).length := by
        rw [List.length_take]
        omega
      rw [if_neg heq, List.getElem?_eq_getElem (Nat.lt_of_lt_of_le hlt hstop),
        List.drop_eq_getElem_cons hitr, List.getElem_take]
      dsimp only
      rw [ih hlt]
      rfl

theorem collect_ne_nil {itrStop room itr : Nat} (hne : itr ≠ itrStop) (hroom : 0 < room) :
    collect xs itrStop room itr ≠ some [] := by
  obtain ⟨room, rfl⟩ := Nat.exists_eq_succ_of_ne_zero (Nat.ne_of_gt hroom)
  unfold collect
  rw [if_neg hne]
  split
  · exact fun hnone => nomatch hnone
  · cases collect xs itrStop room (itr + 1) with
    | none => exact fun hnone => nomatch hnone
    | some rest => exact fun hcons => nomatch hcons

end Meta1Core.Lib
