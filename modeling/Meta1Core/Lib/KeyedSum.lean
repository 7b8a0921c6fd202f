import Mathlib.Algebra.BigOperators.Group.List.Basic
import Mathlib.Algebra.Order.BigOperators.Group.List
import Mathlib.Algebra.Order.Ring.Nat
import Mathlib.Data.List.Nodup
import Mathlib.Tactic.Abel

/-!
# Sums over the rows of a table

A table is a list of rows with pairwise different keys.  A total over the table changes by the
weight of the row that is added, removed or replaced.
-/

namespace Meta1Core.Lib

universe u v w

variable {α : Type u} {κ : Type v} {M : Type w} [AddCommMonoid M]

def total (weight : α → M) (rows : List α) : M := (rows.map weight).sum

@[simp] theorem total_nil (weight : α → M) : total weight [] = 0 := rfl

@[simp] theorem total_cons (weight : α → M) (row : α) (rows : List α) :
    total weight (row :: rows) = weight row + total weight rows := by
  rw [total, total, List.map_cons, List.sum_cons]

@[simp] theorem total_append (weight : α → M) (rows rows' : List α) :
    total weight (rows ++ rows') = total weight rows + total weight rows' := by
  rw [total, List.map_append, List.sum_append, total, total]

theorem total_congr {weight weight' : α → M} {rows : List α}
    (h : ∀ row ∈ rows, weight row = weight' row) : total weight rows = total weight' rows := by
  unfold total
  rw [List.map_congr_left h]

theorem total_eq_zero {weight : α → M} {rows : List α} (h : ∀ row ∈ rows, weight row = 0) :
    total weight rows = 0 := by
  induction rows with
  | nil => rfl
  | cons row rows ih =>
    rw [total_cons, h row List.mem_cons_self, zero_add]
    exact ih fun r hr => h r (List.mem_cons_of_mem _ hr)

theorem total_filter (weight : α → M) (select : α → Bool) (rows : List α) :
    total weight (rows.filter select) = total (fun r => if select r then weight r else 0) rows := by
  induction rows with
  | nil => rfl
  | cons row rows ih =>
    by_cases h : select row = true
    · simp [h, ih]
    · simp [h, ih]

section Key

variable [DecidableEq κ] (key : α → κ)

theorem total_remove (weight : α → M) {rows : List α} {row : α} (hkeys : (rows.map key).Nodup)
    (hrow : row ∈ rows) :
    total weight (rows.filter (key · ≠ key row)) + weight row = total weight rows := by
  induction rows with
  | nil => cases hrow
  | cons head rows ih =>
    rw [List.map_cons, List.nodup_cons] at hkeys
    rcases List.mem_cons.mp hrow with rfl | hrow
    · have hrest : rows.filter (key · ≠ key row) = rows := by
        rw [List.filter_eq_self]
        intro r hr
        have hne : key r ≠ key row := fun heq => hkeys.1 (heq ▸ List.mem_map_of_mem hr)
        simpa using hne
      rw [List.filter_cons_of_neg (by simp), hrest, total_cons, add_comm]
    · have hne : key head ≠ key row := fun heq => hkeys.1 (heq ▸ List.mem_map_of_mem hrow)
      rw [List.filter_cons_of_pos (by simpa using hne), total_cons, total_cons, add_assoc,
        ih hkeys.2 hrow]

theorem total_replace (weight : α → M) {rows : List α} {row row' : α}
    (hkeys : (rows.map key).Nodup) (hrow : row ∈ rows) (hkey : key row' = key row) :
    total weight (rows.map fun r => if key r = key row' then row' else r) + weight row =
      total weight rows + weight row' := by
  induction rows with
  | nil => cases hrow
  | cons head rows ih =>
    rw [List.map_cons, List.nodup_cons] at hkeys
    rcases List.mem_cons.mp hrow with rfl | hrow
    · have hrest : rows.map (fun r => if key r = key row' then row' else r) = rows := by
        have hself : ∀ r ∈ rows, (if key r = key row' then row' else r) = id r := by
          intro r hr
          have hne : key r ≠ key row' := fun heq =>
            hkeys.1 (heq.trans hkey ▸ List.mem_map_of_mem hr)
          exact if_neg hne
        rw [List.map_congr_left hself, List.map_id]
      rw [List.map_cons, if_pos hkey.symm, hrest, total_cons, total_cons]
      abel
    · have hne : key head ≠ key row' := fun heq =>
        hkeys.1 (heq.trans hkey ▸ List.mem_map_of_mem hrow)
      rw [List.map_cons, if_neg hne, total_cons, total_cons, add_assoc, ih hkeys.2 hrow, add_assoc]

end Key

section Order

variable {weight weight' : α → ℕ}

theorem total_mono {rows : List α} (h : ∀ row ∈ rows, weight row ≤ weight' row) :
    total weight rows ≤ total weight' rows :=
  List.sum_le_sum h

theorem total_mono_of_forall₂ {β : Type*} {R : α → β → Prop} {rows : List α} {rows' : List β}
    {weight' : β → ℕ} (hle : ∀ r r', R r r' → weight' r' ≤ weight r)
    (h : List.Forall₂ R rows rows') : total weight' rows' ≤ total weight rows := by
  induction h with
  | nil => exact le_refl _
  | cons hR _ ih =>
    rw [total_cons, total_cons]
    exact Nat.add_le_add (hle _ _ hR) ih

theorem le_total_of_mem (weight : α → ℕ) {rows : List α} {row : α} (h : row ∈ rows) :
    weight row ≤ total weight rows :=
  List.le_sum_of_mem (List.mem_map_of_mem h)

end Order

end Meta1Core.Lib
