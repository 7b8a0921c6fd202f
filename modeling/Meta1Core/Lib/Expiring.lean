import Mathlib.Data.List.Sort

/-!
# Rows that expire

An index ordered by the time at which a row is due.  Rows are added in their place, and the ones that
are overdue are taken from the front, one after the other.
-/

namespace Meta1Core.Lib

universe u

structure Expiring {α : Type u} (due : α → Nat) where
  rows : List α
  sorted : rows.Pairwise fun a b => due a ≤ due b

namespace Expiring

variable {α : Type u} {due : α → Nat}

instance : EmptyCollection (Expiring due) := ⟨⟨[], List.Pairwise.nil⟩⟩

def insert (t : Expiring due) (a : α) : Expiring due where
  rows := t.rows.orderedInsert (fun a b => due a ≤ due b) a
  sorted :=
    have : Std.Total fun a b : α => due a ≤ due b := ⟨fun a b => Nat.le_total (due a) (due b)⟩
    have : IsTrans α fun a b => due a ≤ due b := ⟨fun _ _ _ => Nat.le_trans⟩
    t.sorted.orderedInsert a t.rows

/-- Take away the first row as long as it is overdue. -/
def clear (t : Expiring due) (now : Nat) : Expiring due where
  rows := t.rows.dropWhile fun a => due a < now
  sorted := t.sorted.sublist (List.dropWhile_sublist _)

@[simp] theorem mem_insert {t : Expiring due} {a b : α} :
    b ∈ (t.insert a).rows ↔ b = a ∨ b ∈ t.rows :=
  List.mem_orderedInsert _

@[simp] theorem mem_clear {t : Expiring due} {now : Nat} {a : α} :
    a ∈ (t.clear now).rows ↔ a ∈ t.rows ∧ now ≤ due a := by
  obtain ⟨rows, hsorted⟩ := t
  show a ∈ rows.dropWhile _ ↔ a ∈ rows ∧ _
  induction rows with
  | nil => simp
  | cons b rows ih =>
    obtain ⟨hfirst, hrest⟩ := List.pairwise_cons.mp hsorted
    rw [List.dropWhile_cons]
    by_cases hdue : due b < now
    · rw [if_pos (decide_eq_true hdue), ih hrest, List.mem_cons]
      constructor
      · exact fun h => ⟨.inr h.1, h.2⟩
      · rintro ⟨rfl | hmem, hnow⟩
        · omega
        · exact ⟨hmem, hnow⟩
    · -- the first row is due latest of those that are gone, so none of the others is overdue
      rw [if_neg (by simpa using hdue)]
      refine ⟨fun hmem => ⟨hmem, ?_⟩, And.left⟩
      rcases List.mem_cons.mp hmem with rfl | hmem
      · omega
      · have := hfirst a hmem
        omega

end Expiring

end Meta1Core.Lib
