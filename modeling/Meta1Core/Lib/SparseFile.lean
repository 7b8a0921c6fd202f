import Mathlib.Tactic.Common

/-!
# Files of records and of bytes

A record that is written behind the end of a file leaves a gap, which reads as empty records.  A file of
bytes that only grows keeps what has been written to it.
-/

namespace Meta1Core.Lib

universe u

variable {α : Type u}

def writeAt (gap : α) (n : Nat) (x : α) (xs : List α) : List α :=
  if n < xs.length then xs.set n x else xs ++ List.replicate (n - xs.length) gap ++ [x]

theorem getElem?_writeAt (gap : α) (n : Nat) (x : α) (xs : List α) (i : Nat) :
    (writeAt gap n x xs)[i]? =
      if i = n then some x
      else if i < xs.length then xs[i]?
      else if i < n then some gap else none := by
  unfold writeAt
  by_cases hn : n < xs.length
  · rw [if_pos hn, List.getElem?_set]
    by_cases hi : i = n
    · rw [if_pos hi.symm, if_pos hi, if_pos hn]
    · rw [if_neg fun h => hi h.symm, if_neg hi]
      by_cases hlt : i < xs.length
      · rw [if_pos hlt]
      · rw [if_neg hlt, if_neg (by omega), List.getElem?_eq_none (by omega)]
  · rw [if_neg hn, List.append_assoc]
    by_cases hlt : i < xs.length
    · rw [List.getElem?_append_left hlt, if_neg (by omega), if_pos hlt]
    · rw [List.getElem?_append_right (by omega), if_neg hlt]
      by_cases hi : i < n
      · rw [List.getElem?_append_left (by rw [List.length_replicate]; omega), if_neg (by omega),
          if_pos hi, List.getElem?_replicate_of_lt (by omega)]
      · rw [List.getElem?_append_right (by rw [List.length_replicate]; omega),
          List.length_replicate, if_neg hi]
        by_cases heq : i = n
        · rw [if_pos heq, show i - xs.length - (n - xs.length) = 0 by omega]
          rfl
        · rw [if_neg heq, List.getElem?_eq_none]
          show 1 ≤ _
          omega

theorem length_writeAt (gap : α) (n : Nat) (x : α) (xs : List α) :
    (writeAt gap n x xs).length = max xs.length (n + 1) := by
  unfold writeAt
  split
  · rw [List.length_set]
    omega
  · rw [List.length_append, List.length_append, List.length_replicate]
    show xs.length + (n - xs.length) + 1 = _
    omega

theorem writeAt_self {gap : α} {n : Nat} {x : α} {xs : List α} (h : xs[n]? = some x) :
    writeAt gap n x xs = xs := by
  obtain ⟨hlt, hx⟩ := List.getElem?_eq_some_iff.mp h
  unfold writeAt
  rw [if_pos hlt, ← hx]
  exact List.set_getElem_self hlt

theorem getElem?_take_eq_some {xs : List α} {n i : Nat} {x : α} :
    (xs.take n)[i]? = some x ↔ xs[i]? = some x ∧ i < n := by
  rw [List.getElem?_take]
  by_cases hi : i < n
  · rw [if_pos hi, and_iff_left hi]
  · rw [if_neg hi]
    constructor
    · exact fun h => nomatch h
    · exact fun h => absurd h.2 hi

def slice (position size : Nat) (bytes : List α) : List α := (bytes.drop position).take size

theorem slice_zero (position : Nat) (bytes : List α) : slice position 0 bytes = [] := List.take_zero

theorem slice_append {position size : Nat} {bytes : List α} (h : position + size ≤ bytes.length)
    (more : List α) : slice position size (bytes ++ more) = slice position size bytes := by
  unfold slice
  rw [List.drop_append_of_le_length (by omega), List.take_append_of_le_length]
  rw [List.length_drop]
  omega

theorem slice_end (bytes more : List α) : slice bytes.length more.length (bytes ++ more) = more := by
  unfold slice
  rw [List.drop_left, List.take_length]

end Meta1Core.Lib
