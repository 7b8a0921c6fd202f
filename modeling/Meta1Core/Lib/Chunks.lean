import Mathlib.Algebra.GroupWithZero.Nat
import Mathlib.Tactic.Common

/-!
# Vectors in chunks

A long vector is kept as a vector of chunks of `2 ^ bits` places each.
-/

namespace Meta1Core.Lib

universe u

variable {α : Type u} {bits : Nat} {chunks : List (List α)}

def resize (gap : α) (n : Nat) (v : List α) : List α := v.take n ++ List.replicate (n - v.length) gap

def chunkMask (bits : Nat) : Nat := (1 <<< bits) - 1

def cellAt (bits : Nat) (chunks : List (List α)) (i : Nat) : Option α :=
  chunks[i >>> bits]?.bind fun chunk => chunk[i &&& chunkMask bits]?

/-- `chunks[i >> bits][i & mask] = x`, if there is such a place -/
def setCell (bits : Nat) (chunks : List (List α)) (i : Nat) (x : α) : Option (List (List α)) :=
  match cellAt bits chunks i with
  | none => none
  | some _ => some (chunks.modify (i >>> bits) fun chunk => chunk.set (i &&& chunkMask bits) x)

/-- Make room for chunk `k` and fill it. -/
def addChunk (bits : Nat) (gap : α) (k : Nat) (chunks : List (List α)) : List (List α) :=
  (resize [] (k + 1) chunks).modify k (resize gap (1 <<< bits))

def Chunked (bits : Nat) (chunks : List (List α)) : Prop := ∀ chunk ∈ chunks, chunk.length = 2 ^ bits

theorem and_chunkMask (bits i : Nat) : i &&& chunkMask bits = i % 2 ^ bits := by
  rw [chunkMask, Nat.one_shiftLeft]
  exact Nat.and_two_pow_sub_one_eq_mod i bits

theorem and_chunkMask_lt (bits i : Nat) : i &&& chunkMask bits < 2 ^ bits := by
  rw [and_chunkMask]
  exact Nat.mod_lt i (Nat.two_pow_pos bits)

theorem index_ext {i j : Nat} (hchunk : i >>> bits = j >>> bits)
    (hplace : i &&& chunkMask bits = j &&& chunkMask bits) : i = j := by
  rw [Nat.shiftRight_eq_div_pow, Nat.shiftRight_eq_div_pow] at hchunk
  rw [and_chunkMask, and_chunkMask] at hplace
  calc i = 2 ^ bits * (i / 2 ^ bits) + i % 2 ^ bits := (Nat.div_add_mod i _).symm
    _ = 2 ^ bits * (j / 2 ^ bits) + j % 2 ^ bits := by rw [hchunk, hplace]
    _ = j := Nat.div_add_mod j _

theorem resize_nil (gap : α) (n : Nat) : resize gap n [] = List.replicate n gap := by
  rw [resize, List.take_nil, List.nil_append, List.length_nil, Nat.sub_zero]

theorem setCell_eq {i : Nat} {x : α} (h : (cellAt bits chunks i).isSome) :
    setCell bits chunks i x =
      some (chunks.modify (i >>> bits) fun chunk => chunk.set (i &&& chunkMask bits) x) := by
  unfold setCell
  cases hcell : cellAt bits chunks i with
  | none =>
    rw [hcell] at h
    cases h
  | some y => rfl

theorem cellAt_setCell {i : Nat} {x : α} {chunks' : List (List α)}
    (h : setCell bits chunks i x = some chunks') (j : Nat) :
    cellAt bits chunks' j = if j = i then some x else cellAt bits chunks j := by
  have hsome : (cellAt bits chunks i).isSome := by
    unfold setCell at h
    cases hcell : cellAt bits chunks i with
    | none =>
      rw [hcell] at h
      cases h
    | some y => rfl
  rw [setCell_eq hsome] at h
  cases h
  unfold cellAt
  by_cases hchunk : i >>> bits = j >>> bits
  · rw [hchunk, List.getElem?_modify_eq]
    cases hlookup : chunks[j >>> bits]? with
    | none =>
      rw [cellAt, hchunk, hlookup] at hsome
      cases hsome
    | some chunk =>
      rw [cellAt, hchunk, hlookup] at hsome
      show (chunk.set (i &&& chunkMask bits) x)[j &&& chunkMask bits]? = _
      rw [List.getElem?_set]
      by_cases hplace : i &&& chunkMask bits = j &&& chunkMask bits
      · have hlt : i &&& chunkMask bits < chunk.length := by
          rw [Option.bind_some, Option.isSome_iff_exists] at hsome
          obtain ⟨y, hy⟩ := hsome
          exact (List.getElem?_eq_some_iff.mp hy).1
        rw [if_pos hplace, if_pos hlt, if_pos (index_ext hchunk hplace).symm]
      · rw [if_neg hplace, if_neg fun heq => hplace (congrArg (· &&& chunkMask bits) heq.symm)]
        rfl
  · rw [List.getElem?_modify_ne _ _ hchunk,
      if_neg fun heq => hchunk (congrArg (· >>> bits) heq.symm)]

namespace Chunked

theorem nil (bits : Nat) : Chunked bits ([] : List (List α)) := fun _ h => nomatch h

theorem concat (h : Chunked bits chunks) (gap : α) :
    Chunked bits (chunks ++ [List.replicate (2 ^ bits) gap]) := by
  intro chunk hchunk
  rcases List.mem_append.mp hchunk with hold | hnew
  · exact h chunk hold
  · rw [List.mem_singleton.mp hnew, List.length_replicate]

theorem isSome_iff (h : Chunked bits chunks) {i : Nat} :
    (cellAt bits chunks i).isSome ↔ i >>> bits < chunks.length := by
  unfold cellAt
  by_cases hlt : i >>> bits < chunks.length
  · have hlength := h _ (List.getElem_mem hlt)
    have hplace : i &&& chunkMask bits < (chunks[i >>> bits]).length :=
      hlength ▸ and_chunkMask_lt bits i
    rw [List.getElem?_eq_getElem hlt, Option.bind_some, List.getElem?_eq_getElem hplace]
    exact iff_of_true rfl hlt
  · rw [List.getElem?_eq_none (Nat.not_lt.mp hlt)]
    exact iff_of_false (fun hnone => nomatch hnone) hlt

theorem setCell (h : Chunked bits chunks) {i : Nat} (x : α) (hlt : i >>> bits < chunks.length) :
    ∃ chunks', Lib.setCell bits chunks i x = some chunks' ∧ Chunked bits chunks' ∧
      chunks'.length = chunks.length := by
  refine ⟨_, setCell_eq (h.isSome_iff.mpr hlt), ?_, List.length_modify ..⟩
  intro chunk hchunk
  obtain ⟨k, hk, rfl⟩ := List.getElem_of_mem hchunk
  rw [List.length_modify] at hk
  rw [List.getElem_modify]
  split
  · rw [List.length_set]
    exact h _ (List.getElem_mem hk)
  · exact h _ (List.getElem_mem hk)

end Chunked

theorem modify_concat (f : α → α) (v : List α) (x : α) :
    (v ++ [x]).modify v.length f = v ++ [f x] := by
  induction v with
  | nil => rfl
  | cons y v ih =>
    show y :: (v ++ [x]).modify v.length f = _
    rw [ih]
    rfl

theorem addChunk_eq (bits : Nat) (gap : α) {k : Nat} (h : chunks.length = k) :
    addChunk bits gap k chunks = chunks ++ [List.replicate (2 ^ bits) gap] := by
  have hresize : resize [] (k + 1) chunks = chunks ++ [[]] := by
    unfold resize
    rw [List.take_of_length_le (by omega), h, Nat.add_sub_cancel_left]
    rfl
  unfold addChunk
  rw [hresize, ← h, modify_concat, resize_nil, Nat.one_shiftLeft]

theorem cellAt_concat (chunks : List (List α)) (gap : α) (i : Nat) :
    cellAt bits (chunks ++ [List.replicate (2 ^ bits) gap]) i =
      if i >>> bits = chunks.length then some gap else cellAt bits chunks i := by
  unfold cellAt
  by_cases hlt : i >>> bits < chunks.length
  · rw [List.getElem?_append_left hlt, if_neg (Nat.ne_of_lt hlt)]
  · rw [List.getElem?_append_right (Nat.not_lt.mp hlt)]
    by_cases heq : i >>> bits = chunks.length
    · rw [heq, Nat.sub_self, if_pos rfl]
      show (List.replicate (2 ^ bits) gap)[i &&& chunkMask bits]? = some gap
      rw [List.getElem?_replicate_of_lt (and_chunkMask_lt bits i)]
    · rw [if_neg heq, List.getElem?_eq_none (Nat.not_lt.mp hlt), List.getElem?_eq_none]
      rw [List.length_singleton]
      omega

end Meta1Core.Lib
