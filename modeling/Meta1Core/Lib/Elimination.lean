import Meta1Core.Lib.FlatSet

/-!
# Leaving out what is not needed

One candidate after another is taken out of a set, and put back if what remains is not enough.
-/

namespace Meta1Core.Lib.FlatSet

universe u

variable {α : Type u} [LinearOrder α]

theorem insert_erase {s : FlatSet α} {a : α} (ha : a ∈ s) : (s.erase a).insert a = s := by
  ext b
  rw [mem_insert, mem_erase]
  by_cases hb : b = a
  · subst hb
    exact iff_of_true (.inl rfl) ha
  · rw [or_iff_right hb, and_iff_left hb]

variable (enough : FlatSet α → Prop) [DecidablePred enough]

def eliminate : List α → FlatSet α → FlatSet α
  | [], s => s
  | a :: rest, s => if enough (s.erase a) then eliminate rest (s.erase a) else eliminate rest s

variable {enough} {candidates : List α} {s : FlatSet α}

theorem eliminate_subset {a : α} (ha : a ∈ eliminate enough candidates s) : a ∈ s := by
  induction candidates generalizing s with
  | nil => exact ha
  | cons c rest ih =>
    rw [eliminate] at ha
    split at ha
    · exact (mem_erase.mp (ih ha)).1
    · exact ih ha

variable (enough candidates) in
theorem eliminate_enough (hs : enough s) : enough (eliminate enough candidates s) := by
  induction candidates generalizing s with
  | nil => exact hs
  | cons c rest ih =>
    rw [eliminate]
    split
    · rename_i hless
      exact ih hless
    · exact ih hs

section Monotone

variable (hmono : ∀ s t : FlatSet α, (∀ a ∈ s, a ∈ t) → enough s → enough t)
include hmono

theorem eliminate_needed {c : α} (hc : c ∈ candidates) (hleft : c ∈ eliminate enough candidates s) :
    ¬enough ((eliminate enough candidates s).erase c) := by
  induction candidates generalizing s with
  | nil => cases hc
  | cons c' rest ih =>
    rw [eliminate] at hleft ⊢
    split at hleft
    · rename_i hless
      rw [if_pos hless]
      -- `c'` itself is not left, so that `c` is a later candidate
      have hne : c ≠ c' := (mem_erase.mp (eliminate_subset hleft)).2
      exact ih ((List.mem_cons.mp hc).resolve_left hne) hleft
    · rename_i hless
      rw [if_neg hless]
      rcases List.mem_cons.mp hc with rfl | hrest
      · refine fun henough => hless (hmono _ _ (fun a ha => ?_) henough)
        rw [mem_erase] at ha ⊢
        exact ⟨eliminate_subset ha.1, ha.2⟩
      · exact ih hrest hleft

theorem eliminate_minimal (hall : ∀ a ∈ s, a ∈ candidates) {t : FlatSet α}
    (ht : ∀ a ∈ t, a ∈ eliminate enough candidates s) (henough : enough t) {a : α}
    (ha : a ∈ eliminate enough candidates s) : a ∈ t := by
  by_contra hnot
  refine eliminate_needed hmono (hall a (eliminate_subset ha)) ha (hmono _ _ (fun b hb => ?_) henough)
  refine mem_erase.mpr ⟨ht b hb, ?_⟩
  rintro rfl
  exact hnot hb

end Monotone

end Meta1Core.Lib.FlatSet
