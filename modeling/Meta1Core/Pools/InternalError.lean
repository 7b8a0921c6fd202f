import Meta1Core.Ledger.Avoids

/-!
# Where an internal error can come from

The assertions labelled "Internal error" stand in the pool evaluators only; what they call throws
other exceptions.
-/

namespace Meta1Core.Pools

open Lib (Returns Raises)
open Protocol Ledger

def internalError : Exception := .fc "Internal error"

/-- `x` never fails with an internal error. -/
abbrev Silent {α : Type} (x : Evaluation α) : Prop := Avoids "Internal error" x

theorem not_ledgerText : "Internal error" ∉ ledgerTexts := by decide

section

variable {α β V : Type} {s : State} {x : Except Exception α} {f : α → Except Exception β}
variable {e : Exception}

theorem bind_eq_error :
    (x >>= f) = .error e ↔ x = .error e ∨ ∃ a, x = .ok a ∧ f a = .error e := by
  cases x with
  | error e' => simp [bind, Except.bind]
  | ok a => simp [bind, Except.bind]

theorem fetch_silent (t : Table V) (id : Nat) : Silent (t.fetch id) :=
  fetch_avoids not_ledgerText t id

theorem raises_fetch_bind {t : Table V} {id : Nat} {g : V → Evaluation β}
    (h : Raises (t.fetch id >>= g) s internalError) :
    ∃ v, Returns (t.fetch id) s v s ∧ Raises (g v) s internalError := by
  obtain ⟨v, s', hv, hrest⟩ := (fetch_silent t id).raises_bind h
  obtain ⟨-, rfl⟩ := Table.fetch_iff.mp hv
  exact ⟨v, hv, hrest⟩

variable {c : Prop} [Decidable c] {m : String} {g : Unit → Evaluation β}

theorem raises_require_bind (hm : m ≠ "Internal error")
    (h : Raises (require c m >>= g) s internalError) : c ∧ Raises (g ()) s internalError := by
  obtain ⟨_, s', hret, hrest⟩ := (Avoids.require hm).raises_bind h
  obtain ⟨hc, rfl⟩ := returns_require.mp hret
  exact ⟨hc, hrest⟩

theorem raises_assert_bind (hc : c) (h : Raises (require c m >>= g) s internalError) :
    Raises (g ()) s internalError := by
  rcases Raises.bind_iff.mp h with h | ⟨_, s', hret, hrest⟩
  · exact absurd hc (raises_require.mp h).1
  · obtain ⟨-, rfl⟩ := returns_require.mp hret
    exact hrest

end

end Meta1Core.Pools
