import Meta1Core.Lib.Run

/-!
# Exceptions

`FC_ASSERT` throws an `fc::exception`.  A `catch (const fc::exception&)` lets every other
`std::exception` through, so the two are told apart.
-/

namespace Meta1Core

inductive Exception where
  /-- `fc::exception`, with the text of the assertion that failed -/
  | fc (message : String)
  /-- a `std::exception` that is no `fc::exception` -/
  | std (what : String)
  /-- what the language leaves undefined, such as signed integer overflow -/
  | undefined
  /-- `assert`, which ends the process -/
  | abort (assertion : String)
  /-- a loop that does not end -/
  | diverges
  deriving DecidableEq

def fcAssert (condition : Prop) [Decidable condition] (message : String) :
    Except Exception Unit :=
  if condition then .ok () else .error (.fc message)

def cAssert (condition : Prop) [Decidable condition] (text : String) : Except Exception Unit :=
  if condition then .ok () else .error (.abort text)

variable {c : Prop} {m : String}

theorem fcAssert_eq_ok [Decidable c] {u : Unit} : fcAssert c m = .ok u ↔ c := by
  unfold fcAssert
  split <;> simp_all

theorem fcAssert_bind_eq_ok [Decidable c] {α : Type} {f : Unit → Except Exception α} {a : α} :
    (fcAssert c m >>= f) = .ok a ↔ c ∧ f () = .ok a := by
  rw [Lib.bind_eq_ok]
  constructor
  · rintro ⟨u, hc, hf⟩
    exact ⟨fcAssert_eq_ok.mp hc, hf⟩
  · rintro ⟨hc, hf⟩
    exact ⟨(), fcAssert_eq_ok.mpr hc, hf⟩

theorem of_fcAssert [Decidable c] {α : Type} {f : Unit → Except Exception α} {a : α}
    (h : (fcAssert c m >>= f) = .ok a) : c ∧ f () = .ok a := fcAssert_bind_eq_ok.mp h

theorem ok_ne_error {α : Type} {a : α} {e : Exception} : (.ok a : Except Exception α) ≠ .error e := nofun

theorem fc_ne_diverges {α : Type} : (.error (.fc m) : Except Exception α) ≠ .error .diverges := nofun

theorem undefined_ne_diverges {α : Type} :
    (.error .undefined : Except Exception α) ≠ .error .diverges := nofun

theorem bind_ne_error {α β : Type} {x : Except Exception α} {f : α → Except Exception β}
    {e : Exception} (hx : x ≠ .error e) (hf : ∀ a, f a ≠ .error e) : (x >>= f) ≠ .error e := by
  cases x with
  | error e' => exact fun h => hx (congrArg Except.error (Except.error.inj h))
  | ok a => exact hf a

theorem fcAssert_ne_diverges [Decidable c] : fcAssert c m ≠ .error .diverges := by
  unfold fcAssert
  split
  · exact ok_ne_error
  · exact fc_ne_diverges

variable {text : String}

theorem cAssert_of [Decidable c] (h : c) : cAssert c text = .ok () :=
  if_pos h

theorem cAssert_bind_eq_ok [Decidable c] {α : Type} {f : Unit → Except Exception α} {a : α} :
    (cAssert c text >>= f) = .ok a ↔ c ∧ f () = .ok a := by
  by_cases hc : c
  · rw [cAssert_of hc]
    exact (and_iff_right hc).symm
  · simp [cAssert, hc, bind, Except.bind]

end Meta1Core
