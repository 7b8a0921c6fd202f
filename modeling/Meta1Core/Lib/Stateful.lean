import Mathlib.Order.Defs.Unbundled
import Mathlib.Tactic.Common

/-!
# Programs with a state and exceptions

A program runs on a state and either returns a value or throws; in both cases it leaves a state
behind.  When a program returns, each of its statements did: the lemmas here take a run apart into
the runs of its statements.
-/

namespace Meta1Core.Lib

universe u

variable {ε σ α β : Type u}

def Returns (x : EStateM ε σ α) (s : σ) (a : α) (s' : σ) : Prop := x s = .ok a s'

/-- A computation without state, as a program that leaves the state alone -/
instance monadLiftExcept : MonadLift (Except ε) (EStateM ε σ) where
  monadLift x := match x with
    | .ok a => pure a
    | .error e => throw e

theorem modifyGet_apply (g : σ → α × σ) (s : σ) :
    (EStateM.modifyGet g : EStateM ε σ α) s = .ok (g s).1 (g s).2 := rfl

namespace Returns

variable {x : EStateM ε σ α} {f : α → EStateM ε σ β} {s s' t : σ} {a a' : α} {b : β}

theorem bind_iff :
    Returns (x >>= f) s b t ↔ ∃ a s', Returns x s a s' ∧ Returns (f a) s' b t := by
  unfold Returns
  cases hx : x s with
  | ok a s' => simp [bind, EStateM.bind, hx]
  | error e s' => simp [bind, EStateM.bind, hx]

theorem bind_eq (h : Returns x s a s') (f : α → EStateM ε σ β) : (x >>= f) s = f a s' := by
  show EStateM.bind x f s = f a s'
  unfold EStateM.bind
  rw [show x s = .ok a s' from h]

theorem pure_iff : Returns (pure a : EStateM ε σ α) s a' s' ↔ a' = a ∧ s' = s := by
  simp [Returns, pure, EStateM.pure, eq_comm]

theorem get_iff : Returns (get : EStateM ε σ σ) s t s' ↔ t = s ∧ s' = s := by
  show (EStateM.Result.ok s s : EStateM.Result ε σ σ) = .ok t s' ↔ _
  simp [eq_comm]

theorem set_iff {u : PUnit} : Returns (set t : EStateM ε σ PUnit) s u s' ↔ s' = t := by
  show (EStateM.Result.ok ⟨⟩ t : EStateM.Result ε σ PUnit) = .ok u s' ↔ _
  simp [eq_comm]

theorem modify_iff {g : σ → σ} {u : PUnit} :
    Returns (modify g : EStateM ε σ PUnit) s u s' ↔ s' = g s := by
  show (EStateM.Result.ok ⟨⟩ (g s) : EStateM.Result ε σ PUnit) = .ok u s' ↔ _
  simp [eq_comm]

theorem throw_iff {e : ε} : Returns (throw e : EStateM ε σ α) s a s' ↔ False := by
  show (EStateM.Result.error e s : EStateM.Result ε σ α) = .ok a s' ↔ _
  simp

theorem lift_iff {y : Except ε α} :
    Returns (liftM y : EStateM ε σ α) s a s' ↔ y = .ok a ∧ s' = s := by
  cases y with
  | ok b =>
    refine Iff.trans (pure_iff (a := b)) ?_
    rw [Except.ok.injEq, eq_comm]
  | error e => exact Iff.trans (throw_iff (e := e)) (by simp)

theorem lift_bind_iff {y : Except ε α} :
    Returns (liftM y >>= f) s b t ↔ ∃ a, y = .ok a ∧ Returns (f a) s b t := by
  rw [bind_iff]
  constructor
  · rintro ⟨a, s', hy, hf⟩
    obtain ⟨hok, rfl⟩ := lift_iff.mp hy
    exact ⟨a, hok, hf⟩
  · rintro ⟨a, hok, hf⟩
    exact ⟨a, s, lift_iff.mpr ⟨hok, rfl⟩, hf⟩

theorem get_bind_iff {g : σ → EStateM ε σ β} :
    Returns (get >>= g) s b t ↔ Returns (g s) s b t := by
  simp only [bind_iff, get_iff, and_assoc, exists_and_left, exists_eq_left]

theorem ite_iff {c : Prop} [Decidable c] {x y : EStateM ε σ α} :
    Returns (if c then x else y) s a s' ↔ (c ∧ Returns x s a s') ∨ (¬c ∧ Returns y s a s') := by
  by_cases hc : c <;> simp [hc]

theorem of_bind (h : Returns (x >>= f) s b t) :
    ∃ a s', Returns x s a s' ∧ Returns (f a) s' b t := bind_iff.mp h

theorem of_lift {y : Except ε α} (h : Returns (liftM y >>= f) s b t) :
    ∃ a, y = .ok a ∧ Returns (f a) s b t := lift_bind_iff.mp h

theorem of_pure (h : Returns (pure a : EStateM ε σ α) s a' s') : a' = a ∧ s' = s := pure_iff.mp h

theorem of_get {g : σ → EStateM ε σ β} (h : Returns (get >>= g) s b t) : Returns (g s) s b t :=
  get_bind_iff.mp h

theorem of_ite {c : Prop} [Decidable c] {x y : EStateM ε σ α}
    (h : Returns (if c then x else y) s a s') :
    (c ∧ Returns x s a s') ∨ (¬c ∧ Returns y s a s') := ite_iff.mp h

end Returns

def Raises (x : EStateM ε σ α) (s : σ) (e : ε) : Prop := ∃ s', x s = .error e s'

namespace Raises

variable {x : EStateM ε σ α} {f : α → EStateM ε σ β} {s : σ} {a : α} {e : ε}

theorem bind_iff :
    Raises (x >>= f) s e ↔ Raises x s e ∨ ∃ a s', Returns x s a s' ∧ Raises (f a) s' e := by
  unfold Raises Returns
  cases hx : x s with
  | ok a s' => simp [bind, EStateM.bind, hx]
  | error e' s' => simp [bind, EStateM.bind, hx]

theorem pure_iff : Raises (pure a : EStateM ε σ α) s e ↔ False := by
  simp [Raises, pure, EStateM.pure]

theorem get_iff : Raises (get : EStateM ε σ σ) s e ↔ False := by
  show (∃ s', (EStateM.Result.ok s s : EStateM.Result ε σ σ) = .error e s') ↔ _
  simp

theorem modify_iff {g : σ → σ} : Raises (modify g : EStateM ε σ PUnit) s e ↔ False := by
  show (∃ s', (EStateM.Result.ok ⟨⟩ (g s) : EStateM.Result ε σ PUnit) = .error e s') ↔ _
  simp

theorem throw_iff {e' : ε} : Raises (throw e' : EStateM ε σ α) s e ↔ e' = e := by
  show (∃ s', (EStateM.Result.error e' s : EStateM.Result ε σ α) = .error e s') ↔ _
  simp [eq_comm]

theorem lift_iff {y : Except ε α} : Raises (liftM y : EStateM ε σ α) s e ↔ y = .error e := by
  cases y with
  | ok b => exact Iff.trans (pure_iff (a := b)) (by simp)
  | error e' =>
    refine throw_iff.trans ?_
    rw [Except.error.injEq]

theorem lift_bind_iff {y : Except ε α} :
    Raises (liftM y >>= f) s e ↔ y = .error e ∨ ∃ a, y = .ok a ∧ Raises (f a) s e := by
  rw [bind_iff, lift_iff]
  refine or_congr Iff.rfl ⟨?_, ?_⟩
  · rintro ⟨a, s', hy, hf⟩
    obtain ⟨hok, rfl⟩ := Returns.lift_iff.mp hy
    exact ⟨a, hok, hf⟩
  · rintro ⟨a, hok, hf⟩
    exact ⟨a, s, Returns.lift_iff.mpr ⟨hok, rfl⟩, hf⟩

theorem ite_iff {c : Prop} [Decidable c] {x y : EStateM ε σ α} :
    Raises (if c then x else y) s e ↔ (c ∧ Raises x s e) ∨ (¬c ∧ Raises y s e) := by
  by_cases hc : c <;> simp [hc]

end Raises

/-- Whenever `x` returns, the states before and after are related. -/
def Relates (R : σ → σ → Prop) (x : EStateM ε σ α) : Prop :=
  ∀ s a s', Returns x s a s' → R s s'

namespace Relates

variable {R : σ → σ → Prop} {x y : EStateM ε σ α} {f : α → EStateM ε σ β}

theorem modify {g : σ → σ} (h : ∀ s, R s (g s)) :
    Relates R (modify g : EStateM ε σ PUnit) := by
  intro s _ s' hret
  rw [Returns.modify_iff.mp hret]
  exact h s

theorem ite {c : Prop} [Decidable c] (hx : Relates R x) (hy : Relates R y) :
    Relates R (if c then x else y) := by
  split
  · exact hx
  · exact hy

theorem bind [IsTrans σ R] (hx : Relates R x) (hf : ∀ a, Relates R (f a)) :
    Relates R (x >>= f) := by
  intro s b s'' h
  obtain ⟨a, s', h1, h2⟩ := h.of_bind
  exact IsTrans.trans _ _ _ (hx _ _ _ h1) (hf a _ _ _ h2)

variable [Std.Refl R]

theorem pure (a : α) : Relates R (pure a : EStateM ε σ α) := by
  intro s a' s' h
  obtain ⟨-, rfl⟩ := h.of_pure
  exact refl _

theorem get : Relates R (get : EStateM ε σ σ) := by
  intro s a s' h
  obtain ⟨-, rfl⟩ := Returns.get_iff.mp h
  exact refl _

theorem lift (y : Except ε α) : Relates R (liftM y : EStateM ε σ α) := by
  intro s a s' h
  obtain ⟨-, rfl⟩ := Returns.lift_iff.mp h
  exact refl _

end Relates

def commit (x : EStateM ε σ α) (s : σ) : Except ε σ :=
  match x s with
  | .ok _ s' => .ok s'
  | .error e _ => .error e

theorem commit_eq_ok {x : EStateM ε σ α} {s s' : σ} :
    commit x s = .ok s' ↔ ∃ a, Returns x s a s' := by
  unfold commit Returns
  cases x s <;> simp

end Meta1Core.Lib
