import Mathlib.Algebra.GroupWithZero.Nat
import Mathlib.Data.List.Forall2
import Mathlib.Tactic.Common

/-!
# Runs of a step function that may throw

A component is a state, a set of events and a step function into `Except`.  A history is the list of
events of a run, or a way to a state by steps that all meet a condition.
-/

namespace Meta1Core.Lib

universe u v w

variable {σ : Type u} {ε : Type v} {err : Type w}

theorem bind_eq_ok {α β : Type u} {x : Except err α} {f : α → Except err β} {b : β} :
    (x >>= f) = .ok b ↔ ∃ a, x = .ok a ∧ f a = .ok b := by
  cases x with
  | error e => simp [bind, Except.bind]
  | ok a => simp [bind, Except.bind]

theorem of_bind {α β : Type u} {x : Except err α} {f : α → Except err β} {b : β}
    (h : (x >>= f) = .ok b) : ∃ a, x = .ok a ∧ f a = .ok b := bind_eq_ok.mp h

def Succeeds {α : Type u} (x : Except err α) (P : α → Prop) : Prop := ∃ a, x = .ok a ∧ P a

instance {α : Type u} (x : Except err α) (P : α → Prop) [DecidablePred P] :
    Decidable (Succeeds x P) :=
  match x with
  | .ok a => decidable_of_iff (P a)
      ⟨fun hP => ⟨a, rfl, hP⟩, fun ⟨_, heq, hP⟩ => Except.ok.inj heq ▸ hP⟩
  | .error _ => .isFalse fun ⟨_, heq, _⟩ => nomatch heq

theorem mapM_eq_ok {α β : Type u} {f : α → Except err β} {xs : List α} {ys : List β} :
    xs.mapM f = .ok ys ↔ List.Forall₂ (fun x y => f x = .ok y) xs ys := by
  induction xs generalizing ys with
  | nil =>
    rw [List.mapM_nil, List.forall₂_nil_left_iff]
    exact ⟨fun h => by cases h; rfl, fun h => by rw [h]; rfl⟩
  | cons x xs ih =>
    rw [List.mapM_cons, bind_eq_ok, List.forall₂_cons_left_iff]
    constructor
    · rintro ⟨y, hy, hrest⟩
      obtain ⟨ys', hys', hcons⟩ := of_bind hrest
      cases hcons
      exact ⟨y, ys', hy, ih.mp hys', rfl⟩
    · rintro ⟨y, ys', hy, hys', rfl⟩
      exact ⟨y, hy, bind_eq_ok.mpr ⟨ys', ih.mpr hys', rfl⟩⟩

theorem mapM_eq_error {α β : Type u} {f : α → Except err β} {xs : List α} {e : err}
    (h : xs.mapM f = .error e) : ∃ x ∈ xs, f x = .error e := by
  induction xs with
  | nil => cases h
  | cons x xs ih =>
    rw [List.mapM_cons] at h
    cases hx : f x with
    | error e' =>
      rw [hx] at h
      cases h
      exact ⟨x, List.mem_cons_self, hx⟩
    | ok y =>
      cases hxs : xs.mapM f with
      | error e' =>
        rw [hx, hxs] at h
        cases h
        obtain ⟨x', hmem, hx'⟩ := ih hxs
        exact ⟨x', List.mem_cons_of_mem _ hmem, hx'⟩
      | ok ys =>
        rw [hx, hxs] at h
        cases h

theorem exists_of_mem_right {α β : Type*} {R : α → β → Prop} {xs : List α} {ys : List β}
    (h : List.Forall₂ R xs ys) {y : β} (hy : y ∈ ys) : ∃ x ∈ xs, R x y := by
  induction h with
  | nil => cases hy
  | cons hxy _ ih =>
    rcases List.mem_cons.mp hy with rfl | hy
    · exact ⟨_, List.mem_cons_self, hxy⟩
    · obtain ⟨x, hx, hR⟩ := ih hy
      exact ⟨x, List.mem_cons_of_mem _ hx, hR⟩

theorem exists_of_mem_left {α β : Type*} {R : α → β → Prop} {xs : List α} {ys : List β}
    (h : List.Forall₂ R xs ys) {x : α} (hx : x ∈ xs) : ∃ y ∈ ys, R x y :=
  exists_of_mem_right (R := flip R) (List.Forall₂.flip h) hx

theorem map_eq_of_forall₂ {α β γ : Type*} {R : α → β → Prop} {f : α → γ} {g : β → γ}
    {xs : List α} {ys : List β} (hR : ∀ x y, R x y → f x = g y) (h : List.Forall₂ R xs ys) :
    xs.map f = ys.map g := by
  induction h with
  | nil => rfl
  | cons hxy _ ih => rw [List.map_cons, List.map_cons, hR _ _ hxy, ih]

def Outcome {α : Type u} (P : α → Prop) (Q : err → Prop) : Except err α → Prop
  | .ok a => P a
  | .error e => Q e

theorem Outcome.imp {α : Type u} {P P' : α → Prop} {Q Q' : err → Prop} {x : Except err α}
    (h : Outcome P Q x) (hP : ∀ a, P a → P' a) (hQ : ∀ e, Q e → Q' e) : Outcome P' Q' x := by
  cases x with
  | ok a => exact hP a h
  | error e => exact hQ e h

theorem Outcome.bind {α β : Type u} {P : α → Prop} {P' : β → Prop} {Q : err → Prop} {x : Except err α}
    {f : α → Except err β} (h : Outcome P Q x) (hf : ∀ a, P a → Outcome P' Q (f a)) :
    Outcome P' Q (x >>= f) := by
  cases x with
  | ok a => exact hf a h
  | error e => exact h

theorem outcome_foldlM {α : Type u} {β : Type v} {P : α → Prop} {Q : err → Prop}
    {f : α → β → Except err α} {xs : List β}
    (hf : ∀ a, ∀ x ∈ xs, P a → Outcome P Q (f a x)) {a : α} (h : P a) :
    Outcome P Q (xs.foldlM f a) := by
  induction xs generalizing a with
  | nil => exact h
  | cons x xs ih =>
    rw [List.foldlM_cons]
    apply (hf a x List.mem_cons_self h).bind
    intro a' ha'
    exact ih (fun a y hy => hf a y (List.mem_cons_of_mem _ hy)) ha'

/-- Process the events from left to right; the first exception ends the run. -/
def run (step : σ → ε → Except err σ) : σ → List ε → Except err σ
  | s, [] => .ok s
  | s, e :: es => step s e >>= fun s' => run step s' es

@[simp] theorem run_nil (step : σ → ε → Except err σ) (s : σ) : run step s [] = .ok s := rfl

theorem run_cons (step : σ → ε → Except err σ) (s : σ) (e : ε) (es : List ε) :
    run step s (e :: es) = (step s e >>= fun s' => run step s' es) := rfl

theorem run_cons_eq_ok {step : σ → ε → Except err σ} {s t : σ} {e : ε} {es : List ε} :
    run step s (e :: es) = .ok t ↔ ∃ s', step s e = .ok s' ∧ run step s' es = .ok t := by
  rw [run_cons, bind_eq_ok]

theorem run_append_eq_ok {step : σ → ε → Except err σ} {s t : σ} {es fs : List ε} :
    run step s (es ++ fs) = .ok t ↔ ∃ m, run step s es = .ok m ∧ run step m fs = .ok t := by
  induction es generalizing s with
  | nil => simp
  | cons e es ih =>
    rw [List.cons_append, run_cons_eq_ok]
    constructor
    · rintro ⟨s', hstep, hrun⟩
      obtain ⟨m, hm, hmt⟩ := ih.mp hrun
      exact ⟨m, run_cons_eq_ok.mpr ⟨s', hstep, hm⟩, hmt⟩
    · rintro ⟨m, hm, hmt⟩
      obtain ⟨s', hstep, hs'⟩ := run_cons_eq_ok.mp hm
      exact ⟨s', hstep, ih.mpr ⟨m, hs', hmt⟩⟩

/-- The states reached from an initial state by successful steps that all meet `cond`. -/
inductive Reachable (step : σ → ε → Except err σ) (init : σ → Prop) (cond : σ → ε → Prop) :
    σ → Prop
  | init {s : σ} : init s → Reachable step init cond s
  | step {s s' : σ} {e : ε} :
      Reachable step init cond s → cond s e → step s e = .ok s' → Reachable step init cond s'

def StepsMeet (step : σ → ε → Except err σ) (cond : σ → ε → Prop) : σ → List ε → Prop
  | _, [] => True
  | s, e :: es =>
    cond s e ∧ match step s e with
      | .ok s' => StepsMeet step cond s' es
      | .error _ => True

theorem StepsMeet.of_forall {step : σ → ε → Except err σ} {cond : σ → ε → Prop} {es : List ε}
    (h : ∀ e ∈ es, ∀ s, cond s e) (s : σ) : StepsMeet step cond s es := by
  induction es generalizing s with
  | nil => trivial
  | cons e es ih =>
    refine ⟨h e List.mem_cons_self s, ?_⟩
    cases step s e with
    | ok s' => exact ih (fun e' he' => h e' (List.mem_cons_of_mem _ he')) s'
    | error _ => trivial

theorem run_simulates {τ : Type u} {step : σ → ε → Except err σ} {step' : τ → ε → Except err τ}
    {cond : σ → ε → Prop} {R : σ → τ → Prop}
    (hstep : ∀ s t e s1, R s t → cond s e → step s e = .ok s1 → ∃ t1, step' t e = .ok t1 ∧ R s1 t1)
    {es : List ε} {s s1 : σ} {t : τ} (h : R s t) (hmeet : StepsMeet step cond s es)
    (hrun : run step s es = .ok s1) : ∃ t1, run step' t es = .ok t1 ∧ R s1 t1 := by
  induction es generalizing s t with
  | nil =>
    cases hrun
    exact ⟨t, rfl, h⟩
  | cons e es ih =>
    obtain ⟨s', hs', hrest⟩ := run_cons_eq_ok.mp hrun
    rw [StepsMeet, hs'] at hmeet
    obtain ⟨t', ht', hR⟩ := hstep s t e s' h hmeet.1 hs'
    obtain ⟨t1, ht1, hR1⟩ := ih hR hmeet.2 hrest
    exact ⟨t1, run_cons_eq_ok.mpr ⟨t', ht', ht1⟩, hR1⟩

instance StepsMeet.decidable (step : σ → ε → Except err σ) (cond : σ → ε → Prop)
    [∀ s e, Decidable (cond s e)] : ∀ s es, Decidable (StepsMeet step cond s es)
  | _, [] => .isTrue trivial
  | s, e :: es =>
    let _ : Decidable (match step s e with
        | .ok s' => StepsMeet step cond s' es
        | .error _ => True) :=
      match step s e with
      | .ok s' => StepsMeet.decidable step cond s' es
      | .error _ => .isTrue trivial
    instDecidableAnd

namespace Reachable

variable {step : σ → ε → Except err σ} {init : σ → Prop} {cond cond' : σ → ε → Prop} {s : σ}

/-- An invariant that holds initially and is kept by every step holds of every reached state. -/
theorem invariant (inv : σ → Prop) (hinit : ∀ s, init s → inv s)
    (hstep : ∀ s e s', inv s → cond s e → step s e = .ok s' → inv s')
    (h : Reachable step init cond s) : inv s := by
  induction h with
  | init h => exact hinit _ h
  | step _ hcond hs ih => exact hstep _ _ _ ih hcond hs

theorem mono (hcond : ∀ s e, cond s e → cond' s e) (h : Reachable step init cond s) :
    Reachable step init cond' s := by
  induction h with
  | init h => exact .init h
  | step _ hc hs ih => exact .step ih (hcond _ _ hc) hs

theorem trans {t : σ} (h : Reachable step init cond s) (h' : Reachable step (· = s) cond t) :
    Reachable step init cond t := by
  induction h' with
  | init heq => exact heq ▸ h
  | step _ hc hs ih => exact .step ih hc hs

theorem run {es : List ε} {t : σ} (h : Reachable step init cond s)
    (hmeet : StepsMeet step cond s es) (hrun : Lib.run step s es = .ok t) :
    Reachable step init cond t := by
  induction es generalizing s with
  | nil => cases hrun; exact h
  | cons e es ih =>
    obtain ⟨s', hs, hrest⟩ := run_cons_eq_ok.mp hrun
    rw [StepsMeet, hs] at hmeet
    exact ih (.step h hmeet.1 hs) hmeet.2 hrest

theorem of_run (es : List ε) {P : σ → Prop} (hinit : init s) (hmeet : StepsMeet step cond s es)
    (hend : Succeeds (Lib.run step s es) P) : ∃ t, Reachable step init cond t ∧ P t := by
  obtain ⟨t, hrun, hP⟩ := hend
  exact ⟨t, (Reachable.init hinit).run hmeet hrun, hP⟩

end Reachable

end Meta1Core.Lib
