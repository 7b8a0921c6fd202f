import Mathlib.Algebra.GroupWithZero.Nat
import Mathlib.Data.List.Induction
import Mathlib.Data.List.TakeWhile
import Mathlib.Tactic.Common

/-!
# Decimal digits

Texts of digits with their values, and how a text begins with digits.
-/

namespace Meta1Core.Lib

def AllDigits (ds : List Char) : Prop := ∀ c ∈ ds, c.isDigit = true

def digitsValue (ds : List Char) : Nat := Nat.ofDigitChars 10 ds 0

def NoDigit (rest : List Char) : Prop := ∀ c ∈ rest.head?, c.isDigit = false

variable {ds es rest rest' : List Char} {c : Char}

theorem AllDigits.nil : AllDigits [] := fun _ hc => nomatch hc

theorem allDigits_cons : AllDigits (c :: ds) ↔ c.isDigit = true ∧ AllDigits ds := List.forall_mem_cons

theorem allDigits_append : AllDigits (ds ++ es) ↔ AllDigits ds ∧ AllDigits es := List.forall_mem_append

theorem AllDigits.replicate_zero (n : Nat) : AllDigits (List.replicate n '0') := by
  intro c hc
  rw [List.eq_of_mem_replicate hc]
  rfl

theorem AllDigits.not_mem (h : AllDigits ds) (hc : c.isDigit = false) : c ∉ ds :=
  fun hmem => nomatch hc.symm.trans (h c hmem)

theorem NoDigit.nil : NoDigit [] := fun _ hc => nomatch hc

theorem NoDigit.cons (hc : c.isDigit = false) (rest : List Char) : NoDigit (c :: rest) := by
  intro d hd
  obtain rfl : c = d := Option.some.inj hd
  exact hc

theorem allDigits_takeWhile (str : List Char) : AllDigits (str.takeWhile Char.isDigit) :=
  fun _ hc => List.mem_takeWhile_imp hc

theorem takeWhile_isDigit (h : AllDigits ds) (hrest : NoDigit rest) :
    (ds ++ rest).takeWhile Char.isDigit = ds := by
  rw [List.takeWhile_append_of_pos h]
  cases rest with
  | nil => exact List.append_nil ds
  | cons c rest =>
    have hc : ¬c.isDigit = true := by simp [hrest c rfl]
    rw [List.takeWhile_cons_of_neg hc, List.append_nil]

theorem append_inj_of_digits (h : AllDigits ds) (h' : AllDigits es) (hrest : NoDigit rest)
    (hrest' : NoDigit rest') (heq : ds ++ rest = es ++ rest') : ds = es ∧ rest = rest' := by
  have hds : ds = es := by
    rw [← takeWhile_isDigit h hrest, heq, takeWhile_isDigit h' hrest']
  subst hds
  exact ⟨rfl, List.append_cancel_left heq⟩

theorem digitsValue_nil : digitsValue [] = 0 := rfl

theorem digitsValue_append (ds es : List Char) :
    digitsValue (ds ++ es) = digitsValue ds * 10 ^ es.length + digitsValue es := by
  rw [digitsValue, Nat.ofDigitChars_append, Nat.ofDigitChars_eq_ofDigitChars_zero, Nat.mul_comm]
  rfl

theorem digitsValue_replicate_zero (n : Nat) : digitsValue (List.replicate n '0') = 0 := by
  rw [digitsValue, Nat.ofDigitChars_replicate_zero, Nat.mul_zero]

theorem digitsValue_append_zeros (ds : List Char) (n : Nat) :
    digitsValue (ds ++ List.replicate n '0') = digitsValue ds * 10 ^ n := by
  rw [digitsValue_append, digitsValue_replicate_zero, List.length_replicate, Nat.add_zero]

theorem digitsValue_lt (h : AllDigits ds) : digitsValue ds < 10 ^ ds.length := by
  induction ds using List.reverseRecOn with
  | nil => exact Nat.one_pos
  | append_singleton ds c ih =>
    obtain ⟨hds, hc⟩ := allDigits_append.mp h
    have hlt : digitsValue [c] < 10 := by
      have hdigit := hc c List.mem_cons_self
      simp only [Char.isDigit, Bool.and_eq_true, decide_eq_true_eq, UInt32.le_iff_toNat_le] at hdigit
      show Nat.ofDigitChars 10 [c] 0 < 10
      rw [Nat.ofDigitChars_cons, Nat.ofDigitChars_nil]
      show 10 * 0 + (c.val.toNat - 48) < 10
      have hle : c.val.toNat ≤ 57 := hdigit.2
      omega
    rw [digitsValue_append, List.length_append, List.length_singleton, Nat.pow_one, Nat.pow_succ]
    have ih := ih hds
    omega

theorem allDigits_toDigits (n : Nat) : AllDigits (Nat.toDigits 10 n) := fun _ hc =>
  Nat.isDigit_of_mem_toDigits (by decide) (by decide) hc

theorem digitsValue_toDigits (n : Nat) : digitsValue (Nat.toDigits 10 n) = n := Nat.ofDigitChars_ten_toDigits

theorem toDigits_pow_add {n r : Nat} (hr : r < 10 ^ n) :
    ∃ ds, Nat.toDigits 10 (10 ^ n + r) = '1' :: ds ∧ AllDigits ds ∧ ds.length = n ∧ digitsValue ds = r := by
  induction n generalizing r with
  | zero =>
    obtain rfl : r = 0 := by omega
    exact ⟨[], rfl, .nil, rfl, rfl⟩
  | succ n ih =>
    rw [Nat.pow_succ] at hr
    obtain ⟨ds, htext, hdigits, hlength, hvalue⟩ := ih (r := r / 10) (by omega)
    have hpos := Nat.pow_pos (n := n) (show 0 < 10 by decide)
    have hdiv : (10 ^ (n + 1) + r) / 10 = 10 ^ n + r / 10 := by
      rw [Nat.pow_succ]
      omega
    have hmod : (10 ^ (n + 1) + r) % 10 = r % 10 := by
      rw [Nat.pow_succ]
      omega
    have hlast : digitsValue [(r % 10).digitChar] = r % 10 := by
      rw [digitsValue, Nat.ofDigitChars_cons_digitChar_of_lt_ten (Nat.mod_lt r (by decide)),
        Nat.ofDigitChars_nil, Nat.mul_zero, Nat.zero_add]
    have hall := allDigits_toDigits (10 ^ (n + 1) + r)
    have hdigits' : Nat.toDigits 10 (10 ^ (n + 1) + r) = '1' :: (ds ++ [(r % 10).digitChar]) := by
      rw [Nat.toDigits_of_base_le (by decide) (by rw [Nat.pow_succ]; omega), hdiv, hmod, htext]
      rfl
    rw [hdigits'] at hall
    refine ⟨ds ++ [(r % 10).digitChar], hdigits', (allDigits_cons.mp hall).2, ?_, ?_⟩
    · rw [List.length_append, hlength, List.length_singleton]
    · rw [digitsValue_append, hvalue, hlast, List.length_singleton, Nat.pow_one]
      omega

end Meta1Core.Lib
