import Meta1Core.Ledger.AmountText

/-!
# Reading and writing amounts

A number is read as what it denotes, unless it has a minus and no digit between this and the point.
-/

namespace Meta1Core.Ledger

open Lib (AllDigits NoDigit digitsValue)
open Protocol

variable {a : AssetObject} {id : AssetId} {f : Form} {v : Int}

section

variable {ds es rest : List Char} {p : Nat}

theorem leadingNumber_digits (h : AllDigits ds) (hne : ds ≠ []) (hrest : NoDigit rest) :
    leadingNumber (ds ++ rest) = some (digitsValue ds : Int) := by
  unfold leadingNumber
  split
  · rename_i rest' heq
    cases ds with
    | nil => exact absurd rfl hne
    | cons c ds =>
      obtain rfl : c = '-' := (List.cons.inj heq).1
      exact absurd (h '-' List.mem_cons_self) (by decide)
  · rw [Lib.takeWhile_isDigit h hrest, if_neg hne]

theorem leadingNumber_minus (h : AllDigits ds) (hrest : NoDigit rest) :
    leadingNumber ('-' :: (ds ++ rest)) = if ds = [] then none else some (-(digitsValue ds : Int)) := by
  show (if (ds ++ rest).takeWhile Char.isDigit = [] then none
    else some (-(digitsValue ((ds ++ rest).takeWhile Char.isDigit) : Int))) = _
  rw [Lib.takeWhile_isDigit h hrest]

theorem decimalNumber_of_digits {decimals : Option (List Char)} (h : AllDigits (decimals.getD [])) :
    decimalNumber p decimals =
      if p < (decimals.getD []).length then none
      else some ((digitsValue (decimals.getD []) * 10 ^ (p - (decimals.getD []).length) : Nat) : Int) := by
  cases decimals with
  | none =>
    show some 0 = if p < 0 then none else some ((digitsValue [] * 10 ^ p : Nat) : Int)
    rw [if_neg (Nat.not_lt_zero p), Lib.digitsValue_nil, Nat.zero_mul]
    rfl
  | some ds =>
    have h : AllDigits ds := h
    show (if p < ds.length then none else if ds.rightpad p '0' = [] then some 0
      else leadingNumber (ds.rightpad p '0')) = if p < ds.length then none else _
    by_cases hlength : p < ds.length
    · rw [if_pos hlength, if_pos hlength]
    rw [if_neg hlength, if_neg hlength]
    have hpad : ds.rightpad p '0' = ds ++ List.replicate (p - ds.length) '0' := rfl
    have hall : AllDigits (ds.rightpad p '0') :=
      Lib.allDigits_append.mpr ⟨h, AllDigits.replicate_zero _⟩
    have hvalue : digitsValue (ds.rightpad p '0') = digitsValue ds * 10 ^ (p - ds.length) :=
      Lib.digitsValue_append_zeros ds _
    show _ = some ((digitsValue ds * 10 ^ (p - ds.length) : Nat) : Int)
    by_cases hnil : ds.rightpad p '0' = []
    · rw [if_pos hnil, ← hvalue, hnil, Lib.digitsValue_nil]
      rfl
    · have hnumber := leadingNumber_digits hall hnil NoDigit.nil
      rw [List.append_nil] at hnumber
      rw [if_neg hnil, hnumber, hvalue]

end

theorem minus_not_mem {digits : List Char} {decimals : Option (List Char)} (h : AllDigits digits)
    (h' : AllDigits (decimals.getD [])) : '-' ∉ digits ++ pointText decimals := by
  have hdigits := h.not_mem not_isDigit_minus
  have hdecimals := h'.not_mem not_isDigit_minus
  cases decimals with
  | none => simpa [pointText] using hdigits
  | some ds => simpa [pointText, hdigits] using hdecimals

theorem pointText_injective {decimals decimals' : Option (List Char)}
    (h : pointText decimals = pointText decimals') : decimals = decimals' := by
  cases decimals with
  | none =>
    cases decimals' with
    | none => rfl
    | some ds' => cases h
  | some ds =>
    cases decimals' with
    | none => cases h
    | some ds' => rw [(List.cons.inj h).2]

namespace Numeral

variable {m m' : Numeral}

theorem negative_iff (h : AllDigits m.digits) (h' : AllDigits m.fraction) :
    (m.negative = true ↔ '-' ∈ m.text) ∧ ('-' ∈ m.text → m.text.head? = some '-') := by
  have hnot := minus_not_mem h h'
  unfold text
  cases m.negative with
  | false => exact ⟨iff_of_false nofun hnot, fun hmem => absurd hmem hnot⟩
  | true => exact ⟨iff_of_true rfl List.mem_cons_self, fun _ => rfl⟩

theorem text_injective (h : AllDigits m.digits) (hfraction : AllDigits m.fraction)
    (h' : AllDigits m'.digits) (hfraction' : AllDigits m'.fraction) (heq : m.text = m'.text) : m = m' := by
  have hnegative : m.negative = m'.negative := by
    rw [Bool.eq_iff_iff, (negative_iff h hfraction).1, (negative_iff h' hfraction').1, heq]
  have hrest : m.digits ++ pointText m.decimals = m'.digits ++ pointText m'.decimals := by
    unfold text at heq
    rw [hnegative] at heq
    exact List.append_cancel_left heq
  obtain ⟨hdigits, hpoint⟩ := Lib.append_inj_of_digits h h' (noDigit_pointText _) (noDigit_pointText _) hrest
  obtain ⟨negative, digits, decimals⟩ := m
  obtain ⟨negative', digits', decimals'⟩ := m'
  have hdecimals : decimals = decimals' := pointText_injective hpoint
  have hdigits : digits = digits' := hdigits
  have hnegative : negative = negative' := hnegative
  rw [hdecimals, hdigits, hnegative]

end Numeral

theorem denotes_numeral {p : Nat} {m : Numeral} (h : (Form.numeral m).Digits) :
    Denotes p (Form.numeral m).text v ↔ m.WellFormed p ∧ m.value p = v := by
  constructor
  · rintro ⟨m', hwell, htext, hvalue⟩
    obtain rfl := Numeral.text_injective hwell.digits hwell.fraction h.1 h.2 htext
    exact ⟨hwell, hvalue⟩
  · rintro ⟨hwell, hvalue⟩
    exact ⟨m, hwell, rfl, hvalue⟩

theorem not_denotes {p : Nat} {str : List Char} (hminus : '-' ∈ str) (hhead : str.head? ≠ some '-') :
    ¬Denotes p str v := by
  rintro ⟨m, hwell, rfl, -⟩
  exact hhead ((Numeral.negative_iff hwell.digits hwell.fraction).2 hminus)

/-- A number has digits, and with a minus it has them before the point, or so many behind it that it
is none. -/
def Form.ReadsRight (precision : Nat) : Form → Prop
  | .numeral m =>
    m.digits ≠ [] ∨
      if m.negative = true ∧ m.decimals.isSome = true then m.fraction = [] ∨ precision < m.fraction.length
      else m.fraction ≠ []
  | .afterDigits _ before digits decimals =>
    precision < (decimals.getD []).length ∨
      if before = [] then digits = [] ∨ 2 ^ 63 ≤ digitsValue digits * 10 ^ precision
      else maxShareSupply < (digitsValue before * 10 ^ precision +
        digitsValue (decimals.getD []) * 10 ^ (precision - (decimals.getD []).length) : Nat)
  | .afterPoint digits decimals after =>
    precision < decimals.length + 1 + after.length ∨ digits.length = 1 ∨ decimals = [] ∧ precision = 1 ∨
      maxShareSupply < (digitsValue digits.tail * 10 ^ precision + digitsValue decimals : Nat)

section

variable {m : Numeral} {p : Nat}

theorem wholeNumber_numeral (h : AllDigits m.digits) :
    wholeNumber (Form.numeral m).lhs =
      if m.digits = [] ∧ m.negative = true ∧ m.decimals.isSome = true then none
      else some (digitsValue m.digits : Int) := by
  show wholeNumber (m.digits ++ if m.negative = true ∧ m.decimals.isSome = true then ['.'] else []) = _
  unfold wholeNumber
  by_cases hpoint : m.negative = true ∧ m.decimals.isSome = true
  · have hne : m.digits ++ ['.'] ≠ [] := by simp
    rw [if_pos hpoint, if_neg hne]
    by_cases hdigits : m.digits = []
    · rw [if_pos ⟨hdigits, hpoint⟩, hdigits]
      rfl
    · rw [if_neg fun hall => hdigits hall.1]
      exact leadingNumber_digits h hdigits (NoDigit.cons not_isDigit_point [])
  · have hnot : ¬(m.digits = [] ∧ m.negative = true ∧ m.decimals.isSome = true) := fun hall => hpoint hall.2
    rw [if_neg hpoint, if_neg hnot, List.append_nil]
    by_cases hdigits : m.digits = []
    · rw [if_pos hdigits, hdigits]
      rfl
    · rw [if_neg hdigits]
      have hnumber := leadingNumber_digits h hdigits NoDigit.nil
      rw [List.append_nil] at hnumber
      exact hnumber

theorem magnitude_eq : (m.magnitude p : Int) = (digitsValue m.digits : Int) * 10 ^ p +
    ((digitsValue m.fraction * 10 ^ (p - m.fraction.length) : Nat) : Int) := by
  unfold Numeral.magnitude
  push_cast
  rfl

theorem abs_value : |m.value p| = (m.magnitude p : Int) := by
  unfold Numeral.value
  split
  · rw [abs_neg, Nat.abs_cast]
  · rw [Nat.abs_cast]

theorem read_numeral_iff (h : (Form.numeral m).Digits) :
    (∃ n r, Read p m.negative (Form.numeral m).lhs m.decimals n r v) ↔
      ¬(m.digits = [] ∧ m.negative = true ∧ m.decimals.isSome = true) ∧ m.fraction.length ≤ p ∧
        (m.magnitude p : Int) ≤ maxShareSupply ∧ v = m.value p := by
  have hdecimals : decimalNumber p m.decimals = if p < m.fraction.length then none
      else some ((digitsValue m.fraction * 10 ^ (p - m.fraction.length) : Nat) : Int) :=
    decimalNumber_of_digits h.2
  have hvalue : m.value p = if m.negative = true then -(m.magnitude p : Int) else m.magnitude p := rfl
  have hmax : maxShareSupply < 2 ^ 63 := by decide
  constructor
  · rintro ⟨n, r, hread⟩
    have hn := hread.whole
    have hr := hread.decimals
    have hsum := hread.sum.2
    have hv := hread.value
    rw [wholeNumber_numeral h.1] at hn
    rw [hdecimals] at hr
    split at hn
    · cases hn
    rename_i hnot
    split at hr
    · cases hr
    rename_i hlength
    cases hn
    cases hr
    rw [← magnitude_eq] at hsum hv
    exact ⟨hnot, Nat.not_lt.mp hlength, hsum, hv.trans hvalue.symm⟩
  · rintro ⟨hnot, hlength, hle, rfl⟩
    have hmagnitude : (m.magnitude p : Int) = _ := magnitude_eq
    have hpow := one_le_pow_ten p
    have hproduct : 0 ≤ (digitsValue m.digits : Int) * 10 ^ p :=
      mul_nonneg (Int.natCast_nonneg _) (by omega)
    refine ⟨digitsValue m.digits, (digitsValue m.fraction * 10 ^ (p - m.fraction.length) : Nat), ?_⟩
    constructor
    · rw [wholeNumber_numeral h.1, if_neg hnot]
    · rw [hdecimals, if_neg (Nat.not_lt.mpr hlength)]
    · omega
    · omega
    · omega
    · rw [hvalue, magnitude_eq]

theorem fraction_lt {ds : List Char} (h : AllDigits ds) (hlength : ds.length ≤ p) :
    digitsValue ds * 10 ^ (p - ds.length) < 10 ^ p := by
  calc digitsValue ds * 10 ^ (p - ds.length)
      < 10 ^ ds.length * 10 ^ (p - ds.length) :=
        Nat.mul_lt_mul_of_pos_right (Lib.digitsValue_lt h) (Nat.pow_pos (by decide))
    _ = 10 ^ p := by rw [← Nat.pow_add, Nat.add_sub_cancel' hlength]

theorem pow_ten_le_max (hp : p < 19) : (10 : Int) ^ p ≤ maxShareSupply :=
  (pow_ten_le hp).trans (by decide)

theorem readsRight_numeral (hp : p < 19) (h : (Form.numeral m).Digits) :
    (∀ v, (∃ n r, Read p m.negative (Form.numeral m).lhs m.decimals n r v) ↔
        (m.WellFormed p ∧ m.value p = v) ∧ |v| ≤ maxShareSupply) ↔
      (Form.numeral m).ReadsRight p := by
  have hwell : m.WellFormed p ↔ (m.digits ≠ [] ∨ m.fraction ≠ []) ∧ m.fraction.length ≤ p :=
    ⟨fun hw => ⟨hw.some, hw.length⟩, fun hw => ⟨h.1, h.2, hw.1, hw.2⟩⟩
  have hone : (∀ v, (∃ n r, Read p m.negative (Form.numeral m).lhs m.decimals n r v) ↔
      (m.WellFormed p ∧ m.value p = v) ∧ |v| ≤ maxShareSupply) ↔
        (¬(m.digits = [] ∧ m.negative = true ∧ m.decimals.isSome = true) ∧ m.fraction.length ≤ p ∧
          (m.magnitude p : Int) ≤ maxShareSupply ↔
        (m.digits ≠ [] ∨ m.fraction ≠ []) ∧ m.fraction.length ≤ p ∧
          (m.magnitude p : Int) ≤ maxShareSupply) := by
    rw [← abs_value]
    constructor
    · intro hall
      have hvalue := hall (m.value p)
      rw [read_numeral_iff h, hwell, ← abs_value] at hvalue
      tauto
    · intro hiff v
      rw [read_numeral_iff h, hwell, ← abs_value]
      constructor
      · rintro ⟨hnot, hlength, hle, rfl⟩
        obtain ⟨hsome, -, -⟩ := hiff.mp ⟨hnot, hlength, hle⟩
        exact ⟨⟨⟨hsome, hlength⟩, rfl⟩, hle⟩
      · rintro ⟨⟨⟨hsome, hlength⟩, rfl⟩, hle⟩
        obtain ⟨hnot, -, -⟩ := hiff.mpr ⟨hsome, hlength, hle⟩
        exact ⟨hnot, hlength, hle, rfl⟩
  rw [hone]
  show _ ↔ (m.digits ≠ [] ∨ if m.negative = true ∧ m.decimals.isSome = true
    then m.fraction = [] ∨ p < m.fraction.length else m.fraction ≠ [])
  by_cases hdigits : m.digits = []
  swap
  · refine iff_of_true ?_ (.inl hdigits)
    exact and_congr_left fun _ => iff_of_true (fun hall => hdigits hall.1) (.inl hdigits)
  have hmagnitude : m.fraction.length ≤ p → (m.magnitude p : Int) ≤ maxShareSupply := by
    intro hlength
    have hlt : ((digitsValue m.fraction * 10 ^ (p - m.fraction.length) : Nat) : Int) < 10 ^ p := by
      exact_mod_cast fraction_lt h.2 hlength
    have hle := pow_ten_le_max hp
    rw [magnitude_eq, hdigits, Lib.digitsValue_nil, Nat.cast_zero, Int.zero_mul]
    omega
  have hempty : m.fraction = [] → m.fraction.length ≤ p := by
    intro hfraction
    rw [hfraction]
    exact Nat.zero_le p
  by_cases hpoint : m.negative = true ∧ m.decimals.isSome = true
  · rw [if_pos hpoint]
    constructor
    · intro hiff
      right
      by_contra hnot
      obtain ⟨hfraction, hlength⟩ := not_or.mp hnot
      have hlength := Nat.not_lt.mp hlength
      exact (hiff.mpr ⟨.inr hfraction, hlength, hmagnitude hlength⟩).1 ⟨hdigits, hpoint⟩
    · intro hright
      refine iff_of_false (fun hall => hall.1 ⟨hdigits, hpoint⟩) ?_
      rintro ⟨hsome, hlength, -⟩
      rcases hright.resolve_left (not_not.mpr hdigits) with hfraction | hlong
      · exact hsome.elim (fun hne => hne hdigits) fun hne => hne hfraction
      · exact Nat.not_lt.mpr hlength hlong
  · rw [if_neg hpoint]
    constructor
    · intro hiff
      right
      intro hfraction
      have hlength := hempty hfraction
      obtain ⟨hsome, -⟩ := hiff.mp ⟨fun hall => hpoint hall.2, hlength, hmagnitude hlength⟩
      exact hsome.elim (fun hne => hne hdigits) fun hne => hne hfraction
    · intro hright
      have hfraction := hright.resolve_left (not_not.mpr hdigits)
      exact and_congr_left fun _ => iff_of_true (fun hall => hpoint hall.2) (.inr hfraction)

variable {after before digits lhs : List Char} {decimals rhs : Option (List Char)}

theorem exists_read_iff {negative : Bool} {n r : Int} (hn : wholeNumber lhs = some n)
    (hr : decimalNumber p rhs = some r) :
    (∃ v n r, Read p negative lhs rhs n r v) ↔
      (-(2 ^ 63) ≤ n * 10 ^ p ∧ n * 10 ^ p < 2 ^ 63) ∧
        (-(2 ^ 63) ≤ n * 10 ^ p + r ∧ n * 10 ^ p + r ≤ maxShareSupply) ∧
          (negative = true → -(2 ^ 63) < n * 10 ^ p + r) := by
  constructor
  · rintro ⟨v, n', r', hread⟩
    cases hn.symm.trans hread.whole
    cases hr.symm.trans hread.decimals
    exact ⟨hread.product, hread.sum, hread.negated⟩
  · rintro ⟨hproduct, hsum, hnegated⟩
    exact ⟨_, n, r, hn, hr, hproduct, hsum, hnegated, rfl⟩

theorem not_exists_read_of_whole {negative : Bool} (hn : wholeNumber lhs = none) :
    ¬∃ v n r, Read p negative lhs rhs n r v := by
  rintro ⟨v, n, r, hread⟩
  exact nomatch hn.symm.trans hread.whole

theorem not_exists_read_of_decimals {negative : Bool} (hr : decimalNumber p rhs = none) :
    ¬∃ v n r, Read p negative lhs rhs n r v := by
  rintro ⟨v, n, r, hread⟩
  exact nomatch hr.symm.trans hread.decimals

theorem wholeNumber_afterDigits {first : Char}
    (h : (Form.afterDigits first before digits decimals).Digits) :
    wholeNumber (Form.afterDigits first before digits decimals).lhs =
      if before = [] then if digits = [] then none else some (-(digitsValue digits : Int))
      else some (digitsValue before : Int) := by
  obtain ⟨hbefore, hdigits, -⟩ := h
  have hbefore : AllDigits before := (Lib.allDigits_cons.mp hbefore).2
  show wholeNumber (before ++ '-' :: (digits ++ if decimals.isSome then ['.'] else [])) = _
  have hne : before ++ '-' :: (digits ++ if decimals.isSome then ['.'] else []) ≠ [] := by simp
  rw [wholeNumber, if_neg hne]
  by_cases hnil : before = []
  · rw [if_pos hnil, hnil]
    apply leadingNumber_minus hdigits
    split
    · exact NoDigit.cons not_isDigit_point []
    · exact NoDigit.nil
  · rw [if_neg hnil]
    exact leadingNumber_digits hbefore hnil (NoDigit.cons not_isDigit_minus _)

theorem readsRight_afterDigits (hp : p < 19) {first : Char}
    (h : (Form.afterDigits first before digits decimals).Digits) :
    (¬∃ v n r, Read p true (Form.afterDigits first before digits decimals).lhs decimals n r v) ↔
      (Form.afterDigits first before digits decimals).ReadsRight p := by
  show _ ↔ (p < (decimals.getD []).length ∨
    if before = [] then digits = [] ∨ 2 ^ 63 ≤ digitsValue digits * 10 ^ p
    else maxShareSupply < (digitsValue before * 10 ^ p +
      digitsValue (decimals.getD []) * 10 ^ (p - (decimals.getD []).length) : Nat))
  have hwhole := wholeNumber_afterDigits h
  have hdecimals := decimalNumber_of_digits (p := p) h.2.2
  by_cases hlength : p < (decimals.getD []).length
  · rw [if_pos hlength] at hdecimals
    exact iff_of_true (not_exists_read_of_decimals hdecimals) (.inl hlength)
  rw [if_neg hlength] at hdecimals
  rw [or_iff_right hlength]
  have hfraction := fraction_lt h.2.2 (Nat.not_lt.mp hlength)
  generalize digitsValue (decimals.getD []) * 10 ^ (p - (decimals.getD []).length) = r at *
  have hpow := pow_ten_le_max hp
  have hmax : maxShareSupply < 2 ^ 63 := by decide
  have hr : (r : Int) < 10 ^ p := by exact_mod_cast hfraction
  by_cases hbefore : before = []
  · rw [if_pos hbefore] at hwhole ⊢
    by_cases hdigits : digits = []
    · rw [if_pos hdigits] at hwhole
      exact iff_of_true (not_exists_read_of_whole hwhole) (.inl hdigits)
    rw [if_neg hdigits] at hwhole
    rw [exists_read_iff hwhole hdecimals, or_iff_right hdigits]
    have hproduct : -(digitsValue digits : Int) * 10 ^ p = -((digitsValue digits * 10 ^ p : Nat) : Int) := by
      push_cast
      ring
    -- the least number of 64 bits is no multiple of ten
    have hlimit : digitsValue digits * 10 ^ p = 2 ^ 63 → r = 0 := by
      intro heq
      cases p with
      | zero => omega
      | succ p =>
        rw [Nat.pow_succ, ← Nat.mul_assoc] at heq
        omega
    rw [hproduct, forall_prop_of_true rfl]
    generalize digitsValue digits * 10 ^ p = whole at *
    omega
  · rw [if_neg hbefore] at hwhole ⊢
    rw [exists_read_iff hwhole hdecimals, forall_prop_of_true rfl]
    have hproduct : (digitsValue before : Int) * 10 ^ p = ((digitsValue before * 10 ^ p : Nat) : Int) := by
      push_cast
      rfl
    rw [hproduct]
    generalize digitsValue before * 10 ^ p = whole at *
    omega

theorem wholeNumber_afterPoint {decimals : List Char}
    (h : (Form.afterPoint digits decimals after).Digits) :
    wholeNumber (Form.afterPoint digits decimals after).lhs =
      if digits.length = 1 then none else some (digitsValue digits.tail : Int) := by
  show wholeNumber (if digits = [] then [] else digits.tail ++ ['.']) = _
  obtain ⟨hdigits, -, -⟩ := h
  match digits with
  | [] => rfl
  | [c] => rfl
  | c :: c' :: rest =>
    have hrest : AllDigits (c' :: rest) := (Lib.allDigits_cons.mp hdigits).2
    have hne : ¬(c :: c' :: rest).length = 1 := by simp
    rw [if_neg (List.cons_ne_nil _ _), if_neg hne, wholeNumber, if_neg (by simp)]
    exact leadingNumber_digits hrest (List.cons_ne_nil _ _) (NoDigit.cons not_isDigit_point [])

theorem decimalNumber_afterPoint {decimals : List Char} (hdecimals : AllDigits decimals)
    (hafter : AllDigits after) :
    decimalNumber p (some (decimals ++ '-' :: after)) =
      if p < decimals.length + 1 + after.length then none
      else if decimals = [] then
        if p = 1 then none
        else some (-(digitsValue (after ++ List.replicate (p - (1 + after.length)) '0') : Int))
      else some (digitsValue decimals : Int) := by
  have hlength : (decimals ++ '-' :: after).length = decimals.length + 1 + after.length := by
    simp
    omega
  unfold decimalNumber
  dsimp only
  rw [hlength]
  by_cases hlong : p < decimals.length + 1 + after.length
  · rw [if_pos hlong, if_pos hlong]
  rw [if_neg hlong, if_neg hlong]
  have hpad : (decimals ++ '-' :: after).rightpad p '0' = decimals ++ '-' ::
      (after ++ List.replicate (p - (decimals.length + 1 + after.length)) '0') := by
    rw [← hlength, List.rightpad, List.append_assoc]
    rfl
  rw [hpad, if_neg (by simp)]
  by_cases hnil : decimals = []
  · subst hnil
    rw [if_pos rfl]
    have hzeros : AllDigits (after ++ List.replicate (p - (1 + after.length)) '0') :=
      Lib.allDigits_append.mpr ⟨hafter, AllDigits.replicate_zero _⟩
    have hnumber := leadingNumber_minus hzeros NoDigit.nil
    rw [List.append_nil] at hnumber
    show leadingNumber ('-' :: (after ++ List.replicate (p - (0 + 1 + after.length)) '0')) = _
    rw [Nat.zero_add, hnumber]
    have hempty : after ++ List.replicate (p - (1 + after.length)) '0' = [] ↔ p = 1 := by
      rw [← List.length_eq_zero_iff, List.length_append, List.length_replicate]
      rw [List.length_nil] at hlong
      omega
    rw [if_congr hempty rfl rfl]
  · rw [if_neg hnil]
    exact leadingNumber_digits hdecimals hnil (NoDigit.cons not_isDigit_minus _)

theorem max_add_pow_le (hp : p < 19) {k : Nat} (h : maxShareSupply < (k * 10 ^ p : Nat)) :
    maxShareSupply + 10 ^ p ≤ (k * 10 ^ p : Nat) := by
  have hmax : maxShareSupply = ((9 * 10 ^ (18 - p) * 10 ^ p : Nat) : Int) := by
    have hpow : 9 * 10 ^ (18 - p) * 10 ^ p = 9000000000000000000 := by
      rw [Nat.mul_assoc, ← Nat.pow_add, Nat.sub_add_cancel (Nat.le_of_lt_succ hp)]
    rw [hpow]
    rfl
  rw [hmax] at h ⊢
  have hlt : 9 * 10 ^ (18 - p) < k := Nat.lt_of_mul_lt_mul_right (by exact_mod_cast h)
  have hle : (9 * 10 ^ (18 - p) + 1) * 10 ^ p ≤ k * 10 ^ p := Nat.mul_le_mul_right _ hlt
  rw [Nat.add_mul, Nat.one_mul] at hle
  exact_mod_cast hle

theorem readsRight_afterPoint (hp : p < 19) {decimals : List Char}
    (h : (Form.afterPoint digits decimals after).Digits) :
    (¬∃ v n r, Read p true (Form.afterPoint digits decimals after).lhs
        (Form.afterPoint digits decimals after).rhs n r v) ↔
      (Form.afterPoint digits decimals after).ReadsRight p := by
  show _ ↔ (p < decimals.length + 1 + after.length ∨ digits.length = 1 ∨ decimals = [] ∧ p = 1 ∨
    maxShareSupply < (digitsValue digits.tail * 10 ^ p + digitsValue decimals : Nat))
  have hwhole := wholeNumber_afterPoint h
  have hdecimals : decimalNumber p (Form.afterPoint digits decimals after).rhs = _ :=
    decimalNumber_afterPoint h.2.1 h.2.2
  by_cases hlong : p < decimals.length + 1 + after.length
  · rw [if_pos hlong] at hdecimals
    exact iff_of_true (not_exists_read_of_decimals hdecimals) (.inl hlong)
  rw [if_neg hlong] at hdecimals
  rw [or_iff_right hlong]
  by_cases hone : digits.length = 1
  · rw [if_pos hone] at hwhole
    exact iff_of_true (not_exists_read_of_whole hwhole) (.inl hone)
  rw [if_neg hone] at hwhole
  rw [or_iff_right hone]
  have hproduct : (digitsValue digits.tail : Int) * 10 ^ p =
      ((digitsValue digits.tail * 10 ^ p : Nat) : Int) := by
    push_cast
    rfl
  have hmax : maxShareSupply < 2 ^ 63 := by decide
  have hpow := pow_ten_le hp
  by_cases hnil : decimals = []
  · rw [if_pos hnil] at hdecimals
    by_cases hprecision : p = 1
    · rw [if_pos hprecision] at hdecimals
      exact iff_of_true (not_exists_read_of_decimals hdecimals) (.inl ⟨hnil, hprecision⟩)
    rw [if_neg hprecision] at hdecimals
    rw [or_iff_right fun hboth => hprecision hboth.2, exists_read_iff hwhole hdecimals,
      forall_prop_of_true rfl, hproduct, hnil, Lib.digitsValue_nil, Nat.add_zero]
    have hlt := decimalNumber_lt hdecimals
    have hunit : maxShareSupply < ((digitsValue digits.tail * 10 ^ p : Nat) : Int) →
        maxShareSupply + 10 ^ p ≤ ((digitsValue digits.tail * 10 ^ p : Nat) : Int) := max_add_pow_le hp
    generalize digitsValue digits.tail * 10 ^ p = whole at *
    generalize digitsValue (after ++ List.replicate (p - (1 + after.length)) '0') = r at *
    omega
  · rw [if_neg hnil] at hdecimals
    rw [or_iff_right fun hboth => hnil hboth.1, exists_read_iff hwhole hdecimals,
      forall_prop_of_true rfl, hproduct]
    generalize digitsValue digits.tail * 10 ^ p = whole at *
    omega

end

def written (precision : Nat) (x : Int) : Numeral where
  negative := x < 0
  digits := Nat.toDigits 10 (x.natAbs / 10 ^ precision)
  decimals :=
    if x.natAbs % 10 ^ precision = 0 then none
    else some ((toText ((10 ^ precision + x.natAbs % 10 ^ precision : Nat) : Int)).drop 1)

section

variable {p : Nat} {x : Int}

theorem toText_natCast (n : Nat) : toText (n : Int) = Nat.toDigits 10 n := by
  unfold toText
  rw [if_neg (by omega), Int.natAbs_natCast]

theorem toText_neg {n : Nat} (h : 0 < n) : toText (-(n : Int)) = '-' :: Nat.toDigits 10 n := by
  unfold toText
  rw [if_pos (by omega), Int.natAbs_neg, Int.natAbs_natCast]

theorem tdiv_pow_ten (p : Nat) (x : Int) :
    x.tdiv (10 ^ p) = if x < 0 then -((x.natAbs / 10 ^ p : Nat) : Int) else (x.natAbs / 10 ^ p : Nat) := by
  have hnat : ∀ n : Nat, (n : Int).tdiv (10 ^ p) = ((n / 10 ^ p : Nat) : Int) := by
    intro n
    rw [Int.ofNat_tdiv]
    push_cast
    rfl
  split
  · have hx : x = -(x.natAbs : Int) := by omega
    nth_rewrite 1 [hx]
    rw [Int.neg_tdiv, hnat]
  · have hx : x = (x.natAbs : Int) := by omega
    nth_rewrite 1 [hx]
    rw [hnat]

theorem natAbs_tmod_pow_ten (p : Nat) (x : Int) : (x.tmod (10 ^ p)).natAbs = x.natAbs % 10 ^ p := by
  rw [Int.natAbs_tmod, Int.natAbs_pow]
  rfl

theorem fraction_written (p : Nat) (x : Int) :
    AllDigits (written p x).fraction ∧ (written p x).fraction.length ≤ p ∧
      digitsValue (written p x).fraction * 10 ^ (p - (written p x).fraction.length) =
        x.natAbs % 10 ^ p := by
  have hlt : x.natAbs % 10 ^ p < 10 ^ p := Nat.mod_lt _ (Nat.pow_pos (by decide))
  obtain ⟨ds, htext, hdigits, hlength, hvalue⟩ := Lib.toDigits_pow_add hlt
  unfold Numeral.fraction written
  dsimp only
  by_cases hzero : x.natAbs % 10 ^ p = 0
  · rw [if_pos hzero, hzero]
    refine ⟨AllDigits.nil, Nat.zero_le p, ?_⟩
    exact Nat.zero_mul _
  · rw [if_neg hzero, toText_natCast, htext]
    show AllDigits ds ∧ ds.length ≤ p ∧ digitsValue ds * 10 ^ (p - ds.length) = _
    refine ⟨hdigits, hlength.le, ?_⟩
    rw [hlength, Nat.sub_self, Nat.pow_zero, Nat.mul_one, hvalue]

theorem value_written (p : Nat) (x : Int) : (written p x).value p = x := by
  have hmagnitude : (written p x).magnitude p = x.natAbs := by
    unfold Numeral.magnitude
    rw [(fraction_written p x).2.2]
    show digitsValue (Nat.toDigits 10 (x.natAbs / 10 ^ p)) * 10 ^ p + _ = _
    rw [Lib.digitsValue_toDigits, Nat.mul_comm]
    exact Nat.div_add_mod x.natAbs (10 ^ p)
  unfold Numeral.value
  rw [hmagnitude]
  show (if decide (x < 0) = true then _ else _) = x
  by_cases hneg : x < 0
  · rw [if_pos (decide_eq_true hneg)]
    omega
  · rw [if_neg (by simp [hneg])]
    omega

theorem toText_tdiv (hneg : x < 0 → x.natAbs / 10 ^ p ≠ 0) :
    toText (x.tdiv (10 ^ p)) = (if x < 0 then ['-'] else []) ++ Nat.toDigits 10 (x.natAbs / 10 ^ p) := by
  rw [tdiv_pow_ten]
  by_cases hx : x < 0
  · rw [if_pos hx, if_pos hx, toText_neg (Nat.pos_of_ne_zero (hneg hx))]
    rfl
  · rw [if_neg hx, if_neg hx, toText_natCast]
    rfl

theorem written_whole (p : Nat) (x : Int) :
    (if x < 0 ∧ toText (x.tdiv (10 ^ p)) = ['0'] then ['-', '0'] else toText (x.tdiv (10 ^ p))) =
      (if x < 0 then ['-'] else []) ++ Nat.toDigits 10 (x.natAbs / 10 ^ p) := by
  by_cases hzero : x < 0 ∧ x.natAbs / 10 ^ p = 0
  · have htext : toText (x.tdiv (10 ^ p)) = ['0'] := by
      rw [tdiv_pow_ten, if_pos hzero.1, hzero.2]
      rfl
    rw [if_pos ⟨hzero.1, htext⟩, if_pos hzero.1, hzero.2]
    rfl
  · have htext := toText_tdiv fun hx hquotient => hzero ⟨hx, hquotient⟩
    rw [if_neg, htext]
    rintro ⟨hx, hresult⟩
    rw [htext, if_pos hx] at hresult
    exact absurd (List.cons.inj hresult).1 (by decide)

theorem amountToString_eq (hprecision : a.precision < 19) (x : Int) :
    a.amountToString x = .ok (String.ofList (written a.precision x).text) := by
  unfold AssetObject.amountToString scaledPrecision fcAssert
  rw [if_pos hprecision]
  show (if ((x.tmod (10 ^ a.precision)).natAbs : Int) ≠ 0 then
      (.ok (String.ofList ((if x < 0 ∧ toText (x.tdiv (10 ^ a.precision)) = ['0'] then ['-', '0']
        else toText (x.tdiv (10 ^ a.precision))) ++
          '.' :: (toText (10 ^ a.precision + ((x.tmod (10 ^ a.precision)).natAbs : Int))).drop 1)) :
            Except Exception String)
    else .ok (String.ofList (toText (x.tdiv (10 ^ a.precision))))) = _
  have htext : (written a.precision x).text = (if x < 0 then ['-'] else []) ++
      (Nat.toDigits 10 (x.natAbs / 10 ^ a.precision) ++ pointText (written a.precision x).decimals) := by
    show (if decide (x < 0) = true then ['-'] else []) ++ _ = _
    rw [if_congr decide_eq_true_iff rfl rfl]
    rfl
  rw [natAbs_tmod_pow_ten, htext, ← List.append_assoc]
  by_cases hzero : x.natAbs % 10 ^ a.precision = 0
  · have hdecimals : (written a.precision x).decimals = none := if_pos hzero
    have hwhole := toText_tdiv fun hneg hquotient => by
      have hdiv := Nat.div_add_mod x.natAbs (10 ^ a.precision)
      rw [hquotient, hzero] at hdiv
      omega
    rw [if_neg (by omega), hdecimals, ← hwhole]
    exact congrArg _ (congrArg _ (List.append_nil _).symm)
  · have hdecimals : (written a.precision x).decimals = some ((toText
        ((10 ^ a.precision + x.natAbs % 10 ^ a.precision : Nat) : Int)).drop 1) := if_neg hzero
    rw [if_pos (by omega), hdecimals, ← written_whole]
    push_cast
    rfl

end

/-- A text of digits with at most one minus and at most one point is of a form that is read right. -/
def ReadsRight (precision : Nat) (str : List Char) : Prop :=
  ∀ f : Form, f.Digits → f.text = str → f.ReadsRight precision

theorem readsRight_of_not_denotes {p : Nat} (hnot : ∀ v, ¬Denotes p f.text v) :
    (∀ v, (∃ n r, Read p f.negative f.lhs f.rhs n r v) ↔ Denotes p f.text v ∧ |v| ≤ maxShareSupply) ↔
      ¬∃ v n r, Read p f.negative f.lhs f.rhs n r v := by
  constructor
  · rintro hall ⟨v, hread⟩
    exact hnot v ((hall v).mp hread).1
  · intro hnone v
    exact iff_of_false (fun hread => hnone ⟨v, hread⟩) fun hboth => hnot v hboth.1

theorem form_readsRight_iff {p : Nat} (hp : p < 19) (h : f.Digits) :
    (∀ v, (∃ n r, Read p f.negative f.lhs f.rhs n r v) ↔ Denotes p f.text v ∧ |v| ≤ maxShareSupply) ↔
      f.ReadsRight p := by
  cases f with
  | numeral m =>
    rw [← readsRight_numeral hp h]
    apply forall_congr'
    intro v
    rw [denotes_numeral h]
    exact Iff.rfl
  | afterDigits first before digits decimals =>
    rw [← readsRight_afterDigits hp h]
    apply readsRight_of_not_denotes
    intro v
    apply not_denotes
    · show '-' ∈ (first :: before) ++ '-' :: (digits ++ pointText decimals)
      simp
    · intro hhead
      obtain rfl : first = '-' := Option.some.inj hhead
      exact absurd (h.1 '-' List.mem_cons_self) (by decide)
  | afterPoint digits decimals after =>
    rw [← readsRight_afterPoint hp h]
    apply readsRight_of_not_denotes
    intro v
    apply not_denotes
    · show '-' ∈ digits ++ '.' :: (decimals ++ '-' :: after)
      simp
    · intro hhead
      cases digits with
      | nil => exact absurd (Option.some.inj hhead) (by decide)
      | cons c digits =>
        obtain rfl : c = '-' := Option.some.inj hhead
        exact absurd (h.1 '-' List.mem_cons_self) (by decide)

theorem amountFromString_form_iff (hprecision : a.precision < 19) (h : f.Digits) :
    (∀ x : Asset, a.amountFromString id (String.ofList f.text) = .ok x ↔
        x.assetId = id ∧ Denotes a.precision f.text x.amount ∧ |x.amount| ≤ maxShareSupply) ↔
      f.ReadsRight a.precision := by
  rw [← form_readsRight_iff hprecision h]
  constructor
  · intro hall v
    have hv := hall ⟨v, id⟩
    rw [amountFromString_eq_ok hprecision h] at hv
    exact ⟨fun hread => (hv.mp ⟨rfl, hread⟩).2, fun hboth => (hv.mpr ⟨rfl, hboth⟩).2⟩
  · intro hall x
    rw [amountFromString_eq_ok hprecision h, hall x.amount]

theorem checked_of_denotes {p : Nat} {str : List Char} (h : Denotes p str v) :
    ∃ r, checkCharacters false false str = .ok r := by
  obtain ⟨m, hwell, rfl, -⟩ := h
  have hdigits : (Form.numeral m).Digits := ⟨hwell.digits, hwell.fraction⟩
  exact ⟨_, checkCharacters_text hdigits⟩

theorem checked_of_ok {s : String} {x : Asset} (h : a.amountFromString id s = .ok x) :
    ∃ r, checkCharacters false false s.toList = .ok r := by
  obtain ⟨r, hr, -⟩ := Lib.of_bind (captureAndRethrow_eq_ok.mp h)
  exact ⟨r, hr⟩

/-- A written amount is read again as itself.  A text is accepted as what it denotes, and rejected if it is no
number or too large, just where the code reads it right. -/
theorem amountText_right_iff (hprecision : a.precision < 19) :
    (∀ x, |x| ≤ maxShareSupply → (a.amountToString x >>= a.amountFromString id) = .ok ⟨x, id⟩) ∧
      ∀ s : String, (∀ x : Asset, a.amountFromString id s = .ok x ↔
          x.assetId = id ∧ Denotes a.precision s.toList x.amount ∧ |x.amount| ≤ maxShareSupply) ↔
        ReadsRight a.precision s.toList := by
  constructor
  · intro x hle
    rw [amountToString_eq hprecision]
    show a.amountFromString id (String.ofList (Form.numeral (written a.precision x)).text) = _
    have hfraction := fraction_written a.precision x
    have hdigits : (Form.numeral (written a.precision x)).Digits := ⟨Lib.allDigits_toDigits _, hfraction.1⟩
    have hne : (written a.precision x).digits ≠ [] := Nat.toDigits_ne_nil
    rw [amountFromString_eq_ok hprecision hdigits]
    refine ⟨rfl, (read_numeral_iff hdigits).mpr ⟨fun hall => hne hall.1, hfraction.2.1, ?_, ?_⟩⟩
    · rw [← abs_value, value_written]
      exact hle
    · exact (value_written a.precision x).symm
  · intro s
    constructor
    · rintro hall f hdigits htext
      have hs : s = String.ofList f.text := by rw [htext, String.ofList_toList]
      rw [← htext, hs] at hall
      exact (amountFromString_form_iff hprecision hdigits).mp hall
    · intro hright x
      constructor
      · intro hok
        obtain ⟨r, hr⟩ := checked_of_ok hok
        obtain ⟨f, hdigits, htext⟩ := exists_form hr
        have hs : s = String.ofList f.text := by rw [htext, String.ofList_toList]
        have hall : ∀ x : Asset, a.amountFromString id (String.ofList f.text) = .ok x ↔ x.assetId = id ∧
            Denotes a.precision f.text x.amount ∧ |x.amount| ≤ maxShareSupply :=
          (amountFromString_form_iff hprecision hdigits).mpr (hright f hdigits htext)
        rw [hs] at hok
        rw [← htext]
        exact (hall x).mp hok
      · rintro ⟨hid, hdenotes, hle⟩
        obtain ⟨r, hr⟩ := checked_of_denotes hdenotes
        obtain ⟨f, hdigits, htext⟩ := exists_form hr
        have hs : s = String.ofList f.text := by rw [htext, String.ofList_toList]
        have hall : ∀ x : Asset, a.amountFromString id (String.ofList f.text) = .ok x ↔ x.assetId = id ∧
            Denotes a.precision f.text x.amount ∧ |x.amount| ≤ maxShareSupply :=
          (amountFromString_form_iff hprecision hdigits).mpr (hright f hdigits htext)
        rw [hs]
        rw [← htext] at hdenotes
        exact (hall x).mpr ⟨hid, hdenotes, hle⟩

def cents : AssetObject where
  precision := 2
  issuer := 0
  options := { coreExchangeRate := ⟨⟨1, 0⟩, ⟨1, 1⟩⟩ }

theorem readsRight_signed : ReadsRight cents.precision "-1.25".toList := by
  rintro (⟨negative, digits, decimals⟩ | ⟨first, before, digits, decimals⟩ |
    ⟨digits, decimals, after⟩) hdigits htext
  · left
    rintro (rfl : digits = [])
    change (if negative then ['-'] else []) ++ pointText decimals = _ at htext
    cases negative <;> cases decimals <;> simp [pointText] at htext
  · obtain rfl : first = '-' := (List.cons.inj htext).1
    exact absurd (hdigits.1 '-' List.mem_cons_self) (by decide)
  · cases digits with
    | nil => exact absurd (List.cons.inj htext).1 (by decide)
    | cons c digits =>
      obtain rfl : c = '-' := (List.cons.inj htext).1
      exact absurd (hdigits.1 '-' List.mem_cons_self) (by decide)

theorem amountText_right_iff_cents :
    (cents.amountToString (-5) >>= cents.amountFromString 1) = .ok ⟨-5, 1⟩ ∧
      ∀ x : Asset, cents.amountFromString 1 "-1.25" = .ok x ↔
        x.assetId = 1 ∧ Denotes 2 "-1.25".toList x.amount ∧ |x.amount| ≤ maxShareSupply := by
  obtain ⟨hwritten, hread⟩ := @amountText_right_iff cents 1 (by decide)
  exact ⟨hwritten (-5) (by decide), (hread "-1.25").mpr readsRight_signed⟩

/-- With the minus behind the first digit the digits after it are read. -/
theorem amountText_minus_inside : ¬∀ (a : AssetObject) (id : AssetId) (s : String) (x : Asset),
    a.precision ≤ 12 → (a.amountFromString id s = .ok x ↔
      x.assetId = id ∧ Denotes a.precision s.toList x.amount ∧ |x.amount| ≤ maxShareSupply) := by
  intro hall
  have hread : cents.amountFromString 0 "5-3" = .ok ⟨300, 0⟩ := by decide +kernel
  obtain ⟨-, hdenotes, -⟩ := (hall cents 0 "5-3" ⟨300, 0⟩ (by decide)).mp hread
  have hminus : '-' ∈ "5-3".toList := by decide
  have hhead : "5-3".toList.head? ≠ some '-' := by decide
  exact not_denotes hminus hhead hdenotes

end Meta1Core.Ledger
