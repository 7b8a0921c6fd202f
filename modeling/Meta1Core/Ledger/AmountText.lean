import Meta1Core.Ledger.Objects
import Meta1Core.Lib.Decimal

/-!
# Amounts as text (`asset_object.cpp`)

The parser checks the characters without their positions, cuts the text at the point, and reads the
two parts by `std::stoll`, which takes a sign and leaves out what comes after the digits.  A text
with the minus elsewhere is read as some other number then, or as none.
-/

namespace Meta1Core.Ledger

open Lib (AllDigits NoDigit digitsValue bind_eq_ok of_bind)
open Protocol

def find (str : List Char) (c : Char) : Option Nat := str.findIdx? fun d => d = c

def substr (str : List Char) (pos : Nat) (count : Option Nat) : Except Exception (List Char) :=
  if str.length < pos then .error (.std "basic_string::substr")
  else
    match count with
    | none => .ok (str.drop pos)
    | some n => .ok ((str.drop pos).take n)

def leadingNumber (str : List Char) : Option Int :=
  match str with
  | '-' :: rest =>
    if rest.takeWhile Char.isDigit = [] then none else some (-digitsValue (rest.takeWhile Char.isDigit))
  | _ => if str.takeWhile Char.isDigit = [] then none else some (digitsValue (str.takeWhile Char.isDigit))

/-- `std::stoll`, for a text without blanks and `+` -/
def stoll (str : List Char) : Except Exception Int :=
  match leadingNumber str with
  | none => .error (.std "stoll: invalid_argument")
  | some n => if -(2 ^ 63) ≤ n ∧ n < 2 ^ 63 then .ok n else .error (.std "stoll: out_of_range")

/-- `fc::to_string`, of an `int64_t` -/
def toText (v : Int) : List Char :=
  if v < 0 then '-' :: Nat.toDigits 10 v.natAbs else Nat.toDigits 10 v.natAbs

def captureAndRethrow {α : Type} (x : Except Exception α) : Except Exception α :=
  match x with
  | .error (.std what) => .error (.fc what)
  | _ => x

/-- `scaled_precision`, from a table of powers of ten -/
def scaledPrecision (precision : Nat) : Except Exception Int := do
  fcAssert (precision < 19) "precision < 19"
  return 10 ^ precision

/-- The loop over the characters: whether it has found a minus and a point -/
def checkCharacters : (negativeFound decimalFound : Bool) → List Char → Except Exception (Bool × Bool)
  | negativeFound, decimalFound, [] => .ok (negativeFound, decimalFound)
  | negativeFound, decimalFound, c :: rest =>
    if c.isDigit then checkCharacters negativeFound decimalFound rest
    else if c = '-' ∧ negativeFound = false then checkCharacters true decimalFound rest
    else if c = '.' ∧ decimalFound = false then checkCharacters negativeFound true rest
    else .error (.fc "(amount_string)")

def addWhole (scaledPrecision satoshis : Int) (lhs : List Char) : Except Exception Int :=
  if lhs = [] then .ok satoshis
  else do
    let whole ← safe ((← stoll lhs) * scaledPrecision)
    safe (satoshis + whole)

/-- The digits after the point, with zeros up to the precision -/
def addDecimals (scaledPrecision satoshis : Int) (rhs : List Char) : Except Exception Int := do
  let maxRhsSize := ((toText scaledPrecision).drop 1).length
  fcAssert (rhs.length ≤ maxRhsSize) "rhs.size() <= max_rhs_size"
  let rhs := rhs.rightpad maxRhsSize '0'
  if rhs = [] then return satoshis
  else safe (satoshis + (← stoll rhs))

namespace AssetObject

def amountFromString (a : AssetObject) (id : AssetId) (amountString : String) : Except Exception Asset :=
  captureAndRethrow do
    let str := amountString.toList
    let (negativeFound, decimalFound) ← checkCharacters false false str
    let scaledPrecision ← scaledPrecision a.precision
    let decimalPos := find str '.'
    let lhs ← substr str negativeFound.toNat decimalPos
    let satoshis ← addWhole scaledPrecision 0 lhs
    let satoshis ←
      if decimalFound then do
        -- `npos + 1` is 0
        let rhs ← substr str (decimalPos.elim 0 (· + 1)) none
        addDecimals scaledPrecision satoshis rhs
      else pure satoshis
    fcAssert (satoshis ≤ maxShareSupply) "satoshis <= GRAPHENE_MAX_SHARE_SUPPLY"
    let satoshis ← if negativeFound then safe (satoshis * -1) else pure satoshis
    return ⟨satoshis, id⟩

def amountToString (a : AssetObject) (amount : Int) : Except Exception String := do
  let scaledPrecision ← scaledPrecision a.precision
  let result := toText (amount.tdiv scaledPrecision)
  let decimals : Int := (amount.tmod scaledPrecision).natAbs
  if decimals ≠ 0 then
    let result := if amount < 0 ∧ result = ['0'] then ['-', '0'] else result
    return String.ofList (result ++ '.' :: (toText (scaledPrecision + decimals)).drop 1)
  else return String.ofList result

end AssetObject

structure Numeral where
  negative : Bool
  digits : List Char
  decimals : Option (List Char)

def pointText (decimals : Option (List Char)) : List Char :=
  match decimals with
  | none => []
  | some ds => '.' :: ds

namespace Numeral

def text (m : Numeral) : List Char :=
  (if m.negative then ['-'] else []) ++ (m.digits ++ pointText m.decimals)

def fraction (m : Numeral) : List Char := m.decimals.getD []

/-- There is a digit before or after the point, and at most `precision` after it. -/
structure WellFormed (m : Numeral) (precision : Nat) : Prop where
  digits : AllDigits m.digits
  fraction : AllDigits m.fraction
  some : m.digits ≠ [] ∨ m.fraction ≠ []
  length : m.fraction.length ≤ precision

def magnitude (m : Numeral) (precision : Nat) : Nat :=
  digitsValue m.digits * 10 ^ precision + digitsValue m.fraction * 10 ^ (precision - m.fraction.length)

def value (m : Numeral) (precision : Nat) : Int :=
  if m.negative then -(m.magnitude precision : Int) else m.magnitude precision

end Numeral

def Denotes (precision : Nat) (str : List Char) (v : Int) : Prop :=
  ∃ m : Numeral, m.WellFormed precision ∧ m.text = str ∧ m.value precision = v

/-! ## What passes the check of the characters -/

inductive Form where
  | numeral (m : Numeral)
  | afterDigits (first : Char) (before digits : List Char) (decimals : Option (List Char))
  | afterPoint (digits decimals after : List Char)

namespace Form

def text : Form → List Char
  | numeral m => m.text
  | afterDigits first before digits decimals => (first :: before) ++ '-' :: (digits ++ pointText decimals)
  | afterPoint digits decimals after => digits ++ '.' :: (decimals ++ '-' :: after)

def Digits : Form → Prop
  | numeral m => AllDigits m.digits ∧ AllDigits m.fraction
  | afterDigits first before digits decimals =>
    AllDigits (first :: before) ∧ AllDigits digits ∧ AllDigits (decimals.getD [])
  | afterPoint digits decimals after => AllDigits digits ∧ AllDigits decimals ∧ AllDigits after

def negative : Form → Bool
  | numeral m => m.negative
  | _ => true

def lhs : Form → List Char
  | numeral m => m.digits ++ if m.negative ∧ m.decimals.isSome then ['.'] else []
  | afterDigits _ before digits decimals =>
    before ++ '-' :: (digits ++ if decimals.isSome then ['.'] else [])
  | afterPoint digits _ _ => if digits = [] then [] else digits.tail ++ ['.']

def rhs : Form → Option (List Char)
  | numeral m => m.decimals
  | afterDigits _ _ _ decimals => decimals
  | afterPoint _ decimals after => some (decimals ++ '-' :: after)

end Form

theorem not_isDigit_minus : '-'.isDigit = false := rfl

theorem not_isDigit_point : '.'.isDigit = false := rfl

theorem noDigit_pointText (decimals : Option (List Char)) : NoDigit (pointText decimals) := by
  cases decimals with
  | none => exact NoDigit.nil
  | some ds => exact NoDigit.cons not_isDigit_point ds

variable {ds lhs str : List Char} {n s t : Int} {r : Bool × Bool} {p : Nat}
  {rhs : Option (List Char)}

theorem checkCharacters_append (h : AllDigits ds) (n d : Bool) (rest : List Char) :
    checkCharacters n d (ds ++ rest) = checkCharacters n d rest := by
  induction ds with
  | nil => rfl
  | cons c ds ih =>
    obtain ⟨hc, hds⟩ := Lib.allDigits_cons.mp h
    rw [List.cons_append, checkCharacters, if_pos hc]
    exact ih hds

theorem checkCharacters_minus (d : Bool) (rest : List Char) :
    checkCharacters false d ('-' :: rest) = checkCharacters true d rest := by
  rw [checkCharacters, if_neg (by rw [not_isDigit_minus]; exact Bool.false_ne_true), if_pos ⟨rfl, rfl⟩]

theorem checkCharacters_point (n : Bool) (rest : List Char) :
    checkCharacters n false ('.' :: rest) = checkCharacters n true rest := by
  rw [checkCharacters, if_neg (by rw [not_isDigit_point]; exact Bool.false_ne_true),
    if_neg fun hboth => absurd hboth.1 (by decide), if_pos ⟨rfl, rfl⟩]

theorem checkCharacters_digits (h : AllDigits ds) (n d : Bool) :
    checkCharacters n d ds = .ok (n, d) := by
  have happend := checkCharacters_append h n d []
  rw [List.append_nil] at happend
  exact happend

theorem checkCharacters_pointText {decimals : Option (List Char)} (h : AllDigits (decimals.getD []))
    (n : Bool) : checkCharacters n false (pointText decimals) = .ok (n, decimals.isSome) := by
  cases decimals with
  | none => rfl
  | some ds => exact (checkCharacters_point n ds).trans (checkCharacters_digits h n true)

theorem checkCharacters_text {f : Form} (h : f.Digits) :
    checkCharacters false false f.text = .ok (f.negative, f.rhs.isSome) := by
  cases f with
  | numeral m =>
    show checkCharacters false false ((if m.negative then ['-'] else []) ++ _) = .ok (m.negative, _)
    cases m.negative with
    | false =>
      show checkCharacters false false (m.digits ++ pointText m.decimals) = _
      rw [checkCharacters_append h.1]
      exact checkCharacters_pointText h.2 false
    | true =>
      show checkCharacters false false ('-' :: (m.digits ++ pointText m.decimals)) = _
      rw [checkCharacters_minus, checkCharacters_append h.1]
      exact checkCharacters_pointText h.2 true
  | afterDigits first before digits decimals =>
    show checkCharacters false false ((first :: before) ++ '-' :: (digits ++ pointText decimals)) = _
    rw [checkCharacters_append h.1, checkCharacters_minus, checkCharacters_append h.2.1]
    exact checkCharacters_pointText h.2.2 true
  | afterPoint digits decimals after =>
    show checkCharacters false false (digits ++ '.' :: (decimals ++ '-' :: after)) = _
    rw [checkCharacters_append h.1, checkCharacters_point, checkCharacters_append h.2.1,
      checkCharacters_minus]
    exact checkCharacters_digits h.2.2 true true

theorem checkCharacters_eq_ok {n d : Bool} (h : checkCharacters n d str = .ok r) :
    ∃ ds rest, AllDigits ds ∧ str = ds ++ rest ∧
      (rest = [] ∨
        (∃ rest', rest = '-' :: rest' ∧ n = false ∧ checkCharacters true d rest' = .ok r) ∨
        ∃ rest', rest = '.' :: rest' ∧ d = false ∧ checkCharacters n true rest' = .ok r) := by
  induction str with
  | nil => exact ⟨[], [], .nil, rfl, .inl rfl⟩
  | cons c str ih =>
    rw [checkCharacters] at h
    by_cases hc : c.isDigit = true
    · rw [if_pos hc] at h
      obtain ⟨ds, rest, hds, rfl, hrest⟩ := ih h
      exact ⟨c :: ds, rest, Lib.allDigits_cons.mpr ⟨hc, hds⟩, rfl, hrest⟩
    · rw [if_neg hc] at h
      by_cases hminus : c = '-' ∧ n = false
      · rw [if_pos hminus] at h
        exact ⟨[], c :: str, .nil, rfl, .inr (.inl ⟨str, by rw [hminus.1], hminus.2, h⟩)⟩
      · rw [if_neg hminus] at h
        by_cases hpoint : c = '.' ∧ d = false
        · rw [if_pos hpoint] at h
          exact ⟨[], c :: str, .nil, rfl, .inr (.inr ⟨str, by rw [hpoint.1], hpoint.2, h⟩)⟩
        · rw [if_neg hpoint] at h
          cases h

theorem allDigits_of_checked (h : checkCharacters true true str = .ok r) : AllDigits str := by
  obtain ⟨ds, rest, hds, rfl, rfl | ⟨rest', -, hn, -⟩ | ⟨rest', -, hd, -⟩⟩ := checkCharacters_eq_ok h
  · rw [List.append_nil]
    exact hds
  · cases hn
  · cases hd

theorem exists_pointText (h : checkCharacters true false str = .ok r) :
    ∃ ds decimals, AllDigits ds ∧ AllDigits (decimals.getD []) ∧ str = ds ++ pointText decimals := by
  obtain ⟨ds, rest, hds, rfl, rfl | ⟨rest', -, hn, -⟩ | ⟨rest', rfl, -, hrest⟩⟩ := checkCharacters_eq_ok h
  · exact ⟨ds, none, hds, .nil, rfl⟩
  · cases hn
  · exact ⟨ds, some rest', hds, allDigits_of_checked hrest, rfl⟩

theorem exists_form (h : checkCharacters false false str = .ok r) :
    ∃ f : Form, f.Digits ∧ f.text = str := by
  obtain ⟨ds, rest, hds, rfl, rfl | ⟨rest', rfl, -, hrest⟩ | ⟨rest', rfl, -, hrest⟩⟩ :=
    checkCharacters_eq_ok h
  · exact ⟨.numeral ⟨false, ds, none⟩, ⟨hds, .nil⟩, rfl⟩
  · obtain ⟨digits, decimals, hdigits, hdecimals, rfl⟩ := exists_pointText hrest
    cases ds with
    | nil => exact ⟨.numeral ⟨true, digits, decimals⟩, ⟨hdigits, hdecimals⟩, rfl⟩
    | cons first before =>
      exact ⟨.afterDigits first before digits decimals, ⟨hds, hdigits, hdecimals⟩, rfl⟩
  · obtain ⟨decimals, rest, hdecimals, rfl, rfl | ⟨after, rfl, -, hafter⟩ | ⟨rest', -, hd, -⟩⟩ :=
      checkCharacters_eq_ok hrest
    · rw [List.append_nil]
      exact ⟨.numeral ⟨false, ds, some decimals⟩, ⟨hds, hdecimals⟩, rfl⟩
    · exact ⟨.afterPoint ds decimals after, ⟨hds, hdecimals, allDigits_of_checked hafter⟩, rfl⟩
    · cases hd

/-! ## The parts that are cut -/

theorem find_append {rest : List Char} (h : '.' ∉ ds) :
    find (ds ++ '.' :: rest) '.' = some ds.length := by
  unfold find
  rw [List.findIdx?_append]
  have hnone : ds.findIdx? (fun d => decide (d = '.')) = none := by
    rw [List.findIdx?_eq_none_iff]
    intro c hc
    exact decide_eq_false fun heq => h (heq ▸ hc)
  rw [hnone]
  simp [List.findIdx?_cons]

theorem find_eq_none (h : '.' ∉ str) : find str '.' = none := by
  unfold find
  rw [List.findIdx?_eq_none_iff]
  intro c hc
  exact decide_eq_false fun heq => h (heq ▸ hc)

def addFraction (precision : Nat) (satoshis : Int) (rhs : Option (List Char)) : Except Exception Int :=
  match rhs with
  | none => .ok satoshis
  | some rhs => addDecimals (10 ^ precision) satoshis rhs

def applySign (negative : Bool) (satoshis : Int) : Except Exception Int :=
  if negative then safe (satoshis * -1) else .ok satoshis

def assemble (precision : Nat) (id : AssetId) (negative : Bool) (lhs : List Char)
    (rhs : Option (List Char)) : Except Exception Asset := do
  let satoshis ← addWhole (10 ^ precision) 0 lhs
  let satoshis ← addFraction precision satoshis rhs
  fcAssert (satoshis ≤ maxShareSupply) "satoshis <= GRAPHENE_MAX_SHARE_SUPPLY"
  let satoshis ← applySign negative satoshis
  return ⟨satoshis, id⟩

theorem substr_of_le {pos : Nat} (h : pos ≤ str.length) (count : Option Nat) :
    substr str pos count =
      .ok (match count with | none => str.drop pos | some n => (str.drop pos).take n) := by
  unfold substr
  rw [if_neg (Nat.not_lt.mpr h)]
  cases count with
  | none => rfl
  | some n => rfl

section

variable {before : List Char} {decimals : Option (List Char)} {c : Char}

theorem find_pointText (h : '.' ∉ before) :
    find (before ++ pointText decimals) '.' = decimals.map fun _ => before.length := by
  cases decimals with
  | none => exact (congrArg (find · '.') (List.append_nil before)).trans (find_eq_none h)
  | some ds => exact find_append h

theorem substr_zero : substr (before ++ pointText decimals) 0 (decimals.map fun _ => before.length) =
    .ok before := by
  rw [substr_of_le (Nat.zero_le _)]
  cases decimals with
  | none => exact congrArg Except.ok (List.append_nil before)
  | some ds => exact congrArg Except.ok List.take_append_length

theorem substr_one : substr ((c :: before) ++ pointText decimals) 1
    (decimals.map fun _ => (c :: before).length) = .ok (before ++ if decimals.isSome then ['.'] else []) := by
  rw [substr_of_le (by simp)]
  cases decimals with
  | none => rfl
  | some ds =>
    show Except.ok ((before ++ '.' :: ds).take (before.length + 1)) = .ok (before ++ ['.'])
    rw [List.take_length_add_append]
    rfl

theorem substr_behind (ds : List Char) :
    substr (before ++ pointText (some ds)) (before.length + 1) none = .ok ds := by
  rw [substr_of_le (by simp [pointText])]
  exact congrArg Except.ok (List.drop_length_add_append 1)

end

structure Cut (f : Form) (pos : Option Nat) : Prop where
  find : find f.text '.' = pos
  lhs : substr f.text f.negative.toNat pos = .ok f.lhs
  rhs : ∀ rhs ∈ f.rhs, substr f.text (pos.elim 0 (· + 1)) none = .ok rhs

theorem Cut.of_pointText {f : Form} {before : List Char} {decimals : Option (List Char)}
    (htext : f.text = before ++ pointText decimals) (hrhs : f.rhs = decimals) (hbefore : '.' ∉ before)
    (hlhs : substr (before ++ pointText decimals) f.negative.toNat (decimals.map fun _ => before.length) =
      .ok f.lhs) : Cut f (decimals.map fun _ => before.length) where
  find := by rw [htext, find_pointText hbefore]
  lhs := by rw [htext, hlhs]
  rhs := by
    intro rhs hmem
    obtain rfl : decimals = some rhs := hrhs.symm.trans hmem
    rw [htext]
    exact substr_behind rhs

theorem exists_cut {f : Form} (h : f.Digits) : ∃ pos, Cut f pos := by
  cases f with
  | numeral m =>
    obtain ⟨negative, digits, decimals⟩ := m
    have hdigits : '.' ∉ digits := AllDigits.not_mem h.1 not_isDigit_point
    cases negative with
    | false =>
      have hlhs : digits ++ (if (false = true) ∧ decimals.isSome = true then ['.'] else []) = digits := by
        simp
      exact ⟨_, Cut.of_pointText rfl rfl hdigits (substr_zero.trans (congrArg Except.ok hlhs.symm))⟩
    | true =>
      have hbefore : '.' ∉ '-' :: digits := by simp [hdigits]
      have htext : (Form.numeral ⟨true, digits, decimals⟩).text = ('-' :: digits) ++ pointText decimals := rfl
      refine ⟨_, Cut.of_pointText htext rfl hbefore (substr_one.trans ?_)⟩
      show _ = Except.ok (digits ++ if true = true ∧ decimals.isSome = true then ['.'] else [])
      simp
  | afterDigits first before digits decimals =>
    have hbefore : '.' ∉ first :: (before ++ '-' :: digits) := by
      have hfirst := AllDigits.not_mem h.1 not_isDigit_point
      have hdigits := AllDigits.not_mem h.2.1 not_isDigit_point
      simp_all
    have htext : (Form.afterDigits first before digits decimals).text =
        (first :: (before ++ '-' :: digits)) ++ pointText decimals := by
      show (first :: before) ++ '-' :: (digits ++ pointText decimals) = _
      simp
    refine ⟨_, Cut.of_pointText htext rfl hbefore (substr_one.trans ?_)⟩
    show _ = Except.ok (before ++ '-' :: (digits ++ if decimals.isSome then ['.'] else []))
    simp
  | afterPoint digits decimals after =>
    have hdigits : '.' ∉ digits := AllDigits.not_mem h.1 not_isDigit_point
    have htext : (Form.afterPoint digits decimals after).text =
        digits ++ pointText (some (decimals ++ '-' :: after)) := rfl
    refine ⟨_, Cut.of_pointText htext rfl hdigits ?_⟩
    cases digits with
    | nil => rfl
    | cons c digits => exact substr_one

/-! ## What is read -/

theorem captureAndRethrow_eq_ok {α : Type} {x : Except Exception α} {v : α} :
    captureAndRethrow x = .ok v ↔ x = .ok v := by
  unfold captureAndRethrow
  split
  · exact iff_of_false nofun nofun
  · exact Iff.rfl

variable {a : AssetObject} {id : AssetId} {f : Form} {v : Int}

theorem amountFromString_text (hprecision : a.precision < 19) (h : f.Digits) :
    a.amountFromString id (String.ofList f.text) =
      captureAndRethrow (assemble a.precision id f.negative f.lhs f.rhs) := by
  obtain ⟨pos, hcut⟩ := exists_cut h
  unfold AssetObject.amountFromString scaledPrecision assemble fcAssert
  rw [String.toList_ofList]
  dsimp only
  rw [checkCharacters_text h, if_pos hprecision, hcut.find]
  congr 1
  show (substr f.text f.negative.toNat pos >>= _) = _
  rw [hcut.lhs]
  show (addWhole (10 ^ a.precision) 0 f.lhs >>= _) = (addWhole (10 ^ a.precision) 0 f.lhs >>= _)
  congr 1
  funext satoshis
  cases hrhs : f.rhs with
  | none =>
    cases f.negative with
    | false => rfl
    | true => rfl
  | some rhs =>
    show (substr f.text (pos.elim 0 (· + 1)) none >>= _) = _
    rw [hcut.rhs rhs hrhs]
    show (addDecimals (10 ^ a.precision) satoshis rhs >>= _) = (addDecimals _ satoshis rhs >>= _)
    congr 1
    funext satoshis
    cases f.negative with
    | false => rfl
    | true => rfl

def wholeNumber (lhs : List Char) : Option Int := if lhs = [] then some 0 else leadingNumber lhs

def decimalNumber (precision : Nat) (rhs : Option (List Char)) : Option Int :=
  match rhs with
  | none => some 0
  | some rhs =>
    if precision < rhs.length then none
    else if rhs.rightpad precision '0' = [] then some 0
    else leadingNumber (rhs.rightpad precision '0')

structure Read (precision : Nat) (negative : Bool) (lhs : List Char) (rhs : Option (List Char))
    (n r v : Int) : Prop where
  whole : wholeNumber lhs = some n
  decimals : decimalNumber precision rhs = some r
  product : -(2 ^ 63) ≤ n * 10 ^ precision ∧ n * 10 ^ precision < 2 ^ 63
  sum : -(2 ^ 63) ≤ n * 10 ^ precision + r ∧ n * 10 ^ precision + r ≤ maxShareSupply
  negated : negative = true → -(2 ^ 63) < n * 10 ^ precision + r
  value : v = if negative then -(n * 10 ^ precision + r) else n * 10 ^ precision + r

theorem one_le_pow_ten (p : Nat) : (1 : Int) ≤ 10 ^ p := one_le_pow₀ (by decide)

theorem fits_of_mul (h : -(2 ^ 63) ≤ n * 10 ^ p ∧ n * 10 ^ p < 2 ^ 63) :
    -(2 ^ 63) ≤ n ∧ n < 2 ^ 63 := by
  have hone := one_le_pow_ten p
  rcases Int.le_total 0 n with hn | hn
  · have hle : n ≤ n * 10 ^ p := le_mul_of_one_le_right hn hone
    omega
  · have hle : n * 10 ^ p ≤ n := mul_le_of_one_le_right hn hone
    omega

theorem stoll_eq_ok :
    stoll str = .ok n ↔ leadingNumber str = some n ∧ -(2 ^ 63) ≤ n ∧ n < 2 ^ 63 := by
  unfold stoll
  cases hnumber : leadingNumber str with
  | none => exact iff_of_false nofun fun h => nomatch h.1
  | some m =>
    dsimp only
    split
    · rename_i hfits
      constructor
      · intro h
        obtain rfl := Except.ok.inj h
        exact ⟨rfl, hfits⟩
      · rintro ⟨hm, -⟩
        rw [Option.some.inj hm]
    · rename_i hnot
      refine iff_of_false nofun ?_
      rintro ⟨hm, hfits⟩
      rw [Option.some.inj hm] at hnot
      exact hnot hfits

theorem addWhole_eq_ok :
    addWhole (10 ^ p) 0 lhs = .ok s ↔
      ∃ n, wholeNumber lhs = some n ∧ (-(2 ^ 63) ≤ n * 10 ^ p ∧ n * 10 ^ p < 2 ^ 63) ∧ s = n * 10 ^ p := by
  unfold addWhole wholeNumber
  by_cases hlhs : lhs = []
  · rw [if_pos hlhs, if_pos hlhs]
    constructor
    · intro h
      obtain rfl := Except.ok.inj h
      exact ⟨0, rfl, by omega, by omega⟩
    · rintro ⟨n, hn, -, rfl⟩
      rw [← Option.some.inj hn, Int.zero_mul]
  · rw [if_neg hlhs, if_neg hlhs]
    constructor
    · intro h
      obtain ⟨n, hn, hrest⟩ := of_bind h
      obtain ⟨whole, hwhole, hsum⟩ := of_bind hrest
      obtain ⟨rfl, hfits⟩ := of_safe hwhole
      obtain ⟨rfl, -⟩ := of_safe hsum
      exact ⟨n, (stoll_eq_ok.mp hn).1, hfits, Int.zero_add _⟩
    · rintro ⟨n, hn, hfits, rfl⟩
      refine bind_eq_ok.mpr ⟨n, stoll_eq_ok.mpr ⟨hn, fits_of_mul hfits⟩, ?_⟩
      refine bind_eq_ok.mpr ⟨n * 10 ^ p, safe_eq_ok.mpr ⟨rfl, hfits⟩, ?_⟩
      rw [Int.zero_add]
      exact safe_eq_ok.mpr ⟨rfl, hfits⟩

theorem length_drop_toText (p : Nat) : ((toText (10 ^ p)).drop 1).length = p := by
  obtain ⟨ds, htext, -, hlength, -⟩ := Lib.toDigits_pow_add (Nat.pow_pos (n := p) (show 0 < 10 by decide))
  have hnot : ¬((10 : Int) ^ p < 0) := by
    have hone := one_le_pow_ten p
    omega
  have habs : ((10 : Int) ^ p).natAbs = 10 ^ p := by
    rw [Int.natAbs_pow]
    rfl
  rw [toText, if_neg hnot, habs, ← Nat.add_zero (10 ^ p), htext]
  exact hlength

theorem leadingNumber_lt (h : leadingNumber str = some n) :
    -(10 ^ str.length : Int) < n ∧ n < 10 ^ str.length := by
  have hdigits : ∀ cs : List Char, (digitsValue (cs.takeWhile Char.isDigit) : Int) < 10 ^ cs.length := by
    intro cs
    have hlt := Lib.digitsValue_lt (Lib.allDigits_takeWhile cs)
    have hle : 10 ^ (cs.takeWhile Char.isDigit).length ≤ 10 ^ cs.length :=
      Nat.pow_le_pow_right (by decide) (List.takeWhile_prefix _).length_le
    have hboth := Nat.lt_of_lt_of_le hlt hle
    exact_mod_cast hboth
  unfold leadingNumber at h
  split at h
  · rename_i rest
    split at h
    · cases h
    · cases h
      have hlt := hdigits rest
      have hle : (10 : Int) ^ rest.length ≤ 10 ^ ('-' :: rest).length :=
        pow_le_pow_right₀ (by decide) (Nat.le_succ _)
      omega
  · split at h
    · cases h
    · cases h
      have hlt := hdigits str
      omega

theorem decimalNumber_lt {r : Int} (h : decimalNumber p rhs = some r) :
    -(10 ^ p : Int) < r ∧ r < 10 ^ p := by
  have hone := one_le_pow_ten p
  unfold decimalNumber at h
  split at h
  · cases h
    omega
  · rename_i rhs
    split at h
    · cases h
    · rename_i hlength
      split at h
      · cases h
        omega
      · have hlt := leadingNumber_lt h
        have hpadded : (rhs.rightpad p '0').length = p := by
          rw [List.length_rightpad]
          omega
        rw [hpadded] at hlt
        exact hlt

theorem pow_ten_le (hp : p < 19) : (10 : Int) ^ p ≤ 10 ^ 18 :=
  pow_le_pow_right₀ (by decide) (Nat.le_of_lt_succ hp)

theorem addDecimals_eq_ok (hp : p < 19) {rhs : List Char} (hs : -(2 ^ 63) ≤ s ∧ s < 2 ^ 63) :
    addDecimals (10 ^ p) s rhs = .ok t ↔
      ∃ r, decimalNumber p (some rhs) = some r ∧ (-(2 ^ 63) ≤ s + r ∧ s + r < 2 ^ 63) ∧ t = s + r := by
  unfold addDecimals
  rw [length_drop_toText]
  dsimp only
  rw [fcAssert_bind_eq_ok]
  unfold decimalNumber
  dsimp only
  by_cases hlength : p < rhs.length
  · rw [if_pos hlength]
    exact iff_of_false (fun h => Nat.not_lt.mpr h.1 hlength) nofun
  rw [if_neg hlength, and_iff_right (Nat.not_lt.mp hlength)]
  by_cases hnil : rhs.rightpad p '0' = []
  · rw [if_pos hnil, if_pos hnil]
    constructor
    · intro h
      obtain rfl := Except.ok.inj h
      exact ⟨0, rfl, by omega, (Int.add_zero _).symm⟩
    · rintro ⟨r, hr, -, rfl⟩
      rw [← Option.some.inj hr, Int.add_zero]
      rfl
  · rw [if_neg hnil, if_neg hnil]
    constructor
    · intro h
      obtain ⟨r, hr, hsum⟩ := of_bind h
      obtain ⟨rfl, hfits⟩ := of_safe hsum
      exact ⟨r, (stoll_eq_ok.mp hr).1, hfits, rfl⟩
    · rintro ⟨r, hr, hfits, rfl⟩
      have hnumber : decimalNumber p (some rhs) = some r := by
        unfold decimalNumber
        dsimp only
        rw [if_neg hlength, if_neg hnil, hr]
      have hlt := decimalNumber_lt hnumber
      have hpow := pow_ten_le hp
      exact bind_eq_ok.mpr ⟨r, stoll_eq_ok.mpr ⟨hr, by omega⟩, safe_eq_ok.mpr ⟨rfl, hfits⟩⟩

theorem addFraction_eq_ok (hp : p < 19) (hs : -(2 ^ 63) ≤ s ∧ s < 2 ^ 63) :
    addFraction p s rhs = .ok t ↔
      ∃ r, decimalNumber p rhs = some r ∧ (-(2 ^ 63) ≤ s + r ∧ s + r < 2 ^ 63) ∧ t = s + r := by
  cases rhs with
  | none =>
    constructor
    · intro h
      obtain rfl := Except.ok.inj h
      exact ⟨0, rfl, by omega, (Int.add_zero _).symm⟩
    · rintro ⟨r, hr, -, rfl⟩
      rw [← Option.some.inj hr, Int.add_zero]
      rfl
  | some rhs => exact addDecimals_eq_ok hp hs

theorem applySign_eq_ok {negative : Bool} (hs : -(2 ^ 63) ≤ s ∧ s < 2 ^ 63) :
    applySign negative s = .ok t ↔
      (negative = true → -(2 ^ 63) < s) ∧ t = if negative then -s else s := by
  cases negative with
  | false => exact ⟨fun h => ⟨nofun, (Except.ok.inj h).symm⟩, fun h => congrArg Except.ok h.2.symm⟩
  | true =>
    show safe (s * -1) = .ok t ↔ (true = true → -(2 ^ 63) < s) ∧ t = -s
    rw [safe_eq_ok, forall_prop_of_true rfl]
    omega

theorem assemble_eq_ok (hp : p < 19) {negative : Bool} {x : Asset} :
    assemble p id negative lhs rhs = .ok x ↔
      x.assetId = id ∧ ∃ n r, Read p negative lhs rhs n r x.amount := by
  unfold assemble
  have hmax : maxShareSupply < 2 ^ 63 := by decide
  constructor
  · intro h
    obtain ⟨s, hwhole, hrest⟩ := of_bind h
    obtain ⟨t, hfraction, hrest⟩ := of_bind hrest
    obtain ⟨hle, hrest⟩ := of_fcAssert hrest
    obtain ⟨u, hsign, hlast⟩ := of_bind hrest
    obtain ⟨n, hn, hproduct, rfl⟩ := addWhole_eq_ok.mp hwhole
    obtain ⟨r, hr, hsum, rfl⟩ := (addFraction_eq_ok hp hproduct).mp hfraction
    obtain ⟨hnegated, rfl⟩ := (applySign_eq_ok hsum).mp hsign
    obtain rfl := Except.ok.inj hlast
    exact ⟨rfl, n, r, hn, hr, hproduct, ⟨hsum.1, hle⟩, hnegated, rfl⟩
  · rintro ⟨hid, n, r, hn, hr, hproduct, hsum, hnegated, hvalue⟩
    have hfits : -(2 ^ 63) ≤ n * 10 ^ p + r ∧ n * 10 ^ p + r < 2 ^ 63 := by omega
    refine bind_eq_ok.mpr ⟨n * 10 ^ p, addWhole_eq_ok.mpr ⟨n, hn, hproduct, rfl⟩, ?_⟩
    refine bind_eq_ok.mpr ⟨_, (addFraction_eq_ok hp hproduct).mpr ⟨r, hr, hfits, rfl⟩, ?_⟩
    refine fcAssert_bind_eq_ok.mpr ⟨hsum.2, ?_⟩
    refine bind_eq_ok.mpr ⟨_, (applySign_eq_ok hfits).mpr ⟨hnegated, hvalue⟩, ?_⟩
    rw [← hid]
    rfl

theorem amountFromString_eq_ok (hprecision : a.precision < 19) (h : f.Digits) {x : Asset} :
    a.amountFromString id (String.ofList f.text) = .ok x ↔
      x.assetId = id ∧ ∃ n r, Read a.precision f.negative f.lhs f.rhs n r x.amount := by
  rw [amountFromString_text hprecision h, captureAndRethrow_eq_ok, assemble_eq_ok hprecision]

end Meta1Core.Ledger
