import Mathlib.Data.List.Basic
import Meta1Core.Fc.Exception

/-!
# Account names (`account.cpp`)

`is_valid_name` scans the bytes of a name with two unsigned indices.
-/

namespace Meta1Core.Protocol.AccountName

/-- `GRAPHENE_MIN_ACCOUNT_NAME_LENGTH` -/
def minLength : Nat := 1

/-- `GRAPHENE_MAX_ACCOUNT_NAME_LENGTH` -/
def maxLength : Nat := 63

def dot : UInt8 := '.'.toUInt8

/-- `case 'a': … case 'z':` -/
def isLetter (c : UInt8) : Bool := 'a'.toUInt8 ≤ c && c ≤ 'z'.toUInt8

/-- The letters and `case '0': … case '9':` -/
def isLetDig (c : UInt8) : Bool := isLetter c || ('0'.toUInt8 ≤ c && c ≤ '9'.toUInt8)

/-- The letters, the digits and `case '-':` -/
def isLetDigHyp (c : UInt8) : Bool := isLetDig c || c == '-'.toUInt8

def sizeSub (a b : Nat) : Nat := (a + (2 ^ 64 - b % 2 ^ 64)) % 2 ^ 64

def charAt (name : List UInt8) (i : Nat) : Except Exception UInt8 :=
  match name[i]? with
  | some c => .ok c
  | none => .error .undefined

def findFirstOf (name : List UInt8) (c : UInt8) (pos : Nat) : Option Nat :=
  ((name.drop pos).findIdx? (· == c)).map (pos + ·)

/-- `for( size_t i = i; i < bound; i++ )` over the characters inside a label -/
def scanInside (name : List UInt8) (bound : Nat) : (fuel i : Nat) → Except Exception Bool
  | 0, _ => .error .diverges
  | fuel + 1, i =>
    if i < bound then do
      let c ← charAt name i
      if isLetDigHyp c then scanInside name bound fuel (i + 1) else return false
    else return true

/-- The checks of the loop's body on the label from `begin` up to `last` -/
def scanLabel (name : List UInt8) (begin last : Nat) : Except Exception Bool :=
  if sizeSub last begin < minLength then return false
  else do
    let c ← charAt name begin
    if isLetter c then do
      let d ← charAt name (sizeSub last 1)
      if isLetDig d then scanInside name (sizeSub last 1) (name.length + 1) (begin + 1)
      else return false
    else return false

def scan (name : List UInt8) : (fuel begin : Nat) → Except Exception Bool
  | 0, _ => .error .diverges
  | fuel + 1, begin => do
    let last := (findFirstOf name dot begin).getD name.length
    if ← scanLabel name begin last then
      if last = name.length then return true else scan name fuel (last + 1)
    else return false

def isValidName (name : List UInt8) : Except Exception Bool :=
  if name.length < minLength then return false
  else if name.length > maxLength then return false
  else scan name (name.length + 1) 0

/-! ## The grammar -/

structure Label (l : List UInt8) : Prop where
  long : minLength ≤ l.length
  first : ∃ c ∈ l.head?, isLetter c
  last : ∃ c ∈ l.getLast?, isLetDig c
  inside : ∀ c ∈ l, isLetDigHyp c

def Subdomain (s : List UInt8) : Prop :=
  ∃ labels : List (List UInt8), labels ≠ [] ∧ (∀ l ∈ labels, Label l) ∧
    s = [dot].intercalate labels

theorem minLength_pos : 0 < minLength := by decide

variable {c : UInt8} {after before l rest : List UInt8}

theorem isLetDig_of_isLetter (h : isLetter c) : isLetDig c := by
  simp [isLetDig, h]

theorem isLetDigHyp_of_isLetDig (h : isLetDig c) : isLetDigHyp c := by
  simp [isLetDigHyp, h]

theorem not_isLetDigHyp_dot : ¬ isLetDigHyp dot := by decide

theorem label_singleton : Label [c] ↔ minLength ≤ 1 ∧ isLetter c := by
  constructor
  · intro h
    exact ⟨h.long, by simpa using h.first⟩
  · rintro ⟨hlong, hc⟩
    have hdig := isLetDig_of_isLetter hc
    exact ⟨hlong, by simp [hc], by simp [hdig], by simp [isLetDigHyp_of_isLetDig hdig]⟩

theorem label_cons_snoc {d : UInt8} {ldh : List UInt8} :
    Label (c :: (ldh ++ [d])) ↔
      minLength ≤ ldh.length + 2 ∧ isLetter c ∧ isLetDig d ∧ ∀ x ∈ ldh, isLetDigHyp x := by
  have hlast : (c :: (ldh ++ [d])).getLast? = some d := by
    rw [← List.cons_append, List.getLast?_concat]
  constructor
  · intro h
    refine ⟨by simpa using h.long, by simpa using h.first, ?_, fun x hx => h.inside x (by simp [hx])⟩
    simpa [hlast] using h.last
  · rintro ⟨hlong, hc, hd, hin⟩
    refine ⟨by simpa using hlong, by simpa using hc, ⟨d, hlast, hd⟩, ?_⟩
    have hc' := isLetDigHyp_of_isLetDig (isLetDig_of_isLetter hc)
    have hd' := isLetDigHyp_of_isLetDig hd
    simp only [List.mem_cons, List.mem_append, List.not_mem_nil, or_false]
    rintro x (rfl | hx | rfl)
    · exact hc'
    · exact hin x hx
    · exact hd'

theorem Label.dot_notMem (h : Label l) : dot ∉ l :=
  fun hd => not_isLetDigHyp_dot (h.inside dot hd)

theorem subdomain_iff_splitOn {s : List UInt8} :
    Subdomain s ↔ ∀ l ∈ s.splitOn dot, Label l := by
  constructor
  · rintro ⟨labels, hne, hl, rfl⟩
    rw [List.splitOn_intercalate dot (fun l h => (hl l h).dot_notMem) hne]
    exact hl
  · intro h
    exact ⟨s.splitOn dot, List.splitOn_ne_nil dot s, h, (List.intercalate_splitOn dot).symm⟩

theorem subdomain_of_dot_notMem (h : dot ∉ l) : Subdomain l ↔ Label l := by
  rw [subdomain_iff_splitOn, List.splitOn_eq_singleton h]
  simp

theorem subdomain_append_dot (h : dot ∉ l) :
    Subdomain (l ++ dot :: rest) ↔ Label l ∧ Subdomain rest := by
  rw [subdomain_iff_splitOn, subdomain_iff_splitOn, List.splitOn_append_cons_self_of_not_mem h]
  simp

/-! ## The scanner -/

theorem sizeSub_of_le {a b : Nat} (hb : b ≤ a) (ha : a < 2 ^ 64) : sizeSub a b = a - b := by
  unfold sizeSub
  omega

theorem charAt_append (before : List UInt8) (c : UInt8) (after : List UInt8) :
    charAt (before ++ c :: after) before.length = .ok c := by
  simp [charAt]

theorem findFirstOf_append (before rest : List UInt8) (c : UInt8) :
    findFirstOf (before ++ rest) c before.length =
      (rest.findIdx? (· == c)).map (before.length + ·) := by
  simp [findFirstOf]

theorem findFirstOf_none (h : c ∉ rest) :
    findFirstOf (before ++ rest) c before.length = none := by
  rw [findFirstOf_append, Option.map_eq_none_iff, List.findIdx?_eq_none_iff]
  intro x hx
  simpa using fun he : x = c => h (he ▸ hx)

theorem findFirstOf_some (h : c ∉ l) :
    findFirstOf (before ++ (l ++ c :: after)) c before.length =
      some (before.length + l.length) := by
  have hl : l.findIdx? (· == c) = none := by
    rw [List.findIdx?_eq_none_iff]
    intro x hx
    simpa using fun he : x = c => h (he ▸ hx)
  rw [findFirstOf_append, List.findIdx?_append, hl, List.findIdx?_cons]
  simp

theorem scanInside_eq (inside : List UInt8) :
    ∀ (before after : List UInt8) (fuel : Nat), inside.length < fuel →
      scanInside (before ++ (inside ++ after)) (before.length + inside.length) fuel
        before.length = .ok (inside.all isLetDigHyp) := by
  induction inside with
  | nil =>
    intro before after fuel hf
    obtain ⟨fuel, rfl⟩ := Nat.exists_eq_add_of_lt hf
    simp [scanInside, pure, Except.pure]
  | cons c inside ih =>
    intro before after fuel hf
    obtain ⟨fuel, rfl⟩ : ∃ k, fuel = k + 1 := ⟨fuel - 1, by omega⟩
    have hlt : before.length < before.length + (c :: inside).length := by simp
    have hread : charAt (before ++ (c :: inside ++ after)) before.length = .ok c :=
      charAt_append before c (inside ++ after)
    -- the loop goes on from a string whose first part has one more character
    have hnext := ih (before ++ [c]) after fuel (by simpa using hf)
    rw [scanInside, if_pos hlt, hread]
    show (if isLetDigHyp c then _ else _) = _
    cases hc : isLetDigHyp c with
    | false => simp [hc, pure, Except.pure]
    | true =>
      rw [if_pos rfl, List.all_cons, hc, Bool.true_and, ← hnext]
      simp [Nat.add_assoc, Nat.add_comm 1]

theorem scanLabel_eq (hlen : (before ++ (l ++ after)).length < 2 ^ 64) :
    ∃ b, scanLabel (before ++ (l ++ after)) before.length (before.length + l.length) = .ok b ∧
      (b = true ↔ Label l) := by
  have hmin := minLength_pos
  have hsize : before.length + l.length < 2 ^ 64 := by
    simp only [List.length_append] at hlen
    omega
  have hsub : sizeSub (before.length + l.length) before.length = l.length := by
    rw [sizeSub_of_le (by omega) hsize]
    omega
  unfold scanLabel
  rw [hsub]
  by_cases hlong : l.length < minLength
  · rw [if_pos hlong]
    exact ⟨false, rfl, by simpa using fun h : Label l => absurd h.long (by omega)⟩
  rw [if_neg hlong]
  cases l with
  | nil => exact absurd hmin hlong
  | cons c l =>
    have hfirst : charAt (before ++ (c :: l ++ after)) before.length = .ok c :=
      charAt_append before c (l ++ after)
    have hone : sizeSub (before.length + (c :: l).length) 1 = before.length + l.length := by
      rw [sizeSub_of_le (by simp; omega) hsize]
      simp
    rw [hfirst, hone]
    show ∃ b, (if isLetter c then _ else _) = _ ∧ _
    by_cases hc : isLetter c
    swap
    · rw [if_neg hc]
      exact ⟨false, rfl, by simpa using fun h : Label (c :: l) => hc (by simpa using h.first)⟩
    rw [if_pos hc]
    rcases l.eq_nil_or_concat' with rfl | ⟨ldh, d, rfl⟩
    -- a label of one letter, which is also its last character: the inner loop has nothing to do
    · refine ⟨true, ?_, by simp [label_singleton, hc, minLength]⟩
      show (charAt _ before.length >>= _) = _
      rw [hfirst]
      show (if isLetDig c then _ else _) = _
      rw [if_pos (isLetDig_of_isLetter hc), scanInside, if_neg (by simp)]
      rfl
    · have hlast : charAt (before ++ (c :: (ldh ++ [d]) ++ after))
          (before.length + (ldh ++ [d]).length) = .ok d := by
        have := charAt_append (before ++ c :: ldh) d after
        simpa [Nat.add_assoc, Nat.add_comm 1] using this
      rw [hlast]
      show ∃ b, (if isLetDig d then _ else _) = _ ∧ _
      by_cases hd : isLetDig d
      swap
      · rw [if_neg hd]
        exact ⟨false, rfl, by simp [label_cons_snoc, hd]⟩
      rw [if_pos hd]
      refine ⟨ldh.all isLetDigHyp, ?_, ?_⟩
      · have := scanInside_eq ldh (before ++ [c]) (d :: after)
          ((before ++ (c :: (ldh ++ [d]) ++ after)).length + 1) (by simp; omega)
        simpa [Nat.add_assoc, Nat.add_comm 1] using this
      · rw [label_cons_snoc, List.all_eq_true]
        simp [hc, hd, minLength]

theorem scan_eq (fuel : Nat) :
    ∀ before rest : List UInt8, rest.length < fuel → (before ++ rest).length < 2 ^ 64 →
      ∃ b, scan (before ++ rest) fuel before.length = .ok b ∧ (b = true ↔ Subdomain rest) := by
  induction fuel with
  | zero => exact fun _ _ h => absurd h (Nat.not_lt_zero _)
  | succ fuel ih =>
    intro before rest hf hlen
    unfold scan
    by_cases hdot : dot ∈ rest
    · obtain ⟨l, after, rfl, hl⟩ := List.eq_append_cons_of_mem hdot
      have hmore : before.length + l.length ≠ (before ++ (l ++ dot :: after)).length := by
        simp only [List.length_append, List.length_cons]
        omega
      obtain ⟨b, hb, hlabel⟩ := scanLabel_eq hlen
      rw [findFirstOf_some hl, Option.getD_some]
      show ∃ b, (scanLabel _ _ _ >>= _) = _ ∧ _
      rw [hb, subdomain_append_dot hl]
      cases b with
      | false => exact ⟨false, rfl, by simpa using fun h : Label l => absurd h (by simpa using hlabel)⟩
      | true =>
        -- the next label starts behind the dot
        obtain ⟨c, hc, hrest⟩ := ih (before ++ (l ++ [dot])) after
          (by simp only [List.length_append, List.length_cons] at hf; omega) (by simpa using hlen)
        refine ⟨c, ?_, by rw [hrest]; exact (and_iff_right (hlabel.mp rfl)).symm⟩
        show (if _ then _ else _) = _
        rw [if_neg hmore, ← hc]
        simp [Nat.add_assoc]
    · have hlen' : (before ++ (rest ++ [])).length < 2 ^ 64 := by simpa using hlen
      obtain ⟨b, hb, hlabel⟩ := scanLabel_eq hlen'
      rw [List.append_nil] at hb
      rw [findFirstOf_none hdot, Option.getD_none, List.length_append]
      show ∃ b, (scanLabel _ _ _ >>= _) = _ ∧ _
      rw [hb, subdomain_of_dot_notMem hdot, ← hlabel]
      cases b with
      | false => exact ⟨false, rfl, Iff.rfl⟩
      | true => exact ⟨true, if_pos rfl, Iff.rfl⟩

/-- `is_valid_name` returns for every string of bytes, without a read outside the string, and
accepts exactly the names of the grammar. -/
theorem isValidName_iff_grammar (name : List UInt8) :
    ∃ b, isValidName name = .ok b ∧
      (b = true ↔ minLength ≤ name.length ∧ name.length ≤ maxLength ∧ Subdomain name) := by
  unfold isValidName
  by_cases hmin : name.length < minLength
  · rw [if_pos hmin]
    exact ⟨false, rfl, by simp [Nat.not_le.mpr hmin]⟩
  rw [if_neg hmin]
  by_cases hmax : name.length > maxLength
  · rw [if_pos hmax]
    exact ⟨false, rfl, by simp [Nat.not_le.mpr hmax]⟩
  rw [if_neg hmax]
  have hsize : name.length < 2 ^ 64 :=
    Nat.lt_of_le_of_lt (Nat.le_of_not_gt hmax) (by decide)
  obtain ⟨b, hb, hs⟩ := scan_eq (name.length + 1) [] name (Nat.lt_succ_self _) hsize
  refine ⟨b, hb, ?_⟩
  rw [hs]
  exact ⟨fun h => ⟨Nat.le_of_not_lt hmin, Nat.le_of_not_gt hmax, h⟩, fun h => h.2.2⟩

example : isValidName (['a', '.', 'b', '-', '7'].map Char.toUInt8) = .ok true := by decide

example : isValidName (['a', '.', '.', 'b'].map Char.toUInt8) = .ok false := by decide

end Meta1Core.Protocol.AccountName
