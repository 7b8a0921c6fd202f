import Mathlib.Tactic
import Meta1Core.Fc.Exception

/-!
# Scaling of the account registration fee

Every `accounts_per_fee_scale` registrations shift the registration fee to the left.  The next
maintenance shifts it back in one go, by the product of the two numbers.
-/

namespace Meta1Core.Accounts

open Lib (bind_eq_ok)

/-- `chain_parameters`: the `basic_fee` of `account_create_operation` and how it is scaled -/
structure ChainParameters where
  basicFee : BitVec 64
  accountsPerFeeScale : BitVec 16
  accountFeeScaleBitshifts : BitVec 8
  deriving DecidableEq

/-- What registrations and maintenances use of the global properties -/
structure Properties where
  parameters : ChainParameters
  pendingParameters : Option ChainParameters
  accountsRegisteredThisInterval : BitVec 32
  deriving DecidableEq

/-- `x <<= count`, which is undefined if the count is not less than the width -/
def shiftLeft (x : BitVec 64) (count : Nat) : Except Exception (BitVec 64) :=
  if count < 64 then .ok (x <<< count) else .error .undefined

def shiftRight (x : BitVec 64) (count : Nat) : Except Exception (BitVec 64) :=
  if count < 64 then .ok (x >>> count) else .error .undefined

def ChainParameters.divisor (p : ChainParameters) : Except Exception (BitVec 32) :=
  if p.accountsPerFeeScale = 0 then .error .undefined
  else .ok (p.accountsPerFeeScale.setWidth 32)

/-- `account_create_evaluator::do_apply`, after the account has been created -/
def accountCreate (s : Properties) : Except Exception Properties := do
  let registered := s.accountsRegisteredThisInterval + 1
  let p := s.parameters
  let divisor ← p.divisor
  if registered % divisor = 0 ∧ p.accountFeeScaleBitshifts ≠ 0 then
    let basicFee ← shiftLeft p.basicFee p.accountFeeScaleBitshifts.toNat
    return { s with parameters := { p with basicFee }, accountsRegisteredThisInterval := registered }
  else return { s with accountsRegisteredThisInterval := registered }

/-- `perform_chain_maintenance`: remove the scaling, then take over the parameters that the committee
has set. -/
def performChainMaintenance (s : Properties) : Except Exception Properties := do
  let p := s.parameters
  let divisor ← p.divisor
  let count := p.accountFeeScaleBitshifts.setWidth 32 * (s.accountsRegisteredThisInterval / divisor)
  let basicFee ← shiftRight p.basicFee count.toNat
  return {
    parameters := s.pendingParameters.getD { p with basicFee }
    pendingParameters := none
    accountsRegisteredThisInterval := 0 }

def registrations : Nat → Properties → Except Exception Properties
  | 0, s => .ok s
  | n + 1, s => registrations n s >>= accountCreate

/-! ## The state after some registrations -/

def scalings (d : Nat) : Nat → Nat
  | 0 => 0
  | n + 1 => scalings d n + if (n + 1) % 2 ^ 32 % d = 0 then 1 else 0

theorem scalings_eq {d n : Nat} (hn : n < 2 ^ 32) : scalings d n = n / d := by
  induction n with
  | zero => exact (Nat.zero_div d).symm
  | succ n ih =>
    rw [scalings, ih (Nat.lt_of_succ_lt hn), Nat.mod_eq_of_lt hn, Nat.succ_div]
    simp only [Nat.dvd_iff_mod_eq_zero]

theorem scalings_mono (d : Nat) : Monotone (scalings d) := by
  apply monotone_nat_of_le_succ
  intro n
  exact Nat.le_add_right _ _

theorem lt_of_scalings_lt {d n : Nat} (hd : 0 < d) (hd' : d < 2 ^ 16) (h : scalings d n < 64) :
    n < 2 ^ 32 := by
  by_contra hn
  have hle := scalings_mono d (show 2 ^ 32 - 1 ≤ n by omega)
  rw [scalings_eq (by omega)] at hle
  have hmany : 64 ≤ (2 ^ 32 - 1) / d := by
    rw [Nat.le_div_iff_mul_le hd]
    omega
  omega

namespace Properties

def shifts (s : Properties) : Nat := s.parameters.accountFeeScaleBitshifts.toNat

def perScale (s : Properties) : Nat := s.parameters.accountsPerFeeScale.toNat

def feeAfter (s : Properties) (n : Nat) : BitVec 64 :=
  .ofNat 64 (s.parameters.basicFee.toNat * 2 ^ (s.shifts * scalings s.perScale n))

def after (s : Properties) (n : Nat) : Properties :=
  { s with
    parameters := { s.parameters with basicFee := s.feeAfter n }
    accountsRegisteredThisInterval := .ofNat 32 n }

/-- The scalings of the first `n` registrations shift by less than the width of the fee. -/
def Shiftable (s : Properties) (n : Nat) : Prop := scalings s.perScale n = 0 ∨ s.shifts < 64

instance (s : Properties) (n : Nat) : Decidable (s.Shiftable n) :=
  inferInstanceAs (Decidable (_ ∨ _))

structure Fresh (s : Properties) : Prop where
  counter : s.accountsRegisteredThisInterval = 0
  pending : s.pendingParameters = none
  perScale : 1 ≤ s.perScale

variable {s : Properties}

theorem toNat_feeAfter (s : Properties) (n : Nat) : (s.feeAfter n).toNat =
    s.parameters.basicFee.toNat * 2 ^ (s.shifts * scalings s.perScale n) % 2 ^ 64 :=
  BitVec.toNat_ofNat _ _

theorem after_zero (h : s.Fresh) : s.after 0 = s := by
  have hfee : s.feeAfter 0 = s.parameters.basicFee := by
    apply BitVec.eq_of_toNat_eq
    rw [toNat_feeAfter, scalings, Nat.mul_zero, Nat.pow_zero, Nat.mul_one]
    exact Nat.mod_eq_of_lt s.parameters.basicFee.isLt
  unfold after
  rw [hfee]
  obtain ⟨parameters, pendingParameters, registered⟩ := s
  rw [show registered = 0 from h.counter]
  rfl

theorem divisor_eq (h : s.Fresh) :
    s.parameters.divisor = .ok (s.parameters.accountsPerFeeScale.setWidth 32) := by
  unfold ChainParameters.divisor
  rw [if_neg]
  intro hzero
  have hpos := h.perScale
  rw [perScale, hzero] at hpos
  exact absurd hpos (by decide)

theorem toNat_divisor (s : Properties) :
    (s.parameters.accountsPerFeeScale.setWidth 32).toNat = s.perScale := by
  have hlt := s.parameters.accountsPerFeeScale.isLt
  rw [BitVec.toNat_setWidth, Nat.mod_eq_of_lt (by omega)]
  rfl

theorem scales_iff (s : Properties) (n : Nat) :
    (BitVec.ofNat 32 n + 1) % s.parameters.accountsPerFeeScale.setWidth 32 = 0 ↔
      (n + 1) % 2 ^ 32 % s.perScale = 0 := by
  rw [← BitVec.toNat_inj, BitVec.toNat_umod, toNat_divisor, BitVec.toNat_add, BitVec.toNat_ofNat]
  have hone : (1 : BitVec 32).toNat = 1 := rfl
  have hzero : (0 : BitVec 32).toNat = 0 := rfl
  rw [hone, hzero, Nat.mod_add_mod]

theorem accountCreate_after (h : s.Fresh) (n : Nat) (hn : s.Shiftable n) :
    accountCreate (s.after n) =
      if s.Shiftable (n + 1) then .ok (s.after (n + 1)) else .error .undefined := by
  have hcounter : BitVec.ofNat 32 n + 1 = BitVec.ofNat 32 (n + 1) := (BitVec.ofNat_add n 1).symm
  have hzero : s.parameters.accountFeeScaleBitshifts = 0 ↔ s.shifts = 0 :=
    BitVec.toNat_inj.symm
  unfold accountCreate
  show (s.parameters.divisor >>= _) = _
  rw [divisor_eq h]
  show (if _ then _ else _) = _
  have hscales : ((s.after n).accountsRegisteredThisInterval + 1) %
      s.parameters.accountsPerFeeScale.setWidth 32 = 0 ↔ (n + 1) % 2 ^ 32 % s.perScale = 0 :=
    scales_iff s n
  have hsum : scalings s.perScale (n + 1) =
      scalings s.perScale n + if (n + 1) % 2 ^ 32 % s.perScale = 0 then 1 else 0 := rfl
  by_cases hscale : (n + 1) % 2 ^ 32 % s.perScale = 0
  · rw [if_pos hscale] at hsum
    by_cases hshifts : s.shifts = 0
    · -- shifting by nothing is skipped
      have hsame : s.feeAfter (n + 1) = s.feeAfter n := by
        unfold feeAfter
        rw [hshifts, Nat.zero_mul, Nat.zero_mul]
      rw [if_neg fun hcond => hcond.2 (hzero.mpr hshifts), if_pos (.inr (by omega))]
      unfold after
      rw [hsame, ← hcounter]
      rfl
    · rw [if_pos ⟨hscales.mpr hscale, fun heq => hshifts (hzero.mp heq)⟩]
      show (shiftLeft (s.feeAfter n) s.shifts >>= _) = _
      unfold shiftLeft
      by_cases hwidth : s.shifts < 64
      · have hfee : s.feeAfter n <<< s.shifts = s.feeAfter (n + 1) := by
          apply BitVec.eq_of_toNat_eq
          rw [BitVec.toNat_shiftLeft, Nat.shiftLeft_eq, toNat_feeAfter, toNat_feeAfter, hsum,
            Nat.mul_add, Nat.mul_one, Nat.pow_add, ← Nat.mul_assoc, Nat.mod_mul_mod]
        rw [if_pos hwidth, if_pos (.inr hwidth), hfee]
        unfold after
        rw [← hcounter]
        rfl
      · have hnot : ¬s.Shiftable (n + 1) := not_or.mpr ⟨by omega, hwidth⟩
        rw [if_neg hwidth, if_neg hnot]
        rfl
  · rw [if_neg hscale] at hsum
    replace hsum := hsum.trans (Nat.add_zero _)
    have hsame : s.feeAfter (n + 1) = s.feeAfter n := by
      unfold feeAfter
      rw [hsum]
    have hshiftable : s.Shiftable (n + 1) := by
      unfold Shiftable
      rw [hsum]
      exact hn
    rw [if_neg fun hcond => hscale (hscales.mp hcond.1), if_pos hshiftable]
    unfold after
    rw [hsame, ← hcounter]
    rfl

theorem Shiftable.mono {m n : Nat} (hmn : m ≤ n) (h : s.Shiftable n) : s.Shiftable m := by
  have hle := scalings_mono s.perScale hmn
  rcases h with hnone | hwidth
  · exact .inl (by omega)
  · exact .inr hwidth

theorem registrations_eq (h : s.Fresh) (n : Nat) : registrations n s =
    if s.Shiftable n then .ok (s.after n) else .error .undefined := by
  induction n with
  | zero =>
    rw [if_pos (.inl rfl), after_zero h]
    rfl
  | succ n ih =>
    rw [registrations, ih]
    by_cases hn : s.Shiftable n
    · rw [if_pos hn]
      exact accountCreate_after h n hn
    · rw [if_neg hn, if_neg fun hsucc => hn (hsucc.mono (Nat.le_add_right n 1))]
      rfl

def unscaleCount (s : Properties) (n : Nat) : Nat :=
  s.shifts * (n % 2 ^ 32 / s.perScale) % 2 ^ 32

theorem performChainMaintenance_after (h : s.Fresh) (n : Nat) :
    performChainMaintenance (s.after n) =
      if s.unscaleCount n < 64 then
        .ok { s with parameters :=
          { s.parameters with basicFee := s.feeAfter n >>> s.unscaleCount n } }
      else .error .undefined := by
  have hcount : (s.parameters.accountFeeScaleBitshifts.setWidth 32 * (BitVec.ofNat 32 n /
      s.parameters.accountsPerFeeScale.setWidth 32)).toNat = s.unscaleCount n := by
    have hlt := s.parameters.accountFeeScaleBitshifts.isLt
    have hshifts : (s.parameters.accountFeeScaleBitshifts.setWidth 32).toNat = s.shifts := by
      rw [BitVec.toNat_setWidth, Nat.mod_eq_of_lt (by omega)]
      rfl
    rw [BitVec.toNat_mul, BitVec.toNat_udiv, toNat_divisor, BitVec.toNat_ofNat, hshifts]
    rfl
  unfold performChainMaintenance
  show (s.parameters.divisor >>= _) = _
  rw [divisor_eq h]
  show (shiftRight (s.feeAfter n) (BitVec.toNat (s.parameters.accountFeeScaleBitshifts.setWidth 32 *
    (BitVec.ofNat 32 n / s.parameters.accountsPerFeeScale.setWidth 32))) >>= _) = _
  rw [hcount]
  unfold shiftRight
  by_cases hwidth : s.unscaleCount n < 64
  · rw [if_pos hwidth, if_pos hwidth]
    obtain ⟨parameters, pendingParameters, registered⟩ := s
    obtain ⟨rfl, rfl⟩ : registered = 0 ∧ pendingParameters = none := ⟨h.counter, h.pending⟩
    rfl
  · rw [if_neg hwidth, if_neg hwidth]
    rfl

/-! ## When the fee is restored -/

/-- The fee right after the next maintenance is the one right after the last one, and it does not
decrease on the way. -/
structure Restores (s : Properties) (n : Nat) : Prop where
  restored : ∃ s' s'', registrations n s = .ok s' ∧ performChainMaintenance s' = .ok s'' ∧
    s''.parameters.basicFee = s.parameters.basicFee
  rises : ∀ m < n, ∃ s1 s2, registrations m s = .ok s1 ∧ accountCreate s1 = .ok s2 ∧
    s1.parameters.basicFee ≤ s2.parameters.basicFee

/-- All shifts are less than the width of the fee, and no bit of the fee is lost. -/
structure Fits (s : Properties) (n : Nat) : Prop where
  left : s.Shiftable n
  right : s.unscaleCount n < 64
  fee : s.parameters.basicFee.toNat * 2 ^ (s.shifts * scalings s.perScale n) < 2 ^ 64

theorem unscaleCount_eq (h : s.Fresh) {n : Nat} (hlt : s.shifts * scalings s.perScale n < 64) :
    s.unscaleCount n = s.shifts * scalings s.perScale n := by
  unfold unscaleCount
  rcases Nat.eq_zero_or_pos s.shifts with hzero | hpos
  · rw [hzero, Nat.zero_mul, Nat.zero_mul, Nat.zero_mod]
  · have hscalings : scalings s.perScale n < 64 := (Nat.le_mul_of_pos_left _ hpos).trans_lt hlt
    have hn := lt_of_scalings_lt h.perScale s.parameters.accountsPerFeeScale.isLt hscalings
    rw [Nat.mod_eq_of_lt hn, ← scalings_eq hn]
    exact Nat.mod_eq_of_lt (by omega)

theorem restored_iff (h : s.Fresh) (n : Nat) :
    (∃ s' s'', registrations n s = .ok s' ∧ performChainMaintenance s' = .ok s'' ∧
        s''.parameters.basicFee = s.parameters.basicFee) ↔
      s.Shiftable n ∧ s.unscaleCount n < 64 ∧
        s.feeAfter n >>> s.unscaleCount n = s.parameters.basicFee := by
  rw [registrations_eq h]
  constructor
  · rintro ⟨s', s'', hcreate, hmaintain, hfee⟩
    by_cases hleft : s.Shiftable n
    · rw [if_pos hleft] at hcreate
      cases hcreate
      rw [performChainMaintenance_after h] at hmaintain
      by_cases hright : s.unscaleCount n < 64
      · rw [if_pos hright] at hmaintain
        cases hmaintain
        exact ⟨hleft, hright, hfee⟩
      · rw [if_neg hright] at hmaintain
        cases hmaintain
    · rw [if_neg hleft] at hcreate
      cases hcreate
  · rintro ⟨hleft, hright, hfee⟩
    have hmaintain := performChainMaintenance_after h n
    rw [if_pos hright] at hmaintain
    exact ⟨_, _, if_pos hleft, hmaintain, hfee⟩

theorem feeAfter_shiftRight (s : Properties) (n : Nat)
    (hlt : s.shifts * scalings s.perScale n < 64) :
    s.feeAfter n >>> (s.shifts * scalings s.perScale n) = s.parameters.basicFee ↔
      s.parameters.basicFee.toNat * 2 ^ (s.shifts * scalings s.perScale n) < 2 ^ 64 := by
  rw [← BitVec.toNat_inj, BitVec.toNat_ushiftRight, toNat_feeAfter, Nat.shiftRight_eq_div_pow]
  generalize s.parameters.basicFee.toNat = fee
  generalize s.shifts * scalings s.perScale n = k at hlt ⊢
  have hpow : 2 ^ 64 = 2 ^ (64 - k) * 2 ^ k := by
    rw [← Nat.pow_add]
    congr 1
    omega
  have hk : 0 < 2 ^ k := Nat.two_pow_pos k
  rw [hpow, Nat.mul_mod_mul_right, Nat.mul_div_cancel _ hk, Nat.mul_lt_mul_right hk]
  exact Nat.mod_eq_iff_lt (Nat.two_pow_pos _).ne'

theorem feeAfter_mono {k m n : Nat} (hkm : k ≤ m) (hmn : m ≤ n) (h : s.Fits n) :
    s.feeAfter k ≤ s.feeAfter m := by
  have hle : ∀ {i j}, i ≤ j → s.parameters.basicFee.toNat * 2 ^ (s.shifts * scalings s.perScale i) ≤
      s.parameters.basicFee.toNat * 2 ^ (s.shifts * scalings s.perScale j) := fun hij =>
    Nat.mul_le_mul_left _ (Nat.pow_le_pow_right Nat.two_pos
      (Nat.mul_le_mul_left _ (scalings_mono _ hij)))
  rw [BitVec.le_def, toNat_feeAfter, toNat_feeAfter,
    Nat.mod_eq_of_lt ((hle (hkm.trans hmn)).trans_lt h.fee),
    Nat.mod_eq_of_lt ((hle hmn).trans_lt h.fee)]
  exact hle hkm

theorem feeAfter_eq_zero {n : Nat} (h : s.parameters.basicFee.toNat = 0 ∨
    64 ≤ s.shifts * scalings s.perScale n) : s.feeAfter n = 0 := by
  apply BitVec.eq_of_toNat_eq
  rw [toNat_feeAfter]
  rcases h with hzero | hwidth
  · rw [hzero, Nat.zero_mul]
    rfl
  · exact Nat.mod_eq_zero_of_dvd (Dvd.dvd.mul_left (Nat.pow_dvd_pow 2 hwidth) _)

theorem shiftRight_feeAfter_iff (h : s.Fresh) (n : Nat) :
    s.feeAfter n >>> s.unscaleCount n = s.parameters.basicFee ↔
      s.parameters.basicFee.toNat * 2 ^ (s.shifts * scalings s.perScale n) < 2 ^ 64 := by
  by_cases hwidth : s.shifts * scalings s.perScale n < 64
  · rw [unscaleCount_eq h hwidth]
    exact feeAfter_shiftRight s n hwidth
  · rw [feeAfter_eq_zero (.inr (Nat.le_of_not_lt hwidth)), ← BitVec.toNat_inj,
      BitVec.toNat_ushiftRight]
    show 0 >>> _ = _ ↔ _
    rw [Nat.zero_shiftRight]
    constructor
    · intro hzero
      rw [← hzero, Nat.zero_mul]
      exact Nat.two_pow_pos 64
    · intro hlt
      by_contra hfee
      have hpow := Nat.pow_le_pow_right Nat.two_pos (Nat.le_of_not_lt hwidth)
      have hle := Nat.le_mul_of_pos_left (2 ^ (s.shifts * scalings s.perScale n))
        (Nat.pos_of_ne_zero (Ne.symm hfee))
      omega

end Properties

open Properties

/-- The scaling of the registration fee is undone exactly if every shift on the way is defined and no
bit of the fee is lost. -/
theorem basicFee_restored_iff {s : Properties} (h : s.Fresh) (n : Nat) :
    s.Restores n ↔ s.Fits n := by
  constructor
  · intro hrestores
    obtain ⟨hleft, hright, hfee⟩ := (restored_iff h n).mp hrestores.restored
    exact ⟨hleft, hright, (shiftRight_feeAfter_iff h n).mp hfee⟩
  · intro hfits
    refine ⟨(restored_iff h n).mpr ⟨hfits.left, hfits.right, ?_⟩, ?_⟩
    · exact (shiftRight_feeAfter_iff h n).mpr hfits.fee
    · intro m hm
      have hleft := hfits.left.mono (Nat.le_of_lt hm)
      refine ⟨s.after m, s.after (m + 1), ?_, ?_, feeAfter_mono (Nat.le_add_right m 1) hm hfits⟩
      · rw [registrations_eq h, if_pos hleft]
      · rw [accountCreate_after h m hleft, if_pos (hfits.left.mono hm)]

/-- The default parameters: a fee of 5 in units of 10^-5, shifted by 4 bits every 1000 registrations
-/
def defaults : Properties where
  parameters := ⟨500000, 1000, 4⟩
  pendingParameters := none
  accountsRegisteredThisInterval := 0

theorem defaults_fresh : defaults.Fresh := ⟨rfl, rfl, by decide⟩

theorem basicFee_restored_defaults : defaults.Restores 3000 :=
  (basicFee_restored_iff defaults_fresh 3000).mpr
    ⟨.inr (by decide), by decide, by
      rw [scalings_eq (by decide)]
      decide⟩

/-- After 12000 registrations in one interval, 16 bits of the default fee are left. -/
theorem basicFee_lost : defaults.Fresh ∧ ¬defaults.Restores 12000 ∧
    ∃ s' s'', registrations 12000 defaults = .ok s' ∧ performChainMaintenance s' = .ok s'' ∧
      s''.parameters.basicFee = 41248 := by
  have hleft : defaults.Shiftable 12000 := .inr (by decide)
  have hright : defaults.unscaleCount 12000 < 64 := by decide
  have hfee : defaults.feeAfter 12000 >>> defaults.unscaleCount 12000 = 41248 := by
    unfold feeAfter
    rw [scalings_eq (by decide)]
    decide
  refine ⟨defaults_fresh, fun hrestores => ?_, ?_⟩
  · have hback := ((restored_iff defaults_fresh 12000).mp hrestores.restored).2.2
    rw [hfee] at hback
    exact absurd hback (by decide)
  · have hcreate := registrations_eq defaults_fresh 12000
    have hmaintain := performChainMaintenance_after defaults_fresh 12000
    rw [if_pos hleft] at hcreate
    rw [if_pos hright] at hmaintain
    exact ⟨_, _, hcreate, hmaintain, hfee⟩

end Meta1Core.Accounts
