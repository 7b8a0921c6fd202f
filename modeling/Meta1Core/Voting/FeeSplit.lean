import Meta1Core.Voting.Cashback

/-!
# The split of the fees (`process_fees`)

The cuts are parts of the fee that add up to it, and they all arrive: at the network, in a vesting
balance of the account they are for, or in the reserve.
-/

namespace Meta1Core.Voting

open Lib (Index bind_eq_ok of_bind)
open Protocol
open Vesting (VestingBalanceObject Usable IsShare blockchainAccounts)

variable {s s' : State}

theorem cutFee_eq {a : Int} (hnonneg : 0 ≤ a) (hsmall : a < 2 ^ 63) {p : Nat}
    (hp : p ≤ percent100) : cutFee a p = a * p / percent100 := by
  obtain ⟨n, rfl⟩ := Int.eq_ofNat_of_zero_le hnonneg
  unfold percent100 at hp
  have hmul : n * p ≤ n * 10000 := Nat.mul_le_mul_left n hp
  unfold cutFee percent100
  split
  · rename_i hzero
    rcases hzero with hzero | hzero
    · rw [hzero]
      norm_num
    · rw [hzero]
      norm_num
  split
  · rename_i hall
    rw [hall]
    omega
  have hn : uint128 (n : Int) = n := uint128_natCast (by omega)
  have hproduct : uint128 ((n * p : Nat) : Int) = n * p := uint128_natCast (by omega)
  have hdiv : n * p / 10000 ≤ n := Nat.div_le_of_le_mul (by omega)
  rw [hn, ← Nat.cast_mul, hproduct, Nat.mod_eq_of_lt (by omega), int64Cast_of_lt (by omega)]
  norm_num

theorem cutFee_bounds {a : Int} (hnonneg : 0 ≤ a) (hsmall : a < 2 ^ 63) {p : Nat}
    (hp : p ≤ percent100) : 0 ≤ cutFee a p ∧ cutFee a p ≤ a := by
  have hp' : (p : Int) ≤ percent100 := by exact_mod_cast hp
  have hpos : (0 : Int) < percent100 := by decide
  rw [cutFee_eq hnonneg hsmall hp]
  constructor
  · exact Int.ediv_nonneg (Int.mul_nonneg hnonneg (by omega)) hpos.le
  · apply Int.ediv_le_of_le_mul hpos
    exact Int.mul_le_mul_of_nonneg_left hp' hnonneg

theorem cutFee_add_le {a : Int} (hnonneg : 0 ≤ a) (hsmall : a < 2 ^ 63) {p q : Nat}
    (hsum : p + q ≤ percent100) : cutFee a p + cutFee a q ≤ a := by
  have hpos : (0 : Int) < percent100 := by decide
  have hsum' : (p : Int) + q ≤ percent100 := by exact_mod_cast hsum
  rw [cutFee_eq hnonneg hsmall (by omega), cutFee_eq hnonneg hsmall (by omega)]
  calc a * p / percent100 + a * q / percent100
      ≤ (a * p + a * q) / percent100 := by
        rw [Int.le_ediv_iff_mul_le hpos, Int.add_mul]
        exact add_le_add (Int.ediv_mul_le _ hpos.ne') (Int.ediv_mul_le _ hpos.ne')
    _ ≤ a := by
        rw [← Int.mul_add]
        exact Int.ediv_le_of_le_mul hpos (Int.mul_le_mul_of_nonneg_left hsum' hnonneg)

namespace AccountObject

def networkCut (a : AccountObject) (total : Int) : Int := cutFee total a.networkFeePercentage

structure Percentages (a : AccountObject) : Prop where
  fee : a.networkFeePercentage + a.lifetimeReferrerFeePercentage ≤ percent100
  rewards : a.referrerRewardsPercentage ≤ percent100

/-- The cuts are parts of the total and add up to it; the network's is divided once more, for any
`reserve_percent_of_fee`. -/
structure Splits (a : AccountObject) (total : Int) : Prop where
  network : 0 ≤ a.networkCut total
  lifetime : 0 ≤ a.lifetimeCut total
  referrer : 0 ≤ a.referrerCut total
  registrar : 0 ≤ a.registrarCut total
  sum : a.networkCut total + a.lifetimeCut total + a.referrerCut total + a.registrarCut total = total
  accumulated : ∀ reservePercentOfFee ≤ percent100,
    0 ≤ cutFee (a.networkCut total) reservePercentOfFee ∧
      cutFee (a.networkCut total) reservePercentOfFee ≤ a.networkCut total

variable {a : AccountObject} {total : Int}

def terms (a : AccountObject) : AccountObject :=
  { a with
    name := ""
    membershipExpirationDate := 0
    options := {}
    coreBalance := none
    cashbackVb := none
    statistics := {
      lifetimeFeesPaid := a.statistics.lifetimeFeesPaid
      pendingFees := a.statistics.pendingFees
      pendingVestedFees := a.statistics.pendingVestedFees } }

theorem terms_eq_of_kept_eq {a b : AccountObject} (h : b.kept = a.kept) : b.terms = a.terms := by
  have hterms : b.kept.terms = a.kept.terms := congrArg terms h
  exact hterms

theorem Percentages.of_terms {b : AccountObject} (h : a.Percentages) (hb : b.terms = a.terms) :
    b.Percentages := by
  have hterms : b.terms.Percentages := hb ▸ ⟨h.fee, h.rewards⟩
  exact ⟨hterms.fee, hterms.rewards⟩

theorem Percentages.splits (h : a.Percentages) (hnonneg : 0 ≤ total) (hsmall : total < 2 ^ 63) :
    a.Splits total := by
  have hfee := h.fee
  obtain ⟨hnetwork, hnetwork_le⟩ :=
    cutFee_bounds hnonneg hsmall (Nat.le_trans (Nat.le_add_right ..) hfee)
  obtain ⟨hlifetime, -⟩ := cutFee_bounds hnonneg hsmall (Nat.le_trans (Nat.le_add_left ..) hfee)
  have hboth := cutFee_add_le hnonneg hsmall hfee
  have hreferral : 0 ≤ a.referral total ∧ a.referral total < 2 ^ 63 := by
    unfold referral lifetimeCut
    omega
  obtain ⟨hreferrer, hreferrer_le⟩ := cutFee_bounds hreferral.1 hreferral.2 h.rewards
  refine ⟨hnetwork, hlifetime, hreferrer, ?_, ?_, fun p hp => ?_⟩
  · exact Int.sub_nonneg_of_le hreferrer_le
  · unfold registrarCut referral networkCut
    omega
  · exact cutFee_bounds hnetwork (lt_of_le_of_lt hnetwork_le hsmall) hp

/-- What everybody is due when the total is paid out -/
def dues (a : AccountObject) (referrer : AccountId) (total : Int) : Dues :=
  (a.networkCut total, 0) + due a.lifetimeReferrer (a.lifetimeCut total) +
    due referrer (a.referrerCut total) + due a.registrar (a.registrarCut total)

theorem Splits.dues_nonneg (h : a.Splits total) (referrer : AccountId) :
    0 ≤ a.dues referrer total := by
  have hnetwork : 0 ≤ ((a.networkCut total, 0) : Dues) := ⟨h.network, le_refl _⟩
  have hlifetime := Dues.add_nonneg hnetwork
    (Dues.due_nonneg h.lifetime : 0 ≤ due a.lifetimeReferrer (a.lifetimeCut total))
  have hreferrer := Dues.add_nonneg hlifetime
    (Dues.due_nonneg h.referrer : 0 ≤ due referrer (a.referrerCut total))
  exact Dues.add_nonneg hreferrer (Dues.due_nonneg h.registrar)

/-- The products of 64 bits of the deposits that `pay_out_fees` makes -/
def ProductsFit (s : State) (a : AccountObject) (referrer : AccountId) (total : Int)
    (requireVesting : Bool) : Prop :=
  ∀ e ∈ a.payouts referrer total, ProductFits s e.1 e.2 requireVesting

end AccountObject

/-- `pay_out_fees` before it deposits anything: the referrer and the fees of the network -/
def payNetwork (k : AccountId) (referrer : AccountId) (networkCut : Int) (s : State) :
    Except Exception State := do
  let accumulatedFees ← safe (s.accumulatedFees + networkCut)
  return { s with
    accounts := s.accounts.modify k (AccountObject.withReferrer referrer)
    accumulatedFees }

section

variable {k : AccountId} {a : AccountObject} {total : Int} {requireVesting : Bool}

theorem referrerOf_of_isSome (hreferrer : (s.accounts.find a.referrer).isSome = true) :
    s.referrerOf a = .ok (s.payee a) := by
  obtain ⟨r, hr⟩ := Option.isSome_iff_exists.mp hreferrer
  unfold State.referrerOf State.payee
  rw [account_eq_ok.mpr hr, hr]
  rfl

theorem payOutFees_eq (ha : s.accounts.find k = some a)
    (hreferrer : (s.accounts.find a.referrer).isSome = true) (hsplits : a.Splits total)
    (hsmall : total < 2 ^ 63) :
    payOutFees k total requireVesting s =
      (((payNetwork k (s.payee a) (a.networkCut total) s >>=
        depositCashback a.lifetimeReferrer (a.lifetimeCut total) requireVesting) >>=
        depositCashback (s.payee a) (a.referrerCut total) requireVesting) >>=
        depositCashback a.registrar (a.registrarCut total) requireVesting) := by
  obtain ⟨hnetwork, hlifetime, hreferrer_cut, hregistrar, hsum, -⟩ := hsplits
  have hregistrar' : a.registrarCut total = a.referral total - a.referrerCut total := rfl
  have hrest : safe (total - a.networkCut total) = .ok (total - a.networkCut total) :=
    safe_eq_ok.mpr ⟨rfl, by omega, by omega⟩
  have hreferral : safe (total - a.networkCut total - a.lifetimeCut total) =
      .ok (a.referral total) := safe_eq_ok.mpr ⟨rfl, by omega, by omega⟩
  have hremains : safe (a.referral total - a.referrerCut total) = .ok (a.registrarCut total) :=
    safe_eq_ok.mpr ⟨rfl, by omega, by omega⟩
  unfold payOutFees payNetwork
  rw [account_eq_ok.mpr ha]
  show (s.referrerOf a >>= _) = _
  rw [referrerOf_of_isSome hreferrer]
  show (cAssert (a.networkCut total ≤ total) _ >>= _) = _
  rw [cAssert_of (by omega)]
  show (safe (total - a.networkCut total) >>= _) = _
  rw [hrest]
  show (safe (total - a.networkCut total - a.lifetimeCut total) >>= _) = _
  rw [hreferral]
  show (safe (s.accumulatedFees + a.networkCut total) >>= _) = _
  cases safe (s.accumulatedFees + a.networkCut total) with
  | error e => rfl
  | ok accumulatedFees =>
    show (safe (a.referral total - a.referrerCut total) >>= _) = _
    rw [hremains]
    show (depositCashback a.lifetimeReferrer (a.lifetimeCut total) requireVesting _ >>= _) =
      ((depositCashback a.lifetimeReferrer (a.lifetimeCut total) requireVesting _ >>= _) >>= _)
    rw [bind_assoc]
    rfl

theorem Payable.pays_payNetwork (h : Payable s) (k referrer : AccountId) {networkCut : Int}
    (hnonneg : 0 ≤ networkCut) :
    Pays True ((networkCut, 0) : Dues) s (payNetwork k referrer networkCut s) := by
  have hzero := h.room_zero
  have hreserve : Dues.toReserve ((networkCut, 0) : Dues) = 0 := rfl
  have hroom : Room ((networkCut, 0) : Dues) s ↔ s.accumulatedFees + networkCut < 2 ^ 63 :=
    ⟨fun hroom => hroom.accumulatedFees,
      fun hlt => ⟨hlt, hzero.currentSupply, hzero.openBalance⟩⟩
  refine ⟨⟨?_, ?_⟩, ?_⟩
  · rintro ⟨s', hs'⟩
    obtain ⟨accumulatedFees, hsafe, -⟩ := of_bind hs'
    exact ⟨trivial, hroom.mpr (of_safe hsafe).2.2⟩
  · rintro ⟨-, hroom'⟩
    have hfees := h.accumulatedFees.1
    have hsafe : safe (s.accumulatedFees + networkCut) = .ok (s.accumulatedFees + networkCut) :=
      safe_eq_ok.mpr ⟨rfl, by omega, hroom.mp hroom'⟩
    exact ⟨_, bind_eq_ok.mpr ⟨_, hsafe, rfl⟩⟩
  · intro s' hs'
    obtain ⟨accumulatedFees, hsafe, hs'⟩ := of_bind hs'
    cases hs'
    obtain ⟨rfl, hrange⟩ := of_safe hsafe
    have hfind := Index.find_modify s.accounts k (AccountObject.withReferrer referrer)
    -- what `deposit_cashback` looks at stays
    have hold : ∀ y, ((s.accounts.modify k (AccountObject.withReferrer referrer)).find y).map
        AccountObject.cashbackVb = (s.accounts.find y).map AccountObject.cashbackVb := by
      intro y
      rw [hfind]
      split
      · rename_i heq
        rw [heq, Option.map_map]
        rfl
      · rfl
    constructor
    · constructor
      case stable =>
        intro id
        show ((s.accounts.modify k (AccountObject.withReferrer referrer)).find id).map _ = _
        rw [hfind]
        split
        · rename_i heq
          rw [heq, Option.map_map]
          rfl
        · rfl
      case parameters => rfl
      case accumulatedFees => rfl
      case currentSupply => exact (sub_zero _).symm
      case openBalance =>
        intro y _
        show _ = s.openBalance y + 0
        rw [add_zero]
        exact openBalance_congr (hold y) rfl fun _ _ => rfl
      case vested =>
        intro y
        show s.vested y = s.vested y + if y ∈ blockchainAccounts then 0 else 0
        rw [ite_self, add_zero]
    · refine ⟨fun y b id hb hid => ?_, h.currentSupply, hrange⟩
      have hreference := hold y
      rw [show (s.accounts.modify k (AccountObject.withReferrer referrer)).find y = some b from hb]
        at hreference
      obtain ⟨b', hb', hsame⟩ := Option.map_eq_some_iff.mp hreference.symm
      exact h.usable y b' id hb' (hsame.trans hid)

structure AccountObject.Parties (s : State) (a : AccountObject) : Prop where
  registrar : (s.accounts.find a.registrar).isSome = true
  referrer : (s.accounts.find a.referrer).isSome = true
  lifetimeReferrer : (s.accounts.find a.lifetimeReferrer).isSome = true

theorem AccountObject.Parties.payee (h : a.Parties s) :
    (s.accounts.find (s.payee a)).isSome = true := by
  unfold State.payee
  split
  · exact h.lifetimeReferrer
  · exact h.referrer

theorem AccountObject.Parties.congr (h : a.Parties s)
    (hsome : ∀ x, (s'.accounts.find x).isSome = (s.accounts.find x).isSome) : a.Parties s' :=
  ⟨(hsome _).trans h.registrar, (hsome _).trans h.referrer, (hsome _).trans h.lifetimeReferrer⟩

theorem AccountObject.Parties.of_terms {b : AccountObject} (h : a.Parties s)
    (hb : b.terms = a.terms) : b.Parties s := by
  have hterms : b.terms.Parties s := hb ▸ ⟨h.registrar, h.referrer, h.lifetimeReferrer⟩
  exact ⟨hterms.registrar, hterms.referrer, hterms.lifetimeReferrer⟩

theorem AccountObject.Parties.withPayee (h : a.Parties s) :
    (a.withReferrer (s.payee a)).Parties s :=
  ⟨h.registrar, h.payee, h.lifetimeReferrer⟩

theorem Deposited.pays_depositCashback {d : Dues} (h : Deposited d s s') (hpayable : Payable s')
    {x : AccountId} (hx : (s.accounts.find x).isSome = true) {amount : Int} (hnonneg : 0 ≤ amount)
    (hsmall : amount < 2 ^ 63) (requireVesting : Bool) :
    Pays (ProductFits s x amount requireVesting) (due x amount) s'
      (depositCashback x amount requireVesting s') := by
  obtain ⟨b, hb⟩ := Option.isSome_iff_exists.mp hx
  have hstable := h.stable x
  rw [hb] at hstable
  obtain ⟨b', hb', -⟩ := Option.map_eq_some_iff.mp hstable
  have hpays := hpayable.pays_depositCashback hb' hnonneg hsmall requireVesting
  unfold ProductFits at hpays ⊢
  rw [h.parameters] at hpays
  exact hpays

theorem Payable.pays_payOutFees (h : Payable s) (ha : s.accounts.find k = some a)
    (hparties : a.Parties s) (hsplits : a.Splits total) (hsmall : total < 2 ^ 63)
    (requireVesting : Bool) :
    Pays (a.ProductsFit s (s.payee a) total requireVesting) (a.dues (s.payee a) total) s
      (payOutFees k total requireVesting s) := by
  have hsum := hsplits.sum
  have hnetwork := hsplits.network
  have hlifetime := hsplits.lifetime
  have hreferrer := hsplits.referrer
  have hregistrar := hsplits.registrar
  have hfirst := h.pays_payNetwork k (s.payee a) hnetwork
  have hsecond := hfirst.bind (Dues.due_nonneg hlifetime) fun s' _ hdeposited hpayable =>
    hdeposited.pays_depositCashback hpayable hparties.lifetimeReferrer hlifetime
      (by omega) requireVesting
  have hthird := hsecond.bind (Dues.due_nonneg hreferrer) fun s' _ hdeposited hpayable =>
    hdeposited.pays_depositCashback hpayable hparties.payee hreferrer (by omega) requireVesting
  have hfourth := hthird.bind (Dues.due_nonneg hregistrar) fun s' _ hdeposited hpayable =>
    hdeposited.pays_depositCashback hpayable hparties.registrar hregistrar (by omega)
      requireVesting
  rw [payOutFees_eq ha hparties.referrer hsplits hsmall]
  have hconditions : a.ProductsFit s (s.payee a) total requireVesting ↔
      ((True ∧ ProductFits s a.lifetimeReferrer (a.lifetimeCut total) requireVesting) ∧
        ProductFits s (s.payee a) (a.referrerCut total) requireVesting) ∧
        ProductFits s a.registrar (a.registrarCut total) requireVesting := by
    unfold AccountObject.ProductsFit AccountObject.payouts
    rw [List.forall_mem_cons, List.forall_mem_cons, List.forall_mem_singleton]
    tauto
  rw [hconditions]
  exact hfourth

end

namespace AccountObject

structure Counts (a : AccountObject) : Prop where
  pendingFees : 0 ≤ a.statistics.pendingFees ∧ a.statistics.pendingFees < 2 ^ 63
  pendingVestedFees : 0 ≤ a.statistics.pendingVestedFees ∧ a.statistics.pendingVestedFees < 2 ^ 63
  lifetimeFeesPaid : 0 ≤ a.statistics.lifetimeFeesPaid ∧ a.statistics.lifetimeFeesPaid < 2 ^ 63

theorem Counts.of_terms {a b : AccountObject} (h : a.Counts) (hb : b.terms = a.terms) :
    b.Counts := by
  have hterms : b.terms.Counts :=
    hb ▸ ⟨h.pendingFees, h.pendingVestedFees, h.lifetimeFeesPaid⟩
  exact ⟨hterms.pendingFees, hterms.pendingVestedFees, hterms.lifetimeFeesPaid⟩

def allFees (a : AccountObject) : Int := a.statistics.pendingFees + a.statistics.pendingVestedFees

/-- What everybody is due when the fees of an account are processed -/
def pendingDues (a : AccountObject) (referrer : AccountId) : Dues :=
  a.dues referrer a.statistics.pendingFees + a.dues referrer a.statistics.pendingVestedFees

theorem Splits.cuts_zero {a : AccountObject} (h : a.Splits 0) :
    a.networkCut 0 = 0 ∧ a.lifetimeCut 0 = 0 ∧ a.referrerCut 0 = 0 ∧ a.registrarCut 0 = 0 := by
  obtain ⟨hnetwork, hlifetime, hreferrer, hregistrar, hsum, -⟩ := h
  omega

theorem Splits.dues_zero {a : AccountObject} (h : a.Splits 0) (referrer : AccountId) :
    a.dues referrer 0 = 0 := by
  obtain ⟨hnetwork, hlifetime, hreferrer, hregistrar⟩ := h.cuts_zero
  unfold dues
  rw [hnetwork, hlifetime, hreferrer, hregistrar, Dues.due_zero, Dues.due_zero, Dues.due_zero]
  rfl

theorem Splits.productsFit_zero {a : AccountObject} (h : a.Splits 0) (referrer : AccountId)
    (requireVesting : Bool) : a.ProductsFit s referrer 0 requireVesting := by
  obtain ⟨-, hlifetime, hreferrer, hregistrar⟩ := h.cuts_zero
  have hzero : ∀ x, ProductFits s x 0 requireVesting := by
    intro x
    refine .inr (.inr ?_)
    rw [zero_mul]
    norm_num
  unfold ProductsFit payouts
  rw [hlifetime, hreferrer, hregistrar, List.forall_mem_cons, List.forall_mem_cons,
    List.forall_mem_singleton]
  exact ⟨hzero _, hzero _, hzero _⟩

end AccountObject

/-- The fees of an account have arrived where they belong, and its counters are reset. -/
structure Conserved (k : AccountId) (a : AccountObject) (s s' : State) : Prop where
  deposited : Deposited (a.pendingDues (s.payee a)) s s'
  reset : ∃ b, s'.accounts.find k = some b ∧ b.statistics.pendingFees = 0 ∧
    b.statistics.pendingVestedFees = 0 ∧
    b.statistics.lifetimeFeesPaid = a.statistics.lifetimeFeesPaid + a.allFees

/-- The fees of an account can be processed: the products of 64 bits and all sums fit. -/
structure FeesFit (s : State) (a : AccountObject) : Prop where
  products : a.ProductsFit s (s.payee a) a.statistics.pendingVestedFees false
  room : Room (a.pendingDues (s.payee a)) s
  lifetimeFeesPaid : a.statistics.lifetimeFeesPaid + a.allFees < 2 ^ 63

theorem Deposited.settle {d : Dues} (h : Deposited d s s') (k : AccountId) (lifetimeFeesPaid : Int) :
    Deposited d s (s'.modifyAccount k (AccountObject.settleFees lifetimeFeesPaid)) := by
  have hfind := find_modifyAccount s' k (AccountObject.settleFees lifetimeFeesPaid)
  constructor
  case stable =>
    intro id
    rw [hfind, ← h.stable id]
    split
    · rename_i heq
      rw [heq, Option.map_map]
      rfl
    · rfl
  case parameters => exact h.parameters
  case accumulatedFees => exact h.accumulatedFees
  case currentSupply => exact h.currentSupply
  case openBalance =>
    intro y hy
    rw [← h.openBalance y hy]
    refine openBalance_congr ?_ rfl fun _ _ => rfl
    rw [hfind]
    split
    · rename_i heq
      rw [heq, Option.map_map]
      rfl
    · rfl
  case vested => exact h.vested

theorem Payable.pays_both (h : Payable s) {k : AccountId} {a : AccountObject}
    (ha : s.accounts.find k = some a) (hpercentages : a.Percentages)
    (hparties : a.Parties s) (hcounts : a.Counts) :
    Pays (a.ProductsFit s (s.payee a) a.statistics.pendingFees true ∧
        a.ProductsFit s (s.payee a) a.statistics.pendingVestedFees false)
      (a.pendingDues (s.payee a)) s
      (payOutFees k a.statistics.pendingFees true s >>=
        payOutFees k a.statistics.pendingVestedFees false) := by
  obtain ⟨hpending, hvested, -⟩ := hcounts
  have hsplits := hpercentages.splits hpending.1 hpending.2
  have hsplits' := hpercentages.splits hvested.1 hvested.2
  have hfirst := h.pays_payOutFees ha hparties hsplits hpending.2 true
  refine hfirst.bind (hsplits'.dues_nonneg _) fun s' hs' hdeposited hpayable => ?_
  -- the account is the same but for the referrer, who has become the payee
  obtain ⟨hsettled, b, hb, hkept⟩ := settled_payOutFees ha hs'
  have hpayee : s'.payee b = s.payee a := hsettled.payee_withReferrer hkept
  have hpercentages_b : b.Percentages :=
    (⟨hpercentages.fee, hpercentages.rewards⟩ :
      (a.withReferrer (s.payee a)).Percentages).of_terms (AccountObject.terms_eq_of_kept_eq hkept)
  have hparties_b : b.Parties s' :=
    (hparties.withPayee.of_terms (AccountObject.terms_eq_of_kept_eq hkept)).congr hsettled.isSome_find
  have hsecond := hpayable.pays_payOutFees hb hparties_b
    (hpercentages_b.splits hvested.1 hvested.2) hvested.2 false
  have hdues : b.dues (s.payee a) a.statistics.pendingVestedFees =
      a.dues (s.payee a) a.statistics.pendingVestedFees := by
    have hsame : b.kept.dues (s.payee a) a.statistics.pendingVestedFees =
        (a.withReferrer (s.payee a)).kept.dues (s.payee a) a.statistics.pendingVestedFees := by
      rw [hkept]
    exact hsame
  have hproducts : b.ProductsFit s' (s.payee a) a.statistics.pendingVestedFees false ↔
      a.ProductsFit s (s.payee a) a.statistics.pendingVestedFees false := by
    have hsame : b.kept.payouts (s.payee a) a.statistics.pendingVestedFees =
        (a.withReferrer (s.payee a)).kept.payouts (s.payee a) a.statistics.pendingVestedFees := by
      rw [hkept]
    unfold AccountObject.ProductsFit ProductFits
    rw [hdeposited.parameters, show b.payouts (s.payee a) a.statistics.pendingVestedFees =
      a.payouts (s.payee a) a.statistics.pendingVestedFees from hsame]
  rw [hpayee, hdues, hproducts] at hsecond
  exact hsecond

theorem Payable.processFees_isOk_iff (h : Payable s) {k : AccountId} {a : AccountObject}
    (ha : s.accounts.find k = some a) (hpercentages : a.Percentages)
    (hparties : a.Parties s) (hcounts : a.Counts) :
    ((∃ s', processFees k s = .ok s') ↔ FeesFit s a) ∧
      ∀ s', processFees k s = .ok s' → Conserved k a s s' ∧ Payable s' := by
  have hboth := h.pays_both ha hpercentages hparties hcounts
  obtain ⟨hpending, hvested, hlifetime⟩ := hcounts
  by_cases hfees : a.statistics.hasPendingFees = true
  · have hok : processFees k s = (payOutFees k a.statistics.pendingFees true s >>=
        payOutFees k a.statistics.pendingVestedFees false) >>= fun s2 =>
          safe a.allFees >>= fun paid =>
            safe (a.statistics.lifetimeFeesPaid + paid) >>= fun lifetimeFeesPaid =>
              .ok (s2.modifyAccount k (AccountObject.settleFees lifetimeFeesPaid)) := by
      unfold processFees
      rw [account_eq_ok.mpr ha, bind_assoc]
      exact if_neg (not_not.mpr hfees)
    rw [hok]
    constructor
    · constructor
      · rintro ⟨s', hs'⟩
        obtain ⟨s2, hs2, hs'⟩ := of_bind hs'
        obtain ⟨paid, hpaid, hs'⟩ := of_bind hs'
        obtain ⟨rfl, -⟩ := of_safe hpaid
        obtain ⟨lifetimeFeesPaid, htotal, -⟩ := of_bind hs'
        obtain ⟨⟨-, hproducts⟩, hroom⟩ := hboth.1.mp ⟨s2, hs2⟩
        exact ⟨hproducts, hroom, (of_safe htotal).2.2⟩
      · rintro ⟨hproducts, hroom, htotal⟩
        obtain ⟨s2, hs2⟩ := hboth.1.mpr ⟨⟨fun _ _ => .inl rfl, hproducts⟩, hroom⟩
        have hall : 0 ≤ a.allFees := Int.add_nonneg hpending.1 hvested.1
        have hpaid : safe a.allFees = .ok a.allFees := safe_eq_ok.mpr ⟨rfl, by omega, by omega⟩
        have htotal' : safe (a.statistics.lifetimeFeesPaid + a.allFees) =
            .ok (a.statistics.lifetimeFeesPaid + a.allFees) :=
          safe_eq_ok.mpr ⟨rfl, by omega, htotal⟩
        exact ⟨_, bind_eq_ok.mpr ⟨s2, hs2, bind_eq_ok.mpr ⟨_, hpaid,
          bind_eq_ok.mpr ⟨_, htotal', rfl⟩⟩⟩⟩
    · intro s' hs'
      obtain ⟨s2, hs2, hs'⟩ := of_bind hs'
      obtain ⟨paid, hpaid, hs'⟩ := of_bind hs'
      obtain ⟨rfl, -⟩ := of_safe hpaid
      obtain ⟨lifetimeFeesPaid, htotal, hs'⟩ := of_bind hs'
      obtain ⟨rfl, -⟩ := of_safe htotal
      cases hs'
      obtain ⟨hdeposited, hpayable⟩ := hboth.2 s2 hs2
      have hstable := hdeposited.stable k
      rw [ha] at hstable
      obtain ⟨b, hb, -⟩ := Option.map_eq_some_iff.mp hstable
      have hfind := find_modifyAccount s2 k
        (AccountObject.settleFees (a.statistics.lifetimeFeesPaid + a.allFees))
      refine ⟨⟨hdeposited.settle k _, b.settleFees _, ?_, rfl, rfl, rfl⟩, ?_⟩
      · rw [hfind, if_pos rfl, hb]
        rfl
      · refine ⟨fun y b' id hb' hid => ?_, hpayable.currentSupply, hpayable.accumulatedFees⟩
        rw [hfind] at hb'
        split at hb'
        · rename_i heq
          rw [hb] at hb'
          cases hb'
          exact hpayable.usable k b id hb hid
        · exact hpayable.usable y b' id hb' hid
  · -- without pending fees there is nothing to do, and nothing is due
    have hok := processFees_of_not_pending ha (Bool.eq_false_iff.mpr hfees)
    have hnone : a.statistics.pendingFees = 0 ∧ a.statistics.pendingVestedFees = 0 := by
      unfold AccountStatistics.hasPendingFees at hfees
      rw [decide_eq_true_iff, not_or] at hfees
      omega
    have hsplits : a.Splits 0 := hpercentages.splits (le_refl 0) (by norm_num)
    have hdues : ∀ referrer, a.pendingDues referrer = 0 := by
      intro referrer
      unfold AccountObject.pendingDues
      rw [hnone.1, hnone.2, hsplits.dues_zero]
      rfl
    have hall : a.allFees = 0 := by
      unfold AccountObject.allFees
      omega
    rw [hok]
    refine ⟨iff_of_true ⟨s, rfl⟩ ⟨?_, ?_, ?_⟩, ?_⟩
    · rw [hnone.2]
      exact hsplits.productsFit_zero _ _
    · rw [hdues]
      exact h.room_zero
    · rw [hall, add_zero]
      exact hlifetime.2
    · rintro s' hs'
      cases hs'
      refine ⟨⟨?_, a, ha, hnone.1, hnone.2, ?_⟩, h⟩
      · rw [hdues]
        exact .refl s
      · rw [hall, add_zero]

end Meta1Core.Voting
