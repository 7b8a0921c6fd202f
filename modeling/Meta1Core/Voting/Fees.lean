import Meta1Core.Voting.Evaluators

/-!
# Paying out fees

What `deposit_cashback`, `pay_out_fees` and `process_fees` can do, said once, and whom an account pays
when its fees are processed.
-/

namespace Meta1Core.Voting

open Lib (Index of_bind)
open Protocol
open Vesting (VestingBalanceObject)

variable {s s' : State}

theorem account_eq_ok {id : AccountId} {a : AccountObject} :
    s.account id = .ok a ↔ s.accounts.find id = some a := by
  unfold State.account
  cases s.accounts.find id with
  | none => simp
  | some b => simp

theorem find_modifyAccount (s : State) (id : AccountId) (f : AccountObject → AccountObject)
    (id' : AccountId) : (s.modifyAccount id f).accounts.find id' =
      if id' = id then (s.accounts.find id).map f else s.accounts.find id' :=
  Index.find_modify ..

theorem isSome_find_modifyAccount (s : State) (id id' : AccountId)
    (f : AccountObject → AccountObject) :
    ((s.modifyAccount id f).accounts.find id').isSome = (s.accounts.find id').isSome := by
  rw [find_modifyAccount]
  split
  · rename_i heq
    rw [heq, Option.isSome_map]
  · rfl

theorem isSome_find_create {V : Type} (t : Index V) (v : V) {id : Nat}
    (h : (t.find id).isSome = true) : ((t.create v).find id).isSome = true := by
  rw [Index.find_create]
  split
  · rfl
  · exact h

variable {amount : Int} {requireVesting : Bool}

theorem depositLazyVesting_cases {ovbid : Option Nat} {seconds : Nat}
    {balanceType : Vesting.VestingBalanceType} {owner : AccountId} {newVbid : Option Nat}
    (hamount : amount ≠ 0)
    (h : depositLazyVesting ovbid amount seconds balanceType owner requireVesting s =
      .ok (newVbid, s')) : (∃ id vbo, ovbid = some id ∧ newVbid = none ∧
      s' = { s with vestingBalances := s.vestingBalances.modify id fun _ => vbo }) ∨
    ∃ vbo, newVbid = some s.vestingBalances.next ∧
      s' = { s with vestingBalances := s.vestingBalances.create vbo } := by
  unfold depositLazyVesting at h
  rw [if_neg hamount] at h
  obtain ⟨target, htarget, h⟩ := of_bind h
  cases target with
  | none =>
    obtain ⟨seconds', -, h⟩ := of_bind h
    cases h
    exact .inr ⟨_, rfl, rfl⟩
  | some e =>
    obtain ⟨vbo, -, h⟩ := of_bind h
    cases h
    refine .inl ⟨e.1, vbo, ?_, rfl, rfl⟩
    unfold Vesting.lazyTarget at htarget
    cases ovbid with
    | none => cases htarget
    | some id =>
      dsimp only at htarget
      split at htarget
      · cases htarget
      · split at htarget
        · split at htarget
          · cases htarget
            rfl
          · cases htarget
        · cases htarget

theorem depositCashback_cases {acct : AccountId}
    (h : depositCashback acct amount requireVesting s = .ok s') :
    ∃ a, s.accounts.find acct = some a ∧
      ((amount = 0 ∨ acct ∈ Vesting.blockchainAccounts) ∧
          (∃ currentSupply, s' = { s with currentSupply }) ∨
        amount ≠ 0 ∧ acct ∉ Vesting.blockchainAccounts ∧
          ((∃ id vbo, a.cashbackVb = some id ∧
              s' = { s with vestingBalances := s.vestingBalances.modify id fun _ => vbo }) ∨
            ∃ vbo, s' = { s with
              vestingBalances := s.vestingBalances.create vbo
              accounts :=
                s.accounts.modify acct (AccountObject.receives s.vestingBalances.next) })) := by
  unfold depositCashback at h
  obtain ⟨a, ha, h⟩ := of_bind h
  refine ⟨a, account_eq_ok.mp ha, ?_⟩
  by_cases hamount : amount = 0
  · rw [if_pos hamount] at h
    cases h
    exact .inl ⟨.inl hamount, s.currentSupply, rfl⟩
  rw [if_neg hamount] at h
  by_cases hchain : acct ∈ Vesting.blockchainAccounts
  · rw [if_pos hchain] at h
    obtain ⟨currentSupply, -, h⟩ := of_bind h
    cases h
    exact .inl ⟨.inr hchain, currentSupply, rfl⟩
  rw [if_neg hchain] at h
  refine .inr ⟨hamount, hchain, ?_⟩
  obtain ⟨⟨newVbid, s1⟩, hlazy, h⟩ := of_bind h
  rcases depositLazyVesting_cases hamount hlazy with ⟨id, vbo, hid, rfl, rfl⟩ | ⟨vbo, rfl, rfl⟩
  · cases h
    exact .inl ⟨id, vbo, hid, rfl⟩
  · cases h
    exact .inr ⟨vbo, rfl⟩

namespace AccountObject

def lifetimeCut (a : AccountObject) (total : Int) : Int :=
  cutFee total a.lifetimeReferrerFeePercentage

def referral (a : AccountObject) (total : Int) : Int :=
  total - cutFee total a.networkFeePercentage - a.lifetimeCut total

def referrerCut (a : AccountObject) (total : Int) : Int :=
  cutFee (a.referral total) a.referrerRewardsPercentage

def registrarCut (a : AccountObject) (total : Int) : Int := a.referral total - a.referrerCut total

def payouts (a : AccountObject) (referrer : AccountId) (total : Int) : List (AccountId × Int) :=
  [(a.lifetimeReferrer, a.lifetimeCut total), (referrer, a.referrerCut total),
    (a.registrar, a.registrarCut total)]

def withReferrer (referrer : AccountId) (a : AccountObject) : AccountObject := { a with referrer }

end AccountObject

/-- The referrer, or the lifetime referrer if he is no longer a member -/
def State.payee (s : State) (a : AccountObject) : AccountId :=
  if (s.accounts.find a.referrer).any fun r => r.isBasicAccount s.headBlockTime then
    a.lifetimeReferrer
  else a.referrer

variable {a : AccountObject}

theorem referrerOf_eq_ok {referrer : AccountId} (h : s.referrerOf a = .ok referrer) :
    referrer = s.payee a := by
  unfold State.referrerOf at h
  obtain ⟨r, hr, h⟩ := of_bind h
  cases h
  rw [State.payee, account_eq_ok.mp hr, Option.any_some]

variable {k : AccountId}

theorem payOutFees_cases {total : Int} {requireVesting : Bool}
    (h : payOutFees k total requireVesting s = .ok s') :
    ∃ a accumulatedFees s1 s2, s.accounts.find k = some a ∧
      depositCashback a.lifetimeReferrer (a.lifetimeCut total) requireVesting
        { s with
          accounts := s.accounts.modify k (AccountObject.withReferrer (s.payee a))
          accumulatedFees } = .ok s1 ∧
      depositCashback (s.payee a) (a.referrerCut total) requireVesting s1 = .ok s2 ∧
      depositCashback a.registrar (a.registrarCut total) requireVesting s2 = .ok s' := by
  unfold payOutFees at h
  obtain ⟨a, ha, h⟩ := of_bind h
  obtain ⟨referrer, hreferrer, h⟩ := of_bind h
  cases referrerOf_eq_ok hreferrer
  obtain ⟨-, h⟩ := cAssert_bind_eq_ok.mp h
  obtain ⟨rest, hrest, h⟩ := of_bind h
  obtain ⟨rfl, -⟩ := of_safe hrest
  obtain ⟨referral, hreferral, h⟩ := of_bind h
  obtain ⟨rfl, -⟩ := of_safe hreferral
  obtain ⟨accumulatedFees, -, h⟩ := of_bind h
  obtain ⟨registrarCut, hregistrar, h⟩ := of_bind h
  obtain ⟨rfl, -⟩ := of_safe hregistrar
  obtain ⟨s1, h1, h⟩ := of_bind h
  obtain ⟨s2, h2, h3⟩ := of_bind h
  exact ⟨a, accumulatedFees, s1, s2, account_eq_ok.mp ha, h1, h2, h3⟩

theorem processFees_cases (h : processFees k s = .ok s') : ∃ a, s.accounts.find k = some a ∧
      (a.statistics.hasPendingFees = false ∧ s' = s ∨
        a.statistics.hasPendingFees = true ∧ ∃ s1 s2 lifetimeFeesPaid,
          payOutFees k a.statistics.pendingFees true s = .ok s1 ∧
          payOutFees k a.statistics.pendingVestedFees false s1 = .ok s2 ∧
          s' = s2.modifyAccount k (AccountObject.settleFees lifetimeFeesPaid)) := by
  unfold processFees at h
  obtain ⟨a, ha, h⟩ := of_bind h
  refine ⟨a, account_eq_ok.mp ha, ?_⟩
  by_cases hpending : a.statistics.hasPendingFees = true
  · rw [if_neg (not_not.mpr hpending)] at h
    obtain ⟨s1, h1, h⟩ := of_bind h
    obtain ⟨s2, h2, h⟩ := of_bind h
    obtain ⟨paid, -, h⟩ := of_bind h
    obtain ⟨lifetimeFeesPaid, -, h⟩ := of_bind h
    cases h
    exact .inr ⟨hpending, s1, s2, lifetimeFeesPaid, h1, h2, rfl⟩
  · rw [if_pos hpending] at h
    cases h
    exact .inl ⟨Bool.eq_false_iff.mpr hpending, rfl⟩

theorem processFees_of_not_pending (ha : s.accounts.find k = some a)
    (hpending : a.statistics.hasPendingFees = false) : processFees k s = .ok s := by
  unfold processFees
  rw [account_eq_ok.mpr ha]
  show (if ¬a.statistics.hasPendingFees = true then _ else _) = _
  rw [if_pos (Bool.eq_false_iff.mp hpending)]
  rfl

end Meta1Core.Voting
