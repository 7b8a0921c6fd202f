import Meta1Core.Voting.Fees

/-!
# What processing fees changes

Processing the fees of an account writes to its own fee counters and to its referrer, and it may
give the first cashback balance to those whom it pays.
-/

namespace Meta1Core.Voting

open Lib (Index)
open Protocol

variable {s s' s'' : State}

namespace AccountObject

/-- What stays when the fees of other accounts are processed -/
def kept (a : AccountObject) : AccountObject :=
  { a with cashbackVb := none, statistics := { a.statistics with hasCashbackVb := false } }

/-- What stays also when the fees of the account itself are processed -/
def stable (a : AccountObject) : AccountObject :=
  { a.kept with
    referrer := 0
    statistics :=
      { a.kept.statistics with lifetimeFeesPaid := 0, pendingFees := 0, pendingVestedFees := 0 } }

end AccountObject

structure Settled (payers : AccountId → Prop) (s s' : State) : Prop where
  stable : ∀ id, (s'.accounts.find id).map AccountObject.stable =
    (s.accounts.find id).map AccountObject.stable
  kept : ∀ id, ¬payers id → (s'.accounts.find id).map AccountObject.kept =
    (s.accounts.find id).map AccountObject.kept
  time : s'.headBlockTime = s.headBlockTime
  parameters : s'.parameters = s.parameters

namespace Settled

variable {payers payers' : AccountId → Prop}

theorem trans (h : Settled payers s s') (h' : Settled payers' s' s'') :
    Settled (fun id => payers id ∨ payers' id) s s'' := by
  constructor
  case stable => exact fun id => (h'.stable id).trans (h.stable id)
  case kept =>
    intro id hid
    obtain ⟨hid, hid'⟩ := not_or.mp hid
    exact (h'.kept id hid').trans (h.kept id hid)
  case time => exact h'.time.trans h.time
  case parameters => exact h'.parameters.trans h.parameters

theorem mono (h : Settled payers s s') (hpayers : ∀ id, payers id → payers' id) :
    Settled payers' s s' :=
  ⟨h.stable, fun id hid => h.kept id fun hpayer => hid (hpayers id hpayer), h.time, h.parameters⟩

theorem isSome_find (h : Settled payers s s') (id : AccountId) :
    (s'.accounts.find id).isSome = (s.accounts.find id).isSome := by
  have hstable := congrArg Option.isSome (h.stable id)
  rwa [Option.isSome_map, Option.isSome_map] at hstable

end Settled

variable {k : AccountId}

theorem settled_modify {f : AccountObject → AccountObject} {accumulatedFees : Int}
    (hstable : ∀ a, (f a).stable = a.stable) :
    Settled (fun id => id = k) s { s with accounts := s.accounts.modify k f, accumulatedFees } := by
  constructor
  case stable =>
    intro id
    show ((s.accounts.modify k f).find id).map _ = _
    rw [Index.find_modify]
    split
    · rename_i heq
      rw [heq, Option.map_map]
      exact congrArg (fun g => (s.accounts.find k).map g) (funext hstable)
    · rfl
  case kept =>
    intro id hid
    show ((s.accounts.modify k f).find id).map _ = _
    rw [Index.find_modify, if_neg hid]
  all_goals rfl

variable {requireVesting : Bool}

theorem settled_depositCashback {acct : AccountId} {amount : Int}
    (hs : depositCashback acct amount requireVesting s = .ok s') :
    Settled (fun _ => False) s s' := by
  obtain ⟨a, ha, ⟨-, currentSupply, rfl⟩ | ⟨-, -, ⟨id, vbo, -, rfl⟩ | ⟨vbo, rfl⟩⟩⟩ :=
    depositCashback_cases hs
  · exact ⟨fun _ => rfl, fun _ _ => rfl, rfl, rfl⟩
  · exact ⟨fun _ => rfl, fun _ _ => rfl, rfl, rfl⟩
  · -- the account gets its first balance
    have hkept : ∀ x, ((s.accounts.modify acct
        (AccountObject.receives s.vestingBalances.next)).find x).map AccountObject.kept =
          (s.accounts.find x).map AccountObject.kept := by
      intro x
      rw [Index.find_modify]
      split
      · rename_i heq
        rw [heq, ha]
        rfl
      · rfl
    refine ⟨fun x => ?_, fun x _ => hkept x, rfl, rfl⟩
    have hx := congrArg (Option.map AccountObject.stable) (hkept x)
    rw [Option.map_map, Option.map_map] at hx
    exact hx

variable {a b : AccountObject}

theorem Settled.payee_eq {payers : AccountId → Prop} (h : Settled payers s s')
    (hreferrer : b.referrer = a.referrer) (hlifetime : b.lifetimeReferrer = a.lifetimeReferrer) :
    s'.payee b = s.payee a := by
  have hbasic : ∀ o : Option AccountObject, (o.any fun r => r.isBasicAccount s.headBlockTime) =
      (o.map AccountObject.stable).any fun r => r.isBasicAccount s.headBlockTime := by
    intro o
    rw [Option.any_map]
    rfl
  unfold State.payee
  rw [hreferrer, hlifetime, h.time, hbasic, h.stable, ← hbasic]

theorem Settled.payee_withReferrer {payers : AccountId → Prop} (h : Settled payers s s')
    (hb : b.kept = (a.withReferrer (s.payee a)).kept) : s'.payee b = s.payee a := by
  have hlifetime := congrArg AccountObject.lifetimeReferrer hb
  change b.lifetimeReferrer = a.lifetimeReferrer at hlifetime
  have hreferrer := congrArg AccountObject.referrer hb
  change b.referrer = s.payee a at hreferrer
  by_cases hbasic : (s.accounts.find a.referrer).any fun r => r.isBasicAccount s.headBlockTime
  · have hpayee : s.payee a = a.lifetimeReferrer := if_pos hbasic
    rw [hpayee] at hreferrer ⊢
    unfold State.payee
    rw [hreferrer, hlifetime, ite_self]
  · have hpayee : s.payee a = a.referrer := if_neg hbasic
    rw [hpayee] at hreferrer
    exact h.payee_eq hreferrer hlifetime

theorem settled_payOutFees {total : Int} (ha : s.accounts.find k = some a)
    (hs : payOutFees k total requireVesting s = .ok s') : Settled (fun id => id = k) s s' ∧
      ∃ b, s'.accounts.find k = some b ∧ b.kept = (a.withReferrer (s.payee a)).kept := by
  obtain ⟨a', accumulatedFees, s1, s2, ha', h1, h2, h3⟩ := payOutFees_cases hs
  cases ha.symm.trans ha'
  -- the referrer and the fees of the network, and the three deposits
  have hmodify : Settled (fun id => id = k) s { s with
      accounts := s.accounts.modify k (AccountObject.withReferrer (s.payee a))
      accumulatedFees } := settled_modify fun _ => rfl
  have hdeposits := ((settled_depositCashback h1).trans (settled_depositCashback h2)).trans
    (settled_depositCashback h3)
  constructor
  · apply (hmodify.trans hdeposits).mono
    rintro id (hid | (hid | hid) | hid)
    · exact hid
    all_goals cases hid
  · have hkept := hdeposits.kept k (by rintro ((hid | hid) | hid) <;> cases hid)
    have hk : (s.accounts.modify k (AccountObject.withReferrer (s.payee a))).find k =
        some (a.withReferrer (s.payee a)) := by
      rw [Index.find_modify, if_pos rfl, ha]
      rfl
    rw [hk] at hkept
    obtain ⟨b, hb, heq⟩ := Option.map_eq_some_iff.mp hkept
    exact ⟨b, hb, heq⟩

end Meta1Core.Voting
