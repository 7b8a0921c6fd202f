import Meta1Core.Vesting.Deposits
import Meta1Core.Voting.Payouts

/-!
# Where cashback goes (`deposit_lazy_vesting`, `deposit_cashback`)

Cashback is added to the vesting balance that the account refers to, or to a new one; that of the
blockchain's own accounts lowers the supply.  When a deposit succeeds is told by the state before it,
also of several deposits that may meet in one account.
-/

namespace Meta1Core.Voting

open Lib (Index bind_eq_ok of_bind)
open Protocol
open Vesting (VestingBalanceObject CddVestingPolicy Usable IsShare lazyTarget depositInto depositInto_isOk_iff usable_of_depositInto blockchainAccounts)

variable {s s' s'' : State}

/-! ## What is due -/

/-- What the network is due, and what each account is -/
abbrev Dues := Int × (AccountId → Int)

def due (x : AccountId) (amount : Int) : Dues := (0, Pi.single x amount)

/-- What the blockchain's own accounts are due goes to the reserve. -/
def Dues.toReserve (d : Dues) : Int := (blockchainAccounts.map d.2).sum

namespace Dues

variable {d d' : Dues} {x : AccountId} {amount : Int}

theorem toReserve_add (d d' : Dues) : (d + d').toReserve = d.toReserve + d'.toReserve := by
  unfold toReserve
  rw [← List.sum_map_add]
  rfl

theorem toReserve_nonneg (h : 0 ≤ d) : 0 ≤ d.toReserve := by
  apply List.sum_nonneg
  intro v hv
  obtain ⟨x, -, rfl⟩ := List.mem_map.mp hv
  exact h.2 x

theorem due_apply (x : AccountId) (amount : Int) (y : AccountId) :
    (due x amount).2 y = if y = x then amount else 0 :=
  Pi.single_apply ..

theorem toReserve_due (x : AccountId) (amount : Int) :
    (due x amount).toReserve = if x ∈ blockchainAccounts then amount else 0 := by
  have hnodup : blockchainAccounts.Nodup := by decide
  unfold toReserve
  rw [List.map_congr_left fun y _ => due_apply x amount y]
  revert hnodup
  generalize blockchainAccounts = ids
  intro hnodup
  induction ids with
  | nil => rfl
  | cons y ys ih =>
    obtain ⟨hy, hys⟩ := List.nodup_cons.mp hnodup
    rw [List.map_cons, List.sum_cons, ih hys]
    by_cases hx : x = y
    · subst hx
      rw [if_neg hy, if_pos List.mem_cons_self, if_pos rfl, add_zero]
    · rw [if_neg (Ne.symm hx), zero_add]
      simp only [List.mem_cons, hx, false_or]

theorem due_nonneg (h : 0 ≤ amount) : 0 ≤ due x amount := by
  refine ⟨le_refl 0, fun y => ?_⟩
  rw [due_apply]
  split
  · exact h
  · exact le_refl 0

theorem add_nonneg (h : 0 ≤ d) (h' : 0 ≤ d') : 0 ≤ d + d' :=
  ⟨Int.add_nonneg h.1 h'.1, fun x => Int.add_nonneg (h.2 x) (h'.2 x)⟩

theorem due_zero (x : AccountId) : due x 0 = 0 := by
  unfold due
  rw [Pi.single_zero]
  rfl

end Dues

def State.vested (s : State) (x : AccountId) : Int :=
  s.vestingBalances.total fun _ vbo =>
    if vbo.owner = x ∧ vbo.balance.assetId = core then vbo.balance.amount else 0

/-- The vesting balance that `deposit_lazy_vesting` would add the cashback of an account to -/
def State.openBalance (s : State) (x : AccountId) : Int :=
  match s.accounts.find x with
  | none => 0
  | some a =>
    match lazyTarget s.vestingBalances a.cashbackVb s.parameters.cashbackVestingPeriodSeconds x with
    | .ok (some (_, vbo)) => vbo.balance.amount
    | _ => 0

/-- The amounts are ones of a `share_type`, and every balance that an account refers to is usable. -/
structure Payable (s : State) : Prop where
  usable : ∀ x a id, s.accounts.find x = some a → a.cashbackVb = some id →
    ∃ vbo, s.vestingBalances.find id = some vbo ∧ Usable s.headBlockTime vbo
  currentSupply : IsShare s.currentSupply
  accumulatedFees : IsShare s.accumulatedFees

/-- There is room for what is due: no sum leaves the range of a `share_type`. -/
structure Room (d : Dues) (s : State) : Prop where
  accumulatedFees : s.accumulatedFees + d.1 < 2 ^ 63
  currentSupply : -(2 ^ 63) ≤ s.currentSupply - d.toReserve
  openBalance : ∀ x ∉ blockchainAccounts, s.openBalance x + d.2 x < 2 ^ 63

theorem Room.of_add {d d' : Dues} (h : Room (d + d') s) (hd' : 0 ≤ d') : Room d s := by
  obtain ⟨hfees, hsupply, hopen⟩ := h
  have hreserve := Dues.toReserve_nonneg hd'
  rw [Dues.toReserve_add] at hsupply
  constructor
  · have hnetwork : 0 ≤ d'.1 := hd'.1
    have hfees' : s.accumulatedFees + (d.1 + d'.1) < 2 ^ 63 := hfees
    omega
  · omega
  · intro x hx
    have hdue : 0 ≤ d'.2 x := hd'.2 x
    have hsum : s.openBalance x + (d.2 x + d'.2 x) < 2 ^ 63 := hopen x hx
    omega

structure Deposited (d : Dues) (s s' : State) : Prop where
  stable : ∀ id, (s'.accounts.find id).map AccountObject.stable =
    (s.accounts.find id).map AccountObject.stable
  parameters : s'.parameters = s.parameters
  accumulatedFees : s'.accumulatedFees = s.accumulatedFees + d.1
  currentSupply : s'.currentSupply = s.currentSupply - d.toReserve
  openBalance : ∀ x ∉ blockchainAccounts, s'.openBalance x = s.openBalance x + d.2 x
  vested : ∀ x, s'.vested x = s.vested x + if x ∈ blockchainAccounts then 0 else d.2 x

namespace Deposited

variable {d d' : Dues}

theorem refl (s : State) : Deposited 0 s s where
  stable _ := rfl
  parameters := rfl
  accumulatedFees := (add_zero _).symm
  currentSupply := (sub_zero _).symm
  openBalance _ _ := (add_zero _).symm
  vested x := by
    show s.vested x = s.vested x + if x ∈ blockchainAccounts then 0 else 0
    rw [ite_self, add_zero]

theorem trans (h : Deposited d s s') (h' : Deposited d' s' s'') : Deposited (d + d') s s'' where
  stable id := (h'.stable id).trans (h.stable id)
  parameters := h'.parameters.trans h.parameters
  accumulatedFees := by
    rw [h'.accumulatedFees, h.accumulatedFees, add_assoc]
    rfl
  currentSupply := by
    rw [h'.currentSupply, h.currentSupply, Dues.toReserve_add, sub_sub]
  openBalance x hx := by
    rw [h'.openBalance x hx, h.openBalance x hx, add_assoc]
    rfl
  vested x := by
    rw [h'.vested, h.vested, add_assoc]
    split
    · rfl
    · rfl

theorem room_add_iff (h : Deposited d s s') : Room (d + d') s ↔ Room d' s' := by
  have hfees : s.accumulatedFees + (d + d').1 = s'.accumulatedFees + d'.1 := by
    rw [h.accumulatedFees, add_assoc]
    rfl
  have hsupply : s.currentSupply - (d + d').toReserve = s'.currentSupply - d'.toReserve := by
    rw [h.currentSupply, Dues.toReserve_add, sub_sub]
  have hopen : ∀ x ∉ blockchainAccounts,
      s.openBalance x + (d + d').2 x = s'.openBalance x + d'.2 x := by
    intro x hx
    rw [h.openBalance x hx, add_assoc]
    rfl
  constructor
  · intro hboth
    refine ⟨hfees ▸ hboth.accumulatedFees, hsupply ▸ hboth.currentSupply, fun x hx => ?_⟩
    rw [← hopen x hx]
    exact hboth.openBalance x hx
  · intro hrest
    refine ⟨hfees ▸ hrest.accumulatedFees, hsupply ▸ hrest.currentSupply, fun x hx => ?_⟩
    rw [hopen x hx]
    exact hrest.openBalance x hx

end Deposited

/-- A computation succeeds exactly if the condition holds and there is room, and then everybody gets what
he is due. -/
def Pays (condition : Prop) (d : Dues) (s : State) (x : Except Exception State) : Prop :=
  ((∃ s', x = .ok s') ↔ condition ∧ Room d s) ∧ ∀ s', x = .ok s' → Deposited d s s' ∧ Payable s'

namespace Pays

variable {c c' : Prop} {d d' : Dues} {x : Except Exception State}
  {f : State → Except Exception State}

theorem bind (h : Pays c d s x) (hd' : 0 ≤ d')
    (hf : ∀ s', x = .ok s' → Deposited d s s' → Payable s' → Pays c' d' s' (f s')) :
    Pays (c ∧ c') (d + d') s (x >>= f) := by
  constructor
  · constructor
    · rintro ⟨s'', hx⟩
      obtain ⟨s', hs', hx⟩ := of_bind hx
      obtain ⟨hdeposited, hpayable⟩ := h.2 s' hs'
      obtain ⟨hc, -⟩ := h.1.mp ⟨s', hs'⟩
      obtain ⟨hc', hroom'⟩ := (hf s' hs' hdeposited hpayable).1.mp ⟨s'', hx⟩
      exact ⟨⟨hc, hc'⟩, hdeposited.room_add_iff.mpr hroom'⟩
    · rintro ⟨⟨hc, hc'⟩, hroom⟩
      obtain ⟨s', hs'⟩ := h.1.mpr ⟨hc, hroom.of_add hd'⟩
      obtain ⟨hdeposited, hpayable⟩ := h.2 s' hs'
      have hroom' := hdeposited.room_add_iff.mp hroom
      obtain ⟨s'', hs''⟩ := (hf s' hs' hdeposited hpayable).1.mpr ⟨hc', hroom'⟩
      exact ⟨s'', bind_eq_ok.mpr ⟨s', hs', hs''⟩⟩
  · intro s'' hx
    obtain ⟨s', hs', hx⟩ := of_bind hx
    obtain ⟨hdeposited, hpayable⟩ := h.2 s' hs'
    obtain ⟨hdeposited', hpayable'⟩ := (hf s' hs' hdeposited hpayable).2 s'' hx
    exact ⟨hdeposited.trans hdeposited', hpayable'⟩

end Pays

/-! ## One deposit -/

variable {t : Index VestingBalanceObject} {id seconds : Nat} {vbo : VestingBalanceObject}

theorem lazyTarget_of_owner_ne (hfound : t.find id = some vbo) {y : AccountId}
    (howner : vbo.owner ≠ y) : lazyTarget t (some id) seconds y = .ok none := by
  unfold lazyTarget
  dsimp only
  rw [hfound]
  dsimp only
  split
  · exact if_neg fun hmatch => howner hmatch.1
  · rfl

theorem lazyTarget_of_match (hfound : t.find id = some vbo) {p : CddVestingPolicy}
    (hp : vbo.policy = .cdd p) (hseconds : p.vestingSeconds = seconds) :
    lazyTarget t (some id) seconds vbo.owner = .ok (some (id, vbo)) := by
  unfold lazyTarget
  dsimp only
  rw [hfound]
  dsimp only
  rw [hp]
  exact if_pos ⟨rfl, hseconds⟩

theorem owner_of_lazyTarget {ovbid : Option Nat} {y : AccountId}
    (h : lazyTarget t ovbid seconds y = .ok (some (id, vbo))) : vbo.owner = y := by
  obtain ⟨rfl, hfound, -⟩ := Vesting.of_lazyTarget h
  by_contra howner
  rw [lazyTarget_of_owner_ne hfound howner] at h
  cases h

theorem lazyTarget_congr {t' : Index VestingBalanceObject} {ovbid : Option Nat}
    (h : ∀ id, ovbid = some id → t'.find id = t.find id) (seconds : Nat) (y : AccountId) :
    lazyTarget t' ovbid seconds y = lazyTarget t ovbid seconds y := by
  cases ovbid with
  | none => rfl
  | some id =>
    unfold lazyTarget
    dsimp only
    rw [h id rfl]

namespace Payable

variable {x : AccountId} {a : AccountObject}

theorem exists_target (h : Payable s) (ha : s.accounts.find x = some a) :
    ∃ target, lazyTarget s.vestingBalances a.cashbackVb
      s.parameters.cashbackVestingPeriodSeconds x = .ok target := by
  cases hid : a.cashbackVb with
  | none => exact ⟨none, rfl⟩
  | some id =>
    obtain ⟨vbo, hfound, -⟩ := h.usable x a id ha hid
    unfold lazyTarget
    dsimp only
    rw [hfound]
    dsimp only
    split
    · split
      · exact ⟨_, rfl⟩
      · exact ⟨_, rfl⟩
    · exact ⟨_, rfl⟩

end Payable

theorem openBalance_of_target {x : AccountId} {a : AccountObject}
    (ha : s.accounts.find x = some a) {target : Option (Nat × VestingBalanceObject)}
    (htarget : lazyTarget s.vestingBalances a.cashbackVb
      s.parameters.cashbackVestingPeriodSeconds x = .ok target) :
    s.openBalance x = target.elim 0 fun e => e.2.balance.amount := by
  unfold State.openBalance
  rw [ha]
  dsimp only
  rw [htarget]
  cases target with
  | none => rfl
  | some e => rfl

theorem Payable.openBalance_small (h : Payable s) (x : AccountId) : s.openBalance x < 2 ^ 63 := by
  cases ha : s.accounts.find x with
  | none =>
    unfold State.openBalance
    rw [ha]
    norm_num
  | some a =>
    obtain ⟨target, htarget⟩ := h.exists_target ha
    rw [openBalance_of_target ha htarget]
    cases target with
    | none => norm_num
    | some e =>
      obtain ⟨hid, hfound, -⟩ := Vesting.of_lazyTarget htarget
      obtain ⟨vbo, hfound', husable⟩ := h.usable x a e.1 ha hid
      rw [hfound] at hfound'
      cases hfound'
      exact husable.small

theorem Payable.room_zero (h : Payable s) : Room 0 s where
  accumulatedFees := by
    show s.accumulatedFees + 0 < _
    rw [add_zero]
    exact h.accumulatedFees.2
  currentSupply := by
    show -(2 ^ 63) ≤ s.currentSupply - 0
    rw [sub_zero]
    exact h.currentSupply.1
  openBalance x _ := by
    show s.openBalance x + 0 < _
    rw [add_zero]
    exact h.openBalance_small x

theorem Payable.room_due_iff (h : Payable s) (x : AccountId) (amount : Int) :
    Room (due x amount) s ↔ if x ∈ blockchainAccounts then -(2 ^ 63) ≤ s.currentSupply - amount
      else s.openBalance x + amount < 2 ^ 63 := by
  have hzero := h.room_zero
  constructor
  · intro hroom
    have hsupply := hroom.currentSupply
    rw [Dues.toReserve_due] at hsupply
    split
    · rename_i hx
      rw [if_pos hx] at hsupply
      exact hsupply
    · rename_i hx
      have hopen := hroom.openBalance x hx
      rw [Dues.due_apply, if_pos rfl] at hopen
      exact hopen
  · intro hroom
    refine ⟨hzero.accumulatedFees, ?_, fun y hy => ?_⟩
    · rw [Dues.toReserve_due]
      split
      · rename_i hx
        rw [if_pos hx] at hroom
        exact hroom
      · exact hzero.currentSupply
    · rw [Dues.due_apply]
      split
      · rename_i heq
        subst heq
        rw [if_neg hy] at hroom
        exact hroom
      · exact hzero.openBalance y hy

theorem openBalance_congr {y : AccountId}
    (hreference : (s'.accounts.find y).map AccountObject.cashbackVb =
      (s.accounts.find y).map AccountObject.cashbackVb)
    (hparameters : s'.parameters = s.parameters)
    (htarget : ∀ b, s.accounts.find y = some b →
      lazyTarget s'.vestingBalances b.cashbackVb s.parameters.cashbackVestingPeriodSeconds y =
        lazyTarget s.vestingBalances b.cashbackVb s.parameters.cashbackVestingPeriodSeconds y) :
    s'.openBalance y = s.openBalance y := by
  unfold State.openBalance
  rw [hparameters]
  cases hb : s.accounts.find y with
  | none =>
    rw [hb] at hreference
    rw [Option.map_eq_none_iff.mp hreference]
  | some b =>
    rw [hb] at hreference
    obtain ⟨b', hb', hsame⟩ := Option.map_eq_some_iff.mp hreference
    rw [hb']
    dsimp only
    rw [hsame, htarget b hb]

theorem Payable.deposited_modify (h : Payable s) {x : AccountId} {a : AccountObject}
    (ha : s.accounts.find x = some a) (hx : x ∉ blockchainAccounts) (hid : a.cashbackVb = some id)
    {vbo' : VestingBalanceObject} (hfound : s.vestingBalances.find id = some vbo)
    (howner : vbo.owner = x) (hasset : vbo.balance.assetId = core) {amount : Int}
    (husable : Usable s.headBlockTime vbo') (howner' : vbo'.owner = x)
    (hamount : vbo'.balance.amount = vbo.balance.amount + amount) {p p' : CddVestingPolicy}
    (hp : vbo.policy = .cdd p)
    (hseconds : p.vestingSeconds = s.parameters.cashbackVestingPeriodSeconds)
    (hp' : vbo'.policy = .cdd p') (hseconds' : p'.vestingSeconds = p.vestingSeconds) :
    Deposited (due x amount) s
        { s with vestingBalances := s.vestingBalances.modify id fun _ => vbo' } ∧
      Payable { s with vestingBalances := s.vestingBalances.modify id fun _ => vbo' } := by
  have hfind := Index.find_modify s.vestingBalances id fun _ => vbo'
  have hfind_id : (s.vestingBalances.modify id fun _ => vbo').find id = some vbo' := by
    rw [hfind, if_pos rfl, hfound]
    rfl
  constructor
  · constructor
    case stable => exact fun _ => rfl
    case parameters => rfl
    case accumulatedFees => exact (add_zero _).symm
    case currentSupply =>
      rw [Dues.toReserve_due, if_neg hx, sub_zero]
    case openBalance =>
      intro y hy
      rw [Dues.due_apply]
      split
      · rename_i heq
        subst heq
        have hbefore := lazyTarget_of_match hfound hp hseconds
        have hafter := lazyTarget_of_match hfind_id hp' (hseconds'.trans hseconds)
        rw [howner, ← hid] at hbefore
        rw [howner', ← hid] at hafter
        have hopen := openBalance_of_target
          (s := { s with vestingBalances := s.vestingBalances.modify id fun _ => vbo' }) ha hafter
        rw [hopen, openBalance_of_target ha hbefore]
        exact hamount
      · rename_i hne
        rw [add_zero]
        refine openBalance_congr rfl rfl fun b hb => ?_
        by_cases hb_id : b.cashbackVb = some id
        · rw [hb_id, lazyTarget_of_owner_ne hfound (howner ▸ Ne.symm hne)]
          exact lazyTarget_of_owner_ne hfind_id (howner' ▸ Ne.symm hne)
        · refine lazyTarget_congr (fun id' hid' => ?_) _ _
          rw [hfind, if_neg]
          rintro rfl
          exact hb_id hid'
    case vested =>
      intro y
      show Index.total _ (s.vestingBalances.modify id fun _ => vbo') = _
      rw [Index.total_modify _ hfound, howner, howner', husable.assetId, hasset, Dues.due_apply]
      unfold State.vested
      by_cases heq : x = y
      · subst heq
        rw [if_pos ⟨rfl, rfl⟩, if_pos ⟨rfl, rfl⟩, if_neg hx, if_pos rfl, hamount]
        ring
      · rw [if_neg fun hand => heq hand.1, if_neg fun hand => heq hand.1, if_neg (Ne.symm heq),
          ite_self]
        ring
  · refine ⟨fun y b id' hb hid' => ?_, h.currentSupply, h.accumulatedFees⟩
    obtain ⟨w, hw, hw_usable⟩ := h.usable y b id' hb hid'
    by_cases heq : id' = id
    · subst heq
      exact ⟨vbo', hfind_id, husable⟩
    · refine ⟨w, ?_, hw_usable⟩
      show (s.vestingBalances.modify id fun _ => vbo').find id' = some w
      rw [hfind, if_neg heq]
      exact hw

theorem Payable.deposited_create (h : Payable s) {x : AccountId} {a : AccountObject}
    (ha : s.accounts.find x = some a) (hx : x ∉ blockchainAccounts)
    (hnone : lazyTarget s.vestingBalances a.cashbackVb
      s.parameters.cashbackVestingPeriodSeconds x = .ok none) (husable : Usable s.headBlockTime vbo)
    (howner : vbo.owner = x) {p : CddVestingPolicy} (hp : vbo.policy = .cdd p)
    (hseconds : p.vestingSeconds = s.parameters.cashbackVestingPeriodSeconds) :
    Deposited (due x vbo.balance.amount) s
        ({ s with vestingBalances := s.vestingBalances.create vbo }.modifyAccount x
          (AccountObject.receives s.vestingBalances.next)) ∧
      Payable ({ s with vestingBalances := s.vestingBalances.create vbo }.modifyAccount x
        (AccountObject.receives s.vestingBalances.next)) := by
  have hfind := Index.find_create s.vestingBalances vbo
  have hfind_next : (s.vestingBalances.create vbo).find s.vestingBalances.next = some vbo := by
    rw [hfind, if_pos rfl]
  have haccounts := find_modifyAccount
    { s with vestingBalances := s.vestingBalances.create vbo } x
    (AccountObject.receives s.vestingBalances.next)
  have haccount : (State.modifyAccount { s with vestingBalances := s.vestingBalances.create vbo } x
      (AccountObject.receives s.vestingBalances.next)).accounts.find x =
        some (a.receives s.vestingBalances.next) := by
    rw [haccounts, if_pos rfl]
    show (s.accounts.find x).map _ = _
    rw [ha]
    rfl
  -- what is there stays
  have hold {id : Nat} {w : VestingBalanceObject} (hw : s.vestingBalances.find id = some w) :
      (s.vestingBalances.create vbo).find id = some w := by
    rw [hfind, if_neg]
    · exact hw
    · rintro rfl
      rw [Index.find_next] at hw
      cases hw
  constructor
  · constructor
    case stable =>
      intro y
      rw [haccounts]
      split
      · rename_i heq
        rw [heq, Option.map_map]
        rfl
      · rfl
    case parameters => rfl
    case accumulatedFees => exact (add_zero _).symm
    case currentSupply =>
      rw [Dues.toReserve_due, if_neg hx, sub_zero]
      rfl
    case openBalance =>
      intro y hy
      rw [Dues.due_apply]
      split
      · rename_i heq
        subst heq
        have hafter := lazyTarget_of_match hfind_next hp hseconds
        rw [howner] at hafter
        rw [openBalance_of_target haccount hafter, openBalance_of_target ha hnone]
        exact (zero_add _).symm
      · rename_i hne
        rw [add_zero]
        refine openBalance_congr ?_ rfl fun b hb => ?_
        · rw [haccounts, if_neg hne]
        · refine lazyTarget_congr (fun id hid => ?_) _ _
          obtain ⟨w, hw, -⟩ := h.usable y b id hb hid
          rw [hw]
          exact hold hw
    case vested =>
      intro y
      show Index.total _ (s.vestingBalances.create vbo) = _
      rw [Index.total_create, howner, husable.assetId, Dues.due_apply]
      unfold State.vested
      by_cases heq : x = y
      · subst heq
        rw [if_pos ⟨rfl, rfl⟩, if_neg hx, if_pos rfl]
      · rw [if_neg fun hand => heq hand.1, if_neg (Ne.symm heq), ite_self]
  · refine ⟨fun y b id hb hid => ?_, h.currentSupply, h.accumulatedFees⟩
    by_cases heq : y = x
    · subst heq
      rw [haccount] at hb
      cases hb
      cases hid
      exact ⟨vbo, hfind_next, husable⟩
    · rw [haccounts, if_neg heq] at hb
      obtain ⟨w, hw, hw_usable⟩ := h.usable y b id hb hid
      exact ⟨w, hold hw, hw_usable⟩

def ProductFits (s : State) (x : AccountId) (amount : Int) (requireVesting : Bool) : Prop :=
  requireVesting = true ∨ x ∈ blockchainAccounts ∨
    amount * s.parameters.cashbackVestingPeriodSeconds < 2 ^ 63

section

variable {x : AccountId} {a : AccountObject} {amount : Int} {requireVesting : Bool}

section

variable (h : Payable s) (ha : s.accounts.find x = some a) (hnonneg : 0 ≤ amount)

include h ha hnonneg

theorem Payable.pays_reserve (hzero : amount ≠ 0) (hx : x ∈ blockchainAccounts) :
    Pays (ProductFits s x amount requireVesting) (due x amount) s
      (depositCashback x amount requireVesting s) := by
  have hok : depositCashback x amount requireVesting s =
      safe (s.currentSupply - amount) >>= fun currentSupply => .ok { s with currentSupply } := by
    unfold depositCashback
    rw [account_eq_ok.mpr ha]
    exact (if_neg hzero).trans (if_pos hx)
  have hroom := h.room_due_iff x amount
  rw [if_pos hx] at hroom
  rw [hok]
  refine ⟨⟨?_, ?_⟩, ?_⟩
  · rintro ⟨s', hs'⟩
    obtain ⟨currentSupply, hsafe, -⟩ := of_bind hs'
    exact ⟨.inr (.inl hx), hroom.mpr (of_safe hsafe).2.1⟩
  · rintro ⟨-, hroom'⟩
    have hsupply := h.currentSupply.2
    have hsafe : safe (s.currentSupply - amount) = .ok (s.currentSupply - amount) :=
      safe_eq_ok.mpr ⟨rfl, hroom.mp hroom', by omega⟩
    exact ⟨_, bind_eq_ok.mpr ⟨_, hsafe, rfl⟩⟩
  · intro s' hs'
    obtain ⟨currentSupply, hsafe, hs'⟩ := of_bind hs'
    cases hs'
    obtain ⟨rfl, hrange⟩ := of_safe hsafe
    have hnobody : ∀ y ∉ blockchainAccounts, (due x amount).2 y = 0 := by
      intro y hy
      rw [Dues.due_apply, if_neg]
      rintro rfl
      exact hy hx
    refine ⟨⟨fun _ => rfl, rfl, (add_zero _).symm, ?_, fun y hy => ?_, fun y => ?_⟩,
      h.usable, hrange, h.accumulatedFees⟩
    · rw [Dues.toReserve_due, if_pos hx]
    · rw [hnobody y hy, add_zero]
      rfl
    · show s.vested y = _
      split
      · rw [add_zero]
      · rename_i hy
        rw [hnobody y hy, add_zero]

theorem Payable.pays_existing (hsmall : amount < 2 ^ 63) (hzero : amount ≠ 0)
    (hx : x ∉ blockchainAccounts) {id : Nat} {vbo : VestingBalanceObject}
    (htarget : lazyTarget s.vestingBalances a.cashbackVb s.parameters.cashbackVestingPeriodSeconds x = .ok (some (id, vbo))) :
    Pays (ProductFits s x amount requireVesting) (due x amount) s
      (depositCashback x amount requireVesting s) := by
  obtain ⟨hid, hfound, p, hp, hseconds⟩ := Vesting.of_lazyTarget htarget
  have howner := owner_of_lazyTarget htarget
  obtain ⟨w, hw, husable⟩ := h.usable x a id ha hid
  rw [hfound] at hw
  cases hw
  have hok : depositCashback x amount requireVesting s =
      depositInto requireVesting vbo s.headBlockTime ⟨amount, core⟩ >>= fun vbo' =>
        .ok { s with vestingBalances := s.vestingBalances.modify id fun _ => vbo' } := by
    unfold depositCashback depositLazyVesting
    rw [account_eq_ok.mpr ha]
    show (if amount = 0 then _ else _) = _
    rw [if_neg hzero, if_neg hx, if_neg hzero]
    dsimp only
    rw [htarget]
    cases hinto : depositInto requireVesting vbo s.headBlockTime ⟨amount, core⟩ with
    | error e => simp [bind, Except.bind, hinto]
    | ok vbo' => simp [bind, Except.bind, pure, Except.pure, hinto]
  have hroom := h.room_due_iff x amount
  rw [if_neg hx, openBalance_of_target ha htarget] at hroom
  have hiff := depositInto_isOk_iff requireVesting husable hp hnonneg hsmall
  rw [hok]
  refine ⟨⟨?_, ?_⟩, ?_⟩
  · rintro ⟨s', hs'⟩
    obtain ⟨vbo', hinto, -⟩ := of_bind hs'
    obtain ⟨hproduct, hlt⟩ := hiff.mp ⟨vbo', hinto⟩
    rw [hseconds] at hproduct
    exact ⟨hproduct.imp_right .inr, hroom.mpr hlt⟩
  · rintro ⟨hproduct, hroom'⟩
    have hproduct' := hproduct.imp_right fun hor => hor.resolve_left hx
    rw [← hseconds] at hproduct'
    obtain ⟨vbo', hinto⟩ := hiff.mpr ⟨hproduct', hroom.mp hroom'⟩
    exact ⟨_, bind_eq_ok.mpr ⟨vbo', hinto, rfl⟩⟩
  · intro s' hs'
    obtain ⟨vbo', hinto, hs'⟩ := of_bind hs'
    cases hs'
    have hlt := (hiff.mp ⟨vbo', hinto⟩).2
    obtain ⟨husable', howner', hamount, p', hp', hseconds'⟩ :=
      usable_of_depositInto husable hp hnonneg hlt hinto
    exact h.deposited_modify ha hx hid hfound howner husable.assetId husable'
      (howner'.trans howner) hamount hp hseconds hp' hseconds'

theorem Payable.pays_new (hsmall : amount < 2 ^ 63) (hzero : amount ≠ 0)
    (hx : x ∉ blockchainAccounts)
    (htarget : lazyTarget s.vestingBalances a.cashbackVb s.parameters.cashbackVestingPeriodSeconds x = .ok none) :
    Pays (ProductFits s x amount requireVesting) (due x amount) s
      (depositCashback x amount requireVesting s) := by
  have hok : depositCashback x amount requireVesting s =
      Vesting.initialCoinSeconds requireVesting amount
        s.parameters.cashbackVestingPeriodSeconds >>= fun coinSecondsEarned =>
          .ok ({ s with vestingBalances := s.vestingBalances.create ⟨x, ⟨amount, core⟩,
            .cdd ⟨s.parameters.cashbackVestingPeriodSeconds, coinSecondsEarned, 0,
              s.headBlockTime⟩, .cashback⟩ }.modifyAccount x
                (AccountObject.receives s.vestingBalances.next)) := by
    unfold depositCashback depositLazyVesting
    rw [account_eq_ok.mpr ha]
    show (if amount = 0 then _ else _) = _
    rw [if_neg hzero, if_neg hx, if_neg hzero]
    dsimp only
    rw [htarget]
    cases Vesting.initialCoinSeconds requireVesting amount
        s.parameters.cashbackVestingPeriodSeconds with
    | error e => simp [bind, Except.bind]
    | ok n => simp [bind, Except.bind, pure, Except.pure]
  have hiff := Vesting.initialCoinSeconds_isOk_iff requireVesting hnonneg
    s.parameters.cashbackVestingPeriodSeconds
  have hroom : Room (due x amount) s := by
    rw [h.room_due_iff, if_neg hx, openBalance_of_target ha htarget, Option.elim_none, zero_add]
    exact hsmall
  rw [hok]
  refine ⟨⟨?_, ?_⟩, ?_⟩
  · rintro ⟨s', hs'⟩
    obtain ⟨n, hn, -⟩ := of_bind hs'
    exact ⟨(hiff.mp ⟨n, hn⟩).imp_right .inr, hroom⟩
  · rintro ⟨hproduct, -⟩
    obtain ⟨n, hn⟩ := hiff.mpr (hproduct.imp_right fun hor => hor.resolve_left hx)
    exact ⟨_, bind_eq_ok.mpr ⟨n, hn, rfl⟩⟩
  · intro s' hs'
    obtain ⟨n, -, hs'⟩ := of_bind hs'
    cases hs'
    have husable : Usable s.headBlockTime ⟨x, ⟨amount, core⟩,
        .cdd ⟨s.parameters.cashbackVestingPeriodSeconds, n, 0, s.headBlockTime⟩, .cashback⟩ := by
      refine ⟨rfl, hnonneg, hsmall, fun p hp => ?_⟩
      cases hp
      exact le_refl _
    have hdone := h.deposited_create ha hx htarget husable rfl rfl rfl
    exact hdone

theorem Payable.pays_depositCashback (hsmall : amount < 2 ^ 63) (requireVesting : Bool) :
    Pays (ProductFits s x amount requireVesting) (due x amount) s
      (depositCashback x amount requireVesting s) := by
  by_cases hzero : amount = 0
  · -- nothing is done
    subst hzero
    have hok : depositCashback x 0 requireVesting s = .ok s := by
      unfold depositCashback
      rw [account_eq_ok.mpr ha]
      rfl
    rw [hok, Dues.due_zero]
    refine ⟨iff_of_true ⟨s, rfl⟩ ⟨.inr (.inr ?_), h.room_zero⟩, ?_⟩
    · rw [zero_mul]
      norm_num
    · rintro s' hs'
      cases hs'
      exact ⟨.refl s, h⟩
  by_cases hx : x ∈ blockchainAccounts
  · exact h.pays_reserve ha hnonneg hzero hx
  · obtain ⟨target, htarget⟩ := h.exists_target ha
    cases target with
    | none => exact h.pays_new ha hnonneg hsmall hzero hx htarget
    | some e => exact h.pays_existing ha hnonneg hsmall hzero hx htarget

end

end

end Meta1Core.Voting
