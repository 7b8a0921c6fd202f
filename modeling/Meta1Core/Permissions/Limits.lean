import Meta1Core.Permissions.Withdraw

/-!
# What can be claimed of a permission

The periods of a permission begin at its start time and have the same length.  Its object remembers
the period of the last claim, so a later claim either adds to what was claimed in that period or
begins a new one.
-/

namespace Meta1Core.Permissions

open Allocation (u32 u32_of_lt)
open Lib (Index Returns Reachable StepsMeet Succeeds of_bind)
open Protocol Ledger Extended

variable {s s' : State}

variable {id : Nat}

theorem returns_fetchPermission_bind {β : Type} {f : WithdrawPermission → Evaluation β} {b : β} :
    Returns (fetchPermission id >>= f) s b s' ↔
      ∃ p, s.objects.permissions.find id = some p ∧ Returns (f p) s b s' := by
  unfold fetchPermission
  rw [bind_assoc, Returns.get_bind_iff]
  cases s.objects.permissions.find id with
  | none => simp [Returns.bind_iff, Returns.throw_iff]
  | some p => simp

variable {u : Unit}

theorem returns_writePermissions {f : Index WithdrawPermission → Index WithdrawPermission} :
    Returns (writePermissions f) s u s' ↔
      s' = { s with objects := { s.objects with permissions := f s.objects.permissions } } :=
  Returns.modify_iff

theorem adjustBalance_headBlockTime {account : AccountId} {delta : Asset} {l l' : Ledger.State}
    (h : Returns (adjustBalance account delta) l () l') : l'.headBlockTime = l.headBlockTime := by
  rw [adjustBalance_frame h]

variable {ctx : TransactionEvaluationState} {requiredFee : Int}

theorem CreateOperation.of_evaluate {op : CreateOperation}
    (h : Returns (op.evaluate ctx requiredFee) s id s') :
    0 < op.withdrawalLimit.amount ∧ 0 < op.withdrawalPeriodSec ∧
      s'.ledger.headBlockTime = s.ledger.headBlockTime ∧
      s'.objects = { s.objects with
        permissions := s.objects.permissions.create op.permission } := by
  obtain ⟨_, hvalid, h⟩ := h.of_lift
  obtain ⟨-, hvalid⟩ := of_fcAssert hvalid
  obtain ⟨-, hvalid⟩ := of_fcAssert hvalid
  obtain ⟨hlimit, hvalid⟩ := of_fcAssert hvalid
  obtain ⟨hperiod, -⟩ := of_fcAssert hvalid
  obtain ⟨x, s1, s2, s3, -, hevaluate, hpaid, happly, hs', hadjust⟩ := of_startEvaluate h
  -- `do_evaluate` only reads
  obtain ⟨_, -, hevaluate⟩ := of_fetch hevaluate
  obtain ⟨_, -, hevaluate⟩ := of_fetch hevaluate
  obtain ⟨_, -, hevaluate⟩ := of_fetch hevaluate
  have hevaluate := of_headBlockTime hevaluate
  obtain ⟨-, hevaluate⟩ := of_require hevaluate
  obtain ⟨-, hevaluate⟩ := of_require hevaluate
  have hevaluate := hevaluate.of_get
  obtain ⟨ledger, hrequire, hs1⟩ := returns_onLedger.mp hevaluate
  obtain ⟨-, rfl⟩ := Ledger.returns_require.mp hrequire
  have happly := happly.of_get
  obtain ⟨_, s4, hwrite, happly⟩ := happly.of_bind
  obtain ⟨-, rfl⟩ := happly.of_pure
  have hs4 := returns_writePermissions.mp hwrite
  have htime := adjustBalance_headBlockTime hadjust
  refine ⟨hlimit, hperiod, ?_, ?_⟩
  · rw [htime, hs4, hpaid.fees.headBlockTime, hs1]
  · rw [hs', hs4, hpaid.objects, hs1]

structure Claimed (s : State) (op : ClaimOperation) (p p' : WithdrawPermission) : Prop where
  found : s.objects.permissions.find op.withdrawPermission = some p
  positive : 0 < op.amountToWithdraw.amount
  unexpired : s.ledger.headBlockTime < p.expiration
  started : p.periodStartTime ≤ s.ledger.headBlockTime
  available : ∃ a, p.availableThisPeriod s.ledger.headBlockTime = .ok a ∧
    op.amountToWithdraw.amount ≤ a.amount
  claim : ClaimOperation.claim op.amountToWithdraw.amount s.ledger.headBlockTime p = .ok p'

theorem asset_le_eq_ok {a b : Asset} (h : a.le b = .ok true) : a.amount ≤ b.amount := by
  obtain ⟨lower, hlt, hnot⟩ := of_bind h
  obtain ⟨-, hlower⟩ := of_fcAssert hlt
  cases hlower
  simp only [pure, Except.pure, Except.ok.injEq, Bool.not_eq_true', decide_eq_false_iff_not] at hnot
  omega

theorem ClaimOperation.checkAsset_unchanged {op : ClaimOperation} {p : WithdrawPermission}
    (h : Returns (op.checkAsset p) s u s') : s' = s := by
  have h := h.of_get
  obtain ⟨-, h⟩ := of_require h
  obtain ⟨_, -, h⟩ := of_fetch h
  obtain ⟨-, h⟩ := of_require h
  obtain ⟨_, -, h⟩ := of_fetch h
  obtain ⟨-, h⟩ := of_require h
  obtain ⟨_, -, h⟩ := of_fetch h
  obtain ⟨ledger, hrequire, rfl⟩ := returns_onLedger.mp h
  obtain ⟨-, rfl⟩ := Ledger.returns_require.mp hrequire
  rfl

theorem ClaimOperation.of_evaluate {op : ClaimOperation}
    (h : Returns (op.evaluate ctx requiredFee) s u s') :
    ∃ p p', Claimed s op p p' ∧ s'.ledger.headBlockTime = s.ledger.headBlockTime ∧
      s'.objects = { s.objects with
        permissions := s.objects.permissions.modify op.withdrawPermission fun _ => p' } := by
  obtain ⟨_, hvalid, h⟩ := h.of_lift
  obtain ⟨-, hvalid⟩ := of_fcAssert hvalid
  obtain ⟨hpositive, -⟩ := of_fcAssert hvalid
  obtain ⟨x, s1, s2, s3, -, hevaluate, hpaid, happly, hs', hadjust⟩ := of_startEvaluate h
  have hevaluate := of_headBlockTime hevaluate
  obtain ⟨p, hp, hevaluate⟩ := returns_fetchPermission_bind.mp hevaluate
  obtain ⟨hunexpired, hevaluate⟩ := of_require hevaluate
  obtain ⟨-, hevaluate⟩ := of_require hevaluate
  obtain ⟨-, hevaluate⟩ := of_require hevaluate
  obtain ⟨hstarted, hevaluate⟩ := of_require hevaluate
  obtain ⟨a, ha, hevaluate⟩ := hevaluate.of_lift
  obtain ⟨b, hb, hevaluate⟩ := hevaluate.of_lift
  obtain ⟨rfl, hevaluate⟩ := of_require hevaluate
  obtain rfl := checkAsset_unchanged hevaluate
  -- the fee is paid before the permission is read again
  obtain ⟨p2, hp2, happly⟩ := returns_fetchPermission_bind.mp happly
  rw [hpaid.objects, hp] at hp2
  cases hp2
  have happly := of_headBlockTime happly
  rw [hpaid.fees.headBlockTime] at happly
  obtain ⟨p', hclaim, happly⟩ := happly.of_lift
  obtain ⟨_, s4, hwrite, happly⟩ := happly.of_bind
  have hs4 := returns_writePermissions.mp hwrite
  obtain ⟨_, l5, hfrom, happly⟩ := of_onLedger happly
  obtain ⟨l6, hto, hs3⟩ := returns_onLedger.mp happly
  refine ⟨p, p', ⟨hp, hpositive, hunexpired, hstarted, ⟨a, ha, asset_le_eq_ok hb⟩, hclaim⟩, ?_, ?_⟩
  · rw [adjustBalance_headBlockTime hadjust, hs3]
    exact (adjustBalance_headBlockTime hto).trans ((adjustBalance_headBlockTime hfrom).trans
      (by rw [hs4, hpaid.fees.headBlockTime]))
  · rw [hs', hs3, hs4, hpaid.objects]

def claimsOf (id : Nat) (history : List Record) : List (Nat × Int) :=
  history.filterMap fun
    | .claimed id' time amount => if id' = id then some (time, amount) else none
    | .created _ _ => none

def claimedWithin (claims : List (Nat × Int)) (start stop : Nat) : Int :=
  Lib.total (fun c => if start ≤ c.1 ∧ c.1 < stop then c.2 else 0) claims

theorem claimsOf_append (id : Nat) (history history' : List Record) :
    claimsOf id (history ++ history') = claimsOf id history ++ claimsOf id history' :=
  List.filterMap_append

theorem mem_claimsOf {time : Nat} {amount : Int} {history : List Record} :
    (time, amount) ∈ claimsOf id history ↔ Record.claimed id time amount ∈ history := by
  unfold claimsOf
  rw [List.mem_filterMap]
  constructor
  · rintro ⟨r, hr, hsome⟩
    cases r with
    | created => cases hsome
    | claimed id' time' amount' =>
      dsimp only at hsome
      split at hsome
      · rename_i heq
        cases hsome
        rwa [← heq]
      · cases hsome
  · intro h
    exact ⟨_, h, by simp⟩

theorem claimedWithin_append (claims claims' : List (Nat × Int)) (start stop : Nat) :
    claimedWithin (claims ++ claims') start stop =
      claimedWithin claims start stop + claimedWithin claims' start stop :=
  Lib.total_append _ _ _

theorem claimedWithin_eq_zero {claims : List (Nat × Int)} {start stop : Nat}
    (h : ∀ c ∈ claims, ¬(start ≤ c.1 ∧ c.1 < stop)) : claimedWithin claims start stop = 0 :=
  Lib.total_eq_zero fun c hc => if_neg (h c hc)

theorem claimedWithin_singleton (time : Nat) (amount : Int) (start stop : Nat) :
    claimedWithin [(time, amount)] start stop =
      if start ≤ time ∧ time < stop then amount else 0 := by
  simp [claimedWithin]

/-- Every period that begins before the permission expires ends at a time that fits 32 bits. -/
def CreateOperation.PeriodsFit (op : CreateOperation) : Prop :=
  ∀ k, op.periodStartTime + k * op.withdrawalPeriodSec < op.expiration →
    op.periodStartTime + (k + 1) * op.withdrawalPeriodSec < 2 ^ 32

theorem CreateOperation.periodsFit_iff (op : CreateOperation) :
    op.PeriodsFit ↔ op.expiration ≤ op.periodStartTime ∨
      op.periodStartTime + ((op.expiration - 1 - op.periodStartTime) / op.withdrawalPeriodSec + 1) *
        op.withdrawalPeriodSec < 2 ^ 32 := by
  have hle := Nat.div_mul_le_self (op.expiration - 1 - op.periodStartTime) op.withdrawalPeriodSec
  constructor
  · intro h
    by_cases hbefore : op.expiration ≤ op.periodStartTime
    · exact .inl hbefore
    · exact .inr (h _ (by omega))
  · intro h k hk
    rcases h with hbefore | hlast
    · omega
    · rcases Nat.eq_zero_or_pos op.withdrawalPeriodSec with hzero | hpos
      · rw [hzero, Nat.mul_zero] at hlast ⊢
        exact hlast
      · have hk' : k ≤ (op.expiration - 1 - op.periodStartTime) / op.withdrawalPeriodSec :=
          (Nat.le_div_iff_mul_le hpos).mpr (by omega)
        have hmul := Nat.mul_le_mul_right op.withdrawalPeriodSec (Nat.succ_le_succ hk')
        exact Nat.lt_of_le_of_lt (Nat.add_le_add_left hmul _) hlast

instance (op : CreateOperation) : Decidable op.PeriodsFit :=
  decidable_of_iff _ op.periodsFit_iff.symm

theorem CreateOperation.expiration_le (op : CreateOperation) :
    op.expiration ≤ op.periodStartTime + op.periodsUntilExpiration * op.withdrawalPeriodSec := by
  unfold expiration u32
  have h := Nat.mod_le (op.periodsUntilExpiration * op.withdrawalPeriodSec) (2 ^ 32)
  have h' := Nat.mod_le (op.periodStartTime +
    op.periodsUntilExpiration * op.withdrawalPeriodSec % 2 ^ 32) (2 ^ 32)
  omega

/-- What a permission that was granted by `op` says about its claims -/
structure Current (op : CreateOperation) (claims : List (Nat × Int)) (p : WithdrawPermission) :
    Prop where
  limit : p.withdrawalLimit = op.withdrawalLimit
  period : p.withdrawalPeriodSec = op.withdrawalPeriodSec
  expiration : p.expiration = op.expiration
  aligned : ∃ k, p.periodStartTime = op.periodStartTime + k * op.withdrawalPeriodSec
  claimed : p.claimedThisPeriod =
    claimedWithin claims p.periodStartTime (p.periodStartTime + op.withdrawalPeriodSec)
  bounded : ∀ c ∈ claims, c.1 < p.periodStartTime + op.withdrawalPeriodSec
  last : ∀ c ∈ claims.getLast?, p.periodStartTime ≤ c.1

/-- The claims of a permission that was granted by `op` keep to its terms. -/
structure Kept (op : CreateOperation) (claims : List (Nat × Int)) : Prop where
  within : ∀ k, claimedWithin claims (op.periodStartTime + k * op.withdrawalPeriodSec)
    (op.periodStartTime + (k + 1) * op.withdrawalPeriodSec) ≤ op.withdrawalLimit.amount
  before : ∀ c ∈ claims,
    c.1 < op.periodStartTime + op.periodsUntilExpiration * op.withdrawalPeriodSec

theorem period_eq {start period j k t : Nat} (hj : start + j * period ≤ t)
    (hj' : t < start + (j + 1) * period) (hk : start + k * period ≤ t)
    (hk' : t < start + (k + 1) * period) : j = k := by
  have hlt : j < k + 1 := by
    by_contra hge
    have hmul := Nat.mul_le_mul_right period (Nat.not_lt.mp hge)
    omega
  have hlt' : k < j + 1 := by
    by_contra hge
    have hmul := Nat.mul_le_mul_right period (Nat.not_lt.mp hge)
    omega
  omega

theorem Current.created (op : CreateOperation) : Current op [] op.permission where
  limit := rfl
  period := rfl
  expiration := rfl
  aligned := ⟨0, by simp [CreateOperation.permission]⟩
  claimed := rfl
  bounded := by simp
  last := by simp

theorem Kept.created {op : CreateOperation} (hlimit : 0 < op.withdrawalLimit.amount) :
    Kept op [] where
  within := by
    intro k
    show (0 : Int) ≤ _
    omega
  before := by simp

namespace Claimed

variable {op : CreateOperation} {claims : List (Nat × Int)} {claim : ClaimOperation}
  {p p' : WithdrawPermission}

section

variable (h : Claimed s claim p p') (hcurrent : Current op claims p)

include h hcurrent

theorem spec (htime : s.ledger.headBlockTime < 2 ^ 32) :
    ∃ periods, p'.withdrawalLimit = op.withdrawalLimit ∧
      p'.withdrawalPeriodSec = op.withdrawalPeriodSec ∧ p'.expiration = op.expiration ∧
      p'.periodStartTime = p.periodStartTime + periods * op.withdrawalPeriodSec ∧
      p'.periodStartTime ≤ s.ledger.headBlockTime ∧
      (0 < op.withdrawalPeriodSec →
        s.ledger.headBlockTime < p'.periodStartTime + op.withdrawalPeriodSec) ∧
      p'.claimedThisPeriod = (if periods = 0 then p.claimedThisPeriod else 0) +
        claim.amountToWithdraw.amount := by
  obtain ⟨claimed, hclaimed, hp'⟩ := of_bind h.claim
  cases hp'
  have hstarted := h.started
  have hle := Nat.div_mul_le_self (s.ledger.headBlockTime - p.periodStartTime)
    p.withdrawalPeriodSec
  have hgt := fun hpos => Nat.lt_div_mul_add (a := s.ledger.headBlockTime - p.periodStartTime)
    (b := p.withdrawalPeriodSec) hpos
  generalize (s.ledger.headBlockTime - p.periodStartTime) / p.withdrawalPeriodSec = periods at *
  have hstart : u32 (p.periodStartTime + periods * p.withdrawalPeriodSec) =
      p.periodStartTime + periods * op.withdrawalPeriodSec := by
    rw [← hcurrent.period]
    exact u32_of_lt (by omega)
  rw [hcurrent.period] at hle hgt
  refine ⟨periods, hcurrent.limit, hcurrent.period, hcurrent.expiration, hstart, ?_, ?_, ?_⟩
  · show u32 _ ≤ _
    omega
  · intro hpos
    have := hgt hpos
    show _ < u32 _ + _
    omega
  · show claimed = _
    unfold ClaimOperation.claimedAfter at hclaimed
    split at hclaimed
    · rename_i hzero
      rw [if_pos hzero, (of_safe hclaimed).1]
    · rename_i hpositive
      cases hclaimed
      rw [if_neg hpositive, zero_add]

theorem current (htime : s.ledger.headBlockTime < 2 ^ 32) (hperiod : 0 < op.withdrawalPeriodSec) :
    Current op (claims ++ [(s.ledger.headBlockTime, claim.amountToWithdraw.amount)]) p' := by
  obtain ⟨periods, hlimit, hlength, hexpiration, hstart, hle, hlt, hclaimed⟩ :=
    h.spec hcurrent htime
  have hlt := hlt hperiod
  have hbounded : ∀ c ∈ claims, c.1 < p'.periodStartTime + op.withdrawalPeriodSec := by
    intro c hc
    have := hcurrent.bounded c hc
    omega
  constructor
  case limit => exact hlimit
  case period => exact hlength
  case expiration => exact hexpiration
  case aligned =>
    obtain ⟨k, hk⟩ := hcurrent.aligned
    refine ⟨k + periods, ?_⟩
    rw [hstart, hk]
    ring
  case claimed =>
    rw [claimedWithin_append, claimedWithin_singleton, if_pos ⟨hle, hlt⟩, hclaimed]
    split
    · rename_i hzero
      rw [hcurrent.claimed, hstart, hzero, Nat.zero_mul, Nat.add_zero]
    · -- nothing was claimed in the new period yet
      rename_i hpositive
      rw [claimedWithin_eq_zero]
      intro c hc hwithin
      have hbefore := hcurrent.bounded c hc
      have hmul := Nat.mul_le_mul_right op.withdrawalPeriodSec (Nat.one_le_iff_ne_zero.mpr hpositive)
      omega
  case bounded =>
    intro c hc
    rcases List.mem_append.mp hc with hc | hc
    · exact hbounded c hc
    · obtain rfl := List.mem_singleton.mp hc
      exact hlt
  case last =>
    intro c hc
    rw [List.getLast?_append] at hc
    cases hc
    exact hle

theorem le_limit (hfits : op.PeriodsFit) (htime : s.ledger.headBlockTime < 2 ^ 32)
    (hperiod : 0 < op.withdrawalPeriodSec) : p'.claimedThisPeriod ≤ op.withdrawalLimit.amount := by
  obtain ⟨periods, -, -, -, hstart, hle, hlt, hclaimed⟩ := h.spec hcurrent htime
  have hlt := hlt hperiod
  obtain ⟨a, ha, hamount⟩ := h.available
  have hpositive := h.positive
  have hend : p.periodStartTime + op.withdrawalPeriodSec < 2 ^ 32 := by
    obtain ⟨k, hk⟩ := hcurrent.aligned
    have hunexpired := h.unexpired
    have hstarted := h.started
    have hfits := hfits k
    rw [hcurrent.expiration] at hunexpired
    rw [Nat.add_mul, Nat.one_mul, ← Nat.add_assoc, ← hk] at hfits
    exact hfits (by omega)
  rw [WithdrawPermission.availableThisPeriod, hcurrent.period, u32_of_lt hend, hcurrent.limit] at ha
  split at ha
  · -- a new period, which has the whole limit
    cases ha
    have hperiods : periods ≠ 0 := by
      rintro rfl
      omega
    rw [hclaimed, if_neg hperiods]
    omega
  · -- still the period of the last claim
    have hperiods : periods = 0 := by
      by_contra hne
      have hmul := Nat.mul_le_mul_right op.withdrawalPeriodSec (Nat.one_le_iff_ne_zero.mpr hne)
      omega
    rw [hclaimed, if_pos hperiods]
    split at ha
    · obtain ⟨rest, hrest, ha⟩ := of_bind ha
      cases ha
      obtain ⟨rfl, -⟩ := of_safe hrest
      dsimp only at hamount
      omega
    · cases ha
      dsimp only at hamount
      omega

theorem kept (hkept : Kept op claims) (hfits : op.PeriodsFit)
    (htime : s.ledger.headBlockTime < 2 ^ 32) (hperiod : 0 < op.withdrawalPeriodSec) :
    Kept op (claims ++ [(s.ledger.headBlockTime, claim.amountToWithdraw.amount)]) := by
  have hcurrent' := h.current hcurrent htime hperiod
  have hlimit := h.le_limit hcurrent hfits htime hperiod
  constructor
  case within =>
    intro k
    by_cases hin : op.periodStartTime + k * op.withdrawalPeriodSec ≤ s.ledger.headBlockTime ∧
        s.ledger.headBlockTime < op.periodStartTime + (k + 1) * op.withdrawalPeriodSec
    · -- the period of the claim is the one that the permission now remembers
      obtain ⟨j, hj⟩ := hcurrent'.aligned
      have hlast := hcurrent'.last (s.ledger.headBlockTime, claim.amountToWithdraw.amount) (by simp)
      have hbounded := hcurrent'.bounded _ (List.mem_append_right _ (List.mem_singleton_self _))
      rw [hj] at hlast hbounded
      have hjk : j = k := by
        refine period_eq hlast ?_ hin.1 hin.2
        rw [Nat.add_mul, Nat.one_mul]
        omega
      have hclaimed := hcurrent'.claimed
      rw [hj, hjk, Nat.add_assoc] at hclaimed
      rw [Nat.add_mul, Nat.one_mul, ← hclaimed]
      exact hlimit
    · rw [claimedWithin_append, claimedWithin_singleton, if_neg hin, add_zero]
      exact hkept.within k
  case before =>
    intro c hc
    rcases List.mem_append.mp hc with hc | hc
    · exact hkept.before c hc
    · obtain rfl := List.mem_singleton.mp hc
      have hunexpired := h.unexpired
      have hle := op.expiration_le
      rw [hcurrent.expiration] at hunexpired
      show s.ledger.headBlockTime < _
      omega

end

end Claimed

def Initial (c : Chain) : Prop :=
  c.state.objects.permissions = ∅ ∧ c.history = [] ∧ c.state.ledger.headBlockTime < 2 ^ 32

def GrantsFit (_ : Chain) : Event → Prop
  | .create _ _ op => op.PeriodsFit
  | _ => True

structure Sound (c : Chain) : Prop where
  time : c.state.ledger.headBlockTime < 2 ^ 32
  below : ∀ id op, .created id op ∈ c.history → id < c.state.objects.permissions.next
  claims_below : ∀ id time amount, .claimed id time amount ∈ c.history →
    id < c.state.objects.permissions.next
  granted : ∀ id p, c.state.objects.permissions.find id = some p →
    ∃ op, .created id op ∈ c.history
  periods : ∀ id op, .created id op ∈ c.history → 0 < op.withdrawalPeriodSec ∧ op.PeriodsFit
  kept : ∀ id op, .created id op ∈ c.history → Kept op (claimsOf id c.history)
  current : ∀ id op p, .created id op ∈ c.history →
    c.state.objects.permissions.find id = some p → Current op (claimsOf id c.history) p

variable {c : Chain}

theorem Initial.sound (h : Initial c) : Sound c := by
  obtain ⟨hpermissions, hhistory, htime⟩ := h
  constructor
  case time => exact htime
  case granted =>
    intro id p hp
    rw [hpermissions] at hp
    cases hp
  all_goals simp [hhistory]

theorem claimsOf_concat_ne {id id' time : Nat} {amount : Int} (hne : id' ≠ id)
    (history : List Record) :
    claimsOf id (history ++ [.claimed id' time amount]) = claimsOf id history := by
  rw [claimsOf_append]
  simp [claimsOf, hne]

theorem claimsOf_concat_created (id id' : Nat) (op : CreateOperation) (history : List Record) :
    claimsOf id (history ++ [.created id' op]) = claimsOf id history := by
  rw [claimsOf_append]
  simp [claimsOf]

theorem Sound.claimsOf_next (h : Sound c) :
    claimsOf c.state.objects.permissions.next c.history = [] := by
  rw [List.eq_nil_iff_forall_not_mem]
  rintro ⟨time, amount⟩ hmem
  exact Nat.lt_irrefl _ (h.claims_below _ _ _ (mem_claimsOf.mp hmem))

variable {state : State}

theorem Sound.create {op : CreateOperation} (h : Sound c) (hlimit : 0 < op.withdrawalLimit.amount)
    (hperiod : 0 < op.withdrawalPeriodSec) (hfits : op.PeriodsFit)
    (htime : state.ledger.headBlockTime = c.state.ledger.headBlockTime)
    (hobjects : state.objects = { c.state.objects with
      permissions := c.state.objects.permissions.create op.permission }) :
    Sound ⟨state, c.history ++ [.created c.state.objects.permissions.next op]⟩ := by
  have hnext : state.objects.permissions.next = c.state.objects.permissions.next + 1 := by
    rw [hobjects]
    rfl
  have hfind : ∀ id, state.objects.permissions.find id =
      if id = c.state.objects.permissions.next then some op.permission
      else c.state.objects.permissions.find id := by
    intro id
    rw [hobjects]
    exact Index.find_create _ _ _
  -- a record of the new history is an old one or the new grant
  have hcases : ∀ id op', Record.created id op' ∈
        c.history ++ [.created c.state.objects.permissions.next op] →
      Record.created id op' ∈ c.history ∨ id = c.state.objects.permissions.next ∧ op' = op := by
    intro id op' hmem
    rcases List.mem_append.mp hmem with hmem | hmem
    · exact .inl hmem
    · cases List.mem_singleton.mp hmem
      exact .inr ⟨rfl, rfl⟩
  constructor
  case time => rw [htime]; exact h.time
  case below =>
    intro id op' hmem
    show id < state.objects.permissions.next
    rcases hcases id op' hmem with hmem | ⟨rfl, -⟩
    · have := h.below id op' hmem
      omega
    · omega
  case claims_below =>
    intro id time amount hmem
    show id < state.objects.permissions.next
    have hold : Record.claimed id time amount ∈ c.history := by simpa using hmem
    have := h.claims_below id time amount hold
    omega
  case granted =>
    intro id p hp
    replace hp : state.objects.permissions.find id = some p := hp
    rw [hfind] at hp
    split at hp
    · rename_i heq
      exact ⟨op, by simp [heq]⟩
    · obtain ⟨op', hmem⟩ := h.granted id p hp
      exact ⟨op', List.mem_append_left _ hmem⟩
  case periods =>
    intro id op' hmem
    rcases hcases id op' hmem with hmem | ⟨-, rfl⟩
    · exact h.periods id op' hmem
    · exact ⟨hperiod, hfits⟩
  case kept =>
    intro id op' hmem
    rw [claimsOf_concat_created]
    rcases hcases id op' hmem with hmem | ⟨rfl, rfl⟩
    · exact h.kept id op' hmem
    · rw [h.claimsOf_next]
      exact .created hlimit
  case current =>
    intro id op' p hmem hp
    replace hp : state.objects.permissions.find id = some p := hp
    rw [hfind] at hp
    rw [claimsOf_concat_created]
    rcases hcases id op' hmem with hmem | ⟨rfl, rfl⟩
    · have hne : id ≠ c.state.objects.permissions.next := Nat.ne_of_lt (h.below id op' hmem)
      rw [if_neg hne] at hp
      exact h.current id op' p hmem hp
    · rw [if_pos rfl] at hp
      cases hp
      rw [h.claimsOf_next]
      exact .created op'

theorem Sound.claim {op : ClaimOperation} {p p' : WithdrawPermission} (h : Sound c)
    (hclaimed : Claimed c.state op p p')
    (htime : state.ledger.headBlockTime = c.state.ledger.headBlockTime)
    (hobjects : state.objects = { c.state.objects with
      permissions := c.state.objects.permissions.modify op.withdrawPermission fun _ => p' }) :
    Sound ⟨state, c.history ++ [.claimed op.withdrawPermission c.state.ledger.headBlockTime
      op.amountToWithdraw.amount]⟩ := by
  have hnext : state.objects.permissions.next = c.state.objects.permissions.next := by
    rw [hobjects]
    rfl
  have hfind : ∀ id, state.objects.permissions.find id =
      if id = op.withdrawPermission then some p' else c.state.objects.permissions.find id := by
    intro id
    rw [hobjects]
    show (Index.modify _ _ _).find id = _
    rw [Index.find_modify, hclaimed.found]
    rfl
  have hcreated : ∀ id op', Record.created id op' ∈ c.history ++ [.claimed op.withdrawPermission
        c.state.ledger.headBlockTime op.amountToWithdraw.amount] →
      Record.created id op' ∈ c.history := by
    intro id op' hmem
    simpa using hmem
  obtain ⟨grant, hgrant⟩ := h.granted _ _ hclaimed.found
  have hclaims : claimsOf op.withdrawPermission (c.history ++ [.claimed op.withdrawPermission
        c.state.ledger.headBlockTime op.amountToWithdraw.amount]) =
      claimsOf op.withdrawPermission c.history ++
        [(c.state.ledger.headBlockTime, op.amountToWithdraw.amount)] := by
    rw [claimsOf_append]
    simp [claimsOf]
  constructor
  case time => rw [htime]; exact h.time
  case below =>
    intro id op' hmem
    show id < state.objects.permissions.next
    rw [hnext]
    exact h.below id op' (hcreated id op' hmem)
  case claims_below =>
    intro id time amount hmem
    show id < state.objects.permissions.next
    rw [hnext]
    rcases List.mem_append.mp hmem with hmem | hmem
    · exact h.claims_below id time amount hmem
    · cases List.mem_singleton.mp hmem
      exact h.below _ grant hgrant
  case granted =>
    intro id p'' hp
    replace hp : state.objects.permissions.find id = some p'' := hp
    rw [hfind] at hp
    split at hp
    · rename_i heq
      exact ⟨grant, List.mem_append_left _ (heq ▸ hgrant)⟩
    · obtain ⟨op', hmem⟩ := h.granted id p'' hp
      exact ⟨op', List.mem_append_left _ hmem⟩
  case periods =>
    intro id op' hmem
    exact h.periods id op' (hcreated id op' hmem)
  case kept =>
    intro id op' hmem
    have hmem := hcreated id op' hmem
    by_cases hid : id = op.withdrawPermission
    · subst hid
      obtain ⟨hperiod, hfits⟩ := h.periods _ op' hmem
      rw [hclaims]
      exact hclaimed.kept (h.current _ op' p hmem hclaimed.found) (h.kept _ op' hmem) hfits h.time
        hperiod
    · rw [claimsOf_concat_ne (Ne.symm hid)]
      exact h.kept id op' hmem
  case current =>
    intro id op' p'' hmem hp
    have hmem := hcreated id op' hmem
    replace hp : state.objects.permissions.find id = some p'' := hp
    rw [hfind] at hp
    split at hp
    · rename_i hid
      subst hid
      cases hp
      rw [hclaims]
      exact hclaimed.current (h.current _ op' p hmem hclaimed.found) h.time
        (h.periods _ op' hmem).1
    · rename_i hid
      rw [claimsOf_concat_ne (Ne.symm hid)]
      exact h.current id op' p'' hmem hp

theorem Sound.narrow (h : Sound c) (htime : state.ledger.headBlockTime < 2 ^ 32)
    (hnext : state.objects.permissions.next = c.state.objects.permissions.next)
    (hfind : ∀ id p, state.objects.permissions.find id = some p →
      c.state.objects.permissions.find id = some p) : Sound { c with state } where
  time := htime
  below := fun id op hmem => hnext ▸ h.below id op hmem
  claims_below := fun id time amount hmem => hnext ▸ h.claims_below id time amount hmem
  granted := fun id p hp => h.granted id p (hfind id p hp)
  periods := h.periods
  kept := h.kept
  current := fun id op p hmem hp => h.current id op p hmem (hfind id p hp)

theorem foldl_remove_next (ids : List Nat) (t : Index WithdrawPermission) :
    (ids.foldl Index.remove t).next = t.next := by
  induction ids generalizing t with
  | nil => rfl
  | cons id ids ih => exact ih (t.remove id)

theorem step_sound {c' : Chain} {e : Event} (h : Sound c) (hfits : GrantsFit c e)
    (hstep : step c e = .ok c') : Sound c' := by
  cases e with
  | create ctx requiredFee op =>
    obtain ⟨state, hcommit, hc'⟩ := of_bind hstep
    cases hc'
    obtain ⟨id, hreturns⟩ := Lib.commit_eq_ok.mp hcommit
    obtain ⟨hlimit, hperiod, htime, hobjects⟩ := CreateOperation.of_evaluate hreturns
    exact h.create hlimit hperiod hfits htime hobjects
  | claim ctx requiredFee op =>
    obtain ⟨state, hcommit, hc'⟩ := of_bind hstep
    cases hc'
    obtain ⟨_, hreturns⟩ := Lib.commit_eq_ok.mp hcommit
    obtain ⟨p, p', hclaimed, htime, hobjects⟩ := ClaimOperation.of_evaluate hreturns
    exact h.claim hclaimed htime hobjects
  | block time =>
    obtain ⟨htime, hc'⟩ := of_fcAssert hstep
    cases hc'
    refine h.narrow htime.2 (foldl_remove_next _ _) fun id p hp => ?_
    replace hp : (updateWithdrawPermissions time c.state.objects.permissions).find id = some p := hp
    rw [updateWithdrawPermissions, Index.find_foldl_remove] at hp
    split at hp
    · cases hp
    · exact hp
  | elsewhere ledger blockInterval =>
    obtain ⟨htime, hc'⟩ := of_fcAssert hstep
    cases hc'
    refine h.narrow ?_ rfl fun id p hp => hp
    show ledger.headBlockTime < 2 ^ 32
    rw [htime]
    exact h.time

/-- If every permission that is granted has periods that fit, no more than the limit is claimed in
any period and nothing after the last one, and `claimed_this_period` is what was claimed in the
period of the last claim. -/
theorem claims_within_limit {c : Chain} (h : Reachable step Initial GrantsFit c) (id : Nat)
    (op : CreateOperation) (hgranted : .created id op ∈ c.history) :
    (∀ k, claimedWithin (claimsOf id c.history) (op.periodStartTime + k * op.withdrawalPeriodSec)
        (op.periodStartTime + (k + 1) * op.withdrawalPeriodSec) ≤ op.withdrawalLimit.amount) ∧
    (∀ time amount, .claimed id time amount ∈ c.history →
      time < op.periodStartTime + op.periodsUntilExpiration * op.withdrawalPeriodSec) ∧
    ∀ p, c.state.objects.permissions.find id = some p →
      match (claimsOf id c.history).getLast? with
      | none => p.claimedThisPeriod = 0
      | some (time, _) =>
        let k := (time - op.periodStartTime) / op.withdrawalPeriodSec
        p.claimedThisPeriod = claimedWithin (claimsOf id c.history)
          (op.periodStartTime + k * op.withdrawalPeriodSec)
          (op.periodStartTime + (k + 1) * op.withdrawalPeriodSec) := by
  have hsound : Sound c := h.invariant Sound (fun _ => Initial.sound)
    fun _ _ _ hs hfits hstep => step_sound hs hfits hstep
  have hkept := hsound.kept id op hgranted
  refine ⟨hkept.within, fun time amount hmem => hkept.before _ (mem_claimsOf.mpr hmem), ?_⟩
  intro p hp
  have hcurrent := hsound.current id op p hgranted hp
  cases hlast : (claimsOf id c.history).getLast? with
  | none =>
    have hnil : claimsOf id c.history = [] := List.getLast?_eq_none_iff.mp hlast
    rw [hcurrent.claimed, hnil]
    rfl
  | some claim =>
    obtain ⟨j, hj⟩ := hcurrent.aligned
    have hstart := hcurrent.last claim hlast
    have hend := hcurrent.bounded claim (List.mem_of_getLast? hlast)
    have hk : (claim.1 - op.periodStartTime) / op.withdrawalPeriodSec = j := by
      apply Nat.div_eq_of_lt_le
      · omega
      · rw [Nat.add_mul, Nat.one_mul]
        omega
    dsimp only
    rw [hk, hcurrent.claimed, hj, Nat.add_mul, Nat.one_mul, Nat.add_assoc]

instance (c : Chain) : (e : Event) → Decidable (GrantsFit c e)
  | .create _ _ op => inferInstanceAs (Decidable op.PeriodsFit)
  | .claim .. | .block .. | .elsewhere .. => .isTrue trivial

def sampleChain : Chain where
  state :=
    { ledger :=
        { headBlockTime := 1599999999
          accounts := ((Index.create ∅ { registrar := 0, referrer := 0 }).create
            { registrar := 0, referrer := 0 }).create { registrar := 0, referrer := 0 }
          balances := AList.insert (1, core) 1000 ∅
          assets := Index.create ∅
            { issuer := 0, options := { coreExchangeRate := ⟨⟨1, core⟩, ⟨1, core⟩⟩ } } }
      objects := ⟨5, ∅⟩ }

def sampleGrant (periodSec : Nat) : CreateOperation :=
  ⟨⟨0, core⟩, 1, 2, ⟨100, core⟩, periodSec, 2, 1600000000⟩

def sampleClaim : Event := .claim {} 0 ⟨⟨0, core⟩, 0, 1, 2, ⟨100, core⟩⟩

theorem sampleChain_initial : Initial sampleChain := ⟨rfl, rfl, by decide⟩

theorem claims_within_limit_daily :
    ∃ c, Reachable step Initial GrantsFit c ∧
      claimsOf 0 c.history = [(1600000000, 100)] ∧
      ∀ k, claimedWithin (claimsOf 0 c.history) (1600000000 + k * 86400)
        (1600000000 + (k + 1) * 86400) ≤ 100 := by
  have hrun : ∃ c, Reachable step Initial GrantsFit c ∧
      .created 0 (sampleGrant 86400) ∈ c.history ∧
      claimsOf 0 c.history = [(1600000000, 100)] := by
    apply Reachable.of_run [.create {} 0 (sampleGrant 86400), .block 1600000000, sampleClaim]
      sampleChain_initial
    · decide +kernel
    · decide +kernel
  obtain ⟨c, hreach, hgranted, hclaims⟩ := hrun
  exact ⟨c, hreach, hclaims, (claims_within_limit hreach 0 _ hgranted).1⟩

/-- The first of two periods of 3000000000 seconds ends after the last second that 32 bits count, so
both claims of its first second are for the whole limit. -/
theorem limit_exceeded :
    ∃ c, Reachable step Initial (fun _ _ => True) c ∧
      .created 0 (sampleGrant 3000000000) ∈ c.history ∧
      (sampleGrant 3000000000).withdrawalLimit.amount <
        claimedWithin (claimsOf 0 c.history)
          ((sampleGrant 3000000000).periodStartTime +
            0 * (sampleGrant 3000000000).withdrawalPeriodSec)
          ((sampleGrant 3000000000).periodStartTime +
            (0 + 1) * (sampleGrant 3000000000).withdrawalPeriodSec) := by
  apply Reachable.of_run
    [.create {} 0 (sampleGrant 3000000000), .block 1600000000, sampleClaim, sampleClaim]
    sampleChain_initial
  · decide +kernel
  · decide +kernel

end Meta1Core.Permissions
