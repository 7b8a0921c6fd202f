import Meta1Core.Signing.Verify

/-!
# Authorities without the search

Whether an account counts is a function of the signatures and of the accounts that are approved from
the start, where the chains of `account_auths` end before the depth of the search does.
-/

namespace Meta1Core.Signing

open Protocol

section

variable {Key Addr : Type} [LinearOrder Key] [DecidableEq Addr]

variable (h : Hashing Key Addr) (rules : Rules Key Addr) (sigs : List Key) (initial : List AccountId)

def reaches (counts : AccountId → Bool) (au : Authority Key Addr) : Bool :=
  match signatureTally h sigs au with
  | none => true
  | some total =>
    match tally counts au.weightThreshold au.accountAuths total with
    | none => true
    | some total => decide (au.weightThreshold ≤ total)

def reachesPointer (counts : AccountId → Bool) : Option (Authority Key Addr) → Bool
  | none => false
  | some au => reaches h sigs counts au

/-- The active authority of the account, or its owner authority where it may stand in -/
def reachesAccount (counts : AccountId → Bool) (id : AccountId) : Bool :=
  reachesPointer h sigs counts (rules.getActive id) ||
    (rules.allowNonImmediateOwner && reachesPointer h sigs counts (rules.getOwner id))

/-- Does the account count, with this many levels below it? -/
def approvable : Nat → AccountId → Bool
  | 0, id => decide (id ∈ initial)
  | levels + 1, id => decide (id ∈ initial) || reachesAccount h rules sigs (approvable levels) id

/-- Every chain of accounts from this one comes to approved accounts only, within so many levels. -/
def Ends : Nat → AccountId → Prop
  | 0, id => id ∈ initial
  | levels + 1, id =>
    id ∈ initial ∨ ∀ au, Represents rules au id → ∀ entry ∈ au.accountAuths, Ends levels entry.1

/-- The entries that a loop asks for, up to the one with which the threshold is reached -/
def askedFor {α : Type} (signed : α → Bool) (threshold : UInt32) :
    List (α × UInt16) → UInt32 → List α
  | [], _ => []
  | (a, w) :: rest, total =>
    a :: if signed a then
      if threshold ≤ total + w.toUInt32 then []
      else askedFor signed threshold rest (total + w.toUInt32)
    else askedFor signed threshold rest total

def asked (counts : AccountId → Bool) (au : Authority Key Addr) : List AccountId :=
  match signatureTally h sigs au with
  | none => []
  | some total => askedFor counts au.weightThreshold au.accountAuths total

def Consults (counts : AccountId → Bool) (id : AccountId) (au : Authority Key Addr) : Prop :=
  rules.getActive id = some au ∨ reachesPointer h sigs counts (rules.getActive id) = false ∧
    rules.allowNonImmediateOwner = true ∧ rules.getOwner id = some au

/-- The authorities that come into view from one of them -/
inductive Looks (counts : AccountId → Bool) : Authority Key Addr → Authority Key Addr → Prop
  | refl (au : Authority Key Addr) : Looks counts au au
  | through {au au1 au' : Authority Key Addr} {id : AccountId} :
      id ∈ asked h sigs counts au → id ∉ initial → Consults h rules sigs counts id au1 →
      Looks counts au1 au' → Looks counts au au'

/-- The authorities that come into view from an account -/
def LooksFrom (counts : AccountId → Bool) (id : AccountId) (au : Authority Key Addr) : Prop :=
  id ∉ initial ∧ ∃ au1, Consults h rules sigs counts id au1 ∧ Looks h rules sigs initial counts au1 au

def ownerReachedBy (counts : AccountId → Bool) (id : AccountId) : Bool :=
  reachesPointer h sigs counts (rules.getOwner id)

/-- The authorities that come into view from the owner authority of an account -/
def OwnerLooksBy (counts : AccountId → Bool) (id : AccountId) (au : Authority Key Addr) : Prop :=
  ∃ au1, rules.getOwner id = some au1 ∧ Looks h rules sigs initial counts au1 au

def ActiveReachedBy (counts : AccountId → Bool) (id : AccountId) : Prop :=
  id ∈ initial ∨ reachesAccount h rules sigs counts id = true ∨
    ownerReachedBy h rules sigs counts id = true

/-- The authorities that come into view from what is asked of a required active account -/
def ActiveLooksBy (counts : AccountId → Bool) (id : AccountId) (au : Authority Key Addr) : Prop :=
  id ∉ initial ∧ (LooksFrom h rules sigs initial counts id au ∨
    reachesAccount h rules sigs counts id = false ∧ OwnerLooksBy h rules sigs initial counts id au)

structure AllReachedBy (counts : AccountId → Bool) (required : Required Key Addr)
    (ownerApprovals : List AccountId) : Prop where
  other : ∀ au ∈ required.other, reaches h sigs counts au = true
  owner : ∀ id ∈ required.owner, id ∈ ownerApprovals ∨ ownerReachedBy h rules sigs counts id = true
  active : ∀ id ∈ required.active, ActiveReachedBy h rules sigs initial counts id

/-- The authorities that come into view from what is required -/
def ComesToBy (counts : AccountId → Bool) (required : Required Key Addr) (ownerApprovals : List AccountId)
    (au : Authority Key Addr) : Prop :=
  (∃ au1 ∈ required.other, Looks h rules sigs initial counts au1 au) ∨
    (∃ id ∈ required.owner, id ∉ ownerApprovals ∧ OwnerLooksBy h rules sigs initial counts id au) ∨
    ∃ id ∈ required.active, ActiveLooksBy h rules sigs initial counts id au

variable {h rules sigs initial}

theorem tally_congr {α : Type} {signed signed' : α → Bool} {threshold : UInt32}
    {entries : List (α × UInt16)} (total : UInt32)
    (heq : ∀ entry ∈ entries, signed entry.1 = signed' entry.1) :
    tally signed threshold entries total = tally signed' threshold entries total := by
  induction entries generalizing total with
  | nil => rfl
  | cons entry rest ih =>
    obtain ⟨a, w⟩ := entry
    have hrest : ∀ entry ∈ rest, signed entry.1 = signed' entry.1 :=
      fun entry hentry => heq entry (List.mem_cons_of_mem _ hentry)
    unfold tally
    rw [heq (a, w) List.mem_cons_self, ih _ hrest, ih _ hrest]

variable {counts counts' : AccountId → Bool} {id : AccountId}

theorem reaches_congr {au : Authority Key Addr}
    (heq : ∀ entry ∈ au.accountAuths, counts entry.1 = counts' entry.1) :
    reaches h sigs counts au = reaches h sigs counts' au := by
  unfold reaches
  cases signatureTally h sigs au with
  | none => rfl
  | some total =>
    dsimp only
    rw [tally_congr total heq]

theorem reachesPointer_congr {pointer : Option (Authority Key Addr)}
    (heq : ∀ au, pointer = some au → ∀ entry ∈ au.accountAuths, counts entry.1 = counts' entry.1) :
    reachesPointer h sigs counts pointer = reachesPointer h sigs counts' pointer := by
  cases pointer with
  | none => rfl
  | some au => exact reaches_congr (heq au rfl)

theorem reachesAccount_congr
    (heq : ∀ au, Represents rules au id → ∀ entry ∈ au.accountAuths, counts entry.1 = counts' entry.1) :
    reachesAccount h rules sigs counts id = reachesAccount h rules sigs counts' id := by
  have hactive : reachesPointer h sigs counts (rules.getActive id) =
      reachesPointer h sigs counts' (rules.getActive id) :=
    reachesPointer_congr fun au hau => heq au (.inl hau)
  unfold reachesAccount
  rw [hactive]
  cases hallow : rules.allowNonImmediateOwner with
  | false => rfl
  | true =>
    have howner : reachesPointer h sigs counts (rules.getOwner id) =
        reachesPointer h sigs counts' (rules.getOwner id) :=
      reachesPointer_congr fun au hau => heq au (.inr ⟨hallow, hau⟩)
    rw [howner]

theorem approvable_eq {levels n m : Nat} (hends : Ends rules initial levels id) (hn : levels ≤ n)
    (hm : levels ≤ m) :
    approvable h rules sigs initial n id = approvable h rules sigs initial m id := by
  induction levels generalizing n m id with
  | zero =>
    have hmem : ∀ k, approvable h rules sigs initial k id = true := by
      intro k
      have hid : decide (id ∈ initial) = true := decide_eq_true hends
      cases k with
      | zero => exact hid
      | succ k =>
        unfold approvable
        rw [hid]
        rfl
    rw [hmem n, hmem m]
  | succ levels ih =>
    obtain ⟨n, rfl⟩ : ∃ n', n = n' + 1 := Nat.exists_eq_add_one_of_ne_zero (by omega)
    obtain ⟨m, rfl⟩ : ∃ m', m = m' + 1 := Nat.exists_eq_add_one_of_ne_zero (by omega)
    unfold approvable
    by_cases hid : id ∈ initial
    · rw [decide_eq_true hid]
      rfl
    · have hchain := hends.resolve_left hid
      rw [reachesAccount_congr fun au hau entry hentry =>
        ih (hchain au hau entry hentry) (Nat.le_of_succ_le_succ hn) (Nat.le_of_succ_le_succ hm)]

theorem approvable_iff {levels depth : Nat} (hends : Ends rules initial (levels + 1) id)
    (hle : levels + 1 ≤ depth) :
    approvable h rules sigs initial depth id =
      (decide (id ∈ initial) ||
        reachesAccount h rules sigs (approvable h rules sigs initial depth) id) := by
  rw [approvable_eq hends hle (Nat.le_refl _)]
  conv_lhs => unfold approvable
  by_cases hid : id ∈ initial
  · rw [decide_eq_true hid]
    rfl
  · have hchain := hends.resolve_left hid
    rw [reachesAccount_congr fun au hau entry hentry =>
      approvable_eq (hchain au hau entry hentry) (Nat.le_refl _) (Nat.le_of_succ_le hle)]

theorem approvable_of_mem (hid : id ∈ initial) (depth : Nat) :
    approvable h rules sigs initial depth id = true := by
  cases depth with
  | zero => exact decide_eq_true hid
  | succ depth =>
    unfold approvable
    rw [decide_eq_true hid]
    rfl

theorem looks_iff {au au' : Authority Key Addr} :
    Looks h rules sigs initial counts au au' ↔
      au' = au ∨ ∃ id ∈ asked h sigs counts au, LooksFrom h rules sigs initial counts id au' := by
  constructor
  · intro hlooks
    cases hlooks with
    | refl => exact .inl rfl
    | through hasked hnew hconsults hrest => exact .inr ⟨_, hasked, hnew, _, hconsults, hrest⟩
  · rintro (rfl | ⟨id, hasked, hnew, au1, hconsults, hrest⟩)
    · exact .refl _
    · exact .through hasked hnew hconsults hrest

end

end Meta1Core.Signing
