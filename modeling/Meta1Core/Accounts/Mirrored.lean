import Meta1Core.Accounts.SpecialAuthorities

/-!
# The special authority objects mirror the accounts

An update compares what the account has before and after, and creates or removes the object accordingly.  A
creation only looks at whether an extension is there: with an extension that says explicitly that there is
no special authority, the account gets an object that it should not have.
-/

namespace Meta1Core.Accounts

open Lib (Index Reachable Succeeds of_bind)
open Protocol

variable {Key Addr : Type}

def Listed (t : Index SpecialAuthorityObject) (account : AccountId) : Prop :=
  ∃ id, t.find id = some ⟨account⟩

def Unique (t : Index SpecialAuthorityObject) : Prop :=
  ∀ id id' sa, t.find id = some sa → t.find id' = some sa → id = id'

variable {t t' : Index SpecialAuthorityObject} {account account' : AccountId}

theorem of_findId_account {id : Nat} (h : t.findId (·.account = account) = some id) :
    t.find id = some ⟨account⟩ := by
  obtain ⟨sa, hfind, haccount⟩ := Index.of_findId_eq_some h
  rw [decide_eq_true_eq] at haccount
  rw [hfind, ← haccount]

theorem findId_account_eq_none : t.findId (·.account = account) = none ↔ ¬Listed t account := by
  constructor
  · intro hnone hlisted
    obtain ⟨id, hfind⟩ := hlisted
    have hother := Index.of_findId_eq_none hnone hfind
    simp at hother
  · intro hnot
    apply Index.findId_eq_none
    intro id sa hfind
    rw [decide_eq_false_iff_not]
    intro haccount
    apply hnot
    exact ⟨id, by rw [hfind, ← haccount]⟩

theorem createSpecialAuthority_eq_ok (hnot : ¬Listed t account) :
    createSpecialAuthority t account = .ok (t.create ⟨account⟩) := by
  unfold createSpecialAuthority
  rw [findId_account_eq_none.mpr hnot]

theorem removeSpecialAuthority_eq_ok (hlisted : Listed t account) :
    ∃ id, t.find id = some ⟨account⟩ ∧ removeSpecialAuthority t account = .ok (t.remove id) := by
  unfold removeSpecialAuthority
  cases hfind : t.findId (·.account = account) with
  | none => exact absurd hlisted (findId_account_eq_none.mp hfind)
  | some id => exact ⟨id, of_findId_account hfind, rfl⟩

theorem listed_create : Listed (t.create ⟨account⟩) account' ↔ account' = account ∨ Listed t account' := by
  constructor
  · intro hlisted
    obtain ⟨id, hfind⟩ := hlisted
    rw [Index.find_create] at hfind
    split at hfind
    · cases hfind
      exact .inl rfl
    · exact .inr ⟨id, hfind⟩
  · intro hor
    rcases hor with heq | hlisted
    · refine ⟨t.next, ?_⟩
      rw [Index.find_create, if_pos rfl, heq]
    · obtain ⟨id, hfind⟩ := hlisted
      refine ⟨id, ?_⟩
      rw [Index.find_create, if_neg]
      · exact hfind
      · intro hnext
        rw [hnext, t.find_next] at hfind
        cases hfind

theorem Unique.create (h : Unique t) (hnot : ¬Listed t account) : Unique (t.create ⟨account⟩) := by
  intro id id' sa hfind hfind'
  rw [Index.find_create] at hfind hfind'
  split at hfind
  · rename_i hnext
    split at hfind'
    · rename_i hnext'
      rw [hnext, hnext']
    · cases hfind
      exact absurd ⟨id', hfind'⟩ hnot
  · split at hfind'
    · cases hfind'
      exact absurd ⟨id, hfind⟩ hnot
    · exact h id id' sa hfind hfind'

theorem listed_remove (h : Unique t) {id : Nat} (hid : t.find id = some ⟨account⟩) :
    Listed (t.remove id) account' ↔ account' ≠ account ∧ Listed t account' := by
  constructor
  · intro hlisted
    obtain ⟨id', hfind⟩ := hlisted
    rw [Index.find_remove] at hfind
    split at hfind
    · cases hfind
    · rename_i hne
      refine ⟨fun heq => hne ?_, id', hfind⟩
      rw [heq] at hfind
      exact h id' id _ hfind hid
  · intro hand
    obtain ⟨hne, id', hfind⟩ := hand
    refine ⟨id', ?_⟩
    rw [Index.find_remove, if_neg]
    · exact hfind
    · intro heq
      rw [heq, hid] at hfind
      cases hfind
      exact hne rfl

theorem Unique.remove (h : Unique t) (id : Nat) : Unique (t.remove id) := by
  intro id1 id2 sa hfind hfind'
  rw [Index.find_remove] at hfind hfind'
  split at hfind
  · cases hfind
  · split at hfind'
    · cases hfind'
    · exact h id1 id2 sa hfind hfind'

/-- There is one object for each account that has a special authority, and none for another one. -/
structure Mirrors (s : Chain Key Addr) : Prop where
  exact : ∀ account, Listed s.specialAuthorities account ↔
    (s.voting.accounts.find account).isSome ∧ (s.authorities account).hasSpecialAuthority = true
  unique : Unique s.specialAuthorities

inductive AccountEvent (Key Addr : Type) where
  | create (o : AccountCreateOperation Key Addr)
  | update (o : AccountChange Key Addr)
  /-- anything else -/
  | other (t : Chain Key Addr)

/-- No other part of the chain touches the accounts, their special authorities and the objects. -/
structure Elsewhere (s t : Chain Key Addr) : Prop where
  accounts : ∀ account, (t.voting.accounts.find account).isSome = (s.voting.accounts.find account).isSome
  authorities : ∀ account,
    (t.authorities account).ownerSpecialAuthority = (s.authorities account).ownerSpecialAuthority ∧
      (t.authorities account).activeSpecialAuthority = (s.authorities account).activeSpecialAuthority
  specialAuthorities : t.specialAuthorities = s.specialAuthorities

def AccountEvent.Occurs (s : Chain Key Addr) : AccountEvent Key Addr → Prop
  | .other t => Elsewhere s t
  | _ => True

def AccountCreateOperation.Meaningful (o : AccountCreateOperation Key Addr) : Prop :=
  o.ownerSpecialAuthority.isSome ∨ o.activeSpecialAuthority.isSome →
    (∃ a, o.ownerSpecialAuthority = some a ∧ a ≠ .noSpecialAuthority) ∨
      ∃ a, o.activeSpecialAuthority = some a ∧ a ≠ .noSpecialAuthority

def AccountEvent.Meaningful : AccountEvent Key Addr → Prop
  | .create o => o.Meaningful
  | _ => True

namespace Chain

variable [DecidableEq Key] [DecidableEq Addr]

/-- One event; an operation that is refused leaves no trace. -/
def step (s : Chain Key Addr) : AccountEvent Key Addr → Except Exception (Chain Key Addr)
  | .create o => do
    o.validate
    o.doEvaluate s
    o.doApply s
  | .update o => do
    o.validate
    o.doEvaluate s
    o.doApply s
  | .other t => .ok t

end Chain

structure Starts (s : Chain Key Addr) : Prop where
  authorities : ∀ account, (s.authorities account).hasSpecialAuthority = false
  specialAuthorities : s.specialAuthorities = ∅

/-! ## Updates -/

variable {s s' : Chain Key Addr}

theorem Mirrors.doApply_update (h : Mirrors s) {o : AccountChange Key Addr}
    (hlive : (s.voting.accounts.find o.account).isSome) :
    ∃ t, o.doApply s = .ok { s with
        voting :=
          match o.newOptions with
          | some options => s.voting.modifyAccount o.account (Voting.AccountObject.updateOptions options)
          | none => s.voting
        authorities := Function.update s.authorities o.account (o.update (s.authorities o.account))
        specialAuthorities := t } ∧
      Unique t ∧ ∀ account, Listed t account ↔
        if account = o.account then (o.update (s.authorities o.account)).hasSpecialAuthority = true
        else Listed s.specialAuthorities account := by
  have hexact := h.exact o.account
  unfold AccountChange.doApply
  cases hbefore : (s.authorities o.account).hasSpecialAuthority with
  | true =>
    have hlisted : Listed s.specialAuthorities o.account := hexact.mpr ⟨hlive, hbefore⟩
    cases hafter : (o.update (s.authorities o.account)).hasSpecialAuthority with
    | true =>
      refine ⟨s.specialAuthorities, ?_, h.unique, fun account => ?_⟩
      · simp only [hbefore, hafter]
        rfl
      · split
        · rename_i heq
          rw [heq]
          simp only [hlisted]
        · rfl
    | false =>
      obtain ⟨id, hid, hremove⟩ := removeSpecialAuthority_eq_ok hlisted
      refine ⟨s.specialAuthorities.remove id, ?_, h.unique.remove id, fun account => ?_⟩
      · simp only [hbefore, hafter, hremove]
        rfl
      · rw [listed_remove h.unique hid]
        split
        · rename_i heq
          simp only [heq, ne_eq, not_true_eq_false, false_and, Bool.false_eq_true]
        · rename_i hne
          simp only [ne_eq, hne, not_false_eq_true, true_and]
  | false =>
    have hnot : ¬Listed s.specialAuthorities o.account := by
      intro hlisted
      obtain ⟨-, htrue⟩ := hexact.mp hlisted
      rw [hbefore] at htrue
      cases htrue
    cases hafter : (o.update (s.authorities o.account)).hasSpecialAuthority with
    | true =>
      refine ⟨s.specialAuthorities.create ⟨o.account⟩, ?_, h.unique.create hnot, fun account => ?_⟩
      · simp only [hbefore, hafter, createSpecialAuthority_eq_ok hnot]
        rfl
      · rw [listed_create]
        split
        · rename_i heq
          simp only [heq, true_or]
        · rename_i hne
          simp only [hne, false_or]
    | false =>
      refine ⟨s.specialAuthorities, ?_, h.unique, fun account => ?_⟩
      · simp only [hbefore, hafter]
        rfl
      · split
        · rename_i heq
          rw [heq]
          simp only [hnot, Bool.false_eq_true]
        · rfl

theorem AccountChange.isSome_of_doEvaluate {o : AccountChange Key Addr} (h : o.doEvaluate s = .ok ()) :
    (s.voting.accounts.find o.account).isSome := by
  unfold AccountChange.doEvaluate at h
  obtain ⟨-, h⟩ := of_fcAssert h
  obtain ⟨-, h⟩ := of_fcAssert h
  obtain ⟨-, -, h⟩ := of_bind h
  obtain ⟨-, -, h⟩ := of_bind h
  obtain ⟨-, -, h⟩ := of_bind h
  obtain ⟨-, -, h⟩ := of_bind h
  obtain ⟨a, haccount, -⟩ := of_bind h
  unfold Voting.State.account at haccount
  cases hfind : s.voting.accounts.find o.account with
  | none =>
    rw [hfind] at haccount
    cases haccount
  | some a => rfl

theorem isSome_modifyAccount (v : Voting.State) (id account : AccountId)
    (f : Voting.AccountObject → Voting.AccountObject) :
    ((v.modifyAccount id f).accounts.find account).isSome = (v.accounts.find account).isSome := by
  show ((v.accounts.modify id f).find account).isSome = _
  rw [Index.find_modify]
  split
  · rename_i heq
    rw [heq, Option.isSome_map]
  · rfl

theorem Mirrors.update (h : Mirrors s) {o : AccountChange Key Addr}
    (hlive : (s.voting.accounts.find o.account).isSome) (happly : o.doApply s = .ok s') : Mirrors s' := by
  obtain ⟨t, hok, hunique, hlisted⟩ := h.doApply_update hlive
  rw [hok] at happly
  cases happly
  refine ⟨fun account => ?_, hunique⟩
  have hsame : ((match o.newOptions with
      | some options => s.voting.modifyAccount o.account (Voting.AccountObject.updateOptions options)
      | none => s.voting).accounts.find account).isSome = (s.voting.accounts.find account).isSome := by
    split
    · exact isSome_modifyAccount _ _ _ _
    · rfl
  show Listed t account ↔ _ ∧ (Function.update s.authorities o.account _ account).hasSpecialAuthority = true
  rw [hlisted, hsame, Function.update_apply]
  split
  · rename_i heq
    rw [heq, and_iff_right hlive]
  · exact h.exact account

variable {o : AccountCreateOperation Key Addr}

theorem Mirrors.doApply_create (h : Mirrors s) (happly : o.doApply s = .ok s') :
    Unique s'.specialAuthorities ∧
      (∀ account, Listed s'.specialAuthorities account ↔
        if account = s.voting.accounts.next then
          o.ownerSpecialAuthority.isSome = true ∨ o.activeSpecialAuthority.isSome = true
        else Listed s.specialAuthorities account) ∧
      (∀ account, (s'.voting.accounts.find account).isSome =
        if account = s.voting.accounts.next then true else (s.voting.accounts.find account).isSome) ∧
      s'.authorities = Function.update s.authorities s.voting.accounts.next o.authorities := by
  have hnot : ¬Listed s.specialAuthorities s.voting.accounts.next := by
    intro hlisted
    obtain ⟨hlive, -⟩ := (h.exact _).mp hlisted
    rw [Index.find_next] at hlive
    cases hlive
  unfold AccountCreateOperation.doApply at happly
  obtain ⟨referrer, -, happly⟩ := of_bind happly
  obtain ⟨properties, -, happly⟩ := of_bind happly
  obtain ⟨t, ht, happly⟩ := of_bind happly
  have hbuyback : s'.specialAuthorities = t ∧
      s'.voting.accounts = s.voting.accounts.create (o.created s.voting referrer.lifetimeReferrer) ∧
      s'.authorities = Function.update s.authorities s.voting.accounts.next o.authorities := by
    dsimp only at happly
    split at happly
    · unfold AccountCreateOperation.createBuyback at happly
      split at happly
      · cases happly
      · split at happly
        · cases happly
        · cases happly
          exact ⟨rfl, rfl, rfl⟩
    · cases happly
      exact ⟨rfl, rfl, rfl⟩
  obtain ⟨hobjects, haccounts, hauthorities⟩ := hbuyback
  have hexists : ∀ account, (s'.voting.accounts.find account).isSome =
      if account = s.voting.accounts.next then true else (s.voting.accounts.find account).isSome := by
    intro account
    rw [haccounts, Index.find_create]
    split
    · rfl
    · rfl
  refine ⟨?_, ?_, hexists, hauthorities⟩
  · rw [hobjects]
    split at ht
    · rw [createSpecialAuthority_eq_ok hnot] at ht
      cases ht
      exact h.unique.create hnot
    · cases ht
      exact h.unique
  · intro account
    rw [hobjects]
    split at ht
    · rename_i hpresent
      rw [createSpecialAuthority_eq_ok hnot] at ht
      cases ht
      rw [listed_create]
      split
      · rename_i heq
        simp only [heq, true_or, hpresent]
      · rename_i hne
        simp only [hne, false_or]
    · rename_i habsent
      cases ht
      split
      · rename_i heq
        simp only [heq, hnot, habsent]
      · rfl

theorem AccountCreateOperation.hasSpecialAuthority_authorities :
    o.authorities.hasSpecialAuthority = true ↔
      (∃ a, o.ownerSpecialAuthority = some a ∧ a ≠ .noSpecialAuthority) ∨
        ∃ a, o.activeSpecialAuthority = some a ∧ a ≠ .noSpecialAuthority := by
  unfold AccountCreateOperation.authorities AccountAuthorities.hasSpecialAuthority
  rw [decide_eq_true_eq]
  cases o.ownerSpecialAuthority with
  | none => cases o.activeSpecialAuthority <;> simp
  | some a => cases o.activeSpecialAuthority <;> simp

theorem Mirrors.create_iff (h : Mirrors s) (happly : o.doApply s = .ok s') :
    Mirrors s' ↔ o.Meaningful := by
  obtain ⟨hunique, hlisted, hexists, hauthorities⟩ := h.doApply_create happly
  have hnew : Listed s'.specialAuthorities s.voting.accounts.next ↔
      o.ownerSpecialAuthority.isSome = true ∨ o.activeSpecialAuthority.isSome = true := by
    rw [hlisted, if_pos rfl]
  constructor
  · intro hmirrors hpresent
    obtain ⟨-, hhas⟩ := (hmirrors.exact _).mp (hnew.mpr hpresent)
    rw [hauthorities, Function.update_self] at hhas
    exact AccountCreateOperation.hasSpecialAuthority_authorities.mp hhas
  · intro hmeaningful
    refine ⟨fun account => ?_, hunique⟩
    rw [hexists, hauthorities, Function.update_apply]
    by_cases heq : account = s.voting.accounts.next
    · rw [heq, hnew, if_pos rfl, if_pos rfl, AccountCreateOperation.hasSpecialAuthority_authorities]
      constructor
      · exact fun hpresent => ⟨rfl, hmeaningful hpresent⟩
      · intro hhas
        rcases hhas.2 with ⟨a, howner, -⟩ | ⟨a, hactive, -⟩
        · exact .inl (by rw [howner]; rfl)
        · exact .inr (by rw [hactive]; rfl)
    · rw [hlisted, if_neg heq, if_neg heq, if_neg heq]
      exact h.exact account

theorem Mirrors.elsewhere {t : Chain Key Addr} (h : Mirrors s) (helsewhere : Elsewhere s t) : Mirrors t := by
  have hhas : ∀ account,
      (t.authorities account).hasSpecialAuthority = (s.authorities account).hasSpecialAuthority := by
    intro account
    obtain ⟨howner, hactive⟩ := helsewhere.authorities account
    unfold AccountAuthorities.hasSpecialAuthority
    rw [howner, hactive]
  constructor
  · intro account
    rw [helsewhere.specialAuthorities, helsewhere.accounts, hhas]
    exact h.exact account
  · rw [helsewhere.specialAuthorities]
    exact h.unique

theorem Starts.mirrors (h : Starts s) : Mirrors s := by
  constructor
  · intro account
    rw [h.specialAuthorities, h.authorities]
    constructor
    · intro hlisted
      obtain ⟨id, hfind⟩ := hlisted
      cases hfind
    · intro hhas
      cases hhas.2
  · rw [h.specialAuthorities]
    intro id id' sa hfind
    cases hfind

section

variable [DecidableEq Key] [DecidableEq Addr]

theorem Mirrors.step {e : AccountEvent Key Addr} (h : Mirrors s) (hoccurs : e.Occurs s)
    (hmeaningful : e.Meaningful) (hstep : s.step e = .ok s') : Mirrors s' := by
  cases e with
  | create o =>
    obtain ⟨-, -, hstep⟩ := of_bind hstep
    obtain ⟨-, -, happly⟩ := of_bind hstep
    exact (h.create_iff happly).mpr hmeaningful
  | update o =>
    obtain ⟨-, -, hstep⟩ := of_bind hstep
    obtain ⟨⟨⟩, hevaluate, happly⟩ := of_bind hstep
    exact h.update (AccountChange.isSome_of_doEvaluate hevaluate) happly
  | other t =>
    cases hstep
    exact h.elsewhere hoccurs

/-- As long as no account is created with extensions that are all explicitly empty, the objects
mirror the accounts, and an evaluated update can be applied. -/
theorem specialAuthorities_mirrored
    (h : Reachable Chain.step Starts (fun s e => e.Occurs s ∧ AccountEvent.Meaningful e) s) :
    Mirrors s ∧ (∀ o : AccountChange Key Addr, o.doEvaluate s = .ok () → ∃ t, o.doApply s = .ok t) ∧
      ∀ (o : AccountCreateOperation Key Addr) t, o.doApply s = .ok t → ¬o.Meaningful → ¬Mirrors t := by
  have hmirrors : Mirrors s := h.invariant Mirrors (fun s hstarts => hstarts.mirrors)
    (fun s e s' h hcond hstep => h.step hcond.1 hcond.2 hstep)
  refine ⟨hmirrors, fun o hevaluate => ?_, fun o t happly hempty hmirrors' => ?_⟩
  · obtain ⟨t, happly, -⟩ := hmirrors.doApply_update (AccountChange.isSome_of_doEvaluate hevaluate)
    exact ⟨_, happly⟩
  · exact hempty ((hmirrors.create_iff happly).mp hmirrors')

end

def freshChain : Chain Nat Nat where
  voting := Voting.genesis 1000 0 1600000000 {}
  authorities _ := { owner := nullAuthority, active := nullAuthority }
  properties := { parameters := ⟨0, 1000, 4⟩, pendingParameters := none, accountsRegisteredThisInterval := 0 }
  assets := Index.create ∅ { issuer := nullAccount }

def registerWith (special : SpecialAuthority) : AccountCreateOperation Nat Nat where
  registrar := 0
  referrer := 0
  name := "alice"
  owner := nullAuthority
  active := nullAuthority
  ownerSpecialAuthority := some special

def giveToHolders : AccountChange Nat Nat where
  account := 6
  ownerSpecialAuthority := some (.topHoldersSpecialAuthority 0 1)

theorem freshChain_starts : Starts freshChain := ⟨fun _ => rfl, rfl⟩

theorem specialAuthorities_mirrored_holders :
    ∃ s, Reachable Chain.step Starts (fun s e => e.Occurs s ∧ AccountEvent.Meaningful e) s ∧
      (s.authorities 6).hasSpecialAuthority = true ∧ Mirrors s ∧
      ∀ o : AccountChange Nat Nat, o.doEvaluate s = .ok () → ∃ t, o.doApply s = .ok t := by
  have hrun : ∃ s : Chain Nat Nat,
      Reachable Chain.step Starts (fun s e => e.Occurs s ∧ AccountEvent.Meaningful e) s ∧
      (s.authorities 6).hasSpecialAuthority = true := by
    apply Reachable.of_run [.create (registerWith (.topHoldersSpecialAuthority 0 1))] freshChain_starts
    · exact ⟨⟨trivial, fun _ => .inl ⟨_, rfl, by decide⟩⟩, by split <;> trivial⟩
    · exact ⟨_, rfl, by decide⟩
  obtain ⟨s, hs, hhas⟩ := hrun
  obtain ⟨hmirrors, happlies, -⟩ := specialAuthorities_mirrored hs
  exact ⟨s, hs, hhas, hmirrors, happlies⟩

/-- An account created with an explicitly empty extension is updated with a special authority: the
update is evaluated, but there is an object already. -/
theorem registered_explicitly_empty :
    ∃ s, Reachable Chain.step Starts (fun s e => e.Occurs s) s ∧
      (Listed s.specialAuthorities 6 ∧ (s.authorities 6).hasSpecialAuthority = false) ∧
      giveToHolders.validate = .ok () ∧ giveToHolders.doEvaluate s = .ok () ∧
      ¬∃ t, giveToHolders.doApply s = .ok t := by
  have hrun : ∃ s : Chain Nat Nat, Reachable Chain.step Starts (fun s e => e.Occurs s) s ∧
      s.specialAuthorities.findId (·.account = 6) = some 0 ∧
      (s.authorities 6).hasSpecialAuthority = false ∧ giveToHolders.validate = .ok () ∧
      giveToHolders.doEvaluate s = .ok () ∧ giveToHolders.doApply s =
        .error (.fc "Could not create object! Most likely a uniqueness constraint is violated.") := by
    apply Reachable.of_run [.create (registerWith .noSpecialAuthority)] freshChain_starts
    · exact ⟨trivial, by split <;> trivial⟩
    · exact ⟨_, rfl, by decide, by decide, by decide, by decide, rfl⟩
  obtain ⟨s, hs, hid, hhas, hvalidate, hevaluate, happly⟩ := hrun
  refine ⟨s, hs, ⟨⟨0, of_findId_account hid⟩, hhas⟩, hvalidate, hevaluate, fun hok => ?_⟩
  obtain ⟨t, ht⟩ := hok
  rw [happly] at ht
  cases ht

end Meta1Core.Accounts
