import Meta1Core.Accounts.MemberIndex

/-!
# The memberships are exact

The walk over the sets before and after a modification may take away the link of a key that stays,
but then it links the key again.
-/

namespace Meta1Core.Accounts

open Lib (FlatSet Links Table)
open Protocol

variable {Key Addr : Type} {κ : Type} [LinearOrder κ]

def Linked (members : AccountObject Key Addr → FlatSet κ)
    (accounts : Table AccountId (AccountObject Key Addr)) (m : Links κ AccountId) : Prop :=
  m.Inverts fun id k => ∃ a, accounts.lookup id = some a ∧ k ∈ members a

namespace Linked

variable {members : AccountObject Key Addr → FlatSet κ}
  {accounts : Table AccountId (AccountObject Key Addr)} {m : Links κ AccountId} {id : AccountId}
  {a : AccountObject Key Addr}

theorem mem_iff (h : Linked members accounts m) (ha : accounts.lookup id = some a) (k : κ) :
    id ∈ m.members k ↔ k ∈ members a := by
  rw [h k id]
  simp [ha]

theorem insert (h : Linked members accounts m) (hfresh : accounts.lookup id = none) :
    Linked members (accounts.insert id a) (m.linkAll (members a).elems id) := by
  apply Links.Inverts.update h (i := id)
  · intro j hj k
    simp [hj]
  · intro k
    have hnone : id ∉ m.members k := by
      rw [h k id]
      simp [hfresh]
    simp [hnone, FlatSet.mem_def]

theorem remove (h : Linked members accounts m) (ha : accounts.lookup id = some a) :
    Linked members (accounts.erase id) (m.unlinkAll (members a).elems id) := by
  apply Links.Inverts.update h (i := id)
  · intro j hj k
    simp [hj]
  · intro k
    simp [h.mem_iff ha, FlatSet.mem_def]

theorem relink {lt : κ → κ → Prop} [DecidableRel lt] (h : Linked members accounts m)
    (hasymm : ∀ x y, lt x y → ¬lt y x) {before : FlatSet κ}
    (heq : ∀ x ∈ before, ∀ y ∈ members a, ¬lt x y → ¬lt y x → x = y)
    (hlinked : (∀ k, id ∈ m.members k ↔ k ∈ before) ∨ ∀ k, id ∈ m.members k ↔ k ∈ members a) :
    Linked members (accounts.insert id a) (m.relink lt before.elems (members a).elems id) := by
  apply Links.Inverts.update h (i := id)
  · intro j hj k
    rw [Links.mem_members_relink_of_ne hj, Finmap.lookup_insert_of_ne _ hj]
    exact ⟨Iff.rfl, Iff.rfl⟩
  · intro k
    rw [Links.mem_members_relink_self hasymm before.nodup (members a).nodup heq
      (hlinked.imp (· k) (· k)), Finmap.lookup_insert]
    simp [FlatSet.mem_def]

theorem write {a' : AccountObject Key Addr} (h : Linked members accounts m)
    (ha : accounts.lookup id = some a) (hsame : members a' = members a) :
    Linked members (accounts.insert id a') m := by
  apply Links.Inverts.update h (i := id)
  · intro j hj k
    simp [hj]
  · intro k
    rw [h.mem_iff ha, Finmap.lookup_insert, ← hsame]
    simp

end Linked

theorem insert_lookup {accounts : Table AccountId (AccountObject Key Addr)} {id : AccountId}
    {a : AccountObject Key Addr} (ha : accounts.lookup id = some a) : accounts.insert id a = accounts := by
  apply Finmap.ext_lookup
  intro j
  rw [Table.lookup_insert_eq]
  split
  · rename_i hj
    rw [hj, ha]
  · rfl

/-! ## The register -/

variable [LinearOrder Key] [LinearOrder Addr] {address : Key → Addr} {used : Set Key}

open Register

structure Valid (address : Key → Addr) (used : Set Key) (s : Register Key Addr) : Prop where
  accountLinks : Linked getAccountMembers s.accounts s.index.accountToAccountMemberships
  keyLinks : Linked getKeyMembers s.accounts s.index.accountToKeyMemberships
  addressLinks : Linked (getAddressMembers address) s.accounts s.index.accountToAddressMemberships
  keysUsed : ∀ id a, s.accounts.lookup id = some a → ∀ k ∈ a.keys, k ∈ used
  beforeUsed : ∀ k ∈ s.index.beforeKeyMembers, k ∈ used

def Keeps (address : Key → Addr) (used : Set Key) {α : Type} (m : Action Key Addr α) : Prop :=
  ∀ s, Valid address used s → Valid address used (after m s)

namespace Keeps

variable {α β : Type}

theorem pure (a : α) : Keeps address used (Pure.pure a : Action Key Addr α) := fun _ h => h

theorem throw (e : Exception) :
    Keeps address used (MonadExcept.throw e : Action Key Addr α) := fun _ h => h

theorem getAccount (id : AccountId) :
    Keeps address used (getAccount id : Action Key Addr (AccountObject Key Addr)) := by
  intro s h
  unfold after Register.getAccount
  cases s.accounts.lookup id with
  | none => exact h
  | some a => exact h

theorem bind {m : Action Key Addr α} {f : α → Action Key Addr β} (hm : Keeps address used m)
    (hf : ∀ a, Keeps address used (f a)) : Keeps address used (m >>= f) := by
  intro s h
  have hs := hm s h
  unfold after at hs ⊢
  rw [show (m >>= f) s = EStateM.bind m f s from rfl]
  unfold EStateM.bind
  cases hms : m s with
  | error e s' =>
    rw [hms] at hs
    exact hs
  | ok a s' =>
    rw [hms] at hs
    exact hf a s' hs

end Keeps

omit [LinearOrder Addr] in
theorem mem_getKeyMembers {a : AccountObject Key Addr} {k : Key} : k ∈ getKeyMembers a ↔ k ∈ a.keys :=
  FlatSet.mem_ofList

omit [LinearOrder Key] in
theorem eq_of_addresses (hinj : Set.InjOn address used) {x y : Key} (hx : x ∈ used) (hy : y ∈ used)
    (hlt : ¬lessByAddress address x y) (hgt : ¬lessByAddress address y x) : x = y :=
  hinj hx hy (le_antisymm (not_lt.mp hgt) (not_lt.mp hlt))

variable {s : Register Key Addr} {f : AccountObject Key Addr → AccountObject Key Addr}

theorem Valid.objectModified {id : AccountId} {a : AccountObject Key Addr}
    (hinj : Set.InjOn address used) (h : Valid address used s) (hkeys : ∀ k ∈ a.keys, k ∈ used)
    (haccounts : (∀ k, id ∈ s.index.accountToAccountMemberships.members k ↔
        k ∈ s.index.beforeAccountMembers) ∨
      ∀ k, id ∈ s.index.accountToAccountMemberships.members k ↔ k ∈ getAccountMembers a)
    (hkeyMembers : (∀ k, id ∈ s.index.accountToKeyMemberships.members k ↔
        k ∈ s.index.beforeKeyMembers) ∨
      ∀ k, id ∈ s.index.accountToKeyMemberships.members k ↔ k ∈ getKeyMembers a)
    (haddresses : (∀ x, id ∈ s.index.accountToAddressMemberships.members x ↔
        x ∈ s.index.beforeAddressMembers) ∨
      ∀ x, id ∈ s.index.accountToAddressMemberships.members x ↔ x ∈ getAddressMembers address a) :
    Valid address used
      ⟨s.accounts.insert id a, s.index.objectModified address id a⟩ where
  accountLinks := h.accountLinks.relink (fun _ _ => lt_asymm)
    (fun _ _ _ _ hlt hgt => le_antisymm (not_lt.mp hgt) (not_lt.mp hlt)) haccounts
  keyLinks := by
    apply h.keyLinks.relink (fun _ _ => lt_asymm) _ hkeyMembers
    intro x hx y hy hlt hgt
    exact eq_of_addresses hinj (h.beforeUsed x hx) (hkeys y (mem_getKeyMembers.mp hy)) hlt hgt
  addressLinks := h.addressLinks.relink (fun _ _ => lt_asymm)
    (fun _ _ _ _ hlt hgt => le_antisymm (not_lt.mp hgt) (not_lt.mp hlt)) haddresses
  keysUsed := by
    intro j b hb
    rw [Table.lookup_insert_eq] at hb
    split at hb
    · cases hb
      exact hkeys
    · exact h.keysUsed j b hb
  beforeUsed := h.beforeUsed

theorem Valid.aboutToModify {id : AccountId} {a : AccountObject Key Addr} (h : Valid address used s)
    (ha : s.accounts.lookup id = some a) :
    Valid address used { s with index := s.index.aboutToModify address a } :=
  { h with
    beforeUsed := fun k hk => h.keysUsed id a ha k (mem_getKeyMembers.mp hk) }

theorem after_modify {id : AccountId} {before : AccountObject Key Addr}
    (hbefore : s.accounts.lookup id = some before) (functor : Action Key Addr PUnit) :
    after (Register.modify address id functor) s =
      match functor { s with index := s.index.aboutToModify address before } with
      | .error _ t => t
      | .ok _ t =>
        match t.accounts.lookup id with
        | none => t
        | some a => ⟨t.accounts, t.index.objectModified address id a⟩ := by
  simp only [after, Register.modify, Bind.bind, EStateM.bind, Register.getAccount, hbefore, notify,
    Lib.modifyGet_apply]
  cases functor { s with index := s.index.aboutToModify address before } with
  | error e t => rfl
  | ok u t =>
    dsimp only
    cases t.accounts.lookup id with
    | none => rfl
    | some a => rfl

theorem after_modify_of_none {id : AccountId} (hnone : s.accounts.lookup id = none)
    (functor : Action Key Addr PUnit) :
    after (Register.modify address id functor) s = s := by
  simp [after, Register.modify, Bind.bind, EStateM.bind, Register.getAccount, hnone]

theorem Keeps.modify (hinj : Set.InjOn address used) {id : AccountId} {functor : Action Key Addr PUnit}
    (hfunctor : Keeps address used functor) :
    Keeps address used (Register.modify address id functor) := by
  intro s h
  cases hbefore : s.accounts.lookup id with
  | none =>
    rw [after_modify_of_none hbefore]
    exact h
  | some before =>
    have hinner := hfunctor _ (h.aboutToModify hbefore)
    rw [after_modify hbefore]
    unfold after at hinner
    cases hrun : functor { s with index := s.index.aboutToModify address before } with
    | error e t =>
      rw [hrun] at hinner
      exact hinner
    | ok u t =>
      rw [hrun] at hinner
      show Valid address used (match t.accounts.lookup id with | none => t | some a => _)
      cases ha : t.accounts.lookup id with
      | none => exact hinner
      | some a =>
        -- the links are those of the account as it is, so it does not matter what is remembered
        have hvalid := hinner.objectModified hinj (hinner.keysUsed id a ha)
          (.inr (hinner.accountLinks.mem_iff ha)) (.inr (hinner.keyLinks.mem_iff ha))
          (.inr (hinner.addressLinks.mem_iff ha))
        rw [insert_lookup ha] at hvalid
        exact hvalid

theorem Keeps.modify_write (hinj : Set.InjOn address used) {id : AccountId}
    (hf : ∀ a, (∀ k ∈ a.keys, k ∈ used) → ∀ k ∈ (f a).keys, k ∈ used) :
    Keeps address used (Register.modify address id (Register.write id f)) := by
  intro s h
  cases hbefore : s.accounts.lookup id with
  | none =>
    rw [after_modify_of_none hbefore]
    exact h
  | some before =>
    have habout : Valid address used { s with index := s.index.aboutToModify address before } :=
      h.aboutToModify hbefore
    rw [after_modify hbefore]
    simp only [Register.write, Bind.bind, EStateM.bind, Register.getAccount, hbefore,
      Lib.modifyGet_apply, Finmap.lookup_insert]
    -- nothing has happened since the members were remembered
    exact habout.objectModified hinj (hf before (h.keysUsed id before hbefore))
      (.inl (habout.accountLinks.mem_iff hbefore)) (.inl (habout.keyLinks.mem_iff hbefore))
      (.inl (habout.addressLinks.mem_iff hbefore))

theorem Keeps.write {id : AccountId} (howner : ∀ a, (f a).owner = a.owner)
    (hactive : ∀ a, (f a).active = a.active) (hmemo : ∀ a, (f a).memoKey = a.memoKey) :
    Keeps address used (Register.write id f) := by
  intro s h
  cases ha : s.accounts.lookup id with
  | none => simpa [after, Register.write, Bind.bind, EStateM.bind, Register.getAccount, ha] using h
  | some a =>
    have hkeys : (f a).keys = a.keys := by
      unfold AccountObject.keys
      rw [howner, hactive, hmemo]
    have hafter : after (Register.write id f) s = { s with accounts := s.accounts.insert id (f a) } := by
      simp [after, Register.write, Bind.bind, EStateM.bind, Register.getAccount, ha, Lib.modifyGet_apply]
    rw [hafter]
    exact {
      accountLinks := h.accountLinks.write ha (by unfold getAccountMembers; rw [howner, hactive])
      keyLinks := h.keyLinks.write ha (by unfold getKeyMembers; rw [hkeys])
      addressLinks := h.addressLinks.write ha (by
        unfold getAddressMembers
        rw [howner, hactive, hmemo])
      keysUsed := by
        intro j b hb
        rw [Table.lookup_insert_eq] at hb
        split at hb
        · cases hb
          rw [hkeys]
          exact h.keysUsed id a ha
        · exact h.keysUsed j b hb
      beforeUsed := h.beforeUsed }

/-! ## The evaluators -/

theorem Keeps.insert {id : AccountId} {a : AccountObject Key Addr} (hkeys : ∀ k ∈ a.keys, k ∈ used) :
    Keeps address used (Register.insert address id a) := by
  intro s h
  unfold after Register.insert
  cases hlookup : s.accounts.lookup id with
  | some b => exact h
  | none =>
    exact {
      accountLinks := h.accountLinks.insert hlookup
      keyLinks := h.keyLinks.insert hlookup
      addressLinks := h.addressLinks.insert hlookup
      keysUsed := by
        intro j b hb
        rw [Table.lookup_insert_eq] at hb
        split at hb
        · cases hb
          exact hkeys
        · exact h.keysUsed j b hb
      beforeUsed := h.beforeUsed }

theorem Keeps.remove (id : AccountId) : Keeps address used (Register.remove address id) := by
  intro s h
  cases ha : s.accounts.lookup id with
  | none => simpa [after, Register.remove, Bind.bind, EStateM.bind, Register.getAccount, ha] using h
  | some a =>
    have hafter : after (Register.remove address id) s =
        ⟨s.accounts.erase id, s.index.objectRemoved address id a⟩ := by
      simp [after, Register.remove, Bind.bind, EStateM.bind, Register.getAccount, ha,
        Lib.modifyGet_apply]
    rw [hafter]
    exact {
      accountLinks := h.accountLinks.remove ha
      keyLinks := h.keyLinks.remove ha
      addressLinks := h.addressLinks.remove ha
      keysUsed := by
        intro j b hb
        rw [Table.lookup_erase_eq] at hb
        split at hb
        · cases hb
        · exact h.keysUsed j b hb
      beforeUsed := h.beforeUsed }

section Fees

variable (hinj : Set.InjOn address used)
include hinj

theorem Keeps.depositCashback (acct : AccountId) (newVbid : Except Exception (Option Nat)) :
    Keeps address used (depositCashback address acct newVbid) := by
  unfold Accounts.depositCashback
  cases newVbid with
  | error e => exact .throw e
  | ok vb =>
    cases vb with
    | none => exact .pure _
    | some vb =>
      exact .modify hinj (.write (fun _ => rfl) (fun _ => rfl) fun _ => rfl)

theorem Keeps.payOutFees (account : AccountId) (payout : Payout) :
    Keeps address used (payOutFees address account payout) := by
  have hreferrer : Keeps address used (Register.modify address account
      (Register.write account fun acc => { acc with referrer := acc.lifetimeReferrer })) :=
    .modify hinj (.write (fun _ => rfl) (fun _ => rfl) fun _ => rfl)
  have hdeposits : Keeps address used (do
      let a ← Register.getAccount account
      Accounts.depositCashback address a.lifetimeReferrer payout.toLifetimeReferrer
      Accounts.depositCashback address a.referrer payout.toReferrer
      Accounts.depositCashback address a.registrar payout.toRegistrar) :=
    .bind (.getAccount account) fun a =>
      .bind (.depositCashback hinj _ _) fun _ =>
        .bind (.depositCashback hinj _ _) fun _ => .depositCashback hinj _ _
  unfold Accounts.payOutFees
  cases payout.referrerIsBasic with
  | true => exact .bind hreferrer fun _ => hdeposits
  | false => exact hdeposits

theorem Keeps.processFees (account : AccountId) (fees : Option (Payout × Payout)) :
    Keeps address used (processFees address account fees) := by
  cases fees with
  | none => exact .pure _
  | some payouts =>
    exact .bind (.payOutFees hinj _ _) fun _ => .payOutFees hinj _ _

theorem Keeps.upgradeAccount (id : AccountId) (upgradeToLifetimeMember : Bool) (headBlockTime : Nat)
    (fees : Option (Payout × Payout)) :
    Keeps address used (upgradeAccount address id upgradeToLifetimeMember headBlockTime fees) := by
  unfold Accounts.upgradeAccount
  apply Keeps.modify hinj
  apply Keeps.bind (.getAccount id)
  intro a
  split
  · exact .bind (.processFees hinj id fees) fun _ =>
      .write (fun _ => rfl) (fun _ => rfl) fun _ => rfl
  split
  · exact .throw _
  split
  · exact .bind (.processFees hinj id fees) fun _ =>
      .write (fun _ => rfl) (fun _ => rfl) fun _ => rfl
  split
  · exact .write (fun _ => rfl) (fun _ => rfl) fun _ => rfl
  · exact .throw _

end Fees

omit [LinearOrder Key] [LinearOrder Addr] in
theorem AccountUpdateOperation.mem_keys_update {o : AccountUpdateOperation Key Addr}
    {a : AccountObject Key Addr} (id : AccountId) {k : Key} (hk : k ∈ (o.update a).keys) :
    k ∈ (Event.update id o).keys ∨ k ∈ a.keys := by
  obtain ⟨owner, active, newMemoKey⟩ := o
  simp only [AccountObject.keys, update, Event.keys, List.mem_append, List.mem_singleton] at hk ⊢
  rcases hk with (hk | hk) | hk
  · cases owner with
    | none => exact .inr (.inl (.inl hk))
    | some au => exact .inl (.inl (.inl (by simpa using hk)))
  · cases active with
    | none => exact .inr (.inl (.inr hk))
    | some au => exact .inl (.inl (.inr (by simpa using hk)))
  · cases newMemoKey with
    | none => exact .inr (.inr hk)
    | some memo => exact .inl (.inr (by simpa using hk))

theorem Keeps.handle (hinj : Set.InjOn address used) {e : Event Key Addr}
    (hkeys : ∀ k ∈ e.keys, k ∈ used) : Keeps address used (handle address e) := by
  cases e with
  | create id a => exact .insert hkeys
  | remove id => exact .remove id
  | upgrade id upgradeToLifetimeMember headBlockTime fees => exact .upgradeAccount hinj _ _ _ _
  | assign id a => exact .modify_write hinj fun _ _ => hkeys
  | update id o =>
    apply Keeps.modify_write hinj
    intro a ha k hk
    rcases AccountUpdateOperation.mem_keys_update id hk with hk | hk
    · exact hkeys k hk
    · exact ha k hk

theorem valid_empty : Valid address used ({} : Register Key Addr) where
  accountLinks := by
    intro k id
    simp [Links.members]
  keyLinks := by
    intro k id
    simp [Links.members]
  addressLinks := by
    intro x id
    simp [Links.members]
  keysUsed := by
    intro id a ha
    cases ha
  beforeUsed := fun _ hk => absurd hk (FlatSet.notMem_empty _)

theorem Valid.exact (h : Valid address used s) : Exact address s where
  accounts := by
    intro k id
    rw [h.accountLinks k id]
    simp [getAccountMembers, AccountObject.RefersToAccount]
  keys := by
    intro k id
    rw [h.keyLinks k id]
    simp [getKeyMembers, AccountObject.keys, AccountObject.RefersToKey]
  addresses := by
    intro x id
    rw [h.addressLinks x id]
    simp [getAddressMembers, AccountObject.RefersToAddress]

theorem valid_history (hinj : Set.InjOn address used) (es : List (Event Key Addr))
    (hkeys : ∀ e ∈ es, ∀ k ∈ e.keys, k ∈ used) : Valid address used (history address es) := by
  induction es using List.reverseRecOn with
  | nil => exact valid_empty
  | append_singleton es e ih =>
    unfold history
    rw [List.foldl_append]
    have hes := ih fun e' he' => hkeys e' (List.mem_append_left _ he')
    exact Keeps.handle hinj (hkeys e (by simp)) _ hes

/-- After any history the three maps are exact, if no two of the keys share an address. -/
theorem memberships_exact (address : Key → Addr) (es : List (Event Key Addr))
    (hinj : ∀ k ∈ es.flatMap Event.keys, ∀ k' ∈ es.flatMap Event.keys, address k = address k' → k = k') :
    Exact address (history address es) := by
  have hvalid : Valid address { k | k ∈ es.flatMap Event.keys } (history address es) :=
    valid_history (fun k hk k' hk' => hinj k hk k' hk') es fun e he k hk =>
      List.mem_flatMap.mpr ⟨e, he, hk⟩
  exact hvalid.exact

def keyFlip : List (Event Nat Nat) :=
  let auths (keys : List Nat) : Authority Nat Nat :=
    ⟨1, [(1, 1)], keys.map fun k => (k, 1), []⟩
  let paid : Payout := ⟨true, .ok (some 3), .ok none, .ok (some 4)⟩
  [.create 7 ⟨{ name := "a", referrer := 7, lifetimeReferrer := 8, registrar := 8 }, auths [1, 2],
      auths [2], 1⟩, .create 8 ⟨{ name := "b" }, auths [3], auths [], 3⟩,
    .upgrade 7 true 0 (some (paid, paid)),
    .update 7 { owner := some (auths [2, 3]), newMemoKey := some 2 }]

theorem memberships_exact_keyFlip :
    Exact (fun k => 100 - k) (history (fun k => 100 - k) keyFlip) :=
  memberships_exact (fun k => 100 - k) keyFlip (by decide)

end Meta1Core.Accounts
