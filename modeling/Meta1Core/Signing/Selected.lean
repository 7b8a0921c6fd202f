import Meta1Core.Signing.Antitone
import Meta1Core.Lib.FlatSet

/-!
# The keys that `get_required_signatures` selects

The keys that are marked are those of the authorities that come into view with all available keys.
-/

namespace Meta1Core.Signing

open Lib Protocol

section

variable {Key Addr σ τ : Type}

def getRequiredAuthorities {Op : Type} (requires : Op → Required Key Addr) (ops : List Op) :
    Required Key Addr :=
  let required := requiredAuthorities requires ops
  { required with
    active := required.owner.foldl (fun active account => active.erase account) required.active }

/-- The three loops of `get_required_signatures`, which leave aside what `check_authority` returns -/
def requireSignatures (S : Signer Key Addr σ) (rules : Rules Key Addr) (required : Required Key Addr) :
    Check σ PUnit := do
  each (fun au => do
    let _ ← checkAuthority S rules au
    pure ⟨⟩) required.other
  each (fun id => do
    let _ ← checkPointer (checkAuthority S rules) (rules.getOwner id)
    pure ⟨⟩) required.owner
  each (fun id => do
    if ← checkAuthorityOf S rules id then pure ⟨⟩
    else
      let _ ← checkPointer (checkAuthority S rules) (rules.getOwner id)
      pure ⟨⟩) required.active

theorem Relates.Signers.requireSignatures {P : (α : Type) → Check σ α → Check τ α → Prop}
    {S : Signer Key Addr σ} {S' : Signer Key Addr τ} {rules : Rules Key Addr}
    {Q : Authority Key Addr → Prop} (hP : Signers S S' rules Q P) {required : Required Key Addr}
    (hother : ∀ au ∈ required.other, Q au) :
    P _ (requireSignatures S rules required) (requireSignatures S' rules required) := by
  refine hP.bind (hP.each fun au hau => ?_) fun _ =>
    hP.bind (hP.each fun id _ => ?_) fun _ => hP.each fun id _ => ?_
  · exact hP.bind (hP.checkAuthority (hother au hau)) fun _ => hP.pure _
  · exact hP.bind (hP.checkOwnerPointer id) fun _ => hP.pure _
  · refine hP.bind (hP.checkAuthorityOf id) fun _ => ite (hP.pure _) ?_
    exact hP.bind (hP.checkOwnerPointer id) fun _ => hP.pure _

variable [LinearOrder Key] [DecidableEq Addr]

def getRequiredSignatures {Op : Type} (requires : Op → Required Key Addr) (h : Hashing Key Addr)
    (rules : Rules Key Addr) (ops : List Op) (signatureKeys availableKeys : FlatSet Key) :
    Except Failure (FlatSet Key) :=
  let run : Check (SignState Key Addr) Bool := do
    requireSignatures (signState h availableKeys.elems) rules (getRequiredAuthorities requires ops)
    removeUnusedSignatures
  match run (SignState.make signatureKeys.elems) with
  | .ok _ s =>
    .ok (FlatSet.ofList ((s.providedSignatures.map Prod.fst).filter
      fun k => k ∈ availableKeys ∧ k ∉ signatureKeys))
  | .error e _ => .error e

end

section

variable {Key Addr : Type} [LinearOrder Key] [DecidableEq Addr]

variable {h : Hashing Key Addr} {rules : Rules Key Addr} {keys : List Key} {initial : List AccountId}

theorem Answers.each {α : Type} {depth : Nat} {body : α → Check (Trail Key Addr) PUnit}
    {comes : α → Authority Key Addr → Prop} {items : List α}
    (hbody : ∀ a ∈ items, Answers h rules keys initial depth (body a) ⟨⟩ (comes a)) :
    Answers h rules keys initial depth (Signing.each body items) ⟨⟩
      fun au => ∃ a ∈ items, comes a au := by
  induction items with
  | nil => exact (Answers.pure _).of_iff fun au => by simp
  | cons a rest ih =>
    have hrest := ih fun a ha => hbody a (List.mem_cons_of_mem _ ha)
    have hfirst := hbody a List.mem_cons_self
    refine (hfirst.bind (f := fun _ => Signing.each body rest) hrest).of_iff fun au => ?_
    rw [List.exists_mem_cons_iff]

variable (h keys) in
theorem requireSignatures_answers {required : Required Key Addr}
    (hends : EndsInTime rules initial required []) :
    Answers h rules keys initial rules.maxRecursion.toNat
      (requireSignatures (ideal h keys) rules required) ⟨⟩
      (ComesTo h rules keys initial required []) := by
  have hother := Answers.each fun au (hau : au ∈ required.other) =>
    (checkAuthority_answers h keys (hends.other au hau)).bind (f := fun _ => pure PUnit.unit) (.pure _)
  have howner := Answers.each fun id (hid : id ∈ required.owner) =>
    (checkPointer_answers (rules.getOwner id) fun au hau =>
      checkAuthority_answers h keys (hends.owner id hid List.not_mem_nil au hau)).bind
        (f := fun _ => pure PUnit.unit) (.pure _)
  have hactive : Answers h rules keys initial rules.maxRecursion.toNat (Signing.each (fun id => do
      if ← checkAuthorityOf (ideal h keys) rules id then pure ⟨⟩
      else
        let _ ← checkPointer (checkAuthority (ideal h keys) rules) (rules.getOwner id)
        pure ⟨⟩) required.active) ⟨⟩
      fun au => ∃ id ∈ required.active, ActiveLooks h rules keys initial id au := by
    refine Answers.each fun id hid => ?_
    have hfirst := checkAuthorityOf_answers h keys (hends.active id hid)
    unfold ActiveLooks ActiveLooksBy
    by_cases hknown : id ∈ initial
    · rw [decide_eq_true hknown, Bool.true_or] at hfirst
      refine (hfirst.yes (.pure _)).of_iff fun au => ?_
      simp only [or_false, hknown, not_true_eq_false, false_and, iff_false]
      exact fun hlooks => hlooks.1 hknown
    rw [decide_eq_false hknown, Bool.false_or] at hfirst
    cases hreached : reachesAccount h rules keys (accountsCounted h rules keys initial) id with
    | true =>
      rw [hreached] at hfirst
      exact (hfirst.yes (.pure _)).of_iff fun au => by simp [hknown]
    | false =>
      rw [hreached] at hfirst
      have hsecond := checkPointer_answers (rules.getOwner id) fun au hau =>
        checkAuthority_answers h keys (hends.active id hid hknown au (.inr hau))
      refine (hfirst.no (hsecond.bind (f := fun _ => pure PUnit.unit) (.pure _))).of_iff fun au => ?_
      simp [hknown, OwnerLooksBy]
  refine (hother.bind (howner.bind hactive)).of_iff fun au => ?_
  simp [ComesToBy, OwnerLooksBy]

omit [DecidableEq Addr] in
theorem mem_setSigned_keys {k k' : Key} {signatures : List (Key × Bool)} :
    k' ∈ (setSigned k signatures).map Prod.fst ↔ k' = k ∨ k' ∈ signatures.map Prod.fst := by
  unfold setSigned
  split
  · rename_i hk
    have hkeys : signatures.map (Prod.fst ∘ fun entry => if entry.1 = k then (k, true) else entry) =
        signatures.map Prod.fst := by
      refine List.map_congr_left fun entry _ => ?_
      rw [Function.comp_apply]
      split
      · rename_i heq
        exact heq.symm
      · rfl
    rw [List.map_map, hkeys]
    exact ⟨.inr, fun hor => hor.elim (fun heq => heq ▸ hk) fun hold => hold⟩
  · simp only [List.mem_map, List.mem_orderedInsert]
    constructor
    · rintro ⟨entry, rfl | hentry, rfl⟩
      · exact .inl rfl
      · exact .inr ⟨entry, hentry, rfl⟩
    · rintro (rfl | ⟨entry, hentry, rfl⟩)
      · exact ⟨_, .inl rfl, rfl⟩
      · exact ⟨entry, .inr hentry, rfl⟩

variable (keys) in
structure AllMarked (s : SignState Key Addr) : Prop where
  signed : ∀ entry ∈ s.providedSignatures, entry.2 = true
  available : ∀ k ∈ s.providedSignatures.map Prod.fst, k ∈ keys

variable (keys) in
structure Provides (ks : List Key) (s s' : SignState Key Addr) : Prop extends AllMarked keys s' where
  approvedBy : s'.approvedBy = s.approvedBy
  provided : ∀ k, k ∈ s'.providedSignatures.map Prod.fst ↔ k ∈ s.providedSignatures.map Prod.fst ∨ k ∈ ks

variable {s : SignState Key Addr}

omit [LinearOrder Key] [DecidableEq Addr] in
theorem Provides.trans {ks ks' : List Key} {s1 s' : SignState Key Addr} (hs : Provides keys ks s s1)
    (hs' : Provides keys ks' s1 s') : Provides keys (ks ++ ks') s s' where
  toAllMarked := hs'.toAllMarked
  approvedBy := hs'.approvedBy.trans hs.approvedBy
  provided k := by rw [hs'.provided, hs.provided, List.mem_append, or_assoc]

omit [LinearOrder Key] [DecidableEq Addr] in
theorem AllMarked.provides_nil (hs : AllMarked keys s) : Provides keys [] s s :=
  ⟨hs, rfl, fun _ => by simp⟩

omit [DecidableEq Addr] in
theorem signedByKey_provides (hs : AllMarked keys s) (k : Key) :
    ∃ s', Returns (signedByKey keys k) s (decide (k ∈ keys)) s' ∧
      Provides keys (signatureKey keys k).toList s s' := by
  have havailable : k ∈ s.providedSignatures.map Prod.fst ∨ k ∈ keys ↔ k ∈ keys :=
    or_iff_right_of_imp (hs.available k)
  unfold signatureKey
  by_cases hk : k ∈ keys
  · refine ⟨{ s with providedSignatures := setSigned k s.providedSignatures }, ?_, ?_⟩
    · refine Returns.get_bind_iff.mpr ?_
      rw [if_pos (havailable.mpr hk), decide_eq_true hk]
      rfl
    · rw [if_pos hk]
      refine ⟨⟨fun entry hentry => ?_, fun k' hk' => ?_⟩, rfl, fun k' => ?_⟩
      · unfold setSigned at hentry
        split at hentry
        · obtain ⟨old, hold, rfl⟩ := List.mem_map.mp hentry
          split
          · rfl
          · exact hs.signed old hold
        · rcases (List.mem_orderedInsert _).mp hentry with rfl | hold
          · rfl
          · exact hs.signed entry hold
      · rcases mem_setSigned_keys.mp hk' with rfl | hold
        · exact hk
        · exact hs.available k' hold
      · rw [mem_setSigned_keys, Option.toList_some, List.mem_singleton, or_comm]
  · refine ⟨s, ?_, ?_⟩
    · refine Returns.get_bind_iff.mpr ?_
      rw [if_neg fun hor => hk (havailable.mp hor), decide_eq_false hk]
      rfl
    · rw [if_neg hk]
      exact hs.provides_nil

omit [DecidableEq Addr] in
theorem weigh_provides (threshold total : UInt32) (entries : List (Key × UInt16))
    (hs : AllMarked keys s) :
    ∃ s', Returns (weigh (signedByKey keys) threshold entries total) s
        (tally (fun k => decide (k ∈ keys)) threshold entries total) s' ∧
      Provides keys (marks (signatureKey keys) threshold entries total) s s' := by
  induction entries generalizing total s with
  | nil => exact ⟨s, rfl, hs.provides_nil⟩
  | cons entry rest ih =>
    obtain ⟨k, w⟩ := entry
    obtain ⟨s1, hfirst, hprovides⟩ := signedByKey_provides hs k
    unfold weigh tally marks
    by_cases hk : k ∈ keys
    · have hkey : signatureKey keys k = some k := if_pos hk
      rw [decide_eq_true hk] at hfirst ⊢
      rw [hkey] at hprovides ⊢
      rw [if_pos rfl]
      dsimp only
      by_cases hstop : threshold ≤ total + w.toUInt32
      · simp only [if_pos hstop]
        exact ⟨s1, Returns.bind_iff.mpr ⟨_, _, hfirst, rfl⟩, hprovides⟩
      · obtain ⟨s2, hrest, hprovides'⟩ := ih (total + w.toUInt32) hprovides.toAllMarked
        simp only [if_neg hstop]
        exact ⟨s2, Returns.bind_iff.mpr ⟨_, _, hfirst, hrest⟩, hprovides.trans hprovides'⟩
    · have hkey : signatureKey keys k = none := if_neg hk
      rw [decide_eq_false hk] at hfirst ⊢
      rw [hkey] at hprovides ⊢
      rw [if_neg Bool.false_ne_true]
      obtain ⟨s2, hrest, hprovides'⟩ := ih total hprovides.toAllMarked
      exact ⟨s2, Returns.bind_iff.mpr ⟨_, _, hfirst, hrest⟩, hprovides.trans hprovides'⟩

variable (h keys) in
structure Selects (s : SignState Key Addr) (t : Trail Key Addr) : Prop extends AllMarked keys s where
  approvedBy : s.approvedBy = t.approvedBy
  selected : ∀ k, k ∈ s.providedSignatures.map Prod.fst ↔ ∃ au ∈ t.examined, k ∈ marked h keys au

def NoAddresses (t : Trail Key Addr) : Prop := ∀ au ∈ t.examined, au.addressAuths = []

variable (h keys) in
/-- `x` does what `y` does, as long as there are no addresses to look up. -/
structure Selecting {α : Type} (x : Check (SignState Key Addr) α) (y : Check (Trail Key Addr) α) :
    Prop where
  grows : ∀ t a t', Returns y t a t' → t.examined ⊆ t'.examined
  selects : ∀ s t a t', Selects h keys s t → Returns y t a t' → NoAddresses t' →
    ∃ s', Returns x s a s' ∧ Selects h keys s' t'

theorem weighSignatures_selecting (au : Authority Key Addr) :
    Selecting h keys (weighSignatures (signState h keys) au) (weighSignatures (ideal h keys) au) where
  grows t r t' hret := by
    have heq := (weighSignatures_ideal au t).symm.trans hret
    obtain ⟨-, rfl⟩ := EStateM.Result.ok.inj heq
    exact List.subset_cons_self au t.examined
  selects s t r t' hs hret hnone := by
    have heq := (weighSignatures_ideal au t).symm.trans hret
    obtain ⟨rfl, rfl⟩ := EStateM.Result.ok.inj heq
    have haddresses : au.addressAuths = [] := hnone au List.mem_cons_self
    obtain ⟨s1, hkeys, hprovides⟩ := weigh_provides au.weightThreshold 0 au.keyAuths
      (s := { s with examined := au :: s.examined }) ⟨hs.signed, hs.available⟩
    refine ⟨s1, ?_, hprovides.toAllMarked, hprovides.approvedBy.trans hs.approvedBy, fun k => ?_⟩
    · refine Returns.bind_iff.mpr ⟨⟨⟩, _, rfl, Returns.bind_iff.mpr ⟨_, _, hkeys, ?_⟩⟩
      unfold signatureTally
      rw [haddresses]
      cases tally (fun k => decide (k ∈ keys)) au.weightThreshold au.keyAuths 0 with
      | none => rfl
      | some total => rfl
    · rw [hprovides.provided, List.exists_mem_cons_iff, ← hs.selected, mem_marked haddresses, ← mem_marks]
      exact or_comm

variable (h keys) in
theorem signers_selecting (rules : Rules Key Addr) :
    Relates.Signers (signState h keys) (ideal h keys) rules (fun _ => True)
      (fun _ x y => Selecting h keys x y) where
  pure a :=
    { grows := fun t a' t' hret => by rw [(hret.of_pure).2]; exact List.Subset.refl _
      selects := fun s t a' t' hs hret _ => by
        obtain ⟨rfl, rfl⟩ := hret.of_pure
        exact ⟨s, rfl, hs⟩ }
  throw _ := ⟨fun _ _ _ hret => (Returns.throw_iff.mp hret).elim,
    fun _ _ _ _ _ hret => (Returns.throw_iff.mp hret).elim⟩
  bind hx hf :=
    { grows := fun t b t' hret => by
        obtain ⟨a, t1, hret1, hret2⟩ := hret.of_bind
        exact List.Subset.trans (hx.grows t a t1 hret1) ((hf a).grows t1 b t' hret2)
      selects := fun s t b t' hs hret hnone => by
        obtain ⟨a, t1, hret1, hret2⟩ := hret.of_bind
        have hnone1 : NoAddresses t1 := fun au hau => hnone au ((hf a).grows t1 b t' hret2 hau)
        obtain ⟨s1, hx1, hs1⟩ := hx.selects s t a t1 hs hret1 hnone1
        obtain ⟨s', hx', hs'⟩ := (hf a).selects s1 t1 b t' hs1 hret2 hnone
        exact ⟨s', Returns.bind_iff.mpr ⟨a, s1, hx1, hx'⟩, hs'⟩ }
  weighSignatures au _ := weighSignatures_selecting au
  isApproved id :=
    { grows := fun t b t' hret => by
        have hret := hret.of_get
        rw [(hret.of_pure).2]
        exact List.Subset.refl _
      selects := fun s t b t' hs hret _ => by
        have hret := hret.of_get
        obtain ⟨rfl, rfl⟩ := hret.of_pure
        refine ⟨s, Returns.get_bind_iff.mpr (Returns.pure_iff.mpr ⟨?_, rfl⟩), hs⟩
        rw [hs.approvedBy] }
  approve id :=
    { grows := fun t b t' hret => by rw [Returns.modify_iff.mp hret]; exact List.Subset.refl _
      selects := fun s t b t' hs hret _ => by
        rw [Returns.modify_iff.mp hret]
        exact ⟨_, rfl, ⟨hs.signed, hs.available⟩, congrArg (List.insert id) hs.approvedBy, hs.selected⟩ }
  active _ _ _ := trivial
  owner _ _ _ := trivial

theorem selects_make : Selects h keys (SignState.make []) { approvedBy := [tempAccount] } where
  signed _ hentry := nomatch hentry
  available _ hk := nomatch hk
  approvedBy := rfl
  selected k := by simp [SignState.make]

theorem getRequiredSignatures_spec {Op : Type} {requires : Op → Required Key Addr} {ops : List Op}
    {availableKeys : FlatSet Key}
    (hends : EndsInTime rules [tempAccount] (getRequiredAuthorities requires ops) [])
    (hnone : ∀ au, ComesTo h rules availableKeys.elems [tempAccount]
      (getRequiredAuthorities requires ops) [] au → au.addressAuths = []) :
    ∃ result, getRequiredSignatures requires h rules ops ∅ availableKeys = .ok result ∧
      ∀ k, k ∈ result ↔ ∃ au, ComesTo h rules availableKeys.elems [tempAccount]
        (getRequiredAuthorities requires ops) [] au ∧ k ∈ marked h availableKeys.elems au := by
  obtain ⟨t, hideal, -, hcomes⟩ := requireSignatures_answers h availableKeys.elems hends
    { approvedBy := [tempAccount] } (remembers_initially h rules _ _)
  have hcomes : ∀ au, au ∈ t.examined ↔ ComesTo h rules availableKeys.elems [tempAccount]
      (getRequiredAuthorities requires ops) [] au := by
    intro au
    rw [hcomes, List.mem_nil_iff, false_or]
  obtain ⟨s, hsearch, hs⟩ := ((signers_selecting h availableKeys.elems rules).requireSignatures
    (fun _ _ => trivial)).selects _ _ ⟨⟩ t selects_make hideal fun au hau => hnone au ((hcomes au).mp hau)
  refine ⟨FlatSet.ofList (((s.providedSignatures.filter (·.2)).map Prod.fst).filter
    fun k => k ∈ availableKeys ∧ k ∉ (∅ : FlatSet Key)), ?_, fun k => ?_⟩
  · unfold getRequiredSignatures
    have hsearch : Returns _ (SignState.make (∅ : FlatSet Key).elems) PUnit.unit s := hsearch
    dsimp only
    rw [Returns.bind_eq hsearch]
    rfl
  · have hall : s.providedSignatures.filter (·.2) = s.providedSignatures :=
      List.filter_eq_self.mpr fun entry hentry => hs.signed entry hentry
    rw [FlatSet.mem_ofList, hall, List.mem_filter, hs.selected, decide_eq_true_iff]
    simp only [hcomes, FlatSet.notMem_empty, not_false_eq_true, and_true]
    refine and_iff_left_of_imp fun hk => ?_
    exact hs.available k ((hs.selected k).mpr (by simpa only [hcomes] using hk))

end

end Meta1Core.Signing
