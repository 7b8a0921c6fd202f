import Meta1Core.Signing.Enough
import Meta1Core.Signing.Selected
import Meta1Core.Lib.Elimination

/-!
# Minimal sets of signatures

The keys that were marked at every authority in view are enough for all that is reached, and fewer
keys never bring less into view, so that no key is irrelevant to `verify_authority` on the way.
-/

namespace Meta1Core.Signing

open Lib Protocol

section

variable {Key Addr : Type} [LinearOrder Key] [DecidableEq Addr]

def maxSigCheckDepth : UInt32 := 2

def Failure.isCaught : Failure → Bool
  | .txMissingOwnerAuth _ => true
  | .txMissingActiveAuth _ => true
  | .txMissingOtherAuth => true
  | _ => false

/-- `verify_authority` with its defaults -/
def verifySignatures {Op : Type} (requires : Op → Required Key Addr) (h : Hashing Key Addr)
    (rules : Rules Key Addr) (ops : List Op) (sigs : FlatSet Key) : Except Failure Unit :=
  match verifyAuthority requires h rules ops false [] (verifyAuthorityState sigs.elems [] []) with
  | .ok _ _ => .ok ()
  | .error e _ => .error e

def minimizeLoop (verify : FlatSet Key → Except Failure Unit) :
    List Key → FlatSet Key → Except Failure (FlatSet Key)
  | [], result => .ok result
  | k :: rest, result =>
    match verify (result.erase k) with
    | .ok _ => minimizeLoop verify rest (result.erase k)
    | .error e =>
      if e.isCaught then minimizeLoop verify rest ((result.erase k).insert k) else .error e

/-- As `minimize_required_signatures` calls it: `max_recursion` is handed on in the place of
`allow_non_immediate_owner`, and the depth is left to the default. -/
def Rules.handedOn (rules : Rules Key Addr) : Rules Key Addr :=
  { rules with
    allowNonImmediateOwner := decide (rules.maxRecursion ≠ 0)
    maxRecursion := maxSigCheckDepth }

def minimizeRequiredSignatures {Op : Type} (requires : Op → Required Key Addr) (h : Hashing Key Addr)
    (rules : Rules Key Addr) (ops : List Op) (signatureKeys availableKeys : FlatSet Key) :
    Except Failure (FlatSet Key) := do
  let s ← getRequiredSignatures requires h rules.handedOn ops signatureKeys availableKeys
  minimizeLoop (verifySignatures requires h rules ops) s.elems s

omit [DecidableEq Addr] in
theorem minimizeLoop_eq (verify : FlatSet Key → Except Failure Unit) (enough : FlatSet Key → Prop)
    [DecidablePred enough] {s : FlatSet Key}
    (hyes : ∀ sub : FlatSet Key, (∀ k ∈ sub, k ∈ s) → enough sub → verify sub = .ok ())
    (hno : ∀ sub : FlatSet Key, (∀ k ∈ sub, k ∈ s) → ¬enough sub →
      ∃ e, verify sub = .error e ∧ e.isCaught = true)
    {candidates : List Key} (hnodup : candidates.Nodup) {result : FlatSet Key}
    (hsub : ∀ k ∈ result, k ∈ s) (hcandidates : ∀ k ∈ candidates, k ∈ result) :
    minimizeLoop verify candidates result = .ok (FlatSet.eliminate enough candidates result) := by
  induction candidates generalizing result with
  | nil => rfl
  | cons k rest ih =>
    obtain ⟨hfirst, hnodup⟩ := List.nodup_cons.mp hnodup
    obtain ⟨hk, hcandidates⟩ := List.forall_mem_cons.mp hcandidates
    have hless : ∀ k' ∈ result.erase k, k' ∈ s := fun k' hk' => hsub k' (FlatSet.mem_erase.mp hk').1
    unfold minimizeLoop FlatSet.eliminate
    by_cases henough : enough (result.erase k)
    · rw [hyes _ hless henough, if_pos henough]
      refine ih hnodup hless fun k' hk' => FlatSet.mem_erase.mpr ⟨hcandidates k' hk', ?_⟩
      rintro rfl
      exact hfirst hk'
    · obtain ⟨e, hverify, he⟩ := hno _ hless henough
      rw [hverify, if_neg henough]
      dsimp only
      rw [if_pos he, FlatSet.insert_erase hk]
      exact ih hnodup hsub hcandidates

/-! ## What `verify_authority` says on the way -/

variable {Op : Type} {requires : Op → Required Key Addr} {h : Hashing Key Addr} {rules : Rules Key Addr}
  {ops : List Op}

omit [LinearOrder Key] [DecidableEq Addr] in
variable (requires ops) in
theorem requiredWithin_getRequiredAuthorities :
    RequiredWithin (getRequiredAuthorities requires ops) (requiredAuthorities requires ops) ∧
      ∀ id ∈ (requiredAuthorities requires ops).active, id ∉ (requiredAuthorities requires ops).owner →
        id ∈ (getRequiredAuthorities requires ops).active := by
  have hfold : ∀ owner active : List AccountId,
      owner.foldl (fun active account => active.erase account) active ⊆ active ∧
      ∀ id ∈ active, id ∉ owner →
        id ∈ owner.foldl (fun active account => active.erase account) active := by
    intro owner
    induction owner with
    | nil => exact fun active => ⟨List.Subset.refl _, fun id hid _ => hid⟩
    | cons account rest ih =>
      intro active
      obtain ⟨hsub, hkept⟩ := ih (active.erase account)
      refine ⟨List.Subset.trans hsub List.erase_subset, fun id hid hnot => ?_⟩
      have hne : id ≠ account := fun heq => hnot (heq ▸ List.mem_cons_self)
      exact hkept id ((List.mem_erase_of_ne hne).mpr hid) fun hmem => hnot (List.mem_cons_of_mem _ hmem)
  obtain ⟨hsub, hkept⟩ :=
    hfold (requiredAuthorities requires ops).owner (requiredAuthorities requires ops).active
  exact ⟨⟨List.Subset.refl _, List.Subset.refl _, hsub⟩, hkept⟩

/-- What `verify_authority` needs besides signatures: the committee is not required, the chains of
accounts end in time, there are no addresses in view without any signature, and the accounts exist. -/
structure Verifiable (h : Hashing Key Addr) (rules : Rules Key Addr) (required : Required Key Addr) :
    Prop where
  committee : committeeAccount ∉ required.active
  ends : EndsInTime rules [tempAccount] required []
  weights : RequiredWeightsFit rules required
  addresses : ∀ au, ComesTo h rules [] [tempAccount] required [] au → au.addressAuths = []
  owner : ∀ id ∈ required.owner, (rules.getOwner id).isSome
  active : ∀ id ∈ required.active, id ≠ tempAccount →
    (rules.getActive id).isSome ∧ (rules.getOwner id).isSome

variable (h rules requires ops) in
def Enough (sigs : List Key) : Prop :=
  AllReached h rules sigs [tempAccount] (requiredAuthorities requires ops) []

variable (h rules requires ops) in
def NoneIrrelevant (sigs : List Key) : Prop :=
  ∀ k ∈ sigs, ∃ au, ComesTo h rules sigs [tempAccount] (requiredAuthorities requires ops) [] au ∧
    k ∈ marked h sigs au

section Verifiable

variable (hverifiable : Verifiable h rules (requiredAuthorities requires ops)) {sigs sigs' : List Key}
include hverifiable

theorem Verifiable.addresses_of_comesTo {au : Authority Key Addr}
    (hcomes : ComesTo h rules sigs [tempAccount] (requiredAuthorities requires ops) [] au) :
    au.addressAuths = [] :=
  hverifiable.addresses au
    (ComesTo.anti (List.nil_subset sigs) hverifiable.weights hverifiable.ends (.refl _) hcomes)

theorem Verifiable.safe_of_comesTo {au : Authority Key Addr}
    (hcomes : ComesTo h rules sigs [tempAccount] (requiredAuthorities requires ops) [] au) :
    AddressSafe h sigs au := by
  intro total _
  rw [hverifiable.addresses_of_comesTo hcomes]
  rfl

theorem Verifiable.returns_iff :
    (∃ u s', Returns (verifyAuthority requires h rules ops false [])
      (verifyAuthorityState sigs [] []) u s') ↔
    Enough requires h rules ops sigs ∧ NoneIrrelevant requires h rules ops sigs := by
  have hpasses : (∃ u s', Returns (verifyAuthority requires h rules ops false [])
      (verifyAuthorityState sigs [] []) u s') ↔ _ := verifyAuthority_returns_iff hverifiable.ends
  rw [hpasses]
  constructor
  · exact fun hpasses => ⟨hpasses.reached, hpasses.used⟩
  · rintro ⟨hreached, hused⟩
    exact ⟨fun _ => hverifiable.committee, hreached, fun au => hverifiable.safe_of_comesTo, hused⟩

theorem Verifiable.raises (hnot : ¬Enough requires h rules ops sigs) :
    ∃ e, Raises (verifyAuthority requires h rules ops false []) (verifyAuthorityState sigs [] []) e ∧
      e.isCaught = true := by
  have hthrows : Throws rules (approvedInitially [] []) (requiredAuthorities requires ops) []
      (fun e => e.isCaught = true) := by
    constructor
    case other => rfl
    case owner =>
      intro id hid _
      rw [if_pos (hverifiable.owner id hid)]
      rfl
    case active =>
      intro id hid hnew
      rw [if_pos (hverifiable.active id hid fun heq => hnew (heq ▸ List.mem_singleton_self _))]
      rfl
  have hends : EndsInTime rules (approvedInitially [] []) (requiredAuthorities requires ops) [] :=
    hverifiable.ends
  obtain ⟨e, ⟨s', hsearch⟩, hcaught⟩ := search_raises h sigs hends hthrows hnot
  refine ⟨e, ⟨s', ?_⟩, hcaught.resolve_right ?_⟩
  · rw [verifyAuthority_eq fun hand => hverifiable.committee hand.2, hsearch]
  · rintro ⟨au, hcomes, hunsafe⟩
    exact hunsafe (hverifiable.safe_of_comesTo hcomes)

theorem Verifiable.enough_mono (hsub : sigs ⊆ sigs') (henough : Enough requires h rules ops sigs) :
    Enough requires h rules ops sigs' :=
  AllReached.mono hverifiable.weights hsub (List.Subset.refl _) (List.Subset.refl _) (.refl _) henough

theorem Verifiable.noneIrrelevant_anti (hsub : sigs ⊆ sigs')
    (hused : ∀ k ∈ sigs, ∃ au,
      ComesTo h rules sigs' [tempAccount] (requiredAuthorities requires ops) [] au ∧
        k ∈ marked h sigs' au) :
    NoneIrrelevant requires h rules ops sigs := by
  intro k hk
  obtain ⟨au, hau, hmarked⟩ := hused k hk
  have hview := ComesTo.anti hsub hverifiable.weights hverifiable.ends (.refl _) hau
  refine ⟨au, hview, marked_anti ?_ (hverifiable.addresses_of_comesTo hview) hsub hk hmarked⟩
  exact ComesToBy.kind hverifiable.weights.1 hverifiable.weights.2 hview

end Verifiable

def Rules.shallower (rules : Rules Key Addr) : Rules Key Addr :=
  { rules with
    maxRecursion :=
      if rules.maxRecursion ≤ maxSigCheckDepth then rules.maxRecursion else maxSigCheckDepth }

omit [LinearOrder Key] [DecidableEq Addr] in
theorem Rules.shallower_le (rules : Rules Key Addr) :
    rules.shallower.maxRecursion ≤ rules.maxRecursion ∧
      rules.shallower.maxRecursion ≤ rules.handedOn.maxRecursion := by
  unfold Rules.shallower Rules.handedOn
  dsimp only
  split
  · rename_i hle
    exact ⟨UInt32.le_refl _, hle⟩
  · rename_i hlt
    exact ⟨UInt32.le_of_lt (UInt32.not_le.mp hlt), UInt32.le_refl _⟩

/-- The two searches come to the same authorities if the depth says whether owners may stand in, and no
chain of accounts is longer than the shallower one is deep. -/
theorem comesTo_handedOn (howner : rules.allowNonImmediateOwner = decide (rules.maxRecursion ≠ 0))
    {required : Required Key Addr} (hfits : RequiredWeightsFit rules required)
    (hends : EndsInTime rules.shallower [tempAccount] required []) :
    EndsInTime rules [tempAccount] required [] ∧ EndsInTime rules.handedOn [tempAccount] required [] ∧
      ∀ (keys : List Key) (au : Authority Key Addr),
        ComesTo h rules.handedOn keys [tempAccount] required [] au ↔
          ComesTo h rules keys [tempAccount] required [] au := by
  have hsame : SameAccounts rules.shallower rules := ⟨rfl, rfl, rfl⟩
  have hsame' : SameAccounts rules.shallower rules.handedOn := ⟨rfl, rfl, howner.symm⟩
  obtain ⟨hle, hle'⟩ := rules.shallower_le
  refine ⟨hends.deeper hsame hle, hends.deeper hsame' hle', fun keys au => ?_⟩
  exact (comesTo_deeper_iff hsame' hle' hfits hends).trans (comesTo_deeper_iff hsame hle hfits hends).symm

section Minimize

variable {availableKeys : FlatSet Key}
  (hends : EndsInTime rules.handedOn [tempAccount] (getRequiredAuthorities requires ops) [])
  (hverifiable : Verifiable h rules (requiredAuthorities requires ops))
  (hview : ∀ au, ComesTo h rules.handedOn availableKeys.elems [tempAccount]
      (getRequiredAuthorities requires ops) [] au ↔
    ComesTo h rules availableKeys.elems [tempAccount] (getRequiredAuthorities requires ops) [] au)
include hends hverifiable hview

theorem getRequiredSignatures_enough (henough : Enough requires h rules ops availableKeys.elems) :
    ∃ s, getRequiredSignatures requires h rules.handedOn ops ∅ availableKeys = .ok s ∧
      (∀ k ∈ s, k ∈ availableKeys) ∧ Enough requires h rules ops s.elems ∧
      ∀ sub : FlatSet Key, (∀ k ∈ sub, k ∈ s) → NoneIrrelevant requires h rules ops sub.elems := by
  obtain ⟨hwithin, hkept⟩ := requiredWithin_getRequiredAuthorities requires ops
  have hsame := List.Subset.refl availableKeys.elems
  have hmore : ∀ au, ComesTo h rules.handedOn availableKeys.elems [tempAccount]
      (getRequiredAuthorities requires ops) [] au →
      ComesTo h rules availableKeys.elems [tempAccount] (requiredAuthorities requires ops) [] au :=
    fun au hcomes => ComesTo.anti hsame hverifiable.weights hverifiable.ends hwithin ((hview au).mp hcomes)
  have hnone := fun au hcomes => hverifiable.addresses_of_comesTo (hmore au hcomes)
  obtain ⟨s, hrun, hs⟩ := getRequiredSignatures_spec hends hnone
  have havailable : ∀ k ∈ s, k ∈ availableKeys := by
    intro k hk
    obtain ⟨au, hcomes, hmarked⟩ := (hs k).mp hk
    exact ((mem_marked (hnone au hcomes)).mp hmarked).2
  refine ⟨s, hrun, havailable, ?_, fun sub hsub => ?_⟩
  · have hall : AllReached h rules availableKeys.elems [tempAccount]
        (getRequiredAuthorities requires ops) [] :=
      AllReached.mono hverifiable.weights hsame (List.Subset.refl _) (List.Subset.refl _) hwithin henough
    have hselected : AllReached h rules s.elems [tempAccount] (getRequiredAuthorities requires ops) [] :=
      allReached_covered havailable (hverifiable.ends.within hwithin) (fun au hcomes =>
        ⟨hnone au ((hview au).mpr hcomes), fun k hk => (hs k).mpr ⟨au, (hview au).mpr hcomes, hk⟩⟩) hall
    refine ⟨hselected.other, hselected.owner, fun id hid => ?_⟩
    -- the owner authority of an account may stand in for its active one
    by_cases howns : id ∈ (requiredAuthorities requires ops).owner
    · exact .inr (.inr ((hselected.owner id howns).resolve_left List.not_mem_nil))
    · exact hselected.active id (hkept id hid howns)
  · refine hverifiable.noneIrrelevant_anti (fun k hk => havailable k (hsub k hk)) fun k hk => ?_
    obtain ⟨au, hcomes, hmarked⟩ := (hs k).mp (hsub k hk)
    exact ⟨au, hmore au hcomes, hmarked⟩

/-- `minimize_required_signatures` returns a minimal set of keys that passes `verify_authority`,
where some available keys pass and the search comes to the same authorities with what it hands on.
-/
theorem minimizeRequiredSignatures_minimal
    (hsuffices : ∃ sigs : List Key, sigs ⊆ availableKeys.elems ∧ ∃ u s',
      Returns (verifyAuthority requires h rules ops false []) (verifyAuthorityState sigs [] []) u s') :
    ∃ result, minimizeRequiredSignatures requires h rules ops ∅ availableKeys = .ok result ∧
      (∀ k ∈ result, k ∈ availableKeys) ∧
      (∃ u s', Returns (verifyAuthority requires h rules ops false [])
        (verifyAuthorityState result.elems [] []) u s') ∧
      ∀ sigs : List Key, sigs ⊆ result.elems → ¬result.elems ⊆ sigs → ¬∃ u s',
        Returns (verifyAuthority requires h rules ops false []) (verifyAuthorityState sigs [] []) u s' := by
  classical
  obtain ⟨sigs, hsub, hreturns⟩ := hsuffices
  obtain ⟨s, hrun, havailable, henough, hused⟩ := getRequiredSignatures_enough hends hverifiable hview
    (hverifiable.enough_mono hsub (hverifiable.returns_iff.mp hreturns).1)
  have hloop := minimizeLoop_eq (verifySignatures requires h rules ops)
    (fun sub => Enough requires h rules ops sub.elems) (s := s)
    (fun sub hsub henough => by
      obtain ⟨u, s', hret⟩ := hverifiable.returns_iff.mpr ⟨henough, hused sub hsub⟩
      unfold verifySignatures
      rw [show verifyAuthority requires h rules ops false [] _ = _ from hret])
    (fun sub hsub hnot => by
      obtain ⟨e, ⟨s', hraises⟩, he⟩ := hverifiable.raises hnot
      refine ⟨e, ?_, he⟩
      unfold verifySignatures
      rw [hraises])
    s.nodup (fun k hk => hk) (fun k hk => hk)
  have hleft : ∀ k ∈ FlatSet.eliminate (fun sub => Enough requires h rules ops sub.elems) s.elems s,
      k ∈ s :=
    fun k hk => FlatSet.eliminate_subset hk
  refine ⟨FlatSet.eliminate (fun sub => Enough requires h rules ops sub.elems) s.elems s, ?_, ?_, ?_, ?_⟩
  · unfold minimizeRequiredSignatures
    rw [hrun]
    exact hloop
  · exact fun k hk => havailable k (hleft k hk)
  · have hresult :=
      FlatSet.eliminate_enough (fun sub => Enough requires h rules ops sub.elems) s.elems henough
    exact hverifiable.returns_iff.mpr ⟨hresult, hused _ hleft⟩
  · intro sigs hsigs hproper hreturns
    have hmono : ∀ t t' : FlatSet Key, (∀ k ∈ t, k ∈ t') → Enough requires h rules ops t.elems →
        Enough requires h rules ops t'.elems := fun t t' hsub => hverifiable.enough_mono hsub
    have hpart : Enough requires h rules ops (FlatSet.ofList sigs).elems :=
      hverifiable.enough_mono (fun k hk => FlatSet.mem_ofList.mpr hk) (hverifiable.returns_iff.mp hreturns).1
    refine hproper fun k hk => FlatSet.mem_ofList.mp ?_
    exact FlatSet.eliminate_minimal hmono (fun _ hk => hk)
      (fun k hk => hsigs (FlatSet.mem_ofList.mp hk)) hpart hk

end Minimize

end

/-- Account 10 is reached with key 2 alone, account 11 with key 4.  Chains of one to three accounts
lead from accounts 21 to 23 to key 7. -/
def minimizeRules (allowNonImmediateOwner : Bool) (maxRecursion : UInt32) : Rules Nat Nat where
  getActive id :=
    if id = 10 then some ⟨2, [], [(1, 1), (2, 2)], []⟩
    else if id = 11 then some ⟨1, [], [(4, 1)], []⟩
    else if id = 21 then some ⟨1, [], [(7, 1)], []⟩
    else if id = 22 then some (accountAuthority 21)
    else if id = 23 then some (accountAuthority 22)
    else none
  getOwner id := if id = 10 then some ⟨1, [], [(3, 1)], []⟩ else none
  allowNonImmediateOwner
  maxRecursion

def firstKeys : FlatSet Nat := ⟨[1, 2, 3, 4], by decide⟩

theorem minimizeRequiredSignatures_minimal_two :
    minimizeRequiredSignatures requiresOther sampleHashing (minimizeRules true 2) [accountAuthority 10] ∅
        firstKeys = .ok ⟨[2], by decide⟩ ∧
      (∃ u s', Returns (verifyAuthority requiresOther sampleHashing (minimizeRules true 2)
        [accountAuthority 10] false []) (verifyAuthorityState [2] [] []) u s') ∧
      ∀ sigs : List Nat, sigs ⊆ [2] → ¬[2] ⊆ sigs →
        ¬∃ u s', Returns (verifyAuthority requiresOther sampleHashing (minimizeRules true 2)
          [accountAuthority 10] false []) (verifyAuthorityState sigs [] []) u s' := by
  have hkind : ∀ id au, (minimizeRules true 2).getActive id = some au ∨
      (minimizeRules true 2).getOwner id = some au → WeightsFit au ∧ au.addressAuths = [] := by
    intro id au hau
    unfold minimizeRules at hau
    dsimp only at hau
    split_ifs at hau
    all_goals
      rcases hau with hau | hau <;> cases hau
      all_goals decide
  have hother : ∀ au ∈ [accountAuthority 10], WeightsFit au ∧ au.addressAuths = [] := by decide
  have hfits : RequiredWeightsFit (minimizeRules true 2)
      (requiredAuthorities requiresOther [accountAuthority 10]) :=
    ⟨fun id au hau => (hkind id au hau).1, fun au hau => (hother au hau).1⟩
  have hends : EndsInTime (minimizeRules true 2).shallower [tempAccount]
      (requiredAuthorities requiresOther [accountAuthority 10]) [] := by
    constructor
    case other =>
      intro au hau entry hentry
      obtain rfl := List.mem_singleton.mp hau
      obtain rfl := List.mem_singleton.mp hentry
      refine .inr fun au hau entry hentry => ?_
      rcases hau with hau | ⟨-, hau⟩
      · cases hau
        cases hentry
      · cases hau
        cases hentry
    case owner => exact fun id hid => nomatch hid
    case active => exact fun id hid hnew => absurd hid hnew
  obtain ⟨hends', hends'', hview⟩ := comesTo_handedOn (h := sampleHashing) rfl hfits hends
  have hverifiable : Verifiable sampleHashing (minimizeRules true 2)
      (requiredAuthorities requiresOther [accountAuthority 10]) :=
    { committee := by decide
      ends := hends'
      weights := hfits
      addresses := fun au hcomes => (ComesToBy.kind hkind hother hcomes).2
      owner := fun id hid => nomatch hid
      active := fun id hid hnew => absurd (List.mem_singleton.mp hid) hnew }
  have hsuffices : ∃ sigs : List Nat, sigs ⊆ firstKeys.elems ∧ ∃ u s',
      Returns (verifyAuthority requiresOther sampleHashing (minimizeRules true 2) [accountAuthority 10]
        false []) (verifyAuthorityState sigs [] []) u s' :=
    ⟨[2], by decide, ⟨⟩, _, rfl⟩
  obtain ⟨result, hrun, -, hpasses, hminimal⟩ :=
    minimizeRequiredSignatures_minimal hends'' hverifiable (hview firstKeys.elems) hsuffices
  have hresult : minimizeRequiredSignatures requiresOther sampleHashing (minimizeRules true 2)
      [accountAuthority 10] ∅ firstKeys = .ok ⟨[2], by decide⟩ := rfl
  obtain rfl := Except.ok.inj (hrun.symm.trans hresult)
  exact ⟨hresult, hpasses, hminimal⟩

/-- A depth of three is enough for key 7, but the keys are selected with a depth of two.  Where owners may
not stand in, key 3 of the owner of account 10 is selected nevertheless, and is all that is selected. -/
theorem minimize_loses_parameters :
    ((∃ s', Returns (verifyAuthority requiresOther sampleHashing (minimizeRules true 3)
        [accountAuthority 23] false []) (verifyAuthorityState [7] [] []) ⟨⟩ s') ∧
      minimizeRequiredSignatures requiresOther sampleHashing (minimizeRules true 3) [accountAuthority 23] ∅
        ⟨[7], by decide⟩ = .ok ∅ ∧
      Raises (verifyAuthority requiresOther sampleHashing (minimizeRules true 3) [accountAuthority 23]
        false []) (verifyAuthorityState [] [] []) .txMissingOtherAuth) ∧
    ((∃ s', Returns (verifyAuthority requiresOther sampleHashing (minimizeRules false 2)
        [⟨1, [(10, 1), (11, 1)], [], []⟩] false []) (verifyAuthorityState [4] [] []) ⟨⟩ s') ∧
      minimizeRequiredSignatures requiresOther sampleHashing (minimizeRules false 2)
        [⟨1, [(10, 1), (11, 1)], [], []⟩] ∅ ⟨[3, 4], by decide⟩ = .ok ⟨[3], by decide⟩ ∧
      Raises (verifyAuthority requiresOther sampleHashing (minimizeRules false 2)
        [⟨1, [(10, 1), (11, 1)], [], []⟩] false []) (verifyAuthorityState [3] [] []) .txMissingOtherAuth) :=
  ⟨⟨⟨_, rfl⟩, rfl, ⟨_, rfl⟩⟩, ⟨⟨_, rfl⟩, rfl, ⟨_, rfl⟩⟩⟩

end Meta1Core.Signing
