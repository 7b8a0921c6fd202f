import Meta1Core.Signing.Approval
import Meta1Core.Signing.Programs

/-!
# Soundness of `verify_authority`

The search of the source follows the search with ideal answers as long as it meets no address that
is unknown to it.  At the first one it reads through an end iterator.
-/

namespace Meta1Core.Signing

open Lib Protocol

section

variable {Key Addr : Type} [LinearOrder Key] [DecidableEq Addr]

/-- Every address looked up is known, up to the one with which the threshold is reached. -/
def addressesKnown (known : Addr → Bool) (threshold : UInt32) :
    List (Addr × UInt16) → UInt32 → Bool
  | [], _ => true
  | (a, w) :: rest, total =>
    known a && (decide (threshold ≤ total + w.toUInt32) ||
      addressesKnown known threshold rest (total + w.toUInt32))

/-- The keys that are signed for reach the threshold, or each address looked up after them, until
    the threshold is reached, is a hash of a signature key. -/
def AddressSafe (h : Hashing Key Addr) (sigs : List Key) (au : Authority Key Addr) : Prop :=
  ∀ total, tally (fun k => decide (k ∈ sigs)) au.weightThreshold au.keyAuths 0 = some total →
    addressesKnown (fun a => decide (IsHashOf h sigs a)) au.weightThreshold au.addressAuths total
      = true

variable {h : Hashing Key Addr} {sigs : List Key}

def TableOf (h : Hashing Key Addr) (keys : List Key) (sigs : AddressSigs Key Addr) : Prop :=
  (∀ a k, sigs a = some k → k ∈ keys ∧ a ∈ h.addresses k) ∧
    ∀ a, IsHashOf h keys a → sigs a ≠ none

variable {k : Key} {s : SignState Key Addr} {t : Trail Key Addr} {au : Authority Key Addr}

omit [LinearOrder Key] in
theorem foldl_update (addresses : List Addr) (sigs : AddressSigs Key Addr) (a : Addr) :
    addresses.foldl (fun sigs a => Function.update sigs a (some k)) sigs a
      = if a ∈ addresses then some k else sigs a := by
  induction addresses generalizing sigs with
  | nil => simp
  | cons b rest ih =>
    rw [List.foldl_cons, ih]
    by_cases hrest : a ∈ rest
    · rw [if_pos hrest, if_pos (List.mem_cons_of_mem _ hrest)]
    · rw [if_neg hrest]
      by_cases hab : a = b
      · subst hab
        simp
      · rw [Function.update_of_ne hab, if_neg (by simp [hab, hrest])]

omit [LinearOrder Key] in
theorem tableOf_foldl (rest : List Key) {keys : List Key} {sigs : AddressSigs Key Addr}
    (hsigs : TableOf h keys sigs) :
    TableOf h (keys ++ rest) (rest.foldl (fun sigs k =>
      (h.addresses k).foldl (fun sigs a => Function.update sigs a (some k)) sigs) sigs) := by
  induction rest generalizing keys sigs with
  | nil => simpa using hsigs
  | cons k rest ih =>
    rw [List.foldl_cons, List.append_cons]
    refine ih ⟨?_, ?_⟩
    · intro a k' hk'
      rw [foldl_update] at hk'
      split at hk'
      · rename_i hmem
        cases hk'
        exact ⟨by simp, hmem⟩
      · obtain ⟨hkeys, hmem⟩ := hsigs.1 a k' hk'
        exact ⟨List.mem_append_left _ hkeys, hmem⟩
    · rintro a ⟨k', hk', hmem⟩
      rw [foldl_update]
      split
      · simp
      · rename_i hnot
        rcases List.mem_append.mp hk' with hold | hnew
        · exact hsigs.2 a ⟨k', hold, hmem⟩
        · rw [List.mem_singleton.mp hnew] at hmem
          exact absurd hmem hnot

omit [LinearOrder Key] in
theorem tableOf_addressSigs (keys : List Key) : TableOf h keys (addressSigs h keys) := by
  have hempty : TableOf h [] (fun _ => none) := ⟨by simp, by simp [IsHashOf]⟩
  exact tableOf_foldl keys hempty

/-! ## States that correspond -/

def Occurs (h : Hashing Key Addr) (k : Key) (au : Authority Key Addr) : Prop :=
  k ∈ au.keyAuths.map Prod.fst ∨ ∃ a ∈ h.addresses k, a ∈ au.addressAuths.map Prod.fst

variable (h sigs) in
structure Linked (s : SignState Key Addr) (t : Trail Key Addr) : Prop where
  approvedBy : s.approvedBy = t.approvedBy
  examined : s.examined = t.examined
  keys : s.providedSignatures.map Prod.fst = sigs
  tables : ∀ tables, s.addressTables = some tables →
    tables = { available := addressSigs h [], provided := addressSigs h sigs }
  used : ∀ k, (k, true) ∈ s.providedSignatures → ∃ au ∈ s.examined, Occurs h k au

variable (h sigs) in
def AllSafe (t : Trail Key Addr) : Prop := ∀ au ∈ t.examined, AddressSafe h sigs au

theorem setSigned_keys {signatures : List (Key × Bool)} (hk : k ∈ signatures.map Prod.fst) :
    (setSigned k signatures).map Prod.fst = signatures.map Prod.fst := by
  rw [setSigned, if_pos hk, List.map_map]
  refine List.map_congr_left fun entry _ => ?_
  rw [Function.comp_apply]
  split
  · rename_i heq
    exact heq.symm
  · rfl

theorem mem_setSigned {k' : Key} {signatures : List (Key × Bool)} (hk : k ∈ signatures.map Prod.fst)
    (hmem : (k', true) ∈ setSigned k signatures) :
    k' = k ∨ (k', true) ∈ signatures := by
  rw [setSigned, if_pos hk] at hmem
  obtain ⟨entry, hentry, heq⟩ := List.mem_map.mp hmem
  split at heq
  · exact Or.inl (congrArg Prod.fst heq).symm
  · exact Or.inr (heq ▸ hentry)

section

variable (hl : Linked h sigs s t)

include hl

theorem Linked.markSigned_ok (hk : k ∈ sigs) (hau : au ∈ t.examined) (hocc : Occurs h k au) :
    ∃ s', markSigned k s = .ok true s' ∧ Linked h sigs s' t := by
  have hk' : k ∈ s.providedSignatures.map Prod.fst := hl.keys ▸ hk
  refine ⟨_, rfl, ⟨hl.approvedBy, hl.examined, ?_, hl.tables, ?_⟩⟩
  · exact (setSigned_keys hk').trans hl.keys
  · intro k1 hmem
    rcases mem_setSigned hk' hmem with rfl | hold
    · exact ⟨au, hl.examined ▸ hau, hocc⟩
    · exact hl.used k1 hold

theorem Linked.signedByKey_ok (hau : au ∈ t.examined) (hk : k ∈ au.keyAuths.map Prod.fst) :
    ∃ s', signedByKey [] k s = .ok (decide (k ∈ sigs)) s' ∧ Linked h sigs s' t := by
  have hrun : signedByKey [] k s =
      if k ∈ s.providedSignatures.map Prod.fst then markSigned k s else .ok false s := by
    simp only [signedByKey, List.not_mem_nil, or_false]
    show (if _ then markSigned k else pure false : Check _ Bool) s = _
    split <;> rfl
  rw [hrun, hl.keys]
  by_cases hmem : k ∈ sigs
  · rw [if_pos hmem, decide_eq_true hmem]
    exact hl.markSigned_ok hmem hau (Or.inl hk)
  · rw [if_neg hmem, decide_eq_false hmem]
    exact ⟨s, rfl, hl⟩

omit [LinearOrder Key] in
theorem Linked.getAddressTables_ok : ∃ s', getAddressTables h [] s
        = .ok { available := addressSigs h [], provided := addressSigs h sigs } s' ∧
      Linked h sigs s' t := by
  cases htables : s.addressTables with
  | some tables =>
    refine ⟨s, ?_, hl⟩
    rw [← hl.tables tables htables]
    unfold getAddressTables
    rw [Returns.bind_eq (Returns.get_iff.mpr ⟨rfl, rfl⟩), htables]
    rfl
  | none =>
    refine ⟨{ s with addressTables := some ⟨addressSigs h [], addressSigs h sigs⟩ }, ?_,
      ⟨hl.approvedBy, hl.examined, hl.keys, ?_, hl.used⟩⟩
    · rw [← hl.keys]
      unfold getAddressTables
      rw [Returns.bind_eq (Returns.get_iff.mpr ⟨rfl, rfl⟩), htables]
      rfl
    · intro tables htb
      exact (Option.some.inj htb).symm

theorem Linked.signedByAddress_cases {a : Addr} (hau : au ∈ t.examined)
    (ha : a ∈ au.addressAuths.map Prod.fst) : if IsHashOf h sigs a then
      ∃ s', signedByAddress h [] a s = .ok true s' ∧ Linked h sigs s' t
    else Raises (signedByAddress h [] a) s .endIterator := by
  obtain ⟨s1, htables, hl1⟩ := hl.getAddressTables_ok
  obtain ⟨hnames, hall⟩ := tableOf_addressSigs (h := h) sigs
  have hrun : signedByAddress h [] a s =
      ((addressSigs h sigs a).elim (throw .endIterator) markSigned : Check _ Bool) s1 := by
    simp only [signedByAddress, bind, EStateM.bind, htables, List.not_mem_nil, if_false]
    cases addressSigs h sigs a <;> rfl
  cases hkey : addressSigs h sigs a with
  | none =>
    rw [if_neg fun hash => hall a hash hkey]
    refine ⟨s1, ?_⟩
    rw [hrun, hkey]
    rfl
  | some k =>
    obtain ⟨hk, hmem⟩ := hnames a k hkey
    rw [if_pos ⟨k, hk, hmem⟩, hrun, hkey]
    exact hl1.markSigned_ok hk hau (Or.inr ⟨a, hmem, ha⟩)

theorem Linked.weigh_keys (hau : au ∈ t.examined) (threshold total : UInt32)
    {entries : List (Key × UInt16)} (hsub : entries ⊆ au.keyAuths) :
    ∃ s', weigh (signedByKey []) threshold entries total s
        = .ok (tally (fun k => decide (k ∈ sigs)) threshold entries total) s' ∧
      Linked h sigs s' t := by
  induction entries generalizing total s with
  | nil => exact ⟨s, rfl, hl⟩
  | cons entry rest ih =>
    obtain ⟨k, w⟩ := entry
    obtain ⟨hhead, hrest⟩ := List.cons_subset.mp hsub
    obtain ⟨s1, hsigned, hl1⟩ := hl.signedByKey_ok hau (List.mem_map_of_mem hhead)
    rw [weigh, tally]
    simp only [bind, EStateM.bind, hsigned]
    split
    · split
      · exact ⟨s1, rfl, hl1⟩
      · exact ih hl1 _ hrest
    · exact ih hl1 _ hrest

theorem Linked.weigh_addresses (hau : au ∈ t.examined) (threshold total : UInt32)
    {entries : List (Addr × UInt16)} (hsub : entries ⊆ au.addressAuths) :
    if addressesKnown (fun a => decide (IsHashOf h sigs a)) threshold entries total then
      ∃ s', weigh (signedByAddress h []) threshold entries total s
          = .ok (tally (fun a => decide (IsHashOf h sigs a)) threshold entries total) s' ∧
        Linked h sigs s' t
    else Raises (weigh (signedByAddress h []) threshold entries total) s .endIterator := by
  induction entries generalizing total s with
  | nil =>
    rw [addressesKnown, if_pos rfl]
    exact ⟨s, rfl, hl⟩
  | cons entry rest ih =>
    obtain ⟨a, w⟩ := entry
    obtain ⟨hhead, hrest⟩ := List.cons_subset.mp hsub
    have hlookup := hl.signedByAddress_cases hau (List.mem_map_of_mem hhead)
    rw [weigh, tally, addressesKnown]
    by_cases hash : IsHashOf h sigs a
    · rw [if_pos hash] at hlookup
      obtain ⟨s1, hsigned, hl1⟩ := hlookup
      simp only [Raises, bind, EStateM.bind, hsigned, hash, decide_true, if_true, Bool.true_and]
      by_cases hstop : threshold ≤ total + w.toUInt32
      · simp only [hstop, decide_true, Bool.true_or, if_true]
        exact ⟨s1, rfl, hl1⟩
      · simp only [hstop, decide_false, Bool.false_or, if_false]
        exact ih hl1 _ hrest
    · rw [if_neg hash] at hlookup
      simp only [hash, decide_false, Bool.false_and, Bool.false_eq_true, if_false]
      exact Raises.bind_iff.mpr (Or.inl hlookup)

omit [LinearOrder Key] in
theorem Linked.examine (au : Authority Key Addr) :
    Linked h sigs { s with examined := au :: s.examined } { t with examined := au :: t.examined } where
  approvedBy := hl.approvedBy
  examined := congrArg (au :: ·) hl.examined
  keys := hl.keys
  tables := hl.tables
  used k hk := by
    obtain ⟨au', hau', hocc⟩ := hl.used k hk
    exact ⟨au', List.mem_cons_of_mem _ hau', hocc⟩

theorem Linked.weighSignatures_cases (au : Authority Key Addr) :
    (AddressSafe h sigs au → ∃ s', weighSignatures (signState h []) au s
        = .ok (signatureTally h sigs au) s' ∧
      Linked h sigs s' { t with examined := au :: t.examined }) ∧
    (¬AddressSafe h sigs au → Raises (weighSignatures (signState h []) au) s .endIterator) := by
  obtain ⟨s1, hkeys, hl1⟩ := (hl.examine au).weigh_keys List.mem_cons_self
    au.weightThreshold 0 (List.Subset.refl au.keyAuths)
  have hrun : weighSignatures (signState h []) au s =
      ((tally (fun k => decide (k ∈ sigs)) au.weightThreshold au.keyAuths 0).elim (pure none)
        (weigh (signedByAddress h []) au.weightThreshold au.addressAuths) : Check _ _) s1 := by
    show EStateM.bind (weigh (signedByKey []) au.weightThreshold au.keyAuths 0) _ _ = _
    refine (Returns.bind_eq hkeys _).trans ?_
    cases tally (fun k => decide (k ∈ sigs)) au.weightThreshold au.keyAuths 0 <;> rfl
  unfold AddressSafe signatureTally Raises
  rw [hrun]
  cases htally : tally (fun k => decide (k ∈ sigs)) au.weightThreshold au.keyAuths 0 with
  | none => exact ⟨fun _ => ⟨s1, rfl, hl1⟩, fun hoverflow => absurd (by simp) hoverflow⟩
  | some total =>
    have haddresses := hl1.weigh_addresses List.mem_cons_self au.weightThreshold total
      (List.Subset.refl au.addressAuths)
    constructor
    · intro hsafe
      rw [if_pos (hsafe total rfl)] at haddresses
      exact haddresses
    · intro hoverflow
      rw [if_neg fun hknown => hoverflow fun total' htotal' =>
        (Option.some.inj htotal') ▸ hknown] at haddresses
      exact haddresses

end

/-! ## Following the ideal search -/

def stateOf {ε σ α : Type} : EStateM.Result ε σ α → σ
  | .ok _ s => s
  | .error _ s => s

variable (h sigs) in
/-- How a run of the source's search compares with the ideal one: both end alike, or an unsafe
    authority is on the trail and the source has read through an end iterator. -/
inductive Matches {α : Type} : EStateM.Result Failure (SignState Key Addr) α →
    EStateM.Result Failure (Trail Key Addr) α → Prop
  | ok {a s t} (hl : Linked h sigs s t) (hsafe : AllSafe h sigs t) : Matches (.ok a s) (.ok a t)
  | error {e s t} (hl : Linked h sigs s t) (hsafe : AllSafe h sigs t)
      (he : e ≠ .endIterator) : Matches (.error e s) (.error e t)
  | unsafeAddress {s r} (hoverflow : ¬AllSafe h sigs (stateOf r)) :
      Matches (.error .endIterator s) r

variable (h sigs) in
/-- `x` follows `y`, which only adds to the trail. -/
structure Follows {α : Type} (x : Check (SignState Key Addr) α) (y : Check (Trail Key Addr) α) :
    Prop where
  grows : ∀ t, t.examined ⊆ (stateOf (y t)).examined
  matches' : ∀ s t, Linked h sigs s t → AllSafe h sigs t → Matches h sigs (x s) (y t)

namespace Follows

variable {α β : Type} {x : Check (SignState Key Addr) α} {y : Check (Trail Key Addr) α}
  {f : α → Check (SignState Key Addr) β} {g : α → Check (Trail Key Addr) β}

theorem pure (a : α) : Follows h sigs (pure a) (pure a) where
  grows t := List.Subset.refl t.examined
  matches' _ _ hl hsafe := .ok hl hsafe

theorem throw {e : Failure} (he : e ≠ .endIterator) :
    Follows (α := α) h sigs (throw e) (throw e) where
  grows t := List.Subset.refl t.examined
  matches' _ _ hl hsafe := .error hl hsafe he

theorem bind (hx : Follows h sigs x y) (hf : ∀ a, Follows h sigs (f a) (g a)) :
    Follows h sigs (x >>= f) (y >>= g) where
  grows t := by
    have hfirst := hx.grows t
    simp only [Bind.bind, EStateM.bind]
    cases hy : y t with
    | ok a t' =>
      rw [hy] at hfirst
      exact List.Subset.trans hfirst ((hf a).grows t')
    | error e t' =>
      rw [hy] at hfirst
      exact hfirst
  matches' s t hl hsafe := by
    have hfirst := hx.matches' s t hl hsafe
    simp only [Bind.bind, EStateM.bind]
    generalize x s = rx at hfirst
    generalize y t = ry at hfirst
    cases hfirst with
    | ok hl' hsafe' => exact (hf _).matches' _ _ hl' hsafe'
    | error hl' hsafe' he => exact .error hl' hsafe' he
    | unsafeAddress hoverflow =>
      -- the unsafe authority stays on the trail, whatever the ideal search goes on to do
      refine .unsafeAddress fun hafter => hoverflow fun au hau => hafter au ?_
      cases ry with
      | ok a t' => exact (hf a).grows t' hau
      | error e t' => exact hau

end Follows

theorem isApproved_follows (id : AccountId) :
    Follows h sigs ((signState h []).isApproved id) ((ideal h sigs).isApproved id) where
  grows t := List.Subset.refl t.examined
  matches' s t hl hsafe := by
    have hsame : (decide (id ∈ s.approvedBy)) = decide (id ∈ t.approvedBy) := by
      rw [hl.approvedBy]
    show Matches h sigs (.ok (decide (id ∈ s.approvedBy)) s) (.ok (decide (id ∈ t.approvedBy)) t)
    rw [hsame]
    exact .ok hl hsafe

theorem approve_follows (id : AccountId) :
    Follows h sigs ((signState h []).approve id) ((ideal h sigs).approve id) where
  grows t := List.Subset.refl t.examined
  matches' s t hl hsafe := by
    refine .ok ⟨?_, hl.examined, hl.keys, hl.tables, hl.used⟩ hsafe
    exact congrArg (List.insert id) hl.approvedBy

theorem weighSignatures_follows (au : Authority Key Addr) :
    Follows h sigs (weighSignatures (signState h []) au) (weighSignatures (ideal h sigs) au) where
  grows t := by
    rw [weighSignatures_ideal]
    exact List.subset_cons_self au t.examined
  matches' s t hl hsafe := by
    obtain ⟨hknown, hunknown⟩ := hl.weighSignatures_cases au
    rw [weighSignatures_ideal]
    by_cases hau : AddressSafe h sigs au
    · obtain ⟨s', hrun, hl'⟩ := hknown hau
      rw [hrun]
      exact .ok hl' (List.forall_mem_cons.mpr ⟨hau, hsafe⟩)
    · obtain ⟨s', hrun⟩ := hunknown hau
      rw [hrun]
      exact .unsafeAddress fun hall => hau (hall au List.mem_cons_self)

variable (h sigs) in
theorem signers_follow (rules : Rules Key Addr) :
    Relates.Signers (signState h []) (ideal h sigs) rules (fun _ => True)
      (fun _ x y => Follows h sigs x y) where
  pure := Follows.pure
  throw he := Follows.throw fun heq => (heq ▸ he : Failure.IsMissing .endIterator)
  bind := Follows.bind
  weighSignatures au _ := weighSignatures_follows au
  isApproved := isApproved_follows
  approve := approve_follows
  active _ _ _ := trivial
  owner _ _ _ := trivial

theorem search_follows (rules : Rules Key Addr) (required : Required Key Addr)
    (ownerApprovals : List AccountId) :
    Follows h sigs (search (signState h []) rules required ownerApprovals)
      (search (ideal h sigs) rules required ownerApprovals) :=
  (signers_follow h sigs rules).search (fun _ _ => trivial) ownerApprovals

variable {Op : Type} (requires : Op → Required Key Addr) (h) (rules : Rules Key Addr)
  (sigs) (ops : List Op) (allowCommittee : Bool) (activeApprovals ownerApprovals : List AccountId)

def visited : List (Authority Key Addr) :=
  let required := requiredAuthorities requires ops
  if allowCommittee = false ∧ committeeAccount ∈ required.active then []
  else (stateOf (search (ideal h sigs) rules required ownerApprovals
    { approvedBy := approvedInitially activeApprovals ownerApprovals })).examined

/-- `verify_authority` never reads through an end iterator, and when it succeeds everything the
    operations require is satisfied and every signature key occurs in an authority it examined. -/
structure VerifiesSoundly : Prop where
  noEndIterator :
    ¬Raises (verifyAuthority requires h rules ops allowCommittee ownerApprovals)
      (verifyAuthorityState sigs activeApprovals ownerApprovals) .endIterator
  satisfied : ∀ u s', Returns (verifyAuthority requires h rules ops allowCommittee ownerApprovals)
      (verifyAuthorityState sigs activeApprovals ownerApprovals) u s' →
    AllSatisfied h rules sigs (approvedInitially activeApprovals ownerApprovals)
      (requiredAuthorities requires ops) ownerApprovals
  relevant : ∀ u s', Returns (verifyAuthority requires h rules ops allowCommittee ownerApprovals)
      (verifyAuthorityState sigs activeApprovals ownerApprovals) u s' →
    ∀ k ∈ sigs, ∃ au ∈ s'.examined, Occurs h k au

omit [LinearOrder Key] in
theorem linked_initially :
    Linked h sigs (verifyAuthorityState sigs activeApprovals ownerApprovals)
      { approvedBy := approvedInitially activeApprovals ownerApprovals } where
  approvedBy := rfl
  examined := rfl
  keys := by simp [verifyAuthorityState, SignState.make, Function.comp_def]
  tables := by simp [verifyAuthorityState, SignState.make]
  used := by simp [verifyAuthorityState, SignState.make]

variable {requires h rules sigs ops allowCommittee activeApprovals ownerApprovals}

omit [LinearOrder Key] in
theorem Linked.occurs_of_allUsed (hl : Linked h sigs s t)
    (hused : (s.providedSignatures.any fun entry => !entry.2) = false) (hk : k ∈ sigs) :
    ∃ au ∈ s.examined, Occurs h k au := by
  rw [← hl.keys] at hk
  obtain ⟨⟨k', b⟩, hentry, rfl⟩ := List.mem_map.mp hk
  have hb : b = true := by simpa using List.any_eq_false.mp hused _ hentry
  exact hl.used k' (hb ▸ hentry)

theorem verifyAuthority_eq (hcommittee : ¬(allowCommittee = false ∧
      committeeAccount ∈ (requiredAuthorities requires ops).active)) (s : SignState Key Addr) :
    verifyAuthority requires h rules ops allowCommittee ownerApprovals s =
      match search (signState h []) rules (requiredAuthorities requires ops) ownerApprovals s with
      | .error e s' => .error e s'
      | .ok _ s' =>
        let used := { s' with providedSignatures := s'.providedSignatures.filter (·.2) }
        if (s'.providedSignatures.any fun entry => !entry.2) then .error .txIrrelevantSig used
        else .ok ⟨⟩ used := by
  simp only [verifyAuthority, if_neg hcommittee, bind, EStateM.bind]
  cases search (signState h []) rules (requiredAuthorities requires ops) ownerApprovals s with
  | error e s' => rfl
  | ok u s' =>
    show (if (s'.providedSignatures.any fun entry => !entry.2) then throw .txIrrelevantSig
      else pure ⟨⟩ : Check _ PUnit) _ = _
    by_cases hunused : (s'.providedSignatures.any fun entry => !entry.2) = true
    · simp only [if_pos hunused]
      rfl
    · simp only [if_neg hunused]
      rfl

/-- `verify_authority` is sound if and only if each authority a search with ideal answers comes
    to has only addresses that are safe to look up. -/
theorem verifiesSoundly_iff :
    VerifiesSoundly h sigs requires rules ops allowCommittee activeApprovals ownerApprovals ↔
      ∀ au ∈ visited h sigs requires rules ops allowCommittee activeApprovals ownerApprovals,
        AddressSafe h sigs au := by
  have hlinked := linked_initially h sigs activeApprovals ownerApprovals
  by_cases hcommittee : allowCommittee = false ∧
      committeeAccount ∈ (requiredAuthorities requires ops).active
  · -- the first assertion fails before any authority is looked at
    have hrun : verifyAuthority requires h rules ops allowCommittee ownerApprovals
        (verifyAuthorityState sigs activeApprovals ownerApprovals) = .error
          .invalidCommitteeApproval (verifyAuthorityState sigs activeApprovals ownerApprovals) := by
      simp only [verifyAuthority, if_pos hcommittee]
      rfl
    refine iff_of_true ⟨?_, ?_, ?_⟩ (by simp [visited, hcommittee])
    · rintro ⟨s', hraise⟩
      simp [hrun] at hraise
    · intro u s' hret
      simp [Returns, hrun] at hret
    · intro u s' hret
      simp [Returns, hrun] at hret
  have hmatches := (search_follows rules (requiredAuthorities requires ops)
    ownerApprovals).matches' _ _ hlinked (by simp [AllSafe])
  have hasserts : Asserts h rules sigs (approvedInitially activeApprovals ownerApprovals) _
      (search (ideal h sigs) rules (requiredAuthorities requires ops) ownerApprovals) :=
    search_asserts _ _
  have hideal := hasserts { approvedBy := approvedInitially activeApprovals ownerApprovals }
  have hrun : verifyAuthority requires h rules ops allowCommittee ownerApprovals
      (verifyAuthorityState sigs activeApprovals ownerApprovals) = _ :=
    verifyAuthority_eq hcommittee _
  have hvisited : visited h sigs requires rules ops allowCommittee activeApprovals ownerApprovals
      = (stateOf (search (ideal h sigs) rules (requiredAuthorities requires ops) ownerApprovals
        { approvedBy := approvedInitially activeApprovals ownerApprovals })).examined := by
    simp only [visited, if_neg hcommittee]
  rw [hvisited]
  unfold Returns at hideal
  generalize search (signState h []) rules (requiredAuthorities requires ops) ownerApprovals
    (verifyAuthorityState sigs activeApprovals ownerApprovals) = run at hmatches hrun
  generalize search (ideal h sigs) rules (requiredAuthorities requires ops) ownerApprovals
    { approvedBy := approvedInitially activeApprovals ownerApprovals } = trail at hmatches hideal ⊢
  cases hmatches with
  | ok hl hsafe =>
    rename_i u s t
    refine iff_of_true ⟨?_, ?_, ?_⟩ hsafe
    · rintro ⟨s', hraise⟩
      rw [hrun] at hraise
      dsimp only at hraise
      split at hraise <;> simp at hraise
    · intro v s' _
      exact (hideal u t (fun id hid => .initially hid) rfl).2
    · intro v s' hret k hk
      unfold Returns at hret
      rw [hrun] at hret
      dsimp only at hret
      split at hret
      · simp at hret
      · rename_i hunused
        obtain ⟨-, rfl⟩ := EStateM.Result.ok.inj hret
        exact hl.occurs_of_allUsed (Bool.eq_false_of_not_eq_true hunused) hk
  | error hl hsafe he =>
    refine iff_of_true ⟨?_, ?_, ?_⟩ hsafe
    · rintro ⟨s', hraise⟩
      rw [hrun] at hraise
      exact he (EStateM.Result.error.inj hraise).1
    · intro v s' hret
      simp [Returns, hrun] at hret
    · intro v s' hret
      simp [Returns, hrun] at hret
  | unsafeAddress hoverflow =>
    exact iff_of_false (fun hsound => hsound.noEndIterator ⟨_, hrun⟩) hoverflow

end

def sampleHashing : Hashing Nat Nat where
  ptsAddress k _ _ := k
  address k := k

def noRules : Rules Nat Nat where
  getActive _ := none
  getOwner _ := none
  allowNonImmediateOwner := false
  maxRecursion := 2

def addressOwner : Authority Nat Nat where
  weightThreshold := 1
  accountAuths := []
  keyAuths := []
  addressAuths := [(7, 1)]

/-- A transaction without signatures whose only operation spends that balance: the address of key
    7 is looked up, found in neither table, and read all the same. -/
theorem verifyAuthority_reads_endIterator :
    ¬VerifiesSoundly sampleHashing []
      (fun _ : Unit => { active := [tempAccount], owner := [], other := [addressOwner] })
      noRules [()] false [] [] := by
  intro hsound
  exact hsound.noEndIterator ⟨_, rfl⟩

end Meta1Core.Signing
