import Meta1Core.Signing.Marked
import Meta1Core.Signing.Monotone
import Mathlib.Data.List.Perm.Basic

/-!
# The order of the operations

The authorities that operations require themselves are checked in the order of the operations.  Where
no chain of accounts is longer than the search is deep, neither that order nor what the search has
approved before decides whether `verify_authority` succeeds.
-/

namespace Meta1Core.Signing

open Lib Protocol

section

variable {Key Addr : Type} [LinearOrder Key] [DecidableEq Addr]

structure SameRequired (r r' : Required Key Addr) : Prop where
  other : ∀ au, au ∈ r.other ↔ au ∈ r'.other
  owner : ∀ id, id ∈ r.owner ↔ id ∈ r'.owner
  active : ∀ id, id ∈ r.active ↔ id ∈ r'.active

structure RequiredWithin (required' required : Required Key Addr) : Prop where
  other : required'.other ⊆ required.other
  owner : required'.owner ⊆ required.owner
  active : required'.active ⊆ required.active

omit [LinearOrder Key] [DecidableEq Addr] in
theorem RequiredWithin.refl (required : Required Key Addr) : RequiredWithin required required :=
  ⟨List.Subset.refl _, List.Subset.refl _, List.Subset.refl _⟩

theorem mem_insertSorted {id id' : AccountId} {ids : List AccountId} :
    id' ∈ insertSorted id ids ↔ id' = id ∨ id' ∈ ids := by
  unfold insertSorted
  split
  · rename_i hmem
    exact ⟨.inr, fun hor => hor.elim (fun heq => heq ▸ hmem) (fun hold => hold)⟩
  · exact List.mem_orderedInsert _

theorem mem_foldl_insertSorted {id : AccountId} (new ids : List AccountId) :
    id ∈ new.foldl (fun ids id => insertSorted id ids) ids ↔ id ∈ new ∨ id ∈ ids := by
  induction new generalizing ids with
  | nil => simp
  | cons id' rest ih =>
    rw [List.foldl_cons, ih, mem_insertSorted, List.mem_cons, or_left_comm, or_assoc]

variable {Op : Type} {requires : Op → Required Key Addr}

omit [LinearOrder Key] [DecidableEq Addr] in
variable (requires) in
theorem mem_requiredAuthorities (ops : List Op) :
    (∀ au, au ∈ (requiredAuthorities requires ops).other ↔ ∃ op ∈ ops, au ∈ (requires op).other) ∧
    (∀ id, id ∈ (requiredAuthorities requires ops).owner ↔ ∃ op ∈ ops, id ∈ (requires op).owner) ∧
    ∀ id, id ∈ (requiredAuthorities requires ops).active ↔ ∃ op ∈ ops, id ∈ (requires op).active := by
  have hfold : ∀ required : Required Key Addr, ∀ collected,
      collected = ops.foldl (fun required op => operationGetRequiredAuthorities requires op required)
        required →
      (∀ au, au ∈ collected.other ↔ au ∈ required.other ∨ ∃ op ∈ ops, au ∈ (requires op).other) ∧
      (∀ id, id ∈ collected.owner ↔ id ∈ required.owner ∨ ∃ op ∈ ops, id ∈ (requires op).owner) ∧
      ∀ id, id ∈ collected.active ↔ id ∈ required.active ∨ ∃ op ∈ ops, id ∈ (requires op).active := by
    induction ops with
    | nil =>
      rintro required collected rfl
      simp
    | cons op rest ih =>
      intro required collected hcollected
      rw [List.foldl_cons] at hcollected
      obtain ⟨hother, howner, hactive⟩ := ih _ _ hcollected
      refine ⟨fun au => ?_, fun id => ?_, fun id => ?_⟩
      · rw [hother, List.exists_mem_cons_iff]
        simp only [operationGetRequiredAuthorities, List.mem_append, or_assoc]
      · rw [howner, List.exists_mem_cons_iff]
        simp only [operationGetRequiredAuthorities, mem_foldl_insertSorted]
        rw [or_assoc, or_left_comm]
      · rw [hactive, List.exists_mem_cons_iff]
        simp only [operationGetRequiredAuthorities, mem_foldl_insertSorted]
        rw [or_assoc, or_left_comm]
  obtain ⟨hother, howner, hactive⟩ := hfold _ (requiredAuthorities requires ops) rfl
  simp only [List.not_mem_nil, false_or] at hother howner hactive
  exact ⟨hother, howner, hactive⟩

omit [LinearOrder Key] [DecidableEq Addr] in
theorem sameRequired_of_perm {ops ops' : List Op} (hperm : ops.Perm ops') :
    SameRequired (requiredAuthorities requires ops) (requiredAuthorities requires ops') := by
  obtain ⟨hother, howner, hactive⟩ := mem_requiredAuthorities requires ops
  obtain ⟨hother', howner', hactive'⟩ := mem_requiredAuthorities requires ops'
  constructor
  case other => intro au; rw [hother, hother']; simp only [hperm.mem_iff]
  case owner => intro id; rw [howner, howner']; simp only [hperm.mem_iff]
  case active => intro id; rw [hactive, hactive']; simp only [hperm.mem_iff]

variable (h : Hashing Key Addr) (rules : Rules Key Addr) (sigs : List Key)
  (initial initial' : List AccountId)

/-- What `verify_authority` passes: the assertion about the committee, everything is reached, every
address that is looked up is known, and every signature is used. -/
structure Passes (required : Required Key Addr) (allowCommittee : Bool)
    (ownerApprovals : List AccountId) : Prop where
  committee : allowCommittee = false → committeeAccount ∉ required.active
  reached : AllReached h rules sigs initial required ownerApprovals
  safe : ∀ au, ComesTo h rules sigs initial required ownerApprovals au → AddressSafe h sigs au
  used : ∀ k ∈ sigs, ∃ au, ComesTo h rules sigs initial required ownerApprovals au ∧ k ∈ marked h sigs au

variable {h rules sigs initial initial'}

variable {r r' : Required Key Addr}

theorem ComesTo.of_same {ownerApprovals : List AccountId} {au : Authority Key Addr}
    (hsame : SameRequired r r') (hcomes : ComesTo h rules sigs initial r ownerApprovals au) :
    ComesTo h rules sigs initial r' ownerApprovals au := by
  rcases hcomes with ⟨au1, hau1, hlooks⟩ | ⟨id, hid, hrest⟩ | ⟨id, hid, hrest⟩
  · exact .inl ⟨au1, (hsame.other au1).mp hau1, hlooks⟩
  · exact .inr (.inl ⟨id, (hsame.owner id).mp hid, hrest⟩)
  · exact .inr (.inr ⟨id, (hsame.active id).mp hid, hrest⟩)

omit [LinearOrder Key] [DecidableEq Addr] in
theorem SameRequired.symm (hsame : SameRequired r r') : SameRequired r' r where
  other au := (hsame.other au).symm
  owner id := (hsame.owner id).symm
  active id := (hsame.active id).symm

omit [LinearOrder Key] [DecidableEq Addr] in
theorem EndsInTime.of_same {ownerApprovals : List AccountId} (hsame : SameRequired r r')
    (hends : EndsInTime rules initial r ownerApprovals) :
    EndsInTime rules initial r' ownerApprovals where
  other au hau := hends.other au ((hsame.other au).mpr hau)
  owner id hid := hends.owner id ((hsame.owner id).mpr hid)
  active id hid := hends.active id ((hsame.active id).mpr hid)

theorem Passes.of_same {allowCommittee : Bool} {ownerApprovals : List AccountId}
    (hsame : SameRequired r r')
    (hpasses : Passes h rules sigs initial r allowCommittee ownerApprovals) :
    Passes h rules sigs initial r' allowCommittee ownerApprovals where
  committee hallow hmem := hpasses.committee hallow ((hsame.active _).mpr hmem)
  reached :=
    { other := fun au hau => hpasses.reached.other au ((hsame.other au).mpr hau)
      owner := fun id hid => hpasses.reached.owner id ((hsame.owner id).mpr hid)
      active := fun id hid => hpasses.reached.active id ((hsame.active id).mpr hid) }
  safe au hcomes := hpasses.safe au (hcomes.of_same hsame.symm)
  used k hk := by
    obtain ⟨au, hcomes, hmarked⟩ := hpasses.used k hk
    exact ⟨au, hcomes.of_same hsame, hmarked⟩

variable {ops ops' : List Op} {allowCommittee : Bool} {activeApprovals ownerApprovals : List AccountId}

variable (h rules sigs) in
theorem remembers_initially (depth : Nat) :
    Remembers h rules sigs initial depth { approvedBy := initial } where
  initially _ hid := hid
  right _ hid := approvable_of_mem hid depth
  reached _ hid hnew := absurd hid hnew
  looked _ hid _ hlooks := absurd hid hlooks.1

omit [LinearOrder Key] [DecidableEq Addr] in
theorem throws_missing (required : Required Key Addr) :
    Throws rules initial required ownerApprovals Failure.IsMissing where
  other := trivial
  owner id _ _ := by split <;> trivial
  active id _ _ := by split <;> trivial

variable (h sigs) in
theorem search_raises {E : Failure → Prop} {required : Required Key Addr}
    (hends : EndsInTime rules (approvedInitially activeApprovals ownerApprovals) required ownerApprovals)
    (hthrows : Throws rules (approvedInitially activeApprovals ownerApprovals) required ownerApprovals E)
    (hnot : ¬AllReached h rules sigs (approvedInitially activeApprovals ownerApprovals) required
      ownerApprovals) :
    ∃ e, Raises (search (signState h []) rules required ownerApprovals)
        (verifyAuthorityState sigs activeApprovals ownerApprovals) e ∧
      (E e ∨ ∃ au, ComesTo h rules sigs (approvedInitially activeApprovals ownerApprovals) required
        ownerApprovals au ∧ ¬AddressSafe h sigs au) := by
  obtain ⟨e, t, hideal, he, hcomes⟩ :=
    (search_decides h sigs hends hthrows _ (remembers_initially h rules sigs _)).2 hnot
  have hmatches := (search_follows rules required ownerApprovals).matches' _ _
    (linked_initially h sigs activeApprovals ownerApprovals) (by simp [AllSafe])
  rw [hideal] at hmatches
  unfold Raises
  generalize search (signState h []) rules required ownerApprovals
    (verifyAuthorityState sigs activeApprovals ownerApprovals) = run at hmatches ⊢
  cases hmatches with
  | error hl hsafe hne => exact ⟨e, ⟨_, rfl⟩, .inl he⟩
  | unsafeAddress hunsafe =>
    obtain ⟨au, hau, hau'⟩ : ∃ au ∈ t.examined, ¬AddressSafe h sigs au := by
      unfold AllSafe at hunsafe
      push Not at hunsafe
      exact hunsafe
    exact ⟨_, ⟨_, rfl⟩, .inr ⟨au, (hcomes au hau).resolve_left List.not_mem_nil, hau'⟩⟩

variable (h sigs) in
theorem search_returns {required : Required Key Addr}
    (hends : EndsInTime rules (approvedInitially activeApprovals ownerApprovals) required ownerApprovals)
    (hall : AllReached h rules sigs (approvedInitially activeApprovals ownerApprovals) required
      ownerApprovals) :
    ((∀ au, ComesTo h rules sigs (approvedInitially activeApprovals ownerApprovals) required
        ownerApprovals au → AddressSafe h sigs au) →
      ∃ s', search (signState h []) rules required ownerApprovals
          (verifyAuthorityState sigs activeApprovals ownerApprovals) = .ok ⟨⟩ s' ∧
        ((s'.providedSignatures.any fun entry => !entry.2) = false ↔ ∀ k ∈ sigs, ∃ au,
          ComesTo h rules sigs (approvedInitially activeApprovals ownerApprovals) required
            ownerApprovals au ∧ k ∈ marked h sigs au)) ∧
    (¬(∀ au, ComesTo h rules sigs (approvedInitially activeApprovals ownerApprovals) required
        ownerApprovals au → AddressSafe h sigs au) →
      Raises (search (signState h []) rules required ownerApprovals)
        (verifyAuthorityState sigs activeApprovals ownerApprovals) .endIterator) := by
  obtain ⟨t, hideal, -, hcomes⟩ :=
    (search_decides h sigs hends (throws_missing required) _ (remembers_initially h rules sigs _)).1 hall
  have hcomes : ∀ au, au ∈ t.examined ↔ ComesTo h rules sigs
      (approvedInitially activeApprovals ownerApprovals) required ownerApprovals au := by
    intro au
    rw [hcomes, List.mem_nil_iff, false_or]
  have hlinked := linked_initially h sigs activeApprovals ownerApprovals
  have hmatches := (search_follows rules required ownerApprovals).matches' _ _ hlinked
    (by simp [AllSafe])
  have hexact : Exact h sigs (verifyAuthorityState sigs activeApprovals ownerApprovals) :=
    ⟨⟨hlinked.keys, hlinked.tables⟩, by simp [verifyAuthorityState, SignState.make]⟩
  have hkeeps : ∀ s', Returns (search (signState h []) rules required ownerApprovals)
      (verifyAuthorityState sigs activeApprovals ownerApprovals) ⟨⟩ s' → Exact h sigs s' :=
    fun s' => (signers_keepExact rules).search (fun _ _ => trivial) ownerApprovals _ ⟨⟩ s' hexact
  rw [hideal] at hmatches
  unfold Raises
  unfold Returns at hkeeps
  generalize search (signState h []) rules required ownerApprovals
    (verifyAuthorityState sigs activeApprovals ownerApprovals) = run at hmatches hkeeps ⊢
  cases hmatches with
  | ok hl hsafe =>
    rename_i s'
    constructor
    · intro _
      refine ⟨s', rfl, (hkeeps s' rfl).unused_iff.trans ?_⟩
      simp only [hl.examined, hcomes]
    · exact fun hunsafe => absurd (fun au hau => hsafe au ((hcomes au).mpr hau)) hunsafe
  | unsafeAddress hunsafe =>
    exact ⟨fun hsafe => absurd (fun au hau => hsafe au ((hcomes au).mp hau)) hunsafe, fun _ => ⟨_, rfl⟩⟩

theorem verifyAuthority_returns_iff
    (hends : EndsInTime rules (approvedInitially activeApprovals ownerApprovals)
      (requiredAuthorities requires ops) ownerApprovals) :
    (∃ u s', Returns (verifyAuthority requires h rules ops allowCommittee ownerApprovals)
      (verifyAuthorityState sigs activeApprovals ownerApprovals) u s') ↔
    Passes h rules sigs (approvedInitially activeApprovals ownerApprovals)
      (requiredAuthorities requires ops) allowCommittee ownerApprovals := by
  by_cases hcommittee : allowCommittee = false ∧
      committeeAccount ∈ (requiredAuthorities requires ops).active
  · refine iff_of_false ?_ fun hpasses => hpasses.committee hcommittee.1 hcommittee.2
    rintro ⟨u, s', hret⟩
    unfold verifyAuthority at hret
    simp only [if_pos hcommittee] at hret
    exact Returns.throw_iff.mp hret
  have hrun : verifyAuthority requires h rules ops allowCommittee ownerApprovals
      (verifyAuthorityState sigs activeApprovals ownerApprovals) = _ :=
    verifyAuthority_eq hcommittee _
  unfold Returns
  rw [hrun]
  by_cases hall : AllReached h rules sigs (approvedInitially activeApprovals ownerApprovals)
      (requiredAuthorities requires ops) ownerApprovals
  · obtain ⟨hreturns, hraises⟩ := search_returns h sigs hends hall
    by_cases hsafe : ∀ au, ComesTo h rules sigs (approvedInitially activeApprovals ownerApprovals)
        (requiredAuthorities requires ops) ownerApprovals au → AddressSafe h sigs au
    · obtain ⟨s', hsearch, hused⟩ := hreturns hsafe
      rw [hsearch]
      dsimp only
      cases hunused : (s'.providedSignatures.any fun entry => !entry.2) with
      | true =>
        refine iff_of_false (by simp) fun hpasses => ?_
        have hnone := hused.mpr hpasses.used
        rw [hunused] at hnone
        cases hnone
      | false =>
        refine iff_of_true ⟨⟨⟩, _, rfl⟩ ⟨?_, hall, hsafe, hused.mp hunused⟩
        exact fun hallow hmem => hcommittee ⟨hallow, hmem⟩
    · obtain ⟨s', hsearch⟩ := hraises hsafe
      rw [hsearch]
      exact iff_of_false (by simp) fun hpasses => hsafe hpasses.safe
  · obtain ⟨e, ⟨s', hsearch⟩, -⟩ := search_raises h sigs hends (throws_missing _) hall
    rw [hsearch]
    exact iff_of_false (by simp) fun hpasses => hall hpasses.reached

theorem mem_approvedInitially {id : AccountId} :
    id ∈ approvedInitially activeApprovals ownerApprovals ↔
      id = tempAccount ∨ id ∈ activeApprovals ∨ id ∈ ownerApprovals := by
  have hfold : ∀ (new ids : List AccountId),
      id ∈ new.foldl (fun ids id => ids.insert id) ids ↔ id ∈ ids ∨ id ∈ new := by
    intro new
    induction new with
    | nil => simp
    | cons id' rest ih =>
      intro ids
      rw [List.foldl_cons, ih, List.mem_insert_iff, List.mem_cons, or_assoc, or_left_comm]
  unfold approvedInitially
  rw [hfold, List.mem_singleton, List.mem_append]

def RequiredWeightsFit (rules : Rules Key Addr) (required : Required Key Addr) : Prop :=
  AllWeightsFit rules ∧ ∀ au ∈ required.other, WeightsFit au

variable {activeApprovals' ownerApprovals' : List AccountId} {required required' : Required Key Addr}
  {sigs' : List Key}

theorem approvedInitially_subset (hactive : activeApprovals ⊆ activeApprovals')
    (howner : ownerApprovals ⊆ ownerApprovals') :
    approvedInitially activeApprovals ownerApprovals ⊆
      approvedInitially activeApprovals' ownerApprovals' := by
  intro id hid
  rw [mem_approvedInitially] at hid ⊢
  exact hid.imp_right (Or.imp (fun hmem => hactive hmem) fun hmem => howner hmem)

omit [LinearOrder Key] [DecidableEq Addr] in
theorem EndsInTime.mono (hactive : activeApprovals ⊆ activeApprovals')
    (howner : ownerApprovals ⊆ ownerApprovals')
    (hends : EndsInTime rules (approvedInitially activeApprovals ownerApprovals) required
      ownerApprovals) :
    EndsInTime rules (approvedInitially activeApprovals' ownerApprovals') required ownerApprovals' := by
  have hsub := approvedInitially_subset hactive howner
  have hbelow : ∀ au : Authority Key Addr,
      EndsBelow rules (approvedInitially activeApprovals ownerApprovals) au →
      EndsBelow rules (approvedInitially activeApprovals' ownerApprovals') au :=
    fun au hbelow entry hentry => (hbelow entry hentry).mono hsub
  constructor
  case other => exact fun au hau => hbelow au (hends.other au hau)
  case owner =>
    intro id hid hnew au hau
    exact hbelow au (hends.owner id hid (fun hmem => hnew (howner hmem)) au hau)
  case active =>
    intro id hid hnew au hau
    exact hbelow au (hends.active id hid (fun hmem => hnew (hsub hmem)) au hau)

theorem AllReached.mono (hfits : RequiredWeightsFit rules required) (hsigs : sigs ⊆ sigs')
    (hinitial : initial ⊆ initial') (howner : ownerApprovals ⊆ ownerApprovals')
    (hwithin : RequiredWithin required' required)
    (hall : AllReached h rules sigs initial required ownerApprovals) :
    AllReached h rules sigs' initial' required' ownerApprovals' := by
  have hcounts : ∀ id, accountsCounted h rules sigs initial id = true →
      accountsCounted h rules sigs' initial' id = true :=
    fun id => approvable_mono hfits.1 hsigs hinitial _
  have howned : ∀ id, ownerReached h rules sigs initial id = true →
      ownerReached h rules sigs' initial' id = true :=
    fun id => reachesPointer_mono (fun au hau => hfits.1 id au (.inr hau)) hsigs
      fun _ _ entry _ => hcounts entry.1
  constructor
  case other =>
    intro au hau
    have hmem := hwithin.other hau
    exact reaches_mono (hfits.2 au hmem) hsigs (fun entry _ => hcounts entry.1) (hall.other au hmem)
  case owner =>
    intro id hid
    exact (hall.owner id (hwithin.owner hid)).imp (fun hmem => howner hmem) (howned id)
  case active =>
    intro id hid
    exact (hall.active id (hwithin.active hid)).imp (fun hmem => hinitial hmem)
      (Or.imp (reachesAccount_mono hfits.1 hsigs fun _ _ entry _ => hcounts entry.1) (howned id))

theorem not_missing_of_allReached
    (hends : EndsInTime rules (approvedInitially activeApprovals ownerApprovals)
      (requiredAuthorities requires ops) ownerApprovals)
    (hall : AllReached h rules sigs (approvedInitially activeApprovals ownerApprovals)
      (requiredAuthorities requires ops) ownerApprovals) {e : Failure}
    (hraises : Raises (verifyAuthority requires h rules ops allowCommittee ownerApprovals)
      (verifyAuthorityState sigs activeApprovals ownerApprovals) e) : ¬e.IsMissing := by
  obtain ⟨s1, hraises⟩ := hraises
  by_cases hcommittee : allowCommittee = false ∧
      committeeAccount ∈ (requiredAuthorities requires ops).active
  · unfold verifyAuthority at hraises
    simp only [if_pos hcommittee] at hraises
    obtain ⟨rfl, -⟩ := EStateM.Result.error.inj hraises
    exact id
  rw [verifyAuthority_eq hcommittee] at hraises
  obtain ⟨hreturns, hunsafe⟩ := search_returns h sigs hends hall
  by_cases hsafe : ∀ au, ComesTo h rules sigs (approvedInitially activeApprovals ownerApprovals)
      (requiredAuthorities requires ops) ownerApprovals au → AddressSafe h sigs au
  · obtain ⟨s', hsearch, -⟩ := hreturns hsafe
    rw [hsearch] at hraises
    dsimp only at hraises
    split at hraises
    · obtain ⟨rfl, -⟩ := EStateM.Result.error.inj hraises
      exact id
    · cases hraises
  · obtain ⟨s', hsearch⟩ := hunsafe hsafe
    rw [hsearch] at hraises
    obtain ⟨rfl, -⟩ := EStateM.Result.error.inj hraises
    exact id

/-- Where no chain of accounts is longer than the search is deep, `verify_authority` succeeds for all
orders of the operations or for none.  If weights fit too, more approvals never make it say that an
authority is missing. -/
theorem verifyAuthority_of_perm (hperm : ops.Perm ops')
    (hends : EndsInTime rules (approvedInitially activeApprovals ownerApprovals)
      (requiredAuthorities requires ops) ownerApprovals) :
    ((∃ u s', Returns (verifyAuthority requires h rules ops allowCommittee ownerApprovals)
        (verifyAuthorityState sigs activeApprovals ownerApprovals) u s') ↔
      ∃ u s', Returns (verifyAuthority requires h rules ops' allowCommittee ownerApprovals)
        (verifyAuthorityState sigs activeApprovals ownerApprovals) u s') ∧
    ∀ activeApprovals' ownerApprovals', activeApprovals ⊆ activeApprovals' →
      ownerApprovals ⊆ ownerApprovals' →
      RequiredWeightsFit rules (requiredAuthorities requires ops) →
      (∃ u s', Returns (verifyAuthority requires h rules ops allowCommittee ownerApprovals)
        (verifyAuthorityState sigs activeApprovals ownerApprovals) u s') →
      ∀ e, Raises (verifyAuthority requires h rules ops allowCommittee ownerApprovals')
        (verifyAuthorityState sigs activeApprovals' ownerApprovals') e → ¬e.IsMissing := by
  have hsame : SameRequired (requiredAuthorities requires ops) (requiredAuthorities requires ops') :=
    sameRequired_of_perm hperm
  have hreturns : (∃ u s', Returns (verifyAuthority requires h rules ops allowCommittee ownerApprovals)
      (verifyAuthorityState sigs activeApprovals ownerApprovals) u s') ↔ _ :=
    verifyAuthority_returns_iff hends
  constructor
  · rw [hreturns, verifyAuthority_returns_iff (hends.of_same hsame)]
    exact ⟨Passes.of_same hsame, Passes.of_same hsame.symm⟩
  · intro activeApprovals' ownerApprovals' hactive howner hfits hsucceeds e hraises
    have hpasses := hreturns.mp hsucceeds
    have hall := hpasses.reached.mono hfits (List.Subset.refl sigs)
      (approvedInitially_subset hactive howner) howner (.refl _)
    exact not_missing_of_allReached (hends.mono hactive howner) hall hraises

end

/-! ## Chains that are too long -/

/-- Account 10 is that of account 11, which has key 7; account 12 is that of account 13, which is that
of account 11. -/
def chainRules (maxRecursion : UInt32) : Rules Nat Nat where
  getActive id :=
    if id = 10 then some ⟨1, [(11, 1)], [], []⟩
    else if id = 11 then some ⟨1, [], [(7, 1)], []⟩
    else if id = 12 then some ⟨1, [(13, 1)], [], []⟩
    else if id = 13 then some ⟨1, [(11, 1)], [], []⟩
    else none
  getOwner _ := none
  allowNonImmediateOwner := false
  maxRecursion

def requiresOther (au : Authority Nat Nat) : Required Nat Nat :=
  { active := [tempAccount], owner := [], other := [au] }

def accountAuthority (id : AccountId) : Authority Nat Nat := ⟨1, [(id, 1)], [], []⟩

theorem chainRules_weightsFit (required : Required Nat Nat)
    (hother : ∀ au ∈ required.other, WeightsFit au) : RequiredWeightsFit (chainRules 2) required := by
  refine ⟨fun id au hau => ?_, hother⟩
  have hactive : (chainRules 2).getActive id = some au := hau.resolve_right nofun
  unfold chainRules at hactive
  dsimp only at hactive
  split_ifs at hactive
  all_goals
    cases hactive
    decide

theorem chainRules_ends (initial : List AccountId) {id : AccountId} (hid : id = 10 ∨ id = 11) :
    EndsBelow (chainRules 2) initial (accountAuthority id) := by
  have hleaf : ∀ levels, Ends (chainRules 2) initial (levels + 1) 11 := by
    refine fun levels => .inr fun au hau entry hentry => ?_
    cases hau.resolve_right fun hand => Bool.false_ne_true hand.1
    cases hentry
  intro entry hentry
  rw [List.mem_singleton.mp hentry]
  rcases hid with rfl | rfl
  · refine .inr fun au hau entry hentry => ?_
    cases hau.resolve_right fun hand => Bool.false_ne_true hand.1
    rw [List.mem_singleton.mp hentry]
    exact hleaf 0
  · exact hleaf 1

theorem verifyAuthority_of_perm_two :
    (∃ u s', Returns (verifyAuthority requiresOther sampleHashing (chainRules 2)
        [accountAuthority 11, accountAuthority 10] false [])
      (verifyAuthorityState [7] [] []) u s') ∧
    ∀ e, Raises (verifyAuthority requiresOther sampleHashing (chainRules 2)
        [accountAuthority 10, accountAuthority 11] false [])
      (verifyAuthorityState [7] [10] []) e → ¬e.IsMissing := by
  have hother : ∀ au, au = accountAuthority 10 ∨ au = accountAuthority 11 →
      EndsBelow (chainRules 2) [tempAccount] au ∧ WeightsFit au := by
    rintro au (rfl | rfl)
    · exact ⟨chainRules_ends _ (.inl rfl), by decide⟩
    · exact ⟨chainRules_ends _ (.inr rfl), by decide⟩
  have hmem : ∀ au, au ∈ (requiredAuthorities requiresOther
      [accountAuthority 10, accountAuthority 11]).other →
      au = accountAuthority 10 ∨ au = accountAuthority 11 :=
    fun au hau => (List.mem_cons.mp hau).imp_right List.mem_singleton.mp
  have hends : EndsInTime (chainRules 2) (approvedInitially [] []) (requiredAuthorities requiresOther
      [accountAuthority 10, accountAuthority 11]) [] := by
    constructor
    case other => exact fun au hau => (hother au (hmem au hau)).1
    case owner => exact fun id hid => nomatch hid
    case active => exact fun id hid hnew => absurd hid hnew
  have hsucceeds : ∃ u s', Returns (verifyAuthority requiresOther sampleHashing (chainRules 2)
      [accountAuthority 10, accountAuthority 11] false []) (verifyAuthorityState [7] [] []) u s' :=
    ⟨_, _, rfl⟩
  obtain ⟨horder, hmore⟩ := verifyAuthority_of_perm (List.Perm.swap _ _ []) hends
  exact ⟨horder.mp hsucceeds, hmore [10] [] (List.nil_subset _) (List.nil_subset _)
    (chainRules_weightsFit _ fun au hau => (hother au (hmem au hau)).2) hsucceeds⟩

def wideAuthority (ids : List AccountId) : Authority Nat Nat where
  weightThreshold := 4294967295
  accountAuths := ids.map (fun id => (id, 65535)) ++ [(10, 1), (11, 65535)]
  keyAuths := []
  addressAuths := []

theorem tally_append {α : Type} (signed : α → Bool) (threshold : UInt32) (xs ys : List (α × UInt16))
    (total : UInt32) : tally signed threshold (xs ++ ys) total =
      (tally signed threshold xs total).bind (tally signed threshold ys) := by
  induction xs generalizing total with
  | nil => rfl
  | cons entry rest ih =>
    obtain ⟨a, w⟩ := entry
    rw [List.cons_append, tally, tally]
    split
    · split
      · rfl
      · exact ih _
    · exact ih _

variable {ids : List AccountId}

theorem tally_wide (signed : AccountId → Bool) (hlength : ids.length = 65536)
    (hsigned : ∀ id ∈ ids, signed id = true) :
    tally signed 4294967295 (ids.map fun id => (id, 65535)) 0 = some 4294901760 := by
  have hweight : ∀ ids : List AccountId,
      weight (ids.map fun id => (id, (65535 : UInt16))) = ids.length * 65535 := by
    intro ids
    induction ids with
    | nil => rfl
    | cons id rest ih =>
      rw [List.map_cons, weight_cons, ih, List.length_cons]
      show 65535 + _ = _
      omega
  have hfilter : (ids.map fun id => (id, (65535 : UInt16))).filter (fun entry => signed entry.1) =
      ids.map fun id => (id, 65535) := by
    refine List.filter_eq_self.mpr fun entry hentry => ?_
    obtain ⟨id, hid, rfl⟩ := List.mem_map.mp hentry
    exact hsigned id hid
  have hexact := tally_exact signed 4294967295 0 (ids.map fun id => (id, 65535))
    (by rw [hweight, hlength]; decide)
  rw [hfilter, hweight, hlength] at hexact
  cases htally : tally signed 4294967295 (ids.map fun id => (id, 65535)) 0 with
  | none =>
    rw [htally] at hexact
    exact absurd hexact (by decide)
  | some total =>
    rw [htally] at hexact
    have htotal : total.toNat = (4294901760 : UInt32).toNat := hexact.trans (by decide)
    rw [UInt32.toNat_inj.mp htotal]

theorem weigh_noRules (levels : Nat) (threshold : UInt32) (entries : List (AccountId × UInt16))
    (total : UInt32) (s : SignState Nat Nat) :
    weigh (approves (signState sampleHashing []) noRules levels) threshold entries total s =
      .ok (tally (fun id => decide (id ∈ s.approvedBy)) threshold entries total) s := by
  have happroves : ∀ id, Returns (approves (signState sampleHashing []) noRules levels id) s
      (decide (id ∈ s.approvedBy)) s := by
    intro id
    cases levels with
    | zero => rfl
    | succ levels =>
      refine Returns.bind_iff.mpr ⟨decide (id ∈ s.approvedBy), s, rfl, ?_⟩
      by_cases hid : id ∈ s.approvedBy
      · rw [decide_eq_true hid]
        rfl
      · rw [decide_eq_false hid]
        rfl
  induction entries generalizing total with
  | nil => rfl
  | cons entry rest ih =>
    obtain ⟨id, w⟩ := entry
    rw [weigh, Returns.bind_eq (happroves id), tally]
    split
    · split
      · rfl
      · exact ih _
    · exact ih _

theorem checkAuthority_noRules {au : Authority Nat Nat} (hkeys : au.keyAuths = [])
    (haddresses : au.addressAuths = []) (s : SignState Nat Nat) :
    checkAuthority (signState sampleHashing []) noRules au s =
      .ok (match tally (fun id => decide (id ∈ s.approvedBy)) au.weightThreshold au.accountAuths 0 with
        | none => true
        | some total => decide (au.weightThreshold ≤ total)) { s with examined := au :: s.examined } := by
  have hsignatures : weighSignatures (signState sampleHashing []) au s =
      .ok (some 0) { s with examined := au :: s.examined } := by
    unfold weighSignatures
    rw [hkeys, haddresses]
    rfl
  have hweigh := weigh_noRules noRules.maxRecursion.toNat au.weightThreshold au.accountAuths 0
    { s with examined := au :: s.examined }
  unfold checkAuthority checkWith
  rw [Returns.bind_eq hsignatures]
  dsimp only
  rw [Returns.bind_eq hweigh]
  cases tally (fun id => decide (id ∈ s.approvedBy)) au.weightThreshold au.accountAuths 0 with
  | none => rfl
  | some total => rfl

theorem wideAuthority_reached (hlength : ids.length = 65536) {approvals : List AccountId}
    (hids : ids ⊆ approvals) (hlast : 11 ∈ approvals) :
    (match tally (fun id => decide (id ∈ approvedInitially approvals [])) 4294967295
        (wideAuthority ids).accountAuths 0 with
      | none => true
      | some total => decide ((4294967295 : UInt32) ≤ total)) = !decide (10 ∈ approvals) := by
  have hmem : ∀ id, id ∈ approvedInitially approvals [] ↔ id = tempAccount ∨ id ∈ approvals := by
    intro id
    rw [mem_approvedInitially, or_iff_left (List.not_mem_nil (a := id))]
  have hprefix := tally_wide (fun id => decide (id ∈ approvedInitially approvals [])) hlength
    fun id hid => decide_eq_true ((hmem id).mpr (.inr (hids hid)))
  unfold wideAuthority
  dsimp only
  rw [tally_append, hprefix, Option.bind_some]
  have hlast' : decide (11 ∈ approvedInitially approvals []) = true :=
    decide_eq_true ((hmem 11).mpr (.inr hlast))
  by_cases hmore : (10 : AccountId) ∈ approvals
  · have hmore' : decide (10 ∈ approvedInitially approvals []) = true :=
      decide_eq_true ((hmem 10).mpr (.inr hmore))
    simp only [tally, hmore', hlast', hmore]
    decide
  · have hmore' : decide (10 ∈ approvedInitially approvals []) = false :=
      decide_eq_false fun hid => hmore (((hmem 10).mp hid).resolve_left (by decide))
    simp only [tally, hmore', hlast', hmore]
    decide

theorem search_wide (hlength : ids.length = 65536) (approvals : List AccountId)
    (hids : ids ⊆ approvals) (hlast : 11 ∈ approvals) :
    if 10 ∈ approvals then
      Raises (verifyAuthority requiresOther sampleHashing noRules [wideAuthority ids] false [])
        (verifyAuthorityState [] approvals []) .txMissingOtherAuth
    else ∃ s', Returns (verifyAuthority requiresOther sampleHashing noRules [wideAuthority ids] false [])
      (verifyAuthorityState [] approvals []) ⟨⟩ s' := by
  have hrun : Returns (checkAuthority (signState sampleHashing []) noRules (wideAuthority ids))
      (verifyAuthorityState [] approvals []) (!decide (10 ∈ approvals)) _ :=
    (checkAuthority_noRules rfl rfl _).trans
      (congrArg (EStateM.Result.ok · _) (wideAuthority_reached hlength hids hlast))
  have hcommittee : ¬(false = false ∧ committeeAccount ∈
      (requiredAuthorities requiresOther [wideAuthority ids]).active) := by
    rintro ⟨-, hmem⟩
    exact absurd (List.mem_singleton.mp hmem) (by decide)
  unfold verifyAuthority
  dsimp only
  rw [if_neg hcommittee]
  by_cases hmore : (10 : AccountId) ∈ approvals
  · rw [if_pos hmore]
    rw [decide_eq_true hmore] at hrun
    refine Raises.bind_iff.mpr (.inl (Raises.bind_iff.mpr (.inl (Raises.bind_iff.mpr (.inl ?_)))))
    exact Raises.bind_iff.mpr (.inr ⟨false, _, hrun, ⟨_, rfl⟩⟩)
  · rw [if_neg hmore]
    rw [decide_eq_false hmore] at hrun
    -- the fee payer is the temporary account, which is approved
    have hpayer : tempAccount ∈ approvedInitially approvals [] := mem_approvedInitially.mpr (.inl rfl)
    have hother : Returns (each (checkOther (signState sampleHashing []) noRules) [wideAuthority ids])
        (verifyAuthorityState [] approvals []) ⟨⟩ _ :=
      Returns.bind_iff.mpr ⟨⟨⟩, _, Returns.bind_iff.mpr ⟨true, _, hrun, rfl⟩, rfl⟩
    have hactive : ∀ s : SignState Nat Nat, s.approvedBy = approvedInitially approvals [] →
        Returns (each (checkActive (signState sampleHashing []) noRules) [tempAccount]) s ⟨⟩ s := by
      intro s happroved
      have hasked : (signState sampleHashing []).isApproved tempAccount s = .ok true s := by
        show EStateM.Result.ok (decide (tempAccount ∈ s.approvedBy)) s = _
        rw [happroved, decide_eq_true hpayer]
      exact Returns.bind_iff.mpr ⟨⟨⟩, s, Returns.bind_iff.mpr ⟨true, s,
        Returns.bind_iff.mpr ⟨true, s, hasked, rfl⟩, rfl⟩, rfl⟩
    have hsearch : Returns (search (signState sampleHashing []) noRules
        (requiredAuthorities requiresOther [wideAuthority ids]) [])
        (verifyAuthorityState [] approvals []) ⟨⟩ _ :=
      Returns.bind_iff.mpr ⟨⟨⟩, _, hother, Returns.bind_iff.mpr ⟨⟨⟩, _, rfl, hactive _ rfl⟩⟩
    exact ⟨_, Returns.bind_iff.mpr ⟨⟨⟩, _, hsearch, rfl⟩⟩

/-- The first order of the operations fails, the other one succeeds, as account 11 is approved on the
way.  The approval of account 10 keeps the search from coming to account 11, or makes a sum of weights
wrap around. -/
theorem operation_order_matters :
    (Raises (verifyAuthority requiresOther sampleHashing (chainRules 1)
        [accountAuthority 10, accountAuthority 11] false []) (verifyAuthorityState [7] [] [])
        .txMissingOtherAuth ∧
      ∃ s', Returns (verifyAuthority requiresOther sampleHashing (chainRules 1)
        [accountAuthority 11, accountAuthority 10] false []) (verifyAuthorityState [7] [] []) ⟨⟩ s') ∧
    ((∃ s', Returns (verifyAuthority requiresOther sampleHashing (chainRules 2)
        [accountAuthority 10, accountAuthority 12] false []) (verifyAuthorityState [7] [] []) ⟨⟩ s') ∧
      Raises (verifyAuthority requiresOther sampleHashing (chainRules 2)
        [accountAuthority 10, accountAuthority 12] false []) (verifyAuthorityState [7] [10] [])
        .txMissingOtherAuth) ∧
    ∃ au approvals, (∃ s', Returns (verifyAuthority requiresOther sampleHashing noRules [au] false [])
        (verifyAuthorityState [] approvals []) ⟨⟩ s') ∧
      Raises (verifyAuthority requiresOther sampleHashing noRules [au] false [])
        (verifyAuthorityState [] (10 :: approvals) []) .txMissingOtherAuth := by
  refine ⟨⟨⟨_, rfl⟩, ⟨_, rfl⟩⟩, ⟨⟨_, rfl⟩, ⟨_, rfl⟩⟩, ?_⟩
  obtain ⟨ids, hlength, hnot⟩ : ∃ ids : List AccountId, ids.length = 65536 ∧ (10 : AccountId) ∉ ids := by
    refine ⟨List.range' 100 65536, List.length_range', fun hmem => ?_⟩
    obtain ⟨i, -, hi⟩ := List.mem_range'.mp hmem
    omega
  have hless := search_wide hlength (11 :: ids) (List.subset_cons_self _ _) List.mem_cons_self
  have hmore := search_wide hlength (10 :: 11 :: ids)
    (List.subset_cons_of_subset _ (List.subset_cons_self _ _)) (List.mem_cons_of_mem _ List.mem_cons_self)
  rw [if_neg fun hmem => hnot ((List.mem_cons.mp hmem).resolve_left (by decide))] at hless
  rw [if_pos List.mem_cons_self] at hmore
  exact ⟨wideAuthority ids, 11 :: ids, hless, hmore⟩

end Meta1Core.Signing
