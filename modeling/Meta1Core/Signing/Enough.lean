import Meta1Core.Signing.Antitone

/-!
# The keys that are marked are enough

A key that no authority in view has marked is one that was not asked for.  Without it everything is
reached that was reached with it.
-/

namespace Meta1Core.Signing

open Lib Protocol

section

variable {Key Addr : Type} [LinearOrder Key] [DecidableEq Addr]

variable {h : Hashing Key Addr} {rules : Rules Key Addr} {keys keys' : List Key}
  {initial : List AccountId} {au : Authority Key Addr}

variable (h keys keys') in
structure Covered (au : Authority Key Addr) : Prop where
  addresses : au.addressAuths = []
  marked : ∀ k ∈ marked h keys au, k ∈ keys'

section Covered

variable (hsub : keys' ⊆ keys)
include hsub

theorem Covered.signatureTally_eq (hcovered : Covered h keys keys' au) :
    signatureTally h keys au = signatureTally h keys' au := by
  have hkeys : tally (fun k => decide (k ∈ keys)) au.weightThreshold au.keyAuths 0 =
      tally (fun k => decide (k ∈ keys')) au.weightThreshold au.keyAuths 0 := by
    refine (loop_agree fun k hk => ?_).1
    rw [decide_eq_decide]
    constructor
    · intro hmem
      exact hcovered.marked k ((mem_marked hcovered.addresses).mpr ⟨hk, hmem⟩)
    · exact fun hmem => hsub hmem
  unfold signatureTally
  rw [hcovered.addresses, hkeys]
  rfl

variable {counts counts' : AccountId → Bool}

theorem Covered.reaches_eq (hcovered : Covered h keys keys' au)
    (hcounts : ∀ id ∈ asked h keys counts au, counts id = counts' id) :
    reaches h keys counts au = reaches h keys' counts' au := by
  unfold asked at hcounts
  unfold reaches
  rw [← hcovered.signatureTally_eq hsub]
  cases htally : signatureTally h keys au with
  | none => rfl
  | some total =>
    rw [htally] at hcounts
    dsimp only
    rw [(loop_agree hcounts).1]

variable {id : AccountId}

theorem reachesAccount_covered
    (hcovered : ∀ au, Consults h rules keys counts id au → Covered h keys keys' au)
    (hcounts : ∀ au, Consults h rules keys counts id au →
      ∀ id' ∈ asked h keys counts au, counts id' = counts' id') :
    reachesAccount h rules keys counts id = reachesAccount h rules keys' counts' id := by
  have hpointer : ∀ pointer, (∀ au, pointer = some au → Consults h rules keys counts id au) →
      reachesPointer h keys counts pointer = reachesPointer h keys' counts' pointer := by
    intro pointer hconsults
    cases pointer with
    | none => rfl
    | some au => exact (hcovered au (hconsults au rfl)).reaches_eq hsub (hcounts au (hconsults au rfl))
  have hactive := hpointer (rules.getActive id) fun au hau => .inl hau
  unfold reachesAccount
  rw [← hactive]
  cases hreached : reachesPointer h keys counts (rules.getActive id) with
  | true => rfl
  | false =>
    cases hallow : rules.allowNonImmediateOwner with
    | false => rfl
    | true => rw [hpointer (rules.getOwner id) fun au hau => .inr ⟨hreached, hallow, hau⟩]

theorem approvable_covered {levels depth : Nat} (hends : Ends rules initial levels id)
    (hle : levels ≤ depth)
    (hcovered : ∀ au, LooksFrom h rules keys initial (approvable h rules keys initial depth) id au →
      Covered h keys keys' au) :
    approvable h rules keys initial depth id = approvable h rules keys' initial depth id := by
  induction levels generalizing id with
  | zero => rw [approvable_of_mem hends, approvable_of_mem hends]
  | succ levels ih =>
    rw [approvable_iff hends hle, approvable_iff hends hle]
    by_cases hnew : id ∈ initial
    · rw [decide_eq_true hnew, Bool.true_or, Bool.true_or]
    · have hchain := hends.resolve_left hnew
      rw [reachesAccount_covered hsub (fun au hconsults => hcovered au ⟨hnew, au, hconsults, .refl au⟩)]
      intro au hconsults id' hid'
      obtain ⟨entry, hentry, rfl⟩ := asked_subset hid'
      refine ih (hchain au hconsults.represents entry hentry) (Nat.le_of_succ_le hle) fun au' hlooks => ?_
      exact hcovered au' ⟨hnew, au, hconsults, looks_iff.mpr (.inr ⟨entry.1, hid', hlooks⟩)⟩

theorem reaches_covered (hends : EndsBelow rules initial au)
    (hcovered : ∀ au', Looks h rules keys initial (accountsCounted h rules keys initial) au au' →
      Covered h keys keys' au') :
    reaches h keys (accountsCounted h rules keys initial) au =
      reaches h keys' (accountsCounted h rules keys' initial) au := by
  refine (hcovered au (.refl au)).reaches_eq hsub fun id hid => ?_
  obtain ⟨entry, hentry, rfl⟩ := asked_subset hid
  exact approvable_covered hsub (hends entry hentry) (Nat.le_refl _) fun au' hlooks =>
    hcovered au' (looks_iff.mpr (.inr ⟨entry.1, hid, hlooks⟩))

theorem ownerReached_covered
    (hends : ∀ au, rules.getOwner id = some au → EndsBelow rules initial au)
    (hcovered : ∀ au, OwnerLooks h rules keys initial id au → Covered h keys keys' au) :
    ownerReached h rules keys initial id = ownerReached h rules keys' initial id := by
  unfold ownerReached ownerReachedBy
  cases howner : rules.getOwner id with
  | none => rfl
  | some au =>
    exact reaches_covered hsub (hends au howner) fun au' hlooks => hcovered au' ⟨au, howner, hlooks⟩

theorem allReached_covered {required : Required Key Addr} (hends : EndsInTime rules initial required [])
    (hcovered : ∀ au, ComesTo h rules keys initial required [] au → Covered h keys keys' au)
    (hall : AllReached h rules keys initial required []) :
    AllReached h rules keys' initial required [] := by
  constructor
  case other =>
    intro au hau
    have hreaches := reaches_covered hsub (hends.other au hau) fun au' hlooks =>
      hcovered au' (.inl ⟨au, hau, hlooks⟩)
    exact hreaches.symm.trans (hall.other au hau)
  case owner =>
    intro id hid
    have howner := ownerReached_covered hsub (hends.owner id hid List.not_mem_nil) fun au hlooks =>
      hcovered au (.inr (.inl ⟨id, hid, List.not_mem_nil, hlooks⟩))
    exact (hall.owner id hid).imp_right fun hreached => howner.symm.trans hreached
  case active =>
    intro id hid
    by_cases hnew : id ∈ initial
    · exact .inl hnew
    have hview : ∀ au, ActiveLooks h rules keys initial id au → Covered h keys keys' au :=
      fun au hlooks => hcovered au (.inr (.inr ⟨id, hid, hlooks⟩))
    have hactive : reachesAccount h rules keys (accountsCounted h rules keys initial) id =
        reachesAccount h rules keys' (accountsCounted h rules keys' initial) id := by
      refine reachesAccount_covered hsub
        (fun au hconsults => hview au ⟨hnew, .inl ⟨hnew, au, hconsults, .refl au⟩⟩) ?_
      intro au hconsults id' hid'
      obtain ⟨entry, hentry, rfl⟩ := asked_subset hid'
      have hbelow := hends.active id hid hnew au (hconsults.represents.imp_right And.right)
      refine approvable_covered hsub (hbelow entry hentry) (Nat.le_refl _) fun au' hlooks => ?_
      exact hview au' ⟨hnew, .inl ⟨hnew, au, hconsults, looks_iff.mpr (.inr ⟨entry.1, hid', hlooks⟩)⟩⟩
    refine .inr ?_
    cases hreached : reachesAccount h rules keys (accountsCounted h rules keys initial) id with
    | true => exact .inl (hactive.symm.trans hreached)
    | false =>
      have howner := ownerReached_covered hsub (fun au hau => hends.active id hid hnew au (.inr hau))
        fun au hlooks => hview au ⟨hnew, .inr ⟨hreached, hlooks⟩⟩
      have hreached' := ((hall.active id hid).resolve_left hnew).resolve_left (Bool.eq_false_iff.mp hreached)
      exact .inr (howner.symm.trans hreached')

end Covered

end

end Meta1Core.Signing
