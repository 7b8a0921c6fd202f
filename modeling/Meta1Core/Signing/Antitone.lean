import Meta1Core.Signing.OperationOrder

/-!
# Fewer signatures

With fewer signatures the search gets to the threshold of an authority later, or not at all.
-/

namespace Meta1Core.Signing

open Lib Protocol

section

variable {Key Addr : Type} [LinearOrder Key] [DecidableEq Addr]

variable {threshold total total' : UInt32}

theorem loop_anti {α : Type} {signed signed' : α → Bool} {entries : List (α × UInt16)}
    (hfits : total'.toNat + weight entries < 2 ^ 32) (htotal : total.toNat ≤ total'.toNat)
    (hsigned : ∀ entry ∈ entries, signed entry.1 = true → signed' entry.1 = true) :
    askedFor signed' threshold entries total' ⊆ askedFor signed threshold entries total ∧
      ∀ r', tally signed' threshold entries total' = some r' →
        ∃ r, tally signed threshold entries total = some r ∧ r.toNat ≤ r'.toNat := by
  induction entries generalizing total total' with
  | nil =>
    refine ⟨List.Subset.refl _, fun r' hr' => ⟨total, rfl, ?_⟩⟩
    cases hr'
    exact htotal
  | cons entry rest ih =>
    obtain ⟨a, w⟩ := entry
    rw [weight_cons] at hfits
    have hrest : ∀ entry ∈ rest, signed entry.1 = true → signed' entry.1 = true :=
      fun entry hentry => hsigned entry (List.mem_cons_of_mem _ hentry)
    have hsum : (total + w.toUInt32).toNat = total.toNat + w.toNat := toNat_add_weight (by omega)
    have hsum' : (total' + w.toUInt32).toNat = total'.toNat + w.toNat := toNat_add_weight (by omega)
    unfold askedFor tally
    cases hfirst : signed a with
    | true =>
      rw [hsigned (a, w) List.mem_cons_self hfirst, if_pos rfl, if_pos rfl, if_pos rfl, if_pos rfl]
      by_cases hstop' : threshold ≤ total' + w.toUInt32
      · rw [if_pos hstop', if_pos hstop']
        exact ⟨List.cons_subset_cons a (List.nil_subset _),
            fun r' hr' => absurd hr'.symm (Option.some_ne_none r')⟩
      · have hstop : ¬threshold ≤ total + w.toUInt32 := by
          rw [UInt32.le_iff_toNat_le] at hstop' ⊢
          omega
        have hfits' : (total' + w.toUInt32).toNat + weight rest < 2 ^ 32 := by omega
        have htotal' : (total + w.toUInt32).toNat ≤ (total' + w.toUInt32).toNat := by omega
        obtain ⟨hasked, htally⟩ := ih hfits' htotal' hrest
        rw [if_neg hstop', if_neg hstop', if_neg hstop, if_neg hstop]
        exact ⟨List.cons_subset_cons a hasked, htally⟩
    | false =>
      rw [if_neg Bool.false_ne_true, if_neg Bool.false_ne_true]
      cases hfirst' : signed' a with
      | false =>
        obtain ⟨hasked, htally⟩ := ih (by omega) htotal hrest
        rw [if_neg Bool.false_ne_true, if_neg Bool.false_ne_true]
        exact ⟨List.cons_subset_cons a hasked, htally⟩
      | true =>
        rw [if_pos rfl, if_pos rfl]
        by_cases hstop' : threshold ≤ total' + w.toUInt32
        · rw [if_pos hstop', if_pos hstop']
          exact ⟨List.cons_subset_cons a (List.nil_subset _),
            fun r' hr' => absurd hr'.symm (Option.some_ne_none r')⟩
        · have hfits' : (total' + w.toUInt32).toNat + weight rest < 2 ^ 32 := by omega
          have htotal' : total.toNat ≤ (total' + w.toUInt32).toNat := by omega
          obtain ⟨hasked, htally⟩ := ih hfits' htotal' hrest
          rw [if_neg hstop', if_neg hstop']
          exact ⟨List.cons_subset_cons a hasked, htally⟩

theorem loop_agree {α : Type} {signed signed' : α → Bool} {entries : List (α × UInt16)}
    (heq : ∀ a ∈ askedFor signed threshold entries total, signed a = signed' a) :
    tally signed threshold entries total = tally signed' threshold entries total ∧
      askedFor signed threshold entries total = askedFor signed' threshold entries total := by
  induction entries generalizing total with
  | nil => exact ⟨rfl, rfl⟩
  | cons entry rest ih =>
    obtain ⟨a, w⟩ := entry
    unfold askedFor at heq
    obtain ⟨hfirst, hrest⟩ := List.forall_mem_cons.mp heq
    unfold tally askedFor
    rw [← hfirst]
    cases hsigned : signed a with
    | true =>
      rw [hsigned, if_pos rfl] at hrest
      rw [if_pos rfl, if_pos rfl, if_pos rfl, if_pos rfl]
      by_cases hstop : threshold ≤ total + w.toUInt32
      · simp only [if_pos hstop, and_self]
      · rw [if_neg hstop] at hrest
        obtain ⟨htally, hasked⟩ := ih hrest
        simp only [if_neg hstop, htally, hasked, and_self]
    | false =>
      rw [hsigned, if_neg Bool.false_ne_true] at hrest
      obtain ⟨htally, hasked⟩ := ih hrest
      simp only [Bool.false_eq_true, if_false, htally, hasked, and_self]

theorem askedFor_subset {α : Type} {signed : α → Bool} {entries : List (α × UInt16)} {a : α}
    (ha : a ∈ askedFor signed threshold entries total) :
    ∃ entry ∈ entries, entry.1 = a := by
  induction entries generalizing total with
  | nil => cases ha
  | cons entry rest ih =>
    obtain ⟨b, w⟩ := entry
    have hlater : ∀ total, a ∈ askedFor signed threshold rest total →
        ∃ entry ∈ (b, w) :: rest, entry.1 = a := by
      intro total ha
      obtain ⟨entry, hentry, rfl⟩ := ih ha
      exact ⟨entry, List.mem_cons_of_mem _ hentry, rfl⟩
    unfold askedFor at ha
    rcases List.mem_cons.mp ha with rfl | ha
    · exact ⟨_, List.mem_cons_self, rfl⟩
    · split at ha
      · split at ha
        · cases ha
        · exact hlater _ ha
      · exact hlater _ ha

variable {h : Hashing Key Addr} {rules rules' : Rules Key Addr} {sigs sigs' : List Key}
  {initial : List AccountId} {counts counts' : AccountId → Bool} {au au' : Authority Key Addr}

theorem signatureTally_anti (hfits : WeightsFit au) (hsigs : sigs ⊆ sigs')
    (htally : signatureTally h sigs' au = some total') :
    ∃ total, signatureTally h sigs au = some total ∧ total.toNat ≤ total'.toNat ∧
      total'.toNat + weight au.accountAuths < 2 ^ 32 := by
  unfold WeightsFit at hfits
  obtain ⟨keys', hkeys', haddresses'⟩ := Option.bind_eq_some_iff.mp htally
  have hkeysExact := tally_exact (fun k => decide (k ∈ sigs')) au.weightThreshold 0 au.keyAuths
    (by rw [UInt32.toNat_zero]; omega)
  have hkeyWeight := weight_filter_le (p := fun entry => decide (entry.1 ∈ sigs')) au.keyAuths
  rw [hkeys', UInt32.toNat_zero] at hkeysExact
  dsimp only at hkeysExact
  obtain ⟨keys, hkeys, hkeysLe⟩ : ∃ keys, tally (fun k => decide (k ∈ sigs)) au.weightThreshold
      au.keyAuths 0 = some keys ∧ keys.toNat ≤ keys'.toNat := by
    refine (loop_anti ?_ (Nat.le_refl _) fun entry _ hk => ?_).2 _ hkeys'
    · rw [UInt32.toNat_zero]
      omega
    · exact decide_eq_true (hsigs (of_decide_eq_true hk))
  have haddressesExact := tally_exact (fun a => decide (IsHashOf h sigs' a)) au.weightThreshold keys'
    au.addressAuths (by omega)
  have haddressWeight :=
    weight_filter_le (p := fun entry => decide (IsHashOf h sigs' entry.1)) au.addressAuths
  rw [haddresses'] at haddressesExact
  dsimp only at haddressesExact
  obtain ⟨total, htotal, hle⟩ : ∃ total, tally (fun a => decide (IsHashOf h sigs a)) au.weightThreshold
      au.addressAuths keys = some total ∧ total.toNat ≤ total'.toNat := by
    refine (loop_anti (by omega) hkeysLe fun entry _ ha => ?_).2 _ haddresses'
    obtain ⟨k, hk, haddress⟩ := of_decide_eq_true ha
    exact decide_eq_true ⟨k, hsigs hk, haddress⟩
  refine ⟨total, ?_, hle, by omega⟩
  unfold signatureTally
  rw [hkeys]
  exact htotal

theorem asked_anti (hfits : WeightsFit au) (hsigs : sigs ⊆ sigs')
    (hcounts : ∀ entry ∈ au.accountAuths, counts entry.1 = true → counts' entry.1 = true) :
    asked h sigs' counts' au ⊆ asked h sigs counts au := by
  unfold asked
  cases htally' : signatureTally h sigs' au with
  | none => exact List.nil_subset _
  | some total' =>
    obtain ⟨total, htally, hle, hsum⟩ := signatureTally_anti hfits hsigs htally'
    rw [htally]
    exact (loop_anti hsum hle hcounts).1

theorem asked_subset {id : AccountId} (hid : id ∈ asked h sigs counts au) :
    ∃ entry ∈ au.accountAuths, entry.1 = id := by
  unfold asked at hid
  split at hid
  · cases hid
  · exact askedFor_subset hid

omit [DecidableEq Addr] in
theorem mem_marks {entries : List (Key × UInt16)} {k : Key} :
    k ∈ marks (signatureKey sigs) threshold entries total ↔
      k ∈ askedFor (fun k => decide (k ∈ sigs)) threshold entries total ∧ k ∈ sigs := by
  induction entries generalizing total with
  | nil => simp [marks, askedFor]
  | cons entry rest ih =>
    obtain ⟨k1, w⟩ := entry
    unfold marks askedFor
    by_cases hk1 : k1 ∈ sigs
    · have hkey : signatureKey sigs k1 = some k1 := if_pos hk1
      have hself : k = k1 ↔ k = k1 ∧ k ∈ sigs := ⟨fun heq => ⟨heq, heq ▸ hk1⟩, And.left⟩
      rw [hkey, decide_eq_true hk1, if_pos rfl]
      dsimp only
      split
      · rw [List.mem_singleton]
        exact hself
      · rw [List.mem_cons, List.mem_cons, ih, or_and_right, ← hself]
    · have hkey : signatureKey sigs k1 = none := if_neg hk1
      have hother : ¬(k = k1 ∧ k ∈ sigs) := fun hand => hk1 (hand.1 ▸ hand.2)
      rw [hkey, decide_eq_false hk1, if_neg Bool.false_ne_true, List.mem_cons, or_and_right,
        or_iff_right hother]
      exact ih

theorem mem_marked (haddresses : au.addressAuths = []) {k : Key} :
    k ∈ marked h sigs au ↔
      k ∈ askedFor (fun k => decide (k ∈ sigs)) au.weightThreshold au.keyAuths 0 ∧ k ∈ sigs := by
  unfold marked
  rw [haddresses, ← mem_marks]
  cases tally (fun k => decide (k ∈ sigs)) au.weightThreshold au.keyAuths 0 with
  | none => rw [List.append_nil]
  | some total =>
    dsimp only [marks]
    rw [List.append_nil]

theorem marked_anti (hfits : WeightsFit au) (haddresses : au.addressAuths = []) (hsigs : sigs ⊆ sigs')
    {k : Key} (hk : k ∈ sigs) (hmarked : k ∈ marked h sigs' au) : k ∈ marked h sigs au := by
  rw [mem_marked haddresses] at hmarked ⊢
  unfold WeightsFit at hfits
  refine ⟨(loop_anti ?_ (Nat.le_refl _) fun entry _ hk => ?_).1 hmarked.1, hk⟩
  · rw [UInt32.toNat_zero]
    omega
  · exact decide_eq_true (hsigs (of_decide_eq_true hk))

/-! ## Searches of different depth -/

structure SameAccounts (rules rules' : Rules Key Addr) : Prop where
  getActive : rules'.getActive = rules.getActive
  getOwner : rules'.getOwner = rules.getOwner
  allowNonImmediateOwner : rules'.allowNonImmediateOwner = rules.allowNonImmediateOwner

namespace SameAccounts

variable (hsame : SameAccounts rules rules')
include hsame

variable {id : AccountId}

omit [LinearOrder Key] [DecidableEq Addr] in
theorem represents_iff : Represents rules' au id ↔ Represents rules au id := by
  unfold Represents
  rw [hsame.getActive, hsame.getOwner, hsame.allowNonImmediateOwner]

omit [LinearOrder Key] [DecidableEq Addr] in
theorem ends_iff {levels : Nat} :
    Ends rules' initial levels id ↔ Ends rules initial levels id := by
  induction levels generalizing id with
  | zero => exact Iff.rfl
  | succ levels ih =>
    unfold Ends
    simp only [hsame.represents_iff, ih]

theorem reachesAccount_eq (id : AccountId) :
    reachesAccount h rules' sigs counts id = reachesAccount h rules sigs counts id := by
  unfold reachesAccount
  rw [hsame.getActive, hsame.getOwner, hsame.allowNonImmediateOwner]

theorem approvable_eq (levels : Nat) (id : AccountId) :
    approvable h rules' sigs initial levels id = approvable h rules sigs initial levels id := by
  induction levels generalizing id with
  | zero => rfl
  | succ levels ih =>
    unfold approvable
    rw [hsame.reachesAccount_eq, funext ih]

theorem consults_iff :
    Consults h rules' sigs counts id au ↔ Consults h rules sigs counts id au := by
  unfold Consults
  rw [hsame.getActive, hsame.getOwner, hsame.allowNonImmediateOwner]

theorem looks (hlooks : Looks h rules' sigs initial counts au au') :
    Looks h rules sigs initial counts au au' := by
  induction hlooks with
  | refl => exact .refl _
  | through hasked hnew hconsults _ ih => exact .through hasked hnew (hsame.consults_iff.mp hconsults) ih

theorem looksFrom (hlooks : LooksFrom h rules' sigs initial counts id au) :
    LooksFrom h rules sigs initial counts id au := by
  obtain ⟨hnew, au1, hconsults, hlooks⟩ := hlooks
  exact ⟨hnew, au1, hsame.consults_iff.mp hconsults, hsame.looks hlooks⟩

theorem ownerLooks (hlooks : OwnerLooksBy h rules' sigs initial counts id au) :
    OwnerLooksBy h rules sigs initial counts id au := by
  obtain ⟨au1, hau1, hlooks⟩ := hlooks
  rw [hsame.getOwner] at hau1
  exact ⟨au1, hau1, hsame.looks hlooks⟩

theorem comesTo {required : Required Key Addr} {ownerApprovals : List AccountId}
    (hcomes : ComesToBy h rules' sigs initial counts required ownerApprovals au) :
    ComesToBy h rules sigs initial counts required ownerApprovals au := by
  rcases hcomes with ⟨au1, hau1, hlooks⟩ | ⟨id, hid, hnot, hlooks⟩ | ⟨id, hid, hnew, hlooks⟩
  · exact .inl ⟨au1, hau1, hsame.looks hlooks⟩
  · exact .inr (.inl ⟨id, hid, hnot, hsame.ownerLooks hlooks⟩)
  · rw [hsame.reachesAccount_eq] at hlooks
    exact .inr (.inr ⟨id, hid, hnew,
      hlooks.imp hsame.looksFrom fun hand => ⟨hand.1, hsame.ownerLooks hand.2⟩⟩)

omit [LinearOrder Key] [DecidableEq Addr] in
theorem symm : SameAccounts rules' rules :=
  ⟨hsame.getActive.symm, hsame.getOwner.symm, hsame.allowNonImmediateOwner.symm⟩

end SameAccounts

omit [LinearOrder Key] [DecidableEq Addr] in
theorem Ends.of_le {n m : Nat} (hle : n ≤ m) {id : AccountId} (hends : Ends rules initial n id) :
    Ends rules initial m id := by
  induction n generalizing m id with
  | zero =>
    cases m with
    | zero => exact hends
    | succ m => exact .inl hends
  | succ n ih =>
    obtain ⟨m, rfl⟩ : ∃ m', m = m' + 1 := Nat.exists_eq_add_one_of_ne_zero (by omega)
    refine hends.imp_right fun hchain au hau entry hentry => ?_
    exact ih (Nat.le_of_succ_le_succ hle) (hchain au hau entry hentry)

omit [LinearOrder Key] [DecidableEq Addr] in
theorem Ends.entries {n : Nat} {id : AccountId} (hends : Ends rules initial n id) (hnew : id ∉ initial)
    (hau : Represents rules au id) : ∀ entry ∈ au.accountAuths, Ends rules initial n entry.1 := by
  cases n with
  | zero => exact absurd hends hnew
  | succ n => exact fun entry hentry => (hends.resolve_left hnew au hau entry hentry).of_le (Nat.le_succ n)

/-! ## What comes into view -/

theorem looks_kind {Q : Authority Key Addr → Prop}
    (hrules : ∀ id au, rules.getActive id = some au ∨ rules.getOwner id = some au → Q au)
    (hlooks : Looks h rules sigs initial counts au au') (hau : Q au) : Q au' := by
  induction hlooks with
  | refl => exact hau
  | through _ _ hconsults _ ih => exact ih (hrules _ _ (hconsults.imp_right fun hand => hand.2.2))

section Views

variable {n : Nat} (hsigs : sigs ⊆ sigs') (hfits : AllWeightsFit rules)
  (hcounts : ∀ id, Ends rules initial n id → counts id = true → counts' id = true)
include hsigs hfits hcounts

variable {id : AccountId}

theorem consults_anti
    (hends : ∀ au, rules.getActive id = some au → ∀ entry ∈ au.accountAuths, Ends rules initial n entry.1)
    (hconsults : Consults h rules sigs' counts' id au) : Consults h rules sigs counts id au := by
  refine hconsults.imp_right fun hand => ⟨?_, hand.2⟩
  refine Bool.eq_false_iff.mpr fun hreached => Bool.eq_false_iff.mp hand.1 ?_
  refine reachesPointer_mono (fun au hau => hfits id au (.inl hau)) hsigs
    (fun au hau entry hentry => ?_) hreached
  exact hcounts entry.1 (hends au hau entry hentry)

omit hsigs hfits hcounts in
theorem Consults.represents (hconsults : Consults h rules sigs counts id au) :
    Represents rules au id :=
  hconsults.imp_right fun hand => hand.2

omit [LinearOrder Key] [DecidableEq Addr] hsigs hcounts in
theorem weightsFit_of_represents (hau : Represents rules au id) : WeightsFit au :=
  hfits id au (hau.imp_right And.right)

theorem looks_anti (hlooks : Looks h rules sigs' initial counts' au au') (hau : WeightsFit au)
    (hends : ∀ entry ∈ au.accountAuths, Ends rules initial n entry.1) :
    Looks h rules sigs initial counts au au' := by
  induction hlooks with
  | refl => exact .refl _
  | through hasked hnew hconsults _ ih =>
    obtain ⟨entry, hentry, rfl⟩ := asked_subset hasked
    have hid := hends entry hentry
    have hrep := hconsults.represents
    refine .through (asked_anti hau hsigs (fun e he => hcounts e.1 (hends e he)) hasked) hnew
      (consults_anti hsigs hfits hcounts (fun au hau => hid.entries hnew (.inl hau)) hconsults) ?_
    exact ih (weightsFit_of_represents hfits hrep) (hid.entries hnew hrep)

theorem ownerLooks_anti
    (hends : ∀ au, rules.getOwner id = some au → ∀ entry ∈ au.accountAuths, Ends rules initial n entry.1)
    (hlooks : OwnerLooksBy h rules sigs' initial counts' id au') :
    OwnerLooksBy h rules sigs initial counts id au' := by
  obtain ⟨au, hau, hlooks⟩ := hlooks
  exact ⟨au, hau, looks_anti hsigs hfits hcounts hlooks (hfits id au (.inr hau)) (hends au hau)⟩

theorem activeLooks_anti
    (hends : id ∉ initial → ∀ au, rules.getActive id = some au ∨ rules.getOwner id = some au →
      ∀ entry ∈ au.accountAuths, Ends rules initial n entry.1)
    (hlooks : ActiveLooksBy h rules sigs' initial counts' id au') :
    ActiveLooksBy h rules sigs initial counts id au' := by
  obtain ⟨hnew, hlooks⟩ := hlooks
  have hends := hends hnew
  refine ⟨hnew, ?_⟩
  rcases hlooks with ⟨-, au, hconsults, hlooks⟩ | ⟨hmissed, hlooks⟩
  · have hrep := hconsults.represents
    have hconsults' := consults_anti hsigs hfits hcounts (fun au hau => hends au (.inl hau)) hconsults
    refine .inl ⟨hnew, au, hconsults', ?_⟩
    exact looks_anti hsigs hfits hcounts hlooks (weightsFit_of_represents hfits hrep)
      (hends au (hrep.imp_right And.right))
  · refine .inr ⟨?_, ownerLooks_anti hsigs hfits hcounts (fun au hau => hends au (.inr hau)) hlooks⟩
    refine Bool.eq_false_iff.mpr fun hreached => Bool.eq_false_iff.mp hmissed ?_
    refine reachesAccount_mono hfits hsigs (fun au hau entry hentry => ?_) hreached
    exact hcounts entry.1 (hends au (hau.imp_right And.right) entry hentry)

end Views

variable {required required' : Required Key Addr} {ownerApprovals : List AccountId}

theorem comesToBy_anti (hsigs : sigs ⊆ sigs') (hfits : RequiredWeightsFit rules required)
    (hends : EndsInTime rules initial required ownerApprovals)
    (hcounts : ∀ id, Ends rules initial rules.maxRecursion.toNat id →
      counts id = true → counts' id = true)
    (hwithin : RequiredWithin required' required)
    (hcomes : ComesToBy h rules sigs' initial counts' required' ownerApprovals au) :
    ComesToBy h rules sigs initial counts required ownerApprovals au := by
  rcases hcomes with ⟨au1, hau1, hlooks⟩ | ⟨id, hid, hnot, hlooks⟩ | ⟨id, hid, hlooks⟩
  · have hmem := hwithin.other hau1
    refine .inl ⟨au1, hmem, ?_⟩
    exact looks_anti hsigs hfits.1 hcounts hlooks (hfits.2 au1 hmem) (hends.other au1 hmem)
  · have hmem := hwithin.owner hid
    refine .inr (.inl ⟨id, hmem, hnot, ?_⟩)
    exact ownerLooks_anti hsigs hfits.1 hcounts (hends.owner id hmem hnot) hlooks
  · have hmem := hwithin.active hid
    refine .inr (.inr ⟨id, hmem, ?_⟩)
    exact activeLooks_anti hsigs hfits.1 hcounts (hends.active id hmem) hlooks

theorem ComesToBy.kind {Q : Authority Key Addr → Prop}
    (hrules : ∀ id au, rules.getActive id = some au ∨ rules.getOwner id = some au → Q au)
    (hother : ∀ au ∈ required.other, Q au)
    (hcomes : ComesToBy h rules sigs initial counts required ownerApprovals au) : Q au := by
  rcases hcomes with ⟨au1, hau1, hlooks⟩ | ⟨id, -, -, au1, hau1, hlooks⟩ | ⟨id, -, -, hlooks⟩
  · exact looks_kind hrules hlooks (hother au1 hau1)
  · exact looks_kind hrules hlooks (hrules id au1 (.inr hau1))
  · rcases hlooks with ⟨-, au1, hconsults, hlooks⟩ | ⟨-, au1, hau1, hlooks⟩
    · exact looks_kind hrules hlooks (hrules id au1 (hconsults.imp_right fun hand => hand.2.2))
    · exact looks_kind hrules hlooks (hrules id au1 (.inr hau1))

theorem ComesTo.anti (hsigs : sigs ⊆ sigs') (hfits : RequiredWeightsFit rules required)
    (hends : EndsInTime rules initial required ownerApprovals) (hwithin : RequiredWithin required' required)
    (hcomes : ComesTo h rules sigs' initial required' ownerApprovals au) :
    ComesTo h rules sigs initial required ownerApprovals au :=
  comesToBy_anti hsigs hfits hends
    (fun _ _ => approvable_mono hfits.1 hsigs (List.Subset.refl initial) _) hwithin hcomes

omit [LinearOrder Key] [DecidableEq Addr] in
theorem EndsInTime.within (hwithin : RequiredWithin required' required)
    (hends : EndsInTime rules initial required ownerApprovals) :
    EndsInTime rules initial required' ownerApprovals where
  other au hau := hends.other au (hwithin.other hau)
  owner id hid := hends.owner id (hwithin.owner hid)
  active id hid := hends.active id (hwithin.active hid)

section Deeper

variable (hsame : SameAccounts rules rules') (hle : rules.maxRecursion ≤ rules'.maxRecursion)
include hsame hle

omit [LinearOrder Key] [DecidableEq Addr] in
theorem EndsInTime.deeper (hends : EndsInTime rules initial required ownerApprovals) :
    EndsInTime rules' initial required ownerApprovals := by
  have hbelow : ∀ au : Authority Key Addr, EndsBelow rules initial au → EndsBelow rules' initial au :=
    fun au hbelow entry hentry =>
      hsame.ends_iff.mpr ((hbelow entry hentry).of_le (UInt32.le_iff_toNat_le.mp hle))
  constructor
  case other => exact fun au hau => hbelow au (hends.other au hau)
  case owner =>
    intro id hid hnot au hau
    rw [hsame.getOwner] at hau
    exact hbelow au (hends.owner id hid hnot au hau)
  case active =>
    intro id hid hnew au hau
    rw [hsame.getActive, hsame.getOwner] at hau
    exact hbelow au (hends.active id hid hnew au hau)

theorem counts_deeper {id : AccountId} (hends : Ends rules initial rules.maxRecursion.toNat id) :
    accountsCounted h rules' sigs initial id = accountsCounted h rules sigs initial id :=
  (hsame.approvable_eq _ id).trans (approvable_eq hends (UInt32.le_iff_toNat_le.mp hle) (Nat.le_refl _))

theorem comesTo_deeper_iff (hfits : RequiredWeightsFit rules required)
    (hends : EndsInTime rules initial required ownerApprovals) :
    ComesTo h rules' sigs initial required ownerApprovals au ↔
      ComesTo h rules sigs initial required ownerApprovals au := by
  have hcounts : ∀ id, Ends rules initial rules.maxRecursion.toNat id →
      accountsCounted h rules' sigs initial id = accountsCounted h rules sigs initial id :=
    fun id => counts_deeper hsame hle
  have hsigs := List.Subset.refl sigs
  have hwithin := RequiredWithin.refl required
  constructor
  · intro hcomes
    exact comesToBy_anti hsigs hfits hends (fun id hid hcount => (hcounts id hid).trans hcount) hwithin
      (hsame.comesTo hcomes)
  · intro hcomes
    exact hsame.symm.comesTo (comesToBy_anti hsigs hfits hends
      (fun id hid hcount => (hcounts id hid).symm.trans hcount) hwithin hcomes)

end Deeper

end

end Meta1Core.Signing
