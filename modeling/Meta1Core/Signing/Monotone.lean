import Meta1Core.Signing.Levels

/-!
# More signatures and approvals

Where the weights of an authority fit, it is reached if and only if the plain sum of what is signed
for and approved reaches the threshold, so that more signatures and more approvals never make it
fail.
-/

namespace Meta1Core.Signing

open Protocol

section

variable {Key Addr : Type} [LinearOrder Key] [DecidableEq Addr]

/-- The weights of the authority add up to less than `2 ^ 32`. -/
def WeightsFit (au : Authority Key Addr) : Prop :=
  weight au.keyAuths + weight au.addressAuths + weight au.accountAuths < 2 ^ 32

instance (au : Authority Key Addr) : Decidable (WeightsFit au) := inferInstanceAs (Decidable (_ < _))

def AllWeightsFit (rules : Rules Key Addr) : Prop :=
  ∀ id au, rules.getActive id = some au ∨ rules.getOwner id = some au → WeightsFit au

theorem toNat_add_weight {total : UInt32} {w : UInt16} (hfits : total.toNat + w.toNat < 2 ^ 32) :
    (total + w.toUInt32).toNat = total.toNat + w.toNat := by
  rw [UInt32.toNat_add, UInt16.toNat_toUInt32]
  exact Nat.mod_eq_of_lt hfits

theorem tally_exact {α : Type} (signed : α → Bool) (threshold total : UInt32)
    (entries : List (α × UInt16)) (hfits : total.toNat + weight entries < 2 ^ 32) :
    match tally signed threshold entries total with
    | none => threshold.toNat ≤ total.toNat + weight (entries.filter fun entry => signed entry.1)
    | some total' =>
      total'.toNat = total.toNat + weight (entries.filter fun entry => signed entry.1) := by
  induction entries generalizing total with
  | nil => rfl
  | cons entry rest ih =>
    obtain ⟨a, w⟩ := entry
    rw [weight_cons] at hfits
    have hsum : (total + w.toUInt32).toNat = total.toNat + w.toNat := toNat_add_weight (by omega)
    unfold tally
    cases hsigned : signed a with
    | false =>
      rw [List.filter_cons_of_neg (by simp [hsigned])]
      exact ih _ (by omega)
    | true =>
      rw [List.filter_cons_of_pos (by simp [hsigned]), weight_cons, if_pos rfl]
      by_cases hstop : threshold ≤ total + w.toUInt32
      · rw [if_pos hstop]
        have hle := UInt32.le_iff_toNat_le.mp hstop
        show threshold.toNat ≤ _
        omega
      · rw [if_neg hstop]
        have hrest := ih (total + w.toUInt32) (by omega)
        rw [hsum] at hrest
        cases htally : tally signed threshold rest (total + w.toUInt32) with
        | none =>
          rw [htally] at hrest
          show threshold.toNat ≤ _
          dsimp only at hrest
          omega
        | some total' =>
          rw [htally] at hrest
          show total'.toNat = _
          dsimp only at hrest
          omega

variable {h : Hashing Key Addr} {rules : Rules Key Addr} {sigs sigs' : List Key}
  {initial initial' : List AccountId} {counts counts' : AccountId → Bool} {au : Authority Key Addr}

theorem weight_filter_le {α : Type} {p : α × UInt16 → Bool} (entries : List (α × UInt16)) :
    weight (entries.filter p) ≤ weight entries :=
  weight_le_of_sublist List.filter_sublist

theorem reaches_iff (hfits : WeightsFit au) :
    reaches h sigs counts au = true ↔
      Reaches h sigs au (au.accountAuths.filter fun entry => counts entry.1) := by
  unfold WeightsFit at hfits
  have hkeys := tally_exact (fun k => decide (k ∈ sigs)) au.weightThreshold 0 au.keyAuths
    (by rw [UInt32.toNat_zero]; omega)
  have hkeyWeight := weight_filter_le (p := fun entry => decide (entry.1 ∈ sigs)) au.keyAuths
  have haddressWeight :=
    weight_filter_le (p := fun entry => decide (IsHashOf h sigs entry.1)) au.addressAuths
  unfold reaches signatureTally Reaches
  rw [UInt32.toNat_zero, Nat.zero_add] at hkeys
  cases htally : tally (fun k => decide (k ∈ sigs)) au.weightThreshold au.keyAuths 0 with
  | none =>
    rw [htally] at hkeys
    dsimp only [Option.bind_none] at hkeys ⊢
    exact iff_of_true rfl (by omega)
  | some total =>
    rw [htally] at hkeys
    dsimp only [Option.bind_some] at hkeys ⊢
    have haddresses := tally_exact (fun a => decide (IsHashOf h sigs a)) au.weightThreshold total
      au.addressAuths (by omega)
    cases htally' : tally (fun a => decide (IsHashOf h sigs a)) au.weightThreshold au.addressAuths total with
    | none =>
      rw [htally'] at haddresses
      dsimp only at haddresses ⊢
      exact iff_of_true rfl (by omega)
    | some total' =>
      rw [htally'] at haddresses
      dsimp only at haddresses ⊢
      have haccounts := tally_exact counts au.weightThreshold total' au.accountAuths (by omega)
      cases htally'' : tally counts au.weightThreshold au.accountAuths total' with
      | none =>
        rw [htally''] at haccounts
        dsimp only at haccounts ⊢
        exact iff_of_true rfl (by omega)
      | some total'' =>
        rw [htally''] at haccounts
        dsimp only at haccounts ⊢
        rw [decide_eq_true_iff, UInt32.le_iff_toNat_le]
        omega

theorem weight_filter_mono {α : Type} {p q : α × UInt16 → Bool} {entries : List (α × UInt16)}
    (hpq : ∀ entry ∈ entries, p entry = true → q entry = true) :
    weight (entries.filter p) ≤ weight (entries.filter q) := by
  have hsub : entries.filter p = (entries.filter q).filter p := by
    rw [List.filter_filter]
    refine List.filter_congr fun entry hentry => ?_
    cases hp : p entry with
    | false => rfl
    | true => rw [hpq entry hentry hp]; rfl
  rw [hsub]
  exact weight_filter_le _

theorem reaches_mono (hfits : WeightsFit au) (hsigs : sigs ⊆ sigs')
    (hcounts : ∀ entry ∈ au.accountAuths, counts entry.1 = true → counts' entry.1 = true)
    (hreached : reaches h sigs counts au = true) : reaches h sigs' counts' au = true := by
  rw [reaches_iff hfits] at hreached ⊢
  have hkeys : weight (au.keyAuths.filter fun entry => entry.1 ∈ sigs) ≤
      weight (au.keyAuths.filter fun entry => entry.1 ∈ sigs') := by
    refine weight_filter_mono fun entry _ hmem => ?_
    exact decide_eq_true (hsigs (of_decide_eq_true hmem))
  have haddresses : weight (au.addressAuths.filter fun entry => IsHashOf h sigs entry.1) ≤
      weight (au.addressAuths.filter fun entry => IsHashOf h sigs' entry.1) := by
    refine weight_filter_mono fun entry _ hmem => ?_
    obtain ⟨k, hk, haddress⟩ := of_decide_eq_true hmem
    exact decide_eq_true ⟨k, hsigs hk, haddress⟩
  have haccounts := weight_filter_mono hcounts
  unfold Reaches at hreached ⊢
  omega

theorem reachesPointer_mono {pointer : Option (Authority Key Addr)}
    (hfits : ∀ au, pointer = some au → WeightsFit au) (hsigs : sigs ⊆ sigs')
    (hcounts : ∀ au, pointer = some au → ∀ entry ∈ au.accountAuths,
      counts entry.1 = true → counts' entry.1 = true)
    (hreached : reachesPointer h sigs counts pointer = true) :
    reachesPointer h sigs' counts' pointer = true := by
  cases pointer with
  | none => cases hreached
  | some au => exact reaches_mono (hfits au rfl) hsigs (hcounts au rfl) hreached

theorem reachesAccount_mono (hfits : AllWeightsFit rules) (hsigs : sigs ⊆ sigs') {id : AccountId}
    (hcounts : ∀ au, Represents rules au id → ∀ entry ∈ au.accountAuths,
      counts entry.1 = true → counts' entry.1 = true)
    (hreached : reachesAccount h rules sigs counts id = true) :
    reachesAccount h rules sigs' counts' id = true := by
  unfold reachesAccount at hreached ⊢
  rcases Bool.or_eq_true_iff.mp hreached with hactive | howner
  · rw [reachesPointer_mono (fun au hau => hfits id au (.inl hau)) hsigs
      (fun au hau => hcounts au (.inl hau)) hactive]
    rfl
  · obtain ⟨hallow, howner⟩ := Bool.and_eq_true_iff.mp howner
    rw [hallow, reachesPointer_mono (fun au hau => hfits id au (.inr hau)) hsigs
      (fun au hau => hcounts au (.inr ⟨hallow, hau⟩)) howner]
    simp

theorem approvable_mono (hfits : AllWeightsFit rules) (hsigs : sigs ⊆ sigs')
    (hinitial : initial ⊆ initial') (depth : Nat) {id : AccountId}
    (hcounts : approvable h rules sigs initial depth id = true) :
    approvable h rules sigs' initial' depth id = true := by
  induction depth generalizing id with
  | zero => exact decide_eq_true (hinitial (of_decide_eq_true hcounts))
  | succ depth ih =>
    unfold approvable at hcounts ⊢
    rcases Bool.or_eq_true_iff.mp hcounts with hmem | hreached
    · rw [decide_eq_true (hinitial (of_decide_eq_true hmem))]
      rfl
    · rw [reachesAccount_mono hfits hsigs (fun _ _ _ _ => ih) hreached, Bool.or_true]

omit [LinearOrder Key] [DecidableEq Addr] in
theorem Ends.mono (hinitial : initial ⊆ initial') {levels : Nat} {id : AccountId}
    (hends : Ends rules initial levels id) : Ends rules initial' levels id := by
  induction levels generalizing id with
  | zero => exact hinitial hends
  | succ levels ih =>
    refine hends.imp (fun hid => hinitial hid) ?_
    intro hchain au hau entry hentry
    exact ih (hchain au hau entry hentry)

end

end Meta1Core.Signing
