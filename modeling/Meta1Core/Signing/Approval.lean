import Meta1Core.Signing.SignState

/-!
# When an authority is satisfied

`Satisfied` says it without a search: enough weight is signed or approved, an account being approved
from the start or through an authority of its own that is satisfied.
-/

namespace Meta1Core.Signing

open Lib Protocol

section

variable {Key Addr : Type} [LinearOrder Key] [DecidableEq Addr]

def IsHashOf (h : Hashing Key Addr) (sigs : List Key) (a : Addr) : Prop :=
  ∃ k ∈ sigs, a ∈ h.addresses k

instance (h : Hashing Key Addr) (sigs : List Key) : DecidablePred (IsHashOf h sigs) :=
  fun a => inferInstanceAs (Decidable (∃ k ∈ sigs, a ∈ h.addresses k))

/-- The keys and addresses that are signed for and the given accounts reach the threshold. -/
def Reaches (h : Hashing Key Addr) (sigs : List Key) (au : Authority Key Addr)
    (accounts : List (AccountId × UInt16)) : Prop :=
  au.weightThreshold.toNat ≤
    weight (au.keyAuths.filter fun entry => entry.1 ∈ sigs) +
      weight (au.addressAuths.filter fun entry => IsHashOf h sigs entry.1) + weight accounts

/-- `au` is the active authority of the account or, where it may stand in, the owner authority. -/
def Represents (rules : Rules Key Addr) (au : Authority Key Addr) (id : AccountId) : Prop :=
  rules.getActive id = some au ∨ (rules.allowNonImmediateOwner ∧ rules.getOwner id = some au)

/-- Approved from the start, or through a chain of authorities -/
inductive Approved (h : Hashing Key Addr) (rules : Rules Key Addr) (sigs : List Key)
    (initial : List AccountId) : AccountId → Prop
  | initially {id} (hid : id ∈ initial) : Approved h rules sigs initial id
  | through {id au accounts} (hau : Represents rules au id)
      (hsub : accounts.Sublist au.accountAuths)
      (happ : ∀ entry ∈ accounts, Approved h rules sigs initial entry.1)
      (hreach : Reaches h sigs au accounts) : Approved h rules sigs initial id

/-- The keys and addresses that are signed for and the approved accounts reach the threshold. -/
def Satisfied (h : Hashing Key Addr) (rules : Rules Key Addr) (sigs : List Key)
    (initial : List AccountId) (au : Authority Key Addr) : Prop :=
  ∃ accounts : List (AccountId × UInt16), accounts.Sublist au.accountAuths ∧
    (∀ entry ∈ accounts, Approved h rules sigs initial entry.1) ∧ Reaches h sigs au accounts

structure Trail (Key Addr : Type) where
  approvedBy : List AccountId
  examined : List (Authority Key Addr) := []

/-- Each key is signed if it is among the signatures, each address if it is a hash of one. -/
def ideal (h : Hashing Key Addr) (sigs : List Key) : Signer Key Addr (Trail Key Addr) where
  examine au := modify fun t => { t with examined := au :: t.examined }
  signedByKey k := pure (decide (k ∈ sigs))
  signedByAddress a := pure (decide (IsHashOf h sigs a))
  isApproved id := do pure (decide (id ∈ (← get).approvedBy))
  approve id := modify fun t => { t with approvedBy := t.approvedBy.insert id }

/-- A loop of `check_authority` over entries whose answers are known beforehand -/
def tally {α : Type} (signed : α → Bool) (threshold : UInt32) :
    List (α × UInt16) → UInt32 → Option UInt32
  | [], total => some total
  | (a, w) :: rest, total =>
    if signed a then
      if threshold ≤ total + w.toUInt32 then none
      else tally signed threshold rest (total + w.toUInt32)
    else tally signed threshold rest total

theorem weigh_pure {α σ : Type} (signed : α → Bool) (threshold : UInt32)
    (entries : List (α × UInt16)) (total : UInt32) :
    weigh (fun a => (pure (signed a) : Check σ Bool)) threshold entries total
      = pure (tally signed threshold entries total) := by
  induction entries generalizing total with
  | nil => rfl
  | cons entry rest ih =>
    simp only [weigh, tally, pure_bind]
    split
    · split
      · rfl
      · exact ih _
    · exact ih _

/-- A loop stops at the threshold, or it adds some of its entries and comes to its end; the sum may
wrap around, so it is only bounded. -/
def Weighed {α : Type} (counted : α → Prop) (threshold : UInt32) (entries : List (α × UInt16))
    (total : UInt32) (result : Option UInt32) : Prop :=
  ∃ taken : List (α × UInt16), taken.Sublist entries ∧ (∀ entry ∈ taken, counted entry.1) ∧
    match result with
    | none => threshold.toNat ≤ total.toNat + weight taken
    | some total' => total'.toNat ≤ total.toNat + weight taken

theorem toNat_add_le (total : UInt32) (w : UInt16) :
    (total + w.toUInt32).toNat ≤ total.toNat + w.toNat := by
  rw [UInt32.toNat_add, UInt16.toNat_toUInt32]
  exact Nat.mod_le _ _

@[simp] theorem weight_nil {α : Type} : weight ([] : List (α × UInt16)) = 0 := rfl

@[simp] theorem weight_cons {α : Type} (a : α) (w : UInt16) (rest : List (α × UInt16)) :
    weight ((a, w) :: rest) = w.toNat + weight rest := by
  simp [weight]

theorem weight_le_of_sublist {α : Type} {taken entries : List (α × UInt16)}
    (h : taken.Sublist entries) : weight taken ≤ weight entries := by
  induction h with
  | slnil => exact Nat.le_refl _
  | cons entry _ ih => obtain ⟨a, w⟩ := entry; rw [weight_cons]; omega
  | cons_cons entry _ ih => obtain ⟨a, w⟩ := entry; rw [weight_cons, weight_cons]; omega

namespace Weighed

variable {α : Type} {counted : α → Prop} {threshold total : UInt32} {result : Option UInt32}
  {a : α} {w : UInt16} {rest : List (α × UInt16)}

theorem nil : Weighed counted threshold [] total (some total) :=
  ⟨[], List.Sublist.refl _, by simp, by simp [weight]⟩

theorem stop (ha : counted a) (ht : threshold ≤ total + w.toUInt32) :
    Weighed counted threshold ((a, w) :: rest) total none := by
  refine ⟨[(a, w)], by simp, by simpa using ha, ?_⟩
  have hle := UInt32.le_iff_toNat_le.mp ht
  have hsum := toNat_add_le total w
  show threshold.toNat ≤ total.toNat + weight [(a, w)]
  rw [weight_cons, weight_nil]
  omega

theorem skip (h : Weighed counted threshold rest total result) :
    Weighed counted threshold ((a, w) :: rest) total result := by
  obtain ⟨taken, hsub, hcounted, hw⟩ := h
  exact ⟨taken, hsub.cons _, hcounted, hw⟩

theorem add (ha : counted a)
    (h : Weighed counted threshold rest (total + w.toUInt32) result) :
    Weighed counted threshold ((a, w) :: rest) total result := by
  obtain ⟨taken, hsub, hcounted, hw⟩ := h
  have hsum := toNat_add_le total w
  refine ⟨(a, w) :: taken, hsub.cons_cons _, ?_, ?_⟩
  · intro entry hentry
    rcases List.mem_cons.mp hentry with rfl | hrest
    · exact ha
    · exact hcounted _ hrest
  · cases result with
    | none =>
      show threshold.toNat ≤ total.toNat + weight ((a, w) :: taken)
      rw [weight_cons]
      change threshold.toNat ≤ (total + w.toUInt32).toNat + weight taken at hw
      omega
    | some total' =>
      show total'.toNat ≤ total.toNat + weight ((a, w) :: taken)
      rw [weight_cons]
      change total'.toNat ≤ (total + w.toUInt32).toNat + weight taken at hw
      omega

end Weighed

theorem tally_weighed {α : Type} (signed : α → Bool) (threshold : UInt32)
    (entries : List (α × UInt16)) (total : UInt32) :
    Weighed (fun a => signed a = true) threshold entries total
      (tally signed threshold entries total) := by
  induction entries generalizing total with
  | nil => exact Weighed.nil
  | cons entry rest ih =>
    rw [tally]
    split
    · rename_i hsigned
      split
      · rename_i hstop
        exact Weighed.stop hsigned hstop
      · exact Weighed.add hsigned (ih _)
    · exact Weighed.skip (ih _)

theorem weight_le_filter {α : Type} {p : α → Bool} {taken entries : List (α × UInt16)}
    (hsub : taken.Sublist entries) (hp : ∀ entry ∈ taken, p entry.1 = true) :
    weight taken ≤ weight (entries.filter fun entry => p entry.1) := by
  have hself : taken.filter (fun entry => p entry.1) = taken :=
    List.filter_eq_self.mpr hp
  rw [← hself]
  exact weight_le_of_sublist (hsub.filter _)

variable {h : Hashing Key Addr} {rules : Rules Key Addr} {sigs : List Key}
  {initial : List AccountId}

/-- The weight of the keys and addresses of an authority that are signed for, or `none` once it
    reaches the threshold -/
def signatureTally (h : Hashing Key Addr) (sigs : List Key) (au : Authority Key Addr) :
    Option UInt32 :=
  (tally (fun k => decide (k ∈ sigs)) au.weightThreshold au.keyAuths 0).bind
    (tally (fun a => decide (IsHashOf h sigs a)) au.weightThreshold au.addressAuths)

theorem weighSignatures_ideal (au : Authority Key Addr) (t : Trail Key Addr) :
    weighSignatures (ideal h sigs) au t
      = .ok (signatureTally h sigs au) { t with examined := au :: t.examined } := by
  simp only [weighSignatures, ideal, weigh_pure, pure_bind, signatureTally]
  cases tally (fun k => decide (k ∈ sigs)) au.weightThreshold au.keyAuths 0 <;> rfl

variable {au : Authority Key Addr}

theorem satisfied_of_signatureTally {accounts : List (AccountId × UInt16)}
    (hsub : accounts.Sublist au.accountAuths)
    (happ : ∀ entry ∈ accounts, Approved h rules sigs initial entry.1)
    (hreach : match signatureTally h sigs au with
      | none => accounts = []
      | some total => au.weightThreshold.toNat ≤ total.toNat + weight accounts) :
    Satisfied h rules sigs initial au := by
  refine ⟨accounts, hsub, happ, ?_⟩
  unfold Reaches
  obtain ⟨keys, hkeys, hsigned, hkw⟩ :=
    tally_weighed (fun k => decide (k ∈ sigs)) au.weightThreshold au.keyAuths 0
  have hk := weight_le_filter (p := fun k => decide (k ∈ sigs)) hkeys hsigned
  unfold signatureTally at hreach
  cases htally : tally (fun k => decide (k ∈ sigs)) au.weightThreshold au.keyAuths 0 with
  | none =>
    rw [htally] at hkw
    have hkw' : au.weightThreshold.toNat ≤ 0 + weight keys := hkw
    omega
  | some total =>
    rw [htally] at hkw hreach
    have hkw' : total.toNat ≤ 0 + weight keys := hkw
    obtain ⟨addresses, haddresses, hhash, haw⟩ :=
      tally_weighed (fun a => decide (IsHashOf h sigs a)) au.weightThreshold au.addressAuths total
    have ha := weight_le_filter (p := fun a => decide (IsHashOf h sigs a)) haddresses hhash
    rw [Option.bind_some] at hreach
    cases htally' : tally (fun a => decide (IsHashOf h sigs a)) au.weightThreshold
        au.addressAuths total with
    | none =>
      rw [htally'] at haw
      have haw' : au.weightThreshold.toNat ≤ total.toNat + weight addresses := haw
      omega
    | some total' =>
      rw [htally'] at haw hreach
      have haw' : total'.toNat ≤ total.toNat + weight addresses := haw
      have hreach' : au.weightThreshold.toNat ≤ total'.toNat + weight accounts := hreach
      omega

variable (h rules sigs initial) in
def AllApproved (t : Trail Key Addr) : Prop := ∀ id ∈ t.approvedBy, Approved h rules sigs initial id

variable (h rules sigs initial) in
/-- A check that answers `true` only if `P` holds, and notes only what is approved -/
def Finds (P : Prop) (x : Check (Trail Key Addr) Bool) : Prop :=
  ∀ t b t', AllApproved h rules sigs initial t → Returns x t b t' →
    AllApproved h rules sigs initial t' ∧ (b = true → P)

variable {P : Prop}

theorem finds_false : Finds h rules sigs initial P (pure false) := by
  intro t b t' ht hret
  obtain ⟨rfl, rfl⟩ := hret.of_pure
  exact ⟨ht, by simp⟩

variable {x : Check (Trail Key Addr) Bool} {f : AccountId → Check (Trail Key Addr) Bool}
  {check : Authority Key Addr → Check (Trail Key Addr) Bool}

theorem Finds.mono {Q : Prop} (hx : Finds h rules sigs initial P x) (hPQ : P → Q) :
    Finds h rules sigs initial Q x :=
  fun t b t' ht hret => ⟨(hx t b t' ht hret).1, fun hb => hPQ ((hx t b t' ht hret).2 hb)⟩

theorem Finds.orElse {y : Check (Trail Key Addr) Bool} (hx : Finds h rules sigs initial P x)
    (hy : Finds h rules sigs initial P y) :
    Finds h rules sigs initial P (do if ← x then pure true else y) := by
  intro t b t' ht hret
  obtain ⟨c, t1, hc, hrest⟩ := hret.of_bind
  obtain ⟨ht1, hfound⟩ := hx t c t1 ht hc
  rcases hrest.of_ite with ⟨htrue, hpure⟩ | ⟨-, hother⟩
  · obtain ⟨rfl, rfl⟩ := hpure.of_pure
    exact ⟨ht1, fun _ => hfound htrue⟩
  · exact hy t1 b t' ht1 hother

theorem finds_isApproved (id : AccountId) :
    Finds h rules sigs initial (Approved h rules sigs initial id) ((ideal h sigs).isApproved id) := by
  intro t b t' ht hret
  obtain ⟨t1, t2, hget, hpure⟩ := hret.of_bind
  obtain ⟨rfl, rfl⟩ := Returns.get_iff.mp hget
  obtain ⟨rfl, rfl⟩ := hpure.of_pure
  exact ⟨ht, fun hmem => ht id (of_decide_eq_true hmem)⟩

theorem weigh_finds
    (hf : ∀ id, Finds h rules sigs initial (Approved h rules sigs initial id) (f id))
    {threshold total : UInt32} {entries : List (AccountId × UInt16)} {r : Option UInt32}
    {t t' : Trail Key Addr} (ht : AllApproved h rules sigs initial t)
    (hret : Returns (weigh f threshold entries total) t r t') :
    AllApproved h rules sigs initial t' ∧
      Weighed (Approved h rules sigs initial) threshold entries total r := by
  induction entries generalizing total t with
  | nil =>
    obtain ⟨rfl, rfl⟩ := hret.of_pure
    exact ⟨ht, Weighed.nil⟩
  | cons entry rest ih =>
    obtain ⟨id, w⟩ := entry
    obtain ⟨b, t1, hb, hrest⟩ := hret.of_bind
    obtain ⟨ht1, hfound⟩ := hf id t b t1 ht hb
    rcases hrest.of_ite with ⟨htrue, hcounted⟩ | ⟨-, hskip⟩
    · rcases hcounted.of_ite with ⟨hstop, hpure⟩ | ⟨-, hmore⟩
      · obtain ⟨rfl, rfl⟩ := hpure.of_pure
        exact ⟨ht1, Weighed.stop (hfound htrue) hstop⟩
      · obtain ⟨ht', hweighed⟩ := ih ht1 hmore
        exact ⟨ht', Weighed.add (hfound htrue) hweighed⟩
    · obtain ⟨ht', hweighed⟩ := ih ht1 hskip
      exact ⟨ht', Weighed.skip hweighed⟩

theorem checkWith_finds
    (hf : ∀ id, Finds h rules sigs initial (Approved h rules sigs initial id) (f id))
    (au : Authority Key Addr) :
    Finds h rules sigs initial (Satisfied h rules sigs initial au)
      (checkWith (ideal h sigs) f au) := by
  intro t b t' ht hret
  obtain ⟨r, t1, hsig, hrest⟩ := hret.of_bind
  unfold Returns at hsig
  rw [weighSignatures_ideal, EStateM.Result.ok.injEq] at hsig
  obtain ⟨rfl, rfl⟩ := hsig
  have ht1 : AllApproved h rules sigs initial { t with examined := au :: t.examined } := ht
  cases htally : signatureTally h sigs au with
  | none =>
    rw [htally] at hrest
    obtain ⟨rfl, rfl⟩ := hrest.of_pure
    exact ⟨ht1, fun _ => satisfied_of_signatureTally (List.nil_sublist _) (by simp) (by rw [htally])⟩
  | some total =>
    rw [htally] at hrest
    obtain ⟨r', t2, hweigh, hend⟩ := hrest.of_bind
    obtain ⟨ht2, accounts, hsub, happ, hw⟩ := weigh_finds hf ht1 hweigh
    cases r' with
    | none =>
      obtain ⟨rfl, rfl⟩ := hend.of_pure
      exact ⟨ht2, fun _ => satisfied_of_signatureTally hsub happ (by rw [htally]; exact hw)⟩
    | some total' =>
      obtain ⟨rfl, rfl⟩ := hend.of_pure
      refine ⟨ht2, fun hreached => satisfied_of_signatureTally hsub happ ?_⟩
      have hle := UInt32.le_iff_toNat_le.mp (of_decide_eq_true hreached)
      rw [htally]
      exact Nat.le_trans hle hw

theorem checkPointer_finds {pointer : Option (Authority Key Addr)}
    (hcheck : ∀ au, pointer = some au → Finds h rules sigs initial P (check au)) :
    Finds h rules sigs initial P (checkPointer check pointer) := by
  cases pointer with
  | none => exact finds_false
  | some au => exact hcheck au rfl

theorem approved_of_satisfied {id : AccountId} (hau : Represents rules au id)
    (hsat : Satisfied h rules sigs initial au) : Approved h rules sigs initial id := by
  obtain ⟨accounts, hsub, happ, hreach⟩ := hsat
  exact .through hau hsub happ hreach

theorem checkAccount_finds
    (hcheck : ∀ au, Finds h rules sigs initial (Satisfied h rules sigs initial au) (check au))
    (id : AccountId) :
    Finds h rules sigs initial (Approved h rules sigs initial id)
      (checkAccount rules check id) := by
  refine Finds.orElse ?_ ?_
  · exact checkPointer_finds fun au hau =>
      (hcheck au).mono (approved_of_satisfied (Or.inl hau))
  · split
    · rename_i hallow
      exact checkPointer_finds fun au hau =>
        (hcheck au).mono (approved_of_satisfied (Or.inr ⟨hallow, hau⟩))
    · exact finds_false

theorem approves_finds (levels : Nat) (id : AccountId) :
    Finds h rules sigs initial (Approved h rules sigs initial id)
      (approves (ideal h sigs) rules levels id) := by
  induction levels generalizing id with
  | zero => exact finds_isApproved id
  | succ levels ih =>
    refine Finds.orElse (finds_isApproved id) ?_
    intro t b t' ht hret
    obtain ⟨c, t1, hc, hrest⟩ := hret.of_bind
    obtain ⟨ht1, hfound⟩ := checkAccount_finds (checkWith_finds ih) id t c t1 ht hc
    rcases hrest.of_ite with ⟨htrue, happrove⟩ | ⟨-, hpure⟩
    · obtain ⟨u, t2, hmod, hpure⟩ := happrove.of_bind
      have hnoted := Returns.modify_iff.mp hmod
      obtain ⟨rfl, rfl⟩ := hpure.of_pure
      refine ⟨?_, fun _ => hfound htrue⟩
      intro id' hid'
      rw [hnoted] at hid'
      rcases List.mem_insert_iff.mp hid' with rfl | hold
      · exact hfound htrue
      · exact ht1 id' hold
    · obtain ⟨rfl, rfl⟩ := hpure.of_pure
      exact ⟨ht1, by simp⟩

theorem checkAuthority_finds (au : Authority Key Addr) :
    Finds h rules sigs initial (Satisfied h rules sigs initial au)
      (checkAuthority (ideal h sigs) rules au) :=
  checkWith_finds (approves_finds _) au

variable (h rules sigs initial) in
/-- A statement of `verify_authority` that returns only if `P` holds -/
def Asserts (P : Prop) (x : Check (Trail Key Addr) PUnit) : Prop :=
  ∀ t u t', AllApproved h rules sigs initial t → Returns x t u t' →
    AllApproved h rules sigs initial t' ∧ P

theorem Finds.asserts {e : Failure} (hx : Finds h rules sigs initial P x) :
    Asserts h rules sigs initial P (do if ← x then pure ⟨⟩ else throw e) := by
  intro t u t' ht hret
  obtain ⟨b, t1, hb, hrest⟩ := hret.of_bind
  obtain ⟨ht1, hfound⟩ := hx t b t1 ht hb
  rcases hrest.of_ite with ⟨htrue, hpure⟩ | ⟨-, hthrow⟩
  · obtain ⟨-, rfl⟩ := hpure.of_pure
    exact ⟨ht1, hfound htrue⟩
  · exact (Returns.throw_iff.mp hthrow).elim

variable (h rules sigs initial) in
def OwnerSatisfied (id : AccountId) : Prop :=
  ∃ au, rules.getOwner id = some au ∧ Satisfied h rules sigs initial au

theorem checkPointer_owner_finds (id : AccountId) :
    Finds h rules sigs initial (OwnerSatisfied h rules sigs initial id)
      (checkPointer (checkAuthority (ideal h sigs) rules) (rules.getOwner id)) :=
  checkPointer_finds fun au hau => (checkAuthority_finds au).mono fun hsat => ⟨au, hau, hsat⟩

theorem checkOwner_asserts (ownerApprovals : List AccountId) (id : AccountId) :
    Asserts h rules sigs initial (id ∈ ownerApprovals ∨ OwnerSatisfied h rules sigs initial id)
      (checkOwner (ideal h sigs) rules ownerApprovals id) := by
  intro t u t' ht hret
  rcases hret.of_ite with ⟨hmem, hpure⟩ | ⟨-, hcheck⟩
  · obtain ⟨-, rfl⟩ := hpure.of_pure
    exact ⟨ht, Or.inl hmem⟩
  · obtain ⟨ht', howner⟩ := (checkPointer_owner_finds id).asserts t u t' ht hcheck
    exact ⟨ht', Or.inr howner⟩

theorem checkActive_asserts (id : AccountId) :
    Asserts h rules sigs initial
      (Approved h rules sigs initial id ∨ OwnerSatisfied h rules sigs initial id)
      (checkActive (ideal h sigs) rules id) := by
  intro t u t' ht hret
  obtain ⟨b, t1, hb, hrest⟩ := hret.of_bind
  have hfinds : Finds h rules sigs initial (Approved h rules sigs initial id)
      (checkAuthorityOf (ideal h sigs) rules id) :=
    Finds.orElse (finds_isApproved id) (checkAccount_finds checkAuthority_finds id)
  obtain ⟨ht1, hfound⟩ := hfinds t b t1 ht hb
  rcases hrest.of_ite with ⟨htrue, hpure⟩ | ⟨-, hcheck⟩
  · obtain ⟨-, rfl⟩ := hpure.of_pure
    exact ⟨ht1, Or.inl (hfound htrue)⟩
  · obtain ⟨ht', howner⟩ := (checkPointer_owner_finds id).asserts t1 u t' ht1 hcheck
    exact ⟨ht', Or.inr howner⟩

theorem each_asserts {α : Type} {P : α → Prop} {body : α → Check (Trail Key Addr) PUnit}
    (hbody : ∀ a, Asserts h rules sigs initial (P a) (body a)) (items : List α) :
    Asserts h rules sigs initial (∀ a ∈ items, P a) (each body items) := by
  induction items with
  | nil =>
    intro t u t' ht hret
    obtain ⟨-, rfl⟩ := hret.of_pure
    exact ⟨ht, by simp⟩
  | cons a rest ih =>
    intro t u t' ht hret
    obtain ⟨v, t1, hfirst, hrest⟩ := hret.of_bind
    obtain ⟨ht1, hP⟩ := hbody a t v t1 ht hfirst
    obtain ⟨ht', hrestP⟩ := ih t1 u t' ht1 hrest
    exact ⟨ht', List.forall_mem_cons.mpr ⟨hP, hrestP⟩⟩

variable (h rules sigs initial) in
structure AllSatisfied (required : Required Key Addr) (ownerApprovals : List AccountId) :
    Prop where
  other : ∀ au ∈ required.other, Satisfied h rules sigs initial au
  owner : ∀ id ∈ required.owner, id ∈ ownerApprovals ∨ OwnerSatisfied h rules sigs initial id
  active : ∀ id ∈ required.active,
    Approved h rules sigs initial id ∨ OwnerSatisfied h rules sigs initial id

theorem search_asserts (required : Required Key Addr) (ownerApprovals : List AccountId) :
    Asserts h rules sigs initial (AllSatisfied h rules sigs initial required ownerApprovals)
      (search (ideal h sigs) rules required ownerApprovals) := by
  intro t u t' ht hret
  obtain ⟨v, t1, hother, hrest⟩ := hret.of_bind
  obtain ⟨ht1, hP⟩ :=
    each_asserts (fun au => (checkAuthority_finds au).asserts) _ t v t1 ht hother
  obtain ⟨v', t2, howner, hactive⟩ := hrest.of_bind
  obtain ⟨ht2, hQ⟩ := each_asserts (checkOwner_asserts ownerApprovals) _ t1 v' t2 ht1 howner
  obtain ⟨ht', hR⟩ := each_asserts checkActive_asserts _ t2 u t' ht2 hactive
  exact ⟨ht', ⟨hP, hQ, hR⟩⟩

end

end Meta1Core.Signing
