import Meta1Core.Signing.Levels

/-!
# What the search remembers makes no difference

A search with ideal answers skips the accounts that it has approved before.  Where the chains of
accounts end in time, its result and the authorities that it comes to are those of the evaluation
without memory.
-/

namespace Meta1Core.Signing

open Lib Protocol

section

variable {Key Addr : Type} [LinearOrder Key] [DecidableEq Addr]

variable (h : Hashing Key Addr) (rules : Rules Key Addr) (sigs : List Key) (initial : List AccountId)
  (depth : Nat)

/-! ## What is remembered is right -/

abbrev counts : AccountId → Bool := approvable h rules sigs initial depth

structure Remembers (t : Trail Key Addr) : Prop where
  initially : ∀ id ∈ initial, id ∈ t.approvedBy
  right : ∀ id ∈ t.approvedBy, counts h rules sigs initial depth id = true
  reached : ∀ id ∈ t.approvedBy, id ∉ initial →
    reachesAccount h rules sigs (counts h rules sigs initial depth) id = true
  looked : ∀ id ∈ t.approvedBy, ∀ au,
    LooksFrom h rules sigs initial (counts h rules sigs initial depth) id au → au ∈ t.examined

def Answers {α : Type} (x : Check (Trail Key Addr) α) (a : α) (comes : Authority Key Addr → Prop) :
    Prop :=
  ∀ t, Remembers h rules sigs initial depth t → ∃ t', x t = .ok a t' ∧
    Remembers h rules sigs initial depth t' ∧ ∀ au, au ∈ t'.examined ↔ au ∈ t.examined ∨ comes au

variable {h rules sigs initial depth}

theorem Remembers.examine {t : Trail Key Addr} (hr : Remembers h rules sigs initial depth t)
    (au : Authority Key Addr) :
    Remembers h rules sigs initial depth { t with examined := au :: t.examined } where
  initially := hr.initially
  right := hr.right
  reached := hr.reached
  looked id hid au' hau' := List.mem_cons_of_mem _ (hr.looked id hid au' hau')

namespace Answers

variable {α β : Type} {x : Check (Trail Key Addr) α} {f : α → Check (Trail Key Addr) β} {a : α} {b : β}
  {comes comes' : Authority Key Addr → Prop}

theorem pure (a : α) : Answers h rules sigs initial depth (pure a) a fun _ => False :=
  fun t hr => ⟨t, rfl, hr, fun _ => (iff_of_eq (or_false _)).symm⟩

theorem bind (hx : Answers h rules sigs initial depth x a comes)
    (hf : Answers h rules sigs initial depth (f a) b comes') :
    Answers h rules sigs initial depth (x >>= f) b fun au => comes au ∨ comes' au := by
  intro t hr
  obtain ⟨t1, hx, hr1, hcomes⟩ := hx t hr
  obtain ⟨t2, hf, hr2, hcomes'⟩ := hf t1 hr1
  refine ⟨t2, (Returns.bind_eq hx f).trans hf, hr2, fun au => ?_⟩
  rw [hcomes', hcomes, or_assoc]

theorem yes {x : Check (Trail Key Addr) Bool} {y z : Check (Trail Key Addr) α}
    (hx : Answers h rules sigs initial depth x true comes)
    (hy : Answers h rules sigs initial depth y a comes') :
    Answers h rules sigs initial depth (do if ← x then y else z) a fun au => comes au ∨ comes' au :=
  hx.bind hy

theorem no {x : Check (Trail Key Addr) Bool} {y z : Check (Trail Key Addr) α}
    (hx : Answers h rules sigs initial depth x false comes)
    (hz : Answers h rules sigs initial depth z a comes') :
    Answers h rules sigs initial depth (do if ← x then y else z) a fun au => comes au ∨ comes' au :=
  hx.bind hz

theorem of_iff (hx : Answers h rules sigs initial depth x a comes) (hiff : ∀ au, comes au ↔ comes' au) :
    Answers h rules sigs initial depth x a comes' := by
  rw [← funext fun au => propext (hiff au)]
  exact hx

end Answers

theorem weigh_answers {f : AccountId → Check (Trail Key Addr) Bool}
    {comes : AccountId → Authority Key Addr → Prop} (threshold : UInt32)
    {entries : List (AccountId × UInt16)} (total : UInt32)
    (hf : ∀ entry ∈ entries, Answers h rules sigs initial depth (f entry.1)
      (counts h rules sigs initial depth entry.1) (comes entry.1)) :
    Answers h rules sigs initial depth (weigh f threshold entries total)
      (tally (counts h rules sigs initial depth) threshold entries total)
      fun au => ∃ id ∈ askedFor (counts h rules sigs initial depth) threshold entries total,
        comes id au := by
  induction entries generalizing total with
  | nil => exact (Answers.pure _).of_iff fun au => by simp [askedFor]
  | cons entry rest ih =>
    obtain ⟨id, w⟩ := entry
    have hfirst := hf (id, w) List.mem_cons_self
    have hrest := fun total => ih total fun entry hentry => hf entry (List.mem_cons_of_mem _ hentry)
    unfold weigh tally askedFor
    cases hcounts : counts h rules sigs initial depth id with
    | false =>
      rw [hcounts] at hfirst
      exact (hfirst.no (hrest total)).of_iff fun au => by simp
    | true =>
      rw [hcounts] at hfirst
      rw [if_pos rfl, if_pos rfl]
      by_cases hstop : threshold ≤ total + w.toUInt32
      · simp only [if_pos hstop]
        exact (hfirst.yes (.pure none)).of_iff fun au => by simp
      · simp only [if_neg hstop]
        exact (hfirst.yes (hrest _)).of_iff fun au => by simp

theorem checkWith_answers {f : AccountId → Check (Trail Key Addr) Bool} (au : Authority Key Addr)
    (hf : ∀ entry ∈ au.accountAuths, Answers h rules sigs initial depth (f entry.1)
      (counts h rules sigs initial depth entry.1)
      (LooksFrom h rules sigs initial (counts h rules sigs initial depth) entry.1)) :
    Answers h rules sigs initial depth (checkWith (ideal h sigs) f au)
      (reaches h sigs (counts h rules sigs initial depth) au)
      (Looks h rules sigs initial (counts h rules sigs initial depth) au) := by
  have hsignatures : Answers h rules sigs initial depth (weighSignatures (ideal h sigs) au)
      (signatureTally h sigs au) (fun au' => au' = au) := by
    intro t hr
    refine ⟨_, weighSignatures_ideal au t, hr.examine au, fun au' => ?_⟩
    rw [List.mem_cons, or_comm]
  unfold checkWith reaches
  cases htally : signatureTally h sigs au with
  | none =>
    rw [htally] at hsignatures
    refine (hsignatures.bind (Answers.pure true)).of_iff fun au' => ?_
    rw [looks_iff, asked, htally]
    simp
  | some total =>
    rw [htally] at hsignatures
    have hweigh := weigh_answers au.weightThreshold total hf
    have hlooks : ∀ au', (au' = au ∨ ∃ id ∈ askedFor (counts h rules sigs initial depth)
        au.weightThreshold au.accountAuths total,
        LooksFrom h rules sigs initial (counts h rules sigs initial depth) id au') ↔
        Looks h rules sigs initial (counts h rules sigs initial depth) au au' := by
      intro au'
      rw [looks_iff, asked, htally]
    dsimp only
    cases htally' : tally (counts h rules sigs initial depth) au.weightThreshold au.accountAuths
        total with
    | none =>
      rw [htally'] at hweigh
      refine (hsignatures.bind (hweigh.bind (Answers.pure true))).of_iff fun au' => ?_
      rw [← hlooks, or_false]
    | some total' =>
      rw [htally'] at hweigh
      refine (hsignatures.bind (hweigh.bind
        (Answers.pure (decide (au.weightThreshold ≤ total'))))).of_iff fun au' => ?_
      rw [← hlooks, or_false]

theorem checkPointer_answers {f : Authority Key Addr → Check (Trail Key Addr) Bool}
    (pointer : Option (Authority Key Addr))
    (hf : ∀ au, pointer = some au → Answers h rules sigs initial depth (f au)
      (reaches h sigs (counts h rules sigs initial depth) au)
      (Looks h rules sigs initial (counts h rules sigs initial depth) au)) :
    Answers h rules sigs initial depth (checkPointer f pointer)
      (reachesPointer h sigs (counts h rules sigs initial depth) pointer)
      fun au => ∃ au1, pointer = some au1 ∧
        Looks h rules sigs initial (counts h rules sigs initial depth) au1 au := by
  cases pointer with
  | none => exact (Answers.pure false).of_iff fun au => by simp
  | some au1 => exact (hf au1 rfl).of_iff fun au => by simp

theorem checkAccount_answers {f : Authority Key Addr → Check (Trail Key Addr) Bool} (id : AccountId)
    (hf : ∀ au, Represents rules au id → Answers h rules sigs initial depth (f au)
      (reaches h sigs (counts h rules sigs initial depth) au)
      (Looks h rules sigs initial (counts h rules sigs initial depth) au)) :
    Answers h rules sigs initial depth (checkAccount rules f id)
      (reachesAccount h rules sigs (counts h rules sigs initial depth) id)
      fun au => ∃ au1, Consults h rules sigs (counts h rules sigs initial depth) id au1 ∧
        Looks h rules sigs initial (counts h rules sigs initial depth) au1 au := by
  have hactive := checkPointer_answers (f := f) (rules.getActive id)
    fun au hau => hf au (.inl hau)
  unfold checkAccount reachesAccount Consults
  cases hreached : reachesPointer h sigs (counts h rules sigs initial depth) (rules.getActive id) with
  | true =>
    rw [hreached] at hactive
    exact (hactive.yes (.pure true)).of_iff fun au => by simp
  | false =>
    rw [hreached] at hactive
    cases hallow : rules.allowNonImmediateOwner with
    | false => exact (hactive.no (.pure false)).of_iff fun au => by simp
    | true =>
      have howner := checkPointer_answers (f := f) (rules.getOwner id)
        fun au hau => hf au (.inr ⟨hallow, hau⟩)
      refine (hactive.no howner).of_iff fun au => ?_
      simp only [true_and, or_and_right, exists_or]

theorem approves_answers {levels : Nat} (hle : levels ≤ depth) {id : AccountId}
    (hends : Ends rules initial levels id) :
    Answers h rules sigs initial depth (approves (ideal h sigs) rules levels id)
      (counts h rules sigs initial depth id)
      (LooksFrom h rules sigs initial (counts h rules sigs initial depth) id) := by
  have hasked : ∀ t, (ideal h sigs).isApproved id t = .ok (decide (id ∈ t.approvedBy)) t := fun _ => rfl
  induction levels generalizing id with
  | zero =>
    intro t hr
    refine ⟨t, ?_, hr, fun au => ?_⟩
    · have hcounts : counts h rules sigs initial depth id = true := approvable_of_mem hends depth
      rw [hcounts]
      exact (hasked t).trans (by rw [decide_eq_true (hr.initially id hends)])
    · exact (or_iff_left fun hlooks : LooksFrom _ _ _ _ _ _ _ => hlooks.1 hends).symm
  | succ levels ih =>
    intro t hr
    by_cases hknown : id ∈ t.approvedBy
    · refine ⟨t, ?_, hr, fun au => ?_⟩
      · unfold approves
        rw [Returns.bind_eq (hasked t), decide_eq_true hknown, hr.right id hknown]
        rfl
      · exact (or_iff_left_of_imp (hr.looked id hknown au)).symm
    · have hnew : id ∉ initial := fun hid => hknown (hr.initially id hid)
      have hchain := hends.resolve_left hnew
      have haccount := checkAccount_answers (f := checkWith (ideal h sigs)
        (approves (ideal h sigs) rules levels)) id fun au hau => checkWith_answers au fun entry hentry =>
          ih (Nat.le_of_succ_le hle) (hchain au hau entry hentry) fun _ => rfl
      obtain ⟨t', hrun, hr', hcomes⟩ := haccount t hr
      have hcounts : counts h rules sigs initial depth id =
          reachesAccount h rules sigs (counts h rules sigs initial depth) id := by
        refine (approvable_iff hends hle).trans ?_
        rw [decide_eq_false hnew, Bool.false_or]
      have hlooked : ∀ au, LooksFrom h rules sigs initial (counts h rules sigs initial depth) id au ↔
          ∃ au1, Consults h rules sigs (counts h rules sigs initial depth) id au1 ∧
            Looks h rules sigs initial (counts h rules sigs initial depth) au1 au :=
        fun au => and_iff_right hnew
      unfold approves
      rw [Returns.bind_eq (hasked t), decide_eq_false hknown, if_neg Bool.false_ne_true,
        Returns.bind_eq hrun, ← hcounts]
      cases hvalue : counts h rules sigs initial depth id with
      | false =>
        refine ⟨t', rfl, hr', fun au => ?_⟩
        rw [hcomes, hlooked]
      | true =>
        refine ⟨{ t' with approvedBy := t'.approvedBy.insert id }, rfl, ⟨?_, ?_, ?_, ?_⟩,
          fun au => ?_⟩
        · exact fun id' hid' => List.mem_insert_of_mem (hr'.initially id' hid')
        · intro id' hid'
          rcases List.mem_insert_iff.mp hid' with rfl | hold
          · exact hvalue
          · exact hr'.right id' hold
        · intro id' hid' hnew'
          rcases List.mem_insert_iff.mp hid' with rfl | hold
          · rw [← hcounts]
            exact hvalue
          · exact hr'.reached id' hold hnew'
        · intro id' hid' au hlooks
          rcases List.mem_insert_iff.mp hid' with rfl | hold
          · exact (hcomes au).mpr (.inr ((hlooked au).mp hlooks))
          · exact hr'.looked id' hold au hlooks
        · rw [hlooked]
          exact hcomes au

/-! ## The loops of `verify_authority` -/

/-- Every chain of accounts below the authority ends within the depth of the search. -/
def EndsBelow (rules : Rules Key Addr) (initial : List AccountId) (au : Authority Key Addr) : Prop :=
  ∀ entry ∈ au.accountAuths, Ends rules initial rules.maxRecursion.toNat entry.1

/-- The authorities that the operations require are such. -/
structure EndsInTime (rules : Rules Key Addr) (initial : List AccountId) (required : Required Key Addr)
    (ownerApprovals : List AccountId) : Prop where
  other : ∀ au ∈ required.other, EndsBelow rules initial au
  owner : ∀ id ∈ required.owner, id ∉ ownerApprovals → ∀ au, rules.getOwner id = some au →
    EndsBelow rules initial au
  active : ∀ id ∈ required.active, id ∉ initial → ∀ au,
    rules.getActive id = some au ∨ rules.getOwner id = some au → EndsBelow rules initial au

/-- What the assertions about required authorities throw; the text of an assertion reads the authorities
of the account. -/
structure Throws (rules : Rules Key Addr) (initial : List AccountId) (required : Required Key Addr)
    (ownerApprovals : List AccountId) (E : Failure → Prop) : Prop where
  other : E .txMissingOtherAuth
  owner : ∀ id ∈ required.owner, id ∉ ownerApprovals →
    E (if (rules.getOwner id).isSome then .txMissingOwnerAuth id else .nullAuthority)
  active : ∀ id ∈ required.active, id ∉ initial →
    E (if (rules.getActive id).isSome ∧ (rules.getOwner id).isSome then .txMissingActiveAuth id
      else .nullAuthority)

variable (h rules sigs initial depth) in
/-- The statement returns if and only if `P` holds, and comes to these authorities; or else it throws
such an exception, and comes to no others. -/
def Decides (E : Failure → Prop) (x : Check (Trail Key Addr) PUnit) (P : Prop)
    (comes : Authority Key Addr → Prop) : Prop :=
  ∀ t, Remembers h rules sigs initial depth t →
    (P → ∃ t', x t = .ok ⟨⟩ t' ∧ Remembers h rules sigs initial depth t' ∧
      ∀ au, au ∈ t'.examined ↔ au ∈ t.examined ∨ comes au) ∧
    (¬P → ∃ e t', x t = .error e t' ∧ E e ∧ ∀ au ∈ t'.examined, au ∈ t.examined ∨ comes au)

namespace Decides

variable {E : Failure → Prop} {x y : Check (Trail Key Addr) PUnit} {P Q : Prop}
  {comes comes' : Authority Key Addr → Prop}

theorem of_iff (hx : Decides h rules sigs initial depth E x P comes) (hP : P ↔ Q)
    (hiff : ∀ au, comes au ↔ comes' au) : Decides h rules sigs initial depth E x Q comes' := by
  rw [← funext fun au => propext (hiff au), ← propext hP]
  exact hx

theorem nothing : Decides h rules sigs initial depth E (pure ⟨⟩) True fun _ => False :=
  fun t hr => ⟨fun _ => ⟨t, rfl, hr, fun _ => (iff_of_eq (or_false _)).symm⟩,
    fun hnot => absurd trivial hnot⟩

theorem throws {e : Failure} (he : E e) :
    Decides h rules sigs initial depth E (throw e) False fun _ => False :=
  fun t _ => ⟨False.elim, fun _ => ⟨e, t, rfl, he, fun _ => .inl⟩⟩

theorem bind {α : Type} {x : Check (Trail Key Addr) α} {f : α → Check (Trail Key Addr) PUnit} {a : α}
    (hx : Answers h rules sigs initial depth x a comes)
    (hf : Decides h rules sigs initial depth E (f a) P comes') :
    Decides h rules sigs initial depth E (x >>= f) P fun au => comes au ∨ comes' au := by
  intro t hr
  obtain ⟨t1, hrun, hr1, hcomes⟩ := hx t hr
  rw [Returns.bind_eq hrun]
  constructor
  · intro hP
    obtain ⟨t2, hrun', hr2, hcomes'⟩ := (hf t1 hr1).1 hP
    refine ⟨t2, hrun', hr2, fun au => ?_⟩
    rw [hcomes', hcomes, or_assoc]
  · intro hnot
    obtain ⟨e, t2, hrun', he, hcomes'⟩ := (hf t1 hr1).2 hnot
    refine ⟨e, t2, hrun', he, fun au hau => ?_⟩
    rw [← or_assoc, ← hcomes]
    exact hcomes' au hau

theorem of_answers {x : Check (Trail Key Addr) Bool} {b : Bool} {e : Failure}
    (hx : Answers h rules sigs initial depth x b comes) (he : E e) :
    Decides h rules sigs initial depth E (do if ← x then pure ⟨⟩ else throw e) (b = true) comes := by
  cases b with
  | true => exact (bind hx nothing).of_iff (by simp) fun au => or_iff_left id
  | false => exact (bind hx (throws he)).of_iff (by simp) fun au => or_iff_left id

theorem seq (hx : Decides h rules sigs initial depth E x P comes)
    (hy : Decides h rules sigs initial depth E y Q comes') :
    Decides h rules sigs initial depth E (do x; y) (P ∧ Q) fun au => comes au ∨ comes' au := by
  intro t hr
  by_cases hP : P
  · obtain ⟨t1, hrun, hr1, hcomes⟩ := (hx t hr).1 hP
    obtain ⟨hyes, hno⟩ := hy t1 hr1
    show (P ∧ Q → ∃ t', (x >>= fun _ => y) t = .ok ⟨⟩ t' ∧ _) ∧
      (¬(P ∧ Q) → ∃ e t', (x >>= fun _ => y) t = .error e t' ∧ _)
    rw [Returns.bind_eq hrun]
    constructor
    · rintro ⟨-, hQ⟩
      obtain ⟨t2, hrun', hr2, hcomes'⟩ := hyes hQ
      refine ⟨t2, hrun', hr2, fun au => ?_⟩
      rw [hcomes', hcomes, or_assoc]
    · intro hnot
      obtain ⟨e, t2, hrun', he, hcomes'⟩ := hno fun hQ => hnot ⟨hP, hQ⟩
      refine ⟨e, t2, hrun', he, fun au hau => ?_⟩
      rw [← or_assoc, ← hcomes]
      exact hcomes' au hau
  · obtain ⟨e, t1, hrun, he, hcomes⟩ := (hx t hr).2 hP
    refine ⟨fun hand => absurd hand.1 hP, fun _ => ⟨e, t1, ?_, he, fun au hau => ?_⟩⟩
    · show EStateM.bind x _ t = _
      unfold EStateM.bind
      rw [hrun]
    · exact (hcomes au hau).imp_right .inl

theorem each {α : Type} {body : α → Check (Trail Key Addr) PUnit} {P : α → Prop}
    {comes : α → Authority Key Addr → Prop} {items : List α}
    (hbody : ∀ a ∈ items, Decides h rules sigs initial depth E (body a) (P a) (comes a)) :
    Decides h rules sigs initial depth E (Signing.each body items) (∀ a ∈ items, P a)
      fun au => ∃ a ∈ items, comes a au := by
  induction items with
  | nil => exact nothing.of_iff (by simp) fun au => by simp
  | cons a rest ih =>
    have hrest := ih fun a ha => hbody a (List.mem_cons_of_mem _ ha)
    refine ((hbody a List.mem_cons_self).seq hrest).of_iff List.forall_mem_cons.symm fun au => ?_
    rw [List.exists_mem_cons_iff]

end Decides

section Search

variable (h rules sigs initial) in
abbrev accountsCounted : AccountId → Bool := counts h rules sigs initial rules.maxRecursion.toNat

variable (h sigs) in
theorem checkAuthority_answers {au : Authority Key Addr} (hends : EndsBelow rules initial au) :
    Answers h rules sigs initial rules.maxRecursion.toNat (checkAuthority (ideal h sigs) rules au)
      (reaches h sigs (accountsCounted h rules sigs initial) au)
      (Looks h rules sigs initial (accountsCounted h rules sigs initial) au) :=
  checkWith_answers au fun entry hentry => approves_answers (Nat.le_refl _) (hends entry hentry)

variable (h rules sigs initial) in
abbrev ownerReached (id : AccountId) : Bool :=
  ownerReachedBy h rules sigs (accountsCounted h rules sigs initial) id

variable (h rules sigs initial) in
abbrev OwnerLooks (id : AccountId) (au : Authority Key Addr) : Prop :=
  OwnerLooksBy h rules sigs initial (accountsCounted h rules sigs initial) id au

variable {ownerApprovals : List AccountId} {id : AccountId}

variable (h sigs) in
theorem checkOwner_decides {E : Failure → Prop}
    (hends : id ∉ ownerApprovals → ∀ au, rules.getOwner id = some au → EndsBelow rules initial au)
    (he : id ∉ ownerApprovals →
      E (if (rules.getOwner id).isSome then .txMissingOwnerAuth id else .nullAuthority)) :
    Decides h rules sigs initial rules.maxRecursion.toNat E
      (checkOwner (ideal h sigs) rules ownerApprovals id)
      (id ∈ ownerApprovals ∨ ownerReached h rules sigs initial id = true)
      fun au => id ∉ ownerApprovals ∧ OwnerLooks h rules sigs initial id au := by
  unfold checkOwner
  by_cases hid : id ∈ ownerApprovals
  · rw [if_pos hid]
    exact Decides.nothing.of_iff (by simp [hid]) fun au => by simp [hid]
  · rw [if_neg hid]
    have howner := checkPointer_answers (rules.getOwner id) fun au hau =>
      checkAuthority_answers h sigs (hends hid au hau)
    exact (Decides.of_answers howner (he hid)).of_iff (or_iff_right hid).symm
      fun au => (and_iff_right hid).symm

variable (h sigs) in
theorem checkAuthorityOf_answers
    (hends : id ∉ initial → ∀ au, rules.getActive id = some au ∨ rules.getOwner id = some au →
      EndsBelow rules initial au) :
    Answers h rules sigs initial rules.maxRecursion.toNat (checkAuthorityOf (ideal h sigs) rules id)
      (decide (id ∈ initial) || reachesAccount h rules sigs (accountsCounted h rules sigs initial) id)
      (LooksFrom h rules sigs initial (accountsCounted h rules sigs initial) id) := by
  have hasked : ∀ t, (ideal h sigs).isApproved id t = .ok (decide (id ∈ t.approvedBy)) t := fun _ => rfl
  intro t hr
  unfold checkAuthorityOf
  by_cases hknown : id ∈ t.approvedBy
  · refine ⟨t, ?_, hr, fun au => (or_iff_left_of_imp (hr.looked id hknown au)).symm⟩
    rw [Returns.bind_eq (hasked t), decide_eq_true hknown, if_pos rfl]
    by_cases hid : id ∈ initial
    · rw [decide_eq_true hid]
      rfl
    · rw [hr.reached id hknown hid, Bool.or_true]
      rfl
  · have hnew : id ∉ initial := fun hid => hknown (hr.initially id hid)
    have haccount := checkAccount_answers id fun au hau =>
      checkAuthority_answers h sigs (hends hnew au (hau.imp_right And.right))
    obtain ⟨t', hrun, hr', hcomes⟩ := haccount t hr
    refine ⟨t', ?_, hr', fun au => ?_⟩
    · rw [Returns.bind_eq (hasked t), decide_eq_false hknown, if_neg Bool.false_ne_true, hrun,
        decide_eq_false hnew, Bool.false_or]
    · rw [hcomes, LooksFrom, and_iff_right hnew]

variable (h rules sigs initial) in
abbrev ActiveReached (id : AccountId) : Prop :=
  ActiveReachedBy h rules sigs initial (accountsCounted h rules sigs initial) id

variable (h rules sigs initial) in
abbrev ActiveLooks (id : AccountId) (au : Authority Key Addr) : Prop :=
  ActiveLooksBy h rules sigs initial (accountsCounted h rules sigs initial) id au

variable (h sigs) in
theorem checkActive_decides {E : Failure → Prop}
    (hends : id ∉ initial → ∀ au, rules.getActive id = some au ∨ rules.getOwner id = some au →
      EndsBelow rules initial au)
    (he : id ∉ initial → E (if (rules.getActive id).isSome ∧ (rules.getOwner id).isSome then
      .txMissingActiveAuth id else .nullAuthority)) :
    Decides h rules sigs initial rules.maxRecursion.toNat E (checkActive (ideal h sigs) rules id)
      (ActiveReached h rules sigs initial id) (ActiveLooks h rules sigs initial id) := by
  have hactive := checkAuthorityOf_answers h sigs hends
  unfold checkActive ActiveReached ActiveReachedBy ActiveLooks ActiveLooksBy
  by_cases hid : id ∈ initial
  · rw [decide_eq_true hid, Bool.true_or] at hactive
    refine (Decides.bind hactive .nothing).of_iff (by simp [hid]) fun au => ?_
    simp only [or_false, hid, not_true_eq_false, false_and, iff_false]
    exact fun hlooks => hlooks.1 hid
  rw [decide_eq_false hid, Bool.false_or] at hactive
  cases hreached : reachesAccount h rules sigs (accountsCounted h rules sigs initial) id with
  | true =>
    rw [hreached] at hactive
    exact (Decides.bind hactive .nothing).of_iff (by simp) fun au => by simp [hid]
  | false =>
    rw [hreached] at hactive
    have howner := checkPointer_answers (rules.getOwner id) fun au hau =>
      checkAuthority_answers h sigs (hends hid au (.inr hau))
    refine (Decides.bind hactive (Decides.of_answers howner (he hid))).of_iff ?_ fun au => ?_
    · simp [hid, ownerReachedBy]
    · simp [hid, OwnerLooksBy]

variable (h rules sigs initial) in
abbrev AllReached (required : Required Key Addr) (ownerApprovals : List AccountId) : Prop :=
  AllReachedBy h rules sigs initial (accountsCounted h rules sigs initial) required ownerApprovals

variable (h rules sigs initial) in
abbrev ComesTo (required : Required Key Addr) (ownerApprovals : List AccountId) (au : Authority Key Addr) :
    Prop :=
  ComesToBy h rules sigs initial (accountsCounted h rules sigs initial) required ownerApprovals au

variable (h sigs) in
theorem search_decides {E : Failure → Prop} {required : Required Key Addr}
    (hends : EndsInTime rules initial required ownerApprovals)
    (hthrows : Throws rules initial required ownerApprovals E) :
    Decides h rules sigs initial rules.maxRecursion.toNat E
      (search (ideal h sigs) rules required ownerApprovals)
      (AllReached h rules sigs initial required ownerApprovals)
      (ComesTo h rules sigs initial required ownerApprovals) := by
  have hother := Decides.each fun au hau => Decides.of_answers (e := .txMissingOtherAuth)
    (checkAuthority_answers h sigs (hends.other au hau)) hthrows.other
  have howner := Decides.each fun id hid =>
    checkOwner_decides h sigs (hends.owner id hid) (hthrows.owner id hid)
  have hactive := Decides.each fun id hid =>
    checkActive_decides h sigs (hends.active id hid) (hthrows.active id hid)
  refine (hother.seq (howner.seq hactive)).of_iff ⟨fun hand => ?_, fun hall => ?_⟩ fun au => Iff.rfl
  · exact ⟨hand.1, hand.2.1, hand.2.2⟩
  · exact ⟨hall.other, hall.owner, hall.active⟩

end Search

end

end Meta1Core.Signing
