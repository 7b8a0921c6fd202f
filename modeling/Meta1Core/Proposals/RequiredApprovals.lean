import Mathlib.Tactic.Tauto
import Meta1Core.Lib.Links
import Meta1Core.Protocol.Asset

/-!
# The index of required approvals (`required_approval_index`)

Two of the four sets that link an account to a proposal change, and the index follows each of them
on its own: it takes the link away as soon as the account leaves one of the two, even if another set
still names it.
-/

namespace Meta1Core.Proposals

open Lib (FlatSet Links Table bind_eq_ok of_bind StepsMeet)
open Protocol (AccountId)

abbrev ProposalId := Nat

structure Approvals where
  requiredActiveApprovals : FlatSet AccountId := ∅
  availableActiveApprovals : FlatSet AccountId := ∅
  requiredOwnerApprovals : FlatSet AccountId := ∅
  availableOwnerApprovals : FlatSet AccountId := ∅
  deriving DecidableEq

def Approvals.Names (p : Approvals) (a : AccountId) : Prop :=
  (a ∈ p.requiredActiveApprovals ∨ a ∈ p.requiredOwnerApprovals) ∨
    a ∈ p.availableActiveApprovals ∨ a ∈ p.availableOwnerApprovals

structure RequiredApprovalIndex where
  accountToProposals : Links AccountId ProposalId := ∅
  availableActiveBeforeModify : FlatSet AccountId := ∅
  availableOwnerBeforeModify : FlatSet AccountId := ∅

namespace RequiredApprovalIndex

def objectInserted (t : RequiredApprovalIndex) (id : ProposalId) (p : Approvals) :
    RequiredApprovalIndex :=
  { t with accountToProposals :=
      (((t.accountToProposals.linkAll p.requiredActiveApprovals.elems id).linkAll
        p.requiredOwnerApprovals.elems id).linkAll
        p.availableActiveApprovals.elems id).linkAll p.availableOwnerApprovals.elems id }

def objectRemoved (t : RequiredApprovalIndex) (id : ProposalId) (p : Approvals) :
    RequiredApprovalIndex :=
  { t with accountToProposals :=
      (((t.accountToProposals.dropAll p.requiredActiveApprovals.elems id).dropAll
        p.requiredOwnerApprovals.elems id).dropAll
        p.availableActiveApprovals.elems id).dropAll p.availableOwnerApprovals.elems id }

def aboutToModify (t : RequiredApprovalIndex) (p : Approvals) : RequiredApprovalIndex :=
  { t with
    availableActiveBeforeModify := p.availableActiveApprovals
    availableOwnerBeforeModify := p.availableOwnerApprovals }

/-- The loop of `insert_or_remove_delta` over both sets -/
def delta (id : ProposalId) : List AccountId → List AccountId → Links AccountId ProposalId →
    Links AccountId ProposalId
  | [], [], m => m
  | b :: bs, [], m => delta id bs [] (m.drop b id)
  | [], a :: as, m => delta id [] as (m.link a id)
  | b :: bs, a :: as, m =>
    if b < a then delta id bs (a :: as) (m.drop b id)
    else if a < b then delta id (b :: bs) as (m.link a id)
    else delta id bs as m
  termination_by before after => before.length + after.length

def insertOrRemoveDelta (t : RequiredApprovalIndex) (id : ProposalId)
    (before after : FlatSet AccountId) : RequiredApprovalIndex :=
  { t with accountToProposals := delta id before.elems after.elems t.accountToProposals }

def objectModified (t : RequiredApprovalIndex) (id : ProposalId) (p : Approvals) :
    RequiredApprovalIndex :=
  (t.insertOrRemoveDelta id t.availableActiveBeforeModify p.availableActiveApprovals).insertOrRemoveDelta
    id t.availableOwnerBeforeModify p.availableOwnerApprovals

end RequiredApprovalIndex

structure Book where
  proposals : Table ProposalId Approvals := ∅
  index : RequiredApprovalIndex := {}

inductive Change where
  | insert (id : ProposalId) (p : Approvals)
  | remove (id : ProposalId)
  /-- a modification, with the sets of available approvals that it leaves -/
  | modify (id : ProposalId) (active owner : FlatSet AccountId)

namespace Book

def find (s : Book) (id : ProposalId) : Except Exception Approvals :=
  match s.proposals.lookup id with
  | some p => .ok p
  | none => .error (.fc "Unable to find Object")

/-- `primary_index::create`, `remove` and `modify`, which tell the secondary index -/
def step (s : Book) : Change → Except Exception Book
  | .insert id p => do
    fcAssert (s.proposals.lookup id = none) "Could not insert object"
    return ⟨s.proposals.insert id p, s.index.objectInserted id p⟩
  | .remove id => do
    let p ← s.find id
    return ⟨s.proposals.erase id, s.index.objectRemoved id p⟩
  | .modify id active owner => do
    let before ← s.find id
    let after := { before with
      availableActiveApprovals := active
      availableOwnerApprovals := owner }
    return ⟨s.proposals.insert id after, (s.index.aboutToModify before).objectModified id after⟩

def Names (s : Book) (id : ProposalId) (a : AccountId) : Prop :=
  ∃ p, s.proposals.lookup id = some p ∧ p.Names a

/-- The index is the inverse relation, and no account has an empty set. -/
structure Exact (s : Book) : Prop where
  inverts : s.index.accountToProposals.Inverts s.Names
  tidy : s.index.accountToProposals.Tidy

/-- No account that the modified proposal still names leaves the available owner approvals, and none
leaves the available active approvals unless it joins the available owner approvals. -/
def KeepsLinks (s : Book) : Change → Prop
  | .insert _ _ => True
  | .remove _ => True
  | .modify id active owner => ∀ before, s.proposals.lookup id = some before → ∀ a,
    { before with availableActiveApprovals := active, availableOwnerApprovals := owner }.Names a →
      (a ∈ before.availableOwnerApprovals → a ∈ owner) ∧
      (a ∈ before.availableActiveApprovals →
        a ∈ active ∨ a ∈ owner ∧ a ∉ before.availableOwnerApprovals)

end Book

open RequiredApprovalIndex

theorem mem_members_delta {id j : ProposalId} {before after : List AccountId}
    (hbefore : before.Pairwise (· < ·)) (hafter : after.Pairwise (· < ·))
    (m : Links AccountId ProposalId) (k : AccountId) :
    j ∈ (delta id before after m).members k ↔
      j = id ∧ k ∈ after ∧ k ∉ before ∨
        j ∈ m.members k ∧ ¬(j = id ∧ k ∈ before ∧ k ∉ after) := by
  fun_induction delta id before after m with
  | case1 m => simp
  | case2 b bs m ih =>
    obtain ⟨hb, hbs⟩ := List.pairwise_cons.mp hbefore
    rw [ih hbs hafter]
    simp only [Links.mem_members_drop, List.mem_cons, List.not_mem_nil]
    tauto
  | case3 a as m ih =>
    obtain ⟨ha, has⟩ := List.pairwise_cons.mp hafter
    rw [ih hbefore has]
    simp only [Links.mem_members_link, List.mem_cons, List.not_mem_nil]
    tauto
  | case4 b bs a as m hlt ih =>
    obtain ⟨hb, hbs⟩ := List.pairwise_cons.mp hbefore
    obtain ⟨ha, has⟩ := List.pairwise_cons.mp hafter
    -- `b` is less than everything that is left of the new set
    have hnot : b ∉ a :: as := by
      rw [List.mem_cons, not_or]
      exact ⟨hlt.ne, fun hmem => (hlt.trans (ha b hmem)).false⟩
    have hfresh : b ∉ bs := fun hmem => (hb b hmem).false
    rw [ih hbs hafter]
    by_cases hk : k = b
    · subst hk
      simp [-List.mem_cons, hnot, hfresh, List.mem_cons_self]
    · simp [hk]
  | case5 b bs a as m hlt hgt ih =>
    obtain ⟨hb, hbs⟩ := List.pairwise_cons.mp hbefore
    obtain ⟨ha, has⟩ := List.pairwise_cons.mp hafter
    have hnot : a ∉ b :: bs := by
      rw [List.mem_cons, not_or]
      exact ⟨hgt.ne, fun hmem => (hgt.trans (hb a hmem)).false⟩
    have hfresh : a ∉ as := fun hmem => (ha a hmem).false
    rw [ih hbefore has]
    by_cases hk : k = a
    · subst hk
      simp [-List.mem_cons, hnot, hfresh, List.mem_cons_self]
    · simp [hk]
  | case6 b bs a as m hlt hgt ih =>
    obtain rfl : b = a := le_antisymm (not_lt.mp hgt) (not_lt.mp hlt)
    obtain ⟨hb, hbs⟩ := List.pairwise_cons.mp hbefore
    obtain ⟨ha, has⟩ := List.pairwise_cons.mp hafter
    have hfresh : b ∉ bs := fun hmem => (hb b hmem).false
    have hfresh' : b ∉ as := fun hmem => (ha b hmem).false
    rw [ih hbs has]
    by_cases hk : k = b
    · subst hk
      simp [hfresh, hfresh']
    · simp [hk]

theorem tidy_delta {id : ProposalId} {before after : List AccountId} {m : Links AccountId ProposalId}
    (h : m.Tidy) : (delta id before after m).Tidy := by
  fun_induction delta id before after m with
  | case1 m => exact h
  | case2 b bs m ih => exact ih (h.drop b id)
  | case3 a as m ih => exact ih (h.link a id)
  | case4 b bs a as m hlt ih => exact ih (h.drop b id)
  | case5 b bs a as m hlt hgt ih => exact ih (h.link a id)
  | case6 b bs a as m hlt hgt ih => exact ih h

/-! ## One change -/

namespace Book

variable {s s' : Book}

variable {id j : ProposalId}

theorem find_eq_ok {p : Approvals} :
    s.find id = .ok p ↔ s.proposals.lookup id = some p := by
  unfold find
  cases s.proposals.lookup id with
  | none => simp
  | some q => simp

theorem names_of_ne {proposals : Table ProposalId Approvals} {index : RequiredApprovalIndex}
    (hlookup : proposals.lookup j = s.proposals.lookup j) (a : AccountId) :
    (⟨proposals, index⟩ : Book).Names j a ↔ s.Names j a := by
  unfold Names
  rw [hlookup]

theorem exact_insert (h : s.Exact) {p : Approvals} (hs : s.step (.insert id p) = .ok s') :
    s'.Exact := by
  obtain ⟨hfresh, hs⟩ := of_fcAssert hs
  cases hs
  refine ⟨h.inverts.update (i := id) ?_ ?_, ?_⟩
  · intro j hj a
    constructor
    · simp [objectInserted, hj]
    · exact names_of_ne (by rw [Finmap.lookup_insert_of_ne _ hj]) a
  · intro a
    have hnone : id ∉ s.index.accountToProposals.members a := by
      rw [h.inverts a id]
      rintro ⟨q, hq, -⟩
      rw [hfresh] at hq
      cases hq
    have hnames : Names ⟨s.proposals.insert id p, s.index.objectInserted id p⟩ id a ↔ p.Names a := by
      unfold Names
      rw [Finmap.lookup_insert]
      simp
    rw [hnames]
    simp only [objectInserted, Links.mem_members_linkAll, hnone, true_and, or_false]
    unfold Approvals.Names
    simp only [FlatSet.mem_def]
    tauto
  · exact (((h.tidy.linkAll _ _).linkAll _ _).linkAll _ _).linkAll _ _

theorem exact_remove (h : s.Exact) (hs : s.step (.remove id) = .ok s') :
    s'.Exact := by
  obtain ⟨p, hp, hs⟩ := of_bind hs
  rw [find_eq_ok] at hp
  cases hs
  refine ⟨h.inverts.update (i := id) ?_ ?_, ?_⟩
  · intro j hj a
    constructor
    · simp [objectRemoved, hj]
    · exact names_of_ne (by rw [Finmap.lookup_erase_ne hj]) a
  · intro a
    have hlinked : id ∈ s.index.accountToProposals.members a ↔ p.Names a := by
      rw [h.inverts a id]
      unfold Names
      rw [hp]
      simp
    have hnames : ¬Names ⟨s.proposals.erase id, s.index.objectRemoved id p⟩ id a := by
      rintro ⟨q, hq, -⟩
      rw [Finmap.lookup_erase] at hq
      cases hq
    refine iff_of_false ?_ hnames
    simp only [objectRemoved, Links.mem_members_dropAll, hlinked, true_and]
    unfold Approvals.Names
    simp only [FlatSet.mem_def]
    tauto
  · exact (((h.tidy.dropAll _ _).dropAll _ _).dropAll _ _).dropAll _ _

theorem mem_members_objectModified {t : RequiredApprovalIndex} {before after : Approvals}
    {a : AccountId} :
    j ∈ ((t.aboutToModify before).objectModified id after).accountToProposals.members a ↔
      j = id ∧ a ∈ after.availableOwnerApprovals ∧ a ∉ before.availableOwnerApprovals ∨
        (j = id ∧ a ∈ after.availableActiveApprovals ∧ a ∉ before.availableActiveApprovals ∨
          j ∈ t.accountToProposals.members a ∧
            ¬(j = id ∧ a ∈ before.availableActiveApprovals ∧ a ∉ after.availableActiveApprovals)) ∧
          ¬(j = id ∧ a ∈ before.availableOwnerApprovals ∧ a ∉ after.availableOwnerApprovals) := by
  unfold objectModified insertOrRemoveDelta aboutToModify
  rw [mem_members_delta (FlatSet.sorted _) (FlatSet.sorted _),
    mem_members_delta (FlatSet.sorted _) (FlatSet.sorted _)]
  rfl

theorem linked_iff_names (r active active' owner owner' : Prop) :
    ((owner' ∧ ¬owner ∨ (active' ∧ ¬active ∨ (r ∨ active ∨ owner) ∧ ¬(active ∧ ¬active')) ∧
        ¬(owner ∧ ¬owner')) ↔ r ∨ active' ∨ owner') ↔
      (r ∨ active' ∨ owner' → (owner → owner') ∧ (active → active' ∨ owner' ∧ ¬owner)) := by
  by_cases howner : owner
  · by_cases howner' : owner'
    · by_cases hactive : active <;> by_cases hactive' : active' <;> simp [*]
    · by_cases hactive : active <;> by_cases hactive' : active' <;> simp [*]
  · by_cases howner' : owner'
    · simp [*]
    · by_cases hactive : active <;> by_cases hactive' : active' <;> simp [*]

theorem exact_modify_iff (h : s.Exact) {active owner : FlatSet AccountId}
    (hs : s.step (.modify id active owner) = .ok s') :
    s'.Exact ↔ s.KeepsLinks (.modify id active owner) := by
  obtain ⟨before, hbefore, hs⟩ := of_bind hs
  rw [find_eq_ok] at hbefore
  cases hs
  set after : Approvals := { before with
    availableActiveApprovals := active
    availableOwnerApprovals := owner } with hafter
  set s' : Book := ⟨s.proposals.insert id after, (s.index.aboutToModify before).objectModified id after⟩
    with hs'
  have hlinked : ∀ a, id ∈ s.index.accountToProposals.members a ↔ before.Names a := by
    intro a
    rw [h.inverts a id]
    unfold Names
    simp [hbefore]
  have hnames : ∀ a, s'.Names id a ↔ after.Names a := by
    intro a
    unfold Names
    rw [Finmap.lookup_insert]
    simp
  have hpoint : ∀ a, (id ∈ s'.index.accountToProposals.members a ↔ s'.Names id a) ↔
      (after.Names a → (a ∈ before.availableOwnerApprovals → a ∈ owner) ∧
        (a ∈ before.availableActiveApprovals →
          a ∈ active ∨ a ∈ owner ∧ a ∉ before.availableOwnerApprovals)) := by
    intro a
    rw [hnames a, mem_members_objectModified, hlinked a]
    simp only [true_and]
    exact linked_iff_names _ _ _ _ _
  have hkeeps : s.KeepsLinks (.modify id active owner) ↔
      ∀ a, id ∈ s'.index.accountToProposals.members a ↔ s'.Names id a := by
    rw [forall_congr' hpoint]
    constructor
    · exact fun hk a => hk before hbefore a
    · intro hk p hp a
      rw [hbefore] at hp
      cases hp
      exact hk a
  rw [hkeeps]
  constructor
  · exact fun hexact a => hexact.inverts a id
  · intro hself
    refine ⟨h.inverts.update (i := id) ?_ hself, tidy_delta (tidy_delta h.tidy)⟩
    intro j hj a
    constructor
    · rw [mem_members_objectModified]
      simp [hj]
    · exact names_of_ne (by rw [Finmap.lookup_insert_of_ne _ hj]) a

theorem exact_empty : ({} : Book).Exact where
  inverts := by
    intro a id
    constructor
    · exact fun hmem => absurd hmem (Finset.notMem_empty id)
    · rintro ⟨p, hp, -⟩
      cases hp
  tidy := by
    intro a ids hids
    cases hids

theorem exact_step_iff (h : s.Exact) (e : Change) :
    (∀ s', s.step e = .ok s' → s'.Exact) ↔ s.KeepsLinks e := by
  cases e with
  | insert id p => exact ⟨fun _ => trivial, fun _ s' hs => exact_insert h hs⟩
  | remove id => exact ⟨fun _ => trivial, fun _ s' hs => exact_remove h hs⟩
  | modify id active owner =>
    constructor
    · intro hexact before hbefore
      have hs : s.step (.modify id active owner) = .ok _ :=
        bind_eq_ok.mpr ⟨before, find_eq_ok.mpr hbefore, rfl⟩
      exact (exact_modify_iff h hs).mp (hexact _ hs) before hbefore
    · exact fun hkeeps s' hs => (exact_modify_iff h hs).mpr hkeeps

theorem exact_run_iff (h : s.Exact) (es : List Change) :
    StepsMeet step (fun s e => ∀ s', s.step e = .ok s' → s'.Exact) s es ↔
      StepsMeet step KeepsLinks s es := by
  induction es generalizing s with
  | nil => exact Iff.rfl
  | cons e es ih =>
    rw [StepsMeet, StepsMeet, ← exact_step_iff h e]
    refine and_congr_right fun hexact => ?_
    cases hs : s.step e with
    | error err => exact Iff.rfl
    | ok s' => exact ih (hexact s' hs)

/-- From the empty book the index is exact after every change of a run, just if no modification takes
away the link of an account that the proposal still names. -/
theorem index_exact_iff (es : List Change) :
    StepsMeet step (fun s e => ∀ s', s.step e = .ok s' → s'.Exact) {} es ↔
      StepsMeet step KeepsLinks {} es :=
  exact_run_iff exact_empty es

/-- The account whose active approval is required approves the proposal and takes the approval back. -/
def approvedAndWithdrawn : List Change :=
  [.insert 0 { requiredActiveApprovals := .ofList [1] }, .modify 0 (.ofList [1]) ∅, .modify 0 ∅ ∅]

/-- The account is still required, but nothing leads from it to the proposal. -/
theorem index_not_exact : Lib.Succeeds (Lib.run step {} approvedAndWithdrawn) fun s =>
    s.Names 0 1 ∧ s.index.accountToProposals.members 1 = ∅ ∧ ¬s.Exact := by
  have hrun : Lib.Succeeds (Lib.run step {} approvedAndWithdrawn) fun s =>
      s.proposals.lookup 0 = some { requiredActiveApprovals := .ofList [1] } ∧
        s.index.accountToProposals.members 1 = ∅ := by decide +kernel
  obtain ⟨s, hs, hlookup, hempty⟩ := hrun
  have hnames : s.Names 0 1 := ⟨_, hlookup, .inl (.inl (FlatSet.mem_ofList.mpr (by simp)))⟩
  refine ⟨s, hs, hnames, hempty, fun hexact => ?_⟩
  have hlinked := (hexact.inverts 1 0).mpr hnames
  rw [hempty] at hlinked
  exact Finset.notMem_empty 0 hlinked

end Book

end Meta1Core.Proposals
