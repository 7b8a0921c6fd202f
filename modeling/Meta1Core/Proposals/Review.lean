import Meta1Core.Proposals.Terms

/-!
# The review period

In its review period a proposal gets no new active or owner approvals.  Key approvals may still be
added: the assertion of the evaluator does not look at them.
-/

namespace Meta1Core.Proposals

open Lib (FlatSet StepsMeet Reachable of_bind)
open Protocol (committeeAccount)

variable {σ ω : Type} {r : Rest σ ω} {K : Prop} {s s' : ProposalChain σ ω} {p : Proposal ω}
  {id : ProposalId}
  {push : ProposalChain σ ω → ProposalId → Except Exception (ProposalChain σ ω)}

theorem keyless_of_other_eq_nil {op : Operation ω} (h : (requiredAuthorities r op).other = []) :
    op.Keyless := by
  cases op with
  | update o =>
    have hnone : (o.keyApprovalsToAdd.insertAll o.keyApprovalsToRemove.elems).elems = [] := by
      by_contra hsome
      have hother : (if (o.keyApprovalsToAdd.insertAll o.keyApprovalsToRemove.elems).elems = [] then []
          else [_]) = [] := h
      rw [if_neg hsome] at hother
      cases hother
    show o.keyApprovalsToAdd = ∅
    ext k
    constructor
    · intro hk
      have hmem : k ∈ o.keyApprovalsToAdd.insertAll o.keyApprovalsToRemove.elems :=
        FlatSet.mem_insertAll.mpr (.inr hk)
      rw [FlatSet.mem_def, hnone] at hmem
      cases hmem
    · intro hk
      cases hk
  | create o => trivial
  | delete o => trivial
  | transfer o => trivial
  | other o => trivial

namespace ProposalChain

variable {o : ProposalCreate (Operation ω)}

theorem of_evaluateCreate {u : Unit} (h : s.evaluateCreate r o = .ok u) :
    s.headBlockTime < o.expirationTime ∧
      (∀ t ∈ o.reviewPeriodSeconds, t < o.expirationTime - s.headBlockTime) ∧
      (∀ op ∈ o.proposedOps, (requiredAuthorities r op).other = []) ∧
      ((∃ op ∈ o.proposedOps, committeeAccount ∈ (requiredAuthorities r op).active ∨
          committeeAccount ∈ (requiredAuthorities r op).owner) →
        ∃ t ∈ o.reviewPeriodSeconds, r.committeeProposalReviewPeriod s.rest ≤ t) := by
  unfold evaluateCreate at h
  obtain ⟨-, -, h⟩ := of_bind h
  obtain ⟨hexpiration, h⟩ := of_fcAssert h
  obtain ⟨-, h⟩ := of_fcAssert h
  obtain ⟨hreview, h⟩ := of_fcAssert h
  obtain ⟨hother, h⟩ := of_fcAssert h
  refine ⟨hexpiration, hreview, hother, fun hcommittee => ?_⟩
  rw [if_pos hcommittee] at h
  cases hseconds : o.reviewPeriodSeconds with
  | none =>
    rw [hseconds] at h
    cases h
  | some t =>
    rw [hseconds] at h
    exact ⟨t, rfl, fcAssert_eq_ok.mp h⟩

theorem admitted_newProposal {u : Unit} (h : s.evaluateCreate r o = .ok u)
    {operations : List (Operation ω)}
    (hoperations : ∀ op ∈ operations, op ∈ o.proposedOps ∨ op = .transfer preventingTransfer) :
    (newProposal r (r.committeeProposalReviewPeriod s.rest) o operations).Admitted r := by
  obtain ⟨-, hreview, hother, hcommittee⟩ := of_evaluateCreate h
  constructor
  · intro op hop
    rcases hoperations op hop with hop | rfl
    · exact keyless_of_other_eq_nil (hother op hop)
    · trivial
  · rintro ⟨op, hop, hneeded⟩
    have hproposed : op ∈ o.proposedOps := by
      rcases hoperations op hop with hop | rfl
      · exact hop
      · -- the sender is another account
        have hactive : committeeAccount ∉ FlatSet.ofList [nullAccount] := by decide
        rcases hneeded with hneeded | hneeded
        · exact absurd hneeded hactive
        · cases hneeded
    obtain ⟨t, ht, hlong⟩ := hcommittee ⟨op, hproposed, hneeded⟩
    refine ⟨o.expirationTime - t, by simp [newProposal, Option.mem_def.mp ht], ?_⟩
    have hshort := hreview t ht
    show o.expirationTime - t + r.committeeProposalReviewPeriod s.rest ≤ o.expirationTime
    omega

theorem Sound.evaluator {α : Type} {op : Operation ω} (hs : s.Sound r)
    {doEvaluate : ProposalChain σ ω → Except Exception α}
    {doApply : α → ProposalChain σ ω → Except Exception (ProposalChain σ ω)}
    (happly : ∀ a, doEvaluate s = .ok a → ∀ rest s', Sound r { s with rest := rest } →
      doApply a { s with rest := rest } = .ok s' → Applied K r { s with rest := rest } s')
    (h : s.evaluator r op doEvaluate doApply = .ok s') : Applied K r s s' := by
  obtain ⟨_, -, h⟩ := of_bind h
  obtain ⟨a, hevaluate, h⟩ := of_bind h
  obtain ⟨rest, -, h⟩ := of_bind h
  obtain ⟨s1, hdo, h⟩ := of_bind h
  obtain ⟨rest', -, h⟩ := of_bind h
  cases h
  have hpaid : Applied K r s { s with rest := rest } := hs.withRest rest
  have hdone := happly a hevaluate rest s1 hpaid.sound hdo
  exact hpaid.trans (hdone.trans (hdone.sound.withRest rest'))

theorem Sound.applyCreate {u : Unit} {rest : σ} (hevaluate : s.evaluateCreate r o = .ok u)
    (hs : Sound r { s with rest := rest })
    (h : ProposalChain.applyCreate r (r.committeeProposalReviewPeriod s.rest) o
      { s with rest := rest } = .ok s') : Applied K r { s with rest := rest } s' := by
  unfold ProposalChain.applyCreate at h
  have hexpiration := (of_evaluateCreate hevaluate).1
  dsimp only at h
  split at h
  · obtain ⟨-, h⟩ := of_fcAssert h
    cases h
    exact hs.create (admitted_newProposal hevaluate fun op hop => .inl hop) hexpiration
  · cases h
    refine hs.create (admitted_newProposal hevaluate fun op hop => ?_) hexpiration
    split at hop
    · rcases List.mem_append.mp hop with hop | hop
      · exact .inl hop
      · exact .inr (List.mem_singleton.mp hop)
    · exact .inl hop

end ProposalChain

/-! ## Updates -/

def Operation.KeepsKeys (s : ProposalChain σ ω) : Operation ω → Prop
  | .update o => ∀ p ∈ s.proposals.find o.proposal, p.InReview s.headBlockTime →
      ∀ k ∈ o.keyApprovalsToAdd.elems, k ∈ p.availableKeyApprovals ∨ k ∈ o.keyApprovalsToRemove
  | _ => True

instance (s : ProposalChain σ ω) : (op : Operation ω) → Decidable (op.KeepsKeys s)
  | .update o => inferInstanceAs (Decidable (∀ p ∈ s.proposals.find o.proposal, p.InReview s.headBlockTime →
      ∀ k ∈ o.keyApprovalsToAdd.elems, k ∈ p.availableKeyApprovals ∨ k ∈ o.keyApprovalsToRemove))
  | .create _ => .isTrue trivial
  | .delete _ => .isTrue trivial
  | .transfer _ => .isTrue trivial
  | .other _ => .isTrue trivial

theorem Operation.Keyless.keepsKeys {op : Operation ω} (h : op.Keyless) (s : ProposalChain σ ω) :
    op.KeepsKeys s := by
  cases op with
  | update o =>
    intro p _ _ k hk
    have hempty : o.keyApprovalsToAdd = ∅ := h
    rw [hempty] at hk
    cases hk
  | create o => trivial
  | delete o => trivial
  | transfer o => trivial
  | other o => trivial

namespace ProposalChain

def MayExecute (s : ProposalChain σ ω) (id : ProposalId) : Prop :=
  ∀ p, s.proposals.find id = some p →
    p.reviewPeriodTime ≠ none → s.clearing = true ∧ p.expirationTime ≤ s.headBlockTime

def Pushes (K : Prop) (r : Rest σ ω)
    (push : ProposalChain σ ω → ProposalId → Except Exception (ProposalChain σ ω)) : Prop :=
  ∀ s id s', s.Sound r → s.MayExecute id → push s id = .ok s' → Applied K r s s'

theorem of_evaluateUpdate {o : ProposalUpdate} (h : s.evaluateUpdate o = .ok p) :
    s.proposals.find o.proposal = some p ∧
      (p.InReview s.headBlockTime → o.activeApprovalsToAdd = ∅ ∧ o.ownerApprovalsToAdd = ∅) := by
  unfold evaluateUpdate at h
  obtain ⟨q, hfind, h⟩ := of_bind h
  obtain ⟨u, hcheck, h⟩ := of_bind h
  cases h
  unfold checkUpdate at hcheck
  obtain ⟨hreview, -⟩ := of_fcAssert hcheck
  unfold find at hfind
  cases hlookup : s.proposals.find o.proposal with
  | none =>
    rw [hlookup] at hfind
    cases hfind
  | some q =>
    rw [hlookup] at hfind
    cases hfind
    exact ⟨rfl, hreview⟩

theorem within_updateApprovals {o : ProposalUpdate} (hadd : o.activeApprovalsToAdd = ∅)
    (hadd' : o.ownerApprovalsToAdd = ∅)
    (hkeys : K → ∀ k ∈ o.keyApprovalsToAdd.elems,
      k ∈ p.availableKeyApprovals ∨ k ∈ o.keyApprovalsToRemove) :
    (updateApprovals o p).Within K p := by
  constructor
  · intro a ha
    have hmem := (FlatSet.mem_eraseAll.mp ha).1
    rw [hadd, FlatSet.mem_insertAll] at hmem
    exact hmem.resolve_left List.not_mem_nil
  · intro a ha
    have hmem := (FlatSet.mem_eraseAll.mp ha).1
    rw [hadd', FlatSet.mem_insertAll] at hmem
    exact hmem.resolve_left List.not_mem_nil
  · intro hK k hk
    obtain ⟨hmem, hnot⟩ := FlatSet.mem_eraseAll.mp hk
    rcases FlatSet.mem_insertAll.mp hmem with hadded | hold
    · exact (hkeys hK k hadded).resolve_right hnot
    · exact hold

theorem Sound.applyUpdate (hs : s.Sound r) (hpush : Pushes K r push) {o : ProposalUpdate}
    (hkeys : K → (Operation.update o : Operation ω).KeepsKeys s) (hevaluate : s.evaluateUpdate o = .ok p)
    (h : ProposalChain.applyUpdate r push o p s = .ok s') : Applied K r s s' := by
  unfold ProposalChain.applyUpdate at h
  obtain ⟨hfind, hreview⟩ := of_evaluateUpdate hevaluate
  have happroved : Applied K r s { s with proposals := s.proposals.modify o.proposal (updateApprovals o) } := by
    apply hs.modify
    · exact fun q => ⟨rfl, rfl, rfl, rfl⟩
    · intro q hq hin
      rw [hfind] at hq
      cases hq
      exact within_updateApprovals (hreview hin).1 (hreview hin).2 fun hK => hkeys hK p hfind hin
  dsimp only at h
  split at h
  · cases h
    exact happroved
  · rename_i hnone
    split at h
    · -- there is no review period, so the proposal may be executed at once
      have hmay : MayExecute { s with proposals := s.proposals.modify o.proposal (updateApprovals o) }
          o.proposal := by
        intro q hq hperiod
        have hq' : (s.proposals.modify o.proposal (updateApprovals o)).find o.proposal = some q := hq
        rw [Lib.Index.find_modify, if_pos rfl, hfind] at hq'
        cases hq'
        exact absurd (Option.not_isSome_iff_eq_none.mp hnone) hperiod
      split at h
      · rename_i s'' hok
        cases h
        exact happroved.trans (hpush _ _ _ happroved.sound hmay hok)
      · cases h
        apply happroved.trans
        apply happroved.sound.modify
        · exact fun q => ⟨rfl, rfl, rfl, rfl⟩
        · exact fun q _ _ => ⟨fun _ ha => ha, fun _ ha => ha, fun _ _ hk => hk⟩
      · cases h
    · cases h
      exact happroved

theorem Sound.applyOperation (hs : s.Sound r) (hpush : Pushes K r push) {op : Operation ω}
    (hkeys : K → op.KeepsKeys s) (h : s.applyOperation r push op = .ok s') : Applied K r s s' := by
  cases op with
  | create o => exact hs.evaluator (fun _ hevaluate _ _ hs => hs.applyCreate hevaluate) h
  | update o =>
    refine hs.evaluator (fun p hevaluate rest s' hs h => ?_) h
    exact hs.applyUpdate hpush hkeys hevaluate h
  | delete o =>
    refine hs.evaluator (fun _ _ rest s' hs h => ?_) h
    cases h
    exact hs.refl.remove o.proposal fun e he => .inl he
  | transfer o =>
    obtain ⟨rest', -, h⟩ := of_bind h
    cases h
    exact hs.withRest rest'
  | other o =>
    obtain ⟨rest', -, h⟩ := of_bind h
    cases h
    exact hs.withRest rest'

theorem Sound.applyAll (hs : s.Sound r) (hpush : Pushes K r push) {ops : List (Operation ω)}
    (hkeys : K → StepsMeet (ProposalChain.applyOperation r push) (fun s op => op.KeepsKeys s) s ops)
    (h : Lib.run (ProposalChain.applyOperation r push) s ops = .ok s') : Applied K r s s' := by
  induction ops generalizing s with
  | nil =>
    cases h
    exact hs.refl
  | cons op ops ih =>
    obtain ⟨s1, hop, hrest⟩ := Lib.run_cons_eq_ok.mp h
    have hfirst : Applied K r s s1 := hs.applyOperation hpush (fun hK => (hkeys hK).1) hop
    apply hfirst.trans
    apply ih hfirst.sound _ hrest
    intro hK
    have hmeet := (hkeys hK).2
    rw [hop] at hmeet
    exact hmeet

theorem pushes_pushProposal (K : Prop) (r : Rest σ ω) (nesting : Nat) :
    Pushes K r (pushProposal r nesting) := by
  induction nesting with
  | zero =>
    intro s id s' _ _ h
    cases h
  | succ nesting ih =>
    intro s id s' hs hmay h
    unfold pushProposal at h
    split at h
    · cases h
    · rename_i p hfind
      obtain ⟨s1, hrun, h⟩ := of_bind h
      have hmeet : StepsMeet (ProposalChain.applyOperation r (pushProposal r nesting))
          (fun s op => op.KeepsKeys s) s p.operations :=
        StepsMeet.of_forall (fun op hop s => ((hs.admitted id p hfind).keyless op hop).keepsKeys s) s
      have hrun' : Applied K r s s1 := hs.applyAll ih (fun _ => hmeet) hrun
      split at h
      · cases h
      · cases h
        have hlt : id < s.proposals.next := s.proposals.lt_next hfind
        have hlive : s.Succeeds K id p := ⟨p, hfind, .refl p, fun _ => .refl K p⟩
        apply hrun'.remove
        intro e he
        rcases List.mem_cons.mp he with rfl | he
        · exact .inr ⟨rfl, (hs.admitted id p hfind).reviewed, hmay p hfind,
            hlt.trans_le hrun'.keeps.next, hlive⟩
        · exact .inl he

theorem find_of_pushProposal {nesting : Nat} (h : s.pushProposal r nesting id = .ok s') :
    s'.proposals.find id = none := by
  cases nesting with
  | zero => cases h
  | succ nesting =>
    unfold pushProposal at h
    split at h
    · cases h
    · obtain ⟨s1, -, h⟩ := of_bind h
      split at h
      · cases h
      · cases h
        show (s1.proposals.remove id).find id = none
        rw [Lib.Index.find_remove, if_pos rfl]

end ProposalChain

end Meta1Core.Proposals
