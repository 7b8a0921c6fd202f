import Meta1Core.Proposals.Evaluators

/-!
# What a step does to the proposals

The terms of a proposal never change.  Its approvals change, but once its review period has begun, active
and owner approvals only become fewer, and so do the key approvals if no update adds one.
-/

namespace Meta1Core.Proposals

open Lib (FlatSet StepsMeet bind_eq_ok Index)
open Protocol (committeeAccount)

variable {σ ω : Type} {r : Rest σ ω} {K : Prop} {s s' s'' : ProposalChain σ ω} {p q : Proposal ω}
  {id : ProposalId}

/-! ## One proposal -/

def Proposal.InReview (p : Proposal ω) (headBlockTime : Nat) : Prop :=
  ∃ t ∈ p.reviewPeriodTime, t ≤ headBlockTime

instance (p : Proposal ω) (headBlockTime : Nat) : Decidable (p.InReview headBlockTime) :=
  inferInstanceAs (Decidable (∃ t ∈ p.reviewPeriodTime, t ≤ headBlockTime))

structure Proposal.SameTerms (p q : Proposal ω) : Prop where
  expirationTime : p.expirationTime = q.expirationTime
  reviewPeriodTime : p.reviewPeriodTime = q.reviewPeriodTime
  operations : p.operations = q.operations
  committeeReviewPeriod : p.committeeReviewPeriod = q.committeeReviewPeriod

/-- There are no approvals that were not there before; `K` tells whether the keys are looked at too. -/
structure Proposal.Within (K : Prop) (p q : Proposal ω) : Prop where
  active : ∀ a ∈ p.availableActiveApprovals, a ∈ q.availableActiveApprovals
  owner : ∀ a ∈ p.availableOwnerApprovals, a ∈ q.availableOwnerApprovals
  keys : K → ∀ k ∈ p.availableKeyApprovals, k ∈ q.availableKeyApprovals

def Proposal.CommitteeReviewed (r : Rest σ ω) (p : Proposal ω) : Prop :=
  (∃ op ∈ p.operations, committeeAccount ∈ (requiredAuthorities r op).active ∨
      committeeAccount ∈ (requiredAuthorities r op).owner) →
    ∃ t ∈ p.reviewPeriodTime, t + p.committeeReviewPeriod ≤ p.expirationTime

def Operation.Keyless : Operation ω → Prop
  | .update o => o.keyApprovalsToAdd = ∅
  | _ => True

structure Proposal.Admitted (r : Rest σ ω) (p : Proposal ω) : Prop where
  keyless : ∀ op ∈ p.operations, op.Keyless
  reviewed : p.CommitteeReviewed r

namespace Proposal

theorem SameTerms.refl (p : Proposal ω) : p.SameTerms p := ⟨rfl, rfl, rfl, rfl⟩

theorem SameTerms.trans {p' : Proposal ω} (h : p.SameTerms q) (h' : q.SameTerms p') : p.SameTerms p' where
  expirationTime := h.expirationTime.trans h'.expirationTime
  reviewPeriodTime := h.reviewPeriodTime.trans h'.reviewPeriodTime
  operations := h.operations.trans h'.operations
  committeeReviewPeriod := h.committeeReviewPeriod.trans h'.committeeReviewPeriod

theorem SameTerms.inReview (h : p.SameTerms q) {t : Nat} (hq : q.InReview t) : p.InReview t := by
  unfold InReview
  rw [h.reviewPeriodTime]
  exact hq

theorem SameTerms.admitted (h : p.SameTerms q) (hq : q.Admitted r) : p.Admitted r where
  keyless := by
    rw [h.operations]
    exact hq.keyless
  reviewed := by
    unfold CommitteeReviewed
    rw [h.operations, h.reviewPeriodTime, h.committeeReviewPeriod, h.expirationTime]
    exact hq.reviewed

theorem InReview.mono {t t' : Nat} (h : p.InReview t) (hle : t ≤ t') : p.InReview t' := by
  obtain ⟨u, hu, hut⟩ := h
  exact ⟨u, hu, hut.trans hle⟩

theorem Within.refl (K : Prop) (p : Proposal ω) : p.Within K p :=
  ⟨fun _ h => h, fun _ h => h, fun _ _ h => h⟩

theorem Within.trans {p' : Proposal ω} (h : p.Within K q) (h' : q.Within K p') : p.Within K p' where
  active a ha := h'.active a (h.active a ha)
  owner a ha := h'.owner a (h.owner a ha)
  keys hK k hk := h'.keys hK k (h.keys hK k hk)

end Proposal

/-! ## All proposals -/

def Execution.OnTime (e : Execution ω) : Prop :=
  e.proposal.reviewPeriodTime ≠ none →
    e.clearing = true ∧ e.proposal.expirationTime ≤ e.headBlockTime

namespace ProposalChain

structure Sound (r : Rest σ ω) (s : ProposalChain σ ω) : Prop where
  admitted : ∀ id p, s.proposals.find id = some p → p.Admitted r
  unexpired : s.clearing = false → ∀ id p, s.proposals.find id = some p → s.headBlockTime < p.expirationTime
  executed : ∀ e ∈ s.executed, e.proposal.CommitteeReviewed r ∧ e.OnTime
  gone : ∀ e ∈ s.executed, e.id < s.proposals.next ∧ s.proposals.find e.id = none

def Succeeds (K : Prop) (s : ProposalChain σ ω) (id : ProposalId) (p' : Proposal ω) : Prop :=
  ∃ p, s.proposals.find id = some p ∧ p'.SameTerms p ∧ (p.InReview s.headBlockTime → p'.Within K p)

structure Keeps (K : Prop) (s s' : ProposalChain σ ω) : Prop where
  headBlockTime : s.headBlockTime ≤ s'.headBlockTime
  next : s.proposals.next ≤ s'.proposals.next
  old : ∀ id p', s'.proposals.find id = some p' → id < s.proposals.next → s.Succeeds K id p'
  new : ∀ id p', s'.proposals.find id = some p' → s.proposals.next ≤ id →
    s.headBlockTime < p'.expirationTime
  executed : ∀ e ∈ s'.executed,
    e ∈ s.executed ∨ s.proposals.next ≤ e.id ∨ s.Succeeds K e.id e.proposal

theorem Keeps.of_eq (htime : s.headBlockTime ≤ s'.headBlockTime) (hproposals : s'.proposals = s.proposals)
    (hexecuted : s'.executed = s.executed) : Keeps K s s' where
  headBlockTime := htime
  next := by rw [hproposals]
  old id p' hp' _ := by
    rw [hproposals] at hp'
    exact ⟨p', hp', .refl p', fun _ => .refl K p'⟩
  new id p' hp' hid := by
    rw [hproposals] at hp'
    exact absurd (s.proposals.lt_next hp') (Nat.not_lt.mpr hid)
  executed e he := by
    rw [hexecuted] at he
    exact .inl he

theorem Keeps.refl (s : ProposalChain σ ω) : Keeps K s s := .of_eq (Nat.le_refl _) rfl rfl

theorem Keeps.succeeds (h : Keeps K s s') (hid : id < s.proposals.next) (hp : s'.Succeeds K id p) :
    s.Succeeds K id p := by
  obtain ⟨q, hq, hterms, hwithin⟩ := hp
  obtain ⟨q0, hq0, hterms0, hwithin0⟩ := h.old id q hq hid
  refine ⟨q0, hq0, hterms.trans hterms0, fun hreview => ?_⟩
  have hreview' : q.InReview s'.headBlockTime := (hterms0.inReview hreview).mono h.headBlockTime
  exact (hwithin hreview').trans (hwithin0 hreview)

theorem Keeps.trans (h : Keeps K s s') (h' : Keeps K s' s'') : Keeps K s s'' where
  headBlockTime := h.headBlockTime.trans h'.headBlockTime
  next := h.next.trans h'.next
  old id p hp hid := h.succeeds hid (h'.old id p hp (hid.trans_le h.next))
  new id p hp hid := by
    by_cases hid' : id < s'.proposals.next
    · obtain ⟨q, hq, hterms, -⟩ := h'.old id p hp hid'
      rw [hterms.expirationTime]
      exact h.new id q hq hid
    · have hnew := h'.new id p hp (Nat.not_lt.mp hid')
      have htime := h.headBlockTime
      omega
  executed e he := by
    rcases h'.executed e he with hold | hnew | hlive
    · exact h.executed e hold
    · exact .inr (.inl (h.next.trans hnew))
    · by_cases hid : e.id < s.proposals.next
      · exact .inr (.inr (h.succeeds hid hlive))
      · exact .inr (.inl (Nat.not_lt.mp hid))

structure SameBlock (s s' : ProposalChain σ ω) : Prop where
  headBlockTime : s'.headBlockTime = s.headBlockTime
  clearing : s'.clearing = s.clearing
  activeWitnesses : s'.activeWitnesses = s.activeWitnesses

structure Applied (K : Prop) (r : Rest σ ω) (s s' : ProposalChain σ ω) : Prop where
  sound : s'.Sound r
  keeps : Keeps K s s'
  sameBlock : SameBlock s s'

theorem Applied.trans (h : Applied K r s s') (h' : Applied K r s' s'') : Applied K r s s'' where
  sound := h'.sound
  keeps := h.keeps.trans h'.keeps
  sameBlock :=
    ⟨h'.sameBlock.headBlockTime.trans h.sameBlock.headBlockTime,
      h'.sameBlock.clearing.trans h.sameBlock.clearing,
      h'.sameBlock.activeWitnesses.trans h.sameBlock.activeWitnesses⟩

namespace Sound

theorem withRest (hs : s.Sound r) (rest : σ) : Applied K r s { s with rest := rest } where
  sound := ⟨hs.admitted, hs.unexpired, hs.executed, hs.gone⟩
  keeps := .of_eq (Nat.le_refl _) rfl rfl
  sameBlock := ⟨rfl, rfl, rfl⟩

theorem create (hs : s.Sound r) (hadmitted : p.Admitted r) (hexpiration : s.headBlockTime < p.expirationTime) :
    Applied K r s { s with proposals := s.proposals.create p } := by
  have hfind : ∀ id q, (s.proposals.create p).find id = some q →
      id = s.proposals.next ∧ q = p ∨ s.proposals.find id = some q := by
    intro id q hq
    rw [Index.find_create] at hq
    split at hq
    · rename_i hid
      exact .inl ⟨hid, (Option.some.inj hq).symm⟩
    · exact .inr hq
  constructor
  · constructor
    · intro id q hq
      rcases hfind id q hq with ⟨-, rfl⟩ | hold
      · exact hadmitted
      · exact hs.admitted id q hold
    · intro hclearing id q hq
      rcases hfind id q hq with ⟨-, rfl⟩ | hold
      · exact hexpiration
      · exact hs.unexpired hclearing id q hold
    · exact hs.executed
    · intro e he
      obtain ⟨hlt, hnone⟩ := hs.gone e he
      refine ⟨Nat.lt_succ_of_lt hlt, ?_⟩
      show (s.proposals.create p).find e.id = none
      rw [Index.find_create, if_neg (Nat.ne_of_lt hlt), hnone]
  · constructor
    · exact Nat.le_refl _
    · exact Nat.le_succ _
    · intro id q hq hid
      rcases hfind id q hq with ⟨heq, -⟩ | hold
      · omega
      · exact ⟨q, hold, .refl q, fun _ => .refl K q⟩
    · intro id q hq hid
      rcases hfind id q hq with ⟨-, rfl⟩ | hold
      · exact hexpiration
      · exact absurd (s.proposals.lt_next hold) (Nat.not_lt.mpr hid)
    · exact fun e he => .inl he
  · exact ⟨rfl, rfl, rfl⟩

theorem modify (hs : s.Sound r) {f : Proposal ω → Proposal ω} (hterms : ∀ p, (f p).SameTerms p)
    (hwithin : ∀ p, s.proposals.find id = some p → p.InReview s.headBlockTime → (f p).Within K p) :
    Applied K r s { s with proposals := s.proposals.modify id f } := by
  have hfind : ∀ id' q, (s.proposals.modify id f).find id' = some q → s.Succeeds K id' q := by
    intro id' q hq
    rw [Index.find_modify] at hq
    split at hq
    · rename_i hid
      obtain ⟨p, hp, rfl⟩ := Option.map_eq_some_iff.mp hq
      exact ⟨p, hid ▸ hp, hterms p, hwithin p hp⟩
    · exact ⟨q, hq, .refl q, fun _ => .refl K q⟩
  constructor
  · constructor
    · intro id' q hq
      obtain ⟨p, hp, hsame, -⟩ := hfind id' q hq
      exact hsame.admitted (hs.admitted id' p hp)
    · intro hclearing id' q hq
      obtain ⟨p, hp, hsame, -⟩ := hfind id' q hq
      rw [hsame.expirationTime]
      exact hs.unexpired hclearing id' p hp
    · exact hs.executed
    · intro e he
      obtain ⟨hlt, hnone⟩ := hs.gone e he
      refine ⟨hlt, ?_⟩
      show (s.proposals.modify id f).find e.id = none
      rw [Index.find_modify]
      split
      · rename_i heq
        rw [← heq, hnone]
        rfl
      · exact hnone
  · constructor
    · exact Nat.le_refl _
    · exact Nat.le_refl _
    · exact fun id' q hq _ => hfind id' q hq
    · intro id' q hq hid
      obtain ⟨p, hp, -⟩ := hfind id' q hq
      exact absurd (s.proposals.lt_next hp) (Nat.not_lt.mpr hid)
    · exact fun e he => .inl he
  · exact ⟨rfl, rfl, rfl⟩

end Sound

theorem Sound.refl (hs : s.Sound r) : Applied K r s s := ⟨hs, .refl s, rfl, rfl, rfl⟩

theorem Applied.remove (h : Applied K r s s') (id : ProposalId) {executed : List (Execution ω)}
    (hexecuted : ∀ e ∈ executed, e ∈ s'.executed ∨
      e.id = id ∧ e.proposal.CommitteeReviewed r ∧ e.OnTime ∧ id < s'.proposals.next ∧
        s.Succeeds K id e.proposal) :
    Applied K r s { s' with proposals := s'.proposals.remove id, executed := executed } := by
  have hfind : ∀ id' q, (s'.proposals.remove id).find id' = some q → s'.proposals.find id' = some q := by
    intro id' q hq
    rw [Index.find_remove] at hq
    split at hq
    · cases hq
    · exact hq
  constructor
  · constructor
    · exact fun id' q hq => h.sound.admitted id' q (hfind id' q hq)
    · exact fun hclearing id' q hq => h.sound.unexpired hclearing id' q (hfind id' q hq)
    · intro e he
      rcases hexecuted e he with hold | ⟨-, hreviewed, hontime, -⟩
      · exact h.sound.executed e hold
      · exact ⟨hreviewed, hontime⟩
    · intro e he
      show e.id < s'.proposals.next ∧ (s'.proposals.remove id).find e.id = none
      rw [Index.find_remove]
      rcases hexecuted e he with hold | ⟨hid, -, -, hlt, -⟩
      · obtain ⟨hlt, hnone⟩ := h.sound.gone e hold
        rw [hnone, ite_self]
        exact ⟨hlt, rfl⟩
      · rw [if_pos hid, hid]
        exact ⟨hlt, rfl⟩
  · constructor
    · exact h.keeps.headBlockTime
    · exact h.keeps.next
    · exact fun id' q hq => h.keeps.old id' q (hfind id' q hq)
    · exact fun id' q hq => h.keeps.new id' q (hfind id' q hq)
    · intro e he
      rcases hexecuted e he with hold | ⟨hid, -, -, -, hlive⟩
      · exact h.keeps.executed e hold
      · exact .inr (.inr (hid ▸ hlive))
  · exact ⟨h.sameBlock.headBlockTime, h.sameBlock.clearing, h.sameBlock.activeWitnesses⟩

end ProposalChain

end Meta1Core.Proposals
