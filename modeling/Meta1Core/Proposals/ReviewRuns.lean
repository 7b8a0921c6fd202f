import Meta1Core.Proposals.Review

/-!
# The review period over runs

A proposal with a review period is executed only when a block removes it because it has expired, and the
approvals it has then were there when the review period began, provided that no update of a transaction has
added key approvals in between.
-/

namespace Meta1Core.Proposals

open Lib (FlatSet StepsMeet Reachable of_bind Rows)
open Protocol (committeeAccount)

variable {σ ω : Type} {r : Rest σ ω} {K : Prop} {s s' : ProposalChain σ ω} {p : Proposal ω}
  {id : ProposalId}

namespace ProposalChain

/-! ## Expiration -/

theorem of_firstToExpire_eq_none (h : s.firstToExpire = none) (id : ProposalId) :
    s.proposals.find id = none := by
  cases hfind : s.proposals.find id with
  | none => rfl
  | some p =>
    have hmem : (⟨id, p⟩ : Σ _ : ProposalId, Proposal ω) ∈ s.proposals.rows.entries :=
      Rows.mem_entries_iff.mpr hfind
    rw [List.argmin_eq_none.mp h] at hmem
    cases hmem

theorem of_firstToExpire (h : s.firstToExpire = some ⟨id, p⟩) :
    s.proposals.find id = some p ∧
      ∀ id' p', s.proposals.find id' = some p' → p.expirationTime ≤ p'.expirationTime := by
  refine ⟨Rows.mem_entries_iff.mp (List.argmin_mem h), fun id' p' hp' => ?_⟩
  have hle := List.le_of_mem_argmin (Rows.mem_entries_iff.mpr hp') h
  rcases Prod.Lex.toLex_le_toLex.mp hle with hlt | ⟨heq, -⟩
  · exact hlt.le
  · exact heq.le

theorem Sound.turn (hs : s.Sound r) (hclearing : s.clearing = true) (hfind : s.proposals.find id = some p)
    (hexpired : p.expirationTime ≤ s.headBlockTime)
    (h : s.pushProposal r s.maxNesting id = .ok s' ∨ s' = { s with proposals := s.proposals.remove id }) :
    Applied K r s s' ∧ s'.proposals.find id = none := by
  rcases h with hpush | rfl
  · have hmay : s.MayExecute id := by
      intro q hq _
      rw [hfind] at hq
      cases hq
      exact ⟨hclearing, hexpired⟩
    exact ⟨pushes_pushProposal K r _ s id s' hs hmay hpush, find_of_pushProposal hpush⟩
  · refine ⟨hs.refl.remove id fun e he => .inl he, ?_⟩
    show (s.proposals.remove id).find id = none
    rw [Lib.Index.find_remove, if_pos rfl]

theorem Sound.clearExpired {fuel : Nat} (hs : s.Sound r) (hclearing : s.clearing = true)
    (h : s.clearExpired r fuel = .ok s') :
    Applied K r s s' ∧ ∀ id p, s'.proposals.find id = some p → s'.headBlockTime < p.expirationTime := by
  induction fuel generalizing s with
  | zero => cases h
  | succ fuel ih =>
    unfold ProposalChain.clearExpired at h
    split at h
    · rename_i hfirst
      cases h
      refine ⟨hs.refl, fun id p hp => ?_⟩
      rw [of_firstToExpire_eq_none hfirst id] at hp
      cases hp
    · rename_i id p hfirst
      obtain ⟨hfind, hleast⟩ := of_firstToExpire hfirst
      split at h
      · rename_i hexpired
        have hrest : ∀ s1, Applied K r s s1 → s1.clearExpired r fuel = .ok s' →
            Applied K r s s' ∧
              ∀ id p, s'.proposals.find id = some p → s'.headBlockTime < p.expirationTime := by
          intro s1 happlied h
          have hlater := ih happlied.sound (happlied.sameBlock.clearing.trans hclearing) h
          exact ⟨happlied.trans hlater.1, hlater.2⟩
        dsimp only at h
        split at h
        · split at h
          · rename_i s1 hpush
            exact hrest s1 (hs.turn hclearing hfind hexpired (.inl hpush)).1 h
          · exact hrest _ (hs.turn hclearing hfind hexpired (.inr rfl)).1 h
          · cases h
        · exact hrest _ (hs.turn hclearing hfind hexpired (.inr rfl)).1 h
      · rename_i hnot
        cases h
        refine ⟨hs.refl, fun id' p' hp' => ?_⟩
        have hle := hleast id' p' hp'
        omega

def expiredIds (s : ProposalChain σ ω) : Finset ProposalId :=
  ((s.proposals.rows.entries.filter fun e => e.2.expirationTime ≤ s.headBlockTime).map Sigma.fst).toFinset

theorem mem_expiredIds {id : ProposalId} :
    id ∈ s.expiredIds ↔ ∃ p, s.proposals.find id = some p ∧ p.expirationTime ≤ s.headBlockTime := by
  simp only [expiredIds, List.mem_toFinset, List.mem_map, List.mem_filter, decide_eq_true_eq]
  constructor
  · rintro ⟨⟨id', p⟩, ⟨he, hexpired⟩, rfl⟩
    exact ⟨p, Rows.mem_entries_iff.mp he, hexpired⟩
  · rintro ⟨p, hp, hexpired⟩
    exact ⟨⟨id, p⟩, ⟨Rows.mem_entries_iff.mpr hp, hexpired⟩, rfl⟩

theorem expiredIds_lt (happlied : Applied K r s s') (hgone : s'.proposals.find id = none)
    (hid : id ∈ s.expiredIds) : s'.expiredIds.card < s.expiredIds.card := by
  apply Finset.card_lt_card
  refine Finset.ssubset_iff_subset_ne.mpr ⟨fun id' hid' => ?_, fun heq => ?_⟩
  · obtain ⟨q, hq, hexpired⟩ := mem_expiredIds.mp hid'
    rw [happlied.sameBlock.headBlockTime] at hexpired
    by_cases hold : id' < s.proposals.next
    · obtain ⟨p, hp, hterms, -⟩ := happlied.keeps.old id' q hq hold
      rw [hterms.expirationTime] at hexpired
      exact mem_expiredIds.mpr ⟨p, hp, hexpired⟩
    · have hnew := happlied.keeps.new id' q hq (Nat.not_lt.mp hold)
      omega
  · rw [← heq] at hid
    obtain ⟨q, hq, -⟩ := mem_expiredIds.mp hid
    rw [hgone] at hq
    cases hq

theorem Sound.clearExpired_eq {fuel fuel' : Nat} (hs : s.Sound r) (hclearing : s.clearing = true)
    (hfuel : s.expiredIds.card < fuel) (hle : fuel ≤ fuel') :
    s.clearExpired r fuel' = s.clearExpired r fuel := by
  induction fuel generalizing s fuel' with
  | zero => exact absurd hfuel (Nat.not_lt_zero _)
  | succ fuel ih =>
    obtain ⟨fuel', rfl⟩ := Nat.exists_eq_succ_of_ne_zero (Nat.ne_of_gt (Nat.lt_of_lt_of_le (Nat.succ_pos _) hle))
    unfold ProposalChain.clearExpired
    split
    · rfl
    · rename_i id p hfirst
      obtain ⟨hfind, -⟩ := of_firstToExpire hfirst
      split
      · rename_i hexpired
        have hid : id ∈ s.expiredIds := mem_expiredIds.mpr ⟨p, hfind, hexpired⟩
        have hrest : ∀ s1, s.pushProposal r s.maxNesting id = .ok s1 ∨
            s1 = { s with proposals := s.proposals.remove id } →
              s1.clearExpired r fuel' = s1.clearExpired r fuel := by
          intro s1 hturn
          obtain ⟨happlied, hgone⟩ := hs.turn (K := True) hclearing hfind hexpired hturn
          apply ih happlied.sound (happlied.sameBlock.clearing.trans hclearing) _ (Nat.le_of_succ_le_succ hle)
          have hlt := expiredIds_lt happlied hgone hid
          omega
        dsimp only
        split
        · split
          · rename_i s1 hpush
            exact hrest s1 (.inl hpush)
          · exact hrest _ (.inr rfl)
          · rfl
        · exact hrest _ (.inr rfl)
      · rfl

theorem Sound.clearExpiredProposals_eq {fuel : Nat} (hs : s.Sound r) (hclearing : s.clearing = true)
    (hfuel : s.expiredIds.card < fuel) : s.clearExpired r fuel = s.clearExpiredProposals r := by
  have hcard : s.expiredIds.card ≤ s.proposals.rows.entries.length := by
    calc s.expiredIds.card
        ≤ ((s.proposals.rows.entries.filter
            fun e => e.2.expirationTime ≤ s.headBlockTime).map Sigma.fst).length := List.toFinset_card_le _
      _ = (s.proposals.rows.entries.filter fun e => e.2.expirationTime ≤ s.headBlockTime).length :=
          List.length_map _
      _ ≤ s.proposals.rows.entries.length := List.length_filter_le _ _
  have hlast := Nat.lt_succ_self s.expiredIds.card
  rw [ProposalChain.clearExpiredProposals, hs.clearExpired_eq hclearing hlast (Nat.succ_le_succ hcard),
    hs.clearExpired_eq hclearing hlast hfuel]

theorem Sound.clearExpired_error {fuel : Nat} (hs : s.Sound r) (hclearing : s.clearing = true)
    (hfuel : s.expiredIds.card < fuel) {e : Exception} (h : s.clearExpired r fuel = .error e) :
    ∃ (s1 : ProposalChain σ ω) (id : ProposalId), id ∈ s1.expiredIds ∧ s1.pushProposal r s1.maxNesting id = .error e := by
  induction fuel generalizing s with
  | zero => exact absurd hfuel (Nat.not_lt_zero _)
  | succ fuel ih =>
    unfold ProposalChain.clearExpired at h
    split at h
    · cases h
    · rename_i id p hfirst
      obtain ⟨hfind, -⟩ := of_firstToExpire hfirst
      split at h
      · rename_i hexpired
        have hid : id ∈ s.expiredIds := mem_expiredIds.mpr ⟨p, hfind, hexpired⟩
        have hrest : ∀ s1, s.pushProposal r s.maxNesting id = .ok s1 ∨
            s1 = { s with proposals := s.proposals.remove id } → s1.clearExpired r fuel = .error e →
              ∃ (s1 : ProposalChain σ ω) (id : ProposalId), id ∈ s1.expiredIds ∧ s1.pushProposal r s1.maxNesting id = .error e := by
          intro s1 hturn
          obtain ⟨happlied, hgone⟩ := hs.turn (K := True) hclearing hfind hexpired hturn
          apply ih happlied.sound (happlied.sameBlock.clearing.trans hclearing)
          have hlt := expiredIds_lt happlied hgone hid
          omega
        dsimp only at h
        split at h
        · split at h
          · rename_i s1 hpush
            exact hrest s1 (.inl hpush) h
          · exact hrest _ (.inr rfl) h
          · rename_i e' _ hpush
            cases h
            exact ⟨s, id, hid, hpush⟩
        · exact hrest _ (.inr rfl) h
      · cases h

end ProposalChain

/-! ## Executions end -/

/-- The rest of the chain returns or throws. -/
structure Rest.Ends (r : Rest σ ω) : Prop where
  prepareFee : ∀ op x, r.prepareFee op x ≠ .error .diverges
  payFee : ∀ op x, r.payFee op x ≠ .error .diverges
  adjustBalance : ∀ op x, r.adjustBalance op x ≠ .error .diverges
  applyTransfer : ∀ t o x, r.applyTransfer t o x ≠ .error .diverges
  applyOther : ∀ t o x, r.applyOther t o x ≠ .error .diverges
  checkProposed : ∀ t o x, r.checkProposed t o x ≠ .error .diverges

namespace Rest.Ends

variable (h : r.Ends)

include h

theorem evaluator {α : Type} (op : Operation ω)
    {doEvaluate : ProposalChain σ ω → Except Exception α}
    {doApply : α → ProposalChain σ ω → Except Exception (ProposalChain σ ω)}
    (hevaluate : ∀ s, doEvaluate s ≠ .error .diverges)
    (happly : ∀ a s, doApply a s ≠ .error .diverges) (s : ProposalChain σ ω) :
    s.evaluator r op doEvaluate doApply ≠ .error .diverges :=
  bind_ne_error (h.prepareFee _ _) fun _ => bind_ne_error (hevaluate s) fun _ =>
    bind_ne_error (h.payFee _ _) fun _ => bind_ne_error (happly _ _) fun _ =>
      bind_ne_error (h.adjustBalance _ _) fun _ => ok_ne_error

theorem evaluateCreate (o : ProposalCreate (Operation ω)) (s : ProposalChain σ ω) :
    s.evaluateCreate r o ≠ .error .diverges := by
  refine bind_ne_error (h.checkProposed _ _ _) fun _ => ?_
  refine bind_ne_error fcAssert_ne_diverges fun _ => bind_ne_error fcAssert_ne_diverges fun _ => ?_
  refine bind_ne_error fcAssert_ne_diverges fun _ => bind_ne_error fcAssert_ne_diverges fun _ => ?_
  split
  · split
    · exact fc_ne_diverges
    · exact fcAssert_ne_diverges
  · exact ok_ne_error

omit h in
theorem find_ne_diverges (s : ProposalChain σ ω) (id : ProposalId) :
    ProposalChain.find s id ≠ .error .diverges := by
  unfold ProposalChain.find
  split
  · exact ok_ne_error
  · exact fc_ne_diverges

theorem applyOperation
    {push : ProposalChain σ ω → ProposalId → Except Exception (ProposalChain σ ω)}
    (hpush : ∀ s id, push s id ≠ .error .diverges) (s : ProposalChain σ ω) (op : Operation ω) :
    s.applyOperation r push op ≠ .error .diverges := by
  cases op with
  | create o =>
    refine h.evaluator _ (h.evaluateCreate o) (fun _ s => ?_) s
    unfold ProposalChain.applyCreate
    dsimp only
    split
    · exact bind_ne_error fcAssert_ne_diverges fun _ => ok_ne_error
    · exact ok_ne_error
  | update o =>
    refine h.evaluator _ (fun s => ?_) (fun p s => ?_) s
    · refine bind_ne_error (find_ne_diverges s _) fun p => bind_ne_error ?_ fun _ => ok_ne_error
      exact bind_ne_error fcAssert_ne_diverges fun _ =>
        bind_ne_error fcAssert_ne_diverges fun _ => fcAssert_ne_diverges
    · unfold ProposalChain.applyUpdate
      dsimp only
      split
      · exact ok_ne_error
      split
      · split
        · exact ok_ne_error
        · exact ok_ne_error
        · rename_i e _ herror
          exact fun heq => hpush _ _ (herror.trans (congrArg Except.error (Except.error.inj heq)))
      · exact ok_ne_error
  | delete o =>
    refine h.evaluator _ (fun s => ?_) (fun _ s => ?_) s
    · exact bind_ne_error (find_ne_diverges s _) fun _ => fcAssert_ne_diverges
    · unfold ProposalChain.applyDelete
      exact ok_ne_error
  | transfer o => exact bind_ne_error (h.applyTransfer _ _ _) fun _ => ok_ne_error
  | other o => exact bind_ne_error (h.applyOther _ _ _) fun _ => ok_ne_error

theorem pushProposal (nesting : Nat) (s : ProposalChain σ ω) (id : ProposalId) :
    s.pushProposal r nesting id ≠ .error .diverges := by
  induction nesting generalizing s id with
  | zero => exact fc_ne_diverges
  | succ nesting ih =>
    have hrun : ∀ (ops : List (Operation ω)) (s : ProposalChain σ ω),
        Lib.run (ProposalChain.applyOperation r (ProposalChain.pushProposal r nesting)) s ops ≠
          .error .diverges := by
      intro ops
      induction ops with
      | nil => exact fun _ => ok_ne_error
      | cons op ops ihOps =>
        exact fun s => bind_ne_error (h.applyOperation ih s op) fun s' => ihOps s'
    unfold ProposalChain.pushProposal
    split
    · exact undefined_ne_diverges
    · refine bind_ne_error (hrun _ s) fun s' => ?_
      split
      · exact undefined_ne_diverges
      · exact ok_ne_error

end Rest.Ends

namespace ProposalChain

/-- No update of a transaction adds key approvals to a proposal in its review period. -/
def Quiet (r : Rest σ ω) (s : ProposalChain σ ω) : ProposalEvent σ ω → Prop
  | .transaction operations =>
    StepsMeet (applyOperation r (pushProposal r s.maxNesting)) (fun s op => op.KeepsKeys s) s operations
  | .nextBlock _ _ _ => True
  | .clearExpired => True

instance Quiet.decidable (r : Rest σ ω) (s : ProposalChain σ ω) :
    (event : ProposalEvent σ ω) → Decidable (s.Quiet r event)
  | .transaction operations => inferInstanceAs (Decidable
      (StepsMeet (applyOperation r (pushProposal r s.maxNesting)) (fun s op => op.KeepsKeys s) s operations))
  | .nextBlock _ _ _ => .isTrue trivial
  | .clearExpired => .isTrue trivial

theorem Initial.sound (h : s.Initial) : s.Sound r := by
  obtain ⟨hproposals, -, hexecuted⟩ := h
  constructor
  · intro id p hp
    rw [hproposals] at hp
    cases hp
  · intro _ id p hp
    rw [hproposals] at hp
    cases hp
  · intro e he
    rw [hexecuted] at he
    cases he
  · intro e he
    rw [hexecuted] at he
    cases he

theorem Sound.step (hs : s.Sound r) {event : ProposalEvent σ ω} (hquiet : K → s.Quiet r event)
    (h : s.step r event = .ok s') : s'.Sound r ∧ Keeps K s s' := by
  cases event with
  | transaction operations =>
    obtain ⟨-, h⟩ := of_fcAssert h
    have happlied : Applied K r s s' := hs.applyAll (pushes_pushProposal K r _) hquiet h
    exact ⟨happlied.sound, happlied.keeps⟩
  | nextBlock timestamp activeWitnesses rest =>
    obtain ⟨-, h⟩ := of_fcAssert h
    obtain ⟨htime, h⟩ := of_fcAssert h
    cases h
    refine ⟨⟨hs.admitted, fun hclearing => ?_, hs.executed, hs.gone⟩, .of_eq htime.le rfl rfl⟩
    cases hclearing
  | clearExpired =>
    obtain ⟨hclearing, h⟩ := of_fcAssert h
    obtain ⟨s1, hclear, h⟩ := of_bind h
    cases h
    obtain ⟨happlied, hleft⟩ := hs.clearExpired hclearing hclear (K := K)
    have hsound := happlied.sound
    exact ⟨⟨hsound.admitted, fun _ => hleft, hsound.executed, hsound.gone⟩,
      happlied.keeps.trans (.of_eq (Nat.le_refl _) rfl rfl)⟩

/-! ## Runs -/

/-- Proposals with a review period are executed when they expire, and the review period of those that need
the committee account is long enough.  Between blocks no proposal has expired. -/
structure ExecutedWhenDue (r : Rest σ ω) (s : ProposalChain σ ω) : Prop where
  onTime : ∀ e ∈ s.executed, e.OnTime
  unexpired : s.clearing = false →
    ∀ id p, s.proposals.find id = some p → s.headBlockTime < p.expirationTime
  committee : ∀ id p, s.proposals.find id = some p → p.CommitteeReviewed r
  committee' : ∀ e ∈ s.executed, e.proposal.CommitteeReviewed r

/-- A proposal in its review period gets no approvals of any kind, up to its execution. -/
def ReviewKept (s s' : ProposalChain σ ω) : Prop :=
  ∀ id p, s.proposals.find id = some p → p.InReview s.headBlockTime →
    (∀ p', s'.proposals.find id = some p' → p'.Within True p) ∧
      ∀ e ∈ s'.executed, e.id = id → e.proposal.Within True p

theorem sound_of_reachable (h : Reachable (step r) Initial (fun _ _ => True) s) : s.Sound r := by
  apply h.invariant (Sound r)
  · exact fun s hinit => hinit.sound
  · intro s event s' hs _ hstep
    exact (hs.step (K := False) (fun hfalse => hfalse.elim) hstep).1

theorem Keeps.reviewKept (h : Keeps True s s') (hs : s.Sound r) : s.ReviewKept s' := by
  intro id p hp hreview
  have hlt : id < s.proposals.next := s.proposals.lt_next hp
  have hsame : ∀ p', s.Succeeds True id p' → p'.Within True p := by
    rintro p' ⟨q, hq, -, hwithin⟩
    rw [hp] at hq
    cases hq
    exact hwithin hreview
  constructor
  · exact fun p' hp' => hsame p' (h.old id p' hp' hlt)
  · rintro e he rfl
    rcases h.executed e he with hold | hnew | hlive
    · have hnone := (hs.gone e hold).2
      rw [hp] at hnone
      cases hnone
    · exact absurd hlt (Nat.not_lt.mpr hnew)
    · exact hsame e.proposal hlive

/-- In every run the proposals are executed when they are due.  No approvals are added in the review period
if no update of a transaction adds key approvals. -/
theorem review_kept (h : Reachable (step r) Initial (fun _ _ => True) s) :
    s.ExecutedWhenDue r ∧ (Reachable (step r) (· = s) (Quiet r) s' → s.ReviewKept s') := by
  have hs : s.Sound r := sound_of_reachable h
  refine ⟨⟨fun e he => (hs.executed e he).2, hs.unexpired, fun id p hp => (hs.admitted id p hp).reviewed,
    fun e he => (hs.executed e he).1⟩, fun h' => ?_⟩
  have hboth : s'.Sound r ∧ Keeps True s s' := by
    apply h'.invariant fun s' => s'.Sound r ∧ Keeps True s s'
    · rintro s1 rfl
      exact ⟨hs, .refl s1⟩
    · rintro s1 event s2 ⟨hs1, hkeeps⟩ hquiet hstep
      obtain ⟨hs2, hkeeps'⟩ := hs1.step (fun _ => hquiet) hstep
      exact ⟨hs2, hkeeps.trans hkeeps'⟩
  exact hboth.2.reviewKept hs

/-- The removal of the expired proposals takes at most one turn for each of them, even if they
execute others or create new ones, so that it ends as long as the other evaluators do.  It leaves
none that has expired, and the others with their terms. -/
theorem clearExpiredProposals_ends (h : Reachable (step r) Initial (fun _ _ => True) s)
    (hclearing : s.clearing = true) {fuel : Nat} (hfuel : s.expiredIds.card < fuel) :
    s.clearExpired r fuel = s.clearExpiredProposals r ∧
      (r.Ends → s.clearExpired r fuel ≠ .error .diverges) ∧
      (∀ e, s.clearExpired r fuel = .error e →
        ∃ (s1 : ProposalChain σ ω) (id : ProposalId), id ∈ s1.expiredIds ∧ s1.pushProposal r s1.maxNesting id = .error e) ∧
      ∀ s', s.clearExpired r fuel = .ok s' →
        (∀ id p', s'.proposals.find id = some p' → s'.headBlockTime < p'.expirationTime ∧
          (id < s.proposals.next → ∃ p, s.proposals.find id = some p ∧ p'.SameTerms p)) ∧
        ∀ e ∈ s'.executed, e ∈ s.executed ∨ s.proposals.next ≤ e.id ∨
          ∃ p, s.proposals.find e.id = some p ∧ e.proposal.SameTerms p := by
  have hs := sound_of_reachable h
  refine ⟨hs.clearExpiredProposals_eq hclearing hfuel, fun hends hdiverges => ?_,
    fun e => hs.clearExpired_error hclearing hfuel, fun s' hclear => ?_⟩
  · -- the loop itself has fuel enough, and an execution ends by the bound on the nesting
    obtain ⟨s1, id, -, hpush⟩ := hs.clearExpired_error hclearing hfuel hdiverges
    exact hends.pushProposal _ s1 id hpush
  obtain ⟨happlied, hleft⟩ := hs.clearExpired (K := True) hclearing hclear
  constructor
  · intro id p' hp'
    refine ⟨hleft id p' hp', fun hid => ?_⟩
    obtain ⟨p, hp, hterms, -⟩ := happlied.keeps.old id p' hp' hid
    exact ⟨p, hp, hterms⟩
  · intro e he
    apply (happlied.keeps.executed e he).imp_right (Or.imp_right _)
    rintro ⟨p, hp, hterms, -⟩
    exact ⟨p, hp, hterms⟩

def oneAccount : Rest Unit Unit where
  prepareFee _ _ := .ok ()
  payFee _ _ := .ok ()
  adjustBalance _ _ := .ok ()
  applyTransfer _ _ _ := .ok ()
  applyOther _ _ _ := .ok ()
  requiredAuthorities _ := { active := FlatSet.ofList [1] }
  checkProposed _ _ _ := .ok ()
  isAuthorizedToExecute _ p _ := 1 ∈ p.availableActiveApprovals ∨ 5 ∈ p.availableKeyApprovals
  committeeProposalReviewPeriod _ := 10
  maximumProposalLifetime _ := 1000

def genesis : ProposalChain Unit Unit := { headBlockTime := 1600000000, activeWitnesses := 11, rest := () }

theorem genesis_initial : genesis.Initial := ⟨rfl, rfl, rfl⟩

def reviewedProposal : Operation Unit :=
  .create {
    feePayingAccount := 1
    proposedOps := [.other ()]
    expirationTime := 1600000100
    reviewPeriodSeconds := some 50 }

def approvedEvents : List (ProposalEvent Unit Unit) :=
  [.transaction [reviewedProposal],
    .transaction [.update { feePayingAccount := 1, proposal := 0, activeApprovalsToAdd := FlatSet.ofList [1] }],
    .nextBlock 1600000060 11 (), .clearExpired]

def expiringEvents : List (ProposalEvent Unit Unit) := [.nextBlock 1600000105 11 (), .clearExpired]

theorem review_kept_approved : ∃ s s' : ProposalChain Unit Unit,
    s.ExecutedWhenDue oneAccount ∧ s.ReviewKept s' ∧ s'.executed.map Execution.id = [0] := by
  have hrun : ∃ s, Reachable (step oneAccount) Initial (fun _ _ => True) s ∧
      (StepsMeet (step oneAccount) (Quiet oneAccount) s expiringEvents ∧
        Lib.Succeeds (Lib.run (step oneAccount) s expiringEvents) fun s' =>
          s'.executed.map Execution.id = [0]) := by
    apply Reachable.of_run approvedEvents genesis_initial
    · exact StepsMeet.of_forall (fun _ _ _ => trivial) genesis
    · decide +kernel
  obtain ⟨s, hreach, hquiet, hend⟩ := hrun
  obtain ⟨s', hreach', hexecuted⟩ := (Reachable.of_run expiringEvents rfl hquiet hend :
    ∃ s', Reachable (step oneAccount) (· = s) (Quiet oneAccount) s' ∧ s'.executed.map Execution.id = [0])
  obtain ⟨hdue, hkept⟩ := review_kept hreach
  exact ⟨s, s', hdue, hkept hreach', hexecuted⟩

theorem oneAccount_ends : oneAccount.Ends where
  prepareFee _ _ := nofun
  payFee _ _ := nofun
  adjustBalance _ _ := nofun
  applyTransfer _ _ _ := nofun
  applyOther _ _ _ := nofun
  checkProposed _ _ _ := nofun

def expiredEvents : List (ProposalEvent Unit Unit) :=
  [.transaction [reviewedProposal, reviewedProposal],
    .transaction [.update { feePayingAccount := 1, proposal := 0, activeApprovalsToAdd := FlatSet.ofList [1] }],
    .nextBlock 1600000105 11 ()]

/-- Two proposals have expired, and one of them is executed. -/
theorem clearExpiredProposals_ends_approved : ∃ s s' : ProposalChain Unit Unit,
    s.clearExpired oneAccount 3 = s.clearExpiredProposals oneAccount ∧
      s.clearExpired oneAccount 3 ≠ .error .diverges ∧ s.clearExpiredProposals oneAccount = .ok s' ∧
      s.expiredIds.card = 2 ∧ s'.expiredIds = ∅ ∧ s'.executed.map Execution.id = [0] := by
  have hrun : ∃ s, Reachable (step oneAccount) Initial (fun _ _ => True) s ∧ s.clearing = true ∧
      s.expiredIds.card = 2 ∧ Lib.Succeeds (s.clearExpired oneAccount 3) fun s' =>
        s'.expiredIds = ∅ ∧ s'.executed.map Execution.id = [0] := by
    apply Reachable.of_run expiredEvents genesis_initial
    · exact StepsMeet.of_forall (fun _ _ _ => trivial) genesis
    · decide +kernel
  obtain ⟨s, hreach, hclearing, hcard, s', hclear, hnone, hexecuted⟩ := hrun
  have hends := clearExpiredProposals_ends hreach hclearing (by omega : s.expiredIds.card < 3)
  exact ⟨s, s', hends.1, hends.2.1 oneAccount_ends, hends.1 ▸ hclear, hcard, hnone, hexecuted⟩

def openEvents : List (ProposalEvent Unit Unit) :=
  [.transaction [reviewedProposal], .nextBlock 1600000060 11 (), .clearExpired]

def lateEvents : List (ProposalEvent Unit Unit) :=
  [.transaction [.update { feePayingAccount := 1, proposal := 0, keyApprovalsToAdd := FlatSet.ofList [5] }],
    .nextBlock 1600000105 11 (), .clearExpired]

/-- The proposal is executed with an approval that was not there when the review period began. -/
theorem review_not_kept : ¬∀ s s' : ProposalChain Unit Unit,
    Reachable (step oneAccount) Initial (fun _ _ => True) s →
      Reachable (step oneAccount) (· = s) (fun _ _ => True) s' → s.ReviewKept s' := by
  intro hall
  have hrun : ∃ s, Reachable (step oneAccount) Initial (fun _ _ => True) s ∧
      Lib.Succeeds (Lib.run (step oneAccount) s lateEvents) fun s' =>
        ∃ p ∈ s.proposals.find 0, p.InReview s.headBlockTime ∧ 5 ∉ p.availableKeyApprovals ∧
          ∃ e ∈ s'.executed, e.id = 0 ∧ 5 ∈ e.proposal.availableKeyApprovals := by
    apply Reachable.of_run openEvents genesis_initial
    · exact StepsMeet.of_forall (fun _ _ _ => trivial) genesis
    · decide +kernel
  obtain ⟨s, hreach, hend⟩ := hrun
  have hlate : StepsMeet (step oneAccount) (fun _ _ => True) s lateEvents :=
    StepsMeet.of_forall (fun _ _ _ => trivial) s
  have hrun' : ∃ s', Reachable (step oneAccount) (· = s) (fun _ _ => True) s' ∧
      ∃ p ∈ s.proposals.find 0, p.InReview s.headBlockTime ∧ 5 ∉ p.availableKeyApprovals ∧
        ∃ e ∈ s'.executed, e.id = 0 ∧ 5 ∈ e.proposal.availableKeyApprovals :=
    Reachable.of_run lateEvents rfl hlate hend
  obtain ⟨s', hreach', p, hp, hreview, hnot, e, he, hid, hkey⟩ := hrun'
  exact hnot (((hall s s' hreach hreach' 0 p hp hreview).2 e he hid).keys trivial 5 hkey)

end ProposalChain

end Meta1Core.Proposals
