import Meta1Core.Elections.Candidates
import Meta1Core.Elections.Elected
import Meta1Core.Lib.FlatSet

/-!
# The active witnesses and committee members (`db_maint.cpp`)

Both elections choose the top of the candidates by the totals of `vote_tally_helper`, as many as the
median of the wishes says.
-/

namespace Meta1Core.Elections

open Lib (FlatSet)
open Protocol
open Voting (Tallies)

/-- The candidates with new totals: those that `p` picks get theirs from the buffer. -/
def VotableIndex.updateTotalVotes (tally : List (BitVec 64)) (p : Votable → Bool)
    (index : VotableIndex) : VotableIndex :=
  let update (o : Votable) : Votable :=
    if p o then { o with totalVotes := UInt64.ofBitVec (votesOf tally o) } else o
  have hid : ∀ o, (update o).id = o.id := fun o => by simp only [update]; split <;> rfl
  have haccount : ∀ o, (update o).account = o.account := fun o => by
    simp only [update]; split <;> rfl
  have hvoteId : ∀ o, (update o).voteId = o.voteId := fun o => by
    simp only [update]; split <;> rfl
  { objects := index.objects.map update
    ids := by simpa [Function.comp_def, hid] using index.ids
    accounts := by simpa [Function.comp_def, haccount] using index.accounts
    voteIds := by simpa [Function.comp_def, hvoteId] using index.voteIds }

structure State (Key Addr : Type) where
  witnesses : VotableIndex
  committeeMembers : VotableIndex
  minWitnessCount : UInt16
  minCommitteeMemberCount : UInt16
  trackStandbyVotes : Bool := true
  witnessAccount : Authority Key Addr
  committeeAccount : Authority Key Addr
  relaxedCommitteeAccount : Authority Key Addr
  activeWitnesses : FlatSet Nat := ∅
  activeCommitteeMembers : List Nat := []

variable {Key Addr : Type}

def elect (histogram : List (BitVec 64)) (t : Tallies) (index : VotableIndex) (minimum : UInt16) :
    Except Exception (List Votable) := do
  let count ← electedIndex histogram t.totalVotingStake
  sortVotableObjects t.voteTally index.objects (electedCount count minimum.toNat)

def updateActiveWitnesses (t : Tallies) (s : State Key Addr) : Except Exception (State Key Addr) := do
  let wits ← elect t.witnessCountHistogram t s.witnesses s.minWitnessCount
  let witnessAccount ← countVotes (VotableIndex.ballots t.voteTally wits) s.witnessAccount
  return { s with
    witnesses := s.witnesses.updateTotalVotes t.voteTally fun o => s.trackStandbyVotes || o ∈ wits
    witnessAccount
    activeWitnesses := FlatSet.ofList (wits.map Votable.id) }

def updateActiveCommitteeMembers (t : Tallies) (s : State Key Addr) :
    Except Exception (State Key Addr) := do
  let members ← elect t.committeeCountHistogram t s.committeeMembers s.minCommitteeMemberCount
  -- the relaxed account gets the authority that the other one has now
  let (committeeAccount, relaxedCommitteeAccount) ←
    if members ≠ [] then do
      let au ← countVotes (VotableIndex.ballots t.voteTally members) s.committeeAccount
      pure (au, au)
    else pure (s.committeeAccount, s.relaxedCommitteeAccount)
  return { s with
    committeeMembers :=
      s.committeeMembers.updateTotalVotes t.voteTally fun o => s.trackStandbyVotes || o ∈ members
    committeeAccount
    relaxedCommitteeAccount
    activeCommitteeMembers := members.map Votable.id }

section Election

variable (desired : Voter → Nat) (maximum : Nat)

/-- The chosen candidates are the top of all of them, and there are `2 * k + 1` of them for the median
`k`, but no fewer than the minimum and no more than there are candidates. -/
def FollowsMedian (voters : List Voter) (tally : List (BitVec 64)) (index : VotableIndex)
    (minimum : UInt16) (chosen : List Votable) : Prop :=
  ∃ k, Median desired maximum voters k ∧
    Top tally (max (2 * k + 1) minimum.toNat) index.objects chosen

/-- There is a candidate, and if all opinions are a stake of 1 then the median asks for no more than is
chosen without an opinion. -/
def MedianInReach (voters : List Voter) (index : VotableIndex) (minimum : UInt16) : Prop :=
  index.objects ≠ [] ∧
    (opinionStake desired voters = 1 → ∀ k, Median desired maximum voters k →
      2 * k + 1 ≤ max 1 minimum.toNat ∨ index.objects.length ≤ max 1 minimum.toNat)

variable {desired maximum}

variable {tally : List (BitVec 64)} {chosen : List Votable}

theorem Top.of_size {count count' : Nat} {objects : List Votable}
    (h : Top tally count objects chosen)
    (hcount : min count objects.length = min count' objects.length) :
    Top tally count' objects chosen :=
  ⟨h.size.trans hcount, h.subset, h.ordered, h.best⟩

theorem Top.nodup_ids {count : Nat} {index : VotableIndex}
    (h : Top tally count index.objects chosen) : (chosen.map Votable.id).Nodup := by
  have hnodup : chosen.Nodup := h.ordered.imp fun hrank heq => by
    subst heq
    rcases hrank with hlt | ⟨-, hlt⟩
    · exact Nat.lt_irrefl _ hlt
    · exact Nat.lt_irrefl _ hlt
  refine hnodup.map_on fun a ha b hb heq => ?_
  exact List.inj_on_of_nodup_map index.ids (h.subset ha) (h.subset hb) heq

theorem elect_spec {voters : List Voter} (h : Electorate voters) {t : Tallies}
    (htotal : t.totalVotingStake.toNat = stakeOf (fun _ => true) voters)
    (htally : ∀ i, (t.voteTally.getD i 0).toNat < 2 ^ 63) (index : VotableIndex)
    (minimum : UInt16) :
    (index.objects = [] → elect (histogramOf desired maximum voters) t index minimum =
      .error .undefined) ∧
    (index.objects ≠ [] → ∃ count chosen,
      elect (histogramOf desired maximum voters) t index minimum = .ok chosen ∧
        count ≤ max (2 * (maximum / 2) + 1) minimum.toNat ∧
        Top t.voteTally count index.objects chosen ∧ chosen.Sublist (index.sorted t.voteTally) ∧
        chosen ≠ [] ∧ (FollowsMedian desired maximum voters t.voteTally index minimum chosen ↔
          MedianInReach desired maximum voters index minimum)) := by
  obtain ⟨c, hindex, hle, hmedian, hone⟩ := @electedIndex_spec desired maximum voters h _ htotal
  unfold elect
  rw [hindex]
  constructor
  · exact fun hnil => index.sortVotableObjects_nil _ hnil
  · intro hne
    have htop := index.top_take (fun o _ => htally _) (electedCount c minimum.toNat)
    have hpos := List.length_pos_iff.mpr hne
    refine ⟨electedCount c minimum.toNat, _, index.sortVotableObjects_eq _ hne, ?_, htop,
      List.take_sublist _ _, ?_, ?_⟩
    · unfold electedCount
      omega
    · apply List.ne_nil_of_length_pos
      rw [htop.size]
      unfold electedCount
      omega
    · constructor
      · rintro ⟨k, hk, hchosen⟩
        refine ⟨hne, fun hstake k' hk' => ?_⟩
        have hsize := htop.size.symm.trans hchosen.size
        rw [hone hstake] at hsize
        rw [hk'.eq hk]
        unfold electedCount at hsize
        omega
      · rintro ⟨-, hreach⟩
        by_cases hstake : opinionStake desired voters = 1
        · obtain ⟨k, hk⟩ := @Median.exists desired maximum voters
          refine ⟨k, hk, htop.of_size ?_⟩
          have := hreach hstake k hk
          rw [hone hstake]
          unfold electedCount
          omega
        · refine ⟨c, hmedian hstake, htop.of_size ?_⟩
          rw [electedCount, Nat.mul_comm]

end Election

variable {tally : List (BitVec 64)} {index : VotableIndex} {chosen : List Votable}

theorem FollowsMedian.of_ids {desired : Voter → Nat} {maximum : Nat} {voters : List Voter}
    {minimum : UInt16} {count : Nat} {chosen' : List Votable}
    (h : FollowsMedian desired maximum voters tally index minimum chosen)
    (h' : Top tally count index.objects chosen')
    (hids : ∀ id, id ∈ chosen.map Votable.id ↔ id ∈ chosen'.map Votable.id) :
    FollowsMedian desired maximum voters tally index minimum chosen' := by
  obtain ⟨k, hk, htop⟩ := h
  refine ⟨k, hk, h'.of_size ?_⟩
  have hperm : (chosen.map Votable.id).Perm (chosen'.map Votable.id) :=
    (List.perm_ext_iff_of_nodup htop.nodup_ids h'.nodup_ids).mpr hids
  have hlen := hperm.length_eq
  rw [List.length_map, List.length_map, htop.size, h'.size] at hlen
  exact hlen.symm

structure Counted (votes : List (AccountId × UInt64)) (before after : Authority Key Addr) : Prop where
  sound : (∃ e ∈ votes, e.2 ≠ 0) → SoundMajority votes after
  kept : (∀ e ∈ votes, e.2 = 0) → after = before

theorem countVotes_ballots {count : Nat} (h : Top tally count index.objects chosen)
    (hsub : chosen.Sublist (index.sorted tally)) (hcount : count ≤ 2 ^ 16 + 1)
    (out : Authority Key Addr) : ∃ au, countVotes (VotableIndex.ballots tally chosen) out = .ok au ∧
      Counted (VotableIndex.ballots tally chosen) out au := by
  obtain ⟨hnodup, hsorted⟩ := h.ballots hsub
  have hlen : (VotableIndex.ballots tally chosen).length ≤ 2 ^ 16 + 1 := by
    have hsize := h.size
    unfold VotableIndex.ballots
    rw [List.length_map]
    omega
  obtain ⟨au, hau, hsound, hkept⟩ := countVotes_spec hlen hnodup hsorted out
  exact ⟨au, hau, hsound, hkept⟩

section Maintenance

variable {chain : Voting.State} {voters : List Voter}

theorem maintenanceTallies_eq (chain : Voting.State) (voters : List Voter) :
    (maintenanceTallies chain voters).witnessCountHistogram =
        histogramOf (·.opinion.numWitness) chain.parameters.maximumWitnessCount voters ∧
      (maintenanceTallies chain voters).committeeCountHistogram =
        histogramOf (·.opinion.numCommittee) chain.parameters.maximumCommitteeCount voters := by
  unfold maintenanceTallies histogramOf
  rw [tallied_eq]
  simp [Tallies.start, resize_nil]

theorem totalVotingStake_eq (h : Electorate voters) :
    (maintenanceTallies chain voters).totalVotingStake.toNat = stakeOf (fun _ => true) voters := by
  have hlt := h.lt fun _ => true
  unfold maintenanceTallies
  rw [tallied_eq]
  show (voters.foldl (fun (total : BitVec 64) (v : Voter) => total + v.stake) 0).toNat = _
  rw [toNat_foldl_stake 0 (by show 0 + _ < _; omega)]
  exact Nat.zero_add _

theorem updateActiveWitnesses_spec (h : Electorate voters)
    (hmax : chain.parameters.maximumWitnessCount < 2 ^ 16) (s : State Key Addr)
    (hne : s.witnesses.objects ≠ []) :
    ∃ count chosen s', updateActiveWitnesses (maintenanceTallies chain voters) s = .ok s' ∧
      Top (maintenanceTallies chain voters).voteTally count s.witnesses.objects chosen ∧
      s'.activeWitnesses = FlatSet.ofList (chosen.map Votable.id) ∧
      Counted (VotableIndex.ballots (maintenanceTallies chain voters).voteTally chosen)
        s.witnessAccount s'.witnessAccount ∧
      (FollowsMedian (·.opinion.numWitness) chain.parameters.maximumWitnessCount voters
          (maintenanceTallies chain voters).voteTally s.witnesses s.minWitnessCount chosen ↔
        MedianInReach (·.opinion.numWitness) chain.parameters.maximumWitnessCount voters s.witnesses
          s.minWitnessCount) := by
  obtain ⟨count, chosen, helect, hcount, htop, hsub, -, hiff⟩ :=
    (@elect_spec (·.opinion.numWitness) chain.parameters.maximumWitnessCount voters h
      (maintenanceTallies chain voters) (totalVotingStake_eq h) (voteTally_lt h) s.witnesses
      s.minWitnessCount).2 hne
  rw [← (maintenanceTallies_eq chain voters).1] at helect
  have hminimum := s.minWitnessCount.toNat_lt
  obtain ⟨au, hau, hcounted⟩ := countVotes_ballots htop hsub (by omega) s.witnessAccount
  have hupdate : updateActiveWitnesses (maintenanceTallies chain voters) s = .ok { s with
      witnesses := s.witnesses.updateTotalVotes (maintenanceTallies chain voters).voteTally
        fun o => s.trackStandbyVotes || o ∈ chosen
      witnessAccount := au
      activeWitnesses := FlatSet.ofList (chosen.map Votable.id) } := by
    unfold updateActiveWitnesses
    rw [helect]
    show (countVotes _ _ >>= _) = _
    rw [hau]
    rfl
  exact ⟨count, chosen, _, hupdate, htop, rfl, hcounted, hiff⟩

theorem updateActiveCommitteeMembers_spec (h : Electorate voters)
    (hmax : chain.parameters.maximumCommitteeCount < 2 ^ 16) (s : State Key Addr)
    (hne : s.committeeMembers.objects ≠ []) :
    ∃ count chosen s', updateActiveCommitteeMembers (maintenanceTallies chain voters) s = .ok s' ∧
      Top (maintenanceTallies chain voters).voteTally count s.committeeMembers.objects chosen ∧
      s'.activeCommitteeMembers = chosen.map Votable.id ∧
      Counted (VotableIndex.ballots (maintenanceTallies chain voters).voteTally chosen)
        s.committeeAccount s'.committeeAccount ∧
      s'.relaxedCommitteeAccount = s'.committeeAccount ∧
      (FollowsMedian (·.opinion.numCommittee) chain.parameters.maximumCommitteeCount voters
          (maintenanceTallies chain voters).voteTally s.committeeMembers s.minCommitteeMemberCount
          chosen ↔
        MedianInReach (·.opinion.numCommittee) chain.parameters.maximumCommitteeCount voters
          s.committeeMembers s.minCommitteeMemberCount) := by
  obtain ⟨count, chosen, helect, hcount, htop, hsub, hsome, hiff⟩ :=
    (@elect_spec (·.opinion.numCommittee) chain.parameters.maximumCommitteeCount voters h
      (maintenanceTallies chain voters) (totalVotingStake_eq h) (voteTally_lt h) s.committeeMembers
      s.minCommitteeMemberCount).2 hne
  rw [← (maintenanceTallies_eq chain voters).2] at helect
  have hminimum := s.minCommitteeMemberCount.toNat_lt
  obtain ⟨au, hau, hcounted⟩ := countVotes_ballots htop hsub (by omega) s.committeeAccount
  have hupdate : updateActiveCommitteeMembers (maintenanceTallies chain voters) s = .ok { s with
      committeeMembers :=
        s.committeeMembers.updateTotalVotes (maintenanceTallies chain voters).voteTally
          fun o => s.trackStandbyVotes || o ∈ chosen
      committeeAccount := au
      relaxedCommitteeAccount := au
      activeCommitteeMembers := chosen.map Votable.id } := by
    unfold updateActiveCommitteeMembers
    rw [helect]
    simp only [bind, Except.bind]
    rw [if_pos hsome, hau]
    rfl
  exact ⟨count, chosen, _, hupdate, htop, rfl, hcounted, rfl, hiff⟩

def WitnessesFollow (chain : Voting.State) (voters : List Voter) (s s' : State Key Addr) : Prop :=
  ∃ chosen, FollowsMedian (·.opinion.numWitness) chain.parameters.maximumWitnessCount voters
      (maintenanceTallies chain voters).voteTally s.witnesses s.minWitnessCount chosen ∧
    s'.activeWitnesses = FlatSet.ofList (chosen.map Votable.id)

def CommitteeMembersFollow (chain : Voting.State) (voters : List Voter) (s s' : State Key Addr) :
    Prop :=
  ∃ chosen, FollowsMedian (·.opinion.numCommittee) chain.parameters.maximumCommitteeCount voters
      (maintenanceTallies chain voters).voteTally s.committeeMembers s.minCommitteeMemberCount
      chosen ∧
    s'.activeCommitteeMembers = chosen.map Votable.id

theorem witnessesFollow_iff_inReach (h : Electorate voters)
    (hmax : chain.parameters.maximumWitnessCount < 2 ^ 16) (s : State Key Addr) :
    (∃ s', updateActiveWitnesses (maintenanceTallies chain voters) s = .ok s' ∧
        WitnessesFollow chain voters s s') ↔
      MedianInReach (·.opinion.numWitness) chain.parameters.maximumWitnessCount voters s.witnesses
        s.minWitnessCount := by
  by_cases hne : s.witnesses.objects = []
  · have hfails := (@elect_spec (·.opinion.numWitness) chain.parameters.maximumWitnessCount voters h
      (maintenanceTallies chain voters) (totalVotingStake_eq h) (voteTally_lt h) s.witnesses
      s.minWitnessCount).1 hne
    rw [← (maintenanceTallies_eq chain voters).1] at hfails
    constructor
    · rintro ⟨s', hs', -⟩
      unfold updateActiveWitnesses at hs'
      rw [hfails] at hs'
      cases hs'
    · exact fun hreach => absurd hne hreach.1
  · obtain ⟨count, chosen, s', hs', htop, hactive, -, hiff⟩ := updateActiveWitnesses_spec h hmax s hne
    rw [← hiff]
    constructor
    · rintro ⟨s'', hs'', chosen', hfollows, hactive'⟩
      rw [hs'] at hs''
      cases hs''
      rw [hactive] at hactive'
      apply hfollows.of_ids htop
      intro id
      rw [← FlatSet.mem_ofList, ← hactive', FlatSet.mem_ofList]
    · exact fun hfollows => ⟨s', hs', chosen, hfollows, hactive⟩

theorem committeeMembersFollow_iff_inReach (h : Electorate voters)
    (hmax : chain.parameters.maximumCommitteeCount < 2 ^ 16) (s : State Key Addr) :
    (∃ s', updateActiveCommitteeMembers (maintenanceTallies chain voters) s = .ok s' ∧
        CommitteeMembersFollow chain voters s s') ↔
      MedianInReach (·.opinion.numCommittee) chain.parameters.maximumCommitteeCount voters
        s.committeeMembers s.minCommitteeMemberCount := by
  by_cases hne : s.committeeMembers.objects = []
  · have hfails := (@elect_spec (·.opinion.numCommittee) chain.parameters.maximumCommitteeCount voters h
      (maintenanceTallies chain voters) (totalVotingStake_eq h) (voteTally_lt h) s.committeeMembers
      s.minCommitteeMemberCount).1 hne
    rw [← (maintenanceTallies_eq chain voters).2] at hfails
    constructor
    · rintro ⟨s', hs', -⟩
      unfold updateActiveCommitteeMembers at hs'
      rw [hfails] at hs'
      cases hs'
    · exact fun hreach => absurd hne hreach.1
  · obtain ⟨count, chosen, s', hs', htop, hactive, -, -, hiff⟩ :=
      updateActiveCommitteeMembers_spec h hmax s hne
    rw [← hiff]
    constructor
    · rintro ⟨s'', hs'', chosen', hfollows, hactive'⟩
      rw [hs'] at hs''
      cases hs''
      rw [hactive] at hactive'
      apply hfollows.of_ids htop
      intro id
      rw [hactive']
    · exact fun hfollows => ⟨s', hs', chosen, hfollows, hactive⟩

/-- The elections follow the median of the wishes exactly if it is in their reach. -/
theorem elections_follow_median_iff (h : Electorate voters)
    (hwitness : chain.parameters.maximumWitnessCount < 2 ^ 16)
    (hcommittee : chain.parameters.maximumCommitteeCount < 2 ^ 16) (s : State Key Addr) :
    ((∃ s', updateActiveWitnesses (maintenanceTallies chain voters) s = .ok s' ∧
        WitnessesFollow chain voters s s') ↔
      MedianInReach (·.opinion.numWitness) chain.parameters.maximumWitnessCount voters s.witnesses
        s.minWitnessCount) ∧
    ((∃ s', updateActiveCommitteeMembers (maintenanceTallies chain voters) s = .ok s' ∧
        CommitteeMembersFollow chain voters s s') ↔
      MedianInReach (·.opinion.numCommittee) chain.parameters.maximumCommitteeCount voters
        s.committeeMembers s.minCommitteeMemberCount) :=
  ⟨witnessesFollow_iff_inReach h hwitness s, committeeMembersFollow_iff_inReach h hcommittee s⟩

end Maintenance

def candidates (type : Voting.VoteType) : VotableIndex where
  objects := [⟨0, 10, .of type 0, 0⟩, ⟨1, 11, .of type 1, 0⟩, ⟨2, 12, .of type 2, 0⟩]
  ids := by
    show [0, 1, 2].Nodup
    decide
  accounts := by
    show [10, 11, 12].Nodup
    decide
  voteIds := by cases type <;> decide

def threeCandidates : State Unit Unit where
  witnesses := candidates .witness
  committeeMembers := candidates .committee
  minWitnessCount := 1
  minCommitteeMemberCount := 1
  witnessAccount := emptyAuthority
  committeeAccount := emptyAuthority
  relaxedCommitteeAccount := emptyAuthority

def wishForThree (stake : BitVec 64) : List Voter :=
  [⟨stake, { votes := [.of .witness 2], numWitness := 3 }⟩]

def threeVoteIds : Voting.State where
  accounts := ∅
  headBlockTime := 0
  parameters := { maximumWitnessCount := 5, maximumCommitteeCount := 5 }
  ballot := { nextAvailableVoteId := 3 }
  currentSupply := 1000

theorem electorate_wishForThree {stake : BitVec 64} (h : stake.toNat ≤ 1000) :
    Electorate (wishForThree stake) := by
  constructor
  · intro v hv
    rw [List.mem_singleton.mp hv]
    exact List.nodup_singleton _
  · have hsum : stakeOf (fun _ => true) (wishForThree stake) = stake.toNat := by
      simp [stakeOf, wishForThree]
    rw [hsum]
    unfold maxShareSupply
    omega

/-- A stake of 1 is all that has expressed an opinion, which is for three witnesses, but only one is
elected. -/
theorem smallest_opinion_not_followed :
    Electorate (wishForThree 1) ∧
      Median (·.opinion.numWitness) threeVoteIds.parameters.maximumWitnessCount (wishForThree 1) 1 ∧
      (updateActiveWitnesses (maintenanceTallies threeVoteIds (wishForThree 1)) threeCandidates).map
        (·.activeWitnesses.elems) = .ok [2] ∧
      ¬∃ s', updateActiveWitnesses (maintenanceTallies threeVoteIds (wishForThree 1))
          threeCandidates = .ok s' ∧
        WitnessesFollow threeVoteIds (wishForThree 1) threeCandidates s' := by
  have hvoters : Electorate (wishForThree 1) := electorate_wishForThree (by decide)
  have hmedian : Median (·.opinion.numWitness) threeVoteIds.parameters.maximumWitnessCount
      (wishForThree 1) 1 := ⟨by decide, by decide, by decide⟩
  refine ⟨hvoters, hmedian, rfl, ?_⟩
  rw [witnessesFollow_iff_inReach hvoters (by decide)]
  intro hreach
  have := hreach.2 (by decide) 1 hmedian
  revert this
  decide

theorem elections_follow_median_of_two :
    ∃ s', updateActiveWitnesses (maintenanceTallies threeVoteIds (wishForThree 2)) threeCandidates =
        .ok s' ∧
      WitnessesFollow threeVoteIds (wishForThree 2) threeCandidates s' :=
  (elections_follow_median_iff (electorate_wishForThree (by decide)) (by decide) (by decide)
    threeCandidates).1.mpr ⟨by decide, fun hone => absurd hone (by decide)⟩

end Meta1Core.Elections
