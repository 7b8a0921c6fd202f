import Meta1Core.Accounts.Mirrored
import Meta1Core.Elections.Active

/-!
# The authorities of top holders (`db_maint.cpp`)

`update_top_n_authorities` makes the authority of an account from those who hold most of an asset.
-/

namespace Meta1Core.Elections

open Accounts (AccountAuthorities Chain Listed SpecialAuthority SpecialAuthorityObject Unique)
open Lib Protocol

structure AccountBalance where
  owner : AccountId
  assetType : AssetId
  balance : Int
  deriving DecidableEq

structure BalanceIndex where
  objects : List AccountBalance
  unique : (objects.map fun b => (b.assetType, b.owner)).Nodup
  range : ∀ b ∈ objects, 0 ≤ b.balance ∧ b.balance < 2 ^ 63

def byBalance (a b : AccountBalance) : Prop :=
  b.balance < a.balance ∨ b.balance = a.balance ∧ a.owner ≤ b.owner

instance (a b : AccountBalance) : Decidable (byBalance a b) := by
  unfold byBalance
  infer_instance

/-- `equal_range( boost::make_tuple( asset ) )` -/
def BalanceIndex.holders (index : BalanceIndex) (asset : AssetId) : List AccountBalance :=
  (index.objects.filter (·.assetType = asset)).insertionSort byBalance

section Visitor

variable {Key Addr : Type}

def addHolders (acct : AccountId) :
    (holders : List AccountBalance) → (numNeeded : Nat) → VoteCounter Key Addr →
      Except Exception (VoteCounter Key Addr)
  | [], _, vc => return vc
  | bal :: holders, numNeeded, vc =>
    if bal.owner = acct then addHolders acct holders numNeeded vc
    else do
      let vc ← vc.add bal.owner (UInt64.ofInt bal.balance)
      if numNeeded - 1 = 0 then return vc
      addHolders acct holders (numNeeded - 1) vc

def authorityOf (isOwner : Bool) (a : AccountAuthorities Key Addr) : Authority Key Addr :=
  if isOwner then a.owner else a.active

/-- `top_n_control_owner` and `top_n_control_active` -/
def topNControl (isOwner : Bool) : UInt8 := if isOwner then 1 else 2

def controlled (isOwner : Bool) (au : Authority Key Addr) (isEmpty : Bool)
    (a : AccountAuthorities Key Addr) : AccountAuthorities Key Addr :=
  let a := if isOwner then { a with owner := au } else { a with active := au }
  if isEmpty then a
  else { a with topNControlFlags := a.topNControlFlags ||| topNControl isOwner }

def visitTopN (balances : BalanceIndex) (acct : AccountId) (isOwner : Bool) (auth : SpecialAuthority)
    (s : Chain Key Addr) : Except Exception (Chain Key Addr) :=
  match auth with
  | .noSpecialAuthority => return s
  | .topHoldersSpecialAuthority asset numTopHolders =>
    if numTopHolders = 0 then return s
    else do
      let vc ← addHolders acct (balances.holders asset) numTopHolders.toNat {}
      let a := s.authorities acct
      let au ← vc.finish (authorityOf isOwner a)
      return { s with
        authorities := Function.update s.authorities acct (controlled isOwner au vc.isEmpty a) }

def visitAccount (balances : BalanceIndex) (s : Chain Key Addr) (acct : AccountId) :
    Except Exception (Chain Key Addr) := do
  let _ ← s.voting.account acct
  let s ← visitTopN balances acct true (s.authorities acct).ownerSpecialAuthority s
  visitTopN balances acct false (s.authorities acct).activeSpecialAuthority s

def listedObjects (t : Index SpecialAuthorityObject) : List SpecialAuthorityObject :=
  (List.range t.next).filterMap t.find

def updateTopNAuthorities (balances : BalanceIndex) (s : Chain Key Addr) :
    Except Exception (Chain Key Addr) :=
  (listedObjects s.specialAuthorities).foldlM (fun s sao => visitAccount balances s sao.account) s

end Visitor

/-! ## The votes of the holders -/

def BalanceIndex.topVotes (index : BalanceIndex) (acct : AccountId) (asset : AssetId) (n : Nat) :
    List (AccountId × UInt64) :=
  (((index.holders asset).filter (·.owner ≠ acct)).take n).map fun bal =>
    (bal.owner, UInt64.ofInt bal.balance)

variable {Key Addr : Type}

theorem addHolders_eq (acct : AccountId) (holders : List AccountBalance) :
    ∀ (n : Nat) (vc : VoteCounter Key Addr), 0 < n →
      addHolders acct holders n vc =
        vc.addAll (((holders.filter (·.owner ≠ acct)).take n).map fun bal =>
          (bal.owner, UInt64.ofInt bal.balance)) := by
  induction holders with
  | nil =>
    intro n vc _
    rw [List.filter_nil, List.take_nil]
    rfl
  | cons bal holders ih =>
    intro n vc hpos
    rw [addHolders, List.filter_cons]
    by_cases howner : bal.owner = acct
    · rw [if_pos howner, if_neg (by simpa using howner)]
      exact ih n vc hpos
    · obtain ⟨m, rfl⟩ : ∃ m, n = m + 1 := ⟨n - 1, by omega⟩
      rw [if_neg howner, if_pos (by simpa using howner), List.take_succ_cons, List.map_cons,
        VoteCounter.addAll_cons]
      congr 1
      funext vc
      rw [Nat.add_sub_cancel]
      by_cases hm : m = 0
      · rw [if_pos hm, hm]
        rfl
      · rw [if_neg hm]
        exact ih m vc (by omega)

theorem toNat_ofInt {x : Int} (h : 0 ≤ x) (hlt : x < 2 ^ 63) : (UInt64.ofInt x).toNat = x.toNat := by
  rw [UInt64.ofInt]
  simp only [UInt64.toNat_ofNat']
  omega

namespace BalanceIndex

variable (index : BalanceIndex)

theorem mem_holders {asset : AssetId} {b : AccountBalance} :
    b ∈ index.holders asset ↔ b ∈ index.objects ∧ b.assetType = asset := by
  unfold holders
  rw [List.mem_insertionSort, List.mem_filter, decide_eq_true_eq]

theorem nodup_owners (asset : AssetId) : ((index.holders asset).map (·.owner)).Nodup := by
  apply ((List.perm_insertionSort byBalance _).map _).nodup_iff.mpr
  have hnodup : (index.objects.filter (·.assetType = asset)).Pairwise fun a b =>
      (a.assetType, a.owner) ≠ (b.assetType, b.owner) :=
    (List.pairwise_map.mp index.unique).filter _
  apply List.pairwise_map.mpr
  refine hnodup.imp_of_mem fun ha hb hne howner => hne ?_
  rw [List.mem_filter, decide_eq_true_eq] at ha hb
  rw [ha.2, hb.2, howner]

theorem pairwise_holders (asset : AssetId) : (index.holders asset).Pairwise byBalance := by
  have htotal : Std.Total byBalance := by
    constructor
    intro a b
    rcases Int.lt_trichotomy a.balance b.balance with hlt | heq | hlt
    · exact Or.inr (Or.inl hlt)
    · rcases Nat.le_total a.owner b.owner with hle | hle
      · exact Or.inl (Or.inr ⟨heq.symm, hle⟩)
      · exact Or.inr (Or.inr ⟨heq, hle⟩)
    · exact Or.inl (Or.inl hlt)
  have htrans : IsTrans AccountBalance byBalance := by
    constructor
    rintro a b c (hab | ⟨hab, howner⟩) (hbc | ⟨hbc, howner'⟩)
    · exact Or.inl (Int.lt_trans hbc hab)
    · exact Or.inl (hbc ▸ hab)
    · exact Or.inl (hab ▸ hbc)
    · exact Or.inr ⟨hbc.trans hab, Nat.le_trans howner howner'⟩
  exact List.pairwise_insertionSort byBalance _

theorem topVotes_sound (acct : AccountId) (asset : AssetId) (n : Nat) :
    ((index.topVotes acct asset n).map Prod.fst).Nodup ∧
      (index.topVotes acct asset n).Pairwise fun a b => b.2 ≤ a.2 := by
  have hsub : (((index.holders asset).filter (·.owner ≠ acct)).take n).Sublist
      (index.holders asset) := (List.take_sublist n _).trans List.filter_sublist
  unfold topVotes
  constructor
  · rw [List.map_map]
    exact (hsub.map _).nodup (index.nodup_owners asset)
  · rw [List.pairwise_map]
    refine ((index.pairwise_holders asset).sublist hsub).imp_of_mem fun {a b} ha hb hle => ?_
    have hra := index.range a (index.mem_holders.mp (hsub.subset ha)).1
    have hrb := index.range b (index.mem_holders.mp (hsub.subset hb)).1
    rw [UInt64.le_iff_toNat_le, toNat_ofInt hra.1 hra.2, toNat_ofInt hrb.1 hrb.2]
    rcases hle with hlt | ⟨heq, -⟩
    · omega
    · rw [heq]

end BalanceIndex

structure OnlyAuthority (isOwner : Bool) (a a' : AccountAuthorities Key Addr) : Prop where
  other : authorityOf (!isOwner) a' = authorityOf (!isOwner) a
  ownerSpecialAuthority : a'.ownerSpecialAuthority = a.ownerSpecialAuthority
  activeSpecialAuthority : a'.activeSpecialAuthority = a.activeSpecialAuthority

def Visited (balances : BalanceIndex) (acct : AccountId) (auth : SpecialAuthority)
    (before after : Authority Key Addr) : Prop :=
  match auth with
  | .noSpecialAuthority => after = before
  | .topHoldersSpecialAuthority asset numTopHolders =>
    Counted (balances.topVotes acct asset numTopHolders.toNat) before after

theorem authorityOf_controlled (isOwner : Bool) (au : Authority Key Addr) (isEmpty : Bool)
    (a : AccountAuthorities Key Addr) : authorityOf isOwner (controlled isOwner au isEmpty a) = au := by
  cases isOwner <;> cases isEmpty <;> rfl

theorem onlyAuthority_controlled (isOwner : Bool) (au : Authority Key Addr) (isEmpty : Bool)
    (a : AccountAuthorities Key Addr) : OnlyAuthority isOwner a (controlled isOwner au isEmpty a) := by
  constructor <;> cases isOwner <;> cases isEmpty <;> rfl

theorem visitTopN_spec (balances : BalanceIndex) (acct : AccountId) (isOwner : Bool)
    (auth : SpecialAuthority) (s : Chain Key Addr) :
    ∃ a, visitTopN balances acct isOwner auth s =
        .ok { s with authorities := Function.update s.authorities acct a } ∧
      OnlyAuthority isOwner (s.authorities acct) a ∧
      Visited balances acct auth (authorityOf isOwner (s.authorities acct)) (authorityOf isOwner a) := by
  cases auth with
  | noSpecialAuthority =>
    refine ⟨s.authorities acct, ?_, ⟨rfl, rfl, rfl⟩, rfl⟩
    rw [Function.update_eq_self]
    rfl
  | topHoldersSpecialAuthority asset numTopHolders =>
    obtain ⟨hnodup, hsorted⟩ := balances.topVotes_sound acct asset numTopHolders.toNat
    have hlen : (balances.topVotes acct asset numTopHolders.toNat).length ≤ 2 ^ 16 + 1 := by
      have hlt := numTopHolders.toNat_lt
      unfold BalanceIndex.topVotes
      rw [List.length_map, List.length_take]
      omega
    obtain ⟨au, hau, hsome, hnone⟩ := @countVotes_spec Key Addr _ hlen hnodup hsorted
      (authorityOf isOwner (s.authorities acct))
    rw [visitTopN]
    by_cases hzero : numTopHolders = 0
    · refine ⟨s.authorities acct, ?_, ⟨rfl, rfl, rfl⟩, ?_⟩
      · rw [if_pos hzero, Function.update_eq_self]
        rfl
      · rw [hzero]
        exact ⟨fun ⟨e, he, _⟩ => absurd he List.not_mem_nil, fun _ => rfl⟩
    · have hpos : 0 < numTopHolders.toNat := by
        rw [Nat.pos_iff_ne_zero]
        exact fun heq => hzero (UInt8.toNat_inj.mp heq)
      obtain ⟨vc, hvc, hfinish⟩ := of_bind hau
      have hloop : addHolders acct (balances.holders asset) numTopHolders.toNat {} = .ok vc :=
        (addHolders_eq acct _ _ _ hpos).trans hvc
      refine ⟨controlled isOwner au vc.isEmpty (s.authorities acct), ?_,
        onlyAuthority_controlled _ _ _ _, ?_⟩
      · rw [if_neg hzero, hloop]
        show (vc.finish _ >>= _) = _
        rw [hfinish]
        rfl
      · rw [authorityOf_controlled]
        exact ⟨hsome, hnone⟩

structure BothVisited (balances : BalanceIndex) (acct : AccountId) (a a' : AccountAuthorities Key Addr) :
    Prop where
  owner : Visited balances acct a.ownerSpecialAuthority a.owner a'.owner
  active : Visited balances acct a.activeSpecialAuthority a.active a'.active
  ownerSpecialAuthority : a'.ownerSpecialAuthority = a.ownerSpecialAuthority
  activeSpecialAuthority : a'.activeSpecialAuthority = a.activeSpecialAuthority

variable {s : Chain Key Addr}

theorem visitAccount_spec (balances : BalanceIndex) {acct : AccountId}
    (h : (s.voting.accounts.find acct).isSome) : ∃ a, visitAccount balances s acct =
        .ok { s with authorities := Function.update s.authorities acct a } ∧
      BothVisited balances acct (s.authorities acct) a := by
  obtain ⟨object, hobject⟩ := Option.isSome_iff_exists.mp h
  obtain ⟨a, ha, honly, hvisited⟩ := visitTopN_spec balances acct true
    (s.authorities acct).ownerSpecialAuthority s
  obtain ⟨a', ha', honly', hvisited'⟩ := visitTopN_spec balances acct false
    (s.authorities acct).activeSpecialAuthority
    { s with authorities := Function.update s.authorities acct a }
  simp only [Function.update_self, Function.update_idem] at ha' honly' hvisited'
  have hactive : a.active = (s.authorities acct).active := honly.other
  have howner : a'.owner = a.owner := honly'.other
  refine ⟨a', ?_, ?_, ?_, ?_, ?_⟩
  · unfold visitAccount Voting.State.account
    rw [hobject]
    show (visitTopN _ _ _ _ _ >>= _) = _
    rw [ha]
    simp only [bind, Except.bind, Function.update_self]
    rw [honly.activeSpecialAuthority, ha']
  · rw [howner]
    exact hvisited
  · rw [← hactive]
    exact hvisited'
  · exact honly'.ownerSpecialAuthority.trans honly.ownerSpecialAuthority
  · exact honly'.activeSpecialAuthority.trans honly.activeSpecialAuthority

theorem visitAccounts_spec (balances : BalanceIndex) : ∀ {objects : List SpecialAuthorityObject}
    {s : Chain Key Addr}, (objects.map (·.account)).Nodup →
      (∀ sao ∈ objects, (s.voting.accounts.find sao.account).isSome) →
      ∃ authorities, objects.foldlM (fun s sao => visitAccount balances s sao.account) s =
          .ok { s with authorities } ∧
        (∀ sao ∈ objects, BothVisited balances sao.account (s.authorities sao.account)
          (authorities sao.account)) ∧
        ∀ acct, acct ∉ objects.map (·.account) → authorities acct = s.authorities acct
  | [], s, _, _ => ⟨s.authorities, rfl, fun _ h => absurd h List.not_mem_nil, fun _ _ => rfl⟩
  | sao :: objects, s, hnodup, hlive => by
    obtain ⟨hnot, hnodup'⟩ := List.nodup_cons.mp hnodup
    obtain ⟨a, ha, hvisited⟩ := visitAccount_spec balances (hlive sao List.mem_cons_self)
    obtain ⟨authorities, hrest, hall, hothers⟩ := @visitAccounts_spec balances objects
      { s with authorities := Function.update s.authorities sao.account a } hnodup'
      fun sao' h => hlive sao' (List.mem_cons_of_mem _ h)
    refine ⟨authorities, ?_, ?_, ?_⟩
    · rw [List.foldlM_cons, ha]
      exact hrest
    · intro sao' hmem
      rcases List.mem_cons.mp hmem with rfl | hmem
      · rw [hothers _ hnot]
        simpa only [Function.update_self] using hvisited
      · have hne : sao'.account ≠ sao.account := by
          intro heq
          apply hnot
          exact List.mem_map.mpr ⟨sao', hmem, heq⟩
        simpa only [Function.update_of_ne hne] using hall sao' hmem
    · intro acct hacct
      rw [List.map_cons, List.mem_cons, not_or] at hacct
      rw [hothers acct hacct.2]
      exact Function.update_of_ne hacct.1 _ _

variable {t : Index SpecialAuthorityObject}

theorem mem_listedObjects {sao : SpecialAuthorityObject} :
    sao ∈ listedObjects t ↔ Listed t sao.account := by
  unfold listedObjects Listed
  rw [List.mem_filterMap]
  constructor
  · exact fun ⟨id, _, hfind⟩ => ⟨id, hfind⟩
  · exact fun ⟨id, hfind⟩ => ⟨id, List.mem_range.mpr (Index.lt_next hfind), hfind⟩

theorem nodup_listedObjects (h : Unique t) : ((listedObjects t).map (·.account)).Nodup := by
  have hinj : ∀ a b : SpecialAuthorityObject, a.account = b.account → a = b := by
    rintro ⟨a⟩ ⟨b⟩ rfl
    rfl
  apply List.Nodup.map (fun a b => hinj a b)
  apply List.Nodup.filterMap _ List.nodup_range
  intro id id' sao hfind hfind'
  exact h id id' sao hfind hfind'

theorem updateTopNAuthorities_spec (balances : BalanceIndex) (hunique : Unique s.specialAuthorities)
    (hlive : ∀ acct, Listed s.specialAuthorities acct → (s.voting.accounts.find acct).isSome) :
    ∃ authorities, updateTopNAuthorities balances s = .ok { s with authorities } ∧
      (∀ acct, Listed s.specialAuthorities acct →
        BothVisited balances acct (s.authorities acct) (authorities acct)) ∧
      ∀ acct, ¬Listed s.specialAuthorities acct → authorities acct = s.authorities acct := by
  obtain ⟨authorities, hrun, hall, hothers⟩ := @visitAccounts_spec Key Addr balances
    (listedObjects s.specialAuthorities) s (nodup_listedObjects hunique)
    fun sao hsao => hlive _ (mem_listedObjects.mp hsao)
  refine ⟨authorities, hrun, fun acct hacct => ?_, fun acct hacct => ?_⟩
  · exact hall ⟨acct⟩ (mem_listedObjects.mpr hacct)
  · apply hothers
    intro hmem
    obtain ⟨sao, hsao, heq⟩ := List.mem_map.mp hmem
    exact hacct (heq ▸ mem_listedObjects.mp hsao)

/-- Votes in descending order of different accounts are counted to a sound majority; those of
witnesses, committee members and top holders come so. -/
theorem vote_counter_sound :
    (∀ (votes : List (AccountId × UInt64)) (out : Authority Key Addr), votes.length ≤ 2 ^ 16 + 1 →
      (votes.map Prod.fst).Nodup → votes.Pairwise (fun a b => b.2 ≤ a.2) →
        ∃ au, countVotes votes out = .ok au ∧ Counted votes out au) ∧
    (∀ (chain : Voting.State) (voters : List Voter) (s : State Key Addr), Electorate voters →
      chain.parameters.maximumWitnessCount < 2 ^ 16 → s.witnesses.objects ≠ [] →
        ∃ count chosen s', updateActiveWitnesses (maintenanceTallies chain voters) s = .ok s' ∧
          Top (maintenanceTallies chain voters).voteTally count s.witnesses.objects chosen ∧
          Counted (VotableIndex.ballots (maintenanceTallies chain voters).voteTally chosen)
            s.witnessAccount s'.witnessAccount) ∧
    (∀ (chain : Voting.State) (voters : List Voter) (s : State Key Addr), Electorate voters →
      chain.parameters.maximumCommitteeCount < 2 ^ 16 → s.committeeMembers.objects ≠ [] →
        ∃ count chosen s', updateActiveCommitteeMembers (maintenanceTallies chain voters) s = .ok s' ∧
          Top (maintenanceTallies chain voters).voteTally count s.committeeMembers.objects chosen ∧
          Counted (VotableIndex.ballots (maintenanceTallies chain voters).voteTally chosen)
            s.committeeAccount s'.committeeAccount ∧
          s'.relaxedCommitteeAccount = s'.committeeAccount) ∧
    (∀ (balances : BalanceIndex) (s : Chain Key Addr), Unique s.specialAuthorities →
      (∀ acct, Listed s.specialAuthorities acct → (s.voting.accounts.find acct).isSome) →
        ∃ authorities, updateTopNAuthorities balances s = .ok { s with authorities } ∧
          ∀ acct, Listed s.specialAuthorities acct →
            BothVisited balances acct (s.authorities acct) (authorities acct)) := by
  refine ⟨?_, ?_, ?_, ?_⟩
  · intro votes out hlen hnodup hsorted
    obtain ⟨au, hau, hsound, hkept⟩ := countVotes_spec hlen hnodup hsorted out
    exact ⟨au, hau, hsound, hkept⟩
  · intro chain voters s h hmax hne
    obtain ⟨count, chosen, s', hs', htop, -, hcounted, -⟩ := updateActiveWitnesses_spec h hmax s hne
    exact ⟨count, chosen, s', hs', htop, hcounted⟩
  · intro chain voters s h hmax hne
    obtain ⟨count, chosen, s', hs', htop, -, hcounted, hrelaxed, -⟩ :=
      updateActiveCommitteeMembers_spec h hmax s hne
    exact ⟨count, chosen, s', hs', htop, hcounted, hrelaxed⟩
  · intro balances s hunique hlive
    obtain ⟨authorities, hrun, hall, -⟩ := updateTopNAuthorities_spec balances hunique hlive
    exact ⟨authorities, hrun, hall⟩

def twoHolders : BalanceIndex where
  objects := [⟨3, 1, 40⟩, ⟨4, 1, 60⟩]
  unique := by decide
  range := by decide

def controlledChain : Chain Nat Nat where
  voting := Voting.genesis 1000 0 1600000000 {}
  authorities _ := {
    owner := emptyAuthority
    active := emptyAuthority
    activeSpecialAuthority := .topHoldersSpecialAuthority 1 2 }
  properties := Accounts.freshChain.properties
  specialAuthorities := Index.create ∅ ⟨0⟩

theorem vote_counter_sound_examples :
    (∃ au : Authority Unit Unit, countVotes [(7, 1000000), (9, 2)] emptyAuthority = .ok au ∧
      SoundMajority [(7, 1000000), (9, 2)] au) ∧
    (∃ s', updateActiveWitnesses (maintenanceTallies threeVoteIds (wishForThree 2)) threeCandidates =
      .ok s') ∧
    (∃ s', updateActiveCommitteeMembers (maintenanceTallies threeVoteIds (wishForThree 2))
      threeCandidates = .ok s') ∧
    ∃ authorities, updateTopNAuthorities twoHolders controlledChain =
        .ok { controlledChain with authorities } ∧
      SoundMajority (twoHolders.topVotes 0 1 2) (authorities 0).active := by
  obtain ⟨hvotes, hwitnesses, hcommittee, -⟩ := @vote_counter_sound Unit Unit
  obtain ⟨-, -, -, hholders⟩ := @vote_counter_sound Nat Nat
  have hvoters : Electorate (wishForThree 2) := electorate_wishForThree (by decide)
  refine ⟨?_, ?_, ?_, ?_⟩
  · obtain ⟨au, hau, hcounted⟩ := hvotes [(7, 1000000), (9, 2)] emptyAuthority (by decide) (by decide)
      (by decide)
    exact ⟨au, hau, hcounted.sound ⟨(7, 1000000), by decide, by decide⟩⟩
  · obtain ⟨_, _, s', hs', -⟩ := hwitnesses threeVoteIds _ threeCandidates hvoters (by decide)
      (by decide)
    exact ⟨s', hs'⟩
  · obtain ⟨_, _, s', hs', -⟩ := hcommittee threeVoteIds _ threeCandidates hvoters (by decide)
      (by decide)
    exact ⟨s', hs'⟩
  · have hempty : ∀ acct, ¬Listed ∅ acct := fun acct ⟨id, hid⟩ => by cases hid
    have hlisted : ∀ acct, Listed controlledChain.specialAuthorities acct ↔ acct = 0 := fun acct => by
      rw [show controlledChain.specialAuthorities = Index.create ∅ ⟨0⟩ from rfl,
        Accounts.listed_create]
      exact or_iff_left (hempty acct)
    have hunique : Unique controlledChain.specialAuthorities :=
      Unique.create (fun id _ _ hid => by cases hid) (hempty 0)
    obtain ⟨authorities, hrun, hall⟩ := hholders twoHolders controlledChain hunique fun acct h => by
      rw [(hlisted acct).mp h]
      rfl
    refine ⟨authorities, hrun, ((hall 0 ((hlisted 0).mpr rfl)).active).sound ?_⟩
    exact ⟨(4, 60), by decide, by decide⟩

end Meta1Core.Elections
