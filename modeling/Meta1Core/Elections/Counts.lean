import Meta1Core.Voting.Evaluators

/-!
# How many are elected (`db_maint.cpp`)

Every account whose stake counts adds it to a histogram of half the wished number of witnesses, and
to a total.
-/

namespace Meta1Core.Elections

open Protocol
open Voting (Tallies AccountOptions ChainParameters)

structure Voter where
  stake : BitVec 64
  opinion : AccountOptions

/-- The buffers after `vote_tally_helper` has been called for the voters -/
def tallied (parameters : ChainParameters) (t : Tallies) (voters : List Voter) : Tallies :=
  voters.foldl (fun t v => t.add parameters v.opinion v.stake) t

def stakeOf (p : Voter → Bool) (voters : List Voter) : Nat :=
  ((voters.filter p).map (·.stake.toNat)).sum

theorem stakeOf_cons (p : Voter → Bool) (v : Voter) (voters : List Voter) :
    stakeOf p (v :: voters) = (if p v then v.stake.toNat else 0) + stakeOf p voters := by
  unfold stakeOf
  rw [List.filter_cons]
  split <;> simp

theorem stakeOf_none (voters : List Voter) : stakeOf (fun _ => false) voters = 0 := by
  simp [stakeOf]

variable {voters : List Voter}

theorem stakeOf_congr {p q : Voter → Bool} (h : ∀ v ∈ voters, p v = q v) :
    stakeOf p voters = stakeOf q voters := by
  unfold stakeOf
  rw [List.filter_congr h]

theorem stakeOf_add (p q : Voter → Bool) (voters : List Voter)
    (h : ∀ v ∈ voters, ¬(p v = true ∧ q v = true)) :
    stakeOf (fun v => p v || q v) voters = stakeOf p voters + stakeOf q voters := by
  induction voters with
  | nil => rfl
  | cons v voters ih =>
    have hv := h v List.mem_cons_self
    rw [stakeOf_cons, stakeOf_cons, stakeOf_cons, ih fun u hu => h u (List.mem_cons_of_mem _ hu)]
    cases hp : p v <;> cases hq : q v <;> simp_all [Nat.add_assoc, Nat.add_left_comm]

theorem stakeOf_mono {p q : Voter → Bool} (h : ∀ v ∈ voters, p v = true → q v = true) :
    stakeOf p voters ≤ stakeOf q voters := by
  induction voters with
  | nil => exact Nat.le_refl 0
  | cons v voters ih =>
    have hv := h v List.mem_cons_self
    have hrest := ih fun u hu => h u (List.mem_cons_of_mem _ hu)
    rw [stakeOf_cons, stakeOf_cons]
    cases hp : p v <;> simp_all
    omega

structure Electorate (voters : List Voter) : Prop where
  distinct : ∀ v ∈ voters, (v.opinion.votes.map (·.instanceNumber)).Nodup
  supply : (stakeOf (fun _ => true) voters : Int) ≤ maxShareSupply

theorem Electorate.lt (h : Electorate voters) (p : Voter → Bool) :
    stakeOf p voters < 2 ^ 63 := by
  have hall : stakeOf p voters ≤ stakeOf (fun _ => true) voters := stakeOf_mono fun _ _ _ => rfl
  have hsupply := h.supply
  unfold maxShareSupply at hsupply
  omega

/-! ## The buffers -/

theorem toNat_add_stake {x y : BitVec 64} (h : x.toNat + y.toNat < 2 ^ 64) :
    (x + y).toNat = x.toNat + y.toNat := by
  rw [BitVec.toNat_add]
  exact Nat.mod_eq_of_lt h

theorem getElem?_foldl_modify {α : Type} (place : α → Option Nat) (amount : α → BitVec 64)
    (xs : List α) : ∀ (buffer : List (BitVec 64)) (i : Nat) (b : BitVec 64), buffer[i]? = some b →
      b.toNat + ((xs.filter fun x => place x = some i).map (amount · |>.toNat)).sum < 2 ^ 64 →
      ∃ c, (xs.foldl (fun buffer x =>
          match place x with
          | some j => buffer.modify j (· + amount x)
          | none => buffer) buffer)[i]? = some c ∧
        c.toNat = b.toNat + ((xs.filter fun x => place x = some i).map (amount · |>.toNat)).sum := by
  induction xs with
  | nil => exact fun buffer i b hb _ => ⟨b, hb, rfl⟩
  | cons x xs ih =>
    intro buffer i b hb hlt
    rw [List.foldl_cons]
    rw [List.filter_cons] at hlt ⊢
    cases hx : place x with
    | none =>
      rw [hx] at hlt
      simpa [hx] using ih buffer i b hb (by simpa using hlt)
    | some j =>
      by_cases hij : j = i
      · subst hij
        rw [hx, if_pos (by simp), List.map_cons, List.sum_cons] at hlt
        have hadd := toNat_add_stake (x := b) (y := amount x) (by omega)
        obtain ⟨c, hc, hsum⟩ := ih (buffer.modify j (· + amount x)) j (b + amount x)
          (by simp [hb]) (by rw [hadd]; omega)
        refine ⟨c, hc, ?_⟩
        rw [if_pos (by simp), List.map_cons, List.sum_cons, hsum, hadd, Nat.add_assoc]
      · rw [hx, if_neg (by simpa using hij)] at hlt
        rw [if_neg (by simpa using hij)]
        exact ih _ i b (by simp [hij, hb]) hlt

theorem length_foldl_modify {α : Type} (place : α → Option Nat) (amount : α → BitVec 64)
    (xs : List α) : ∀ buffer : List (BitVec 64),
      (xs.foldl (fun buffer x =>
          match place x with
          | some j => buffer.modify j (· + amount x)
          | none => buffer) buffer).length = buffer.length := by
  induction xs with
  | nil => exact fun _ => rfl
  | cons x xs ih =>
    intro buffer
    rw [List.foldl_cons, ih]
    split
    · exact List.length_modify _ _ _
    · rfl

def placeOf (maximum size num : Nat) : Option Nat :=
  if num ≤ maximum then some (min (num / 2) (size - 1)) else none

theorem foldl_count {maximum size : Nat} (num : Voter → Nat) (voters : List Voter) :
    ∀ histogram : List (BitVec 64), histogram.length = size →
      voters.foldl (fun h v => Tallies.count maximum (num v) v.stake h) histogram =
        voters.foldl (fun h v =>
          match placeOf maximum size (num v) with
          | some j => h.modify j (· + v.stake)
          | none => h) histogram := by
  induction voters with
  | nil => exact fun _ _ => rfl
  | cons v voters ih =>
    intro histogram hlen
    have hstep : Tallies.count maximum (num v) v.stake histogram =
        match placeOf maximum size (num v) with
        | some j => histogram.modify j (· + v.stake)
        | none => histogram := by
      unfold Tallies.count placeOf
      rw [hlen]
      split <;> rfl
    rw [List.foldl_cons, List.foldl_cons, hstep]
    apply ih
    split
    · rw [List.length_modify, hlen]
    · exact hlen

theorem getElem?_foldl_count {maximum size : Nat} (num : Voter → Nat) (h : Electorate voters)
    {i : Nat} (hi : i < size) :
    ∃ c, (voters.foldl (fun h v => Tallies.count maximum (num v) v.stake h)
        (List.replicate size 0))[i]? = some c ∧
      c.toNat = stakeOf (fun v => placeOf maximum size (num v) = some i) voters := by
  have hlt := h.lt fun v => placeOf maximum size (num v) = some i
  rw [foldl_count num voters _ List.length_replicate]
  obtain ⟨c, hc, hsum⟩ := getElem?_foldl_modify (fun v : Voter => placeOf maximum size (num v))
    (·.stake) voters (List.replicate size 0) i 0 (by simp [hi])
    (by
      show 0 + stakeOf (fun v => placeOf maximum size (num v) = some i) voters < 2 ^ 64
      omega)
  exact ⟨c, hc, hsum.trans (Nat.zero_add _)⟩

theorem length_foldl_count {maximum : Nat} (num : Voter → Nat) (voters : List Voter)
    (histogram : List (BitVec 64)) :
    (voters.foldl (fun h v => Tallies.count maximum (num v) v.stake h) histogram).length =
      histogram.length := by
  rw [foldl_count num voters histogram rfl]
  exact length_foldl_modify (fun v : Voter => placeOf maximum histogram.length (num v)) (·.stake)
    voters histogram

theorem toNat_foldl_stake : ∀ total : BitVec 64,
    total.toNat + stakeOf (fun _ => true) voters < 2 ^ 64 →
      (voters.foldl (fun total v => total + v.stake) total).toNat =
        total.toNat + stakeOf (fun _ => true) voters := by
  induction voters with
  | nil => exact fun _ _ => rfl
  | cons v voters ih =>
    intro total hlt
    rw [stakeOf_cons, if_pos rfl] at hlt ⊢
    have hadd := toNat_add_stake (x := total) (y := v.stake) (by omega)
    rw [List.foldl_cons, ih _ (by rw [hadd]; omega), hadd, Nat.add_assoc]

def ballotsOf (voters : List Voter) : List (Nat × BitVec 64) :=
  voters.flatMap fun v => v.opinion.votes.map fun id => (id.instanceNumber, v.stake)

theorem foldl_votes (voters : List Voter) : ∀ tally : List (BitVec 64),
    voters.foldl (fun tally v => v.opinion.votes.foldl
        (fun tally id => tally.modify id.instanceNumber (· + v.stake)) tally) tally =
      (ballotsOf voters).foldl (fun tally b =>
        match some b.1 with
        | some j => tally.modify j (· + b.2)
        | none => tally) tally := by
  induction voters with
  | nil => exact fun _ => rfl
  | cons v voters ih =>
    intro tally
    have hcons : ballotsOf (v :: voters) =
        (v.opinion.votes.map fun id => (id.instanceNumber, v.stake)) ++ ballotsOf voters := rfl
    rw [List.foldl_cons, ih, hcons, List.foldl_append, List.foldl_map]

theorem sum_ballots_le (h : ∀ v ∈ voters, (v.opinion.votes.map (·.instanceNumber)).Nodup) (i : Nat) :
    (((ballotsOf voters).filter fun b => some b.1 = some i).map (·.2.toNat)).sum ≤
      stakeOf (fun _ => true) voters := by
  induction voters with
  | nil => exact Nat.le_refl 0
  | cons v voters ih =>
    have hrest := ih fun u hu => h u (List.mem_cons_of_mem _ hu)
    have hnodup := h v List.mem_cons_self
    have hone : (((v.opinion.votes.map fun id => (id.instanceNumber, v.stake)).filter
        fun b => some b.1 = some i).map (·.2.toNat)).sum ≤ v.stake.toNat := by
      have hcount : (v.opinion.votes.map (·.instanceNumber)).count i ≤ 1 :=
        List.nodup_iff_count_le_one.mp hnodup i
      have hsum : ∀ ids : List Voting.VoteId, (((ids.map fun id => (id.instanceNumber, v.stake)).filter
          fun b => some b.1 = some i).map (·.2.toNat)).sum =
            (ids.map (·.instanceNumber)).count i * v.stake.toNat := by
        intro ids
        induction ids with
        | nil => simp
        | cons id ids ih =>
          rw [List.map_cons, List.map_cons, List.filter_cons, List.count_cons]
          by_cases hid : id.instanceNumber = i
          · rw [if_pos (by simp [hid]), List.map_cons, List.sum_cons, ih, if_pos (by simp [hid]),
              Nat.add_mul, Nat.one_mul, Nat.add_comm]
          · rw [if_neg (by simp [hid]), ih, if_neg (by simp [hid]), Nat.add_zero]
      rw [hsum]
      calc (v.opinion.votes.map (·.instanceNumber)).count i * v.stake.toNat
          ≤ 1 * v.stake.toNat := Nat.mul_le_mul_right _ hcount
        _ = v.stake.toNat := Nat.one_mul _
    unfold ballotsOf at hrest ⊢
    rw [List.flatMap_cons, List.filter_append, List.map_append, List.sum_append, stakeOf_cons,
      if_pos rfl]
    omega

theorem tallied_eq (parameters : ChainParameters) (voters : List Voter) : ∀ t : Tallies,
    tallied parameters t voters =
      { voteTally := voters.foldl (fun tally v => v.opinion.votes.foldl
          (fun tally id => tally.modify id.instanceNumber (· + v.stake)) tally) t.voteTally
        witnessCountHistogram := voters.foldl (fun h v =>
          Tallies.count parameters.maximumWitnessCount v.opinion.numWitness v.stake h)
            t.witnessCountHistogram
        committeeCountHistogram := voters.foldl (fun h v =>
          Tallies.count parameters.maximumCommitteeCount v.opinion.numCommittee v.stake h)
            t.committeeCountHistogram
        totalVotingStake := voters.foldl (fun total v => total + v.stake) t.totalVotingStake } := by
  induction voters with
  | nil => exact fun _ => rfl
  | cons v voters ih => exact fun t => ih _

/-- The buffers that a maintenance leaves for the elections: those of `vote_tally_helper`, which
start empty -/
def maintenanceTallies (s : Voting.State) (voters : List Voter) : Tallies :=
  tallied s.parameters (Tallies.start s {}) voters

theorem resize_nil (n : Nat) : Voting.resize n [] = List.replicate n 0 := by
  simp [Voting.resize]

theorem voteTally_lt {s : Voting.State} (h : Electorate voters) (i : Nat) :
    ((maintenanceTallies s voters).voteTally.getD i 0).toNat < 2 ^ 63 := by
  have hbound := sum_ballots_le h.distinct i
  have hlt := h.lt fun _ => true
  unfold maintenanceTallies
  rw [tallied_eq]
  simp only [Tallies.start, resize_nil]
  rw [foldl_votes, List.getD_eq_getElem?_getD]
  by_cases hi : i < s.ballot.nextAvailableVoteId
  · obtain ⟨c, hc, hsum⟩ := getElem?_foldl_modify (fun b : Nat × BitVec 64 => some b.1) (·.2)
      (ballotsOf voters) (List.replicate s.ballot.nextAvailableVoteId 0) i 0 (by simp [hi])
      (by rw [show (0 : BitVec 64).toNat = 0 from rfl]; omega)
    rw [hc, Option.getD_some, hsum, show (0 : BitVec 64).toNat = 0 from rfl]
    omega
  · have hlen := length_foldl_modify (fun b : Nat × BitVec 64 => some b.1) (·.2)
      (ballotsOf voters) (List.replicate s.ballot.nextAvailableVoteId 0)
    rw [List.length_replicate] at hlen
    rw [List.getElem?_eq_none (by rw [hlen]; omega)]
    decide

end Meta1Core.Elections
