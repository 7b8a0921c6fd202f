import Mathlib.Data.Prod.Lex
import Meta1Core.Elections.VoteCounter
import Meta1Core.Voting.Evaluators

/-!
# Who is elected (`db_maint.cpp`)

`sort_votable_objects` compares the vote totals as `share_type`, that is with a sign, and takes the
first of all candidates.
-/

namespace Meta1Core.Elections

open Protocol
open Voting (VoteId)

structure Votable where
  id : Nat
  account : AccountId
  voteId : VoteId
  totalVotes : UInt64 := 0
  deriving DecidableEq

structure VotableIndex where
  objects : List Votable
  ids : (objects.map Votable.id).Nodup
  accounts : (objects.map Votable.account).Nodup
  voteIds : (objects.map (·.voteId.instanceNumber)).Nodup

def votesOf (tally : List (BitVec 64)) (o : Votable) : BitVec 64 :=
  tally.getD o.voteId.instanceNumber 0

def before (tally : List (BitVec 64)) (a b : Votable) : Bool :=
  let oaVote := (votesOf tally a).toInt
  let obVote := (votesOf tally b).toInt
  if oaVote ≠ obVote then oaVote > obVote
  else a.voteId.instanceNumber < b.voteId.instanceNumber

/-- `sort_votable_objects`: what a partial sort leaves at the front of all objects -/
def sortVotableObjects (tally : List (BitVec 64)) (objects : List Votable) (count : Nat) :
    Except Exception (List Votable) :=
  let count := min count objects.length
  let refs := objects.insertionSort fun a b => ¬before tally b a
  if refs = [] then .error .undefined else .ok (refs.take count)

/-! ## The order of the candidates -/

def Outranks (tally : List (BitVec 64)) (a b : Votable) : Prop :=
  (votesOf tally b).toNat < (votesOf tally a).toNat ∨
    votesOf tally a = votesOf tally b ∧ a.voteId.instanceNumber < b.voteId.instanceNumber

/-- The first of all candidates: in order, and every other one comes after them. -/
structure Top (tally : List (BitVec 64)) (count : Nat) (objects chosen : List Votable) : Prop where
  size : chosen.length = min count objects.length
  subset : chosen ⊆ objects
  ordered : chosen.Pairwise (Outranks tally)
  best : ∀ a ∈ chosen, ∀ b ∈ objects, b ∉ chosen → Outranks tally a b

def key (tally : List (BitVec 64)) (o : Votable) : Int ×ₗ Nat :=
  toLex (-(votesOf tally o).toInt, o.voteId.instanceNumber)

theorem before_iff {tally : List (BitVec 64)} {a b : Votable} :
    before tally a b = true ↔ key tally a < key tally b := by
  unfold before key
  rw [Prod.Lex.toLex_lt_toLex]
  simp only
  split
  · rename_i hne
    simp only [decide_eq_true_eq]
    omega
  · rename_i heq
    simp only [decide_eq_true_eq]
    omega

theorem not_before_iff {tally : List (BitVec 64)} {a b : Votable} :
    ¬before tally b a = true ↔ key tally a ≤ key tally b := by
  rw [before_iff, not_lt]

theorem outranks_of_key_lt {tally : List (BitVec 64)} {a b : Votable}
    (ha : (votesOf tally a).toNat < 2 ^ 63) (hb : (votesOf tally b).toNat < 2 ^ 63)
    (h : key tally a < key tally b) : Outranks tally a b := by
  have hia : (votesOf tally a).toInt = (votesOf tally a).toNat := by
    rw [BitVec.toInt_eq_toNat_of_lt (by omega)]
  have hib : (votesOf tally b).toInt = (votesOf tally b).toNat := by
    rw [BitVec.toInt_eq_toNat_of_lt (by omega)]
  unfold key at h
  rw [Prod.Lex.toLex_lt_toLex, hia, hib] at h
  rcases h with hlt | ⟨heq, hid⟩
  · left
    simp only at hlt
    omega
  · right
    simp only at heq hid
    exact ⟨BitVec.eq_of_toNat_eq (by omega), hid⟩

namespace VotableIndex

variable (index : VotableIndex) {tally : List (BitVec 64)}

theorem nodup : index.objects.Nodup := index.ids.of_map _

theorem key_injective {a b : Votable} (ha : a ∈ index.objects) (hb : b ∈ index.objects)
    (h : key tally a = key tally b) : a = b := by
  have hid : a.voteId.instanceNumber = b.voteId.instanceNumber := congrArg (fun k => (ofLex k).2) h
  exact List.inj_on_of_nodup_map index.voteIds ha hb hid

def sorted (tally : List (BitVec 64)) : List Votable :=
  index.objects.insertionSort fun a b => ¬before tally b a

theorem sorted_perm : (index.sorted tally).Perm index.objects := List.perm_insertionSort _ _

theorem sorted_pairwise : (index.sorted tally).Pairwise fun a b => key tally a < key tally b := by
  have hsame : index.sorted tally =
      index.objects.insertionSort fun a b => key tally a ≤ key tally b := by
    have := List.map_insertionSort (r := fun a b => ¬before tally b a = true)
      (s := fun a b => key tally a ≤ key tally b) id index.objects
      fun a _ b _ => not_before_iff
    simpa [sorted] using this
  have htotal : Std.Total fun a b : Votable => key tally a ≤ key tally b :=
    ⟨fun a b => le_total _ _⟩
  have htrans : IsTrans Votable fun a b => key tally a ≤ key tally b := ⟨fun _ _ _ => le_trans⟩
  have hle : (index.sorted tally).Pairwise fun a b => key tally a ≤ key tally b := by
    rw [hsame]
    exact List.pairwise_insertionSort _ _
  have hnodup : (index.sorted tally).Pairwise (· ≠ ·) := index.sorted_perm.nodup_iff.mpr index.nodup
  refine (hle.and hnodup).imp_of_mem fun ha hb h => lt_of_le_of_ne h.1 fun heq => h.2 ?_
  exact index.key_injective (index.sorted_perm.subset ha) (index.sorted_perm.subset hb) heq

theorem sortVotableObjects_eq (count : Nat) (h : index.objects ≠ []) :
    sortVotableObjects tally index.objects count =
      .ok ((index.sorted tally).take (min count index.objects.length)) := by
  have hne : index.sorted tally ≠ [] := fun heq => by
    have hlen := (@sorted_perm index tally).length_eq
    rw [heq] at hlen
    exact h (List.length_eq_zero_iff.mp hlen.symm)
  exact if_neg hne

theorem sortVotableObjects_nil (count : Nat) (h : index.objects = []) :
    sortVotableObjects tally index.objects count = .error .undefined := by
  rw [h]
  rfl

theorem top_take (htally : ∀ o ∈ index.objects, (votesOf tally o).toNat < 2 ^ 63) (count : Nat) :
    Top tally count index.objects ((index.sorted tally).take (min count index.objects.length)) := by
  have hperm := @sorted_perm index tally
  have hsub : (index.sorted tally).take (min count index.objects.length) ⊆ index.objects :=
    fun o ho => hperm.subset (List.mem_of_mem_take ho)
  have hrank : (index.sorted tally).Pairwise (Outranks tally) :=
    index.sorted_pairwise.imp_of_mem fun ha hb h =>
      outranks_of_key_lt (htally _ (hperm.subset ha)) (htally _ (hperm.subset hb)) h
  refine ⟨?_, hsub, hrank.take, fun a ha b hb hnot => ?_⟩
  · rw [List.length_take, hperm.length_eq]
    omega
  · have hmem : b ∈ (index.sorted tally).drop (min count index.objects.length) := by
      have hb' := hperm.symm.subset hb
      rw [← List.take_append_drop (min count index.objects.length) (index.sorted tally),
        List.mem_append] at hb'
      exact hb'.resolve_left hnot
    rw [← List.take_append_drop (min count index.objects.length) (index.sorted tally)] at hrank
    exact (List.pairwise_append.mp hrank).2.2 a ha b hmem

def ballots (tally : List (BitVec 64)) (chosen : List Votable) : List (AccountId × UInt64) :=
  chosen.map fun o => (o.account, UInt64.ofBitVec (votesOf tally o))

end VotableIndex

theorem Top.ballots {tally : List (BitVec 64)} {count : Nat} {index : VotableIndex}
    {chosen : List Votable} (h : Top tally count index.objects chosen)
    (hsub : chosen.Sublist (index.sorted tally)) :
    ((VotableIndex.ballots tally chosen).map Prod.fst).Nodup ∧
      (VotableIndex.ballots tally chosen).Pairwise fun a b => b.2 ≤ a.2 := by
  constructor
  · have hnodup : ((index.sorted tally).map Votable.account).Nodup :=
      (index.sorted_perm.map _).nodup_iff.mpr index.accounts
    unfold VotableIndex.ballots
    rw [List.map_map]
    exact (hsub.map _).nodup hnodup
  · unfold VotableIndex.ballots
    rw [List.pairwise_map]
    refine h.ordered.imp fun {a b} hrank => ?_
    rw [UInt64.le_iff_toNat_le]
    show (votesOf tally b).toNat ≤ (votesOf tally a).toNat
    rcases hrank with hlt | ⟨heq, -⟩
    · exact Nat.le_of_lt hlt
    · rw [heq]

end Meta1Core.Elections
