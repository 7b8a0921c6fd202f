import Meta1Core.Fc.Exception
import Meta1Core.Lib.HashTree

/-!
# The Merkle root of a block (`block.cpp`)

`calculate_merkle_root` hashes the digests of the transactions in pairs, in the vector that holds
them: the digests of a level overwrite the front of the level before.  The two hash functions and
the digest of a transaction are parameters.
-/

namespace Meta1Core.Protocol.MerkleRoot

open Lib (hashPairs levelPairs hashedPairs rootDigest)

section Hashes

variable {Transaction Digest Checksum : Type}

def idAt (ids : List Digest) (i : Nat) : Except Exception Digest :=
  match ids[i]? with
  | some d => .ok d
  | none => .error .undefined

-- `digest_type::hash` of a `std::pair`
variable (hash : Digest × Digest → Digest)

/-- `for( uint32_t i = i; i < iMax; i += 2 ) ids[k++] = digest_type::hash( … )` -/
def hashLoop (iMax : Nat) : (fuel : Nat) → (ids : List Digest) → (i k : Nat) →
    Except Exception (List Digest × Nat)
  | 0, _, _, _ => .error .diverges
  | fuel + 1, ids, i, k =>
    if i < iMax then do
      let a ← idAt ids i
      let b ← idAt ids (i + 1)
      hashLoop iMax fuel (ids.set k (hash (a, b))) (i + 2) (k + 1)
    else return (ids, k)

def hashLevel (ids : List Digest) (currentNumberOfHashes : Nat) :
    Except Exception (List Digest × Nat) := do
  let iMax := currentNumberOfHashes - currentNumberOfHashes % 2
  let (ids, k) ← hashLoop hash iMax (iMax + 1) ids 0 0
  if currentNumberOfHashes % 2 = 1 then return (ids.set k (← idAt ids iMax), k + 1)
  else return (ids, k)

def hashLevels : (fuel : Nat) → (ids : List Digest) → (currentNumberOfHashes : Nat) →
    Except Exception Digest
  | 0, _, _ => .error .diverges
  | fuel + 1, ids, currentNumberOfHashes =>
    if currentNumberOfHashes > 1 then do
      let (ids, k) ← hashLevel hash ids currentNumberOfHashes
      hashLevels fuel ids k
    else idAt ids 0

-- `merkle_digest`, `checksum_type::hash` and `checksum_type()`
variable (merkleDigest : Transaction → Digest) (checksum : Digest → Checksum)
  (emptyChecksum : Checksum)

def calculateMerkleRoot (transactions : List Transaction) : Except Exception Checksum :=
  if transactions.length = 0 then return emptyChecksum
  else do
    let ids := transactions.map merkleDigest
    return checksum (← hashLevels hash (ids.length + 1) ids ids.length)

theorem idAt_append (front : List Digest) (d : Digest) (back : List Digest) :
    idAt (front ++ d :: back) front.length = .ok d := by
  simp [idAt]

theorem hashPairs_append_singleton : ∀ (ds : List Digest) (z : Digest), ds.length % 2 = 0 →
    hashPairs hash (ds ++ [z]) = hashPairs hash ds ++ [z]
  | [], z, _ => by simp [hashPairs]
  | [_], _, h => by simp at h
  | a :: b :: ds, z, h => by
    simp only [List.length_cons] at h
    simp only [List.cons_append, hashPairs]
    rw [hashPairs_append_singleton ds z (by omega)]

theorem hashLoop_spec : ∀ (pairs front mid back : List Digest) (fuel : Nat),
    pairs.length % 2 = 0 → pairs.length < fuel →
    ∃ mid', mid'.length = mid.length + pairs.length / 2 ∧
      hashLoop hash (front.length + mid.length + pairs.length) fuel
          (front ++ (mid ++ (pairs ++ back))) (front.length + mid.length) front.length =
        .ok (front ++ (hashPairs hash pairs ++ (mid' ++ back)),
          front.length + (hashPairs hash pairs).length)
  | [], front, mid, back, fuel, _, hfuel => by
    obtain ⟨fuel, rfl⟩ : ∃ n, fuel = n + 1 := ⟨fuel - 1, by omega⟩
    refine ⟨mid, by simp, ?_⟩
    rw [hashLoop, if_neg (by simp)]
    simp [hashPairs, pure, Except.pure]
  | [_], _, _, _, _, h, _ => by simp at h
  | a :: b :: pairs, front, mid, back, fuel, hlen, hfuel => by
    obtain ⟨fuel, rfl⟩ : ∃ n, fuel = n + 1 := ⟨fuel - 1, by omega⟩
    simp only [List.length_cons] at hlen hfuel
    -- the first place behind the front is overwritten, whether it held a digest that is done or `a`
    obtain ⟨mid1, hmid1, hset⟩ : ∃ mid1 : List Digest, mid1.length = mid.length + 1 ∧
        (front ++ (mid ++ (a :: b :: pairs ++ back))).set front.length (hash (a, b)) =
          (front ++ [hash (a, b)]) ++ (mid1 ++ (pairs ++ back)) := by
      cases mid with
      | nil => exact ⟨[b], rfl, by simp⟩
      | cons m mid => exact ⟨mid ++ [a, b], by simp, by simp⟩
    obtain ⟨mid', hmid', hloop⟩ := hashLoop_spec pairs (front ++ [hash (a, b)]) mid1 back fuel
      (by omega) (by omega)
    refine ⟨mid', by simp only [List.length_cons]; omega, ?_⟩
    have ha : idAt (front ++ (mid ++ (a :: b :: pairs ++ back))) (front.length + mid.length) =
        .ok a := by
      have := idAt_append (front ++ mid) a (b :: pairs ++ back)
      simpa using this
    have hb : idAt (front ++ (mid ++ (a :: b :: pairs ++ back))) (front.length + mid.length + 1) =
        .ok b := by
      have := idAt_append (front ++ (mid ++ [a])) b (pairs ++ back)
      simpa [Nat.add_assoc] using this
    rw [hashLoop, if_pos (by simp only [List.length_cons]; omega), ha]
    show (idAt _ _ >>= _) = _
    rw [hb]
    show hashLoop _ _ _ _ _ _ = _
    have hfront : (front ++ [hash (a, b)]).length = front.length + 1 := by simp
    have hmax : front.length + mid.length + (a :: b :: pairs).length =
        (front ++ [hash (a, b)]).length + mid1.length + pairs.length := by
      simp only [List.length_cons, hfront, hmid1]
      omega
    have hi : front.length + mid.length + 2 = (front ++ [hash (a, b)]).length + mid1.length := by
      rw [hfront, hmid1]
      omega
    rw [hset, hmax, hi, ← hfront, hloop]
    simp [hashPairs, Nat.add_assoc, Nat.add_comm 1]

theorem hashLevel_spec (ds back : List Digest) :
    ∃ back', hashLevel hash (ds ++ back) ds.length =
      .ok (hashPairs hash ds ++ back', (hashPairs hash ds).length) := by
  unfold hashLevel
  by_cases hodd : ds.length % 2 = 1
  · obtain ⟨pairs, z, rfl⟩ : ∃ pairs z, ds = pairs ++ [z] := by
      rcases ds.eq_nil_or_concat' with rfl | h
      · simp at hodd
      · exact h
    have heven : pairs.length % 2 = 0 := by
      simp only [List.length_append, List.length_singleton] at hodd
      omega
    have hmax : (pairs ++ [z]).length - (pairs ++ [z]).length % 2 = pairs.length := by
      rw [hodd]
      simp
    obtain ⟨mid', hmid', hloop⟩ := hashLoop_spec hash pairs [] [] (z :: back)
      (pairs.length + 1) heven (Nat.lt_succ_self _)
    simp only [List.nil_append, List.length_nil, Nat.zero_add] at hloop hmid'
    simp only [hmax, List.append_assoc, List.singleton_append]
    rw [hloop]
    simp only [bind, Except.bind]
    rw [if_pos hodd]
    have hplace : pairs.length = (hashPairs hash pairs ++ mid').length := by
      rw [List.length_append, Lib.length_hashPairs, hmid']
      omega
    have hz : idAt (hashPairs hash pairs ++ (mid' ++ z :: back)) pairs.length = .ok z := by
      rw [hplace, ← List.append_assoc]
      exact idAt_append _ z back
    rw [hz, hashPairs_append_singleton hash pairs z heven]
    cases mid' with
    | nil => exact ⟨back, by simp [pure, Except.pure]⟩
    | cons m mid => exact ⟨mid ++ z :: back, by simp [pure, Except.pure]⟩
  · have hmax : ds.length - ds.length % 2 = ds.length := by omega
    obtain ⟨mid', -, hloop⟩ := hashLoop_spec hash ds [] [] back (ds.length + 1) (by omega)
      (Nat.lt_succ_self _)
    simp only [List.nil_append, List.length_nil, Nat.zero_add] at hloop
    simp only [hmax]
    rw [hloop]
    simp only [bind, Except.bind]
    rw [if_neg hodd]
    exact ⟨mid' ++ back, rfl⟩

theorem hashLevels_spec (fuel : Nat) : ∀ (d : Digest) (ds back : List Digest),
    ds.length + 1 < fuel + 1 →
      hashLevels hash fuel (d :: ds ++ back) (ds.length + 1) = .ok (rootDigest hash d ds) := by
  induction fuel with
  | zero => exact fun _ _ _ h => absurd h (by omega)
  | succ fuel ih =>
    intro d ds back hfuel
    cases ds with
    | nil =>
      rw [hashLevels, if_neg (by simp), rootDigest]
      rfl
    | cons e ds =>
      rw [hashLevels, if_pos (by simp), rootDigest]
      obtain ⟨back', hlevel⟩ := hashLevel_spec hash (d :: e :: ds) back
      rw [show (e :: ds).length + 1 = (d :: e :: ds).length from rfl, hlevel]
      have hlt := Lib.length_hashPairs_lt hash e ds
      exact ih (hash (d, e)) (hashPairs hash ds) back' (by omega)

theorem calculateMerkleRoot_cons (tx : Transaction) (txs : List Transaction) :
    calculateMerkleRoot hash merkleDigest checksum emptyChecksum (tx :: txs) =
      .ok (checksum (rootDigest hash (merkleDigest tx) (txs.map merkleDigest))) := by
  have hlevels := hashLevels_spec hash ((txs.map merkleDigest).length + 1 + 1)
    (merkleDigest tx) (txs.map merkleDigest) [] (by omega)
  rw [List.append_nil] at hlevels
  unfold calculateMerkleRoot
  rw [if_neg (by simp)]
  show (hashLevels hash _ _ _ >>= _) = _
  rw [List.map_cons, List.length_cons, hlevels]
  rfl

def pairsOf : List Transaction → List (Digest × Digest)
  | [] => []
  | tx :: txs => hashedPairs hash (merkleDigest tx) (txs.map merkleDigest)

def lastDigest : List Transaction → Option Digest
  | [] => none
  | tx :: txs => some (rootDigest hash (merkleDigest tx) (txs.map merkleDigest))

/-- Two different pairs that were hashed have the same hash, or two different digests that a checksum
was made from have the same checksum. -/
def Collision (xs ys : List Transaction) : Prop :=
  (∃ p ∈ pairsOf hash merkleDigest xs, ∃ q ∈ pairsOf hash merkleDigest ys,
    p ≠ q ∧ hash p = hash q) ∨
  ∃ d ∈ lastDigest hash merkleDigest xs, ∃ e ∈ lastDigest hash merkleDigest ys,
    d ≠ e ∧ checksum d = checksum e

/-- The digest of a transaction is the hash of a pair that was hashed for the other root. -/
def LeafIsPair (xs ys : List Transaction) : Prop :=
  ∃ d ∈ xs.map merkleDigest, ∃ q ∈ pairsOf hash merkleDigest ys, d = hash q

/-- Equal roots: the digests of the transactions are equal, or a hash function has collided, or the
digest of a transaction is the hash of a pair; the last case needs different numbers of
transactions. -/
theorem merkleRoot_binds {xs ys : List Transaction} (hxs : xs ≠ []) (hys : ys ≠ [])
    (h : calculateMerkleRoot hash merkleDigest checksum emptyChecksum xs =
      calculateMerkleRoot hash merkleDigest checksum emptyChecksum ys) :
    (xs.map merkleDigest = ys.map merkleDigest ∨ Collision hash merkleDigest checksum xs ys ∨
        LeafIsPair hash merkleDigest xs ys ∨ LeafIsPair hash merkleDigest ys xs) ∧
      (xs.length = ys.length →
        xs.map merkleDigest = ys.map merkleDigest ∨ Collision hash merkleDigest checksum xs ys) := by
  obtain ⟨x, xs, rfl⟩ := List.exists_cons_of_ne_nil hxs
  obtain ⟨y, ys, rfl⟩ := List.exists_cons_of_ne_nil hys
  rw [calculateMerkleRoot_cons, calculateMerkleRoot_cons] at h
  have hsum := Except.ok.inj h
  by_cases hroot : rootDigest hash (merkleDigest x) (xs.map merkleDigest) =
      rootDigest hash (merkleDigest y) (ys.map merkleDigest)
  · refine ⟨?_, fun hlen => ?_⟩
    · rcases Lib.eq_or_of_rootDigest_eq hroot with heq | hcol | hleaf | hleaf
      · exact .inl heq
      · exact .inr (.inl (.inl hcol))
      · exact .inr (.inr (.inl hleaf))
      · exact .inr (.inr (.inr hleaf))
    · have hlen' : (xs.map merkleDigest).length = (ys.map merkleDigest).length := by
        simpa using hlen
      rcases Lib.eq_or_of_rootDigest_eq_of_length hroot hlen' with heq | hcol
      · exact .inl heq
      · exact .inr (.inl hcol)
  · have hcol : Collision hash merkleDigest checksum (x :: xs) (y :: ys) :=
      .inr ⟨_, rfl, _, rfl, hroot, hsum⟩
    exact ⟨.inr (.inl hcol), fun _ => .inr hcol⟩

end Hashes

theorem merkleRoot_binds_three :
    [12, 3].map id = [1, 2, 3].map id ∨
      Collision (fun p => 10 * p.1 + p.2) (id : Nat → Nat) (id : Nat → Nat) [12, 3] [1, 2, 3] ∨
      LeafIsPair (fun p => 10 * p.1 + p.2) (id : Nat → Nat) [12, 3] [1, 2, 3] ∨
      LeafIsPair (fun p => 10 * p.1 + p.2) (id : Nat → Nat) [1, 2, 3] [12, 3] :=
  (merkleRoot_binds (fun p => 10 * p.1 + p.2) (id : Nat → Nat) (id : Nat → Nat) 0
    (List.cons_ne_nil 12 [3]) (List.cons_ne_nil 1 [2, 3]) (by decide)).1

end Meta1Core.Protocol.MerkleRoot
