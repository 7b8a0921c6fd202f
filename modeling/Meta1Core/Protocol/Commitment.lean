import Mathlib.Data.Int.ModEq
import Meta1Core.Protocol.Authority

/-!
# Blinded amounts

A commitment hides an amount behind a blinding factor.  A range proof is known here by what its
bytes announce: nothing in the source verifies it against a commitment.
-/

namespace Meta1Core.Protocol

def groupOrder : Nat :=
  0xFFFFFFFFFFFFFFFFFFFFFFFFFFFFFFFEBAAEDCE6AF48A03BBFD25E8CD0364141

structure Commitment where
  blinding : Fin groupOrder
  value : Fin groupOrder
  deriving DecidableEq

def blind (factor : Fin groupOrder) (value : Nat) : Commitment :=
  ⟨factor, ⟨value % groupOrder, Nat.mod_lt _ (by decide)⟩⟩

/-- The sum of the amounts that some commitments hide -/
def hiddenSum (commitments : List Commitment) : Nat := (commitments.map fun c => c.value.val).sum

def blindings (commitments : List Commitment) : Nat :=
  (commitments.map fun c => c.blinding.val).sum

/-- `fc::ecc::verify_sum`: the commitments on both sides, and the public excess, balance. -/
def verifySum (commits negCommits : List Commitment) (excess : Int) : Prop :=
  (blindings commits : Int) ≡ blindings negCommits [ZMOD groupOrder] ∧
    (hiddenSum commits : Int) ≡ hiddenSum negCommits + excess [ZMOD groupOrder]

instance (commits negCommits : List Commitment) (excess : Int) :
    Decidable (verifySum commits negCommits excess) := inferInstanceAs (Decidable (_ ∧ _))

/-- A range proof, by the `max_value` it announces; `none` if its bytes are malformed -/
structure RangeProof where
  announced : Option Nat
  deriving DecidableEq

def rangeGetInfo (proof : RangeProof) : Except Exception Nat :=
  match proof.announced with
  | some maxValue => .ok maxValue
  | none => .error (.fc "secp256k1_rangeproof_info")

abbrev PublicKey := Nat

abbrev Address := Nat

structure BlindInput where
  commitment : Commitment
  owner : Authority PublicKey Address
  deriving DecidableEq

structure BlindOutput where
  commitment : Commitment
  rangeProof : RangeProof
  owner : Authority PublicKey Address
  deriving DecidableEq

theorem hiddenSum_cons (c : Commitment) (cs : List Commitment) :
    hiddenSum (c :: cs) = c.value.val + hiddenSum cs := by
  simp [hiddenSum]

theorem hiddenSum_singleton (c : Commitment) : hiddenSum [c] = c.value.val := by
  simp [hiddenSum]

theorem hiddenSum_blind {factor : Fin groupOrder} {value : Nat} (h : value < groupOrder) :
    hiddenSum [blind factor value] = value := by
  rw [hiddenSum_singleton]
  exact Nat.mod_eq_of_lt h

theorem hiddenSum_le {bound : Nat} {cs : List Commitment} (h : ∀ c ∈ cs, c.value.val ≤ bound) :
    hiddenSum cs ≤ cs.length * bound := by
  induction cs with
  | nil => simp [hiddenSum]
  | cons c cs ih =>
    obtain ⟨hc, hcs⟩ := List.forall_mem_cons.mp h
    rw [hiddenSum_cons, List.length_cons, Nat.succ_mul]
    have := ih hcs
    omega

theorem eq_of_modEq {a b : Int} (h : a ≡ b [ZMOD groupOrder]) (ha0 : 0 ≤ a) (ha : a < groupOrder)
    (hb0 : 0 ≤ b) (hb : b < groupOrder) : a = b := by
  have hmod : a % groupOrder = b % groupOrder := h
  rwa [Int.emod_eq_of_lt ha0 ha, Int.emod_eq_of_lt hb0 hb] at hmod

end Meta1Core.Protocol
