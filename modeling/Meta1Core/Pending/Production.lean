import Meta1Core.Blocks.Atomicity
import Meta1Core.Pending.Restored

/-!
# The blocks that a witness makes itself (`_generate_block`)

The transactions for a block are chosen by the size that they have with their results, and the size
of the header is counted beforehand, with three bytes for the number of transactions.
-/

namespace Meta1Core.Pending

open Lib

open Blocks (AtHead)
open Transactions (ChainRules Skip State View applyBlock applyBlockWith applyTransaction applyTransaction_eq_ok applyTransactions checkReference checkpointSkip unlessSkipped)

/-- `fc::raw::pack_size` of an `unsigned_int`, which has seven bits in a byte -/
def packSizeUnsigned (n : Nat) : Nat := n.log2 / 7 + 1

theorem packSizeUnsigned_le {n k : Nat} (hk : 0 < k) (h : n < 2 ^ (7 * k)) :
    packSizeUnsigned n ≤ k := by
  unfold packSizeUnsigned
  have hlog : n.log2 < 7 * k := by
    rcases Nat.eq_zero_or_pos n with rfl | hpos
    · rw [Nat.log2_zero]
      omega
    · exact (Nat.log2_lt (Nat.ne_of_gt hpos)).mpr h
  omega

/-- `fc::raw::pack_size` of a `signed_block_header` without extensions -/
def packSizeHeader (witness : Nat) : Nat := 20 + 4 + packSizeUnsigned witness + 20 + 1 + 65

/-- `max_block_header_size`; `max_partial_block_header_size` leaves 3 bytes for the number of
transactions. -/
def maxBlockHeaderSize (witness : Nat) : Nat :=
  packSizeHeader 0 - packSizeUnsigned 0 + 3 + packSizeUnsigned witness

def minBlockSizeLimit : Nat := 1024 * 5

/-- Every check that the first flags skip is skipped by the second ones. -/
structure SkipsNoMore (skip skip' : Skip) : Prop where
  witnessSignature : skip.witnessSignature → skip'.witnessSignature
  transactionSignatures : skip.transactionSignatures → skip'.transactionSignatures
  transactionDupeCheck : skip.transactionDupeCheck → skip'.transactionDupeCheck
  blockSizeCheck : skip.blockSizeCheck → skip'.blockSizeCheck
  taposCheck : skip.taposCheck → skip'.taposCheck
  merkleCheck : skip.merkleCheck → skip'.merkleCheck
  assertEvaluation : skip.assertEvaluation → skip'.assertEvaluation
  undoHistoryCheck : skip.undoHistoryCheck → skip'.undoHistoryCheck
  witnessScheduleCheck : skip.witnessScheduleCheck → skip'.witnessScheduleCheck

theorem skipsNoMore_everything (skip : Skip) : SkipsNoMore skip .everything := by
  constructor <;> exact fun _ => rfl

theorem skipsNoMore_signatures (skip : Skip) :
    SkipsNoMore skip { skip with transactionSignatures := true } := by
  constructor <;> first | exact id | exact fun _ => rfl

theorem unlessSkipped_mono {skipped skipped' : Bool} {check : Except Exception Unit}
    (hle : skipped → skipped') (h : unlessSkipped skipped check = .ok ()) :
    unlessSkipped skipped' check = .ok () := by
  rw [Transactions.unlessSkipped_eq_ok] at h ⊢
  intro hnot
  apply h
  cases skipped with
  | false => rfl
  | true => rw [hle rfl] at hnot; cases hnot

/-- `signed_block`; the extensions are empty. -/
structure SignedBlock (Id Trx Result Digest Signature : Type) where
  previous : Id
  timestamp : UInt32
  witness : Nat
  transactionMerkleRoot : Digest
  witnessSignature : Signature
  transactions : List (Processed Trx Result)
  deriving DecidableEq

variable {σ Id TrxId Trx Result Key Digest Signature PublicKey : Type} [DecidableEq Id]
  [DecidableEq TrxId] [DecidableEq Digest] [DecidableEq PublicKey]

def SignedBlock.packSize (packSizeProcessed : Processed Trx Result → Nat)
    (b : SignedBlock Id Trx Result Digest Signature) : Nat :=
  packSizeHeader b.witness + packSizeUnsigned b.transactions.length +
    (b.transactions.map packSizeProcessed).sum

/-- Hashes and signatures; a signature tells the key that it was made with. -/
structure Signing (σ Id Trx Result Key Digest Signature PublicKey : Type) where
  calculateMerkleRoot : List (Processed Trx Result) → Digest
  /-- `digest` of the header fields -/
  digest : Id → UInt32 → Nat → Digest → Digest
  publicKey : Key → PublicKey
  sign : Key → Digest → Signature
  unsigned : Signature
  signee : Signature → Digest → Option PublicKey
  signee_sign : ∀ key d, signee (sign key d) d = some (publicKey key)
  /-- The signing key of a witness, if there is such a witness -/
  signingKey : View σ Id → Nat → Option PublicKey

namespace Signing

variable (C : Signing σ Id Trx Result Key Digest Signature PublicKey)

def validateSignee (b : SignedBlock Id Trx Result Digest Signature) (expected : PublicKey) : Prop :=
  C.signee b.witnessSignature
    (C.digest b.previous b.timestamp b.witness b.transactionMerkleRoot) = some expected

instance (b : SignedBlock Id Trx Result Digest Signature) (expected : PublicKey) :
    Decidable (C.validateSignee b expected) := inferInstanceAs (Decidable (_ = _))

/-- The fields of `pending_block` that `_generate_block` sets, and its signature -/
def assemble (previous : Id) (time witness : Nat) (transactions : List (Processed Trx Result))
    (key : Option Key) : SignedBlock Id Trx Result Digest Signature :=
  let timestamp := UInt32.ofNat time
  let root := C.calculateMerkleRoot transactions
  { previous
    timestamp
    witness
    transactionMerkleRoot := root
    witnessSignature :=
      match key with
      | some key => C.sign key (C.digest previous timestamp witness root)
      | none => C.unsigned
    transactions }

variable {R : ChainRules σ Id (SignedBlock Id Trx Result Digest Signature) TrxId Trx}

/-- The checks of `_apply_block` and `validate_block_header`, but for those of the previous block and of
the time -/
def checkBlock (L : Rules R Result Key) (skip : Skip) (v : View σ Id)
    (b : SignedBlock Id Trx Result Digest Signature) : Except Exception Unit := do
  unlessSkipped skip.blockSizeCheck
    (fcAssert (b.packSize L.packSizeProcessed ≤ L.maximumBlockSize v.objects)
      "fc::raw::pack_size(next_block) <= get_global_properties().parameters.maximum_block_size")
  unlessSkipped skip.merkleCheck
    (fcAssert (b.transactionMerkleRoot = C.calculateMerkleRoot b.transactions)
      "next_block.transaction_merkle_root == next_block.calculate_merkle_root()")
  match C.signingKey v b.witness with
  | none => .error (.fc "Unable to find Object")
  | some signingKey =>
    unlessSkipped skip.witnessSignature
      (fcAssert (C.validateSignee b signingKey) "next_block.validate_signee( witness.signing_key )")
    unlessSkipped skip.witnessScheduleCheck (do
      fcAssert (0 < L.slotAtTime v b.timestamp.toNat) "slot_num > 0"
      fcAssert (b.witness = L.scheduledWitness v (L.slotAtTime v b.timestamp.toNat))
        "Witness produced block at wrong time")

end Signing

/-- The rules of a chain whose blocks are `signed_block`s.  The flags of `_apply_transaction` skip checks
and nothing else. -/
structure BlockCode {R : ChainRules σ Id (SignedBlock Id Trx Result Digest Signature) TrxId Trx}
    (C : Signing σ Id Trx Result Key Digest Signature PublicKey) (L : Rules R Result Key) : Prop where
  previous_eq : ∀ b, R.previous b = b.previous
  timestamp_eq : ∀ b, R.timestamp b = b.timestamp.toNat
  transactions_eq : ∀ b, R.transactions b = b.transactions.map Processed.trx
  checkBlock_eq : ∀ skip v b, R.checkBlock skip v b = C.checkBlock L skip v b
  assemble_eq : ∀ previous time witness transactions key,
    L.assemble previous time witness transactions key =
      C.assemble previous time witness transactions key
  maxBlockHeaderSize_eq : ∀ witness, L.maxBlockHeaderSize witness = maxBlockHeaderSize witness
  isSigningKey_eq : ∀ v witness key, L.isSigningKey v witness key =
    decide (C.signingKey v witness = some (C.publicKey key))
  applyOperations_le : ∀ {skip skip' : Skip} {v : View σ Id} {trx : Trx} {x : σ},
    SkipsNoMore skip skip' → R.applyOperations skip v trx = .ok x →
    R.applyOperations skip' v trx = .ok x

/-- The transactions apply one after the other, with the results that they have at their turn. -/
inductive Applies {R : ChainRules σ Id (SignedBlock Id Trx Result Digest Signature) TrxId Trx}
    (L : Rules R Result Key) (skip : Skip) :
    State R → List (Processed Trx Result) → State R → Prop
  | nil {v : State R} : Applies L skip v [] v
  | cons {v v1 v' : State R} {trx : Trx} {rest : List (Processed Trx Result)} :
      applyTransaction R skip v trx = .ok v1 → Applies L skip v1 rest v' →
      Applies L skip v (⟨trx, L.operationResults skip v.view trx⟩ :: rest) v'

variable {R : ChainRules σ Id (SignedBlock Id Trx Result Digest Signature) TrxId Trx}
  {C : Signing σ Id Trx Result Key Digest Signature PublicKey} {L : Rules R Result Key}
  {skip skip' : Skip}

structure Shadows (skip' : Skip) (v v2 : State R) : Prop where
  view : v2.view = v.view
  recorded : skip'.transactionDupeCheck = false → v2.recorded = v.recorded

omit [DecidableEq Id] [DecidableEq TrxId] [DecidableEq Digest] [DecidableEq PublicKey] in
theorem checkReference_mono (hle : SkipsNoMore skip skip') {v : View σ Id} {trx : Trx}
    (h : checkReference R skip v trx = .ok ()) : checkReference R skip' v trx = .ok () := by
  obtain ⟨_, htapos, h⟩ := of_bind h
  obtain ⟨hlatest, h⟩ := of_fcAssert h
  obtain ⟨hdue, h⟩ := of_fcAssert h
  refine bind_eq_ok.mpr ⟨(), unlessSkipped_mono hle.taposCheck htapos, ?_⟩
  refine fcAssert_bind_eq_ok.mpr ⟨hlatest, fcAssert_bind_eq_ok.mpr ⟨hdue, ?_⟩⟩
  exact unlessSkipped_mono hle.blockSizeCheck h

theorem BlockCode.applyTransaction_mono (H : BlockCode C L) (hle : SkipsNoMore skip skip')
    {v v' v2 : State R} {trx : Trx} (h : applyTransaction R skip v trx = .ok v')
    (hshadows : Shadows skip' v v2) :
    ∃ v2', applyTransaction R skip' v2 trx = .ok v2' ∧ Shadows skip' v' v2' := by
  obtain ⟨x, hpasses, rfl⟩ := applyTransaction_eq_ok.mp h
  -- a flag that is not set now was not set before
  have hunset : ∀ {a b : Bool}, (a → b) → b = false → a = false := by
    intro a b hab hb
    cases a with
    | false => rfl
    | true => exact absurd (hab rfl) (by rw [hb]; exact Bool.false_ne_true)
  refine ⟨_, applyTransaction_eq_ok.mpr ⟨x, ?_, rfl⟩, ?_, ?_⟩
  · refine ⟨hpasses.valid, fun hdupe => ?_, fun hsignatures => ?_, fun hnum => ?_, ?_⟩
    · have hfresh := hpasses.fresh (hunset hle.transactionDupeCheck hdupe)
      unfold State.knows at hfresh ⊢
      rw [hshadows.recorded hdupe]
      exact hfresh
    · rw [hshadows.view]
      exact hpasses.authorized (hunset hle.transactionSignatures hsignatures)
    · rw [hshadows.view] at hnum ⊢
      exact checkReference_mono hle (hpasses.reference hnum)
    · rw [hshadows.view]
      exact H.applyOperations_le hle hpasses.operations
  · dsimp only
    rw [hshadows.view]
  · intro hdupe
    dsimp only
    unfold State.record
    rw [hdupe, hunset hle.transactionDupeCheck hdupe, hshadows.recorded hdupe]

variable {chosen : List (Processed Trx Result)} {b : SignedBlock Id Trx Result Digest Signature}

theorem BlockCode.applyTransactions_mono (H : BlockCode C L) (hle : SkipsNoMore skip skip')
    {v v' : State R} (h : Applies L skip v chosen v') :
    ∀ {v2 : State R}, Shadows skip' v v2 →
      ∃ v2', applyTransactions R skip' v2 (chosen.map Processed.trx) = .ok v2' ∧
        Shadows skip' v' v2' := by
  induction h with
  | nil => exact fun hshadows => ⟨_, rfl, hshadows⟩
  | cons happly _ ih =>
    intro v2 hshadows
    obtain ⟨v2', hfirst, hshadows'⟩ := H.applyTransaction_mono hle happly hshadows
    obtain ⟨v3, hrest, hlast⟩ := ih hshadows'
    refine ⟨v3, ?_, hlast⟩
    rw [List.map_cons, applyTransactions, hfirst]
    exact hrest

namespace Db

variable (L skip)

omit [DecidableEq Digest] [DecidableEq PublicKey] in
/-- The chosen transactions apply in sequence, in the order in which they were pending, and their
sizes are what has been counted.  The induction is on the pending transactions. -/
theorem selectTransactions_spec (maximum total : Nat) (pending : List (Processed Trx Result))
    (s : Db R Result) :
    (s.selectTransactions L skip maximum total pending).1.node.fork = s.node.fork ∧
      (∃ v, Applies L skip s.visible (s.selectTransactions L skip maximum total pending).2 v) ∧
      ((s.selectTransactions L skip maximum total pending).2.map Processed.trx).Sublist
        (pending.map Processed.trx) ∧
      (total ≤ maximum → total + ((s.selectTransactions L skip maximum total pending).2.map
        L.packSizeProcessed).sum ≤ maximum) := by
  induction pending generalizing total s with
  | nil => exact ⟨rfl, ⟨_, .nil⟩, List.Sublist.refl _, fun hle => hle⟩
  | cons tx rest ih =>
    unfold selectTransactions
    split
    · obtain ⟨hfork, happlies, hsublist, hsize⟩ := ih total s
      exact ⟨hfork, happlies, hsublist.cons _, hsize⟩
    · obtain ⟨-, -, hvisible, hresult⟩ := tryTransaction_stays L skip s tx.trx
      have htryFork : (s.tryTransaction L skip tx.trx).1.node.fork = s.node.fork := rfl
      cases htried : s.tryTransaction L skip tx.trx with
      | mk s1 r =>
        rw [htried] at hvisible hresult htryFork
        dsimp only at hvisible hresult htryFork
        obtain ⟨hfork, happlies, hsublist, hsize⟩ := ih total s1
        rw [hvisible] at happlies
        subst hresult
        cases happly : applyTransaction R skip s.visible tx.trx with
        | error e => exact ⟨hfork.trans htryFork, happlies, hsublist.cons _, hsize⟩
        | ok v =>
          dsimp only [Except.map]
          split
          · exact ⟨hfork.trans htryFork, happlies, hsublist.cons _, hsize⟩
          · rename_i hfits
            obtain ⟨hfork', ⟨v', happlies'⟩, hsublist', hsize'⟩ :=
              ih (total + L.packSizeProcessed ⟨tx.trx, L.operationResults skip s.visible.view tx.trx⟩)
                { s1 with session := some v }
            refine ⟨hfork'.trans htryFork, ⟨v', .cons happly happlies'⟩, hsublist'.cons_cons _, ?_⟩
            intro _
            rw [List.map_cons, List.sum_cons, ← Nat.add_assoc]
            exact hsize' (Nat.le_of_not_lt hfits)

variable {b : SignedBlock Id Trx Result Digest Signature}

omit [DecidableEq Digest] [DecidableEq PublicKey] in
theorem pushBlockWith_atHead {s : Db R Result} (hhead : AtHead (L.logic skip) s.node)
    (hprevious : R.previous b = s.node.state.view.headId) :
    ∃ node, match Transactions.applyBlock R L.checkpoints skip s.node.state b with
      | .ok state => node.state = state ∧ s.pushBlockWith L skip b = ({ s with node }, .ok false)
      | .error _ => node.state = s.node.state ∧
        s.pushBlockWith L skip b = ({ s with node }, .error (.fc "apply_block")) := by
  obtain ⟨fork, newHead, hpush, hdata⟩ := hhead.fork_pushBlock hprevious
  have hpush' : s.node.fork.pushBlock R.toBlockIds b = .ok (fork, newHead) := hpush
  unfold pushBlockWith
  rw [hpush']
  dsimp only
  rw [hdata, if_neg (not_not.mpr hprevious)]
  unfold Db.applyBlock
  cases happly : Transactions.applyBlock R L.checkpoints skip s.node.state b with
  | ok state =>
    have hsome : (L.logic skip).apply s.node.state b = some state := toOption_eq_some.mpr happly
    obtain ⟨node, heq, hstate, -⟩ :=
      Blocks.applyBlock_of_some (s := { s.node with fork := fork }) hsome
    rw [heq]
    exact ⟨node, hstate, rfl⟩
  | error e =>
    have hnone : (L.logic skip).apply s.node.state b = none := by
      show (Transactions.applyBlock R L.checkpoints skip s.node.state b).toOption = none
      rw [happly]
      rfl
    obtain ⟨node, heq, hstate, -⟩ :=
      Blocks.applyBlock_of_none (s := { s.node with fork := fork }) hnone
    rw [heq]
    exact ⟨{ node with fork := node.fork.remove R.toBlockIds [] (R.id b) }, hstate, rfl⟩

omit [DecidableEq Digest] [DecidableEq PublicKey] in
theorem pushBlock_atHead {s : Db R Result} (hhead : AtHead (L.logic skip) s.node)
    (hprevious : R.previous b = s.node.state.view.headId) :
    Restores L skip (s.pushBlock L skip b).1.node.state (s.popped ++ s.pending.map Processed.trx)
        (s.pushBlock L skip b).1.pending (s.pushBlock L skip b).1.visible ∧
      match Transactions.applyBlock R L.checkpoints skip s.node.state b with
      | .ok state => (s.pushBlock L skip b).1.node.state = state ∧ (s.pushBlock L skip b).2 = .ok false
      | .error _ => (s.pushBlock L skip b).1.node.state = s.node.state ∧
        (s.pushBlock L skip b).2 = .error (.fc "apply_block") := by
  obtain ⟨node, hpushed⟩ := pushBlockWith_atHead L skip
    (s := { s with pending := [], session := none }) hhead hprevious
  have hrestored := restorePending_restores L skip
    { s with node, pending := [], session := none } s.pending
  obtain ⟨hstate, -, -, kept, hpending, hrestores⟩ := hrestored
  have hpending : _ = kept := hpending
  have hrestores : Restores L skip node.state _ kept _ := hrestores
  unfold Db.pushBlock
  cases happly : Transactions.applyBlock R L.checkpoints skip s.node.state b with
  | ok state =>
    rw [happly] at hpushed
    obtain ⟨hnode, heq⟩ := hpushed
    rw [heq]
    dsimp only
    rw [hstate, hpending]
    exact ⟨hrestores, hnode, rfl⟩
  | error e =>
    rw [happly] at hpushed
    obtain ⟨hnode, heq⟩ := hpushed
    rw [heq]
    dsimp only
    rw [hstate, hpending]
    exact ⟨hrestores, hnode, rfl⟩

end Db

/-- It is the slot of the witness, which has the key; the instance of an object id has 48 bits. -/
structure Due (C : Signing σ Id Trx Result Key Digest Signature PublicKey) (L : Rules R Result Key)
    (s : Db R Result) (time witness : Nat) (key : Key) : Prop where
  slot : Db.checkSlot L s.visible.view time witness = .ok ()
  headSlot : Db.checkSlot L s.node.state.view time witness = .ok ()
  later : s.node.state.view.headTime < time
  time_lt : time < 2 ^ 32
  witness_lt : witness < 2 ^ 48
  signingKey : C.signingKey s.node.state.view witness = some (C.publicKey key)

/-- No checkpoint names another block for the number of this one, and what `_apply_block` does after the
transactions does not throw. -/
def Accepts (L : Rules R Result Key) (skip : Skip) (head : State R)
    (b : SignedBlock Id Trx Result Digest Signature) : Prop :=
  ∃ skip' v x, checkpointSkip R L.checkpoints { skip with transactionSignatures := true } b = .ok skip' ∧
    Applies L skip head b.transactions v ∧ R.finish skip' v.view b = .ok x

omit [DecidableEq Digest] [DecidableEq PublicKey] in
theorem skipsNoMore_of_checkpointSkip
    (h : checkpointSkip R L.checkpoints { skip with transactionSignatures := true } b = .ok skip') :
    SkipsNoMore skip skip' := by
  by_cases hcovers : L.checkpoints.Covers R b
  · rw [Transactions.checkpointSkip_of_covers hcovers h]
    exact skipsNoMore_everything skip
  · rw [Transactions.checkpointSkip_of_not_covers hcovers] at h
    rw [← Except.ok.inj h]
    exact skipsNoMore_signatures skip

theorem maxBlockHeaderSize_le {witness : Nat} (hwitness : witness < 2 ^ 48) :
    maxBlockHeaderSize witness ≤ minBlockSizeLimit := by
  have hbytes : packSizeUnsigned witness ≤ 7 :=
    packSizeUnsigned_le (by decide) (Nat.lt_trans hwitness (by decide))
  unfold maxBlockHeaderSize packSizeHeader minBlockSizeLimit
  omega

omit [DecidableEq Id] [DecidableEq Digest] in
theorem SignedBlock.packSize_le (packSizeProcessed : Processed Trx Result → Nat)
    (hcount : b.transactions.length < 2 ^ 21) :
    b.packSize packSizeProcessed ≤
      maxBlockHeaderSize b.witness + (b.transactions.map packSizeProcessed).sum := by
  have hbytes : packSizeUnsigned b.transactions.length ≤ 3 :=
    packSizeUnsigned_le (by decide) hcount
  unfold SignedBlock.packSize maxBlockHeaderSize packSizeHeader
  omega

variable {s : Db R Result} {time witness : Nat} {key : Key}

theorem Due.checkBlock (hdue : Due C L s time witness key) (hle : SkipsNoMore skip skip')
    (hb : b = C.assemble s.node.state.view.headId time witness chosen
      (if skip.witnessSignature then none else some key))
    (hsize : b.packSize L.packSizeProcessed ≤ L.maximumBlockSize s.node.state.view.objects) :
    C.checkBlock L skip' s.node.state.view b = .ok () := by
  have hpass : ∀ {skipped : Bool} {check : Except Exception Unit},
      check = .ok () → unlessSkipped skipped check = .ok () :=
    fun hcheck => Transactions.unlessSkipped_eq_ok.mpr fun _ => hcheck
  have htime : b.timestamp.toNat = time := by
    rw [hb]
    exact UInt32.toNat_ofNat_of_lt' hdue.time_lt
  unfold Signing.checkBlock
  refine bind_eq_ok.mpr ⟨(), hpass (fcAssert_eq_ok.mpr hsize), ?_⟩
  refine bind_eq_ok.mpr ⟨(), hpass (fcAssert_eq_ok.mpr ?_), ?_⟩
  · rw [hb]
    rfl
  have hkey : C.signingKey s.node.state.view b.witness = some (C.publicKey key) := by
    rw [hb]
    exact hdue.signingKey
  rw [hkey]
  refine bind_eq_ok.mpr ⟨(), ?_, hpass ?_⟩
  · refine unlessSkipped_mono hle.witnessSignature ?_
    rw [Transactions.unlessSkipped_eq_ok]
    intro hsigned
    rw [fcAssert_eq_ok, hb, hsigned]
    exact C.signee_sign key _
  · have hslot := hdue.headSlot
    unfold Db.checkSlot at hslot
    obtain ⟨hpos, hscheduled⟩ := of_fcAssert hslot
    rw [htime]
    refine fcAssert_bind_eq_ok.mpr ⟨hpos, fcAssert_eq_ok.mpr ?_⟩
    rw [fcAssert_eq_ok.mp hscheduled, hb]
    rfl

theorem BlockCode.applyBlock_isOk_iff (H : BlockCode C L) (hdue : Due C L s time witness key)
    {v : State R} (hb : b = C.assemble s.node.state.view.headId time witness chosen
      (if skip.witnessSignature then none else some key))
    (happlies : Applies L skip s.node.state chosen v)
    (hsize : b.packSize L.packSizeProcessed ≤ L.maximumBlockSize s.node.state.view.objects) :
    (∃ state, applyBlock R L.checkpoints { skip with transactionSignatures := true } s.node.state b =
      .ok state) ↔ Accepts L skip s.node.state b := by
  have htransactions : b.transactions = chosen := by rw [hb]; rfl
  have hprevious : s.node.state.view.headId = R.previous b := by rw [H.previous_eq, hb]; rfl
  have htime : R.timestamp b = time := by
    rw [H.timestamp_eq, hb]
    exact UInt32.toNat_ofNat_of_lt' hdue.time_lt
  -- what the transactions lead to under the flags of the checkpoints
  have hreplay : ∀ {skip' : Skip} {v : State R}, SkipsNoMore skip skip' →
      Applies L skip s.node.state chosen v → ∃ v2,
        applyTransactions R skip' s.node.state (R.transactions b) = .ok v2 ∧ v2.view = v.view := by
    intro skip' v hle happlies
    obtain ⟨v2, hrun, hshadows⟩ := H.applyTransactions_mono hle happlies ⟨rfl, fun _ => rfl⟩
    refine ⟨v2, ?_, hshadows.view⟩
    rw [H.transactions_eq, htransactions]
    exact hrun
  constructor
  · rintro ⟨state, happly⟩
    obtain ⟨skip', hskip, happly⟩ := of_bind happly
    obtain ⟨_, -, happly⟩ := of_bind happly
    obtain ⟨-, happly⟩ := of_fcAssert happly
    obtain ⟨-, happly⟩ := of_fcAssert happly
    obtain ⟨v2, hrun, happly⟩ := of_bind happly
    obtain ⟨x, hfinish, -⟩ := of_bind happly
    obtain ⟨v2', hrun', hview⟩ := hreplay (skipsNoMore_of_checkpointSkip hskip) happlies
    obtain rfl : v2 = v2' := Except.ok.inj (hrun.symm.trans hrun')
    rw [hview] at hfinish
    refine ⟨skip', v, x, hskip, ?_, hfinish⟩
    rw [htransactions]
    exact happlies
  · rintro ⟨skip', v', x, hskip, happlies', hfinish⟩
    rw [htransactions] at happlies'
    have hle := skipsNoMore_of_checkpointSkip hskip
    obtain ⟨v2, hrun, hview⟩ := hreplay hle happlies'
    rw [← hview] at hfinish
    have hcheck : R.checkBlock skip' s.node.state.view b = .ok () := by
      rw [H.checkBlock_eq]
      exact hdue.checkBlock hle hb hsize
    have hlater : s.node.state.view.headTime < R.timestamp b := by
      rw [htime]
      exact hdue.later
    exact ⟨_, bind_eq_ok.mpr ⟨skip', hskip, bind_eq_ok.mpr ⟨(), hcheck,
      fcAssert_bind_eq_ok.mpr ⟨hprevious, fcAssert_bind_eq_ok.mpr ⟨hlater,
        bind_eq_ok.mpr ⟨v2, hrun, bind_eq_ok.mpr ⟨x, hfinish, rfl⟩⟩⟩⟩⟩⟩⟩

def Db.builtBlock (L : Rules R Result Key) (skip : Skip) (s : Db R Result) (time witness : Nat)
    (key : Key) : SignedBlock Id Trx Result Digest Signature :=
  (({ s with session := none } : Db R Result).assembleBlock L skip time witness key).2

/-- What `generate_block` does at the slot of the witness, from one database to the next -/
structure Generates (L : Rules R Result Key) (skip : Skip) (s s' : Db R Result)
    (b : SignedBlock Id Trx Result Digest Signature)
    (result : Except Exception (SignedBlock Id Trx Result Digest Signature)) : Prop where
  packSize_le : b.packSize L.packSizeProcessed ≤ L.maximumBlockSize s.node.state.view.objects
  sublist : (b.transactions.map Processed.trx).Sublist (s.pending.map Processed.trx)
  applies : ∃ v, Applies L skip s.node.state b.transactions v
  accepted : Accepts L skip s.node.state b → result = .ok b ∧
    applyBlock R L.checkpoints { skip with transactionSignatures := true } s.node.state b =
      .ok s'.node.state
  refused : ¬Accepts L skip s.node.state b → (∃ e, result = .error e) ∧ s'.node.state = s.node.state
  /-- Every pending transaction is pending again, known or does not apply at its turn. -/
  pending : Restores L { skip with transactionSignatures := true } s'.node.state
    (s.popped ++ s.pending.map Processed.trx) s'.pending s'.visible

omit [DecidableEq Digest] [DecidableEq PublicKey] in
variable (L skip) in
theorem Db.builtBlock_spec (s : Db R Result) (time witness : Nat) (key : Key) :
    (({ s with session := none } : Db R Result).assembleBlock L skip time witness key).1.node.fork =
      s.node.fork ∧
    ∃ chosen v, s.builtBlock L skip time witness key =
        L.assemble s.node.state.view.headId time witness chosen
          (if skip.witnessSignature then none else some key) ∧
      Applies L skip s.node.state chosen v ∧
      (chosen.map Processed.trx).Sublist (s.pending.map Processed.trx) ∧
      (L.maxBlockHeaderSize witness ≤ L.maximumBlockSize s.node.state.view.objects →
        L.maxBlockHeaderSize witness + (chosen.map L.packSizeProcessed).sum ≤
          L.maximumBlockSize s.node.state.view.objects) := by
  obtain ⟨hfork, ⟨v, happlies⟩, hsublist, hsize⟩ := Db.selectTransactions_spec L skip
    (L.maximumBlockSize s.node.state.view.objects) (L.maxBlockHeaderSize witness) s.pending
    { s.startSession 0 with session := some s.node.state }
  exact ⟨hfork, _, v, rfl, happlies, hsublist, hsize⟩

omit [DecidableEq Digest] [DecidableEq PublicKey] in
theorem Db.generateBlock_eq (hslot : Db.checkSlot L s.visible.view time witness = .ok ())
    (hkey : Db.checkSigningKey L skip s.node.state.view witness key = .ok ()) :
    ∃ s1, s1 = (({ s with session := none } : Db R Result).assembleBlock L skip time witness key).1 ∧
      s.generateBlock L skip time witness key =
        ((s1.pushBlock L { skip with transactionSignatures := true }
            (s.builtBlock L skip time witness key)).1,
          (s1.pushBlock L { skip with transactionSignatures := true }
            (s.builtBlock L skip time witness key)).2.map fun _ => s.builtBlock L skip time witness key) := by
  refine ⟨_, rfl, ?_⟩
  unfold Db.generateBlock Db.builtBlock
  rw [hslot]
  dsimp only
  rw [hkey]
  cases ({ s with session := none } : Db R Result).assembleBlock L skip time witness key with
  | mk s1 b =>
    dsimp only
    cases s1.pushBlock L { skip with transactionSignatures := true } b with
    | mk s2 r =>
      cases r with
      | ok _ => rfl
      | error e => rfl

/-- At its slot a witness builds a block that is not too large, from pending transactions in their
order with their results on the head block.  Its push succeeds exactly if no checkpoint names another
block and what follows the transactions does not throw.  What is left out is pending again, unless it
is known or does not apply any more. -/
theorem generateBlock_generates (H : BlockCode C L) (hhead : AtHead (L.logic skip) s.node)
    (hdue : Due C L s time witness key)
    (hlimit : minBlockSizeLimit ≤ L.maximumBlockSize s.node.state.view.objects)
    (hcount : (s.builtBlock L skip time witness key).transactions.length < 2 ^ 21) :
    Generates L skip s (s.generateBlock L skip time witness key).1
      (s.builtBlock L skip time witness key) (s.generateBlock L skip time witness key).2 := by
  obtain ⟨hfork, chosen, v, hb, happlies, hsublist, hcounted⟩ := s.builtBlock_spec L skip time witness key
  obtain ⟨hstays, hpending⟩ :=
    Db.assembleBlock_stays (L := L) skip { s with session := none } time witness key
  rw [H.assemble_eq] at hb
  have htransactions : (s.builtBlock L skip time witness key).transactions = chosen := by rw [hb]; rfl
  have hsize : (s.builtBlock L skip time witness key).packSize L.packSizeProcessed ≤
      L.maximumBlockSize s.node.state.view.objects := by
    rw [H.maxBlockHeaderSize_eq] at hcounted
    have hwitness : (s.builtBlock L skip time witness key).witness = witness := by rw [hb]; rfl
    have hle := SignedBlock.packSize_le L.packSizeProcessed hcount
    rw [hwitness, htransactions] at hle
    exact hle.trans (hcounted ((maxBlockHeaderSize_le hdue.witness_lt).trans hlimit))
  have hkey : Db.checkSigningKey L skip s.node.state.view witness key = .ok () := by
    unfold Db.checkSigningKey
    rw [Transactions.unlessSkipped_eq_ok, H.isSigningKey_eq, hdue.signingKey]
    exact fun _ => fcAssert_eq_ok.mpr (decide_eq_true rfl)
  have haccepts : (∃ state, applyBlock R L.checkpoints { skip with transactionSignatures := true }
      s.node.state (s.builtBlock L skip time witness key) = .ok state) ↔
      Accepts L skip s.node.state (s.builtBlock L skip time witness key) :=
    H.applyBlock_isOk_iff hdue hb happlies hsize
  have hprevious : R.previous (s.builtBlock L skip time witness key) = s.node.state.view.headId := by
    rw [H.previous_eq, hb]
    rfl
  obtain ⟨s1, hs1, hgenerate⟩ := Db.generateBlock_eq hdue.slot hkey
  rw [← hs1] at hfork hstays hpending
  have hstate : s1.node.state = s.node.state := hstays.state
  have hhead1 : AtHead (L.logic { skip with transactionSignatures := true }) s1.node := by
    constructor
    case wf => rw [hfork]; exact hhead.wf
    case head_mem => rw [hfork]; exact hhead.head_mem
    case head_id => rw [hfork, hstate]; exact hhead.head_id
  rw [← hstate] at hprevious haccepts
  obtain ⟨hrestores, hpushed⟩ := Db.pushBlock_atHead L _ hhead1 hprevious
  rw [hgenerate]
  refine ⟨hsize, ?_, ?_, ?_, ?_, ?_⟩
  · rw [htransactions]
    exact hsublist
  · rw [htransactions]
    exact ⟨v, happlies⟩
  · intro hstands
    rw [← hstate] at hstands ⊢
    obtain ⟨state, happly⟩ := haccepts.mpr hstands
    rw [happly] at hpushed ⊢
    obtain ⟨hhead', hresult⟩ := hpushed
    dsimp only
    rw [hhead', hresult]
    exact ⟨rfl, rfl⟩
  · intro hstands
    rw [← hstate] at hstands ⊢
    cases happly : applyBlock R L.checkpoints { skip with transactionSignatures := true } s1.node.state
        (s.builtBlock L skip time witness key) with
    | ok state => exact absurd (haccepts.mp ⟨state, happly⟩) hstands
    | error e =>
      rw [happly] at hpushed
      obtain ⟨hhead', hresult⟩ := hpushed
      dsimp only
      rw [hresult]
      exact ⟨⟨_, rfl⟩, hhead'⟩
  · have hpopped : s1.popped = s.popped := hstays.popped
    have hpending : s1.pending = s.pending := hpending
    rw [hpopped, hpending] at hrestores
    exact hrestores

abbrev SlotBlock := SignedBlock (List Nat) Nat Nat (List Nat) (Nat × List Nat)

def slotSigning : Signing Nat (List Nat) Nat Nat Nat (List Nat) (Nat × List Nat) Nat where
  calculateMerkleRoot := List.map Processed.trx
  digest previous timestamp witness root := timestamp.toNat :: witness :: (previous ++ root)
  publicKey := id
  sign := Prod.mk
  unsigned := (0, [])
  signee signature digest := if signature.2 = digest then some signature.1 else none
  signee_sign _ _ := if_pos rfl
  signingKey _ witness := if witness = 0 then some 0 else none

def slotBase : ChainRules Nat (List Nat) SlotBlock Nat Nat where
  id b := b.timestamp.toNat :: b.previous
  previous := SignedBlock.previous
  numFromId := List.length
  zero := []
  num_id _ := rfl
  num_zero := List.length_nil
  previous_eq_of_id_eq _ _ h := (List.cons.inj h).2
  genesis := 0
  genesisTime := 0
  timestamp b := b.timestamp.toNat
  transactions b := b.transactions.map Processed.trx
  trxId := id
  expiration _ := 1000
  validate _ := .ok ()
  verifyAuthority _ _ := .ok ()
  matchesReference _ _ := true
  fitsSize _ _ := true
  maximumTimeUntilExpiration _ := 86400
  applyOperations _ v trx := do
    fcAssert (0 < trx) "0 < trx"
    return v.objects + trx
  checkBlock _ _ _ := .ok ()
  finish _ v _ := .ok v.objects
  timestamp_lt b := b.timestamp.toNat_lt
  expiration_eq_of_trxId_eq _ _ _ := rfl
  maximum_of_applyOperations _ _ _ _ _ := rfl
  applyOperations_unique _ _ _ _ _ _ h h' := Except.ok.inj (h.symm.trans h')
  finish_unique _ _ _ _ _ _ h h' := Except.ok.inj (h.symm.trans h')

def slotRules (R : ChainRules Nat (List Nat) SlotBlock Nat Nat)
    (checkpoints : Transactions.Checkpoints (List Nat)) : Rules R Nat Nat where
  checkpoints
  operationResults _ v trx := [v.objects + trx]
  packSize _ := 1500
  packSizeProcessed _ := 1500
  maxBlockHeaderSize := maxBlockHeaderSize
  maximumBlockSize _ := minBlockSizeLimit
  slotAtTime v time := time - v.headTime
  scheduledWitness _ _ := 0
  isSigningKey v witness key := slotSigning.signingKey v witness = some key
  assemble := slotSigning.assemble
  forkWindow _ _ b := some (b.previous.length + 2)
  undoWindow _ _ b _ _ := b.previous.length + 2
  proposalWindow _ _ _ _ undoMax := undoMax
  forkWindow_of_apply _ _ _ _ _ := Option.some_ne_none _
  forkWindow_pos _ _ _ _ h := Option.some.inj h ▸ Nat.succ_pos _
  le_undoWindow _ _ _ _ _ _ h := Nat.le_of_eq (Option.some.inj h).symm

def slotChain : ChainRules Nat (List Nat) SlotBlock Nat Nat :=
  { slotBase with checkBlock := slotSigning.checkBlock (slotRules slotBase .none) }

theorem slotChain_blockCode (checkpoints : Transactions.Checkpoints (List Nat)) :
    BlockCode slotSigning (slotRules slotChain checkpoints) where
  previous_eq _ := rfl
  timestamp_eq _ := rfl
  transactions_eq _ := rfl
  checkBlock_eq _ _ _ := rfl
  assemble_eq _ _ _ _ _ := rfl
  maxBlockHeaderSize_eq _ := rfl
  isSigningKey_eq _ _ _ := rfl
  applyOperations_le _ h := h

def slotDb (checkpoints : Transactions.Checkpoints (List Nat)) : Db slotChain Nat :=
  { Db.start (slotRules slotChain checkpoints) with
    pending := [⟨7, []⟩, ⟨0, []⟩, ⟨8, []⟩, ⟨9, []⟩, ⟨10, []⟩] }

theorem slotDb_due (checkpoints : Transactions.Checkpoints (List Nat)) :
    Due slotSigning (slotRules slotChain checkpoints) (slotDb checkpoints) 5 0 0 :=
  ⟨rfl, rfl, Nat.zero_lt_succ 4, by decide, by decide, rfl⟩

theorem generateBlock_generates_three :
    Generates (slotRules slotChain .none) {} (slotDb .none)
      ((slotDb .none).generateBlock (slotRules slotChain .none) {} 5 0 0).1
      ((slotDb .none).builtBlock (slotRules slotChain .none) {} 5 0 0)
      ((slotDb .none).generateBlock (slotRules slotChain .none) {} 5 0 0).2 ∧
    ((slotDb .none).generateBlock (slotRules slotChain .none) {} 5 0 0).2.isOk = true ∧
    ((slotDb .none).builtBlock (slotRules slotChain .none) {} 5 0 0).transactions =
      [⟨7, [7]⟩, ⟨8, [15]⟩, ⟨9, [24]⟩] ∧
    ((slotDb .none).generateBlock (slotRules slotChain .none) {} 5 0 0).1.pending = [⟨10, [34]⟩] := by
  refine ⟨generateBlock_generates (slotChain_blockCode .none) Blocks.settled_start.atHead
    (slotDb_due .none) (Nat.le_refl _) (by decide +kernel), ?_, ?_, ?_⟩
  · decide +kernel
  · decide +kernel
  · decide +kernel

def strayDb : Db slotChain Nat :=
  ((Db.start (slotRules slotChain .none)).pushBlock (slotRules slotChain .none) {}
    ⟨[3], 5, 0, [], (0, []), []⟩).1

/-- A checkpoint names another first block, or a block that links to nothing is the head of the fork
database: both times the block of the due witness is refused. -/
theorem generated_block_refused :
    (∃ checkpoints, BlockCode slotSigning (slotRules slotChain checkpoints) ∧
      AtHead ((slotRules slotChain checkpoints).logic {}) (slotDb checkpoints).node ∧
      Due slotSigning (slotRules slotChain checkpoints) (slotDb checkpoints) 5 0 0 ∧
      ((slotDb checkpoints).generateBlock (slotRules slotChain checkpoints) {} 5 0 0).2.isOk = false) ∧
    BlockCode slotSigning (slotRules slotChain .none) ∧
    Due slotSigning (slotRules slotChain .none) strayDb 5 0 0 ∧
    (strayDb.generateBlock (slotRules slotChain .none) {} 5 0 0).2.isOk = false := by
  refine ⟨⟨⟨[(1, [6])], List.pairwise_singleton _ _⟩, slotChain_blockCode _,
    Blocks.settled_start.atHead, slotDb_due _, by decide +kernel⟩, slotChain_blockCode _, ?_, ?_⟩
  · exact ⟨rfl, rfl, by decide +kernel, by decide, by decide, rfl⟩
  · decide +kernel

end Meta1Core.Pending
