import Meta1Core.Pending.Restored

/-!
# Runs of calls

No call loses a pending transaction that is not accounted for.
-/

namespace Meta1Core.Pending

open Allocation (u32)
open Lib (Reachable)
open Transactions (ChainRules Skip State applyTransaction_eq_ok)

variable {σ Id Block TrxId Trx : Type} [DecidableEq Id] [DecidableEq TrxId]
  {R : ChainRules σ Id Block TrxId Trx} {Result Key : Type} {L : Rules R Result Key}

def Event.skip : Event Block Trx Key → Skip
  | .pushTransaction _ skip => skip
  | .pushBlock _ skip => skip
  | .generateBlock _ _ _ skip => skip

/-- The call pushes a block, of its own or of another witness. -/
def Rebuilds (L : Rules R Result Key) (s : Db R Result) : Event Block Trx Key → Prop
  | .pushTransaction _ _ => False
  | .pushBlock _ _ => True
  | .generateBlock time witness key skip => Produces L s time witness key skip

/-- A `generate_block` that fails the check of the signing key while transactions are pending -/
def Tears (L : Rules R Result Key) (s : Db R Result) : Event Block Trx Key → Prop
  | .generateBlock time witness key skip =>
    Db.checkSlot L s.visible.view time witness = .ok () ∧
      Db.checkSigningKey L skip s.node.state.view witness key ≠ .ok () ∧ s.pending ≠ []
  | _ => False

/-- What a call does to the pending transactions: none of them is lost without account. -/
def Kept (L : Rules R Result Key) (s s' : Db R Result) : Event Block Trx Key → Prop
  | .pushTransaction trx skip =>
    s'.node.state = s.node.state ∧
      match (s.pushTransaction L skip trx).2 with
      | .ok processed => processed.trx = trx ∧ s'.pending = s.pending ++ [processed]
      | .error _ => s'.pending = s.pending
  | .pushBlock b skip => Restored L skip b s s'
  | .generateBlock time witness key skip =>
    (Produces L s time witness key skip → ∃ s1 b,
      ({ s with session := none } : Db R Result).assembleBlock L skip time witness key = (s1, b) ∧
      s1.node.state = s.node.state ∧ s1.pending = s.pending ∧
      Restored L { skip with transactionSignatures := true } b s1 s') ∧
      (¬Produces L s time witness key skip → s'.node.state = s.node.state ∧ s'.pending = s.pending)

namespace Ready

variable {s s' : Db R Result} {e : Event Block Trx Key}

theorem start : Ready L (.start L) := ⟨.start, rfl⟩

theorem pushTransaction (h : Ready L s) (skip : Skip) (trx : Trx) :
    Ready L (s.pushTransaction L skip trx).1 ∧
      Kept L s (s.pushTransaction L skip trx).1 (.pushTransaction trx skip) ∧
      ∀ allowed, allowed skip → Follows L allowed s →
        Follows L allowed (s.pushTransaction L skip trx).1 := by
  have hcases : (∃ e, s.pushTransaction L skip trx = (s, .error e)) ∨
      s.pushTransaction L skip trx = s.pushTransactionWith L skip trx := by
    unfold Db.pushTransaction
    cases fcAssert (L.packSize trx < 1024 * 1024) "Transaction exceeds maximum transaction size." with
    | error e => exact .inl ⟨e, rfl⟩
    | ok _ => exact .inr rfl
  simp only [Kept]
  rcases hcases with ⟨e, heq⟩ | heq
  · rw [heq]
    exact ⟨h, ⟨rfl, rfl⟩, fun _ _ hfollows => hfollows⟩
  · obtain ⟨hstays, ⟨v, happly, hresult, hpending, hvisible⟩ | ⟨e, -, hresult, hpending, hvisible⟩⟩ :=
      Db.pushTransactionWith_cases L skip s trx
    · rw [heq, hresult]
      refine ⟨⟨hstays.led h.led, hstays.popped.trans h.popped⟩, ⟨hstays.state, rfl, hpending⟩, ?_⟩
      intro allowed hallowed hfollows
      unfold Follows
      rw [hstays.state, hpending, hvisible]
      exact .snoc hfollows hallowed happly
    · rw [heq, hresult]
      refine ⟨⟨hstays.led h.led, hstays.popped.trans h.popped⟩, ⟨hstays.state, hpending⟩, ?_⟩
      intro allowed _ hfollows
      unfold Follows
      rw [hstays.state, hpending, hvisible]
      exact hfollows

theorem step (h : Ready L s) (hstep : step L s e = .ok s') :
    Ready L s' ∧ Kept L s s' e ∧
      ∀ allowed, (∀ skip, allowed skip → allowed { skip with transactionSignatures := true }) →
        allowed e.skip → (Rebuilds L s e ∨ Follows L allowed s ∧ ¬Tears L s e) →
        Follows L allowed s' := by
  cases e with
  | pushTransaction trx skip =>
    cases hstep
    obtain ⟨hready, hkept, hfollows⟩ := h.pushTransaction skip trx
    refine ⟨hready, hkept, fun allowed _ hallowed hcase => ?_⟩
    rcases hcase with hrebuilds | ⟨hbefore, -⟩
    · exact hrebuilds.elim
    · exact hfollows allowed hallowed hbefore
  | pushBlock b skip =>
    cases hstep
    exact ⟨(h.pushBlock skip b).1, h.restored skip b,
      fun allowed _ hallowed _ => h.follows hallowed b⟩
  | generateBlock time witness key skip =>
    cases hstep
    rcases h.generateBlock_cases skip time witness key with ⟨hslot, heq⟩ | ⟨hslot, hkey, heq⟩ |
      ⟨hproduces, s1, b, hassemble, hready, hstate, hpending, heq⟩
    · rw [heq]
      refine ⟨h, ⟨fun hproduces => absurd hproduces.1 hslot, fun _ => ⟨rfl, rfl⟩⟩,
        fun allowed _ _ hcase => ?_⟩
      rcases hcase with hproduces | ⟨hbefore, -⟩
      · exact absurd hproduces.1 hslot
      · exact hbefore
    · rw [heq]
      refine ⟨⟨h.led, h.popped⟩, ⟨fun hproduces => absurd hproduces.2 hkey, fun _ => ⟨rfl, rfl⟩⟩,
        fun allowed _ _ hcase => ?_⟩
      rcases hcase with hproduces | ⟨-, hwhole⟩
      · exact absurd hproduces.2 hkey
      · -- nothing was pending
        have hnone : s.pending = [] := by
          by_contra hne
          exact hwhole ⟨hslot, hkey, hne⟩
        show Pends L allowed s.node.state s.pending s.node.state
        rw [hnone]
        exact .nil
    · rw [heq]
      have hrestored := hready.restored { skip with transactionSignatures := true } b
      exact ⟨(hready.pushBlock _ b).1,
        ⟨fun _ => ⟨s1, b, hassemble, hstate, hpending, hrestored⟩, fun hnot => absurd hproduces hnot⟩,
        fun allowed hclosed hallowed _ => hready.follows (hclosed skip hallowed) b⟩

end Ready

/-- The database after a call that pushed a block, or at the start; before that call anything may have
been called. -/
def Rebuilt (L : Rules R Result Key) (allowed : Skip → Prop) (s : Db R Result) : Prop :=
  s = .start L ∨ ∃ s0 e, Reachable (step L) (· = .start L) (fun _ _ => True) s0 ∧
    Rebuilds L s0 e ∧ allowed e.skip ∧ step L s0 e = .ok s

/-- What is reached from a push of a block without a failed check of the signing key -/
def Undisturbed (L : Rules R Result Key) (allowed : Skip → Prop) (s : Db R Result) : Prop :=
  Reachable (step L) (Rebuilt L allowed) (fun s e => ¬Tears L s e ∧ allowed e.skip) s

theorem ready_of_reachable {s : Db R Result}
    (h : Reachable (step L) (· = .start L) (fun _ _ => True) s) : Ready L s := by
  refine h.invariant (Ready L) ?_ ?_
  · rintro s rfl
    exact .start
  · intro s e s' hready _ hstep
    exact (hready.step hstep).1

/-- The run lemma: what is seen follows the head block from one push of a block on. -/
theorem Undisturbed.follows {allowed : Skip → Prop}
    (hclosed : ∀ skip, allowed skip → allowed { skip with transactionSignatures := true })
    {s : Db R Result} (h : Undisturbed L allowed s) : Ready L s ∧ Follows L allowed s := by
  refine h.invariant (fun s => Ready L s ∧ Follows L allowed s) ?_ ?_
  · rintro s (rfl | ⟨s0, e, hreach, hrebuilds, hallowed, hstep⟩)
    · exact ⟨.start, .nil⟩
    · obtain ⟨hready, -, hfollows⟩ := (ready_of_reachable hreach).step hstep
      exact ⟨hready, hfollows allowed hclosed hallowed (.inl hrebuilds)⟩
  · rintro s e s' ⟨hready, hbefore⟩ ⟨hwhole, hallowed⟩ hstep
    obtain ⟨hready', -, hfollows⟩ := hready.step hstep
    exact ⟨hready', hfollows allowed hclosed hallowed (.inr ⟨hbefore, hwhole⟩)⟩

/-- After any calls, whether or not they threw, no pending or popped transaction is lost that is not
accounted for, and the popped ones come first.  After a push of a block, and as long as no check of
the signing key fails, clients see the head block followed by the pending transactions; if those
calls check for duplicates, none is pending twice or known to the head block. -/
theorem pending_consistent {s : Db R Result}
    (h : Reachable (step L) (· = .start L) (fun _ _ => True) s) :
    (∀ e s', step L s e = .ok s' → Kept L s s' e) ∧
    (Undisturbed L (fun _ => True) s → Follows L (fun _ => True) s) ∧
    (Undisturbed L (fun skip => skip.transactionDupeCheck = false) s →
      (s.pending.map fun p => R.trxId p.trx).Nodup ∧
      ∀ p ∈ s.pending, ¬s.node.state.knows (R.trxId p.trx)) := by
  refine ⟨?_, ?_, ?_⟩
  · intro e s' hstep
    exact ((ready_of_reachable h).step hstep).2.1
  · intro hundisturbed
    exact (hundisturbed.follows fun _ _ => trivial).2
  · intro hundisturbed
    have hfollows := (hundisturbed.follows fun _ hskip => hskip).2
    obtain ⟨hnodup, hknown, -⟩ := hfollows.nodup fun _ hskip => hskip
    exact ⟨hnodup, fun p hp => (hknown p hp).2⟩

structure TaggedBlock where
  previous : List Nat
  tag : Nat
  transactions : List Nat := []
  valid : Bool := true
  deriving DecidableEq

def taggedChain : ChainRules Nat (List Nat) TaggedBlock Nat Nat where
  id b := b.tag :: b.previous
  previous := TaggedBlock.previous
  numFromId := List.length
  zero := []
  num_id _ := rfl
  num_zero := List.length_nil
  previous_eq_of_id_eq _ _ h := (List.cons.inj h).2
  genesis := 0
  genesisTime := 0
  timestamp b := u32 (b.previous.length + 1)
  transactions := TaggedBlock.transactions
  trxId := id
  expiration _ := 100
  validate _ := .ok ()
  verifyAuthority _ _ := .ok ()
  matchesReference _ _ := true
  fitsSize _ _ := true
  maximumTimeUntilExpiration _ := 86400
  applyOperations _ v _ := .ok (v.objects + 1)
  checkBlock _ _ b := fcAssert (b.valid = true) "valid"
  finish _ v _ := .ok v.objects
  timestamp_lt _ := Nat.mod_lt _ (by decide)
  expiration_eq_of_trxId_eq _ _ _ := rfl
  maximum_of_applyOperations _ _ _ _ _ := rfl
  applyOperations_unique _ _ _ _ _ _ h h' := Except.ok.inj (h.symm.trans h')
  finish_unique _ _ _ _ _ _ h h' := Except.ok.inj (h.symm.trans h')

def taggedRules : Rules taggedChain Unit Nat where
  checkpoints := .none
  operationResults _ _ _ := []
  packSize _ := 1
  packSizeProcessed _ := 1
  maxBlockHeaderSize _ := 1
  maximumBlockSize _ := 1000
  slotAtTime v time := time - v.headTime
  scheduledWitness _ _ := 0
  isSigningKey _ _ key := key = 0
  assemble previous _ _ transactions _ := ⟨previous, 0, transactions.map Processed.trx, true⟩
  forkWindow _ _ b := some (b.previous.length + 2)
  undoWindow _ _ b _ _ := b.previous.length + 2
  proposalWindow _ _ _ _ undoMax := undoMax
  forkWindow_of_apply _ _ _ _ _ := Option.some_ne_none _
  forkWindow_pos _ _ _ _ h := Option.some.inj h ▸ Nat.succ_pos _
  le_undoWindow _ _ _ _ _ _ h := Nat.le_of_eq (Option.some.inj h).symm

def forkRun : List (Event TaggedBlock Nat Nat) :=
  [.pushTransaction 1 {}, .pushBlock ⟨[], 1, [2], true⟩ {}, .pushBlock ⟨[], 2, [3], true⟩ {}]

/-- A valid block on block 2 takes the head there, and an invalid one takes it back to block 1 with the
transaction of block 2 left over. -/
theorem pending_consistent_switch :
    ∃ s valid invalid, Reachable (step taggedRules) (· = .start taggedRules) (fun _ _ => True) s ∧
      step taggedRules s (.pushBlock ⟨[2], 3, [], true⟩ {}) = .ok valid ∧
      step taggedRules s (.pushBlock ⟨[2], 3, [], false⟩ {}) = .ok invalid ∧
      (valid.node.state.view.headId = [3, 2] ∧ valid.pending.map Processed.trx = [2, 1] ∧
        Kept taggedRules s valid (.pushBlock ⟨[2], 3, [], true⟩ {})) ∧
      (invalid.node.state.view.headId = [1] ∧ invalid.pending.map Processed.trx = [3, 1] ∧
        Kept taggedRules s invalid (.pushBlock ⟨[2], 3, [], false⟩ {})) ∧
      Follows taggedRules (fun _ => True) invalid ∧ (invalid.pending.map fun p => p.trx).Nodup := by
  have hrun : Lib.Succeeds (Lib.run (step taggedRules) (.start taggedRules) forkRun) (fun s =>
      Lib.Succeeds (step taggedRules s (.pushBlock ⟨[2], 3, [], true⟩ {})) (fun valid =>
        valid.node.state.view.headId = [3, 2] ∧ valid.pending.map Processed.trx = [2, 1]) ∧
      Lib.Succeeds (step taggedRules s (.pushBlock ⟨[2], 3, [], false⟩ {})) (fun invalid =>
        invalid.node.state.view.headId = [1] ∧ invalid.pending.map Processed.trx = [3, 1])) := by
    decide +kernel
  obtain ⟨s, hrun, ⟨valid, hvalid, hhead, hpending⟩, invalid, hinvalid, hhead', hpending'⟩ := hrun
  have hany : Lib.StepsMeet (step taggedRules) (fun _ _ => True) (.start taggedRules) forkRun :=
    ⟨trivial, trivial, trivial, trivial⟩
  have hmeet : ∀ allowed : Skip → Prop, allowed {} → Lib.StepsMeet (step taggedRules)
      (fun s e => ¬Tears taggedRules s e ∧ allowed e.skip) (.start taggedRules) forkRun :=
    fun _ h => ⟨⟨nofun, h⟩, ⟨nofun, h⟩, ⟨nofun, h⟩, trivial⟩
  have hundisturbed : ∀ allowed : Skip → Prop, allowed {} → Undisturbed taggedRules allowed invalid :=
    fun allowed h => ((Reachable.init (.inl rfl)).run (hmeet allowed h) hrun).step
      (e := .pushBlock ⟨[2], 3, [], false⟩ {}) ⟨nofun, h⟩ hinvalid
  have hstart : Reachable (step taggedRules) (· = .start taggedRules) (fun _ _ => True)
      (.start taggedRules) := .init rfl
  have hreach := hstart.run hany hrun
  obtain ⟨hkept, -⟩ := pending_consistent hreach
  obtain ⟨-, hfollows, hnodup⟩ := pending_consistent (hreach.step trivial hinvalid)
  exact ⟨s, valid, invalid, hreach, hvalid, hinvalid, ⟨hhead, hpending, hkept _ _ hvalid⟩,
    ⟨hhead', hpending', hkept _ _ hinvalid⟩, hfollows (hundisturbed _ trivial),
    (hnodup (hundisturbed _ rfl)).1⟩

theorem Pends.objects_eq {allowed : Skip → Prop} {head v : State taggedChain}
    {pending : List (Processed Nat Unit)} (h : Pends taggedRules allowed head pending v) :
    v.view.objects = head.view.objects + pending.length := by
  induction h with
  | nil => rfl
  | snoc _ _ happly ih =>
    obtain ⟨x, hpasses, rfl⟩ := applyTransaction_eq_ok.mp happly
    have hobjects : x = _ + 1 := (Except.ok.inj hpasses.operations).symm
    dsimp only
    rw [hobjects, ih, List.length_append, List.length_singleton, Nat.add_assoc]

/-- A transaction is pending, and `generate_block` is called with another key than that of the witness -/
def tornRun : List (Event TaggedBlock Nat Nat) :=
  [.pushTransaction 1 {}, .generateBlock 1 0 7 {}]

/-- `generate_block` throws, and the next `push_transaction` that succeeds makes clients see its own
transaction only.  A transaction that is pushed twice without the check for duplicates is pending
twice. -/
theorem pending_torn :
    (∃ s, Lib.run (step taggedRules) (.start taggedRules) tornRun = .ok s ∧
      (s.pushTransaction taggedRules {} 2).2.isOk = true ∧
      ∀ allowed, ¬Follows taggedRules allowed (s.pushTransaction taggedRules {} 2).1) ∧
    Lib.Succeeds (Lib.run (step taggedRules) (.start taggedRules)
      [.pushTransaction 1 { transactionDupeCheck := true },
        .pushTransaction 1 { transactionDupeCheck := true }])
      (fun s => s.pending.map Processed.trx = [1, 1]) := by
  constructor
  · have hrun : Lib.Succeeds (Lib.run (step taggedRules) (.start taggedRules) tornRun) (fun s =>
        (s.pushTransaction taggedRules {} 2).2.isOk = true ∧
        (s.pushTransaction taggedRules {} 2).1.visible.view.objects ≠
          (s.pushTransaction taggedRules {} 2).1.node.state.view.objects +
            (s.pushTransaction taggedRules {} 2).1.pending.length) := by
      decide +kernel
    obtain ⟨s, hrun, hok, hobjects⟩ := hrun
    exact ⟨s, hrun, hok, fun allowed hfollows => hobjects hfollows.objects_eq⟩
  · decide +kernel

end Meta1Core.Pending
