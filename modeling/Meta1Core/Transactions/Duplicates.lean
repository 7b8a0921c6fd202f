import Meta1Core.Transactions.Blocks

/-!
# No transaction is applied twice

What was applied with the check for duplicates stays recorded until it has expired, and what has
expired is not applied.
-/

namespace Meta1Core.Transactions

open Allocation (u32 u32Sub)
open Lib (Reachable bind_eq_ok of_bind)

variable {σ Id Block TrxId Trx : Type} {R : ChainRules σ Id Block TrxId Trx}

theorem unlessSkipped_eq_ok {skipped : Bool} {check : Except Exception Unit} {u : Unit} :
    unlessSkipped skipped check = .ok u ↔ (skipped = false → check = .ok ()) := by
  unfold unlessSkipped
  cases skipped with
  | true => simp
  | false => simp

theorem of_checkReference {skip : Skip} {v : View σ Id} {trx : Trx} {u : Unit}
    (h : checkReference R skip v trx = .ok u) :
    R.expiration trx ≤ u32 (v.headTime + R.maximumTimeUntilExpiration v.objects) ∧
      v.headTime ≤ R.expiration trx := by
  obtain ⟨_, -, h⟩ := of_bind h
  obtain ⟨hmaximum, h⟩ := of_fcAssert h
  obtain ⟨hnow, -⟩ := of_fcAssert h
  exact ⟨hmaximum, hnow⟩

variable {s s' : State R}

@[simp] theorem knows_record {skip : Skip} {trx : Trx} {v : View σ Id} {id : TrxId} :
    (State.mk v (s.record skip trx) : State R).knows id ↔
      skip.transactionDupeCheck = false ∧ R.trxId trx = id ∨ s.knows id := by
  unfold State.knows State.record
  cases skip.transactionDupeCheck with
  | true => simp
  | false => simp

theorem Checkpoints.none_covers : ¬(Checkpoints.none : Checkpoints Id).Covers R b := by
  rintro ⟨last, hlast, -⟩
  cases hlast

theorem Checkpoints.le_last (c : Checkpoints Id) {last : Nat × Id}
    (hlast : c.entries.getLast? = some last) {num : Nat} {id : Id}
    (h : c.entries.lookup num = some id) : num ≤ last.1 := by
  obtain ⟨before, hentries⟩ := List.getLast?_eq_some_iff.mp hlast
  have hsorted := c.sorted
  have hmem : (num, id) ∈ c.entries := by
    rw [List.lookup_eq_some_iff] at h
    obtain ⟨l1, l2, hl, -⟩ := h
    rw [hl]
    simp
  rw [hentries] at hmem hsorted
  rcases List.mem_append.mp hmem with hmem | hmem
  · have hlt := (List.pairwise_append.mp hsorted).2.2 _ hmem last (List.mem_singleton.mpr rfl)
    exact Nat.le_of_lt hlt
  · have heq : (num, id) = last := List.mem_singleton.mp hmem
    rw [← heq]

section

variable [DecidableEq Id] {c : Checkpoints Id} {skip skip' : Skip} {b : Block}

theorem checkpointSkip_of_not_covers (h : ¬c.Covers R b) : checkpointSkip R c skip b = .ok skip := by
  unfold checkpointSkip
  cases hlast : c.entries.getLast? with
  | none => rfl
  | some last =>
    dsimp only
    by_cases hzero : last.2 ≠ R.zero
    · have hnum : ¬R.blockNum b ≤ last.1 := fun hle => h ⟨last, hlast, hzero, hle⟩
      rw [if_pos hzero]
      refine fcAssert_bind_eq_ok.mpr ⟨?_, ?_⟩
      · intro id hid
        exact absurd (c.le_last hlast hid) hnum
      · rw [if_neg hnum]
        rfl
    · rw [if_neg hzero]

theorem checkpointSkip_of_covers (h : c.Covers R b) (hskip : checkpointSkip R c skip b = .ok skip') :
    skip' = Skip.everything := by
  obtain ⟨last, hlast, hzero, hnum⟩ := h
  unfold checkpointSkip at hskip
  rw [Option.mem_def.mp hlast] at hskip
  dsimp only at hskip
  rw [if_pos hzero] at hskip
  obtain ⟨-, hskip⟩ := of_fcAssert hskip
  rw [if_pos hnum] at hskip
  cases hskip
  rfl

end

variable [DecidableEq TrxId]

structure Passes (skip : Skip) (s : State R) (trx : Trx) (x : σ) : Prop where
  valid : R.validate trx = .ok ()
  fresh : skip.transactionDupeCheck = false → ¬s.knows (R.trxId trx)
  authorized : skip.transactionSignatures = false → R.verifyAuthority s.view trx = .ok ()
  reference : s.view.headNum ≠ 0 → checkReference R skip s.view trx = .ok ()
  operations : R.applyOperations skip s.view trx = .ok x

theorem applyTransaction_eq_ok {skip : Skip} {trx : Trx} :
    applyTransaction R skip s trx = .ok s' ↔
      ∃ x, Passes skip s trx x ∧ s' = ⟨{ s.view with objects := x }, s.record skip trx⟩ := by
  unfold applyTransaction
  constructor
  · intro h
    obtain ⟨_, hvalid, h⟩ := of_bind h
    obtain ⟨_, hfresh, h⟩ := of_bind h
    obtain ⟨_, hauthorized, h⟩ := of_bind h
    obtain ⟨_, hreference, h⟩ := of_bind h
    obtain ⟨x, hoperations, h⟩ := of_bind h
    cases h
    refine ⟨x, ⟨hvalid, ?_, unlessSkipped_eq_ok.mp hauthorized, ?_, hoperations⟩, rfl⟩
    · intro hskip
      exact fcAssert_eq_ok.mp (unlessSkipped_eq_ok.mp hfresh hskip)
    · intro hnum
      exact unlessSkipped_eq_ok.mp hreference (decide_eq_false hnum)
  · rintro ⟨x, h, rfl⟩
    refine bind_eq_ok.mpr ⟨(), h.valid, bind_eq_ok.mpr ⟨(), ?_, ?_⟩⟩
    · exact unlessSkipped_eq_ok.mpr fun hskip => fcAssert_eq_ok.mpr (h.fresh hskip)
    refine bind_eq_ok.mpr ⟨(), unlessSkipped_eq_ok.mpr h.authorized, ?_⟩
    refine bind_eq_ok.mpr ⟨(), ?_, bind_eq_ok.mpr ⟨x, h.operations, rfl⟩⟩
    exact unlessSkipped_eq_ok.mpr fun hnum => h.reference (of_decide_eq_false hnum)

structure Applied (skip : Skip) (s : State R) (ts : List Trx) (s' : State R) : Prop where
  headNum : s'.view.headNum = s.view.headNum
  headTime : s'.view.headTime = s.view.headTime
  headId : s'.view.headId = s.view.headId
  maximum : R.maximumTimeUntilExpiration s'.view.objects =
    R.maximumTimeUntilExpiration s.view.objects
  expiration : s.view.headNum ≠ 0 → ∀ t ∈ ts, s.view.headTime ≤ R.expiration t ∧
    R.expiration t ≤ u32 (s.view.headTime + R.maximumTimeUntilExpiration s.view.objects)
  fresh : skip.transactionDupeCheck = false → (ts.map R.trxId).Nodup ∧
    ∀ t ∈ ts, ¬s.knows (R.trxId t)
  recorded : ∀ t, t ∈ s'.recorded.rows ↔
    skip.transactionDupeCheck = false ∧ t ∈ ts ∨ t ∈ s.recorded.rows

theorem of_applyTransactions {skip : Skip} {ts : List Trx}
    (h : applyTransactions R skip s ts = .ok s') : Applied skip s ts s' := by
  induction ts generalizing s with
  | nil =>
    cases h
    exact ⟨rfl, rfl, rfl, rfl, nofun, fun _ => ⟨List.nodup_nil, nofun⟩, by simp⟩
  | cons t ts ih =>
    obtain ⟨s1, hfirst, hrest⟩ := of_bind h
    obtain ⟨x, hpasses, rfl⟩ := applyTransaction_eq_ok.mp hfirst
    have hmaximum := R.maximum_of_applyOperations _ _ _ _ hpasses.operations
    have happlied := ih hrest
    constructor
    case headNum => exact happlied.headNum
    case headTime => exact happlied.headTime
    case headId => exact happlied.headId
    case maximum => exact happlied.maximum.trans hmaximum
    case expiration =>
      intro hnum t' hmem
      rcases List.mem_cons.mp hmem with rfl | hmem
      · exact (of_checkReference (hpasses.reference hnum)).symm
      · have hlater := happlied.expiration hnum t' hmem
        dsimp only at hlater
        rw [hmaximum] at hlater
        exact hlater
    case fresh =>
      intro hskip
      obtain ⟨hnodup, hfresh⟩ := happlied.fresh hskip
      -- a later transaction is checked against the first one too
      have hnew : ∀ t' ∈ ts, R.trxId t ≠ R.trxId t' ∧ ¬s.knows (R.trxId t') := by
        intro t' hmem
        have hunknown := hfresh t' hmem
        rw [knows_record] at hunknown
        exact ⟨fun heq => hunknown (.inl ⟨hskip, heq⟩), fun hknown => hunknown (.inr hknown)⟩
      constructor
      · rw [List.map_cons, List.nodup_cons]
        refine ⟨?_, hnodup⟩
        intro hmem
        obtain ⟨t', hmem, heq⟩ := List.mem_map.mp hmem
        exact (hnew t' hmem).1 heq.symm
      · intro t' hmem
        rcases List.mem_cons.mp hmem with rfl | hmem
        · exact hpasses.fresh hskip
        · exact (hnew t' hmem).2
    case recorded =>
      intro t'
      rw [happlied.recorded, List.mem_cons]
      dsimp only
      unfold State.record
      cases skip.transactionDupeCheck with
      | true => simp
      | false =>
        simp only [Bool.false_eq_true, if_false, Lib.Expiring.mem_insert, true_and]
        tauto

variable [DecidableEq Id]

structure AppliedBlock (skip : Skip) (s : State R) (b : Block) (s' : State R) : Prop where
  previous : s.view.headId = R.previous b
  later : s.view.headTime < R.timestamp b
  headNum : s'.view.headNum = R.blockNum b
  headTime : s'.view.headTime = R.timestamp b
  expiration : s.view.headNum ≠ 0 → ∀ t ∈ R.transactions b, s.view.headTime ≤ R.expiration t ∧
    R.expiration t ≤ u32 (s.view.headTime + R.maximumTimeUntilExpiration s.view.objects)
  fresh : skip.transactionDupeCheck = false → ((R.transactions b).map R.trxId).Nodup ∧
    ∀ t ∈ R.transactions b, ¬s.knows (R.trxId t)
  recorded : ∀ t, t ∈ s'.recorded.rows ↔
    (skip.transactionDupeCheck = false ∧ t ∈ R.transactions b ∨ t ∈ s.recorded.rows) ∧
      R.timestamp b ≤ R.expiration t

theorem of_applyBlockWith {skip : Skip} {b : Block} (h : applyBlockWith R skip s b = .ok s') :
    AppliedBlock skip s b s' := by
  obtain ⟨_, -, h⟩ := of_bind h
  obtain ⟨hprevious, h⟩ := of_fcAssert h
  obtain ⟨hlater, h⟩ := of_fcAssert h
  obtain ⟨s1, htransactions, h⟩ := of_bind h
  obtain ⟨x, -, h⟩ := of_bind h
  cases h
  have happlied := of_applyTransactions htransactions
  refine ⟨hprevious, hlater, rfl, rfl, happlied.expiration, happlied.fresh, ?_⟩
  intro t
  rw [Lib.Expiring.mem_clear, happlied.recorded]

variable {c : Checkpoints Id} {skip : Skip} {b : Block}

theorem of_applyBlock (h : applyBlock R c skip s b = .ok s') :
    ∃ skip', applyBlockWith R skip' s b = .ok s' ∧ (¬c.Covers R b → skip' = skip) ∧
      (c.Covers R b → skip' = Skip.everything) := by
  obtain ⟨skip', hskip, happly⟩ := of_bind h
  refine ⟨skip', happly, ?_, fun hcovers => checkpointSkip_of_covers hcovers hskip⟩
  intro hnot
  rw [checkpointSkip_of_not_covers hnot] at hskip
  exact (Except.ok.inj hskip).symm

theorem applyBlock_of_not_covers (h : ¬c.Covers R b) :
    applyBlock R c skip s b = applyBlockWith R skip s b := by
  unfold applyBlock
  rw [checkpointSkip_of_not_covers h]
  rfl

end Meta1Core.Transactions
