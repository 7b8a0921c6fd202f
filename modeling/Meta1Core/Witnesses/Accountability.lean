import Meta1Core.Lib.Median
import Meta1Core.Witnesses.Slots

/-!
# Who is accountable for an irreversible block

The witnesses that are needed for a block to become irreversible have all signed at or above it, and
two chains that disagree on an irreversible block have the intersection of two such sets of
witnesses on both of them.
-/

namespace Meta1Core.Witnesses

open Lib State

/-- `init_genesis`: no block yet, and nothing is confirmed. -/
structure State.Genesis (s : State) : Prop where
  headBlockId : s.dynamic.headBlockId.num = 0
  headBlockNumber : s.dynamic.headBlockNumber = 0
  lastIrreversible : s.dynamic.lastIrreversibleBlockNum = 0
  lastConfirmed : ∀ w n, s.lastConfirmed w = some n → n = 0

inductive Chain (ws : WitnessSet) : List BlockEvent → State → Prop
  | genesis {s : State} : s.Genesis → Chain ws [] s
  | block {es : List BlockEvent} {e : BlockEvent} {s s' : State} :
      Chain ws es s → s.activeWitnesses = ws → s.applyBlock e = .ok s' → Chain ws (es ++ [e]) s'

def SignedFrom (es : List BlockEvent) (n : Nat) (w : WitnessId) : Prop :=
  ∃ e ∈ es, e.block.witness = w ∧ n ≤ e.block.blockNum

instance (es : List BlockEvent) (n : Nat) (w : WitnessId) : Decidable (SignedFrom es n w) :=
  inferInstanceAs (Decidable (∃ e ∈ es, _))

theorem SignedFrom.append {es : List BlockEvent} {n : Nat} {w : WitnessId} (h : SignedFrom es n w)
    (fs : List BlockEvent) : SignedFrom (es ++ fs) n w := by
  obtain ⟨e, he, hsigned⟩ := h
  exact ⟨e, List.mem_append_left _ he, hsigned⟩

theorem SignedFrom.mono {es : List BlockEvent} {n m : Nat} {w : WitnessId} (h : SignedFrom es m w)
    (hle : n ≤ m) : SignedFrom es n w := by
  obtain ⟨e, he, hw, hn⟩ := h
  exact ⟨e, he, hw, Nat.le_trans hle hn⟩

/-- As many active witnesses as are needed for a block to become irreversible have signed from `n`
on. -/
def Quorum (ws : WitnessSet) (es : List BlockEvent) (n : Nat) : Prop :=
  ws.ids.length - irreversibleOffset ws.ids.length ≤ ws.ids.countP (SignedFrom es n)

theorem Quorum.imp {ws : WitnessSet} {es fs : List BlockEvent} {n m : Nat} (h : Quorum ws es n)
    (himp : ∀ w, SignedFrom es n w → SignedFrom fs m w) : Quorum ws fs m := by
  refine Nat.le_trans h (List.countP_mono_left fun w _ hw => ?_)
  simp only [decide_eq_true_eq] at hw ⊢
  exact himp w hw

structure Accounts (ws : WitnessSet) (es : List BlockEvent) (s : State) : Prop where
  headBlockId : s.dynamic.headBlockId.num = es.length
  headBlockNumber : s.dynamic.headBlockNumber = es.length
  numbered : es.map (·.block.blockNum) = List.range' 1 es.length
  /-- Whoever has confirmed a block has signed it. -/
  confirmed : ∀ w n, s.lastConfirmed w = some n →
    n = 0 ∨ ∃ e ∈ es, e.block.witness = w ∧ e.block.blockNum = n
  quorum : s.dynamic.lastIrreversibleBlockNum = 0 ∨
    Quorum ws es s.dynamic.lastIrreversibleBlockNum
  le_head : s.dynamic.lastIrreversibleBlockNum ≤ es.length

theorem State.Genesis.accounts {ws : WitnessSet} {s : State} (h : s.Genesis) :
    Accounts ws [] s where
  headBlockId := h.headBlockId
  headBlockNumber := h.headBlockNumber
  numbered := rfl
  confirmed := fun w n hn => .inl (h.lastConfirmed w n hn)
  quorum := .inl h.lastIrreversible
  le_head := by
    rw [h.lastIrreversible]
    exact Nat.le_refl 0

namespace Accounts

variable {ws : WitnessSet} {es : List BlockEvent} {e : BlockEvent} {s s' : State}

theorem quorum_of_confirmed {num : Nat} {nums : List Nat}
    (hconfirmed : ∀ w n, s.lastConfirmed w = some n →
      n = 0 ∨ ∃ e ∈ es, e.block.witness = w ∧ e.block.blockNum = n)
    (hnums : List.Forall₂ (fun w n => s.lastConfirmed w = some n) ws.ids nums)
    (hnum : (nums.insertionSort (· ≤ ·))[irreversibleOffset nums.length]? = some num)
    (hpos : 0 < num) : Quorum ws es num := by
  have hcount := length_sub_le_countP_insertionSort hnum
  rw [← hnums.length_eq] at hcount
  refine Nat.le_trans hcount (countP_le_of_forall₂ hnums fun w n hw hle => ?_)
  -- who has confirmed `num` or more has signed it
  simp only [decide_eq_true_eq] at hle ⊢
  rcases hconfirmed w n hw with hzero | ⟨e, he, hsigner, rfl⟩
  · omega
  · exact ⟨e, he, hsigner, hle⟩

theorem block (h : Accounts ws es s) (hactive : s.activeWitnesses = ws)
    (happly : s.applyBlock e = .ok s') : Accounts ws (es ++ [e]) s' := by
  have hblock := applyBlock_spec happly
  have hnum : e.block.blockNum = es.length + 1 := by
    rw [Block.blockNum, ← hblock.previous, h.headBlockId]
  have hlength : (es ++ [e]).length = es.length + 1 := by simp
  have hmem : e ∈ es ++ [e] := List.mem_append_right _ (List.mem_singleton_self e)
  have hconfirmed : ∀ w n, s'.lastConfirmed w = some n →
      n = 0 ∨ ∃ e' ∈ es ++ [e], e'.block.witness = w ∧ e'.block.blockNum = n := by
    intro w n hn
    rcases hblock.lastConfirmed w n hn with hzero | ⟨hw, hsigned⟩ | hbefore
    · exact .inl hzero
    · exact .inr ⟨e, hmem, hw.symm, hsigned.symm⟩
    · rcases h.confirmed w n hbefore with hzero | ⟨e', he', hsigned⟩
      · exact .inl hzero
      · exact .inr ⟨e', List.mem_append_left _ he', hsigned⟩
  obtain ⟨nums, num, hnums, hselect, hlast⟩ := hblock.lastIrreversible
  rw [hactive] at hnums
  have hnumbered : (es ++ [e]).map (·.block.blockNum) = List.range' 1 (es ++ [e]).length := by
    rw [List.map_append, h.numbered, hlength, List.range'_1_concat]
    simp [hnum, Nat.add_comm]
  constructor
  case headBlockId =>
    rw [hblock.headBlockId, Block.id, hnum, hlength]
  case headBlockNumber =>
    rw [hblock.headBlockNumber, hnum, hlength]
  case numbered => exact hnumbered
  case confirmed => exact hconfirmed
  case quorum =>
    rw [hlast]
    by_cases hle : num ≤ s.dynamic.lastIrreversibleBlockNum
    · rw [Nat.max_eq_left hle]
      rcases h.quorum with hzero | hquorum
      · exact .inl hzero
      · exact .inr (hquorum.imp fun w hw => hw.append [e])
    · rw [Nat.max_eq_right (by omega)]
      exact .inr (quorum_of_confirmed hconfirmed hnums hselect (by omega))
  case le_head =>
    rw [hlast, hlength]
    -- the selected number was confirmed by a witness, who signed a block of that number
    have hmem : num ∈ nums := by
      have hmem := List.mem_of_getElem? hselect
      rwa [List.mem_insertionSort] at hmem
    obtain ⟨w, -, hw⟩ := exists_of_mem_right hnums hmem
    have hle := h.le_head
    rcases hconfirmed w num hw with hzero | ⟨e', he', -, hnum'⟩
    · omega
    · have hbelow : e'.block.blockNum ∈ (es ++ [e]).map (·.block.blockNum) :=
        List.mem_map_of_mem he'
      rw [hnumbered, List.mem_range'_1, hlength] at hbelow
      omega

end Accounts

theorem Chain.accounts {ws : WitnessSet} {es : List BlockEvent} {s : State} (h : Chain ws es s) :
    Accounts ws es s := by
  induction h with
  | genesis hgenesis => exact hgenesis.accounts
  | block _ hactive happly ih => exact ih.block hactive happly

theorem Chain.run {ws : WitnessSet} {es fs : List BlockEvent} {s t : State} (h : Chain ws es s)
    (hmeet : StepsMeet State.applyBlock (fun s _ => s.activeWitnesses = ws) s fs)
    (hrun : Lib.run State.applyBlock s fs = .ok t) : Chain ws (es ++ fs) t := by
  induction fs generalizing es s with
  | nil =>
    cases hrun
    rw [List.append_nil]
    exact h
  | cons e fs ih =>
    obtain ⟨s', happly, hrest⟩ := run_cons_eq_ok.mp hrun
    rw [StepsMeet, happly] at hmeet
    rw [← List.singleton_append, ← List.append_assoc]
    exact ih (.block h hmeet.1 happly) hmeet.2 hrest

theorem lastIrreversible_le_of_applyBlock {s s' : State} {e : BlockEvent}
    (h : s.applyBlock e = .ok s') :
    s.dynamic.lastIrreversibleBlockNum ≤ s'.dynamic.lastIrreversibleBlockNum := by
  obtain ⟨_, _, -, -, hlast⟩ := (applyBlock_spec h).lastIrreversible
  rw [hlast]
  exact Nat.le_max_left _ _

theorem lastIrreversible_mono {s s' : State} {es : List BlockEvent}
    (h : Lib.run State.applyBlock s es = .ok s') :
    s.dynamic.lastIrreversibleBlockNum ≤ s'.dynamic.lastIrreversibleBlockNum := by
  induction es generalizing s with
  | nil =>
    cases h
    exact Nat.le_refl _
  | cons e es ih =>
    obtain ⟨t, ht, hrest⟩ := run_cons_eq_ok.mp h
    exact Nat.le_trans (lastIrreversible_le_of_applyBlock ht) (ih hrest)

theorem Accounts.lt_of_ne {ws ws' : WitnessSet} {es es' : List BlockEvent} {s s' : State}
    (h : Accounts ws es s) (h' : Accounts ws' es' s') {common rest rest' : List Block}
    (hes : es.map (·.block) = common ++ rest) (hes' : es'.map (·.block) = common ++ rest')
    {e e' : BlockEvent} (he : e ∈ es) (he' : e' ∈ es')
    (hnum : e.block.blockNum = e'.block.blockNum) (hne : e.block.id ≠ e'.block.id) :
    common.length < e.block.blockNum := by
  -- the block with number `n` is at position `n - 1`
  have hposition : ∀ {ws : WitnessSet} {es : List BlockEvent} {s : State} {e : BlockEvent},
      Accounts ws es s → e ∈ es →
        0 < e.block.blockNum ∧ (es.map (·.block))[e.block.blockNum - 1]? = some e.block := by
    intro ws es s e h he
    obtain ⟨i, hi, rfl⟩ := List.mem_iff_getElem.mp he
    have hget : (es.map (·.block.blockNum))[i]? = (List.range' 1 es.length)[i]? := by
      rw [h.numbered]
    simp only [List.getElem?_map, List.getElem?_eq_getElem hi, Option.map_some,
      List.getElem?_range' hi, Nat.one_mul, Option.some.injEq] at hget
    rw [hget]
    simp [hi]
  obtain ⟨hpos, hat⟩ := hposition h he
  obtain ⟨-, hat'⟩ := hposition h' he'
  by_contra hle
  rw [hes, List.getElem?_append_left (by omega)] at hat
  rw [hes', ← hnum, List.getElem?_append_left (by omega), hat] at hat'
  exact hne (congrArg Block.id (Option.some.inj hat'))

theorem Quorum.inter {ws : WitnessSet} {es es' : List BlockEvent} {n : Nat}
    (h : Quorum ws es n) (h' : Quorum ws es' n) :
    ws.ids.length - 2 * irreversibleOffset ws.ids.length ≤
      ws.ids.countP fun w => SignedFrom es n w ∧ SignedFrom es' n w := by
  have hinter := countP_add_countP_le (fun w => decide (SignedFrom es n w))
    (fun w => decide (SignedFrom es' n w)) ws.ids
  simp only [← Bool.decide_and] at hinter
  unfold Quorum at h h'
  omega

/-- The last irreversible number does not fall, is not above the head, and rises only to a number at
or above which all active witnesses but 30% have signed.  The witnesses of two chains with different
irreversible blocks at one height have, all but 60%, signed above the last shared block on both of
them. -/
theorem lastIrreversible_accountable (ws : WitnessSet) :
    (∀ es s, Chain ws es s → s.dynamic.lastIrreversibleBlockNum ≤ s.dynamic.headBlockNumber ∧
      (∀ fs s', Lib.run State.applyBlock s fs = .ok s' →
        s.dynamic.lastIrreversibleBlockNum ≤ s'.dynamic.lastIrreversibleBlockNum) ∧
      ∀ e s', s.activeWitnesses = ws → s.applyBlock e = .ok s' →
        s.dynamic.lastIrreversibleBlockNum < s'.dynamic.lastIrreversibleBlockNum →
        ws.ids.length - 3 * ws.ids.length / 10 ≤
          ws.ids.countP (SignedFrom (es ++ [e]) s'.dynamic.lastIrreversibleBlockNum)) ∧
    ∀ es s es' s', Chain ws es s → Chain ws es' s' →
      ∀ e ∈ es, ∀ e' ∈ es', e.block.blockNum = e'.block.blockNum → e.block.id ≠ e'.block.id →
        e.block.blockNum ≤ s.dynamic.lastIrreversibleBlockNum →
        e'.block.blockNum ≤ s'.dynamic.lastIrreversibleBlockNum →
        ∀ common rest rest', es.map (·.block) = common ++ rest →
          es'.map (·.block) = common ++ rest' →
          ws.ids.length - 2 * (3 * ws.ids.length / 10) ≤
            ws.ids.countP fun w =>
              SignedFrom es (common.length + 1) w ∧ SignedFrom es' (common.length + 1) w := by
  have hoffset : irreversibleOffset ws.ids.length = 3 * ws.ids.length / 10 := by
    unfold irreversibleOffset
    omega
  constructor
  · intro es s hchain
    have haccounts := hchain.accounts
    refine ⟨?_, fun fs s' => lastIrreversible_mono, fun e s' hactive happly hlt => ?_⟩
    · rw [haccounts.headBlockNumber]
      exact haccounts.le_head
    · rw [← hoffset]
      rcases (haccounts.block hactive happly).quorum with hzero | hquorum
      · omega
      · exact hquorum
  · intro es s es' s' hchain hchain' e he e' he' hnum hne hle hle' common rest rest' hes hes'
    have haccounts := hchain.accounts
    have haccounts' := hchain'.accounts
    have hfork := haccounts.lt_of_ne haccounts' hes hes' he he' hnum hne
    rw [← hoffset]
    -- both numbers are above the fork, so both quorums have signed above it
    apply Quorum.inter
    · rcases haccounts.quorum with hzero | hquorum
      · omega
      · exact hquorum.imp fun w hw => hw.mono (by omega)
    · rcases haccounts'.quorum with hzero | hquorum
      · omega
      · exact hquorum.imp fun w hw => hw.mono (by omega)

def forkGenesis : State where
  parameters := ⟨5, 3, 0⟩
  activeWitnesses := sampleState.activeWitnesses
  dynamic := { time := 1000, nextMaintenanceTime := 100000 }
  shuffledWitnesses := [2, 0, 1]
  witnesses := ((Index.create ∅ ⟨10, 0, 0, 0⟩).create ⟨11, 0, 0, 0⟩).create ⟨12, 0, 0, 0⟩

def forkBlocks (hash : Nat) : List BlockEvent :=
  [⟨⟨0, 0⟩, 1005, 0, hash, 10⟩, ⟨⟨1, hash⟩, 1010, 1, hash, 11⟩, ⟨⟨2, hash⟩, 1015, 2, hash, 12⟩].map
    fun block => { block, maintenance := sampleBlock.maintenance }

theorem forkGenesis_genesis : forkGenesis.Genesis := by
  refine ⟨rfl, rfl, rfl, fun w n hn => ?_⟩
  simp only [forkGenesis, lastConfirmed, Index.find_create] at hn
  split_ifs at hn
  all_goals cases hn
  all_goals rfl

theorem lastIrreversible_accountable_forked :
    3 ≤ [0, 1, 2].countP fun w =>
      SignedFrom (forkBlocks 7) 1 w ∧ SignedFrom (forkBlocks 8) 1 w := by
  have hchain : ∀ hash ∈ [7, 8], ∃ s, Chain forkGenesis.activeWitnesses (forkBlocks hash) s ∧
      s.dynamic.lastIrreversibleBlockNum = 1 := by
    intro hash hhash
    have hrun : StepsMeet State.applyBlock
          (fun s _ => s.activeWitnesses = forkGenesis.activeWitnesses) forkGenesis
          (forkBlocks hash) ∧
        Lib.Succeeds (Lib.run State.applyBlock forkGenesis (forkBlocks hash)) fun s =>
          s.dynamic.lastIrreversibleBlockNum = 1 := by
      revert hash
      decide
    obtain ⟨hmeet, s, hrun, hlast⟩ := hrun
    exact ⟨s, (Chain.genesis forkGenesis_genesis).run hmeet hrun, hlast⟩
  obtain ⟨s, hs, hlast⟩ := hchain 7 (by decide)
  obtain ⟨s', hs', hlast'⟩ := hchain 8 (by decide)
  have hforked := (lastIrreversible_accountable forkGenesis.activeWitnesses).2 _ s _ s' hs hs'
    ((forkBlocks 7).get ⟨0, by decide⟩) (List.get_mem _ _)
    ((forkBlocks 8).get ⟨0, by decide⟩) (List.get_mem _ _) (by decide) (by decide)
    (by rw [hlast]; decide) (by rw [hlast']; decide) [] _ _ rfl rfl
  exact hforked

end Meta1Core.Witnesses
