import Meta1Core.Blocks.Atomicity
import Mathlib.Data.List.Sort

/-!
# Irreversible blocks

Every block moves the last irreversible number towards the numbers that most witnesses have
confirmed.  What a switch cannot reach is what the undo history no longer holds.
-/

namespace Meta1Core.Blocks

open Lib (Reachable StepsMeet Succeeds)

/-- `update_last_irreversible_block`: `nth_element` at the offset of `GRAPHENE_100_PERCENT -
GRAPHENE_IRREVERSIBLE_THRESHOLD` -/
def confirmedNum (activeWitnesses : List Nat) (lastConfirmed : Nat → Nat) : Nat :=
  ((activeWitnesses.map lastConfirmed).insertionSort (· ≤ ·)).getD
    ((10000 - 7000) * activeWitnesses.length / 10000) 0

/-- `apply_block` with what it says about witnesses: the signing witness confirms the block, and the
last irreversible number follows. -/
structure WitnessLogic (σ Id Block : Type) extends ChainLogic σ Id Block where
  activeWitnesses : σ → List Nat
  lastConfirmed : σ → Nat → Nat
  lastIrreversible : σ → Nat
  witness : Block → Nat
  lastConfirmed_genesis : ∀ w, lastConfirmed genesis w = 0
  lastIrreversible_genesis : lastIrreversible genesis = 0
  /-- `update_signing_witness` -/
  lastConfirmed_of_apply : ∀ s b s', apply s b = some s' →
    lastConfirmed s' = Function.update (lastConfirmed s) (witness b) (numFromId (id b))
  /-- `update_last_irreversible_block` -/
  lastIrreversible_of_apply : ∀ s b s', apply s b = some s' →
    lastIrreversible s' = max (lastIrreversible s)
      (confirmedNum (activeWitnesses s) (lastConfirmed s'))

variable {σ Id Block : Type}

theorem confirmedNum_le {activeWitnesses : List Nat} {lastConfirmed : Nat → Nat} {n : Nat}
    (h : ∀ w, lastConfirmed w ≤ n) : confirmedNum activeWitnesses lastConfirmed ≤ n := by
  unfold confirmedNum
  rw [List.getD_eq_getElem?_getD]
  cases hget : ((activeWitnesses.map lastConfirmed).insertionSort (· ≤ ·))[
      (10000 - 7000) * activeWitnesses.length / 10000]? with
  | none => exact Nat.zero_le _
  | some num =>
    have hmem := (List.perm_insertionSort _ _).mem_iff.mp (List.mem_of_getElem? hget)
    obtain ⟨w, -, rfl⟩ := List.mem_map.mp hmem
    exact h w

variable {chain newer : List Block} {states : List σ}

theorem lastIrreversible_le {P : WitnessLogic σ Id Block} {s : σ}
    (h : Applied P.toChainLogic P.genesis chain s states) :
    (∀ w, P.lastConfirmed s w ≤ P.numFromId (P.headId s)) ∧
      P.lastIrreversible s ≤ P.numFromId (P.headId s) := by
  induction h with
  | base =>
    refine ⟨fun w => ?_, ?_⟩
    · rw [P.lastConfirmed_genesis]
      exact Nat.zero_le _
    · rw [P.lastIrreversible_genesis]
      exact Nat.zero_le _
  | @block chain s s' states b h' happly ih =>
    have hnum : P.numFromId (P.headId s') = P.numFromId (P.headId s) + 1 := by
      rw [P.headId_of_apply _ _ _ happly, P.num_id, P.previous_of_apply _ _ _ happly]
    have hconfirmed : ∀ w, P.lastConfirmed s' w ≤ P.numFromId (P.headId s') := by
      intro w
      rw [P.lastConfirmed_of_apply _ _ _ happly, Function.update_apply]
      split
      · rw [P.headId_of_apply _ _ _ happly]
      · exact Nat.le_trans (ih.1 w) (by omega)
    refine ⟨hconfirmed, ?_⟩
    rw [P.lastIrreversible_of_apply _ _ _ happly]
    exact max_le (by omega) (confirmedNum_le hconfirmed)

/-! ## Chains with a fixed lower part -/

variable {P : ChainLogic σ Id Block} {s s' : Node σ Block} {low : List Block} {target : Id}

def topId (P : ChainLogic σ Id Block) (chain : List Block) : Id :=
  (chain.head?.map P.id).getD P.zero

variable {state : σ}

theorem Applied.headId_eq (h : Applied P P.genesis chain state states) :
    P.headId state = topId P chain := by
  cases h with
  | base => exact P.headId_genesis
  | block _ happly => exact P.headId_of_apply _ _ _ happly

theorem Applied.drop (h : Applied P P.genesis chain state states) {k : Nat} {before : σ}
    (hk : (state :: states)[k]? = some before) : P.headId before = topId P (chain.drop k) := by
  induction h generalizing k with
  | base =>
    cases k with
    | zero =>
      cases hk
      exact P.headId_genesis
    | succ k => cases hk
  | block h' happly ih =>
    cases k with
    | zero =>
      cases hk
      exact P.headId_of_apply _ _ _ happly
    | succ k => exact ih hk

def Above (P : ChainLogic σ Id Block) (low : List Block) (s : Node σ Block) : Prop :=
  ∃ newer states, Consistent P s (newer ++ low) states

/-- The chain of the node passes through `target` and ends with `low`, which does not begin above
`target`. -/
def Through (P : ChainLogic σ Id Block) (low : List Block) (target : Id) (s : Node σ Block) :
    Prop :=
  ∃ newer older states, Consistent P s (newer ++ (older ++ low)) states ∧
    topId P (older ++ low) = target

theorem Through.above (h : Through P low target s) : Above P low s := by
  obtain ⟨newer, older, states, hs, -⟩ := h
  exact ⟨newer ++ older, states, by rwa [List.append_assoc]⟩

theorem Above.setFork (h : Above P low s) (f : ForkDatabase Block) :
    Above P low { s with fork := f } := by
  obtain ⟨newer, states, h⟩ := h
  exact ⟨newer, states, h.applied, h.undo, h.stored⟩

theorem Through.setFork (h : Through P low target s) (f : ForkDatabase Block) :
    Through P low target { s with fork := f } := by
  obtain ⟨newer, older, states, h, htop⟩ := h
  exact ⟨newer, older, states, ⟨h.applied, h.undo, h.stored⟩, htop⟩

theorem Above.applyBlock (h : Above P low s) (b : Block) : Above P low (s.applyBlock P b).1 := by
  obtain ⟨newer, states, h⟩ := h
  cases happly : P.apply s.state b with
  | some state => exact ⟨b :: newer, _, h.applyBlock_of_some happly⟩
  | none => exact ⟨newer, _, h.applyBlock_of_none happly⟩

theorem Through.applyBlock (h : Through P low target s) (b : Block) :
    Through P low target (s.applyBlock P b).1 := by
  obtain ⟨newer, older, states, h, htop⟩ := h
  cases happly : P.apply s.state b with
  | some state => exact ⟨b :: newer, older, _, h.applyBlock_of_some happly, htop⟩
  | none => exact ⟨newer, older, _, h.applyBlock_of_none happly, htop⟩

theorem Above.restoreBranch (items : List (ForkItem Block)) (h : Above P low s) :
    Above P low (s.restoreBranch P items).1 := by
  induction items generalizing s with
  | nil => exact h
  | cons item rest ih =>
    rw [Node.restoreBranch]
    have happly := h.applyBlock item.data
    split
    · rename_i hres
      rw [hres] at happly
      exact ih happly
    · rename_i hres
      rw [hres] at happly
      exact happly

variable [DecidableEq Id]

theorem popBlock_cases (h : Consistent P s chain states) (held : List (ForkItem Block)) :
    ((s.popBlock P held).2 ≠ none ∧ Consistent P (s.popBlock P held).1 chain states) ∨
      ∃ b rest before states', chain = b :: rest ∧ s.undo = before :: (s.popBlock P held).1.undo ∧
        Consistent P (s.popBlock P held).1 rest states' := by
  unfold Node.popBlock
  cases s.fork.head with
  | none => exact .inl ⟨Option.some_ne_none _, h⟩
  | some head =>
    dsimp only
    split
    · exact .inl ⟨Option.some_ne_none _, h⟩
    · split
      · exact .inl ⟨Option.some_ne_none _, h.applied, h.undo, h.stored⟩
      · rename_i state undo hundo
        obtain ⟨happlied, ⟨rest, hrest⟩, hstored⟩ := h
        rw [hundo, List.cons_append] at hrest
        subst hrest
        obtain ⟨b, chain', rfl, -, happlied'⟩ := happlied.pop
        exact .inr ⟨b, chain', state, undo ++ rest, rfl, hundo, happlied', ⟨rest, rfl⟩,
          fun c hc => hstored c (List.mem_cons_of_mem _ hc)⟩

theorem popUntil_through (held : List (ForkItem Block)) (fuel : Nat) (h : Through P low target s) :
    Through P low target (s.popUntil P held target fuel).1 := by
  induction fuel generalizing s with
  | zero => exact h
  | succ fuel ih =>
    rw [Node.popUntil]
    split
    · rename_i hne
      obtain ⟨newer, older, states, hs, htop⟩ := h
      have hpopped : Through P low target (s.popBlock P held).1 := by
        rcases popBlock_cases hs held with ⟨-, hsame⟩ | ⟨b, rest, _, states', hchain, -, hrest⟩
        · exact ⟨newer, older, states, hsame, htop⟩
        · -- the head is not the target, so there is a block above it
          cases newer with
          | nil => exact absurd (hs.applied.headId_eq.trans htop) hne
          | cons c newer =>
            obtain ⟨-, rfl⟩ := List.cons.inj hchain
            exact ⟨newer, older, states', hrest, htop⟩
      split
      · rename_i hres
        rw [hres] at hpopped
        exact ih hpopped
      · rename_i hres
        rw [hres] at hpopped
        exact hpopped
    · exact h

theorem popUntil_above (held : List (ForkItem Block)) (target : Id) (fuel : Nat)
    (h : Consistent P s (newer ++ low) states) (hundo : s.undo.length ≤ newer.length) :
    Above P low (s.popUntil P held target fuel).1 ∧
      ((s.popUntil P held target fuel).2 = none →
        Through P low target (s.popUntil P held target fuel).1) := by
  induction fuel generalizing s newer states with
  | zero => exact ⟨⟨newer, states, h⟩, fun hnone => absurd hnone (Option.some_ne_none _)⟩
  | succ fuel ih =>
    rw [Node.popUntil]
    split
    · rcases popBlock_cases h held with ⟨hthrows, hsame⟩ | ⟨b, rest, _, states', hchain, hlen, hrest⟩
      · split
        · rename_i hres
          rw [hres] at hthrows
          exact absurd rfl hthrows
        · rename_i hres
          rw [hres] at hsame
          exact ⟨⟨newer, states, hsame⟩, fun hnone => absurd hnone (Option.some_ne_none _)⟩
      · cases newer with
        | nil =>
          rw [hlen] at hundo
          exact absurd hundo (Nat.not_succ_le_zero _)
        | cons c newer =>
          obtain ⟨-, rfl⟩ := List.cons.inj hchain
          rw [hlen] at hundo
          split
          · rename_i hres
            rw [hres] at hrest hundo
            exact ih hrest (Nat.le_of_succ_le_succ hundo)
          · rename_i hres
            rw [hres] at hrest
            exact ⟨⟨newer, states', hrest⟩, fun hnone => absurd hnone (Option.some_ne_none _)⟩
    · rename_i heq
      refine ⟨⟨newer, states, h⟩, fun _ => ⟨[], newer, states, h, ?_⟩⟩
      exact h.applied.headId_eq.symm.trans (not_not.mp heq)

variable {firsts seconds : List (ForkItem Block)} {front : ForkItem Block}

theorem Through.switchBack {invalid : List (ForkItem Block)} (h : Through P low target s) :
    Above P low (s.switchBack P firsts seconds invalid front target).1 := by
  unfold Node.switchBack
  dsimp only
  have hpop := popUntil_through (firsts ++ seconds) (s.undo.length + 1)
    (h.setFork ((invalid.foldl (fun f item =>
      f.remove P.toBlockIds (firsts ++ seconds) (P.id item.data)) s.fork).setHead front))
  split
  · rename_i hres
    rw [hres] at hpop
    exact hpop.above
  · rename_i hres
    rw [hres] at hpop
    have hrestore := hpop.above.restoreBranch seconds.reverse
    split
    · rename_i hres'
      rw [hres'] at hrestore
      exact hrestore
    · rename_i hres'
      rw [hres'] at hrestore
      exact hrestore

theorem Through.pushBranch (items : List (ForkItem Block)) (h : Through P low target s) :
    Above P low (s.pushBranch P firsts seconds front target items).1 := by
  induction items generalizing s with
  | nil => exact h.above
  | cons item rest ih =>
    rw [Node.pushBranch]
    have happly := h.applyBlock item.data
    split
    · rename_i hres
      rw [hres] at happly
      exact ih happly
    · rename_i hres
      rw [hres] at happly
      exact happly.switchBack

omit [DecidableEq Id] in
theorem Consistent.through (h : Consistent P s (newer ++ low) states)
    (hmem : target ∈ ((s.state :: s.undo).take (newer.length + 1)).map P.headId) :
    Through P low target s := by
  obtain ⟨before, hbefore, rfl⟩ := List.mem_map.mp hmem
  obtain ⟨k, hk⟩ := List.mem_iff_getElem?.mp hbefore
  obtain ⟨hlt, hk'⟩ : k < newer.length + 1 ∧ (s.state :: s.undo)[k]? = some before := by
    rw [List.getElem?_take] at hk
    split at hk
    · exact ⟨‹_›, hk⟩
    · cases hk
  obtain ⟨rest, hrest⟩ := h.undo
  have hstates : (s.state :: states)[k]? = some before := by
    obtain ⟨hlen, -⟩ := List.getElem?_eq_some_iff.mp hk'
    rw [← hrest, ← List.cons_append, List.getElem?_append_left hlen]
    exact hk'
  refine ⟨newer.take k, newer.drop k, states, ?_, ?_⟩
  · rwa [← List.append_assoc, List.take_append_drop]
  · rw [h.applied.drop hstates, List.drop_append_of_le_length (by omega)]

theorem Consistent.switchForks (h : Consistent P s (newer ++ low) states) (newHead : ForkItem Block)
    (hkeeps : ∀ firsts seconds back,
      s.fork.fetchBranchFrom P.toBlockIds (P.id newHead.data) (P.headId s.state) =
        .ok (firsts, seconds) → seconds.getLast? = some back →
      s.undo.length ≤ newer.length ∨ Through P low (P.previous back.data) s) :
    Above P low (s.switchForks P newHead).1 := by
  unfold Node.switchForks
  split
  · exact ⟨newer, states, h⟩
  · rename_i firsts seconds hfetch
    split
    · rename_i front back hfront hback
      dsimp only
      rcases hkeeps firsts seconds back hfetch hback with hlen | hthrough
      · obtain ⟨habove, hpopped⟩ := popUntil_above (firsts ++ seconds) (P.previous back.data)
          (s.undo.length + 1) h hlen
        split
        · rename_i hres
          rw [hres] at habove
          exact habove
        · rename_i hres
          rw [hres] at hpopped
          exact (hpopped rfl).pushBranch firsts.reverse
      · have hpopped := popUntil_through (firsts ++ seconds) (s.undo.length + 1) hthrough
        split
        · rename_i hres
          rw [hres] at hpopped
          exact hpopped.above
        · rename_i hres
          rw [hres] at hpopped
          exact hpopped.pushBranch firsts.reverse
    · exact ⟨newer, states, h⟩

/-! ## The condition on a push -/

/-- If the block switches forks, the undo history does not reach below the block number `num`, or
the switch goes back to a state that is not below. -/
def KeepsAbove (P : ChainLogic σ Id Block) (num : Nat) (s : Node σ Block) (b : Block) : Prop :=
  match s.fork.pushBlock P.toBlockIds b with
  | .error _ => True
  | .ok (fork, newHead) =>
    P.previous newHead.data = P.headId s.state ∨ P.blockNum newHead.data ≤ P.headNum s.state ∨
      match fork.fetchBranchFrom P.toBlockIds (P.id newHead.data) (P.headId s.state) with
      | .error _ => True
      | .ok (_, seconds) =>
        s.undo.length ≤ P.headNum s.state - num ∨
          ∀ back ∈ seconds.getLast?, P.previous back.data ∈
            ((s.state :: s.undo).take (P.headNum s.state - num + 1)).map P.headId

instance (P : ChainLogic σ Id Block) (num : Nat) (s : Node σ Block) (b : Block) :
    Decidable (KeepsAbove P num s b) :=
  match h : s.fork.pushBlock P.toBlockIds b with
  | .error _ => .isTrue (by rw [KeepsAbove, h]; trivial)
  | .ok (fork, newHead) =>
    match hf : fork.fetchBranchFrom P.toBlockIds (P.id newHead.data) (P.headId s.state) with
    | .error _ => .isTrue (by rw [KeepsAbove, h]; dsimp only; rw [hf]; exact .inr (.inr trivial))
    | .ok (_, seconds) =>
      decidable_of_iff (P.previous newHead.data = P.headId s.state ∨
          P.blockNum newHead.data ≤ P.headNum s.state ∨ s.undo.length ≤ P.headNum s.state - num ∨
          ∀ back ∈ seconds.getLast?, P.previous back.data ∈
            ((s.state :: s.undo).take (P.headNum s.state - num + 1)).map P.headId)
        (by rw [KeepsAbove, h]; dsimp only; rw [hf])

theorem Above.pushBlock (h : Above P low s) {b : Block} (hkeeps : KeepsAbove P low.length s b) :
    Above P low (s.pushBlock P b).1 := by
  unfold KeepsAbove at hkeeps
  unfold Node.pushBlock
  split
  · exact h
  · rename_i fork newHead hpush
    rw [hpush] at hkeeps
    have hfork := h.setFork fork
    dsimp only at hkeeps ⊢
    split
    · rename_i hne
      split
      · rename_i hhigher
        obtain ⟨newer, states, hs⟩ := hfork
        have hlen : P.headNum s.state - low.length = newer.length := by
          have hnum := hs.applied.num_headId
          rw [P.headId_genesis, P.num_zero, ← hs.applied.headNum_eq, List.length_append] at hnum
          dsimp only at hnum
          omega
        rw [hlen] at hkeeps
        refine hs.switchForks newHead fun firsts seconds back hfetch hback => ?_
        rcases hkeeps with heq | hle | hkeeps
        · exact absurd heq hne
        · exact absurd hle (Nat.not_le.mpr hhigher)
        · dsimp only at hfetch
          rw [hfetch] at hkeeps
          exact hkeeps.imp_right fun hmem => hs.through (hmem back hback)
      · exact hfork
    · have happly := hfork.applyBlock b
      split
      · rename_i hres
        rw [hres] at happly
        exact happly
      · rename_i hres
        rw [hres] at happly
        exact happly.setFork _

def InHeadChain (P : ChainLogic σ Id Block) (s : Node σ Block) (b : Block) : Prop :=
  ∃ chain : List Block, ChainTo P chain (P.headId s.state) ∧
    replay P P.genesis chain = some s.state ∧
    (∀ c ∈ chain, s.blocks (P.blockNum c) = some c) ∧ b ∈ chain

/-- The head chains of both nodes hold the same block at every height up to `num`. -/
def SameUpTo (P : ChainLogic σ Id Block) (num : Nat) (s s' : Node σ Block) : Prop :=
  ∀ height, 1 ≤ height → height ≤ num →
    ∃ b, P.blockNum b = height ∧ InHeadChain P s b ∧ InHeadChain P s' b

omit [DecidableEq Id] in
theorem Above.inHeadChain (h : Above P low s) {b : Block} (hb : b ∈ low) : InHeadChain P s b := by
  obtain ⟨newer, states, hs⟩ := h
  exact ⟨_, hs.applied.chainTo, hs.applied.replay_eq,
    fun c hc => hs.stored c (List.mem_reverse.mp hc),
    List.mem_reverse.mpr (List.mem_append_right _ hb)⟩

omit [DecidableEq Id] in
theorem Applied.exists_blockNum (h : Applied P P.genesis chain state states) {height : Nat}
    (hpos : 1 ≤ height) (hle : height ≤ chain.length) : ∃ b ∈ chain, P.blockNum b = height := by
  induction h with
  | base => exact absurd (Nat.le_trans hpos hle) (Nat.not_succ_le_zero _)
  | @block chain _ _ _ b h' happly ih =>
    rcases Nat.lt_or_ge chain.length height with hlt | hge
    · refine ⟨b, List.mem_cons_self, ?_⟩
      have hnum := h'.num_headId
      rw [P.headId_genesis, P.num_zero, Nat.zero_add] at hnum
      rw [List.length_cons] at hle
      rw [BlockIds.blockNum, P.previous_of_apply _ _ _ happly, hnum]
      omega
    · obtain ⟨c, hc, hnum⟩ := ih hge
      exact ⟨c, List.mem_cons_of_mem _ hc, hnum⟩

/-- After a push that succeeds, as long as every later push meets the condition for the irreversible
number that it left, every later head chain holds the same blocks up to that number. -/
theorem irreversible_kept {P : WitnessLogic σ Id Block} {s0 s s' : Node σ Block} {b : Block}
    {r : Bool} {bs : List Block}
    (hreach : Reachable (Node.push P.toChainLogic) (· = Node.start P.toChainLogic)
      (fun _ _ => True) s0)
    (hpush : s0.pushBlock P.toChainLogic b = (s, .ok r))
    (hmeet : StepsMeet (Node.push P.toChainLogic)
      (KeepsAbove P.toChainLogic (P.lastIrreversible s.state)) s bs)
    (hrun : Lib.run (Node.push P.toChainLogic) s bs = .ok s') :
    SameUpTo P.toChainLogic (P.lastIrreversible s.state) s s' := by
  have hreplayed0 : Replayed P.toChainLogic s0 := by
    refine hreach.invariant (Replayed P.toChainLogic) ?_ ?_
    · rintro s rfl
      exact settled_start.replayed
    · rintro s b s' hs - hstep
      cases hstep
      exact hs.pushBlock b
  have hreplayed := hreplayed0.pushBlock b
  rw [hpush] at hreplayed
  obtain ⟨chain, states, hs⟩ := hreplayed
  -- the irreversible part of the chain
  obtain ⟨newer, low, rfl, hlow⟩ : ∃ newer low, chain = newer ++ low ∧
      low.length = P.lastIrreversible s.state := by
    have hle := (lastIrreversible_le hs.applied).2
    rw [hs.applied.num_headId, P.headId_genesis, P.num_zero, Nat.zero_add] at hle
    refine ⟨_, _, (List.take_append_drop (chain.length - P.lastIrreversible s.state) chain).symm, ?_⟩
    rw [List.length_drop]
    dsimp only at hle
    omega
  have habove : Above P.toChainLogic low s := ⟨newer, states, hs⟩
  have habove' : Above P.toChainLogic low s' := by
    refine ((Reachable.init rfl).run hmeet hrun).invariant (Above P.toChainLogic low) ?_ ?_
    · rintro s rfl
      exact habove
    · rintro s1 c s2 h1 hkeeps hstep
      cases hstep
      rw [← hlow] at hkeeps
      exact h1.pushBlock hkeeps
  intro height hpos hle
  obtain ⟨mid, us, us', -, -, happlied⟩ := hs.applied.split
  obtain ⟨c, hc, hnum⟩ := happlied.exists_blockNum hpos (hlow ▸ hle)
  exact ⟨c, hnum, habove.inHeadChain hc, habove'.inHeadChain hc⟩

/-- A block with the witness that signed it; its id is the path of witnesses and tags from the
genesis. -/
structure SignedBlock where
  previous : List (Nat × Nat)
  witness : Nat
  tag : Nat
  deriving DecidableEq

def confirmedAlong (w : Nat) : List (Nat × Nat) → Nat
  | [] => 0
  | (v, _) :: rest => if w = v then rest.length + 1 else confirmedAlong w rest

def irreversibleAlong : List (Nat × Nat) → Nat
  | [] => 0
  | b :: rest =>
    max (irreversibleAlong rest) (confirmedNum [0, 1, 2] fun w => confirmedAlong w (b :: rest))

def witnessLogic : WitnessLogic (List (Nat × Nat)) (List (Nat × Nat)) SignedBlock where
  id b := (b.witness, b.tag) :: b.previous
  previous b := b.previous
  numFromId := List.length
  zero := []
  num_id _ := rfl
  num_zero := rfl
  previous_eq_of_id_eq _ _ h := (List.cons.inj h).2
  genesis := []
  headId s := s
  headNum s := s.length
  apply s b := if b.previous = s then some ((b.witness, b.tag) :: s) else none
  forkWindow s b := some (b.previous.length + 1 - irreversibleAlong s + 1)
  undoWindow s b _ _ := b.previous.length + 1 - irreversibleAlong s + 1
  headId_genesis := rfl
  headNum_genesis := rfl
  previous_of_apply s b s' h := (Option.ite_none_right_eq_some.mp h).1
  headId_of_apply s b s' h := by
    obtain ⟨rfl, hs'⟩ := Option.ite_none_right_eq_some.mp h
    exact (Option.some.inj hs').symm
  headNum_of_apply s b s' h := by
    obtain ⟨rfl, hs'⟩ := Option.ite_none_right_eq_some.mp h
    exact congrArg List.length (Option.some.inj hs').symm
  forkWindow_of_apply _ _ _ _ := Option.some_ne_none _
  forkWindow_pos _ _ _ h := Option.some.inj h ▸ Nat.succ_pos _
  le_undoWindow _ _ _ _ _ h := Nat.le_of_eq (Option.some.inj h).symm
  activeWitnesses _ := [0, 1, 2]
  lastConfirmed s w := confirmedAlong w s
  lastIrreversible := irreversibleAlong
  witness b := b.witness
  lastConfirmed_genesis _ := rfl
  lastIrreversible_genesis := rfl
  lastConfirmed_of_apply s b s' h := by
    obtain ⟨rfl, hs'⟩ := Option.ite_none_right_eq_some.mp h
    funext w
    rw [← Option.some.inj hs', confirmedAlong, Function.update_apply]
    rfl
  lastIrreversible_of_apply s b s' h := by
    obtain ⟨rfl, hs'⟩ := Option.ite_none_right_eq_some.mp h
    rw [← Option.some.inj hs', irreversibleAlong]

theorem irreversible_kept_switched :
    ∃ s s', s.state = [(2, 0), (1, 0), (0, 0)] ∧ witnessLogic.lastIrreversible s.state = 1 ∧
      s'.state = [(0, 1), (1, 1), (2, 1), (0, 0)] ∧
      SameUpTo witnessLogic.toChainLogic (witnessLogic.lastIrreversible s.state) s s' := by
  obtain ⟨s0, hreach, ⟨hpush, hstate, hmeet, hrun⟩⟩ : ∃ s0,
      Reachable (Node.push witnessLogic.toChainLogic) (· = Node.start witnessLogic.toChainLogic)
        (fun _ _ => True) s0 ∧
      ((s0.pushBlock witnessLogic.toChainLogic ⟨[(1, 0), (0, 0)], 2, 0⟩).2 = .ok false ∧
        (s0.pushBlock witnessLogic.toChainLogic ⟨[(1, 0), (0, 0)], 2, 0⟩).1.state =
          [(2, 0), (1, 0), (0, 0)] ∧
        StepsMeet (Node.push witnessLogic.toChainLogic) (KeepsAbove witnessLogic.toChainLogic 1)
          (s0.pushBlock witnessLogic.toChainLogic ⟨[(1, 0), (0, 0)], 2, 0⟩).1
          [⟨[(0, 0)], 2, 1⟩, ⟨[(2, 1), (0, 0)], 1, 1⟩, ⟨[(1, 1), (2, 1), (0, 0)], 0, 1⟩] ∧
        Succeeds (Lib.run (Node.push witnessLogic.toChainLogic)
          (s0.pushBlock witnessLogic.toChainLogic ⟨[(1, 0), (0, 0)], 2, 0⟩).1
          [⟨[(0, 0)], 2, 1⟩, ⟨[(2, 1), (0, 0)], 1, 1⟩, ⟨[(1, 1), (2, 1), (0, 0)], 0, 1⟩])
          fun s' => s'.state = [(0, 1), (1, 1), (2, 1), (0, 0)]) :=
    Reachable.of_run [⟨[], 0, 0⟩, ⟨[(0, 0)], 1, 0⟩] rfl (by decide) (by decide +kernel)
  obtain ⟨s', hrun, hstate'⟩ := hrun
  have hnum : witnessLogic.lastIrreversible
      (s0.pushBlock witnessLogic.toChainLogic ⟨[(1, 0), (0, 0)], 2, 0⟩).1.state = 1 := by
    rw [hstate]
    decide +kernel
  refine ⟨_, s', hstate, hnum, hstate', ?_⟩
  exact irreversible_kept hreach (Prod.ext rfl hpush) (by rw [hnum]; exact hmeet) hrun

/-- After the same three blocks, a fork of the first one that becomes longer replaces it, although it
is irreversible. -/
theorem irreversible_replaced :
    ∃ s0 s s' bs r, Reachable (Node.push witnessLogic.toChainLogic)
        (· = Node.start witnessLogic.toChainLogic) (fun _ _ => True) s0 ∧
      s0.pushBlock witnessLogic.toChainLogic ⟨[(1, 0), (0, 0)], 2, 0⟩ = (s, .ok r) ∧
      witnessLogic.lastIrreversible s.state = 1 ∧
      Lib.run (Node.push witnessLogic.toChainLogic) s bs = .ok s' ∧
      ¬SameUpTo witnessLogic.toChainLogic (witnessLogic.lastIrreversible s.state) s s' := by
  obtain ⟨s0, hreach, ⟨hpush, hnum, hblock, hrun⟩⟩ : ∃ s0,
      Reachable (Node.push witnessLogic.toChainLogic) (· = Node.start witnessLogic.toChainLogic)
        (fun _ _ => True) s0 ∧
      ((s0.pushBlock witnessLogic.toChainLogic ⟨[(1, 0), (0, 0)], 2, 0⟩).2 = .ok false ∧
        witnessLogic.lastIrreversible
          (s0.pushBlock witnessLogic.toChainLogic ⟨[(1, 0), (0, 0)], 2, 0⟩).1.state = 1 ∧
        (s0.pushBlock witnessLogic.toChainLogic ⟨[(1, 0), (0, 0)], 2, 0⟩).1.blocks 1 =
          some ⟨[], 0, 0⟩ ∧ Succeeds (Lib.run (Node.push witnessLogic.toChainLogic)
          (s0.pushBlock witnessLogic.toChainLogic ⟨[(1, 0), (0, 0)], 2, 0⟩).1
          [⟨[], 2, 1⟩, ⟨[(2, 1)], 1, 1⟩, ⟨[(1, 1), (2, 1)], 0, 1⟩,
            ⟨[(0, 1), (1, 1), (2, 1)], 2, 1⟩])
          fun s' => s'.blocks 1 = some ⟨[], 2, 1⟩) :=
    Reachable.of_run [⟨[], 0, 0⟩, ⟨[(0, 0)], 1, 0⟩] rfl (by decide) (by decide +kernel)
  obtain ⟨s', hrun, hblock'⟩ := hrun
  refine ⟨s0, _, s', _, false, hreach, Prod.ext rfl hpush, hnum, hrun, fun hsame => ?_⟩
  obtain ⟨b, hb, ⟨_, _, _, hstored, hmem⟩, ⟨_, _, _, hstored', hmem'⟩⟩ :=
    hsame 1 (Nat.le_refl _) (Nat.le_of_eq hnum.symm)
  have hold := hstored b hmem
  have hnew := hstored' b hmem'
  rw [hb, hblock] at hold
  rw [hb, hblock'] at hnew
  rw [← Option.some.inj hnew] at hold
  exact absurd hold (by decide)

end Meta1Core.Blocks
