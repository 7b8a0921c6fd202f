import Meta1Core.Blocks.PushBlock

/-!
# The state of a node is the replay of its chain

Whatever the fork database does in between, the object state is the one that the chain below the
head leads to, and the blocks on disk hold that chain.
-/

namespace Meta1Core.Blocks

open Lib (Reachable)

variable {σ Id Block : Type} (P : ChainLogic σ Id Block)

def replay (s : σ) : List Block → Option σ
  | [] => some s
  | b :: rest => (P.apply s b).bind fun s' => replay s' rest

/-- The blocks follow each other from the genesis to the given head, the oldest first. -/
inductive ChainTo : List Block → Id → Prop
  | genesis : ChainTo [] P.zero
  | block {chain : List Block} {id : Id} {b : Block} :
      ChainTo chain id → P.previous b = id → ChainTo (chain ++ [b]) (P.id b)

/-- The blocks applied since the state `base`, the newest first, with the state they lead to and the
states before each of them -/
inductive Applied (base : σ) : List Block → σ → List σ → Prop
  | base : Applied base [] base []
  | block {chain : List Block} {s s' : σ} {states : List σ} {b : Block} :
      Applied base chain s states → P.apply s b = some s' →
      Applied base (b :: chain) s' (s :: states)

variable {P}

theorem replay_append (s : σ) (chain : List Block) (b : Block) :
    replay P s (chain ++ [b]) = (replay P s chain).bind fun s' => P.apply s' b := by
  induction chain generalizing s with
  | nil =>
    rw [List.nil_append, replay, replay, Option.bind_some]
    exact Option.bind_fun_some _
  | cons c rest ih =>
    rw [List.cons_append, replay, replay, Option.bind_assoc]
    exact congrArg _ (funext fun s' => ih s')

theorem headId_of_replay {s s' : σ} {chain : List Block} {b : Block}
    (h : replay P s (chain ++ [b]) = some s') :
    P.headId s' = P.id b ∧ P.headNum s' = P.blockNum b := by
  rw [replay_append] at h
  obtain ⟨mid, -, happly⟩ := Option.bind_eq_some_iff.mp h
  exact ⟨P.headId_of_apply _ _ _ happly, (P.headNum_of_apply _ _ _ happly).trans (P.numFromId_id b)⟩

namespace Applied

variable {base s : σ} {chain : List Block} {states : List σ}

theorem replay_eq (h : Applied P base chain s states) : replay P base chain.reverse = some s := by
  induction h with
  | base => rfl
  | block _ happly ih =>
    rw [List.reverse_cons, replay_append, ih, Option.bind_some]
    exact happly

theorem chainTo (h : Applied P P.genesis chain s states) :
    ChainTo P chain.reverse (P.headId s) := by
  induction h with
  | base =>
    rw [P.headId_genesis]
    exact .genesis
  | block _ happly ih =>
    rw [List.reverse_cons, P.headId_of_apply _ _ _ happly]
    exact .block ih (P.previous_of_apply _ _ _ happly)

theorem length_states (h : Applied P base chain s states) : states.length = chain.length := by
  induction h with
  | base => rfl
  | block _ _ ih => rw [List.length_cons, List.length_cons, ih]

theorem num_headId (h : Applied P base chain s states) :
    P.numFromId (P.headId s) = P.numFromId (P.headId base) + chain.length := by
  induction h with
  | base => rfl
  | block _ happly ih =>
    rw [P.headId_of_apply _ _ _ happly, P.num_id, P.previous_of_apply _ _ _ happly, ih,
      List.length_cons, Nat.add_assoc]

theorem headNum_eq (h : Applied P P.genesis chain s states) :
    P.headNum s = P.numFromId (P.headId s) := by
  cases h with
  | base => rw [P.headNum_genesis, P.headId_genesis, P.num_zero]
  | block h' happly => rw [P.headNum_of_apply _ _ _ happly, P.headId_of_apply _ _ _ happly]

theorem blockNum_le (h : Applied P base chain s states) :
    ∀ b ∈ chain, P.blockNum b ≤ P.numFromId (P.headId s) := by
  induction h with
  | base => exact fun b hb => nomatch hb
  | block h' happly ih =>
    intro c hc
    rw [P.headId_of_apply _ _ _ happly, P.num_id, P.previous_of_apply _ _ _ happly]
    rcases List.mem_cons.mp hc with rfl | hc
    · exact Nat.le_of_eq (congrArg (P.numFromId · + 1) (P.previous_of_apply _ _ _ happly))
    · exact Nat.le_succ_of_le (ih c hc)

theorem pop {before : σ} (h : Applied P base chain s (before :: states)) :
    ∃ b chain', chain = b :: chain' ∧ P.apply before b = some s ∧
      Applied P base chain' before states := by
  cases h with
  | block h' happly => exact ⟨_, _, rfl, happly, h'⟩

theorem lt_blockNum (h : Applied P base chain s states) :
    ∀ b ∈ chain, P.numFromId (P.headId base) < P.blockNum b := by
  induction h with
  | base => exact fun b hb => nomatch hb
  | block h' happly ih =>
    intro c hc
    rcases List.mem_cons.mp hc with rfl | hc
    · have hnum := h'.num_headId
      rw [BlockIds.blockNum, P.previous_of_apply _ _ _ happly]
      omega
    · exact ih c hc

theorem previous_getLast (h : Applied P base chain s states) {b : Block}
    (hlast : chain.getLast? = some b) :
    P.previous b = P.headId base ∧ states.getLast? = some base := by
  induction h with
  | base => cases hlast
  | @block chain s s' states c h' happly ih =>
    cases h' with
    | base =>
      cases hlast
      exact ⟨P.previous_of_apply _ _ _ happly, rfl⟩
    | block h'' happly' =>
      rw [List.getLast?_cons_cons] at hlast
      rw [List.getLast?_cons_cons]
      exact ih hlast

theorem split {newer older : List Block} (h : Applied P base (newer ++ older) s states) :
    ∃ mid us us', states = us ++ us' ∧ Applied P mid newer s us ∧ Applied P base older mid us' := by
  induction newer generalizing s states with
  | nil => exact ⟨s, [], states, rfl, .base, h⟩
  | cons b newer ih =>
    cases h with
    | block h' happly =>
      obtain ⟨mid, us, us', rfl, hnewer, holder⟩ := ih h'
      exact ⟨mid, _, us', rfl, .block hnewer happly, holder⟩

end Applied

/-! ## The invariant -/

/-- The object state is the one that `chain` leads to, the undo history goes back along it, and its
blocks are stored under their numbers. -/
structure Consistent (P : ChainLogic σ Id Block) (s : Node σ Block) (chain : List Block)
    (states : List σ) : Prop where
  applied : Applied P P.genesis chain s.state states
  undo : s.undo <+: states
  stored : ∀ b ∈ chain, s.blocks (P.blockNum b) = some b

namespace Consistent

variable {s : Node σ Block} {chain : List Block} {states : List σ}

theorem applyBlock_of_some (h : Consistent P s chain states) {b : Block} {state : σ}
    (happly : P.apply s.state b = some state) :
    Consistent P (s.applyBlock P b).1 (b :: chain) (s.state :: states) := by
  unfold Node.applyBlock
  rw [happly]
  refine ⟨.block h.applied happly, ?_, ?_⟩
  · obtain ⟨rest, hrest⟩ := (List.take_prefix s.undoMax s.undo).trans h.undo
    exact ⟨rest, congrArg (s.state :: ·) hrest⟩
  · intro c hc
    have hnum : P.numFromId (P.id b) = P.numFromId (P.headId s.state) + 1 := by
      rw [P.num_id, P.previous_of_apply _ _ _ happly]
    show Function.update s.blocks (P.numFromId (P.id b)) (some b) (P.blockNum c) = some c
    rcases List.mem_cons.mp hc with rfl | hc
    · rw [← P.numFromId_id, Function.update_self]
    · have hle := h.applied.blockNum_le c hc
      rw [Function.update_of_ne (by omega)]
      exact h.stored c hc

theorem applyBlock_of_none (h : Consistent P s chain states) {b : Block}
    (happly : P.apply s.state b = none) : Consistent P (s.applyBlock P b).1 chain states := by
  unfold Node.applyBlock
  rw [happly]
  exact ⟨h.applied, (List.take_prefix s.undoMax s.undo).trans h.undo, h.stored⟩

theorem applyBlock (h : Consistent P s chain states) (b : Block) :
    ∃ chain' states', Consistent P (s.applyBlock P b).1 chain' states' := by
  cases happly : P.apply s.state b with
  | some state => exact ⟨_, _, h.applyBlock_of_some happly⟩
  | none => exact ⟨_, _, h.applyBlock_of_none happly⟩

theorem popBlock [DecidableEq Id] (h : Consistent P s chain states) (held : List (ForkItem Block)) :
    ∃ chain' states', Consistent P (s.popBlock P held).1 chain' states' := by
  unfold Node.popBlock
  cases s.fork.head with
  | none => exact ⟨chain, states, h⟩
  | some head =>
    dsimp only
    split
    · exact ⟨chain, states, h⟩
    · split
      · exact ⟨chain, states, h.applied, h.undo, h.stored⟩
      · rename_i state undo hundo
        obtain ⟨happlied, ⟨rest, hrest⟩, hstored⟩ := h
        rw [hundo, List.cons_append] at hrest
        subst hrest
        obtain ⟨b, chain', rfl, -, happlied'⟩ := happlied.pop
        exact ⟨chain', undo ++ rest, happlied', ⟨rest, rfl⟩,
          fun c hc => hstored c (List.mem_cons_of_mem _ hc)⟩

end Consistent

def Replayed (P : ChainLogic σ Id Block) (s : Node σ Block) : Prop :=
  ∃ chain states, Consistent P s chain states

namespace Replayed

variable {s : Node σ Block}

theorem applyBlock (h : Replayed P s) (b : Block) : Replayed P (s.applyBlock P b).1 := by
  obtain ⟨chain, states, h⟩ := h
  exact h.applyBlock b

theorem setFork (h : Replayed P s) (f : ForkDatabase Block) :
    Replayed P { s with fork := f } := by
  obtain ⟨chain, states, h⟩ := h
  exact ⟨chain, states, h.applied, h.undo, h.stored⟩

theorem restoreBranch (items : List (ForkItem Block)) (h : Replayed P s) :
    Replayed P (s.restoreBranch P items).1 := by
  induction items generalizing s with
  | nil => exact h
  | cons item rest ih =>
    rw [Node.restoreBranch]
    have happly := h.applyBlock item.data
    split
    · rename_i hres
      rw [hres] at happly
      exact ih happly
    · rename_i hres
      rw [hres] at happly
      exact happly

variable [DecidableEq Id]

theorem popBlock (h : Replayed P s) (held : List (ForkItem Block)) :
    Replayed P (s.popBlock P held).1 := by
  obtain ⟨chain, states, h⟩ := h
  exact h.popBlock held

theorem popUntil (held : List (ForkItem Block)) (target : Id) (fuel : Nat) (h : Replayed P s) :
    Replayed P (s.popUntil P held target fuel).1 := by
  induction fuel generalizing s with
  | zero => exact h
  | succ fuel ih =>
    rw [Node.popUntil]
    split
    · have hpop := h.popBlock held
      split
      · rename_i hres
        rw [hres] at hpop
        exact ih hpop
      · rename_i hres
        rw [hres] at hpop
        exact hpop
    · exact h

theorem switchBack {firsts seconds invalid : List (ForkItem Block)} {front : ForkItem Block}
    {target : Id} (h : Replayed P s) :
    Replayed P (s.switchBack P firsts seconds invalid front target).1 := by
  unfold Node.switchBack
  dsimp only
  have hpop := (h.setFork ((invalid.foldl (fun f item =>
    f.remove P.toBlockIds (firsts ++ seconds) (P.id item.data)) s.fork).setHead front)).popUntil
      (firsts ++ seconds) target (s.undo.length + 1)
  split
  · rename_i hres
    rw [hres] at hpop
    exact hpop
  · rename_i hres
    rw [hres] at hpop
    have hrestore := hpop.restoreBranch seconds.reverse
    split
    · rename_i hres'
      rw [hres'] at hrestore
      exact hrestore
    · rename_i hres'
      rw [hres'] at hrestore
      exact hrestore

theorem pushBranch {firsts seconds : List (ForkItem Block)} {front : ForkItem Block} {target : Id}
    (items : List (ForkItem Block)) (h : Replayed P s) :
    Replayed P (s.pushBranch P firsts seconds front target items).1 := by
  induction items generalizing s with
  | nil => exact h
  | cons item rest ih =>
    rw [Node.pushBranch]
    have happly := h.applyBlock item.data
    split
    · rename_i hres
      rw [hres] at happly
      exact ih happly
    · rename_i hres
      rw [hres] at happly
      exact happly.switchBack

theorem switchForks (h : Replayed P s) (newHead : ForkItem Block) :
    Replayed P (s.switchForks P newHead).1 := by
  unfold Node.switchForks
  split
  · exact h
  · rename_i firsts seconds hfetch
    split
    · rename_i front back hfront hback
      dsimp only
      have hpop := h.popUntil (firsts ++ seconds) (P.previous back.data) (s.undo.length + 1)
      split
      · rename_i hres
        rw [hres] at hpop
        exact hpop
      · rename_i hres
        rw [hres] at hpop
        exact hpop.pushBranch firsts.reverse
    · exact h

theorem pushBlock (h : Replayed P s) (b : Block) : Replayed P (s.pushBlock P b).1 := by
  unfold Node.pushBlock
  split
  · exact h
  · rename_i fork newHead hpush
    have hfork := h.setFork fork
    dsimp only
    split
    · split
      · exact hfork.switchForks newHead
      · exact hfork
    · have happly := hfork.applyBlock b
      split
      · rename_i hres
        rw [hres] at happly
        exact happly
      · rename_i hres
        rw [hres] at happly
        exact happly.setFork _

end Replayed

section HeadNum

variable {s s' : Node σ Block}

theorem applyBlock_eq_true {b : Block} (h : s.applyBlock P b = (s', true)) :
    P.apply s.state b = some s'.state := by
  unfold Node.applyBlock at h
  cases happly : P.apply s.state b with
  | some state =>
    rw [happly] at h
    cases h
    rfl
  | none =>
    rw [happly] at h
    cases h

theorem pushBranch_headNum [DecidableEq Id] {firsts seconds items : List (ForkItem Block)}
    {front last : ForkItem Block} {target : Id} {r : Bool} (hlast : items.getLast? = some last)
    (h : s.pushBranch P firsts seconds front target items = (s', .ok r)) :
    P.headNum s'.state = P.blockNum last.data := by
  induction items generalizing s with
  | nil => cases hlast
  | cons item rest ih =>
    rw [Node.pushBranch] at h
    split at h
    · rename_i s1 hres
      cases rest with
      | nil =>
        cases hlast
        cases h
        exact (P.headNum_of_apply _ _ _ (applyBlock_eq_true hres)).trans (P.numFromId_id _)
      | cons item' rest' => exact ih (by rwa [List.getLast?_cons_cons] at hlast) h
    · cases h

theorem headNum_le_of_pushBlock [DecidableEq Id] {b : Block} {r : Bool} (hs : Replayed P s)
    (h : s.pushBlock P b = (s', .ok r)) : P.headNum s.state ≤ P.headNum s'.state := by
  unfold Node.pushBlock at h
  split at h
  · cases h
  · rename_i fork newHead hpush
    dsimp only at h
    split at h
    · split at h
      · -- the switch ends at the new head, which is higher
        rename_i hhigher
        unfold Node.switchForks at h
        split at h
        · cases h
        · rename_i firsts seconds hfetch
          split at h
          · dsimp only at h
            split at h
            · cases h
            · obtain ⟨⟨first, hfirst, hfound⟩, -⟩ := ForkDatabase.fetchBranchFrom_head hfetch
              have hid := (ForkDatabase.fetchBlock_eq_some hfound).2
              have hnum : P.blockNum first.data = P.blockNum newHead.data := by
                rw [← P.numFromId_id, hid, P.numFromId_id]
              have hhead := pushBranch_headNum (by rw [List.getLast?_reverse]; exact hfirst) h
              rw [hhead, hnum]
              exact Nat.le_of_lt hhigher
          · cases h
      · cases h
        exact Nat.le_refl _
    · split at h
      · rename_i hres
        cases h
        obtain ⟨chain, states, hs⟩ := hs
        have happly := applyBlock_eq_true hres
        rw [P.headNum_of_apply _ _ _ happly, P.num_id, P.previous_of_apply _ _ _ happly]
        show P.headNum s.state ≤ P.numFromId (P.headId s.state) + 1
        rw [hs.applied.headNum_eq]
        exact Nat.le_succ _
      · cases h

end HeadNum

/-- What happens to a node: blocks are pushed, and the head block may be popped. -/
inductive Event (Block : Type) where
  | push (b : Block)
  | pop
  deriving DecidableEq

/-- A call that throws leaves the node that it left behind. -/
def Node.step [DecidableEq Id] (P : ChainLogic σ Id Block) (s : Node σ Block) :
    Event Block → Except Exception (Node σ Block)
  | .push b => .ok (s.pushBlock P b).1
  | .pop => .ok (s.popBlock P []).1

/-- After any pushes and pops, the object state is the replay of the chain that ends in the head
block, whose blocks are stored under their numbers, and a push that succeeds does not lower the
head. -/
theorem state_eq_replay [DecidableEq Id] {s : Node σ Block}
    (h : Reachable (Node.step P) (· = Node.start P) (fun _ _ => True) s) :
    (∃ chain : List Block, ChainTo P chain (P.headId s.state) ∧
      replay P P.genesis chain = some s.state ∧ ∀ b ∈ chain, s.blocks (P.blockNum b) = some b) ∧
    ∀ b s' r, s.pushBlock P b = (s', .ok r) → P.headNum s.state ≤ P.headNum s'.state := by
  have hreplayed : Replayed P s := by
    refine h.invariant (Replayed P) ?_ ?_
    · rintro s rfl
      exact ⟨[], [], .base, List.nil_prefix, fun b hb => nomatch hb⟩
    · rintro s (b | -) s' hs - hstep
      · cases hstep
        exact hs.pushBlock b
      · cases hstep
        exact hs.popBlock []
  refine ⟨?_, fun b s' r hpush => headNum_le_of_pushBlock hreplayed hpush⟩
  obtain ⟨chain, states, hs⟩ := hreplayed
  exact ⟨chain.reverse, hs.applied.chainTo, hs.applied.replay_eq,
    fun b hb => hs.stored b (List.mem_reverse.mp hb)⟩

structure PathBlock where
  previous : List Nat
  tag : Nat
  valid : Bool := true
  deriving DecidableEq

def pathLogic : ChainLogic (List Nat) (List Nat) PathBlock where
  id b := b.tag :: b.previous
  previous b := b.previous
  numFromId := List.length
  zero := []
  num_id _ := rfl
  num_zero := rfl
  previous_eq_of_id_eq _ _ h := (List.cons.inj h).2
  genesis := []
  headId s := s
  headNum s := s.length
  apply s b := if b.previous = s ∧ b.valid then some (b.tag :: b.previous) else none
  forkWindow s b := if b.previous = s then some (b.previous.length + 2) else none
  undoWindow s b _ m := if b.previous = s then b.previous.length + 2 else m
  headId_genesis := rfl
  headNum_genesis := rfl
  previous_of_apply s b s' h := by
    split at h
    · rename_i hand
      exact hand.1
    · cases h
  headId_of_apply s b s' h := by
    split at h
    · cases h
      rfl
    · cases h
  headNum_of_apply s b s' h := by
    split at h
    · cases h
      rfl
    · cases h
  forkWindow_of_apply s b s' h := by
    split at h
    · rename_i hand
      rw [if_pos hand.1]
      exact Option.some_ne_none _
    · cases h
  forkWindow_pos s b size h := by
    split at h
    · cases h
      exact Nat.succ_pos _
    · cases h
  le_undoWindow s b size n m h := by
    split at h
    · rename_i hprevious
      cases h
      exact Nat.le_of_eq (if_pos hprevious).symm
    · cases h

theorem state_eq_replay_switched :
    ∃ s, Reachable (Node.step pathLogic) (· = Node.start pathLogic) (fun _ _ => True) s ∧
      s.state = [2] ∧
      ((∃ chain : List PathBlock, ChainTo pathLogic chain (pathLogic.headId s.state) ∧
        replay pathLogic pathLogic.genesis chain = some s.state ∧
        ∀ b ∈ chain, s.blocks (pathLogic.blockNum b) = some b) ∧
      ∀ b s' r, s.pushBlock pathLogic b = (s', .ok r) →
        pathLogic.headNum s.state ≤ pathLogic.headNum s'.state) := by
  obtain ⟨s, hreach, hstate⟩ : ∃ s, Reachable (Node.step pathLogic) (· = Node.start pathLogic)
      (fun _ _ => True) s ∧ s.state = [2] :=
    Reachable.of_run [.push ⟨[], 1, true⟩, .push ⟨[], 2, true⟩, .push ⟨[2], 3, true⟩,
      .push ⟨[3, 2], 4, false⟩, .pop] rfl (by decide) (by decide)
  exact ⟨s, hreach, hstate, state_eq_replay hreach⟩

end Meta1Core.Blocks
