import Meta1Core.Blocks.Replay
import Meta1Core.Blocks.ForkTree

/-!
# Switching forks

A switch pops the blocks of the old fork, applies those of the new one, and if one of them fails it
goes back.
-/

namespace Meta1Core.Blocks

open ForkDatabase (Narrows Branch)

variable {σ Id Block : Type} {P : ChainLogic σ Id Block} {s s' : Node σ Block}

theorem applyBlock_of_some {b : Block} {state : σ} (happly : P.apply s.state b = some state) :
    ∃ s', s.applyBlock P b = (s', true) ∧ s'.state = state ∧
      s'.undo = s.state :: s.undo.take s.undoMax ∧ Narrows P.toBlockIds s.fork s'.fork ∧
      ∃ size, P.forkWindow s.state b = some size ∧ size ≤ s'.undoMax ∧
        s'.fork = s.fork.setMaxSize P.toBlockIds size := by
  obtain ⟨size, hsize⟩ := Option.ne_none_iff_exists'.mp (P.forkWindow_of_apply _ _ _ happly)
  unfold Node.applyBlock
  rw [happly, hsize]
  exact ⟨_, rfl, rfl, rfl, ForkDatabase.narrows_setMaxSize (P.forkWindow_pos _ _ _ hsize), size, rfl,
    P.le_undoWindow _ _ _ _ _ hsize, rfl⟩

theorem applyBlock_of_none {b : Block} (happly : P.apply s.state b = none) :
    ∃ s', s.applyBlock P b = (s', false) ∧ s'.state = s.state ∧
      s'.undo = s.undo.take s.undoMax ∧ Narrows P.toBlockIds s.fork s'.fork ∧
      (P.forkWindow s.state b = none ∧ s'.fork = s.fork ∨
        ∃ size, P.forkWindow s.state b = some size ∧
          s'.fork = s.fork.setMaxSize P.toBlockIds size) := by
  unfold Node.applyBlock
  rw [happly]
  cases hsize : P.forkWindow s.state b with
  | none => exact ⟨_, rfl, rfl, rfl, .refl _, .inl ⟨rfl, rfl⟩⟩
  | some size =>
    exact ⟨_, rfl, rfl, rfl, ForkDatabase.narrows_setMaxSize (P.forkWindow_pos _ _ _ hsize),
      .inr ⟨size, rfl, rfl⟩⟩

theorem restoreBranch_of_replay {items : List (ForkItem Block)} {state : σ}
    (hreplay : replay P s.state (items.map ForkItem.data) = some state) :
    ∃ s', s.restoreBranch P items = (s', none) ∧ s'.state = state ∧
      Narrows P.toBlockIds s.fork s'.fork := by
  induction items generalizing s with
  | nil =>
    cases hreplay
    exact ⟨s, rfl, rfl, .refl _⟩
  | cons item rest ih =>
    obtain ⟨state1, happly, hrest⟩ := Option.bind_eq_some_iff.mp hreplay
    obtain ⟨s1, heq, hstate, -, hnarrows, -⟩ := applyBlock_of_some happly
    obtain ⟨s', heq', hstate', hnarrows'⟩ := ih (hstate.symm ▸ hrest)
    refine ⟨s', ?_, hstate', hnarrows.trans hnarrows'⟩
    rw [Node.restoreBranch, heq]
    exact heq'

variable [DecidableEq Id]

theorem pushBranch_of_replay {firsts seconds items : List (ForkItem Block)} {front : ForkItem Block}
    {target : Id} {state : σ}
    (hreplay : replay P s.state (items.map ForkItem.data) = some state) :
    ∃ s', s.pushBranch P firsts seconds front target items = (s', .ok true) ∧ s'.state = state ∧
      Narrows P.toBlockIds s.fork s'.fork := by
  induction items generalizing s with
  | nil =>
    cases hreplay
    exact ⟨s, rfl, rfl, .refl _⟩
  | cons item rest ih =>
    obtain ⟨state1, happly, hrest⟩ := Option.bind_eq_some_iff.mp hreplay
    obtain ⟨s1, heq, hstate, -, hnarrows, -⟩ := applyBlock_of_some happly
    obtain ⟨s', heq', hstate', hnarrows'⟩ := ih (hstate.symm ▸ hrest)
    refine ⟨s', ?_, hstate', hnarrows.trans hnarrows'⟩
    rw [Node.pushBranch, heq]
    exact heq'

/-- The blocks applied since a state are popped, if the undo history and the fork database hold
them and the fork database has another head. -/
theorem popUntil_applied {base state : σ} {chain : List Block} {states rest : List σ}
    (happlied : Applied P base chain state states) {head : ForkItem Block}
    {held : List (ForkItem Block)} {fuel : Nat} (hstate : s.state = state)
    (hundo : s.undo = states ++ rest) (hhead : s.fork.head = some head)
    (hids : ∀ b ∈ chain, P.id head.data ≠ P.id b)
    (hfound : ∀ b ∈ chain, (s.fork.fetchBlock P.toBlockIds (P.id b)).isSome)
    (hfuel : states.length < fuel) :
    s.popUntil P held (P.headId base) fuel = ({ s with state := base, undo := rest }, none) := by
  induction happlied generalizing s fuel with
  | base =>
    obtain ⟨fuel, rfl⟩ := Nat.exists_eq_succ_of_ne_zero (Nat.ne_zero_of_lt hfuel)
    rw [Node.popUntil, hstate, if_neg (not_not.mpr rfl)]
    obtain ⟨_, _, _, _, _⟩ := s
    cases hstate
    cases hundo
    rfl
  | @block chain before state states b happlied' happly ih =>
    obtain ⟨fuel, rfl⟩ := Nat.exists_eq_succ_of_ne_zero (Nat.ne_zero_of_lt hfuel)
    have hheadId : P.headId s.state = P.id b := by
      rw [hstate]
      exact P.headId_of_apply _ _ _ happly
    have hne : P.headId s.state ≠ P.headId base := by
      have hlt := (Applied.block happlied' happly).lt_blockNum b List.mem_cons_self
      intro heq
      rw [← heq, hheadId, P.numFromId_id] at hlt
      exact Nat.lt_irrefl _ hlt
    have hpop : s.popBlock P held = ({ s with state := before, undo := states ++ rest }, none) := by
      unfold Node.popBlock
      rw [hhead, hheadId]
      dsimp only
      rw [if_neg (hids b List.mem_cons_self)]
      obtain ⟨found, hfound'⟩ := Option.isSome_iff_exists.mp (hfound b List.mem_cons_self)
      rw [hfound', hundo]
      rfl
    rw [Node.popUntil, if_pos hne, hpop]
    exact ih rfl rfl hhead (fun c hc => hids c (List.mem_cons_of_mem _ hc))
      (fun c hc => hfound c (List.mem_cons_of_mem _ hc)) (Nat.lt_of_succ_lt_succ hfuel)

/-- The sizes that `apply_block` sets while a chain is applied, up to the block that fails -/
def windowsAlong (P : ChainLogic σ Id Block) (state : σ) : List Block → List Nat
  | [] => []
  | b :: rest =>
    (P.forkWindow state b).toList ++
      match P.apply state b with
      | some state' => windowsAlong P state' rest
      | none => []

/-- A switch under way: the old fork has been popped to `base`, the new head is on top of the new
fork, the old head one below it; the old fork leads from `base` to `old`. -/
structure Switching (P : ChainLogic σ Id Block) (f : ForkDatabase Block) (newHead front : ForkItem Block)
    (firsts seconds : List (ForkItem Block)) (base old : σ) : Prop where
  wf : f.Wf P.toBlockIds
  head : f.head = some newHead
  size_pos : 0 < f.maxSize
  firsts_head : ∃ lower, firsts = newHead :: lower
  firsts_branch : Branch P.toBlockIds f firsts
  front_mem : front ∈ f.index
  front_num : P.blockNum newHead.data = P.blockNum front.data + 1
  front_id : ∀ item ∈ firsts, P.id front.data ≠ P.id item.data
  restore : replay P base (seconds.reverse.map ForkItem.data) = some old

structure SwitchedBack (f : ForkDatabase Block) (P : ChainLogic σ Id Block) (newHead front : ForkItem Block)
    (old : σ) (s' : Node σ Block) : Prop where
  state : s'.state = old
  head : s'.fork.head = some front
  head_mem : front ∈ s'.fork.index
  sublist : s'.fork.index.Sublist f.index
  nextRef : s'.fork.nextRef = f.nextRef
  size_pos : 0 < s'.fork.maxSize
  gone : ∀ item ∈ s'.fork.index, P.id item.data ≠ P.id newHead.data

namespace Switching

variable {f : ForkDatabase Block} {newHead front : ForkItem Block}
  {firsts seconds done todo : List (ForkItem Block)} {base old : σ}

section

variable (h : Switching P f newHead front firsts seconds base old)

include h

omit [DecidableEq Id] in
theorem id_ne (hsplit : firsts = todo.reverse ++ done) :
    ∀ item ∈ done, ∀ bad ∈ todo, P.id item.data ≠ P.id bad.data := by
  intro item hitem bad hbad hid
  have hpairwise := h.firsts_branch.pairwise
  rw [hsplit, List.pairwise_append] at hpairwise
  have hlt := hpairwise.2.2 bad (List.mem_reverse.mpr hbad) item hitem
  rw [BlockIds.blockNum_eq_of_id_eq hid] at hlt
  exact Nat.lt_irrefl _ hlt

omit [DecidableEq Id] in
theorem newHead_mem (hsplit : firsts = todo.reverse ++ done) (hne : todo ≠ []) :
    newHead ∈ todo := by
  obtain ⟨lower, hfirsts⟩ := h.firsts_head
  rw [hfirsts] at hsplit
  cases hrev : todo.reverse with
  | nil => exact absurd (List.reverse_eq_nil_iff.mp hrev) hne
  | cons top rest =>
    rw [hrev, List.cons_append] at hsplit
    obtain rfl : newHead = top := (List.cons.inj hsplit).1
    rw [← List.mem_reverse, hrev]
    exact List.mem_cons_self

theorem switchBack (hsplit : firsts = todo.reverse ++ done) (hne : todo ≠ [])
    (hnarrows : Narrows P.toBlockIds f s.fork) {states rest : List σ}
    (happlied : Applied P base (done.map ForkItem.data) s.state states)
    (hundo : s.undo = states ++ rest) (hdone : ∀ item ∈ done, item ∈ s.fork.index) :
    ∃ s' e, s.switchBack P firsts seconds todo front (P.headId base) = (s', e) ∧
      SwitchedBack f P newHead front old s' := by
  have hdoneFirsts : ∀ item ∈ done, item ∈ firsts := by
    intro item hitem
    rw [hsplit]
    exact List.mem_append_right _ hitem
  have htodoFirsts : ∀ item ∈ todo, item ∈ firsts := by
    intro item hitem
    rw [hsplit]
    exact List.mem_append_left _ (List.mem_reverse.mpr hitem)
  -- the invalid blocks are removed, the blocks that were applied stay in the index
  obtain ⟨hmem, hsub, hnext, hsize⟩ :=
    ForkDatabase.mem_removeAll (P := P.toBlockIds) (f := s.fork) (firsts ++ seconds) todo
  generalize hremoved : todo.foldl
    (fun f item => f.remove P.toBlockIds (firsts ++ seconds) (P.id item.data)) s.fork = removed
    at hmem hsub hnext hsize
  have hwf : removed.Wf P.toBlockIds :=
    h.wf.of_sublist (hsub.trans hnarrows.sublist) (hnext.trans hnarrows.nextRef)
  have hpop : ({ s with fork := removed.setHead front } : Node σ Block).popUntil P
      (firsts ++ seconds) (P.headId base) (s.undo.length + 1) =
      ({ s with fork := removed.setHead front, state := base, undo := rest }, none) := by
    refine popUntil_applied happlied rfl hundo rfl (fun b hb => ?_) (fun b hb => ?_) ?_
    · obtain ⟨item, hitem, rfl⟩ := List.mem_map.mp hb
      exact h.front_id item (hdoneFirsts item hitem)
    · obtain ⟨item, hitem, rfl⟩ := List.mem_map.mp hb
      have hin : item ∈ removed.index :=
        (hmem item).mpr ⟨hdone item hitem, h.id_ne hsplit item hitem⟩
      show (removed.fetchBlock P.toBlockIds (P.id item.data)).isSome
      rw [hwf.fetchBlock_of_mem hin]
      rfl
    · rw [hundo, List.length_append]
      omega
  obtain ⟨s', hrestore, hstate, hnarrows'⟩ :=
    restoreBranch_of_replay
      (s := { s with fork := removed.setHead front, state := base, undo := rest }) h.restore
  refine ⟨s', .fc "apply_block", ?_, hstate, hnarrows'.head, ?_, ?_, ?_, ?_, ?_⟩
  · unfold Node.switchBack
    dsimp only
    rw [hremoved, hpop]
    dsimp only
    rw [hrestore]
  · refine hnarrows'.kept front rfl front ?_ (Nat.le_succ _)
    refine (hmem front).mpr ⟨?_, fun bad hbad => h.front_id bad (htodoFirsts bad hbad)⟩
    exact hnarrows.kept newHead h.head front h.front_mem (Nat.le_of_eq h.front_num)
  · exact hnarrows'.sublist.trans (hsub.trans hnarrows.sublist)
  · exact hnarrows'.nextRef.trans (hnext.trans hnarrows.nextRef)
  · refine hnarrows'.size_pos ?_
    show 0 < removed.maxSize
    rw [hsize]
    exact hnarrows.size_pos h.size_pos
  · intro item hitem
    exact ((hmem item).mp (hnarrows'.sublist.subset hitem)).2 newHead (h.newHead_mem hsplit hne)

omit [DecidableEq Id] in
theorem kept_of_le {f' : ForkDatabase Block} (hhead : f'.head = some newHead) {size : Nat}
    (hsize : firsts.length ≤ size + 1) {item : ForkItem Block} (hfirsts : item ∈ firsts)
    (hitem : item ∈ f'.index) : item ∈ (f'.setMaxSize P.toBlockIds size).index := by
  obtain ⟨lower, rfl⟩ := h.firsts_head
  have hnum := h.firsts_branch.blockNum_add_length item hfirsts
  rw [ForkDatabase.setMaxSize_index hhead]
  refine List.mem_filter.mpr ⟨hitem, decide_eq_true ?_⟩
  rw [List.length_cons] at hsize
  omega

/-- The new fork does not apply as a whole.  If its first block fails, or all sizes set on the way
cover it, the node goes back to the old fork.  The induction is on the blocks to do. -/
theorem pushBranch (hsplit : firsts = todo.reverse ++ done)
    (hnarrows : Narrows P.toBlockIds f s.fork) {states rest : List σ}
    (happlied : Applied P base (done.map ForkItem.data) s.state states)
    (hundo : s.undo = states ++ rest) (hin : ∀ item ∈ firsts, item ∈ s.fork.index)
    (hdone : done ≠ [] → firsts.length ≤ s.undoMax + 1)
    (hwindows : done = [] ∧ (∃ item lower, todo = item :: lower ∧ P.apply s.state item.data = none) ∨ ∀ size ∈ windowsAlong P s.state (todo.map ForkItem.data), firsts.length ≤ size + 1)
    (hfails : replay P s.state (todo.map ForkItem.data) = none) :
    ∃ s' e, s.pushBranch P firsts seconds front (P.headId base) todo = (s', .error e) ∧
      SwitchedBack f P newHead front old s' := by
  induction todo generalizing s done states rest with
  | nil => cases hfails
  | cons item todo ih =>
    have hlength : firsts.length = todo.length + 1 + done.length := by
      rw [hsplit, List.length_append, List.length_reverse, List.length_cons]
    have hstates : states.length = done.length := by
      rw [happlied.length_states, List.length_map]
    have hdoneMem : ∀ x ∈ done, x ∈ firsts := by
      intro x hx
      rw [hsplit]
      exact List.mem_append_right _ hx
    -- the states of the blocks done survive the start of the next session
    have htake : s.undo.take s.undoMax = states ++ rest.take (s.undoMax - states.length) := by
      rw [hundo, List.take_append]
      congr 1
      refine List.take_of_length_le ?_
      rw [hstates]
      cases done with
      | nil => exact Nat.zero_le _
      | cons _ _ =>
        have hmax := hdone (List.cons_ne_nil _ _)
        omega
    cases happly : P.apply s.state item.data with
    | none =>
      obtain ⟨s1, heq, hstate, hundo1, hnarrows1, hfork1⟩ := applyBlock_of_none happly
      have hdone1 : ∀ x ∈ done, x ∈ s1.fork.index := by
        intro x hx
        rcases hfork1 with ⟨-, hfork⟩ | ⟨size, hsize, hfork⟩
        · rw [hfork]
          exact hin x (hdoneMem x hx)
        · rw [hfork]
          refine h.kept_of_le (hnarrows.head.trans h.head) ?_ (hdoneMem x hx)
            (hin x (hdoneMem x hx))
          rcases hwindows with ⟨hnil, -⟩ | hwindows
          · exact absurd hnil (List.ne_nil_of_mem hx)
          · refine hwindows size ?_
            rw [List.map_cons, windowsAlong, hsize]
            exact List.mem_cons_self
      obtain ⟨s', e, hback, hres⟩ := h.switchBack (s := s1) hsplit (List.cons_ne_nil _ _)
        (hnarrows.trans hnarrows1) (hstate.symm ▸ happlied) (hundo1.trans htake) hdone1
      refine ⟨s', e, ?_, hres⟩
      rw [Node.pushBranch, heq]
      dsimp only
      rw [hback]
    | some state =>
      obtain ⟨s1, heq, hstate, hundo1, hnarrows1, size, hsize, hmax, hfork⟩ :=
        applyBlock_of_some happly
      have hwindows' : ∀ size ∈ windowsAlong P s.state ((item :: todo).map ForkItem.data),
          firsts.length ≤ size + 1 := by
        rcases hwindows with ⟨-, item', lower, htodo, hnone⟩ | hwindows
        · obtain rfl := (List.cons.inj htodo).1
          rw [happly] at hnone
          cases hnone
        · exact hwindows
      have hcover : firsts.length ≤ size + 1 := by
        refine hwindows' size ?_
        rw [List.map_cons, windowsAlong, hsize]
        exact List.mem_append_left _ (List.mem_singleton.mpr rfl)
      have hin1 : ∀ x ∈ firsts, x ∈ s1.fork.index := by
        intro x hx
        rw [hfork]
        exact h.kept_of_le (hnarrows.head.trans h.head) hcover hx (hin x hx)
      have hwindows1 : ∀ size ∈ windowsAlong P s1.state (todo.map ForkItem.data),
          firsts.length ≤ size + 1 := by
        intro size' hsize'
        refine hwindows' size' ?_
        rw [List.map_cons, windowsAlong, happly]
        exact List.mem_append_right _ (hstate ▸ hsize')
      have hfails1 : replay P s1.state (todo.map ForkItem.data) = none := by
        rw [List.map_cons, replay, happly, Option.bind_some] at hfails
        rw [hstate]
        exact hfails
      have hsplit1 : firsts = todo.reverse ++ item :: done := by
        rw [hsplit, List.reverse_cons, List.append_assoc, List.singleton_append]
      have happlied1 : Applied P base ((item :: done).map ForkItem.data) s1.state
          (s.state :: states) := .block happlied (hstate ▸ happly)
      have hundo1' : s1.undo = (s.state :: states) ++ rest.take (s.undoMax - states.length) := by
        rw [hundo1, htake, List.cons_append]
      obtain ⟨s', e, hpush, hres⟩ := ih hsplit1 (hnarrows.trans hnarrows1) happlied1 hundo1' hin1
        (fun _ => by omega) (.inr hwindows1) hfails1
      refine ⟨s', e, ?_, hres⟩
      rw [Node.pushBranch, heq]
      exact hpush

end

end Switching

end Meta1Core.Blocks
