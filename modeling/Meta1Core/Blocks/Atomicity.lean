import Meta1Core.Blocks.Switch

/-!
# A push that throws changes nothing

Where the links of both heads reach a common ancestor, and the undo history and the windows cover
the switch, a push that throws leaves the object state and the head of the fork database as they
were.
-/

namespace Meta1Core.Blocks

open Lib (Reachable Succeeds)
open ForkDatabase (Narrows Branch)

variable {σ Id Block : Type} [DecidableEq Id]

/-- The new fork applies as a whole, or its first block fails, or every size that is set on the way
covers it. -/
def WindowsCover (P : ChainLogic σ Id Block) (ancestor : σ) (chain : List Block) : Prop :=
  (replay P ancestor chain).isSome ∨ (chain.head?.bind (P.apply ancestor)).isNone ∨
    ∀ size ∈ windowsAlong P ancestor chain, chain.length ≤ size + 1

instance (P : ChainLogic σ Id Block) (ancestor : σ) (chain : List Block) :
    Decidable (WindowsCover P ancestor chain) :=
  inferInstanceAs (Decidable (_ ∨ _ ∨ _))

/-- The undo history reaches below the old fork, whose items hold the blocks on disk, and the windows
cover the new fork. -/
def SwitchCovered (P : ChainLogic σ Id Block) (s : Node σ Block)
    (branches : List (ForkItem Block) × List (ForkItem Block)) : Prop :=
  (∀ item ∈ branches.2, s.blocks (P.blockNum item.data) = some item.data) ∧
    match s.undo[branches.2.length - 1]? with
    | some ancestor => WindowsCover P ancestor (branches.1.reverse.map ForkItem.data)
    | none => False

instance (P : ChainLogic σ Id Block) [DecidableEq Block] (s : Node σ Block)
    (branches : List (ForkItem Block) × List (ForkItem Block)) :
    Decidable (SwitchCovered P s branches) :=
  let _ : Decidable (match s.undo[branches.2.length - 1]? with
      | some ancestor => WindowsCover P ancestor (branches.1.reverse.map ForkItem.data)
      | none => False) :=
    match s.undo[branches.2.length - 1]? with
    | some ancestor =>
      inferInstanceAs (Decidable (WindowsCover P ancestor (branches.1.reverse.map ForkItem.data)))
    | none => .isFalse fun h => h
  instDecidableAnd

/-- If the block makes the fork database choose a head that does not extend the head block, the links
of both reach a common ancestor and the switch is covered. -/
def Covered (P : ChainLogic σ Id Block) (s : Node σ Block) (b : Block) : Prop :=
  match s.fork.pushBlock P.toBlockIds b with
  | .error _ => True
  | .ok (fork, newHead) =>
    P.previous newHead.data = P.headId s.state ∨
      P.blockNum newHead.data ≤ P.headNum s.state ∨
      Succeeds (fork.fetchBranchFrom P.toBlockIds (P.id newHead.data) (P.headId s.state))
        (SwitchCovered P s)

instance (P : ChainLogic σ Id Block) [DecidableEq Block] (s : Node σ Block) (b : Block) :
    Decidable (Covered P s b) :=
  match h : s.fork.pushBlock P.toBlockIds b with
  | .error _ => .isTrue (by rw [Covered, h]; trivial)
  | .ok (fork, newHead) =>
    decidable_of_iff (P.previous newHead.data = P.headId s.state ∨
        P.blockNum newHead.data ≤ P.headNum s.state ∨
        Succeeds (fork.fetchBranchFrom P.toBlockIds (P.id newHead.data) (P.headId s.state))
          (SwitchCovered P s)) (by rw [Covered, h])

/-- The head of the fork database is the item of the head block, in the index, and nothing in the
index is above it. -/
structure Settled (P : ChainLogic σ Id Block) (s : Node σ Block) : Prop where
  replayed : Replayed P s
  wf : s.fork.Wf P.toBlockIds
  size_pos : 0 < s.fork.maxSize
  below : ∀ item ∈ s.fork.index, P.blockNum item.data ≤ P.headNum s.state
  head_mem : ∀ head, s.fork.head = some head → head ∈ s.fork.index
  head_id : ∀ head, s.fork.head = some head → P.id head.data = P.headId s.state
  head_none : s.fork.head = none → P.headId s.state = P.zero

variable {P : ChainLogic σ Id Block} {s : Node σ Block} {b : Block}

omit [DecidableEq Id] in
theorem Replayed.headNum_eq (h : Replayed P s) : P.headNum s.state = P.numFromId (P.headId s.state) := by
  obtain ⟨chain, states, h⟩ := h
  exact h.applied.headNum_eq

omit [DecidableEq Id] in
theorem settled_start : Settled P (Node.start P) where
  replayed := ⟨[], [], .base, List.nil_prefix, fun b hb => nomatch hb⟩
  wf := ⟨List.nodup_nil, List.nodup_nil, fun _ h => (nomatch h), fun _ h => (nomatch h),
    fun _ h => (nomatch h)⟩
  size_pos := (by decide : 0 < 1024)
  below _ h := nomatch h
  head_mem _ h := nomatch h
  head_id _ h := nomatch h
  head_none _ := P.headId_genesis

/-- The head of the fork database is the item of the head block, if there is any. -/
structure AtHead (P : ChainLogic σ Id Block) (s : Node σ Block) : Prop where
  wf : s.fork.Wf P.toBlockIds
  head_mem : ∀ head, s.fork.head = some head → head ∈ s.fork.index
  head_id : ∀ head, s.fork.head = some head → P.id head.data = P.headId s.state

namespace AtHead

theorem fork_pushBlock (h : AtHead P s) (hprevious : P.previous b = P.headId s.state) :
    ∃ fork newHead, s.fork.pushBlock P.toBlockIds b = .ok (fork, newHead) ∧ newHead.data = b := by
  unfold ForkDatabase.pushBlock
  cases hhead : s.fork.head with
  | none =>
    have hlink : s.fork.linkOf P.toBlockIds b = .ok none := by
      unfold ForkDatabase.linkOf
      rw [hhead, if_neg (fun hand => Bool.false_ne_true hand.1)]
    rw [hlink]
    exact ⟨_, _, rfl, rfl⟩
  | some head =>
    have hnum : P.blockNum b = P.blockNum head.data + 1 :=
      BlockIds.blockNum_eq_succ ((h.head_id head hhead).trans hprevious.symm)
    have hlink : s.fork.linkOf P.toBlockIds b = .ok (some head.ref) := by
      unfold ForkDatabase.linkOf
      rw [hprevious, ← h.head_id head hhead, h.wf.fetchBlock_of_mem (h.head_mem head hhead), hhead,
        if_pos ⟨rfl, P.id_ne_zero head.data⟩]
    have hassert : fcAssert (∀ head' ∈ some head,
        P.blockNum head'.data - s.fork.maxSize < P.blockNum b)
        "attempting to push a block that is too old" = .ok () := by
      rw [fcAssert_eq_ok]
      rintro head' ⟨⟩
      omega
    rw [hassert, hlink]
    exact ⟨_, _, if_pos (by omega), rfl⟩

theorem pushBlock_of_some (h : AtHead P s) {state : σ} (happly : P.apply s.state b = some state) :
    ∃ s', s.pushBlock P b = (s', .ok false) ∧ s'.state = state := by
  have hprevious := P.previous_of_apply _ _ _ happly
  obtain ⟨fork, newHead, hpush, hdata⟩ := h.fork_pushBlock hprevious
  obtain ⟨s', heq, hstate, -⟩ := applyBlock_of_some (s := { s with fork := fork }) happly
  refine ⟨s', ?_, hstate⟩
  unfold Node.pushBlock
  rw [hpush]
  dsimp only
  rw [hdata, if_neg (not_not.mpr hprevious), heq]

end AtHead

namespace Settled

omit [DecidableEq Id] in
theorem atHead (h : Settled P s) : AtHead P s := ⟨h.wf, h.head_mem, h.head_id⟩

variable {head newHead : ForkItem Block} {fork : ForkDatabase Block}

omit [DecidableEq Id] in
theorem headNum_eq (h : Settled P s) (hhead : s.fork.head = some head) :
    P.headNum s.state = P.blockNum head.data := by
  rw [h.replayed.headNum_eq, ← h.head_id head hhead, P.numFromId_id]

omit [DecidableEq Id] in
theorem index_eq_nil (h : Settled P s) (hnone : s.fork.head = none) : s.fork.index = [] := by
  refine List.eq_nil_iff_forall_not_mem.mpr fun item hitem => ?_
  have hle := h.below item hitem
  rw [h.replayed.headNum_eq, h.head_none hnone, P.num_zero] at hle
  exact absurd (BlockIds.blockNum_pos item.data) (Nat.not_lt.mpr hle)

structure Raised (P : ChainLogic σ Id Block) (s : Node σ Block) (fork : ForkDatabase Block)
    (newHead head parent : ForkItem Block) : Prop where
  wf : fork.Wf P.toBlockIds
  size_pos : 0 < fork.maxSize
  new_head : fork.head = some newHead
  newHead_mem : newHead ∈ fork.index
  old_head : s.fork.head = some head
  old_mem : head ∈ fork.index
  num : P.blockNum newHead.data = P.blockNum head.data + 1
  parent_mem : parent ∈ fork.index
  parent_id : P.id parent.data = P.previous newHead.data
  parent_link : newHead.prev = some parent.ref
  below : ∀ item ∈ fork.index, item = newHead ∨ P.blockNum item.data ≤ P.blockNum head.data

theorem raised (h : Settled P s) {prev : Option Nat} (hhead : s.fork.head = some head)
    (hlt : P.blockNum head.data < P.blockNum b) (hnew : newHead = ⟨s.fork.nextRef, b, prev⟩)
    (hfork : fork = ForkDatabase.prune P.toBlockIds
      { s.fork.insertItem P.toBlockIds newHead with head := some newHead } (P.blockNum b))
    (hprev : P.previous b = P.zero ∧ prev = none ∨
      ∃ parent, s.fork.fetchBlock P.toBlockIds (P.previous b) = some parent ∧
        prev = some parent.ref) :
    ∃ parent, Raised P s fork newHead head parent := by
  obtain ⟨parent, hfound, rfl⟩ : ∃ parent,
      s.fork.fetchBlock P.toBlockIds (P.previous b) = some parent ∧ prev = some parent.ref := by
    rcases hprev with ⟨hzero, -⟩ | hparent
    · -- a first block is not above any other
      have hone : P.blockNum b = 1 := by
        rw [BlockIds.blockNum, hzero, P.num_zero]
      have hpos := BlockIds.blockNum_pos (P := P.toBlockIds) head.data
      omega
    · exact hparent
  obtain ⟨hmem, hid⟩ := ForkDatabase.fetchBlock_eq_some hfound
  have hnum : P.blockNum b = P.blockNum parent.data + 1 := BlockIds.blockNum_eq_succ hid
  have hparentLe : P.blockNum parent.data ≤ P.blockNum head.data :=
    h.headNum_eq hhead ▸ h.below parent hmem
  have hfresh : (s.fork.fetchBlock P.toBlockIds (P.id b)).isSome = false := by
    cases hdup : s.fork.fetchBlock P.toBlockIds (P.id b) with
    | none => rfl
    | some item =>
      obtain ⟨hitem, hitemId⟩ := ForkDatabase.fetchBlock_eq_some hdup
      have hle := h.below item hitem
      rw [h.headNum_eq hhead, BlockIds.blockNum_eq_of_id_eq hitemId] at hle
      omega
  have hwf : (s.fork.insertItem P.toBlockIds newHead).Wf P.toBlockIds := by
    rw [hnew]
    refine h.wf.insertItem fun ref href => ?_
    exact ⟨parent, hmem, Option.some.inj href, hid⟩
  have hdata : newHead.data = b := by rw [hnew]
  have hindex : fork.index = (s.fork.index ++ [newHead]).filter
      fun item => P.blockNum b - s.fork.maxSize ≤ P.blockNum item.data := by
    rw [hfork]
    unfold ForkDatabase.prune ForkDatabase.insertItem
    dsimp only
    rw [hdata, hfresh]
    rfl
  have hpos := h.size_pos
  have hmem' : ∀ {item}, item ∈ s.fork.index ++ [newHead] →
      P.blockNum b ≤ P.blockNum item.data + 1 → item ∈ fork.index := by
    intro item hitem hle
    rw [hindex]
    refine List.mem_filter.mpr ⟨hitem, decide_eq_true ?_⟩
    omega
  refine ⟨parent, ?_, ?_, ?_, hmem' ?_ ?_, hhead, hmem' ?_ ?_, ?_, hmem' ?_ ?_, ?_, ?_, ?_⟩
  · rw [hfork]
    exact hwf.of_sublist List.filter_sublist rfl
  · rw [hfork]
    exact hpos
  · rw [hfork]
    rfl
  · exact List.mem_append_right _ (List.mem_singleton.mpr rfl)
  · rw [hdata]
    exact Nat.le_succ _
  · exact List.mem_append_left _ (h.head_mem head hhead)
  · omega
  · rw [hdata]
    omega
  · exact List.mem_append_left _ hmem
  · omega
  · rw [hdata]
    exact hid
  · rw [hnew]
  · intro item hitem
    rw [hindex] at hitem
    rcases List.mem_append.mp (List.mem_filter.mp hitem).1 with hold | hnew
    · exact .inr (h.headNum_eq hhead ▸ h.below item hold)
    · exact .inl (List.mem_singleton.mp hnew)

/-- What a push owes: the node is settled again, and if it throws, the state and the head of the fork
database are as before. -/
structure Atomic (P : ChainLogic σ Id Block) (s : Node σ Block)
    (outcome : Node σ Block × Except Exception Bool) : Prop where
  settled : Settled P outcome.1
  state : ∀ e, outcome.2 = .error e → outcome.1.state = s.state
  head : ∀ e, outcome.2 = .error e → outcome.1.fork.head = s.fork.head

theorem extend (h : Settled P s) (hdata : newHead.data = b) (hwf : fork.Wf P.toBlockIds)
    (hpos : 0 < fork.maxSize) (hhead : fork.head = some newHead) (hmem : newHead ∈ fork.index)
    (hbelow : ∀ item ∈ fork.index, item = newHead ∨ P.blockNum item.data ≤ P.headNum s.state)
    (hnum : P.blockNum b = P.headNum s.state + 1)
    (hpop : ∀ f : ForkDatabase Block, Narrows P.toBlockIds fork f →
      (f.remove P.toBlockIds [] (P.id b)).head = s.fork.head)
    (hkept : ∀ head, s.fork.head = some head → head ∈ fork.index) :
    Atomic P s (match ({ s with fork := fork } : Node σ Block).applyBlock P b with
      | (s, true) => (s, .ok false)
      | (s, false) =>
        ({ s with fork := s.fork.remove P.toBlockIds [] (P.id b) },
          .error (.fc "apply_block"))) := by
  have hreplayed := h.replayed.setFork fork
  cases happly : P.apply s.state b with
  | some state =>
    obtain ⟨s', heq, hstate, -, hnarrows, -⟩ :=
      applyBlock_of_some (s := { s with fork := fork }) happly
    have hreplayed' := hreplayed.applyBlock b
    rw [heq] at hreplayed'
    rw [heq]
    have hheadNum : P.headNum s'.state = P.blockNum b := by
      rw [hstate, P.headNum_of_apply _ _ _ happly, P.numFromId_id]
    refine ⟨⟨hreplayed', hwf.of_sublist hnarrows.sublist hnarrows.nextRef,
      hnarrows.size_pos hpos, fun item hitem => ?_, fun head hhead' => ?_, fun head hhead' => ?_,
      fun hnone => ?_⟩, fun e he => (nomatch he), fun e he => (nomatch he)⟩
    · rw [hheadNum]
      rcases hbelow item (hnarrows.sublist.subset hitem) with rfl | hle
      · exact Nat.le_of_eq (congrArg _ hdata)
      · omega
    · obtain rfl : newHead = head := Option.some.inj (hhead.symm.trans (hnarrows.head ▸ hhead'))
      exact hnarrows.kept newHead hhead newHead hmem (Nat.le_succ _)
    · obtain rfl : newHead = head := Option.some.inj (hhead.symm.trans (hnarrows.head ▸ hhead'))
      rw [hstate, P.headId_of_apply _ _ _ happly, hdata]
    · dsimp only at hnone
      rw [hnarrows.head, hhead] at hnone
      cases hnone
  | none =>
    obtain ⟨s', heq, hstate, -, hnarrows, -⟩ :=
      applyBlock_of_none (s := { s with fork := fork }) happly
    have hreplayed' := hreplayed.applyBlock b
    rw [heq] at hreplayed'
    rw [heq]
    obtain ⟨hindex, hnext, hsize⟩ := ForkDatabase.remove_index (P := P.toBlockIds) (f := s'.fork) []
      (P.id b)
    have hhead' := hpop s'.fork hnarrows
    have hsub : (s'.fork.remove P.toBlockIds [] (P.id b)).index.Sublist fork.index := by
      rw [hindex]
      exact List.filter_sublist.trans hnarrows.sublist
    refine ⟨⟨hreplayed'.setFork _, hwf.of_sublist hsub (hnext.trans hnarrows.nextRef), ?_,
      fun item hitem => ?_, fun head hold => ?_, fun head hold => ?_, fun hnone => ?_⟩,
      fun e _ => hstate, fun e _ => hhead'⟩
    · show 0 < (s'.fork.remove P.toBlockIds [] (P.id b)).maxSize
      rw [hsize]
      exact hnarrows.size_pos hpos
    · show P.blockNum item.data ≤ P.headNum s'.state
      rw [hstate]
      rcases hbelow item (hsub.subset hitem) with rfl | hle
      · dsimp only at hitem
        rw [hindex] at hitem
        exact absurd (congrArg P.id hdata) (of_decide_eq_true (List.mem_filter.mp hitem).2)
      · exact hle
    · dsimp only at hold ⊢
      rw [hhead'] at hold
      rw [hindex]
      refine List.mem_filter.mpr ⟨?_, decide_eq_true fun hid => ?_⟩
      · have hnumHead := h.headNum_eq hold
        refine hnarrows.kept newHead hhead head (hkept head hold) ?_
        rw [hdata]
        omega
      · have hnumHead := h.headNum_eq hold
        rw [← BlockIds.blockNum_eq_of_id_eq hid] at hnum
        omega
    · dsimp only at hold ⊢
      rw [hhead'] at hold
      rw [hstate]
      exact h.head_id head hold
    · dsimp only at hnone ⊢
      rw [hhead'] at hnone
      rw [hstate]
      exact h.head_none hnone

omit [DecidableEq Id] in
theorem seconds_eq_chain {f : ForkDatabase Block} {blocks : Nat → Option Block}
    {seconds : List (ForkItem Block)} {chain : List Block} {base state : σ} {states : List σ}
    (happlied : Applied P base chain state states) (hbase : P.headId base = P.zero)
    (hbranch : Branch P.toBlockIds f seconds)
    (hhead : ∀ head, seconds.head? = some head → P.id head.data = P.headId state)
    (hstored : ∀ b ∈ chain, blocks (P.blockNum b) = some b)
    (hdisk : ∀ item ∈ seconds, blocks (P.blockNum item.data) = some item.data) :
    ∃ older, chain = seconds.map ForkItem.data ++ older := by
  induction seconds generalizing chain state states with
  | nil => exact ⟨chain, rfl⟩
  | cons item rest ih =>
    have hid := hhead item rfl
    cases happlied with
    | base =>
      rw [hbase] at hid
      exact absurd hid (P.id_ne_zero item.data)
    | @block chain before state states b happlied' happly =>
      rw [P.headId_of_apply _ _ _ happly] at hid
      obtain rfl : item.data = b := by
        have hitem := hdisk item List.mem_cons_self
        rw [BlockIds.blockNum_eq_of_id_eq hid, hstored b List.mem_cons_self] at hitem
        exact (Option.some.inj hitem).symm
      have hrest : ∀ head, rest.head? = some head → P.id head.data = P.headId before := by
        intro head hhead'
        obtain ⟨lower, rfl⟩ : ∃ lower, rest = head :: lower := List.head?_eq_some_iff.mp hhead'
        rw [← P.previous_of_apply _ _ _ happly]
        exact (List.isChain_cons_cons.mp hbranch.linked).1
      obtain ⟨older, rfl⟩ := ih happlied'
        ⟨fun x hx => hbranch.mem x (List.mem_cons_of_mem _ hx), hbranch.linked.of_cons⟩ hrest
        (fun c hc => hstored c (List.mem_cons_of_mem _ hc))
        (fun x hx => hdisk x (List.mem_cons_of_mem _ hx))
      exact ⟨older, rfl⟩

section

variable {lower seconds : List (ForkItem Block)} {parent back : ForkItem Block} {mid : σ}
  {rest : List σ}

theorem popped (h : Settled P s) (hraised : Raised P s fork newHead head parent)
    (hsecondsHead : seconds.head? = some head) (hbranch : Branch P.toBlockIds fork seconds)
    (hback : seconds.getLast? = some back)
    (hcovered : SwitchCovered P s (newHead :: lower, seconds)) :
    ∃ mid rest, P.previous back.data = P.headId mid ∧
      ({ s with fork := fork } : Node σ Block).popUntil P (newHead :: lower ++ seconds)
        (P.headId mid) (s.undo.length + 1) =
        ({ s with fork := fork, state := mid, undo := rest }, none) ∧
      replay P mid (seconds.reverse.map ForkItem.data) = some s.state ∧
      WindowsCover P mid ((newHead :: lower).reverse.map ForkItem.data) := by
  obtain ⟨hdisk, hancestor⟩ := hcovered
  have hheadId := h.head_id head hraised.old_head
  -- the old fork as blocks of the chain
  obtain ⟨chain, states, hconsistent⟩ := h.replayed
  have hhead : ∀ item, seconds.head? = some item → P.id item.data = P.headId s.state := by
    intro item hitem
    rw [Option.some.inj (hitem.symm.trans hsecondsHead), hheadId]
  obtain ⟨older, rfl⟩ := seconds_eq_chain hconsistent.applied P.headId_genesis hbranch hhead
    hconsistent.stored hdisk
  obtain ⟨mid, us, us', rfl, hnewer, -⟩ := hconsistent.applied.split
  have hlast : (seconds.map ForkItem.data).getLast? = some back.data := by
    rw [List.getLast?_map, hback, Option.map_some]
  obtain ⟨htarget, hmid⟩ := hnewer.previous_getLast hlast
  have hlength : us.length = seconds.length := by
    rw [hnewer.length_states, List.length_map]
  obtain ⟨tail, htail⟩ := hconsistent.undo
  dsimp only at hancestor
  cases hget : s.undo[seconds.length - 1]? with
  | none =>
    rw [hget] at hancestor
    exact hancestor.elim
  | some ancestor =>
    rw [hget] at hancestor
    obtain ⟨hlt, -⟩ := List.getElem?_eq_some_iff.mp hget
    have hlen : us.length ≤ s.undo.length := by
      rw [hlength]
      omega
    obtain ⟨rest, hrest⟩ := List.prefix_of_prefix_length_le (List.prefix_append us us')
      ⟨tail, htail⟩ hlen
    obtain rfl : mid = ancestor := by
      have hpos := List.length_pos_iff.mpr (List.ne_nil_of_mem (List.mem_of_mem_head? hsecondsHead))
      rw [List.getLast?_eq_getElem?, hlength] at hmid
      rw [← hrest, List.getElem?_append_left (by omega), hmid] at hget
      exact Option.some.inj hget
    refine ⟨mid, rest, htarget, ?_, ?_, hancestor⟩
    · refine popUntil_applied hnewer rfl hrest.symm hraised.new_head (fun c hc hid => ?_)
        (fun c hc => ?_) ?_
      · have hle := hnewer.blockNum_le c hc
        rw [← hheadId, P.numFromId_id, ← BlockIds.blockNum_eq_of_id_eq hid, hraised.num] at hle
        omega
      · obtain ⟨item, hitem, rfl⟩ := List.mem_map.mp hc
        rw [hraised.wf.fetchBlock_of_mem (hbranch.mem item hitem)]
        rfl
      · rw [← hrest, List.length_append]
        omega
    · rw [List.map_reverse]
      exact hnewer.replay_eq

theorem switched (h : Settled P s) (hraised : Raised P s fork newHead head parent) {state : σ}
    (hreplay : replay P mid ((newHead :: lower).reverse.map ForkItem.data) = some state)
    (hreplayed : Replayed P (({ s with fork := fork } : Node σ Block).switchForks P newHead).1)
    (hswitch : ({ s with fork := fork } : Node σ Block).switchForks P newHead =
      ({ s with fork := fork, state := mid, undo := rest } : Node σ Block).pushBranch P
        (newHead :: lower) seconds head (P.headId mid) (newHead :: lower).reverse) :
    Atomic P s (({ s with fork := fork } : Node σ Block).switchForks P newHead) := by
  have hreverse : (newHead :: lower).reverse.map ForkItem.data =
      lower.reverse.map ForkItem.data ++ [newHead.data] := by
    rw [List.reverse_cons, List.map_append, List.map_singleton]
  have hheadNum := h.headNum_eq hraised.old_head
  obtain ⟨s', heq, hstate, hnarrows⟩ := pushBranch_of_replay
    (s := { s with fork := fork, state := mid, undo := rest }) hreplay
  rw [hreverse] at hreplay
  obtain ⟨hnewId, hnewNum⟩ := headId_of_replay hreplay
  rw [hswitch, heq] at hreplayed ⊢
  have hnewHead : ∀ item, s'.fork.head = some item → newHead = item := fun item hitem =>
    Option.some.inj (hraised.new_head.symm.trans (hnarrows.head ▸ hitem))
  refine ⟨⟨hreplayed, hraised.wf.of_sublist hnarrows.sublist hnarrows.nextRef,
    hnarrows.size_pos hraised.size_pos, fun item hitem => ?_, fun item hitem => ?_,
    fun item hitem => ?_, fun hnone => ?_⟩, fun e he => (nomatch he), fun e he => (nomatch he)⟩
  · rw [hstate, hnewNum]
    rcases hraised.below item (hnarrows.sublist.subset hitem) with rfl | hle
    · exact Nat.le_refl _
    · rw [hraised.num]
      omega
  · obtain rfl := hnewHead item hitem
    exact hnarrows.kept newHead hraised.new_head newHead hraised.newHead_mem (Nat.le_succ _)
  · obtain rfl := hnewHead item hitem
    rw [hstate, hnewId]
  · dsimp only at hnone
    rw [hnarrows.head] at hnone
    exact absurd (hraised.new_head.symm.trans hnone) (Option.some_ne_none _)

omit [DecidableEq Id] in
theorem Raised.switching (hraised : Raised P s fork newHead head parent)
    (hheadId : P.id head.data = P.headId s.state) (hne : P.previous newHead.data ≠ P.headId s.state)
    (hbranch : Branch P.toBlockIds fork (newHead :: lower)) (hlower : lower.head? = some parent)
    (hrestore : replay P mid (seconds.reverse.map ForkItem.data) = some s.state) :
    Switching P fork newHead head (newHead :: lower) seconds mid s.state := by
  refine ⟨hraised.wf, hraised.new_head, hraised.size_pos, ⟨lower, rfl⟩, hbranch, hraised.old_mem,
    hraised.num, fun item hitem hid => ?_, hrestore⟩
  have hitemNum := BlockIds.blockNum_eq_of_id_eq hid
  have hnum := hraised.num
  rcases List.mem_cons.mp hitem with rfl | hitem
  · omega
  · obtain ⟨lower', rfl⟩ : ∃ lower', lower = parent :: lower' := List.head?_eq_some_iff.mp hlower
    rcases List.mem_cons.mp hitem with rfl | hitem
    · exact hne (hraised.parent_id.symm.trans (hid.symm.trans hheadId))
    · have hpairwise := List.pairwise_cons.mp (List.pairwise_cons.mp hbranch.pairwise).2
      have hlt := hpairwise.1 item hitem
      have hparentNum := BlockIds.blockNum_eq_succ hraised.parent_id
      omega

omit [DecidableEq Id] in
/-- Where the new fork fails, its first block fails or every window covers it. -/
theorem windows_of_fails {firsts : List (ForkItem Block)} (hne : firsts ≠ [])
    (hcover : WindowsCover P mid (firsts.reverse.map ForkItem.data))
    (hreplay : replay P mid (firsts.reverse.map ForkItem.data) = none) :
    (∃ item rest, firsts.reverse = item :: rest ∧ P.apply mid item.data = none) ∨
      ∀ size ∈ windowsAlong P mid (firsts.reverse.map ForkItem.data), firsts.length ≤ size + 1 := by
  rcases hcover with hsome | hfirst | hall
  · rw [hreplay] at hsome
    cases hsome
  · left
    cases hrev : firsts.reverse with
    | nil => exact absurd (List.reverse_eq_nil_iff.mp hrev) hne
    | cons item rest =>
      rw [hrev, List.map_cons, List.head?_cons, Option.bind_some] at hfirst
      exact ⟨item, rest, rfl, Option.isNone_iff_eq_none.mp hfirst⟩
  · right
    rw [List.length_map, List.length_reverse] at hall
    exact hall

theorem switch (h : Settled P s) (hraised : Raised P s fork newHead head parent)
    (hne : P.previous newHead.data ≠ P.headId s.state)
    {branches : List (ForkItem Block) × List (ForkItem Block)}
    (hfetch : fork.fetchBranchFrom P.toBlockIds (P.id newHead.data) (P.headId s.state) =
      .ok branches) (hcovered : SwitchCovered P s branches) :
    Atomic P s (({ s with fork := fork } : Node σ Block).switchForks P newHead) := by
  obtain ⟨firsts, seconds⟩ := branches
  have hheadId := h.head_id head hraised.old_head
  have hfetch' := hfetch
  rw [← hheadId] at hfetch'
  obtain ⟨lower, rfl, hlowerHead, hsecondsHead, hbranch1, hbranch2, -, a, back, -, hback, -⟩ :=
    ForkDatabase.fetchBranchFrom_newHead hraised.wf hraised.new_head hraised.newHead_mem
      hraised.old_mem (ForkDatabase.parent_of_mem hraised.wf hraised.parent_mem hraised.parent_link [])
      hraised.num hfetch'
  obtain ⟨mid, rest, htarget, hpop, hrestore, hcover⟩ :=
    h.popped hraised hsecondsHead hbranch2 hback hcovered
  have hswitch : ({ s with fork := fork } : Node σ Block).switchForks P newHead =
      ({ s with fork := fork, state := mid, undo := rest } : Node σ Block).pushBranch P
        (newHead :: lower) seconds head (P.headId mid) (newHead :: lower).reverse := by
    unfold Node.switchForks
    rw [hfetch]
    dsimp only
    rw [hsecondsHead, hback]
    dsimp only
    rw [htarget, hpop]
  have hreplayed := (h.replayed.setFork fork).switchForks newHead
  cases hreplay : replay P mid ((newHead :: lower).reverse.map ForkItem.data) with
  | some state => exact h.switched hraised hreplay hreplayed hswitch
  | none =>
    have hswitching := hraised.switching hheadId hne hbranch1 hlowerHead hrestore
    have hwindows := windows_of_fails (List.cons_ne_nil newHead lower) hcover hreplay
    have hsplit : newHead :: lower = (newHead :: lower).reverse.reverse ++ [] := by
      rw [List.reverse_reverse, List.append_nil]
    have hheadNum := h.headNum_eq hraised.old_head
    obtain ⟨s', e, heq, hres⟩ := hswitching.pushBranch
      (s := { s with fork := fork, state := mid, undo := rest }) hsplit (.refl _) .base rfl hbranch1.mem
      (fun hnil => absurd rfl hnil) (hwindows.imp_left fun hfirst => ⟨rfl, hfirst⟩) hreplay
    rw [hswitch, heq] at hreplayed ⊢
    have hfront : ∀ item, s'.fork.head = some item → head = item := fun item hitem =>
      Option.some.inj (hres.head.symm.trans hitem)
    refine ⟨⟨hreplayed, hraised.wf.of_sublist hres.sublist hres.nextRef, hres.size_pos,
      fun item hitem => ?_, fun item hitem => ?_, fun item hitem => ?_, fun hnone => ?_⟩,
      fun e _ => hres.state, fun e _ => hres.head.trans hraised.old_head.symm⟩
    · rw [hres.state, hheadNum]
      rcases hraised.below item (hres.sublist.subset hitem) with rfl | hle
      · exact absurd rfl (hres.gone item hitem)
      · exact hle
    · obtain rfl := hfront item hitem
      exact hres.head_mem
    · obtain rfl := hfront item hitem
      rw [hres.state, hheadId]
    · exact absurd (hres.head.symm.trans hnone) (Option.some_ne_none _)

end

theorem first (h : Settled P s) (hnone : s.fork.head = none)
    (hnew : newHead = ⟨s.fork.nextRef, b, none⟩)
    (hfork : fork = { s.fork.insertItem P.toBlockIds newHead with head := some newHead })
    (hprevious : P.previous b = P.headId s.state) :
    Atomic P s (match ({ s with fork := fork } : Node σ Block).applyBlock P b with
      | (s, true) => (s, .ok false)
      | (s, false) =>
        ({ s with fork := s.fork.remove P.toBlockIds [] (P.id b) },
          .error (.fc "apply_block"))) := by
  have hdata : newHead.data = b := by rw [hnew]
  have hindex : fork.index = [newHead] := by
    rw [hfork]
    unfold ForkDatabase.insertItem ForkDatabase.fetchBlock
    rw [h.index_eq_nil hnone]
    rfl
  have hhead : fork.head = some newHead := by rw [hfork]
  have hwf : fork.Wf P.toBlockIds := by
    have hinsert : (s.fork.insertItem P.toBlockIds newHead).Wf P.toBlockIds := by
      rw [hnew]
      exact h.wf.insertItem fun ref href => nomatch href
    rw [hfork]
    exact hinsert.of_sublist (List.Sublist.refl _) rfl
  refine h.extend hdata hwf ?_ hhead ?_ (fun item hitem => ?_) ?_ (fun f hnarrows => ?_)
    (fun head hold => ?_)
  · rw [hfork]
    exact h.size_pos
  · rw [hindex]
    exact List.mem_singleton.mpr rfl
  · rw [hindex] at hitem
    exact .inl (List.mem_singleton.mp hitem)
  · rw [h.replayed.headNum_eq, ← hprevious]
    rfl
  · -- nothing to go back to
    unfold ForkDatabase.remove
    dsimp only
    rw [hnarrows.head, hhead]
    dsimp only
    rw [if_pos (congrArg P.id hdata)]
    unfold ForkDatabase.popBlock ForkDatabase.parent
    dsimp only
    rw [hnew, hnone]
    rfl
  · rw [hnone] at hold
    cases hold

theorem pushBlock (h : Settled P s) (hcovered : Covered P s b) : Atomic P s (s.pushBlock P b) := by
  unfold Covered at hcovered
  unfold Node.pushBlock
  cases hpush : s.fork.pushBlock P.toBlockIds b with
  | error e => exact ⟨h, fun _ _ => rfl, fun _ _ => rfl⟩
  | ok pushed =>
    obtain ⟨fork, newHead⟩ := pushed
    rw [hpush] at hcovered
    dsimp only at hcovered ⊢
    rcases ForkDatabase.pushBlock_eq_ok hpush with ⟨hnone, hnew, hfork⟩ |
      ⟨head, prev, hhead, hle, rfl, hfork, hprev⟩ | ⟨head, prev, hhead, hlt, hnew, hfork, hprev⟩
    · have hdata : newHead.data = b := by rw [hnew]
      by_cases hprevious : P.previous newHead.data = P.headId s.state
      · rw [if_neg (not_not.mpr hprevious)]
        exact h.first hnone hnew hfork (hdata ▸ hprevious)
      · -- the genesis is not in the fork database
        exfalso
        rcases hcovered with hcovered | hcovered | ⟨branches, hfetch, -⟩
        · exact hprevious hcovered
        · rw [h.replayed.headNum_eq, h.head_none hnone, P.num_zero] at hcovered
          exact absurd (BlockIds.blockNum_pos newHead.data) (Nat.not_lt.mpr hcovered)
        · obtain ⟨-, second, -, hfound⟩ := ForkDatabase.fetchBranchFrom_head hfetch
          have hid := (ForkDatabase.fetchBlock_eq_some hfound).2
          rw [h.head_none hnone] at hid
          exact P.id_ne_zero _ hid
    · -- not above the head: the block is kept for later
      have hnum := h.headNum_eq hhead
      have hprevious : P.previous newHead.data ≠ P.headId s.state := by
        intro heq
        rw [← h.head_id newHead hhead] at heq
        exact absurd (BlockIds.blockNum_eq_succ heq.symm) (Nat.ne_of_lt (Nat.lt_succ_self _))
      rw [if_pos hprevious, if_neg (by omega)]
      have hsub : ∀ item ∈ fork.index, item ∈ s.fork.index ∨ item.data = b := by
        intro item hitem
        rw [hfork] at hitem
        unfold ForkDatabase.insertItem at hitem
        dsimp only at hitem
        split at hitem
        · exact .inl hitem
        · rcases List.mem_append.mp hitem with hitem | hitem
          · exact .inl hitem
          · rw [List.mem_singleton.mp hitem]
            exact .inr rfl
      refine ⟨⟨h.replayed.setFork fork, ?_, ?_, fun item hitem => ?_, fun head hold => ?_,
        fun head hold => ?_, fun hnone => ?_⟩, fun e he => (by cases he), fun e he => (by cases he)⟩
      · rw [hfork]
        exact h.wf.insertItem hprev
      · rw [hfork]
        exact h.size_pos
      · rcases hsub item hitem with hitem | hdata
        · exact h.below item hitem
        · show P.blockNum item.data ≤ P.headNum s.state
          rw [hdata]
          omega
      · rw [hfork] at hold ⊢
        unfold ForkDatabase.insertItem
        dsimp only
        split
        · exact h.head_mem head hold
        · exact List.mem_append_left _ (h.head_mem head hold)
      · rw [hfork] at hold
        exact h.head_id head hold
      · rw [hfork] at hnone
        exact h.head_none hnone
    · obtain ⟨parent, hraised⟩ := h.raised hhead hlt hnew hfork hprev
      have hdata : newHead.data = b := by rw [hnew]
      have hnum := h.headNum_eq hhead
      by_cases hprevious : P.previous newHead.data = P.headId s.state
      · rw [if_neg (not_not.mpr hprevious)]
        -- the parent of the new head is the old head
        obtain rfl : parent = head := by
          refine hraised.wf.eq_of_id_eq hraised.parent_mem hraised.old_mem ?_
          rw [hraised.parent_id, hprevious, h.head_id head hhead]
        refine h.extend hdata hraised.wf hraised.size_pos hraised.new_head hraised.newHead_mem
          (fun item hitem => ?_) ?_ (fun f hnarrows => ?_) (fun old hold => ?_)
        · rw [hnum]
          exact hraised.below item hitem
        · rw [hnum, ← hdata]
          exact hraised.num
        · have hkept : parent ∈ f.index :=
            hnarrows.kept newHead hraised.new_head parent hraised.old_mem (Nat.le_of_eq hraised.num)
          have hid : P.id parent.data ≠ P.id b := by
            intro heq
            have hsame := BlockIds.blockNum_eq_of_id_eq heq
            omega
          rw [hhead, ← hdata]
          exact ForkDatabase.remove_head (hraised.wf.of_sublist hnarrows.sublist hnarrows.nextRef)
            (hnarrows.head.trans hraised.new_head) hkept hraised.parent_link (hdata ▸ hid) []
        · rw [Option.some.inj (hold.symm.trans hhead)]
          exact hraised.old_mem
      · rw [if_pos hprevious]
        have hhigher : P.headNum s.state < P.blockNum newHead.data := by
          rw [hnum, hraised.num]
          exact Nat.lt_succ_self _
        rw [if_pos hhigher]
        rcases hcovered with hcovered | hcovered | ⟨branches, hfetch, hswitch⟩
        · exact absurd hcovered hprevious
        · exact absurd hhigher (Nat.not_lt.mpr hcovered)
        · exact h.switch hraised hprevious hfetch hswitch

theorem accepts (h : Settled P s) {state : σ} (happly : P.apply s.state b = some state) :
    ∃ s' r, s.pushBlock P b = (s', .ok r) ∧ s'.state = state := by
  obtain ⟨s', heq, hstate⟩ := h.atHead.pushBlock_of_some happly
  exact ⟨s', false, heq, hstate⟩

end Settled

/-- A push in a run; a push that throws leaves the node that it left behind. -/
def Node.push (P : ChainLogic σ Id Block) (s : Node σ Block) (b : Block) :
    Except Exception (Node σ Block) :=
  .ok (s.pushBlock P b).1

/-- In a run of covered pushes a push that throws leaves the object state and the head block as they
were, also in the fork database, and a valid block on top of it is accepted. -/
theorem pushBlock_atomic {s' : Node σ Block} {e : Exception}
    (h : Reachable (Node.push P) (· = Node.start P) (Covered P) s) (hcovered : Covered P s b)
    (hthrows : s.pushBlock P b = (s', .error e)) :
    s'.state = s.state ∧ s'.fork.head = s.fork.head ∧
      (∀ head, s'.fork.head = some head → P.id head.data = P.headId s'.state) ∧
      (s'.fork.head = none → P.headId s'.state = P.zero) ∧
      ∀ v state, P.apply s'.state v = some state →
        ∃ s'' r, s'.pushBlock P v = (s'', .ok r) ∧ s''.state = state := by
  have hsettled : Settled P s := by
    refine h.invariant (Settled P) ?_ ?_
    · rintro s rfl
      exact settled_start
    · intro s b s' hs hcond hstep
      cases hstep
      exact (hs.pushBlock hcond).settled
  have hatomic := hsettled.pushBlock hcovered
  rw [hthrows] at hatomic
  exact ⟨hatomic.state e rfl, hatomic.head e rfl, hatomic.settled.head_id, hatomic.settled.head_none,
    fun v state happly => hatomic.settled.accepts happly⟩

theorem pushBlock_atomic_switchedBack :
    ∃ s s' e, Reachable (Node.push pathLogic) (· = Node.start pathLogic) (Covered pathLogic) s ∧
      s.pushBlock pathLogic ⟨[2], 3, false⟩ = (s', .error e) ∧
      s'.state = s.state ∧ s'.fork.head = s.fork.head ∧
      (∀ head, s'.fork.head = some head → pathLogic.id head.data = pathLogic.headId s'.state) ∧
      (s'.fork.head = none → pathLogic.headId s'.state = pathLogic.zero) ∧
      ∀ v state, pathLogic.apply s'.state v = some state →
        ∃ s'' r, s'.pushBlock pathLogic v = (s'', .ok r) ∧ s''.state = state := by
  obtain ⟨s, hreach, hcovered, hthrows⟩ : ∃ s,
      Reachable (Node.push pathLogic) (· = Node.start pathLogic) (Covered pathLogic) s ∧
      Covered pathLogic s ⟨[2], 3, false⟩ ∧
      (s.pushBlock pathLogic ⟨[2], 3, false⟩).2 = .error (.fc "apply_block") :=
    Reachable.of_run [⟨[], 1, true⟩, ⟨[], 2, true⟩] rfl (by decide) (by decide)
  have heq : s.pushBlock pathLogic ⟨[2], 3, false⟩ =
      ((s.pushBlock pathLogic ⟨[2], 3, false⟩).1, .error (.fc "apply_block")) := by
    rw [← hthrows]
  exact ⟨s, _, _, hreach, heq, pushBlock_atomic hreach hcovered heq⟩

/-- The first block that a node sees links to nothing: it throws, but stays the head of the fork
database, and a valid first block is refused. -/
theorem pushBlock_stray :
    ∃ s' e, (Node.start pathLogic).pushBlock pathLogic ⟨[9], 1, true⟩ = (s', .error e) ∧
      (∃ head, s'.fork.head = some head ∧ pathLogic.id head.data ≠ pathLogic.headId s'.state) ∧
      (pathLogic.apply s'.state ⟨[], 1, true⟩).isSome ∧
      ∃ s'' e', s'.pushBlock pathLogic ⟨[], 1, true⟩ = (s'', .error e') :=
  ⟨_, _, rfl, ⟨_, rfl, by decide⟩, by decide, _, _, rfl⟩

end Meta1Core.Blocks
