import Meta1Core.Blocks.ForkTree
import Meta1Core.Blocks.Reindex

/-!
# What a reindex leaves

The blocks are applied in order whatever happens to the disk.  When the reading hits a gap, the
blocks above the one that is applied next are removed, although some of them are in the queue.
-/

namespace Meta1Core.Blocks

variable {σ Id Block : Type} {L : ReindexLogic σ Id Block} {state s s' : σ}

theorem headNum_of_apply_skipping {skip : Bool} {b : Block}
    (h : (L.skipping skip).apply s b = some s') : L.headNum s' = L.headNum s + 1 := by
  have hnum : L.headNum s' = L.numFromId (L.id b) := (L.skipping skip).headNum_of_apply s b s' h
  have hprevious : L.previous b = L.headId s := (L.skipping skip).previous_of_apply s b s' h
  rw [hnum, L.num_id, hprevious, L.headNum_eq]

theorem Replays.headNum_eq {run : List Block} (h : Replays L state run s) :
    L.headNum s = L.headNum state + run.length := by
  induction h with
  | base => rfl
  | block skip _ happly ih =>
    rw [headNum_of_apply_skipping happly, ih, List.length_append, List.length_singleton, Nat.add_assoc]

variable {block : Nat → Option Block} {numbers : List Nat}

theorem lastBlock_eq_some {n : Nat} {b : Block} (hdescending : numbers.Pairwise (· > ·))
    (hlast : lastBlock block numbers = some (n, b)) :
    block n = some b ∧ ∀ m ∈ numbers, n < m → block m = none := by
  induction numbers with
  | nil => cases hlast
  | cons m numbers ih =>
    obtain ⟨habove, hrest⟩ := List.pairwise_cons.mp hdescending
    unfold lastBlock at hlast
    cases hm : block m with
    | some b' =>
      rw [hm] at hlast
      cases hlast
      refine ⟨hm, fun k hk hlt => ?_⟩
      rcases List.mem_cons.mp hk with rfl | hk
      · omega
      · have hgt := habove k hk
        omega
    | none =>
      rw [hm] at hlast
      obtain ⟨hblock, hnone⟩ := ih hrest hlast
      refine ⟨hblock, fun k hk hlt => ?_⟩
      rcases List.mem_cons.mp hk with rfl | hk
      · exact hm
      · exact hnone k hk hlt

theorem lastBlock_eq_none (hlast : lastBlock block numbers = none) :
    ∀ n ∈ numbers, block n = none := by
  induction numbers with
  | nil => exact fun n hn => nomatch hn
  | cons m numbers ih =>
    unfold lastBlock at hlast
    cases hm : block m with
    | some b' =>
      rw [hm] at hlast
      cases hlast
    | none =>
      rw [hm] at hlast
      intro n hn
      rcases List.mem_cons.mp hn with rfl | hn
      · exact hm
      · exact ih hlast n hn

theorem dropAbove_eq {i : Nat} (hdescending : numbers.Pairwise (· > ·)) (block : Nat → Option Block)
    (n : Nat) : dropAbove i numbers block n = if i < n ∧ n ∈ numbers then none else block n := by
  induction numbers generalizing block with
  | nil => simp [dropAbove]
  | cons m numbers ih =>
    obtain ⟨habove, hrest⟩ := List.pairwise_cons.mp hdescending
    unfold dropAbove
    cases hm : block m with
    | none =>
      dsimp only
      rw [ih hrest]
      by_cases hn : n = m
      · subst hn
        simp [hm]
      · simp [hn]
    | some b =>
      dsimp only
      split
      · -- all other numbers are lower still
        rename_i hle
        have hnot : ¬(i < n ∧ n ∈ m :: numbers) := by
          rintro ⟨hlt, hn⟩
          rcases List.mem_cons.mp hn with rfl | hn
          · omega
          · have hgt := habove n hn
            omega
        rw [if_neg hnot]
      · rename_i hlt
        rw [ih hrest]
        by_cases hn : n = m
        · subst hn
          simp [Nat.lt_of_not_le hlt]
        · simp [hn, Function.update_of_ne]

namespace BlockDatabase

variable {P : BlockIds Id Block} {db : BlockDatabase P} {n : Nat} {b : Block}

theorem eq_none_of_lastBlock (hlast : lastBlock db.block db.numbers = some (n, b)) {m : Nat}
    (hm : n < m) : db.block m = none := by
  cases hblock : db.block m with
  | none => rfl
  | some c =>
    have hnone := (lastBlock_eq_some db.descending hlast).2 m (db.mem_numbers m c hblock) hm
    rw [hblock] at hnone
    cases hnone

theorem eq_none_of_lastBlock_eq_none (hlast : lastBlock db.block db.numbers = none) (m : Nat) :
    db.block m = none := by
  cases hblock : db.block m with
  | none => rfl
  | some c =>
    have hnone := lastBlock_eq_none hlast m (db.mem_numbers m c hblock)
    rw [hblock] at hnone
    cases hnone

theorem dropAbove_block (i m : Nat) :
    dropAbove i db.numbers db.block m = if i < m then none else db.block m := by
  rw [dropAbove_eq db.descending]
  by_cases hm : m ∈ db.numbers
  · simp [hm]
  · cases hblock : db.block m with
    | none => simp
    | some c => exact absurd (db.mem_numbers m c hblock) hm

end BlockDatabase

variable [DecidableEq Id]

structure Tracks (P : BlockIds Id Block) (f : ForkDatabase Block) (height : Nat) : Prop where
  head_le : ∀ head, f.head = some head → P.blockNum head.data ≤ height
  index_le : ∀ item ∈ f.index, P.blockNum item.data ≤ height
  unique : ∀ x ∈ f.index, ∀ y ∈ f.index, P.blockNum x.data = height → P.blockNum y.data = height →
    P.id x.data = P.id y.data
  empty : f.head = none → f.index = []

namespace Tracks

variable {P : BlockIds Id Block} {f f' : ForkDatabase Block} {height : Nat}

omit [DecidableEq Id] in
theorem raise (h : Tracks P f height) : Tracks P f (height + 1) where
  head_le head hhead := Nat.le_succ_of_le (h.head_le head hhead)
  index_le item hitem := Nat.le_succ_of_le (h.index_le item hitem)
  unique x hx y hy hnum _ := by
    have hle := h.index_le x hx
    omega
  empty := h.empty

omit [DecidableEq Id] in
theorem setMaxSize (h : Tracks P f height) (size : Nat) : Tracks P (f.setMaxSize P size) height := by
  cases hhead : f.head with
  | none =>
    have heq : f.setMaxSize P size = { f with maxSize := size } := by
      unfold ForkDatabase.setMaxSize
      dsimp only
      rw [hhead]
    rw [heq]
    exact ⟨h.head_le, h.index_le, h.unique, h.empty⟩
  | some head =>
    rw [ForkDatabase.setMaxSize_index hhead]
    exact {
      head_le := h.head_le
      index_le := fun item hitem => h.index_le item (List.mem_of_mem_filter hitem)
      unique := fun x hx y hy =>
        h.unique x (List.mem_of_mem_filter hx) y (List.mem_of_mem_filter hy)
      empty := fun hnone => by
        rw [show f.head = none from hnone] at hhead
        cases hhead }

theorem extend (h : Tracks P f height) (f' : ForkDatabase Block) (item : ForkItem Block)
    (hnum : P.blockNum item.data = height + 1) (hhead : f'.head = some item)
    (hindex : ∀ x ∈ f'.index, x ∈ (f.insertItem P item).index) :
    Tracks P f' (height + 1) ∧ ∀ x ∈ f'.index, P.blockNum x.data ≤ height → x ∈ f.index := by
  have hcases : ∀ x ∈ f'.index, x ∈ f.index ∨ x = item := fun x hx =>
    ForkDatabase.mem_insertItem (hindex x hx)
  have htop : ∀ x ∈ f'.index, P.blockNum x.data = height + 1 → x = item := by
    intro x hx hxnum
    rcases hcases x hx with hx | rfl
    · have hle := h.index_le x hx
      omega
    · rfl
  refine ⟨⟨?_, ?_, ?_, ?_⟩, ?_⟩
  · intro head hhead'
    rw [hhead] at hhead'
    cases hhead'
    exact Nat.le_of_eq hnum
  · intro x hx
    rcases hcases x hx with hx | rfl
    · exact Nat.le_succ_of_le (h.index_le x hx)
    · exact Nat.le_of_eq hnum
  · intro x hx y hy hxnum hynum
    rw [htop x hx hxnum, htop y hy hynum]
  · intro hnone
    rw [hhead] at hnone
    cases hnone
  · intro x hx hle
    rcases hcases x hx with hx | rfl
    · exact hx
    · omega

theorem pushBlock (h : Tracks P f height) {b : Block} (hb : P.blockNum b = height + 1)
    {newHead : ForkItem Block} (hpush : f.pushBlock P b = .ok (f', newHead)) :
    newHead.data = b ∧ Tracks P f' (height + 1) ∧
      (∀ x ∈ f'.index, P.blockNum x.data ≤ height → x ∈ f.index) ∧
      (f.index = [] ∨ ∃ parent ∈ f.index, P.id parent.data = P.previous b) := by
  rcases ForkDatabase.pushBlock_eq_ok hpush with ⟨hnone, rfl, rfl⟩ | ⟨head, prev, hhead, hle, -⟩ |
    ⟨head, prev, hhead, hlt, rfl, rfl, hlink⟩
  · obtain ⟨htracks, hold⟩ := h.extend { f.insertItem P ⟨f.nextRef, b, none⟩ with
      head := some ⟨f.nextRef, b, none⟩ } ⟨f.nextRef, b, none⟩ hb rfl fun x hx => hx
    exact ⟨rfl, htracks, hold, .inl (h.empty hnone)⟩
  · have hhead_le := h.head_le head hhead
    omega
  · obtain ⟨htracks, hold⟩ := h.extend (ForkDatabase.prune P { f.insertItem P ⟨f.nextRef, b, prev⟩ with
      head := some ⟨f.nextRef, b, prev⟩ } (P.blockNum b)) ⟨f.nextRef, b, prev⟩ hb rfl
      fun x hx => List.mem_of_mem_filter hx
    refine ⟨rfl, htracks, hold, .inr ?_⟩
    rcases hlink with ⟨hzero, -⟩ | ⟨parent, hfound, -⟩
    · -- the first block has nothing before it
      have hhead_le := h.head_le head hhead
      have hpos := BlockIds.blockNum_pos (P := P) head.data
      unfold BlockIds.blockNum at hb
      rw [hzero, P.num_zero] at hb
      omega
    · obtain ⟨hmem, hid⟩ := ForkDatabase.fetchBlock_eq_some hfound
      exact ⟨parent, hmem, hid⟩

end Tracks

section Node

variable {P : ChainLogic σ Id Block} {s s' : Node σ Block} {b : Block}

theorem switchForks_ne_ok {newHead : ForkItem Block} {r : Bool}
    (hfound : s.fork.fetchBlock P.toBlockIds (P.headId s.state) = none) :
    s.switchForks P newHead ≠ (s', .ok r) := by
  unfold Node.switchForks ForkDatabase.fetchBranchFrom
  rw [hfound]
  cases s.fork.fetchBlock P.toBlockIds (P.id newHead.data) with
  | none => simp
  | some item => simp

theorem pushed_eq_ok (hnum : P.headNum s.state = P.numFromId (P.headId s.state))
    (htracks : Tracks P.toBlockIds s.fork (P.headNum s.state))
    (hb : P.blockNum b = P.headNum s.state + 1) (h : s.pushed P b = .ok s') :
    P.apply s.state b = some s'.state ∧
      s'.blocks = Function.update s.blocks (P.blockNum b) (some b) ∧
      Tracks P.toBlockIds s'.fork (P.headNum s.state + 1) := by
  unfold Node.pushed Node.pushBlock at h
  cases hpush : s.fork.pushBlock P.toBlockIds b with
  | error e =>
    rw [hpush] at h
    cases h
  | ok pushed =>
    obtain ⟨fork, newHead⟩ := pushed
    rw [hpush] at h
    obtain ⟨rfl, hfork, hold, hparent⟩ := htracks.pushBlock hb hpush
    dsimp only at h
    by_cases hprevious : P.previous newHead.data = P.headId s.state
    · rw [if_neg (not_not.mpr hprevious)] at h
      unfold Node.applyBlock at h
      cases happly : P.apply s.state newHead.data with
      | none =>
        simp only [happly] at h
        cases h
      | some state' =>
        simp only [happly] at h
        cases h
        refine ⟨rfl, by rw [P.numFromId_id], ?_⟩
        cases P.forkWindow s.state newHead.data with
        | none => exact hfork
        | some size => exact hfork.setMaxSize size
    · rw [if_pos hprevious] at h
      -- no item of the fork database is the head of the chain
      have hnone : fork.fetchBlock P.toBlockIds (P.headId s.state) = none := by
        cases hfound : fork.fetchBlock P.toBlockIds (P.headId s.state) with
        | none => rfl
        | some item =>
          obtain ⟨hmem, hid⟩ := ForkDatabase.fetchBlock_eq_some hfound
          have hitem : P.blockNum item.data = P.headNum s.state := by
            rw [hnum, ← hid, P.numFromId_id]
          have hmem' := hold item hmem (Nat.le_of_eq hitem)
          rcases hparent with hempty | ⟨parent, hparent, hlink⟩
          · rw [hempty] at hmem'
            cases hmem'
          · have hparentNum : P.blockNum parent.data = P.headNum s.state := by
              have hsucc : P.blockNum newHead.data = P.numFromId (P.previous newHead.data) + 1 := rfl
              rw [← P.numFromId_id, hlink]
              omega
            have hsame := htracks.unique parent hparent item hmem' hparentNum hitem
            exact absurd (hlink.symm.trans (hsame.trans hid)) hprevious
      have hlt : P.headNum s.state < P.blockNum newHead.data := by omega
      rw [if_pos hlt] at h
      cases hswitch : Node.switchForks P { s with fork := fork } newHead with
      | mk s1 r =>
        rw [hswitch] at h
        cases r with
        | error e => cases h
        | ok r => exact absurd hswitch (switchForks_ne_ok hnone)

omit [DecidableEq Id] in
theorem applyDirectly_eq_ok (htracks : Tracks P.toBlockIds s.fork (P.headNum s.state))
    (h : s.applyDirectly P b = .ok s') :
    P.apply s.state b = some s'.state ∧ s'.blocks = s.blocks ∧
      Tracks P.toBlockIds s'.fork (P.headNum s.state + 1) := by
  unfold Node.applyDirectly at h
  cases happly : P.apply s.state b with
  | none =>
    rw [happly] at h
    cases h
  | some state' =>
    simp only [happly] at h
    cases h
    refine ⟨rfl, rfl, ?_⟩
    cases P.forkWindow s.state b with
    | none => exact htracks.raise
    | some size => exact htracks.raise.setMaxSize size

end Node

/-! ## The loop -/

section Loop

variable {db : BlockDatabase L.toBlockIds} {state : σ} {bounds : Bounds Block} {kept : Nat → Prop}
  {c : Cursor Block} {s s' : Node σ Block}

/-- How far a reindex has got: blocks with certain numbers have been kept, and those pushed are
there again. -/
structure Progress (db : BlockDatabase L.toBlockIds) (state : σ) (undoPoint : Nat) (kept : Nat → Prop)
    (c : Cursor Block) (s : Node σ Block) : Prop where
  queue : ∀ k b, c.queue[k]? = some b → db.block (c.i + k) = some b
  run : ∃ run : List Block, c.i = L.headNum state + 1 + run.length ∧
    (∀ k b, run[k]? = some b → db.block (L.headNum state + 1 + k) = some b) ∧
    Replays L state run s.state
  stored : ∀ n, kept n ∨ undoPoint ≤ n ∧ n < c.i → s.blocks n = db.block n
  lost : ∀ n, ¬(kept n ∨ undoPoint ≤ n ∧ n < c.i) → s.blocks n = none
  tracks : Tracks L.toBlockIds s.fork (L.headNum s.state)

theorem Progress.applyFront {undoPoint : Nat} (h : Progress db state undoPoint kept c s) {b : Block}
    {queue : List Block} (hqueue : c.queue = b :: queue)
    (hs : c.applyFront L undoPoint s b = .ok s') :
    Progress db state undoPoint kept { c with queue, i := c.i + 1 } s' := by
  obtain ⟨run, hi, hrun, hreplays⟩ := h.run
  have hheadNum := hreplays.headNum_eq
  have hblock : db.block c.i = some b := h.queue 0 b (by rw [hqueue]; rfl)
  have hb : L.blockNum b = L.headNum s.state + 1 := by
    rw [db.blockNum_eq c.i b hblock]
    omega
  -- what is the same for a block that is pushed and for one that is only applied
  obtain ⟨happly, htracks, hstored⟩ : (L.skipping c.skip).apply s.state b = some s'.state ∧
      Tracks L.toBlockIds s'.fork (L.headNum s.state + 1) ∧
      s'.blocks = if c.i < undoPoint then s.blocks
        else Function.update s.blocks (L.blockNum b) (some b) := by
    unfold Cursor.applyFront at hs
    by_cases hlt : c.i < undoPoint
    · rw [if_pos hlt] at hs
      obtain ⟨happly, hblocks, htracks⟩ := applyDirectly_eq_ok (P := L.skipping c.skip) h.tracks hs
      exact ⟨happly, htracks, by rw [if_pos hlt, hblocks]⟩
    · rw [if_neg hlt] at hs
      obtain ⟨happly, hblocks, htracks⟩ := pushed_eq_ok (P := L.skipping c.skip) (L.headNum_eq s.state) h.tracks hb hs
      exact ⟨happly, htracks, by rw [if_neg hlt, hblocks]; rfl⟩
  have hraised : L.headNum s'.state = L.headNum s.state + 1 := headNum_of_apply_skipping happly
  have hbi : L.blockNum b = c.i := by omega
  exact {
    queue := by
      intro k b' hk
      have hnext := h.queue (k + 1) b' (by rw [hqueue]; exact hk)
      rw [← hnext]
      show db.block (c.i + 1 + k) = _
      congr 1
      omega
    run := by
      refine ⟨run ++ [b], ?_, ?_, .block c.skip hreplays happly⟩
      · show c.i + 1 = _
        rw [List.length_append, List.length_singleton]
        omega
      · intro k b' hk
        rcases Nat.lt_trichotomy k run.length with hlt | rfl | hgt
        · rw [List.getElem?_append_left hlt] at hk
          exact hrun k b' hk
        · rw [List.getElem?_append_right (Nat.le_refl _), Nat.sub_self] at hk
          cases hk
          rw [← hi]
          exact hblock
        · rw [List.getElem?_eq_none (by simp; omega)] at hk
          cases hk
    stored := by
      intro n hn
      have hn : kept n ∨ undoPoint ≤ n ∧ n < c.i + 1 := hn
      rw [hstored]
      by_cases hlt : c.i < undoPoint
      · rw [if_pos hlt]
        exact h.stored n (hn.imp id fun hn => ⟨hn.1, by omega⟩)
      · rw [if_neg hlt, hbi]
        by_cases hni : n = c.i
        · rw [hni, Function.update_self, hblock]
        · rw [Function.update_of_ne hni]
          exact h.stored n (hn.imp id fun hn => ⟨hn.1, by omega⟩)
    lost := by
      intro n hn
      have hn : ¬(kept n ∨ undoPoint ≤ n ∧ n < c.i + 1) := hn
      have hnone := h.lost n fun hold => hn (hold.imp id fun hold => ⟨hold.1, by omega⟩)
      rw [hstored]
      by_cases hlt : c.i < undoPoint
      · rw [if_pos hlt]
        exact hnone
      · rw [if_neg hlt, hbi, Function.update_of_ne fun hni => hn (.inr ⟨by omega, by omega⟩)]
        exact hnone
    tracks := by
      rw [hraised]
      exact htracks }

theorem Progress.drain {fuel : Nat} (h : Progress db state bounds.undoPoint kept c s)
    (hnext : bounds.lastBlockNum < c.nextBlockNum) (hs : reindexLoop L bounds fuel c s = .ok s') :
    ∃ c', c'.queue = [] ∧ c'.i = c.i + c.queue.length ∧
      Progress db state bounds.undoPoint kept c' s' := by
  induction fuel generalizing c s with
  | zero => cases hs
  | succ fuel ih =>
    rw [reindexLoop, if_neg fun hload => Nat.not_le_of_lt hnext hload.1] at hs
    cases hqueue : c.queue with
    | nil =>
      rw [hqueue] at hs
      cases hs
      exact ⟨c, hqueue, rfl, h⟩
    | cons b queue =>
      rw [hqueue] at hs
      obtain ⟨s1, hs1, hs⟩ := Lib.of_bind hs
      obtain ⟨c', hc', hi, hprogress⟩ := ih (h.applyFront hqueue hs1) hnext hs
      refine ⟨c', hc', ?_, hprogress⟩
      rw [hi, List.length_cons]
      show c.i + 1 + queue.length = _
      omega

/-- As long as blocks are read, nothing has been removed, and the queue is full once the first block has
been applied. -/
structure Reading (db : BlockDatabase L.toBlockIds) (state : σ) (bounds : Bounds Block)
    (c : Cursor Block) (s : Node σ Block) : Prop where
  progress : Progress db state bounds.undoPoint (fun _ => True) c s
  next_eq : c.nextBlockNum = c.i + c.queue.length
  next_le : c.nextBlockNum ≤ bounds.lastBlockNum + 1
  length_le : c.queue.length ≤ 20
  ahead : c.nextBlockNum ≤ bounds.lastBlockNum → c.i = L.headNum state + 1 ∨ 19 ≤ c.queue.length

/-- What is on disk if the reading ends before the number `g` -/
def KeptBefore (db : BlockDatabase L.toBlockIds) (state : σ) (bounds : Bounds Block) (g : Nat)
    (kept : Nat → Prop) : Prop :=
  (g = bounds.lastBlockNum + 1 ∧ kept = fun _ => True) ∨
    (g ≤ bounds.lastBlockNum ∧ db.block g = none ∧
      kept = fun n => n ≤ max (L.headNum state + 1) (g - 19))

omit [DecidableEq Id] in
theorem Reading.load (h : Reading db state bounds c s) {b : Block}
    (hblock : db.block c.nextBlockNum = some b) (hnext : c.nextBlockNum ≤ bounds.lastBlockNum)
    (hlength : c.queue.length < 20) :
    Reading db state bounds (c.load L bounds.last s.state b) s := by
  have hnum := h.next_eq
  exact {
    progress := { h.progress with
      queue := by
        intro k b' hk
        have hk : (c.queue ++ [b])[k]? = some b' := hk
        show db.block (c.i + k) = _
        rcases Nat.lt_trichotomy k c.queue.length with hlt | rfl | hgt
        · rw [List.getElem?_append_left hlt] at hk
          exact h.progress.queue k b' hk
        · rw [List.getElem?_append_right (Nat.le_refl _), Nat.sub_self] at hk
          cases hk
          rw [← hnum]
          exact hblock
        · rw [List.getElem?_eq_none (by simp; omega)] at hk
          cases hk }
    next_eq := by
      show c.nextBlockNum + 1 = c.i + (c.queue ++ [b]).length
      rw [List.length_append, List.length_singleton]
      omega
    next_le := Nat.succ_le_succ hnext
    length_le := by
      show (c.queue ++ [b]).length ≤ 20
      rw [List.length_append, List.length_singleton]
      omega
    ahead := by
      intro _
      show c.i = _ ∨ 19 ≤ (c.queue ++ [b]).length
      rw [List.length_append]
      exact (h.ahead hnext).imp id fun hle => by omega }

omit [DecidableEq Id] in
theorem Reading.gap (h : Reading db state bounds c s) (hnumbers : bounds.numbers = db.numbers) :
    Progress db state bounds.undoPoint (fun n => n ≤ c.i)
      { c with nextBlockNum := bounds.lastBlockNum + 1 }
      { s with blocks := dropAbove c.i bounds.numbers s.blocks } := by
  have hblocks : s.blocks = db.block := funext fun n => h.progress.stored n (.inl trivial)
  exact {
    queue := h.progress.queue
    run := h.progress.run
    stored := by
      intro n hn
      have hle : n ≤ c.i := hn.elim id fun hn => Nat.le_of_lt hn.2
      show dropAbove c.i bounds.numbers s.blocks n = _
      rw [hnumbers, hblocks, db.dropAbove_block, if_neg (Nat.not_lt.mpr hle)]
    lost := by
      intro n hn
      show dropAbove c.i bounds.numbers s.blocks n = _
      rw [hnumbers, hblocks, db.dropAbove_block, if_pos (Nat.lt_of_not_le fun hle => hn (.inl hle))]
    tracks := h.progress.tracks }

theorem Reading.applyFront (h : Reading db state bounds c s) {b : Block} {queue : List Block}
    (hqueue : c.queue = b :: queue) (hlength : ¬c.queue.length < 20)
    (hs : c.applyFront L bounds.undoPoint s b = .ok s') :
    Reading db state bounds { c with queue, i := c.i + 1 } s' := by
  have hnum := h.next_eq
  have hle := h.length_le
  rw [hqueue, List.length_cons] at hnum hle hlength
  exact {
    progress := h.progress.applyFront hqueue hs
    next_eq := by
      show c.nextBlockNum = c.i + 1 + queue.length
      omega
    next_le := h.next_le
    length_le := Nat.le_of_succ_le hle
    ahead := by
      intro _
      refine .inr ?_
      show 19 ≤ queue.length
      omega }

theorem Reading.finish {fuel : Nat} (hnumbers : bounds.numbers = db.numbers)
    (h : Reading db state bounds c s) (hs : reindexLoop L bounds fuel c s = .ok s') :
    ∃ g kept c', c'.queue = [] ∧ c'.i = g ∧ KeptBefore db state bounds g kept ∧
      Progress db state bounds.undoPoint kept c' s' := by
  induction fuel generalizing c s with
  | zero => cases hs
  | succ fuel ih =>
    by_cases hnext : bounds.lastBlockNum < c.nextBlockNum
    · obtain ⟨c', hc', hi, hprogress⟩ := h.progress.drain hnext hs
      have hg := h.next_eq
      have hle := h.next_le
      exact ⟨c'.i, _, c', hc', rfl, .inl ⟨by omega, rfl⟩, hprogress⟩
    rw [reindexLoop] at hs
    by_cases hlength : c.queue.length < 20
    · rw [if_pos ⟨Nat.le_of_not_lt hnext, hlength⟩,
        h.progress.stored c.nextBlockNum (.inl trivial)] at hs
      cases hblock : db.block c.nextBlockNum with
      | some b =>
        rw [hblock] at hs
        exact ih (h.load hblock (Nat.le_of_not_lt hnext) hlength) hs
      | none =>
        rw [hblock] at hs
        obtain ⟨c', hc', hi, hprogress⟩ := (h.gap hnumbers).drain (Nat.lt_succ_self _) hs
        have hi : c'.i = c.nextBlockNum := hi.trans h.next_eq.symm
        have hstart : c.i = max (L.headNum state + 1) (c.nextBlockNum - 19) := by
          obtain ⟨run, hrun, -⟩ := h.progress.run
          have hnum := h.next_eq
          rcases h.ahead (Nat.le_of_not_lt hnext) with hfirst | hfull
          · omega
          · omega
        refine ⟨c'.i, _, c', hc', rfl, .inr ⟨?_, ?_, ?_⟩, hprogress⟩
        · omega
        · rw [hi]
          exact hblock
        · rw [hi, hstart]
    · rw [if_neg fun hload => hlength hload.2] at hs
      cases hqueue : c.queue with
      | nil => simp [hqueue] at hlength
      | cons b queue =>
        rw [hqueue] at hs
        obtain ⟨s1, hs1, hs⟩ := Lib.of_bind hs
        exact ih (h.applyFront hqueue hlength hs1) hs

omit [DecidableEq Id] in
theorem Progress.restored_iff (h : Progress db state bounds.undoPoint kept c s)
    (hkept : KeptBefore db state bounds c.i kept)
    (hlast : ∀ n, bounds.lastBlockNum < n → db.block n = none) :
    Restored L state db s ↔
      ∀ n, L.headNum state < n → n < c.i → kept n ∨ bounds.undoPoint ≤ n := by
  obtain ⟨run, hi, hrun, hreplays⟩ := h.run
  have hheadNum := hreplays.headNum_eq
  have hgap : db.block c.i = none := by
    rcases hkept with ⟨heq, -⟩ | ⟨-, hnone, -⟩
    · exact hlast c.i (by omega)
    · exact hnone
  have hisRun : IsRun db.block (L.headNum state) run := ⟨hrun, by rw [← hi]; exact hgap⟩
  constructor
  · intro hrestored n hn hlt
    by_contra hnot
    have hsome := (hrestored.stored_iff n hn).mpr (by omega)
    rw [h.lost n fun hold => hnot (hold.imp id And.left)] at hsome
    cases hsome
  · intro hall
    have hbelow : ∀ n, L.headNum state < n → n < c.i → s.blocks n = db.block n := fun n hn hlt =>
      h.stored n ((hall n hn hlt).imp id fun hle => ⟨hle, hlt⟩)
    refine ⟨⟨run, hisRun, hreplays, fun k b hk => ?_⟩, fun n hn => ?_⟩
    · have hlt : k < run.length := (List.getElem?_eq_some_iff.mp hk).1
      rw [hbelow _ (by omega) (by omega)]
      exact hrun k b hk
    · by_cases hlt : n < c.i
      · have hk : n - (L.headNum state + 1) < run.length := by omega
        have hblock := hrun (n - (L.headNum state + 1)) _ (List.getElem?_eq_getElem hk)
        rw [Nat.add_sub_cancel' hn] at hblock
        rw [hbelow n hn hlt, hblock]
        simp only [Option.isSome_some, true_iff]
        omega
      · -- behind the run there is nothing, whether the block was kept or not
        have hnone : s.blocks n = none := by
          by_cases hstored : kept n ∨ bounds.undoPoint ≤ n ∧ n < c.i
          · rw [h.stored n hstored]
            rcases hkept with ⟨heq, -⟩ | ⟨-, -, hkeptEq⟩
            · exact hlast n (by omega)
            · have hle : n ≤ max (L.headNum state + 1) (c.i - 19) := by
                rcases hstored with hkept | hpushed
                · rwa [hkeptEq] at hkept
                · omega
              obtain rfl : n = c.i := by omega
              exact hgap
          · exact h.lost n hstored
        rw [hnone]
        simp only [Option.isSome_none, Bool.false_eq_true, false_iff]
        omega

end Loop

/-- No gap is hit while a block of the run above the one that is applied next is old enough to be only
applied.  At a gap at `g` the next block is `g - 19`, or the first one if none has been applied yet. -/
def LosesNoBlock {P : BlockIds Id Block} (db : BlockDatabase P) (height : Nat) : Prop :=
  ∀ lastBlockNum last g, lastBlock db.block db.numbers = some (lastBlockNum, last) →
    height < g → g ≤ lastBlockNum → db.block g = none →
    (∀ n, height < n → n < g → db.block n ≠ none) →
    g ≤ height + 2 ∨ lastBlockNum - maxUndoHistory ≤ max (height + 2) (g - 18)

omit [DecidableEq Id] in
theorem restored_of_not_above {db : BlockDatabase L.toBlockIds} {state : σ} {s : Node σ Block}
    (hstate : s.state = state) (habove : ∀ n, L.headNum state < n → db.block n = none)
    (hblocks : s.blocks = db.block) : Restored L state db s where
  replays := by
    refine ⟨[], ⟨?_, habove _ (Nat.lt_succ_self _)⟩, ?_, ?_⟩
    · intro k b hk
      cases hk
    · rw [hstate]
      exact .base
    · intro k b hk
      cases hk
  stored_iff n hn := by
    rw [hblocks, habove n hn, hstate]
    simp only [Option.isSome_none, Bool.false_eq_true, false_iff]
    omega

omit [DecidableEq Id] in
theorem tracks_startFork {db : BlockDatabase L.toBlockIds} {head undoPoint forkMax : Nat}
    {fork : ForkDatabase Block} (h : startFork db head undoPoint forkMax = .ok fork) :
    Tracks L.toBlockIds fork head := by
  unfold startFork at h
  split at h
  · split at h
    · rename_i b hblock
      cases h
      have hnum : L.blockNum b = head := db.blockNum_eq head b hblock
      refine ⟨?_, ?_, ?_, fun hnone => nomatch hnone⟩
      · intro item hitem
        cases hitem
        exact Nat.le_of_eq hnum
      · intro item hitem
        obtain rfl := List.mem_singleton.mp hitem
        exact Nat.le_of_eq hnum
      · intro x hx y hy _ _
        rw [List.mem_singleton.mp hx, List.mem_singleton.mp hy]
    · cases h
  · cases h
    refine ⟨?_, ?_, ?_, fun _ => rfl⟩
    · intro item hitem
      cases hitem
    · intro item hitem
      cases hitem
    · intro x hx
      cases hx

theorem kept_iff {height g undoPoint : Nat} :
    (∀ n, height < n → n < g → n ≤ max (height + 1) (g - 19) ∨ undoPoint ≤ n) ↔
      g ≤ height + 2 ∨ undoPoint ≤ max (height + 2) (g - 18) := by
  constructor
  · intro hall
    by_contra hnot
    have hfirst := hall (max (height + 2) (g - 18)) (by omega) (by omega)
    omega
  · intro hor n hn hlt
    omega

/-- A reindex that returns leaves a consistent node just if no block that is still to be applied, and
that will not be pushed, was removed at a gap. -/
theorem reindex_restores_iff (L : ReindexLogic σ Id Block) {state : σ} {undoMax forkMax : Nat}
    {skip : Bool} {db : BlockDatabase L.toBlockIds} {s : Node σ Block}
    (h : reindex L state undoMax forkMax skip db = .ok s) :
    Restored L state db s ↔ LosesNoBlock db (L.headNum state) := by
  unfold reindex at h
  cases hlast : lastBlock db.block db.numbers with
  | none =>
    rw [hlast] at h
    cases h
    refine iff_of_true (restored_of_not_above rfl
      (fun n _ => db.eq_none_of_lastBlock_eq_none hlast n) rfl) ?_
    intro lastBlockNum last g hsome
    rw [hlast] at hsome
    cases hsome
  | some entry =>
    obtain ⟨lastBlockNum, last⟩ := entry
    have habove : ∀ n, lastBlockNum < n → db.block n = none := fun n => db.eq_none_of_lastBlock hlast
    simp only [hlast] at h
    by_cases hle : lastBlockNum ≤ L.headNum state
    · rw [if_pos hle] at h
      cases h
      refine iff_of_true (restored_of_not_above rfl (fun n hn => habove n (by omega)) rfl) ?_
      intro lastBlockNum' last' g hsome hg hg'
      rw [hlast] at hsome
      cases hsome
      omega
    · rw [if_neg hle] at h
      obtain ⟨fork, hfork, h⟩ := Lib.of_bind h
      have hundo : (if lastBlockNum < maxUndoHistory then 0 else lastBlockNum - maxUndoHistory) =
          lastBlockNum - maxUndoHistory := by
        split <;> omega
      rw [hundo] at hfork h
      have hreading : Reading db state ⟨db.numbers, lastBlockNum, last, lastBlockNum - maxUndoHistory⟩
          { nextBlockNum := L.headNum state + 1, i := L.headNum state + 1, skip }
          ⟨state, [], undoMax, fork, db.block⟩ := {
        progress := {
          queue := fun k b hk => nomatch hk
          run := ⟨[], rfl, (fun k b hk => nomatch hk), .base⟩
          stored := fun _ _ => rfl
          lost := fun n hn => absurd (.inl trivial) hn
          tracks := tracks_startFork hfork }
        next_eq := rfl
        next_le := by
          show L.headNum state + 1 ≤ lastBlockNum + 1
          omega
        length_le := Nat.zero_le _
        ahead := fun _ => .inl rfl }
      obtain ⟨g, kept, c, -, rfl, hkept, hprogress⟩ := hreading.finish rfl h
      rw [hprogress.restored_iff hkept habove]
      obtain ⟨run, hi, hrun, -⟩ := hprogress.run
      have hstored : ∀ n, L.headNum state < n → n < c.i → db.block n ≠ none := by
        intro n hn hlt
        have hk : n - (L.headNum state + 1) < run.length := by omega
        have hblock := hrun (n - (L.headNum state + 1)) _ (List.getElem?_eq_getElem hk)
        rw [Nat.add_sub_cancel' hn] at hblock
        rw [hblock]
        exact Option.some_ne_none _
      rcases hkept with ⟨hg, rfl⟩ | ⟨hg, hnone, rfl⟩
      · -- there is no gap
        have hg : c.i = lastBlockNum + 1 := hg
        refine iff_of_true (fun _ _ _ => .inl trivial) ?_
        intro lastBlockNum' last' g' hsome hg' hle' hnone'
        rw [hlast] at hsome
        cases hsome
        exact absurd hnone' (hstored g' hg' (by omega))
      · have hg : c.i ≤ lastBlockNum := hg
        show (∀ n, _ → _ → n ≤ _ ∨ lastBlockNum - maxUndoHistory ≤ n) ↔ _
        rw [kept_iff]
        constructor
        · intro hsafe lastBlockNum' last' g' hsome hg' hle' hnone' hbefore
          rw [hlast] at hsome
          cases hsome
          -- the gap is the first one
          obtain rfl : g' = c.i := by
            rcases Nat.lt_trichotomy g' c.i with hlt | heq | hgt
            · exact absurd hnone' (hstored g' hg' hlt)
            · exact heq
            · exact absurd hnone (hbefore c.i (by omega) hgt)
          exact hsafe
        · intro hsafe
          exact hsafe lastBlockNum last c.i hlast (by omega) hg hnone hstored

def numberLogic : ReindexLogic Nat Nat Nat where
  id b := b + 1
  previous b := b
  numFromId n := n
  zero := 0
  num_id _ := rfl
  num_zero := rfl
  previous_eq_of_id_eq _ _ h := Nat.succ.inj h
  genesis := 0
  headId s := s
  headNum s := s
  apply s b := if b = s then some (s + 1) else none
  forkWindow _ _ := some 10
  undoWindow _ _ _ _ := 10
  headId_genesis := rfl
  headNum_genesis := rfl
  previous_of_apply s b s' h := (Option.ite_none_right_eq_some.mp h).1
  headId_of_apply s b s' h := by
    obtain ⟨rfl, h⟩ := Option.ite_none_right_eq_some.mp h
    exact (Option.some.inj h).symm
  headNum_of_apply s b s' h := by
    obtain ⟨rfl, h⟩ := Option.ite_none_right_eq_some.mp h
    exact (Option.some.inj h).symm
  forkWindow_of_apply _ _ _ _ := Option.some_ne_none _
  forkWindow_pos _ _ _ h := by
    cases h
    decide
  le_undoWindow _ _ _ _ _ h := by
    cases h
    decide
  applySkipping s b := if b = s then some (s + 1) else none
  previous_of_applySkipping s b s' h := (Option.ite_none_right_eq_some.mp h).1
  headId_of_applySkipping s b s' h := by
    obtain ⟨rfl, h⟩ := Option.ite_none_right_eq_some.mp h
    exact (Option.some.inj h).symm
  headNum_of_applySkipping s b s' h := by
    obtain ⟨rfl, h⟩ := Option.ite_none_right_eq_some.mp h
    exact (Option.some.inj h).symm
  forkWindow_of_applySkipping _ _ _ _ := Option.some_ne_none _
  timestamp b := b
  maximumTimeUntilExpiration _ := 86400
  headNum_eq _ := rfl

def onDisk (numbers : List Nat) (hdescending : numbers.Pairwise (· > ·)) (hpos : ∀ n ∈ numbers, 0 < n) :
    BlockDatabase numberLogic.toBlockIds where
  numbers := numbers
  block n := if n ∈ numbers then some (n - 1) else none
  descending := hdescending
  mem_numbers n b h := (Option.ite_none_right_eq_some.mp h).1
  blockNum_eq n b h := by
    obtain ⟨hn, h⟩ := Option.ite_none_right_eq_some.mp h
    cases h
    exact Nat.succ_pred_eq_of_pos (hpos n hn)

theorem reindex_restores_three :
    ∃ s, reindex numberLogic 1 10 10 true (onDisk [5, 3, 2, 1] (by decide) (by decide)) = .ok s ∧
      s.state = 3 ∧
      Restored numberLogic 1 (onDisk [5, 3, 2, 1] (by decide) (by decide)) s := by
  obtain ⟨s, hs, hstate⟩ : Lib.Succeeds (reindex numberLogic 1 10 10 true
      (onDisk [5, 3, 2, 1] (by decide) (by decide))) fun s => s.state = 3 := by decide +kernel
  refine ⟨s, hs, hstate, (reindex_restores_iff numberLogic hs).mpr ?_⟩
  intro lastBlockNum last g hlast hg hle hnone hbefore
  cases hlast
  exact .inr (Nat.zero_le _)

/-- Two blocks, and one that lies more than the undo history behind the gap: the second block is applied,
but it is no longer stored. -/
theorem reindex_loses_block :
    ∃ s, reindex numberLogic 0 10 10 true (onDisk [10004, 2, 1] (by decide) (by decide)) = .ok s ∧
      s.state = 2 ∧ s.blocks 2 = none ∧
      ¬Restored numberLogic 0 (onDisk [10004, 2, 1] (by decide) (by decide)) s := by
  obtain ⟨s, hs, hstate, hlost⟩ : Lib.Succeeds (reindex numberLogic 0 10 10 true
      (onDisk [10004, 2, 1] (by decide) (by decide))) fun s => s.state = 2 ∧ s.blocks 2 = none := by
    decide +kernel
  refine ⟨s, hs, hstate, hlost, fun hrestored => ?_⟩
  have hsome := (hrestored.stored_iff 2 (by decide)).mpr (by rw [hstate]; decide)
  rw [hlost] at hsome
  cases hsome

end Meta1Core.Blocks
