import Meta1Core.Blocks.ForkDatabase

/-!
# The tree in the fork database

The links of the index lead from an item to the item of its previous block, as long as both are
there.
-/

namespace Meta1Core.Blocks

variable {Id Block : Type} {P : BlockIds Id Block}

namespace BlockIds

theorem blockNum_pos (b : Block) : 0 < P.blockNum b := Nat.succ_pos _

theorem blockNum_eq_of_id_eq {b c : Block} (h : P.id b = P.id c) : P.blockNum b = P.blockNum c := by
  rw [← P.numFromId_id, h, P.numFromId_id]

theorem blockNum_eq_succ {b c : Block} (h : P.id c = P.previous b) :
    P.blockNum b = P.blockNum c + 1 := by
  rw [blockNum, ← h, P.numFromId_id]

end BlockIds

namespace ForkDatabase

/-- The index holds a block once, and the links of its items lead to their previous blocks. -/
structure Wf (P : BlockIds Id Block) (f : ForkDatabase Block) : Prop where
  ids_nodup : (f.index.map fun item => P.id item.data).Nodup
  refs_nodup : (f.index.map ForkItem.ref).Nodup
  ref_lt : ∀ item ∈ f.index, item.ref < f.nextRef
  prev_lt : ∀ item ∈ f.index, ∀ ref, item.prev = some ref → ref < f.nextRef
  links : ∀ item ∈ f.index, ∀ prev ∈ f.index, item.prev = some prev.ref →
    P.id prev.data = P.previous item.data

variable {f f' : ForkDatabase Block}

section

variable [DecidableEq Id]

theorem mem_insertItem {item x : ForkItem Block} (hx : x ∈ (f.insertItem P item).index) :
    x ∈ f.index ∨ x = item := by
  unfold ForkDatabase.insertItem at hx
  dsimp only at hx
  split at hx
  · exact .inl hx
  · rw [List.mem_append, List.mem_singleton] at hx
    exact hx

theorem mem_insertItem_of_mem {item x : ForkItem Block} (hx : x ∈ f.index) :
    x ∈ (f.insertItem P item).index := by
  unfold ForkDatabase.insertItem
  dsimp only
  split
  · exact hx
  · exact List.mem_append_left _ hx

end

namespace Wf

theorem eq_of_id_eq (h : f.Wf P) {x y : ForkItem Block} (hx : x ∈ f.index) (hy : y ∈ f.index)
    (hid : P.id x.data = P.id y.data) : x = y :=
  List.inj_on_of_nodup_map h.ids_nodup hx hy hid

theorem eq_of_ref_eq (h : f.Wf P) {x y : ForkItem Block} (hx : x ∈ f.index) (hy : y ∈ f.index)
    (href : x.ref = y.ref) : x = y :=
  List.inj_on_of_nodup_map h.refs_nodup hx hy href

theorem of_sublist (h : f.Wf P) (hsub : f'.index.Sublist f.index) (hnext : f'.nextRef = f.nextRef) :
    f'.Wf P where
  ids_nodup := h.ids_nodup.sublist (hsub.map _)
  refs_nodup := h.refs_nodup.sublist (hsub.map _)
  ref_lt item hitem := hnext ▸ h.ref_lt item (hsub.subset hitem)
  prev_lt item hitem ref href := hnext ▸ h.prev_lt item (hsub.subset hitem) ref href
  links item hitem prev hprev := h.links item (hsub.subset hitem) prev (hsub.subset hprev)

variable [DecidableEq Id]

theorem fetchBlock_of_mem (h : f.Wf P) {item : ForkItem Block} (hitem : item ∈ f.index) :
    f.fetchBlock P (P.id item.data) = some item := by
  cases hfound : f.fetchBlock P (P.id item.data) with
  | none =>
    have hnone := List.find?_eq_none.mp hfound item hitem
    exact absurd (decide_eq_true rfl) hnone
  | some found =>
    obtain ⟨hmem, hid⟩ := fetchBlock_eq_some hfound
    rw [h.eq_of_id_eq hmem hitem hid]

theorem insertItem (h : f.Wf P) {b : Block} {prev : Option Nat}
    (hprev : ∀ ref, prev = some ref → ∃ item ∈ f.index, item.ref = ref ∧
      P.id item.data = P.previous b) :
    (f.insertItem P ⟨f.nextRef, b, prev⟩).Wf P := by
  unfold ForkDatabase.insertItem
  split
  · exact ⟨h.ids_nodup, h.refs_nodup, fun item hitem => Nat.lt_succ_of_lt (h.ref_lt item hitem),
      fun item hitem ref href => Nat.lt_succ_of_lt (h.prev_lt item hitem ref href), h.links⟩
  · rename_i hnew
    have hfresh : f.fetchBlock P (P.id b) = none := Option.not_isSome_iff_eq_none.mp hnew
    have hcases : ∀ {item}, item ∈ f.index ++ [⟨f.nextRef, b, prev⟩] →
        item ∈ f.index ∨ item = ⟨f.nextRef, b, prev⟩ := by
      intro item hitem
      rcases List.mem_append.mp hitem with hitem | hitem
      · exact .inl hitem
      · exact .inr (List.mem_singleton.mp hitem)
    refine ⟨?_, ?_, fun item hitem => ?_, fun item hitem ref href => ?_,
      fun item hitem prev' hprev' hlink => ?_⟩
    · rw [List.map_append, List.map_singleton, List.nodup_append]
      refine ⟨h.ids_nodup, List.nodup_singleton _, fun id hid id' hid' heq => ?_⟩
      obtain ⟨item, hitem, rfl⟩ := List.mem_map.mp hid
      rw [List.mem_singleton.mp hid'] at heq
      have hnone := List.find?_eq_none.mp hfresh item hitem
      exact hnone (decide_eq_true heq)
    · rw [List.map_append, List.map_singleton, List.nodup_append]
      refine ⟨h.refs_nodup, List.nodup_singleton _, fun ref href ref' href' heq => ?_⟩
      obtain ⟨item, hitem, rfl⟩ := List.mem_map.mp href
      rw [List.mem_singleton.mp href'] at heq
      exact absurd (h.ref_lt item hitem) (heq ▸ Nat.lt_irrefl _)
    · rcases hcases hitem with hitem | rfl
      · exact Nat.lt_succ_of_lt (h.ref_lt item hitem)
      · exact Nat.lt_succ_self _
    · rcases hcases hitem with hitem | rfl
      · exact Nat.lt_succ_of_lt (h.prev_lt item hitem ref href)
      · obtain ⟨parent, hparent, rfl, -⟩ := hprev ref href
        exact Nat.lt_succ_of_lt (h.ref_lt parent hparent)
    · rcases hcases hitem with hitem | rfl
      · rcases hcases hprev' with hprev' | rfl
        · exact h.links item hitem prev' hprev' hlink
        · -- links lead to older items
          exact absurd (h.prev_lt item hitem _ hlink) (Nat.lt_irrefl _)
      · obtain ⟨parent, hparent, href, hid⟩ := hprev prev'.ref hlink
        rcases hcases hprev' with hprev' | rfl
        · rw [h.eq_of_ref_eq hprev' hparent href.symm]
          exact hid
        · exact absurd (h.ref_lt parent hparent) (href ▸ Nat.lt_irrefl _)

end Wf

structure Narrows (P : BlockIds Id Block) (f f' : ForkDatabase Block) : Prop where
  head : f'.head = f.head
  nextRef : f'.nextRef = f.nextRef
  sublist : f'.index.Sublist f.index
  size_pos : 0 < f.maxSize → 0 < f'.maxSize
  kept : ∀ head, f.head = some head → ∀ item ∈ f.index,
    P.blockNum head.data ≤ P.blockNum item.data + 1 → item ∈ f'.index

theorem Narrows.refl (f : ForkDatabase Block) : Narrows P f f :=
  ⟨rfl, rfl, List.Sublist.refl _, fun h => h, fun _ _ _ hitem _ => hitem⟩

theorem Narrows.trans {f1 f2 f3 : ForkDatabase Block} (h : Narrows P f1 f2)
    (h' : Narrows P f2 f3) : Narrows P f1 f3 where
  head := h'.head.trans h.head
  nextRef := h'.nextRef.trans h.nextRef
  sublist := h'.sublist.trans h.sublist
  size_pos hpos := h'.size_pos (h.size_pos hpos)
  kept head hhead item hitem hnum :=
    h'.kept head (h.head.trans hhead) item (h.kept head hhead item hitem hnum) hnum

variable {head item newHead parent : ForkItem Block} {firsts items seconds : List (ForkItem Block)}

theorem setMaxSize_index (hhead : f.head = some head) (size : Nat) :
    f.setMaxSize P size = { f with
      maxSize := size
      index := f.index.filter fun item =>
        P.blockNum head.data - size ≤ P.blockNum item.data } := by
  unfold setMaxSize prune
  dsimp only
  rw [hhead]

theorem narrows_setMaxSize {size : Nat} (hsize : 0 < size) : Narrows P f (f.setMaxSize P size) := by
  cases hhead : f.head with
  | none =>
    unfold setMaxSize
    dsimp only
    rw [hhead]
    refine ⟨hhead.symm, rfl, List.Sublist.refl _, fun _ => hsize, fun head hhead' => ?_⟩
    rw [hhead] at hhead'
    cases hhead'
  | some head =>
    rw [setMaxSize_index hhead]
    refine ⟨rfl, rfl, List.filter_sublist, fun _ => hsize, fun head' hhead' item hitem hnum => ?_⟩
    obtain rfl : head = head' := Option.some.inj (hhead.symm.trans hhead')
    refine List.mem_filter.mpr ⟨hitem, decide_eq_true ?_⟩
    omega

variable [DecidableEq Id]

theorem pushBlock_eq_ok {b : Block} (h : f.pushBlock P b = .ok (f', newHead)) :
    (f.head = none ∧ newHead = ⟨f.nextRef, b, none⟩ ∧
      f' = { f.insertItem P newHead with head := some newHead }) ∨
    (∃ head prev, f.head = some head ∧ P.blockNum b ≤ P.blockNum head.data ∧ newHead = head ∧
      f' = f.insertItem P ⟨f.nextRef, b, prev⟩ ∧
      ∀ ref, prev = some ref → ∃ item ∈ f.index, item.ref = ref ∧ P.id item.data = P.previous b) ∨
    (∃ head prev, f.head = some head ∧ P.blockNum head.data < P.blockNum b ∧
      newHead = ⟨f.nextRef, b, prev⟩ ∧
      f' = prune P { f.insertItem P newHead with head := some newHead } (P.blockNum b) ∧
      (P.previous b = P.zero ∧ prev = none ∨
        ∃ parent, f.fetchBlock P (P.previous b) = some parent ∧ prev = some parent.ref)) := by
  obtain ⟨-, h⟩ := of_fcAssert h
  obtain ⟨prev, hprev, h⟩ := Lib.of_bind h
  unfold linkOf at hprev
  cases hhead : f.head with
  | none =>
    rw [hhead] at h hprev
    rw [if_neg (fun hand => Bool.false_ne_true hand.1)] at hprev
    cases hprev
    cases h
    exact .inl ⟨rfl, rfl, rfl⟩
  | some head =>
    rw [hhead] at h hprev
    -- the link of the new item
    have hlink : P.previous b = P.zero ∧ prev = none ∨
        ∃ parent, f.fetchBlock P (P.previous b) = some parent ∧ prev = some parent.ref := by
      by_cases hzero : P.previous b = P.zero
      · rw [if_neg (fun hand => hand.2 hzero)] at hprev
        cases hprev
        exact .inl ⟨hzero, rfl⟩
      · rw [if_pos ⟨rfl, hzero⟩] at hprev
        cases hfound : f.fetchBlock P (P.previous b) with
        | none =>
          rw [hfound] at hprev
          cases hprev
        | some parent =>
          rw [hfound] at hprev
          cases hprev
          exact .inr ⟨parent, rfl, rfl⟩
    dsimp only at h
    split at h
    · rename_i hlt
      cases h
      exact .inr (.inr ⟨head, prev, rfl, hlt, rfl, rfl, hlink⟩)
    · rename_i hle
      cases h
      refine .inr (.inl ⟨_, prev, rfl, Nat.le_of_not_lt hle, rfl, rfl, ?_⟩)
      rintro ref rfl
      rcases hlink with ⟨-, hnone⟩ | ⟨parent, hfound, href⟩
      · cases hnone
      · obtain ⟨hmem, hid⟩ := fetchBlock_eq_some hfound
        exact ⟨parent, hmem, (Option.some.inj href).symm, hid⟩

theorem remove_index (held : List (ForkItem Block)) (id : Id) :
    (f.remove P held id).index = f.index.filter (fun item => P.id item.data ≠ id) ∧
      (f.remove P held id).nextRef = f.nextRef ∧ (f.remove P held id).maxSize = f.maxSize := by
  unfold remove
  dsimp only
  split
  · exact ⟨rfl, rfl, rfl⟩
  · split
    · split
      · rename_i hpop
        unfold popBlock at hpop
        split at hpop
        · cases hpop
        · split at hpop
          · cases hpop
          · cases hpop
            exact ⟨rfl, rfl, rfl⟩
      · exact ⟨rfl, rfl, rfl⟩
    · exact ⟨rfl, rfl, rfl⟩

theorem mem_removeAll (held invalid : List (ForkItem Block)) :
    let removed := invalid.foldl (fun f item => f.remove P held (P.id item.data)) f
    (∀ item, item ∈ removed.index ↔
      item ∈ f.index ∧ ∀ bad ∈ invalid, P.id item.data ≠ P.id bad.data) ∧
    removed.index.Sublist f.index ∧ removed.nextRef = f.nextRef ∧ removed.maxSize = f.maxSize := by
  induction invalid generalizing f with
  | nil => simp
  | cons bad rest ih =>
    obtain ⟨hindex, hnext, hsize⟩ := remove_index (P := P) (f := f) held (P.id bad.data)
    obtain ⟨hmem, hsub, hnext', hsize'⟩ := @ih (f.remove P held (P.id bad.data))
    refine ⟨fun item => ?_, ?_, hnext'.trans hnext, hsize'.trans hsize⟩
    · rw [List.foldl_cons, hmem, hindex, List.mem_filter, decide_eq_true_iff, List.forall_mem_cons,
        and_assoc]
    · rw [List.foldl_cons]
      refine hsub.trans ?_
      rw [hindex]
      exact List.filter_sublist

omit [DecidableEq Id] in
theorem parent_of_mem (h : f.Wf P) (hparent : parent ∈ f.index)
    (hlink : item.prev = some parent.ref) (held : List (ForkItem Block)) :
    f.parent held item = some parent := by
  unfold ForkDatabase.parent lock
  rw [hlink, Option.bind_some, List.append_assoc, List.find?_append]
  cases hfound : f.index.find? (fun x => decide (x.ref = parent.ref)) with
  | none => exact absurd (decide_eq_true rfl) (List.find?_eq_none.mp hfound parent hparent)
  | some found =>
    have hmem := List.mem_of_find?_eq_some hfound
    have href := List.find?_some hfound
    rw [Option.some_or]
    exact congrArg some (h.eq_of_ref_eq hmem hparent (of_decide_eq_true href))

theorem remove_head (h : f.Wf P) (hhead : f.head = some head) (hparent : parent ∈ f.index)
    (hlink : head.prev = some parent.ref) (hid : P.id parent.data ≠ P.id head.data)
    (held : List (ForkItem Block)) :
    (f.remove P held (P.id head.data)).head = some parent := by
  let f' : ForkDatabase Block :=
    { f with index := f.index.filter fun item => P.id item.data ≠ P.id head.data }
  have hwf : f'.Wf P := h.of_sublist List.filter_sublist rfl
  have hmem : parent ∈ f'.index := List.mem_filter.mpr ⟨hparent, decide_eq_true hid⟩
  have hpop : f'.popBlock held = .ok { f' with head := some parent } := by
    unfold popBlock
    rw [show f'.head = some head from hhead]
    dsimp only
    rw [parent_of_mem hwf hmem hlink held]
  unfold remove
  dsimp only
  split
  · rename_i hnone
    exact absurd (hhead.symm.trans hnone) (Option.some_ne_none _)
  · rename_i head' hhead'
    obtain rfl : head = head' := Option.some.inj (hhead.symm.trans hhead')
    rw [if_pos rfl]
    rw [show popBlock { f with index := f.index.filter fun item => P.id item.data ≠ P.id head.data }
      held = .ok { f' with head := some parent } from hpop]

structure Branch (P : BlockIds Id Block) (f : ForkDatabase Block) (items : List (ForkItem Block)) :
    Prop where
  mem : ∀ item ∈ items, item ∈ f.index
  linked : items.IsChain fun item prev => P.id prev.data = P.previous item.data

omit [DecidableEq Id] in
theorem parent_eq_some (h : f.Wf P) (hhead : ∀ head, f.head = some head → head ∈ f.index)
    {prev : ForkItem Block} (hitem : item ∈ f.index) (hparent : f.parent [] item = some prev) :
    prev ∈ f.index ∧ P.id prev.data = P.previous item.data := by
  obtain ⟨ref, hlink, hlock⟩ := Option.bind_eq_some_iff.mp hparent
  unfold lock at hlock
  have href : prev.ref = ref := by simpa using List.find?_some hlock
  have hmem : prev ∈ f.index := by
    have halive := List.mem_of_find?_eq_some hlock
    rw [List.append_nil, List.mem_append, Option.mem_toList] at halive
    rcases halive with hmem | hmem
    · exact hmem
    · exact hhead prev hmem
  exact ⟨hmem, h.links item hitem prev hmem (hlink.trans (congrArg some href.symm))⟩

theorem meet_branches (h : f.Wf P) (hhead : ∀ head, f.head = some head → head ∈ f.index)
    {fuel : Nat} {first second : ForkItem Block} (hfirst : first ∈ f.index)
    (hsecond : second ∈ f.index) (hmeet : meet P f fuel first second = .ok (firsts, seconds)) :
    Branch P f firsts ∧ Branch P f seconds ∧ firsts.length = seconds.length ∧
      ∃ a b, firsts.getLast? = some a ∧ seconds.getLast? = some b ∧
        P.previous a.data = P.previous b.data := by
  induction fuel generalizing first second firsts seconds with
  | zero => cases hmeet
  | succ fuel ih =>
    rw [meet] at hmeet
    split at hmeet
    · split at hmeet
      · rename_i first' second' hfirst' hsecond'
        obtain ⟨⟨firsts', seconds'⟩, hrest, hret⟩ := Lib.of_bind hmeet
        cases hret
        obtain ⟨hmem1, hlink1⟩ := parent_eq_some h hhead hfirst hfirst'
        obtain ⟨hmem2, hlink2⟩ := parent_eq_some h hhead hsecond hsecond'
        obtain ⟨hbranch1, hbranch2, hlength, a, b, ha, hb, hprevious⟩ := ih hmem1 hmem2 hrest
        obtain ⟨hhead1, hhead2⟩ := meet_head hrest
        obtain ⟨rest1, rfl⟩ : ∃ rest, firsts' = first' :: rest := List.head?_eq_some_iff.mp hhead1
        obtain ⟨rest2, rfl⟩ : ∃ rest, seconds' = second' :: rest :=
          List.head?_eq_some_iff.mp hhead2
        refine ⟨⟨List.forall_mem_cons.mpr ⟨hfirst, hbranch1.mem⟩,
            List.isChain_cons_cons.mpr ⟨hlink1, hbranch1.linked⟩⟩,
          ⟨List.forall_mem_cons.mpr ⟨hsecond, hbranch2.mem⟩,
            List.isChain_cons_cons.mpr ⟨hlink2, hbranch2.linked⟩⟩, ?_, a, b, ?_, ?_, hprevious⟩
        · rw [List.length_cons, hlength, ← List.length_cons]
        · rw [List.getLast?_cons_cons]
          exact ha
        · rw [List.getLast?_cons_cons]
          exact hb
      · cases hmeet
      · cases hmeet
    · rename_i hsame
      cases hmeet
      exact ⟨⟨List.forall_mem_singleton.mpr hfirst, List.IsChain.singleton _⟩,
        ⟨List.forall_mem_singleton.mpr hsecond, List.IsChain.singleton _⟩, rfl, first, second, rfl,
        rfl, not_not.mp hsame⟩

theorem fetchBranchFrom_newHead (h : f.Wf P) (hnewHead : f.head = some newHead)
    (hnewMem : newHead ∈ f.index) (hmem : head ∈ f.index)
    (hparent : f.parent [] newHead = some parent)
    (hnum : P.blockNum newHead.data = P.blockNum head.data + 1)
    (hfetch : f.fetchBranchFrom P (P.id newHead.data) (P.id head.data) = .ok (firsts, seconds)) :
    ∃ rest, firsts = newHead :: rest ∧ rest.head? = some parent ∧ seconds.head? = some head ∧
      Branch P f firsts ∧ Branch P f seconds ∧ rest.length = seconds.length ∧
      ∃ a b, firsts.getLast? = some a ∧ seconds.getLast? = some b ∧
        P.previous a.data = P.previous b.data := by
  have hhead : ∀ item, f.head = some item → item ∈ f.index := by
    intro item hitem
    rw [Option.some.inj (hitem.symm.trans hnewHead)]
    exact hnewMem
  obtain ⟨first, second, passed, last, passed', last', firsts', seconds', hfirst, hsecond, hpassed,
    hpassed', hmeet, rfl, rfl⟩ := fetchBranchFrom_eq_ok hfetch
  obtain rfl : newHead = first := Option.some.inj ((h.fetchBlock_of_mem hnewMem).symm.trans hfirst)
  obtain rfl : head = second := Option.some.inj ((h.fetchBlock_of_mem hmem).symm.trans hsecond)
  obtain ⟨hparentMem, hparentId⟩ := parent_eq_some h hhead hnewMem hparent
  have hparentNum := BlockIds.blockNum_eq_succ hparentId
  -- one step down from the new head, none from the old one
  obtain ⟨rfl, rfl⟩ : passed = [newHead] ∧ last = parent := by
    rw [descend, if_pos (by omega), hparent] at hpassed
    obtain ⟨⟨passed1, last1⟩, hdescend, hret⟩ := Lib.of_bind hpassed
    cases hret
    cases hfuel : f.nextRef with
    | zero =>
      rw [hfuel] at hdescend
      cases hdescend
    | succ n =>
      rw [hfuel, descend, if_neg (by omega)] at hdescend
      cases hdescend
      exact ⟨rfl, rfl⟩
  obtain ⟨rfl, rfl⟩ : passed' = [] ∧ last' = head := by
    rw [descend, if_neg (by omega)] at hpassed'
    cases hpassed'
    exact ⟨rfl, rfl⟩
  obtain ⟨hbranch1, hbranch2, hlength, a, b, ha, hb, hprevious⟩ :=
    meet_branches h hhead hparentMem hmem hmeet
  obtain ⟨hhead1, hhead2⟩ := meet_head hmeet
  obtain ⟨rest, rfl⟩ : ∃ rest, firsts' = last :: rest := List.head?_eq_some_iff.mp hhead1
  refine ⟨last :: rest, rfl, rfl, hhead2, ⟨List.forall_mem_cons.mpr ⟨hnewMem, hbranch1.mem⟩,
    List.isChain_cons_cons.mpr ⟨hparentId, hbranch1.linked⟩⟩, hbranch2, hlength, a, b, ?_, hb,
    hprevious⟩
  rw [List.singleton_append, List.getLast?_cons_cons]
  exact ha

omit [DecidableEq Id] in
theorem Branch.blockNum_add_length {top : ForkItem Block} (h : Branch P f (top :: items)) :
    ∀ item ∈ top :: items, P.blockNum top.data ≤ P.blockNum item.data + items.length := by
  induction items generalizing top with
  | nil =>
    intro item hitem
    rw [List.mem_singleton.mp hitem]
    exact Nat.le_add_right _ _
  | cons next rest ih =>
    obtain ⟨hlink, hrest⟩ := List.isChain_cons_cons.mp h.linked
    have hnum := BlockIds.blockNum_eq_succ hlink
    intro item hitem
    rcases List.mem_cons.mp hitem with rfl | hitem
    · exact Nat.le_add_right _ _
    · have hle := ih ⟨fun x hx => h.mem x (List.mem_cons_of_mem _ hx), hrest⟩ item hitem
      rw [List.length_cons]
      omega

omit [DecidableEq Id] in
theorem Branch.pairwise (h : Branch P f items) :
    items.Pairwise fun item lower => P.blockNum lower.data < P.blockNum item.data := by
  let below : ForkItem Block → ForkItem Block → Prop :=
    fun item lower => P.blockNum lower.data < P.blockNum item.data
  have htrans : Trans below below below := ⟨fun hxy hyz => Nat.lt_trans hyz hxy⟩
  refine (h.linked.imp fun item prev hlink => ?_ : items.IsChain below).pairwise
  show P.blockNum prev.data < P.blockNum item.data
  rw [BlockIds.blockNum_eq_succ hlink]
  exact Nat.lt_succ_self _

end ForkDatabase

end Meta1Core.Blocks
