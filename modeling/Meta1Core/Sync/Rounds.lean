import Meta1Core.Sync.Inventory

/-!
# Synchronizing with an honest peer

A peer is honest if it answers from a chain of blocks.  Whatever chains these are, the node follows:
it finds every answer in order, and the blocks up to the last one it has seen, followed by the ids
to get, are the first blocks of a chain of the peer.
-/

namespace Meta1Core.Sync

open Lib

open Allocation (u32 u32Sub)

variable {Id : Type} {previous : Id → Id} {d : Database Id}
  {ours theirs path xs ys : List Id} {peer : Peer Id} {r : Round Id}

/-- An id names the block before, as the one that its block refers to. -/
def Linked (previous : Id → Id) (ids : List Id) : Prop :=
  ∀ n x y, ids[n]? = some x → ids[n + 1]? = some y → previous y = x

variable {n : Nat}

theorem Linked.take_eq (hx : Linked previous xs) (hy : Linked previous ys) {z : Id}
    (hxn : xs[n]? = some z) (hyn : ys[n]? = some z) : xs.take (n + 1) = ys.take (n + 1) := by
  induction n generalizing z with
  | zero => rw [List.take_add_one, List.take_add_one, hxn, hyn, List.take_zero, List.take_zero]
  | succ n ih =>
    have hxlt := (List.getElem?_eq_some_iff.mp hxn).1
    have hylt := (List.getElem?_eq_some_iff.mp hyn).1
    have hxget : xs[n]? = some xs[n] := List.getElem?_eq_getElem (by omega)
    have hyget : ys[n]? = some ys[n] := List.getElem?_eq_getElem (by omega)
    have hsame : xs[n] = ys[n] := (hx n _ _ hxget hxn).symm.trans (hy n _ _ hyget hyn)
    rw [List.take_add_one, hxn, ih hxget (hsame ▸ hyget), ← hyn, ← List.take_add_one]

theorem Linked.of_prefix (h : Linked previous ys) (hpre : xs <+: ys) : Linked previous xs := by
  obtain ⟨rest, rfl⟩ := hpre
  intro n x y hx hy
  exact h n x y (List.getElem?_append_left (List.getElem?_eq_some_iff.mp hx).1 ▸ hx)
    (List.getElem?_append_left (List.getElem?_eq_some_iff.mp hy).1 ▸ hy)

/-! ## Honest peers -/

/-- The peer replies from a chain of blocks at least a second apart, none of them from the future.  What
the node knows of them leads to them, and the node could still switch to them. -/
structure Honest (previous : Id → Id) (d : Database Id) (ours : List Id) (r : Round Id)
    (theirs : List Id) : Prop where
  serves : Serves r.server theirs
  linked : Linked previous theirs
  fits : theirs.length + 1 < 2 ^ 32
  numFromId_eq : r.server.numFromId = d.numFromId
  zero_eq : r.server.zero = d.zero
  limit_pos : 0 < r.limit
  leads : ∀ n id, theirs[n]? = some id → d.isKnownBlock id = true → Leads d ours id (theirs.take (n + 1))
  unknown : ∀ id ∈ r.firstItemsOfOthers, d.isKnownBlock id = false
  offers : ∀ id, id = d.zero ∨ id ∈ theirs →
    d.getBlockTime id + (theirs.length - d.numFromId id) ≤ r.now
  past : ∀ id, d.isKnownBlock id = true → d.getBlockTime id ≤ r.now
  now_fits : r.now + Peer.futureSyncBlocksGracePeriod < 2 ^ 32

/-- The blocks up to the last one that was seen, followed by the ids to get, could be a chain. -/
structure Follows (previous : Id → Id) (d : Database Id) (ours : List Id) (peer : Peer Id)
    (path : List Id) : Prop where
  leads : Leads d ours peer.lastBlockDelegateHasSeen path
  linked : Linked previous (path ++ peer.idsOfItemsToGet)
  num_eq : ∀ n x, (path ++ peer.idsOfItemsToGet)[n]? = some x → d.numFromId x = n + 1
  fits : (path ++ peer.idsOfItemsToGet).length + 1 < 2 ^ 32
  time_eq : peer.lastBlockTimeDelegateHasSeen = d.getBlockTime peer.lastBlockDelegateHasSeen

theorem Leads.known (h : Serves d ours) {id : Id} (hleads : Leads d ours id path) :
    (∀ x ∈ path, d.isKnownBlock x = true) ∧ (id = d.zero ∧ path = ours ∨ id ∈ path) := by
  cases hleads with
  | head => exact ⟨h.known, .inl ⟨rfl, rfl⟩⟩
  | included hget =>
    refine ⟨fun x hx => h.known x (List.mem_of_mem_take hx), .inr ?_⟩
    exact List.mem_of_getElem? ((List.getElem?_take_of_lt (Nat.lt_succ_self _)).trans hget)
  | fork _ hknown hlast =>
    refine ⟨fun x hx => ?_, .inr (List.mem_append_right _ (List.mem_of_getLast? hlast))⟩
    rcases List.mem_append.mp hx with hx | hx
    · exact h.known x (List.mem_of_mem_take hx)
    · exact hknown x hx

/-- The numbers that a synopsis of `xs` consists of, where `path` is what the node has seen -/
def synopsisNums (d : Database Id) (path xs : List Id) : List Nat :=
  halving xs.length (xs.length + 1) (lowest d path)

/-- Nothing in the synopsis is in the peer's chain. -/
def Apart (d : Database Id) (path xs theirs : List Id) : Prop :=
  theirs = [] ∨ xs ≠ [] ∧ ∀ y ∈ pick xs (synopsisNums d path xs), y ∉ theirs

/-- The peer's chain has the `n + 1`-th id of `xs`, the last one of the synopsis that it has, unless
there are no ids at all. -/
structure Joins (d : Database Id) (path xs theirs : List Id) (n : Nat) : Prop where
  lt : n < theirs.length
  same : xs = [] ∧ n = 0 ∨ xs[n]? = theirs[n]?
  mem : xs ≠ [] → n + 1 ∈ synopsisNums d path xs
  max : ∀ k ∈ synopsisNums d path xs, ∀ y ∈ xs[k - 1]?, y ∈ theirs → k ≤ n + 1

theorem bounds_of_mem_synopsisNums (hn : n ∈ synopsisNums d path xs) :
    lowest d path ≤ n ∧ 0 < n ∧ n ≤ xs.length := by
  have hbounds := bounds_of_mem_halving hn
  have hpos : 0 < lowest d path := Nat.lt_of_lt_of_le Nat.one_pos (Nat.le_max_left _ _)
  omega

theorem lowest_mem_synopsisNums (hpath : path <+: xs) (h : xs ≠ []) :
    lowest d path ∈ synopsisNums d path xs ∧ ∃ y, xs[lowest d path - 1]? = some y := by
  have hpos := List.length_pos_iff.mpr h
  have hlength := hpath.length_le
  have hle : lowest d path ≤ xs.length := by
    unfold lowest
    omega
  refine ⟨?_, _, List.getElem?_eq_getElem (by omega)⟩
  unfold synopsisNums
  rw [halving_of_le hle]
  exact List.mem_cons_self

theorem Apart.eq_nil (h : Apart d path xs theirs) (hpath : path <+: xs)
    (hshared : xs.take (lowest d path) <+: theirs) : theirs = [] := by
  refine h.resolve_right fun ⟨hne, hnone⟩ => ?_
  obtain ⟨hmem, y, hy⟩ := @lowest_mem_synopsisNums Id d path xs hpath hne
  have hpos := (bounds_of_mem_synopsisNums hmem).2.1
  have htake : (xs.take (lowest d path))[lowest d path - 1]? = some y := by
    rw [List.getElem?_take_of_lt (by omega), hy]
  exact hnone y (List.mem_filterMap.mpr ⟨_, hmem, hy⟩) (hshared.subset (List.mem_of_getElem? htake))

theorem pick_nil (nums : List Nat) : pick ([] : List Id) nums = [] :=
  List.filterMap_eq_nil_iff.mpr fun _ _ => rfl

variable {y : Id}

theorem mem_pick {nums : List Nat} (hy : y ∈ pick xs nums) :
    ∃ n ∈ nums, xs[n - 1]? = some y := List.mem_filterMap.mp hy

theorem find?_reverse_max {p : Id → Bool} {f : Id → Nat} {z : Id}
    (hsorted : xs.Pairwise (f · < f ·)) (hfind : xs.reverse.find? p = some y) (hz : z ∈ xs)
    (hp : p z = true) : f z ≤ f y := by
  rw [← List.pairwise_reverse] at hsorted
  rw [← List.mem_reverse] at hz
  generalize xs.reverse = ys at hsorted hfind hz
  induction ys with
  | nil => cases hz
  | cons x ys ih =>
    obtain ⟨hx, hsorted⟩ := List.pairwise_cons.mp hsorted
    rw [List.find?_cons] at hfind
    by_cases hpx : p x = true
    · rw [hpx] at hfind
      obtain rfl : x = y := Option.some.inj hfind
      rcases List.mem_cons.mp hz with rfl | hz
      · exact Nat.le_refl _
      · exact Nat.le_of_lt (hx z hz)
    · rw [show p x = false from by simpa using hpx] at hfind
      rcases List.mem_cons.mp hz with rfl | hz
      · exact absurd hp hpx
      · exact ih hsorted hfind hz

/-! ## Steps of the inventory message -/

variable [DecidableEq Id]

theorem rdropWhile_ne_of_not_mem (h : y ∉ xs) : xs.rdropWhile (· ≠ y) = [] := by
  rw [List.rdropWhile_eq_nil_iff]
  intro x hx
  simpa using fun heq : x = y => h (heq ▸ hx)

theorem rdropWhile_ne_of_getElem? {k : Nat} (hk : xs[k]? = some y) (hlast : y ∉ xs.drop (k + 1)) :
    xs.rdropWhile (· ≠ y) = xs.take (k + 1) := by
  have hsplit : xs.reverse = (xs.drop (k + 1)).reverse ++ (xs.take (k + 1)).reverse := by
    rw [← List.reverse_append, List.take_append_drop]
  have hrest : ∀ x ∈ (xs.drop (k + 1)).reverse, decide (x ≠ y) = true := by
    intro x hx
    simpa using fun heq : x = y => hlast (heq ▸ List.mem_reverse.mp hx)
  have hstop : (xs.take (k + 1)).reverse = y :: (xs.take k).reverse := by
    rw [List.take_add_one, hk, List.reverse_append]
    rfl
  rw [List.rdropWhile, hsplit, List.dropWhile_append_of_pos hrest, hstop,
    List.dropWhile_cons_of_neg (by simp), ← hstop, List.reverse_reverse]

theorem Serves.popSeen_eq (h : Serves d ours) (received : List Id) :
    ∃ k ≤ received.length, (∀ x ∈ received.take k, d.isKnownBlock x = true) ∧
      (∀ x, received[k]? = some x → d.isKnownBlock x = false) ∧
      peer.popSeen d received =
        .ok ((received.take k).getLast?.elim peer (peer.see d), received.drop k) := by
  induction received generalizing peer with
  | nil => exact ⟨0, Nat.le_refl _, fun _ hx => by simp at hx, fun _ hx => by simp at hx, rfl⟩
  | cons front rest ih =>
    unfold Peer.popSeen
    by_cases hknown : d.isKnownBlock front = true
    · have hne : front ≠ d.zero := by
        rintro rfl
        have hpos := (h.num_of_known _ hknown).1
        have hzero := h.num_zero
        omega
      obtain ⟨k, hk, hall, hnext, heq⟩ := @ih (peer.see d front)
      refine ⟨k + 1, Nat.succ_le_succ hk, ?_, hnext, ?_⟩
      · intro x hx
        rcases List.mem_cons.mp hx with rfl | hx
        · exact hknown
        · exact hall x hx
      · rw [if_pos hknown, cAssert_of hne]
        show (peer.see d front).popSeen d rest = _
        rw [heq, List.take_succ_cons, List.getLast?_cons]
        cases (rest.take k).getLast? <;> rfl
    · refine ⟨0, Nat.zero_le _, fun _ hx => by simp at hx, fun x hx => ?_, if_neg hknown⟩
      obtain rfl : front = x := Option.some.inj hx
      simpa using hknown

/-! ## A peer on a fork -/

def samplePrevious (id : Nat) : Nat := if id = 103 then 2 else id - 1

def sampleChain : List Nat := [1, 2, 103, 104, 105]

def sampleRound : Round Nat where
  server := sampleDatabase sampleChain []
  limit := 3
  now := 10

theorem linked_of_zipIdx {ids : List Nat}
    (h : ∀ e ∈ ids.zipIdx, ∀ y ∈ ids[e.2 + 1]?, samplePrevious y = e.1) : Linked samplePrevious ids :=
  fun _ x _ hx hy => h (x, _) (List.mem_zipIdx_iff_getElem?.mpr hx) _ hy

theorem leads_sampleChain {id : Nat} (hn : sampleChain[n]? = some id)
    (hknown : forkedDatabase.isKnownBlock id = true) :
    Leads forkedDatabase [1, 2, 3, 4] id (sampleChain.take (n + 1)) := by
  have hmem : (id, n) ∈ sampleChain.zipIdx := List.mem_zipIdx_iff_getElem?.mpr hn
  simp only [sampleChain, List.zipIdx_cons, List.zipIdx_nil, List.mem_cons, Prod.mk.injEq, List.not_mem_nil,
    or_false] at hmem
  rcases hmem with ⟨rfl, rfl⟩ | ⟨rfl, rfl⟩ | ⟨rfl, rfl⟩ | ⟨rfl, rfl⟩ | ⟨rfl, rfl⟩
  · exact @Leads.included _ _ [1, 2, 3, 4] 0 1 rfl
  · exact @Leads.included _ _ [1, 2, 3, 4] 1 2 rfl
  · exact @Leads.fork _ _ _ 2 103 2 [103] (by decide) (by decide) rfl (by decide) rfl rfl
      (forall_getElem? (by decide)) (by decide)
  · exact leads_forkedDatabase
  · cases hknown

theorem honest_sampleRound :
    Honest samplePrevious forkedDatabase [1, 2, 3, 4] sampleRound sampleChain where
  serves := serves_sampleDatabase (by decide) (by decide) (by decide)
  linked := linked_of_zipIdx (by decide)
  fits := by decide
  numFromId_eq := rfl
  zero_eq := rfl
  limit_pos := by decide
  leads _ _ := leads_sampleChain
  unknown _ hid := absurd hid List.not_mem_nil
  offers id hid := by
    rcases hid with rfl | hid
    · decide
    · exact (show ∀ id ∈ sampleChain, id % 100 + (5 - id % 100) ≤ 10 from by decide) id hid
  past id hid := (show ∀ id ∈ [1, 2, 3, 4] ++ [103, 104], id % 100 ≤ 10 from by decide) id
    (List.contains_iff_mem.mp hid)
  now_fits := by decide

theorem follows_forkedPeer :
    Follows samplePrevious forkedDatabase [1, 2, 3, 4] forkedPeer [1, 2, 103, 104] where
  leads := leads_forkedDatabase
  linked := linked_of_zipIdx (by decide)
  num_eq := forall_getElem? (by decide)
  fits := by decide
  time_eq := rfl

/-! ## The answer to a synopsis -/

theorem Follows.synopsis_eq (h : Follows previous d ours peer path) (hd : Serves d ours) :
    createBlockchainSynopsisForPeer d peer =
      .ok (pick (path ++ peer.idsOfItemsToGet) (synopsisNums d path (path ++ peer.idsOfItemsToGet))) := by
  apply hd.createBlockchainSynopsisForPeer_eq h.leads _ h.fits
  intro i x hx
  have hnum := h.num_eq (path.length + i) x
  rw [List.getElem?_append_right (Nat.le_add_right _ _), Nat.add_sub_cancel_left] at hnum
  exact hnum hx

theorem Honest.answer (hr : Honest previous d ours r theirs) (hd : Serves d ours) (hpath : path <+: xs)
    (hxs : ∀ n x, xs[n]? = some x → d.numFromId x = n + 1) :
    ∃ message, r.server.reply (pick xs (synopsisNums d path xs)) r.limit = .ok message ∧
      (message = ⟨[], 0⟩ ∧ Apart d path xs theirs ∨ ∃ n, Joins d path xs theirs n ∧
        message = ⟨(theirs.drop n).take r.limit, theirs.length - (n + r.limit)⟩) := by
  have hnum : ∀ k ∈ synopsisNums d path xs, ∀ y ∈ xs[k - 1]?, d.numFromId y = k := by
    intro k hk y hy
    have hpos := (bounds_of_mem_synopsisNums hk).2.1
    rw [hxs (k - 1) y hy]
    omega
  have hzero : r.server.zero ∉ pick xs (synopsisNums d path xs) := by
    intro hmem
    obtain ⟨k, hk, hget⟩ := mem_pick hmem
    have hpos := (bounds_of_mem_synopsisNums hk).2.1
    rw [← hnum k hk _ hget, hr.zero_eq, hd.num_zero] at hpos
    exact Nat.lt_irrefl 0 hpos
  rw [hr.serves.reply_eq hr.fits hr.limit_pos hzero]
  refine ⟨_, rfl, ?_⟩
  cases hfind : (pick xs (synopsisNums d path xs)).reverse.find? (· ∈ theirs) with
  | none =>
    rw [Option.elim_none]
    have hnone : ∀ y ∈ pick xs (synopsisNums d path xs), y ∉ theirs := by
      intro y hy
      simpa using List.find?_eq_none.mp hfind y (List.mem_reverse.mpr hy)
    by_cases hnil : xs = []
    · subst hnil
      rw [if_pos (pick_nil _)]
      by_cases htheirs : theirs = []
      · exact .inl ⟨by simp [htheirs], .inl htheirs⟩
      · refine .inr ⟨0, ⟨List.length_pos_iff.mpr htheirs, .inl ⟨rfl, rfl⟩, fun hne => absurd rfl hne,
          fun k _ y hy => ?_⟩, by simp⟩
        cases hy
    · obtain ⟨hmem, y, hy⟩ := @lowest_mem_synopsisNums Id d path xs hpath hnil
      have hpick : y ∈ pick xs (synopsisNums d path xs) := List.mem_filterMap.mpr ⟨_, hmem, hy⟩
      rw [if_neg (List.ne_nil_of_mem hpick)]
      exact .inl ⟨rfl, .inr ⟨hnil, hnone⟩⟩
  | some y =>
    have hy : y ∈ theirs := by simpa using List.find?_some hfind
    obtain ⟨m, hm⟩ := List.mem_iff_getElem?.mp hy
    obtain ⟨k, hk, hget⟩ := mem_pick (List.mem_reverse.mp (List.mem_of_find?_eq_some hfind))
    have hpos := (bounds_of_mem_synopsisNums hk).2.1
    have hky := hnum k hk y hget
    have hserver := hr.serves.num_eq m y hm
    have hsame : d.numFromId y = m + 1 := hr.numFromId_eq ▸ hserver
    obtain rfl : m = k - 1 := by omega
    refine .inr ⟨k - 1, ⟨(List.getElem?_eq_some_iff.mp hm).1, .inr (hget.trans hm.symm), fun _ => ?_,
      fun k' hk' z hz hmem => ?_⟩, ?_⟩
    · rwa [Nat.sub_add_cancel hpos]
    · have hsorted : (pick xs (synopsisNums d path xs)).Pairwise (d.numFromId · < d.numFromId ·) := by
        rw [pick, List.pairwise_filterMap]
        refine pairwise_halving.imp_of_mem fun {a b} ha hb hlt x hx y hy => ?_
        rw [hnum a ha x hx, hnum b hb y hy]
        exact hlt
      have hz' := find?_reverse_max hsorted hfind (List.mem_filterMap.mpr ⟨k', hk', hz⟩) (by simpa using hmem)
      rw [hnum k' hk' z hz, hky] at hz'
      omega
    · rw [Option.elim_some, hserver, Nat.add_sub_cancel]

/-- The answer begins where the synopsis and the chain of the peer are the same for the last time.  From
there to the fork there are at most as many blocks as the node has above the fork. -/
theorem synopsis_finds_fork (h : Follows previous d ours peer path) (hd : Serves d ours)
    (hr : Honest previous d ours r theirs) {fork : Nat} (hlow : lowest d path ≤ fork)
    (hle : fork ≤ (path ++ peer.idsOfItemsToGet).length)
    (hshared : (path ++ peer.idsOfItemsToGet).take fork = theirs.take fork)
    (hfork : ∀ x, (path ++ peer.idsOfItemsToGet)[fork]? = some x → theirs[fork]? ≠ some x) :
    ∃ synopsis n, createBlockchainSynopsisForPeer d peer = .ok synopsis ∧
      r.server.reply synopsis r.limit =
        .ok ⟨(theirs.drop (n - 1)).take r.limit, theirs.length - (n - 1 + r.limit)⟩ ∧
      0 < n ∧ n ≤ fork ∧
      (path ++ peer.idsOfItemsToGet).length - n ≤ 2 * ((path ++ peer.idsOfItemsToGet).length - fork) := by
  have hsynopsis := h.synopsis_eq hd
  have hlinked := h.linked
  have hpath := List.prefix_append path peer.idsOfItemsToGet
  obtain ⟨message, hreply, hmessage⟩ := hr.answer hd hpath h.num_eq
  generalize path ++ peer.idsOfItemsToGet = xs at *
  have hpos : 0 < lowest d path := Nat.lt_of_lt_of_le Nat.one_pos (Nat.le_max_left _ _)
  have hlength : fork ≤ theirs.length := by
    have hlength := congrArg List.length hshared
    rw [List.length_take, List.length_take] at hlength
    omega
  rcases hmessage with ⟨-, hapart⟩ | ⟨n, hjoins, rfl⟩
  · have hpre : xs.take (lowest d path) <+: theirs :=
      (List.take_prefix_take_left hlow).trans (hshared ▸ List.take_prefix _ _)
    rw [hapart.eq_nil hpath hpre, List.length_nil] at hlength
    omega
  · obtain ⟨k, hk, hkle, hhalf, -⟩ := exists_halving_le hlow hle
      (show xs.length < lowest d path + (xs.length + 1) from by omega)
    have hkpos := (bounds_of_mem_synopsisNums hk).2.1
    have hn : n + 1 ≤ fork := by
      rcases hjoins.same with ⟨rfl, rfl⟩ | hsame
      · omega
      · by_contra hlt
        have hget := List.getElem?_eq_getElem hjoins.lt
        have htake := hlinked.take_eq hr.linked (hsame.trans hget) hget
        have hxs := List.getElem?_eq_getElem (show fork < xs.length from by
          have hlt := (List.getElem?_eq_some_iff.mp (hsame.trans hget)).1
          omega)
        refine hfork _ hxs ?_
        rw [← hxs, ← List.getElem?_take_of_lt (show fork < n + 1 from by omega), ← htake,
          List.getElem?_take_of_lt (by omega)]
    have hkn : k ≤ n + 1 := by
      have hget := List.getElem?_eq_getElem (show k - 1 < xs.length from by omega)
      have htheirs : theirs[k - 1]? = some xs[k - 1] := by
        rw [← hget, ← List.getElem?_take_of_lt (show k - 1 < fork from by omega), ← hshared,
          List.getElem?_take_of_lt (by omega)]
      exact hjoins.max k hk _ hget (List.mem_of_getElem? htheirs)
    exact ⟨_, n + 1, hsynopsis, hreply, Nat.succ_pos n, hn, by omega⟩

theorem synopsis_finds_fork_sample :
    ∃ n, sampleRound.server.reply [1, 104, 106] 3 = .ok ⟨(sampleChain.drop (n - 1)).take 3, 5 - (n - 1 + 3)⟩ ∧
      n ≤ 5 ∧ 6 - n ≤ 2 := by
  obtain ⟨synopsis, n, hsynopsis, hreply, -, hle, hhalf⟩ := @synopsis_finds_fork _ _ _ _ _ _ _ _ _
    follows_forkedPeer serves_forkedDatabase honest_sampleRound 5 (by decide) (by decide) rfl (by decide)
  obtain rfl : [1, 104, 106] = synopsis := Except.ok.inj hsynopsis
  exact ⟨n, hreply, hle, hhalf⟩

/-! ## The inventory -/

omit [DecidableEq Id] in
theorem Joins.take_eq (h : Joins d path xs theirs n) (hxs : Linked previous xs)
    (htheirs : Linked previous theirs) : xs.take n = theirs.take n := by
  rcases h.same with ⟨rfl, rfl⟩ | hsame
  · rfl
  · have hget := List.getElem?_eq_getElem h.lt
    have htake := hxs.take_eq htheirs (hsame.trans hget) hget
    calc xs.take n = (xs.take (n + 1)).take n := by rw [List.take_take, Nat.min_eq_left n.le_succ]
      _ = (theirs.take (n + 1)).take n := by rw [htake]
      _ = theirs.take n := by rw [List.take_take, Nat.min_eq_left n.le_succ]

/-- What `meet` leaves, before the list is added to the ids to get -/
structure Met (d : Database Id) (ours theirs : List Id) (m : Nat) (peer : Peer Id) (received path : List Id) :
    Prop where
  leads : Leads d ours peer.lastBlockDelegateHasSeen path
  time_eq : peer.lastBlockTimeDelegateHasSeen = d.getBlockTime peer.lastBlockDelegateHasSeen
  append_eq : path ++ (peer.idsOfItemsToGet ++ received) = theirs.take m

theorem Follows.meet_eq (h : Follows previous d ours peer path) (hd : Serves d ours)
    (hr : Honest previous d ours r theirs)
    (hjoins : Joins d path (path ++ peer.idsOfItemsToGet) theirs n) : ∃ peer' received path',
      peer.meet d r.firstItemsOfOthers ((theirs.drop n).take r.limit) = .ok (peer', received) ∧
        peer'.numberOfUnfetchedItemIds = peer.numberOfUnfetchedItemIds ∧
        Met d ours theirs (n + r.limit) peer' received path' := by
  have hlt := hjoins.lt
  have htake := hjoins.take_eq h.linked hr.linked
  have hget : theirs[n]? = some theirs[n] := List.getElem?_eq_getElem hlt
  have hknown := h.leads.known hd
  have hcons : (theirs.drop n).take r.limit = theirs[n] :: (theirs.drop (n + 1)).take (r.limit - 1) := by
    rw [List.drop_eq_getElem_cons hlt, ← Nat.sub_add_cancel hr.limit_pos, List.take_succ_cons, Nat.add_sub_cancel]
  have hall {k : Nat} (hk : k ≤ r.limit) : theirs.take (n + k) ++ ((theirs.drop n).take r.limit).drop k =
      theirs.take (n + r.limit) := by
    rw [List.drop_take, List.drop_drop, ← List.take_add, show n + k + (r.limit - k) = n + r.limit from by omega]
  by_cases hids : peer.idsOfItemsToGet = []
  · -- without ids to get, a block that is unknown is the first one of an empty chain
    have hstart : d.isKnownBlock theirs[n] = false →
        Met d ours theirs (n + r.limit) peer ((theirs.drop n).take r.limit) path := by
      intro hunknown
      rw [hids, List.append_nil] at hjoins
      rcases hjoins.same with ⟨rfl, rfl⟩ | hsame
      · exact ⟨h.leads, h.time_eq, by rw [hids, Nat.zero_add]; rfl⟩
      · rw [hknown.1 _ (List.mem_of_getElem? (hsame.trans hget))] at hunknown
        cases hunknown
    rw [hcons] at hstart ⊢
    unfold Peer.meet
    dsimp only
    rw [if_pos hids]
    by_cases hother : theirs[n] ∈ r.firstItemsOfOthers
    · rw [if_pos hother]
      exact ⟨peer, _, path, rfl, rfl, hstart (hr.unknown _ hother)⟩
    · rw [if_neg hother, ← hcons]
      rw [← hcons] at hstart
      obtain ⟨k, hk, hseen, hnext, heq⟩ := @Serves.popSeen_eq Id d ours peer _ hd ((theirs.drop n).take r.limit)
      rw [heq]
      cases k with
      | zero => exact ⟨peer, _, path, rfl, rfl, hstart (hnext _ (by rw [hcons]; rfl))⟩
      | succ k =>
        rw [List.length_take, List.length_drop] at hk
        have hlast : theirs[n + k]? = some theirs[n + k] := List.getElem?_eq_getElem (by omega)
        have hget' : (((theirs.drop n).take r.limit).take (k + 1)).getLast? = some theirs[n + k] := by
          rw [List.getLast?_eq_getElem?, List.take_take, Nat.min_eq_left (by omega), List.length_take,
            List.length_drop, List.getElem?_take_of_lt (by omega), List.getElem?_drop, ← hlast]
          congr 1
          omega
        have hleads := hr.leads _ _ hlast (hseen _ (List.mem_of_getLast? hget'))
        rw [hget']
        refine ⟨_, _, theirs.take (n + k + 1), rfl, rfl, hleads, rfl, ?_⟩
        show theirs.take (n + k + 1) ++ (peer.idsOfItemsToGet ++ _) = _
        rw [hids, List.nil_append, Nat.add_assoc, hall (by omega)]
  · have hsame : (path ++ peer.idsOfItemsToGet)[n]? = some theirs[n] := by
      rcases hjoins.same with ⟨hnil, -⟩ | hsame
      · exact absurd (List.append_eq_nil_iff.mp hnil).2 hids
      · exact hsame.trans hget
    have hnums {i : Nat} (hi : peer.idsOfItemsToGet[i]? = some theirs[n]) : path.length + i = n := by
      have hi' : (path ++ peer.idsOfItemsToGet)[path.length + i]? = some theirs[n] := by
        rw [List.getElem?_append_right (Nat.le_add_right _ _), Nat.add_sub_cancel_left, hi]
      have heq := (h.num_eq _ _ hi').symm.trans (h.num_eq _ _ hsame)
      omega
    rw [hcons]
    unfold Peer.meet
    dsimp only
    rw [if_neg hids]
    by_cases hpath : n < path.length
    · have hmem : theirs[n] ∈ path :=
        List.mem_of_getElem? ((List.getElem?_append_left hpath).symm.trans hsame)
      have hnot : theirs[n] ∉ peer.idsOfItemsToGet := by
        intro hmem
        obtain ⟨i, hi⟩ := List.mem_iff_getElem?.mp hmem
        have heq := hnums hi
        omega
      rw [if_pos (rdropWhile_ne_of_not_mem hnot), cAssert_of (hknown.1 _ hmem)]
      refine ⟨_, _, theirs.take (n + 1), rfl, rfl, hr.leads n _ hget (hknown.1 _ hmem), rfl, ?_⟩
      rw [← hall hr.limit_pos, hcons]
      rfl
    · have hi : peer.idsOfItemsToGet[n - path.length]? = some theirs[n] := by
        rw [← List.getElem?_append_right (Nat.not_lt.mp hpath), hsame]
      have hlast : theirs[n] ∉ peer.idsOfItemsToGet.drop (n - path.length + 1) := by
        intro hmem
        obtain ⟨i, hi⟩ := List.mem_iff_getElem?.mp hmem
        rw [List.getElem?_drop] at hi
        have heq := hnums hi
        omega
      have hrest : peer.idsOfItemsToGet.take (n - path.length + 1) ≠ [] := by
        rw [List.take_add_one, hi]
        exact List.append_ne_nil_of_right_ne_nil _ (List.cons_ne_nil _ _)
      rw [rdropWhile_ne_of_getElem? hi hlast, if_neg hrest, ← hcons]
      refine ⟨_, _, path, rfl, rfl, h.leads, h.time_eq, ?_⟩
      show path ++ ((peer.idsOfItemsToGet.take (n - path.length + 1)).dropLast ++ _) = _
      have hbase : path ++ peer.idsOfItemsToGet.take (n - path.length) = theirs.take n := by
        rw [← htake, List.take_append, List.take_of_length_le (Nat.not_lt.mp hpath)]
      have hdrop : (peer.idsOfItemsToGet.take (n - path.length + 1)).dropLast =
          peer.idsOfItemsToGet.take (n - path.length) := by
        rw [List.take_add_one, hi]
        exact List.dropLast_concat
      rw [hdrop, ← List.append_assoc, hbase, ← List.take_add]

omit [DecidableEq Id] in
theorem Honest.num_eq (hr : Honest previous d ours r theirs) {x : Id} (hx : theirs[n]? = some x) :
    d.numFromId x = n + 1 :=
  hr.numFromId_eq ▸ hr.serves.num_eq n x hx

omit [DecidableEq Id] in
theorem Joins.isAnswer (h : Joins d path xs theirs n) (hr : Honest previous d ours r theirs) :
    Peer.IsAnswer d (pick xs (synopsisNums d path xs)) ((theirs.drop n).take r.limit) := by
  intro front hfront
  have hget : theirs[n]? = some front := by
    rw [List.head?_take, if_neg (Nat.ne_of_gt hr.limit_pos), List.head?_drop] at hfront
    exact hfront
  have hnum := hr.num_eq hget
  have hfits := hr.fits
  refine ⟨fun e he _ => ?_, ?_⟩
  · have hx := List.mem_zipIdx_iff_getElem?.mp he
    rw [List.getElem?_take] at hx
    split at hx
    · rw [List.getElem?_drop] at hx
      have hlt := (List.getElem?_eq_some_iff.mp hx).1
      rw [hr.num_eq hx, hnum, show u32 (n + 1 + e.2) = n + e.2 + 1 from by unfold u32; omega]
    · cases hx
  · rcases h.same with ⟨rfl, rfl⟩ | hsame
    · rw [if_pos (pick_nil _), hnum]
    · have hxs : xs ≠ [] := by
        rintro rfl
        rw [hget] at hsame
        cases hsame
      have hpick : front ∈ pick xs (synopsisNums d path xs) :=
        List.mem_filterMap.mpr ⟨n + 1, h.mem hxs, hsame.trans hget⟩
      rw [if_neg (List.ne_nil_of_mem hpick)]
      exact hpick

omit [DecidableEq Id] in
theorem Honest.not_implausible (hr : Honest previous d ours r theirs)
    (h : peer.lastBlockTimeDelegateHasSeen + peer.numberOfUnfetchedItemIds ≤ r.now) :
    ¬peer.Implausible r.now := by
  have hfits := hr.now_fits
  unfold Peer.Implausible u32 Peer.minBlockInterval
  omega

/-- What a round leaves: the ids as they were, if there is nothing in common or nothing new, or else the
first ids of the chain of the peer, up to the last one of the answer -/
inductive Outcome (d : Database Id) (theirs : List Id) (limit : Nat) (path xs xs' : List Id) (next : Next) :
    Prop
  | apart : xs' = xs → Apart d path xs theirs → Outcome d theirs limit path xs xs' next
  | upToDate : xs' = xs → next = .upToDate → theirs <+: xs → Outcome d theirs limit path xs xs' next
  | joined {n : Nat} : Joins d path xs theirs n → next ≠ .upToDate → xs' = theirs.take (n + limit) →
      Outcome d theirs limit path xs xs' next

omit [DecidableEq Id] in
theorem Peer.next_goes_on : peer.next ≠ .upToDate ∧ ∀ reason, peer.next ≠ .disconnect reason := by
  unfold Peer.next
  split <;> split <;> simp

section

variable {others requested : List Id} {now : Nat} {message : Inventory Id}

theorem Peer.onInventory_of_done (hanswer : IsAnswer d requested message.itemHashesAvailable)
    (hdone : peer.Done d message) :
    peer.onInventory d others now requested message =
      .ok ({ peer with itemIdsRequestedFromPeer := none, weNeedSyncItemsFromPeer := false }, .upToDate) := by
  unfold Peer.onInventory
  rw [if_neg (not_not_intro hanswer), if_pos hdone]
  rfl

theorem Peer.onInventory_of_meet {peer' : Peer Id} {received : List Id}
    (hanswer : IsAnswer d requested message.itemHashesAvailable) (hnew : ¬peer.Done d message)
    (hmeet : ({ peer with
      itemIdsRequestedFromPeer := none
      numberOfUnfetchedItemIds := message.totalRemainingItemCount } : Peer Id).meet d others
        message.itemHashesAvailable = .ok (peer', received))
    (happart : ∀ front ∈ received.head?, ∀ back ∈ peer'.idsOfItemsToGet.getLast?, front ≠ back)
    (hsensible : ¬peer'.Implausible now) :
    peer.onInventory d others now requested message =
      .ok ({ peer' with idsOfItemsToGet := peer'.idsOfItemsToGet ++ received },
        Peer.next { peer' with idsOfItemsToGet := peer'.idsOfItemsToGet ++ received }) := by
  unfold Peer.onInventory
  rw [if_neg (not_not_intro hanswer), if_neg hnew, hmeet]
  show (cAssert _ _ >>= fun _ => _) = _
  rw [cAssert_of happart]
  show (if peer'.Implausible now then _ else _) = _
  rw [if_neg hsensible]
  rfl

end

variable {m : Nat} {received : List Id}

omit [DecidableEq Id] in
theorem Met.follows (h : Met d ours theirs m peer received path)
    (hr : Honest previous d ours r theirs) :
    Follows previous d ours { peer with idsOfItemsToGet := peer.idsOfItemsToGet ++ received } path where
  leads := h.leads
  linked := h.append_eq ▸ hr.linked.of_prefix (List.take_prefix m theirs)
  num_eq n x hx := by
    rw [h.append_eq, List.getElem?_take] at hx
    split at hx
    · exact hr.num_eq hx
    · cases hx
  fits := by
    have hfits := hr.fits
    rw [h.append_eq, List.length_take]
    omega
  time_eq := h.time_eq

omit [DecidableEq Id] in
theorem Met.apart (h : Met d ours theirs m peer received path)
    (hr : Honest previous d ours r theirs) :
    ∀ front ∈ received.head?, ∀ back ∈ peer.idsOfItemsToGet.getLast?, front ≠ back := by
  rintro front hfront _ hback rfl
  obtain ⟨rest, rfl⟩ := List.head?_eq_some_iff.mp hfront
  obtain ⟨ids, hids⟩ := List.getLast?_eq_some_iff.mp hback
  have hnum := (h.follows hr).num_eq
  have hfirst := hnum (path.length + ids.length) front (by simp [hids])
  have hsecond := hnum (path.length + ids.length + 1) front (by simp [hids, Nat.add_assoc])
  omega

omit [DecidableEq Id] in
theorem Met.sensible (h : Met d ours theirs m peer received path) (hd : Serves d ours)
    (hr : Honest previous d ours r theirs)
    (hnumber : peer.numberOfUnfetchedItemIds = theirs.length - m) : ¬peer.Implausible r.now := by
  apply hr.not_implausible
  rw [h.time_eq, hnumber]
  rcases (h.leads.known hd).2 with ⟨hzero, -⟩ | hmem
  · have hoffers := hr.offers _ (.inl hzero)
    rw [hzero, hd.num_zero] at hoffers
    rw [hzero]
    omega
  · obtain ⟨i, hi⟩ := List.mem_iff_getElem?.mp hmem
    have htake : (theirs.take m)[i]? = some peer.lastBlockDelegateHasSeen := by
      rw [← h.append_eq, List.getElem?_append_left (List.getElem?_eq_some_iff.mp hi).1, hi]
    rw [List.getElem?_take] at htake
    split at htake
    · have hoffers := hr.offers _ (.inr (List.mem_of_getElem? htake))
      rw [hr.num_eq htake] at hoffers
      omega
    · cases htake

theorem Follows.prefix_of_done (h : Follows previous d ours peer path) (hd : Serves d ours)
    (hr : Honest previous d ours r theirs) {n : Nat}
    (hjoins : Joins d path (path ++ peer.idsOfItemsToGet) theirs n)
    (hdone : peer.Done d ⟨(theirs.drop n).take r.limit, theirs.length - (n + r.limit)⟩) :
    theirs <+: path ++ peer.idsOfItemsToGet := by
  obtain ⟨hremaining, hone, hids, -⟩ := hdone
  have hlt := hjoins.lt
  have hget := List.getElem?_eq_getElem hlt
  have hlimit := hr.limit_pos
  dsimp only at hremaining hone
  obtain ⟨hlength, hknown⟩ := hone theirs[n] (by
    rw [List.head?_take, if_neg (Nat.ne_of_gt hlimit), List.head?_drop, hget]
    rfl)
  rw [List.length_take, List.length_drop] at hlength
  rcases hjoins.same with ⟨hnil, -⟩ | hsame
  · have hbounds := hd.num_of_known _ hknown
    rcases (h.leads.known hd).2 with ⟨-, hours⟩ | hmem
    · rw [← hours, (List.append_eq_nil_iff.mp hnil).1, List.length_nil] at hbounds
      omega
    · rw [(List.append_eq_nil_iff.mp hnil).1] at hmem
      cases hmem
  · have htake := h.linked.take_eq hr.linked (hsame.trans hget) hget
    rw [List.take_of_length_le (show theirs.length ≤ n + 1 from by omega)] at htake
    exact htake ▸ List.take_prefix _ _

/-- What one round preserves, whatever chain the peer replies from -/
theorem Follows.round (h : Follows previous d ours peer path) (hd : Serves d ours)
    (hr : Honest previous d ours r theirs) :
    ∃ peer' path' next, r.run d peer = .ok (peer', next) ∧ (∀ reason, next ≠ .disconnect reason) ∧
      Follows previous d ours peer' path' ∧
      Outcome d theirs r.limit path (path ++ peer.idsOfItemsToGet) (path' ++ peer'.idsOfItemsToGet) next := by
  obtain ⟨message, hreply, hmessage⟩ := hr.answer hd (List.prefix_append path _) h.num_eq
  unfold Round.run
  rw [h.synopsis_eq hd]
  show ∃ peer' path' next, (r.server.reply _ _ >>= fun message => _) = _ ∧ _
  rw [hreply]
  show ∃ peer' path' next, Peer.onInventory d _ _ _ _ message = _ ∧ _
  have hpast : d.getBlockTime peer.lastBlockDelegateHasSeen ≤ r.now := by
    rcases h.leads.known hd with ⟨hknown, ⟨hzero, -⟩ | hmem⟩
    · exact hzero ▸ Nat.le_of_add_right_le (hr.offers _ (.inl rfl))
    · exact hr.past _ (hknown _ hmem)
  rcases hmessage with ⟨rfl, hapart⟩ | ⟨n, hjoins, rfl⟩
  · have hanswer : Peer.IsAnswer d (pick (path ++ peer.idsOfItemsToGet)
        (synopsisNums d path (path ++ peer.idsOfItemsToGet))) [] := by
      intro front hfront
      cases hfront
    by_cases hdone : peer.Done d ⟨[], 0⟩
    · exact ⟨_, path, _, Peer.onInventory_of_done hanswer hdone, by simp,
        ⟨h.leads, h.linked, h.num_eq, h.fits, h.time_eq⟩, .apart rfl hapart⟩
    · refine ⟨_, path, _, Peer.onInventory_of_meet hanswer hdone rfl (fun front hfront => by cases hfront)
        (hr.not_implausible (h.time_eq ▸ hpast)), Peer.next_goes_on.2, ?_, .apart (by simp) hapart⟩
      exact ⟨h.leads, by simpa using h.linked, by simpa using h.num_eq, by simpa using h.fits, h.time_eq⟩
  · have hanswer := hjoins.isAnswer hr
    by_cases hdone : peer.Done d ⟨(theirs.drop n).take r.limit, theirs.length - (n + r.limit)⟩
    · exact ⟨_, path, _, Peer.onInventory_of_done hanswer hdone, by simp,
        ⟨h.leads, h.linked, h.num_eq, h.fits, h.time_eq⟩,
        .upToDate rfl rfl (h.prefix_of_done hd hr hjoins hdone)⟩
    · have hasked : Follows previous d ours { peer with
          itemIdsRequestedFromPeer := none
          numberOfUnfetchedItemIds := theirs.length - (n + r.limit) } path :=
        ⟨h.leads, h.linked, h.num_eq, h.fits, h.time_eq⟩
      obtain ⟨peer', received, path', hmeet, hnumber, hmet⟩ := hasked.meet_eq hd hr hjoins
      exact ⟨_, path', _, Peer.onInventory_of_meet hanswer hdone hmeet (hmet.apart hr)
        (hmet.sensible hd hr hnumber), Peer.next_goes_on.2, hmet.follows hr,
        .joined hjoins Peer.next_goes_on.1 hmet.append_eq⟩

/-! ## Runs -/

variable {next : Next}

theorem Next.eq_upToDate (hstops : next.stops = true) (hgood : ∀ reason, next ≠ .disconnect reason) :
    next = .upToDate := by
  cases next with
  | disconnect reason => exact absurd rfl (hgood reason)
  | upToDate => rfl
  | fetchSyncItems => cases hstops
  | fetchNextBatch => cases hstops

variable {xs' : List Id}

omit [DecidableEq Id] in
theorem Outcome.same_or_prefix {limit : Nat} (h : Outcome d theirs limit path xs xs' next) :
    xs' = xs ∨ xs' <+: theirs := by
  cases h with
  | apart hsame _ => exact .inl hsame
  | upToDate hsame _ _ => exact .inl hsame
  | joined _ _ htake => exact .inr (htake ▸ List.take_prefix _ _)

omit [DecidableEq Id] in
theorem Joins.le_add {n : Nat} (h : Joins d path xs theirs n) (hpath : path <+: xs)
    (hshared : xs.take (lowest d path) <+: theirs) (hm : m = lowest d path ∨ xs = theirs.take m) :
    min m theirs.length ≤ n + 1 := by
  by_cases hnil : xs = []
  · rcases hm with rfl | hm
    · subst hnil
      rw [List.prefix_nil.mp hpath, lowest, List.length_nil]
      omega
    · have hzero := congrArg List.length (hm.symm.trans hnil)
      rw [List.length_take, List.length_nil] at hzero
      omega
  obtain ⟨hlow, y, hy⟩ := @lowest_mem_synopsisNums Id d path _ hpath hnil
  rcases hm with rfl | rfl
  · -- the lowest id of the synopsis is one of the peer
    have hpos := (bounds_of_mem_synopsisNums hlow).2.1
    have htake : (xs.take (lowest d path))[lowest d path - 1]? = some y := by
      rw [List.getElem?_take_of_lt (by omega), hy]
    have hle := h.max _ hlow y hy (hshared.subset (List.mem_of_getElem? htake))
    omega
  · -- so is the last one
    have hlast : (theirs.take m).length ∈ synopsisNums d path (theirs.take m) :=
      List.mem_of_getLast? (getLast?_halving (bounds_of_mem_synopsisNums hlow).2.2 (by omega))
    have hpos := (bounds_of_mem_synopsisNums hlast).2.1
    have hget := List.getElem?_eq_getElem (show (theirs.take m).length - 1 < (theirs.take m).length from by omega)
    have hle := h.max _ hlast _ hget (List.mem_of_mem_take (List.mem_of_getElem? hget))
    rw [List.length_take] at hle
    omega

/-- From `xs` to `xs'` along the chain of the peer: by at least one block, where the blocks so far are
those of the peer, and otherwise from where the node can still undo. -/
def Further (d : Database Id) (path xs xs' theirs : List Id) : Prop :=
  ∀ m, (m = lowest d path ∨ xs = theirs.take m) → theirs.take (m + 1) <+: xs'

omit [DecidableEq Id] in
theorem Outcome.further {limit : Nat} (h : Outcome d theirs limit path xs xs' next)
    (hpath : path <+: xs) (hlimit : 2 ≤ limit) (hshared : xs.take (lowest d path) <+: theirs) :
    Further d path xs xs' theirs ∧ (theirs <+: xs' ∨ ∃ m, xs' = theirs.take m) := by
  cases h with
  | apart _ hapart =>
    rw [hapart.eq_nil hpath hshared]
    exact ⟨fun m _ => List.take_nil ▸ List.nil_prefix, .inl List.nil_prefix⟩
  | upToDate hsame _ hpre =>
    subst hsame
    exact ⟨fun m _ => (List.take_prefix _ _).trans hpre, .inl hpre⟩
  | joined hjoins _ htake =>
    refine ⟨fun m hm => ?_, .inr ⟨_, htake⟩⟩
    have hle := hjoins.le_add hpath hshared hm
    rw [htake, List.prefix_take_iff, List.length_take]
    exact ⟨List.take_prefix _ _, by omega⟩

theorem Follows.run (hd : Serves d ours) {chain : Round Id → List Id} {rounds : List (Round Id)}
    (hr : ∀ r ∈ rounds, Honest previous d ours r (chain r)) (h : Follows previous d ours peer path) :
    ∃ peer' path' next, sync d rounds peer = .ok (peer', next) ∧ (∀ reason, next ≠ .disconnect reason) ∧
      Follows previous d ours peer' path' ∧
      (path' ++ peer'.idsOfItemsToGet = path ++ peer.idsOfItemsToGet ∨
        ∃ r ∈ rounds, path' ++ peer'.idsOfItemsToGet <+: chain r) ∧
      ∀ theirs m, (∀ r ∈ rounds, chain r = theirs ∧ 2 ≤ r.limit) →
        (m = 0 ∨ path ++ peer.idsOfItemsToGet = theirs.take m) →
        (path ++ peer.idsOfItemsToGet).take (lowest d path) <+: theirs →
        theirs.take (m + rounds.length) <+: path' ++ peer'.idsOfItemsToGet := by
  induction rounds generalizing peer path with
  | nil =>
    refine ⟨peer, path, _, rfl, by simp, h, .inl rfl, fun theirs m _ hm _ => ?_⟩
    rcases hm with rfl | hm
    · exact List.nil_prefix
    · exact hm ▸ List.prefix_refl _
  | cons r rounds ih =>
    obtain ⟨peer1, path1, next, hrun, hgood, hfollows, houtcome⟩ := h.round hd (hr r List.mem_cons_self)
    unfold Sync.sync
    rw [hrun]
    show ∃ peer' path' next', (if next.stops then _ else Sync.sync d rounds peer1) = _ ∧ _
    by_cases hstops : next.stops = true
    · have hdone : next = .upToDate := Next.eq_upToDate hstops hgood
      rw [if_pos hstops]
      refine ⟨peer1, path1, next, rfl, hgood, hfollows, ?_, fun theirs m hall _ hshared => ?_⟩
      · exact houtcome.same_or_prefix.imp_right fun hpre => ⟨r, List.mem_cons_self, hpre⟩
      · obtain ⟨rfl, -⟩ := hall r List.mem_cons_self
        cases houtcome with
        | apart _ hapart =>
          rw [hapart.eq_nil (List.prefix_append path _) hshared, List.take_nil]
          exact List.nil_prefix
        | upToDate hsame _ hpre => exact hsame ▸ (List.take_prefix _ _).trans hpre
        | joined _ hnot _ => exact absurd hdone hnot
    · rw [if_neg hstops]
      obtain ⟨peer', path', next', hrest, hgood', hfollows', hchain, hfar⟩ :=
        ih (fun r' hr' => hr r' (List.mem_cons_of_mem _ hr')) hfollows
      refine ⟨peer', path', next', hrest, hgood', hfollows', ?_, fun theirs m hall hm hshared => ?_⟩
      · rcases hchain with hsame | ⟨r', hr', hpre⟩
        · exact hsame ▸ houtcome.same_or_prefix.imp_right fun hpre => ⟨r, List.mem_cons_self, hpre⟩
        · exact .inr ⟨r', List.mem_cons_of_mem _ hr', hpre⟩
      · obtain ⟨rfl, hlimit⟩ := hall r List.mem_cons_self
        obtain ⟨hfurther, htakes⟩ := houtcome.further (List.prefix_append path _) hlimit hshared
        have hone : (chain r).take (m + 1) <+: path1 ++ peer1.idsOfItemsToGet := by
          rcases hm with rfl | hm
          · have hpos : 1 ≤ lowest d path := Nat.le_max_left _ _
            refine List.IsPrefix.trans ?_ (hfurther _ (.inl rfl))
            exact List.take_prefix_take_left (by omega)
          · exact hfurther m (.inr hm)
        cases houtcome with
        | apart _ hapart =>
          rw [hapart.eq_nil (List.prefix_append path _) hshared, List.take_nil]
          exact List.nil_prefix
        | upToDate _ hdone _ => exact absurd (hdone ▸ rfl) hstops
        | joined _ _ htake =>
          -- the later rounds count on from where this one ends
          have hlater := hfar (chain r) _ (fun r' hr' => hall r' (List.mem_cons_of_mem _ hr')) (.inr htake)
            (htake ▸ (List.take_prefix _ _).trans (List.take_prefix _ _))
          rw [htake, List.prefix_take_iff, List.length_take] at hone
          refine List.IsPrefix.trans ?_ hlater
          rw [List.prefix_take_iff, List.length_take, List.length_cons]
          exact ⟨List.take_prefix _ _, by omega⟩

/-- What the next round does, when the chain of the peer is the same as the node's up to where the node
can undo -/
theorem Follows.round_further (h : Follows previous d ours peer path) (hd : Serves d ours)
    (hr : Honest previous d ours r theirs) (hlimit : 2 ≤ r.limit)
    (hshared : (path ++ peer.idsOfItemsToGet).take (lowest d path) <+: theirs) :
    ∃ peer' path' next, r.run d peer = .ok (peer', next) ∧ Follows previous d ours peer' path' ∧
      Further d path (path ++ peer.idsOfItemsToGet) (path' ++ peer'.idsOfItemsToGet) theirs ∧
      (theirs <+: path' ++ peer'.idsOfItemsToGet ∨ ∃ m, path' ++ peer'.idsOfItemsToGet = theirs.take m) := by
  obtain ⟨peer', path', next, hrun, -, hfollows, houtcome⟩ := h.round hd hr
  exact ⟨peer', path', next, hrun, hfollows, houtcome.further (List.prefix_append path _) hlimit hshared⟩

/-- Whatever chains an honest peer replies from, one in each round, no assertion fails and the node
never disconnects.  The blocks up to the last one seen, followed by the ids to get, are its own ones
or the first ones of one of these chains.  While the peer's chain is the same as the node's up to
where the node can undo, each round gets further along it by at least a block. -/
theorem sync_follows (hd : Serves d ours) (hlinked : Linked previous ours) (hfits : ours.length + 1 < 2 ^ 32)
    {chain : Round Id → List Id} {rounds : List (Round Id)}
    (hr : ∀ r ∈ rounds, Honest previous d ours r (chain r)) :
    ∃ peer path next, sync d rounds (startSynchronizingWithPeer d) = .ok (peer, next) ∧
      (∀ reason, next ≠ .disconnect reason) ∧ Follows previous d ours peer path ∧
      (path ++ peer.idsOfItemsToGet = ours ∨ ∃ r ∈ rounds, path ++ peer.idsOfItemsToGet <+: chain r) ∧
      (∀ r theirs, Honest previous d ours r theirs → 2 ≤ r.limit →
        (path ++ peer.idsOfItemsToGet).take (lowest d path) <+: theirs →
        ∃ peer' path' next', r.run d peer = .ok (peer', next') ∧ Follows previous d ours peer' path' ∧
          Further d path (path ++ peer.idsOfItemsToGet) (path' ++ peer'.idsOfItemsToGet) theirs ∧
          (theirs <+: path' ++ peer'.idsOfItemsToGet ∨
            ∃ m, path' ++ peer'.idsOfItemsToGet = theirs.take m)) ∧
      ∀ theirs, (∀ r ∈ rounds, chain r = theirs ∧ 2 ≤ r.limit) → ours.take (lowest d ours) <+: theirs →
        theirs.take rounds.length <+: path ++ peer.idsOfItemsToGet := by
  have happend : ours ++ (startSynchronizingWithPeer d).idsOfItemsToGet = ours := List.append_nil ours
  have hstart : Follows previous d ours (startSynchronizingWithPeer d) ours :=
    ⟨.head, happend.symm ▸ hlinked, happend.symm ▸ hd.num_eq, happend.symm ▸ hfits, rfl⟩
  obtain ⟨peer, path, next, hsync, hgood, hfollows, hchain, hfar⟩ := hstart.run hd hr
  rw [happend] at hchain hfar
  refine ⟨peer, path, next, hsync, hgood, hfollows, hchain,
    fun r theirs hr hlimit hshared => hfollows.round_further hd hr hlimit hshared,
    fun theirs hall hshared => ?_⟩
  have hfar := hfar theirs 0 hall (.inl rfl) hshared
  rwa [Nat.zero_add] at hfar

theorem sync_follows_twice :
    (∃ peer path next, sync forkedDatabase [sampleRound, sampleRound]
        (startSynchronizingWithPeer forkedDatabase) = .ok (peer, next) ∧
      (∀ reason, next ≠ .disconnect reason) ∧ sampleChain.take 2 <+: path ++ peer.idsOfItemsToGet) ∧
    ∃ peer path next m, sync forkedDatabase [sampleRound] (startSynchronizingWithPeer forkedDatabase) =
        .ok (peer, next) ∧ path ++ peer.idsOfItemsToGet = sampleChain.take m ∧
      ∃ peer' path' next', sampleRound.run forkedDatabase peer = .ok (peer', next') ∧
        sampleChain.take (m + 1) <+: path' ++ peer'.idsOfItemsToGet := by
  have hours : Linked samplePrevious [1, 2, 3, 4] := linked_of_zipIdx (by decide)
  constructor
  · obtain ⟨peer, path, next, hsync, hgood, -, -, -, hfar⟩ := @sync_follows _ samplePrevious forkedDatabase
      [1, 2, 3, 4] _ serves_forkedDatabase hours (by decide) (fun _ => sampleChain)
      [sampleRound, sampleRound] (by simp [honest_sampleRound])
    exact ⟨peer, path, next, hsync, hgood, hfar sampleChain (by simp [sampleRound]) ⟨_, rfl⟩⟩
  · obtain ⟨peer, path, next, hsync, -, hfollows, hchain, hnext, -⟩ := @sync_follows _ samplePrevious
      forkedDatabase [1, 2, 3, 4] _ serves_forkedDatabase hours (by decide) (fun _ => sampleChain)
      [sampleRound] (by simp [honest_sampleRound])
    -- the node has seen a block of the fork, so that it follows the peer
    have hseen : peer.lastBlockDelegateHasSeen = 103 := by
      have hrun : (sync forkedDatabase [sampleRound] (startSynchronizingWithPeer forkedDatabase)).map
          (·.1.lastBlockDelegateHasSeen) = .ok 103 := by decide
      rw [hsync] at hrun
      exact Except.ok.inj hrun
    have hpre : path ++ peer.idsOfItemsToGet <+: sampleChain := by
      rcases hchain with heq | ⟨_, -, hpre⟩
      · have hmem := (hfollows.leads.known serves_forkedDatabase).2
        rw [hseen] at hmem
        rcases hmem with ⟨hzero, -⟩ | hmem
        · cases hzero
        · have h103 : 103 ∈ [1, 2, 3, 4] := heq ▸ List.mem_append_left _ hmem
          exact absurd h103 (by decide)
      · exact hpre
    obtain ⟨peer', path', next', hrun, -, hfurther, -⟩ := hnext sampleRound sampleChain honest_sampleRound
      (by decide) ((List.take_prefix _ _).trans hpre)
    have htake := List.prefix_iff_eq_take.mp hpre
    exact ⟨peer, path, next, _, hsync, htake, peer', path', next', hrun, hfurther _ (.inr htake)⟩

end Meta1Core.Sync
