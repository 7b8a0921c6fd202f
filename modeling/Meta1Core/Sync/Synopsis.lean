import Meta1Core.Allocation.Time
import Meta1Core.Lib.Halving

/-!
# Synopses of block chains (`application.cpp`, `node.cpp`)

A node that syncs with a peer sends a synopsis, the ids of a few blocks that get denser towards the
end, and the peer answers with what comes after the last of them that it has on its own chain.
-/

namespace Meta1Core.Sync

open Lib

open Allocation (u32 u32Sub)

/-- What the application asks of `_chain_db` -/
structure Database (Id : Type) where
  headBlockNum : Nat
  lastNonUndoableBlockNum : Nat
  getBlockIdForNum : Nat → Except Exception Id
  isKnownBlock : Id → Bool
  getBlockTime : Id → Nat
  getBlockIdsOnFork : Id → Except Exception (List Id)
  numFromId : Id → Nat
  zero : Id

variable {Id : Type} [DecidableEq Id]

namespace Database

variable (d : Database Id)

def isIncludedBlock (id : Id) : Except Exception Bool := do
  let inPreferredChain ← d.getBlockIdForNum (d.numFromId id)
  return decide (id = inPreferredChain)

/-- What `get_blockchain_synopsis` finds out about its reference point -/
structure Reference (Id : Type) where
  low : Nat
  nonForkHigh : Nat
  high : Nat
  forkHistory : List Id

def reference (referencePoint : Id) : Except Exception (Reference Id) := do
  let low := d.lastNonUndoableBlockNum
  if referencePoint = d.zero then
    return ⟨low, d.headBlockNum, d.headBlockNum, []⟩
  else if ← d.isIncludedBlock referencePoint then
    let num := d.numFromId referencePoint
    cAssert (0 < num) "reference_point_block_num > 0"
    return ⟨if num < low then num else low, num, num, []⟩
  else
    let history ← d.getBlockIdsOnFork referencePoint
    cAssert (2 ≤ history.length) "fork_history.size() >= 2"
    cAssert (history.head? = some referencePoint) "fork_history.front() == reference_point"
    let nonForkHigh ←
      match history.getLast? with
      | some lastNonForkBlock =>
        pure (if lastNonForkBlock = d.zero then 0 else d.numFromId lastNonForkBlock)
      | none => .error .undefined
    let forkHistory := history.dropLast.reverse
    let high := u32 (nonForkHigh + forkHistory.length)
    cAssert (forkHistory.getLast?.map d.numFromId = some high)
      "high_block_num == block_header::num_from_id(fork_history.back())"
    fcAssert (low ≤ nonForkHigh) "Peer is are on a fork I'm unable to switch to"
    return ⟨low, nonForkHigh, high, forkHistory⟩

/-- `low_block_num += (true_high_block_num - low_block_num + 2) / 2` -/
def nextLow (trueHigh low : Nat) : Nat := u32 (low + u32 (u32Sub trueHigh low + 2) / 2)

/-- The id that a round adds: of the main chain, or of the fork history. -/
def blockIdAt (r : Reference Id) (low : Nat) : Except Exception Id :=
  if low ≤ r.nonForkHigh then d.getBlockIdForNum low
  else
    match r.forkHistory[u32Sub (u32Sub low r.nonForkHigh) 1]? with
    | some id => .ok id
    | none => .error .undefined

/-- The loop of `get_blockchain_synopsis`; `low` grows in every round. -/
def summarize (r : Reference Id) (trueHigh : Nat) : Nat → Nat → Except Exception (List Id)
  | 0, _ => .error .diverges
  | fuel + 1, low => do
    let id ← d.blockIdAt r low
    let next := nextLow trueHigh low
    if next ≤ r.high then return id :: (← summarize r trueHigh fuel next) else return [id]

def getBlockchainSynopsis (referencePoint : Id) (numberOfBlocksAfterReferencePoint : Nat) :
    Except Exception (List Id) := do
  let r ← d.reference referencePoint
  if referencePoint = d.zero ∧ r.high = 0 then return []
  let low := if r.low = 0 then 1 else r.low
  d.summarize r (u32 (r.high + numberOfBlocksAfterReferencePoint)) (r.high + 1) low

end Database

/-- What a `peer_connection` remembers of the synchronization with its peer -/
structure Peer (Id : Type) where
  lastBlockDelegateHasSeen : Id
  lastBlockTimeDelegateHasSeen : Nat
  idsOfItemsToGet : List Id := []
  numberOfUnfetchedItemIds : Nat := 0
  weNeedSyncItemsFromPeer : Bool := true
  itemIdsRequestedFromPeer : Option (List Id) := none

variable (d : Database Id)

/-- What a round adds: nothing, or one of the ids to get, whose numbers begin with `first`. -/
def idToGetAt (ids : List Id) (first low : Nat) : Except Exception (List Id) :=
  if first ≤ low then
    match ids[u32Sub low first]? with
    | some id => .ok [id]
    | none => .error .undefined
  else .ok []

/-- The loop of `create_blockchain_synopsis_for_peer` -/
def summarizeIds (ids : List Id) (first trueHigh : Nat) : Nat → Nat → Except Exception (List Id)
  | 0, _ => .error .diverges
  | fuel + 1, low => do
    let added ← idToGetAt ids first low
    let next := Database.nextLow trueHigh low
    if next ≤ trueHigh then return added ++ (← summarizeIds ids first trueHigh fuel next)
    else return added

def createBlockchainSynopsisForPeer (peer : Peer Id) : Except Exception (List Id) := do
  let ids := peer.idsOfItemsToGet
  let synopsis ← d.getBlockchainSynopsis peer.lastBlockDelegateHasSeen (u32 ids.length)
  match ids.head? with
  | none => return synopsis
  | some front =>
    let first := d.numFromId front
    let trueHigh := u32Sub (u32 (first + ids.length)) 1
    let low := synopsis.head?.elim 1 d.numFromId
    let synopsis := synopsis ++ (← summarizeIds ids first trueHigh (first + ids.length) low)
    cAssert (synopsis.getLast? = ids.getLast?) "synopsis.back() == original_ids_of_items_to_get.back()"
    return synopsis

/-- The chain database has a preferred chain with these ids, the first block first.  It knows no block
above its head block. -/
structure Serves (d : Database Id) (chain : List Id) : Prop where
  head_eq : d.headBlockNum = chain.length
  undoable_le : d.lastNonUndoableBlockNum ≤ chain.length
  stored : ∀ n id, chain[n]? = some id → d.getBlockIdForNum (n + 1) = .ok id
  num_eq : ∀ n id, chain[n]? = some id → d.numFromId id = n + 1
  known : ∀ id ∈ chain, d.isKnownBlock id = true
  num_of_known : ∀ id, d.isKnownBlock id = true → 0 < d.numFromId id ∧ d.numFromId id ≤ chain.length
  num_zero : d.numFromId d.zero = 0

/-- The ids of the chain up to a reference point: of the preferred chain if there is none, of a part
of it, or of a fork -/
inductive Leads (d : Database Id) (chain : List Id) : Id → List Id → Prop where
  | head : Leads d chain d.zero chain
  | included {n : Nat} {id : Id} : chain[n]? = some id → Leads d chain id (chain.take (n + 1))
  | fork {n : Nat} {id ancestor : Id} {fork : List Id} :
      id ∉ chain → (∀ x ∈ fork, d.isKnownBlock x = true) → fork.getLast? = some id → n ≤ chain.length →
      d.getBlockIdsOnFork id = .ok (fork.reverse ++ [ancestor]) →
      (if n = 0 then ancestor = d.zero else chain[n - 1]? = some ancestor) →
      (∀ i x, fork[i]? = some x → d.numFromId x = n + i + 1) → d.lastNonUndoableBlockNum ≤ n →
      Leads d chain id (chain.take n ++ fork)

def pick (ids : List Id) (nums : List Nat) : List Id := nums.filterMap fun n => ids[n - 1]?

variable {d : Database Id} {chain path ids : List Id} {low trueHigh fuel fuel' : Nat}

theorem nextLow_eq (hlow : 0 < low) (hle : low ≤ trueHigh) (hfits : trueHigh + 1 < 2 ^ 32) :
    Database.nextLow trueHigh low = low + (trueHigh - low + 2) / 2 := by
  unfold Database.nextLow u32 u32Sub
  omega

variable {n : Nat} {id : Id} {nums : List Nat}

omit [DecidableEq Id] in
theorem pick_cons (h : ids[n - 1]? = some id) : pick ids (n :: nums) = id :: pick ids nums := by
  unfold pick
  rw [List.filterMap_cons, h]

omit [DecidableEq Id] in
theorem pick_append (ids : List Id) (xs ys : List Nat) :
    pick ids (xs ++ ys) = pick ids xs ++ pick ids ys := List.filterMap_append

/-- The reference describes a chain with these ids. -/
structure Reads (d : Database Id) (r : Database.Reference Id) (path : List Id) : Prop where
  high_eq : r.high = path.length
  blockIdAt_eq : ∀ n id, path[n]? = some id → d.blockIdAt r (n + 1) = .ok id

variable {r : Database.Reference Id}

omit [DecidableEq Id] in
theorem Reads.summarize (h : Reads d r path) (hlow : 0 < low) (hle : low ≤ path.length)
    (htrue : path.length ≤ trueHigh) (hfits : trueHigh + 1 < 2 ^ 32)
    (hfuel : path.length < low + fuel) (hfuel' : trueHigh < low + fuel') :
    d.summarize r trueHigh fuel low =
      .ok (pick path ((halving trueHigh fuel' low).filter (· ≤ path.length))) := by
  induction fuel generalizing low fuel' with
  | zero => omega
  | succ fuel ih =>
    obtain ⟨fuel', rfl⟩ : ∃ k, fuel' = k + 1 := ⟨fuel' - 1, by omega⟩
    obtain ⟨n, rfl⟩ : ∃ n, low = n + 1 := ⟨low - 1, by omega⟩
    have hget : path[n]? = some path[n] := List.getElem?_eq_getElem (by omega)
    have hnext := nextLow_eq hlow (Nat.le_trans hle htrue) hfits
    rw [halving_of_le (Nat.le_trans hle htrue), List.filter_cons, if_pos (decide_eq_true hle),
      pick_cons hget, Database.summarize, h.blockIdAt_eq n _ hget, hnext, h.high_eq]
    show (if n + 1 + (trueHigh - (n + 1) + 2) / 2 ≤ path.length then _ else _) = _
    by_cases hmore : n + 1 + (trueHigh - (n + 1) + 2) / 2 ≤ path.length
    · rw [if_pos hmore, @ih _ fuel' (Nat.lt_of_lt_of_le hlow (Nat.le_add_right _ _)) hmore
        (by omega) (by omega)]
      rfl
    · have hnone : (halving trueHigh fuel' (n + 1 + (trueHigh - (n + 1) + 2) / 2)).filter
          (· ≤ path.length) = [] := by
        rw [List.filter_eq_nil_iff]
        intro m hm hmle
        have hbounds := bounds_of_mem_halving hm
        have hmle := of_decide_eq_true hmle
        omega
      rw [if_neg hmore, hnone]
      rfl

omit [DecidableEq Id] in
theorem summarizeIds_eq {first : Nat} (hfirst : first = path.length + 1) (hlow : 0 < low)
    (hle : low ≤ (path ++ ids).length) (hfits : (path ++ ids).length + 1 < 2 ^ 32)
    (hfuel : (path ++ ids).length < low + fuel) :
    summarizeIds ids first (path ++ ids).length fuel low =
      .ok (pick (path ++ ids) ((halving (path ++ ids).length fuel low).filter
        (path.length < ·))) := by
  induction fuel generalizing low with
  | zero => omega
  | succ fuel ih =>
    obtain ⟨n, rfl⟩ : ∃ n, low = n + 1 := ⟨low - 1, by omega⟩
    have hget : (path ++ ids)[n]? = some (path ++ ids)[n] := List.getElem?_eq_getElem (by omega)
    have hadded : idToGetAt ids first (n + 1) =
        .ok (pick (path ++ ids) ([n + 1].filter (path.length < ·))) := by
      unfold idToGetAt
      rw [List.filter_cons, List.filter_nil]
      by_cases hge : first ≤ n + 1
      · rw [if_pos hge, show u32Sub (n + 1) first = n - path.length from by unfold u32Sub; omega,
          ← List.getElem?_append_right (by omega), hget, if_pos (decide_eq_true (by omega)),
          pick_cons hget]
        rfl
      · rw [if_neg hge, if_neg (by simpa using (by omega))]
        rfl
    have hcons (nums : List Nat) : pick (path ++ ids) (((n + 1) :: nums).filter (path.length < ·)) =
        pick (path ++ ids) ([n + 1].filter (path.length < ·)) ++
          pick (path ++ ids) (nums.filter (path.length < ·)) := by
      rw [← pick_append, ← List.filter_append]
      rfl
    rw [halving_of_le hle, hcons, summarizeIds, hadded, nextLow_eq hlow hle hfits]
    show (if n + 1 + ((path ++ ids).length - (n + 1) + 2) / 2 ≤ (path ++ ids).length then _ else _) = _
    by_cases hmore : n + 1 + ((path ++ ids).length - (n + 1) + 2) / 2 ≤ (path ++ ids).length
    · rw [if_pos hmore, ih (Nat.lt_of_lt_of_le hlow (Nat.le_add_right _ _)) hmore (by omega)]
      rfl
    · rw [if_neg hmore, halving_of_lt (Nat.lt_of_not_le hmore)]
      exact congrArg Except.ok (List.append_nil _).symm

theorem Serves.isIncludedBlock_eq (h : Serves d chain) (hknown : d.isKnownBlock id = true) :
    d.isIncludedBlock id = .ok (decide (id ∈ chain)) := by
  obtain ⟨hpos, hle⟩ := h.num_of_known id hknown
  obtain ⟨n, hn⟩ : ∃ n, d.numFromId id = n + 1 := ⟨d.numFromId id - 1, by omega⟩
  have hget : chain[n]? = some chain[n] := List.getElem?_eq_getElem (by omega)
  unfold Database.isIncludedBlock
  rw [hn, h.stored n _ hget]
  show Except.ok (decide (id = chain[n])) = _
  refine congrArg Except.ok (decide_eq_decide.mpr ⟨fun heq => heq ▸ List.getElem_mem _, fun hmem => ?_⟩)
  obtain ⟨m, hm⟩ := List.mem_iff_getElem?.mp hmem
  have hnum := h.num_eq m id hm
  obtain rfl : m = n := by omega
  exact Option.some.inj (hm.symm.trans hget)

omit [DecidableEq Id] in
theorem Serves.blockIdAt_eq (h : Serves d chain) (hn : chain[n]? = some id)
    (hle : n < r.nonForkHigh) : d.blockIdAt r (n + 1) = .ok id := by
  unfold Database.blockIdAt
  rw [if_pos (show n + 1 ≤ r.nonForkHigh from hle), h.stored n id hn]

theorem Serves.exists_reference (h : Serves d chain) (hleads : Leads d chain id path)
    (hfits : path.length < 2 ^ 32) : ∃ r, d.reference id = .ok r ∧ Reads d r path ∧
      r.low = min d.lastNonUndoableBlockNum path.length ∧ (id ≠ d.zero → path ≠ []) := by
  cases hleads with
  | head =>
    refine ⟨⟨d.lastNonUndoableBlockNum, d.headBlockNum, d.headBlockNum, []⟩, ?_, ⟨h.head_eq, ?_⟩,
      (Nat.min_eq_left h.undoable_le).symm, fun hne => absurd rfl hne⟩
    · unfold Database.reference
      rw [if_pos rfl]
      rfl
    · intro n x hn
      have hlt := (List.getElem?_eq_some_iff.mp hn).1
      exact h.blockIdAt_eq hn (h.head_eq.symm ▸ hlt)
  | @included n _ hget =>
    have hlt := (List.getElem?_eq_some_iff.mp hget).1
    have hmem : id ∈ chain := List.mem_of_getElem? hget
    have hnum := h.num_eq n id hget
    have hzero : id ≠ d.zero := by
      rintro rfl
      have hnum_zero := h.num_zero
      omega
    have hlength : (chain.take (n + 1)).length = n + 1 := by
      rw [List.length_take]
      omega
    have hmin : (if d.numFromId id < d.lastNonUndoableBlockNum then d.numFromId id
        else d.lastNonUndoableBlockNum) = min d.lastNonUndoableBlockNum (n + 1) := by
      split <;> omega
    refine ⟨⟨min d.lastNonUndoableBlockNum (n + 1), n + 1, n + 1, []⟩, ?_, ⟨hlength.symm, ?_⟩,
      hlength.symm ▸ rfl, fun _ hnil => ?_⟩
    · unfold Database.reference
      rw [if_neg hzero, h.isIncludedBlock_eq (h.known id hmem), decide_eq_true hmem]
      show (cAssert (0 < d.numFromId id) _ >>= fun _ => _) = _
      rw [cAssert_of (by omega)]
      show Except.ok _ = _
      rw [hmin, hnum]
    · intro m x hm
      rw [List.getElem?_take] at hm
      split at hm
      · rename_i hlt'
        exact h.blockIdAt_eq hm hlt'
      · cases hm
    · rw [hnil] at hlength
      cases hlength
  | @fork n _ ancestor fork hnot hknown hlast hn hids hancestor hnum hlow =>
    have hknown := hknown id (List.mem_of_getLast? hlast)
    have hzero : id ≠ d.zero := by
      rintro rfl
      have hpos := (h.num_of_known _ hknown).1
      have hnum_zero := h.num_zero
      omega
    obtain ⟨rest, hfork⟩ := List.getLast?_eq_some_iff.mp hlast
    have hpos : 0 < fork.length := by rw [hfork, List.length_append]; exact Nat.succ_pos _
    have hlength : (chain.take n ++ fork).length = n + fork.length := by
      rw [List.length_append, List.length_take, Nat.min_eq_left hn]
    have hancestor_num : (if ancestor = d.zero then 0 else d.numFromId ancestor) = n := by
      split at hancestor
      · rename_i hn0
        rw [if_pos hancestor, hn0]
      · have hnum' := h.num_eq _ _ hancestor
        have hnum_zero := h.num_zero
        rw [if_neg (by rintro rfl; omega), hnum']
        omega
    have hlast_num : d.numFromId id = n + fork.length := by
      have hget : fork[fork.length - 1]? = some id := by rw [← List.getLast?_eq_getElem?, hlast]
      rw [hnum _ _ hget]
      omega
    refine ⟨⟨d.lastNonUndoableBlockNum, n, n + fork.length, fork⟩, ?_, ⟨hlength.symm, ?_⟩, ?_,
      fun _ hnil => ?_⟩
    · unfold Database.reference
      rw [if_neg hzero, h.isIncludedBlock_eq hknown, decide_eq_false hnot, hids]
      have htwo : 2 ≤ (fork.reverse ++ [ancestor]).length := by
        rw [List.length_append, List.length_reverse]
        exact Nat.succ_le_succ hpos
      have hfront : (fork.reverse ++ [ancestor]).head? = some id := by
        rw [List.head?_append, List.head?_reverse, hlast]
        rfl
      show (cAssert _ _ >>= fun _ => _) = _
      rw [cAssert_of htwo]
      show (cAssert _ _ >>= fun _ => _) = _
      rw [cAssert_of hfront, List.getLast?_concat, List.dropLast_concat, List.reverse_reverse]
      show (cAssert _ _ >>= fun _ => fcAssert _ _ >>= fun _ => Except.ok (Database.Reference.mk _ _ _ _)) = _
      rw [hancestor_num, hlast, show u32 (n + fork.length) = n + fork.length from by unfold u32; omega,
        cAssert_of (by rw [Option.map_some, hlast_num])]
      show (fcAssert _ _ >>= fun _ => _) = _
      rw [fcAssert, if_pos hlow]
      rfl
    · intro m x hm
      by_cases hlt : m < n
      · rw [List.getElem?_append_left (by rw [List.length_take]; omega), List.getElem?_take,
          if_pos hlt] at hm
        exact h.blockIdAt_eq hm hlt
      · rw [List.getElem?_append_right (by rw [List.length_take]; omega), List.length_take,
          Nat.min_eq_left hn] at hm
        have hlt' := (List.getElem?_eq_some_iff.mp hm).1
        unfold Database.blockIdAt
        rw [if_neg (show ¬m + 1 ≤ n from by omega)]
        dsimp only
        rw [show u32Sub (u32Sub (m + 1) n) 1 = m - n from by unfold u32Sub; omega, hm]
    · rw [hlength]
      exact (Nat.min_eq_left (Nat.le_trans hlow (Nat.le_add_right _ _))).symm
    · rw [hnil] at hlength
      exact absurd hlength (by simp only [List.length_nil]; omega)

/-! ## The whole synopsis -/

/-- The number that a synopsis begins with -/
def lowest (d : Database Id) (path : List Id) : Nat :=
  max 1 (min d.lastNonUndoableBlockNum path.length)

omit [DecidableEq Id] in
theorem pick_append_left (ids : List Id) (h : ∀ n ∈ nums, 0 < n ∧ n ≤ path.length) :
    pick path nums = pick (path ++ ids) nums := by
  unfold pick
  refine List.filterMap_congr fun n hn => ?_
  have hbounds := h n hn
  rw [List.getElem?_append_left (by omega)]

omit [DecidableEq Id] in
theorem getLast?_pick (hlast : nums.getLast? = some n) (hn : ids[n - 1]? = some id) :
    (pick ids nums).getLast? = some id := by
  obtain ⟨rest, rfl⟩ := List.getLast?_eq_some_iff.mp hlast
  rw [pick_append, pick_cons hn]
  exact List.getLast?_concat

theorem Serves.synopsis_eq (h : Serves d chain) (hleads : Leads d chain id path) {after : Nat}
    (hfits : path.length + after + 1 < 2 ^ 32) :
    d.getBlockchainSynopsis id after = .ok (pick path ((halving (path.length + after)
      (path.length + after + 1) (lowest d path)).filter (· ≤ path.length))) := by
  obtain ⟨r, hr, hreads, hlow, hne⟩ := h.exists_reference hleads (by omega)
  have hone : (if r.low = 0 then 1 else r.low) = lowest d path := by
    unfold lowest
    rw [hlow]
    split <;> omega
  unfold Database.getBlockchainSynopsis
  rw [hr]
  show (if id = d.zero ∧ r.high = 0 then _ else _) = _
  rw [hreads.high_eq, hone]
  by_cases hnil : path.length = 0
  · have hzero : id = d.zero := by
      by_contra hid
      exact hne hid (List.length_eq_zero_iff.mp hnil)
    rw [if_pos ⟨hzero, hnil⟩, List.filter_eq_nil_iff.mpr]
    · rfl
    · intro n hn hle
      have hbounds := bounds_of_mem_halving hn
      have hle := of_decide_eq_true hle
      unfold lowest at hbounds
      omega
  · rw [if_neg fun hand => hnil hand.2]
    show d.summarize r (u32 (path.length + after)) (path.length + 1) (lowest d path) = _
    have hle : lowest d path ≤ path.length := by
      unfold lowest
      omega
    have hpos : 0 < lowest d path := by
      unfold lowest
      omega
    rw [show u32 (path.length + after) = path.length + after from by unfold u32; omega]
    exact hreads.summarize hpos hle (Nat.le_add_right _ _) hfits (by omega) (by omega)

omit [DecidableEq Id] in
theorem Leads.num_eq (h : Serves d chain) (hleads : Leads d chain id path) {x : Id}
    (hx : path[n]? = some x) : d.numFromId x = n + 1 := by
  cases hleads with
  | head => exact h.num_eq n x hx
  | included hget =>
    rw [List.getElem?_take] at hx
    split at hx
    · exact h.num_eq n x hx
    · cases hx
  | @fork m _ ancestor fork hnot hknown hlast hm hids hancestor hnum hlow =>
    by_cases hlt : n < m
    · rw [List.getElem?_append_left (by rw [List.length_take]; omega), List.getElem?_take,
        if_pos hlt] at hx
      exact h.num_eq n x hx
    · rw [List.getElem?_append_right (by rw [List.length_take]; omega), List.length_take,
        Nat.min_eq_left hm] at hx
      rw [hnum _ _ hx]
      omega

omit [DecidableEq Id] in
theorem Leads.num_head_pick (h : Serves d chain) (hleads : Leads d chain id path) (hfuel : 0 < fuel)
    (hle : lowest d path ≤ trueHigh) :
    (pick (path ++ ids) ((halving trueHigh fuel (lowest d path)).filter
      (· ≤ path.length))).head?.elim 1 d.numFromId = lowest d path := by
  obtain ⟨fuel, rfl⟩ : ∃ k, fuel = k + 1 := ⟨fuel - 1, by omega⟩
  by_cases hnil : path.length = 0
  · have hone : lowest d path = 1 := by
      unfold lowest
      omega
    rw [List.filter_eq_nil_iff.mpr fun n hn hle => ?_, hone]
    · rfl
    · have hbounds := bounds_of_mem_halving hn
      have hle := of_decide_eq_true hle
      omega
  · have hlow : 0 < lowest d path ∧ lowest d path ≤ path.length := by
      unfold lowest
      omega
    have hget : path[lowest d path - 1]? = some path[lowest d path - 1] :=
      List.getElem?_eq_getElem (by omega)
    have hget' : (path ++ ids)[lowest d path - 1]? = some path[lowest d path - 1] :=
      (List.getElem?_append_left (by omega)).trans hget
    rw [halving_of_le hle, List.filter_cons, if_pos (decide_eq_true hlow.2), pick_cons hget']
    show d.numFromId _ = _
    rw [hleads.num_eq h hget]
    omega

theorem Serves.createBlockchainSynopsisForPeer_eq (h : Serves d chain) {peer : Peer Id}
    (hleads : Leads d chain peer.lastBlockDelegateHasSeen path)
    (hnum : ∀ i x, peer.idsOfItemsToGet[i]? = some x → d.numFromId x = path.length + i + 1)
    (hfits : (path ++ peer.idsOfItemsToGet).length + 1 < 2 ^ 32) :
    createBlockchainSynopsisForPeer d peer = .ok (pick (path ++ peer.idsOfItemsToGet)
      (halving (path ++ peer.idsOfItemsToGet).length
        ((path ++ peer.idsOfItemsToGet).length + 1) (lowest d path))) := by
  obtain ⟨seen, _, ids, _, _, _⟩ := peer
  dsimp only at hleads hnum hfits ⊢
  have hlength : (path ++ ids).length = path.length + ids.length := List.length_append
  have hsynopsis := h.synopsis_eq hleads (hlength ▸ hfits)
  rw [← hlength] at hsynopsis
  have hlow : 0 < lowest d path := Nat.lt_of_lt_of_le Nat.one_pos (Nat.le_max_left _ _)
  have hmem : ∀ n ∈ (halving (path ++ ids).length ((path ++ ids).length + 1)
      (lowest d path)).filter (· ≤ path.length), 0 < n ∧ n ≤ path.length := by
    intro n hn
    obtain ⟨hn, hle⟩ := List.mem_filter.mp hn
    exact ⟨Nat.lt_of_lt_of_le hlow (bounds_of_mem_halving hn).1, of_decide_eq_true hle⟩
  rw [pick_append_left ids hmem] at hsynopsis
  have hsplit := filter_le_append_filter_lt
    (@pairwise_halving (path ++ ids).length ((path ++ ids).length + 1) (lowest d path)) path.length
  unfold createBlockchainSynopsisForPeer
  dsimp only
  rw [show u32 ids.length = ids.length from by unfold u32; omega, hsynopsis]
  cases ids with
  | nil =>
    rw [List.append_nil] at hsplit ⊢
    have hall : (halving path.length (path.length + 1) (lowest d path)).filter (path.length < ·) =
        [] := by
      rw [List.filter_eq_nil_iff]
      intro n hn hlt
      have hbounds := bounds_of_mem_halving hn
      have hlt := of_decide_eq_true hlt
      omega
    rw [hall, List.append_nil] at hsplit
    rw [hsplit]
    rfl
  | cons front rest =>
    have hfirst : d.numFromId front = path.length + 1 := hnum 0 front rfl
    have htrue : u32Sub (u32 ((path ++ front :: rest).length + 1)) 1 = (path ++ front :: rest).length := by
      unfold u32 u32Sub
      omega
    have hle : lowest d path ≤ (path ++ front :: rest).length := by
      rw [hlength, List.length_cons]
      unfold lowest
      omega
    have hadded : summarizeIds (front :: rest) (path.length + 1) (path ++ front :: rest).length
        ((path ++ front :: rest).length + 1) (lowest d path) =
        .ok (pick (path ++ front :: rest) ((halving (path ++ front :: rest).length
          ((path ++ front :: rest).length + 1) (lowest d path)).filter (path.length < ·))) :=
      summarizeIds_eq rfl hlow hle hfits (by omega)
    have hlast : (pick (path ++ front :: rest) (halving (path ++ front :: rest).length
        ((path ++ front :: rest).length + 1) (lowest d path))).getLast? = (front :: rest).getLast? := by
      have hpos : (path ++ front :: rest).length - 1 < (path ++ front :: rest).length := by
        rw [hlength, List.length_cons]
        omega
      have hget := List.getElem?_eq_getElem hpos
      rw [getLast?_pick (Lib.getLast?_halving hle (by omega)) hget, ← hget,
        ← List.getLast?_eq_getElem?, List.getLast?_append_of_ne_nil _ (List.cons_ne_nil _ _)]
    have hfuel : path.length + 1 + (front :: rest).length = (path ++ front :: rest).length + 1 := by
      omega
    simp only [bind, Except.bind, List.head?_cons, hfirst, hfuel, htrue,
      hleads.num_head_pick h (Nat.succ_pos _) hle, hadded, ← pick_append, hsplit, cAssert_of hlast]
    rfl

/-- What the application and the network code put together is one synopsis of at most 32 ids, of the
chain up to the last block that was seen followed by the ids to get; wherever the chain of the peer
leaves that one, an id is not much further down. -/
theorem synopsis_seamless (h : Serves d chain) {peer : Peer Id}
    (hleads : Leads d chain peer.lastBlockDelegateHasSeen path)
    (hnum : ∀ i x, peer.idsOfItemsToGet[i]? = some x → d.numFromId x = path.length + i + 1)
    (hfits : (path ++ peer.idsOfItemsToGet).length + 1 < 2 ^ 32) :
    ∃ nums, createBlockchainSynopsisForPeer d peer = .ok (pick (path ++ peer.idsOfItemsToGet) nums) ∧
      nums.Pairwise (· < ·) ∧ nums.length ≤ 32 ∧
      (∀ n ∈ nums, lowest d path ≤ n ∧ n ≤ (path ++ peer.idsOfItemsToGet).length) ∧
      (lowest d path ≤ (path ++ peer.idsOfItemsToGet).length →
        nums.getLast? = some (path ++ peer.idsOfItemsToGet).length) ∧
      ∀ fork, lowest d path ≤ fork → fork ≤ (path ++ peer.idsOfItemsToGet).length →
        ∃ n ∈ nums, n ≤ fork ∧ (path ++ peer.idsOfItemsToGet).length - n ≤
          2 * ((path ++ peer.idsOfItemsToGet).length - fork) := by
  have hlow : 0 < lowest d path := Nat.lt_of_lt_of_le Nat.one_pos (Nat.le_max_left _ _)
  refine ⟨_, h.createBlockchainSynopsisForPeer_eq hleads hnum hfits, pairwise_halving,
    length_halving_le (by omega), fun n hn => bounds_of_mem_halving hn,
    fun hle => Lib.getLast?_halving hle (by omega), fun fork hle hfork => ?_⟩
  obtain ⟨n, hn, hnfork, hhalf, -⟩ := exists_halving_le hle hfork
    (Nat.lt_of_lt_of_le (Nat.lt_succ_self _) (Nat.le_add_left _ (lowest d path)))
  exact ⟨n, hn, hnfork, hhalf⟩

/-- A block's number is what its id ends with; a fork leaves the chain after block 2. -/
def sampleDatabase (chain fork : List Nat) : Database Nat where
  headBlockNum := chain.length
  lastNonUndoableBlockNum := 1
  getBlockIdForNum n := (chain[n - 1]?).elim (.error (.fc "Unable to find Object")) .ok
  isKnownBlock id := (chain ++ fork).contains id
  getBlockTime id := id % 100
  getBlockIdsOnFork id := .ok ((fork.filter (· ≤ id)).reverse ++ [2])
  numFromId id := id % 100
  zero := 0

omit [DecidableEq Id] in
theorem forall_getElem? {P : Nat → Id → Prop} (h : ∀ e ∈ ids.zipIdx, P e.2 e.1) (n : Nat) (x : Id)
    (hx : ids[n]? = some x) : P n x :=
  h (x, n) (List.mem_zipIdx_iff_getElem?.mpr hx)

theorem serves_sampleDatabase {chain fork : List Nat} (hpos : 1 ≤ chain.length)
    (hnum : ∀ e ∈ chain.zipIdx, e.1 % 100 = e.2 + 1)
    (hknown : ∀ id ∈ chain ++ fork, 0 < id % 100 ∧ id % 100 ≤ chain.length) :
    Serves (sampleDatabase chain fork) chain where
  head_eq := rfl
  undoable_le := hpos
  stored _ _ hget := congrArg (Option.elim · _ _) hget
  num_eq := forall_getElem? hnum
  known _ hid := List.contains_iff_mem.mpr (List.mem_append_left fork hid)
  num_of_known id hid := hknown id (List.contains_iff_mem.mp hid)
  num_zero := rfl

def forkedDatabase : Database Nat := sampleDatabase [1, 2, 3, 4] [103, 104]

theorem serves_forkedDatabase : Serves forkedDatabase [1, 2, 3, 4] :=
  serves_sampleDatabase (by decide) (by decide) (by decide)

theorem leads_forkedDatabase : Leads forkedDatabase [1, 2, 3, 4] 104 [1, 2, 103, 104] :=
  @Leads.fork _ _ _ 2 104 2 [103, 104] (by decide) (by decide) rfl (by decide) rfl rfl
    (forall_getElem? (by decide)) (by decide)

def forkedPeer : Peer Nat where
  lastBlockDelegateHasSeen := 104
  lastBlockTimeDelegateHasSeen := 4
  idsOfItemsToGet := [105, 106]

theorem synopsis_seamless_fork :
    createBlockchainSynopsisForPeer forkedDatabase forkedPeer = .ok [1, 104, 106] ∧
      ∃ nums, [1, 104, 106] = pick [1, 2, 103, 104, 105, 106] nums ∧ nums.length ≤ 32 := by
  obtain ⟨nums, heq, -, hlength, -⟩ := @synopsis_seamless _ _ _ _ _ serves_forkedDatabase forkedPeer
    leads_forkedDatabase (forall_getElem? (by decide)) (by decide)
  have hsynopsis : createBlockchainSynopsisForPeer forkedDatabase forkedPeer = .ok [1, 104, 106] := rfl
  exact ⟨hsynopsis, nums, Except.ok.inj (hsynopsis.symm.trans heq), hlength⟩

end Meta1Core.Sync
