import Mathlib.Data.List.DropRight
import Meta1Core.Sync.Synopsis

/-!
# Rounds of block ids (`application.cpp`, `node.cpp`)

To a synopsis the peer answers with the ids of its own chain from the last common block on, at most
so many at once.
-/

namespace Meta1Core.Sync

open Allocation (u32 u32Sub)

variable {Id : Type} [DecidableEq Id]

/-- `blockchain_item_ids_inventory_message` -/
structure Inventory (Id : Type) where
  itemHashesAvailable : List Id
  totalRemainingItemCount : Nat

/-- `peer_is_on_an_unreachable_fork` -/
def peerIsOnAnUnreachableFork : Exception :=
  .fc "Unable to provide a list of blocks starting at any of the blocks in peer's synopsis"

namespace Database

variable (d : Database Id)

/-- The loop over the synopsis in `get_block_ids`, which starts at its end. -/
def lastKnownBlock : List Id → Except Exception Id
  | [] => .error peerIsOnAnUnreachableFork
  | id :: rest => do
    let found ← if id = d.zero then pure true
      else if d.isKnownBlock id then d.isIncludedBlock id else pure false
    if found then return id else lastKnownBlock rest

def blockIdsFrom (limit : Nat) : Nat → Nat → List Id → Except Exception (List Id)
  | 0, _, _ => .error .diverges
  | fuel + 1, num, result => do
    if num ≤ d.headBlockNum ∧ result.length < limit then
      let added ← if 0 < num then List.singleton <$> d.getBlockIdForNum num else pure []
      blockIdsFrom limit fuel (u32 (num + 1)) (result ++ added)
    else return result

def blockIdsAfter (lastKnownBlockId : Id) (limit : Nat) : Except Exception (Inventory Id) := do
  let result ← d.blockIdsFrom limit (d.headBlockNum + 2) (d.numFromId lastKnownBlockId) []
  let remaining := result.getLast?.elim 0 fun id =>
    if d.numFromId id < d.headBlockNum then u32Sub d.headBlockNum (d.numFromId id) else 0
  return ⟨result, remaining⟩

def getBlockIds (blockchainSynopsis : List Id) (limit : Nat) : Except Exception (Inventory Id) :=
  if d.headBlockNum = 0 then .ok ⟨[], 0⟩
  else if blockchainSynopsis = [] ∨ blockchainSynopsis = [d.zero] then d.blockIdsAfter d.zero limit
  else do d.blockIdsAfter (← d.lastKnownBlock blockchainSynopsis.reverse) limit

/-- The reply of `on_fetch_blockchain_item_ids_message` -/
def reply (synopsis : List Id) (limit : Nat) : Except Exception (Inventory Id) :=
  match d.getBlockIds synopsis limit with
  | .ok reply => .ok reply
  | .error e => if e = peerIsOnAnUnreachableFork then .ok ⟨[], 0⟩ else .error e

end Database

/-! ## The inventory message -/

/-- What the node does after an inventory message. -/
inductive Next where
  | disconnect (reason : String)
  | upToDate
  | fetchSyncItems
  | fetchNextBatch
  deriving DecidableEq

def Next.stops : Next → Bool
  | disconnect _ | upToDate => true
  | fetchSyncItems | fetchNextBatch => false

namespace Peer

variable (d : Database Id) (peer : Peer Id)

def see (id : Id) : Peer Id :=
  { peer with lastBlockDelegateHasSeen := id, lastBlockTimeDelegateHasSeen := d.getBlockTime id }

/-- The list is sequential, and builds off one of the blocks that were sent. -/
def IsAnswer (requested available : List Id) : Prop :=
  ∀ front ∈ available.head?,
    (∀ e ∈ available.zipIdx, 0 < e.2 → d.numFromId e.1 = u32 (d.numFromId front + e.2)) ∧
      if requested = [] then d.numFromId front = 1 else front ∈ requested

instance decidableIsAnswer (requested available : List Id) : Decidable (IsAnswer d requested available) :=
  inferInstanceAs (Decidable (∀ front ∈ available.head?, _ ∧ _))

/-- Pop the items that the delegate has already seen. -/
def popSeen (peer : Peer Id) : List Id → Except Exception (Peer Id × List Id)
  | [] => .ok (peer, [])
  | front :: rest =>
    if d.isKnownBlock front then do
      cAssert (front ≠ d.zero) "item_hashes_received.front() != item_hash_t()"
      popSeen (peer.see d front) rest
    else .ok (peer, front :: rest)

/-- What becomes of the list and of the ids to get, before the one is added to the others. -/
def meet (firstItemsOfOthers received : List Id) : Except Exception (Peer Id × List Id) :=
  match received with
  | [] => .ok (peer, [])
  | front :: rest =>
    if peer.idsOfItemsToGet = [] then
      if front ∈ firstItemsOfOthers then .ok (peer, front :: rest) else peer.popSeen d (front :: rest)
    else
      let ids := peer.idsOfItemsToGet.rdropWhile (· ≠ front)
      if ids = [] then do
        cAssert (d.isKnownBlock front = true) "_delegate->has_item(item_hashes_received.front())"
        return ({ peer.see d front with idsOfItemsToGet := [] }, rest)
      else return ({ peer with idsOfItemsToGet := ids.dropLast }, front :: rest)

/-- `GRAPHENE_MIN_BLOCK_INTERVAL` -/
def minBlockInterval : Nat := 1

/-- `GRAPHENE_NET_FUTURE_SYNC_BLOCKS_GRACE_PERIOD_SEC` -/
def futureSyncBlocksGracePeriod : Nat := 60 * 60

/-- `GRAPHENE_NET_MIN_BLOCK_IDS_TO_PREFETCH` -/
def minBlockIdsToPrefetch : Nat := 10000

/-- The last block that was offered would be in the future. -/
def Implausible (now : Nat) : Prop :=
  u32 (now + futureSyncBlocksGracePeriod) <
    u32 (peer.lastBlockTimeDelegateHasSeen + u32 (peer.numberOfUnfetchedItemIds * minBlockInterval))

instance decidableImplausible (now : Nat) : Decidable (peer.Implausible now) :=
  inferInstanceAs (Decidable (_ < _))

def next : Next :=
  if peer.numberOfUnfetchedItemIds ≠ 0 then
    if minBlockIdsToPrefetch < peer.idsOfItemsToGet.length then .fetchSyncItems else .fetchNextBatch
  else if peer.idsOfItemsToGet ≠ [] then .fetchSyncItems else .fetchNextBatch

/-- The peer has no items, or only one that the node has; and none is left to get. -/
def Done (message : Inventory Id) : Prop :=
  message.totalRemainingItemCount = 0 ∧ (∀ front ∈ message.itemHashesAvailable.head?,
    message.itemHashesAvailable.length = 1 ∧ d.isKnownBlock front = true) ∧
    peer.idsOfItemsToGet = [] ∧ peer.numberOfUnfetchedItemIds = 0

instance decidableDone (message : Inventory Id) : Decidable (peer.Done d message) :=
  inferInstanceAs (Decidable (_ ∧ _ ∧ _ ∧ _))

/-- `on_blockchain_item_ids_inventory_message`, for a list that was asked for -/
def onInventory (firstItemsOfOthers : List Id) (now : Nat) (requested : List Id)
    (message : Inventory Id) : Except Exception (Peer Id × Next) := do
  if ¬IsAnswer d requested message.itemHashesAvailable then
    return (peer, .disconnect "You gave an invalid response to my request for sync blocks")
  if peer.Done d message then
    return ({ peer with itemIdsRequestedFromPeer := none, weNeedSyncItemsFromPeer := false }, .upToDate)
  let (peer, received) ← { peer with
    itemIdsRequestedFromPeer := none
    numberOfUnfetchedItemIds := message.totalRemainingItemCount }.meet d firstItemsOfOthers
      message.itemHashesAvailable
  cAssert (∀ front ∈ received.head?, ∀ back ∈ peer.idsOfItemsToGet.getLast?, front ≠ back)
    "item_hashes_received.front() != originating_peer->ids_of_items_to_get.back()"
  if peer.Implausible now then
    return (peer, .disconnect "You offered me a list of more sync blocks than could possibly exist")
  let peer := { peer with idsOfItemsToGet := peer.idsOfItemsToGet ++ received }
  return (peer, peer.next)

end Peer

/-! ## Rounds -/

/-- The peer's database when it replies, and what else decides about the round -/
structure Round (Id : Type) where
  server : Database Id
  limit : Nat := 2000
  firstItemsOfOthers : List Id := []
  now : Nat

def Round.run (d : Database Id) (r : Round Id) (peer : Peer Id) : Except Exception (Peer Id × Next) := do
  let synopsis ← createBlockchainSynopsisForPeer d peer
  let message ← r.server.reply synopsis r.limit
  { peer with itemIdsRequestedFromPeer := some synopsis }.onInventory d r.firstItemsOfOthers r.now
    synopsis message

/-- The state in which `start_synchronizing_with_peer` fetches the first batch -/
def startSynchronizingWithPeer (d : Database Id) : Peer Id where
  lastBlockDelegateHasSeen := d.zero
  lastBlockTimeDelegateHasSeen := d.getBlockTime d.zero

/-- Rounds with a peer, until the node is up to date or disconnects. -/
def sync (d : Database Id) : List (Round Id) → Peer Id → Except Exception (Peer Id × Next)
  | [], peer => .ok (peer, .fetchNextBatch)
  | r :: rounds, peer => do
    let (peer, next) ← r.run d peer
    if next.stops then return (peer, next) else sync d rounds peer

/-! ## The answer to a synopsis -/

section

variable {s : Database Id} {theirs : List Id}

theorem Serves.lastKnownBlock_eq (h : Serves s theirs) {ids : List Id} (hzero : s.zero ∉ ids) :
    s.lastKnownBlock ids =
      (ids.find? (· ∈ theirs)).elim (.error peerIsOnAnUnreachableFork) .ok := by
  induction ids with
  | nil => rfl
  | cons id rest ih =>
    have hne : id ≠ s.zero := fun heq => hzero (heq ▸ List.mem_cons_self)
    have ih := ih fun hmem => hzero (List.mem_cons_of_mem _ hmem)
    unfold Database.lastKnownBlock
    rw [if_neg hne, List.find?_cons]
    by_cases hmem : id ∈ theirs
    · rw [if_pos (h.known id hmem), h.isIncludedBlock_eq (h.known id hmem), decide_eq_true hmem]
      rfl
    · by_cases hknown : s.isKnownBlock id = true
      · rw [if_pos hknown, h.isIncludedBlock_eq hknown, decide_eq_false hmem]
        exact ih
      · rw [if_neg hknown, decide_eq_false hmem]
        exact ih

omit [DecidableEq Id] in
theorem Serves.blockIdsFrom_eq (h : Serves s theirs) (hfits : theirs.length + 1 < 2 ^ 32) {limit : Nat}
    {fuel num : Nat} {result : List Id} (hnum : num ≤ theirs.length + 1)
    (hfuel : theirs.length + 1 < num + fuel) :
    s.blockIdsFrom limit fuel num result =
      .ok (result ++ (theirs.drop (num - 1)).take (limit - result.length)) := by
  induction fuel generalizing num result with
  | zero => omega
  | succ fuel ih =>
    unfold Database.blockIdsFrom
    rw [h.head_eq]
    by_cases hmore : num ≤ theirs.length ∧ result.length < limit
    · rw [if_pos hmore, show u32 (num + 1) = num + 1 from by unfold u32; omega]
      cases num with
      | zero =>
        show s.blockIdsFrom limit fuel 1 (result ++ []) = _
        rw [List.append_nil, ih (by omega) (by omega)]
      | succ k =>
        have hget : theirs[k]? = some theirs[k] := List.getElem?_eq_getElem (by omega)
        rw [if_pos (Nat.succ_pos k), h.stored k _ hget]
        show s.blockIdsFrom limit fuel (k + 1 + 1) (result ++ [theirs[k]]) = _
        have htake : limit - result.length = limit - (result ++ [theirs[k]]).length + 1 := by
          rw [List.length_append, List.length_singleton]
          omega
        rw [ih (by omega) (by omega), htake, Nat.add_sub_cancel, Nat.add_sub_cancel,
          List.drop_eq_getElem_cons (show k < theirs.length from by omega), List.take_succ_cons,
          List.append_assoc]
        rfl
    · rw [if_neg hmore]
      have hnil : (theirs.drop (num - 1)).take (limit - result.length) = [] := by
        rw [← List.length_eq_zero_iff, List.length_take, List.length_drop]
        omega
      rw [hnil, List.append_nil]
      rfl

omit [DecidableEq Id] in
theorem Serves.blockIdsAfter_eq (h : Serves s theirs) (hfits : theirs.length + 1 < 2 ^ 32) {limit : Nat}
    (hlimit : 0 < limit) {last : Id} (hle : s.numFromId last ≤ theirs.length) (hpos : 0 < theirs.length) :
    s.blockIdsAfter last limit = .ok ⟨(theirs.drop (s.numFromId last - 1)).take limit,
      theirs.length - (s.numFromId last - 1 + limit)⟩ := by
  have hlast : ((theirs.drop (s.numFromId last - 1)).take limit).getLast? =
      theirs[min theirs.length (s.numFromId last - 1 + limit) - 1]? := by
    rw [List.getLast?_eq_getElem?, List.getElem?_take, List.length_take, List.length_drop,
      if_pos (by omega), List.getElem?_drop]
    congr 1
    omega
  have hlt : min theirs.length (s.numFromId last - 1 + limit) - 1 < theirs.length := by omega
  have hget := List.getElem?_eq_getElem hlt
  have hremaining : (if min theirs.length (s.numFromId last - 1 + limit) - 1 + 1 < theirs.length then
      u32Sub theirs.length (min theirs.length (s.numFromId last - 1 + limit) - 1 + 1) else 0) =
      theirs.length - (s.numFromId last - 1 + limit) := by
    unfold u32Sub
    split <;> omega
  unfold Database.blockIdsAfter
  rw [h.head_eq, h.blockIdsFrom_eq hfits (by omega) (by omega)]
  simp only [bind, Except.bind, List.nil_append, List.length_nil, Nat.sub_zero, hlast, hget,
    Option.elim_some, h.num_eq _ _ hget, hremaining]
  rfl

/-- The answer is part of the server's chain, from the last common entry of the synopsis on. -/
theorem Serves.reply_eq (h : Serves s theirs) (hfits : theirs.length + 1 < 2 ^ 32) {limit : Nat}
    (hlimit : 0 < limit) {synopsis : List Id} (hzero : s.zero ∉ synopsis) :
    s.reply synopsis limit = .ok ((synopsis.reverse.find? (· ∈ theirs)).elim
      (if synopsis = [] then ⟨theirs.take limit, theirs.length - limit⟩ else ⟨[], 0⟩)
      fun id => ⟨(theirs.drop (s.numFromId id - 1)).take limit,
        theirs.length - (s.numFromId id - 1 + limit)⟩) := by
  unfold Database.reply Database.getBlockIds
  by_cases hnil : theirs = []
  · subst hnil
    rw [h.head_eq, if_pos List.length_nil, List.find?_eq_none.mpr (fun _ _ => by simp)]
    simp
  have hpos : 0 < theirs.length := List.length_pos_iff.mpr hnil
  rw [if_neg (show s.headBlockNum ≠ 0 from by rw [h.head_eq]; omega)]
  by_cases hsynopsis : synopsis = []
  · subst hsynopsis
    rw [if_pos (Or.inl rfl), h.blockIdsAfter_eq hfits hlimit (by rw [h.num_zero]; omega) hpos, h.num_zero]
    simp
  · have hother : ¬(synopsis = [] ∨ synopsis = [s.zero]) := by
      rintro (hemp | hone)
      · exact hsynopsis hemp
      · exact hzero (hone ▸ List.mem_singleton_self _)
    rw [if_neg hother, h.lastKnownBlock_eq (fun hmem => hzero (List.mem_reverse.mp hmem)), if_neg hsynopsis]
    cases hfind : synopsis.reverse.find? (· ∈ theirs) with
    | none => rfl
    | some last =>
      have hmem : last ∈ theirs := by simpa using List.find?_some hfind
      have hle := (h.num_of_known last (h.known last hmem)).2
      show (match s.blockIdsAfter last limit with | .ok reply => _ | .error e => _) = _
      rw [h.blockIdsAfter_eq hfits hlimit hle hpos]
      rfl

end

end Meta1Core.Sync
