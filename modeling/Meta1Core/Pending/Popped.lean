import Meta1Core.Blocks.Switch
import Meta1Core.Pending.Database

/-!
# The transactions of popped blocks

A push takes the head down to a block below the old and the new fork, and up again.  Whatever it
takes back on the way, of the old fork or of a new one that does not apply, is popped.
-/

namespace Meta1Core.Pending

open Blocks (ForkDatabase ForkItem)
open Transactions (ChainRules Skip State of_applyBlock of_applyBlockWith)

variable {σ Id Block TrxId Trx : Type} {R : ChainRules σ Id Block TrxId Trx} {Result Key : Type}

/-- The blocks follow each other from one id to another, the oldest first. -/
inductive Segment (R : ChainRules σ Id Block TrxId Trx) (base : Id) : List Block → Id → Prop
  | nil : Segment R base [] base
  | snoc {blocks : List Block} {id : Id} {b : Block} :
      Segment R base blocks id → R.previous b = id → Segment R base (blocks ++ [b]) (R.id b)

namespace Segment

variable {base mid top : Id} {lower upper : List Block}

theorem singleton {b : Block} (h : R.previous b = base) : Segment R base [b] (R.id b) :=
  .snoc .nil h

theorem append (h : Segment R base lower mid) (h' : Segment R mid upper top) :
    Segment R base (lower ++ upper) top := by
  induction h' with
  | nil =>
    rw [List.append_nil]
    exact h
  | snoc _ hprevious ih =>
    rw [← List.append_assoc]
    exact .snoc ih hprevious

theorem base_or_lower (h : Segment R base upper top) {b : Block} (hid : R.id b = top) :
    top = base ∨ ∃ lower, Segment R base lower (R.previous b) := by
  cases h with
  | nil => exact .inl rfl
  | @snoc blocks _ _ hlower hprevious =>
    refine .inr ⟨blocks, ?_⟩
    rw [R.previous_eq_of_id_eq _ _ hid, hprevious]
    exact hlower

theorem eq_of_nil (h : Segment R base [] top) : top = base := by
  generalize hblocks : ([] : List Block) = blocks at h
  cases h with
  | nil => rfl
  | snoc _ _ => cases List.append_ne_nil_of_right_ne_nil _ (List.cons_ne_nil _ _) hblocks.symm

theorem of_singleton {b : Block} (h : Segment R base [b] top) :
    R.previous b = base ∧ R.id b = top := by
  generalize hblocks : [b] = blocks at h
  cases h with
  | nil => cases hblocks
  | @snoc blocks id c hlower hprevious =>
    have hsingle : [] ++ [b] = blocks ++ [c] := hblocks
    obtain ⟨hnil, hlast⟩ := List.append_inj' hsingle rfl
    subst hnil
    cases hlast
    exact ⟨hprevious.trans hlower.eq_of_nil, rfl⟩

end Segment

variable [DecidableEq Id] [DecidableEq TrxId] {L : Rules R Result Key}

/-- The blocks that led to a state from the genesis, the newest first, with the states before them.
Each was applied under the flags of its own call. -/
inductive LedTo (L : Rules R Result Key) : List Block → State R → List (State R) → Prop
  | genesis : LedTo L [] (.genesis R) []
  | block {chain : List Block} {s s' : State R} {states : List (State R)} {b : Block}
      (skip : Skip) :
      LedTo L chain s states → Transactions.applyBlock R L.checkpoints skip s b = .ok s' →
      LedTo L (b :: chain) s' (s :: states)

def InChain (L : Rules R Result Key) (s : State R) (id : TrxId) : Prop :=
  ∃ chain states, LedTo L chain s states ∧ ∃ b ∈ chain, id ∈ (R.transactions b).map R.trxId

namespace LedTo

variable {chain : List Block} {s : State R} {states : List (State R)}

theorem recorded (h : LedTo L chain s states) :
    ∀ t ∈ s.recorded.rows, ∃ b ∈ chain, t ∈ R.transactions b := by
  induction h with
  | genesis =>
    intro t ht
    cases ht
  | @block chain s s' states b skip _ happly ih =>
    intro t ht
    obtain ⟨skip', happly', -, -⟩ := of_applyBlock happly
    have happlied := of_applyBlockWith happly'
    rcases ((happlied.recorded t).mp ht).1 with ⟨-, hnew⟩ | hold
    · exact ⟨b, List.mem_cons_self, hnew⟩
    · obtain ⟨b', hb', ht'⟩ := ih t hold
      exact ⟨b', List.mem_cons_of_mem _ hb', ht'⟩

theorem inChain (h : LedTo L chain s states) {id : TrxId} (hknown : s.knows id) :
    InChain L s id := by
  obtain ⟨t, ht, rfl⟩ := hknown
  obtain ⟨b, hb, hmem⟩ := h.recorded t ht
  exact ⟨chain, states, h, b, hb, List.mem_map_of_mem hmem⟩

theorem pop {before : State R} (h : LedTo L chain s (before :: states)) :
    ∃ b chain', R.id b = s.view.headId ∧ R.previous b = before.view.headId ∧
      LedTo L chain' before states := by
  cases h with
  | block skip h' happly =>
    obtain ⟨hprevious, hid, -⟩ := headId_of_applyBlock happly
    exact ⟨_, _, hid.symm, hprevious, h'⟩

end LedTo

def Led (L : Rules R Result Key) (n : Blocks.Node (State R) Block) : Prop :=
  ∃ chain states, LedTo L chain n.state states ∧ n.undo <+: states

namespace Led

variable {n n' : Blocks.Node (State R) Block}

theorem start : Led L (.start (L.logic {})) := ⟨[], [], .genesis, List.nil_prefix⟩

theorem of_undo (h : Led L n) (hstate : n'.state = n.state) (hundo : n'.undo <+: n.undo) :
    Led L n' := by
  obtain ⟨chain, states, hled, hprefix⟩ := h
  refine ⟨chain, states, ?_, hundo.trans hprefix⟩
  rw [hstate]
  exact hled

theorem inChain (h : Led L n) {id : TrxId} (hknown : n.state.knows id) : InChain L n.state id := by
  obtain ⟨chain, states, hled, -⟩ := h
  exact hled.inChain hknown

theorem applyBlock (h : Led L n) {skip : Skip} {b : Block} {state : State R}
    (happly : Transactions.applyBlock R L.checkpoints skip n.state b = .ok state)
    (hstate : n'.state = state) (hundo : n'.undo = n.state :: n.undo.take n.undoMax) : Led L n' := by
  obtain ⟨chain, states, hled, hprefix⟩ := h
  refine ⟨b :: chain, n.state :: states, ?_, ?_⟩
  · rw [hstate]
    exact .block skip hled happly
  · rw [hundo]
    exact (List.prefix_cons_inj _).mpr ((List.take_prefix _ _).trans hprefix)

theorem pop (h : Led L n) {before : State R} {undo : List (State R)}
    (hundo : n.undo = before :: undo) (hstate : n'.state = before) (hundo' : n'.undo = undo) :
    Led L n' ∧ ∀ b, R.id b = n.state.view.headId → R.previous b = before.view.headId := by
  obtain ⟨chain, states, hled, rest, hprefix⟩ := h
  rw [hundo, List.cons_append] at hprefix
  subst hprefix
  obtain ⟨b, chain', hid, hprevious, hled'⟩ := hled.pop
  constructor
  · refine ⟨chain', undo ++ rest, ?_, rest, ?_⟩
    · rw [hstate]
      exact hled'
    · rw [hundo']
  · intro b' hid'
    rw [R.previous_eq_of_id_eq b' b (hid'.trans hid.symm)]
    exact hprevious

end Led

structure Ascends (L : Rules R Result Key) (s s' : Db R Result) (blocks : List Block) : Prop where
  led : Led L s'.node
  segment : Segment R s.node.state.view.headId blocks s'.node.state.view.headId
  popped : s'.popped = s.popped
  pending : s'.pending = s.pending
  session : s.session = none → s'.session = none

structure Descends (L : Rules R Result Key) (s s' : Db R Result) (blocks : List Block) : Prop where
  led : Led L s'.node
  history : s'.node.state :: s'.node.undo <:+ s.node.state :: s.node.undo
  segment : Segment R s'.node.state.view.headId blocks s.node.state.view.headId
  popped : s'.popped = blocks.flatMap R.transactions ++ s.popped
  pending : s'.pending = s.pending
  session : s.session = none → s'.session = none

variable {s s' s1 : Db R Result}

theorem Ascends.refl (h : Led L s.node) (hled : s'.node.state = s.node.state)
    (hundo : s'.node.undo <+: s.node.undo) (hpopped : s'.popped = s.popped)
    (hpending : s'.pending = s.pending) (hsession : s'.session = s.session) : Ascends L s s' [] where
  led := h.of_undo hled hundo
  segment := hled ▸ .nil
  popped := hpopped
  pending := hpending
  session hnone := hsession.trans hnone

theorem Descends.refl (h : Led L s.node) : Descends L s s [] :=
  ⟨h, List.suffix_refl _, .nil, rfl, rfl, fun hnone => hnone⟩

theorem Ascends.trans {lower upper : List Block} (h : Ascends L s s1 lower)
    (h' : Ascends L s1 s' upper) : Ascends L s s' (lower ++ upper) where
  led := h'.led
  segment := h.segment.append h'.segment
  popped := h'.popped.trans h.popped
  pending := h'.pending.trans h.pending
  session hnone := h'.session (h.session hnone)

theorem Descends.trans {upper lower : List Block} (h : Descends L s s1 upper)
    (h' : Descends L s1 s' lower) : Descends L s s' (lower ++ upper) where
  led := h'.led
  history := h'.history.trans h.history
  segment := h'.segment.append h.segment
  popped := by rw [h'.popped, h.popped, List.flatMap_append, List.append_assoc]
  pending := h'.pending.trans h.pending
  session hnone := h'.session (h.session hnone)

namespace Db

variable {skip : Skip} {b : Block} {held : List (ForkItem Block)}

theorem applyBlock_ascends {applied : Bool} (happly : s.applyBlock L skip b = (s', applied))
    (h : Led L s.node) :
    Ascends L s s' (if applied then [b] else []) ∧
      if applied then Transactions.applyBlock R L.checkpoints skip s.node.state b = .ok s'.node.state
      else ∃ e, Transactions.applyBlock R L.checkpoints skip s.node.state b = .error e := by
  unfold Db.applyBlock at happly
  cases hresult : Transactions.applyBlock R L.checkpoints skip s.node.state b with
  | ok state =>
    have hsome : (L.logic skip).apply s.node.state b = some state := toOption_eq_some.mpr hresult
    obtain ⟨node, heq, hstate, hundo, -⟩ := Blocks.applyBlock_of_some hsome
    rw [heq] at happly
    cases happly
    obtain ⟨hprevious, hid, -⟩ := headId_of_applyBlock hresult
    refine ⟨⟨h.applyBlock hresult hstate hundo, ?_, rfl, rfl, fun hnone => hnone⟩, ?_⟩
    · show Segment R _ [b] node.state.view.headId
      rw [hstate, hid]
      exact .singleton hprevious
    · exact congrArg Except.ok hstate.symm
  | error e =>
    have hnone : (L.logic skip).apply s.node.state b = none := by
      show (Transactions.applyBlock R L.checkpoints skip s.node.state b).toOption = none
      rw [hresult]
      rfl
    obtain ⟨node, heq, hstate, hundo, -⟩ := Blocks.applyBlock_of_none hnone
    rw [heq] at happly
    cases happly
    refine ⟨.refl h hstate ?_ rfl rfl rfl, e, rfl⟩
    show node.undo <+: s.node.undo
    rw [hundo]
    exact List.take_prefix _ _

variable {r : Option Exception}

theorem node_popBlock {node : Blocks.Node (State R) Block}
    (hpop : s.node.popBlock (L.logic skip) held = (node, r)) :
    (∃ e, r = some e ∧ node.state = s.node.state ∧ node.undo = s.node.undo) ∨
    ∃ item undo, r = none ∧ s.headItem = some item ∧ R.id item.data = s.node.state.view.headId ∧
      s.node.undo = node.state :: undo ∧ node.undo = undo := by
  unfold Blocks.Node.popBlock at hpop
  unfold headItem
  cases hhead : s.node.fork.head with
  | none =>
    rw [hhead] at hpop
    cases hpop
    exact .inl ⟨_, rfl, rfl, rfl⟩
  | some head =>
    rw [hhead] at hpop
    dsimp only at hpop ⊢
    split at hpop
    · cases hpop
      exact .inl ⟨_, rfl, rfl, rfl⟩
    · rename_i fork hfork
      have hitem : ∃ item, (if R.id head.data = s.node.state.view.headId then some head
          else s.node.fork.fetchBlock R.toBlockIds s.node.state.view.headId) = some item ∧
          R.id item.data = s.node.state.view.headId := by
        by_cases hid : R.id head.data = s.node.state.view.headId
        · rw [if_pos hid]
          exact ⟨head, rfl, hid⟩
        · rw [if_neg hid]
          rw [if_neg (show ¬(L.logic skip).id head.data = (L.logic skip).headId s.node.state from hid)]
            at hfork
          cases hfound : s.node.fork.fetchBlock R.toBlockIds s.node.state.view.headId with
          | none =>
            rw [show s.node.fork.fetchBlock (L.logic skip).toBlockIds
              ((L.logic skip).headId s.node.state) = none from hfound] at hfork
            cases hfork
          | some item => exact ⟨item, rfl, (ForkDatabase.fetchBlock_eq_some hfound).2⟩
      split at hpop
      · cases hpop
        exact .inl ⟨_, rfl, rfl, rfl⟩
      · rename_i state undo hundo
        cases hpop
        obtain ⟨item, hitem, hid⟩ := hitem
        exact .inr ⟨item, undo, rfl, hitem, hid, hundo, rfl⟩

theorem popBlock_descends (h : Led L s.node) (hpop : s.popBlock L skip held = (s', r)) :
    (r ≠ none ∧ Descends L s s' []) ∨ ∃ b, r = none ∧ Descends L s s' [b] := by
  unfold Db.popBlock at hpop
  cases hnode : s.node.popBlock (L.logic skip) held with
  | mk node r' =>
    rw [hnode] at hpop
    rcases node_popBlock hnode with ⟨e, rfl, hstate, hundo⟩ | ⟨item, undo, rfl, hitem, hid, hundo, hundo'⟩
    · cases hpop
      refine .inl ⟨Option.some_ne_none e, h.of_undo hstate (hundo ▸ List.prefix_refl _), ?_, ?_, rfl,
        rfl, fun _ => rfl⟩
      · show node.state :: node.undo <:+ _
        exact congrArg₂ List.cons hstate hundo ▸ List.suffix_refl _
      · show Segment R node.state.view.headId [] _
        rw [hstate]
        exact .nil
    · cases hpop
      obtain ⟨hled, hprevious⟩ := h.pop hundo rfl hundo'
      refine .inr ⟨item.data, rfl, hled, ?_, ?_, ?_, rfl, fun _ => rfl⟩
      · show node.state :: node.undo <:+ _
        rw [hundo, hundo']
        exact List.suffix_cons _ _
      · show Segment R node.state.view.headId [item.data] s.node.state.view.headId
        rw [← hid]
        exact .singleton (hprevious item.data hid)
      · show s.headItem.elim [] (fun item => R.transactions item.data) ++ s.popped = _
        rw [hitem]
        simp

theorem popUntil_descends {target : Id} {fuel : Nat}
    (hpop : s.popUntil L skip held target fuel = (s', r)) (h : Led L s.node) :
    (∃ blocks, Descends L s s' blocks) ∧ (r = none → s'.node.state.view.headId = target) ∧
      ∀ upper, Segment R target upper s.node.state.view.headId →
        ∃ lower, Segment R target lower s'.node.state.view.headId := by
  induction fuel generalizing s with
  | zero =>
    cases hpop
    exact ⟨⟨[], .refl h⟩, nofun, fun upper hupper => ⟨upper, hupper⟩⟩
  | succ fuel ih =>
    rw [popUntil] at hpop
    by_cases hne : s.node.state.view.headId ≠ target
    · rw [if_pos hne] at hpop
      cases hstep : s.popBlock L skip held with
      | mk s1 r1 =>
        rw [hstep] at hpop
        rcases popBlock_descends h hstep with ⟨hthrows, hdown⟩ | ⟨b, rfl, hdown⟩
        · cases r1 with
          | none => exact absurd rfl hthrows
          | some e =>
            cases hpop
            refine ⟨⟨[], hdown⟩, nofun, fun upper hupper => ⟨upper, ?_⟩⟩
            rw [← hdown.segment.eq_of_nil]
            exact hupper
        · obtain ⟨⟨blocks, hdown'⟩, htarget, habove⟩ := ih hpop hdown.led
          refine ⟨⟨blocks ++ [b], hdown.trans hdown'⟩, htarget, fun upper hupper => ?_⟩
          obtain ⟨hprevious, hid⟩ := hdown.segment.of_singleton
          rcases hupper.base_or_lower hid with heq | ⟨lower, hlower⟩
          · exact absurd heq hne
          · rw [hprevious] at hlower
            exact habove lower hlower
    · rw [if_neg hne] at hpop
      cases hpop
      exact ⟨⟨[], .refl h⟩, fun _ => not_not.mp hne, fun upper hupper => ⟨upper, hupper⟩⟩

theorem restoreBranch_ascends {items : List (ForkItem Block)} (h : Led L s.node)
    (hrestore : s.restoreBranch L skip items = (s', r)) :
    ∃ blocks, Ascends L s s' blocks := by
  induction items generalizing s with
  | nil =>
    cases hrestore
    exact ⟨[], .refl h rfl (List.prefix_refl _) rfl rfl rfl⟩
  | cons item rest ih =>
    rw [restoreBranch] at hrestore
    cases happly : s.applyBlock L skip item.data with
    | mk s1 applied =>
      rw [happly] at hrestore
      have hup := (applyBlock_ascends happly h).1
      cases applied with
      | true =>
        obtain ⟨blocks, hup'⟩ := ih hup.led hrestore
        exact ⟨_, hup.trans hup'⟩
      | false =>
        cases hrestore
        exact ⟨_, hup⟩

end Db

/-- The switch of forks that a push of a block gets to: the database with the block in its fork
database, the new and the old fork, the newest items first, and the block below both -/
def forkSwitch (s : Db R Result) (b : Block) :
    Option (Db R Result × List (ForkItem Block) × List (ForkItem Block) × Id) :=
  match s.node.fork.pushBlock R.toBlockIds b with
  | .error _ => none
  | .ok (fork, newHead) =>
    if R.previous newHead.data ≠ s.node.state.view.headId ∧
        s.node.state.view.headNum < R.blockNum newHead.data then
      match fork.fetchBranchFrom R.toBlockIds (R.id newHead.data) s.node.state.view.headId with
      | .error _ => none
      | .ok (firsts, seconds) => seconds.getLast?.map fun back =>
          ({ s with node := { s.node with fork } }, firsts, seconds, R.previous back.data)
    else none

/-- The blocks of a new fork from its base up to `top` are popped when the next one does not apply: all
of them, and then the old fork is restored as far as it applies, unless a pop throws. -/
def TakenBack (R : ChainRules σ Id Block TrxId Trx) (base top new : Id) (newer : List Block) : Prop :=
  ∃ mid lower, Segment R base lower mid ∧ Segment R mid newer top ∧
    (new = mid ∨ mid = base ∧ ∃ upper, Segment R base upper new)

/-- The blocks that a push pops, the oldest first, when it leaves the head block in the state `v'` -/
inductive PoppedBlocks (L : Rules R Result Key) (skip : Skip) (s : Db R Result) (b : Block)
    (v' : State R) : List Block → Prop
  | none {upper : List Block} :
      forkSwitch s b = none → Segment R s.node.state.view.headId upper v'.view.headId →
      PoppedBlocks L skip s b v' []
  /-- A pop of the old fork throws. -/
  | stopped {t : Db R Result} {firsts seconds : List (ForkItem Block)} {base : Id}
      {older : List Block} :
      forkSwitch s b = some (t, firsts, seconds, base) →
      (t.popUntil L skip (firsts ++ seconds) base (t.node.undo.length + 1)).2 ≠ .none →
      Segment R v'.view.headId older s.node.state.view.headId →
      PoppedBlocks L skip s b v' older
  /-- The new fork applies. -/
  | switched {t : Db R Result} {firsts seconds : List (ForkItem Block)} {base : Id}
      {older : List Block} {v : State R} :
      forkSwitch s b = some (t, firsts, seconds, base) →
      Segment R base older s.node.state.view.headId →
      v ∈ s.node.state :: s.node.undo → v.view.headId = base →
      Lib.run (Transactions.applyBlock R L.checkpoints skip) v
        (firsts.reverse.map ForkItem.data) = .ok v' →
      PoppedBlocks L skip s b v' older
  /-- A block of the new fork does not apply after those before it. -/
  | failed {t : Db R Result} {firsts seconds : List (ForkItem Block)} {base : Id}
      {older newer done rest : List Block} {bad : Block} {v top : State R} {e : Exception} :
      forkSwitch s b = some (t, firsts, seconds, base) →
      Segment R base older s.node.state.view.headId →
      v ∈ s.node.state :: s.node.undo → v.view.headId = base →
      firsts.reverse.map ForkItem.data = done ++ bad :: rest →
      Lib.run (Transactions.applyBlock R L.checkpoints skip) v done = .ok top →
      Transactions.applyBlock R L.checkpoints skip top bad = .error e →
      TakenBack R base top.view.headId v'.view.headId newer →
      PoppedBlocks L skip s b v' (newer ++ older)

structure Moved (L : Rules R Result Key) (skip : Skip) (b : Block) (s s' : Db R Result) : Prop where
  led : Led L s'.node
  popped : ∃ blocks, PoppedBlocks L skip s b s'.node.state blocks ∧
    s'.popped = blocks.flatMap R.transactions ++ s.popped
  pending : s'.pending = s.pending
  session : s.session = none → s'.session = none

theorem Ascends.moved {blocks : List Block} {skip : Skip} {b : Block} (h : Ascends L s s' blocks)
    (hswitch : forkSwitch s b = none) : Moved L skip b s s' where
  led := h.led
  popped := ⟨[], .none hswitch h.segment, h.popped⟩
  pending := h.pending
  session := h.session

namespace Db

variable {skip : Skip} {b : Block} {firsts seconds items : List (ForkItem Block)}
  {front : ForkItem Block} {base : Id}

/-- What a switch back leaves, with the blocks of the new fork that it pops -/
structure Back (L : Rules R Result Key) (base top : Id) (s s' : Db R Result) (newer : List Block) :
    Prop where
  led : Led L s'.node
  taken : TakenBack R base top s'.node.state.view.headId newer
  popped : s'.popped = newer.flatMap R.transactions ++ s.popped
  pending : s'.pending = s.pending
  session : s.session = none → s'.session = none

theorem switchBack_back {e : Exception} {done : List Block} (h : Led L s.node)
    (hdone : Segment R base done s.node.state.view.headId)
    (hback : s.switchBack L skip firsts seconds items front base = (s', e)) :
    ∃ newer, Back L base s.node.state.view.headId s s' newer := by
  unfold switchBack at hback
  dsimp only at hback
  split at hback
  · -- a pop throws, with some of the new fork's blocks left
    rename_i s1 e1 hpop
    cases hback
    obtain ⟨⟨newer, hdown⟩, -, habove⟩ := popUntil_descends hpop (h.of_undo rfl (List.prefix_refl _))
    obtain ⟨lower, hlower⟩ := habove done hdone
    exact ⟨newer, hdown.led, ⟨_, lower, hlower, hdown.segment, .inl rfl⟩, hdown.popped, hdown.pending,
      hdown.session⟩
  · -- the old fork is applied again, up to a block that throws
    rename_i s1 hpop
    obtain ⟨⟨newer, hdown⟩, htarget, -⟩ := popUntil_descends hpop (h.of_undo rfl (List.prefix_refl _))
    have hbase := htarget rfl
    have hrestored : ∃ blocks, Ascends L s1 s' blocks := by
      split at hback
      · rename_i s2 e2 hrestore
        cases hback
        exact restoreBranch_ascends hdown.led hrestore
      · rename_i s2 hrestore
        cases hback
        exact restoreBranch_ascends hdown.led hrestore
    obtain ⟨blocks, hup⟩ := hrestored
    have hupper := hup.segment
    have hnewer := hdown.segment
    rw [hbase] at hupper hnewer
    exact ⟨newer, hup.led, ⟨base, [], .nil, hnewer, .inr ⟨rfl, blocks, hupper⟩⟩,
      hup.popped.trans hdown.popped, hup.pending.trans hdown.pending,
      fun hnone => hup.session (hdown.session hnone)⟩

variable {r : Except Exception Bool}

/-- The new fork applies on top of the base, or a block of it does not and the switch is taken back.
The induction is on the blocks to do; those done lie between the base and the head. -/
theorem pushBranch_cases {done : List Block} (h : Led L s.node)
    (hdone : Segment R base done s.node.state.view.headId)
    (hpush : s.pushBranch L skip firsts seconds front base items = (s', r)) :
    (Lib.run (Transactions.applyBlock R L.checkpoints skip) s.node.state (items.map ForkItem.data) =
        .ok s'.node.state ∧ ∃ blocks, Ascends L s s' blocks) ∨
    ∃ applied bad rest top e newer, items.map ForkItem.data = applied ++ bad :: rest ∧
      Lib.run (Transactions.applyBlock R L.checkpoints skip) s.node.state applied = .ok top ∧
      Transactions.applyBlock R L.checkpoints skip top bad = .error e ∧
      Back L base top.view.headId s s' newer := by
  induction items generalizing s done with
  | nil =>
    cases hpush
    exact .inl ⟨rfl, [], .refl h rfl (List.prefix_refl _) rfl rfl rfl⟩
  | cons item rest ih =>
    rw [pushBranch] at hpush
    cases happly : s.applyBlock L skip item.data with
    | mk s1 applied =>
      rw [happly] at hpush
      obtain ⟨hup, hresult⟩ := applyBlock_ascends happly h
      have hdone1 := hdone.append hup.segment
      rw [List.map_cons]
      cases applied with
      | true =>
        have hstep : Transactions.applyBlock R L.checkpoints skip s.node.state item.data =
            .ok s1.node.state := hresult
        rcases ih hup.led hdone1 hpush with ⟨hrun, blocks, hrest⟩ |
          ⟨applied, bad, rest', top, e, newer, hsplit, hrun, hbad, hback⟩
        · exact .inl ⟨Lib.run_cons_eq_ok.mpr ⟨_, hstep, hrun⟩, _, hup.trans hrest⟩
        · refine .inr ⟨item.data :: applied, bad, rest', top, e, newer, ?_,
            Lib.run_cons_eq_ok.mpr ⟨_, hstep, hrun⟩, hbad, hback.led, hback.taken, ?_,
            hback.pending.trans hup.pending, fun hnone => hback.session (hup.session hnone)⟩
          · rw [hsplit, List.cons_append]
          · rw [hback.popped, hup.popped]
      | false =>
        obtain ⟨e, herror⟩ : ∃ e, Transactions.applyBlock R L.checkpoints skip s.node.state item.data =
            .error e := hresult
        have hstay := hup.segment.eq_of_nil
        cases hswitch : s1.switchBack L skip firsts seconds (item :: rest) front base with
        | mk s2 e2 =>
          dsimp only at hpush
          rw [hswitch] at hpush
          cases hpush
          obtain ⟨newer, hback⟩ := switchBack_back hup.led hdone1 hswitch
          have htaken := hback.taken
          rw [hstay] at htaken
          refine .inr ⟨[], item.data, rest.map ForkItem.data, s.node.state, e, newer, rfl, rfl, herror,
            hback.led, htaken, ?_, hback.pending.trans hup.pending,
            fun hnone => hback.session (hup.session hnone)⟩
          rw [hback.popped, hup.popped]

theorem switchForks_moved {newHead : ForkItem Block} {fork : ForkDatabase Block}
    (hpush : s.node.fork.pushBlock R.toBlockIds b = .ok (fork, newHead))
    (happart : R.previous newHead.data ≠ s.node.state.view.headId)
    (hhigher : s.node.state.view.headNum < R.blockNum newHead.data)
    (hswitch : ({ s with node := { s.node with fork } } : Db R Result).switchForks L skip newHead =
      (s', r)) (h : Led L s.node) : Moved L skip b s s' := by
  have hled : Led L { s.node with fork := fork } := h.of_undo rfl (List.prefix_refl _)
  have hstay : Ascends L s ({ s with node := { s.node with fork } }) [] :=
    .refl h rfl (List.prefix_refl _) rfl rfl rfl
  have hfork : forkSwitch s b =
      match fork.fetchBranchFrom R.toBlockIds (R.id newHead.data) s.node.state.view.headId with
      | .error _ => none
      | .ok (firsts, seconds) => seconds.getLast?.map fun back =>
          ({ s with node := { s.node with fork } }, firsts, seconds, R.previous back.data) := by
    unfold forkSwitch
    rw [hpush]
    exact if_pos ⟨happart, hhigher⟩
  unfold switchForks at hswitch
  dsimp only at hswitch
  cases hfetch : fork.fetchBranchFrom R.toBlockIds (R.id newHead.data) s.node.state.view.headId with
  | error e =>
    rw [hfetch] at hswitch hfork
    cases hswitch
    exact hstay.moved hfork
  | ok branches =>
    obtain ⟨firsts, seconds⟩ := branches
    rw [hfetch] at hswitch hfork
    dsimp only at hswitch hfork
    cases hlast : seconds.getLast? with
    | none =>
      rw [hlast] at hswitch hfork
      have hnone : seconds.head? = none := by
        rw [List.getLast?_eq_none_iff.mp hlast]
        rfl
      rw [hnone] at hswitch
      cases hswitch
      exact hstay.moved hfork
    | some back =>
      rw [hlast] at hswitch hfork
      have hfork' : forkSwitch s b = some ({ s with node := { s.node with fork } }, firsts, seconds,
        R.previous back.data) := hfork
      split at hswitch
      · rename_i front back' hfront hback
        cases hback
        split at hswitch
        · -- a pop of the old fork throws
          rename_i s1 e hpop
          cases hswitch
          obtain ⟨⟨older, hdown⟩, -, -⟩ := popUntil_descends hpop hled
          refine ⟨hdown.led, ⟨older, .stopped hfork' ?_ hdown.segment, hdown.popped⟩, hdown.pending,
            hdown.session⟩
          dsimp only
          rw [hpop]
          exact Option.some_ne_none e
        · -- the old fork is popped; the new one applies or is taken back
          rename_i s1 hpop
          obtain ⟨⟨older, hdown⟩, htarget, -⟩ := popUntil_descends hpop hled
          have hbase := htarget rfl
          have holder := hdown.segment
          rw [hbase] at holder
          have hmem : s1.node.state ∈ s.node.state :: s.node.undo :=
            hdown.history.subset List.mem_cons_self
          have hnil : Segment R (R.previous back.data) [] s1.node.state.view.headId := hbase ▸ .nil
          rcases pushBranch_cases hdown.led hnil hswitch with ⟨hrun, blocks, hup⟩ |
            ⟨applied, bad, rest, top, e, newer, hsplit, hrun, hbad, hback⟩
          · exact ⟨hup.led, ⟨older, .switched hfork' holder hmem hbase hrun,
              hup.popped.trans hdown.popped⟩, hup.pending.trans hdown.pending,
              fun hnone => hup.session (hdown.session hnone)⟩
          · refine ⟨hback.led, ⟨newer ++ older,
              .failed hfork' holder hmem hbase hsplit hrun hbad hback.taken, ?_⟩,
              hback.pending.trans hdown.pending, fun hnone => hback.session (hdown.session hnone)⟩
            rw [hback.popped, hdown.popped, List.flatMap_append, List.append_assoc]
      · rename_i hnot
        cases hhead : seconds.head? with
        | none =>
          rw [List.head?_eq_none_iff.mp hhead] at hlast
          cases hlast
        | some front => exact absurd rfl (hnot front back hhead)

theorem pushBlockWith_moved (hpush : s.pushBlockWith L skip b = (s', r)) (h : Led L s.node) :
    Moved L skip b s s' := by
  unfold pushBlockWith at hpush
  cases hfork : s.node.fork.pushBlock R.toBlockIds b with
  | error e =>
    rw [hfork] at hpush
    cases hpush
    refine Ascends.moved (.refl h rfl (List.prefix_refl _) rfl rfl rfl) ?_
    unfold forkSwitch
    rw [hfork]
  | ok pushed =>
    obtain ⟨fork, newHead⟩ := pushed
    rw [hfork] at hpush
    have hled : Led L { s.node with fork := fork } := h.of_undo rfl (List.prefix_refl _)
    have hnone (hno : ¬(R.previous newHead.data ≠ s.node.state.view.headId ∧
        s.node.state.view.headNum < R.blockNum newHead.data)) : forkSwitch s b = none := by
      unfold forkSwitch
      rw [hfork]
      exact if_neg hno
    dsimp only at hpush
    split at hpush
    · rename_i happart
      split at hpush
      · rename_i hhigher
        exact switchForks_moved hfork happart hhigher hpush h
      · rename_i hlower
        cases hpush
        exact Ascends.moved (.refl h rfl (List.prefix_refl _) rfl rfl rfl) (hnone fun h => hlower h.2)
    · rename_i hextends
      split at hpush
      · rename_i s1 happly
        cases hpush
        have hup := (applyBlock_ascends happly hled).1
        exact Ascends.moved ⟨hup.led, hup.segment, hup.popped, hup.pending, hup.session⟩
          (hnone fun h => hextends h.1)
      · rename_i s1 happly
        cases hpush
        have hup := (applyBlock_ascends happly hled).1
        exact Ascends.moved ⟨hup.led.of_undo rfl (List.prefix_refl _), hup.segment, hup.popped,
          hup.pending, hup.session⟩ (hnone fun h => hextends h.1)

end Db

end Meta1Core.Pending
