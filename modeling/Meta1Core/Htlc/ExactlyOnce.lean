import Meta1Core.Htlc.Moves

/-!
# Every lock is paid once

What moved the balances is kept as a history.  A lock is paid to one of the two accounts that it
names when it is removed, so its amount is either still locked or has been paid exactly once.
-/

namespace Meta1Core.Htlc

open Lib (Index Reachable total_nil total_append)
open Protocol Ledger

/-! ## The history -/

namespace Record

def effect (holder : AccountId) (id : AssetId) : Record → Int
  | .created _ op => -credit op.fromAccount op.amount holder id
  | .redeemed _ _ account amount => credit account amount holder id
  | .refunded _ _ account amount => credit account amount holder id
  | .fee payer amount => -credit payer amount holder id
  | .elsewhere before after => getBalance holder id after - getBalance holder id before

def creates (id : Nat) : Record → Bool
  | .created id' _ => id' = id
  | _ => false

def pays (id : Nat) : Record → Bool
  | .redeemed id' .. => id' = id
  | .refunded id' .. => id' = id
  | _ => false

def IsOther : Record → Prop
  | .fee _ _ => True
  | .elsewhere _ _ => True
  | _ => False

end Record

/-- A lock that an operation created, with an expiration that may have changed since -/
structure LockOf (op : CreateOperation) (h : HtlcObject) : Prop where
  fromAccount : h.fromAccount = op.fromAccount
  toAccount : h.toAccount = op.toAccount
  amount : h.amount = op.amount
  preimageHash : h.preimageHash = op.preimageHash
  preimageSize : h.preimageSize = op.preimageSize

/-- A payment to one of the two accounts, for a reason that is good for it -/
def PaysOut (hashing : Hashing) (op : CreateOperation) : Record → Prop
  | .redeemed _ preimage account amount => account = op.toAccount ∧ amount = op.amount ∧
      Opens hashing preimage op.preimageHash op.preimageSize
  | .refunded _ _ account amount => account = op.fromAccount ∧ amount = op.amount
  | _ => False

structure Consistent (hashing : Hashing) (history : List Record) (htlcs : Index HtlcObject) :
    Prop where
  below : ∀ id op, .created id op ∈ history → id < htlcs.next
  locked : ∀ id h, htlcs.find id = some h → ∃ op, .created id op ∈ history ∧ LockOf op h
  once : ∀ id op, .created id op ∈ history → history.countP (Record.creates id) = 1
  paid : ∀ id op, .created id op ∈ history →
    history.countP (Record.pays id) = if (htlcs.find id).isSome then 0 else 1
  payments : ∀ id, ∀ r ∈ history, r.pays id → ∃ op, .created id op ∈ history ∧ PaysOut hashing op r

namespace Consistent

variable {hashing : Hashing} {history : List Record} {htlcs htlcs' : Index HtlcObject}

theorem countP_creates_next (h : Consistent hashing history htlcs) :
    history.countP (Record.creates htlcs.next) = 0 := by
  rw [List.countP_eq_zero]
  intro r hr hcreates
  cases r with
  | created id op =>
    have hid : id = htlcs.next := of_decide_eq_true hcreates
    have := h.below id op hr
    omega
  | _ => cases hcreates

theorem countP_pays_next (h : Consistent hashing history htlcs) :
    history.countP (Record.pays htlcs.next) = 0 := by
  rw [List.countP_eq_zero]
  intro r hr hpays
  obtain ⟨op, hop, -⟩ := h.payments _ r hr hpays
  have := h.below _ op hop
  omega

theorem create (h : Consistent hashing history htlcs) (op : CreateOperation) (now : Nat) :
    Consistent hashing (history ++ [.created htlcs.next op]) (htlcs.create (op.htlc now)) := by
  -- a creation in the longer history is an old one or the new one
  have hcases : ∀ id op', Record.created id op' ∈ history ++ [.created htlcs.next op] →
      Record.created id op' ∈ history ∧ id ≠ htlcs.next ∨ id = htlcs.next := by
    intro id op' hmem
    rcases List.mem_append.mp hmem with hmem | hmem
    · exact .inl ⟨hmem, Nat.ne_of_lt (h.below id op' hmem)⟩
    · cases List.mem_singleton.mp hmem
      exact .inr rfl
  constructor
  case below =>
    intro id op' hmem
    show id < htlcs.next + 1
    rcases hcases id op' hmem with ⟨hmem, -⟩ | hid
    · have := h.below id op' hmem
      omega
    · omega
  case locked =>
    intro id lock hlock
    rw [Index.find_create] at hlock
    split at hlock
    · rename_i hid
      cases hlock
      exact ⟨op, by simp [hid], rfl, rfl, rfl, rfl, rfl⟩
    · obtain ⟨op', hmem, hof⟩ := h.locked id lock hlock
      exact ⟨op', List.mem_append_left _ hmem, hof⟩
  case once =>
    intro id op' hmem
    rw [List.countP_append, List.countP_singleton]
    rcases hcases id op' hmem with ⟨hmem, hne⟩ | rfl
    · rw [h.once id op' hmem]
      simp [Record.creates, Ne.symm hne]
    · rw [h.countP_creates_next]
      simp [Record.creates]
  case paid =>
    intro id op' hmem
    rw [List.countP_append, List.countP_singleton, Index.find_create]
    rcases hcases id op' hmem with ⟨hmem, hne⟩ | rfl
    · rw [h.paid id op' hmem, if_neg hne]
      rfl
    · rw [h.countP_pays_next, if_pos rfl]
      rfl
  case payments =>
    intro id r hr hpays
    rcases List.mem_append.mp hr with hr | hr
    · obtain ⟨op', hmem, hout⟩ := h.payments id r hr hpays
      exact ⟨op', List.mem_append_left _ hmem, hout⟩
    · cases List.mem_singleton.mp hr
      cases hpays

variable {r : Record}

section

variable (h : Consistent hashing history htlcs)

include h

theorem pay {id : Nat} {lock : HtlcObject} (hfound : htlcs.find id = some lock)
    (hpays : ∀ id', r.pays id' = decide (id = id')) (hcreates : ∀ id', r.creates id' = false)
    (hout : ∀ op, LockOf op lock → PaysOut hashing op r) :
    Consistent hashing (history ++ [r]) (htlcs.remove id) := by
  obtain ⟨grant, hgrant, hof⟩ := h.locked id lock hfound
  have hold : ∀ id' op, Record.created id' op ∈ history ++ [r] → Record.created id' op ∈ history := by
    intro id' op hmem
    rcases List.mem_append.mp hmem with hmem | hmem
    · exact hmem
    · have hnot := hcreates id'
      rw [← List.mem_singleton.mp hmem] at hnot
      simp [Record.creates] at hnot
  constructor
  case below =>
    intro id' op hmem
    exact h.below id' op (hold id' op hmem)
  case locked =>
    intro id' lock' hlock
    rw [Index.find_remove] at hlock
    split at hlock
    · cases hlock
    · obtain ⟨op, hmem, hof'⟩ := h.locked id' lock' hlock
      exact ⟨op, List.mem_append_left _ hmem, hof'⟩
  case once =>
    intro id' op hmem
    rw [List.countP_append, List.countP_singleton, hcreates, h.once id' op (hold id' op hmem)]
    rfl
  case paid =>
    intro id' op hmem
    rw [List.countP_append, List.countP_singleton, hpays, h.paid id' op (hold id' op hmem),
      Index.find_remove]
    by_cases hid : id' = id
    · subst hid
      simp [hfound]
    · simp [hid, Ne.symm hid]
  case payments =>
    intro id' r' hr hpays'
    rcases List.mem_append.mp hr with hr | hr
    · obtain ⟨op, hmem, hout'⟩ := h.payments id' r' hr hpays'
      exact ⟨op, List.mem_append_left _ hmem, hout'⟩
    · obtain rfl := List.mem_singleton.mp hr
      rw [hpays] at hpays'
      obtain rfl := of_decide_eq_true hpays'
      exact ⟨grant, List.mem_append_left _ hgrant, hout grant hof⟩

theorem other (hr : r.IsOther) (hnext : htlcs'.next = htlcs.next)
    (hfind : ∀ id, (htlcs'.find id).isSome = (htlcs.find id).isSome)
    (hlocks : ∀ id lock', htlcs'.find id = some lock' → ∃ lock, htlcs.find id = some lock ∧ ∀ op, LockOf op lock → LockOf op lock') :
    Consistent hashing (history ++ [r]) htlcs' := by
  have hold : ∀ id op, Record.created id op ∈ history ++ [r] → Record.created id op ∈ history := by
    intro id op hmem
    rcases List.mem_append.mp hmem with hmem | hmem
    · exact hmem
    · rw [← List.mem_singleton.mp hmem] at hr
      cases hr
  have hcreates : ∀ id, r.creates id = false := by
    intro id
    cases r <;> first | rfl | cases hr
  have hpays : ∀ id, r.pays id = false := by
    intro id
    cases r <;> first | rfl | cases hr
  constructor
  case below =>
    intro id op hmem
    rw [hnext]
    exact h.below id op (hold id op hmem)
  case locked =>
    intro id lock' hlock
    obtain ⟨lock, hlock, hsame⟩ := hlocks id lock' hlock
    obtain ⟨op, hmem, hof⟩ := h.locked id lock hlock
    exact ⟨op, List.mem_append_left _ hmem, hsame op hof⟩
  case once =>
    intro id op hmem
    rw [List.countP_append, List.countP_singleton, hcreates, h.once id op (hold id op hmem)]
    rfl
  case paid =>
    intro id op hmem
    rw [List.countP_append, List.countP_singleton, hpays, h.paid id op (hold id op hmem), hfind]
    rfl
  case payments =>
    intro id r' hr' hpays'
    rcases List.mem_append.mp hr' with hr' | hr'
    · obtain ⟨op, hmem, hout⟩ := h.payments id r' hr' hpays'
      exact ⟨op, List.mem_append_left _ hmem, hout⟩
    · rw [List.mem_singleton.mp hr', hpays] at hpays'
      cases hpays'

theorem record (hr : r.IsOther) : Consistent hashing (history ++ [r]) htlcs :=
  h.other hr rfl (fun _ => rfl) fun _ lock hlock => ⟨lock, hlock, fun _ hof => hof⟩

theorem extend (op : ExtendOperation) (hr : r.IsOther) :
    Consistent hashing (history ++ [r]) (htlcs.modify op.htlcId op.extend) := by
  apply h.other hr
  · rfl
  · intro id
    rw [Index.find_modify]
    split
    · rename_i hid
      rw [hid, Option.isSome_map]
    · rfl
  · intro id lock' hlock
    rw [Index.find_modify] at hlock
    split at hlock
    · rename_i hid
      obtain ⟨lock, hfound, rfl⟩ := Option.map_eq_some_iff.mp hlock
      exact ⟨lock, hid ▸ hfound, fun _ hof => ⟨hof.1, hof.2, hof.3, hof.4, hof.5⟩⟩
    · exact ⟨lock', hlock, fun _ hof => hof⟩

theorem refunds {es : List (Σ _ : Nat, HtlcObject)} (time : Nat)
    (hfound : ∀ e ∈ es, htlcs.find e.1 = some e.2) (hnodup : (es.map (·.1)).Nodup) :
    Consistent hashing
      (history ++ es.map fun e => .refunded e.1 time e.2.fromAccount e.2.amount)
      (removeAll es htlcs) := by
  induction es generalizing history htlcs with
  | nil =>
    rw [List.map_nil, List.append_nil]
    exact h
  | cons e es ih =>
    rw [List.map_cons, List.nodup_cons] at hnodup
    have hfirst : Consistent hashing
        (history ++ [.refunded e.1 time e.2.fromAccount e.2.amount]) (htlcs.remove e.1) := by
      apply h.pay (hfound e List.mem_cons_self)
      · intro id
        rfl
      · intro id
        rfl
      · intro op hof
        exact ⟨hof.fromAccount, hof.amount⟩
    -- the other locks are still there
    have hrest := ih hfirst (fun e' he' => by
      rw [Index.find_remove, if_neg]
      · exact hfound e' (List.mem_cons_of_mem _ he')
      · intro heq
        exact hnodup.1 (heq ▸ List.mem_map_of_mem he')) hnodup.2
    rw [List.append_assoc] at hrest
    exact hrest

end

end Consistent

/-! ## The chain -/

def Initial (c : Chain) : Prop := c.state.objects.htlcs = ∅ ∧ c.history = []

structure Sound (hashing : Hashing) (c0 c : Chain) : Prop where
  consistent : Consistent hashing c.history c.state.objects.htlcs
  balances : ∀ holder id, getBalance holder id c.state.ledger =
    getBalance holder id c0.state.ledger + Lib.total (Record.effect holder id) c.history

variable {hashing : Hashing} {c0 c c' : Chain}

theorem Initial.sound (h : Initial c) : Sound hashing c c := by
  obtain ⟨hhtlcs, hhistory⟩ := h
  constructor
  case consistent =>
    rw [hhtlcs, hhistory]
    constructor
    case locked =>
      intro id lock hlock
      cases hlock
    all_goals simp
  case balances =>
    intro holder id
    rw [hhistory, total_nil, add_zero]

def Fate (hashing : Hashing) (c' : Chain) (id : Nat) (h : HtlcObject) : Event → Prop
  | .create .. => c'.find id = some h
  | .redeem _ _ op =>
    if op.htlcId = id then
      Opens hashing op.preimage h.preimageHash h.preimageSize ∧ c'.find id = none ∧
        .redeemed id op.preimage h.toAccount h.amount ∈ c'.history
    else c'.find id = some h
  | .extend _ _ op =>
    if op.htlcId = id then
      op.updateIssuer = h.fromAccount ∧
        c'.find id = some { h with expiration := h.expiration + op.secondsToAdd }
    else c'.find id = some h
  | .block time =>
    if h.expiration ≤ time then
      c'.find id = none ∧ .refunded id time h.fromAccount h.amount ∈ c'.history
    else c'.find id = some h
  | .elsewhere .. => c'.find id = some h

def Stepped (hashing : Hashing) (c c' : Chain) : Event → Prop
  | .create _ _ op =>
    c'.history = c.history ++
        [.created c.state.objects.htlcs.next op] ++ [.fee op.fromAccount op.fee] ∧
      Moved c.state c'.state (c.state.objects.htlcs.create (op.htlc c.state.ledger.headBlockTime))
        fun holder id =>
          -credit op.fromAccount op.amount holder id - credit op.fromAccount op.fee holder id
  | .redeem _ _ op =>
    ∃ lock, c.state.objects.htlcs.find op.htlcId = some lock ∧
      Opens hashing op.preimage lock.preimageHash lock.preimageSize ∧
      c'.history = c.history ++ [.redeemed op.htlcId op.preimage lock.toAccount lock.amount] ++
        [.fee op.redeemer op.fee] ∧
      Moved c.state c'.state (c.state.objects.htlcs.remove op.htlcId) fun holder id =>
        credit lock.toAccount lock.amount holder id - credit op.redeemer op.fee holder id
  | .extend _ _ op =>
    ∃ lock, c.state.objects.htlcs.find op.htlcId = some lock ∧
      op.updateIssuer = lock.fromAccount ∧
      op.extend lock = { lock with expiration := lock.expiration + op.secondsToAdd } ∧
      c'.history = c.history ++ [.fee op.updateIssuer op.fee] ∧
      Moved c.state c'.state (c.state.objects.htlcs.modify op.htlcId op.extend) fun holder id =>
        -credit op.updateIssuer op.fee holder id
  | .block time =>
    c'.history = c.history ++ c.refunds time ∧
      c'.state.objects.htlcs =
        removeAll (expiredHtlcs time c.state.objects.htlcs) c.state.objects.htlcs ∧
      ∀ holder id, getBalance holder id c'.state.ledger = getBalance holder id c.state.ledger +
        Lib.total (fun e => credit e.2.fromAccount e.2.amount holder id)
          (expiredHtlcs time c.state.objects.htlcs)
  | .elsewhere ledger _ =>
    c'.history = c.history ++ [.elsewhere c.state.ledger ledger] ∧ c'.state.ledger = ledger ∧
      c'.state.objects.htlcs = c.state.objects.htlcs

variable {e : Event}

theorem step_stepped (hstep : step hashing c e = .ok c') : Stepped hashing c c' e := by
  cases e with
  | create ctx requiredFee op =>
    obtain ⟨state, hcommit, hc'⟩ := Lib.of_bind hstep
    cases hc'
    obtain ⟨_, hreturns⟩ := Lib.commit_eq_ok.mp hcommit
    refine ⟨?_, op.of_evaluate hreturns⟩
    rw [List.append_assoc]
    rfl
  | redeem ctx requiredFee op =>
    obtain ⟨state, hcommit, hc'⟩ := Lib.of_bind hstep
    cases hc'
    obtain ⟨_, hreturns⟩ := Lib.commit_eq_ok.mp hcommit
    obtain ⟨lock, hfound, hopens, hmoved⟩ := op.of_evaluate hreturns
    refine ⟨lock, hfound, hopens, ?_, hmoved⟩
    simp only [Chain.redemption, Chain.find, hfound, Option.toList_some, List.map_cons,
      List.map_nil]
  | extend ctx requiredFee op =>
    obtain ⟨state, hcommit, hc'⟩ := Lib.of_bind hstep
    cases hc'
    obtain ⟨_, hreturns⟩ := Lib.commit_eq_ok.mp hcommit
    obtain ⟨lock, hfound, hissuer, hextend, hmoved⟩ := op.of_evaluate hreturns
    exact ⟨lock, hfound, hissuer, hextend, rfl, hmoved⟩
  | block time =>
    obtain ⟨-, hstep⟩ := of_fcAssert hstep
    obtain ⟨state, hcommit, hc'⟩ := Lib.of_bind hstep
    cases hc'
    obtain ⟨_, hreturns⟩ := Lib.commit_eq_ok.mp hcommit
    obtain ⟨hhtlcs, -, hbalances⟩ := applyBlock_moved hreturns
    exact ⟨rfl, hhtlcs, hbalances⟩
  | elsewhere ledger options =>
    obtain ⟨-, hc'⟩ := of_fcAssert hstep
    cases hc'
    exact ⟨rfl, rfl, rfl⟩

theorem Stepped.fate (h : Stepped hashing c c' e) {id : Nat} {lock : HtlcObject}
    (hfound : c.find id = some lock) : Fate hashing c' id lock e := by
  replace hfound : c.state.objects.htlcs.find id = some lock := hfound
  cases e with
  | create ctx requiredFee op =>
    obtain ⟨-, hmoved⟩ := h
    have hne : id ≠ c.state.objects.htlcs.next := by
      intro heq
      rw [heq, Index.find_next] at hfound
      cases hfound
    show c'.state.objects.htlcs.find id = some lock
    rw [hmoved.htlcs, Index.find_create, if_neg hne, hfound]
  | redeem ctx requiredFee op =>
    obtain ⟨lock', hfound', hopens, hhistory, hmoved⟩ := h
    have hfind : c'.find id = if id = op.htlcId then none else some lock := by
      show c'.state.objects.htlcs.find id = _
      rw [hmoved.htlcs, Index.find_remove, hfound]
    simp only [Fate]
    split
    · rename_i hid
      subst hid
      rw [hfound] at hfound'
      cases hfound'
      refine ⟨hopens, ?_, ?_⟩
      · rw [hfind, if_pos rfl]
      · rw [hhistory]
        simp
    · rename_i hid
      rw [hfind, if_neg (Ne.symm hid)]
  | extend ctx requiredFee op =>
    obtain ⟨lock', hfound', hissuer, hextend, -, hmoved⟩ := h
    have hfind : c'.find id = if id = op.htlcId then some (op.extend lock') else some lock := by
      show c'.state.objects.htlcs.find id = _
      rw [hmoved.htlcs, Index.find_modify, hfound', hfound]
      rfl
    simp only [Fate]
    split
    · rename_i hid
      subst hid
      rw [hfound] at hfound'
      cases hfound'
      refine ⟨hissuer, ?_⟩
      rw [hfind, if_pos rfl, hextend]
    · rename_i hid
      rw [hfind, if_neg (Ne.symm hid)]
  | block time =>
    obtain ⟨hhistory, hhtlcs, -⟩ := h
    simp only [Fate]
    split
    · rename_i hexpired
      have hmem : (⟨id, lock⟩ : Σ _ : Nat, HtlcObject) ∈ expiredHtlcs time c.state.objects.htlcs :=
        mem_expiredHtlcs.mpr ⟨hfound, hexpired⟩
      constructor
      · show c'.state.objects.htlcs.find id = none
        rw [hhtlcs, find_removeAll, if_pos (List.mem_map_of_mem hmem)]
      · rw [hhistory]
        apply List.mem_append_right
        exact List.mem_map_of_mem hmem
    · rename_i hopen
      show c'.state.objects.htlcs.find id = some lock
      rw [hhtlcs, find_removeAll, if_neg, hfound]
      -- a lock with this id that is expired would be this one
      intro hmem
      obtain ⟨e, he, hid⟩ := List.mem_map.mp hmem
      obtain ⟨hfound', hexpired⟩ := mem_expiredHtlcs.mp he
      rw [hid, hfound] at hfound'
      rw [← Option.some.inj hfound'] at hexpired
      exact hopen hexpired
  | elsewhere ledger options =>
    obtain ⟨-, -, hhtlcs⟩ := h
    show c'.state.objects.htlcs.find id = some lock
    rw [hhtlcs, hfound]

theorem Stepped.consistent (hstep : Stepped hashing c c' e)
    (h : Consistent hashing c.history c.state.objects.htlcs) :
    Consistent hashing c'.history c'.state.objects.htlcs := by
  cases e with
  | create ctx requiredFee op =>
    obtain ⟨hhistory, hmoved⟩ := hstep
    rw [hhistory, hmoved.htlcs]
    exact (h.create op _).record trivial
  | redeem ctx requiredFee op =>
    obtain ⟨lock, hfound, hopens, hhistory, hmoved⟩ := hstep
    rw [hhistory, hmoved.htlcs]
    refine Consistent.record (h.pay hfound ?_ ?_ ?_) trivial
    · intro id
      rfl
    · intro id
      rfl
    · intro grant hof
      refine ⟨hof.toAccount, hof.amount, ?_⟩
      rw [← hof.preimageHash, ← hof.preimageSize]
      exact hopens
  | extend ctx requiredFee op =>
    obtain ⟨lock, -, -, -, hhistory, hmoved⟩ := hstep
    rw [hhistory, hmoved.htlcs]
    exact h.extend op trivial
  | block time =>
    obtain ⟨hhistory, hhtlcs, -⟩ := hstep
    rw [hhistory, hhtlcs]
    exact h.refunds time (fun e he => (mem_expiredHtlcs.mp he).1) (nodup_expiredHtlcs _ _)
  | elsewhere ledger options =>
    obtain ⟨hhistory, -, hhtlcs⟩ := hstep
    rw [hhistory, hhtlcs]
    exact h.record trivial

theorem Stepped.balances (h : Stepped hashing c c' e) (holder : AccountId) (id : AssetId) :
    getBalance holder id c'.state.ledger - Lib.total (Record.effect holder id) c'.history =
      getBalance holder id c.state.ledger - Lib.total (Record.effect holder id) c.history := by
  cases e with
  | create ctx requiredFee op =>
    obtain ⟨hhistory, hmoved⟩ := h
    rw [hhistory, hmoved.balances]
    simp only [total_append, Lib.total_cons, total_nil, Record.effect]
    omega
  | redeem ctx requiredFee op =>
    obtain ⟨lock, -, -, hhistory, hmoved⟩ := h
    rw [hhistory, hmoved.balances]
    simp only [total_append, Lib.total_cons, total_nil, Record.effect]
    omega
  | extend ctx requiredFee op =>
    obtain ⟨lock, -, -, -, hhistory, hmoved⟩ := h
    rw [hhistory, hmoved.balances]
    simp only [total_append, Lib.total_cons, total_nil, Record.effect]
    omega
  | block time =>
    obtain ⟨hhistory, -, hbalances⟩ := h
    have hrefunds : Lib.total (Record.effect holder id) (c.refunds time) =
        Lib.total (fun e => credit e.2.fromAccount e.2.amount holder id)
          (expiredHtlcs time c.state.objects.htlcs) := by
      rw [Chain.refunds, Lib.total, Lib.total, List.map_map]
      rfl
    rw [hhistory, hbalances, total_append, hrefunds]
    omega
  | elsewhere ledger options =>
    obtain ⟨hhistory, hledger, -⟩ := h
    rw [hhistory, hledger]
    simp only [total_append, Lib.total_cons, total_nil, Record.effect]
    omega

theorem step_sound (h : Sound hashing c0 c) (hstep : step hashing c e = .ok c') :
    Sound hashing c0 c' := by
  have hstepped := step_stepped hstep
  constructor
  case consistent => exact hstepped.consistent h.consistent
  case balances =>
    intro holder id
    have hmoved := hstepped.balances holder id
    have hbefore := h.balances holder id
    omega

/-- Every balance is explained by what was locked, redeemed and refunded, by fees and by what
happened elsewhere.  A lock is created once, and paid once as soon as it is gone: to its recipient
when the preimage is shown, or to its creator in the first block that is not before its expiration,
which only the creator moves and only forward. -/
theorem locks_paid_once (h0 : Initial c0)
    (h : Reachable (step hashing) (· = c0) (fun _ _ => True) c) :
    (∀ holder id, getBalance holder id c.state.ledger =
      getBalance holder id c0.state.ledger + Lib.total (Record.effect holder id) c.history) ∧
    (∀ id op, .created id op ∈ c.history → c.history.countP (Record.creates id) = 1 ∧
      c.history.countP (Record.pays id) = if (c.find id).isSome then 0 else 1) ∧
    (∀ id, ∀ r ∈ c.history, r.pays id → ∃ op, .created id op ∈ c.history ∧ PaysOut hashing op r) ∧
    (∀ id lock, c.find id = some lock → ∃ op, .created id op ∈ c.history ∧ LockOf op lock) ∧
    ∀ e c', step hashing c e = .ok c' →
      ∀ id lock, c.find id = some lock → Fate hashing c' id lock e := by
  have hsound : Sound hashing c0 c := by
    apply h.invariant (Sound hashing c0)
    · rintro _ rfl
      exact h0.sound
    · intro c1 e c2 hs _ hstep
      exact step_sound hs hstep
  have hconsistent := hsound.consistent
  refine ⟨hsound.balances, ?_, hconsistent.payments, hconsistent.locked, ?_⟩
  · intro id op hmem
    exact ⟨hconsistent.once id op hmem, hconsistent.paid id op hmem⟩
  · intro e c' hstep id lock hfound
    exact (step_stepped hstep).fate hfound

def emptyDigests : Hashing
  | .ripemd160, _ => [0x9c, 0x11, 0x85, 0xa5, 0xc5, 0xe9, 0xfc, 0x54, 0x61, 0x28, 0x08, 0x97, 0x7e,
      0xe8, 0xf5, 0x48, 0xb2, 0x25, 0x8d, 0x31]
  | .sha1, _ => [0xda, 0x39, 0xa3, 0xee, 0x5e, 0x6b, 0x4b, 0x0d, 0x32, 0x55, 0xbf, 0xef, 0x95, 0x60,
      0x18, 0x90, 0xaf, 0xd8, 0x07, 0x09]
  | .sha256, _ => [0xe3, 0xb0, 0xc4, 0x42, 0x98, 0xfc, 0x1c, 0x14, 0x9a, 0xfb, 0xf4, 0xc8, 0x99,
      0x6f, 0xb9, 0x24, 0x27, 0xae, 0x41, 0xe4, 0x64, 0x9b, 0x93, 0x4c, 0xa4, 0x95, 0x99, 0x1b,
      0x78, 0x52, 0xb8, 0x55]

def sampleChain : Chain where
  state :=
    { ledger :=
        { headBlockTime := 1600000000
          accounts := ((Index.create ∅ { registrar := 0, referrer := 0 }).create
            { registrar := 0, referrer := 0 }).create { registrar := 0, referrer := 0 }
          balances := AList.insert (1, core) 1000 ∅
          assets := Index.create ∅
            { issuer := 0, options := { coreExchangeRate := ⟨⟨1, core⟩, ⟨1, core⟩⟩ } } }
      objects := { updatableHtlcOptions := some ⟨86400, 1024⟩ } }

def sampleLock : CreateOperation where
  fee := ⟨0, core⟩
  fromAccount := 1
  toAccount := 2
  amount := ⟨100, core⟩
  preimageHash := ⟨.sha1, emptyDigests .sha1 []⟩
  preimageSize := 0
  claimPeriodSeconds := 3600

def Record.creation? : Record → Option (Nat × CreateOperation)
  | .created id op => some (id, op)
  | _ => none

theorem locks_paid_once_opened :
    ∃ c, Reachable (step emptyDigests) (· = sampleChain) (fun _ _ => True) c ∧
      c.find 0 = none ∧ c.history.countP (Record.pays 0) = 1 := by
  have hrun : ∃ c, Reachable (step emptyDigests) (· = sampleChain) (fun _ _ => True) c ∧
      c.history.filterMap Record.creation? = [(0, sampleLock)] ∧ c.find 0 = none := by
    refine Reachable.of_run (s := sampleChain) [.create {} 0 sampleLock,
      .extend {} 0 ⟨⟨0, core⟩, 0, 1, 600⟩, .block 1600003600,
      .redeem {} 0 ⟨⟨0, core⟩, 0, 2, []⟩] rfl ?_ ?_
    · decide +kernel
    · decide +kernel
  obtain ⟨c, hreach, hcreations, hfind⟩ := hrun
  have hcreated : .created 0 sampleLock ∈ c.history := by
    have hmem : (0, sampleLock) ∈ c.history.filterMap Record.creation? := by simp [hcreations]
    obtain ⟨r, hr, hsome⟩ := List.mem_filterMap.mp hmem
    cases r <;> cases hsome
    exact hr
  have hpaid := ((locks_paid_once ⟨rfl, rfl⟩ hreach).2.1 0 sampleLock hcreated).2
  rw [hfind] at hpaid
  exact ⟨c, hreach, hfind, hpaid⟩

end Meta1Core.Htlc
