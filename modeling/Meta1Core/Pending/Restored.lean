import Meta1Core.Pending.Popped

/-!
# What clients see follows the head block

The state that clients see is that of the head block followed by the pending transactions, in their
order.
-/

namespace Meta1Core.Pending

open Transactions (ChainRules Skip State applyTransaction knows_record applyTransaction_eq_ok)

variable {σ Id Block TrxId Trx : Type} [DecidableEq Id] [DecidableEq TrxId]
  {R : ChainRules σ Id Block TrxId Trx} {Result Key : Type} {L : Rules R Result Key}

/-- The transactions are applied in their order on top of the state, each under the flags that it was
pushed with. -/
inductive Pends (L : Rules R Result Key) (allowed : Skip → Prop) (head : State R) :
    List (Processed Trx Result) → State R → Prop
  | nil : Pends L allowed head [] head
  | snoc {pending : List (Processed Trx Result)} {v v' : State R} {trx : Trx} {skip : Skip} :
      Pends L allowed head pending v → allowed skip → applyTransaction R skip v trx = .ok v' →
      Pends L allowed head (pending ++ [⟨trx, L.operationResults skip v.view trx⟩]) v'

/-- The objects that clients see are those of the head block followed by `_pending_tx`. -/
def Follows (L : Rules R Result Key) (allowed : Skip → Prop) (s : Db R Result) : Prop :=
  Pends L allowed s.node.state s.pending s.visible

/-- The transactions in their order, each at its turn: it is known, it does not apply, or it is pending
again. -/
inductive Restores (L : Rules R Result Key) (skip : Skip) :
    State R → List Trx → List (Processed Trx Result) → State R → Prop
  | nil {v : State R} : Restores L skip v [] [] v
  | known {v v' : State R} {trx : Trx} {rest : List Trx} {kept : List (Processed Trx Result)} :
      v.knows (R.trxId trx) → Restores L skip v rest kept v' →
      Restores L skip v (trx :: rest) kept v'
  | invalid {v v' : State R} {trx : Trx} {rest : List Trx} {kept : List (Processed Trx Result)}
      {e : Exception} :
      applyTransaction R skip v trx = .error e → Restores L skip v rest kept v' →
      Restores L skip v (trx :: rest) kept v'
  | pushed {v v1 v' : State R} {trx : Trx} {rest : List Trx}
      {kept : List (Processed Trx Result)} :
      applyTransaction R skip v trx = .ok v1 → Restores L skip v1 rest kept v' →
      Restores L skip v (trx :: rest) (⟨trx, L.operationResults skip v.view trx⟩ :: kept) v'

namespace Pends

variable {allowed : Skip → Prop} {head v : State R} {pending : List (Processed Trx Result)}

theorem of_knows (h : Pends L allowed head pending v) {id : TrxId} (hknown : v.knows id) :
    id ∈ pending.map (fun p => R.trxId p.trx) ∨ head.knows id := by
  induction h with
  | nil => exact .inr hknown
  | snoc h' _ happly ih =>
    obtain ⟨x, -, rfl⟩ := applyTransaction_eq_ok.mp happly
    rw [List.map_append, List.mem_append]
    rcases knows_record.mp hknown with ⟨-, rfl⟩ | hbefore
    · exact .inl (.inr (List.mem_singleton.mpr rfl))
    · rcases ih hbefore with hmem | hhead
      · exact .inl (.inl hmem)
      · exact .inr hhead

theorem nodup (h : Pends L allowed head pending v)
    (hchecked : ∀ skip, allowed skip → skip.transactionDupeCheck = false) :
    (pending.map fun p => R.trxId p.trx).Nodup ∧
      (∀ p ∈ pending, v.knows (R.trxId p.trx) ∧ ¬head.knows (R.trxId p.trx)) ∧
      ∀ id, head.knows id → v.knows id := by
  induction h with
  | nil => exact ⟨List.nodup_nil, nofun, fun id hknown => hknown⟩
  | @snoc pending v v' trx skip h' hallowed happly ih =>
    obtain ⟨hnodup, hknown, hhead⟩ := ih
    obtain ⟨x, hpasses, rfl⟩ := applyTransaction_eq_ok.mp happly
    have hskip := hchecked skip hallowed
    have hfresh := hpasses.fresh hskip
    refine ⟨?_, ?_, ?_⟩
    · rw [List.map_append, List.nodup_append]
      refine ⟨hnodup, List.nodup_singleton _, ?_⟩
      intro id hid id' hid' heq
      obtain ⟨p, hp, rfl⟩ := List.mem_map.mp hid
      have hsame : R.trxId p.trx = R.trxId trx := heq.trans (List.mem_singleton.mp hid')
      rw [← hsame] at hfresh
      exact hfresh (hknown p hp).1
    · intro p hp
      rw [knows_record]
      rcases List.mem_append.mp hp with hold | hnew
      · exact ⟨.inr (hknown p hold).1, (hknown p hold).2⟩
      · rw [List.mem_singleton.mp hnew]
        exact ⟨.inl ⟨hskip, rfl⟩, fun hknows => hfresh (hhead _ hknows)⟩
    · intro id hid
      rw [knows_record]
      exact .inr (hhead id hid)

end Pends

namespace Restores

variable {allowed : Skip → Prop} {skip : Skip} {head v m v' : State R} {xs ys : List Trx}
  {kept kept' pending : List (Processed Trx Result)}

theorem append (h : Restores L skip v xs kept m) (h' : Restores L skip m ys kept' v') :
    Restores L skip v (xs ++ ys) (kept ++ kept') v' := by
  induction h with
  | nil => exact h'
  | known hknown _ ih => exact .known hknown (ih h')
  | invalid herror _ ih => exact .invalid herror (ih h')
  | pushed happly _ ih => exact .pushed happly (ih h')

theorem split (h : Restores L skip v (xs ++ ys) kept v') :
    ∃ kept1 kept2 m, kept = kept1 ++ kept2 ∧ Restores L skip v xs kept1 m ∧
      Restores L skip m ys kept2 v' := by
  induction xs generalizing v kept with
  | nil => exact ⟨[], kept, v, rfl, .nil, h⟩
  | cons trx xs ih =>
    cases h with
    | known hknown h' =>
      obtain ⟨kept1, kept2, m, hkept, hxs, hys⟩ := ih h'
      exact ⟨kept1, kept2, m, hkept, .known hknown hxs, hys⟩
    | invalid herror h' =>
      obtain ⟨kept1, kept2, m, hkept, hxs, hys⟩ := ih h'
      exact ⟨kept1, kept2, m, hkept, .invalid herror hxs, hys⟩
    | pushed happly h' =>
      obtain ⟨kept1, kept2, m, rfl, hxs, hys⟩ := ih h'
      exact ⟨_ :: kept1, kept2, m, rfl, .pushed happly hxs, hys⟩

theorem sublist (h : Restores L skip v xs kept v') : (kept.map Processed.trx).Sublist xs := by
  induction h with
  | nil => exact List.Sublist.refl _
  | known _ _ ih => exact ih.cons _
  | invalid _ _ ih => exact ih.cons _
  | pushed _ _ ih => exact ih.cons_cons _

theorem pends (hpends : Pends L allowed head pending v) (hallowed : allowed skip)
    (h : Restores L skip v xs kept v') : Pends L allowed head (pending ++ kept) v' := by
  induction h generalizing pending with
  | nil =>
    rw [List.append_nil]
    exact hpends
  | known _ _ ih => exact ih hpends
  | invalid _ _ ih => exact ih hpends
  | @pushed v v1 v' trx rest kept happly _ ih =>
    have hnext := ih (hpends.snoc hallowed happly)
    rw [List.append_assoc, List.singleton_append] at hnext
    exact hnext

end Restores

/-- The head block and `_popped_tx` stay; sessions may have dropped old states from the undo history. -/
structure Stays (s s' : Db R Result) : Prop where
  state : s'.node.state = s.node.state
  undo : s'.node.undo <+: s.node.undo
  popped : s'.popped = s.popped

omit [DecidableEq Id] [DecidableEq TrxId] in
theorem Stays.refl (s : Db R Result) : Stays s s := ⟨rfl, List.prefix_refl _, rfl⟩

omit [DecidableEq Id] [DecidableEq TrxId] in
theorem Stays.trans {s s1 s' : Db R Result} (h : Stays s s1) (h' : Stays s1 s') : Stays s s' where
  state := h'.state.trans h.state
  undo := h'.undo.trans h.undo
  popped := h'.popped.trans h.popped

theorem Stays.led {s s' : Db R Result} (h : Stays s s') (hled : Led L s.node) : Led L s'.node :=
  hled.of_undo h.state h.undo

namespace Db

variable (L : Rules R Result Key) (skip : Skip)

omit [DecidableEq Id] [DecidableEq TrxId] in
theorem startSession_stays (s : Db R Result) (sessions : Nat) : Stays s (s.startSession sessions) :=
  ⟨rfl, List.take_prefix _ _, rfl⟩

omit [DecidableEq Id] [DecidableEq TrxId] in
theorem openPending_stays (s : Db R Result) :
    Stays s s.openPending ∧ s.openPending.pending = s.pending ∧ s.openPending.visible = s.visible := by
  unfold openPending
  cases hsession : s.session with
  | some v => exact ⟨.refl s, rfl, rfl⟩
  | none =>
    refine ⟨⟨rfl, List.take_prefix _ _, rfl⟩, rfl, ?_⟩
    unfold visible
    rw [hsession]
    rfl

theorem tryTransaction_stays (s : Db R Result) (trx : Trx) :
    Stays s (s.tryTransaction L skip trx).1 ∧ (s.tryTransaction L skip trx).1.pending = s.pending ∧
      (s.tryTransaction L skip trx).1.visible = s.visible ∧
      (s.tryTransaction L skip trx).2 = (applyTransaction R skip s.visible trx).map fun state =>
        (⟨trx, L.operationResults skip s.visible.view trx⟩, state) :=
  ⟨⟨rfl, List.take_prefix _ _, rfl⟩, rfl, rfl, rfl⟩

theorem pushTransactionWith_cases (s : Db R Result) (trx : Trx) :
    Stays s (s.pushTransactionWith L skip trx).1 ∧
    ((∃ v, applyTransaction R skip s.visible trx = .ok v ∧ (s.pushTransactionWith L skip trx).2 =
          .ok ⟨trx, L.operationResults skip s.visible.view trx⟩ ∧
        (s.pushTransactionWith L skip trx).1.pending =
          s.pending ++ [⟨trx, L.operationResults skip s.visible.view trx⟩] ∧
        (s.pushTransactionWith L skip trx).1.visible = v) ∨
      ∃ e, applyTransaction R skip s.visible trx = .error e ∧
        (s.pushTransactionWith L skip trx).2 = .error e ∧
        (s.pushTransactionWith L skip trx).1.pending = s.pending ∧
        (s.pushTransactionWith L skip trx).1.visible = s.visible) := by
  obtain ⟨hopen, hpending, hvisible⟩ := openPending_stays s
  obtain ⟨htry, hpending', hvisible', hresult⟩ :=
    tryTransaction_stays L skip s.openPending trx
  unfold pushTransactionWith
  cases htried : s.openPending.tryTransaction L skip trx with
  | mk s1 r =>
    rw [htried] at htry hpending' hvisible' hresult
    rw [hvisible] at hvisible' hresult
    rw [hpending] at hpending'
    dsimp only at htry hpending' hvisible' hresult
    subst hresult
    have hstays := hopen.trans htry
    cases happly : applyTransaction R skip s.visible trx with
    | ok v =>
      refine ⟨⟨hstays.state, hstays.undo, hstays.popped⟩, .inl ⟨v, rfl, rfl, ?_, rfl⟩⟩
      exact congrArg (· ++ [_]) hpending'
    | error e => exact ⟨hstays, .inr ⟨e, rfl, rfl, hpending', hvisible'⟩⟩

theorem restoreTransaction_restores (s : Db R Result) (trx : Trx) :
    Stays s (s.restoreTransaction L skip trx) ∧ ∃ kept,
      (s.restoreTransaction L skip trx).pending = s.pending ++ kept ∧
      Restores L skip s.visible [trx] kept (s.restoreTransaction L skip trx).visible := by
  unfold restoreTransaction
  by_cases hknown : s.visible.knows (R.trxId trx)
  · rw [if_pos hknown]
    exact ⟨.refl s, [], (List.append_nil _).symm, .known hknown .nil⟩
  · rw [if_neg hknown]
    obtain ⟨hstays, ⟨v, happly, -, hpending, hvisible⟩ | ⟨e, herror, -, hpending, hvisible⟩⟩ :=
      pushTransactionWith_cases L skip s trx
    · refine ⟨hstays, _, hpending, ?_⟩
      rw [hvisible]
      exact .pushed happly .nil
    · refine ⟨hstays, [], hpending.trans (List.append_nil _).symm, ?_⟩
      rw [hvisible]
      exact .invalid herror .nil

/-- The induction is on the transactions; those before have been pushed on top of what is seen. -/
theorem foldl_restoreTransaction (s : Db R Result) (trxs : List Trx) :
    Stays s (trxs.foldl (restoreTransaction L skip) s) ∧ ∃ kept,
      (trxs.foldl (restoreTransaction L skip) s).pending = s.pending ++ kept ∧
      Restores L skip s.visible trxs kept (trxs.foldl (restoreTransaction L skip) s).visible := by
  induction trxs generalizing s with
  | nil => exact ⟨.refl s, [], (List.append_nil _).symm, .nil⟩
  | cons trx rest ih =>
    obtain ⟨hstays, kept, hpending, hrestores⟩ :=
      restoreTransaction_restores L skip s trx
    obtain ⟨hstays', kept', hpending', hrestores'⟩ := ih (s.restoreTransaction L skip trx)
    rw [List.foldl_cons]
    refine ⟨hstays.trans hstays', kept ++ kept', ?_, hrestores.append hrestores'⟩
    rw [hpending', hpending, List.append_assoc]

theorem restorePending_restores (s : Db R Result) (pending : List (Processed Trx Result)) :
    (s.restorePending L skip pending).node.state = s.node.state ∧
      (s.restorePending L skip pending).node.undo <+: s.node.undo ∧
      (s.restorePending L skip pending).popped = [] ∧ ∃ kept,
      (s.restorePending L skip pending).pending = s.pending ++ kept ∧
      Restores L skip s.visible (s.popped ++ pending.map Processed.trx) kept
        (s.restorePending L skip pending).visible := by
  unfold restorePending
  obtain ⟨hstays, kept, hpending, hrestores⟩ :=
    foldl_restoreTransaction L skip s s.popped
  obtain ⟨hstays', kept', hpending', hrestores'⟩ := foldl_restoreTransaction L skip
    { s.popped.foldl (restoreTransaction L skip) s with popped := [] } (pending.map Processed.trx)
  refine ⟨hstays'.state.trans hstays.state, hstays'.undo.trans hstays.undo, hstays'.popped,
    kept ++ kept', ?_, hrestores.append hrestores'⟩
  rw [hpending']
  show _ ++ kept' = _
  rw [hpending, List.append_assoc]

end Db

/-- Between calls the head block is that of a chain, and `_popped_tx` is empty. -/
structure Ready (L : Rules R Result Key) (s : Db R Result) : Prop where
  led : Led L s.node
  popped : s.popped = []

theorem Ready.pushBlock {s : Db R Result} (h : Ready L s) (skip : Skip) (b : Block) :
    Ready L (s.pushBlock L skip b).1 ∧ ∃ blocks,
      PoppedBlocks L skip { s with pending := [], session := none } b
        (s.pushBlock L skip b).1.node.state blocks ∧
      Restores L skip (s.pushBlock L skip b).1.node.state
        (blocks.flatMap R.transactions ++ s.pending.map Processed.trx)
        (s.pushBlock L skip b).1.pending (s.pushBlock L skip b).1.visible := by
  unfold Db.pushBlock
  cases hpush : ({ s with pending := [], session := none } : Db R Result).pushBlockWith L skip b with
  | mk s1 r =>
    have hmoved := Db.pushBlockWith_moved hpush h.led
    obtain ⟨blocks, hblocks, hpopped⟩ := hmoved.popped
    dsimp only at hpopped hblocks ⊢
    rw [h.popped, List.append_nil] at hpopped
    obtain ⟨hstate, hundo, hempty, kept, hpending, hrestores⟩ :=
      Db.restorePending_restores L skip s1 s.pending
    rw [hmoved.pending, List.nil_append] at hpending
    rw [hpopped] at hrestores
    have hvisible : s1.visible = s1.node.state := by
      unfold Db.visible
      rw [hmoved.session rfl]
      rfl
    refine ⟨⟨hmoved.led.of_undo hstate hundo, hempty⟩, blocks, ?_, ?_⟩
    · rw [hstate]
      exact hblocks
    · rw [hstate, hpending, ← hvisible]
      exact hrestores

/-- A transaction at its turn, after those before it: it is pending again, it is in the chain or among
those before it, or it does not apply to what they lead to. -/
def Accounted (L : Rules R Result Key) (skip : Skip) (s : Db R Result) (before : List Trx) (trx : Trx)
    (after : List Trx) : Prop :=
  ∃ kept rest v, s.pending = kept ++ rest ∧ (kept.map Processed.trx).Sublist before ∧
    (rest.map Processed.trx).Sublist (trx :: after) ∧ Pends L (· = skip) s.node.state kept v ∧
    ((rest.map Processed.trx).head? = some trx ∨ InChain L s.node.state (R.trxId trx) ∨
      R.trxId trx ∈ kept.map (fun p => R.trxId p.trx) ∨ ∃ e, applyTransaction R skip v trx = .error e)

/-- What the push of a block owes: the pending transactions are those of the popped blocks and then
those that were pending, without any that cannot be accounted for. -/
def Restored (L : Rules R Result Key) (skip : Skip) (b : Block) (s s' : Db R Result) : Prop :=
  ∃ blocks, PoppedBlocks L skip { s with pending := [], session := none } b s'.node.state blocks ∧
    (s'.pending.map Processed.trx).Sublist
      (blocks.flatMap R.transactions ++ s.pending.map Processed.trx) ∧
    ∀ before trx after, blocks.flatMap R.transactions ++ s.pending.map Processed.trx =
      before ++ trx :: after → Accounted L skip s' before trx after

theorem Restores.accounted {skip : Skip} {s : Db R Result} {before after : List Trx} {trx : Trx}
    (h : Restores L skip s.node.state (before ++ trx :: after) s.pending s.visible)
    (hled : Led L s.node) : Accounted L skip s before trx after := by
  obtain ⟨kept, rest, v, hpending, hbefore, hrest⟩ := h.split
  have hpends : Pends L (· = skip) s.node.state kept v := by
    have hnil : Pends L (· = skip) s.node.state [] s.node.state := .nil
    have hall := hbefore.pends hnil rfl
    rwa [List.nil_append] at hall
  refine ⟨kept, rest, v, hpending, hbefore.sublist, hrest.sublist, hpends, ?_⟩
  cases hrest with
  | known hknown _ =>
    rcases hpends.of_knows hknown with hkept | hhead
    · exact .inr (.inr (.inl hkept))
    · exact .inr (.inl (hled.inChain hhead))
  | invalid herror _ => exact .inr (.inr (.inr ⟨_, herror⟩))
  | pushed _ _ => exact .inl rfl

theorem Ready.restored {s : Db R Result} (h : Ready L s) (skip : Skip) (b : Block) :
    Restored L skip b s (s.pushBlock L skip b).1 := by
  obtain ⟨hready, blocks, hblocks, hrestores⟩ := h.pushBlock skip b
  refine ⟨blocks, hblocks, hrestores.sublist, fun before trx after hsplit => ?_⟩
  rw [hsplit] at hrestores
  exact hrestores.accounted hready.led

theorem Ready.follows {s : Db R Result} (h : Ready L s) {allowed : Skip → Prop} {skip : Skip}
    (hallowed : allowed skip) (b : Block) : Follows L allowed (s.pushBlock L skip b).1 := by
  obtain ⟨-, blocks, -, hrestores⟩ := h.pushBlock skip b
  have hnil : Pends L allowed (s.pushBlock L skip b).1.node.state []
      (s.pushBlock L skip b).1.node.state := .nil
  have hall := hrestores.pends hnil hallowed
  rwa [List.nil_append] at hall

namespace Db

variable {s : Db R Result} (skip : Skip)

theorem selectTransactions_stays (maximum total : Nat) (pending : List (Processed Trx Result))
    (s : Db R Result) :
    Stays s (s.selectTransactions L skip maximum total pending).1 ∧
      (s.selectTransactions L skip maximum total pending).1.pending = s.pending := by
  induction pending generalizing total s with
  | nil => exact ⟨.refl s, rfl⟩
  | cons tx rest ih =>
    unfold selectTransactions
    split
    · exact ih total s
    · obtain ⟨htry, hpending, -, -⟩ := tryTransaction_stays L skip s tx.trx
      cases htried : s.tryTransaction L skip tx.trx with
      | mk s1 r =>
        rw [htried] at htry hpending
        dsimp only at htry hpending
        cases r with
        | error e =>
          obtain ⟨hrest, hrest'⟩ := ih total s1
          exact ⟨htry.trans hrest, hrest'.trans hpending⟩
        | ok result =>
          dsimp only
          split
          · obtain ⟨hrest, hrest'⟩ := ih total s1
            exact ⟨htry.trans hrest, hrest'.trans hpending⟩
          · have hsession : Stays s { s1 with session := some result.2 } :=
              ⟨htry.state, htry.undo, htry.popped⟩
            obtain ⟨hrest, hrest'⟩ := ih (total + L.packSizeProcessed result.1)
              { s1 with session := some result.2 }
            exact ⟨hsession.trans hrest, hrest'.trans hpending⟩

theorem assembleBlock_stays (s : Db R Result) (time witness : Nat) (key : Key) :
    Stays s (s.assembleBlock L skip time witness key).1 ∧
      (s.assembleBlock L skip time witness key).1.pending = s.pending := by
  unfold assembleBlock
  obtain ⟨hstays, hpending⟩ := selectTransactions_stays skip
    (L.maximumBlockSize s.node.state.view.objects) (L.maxBlockHeaderSize witness) s.pending
    { s.startSession 0 with session := some s.node.state } (L := L)
  have hopen := startSession_stays s 0
  refine ⟨⟨?_, ?_, ?_⟩, hpending⟩
  · exact hstays.state.trans hopen.state
  · exact hstays.undo.trans hopen.undo
  · exact hstays.popped.trans hopen.popped

end Db

/-- `generate_block` gets to its push of a block. -/
def Produces (L : Rules R Result Key) (s : Db R Result) (time witness : Nat) (key : Key) (skip : Skip) :
    Prop :=
  Db.checkSlot L s.visible.view time witness = .ok () ∧
    Db.checkSigningKey L skip s.node.state.view witness key = .ok ()

theorem Ready.generateBlock_cases {s : Db R Result} (h : Ready L s) (skip : Skip) (time witness : Nat)
    (key : Key) :
    (Db.checkSlot L s.visible.view time witness ≠ .ok () ∧
      (s.generateBlock L skip time witness key).1 = s) ∨
    (Db.checkSlot L s.visible.view time witness = .ok () ∧
      Db.checkSigningKey L skip s.node.state.view witness key ≠ .ok () ∧
      (s.generateBlock L skip time witness key).1 = { s with session := none }) ∨
    (Produces L s time witness key skip ∧ ∃ s1 b,
      ({ s with session := none } : Db R Result).assembleBlock L skip time witness key = (s1, b) ∧
      Ready L s1 ∧ s1.node.state = s.node.state ∧ s1.pending = s.pending ∧
      (s.generateBlock L skip time witness key).1 =
        (s1.pushBlock L { skip with transactionSignatures := true } b).1) := by
  unfold Db.generateBlock
  cases hslot : Db.checkSlot L s.visible.view time witness with
  | error e => exact .inl ⟨nofun, rfl⟩
  | ok _ =>
    dsimp only
    cases hkey : Db.checkSigningKey L skip s.node.state.view witness key with
    | error e => exact .inr (.inl ⟨rfl, nofun, rfl⟩)
    | ok _ =>
      obtain ⟨hstays, hpending⟩ :=
        Db.assembleBlock_stays (L := L) skip { s with session := none } time witness key
      dsimp only
      cases hblock : ({ s with session := none } : Db R Result).assembleBlock L skip time witness key with
      | mk s1 b =>
        rw [hblock] at hstays hpending
        have hready : Ready L s1 :=
          ⟨h.led.of_undo hstays.state hstays.undo, hstays.popped.trans h.popped⟩
        refine .inr (.inr ⟨⟨hslot, hkey⟩, s1, b, rfl, hready, hstays.state, hpending, ?_⟩)
        dsimp only
        cases s1.pushBlock L { skip with transactionSignatures := true } b with
        | mk s2 r =>
          cases r with
          | ok _ => rfl
          | error e => rfl

end Meta1Core.Pending
