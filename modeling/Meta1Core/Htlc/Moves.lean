import Meta1Core.Htlc.Evaluators

/-!
# What the operations on locks move

Each operation leaves the locks that it should, and moves the balances by a credit or a debit of the
amount of a lock and by its fee.
-/

namespace Meta1Core.Htlc

open Allocation (u32 u32_of_lt)
open Lib (Index Rows Returns)
open Protocol Ledger Extended

variable {s s' : State}

def credit (account : AccountId) (amount : Asset) (holder : AccountId) (id : AssetId) : Int :=
  if holder = account ∧ id = amount.assetId then amount.amount else 0

variable {account : AccountId} {amount : Asset} {l l' : Ledger.State}

theorem getBalance_of_credit (h : Returns (adjustBalance account amount) l () l')
    (holder : AccountId) (id : AssetId) :
    getBalance holder id l' = getBalance holder id l + credit account amount holder id :=
  getBalance_of_adjustBalance h holder id

theorem getBalance_of_debit (h : Returns (adjustBalance account amount.neg) l () l')
    (holder : AccountId) (id : AssetId) :
    getBalance holder id l' = getBalance holder id l - credit account amount holder id := by
  rw [getBalance_of_adjustBalance h holder id]
  unfold credit
  show getBalance holder id l + (if holder = account ∧ id = amount.assetId then -amount.amount
    else 0) = _
  split <;> omega

theorem getBalance_of_sameBalances (h : SameBalances l l') (holder : AccountId) (id : AssetId) :
    getBalance holder id l' = getBalance holder id l := by
  unfold getBalance
  rw [show l'.balances = l.balances from h]

theorem returns_fetchHtlc_bind {β : Type} {id : Nat} {f : HtlcObject → Evaluation β} {b : β} :
    Returns (fetchHtlc id >>= f) s b s' ↔
      ∃ h, s.objects.htlcs.find id = some h ∧ Returns (f h) s b s' := by
  unfold fetchHtlc
  rw [bind_assoc, Returns.get_bind_iff]
  cases s.objects.htlcs.find id with
  | none => simp [Returns.bind_iff, Returns.throw_iff]
  | some h => simp

variable {u : Unit}

theorem returns_writeHtlcs {f : Index HtlcObject → Index HtlcObject} :
    Returns (writeHtlcs f) s u s' ↔
      s' = { s with objects := { s.objects with htlcs := f s.objects.htlcs } } :=
  Returns.modify_iff

theorem returns_readOptions_bind {β : Type} {e : Exception} {f : HtlcOptions → Evaluation β}
    {b : β}
    (h : Returns ((do
      match (← get).objects.updatableHtlcOptions with
      | some options => return options
      | none => throw e : Evaluation HtlcOptions) >>= f) s b s') :
    ∃ options, Returns (f options) s b s' := by
  rw [bind_assoc, Returns.get_bind_iff] at h
  cases hoptions : s.objects.updatableHtlcOptions with
  | none =>
    rw [hoptions] at h
    obtain ⟨_, _, hthrow, -⟩ := h.of_bind
    exact (Returns.throw_iff.mp hthrow).elim
  | some options =>
    rw [hoptions] at h
    exact ⟨options, h⟩

structure Moved (s s' : State) (htlcs : Index HtlcObject) (gain : AccountId → AssetId → Int) :
    Prop where
  htlcs : s'.objects.htlcs = htlcs
  headBlockTime : s'.ledger.headBlockTime = s.ledger.headBlockTime
  balances : ∀ holder id, getBalance holder id s'.ledger =
    getBalance holder id s.ledger + gain holder id

variable {ctx : TransactionEvaluationState}

variable {requiredFee : Int}

theorem CreateOperation.of_evaluate {op : CreateOperation} {id : Nat}
    (h : Returns (op.evaluate ctx requiredFee) s id s') :
    Moved s s' (s.objects.htlcs.create (op.htlc s.ledger.headBlockTime)) fun holder id =>
      -credit op.fromAccount op.amount holder id - credit op.fromAccount op.fee holder id := by
  obtain ⟨_, -, h⟩ := h.of_lift
  obtain ⟨x, s1, s2, s3, -, hevaluate, hpaid, happly, hs', hfee⟩ := of_startEvaluate h
  obtain ⟨options, hevaluate⟩ := returns_readOptions_bind hevaluate
  obtain ⟨-, hevaluate⟩ := of_require hevaluate
  obtain ⟨-, hevaluate⟩ := of_require hevaluate
  have hevaluate := hevaluate.of_get
  obtain ⟨-, hevaluate⟩ := of_require hevaluate
  obtain ⟨_, -, hevaluate⟩ := of_fetch hevaluate
  obtain ⟨_, -, hevaluate⟩ := of_fetch hevaluate
  obtain ⟨_, -, hevaluate⟩ := of_fetch hevaluate
  obtain ⟨-, hevaluate⟩ := of_require hevaluate
  obtain ⟨ledger, hrequire, hs1⟩ := returns_onLedger.mp hevaluate
  obtain ⟨-, rfl⟩ := Ledger.returns_require.mp hrequire
  have hs1 : s1 = s := hs1
  obtain ⟨_, l4, hdebit, happly⟩ := of_onLedger happly
  have happly := of_headBlockTime happly
  have happly := happly.of_get
  obtain ⟨_, s5, hwrite, happly⟩ := happly.of_bind
  obtain ⟨-, rfl⟩ := happly.of_pure
  have hs3 := returns_writeHtlcs.mp hwrite
  have htime : l4.headBlockTime = s.ledger.headBlockTime := by
    rw [adjustBalance_frame hdebit, ← hs1]
    exact hpaid.fees.headBlockTime
  constructor
  case htlcs =>
    rw [hs', hs3]
    show (s2.objects.htlcs.create (op.htlc l4.headBlockTime)) = _
    rw [htime, hpaid.objects, hs1]
  case headBlockTime =>
    rw [adjustBalance_frame hfee, hs3]
    exact htime
  case balances =>
    intro holder id
    rw [getBalance_of_debit hfee, hs3]
    show getBalance holder id l4 - _ = _
    rw [getBalance_of_debit hdebit, getBalance_of_sameBalances hpaid.balances, hs1]
    omega

/-- The preimage that an operation shows opens the lock. -/
def Opens (hashing : Hashing) (preimage : Bytes) (preimageHash : HtlcHash) (size : Nat) : Prop :=
  preimage.length = size ∧ preimageHash.visit hashing preimage = true

theorem RedeemOperation.of_evaluate {hashing : Hashing} {op : RedeemOperation}
    (h : Returns (op.evaluate hashing ctx requiredFee) s u s') :
    ∃ htlcObj, s.objects.htlcs.find op.htlcId = some htlcObj ∧
      Opens hashing op.preimage htlcObj.preimageHash htlcObj.preimageSize ∧
      Moved s s' (s.objects.htlcs.remove op.htlcId) fun holder id =>
        credit htlcObj.toAccount htlcObj.amount holder id - credit op.redeemer op.fee holder id := by
  obtain ⟨_, -, h⟩ := h.of_lift
  obtain ⟨x, s1, s2, s3, -, hevaluate, hpaid, happly, hs', hfee⟩ := of_startEvaluate h
  obtain ⟨htlcObj, hfound, hevaluate⟩ := returns_fetchHtlc_bind.mp hevaluate
  obtain ⟨hsize, hevaluate⟩ := of_require hevaluate
  obtain ⟨hhash, hevaluate⟩ := of_require hevaluate
  obtain ⟨rfl, hs1⟩ := hevaluate.of_pure
  obtain ⟨_, l4, hcredit, happly⟩ := of_onLedger happly
  have hs3 := returns_writeHtlcs.mp happly
  refine ⟨x, hfound, ⟨hsize, hhash⟩, ?_⟩
  constructor
  case htlcs =>
    rw [hs', hs3]
    show s2.objects.htlcs.remove op.htlcId = _
    rw [hpaid.objects, hs1]
  case headBlockTime =>
    rw [adjustBalance_frame hfee, hs3]
    show l4.headBlockTime = _
    rw [adjustBalance_frame hcredit, ← hs1]
    exact hpaid.fees.headBlockTime
  case balances =>
    intro holder id
    rw [getBalance_of_debit hfee, hs3]
    show getBalance holder id l4 - _ = _
    rw [getBalance_of_credit hcredit, getBalance_of_sameBalances hpaid.balances, hs1]
    omega

theorem ExtendOperation.of_evaluate {op : ExtendOperation}
    (h : Returns (op.evaluate ctx requiredFee) s u s') :
    ∃ htlcObj, s.objects.htlcs.find op.htlcId = some htlcObj ∧
      op.updateIssuer = htlcObj.fromAccount ∧
      op.extend htlcObj = { htlcObj with expiration := htlcObj.expiration + op.secondsToAdd } ∧
      Moved s s' (s.objects.htlcs.modify op.htlcId op.extend) fun holder id =>
        -credit op.updateIssuer op.fee holder id := by
  obtain ⟨_, -, h⟩ := h.of_lift
  obtain ⟨x, s1, s2, s3, -, hevaluate, hpaid, happly, hs', hfee⟩ := of_startEvaluate h
  obtain ⟨htlcObj, hfound, hevaluate⟩ := returns_fetchHtlc_bind.mp hevaluate
  obtain ⟨hissuer, hevaluate⟩ := of_require hevaluate
  obtain ⟨hfits, hevaluate⟩ := of_require hevaluate
  obtain ⟨options, hevaluate⟩ := returns_readOptions_bind hevaluate
  have hevaluate := of_headBlockTime hevaluate
  obtain ⟨ledger, hrequire, hs1⟩ := returns_onLedger.mp hevaluate
  obtain ⟨-, rfl⟩ := Ledger.returns_require.mp hrequire
  have hs1 : s1 = s := hs1
  have hs3 := returns_writeHtlcs.mp happly
  refine ⟨htlcObj, hfound, hissuer, ?_, ?_⟩
  · -- the date was checked before it is stored
    rw [extend, u32_of_lt (by omega)]
  constructor
  case htlcs =>
    rw [hs', hs3]
    show s2.objects.htlcs.modify op.htlcId op.extend = _
    rw [hpaid.objects, hs1]
  case headBlockTime =>
    rw [adjustBalance_frame hfee, hs3, ← hs1]
    exact hpaid.fees.headBlockTime
  case balances =>
    intro holder id
    rw [getBalance_of_debit hfee, hs3]
    show getBalance holder id s2.ledger - _ = _
    rw [getBalance_of_sameBalances hpaid.balances, hs1]
    omega

variable {e : Σ _ : Nat, HtlcObject}

theorem mem_expiredHtlcs {now : Nat} {htlcs : Index HtlcObject} :
    e ∈ expiredHtlcs now htlcs ↔ htlcs.find e.1 = some e.2 ∧ e.2.expiration ≤ now := by
  unfold expiredHtlcs
  rw [List.mem_insertionSort, List.mem_filter, decide_eq_true_iff]
  exact and_congr_left fun _ => Rows.mem_entries_iff

theorem nodup_expiredHtlcs (now : Nat) (htlcs : Index HtlcObject) :
    ((expiredHtlcs now htlcs).map (·.1)).Nodup := by
  have hperm := (List.perm_insertionSort byExpiration
    (htlcs.rows.entries.filter fun e => e.2.expiration ≤ now)).map (·.1)
  refine hperm.nodup_iff.mpr ?_
  exact (List.filter_sublist.map _).nodup htlcs.rows.nodupKeys

def removeAll (es : List (Σ _ : Nat, HtlcObject)) (htlcs : Index HtlcObject) : Index HtlcObject :=
  es.foldl (fun htlcs e => htlcs.remove e.1) htlcs

theorem find_removeAll (es : List (Σ _ : Nat, HtlcObject)) (htlcs : Index HtlcObject) (id : Nat) :
    (removeAll es htlcs).find id = if id ∈ es.map (·.1) then none else htlcs.find id := by
  unfold removeAll
  rw [← Index.find_foldl_remove, List.foldl_map]

theorem refund_moved (h : Returns (refund e) s u s') :
    Moved s s' (s.objects.htlcs.remove e.1) (credit e.2.fromAccount e.2.amount) := by
  obtain ⟨_, l1, hcredit, h⟩ := of_onLedger h
  have hs' := returns_writeHtlcs.mp h
  rw [hs']
  constructor
  case htlcs => rfl
  case headBlockTime =>
    show l1.headBlockTime = _
    rw [adjustBalance_frame hcredit]
  case balances => exact getBalance_of_credit hcredit

theorem refunds_moved {es : List (Σ _ : Nat, HtlcObject)} {u : PUnit}
    (h : Returns (es.forM refund) s u s') :
    Moved s s' (removeAll es s.objects.htlcs) fun holder id =>
      Lib.total (fun e => credit e.2.fromAccount e.2.amount holder id) es := by
  induction es generalizing s with
  | nil =>
    obtain ⟨-, rfl⟩ := h.of_pure
    exact ⟨rfl, rfl, fun _ _ => by simp⟩
  | cons e es ih =>
    obtain ⟨_, s1, hrefund, hrest⟩ := h.of_bind
    have hfirst := refund_moved hrefund
    have hothers := ih hrest
    constructor
    case htlcs => rw [hothers.htlcs, hfirst.htlcs]; rfl
    case headBlockTime => rw [hothers.headBlockTime, hfirst.headBlockTime]
    case balances =>
      intro holder id
      rw [hothers.balances, hfirst.balances, Lib.total_cons]
      omega

theorem applyBlock_moved {time : Nat} (h : Returns (applyBlock time) s u s') :
    s'.objects.htlcs = removeAll (expiredHtlcs time s.objects.htlcs) s.objects.htlcs ∧
      s'.ledger.headBlockTime = time ∧
      ∀ holder id, getBalance holder id s'.ledger = getBalance holder id s.ledger +
        Lib.total (fun e => credit e.2.fromAccount e.2.amount holder id)
          (expiredHtlcs time s.objects.htlcs) := by
  obtain ⟨_, s1, hmodify, h⟩ := h.of_bind
  have hs1 := Returns.modify_iff.mp hmodify
  have hrefunds := refunds_moved (h.of_get)
  rw [hs1] at hrefunds
  exact ⟨hrefunds.htlcs, hrefunds.headBlockTime, hrefunds.balances⟩

end Meta1Core.Htlc
