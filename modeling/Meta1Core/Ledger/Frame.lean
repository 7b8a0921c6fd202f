import Meta1Core.Ledger.Balances

/-!
# What fees leave alone

Paying a fee moves balances, the pending fees of accounts, the fee pools and accumulated fees of
assets and the market fee balances.  Orders, pools and everything else about an asset stay.
-/

namespace Meta1Core.Ledger

open Lib (Rows Index Returns Relates Raises)
open Protocol

variable {s s' t : State}

variable {c : Prop} {m : String}

theorem returns_require [Decidable c] {u : Unit} : Returns (require c m) s u s' ↔ c ∧ s' = s := by
  unfold require
  rw [Returns.ite_iff]
  simp [Returns.pure_iff, Returns.throw_iff]

variable {V α β : Type} {f : AssetObject → Except Exception AssetObject} {account payer : AccountId}
  {delta fee : Asset}

theorem returns_require_bind [Decidable c] {f : Unit → Evaluation α} {a : α} :
    Returns (require c m >>= f) s a s' ↔ c ∧ Returns (f ()) s a s' := by
  rw [Returns.bind_iff]
  constructor
  · rintro ⟨_, t, hrequire, hf⟩
    obtain ⟨hc, rfl⟩ := returns_require.mp hrequire
    exact ⟨hc, hf⟩
  · rintro ⟨hc, hf⟩
    exact ⟨(), s, returns_require.mpr ⟨hc, rfl⟩, hf⟩

theorem returns_fetch_bind {t : Table V} {id : Nat} {f : V → Evaluation α} {a : α} :
    Returns (t.fetch id >>= f) s a s' ↔
      ∃ v, (t.read s).find id = some v ∧ Returns (f v) s a s' := by
  rw [Returns.bind_iff]
  constructor
  · rintro ⟨v, t, hfetch, hf⟩
    obtain ⟨hv, rfl⟩ := Table.fetch_iff.mp hfetch
    exact ⟨v, hv, hf⟩
  · rintro ⟨v, hv, hf⟩
    exact ⟨v, s, Table.fetch_iff.mpr ⟨hv, rfl⟩, hf⟩

theorem of_require [Decidable c] {f : Unit → Evaluation α} {a : α}
    (h : Returns (require c m >>= f) s a s') : c ∧ Returns (f ()) s a s' :=
  returns_require_bind.mp h

theorem of_fetch {t : Table V} {id : Nat} {f : V → Evaluation α} {a : α}
    (h : Returns (t.fetch id >>= f) s a s') : ∃ v, (t.read s).find id = some v ∧
      Returns (f v) s a s' := returns_fetch_bind.mp h

theorem raises_require [Decidable c] {e : Exception} :
    Raises (require c m) s e ↔ ¬c ∧ e = .fc m := by
  unfold require
  rw [Raises.ite_iff]
  simp [Raises.pure_iff, Raises.throw_iff, eq_comm]

def AssetObject.withoutFees (a : AssetObject) : AssetObject :=
  { a with accumulatedFees := 0, feePool := 0 }

def State.assetView (s : State) (id : AssetId) : Option AssetObject :=
  (s.assets.find id).map AssetObject.withoutFees

theorem State.assetView_of_find {id : AssetId} {a : AssetObject}
    (h : s.assets.find id = some a) : s.assetView id = some a.withoutFees := by
  rw [State.assetView, h]
  rfl

structure FeesOnly (s s' : State) : Prop where
  headBlockTime : s'.headBlockTime = s.headBlockTime
  limitOrders : s'.limitOrders = s.limitOrders
  callOrders : s'.callOrders = s.callOrders
  forceSettlements : s'.forceSettlements = s.forceSettlements
  collateralBids : s'.collateralBids = s.collateralBids
  liquidityPools : s'.liquidityPools = s.liquidityPools
  blindedBalances : s'.blindedBalances = s.blindedBalances
  assets : ∀ id, s'.assetView id = s.assetView id

namespace FeesOnly

theorem refl (s : State) : FeesOnly s s := ⟨rfl, rfl, rfl, rfl, rfl, rfl, rfl, fun _ => rfl⟩

theorem trans (h : FeesOnly s s') (h' : FeesOnly s' t) : FeesOnly s t where
  headBlockTime := h'.headBlockTime.trans h.headBlockTime
  limitOrders := h'.limitOrders.trans h.limitOrders
  callOrders := h'.callOrders.trans h.callOrders
  forceSettlements := h'.forceSettlements.trans h.forceSettlements
  collateralBids := h'.collateralBids.trans h.collateralBids
  liquidityPools := h'.liquidityPools.trans h.liquidityPools
  blindedBalances := h'.blindedBalances.trans h.blindedBalances
  assets := fun id => (h'.assets id).trans (h.assets id)

instance : Std.Refl FeesOnly := ⟨refl⟩

instance : IsTrans State FeesOnly := ⟨fun _ _ _ => trans⟩

end FeesOnly

section Primitives

variable {R : State → State → Prop} [Std.Refl R]

theorem relates_require (c : Prop) [Decidable c] (m : String) : Relates R (require c m) := by
  intro s a s' h
  obtain ⟨-, rfl⟩ := returns_require.mp h
  exact refl _

theorem relates_fetch {V : Type} (t : Table V) (id : Nat) : Relates R (t.fetch id) := by
  intro s a s' h
  obtain ⟨-, rfl⟩ := Table.fetch_iff.mp h
  exact refl _

variable [IsTrans State R]

section

variable (hdeposit : ∀ account delta, Relates R (depositMarketFeeVestingBalance account delta))

include hdeposit

theorem relates_payRewards (seller : AccountObject) (id : AssetId) (a : AssetObject)
    (issuerFees : Asset) : Relates R (payRewards seller id a issuerFees) := by
  unfold payRewards
  dsimp only
  refine .ite (.pure _) (.ite (.pure _) (.bind (.lift _) fun reward => .ite (.pure _)
    (.bind (relates_fetch _ _) fun registrar => .ite (.pure _)
      (.bind (relates_require _ _) fun _ => ?_))))
  have hrest (registrarReward : Int) : Relates R (do
      if 0 < registrarReward then
        depositMarketFeeVestingBalance seller.registrar ⟨registrarReward, id⟩
      return reward) :=
    .ite (.bind (hdeposit _ _) fun _ => .pure _) (.pure _)
  exact .ite (.bind (.lift _) fun referrerReward => .bind (relates_fetch _ _) fun referrer =>
    .ite (.bind (relates_require _ _) fun _ => .bind (.lift _) fun rest =>
      .bind (hdeposit _ _) fun _ => hrest _) (hrest _)) (hrest _)

theorem relates_payCalculatedMarketFees {id : AssetId}
    (hupdate : ∀ g : AssetObject → Except Exception AssetObject, (∀ a a', g a = .ok a' → a'.withoutFees = a.withoutFees) → Relates R (assets.update id g))
    (seller : Option AccountObject) (receives issuerFees : Asset) :
    Relates R (payCalculatedMarketFees seller id receives issuerFees) := by
  unfold payCalculatedMarketFees
  refine .bind (.lift _) fun _ => .bind (relates_require _ _) fun _ => .ite ?_ (.pure _)
  refine .bind (relates_fetch _ _) fun a => .bind ?_ fun reward => .ite ?_ (.pure _)
  · cases seller with
    | some seller => exact relates_payRewards hdeposit _ _ _ _
    | none => exact .pure _
  · refine hupdate _ fun a a' h => ?_
    obtain ⟨rest, -, h⟩ := Lib.of_bind h
    obtain ⟨fees, -, h⟩ := Lib.of_bind h
    cases h
    rfl

theorem relates_payMarketFees {id : AssetId}
    (hupdate : ∀ g : AssetObject → Except Exception AssetObject, (∀ a a', g a = .ok a' → a'.withoutFees = a.withoutFees) → Relates R (assets.update id g))
    (seller : Option AccountObject) (receives : Asset) (isMaker : Bool) :
    Relates R (payMarketFees seller id receives isMaker) :=
  .bind (relates_fetch _ _) fun _ => .bind (.lift _) fun _ =>
    .bind (relates_payCalculatedMarketFees hdeposit hupdate _ _ _) fun _ => .pure _

end

end Primitives

theorem updateAccount_feesOnly (id : AccountId)
    (f : AccountObject → Except Exception AccountObject) :
    Relates FeesOnly (accounts.update id f) := by
  intro s a s' h
  obtain ⟨v, v', -, -, rfl⟩ := Table.update_iff.mp h
  exact ⟨rfl, rfl, rfl, rfl, rfl, rfl, rfl, fun _ => rfl⟩

variable {id : AssetId} {u : Unit}

theorem assetView_of_update (h : Returns (assets.update id f) s u s') :
    ∃ a a', s.assets.find id = some a ∧ f a = .ok a' ∧
      s' = { s with assets := s.assets.modify id fun _ => a' } ∧
      ∀ j, s'.assetView j = if j = id then some a'.withoutFees else s.assetView j := by
  obtain ⟨a, a', hfind, hf, rfl⟩ := Table.update_iff.mp h
  have hfind' : s.assets.find id = some a := hfind
  refine ⟨a, a', hfind', hf, rfl, fun j => ?_⟩
  change ((s.assets.modify id fun _ => a').find j).map _ = _
  rw [Index.find_modify]
  by_cases heq : j = id
  · rw [if_pos heq, if_pos heq, hfind']
    rfl
  · rw [if_neg heq, if_neg heq]
    rfl

theorem updateAsset_feesOnly (id : AssetId)
    (hf : ∀ a a', f a = .ok a' → a'.withoutFees = a.withoutFees) :
    Relates FeesOnly (assets.update id f) := by
  intro s u s' h
  obtain ⟨a, a', hfind, ha, rfl, hview⟩ := assetView_of_update h
  refine ⟨rfl, rfl, rfl, rfl, rfl, rfl, rfl, fun j => ?_⟩
  rw [hview j]
  split
  · rename_i heq
    rw [heq, State.assetView_of_find hfind, hf a a' ha]
  · rfl

theorem adjustBalance_feesOnly (account : AccountId) (delta : Asset) :
    Relates FeesOnly (adjustBalance account delta) := by
  have hset (k : AccountId × AssetId) (v : Int) : Relates FeesOnly
      (modify fun s => { s with balances := s.balances.insert k v } : Evaluation Unit) :=
    .modify fun s => ⟨rfl, rfl, rfl, rfl, rfl, rfl, rfl, fun _ => rfl⟩
  unfold adjustBalance
  refine .ite (.pure _) (.bind .get fun s => ?_)
  split
  · exact .bind (relates_require _ _) fun _ => hset _ _
  · refine .ite (.bind (relates_require _ _) fun _ => ?_) ?_
    all_goals exact .bind (.lift _) fun _ => hset _ _

theorem depositMarketFeeVestingBalance_feesOnly (account : AccountId) (delta : Asset) :
    Relates FeesOnly (depositMarketFeeVestingBalance account delta) := by
  unfold depositMarketFeeVestingBalance
  refine .bind (relates_require _ _) fun _ => .ite (.pure _) (.bind .get fun s => ?_)
  split
  · refine .bind (fun s id s' h => ?_) fun _ => .pure _
    obtain ⟨-, rfl⟩ := Table.create_iff.mp h
    exact ⟨rfl, rfl, rfl, rfl, rfl, rfl, rfl, fun _ => rfl⟩
  · intro s u s' h
    obtain ⟨v, v', -, -, rfl⟩ := Table.update_iff.mp h
    exact ⟨rfl, rfl, rfl, rfl, rfl, rfl, rfl, fun _ => rfl⟩

theorem payCalculatedMarketFees_feesOnly (seller : Option AccountObject) (id : AssetId)
    (receives issuerFees : Asset) :
    Relates FeesOnly (payCalculatedMarketFees seller id receives issuerFees) :=
  relates_payCalculatedMarketFees depositMarketFeeVestingBalance_feesOnly
    (fun _ hg => updateAsset_feesOnly _ hg) _ _ _

theorem payMarketFees_feesOnly (seller : Option AccountObject) (id : AssetId) (receives : Asset)
    (isMaker : Bool) : Relates FeesOnly (payMarketFees seller id receives isMaker) :=
  relates_payMarketFees depositMarketFeeVestingBalance_feesOnly
    (fun _ hg => updateAsset_feesOnly _ hg) _ _ _

theorem convertFee_feesOnly (ctx : TransactionEvaluationState) (fee : Asset) (coreFeePaid : Int) :
    Relates FeesOnly (convertFee ctx fee coreFeePaid) := by
  refine .ite (updateAsset_feesOnly _ fun a a' h => ?_) (.pure _)
  obtain ⟨_, -, h⟩ := Lib.of_bind h
  obtain ⟨_, -, h⟩ := Lib.of_bind h
  cases h
  rfl

theorem payFee_feesOnly (ctx : TransactionEvaluationState) (payer : AccountId)
    (coreFeePaid : Int) : Relates FeesOnly (payFee ctx payer coreFeePaid) :=
  .ite (.bind .get fun _ => updateAccount_feesOnly _ _) (.pure _)

theorem payFbaFee_feesOnly (isConfigured : State → Nat → Bool) (ctx : TransactionEvaluationState)
    (payer : AccountId) (fbaId : Nat) (coreFeePaid : Int) :
    Relates FeesOnly (payFbaFee isConfigured ctx payer fbaId coreFeePaid) := by
  refine .bind (relates_fetch _ _) fun _ => .bind .get fun t => .ite ?_ (payFee_feesOnly _ _ _)
  intro s u s' h
  obtain ⟨v, v', -, -, rfl⟩ := Table.update_iff.mp h
  exact ⟨rfl, rfl, rfl, rfl, rfl, rfl, rfl, fun _ => rfl⟩

theorem prepareFee_unchanged (payer : AccountId) (fee : Asset) :
    Relates (fun s s' => s' = s) (prepareFee payer fee) := by
  have : Std.Refl fun s s' : State => s' = s := ⟨fun _ => rfl⟩
  have : IsTrans State fun s s' => s' = s := ⟨fun _ _ _ h h' => h'.trans h⟩
  refine .bind (relates_require _ _) fun _ => .bind (relates_fetch _ _) fun _ =>
    .bind (relates_fetch _ _) fun _ => .bind (relates_require _ _) fun _ => .ite (.pure _) ?_
  exact .bind (.lift _) fun _ => .bind (relates_require _ _) fun _ =>
    .bind (relates_require _ _) fun _ => .pure _

variable {ctx : TransactionEvaluationState} {requiredFee : Int} {doEvaluate : Evaluation α}
variable {doApply : α → Evaluation β}

theorem of_startEvaluateWith {pay : Int → Evaluation Unit} {r : β}
    (h : Returns (startEvaluateWith ctx payer fee requiredFee pay doEvaluate doApply) s r s') :
    ∃ coreFeePaid x s1 t1 s2 s3, 0 ≤ fee.amount ∧ Returns doEvaluate s x s1 ∧
      Returns (convertFee ctx fee coreFeePaid) s1 () t1 ∧ Returns (pay coreFeePaid) t1 () s2 ∧
      Returns (doApply x) s2 r s3 ∧ Returns (adjustBalance payer fee.neg) s3 () s' := by
  obtain ⟨coreFeePaid, s0, hprepare, hchecked⟩ := h.of_bind
  obtain rfl := prepareFee_unchanged _ _ _ _ _ hprepare
  obtain ⟨_, _, hfee, -⟩ := hprepare.of_bind
  obtain ⟨hnonneg, -⟩ := returns_require.mp hfee
  have hrest : Returns (do
      let prepared ← doEvaluate
      convertFee ctx fee coreFeePaid
      pay coreFeePaid
      let result ← doApply prepared
      adjustBalance payer fee.neg
      return result) s0 r s' := by
    rcases hchecked.of_ite with ⟨-, h⟩ | ⟨-, h⟩
    · obtain ⟨_, _, hcheck, hrest⟩ := h.of_bind
      obtain ⟨-, rfl⟩ := returns_require.mp hcheck
      exact hrest
    · exact h
  obtain ⟨x, s1, hevaluate, h⟩ := hrest.of_bind
  obtain ⟨_, t1, hconvert, h⟩ := h.of_bind
  obtain ⟨_, t2, hpay, h⟩ := h.of_bind
  obtain ⟨r', s3, happly, h⟩ := h.of_bind
  obtain ⟨_, t4, hadjust, h⟩ := h.of_bind
  obtain ⟨rfl, rfl⟩ := h.of_pure
  exact ⟨coreFeePaid, x, s1, t1, t2, s3, hnonneg, hevaluate, hconvert, hpay, happly, hadjust⟩

theorem of_startEvaluate {r : β}
    (h : Returns (startEvaluate ctx payer fee requiredFee doEvaluate doApply) s r s') :
    ∃ x s1 s2 s3, Returns doEvaluate s x s1 ∧ FeesOnly s1 s2 ∧ Returns (doApply x) s2 r s3 ∧
      FeesOnly s3 s' := by
  obtain ⟨coreFeePaid, x, s1, t1, s2, s3, -, hevaluate, hconvert, hpay, happly, hadjust⟩ :=
    of_startEvaluateWith h
  have hfees : FeesOnly s1 s2 :=
    (convertFee_feesOnly _ _ _ _ _ _ hconvert).trans (payFee_feesOnly _ _ _ _ _ _ hpay)
  exact ⟨x, s1, s2, s3, hevaluate, hfees, happly, adjustBalance_feesOnly _ _ _ _ _ hadjust⟩

/-! ## Public balances -/

def State.publicBalance (s : State) (id : AssetId) : Int :=
  s.balances.total fun k v => if k.2 = id then v else 0

def State.BalancesNonneg (s : State) : Prop := ∀ k v, s.balances.lookup k = some v → 0 ≤ v

theorem State.BalancesNonneg.le_publicBalance (h : s.BalancesNonneg) {v : Int}
    (hv : s.balances.lookup (account, id) = some v) : v ≤ s.publicBalance id := by
  have hweight : ∀ (k : AccountId × AssetId) (w : Int), s.balances.lookup k = some w →
      0 ≤ if k.2 = id then w else 0 := by
    intro k w hw
    split
    · exact h k w hw
    · exact Int.le_refl 0
  have hle : (if id = id then v else 0) ≤ s.publicBalance id := Rows.le_total _ hweight hv
  rwa [if_pos rfl] at hle

theorem State.BalancesNonneg.insert (h : s.BalancesNonneg) {k : AccountId × AssetId} {v : Int}
    (hv : 0 ≤ v) : State.BalancesNonneg { s with balances := s.balances.insert k v } := by
  intro k' v' hlookup
  change (s.balances.insert k v).lookup k' = some v' at hlookup
  rw [Rows.lookup_insert_eq] at hlookup
  split at hlookup
  · cases hlookup
    exact hv
  · exact h k' v' hlookup

theorem State.BalancesNonneg.publicBalance_nonneg (h : s.BalancesNonneg) (id : AssetId) :
    0 ≤ s.publicBalance id := by
  refine Rows.total_nonneg fun k v hv => ?_
  split
  · exact h k v hv
  · exact Int.le_refl 0

theorem publicBalance_insert (s : State) (k : AccountId × AssetId) (v : Int) (id : AssetId) :
    State.publicBalance { s with balances := s.balances.insert k v } id =
      s.publicBalance id +
        if id = k.2 then v - (s.balances.lookup k).getD 0 else 0 := by
  change Rows.total _ (s.balances.insert k v) = Rows.total _ s.balances + _
  rw [Rows.total_insert, Rows.weightAt]
  cases s.balances.lookup k with
  | none => split <;> simp_all [eq_comm]
  | some w =>
    simp only [Option.getD_some]
    split <;> simp_all [eq_comm]
    omega

theorem publicBalance_congr (h : s'.balances = s.balances) (id : AssetId) :
    s'.publicBalance id = s.publicBalance id := by
  unfold State.publicBalance
  rw [h]

theorem balancesNonneg_congr (h : s'.balances = s.balances) (hs : s.BalancesNonneg) :
    s'.BalancesNonneg := by
  intro k v hv
  rw [h] at hv
  exact hs k v hv

def SameBalances (s s' : State) : Prop := s'.balances = s.balances

instance : Std.Refl SameBalances := ⟨fun _ => rfl⟩

instance : IsTrans State SameBalances := ⟨fun _ _ _ h h' => Eq.trans h' h⟩

theorem update_sameBalances {t : Table V} (ht : ∀ s i, (t.write s i).balances = s.balances)
    (id : Nat) (f : V → Except Exception V) : Relates SameBalances (t.update id f) := by
  intro s u s' h
  obtain ⟨v, v', -, -, rfl⟩ := Table.update_iff.mp h
  exact ht _ _

theorem depositMarketFeeVestingBalance_sameBalances (account : AccountId) (delta : Asset) :
    Relates SameBalances (depositMarketFeeVestingBalance account delta) := by
  unfold depositMarketFeeVestingBalance
  refine .bind (relates_require _ _) fun _ => .ite (.pure _) (.bind .get fun s => ?_)
  split
  · refine .bind (fun s id s' h => ?_) fun _ => .pure _
    obtain ⟨-, rfl⟩ := Table.create_iff.mp h
    rfl
  · exact update_sameBalances (fun _ _ => rfl) _ _

theorem payMarketFees_sameBalances (seller : Option AccountObject) (id : AssetId) (receives : Asset)
    (isMaker : Bool) : Relates SameBalances (payMarketFees seller id receives isMaker) :=
  relates_payMarketFees depositMarketFeeVestingBalance_sameBalances
    (fun _ _ => update_sameBalances (fun _ _ => rfl) _ _) _ _ _

theorem convertFee_sameBalances (ctx : TransactionEvaluationState) (fee : Asset)
    (coreFeePaid : Int) : Relates SameBalances (convertFee ctx fee coreFeePaid) :=
  .ite (update_sameBalances (fun _ _ => rfl) _ _) (.pure _)

theorem payFee_sameBalances (ctx : TransactionEvaluationState) (payer : AccountId)
    (coreFeePaid : Int) : Relates SameBalances (payFee ctx payer coreFeePaid) :=
  .ite (.bind .get fun _ => update_sameBalances (fun _ _ => rfl) _ _) (.pure _)

theorem payFbaFee_sameBalances (isConfigured : State → Nat → Bool)
    (ctx : TransactionEvaluationState) (payer : AccountId) (fbaId : Nat) (coreFeePaid : Int) :
    Relates SameBalances (payFbaFee isConfigured ctx payer fbaId coreFeePaid) :=
  .bind (relates_fetch _ _) fun _ => .bind .get fun _ =>
    .ite (update_sameBalances (fun _ _ => rfl) _ _) (payFee_sameBalances _ _ _)

theorem adjustBalance_frame (h : Returns (adjustBalance account delta) s u s') :
    s' = { s with balances := s'.balances } := by
  unfold adjustBalance at h
  rcases h.of_ite with ⟨-, hpure⟩ | ⟨-, hmoved⟩
  · obtain ⟨-, rfl⟩ := hpure.of_pure
    rfl
  have hmatch := hmoved.of_get
  split at hmatch
  · obtain ⟨-, hset⟩ := of_require hmatch
    rw [Returns.modify_iff.mp hset]
  · rcases hmatch.of_ite with ⟨-, hcovered⟩ | ⟨-, hrest⟩
    · obtain ⟨-, hrest⟩ := of_require hcovered
      obtain ⟨_, -, hset⟩ := hrest.of_lift
      rw [Returns.modify_iff.mp hset]
    · obtain ⟨_, -, hset⟩ := hrest.of_lift
      rw [Returns.modify_iff.mp hset]

theorem adjustBalance_spec (h : Returns (adjustBalance account delta) s u s')
    (hs : s.BalancesNonneg) : s' = { s with balances := s'.balances } ∧ s'.BalancesNonneg ∧
      (∀ id, s'.publicBalance id
        = s.publicBalance id + if id = delta.assetId then delta.amount else 0) ∧
      -delta.amount ≤ s.publicBalance delta.assetId := by
  have hpublic := hs.publicBalance_nonneg delta.assetId
  rcases h.of_ite with ⟨hzero, hpure⟩ | ⟨-, hmoved⟩
  · obtain ⟨-, rfl⟩ := hpure.of_pure
    refine ⟨rfl, hs, fun id => ?_, by omega⟩
    rw [hzero]
    simp
  obtain ⟨t, s1, hget, hmatch⟩ := hmoved.of_bind
  obtain ⟨ht, hs1⟩ := Returns.get_iff.mp hget
  rw [ht, hs1] at hmatch
  split at hmatch
  · rename_i hnone
    obtain ⟨_, _, hpositive, hset⟩ := hmatch.of_bind
    obtain ⟨hpos, rfl⟩ := returns_require.mp hpositive
    obtain rfl := Returns.modify_iff.mp hset
    refine ⟨rfl, hs.insert (by omega), fun id => ?_, by omega⟩
    rw [publicBalance_insert, hnone, Option.getD_none, sub_zero]
  · rename_i balance hsome
    have hbalance := hs _ _ hsome
    have hle := hs.le_publicBalance hsome
    have hwrite : Returns (do
        let balance ← safe (balance + delta.amount)
        modify fun s => { s with balances := s.balances.insert (account, delta.assetId) balance }
          : Evaluation Unit) s u s' ∧ -delta.amount ≤ balance := by
      rcases hmatch.of_ite with ⟨-, hcovered⟩ | ⟨hneg, hrest⟩
      · obtain ⟨_, _, hrequire, hrest⟩ := hcovered.of_bind
        obtain ⟨hcover, rfl⟩ := returns_require.mp hrequire
        exact ⟨hrest, hcover⟩
      · exact ⟨hrest, by omega⟩
    obtain ⟨hwritten, hcover⟩ := hwrite
    obtain ⟨balance', hsafe, hset⟩ := hwritten.of_lift
    obtain ⟨rfl, -⟩ := of_safe hsafe
    obtain rfl := Returns.modify_iff.mp hset
    refine ⟨rfl, hs.insert (by omega), fun id => ?_, by omega⟩
    rw [publicBalance_insert, hsome, Option.getD_some]
    split <;> omega

theorem getBalance_of_adjustBalance (h : Returns (adjustBalance account delta) s u s')
    (account' : AccountId) (id : AssetId) : getBalance account' id s' = getBalance account' id s +
      if account' = account ∧ id = delta.assetId then delta.amount else 0 := by
  have hinsert (v : Int)
      (hv : v = getBalance account delta.assetId s + delta.amount) :
      getBalance account' id
          { s with balances := s.balances.insert (account, delta.assetId) v } =
        getBalance account' id s +
          if account' = account ∧ id = delta.assetId then delta.amount else 0 := by
    unfold getBalance
    dsimp only
    rw [Rows.lookup_insert_eq]
    by_cases heq : account' = account ∧ id = delta.assetId
    · obtain ⟨rfl, rfl⟩ := heq
      rw [if_pos rfl, if_pos ⟨rfl, rfl⟩, Option.getD_some, hv]
      rfl
    · rw [if_neg (fun hpair => heq (Prod.mk.inj hpair)), if_neg heq, add_zero]
  unfold adjustBalance at h
  rcases h.of_ite with ⟨hzero, hpure⟩ | ⟨-, hmoved⟩
  · obtain ⟨-, rfl⟩ := hpure.of_pure
    rw [hzero, ite_self, add_zero]
  have hmatch := hmoved.of_get
  split at hmatch
  · rename_i hnone
    obtain ⟨-, hset⟩ := of_require hmatch
    rw [Returns.modify_iff.mp hset]
    refine hinsert _ ?_
    rw [getBalance, hnone, Option.getD_none, zero_add]
  · rename_i balance hsome
    have hwritten (hrest : Returns (do
        let balance ← safe (balance + delta.amount)
        modify fun s => { s with balances := s.balances.insert (account, delta.assetId) balance }
          : Evaluation Unit) s u s') :
        getBalance account' id s' = getBalance account' id s +
          if account' = account ∧ id = delta.assetId then delta.amount else 0 := by
      obtain ⟨v, hsafe, hset⟩ := hrest.of_lift
      obtain ⟨rfl, -⟩ := of_safe hsafe
      rw [Returns.modify_iff.mp hset]
      refine hinsert _ ?_
      rw [getBalance, hsome, Option.getD_some]
    rcases hmatch.of_ite with ⟨-, hcovered⟩ | ⟨-, hrest⟩
    · exact hwritten (of_require hcovered).2
    · exact hwritten hrest

theorem exists_returns_credit (account : AccountId) (delta : Asset) (hs : s.BalancesNonneg)
    (hnonneg : 0 ≤ delta.amount) (hfits : s.publicBalance delta.assetId + delta.amount < 2 ^ 63) :
    ∃ s', Returns (adjustBalance account delta) s () s' := by
  unfold adjustBalance
  rcases eq_or_lt_of_le hnonneg with hzero | hpos
  · rw [if_pos hzero.symm]
    exact ⟨s, rfl⟩
  rw [if_neg (ne_of_gt hpos)]
  cases hlookup : s.balances.lookup (account, delta.assetId) with
  | none =>
    refine ⟨{ s with balances := s.balances.insert (account, delta.assetId) delta.amount },
      Returns.get_bind_iff.mpr ?_⟩
    rw [hlookup]
    exact returns_require_bind.mpr ⟨hpos, Returns.modify_iff.mpr rfl⟩
  | some balance =>
    have hbalance := hs _ _ hlookup
    have hle := hs.le_publicBalance hlookup
    refine ⟨{ s with
      balances := s.balances.insert (account, delta.assetId) (balance + delta.amount) },
      Returns.get_bind_iff.mpr ?_⟩
    rw [hlookup]
    dsimp only
    rw [if_neg (not_lt.mpr hpos.le)]
    exact Returns.lift_bind_iff.mpr
      ⟨_, safe_eq_ok.mpr ⟨rfl, by omega, by omega⟩, Returns.modify_iff.mpr rfl⟩

end Meta1Core.Ledger
