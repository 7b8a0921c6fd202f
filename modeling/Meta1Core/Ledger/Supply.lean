import Meta1Core.Ledger.Flow

/-!
# All amounts of an asset together

What accounts, limit orders and fees hold of an asset is part of its supply, and no supply exceeds
`GRAPHENE_MAX_SHARE_SUPPLY`.  An amount can therefore always be added to one that is held besides
it.
-/

namespace Meta1Core.Ledger

open Lib (Rows Index)
open Protocol

def LimitOrder.held (o : LimitOrder) (id : AssetId) : Int :=
  (if id = o.sellAssetId then o.forSale else 0) + (if id = core then o.deferredFee else 0) +
    if id = o.deferredPaidFee.assetId then o.deferredPaidFee.amount else 0

def AssetObject.held (own : AssetId) (a : AssetObject) (id : AssetId) : Int :=
  (if id = own then a.accumulatedFees else 0) + if id = core then a.feePool else 0

def AccountObject.held (a : AccountObject) (id : AssetId) : Int :=
  if id = core then a.pendingFees + a.pendingVestedFees else 0

def VestingBalance.held (v : VestingBalance) (id : AssetId) : Int :=
  if id = v.balance.assetId then v.balance.amount else 0

def State.held (s : State) (id : AssetId) : Int :=
  s.publicBalance id + s.limitOrders.total (fun _ o => LimitOrder.held o id) +
    s.assets.total (fun own a => AssetObject.held own a id) +
    s.accounts.total (fun _ a => AccountObject.held a id) +
    s.vestingBalances.total fun _ v => VestingBalance.held v id

/-- No amount is negative, and together they stay within the supply. -/
structure Supplied (s : State) : Prop where
  balances : s.BalancesNonneg
  limitOrders : ∀ id o, s.limitOrders.find id = some o →
    0 ≤ o.forSale ∧ 0 ≤ o.deferredFee ∧ 0 ≤ o.deferredPaidFee.amount
  assets : ∀ id a, s.assets.find id = some a → 0 ≤ a.accumulatedFees ∧ 0 ≤ a.feePool
  accounts : ∀ id a, s.accounts.find id = some a → 0 ≤ a.pendingFees ∧ 0 ≤ a.pendingVestedFees ∧
    0 ≤ a.totalCoreInOrders ∧ a.totalCoreInOrders ≤ maxShareSupply
  vestingBalances : ∀ id v, s.vestingBalances.find id = some v → 0 ≤ v.balance.amount
  held_le : ∀ id, s.held id ≤ maxShareSupply

namespace Supplied

variable {s : State}

theorem limitOrder_held_nonneg (h : Supplied s) {i : Nat} {o : LimitOrder}
    (ho : s.limitOrders.find i = some o) (id : AssetId) : 0 ≤ LimitOrder.held o id := by
  obtain ⟨hsale, hfee, hpaid⟩ := h.limitOrders i o ho
  unfold LimitOrder.held
  split <;> split <;> split <;> omega

theorem asset_held_nonneg (h : Supplied s) {i : Nat} {a : AssetObject}
    (ha : s.assets.find i = some a) (id : AssetId) : 0 ≤ AssetObject.held i a id := by
  obtain ⟨hfees, hpool⟩ := h.assets i a ha
  unfold AssetObject.held
  split <;> split <;> omega

theorem account_held_nonneg (h : Supplied s) {i : Nat} {a : AccountObject}
    (ha : s.accounts.find i = some a) (id : AssetId) : 0 ≤ AccountObject.held a id := by
  obtain ⟨hfees, hvested, -⟩ := h.accounts i a ha
  unfold AccountObject.held
  split <;> omega

theorem vesting_held_nonneg (h : Supplied s) {i : Nat} {v : VestingBalance}
    (hv : s.vestingBalances.find i = some v) (id : AssetId) : 0 ≤ VestingBalance.held v id := by
  have hamount := h.vestingBalances i v hv
  unfold VestingBalance.held
  split <;> omega

theorem room (h : Supplied s) (order assetId account : Nat) (id : AssetId) :
    s.publicBalance id + s.limitOrders.weightAt (fun _ o => LimitOrder.held o id) order +
      s.assets.weightAt (fun own a => AssetObject.held own a id) assetId +
      s.accounts.weightAt (fun _ a => AccountObject.held a id) account +
      s.vestingBalances.total (fun _ v => VestingBalance.held v id) ≤ maxShareSupply := by
  have horders := Index.weightAt_le_total (fun _ _ ho => h.limitOrder_held_nonneg ho id) order
  have hassets := Index.weightAt_le_total (fun _ _ ha => h.asset_held_nonneg ha id) assetId
  have haccounts := Index.weightAt_le_total (fun _ _ ha => h.account_held_nonneg ha id) account
  have hheld := h.held_le id
  unfold State.held at hheld
  omega

theorem vesting_total_nonneg (h : Supplied s) (id : AssetId) :
    0 ≤ s.vestingBalances.total fun _ v => VestingBalance.held v id :=
  Index.total_nonneg fun _ _ hv => h.vesting_held_nonneg hv id

variable {id account assetId : Nat} {o : LimitOrder} {a : AccountObject} {b : AssetObject}

section

variable (h : Supplied s) (ho : s.limitOrders.find id = some o)

include h ho

theorem balance_room (i : AssetId) : s.publicBalance i + LimitOrder.held o i ≤ maxShareSupply := by
  have hroom := h.room id 0 0 i
  have hassets := Index.weightAt_nonneg (fun _ _ ha => h.asset_held_nonneg ha i) 0
  have haccounts := Index.weightAt_nonneg (fun _ _ ha => h.account_held_nonneg ha i) 0
  have hvesting := h.vesting_total_nonneg i
  rw [Index.weightAt_of_find ho] at hroom
  omega

theorem pending_room (ha : s.accounts.find account = some a) :
    a.pendingFees + a.pendingVestedFees + o.deferredFee ≤ maxShareSupply := by
  have hroom := h.room id 0 account core
  have hassets := Index.weightAt_nonneg (fun _ _ ha => h.asset_held_nonneg ha core) 0
  have hvesting := h.vesting_total_nonneg core
  have hcore := h.balances.publicBalance_nonneg core
  obtain ⟨hsale, hfee, hpaid⟩ := h.limitOrders id o ho
  rw [Index.weightAt_of_find ho, Index.weightAt_of_find ha] at hroom
  unfold LimitOrder.held AccountObject.held at hroom
  rw [if_pos rfl, if_pos rfl] at hroom
  split at hroom <;> split at hroom <;> omega

theorem accumulated_room (hb : s.assets.find o.deferredPaidFee.assetId = some b) :
    b.accumulatedFees + o.deferredPaidFee.amount ≤ maxShareSupply := by
  have hroom := h.room id o.deferredPaidFee.assetId 0 o.deferredPaidFee.assetId
  have haccounts := Index.weightAt_nonneg
    (fun _ _ ha => h.account_held_nonneg ha o.deferredPaidFee.assetId) 0
  have hvesting := h.vesting_total_nonneg o.deferredPaidFee.assetId
  have hpublic := h.balances.publicBalance_nonneg o.deferredPaidFee.assetId
  obtain ⟨hsale, hfee, hpaid⟩ := h.limitOrders id o ho
  obtain ⟨hfees, hpool⟩ := h.assets _ _ hb
  rw [Index.weightAt_of_find ho, Index.weightAt_of_find hb] at hroom
  unfold LimitOrder.held AssetObject.held at hroom
  rw [if_pos rfl, if_pos rfl] at hroom
  split at hroom <;> split at hroom <;> omega

theorem feePool_room (hb : s.assets.find assetId = some b) :
    b.feePool + o.deferredFee ≤ maxShareSupply := by
  have hroom := h.room id assetId 0 core
  have haccounts := Index.weightAt_nonneg (fun _ _ ha => h.account_held_nonneg ha core) 0
  have hvesting := h.vesting_total_nonneg core
  have hpublic := h.balances.publicBalance_nonneg core
  obtain ⟨hsale, hfee, hpaid⟩ := h.limitOrders id o ho
  obtain ⟨hfees, hpool⟩ := h.assets _ _ hb
  rw [Index.weightAt_of_find ho, Index.weightAt_of_find hb] at hroom
  unfold LimitOrder.held AssetObject.held at hroom
  rw [if_pos rfl, if_pos rfl] at hroom
  split at hroom <;> split at hroom <;> split at hroom <;> omega

end

end Supplied

end Meta1Core.Ledger
