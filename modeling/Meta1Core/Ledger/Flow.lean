import Meta1Core.Ledger.Frame

/-!
# Flows of amounts

A step of the database moves amounts between the places that hold them.  A flow says by how much
every place changes; the flows of steps that follow each other add up.
-/

namespace Meta1Core.Ledger

open Lib (Rows Index Returns Relates)
open Protocol

/-- The fees of an account that `process_fees` has not paid out yet -/
def State.coreFees (s : State) (account : AccountId) : Int :=
  s.accounts.weightAt (fun _ a => a.pendingFees + a.pendingVestedFees) account

def State.coreInOrders (s : State) (account : AccountId) : Int :=
  s.accounts.weightAt (fun _ a => a.totalCoreInOrders) account

def State.accumulatedFees (s : State) (id : AssetId) : Int :=
  s.assets.weightAt (fun _ a => a.accumulatedFees) id

def State.feePool (s : State) (id : AssetId) : Int := s.assets.weightAt (fun _ a => a.feePool) id

def State.marketFees (s : State) (account : AccountId) (id : AssetId) : Int :=
  s.vestingBalances.total fun _ v =>
    if v.owner = account ∧ v.balance.assetId = id then v.balance.amount else 0

@[ext] structure Flow where
  balances : AccountId → AssetId → Int := 0
  marketFees : AccountId → AssetId → Int := 0
  coreFees : AccountId → Int := 0
  coreInOrders : AccountId → Int := 0
  accumulatedFees : AssetId → Int := 0
  feePool : AssetId → Int := 0

namespace Flow

instance : Zero Flow := ⟨{}⟩

instance : Add Flow := ⟨fun f g => {
  balances := f.balances + g.balances
  marketFees := f.marketFees + g.marketFees
  coreFees := f.coreFees + g.coreFees
  coreInOrders := f.coreInOrders + g.coreInOrders
  accumulatedFees := f.accumulatedFees + g.accumulatedFees
  feePool := f.feePool + g.feePool }⟩

variable (f g : Flow)

@[simp] theorem balances_zero : (0 : Flow).balances = 0 := rfl
@[simp] theorem marketFees_zero : (0 : Flow).marketFees = 0 := rfl
@[simp] theorem coreFees_zero : (0 : Flow).coreFees = 0 := rfl
@[simp] theorem coreInOrders_zero : (0 : Flow).coreInOrders = 0 := rfl
@[simp] theorem accumulatedFees_zero : (0 : Flow).accumulatedFees = 0 := rfl
@[simp] theorem feePool_zero : (0 : Flow).feePool = 0 := rfl
@[simp] theorem balances_add : (f + g).balances = f.balances + g.balances := rfl
@[simp] theorem marketFees_add : (f + g).marketFees = f.marketFees + g.marketFees := rfl
@[simp] theorem coreFees_add : (f + g).coreFees = f.coreFees + g.coreFees := rfl
@[simp] theorem coreInOrders_add : (f + g).coreInOrders = f.coreInOrders + g.coreInOrders := rfl
@[simp] theorem accumulatedFees_add :
    (f + g).accumulatedFees = f.accumulatedFees + g.accumulatedFees := rfl
@[simp] theorem feePool_add : (f + g).feePool = f.feePool + g.feePool := rfl

instance : AddCommMonoid Flow where
  add_assoc f g h := by ext <;> simp [add_assoc]
  zero_add f := by ext <;> simp
  add_zero f := by ext <;> simp
  add_comm f g := by ext <;> simp [add_comm]
  nsmul := nsmulRec

def toBalance (account : AccountId) (delta : Asset) : Flow :=
  { balances := fun a i => if a = account ∧ i = delta.assetId then delta.amount else 0 }

def toMarketFees (account : AccountId) (delta : Asset) : Flow :=
  { marketFees := fun a i => if a = account ∧ i = delta.assetId then delta.amount else 0 }

def toCoreFees (account : AccountId) (amount : Int) : Flow :=
  { coreFees := fun a => if a = account then amount else 0 }

def toOrders (account : AccountId) (amount : Int) : Flow :=
  { coreInOrders := fun a => if a = account then amount else 0 }

def toAccumulatedFees (id : AssetId) (amount : Int) : Flow :=
  { accumulatedFees := fun i => if i = id then amount else 0 }

def toFeePool (id : AssetId) (amount : Int) : Flow :=
  { feePool := fun i => if i = id then amount else 0 }

@[simp] theorem toBalance_zero (account : AccountId) (id : AssetId) :
    toBalance account ⟨0, id⟩ = 0 := by
  ext <;> simp [toBalance]

@[simp] theorem toMarketFees_zero (account : AccountId) (id : AssetId) :
    toMarketFees account ⟨0, id⟩ = 0 := by
  ext <;> simp [toMarketFees]

@[simp] theorem toCoreFees_zero (account : AccountId) : toCoreFees account 0 = 0 := by
  ext <;> simp [toCoreFees]

@[simp] theorem toOrders_zero (account : AccountId) : toOrders account 0 = 0 := by
  ext <;> simp [toOrders]

@[simp] theorem toAccumulatedFees_zero (id : AssetId) : toAccumulatedFees id 0 = 0 := by
  ext <;> simp [toAccumulatedFees]

@[simp] theorem toFeePool_zero (id : AssetId) : toFeePool id 0 = 0 := by
  ext <;> simp [toFeePool]

end Flow

structure Flows (f : Flow) (s s' : State) : Prop where
  balances : ∀ a i, getBalance a i s' = getBalance a i s + f.balances a i
  marketFees : ∀ a i, s'.marketFees a i = s.marketFees a i + f.marketFees a i
  coreFees : ∀ a, s'.coreFees a = s.coreFees a + f.coreFees a
  coreInOrders : ∀ a, s'.coreInOrders a = s.coreInOrders a + f.coreInOrders a
  accumulatedFees : ∀ i, s'.accumulatedFees i = s.accumulatedFees i + f.accumulatedFees i
  feePool : ∀ i, s'.feePool i = s.feePool i + f.feePool i

namespace Flows

variable {f g : Flow} {s s' t : State}

theorem of_same (hbalances : s'.balances = s.balances) (haccounts : s'.accounts = s.accounts)
    (hassets : s'.assets = s.assets) (hvesting : s'.vestingBalances = s.vestingBalances) :
    Flows 0 s s' := by
  constructor <;> intros <;>
    simp [getBalance, State.marketFees, State.coreFees, State.coreInOrders, State.accumulatedFees,
      State.feePool, hbalances, haccounts, hassets, hvesting]

theorem refl (s : State) : Flows 0 s s := of_same rfl rfl rfl rfl

theorem trans (h : Flows f s s') (h' : Flows g s' t) : Flows (f + g) s t where
  balances a i := by rw [h'.balances, h.balances, Flow.balances_add]; exact add_assoc _ _ _
  marketFees a i := by rw [h'.marketFees, h.marketFees, Flow.marketFees_add]; exact add_assoc _ _ _
  coreFees a := by rw [h'.coreFees, h.coreFees, Flow.coreFees_add]; exact add_assoc _ _ _
  coreInOrders a := by
    rw [h'.coreInOrders, h.coreInOrders, Flow.coreInOrders_add]; exact add_assoc _ _ _
  accumulatedFees i := by
    rw [h'.accumulatedFees, h.accumulatedFees, Flow.accumulatedFees_add]; exact add_assoc _ _ _
  feePool i := by rw [h'.feePool, h.feePool, Flow.feePool_add]; exact add_assoc _ _ _

theorem adjustBalance {account : AccountId} {delta : Asset} {u : Unit}
    (h : Returns (adjustBalance account delta) s u s') : Flows (.toBalance account delta) s s' := by
  have hbalances := getBalance_of_adjustBalance h
  rw [adjustBalance_frame h] at hbalances ⊢
  exact ⟨hbalances, fun _ _ => (add_zero _).symm, fun _ => (add_zero _).symm,
    fun _ => (add_zero _).symm, fun _ => (add_zero _).symm, fun _ => (add_zero _).symm⟩

theorem updateAccount {id : AccountId} {g : AccountObject → Except Exception AccountObject} {u : Unit}
    {fees orders : Int} (h : Returns (accounts.update id g) s u s')
    (hg : ∀ a a', g a = .ok a' →
      a'.pendingFees + a'.pendingVestedFees = a.pendingFees + a.pendingVestedFees + fees ∧
        a'.totalCoreInOrders = a.totalCoreInOrders + orders) :
    Flows (.toCoreFees id fees + .toOrders id orders) s s' := by
  obtain ⟨a, a', hfind, ha', rfl⟩ := Table.update_iff.mp h
  obtain ⟨hfees, horders⟩ := hg a a' ha'
  have hfind : s.accounts.find id = some a := hfind
  constructor
  · exact fun _ _ => (add_zero _).symm
  · exact fun _ _ => (add_zero _).symm
  · intro a1
    show (s.accounts.modify id fun _ => a').weightAt _ a1 = _
    rw [Index.weightAt_modify _ hfind, hfees]
    simp [Flow.toCoreFees, Flow.toOrders, State.coreFees]
  · intro a1
    show (s.accounts.modify id fun _ => a').weightAt _ a1 = _
    rw [Index.weightAt_modify _ hfind, horders]
    simp [Flow.toCoreFees, Flow.toOrders, State.coreInOrders]
  · exact fun _ => (add_zero _).symm
  · exact fun _ => (add_zero _).symm

theorem payFee {id : AccountId} {coreFee threshold : Int} {u : Unit}
    (h : Returns (accounts.update id (AccountObject.payFee coreFee threshold)) s u s') :
    Flows (.toCoreFees id coreFee) s s' := by
  have hflows : Flows (.toCoreFees id coreFee + .toOrders id 0) s s' := by
    apply updateAccount h
    intro a a' ha'
    unfold AccountObject.payFee at ha'
    split at ha'
    · obtain ⟨fees, hfees, heq⟩ := Lib.of_bind ha'
      obtain ⟨rfl, -⟩ := of_safe hfees
      cases heq
      constructor <;> dsimp only <;> ring
    · obtain ⟨fees, hfees, heq⟩ := Lib.of_bind ha'
      obtain ⟨rfl, -⟩ := of_safe hfees
      cases heq
      constructor <;> dsimp only <;> ring
  simpa using hflows

theorem updateAsset {id : AssetId} {g : AssetObject → Except Exception AssetObject} {u : Unit}
    {fees pool : Int} (h : Returns (assets.update id g) s u s')
    (hg : ∀ a a', g a = .ok a' → a'.accumulatedFees = a.accumulatedFees + fees ∧
      a'.feePool = a.feePool + pool) :
    Flows (.toAccumulatedFees id fees + .toFeePool id pool) s s' := by
  obtain ⟨a, a', hfind, ha', rfl⟩ := Table.update_iff.mp h
  obtain ⟨hfees, hpool⟩ := hg a a' ha'
  have hfind : s.assets.find id = some a := hfind
  constructor
  · exact fun _ _ => (add_zero _).symm
  · exact fun _ _ => (add_zero _).symm
  · exact fun _ => (add_zero _).symm
  · exact fun _ => (add_zero _).symm
  · intro i
    show (s.assets.modify id fun _ => a').weightAt _ i = _
    rw [Index.weightAt_modify _ hfind, hfees]
    simp [Flow.toAccumulatedFees, Flow.toFeePool, State.accumulatedFees]
  · intro i
    show (s.assets.modify id fun _ => a').weightAt _ i = _
    rw [Index.weightAt_modify _ hfind, hpool]
    simp [Flow.toAccumulatedFees, Flow.toFeePool, State.feePool]

end Flows

end Meta1Core.Ledger
