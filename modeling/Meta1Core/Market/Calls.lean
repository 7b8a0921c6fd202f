import Meta1Core.Ledger.Frame
import Mathlib.Data.List.Sort

/-!
# Call orders (`db_market.cpp`)

A call order is filled in the same way by the market, by a global settlement and by a bid.
-/

namespace Meta1Core.Market

open Lib (Rows Index Returns Relates)
open Protocol Ledger

def onlyIf (c : Prop) [Decidable c] (x : Evaluation Unit) : Evaluation Unit :=
  if c then x else pure ()

/-! ## Bitassets -/

def bitassetData (a : AssetObject) : Except Exception BitassetData :=
  match a.bitasset with
  | some bitasset => .ok bitasset
  | none => .error (.fc "Asset is not a market issued asset.")

def updateBitasset (id : AssetId) (f : BitassetData → Except Exception BitassetData) :
    Evaluation Unit :=
  assets.update id fun a => do
    let bitasset ← f (← bitassetData a)
    return { a with bitasset := some bitasset }

/-- `modify( mia_dyn, … )`, which moves the current supply -/
def adjustSupply (id : AssetId) (delta : Int) : Evaluation Unit :=
  assets.update id fun a => return { a with currentSupply := ← safe (a.currentSupply + delta) }

variable {s s' : State}

theorem bitassetData_eq_ok {a : AssetObject} {b : BitassetData} :
    bitassetData a = .ok b ↔ a.bitasset = some b := by
  unfold bitassetData
  split <;> simp_all

theorem of_updateBitasset {id : AssetId} {g : BitassetData → Except Exception BitassetData}
    {u : Unit} (h : Returns (updateBitasset id g) s u s') :
    ∃ a b b', s.assets.find id = some a ∧ a.bitasset = some b ∧ g b = .ok b' ∧
      s' = { s with assets := s.assets.modify id fun _ => { a with bitasset := some b' } } ∧
      ∀ j, s'.assetView j =
        if j = id then some { a with bitasset := some b' }.withoutFees else s.assetView j := by
  obtain ⟨a, a', hfind, hf, hs', hview⟩ := assetView_of_update h
  obtain ⟨b, hb, hg⟩ := Lib.of_bind hf
  obtain ⟨b', hb', ha'⟩ := Lib.of_bind hg
  cases ha'
  exact ⟨a, b, b', hfind, bitassetData_eq_ok.mp hb, hb', hs', hview⟩

theorem of_adjustSupply {id : AssetId} {delta : Int} {u : Unit}
    (h : Returns (adjustSupply id delta) s u s') :
    ∃ a, s.assets.find id = some a ∧
      s' = { s with assets := s.assets.modify id fun _ =>
        { a with currentSupply := a.currentSupply + delta } } ∧
      ∀ j, s'.assetView j =
        if j = id then some { a with currentSupply := a.currentSupply + delta }.withoutFees
        else s.assetView j := by
  obtain ⟨a, a', hfind, hf, hs', hview⟩ := assetView_of_update h
  obtain ⟨supply, hsafe, ha'⟩ := Lib.of_bind hf
  cases ha'
  obtain ⟨rfl, -⟩ := of_safe hsafe
  exact ⟨a, hfind, hs', hview⟩

theorem updateBitasset_sameBalances (id : AssetId)
    (g : BitassetData → Except Exception BitassetData) :
    Relates SameBalances (updateBitasset id g) :=
  update_sameBalances (fun _ _ => rfl) _ _

theorem adjustSupply_sameBalances (id : AssetId) (delta : Int) :
    Relates SameBalances (adjustSupply id delta) :=
  update_sameBalances (fun _ _ => rfl) _ _

/-- The rows of an index in the order of a key; rows with equal keys are in the order of their
ids. -/
def ordered {V : Type} (before : V → V → Prop) [DecidableRel before] (rows : List (Σ _ : Nat, V)) :
    List (Σ _ : Nat, V) :=
  rows.insertionSort fun e e' => before e.2 e'.2 ∨ ¬before e'.2 e.2 ∧ e.1 ≤ e'.1

/-- The call orders between `price::min` and `price::max` of a market, in the order of the index
`by_price` -/
def callsByPrice (backing mia : AssetId) (s : State) : List (Σ _ : Nat, CallOrder) :=
  ordered (fun o o' => o.callPrice.lt o'.callPrice) <|
    s.callOrders.rows.entries.filter fun e =>
      (Price.min backing mia).le e.2.callPrice ∧ e.2.callPrice.le (Price.max backing mia)

/-- `adjust_balance( order.borrower, *collateral_freed )` and `total_core_in_orders` of the borrower,
who pays and gets back what is freed -/
def releaseCollateral (borrower : AccountId) (pays freed : Asset) (closed : Bool) :
    Evaluation Unit := do
  onlyIf closed (adjustBalance borrower freed)
  onlyIf (pays.assetId = core) <|
    accounts.update borrower fun a => do
      let locked ← safe (a.totalCoreInOrders - pays.amount)
      let locked ← if closed then safe (locked - freed.amount) else pure locked
      return { a with totalCoreInOrders := locked }

def fillCallOrder (id : Nat) (pays receives : Asset) : Evaluation Bool := do
  let order ← callOrders.fetch id
  require (order.debtType = receives.assetId) "order.debt_type() == receives.asset_id"
  require (order.collateralType = pays.assetId) "order.collateral_type() == pays.asset_id"
  require (pays.amount ≤ order.collateral) "order.collateral >= pays.amount"
  let mia ← assets.fetch receives.assetId
  require mia.bitasset.isSome "mia.is_market_issued()"
  let debt ← safe (order.debt - receives.amount)
  let collateral ← safe (order.collateral - pays.amount)
  let closed : Bool := debt = 0
  callOrders.update id fun o =>
    return { o with debt := debt, collateral := if closed then 0 else collateral }
  adjustSupply receives.assetId (-receives.amount)
  releaseCollateral order.borrower pays ⟨collateral, order.collateralType⟩ closed
  onlyIf closed (callOrders.remove id)
  return closed

theorem returns_onlyIf {c : Prop} [Decidable c] {x : Evaluation Unit} {u : Unit} :
    Returns (onlyIf c x) s u s' ↔ c ∧ Returns x s u s' ∨ ¬c ∧ s' = s := by
  unfold onlyIf
  rw [Returns.ite_iff, Returns.pure_iff]
  simp

theorem of_releaseCollateral {borrower : AccountId} {pays freed : Asset} {closed : Bool} {u : Unit}
    (h : Returns (releaseCollateral borrower pays freed closed) s u s') :
    s' = { s with balances := s'.balances, accounts := s'.accounts } ∧
      (s.BalancesNonneg → s'.BalancesNonneg ∧ ∀ id, s'.publicBalance id =
        s.publicBalance id + if closed ∧ id = freed.assetId then freed.amount else 0) := by
  obtain ⟨_, s1, hadjust, hunlock⟩ := h.of_bind
  have hlast : s' = { s1 with accounts := s'.accounts } := by
    rcases returns_onlyIf.mp hunlock with ⟨-, hupdate⟩ | ⟨-, heq⟩
    · obtain ⟨v, v', -, -, heq⟩ := Table.update_iff.mp hupdate
      rw [heq]
      rfl
    · rw [heq]
  have hbalances : s'.balances = s1.balances := by
    rw [hlast]
  rcases returns_onlyIf.mp hadjust with ⟨hclosed, hadjust⟩ | ⟨hopen, rfl⟩
  · refine ⟨?_, fun hs => ?_⟩
    · rw [hlast, adjustBalance_frame hadjust]
    · obtain ⟨-, hnonneg, hpublic, -⟩ := adjustBalance_spec hadjust hs
      refine ⟨balancesNonneg_congr hbalances hnonneg, fun id => ?_⟩
      rw [publicBalance_congr hbalances, hpublic]
      simp only [hclosed, true_and]
  · refine ⟨hlast.trans (by rw [hbalances]), fun hs => ⟨balancesNonneg_congr hbalances hs, fun id => ?_⟩⟩
    rw [publicBalance_congr hbalances, if_neg (fun hand => hopen hand.1), add_zero]

theorem of_fillCallOrder {id : Nat} {pays receives : Asset} {closed : Bool}
    (h : Returns (fillCallOrder id pays receives) s closed s') :
    ∃ order a s1, s.callOrders.find id = some order ∧ order.debtType = receives.assetId ∧
      order.collateralType = pays.assetId ∧ pays.amount ≤ order.collateral ∧
      closed = decide (order.debt - receives.amount = 0) ∧
      s.assets.find receives.assetId = some a ∧ a.bitasset.isSome ∧
      Returns (releaseCollateral order.borrower pays
          ⟨order.collateral - pays.amount, order.collateralType⟩ closed)
        { s with
          callOrders := s.callOrders.modify id fun _ =>
            { order with
              debt := order.debt - receives.amount
              collateral := if closed then 0 else order.collateral - pays.amount }
          assets := s.assets.modify receives.assetId fun _ =>
            { a with currentSupply := a.currentSupply + -receives.amount } } () s1 ∧
      s' = { s1 with
        callOrders := if closed then s1.callOrders.remove id else s1.callOrders } := by
  obtain ⟨order, hfind, h1⟩ := of_fetch h
  obtain ⟨hdebt, h2⟩ := of_require h1
  obtain ⟨hcollateral, h3⟩ := of_require h2
  obtain ⟨hcovered, h4⟩ := of_require h3
  obtain ⟨mia, hmia, h5⟩ := of_fetch h4
  obtain ⟨hissued, h6⟩ := of_require h5
  obtain ⟨debt, hsafe, h7⟩ := h6.of_lift
  obtain ⟨rfl, -⟩ := of_safe hsafe
  obtain ⟨collateral, hsafe', h8⟩ := h7.of_lift
  obtain ⟨rfl, -⟩ := of_safe hsafe'
  obtain ⟨_, t1, hupdate, h9⟩ := h8.of_bind
  obtain ⟨order', o', hfind', ho', ht1⟩ := Table.update_iff.mp hupdate
  obtain rfl : order = order' := Option.some.inj (hfind.symm.trans hfind')
  cases ho'
  obtain ⟨_, t2, hsupply, h10⟩ := h9.of_bind
  obtain ⟨a, ha, ht2, -⟩ := of_adjustSupply hsupply
  have hassets : t1.assets = s.assets := by
    rw [ht1]
    rfl
  rw [hassets] at ha ht2
  obtain rfl : mia = a := Option.some.inj (hmia.symm.trans ha)
  obtain ⟨_, s1, hrelease, h11⟩ := h10.of_bind
  obtain ⟨_, t3, hremove, h12⟩ := h11.of_bind
  obtain ⟨hclosed, rfl⟩ := h12.of_pure
  rw [ht2, ht1, ← hclosed] at hrelease
  refine ⟨order, mia, s1, hfind, hdebt, hcollateral, hcovered, hclosed, hmia, hissued, hrelease, ?_⟩
  rw [← hclosed] at hremove
  rcases returns_onlyIf.mp hremove with ⟨htrue, hremoved⟩ | ⟨hfalse, rfl⟩
  · rw [Table.remove_iff.mp hremoved, if_pos htrue]
    rfl
  · rw [if_neg hfalse]

end Meta1Core.Market
