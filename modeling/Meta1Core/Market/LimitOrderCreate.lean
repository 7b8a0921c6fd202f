import Meta1Core.Allocation.Chain
import Meta1Core.Ledger.Extended
import Meta1Core.Market.PriceFloor

/-!
# New limit orders (`market_evaluator.cpp`)

As long as the published price of an asset in USD is fresh, an order for that asset against the core
asset is accepted only at or above the price floor.
-/

namespace Meta1Core.Market

open Ledger Lib Protocol
open Allocation (AssetLimitationObject u32Sub)

/-! ## Objects -/

structure PriceRatio where
  numerator : UInt64
  denominator : UInt64
  deriving DecidableEq

def PriceRatio.validate (r : PriceRatio) : Except Exception Unit :=
  fcAssert (0 < r.denominator) "denominator > 0"

structure AssetPrice where
  symbol : String
  usdPrice : PriceRatio
  publicationTime : Nat
  deriving DecidableEq

/-- The objects beside the ledger: the published prices and the limitations, each unique by its
symbol -/
structure PublishedPrices where
  prices : List AssetPrice
  assetLimitations : List AssetLimitationObject

abbrev PricedLedger := Extended PublishedPrices

namespace PricedLedger

def findPrice (s : PricedLedger) (symbol : String) : Option AssetPrice :=
  s.objects.prices.find? (·.symbol = symbol)

def findLimitation (s : PricedLedger) (symbol : String) : Option AssetLimitationObject :=
  s.objects.assetLimitations.find? (·.limitSymbol = symbol)

def getAsset (s : PricedLedger) (id : AssetId) : Except Exception AssetObject :=
  match s.ledger.assets.find id with
  | some a => .ok a
  | none => .error (.fc "Unable to find Object")

def getAccount (s : PricedLedger) (id : AccountId) : Except Exception AccountObject :=
  match s.ledger.accounts.find id with
  | some a => .ok a
  | none => .error (.fc "Unable to find Object")

theorem getAsset_of_find {s : PricedLedger} {id : AssetId} {a : AssetObject}
    (h : s.ledger.assets.find id = some a) : s.getAsset id = .ok a := by
  unfold getAsset
  rw [h]

end PricedLedger

/-! ## Creating a limit order -/

structure LimitOrderCreateOperation where
  fee : Asset
  seller : AccountId
  amountToSell : Asset
  minToReceive : Asset
  expiration : Nat
  deriving DecidableEq

def defaultPriceFeedLifetime : Nat := 60 * 60 * 24

/-- The bounds that `asset_options::validate` and `asset_create_operation::validate` put on an asset;
a precision is at most 12 there, and the table of powers ends after 18. -/
structure ScalableAsset (a : AssetObject) : Prop where
  maxSupply_nonneg : 0 ≤ a.options.maxSupply
  maxSupply_le : a.options.maxSupply ≤ maxShareSupply
  precision_lt : a.precision < 19

namespace LimitOrderCreateOperation

def validate (op : LimitOrderCreateOperation) : Except Exception Unit := do
  fcAssert (op.amountToSell.assetId ≠ op.minToReceive.assetId)
    "amount_to_sell.asset_id != min_to_receive.asset_id"
  fcAssert (0 ≤ op.fee.amount) "fee.amount >= 0"
  fcAssert (0 < op.amountToSell.amount) "amount_to_sell.amount > 0"
  fcAssert (0 < op.minToReceive.amount) "min_to_receive.amount > 0"

/-- The first half of `limit_order_create_evaluator::do_evaluate`: the seller may sell. -/
def checkSeller (op : LimitOrderCreateOperation) (s : PricedLedger) : Except Exception Unit := do
  fcAssert (s.ledger.headBlockTime ≤ op.expiration) "op.expiration >= d.head_block_time()"
  let seller ← s.getAccount op.seller
  let sellAsset ← s.getAsset op.amountToSell.assetId
  let receiveAsset ← s.getAsset op.minToReceive.assetId
  fcAssert (sellAsset.options.whitelistMarkets = [] ∨
      op.minToReceive.assetId ∈ sellAsset.options.whitelistMarkets)
    "This market has not been whitelisted by the selling asset"
  fcAssert (op.minToReceive.assetId ∉ sellAsset.options.blacklistMarkets)
    "This market has been blacklisted by the selling asset"
  fcAssert (isAuthorizedAsset seller op.amountToSell.assetId sellAsset)
    "The account is not allowed to transact the selling asset"
  fcAssert (isAuthorizedAsset seller op.minToReceive.assetId receiveAsset)
    "The account is not allowed to transact the receiving asset"
  fcAssert (op.amountToSell.amount ≤ getBalance op.seller op.amountToSell.assetId s.ledger)
    "insufficient balance"

def SellingMeta1 (op : LimitOrderCreateOperation) : Prop := op.amountToSell.assetId = core

instance (op : LimitOrderCreateOperation) : Decidable op.SellingMeta1 :=
  inferInstanceAs (Decidable (_ = _))

def BuyingMeta1 (op : LimitOrderCreateOperation) : Prop := op.minToReceive.assetId = core

instance (op : LimitOrderCreateOperation) : Decidable op.BuyingMeta1 :=
  inferInstanceAs (Decidable (_ = _))

def otherId (op : LimitOrderCreateOperation) : AssetId :=
  if op.SellingMeta1 then op.minToReceive.assetId else op.amountToSell.assetId

/-- What the comparison reads of the order, of the two assets, of the published price and of the
limitation -/
def floorTerms (op : LimitOrderCreateOperation) (meta1 other : AssetObject) (price : AssetPrice)
    (alo : AssetLimitationObject) : FloorTerms where
  o := if op.SellingMeta1 then op.minToReceive.amount else op.amountToSell.amount
  m := if op.SellingMeta1 then op.amountToSell.amount else op.minToReceive.amount
  usdPriceNum := price.usdPrice.numerator
  usdPriceDen := price.usdPrice.denominator
  cumulative := alo.cumulativeSellLimit
  maxSupply := meta1.options.maxSupply
  meta1Precision := meta1.precision
  otherPrecision := other.precision

/-- The second half of `do_evaluate`: the implied price of the core asset.  The limitation is
dereferenced without a look at `end()`. -/
def checkImpliedPrice (op : LimitOrderCreateOperation) (s : PricedLedger) :
    Except Exception Unit := do
  let meta1 ← s.getAsset core
  if op.SellingMeta1 ∨ op.BuyingMeta1 then
    fcAssert (¬(op.SellingMeta1 ∧ op.BuyingMeta1)) "The order must not sell and buy META1"
    match s.ledger.assets.find op.otherId with
    | none => .error (.fc "Other asset is unknown")
    | some other =>
      match s.findPrice other.symbol with
      | none => return
      | some price =>
        fcAssert (u32Sub s.ledger.headBlockTime price.publicationTime ≤ defaultPriceFeedLifetime)
          "The most recent published price for ${symbol} is too old (${age} seconds)"
        match s.findLimitation meta1.symbol with
        | none => .error .undefined
        | some alo => (op.floorTerms meta1 other price alo).check
  else return

def doEvaluate (op : LimitOrderCreateOperation) (s : PricedLedger) : Except Exception Unit := do
  op.checkSeller s
  op.checkImpliedPrice s

variable {op : LimitOrderCreateOperation} {s : PricedLedger}

theorem validate_eq_ok :
    op.validate = .ok () ↔
      op.amountToSell.assetId ≠ op.minToReceive.assetId ∧ 0 ≤ op.fee.amount ∧
        0 < op.amountToSell.amount ∧ 0 < op.minToReceive.amount := by
  unfold validate
  rw [fcAssert_bind_eq_ok, fcAssert_bind_eq_ok, fcAssert_bind_eq_ok, fcAssert_eq_ok]

variable {meta1 other : AssetObject} {price : AssetPrice} {alo : AssetLimitationObject}

theorem floorTerms_sound (hop : op.validate = .ok ())
    (hsell : op.amountToSell.amount ≤ maxShareSupply)
    (hreceive : op.minToReceive.amount ≤ maxShareSupply) (hmeta1 : ScalableAsset meta1)
    (hother : ScalableAsset other) (hprice : price.usdPrice.validate = .ok ()) :
    (op.floorTerms meta1 other price alo).Sound := by
  obtain ⟨-, -, hsell0, hreceive0⟩ := validate_eq_ok.mp hop
  have hden : 0 < price.usdPrice.denominator := fcAssert_eq_ok.mp hprice
  by_cases hselling : op.SellingMeta1
  · constructor <;> simp only [floorTerms, if_pos hselling]
    · exact hreceive0
    · exact hreceive
    · exact hsell0
    · exact hsell
    · exact hden
    · exact hmeta1.maxSupply_nonneg
    · exact hmeta1.maxSupply_le
    · exact hmeta1.precision_lt
    · exact hother.precision_lt
  · constructor <;> simp only [floorTerms, if_neg hselling]
    · exact hsell0
    · exact hsell
    · exact hreceive0
    · exact hreceive
    · exact hden
    · exact hmeta1.maxSupply_nonneg
    · exact hmeta1.maxSupply_le
    · exact hmeta1.precision_lt
    · exact hother.precision_lt

theorem checkImpliedPrice_eq (hop : op.validate = .ok ()) (hcore : op.SellingMeta1 ∨ op.BuyingMeta1)
    (hmeta1 : s.ledger.assets.find core = some meta1)
    (hother : s.ledger.assets.find op.otherId = some other)
    (hprice : s.findPrice other.symbol = some price)
    (hfresh : u32Sub s.ledger.headBlockTime price.publicationTime ≤ defaultPriceFeedLifetime)
    (hlimit : s.findLimitation meta1.symbol = some alo) :
    op.checkImpliedPrice s = (op.floorTerms meta1 other price alo).check := by
  obtain ⟨hne, -⟩ := validate_eq_ok.mp hop
  have honly : ¬(op.SellingMeta1 ∧ op.BuyingMeta1) := by
    intro hboth
    exact hne (hboth.1.trans hboth.2.symm)
  unfold checkImpliedPrice
  rw [PricedLedger.getAsset_of_find hmeta1]
  show (if op.SellingMeta1 ∨ op.BuyingMeta1 then _ else _) = _
  rw [if_pos hcore, fcAssert, if_pos honly, hother]
  show (match s.findPrice other.symbol with
    | none => _
    | some price => _) = _
  rw [hprice]
  show (fcAssert (u32Sub s.ledger.headBlockTime price.publicationTime ≤ _) _ >>= fun _ => _) = _
  rw [fcAssert, if_pos hfresh, hlimit]
  rfl

/-- With the limitation in place, a valid order against an asset with a fresh price is accepted
exactly when it values all core tokens at least at their backing and both products stay below 2^128;
an order below the floor never passes. -/
theorem doEvaluate_priceFloor {op : LimitOrderCreateOperation} {s : PricedLedger}
    {meta1 other : AssetObject} {price : AssetPrice} {alo : AssetLimitationObject}
    (hop : op.validate = .ok ()) (hsell : op.amountToSell.amount ≤ maxShareSupply)
    (hreceive : op.minToReceive.amount ≤ maxShareSupply)
    (hcore : op.SellingMeta1 ∨ op.BuyingMeta1)
    (hmeta1 : s.ledger.assets.find core = some meta1)
    (hother : s.ledger.assets.find op.otherId = some other)
    (hscale : ScalableAsset meta1 ∧ ScalableAsset other)
    (hprice : s.findPrice other.symbol = some price)
    (hvalid : price.usdPrice.validate = .ok ())
    (hfresh : u32Sub s.ledger.headBlockTime price.publicationTime ≤ defaultPriceFeedLifetime)
    (hlimit : s.findLimitation meta1.symbol = some alo) :
    let t := op.floorTerms meta1 other price alo
    (op.doEvaluate s = .ok () ↔ op.checkSeller s = .ok () ∧ t.ProductsFit ∧ t.MeetsFloor) ∧
      (op.checkSeller s = .ok () → ¬t.ProductsFit → op.doEvaluate s = .error (.fc "overflow")) ∧
      (0 < t.supply → (t.MeetsFloor ↔ (t.cumulative : ℚ) / t.supply ≤ t.orderPrice)) := by
  intro t
  have hsound : t.Sound := floorTerms_sound hop hsell hreceive hscale.1 hscale.2 hvalid
  have hcheck : op.checkImpliedPrice s = t.check :=
    checkImpliedPrice_eq hop hcore hmeta1 hother hprice hfresh hlimit
  refine ⟨?_, ?_, FloorTerms.meetsFloor_iff_div⟩
  · unfold doEvaluate
    rw [bind_eq_ok, hcheck]
    constructor
    · rintro ⟨⟨⟩, hseller, hok⟩
      exact ⟨hseller, (FloorTerms.check_eq_ok hsound).mp hok⟩
    · rintro ⟨hseller, hok⟩
      exact ⟨(), hseller, (FloorTerms.check_eq_ok hsound).mpr hok⟩
  · intro hseller hfit
    unfold doEvaluate
    rw [hseller, hcheck]
    exact FloorTerms.check_of_not_fit hsound hfit

def meta1Asset : AssetObject where
  symbol := "META1"
  issuer := 0
  options := { maxSupply := 45000000000000, coreExchangeRate := Price.null }

def pricedAsset : AssetObject where
  symbol := "USDT"
  issuer := 0
  options := { coreExchangeRate := Price.null }

def dollarPrice (sides : UInt64) : AssetPrice := ⟨"USDT", ⟨sides, sides⟩, 1700000000⟩

def meta1Limitation : AssetLimitationObject := ⟨0, "META1", 0, 4500000000⟩

def floorChain (sides : UInt64) : PricedLedger where
  ledger :=
    { headBlockTime := 1700000060
      accounts := (∅ : Index AccountObject).create { registrar := 0, referrer := 0 }
      balances := (∅ : Rows (AccountId × AssetId) Int).insert (0, core) 100000
      assets := ((∅ : Index AssetObject).create meta1Asset).create pricedAsset }
  objects := ⟨[dollarPrice sides], [meta1Limitation]⟩

def tokenOrder (minToReceive : Int) : LimitOrderCreateOperation where
  fee := ⟨0, core⟩
  seller := 0
  amountToSell := ⟨100000, core⟩
  minToReceive := ⟨minToReceive, 1⟩
  expiration := 1800000000

theorem scalable_floorChain : ScalableAsset meta1Asset ∧ ScalableAsset pricedAsset :=
  ⟨⟨by decide, by decide, by decide⟩, by decide, by decide, by decide⟩

theorem doEvaluate_priceFloor_ten :
    let t := (tokenOrder 1000000).floorTerms meta1Asset pricedAsset (dollarPrice 1) meta1Limitation
    ((tokenOrder 1000000).doEvaluate (floorChain 1) = .ok () ↔
        (tokenOrder 1000000).checkSeller (floorChain 1) = .ok () ∧ t.ProductsFit ∧ t.MeetsFloor) ∧
      ((tokenOrder 1000000).checkSeller (floorChain 1) = .ok () → ¬t.ProductsFit →
        (tokenOrder 1000000).doEvaluate (floorChain 1) = .error (.fc "overflow")) ∧
      (0 < t.supply → (t.MeetsFloor ↔ (t.cumulative : ℚ) / t.supply ≤ t.orderPrice)) :=
  doEvaluate_priceFloor (by decide) (by decide) (by decide) (Or.inl rfl) rfl rfl
    scalable_floorChain rfl (by decide) (by decide) rfl

example : (tokenOrder 1000000).doEvaluate (floorChain 1) = .ok () := by decide +kernel

/-- With both sides of the price at the limit of their type the order for a hundred million USD is
above the floor, and is rejected. -/
theorem doEvaluate_overflow :
    let op := tokenOrder 10000000000000
    let price := dollarPrice 18446744073709551615
    let s := floorChain 18446744073709551615
    let t := op.floorTerms meta1Asset pricedAsset price meta1Limitation
    op.validate = .ok () ∧ price.usdPrice.validate = .ok () ∧
      s.findPrice pricedAsset.symbol = some price ∧
      u32Sub s.ledger.headBlockTime price.publicationTime ≤ defaultPriceFeedLifetime ∧
      s.findLimitation meta1Asset.symbol = some meta1Limitation ∧ op.checkSeller s = .ok () ∧
      (t.cumulative : ℚ) / t.supply ≤ t.orderPrice ∧
      op.doEvaluate s = .error (.fc "overflow") := by
  refine ⟨by decide, by decide, rfl, by decide, rfl, by decide +kernel, ?_, by decide +kernel⟩
  have hsupply : ((tokenOrder 10000000000000).floorTerms meta1Asset pricedAsset
      (dollarPrice 18446744073709551615) meta1Limitation).supply = 450000000 := by decide
  rw [hsupply]
  show ((4500000000 : ℕ) : ℚ) / ((450000000 : ℕ) : ℚ) ≤
    ((10000000000000 : ℤ) : ℚ) / 10 ^ 5 / (((100000 : ℤ) : ℚ) / 10 ^ 5) *
      (((18446744073709551615 : ℕ) : ℚ) / ((18446744073709551615 : ℕ) : ℚ))
  norm_num

end LimitOrderCreateOperation

end Meta1Core.Market
