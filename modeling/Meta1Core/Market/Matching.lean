import Meta1Core.Ledger.Objects
import Meta1Core.Lib.Rounding

/-!
# What two matched orders trade (`db_market.cpp`)

The amounts of `match`, after the hardfork that improved its rounding.
-/

namespace Meta1Core.Market

open Protocol Ledger
open Lib (ceilDiv RoundsTo)

structure GoodPrice (p : Price) : Prop where
  base_pos : 0 < p.base.amount
  quote_pos : 0 < p.quote.amount
  ids : p.base.assetId ≠ p.quote.assetId

variable {x : Int} {p : Price}

theorem mul_base (hp : GoodPrice p) (hx : 0 ≤ x)
    (hle : x * p.quote.amount / p.base.amount ≤ maxShareSupply) :
    (⟨x, p.base.assetId⟩ : Asset).mul p =
      .ok ⟨x * p.quote.amount / p.base.amount, p.quote.assetId⟩ :=
  (Asset.mul_base_eq_ok (a := ⟨x, p.base.assetId⟩) rfl).mpr ⟨hp.base_pos, mul_nonneg hx hp.quote_pos.le, hle, rfl⟩

theorem mul_quote (hp : GoodPrice p) (hx : 0 ≤ x)
    (hle : x * p.base.amount / p.quote.amount ≤ maxShareSupply) :
    (⟨x, p.quote.assetId⟩ : Asset).mul p =
      .ok ⟨x * p.base.amount / p.quote.amount, p.base.assetId⟩ := by
  unfold Asset.mul
  rw [if_neg hp.ids.symm, if_pos rfl]
  apply Asset.scale_eq_ok.mpr
  rw [add_zero]
  exact ⟨hp.quote_pos, mul_nonneg hx hp.base_pos.le, hle, rfl⟩

theorem multiplyAndRoundUp_base (hp : GoodPrice p) (hx : 0 ≤ x)
    (hle : ceilDiv (x * p.quote.amount) p.base.amount ≤ maxShareSupply) :
    (⟨x, p.base.assetId⟩ : Asset).multiplyAndRoundUp p =
      .ok ⟨ceilDiv (x * p.quote.amount) p.base.amount, p.quote.assetId⟩ := by
  have hbase := hp.base_pos
  have hnonneg : 0 ≤ x * p.quote.amount := mul_nonneg hx hp.quote_pos.le
  unfold Asset.multiplyAndRoundUp
  rw [if_pos rfl]
  apply Asset.scale_eq_ok.mpr
  show 0 < p.base.amount ∧ 0 ≤ x * p.quote.amount + (p.base.amount - 1) ∧ _ ∧ _
  exact ⟨hbase, by omega, hle, rfl⟩

theorem multiplyAndRoundUp_quote (hp : GoodPrice p) (hx : 0 ≤ x)
    (hle : ceilDiv (x * p.base.amount) p.quote.amount ≤ maxShareSupply) :
    (⟨x, p.quote.assetId⟩ : Asset).multiplyAndRoundUp p =
      .ok ⟨ceilDiv (x * p.base.amount) p.quote.amount, p.base.assetId⟩ := by
  have hquote := hp.quote_pos
  have hnonneg : 0 ≤ x * p.base.amount := mul_nonneg hx hp.base_pos.le
  apply (Asset.multiplyAndRoundUp_quote_eq_ok (a := ⟨x, p.quote.assetId⟩) rfl hp.ids.symm).mpr
  show 0 < p.quote.amount ∧ 0 ≤ x * p.base.amount + (p.quote.amount - 1) ∧ _ ∧ _
  exact ⟨hquote, by omega, hle, rfl⟩

theorem mul_base_overflow (hp : GoodPrice p)
    (hgt : maxShareSupply < x * p.quote.amount / p.base.amount) :
    (⟨x, p.base.assetId⟩ : Asset).mul p =
      .error (.fc "result <= GRAPHENE_MAX_SHARE_SUPPLY") := by
  unfold Asset.mul Asset.scale fcAssert
  rw [if_pos rfl, if_pos hp.base_pos, add_zero]
  show (if _ then Except.ok () else Except.error _) >>= _ = _
  rw [if_neg (fun h => absurd h.2 (not_le.mpr hgt))]
  rfl

theorem le_amounts (x y : Int) (id : AssetId) :
    (⟨x, id⟩ : Asset).le ⟨y, id⟩ = .ok (decide (x ≤ y)) :=
  Asset.le_eq rfl

structure LimitMatch where
  usdPays : Asset
  usdReceives : Asset
  cullTaker : Bool
  deriving DecidableEq

/-- The amounts of `match( taker, maker, match_price )`; `none` where the taker would pay something
for nothing -/
def limitAmounts (usdForSale coreForSale : Asset) (matchPrice : Price) :
    Except Exception (Option LimitMatch) := do
  if ← usdForSale.le (← coreForSale.mul matchPrice) then
    let usdReceives ← usdForSale.mul matchPrice
    if usdReceives.amount = 0 then return none
    let coreReceives ← usdReceives.multiplyAndRoundUp matchPrice
    return some ⟨coreReceives, usdReceives, true⟩
  else
    let coreReceives ← coreForSale.mul matchPrice
    let usdReceives ← coreReceives.multiplyAndRoundUp matchPrice
    return some ⟨coreReceives, usdReceives, false⟩

structure LimitOrder.Sound (o : LimitOrder) : Prop where
  forSale_pos : 0 < o.forSale
  forSale_le : o.forSale ≤ o.sellPrice.base.amount
  base_le : o.sellPrice.base.amount ≤ maxShareSupply
  price : GoodPrice o.sellPrice

structure LimitOrder.Opposite (taker maker : LimitOrder) : Prop where
  base : taker.sellPrice.base.assetId = maker.sellPrice.quote.assetId
  quote : taker.sellPrice.quote.assetId = maker.sellPrice.base.assetId

def LimitOrder.Crosses (taker maker : LimitOrder) : Prop :=
  taker.sellPrice.quote.amount * maker.sellPrice.quote.amount ≤
    taker.sellPrice.base.amount * maker.sellPrice.base.amount

/-- `amount_to_receive`, without its bound -/
def LimitOrder.worth (o : LimitOrder) : Int :=
  o.forSale * o.sellPrice.quote.amount / o.sellPrice.base.amount

variable {taker maker : LimitOrder}

theorem limitAmounts_taker (hmaker : LimitOrder.Sound maker) (htaker : 0 < taker.forSale)
    (hopp : LimitOrder.Opposite taker maker)
    (hworth : LimitOrder.worth maker ≤ maxShareSupply)
    (hle : taker.forSale ≤ LimitOrder.worth maker) :
    ∃ r p, RoundsTo maker.sellPrice.base.amount maker.sellPrice.quote.amount taker.forSale r p ∧
      r ≤ maker.forSale ∧
      limitAmounts taker.amountForSale maker.amountForSale maker.sellPrice =
        .ok (if r = 0 then none
          else some ⟨⟨p, maker.sellPrice.quote.assetId⟩, ⟨r, maker.sellPrice.base.assetId⟩, true⟩) := by
  have hbase := hmaker.price.base_pos
  have hquote := hmaker.price.quote_pos
  obtain ⟨r, hr⟩ : ∃ r, taker.forSale * maker.sellPrice.base.amount /
    maker.sellPrice.quote.amount = r := ⟨_, rfl⟩
  have hround : RoundsTo maker.sellPrice.base.amount maker.sellPrice.quote.amount taker.forSale r
      (ceilDiv (r * maker.sellPrice.quote.amount) maker.sellPrice.base.amount) := ⟨hr, rfl⟩
  have hr_le : r ≤ maker.forSale := by
    rw [← hr]
    apply Int.ediv_le_of_le_mul hquote
    exact (Int.le_ediv_iff_mul_le hbase).mp hle
  have hr_max : r ≤ maxShareSupply := hr_le.trans (hmaker.forSale_le.trans hmaker.base_le)
  have hr_nonneg : 0 ≤ r := by
    rw [← hr]
    exact Int.ediv_nonneg (mul_nonneg htaker.le hbase.le) hquote.le
  have hp_le := (hround.le hbase hquote).trans (hle.trans hworth)
  have hmakerMul := mul_base hmaker.price hmaker.forSale_pos.le hworth
  have htakerMul := mul_quote hmaker.price htaker.le (hr ▸ hr_max)
  have hback := multiplyAndRoundUp_base hmaker.price hr_nonneg hp_le
  refine ⟨r, _, hround, hr_le, ?_⟩
  unfold limitAmounts LimitOrder.amountForSale
  rw [hopp.base, hmakerMul]
  show ((⟨taker.forSale, _⟩ : Asset).le ⟨LimitOrder.worth maker, _⟩ >>= fun b => _) = _
  rw [le_amounts, decide_eq_true hle]
  show ((⟨taker.forSale, _⟩ : Asset).mul maker.sellPrice >>= fun r => _) = _
  rw [htakerMul, hr]
  by_cases hzero : r = 0
  · rw [if_pos hzero]
    show (if r = 0 then _ else _) = _
    rw [if_pos hzero]
    rfl
  · rw [if_neg hzero]
    show (if r = 0 then _ else _) = _
    rw [if_neg hzero, hback]
    rfl

theorem limitAmounts_maker (hmaker : LimitOrder.Sound maker)
    (hopp : LimitOrder.Opposite taker maker)
    (hworth : LimitOrder.worth maker ≤ maxShareSupply)
    (hlt : LimitOrder.worth maker < taker.forSale) :
    ∃ p, RoundsTo maker.sellPrice.quote.amount maker.sellPrice.base.amount maker.forSale
        (LimitOrder.worth maker) p ∧
      limitAmounts taker.amountForSale maker.amountForSale maker.sellPrice =
        .ok (some ⟨⟨LimitOrder.worth maker, maker.sellPrice.quote.assetId⟩,
          ⟨p, maker.sellPrice.base.assetId⟩, false⟩) := by
  have hbase := hmaker.price.base_pos
  have hquote := hmaker.price.quote_pos
  have hround : RoundsTo maker.sellPrice.quote.amount maker.sellPrice.base.amount maker.forSale
      (LimitOrder.worth maker)
      (ceilDiv (LimitOrder.worth maker * maker.sellPrice.base.amount)
        maker.sellPrice.quote.amount) := ⟨rfl, rfl⟩
  refine ⟨_, hround, ?_⟩
  have hnonneg : 0 ≤ LimitOrder.worth maker :=
    Int.ediv_nonneg (mul_nonneg hmaker.forSale_pos.le hquote.le) hbase.le
  have hp_le := (hround.le hquote hbase).trans (hmaker.forSale_le.trans hmaker.base_le)
  have hmakerMul := mul_base hmaker.price hmaker.forSale_pos.le hworth
  have hback := multiplyAndRoundUp_quote hmaker.price hnonneg hp_le
  unfold limitAmounts LimitOrder.amountForSale
  rw [hopp.base, hmakerMul]
  show ((⟨taker.forSale, _⟩ : Asset).le ⟨LimitOrder.worth maker, _⟩ >>= fun b => _) = _
  rw [le_amounts, decide_eq_false (not_le.mpr hlt)]
  show ((⟨LimitOrder.worth maker, _⟩ : Asset).multiplyAndRoundUp maker.sellPrice >>= fun r => _) = _
  rw [hback]
  rfl

theorem limitAmounts_overflow (hmaker : LimitOrder.Sound maker)
    (hworth : maxShareSupply < LimitOrder.worth maker) :
    limitAmounts taker.amountForSale maker.amountForSale maker.sellPrice =
      .error (.fc "result <= GRAPHENE_MAX_SHARE_SUPPLY") := by
  unfold limitAmounts LimitOrder.amountForSale
  rw [show (⟨maker.forSale, maker.sellPrice.base.assetId⟩ : Asset).mul maker.sellPrice = _ from
    mul_base_overflow hmaker.price hworth]
  rfl

end Meta1Core.Market
