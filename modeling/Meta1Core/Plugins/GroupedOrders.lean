import Mathlib.Data.Prod.Lex
import Meta1Core.Lib.OrderedMap
import Meta1Core.Protocol.RatioRange

/-!
# The grouped order book (`grouped_orders_plugin.cpp`)

For each tracked percentage the limit orders of a market are put into groups, each with a range of
prices and the sum of what its orders have for sale.
-/

namespace Meta1Core.Plugins

open Lib (OrderedMap)
open Protocol

theorem maxShareSupply_pos : 0 < maxShareSupply := by decide

structure SellPrice where
  price : Price
  base_pos : 0 < price.base.amount
  quote_pos : 0 < price.quote.amount
  distinct : price.base.assetId ≠ price.quote.assetId
deriving DecidableEq

namespace SellPrice

def lt (a b : SellPrice) : Prop := a.price.lt b.price

instance : DecidableRel lt := fun a b => inferInstanceAs (Decidable (a.price.lt b.price))

def market (p : SellPrice) : AssetId × AssetId := (p.price.base.assetId, p.price.quote.assetId)

def max (p : SellPrice) : SellPrice :=
  ⟨Price.max p.price.base.assetId p.price.quote.assetId, maxShareSupply_pos, Int.one_pos, p.distinct⟩

def min (p : SellPrice) : SellPrice :=
  ⟨Price.min p.price.base.assetId p.price.quote.assetId, Int.one_pos, maxShareSupply_pos, p.distinct⟩

def cappedMax (p : SellPrice) : Prop := p.max.lt p

instance (p : SellPrice) : Decidable p.cappedMax := inferInstanceAs (Decidable (lt _ _))

def cappedMin (p : SellPrice) : Prop := ¬p.cappedMax ∧ p.lt p.min

instance (p : SellPrice) : Decidable p.cappedMin := inferInstanceAs (Decidable (_ ∧ _))

def capped (p : SellPrice) : SellPrice := if p.cappedMax then p.max else if p.cappedMin then p.min else p

end SellPrice

/-- `limit_order_object`, as far as the groups are concerned; an order that has nothing left for sale is
removed. -/
structure LimitOrder where
  id : Nat
  sellPrice : SellPrice
  forSale : Int
  forSale_pos : 0 < forSale
deriving DecidableEq

structure LimitOrderGroupKey where
  group : Nat
  minPrice : SellPrice
deriving DecidableEq

def LimitOrderGroupKey.lt (a b : LimitOrderGroupKey) : Prop :=
  a.group < b.group ∨ a.group = b.group ∧ b.minPrice.lt a.minPrice

instance : DecidableRel LimitOrderGroupKey.lt := fun _ _ => inferInstanceAs (Decidable (_ ∨ _))

structure LimitOrderGroupData where
  maxPrice : SellPrice
  totalForSale : Int
deriving DecidableEq

abbrev OrderGroup := LimitOrderGroupKey × LimitOrderGroupData

abbrev OgData := OrderedMap LimitOrderGroupKey LimitOrderGroupData LimitOrderGroupKey.lt

namespace SellPrice

def value (p : SellPrice) : Rat := p.price.base.amount / p.price.quote.amount

def rank (p : SellPrice) : Nat ×ₗ Nat ×ₗ Rat :=
  toLex (p.price.base.assetId, toLex (p.price.quote.assetId, p.value))

theorem value_lt_iff (p q : SellPrice) :
    p.value < q.value ↔
      q.price.quote.amount * p.price.base.amount < p.price.quote.amount * q.price.base.amount := by
  have hp : (0 : Rat) < p.price.quote.amount := Int.cast_pos.mpr p.quote_pos
  have hq : (0 : Rat) < q.price.quote.amount := Int.cast_pos.mpr q.quote_pos
  unfold value
  rw [div_lt_div_iff₀ hp hq, mul_comm, mul_comm (q.price.base.amount : Rat)]
  norm_cast

theorem lt_iff_rank (p q : SellPrice) : p.lt q ↔ p.rank < q.rank := by
  unfold lt Price.lt rank
  rw [Prod.Lex.toLex_lt_toLex, Prod.Lex.toLex_lt_toLex, value_lt_iff]

theorem lt_iff {p q : SellPrice} (h : p.market = q.market) : p.lt q ↔ p.value < q.value := by
  obtain ⟨hbase, hquote⟩ := Prod.mk.inj h
  rw [value_lt_iff]
  exact Price.lt_iff hbase hquote

end SellPrice

namespace LimitOrderGroupKey

theorem lt_iff (a b : LimitOrderGroupKey) :
    a.lt b ↔ a.group < b.group ∨ a.group = b.group ∧ b.minPrice.rank < a.minPrice.rank := by
  unfold lt
  rw [SellPrice.lt_iff_rank]

instance : IsStrictOrder LimitOrderGroupKey lt where
  irrefl a h := by
    rcases (lt_iff a a).mp h with h | ⟨-, h⟩
    · exact Nat.lt_irrefl _ h
    · exact lt_irrefl _ h
  trans a b c hab hbc := by
    rw [lt_iff] at *
    rcases hab with hab | ⟨hab, hab'⟩
    · rcases hbc with hbc | ⟨hbc, -⟩
      · exact .inl (hab.trans hbc)
      · exact .inl (hbc ▸ hab)
    · rcases hbc with hbc | ⟨hbc, hbc'⟩
      · exact .inl (hab ▸ hbc)
      · exact .inr ⟨hab.trans hbc, hbc'.trans hab'⟩

end LimitOrderGroupKey

/-! ## Insertion -/

def SameMarket (group : Nat) (p : SellPrice) (itr : OrderGroup) : Prop :=
  itr.1.group = group ∧ itr.1.minPrice.price.base.assetId = p.price.base.assetId ∧
    itr.1.minPrice.price.quote.assetId = p.price.quote.assetId

instance (group : Nat) (p : SellPrice) (itr : OrderGroup) :
    Decidable (SameMarket group p itr) := inferInstanceAs (Decidable (_ ∧ _))

namespace OgData

def createOgo (group : Nat) (o : LimitOrder) (idx : OgData) : OgData :=
  idx.assign ⟨group, o.sellPrice⟩ ⟨o.sellPrice, o.forSale⟩

def rekey (group : Nat) (o : LimitOrder) (itr : OrderGroup) (idx : OgData) : Except Exception OgData := do
  let totalForSale ← safe (o.forSale + itr.2.totalForSale)
  return (OrderedMap.erase idx itr.1).assign ⟨group, o.sellPrice⟩ ⟨itr.2.maxPrice, totalForSale⟩

/-- The order is added to the group, which gets the given `max_price`. -/
def addTo (o : LimitOrder) (maxPrice : SellPrice) (itr : OrderGroup) (idx : OgData) :
    Except Exception OgData := do
  let totalForSale ← safe (itr.2.totalForSale + o.forSale)
  return idx.assign itr.1 ⟨maxPrice, totalForSale⟩

def joinNext (group : Nat) (o : LimitOrder) (updateMax : Bool) (itr : OrderGroup) (idx : OgData) :
    Except Exception OgData :=
  if o.sellPrice.cappedMin ∧ o.sellPrice.lt itr.1.minPrice then idx.rekey group o itr
  else if updateMax ∨ o.sellPrice.cappedMax ∧ itr.2.maxPrice.lt o.sellPrice then
    idx.addTo o o.sellPrice itr
  else idx.addTo o itr.2.maxPrice itr

/-- `check_previous`; `p / r` is `p` times the inverse of `r`. -/
def checkPrevious (wrapped : Rat → Rat → Rat) (group : Nat) (o : LimitOrder) (idx : OgData) :
    Except Exception OgData :=
  match idx.previous ⟨group, o.sellPrice.capped⟩ with
  | none => .ok (idx.createOgo group o)
  | some itr =>
    if ¬SameMarket group o.sellPrice itr then .ok (idx.createOgo group o)
    else do
      let minPrice ← itr.2.maxPrice.price.mulRatioWith wrapped percent100 (percent100 + group)
      if o.sellPrice.capped.price.lt minPrice then return idx.createOgo group o
      else if o.sellPrice.cappedMax ∧ ¬o.sellPrice.lt itr.1.minPrice then
        idx.addTo o (if itr.2.maxPrice.lt o.sellPrice then o.sellPrice else itr.2.maxPrice) itr
      else idx.rekey group o itr

def insertOrder (wrapped : Rat → Rat → Rat) (group : Nat) (o : LimitOrder) (idx : OgData) :
    Except Exception OgData :=
  if idx.entries = [] then .ok (idx.createOgo group o)
  else
    match idx.lowerBound ⟨group, o.sellPrice.capped⟩ with
    | none => idx.checkPrevious wrapped group o
    | some itr =>
      if ¬SameMarket group o.sellPrice itr then idx.checkPrevious wrapped group o
      else if itr.2.maxPrice.lt o.sellPrice.capped then do
        let maxPrice ← itr.1.minPrice.price.mulRatioWith wrapped (percent100 + group) percent100
        if maxPrice.lt o.sellPrice.capped.price then idx.checkPrevious wrapped group o
        else idx.joinNext group o true itr
      else idx.joinNext group o false itr

end OgData

structure LimitOrderGroupIndex where
  trackedGroups : List Nat
  ogData : OgData := ∅
  log : List String := []

namespace LimitOrderGroupIndex

def objectInserted (wrapped : Rat → Rat → Rat) (o : LimitOrder) (s : LimitOrderGroupIndex) :
    Except Exception LimitOrderGroupIndex := do
  let ogData ← s.trackedGroups.foldlM (fun idx group => idx.insertOrder wrapped group o) s.ogData
  return { s with ogData := ogData }

def removeFrom (o : LimitOrder) (removeEmpty : Bool) (s : LimitOrderGroupIndex) (group : Nat) :
    LimitOrderGroupIndex :=
  let priceDismatch : LimitOrderGroupIndex := { s with
    log := "can not find the order group containing order for removing (price dismatch)" :: s.log }
  match s.ogData.lowerBound ⟨group, o.sellPrice⟩ with
  | none => priceDismatch
  | some itr =>
    if ¬SameMarket group o.sellPrice itr ∨ itr.2.maxPrice.lt o.sellPrice then priceDismatch
    else if itr.2.totalForSale < o.forSale then
      { s with
        log := "can not find the order group containing order for removing (amount dismatch)" :: s.log }
    else if removeEmpty = false ∨ o.forSale < itr.2.totalForSale then
      { s with
        ogData := s.ogData.assign itr.1 { itr.2 with totalForSale := itr.2.totalForSale - o.forSale } }
    else { s with ogData := s.ogData.erase itr.1 }

def removeOrder (o : LimitOrder) (removeEmpty : Bool) (s : LimitOrderGroupIndex) : LimitOrderGroupIndex :=
  s.trackedGroups.foldl (removeFrom o removeEmpty) s

end LimitOrderGroupIndex

structure GroupedBook where
  orders : List LimitOrder := []
  index : LimitOrderGroupIndex

inductive OrderEvent where
  | insert (o : LimitOrder)
  | modify (id : Nat) (forSale : Int) (forSale_pos : 0 < forSale)
  | remove (id : Nat)

namespace GroupedBook

def get (b : GroupedBook) (id : Nat) : Except Exception LimitOrder :=
  match b.orders.find? fun o => o.id = id with
  | some o => .ok o
  | none => .error (.fc "Unable to find Object")

def without (b : GroupedBook) (id : Nat) : List LimitOrder := b.orders.filter fun o => o.id ≠ id

/-- One operation on the index of limit orders: a modification is announced with `about_to_modify` and
followed by `object_modified`. -/
def step (wrapped : Rat → Rat → Rat) (b : GroupedBook) : OrderEvent → Except Exception GroupedBook
  | .insert o => do
    fcAssert (o.id ∉ b.orders.map LimitOrder.id)
      "Could not insert object, most likely a uniqueness constraint was violated"
    return { orders := o :: b.orders, index := ← b.index.objectInserted wrapped o }
  | .modify id forSale forSale_pos => do
    let o ← b.get id
    let o' : LimitOrder := { o with forSale := forSale, forSale_pos := forSale_pos }
    let index ← (b.index.removeOrder o false).objectInserted wrapped o'
    return { orders := o' :: b.without id, index := index }
  | .remove id => do
    let o ← b.get id
    return { orders := b.without id, index := b.index.removeOrder o true }

end GroupedBook

end Meta1Core.Plugins
