import Mathlib.Data.List.Sort
import Meta1Core.Allocation.Time
import Meta1Core.Lib.Table
import Meta1Core.Protocol.Asset

/-!
# The market history (`market_history_plugin.cpp`)

Every fill is recorded, and the volume of a maker fill is added to the ticker of its market.  After
each block a cursor moves along the records and takes the volumes that are older than a day off the
tickers again.
-/

namespace Meta1Core.Plugins

open Lib (Table)
open Protocol

abbrev Market := AssetId × AssetId

/-- `fill_order_operation`; the two sides of a fill are of different assets. -/
structure FillOrder where
  pays : Asset
  receives : Asset
  fillPrice : Price
  isMaker : Bool
  distinct : pays.assetId ≠ receives.assetId
deriving DecidableEq

namespace FillOrder

/-- `base` and `quote` of the keys -/
def market (o : FillOrder) : Market :=
  if o.receives.assetId < o.pays.assetId then (o.receives.assetId, o.pays.assetId)
  else (o.pays.assetId, o.receives.assetId)

def tradePrice (o : FillOrder) : Price :=
  let price : Price := ⟨o.pays, o.receives⟩
  if o.receives.assetId < o.pays.assetId then price.inv else price

def orderedFillPrice (o : FillOrder) : Price :=
  if o.fillPrice.quote.assetId < o.fillPrice.base.assetId then o.fillPrice.inv else o.fillPrice

end FillOrder

structure OrderHistory where
  id : Nat
  market : Market
  sequence : Int
  time : Nat
  op : FillOrder

structure MarketTicker where
  lastDayBase : Int
  lastDayQuote : Int
  latestBase : Int
  latestQuote : Int
  baseVolume : Nat
  quoteVolume : Nat

structure MarketTickerMeta where
  rollingMinOrderHisId : Nat
  skipMinOrderHisId : Bool

structure HistoryOptions where
  maxOrderHisRecordsPerMarket : Nat
  maxOrderHisSecondsPerMarket : Nat

/-- The objects of the plugin; the order history is in the order of the ids. -/
structure MarketHistory where
  orderHistory : List OrderHistory := []
  nextId : Nat := 0
  tickers : Table Market MarketTicker := ∅
  tickerMeta : Option MarketTickerMeta := none

namespace MarketHistory

def newestFirst (s : MarketHistory) (m : Market) : List OrderHistory :=
  (s.orderHistory.filter fun r => r.market = m).reverse

def byKey (s : MarketHistory) (m : Market) : List OrderHistory :=
  (s.newestFirst m).insertionSort fun r r' => r.sequence ≤ r'.sequence

def byMarketTime (s : MarketHistory) (m : Market) : List OrderHistory :=
  (s.newestFirst m).insertionSort fun r r' =>
    r'.time < r.time ∨ r.time = r'.time ∧ r.sequence ≤ r'.sequence

def newSequence (s : MarketHistory) (m : Market) : Int :=
  match (s.byKey m).head? with
  | some r => r.sequence - 1
  | none => 0

def minTime (opts : HistoryOptions) (now : Nat) : Nat :=
  if opts.maxOrderHisSecondsPerMarket < now then now - opts.maxOrderHisSecondsPerMarket else 0

/-- What is removed when the record with this sequence number has been added: what is behind both
bounds -/
def oldRecords (opts : HistoryOptions) (now : Nat) (sequence : Int) (s : MarketHistory) (m : Market) :
    List OrderHistory :=
  let excess :=
    (s.byKey m).dropWhile fun r => r.sequence < sequence + opts.maxOrderHisRecordsPerMarket
  let aged := (s.byMarketTime m).dropWhile fun r => minTime opts now < r.time
  match excess.head?, aged.head? with
  | some r, some r' => if r'.sequence ≤ r.sequence then excess else aged
  | _, _ => []

def removeAll (records : List OrderHistory) (s : MarketHistory) : MarketHistory :=
  { s with orderHistory := s.orderHistory.filter fun r => r.id ∉ records.map OrderHistory.id }

/-- `operation_process_fill_order`, as far as the order history is concerned -/
def record (opts : HistoryOptions) (now : Nat) (s : MarketHistory) (o : FillOrder) : MarketHistory :=
  let sequence := s.newSequence o.market
  let added : MarketHistory := { s with
    orderHistory := s.orderHistory ++ [⟨s.nextId, o.market, sequence, now, o⟩]
    nextId := s.nextId + 1
    tickerMeta := s.tickerMeta <|> some ⟨s.nextId, false⟩ }
  added.removeAll (added.oldRecords opts now sequence o.market)

def addToTicker (s : MarketHistory) (o : FillOrder) : MarketHistory :=
  let ticker : MarketTicker :=
    match s.tickers.lookup o.market with
    | none =>
      { lastDayBase := 0
        lastDayQuote := 0
        latestBase := o.orderedFillPrice.base.amount
        latestQuote := o.orderedFillPrice.quote.amount
        baseVolume := uint128 o.tradePrice.base.amount
        quoteVolume := uint128 o.tradePrice.quote.amount }
    | some mt =>
      { mt with
        latestBase := o.orderedFillPrice.base.amount
        latestQuote := o.orderedFillPrice.quote.amount
        baseVolume := uint128 (mt.baseVolume + o.tradePrice.base.amount)
        quoteVolume := uint128 (mt.quoteVolume + o.tradePrice.quote.amount) }
  { s with tickers := s.tickers.insert o.market ticker }

def processFillOrder (opts : HistoryOptions) (now : Nat) (s : MarketHistory) (o : FillOrder) :
    MarketHistory :=
  let s := s.record opts now o
  if o.isMaker then s.addToTicker o else s

/-- The records whose volumes are rolled out, among those that the cursor passes -/
def rolled (rollingMin : Nat) : Bool → List OrderHistory → List OrderHistory
  | _, [] => []
  | skip, r :: rs =>
    if skip && r.id = rollingMin then rolled rollingMin false rs
    else if r.op.isMaker then r :: rolled rollingMin skip rs
    else rolled rollingMin skip rs

/-- The modification of the ticker for an expired record -/
def subtract (s : MarketHistory) (r : OrderHistory) : MarketHistory :=
  match s.tickers.lookup r.op.market with
  | none => s
  | some mt =>
    { s with
      tickers := s.tickers.insert r.op.market { mt with
        lastDayBase := r.op.orderedFillPrice.base.amount
        lastDayQuote := r.op.orderedFillPrice.quote.amount
        baseVolume := uint128 (mt.baseVolume - r.op.tradePrice.base.amount)
        quoteVolume := uint128 (mt.quoteVolume - r.op.tradePrice.quote.amount) } }

def fromCursor (s : MarketHistory) (cursor : MarketTickerMeta) : List OrderHistory :=
  s.orderHistory.dropWhile fun r => r.id < cursor.rollingMinOrderHisId

def lastDay (now : Nat) : Nat := Allocation.u32Sub now 86400

/-- The expired data: the records whose volumes are subtracted at the end of a block -/
def expired (now : Nat) (s : MarketHistory) : List OrderHistory :=
  match s.tickerMeta with
  | none => []
  | some cursor =>
    rolled cursor.rollingMinOrderHisId cursor.skipMinOrderHisId
      ((s.fromCursor cursor).takeWhile fun r => r.time < lastDay now)

def moveCursor (now : Nat) (s : MarketHistory) (cursor : MarketTickerMeta) : MarketTickerMeta :=
  match (s.fromCursor cursor).dropWhile fun r => r.time < lastDay now with
  | r :: _ => if r.id ≠ cursor.rollingMinOrderHisId then ⟨r.id, false⟩ else cursor
  | [] =>
    let passed := (s.fromCursor cursor).takeWhile fun r => r.time < lastDay now
    let lastMinHisId := (passed.getLast?.map OrderHistory.id).getD cursor.rollingMinOrderHisId
    if ¬cursor.skipMinOrderHisId ∨ lastMinHisId ≠ cursor.rollingMinOrderHisId then ⟨lastMinHisId, true⟩
    else cursor

def rollOut (now : Nat) (s : MarketHistory) : MarketHistory :=
  { (s.expired now).foldl subtract s with tickerMeta := s.tickerMeta.map (s.moveCursor now) }

def updateMarketHistories (opts : HistoryOptions) (now : Nat) (fills : List FillOrder)
    (s : MarketHistory) : MarketHistory :=
  (fills.foldl (processFillOrder opts now) s).rollOut now

end MarketHistory

structure FillBlock where
  time : Nat
  fills : List FillOrder
  inRange : time < 2 ^ 32

/-- The objects of the plugin, and so far: the time of the last block, all fills with their times,
and those subtracted -/
structure TickerChain where
  history : MarketHistory := {}
  now : Nat := 0
  fills : List (Nat × FillOrder) := []
  subtracted : List (Nat × FillOrder) := []

def TickerChain.step (opts : HistoryOptions) (c : TickerChain) (b : FillBlock) :
    Except Exception TickerChain :=
  let filled := b.fills.foldl (MarketHistory.processFillOrder opts b.time) c.history
  .ok {
    history := c.history.updateMarketHistories opts b.time b.fills
    now := b.time
    fills := c.fills ++ b.fills.map fun o => (b.time, o)
    subtracted := c.subtracted ++ (filled.expired b.time).map fun r => (r.time, r.op) }

end Meta1Core.Plugins
