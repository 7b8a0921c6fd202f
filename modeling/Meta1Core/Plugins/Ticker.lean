import Meta1Core.Plugins.Cursor

/-!
# The volumes of a day

A ticker holds the volume of all fills that have been added and not yet subtracted.
-/

namespace Meta1Core.Plugins

open Lib (ClosedBelow Reachable Table filter_eq_of_sublist)
open Protocol (uint128)

variable {opts : HistoryOptions} {fills subtracted : List (Nat × FillOrder)} {s : MarketHistory}
  {c : TickerChain} {b : FillBlock} {now : Nat} {o : FillOrder} {m : Market}

def volume (amount : FillOrder → Int) (m : Market) (fills : List (Nat × FillOrder)) : Int :=
  ((fills.filter fun e => e.2.isMaker && decide (e.2.market = m)).map fun e => amount e.2).sum

def baseAmount (o : FillOrder) : Int := o.tradePrice.base.amount
def quoteAmount (o : FillOrder) : Int := o.tradePrice.quote.amount

/-- The maker fills of the last day make up the volume, and each older one has been subtracted once. -/
structure TickerChain.Exact (c : TickerChain) : Prop where
  absent : ∀ m, c.history.tickers.lookup m = none → ∀ e ∈ c.fills, e.2.isMaker = true → e.2.market ≠ m
  volumes : ∀ m mt, c.history.tickers.lookup m = some mt →
    mt.baseVolume = uint128 (volume baseAmount m (c.fills.filter fun e => ¬Old c.now e)) ∧
      mt.quoteVolume = uint128 (volume quoteAmount m (c.fills.filter fun e => ¬Old c.now e))
  once : c.subtracted = c.fills.filter fun e => e.2.isMaker && decide (Old c.now e)

def TickerChain.fillsWith (c : TickerChain) (time : Nat) (done : List FillOrder) :
    List (Nat × FillOrder) := c.fills ++ done.map fun o => (time, o)

/-- After each fill of the block, the records of its market that are there are those of the newest fills
and of the recent ones. -/
def TickerChain.Retains (opts : HistoryOptions) (c : TickerChain) (b : FillBlock) : Prop :=
  ∀ done o rest, b.fills = done ++ o :: rest →
    ∀ r ∈ created (c.fillsWith b.time (done ++ [o])), r.market = o.market →
      (r ∈ ((done ++ [o]).foldl (MarketHistory.processFillOrder opts b.time) c.history).orderHistory ↔
        newer (c.fillsWith b.time (done ++ [o])) r < opts.maxOrderHisRecordsPerMarket ∨
          (b.time : Int) - opts.maxOrderHisSecondsPerMarket < r.time)

/-- Times increase and are at least a day after the epoch, and no maker fill that still counts is behind
both bounds of the last fill of its market in the block. -/
def Regular (opts : HistoryOptions) (c : TickerChain) (b : FillBlock) : Prop :=
  c.now < b.time ∧ 86400 ≤ b.time ∧
    ∀ r ∈ c.history.orderHistory, r.op.isMaker = true → ¬Old c.now (r.time, r.op) →
      0 < b.fills.countP (fun o => o.market = r.market) →
      ¬Behind opts (c.history.newSequence r.market + 1 - b.fills.countP fun o => o.market = r.market)
        b.time r

instance (c : TickerChain) (b : FillBlock) : Decidable (Regular opts c b) :=
  inferInstanceAs (Decidable (_ ∧ _))

theorem volume_append (amount : FillOrder → Int) (m : Market) (fills fills' : List (Nat × FillOrder)) :
    volume amount m (fills ++ fills') = volume amount m fills + volume amount m fills' := by
  simp [volume, List.filter_append]

theorem volume_singleton (amount : FillOrder → Int) (m : Market) (e : Nat × FillOrder) :
    volume amount m [e] = if e.2.isMaker = true ∧ e.2.market = m then amount e.2 else 0 := by
  unfold volume
  by_cases h : e.2.isMaker = true ∧ e.2.market = m
  · simp [h.1, h.2]
  · rw [if_neg h, List.filter_cons_of_neg (by simpa using h)]
    rfl

theorem volume_filter_not (amount : FillOrder → Int) (m : Market) (p : Nat × FillOrder → Bool)
    (fills : List (Nat × FillOrder)) :
    volume amount m (fills.filter fun e => !p e) =
      volume amount m fills - volume amount m (fills.filter fun e => e.2.isMaker && p e) := by
  induction fills with
  | nil => rfl
  | cons e fills ih =>
    rw [← List.singleton_append, List.filter_append, List.filter_append, volume_append, volume_append,
      volume_append, ih]
    cases hp : p e with
    | true =>
      cases hmaker : e.2.isMaker with
      | true => simp [hp, hmaker, volume]
      | false => simp [hp, hmaker, volume]
    | false => simp [hp, volume]; omega

theorem uint128_add (v w : Int) : uint128 (uint128 v + w) = uint128 (v + w) := by
  unfold uint128
  omega

theorem uint128_sub (v w : Int) : uint128 (uint128 v - w) = uint128 (v - w) := by
  unfold uint128
  omega

structure Counts (fills subtracted : List (Nat × FillOrder)) (s : MarketHistory) : Prop where
  subset : ∀ e ∈ subtracted, e ∈ fills
  absent : ∀ m, s.tickers.lookup m = none → ∀ e ∈ fills, e.2.isMaker = true → e.2.market ≠ m
  volumes : ∀ m mt, s.tickers.lookup m = some mt →
    mt.baseVolume = uint128 (volume baseAmount m fills - volume baseAmount m subtracted) ∧
      mt.quoteVolume = uint128 (volume quoteAmount m fills - volume quoteAmount m subtracted)

namespace Counts

theorem volume_eq_zero {amount : FillOrder → Int}
    (hnone : ∀ e ∈ fills, e.2.isMaker = true → e.2.market ≠ m) : volume amount m fills = 0 := by
  unfold volume
  have hempty : fills.filter (fun e => e.2.isMaker && decide (e.2.market = m)) = [] := by
    apply List.filter_eq_nil_iff.mpr
    intro e he hand
    rw [Bool.and_eq_true, decide_eq_true_iff] at hand
    exact hnone e he hand.1 hand.2
  rw [hempty]
  rfl

theorem volume_concat (amount : FillOrder → Int) (m : Market) (fills : List (Nat × FillOrder))
    (e : Nat × FillOrder) :
    volume amount m (fills ++ [e]) =
      volume amount m fills + if e.2.isMaker = true ∧ e.2.market = m then amount e.2 else 0 := by
  rw [volume_append, volume_singleton]

theorem takerFill (h : Counts fills subtracted s) {e : Nat × FillOrder} (htaker : e.2.isMaker = false)
    {s' : MarketHistory} (htickers : s'.tickers = s.tickers) :
    Counts (fills ++ [e]) subtracted s' where
  subset e he := List.mem_append_left _ (h.subset e he)
  absent m hnone e' he' hmaker := by
    rw [htickers] at hnone
    rcases List.mem_append.mp he' with he' | he'
    · exact h.absent m hnone e' he' hmaker
    · rw [List.mem_singleton.mp he', htaker] at hmaker
      cases hmaker
  volumes m mt hmt := by
    rw [htickers] at hmt
    have hvolumes := h.volumes m mt hmt
    simpa [volume_concat, htaker] using hvolumes

theorem addToTicker (h : Counts fills subtracted s) (t : Nat) (hmaker : o.isMaker = true) :
    Counts (fills ++ [(t, o)]) subtracted (s.addToTicker o) where
  subset e he := List.mem_append_left _ (h.subset e he)
  absent m hnone e he hmaker' := by
    unfold MarketHistory.addToTicker at hnone
    rw [Table.lookup_insert_eq] at hnone
    split at hnone
    · cases hnone
    · rename_i hm
      rcases List.mem_append.mp he with he | he
      · exact h.absent m hnone e he hmaker'
      · rw [List.mem_singleton.mp he]
        exact Ne.symm hm
  volumes m mt hmt := by
    unfold MarketHistory.addToTicker at hmt
    rw [Table.lookup_insert_eq] at hmt
    rw [volume_concat, volume_concat]
    by_cases hm : m = o.market
    · subst hm
      rw [if_pos rfl] at hmt
      cases hold : s.tickers.lookup o.market with
      | none =>
        rw [hold] at hmt
        cases hmt
        -- nothing of this market has been added before
        have hnone := h.absent _ hold
        rw [volume_eq_zero hnone, volume_eq_zero hnone,
          volume_eq_zero fun e he => hnone e (h.subset e he),
          volume_eq_zero fun e he => hnone e (h.subset e he)]
        simp [hmaker, baseAmount, quoteAmount]
      | some old =>
        rw [hold] at hmt
        cases hmt
        obtain ⟨hbase, hquote⟩ := h.volumes _ old hold
        dsimp only
        rw [hbase, hquote, uint128_add, uint128_add, if_pos ⟨hmaker, rfl⟩, if_pos ⟨hmaker, rfl⟩]
        constructor
        · exact congrArg uint128 (sub_add_eq_add_sub ..)
        · exact congrArg uint128 (sub_add_eq_add_sub ..)
    · rw [if_neg hm] at hmt
      have hskipped : ¬(o.isMaker = true ∧ o.market = m) := fun hand => hm hand.2.symm
      rw [if_neg hskipped, if_neg hskipped, Int.add_zero, Int.add_zero]
      exact h.volumes m mt hmt

theorem processFillOrder (h : Counts fills subtracted s) :
    Counts (fills ++ [(now, o)]) subtracted (s.processFillOrder opts now o) := by
  have hrecord : (s.record opts now o).tickers = s.tickers := rfl
  unfold MarketHistory.processFillOrder
  cases hmaker : o.isMaker with
  | false => exact h.takerFill hmaker hrecord
  | true =>
    apply addToTicker _ now hmaker
    exact { subset := h.subset, absent := h.absent, volumes := h.volumes }

theorem subtract (h : Counts fills subtracted s) {r : OrderHistory} (hr : (r.time, r.op) ∈ fills)
    (hmaker : r.op.isMaker = true) :
    Counts fills (subtracted ++ [(r.time, r.op)]) (s.subtract r) := by
  have hsubset : ∀ e ∈ subtracted ++ [(r.time, r.op)], e ∈ fills := by
    intro e he
    rcases List.mem_append.mp he with he | he
    · exact h.subset e he
    · rwa [List.mem_singleton.mp he]
  unfold MarketHistory.subtract
  cases hold : s.tickers.lookup r.op.market with
  | none => exact absurd rfl (h.absent _ hold _ hr hmaker)
  | some old =>
    dsimp only
    obtain ⟨hbase, hquote⟩ := h.volumes _ old hold
    constructor
    · exact hsubset
    · intro m hnone
      dsimp only at hnone
      rw [Table.lookup_insert_eq] at hnone
      split at hnone
      · cases hnone
      · exact h.absent m hnone
    · intro m mt hmt
      dsimp only at hmt
      rw [Table.lookup_insert_eq] at hmt
      rw [volume_concat, volume_concat]
      by_cases hm : m = r.op.market
      · subst hm
        rw [if_pos rfl] at hmt
        cases hmt
        dsimp only
        rw [hbase, hquote, uint128_sub, uint128_sub, if_pos ⟨hmaker, rfl⟩, if_pos ⟨hmaker, rfl⟩]
        constructor
        · exact congrArg uint128 (Int.sub_sub ..)
        · exact congrArg uint128 (Int.sub_sub ..)
      · rw [if_neg hm] at hmt
        have hskipped : ¬(r.op.isMaker = true ∧ r.op.market = m) := fun hand => hm hand.2.symm
        rw [if_neg hskipped, if_neg hskipped, Int.add_zero, Int.add_zero]
        exact h.volumes m mt hmt

theorem subtractAll {records : List OrderHistory} (h : Counts fills subtracted s)
    (hrecords : ∀ r ∈ records, (r.time, r.op) ∈ fills ∧ r.op.isMaker = true) :
    Counts fills (subtracted ++ records.map fun r => (r.time, r.op))
      (records.foldl MarketHistory.subtract s) := by
  induction records generalizing subtracted s with
  | nil => simpa using h
  | cons r records ih =>
    have hfirst := hrecords r List.mem_cons_self
    have hrest := ih (h.subtract hfirst.1 hfirst.2) fun r' hr' => hrecords r' (List.mem_cons_of_mem _ hr')
    simpa using hrest

end Counts

theorem subtract_orderHistory (r : OrderHistory) : (s.subtract r).orderHistory = s.orderHistory := by
  unfold MarketHistory.subtract
  split <;> rfl

theorem subtract_nextId (r : OrderHistory) : (s.subtract r).nextId = s.nextId := by
  unfold MarketHistory.subtract
  split <;> rfl

theorem rollOut_orderHistory (now : Nat) (s : MarketHistory) :
    (s.rollOut now).orderHistory = s.orderHistory := by
  show ((s.expired now).foldl MarketHistory.subtract s).orderHistory = _
  generalize s.expired now = records
  induction records generalizing s with
  | nil => rfl
  | cons r records ih => rw [List.foldl_cons, ih, subtract_orderHistory]

theorem rollOut_nextId (now : Nat) (s : MarketHistory) : (s.rollOut now).nextId = s.nextId := by
  show ((s.expired now).foldl MarketHistory.subtract s).nextId = _
  generalize s.expired now = records
  induction records generalizing s with
  | nil => rfl
  | cons r records ih => rw [List.foldl_cons, ih, subtract_nextId]

namespace TickerChain

theorem fillsWith_concat (c : TickerChain) (time : Nat) (done : List FillOrder) (o : FillOrder) :
    c.fillsWith time (done ++ [o]) = c.fillsWith time done ++ [(time, o)] := by
  unfold fillsWith
  rw [List.map_append, ← List.append_assoc]
  rfl

theorem mem_created_fillsWith {c : TickerChain} {time : Nat} {done : List FillOrder} {r : OrderHistory}
    (hr : r ∈ created (c.fillsWith time done)) : r ∈ created c.fills ∨ r.time = time := by
  induction done using List.reverseRecOn with
  | nil =>
    rw [fillsWith, List.map_nil, List.append_nil] at hr
    exact .inl hr
  | append_singleton done o ih =>
    rw [fillsWith_concat, created_concat, List.mem_append, List.mem_singleton] at hr
    rcases hr with hr | rfl
    · exact ih hr
    · exact .inr rfl

theorem fillsOf_fillsWith (c : TickerChain) (time : Nat) (done : List FillOrder) (m : Market) :
    fillsOf m (c.fillsWith time done) = fillsOf m c.fills + done.countP fun o => o.market = m := by
  unfold fillsWith fillsOf
  rw [List.countP_append, List.countP_map]
  rfl

structure Recorded (opts : HistoryOptions) (c : TickerChain) : Prop where
  timed : Timed c.fills c.now
  stored : Stored opts c.fills c.history

theorem recorded_empty : Recorded opts {} where
  timed := ⟨.nil, fun _ he => (nomatch he), fun _ he => (nomatch he)⟩
  stored := stored_empty

namespace Recorded

section

variable (h : Recorded opts c) (hlt : c.now < b.time)
  (hseconds : 0 < opts.maxOrderHisSecondsPerMarket)

include h hlt hseconds

theorem foldl (done : List FillOrder) : Timed (c.fillsWith b.time done) b.time ∧
      Stored opts (c.fillsWith b.time done)
        (done.foldl (MarketHistory.processFillOrder opts b.time) c.history) := by
  induction done using List.reverseRecOn with
  | nil =>
    rw [fillsWith, List.map_nil, List.append_nil]
    exact ⟨⟨h.timed.pairwise, h.timed.pos, fun e he => (h.timed.le_now e he).trans hlt.le⟩, h.stored⟩
  | append_singleton done o ih =>
    have hnow : 0 < b.time := Nat.zero_lt_of_lt hlt
    rw [fillsWith_concat, List.foldl_append]
    exact ⟨ih.1.concat hnow o, ih.2.processFillOrder ih.1 hnow hseconds⟩

theorem step {c' : TickerChain} (hstep : c.step opts b = .ok c') : Recorded opts c' := by
  cases hstep
  obtain ⟨htimed, hstored⟩ := h.foldl hlt hseconds b.fills
  refine ⟨htimed, ?_⟩
  constructor
  · exact (rollOut_nextId ..).trans hstored.nextId
  · have hhistory := rollOut_orderHistory b.time
      (b.fills.foldl (MarketHistory.processFillOrder opts b.time) c.history)
    exact hhistory ▸ hstored.sublist
  · have hhistory := rollOut_orderHistory b.time
      (b.fills.foldl (MarketHistory.processFillOrder opts b.time) c.history)
    exact hhistory ▸ hstored.missing

theorem retains : c.Retains opts b := by
  intro done o rest _ r hr hmarket
  obtain ⟨htimed, hstored⟩ := h.foldl hlt hseconds done
  rw [fillsWith_concat] at hr ⊢
  rw [List.foldl_append]
  exact hstored.retained htimed (Nat.zero_lt_of_lt hlt) hseconds hr hmarket

end

end Recorded

/-- The tickers hold what has not been subtracted, the cursor has passed what is old, and what is not old
and counts is still there. -/
structure Rolled (now : Nat) (fills subtracted : List (Nat × FillOrder)) (s : MarketHistory) : Prop where
  boundary : Boundary now s
  counts : Counts fills subtracted s
  kept : ∀ r ∈ created fills, r.op.isMaker = true → ¬Old now (r.time, r.op) → r ∈ s.orderHistory

theorem not_removedBy (h : Recorded opts c) (hkept : ∀ r ∈ created c.fills, r.op.isMaker = true →
      ¬Old c.now (r.time, r.op) → r ∈ c.history.orderHistory)
    (hseconds : 0 < opts.maxOrderHisSecondsPerMarket) (hregular : Regular opts c b)
    {done rest : List FillOrder} (hb : b.fills = done ++ o :: rest) {r : OrderHistory}
    (hr : r ∈ created (c.fillsWith b.time (done ++ [o]))) (hmaker : r.op.isMaker = true)
    (hold : ¬Old c.now (r.time, r.op)) :
    ¬Stored.RemovedBy opts (c.fillsWith b.time done) b.time o r := by
  obtain ⟨hlt, -, hregular⟩ := hregular
  rintro ⟨hmarket, hseq, htime⟩
  have hearlier := htime.trans_lt (minTime_lt hseconds (Nat.zero_lt_of_lt hlt))
  rcases mem_created_fillsWith hr with hcreated | hsame
  · have hcount : b.fills.countP (fun o' => o'.market = r.market) =
        done.countP (fun o' => o'.market = r.market) + 1 +
          rest.countP (fun o' => o'.market = r.market) := by
      rw [hb, List.countP_append, List.countP_cons_of_pos (by simpa using hmarket.symm)]
      omega
    apply hregular r (hkept r hcreated hmaker hold) hmaker hold (by omega)
    refine ⟨?_, htime⟩
    rw [h.stored.newSequence_eq h.timed hseconds, hcount]
    rw [fillsOf_fillsWith, ← hmarket] at hseq
    omega
  · exact Nat.lt_irrefl _ (hsame ▸ hearlier)

theorem Rolled.foldl (h : Recorded opts c) (hrolled : Rolled c.now c.fills c.subtracted c.history)
    (hseconds : 0 < opts.maxOrderHisSecondsPerMarket) (hregular : Regular opts c b)
    (done : List FillOrder) : ∀ rest, b.fills = done ++ rest →
      Rolled c.now (c.fillsWith b.time done) c.subtracted
        (done.foldl (MarketHistory.processFillOrder opts b.time) c.history) := by
  induction done using List.reverseRecOn with
  | nil =>
    intro rest _
    rw [fillsWith, List.map_nil, List.append_nil]
    exact hrolled
  | append_singleton done o ih =>
    intro rest hb
    rw [List.append_assoc, List.singleton_append] at hb
    have hlt := hregular.1
    have hnow : 0 < b.time := Nat.zero_lt_of_lt hlt
    have hdone := ih (o :: rest) hb
    obtain ⟨htimed, hstored⟩ := h.foldl hlt hseconds done
    rw [List.foldl_append]
    constructor
    · exact hdone.boundary.processFillOrder hstored htimed hlt hseconds
    · rw [fillsWith_concat]
      exact hdone.counts.processFillOrder
    · intro r hr hmaker hold
      have hkeep := not_removedBy h hrolled.kept hseconds hregular hb hr hmaker hold
      show r ∈ MarketHistory.orderHistory (MarketHistory.processFillOrder opts b.time _ o)
      rw [hstored.processFillOrder_orderHistory htimed hnow hseconds, List.mem_filter]
      refine ⟨?_, decide_eq_true hkeep⟩
      rw [fillsWith_concat, created_concat] at hr
      rw [List.mem_append] at hr ⊢
      exact hr.imp_left fun hr => hdone.kept r hr hmaker hold

structure Settled (c : TickerChain) : Prop where
  rolled : Rolled c.now c.fills c.subtracted c.history
  once : c.subtracted = c.fills.filter fun e => e.2.isMaker && decide (Old c.now e)

theorem settled_empty : Settled {} where
  rolled :=
    { boundary := boundary_empty
      counts := ⟨fun _ he => (nomatch he), fun _ _ _ he => (nomatch he), fun _ _ hmt => (nomatch hmt)⟩
      kept := fun _ hr => (nomatch hr) }
  once := rfl

theorem expired_map {s : MarketHistory} {t : Nat} (h : Rolled now fills subtracted s)
    (hs : Stored opts fills s) (htimed : Timed fills t) (ht : t < 2 ^ 32) (hday : 86400 ≤ t) :
    (s.expired t).map (fun r => (r.time, r.op)) =
      fills.filter fun e => e.2.isMaker && (!decide (Old now e) && decide (Old t e)) := by
  have hall : ∀ r ∈ created fills, (r.op.isMaker &&
      (!decide (Old now (r.time, r.op)) && decide (Old t (r.time, r.op)))) = true →
        r ∈ s.orderHistory := by
    intro r hr hand
    simp only [Bool.and_eq_true, Bool.not_eq_true', decide_eq_false_iff_not] at hand
    exact h.kept r hr hand.1 hand.2.1
  rw [h.boundary.expired_eq hs htimed ht hday, filter_eq_of_sublist hs.sublist (created_nodup fills) hall]
  conv_rhs => rw [← created_map fills, List.filter_map]
  rfl

theorem Settled.step {c' : TickerChain} (h : Recorded opts c) (hsettled : Settled c)
    (hseconds : 0 < opts.maxOrderHisSecondsPerMarket) (hregular : Regular opts c b)
    (hstep : c.step opts b = .ok c') : Settled c' := by
  cases hstep
  have hlt := hregular.1
  have hday := hregular.2.1
  obtain ⟨htimed, hstored⟩ := h.foldl hlt hseconds b.fills
  have hfilled := Rolled.foldl h hsettled.rolled hseconds hregular b.fills [] (List.append_nil _).symm
  have hexpired := expired_map hfilled hstored htimed b.inRange hday
  unfold MarketHistory.updateMarketHistories
  set filled := b.fills.foldl (MarketHistory.processFillOrder opts b.time) c.history
  have hhistory : (filled.rollOut b.time).orderHistory = filled.orderHistory := rollOut_orderHistory ..
  have hcounts : Counts (c.fillsWith b.time b.fills)
      (c.subtracted ++ (filled.expired b.time).map fun r => (r.time, r.op))
      (filled.rollOut b.time) := by
    have hall : ∀ r ∈ filled.expired b.time,
        (r.time, r.op) ∈ c.fillsWith b.time b.fills ∧ r.op.isMaker = true := by
      intro r hr
      have hmem : (r.time, r.op) ∈ (filled.expired b.time).map fun r => (r.time, r.op) :=
        List.mem_map.mpr ⟨r, hr, rfl⟩
      rw [hexpired, List.mem_filter, Bool.and_eq_true] at hmem
      exact ⟨hmem.1, hmem.2.1⟩
    have hsubtracted := hfilled.counts.subtractAll hall
    exact { subset := hsubtracted.subset, absent := hsubtracted.absent, volumes := hsubtracted.volumes }
  refine ⟨⟨?_, hcounts, ?_⟩, ?_⟩
  · exact hfilled.boundary.rollOut hstored htimed hlt.le b.inRange hday hhistory (rollOut_nextId ..) rfl
  · intro r hr hmaker hold
    rw [hhistory]
    exact hfilled.kept r hr hmaker fun hold' => hold (hold'.mono hlt.le)
  · -- what was subtracted before is what was old before
    have hbefore : c.subtracted =
        (c.fillsWith b.time b.fills).filter fun e => e.2.isMaker && decide (Old c.now e) := by
      have hnew : (b.fills.map fun o => (b.time, o)).filter
          (fun e => e.2.isMaker && decide (Old c.now e)) = [] := by
        apply List.filter_eq_nil_iff.mpr
        intro e he hand
        obtain ⟨o, -, rfl⟩ := List.mem_map.mp he
        have hold : b.time + 86400 < c.now := of_decide_eq_true (Bool.and_eq_true_iff.mp hand).2
        omega
      rw [fillsWith, List.filter_append, hnew, List.append_nil, ← hsettled.once]
    have hclosed : ClosedBelow (fun e => decide (Old c.now e)) (c.fillsWith b.time b.fills) := by
      apply ClosedBelow.of_pairwise htimed.pairwise
      intro e e' hle hold
      exact decide_eq_true (Nat.lt_of_le_of_lt (Nat.add_le_add_right hle _) (of_decide_eq_true hold))
    have hmono : ∀ e ∈ c.fillsWith b.time b.fills, decide (Old c.now e) = true →
        decide (Old b.time e) = true :=
      fun e _ hold => decide_eq_true ((of_decide_eq_true hold).mono hlt.le)
    show c.subtracted ++ (filled.expired b.time).map (fun r => (r.time, r.op)) =
      (c.fillsWith b.time b.fills).filter _
    rw [hexpired, hbefore]
    exact hclosed.filter_append hmono fun e => e.2.isMaker

theorem Settled.exact (h : Settled c) : c.Exact where
  absent := h.rolled.counts.absent
  volumes m mt hmt := by
    have hvolumes := h.rolled.counts.volumes m mt hmt
    rw [h.once] at hvolumes
    simp only [decide_not]
    rw [volume_filter_not, volume_filter_not]
    exact hvolumes
  once := h.once

end TickerChain

/-- In runs of regular blocks the tickers are exact, and in all runs at increasing times the newest and the
recent records are kept. -/
theorem tickers_exact (hseconds : 86400 < opts.maxOrderHisSecondsPerMarket) :
    (∀ c, Reachable (TickerChain.step opts) (· = {}) (Regular opts) c → c.Exact) ∧
      ∀ c, Reachable (TickerChain.step opts) (· = {}) (fun c b => c.now < b.time) c →
        ∀ b, c.now < b.time → c.Retains opts b := by
  have hpos : 0 < opts.maxOrderHisSecondsPerMarket := Nat.zero_lt_of_lt hseconds
  constructor
  · intro c hreach
    have hinv : c.Recorded opts ∧ c.Settled := by
      apply hreach.invariant fun c => c.Recorded opts ∧ c.Settled
      · rintro c rfl
        exact ⟨TickerChain.recorded_empty, TickerChain.settled_empty⟩
      · rintro c b c' ⟨hrecorded, hsettled⟩ hregular hstep
        exact ⟨hrecorded.step hregular.1 hpos hstep, hsettled.step hrecorded hpos hregular hstep⟩
    exact hinv.2.exact
  · intro c hreach b hlt
    have hrecorded : c.Recorded opts := by
      apply hreach.invariant fun c => c.Recorded opts
      · rintro c rfl
        exact TickerChain.recorded_empty
      · intro c b c' hrecorded hlt hstep
        exact hrecorded.step hlt hpos hstep
    exact hrecorded.retains hlt hpos

def makerFill : FillOrder := ⟨⟨10, 0⟩, ⟨20, 1⟩, ⟨⟨10, 0⟩, ⟨20, 1⟩⟩, true, by decide⟩

def oneRecord : HistoryOptions := ⟨1, 259200⟩

def steadyFills : List FillBlock :=
  [⟨100000, [makerFill], by decide⟩, ⟨180000, [makerFill], by decide⟩, ⟨250000, [makerFill], by decide⟩]

def pausedFills : List FillBlock :=
  [⟨100000, [makerFill], by decide⟩, ⟨400000, [makerFill], by decide⟩]

theorem tickers_exact_two_days : ∃ c : TickerChain,
    c.Exact ∧ c.subtracted = [(100000, makerFill)] ∧
      (c.history.tickers.lookup (0, 1)).map MarketTicker.baseVolume = some 20 ∧
        c.Retains oneRecord ⟨300000, [makerFill], by decide⟩ := by
  have hrun : ∃ c, Reachable (TickerChain.step oneRecord) (· = {}) (Regular oneRecord) c ∧
      (c.now = 250000 ∧ c.subtracted = [(100000, makerFill)] ∧
        (c.history.tickers.lookup (0, 1)).map MarketTicker.baseVolume = some 20) :=
    Reachable.of_run steadyFills rfl (by decide +kernel) (by decide +kernel)
  obtain ⟨c, hreach, hnow, hsubtracted, hvolume⟩ := hrun
  have hseconds : 86400 < oneRecord.maxOrderHisSecondsPerMarket := by decide
  have hlt : c.now < 300000 := by omega
  exact ⟨c, (tickers_exact hseconds).1 c hreach, hsubtracted, hvolume,
    (tickers_exact hseconds).2 c (hreach.mono fun _ _ hregular => hregular.1) _ hlt⟩

/-- The first fill after the pause removes the record of the one before, whose volume is never
subtracted. -/
theorem tickers_not_exact : ¬∀ (opts : HistoryOptions) (c : TickerChain),
    86400 < opts.maxOrderHisSecondsPerMarket →
      Reachable (TickerChain.step opts) (· = {}) (fun c b => c.now < b.time) c → c.Exact := by
  intro hall
  have hrun : ∃ c, Reachable (TickerChain.step oneRecord) (· = {}) (fun c b => c.now < b.time) c ∧
      (c.now = 400000 ∧ c.fills = [(100000, makerFill), (400000, makerFill)] ∧
        (c.history.tickers.lookup (0, 1)).map MarketTicker.baseVolume = some 20) :=
    Reachable.of_run pausedFills rfl (by decide +kernel) (by decide +kernel)
  obtain ⟨c, hreach, hnow, hfills, hvolume⟩ := hrun
  have hexact := hall oneRecord c (by decide) hreach
  obtain ⟨mt, hmt, hbase⟩ := Option.map_eq_some_iff.mp hvolume
  have hvolumes := (hexact.volumes _ mt hmt).1
  rw [hbase, hfills, hnow] at hvolumes
  revert hvolumes
  decide

end Meta1Core.Plugins
