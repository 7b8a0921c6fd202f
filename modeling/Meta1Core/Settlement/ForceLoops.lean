import Meta1Core.Settlement.ForceOrders

/-!
# The settlement loops end

The outer loop leaves an asset only when its first settlement is not due or cannot be filled, so
that no asset keeps the settlements of another one waiting.
-/

namespace Meta1Core.Settlement

open Lib (Index Returns)
open Protocol Ledger Market

variable {m : AssetId} {id : Nat} {f : ForceSettlement} {r : Int} {s s' t : State}

/-! ## What the loops leave behind -/

def AssetObject.settledBy (d : Int) (a : AssetObject) : AssetObject :=
  { a with
    currentSupply := a.currentSupply - d
    bitasset := a.bitasset.map fun b => { b with forceSettledVolume := b.forceSettledVolume + d } }

theorem settledBy_zero : AssetObject.settledBy 0 = fun a => a := by
  funext a
  unfold AssetObject.settledBy
  simp

theorem settledBy_settledBy (d r : Int) (a : AssetObject) :
    AssetObject.settledBy r (AssetObject.settledBy d a) = AssetObject.settledBy (d + r) a := by
  unfold AssetObject.settledBy
  cases a.bitasset <;> simp [sub_sub, add_assoc]

theorem of_settledBy {v : Option AssetObject} {d : Int} {a' : AssetObject} {b' : BitassetData}
    (h : v.map (AssetObject.settledBy d) = some a') (hb : a'.bitasset = some b') :
    ∃ a b, v = some a ∧ a.bitasset = some b ∧ a'.currentSupply = a.currentSupply - d ∧
      b' = { b with forceSettledVolume := b.forceSettledVolume + d } := by
  obtain ⟨a, rfl, rfl⟩ := Option.map_eq_some_iff.mp h
  obtain ⟨b, hb0, rfl⟩ := Option.map_eq_some_iff.mp hb
  exact ⟨a, b, rfl, hb0, rfl, rfl⟩

/-- The volume that the settlements of an asset may reach in this block -/
def VolumeCap (m : AssetId) (s : State) (cap : Int) : Prop :=
  ∃ a b, s.assetView m = some a ∧ a.bitasset = some b ∧
    maxForceSettlementVolume b a.currentSupply = .ok cap

def SettledVolume (m : AssetId) (s : State) (volume : Int) : Prop :=
  ∃ a b, s.assetView m = some a ∧ a.bitasset = some b ∧ b.forceSettledVolume = volume

/-- Between `s` and `t` debt `d` of an asset was settled: the volume grew, the supply and the debt of
the call orders shrank by as much, and the volume is below its cap if anything was settled. -/
structure Booked (m : AssetId) (d : Int) (s t : State) : Prop where
  asset : t.assetView m = (s.assetView m).map (AssetObject.settledBy d)
  debt : debtOf m t = debtOf m s - d
  nonneg : 0 ≤ d
  capped : d = 0 ∨ ∃ cap volume, VolumeCap m s cap ∧ SettledVolume m t volume ∧ volume ≤ cap

/-- A settlement cannot be filled: the volume of its asset is used up, or a match is in vain. -/
def Unfillable (m : AssetId) (f : ForceSettlement) (s t : State) : Prop :=
  ∃ cap a b, VolumeCap m s cap ∧ t.assetView m = some a ∧ a.bitasset = some b ∧
    (cap ≤ b.forceSettledVolume ∨ ∃ price, b.currentFeed.settlementPrice.divRatio
        (percent100 - b.options.forceSettlementOffsetPercent) percent100 = .ok price ∧
      NoMatch m b.options.shortBackingAsset f (cap - b.forceSettledVolume) price t)

def Passed (m : AssetId) (s t : State) : Prop :=
  ∀ id f, IsFirst m id f t → f.settlementDate ≤ t.headBlockTime → Unfillable m f s t

structure Matchable (m : AssetId) (t : State) : Prop where
  unsettled : ∀ a b, t.assetView m = some a → a.bitasset = some b → ¬b.hasSettlement
  feed : ∀ a b, t.assetView m = some a → a.bitasset = some b → ¬b.currentFeed.settlementPrice.isNull
  offset : ∀ a b, t.assetView m = some a → a.bitasset = some b →
    b.options.forceSettlementOffsetPercent ≠ percent100

/-- What asset issuers and feed producers are held to: the core asset is not a bitasset, and a feed is a
price of its asset. -/
structure FeedsFace (s : State) : Prop where
  core_plain : ∀ a, s.assetView core = some a → a.bitasset = none
  feed_base : ∀ m a b, s.assetView m = some a → a.bitasset = some b →
    ¬b.currentFeed.settlementPrice.isNull → b.currentFeed.settlementPrice.base.assetId = m

/-- The invariant of the outer loop, which began in `s` -/
structure Progress (s : State) (c : Cursor) (t : State) : Prop where
  booked : ∀ m, ∃ d, Booked m d s t
  untouched : ∀ m, c.maxSettlementVolume.assetId < m → t.assetView m = s.assetView m
  volume_le : c.maxSettlementVolume.assetId ≤ c.currentAsset
  volume : ∀ a b, s.assetView c.maxSettlementVolume.assetId = some a → a.bitasset = some b →
    maxForceSettlementVolume b a.currentSupply = .ok c.maxSettlementVolume.amount
  price_le : c.settlementFillPrice.base.assetId ≤ c.currentAsset
  price : ∀ a b, s.assetView c.settlementFillPrice.base.assetId = some a → a.bitasset = some b →
    b.currentFeed.settlementPrice.divRatio
      (percent100 - b.options.forceSettlementOffsetPercent) percent100 = .ok c.settlementFillPrice
  passed : ∀ m < c.currentAsset, Passed m s t
  finished : c.currentAssetFinished = true → ∃ id f, IsFirst c.currentAsset id f t ∧
    f.settlementDate ≤ t.headBlockTime ∧ Matchable c.currentAsset t ∧ Unfillable c.currentAsset f s t

def Full (c : Cursor) (t : State) : Prop :=
  c.currentAssetFinished = true ∨ c.maxSettlementVolume.assetId = c.currentAsset ∧
    ∃ volume, SettledVolume c.currentAsset t volume ∧ c.maxSettlementVolume.amount ≤ volume

def Budget (n : Int) (c : Cursor) (t : State) : Prop :=
  leftToSettle c.currentAsset t + 1 ≤ n ∨ leftToSettle c.currentAsset t ≤ n ∧ Full c t

/-! ## One round -/

/-- A round of the outer loop, as it changes the books: debt `r` of one asset is settled. -/
structure Moves (m : AssetId) (r : Int) (t t' : State) : Prop where
  time : t'.headBlockTime = t.headBlockTime
  others : ∀ m' ≠ m, SameFor m' t t'
  asset : t'.assetView m = (t.assetView m).map (AssetObject.settledBy r)
  debt : debtOf m t' = debtOf m t - r

variable {c : Cursor} {t' : State}

theorem NoMatch.of_sameFor {backing : AssetId} {remaining : Int} {price : Price} (h : SameFor m t t')
    (hmatch : NoMatch m backing f remaining price t) : NoMatch m backing f remaining price t' := by
  obtain ⟨e, hleast, htype, hamounts⟩ := hmatch
  exact ⟨e, h.leastCollateralized hleast htype, htype, hamounts⟩

theorem Unfillable.of_sameFor (h : SameFor m t t') (hf : Unfillable m f s t) :
    Unfillable m f s t' := by
  obtain ⟨cap, a, b, hcap, ha, hb, hfull | ⟨price, hprice, hmatch⟩⟩ := hf
  · exact ⟨cap, a, b, hcap, h.asset.trans ha, hb, Or.inl hfull⟩
  · exact ⟨cap, a, b, hcap, h.asset.trans ha, hb, Or.inr ⟨price, hprice, hmatch.of_sameFor h⟩⟩

theorem Passed.of_sameFor (h : SameFor m t t') (htime : t'.headBlockTime = t.headBlockTime)
    (hm : Passed m s t) : Passed m s t' := by
  intro id f hfirst hdue
  rw [htime] at hdue
  exact (hm id f (hfirst.of_sameFor h) hdue).of_sameFor h

theorem Passed.of_none (h : ∀ id f, t.forceSettlements.find id = some f → f.balance.assetId ≠ m) :
    Passed m s t :=
  fun id f hfirst _ => absurd hfirst.asset (h id f hfirst.find)

theorem SettledVolume.of_sameFor {volume : Int} (h : t'.assetView m = t.assetView m)
    (hv : SettledVolume m t volume) : SettledVolume m t' volume := by
  obtain ⟨a, b, ha, hrest⟩ := hv
  exact ⟨a, b, h.trans ha, hrest⟩

namespace Moves

theorem of_settles (h : Settles m 0 t t') : Moves m 0 t t' where
  time := h.time
  others := h.others
  asset := by
    rw [h.asset, settledBy_zero]
    simp
  debt := h.debt

theorem settledVolume (h : Moves m r t t') {volume : Int} (hv : SettledVolume m t volume) :
    SettledVolume m t' (volume + r) := by
  obtain ⟨a, b, ha, hb, rfl⟩ := hv
  refine ⟨AssetObject.settledBy r a, { b with forceSettledVolume := b.forceSettledVolume + r }, ?_, ?_,
    rfl⟩
  · rw [h.asset, ha]
    rfl
  · unfold AssetObject.settledBy
    rw [hb]
    rfl

theorem booked (h : Moves m r t t') {d : Int} (hd : Booked m d s t) (hr : 0 ≤ r)
    (hcap : r = 0 ∨ ∃ cap volume, VolumeCap m s cap ∧ SettledVolume m t' volume ∧ volume ≤ cap) :
    Booked m (d + r) s t' where
  asset := by
    rw [h.asset, hd.asset, Option.map_map]
    congr 1
    funext a
    exact settledBy_settledBy d r a
  debt := by
    rw [h.debt, hd.debt]
    omega
  nonneg := add_nonneg hd.nonneg hr
  capped := by
    rcases hcap with rfl | hcap
    · rw [add_zero]
      refine hd.capped.imp_right fun ⟨cap, volume, hcap, hvolume, hle⟩ => ?_
      exact ⟨cap, volume + 0, hcap, h.settledVolume hvolume, by omega⟩
    · exact Or.inr hcap

end Moves

theorem Booked.of_sameFor {d : Int} (h : SameFor m t t') (hd : Booked m d s t) :
    Booked m d s t' where
  asset := h.asset.trans hd.asset
  debt := h.debt.trans hd.debt
  nonneg := hd.nonneg
  capped := hd.capped.imp_right fun ⟨cap, volume, hcap, hvolume, hle⟩ =>
    ⟨cap, volume, hcap, hvolume.of_sameFor h.asset, hle⟩

namespace Progress

variable (h : Progress s c t)
include h

theorem of_moves (hm : Moves c.currentAsset r t t') (hr : 0 ≤ r)
    (hcap : r = 0 ∨ c.maxSettlementVolume.assetId = c.currentAsset ∧
      ∃ volume, SettledVolume c.currentAsset t' volume ∧ volume ≤ c.maxSettlementVolume.amount)
    {finished : Bool} (hfinished : finished = true → ∃ id f, IsFirst c.currentAsset id f t' ∧
      f.settlementDate ≤ t'.headBlockTime ∧ Matchable c.currentAsset t' ∧
      Unfillable c.currentAsset f s t') :
    Progress s { c with currentAssetFinished := finished } t' where
  booked m := by
    obtain ⟨d, hd⟩ := h.booked m
    by_cases heq : m = c.currentAsset
    · subst heq
      refine ⟨d + r, hm.booked hd hr ?_⟩
      refine hcap.imp_right fun ⟨hcached, volume, hvolume, hle⟩ => ?_
      have hafter := hvolume
      obtain ⟨a', b', ha', hb', -⟩ := hafter
      rw [hm.asset] at ha'
      obtain ⟨a1, b1, ha1, hb1, -⟩ := of_settledBy ha' hb'
      rw [hd.asset] at ha1
      obtain ⟨a, b, ha, hb, -⟩ := of_settledBy ha1 hb1
      refine ⟨_, volume, ⟨a, b, ha, hb, h.volume a b ?_ hb⟩, hvolume, hle⟩
      rw [hcached, ha]
    · exact ⟨d, hd.of_sameFor (hm.others m heq)⟩
  untouched m hlt := by
    rw [← h.untouched m hlt]
    by_cases heq : m = c.currentAsset
    · subst heq
      rcases hcap with rfl | ⟨hcached, -⟩
      · rw [hm.asset, settledBy_zero]
        simp
      · exact absurd hlt hcached.not_lt
    · exact (hm.others m heq).asset
  volume_le := h.volume_le
  volume := h.volume
  price_le := h.price_le
  price := h.price
  passed m hlt := (h.passed m hlt).of_sameFor (hm.others m hlt.ne) hm.time
  finished := hfinished

theorem move {next : AssetId} (hle : c.currentAsset ≤ next)
    (hpassed : ∀ m < next, Passed m s t) {finished : Bool}
    (hfinished : finished = true → c.currentAssetFinished = true ∧ next = c.currentAsset) :
    Progress s { c with currentAsset := next, currentAssetFinished := finished } t where
  booked := h.booked
  untouched := h.untouched
  volume_le := h.volume_le.trans hle
  volume := h.volume
  price_le := h.price_le.trans hle
  price := h.price
  passed := hpassed
  finished hf := by
    obtain ⟨hf', rfl⟩ := hfinished hf
    exact h.finished hf'

theorem skipAsset (hpassed : Passed c.currentAsset s t) :
    (skipAsset c t = .last ∧ ∀ m, Passed m s t) ∨
      ∃ c', skipAsset c t = .next c' ∧ Progress s c' t ∧
        leftToSettle c'.currentAsset t + 2 ≤ leftToSettle c.currentAsset t := by
  have hupto (m : AssetId) (hle : m ≤ c.currentAsset) : Passed m s t := by
    rcases hle.lt_or_eq with hlt | rfl
    · exact h.passed m hlt
    · exact hpassed
  cases hfind : (settlementsByExpiration t).find? (fun e =>
      decide (c.currentAsset < ForceSettlement.settlementAssetId e.2)) with
  | none =>
    left
    refine ⟨by simp only [Settlement.skipAsset, nextAsset, hfind, Option.map_none], fun m => ?_⟩
    by_cases hle : m ≤ c.currentAsset
    · exact hupto m hle
    · apply Passed.of_none
      rintro id f hf rfl
      exact of_find_settlement_none (q := fun m => c.currentAsset < m) hfind hf (not_le.mp hle)
  | some bound =>
    obtain ⟨id, f⟩ := bound
    obtain ⟨hfirst, hlater, hleast⟩ :=
      of_find_settlement (q := fun m => c.currentAsset < m) hfind
    right
    refine ⟨_, by simp only [Settlement.skipAsset, nextAsset, hfind, Option.map_some]; rfl, ?_, ?_⟩
    · apply h.move hlater.le
      · intro m hm
        by_cases hle : m ≤ c.currentAsset
        · exact hupto m hle
        · apply Passed.of_none
          rintro id' f' hf' rfl
          exact absurd (hleast id' f' hf' (not_le.mp hle)) (not_le.mpr hm)
      · nofun
    · exact leftToSettle_of_lt hlater hfirst.find rfl

theorem found {order : ForceSettlement}
    (hfind : (settlementsByExpiration t).find? (fun e =>
      decide (c.currentAsset ≤ ForceSettlement.settlementAssetId e.2)) = some ⟨id, order⟩) {n : Int}
    (hn : Budget n c t) :
    Progress s { c with currentAsset := ForceSettlement.settlementAssetId order } t ∧
      Budget n { c with currentAsset := ForceSettlement.settlementAssetId order } t ∧
      IsFirst (ForceSettlement.settlementAssetId order) id order t := by
  obtain ⟨hfirst, hle, hleast⟩ := of_find_settlement (q := fun m => c.currentAsset ≤ m) hfind
  refine ⟨?_, ?_, hfirst⟩
  · apply h.move hle
    · intro m hm
      by_cases hlt : m < c.currentAsset
      · exact h.passed m hlt
      · apply Passed.of_none
        rintro id' f' hf' rfl
        exact absurd (hleast id' f' hf' (not_lt.mp hlt)) (not_le.mpr hm)
    · -- a settlement that cannot be filled is still there
      intro hfinished
      obtain ⟨id', f', hfirst', -⟩ := h.finished hfinished
      refine ⟨hfinished, le_antisymm ?_ hle⟩
      rw [← hfirst'.asset]
      exact hleast id' f' hfirst'.find hfirst'.asset.ge
  · rcases hle.lt_or_eq with hlt | heq
    · left
      have hless := leftToSettle_of_lt hlt hfirst.find rfl
      show leftToSettle order.balance.assetId t + 1 ≤ n
      rcases hn with hn | ⟨hn, -⟩ <;> omega
    · have hsame : { c with currentAsset := ForceSettlement.settlementAssetId order } = c := by
        show ({ c with currentAsset := order.balance.assetId } : Cursor) = c
        rw [← heq]
      rw [hsame]
      exact hn

end Progress

variable {a : AssetObject} {mia : BitassetData}

theorem assetView_source (h : Progress s c t) (ha : t.assets.find m = some a)
    (hb : a.bitasset = some mia) :
    ∃ a0 b0 d, s.assetView m = some a0 ∧ a0.bitasset = some b0 ∧
      mia = { b0 with forceSettledVolume := b0.forceSettledVolume + d } := by
  obtain ⟨d, hd⟩ := h.booked m
  have hview := hd.asset.symm.trans (State.assetView_of_find ha)
  obtain ⟨a0, b0, ha0, hb0, -, hmia⟩ := of_settledBy hview hb
  exact ⟨a0, b0, d, ha0, hb0, hmia⟩

theorem Progress.maxVolume (h : Progress s c t) {c' : Cursor}
    (ha : t.assets.find c.currentAsset = some a) (hb : a.bitasset = some mia)
    (hc' : maxVolumeFor c mia a.currentSupply = .ok c') :
    ∃ v, c' = { c with maxSettlementVolume := ⟨v, c.currentAsset⟩ } ∧ Progress s c' t ∧
      VolumeCap c.currentAsset s v ∧ ∀ n, Budget n c t → Budget n c' t := by
  unfold maxVolumeFor at hc'
  by_cases hcached : c.maxSettlementVolume.assetId = c.currentAsset
  · rw [if_neg (not_not.mpr hcached)] at hc'
    obtain rfl := Except.ok.inj hc'
    obtain ⟨a0, b0, d, ha0, hb0, -⟩ := assetView_source h ha hb
    have hsame : (⟨c.maxSettlementVolume.amount, c.currentAsset⟩ : Asset) = c.maxSettlementVolume := by
      rw [← hcached]
    refine ⟨c.maxSettlementVolume.amount, ?_, h, ⟨a0, b0, ha0, hb0, ?_⟩, fun n hn => hn⟩
    · rw [hsame]
    · exact h.volume a0 b0 (by rw [hcached, ha0]) hb0
  · rw [if_pos hcached] at hc'
    obtain ⟨v, hv, hc'⟩ := Lib.of_bind hc'
    obtain rfl := Except.ok.inj hc'
    have hlt : c.maxSettlementVolume.assetId < c.currentAsset := lt_of_le_of_ne h.volume_le hcached
    have hview : s.assetView c.currentAsset = some a.withoutFees := by
      rw [← h.untouched _ hlt]
      exact State.assetView_of_find ha
    have hcap : VolumeCap c.currentAsset s v := ⟨a.withoutFees, mia, hview, hb, hv⟩
    refine ⟨v, rfl, ?_, hcap, fun n hn => ?_⟩
    · refine ⟨h.booked, fun m hm => h.untouched m (hlt.trans hm), le_rfl, ?_, h.price_le, h.price,
        h.passed, h.finished⟩
      intro a0 b0 ha0 hb0
      cases hview.symm.trans ha0
      cases hb.symm.trans hb0
      exact hv
    · rcases hn with hn | ⟨hn, hfinished | ⟨heq, -⟩⟩
      · exact Or.inl hn
      · exact Or.inr ⟨hn, Or.inl hfinished⟩
      · exact absurd heq hcached

theorem ids_of_mulRatio {p q : Price} {num den : Nat} (h : p.mulRatio num den = .ok q) :
    p.base.assetId ≠ p.quote.assetId := by
  obtain ⟨u, hvalid, -⟩ := Lib.of_bind h
  obtain ⟨-, hrest⟩ := of_fcAssert hvalid
  obtain ⟨-, hids⟩ := of_fcAssert hrest
  exact fcAssert_eq_ok.mp hids

theorem Progress.fillPrice (h : Progress s c t) (hfeeds : FeedsFace s) {c' : Cursor}
    (ha : t.assets.find c.currentAsset = some a) (hb : a.bitasset = some mia)
    (hnull : ¬mia.currentFeed.settlementPrice.isNull) (hc' : fillPriceFor c mia = .ok c') :
    ∃ p, c' = { c with settlementFillPrice := p } ∧ Progress s c' t ∧ GoodPrice p ∧
      p.base.assetId = c.currentAsset ∧ mia.currentFeed.settlementPrice.divRatio
        (percent100 - mia.options.forceSettlementOffsetPercent) percent100 = .ok p := by
  obtain ⟨a0, b0, d, ha0, hb0, rfl⟩ := assetView_source h ha hb
  have hfeed_base := hfeeds.feed_base _ a0 b0 ha0 hb0 hnull
  have hgood {p : Price} (hp : b0.currentFeed.settlementPrice.divRatio
      (percent100 - b0.options.forceSettlementOffsetPercent) percent100 = .ok p) :
      GoodPrice p ∧ p.base.assetId = c.currentAsset := by
    have hscaled := Price.scaled_of_mulRatio hp
    have hbase := hscaled.base_id.trans hfeed_base
    refine ⟨⟨hscaled.base_pos', hscaled.quote_pos', ?_⟩, hbase⟩
    rw [hscaled.base_id, hscaled.quote_id]
    exact ids_of_mulRatio hp
  unfold fillPriceFor at hc'
  by_cases hcached : c.settlementFillPrice.base.assetId = c.currentAsset
  · rw [if_neg (not_not.mpr hcached)] at hc'
    obtain rfl := Except.ok.inj hc'
    have hp := h.price a0 b0 (by rw [hcached, ha0]) hb0
    exact ⟨c.settlementFillPrice, rfl, h, (hgood hp).1, hcached, hp⟩
  · rw [if_pos hcached] at hc'
    obtain ⟨p, hp, hc'⟩ := Lib.of_bind hc'
    obtain rfl := Except.ok.inj hc'
    obtain ⟨hgoodPrice, hbase⟩ := hgood hp
    refine ⟨p, rfl, ?_, hgoodPrice, hbase, hp⟩
    refine ⟨h.booked, h.untouched, h.volume_le, h.volume, hbase.le, ?_, h.passed, h.finished⟩
    intro a1 b1 ha1 hb1
    have ha1' : s.assetView c.currentAsset = some a1 := by rw [← hbase]; exact ha1
    cases ha0.symm.trans ha1'
    cases hb0.symm.trans hb1
    exact hp

theorem IsFirst.congr (hs : t'.forceSettlements = t.forceSettlements) (h : IsFirst m id f t) :
    IsFirst m id f t' := by
  refine ⟨?_, h.asset, fun j g hg => ?_⟩
  · rw [hs]
    exact h.find
  · rw [hs] at hg
    exact h.least j g hg

theorem Matchable.of_moves (h : Moves m r t t') (hm : Matchable m t) : Matchable m t' := by
  have hsource (a' : AssetObject) (b' : BitassetData) (ha' : t'.assetView m = some a')
      (hb' : a'.bitasset = some b') : ∃ a b, t.assetView m = some a ∧ a.bitasset = some b ∧
        b' = { b with forceSettledVolume := b.forceSettledVolume + r } := by
    rw [h.asset] at ha'
    obtain ⟨a, b, ha, hb, -, hb'⟩ := of_settledBy ha' hb'
    exact ⟨a, b, ha, hb, hb'⟩
  constructor
  all_goals
    intro a' b' ha' hb'
    obtain ⟨a, b, ha, hb, rfl⟩ := hsource a' b' ha' hb'
  · exact hm.unsettled a b ha hb
  · exact hm.feed a b ha hb
  · exact hm.offset a b ha hb

theorem Moves.of_volume {settled volume : Int} (hs : Settles m r t t')
    (ha : t.assets.find m = some a) (hb : a.bitasset = some mia)
    (hvolume : mia.forceSettledVolume = volume) (hsettled : settled = volume + r) {u : Unit}
    {t'' : State} (h : Returns (onlyIf (volume ≠ settled) <| updateBitasset m fun b =>
      return { b with forceSettledVolume := settled }) t' u t'') :
    Moves m r t t'' ∧ t''.forceSettlements = t'.forceSettlements ∧ t''.callOrders = t'.callOrders := by
  have hview := State.assetView_of_find ha
  rcases returns_onlyIf.mp h with ⟨-, hupdate⟩ | ⟨hsame, rfl⟩
  · obtain ⟨a', b', b'', ha', hb', hb'', ht'', hview''⟩ := of_updateBitasset hupdate
    obtain rfl := Except.ok.inj hb''
    have htime : t''.headBlockTime = t'.headBlockTime := by rw [ht'']
    have hcalls : t''.callOrders = t'.callOrders := by rw [ht'']
    have hsettlements : t''.forceSettlements = t'.forceSettlements := by rw [ht'']
    refine ⟨⟨htime.trans hs.time, fun m' hm' => (hs.others m' hm').trans ?_, ?_, ?_⟩, hsettlements,
      hcalls⟩
    · refine ⟨?_, ?_, ?_, fun _ o ho => ⟨o, by rwa [hcalls] at ho, rfl⟩,
        fun _ _ _ => by rw [hsettlements]⟩
      · rw [hview'', if_neg hm']
      · unfold debtOf
        rw [hcalls]
      · unfold callsOf
        rw [hcalls]
    · -- the asset was read before, and only its supply has changed since
      have hafter := hs.asset
      rw [State.assetView_of_find ha', hview] at hafter
      have hwithout : a'.withoutFees =
          { a.withoutFees with currentSupply := a.withoutFees.currentSupply - r } :=
        Option.some.inj hafter
      have hbitasset : a'.withoutFees.bitasset = a.withoutFees.bitasset := by rw [hwithout]
      obtain rfl : b' = mia := Option.some.inj (hb'.symm.trans (hbitasset.trans hb))
      have hb1 : a.withoutFees.bitasset = some b' := hb
      have hvolumeEq : settled = b'.forceSettledVolume + r := by rw [hsettled, hvolume]
      rw [hview'', if_pos rfl, hview, Option.map_some, AssetObject.settledBy, hb1, hvolumeEq]
      have hwith (o : Option BitassetData) : ({ a' with bitasset := o } : AssetObject).withoutFees =
          { a'.withoutFees with bitasset := o } := rfl
      rw [hwith, hwithout]
      rfl
    · rw [← hs.debt]
      unfold debtOf
      rw [hcalls]
  · have hzero : r = 0 := by
      have := not_not.mp hsame
      omega
    subst hzero
    exact ⟨Moves.of_settles hs, rfl, rfl⟩

theorem Progress.settleFirst (h : Progress s c t) (hfeeds : FeedsFace s) {order : ForceSettlement}
    (ha : t.assets.find c.currentAsset = some a) (hb : a.bitasset = some mia)
    (hfirst : IsFirst c.currentAsset id order t) (hdue : order.settlementDate ≤ t.headBlockTime)
    (hmatchable : Matchable c.currentAsset t)
    (hcached : c.maxSettlementVolume.assetId = c.currentAsset)
    (hbelow : mia.forceSettledVolume < c.maxSettlementVolume.amount)
    (hopen : c.currentAssetFinished = false) {n : Int} (hn : Budget n c t) {round : Round}
    (hret : Returns (settleFirst c mia id order.balance.amount) t round t') :
    ∃ c', round = .next c' ∧ Progress s c' t' ∧ Budget (n - 1) c' t' := by
  have hview := State.assetView_of_find ha
  have hvolume : SettledVolume c.currentAsset t mia.forceSettledVolume :=
    ⟨a.withoutFees, mia, hview, hb, rfl⟩
  have hleft : leftToSettle c.currentAsset t + 1 ≤ n := by
    rcases hn with hn | ⟨-, hfinished | ⟨-, volume, hv, hle⟩⟩
    · exact hn
    · rw [hopen] at hfinished
      cases hfinished
    · obtain ⟨a', b', ha', hb', rfl⟩ := hv
      cases hview.symm.trans ha'
      cases hb.symm.trans hb'
      omega
  obtain ⟨c1, hprice, h1⟩ := hret.of_lift
  obtain ⟨p, rfl, hprogress, hgood, hbase, hp⟩ :=
    h.fillPrice hfeeds ha hb (hmatchable.feed _ mia hview hb) hprice
  obtain ⟨result, t1, horder, h2⟩ := h1.of_bind
  have hfound (f : ForceSettlement) (hf : t.forceSettlements.find id = some f) : f = order :=
    Option.some.inj (hf.symm.trans hfirst.find)
  obtain ⟨settled, inVain, rfl, hsettled⟩ := of_settleOrder hgood hbase rfl (Nat.succ_pos _)
    (fun f hf => by rw [hfound f hf]; exact hfirst.asset)
    (fun f hf => by rw [hfound f hf]; exact Nat.lt_succ_self _) horder
  dsimp only at h2
  obtain ⟨_, t2, hwrite, hreturn⟩ := h2.of_bind
  obtain ⟨rfl, rfl⟩ := hreturn.of_pure
  have hle : mia.forceSettledVolume ≤ settled.amount := hsettled.le
  obtain ⟨hmoves, hsettlements, hcalls⟩ := Moves.of_volume hsettled.settles ha hb rfl
    (show settled.amount = mia.forceSettledVolume + (settled.amount - mia.forceSettledVolume) by omega)
    hwrite
  have hvolume' : SettledVolume c.currentAsset t' settled.amount := by
    have hmoved := hmoves.settledVolume hvolume
    rwa [add_sub_cancel] at hmoved
  have hleft' : leftToSettle c.currentAsset t' = leftToSettle c.currentAsset t1 := by
    unfold leftToSettle
    rw [hsettlements]
  refine ⟨_, rfl, ?_, ?_⟩
  · apply hprogress.of_moves hmoves (sub_nonneg.mpr hle)
    · rcases hsettled.capped with heq | hcap
      · left
        rw [heq]
        exact sub_self _
      · exact Or.inr ⟨hcached, settled.amount, hvolume', hcap⟩
    · intro hvain
      have hvain' : inVain = true := by
        rw [hopen] at hvain
        exact hvain
      obtain ⟨f, hf, hmatch⟩ := hsettled.vain hvain'
      obtain ⟨g, hg, -, hdate⟩ := hsettled.settles.settlements id f hf
      have hstill := (hfirst.of_settles hsettled.settles hf).congr hsettlements
      refine ⟨id, f, hstill, ?_, hmatchable.of_moves hmoves, ?_⟩
      · rw [hdate, hfound g hg, hmoves.time]
        exact hdue
      · have hbelowCap : VolumeCap c.currentAsset s c.maxSettlementVolume.amount := by
          obtain ⟨a0, b0, d, ha0, hb0, -⟩ := assetView_source h ha hb
          exact ⟨a0, b0, ha0, hb0, h.volume a0 b0 (by rw [hcached, ha0]) hb0⟩
        obtain ⟨a2, b2, ha2, hb2, hb2_volume⟩ := hvolume'
        have hsource := hmoves.asset.symm.trans ha2
        rw [hview] at hsource
        obtain ⟨a3, b3, ha3, hb3, -, hb2_eq⟩ := of_settledBy hsource hb2
        cases ha3
        cases hb.symm.trans hb3
        refine ⟨_, a2, b2, hbelowCap, ha2, hb2, Or.inr ⟨p, ?_, ?_⟩⟩
        · rw [hb2_eq]
          exact hp
        · obtain ⟨e, hleast, hmatch⟩ := hmatch
          rw [hb2_volume, hb2_eq]
          refine ⟨e, ?_, hmatch⟩
          unfold leastCollateralized
          rw [hcalls]
          exact hleast
  · have hless := leftToSettle_le hsettled.settles c.currentAsset
    cases hvain : inVain with
    | true =>
      right
      refine ⟨?_, Or.inl ?_⟩
      · show leftToSettle c.currentAsset t' ≤ n - 1
        omega
      · show (c.currentAssetFinished || true) = true
        rw [Bool.or_true]
    | false =>
      rcases hsettled.done hvain with hgone | hfull
      · left
        have hone := leftToSettle_of_gone hsettled.settles hfirst.find hgone c.currentAsset
        show leftToSettle c.currentAsset t' + 1 ≤ n - 1
        omega
      · right
        refine ⟨?_, Or.inr ⟨hcached, settled.amount, hvolume', hfull⟩⟩
        show leftToSettle c.currentAsset t' ≤ n - 1
        omega

/-! ## The outer loop -/

def Ended (s t : State) : Prop :=
  ∀ m, (∃ d, Booked m d s t) ∧ Passed m s t

def RoundMade (s : State) (n : Int) (t' : State) : Round → Prop
  | .last => Ended s t'
  | .next c' => Progress s c' t' ∧ Budget (n - 1) c' t'
  | .endless => False

namespace Progress

variable (h : Progress s c t) {n : Int} (hn : Budget n c t)
include h hn

theorem skipped (hpassed : Passed c.currentAsset s t) :
    RoundMade s n t (Settlement.skipAsset c t) := by
  rcases h.skipAsset hpassed with ⟨hlast, hall⟩ | ⟨c', hnext, hprogress, hless⟩
  · rw [hlast]
    exact fun m => ⟨h.booked m, hall m⟩
  · rw [hnext]
    refine ⟨hprogress, Or.inl ?_⟩
    rcases hn with hn | ⟨hn, -⟩ <;> omega

variable {order : ForceSettlement} {round : Round}

theorem cancelled (hfirst : IsFirst c.currentAsset id order t) (hopen : ¬Matchable c.currentAsset t)
    (hret : Returns (cancelSettleOrder id >>= fun _ => pure (Round.next c)) t round t') :
    RoundMade s n t' round := by
  obtain ⟨_, t1, hcancel, hreturn⟩ := hret.of_bind
  obtain ⟨rfl, rfl⟩ := hreturn.of_pure
  obtain ⟨f, hf, hremove, hsettles⟩ := of_cancelSettleOrder hcancel
  cases hfirst.find.symm.trans hf
  rw [hfirst.asset] at hsettles
  have hgone : t'.forceSettlements.find id = none := by
    rw [hremove, Index.find_remove, if_pos rfl]
  refine ⟨?_, Or.inl ?_⟩
  · apply h.of_moves (Moves.of_settles hsettles) le_rfl (Or.inl rfl)
    intro hfinished
    obtain ⟨id', f', -, -, hmatchable, -⟩ := h.finished hfinished
    exact absurd hmatchable hopen
  · have hless := leftToSettle_of_gone hsettles hf hgone c.currentAsset
    rcases hn with hn | ⟨hn, -⟩ <;> omega

theorem settleAt (hfeeds : FeedsFace s) (hfirst : IsFirst c.currentAsset id order t)
    (hret : Returns (settleAt c id order) t round t') : RoundMade s n t' round := by
  obtain ⟨a, ha, h1⟩ := of_fetch hret
  obtain ⟨mia, hb, h2⟩ := h1.of_lift
  have hb := bitassetData_eq_ok.mp hb
  have hview := State.assetView_of_find ha
  rcases h2.of_ite with ⟨hsettled, hcancel⟩ | ⟨hunsettled, h3⟩
  · exact h.cancelled hn hfirst (fun hm => hm.unsettled _ mia hview hb hsettled) hcancel
  have h4 := h3.of_get
  rcases h4.of_ite with ⟨hearly, hskip⟩ | ⟨hdue, h5⟩
  · -- the first settlement is not due, and so no settlement of the asset is
    have hskip := hskip.of_get
    obtain ⟨rfl, rfl⟩ := hskip.of_pure
    apply h.skipped hn
    intro id' f' hfirst' hdue'
    obtain ⟨-, rfl⟩ := hfirst.unique hfirst'
    omega
  rcases h5.of_ite with ⟨hnull, hcancel⟩ | ⟨hnull, h6⟩
  · exact h.cancelled hn hfirst (fun hm => hm.feed _ mia hview hb hnull) hcancel
  rcases h6.of_ite with ⟨hoffset, hcancel⟩ | ⟨hoffset, h7⟩
  · exact h.cancelled hn hfirst (fun hm => hm.offset _ mia hview hb hoffset) hcancel
  have hmatchable : Matchable c.currentAsset t := by
    constructor
    all_goals
      intro a' b' ha' hb'
      cases hview.symm.trans ha'
      cases hb.symm.trans hb'
      assumption
  obtain ⟨c1, hvolume, h8⟩ := h7.of_lift
  obtain ⟨v, rfl, hprogress, hcap, hbudget⟩ := h.maxVolume ha hb hvolume
  rcases h8.of_ite with ⟨hstop, hskip⟩ | ⟨hgo, hsettle⟩
  · -- the second visit of a settlement, or the volume is used up
    have hskip := hskip.of_get
    obtain ⟨rfl, rfl⟩ := hskip.of_pure
    apply hprogress.skipped (hbudget n hn)
    intro id' f' hfirst' hdue'
    rcases hstop with hfull | hfinished
    · exact ⟨v, a.withoutFees, mia, hcap, hview, hb, Or.inl hfull⟩
    · obtain ⟨id0, f0, hfirst0, -, -, hunfillable⟩ := h.finished hfinished
      obtain ⟨-, rfl⟩ := hfirst0.unique hfirst'
      exact hunfillable
  · obtain ⟨hbelow, hopen⟩ := not_or.mp hgo
    obtain ⟨c', rfl, hmade⟩ := hprogress.settleFirst hfeeds ha hb hfirst (not_lt.mp hdue)
      hmatchable rfl (not_le.mp hbelow) (Bool.eq_false_of_not_eq_true hopen) (hbudget n hn) hsettle
    exact hmade

theorem settleNext (hfeeds : FeedsFace s) (hret : Returns (settleNext c) t round t') :
    RoundMade s n t' round := by
  have h1 := hret.of_get
  split at h1
  · -- no settlement is left in this asset or a later one
    rename_i hnone
    obtain ⟨rfl, rfl⟩ := h1.of_pure
    intro m
    refine ⟨h.booked m, ?_⟩
    by_cases hlt : m < c.currentAsset
    · exact h.passed m hlt
    · apply Passed.of_none
      rintro id f hf rfl
      exact of_find_settlement_none (q := fun m => c.currentAsset ≤ m) hnone hf (not_lt.mp hlt)
  · rename_i id order hfind
    obtain ⟨hprogress, hbudget, hfirst⟩ := h.found hfind hn
    exact hprogress.settleAt hbudget hfeeds hfirst h1

theorem settleAll (hfeeds : FeedsFace s) {fuel : Nat} (hfuel : n < fuel) {ended : Bool}
    (hret : Returns (settleAll fuel c) t ended t') : ended = true ∧ Ended s t' := by
  induction fuel generalizing n c t with
  | zero =>
    have hleft := leftToSettle_nonneg c.currentAsset t
    rcases hn with hn | ⟨hn, -⟩ <;> omega
  | succ fuel ih =>
    obtain ⟨round, t1, hround, h1⟩ := hret.of_bind
    have hmade := h.settleNext hn hfeeds hround
    cases round with
    | last =>
      obtain ⟨rfl, rfl⟩ := h1.of_pure
      exact ⟨rfl, hmade⟩
    | next c' => exact ih hmade.1 hmade.2 (by omega) h1
    | endless => exact hmade.elim

end Progress

theorem booked_refl (m : AssetId) (s : State) : Booked m 0 s s where
  asset := by
    rw [settledBy_zero]
    simp
  debt := by omega
  nonneg := le_rfl
  capped := Or.inl rfl

theorem Progress.start (hfeeds : FeedsFace s)
    (hhead : (settlementsByExpiration s).head? = some ⟨id, f⟩) :
    Progress s { currentAsset := ForceSettlement.settlementAssetId f } s where
  booked m := ⟨0, booked_refl m s⟩
  untouched _ _ := rfl
  volume_le := Nat.zero_le _
  volume a b ha hb := by
    rw [hfeeds.core_plain a ha] at hb
    cases hb
  price_le := Nat.zero_le _
  price a b ha hb := by
    rw [hfeeds.core_plain a ha] at hb
    cases hb
  passed m hm := by
    apply Passed.of_none
    rintro id' f' hf' rfl
    have hmem : (⟨id', f'⟩ : Σ _ : Nat, ForceSettlement) ∈ settlementsByExpiration s :=
      mem_settlementsByExpiration.mpr hf'
    rcases Lib.head?_least (pairwise_settlementsByExpiration s) hhead _ hmem with heq | hkey
    · cases heq
      exact absurd hm (lt_irrefl _)
    · rw [Lib.keyOrder_iff, Prod.Lex.toLex_lt_toLex, toLex_inj, Prod.mk.injEq] at hkey
      rcases hkey with (hlt | ⟨heq, -⟩) | ⟨⟨heq, -⟩, -⟩
      · exact absurd hlt hm.not_gt
      · exact absurd heq hm.ne'
      · exact absurd heq hm.ne'
  finished := nofun

/-- The settlement loops end, and they leave no asset whose first settlement is due and can be
filled. -/
theorem clearExpiredSettlements_ends (hfeeds : FeedsFace s) :
    ∃ n, ∀ fuel ≥ n, ∀ ended t, Returns (clearExpiredSettlements fuel) s ended t →
      ended = true ∧ Ended s t := by
  cases hhead : (settlementsByExpiration s).head? with
  | none =>
    refine ⟨0, fun fuel _ ended t hret => ?_⟩
    have h1 := hret.of_get
    rw [hhead] at h1
    obtain ⟨rfl, rfl⟩ := h1.of_pure
    refine ⟨rfl, fun m => ⟨⟨0, booked_refl m t⟩, Passed.of_none fun id f hf => ?_⟩⟩
    have hmem := mem_settlementsByExpiration (e := ⟨id, f⟩).mpr hf
    rw [List.head?_eq_none_iff.mp hhead] at hmem
    cases hmem
  | some e =>
    obtain ⟨id, f⟩ := e
    have hstart := Progress.start hfeeds hhead
    have hbudget : Budget (leftToSettle (ForceSettlement.settlementAssetId f) s + 1)
        { currentAsset := ForceSettlement.settlementAssetId f } s := Or.inl le_rfl
    refine ⟨(leftToSettle (ForceSettlement.settlementAssetId f) s + 2).toNat,
      fun fuel hfuel ended t hret => ?_⟩
    have h1 := hret.of_get
    rw [hhead] at h1
    exact hstart.settleAll hbudget hfeeds (by omega) h1

def clearState : State :=
  { settleState with
    accounts := (List.replicate 4 ⟨0, 0, 0, [], [], none, 0, 0, 0⟩).foldl Index.create ∅
    assets := Index.create (Index.create ∅ { issuer := 0, options := { coreExchangeRate := Price.null } })
      { issuer := 0
        options := { coreExchangeRate := Price.null }
        currentSupply := 1000
        bitasset := some settleBitasset } }

theorem clearState_feedsFace : FeedsFace clearState where
  core_plain a ha := by
    cases ha
    rfl
  feed_base m a b ha hb _ := by
    obtain ⟨a', ha', rfl⟩ := Option.map_eq_some_iff.mp ha
    change (Index.create _ _).find m = some a' at ha'
    rw [Index.find_create, Index.find_create] at ha'
    change (if m = 1 then _ else if m = 0 then _ else none) = some a' at ha'
    by_cases hone : m = 1
    · rw [if_pos hone] at ha'
      cases ha'
      cases hb
      exact hone.symm
    · rw [if_neg hone] at ha'
      by_cases hzero : m = 0
      · rw [if_pos hzero] at ha'
        cases ha'
        cases hb
      · rw [if_neg hzero] at ha'
        cases ha'

/-- The volume of 200 is used up, and 100 of the settlement are left. -/
theorem clearExpiredSettlements_ends_clearState :
    FeedsFace clearState ∧
      (∃ n, ∀ fuel ≥ n, ∀ ended t, Returns (clearExpiredSettlements fuel) clearState ended t →
        ended = true ∧ Ended clearState t) ∧
      (match clearExpiredSettlements 5 clearState with
        | .ok ended t => ended && decide (t.forceSettlements.find 0 = some ⟨2, ⟨100, 1⟩, 0⟩)
        | .error _ _ => false) = true :=
  ⟨clearState_feedsFace, clearExpiredSettlements_ends clearState_feedsFace, by decide +kernel⟩

end Meta1Core.Settlement
