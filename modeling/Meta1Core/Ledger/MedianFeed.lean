import Mathlib.Data.Prod.Lex
import Meta1Core.Ledger.Objects
import Meta1Core.Lib.Median
import Meta1Core.Protocol.RatioMonotone

/-!
# Median feeds (`asset_object.cpp`)

The feed of a market-issued asset is, field by field, the median of the feeds that its producers
have published and that have not expired.
-/

namespace Meta1Core.Ledger

open Lib (NthElement WeakOrderOn Within bind_eq_ok of_bind)
open Protocol

structure AssetPublishFeedOperation where
  fee : Asset
  publisher : AccountId
  assetId : AssetId
  feed : PriceFeed

def isFor (f : PriceFeed) (id : AssetId) : Prop :=
  if ¬f.settlementPrice.isNull then f.settlementPrice.base.assetId = id
  else if ¬f.coreExchangeRate.isNull then f.coreExchangeRate.base.assetId = id
  else True

instance (f : PriceFeed) (id : AssetId) : Decidable (isFor f id) :=
  inferInstanceAs (Decidable (ite ..))

def AssetPublishFeedOperation.validate (op : AssetPublishFeedOperation) : Except Exception Unit := do
  fcAssert (0 ≤ op.fee.amount) "fee.amount >= 0"
  op.feed.validate
  if ¬op.feed.coreExchangeRate.isNull then op.feed.coreExchangeRate.validate
  if ¬op.feed.settlementPrice.isNull ∧ ¬op.feed.coreExchangeRate.isNull then
    fcAssert (op.feed.settlementPrice.base.assetId = op.feed.coreExchangeRate.base.assetId)
      "feed.settlement_price.base.asset_id == feed.core_exchange_rate.base.asset_id"
  fcAssert (¬op.feed.settlementPrice.isNull) "!feed.settlement_price.is_null()"
  fcAssert (¬op.feed.coreExchangeRate.isNull) "!feed.core_exchange_rate.is_null()"
  fcAssert (isFor op.feed op.assetId) "feed.is_for( asset_id )"

def BitassetOptions.validate (o : BitassetOptions) : Except Exception Unit := do
  fcAssert (0 < o.minimumFeeds) "minimum_feeds > 0"
  fcAssert (o.forceSettlementOffsetPercent ≤ percent100)
    "force_settlement_offset_percent <= GRAPHENE_100_PERCENT"
  fcAssert (o.maximumForceSettlementVolume ≤ percent100)
    "maximum_force_settlement_volume <= GRAPHENE_100_PERCENT"

structure Int64Price (p : Price) : Prop where
  base_lt : p.base.amount < 2 ^ 63
  quote_lt : p.quote.amount < 2 ^ 63

/-- A feed of an operation that has been validated.  Its settlement price is reset when the backing
asset of the asset changes. -/
structure PublishedFeed (f : PriceFeed) : Prop where
  published : ∃ op : AssetPublishFeedOperation, op.validate = .ok () ∧
    (f = op.feed ∨ f = { op.feed with settlementPrice := Price.null })
  settlementPrice_int64 : Int64Price f.settlementPrice

inductive Comparable : Price → Prop
  | null : Comparable Price.null
  | valid {p : Price} : p.validate = .ok () → Comparable p

theorem Comparable.cases {p : Price} (h : Comparable p) :
    p = Price.null ∨ 0 < p.quote.amount ∧ p.base.assetId ≠ p.quote.assetId := by
  cases h with
  | null => exact Or.inl rfl
  | valid hvalid =>
    obtain ⟨-, h⟩ := of_fcAssert hvalid
    obtain ⟨hquote, hne⟩ := of_fcAssert h
    exact Or.inr ⟨hquote, fcAssert_eq_ok.mp hne⟩

def priceKey (p : Price) : Lex (AssetId × Lex (AssetId × ℚ)) :=
  toLex (p.base.assetId, toLex (p.quote.assetId, p.value))

theorem lt_iff_priceKey {a b : Price} (ha : Comparable a) (hb : Comparable b) :
    Price.lt a b ↔ priceKey a < priceKey b := by
  unfold priceKey
  rw [Prod.Lex.toLex_lt_toLex, Prod.Lex.toLex_lt_toLex]
  -- prices of the same assets are both null or both valid
  have hvalue (hbase : a.base.assetId = b.base.assetId) (hquote : a.quote.assetId = b.quote.assetId) :
      b.quote.amount * a.base.amount < a.quote.amount * b.base.amount ↔ a.value < b.value := by
    rw [← Price.lt_iff hbase hquote]
    rcases ha.cases with rfl | ⟨haq, hane⟩
    · rcases hb.cases with rfl | ⟨-, hbne⟩
      · exact ⟨fun h => absurd h (by decide), fun h => absurd h (lt_irrefl _)⟩
      · exact absurd (hbase.symm.trans hquote) hbne
    · rcases hb.cases with rfl | ⟨hbq, -⟩
      · exact absurd (hbase.trans hquote.symm) hane
      · exact Price.lt_iff_value hbase hquote haq hbq
  unfold Price.lt
  constructor
  · rintro (hlt | ⟨hbase, hlt | ⟨hquote, hlt⟩⟩)
    · exact Or.inl hlt
    · exact Or.inr ⟨hbase, Or.inl hlt⟩
    · exact Or.inr ⟨hbase, Or.inr ⟨hquote, (hvalue hbase hquote).mp hlt⟩⟩
  · rintro (hlt | ⟨hbase, hlt | ⟨hquote, hlt⟩⟩)
    · exact Or.inl hlt
    · exact Or.inr ⟨hbase, Or.inl hlt⟩
    · exact Or.inr ⟨hbase, Or.inr ⟨hquote, (hvalue hbase hquote).mpr hlt⟩⟩

theorem weakOrderOn_price {l : List Price} (h : ∀ p ∈ l, Comparable p) : WeakOrderOn Price.lt l :=
  .of_key priceKey fun _ ha _ hb => lt_iff_priceKey (h _ ha) (h _ hb)

structure ValidFeed (f : PriceFeed) : Prop where
  settlementPrice : f.settlementPrice.validate = .ok ()
  coreExchangeRate : f.coreExchangeRate.validate = .ok ()
  maintenanceCollateralRatio :
    1001 ≤ f.maintenanceCollateralRatio ∧ f.maintenanceCollateralRatio ≤ 32000

theorem validFeed {op : AssetPublishFeedOperation} (h : op.validate = .ok ()) :
    ValidFeed op.feed := by
  obtain ⟨-, h⟩ := of_fcAssert h
  obtain ⟨_, hfeed, h⟩ := of_bind h
  -- null prices are let through until the last assertions
  have hnull : ¬op.feed.settlementPrice.isNull ∧ ¬op.feed.coreExchangeRate.isNull ∧
      op.feed.coreExchangeRate.validate = .ok () := by
    by_cases hcore : op.feed.coreExchangeRate.isNull
    · rw [if_neg (not_not.mpr hcore)] at h
      dsimp only at h
      rw [if_neg fun hboth => hboth.2 hcore] at h
      obtain ⟨-, h⟩ := of_fcAssert h
      obtain ⟨hnot, -⟩ := of_fcAssert h
      exact absurd hcore hnot
    · rw [if_pos hcore] at h
      obtain ⟨_, hrate, h⟩ := of_bind h
      by_cases hsettlement : op.feed.settlementPrice.isNull
      · dsimp only at h
        rw [if_neg fun hboth => hboth.1 hsettlement] at h
        obtain ⟨hnot, -⟩ := of_fcAssert h
        exact absurd hsettlement hnot
      · exact ⟨hsettlement, hcore, hrate⟩
  obtain ⟨hsettlement, -, hrate⟩ := hnull
  unfold PriceFeed.validate at hfeed
  rw [if_pos hsettlement] at hfeed
  obtain ⟨_, hprice, hfeed⟩ := of_bind hfeed
  simp only [fcAssert_bind_eq_ok, fcAssert_eq_ok] at hfeed
  exact ⟨hprice, hrate, hfeed.2.2⟩

namespace PublishedFeed

variable {f : PriceFeed} (h : PublishedFeed f)
include h

theorem comparable : Comparable f.settlementPrice ∧ Comparable f.coreExchangeRate := by
  obtain ⟨op, hvalid, hfeed⟩ := h.published
  have hvalid := validFeed hvalid
  rcases hfeed with rfl | rfl
  · exact ⟨.valid hvalid.settlementPrice, .valid hvalid.coreExchangeRate⟩
  · exact ⟨.null, .valid hvalid.coreExchangeRate⟩

theorem maintenanceCollateralRatio_mem :
    1001 ≤ f.maintenanceCollateralRatio ∧ f.maintenanceCollateralRatio ≤ 32000 := by
  obtain ⟨op, hvalid, hfeed⟩ := h.published
  have hvalid := validFeed hvalid
  rcases hfeed with rfl | rfl
  · exact hvalid.maintenanceCollateralRatio
  · exact hvalid.maintenanceCollateralRatio

end PublishedFeed

abbrev FeedEntry := AccountId × Nat × PriceFeed

def calculateMedianValue {V : Type} (nth : NthElement FeedEntry) (lt : V → V → Prop)
    [DecidableRel lt] (field : PriceFeed → V) (feeds : List FeedEntry) :
    Except Exception (V × List FeedEntry) :=
  let feeds := nth.run (fun a b => lt (field a.2.2) (field b.2.2)) (feeds.length / 2) feeds
  match feeds[feeds.length / 2]? with
  | some f => .ok (field f.2.2, feeds)
  | none => .error .undefined

def medianFeed (nth : NthElement FeedEntry) (feeds : List FeedEntry) : Except Exception PriceFeed := do
  let (settlementPrice, feeds) ←
    calculateMedianValue nth Price.lt PriceFeed.settlementPrice feeds
  let (maintenanceCollateralRatio, feeds) ←
    calculateMedianValue nth (· < ·) PriceFeed.maintenanceCollateralRatio feeds
  let (maximumShortSqueezeRatio, feeds) ←
    calculateMedianValue nth (· < ·) PriceFeed.maximumShortSqueezeRatio feeds
  let (coreExchangeRate, _) ←
    calculateMedianValue nth Price.lt PriceFeed.coreExchangeRate feeds
  return { settlementPrice, coreExchangeRate, maintenanceCollateralRatio, maximumShortSqueezeRatio }

def feedOf (nth : NthElement FeedEntry) : List FeedEntry → Except Exception PriceFeed
  | [f] => .ok f.2.2
  | feeds => medianFeed nth feeds

/-- `maintenance_collateralization`, whatever an overflow gives -/
def maintenanceCollateralizationWith (wrapped : Rat → Rat → Rat) (f : PriceFeed) :
    Except Exception Price :=
  if f.settlementPrice.isNull then .ok Price.null
  else f.settlementPrice.inv.mulRatioWith wrapped f.maintenanceCollateralRatio collateralRatioDenom

/-- The feed was alive at a time: it has been published, and has not expired. -/
def isAlive (lifetime currentTime : Nat) (f : FeedEntry) : Prop :=
  (currentTime - f.2.1 : Int) < lifetime ∧ f.2.1 ≠ 0

instance (lifetime currentTime : Nat) (f : FeedEntry) : Decidable (isAlive lifetime currentTime f) :=
  inferInstanceAs (Decidable (_ ∧ _))

def BitassetData.currentFeeds (b : BitassetData) (currentTime : Nat) : List FeedEntry :=
  b.feeds.filter (isAlive b.options.feedLifetimeSec currentTime)

def updateMedianFeeds (nth : NthElement FeedEntry) (wrapped : Rat → Rat → Rat) (currentTime : Nat)
    (b : BitassetData) (feedCerUpdated : Bool) : Except Exception (BitassetData × Bool) := do
  let currentFeeds := b.currentFeeds currentTime
  let publicationTime := currentFeeds.foldl (fun t f => min t f.2.1) currentTime
  if currentFeeds.length < b.options.minimumFeeds then
    -- set a null feed
    return ({ b with
      currentFeedPublicationTime := currentTime
      currentFeed := {}
      currentMaintenanceCollateralization := Price.null }, false)
  let feed ← feedOf nth currentFeeds
  let collateralization ← maintenanceCollateralizationWith wrapped feed
  return ({ b with
    currentFeedPublicationTime := publicationTime
    currentFeed := feed
    currentMaintenanceCollateralization := collateralization },
    feedCerUpdated || ¬b.currentFeed.coreExchangeRate.same feed.coreExchangeRate)

/-- Every field is between the least and the greatest of that field. -/
structure FeedWithin (feeds : List FeedEntry) (m : PriceFeed) : Prop where
  settlementPrice : Within Price.lt (feeds.map (·.2.2.settlementPrice)) m.settlementPrice
  maintenanceCollateralRatio :
    Within (· < ·) (feeds.map (·.2.2.maintenanceCollateralRatio)) m.maintenanceCollateralRatio
  maximumShortSqueezeRatio :
    Within (· < ·) (feeds.map (·.2.2.maximumShortSqueezeRatio)) m.maximumShortSqueezeRatio
  coreExchangeRate : Within Price.lt (feeds.map (·.2.2.coreExchangeRate)) m.coreExchangeRate

section Median

variable {feeds feeds' : List FeedEntry} {V : Type} {lt : V → V → Prop}
  [DecidableRel lt] {field : PriceFeed → V}

structure IsMedian (lt : V → V → Prop) (field : PriceFeed → V) (feeds : List FeedEntry) (v : V) :
    Prop where
  exists_mem : ∃ f ∈ feeds, field f.2.2 = v
  within : ∀ faulty : FeedEntry → Bool, 2 * feeds.countP faulty < feeds.length →
    Within lt ((feeds.filter fun f => !faulty f).map fun f => field f.2.2) v

omit [DecidableRel lt] in
theorem IsMedian.of_perm {v : V} (h : IsMedian lt field feeds' v) (hperm : feeds'.Perm feeds) :
    IsMedian lt field feeds v := by
  constructor
  · obtain ⟨f, hf, hv⟩ := h.exists_mem
    exact ⟨f, hperm.subset hf, hv⟩
  · intro faulty hfew
    rw [← hperm.countP_eq, ← hperm.length_eq] at hfew
    exact (h.within faulty hfew).congr fun a => ((hperm.filter _).map _).mem_iff

theorem calculateMedianValue_spec (nth : NthElement FeedEntry) (field : PriceFeed → V)
    (h : WeakOrderOn lt (feeds.map fun f => field f.2.2))
    (hne : feeds ≠ []) :
    ∃ v feeds', calculateMedianValue nth lt field feeds = .ok (v, feeds') ∧
      feeds'.Perm feeds ∧ IsMedian lt field feeds v := by
  obtain ⟨x, hx, hmiddle, hwithin⟩ := nth.within_median (fun f : FeedEntry => field f.2.2) h hne
  have hperm := nth.perm _ (feeds.length / 2) feeds h.of_map
  refine ⟨field x.2.2, _, ?_, hperm, ⟨x, hx, rfl⟩, hwithin⟩
  unfold calculateMedianValue
  dsimp only
  rw [hperm.length_eq, hmiddle]

structure IsMedianFeed (feeds : List FeedEntry) (m : PriceFeed) : Prop where
  settlementPrice : IsMedian Price.lt PriceFeed.settlementPrice feeds m.settlementPrice
  maintenanceCollateralRatio :
    IsMedian (· < ·) PriceFeed.maintenanceCollateralRatio feeds m.maintenanceCollateralRatio
  maximumShortSqueezeRatio :
    IsMedian (· < ·) PriceFeed.maximumShortSqueezeRatio feeds m.maximumShortSqueezeRatio
  coreExchangeRate : IsMedian Price.lt PriceFeed.coreExchangeRate feeds m.coreExchangeRate

theorem weakOrderOn_settlementPrice (h : ∀ f ∈ feeds, PublishedFeed f.2.2) :
    WeakOrderOn Price.lt (feeds.map fun f => f.2.2.settlementPrice) := by
  apply weakOrderOn_price
  intro p hp
  obtain ⟨f, hf, rfl⟩ := List.mem_map.mp hp
  exact (h f hf).comparable.1

theorem weakOrderOn_coreExchangeRate (h : ∀ f ∈ feeds, PublishedFeed f.2.2) :
    WeakOrderOn Price.lt (feeds.map fun f => f.2.2.coreExchangeRate) := by
  apply weakOrderOn_price
  intro p hp
  obtain ⟨f, hf, rfl⟩ := List.mem_map.mp hp
  exact (h f hf).comparable.2

theorem weakOrderOn_nat (l : List Nat) : WeakOrderOn (· < ·) l :=
  .of_key id fun _ _ _ _ => Iff.rfl

theorem medianFeed_spec (nth : NthElement FeedEntry) (h : ∀ f ∈ feeds, PublishedFeed f.2.2) (hne : feeds ≠ []) :
    ∃ m, medianFeed nth feeds = .ok m ∧ IsMedianFeed feeds m := by
  have hnext {feeds' : List FeedEntry} (hperm : feeds'.Perm feeds) :
      (∀ f ∈ feeds', PublishedFeed f.2.2) ∧ feeds' ≠ [] :=
    ⟨fun f hf => h f (hperm.subset hf), fun hnil => hne (hnil ▸ hperm).nil_eq.symm⟩
  -- every median leaves a rearrangement to the next
  obtain ⟨settlementPrice, feeds1, hsettlement, hperm1, hmedian1⟩ :=
    calculateMedianValue_spec nth PriceFeed.settlementPrice
      (weakOrderOn_settlementPrice h) hne
  obtain ⟨h1, hne1⟩ := hnext hperm1
  obtain ⟨mcr, feeds2, hmcr, hperm2, hmedian2⟩ :=
    calculateMedianValue_spec nth PriceFeed.maintenanceCollateralRatio
      (weakOrderOn_nat _) hne1
  obtain ⟨h2, hne2⟩ := hnext (hperm2.trans hperm1)
  obtain ⟨mssr, feeds3, hmssr, hperm3, hmedian3⟩ :=
    calculateMedianValue_spec nth PriceFeed.maximumShortSqueezeRatio
      (weakOrderOn_nat _) hne2
  obtain ⟨h3, hne3⟩ := hnext (hperm3.trans (hperm2.trans hperm1))
  obtain ⟨rate, feeds4, hrate, -, hmedian4⟩ :=
    calculateMedianValue_spec nth PriceFeed.coreExchangeRate
      (weakOrderOn_coreExchangeRate h3) hne3
  refine ⟨⟨settlementPrice, rate, mcr, mssr⟩, ?_, hmedian1, hmedian2.of_perm hperm1,
    hmedian3.of_perm (hperm2.trans hperm1), hmedian4.of_perm (hperm3.trans (hperm2.trans hperm1))⟩
  exact bind_eq_ok.mpr ⟨_, hsettlement, bind_eq_ok.mpr ⟨_, hmcr,
    bind_eq_ok.mpr ⟨_, hmssr, bind_eq_ok.mpr ⟨_, hrate, rfl⟩⟩⟩⟩

omit [DecidableRel lt] in
theorem isMedian_singleton (f : FeedEntry) (h : WeakOrderOn lt [field f.2.2]) :
    IsMedian lt field [f] (field f.2.2) := by
  refine ⟨⟨f, List.mem_singleton_self f, rfl⟩, fun faulty hfew => ?_⟩
  have hhonest : faulty f = false := by
    by_contra hfaulty
    rw [List.countP_singleton, if_pos (by simpa using hfaulty), List.length_singleton] at hfew
    omega
  have hirrefl := h.irrefl (List.mem_singleton_self _)
  have hmem : field f.2.2 ∈ ([f].filter fun f => !faulty f).map fun f => field f.2.2 :=
    List.mem_map_of_mem (List.mem_filter.mpr ⟨List.mem_singleton_self f, by simp [hhonest]⟩)
  apply Within.of_exists h _ (List.mem_singleton_self _) ⟨_, hmem, hirrefl⟩ ⟨_, hmem, hirrefl⟩
  exact List.map_subset _ (List.filter_subset_self [f])

theorem isMedianFeed_singleton {f : FeedEntry} (h : PublishedFeed f.2.2) :
    IsMedianFeed [f] f.2.2 where
  settlementPrice := isMedian_singleton f (weakOrderOn_price fun p hp => by
    rw [List.mem_singleton.mp hp]
    exact h.comparable.1)
  maintenanceCollateralRatio := isMedian_singleton f (weakOrderOn_nat _)
  maximumShortSqueezeRatio := isMedian_singleton f (weakOrderOn_nat _)
  coreExchangeRate := isMedian_singleton f (weakOrderOn_price fun p hp => by
    rw [List.mem_singleton.mp hp]
    exact h.comparable.2)

end Median

/-! ## The update -/

theorem exists_maintenanceCollateralizationWith (wrapped : Rat → Rat → Rat) {feeds : List FeedEntry}
    (h : ∀ f ∈ feeds, PublishedFeed f.2.2) {m : PriceFeed} (hmedian : IsMedianFeed feeds m) :
    ∃ c, maintenanceCollateralizationWith wrapped m = .ok c := by
  unfold maintenanceCollateralizationWith
  split
  · exact ⟨_, rfl⟩
  rename_i hnull
  obtain ⟨f, hf, hprice⟩ := hmedian.settlementPrice.exists_mem
  obtain ⟨g, hg, hratio⟩ := hmedian.maintenanceCollateralRatio.exists_mem
  obtain ⟨hlow, hhigh⟩ := (h g hg).maintenanceCollateralRatio_mem
  have hint64 := (h f hf).settlementPrice_int64
  rw [hprice] at hint64
  rw [hratio] at hlow hhigh
  have hvalid : m.settlementPrice.inv.validate = .ok () := by
    have hcomparable := (h f hf).comparable.1
    rw [hprice] at hcomparable
    generalize m.settlementPrice = p at hcomparable hnull ⊢
    cases hcomparable with
    | null => exact absurd ⟨rfl, rfl⟩ hnull
    | valid hvalid =>
      obtain ⟨hbase, hvalid⟩ := of_fcAssert hvalid
      obtain ⟨hquote, hne⟩ := of_fcAssert hvalid
      exact fcAssert_bind_eq_ok.mpr ⟨hquote, fcAssert_bind_eq_ok.mpr
        ⟨hbase, fcAssert_eq_ok.mpr (fcAssert_eq_ok.mp hne).symm⟩⟩
  exact Price.exists_mulRatioWith wrapped hvalid hint64.quote_lt hint64.base_lt (by omega)
    (by omega) (by decide) (by decide)

theorem foldl_min_le (feeds : List FeedEntry) (t : Nat) :
    feeds.foldl (fun t f => min t f.2.1) t ≤ t ∧
      ∀ f ∈ feeds, feeds.foldl (fun t f => min t f.2.1) t ≤ f.2.1 := by
  induction feeds generalizing t with
  | nil => exact ⟨le_refl t, fun f hf => nomatch hf⟩
  | cons g feeds ih =>
    obtain ⟨hle, hall⟩ := ih (min t g.2.1)
    refine ⟨hle.trans (min_le_left _ _), fun f hf => ?_⟩
    rcases List.mem_cons.mp hf with rfl | hf
    · exact hle.trans (min_le_right _ _)
    · exact hall f hf

def Expired (lifetime now : Nat) (f : FeedEntry) : Prop := f.2.1 + lifetime ≤ now

instance (lifetime now : Nat) (f : FeedEntry) : Decidable (Expired lifetime now f) :=
  inferInstanceAs (Decidable (_ ≤ _))

theorem isAlive_iff {lifetime now : Nat} {f : FeedEntry} :
    isAlive lifetime now f ↔ f.2.1 ≠ 0 ∧ ¬Expired lifetime now f := by
  unfold isAlive Expired
  omega

def BitassetData.unexpired (b : BitassetData) (now : Nat) : List FeedEntry :=
  b.feeds.filter fun f => f.2.1 ≠ 0 ∧ ¬Expired b.options.feedLifetimeSec now f

theorem currentFeeds_eq (b : BitassetData) (now : Nat) : b.currentFeeds now = b.unexpired now := by
  unfold BitassetData.currentFeeds BitassetData.unexpired
  simp only [isAlive_iff]

theorem currentFeeds_filter (b : BitassetData) (now : Nat) :
    BitassetData.currentFeeds { b with
      feeds := b.feeds.filter fun f => ¬Expired b.options.feedLifetimeSec now f } now =
        b.currentFeeds now := by
  unfold BitassetData.currentFeeds
  rw [List.filter_filter]
  apply List.filter_congr
  intro f _
  simp only [isAlive_iff]
  by_cases h : Expired b.options.feedLifetimeSec now f <;> simp [h]

section Update

variable (nth : NthElement FeedEntry) (wrapped : Rat → Rat → Rat) (now : Nat) {b : BitassetData}

theorem exists_feed (h : ∀ f ∈ b.unexpired now, PublishedFeed f.2.2)
    (hne : b.unexpired now ≠ []) :
    ∃ m, feedOf nth (b.currentFeeds now) = .ok m ∧ IsMedianFeed (b.unexpired now) m := by
  rw [currentFeeds_eq]
  unfold feedOf
  split
  · rename_i f heq
    rw [heq] at h ⊢
    exact ⟨f.2.2, rfl, isMedianFeed_singleton (h f (List.mem_singleton_self f))⟩
  · exact medianFeed_spec nth h hne

structure Updated (b b' : BitassetData) (now : Nat) : Prop where
  few : (b.unexpired now).length < b.options.minimumFeeds →
    b'.currentFeed = {} ∧ b'.currentFeedPublicationTime = now
  enough : b.options.minimumFeeds ≤ (b.unexpired now).length →
    IsMedianFeed (b.unexpired now) b'.currentFeed ∧
      ∀ f ∈ b.unexpired now, b'.currentFeedPublicationTime ≤ f.2.1

theorem exists_updateMedianFeeds (flag : Bool) (hoptions : b.options.validate = .ok ())
    (h : ∀ f ∈ b.unexpired now, PublishedFeed f.2.2) :
    ∃ b' flag', updateMedianFeeds nth wrapped now b flag = .ok (b', flag') ∧ Updated b b' now := by
  obtain ⟨hmin, -⟩ := of_fcAssert hoptions
  unfold updateMedianFeeds
  dsimp only
  by_cases hfew : (b.currentFeeds now).length < b.options.minimumFeeds
  · rw [if_pos hfew]
    rw [currentFeeds_eq] at hfew
    refine ⟨_, _, rfl, fun _ => ⟨rfl, rfl⟩, fun henough => ?_⟩
    omega
  · have hne : b.unexpired now ≠ [] := by
      intro hnil
      rw [currentFeeds_eq, hnil, List.length_nil] at hfew
      omega
    obtain ⟨m, hfeed, hmedian⟩ := exists_feed nth now h hne
    obtain ⟨c, hc⟩ := exists_maintenanceCollateralizationWith wrapped h hmedian
    rw [if_neg hfew]
    refine ⟨_, _, bind_eq_ok.mpr ⟨m, hfeed, bind_eq_ok.mpr ⟨c, hc, rfl⟩⟩, ?_, ?_⟩
    · intro hfew'
      rw [currentFeeds_eq] at hfew
      omega
    · intro _
      refine ⟨hmedian, fun f hf => ?_⟩
      dsimp only
      rw [currentFeeds_eq]
      exact (foldl_min_le (b.unexpired now) now).2 f hf

theorem updateMedianFeeds_filter (flag : Bool) {b' : BitassetData} {flag' : Bool}
    (h : updateMedianFeeds nth wrapped now b flag = .ok (b', flag')) :
    updateMedianFeeds nth wrapped now { b with
      feeds := b.feeds.filter fun f => ¬Expired b.options.feedLifetimeSec now f } flag = .ok ({ b' with
        feeds := b.feeds.filter fun f => ¬Expired b.options.feedLifetimeSec now f }, flag') := by
  unfold updateMedianFeeds at h ⊢
  dsimp only at h ⊢
  rw [currentFeeds_filter]
  by_cases hfew : (b.currentFeeds now).length < b.options.minimumFeeds
  · rw [if_pos hfew] at h ⊢
    cases h
    rfl
  · rw [if_neg hfew] at h ⊢
    obtain ⟨m, hm, h⟩ := of_bind h
    obtain ⟨c, hc, h⟩ := of_bind h
    cases h
    exact bind_eq_ok.mpr ⟨m, hm, bind_eq_ok.mpr ⟨c, hc, rfl⟩⟩

end Update

/-- The median feed ignores the feeds that have expired and no others.  If fewer than half are
faulty, every field is within that field of the honest feeds, and no feed that is left expires
before the lifetime of the median is over. -/
theorem updateMedianFeeds_robust (nth : NthElement FeedEntry) (wrapped : Rat → Rat → Rat) (now : Nat)
    {b : BitassetData} (feedCerUpdated : Bool) (hoptions : b.options.validate = .ok ())
    (hfeeds : ∀ f ∈ b.feeds, f.2.1 ≠ 0 → PublishedFeed f.2.2) :
    ∃ b' feedCerUpdated', updateMedianFeeds nth wrapped now b feedCerUpdated =
        .ok (b', feedCerUpdated') ∧
      updateMedianFeeds nth wrapped now { b with
        feeds := b.feeds.filter fun f => ¬Expired b.options.feedLifetimeSec now f } feedCerUpdated =
          .ok ({ b' with
            feeds := b.feeds.filter fun f => ¬Expired b.options.feedLifetimeSec now f },
            feedCerUpdated') ∧
      ((b.unexpired now).length < b.options.minimumFeeds → b'.currentFeed = {}) ∧
      (b.options.minimumFeeds ≤ (b.unexpired now).length → (∀ faulty : FeedEntry → Bool,
          2 * (b.unexpired now).countP faulty < (b.unexpired now).length →
            FeedWithin ((b.unexpired now).filter fun f => !faulty f) b'.currentFeed) ∧
        ∀ f ∈ b.unexpired now, ∀ later < b'.currentFeedPublicationTime + b.options.feedLifetimeSec,
            ¬Expired b.options.feedLifetimeSec later f) := by
  have hpublished : ∀ f ∈ b.unexpired now, PublishedFeed f.2.2 := by
    intro f hf
    obtain ⟨hmem, hf⟩ := List.mem_filter.mp hf
    exact hfeeds f hmem (of_decide_eq_true hf).1
  obtain ⟨b', flag', hupdate, hupdated⟩ :=
    exists_updateMedianFeeds nth wrapped now feedCerUpdated hoptions hpublished
  refine ⟨b', flag', hupdate, updateMedianFeeds_filter nth wrapped now feedCerUpdated hupdate,
    fun hfew => (hupdated.few hfew).1, fun henough => ?_⟩
  obtain ⟨hmedian, htime⟩ := hupdated.enough henough
  constructor
  · intro faulty hfew
    exact ⟨hmedian.settlementPrice.within faulty hfew,
      hmedian.maintenanceCollateralRatio.within faulty hfew,
      hmedian.maximumShortSqueezeRatio.within faulty hfew,
      hmedian.coreExchangeRate.within faulty hfew⟩
  · intro f hf later hlater
    have hle := htime f hf
    unfold Expired
    omega

def feedAt (amount : Int) : PriceFeed where
  settlementPrice := ⟨⟨1, 1⟩, ⟨amount, 0⟩⟩
  coreExchangeRate := ⟨⟨1, 1⟩, ⟨amount, 0⟩⟩

def fourFeeds : BitassetData where
  options := { feedLifetimeSec := 500 }
  feeds := [(1, 700, feedAt 7), (2, 900, feedAt 10), (3, 1000, feedAt 12), (4, 1100, feedAt 900000)]

theorem feedAt_published {amount : Int} (hpos : 0 < amount) (hlt : amount < 2 ^ 63) :
    PublishedFeed (feedAt amount) := by
  have hone : (1 : Int) < 2 ^ 63 := by decide
  refine ⟨⟨⟨⟨0, 0⟩, 1, 1, feedAt amount⟩, ?_, Or.inl rfl⟩, ⟨hone, hlt⟩⟩
  simp [AssetPublishFeedOperation.validate, PriceFeed.validate, Price.validate, Price.isNull, isFor,
    feedAt, fcAssert, core, hpos, bind, Except.bind]

theorem updateMedianFeeds_robust_four :
    ∃ b' feedCerUpdated, updateMedianFeeds (.sort _) (fun _ _ => 0) 1200 fourFeeds false =
        .ok (b', feedCerUpdated) ∧
      FeedWithin [(2, 900, feedAt 10), (3, 1000, feedAt 12)] b'.currentFeed ∧
      ∀ later < b'.currentFeedPublicationTime + 500, ¬Expired 500 later (2, 900, feedAt 10) := by
  have hpublished : ∀ f ∈ fourFeeds.feeds, f.2.1 ≠ 0 → PublishedFeed f.2.2 := by
    intro f hf _
    simp only [fourFeeds, List.mem_cons, List.not_mem_nil, or_false] at hf
    rcases hf with rfl | rfl | rfl | rfl <;> exact feedAt_published (by decide) (by decide)
  obtain ⟨b', flag, hupdate, -, -, henough⟩ :=
    updateMedianFeeds_robust (.sort _) (fun _ _ => 0) 1200 false (b := fourFeeds) rfl hpublished
  obtain ⟨hwithin, hexpires⟩ := henough (by decide)
  exact ⟨b', flag, hupdate, hwithin (fun f => f.1 == 4) (by decide),
    hexpires (2, 900, feedAt 10) (by decide)⟩

end Meta1Core.Ledger
