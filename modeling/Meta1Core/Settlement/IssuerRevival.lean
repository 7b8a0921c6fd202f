import Meta1Core.Settlement.Revival

/-!
# Revival by a feed

When a feed covers the settlement fund, `asset_publish_feeds_evaluator` hands the fund and the debt
to the issuer: a bid is created for him and executed at once, and all other bids are cancelled.
-/

namespace Meta1Core.Settlement

open Lib (Index Returns Reachable Succeeds commit commit_eq_ok)
open Protocol Ledger Market

variable {s s' t : State} {mia backing : AssetId} {f : Fund} {a : AssetObject} {b : BitassetData}

def shouldRevive (mia : AssetId) (a : AssetObject) (bad : BitassetData) : Prop :=
  a.currentSupply = 0 ∨ bad.currentMaintenanceCollateralization.lt
    ⟨⟨bad.settlementFund, bad.options.shortBackingAsset⟩, ⟨a.currentSupply, mia⟩⟩

instance (mia : AssetId) (a : AssetObject) (bad : BitassetData) :
    Decidable (shouldRevive mia a bad) := inferInstanceAs (Decidable (_ ∨ _))

/-- What `do_apply` does when the feed of an asset has changed, before the margin calls -/
def reviveOnFeed (mia : AssetId) : Evaluation Unit := do
  let base ← assets.fetch mia
  let bad ← bitassetData base
  onlyIf (bad.hasSettlement ∧ ¬bad.currentFeed.settlementPrice.isNull) <|
    onlyIf (shouldRevive mia base bad) (reviveBitasset mia)

theorem bidsByPrice_perm_of_find (h : ∀ id, t.collateralBids.find id = s.collateralBids.find id) :
    (bidsByPrice backing mia t).Perm (bidsByPrice backing mia s) := by
  apply (List.perm_ext_iff_of_nodup (bidsByPrice_nodup backing mia t).of_map
    (bidsByPrice_nodup backing mia s).of_map).mpr
  intro e
  rw [mem_bidsByPrice, mem_bidsByPrice, h]

theorem Biddable.bids_fit (hs : Biddable mia backing f s) (hbalances : t.balances = s.balances)
    (hfind : ∀ id, t.collateralBids.find id = s.collateralBids.find id) :
    (∀ e ∈ bidsByPrice backing mia t, e.2.invSwanPrice.base.assetId = backing ∧
      0 < e.2.invSwanPrice.base.amount) ∧
    t.publicBalance backing +
      ((bidsByPrice backing mia t).map fun e => e.2.invSwanPrice.base.amount).sum ≤
        maxShareSupply := by
  have hperm : (bidsByPrice backing mia t).Perm (bidsByPrice backing mia s) :=
    bidsByPrice_perm_of_find hfind
  constructor
  · intro e he
    have hfits := hs.fitting (hperm.mem_iff.mp he)
    exact ⟨hfits.backed, hfits.collateral_pos⟩
  · obtain ⟨hconserved, -, hlocked, hfund⟩ := hs.bidCollateral_le
    rw [publicBalance_congr hbalances, (hperm.map _).sum_eq, hs.sum_bidsByPrice]
    split at hconserved
    · omega
    · omega

theorem Biddable.find_all_removed (hs : Biddable mia backing f s)
    (hfind : ∀ id, t.collateralBids.find id = s.collateralBids.find id) (id : Nat) :
    (((bidsByPrice backing mia t).map (·.1)).foldl Index.remove t.collateralBids).find id =
      (s.collateralBids.find id).filter fun bid => bid.debtType ≠ mia := by
  have hperm : (bidsByPrice backing mia t).Perm (bidsByPrice backing mia s) :=
    bidsByPrice_perm_of_find hfind
  rw [← hfind]
  apply Index.find_foldl_remove_eq_filter
  rw [(hperm.map _).mem_iff, hfind]
  constructor
  · intro hmem
    obtain ⟨e, he, rfl⟩ := List.mem_map.mp hmem
    obtain ⟨hbid, hdebt⟩ := hs.mem_bidsByPrice_iff.mp he
    exact ⟨e.2, hbid, by simp [hdebt]⟩
  · rintro ⟨bid, hbid, hdebt⟩
    have hmem := hs.mem_bidsByPrice_iff (e := ⟨id, bid⟩)
    exact List.mem_map.mpr ⟨⟨id, bid⟩, hmem.mpr ⟨hbid, by simpa using hdebt⟩, rfl⟩

/-! ## The bid of the issuer -/

/-- The bid without collateral that `revive_bitasset` creates -/
def pseudoBid (mia : AssetId) (a : AssetObject) (b : BitassetData) : CollateralBid :=
  ⟨a.issuer, ⟨⟨0, b.options.shortBackingAsset⟩, ⟨a.currentSupply, mia⟩⟩⟩

def HasNoBid (mia : AssetId) (account : AccountId) (s : State) : Prop :=
  ∀ id bid, s.collateralBids.find id = some bid → bid.debtType = mia → bid.bidder ≠ account

/-- The call orders that a revival by a feed creates -/
def issuerCalls (mia : AssetId) (a : AssetObject) (b : BitassetData) : List CallOrder :=
  if 0 < a.currentSupply then [callOf (pseudoBid mia a b) (a.currentSupply, b.settlementFund)] else []

/-- `s'` is `s` after the debt and the fund of the asset went to its issuer, and all bids were refunded. -/
structure HandedOver (mia : AssetId) (a : AssetObject) (b : BitassetData) (s s' : State) : Prop where
  calls : s'.callOrders = (issuerCalls mia a b).foldl Index.create s.callOrders
  issuer : ∀ call ∈ issuerCalls mia a b, call.borrower = a.issuer ∧ call.debtType = mia
  debt : ((issuerCalls mia a b).map CallOrder.debt).sum = a.currentSupply
  collateral : ((issuerCalls mia a b).map CallOrder.collateral).sum = b.settlementFund
  gone : ∀ id, s'.collateralBids.find id =
    (s.collateralBids.find id).filter fun bid => bid.debtType ≠ mia
  refunds : ∀ account id, getBalance account id s' = getBalance account id s +
    if id = b.options.shortBackingAsset then
      refund account (bidsByPrice b.options.shortBackingAsset mia s) else 0
  revived : s'.assets.find mia = some { a with
    bitasset := some { b with settlementPrice := Price.null, settlementFund := 0 } }

def withIssuerCall (mia : AssetId) (a : AssetObject) (b : BitassetData) (s : State) : State :=
  executed { s with collateralBids := s.collateralBids.create (pseudoBid mia a b) }
    ⟨s.collateralBids.next, pseudoBid mia a b⟩ (a.currentSupply, b.settlementFund)

theorem returns_createBid_iff {bid : CollateralBid} {id : Nat} :
    Returns (createBid bid) s id s' ↔ HasNoBid bid.debtType bid.bidder s ∧
      id = s.collateralBids.next ∧
      s' = { s with collateralBids := s.collateralBids.create bid } := by
  have hnone : (s.collateralBids.findId fun b =>
      b.bidder = bid.bidder ∧ b.debtType = bid.debtType) = none ↔
        HasNoBid bid.debtType bid.bidder s := by
    constructor
    · intro h id b hb hdebt heq
      have hfalse := Index.of_findId_eq_none h hb
      exact of_decide_eq_false hfalse ⟨heq, hdebt⟩
    · intro h
      apply Index.findId_eq_none
      intro id b hb
      exact decide_eq_false fun hand => h id b hb hand.2 hand.1
  constructor
  · intro h
    obtain ⟨hfree, h⟩ := of_require (h.of_get)
    exact ⟨hnone.mp hfree, Table.create_iff.mp h⟩
  · rintro ⟨hfree, hcreate⟩
    exact Returns.get_bind_iff.mpr
      (returns_require_bind.mpr ⟨hnone.mpr hfree, Table.create_iff.mpr hcreate⟩)

theorem find_remove_create (t : Index CollateralBid) (bid : CollateralBid) (id : Nat) :
    ((t.create bid).remove t.next).find id = t.find id := by
  rw [Index.find_remove, Index.find_create]
  split
  · rename_i heq
    rw [heq, Index.find_next]
  · rfl

theorem Biddable.returns_executePseudoBid_iff (hs : Biddable mia backing f s)
    (ha : s.assets.find mia = some a) (hb : a.bitasset = some b)
    (hissuer : (s.accounts.find a.issuer).isSome) {u : Unit} :
    Returns (executePseudoBid mia a b) s u s' ↔
      HasNoBid mia a.issuer s ∧ s' = withIssuerCall mia a b s := by
  obtain ⟨rfl, -, hfund, hsupply⟩ := hs.solvent.holds.of_find ha hb
  obtain ⟨hconserved, hpublic, hlocked, hfund_nonneg⟩ := hs.bidCollateral_le
  have hbids : 0 ≤ bidCollateral mia s := by
    rw [← hs.sum_bidsByPrice]
    apply List.sum_nonneg
    intro x hx
    obtain ⟨e, he, rfl⟩ := List.mem_map.mp hx
    exact (hs.fitting he).collateral_pos.le
  obtain ⟨issuer, hfound⟩ := Option.isSome_iff_exists.mp hissuer
  let share : Int × Int := (a.currentSupply, b.settlementFund)
  have hexecute : Returns (executeBid s.collateralBids.next share.1 share.2)
      { s with collateralBids := s.collateralBids.create (pseudoBid mia a b) } ()
      (withIssuerCall mia a b s) := by
    unfold maxShareSupply at hconserved
    have hcollateral : (callOf (pseudoBid mia a b) (a.currentSupply, b.settlementFund)).collateral =
        b.settlementFund := zero_add _
    apply returns_executeBid (e := ⟨s.collateralBids.next, pseudoBid mia a b⟩) (a := issuer)
    · show (s.collateralBids.create _).find s.collateralBids.next = _
      rw [Index.find_create, if_pos rfl]
    · intro id o ho hdebt
      exact absurd hdebt (hs.noCalls id o ho)
    · rw [hcollateral, hfund]
      split at hconserved
      · omega
      · omega
    · exact hfound
    · intro hcore
      have hle := le_lockedCore hs.locked hfound
      have hbacked : b.options.shortBackingAsset = core := hcore
      rw [if_pos hbacked] at hconserved
      rw [hcollateral, hfund]
      exact ⟨hs.locked _ issuer hfound, by omega⟩
  have hdiv : Asset.div ⟨0, b.options.shortBackingAsset⟩ ⟨a.currentSupply, mia⟩ =
      .ok (pseudoBid mia a b).invSwanPrice :=
    fcAssert_bind_eq_ok.mpr ⟨hs.solvent.distinct, rfl⟩
  unfold executePseudoBid
  rw [Returns.lift_bind_iff]
  constructor
  · rintro ⟨price, hprice, h⟩
    obtain rfl : (pseudoBid mia a b).invSwanPrice = price := Except.ok.inj (hdiv.symm.trans hprice)
    obtain ⟨id, s1, hcreate, h⟩ := h.of_bind
    obtain ⟨hfree, rfl, rfl⟩ := returns_createBid_iff.mp hcreate
    cases h.symm.trans hexecute
    exact ⟨hfree, rfl⟩
  · rintro ⟨hfree, rfl⟩
    exact ⟨_, hdiv, Returns.bind_iff.mpr ⟨_, _, returns_createBid_iff.mpr ⟨hfree, rfl, rfl⟩, hexecute⟩⟩

theorem Biddable.returns_cancel (hs : Biddable mia backing f s) (hb : a.bitasset = some b)
    (hmarket : b.isPredictionMarket = false) (ha : s.assets.find mia = some a)
    (hassets : t.assets = s.assets) (hbalances : t.balances = s.balances)
    (hcalls : t.callOrders = (issuerCalls mia a b).foldl Index.create s.callOrders)
    (hfind : ∀ id, t.collateralBids.find id = s.collateralBids.find id) :
    ∃ s', Returns (cancelBidsAndReviveMpa mia mia) t () s' ∧ HandedOver mia a b s s' := by
  obtain ⟨rfl, hprice, hfund, hsupply⟩ := hs.solvent.holds.of_find ha hb
  have hsound := hs.solvent.sound
  obtain ⟨hgood, hfits⟩ := hs.bids_fit hbalances hfind
  obtain ⟨s', hrevive, hcalls', hbids, hrefunds, hrevived⟩ :=
    returns_cancelBidsAndReviveMpa (hassets ▸ ha) hb
      (hasSettlement_of_price hs.solvent.distinct hprice) hmarket
      (balancesNonneg_congr hbalances hs.solvent.nonneg) hgood hfits
  refine ⟨s', hrevive, ?_⟩
  constructor
  case calls => rw [hcalls', hcalls]
  case issuer =>
    intro call hcall
    unfold issuerCalls at hcall
    split at hcall
    · obtain rfl := List.mem_singleton.mp hcall
      exact ⟨rfl, rfl⟩
    · cases hcall
  case debt =>
    have hnonneg := hsound.supply_nonneg
    unfold issuerCalls
    split
    · exact add_zero _
    · show (0 : Int) = _
      omega
  case collateral =>
    unfold issuerCalls
    split
    · show 0 + b.settlementFund + 0 = b.settlementFund
      omega
    · have hnonneg := hsound.supply_nonneg
      have hempty := hsound.empty (by omega)
      show (0 : Int) = _
      omega
  case gone =>
    rw [hbids]
    exact hs.find_all_removed hfind
  case refunds =>
    intro account id
    have hperm : (bidsByPrice b.options.shortBackingAsset mia t).Perm
        (bidsByPrice b.options.shortBackingAsset mia s) := bidsByPrice_perm_of_find hfind
    rw [hrefunds, refund, refund, (hperm.map _).sum_eq]
    unfold getBalance
    rw [hbalances]
  case revived => exact hrevived

theorem Biddable.reviveBitasset_iff (hs : Biddable mia backing f s)
    (ha : s.assets.find mia = some a) (hb : a.bitasset = some b)
    (hissuer : (s.accounts.find a.issuer).isSome) (hmarket : b.isPredictionMarket = false)
    (hfeed : ¬b.currentFeed.settlementPrice.isNull) :
    (∃ s', Returns (reviveBitasset mia) s () s' ∧ HandedOver mia a b s s') ↔
      a.currentSupply = 0 ∨ HasNoBid mia a.issuer s := by
  obtain ⟨-, hprice, hfund, hsupply⟩ := hs.solvent.holds.of_find ha hb
  have hsound := hs.solvent.sound
  have hsettled := hasSettlement_of_price hs.solvent.distinct hprice
  have hnonneg := hsound.supply_nonneg
  have hrevive : ∀ s', Returns (reviveBitasset mia) s () s' ↔ Returns (if 0 < a.currentSupply then
      executePseudoBid mia a b >>= fun _ => cancelBidsAndReviveMpa mia mia
      else require (b.settlementFund = 0) "bad.settlement_fund == 0" >>= fun _ =>
        cancelBidsAndReviveMpa mia mia) s () s' := by
    intro s'
    unfold reviveBitasset
    rw [returns_fetch_bind]
    constructor
    · rintro ⟨a', ha', h⟩
      obtain rfl : a = a' := Option.some.inj (ha.symm.trans ha')
      obtain ⟨b', hb', h⟩ := h.of_lift
      obtain rfl : b = b' := Option.some.inj (hb.symm.trans (bitassetData_eq_ok.mp hb'))
      obtain ⟨-, h⟩ := of_require h
      obtain ⟨-, h⟩ := of_require h
      exact (of_require h).2
    · intro h
      exact ⟨a, ha, Returns.lift_bind_iff.mpr ⟨b, bitassetData_eq_ok.mpr hb,
        returns_require_bind.mpr ⟨hsettled, returns_require_bind.mpr ⟨hmarket,
          returns_require_bind.mpr ⟨hfeed, h⟩⟩⟩⟩⟩
  rcases eq_or_lt_of_le hnonneg with hzero | hpos
  · -- nothing is owed, so there is nothing to hand over
    have hempty : a.currentSupply = 0 := hsupply.trans hzero.symm
    refine iff_of_true ?_ (.inl hempty)
    obtain ⟨s', hcancel, hover⟩ := hs.returns_cancel hb hmarket ha rfl rfl
      (by rw [issuerCalls, if_neg (by omega)]; rfl) fun _ => rfl
    refine ⟨s', (hrevive s').mpr ?_, hover⟩
    rw [if_neg (by omega)]
    exact returns_require_bind.mpr ⟨hfund.trans (hsound.empty hzero.symm), hcancel⟩
  · have hpositive : 0 < a.currentSupply := hsupply ▸ hpos
    rw [or_iff_right hpositive.ne']
    constructor
    · rintro ⟨s', h, -⟩
      have h := (hrevive s').mp h
      rw [if_pos hpositive] at h
      obtain ⟨u, s1, hexecute, -⟩ := h.of_bind
      exact ((hs.returns_executePseudoBid_iff ha hb hissuer).mp hexecute).1
    · intro hfree
      have hexecute := (hs.returns_executePseudoBid_iff (u := ()) ha hb hissuer).mpr ⟨hfree, rfl⟩
      obtain ⟨s', hcancel, hover⟩ := hs.returns_cancel (t := withIssuerCall mia a b s) hb hmarket ha
        rfl rfl (by rw [issuerCalls, if_pos hpositive]; rfl) (find_remove_create _ _)
      refine ⟨s', (hrevive s').mpr ?_, hover⟩
      rw [if_pos hpositive]
      exact Returns.bind_iff.mpr ⟨(), _, hexecute, hcancel⟩

/-- Between the global settlement of an asset with a valid feed and its revival: where
`asset_publish_feeds_evaluator` decides to revive the asset, the revival completes exactly if
nothing is owed, or the issuer has no bid; where `process_bids` does, it completes always. -/
theorem revival_completes_iff (hreach : Reachable bidStep (AfterGlobalSettlement mia) (Concerns mia) s)
    (ha : s.assets.find mia = some a) (hb : a.bitasset = some b)
    (hissuer : (s.accounts.find a.issuer).isSome) (hmarket : b.isPredictionMarket = false)
    (hfeed : ¬b.currentFeed.settlementPrice.isNull) (hvalid : b.currentFeed.validate = .ok ()) :
    (shouldRevive mia a b → ((∃ s', Returns (reviveOnFeed mia) s () s' ∧ HandedOver mia a b s s') ↔
        a.currentSupply = 0 ∨ HasNoBid mia a.issuer s)) ∧
    ∀ covered chosen, 0 < b.settlementPrice.quote.amount →
      coverSupply b a.currentSupply 0 (bidsByPrice b.options.shortBackingAsset mia s) =
        .ok (covered, chosen) → a.currentSupply ≤ covered →
      ∃ s' cancelled shares, Returns (reviveByBids mia mia b a.currentSupply chosen) s () s' ∧
        RevivedBy mia a b chosen cancelled shares s s' := by
  obtain ⟨backing, f, hs⟩ := Biddable.of_reachable hreach
  obtain ⟨rfl, hprice, hfund, hsupply⟩ := hs.solvent.holds.of_find ha hb
  have hsettled := hasSettlement_of_price hs.solvent.distinct hprice
  constructor
  · intro hdecides
    rw [← hs.reviveBitasset_iff ha hb hissuer hmarket hfeed]
    have hsame : ∀ s', Returns (reviveOnFeed mia) s () s' ↔ Returns (reviveBitasset mia) s () s' := by
      intro s'
      unfold reviveOnFeed
      rw [returns_fetch_bind]
      constructor
      · rintro ⟨a', ha', h⟩
        obtain rfl : a = a' := Option.some.inj (ha.symm.trans ha')
        obtain ⟨b', hb', h⟩ := h.of_lift
        obtain rfl : b = b' := Option.some.inj (hb.symm.trans (bitassetData_eq_ok.mp hb'))
        rcases returns_onlyIf.mp h with ⟨-, h⟩ | ⟨hfalse, -⟩
        · rcases returns_onlyIf.mp h with ⟨-, h⟩ | ⟨hfalse, -⟩
          · exact h
          · exact absurd hdecides hfalse
        · exact absurd ⟨hsettled, hfeed⟩ hfalse
      · intro h
        exact ⟨a, ha, Returns.lift_bind_iff.mpr ⟨b, bitassetData_eq_ok.mpr hb,
          returns_onlyIf.mpr (.inl ⟨⟨hsettled, hfeed⟩, returns_onlyIf.mpr (.inl ⟨hdecides, h⟩)⟩)⟩⟩
    simp only [hsame]
  · intro covered chosen hpos hcover hle
    rw [hsupply] at hcover hle ⊢
    have hgathered : 0 < f.gathered0 := by
      rw [hprice] at hpos
      exact hpos
    obtain ⟨⟨cancelled, hsplit⟩, hcovered⟩ := coverSupply_spec hcover
    rw [zero_add] at hcovered
    obtain ⟨s', shares, hrevive, hrevived⟩ := hs.returns_reviveByBids
      (hs.settling hgathered hprice hvalid) ha hb hmarket hsplit.symm (hcovered ▸ hle)
    exact ⟨s', cancelled, shares, hrevive, hrevived⟩

/-- An account owes and holds all of the second asset, which the third one backs and account 1
issues; accounts 1 and 2 hold the third. -/
def issuerState : State where
  accounts := (((Index.create ∅ ⟨0, 0, 0, [], [], none, 0, 0, 0⟩).create
    ⟨0, 0, 0, [], [], none, 0, 0, 0⟩).create ⟨0, 0, 0, [], [], none, 0, 0, 0⟩).create
    ⟨0, 0, 0, [], [], none, 0, 0, 0⟩
  balances := ((AList.insert (3, 1) 100 ∅).insert (2, 2) 10).insert (1, 2) 10
  assets := ((Index.create ∅
    { issuer := 0, options := { coreExchangeRate := ⟨⟨1, core⟩, ⟨1, core⟩⟩ } }).create
    { issuer := 1, options := { coreExchangeRate := ⟨⟨1, 1⟩, ⟨1, core⟩⟩ }
      currentSupply := 100
      bitasset := some
        { options := { shortBackingAsset := 2 }
          currentFeed := { settlementPrice := ⟨⟨100, 1⟩, ⟨1, 2⟩⟩ }
          currentMaintenanceCollateralization := ⟨⟨7, 2⟩, ⟨400, 1⟩⟩ } }).create
    { issuer := 0, options := { coreExchangeRate := ⟨⟨1, 2⟩, ⟨1, core⟩⟩ }, currentSupply := 30 }
  callOrders := Index.create ∅ ⟨3, 10, 100, ⟨⟨1, 2⟩, ⟨1, 1⟩⟩, none⟩

theorem unsettled_issuerState : Unsettled issuerState where
  issued := {
    nonneg := balancesNonneg_iff.mpr (by decide)
    calls := Index.forall_find_iff.mpr (by decide)
    held := by
      rintro a ⟨⟩
      decide
    owed := by
      rintro a ⟨⟩
      decide }
  bids := Index.forall_find_iff.mpr (by decide)
  calls := Index.forall_find_iff.mpr (by decide)
  backing := by decide

theorem revival_completes_other :
    ∃ s a b, Reachable bidStep (AfterGlobalSettlement 1) (Concerns 1) s ∧
      s.assets.find 1 = some a ∧ a.bitasset = some b ∧ a.currentSupply = 100 ∧
      s.collateralBids.rows.entries.length = 1 ∧ shouldRevive 1 a b ∧
      ∃ s', Returns (reviveOnFeed 1) s () s' ∧ HandedOver 1 a b s s' := by
  obtain ⟨s, hreach, hone, hfree, haccount, ⟨a, b⟩, hab, hissuer, hsupply, hmarket, hfeed,
      ⟨⟨⟩, hvalid, -⟩, hdecides⟩ :=
    unsettled_issuerState.reaches ⟨⟨10, 1⟩, ⟨1, 2⟩⟩ [(2, 50)] (fun s =>
        s.collateralBids.rows.entries.length = 1 ∧
        (∀ e ∈ s.collateralBids.rows.entries, e.2.debtType = 1 → e.2.bidder ≠ 1) ∧
        (s.accounts.find 1).isSome ∧
        ∃ p ∈ bitassetOf 1 s, p.1.issuer = 1 ∧ p.1.currentSupply = 100 ∧
          p.2.isPredictionMarket = false ∧ ¬p.2.currentFeed.settlementPrice.isNull ∧
          Succeeds p.2.currentFeed.validate (fun _ => True) ∧ shouldRevive 1 p.1 p.2)
      (by decide +kernel)
  obtain ⟨ha, hb⟩ := bitassetOf_eq_some.mp hab
  dsimp only at hissuer
  have hcompletes := (revival_completes_iff hreach ha hb (hissuer ▸ haccount) hmarket hfeed hvalid).1
    hdecides
  refine ⟨s, a, b, hreach, ha, hb, hsupply, hone, hdecides, hcompletes.mpr (.inr ?_)⟩
  rw [hissuer]
  exact Index.forall_find_iff.mpr hfree

/-- With a bid of the issuer himself, every feed that covers the fund throws. -/
theorem revival_fails_issuer :
    ∃ s a b, Reachable bidStep (AfterGlobalSettlement 1) (Concerns 1) s ∧
      s.assets.find 1 = some a ∧ a.bitasset = some b ∧ (s.accounts.find a.issuer).isSome ∧
      b.isPredictionMarket = false ∧ ¬b.currentFeed.settlementPrice.isNull ∧
      b.currentFeed.validate = .ok () ∧ shouldRevive 1 a b ∧
      ¬∃ s', Returns (reviveOnFeed 1) s () s' := by
  obtain ⟨s, hreach, ⟨⟨a, b⟩, hab, haccount, hmarket, hfeed, ⟨⟨⟩, hvalid, -⟩, hdecides⟩, hthrows⟩ :=
    unsettled_issuerState.reaches ⟨⟨10, 1⟩, ⟨1, 2⟩⟩ [(1, 50)] (fun s =>
        (∃ p ∈ bitassetOf 1 s, (s.accounts.find p.1.issuer).isSome ∧
          p.2.isPredictionMarket = false ∧ ¬p.2.currentFeed.settlementPrice.isNull ∧
          Succeeds p.2.currentFeed.validate (fun _ => True) ∧ shouldRevive 1 p.1 p.2) ∧
        ¬Succeeds (commit (reviveOnFeed 1) s) fun _ => True) (by decide +kernel)
  obtain ⟨ha, hb⟩ := bitassetOf_eq_some.mp hab
  refine ⟨s, a, b, hreach, ha, hb, haccount, hmarket, hfeed, hvalid, hdecides, ?_⟩
  rintro ⟨s', hreturns⟩
  exact hthrows ⟨s', commit_eq_ok.mpr ⟨(), hreturns⟩, trivial⟩

end Meta1Core.Settlement
