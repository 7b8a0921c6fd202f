import Meta1Core.Settlement.Solvency

/-!
# The bids on a globally settled asset

While an asset is under global settlement it has no call orders, and every account has at most one
bid on it.
-/

namespace Meta1Core.Settlement

open Lib (Rows Index Returns Relates Raises Reachable Succeeds commit commit_eq_ok)
open Protocol Ledger Market

variable {s s' t : State} {mia backing : AssetId} {f : Fund}

def lockedCore (s : State) : Int := s.accounts.total fun _ a => a.totalCoreInOrders

structure SameLocked (s s' : State) : Prop where
  find : ∀ id, (s'.accounts.find id).map AccountObject.totalCoreInOrders =
    (s.accounts.find id).map AccountObject.totalCoreInOrders
  total : lockedCore s' = lockedCore s

/-- Between `s` and `s'` the bids, the call orders and what accounts have in orders stay, and every
asset but one. -/
structure BidsKept (mia : AssetId) (s s' : State) : Prop where
  bids : s'.collateralBids = s.collateralBids
  calls : s'.callOrders = s.callOrders
  locked : SameLocked s s'
  assets : ∀ id, id ≠ mia → s'.assetView id = s.assetView id

theorem SameLocked.refl (s : State) : SameLocked s s := ⟨fun _ => rfl, rfl⟩

theorem SameLocked.trans (h : SameLocked s s') (h' : SameLocked s' t) : SameLocked s t :=
  ⟨fun id => (h'.find id).trans (h.find id), h'.total.trans h.total⟩

theorem SameLocked.of_accounts (h : s'.accounts = s.accounts) : SameLocked s s' := by
  refine ⟨fun id => by rw [h], ?_⟩
  unfold lockedCore
  rw [h]

namespace BidsKept

theorem refl (mia : AssetId) (s : State) : BidsKept mia s s :=
  ⟨rfl, rfl, .refl s, fun _ _ => rfl⟩

theorem trans (h : BidsKept mia s s') (h' : BidsKept mia s' t) : BidsKept mia s t where
  bids := h'.bids.trans h.bids
  calls := h'.calls.trans h.calls
  locked := h.locked.trans h'.locked
  assets id hne := (h'.assets id hne).trans (h.assets id hne)

instance : Std.Refl (BidsKept mia) := ⟨refl mia⟩

instance : IsTrans State (BidsKept mia) := ⟨fun _ _ _ => trans⟩

theorem of_feesOnly (h : FeesOnly s s') (hlocked : SameLocked s s') : BidsKept mia s s' :=
  ⟨h.collateralBids, h.callOrders, hlocked, fun id _ => h.assets id⟩

theorem adjustBalance (account : AccountId) (delta : Asset) :
    Relates (BidsKept mia) (adjustBalance account delta) := by
  intro s u s' h
  refine of_feesOnly (adjustBalance_feesOnly _ _ _ _ _ h) (.of_accounts ?_)
  rw [adjustBalance_frame h]

theorem updateAccount {id : AccountId} {g : AccountObject → Except Exception AccountObject}
    (hg : ∀ a a', g a = .ok a' → a'.totalCoreInOrders = a.totalCoreInOrders) :
    Relates (BidsKept mia) (accounts.update id g) := by
  intro s u s' h
  refine of_feesOnly (updateAccount_feesOnly _ _ _ _ _ h) ?_
  obtain ⟨a, a', ha, ha', rfl⟩ := Table.update_iff.mp h
  have hfind : s.accounts.find id = some a := ha
  refine ⟨fun id' => ?_, ?_⟩
  · change ((s.accounts.modify id fun _ => a').find id').map _ = _
    rw [Index.find_modify]
    split
    · rename_i heq
      rw [heq, hfind]
      exact congrArg some (hg a a' ha')
    · rfl
  · change (s.accounts.modify id fun _ => a').total _ = s.accounts.total _
    rw [Index.total_modify _ hfind, hg a a' ha']
    omega

theorem updateAsset (g : AssetObject → Except Exception AssetObject) :
    Relates (BidsKept mia) (Ledger.assets.update mia g) := by
  intro s u s' h
  obtain ⟨a, a', -, -, hs', hview⟩ := assetView_of_update h
  refine ⟨by rw [hs'], by rw [hs'], .of_accounts (by rw [hs']), fun id hne => ?_⟩
  rw [hview, if_neg hne]

theorem convertFee (ctx : TransactionEvaluationState) (fee : Asset) (coreFeePaid : Int) :
    Relates (BidsKept mia) (convertFee ctx fee coreFeePaid) := by
  intro s u s' h
  refine of_feesOnly (convertFee_feesOnly _ _ _ _ _ _ h) (.of_accounts ?_)
  rcases h.of_ite with ⟨-, hupdate⟩ | ⟨-, hpure⟩
  · obtain ⟨_, _, -, -, rfl⟩ := Table.update_iff.mp hupdate
    rfl
  · obtain ⟨-, rfl⟩ := hpure.of_pure
    rfl

theorem payFee (ctx : TransactionEvaluationState) (payer : AccountId) (coreFeePaid : Int) :
    Relates (BidsKept mia) (payFee ctx payer coreFeePaid) := by
  refine .ite (.bind .get fun _ => updateAccount fun a a' h => ?_) (.pure _)
  unfold AccountObject.payFee at h
  split at h
  all_goals
    obtain ⟨_, -, h⟩ := Lib.of_bind h
    cases h
    rfl

theorem deposit (account : AccountId) (delta : Asset) :
    Relates (BidsKept mia) (depositMarketFeeVestingBalance account delta) := by
  intro s u s' h
  refine of_feesOnly (depositMarketFeeVestingBalance_feesOnly _ _ _ _ _ h) (.of_accounts ?_)
  obtain ⟨-, hrest⟩ := of_require h
  rcases hrest.of_ite with ⟨-, hpure⟩ | ⟨-, hdeposit⟩
  · obtain ⟨-, rfl⟩ := hpure.of_pure
    rfl
  have hmatch := hdeposit.of_get
  split at hmatch
  · obtain ⟨_, s1, hcreate, hpure⟩ := hmatch.of_bind
    obtain ⟨-, rfl⟩ := hpure.of_pure
    obtain ⟨-, rfl⟩ := Table.create_iff.mp hcreate
    rfl
  · obtain ⟨_, _, -, -, rfl⟩ := Table.update_iff.mp hmatch
    rfl

theorem payMarketFees (seller : Option AccountObject) (id : AssetId) (receives : Asset)
    (isMaker : Bool) : Relates (BidsKept mia) (payMarketFees seller id receives isMaker) := by
  refine relates_payMarketFees deposit (fun g hg s u s' h => ?_) _ _ _
  refine of_feesOnly (updateAsset_feesOnly _ hg _ _ _ h) (.of_accounts ?_)
  obtain ⟨_, _, -, -, rfl⟩ := Table.update_iff.mp h
  rfl

variable {ctx : TransactionEvaluationState} {requiredFee : Int}

theorem startEvaluate {α β : Type} {payer : AccountId} {fee : Asset} {doEvaluate : Evaluation α}
    {doApply : α → Evaluation β} (hevaluate : Relates (BidsKept mia) doEvaluate)
    (happly : ∀ x, Relates (BidsKept mia) (doApply x)) :
    Relates (BidsKept mia) (startEvaluate ctx payer fee requiredFee doEvaluate doApply) := by
  intro s r s' h
  obtain ⟨_, x, s1, t1, s2, s3, -, h1, h2, h3, h4, h5⟩ := of_startEvaluateWith h
  exact (hevaluate _ _ _ h1).trans ((convertFee _ _ _ _ _ _ h2).trans
    ((payFee _ _ _ _ _ _ h3).trans ((happly x _ _ _ h4).trans (adjustBalance _ _ _ _ _ h5))))

theorem settle {op : AssetSettleOperation} (hasset : op.amount.assetId = mia) :
    Relates (BidsKept mia) (op.evaluate ctx requiredFee) := by
  have hcheck (a : AssetObject) (b : BitassetData) :
      Relates (BidsKept mia) (AssetSettleOperation.checkBitasset a b) :=
    .bind (relates_require _ _) fun _ => .ite (relates_require _ _) (relates_require _ _)
  have hpay (settled : Asset) : Relates (BidsKept mia) (paySettled op.account mia settled) :=
    .ite (.bind (updateAsset _) fun _ => .bind (relates_fetch _ _) fun _ =>
      .bind (payMarketFees _ _ _ _) fun _ => .bind (.lift _) fun _ =>
      .bind (.ite (adjustBalance _ _) (.pure _)) fun _ => .pure _) (.pure _)
  have hsettled (a : AssetObject) (b : BitassetData) :
      Relates (BidsKept mia) (op.applySettled a b) := by
    unfold AssetSettleOperation.applySettled
    rw [hasset]
    exact .bind (.lift _) fun _ => .bind (relates_require _ _) fun _ => .bind (.lift _) fun _ =>
      .bind (adjustBalance _ _) fun _ => .bind (hpay _) fun _ => .bind (updateAsset _) fun _ =>
      .pure _
  refine .bind (.lift _) fun _ => startEvaluate
    (.bind (relates_fetch _ _) fun _ => .bind (.lift _) fun _ => .bind (hcheck _ _) fun _ =>
      .bind (relates_fetch _ _) fun _ => .bind .get fun _ => relates_require _ _) fun _ =>
    .bind (relates_fetch _ _) fun _ => .bind (.lift _) fun _ => .ite (hsettled _ _)
      (.bind (adjustBalance _ _) fun _ => .bind .get fun _ => .bind ?_ fun _ => .pure _)
  intro s id s' h
  obtain ⟨-, rfl⟩ := Table.create_iff.mp h
  exact ⟨rfl, rfl, .of_accounts rfl, fun _ _ => rfl⟩

end BidsKept

def bidCollateral (mia : AssetId) (s : State) : Int :=
  s.collateralBids.total fun _ bid => if bid.debtType = mia then bid.invSwanPrice.base.amount else 0

def collateralInPlay (mia backing : AssetId) (f : Fund) (s : State) : Int :=
  s.publicBalance backing + (if backing = core then lockedCore s else 0) + f.fund +
    bidCollateral mia s

structure GoodBid (backing : AssetId) (s : State) (bid : CollateralBid) : Prop where
  backed : bid.invSwanPrice.base.assetId = backing
  collateral_pos : 0 < bid.invSwanPrice.base.amount
  debt_pos : 0 < bid.invSwanPrice.quote.amount
  bidder : (s.accounts.find bid.bidder).isSome

/-- The asset is under global settlement, solvent and without call orders, its bids are good and no
account has two of them, and there is no more of the backing asset than can be. -/
structure Biddable (mia backing : AssetId) (f : Fund) (s : State) : Prop where
  solvent : Solvent mia backing f s
  priced : f.supply0 = 0 → f.gathered0 = 0
  supply_le : f.supply ≤ maxShareSupply
  noCalls : ∀ id order, s.callOrders.find id = some order → order.debtType ≠ mia
  good : ∀ id bid, s.collateralBids.find id = some bid → bid.debtType = mia →
    GoodBid backing s bid
  unique : ∀ id id' bid bid', s.collateralBids.find id = some bid →
    s.collateralBids.find id' = some bid' → bid.debtType = mia → bid'.debtType = mia →
    bid.bidder = bid'.bidder → id = id'
  locked : ∀ id a, s.accounts.find id = some a → 0 ≤ a.totalCoreInOrders
  maxFee : ∀ a, s.assetView backing = some a → 0 ≤ a.options.maxMarketFee
  conserved : collateralInPlay mia backing f s ≤ maxShareSupply

theorem GoodBid.sameLocked {bid : CollateralBid} (h : GoodBid backing s bid)
    (hlocked : SameLocked s s') : GoodBid backing s' bid := by
  refine ⟨h.backed, h.collateral_pos, h.debt_pos, ?_⟩
  have hsome := congrArg Option.isSome (hlocked.find bid.bidder)
  rw [Option.isSome_map, Option.isSome_map] at hsome
  rw [hsome]
  exact h.bidder

/-- A step that keeps the bids and the call orders keeps the invariant, if it does not create any of
the backing asset. -/
theorem Biddable.kept {f' : Fund} (hs : Biddable mia backing f s) (hkept : BidsKept mia s s')
    (hsolvent : Solvent mia backing f' s') (hsupply0 : f'.supply0 = f.supply0)
    (hgathered0 : f'.gathered0 = f.gathered0) (hsupply : f'.supply ≤ f.supply)
    (hpublic : s'.publicBalance backing + f'.fund ≤ s.publicBalance backing + f.fund) :
    Biddable mia backing f' s' where
  solvent := hsolvent
  priced h := hgathered0.trans (hs.priced (hsupply0.symm.trans h))
  supply_le := hsupply.trans hs.supply_le
  noCalls := by
    rw [hkept.calls]
    exact hs.noCalls
  good := by
    rw [hkept.bids]
    exact fun id bid hbid hdebt => (hs.good id bid hbid hdebt).sameLocked hkept.locked
  unique := by
    rw [hkept.bids]
    exact hs.unique
  locked id a ha := by
    have hfind := hkept.locked.find id
    rw [ha] at hfind
    obtain ⟨a', ha', heq⟩ := Option.map_eq_some_iff.mp hfind.symm
    rw [← heq]
    exact hs.locked id a' ha'
  maxFee := by
    rw [hkept.assets backing hsolvent.distinct]
    exact hs.maxFee
  conserved := by
    have hconserved := hs.conserved
    unfold collateralInPlay bidCollateral at hconserved ⊢
    rw [hkept.bids, hkept.locked.total]
    omega

theorem calculatePercent_nonneg {value : Int} {percent : Nat} {r : Int}
    (h : calculatePercent value percent = .ok r) : 0 ≤ r := by
  obtain ⟨-, hr⟩ := of_fcAssert h
  cases hr
  exact Int.natCast_nonneg _

variable {a : AssetObject}

theorem calculateMarketFee_nonneg {id : AssetId} {amount fees : Asset} {isMaker : Bool}
    (hmax : 0 ≤ a.options.maxMarketFee) (h : calculateMarketFee id a amount isMaker = .ok fees) :
    0 ≤ fees.amount := by
  unfold calculateMarketFee at h
  dsimp only at h
  split at h
  · cases h
    exact Int.le_refl 0
  split at h
  · cases h
    exact Int.le_refl 0
  split at h
  · cases h
    exact Int.le_refl 0
  obtain ⟨value, hvalue, hfees⟩ := Lib.of_bind h
  cases hfees
  exact le_min (calculatePercent_nonneg hvalue) hmax

theorem paySettled_le {account : AccountId} {settled received : Asset}
    (h : Returns (paySettled account mia settled) s received s')
    (hnonneg : 0 ≤ settled.amount) (hbalances : s.BalancesNonneg) (hne : settled.assetId ≠ mia)
    (hmax : ∀ a, s.assetView settled.assetId = some a → 0 ≤ a.options.maxMarketFee) :
    s'.publicBalance settled.assetId ≤ s.publicBalance settled.assetId + settled.amount := by
  rcases h.of_ite with ⟨-, hpaid⟩ | ⟨-, hpure⟩
  · obtain ⟨_, s1, hfund, h1⟩ := hpaid.of_bind
    obtain ⟨payer, -, h2⟩ := of_fetch h1
    obtain ⟨fees, s3, hpay, h3⟩ := h2.of_bind
    obtain ⟨amount, hsub, h4⟩ := h3.of_lift
    obtain ⟨_, s4, hadjust, hpure⟩ := h4.of_bind
    obtain ⟨-, rfl⟩ := hpure.of_pure
    have hsame : SameBalances s s3 := IsTrans.trans _ _ _
      (updateBitasset_sameBalances _ _ _ _ _ hfund) (payMarketFees_sameBalances _ _ _ _ _ _ _ hpay)
    have hfees : 0 ≤ fees.amount := by
      obtain ⟨a, ha, hrest⟩ := of_fetch hpay
      obtain ⟨fees', hcalculate, hrest⟩ := hrest.of_lift
      obtain ⟨_, _, -, hpure⟩ := hrest.of_bind
      obtain ⟨rfl, -⟩ := hpure.of_pure
      obtain ⟨_, _, _, -, -, -, -, hview⟩ := of_updateBitasset hfund
      have hview' := State.assetView_of_find ha
      rw [hview, if_neg hne] at hview'
      exact calculateMarketFee_nonneg (hmax _ hview') hcalculate
    obtain ⟨-, rfl⟩ := Asset.sub_eq_ok hsub
    rcases returns_onlyIf.mp hadjust with ⟨-, hadjust⟩ | ⟨-, heq⟩
    · obtain ⟨-, -, hpublic, -⟩ := adjustBalance_spec hadjust (balancesNonneg_congr hsame hbalances)
      rw [hpublic, if_pos rfl, publicBalance_congr hsame]
      dsimp only
      omega
    · rw [heq, publicBalance_congr hsame]
      omega
  · obtain ⟨-, rfl⟩ := hpure.of_pure
    omega

variable {ctx : TransactionEvaluationState} {requiredFee : Int}

theorem Biddable.settle {op : AssetSettleOperation} {r : SettleResult}
    (hs : Biddable mia backing f s) (hasset : op.amount.assetId = mia)
    (h : Returns (op.evaluate ctx requiredFee) s r s') :
    Biddable mia backing (f.settle op.amount.amount) s' := by
  have hkept := BidsKept.settle hasset _ _ _ h
  have hsolvent := AssetSettleOperation.evaluate_spec hs.solvent hasset h
  obtain ⟨a, b, s2, s3, hfee, hnonneg, hle, hfees, hbalances, ha, hb, hsettled, hadjust⟩ :=
    AssetSettleOperation.of_evaluate hs.solvent hasset h
  have hs2 := hs.solvent.feesPaid hfees hbalances
  obtain ⟨-, hnonneg3, -, hpos⟩ :=
    AssetSettleOperation.applySettled_spec hs2 hasset hnonneg ha hb hsettled
  refine hs.kept hkept hsolvent rfl rfl ?_ ?_
  · have hburned : 0 ≤ f.burned op.amount.amount := by
      by_cases heq : op.amount.amount = f.supply
      · unfold Fund.burned
        rw [if_neg (fun hand => hand.1 heq)]
        exact hnonneg
      · exact (hs.solvent.sound.burned_spec hpos hnonneg heq).2.2
    change f.supply - f.burned op.amount.amount ≤ f.supply
    omega
  · obtain ⟨received, t1, t2, -, hburn, hpay, hsupply⟩ :=
      AssetSettleOperation.of_applySettled hs2 hasset ha hb hsettled
    obtain ⟨-, hnonneg1, hpublic1, -⟩ := adjustBalance_spec hburn hs2.nonneg
    have hview : t1.assetView backing = s.assetView backing := by
      rw [(adjustBalance_feesOnly _ _ _ _ _ hburn).assets, hfees.assets]
    have hreceived := paySettled_le hpay (hs.solvent.sound.taken_nonneg hnonneg) hnonneg1
      hs.solvent.distinct (by rw [hview]; exact hs.maxFee)
    have hsame := adjustSupply_sameBalances _ _ _ _ _ hsupply
    have hpaid := AssetSettleOperation.publicBalance_fee_le hfee hnonneg3 hadjust backing
    have hpublic2 := hpublic1 backing
    rw [if_neg hs.solvent.distinct, add_zero, publicBalance_congr hbalances] at hpublic2
    rw [publicBalance_congr hsame] at hpaid
    dsimp only at hreceived
    change s'.publicBalance backing + (f.fund - f.taken op.amount.amount) ≤ _
    omega

/-- A step that moves only balances and bids keeps the invariant, if the bids stay good and nothing
of the backing asset is created. -/
theorem Biddable.rebid (hs : Biddable mia backing f s)
    (hframe : s' = { s with balances := s'.balances, collateralBids := s'.collateralBids })
    (hnonneg : s'.BalancesNonneg) (hmia : s'.publicBalance mia ≤ s.publicBalance mia)
    (hgood : ∀ id bid, s'.collateralBids.find id = some bid → bid.debtType = mia →
      GoodBid backing s bid)
    (hunique : ∀ id id' bid bid', s'.collateralBids.find id = some bid →
      s'.collateralBids.find id' = some bid' → bid.debtType = mia → bid'.debtType = mia →
      bid.bidder = bid'.bidder → id = id')
    (hconserved : s'.publicBalance backing + bidCollateral mia s' ≤
      s.publicBalance backing + bidCollateral mia s) : Biddable mia backing f s' := by
  have haccounts : s'.accounts = s.accounts := by rw [hframe]
  have hassets : s'.assets = s.assets := by rw [hframe]
  have hcalls : s'.callOrders = s.callOrders := by rw [hframe]
  have hview (id : AssetId) : s'.assetView id = s.assetView id := by
    unfold State.assetView
    rw [hassets]
  have hlocked : SameLocked s s' := .of_accounts haccounts
  refine ⟨⟨?_, hs.solvent.sound, hs.solvent.distinct, hnonneg, hmia.trans hs.solvent.held⟩, hs.priced,
    hs.supply_le, ?_, fun id bid hbid hdebt => (hgood id bid hbid hdebt).sameLocked hlocked,
    hunique, ?_, ?_, ?_⟩
  · unfold Holds
    rw [hview]
    exact hs.solvent.holds
  · rw [hcalls]
    exact hs.noCalls
  · rw [haccounts]
    exact hs.locked
  · rw [hview]
    exact hs.maxFee
  · have hbound := hs.conserved
    unfold collateralInPlay at hbound ⊢
    rw [hlocked.total]
    omega

variable {u : Unit}

theorem Biddable.cancelBid {id : Nat} (hs : Biddable mia backing f s)
    (h : Returns (cancelBid id) s u s')
    (hdebt : ∀ bid, s.collateralBids.find id = some bid → bid.debtType = mia) :
    Biddable mia backing f s' := by
  obtain ⟨bid, hbid, h1⟩ := of_fetch h
  have hfind : s.collateralBids.find id = some bid := hbid
  obtain ⟨_, s1, hrefund, hremove⟩ := h1.of_bind
  have hframe := adjustBalance_frame hrefund
  obtain ⟨-, hnonneg, hpublic, -⟩ := adjustBalance_spec hrefund hs.solvent.nonneg
  have hs' : s' = { s1 with collateralBids := s.collateralBids.remove id } := by
    rw [Table.remove_iff.mp hremove, hframe]
    rfl
  have hbacked := (hs.good id bid hfind (hdebt bid hfind)).backed
  have hbids (id' : Nat) (bid' : CollateralBid) (h : s'.collateralBids.find id' = some bid') :
      s.collateralBids.find id' = some bid' := by
    rw [hs'] at h
    change (s.collateralBids.remove id).find id' = some bid' at h
    rw [Index.find_remove] at h
    split at h
    · cases h
    · exact h
  have hsame : s'.balances = s1.balances := by rw [hs']
  refine hs.rebid (by rw [hs', hframe]) (balancesNonneg_congr hsame hnonneg) ?_
    (fun id' bid' hbid' => hs.good id' bid' (hbids _ _ hbid'))
    (fun i j b b' hb hb' => hs.unique i j b b' (hbids _ _ hb) (hbids _ _ hb')) ?_
  · rw [publicBalance_congr hsame, hpublic, hbacked, if_neg hs.solvent.distinct.symm, add_zero]
  · have htotal : bidCollateral mia s' = bidCollateral mia s - bid.invSwanPrice.base.amount := by
      unfold bidCollateral
      rw [hs']
      change (s.collateralBids.remove id).total _ = _
      rw [Index.total_remove _ hfind, if_pos (hdebt bid hfind)]
    rw [htotal, publicBalance_congr hsame, hpublic, hbacked, if_pos rfl]
    omega

def BidCollateralOperation.newBid (op : BidCollateralOperation) : CollateralBid :=
  ⟨op.bidder, ⟨op.additionalCollateral, op.debtCovered⟩⟩

variable {op : BidCollateralOperation}

theorem Biddable.placeBid (hs : Biddable mia backing f s) (h : Returns op.placeBid s u s')
    (hdebt : op.debtCovered.assetId = mia) (hbacked : op.additionalCollateral.assetId = backing)
    (hpos : 0 < op.debtCovered.amount ∧ 0 < op.additionalCollateral.amount)
    (hbidder : (s.accounts.find op.bidder).isSome) : Biddable mia backing f s' := by
  obtain ⟨_, s1, hpay, h1⟩ := h.of_bind
  have hframe := adjustBalance_frame hpay
  obtain ⟨-, hnonneg, hpublic, -⟩ := adjustBalance_spec hpay hs.solvent.nonneg
  obtain ⟨price, hdiv, h2⟩ := h1.of_lift
  obtain ⟨-, hprice⟩ := of_fcAssert hdiv
  cases hprice
  obtain ⟨_, s2, hcreate, hpure⟩ := h2.of_bind
  obtain ⟨-, rfl⟩ := hpure.of_pure
  obtain ⟨hnone, hnew⟩ := of_require (hcreate.of_get)
  obtain ⟨-, hs2⟩ := Table.create_iff.mp hnew
  have hbidsSame : s1.collateralBids = s.collateralBids := by rw [hframe]
  rw [hbidsSame] at hnone
  have hs' : s' = { s1 with collateralBids := s.collateralBids.create op.newBid } := by
    rw [hs2, ← hbidsSame]
    rfl
  have hbids (id : Nat) (bid : CollateralBid) (h : s'.collateralBids.find id = some bid) :
      s.collateralBids.find id = some bid ∨ id = s.collateralBids.next ∧
        bid = op.newBid := by
    rw [hs'] at h
    change (s.collateralBids.create _).find id = some bid at h
    rw [Index.find_create] at h
    split at h
    · exact .inr ⟨‹_›, (Option.some.inj h).symm⟩
    · exact .inl h
  -- no bid of the bidder on the asset was there before
  have hfresh (id : Nat) (bid : CollateralBid) (h : s.collateralBids.find id = some bid)
      (hdebt' : bid.debtType = mia) : bid.bidder ≠ op.bidder := by
    intro heq
    have hfalse := Index.of_findId_eq_none hnone h
    have htrue : bid.debtType = op.debtCovered.assetId := hdebt'.trans hdebt.symm
    simp only [heq, htrue, decide_eq_false_iff_not] at hfalse
    exact hfalse ⟨trivial, rfl⟩
  have hsame : s'.balances = s1.balances := by rw [hs']
  refine hs.rebid (by rw [hs', hframe]) (balancesNonneg_congr hsame hnonneg) ?_ ?_ ?_ ?_
  · rw [publicBalance_congr hsame, hpublic]
    have hid : op.additionalCollateral.neg.assetId = backing := hbacked
    rw [hid, if_neg hs.solvent.distinct.symm, add_zero]
  · intro id bid hbid hdebt'
    rcases hbids id bid hbid with hold | ⟨-, rfl⟩
    · exact hs.good id bid hold hdebt'
    · exact ⟨hbacked, hpos.2, hpos.1, hbidder⟩
  · intro i j b b' hb hb' hb1 hb2 heq
    rcases hbids i b hb with hold | ⟨hi, rfl⟩ <;> rcases hbids j b' hb' with hold' | ⟨hj, rfl⟩
    · exact hs.unique i j b b' hold hold' hb1 hb2 heq
    · exact absurd heq (hfresh i b hold hb1)
    · exact absurd heq.symm (hfresh j b' hold' hb2)
    · exact hi.trans hj.symm
  · have htotal : bidCollateral mia s' = bidCollateral mia s + op.additionalCollateral.amount := by
      unfold bidCollateral
      rw [hs']
      change (s.collateralBids.create _).total _ = _
      rw [Index.total_create]
      exact congrArg _ (if_pos hdebt)
    have hid : op.additionalCollateral.neg.assetId = backing := hbacked
    rw [htotal, publicBalance_congr hsame, hpublic, hid, if_pos rfl]
    change s.publicBalance backing + -op.additionalCollateral.amount + _ ≤ _
    omega

theorem BidCollateralOperation.of_doEvaluate {bid : Option Nat} (h : Returns op.doEvaluate s bid s') :
    s' = s ∧ (s.accounts.find op.bidder).isSome ∧ bid = op.find s ∧
      ∃ a b, s.assets.find op.debtCovered.assetId = some a ∧ a.bitasset = some b ∧
        op.additionalCollateral.assetId = b.options.shortBackingAsset := by
  obtain ⟨account, haccount, h1⟩ := of_fetch h
  obtain ⟨a, ha, h2⟩ := of_fetch h1
  obtain ⟨b, hb, h3⟩ := h2.of_lift
  obtain ⟨-, h4⟩ := of_require h3
  obtain ⟨hbacking, h5⟩ := of_require h4
  obtain ⟨-, h6⟩ := of_require h5
  obtain ⟨_, s1, hbalance, h7⟩ := h6.of_bind
  have hs1 : s1 = s := by
    rcases returns_onlyIf.mp hbalance with ⟨-, hrequire⟩ | ⟨-, heq⟩
    · exact (returns_require.mp (hrequire.of_get)).2
    · exact heq
  rw [hs1] at h7
  obtain ⟨-, h8⟩ := of_require (h7.of_get)
  obtain ⟨hbid, hs'⟩ := h8.of_pure
  have hsome : s.accounts.find op.bidder = some account := haccount
  exact ⟨hs', by rw [hsome]; rfl, hbid, a, b, ha, bitassetData_eq_ok.mp hb, hbacking⟩

theorem Biddable.bid (hs : Biddable mia backing f s) (hasset : op.debtCovered.assetId = mia)
    (h : Returns (op.evaluate ctx requiredFee) s u s') : Biddable mia backing f s' := by
  obtain ⟨_, hvalid, h1⟩ := h.of_lift
  obtain ⟨hfee, hvalid⟩ := of_fcAssert hvalid
  have hamounts := fcAssert_eq_ok.mp hvalid
  obtain ⟨coreFeePaid, bid, s1, t1, s2, s3, -, hevaluate, hconvert, hpay, happly, hadjust⟩ :=
    of_startEvaluateWith h1
  obtain ⟨hs1, haccount, hbid, a, b, ha, hb, hbacking⟩ :=
    BidCollateralOperation.of_doEvaluate hevaluate
  rw [hs1] at hconvert
  rw [hasset] at ha
  obtain ⟨hbacking', -⟩ := hs.solvent.holds.of_find ha hb
  -- paying the fee leaves the bids and the balances alone
  have hkept : BidsKept mia s s2 :=
    (BidsKept.convertFee _ _ _ _ _ _ hconvert).trans (BidsKept.payFee _ _ _ _ _ _ hpay)
  have hfees : FeesOnly s s2 :=
    (convertFee_feesOnly _ _ _ _ _ _ hconvert).trans (payFee_feesOnly _ _ _ _ _ _ hpay)
  have hbalances : SameBalances s s2 :=
    IsTrans.trans _ _ _ (convertFee_sameBalances _ _ _ _ _ _ hconvert)
      (payFee_sameBalances _ _ _ _ _ _ hpay)
  have hs2 : Biddable mia backing f s2 :=
    hs.kept hkept (hs.solvent.feesPaid hfees hbalances) rfl rfl (Int.le_refl _)
      (by rw [publicBalance_congr hbalances])
  obtain ⟨_, t2, hcancel, hplace⟩ := happly.of_bind
  have ht2 : Biddable mia backing f t2 ∧ (t2.accounts.find op.bidder).isSome := by
    have haccount2 : (s2.accounts.find op.bidder).isSome := by
      have hsome := congrArg Option.isSome (hkept.locked.find op.bidder)
      rw [Option.isSome_map, Option.isSome_map] at hsome
      rw [hsome]
      exact haccount
    cases bid with
    | none =>
      obtain ⟨-, rfl⟩ := hcancel.of_pure
      exact ⟨hs2, haccount2⟩
    | some id =>
      refine ⟨hs2.cancelBid hcancel fun bid hbid' => ?_, ?_⟩
      · obtain ⟨bid', hfind, hp⟩ := Index.of_findId_eq_some hbid.symm
        rw [hkept.bids] at hbid'
        obtain rfl : bid = bid' := Option.some.inj (hbid'.symm.trans hfind)
        exact (of_decide_eq_true hp).2.trans hasset
      · obtain ⟨_, -, h3⟩ := of_fetch hcancel
        obtain ⟨_, t3, hrefund, hremove⟩ := h3.of_bind
        rw [Table.remove_iff.mp hremove, adjustBalance_frame hrefund]
        exact haccount2
  have hs3 : Biddable mia backing f s3 := by
    rcases returns_onlyIf.mp hplace with ⟨hne, hplaced⟩ | ⟨-, heq⟩
    · exact ht2.1.placeBid hplaced hasset (hbacking.trans hbacking') (hamounts.resolve_left hne)
        ht2.2
    · rw [heq]
      exact ht2.1
  have hkept3 : BidsKept mia s3 s' := BidsKept.adjustBalance _ _ _ _ _ hadjust
  refine hs3.kept hkept3 ⟨hs3.solvent.holds.feesOnly (adjustBalance_feesOnly _ _ _ _ _ hadjust),
    hs3.solvent.sound, hs3.solvent.distinct, (adjustBalance_spec hadjust hs3.solvent.nonneg).2.1,
    ?_⟩ rfl rfl (Int.le_refl _) ?_
  · exact (AssetSettleOperation.publicBalance_fee_le hfee hs3.solvent.nonneg hadjust mia).trans
      hs3.solvent.held
  · have hpaid := AssetSettleOperation.publicBalance_fee_le hfee hs3.solvent.nonneg hadjust backing
    omega

/-- What the ledger promises about an asset: nobody holds more than the supply, and there is no more
of the backing asset in balances, orders, the fund and the bids than can be. -/
structure Accounted (mia : AssetId) (a : AssetObject) (b : BitassetData) (s : State) : Prop where
  nonneg : s.BalancesNonneg
  held : s.publicBalance mia ≤ a.currentSupply
  supply_le : a.currentSupply ≤ maxShareSupply
  locked : ∀ id c, s.accounts.find id = some c → 0 ≤ c.totalCoreInOrders
  maxFee : ∀ c, s.assets.find b.options.shortBackingAsset = some c → 0 ≤ c.options.maxMarketFee
  conserved : s.publicBalance b.options.shortBackingAsset +
    (if b.options.shortBackingAsset = core then lockedCore s else 0) + b.settlementFund +
    bidCollateral mia s ≤ maxShareSupply

/-- The state after a global settlement of an asset without bids, whose call orders are all in the
market -/
def AfterGlobalSettlement (mia : AssetId) (s : State) : Prop :=
  ∃ s0 price, Issued mia s0 ∧ Returns (globallySettleAsset mia price) s0 () s ∧
    (∀ id bid, s0.collateralBids.find id = some bid → bid.debtType ≠ mia) ∧
    (∀ id order a b, s0.callOrders.find id = some order → order.debtType = mia →
      s0.assets.find mia = some a → a.bitasset = some b →
      order.callPrice = ⟨⟨1, b.options.shortBackingAsset⟩, ⟨1, mia⟩⟩) ∧
    ∀ a b, s.assets.find mia = some a → a.bitasset = some b → Accounted mia a b s

/-- What the other operations of the chain leave of an asset under global settlement: nothing can be
borrowed, the bids belong to their bidders, and feeds may change. -/
structure Elsewhere (mia : AssetId) (s t : State) : Prop where
  asset : ∀ a b, s.assets.find mia = some a → a.bitasset = some b →
    ∃ a' b', t.assets.find mia = some a' ∧ a'.bitasset = some b' ∧
      a'.currentSupply = a.currentSupply ∧ b'.settlementPrice = b.settlementPrice ∧
      b'.settlementFund = b.settlementFund ∧
      b'.options.shortBackingAsset = b.options.shortBackingAsset ∧ Accounted mia a' b' t
  bids : ∀ id bid, bid.debtType = mia →
    (t.collateralBids.find id = some bid ↔ s.collateralBids.find id = some bid)
  calls : ∀ id order, t.callOrders.find id = some order → order.debtType = mia →
    s.callOrders.find id = some order
  accounts : ∀ id, (s.accounts.find id).isSome → (t.accounts.find id).isSome

inductive BidEvent where
  | settle (ctx : TransactionEvaluationState) (requiredFee : Int) (op : AssetSettleOperation)
  | bid (ctx : TransactionEvaluationState) (requiredFee : Int) (op : BidCollateralOperation)
  | elsewhere (t : State)

def bidStep (s : State) : BidEvent → Except Exception State
  | .settle ctx requiredFee op => commit (op.evaluate ctx requiredFee) s
  | .bid ctx requiredFee op => commit (op.evaluate ctx requiredFee) s
  | .elsewhere t => .ok t

def Concerns (mia : AssetId) (s : State) : BidEvent → Prop
  | .settle _ _ op => op.amount.assetId = mia
  | .bid _ _ op => op.debtCovered.assetId = mia
  | .elsewhere t => Elsewhere mia s t

/-- What the ledger promises is what the invariant asks for beyond the fund and the bids. -/
theorem Biddable.of_accounted {b : BitassetData} (ha : s.assets.find mia = some a)
    (hb : a.bitasset = some b) (haccounted : Accounted mia a b s) (hholds : Holds mia backing f s)
    (hsound : f.Sound) (hdistinct : backing ≠ mia) (hpriced : f.supply0 = 0 → f.gathered0 = 0)
    (hcalls : ∀ id order, s.callOrders.find id = some order → order.debtType ≠ mia)
    (hgood : ∀ id bid, s.collateralBids.find id = some bid → bid.debtType = mia →
      GoodBid backing s bid) (hunique : ∀ id id' bid bid', s.collateralBids.find id = some bid →
      s.collateralBids.find id' = some bid' → bid.debtType = mia → bid'.debtType = mia →
      bid.bidder = bid'.bidder → id = id') : Biddable mia backing f s := by
  obtain ⟨hbacking, -, hfund, hsupply⟩ := hholds.of_find ha hb
  obtain ⟨hnonneg, hheld, hle, hlocked, hmaxFee, hconserved⟩ := haccounted
  rw [hbacking] at hmaxFee hconserved
  rw [hsupply] at hheld hle
  rw [hfund] at hconserved
  refine ⟨⟨hholds, hsound, hdistinct, hnonneg, hheld⟩, hpriced, hle, hcalls, hgood, hunique, hlocked,
    fun c hc => ?_, hconserved⟩
  obtain ⟨c', hc', rfl⟩ := Option.map_eq_some_iff.mp hc
  exact hmaxFee c' hc'

theorem AfterGlobalSettlement.biddable (h : AfterGlobalSettlement mia s) :
    ∃ backing f, Biddable mia backing f s := by
  obtain ⟨s0, price, hissued, hsettle, hbids, hpar, haccounted⟩ := h
  obtain ⟨a, b, gathered, s1, ha, hb, hdistinct, -, hnil, hcloses, hs, hasset⟩ :=
    of_globallySettleAsset hsettle fun id order horder hdebt => (hissued.calls id order horder hdebt).2
  obtain ⟨a', b', gathered', ha', hb', hsolvent⟩ := globallySettleAsset_spec hsettle hissued
  obtain rfl : a = a' := Option.some.inj (ha.symm.trans ha')
  obtain rfl : b = b' := Option.some.inj (hb.symm.trans hb')
  obtain rfl : gathered = gathered' := (hsolvent.holds.of_find hasset rfl).2.2.1
  have hbidsSame : s.collateralBids = s0.collateralBids := by
    rw [hs]
    exact hcloses.bids
  refine ⟨_, _, .of_accounted hasset rfl (haccounted _ _ hasset rfl) hsolvent.holds hsolvent.sound
    hsolvent.distinct (fun hzero => hnil (hissued.callsByPrice_eq_nil ha hzero)) ?_ ?_ ?_⟩
  · intro id order horder hdebt
    have hcalls : s.callOrders = s1.callOrders := by rw [hs]
    rw [hcalls, hcloses.calls] at horder
    split at horder
    · cases horder
    · rename_i hnotMem
      refine hnotMem (List.mem_map.mpr ⟨⟨id, order⟩, ?_, rfl⟩)
      refine mem_ordered.mpr (List.mem_filter.mpr ⟨Rows.mem_entries_iff.mpr horder, ?_⟩)
      rw [decide_eq_true_iff, hpar id order a b horder hdebt ha hb]
      simp [Price.le, Price.lt, Price.min, Price.max, maxShareSupply]
  · rw [hbidsSame]
    exact fun id bid hbid hdebt => absurd hdebt (hbids id bid hbid)
  · rw [hbidsSame]
    exact fun id id' bid bid' hbid _ hdebt => absurd hdebt (hbids id bid hbid)

theorem Biddable.elsewhere (hs : Biddable mia backing f s) (h : Elsewhere mia s t) :
    Biddable mia backing f t := by
  obtain ⟨a, b, ha, hb⟩ := hs.solvent.holds.exists_find
  obtain ⟨hbacking, hprice, hfund, hsupply⟩ := hs.solvent.holds.of_find ha hb
  obtain ⟨a', b', ha', hb', hsupply', hprice', hfund', hbacking', haccounted⟩ := h.asset a b ha hb
  refine .of_accounted ha' hb' haccounted
    ⟨_, b', State.assetView_of_find ha', hb', hbacking'.trans hbacking, hprice'.trans hprice,
      hfund'.trans hfund, hsupply'.trans hsupply⟩ hs.solvent.sound hs.solvent.distinct hs.priced ?_ ?_
    ?_
  · exact fun id order horder hdebt => hs.noCalls id order (h.calls id order horder hdebt) hdebt
  · intro id bid hbid hdebt
    obtain ⟨hbacked, hcollateral, hpos, hbidder⟩ :=
      hs.good id bid ((h.bids id bid hdebt).mp hbid) hdebt
    exact ⟨hbacked, hcollateral, hpos, h.accounts _ hbidder⟩
  · intro id id' bid bid' hbid hbid' hdebt hdebt' heq
    exact hs.unique id id' bid bid' ((h.bids id bid hdebt).mp hbid)
      ((h.bids id' bid' hdebt').mp hbid') hdebt hdebt' heq

theorem Biddable.of_reachable
    (h : Reachable bidStep (AfterGlobalSettlement mia) (Concerns mia) s) :
    ∃ backing f, Biddable mia backing f s := by
  refine h.invariant (fun s => ∃ backing f, Biddable mia backing f s) (fun s hs => hs.biddable) ?_
  rintro s (⟨ctx, requiredFee, op⟩ | ⟨ctx, requiredFee, op⟩ | t) s' ⟨backing, f, hs⟩ hconcerns hstep
  · obtain ⟨r, hreturns⟩ := commit_eq_ok.mp hstep
    exact ⟨backing, _, hs.settle hconcerns hreturns⟩
  · obtain ⟨u, hreturns⟩ := commit_eq_ok.mp hstep
    exact ⟨backing, f, hs.bid hconcerns hreturns⟩
  · cases hstep
    exact ⟨backing, f, hs.elsewhere hconcerns⟩

end Meta1Core.Settlement
