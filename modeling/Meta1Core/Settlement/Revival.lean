import Meta1Core.Settlement.Bids

/-!
# Revival by bids

`process_bids` follows the bids from the highest price on, until the debt that they cover reaches
the supply.
-/

namespace Meta1Core.Settlement

open Lib (Rows Index Returns Relates Raises Reachable Succeeds commit commit_eq_ok bind_eq_ok of_bind)
open Protocol Ledger Market

variable {s s' t : State} {mia backing : AssetId} {f : Fund} {bad : BitassetData} {supply : Int}

theorem num_mkRat_le {n : Int} {d : Nat} (hn : 0 < n) (hd : d ≠ 0) :
    0 < (mkRat n d).num ∧ (mkRat n d).num ≤ n ∧ (mkRat n d).den ≤ d := by
  have hpos : 0 < mkRat n d := Rat.mkRat_pos hn hd
  rw [Rat.mkRat_eq_divInt] at hpos ⊢
  have hden := Int.le_of_dvd (Int.natCast_pos.mpr (Nat.pos_of_ne_zero hd)) (Rat.den_dvd n d)
  exact ⟨Rat.num_pos.mpr hpos, Int.le_of_dvd hn (Rat.num_dvd n (Int.natCast_ne_zero.mpr hd)),
    Int.ofNat_le.mp hden⟩

theorem shrinkUp_returns (k : Nat) {cp : Rat} (hnum : 0 ≤ cp.num) (hle : cp.num ≤ 2 ^ (k + 62) + 2)
    (hden : cp.den ≤ 2 ^ (k + 62) + 2) : ∃ r, shrinkUp (k + 1) cp = .ok r := by
  induction k generalizing cp with
  | zero =>
    rw [shrinkUp, if_neg]
    · exact ⟨cp, rfl⟩
    · unfold maxShareSupply
      norm_num at hle hden
      omega
  | succ k ih =>
    rw [shrinkUp]
    split
    · have hbound := num_mkRat_le (n := cp.num / 2 + 1) (d := cp.den / 2 + 1) (by omega) (by omega)
      have hpow : (2 : Int) ^ (k + 1 + 62) = 2 * 2 ^ (k + 62) := by ring
      have hpow' : 2 ^ (k + 1 + 62) = 2 * 2 ^ (k + 62) := by ring
      refine ih hbound.1.le (hbound.2.1.trans ?_) (hbound.2.2.trans ?_)
      · omega
      · omega
    · exact ⟨cp, rfl⟩

theorem callPrice_returns {debt collateral : Asset} {ratio : Nat} (hdebt : 0 ≤ debt.amount)
    (hdebtLe : debt.amount ≤ maxShareSupply) (hcollateral : 0 < collateral.amount)
    (hcollateralLe : collateral.amount ≤ maxShareSupply) (hratio : ratio ≤ 32000)
    (hne : collateral.assetId ≠ debt.assetId) : ∃ p, callPrice debt collateral ratio = .ok p := by
  have hq : (debt.amount : Rat) / collateral.amount * mkRat ratio collateralRatioDenom =
      Rat.divInt (debt.amount * ratio) (collateral.amount * collateralRatioDenom) := by
    rw [Rat.mkRat_eq_divInt, Rat.divInt_eq_div, Rat.divInt_eq_div]
    push_cast
    rw [div_mul_div_comm]
  have hmul : 0 ≤ debt.amount * ratio := Int.mul_nonneg hdebt (Int.natCast_nonneg _)
  have hmulLe : debt.amount * ratio ≤ maxShareSupply * 32000 :=
    Int.mul_le_mul hdebtLe (by exact_mod_cast hratio) (Int.natCast_nonneg _) (by decide)
  have hdenPos : 0 < collateral.amount * collateralRatioDenom :=
    Int.mul_pos hcollateral (by decide)
  have hdenLe : collateral.amount * collateralRatioDenom ≤ maxShareSupply * 1000 :=
    Int.mul_le_mul_of_nonneg_right hcollateralLe (by decide)
  have hnumNonneg : 0 ≤ (Rat.divInt (debt.amount * ratio)
      (collateral.amount * collateralRatioDenom)).num :=
    Rat.num_nonneg.mpr (Rat.divInt_nonneg hmul hdenPos.le)
  have hnumLe : (Rat.divInt (debt.amount * ratio)
      (collateral.amount * collateralRatioDenom)).num ≤ debt.amount * ratio := by
    rcases hmul.eq_or_lt with hzero | hpos
    · rw [← hzero, Rat.zero_divInt]
      exact Int.le_refl 0
    · exact Int.le_of_dvd hpos (Rat.num_dvd _ (ne_of_gt hdenPos))
  have hden := Int.le_of_dvd hdenPos (Rat.den_dvd (debt.amount * ratio)
    (collateral.amount * collateralRatioDenom))
  unfold maxShareSupply at hmulLe hdenLe
  unfold callPrice
  rw [fcAssert, if_pos (ne_of_gt hcollateral), hq]
  change ∃ p, (rational128 _ >>= _) = .ok p
  rw [rational128, if_pos]
  · obtain ⟨r, hr⟩ := shrinkUp_returns 127 hnumNonneg (by norm_num; omega) (by norm_num; omega)
    change ∃ p, (shrinkUp 128 _ >>= _) = .ok p
    rw [hr]
    refine ⟨_, fcAssert_bind_eq_ok.mpr ⟨hne, rfl⟩⟩
  · rw [abs_of_nonneg hnumNonneg]
    norm_num
    omega

structure Settling (mia backing : AssetId) (f : Fund) (bad : BitassetData) : Prop where
  sound : f.Sound
  distinct : backing ≠ mia
  gathered_pos : 0 < f.gathered0
  supply_pos : 0 < f.supply0
  supply_le : f.supply ≤ maxShareSupply
  price : bad.settlementPrice = ⟨⟨f.supply0, mia⟩, ⟨f.gathered0, backing⟩⟩
  feed : bad.currentFeed.validate = .ok ()

structure FittingBid (mia backing : AssetId) (f : Fund) (bid : CollateralBid) : Prop where
  debtType : bid.debtType = mia
  backed : bid.invSwanPrice.base.assetId = backing
  collateral_pos : 0 < bid.invSwanPrice.base.amount
  debt_pos : 0 < bid.invSwanPrice.quote.amount
  collateral_le : f.fund + bid.invSwanPrice.base.amount ≤ maxShareSupply

theorem debtInBid_amount (supply : Int) (bid : CollateralBid) :
    (debtInBid supply bid).amount = min bid.invSwanPrice.quote.amount supply := by
  unfold debtInBid
  dsimp only
  split
  · exact (min_eq_right (le_of_lt ‹_›)).symm
  · exact (min_eq_left (not_lt.mp ‹_›)).symm

theorem debtInBid_assetId (supply : Int) (bid : CollateralBid) :
    (debtInBid supply bid).assetId = bid.debtType := by
  unfold debtInBid
  dsimp only
  split <;> rfl

variable {bid : CollateralBid}

theorem debtInBid_nonneg (hbid : 0 < bid.invSwanPrice.quote.amount) (hsupply : 0 ≤ supply) :
    0 ≤ (debtInBid supply bid).amount := by
  rw [debtInBid_amount]
  exact le_min hbid.le hsupply

theorem maintenanceCollateralRatio_le {feed : PriceFeed} (h : feed.validate = .ok ()) :
    feed.maintenanceCollateralRatio ≤ 32000 := by
  have hratios : (do
      fcAssert (1001 ≤ feed.maximumShortSqueezeRatio) "maximum_short_squeeze_ratio"
      fcAssert (feed.maximumShortSqueezeRatio ≤ 32000) "maximum_short_squeeze_ratio"
      fcAssert (1001 ≤ feed.maintenanceCollateralRatio) "maintenance_collateral_ratio"
      fcAssert (feed.maintenanceCollateralRatio ≤ 32000) "maintenance_collateral_ratio") =
      .ok () := by
    unfold PriceFeed.validate at h
    split at h
    · exact (of_bind h).choose_spec.2
    · exact h
  obtain ⟨-, h1⟩ := of_fcAssert hratios
  obtain ⟨-, h2⟩ := of_fcAssert h1
  obtain ⟨-, h3⟩ := of_fcAssert h2
  exact fcAssert_eq_ok.mp h3

theorem Settling.debt_mul (h : Settling mia backing f bad) (hbid : FittingBid mia backing f bid) :
    (debtInBid f.supply bid).mul bad.settlementPrice =
      .ok ⟨(debtInBid f.supply bid).amount * f.gathered0 / f.supply0, backing⟩ := by
  have hnonneg := debtInBid_nonneg hbid.debt_pos h.sound.supply_nonneg
  have hle : (debtInBid f.supply bid).amount ≤ f.supply := by
    rw [debtInBid_amount]
    exact min_le_right _ _
  have hquotient := h.sound.quotient_le h.supply_pos hle
  have hcollateral := hbid.collateral_pos
  have hcollateralLe := hbid.collateral_le
  rw [h.price]
  refine (Asset.mul_base_eq_ok ?_).mpr ⟨h.supply_pos,
    Int.mul_nonneg hnonneg h.sound.gathered0_nonneg, ?_, rfl⟩
  · exact (debtInBid_assetId _ _).trans hbid.debtType
  · dsimp only
    omega

theorem Settling.undercollateralized_returns (h : Settling mia backing f bad)
    (hbid : FittingBid mia backing f bid) : ∃ u, undercollateralized bad f.supply bid = .ok u := by
  have hnonneg := debtInBid_nonneg hbid.debt_pos h.sound.supply_nonneg
  have hle : (debtInBid f.supply bid).amount ≤ f.supply := by
    rw [debtInBid_amount]
    exact min_le_right _ _
  have hquotient := h.sound.quotient_le h.supply_pos hle
  have hquotientNonneg := h.sound.quotient_nonneg hnonneg
  have hcollateral := hbid.collateral_pos
  have hcollateralLe := hbid.collateral_le
  obtain ⟨total, htotal, hid, hpos, htotalLe⟩ : ∃ total : Asset,
      Asset.add ⟨(debtInBid f.supply bid).amount * f.gathered0 / f.supply0, backing⟩
        bid.invSwanPrice.base = .ok total ∧ total.assetId = backing ∧ 0 < total.amount ∧
      total.amount ≤ maxShareSupply := by
    refine ⟨⟨_, _⟩, fcAssert_bind_eq_ok.mpr ⟨hbid.backed.symm, bind_eq_ok.mpr
      ⟨_, safe_eq_ok.mpr ⟨rfl, ?_⟩, rfl⟩⟩, rfl, ?_, ?_⟩
    · unfold maxShareSupply at hcollateralLe
      dsimp only
      omega
    · dsimp only
      omega
    · dsimp only
      omega
  obtain ⟨price, hprice⟩ := callPrice_returns hnonneg (hle.trans h.supply_le) hpos htotalLe
    (maintenanceCollateralRatio_le h.feed)
    (by rw [hid, debtInBid_assetId, hbid.debtType]; exact h.distinct)
  unfold undercollateralized
  dsimp only
  rw [h.debt_mul hbid]
  refine ⟨_, bind_eq_ok.mpr ⟨_, rfl, bind_eq_ok.mpr ⟨_, htotal, bind_eq_ok.mpr
    ⟨_, hprice, rfl⟩⟩⟩⟩

def coverDebt (supply : Int) (bids : List (Σ _ : Nat, CollateralBid)) : Int :=
  (bids.map fun e => (debtInBid supply e.2).amount).sum

def eligible (bad : BitassetData) (supply : Int) (bids : List (Σ _ : Nat, CollateralBid)) :
    List (Σ _ : Nat, CollateralBid) :=
  bids.takeWhile fun e => Succeeds (undercollateralized bad supply e.2) (· = false)

/-- When the debts of the eligible bids are added to `covered` one after the other, the first sum that
reaches the supply is an `int64_t`. -/
def CoverFits (bad : BitassetData) (supply covered : Int) (bids : List (Σ _ : Nat, CollateralBid)) :
    Prop :=
  ∀ k < (eligible bad supply bids).length,
    covered + coverDebt supply ((eligible bad supply bids).take k) < supply →
    covered + coverDebt supply ((eligible bad supply bids).take (k + 1)) < 2 ^ 63

section Cover

variable {covered : Int} {e : Σ _ : Nat, CollateralBid} {bids : List (Σ _ : Nat, CollateralBid)}

theorem coverDebt_cons : coverDebt supply (e :: bids) =
    (debtInBid supply e.2).amount + coverDebt supply bids := by
  unfold coverDebt
  rw [List.map_cons, List.sum_cons]

theorem coverDebt_nonneg (h : ∀ e ∈ bids, 0 ≤ (debtInBid supply e.2).amount) :
    0 ≤ coverDebt supply bids := by
  refine List.sum_nonneg fun x hx => ?_
  obtain ⟨e, he, rfl⟩ := List.mem_map.mp hx
  exact h e he

theorem eligible_cons_of_eligible (h : undercollateralized bad supply e.2 = .ok false) :
    eligible bad supply (e :: bids) = e :: eligible bad supply bids := by
  unfold eligible
  rw [List.takeWhile_cons_of_pos]
  exact decide_eq_true ⟨false, h, rfl⟩

theorem eligible_cons_of_not (h : undercollateralized bad supply e.2 = .ok true) :
    eligible bad supply (e :: bids) = [] := by
  unfold eligible
  rw [List.takeWhile_cons_of_neg]
  intro htrue
  obtain ⟨u, hu, rfl⟩ := of_decide_eq_true htrue
  rw [h] at hu
  cases hu

theorem coverFits_of_le (h : supply ≤ covered)
    (hdebt : ∀ e ∈ bids, 0 ≤ (debtInBid supply e.2).amount) : CoverFits bad supply covered bids := by
  intro k _ hlt
  have hnonneg : 0 ≤ coverDebt supply ((eligible bad supply bids).take k) :=
    coverDebt_nonneg fun e he =>
      hdebt e ((List.takeWhile_sublist _).subset (List.mem_of_mem_take he))
  omega

theorem coverFits_cons (h : undercollateralized bad supply e.2 = .ok false)
    (hlt : covered < supply) :
    CoverFits bad supply covered (e :: bids) ↔
      covered + (debtInBid supply e.2).amount < 2 ^ 63 ∧
        CoverFits bad supply (covered + (debtInBid supply e.2).amount) bids := by
  unfold CoverFits
  rw [eligible_cons_of_eligible h]
  constructor
  · intro hfits
    refine ⟨?_, fun k hk hcovered => ?_⟩
    · have hfirst := hfits 0 (Nat.zero_lt_succ _) (by simpa [coverDebt] using hlt)
      simpa [coverDebt] using hfirst
    · have hnext := hfits (k + 1) (Nat.succ_lt_succ hk)
      rw [List.take_succ_cons, List.take_succ_cons, coverDebt_cons, coverDebt_cons, ← add_assoc,
        ← add_assoc] at hnext
      exact hnext hcovered
  · rintro ⟨hfirst, hrest⟩ k hk hcovered
    cases k with
    | zero => simpa [coverDebt] using hfirst
    | succ k =>
      rw [List.take_succ_cons, coverDebt_cons, ← add_assoc] at hcovered ⊢
      exact hrest k (Nat.lt_of_succ_lt_succ hk) hcovered

theorem coverSupply_returns_iff (hcovered : 0 ≤ covered)
    (hreturns : ∀ e ∈ bids, ∃ u, undercollateralized bad supply e.2 = .ok u)
    (hdebt : ∀ e ∈ bids, 0 ≤ (debtInBid supply e.2).amount) :
    (∃ r, coverSupply bad supply covered bids = .ok r) ↔ CoverFits bad supply covered bids := by
  induction bids generalizing covered with
  | nil => exact iff_of_true ⟨_, rfl⟩ fun k hk => absurd hk (Nat.not_lt_zero k)
  | cons e rest ih =>
    rw [coverSupply]
    by_cases hlt : covered < supply
    swap
    · rw [if_neg hlt]
      exact iff_of_true ⟨_, rfl⟩ (coverFits_of_le (not_lt.mp hlt) hdebt)
    rw [if_pos hlt]
    obtain ⟨u, hu⟩ := hreturns e List.mem_cons_self
    cases u with
    | true =>
      rw [hu]
      refine iff_of_true ⟨_, rfl⟩ ?_
      unfold CoverFits
      rw [eligible_cons_of_not hu]
      exact fun k hk => absurd hk (Nat.not_lt_zero k)
    | false =>
      have hnonneg := hdebt e List.mem_cons_self
      have hsum : 0 ≤ covered + (debtInBid supply e.2).amount := by omega
      have hrest := ih hsum
        (fun e' he' => hreturns e' (List.mem_cons_of_mem _ he'))
        (fun e' he' => hdebt e' (List.mem_cons_of_mem _ he'))
      rw [hu, coverFits_cons hu hlt, ← hrest]
      constructor
      · rintro ⟨r, hr⟩
        obtain ⟨_, hfalse, h1⟩ := of_bind hr
        cases hfalse
        obtain ⟨sum, hsafe, h2⟩ := of_bind h1
        obtain ⟨rfl, -, hfits⟩ := of_safe hsafe
        obtain ⟨r', hr', -⟩ := of_bind h2
        exact ⟨hfits, r', hr'⟩
      · rintro ⟨hfits, r, hr⟩
        exact ⟨_, bind_eq_ok.mpr ⟨false, rfl, bind_eq_ok.mpr
          ⟨_, safe_eq_ok.mpr ⟨rfl, by omega, hfits⟩, bind_eq_ok.mpr ⟨r, hr, rfl⟩⟩⟩⟩

theorem coverSupply_spec {covered' : Int} {chosen : List (Σ _ : Nat, CollateralBid)}
    (h : coverSupply bad supply covered bids = .ok (covered', chosen)) :
    chosen <+: bids ∧ covered' = covered + coverDebt supply chosen := by
  induction bids generalizing covered covered' chosen with
  | nil =>
    cases h
    exact ⟨List.prefix_refl _, (add_zero _).symm⟩
  | cons e rest ih =>
    have hstop : (covered, []) = (covered', chosen) →
        chosen <+: e :: rest ∧ covered' = covered + coverDebt supply chosen := by
      rintro heq
      cases heq
      exact ⟨List.nil_prefix, (add_zero _).symm⟩
    rw [coverSupply] at h
    split at h
    swap
    · exact hstop (Except.ok.inj h)
    obtain ⟨u, -, h1⟩ := of_bind h
    cases u with
    | true => exact hstop (Except.ok.inj h1)
    | false =>
      obtain ⟨sum, hsafe, h2⟩ := of_bind h1
      obtain ⟨rfl, -⟩ := of_safe hsafe
      obtain ⟨⟨c, l⟩, hrest, h3⟩ := of_bind h2
      cases h3
      obtain ⟨hfront, hc⟩ := ih hrest
      rw [coverDebt_cons, ← add_assoc]
      exact ⟨List.cons_prefix_cons.mpr ⟨rfl, hfront⟩, hc⟩

end Cover

def callOf (bid : CollateralBid) (share : Int × Int) : CallOrder :=
  { borrower := bid.bidder, collateral := bid.invSwanPrice.base.amount + share.2, debt := share.1,
    callPrice := ⟨⟨1, bid.invSwanPrice.base.assetId⟩, ⟨1, bid.debtType⟩⟩,
    targetCollateralRatio := none }

def lockCore (amount : Int) (a : AccountObject) : AccountObject :=
  { a with totalCoreInOrders := a.totalCoreInOrders + amount }

def executed (s : State) (e : Σ _ : Nat, CollateralBid) (share : Int × Int) : State :=
  { s with
    callOrders := s.callOrders.create (callOf e.2 share)
    accounts :=
      if e.2.invSwanPrice.base.assetId = core then
        s.accounts.modify e.2.bidder (lockCore (callOf e.2 share).collateral)
      else s.accounts
    collateralBids := s.collateralBids.remove e.1 }

theorem returns_createCallOrder {order : CallOrder}
    (h : ∀ id o, s.callOrders.find id = some o → o.debtType = order.debtType →
      o.borrower ≠ order.borrower) :
    Returns (createCallOrder order) s () { s with callOrders := s.callOrders.create order } := by
  refine Returns.get_bind_iff.mpr (returns_require_bind.mpr ⟨?_, ?_⟩)
  · refine Index.findId_eq_none fun id o ho => decide_eq_false fun hand => ?_
    exact h id o ho hand.2 hand.1
  · exact Returns.bind_iff.mpr ⟨_, _, Table.create_iff.mpr ⟨rfl, rfl⟩, rfl⟩

theorem returns_executeBid {e : Σ _ : Nat, CollateralBid} {share : Int × Int} {a : AccountObject}
    (hfind : s.collateralBids.find e.1 = some e.2)
    (hnew : ∀ id o, s.callOrders.find id = some o → o.debtType = e.2.debtType →
      o.borrower ≠ e.2.bidder)
    (hcollateral : 0 ≤ (callOf e.2 share).collateral ∧ (callOf e.2 share).collateral < 2 ^ 63)
    (ha : s.accounts.find e.2.bidder = some a)
    (hlocked : e.2.invSwanPrice.base.assetId = core → 0 ≤ a.totalCoreInOrders ∧
      a.totalCoreInOrders + (callOf e.2 share).collateral < 2 ^ 63) :
    Returns (executeBid e.1 share.1 share.2) s () (executed s e share) := by
  refine returns_fetch_bind.mpr ⟨e.2, hfind, Returns.lift_bind_iff.mpr ⟨_,
    safe_eq_ok.mpr ⟨rfl, ?_, hcollateral.2⟩, Returns.bind_iff.mpr ⟨(), _,
      returns_createCallOrder hnew, Returns.bind_iff.mpr ⟨(),
        { executed s e share with collateralBids := s.collateralBids }, returns_onlyIf.mpr ?_,
        Table.remove_iff.mpr rfl⟩⟩⟩⟩
  · exact le_trans (by norm_num) hcollateral.1
  · by_cases hcore : e.2.invSwanPrice.base.assetId = core
    · obtain ⟨hnonneg, hlt⟩ := hlocked hcore
      have hpos := hcollateral.1
      refine .inl ⟨hcore, Table.update_iff.mpr ⟨a, lockCore (callOf e.2 share).collateral a, ha,
        bind_eq_ok.mpr ⟨_, safe_eq_ok.mpr ⟨rfl, ?_, hlt⟩, rfl⟩, ?_⟩⟩
      · exact le_trans (by norm_num) (Int.add_nonneg hnonneg hpos)
      · unfold executed
        rw [if_pos hcore, ← Index.modify_eq_of_find ha]
        rfl
    · refine .inr ⟨hcore, ?_⟩
      unfold executed
      rw [if_neg hcore]
      rfl

/-- The bids that wait to be executed: each is in the database, no two belong to one account and no
bidder has a call order, and what they hold fits next to the fund. -/
structure Pending (mia backing : AssetId) (f : Fund) (bids : List (Σ _ : Nat, CollateralBid))
    (s : State) : Prop where
  stored : ∀ e ∈ bids, s.collateralBids.find e.1 = some e.2
  fitting : ∀ e ∈ bids, e.2.debtType = mia ∧ e.2.invSwanPrice.base.assetId = backing ∧
    0 < e.2.invSwanPrice.base.amount
  bidder : ∀ e ∈ bids, (s.accounts.find e.2.bidder).isSome
  distinct : bids.Pairwise fun e e' => e.1 ≠ e'.1 ∧ e.2.bidder ≠ e'.2.bidder
  noCalls : ∀ e ∈ bids, ∀ id o, s.callOrders.find id = some o → o.debtType = mia →
    o.borrower ≠ e.2.bidder
  locked : ∀ id a, s.accounts.find id = some a → 0 ≤ a.totalCoreInOrders
  conserved : (if backing = core then lockedCore s else 0) + f.fund +
    (bids.map fun e => e.2.invSwanPrice.base.amount).sum ≤ maxShareSupply

theorem lockedCore_nonneg (h : ∀ id a, s.accounts.find id = some a → 0 ≤ a.totalCoreInOrders) :
    0 ≤ lockedCore s :=
  Index.total_nonneg h

theorem le_lockedCore (h : ∀ id a, s.accounts.find id = some a → 0 ≤ a.totalCoreInOrders)
    {id : AccountId} {a : AccountObject} (ha : s.accounts.find id = some a) :
    a.totalCoreInOrders ≤ lockedCore s :=
  Rows.le_total (fun _ a => a.totalCoreInOrders) h ha

section Execute

variable {e : Σ _ : Nat, CollateralBid} {bids : List (Σ _ : Nat, CollateralBid)}

theorem Pending.collateral_nonneg (h : Pending mia backing f bids s) :
    0 ≤ (bids.map fun e => e.2.invSwanPrice.base.amount).sum := by
  refine List.sum_nonneg fun x hx => ?_
  obtain ⟨e, he, rfl⟩ := List.mem_map.mp hx
  exact (h.fitting e he).2.2.le

theorem Pending.tail (h : Pending mia backing f (e :: bids) s) : Pending mia backing f bids s where
  stored e' he' := h.stored e' (List.mem_cons_of_mem _ he')
  fitting e' he' := h.fitting e' (List.mem_cons_of_mem _ he')
  bidder e' he' := h.bidder e' (List.mem_cons_of_mem _ he')
  distinct := (List.pairwise_cons.mp h.distinct).2
  noCalls e' he' := h.noCalls e' (List.mem_cons_of_mem _ he')
  locked := h.locked
  conserved := by
    have hconserved := h.conserved
    have hpos := (h.fitting e List.mem_cons_self).2.2
    rw [List.map_cons, List.sum_cons] at hconserved
    omega

theorem Pending.fund_le (h : Pending mia backing f bids s) : f.fund ≤ maxShareSupply := by
  have hconserved := h.conserved
  have hcollateral := h.collateral_nonneg
  have hlocked := lockedCore_nonneg h.locked
  split at hconserved
  · omega
  · omega

theorem Pending.returns_executeBid (h : Pending mia backing f (e :: bids) s) {share : Int × Int}
    (hnonneg : 0 ≤ share.2) (hle : share.2 ≤ f.fund) :
    Returns (executeBid e.1 share.1 share.2) s () (executed s e share) := by
  have hmem : e ∈ e :: bids := List.mem_cons_self
  obtain ⟨hdebt, hbacked, hpos⟩ := h.fitting e hmem
  obtain ⟨a, ha⟩ := Option.isSome_iff_exists.mp (h.bidder e hmem)
  have hrest := h.tail.collateral_nonneg
  have hlocked := lockedCore_nonneg h.locked
  have hconserved := h.conserved
  rw [List.map_cons, List.sum_cons] at hconserved
  unfold maxShareSupply at hconserved
  refine Settlement.returns_executeBid (h.stored e hmem)
    (fun id o ho hd => h.noCalls e hmem id o ho (hd.trans hdebt)) ?_ ha fun hcore => ?_
  · unfold callOf
    dsimp only
    split at hconserved
    · exact ⟨by omega, by omega⟩
    · exact ⟨by omega, by omega⟩
  · have hlockedLe := le_lockedCore h.locked ha
    rw [if_pos (hbacked.symm.trans hcore)] at hconserved
    refine ⟨h.locked _ a ha, ?_⟩
    unfold callOf
    dsimp only
    omega

theorem find_accounts_executed (s : State) (e : Σ _ : Nat, CollateralBid) (share : Int × Int)
    (id : AccountId) :
    (executed s e share).accounts.find id =
      if e.2.invSwanPrice.base.assetId = core ∧ id = e.2.bidder then
        (s.accounts.find id).map (lockCore (callOf e.2 share).collateral)
      else s.accounts.find id := by
  unfold executed
  dsimp only
  by_cases hcore : e.2.invSwanPrice.base.assetId = core
  · rw [if_pos hcore, Index.find_modify]
    by_cases heq : id = e.2.bidder
    · rw [if_pos heq, if_pos ⟨hcore, heq⟩, heq]
    · rw [if_neg heq, if_neg fun hand => heq hand.2]
  · rw [if_neg hcore, if_neg fun hand => hcore hand.1]

theorem lockedCore_executed {share : Int × Int} (hbidder : (s.accounts.find e.2.bidder).isSome) :
    lockedCore (executed s e share) =
      lockedCore s + if e.2.invSwanPrice.base.assetId = core then (callOf e.2 share).collateral
        else 0 := by
  obtain ⟨a, ha⟩ := Option.isSome_iff_exists.mp hbidder
  unfold lockedCore executed
  dsimp only
  split
  · rw [Index.total_modify _ ha]
    dsimp only [lockCore]
    omega
  · rw [add_zero]

theorem Pending.executed (h : Pending mia backing f (e :: bids) s) {debt : Int}
    (hnonneg : 0 ≤ (f.share debt).2) :
    Pending mia backing (f.cover debt) bids (executed s e (f.share debt)) := by
  have hmem : e ∈ e :: bids := List.mem_cons_self
  obtain ⟨hdebt, hbacked, hpos⟩ := h.fitting e hmem
  obtain ⟨hfirst, hdistinct⟩ := List.pairwise_cons.mp h.distinct
  refine ⟨fun e' he' => ?_, h.tail.fitting, fun e' he' => ?_, hdistinct, fun e' he' id o ho hd => ?_,
    fun id a ha => ?_, ?_⟩
  · change (s.collateralBids.remove e.1).find e'.1 = some e'.2
    rw [Index.find_remove, if_neg (hfirst e' he').1.symm]
    exact h.tail.stored e' he'
  · rw [find_accounts_executed]
    split
    · rw [Option.isSome_map]
      exact h.tail.bidder e' he'
    · exact h.tail.bidder e' he'
  · change (s.callOrders.create _).find id = some o at ho
    rw [Index.find_create] at ho
    split at ho
    · cases ho
      exact (hfirst e' he').2
    · exact h.tail.noCalls e' he' id o ho hd
  · rw [find_accounts_executed] at ha
    split at ha
    · obtain ⟨a', ha', rfl⟩ := Option.map_eq_some_iff.mp ha
      have hold := h.locked id a' ha'
      dsimp only [lockCore, callOf]
      omega
    · exact h.locked id a ha
  · have hconserved := h.conserved
    rw [List.map_cons, List.sum_cons] at hconserved
    rw [lockedCore_executed (h.bidder e hmem), hbacked]
    change _ + (f.fund - (f.share debt).2) + _ ≤ _
    unfold callOf
    dsimp only
    split
    · rename_i hcore
      rw [if_pos hcore] at hconserved
      omega
    · rename_i hcore
      rw [if_neg hcore] at hconserved
      omega

def executedAll (s : State) (bids : List ((Σ _ : Nat, CollateralBid) × Int × Int)) : State :=
  bids.foldl (fun s p => Settlement.executed s p.1 p.2) s

theorem Pending.returns_executeBids (h : Pending mia backing f bids s) (hsound : f.Sound)
    (hpos : 0 < f.supply0) (hdebt : ∀ e ∈ bids, 0 ≤ (debtInBid supply e.2).amount)
    (hmul : ∀ e ∈ bids, (debtInBid supply e.2).mul bad.settlementPrice =
      .ok ⟨(debtInBid supply e.2).amount * f.gathered0 / f.supply0, backing⟩)
    (hsupplyLe : f.supply ≤ maxShareSupply) :
    let debts := bids.map fun e => (debtInBid supply e.2).amount
    Returns (executeBids bad supply f.supply f.fund bids) s
      ((f.coverAll debts).supply, (f.coverAll debts).fund)
      (executedAll s (bids.zip (f.shares debts))) := by
  induction bids generalizing f s with
  | nil => exact rfl
  | cons e bids ih =>
    have hmem : e ∈ e :: bids := List.mem_cons_self
    have hnonneg := hsound.share_nonneg (hdebt e hmem)
    have hle := hsound.share_le hpos (debtInBid supply e.2).amount
    have hshare : bidShare bad supply f.supply f.fund e.2 =
        .ok (f.share (debtInBid supply e.2).amount) := by
      refine bind_eq_ok.mpr ⟨_, hmul e hmem, ?_⟩
      unfold Fund.share
      split <;> rfl
    have hsafe (v w : Int) (hw : 0 ≤ w) (hwv : w ≤ v) (hv : v ≤ maxShareSupply) :
        safe (v - w) = .ok (v - w) := by
      unfold maxShareSupply at hv
      exact safe_eq_ok.mpr ⟨rfl, by omega, by omega⟩
    refine Returns.lift_bind_iff.mpr ⟨_, hshare, Returns.lift_bind_iff.mpr ⟨_,
      hsafe _ _ hnonneg.1 hle.1 hsupplyLe, Returns.lift_bind_iff.mpr ⟨_,
        hsafe _ _ hnonneg.2 hle.2 h.fund_le, Returns.bind_iff.mpr ⟨(), _,
          h.returns_executeBid hnonneg.2 hle.2, ?_⟩⟩⟩⟩
    exact ih (h.executed hnonneg.2) (hsound.cover hpos _) hpos
      (fun e' he' => hdebt e' (List.mem_cons_of_mem _ he'))
      (fun e' he' => hmul e' (List.mem_cons_of_mem _ he')) (le_trans (by
        change f.supply - _ ≤ f.supply
        omega) hsupplyLe)

end Execute

def refund (account : AccountId) (bids : List (Σ _ : Nat, CollateralBid)) : Int :=
  (bids.map fun e => if account = e.2.bidder then e.2.invSwanPrice.base.amount else 0).sum

section Cancel

variable {bids : List (Σ _ : Nat, CollateralBid)}

theorem returns_cancelBids (hs : s.BalancesNonneg)
    (hstored : ∀ e ∈ bids, s.collateralBids.find e.1 = some e.2)
    (hdistinct : (bids.map (·.1)).Nodup)
    (hgood : ∀ e ∈ bids, e.2.invSwanPrice.base.assetId = backing ∧ 0 < e.2.invSwanPrice.base.amount)
    (hfits : s.publicBalance backing + (bids.map fun e => e.2.invSwanPrice.base.amount).sum ≤
      maxShareSupply) :
    ∃ s', Returns (cancelBids (bids.map (·.1))) s () s' ∧
      s' = { s with
        balances := s'.balances
        collateralBids := (bids.map (·.1)).foldl Index.remove s.collateralBids } ∧
      ∀ account id, getBalance account id s' =
        getBalance account id s + if id = backing then refund account bids else 0 := by
  induction bids generalizing s with
  | nil =>
    refine ⟨s, rfl, rfl, fun account id => ?_⟩
    rw [refund, List.map_nil, List.sum_nil, ite_self, add_zero]
  | cons e bids ih =>
    have hmem : e ∈ e :: bids := List.mem_cons_self
    obtain ⟨hbacked, hpos⟩ := hgood e hmem
    rw [List.map_cons, List.sum_cons] at hfits
    have hrest : 0 ≤ (bids.map fun e => e.2.invSwanPrice.base.amount).sum := by
      refine List.sum_nonneg fun x hx => ?_
      obtain ⟨e', he', rfl⟩ := List.mem_map.mp hx
      exact (hgood e' (List.mem_cons_of_mem _ he')).2.le
    obtain ⟨s1, hcredit⟩ := exists_returns_credit e.2.bidder _ hs hpos.le (by
      rw [hbacked]
      unfold maxShareSupply at hfits
      omega)
    obtain ⟨hframe, hnonneg, hpublic, -⟩ := adjustBalance_spec hcredit hs
    have hnotMem : ∀ e' ∈ bids, e'.1 ≠ e.1 := by
      intro e' he' heq
      exact (List.nodup_cons.mp hdistinct).1 (List.mem_map.mpr ⟨e', he', heq⟩)
    have hbids : s1.collateralBids = s.collateralBids := by rw [hframe]
    have hstored1 (e' : Σ _ : Nat, CollateralBid) (he' : e' ∈ bids) :
        (s.collateralBids.remove e.1).find e'.1 = some e'.2 := by
      rw [Index.find_remove, if_neg (hnotMem e' he')]
      exact hstored e' (List.mem_cons_of_mem _ he')
    have hfits1 : s1.publicBalance backing +
        (bids.map fun e => e.2.invSwanPrice.base.amount).sum ≤ maxShareSupply := by
      rw [hpublic, hbacked, if_pos rfl]
      omega
    obtain ⟨s', hcancel, hs', hbalance⟩ :=
      ih (s := { s1 with collateralBids := s.collateralBids.remove e.1 })
        (balancesNonneg_congr rfl hnonneg) hstored1 (List.nodup_cons.mp hdistinct).2
        (fun e' he' => hgood e' (List.mem_cons_of_mem _ he')) hfits1
    refine ⟨s', Returns.bind_iff.mpr ⟨(), _, returns_fetch_bind.mpr ⟨e.2, hstored e hmem,
      Returns.bind_iff.mpr ⟨(), s1, hcredit, Table.remove_iff.mpr ?_⟩⟩, hcancel⟩, ?_, ?_⟩
    · rw [← hbids]
      rfl
    · rw [hs', hframe]
      rfl
    · intro account id
      have hcredited := getBalance_of_adjustBalance hcredit account id
      rw [hbalance account id]
      change getBalance account id s1 + _ = _
      rw [hcredited, hbacked, refund, refund, List.map_cons, List.sum_cons]
      by_cases hid : id = backing
      · simp only [hid, and_true, if_true]
        omega
      · simp only [hid, and_false, if_false]
        omega

end Cancel

theorem mem_bidsByPrice {e : Σ _ : Nat, CollateralBid} :
    e ∈ bidsByPrice backing mia s ↔ s.collateralBids.find e.1 = some e.2 ∧ e.2.debtType = mia ∧
      e.2.invSwanPrice.le (Price.max backing mia) := by
  unfold bidsByPrice
  rw [mem_ordered, List.mem_filter, decide_eq_true_iff]
  exact and_congr_left fun _ => Rows.mem_entries_iff

theorem bidsByPrice_perm (backing mia : AssetId) (s : State) :
    (bidsByPrice backing mia s).Perm (s.collateralBids.rows.entries.filter fun e =>
      e.2.debtType = mia ∧ e.2.invSwanPrice.le (Price.max backing mia)) :=
  List.perm_insertionSort _ _

theorem bidsByPrice_nodup (backing mia : AssetId) (s : State) :
    ((bidsByPrice backing mia s).map (·.1)).Nodup := by
  refine ((bidsByPrice_perm backing mia s).map _).nodup_iff.mpr ?_
  exact (List.filter_sublist.map _).nodup s.collateralBids.rows.nodupKeys

theorem GoodBid.le_max (h : GoodBid backing s bid) (hdebt : bid.debtType = mia)
    (hle : bid.invSwanPrice.base.amount ≤ maxShareSupply) :
    bid.invSwanPrice.le (Price.max backing mia) := by
  have hpos := h.debt_pos
  have hquote : bid.invSwanPrice.quote.assetId = mia := hdebt
  have hmul : maxShareSupply ≤ bid.invSwanPrice.quote.amount * maxShareSupply :=
    le_mul_of_one_le_left (by decide) hpos
  unfold Price.le Price.lt Price.max
  simp only [h.backed, hquote, lt_irrefl, true_and, false_or, one_mul]
  omega

section

variable (hs : Biddable mia backing f s)

include hs

theorem Biddable.bidCollateral_le :
    s.publicBalance backing + (if backing = core then lockedCore s else 0) + f.fund +
        bidCollateral mia s ≤ maxShareSupply ∧
      0 ≤ s.publicBalance backing ∧ 0 ≤ lockedCore s ∧ 0 ≤ f.fund :=
  ⟨hs.conserved, hs.solvent.nonneg.publicBalance_nonneg _, lockedCore_nonneg hs.locked,
    hs.solvent.sound.fund_nonneg⟩

theorem Biddable.base_le {id : Nat} (hbid : s.collateralBids.find id = some bid)
    (hdebt : bid.debtType = mia) : f.fund + bid.invSwanPrice.base.amount ≤ maxShareSupply := by
  obtain ⟨hconserved, hpublic, hlocked, -⟩ := hs.bidCollateral_le
  have hle : (if bid.debtType = mia then bid.invSwanPrice.base.amount else 0) ≤
      bidCollateral mia s := by
    refine Rows.le_total (fun _ bid =>
      if bid.debtType = mia then bid.invSwanPrice.base.amount else 0) (fun k v hv => ?_) hbid
    split
    · exact (hs.good k v hv ‹_›).collateral_pos.le
    · exact Int.le_refl 0
  rw [if_pos hdebt] at hle
  split at hconserved
  · omega
  · omega

theorem Biddable.fitting {e : Σ _ : Nat, CollateralBid} (he : e ∈ bidsByPrice backing mia s) :
    FittingBid mia backing f e.2 := by
  obtain ⟨hfind, hdebt, -⟩ := mem_bidsByPrice.mp he
  have hgood := hs.good e.1 e.2 hfind hdebt
  exact ⟨hdebt, hgood.backed, hgood.collateral_pos, hgood.debt_pos, hs.base_le hfind hdebt⟩

theorem Biddable.mem_bidsByPrice_iff {e : Σ _ : Nat, CollateralBid} :
    e ∈ bidsByPrice backing mia s ↔ s.collateralBids.find e.1 = some e.2 ∧ e.2.debtType = mia := by
  rw [mem_bidsByPrice]
  refine ⟨fun ⟨hfind, hdebt, _⟩ => ⟨hfind, hdebt⟩, fun ⟨hfind, hdebt⟩ => ⟨hfind, hdebt, ?_⟩⟩
  have hle := hs.base_le hfind hdebt
  have hfund := hs.solvent.sound.fund_nonneg
  exact (hs.good e.1 e.2 hfind hdebt).le_max hdebt (by omega)

theorem Biddable.sum_bidsByPrice :
    ((bidsByPrice backing mia s).map fun e => e.2.invSwanPrice.base.amount).sum =
      bidCollateral mia s := by
  rw [((bidsByPrice_perm backing mia s).map _).sum_eq]
  refine (Lib.total_filter (fun e : Σ _ : Nat, CollateralBid => e.2.invSwanPrice.base.amount) _
    _).trans (Lib.total_congr fun e he => ?_)
  have hfind : s.collateralBids.find e.1 = some e.2 := Rows.mem_entries_iff.mp he
  by_cases hdebt : e.2.debtType = mia
  · have hmem := hs.mem_bidsByPrice_iff.mpr ⟨hfind, hdebt⟩
    rw [if_pos (decide_eq_true (mem_bidsByPrice.mp hmem).2)]
    exact (if_pos hdebt).symm
  · rw [if_neg (fun h => hdebt (of_decide_eq_true h).1)]
    exact (if_neg hdebt).symm

theorem Biddable.pending {bids : List (Σ _ : Nat, CollateralBid)}
    (hfront : bids <+: bidsByPrice backing mia s) : Pending mia backing f bids s := by
  have hmem (e : Σ _ : Nat, CollateralBid) (he : e ∈ bids) :
      s.collateralBids.find e.1 = some e.2 ∧ e.2.debtType = mia :=
    hs.mem_bidsByPrice_iff.mp (hfront.subset he)
  have hgood (e : Σ _ : Nat, CollateralBid) (he : e ∈ bids) : GoodBid backing s e.2 :=
    hs.good e.1 e.2 (hmem e he).1 (hmem e he).2
  refine ⟨fun e he => (hmem e he).1,
    fun e he => ⟨(hmem e he).2, (hgood e he).backed, (hgood e he).collateral_pos⟩,
    fun e he => (hgood e he).bidder, ?_, fun e _ id o ho hdebt => absurd hdebt (hs.noCalls id o ho),
    hs.locked, ?_⟩
  · have hids : bids.Pairwise fun e e' => e.1 ≠ e'.1 :=
      List.pairwise_map.mp ((hfront.sublist.map _).nodup (bidsByPrice_nodup backing mia s))
    refine hids.imp_of_mem fun {e e'} he he' hne => ⟨hne, fun heq => hne ?_⟩
    exact hs.unique _ _ _ _ (hmem e he).1 (hmem e' he').1 (hmem e he).2 (hmem e' he').2 heq
  · obtain ⟨hconserved, hpublic, -, -⟩ := hs.bidCollateral_le
    obtain ⟨rest, hsplit⟩ := hfront
    rw [← hs.sum_bidsByPrice, ← hsplit, List.map_append, List.sum_append] at hconserved
    have hrest : 0 ≤ (rest.map fun e => e.2.invSwanPrice.base.amount).sum := by
      refine List.sum_nonneg fun x hx => ?_
      obtain ⟨e, he, rfl⟩ := List.mem_map.mp hx
      exact (hs.fitting (by rw [← hsplit]; exact List.mem_append_right _ he)).collateral_pos.le
    omega

end

/-! ## `process_bids` -/

/-- `s'` is `s` after the bids `chosen` took over the debt and the fund of the asset, each with its
share, and the bids `cancelled` were refunded. -/
structure RevivedBy (mia : AssetId) (a : AssetObject) (b : BitassetData)
    (chosen cancelled : List (Σ _ : Nat, CollateralBid)) (shares : List (Int × Int))
    (s s' : State) : Prop where
  bids : bidsByPrice b.options.shortBackingAsset mia s = chosen ++ cancelled
  all : ∀ id bid, s.collateralBids.find id = some bid → bid.debtType = mia →
    ⟨id, bid⟩ ∈ chosen ++ cancelled
  length : shares.length = chosen.length
  debts : (shares.map (·.1)).sum = a.currentSupply
  collateral : (shares.map (·.2)).sum = b.settlementFund
  nonneg : ∀ share ∈ shares, 0 ≤ share.1 ∧ 0 ≤ share.2
  calls : s'.callOrders = (chosen.zip shares).foldl (fun t p => t.create (callOf p.1.2 p.2))
    s.callOrders
  gone : ∀ id, s'.collateralBids.find id =
    (s.collateralBids.find id).filter fun bid => bid.debtType ≠ mia
  refunds : ∀ account id, getBalance account id s' = getBalance account id s +
    if id = b.options.shortBackingAsset then refund account cancelled else 0
  revived : s'.assets.find mia = some { a with
    bitasset := some { b with settlementPrice := Price.null, settlementFund := 0 } }

section Process

variable {a : AssetObject} {bids : List ((Σ _ : Nat, CollateralBid) × Int × Int)}

section

variable (s bids)

theorem executedAll_balances : (executedAll s bids).balances = s.balances := by
  induction bids generalizing s with
  | nil => rfl
  | cons p bids ih => exact ih _

theorem executedAll_assets : (executedAll s bids).assets = s.assets := by
  induction bids generalizing s with
  | nil => rfl
  | cons p bids ih => exact ih _

theorem executedAll_callOrders : (executedAll s bids).callOrders =
      bids.foldl (fun t p => t.create (callOf p.1.2 p.2)) s.callOrders := by
  induction bids generalizing s with
  | nil => rfl
  | cons p bids ih => exact ih _

theorem executedAll_collateralBids : (executedAll s bids).collateralBids =
      (bids.map fun p => p.1.1).foldl Index.remove s.collateralBids := by
  induction bids generalizing s with
  | nil => rfl
  | cons p bids ih => exact ih _

end

theorem returns_cancelBidsAndReviveMpa {bad : BitassetData} (ha : s.assets.find mia = some a)
    (hb : a.bitasset = some bad) (hsettled : bad.hasSettlement)
    (hmarket : bad.isPredictionMarket = false)
    (hbalances : s.BalancesNonneg)
    (hgood : ∀ e ∈ bidsByPrice bad.options.shortBackingAsset mia s,
      e.2.invSwanPrice.base.assetId = bad.options.shortBackingAsset ∧
        0 < e.2.invSwanPrice.base.amount)
    (hfits : s.publicBalance bad.options.shortBackingAsset +
      ((bidsByPrice bad.options.shortBackingAsset mia s).map fun e =>
        e.2.invSwanPrice.base.amount).sum ≤ maxShareSupply) :
    ∃ s', Returns (cancelBidsAndReviveMpa mia mia) s () s' ∧ s'.callOrders = s.callOrders ∧
      s'.collateralBids = ((bidsByPrice bad.options.shortBackingAsset mia s).map (·.1)).foldl
        Index.remove s.collateralBids ∧
      (∀ account id, getBalance account id s' = getBalance account id s +
        if id = bad.options.shortBackingAsset then
          refund account (bidsByPrice bad.options.shortBackingAsset mia s) else 0) ∧
      s'.assets.find mia = some { a with
        bitasset := some { bad with settlementPrice := Price.null, settlementFund := 0 } } := by
  obtain ⟨s1, hcancel, hs1, hbalance⟩ := returns_cancelBids hbalances
    (fun e he => (mem_bidsByPrice.mp he).1) (bidsByPrice_nodup _ _ _) hgood hfits
  have hassets : s1.assets = s.assets := by rw [hs1]
  have ha1 : s1.assets.find mia = some a := by rw [hassets, ha]
  refine ⟨{ s1 with assets := s1.assets.modify mia fun _ => { a with
      bitasset := some { bad with settlementPrice := Price.null, settlementFund := 0 } } },
    returns_fetch_bind.mpr ⟨a, ha, returns_require_bind.mpr ⟨by rw [hb]; rfl,
      returns_fetch_bind.mpr ⟨a, ha, Returns.lift_bind_iff.mpr ⟨bad, bitassetData_eq_ok.mpr hb,
        returns_require_bind.mpr ⟨hsettled, returns_require_bind.mpr ⟨hmarket,
          Returns.get_bind_iff.mpr (Returns.bind_iff.mpr ⟨(), s1, hcancel, ?_⟩)⟩⟩⟩⟩⟩⟩, ?_, ?_,
    hbalance, ?_⟩
  · refine Table.update_iff.mpr ⟨a, _, ha1, bind_eq_ok.mpr ⟨bad, bitassetData_eq_ok.mpr hb,
      bind_eq_ok.mpr ⟨_, rfl, rfl⟩⟩, rfl⟩
  · rw [hs1]
  · rw [hs1]
  · change (s1.assets.modify mia _).find mia = _
    rw [Index.find_modify, if_pos rfl, ha1]
    rfl

theorem bidsByPrice_perm_cancelled {backing : AssetId}
    {chosen cancelled : List (Σ _ : Nat, CollateralBid)} {t : State}
    (hbids : bidsByPrice backing mia s = chosen ++ cancelled)
    (ht : t.collateralBids = (chosen.map (·.1)).foldl Index.remove s.collateralBids) :
    (bidsByPrice backing mia t).Perm cancelled := by
  have hnodup := bidsByPrice_nodup backing mia s
  rw [hbids, List.map_append] at hnodup
  have hdisjoint := List.disjoint_of_nodup_append hnodup
  refine (List.perm_ext_iff_of_nodup (bidsByPrice_nodup backing mia t).of_map
    hnodup.of_append_right.of_map).mpr fun e => ?_
  have hold : e ∈ chosen ++ cancelled ↔ s.collateralBids.find e.1 = some e.2 ∧
      e.2.debtType = mia ∧ e.2.invSwanPrice.le (Price.max backing mia) := by
    rw [← hbids, mem_bidsByPrice]
  rw [mem_bidsByPrice, ht, Index.find_foldl_remove]
  constructor
  · rintro ⟨hfind, hrest⟩
    split at hfind
    · cases hfind
    · rename_i hnotMem
      rcases List.mem_append.mp (hold.mpr ⟨hfind, hrest⟩) with hchosen | hcancelled
      · exact absurd (List.mem_map_of_mem hchosen) hnotMem
      · exact hcancelled
  · intro he
    rw [if_neg fun hmem => hdisjoint hmem (List.mem_map_of_mem he)]
    exact hold.mp (List.mem_append_right _ he)

section Remaining

variable {chosen cancelled : List (Σ _ : Nat, CollateralBid)}

theorem Biddable.cancelled_fits (hs : Biddable mia backing f s)
    (hsplit : bidsByPrice backing mia s = chosen ++ cancelled) (hbalances : t.balances = s.balances)
    (ht : t.collateralBids = (chosen.map (·.1)).foldl Index.remove s.collateralBids) :
    (∀ e ∈ bidsByPrice backing mia t, e.2.invSwanPrice.base.assetId = backing ∧
      0 < e.2.invSwanPrice.base.amount) ∧
    t.publicBalance backing +
      ((bidsByPrice backing mia t).map fun e => e.2.invSwanPrice.base.amount).sum ≤
        maxShareSupply := by
  have hperm := bidsByPrice_perm_cancelled hsplit ht
  refine ⟨fun e he => ?_, ?_⟩
  · have hmem : e ∈ bidsByPrice backing mia s := by
      rw [hsplit]
      exact List.mem_append_right _ (hperm.mem_iff.mp he)
    exact ⟨(hs.fitting hmem).backed, (hs.fitting hmem).collateral_pos⟩
  · obtain ⟨hconserved, -, hlocked, hfund⟩ := hs.bidCollateral_le
    have hchosen := (hs.pending ⟨cancelled, hsplit.symm⟩).collateral_nonneg
    rw [publicBalance_congr hbalances, (hperm.map _).sum_eq]
    rw [← hs.sum_bidsByPrice, hsplit, List.map_append, List.sum_append] at hconserved
    split at hconserved
    · omega
    · omega

theorem Biddable.find_bids_removed (hs : Biddable mia backing f s)
    (hsplit : bidsByPrice backing mia s = chosen ++ cancelled)
    (ht : t.collateralBids = (chosen.map (·.1)).foldl Index.remove s.collateralBids) (id : Nat) :
    (((bidsByPrice backing mia t).map (·.1)).foldl Index.remove t.collateralBids).find id =
      (s.collateralBids.find id).filter fun bid => bid.debtType ≠ mia := by
  have hperm := bidsByPrice_perm_cancelled hsplit ht
  have hids : id ∈ (bidsByPrice backing mia t).map (·.1) ∨ id ∈ chosen.map (·.1) ↔
      ∃ bid, s.collateralBids.find id = some bid ∧ bid.debtType = mia := by
    rw [(hperm.map _).mem_iff, or_comm, ← List.mem_append, ← List.map_append, ← hsplit]
    constructor
    · intro hmem
      obtain ⟨e, he, rfl⟩ := List.mem_map.mp hmem
      exact ⟨e.2, hs.mem_bidsByPrice_iff.mp he⟩
    · rintro ⟨bid, hbid⟩
      exact List.mem_map.mpr ⟨⟨id, bid⟩, hs.mem_bidsByPrice_iff.mpr hbid, rfl⟩
  rw [ht, ← List.foldl_append]
  apply Index.find_foldl_remove_eq_filter
  rw [List.mem_append, or_comm, hids]
  simp

theorem Biddable.returns_reviveByBids {bad : BitassetData} (hs : Biddable mia backing f s)
    (hset : Settling mia backing f bad) (ha : s.assets.find mia = some a)
    (hb : a.bitasset = some bad) (hmarket : bad.isPredictionMarket = false)
    (hsplit : bidsByPrice backing mia s = chosen ++ cancelled)
    (hcovered : f.supply ≤ coverDebt f.supply chosen) :
    ∃ s' shares, Returns (reviveByBids mia mia bad f.supply chosen) s () s' ∧
      RevivedBy mia a bad chosen cancelled shares s s' := by
  obtain ⟨rfl, -, hfund, hsupply⟩ := hs.solvent.holds.of_find ha hb
  have hfront : chosen <+: bidsByPrice bad.options.shortBackingAsset mia s := ⟨cancelled, hsplit.symm⟩
  have hdebts (e : Σ _ : Nat, CollateralBid) (he : e ∈ chosen) :
      0 ≤ (debtInBid f.supply e.2).amount :=
    debtInBid_nonneg (hs.fitting (hfront.subset he)).debt_pos hset.sound.supply_nonneg
  have hexecute := (hs.pending hfront).returns_executeBids hset.sound hset.supply_pos hdebts
    (fun e he => hset.debt_mul (hs.fitting (hfront.subset he))) hs.supply_le
  -- the shares follow from the debts alone
  obtain ⟨debts, hdebtsEq⟩ : ∃ debts, debts = chosen.map fun e => (debtInBid f.supply e.2).amount :=
    ⟨_, rfl⟩
  have hnonneg : ∀ d ∈ debts, 0 ≤ d := by
    intro d hd
    rw [hdebtsEq] at hd
    obtain ⟨e, he, rfl⟩ := List.mem_map.mp hd
    exact hdebts e he
  have hlength : (f.shares debts).length = chosen.length := by
    rw [Fund.shares_length, hdebtsEq, List.length_map]
  obtain ⟨hzero, hzero'⟩ := hset.sound.coverAll_eq_zero hset.supply_pos hnonneg
    (by rw [hdebtsEq]; exact hcovered)
  obtain ⟨hsumDebt, hsumFund⟩ := f.shares_sum debts
  rw [hzero, Int.sub_zero] at hsumDebt
  rw [hzero', Int.sub_zero] at hsumFund
  dsimp only at hexecute
  rw [← hdebtsEq, hzero, hzero', ← hfund] at hexecute
  obtain ⟨t, ht⟩ : ∃ t, t = executedAll s (chosen.zip (f.shares debts)) := ⟨_, rfl⟩
  rw [← ht] at hexecute
  have hbalances : t.balances = s.balances := by rw [ht, executedAll_balances]
  have hbidsLeft : t.collateralBids = (chosen.map (·.1)).foldl Index.remove s.collateralBids := by
    have hids : (chosen.zip (f.shares debts)).map (fun p => p.1.1) = chosen.map (·.1) := by
      rw [← List.map_fst_zip hlength.ge, List.map_map, List.map_fst_zip hlength.ge]
      rfl
    rw [ht, executedAll_collateralBids, hids]
  have hperm := bidsByPrice_perm_cancelled hsplit hbidsLeft
  obtain ⟨hgood, hfits⟩ := hs.cancelled_fits hsplit hbalances hbidsLeft
  have hat : t.assets.find mia = some a := by rw [ht, executedAll_assets, ha]
  obtain ⟨s', hrevive, hcalls, hbids, hrefunds, hrevived⟩ :=
    returns_cancelBidsAndReviveMpa hat hb (hasSettlement_of_price hset.distinct hset.price) hmarket
      (balancesNonneg_congr hbalances hs.solvent.nonneg) hgood hfits
  refine ⟨s', f.shares debts, Returns.bind_iff.mpr ⟨(0, 0), t, hexecute,
    returns_require_bind.mpr ⟨rfl, returns_require_bind.mpr ⟨rfl, hrevive⟩⟩⟩, ?_⟩
  refine ⟨hsplit, fun id bid hfind hdebt => ?_, hlength, hsumDebt.trans hsupply.symm,
    hsumFund.trans hfund.symm, hset.sound.shares_nonneg hset.supply_pos hnonneg, ?_, fun id => ?_,
    fun account id => ?_, hrevived⟩
  · rw [← hsplit]
    exact hs.mem_bidsByPrice_iff.mpr ⟨hfind, hdebt⟩
  · rw [hcalls, ht, executedAll_callOrders]
  · rw [hbids]
    exact hs.find_bids_removed hsplit hbidsLeft id
  · rw [hrefunds, refund, refund, (hperm.map _).sum_eq]
    unfold getBalance
    rw [hbalances]

end Remaining

theorem Biddable.returns_processBids_iff {bad : BitassetData} (hs : Biddable mia backing f s)
    (s' : State) (ha : s.assets.find mia = some a) (hb : a.bitasset = some bad)
    (hmarket : bad.isPredictionMarket = false)
    (hfeed : ¬bad.currentFeed.settlementPrice.isNull) :
    Returns (processBids mia) s () s' ↔ 0 < f.gathered0 ∧ ∃ covered chosen,
      coverSupply bad f.supply 0 (bidsByPrice backing mia s) = .ok (covered, chosen) ∧
        (covered < f.supply ∧ s' = s ∨
          f.supply ≤ covered ∧ Returns (reviveByBids mia mia bad f.supply chosen) s () s') := by
  obtain ⟨rfl, hprice, hfund, hsupply⟩ := hs.solvent.holds.of_find ha hb
  have hzero (z : Asset) : Asset.mul ⟨0, bad.options.shortBackingAsset⟩ bad.settlementPrice = .ok z ↔
      0 < f.gathered0 ∧ z = ⟨0, mia⟩ := by
    rw [hprice, Asset.mul, if_neg hs.solvent.distinct, if_pos rfl, Asset.scale_eq_ok]
    simp [maxShareSupply]
  unfold processBids
  constructor
  · intro h
    obtain ⟨a', ha', h1⟩ := of_fetch h
    obtain rfl : a = a' := Option.some.inj (ha.symm.trans ha')
    obtain ⟨b', hb', h2⟩ := h1.of_lift
    obtain rfl : bad = b' := Option.some.inj (hb.symm.trans (bitassetData_eq_ok.mp hb'))
    rw [if_neg (by rw [hmarket]; exact Bool.false_ne_true), if_neg hfeed] at h2
    obtain ⟨z, hz, h3⟩ := h2.of_lift
    obtain ⟨hpos, rfl⟩ := (hzero z).mp hz
    obtain ⟨a', ha', h4⟩ := of_fetch h3
    obtain rfl : a = a' := Option.some.inj (ha.symm.trans ha')
    rw [hsupply] at h4
    obtain ⟨⟨covered, chosen⟩, hcover, h5⟩ := Returns.of_lift (h4.of_get)
    refine ⟨hpos, covered, chosen, hcover, ?_⟩
    rcases h5.of_ite with ⟨hlt, hpure⟩ | ⟨hle, hrevive⟩
    · exact .inl ⟨hlt, (hpure.of_pure).2⟩
    · exact .inr ⟨not_lt.mp hle, hrevive⟩
  · rintro ⟨hpos, covered, chosen, hcover, hrest⟩
    refine returns_fetch_bind.mpr ⟨a, ha, Returns.lift_bind_iff.mpr ⟨bad, bitassetData_eq_ok.mpr hb,
      ?_⟩⟩
    rw [if_neg (by rw [hmarket]; exact Bool.false_ne_true), if_neg hfeed]
    refine Returns.lift_bind_iff.mpr ⟨_, (hzero _).mpr ⟨hpos, rfl⟩, returns_fetch_bind.mpr ⟨a, ha, ?_⟩⟩
    rw [hsupply]
    refine Returns.get_bind_iff.mpr (Returns.lift_bind_iff.mpr ⟨_, hcover, Returns.ite_iff.mpr ?_⟩)
    rcases hrest with ⟨hlt, rfl⟩ | ⟨hle, hrevive⟩
    · exact .inl ⟨hlt, rfl⟩
    · exact .inr ⟨not_lt.mpr hle, hrevive⟩

theorem Biddable.settling {bad : BitassetData} (hs : Biddable mia backing f s) (hpos : 0 < f.gathered0)
    (hprice : bad.settlementPrice = ⟨⟨f.supply0, mia⟩, ⟨f.gathered0, backing⟩⟩)
    (hvalid : bad.currentFeed.validate = .ok ()) : Settling mia backing f bad := by
  refine ⟨hs.solvent.sound, hs.solvent.distinct, hpos, ?_, hs.supply_le, hprice, hvalid⟩
  apply lt_of_le_of_ne hs.solvent.sound.supply0_nonneg
  intro hzero
  exact absurd (hs.priced hzero.symm) (ne_of_gt hpos)

/-- Between the global settlement of an asset with a valid feed and its revival: `process_bids`
returns, and leaves the state alone or revives the asset, with debts that add up to the supply,
shares that add up to the fund, and all other bids refunded, exactly if it is a prediction market,
or the settlement gathered something and the debts of the eligible bids, added up until they reach
the supply, fit into an `int64_t`. -/
theorem processBids_revives_iff {b : BitassetData}
    (hreach : Reachable bidStep (AfterGlobalSettlement mia) (Concerns mia) s)
    (ha : s.assets.find mia = some a) (hb : a.bitasset = some b)
    (hfeed : ¬b.currentFeed.settlementPrice.isNull) (hvalid : b.currentFeed.validate = .ok ()) :
    (∃ s', Returns (processBids mia) s () s' ∧
      (s' = s ∨ ∃ chosen cancelled shares, RevivedBy mia a b chosen cancelled shares s s')) ↔
    b.isPredictionMarket = true ∨ 0 < b.settlementPrice.quote.amount ∧
      CoverFits b a.currentSupply 0 (bidsByPrice b.options.shortBackingAsset mia s) := by
  obtain ⟨backing, f, hs⟩ := Biddable.of_reachable hreach
  obtain ⟨rfl, hprice, hfund, hsupply⟩ := hs.solvent.holds.of_find ha hb
  cases hmarket : b.isPredictionMarket with
  | true =>
    refine iff_of_true ⟨s, ?_, .inl rfl⟩ (.inl rfl)
    unfold processBids
    refine returns_fetch_bind.mpr ⟨a, ha, Returns.lift_bind_iff.mpr ⟨b, bitassetData_eq_ok.mpr hb,
      ?_⟩⟩
    rw [if_pos hmarket]
    exact rfl
  | false =>
    have hiff (s' : State) := hs.returns_processBids_iff s' ha hb hmarket hfeed
    rw [hprice, hsupply]
    have hset (hpos : 0 < f.gathered0) := hs.settling hpos hprice hvalid
    have hcover (hpos : 0 < f.gathered0) :
        (∃ r, coverSupply b f.supply 0 (bidsByPrice b.options.shortBackingAsset mia s) = .ok r) ↔
          CoverFits b f.supply 0 (bidsByPrice b.options.shortBackingAsset mia s) :=
      coverSupply_returns_iff (Int.le_refl 0)
      (fun e he => (hset hpos).undercollateralized_returns (hs.fitting he))
      (fun e he => debtInBid_nonneg (hs.fitting he).debt_pos hs.solvent.sound.supply_nonneg)
    constructor
    · rintro ⟨s', hreturns, -⟩
      obtain ⟨hpos, covered, chosen, hok, -⟩ := (hiff s').mp hreturns
      exact .inr ⟨hpos, (hcover hpos).mp ⟨_, hok⟩⟩
    · intro hcondition
      obtain ⟨hpos, hfits⟩ := hcondition.resolve_left Bool.false_ne_true
      obtain ⟨⟨covered, chosen⟩, hok⟩ := (hcover hpos).mpr hfits
      obtain ⟨⟨cancelled, hsplit⟩, hcovered⟩ := coverSupply_spec hok
      rw [zero_add] at hcovered
      rcases lt_or_ge covered f.supply with hlt | hge
      · exact ⟨s, (hiff s).mpr ⟨hpos, covered, chosen, hok, .inl ⟨hlt, rfl⟩⟩, .inl rfl⟩
      · obtain ⟨s', shares, hrevive, hrevived⟩ := hs.returns_reviveByBids (hset hpos) ha hb hmarket
          hsplit.symm (hcovered ▸ hge)
        exact ⟨s', (hiff s').mpr ⟨hpos, covered, chosen, hok, .inr ⟨hge, hrevive⟩⟩,
          .inr ⟨chosen, cancelled, shares, hrevived⟩⟩

end Process

instance {bids : List (Σ _ : Nat, CollateralBid)} {covered : Int} :
    Decidable (CoverFits bad supply covered bids) :=
  inferInstanceAs (Decidable (∀ k < (eligible bad supply bids).length, _ → _))

/-! ## Two bids on a large supply -/

/-- An account owes and holds all of the second asset, which the third one backs; two others hold
the third. -/
def revivalState : State where
  accounts := (((Index.create ∅ ⟨0, 0, 0, [], [], none, 0, 0, 0⟩).create
    ⟨0, 0, 0, [], [], none, 0, 0, 0⟩).create ⟨0, 0, 0, [], [], none, 0, 0, 0⟩).create
    ⟨0, 0, 0, [], [], none, 0, 0, 0⟩
  balances := ((AList.insert (3, 1) 9000000000000000000 ∅).insert (2, 2) 10).insert (1, 2) 10
  assets := ((Index.create ∅
    { issuer := 0, options := { coreExchangeRate := ⟨⟨1, core⟩, ⟨1, core⟩⟩ } }).create
    { issuer := 0, options := { coreExchangeRate := ⟨⟨1, 1⟩, ⟨1, core⟩⟩ }
      currentSupply := 9000000000000000000
      bitasset := some
        { options := { shortBackingAsset := 2 }
          currentFeed := { settlementPrice := ⟨⟨1000000000000000000, 1⟩, ⟨1, 2⟩⟩ } } }).create
    { issuer := 0, options := { coreExchangeRate := ⟨⟨1, 2⟩, ⟨1, core⟩⟩ }, currentSupply := 30 }
  callOrders := Index.create ∅ ⟨3, 10, 9000000000000000000, ⟨⟨1, 2⟩, ⟨1, 1⟩⟩, none⟩

def revivalBid (account : AccountId) (debt : Int) : BidEvent :=
  .bid {} 0 ⟨⟨0, core⟩, account, ⟨10, 2⟩, ⟨debt, 1⟩⟩

def revivalPrice : Price := ⟨⟨1000000000000000000, 1⟩, ⟨1, 2⟩⟩

def bitassetOf (mia : AssetId) (s : State) : Option (AssetObject × BitassetData) :=
  (s.assets.find mia).bind fun a => a.bitasset.map fun b => (a, b)

theorem bitassetOf_eq_some {a : AssetObject} {b : BitassetData} :
    bitassetOf mia s = some (a, b) ↔ s.assets.find mia = some a ∧ a.bitasset = some b := by
  unfold bitassetOf
  cases s.assets.find mia with
  | none => simp
  | some c =>
    simp only [Option.bind_some, Option.map_eq_some_iff, Prod.mk.injEq, Option.some.injEq]
    constructor
    · rintro ⟨b', hb, rfl, rfl⟩
      exact ⟨rfl, hb⟩
    · rintro ⟨rfl, hb⟩
      exact ⟨b, hb, rfl, rfl⟩

theorem balancesNonneg_iff : s.BalancesNonneg ↔ ∀ e ∈ s.balances.entries, 0 ≤ e.2 :=
  ⟨fun h e he => h e.1 e.2 (Rows.mem_entries_iff.mp he),
    fun h k v hv => h ⟨k, v⟩ (Rows.mem_entries_iff.mpr hv)⟩

instance {a : AssetObject} {b : BitassetData} : Decidable (Accounted mia a b s) :=
  decidable_of_iff ((∀ e ∈ s.balances.entries, 0 ≤ e.2) ∧ s.publicBalance mia ≤ a.currentSupply ∧
      a.currentSupply ≤ maxShareSupply ∧
      (∀ e ∈ s.accounts.rows.entries, 0 ≤ e.2.totalCoreInOrders) ∧
      (∀ c ∈ s.assets.find b.options.shortBackingAsset, 0 ≤ c.options.maxMarketFee) ∧
      s.publicBalance b.options.shortBackingAsset +
        (if b.options.shortBackingAsset = core then lockedCore s else 0) + b.settlementFund +
        bidCollateral mia s ≤ maxShareSupply)
    ⟨fun ⟨hnonneg, hheld, hsupply, hlocked, hfee, hconserved⟩ =>
      ⟨balancesNonneg_iff.mpr hnonneg, hheld, hsupply, Index.forall_find_iff.mpr hlocked, hfee,
        hconserved⟩,
    fun h => ⟨balancesNonneg_iff.mp h.nonneg, h.held, h.supply_le, Index.forall_find_iff.mp h.locked,
      h.maxFee, h.conserved⟩⟩

theorem AfterGlobalSettlement.of_accounted {s0 s1 : State} {price : Price} (hissued : Issued mia s0)
    (h : Returns (globallySettleAsset mia price) s0 () s1)
    (hbids : ∀ id bid, s0.collateralBids.find id = some bid → bid.debtType ≠ mia)
    (hpar : ∀ id order a b, s0.callOrders.find id = some order → order.debtType = mia →
      s0.assets.find mia = some a → a.bitasset = some b →
      order.callPrice = ⟨⟨1, b.options.shortBackingAsset⟩, ⟨1, mia⟩⟩)
    (haccounted : ∃ p ∈ bitassetOf mia s1, Accounted mia p.1 p.2 s1) :
    AfterGlobalSettlement mia s1 := by
  refine ⟨s0, price, hissued, h, hbids, hpar, fun a b ha hb => ?_⟩
  obtain ⟨p, hp, hp'⟩ := haccounted
  obtain rfl : (a, b) = p := Option.some.inj ((bitassetOf_eq_some.mpr ⟨ha, hb⟩).symm.trans hp)
  exact hp'

/-- Nobody bids on the second asset, and its call orders are at par. -/
structure Unsettled (s0 : State) : Prop where
  issued : Issued 1 s0
  bids : ∀ id bid, s0.collateralBids.find id = some bid → bid.debtType ≠ 1
  calls : ∀ id order, s0.callOrders.find id = some order → order.callPrice = ⟨⟨1, 2⟩, ⟨1, 1⟩⟩
  backing : ∀ p ∈ bitassetOf 1 s0, p.2.options.shortBackingAsset = 2

theorem Unsettled.reaches {s0 : State} (h : Unsettled s0) (price : Price)
    (bids : List (AccountId × Int)) (P : State → Prop)
    (hrun : Succeeds (commit (globallySettleAsset 1 price) s0) fun s1 =>
      (∃ p ∈ bitassetOf 1 s1, Accounted 1 p.1 p.2 s1) ∧
      Succeeds (Lib.run bidStep s1 (bids.map fun e => revivalBid e.1 e.2)) P) :
    ∃ s, Reachable bidStep (AfterGlobalSettlement 1) (Concerns 1) s ∧ P s := by
  obtain ⟨s1, hcommit, haccounted, hbids⟩ := hrun
  obtain ⟨⟨⟩, hsettle⟩ := commit_eq_ok.mp hcommit
  refine Reachable.of_run _ (.of_accounted h.issued hsettle h.bids ?_ haccounted) ?_ hbids
  · intro id order a b horder _ ha hb
    rw [h.calls id order horder, h.backing _ (bitassetOf_eq_some.mpr ⟨ha, hb⟩)]
  · refine .of_forall (fun e he s => ?_) _
    obtain ⟨_, -, rfl⟩ := List.mem_map.mp he
    exact rfl

theorem unsettled_revivalState : Unsettled revivalState where
  issued := {
    nonneg := balancesNonneg_iff.mpr (by decide)
    calls := Index.forall_find_iff.mpr (by decide)
    held := by
      rintro a ⟨⟩
      decide
    owed := by
      rintro a ⟨⟩
      decide }
  bids := Index.forall_find_iff.mpr (by decide)
  calls := Index.forall_find_iff.mpr (by decide)
  backing := by decide

theorem processBids_revives_two :
    ∃ s s' a b chosen cancelled shares,
      Reachable bidStep (AfterGlobalSettlement 1) (Concerns 1) s ∧
      s.assets.find 1 = some a ∧ a.bitasset = some b ∧
      ¬b.currentFeed.settlementPrice.isNull ∧ b.currentFeed.validate = .ok () ∧
      Returns (processBids 1) s () s' ∧ s'.callOrders.rows.entries.length = 2 ∧
      RevivedBy 1 a b chosen cancelled shares s s' := by
  obtain ⟨s, hreach, hnone, ⟨⟨a, b⟩, hab, hfeed, ⟨⟨⟩, hvalid, -⟩, hpos, hfits⟩, s', hcommit, htwo⟩ :=
    unsettled_revivalState.reaches revivalPrice
      [(1, 5000000000000000000), (2, 4000000000000000000)] (fun s =>
        s.callOrders.rows.entries.length = 0 ∧
        (∃ p ∈ bitassetOf 1 s, ¬p.2.currentFeed.settlementPrice.isNull ∧
          Succeeds p.2.currentFeed.validate (fun _ => True) ∧ 0 < p.2.settlementPrice.quote.amount ∧
          CoverFits p.2 p.1.currentSupply 0 (bidsByPrice p.2.options.shortBackingAsset 1 s)) ∧
        Succeeds (commit (processBids 1) s) fun s' => s'.callOrders.rows.entries.length = 2) (by decide +kernel)
  obtain ⟨⟨⟩, hprocess⟩ := commit_eq_ok.mp hcommit
  obtain ⟨ha, hb⟩ := bitassetOf_eq_some.mp hab
  obtain ⟨t, hreturns, hrevived⟩ :=
    (processBids_revives_iff hreach ha hb hfeed hvalid).mpr (.inr ⟨hpos, hfits⟩)
  obtain rfl : t = s' := by
    cases hprocess.symm.trans hreturns
    rfl
  rcases hrevived with rfl | ⟨chosen, cancelled, shares, hrevived⟩
  · omega
  · exact ⟨s, t, a, b, chosen, cancelled, shares, hreach, ha, hb, hfeed, hvalid, hreturns, htwo,
      hrevived⟩

/-- Bids for 8 and 9 quintillion of a supply of 9 quintillion: their sum is no `int64_t`, and
`process_bids` throws. -/
theorem processBids_overflows :
    ∃ s a b, Reachable bidStep (AfterGlobalSettlement 1) (Concerns 1) s ∧
      s.assets.find 1 = some a ∧ a.bitasset = some b ∧
      ¬b.currentFeed.settlementPrice.isNull ∧ b.currentFeed.validate = .ok () ∧
      ¬∃ s', Returns (processBids 1) s () s' := by
  obtain ⟨s, hreach, ⟨⟨a, b⟩, hab, hfeed, ⟨⟨⟩, hvalid, -⟩⟩, hthrows⟩ :=
    unsettled_revivalState.reaches revivalPrice
      [(1, 8000000000000000000), (2, 9000000000000000000)] (fun s =>
        (∃ p ∈ bitassetOf 1 s, ¬p.2.currentFeed.settlementPrice.isNull ∧
          Succeeds p.2.currentFeed.validate fun _ => True) ∧
        ¬Succeeds (commit (processBids 1) s) fun _ => True) (by decide +kernel)
  obtain ⟨ha, hb⟩ := bitassetOf_eq_some.mp hab
  refine ⟨s, a, b, hreach, ha, hb, hfeed, hvalid, fun ⟨s', hreturns⟩ => hthrows ?_⟩
  exact ⟨s', commit_eq_ok.mpr ⟨(), hreturns⟩, trivial⟩

end Meta1Core.Settlement
