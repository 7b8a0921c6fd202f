import Meta1Core.Ledger.Avoids
import Meta1Core.Settlement.Evaluators
import Meta1Core.Settlement.Fund

/-!
# A globally settled asset stays solvent

As nobody holds more of an asset than its supply, the fund is never overdrawn, and it is used up
together with the supply.
-/

namespace Meta1Core.Settlement

open Lib (Rows Index Returns Relates Raises Reachable Succeeds commit commit_eq_ok)
open Protocol Ledger Market

variable {s s' : State} {mia backing : AssetId} {f : Fund}

def Holds (mia backing : AssetId) (f : Fund) (s : State) : Prop :=
  ∃ a b, s.assetView mia = some a ∧ a.bitasset = some b ∧ b.options.shortBackingAsset = backing ∧
    b.settlementPrice = ⟨⟨f.supply0, mia⟩, ⟨f.gathered0, backing⟩⟩ ∧ b.settlementFund = f.fund ∧
    a.currentSupply = f.supply

theorem Holds.feesOnly (h : Holds mia backing f s) (hfees : FeesOnly s s') :
    Holds mia backing f s' := by
  unfold Holds
  rw [hfees.assets]
  exact h

theorem Holds.of_find (h : Holds mia backing f s) {a : AssetObject} {b : BitassetData}
    (ha : s.assets.find mia = some a) (hb : a.bitasset = some b) :
    b.options.shortBackingAsset = backing ∧
      b.settlementPrice = ⟨⟨f.supply0, mia⟩, ⟨f.gathered0, backing⟩⟩ ∧ b.settlementFund = f.fund ∧
      a.currentSupply = f.supply := by
  obtain ⟨a', b', hview, hb', hrest⟩ := h
  rw [State.assetView_of_find ha] at hview
  cases hview
  obtain rfl : b = b' := Option.some.inj (hb.symm.trans hb')
  exact hrest

theorem Holds.exists_find (h : Holds mia backing f s) :
    ∃ a b, s.assets.find mia = some a ∧ a.bitasset = some b := by
  obtain ⟨a, b, hview, hb, -⟩ := h
  obtain ⟨a', ha', rfl⟩ := Option.map_eq_some_iff.mp hview
  exact ⟨a', b, ha', hb⟩

theorem Holds.updateFund (h : Holds mia backing f s) {delta : Int} {u : Unit}
    (hret : Returns (updateBitasset mia fun b =>
      return { b with settlementFund := ← safe (b.settlementFund - delta) }) s u s') :
    Holds mia backing { f with fund := f.fund - delta } s' := by
  obtain ⟨a, b, b', ha, hb, hb', -, hview⟩ := of_updateBitasset hret
  obtain ⟨fund, hsafe, hfund⟩ := Lib.of_bind hb'
  cases hfund
  obtain ⟨rfl, -⟩ := of_safe hsafe
  obtain ⟨hbacking, hprice, hfund, hsupply⟩ := h.of_find ha hb
  exact ⟨_, _, (hview mia).trans (if_pos rfl), rfl, hbacking, hprice, by rw [← hfund], hsupply⟩

theorem Holds.adjustSupply (h : Holds mia backing f s) {delta : Int} {u : Unit}
    (hret : Returns (adjustSupply mia delta) s u s') :
    Holds mia backing { f with supply := f.supply + delta } s' := by
  obtain ⟨a, ha, -, hview⟩ := of_adjustSupply hret
  obtain ⟨a', b, ha', hb⟩ := h.exists_find
  obtain rfl : a = a' := Option.some.inj (ha.symm.trans ha')
  obtain ⟨hbacking, hprice, hfund, hsupply⟩ := h.of_find ha hb
  exact ⟨_, b, (hview mia).trans (if_pos rfl), hb, hbacking, hprice, hfund, by rw [← hsupply]; rfl⟩

variable {text : String}

theorem bitassetData_ne_error (h : "Asset is not a market issued asset." ≠ text) (a : AssetObject) :
    bitassetData a ≠ .error (.fc text) := by
  unfold bitassetData
  split
  · exact nofun
  · exact fun heq => h (Exception.fc.inj (Except.error.inj heq))

theorem updateBitasset_avoids (h : text ∉ ledgerTexts)
    (hissued : "Asset is not a market issued asset." ≠ text) (id : AssetId)
    {g : BitassetData → Except Exception BitassetData} (hg : ∀ b, g b ≠ .error (.fc text)) :
    Avoids text (updateBitasset id g) :=
  update_avoids h _ _ fun a => bind_ne_error (bitassetData_ne_error hissued a) fun b =>
    bind_ne_error (hg b) fun _ => nofun

theorem adjustSupply_avoids (h : text ∉ ledgerTexts) (id : AssetId) (delta : Int) :
    Avoids text (adjustSupply id delta) :=
  update_avoids h _ _ fun _ => bind_ne_error (safe_ne_error h _) fun _ => nofun

structure Solvent (mia backing : AssetId) (f : Fund) (s : State) : Prop where
  holds : Holds mia backing f s
  sound : f.Sound
  distinct : backing ≠ mia
  nonneg : s.BalancesNonneg
  held : s.publicBalance mia ≤ f.supply

theorem Solvent.feesPaid (hs : Solvent mia backing f s) (hfees : FeesOnly s s')
    (hbalances : SameBalances s s') : Solvent mia backing f s' where
  holds := hs.holds.feesOnly hfees
  sound := hs.sound
  distinct := hs.distinct
  nonneg := balancesNonneg_congr hbalances hs.nonneg
  held := (publicBalance_congr hbalances mia).trans_le hs.held

section Settle

variable {a : AssetObject} {b : BitassetData} {n : Int}

theorem hasSettlement_of_price (hdistinct : backing ≠ mia)
    (hprice : b.settlementPrice = ⟨⟨f.supply0, mia⟩, ⟨f.gathered0, backing⟩⟩) :
    b.hasSettlement := by
  rintro ⟨hbase, hquote⟩
  rw [hprice] at hbase hquote
  exact hdistinct (hquote.trans hbase.symm)

variable {settled : Asset}

theorem settledAmount_eq_taken
    (hprice : b.settlementPrice = ⟨⟨f.supply0, mia⟩, ⟨f.gathered0, backing⟩⟩)
    (hfund : b.settlementFund = f.fund) (h : settledAmount b f.supply ⟨n, mia⟩ = .ok settled) :
    settled = ⟨f.taken n, backing⟩ ∧ 0 < f.supply0 := by
  unfold settledAmount at h
  obtain ⟨r, hmul, h⟩ := Lib.of_bind h
  rw [hprice] at hmul
  obtain ⟨hpos, -, -, rfl⟩ := (Asset.mul_base_eq_ok (by rfl)).mp hmul
  unfold Fund.taken
  split at h
  · rename_i heq
    cases h
    rw [if_pos heq, hfund]
    exact ⟨rfl, hpos⟩
  · rename_i hne
    obtain ⟨-, h⟩ := of_fcAssert h
    cases h
    rw [if_neg hne]
    exact ⟨rfl, hpos⟩

theorem settlementPays_eq_burned (hdistinct : backing ≠ mia)
    (hprice : b.settlementPrice = ⟨⟨f.supply0, mia⟩, ⟨f.gathered0, backing⟩⟩) {pays : Asset}
    (h : settlementPays b f.supply ⟨n, mia⟩ ⟨f.taken n, backing⟩ = .ok pays) :
    pays = ⟨f.burned n, mia⟩ := by
  unfold settlementPays at h
  unfold Fund.burned
  split at h
  · rename_i hand
    rw [hprice] at h
    obtain ⟨-, -, -, rfl⟩ :=
      (Asset.multiplyAndRoundUp_quote_eq_ok (by rfl) (by exact hdistinct)).mp h
    rw [if_pos hand]
  · rename_i hand
    cases h
    rw [if_neg hand]

variable {account : AccountId} {received : Asset}

theorem paySettled_spec (h : Returns (paySettled account mia settled) s received s')
    (hs : Holds mia backing f s) (hsettled : settled.assetId = backing)
    (hnonneg : 0 ≤ settled.amount) (hdistinct : backing ≠ mia) (hbalances : s.BalancesNonneg) :
    Holds mia backing { f with fund := f.fund - settled.amount } s' ∧ s'.BalancesNonneg ∧
      s'.publicBalance mia = s.publicBalance mia := by
  rcases h.of_ite with ⟨-, hpaid⟩ | ⟨hzero, hpure⟩
  · obtain ⟨_, s1, hfund, h1⟩ := hpaid.of_bind
    obtain ⟨payer, -, h2⟩ := of_fetch h1
    obtain ⟨fees, s3, hfees, h3⟩ := h2.of_bind
    obtain ⟨amount, hsub, h4⟩ := h3.of_lift
    obtain ⟨_, s4, hadjust, hpure⟩ := h4.of_bind
    obtain ⟨-, rfl⟩ := hpure.of_pure
    have hsame : SameBalances s s3 := IsTrans.trans _ _ _
      (updateBitasset_sameBalances _ _ _ _ _ hfund) (payMarketFees_sameBalances _ _ _ _ _ _ _ hfees)
    have hholds := (hs.updateFund hfund).feesOnly (payMarketFees_feesOnly _ _ _ _ _ _ _ hfees)
    have hnonneg3 := balancesNonneg_congr hsame hbalances
    rcases hadjust.of_ite with ⟨-, hadjust⟩ | ⟨-, hpure⟩
    · obtain ⟨-, hnonneg4, hpublic, -⟩ := adjustBalance_spec hadjust hnonneg3
      have hid : amount.assetId = backing := by
        obtain ⟨-, rfl⟩ := Asset.sub_eq_ok hsub
        exact hsettled
      refine ⟨hholds.feesOnly (adjustBalance_feesOnly _ _ _ _ _ hadjust), hnonneg4, ?_⟩
      rw [hpublic, hid, if_neg hdistinct.symm, add_zero, publicBalance_congr hsame]
    · obtain ⟨-, rfl⟩ := hpure.of_pure
      exact ⟨hholds, hnonneg3, publicBalance_congr hsame _⟩
  · obtain ⟨-, rfl⟩ := hpure.of_pure
    obtain hamount : settled.amount = 0 := by omega
    rw [hamount, Int.sub_zero]
    exact ⟨hs, hbalances, rfl⟩

/-- What is left of an amount when the seller has paid the market fee of its asset -/
def LessMarketFee (amount received : Asset) : Prop :=
  amount.amount ≤ 0 ∧ received = amount ∨
    ∃ payer t fees t', Returns (payMarketFees (some payer) amount.assetId amount false) t fees t' ∧
      received = ⟨amount.amount - fees.amount, amount.assetId⟩

theorem paySettled_credits (h : Returns (paySettled account mia settled) s received s') :
    LessMarketFee settled received ∧ ∀ id, getBalance account id s' =
      getBalance account id s + if id = settled.assetId then max received.amount 0 else 0 := by
  rcases h.of_ite with ⟨-, hpaid⟩ | ⟨hzero, hpure⟩
  · obtain ⟨_, s1, hfund, h1⟩ := hpaid.of_bind
    obtain ⟨payer, -, h2⟩ := of_fetch h1
    obtain ⟨fees, s2, hfees, h3⟩ := h2.of_bind
    obtain ⟨amount, hsub, h4⟩ := h3.of_lift
    obtain ⟨_, s3, hadjust, hpure⟩ := h4.of_bind
    obtain ⟨rfl, rfl⟩ := hpure.of_pure
    obtain ⟨-, rfl⟩ := Asset.sub_eq_ok hsub
    have hsame : SameBalances s s2 := IsTrans.trans _ _ _
      (updateBitasset_sameBalances _ _ _ _ _ hfund) (payMarketFees_sameBalances _ _ _ _ _ _ _ hfees)
    have hbefore (id : AssetId) : getBalance account id s2 = getBalance account id s :=
      congrArg (fun t : Rows (AccountId × AssetId) Int => (t.lookup (account, id)).getD 0) hsame
    refine ⟨Or.inr ⟨payer, s1, fees, s2, hfees, rfl⟩, fun id => ?_⟩
    rcases returns_onlyIf.mp hadjust with ⟨hpos, hadjust⟩ | ⟨hpos, rfl⟩
    · rw [getBalance_of_adjustBalance hadjust, hbefore, max_eq_left hpos.le]
      simp
    · rw [hbefore, max_eq_right (not_lt.mp hpos)]
      simp
  · obtain ⟨rfl, rfl⟩ := hpure.of_pure
    refine ⟨Or.inl ⟨not_lt.mp hzero, rfl⟩, fun id => ?_⟩
    rw [max_eq_right (not_lt.mp hzero)]
    simp

namespace AssetSettleOperation

variable {op : AssetSettleOperation}

variable {u : Unit}

theorem of_doEvaluate (h : Returns op.doEvaluate s u s') :
    s' = s ∧ op.amount.amount ≤ getBalance op.account op.amount.assetId s := by
  obtain ⟨a, -, h1⟩ := of_fetch h
  obtain ⟨b, -, h2⟩ := h1.of_lift
  obtain ⟨_, s1, hcheck, h3⟩ := h2.of_bind
  have hs1 : s1 = s := by
    obtain ⟨-, hrest⟩ := of_require hcheck
    rcases hrest.of_ite with ⟨-, hrest⟩ | ⟨-, hrest⟩
    · exact (returns_require.mp hrest).2
    · exact (returns_require.mp hrest).2
  rw [hs1] at h3
  obtain ⟨-, -, h4⟩ := of_fetch h3
  obtain ⟨hle, hs'⟩ := returns_require.mp (h4.of_get)
  exact ⟨hs', hle⟩

variable {r : SettleResult} {ctx : TransactionEvaluationState}

theorem of_applySettled (hs : Solvent mia backing f s) (hasset : op.amount.assetId = mia)
    (ha : s.assets.find mia = some a) (hb : a.bitasset = some b)
    (h : Returns (op.applySettled a b) s r s') :
    ∃ received s1 s2, 0 < f.supply0 ∧
      Returns (adjustBalance op.account ⟨-f.burned op.amount.amount, mia⟩) s () s1 ∧
      Returns (paySettled op.account mia ⟨f.taken op.amount.amount, backing⟩) s1 received s2 ∧
      Returns (adjustSupply mia (-f.burned op.amount.amount)) s2 () s' := by
  obtain ⟨hbacking, hprice, hfund, hsupply⟩ := hs.holds.of_find ha hb
  obtain ⟨fee, account, ⟨n, id⟩⟩ := op
  obtain rfl : id = mia := hasset
  obtain ⟨settled, hsettled, h1⟩ := h.of_lift
  rw [hsupply] at hsettled h1
  obtain ⟨rfl, hpos⟩ := settledAmount_eq_taken hprice hfund hsettled
  obtain ⟨-, h2⟩ := of_require h1
  obtain ⟨pays, hpays, h3⟩ := h2.of_lift
  obtain rfl := settlementPays_eq_burned hs.distinct hprice hpays
  obtain ⟨_, s1, hburn, h4⟩ := h3.of_bind
  obtain ⟨received, s2, hpay, h5⟩ := h4.of_bind
  obtain ⟨_, s3, hadjust, h6⟩ := h5.of_bind
  obtain ⟨-, rfl⟩ := h6.of_pure
  exact ⟨received, s1, s2, hpos, hburn, hpay, hadjust⟩

theorem applySettled_spec (hs : Solvent mia backing f s) (hasset : op.amount.assetId = mia)
    (hnonneg : 0 ≤ op.amount.amount) (ha : s.assets.find mia = some a) (hb : a.bitasset = some b)
    (h : Returns (op.applySettled a b) s r s') :
    Holds mia backing (f.settle op.amount.amount) s' ∧ s'.BalancesNonneg ∧
      s'.publicBalance mia = s.publicBalance mia - f.burned op.amount.amount ∧ 0 < f.supply0 := by
  obtain ⟨received, s1, s2, hpos, hburn, hpay, hadjust⟩ := of_applySettled hs hasset ha hb h
  obtain ⟨-, hnonneg1, hpublic1, -⟩ := adjustBalance_spec hburn hs.nonneg
  obtain ⟨hholds2, hnonneg2, hpublic2⟩ := paySettled_spec hpay
    (hs.holds.feesOnly (adjustBalance_feesOnly _ _ _ _ _ hburn)) rfl (hs.sound.taken_nonneg hnonneg)
    hs.distinct hnonneg1
  have hsame := adjustSupply_sameBalances _ _ _ _ _ hadjust
  refine ⟨hholds2.adjustSupply hadjust, balancesNonneg_congr hsame hnonneg2, ?_, hpos⟩
  rw [publicBalance_congr hsame, hpublic2, hpublic1]
  exact congrArg _ (if_pos rfl)

theorem amount_le_supply (hs : Solvent mia backing f s) (hasset : op.amount.assetId = mia)
    (h : Returns op.doEvaluate s u s') : op.amount.amount ≤ f.supply := by
  have hle := (of_doEvaluate h).2
  rw [hasset] at hle
  unfold getBalance at hle
  cases hlookup : s.balances.lookup (op.account, mia) with
  | none =>
    rw [hlookup, Option.getD_none] at hle
    exact hle.trans hs.sound.supply_nonneg
  | some balance =>
    rw [hlookup, Option.getD_some] at hle
    exact hle.trans ((hs.nonneg.le_publicBalance hlookup).trans hs.held)

theorem of_validate (h : op.validate = .ok u) : 0 ≤ op.fee.amount ∧ 0 ≤ op.amount.amount := by
  obtain ⟨hfee, h⟩ := of_fcAssert h
  exact ⟨hfee, fcAssert_eq_ok.mp h⟩

theorem doApply_eq_applySettled (hs : Solvent mia backing f s) (hasset : op.amount.assetId = mia)
    (h : Returns op.doApply s r s') :
    ∃ a b, s.assets.find mia = some a ∧ a.bitasset = some b ∧
      Returns (op.applySettled a b) s r s' := by
  obtain ⟨a, ha, h1⟩ := of_fetch h
  rw [hasset] at ha
  obtain ⟨b, hb, h2⟩ := h1.of_lift
  rw [bitassetData_eq_ok] at hb
  obtain ⟨-, hprice, -⟩ := hs.holds.of_find ha hb
  rcases h2.of_ite with ⟨-, hsettled⟩ | ⟨hnot, -⟩
  · exact ⟨a, b, ha, hb, hsettled⟩
  · exact absurd (hasSettlement_of_price hs.distinct hprice) hnot

variable {requiredFee : Int}

theorem of_evaluate (hs : Solvent mia backing f s) (hasset : op.amount.assetId = mia)
    (h : Returns (op.evaluate ctx requiredFee) s r s') :
    ∃ a b s2 s3, 0 ≤ op.fee.amount ∧ 0 ≤ op.amount.amount ∧ op.amount.amount ≤ f.supply ∧
      FeesOnly s s2 ∧ SameBalances s s2 ∧ s2.assets.find mia = some a ∧ a.bitasset = some b ∧
      Returns (op.applySettled a b) s2 r s3 ∧
      Returns (adjustBalance op.account op.fee.neg) s3 () s' := by
  obtain ⟨_, hvalid, h1⟩ := h.of_lift
  obtain ⟨hfee, hnonneg⟩ := of_validate hvalid
  obtain ⟨coreFeePaid, _, s1, t1, s2, s3, -, hevaluate, hconvert, hpay, happly, hadjust⟩ :=
    of_startEvaluateWith h1
  have hle := amount_le_supply hs hasset hevaluate
  rw [(of_doEvaluate hevaluate).1] at hconvert
  have hfees : FeesOnly s s2 :=
    (convertFee_feesOnly _ _ _ _ _ _ hconvert).trans (payFee_feesOnly _ _ _ _ _ _ hpay)
  have hbalances : SameBalances s s2 :=
    IsTrans.trans _ _ _ (convertFee_sameBalances _ _ _ _ _ _ hconvert)
      (payFee_sameBalances _ _ _ _ _ _ hpay)
  obtain ⟨a, b, ha, hb, hsettled⟩ :=
    doApply_eq_applySettled (hs.feesPaid hfees hbalances) hasset happly
  exact ⟨a, b, s2, s3, hfee, hnonneg, hle, hfees, hbalances, ha, hb, hsettled, hadjust⟩

/-- The settler is credited with what was taken out of the fund, less the market fee. -/
theorem evaluate_credits (hs : Solvent mia backing f s) (hasset : op.amount.assetId = mia)
    (h : Returns (op.evaluate ctx requiredFee) s r s') :
    ∃ received, LessMarketFee ⟨f.taken op.amount.amount, backing⟩ received ∧
      getBalance op.account backing s' = getBalance op.account backing s + max received.amount 0 -
        if backing = op.fee.assetId then op.fee.amount else 0 := by
  obtain ⟨a, b, s2, s3, -, -, -, hfees, hbalances, ha, hb, hsettled, hadjust⟩ :=
    of_evaluate hs hasset h
  obtain ⟨received, t1, t2, -, hburn, hpay, hsupply⟩ :=
    of_applySettled (hs.feesPaid hfees hbalances) hasset ha hb hsettled
  obtain ⟨hless, hcredit⟩ := paySettled_credits hpay
  have hsame {t t' : State} (hsame : SameBalances t t') :
      getBalance op.account backing t' = getBalance op.account backing t :=
    congrArg (fun t : Rows (AccountId × AssetId) Int => (t.lookup (op.account, backing)).getD 0) hsame
  refine ⟨received, hless, ?_⟩
  rw [getBalance_of_adjustBalance hadjust, hsame (adjustSupply_sameBalances _ _ _ _ _ hsupply), hcredit,
    if_pos rfl, getBalance_of_adjustBalance hburn, if_neg (fun hand => hs.distinct hand.2),
    hsame hbalances, add_zero]
  show _ + (if op.account = op.account ∧ backing = op.fee.assetId then -op.fee.amount else 0) = _
  split <;> simp_all [Int.sub_eq_add_neg]

variable {account : AccountId}

theorem publicBalance_fee_le {fee : Asset} (hfee : 0 ≤ fee.amount) (hs : s.BalancesNonneg)
    (h : Returns (adjustBalance account fee.neg) s () s') (id : AssetId) :
    s'.publicBalance id ≤ s.publicBalance id := by
  obtain ⟨-, -, hpublic, -⟩ := adjustBalance_spec h hs
  rw [hpublic]
  have hpaid : (if id = fee.neg.assetId then fee.neg.amount else 0) ≤ 0 := by
    split
    · exact Int.neg_nonpos_of_nonneg hfee
    · exact Int.le_refl 0
  omega

theorem evaluate_spec (hs : Solvent mia backing f s) (hasset : op.amount.assetId = mia)
    (h : Returns (op.evaluate ctx requiredFee) s r s') :
    Solvent mia backing (f.settle op.amount.amount) s' := by
  obtain ⟨a, b, s2, s3, hfee, hnonneg, hle, hfees, hbalances, ha, hb, hsettled, hadjust⟩ :=
    of_evaluate hs hasset h
  have hs2 := hs.feesPaid hfees hbalances
  obtain ⟨hholds, hnonneg3, hpublic, hpos⟩ :=
    applySettled_spec hs2 hasset hnonneg ha hb hsettled
  refine ⟨hholds.feesOnly (adjustBalance_feesOnly _ _ _ _ _ hadjust),
    hs.sound.settle hpos hnonneg hle, hs.distinct, (adjustBalance_spec hadjust hnonneg3).2.1, ?_⟩
  have hheld := hs2.held
  have hpaid := publicBalance_fee_le hfee hnonneg3 hadjust mia
  change s'.publicBalance mia ≤ f.supply - f.burned op.amount.amount
  omega

def fundSuffices : String := "settled_amount.amount <= bitasset.settlement_fund"

theorem fundSuffices_notMem : fundSuffices ∉ ledgerTexts := by
  simp [fundSuffices, ledgerTexts]

theorem ne_fundSuffices : "Asset is not a market issued asset." ≠ fundSuffices := by
  simp [fundSuffices]

theorem doEvaluate_avoids : Avoids fundSuffices op.doEvaluate :=
  .bind (fetch_avoids fundSuffices_notMem _ _) fun _ =>
    .bind (.lift (bitassetData_ne_error ne_fundSuffices _)) fun _ =>
    .bind (.bind (.require (by simp [fundSuffices])) fun _ =>
      .ite (.require (by simp [fundSuffices])) (.require (by simp [fundSuffices]))) fun _ =>
    .bind (fetch_avoids fundSuffices_notMem _ _) fun _ =>
    .bind .get fun _ => .require (by simp [fundSuffices])

theorem settledAmount_ne_error (hs : f.Sound) {b : BitassetData} {n : Int}
    (hprice : b.settlementPrice = ⟨⟨f.supply0, mia⟩, ⟨f.gathered0, backing⟩⟩)
    (hfund : b.settlementFund = f.fund) (hle : n ≤ f.supply) :
    settledAmount b f.supply ⟨n, mia⟩ ≠ .error (.fc fundSuffices) := by
  unfold settledAmount
  intro h
  cases hmul : Asset.mul ⟨n, mia⟩ b.settlementPrice with
  | error e =>
    rw [hmul] at h
    cases h
    exact asset_mul_ne_error fundSuffices_notMem _ _ hmul
  | ok settled =>
    rw [hmul] at h
    rw [hprice] at hmul
    obtain ⟨hpos, -, -, rfl⟩ := (Asset.mul_base_eq_ok (by rfl)).mp hmul
    change (if _ then _ else _) = _ at h
    split at h
    · cases h
    · have hquotient : n * f.gathered0 / f.supply0 ≤ b.settlementFund :=
        hfund ▸ hs.quotient_le hpos hle
      rw [fcAssert, if_pos hquotient] at h
      cases h

theorem paySettled_avoids {settled : Asset} :
    Avoids fundSuffices (paySettled account mia settled) :=
  .ite (.bind (updateBitasset_avoids fundSuffices_notMem ne_fundSuffices _ fun _ =>
      bind_ne_error (safe_ne_error fundSuffices_notMem _) fun _ => nofun) fun _ =>
    .bind (fetch_avoids fundSuffices_notMem _ _) fun _ =>
    .bind (payMarketFees_avoids fundSuffices_notMem _ _ _ _) fun _ =>
    .bind (.lift (asset_sub_ne_error fundSuffices_notMem _ _)) fun _ =>
    .bind (.ite (adjustBalance_avoids fundSuffices_notMem _ _) (.pure _)) fun _ => .pure _)
    (.pure _)

theorem evaluate_fundSuffices (hs : Solvent mia backing f s) (hasset : op.amount.assetId = mia) :
    ¬Raises (op.evaluate ctx requiredFee) s (.fc fundSuffices) := by
  intro h
  have hvalidate : op.validate ≠ .error (.fc fundSuffices) :=
    bind_ne_error (fcAssert_ne_error (by simp [fundSuffices])) fun _ =>
      fcAssert_ne_error (by simp [fundSuffices])
  rcases Raises.lift_bind_iff.mp h with hvalid | ⟨_, hvalid, h1⟩
  · exact hvalidate hvalid
  obtain hevaluate | ⟨_, s1, s2, hevaluate, hfees, hbalances, happly⟩ :=
    of_raises_startEvaluate fundSuffices_notMem h1
  · exact doEvaluate_avoids s hevaluate
  have hle := amount_le_supply hs hasset hevaluate
  rw [(of_doEvaluate hevaluate).1] at hfees hbalances
  have hs2 := hs.feesPaid hfees hbalances
  obtain ⟨fee, account, ⟨n, id⟩⟩ := op
  obtain rfl : id = mia := hasset
  rcases Raises.bind_iff.mp happly with hfetch | ⟨a, s3, hfetch, h2⟩
  · exact fetch_avoids fundSuffices_notMem _ _ _ hfetch
  obtain ⟨ha, rfl⟩ := Table.fetch_iff.mp hfetch
  rcases Raises.lift_bind_iff.mp h2 with hb | ⟨b, hb, h3⟩
  · exact bitassetData_ne_error ne_fundSuffices a hb
  rw [bitassetData_eq_ok] at hb
  obtain ⟨-, hprice, hfund, hsupply⟩ := hs2.holds.of_find ha hb
  rcases Raises.ite_iff.mp h3 with ⟨-, h4⟩ | ⟨hnot, -⟩
  · rcases Raises.lift_bind_iff.mp h4 with hsettled | ⟨settled, -, h5⟩
    · rw [hsupply] at hsettled
      exact settledAmount_ne_error hs.sound hprice hfund hle hsettled
    · -- what follows holds no such assertion
      refine Avoids.bind (.require (by simp [fundSuffices])) (fun _ => .bind (.lift ?_) fun _ =>
        .bind (adjustBalance_avoids fundSuffices_notMem _ _) fun _ =>
        .bind paySettled_avoids fun _ =>
        .bind (adjustSupply_avoids fundSuffices_notMem _ _) fun _ => .pure _) _ h5
      unfold settlementPays
      split
      · exact multiplyAndRoundUp_ne_error fundSuffices_notMem _ _
      · exact nofun
  · exact hnot (hasSettlement_of_price hs.distinct hprice)

end AssetSettleOperation

end Settle

structure Closes (mia backing : AssetId) (ids : List Nat) (s s' : State) : Prop where
  bids : s'.collateralBids = s.collateralBids
  calls : ∀ id, s'.callOrders.find id = if id ∈ ids then none else s.callOrders.find id
  supply : ∀ a, s.assets.find mia = some a →
    ∃ n, s'.assets.find mia = some { a with currentSupply := n }
  balances : s.BalancesNonneg →
    s'.BalancesNonneg ∧ ∀ id, id ≠ backing → s'.publicBalance id = s.publicBalance id

variable {price : Price}

theorem settleCall_spec {gathered gathered' : Asset} {id : Nat} {order : CallOrder}
    (h : Returns (settleCall price gathered id) s gathered' s')
    (horder : s.callOrders.find id = some order) (hdebt : order.debtType = mia)
    (hcollateral : 0 ≤ order.collateral) :
    Closes mia gathered.assetId [id] s s' ∧ gathered'.assetId = gathered.assetId ∧
      gathered.amount ≤ gathered'.amount := by
  obtain ⟨order', horder', h1⟩ := of_fetch h
  obtain rfl : order = order' := Option.some.inj (horder.symm.trans horder')
  obtain ⟨full, hfull, h2⟩ := h1.of_lift
  obtain ⟨pays, hmin, h3⟩ := h2.of_lift
  obtain ⟨sum, hsum, h4⟩ := h3.of_lift
  obtain ⟨closed, s1, hfill, h5⟩ := h4.of_bind
  obtain ⟨hclosed, h6⟩ := of_require h5
  obtain ⟨hgathered', rfl⟩ := h6.of_pure
  obtain ⟨hid, rfl⟩ := Asset.add_eq_ok hsum
  have hpays : 0 ≤ pays.amount := by
    obtain ⟨-, rfl⟩ := Asset.min_eq_ok hmin
    exact le_min (Asset.amount_nonneg_of_multiplyAndRoundUp hfull) hcollateral
  obtain ⟨order', a, s2, hfind, -, hpaid, -, -, ha, -, hrelease, hs'⟩ := of_fillCallOrder hfill
  obtain rfl : order = order' := Option.some.inj (horder.symm.trans hfind)
  obtain ⟨hframe, hbalances⟩ := of_releaseCollateral hrelease
  rw [if_pos hclosed] at hs'
  refine ⟨⟨?_, fun id' => ?_, fun a' ha' => ?_, fun hs => ?_⟩, by rw [hgathered'], ?_⟩
  · rw [hs', hframe]
  · rw [hs', hframe]
    change ((s.callOrders.modify id _).remove id).find id' = _
    rw [Index.find_remove, Index.find_modify]
    by_cases heq : id' = id
    · rw [if_pos heq, if_pos (List.mem_singleton.mpr heq)]
    · rw [if_neg heq, if_neg (fun hmem => heq (List.mem_singleton.mp hmem)), if_neg heq]
  · rw [hs', hframe]
    refine ⟨a'.currentSupply + -order.getDebt.amount, ?_⟩
    change (s.assets.modify order.debtType _).find mia = _
    have ha'' : s.assets.find order.debtType = some a := ha
    rw [Index.find_modify, if_pos hdebt.symm, ha'', Option.map_some]
    rw [hdebt] at ha''
    obtain rfl : a' = a := Option.some.inj (ha'.symm.trans ha'')
    rfl
  · obtain ⟨hnonneg, hpublic⟩ := hbalances hs
    have hsame : s'.balances = s2.balances := by rw [hs']
    refine ⟨balancesNonneg_congr hsame hnonneg, fun id' hne => ?_⟩
    have hfreed : (if closed ∧ id' = order.collateralType then order.collateral - pays.amount
        else 0) = 0 :=
      if_neg fun hand => hne (hand.2.trans (hpaid.trans hid.symm))
    rw [publicBalance_congr hsame, hpublic]
    exact (congrArg _ hfreed).trans (Int.add_zero _)
  · rw [hgathered']
    dsimp only
    omega

theorem Closes.trans {ids ids' : List Nat} {t : State} (h : Closes mia backing ids s s')
    (h' : Closes mia backing ids' s' t) : Closes mia backing (ids ++ ids') s t where
  bids := h'.bids.trans h.bids
  calls id := by
    rw [h'.calls, h.calls]
    by_cases hmem : id ∈ ids <;> by_cases hmem' : id ∈ ids' <;> simp [hmem, hmem']
  supply a ha := by
    obtain ⟨n, hn⟩ := h.supply a ha
    obtain ⟨m, hm⟩ := h'.supply _ hn
    exact ⟨m, hm⟩
  balances hs := by
    obtain ⟨hnonneg, hpublic⟩ := h.balances hs
    obtain ⟨hnonneg', hpublic'⟩ := h'.balances hnonneg
    exact ⟨hnonneg', fun id hne => (hpublic' id hne).trans (hpublic id hne)⟩

theorem settleCalls_spec {gathered gathered' : Asset} {ids : List Nat}
    (h : Returns (settleCalls price gathered ids) s gathered' s') (hnodup : ids.Nodup)
    (horders : ∀ id ∈ ids, ∃ order, s.callOrders.find id = some order ∧ order.debtType = mia ∧
      0 ≤ order.collateral) :
    Closes mia gathered.assetId ids s s' ∧ gathered'.assetId = gathered.assetId ∧
      gathered.amount ≤ gathered'.amount := by
  induction ids generalizing s gathered with
  | nil =>
    obtain ⟨rfl, rfl⟩ := h.of_pure
    refine ⟨⟨rfl, fun id => ?_, fun a ha => ⟨a.currentSupply, ha⟩, fun hs => ⟨hs, fun _ _ => rfl⟩⟩,
      rfl, Int.le_refl _⟩
    rw [if_neg List.not_mem_nil]
  | cons id rest ih =>
    obtain ⟨sum, s1, hcall, hrest⟩ := h.of_bind
    obtain ⟨order, hfind, hdebt, hcollateral⟩ := horders id List.mem_cons_self
    obtain ⟨hcloses, hid, hle⟩ := settleCall_spec hcall hfind hdebt hcollateral
    obtain ⟨hnotMem, hnodup'⟩ := List.nodup_cons.mp hnodup
    have horders' : ∀ id' ∈ rest, ∃ order, s1.callOrders.find id' = some order ∧
        order.debtType = mia ∧ 0 ≤ order.collateral := by
      intro id' hmem
      have hne : id' ∉ [id] := fun heq => hnotMem (List.mem_singleton.mp heq ▸ hmem)
      rw [hcloses.calls, if_neg hne]
      exact horders id' (List.mem_cons_of_mem _ hmem)
    obtain ⟨hcloses', hid', hle'⟩ := ih hrest hnodup' horders'
    rw [hid] at hcloses'
    exact ⟨hcloses.trans hcloses', hid'.trans hid, hle.trans hle'⟩

/-- What a state has to satisfy for a global settlement: nobody holds more than the supply, the call
orders of the asset are positive, and they owe no more than the supply. -/
structure Issued (mia : AssetId) (s : State) : Prop where
  nonneg : s.BalancesNonneg
  calls : ∀ id order, s.callOrders.find id = some order → order.debtType = mia →
    0 < order.debt ∧ 0 ≤ order.collateral
  held : ∀ a, s.assets.find mia = some a → s.publicBalance mia ≤ a.currentSupply
  owed : ∀ a, s.assets.find mia = some a →
    (s.callOrders.total fun _ order => if order.debtType = mia then order.debt else 0) ≤
      a.currentSupply

theorem mem_ordered {V : Type} {before : V → V → Prop} [DecidableRel before]
    {rows : List (Σ _ : Nat, V)} {e : Σ _ : Nat, V} : e ∈ ordered before rows ↔ e ∈ rows :=
  (List.perm_insertionSort _ _).mem_iff

theorem mem_callsByPrice {e : Σ _ : Nat, CallOrder} (h : e ∈ callsByPrice backing mia s) :
    s.callOrders.find e.1 = some e.2 ∧ e.2.debtType = mia ∧ e.2.collateralType = backing := by
  obtain ⟨hmem, hrange⟩ := List.mem_filter.mp (mem_ordered.mp h)
  obtain ⟨hmin, hmax⟩ := of_decide_eq_true hrange
  refine ⟨Rows.mem_entries_iff.mp hmem, ?_⟩
  simp only [Price.le, Price.lt, Price.min, Price.max, not_or, not_and] at hmin hmax
  obtain ⟨hbase, hmin⟩ := hmin
  obtain ⟨hbase', hmax⟩ := hmax
  have hcollateral : e.2.callPrice.base.assetId = backing :=
    Nat.le_antisymm (Nat.not_lt.mp hbase') (Nat.not_lt.mp hbase)
  have hquote := (hmin hcollateral).1
  have hquote' := (hmax hcollateral.symm).1
  exact ⟨Nat.le_antisymm (Nat.not_lt.mp hquote') (Nat.not_lt.mp hquote), hcollateral⟩

theorem callsByPrice_nodup (backing mia : AssetId) (s : State) :
    ((callsByPrice backing mia s).map (·.1)).Nodup := by
  have hperm := (List.perm_insertionSort
    (fun e e' : Σ _ : Nat, CallOrder => e.2.callPrice.lt e'.2.callPrice ∨
      ¬e'.2.callPrice.lt e.2.callPrice ∧ e.1 ≤ e'.1) (s.callOrders.rows.entries.filter fun e =>
      (Price.min backing mia).le e.2.callPrice ∧ e.2.callPrice.le (Price.max backing mia))).map
        (·.1)
  refine hperm.nodup_iff.mpr ?_
  exact (List.filter_sublist.map _).nodup s.callOrders.rows.nodupKeys

theorem Issued.callsByPrice_eq_nil (h : Issued mia s) {a : AssetObject}
    (ha : s.assets.find mia = some a) (hzero : a.currentSupply = 0) :
    callsByPrice backing mia s = [] := by
  refine List.eq_nil_iff_forall_not_mem.mpr fun e he => ?_
  obtain ⟨hfind, hdebt, -⟩ := mem_callsByPrice he
  have hpos := (h.calls _ _ hfind hdebt).1
  have hle : (if e.2.debtType = mia then e.2.debt else 0) ≤
      s.callOrders.rows.total fun _ order => if order.debtType = mia then order.debt else 0 := by
    refine Rows.le_total _ (fun id order horder => ?_) hfind
    split
    · exact (h.calls id order horder ‹_›).1.le
    · exact Int.le_refl 0
  rw [if_pos hdebt] at hle
  have howed := hle.trans (h.owed a ha)
  omega

def settledAsset (mia : AssetId) (a : AssetObject) (b : BitassetData) (gathered : Int) :
    AssetObject :=
  { a with
    bitasset := some { b with
      settlementPrice := ⟨⟨a.currentSupply, mia⟩, ⟨gathered, b.options.shortBackingAsset⟩⟩
      settlementFund := gathered } }

theorem of_globallySettleAsset {u : Unit} (h : Returns (globallySettleAsset mia price) s u s')
    (hcollateral : ∀ id order, s.callOrders.find id = some order → order.debtType = mia →
      0 ≤ order.collateral) :
    ∃ a b gathered s1, s.assets.find mia = some a ∧ a.bitasset = some b ∧
      b.options.shortBackingAsset ≠ mia ∧ 0 ≤ gathered ∧
      (callsByPrice b.options.shortBackingAsset mia s = [] → gathered = 0) ∧
      Closes mia b.options.shortBackingAsset
        ((callsByPrice b.options.shortBackingAsset mia s).map (·.1)) s s1 ∧
      s' = { s1 with assets := s'.assets } ∧
      s'.assets.find mia = some (settledAsset mia a b gathered) := by
  obtain ⟨a, ha, h1⟩ := of_fetch h
  obtain ⟨b, hb, h2⟩ := h1.of_lift
  rw [bitassetData_eq_ok] at hb
  obtain ⟨-, h3⟩ := of_require h2
  obtain ⟨-, -, h4⟩ := of_fetch h3
  obtain ⟨gathered, s1, hcalls, h5⟩ := Returns.of_bind (h4.of_get)
  obtain ⟨stored, hdiv, h6⟩ := h5.of_lift
  obtain ⟨_, s2, hupdate, hsupply⟩ := h6.of_bind
  obtain ⟨hdistinct, hstored⟩ := of_fcAssert hdiv
  cases hstored
  have horders : ∀ id ∈ (callsByPrice b.options.shortBackingAsset mia s).map (·.1),
      ∃ order, s.callOrders.find id = some order ∧ order.debtType = mia ∧
        0 ≤ order.collateral := by
    intro id hmem
    obtain ⟨e, he, rfl⟩ := List.mem_map.mp hmem
    obtain ⟨hfind, hdebt, -⟩ := mem_callsByPrice he
    exact ⟨e.2, hfind, hdebt, hcollateral _ _ hfind hdebt⟩
  obtain ⟨hcloses, hid, hle⟩ := settleCalls_spec hcalls (callsByPrice_nodup _ _ _) horders
  obtain ⟨gathered, gatheredId⟩ := gathered
  obtain rfl : gatheredId = b.options.shortBackingAsset := hid
  -- the loop leaves the asset with another supply; the fund and the old supply are written after it
  obtain ⟨n, hn⟩ := hcloses.supply a ha
  obtain ⟨a1, b1, b2, ha1, hb1, hb2, hs2, -⟩ := of_updateBitasset hupdate
  obtain rfl : _ = a1 := Option.some.inj (hn.symm.trans ha1)
  obtain rfl : b = b1 := Option.some.inj (hb.symm.trans hb1)
  cases hb2
  obtain ⟨a2, a3, ha2, ha3, hs', -⟩ := assetView_of_update hsupply
  cases ha3
  rw [hs2] at ha2 hs'
  refine ⟨a, b, gathered, s1, ha, hb, fun heq => hdistinct heq.symm, hle, fun hnil => ?_, hcloses,
    ?_, ?_⟩
  · rw [hnil] at hcalls
    obtain ⟨heq, -⟩ := hcalls.of_pure
    exact congrArg Asset.amount heq
  · rw [hs']
  · rw [hs']
    change ((s1.assets.modify mia _).modify mia _).find mia = _
    change (s1.assets.modify mia _).find mia = some a2 at ha2
    rw [Index.find_modify, if_pos rfl, ha2, Option.map_some]
    rw [Index.find_modify, if_pos rfl, hn, Option.map_some] at ha2
    rw [← Option.some.inj ha2]
    rfl

theorem globallySettleAsset_spec {u : Unit} (h : Returns (globallySettleAsset mia price) s u s')
    (hs : Issued mia s) :
    ∃ a b gathered, s.assets.find mia = some a ∧ a.bitasset = some b ∧
      Solvent mia b.options.shortBackingAsset (.start a.currentSupply gathered) s' := by
  obtain ⟨a, b, gathered, s1, ha, hb, hdistinct, hgathered, hnil, hcloses, hs', hasset⟩ :=
    of_globallySettleAsset h fun id order horder hdebt => (hs.calls id order horder hdebt).2
  obtain ⟨hnonneg, hpublic⟩ := hcloses.balances hs.nonneg
  have hsame : s'.balances = s1.balances := by
    rw [hs']
  have hsupply : 0 ≤ a.currentSupply :=
    (hs.nonneg.publicBalance_nonneg mia).trans (hs.held a ha)
  refine ⟨a, b, gathered, ha, hb, ⟨_, _, State.assetView_of_find hasset, rfl, rfl, rfl, rfl, rfl⟩,
    Fund.sound_start hsupply hgathered fun hzero => hnil (hs.callsByPrice_eq_nil ha hzero),
    hdistinct, balancesNonneg_congr hsame hnonneg, ?_⟩
  rw [publicBalance_congr hsame, hpublic mia hdistinct.symm]
  exact hs.held a ha

def fundUsedUp : String := "bad.settlement_fund == 0"

theorem fundUsedUp_notMem : fundUsedUp ∉ ledgerTexts := by
  simp [fundUsedUp, ledgerTexts]

theorem ne_fundUsedUp : "Asset is not a market issued asset." ≠ fundUsedUp := by
  simp [fundUsedUp]

theorem executeBid_avoids (id : Nat) (debt collateral : Int) :
    Avoids fundUsedUp (executeBid id debt collateral) :=
  .bind (fetch_avoids fundUsedUp_notMem _ _) fun _ =>
    .bind (.lift (safe_ne_error fundUsedUp_notMem _)) fun _ =>
    .bind (.bind .get fun _ => .bind (.require (by simp [fundUsedUp])) fun _ =>
      .bind (create_avoids _ _) fun _ => .pure _) fun _ =>
    .bind (.ite (update_avoids fundUsedUp_notMem _ _ fun _ =>
      bind_ne_error (safe_ne_error fundUsedUp_notMem _) fun _ => nofun) (.pure _)) fun _ => .modify _

theorem cancelBids_avoids (ids : List Nat) : Avoids fundUsedUp (cancelBids ids) := by
  induction ids with
  | nil => exact .pure _
  | cons id rest ih =>
    exact .bind (.bind (fetch_avoids fundUsedUp_notMem _ _) fun _ =>
      .bind (adjustBalance_avoids fundUsedUp_notMem _ _) fun _ => .modify _) fun _ => ih

theorem cancelBidsAndReviveMpa_avoids (bitasset bad : AssetId) :
    Avoids fundUsedUp (cancelBidsAndReviveMpa bitasset bad) :=
  .bind (fetch_avoids fundUsedUp_notMem _ _) fun _ =>
    .bind (.require (by simp [fundUsedUp])) fun _ =>
    .bind (fetch_avoids fundUsedUp_notMem _ _) fun _ =>
    .bind (.lift (bitassetData_ne_error ne_fundUsedUp _)) fun _ =>
    .bind (.require (by simp [fundUsedUp])) fun _ => .bind (.require (by simp [fundUsedUp])) fun _ =>
    .bind .get fun _ => .bind (cancelBids_avoids _) fun _ =>
      updateBitasset_avoids fundUsedUp_notMem ne_fundUsedUp _ fun _ => nofun

theorem reviveBitasset_fundUsedUp (hs : Solvent mia backing f s) :
    ¬Raises (reviveBitasset mia) s (.fc fundUsedUp) := by
  intro h
  obtain ⟨a, s1, hfetch, h1⟩ := (fetch_avoids fundUsedUp_notMem _ _).raises_bind h
  obtain ⟨ha, rfl⟩ := Table.fetch_iff.mp hfetch
  rcases Raises.lift_bind_iff.mp h1 with hb | ⟨b, hb, h2⟩
  · exact bitassetData_ne_error ne_fundUsedUp a hb
  rw [bitassetData_eq_ok] at hb
  obtain ⟨-, -, hfund, hsupply⟩ := hs.holds.of_find ha hb
  refine Avoids.bind (.require (by simp [fundUsedUp])) (fun _ =>
    .bind (.require (by simp [fundUsedUp])) fun _ =>
    .bind (.require (by simp [fundUsedUp])) fun _ => ?_) _ h2
  split
  · exact .bind (.bind (.lift (asset_div_ne_error fundUsedUp_notMem _ _)) fun _ =>
      .bind (.bind .get fun _ => .bind (.require (by simp [fundUsedUp])) fun _ =>
        create_avoids _ _) fun _ => executeBid_avoids _ _ _) fun _ =>
      cancelBidsAndReviveMpa_avoids _ _
  · rename_i hnone
    have hzero : b.settlementFund = 0 := by
      rw [hfund]
      refine hs.sound.empty ?_
      have hnonneg := hs.sound.supply_nonneg
      omega
    intro t hraises
    rcases Raises.bind_iff.mp hraises with hrequire | ⟨_, t', -, hrest⟩
    · exact (raises_require.mp hrequire).1 hzero
    · exact cancelBidsAndReviveMpa_avoids _ _ _ hrest

abbrev SettleEvent := TransactionEvaluationState × Int × AssetSettleOperation

/-- A transaction with one `asset_settle` operation -/
def settleStep (s : State) (e : SettleEvent) : Except Exception State :=
  commit (e.2.2.evaluate e.1 e.2.1) s

theorem Solvent.of_reachable {s0 s1 s : State} (hissued : Issued mia s0)
    (hsettle : Returns (globallySettleAsset mia price) s0 () s1)
    (hrun : Reachable settleStep (· = s1) (fun _ e => e.2.2.amount.assetId = mia) s) :
    ∃ a0 b0 f, s0.assets.find mia = some a0 ∧ a0.bitasset = some b0 ∧
      f.supply0 = a0.currentSupply ∧ Solvent mia b0.options.shortBackingAsset f s := by
  obtain ⟨a, b, gathered, ha, hb, hsolvent⟩ := globallySettleAsset_spec hsettle hissued
  refine hrun.invariant (fun s => ∃ a0 b0 f, s0.assets.find mia = some a0 ∧
    a0.bitasset = some b0 ∧ f.supply0 = a0.currentSupply ∧
    Solvent mia b0.options.shortBackingAsset f s) ?_ ?_
  · rintro s rfl
    exact ⟨a, b, _, ha, hb, rfl, hsolvent⟩
  · rintro s ⟨ctx, requiredFee, op⟩ s' ⟨a0, b0, f, ha0, hb0, hsupply, hs⟩ hasset hstep
    obtain ⟨r, hreturns⟩ := commit_eq_ok.mp hstep
    exact ⟨a0, b0, f.settle op.amount.amount, ha0, hb0, hsupply,
      AssetSettleOperation.evaluate_spec hs hasset hreturns⟩

def fundOf (mia : AssetId) (s : State) : Option (Int × Price) :=
  ((s.assets.find mia).bind AssetObject.bitasset).map fun b => (b.settlementFund, b.settlementPrice)

/-- An account owes `debt` of the second asset, which the third one backs and others hold. -/
def sampleState (debt collateral : Int) (balances : Rows (AccountId × AssetId) Int) : State where
  accounts := (((Index.create ∅ ⟨0, 0, 0, [], [], none, 0, 0, 0⟩).create
    ⟨0, 0, 0, [], [], none, 0, 0, 0⟩).create ⟨0, 0, 0, [], [], none, 0, 0, 0⟩).create
    ⟨0, 0, 0, [], [], none, 0, 0, 0⟩
  balances := balances
  assets := ((Index.create ∅
    { issuer := 0, options := { coreExchangeRate := ⟨⟨1, core⟩, ⟨1, core⟩⟩ } }).create
    { issuer := 0, options := { coreExchangeRate := ⟨⟨1, 1⟩, ⟨1, core⟩⟩ }, currentSupply := debt
      bitasset := some
        { options := { shortBackingAsset := 2 }
          currentFeed := { settlementPrice := ⟨⟨1, 1⟩, ⟨1, 2⟩⟩ } } }).create
    { issuer := 0, options := { coreExchangeRate := ⟨⟨1, 2⟩, ⟨1, core⟩⟩ } }
  callOrders := Index.create ∅ ⟨3, collateral, debt, ⟨⟨1, 2⟩, ⟨1, 1⟩⟩, none⟩

def sampleHolders : Rows (AccountId × AssetId) Int := (AList.insert (2, 1) 1 ∅).insert (1, 1) 2

def sampleSettle (account : AccountId) (amount : Int) : SettleEvent :=
  ({}, 0, ⟨⟨0, core⟩, account, ⟨amount, 1⟩⟩)

theorem sampleState_issued : Issued 1 (sampleState 3 5 sampleHolders) where
  nonneg := by
    intro k v hv
    change (sampleHolders : Rows (AccountId × AssetId) Int).lookup k = some v at hv
    unfold sampleHolders at hv
    rw [Rows.lookup_insert_eq, Rows.lookup_insert_eq] at hv
    split at hv
    · cases hv
      decide
    split at hv
    · cases hv
      decide
    · cases hv
  calls := by
    refine Index.forall_find_iff.mpr ?_
    decide
  held := by
    rintro a ⟨⟩
    decide
  owed := by
    rintro a ⟨⟩
    decide

end Meta1Core.Settlement
