import Meta1Core.Ledger.Supply

/-!
# Market fees (`db_market.cpp`, `asset_ops.cpp`)

A market fee is a percentage of what a trade pays to an account.  A percentage of it is the reward
of the registrar and the referrer of that account; the rest is accumulated for the issuer.
-/

namespace Meta1Core.Ledger

open Lib (Rows Index Returns Relates StepsMeet bind_eq_ok of_bind)
open Protocol

/-- `asset_options::validate`.  The flags have no bits of unknown meaning. -/
def AssetOptions.validate (o : AssetOptions) : Except Exception Unit := do
  fcAssert (0 < o.maxSupply) "max_supply > 0"
  fcAssert (o.maxSupply ≤ maxShareSupply) "max_supply <= GRAPHENE_MAX_SHARE_SUPPLY"
  fcAssert (o.marketFeePercent ≤ percent100) "market_fee_percent <= GRAPHENE_100_PERCENT"
  fcAssert (∀ p ∈ o.takerFeePercent, p ≤ percent100)
    "*extensions.value.taker_fee_percent <= GRAPHENE_100_PERCENT"
  fcAssert (0 ≤ o.maxMarketFee ∧ o.maxMarketFee ≤ maxShareSupply)
    "max_market_fee >= 0 && max_market_fee <= GRAPHENE_MAX_SHARE_SUPPLY"
  fcAssert (¬o.flags.globalSettle) "!(flags & global_settle)"
  fcAssert (¬(o.flags.witnessFedAsset ∧ o.flags.committeeFedAsset))
    "(flags & (witness_fed_asset | committee_fed_asset)) != (witness_fed_asset | committee_fed_asset)"
  o.coreExchangeRate.validate
  fcAssert (o.coreExchangeRate.base.assetId = core ∨ o.coreExchangeRate.quote.assetId = core)
    "core_exchange_rate.base.asset_id.instance.value == 0 || core_exchange_rate.quote.asset_id.instance.value == 0"
  fcAssert (o.whitelistAuthorities = [] ∧ o.blacklistAuthorities = [] ∨ o.flags.whiteList)
    "flags & white_list"
  fcAssert (∀ item ∈ o.whitelistMarkets, item ∉ o.blacklistMarkets)
    "blacklist_markets.find(item) == blacklist_markets.end()"
  fcAssert (∀ item ∈ o.blacklistMarkets, item ∉ o.whitelistMarkets)
    "whitelist_markets.find(item) == whitelist_markets.end()"
  fcAssert (∀ p ∈ o.rewardPercent, p ≤ percent100)
    "*extensions.value.reward_percent <= GRAPHENE_100_PERCENT"

structure AssetOptions.FeesBounded (o : AssetOptions) : Prop where
  maker_le : o.marketFeePercent ≤ percent100
  taker_le : ∀ p ∈ o.takerFeePercent, p ≤ percent100
  maxFee_nonneg : 0 ≤ o.maxMarketFee
  reward_le : o.rewardPercent.getD 0 ≤ percent100

theorem AssetOptions.feesBounded {o : AssetOptions} (h : o.validate = .ok ()) : o.FeesBounded := by
  unfold validate at h
  simp only [fcAssert_bind_eq_ok] at h
  obtain ⟨-, -, hmaker, htaker, hmax, -, -, h⟩ := h
  obtain ⟨_, -, h⟩ := of_bind h
  simp only [fcAssert_bind_eq_ok, fcAssert_eq_ok] at h
  obtain ⟨-, -, -, -, hreward⟩ := h
  refine ⟨hmaker, htaker, hmax.1, ?_⟩
  cases hsome : o.rewardPercent with
  | none => exact Nat.zero_le _
  | some p => exact hreward p hsome

theorem calculatePercent_spec {value : Int} {percent : Nat} (hnonneg : 0 ≤ value)
    (hle : value ≤ maxShareSupply) (hpercent : percent ≤ percent100) :
    ∃ r, calculatePercent value percent = .ok r ∧ 0 ≤ r ∧ r ≤ value := by
  have hproduct : value * percent ≤ value * percent100 := by
    apply mul_le_mul_of_nonneg_left _ hnonneg
    exact_mod_cast hpercent
  have hproduct0 : 0 ≤ value * percent := mul_nonneg hnonneg (Int.natCast_nonneg _)
  have hcast : ((uint128 (uint128 value * percent) / percent100 : Nat) : Int) =
      value * percent / percent100 := by
    unfold maxShareSupply at hle
    rw [Int.natCast_ediv, uint128_of_nonneg hnonneg (by omega), uint128_of_nonneg hproduct0]
    unfold percent100 at hproduct
    omega
  have hquotient : value * percent / percent100 ≤ value :=
    Int.ediv_le_of_le_mul (by decide) hproduct
  have hquotient0 : 0 ≤ value * percent / percent100 :=
    Int.ediv_nonneg hproduct0 (by decide)
  unfold calculatePercent
  dsimp only
  rw [hcast, fcAssert, if_pos (hquotient.trans hle)]
  exact ⟨_, rfl, hquotient0, hquotient⟩

theorem calculateMarketFee_spec {id : AssetId} {a : AssetObject} {receives : Int}
    (ha : a.options.FeesBounded) (hnonneg : 0 ≤ receives) (hle : receives ≤ maxShareSupply)
    (isMaker : Bool) :
    ∃ fee, calculateMarketFee id a ⟨receives, id⟩ isMaker = .ok ⟨fee, id⟩ ∧ 0 ≤ fee ∧
      fee ≤ receives ∧ fee ≤ a.options.maxMarketFee := by
  have hmax := ha.maxFee_nonneg
  have hzero : ∃ fee, (Except.ok ⟨0, id⟩ : Except Exception Asset) = .ok ⟨fee, id⟩ ∧ 0 ≤ fee ∧
      fee ≤ receives ∧ fee ≤ a.options.maxMarketFee :=
    ⟨0, rfl, le_rfl, hnonneg, hmax⟩
  have hpercent : (if isMaker then a.options.marketFeePercent
      else a.options.takerFeePercent.getD a.options.marketFeePercent) ≤ percent100 := by
    split
    · exact ha.maker_le
    · cases htaker : a.options.takerFeePercent with
      | none => exact ha.maker_le
      | some p => exact ha.taker_le p htaker
  unfold calculateMarketFee
  dsimp only
  split
  · exact hzero
  split
  · exact hzero
  split
  · exact hzero
  · obtain ⟨value, hvalue, hvalue0, hvalue_le⟩ := calculatePercent_spec hnonneg hle hpercent
    rw [hvalue]
    exact ⟨min value a.options.maxMarketFee, rfl, le_min hvalue0 hmax,
      (min_le_left _ _).trans hvalue_le, min_le_right _ _⟩

def State.feesHeld (s : State) (id : AssetId) : Int :=
  s.accumulatedFees id + s.vestingBalances.total fun _ v => VestingBalance.held v id

structure FeesFit (id : AssetId) (amount : Int) (s : State) : Prop where
  accumulated_nonneg : 0 ≤ s.accumulatedFees id
  vesting_nonneg : ∀ i v, s.vestingBalances.find i = some v → 0 ≤ VestingBalance.held v id
  room : s.feesHeld id + amount ≤ maxShareSupply

variable {s s' t : State} {id : AssetId} {amounts : AssetId → Int}

theorem held_eq (v : VestingBalance) (i : AssetId) (delta : Int) :
    VestingBalance.held { v with balance := ⟨v.balance.amount + delta, v.balance.assetId⟩ } i =
      VestingBalance.held v i + if i = v.balance.assetId then delta else 0 := by
  unfold VestingBalance.held
  split
  · rfl
  · rfl

theorem returns_depositMarketFee (hfit : ∀ j, FeesFit j (amounts j) s) (account : AccountId)
    {delta : Int} (hnonneg : 0 ≤ delta) (hle : delta ≤ amounts id) :
    ∃ s', Returns (depositMarketFeeVestingBalance account ⟨delta, id⟩) s () s' ∧
      (∀ j, FeesFit j (amounts j - if j = id then delta else 0) s') ∧
      Flows (.toMarketFees account ⟨delta, id⟩) s s' ∧ s'.accounts = s.accounts ∧
      s'.assets = s.assets := by
  unfold depositMarketFeeVestingBalance
  by_cases hzero : delta = 0
  · subst hzero
    refine ⟨s, returns_require_bind.mpr ⟨hnonneg, Returns.ite_iff.mpr
      (Or.inl ⟨rfl, rfl⟩)⟩, fun j => ?_, ?_, rfl, rfl⟩
    · rw [ite_self, sub_zero]
      exact hfit j
    · rw [Flow.toMarketFees_zero]
      exact .refl s
  -- the flow and the room, once the balances are written
  have hmoved (t : Index VestingBalance)
      (hnonneg : ∀ i v, t.find i = some v → ∀ j, 0 ≤ VestingBalance.held v j)
      (htotal : ∀ w : VestingBalance → Int,
        (∀ v : VestingBalance, v.owner = account → v.balance.assetId = id →
          w { v with balance := ⟨v.balance.amount + delta, v.balance.assetId⟩ } = w v + w ⟨account, ⟨delta, id⟩⟩) →
        t.total (fun _ => w) = s.vestingBalances.total (fun _ => w) + w ⟨account, ⟨delta, id⟩⟩) :
      (∀ j, FeesFit j (amounts j - if j = id then delta else 0) { s with vestingBalances := t }) ∧
        Flows (.toMarketFees account ⟨delta, id⟩) s { s with vestingBalances := t } := by
    constructor
    · intro j
      have hroom := (hfit j).room
      have hheld := htotal (fun v => VestingBalance.held v j) fun v _ hid => by
        rw [held_eq, hid]
        rfl
      refine ⟨(hfit j).accumulated_nonneg, fun i v hv => hnonneg i v hv j, ?_⟩
      unfold State.feesHeld at hroom ⊢
      show s.accumulatedFees j + t.total _ + _ ≤ _
      rw [hheld]
      unfold VestingBalance.held at hroom ⊢
      dsimp only
      omega
    · refine ⟨fun _ _ => (add_zero _).symm, fun a i => ?_, fun _ => (add_zero _).symm,
        fun _ => (add_zero _).symm, fun _ => (add_zero _).symm, fun _ => (add_zero _).symm⟩
      have hfees := htotal
        (fun v => if v.owner = a ∧ v.balance.assetId = i then v.balance.amount else 0)
        fun v howner hid => by
          dsimp only
          rw [howner, hid]
          split
          · rfl
          · rfl
      refine hfees.trans ?_
      unfold Flow.toMarketFees
      simp only [@eq_comm _ a account, @eq_comm _ i id]
      rfl
  cases hfind : findMarketFeeBalance account id s with
  | none =>
    obtain ⟨hfits, hflows⟩ := hmoved (s.vestingBalances.create ⟨account, ⟨delta, id⟩⟩)
      (fun i v hv j => by
        rw [Index.find_create] at hv
        split at hv
        · cases hv
          unfold VestingBalance.held
          split
          · exact hnonneg
          · exact le_rfl
        · exact (hfit j).vesting_nonneg i v hv)
      (fun w _ => Index.total_create _ _ _)
    refine ⟨_, returns_require_bind.mpr ⟨hnonneg, Returns.ite_iff.mpr (Or.inr ⟨hzero,
      Returns.get_bind_iff.mpr ?_⟩)⟩, hfits, hflows, rfl, rfl⟩
    dsimp only
    rw [hfind]
    exact Returns.bind_iff.mpr ⟨_, _, Table.create_iff.mpr ⟨rfl, rfl⟩,
      rfl⟩
  | some i =>
    obtain ⟨v, hv, hkey⟩ := Index.of_findId_eq_some hfind
    obtain ⟨howner, hid⟩ : v.owner = account ∧ v.balance.assetId = id := by simpa using hkey
    have hbalance : v.balance.add ⟨delta, id⟩ =
        .ok ⟨v.balance.amount + delta, v.balance.assetId⟩ := by
      have hheld : VestingBalance.held v id = v.balance.amount := if_pos hid.symm
      have hle_total := Index.weightAt_le_total (hfit id).vesting_nonneg i
      have hold := (hfit id).vesting_nonneg i v hv
      have haccumulated := (hfit id).accumulated_nonneg
      have hroom := (hfit id).room
      rw [Index.weightAt_of_find hv] at hle_total
      unfold State.feesHeld maxShareSupply at hroom
      have hsafe : safe (v.balance.amount + delta) = .ok (v.balance.amount + delta) :=
        safe_eq_ok.mpr ⟨rfl, by omega, by omega⟩
      exact fcAssert_bind_eq_ok.mpr ⟨hid, bind_eq_ok.mpr ⟨_, hsafe, rfl⟩⟩
    obtain ⟨hfits, hflows⟩ := hmoved (s.vestingBalances.modify i fun _ =>
        { v with balance := ⟨v.balance.amount + delta, v.balance.assetId⟩ })
      (fun k u hu j => by
        rw [Index.find_modify] at hu
        split at hu
        · rw [hv] at hu
          cases hu
          have hold := (hfit j).vesting_nonneg i v hv
          rw [held_eq]
          split <;> omega
        · exact (hfit j).vesting_nonneg k u hu)
      (fun w hw => by
        rw [Index.total_modify _ hv, hw v howner hid]
        ring)
    refine ⟨_, returns_require_bind.mpr ⟨hnonneg, Returns.ite_iff.mpr (Or.inr ⟨hzero,
      Returns.get_bind_iff.mpr ?_⟩)⟩, hfits, hflows, rfl, rfl⟩
    dsimp only
    rw [hfind]
    exact Table.update_iff.mpr ⟨v, _, hv, bind_eq_ok.mpr ⟨_, hbalance, rfl⟩, rfl⟩

/-! ## Rewards -/

/-- How a fee is split between the registrar and the referrer of an account and the issuer -/
structure Split where
  registrar : Int
  referrer : Int
  issuer : Int

structure Split.Of (x : Split) (fee : Int) : Prop where
  registrar_nonneg : 0 ≤ x.registrar
  referrer_nonneg : 0 ≤ x.referrer
  issuer_nonneg : 0 ≤ x.issuer
  sum_eq : x.registrar + x.referrer + x.issuer = fee

def Split.rewards (x : Split) (seller : AccountObject) (id : AssetId) : Flow :=
  .toMarketFees seller.referrer ⟨x.referrer, id⟩ + .toMarketFees seller.registrar ⟨x.registrar, id⟩

structure Referred (seller : AccountObject) (s : State) : Prop where
  registrar : ∃ a, s.accounts.find seller.registrar = some a
  referrer : ∃ a, s.accounts.find seller.referrer = some a
  percentage_le : seller.referrerRewardsPercentage ≤ percent100

theorem returns_payRegistrar (hfit : ∀ j, FeesFit j (amounts j) s) (seller : AccountObject)
    {rest : Int} (hnonneg : 0 ≤ rest) (hle : rest ≤ amounts id) (reward : Int) :
    ∃ s', Returns (do
        if 0 < rest then depositMarketFeeVestingBalance seller.registrar ⟨rest, id⟩
        return reward) s reward s' ∧
      (∀ j, FeesFit j (amounts j - if j = id then rest else 0) s') ∧
      Flows (.toMarketFees seller.registrar ⟨rest, id⟩) s s' ∧ s'.assets = s.assets := by
  by_cases hpos : 0 < rest
  · obtain ⟨s', hdeposit, hfit', hflows, -, hassets⟩ :=
      returns_depositMarketFee hfit seller.registrar hnonneg hle
    refine ⟨s', ?_, hfit', hflows, hassets⟩
    rw [if_pos hpos]
    exact Returns.bind_iff.mpr ⟨(), s', hdeposit, rfl⟩
  · obtain rfl : rest = 0 := by omega
    refine ⟨s, ?_, fun j => ?_, ?_, rfl⟩
    · rw [if_neg hpos]
      exact rfl
    · rw [ite_self, sub_zero]
      exact hfit j
    · rw [Flow.toMarketFees_zero]
      exact .refl s

def PaysRewards (amounts : AssetId → Int) (seller : AccountObject) (id : AssetId) (fee : Int)
    (s : State) (x : Evaluation Int) : Prop :=
  ∃ y : Split, ∃ s', y.Of fee ∧ Returns x s (y.registrar + y.referrer) s' ∧
    (∀ j, FeesFit j (amounts j - if j = id then y.registrar + y.referrer else 0) s') ∧
    Flows (y.rewards seller id) s s' ∧ s'.assets = s.assets

theorem PaysRewards.imp {seller : AccountObject} {fee : Int} {x y : Evaluation Int}
    (h : PaysRewards amounts seller id fee s x)
    (hxy : ∀ r s', Returns x s r s' → Returns y s r s') :
    PaysRewards amounts seller id fee s y := by
  obtain ⟨z, s', hof, hreturns, hrest⟩ := h
  exact ⟨z, s', hof, hxy _ _ hreturns, hrest⟩

theorem PaysRewards.lift {seller : AccountObject} {fee : Int} {α : Type} {x : Except Exception α}
    {v : α} {f : α → Evaluation Int} (hx : x = .ok v)
    (h : PaysRewards amounts seller id fee s (f v)) :
    PaysRewards amounts seller id fee s (liftM x >>= f) :=
  h.imp fun _ _ hf => Returns.lift_bind_iff.mpr ⟨v, hx, hf⟩

theorem PaysRewards.fetch {seller : AccountObject} {fee : Int} {account : AccountId}
    {v : AccountObject} {f : AccountObject → Evaluation Int} (hv : s.accounts.find account = some v)
    (h : PaysRewards amounts seller id fee s (f v)) :
    PaysRewards amounts seller id fee s (accounts.fetch account >>= f) :=
  h.imp fun _ _ hf => returns_fetch_bind.mpr ⟨v, hv, hf⟩

section Rewards

variable {seller : AccountObject} {fee reward : Int}

theorem paysRewards_none (hfit : ∀ j, FeesFit j (amounts j) s) (hfee : 0 ≤ fee) :
    PaysRewards amounts seller id fee s (pure 0) := by
  refine ⟨⟨0, 0, fee⟩, s, ⟨le_rfl, le_rfl, hfee, by dsimp only; omega⟩,
    rfl, fun j => ?_, ?_, rfl⟩
  · dsimp only
    rw [add_zero, ite_self, sub_zero]
    exact hfit j
  · unfold Split.rewards
    rw [Flow.toMarketFees_zero, Flow.toMarketFees_zero, add_zero]
    exact .refl s

theorem paysRewards_registrar (seller : AccountObject) (hfit : ∀ j, FeesFit j (amounts j) s)
    (hreward : 0 ≤ reward) (hreward_le : reward ≤ fee) (hle : fee ≤ amounts id) :
    PaysRewards amounts seller id fee s (do
      if 0 < reward then depositMarketFeeVestingBalance seller.registrar ⟨reward, id⟩
      return reward) := by
  obtain ⟨s', hpay, hfit', hflows, hassets⟩ :=
    returns_payRegistrar hfit seller hreward (hreward_le.trans hle) reward
  refine ⟨⟨reward, 0, fee - reward⟩, s', ⟨hreward, le_rfl, sub_nonneg.mpr hreward_le, ?_⟩,
    ?_, fun j => ?_, ?_, hassets⟩
  · dsimp only
    omega
  · rw [add_zero]
    exact hpay
  · rw [add_zero]
    exact hfit' j
  · unfold Split.rewards
    rw [Flow.toMarketFees_zero, zero_add]
    exact hflows

theorem paysRewards_referrer (hfit : ∀ j, FeesFit j (amounts j) s) {part : Int} (hpart : 0 ≤ part)
    (hpart_le : part ≤ reward) (hreward_le : reward ≤ fee) (hle : fee ≤ amounts id)
    (hfee : fee ≤ maxShareSupply) :
    PaysRewards amounts seller id fee s (do
      require (part ≤ reward) "Referrer reward shouldn't be greater than total reward"
      let registrarReward ← safe (reward - part)
      depositMarketFeeVestingBalance seller.referrer ⟨part, id⟩
      if 0 < registrarReward then
        depositMarketFeeVestingBalance seller.registrar ⟨registrarReward, id⟩
      return reward) := by
  obtain ⟨s1, hdeposit, hfit1, hflows1, -, hassets1⟩ :=
    returns_depositMarketFee hfit seller.referrer hpart ((hpart_le.trans hreward_le).trans hle)
  obtain ⟨s', hpay, hfit', hflows, hassets⟩ := returns_payRegistrar hfit1 seller
    (sub_nonneg.mpr hpart_le) (by rw [if_pos rfl]; omega) reward
  have hsafe : safe (reward - part) = .ok (reward - part) := by
    unfold maxShareSupply at hfee
    exact safe_eq_ok.mpr ⟨rfl, by omega, by omega⟩
  refine ⟨⟨reward - part, part, fee - reward⟩, s', ⟨sub_nonneg.mpr hpart_le, hpart,
    sub_nonneg.mpr hreward_le, by dsimp only; omega⟩, ?_, fun j => ?_, hflows1.trans hflows,
    hassets.trans hassets1⟩
  · dsimp only
    rw [sub_add_cancel]
    exact returns_require_bind.mpr ⟨hpart_le, Returns.lift_bind_iff.mpr ⟨_, hsafe,
      Returns.bind_iff.mpr ⟨(), s1, hdeposit, hpay⟩⟩⟩
  · refine cast (congrArg (FeesFit j · s') ?_) (hfit' j)
    dsimp only
    split <;> omega

theorem paysRewards_payRewards (hfit : ∀ j, FeesFit j (amounts j) s) (hseller : Referred seller s)
    {a : AssetObject} (ha : a.options.FeesBounded) (hfee : 0 ≤ fee) (hle : fee ≤ amounts id)
    (hmax : fee ≤ maxShareSupply) :
    PaysRewards amounts seller id fee s (payRewards seller id a ⟨fee, id⟩) := by
  have hnone : PaysRewards amounts seller id fee s (pure 0) := paysRewards_none hfit hfee
  obtain ⟨reward, hreward, hreward0, hreward_le⟩ := calculatePercent_spec hfee hmax ha.reward_le
  obtain ⟨part, hpart, hpart0, hpart_le⟩ :=
    calculatePercent_spec hreward0 (hreward_le.trans hmax) hseller.percentage_le
  obtain ⟨registrar, hregistrar⟩ := hseller.registrar
  obtain ⟨referrer, hreferrer⟩ := hseller.referrer
  have hwhole := paysRewards_registrar seller hfit hreward0 hreward_le hle
  unfold payRewards
  dsimp only
  split
  · exact hnone
  split
  · exact hnone
  apply PaysRewards.lift hreward
  split
  · exact hnone
  apply PaysRewards.fetch hregistrar
  split
  · exact hnone
  apply PaysRewards.imp _ fun r s' h => returns_require_bind.mpr ⟨hreward_le, h⟩
  split
  swap
  · exact hwhole
  apply PaysRewards.lift hpart
  apply PaysRewards.fetch hreferrer
  split
  · exact paysRewards_referrer hfit hpart0 hpart_le hreward_le hle hmax
  · exact hwhole

end Rewards

/-! ## Market fees -/

def Split.flow (x : Split) (seller : Option AccountObject) (id : AssetId) : Flow :=
  seller.elim 0 (x.rewards · id) + .toAccumulatedFees id x.issuer

structure Split.OfTrade (x : Split) (seller : Option AccountObject) (fee : Int) : Prop
    extends x.Of fee where
  of_none : seller = none → x.issuer = fee

section Trade

variable {seller : Option AccountObject} {a : AssetObject} {fee receives : Int}

theorem exists_rewards (hfit : ∀ j, FeesFit j (amounts j) s) (hseller : ∀ b ∈ seller, Referred b s)
    (ha : a.options.FeesBounded) (hfee : 0 ≤ fee) (hle : fee ≤ amounts id)
    (hmax : fee ≤ maxShareSupply) :
    ∃ x : Split, ∃ s', x.OfTrade seller fee ∧
      Returns (seller.elim (pure 0) fun b => payRewards b id a ⟨fee, id⟩) s
        (x.registrar + x.referrer) s' ∧
      (∀ j, FeesFit j (amounts j - if j = id then x.registrar + x.referrer else 0) s') ∧
      Flows (seller.elim 0 (x.rewards · id)) s s' ∧ s'.assets = s.assets := by
  cases seller with
  | none =>
    refine ⟨⟨0, 0, fee⟩, s, ⟨⟨le_rfl, le_rfl, hfee, by dsimp only; omega⟩, fun _ => rfl⟩,
      rfl, fun j => ?_, .refl s, rfl⟩
    dsimp only
    rw [add_zero, ite_self, sub_zero]
    exact hfit j
  | some b =>
    obtain ⟨x, s', hof, hreturns, hfit', hflows, hassets⟩ :=
      paysRewards_payRewards hfit (hseller b rfl) ha hfee hle hmax
    exact ⟨x, s', ⟨hof, fun h => nomatch h⟩, hreturns, hfit', hflows, hassets⟩

theorem returns_accumulate (hfit : ∀ j, FeesFit j (amounts j) s) (ha : s.assets.find id = some a)
    {reward : Int} (hreward : 0 ≤ reward) (hreward_le : reward ≤ fee)
    (hle : fee - reward ≤ amounts id) (hmax : fee ≤ maxShareSupply) :
    ∃ s', Returns (if reward < fee then assets.update id fun a => do
          let rest ← safe (fee - reward)
          return { a with accumulatedFees := ← safe (a.accumulatedFees + rest) }
        else pure ()) s () s' ∧
      (∀ j, FeesFit j (amounts j - if j = id then fee - reward else 0) s') ∧
      Flows (.toAccumulatedFees id (fee - reward)) s s' := by
  by_cases hlt : reward < fee
  · have haccumulated : s.accumulatedFees id = a.accumulatedFees := Index.weightAt_of_find ha
    have hnonneg : 0 ≤ a.accumulatedFees := haccumulated ▸ (hfit id).accumulated_nonneg
    have hvesting : 0 ≤ s.vestingBalances.total fun _ v => VestingBalance.held v id :=
      Index.total_nonneg (hfit id).vesting_nonneg
    have hroom := (hfit id).room
    unfold State.feesHeld maxShareSupply at hroom
    unfold maxShareSupply at hmax
    have hrest : safe (fee - reward) = .ok (fee - reward) :=
      safe_eq_ok.mpr ⟨rfl, by omega, by omega⟩
    have hsum : safe (a.accumulatedFees + (fee - reward)) =
        .ok (a.accumulatedFees + (fee - reward)) :=
      safe_eq_ok.mpr ⟨rfl, by omega, by omega⟩
    have hupdate : Returns (assets.update id fun a => do
        let rest ← safe (fee - reward)
        return { a with accumulatedFees := ← safe (a.accumulatedFees + rest) }) s ()
        { s with assets := s.assets.modify id fun _ =>
          { a with accumulatedFees := a.accumulatedFees + (fee - reward) } } :=
      Table.update_iff.mpr ⟨a, _, ha, bind_eq_ok.mpr ⟨_, hrest,
        bind_eq_ok.mpr ⟨_, hsum, rfl⟩⟩, rfl⟩
    have hflows : Flows (.toAccumulatedFees id (fee - reward) + .toFeePool id 0) s
        { s with assets := s.assets.modify id fun _ =>
          { a with accumulatedFees := a.accumulatedFees + (fee - reward) } } := by
      apply Flows.updateAsset hupdate
      intro b b' hb
      obtain ⟨rest, hrest', hb⟩ := of_bind hb
      obtain ⟨fees, hfees, heq⟩ := of_bind hb
      obtain ⟨rfl, -⟩ := of_safe hrest'
      obtain ⟨rfl, -⟩ := of_safe hfees
      cases heq
      exact ⟨rfl, (add_zero _).symm⟩
    rw [Flow.toFeePool_zero, add_zero] at hflows
    refine ⟨_, Returns.ite_iff.mpr (Or.inl ⟨hlt, hupdate⟩), fun j => ?_, hflows⟩
    have hmoved := hflows.accumulatedFees j
    have hold := hfit j
    refine ⟨?_, hold.vesting_nonneg, ?_⟩
    · rw [hmoved]
      show 0 ≤ _ + if j = id then fee - reward else 0
      have := hold.accumulated_nonneg
      split <;> omega
    · show _ + s.vestingBalances.total _ + _ ≤ _
      rw [hmoved]
      show _ + (if j = id then fee - reward else 0) + _ + _ ≤ _
      have hroom := hold.room
      unfold State.feesHeld at hroom
      omega
  · obtain rfl : reward = fee := by omega
    refine ⟨s, Returns.ite_iff.mpr (Or.inr ⟨hlt, rfl⟩), fun j => ?_, ?_⟩
    · rw [sub_self, ite_self, sub_zero]
      exact hfit j
    · rw [sub_self, Flow.toAccumulatedFees_zero]
      exact .refl s

theorem returns_payCalculatedMarketFees (hfit : ∀ j, FeesFit j (amounts j) s)
    (hseller : ∀ b ∈ seller, Referred b s) (ha : s.assets.find id = some a)
    (hbounded : a.options.FeesBounded) (hfee : 0 ≤ fee) (hle : fee ≤ receives)
    (hreceives : receives ≤ amounts id) (hmax : receives ≤ maxShareSupply) :
    ∃ x : Split, ∃ s', x.OfTrade seller fee ∧
      Returns (payCalculatedMarketFees seller id ⟨receives, id⟩ ⟨fee, id⟩) s () s' ∧
      (∀ j, FeesFit j (amounts j - if j = id then fee else 0) s') ∧
      Flows (x.flow seller id) s s' := by
  have hassert {s' : State} (h : Returns (do
      if 0 < fee then
        let a ← assets.fetch id
        let reward ← seller.elim (pure 0) fun b => payRewards b id a ⟨fee, id⟩
        if reward < fee then
          assets.update id fun a => do
            let rest ← safe (fee - reward)
            return { a with accumulatedFees := ← safe (a.accumulatedFees + rest) }) s () s') :
      Returns (payCalculatedMarketFees seller id ⟨receives, id⟩ ⟨fee, id⟩) s () s' :=
    Returns.lift_bind_iff.mpr ⟨_, Asset.le_eq rfl, returns_require_bind.mpr ⟨decide_eq_true hle, h⟩⟩
  by_cases hpos : 0 < fee
  · obtain ⟨x, s1, hof, hpay, hfit1, hflows1, hassets1⟩ :=
      exists_rewards hfit hseller hbounded hfee (hle.trans hreceives) (hle.trans hmax)
    have hsum := hof.sum_eq
    have hissuer := hof.issuer_nonneg
    have hreward : 0 ≤ x.registrar + x.referrer :=
      add_nonneg hof.registrar_nonneg hof.referrer_nonneg
    have hrest : fee - (x.registrar + x.referrer) = x.issuer := by omega
    obtain ⟨s', haccumulate, hfit', hflows'⟩ := returns_accumulate hfit1
      (by rw [hassets1]; exact ha) hreward (by omega) (by rw [if_pos rfl]; omega) (hle.trans hmax)
    rw [hrest] at hflows'
    refine ⟨x, s', hof, hassert ?_, fun j => ?_, hflows1.trans hflows'⟩
    · rw [if_pos hpos]
      exact returns_fetch_bind.mpr ⟨a, ha, Returns.bind_iff.mpr ⟨_, s1, hpay, haccumulate⟩⟩
    · refine cast (congrArg (FeesFit j · s') ?_) (hfit' j)
      split <;> omega
  · obtain rfl : fee = 0 := by omega
    refine ⟨⟨0, 0, 0⟩, s, ⟨⟨le_rfl, le_rfl, le_rfl, rfl⟩, fun _ => rfl⟩, hassert ?_, fun j => ?_, ?_⟩
    · rw [if_neg hpos]
      exact rfl
    · rw [ite_self, sub_zero]
      exact hfit j
    · have hflow : (Split.mk 0 0 0).flow seller id = 0 := by
        cases seller <;> simp [Split.flow, Split.rewards]
      rw [hflow]
      exact .refl s

/-- Whoever sells, the market fee of a trade is within its bounds, and all of it is paid. -/
structure PaysFee (seller : Option AccountObject) (id : AssetId) (a : AssetObject) (receives : Int)
    (isMaker : Bool) (s : State) (fee : Int) (x : Split) (s' : State) : Prop where
  calculated : calculateMarketFee id a ⟨receives, id⟩ isMaker = .ok ⟨fee, id⟩
  returns : Returns (payMarketFees seller id ⟨receives, id⟩ isMaker) s ⟨fee, id⟩ s'
  returns_calculated : Returns (payCalculatedMarketFees seller id ⟨receives, id⟩ ⟨fee, id⟩) s () s'
  fee_nonneg : 0 ≤ fee
  fee_le : fee ≤ receives
  fee_le_max : fee ≤ a.options.maxMarketFee
  ofTrade : x.OfTrade seller fee
  flows : Flows (x.flow seller id) s s'

theorem exists_paysFee (hfit : ∀ j, FeesFit j (amounts j) s)
    (hseller : ∀ b ∈ seller, Referred b s) (ha : s.assets.find id = some a)
    (hvalid : a.options.validate = .ok ()) (hnonneg : 0 ≤ receives)
    (hreceives : receives ≤ amounts id) (isMaker : Bool) :
    ∃ fee x s', PaysFee seller id a receives isMaker s fee x s' ∧
      ∀ j, FeesFit j (amounts j - if j = id then fee else 0) s' := by
  have hbounded := AssetOptions.feesBounded hvalid
  have hmax : receives ≤ maxShareSupply := by
    have hroom := (hfit id).room
    have haccumulated := (hfit id).accumulated_nonneg
    have hvesting := Index.total_nonneg (hfit id).vesting_nonneg
    unfold State.feesHeld at hroom
    omega
  obtain ⟨fee, hcalculated, hfee, hle, hle_max⟩ :=
    calculateMarketFee_spec hbounded hnonneg hmax isMaker
  obtain ⟨x, s', hof, hpay, hfit', hflows⟩ :=
    returns_payCalculatedMarketFees hfit hseller ha hbounded hfee hle hreceives hmax
  have hreturns : Returns (payMarketFees seller id ⟨receives, id⟩ isMaker) s ⟨fee, id⟩ s' :=
    returns_fetch_bind.mpr ⟨a, ha, Returns.lift_bind_iff.mpr ⟨_, hcalculated,
      Returns.bind_iff.mpr ⟨(), s', hpay, rfl⟩⟩⟩
  exact ⟨fee, x, s', ⟨hcalculated, hreturns, hpay, hfee, hle, hle_max, hof, hflows⟩, hfit'⟩

end Trade

/-! ## Any number of trades -/

/-- A ledger, and how much of each asset trades can move -/
structure Circulation where
  ledger : State
  circulating : AssetId → Int

namespace Circulation

/-- What is circulating and what fees hold are together within the supply. -/
def Sound (c : Circulation) : Prop := ∀ id, FeesFit id (c.circulating id) c.ledger

/-- A trade pays its market fee, or the ledger changes in another way. -/
inductive Event where
  | trade (seller : Option AccountObject) (id : AssetId) (receives : Int) (isMaker : Bool)
  | elsewhere (c : Circulation)

def step (c : Circulation) : Event → Except Exception Circulation
  | .trade seller id receives isMaker =>
    match payMarketFees seller id ⟨receives, id⟩ isMaker c.ledger with
    | .ok fee ledger =>
      .ok ⟨ledger, fun j => c.circulating j - if j = id then fee.amount else 0⟩
    | .error e _ => .error e
  | .elsewhere c' => .ok c'

/-- A trade of an account, if any, with a registrar and a referrer receives an amount that
circulates of an asset whose options have been validated. -/
def Admits (c : Circulation) : Event → Prop
  | .trade seller id receives _ =>
    (∀ b ∈ seller, Referred b c.ledger) ∧
      (∃ a, c.ledger.assets.find id = some a ∧ a.options.validate = .ok ()) ∧
      0 ≤ receives ∧ receives ≤ c.circulating id
  | .elsewhere c' => c'.Sound

theorem Sound.exists_step {c : Circulation} (h : c.Sound) {e : Event} (hadmits : c.Admits e) :
    ∃ c', c.step e = .ok c' ∧ c'.Sound := by
  cases e with
  | trade seller id receives isMaker =>
    obtain ⟨hseller, ⟨a, ha, hvalid⟩, hnonneg, hle⟩ := hadmits
    obtain ⟨fee, x, s', hpays, hfit⟩ := exists_paysFee h hseller ha hvalid hnonneg hle isMaker
    have hreturns : payMarketFees seller id ⟨receives, id⟩ isMaker c.ledger = .ok ⟨fee, id⟩ s' :=
      hpays.returns
    refine ⟨⟨s', fun j => c.circulating j - if j = id then fee else 0⟩, ?_, hfit⟩
    simp only [Circulation.step, hreturns]
  | elsewhere c' => exact ⟨c', rfl, hadmits⟩

theorem Sound.exists_run {c : Circulation} (h : c.Sound) {es : List Event}
    (hmeet : StepsMeet step Admits c es) : ∃ c', Lib.run step c es = .ok c' ∧ c'.Sound := by
  induction es generalizing c with
  | nil => exact ⟨c, rfl, h⟩
  | cons e es ih =>
    obtain ⟨c1, hstep, hsound⟩ := h.exists_step hmeet.1
    have hrest := hmeet.2
    rw [hstep] at hrest
    obtain ⟨c', hrun, hsound'⟩ := ih hsound hrest
    exact ⟨c', Lib.run_cons_eq_ok.mpr ⟨c1, hstep, hrun⟩, hsound'⟩

/-- However many trades have paid market fees before, the fee of a trade is within its bounds and
is split exactly, and no assertion fails. -/
theorem payMarketFees_exact {c : Circulation} (h : c.Sound) {es : List Event}
    (hmeet : StepsMeet step Admits c es) :
    ∃ c', Lib.run step c es = .ok c' ∧
      ∀ seller id receives isMaker, c'.Admits (.trade seller id receives isMaker) →
        ∃ a fee x s', c'.ledger.assets.find id = some a ∧
          PaysFee seller id a receives isMaker c'.ledger fee x s' := by
  obtain ⟨c', hrun, hsound⟩ := h.exists_run hmeet
  refine ⟨c', hrun, fun seller id receives isMaker hadmits => ?_⟩
  obtain ⟨hseller, ⟨a, ha, hvalid⟩, hnonneg, hle⟩ := hadmits
  obtain ⟨fee, x, s', hpays, -⟩ := exists_paysFee hsound hseller ha hvalid hnonneg hle isMaker
  exact ⟨a, fee, x, s', ha, hpays⟩

def referredSeller : AccountObject where
  registrar := 1
  referrer := 2
  referrerRewardsPercentage := 3333

def chargingAsset : AssetObject where
  issuer := 1
  options := {
    marketFeePercent := 1000
    flags := { chargeMarketFee := true }
    coreExchangeRate := ⟨⟨1, 1⟩, ⟨2, 0⟩⟩
    rewardPercent := some 5000 }

def untraded : Circulation where
  ledger := {
    accounts := (((∅ : Index AccountObject).create referredSeller).create
      { registrar := 1, referrer := 1 }).create { registrar := 1, referrer := 1 }
    assets := ((∅ : Index AssetObject).create
      { issuer := 0, options := { coreExchangeRate := ⟨⟨1, 0⟩, ⟨1, 0⟩⟩ } }).create chargingAsset }
  circulating _ := maxShareSupply

def traded : Circulation where
  ledger := {
    accounts := untraded.ledger.accounts
    assets := ((∅ : Index AssetObject).create
      { issuer := 0, options := { coreExchangeRate := ⟨⟨1, 0⟩, ⟨1, 0⟩⟩ } }).create
        { chargingAsset with accumulatedFees := 31 }
    vestingBalances := ((∅ : Index VestingBalance).create ⟨2, ⟨9, 1⟩⟩).create ⟨1, ⟨21, 1⟩⟩ }
  circulating j := maxShareSupply - if j = 1 then 61 else 0

theorem untraded_sound : untraded.Sound := by
  intro j
  have haccumulated : untraded.ledger.accumulatedFees j = 0 := by
    match j with
    | 0 => decide
    | 1 => decide
    | _ + 2 => rfl
  refine ⟨haccumulated.ge, Index.forall_find_iff.mpr fun e he => (nomatch he), ?_⟩
  unfold State.feesHeld
  rw [haccumulated]
  show 0 + 0 + maxShareSupply ≤ maxShareSupply
  decide

theorem referredSeller_referred {s : State} (h : s.accounts = untraded.ledger.accounts) :
    ∀ b ∈ some referredSeller, Referred b s := by
  intro b hb
  cases hb
  exact ⟨⟨_, by rw [h]; rfl⟩, ⟨_, by rw [h]; rfl⟩, by decide⟩

theorem payMarketFees_exact_traded :
    Lib.run step untraded [.trade (some referredSeller) 1 619 false] = .ok traded ∧
      ∃ x s', PaysFee (some referredSeller) 1 { chargingAsset with accumulatedFees := 31 } 1000 true
        traded.ledger 100 x s' := by
  have hrun : Lib.run step untraded [.trade (some referredSeller) 1 619 false] = .ok traded := rfl
  have hmeet : StepsMeet step Admits untraded [.trade (some referredSeller) 1 619 false] :=
    ⟨⟨referredSeller_referred rfl, ⟨chargingAsset, rfl, by decide⟩, by decide, by decide⟩, trivial⟩
  obtain ⟨c', hrun', hpays⟩ := payMarketFees_exact untraded_sound hmeet
  rw [hrun] at hrun'
  cases hrun'
  obtain ⟨a, fee, x, s', ha, hpay⟩ := hpays (some referredSeller) 1 1000 true
    ⟨referredSeller_referred rfl, ⟨_, rfl, by decide⟩, by decide, by decide⟩
  cases ha
  have hfee := hpay.calculated
  cases hfee
  exact ⟨hrun, x, s', hpay⟩

end Circulation

end Meta1Core.Ledger
