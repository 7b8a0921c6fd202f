import Meta1Core.Lib.Rows
import Meta1Core.Lib.Stateful
import Meta1Core.Protocol.Commitment

/-!
# The objects that hold amounts

An asset is kept together with its dynamic data and, if it is market-issued, its bitasset data; an
account is kept together with its statistics.
-/

namespace Meta1Core.Ledger

open Lib (Rows Index Returns)
open Protocol

structure AssetFlags where
  chargeMarketFee : Bool := false
  whiteList : Bool := false
  overrideAuthority : Bool := false
  transferRestricted : Bool := false
  disableForceSettle : Bool := false
  globalSettle : Bool := false
  disableConfidential : Bool := false
  witnessFedAsset : Bool := false
  committeeFedAsset : Bool := false
  deriving DecidableEq

structure AssetOptions where
  maxSupply : Int := maxShareSupply
  marketFeePercent : Nat := 0
  maxMarketFee : Int := maxShareSupply
  issuerPermissions : AssetFlags := {}
  flags : AssetFlags := {}
  coreExchangeRate : Price
  whitelistAuthorities : List AccountId := []
  blacklistAuthorities : List AccountId := []
  whitelistMarkets : List AssetId := []
  blacklistMarkets : List AssetId := []
  rewardPercent : Option Nat := none
  whitelistMarketFeeSharing : Option (List AccountId) := none
  takerFeePercent : Option Nat := none
  deriving DecidableEq

structure BitassetOptions where
  feedLifetimeSec : Nat := 86400
  minimumFeeds : Nat := 1
  forceSettlementDelaySec : Nat := 86400
  forceSettlementOffsetPercent : Nat := 0
  maximumForceSettlementVolume : Nat := 2000
  shortBackingAsset : AssetId := core
  deriving DecidableEq

structure BitassetData where
  options : BitassetOptions
  feeds : List (AccountId × Nat × PriceFeed) := []
  currentFeed : PriceFeed := {}
  currentFeedPublicationTime : Nat := 0
  currentMaintenanceCollateralization : Price := Price.null
  isPredictionMarket : Bool := false
  forceSettledVolume : Int := 0
  settlementPrice : Price := Price.null
  settlementFund : Int := 0
  deriving DecidableEq

def BitassetData.hasSettlement (b : BitassetData) : Prop := ¬b.settlementPrice.isNull

instance (b : BitassetData) : Decidable b.hasSettlement := inferInstanceAs (Decidable (¬_))

structure AssetObject where
  symbol : String := ""
  precision : Nat := 5
  issuer : AccountId
  options : AssetOptions
  currentSupply : Int := 0
  confidentialSupply : Int := 0
  accumulatedFees : Int := 0
  feePool : Int := 0
  bitasset : Option BitassetData := none
  buybackAccount : Option AccountId := none
  forLiquidityPool : Option Nat := none
  deriving DecidableEq

structure AccountObject where
  registrar : AccountId
  referrer : AccountId
  referrerRewardsPercentage : Nat := 0
  whitelistingAccounts : List AccountId := []
  blacklistingAccounts : List AccountId := []
  allowedAssets : Option (List AssetId) := none
  totalCoreInOrders : Int := 0
  pendingFees : Int := 0
  pendingVestedFees : Int := 0
  deriving DecidableEq

/-! ## Orders -/

structure LimitOrder where
  expiration : Nat
  seller : AccountId
  forSale : Int
  sellPrice : Price
  deferredFee : Int
  deferredPaidFee : Asset
  deriving DecidableEq

namespace LimitOrder

def amountForSale (o : LimitOrder) : Asset := ⟨o.forSale, o.sellPrice.base.assetId⟩

def amountToReceive (o : LimitOrder) : Except Exception Asset := o.amountForSale.mul o.sellPrice

def sellAssetId (o : LimitOrder) : AssetId := o.sellPrice.base.assetId

end LimitOrder

structure CallOrder where
  borrower : AccountId
  collateral : Int
  debt : Int
  callPrice : Price
  targetCollateralRatio : Option Nat
  deriving DecidableEq

namespace CallOrder

def debtType (o : CallOrder) : AssetId := o.callPrice.quote.assetId

def collateralType (o : CallOrder) : AssetId := o.callPrice.base.assetId

def getCollateral (o : CallOrder) : Asset := ⟨o.collateral, o.collateralType⟩

def getDebt (o : CallOrder) : Asset := ⟨o.debt, o.debtType⟩

/-- `collateralization`; the two assets of a call price differ, so the division does not throw. -/
def collateralization (o : CallOrder) : Price := ⟨o.getCollateral, o.getDebt⟩

end CallOrder

structure ForceSettlement where
  owner : AccountId
  balance : Asset
  settlementDate : Nat
  deriving DecidableEq

structure CollateralBid where
  bidder : AccountId
  invSwanPrice : Price
  deriving DecidableEq

def CollateralBid.debtType (b : CollateralBid) : AssetId := b.invSwanPrice.quote.assetId

/-- A `vesting_balance_object` of type `market_fee_sharing`; its policy is the instant one. -/
structure VestingBalance where
  owner : AccountId
  balance : Asset
  deriving DecidableEq

structure LiquidityPool where
  assetA : AssetId
  assetB : AssetId
  balanceA : Int := 0
  balanceB : Int := 0
  shareAsset : AssetId
  takerFeePercent : Nat
  withdrawalFeePercent : Nat
  virtualValue : Nat := 0
  deriving DecidableEq

structure BlindedBalance where
  commitment : Commitment
  assetId : AssetId
  owner : Authority PublicKey Address
  deriving DecidableEq

structure FbaAccumulator where
  accumulatedFbaFees : Int := 0
  deriving DecidableEq

/-! ## The database -/

/-- `database`, as far as amounts depend on it -/
structure State where
  headBlockTime : Nat := 0
  cashbackVestingThreshold : Int := 10000000
  accounts : Index AccountObject := ∅
  balances : Rows (AccountId × AssetId) Int := ∅
  assets : Index AssetObject := ∅
  limitOrders : Index LimitOrder := ∅
  callOrders : Index CallOrder := ∅
  forceSettlements : Index ForceSettlement := ∅
  collateralBids : Index CollateralBid := ∅
  vestingBalances : Index VestingBalance := ∅
  liquidityPools : Index LiquidityPool := ∅
  blindedBalances : Index BlindedBalance := ∅
  fbaAccumulators : Index FbaAccumulator := ∅

/-- What an operation does to the database: it returns or throws, and in both cases leaves the
database in some state. -/
abbrev Evaluation := EStateM Exception State

def require (condition : Prop) [Decidable condition] (message : String) : Evaluation Unit :=
  if condition then pure () else throw (.fc message)

structure Table (V : Type) where
  read : State → Index V
  write : State → Index V → State
  read_write : ∀ s t, read (write s t) = t

namespace Table

variable {V : Type} (t : Table V)

def fetch (id : Nat) : Evaluation V := do
  match (t.read (← get)).find id with
  | some v => return v
  | none => throw (.fc "Unable to find Object")

def update (id : Nat) (f : V → Except Exception V) : Evaluation Unit := do
  let v ← f (← t.fetch id)
  modify fun s => t.write s ((t.read s).modify id fun _ => v)

/-- `create`, where no secondary key is unique without the id -/
def create (v : V) : Evaluation Nat := do
  let id := (t.read (← get)).next
  modify fun s => t.write s ((t.read s).create v)
  return id

def remove (id : Nat) : Evaluation Unit :=
  modify fun s => t.write s ((t.read s).remove id)

variable {t} {s s' : State} {id : Nat}

theorem fetch_iff {v : V} :
    Returns (t.fetch id) s v s' ↔ (t.read s).find id = some v ∧ s' = s := by
  unfold fetch
  simp only [Returns.bind_iff, Returns.get_iff]
  constructor
  · rintro ⟨_, _, ⟨rfl, rfl⟩, h⟩
    split at h
    · rename_i heq
      obtain ⟨rfl, rfl⟩ := h.of_pure
      exact ⟨heq, rfl⟩
    · exact (Returns.throw_iff.mp h).elim
  · rintro ⟨hfind, rfl⟩
    refine ⟨s', s', ⟨rfl, rfl⟩, ?_⟩
    rw [hfind]
    exact rfl

theorem update_iff {f : V → Except Exception V} {u : Unit} :
    Returns (t.update id f) s u s' ↔
      ∃ v v', (t.read s).find id = some v ∧ f v = .ok v' ∧
        s' = t.write s ((t.read s).modify id fun _ => v') := by
  unfold update
  simp only [Returns.bind_iff, fetch_iff, Returns.lift_iff, Returns.modify_iff]
  constructor
  · rintro ⟨v, _, ⟨hv, rfl⟩, v', _, ⟨hf, rfl⟩, rfl⟩
    exact ⟨v, v', hv, hf, rfl⟩
  · rintro ⟨v, v', hv, hf, rfl⟩
    exact ⟨v, s, ⟨hv, rfl⟩, v', s, ⟨hf, rfl⟩, rfl⟩

theorem create_iff {v : V} :
    Returns (t.create v) s id s' ↔
      id = (t.read s).next ∧ s' = t.write s ((t.read s).create v) := by
  unfold create
  simp only [Returns.bind_iff, Returns.get_iff, Returns.modify_iff, Returns.pure_iff]
  constructor
  · rintro ⟨_, _, ⟨rfl, rfl⟩, _, _, rfl, rfl, rfl⟩
    exact ⟨rfl, rfl⟩
  · rintro ⟨rfl, rfl⟩
    exact ⟨s, s, ⟨rfl, rfl⟩, (), _, rfl, rfl, rfl⟩

theorem remove_iff {u : Unit} :
    Returns (t.remove id) s u s' ↔ s' = t.write s ((t.read s).remove id) :=
  Returns.modify_iff

end Table

def accounts : Table AccountObject :=
  ⟨State.accounts, fun s t => { s with accounts := t }, fun _ _ => rfl⟩
def assets : Table AssetObject := ⟨State.assets, fun s t => { s with assets := t }, fun _ _ => rfl⟩
def limitOrders : Table LimitOrder :=
  ⟨State.limitOrders, fun s t => { s with limitOrders := t }, fun _ _ => rfl⟩
def callOrders : Table CallOrder :=
  ⟨State.callOrders, fun s t => { s with callOrders := t }, fun _ _ => rfl⟩
def forceSettlements : Table ForceSettlement :=
  ⟨State.forceSettlements, fun s t => { s with forceSettlements := t }, fun _ _ => rfl⟩
def collateralBids : Table CollateralBid :=
  ⟨State.collateralBids, fun s t => { s with collateralBids := t }, fun _ _ => rfl⟩
def vestingBalances : Table VestingBalance :=
  ⟨State.vestingBalances, fun s t => { s with vestingBalances := t }, fun _ _ => rfl⟩
def liquidityPools : Table LiquidityPool :=
  ⟨State.liquidityPools, fun s t => { s with liquidityPools := t }, fun _ _ => rfl⟩
def blindedBalances : Table BlindedBalance :=
  ⟨State.blindedBalances, fun s t => { s with blindedBalances := t }, fun _ _ => rfl⟩
def fbaAccumulators : Table FbaAccumulator :=
  ⟨State.fbaAccumulators, fun s t => { s with fbaAccumulators := t }, fun _ _ => rfl⟩

end Meta1Core.Ledger
