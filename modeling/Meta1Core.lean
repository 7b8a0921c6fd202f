import Meta1Core.Allocation.SellLimit
import Meta1Core.Allocation.MissedBlocks
import Meta1Core.Pools.Value
import Meta1Core.Signing.Minimal
import Meta1Core.Confidential.Solvency
import Meta1Core.Witnesses.Accountability
import Meta1Core.Permissions.Limits
import Meta1Core.Htlc.ExactlyOnce
import Meta1Core.Vesting.Linear
import Meta1Core.Transactions.Protection
import Meta1Core.Pending.Calls
import Meta1Core.Pending.Production
import Meta1Core.Accounts.Memberships
import Meta1Core.Blocks.Reindexed
import Meta1Core.Plugins.Ticker
import Meta1Core.Plugins.GroupedBook
import Meta1Core.Plugins.AccountRuns
import Meta1Core.Proposals.ReviewRuns
import Meta1Core.Proposals.History
import Meta1Core.Allocation.Contribution
import Meta1Core.Allocation.Dates
import Meta1Core.Allocation.LateApproval
import Meta1Core.Market.FairMatch
import Meta1Core.Settlement.ForceLoops
import Meta1Core.Market.TargetTotal
import Meta1Core.Db.Legal
import Meta1Core.Market.CancelOrder
import Meta1Core.Ledger.MarketFees
import Meta1Core.Blocks.ForkPoint
import Meta1Core.Budget.Runs
import Meta1Core.Settlement.IssuerRevival
import Meta1Core.Voting.FeeRuns
import Meta1Core.Protocol.AccountName
import Meta1Core.Witnesses.Participation
import Meta1Core.Protocol.MerkleRoot
import Meta1Core.Protocol.ExtensionEntries
import Meta1Core.Elections.TopHolders
import Meta1Core.Blocks.IndexedMap
import Meta1Core.Ledger.PriceArithmetic
import Meta1Core.Witnesses.Shuffle
import Meta1Core.Db.DirectIndex
import Meta1Core.Db.BalanceLookup
import Meta1Core.Plugins.PoolHistory
import Meta1Core.Ledger.AmountReading
import Meta1Core.Sync.Rounds
