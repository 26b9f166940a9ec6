import Sigmaengine.Lib.Effect
import Sigmaengine.Lib.Table
import Sigmaengine.Protocol.Types
import Sigmaengine.Protocol.Operations
import Sigmaengine.Protocol.Block
import Sigmaengine.Chain.Objects
import Sigmaengine.Dapp.Objects
import Sigmaengine.Token.Objects
import Sigmaengine.Chain.Database
import Sigmaengine.Chain.Evaluators
import Sigmaengine.Chain.State
import Sigmaengine.Dapp.Evaluators
import Sigmaengine.Token.Evaluators
import Sigmaengine.Chain.Schedule
import Sigmaengine.Chain.Block
import Sigmaengine.Chain.Frames
import Sigmaengine.Chain.Head
import Sigmaengine.Chain.Stages
import Sigmaengine.Chain.Rounds
import Sigmaengine.Ledger.Abstract
import Sigmaengine.Ledger.Abstraction
import Sigmaengine.Ledger.Frames
import Sigmaengine.Ledger.Simulation
import Sigmaengine.Ledger.Routines
import Sigmaengine.Ledger.Plugins
import Sigmaengine.Ledger.Runs
import Sigmaengine.Ledger.Conservation
import Sigmaengine.Ledger.Solvency
import Sigmaengine.Ledger.Progress
import Sigmaengine.Ledger.TokenHoldings
import Sigmaengine.Ledger.TokenOperations
import Sigmaengine.Ledger.TokenFrames
import Sigmaengine.Ledger.TokenRuns
import Sigmaengine.Ledger.TokenBacking
import Sigmaengine.Ledger.WithdrawReady
import Sigmaengine.Ledger.TokenRange
import Sigmaengine.Ledger.TokenQueue
import Sigmaengine.Ledger.TokenAgreement
import Sigmaengine.Ledger.TokenIsolation
import Sigmaengine.Lib.Bytes
import Sigmaengine.Protocol.Names
import Sigmaengine.Chainbase.GenericIndex
import Sigmaengine.Chainbase.Undo
import Sigmaengine.Chainbase.Squash
import Sigmaengine.Consensus.LocalConfiguration
import Sigmaengine.Consensus.Replay
import Sigmaengine.Consensus.Authority
import Sigmaengine.Consensus.Slots
import Sigmaengine.Consensus.Irreversible
import Sigmaengine.Consensus.Schedule
import Sigmaengine.Consensus.Recovery
import Sigmaengine.Consensus.RecoveryWindow
import Sigmaengine.Lib.Framed
import Sigmaengine.Storage.BlockLog
import Sigmaengine.Storage.BlockLogIndex
import Sigmaengine.Chain.Reached
import Sigmaengine.Consensus.Producers
import Sigmaengine.Consensus.Hardforks
import Sigmaengine.Consensus.References
import Sigmaengine.Dapp.Lifecycle
import Sigmaengine.Dapp.CommentVotes
import Sigmaengine.Dapp.CommentTree
import Sigmaengine.Dapp.Replies
import Sigmaengine.Token.Symbols
import Sigmaengine.Token.AssetText
import Sigmaengine.Lib.Instalments
import Sigmaengine.Lib.Decimal
import Sigmaengine.Ledger.TokenSchedules
import Sigmaengine.Ledger.TokenDue
import Sigmaengine.Ledger.SavingsSchedules
import Sigmaengine.Net.Peer
import Sigmaengine.Net.Node
import Sigmaengine.Lib.Traces
import Sigmaengine.Net.Footprint
import Sigmaengine.Net.Handshake
import Sigmaengine.Lib.Shares
import Sigmaengine.Net.SyncRequests
import Sigmaengine.Net.Synopsis
import Sigmaengine.Lib.Window
import Sigmaengine.Consensus.Participation
import Sigmaengine.Lib.Merkle
import Sigmaengine.Protocol.Merkle
import Sigmaengine.Dapp.CommentEdits
import Sigmaengine.Token.InterestRates
import Sigmaengine.Lib.Ancestry
import Sigmaengine.Chain.ForkDatabase
import Sigmaengine.Consensus.ForkBranches
import Sigmaengine.Lib.Varint
import Sigmaengine.Lib.Reader
import Sigmaengine.Protocol.Raw
import Sigmaengine.Dapp.Packed
import Sigmaengine.Dapp.BinaryPayloads
import Sigmaengine.Protocol.Signatures
import Sigmaengine.Consensus.Weighing
import Sigmaengine.Consensus.SignatureRuns
import Sigmaengine.Consensus.MoreSignatures
import Sigmaengine.Consensus.MinimalSignatures
import Sigmaengine.Protocol.Variant
import Sigmaengine.Dapp.Variants
import Sigmaengine.Token.Packed
import Sigmaengine.Dapp.Impact
import Sigmaengine.Ledger.Standing
import Sigmaengine.Ledger.Fees
import Sigmaengine.Ledger.Holdings
import Sigmaengine.Ledger.AccountHistory
import Sigmaengine.Net.SyncOffers
import Sigmaengine.Net.Framing
import Sigmaengine.Plugins.ReserveRatio
import Sigmaengine.Lib.Index
import Sigmaengine.Protocol.Ordering
import Sigmaengine.Plugins.HistoryNumbers
import Sigmaengine.Plugins.KeyLookup
import Sigmaengine.Net.Backlog
import Sigmaengine.Net.Inactivity
import Sigmaengine.Lib.Median
import Sigmaengine.Dapp.FeeVotes
import Sigmaengine.Plugins.Statistics
import Sigmaengine.Plugins.BucketCounts
import Sigmaengine.Dapp.Queries
import Sigmaengine.Dapp.Voters
import Sigmaengine.Dapp.QueryScope
import Sigmaengine.Dapp.Paging
import Sigmaengine.Dapp.NextDapp
import Sigmaengine.Plugins.TrackedRanges
import Sigmaengine.Plugins.HistoryPages
import Sigmaengine.Net.ProcessingMarks
import Sigmaengine.Consensus.AccountSigners
import Sigmaengine.App.Callbacks
import Sigmaengine.Consensus.PotentialSignatures
import Sigmaengine.Consensus.SignatureDiscovery
import Sigmaengine.Lib.Ring
import Sigmaengine.Chain.Controller
import Sigmaengine.Lib.Reflection
import Sigmaengine.Chain.Applying
import Sigmaengine.Lib.History
import Sigmaengine.Consensus.Calls
import Sigmaengine.Consensus.MainChain
import Sigmaengine.Consensus.Finality
import Sigmaengine.Consensus.Locations
import Sigmaengine.Consensus.PendingTransactions
import Sigmaengine.Consensus.ForkSwitch
import Sigmaengine.Consensus.BlockSummaries
import Sigmaengine.Consensus.Provenance
import Sigmaengine.App.TransactionLookup
import Sigmaengine.App.ChainSync
import Sigmaengine.Plugins.Production
import Sigmaengine.Lib.Radix
import Sigmaengine.Protocol.Base58
import Sigmaengine.Protocol.KeyTexts
