import ArkSwap.Lib.Checked
import ArkSwap.Lib.Ledger
import ArkSwap.Lib.Shares
import ArkSwap.Lib.ConstantProduct
import ArkSwap.Lib.Run
import ArkSwap.Lib.Prog
import ArkSwap.Lib.Total
import ArkSwap.Lib.Table
import ArkSwap.Lib.HashChain
import ArkSwap.Lib.Hex
import ArkSwap.Lib.Best
import ArkSwap.Lib.Join
import ArkSwap.Lib.Session
import ArkSwap.Lib.Decimal
import ArkSwap.Lib.Numeral
import ArkSwap.Lib.Codes
import ArkSwap.Lib.Carries
import ArkSwap.Lib.Pages
import ArkSwap.Lib.Guarded
import ArkSwap.Lib.Script
import ArkSwap.Arithmetic
import ArkSwap.World
import ArkSwap.Pair
import ArkSwap.Factory
import ArkSwap.Library
import ArkSwap.Router
import ArkSwap.PairSpec
import ArkSwap.PairCalls
import ArkSwap.PairRun
import ArkSwap.FactoryRegistry
import ArkSwap.PairCallbacks
import ArkSwap.PairReentrancy
import ArkSwap.PairInvariant
import ArkSwap.PairSolvency
import ArkSwap.PairAuthority
import ArkSwap.PairExit
import ArkSwap.PairFee
import ArkSwap.PairFeePeriods
import ArkSwap.PairOracle
import ArkSwap.PairSwap
import ArkSwap.PairFlow
import ArkSwap.LibrarySpec
import ArkSwap.SwapFrontier
import ArkSwap.RouterHops
import ArkSwap.RouterQuote
import ArkSwap.QuoteRounding
import ArkSwap.RouterFlow
import ArkSwap.RouterBooks
import ArkSwap.RouterEmpty
import ArkSwap.RouterCalls
import ArkSwap.RouterSupporting
import ArkSwap.RouterSwaps
import ArkSwap.RouterDeposit
import ArkSwap.RouterOpening
import ArkSwap.Sdk
import ArkSwap.PairAddress
import ArkSwap.SwapRoute
import ArkSwap.SwapQuotes
import ArkSwap.Tokens
import ArkSwap.AmountText
import ArkSwap.TokenLinks
import ArkSwap.Valuation
import ArkSwap.SwapSearch
import ArkSwap.SwapBest
import ArkSwap.Slippage
import ArkSwap.SwapForm
import ArkSwap.PoolReads
import ArkSwap.LiquidityForm
import ArkSwap.Models
import ArkSwap.UsdText
import ArkSwap.Contracts
import ArkSwap.Pricing
import ArkSwap.PriceRoutes
import ArkSwap.PoolDepth
import ArkSwap.TokenText
import ArkSwap.Utf8
import ArkSwap.TokenSafety
import ArkSwap.Database
import ArkSwap.Chart
import ArkSwap.Migrate
import ArkSwap.Indexer
import ArkSwap.IndexerCalls
import ArkSwap.IndexerBlock
import ArkSwap.Network
import ArkSwap.IndexerRange
import ArkSwap.IndexerTables
import ArkSwap.IndexerExact
import ArkSwap.IndexerRollback
import ArkSwap.IndexerReorg
import ArkSwap.IndexerTick
import ArkSwap.IndexerRun
import ArkSwap.IndexerReads
import ArkSwap.NetworkCheck
import ArkSwap.IndexerEvents
import ArkSwap.IndexerSync
import ArkSwap.IndexerCatchUp
import ArkSwap.TickRange
import ArkSwap.IndexerTokens
import ArkSwap.IndexerScript
import ArkSwap.IndexerCache
import ArkSwap.IndexerSwap
import ArkSwap.IndexerCommit
import ArkSwap.IndexerSchema
import ArkSwap.IndexerContent
import ArkSwap.IndexerWalks
import ArkSwap.IndexerDetermined
import ArkSwap.IndexerReserves
import ArkSwap.IndexerReplay
import ArkSwap.IndexerTrades
import ArkSwap.PairReports
import ArkSwap.Exchange
import ArkSwap.ExchangeRouter
import ArkSwap.ExchangeInvariant
import ArkSwap.ExchangeLogs
import ArkSwap.ExchangeSound
import ArkSwap.ExchangeRun
import ArkSwap.ExchangeOwners
import ArkSwap.ExchangeReceipts
import ArkSwap.ExchangeIndexed
import ArkSwap.ExchangeMirror
import ArkSwap.HeadStream
import ArkSwap.ApiPages
import ArkSwap.ExchangePages
import ArkSwap.ExchangeExit
