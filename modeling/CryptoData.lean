import CryptoData.Core.Aggregate
import CryptoData.Core.Consolidated.Breakdown
import CryptoData.Core.Consolidated.Build
import CryptoData.Core.Consolidated.DayByDay
import CryptoData.Core.Consolidated.Filter
import CryptoData.Core.Consolidated.Ineligible
import CryptoData.Core.Consolidated.Merge
import CryptoData.Core.Consolidated.Tape
import CryptoData.Core.Consolidated.Units
import CryptoData.Core.Corrections
import CryptoData.Core.Health
import CryptoData.Core.HealthVerdict
import CryptoData.Core.HealthWriter
import CryptoData.Core.Ingest
import CryptoData.Core.IngestLoop
import CryptoData.Core.Legacy
import CryptoData.Core.LiveIngest
import CryptoData.Core.Provenance
import CryptoData.Core.RateLimit
import CryptoData.Core.RateProgress
import CryptoData.Core.Reconciler
import CryptoData.Core.Reconnect
import CryptoData.Core.ReferenceData
import CryptoData.Core.Resample
import CryptoData.Core.Rollup
import CryptoData.Core.Summary
import CryptoData.Core.SymbolIndex
import CryptoData.Core.Symbols
import CryptoData.Core.TickerRename
import CryptoData.Core.Time
import CryptoData.Core.Tower
import CryptoData.Core.Trade
import CryptoData.Core.Worker
import CryptoData.Foundation.Backoff
import CryptoData.Foundation.Binary64
import CryptoData.Foundation.Bucket
import CryptoData.Foundation.Candle
import CryptoData.Foundation.Dict
import CryptoData.Foundation.Heapq
import CryptoData.Foundation.KWayMerge
import CryptoData.Foundation.Labelled
import CryptoData.Foundation.LevelBook
import CryptoData.Foundation.Metering
import CryptoData.Foundation.NameOrder
import CryptoData.Foundation.Paging
import CryptoData.Foundation.Period
import CryptoData.Foundation.Rounding
import CryptoData.Foundation.Runs
import CryptoData.Foundation.Sessions
import CryptoData.Foundation.StableSort
import CryptoData.Foundation.Statistics
import CryptoData.Foundation.TaskPool
import CryptoData.Foundation.Tiles
import CryptoData.Foundation.Timeline
import CryptoData.Foundation.Upsert
import CryptoData.Quality.BarSeries
import CryptoData.Quality.Checks
import CryptoData.Quality.CrossVenue
import CryptoData.Quality.DuplicateBars
import CryptoData.Quality.Figures
import CryptoData.Quality.Report
import CryptoData.Quality.ResampledBars
import CryptoData.Quality.RunChecks
import CryptoData.Quality.Scorecards
import CryptoData.Quality.TapeCoverage
import CryptoData.Quality.TradeChecks
import CryptoData.Quality.VenueRange
import CryptoData.Query.AsOf
import CryptoData.Query.Bars
import CryptoData.Query.BookTop
import CryptoData.Query.Books
import CryptoData.Query.Chunks
import CryptoData.Query.Fill
import CryptoData.Query.Raw
import CryptoData.Scripts.AllPresent
import CryptoData.Scripts.Backfill
import CryptoData.Scripts.BarsHistory
import CryptoData.Scripts.BuildBars
import CryptoData.Scripts.BuildDataset
import CryptoData.Scripts.BuildRows
import CryptoData.Scripts.CompactTape
import CryptoData.Scripts.Coverage
import CryptoData.Scripts.DownVenues
import CryptoData.Scripts.Lineage
import CryptoData.Scripts.Pipeline
import CryptoData.Scripts.Rebuild
import CryptoData.Scripts.Validate
import CryptoData.Sources.Binance
import CryptoData.Sources.Bitfinex
import CryptoData.Sources.BitfinexStream
import CryptoData.Sources.Coinbase
import CryptoData.Sources.CoinbaseBook
import CryptoData.Sources.CoinbaseCandles
import CryptoData.Sources.ExecutionOrder
import CryptoData.Sources.ForwardBackfill
import CryptoData.Sources.Gemini
import CryptoData.Sources.GeminiQuotes
import CryptoData.Sources.Klines
import CryptoData.Sources.KrakenBook
import CryptoData.Sources.Okx
import CryptoData.Sources.PagedHistory
import CryptoData.Storage.Compact
import CryptoData.Storage.CompactAll
import CryptoData.Storage.CompactCrash
import CryptoData.Storage.CompactOrder
import CryptoData.Storage.FlushAll
import CryptoData.Storage.FlushFailure
import CryptoData.Storage.History
import CryptoData.Storage.Interleaving
import CryptoData.Storage.Parquet
import CryptoData.Storage.PartNames
import CryptoData.Storage.Writer
