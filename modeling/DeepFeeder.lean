import DeepFeeder.Storage.BatchIds
import DeepFeeder.Storage.HotPages
import DeepFeeder.Core.FastPath
import DeepFeeder.Runtime.Delivery
import DeepFeeder.Runtime.PruneSafety
import DeepFeeder.Runtime.Warmup
import DeepFeeder.Fanout.BarCompletion
import DeepFeeder.Fanout.FinalValues
import DeepFeeder.Fanout.Attach
import DeepFeeder.Storage.Batching
import DeepFeeder.Runtime.GapScan
import DeepFeeder.Runtime.FalseGaps
import DeepFeeder.Runtime.GapRecall
import DeepFeeder.Providers.BackfillDone
import DeepFeeder.Fanout.RefCounts
import DeepFeeder.Providers.QuoteKeys
import DeepFeeder.Providers.SharedBatch
import DeepFeeder.Fanout.FailedCalls
import DeepFeeder.Fanout.SeqOrder
import DeepFeeder.Fanout.PhaseOrder
import DeepFeeder.Fanout.ExchangeIsolation
import DeepFeeder.Fanout.ClosedBars
import DeepFeeder.Client.Resume
import DeepFeeder.Client.Registry
import DeepFeeder.Client.PauseGate
import DeepFeeder.Client.Restart
import DeepFeeder.Fanout.DeliveryPaths
import DeepFeeder.Sinks.AllOrNothing
import DeepFeeder.Storage.RoundTrip
import DeepFeeder.Fanout.WsStream
import DeepFeeder.Fanout.QueryText
import DeepFeeder.Fanout.RangeBounds
import DeepFeeder.Fanout.LiveOnce
import DeepFeeder.Fanout.Placeholders
import DeepFeeder.Providers.BinanceBars
import DeepFeeder.Shared.Calendar
import DeepFeeder.Shared.IsoText
import DeepFeeder.Client.Models
import DeepFeeder.Client.RowFidelity
import DeepFeeder.Shared.Framing
import DeepFeeder.Providers.Frames
import DeepFeeder.Shared.Tiling
import DeepFeeder.Runtime.PlannerRuns
import DeepFeeder.Providers.FailedFlush
import DeepFeeder.Shared.BoundedLoop
import DeepFeeder.Providers.BackfillServer
import DeepFeeder.Shared.TokenBucket
import DeepFeeder.Providers.RateLimiter
import DeepFeeder.Shared.NestedGroups
import DeepFeeder.Providers.NestedBars
import DeepFeeder.Sinks.TradeColumns
import DeepFeeder.Providers.VolumeConserved
import DeepFeeder.Providers.TradingViewApi
import DeepFeeder.Providers.BarWatermark
import DeepFeeder.Providers.BarFeeds
import DeepFeeder.Shared.Delimited
import DeepFeeder.Client.StreamKeys
import DeepFeeder.Client.DropOldest
import DeepFeeder.Client.OwnHandle
import DeepFeeder.Runtime.Services
import DeepFeeder.Runtime.ConstructedOnce
import DeepFeeder.Runtime.CatchUp
import DeepFeeder.Core.RingBound
import DeepFeeder.Shared.LastBy
import DeepFeeder.Providers.TvFiveMinutes
import DeepFeeder.Providers.GapRefill
import DeepFeeder.Runtime.Shutdown
import DeepFeeder.Runtime.WarmRestart
import DeepFeeder.Providers.BarSanity
import DeepFeeder.Providers.FetchLimit
import DeepFeeder.Providers.FetchRetries
import DeepFeeder.Providers.Healing
import DeepFeeder.Client.StrategyCalls
import DeepFeeder.Client.RequestText
import DeepFeeder.Ingest.FeederSpecs
import DeepFeeder.Ingest.FeedManager
import DeepFeeder.Providers.Lifecycle
import DeepFeeder.Providers.StopCalls
