import NeuRust.Text.Utf8
import NeuRust.Text.Scan
import NeuRust.Security.PiiDetector
import NeuRust.Security.PiiPatterns
import NeuRust.Security.NumberScanners
import NeuRust.Security.NumberReports
import NeuRust.Security.PhoneFormats
import NeuRust.Security.EmailScanner
import NeuRust.Security.EmailInText
import NeuRust.Security.PiiReports
import NeuRust.Security.PiiMasker
import NeuRust.Security.PiiOverlaps
import NeuRust.Security.MaskCoverage
import NeuRust.Security.MaskFrame
import NeuRust.Security.Remask
import NeuRust.Cache.CacheKey
import NeuRust.Provider.RequestBody
import NeuRust.Cache.ExactCache
import NeuRust.Machine.Run
import NeuRust.Cache.ExactRuns
import NeuRust.Cache.Contention
import NeuRust.Cache.ContendedGet
import NeuRust.Cache.ContendedSize
import NeuRust.Cache.SemanticCache
import NeuRust.Cache.TieredCache
import NeuRust.Cache.TieredRuns
import NeuRust.Cache.TieredContext
import NeuRust.Cache.Lifetimes
import NeuRust.Observability.CostTracker
import NeuRust.Observability.BudgetManager
import NeuRust.Observability.BudgetRounding
import NeuRust.Machine.FloatRounding
import NeuRust.Observability.CounterRuns
import NeuRust.Observability.Admission
import NeuRust.Observability.BudgetRefresh
import NeuRust.Provider.Registry
import NeuRust.Router.Fallback
import NeuRust.Machine.Cut
import NeuRust.Pipeline.Execute
import NeuRust.Pipeline.Trace
import NeuRust.Machine.Residues
import NeuRust.Router.LoadBalancer
import NeuRust.Router.Routing
import NeuRust.Observability.StreamSpend
import NeuRust.Gateway.StreamBody
import NeuRust.Gateway.Inference
import NeuRust.Gateway.Auth
import NeuRust.Gateway.Spend
import NeuRust.Provider.Upstream
import NeuRust.Gateway.StreamEvents
import NeuRust.Gateway.ChunkProtocol
import NeuRust.Gateway.Passthrough
import NeuRust.Router.PriceDb
import NeuRust.Machine.Transducer
import NeuRust.Security.PromptGuard
import NeuRust.Machine.Windows
import NeuRust.Security.OutputValidation
import NeuRust.Machine.FirstLeast
import NeuRust.Gateway.ProviderChoice
import NeuRust.Cache.StaleDump
import NeuRust.Machine.GroupSum
import NeuRust.Store.InMemory
import NeuRust.Store.EventStore
import NeuRust.Store.SqlStores
import NeuRust.Machine.Calendar
import NeuRust.Observability.CostForecaster
import NeuRust.Observability.MonthToDate
import NeuRust.Observability.BillingPeriod
import NeuRust.Machine.Rescale
import NeuRust.Machine.WeightedChoice
import NeuRust.Machine.FilterOrAll
import NeuRust.Router.Bandit
import NeuRust.Router.BanditScore
import NeuRust.Router.CostAuctioneer
import NeuRust.Router.Learning
import NeuRust.Router.BudgetPressure
import NeuRust.Cache.Refresh
import NeuRust.Router.ComplexityGate
import NeuRust.Cache.RoundTrip
import NeuRust.Cache.SemanticLookup
import NeuRust.Machine.LeastSquares
import NeuRust.Observability.Regression
import NeuRust.Cache.BatchEviction
import NeuRust.Observability.ForecastBounds
import NeuRust.Machine.Records
import NeuRust.Provider.StreamText
import NeuRust.Cache.SemanticHits
import NeuRust.Gateway.Http
import NeuRust.Gateway.Identities
import NeuRust.Gateway.Mediation
import NeuRust.Gateway.Outcomes
import NeuRust.Gateway.Ledger
import NeuRust.Gateway.Operations
import NeuRust.Gateway.CachedAnswers
import NeuRust.Gateway.Transparency
import NeuRust.Machine.Rounds
import NeuRust.Router.HealthMonitor
import NeuRust.Gateway.Interruption
import NeuRust.Router.AuctionRuns
import NeuRust.Pipeline.Layers
import NeuRust.Pipeline.Footprint
import NeuRust.Pipeline.Masking
import NeuRust.Gateway.Handlers
import NeuRust.Gateway.Interleavings
import NeuRust.Gateway.Herd
import NeuRust.Cache.DumpLoop
import NeuRust.Gateway.StreamNoise
import NeuRust.Security.Evasion
import NeuRust.Gateway.Relay
import NeuRust.Cache.Tracing
import NeuRust.Gateway.Isolation
import NeuRust.Gateway.SimilarAnswers
import NeuRust.Gateway.Polling
import NeuRust.Cache.SemanticRuns
