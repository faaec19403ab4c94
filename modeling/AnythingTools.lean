import AnythingTools.Json
import AnythingTools.Management.SchemaIntrospector
import AnythingTools.Relational.Frame
import AnythingTools.Relational.Merge
import AnythingTools.Relational.Transaction
import AnythingTools.Refresh
import AnythingTools.Schemas
import AnythingTools.Sync.CascadeFrame
import AnythingTools.Sync.CompositeKey
import AnythingTools.Management.MigrationCoordinator
import AnythingTools.Management.Rollback
import AnythingTools.Management.MigrationOutcome
import AnythingTools.Sync.CloudStartup
import AnythingTools.Sync.FreshCloud
import AnythingTools.Sync.RestorePipeline
import AnythingTools.Sync.Staged
import AnythingTools.Sync.Watermark
import AnythingTools.Sync.CloudWriter
import AnythingTools.Displace
import AnythingTools.Grouping
import AnythingTools.Relational.MergeRow
import AnythingTools.Sync.FlushBatch
import AnythingTools.Sync.FlushGroup
import AnythingTools.Sync.CloudBatches
import AnythingTools.Broadcast.DualWrite
import AnythingTools.Articles.Store
import AnythingTools.Articles.UpsertOutcome
import AnythingTools.Articles.OneArticle
import AnythingTools.Articles.SearchIndex
import AnythingTools.Articles.DeleteArticle
import AnythingTools.Ulid
import AnythingTools.Articles.VecRowid
import AnythingTools.Writer.Connection
import AnythingTools.Writer.Receipts
import AnythingTools.Writer.Shutdown
import AnythingTools.Management.Reconciler
import AnythingTools.Management.RowsKept
import AnythingTools.Management.Lifecycle
import AnythingTools.Management.PlanOrder
import AnythingTools.Management.Convergence
import AnythingTools.Jobs.RunOutcome
import AnythingTools.Calendar
import AnythingTools.Jobs.PollTime
import AnythingTools.Jobs.System
import AnythingTools.Jobs.OneThread
import AnythingTools.Jobs.ResumeLimit
import AnythingTools.Jobs.StoredResult
import AnythingTools.Jobs.TerminalStatus
import AnythingTools.Jobs.Cancellation
import AnythingTools.Jobs.CallbackRounds
import AnythingTools.Jobs.Items
import AnythingTools.Publisher.Batch
import AnythingTools.Publisher.StatusFromDetails
import AnythingTools.Publisher.Progress
import AnythingTools.Publisher.Rules
import AnythingTools.Publisher.Resume
import AnythingTools.Publisher.BatchTranslator
import AnythingTools.Publisher.Lock
import AnythingTools.Publisher.DraftEditor
import AnythingTools.Publisher.Swaps
import AnythingTools.Publisher.World
import AnythingTools.Publisher.Sound
import AnythingTools.Publisher.Publishing
import AnythingTools.Publisher.Completed
import AnythingTools.Publisher.Memory
import AnythingTools.Publisher.Accounting
import AnythingTools.Publisher.AtMostOnce
import AnythingTools.Articles.FirstScrape
import AnythingTools.Publisher.Reset
import AnythingTools.Spacing
import AnythingTools.Telegram.RateLimiter
import AnythingTools.Telegram.RetryAfter
import AnythingTools.Telegram.PrivateChats
import AnythingTools.Edgar.RateLimiter
import AnythingTools.Jobs.Recovery
import AnythingTools.Management.MismatchPlan
import AnythingTools.Sync.AddColumn
import AnythingTools.UlidOrder
import AnythingTools.Logging.Tail
import AnythingTools.Nearest
import AnythingTools.Search.HybridSearch
import AnythingTools.Ranking
import AnythingTools.Search.WeightedRrf
import AnythingTools.Pieces
import AnythingTools.Fts5
import AnythingTools.Search.SanitizeFtsQuery
import AnythingTools.Security.ScanArgs
import AnythingTools.Logging.Payload
import AnythingTools.Logging.Guarded
import AnythingTools.Logging.Spool
import AnythingTools.Scraper.Article
import AnythingTools.Scraper.Task
import AnythingTools.Scraper.Frame
import AnythingTools.Scraper.Turn
import AnythingTools.Scraper.Loop
import AnythingTools.Scraper.Resume
import AnythingTools.Scraper.Completion
import AnythingTools.Scraper.Crash
import AnythingTools.Scraper.Curation
import AnythingTools.Sync.DeltaPartition
import AnythingTools.Sync.Recommender
import AnythingTools.Sync.StartupProofs
import AnythingTools.Separators
import AnythingTools.Sync.ContentHash
import AnythingTools.Relational.MergeKeyed
import AnythingTools.Sync.MergeToCloud
import AnythingTools.Paging
import AnythingTools.Sync.RebuildBatches
import AnythingTools.IsoFormat
import AnythingTools.Sync.Timestamps
import AnythingTools.Sync.Timestamps
import AnythingTools.Sync.FlushRetry
import AnythingTools.Sync.PullSession
import AnythingTools.Sync.VectorDlq
import AnythingTools.Sync.PullAgain
import AnythingTools.Sync.PullExact
import AnythingTools.Resilience.CircuitBreaker
import AnythingTools.Resilience.SessionRecovery
import AnythingTools.Find
import AnythingTools.Text.SplitBoundary
import AnythingTools.Text.SmartSplit
import AnythingTools.Text.SplitProgress
import AnythingTools.Text.SplitLength
import AnythingTools.Text.SplitEscape
import AnythingTools.Text.EscapeMarkdown
import AnythingTools.Text.TrailingCommas
import AnythingTools.Text.JsonLiterals
import AnythingTools.Text.JsonNumbers
import AnythingTools.Text.JsonDocuments
import AnythingTools.Text.ParseLlmJson
import AnythingTools.Management.BackfillContentHashes
import AnythingTools.StockNotes.TidyTransform
import AnythingTools.KeepFirst
import AnythingTools.StockFinancials.Cashflow
import AnythingTools.StockFinancials.QuarterLabels
import AnythingTools.StockNotes.Fiscal
import AnythingTools.IsoOffset
import AnythingTools.Logging.Since
import AnythingTools.Bot.Eviction
import AnythingTools.Sync.ChunkLoop
import AnythingTools.Clients.Payloads
import AnythingTools.Clients.Conserved
import AnythingTools.Clients.JsonMode
import AnythingTools.Logging.Finds
import AnythingTools.Logging.Secrets
import AnythingTools.Text.JsonDumps
import AnythingTools.Text.JsonValues
import AnythingTools.Jobs.Delivery
import AnythingTools.Writer.ReadConnection
import AnythingTools.Logging.HitlBuffer
import AnythingTools.Relational.Leaf
import AnythingTools.StockNotes.Extractor
import AnythingTools.StockNotes.Kept
import AnythingTools.StockNotes.Extracted
import AnythingTools.StockNotes.Calls
import AnythingTools.Startup.Orchestrator
import AnythingTools.StockFinancials.Statements
import AnythingTools.StockFinancials.Persist
import AnythingTools.Relational.Numbered
import AnythingTools.Publisher.Order
import AnythingTools.Broadcast.Batch
import AnythingTools.Scraper.Tool
import AnythingTools.Scraper.Reported
import AnythingTools.Scraper.Steps
import AnythingTools.Dict
import AnythingTools.Tools.Registry
