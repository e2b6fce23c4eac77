import Ragx.AdmissionRates
import Ragx.Agentic
import Ragx.AgenticBudget
import Ragx.AgenticReplies
import Ragx.AgenticTasks
import Ragx.AnswerTables
import Ragx.ApiKeys
import Ragx.App
import Ragx.AtomGroups
import Ragx.AuthMiddleware
import Ragx.BatchWrites
import Ragx.BestPrefix
import Ragx.BlankRuns
import Ragx.BreadthFirst
import Ragx.BudgetOverrides
import Ragx.CacheFrames
import Ragx.CacheReads
import Ragx.CacheTwins
import Ragx.CallerIsolation
import Ragx.ChatCompletions
import Ragx.ChunkBounds
import Ragx.ChunkContents
import Ragx.ChunkEdits
import Ragx.ChunkGroups
import Ragx.ChunkPartition
import Ragx.ChunkSizes
import Ragx.ChunkTable
import Ragx.Chunker
import Ragx.CircuitBreaker
import Ragx.Commands
import Ragx.ConfidenceLines
import Ragx.ContentIndex
import Ragx.ContextAssembler
import Ragx.ContextLimits
import Ragx.Cosines
import Ragx.CostAttribution
import Ragx.CostGate
import Ragx.DailyBudget
import Ragx.DeadLetters
import Ragx.DenseSearch
import Ragx.DocDedup
import Ragx.DocHash
import Ragx.EmbedBatches
import Ragx.EntryPoints
import Ragx.Escalation
import Ragx.EvalGate
import Ragx.EventRuns
import Ragx.EventStreams
import Ragx.ExactCache
import Ragx.ExecutorRuns
import Ragx.ExecutorTasks
import Ragx.FailureWindows
import Ragx.FilePaths
import Ragx.FilterAgreement
import Ragx.FilterMeanings
import Ragx.FilterQueries
import Ragx.FilterSql
import Ragx.FixedWidth
import Ragx.FullTextSync
import Ragx.Fusion
import Ragx.GovernedChunks
import Ragx.GraphAgreement
import Ragx.GraphContents
import Ragx.GraphCrashes
import Ragx.GraphDeletion
import Ragx.GraphFiles
import Ragx.GraphNeighbors
import Ragx.GraphRecall
import Ragx.GraphSeparation
import Ragx.GraphTwins
import Ragx.GraphUpserts
import Ragx.HeadingPaths
import Ragx.HeldMessages
import Ragx.HybridRetriever
import Ragx.InProcessQueue
import Ragx.IngestPipeline
import Ragx.IngestRecovery
import Ragx.IngestStores
import Ragx.JsonTexts
import Ragx.JsonTokens
import Ragx.JwtTokens
import Ragx.KbAccess
import Ragx.KbSeparation
import Ragx.KeyedTable
import Ragx.KeywordScores
import Ragx.KgBuilder
import Ragx.KgIdempotence
import Ragx.KgIntegrity
import Ragx.KgMerge
import Ragx.LastLine
import Ragx.LlmCalls
import Ragx.LocalObjectStore
import Ragx.LostMessages
import Ragx.McpServer
import Ragx.McpSessions
import Ragx.McpTransport
import Ragx.MetadataStore
import Ragx.MiddlewareStack
import Ragx.ModelRouter
import Ragx.Models
import Ragx.MultiDiGraph
import Ragx.NearestNeighbors
import Ragx.Neo4jGraphStore
import Ragx.Neo4jRecall
import Ragx.NetworkXGraphStore
import Ragx.NormalForms
import Ragx.NormalizedText
import Ragx.ObjectKeys
import Ragx.ObjectMap
import Ragx.ObjectTwins
import Ragx.OrderedDict
import Ragx.Outlines
import Ragx.ParseRetries
import Ragx.PathPrefixes
import Ragx.Patterns
import Ragx.PdfParsers
import Ragx.PluginLifecycle
import Ragx.PoolQuotas
import Ragx.Positions
import Ragx.PromptOverrides
import Ragx.PromptRegistry
import Ragx.PromptTemplates
import Ragx.PropertyGraph
import Ragx.ProviderReplies
import Ragx.PyJson
import Ragx.QueryService
import Ragx.QuotaMiddleware
import Ragx.QuotaTwins
import Ragx.RagTraces
import Ragx.RateLimiter
import Ragx.ReadingOrder
import Ragx.RedisCache
import Ragx.RedisQueue
import Ragx.RedisRateLimiter
import Ragx.RedisStream
import Ragx.Reindex
import Ragx.ReindexGraph
import Ragx.RelationNames
import Ragx.RemoteVectorStores
import Ragx.RequestAudit
import Ragx.RouteAccess
import Ragx.RoutedModels
import Ragx.RowCodecs
import Ragx.RrfFusion
import Ragx.ScannedPages
import Ragx.SectionLines
import Ragx.SemanticCache
import Ragx.Sequencing
import Ragx.SessionAccess
import Ragx.SharedContainers
import Ragx.SharedExecutor
import Ragx.Simulations
import Ragx.SlidingWindows
import Ragx.SmallModels
import Ragx.SqlExpressions
import Ragx.SqlTokens
import Ragx.SqliteVectorStore
import Ragx.StageEvents
import Ragx.StageRetries
import Ragx.StageRuns
import Ragx.StdioDialogue
import Ragx.StoreColumns
import Ragx.StoredAnswers
import Ragx.StreamFrames
import Ragx.StreamWorkers
import Ragx.StructuredOutputs
import Ragx.SubmitFailures
import Ragx.SubmitIngest
import Ragx.TailSentences
import Ragx.TaskRecords
import Ragx.TextCodecs
import Ragx.TextLines
import Ragx.TextParser
import Ragx.TimestampOrder
import Ragx.TokenBuckets
import Ragx.TokenCounter
import Ragx.TokenQuota
import Ragx.TopRanked
import Ragx.TopicSummaries
import Ragx.Topics
import Ragx.TraceStore
import Ragx.TrailingBlanks
import Ragx.Ulids
import Ragx.UploadQuota
import Ragx.UsageMetering
import Ragx.UtcTimes
import Ragx.VectorWrites
import Ragx.VerifierEvidence
import Ragx.VlmCosts
import Ragx.VlmIngest
import Ragx.VlmProcessor
import Ragx.WeightedDraws
import Ragx.Wildcards
import Ragx.WordRotations
import Ragx.WorkerProcess
import Ragx.WrittenConfidences
