import HpServer.Lib.Lts
import HpServer.Lib.Count
import HpServer.Lib.Mutex
import HpServer.Lib.Segment
import HpServer.Lib.Lines
import HpServer.Lib.Assoc
import HpServer.Lib.KeyMap
import HpServer.Lib.Lru
import HpServer.Lib.Fifo
import HpServer.Lib.DeadlineMap
import HpServer.Lib.Turns
import HpServer.Lib.Atomic
import HpServer.Lib.Owners
import HpServer.Basic
import HpServer.HttpHeaders
import HpServer.MessageBuilder
import HpServer.TaskBoard
import HpServer.ThreadPool
import HpServer.ThreadsafeQueue
import HpServer.Tunnel
import HpServer.StreamSockets
import HpServer.Timer
import HpServer.TimerRuns
import HpServer.HttpConn
import HpServer.ConnectionRuns
import HpServer.Server
import HpServer.System
import HpServer.Llhttp
import HpServer.LlhttpMessages
import HpServer.HttpRequestParser
import HpServer.HttpResponseParser
import HpServer.MessageSpans
import HpServer.IpFilter
import HpServer.RingBuffer
import HpServer.RingThreads
import HpServer.Logger
import HpServer.MemoryCache
import HpServer.PersistentCache
import HpServer.CacheEntryFormat
import HpServer.HttpCache
import HpServer.CacheRuns
import HpServer.ForwardRequest
import HpServer.Upstream
import HpServer.Lemmas.PoolMoves
import HpServer.Lemmas.PoolLedger
import HpServer.Lemmas.PoolProducers
import HpServer.Lemmas.PoolTasks
import HpServer.Lemmas.PoolShutdown
import HpServer.Lemmas.PoolQuiescence
import HpServer.Lemmas.QueueMoves
import HpServer.Lemmas.QueueList
import HpServer.Lemmas.RingMoves
import HpServer.Lemmas.LoggerMoves
import HpServer.Lemmas.TunnelRelay
import HpServer.Lemmas.OrderlyPeers
import HpServer.Lemmas.OrderlyProgress
import HpServer.Lemmas.ServerSlots
import HpServer.Lemmas.ServerHandlers
import HpServer.Lemmas.SystemSteps
import HpServer.Lemmas.SystemJobs
import HpServer.Lemmas.MessageText
import HpServer.Lemmas.Numerals
import HpServer.Lemmas.TrieSearch
import HpServer.Lemmas.LlhttpRuns
import HpServer.Lemmas.ParserRuns
import HpServer.Lemmas.ResponseReading
import HpServer.Lemmas.ParsedResponse
import HpServer.Lemmas.HeaderSection
import HpServer.Lemmas.MemoryCacheSpec
import HpServer.Lemmas.HttpCacheSpec
import HpServer.Lemmas.EntryReading
import HpServer.Lemmas.ForwardReading
import HpServer.Lemmas.ForwardDelivery
import HpServer.Theorems.QueueAccounting
import HpServer.Theorems.NoLostTask
import HpServer.Theorems.RelayIntegrity
import HpServer.Theorems.OrderlyClose
import HpServer.Theorems.Lifecycle
import HpServer.Theorems.ConnectionBuffers
import HpServer.Theorems.Completions
import HpServer.Theorems.Isolation
import HpServer.Theorems.BatchEvents
import HpServer.Theorems.TunnelBytes
import HpServer.Theorems.TunnelFd
import HpServer.Theorems.PoolContract
import HpServer.Theorems.PoolBackpressure
import HpServer.Theorems.PoolStops
import HpServer.Theorems.QueueOrder
import HpServer.Theorems.QueueWakeups
import HpServer.Theorems.TimerDeadlines
import HpServer.Theorems.TimerTimeouts
import HpServer.Theorems.TimerHeap
import HpServer.Theorems.LogQueue
import HpServer.Theorems.QueueAtomic
import HpServer.Theorems.RingAtomic
import HpServer.Theorems.LoggerDrain
import HpServer.Theorems.TrieMap
import HpServer.Theorems.IpFilterSet
import HpServer.Theorems.Blacklist
import HpServer.Theorems.SingleRequest
import HpServer.Theorems.PipelinedRequests
import HpServer.Theorems.HostPort
import HpServer.Theorems.Fragments
import HpServer.Theorems.CacheKeys
import HpServer.Theorems.CacheTiers
import HpServer.Theorems.CacheTransparency
import HpServer.Theorems.CacheRoundTrip
import HpServer.Theorems.CacheContract
import HpServer.Theorems.CacheLifetime
import HpServer.Theorems.LruCache
import HpServer.Theorems.CacheInclusion
import HpServer.Theorems.StoredEntries
import HpServer.Theorems.CompleteResponse
import HpServer.Theorems.ResponseCuts
import HpServer.Theorems.DeliveredResponse
import HpServer.Theorems.ForwardedRequest
import HpServer.Theorems.BuiltMessages
import HpServer.Theorems.SingleDelivery
import HpServer.Theorems.OwnedDescriptors
