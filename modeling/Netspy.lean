import Netspy.Framework.Groups
import Netspy.Framework.Json.Kept
import Netspy.Framework.Json.Lines
import Netspy.Framework.Lines
import Netspy.Framework.Loop
import Netspy.Framework.Machine
import Netspy.Framework.Overwrite
import Netspy.Framework.ZSet
import Netspy.Impl.Alert
import Netspy.Impl.Cluster
import Netspy.Impl.Loops
import Netspy.Impl.ParserControl
import Netspy.Impl.TaskQueue
import Netspy.Proof.Ack
import Netspy.Proof.AdmitOnce
import Netspy.Proof.AirExit
import Netspy.Proof.AsyncClose
import Netspy.Proof.BatchMonitor
import Netspy.Proof.BatchSettled
import Netspy.Proof.BatchSpider
import Netspy.Proof.BatchWork
import Netspy.Proof.BloomFilter
import Netspy.Proof.BufferHistory
import Netspy.Proof.BufferThreads
import Netspy.Proof.CacheFiles
import Netspy.Proof.CacheLock
import Netspy.Proof.CanonicalUrl
import Netspy.Proof.Circuit
import Netspy.Proof.ClientThreads
import Netspy.Proof.Cluster
import Netspy.Proof.CollectorCalls
import Netspy.Proof.CookieJars
import Netspy.Proof.CookieWorld
import Netspy.Proof.Cooldown
import Netspy.Proof.CrashSafety
import Netspy.Proof.CsvPipeline
import Netspy.Proof.Dedup
import Netspy.Proof.Downloader
import Netspy.Proof.Dump
import Netspy.Proof.DumpFile
import Netspy.Proof.Exit
import Netspy.Proof.FailedReplay
import Netspy.Proof.GlobalThrottle
import Netspy.Proof.GuestUserPool
import Netspy.Proof.ItemBuffer
import Netspy.Proof.ItemFlushes
import Netspy.Proof.ItemHistory
import Netspy.Proof.LeaseHolders
import Netspy.Proof.Leases
import Netspy.Proof.Lifecycle
import Netspy.Proof.Lineage
import Netspy.Proof.LocalUserPool
import Netspy.Proof.Loops
import Netspy.Proof.MemoryTaskQueue
import Netspy.Proof.Persisting
import Netspy.Proof.Placed
import Netspy.Proof.ProxyBackoff
import Netspy.Proof.ProxyPool
import Netspy.Proof.ProxyQuota
import Netspy.Proof.ProxyRoute
import Netspy.Proof.ReadCapped
import Netspy.Proof.RedisUserPool
import Netspy.Proof.RenderBrowser
import Netspy.Proof.RenderClose
import Netspy.Proof.Renewal
import Netspy.Proof.RequestBuffer
import Netspy.Proof.RequestCookies
import Netspy.Proof.RequestTrips
import Netspy.Proof.ResponseCache
import Netspy.Proof.Retry
import Netspy.Proof.RetryAfter
import Netspy.Proof.RetryRun
import Netspy.Proof.Robots
import Netspy.Proof.RobotsCache
import Netspy.Proof.RunScope
import Netspy.Proof.Seeding
import Netspy.Proof.Shards
import Netspy.Proof.SharedFilter
import Netspy.Proof.SharedRows
import Netspy.Proof.Singletons
import Netspy.Proof.TaskClaims
import Netspy.Proof.TaskPoll
import Netspy.Proof.Termination
import Netspy.Proof.Throttle
import Netspy.Proof.Undecodable
import Netspy.Proof.UpdateItem
import Netspy.Proof.UpdateKeys
import Netspy.Proof.UpdatePipelines
import Netspy.Proof.UserLogins
import Netspy.Proof.UserPoolMiddleware
