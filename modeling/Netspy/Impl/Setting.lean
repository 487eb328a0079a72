/-!
# `setting.py`

The settings that the modelled code reads, with their defaults. Times are in
microseconds.
-/

namespace Netspy

inductive DedupScope where
  | auto
  | run
  | spider
  deriving Repr, DecidableEq

/-- Whether the filters are in the process or in Redis. -/
inductive DedupFilter where
  | lite
  | memory
  | redis
  | redisSet
  deriving Repr, DecidableEq

structure Setting where
  SPIDER_MAX_RETRY_TIMES : Int := 3
  SPIDER_RETRY_INTERVAL : Nat := 0
  RETRY_BACKOFF : Nat := 0
  CHECK_STATUS_CODE : Bool := true
  RETRY_STATUS_CODES : List Nat := [429, 500, 502, 503, 504]
  ACCEPT_STATUS_CODES : List Nat := []
  RETRY_AFTER_MAX : Nat := 60000000
  SPIDER_KEEP_ALIVE : Bool := false
  HEARTBEAT_STALE : Nat := 15000000
  TASK_BATCH_SIZE : Nat := 100
  TASK_EXHAUST_POLLS : Nat := 3
  /-- In millionths of `BATCH_INTERVAL_UNIT`. -/
  BATCH_INTERVAL : Nat := 7000000
  BATCH_INTERVAL_UNIT : String := "day"
  BATCH_LOST_TASK_STALE : Nat := 600000000
  BATCH_PUSH_LIMIT : Nat := 5000
  BATCH_TASK_ID_FIELD : String := "id"
  COLLECTOR_TASK_COUNT : Nat := 100
  REQUEST_BUFFER_MAX_CACHED : Nat := 1000
  DONE_CHECK_TIMES : Nat := 3
  SPIDER_SEED_LOCK_TTL : Nat := 86400000000
  RUN_TTL : Nat := 604800000000
  RETRY_FAILED_ON_START : Bool := false
  SPIDER_STARTUP_GRACE : Nat := 10000000
  SPIDER_TASK_LEASE : Nat := 600000000
  DUMP_UNFINISHED_ON_EXIT : Bool := true
  SPIDER_MAX_RUNTIME : Nat := 0
  ITEM_MAX_CACHED_COUNT : Nat := 5000
  ITEM_PIPELINES : List String := ["netspy.pipelines.console.ConsolePipeline"]
  ITEM_DEFAULT_TABLE : String := "items"
  ITEM_FILTER_ENABLE : Bool := true
  DEDUP_SCOPE : DedupScope := .auto
  DEDUP_FILTER : DedupFilter := .memory
  /-- In millionths, as is the failed rate. -/
  DEDUP_WARN_FILL_RATE : Nat := 800000
  WARNING_ENABLE : Bool := true
  WARNING_INTERVAL : Nat := 300000000
  WARNING_FAILED_RATE : Nat := 500000
  WARNING_MIN_REQUESTS : Int := 50
  WARNING_FAILED_COUNT : Nat := 1000
  WARNING_STALL_SECONDS : Nat := 600000000
  USER_POOL_WAIT_TIMEOUT : Nat := 10000000
  USER_POOL_ALLOW_ANONYMOUS : Bool := false
  SESSION_CACHE_SIZE : Nat := 16
  SESSION_SHARD_THREADS : Nat := 32
  CURL_SESSION_SHARD_THREADS : Nat := 16
  ASYNC_THREADS_PER_LOOP : Nat := 16
  CONCURRENT_REQUESTS_PER_DOMAIN : Int := 8
  DOWNLOAD_DELAY : Rat := 0
  RANDOMIZE_DOWNLOAD_DELAY : Bool := true
  GLOBAL_THROTTLE : Bool := false
  PROXY_ENABLE : Bool := false
  PROXY_MAX_USE_TIMES : Int := 100
  PROXY_MIN_INTERVAL : Rat := 1000000
  PROXY_WAIT_TIMEOUT : Rat := 30000000
  PROXY_BAN_SECONDS : Rat := 60000000
  PROXY_BAN_MAX_SECONDS : Rat := 900000000
  PROXY_SUSPECT_BAN_AFTER : Int := 3
  PROXY_ALLOW_DIRECT : Bool := false
  RESPONSE_CACHE_ENABLE : Bool := false
  RESPONSE_CACHE_EXPIRE : Nat := 3600000000

end Netspy
