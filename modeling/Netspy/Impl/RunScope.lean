import Netspy.Framework.Expiry
import Netspy.Framework.Machine
import Netspy.Impl.BatchSpider

/-!
# Keys of a run

The keys in the namespace of one run, as far as their TTLs go, under the nodes of the run:
`_seed`, `_on_start`, `_Heartbeat` and `_on_shutdown` of `RedisScheduler` and of
`RedisTaskScheduler`, with `_touch_run_keys`, and the calls of the queue, the filters and
`_on_failed_request`, each of which may take the last element of a key. A call that
reaches Redis is a step, and a process may end at any step. The index `<job>:runs` is in
`_run_keys` as well, and not in the namespace.

When things happened is recorded in `RunTimes`. No step depends on it.
-/

namespace Netspy

/-- A key, by what comes after the namespace. A filter has its keys in full. -/
inductive RunKey (ν : Type) where
  /-- `z_requests` -/
  | queue
  /-- `z_inflight` -/
  | inflight
  /-- `lock:seed` -/
  | seedLock
  /-- `failed_requests` -/
  | failed
  /-- `failed_requests:replaying:<node>` -/
  | staging (n : ν)
  | filter (name : String)
  | heartbeat
  deriving Repr, DecidableEq

structure RunSetting extends Setting where
  RUN_ID : String := ""
  DEDUP_MAX_LAYERS : Nat := 4
  jobNs : String

namespace RunSetting

variable (st : RunSetting)

def ns : String := runNs st.jobNs st.RUN_ID

/-- The names of the filters that are in the namespace: the one of `_make_dedup`, and of
`_make_item_dedup`. -/
def dedups : List String :=
  if resolveDedupScope st.DEDUP_SCOPE st.RUN_ID = .run then
    st.ns :: if st.ITEM_FILTER_ENABLE then [st.ns ++ ":items"] else []
  else []

def maxLayers : Nat := max 1 st.DEDUP_MAX_LAYERS

def countKey (name : String) : String := name ++ ":dedup:bloom:count"

def layerKey (name : String) (i : Nat) : String :=
  if i = 0 then name ++ ":dedup:bloom" else name ++ ":dedup:bloom:" ++ toString i

/-- `redis_keys` of a filter. -/
def redisKeys (name : String) : List String :=
  match st.DEDUP_FILTER with
  | .lite | .memory => []
  | .redis => countKey name :: (List.range st.maxLayers).map (layerKey name)
  | .redisSet => [name ++ ":dedup:set"]

/-- What `add` of a fingerprint writes, where `top` is the layer that is not full. -/
def addedKeys (name : String) (top : Nat) : List String :=
  match st.DEDUP_FILTER with
  | .lite | .memory => []
  | .redis => [layerKey name top, countKey name]
  | .redisSet => [name ++ ":dedup:set"]

/-- `_run_keys` -/
def runKeys {ν : Type} (n : ν) : List (RunKey ν) :=
  [.queue, .inflight, .seedLock, .failed, .staging n] ++ (st.dedups.flatMap st.redisKeys).map .filter

/-- The TTL that a beat gives to the heartbeats, `max(2, int(HEARTBEAT_STALE * 4))`. -/
def beatTtl : Nat := max 2 (st.HEARTBEAT_STALE * 4 / 1000000) * 1000000

/-- How often a node replays failed requests that is to do it so often. -/
def replays (count : Nat) : Nat := if st.RETRY_FAILED_ON_START then count else 0

end RunSetting

/-- How far a process is in `run`. -/
inductive RunPhase where
  | new
  /-- It has the seed lock, and has not looked at the queue yet. -/
  | locked
  /-- In `_seed`, with so many calls of `_replay_failed_requests` to come. With none to come
  its threads may have started. -/
  | seeding (replays : Nat)
  | replaying (replays : Nat)
  | running
  /-- In `_on_shutdown`, past the `join` of the heartbeat thread. -/
  | stopped
  | pushingBack
  /-- Past `_on_shutdown`. -/
  | left
  | gone
  deriving Repr, DecidableEq

/-- How far a heartbeat thread is. -/
inductive BeatPhase where
  | off
  /-- Before a beat, which it makes even if it is stopped. -/
  | fresh
  | waiting
  | written
  | timed
  deriving Repr, DecidableEq

structure RunNode where
  main : RunPhase := .new
  beat : BeatPhase := .off
  deriving Repr, DecidableEq

structure RunTimes (ν : Type) where
  touchedAt : Nat := 0
  /-- The last touch by each node. -/
  touchedBy : ν → Option Nat := fun _ => none
  /-- When the seed lock was taken, until the next touch. -/
  lockedAt : Option Nat := none
  beatAt : Nat := 0
  /-- The last touch before the node's staging list was the failed list. -/
  stagedAt : ν → Nat := fun _ => 0

structure RunScope (ν : Type) where
  now : Nat := 0
  keys : Keyspace (RunKey ν) := fun _ => none
  /-- The nodes with a field in the heartbeats. -/
  beating : List ν := []
  nodes : ν → RunNode := fun _ => {}
  times : RunTimes ν := {}

/-- A call that other threads make. -/
inductive RunWork where
  | put
  /-- `_take`, with leases. -/
  | take (empties : Bool)
  /-- `_take` without leases, or `bzpopmin`. -/
  | pop (empties : Bool)
  /-- The `ZADD` after a `bzpopmin`. -/
  | lease
  | done (empties : Bool)
  | reclaimExpired (empties : Bool)
  | onFailedRequest
  | add (dedup : String) (top : Nat)
  deriving Repr, DecidableEq

inductive NodeStep where
  /-- `acquire_once` of `_seed_or_skip`. -/
  | acquireOnce
  | checkQueue
  /-- `_seed` of `RedisTaskScheduler`. -/
  | seedNothing
  /-- `RENAME` of `_replay_failed_requests`. -/
  | rename
  | deleteStaging
  | onStart
  /-- `wait` is over after `HEARTBEAT_INTERVAL`. -/
  | wake
  | hset
  | expire
  /-- `_touch_run_keys` of a beat. -/
  | touch
  /-- `_on_shutdown` stops the heartbeat thread, and joins it or gives up. -/
  | stopBeat
  | hdel
  /-- `_touch_run_keys` of `_on_shutdown`. -/
  | leave
  /-- The process ends. -/
  | kill
  | work (w : RunWork)
  deriving Repr, DecidableEq

inductive RunAct (ν : Type) where
  | tick (d : Nat)
  | act (n : ν) (a : NodeStep)
  deriving Repr, DecidableEq

variable {ν : Type} [DecidableEq ν]

namespace RunWork

variable (st : RunSetting)

/-- What a node may do before its threads start. -/
def inSeed : RunWork → Bool
  | put | add .. => true
  | _ => false

def possible (ks : Keyspace (RunKey ν)) : RunWork → Bool
  | take _ => 0 < st.SPIDER_TASK_LEASE ∧ ks .queue ≠ none
  | pop _ => ks .queue ≠ none
  | lease => 0 < st.SPIDER_TASK_LEASE
  | reclaimExpired _ => ks .inflight ≠ none
  | add dedup top => dedup ∈ st.dedups ∧ top < st.maxLayers
  | put | done _ | onFailedRequest => true

/-- The keys that a call adds to. -/
def adds : RunWork → List (RunKey ν)
  | put => [.queue]
  | take _ | lease => [.inflight]
  | pop _ | done _ => []
  | reclaimExpired _ => [.queue]
  | onFailedRequest => [.failed]
  | add dedup top => (st.addedKeys dedup top).map .filter

/-- The key whose last element a call takes. -/
def empties : RunWork → Option (RunKey ν)
  | take true | pop true => some .queue
  | done true | reclaimExpired true => some .inflight
  | _ => none

def call (ks : Keyspace (RunKey ν)) (w : RunWork) : Keyspace (RunKey ν) :=
  match w.empties with
  | some k => (ks.write (w.adds st)).delete k
  | none => ks.write (w.adds st)

end RunWork

def RunPhase.may (w : RunWork) : RunPhase → Bool
  | new | locked | gone => false
  | seeding (_ + 1) | replaying _ => w.inSeed
  | _ => true

namespace RunScope

variable (st : RunSetting) (s : RunScope ν) (n : ν)

def hasFailed : Bool := s.keys .failed ≠ none

def tick (d : Nat) : RunScope ν :=
  let keys := s.keys.elapse (s.now + d)
  { s with now := s.now + d, keys, beating := if keys .heartbeat = none then [] else s.beating }

/-- `_touch_run_keys` -/
def touch : Keyspace (RunKey ν) :=
  if st.RUN_ID = "" then s.keys else s.keys.expire (st.runKeys n) (s.now + st.RUN_TTL)

/-- Where a step of a process leads to, if it is possible there. -/
def next (nd : RunNode) : NodeStep → Option RunNode
  | .acquireOnce =>
    if nd.main = .new then
      some { nd with main := if s.keys .seedLock = none then .locked else .seeding (st.replays 1) }
    else none
  | .checkQueue =>
    -- the requests of `start_requests` are put after a first replay
    if nd.main = .locked then
      some { nd with main := .seeding (st.replays (if s.keys .queue = none then 2 else 1)) }
    else none
  | .seedNothing => if nd.main = .new then some { nd with main := .seeding (st.replays 1) } else none
  | .rename =>
    match nd.main with
    | .seeding (k + 1) => some { nd with main := if s.hasFailed then .replaying k else .seeding k }
    | _ => none
  | .deleteStaging =>
    match nd.main with
    | .replaying k => some { nd with main := .seeding k }
    | _ => none
  | .onStart => if nd.main = .seeding 0 then some { main := .running, beat := .fresh } else none
  | .wake => if nd.beat = .waiting then some { nd with beat := .fresh } else none
  | .hset => if nd.beat = .fresh then some { nd with beat := .written } else none
  | .expire => if nd.beat = .written then some { nd with beat := .timed } else none
  | .touch =>
    if nd.beat = .timed then some { nd with beat := if nd.main = .running then .waiting else .off } else none
  | .stopBeat =>
    if nd.main = .running then
      some { main := .stopped, beat := if nd.beat = .waiting then .off else nd.beat }
    else none
  | .hdel => if nd.main = .stopped then some { nd with main := .pushingBack } else none
  | .leave => if nd.main = .pushingBack then some { nd with main := .left } else none
  | .kill => if nd.main = .new then none else some { nd with main := .gone }
  | .work w => if nd.main.may w && w.possible st s.keys then some nd else none

/-- What a step of a process makes of the keys. -/
def call : NodeStep → Keyspace (RunKey ν)
  | .acquireOnce => s.keys.setNx .seedLock (s.now + st.SPIDER_SEED_LOCK_TTL)
  | .rename => if s.hasFailed then s.keys.rename .failed (.staging n) else s.keys
  | .deleteStaging => s.keys.delete (.staging n)
  | .onStart | .touch | .leave => s.touch st n
  | .hset => s.keys.write [.heartbeat]
  | .expire => s.keys.expire [.heartbeat] (s.now + st.beatTtl)
  | .hdel => if s.beating.erase n = [] then s.keys.delete .heartbeat else s.keys
  | .work w => w.call st s.keys
  | .checkQueue | .seedNothing | .wake | .stopBeat | .kill => s.keys

/-- The fields of the heartbeats after a step. -/
def fields : NodeStep → List ν
  | .hset => s.beating.insert n
  | .hdel => s.beating.erase n
  | _ => s.beating

def record : NodeStep → RunTimes ν
  | .acquireOnce => if s.keys .seedLock = none then { s.times with lockedAt := some s.now } else s.times
  | .rename =>
    if s.hasFailed then { s.times with stagedAt := Function.update s.times.stagedAt n s.times.touchedAt }
    else s.times
  | .onStart | .touch | .leave =>
    { s.times with
      touchedAt := s.now
      touchedBy := Function.update s.times.touchedBy n (some s.now)
      lockedAt := none }
  | .expire => { s.times with beatAt := s.now }
  | _ => s.times

def step : RunAct ν → Option (RunScope ν)
  | .tick d => some (s.tick d)
  | .act n a =>
    if (s.nodes n).main = .gone then none
    else (s.next st (s.nodes n) a).map fun nd =>
      { s with
        keys := s.call st n a
        beating := s.fields n a
        nodes := Function.update s.nodes n nd
        times := s.record n a }

def machine : Machine (RunScope ν) (RunAct ν) where
  start s := s = {}
  step := step st

/-- No process is in `run`. -/
def AllOut : Prop := ∀ m, (s.nodes m).main = .new ∨ (s.nodes m).main = .left ∨ (s.nodes m).main = .gone

end RunScope

end Netspy
