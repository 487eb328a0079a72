import Netspy.Framework.Loop
import Netspy.Impl.Alert
import Netspy.Impl.ParserControl
import Netspy.Impl.RequestBuffer

/-!
# The loops of the threads

`ParserWorker.run`, `ItemBuffer.run`, `RequestBuffer.run`, `_TaskPoller.run`
and `BaseScheduler._wait_until_done`, with every call that may raise. The
input of a turn has whether the stop event is set, what the other threads do
meanwhile to what the loop shares with them, and what each call returns or
raises. `Collector.done` does not raise: `RedisTaskQueue.done` logs what Redis
raises, and the local queue has no leases.
-/

namespace Netspy

/-! ## `ParserWorker.run` -/

structure WorkerThread where
  collector : Collector Ref := {}
  heap : Heap
  busy : Bool := false
  /-- The requests given to `_process`, the latest first, with what was done
  and whether the worker acknowledged the request itself. -/
  jobs : List (Ref × Job × Bool) := []

structure WorkerTurn where
  stopped : Bool := false
  /-- What others do before the turn, and while `get` waits. -/
  others : Collector Ref × Heap → Collector Ref × Heap := id
  meanwhile : Collector Ref × Heap → Collector Ref × Heap := id
  get : Except Exn (Option Ref) := .ok none
  getBatch : Except Exn (List Ref) := .ok []
  env : Env

namespace WorkerTurn

variable (st : Setting) (x : WorkerTurn)

/-- `Collector.get_request`. -/
def getRequest (shared : Collector Ref × Heap) : Except Exn (Option Ref) × (Collector Ref × Heap) :=
  match shared.1.popBuffer with
  | some (r, collector) => (.ok (some r), (collector, shared.2))
  | none =>
    let shared := x.meanwhile shared
    match x.get with
    | .error e => (.error e, shared)
    | .ok none => (.ok none, shared)
    | .ok (some first) =>
      match x.getBatch with
      | .error e => (.error e, shared)
      | .ok extra => (.ok (some first), (shared.1.received first extra, shared.2))

def turn (s : WorkerThread) : Turned Exn WorkerThread :=
  if x.stopped then .returned s
  else
    match x.getRequest (x.others (s.collector, s.heap)) with
    | (.error e, (collector, heap)) => .raised e { s with collector, heap }
    | (.ok none, (collector, heap)) => .again { s with collector, heap, busy := false }
    | (.ok (some request), (collector, heap)) =>
      -- what `_process` raises is logged, and `finally` comes next
      let (job, acks) := ParserWorker.work st x.env request heap
      .again {
        collector := if acks then collector.done request else collector
        heap := job.heap
        busy := false
        jobs := (request, job, acks) :: s.jobs }

end WorkerTurn

/-- `ParserWorker.run`. -/
def workerLoop (st : Setting) : Loop WorkerTurn Exn WorkerThread := fun x s => x.turn st s

/-! ## `ItemBuffer.run` and `RequestBuffer.run` -/

structure ItemTurn (ρ η : Type) where
  stopped : Bool := false
  others : ItemBuffer ρ η → ItemBuffer ρ η := id
  out : Turnout := {}

/-- `ItemBuffer.run`, which flushes once more when it is stopped. -/
def itemLoop {ρ η : Type} [DecidableEq ρ] (lib : Stdlib) (st : Setting) :
    Loop (ItemTurn ρ η) Exn (ItemBuffer ρ η) := fun x s =>
  match (x.others s).flush lib st x.out with
  | ({ result := .error e, .. }, s) => .raised e s
  | ({ result := .ok (), .. }, s) => if x.stopped then .returned s else .again s

structure RequestTurn (W : Type) where
  stopped : Bool := false
  others : RequestBuffer W → RequestBuffer W := id

/-- `RequestBuffer.run`. -/
def requestLoop {W : Type} (srv : Services W) : Loop (RequestTurn W) Exn (RequestBuffer W) := fun x s =>
  let s := (x.others s).flushGuarded srv
  if x.stopped then .returned s else .again s

/-! ## `_TaskPoller.run` -/

structure PollerState where
  /-- `run` polls once before it looks at the stop event. -/
  started : Bool := false
  exhausted : Bool := false
  emptyPolls : Nat := 0
  /-- The tasks given to `_make_requests`, and the requests given to the buffer. -/
  tasks : List PyVal := []
  requests : List Request := []

structure PollTurn where
  stopped : Bool := false
  /-- `list(self._fetch(...))`. -/
  fetch : Except Exn (List PyVal) := .ok []
  /-- What `_make_requests` yields, and what it raises after that. -/
  makeRequests : PyVal → List Request × Option Exn := fun _ => ([], none)
  /-- `request_buffer.put`, after so many requests. -/
  put : Nat → Except Exn Unit := fun _ => .ok ()
  /-- `request_buffer.flush`. -/
  flush : Except Exn Unit := .ok ()

namespace PollTurn

variable (st : Setting) (x : PollTurn)

/-- The requests of one task, up to the first that the buffer does not take. -/
def putAll : List Request → List Request → Except Exn Unit × List Request
  | [], acc => (.ok (), acc)
  | r :: rs, acc =>
    match x.put acc.length with
    | .error e => (.error e, acc ++ [r])
    | .ok () => putAll rs (acc ++ [r])

/-- The body of the loop over the tasks. What it raises is logged. -/
def convert (s : PollerState) (task : PyVal) : PollerState :=
  { s with
    tasks := s.tasks ++ [task]
    requests := (x.putAll (x.makeRequests task).1 s.requests).2 }

/-- `_poll`. -/
def poll (s : PollerState) : Except Exn Unit × PollerState :=
  match x.fetch with
  | .error _ => (.ok (), s)
  | .ok [] =>
    let s := { s with emptyPolls := s.emptyPolls + 1 }
    (.ok (), if st.TASK_EXHAUST_POLLS ≤ s.emptyPolls then { s with exhausted := true } else s)
  | .ok tasks =>
    (x.flush, tasks.foldl x.convert { s with emptyPolls := 0, exhausted := false })

end PollTurn

/-- `_TaskPoller.run`. -/
def pollerLoop (st : Setting) : Loop PollTurn Exn PollerState := fun x s =>
  if s.started && x.stopped then .returned s
  else
    match x.poll st { s with started := true } with
    | (.error e, s) => .raised e s
    | (.ok (), s) => .again s

/-! ## `BaseScheduler._wait_until_done` -/

inductive SchedulerClass where
  | air
  | redis
  | redisTask
  deriving Repr, DecidableEq

/-- A scheduler, and when `_wait_until_done` was called. -/
structure Waiting where
  scheduler : SchedulerClass
  keepAlive : Bool := false
  startedAt : Nat := 0
  calledAt : Nat := 0

structure WaitState where
  stopEvent : Bool := false
  streak : Nat := 0
  seenWork : Bool := false
  alert : AlertManager := {}
  /-- What `_is_done` has returned, the latest first. -/
  results : List Bool := []

/-- `streak`, on what `_is_done` returned. -/
def WaitState.count (s : WaitState) (done seenWork : Bool) : WaitState :=
  { s with seenWork, streak := if done then s.streak + 1 else 0, results := done :: s.results }

/-- What `_is_done` and the checks around it read. -/
structure WaitTurn where
  stopped : Bool := false
  now : Nat := 0
  /-- The clock as `_in_startup_grace` and `_all_nodes_idle` read it. -/
  graceNow : Nat := 0
  time : Nat := 0
  /-- `stats` has a `REQUEST_OK` or a `REQUEST_FAILED`. -/
  counted : Bool := false
  /-- `reclaim_expired`, which logs what Redis raises. -/
  reclaimed : Nat := 0
  requestBufferEmpty : Bool := true
  /-- Nothing is in the collector's buffer or in progress. -/
  collectorIdle : Bool := true
  /-- `queue.empty()` as the collector calls it, and as `_is_done` does. -/
  collectorQueueEmpty : Except Exn Bool := .ok true
  itemBufferEmpty : Bool := true
  workersIdle : Bool := true
  queueEmpty : Except Exn Bool := .ok true
  inflightCount : Except Exn Int := .ok 0
  /-- `hgetall`: the time and the pending count of each entry that parses. -/
  heartbeats : Except Exn (List (Option (Nat × Int))) := .ok []
  /-- `exhausted` of the poller, if there is one. -/
  exhausted : Option Bool := some true
  alert : AlertInput := {}

namespace WaitTurn

variable (st : Setting) (w : Waiting) (x : WaitTurn)

/-- `_local_idle`. -/
def localIdle : Except Exn Bool :=
  if !x.requestBufferEmpty || !x.collectorIdle then .ok false
  else x.collectorQueueEmpty.map fun empty => empty && x.itemBufferEmpty && x.workersIdle

/-- `self._local_idle() and self._task_queue.empty()`. -/
def quiet : Except Exn Bool := do
  if ← x.localIdle then x.queueEmpty else return false

/-- `_all_nodes_idle`. -/
def allNodesIdle : Bool :=
  match x.heartbeats with
  | .error _ => false
  | .ok entries => entries.all fun
    | none => true
    | some (ts, pending) => decide (st.HEARTBEAT_STALE < x.time - ts) || decide (pending ≤ 0)

/-- `_in_startup_grace`, with `_seen_work` after it. -/
def inStartupGrace (seenWork : Bool) : Bool × Bool :=
  if seenWork then (false, true)
  else if x.counted then (false, true)
  else (0 < st.SPIDER_STARTUP_GRACE && decide (x.graceNow - w.startedAt < st.SPIDER_STARTUP_GRACE), false)

/-- `RedisScheduler._is_done` past the grace. -/
def redisDone : Except Exn Bool :=
  if x.reclaimed ≠ 0 then .ok false
  else do
    if ← x.quiet then
      return decide ((← x.inflightCount) ≤ 0) && x.allNodesIdle st
    else return false

/-- `_is_done` of each scheduler, with `_seen_work` after it. -/
def isDone (seenWork : Bool) : Except Exn Bool × Bool :=
  match w.scheduler with
  | .air => (x.quiet, seenWork)
  | .redis =>
    if w.keepAlive then (.ok false, seenWork)
    else
      let (grace, seenWork) := x.inStartupGrace st w seenWork
      (if grace then .ok false else x.redisDone st, seenWork)
  | .redisTask =>
    (if w.keepAlive then .ok false
      else if x.exhausted.getD false then x.quiet.map fun quiet => quiet && x.allNodesIdle st
      else .ok false, seenWork)

def pastDeadline : Bool :=
  decide (0 < st.SPIDER_MAX_RUNTIME) && decide (w.calledAt + st.SPIDER_MAX_RUNTIME ≤ x.now)

/-- The rest of a turn, on what `_is_done` returned. -/
def judge (isinstance : Exn → String → Bool) (done : Bool) (s : WaitState) : Turned Exn WaitState :=
  if done && decide (st.DONE_CHECK_TIMES ≤ s.streak) then .returned s
  else
    match s.alert.check st isinstance x.alert with
    | .error e => .raised e s
    | .ok alert => .again { s with alert }

def turn (isinstance : Exn → String → Bool) (s : WaitState) : Turned Exn WaitState :=
  if x.stopped then .returned s
  else if x.pastDeadline st w then .returned { s with stopEvent := true }
  else
    match x.isDone st w s.seenWork with
    | (.error e, seenWork) => .raised e { s with seenWork }
    | (.ok done, seenWork) => x.judge st isinstance done (s.count done seenWork)

end WaitTurn

/-- `_wait_until_done`. -/
def waitLoop (st : Setting) (isinstance : Exn → String → Bool) (w : Waiting) :
    Loop WaitTurn Exn WaitState := fun x s => x.turn st w isinstance s

end Netspy
