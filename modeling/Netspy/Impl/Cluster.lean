import Mathlib.Logic.Function.Basic
import Netspy.Framework.Machine
import Netspy.Impl.BufferThreads
import Netspy.Impl.Collector
import Netspy.Impl.TaskQueue

/-!
# `core/redis_scheduler.py`, `core/redis_task_scheduler.py`: nodes over one Redis

The nodes of a job, known by `ν`, share the sorted sets of the task queue and
the heartbeat hash. Each call to Redis is one step; between any two steps
other threads and nodes may take theirs, and a node may be killed. The
threads of a node are its workers (`ParserWorker.run` with
`Collector.get_request`), whoever flushes the request buffer or the item
buffer, the heartbeat, the task poller, and the main thread with `_is_done`
and the shutdown. What callbacks yield, what tasks there are, what the filter
answers and which calls raise is given by the actions. A caller whose `put`
flushes is not held up while the flush runs, and `_is_done` may be called at
any time; both only add runs.

A taken request is known by its number in `taken`, a yielded one by its
number in `yielded`. These lists, `landed`, `dropped`, `acked` and the `log`
are not read by any step: they are what the theorems talk about.

Stats that no step reads, the alerts, the metrics and the run keys are left
out.
-/

namespace Netspy

inductive SchedulerKind where
  | redis
  | task
  deriving Repr, DecidableEq

inductive Status where
  | absent
  | running
  | leaving
  | killed
  deriving Repr, DecidableEq

/-- Where a worker is: before `get_request`, waiting in `bzpopmin`, with a
member whose lease it has not recorded, with the first request of a batch, or
in `_process`, having put an item or not. -/
inductive WorkerState where
  | idle
  | blocked
  | popped (member : String)
  | got (take : Nat)
  | busy (take : Nat) (deferred : Bool)
  deriving Repr, DecidableEq

structure Origin where
  serial : Nat
  /-- The request whose callback yielded it. -/
  parent : Option Nat
  deriving Repr, DecidableEq

/-- What is known of a request in the request buffer. A retried one still
carries the lease token it was taken with. -/
structure Buffered where
  origin : Origin
  token : Option Nat
  deriving Repr, DecidableEq

/-- `_TaskPoller._poll`: not in it, past `_fetch`, or in the loop. -/
inductive PollPhase where
  | waiting
  | fetched (tasks : List PyVal)
  | converting (tasks : List PyVal)
  deriving Repr, DecidableEq

structure TaskPoller where
  phase : PollPhase := .waiting
  exhausted : Bool := false
  emptyPolls : Nat := 0
  deriving Repr, DecidableEq

def TaskPoller.unconverted (p : TaskPoller) : List PyVal :=
  match p.phase with
  | .waiting => []
  | .fetched tasks | .converting tasks => tasks

/-- It has popped tasks and not yet reset `exhausted`. -/
def TaskPoller.fetching (p : TaskPoller) : Bool :=
  match p.phase with
  | .fetched _ => true
  | _ => false

/-- How far `_is_done` has come: what it reads next. Of the workers it reads one
after the other. -/
inductive Check where
  | idle
  | requestBuffer
  | collector
  | collectorQueue
  | itemBuffer
  | worker (w : Nat)
  | queue
  | inflight
  | heartbeats
  deriving Repr, DecidableEq

/-- A request that `_on_shutdown` pushes back. -/
structure Leftover where
  origin : Option Origin
  token : Option Nat
  request : Request
  deriving Repr, DecidableEq

structure RedisScheduler where
  kind : SchedulerKind := .redis
  keepAlive : Bool := false
  status : Status := .absent
  startedAt : Nat := 0
  seenWork : Bool := false
  /-- `stats` has a `REQUEST_OK` or a `REQUEST_FAILED`. -/
  counted : Bool := false
  collector : Collector Nat := {}
  workers : List WorkerState := []
  requestBuffer : BufferThreads Buffered := {}
  /-- The owners of the items in `_pending` of the item buffer. -/
  items : List Nat := []
  /-- The owners that each flush of items has still to acknowledge. -/
  itemFlushes : List (List Nat) := []
  poller : TaskPoller := {}
  check : Check := .idle
  leftovers : List Leftover := []
  /-- The lease that `_on_shutdown` settles next. -/
  settling : Option Nat := none
  /-- The members of the requests taken so far. -/
  taken : List String := []
  yielded : List Origin := []
  /-- The yielded requests that were put into the queue, and as which member. -/
  landed : List (Origin × String) := []
  dropped : List Nat := []
  acked : List Nat := []
  dumped : List Leftover := []

namespace RedisScheduler

variable (st : Setting)

def alive (nd : RedisScheduler) : Bool := nd.status = .running || nd.status = .leaving

def setWorker (nd : RedisScheduler) (w : Nat) (x : WorkerState) : RedisScheduler :=
  { nd with workers := nd.workers.set w x }

/-- `request_buffer.put`. -/
def yieldRequest (nd : RedisScheduler) (parent token : Option Nat) (r : Request) : RedisScheduler :=
  let o : Origin := ⟨nd.yielded.length, parent⟩
  { nd with
    requestBuffer := nd.requestBuffer.put ⟨⟨o, token⟩, r⟩
    yielded := nd.yielded ++ [o] }

/-- The swap at the head of `RequestBuffer.flush`. -/
def swap (nd : RedisScheduler) : RedisScheduler := { nd with requestBuffer := nd.requestBuffer.swap }

def isBusy : WorkerState → Bool
  | .busy _ _ => true
  | _ => false

/-- `_local_pending`. -/
def localPending (nd : RedisScheduler) : Nat :=
  nd.requestBuffer.pending.length + nd.collector.bufferedCount + nd.items.length + nd.workers.countP isBusy

/-- `_in_startup_grace`. -/
def inStartupGrace (nd : RedisScheduler) (now : Nat) : Bool × RedisScheduler :=
  if nd.seenWork then (false, nd)
  else if nd.counted then (false, { nd with seenWork := true })
  else (decide (now - nd.startedAt < st.SPIDER_STARTUP_GRACE), nd)

/-- `held_requests`, with their tokens. -/
def heldTokens (nd : RedisScheduler) : List String :=
  nd.collector.heldRequests.filterMap fun t => nd.taken[t]?

def leftoverOfTake (codec : Codec) (nd : RedisScheduler) (t : Nat) : Leftover :=
  ⟨none, some t, { codec.loads (nd.taken.getD t "") with filterRepeat := false }⟩

def leftoverOfBuffered (x : Tagged Buffered) : Leftover :=
  ⟨some x.tag.origin, x.tag.token, (BufferThreads.clearFilter x).request⟩

/-- The start of `_on_shutdown`. -/
def drain (codec : Codec) (nd : RedisScheduler) : RedisScheduler :=
  let (pending, requestBuffer) := nd.requestBuffer.drainPending
  let (taken, collector) := nd.collector.drain
  { nd with
    status := .leaving
    requestBuffer
    collector
    leftovers := pending.map leftoverOfBuffered ++ taken.map (leftoverOfTake codec nd) }

end RedisScheduler

inductive Event where
  /-- Taken from the queue, or its lease recorded after that. -/
  | took (member : String)
  | acked (member : String)
  /-- `_is_done` was called when these leases had ended, each with fewer than
  500 before it. -/
  | polled (due : List String)
  /-- `_is_done` returned true: whether the sets were empty then, and the
  tasks of the node that were not converted. -/
  | done (queueEmpty inflightEmpty : Bool) (unconverted : List PyVal)
  deriving Repr, DecidableEq

structure Cluster (ν : Type) where
  now : Nat := 0
  tasks : RedisTaskQueue := {}
  /-- Per node the time it wrote and its `_local_pending` then. -/
  heartbeat : List (ν × Nat × Nat) := []
  nodes : ν → RedisScheduler := fun _ => {}
  log : List Event := []

inductive NodeAct where
  | seed (r : Request)
  | popBuffer (w : Nat)
  | get (w : Nat)
  | getBatch (w : Nat)
  | bzpopmin (w : Nat)
  | timeout (w : Nat)
  | lease (w : Nat)
  | yieldRequest (w : Nat) (r : Request)
  | putRetry (w : Nat) (r : Request)
  | putItem (w : Nat) (returned : Bool)
  | count (w : Nat)
  | finish (w : Nat) (works : Bool)
  | swap
  | filter (j : Nat) (answer : Answer)
  | push (j : Nat) (works : Bool)
  | swapItems
  | ackOwner (j : Nat) (works : Bool)
  | failItems (j : Nat)
  | beat
  | renew
  | fetch (tasks : List PyVal)
  | resetPolls
  | convert (r : Request)
  | nextTask
  | endPoll
  | check (works : Bool)
  | drain
  | pushBack (works : Bool)
  | pushDone (works : Bool)

inductive ClusterAct (ν : Type) where
  | tick (d : Nat)
  | join (n : ν) (kind : SchedulerKind) (keepAlive : Bool) (threads : Nat)
  | kill (n : ν)
  | node (n : ν) (a : NodeAct)

/-- `reclaim_expired` without an argument. -/
def reclaimLimit : Nat := 500

namespace RedisTaskQueue

/-- The members whose leases have ended, each with fewer than 500 before it. -/
def due (q : RedisTaskQueue) (now : Nat) : List String :=
  q.inflight.zrangebyscore ((now : Int) - 1) reclaimLimit

end RedisTaskQueue

namespace Cluster

variable {ν : Type} [DecidableEq ν] (st : Setting) (codec : Codec)

def setNode (s : Cluster ν) (n : ν) (nd : RedisScheduler) : Cluster ν :=
  { s with nodes := Function.update s.nodes n nd }

def setTasks (s : Cluster ν) (q : RedisTaskQueue) : Cluster ν := { s with tasks := q }

def note (s : Cluster ν) (es : List Event) : Cluster ν := { s with log := s.log ++ es }

section
variable (s : Cluster ν) (n : ν) (nd : RedisScheduler) (q : RedisTaskQueue) (es : List Event)

@[simp] theorem setNode_now : (s.setNode n nd).now = s.now := rfl
@[simp] theorem setNode_tasks : (s.setNode n nd).tasks = s.tasks := rfl
@[simp] theorem setNode_heartbeat : (s.setNode n nd).heartbeat = s.heartbeat := rfl
@[simp] theorem setNode_nodes : (s.setNode n nd).nodes = Function.update s.nodes n nd := rfl
@[simp] theorem setNode_log : (s.setNode n nd).log = s.log := rfl
omit [DecidableEq ν] in
@[simp] theorem setTasks_now : (s.setTasks q).now = s.now := rfl
omit [DecidableEq ν] in
@[simp] theorem setTasks_tasks : (s.setTasks q).tasks = q := rfl
omit [DecidableEq ν] in
@[simp] theorem setTasks_heartbeat : (s.setTasks q).heartbeat = s.heartbeat := rfl
omit [DecidableEq ν] in
@[simp] theorem setTasks_nodes : (s.setTasks q).nodes = s.nodes := rfl
omit [DecidableEq ν] in
@[simp] theorem setTasks_log : (s.setTasks q).log = s.log := rfl
omit [DecidableEq ν] in
@[simp] theorem note_now : (s.note es).now = s.now := rfl
omit [DecidableEq ν] in
@[simp] theorem note_tasks : (s.note es).tasks = s.tasks := rfl
omit [DecidableEq ν] in
@[simp] theorem note_heartbeat : (s.note es).heartbeat = s.heartbeat := rfl
omit [DecidableEq ν] in
@[simp] theorem note_nodes : (s.note es).nodes = s.nodes := rfl
omit [DecidableEq ν] in
@[simp] theorem note_log : (s.note es).log = s.log ++ es := rfl

end

/-- `RedisTaskQueue.done` for the request that node `n` took as its `t`-th, if
the call works. -/
def queueDone (s : Cluster ν) (n : ν) (t : Nat) (works : Bool) : Cluster ν :=
  let nd := s.nodes n
  match nd.taken[t]?, works with
  | some m, true =>
    ((s.setTasks (s.tasks.doneMember m)).setNode n { nd with acked := nd.acked ++ [t] }).note [.acked m]
  | _, _ => s

/-- `Collector.done`. -/
def collectorDone (s : Cluster ν) (n : ν) (t : Nat) (works : Bool) : Cluster ν :=
  let nd := s.nodes n
  (s.setNode n { nd with collector := nd.collector.done t }).queueDone n t works

/-- `_all_nodes_idle`. -/
def allNodesIdle (s : Cluster ν) : Bool :=
  s.heartbeat.all fun e => decide (st.HEARTBEAT_STALE < s.now - e.2.1) || e.2.2 == 0

/-- The head of `_is_done`, up to its first read of the node's buffers. -/
def checkBegin (s : Cluster ν) (n : ν) (works : Bool) : Cluster ν :=
  let nd := s.nodes n
  let noted := s.note [.polled (s.tasks.due s.now)]
  if nd.keepAlive then noted
  else
    match nd.kind with
    | .redis =>
      let (grace, nd) := nd.inStartupGrace st s.now
      if grace then noted.setNode n nd
      else
        let (moved, q) := s.tasks.reclaimExpired st s.now reclaimLimit works
        (noted.setTasks q).setNode n { nd with check := if moved = 0 then .requestBuffer else .idle }
    | .task => if nd.poller.exhausted then noted.setNode n { nd with check := .requestBuffer } else noted

/-- What `_is_done` makes of its next read: whether to go on, and to what. -/
def checkNext (s : Cluster ν) (nd : RedisScheduler) : Bool × Check :=
  match nd.check with
  | .idle => (false, .idle)
  | .requestBuffer => (nd.requestBuffer.pending.isEmpty, .collector)
  | .collector => (nd.collector.isEmpty true, .collectorQueue)
  | .collectorQueue => (s.tasks.empty, .itemBuffer)
  | .itemBuffer => (nd.items.isEmpty, .worker 0)
  | .worker w =>
    match nd.workers[w]? with
    | some x => (!RedisScheduler.isBusy x, .worker (w + 1))
    | none => (true, .queue)
  | .queue => (s.tasks.empty, match nd.kind with | .redis => .inflight | .task => .heartbeats)
  | .inflight => (s.tasks.inflightCount == 0, .heartbeats)
  | .heartbeats => (s.allNodesIdle st, .idle)

/-- One read of `_is_done`. -/
def check (s : Cluster ν) (n : ν) (works : Bool) : Cluster ν :=
  let nd := s.nodes n
  match nd.check with
  | .idle => s.checkBegin st n works
  | .heartbeats =>
    let returned := (s.setNode n { nd with check := .idle })
    if works && s.allNodesIdle st then
      returned.note [.done s.tasks.empty (s.tasks.inflightCount == 0) nd.poller.unconverted]
    else returned
  | _ =>
    let (goesOn, next) := s.checkNext st nd
    s.setNode n { nd with check := if goesOn then next else .idle }

def beat (s : Cluster ν) (n : ν) : Cluster ν :=
  { s with heartbeat := (n, toMillis s.now, (s.nodes n).localPending) :: s.heartbeat.filter fun e => e.1 ≠ n }

def act (s : Cluster ν) (n : ν) (a : NodeAct) : Option (Cluster ν) :=
  let nd := s.nodes n
  match a with
  | .seed r => some (s.setNode n (nd.yieldRequest none none r))
  | .popBuffer w =>
    match nd.workers[w]?, nd.collector.popBuffer with
    | some .idle, some (t, collector) =>
      some (s.setNode n ({ nd with collector }.setWorker w (.busy t false)))
    | _, _ => none
  | .get w =>
    match nd.workers[w]?, s.tasks.take st s.now 1 with
    | some .idle, ([], _) => some (s.setNode n (nd.setWorker w .blocked))
    | some .idle, (m :: _, q) =>
      let nd' := { nd with taken := nd.taken ++ [m] }
      some (((s.setTasks q).setNode n (nd'.setWorker w (.got nd.taken.length))).note [.took m])
    | _, _ => none
  | .getBatch w =>
    match nd.workers[w]?, s.tasks.take st s.now (st.COLLECTOR_TASK_COUNT - 1) with
    | some (.got t), (ms, q) =>
      let extra := (List.range ms.length).map (nd.taken.length + ·)
      let nd' := { nd with taken := nd.taken ++ ms, collector := nd.collector.received t extra }
      some (((s.setTasks q).setNode n (nd'.setWorker w (.busy t false))).note (ms.map .took))
    | _, _ => none
  | .bzpopmin w =>
    match nd.workers[w]?, s.tasks.bzpopmin with
    | some .blocked, some (m, q) =>
      some (((s.setTasks q).setNode n (nd.setWorker w (.popped m))).note [.took m])
    | _, _ => none
  | .timeout w =>
    match nd.workers[w]? with
    | some .blocked => some (s.setNode n (nd.setWorker w .idle))
    | _ => none
  | .lease w =>
    match nd.workers[w]? with
    | some (.popped m) =>
      let nd' := { nd with taken := nd.taken ++ [m] }
      some (((s.setTasks (s.tasks.recordLease st s.now m)).setNode n
        (nd'.setWorker w (.got nd.taken.length))).note [.took m])
    | _ => none
  | .yieldRequest w r =>
    match nd.workers[w]? with
    | some (.busy t _) => some (s.setNode n (nd.yieldRequest (some t) none r))
    | _ => none
  | .putRetry w r =>
    match nd.workers[w]? with
    | some (.busy t _) =>
      some (s.setNode n (nd.yieldRequest (some t) (some t) { r with filterRepeat := false }))
    | _ => none
  | .putItem w returned =>
    match nd.workers[w]? with
    | some (.busy t deferred) =>
      some (s.setNode n ({ nd with items := nd.items ++ [t] }.setWorker w (.busy t (deferred || returned))))
    | _ => none
  | .count w =>
    match nd.workers[w]? with
    | some (.busy _ _) => some (s.setNode n { nd with counted := true })
    | _ => none
  | .finish w works =>
    match nd.workers[w]? with
    | some (.busy t deferred) =>
      let s := s.setNode n (nd.setWorker w .idle)
      some (if deferred then s else s.collectorDone n t works)
    | _ => none
  | .swap => some (s.setNode n nd.swap)
  | .filter j answer =>
    match nd.requestBuffer.filter j answer with
    | some (dropped, requestBuffer) =>
      some (s.setNode n { nd with
        requestBuffer
        dropped := nd.dropped ++ (dropped.map fun x => x.tag.origin.serial).toList })
    | none => none
  | .push j works =>
    match nd.requestBuffer.push j works with
    | some (some x, requestBuffer) =>
      some ((s.setTasks (s.tasks.put codec x.request)).setNode n { nd with
        requestBuffer
        landed := nd.landed ++ [(x.tag.origin, codec.dumps x.request)] })
    | some (none, requestBuffer) => some (s.setNode n { nd with requestBuffer })
    | none => none
  | .swapItems =>
    some (s.setNode n { nd with items := [], itemFlushes := nd.itemFlushes ++ [nd.items.dedup] })
  | .ackOwner j works =>
    match nd.itemFlushes[j]? with
    | some (t :: rest) =>
      some ((s.setNode n { nd with itemFlushes := nd.itemFlushes.set j rest }).collectorDone n t works)
    | _ => none
  | .failItems j =>
    some (s.setNode n { nd with itemFlushes := nd.itemFlushes.set j [] })
  | .beat => if nd.status = .running then some (s.beat n) else none
  | .renew =>
    if nd.status = .running then some (s.setTasks (s.tasks.renew st s.now nd.heldTokens)) else none
  | .fetch tasks =>
    if nd.kind = .task ∧ nd.poller.phase = .waiting then
      let p := nd.poller
      some (s.setNode n { nd with
        poller :=
          if tasks.isEmpty then
            { p with
              emptyPolls := p.emptyPolls + 1
              exhausted := p.exhausted || decide (st.TASK_EXHAUST_POLLS ≤ p.emptyPolls + 1) }
          else { p with phase := .fetched tasks } })
    else none
  | .resetPolls =>
    match nd.poller.phase with
    | .fetched tasks =>
      some (s.setNode n { nd with poller := ⟨.converting tasks, false, 0⟩ })
    | _ => none
  | .convert r =>
    match nd.poller.phase with
    | .converting (_ :: _) => some (s.setNode n (nd.yieldRequest none none r))
    | _ => none
  | .nextTask =>
    match nd.poller.phase with
    | .converting (_ :: tasks) =>
      some (s.setNode n { nd with poller := { nd.poller with phase := .converting tasks } })
    | _ => none
  | .endPoll =>
    match nd.poller.phase with
    | .converting [] =>
      some (s.setNode n { nd with poller := { nd.poller with phase := .waiting } }.swap)
    | _ => none
  | .check works => if nd.status = .running then some (s.check st n works) else none
  | .drain =>
    if nd.status = .running ∧ nd.check = .idle then
      some ({ s with heartbeat := s.heartbeat.filter fun e => e.1 ≠ n }.setNode n (nd.drain codec))
    else none
  | .pushBack works =>
    match nd.leftovers, nd.settling with
    | l :: rest, none =>
      if works then
        let landed := nd.landed ++ (l.origin.map fun o => (o, codec.dumps l.request)).toList
        some ((s.setTasks (s.tasks.put codec l.request)).setNode n
          { nd with leftovers := rest, settling := l.token, landed })
      else some (s.setNode n { nd with leftovers := [], dumped := nd.dumped ++ nd.leftovers })
    | _, _ => none
  | .pushDone works =>
    match nd.settling with
    | some t => some ((s.setNode n { nd with settling := none }).queueDone n t works)
    | none => none

def step (s : Cluster ν) : ClusterAct ν → Option (Cluster ν)
  | .tick d => some { s with now := s.now + d }
  | .join n kind keepAlive threads =>
    if (s.nodes n).status = .absent then
      some (s.setNode n
        { kind, keepAlive, status := .running, startedAt := s.now, workers := List.replicate threads .idle })
    else none
  | .kill n =>
    if (s.nodes n).alive then some (s.setNode n { s.nodes n with status := .killed, check := .idle })
    else none
  | .node n a => if (s.nodes n).alive then s.act st codec n a else none

/-- The runs from any content of the sets and of the heartbeat hash. -/
def machine : Machine (Cluster ν) (ClusterAct ν) where
  start s := (∀ n, s.nodes n = {}) ∧ s.log = []
  step := step st codec

end Cluster

end Netspy
