import Netspy.Impl.BatchSpider
import Netspy.Impl.RequestBuffer
import Netspy.Impl.Setting

/-!
# A poll of the task source

`_TaskPoller._poll` of `core/redis_task_scheduler.py`, over `fetch_tasks` of
`core/spiders/task_spider.py` and `core/spiders/batch_spider.py`. The calls to Redis that
pop the tasks work. What the buffer does with a request is that of `RequestBuffer`, whose
flush may raise. `passed` has what was passed to `task_requests`, each task with the
requests of it that were put.
-/

namespace Netspy

/-- What the generator of `task_requests` does: it yields, then ends or raises. -/
structure TaskYields where
  requests : List Request := []
  raised : Option Exn := none
  deriving Repr, DecidableEq

/-- The spider whose tasks are polled. -/
structure TaskSpider where
  loadsJson : String → Except Exn PyVal
  /-- In the call `k` of a poll. -/
  taskRequests : Nat → PyVal → TaskYields
  /-- A `BatchSpider` gives each request its task. -/
  batch : Bool := false

/-- `task_requests`, or `_task_requests_tagged`. -/
def TaskSpider.makeRequests (spider : TaskSpider) (k : Nat) (task : PyVal) : TaskYields :=
  let made := spider.taskRequests k task
  if spider.batch then { made with requests := made.requests.map (tagged task) } else made

structure TaskPoll (W : Type) where
  /-- The Redis list. -/
  source : List String
  buffer : RequestBuffer W
  emptyPolls : Nat := 0
  exhausted : Bool := false

namespace TaskPoll

variable {W : Type} (st : Setting) (srv : Services W) (spider : TaskSpider)

/-- What `lpop` returns. -/
def fetch (s : TaskPoll W) : List String := s.source.take (max 1 st.TASK_BATCH_SIZE)

/-- The tasks, or what decoding one of them raised. -/
def fetchTasks (s : TaskPoll W) : Except Exn (List PyVal) := (s.fetch st).mapM spider.loadsJson

/-- The loop over the requests of a task, which a `put` that raises ends. The request is
in the buffer then. -/
def putAll : List Request → RequestBuffer W → List Request × RequestBuffer W
  | [], b => ([], b)
  | r :: rest, b =>
    match b.put srv st.REQUEST_BUFFER_MAX_CACHED r with
    | (.error _, b) => ([r], b)
    | (.ok (), b) =>
      let (put, b) := putAll rest b
      (r :: put, b)

/-- The loop over the tasks, `k` of which were passed before. -/
def passAll (k : Nat) : List PyVal → RequestBuffer W → List (PyVal × List Request) × RequestBuffer W
  | [], b => ([], b)
  | task :: rest, b =>
    let (put, b) := putAll st srv (spider.makeRequests k task).requests b
    let (passed, b) := passAll (k + 1) rest b
    ((task, put) :: passed, b)

structure Polled (W : Type) where
  poller : TaskPoll W
  passed : List (PyVal × List Request) := []
  raised : Option Exn := none

/-- `_poll`. -/
def poll (s : TaskPoll W) : Polled W :=
  let popped := { s with source := s.source.drop (max 1 st.TASK_BATCH_SIZE) }
  match s.fetchTasks st spider with
  | .error _ => { poller := popped }
  | .ok [] =>
    let emptyPolls := s.emptyPolls + 1
    { poller := { popped with
        emptyPolls, exhausted := s.exhausted || decide (st.TASK_EXHAUST_POLLS ≤ emptyPolls) } }
  | .ok tasks =>
    let (passed, b) := passAll st srv spider 0 tasks s.buffer
    match b.flush srv with
    | (.ok (), b) => { poller := { popped with buffer := b, emptyPolls := 0, exhausted := false }, passed }
    | (.error e, b) =>
      { poller := { popped with buffer := b, emptyPolls := 0, exhausted := false }, passed, raised := some e }

/-- The popped entries that are valid. -/
def valid (s : TaskPoll W) : List PyVal := (s.fetch st).filterMap fun raw => (spider.loadsJson raw).toOption

/-- Every valid task that was popped was passed on, and all that it yields was put. -/
def KeepsTasks (s : TaskPoll W) : Prop :=
  (s.poll st srv spider).passed =
    (s.valid st spider).zipIdx.map fun (task, k) => (task, (spider.makeRequests k task).requests)

instance (s : TaskPoll W) : Decidable (s.KeepsTasks st srv spider) := inferInstanceAs (Decidable (_ = _))

/-- No `put` raises while there are more requests of the task. -/
def Unbroken : List Request → RequestBuffer W → Prop
  | r :: r' :: rest, b =>
    (b.put srv st.REQUEST_BUFFER_MAX_CACHED r).1 = .ok () ∧
      Unbroken (r' :: rest) (b.put srv st.REQUEST_BUFFER_MAX_CACHED r).2
  | _, _ => True

/-- It is so for each of the tasks in turn, `k` of which were passed before. -/
def AllUnbroken (k : Nat) : List PyVal → RequestBuffer W → Prop
  | [], _ => True
  | task :: rest, b =>
    Unbroken st srv (spider.makeRequests k task).requests b ∧
      AllUnbroken (k + 1) rest (putAll st srv (spider.makeRequests k task).requests b).2

end TaskPoll

end Netspy
