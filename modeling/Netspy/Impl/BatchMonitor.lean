import Netspy.Framework.LockKey
import Netspy.Impl.BatchSpider
import Netspy.Impl.SharedFilter

/-!
# The masters of a batch job

`BatchMonitor.run_once` and `run` on any number of nodes with one job, and the
key that they lock it by. Each call to Redis or the task table is a step, and so
is the look at `_stop`; between any two of them the key may expire, the call may
raise, and the process may be killed. A call that raises after it had its effect
is one that works and is followed by a `raise`.

What `_ensure_batch` and `_tick` do is in `BatchJob.monitorStep`. Waiting between
two rounds is left out, and so is `ensure_schema`, which does nothing to a task
table that exists.
-/

namespace Netspy

inductive MonitorLoop where
  | runOnce
  | run
  deriving Repr, DecidableEq

/-- How `run_once` or `run` ends. -/
inductive MonitorEnd where
  | returned (batch : Option BatchRecord)
  | raised (e : Exn) (message : String)
  deriving Repr, DecidableEq

/-- What a master does next. -/
inductive MonitorPoint where
  | out (last : Option MonitorEnd)
  | ensureSchema (d : MonitorLoop)
  /-- The look at `_stop`, in the loop of a batch or in the outer one of `run`. -/
  | loop (d : MonitorLoop) (batch : Option BatchRecord)
  | renewLock (d : MonitorLoop) (batch : Option BatchRecord)
  | ensureBatch (d : MonitorLoop)
  /-- A call in `_ensure_batch` or `_tick`. -/
  | call (d : MonitorLoop) (phase : MonitorPhase)
  /-- `run_once` reads the batch that it returns. -/
  | latestBatch (batch : BatchRecord)
  /-- `__exit__` of the lock. -/
  | leave (how : MonitorEnd)
  deriving DecidableEq

structure BatchMonitor where
  point : MonitorPoint := .out none
  stop : Bool := false

structure BatchMonitors (μ ν S φ : Type) where
  job : BatchJob ν S φ
  lock : Option String := none
  monitors : μ → BatchMonitor := fun _ => {}

inductive MonitorAct (μ ν : Type) where
  /-- `run_once` or `run` is called, up to `_hold_lock`. -/
  | holdLock (n : μ) (d : MonitorLoop) (reply : Reply)
  | ensureSchema (n : μ)
  | loop (n : μ)
  | renewLock (n : μ) (reply : Reply)
  | ensureBatch (n : μ)
  | call (n : μ)
  | latestBatch (n : μ)
  | releaseLock (n : μ) (reply : Reply)
  | raise (n : μ) (e : Exn) (message : String)
  | stop (n : μ)
  | kill (n : μ)
  | expire
  /-- A step of the clock, of a worker or of its poller. -/
  | work (a : BatchAct ν)

/-- The steps of a job that no master has a part in. -/
def BatchAct.isWork {ν : Type} : BatchAct ν → Bool
  | .ensureBatch _ | .monitor | .stopMonitor => false
  | _ => true

namespace MonitorPoint

/-- A session: from the lock until it is released, or the process is killed. -/
def inside : MonitorPoint → Bool
  | .out _ => false
  | _ => true

/-- It can raise here. -/
def raises : MonitorPoint → Bool
  | .out _ | .leave _ => false
  | _ => true

/-- What follows `_ensure_batch` or a call. -/
def after (d : MonitorLoop) : MonitorPhase → MonitorPoint
  | .resting =>
    match d with
    | .runOnce => .leave (.raised "AssertionError" "")
    | .run => .loop d none
  | .resetLost batch => .loop d (some batch)
  | phase => .call d phase

end MonitorPoint

namespace BatchMonitors

variable {μ ν S φ : Type} [DecidableEq μ] [DecidableEq ν] [BatchStore S] [Filter φ]
  (st : Setting) (codec : Codec) (spider : BatchSpider) (nodeId : μ → String)

def lockKey : String := spider.jobNs ++ ":batch_monitor_lock"

def alreadyRunning : MonitorEnd :=
  .raised "SpiderError" ("已有 BatchSpider monitor 在运行（" ++ lockKey spider ++ "）")

def lockTaken : MonitorEnd :=
  .raised "SpiderError" ("BatchSpider monitor 锁已易主（" ++ lockKey spider ++ "），本节点退出")

def connectionError : MonitorEnd := .raised "ConnectionError" ""

def moveTo (s : BatchMonitors μ ν S φ) (n : μ) (point : MonitorPoint) : BatchMonitors μ ν S φ :=
  { s with monitors := Function.update s.monitors n { s.monitors n with point } }

/-- `_hold_lock`. -/
def holdLock (s : BatchMonitors μ ν S φ) (n : μ) (d : MonitorLoop) (reply : Reply) : BatchMonitors μ ν S φ :=
  let (acquired, lock) := LockKey.setNx s.lock (nodeId n)
  match reply with
  | .answered =>
    { s with lock }.moveTo n (if acquired then .ensureSchema d else .out (some (alreadyRunning spider)))
  | .failed => s.moveTo n (.out (some connectionError))
  | .lost => { s with lock }.moveTo n (.out (some connectionError))

/-- `_renew_lock`. -/
def renewLock (s : BatchMonitors μ ν S φ) (n : μ) (d : MonitorLoop) (batch : Option BatchRecord) (reply : Reply) :
    BatchMonitors μ ν S φ :=
  s.moveTo n <|
    match reply with
    | .answered =>
      if LockKey.renew s.lock (nodeId n) then
        match batch with
        | some batch => .call d (.resetLost batch)
        | none => .ensureBatch d
      else .leave (lockTaken spider)
    | .failed | .lost => .leave connectionError

/-- The next call of `_ensure_batch` or `_tick`. -/
def call (s : BatchMonitors μ ν S φ) (n : μ) (d : MonitorLoop) (phase : MonitorPhase) :
    Option (BatchMonitors μ ν S φ) :=
  (BatchJob.monitorStep st spider { s.job with monitor := phase }).map fun job =>
    { s with job := { job with monitor := .resting } }.moveTo n <|
      match d, phase with
      | .runOnce, .finish batch => .latestBatch batch
      | _, _ => .after d job.monitor

/-- `__exit__` of the lock; what it raises is not seen. -/
def releaseLock (s : BatchMonitors μ ν S φ) (n : μ) (how : MonitorEnd) (reply : Reply) : BatchMonitors μ ν S φ :=
  let s := s.moveTo n (.out (some how))
  match reply with
  | .answered | .lost => { s with lock := LockKey.release s.lock (nodeId n) }
  | .failed => s

def step (s : BatchMonitors μ ν S φ) : MonitorAct μ ν → Option (BatchMonitors μ ν S φ)
  | .holdLock n d reply =>
    match (s.monitors n).point with
    | .out _ => some (s.holdLock spider nodeId n d reply)
    | _ => none
  | .ensureSchema n =>
    match (s.monitors n).point with
    | .ensureSchema .runOnce => some (s.moveTo n (.ensureBatch .runOnce))
    | .ensureSchema .run => some (s.moveTo n (.loop .run none))
    | _ => none
  | .loop n =>
    match (s.monitors n).point with
    | .loop d batch =>
      if (s.monitors n).stop then
        some (s.moveTo n (.leave (.returned (match d with | .runOnce => batch | .run => none))))
      else some (s.moveTo n (.renewLock d batch))
    | _ => none
  | .renewLock n reply =>
    match (s.monitors n).point with
    | .renewLock d batch => some (s.renewLock spider nodeId n d batch reply)
    | _ => none
  | .ensureBatch n =>
    match (s.monitors n).point with
    | .ensureBatch d => some (s.moveTo n (.after d (s.job.ensureBatch st (d = .runOnce))))
    | _ => none
  | .call n =>
    match (s.monitors n).point with
    | .call d phase => s.call st spider n d phase
    | _ => none
  | .latestBatch n =>
    match (s.monitors n).point with
    | .latestBatch batch =>
      some (s.moveTo n (.leave (.returned (some ((BatchStore.latestBatch s.job.store).getD batch)))))
    | _ => none
  | .releaseLock n reply =>
    match (s.monitors n).point with
    | .leave how => some (s.releaseLock nodeId n how reply)
    | _ => none
  | .raise n e message =>
    if (s.monitors n).point.raises then some (s.moveTo n (.leave (.raised e message))) else none
  | .stop n => some { s with monitors := Function.update s.monitors n { s.monitors n with stop := true } }
  | .kill n => some { s with monitors := Function.update s.monitors n {} }
  | .expire => some { s with lock := none }
  | .work a => if a.isWork then (s.job.step st codec spider a).map fun job => { s with job } else none

/-- The runs from any job and any content of the key. -/
def machine : Machine (BatchMonitors μ ν S φ) (MonitorAct μ ν) where
  start s := (BatchJob.machine st codec spider).start s.job ∧ ∀ n, s.monitors n = {}
  step := step st codec spider nodeId

end BatchMonitors

end Netspy
