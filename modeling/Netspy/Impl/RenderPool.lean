import Netspy.Framework.Machine
import Netspy.Impl.ParserControl

/-!
# `_RenderPool` of `network/downloader/_playwright.py`

Threads that call `submit`, the workers of the pool, and one thread that calls
`close`. A section under the lock of `_ensure_started`, an operation on the queue or on
an event, and a look at a stop flag are one step each; `close` holds the lock from its
first step to its last. What a render returns or raises is part of the action. No wait
times out but that of a worker for a job, and only while the queue is empty. The
requests are left out, and what a worker does with its browser.
-/

namespace Netspy

/-- `_Job`, without the request. -/
structure RenderJob where
  response : Option Response := none
  error : Option String := none
  event : Bool := false
  deriving DecidableEq

def RenderJob.fail (job : RenderJob) (exc : String) : RenderJob :=
  if job.event then job else { job with error := some exc, event := true }

inductive WorkerStage where
  /-- About to look at the stop flag. -/
  | checking
  /-- In `get`. -/
  | getting
  | rendering (job : Nat)
  /-- About to set the event. -/
  | rendered (job : Nat)
  /-- In `_teardown`. -/
  | leaving
  | exited
  deriving DecidableEq

structure PoolWorker where
  stop : Bool := false
  stage : WorkerStage := .checking
  deriving DecidableEq

inductive SubmitStage where
  /-- Before the lock of `_ensure_started`. -/
  | starting
  | started
  /-- The job is in the queue, or was. -/
  | waiting
  | returned
  deriving DecidableEq

/-- A call of `submit`, with its job. -/
structure Submit where
  stage : SubmitStage := .starting
  job : RenderJob := {}
  deriving DecidableEq

inductive CloseStage where
  | open
  /-- About to stop the worker `k`. -/
  | stopping (k : Nat)
  /-- `k` sentinels are in the queue. -/
  | sending (k : Nat)
  | joining (k : Nat)
  | draining
  | returned
  deriving DecidableEq

/-- A job is known by the number of its call. -/
structure RenderPool where
  jobs : List (Option Nat) := []
  workers : List PoolWorker := []
  started : Bool := false
  closed : Bool := false
  close : CloseStage := .open
  calls : List Submit := []
  deriving DecidableEq

inductive RenderAct where
  /-- A thread calls `submit`. -/
  | submit
  | ensureStarted (i : Nat)
  | put (i : Nat)
  /-- The event is set, and `submit` goes on. -/
  | wake (i : Nat)
  /-- The next step of a worker; `result` is that of the render, if it is this step. -/
  | work (w : Nat) (result : Except String Response)
  /-- The next step of `close`. -/
  | close
  deriving DecidableEq

inductive RenderThread where
  | callers
  | worker (w : Nat)
  | closer
  deriving DecidableEq

def RenderAct.thread : RenderAct → RenderThread
  | .submit | .ensureStarted _ | .put _ | .wake _ => .callers
  | .work w _ => .worker w
  | .close => .closer

namespace RenderPool

/-- Whether `close` holds the lock. -/
def locked (s : RenderPool) : Bool :=
  match s.close with
  | .open | .returned => false
  | _ => true

def stage (s : RenderPool) (i : Nat) : Option SubmitStage := s.calls[i]?.map (·.stage)

def modifyJob (s : RenderPool) (i : Nat) (f : RenderJob → RenderJob) : RenderPool :=
  { s with calls := s.calls.modify i fun c => { c with job := f c.job } }

def setStage (s : RenderPool) (i : Nat) (stage : SubmitStage) : RenderPool :=
  { s with calls := s.calls.modify i fun c => { c with stage } }

def setWorker (s : RenderPool) (w : Nat) (worker : PoolWorker) : RenderPool :=
  { s with workers := s.workers.set w worker }

/-- The lock section of `_ensure_started`. -/
def _ensure_started (size : Nat) (s : RenderPool) : RenderPool :=
  if s.closed || s.started then s
  else { s with workers := List.replicate (max 1 size) {}, started := true }

/-- A step of `_RenderWorker.run`. -/
def run (s : RenderPool) (w : Nat) (worker : PoolWorker) (result : Except String Response) :
    Option RenderPool :=
  match worker.stage with
  | .checking => some (s.setWorker w { worker with stage := if worker.stop then .leaving else .getting })
  | .getting =>
    match s.jobs with
    | [] => some (s.setWorker w { worker with stage := .checking })
    | none :: jobs => some { s.setWorker w { worker with stage := .leaving } with jobs }
    | some i :: jobs => some { s.setWorker w { worker with stage := .rendering i } with jobs }
  | .rendering i =>
    let s := s.setWorker w { worker with stage := .rendered i }
    match result with
    | .ok response => some (s.modifyJob i fun job => { job with response := some response })
    | .error exc => some (s.modifyJob i fun job => { job with error := some exc })
  | .rendered i =>
    some ((s.setWorker w { worker with stage := .checking }).modifyJob i fun job => { job with event := true })
  | .leaving => some (s.setWorker w { worker with stage := .exited })
  | .exited => none

/-- A step of `close`, with `_drain`. -/
def closeStep (s : RenderPool) : Option RenderPool :=
  match s.close with
  | .open =>
    if s.closed then some { s with close := .returned }
    else some { s with closed := true, close := if s.started then .stopping 0 else .returned }
  | .stopping k =>
    match s.workers[k]? with
    | some worker => some { s.setWorker k { worker with stop := true } with close := .stopping (k + 1) }
    | none => some { s with close := .sending 0 }
  | .sending k =>
    if k < s.workers.length then some { s with jobs := s.jobs ++ [none], close := .sending (k + 1) }
    else some { s with close := .joining 0 }
  | .joining k =>
    match s.workers[k]? with
    | some worker => if worker.stage = .exited then some { s with close := .joining (k + 1) } else none
    | none => some { s with workers := [], started := false, close := .draining }
  | .draining =>
    match s.jobs with
    | [] => some { s with close := .returned }
    | none :: jobs => some { s with jobs }
    | some i :: jobs =>
      some ({ s with jobs }.modifyJob i fun job => job.fail "渲染池已关闭，这个请求没能开始渲染")
  | .returned => none

def step (size : Nat) (s : RenderPool) : RenderAct → Option RenderPool
  | .submit => some { s with calls := s.calls ++ [{}] }
  | .ensureStarted i =>
    if s.stage i = some .starting ∧ s.locked = false then some ((s._ensure_started size).setStage i .started)
    else none
  | .put i =>
    if s.stage i = some .started then some { s.setStage i .waiting with jobs := s.jobs ++ [some i] }
    else none
  | .wake i =>
    if s.stage i = some .waiting ∧ s.calls[i]?.map (·.job.event) = some true then some (s.setStage i .returned)
    else none
  | .work w result =>
    match s.workers[w]? with
    | some worker => s.run w worker result
    | none => none
  | .close => s.closeStep

/-- The pool with `pool_size` set to `size`. -/
def machine (size : Nat) : Machine RenderPool RenderAct where
  start s := s = {}
  step := step size

end RenderPool

end Netspy
