import Mathlib.Logic.Function.Basic
import Netspy.Framework.Machine

/-!
# `network/downloader/_async_httpx.py`: a shard that is closed

The event loop of a `_Shard`, the threads that wait in `shard.submit`, and `_close_shard`.
A coroutine is known by the number of its `submit`. What it waits for and whether a step of
it finishes it is part of the actions, but for `_cancel_pending`. The setup of the shard is
over at the start.

The loop runs its callbacks in turns: those that are added during a turn are run in the
next one. `ended` is when `run_forever` has returned, and `closed` when `loop.close()` has,
after which `submit` raises. `before` is what had been submitted when `_cancel_pending`
was; no step depends on it.
-/

namespace Netspy

/-- A callback of the loop. -/
inductive LoopHandle where
  /-- of `run_coroutine_threadsafe`: it makes the task -/
  | create (i : Nat)
  | step (i : Nat)
  /-- The task is done, and the future that the thread waits for gets its result. -/
  | answer (i : Nat)
  /-- The task is done, and `gather` is told. -/
  | gathered (i : Nat)
  | stop
  deriving DecidableEq

/-- Where a coroutine is. -/
inductive CoroStage where
  | queued
  | scheduled
  | waiting
  | done
  | answered
  deriving DecidableEq

/-- Where `_close_shard` is. -/
inductive Closing where
  | unclosed
  /-- It waits for `_aclose`. -/
  | aclosing (k : Nat)
  /-- It waits for `_cancel_pending`. -/
  | cancelling (k : Nat)
  | stopping
  | closed
  /-- `loop.close()` has raised, as the loop was running after `_CLOSE_TIMEOUT`. -/
  | failed
  deriving DecidableEq

structure LoopShard where
  ready : List LoopHandle := []
  /-- How many callbacks are left of this turn. -/
  todo : Nat := 0
  stopping : Bool := false
  ended : Bool := false
  jobs : Nat → Option CoroStage := fun _ => none
  submitted : List Nat := []
  rejected : List Nat := []
  closing : Closing := .unclosed
  /-- `_cancel_pending`, and the tasks that it waits for. -/
  canceller : Option Nat := none
  gathering : Option (List Nat) := none
  before : List Nat := []

/-- What a step of a coroutine does. -/
inductive StepOutcome where
  | waits
  | finishes
  /-- `asyncio.all_tasks`, in any order -/
  | finds (tasks : List Nat)
  deriving DecidableEq

inductive LoopAct where
  | submit (i : Nat)
  /-- What a coroutine waits for has come. -/
  | wake (i : Nat)
  | turn
  | run (o : StepOutcome)
  | close (k : Nat)
  | cancelPending (k : Nat)
  | stop
  | joined
  deriving DecidableEq

namespace LoopShard

def setJob (s : LoopShard) (i : Nat) (c : CoroStage) : LoopShard :=
  { s with jobs := Function.update s.jobs i (some c) }

def add (s : LoopShard) (hs : List LoopHandle) : LoopShard := { s with ready := s.ready ++ hs }

/-- `run_coroutine_threadsafe`. -/
def submit (s : LoopShard) (i : Nat) : LoopShard :=
  { (s.setJob i .queued).add [.create i] with submitted := s.submitted ++ [i] }

/-- `_aclose`, `_cancel_pending` and the calls are the coroutines that may be there. -/
def isFree (s : LoopShard) (i : Nat) : Bool := (s.jobs i).isNone

def isLive (s : LoopShard) (i : Nat) : Bool := s.jobs i = some .scheduled || s.jobs i = some .waiting

/-- The task is done: its callbacks are scheduled in the order in which they were added. -/
def finish (s : LoopShard) (i : Nat) : LoopShard :=
  (s.setJob i .done).add (.answer i :: if i ∈ s.gathering.getD [] then [.gathered i] else [])

/-- `_cancel_pending` in the loop, where these are the other tasks: what waits is woken up. -/
def cancelPending (s : LoopShard) (k : Nat) (tasks : List Nat) : LoopShard :=
  if tasks.isEmpty then { s with gathering := some [] }.finish k
  else
    { (s.setJob k .waiting).add ((tasks.filter fun i => s.jobs i = some .waiting).map .step) with
      jobs := fun i => if i ∈ tasks then some .scheduled else (s.setJob k .waiting).jobs i
      gathering := some tasks }

/-- The next step of a coroutine. -/
def resume (s : LoopShard) (i : Nat) : StepOutcome → Option LoopShard
  | .waits => if s.canceller = some i then none else some (s.setJob i .waiting)
  | .finishes => if s.canceller = some i ∧ s.gathering = none then none else some (s.finish i)
  | .finds tasks =>
    if s.canceller = some i ∧ s.gathering = none ∧ tasks.Nodup ∧
        (∀ j ∈ tasks, j ∈ s.submitted) ∧ ∀ j ∈ s.submitted, j ∈ tasks ↔ j ≠ i ∧ s.isLive j then
      some (s.cancelPending i tasks)
    else none

/-- `gather` is told that a task is done; the last one wakes up `_cancel_pending`. -/
def gathered (s : LoopShard) (i : Nat) : LoopShard :=
  match s.gathering.map fun tasks => tasks.erase i, s.canceller with
  | some [], some k => { (s.setJob k .scheduled).add [.step k] with gathering := some [] }
  | gathering, _ => { s with gathering }

def runHandle (s : LoopShard) (o : StepOutcome) : LoopHandle → Option LoopShard
  | .create i => some ((s.setJob i .scheduled).add [.step i])
  | .step i => s.resume i o
  | .answer i => some (s.setJob i .answered)
  | .gathered i => some (s.gathered i)
  | .stop => some { s with stopping := true }

def step (s : LoopShard) : LoopAct → Option LoopShard
  | .submit i =>
    if !s.isFree i then none
    else if s.closing = .closed then some { s with rejected := i :: s.rejected }
    else some (s.submit i)
  | .wake i =>
    if s.jobs i = some .waiting ∧ s.canceller ≠ some i ∧ s.ended = false then
      some ((s.setJob i .scheduled).add [.step i])
    else none
  | .turn =>
    if s.todo = 0 ∧ s.ended = false then
      if s.stopping then some { s with ended := true }
      else if s.ready.isEmpty then none
      else some { s with todo := s.ready.length }
    else none
  | .run o =>
    match s.todo, s.ready with
    | n + 1, h :: rest => { s with ready := rest, todo := n }.runHandle o h
    | _, _ => none
  | .close k =>
    if s.closing = .unclosed ∧ s.isFree k then some { s.submit k with closing := .aclosing k } else none
  | .cancelPending k =>
    match s.closing with
    | .aclosing j =>
      if s.jobs j = some .answered ∧ s.isFree k then
        some { s.submit k with closing := .cancelling k, canceller := some k, before := s.submitted }
      else none
    | _ => none
  | .stop =>
    match s.closing with
    | .cancelling k => if s.jobs k = some .answered then some { s.add [.stop] with closing := .stopping } else none
    | _ => none
  | .joined =>
    if s.closing = .stopping then some { s with closing := if s.ended then .closed else .failed } else none

def machine : Machine LoopShard LoopAct where
  start s := s = {}
  step := step

end LoopShard

end Netspy
