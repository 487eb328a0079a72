import Mathlib.Logic.Function.Basic
import Netspy.Framework.Machine
import Netspy.Impl.BufferThreads
import Netspy.Impl.Setting

/-!
# `core/scheduler.py`, `core/base_scheduler.py`: a crawl in one process

The main thread of an `AirScheduler` with its workers, its request buffer and its item
buffer. Each read of `_is_done`, each section under a lock and each call of the queue
is a step, and so is each step of the teardown. What callbacks yield, how a request
ends, what the filter answers and which calls raise is part of the actions. A join may
time out at any moment, so it is no step.

A request object is known by its identity `obj`; each time that it is put it has a new
`serial`. An item has the `serial` of the put that it was produced for, and as `obj` its
owner, by which a middleware may have replaced that request. Which request of the queue
is the next one is left open. So is what happens after a put that raised while the seeds
are put, which ends the run; and a callback whose put raised may go on. Both only add
runs.

`fates` has how puts have ended. While the main thread makes a check, `slipped` tells
that something has passed a read of it unseen. No step reads these two.
-/

namespace Netspy

structure AirPut where
  serial : Nat
  obj : Nat
  deriving Repr, DecidableEq

inductive AirFate where
  | dropped
  | failed
  | retried
  | completed
  | crashed
  deriving Repr, DecidableEq

/-- What a callback waits for: nothing, the check whether the buffer is full, the swap
of one that was full, a flush, an item buffer that is full, or a flush of it. -/
inductive AirWait where
  | running
  | put
  | full
  | flush (j : Nat)
  | itemPut
  | itemFlush (k : Nat)
  deriving Repr, DecidableEq

/-- Where a worker is: at the top of its loop, in `get_request` before its lock, before
the queue, with what it took, with its request to be marked, marked, and with `busy`
set until it has acknowledged it. -/
inductive AirPhase where
  | idle
  | entered
  | asking
  | took (x : Tagged AirPut) (extra : List (Tagged AirPut))
  | extended (x : Tagged AirPut)
  | marked (x : Tagged AirPut)
  | busy (x : Tagged AirPut) (deferred : Bool) (wait : AirWait) (retried : Bool)
  | finished (x : Tagged AirPut) (deferred : Bool)
  | acked
  | exited
  deriving Repr, DecidableEq

namespace AirPhase

/-- `busy` of the worker. -/
def isBusy : AirPhase → Bool
  | busy .. | finished .. | acked => true
  | _ => false

/-- It has a request, and `busy` is not set. -/
def isQuiet : AirPhase → Bool
  | took .. | extended _ | marked _ => true
  | _ => false

/-- The requests that it has, and whose end is not decided. -/
def held : AirPhase → List (Tagged AirPut)
  | took x extra => x :: extra
  | extended x | marked x | busy x _ _ false => [x]
  | _ => []

end AirPhase

/-- A flush of items: the batch that it persists, or the owners that it acknowledges. -/
inductive AirItemFlush where
  | holding (batch : List AirPut)
  | acking (owners : List Nat)
  | over (raised : Bool)
  deriving Repr, DecidableEq

/-- The item buffer; a flush is run by a worker, or by another thread. `lost` are the
items of batches that were not persisted. -/
structure AirItems where
  pending : List AirPut := []
  flushes : Nat → AirItemFlush := fun _ => .over false
  runner : Nat → Option Nat := fun _ => none
  started : Nat := 0
  lost : List AirPut := []

namespace AirItems

/-- The items that a flush has not persisted. -/
def holding (b : AirItems) (k : Nat) : List AirPut :=
  match b.flushes k with
  | .holding batch => batch
  | _ => []

def setFlush (b : AirItems) (k : Nat) (f : AirItemFlush) : AirItems :=
  { b with flushes := Function.update b.flushes k f }

/-- The swap at the head of `flush`. -/
def swap (b : AirItems) (runner : Option Nat) : AirItems where
  pending := []
  flushes := Function.update b.flushes b.started (if b.pending.isEmpty then .over false else .holding b.pending)
  runner := Function.update b.runner b.started runner
  started := b.started + 1
  lost := b.lost

end AirItems

/-- The next read of a check. -/
inductive CheckRead where
  | pending
  | collector
  | collectorQueue
  | items
  | worker (i : Nat)
  | queue
  deriving Repr, DecidableEq

namespace CheckRead

/-- What has been read before. -/
def pendingRead : CheckRead → Bool
  | pending => false
  | _ => true

def collectorRead : CheckRead → Bool
  | pending | collector => false
  | _ => true

def itemsRead : CheckRead → Bool
  | worker _ | queue => true
  | _ => false

def workerRead (w : Nat) : CheckRead → Bool
  | worker i => w < i
  | queue => true
  | _ => false

end CheckRead

inductive Teardown where
  | stopWorkers
  | flush (j : Option Nat)
  | itemFlush (k : Option Nat)
  | drainPending
  | drainCollector
  | drainQueue
  | dump
  deriving Repr, DecidableEq

/-- Where the main thread is. It is `done` when `_wait_until_done` returns because of
`_is_done`. -/
inductive MainPhase where
  | seeding (flush : Option Nat)
  | polling (streak : Nat)
  | checking (streak : Nat) (next : CheckRead) (slipped : Bool)
  | done
  | tearing (step : Teardown)
  | ended
  deriving Repr, DecidableEq

/-- The threads have started. -/
def MainPhase.started : MainPhase → Bool
  | seeding _ => false
  | _ => true

structure AirScheduler where
  main : MainPhase := .seeding none
  /-- The stop event, and that of the workers. -/
  stopped : Bool := false
  stopping : Bool := false
  buffer : BufferThreads AirPut := {}
  /-- The worker that runs a flush of requests, if one does. -/
  runner : Nat → Option Nat := fun _ => none
  queue : List (Tagged AirPut) := []
  /-- The collector's `_buffer` and `_in_progress`. -/
  collected : List (Tagged AirPut) := []
  inProgress : List Nat := []
  workers : Nat → AirPhase := fun _ => .idle
  items : AirItems := {}
  leftovers : List (Tagged AirPut) := []
  dumpFile : List (Tagged AirPut) := []
  puts : Nat := 0
  fates : List (Nat × AirFate) := []

inductive MainAct where
  | seed (obj : Nat) (request : Request)
  | seedFlush
  | seedReturn
  | start
  /-- `stop()`, or a signal. -/
  | stop
  | loop
  | timeUp
  | read
  | tear
  /-- The lines that are written before one cannot be, or all. -/
  | dump (cut : Option Nat)

inductive WorkerAct where
  | enter
  | pop
  | take (i : Nat)
  | timeout
  | extra (i : Nat)
  | extend
  | mark
  | begin
  | put (obj : Nat) (request : Request)
  | checkFull
  | flush
  | resume
  | putItem (owner : Nat)
  | flushItems
  | retry (obj : Nat) (request : Request)
  | finish (fate : AirFate)
  | ack
  | rest
  | exit

inductive BufferAct where
  | swap
  | filter (j : Nat) (answer : Answer)
  | push (j : Nat) (works : Bool)
  | swapItems
  | persist (k : Nat) (works : Bool)
  | ack (k : Nat)

inductive AirAct where
  | main (a : MainAct)
  | worker (w : Nat) (a : WorkerAct)
  | buffer (a : BufferAct)

namespace AirScheduler

def move (s : AirScheduler) (w : Nat) (phase : AirPhase) : AirScheduler :=
  { s with workers := Function.update s.workers w phase }

/-- `put` of the request buffer, up to the check whether it is full. -/
def put (s : AirScheduler) (obj : Nat) (request : Request) : AirScheduler :=
  { s with buffer := s.buffer.put ⟨⟨s.puts, obj⟩, request⟩, puts := s.puts + 1 }

/-- The swap at the head of a flush of requests. -/
def swap (s : AirScheduler) (runner : Option Nat) : AirScheduler :=
  { s with buffer := s.buffer.swap, runner := Function.update s.runner s.buffer.flushes.length runner }

/-- A flush of requests is over. -/
def flushed (s : AirScheduler) (j : Nat) : Bool := (s.buffer.flushes[j]?).any (·.batch.isEmpty)

def settle (s : AirScheduler) (x : Tagged AirPut) (fate : AirFate) : AirScheduler :=
  { s with fates := (x.tag.serial, fate) :: s.fates }

/-! ## Workers -/

/-- `ParserWorker.run` with `Collector.get_request`. `handled` is whether there is an
item handler. -/
def workerStep (st : Setting) (threads : Nat) (handled : Bool) (s : AirScheduler) (w : Nat) :
    WorkerAct → Option AirScheduler
  | .enter =>
    if s.workers w = .idle ∧ w < threads ∧ s.main.started ∧ s.stopping = false then some (s.move w .entered) else none
  | .exit => if s.workers w = .idle ∧ w < threads ∧ s.stopping then some (s.move w .exited) else none
  | .pop =>
    match s.workers w, s.collected with
    | .entered, x :: rest =>
      some { s.move w (.marked x) with collected := rest, inProgress := x.tag.obj :: s.inProgress }
    | .entered, [] => some (s.move w .asking)
    | _, _ => none
  | .take i =>
    match s.workers w, s.queue[i]? with
    | .asking, some x => some { s.move w (.took x []) with queue := s.queue.eraseIdx i }
    | _, _ => none
  | .timeout => if s.workers w = .asking then some (s.move w .idle) else none
  | .extra i =>
    match s.workers w, s.queue[i]? with
    | .took x extra, some y =>
      if extra.length < max 1 (st.COLLECTOR_TASK_COUNT - 1) then
        some { s.move w (.took x (extra ++ [y])) with queue := s.queue.eraseIdx i }
      else none
    | _, _ => none
  | .extend =>
    match s.workers w with
    | .took x extra => some { s.move w (.extended x) with collected := s.collected ++ extra }
    | _ => none
  | .mark =>
    match s.workers w with
    | .extended x => some { s.move w (.marked x) with inProgress := x.tag.obj :: s.inProgress }
    | _ => none
  | .begin =>
    match s.workers w with
    | .marked x => some (s.move w (.busy x false .running false))
    | _ => none
  | .put obj request =>
    match s.workers w with
    | .busy x deferred .running retried => some ((s.put obj request).move w (.busy x deferred .put retried))
    | _ => none
  | .checkFull =>
    match s.workers w with
    | .busy x deferred .put retried =>
      let wait := if st.REQUEST_BUFFER_MAX_CACHED ≤ s.buffer.pending.length then .full else .running
      some (s.move w (.busy x deferred wait retried))
    | _ => none
  | .flush =>
    match s.workers w with
    | .busy x deferred .full retried =>
      some ((s.swap (some w)).move w (.busy x deferred (.flush s.buffer.flushes.length) retried))
    | _ => none
  | .resume =>
    match s.workers w with
    | .busy x deferred (.flush j) retried =>
      if s.flushed j then some (s.move w (.busy x deferred .running retried)) else none
    | .busy x deferred (.itemFlush k) retried =>
      match s.items.flushes k with
      | .over raised => some (s.move w (.busy x (deferred || !(handled && raised)) .running retried))
      | _ => none
    | _ => none
  | .putItem owner =>
    match s.workers w with
    | .busy x deferred .running retried =>
      let s := { s with items := { s.items with pending := s.items.pending ++ [AirPut.mk x.tag.serial owner] } }
      some (if st.ITEM_MAX_CACHED_COUNT ≤ s.items.pending.length then s.move w (.busy x deferred .itemPut retried)
        else s.move w (.busy x true .running retried))
    | _ => none
  | .flushItems =>
    match s.workers w with
    | .busy x deferred .itemPut retried =>
      some ({ s with items := s.items.swap (some w) }.move w (.busy x deferred (.itemFlush s.items.started) retried))
    | _ => none
  | .retry obj request =>
    match s.workers w with
    | .busy x deferred .running false =>
      some (((s.put obj { request with filterRepeat := false }).settle x .retried).move w (.busy x deferred .put true))
    | _ => none
  | .finish fate =>
    match s.workers w with
    | .busy x deferred .running false =>
      if fate = .retried then none else some ((s.settle x fate).move w (.finished x deferred))
    | .busy x deferred .running true => some (s.move w (.finished x deferred))
    | _ => none
  | .ack =>
    match s.workers w with
    | .finished x deferred =>
      some { s.move w .acked with
        inProgress := if deferred then s.inProgress else s.inProgress.filter (· ≠ x.tag.obj) }
    | _ => none
  | .rest => if s.workers w = .acked then some (s.move w .idle) else none

/-! ## Buffers -/

/-- The threads of the buffers, and the flushes of every thread. -/
def bufferStep (s : AirScheduler) : BufferAct → Option AirScheduler
  | .swap => if s.main.started then some (s.swap none) else none
  | .filter j answer =>
    (s.buffer.filter j answer).map fun (dropped, buffer) =>
      { s with buffer, fates := (dropped.toList.map fun x => (x.tag.serial, .dropped)) ++ s.fates }
  | .push j works =>
    (s.buffer.push j works).map fun (pushed, buffer) => { s with buffer, queue := s.queue ++ pushed.toList }
  | .swapItems => if s.main.started then some { s with items := s.items.swap none } else none
  | .persist k works =>
    match s.items.flushes k with
    | .holding batch =>
      some { s with items :=
        if works then s.items.setFlush k (.acking (batch.map AirPut.obj).dedup)
        else { s.items.setFlush k (.over true) with lost := s.items.lost ++ batch } }
    | _ => none
  | .ack k =>
    match s.items.flushes k with
    | .acking (obj :: owners) =>
      some { s with items := s.items.setFlush k (.acking owners), inProgress := s.inProgress.filter (· ≠ obj) }
    | .acking [] => some { s with items := s.items.setFlush k (.over false) }
    | _ => none

/-! ## The main thread -/

/-- A read of `_is_done`: whether it finds nothing. -/
def findsNothing (s : AirScheduler) : CheckRead → Bool
  | .pending => s.buffer.pending.isEmpty
  | .collector => s.collected.isEmpty && s.inProgress.isEmpty
  | .collectorQueue | .queue => s.queue.isEmpty
  | .items => s.items.pending.isEmpty
  | .worker i => !(s.workers i).isBusy

/-- The read after this one. -/
def nextRead (threads : Nat) : CheckRead → Option CheckRead
  | .pending => some .collector
  | .collector => some .collectorQueue
  | .collectorQueue => some .items
  | .items => some (if 0 < threads then .worker 0 else .queue)
  | .worker i => some (if i + 1 < threads then .worker (i + 1) else .queue)
  | .queue => none

/-- A step of `_teardown`, which ends with `_drain_leftovers`. -/
def tearStep (s : AirScheduler) : Teardown → Option AirScheduler
  | .stopWorkers => some { s with stopping := true, main := .tearing (.flush none) }
  | .flush none => some { s.swap none with main := .tearing (.flush (some s.buffer.flushes.length)) }
  | .flush (some j) => if s.flushed j then some { s with main := .tearing (.itemFlush none) } else none
  | .itemFlush none => some { s with items := s.items.swap none, main := .tearing (.itemFlush (some s.items.started)) }
  | .itemFlush (some k) =>
    match s.items.flushes k with
    | .over _ => some { s with main := .tearing .drainPending }
    | _ => none
  | .drainPending =>
    let (pending, buffer) := s.buffer.drainPending
    some { s with buffer, leftovers := pending, main := .tearing .drainCollector }
  | .drainCollector =>
    some { s with leftovers := s.leftovers ++ s.collected, collected := [], main := .tearing .drainQueue }
  | .drainQueue =>
    match s.queue with
    | x :: queue => some { s with leftovers := s.leftovers ++ [x], queue }
    | [] => some { s with main := .tearing .dump }
  | .dump => none

def mainStep (st : Setting) (threads : Nat) (s : AirScheduler) : MainAct → Option AirScheduler
  | .seed obj request => if s.main = .seeding none then some (s.put obj request) else none
  | .seedFlush =>
    if s.main = .seeding none then some { s.swap none with main := .seeding (some s.buffer.flushes.length) } else none
  | .seedReturn =>
    match s.main with
    | .seeding (some j) => if s.flushed j then some { s with main := .seeding none } else none
    | _ => none
  | .start =>
    if s.main = .seeding none ∧ s.buffer.pending.isEmpty then some { s with main := .polling 0 } else none
  | .stop => some { s with stopped := true }
  | .loop =>
    match s.main with
    | .polling streak =>
      some { s with main := if s.stopped then .tearing .stopWorkers else .checking streak .pending false }
    | _ => none
  | .timeUp =>
    match s.main with
    | .polling _ =>
      if 0 < st.SPIDER_MAX_RUNTIME then some { s with stopped := true, main := .tearing .stopWorkers } else none
    | _ => none
  | .read =>
    match s.main with
    | .checking streak next slipped =>
      if s.findsNothing next then
        match nextRead threads next with
        | some next => some { s with main := .checking streak next slipped }
        | none =>
          some { s with main := if st.DONE_CHECK_TIMES ≤ streak + 1 then .done else .polling (streak + 1) }
      else some { s with main := .polling 0 }
    | _ => none
  | .tear =>
    match s.main with
    | .done => some { s with main := .tearing .stopWorkers }
    | .tearing step => s.tearStep step
    | _ => none
  | .dump cut =>
    match s.main with
    | .tearing .dump =>
      let written := (cut.map s.leftovers.take).getD s.leftovers
      some { s with
        main := .ended, dumpFile := s.dumpFile ++ if st.DUMP_UNFINISHED_ON_EXIT then written else [] }
    | _ => none

/-! ## What passes a check unseen -/

/-- A read finds nothing of what a flush holds that no worker runs, of items that were
lost with their request acknowledged, or of a worker that has a request before it sets
`busy`. -/
def unseen (s : AirScheduler) : CheckRead → Bool
  | .pending => (List.range s.buffer.flushes.length).any fun j => (s.runner j).isNone && !s.flushed j
  | .collector => s.items.lost.any fun x => x.obj ∉ s.inProgress
  | .items => (List.range s.items.started).any fun k => (s.items.runner k).isNone && !(s.items.holding k).isEmpty
  | .worker i => (s.workers i).isQuiet
  | .collectorQueue | .queue => false

/-- A step puts something where the check has looked already, or loses items. -/
def slips (s : AirScheduler) (next : CheckRead) : AirAct → Bool
  | .main .read => s.unseen next
  | .worker _ (.put ..) | .worker _ (.retry ..) => next.pendingRead
  | .worker w .extend =>
    match s.workers w with
    | .took _ extra => next.collectorRead && !extra.isEmpty
    | _ => false
  | .worker w (.take _) => next.workerRead w
  | .worker _ (.putItem _) => next.itemsRead
  | .buffer (.filter j .raised) => next.pendingRead && (s.buffer.asking j).any (·.request.filterRepeat)
  | .buffer (.push _ false) => next.pendingRead
  | .buffer (.persist _ false) => next.collectorRead
  | _ => false

def mark (s : AirScheduler) (slip : Bool) : AirScheduler :=
  match s.main with
  | .checking streak next slipped => { s with main := .checking streak next (slipped || slip) }
  | _ => s

def turn (st : Setting) (threads : Nat) (handled : Bool) (s : AirScheduler) : AirAct → Option AirScheduler
  | .main a => s.mainStep st threads a
  | .worker w a => s.workerStep st threads handled w a
  | .buffer a => s.bufferStep a

/-- A step, until the process ends. -/
def step (st : Setting) (threads : Nat) (handled : Bool) (s : AirScheduler) (a : AirAct) : Option AirScheduler :=
  match s.main with
  | .ended => none
  | .checking _ next _ => (s.turn st threads handled a).map fun t => t.mark (s.slips next a)
  | _ => s.turn st threads handled a

end AirScheduler

/-- A crawl from when it begins to put its seeds. -/
def airMachine (st : Setting) (threads : Nat) (handled : Bool) : Machine AirScheduler AirAct where
  start s := s = {}
  step := AirScheduler.step st threads handled

end Netspy
