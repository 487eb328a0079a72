import Mathlib.Logic.Function.Basic
import Netspy.Framework.Machine
import Netspy.Impl.ItemBuffer

/-!
# The item buffer and its threads, step by step

`ItemBuffer.flush` is three things that other threads may come between: it
swaps `_pending` out, persists the batch, and then goes through the owners,
running their hooks and acknowledging them one by one. Here each is a step of
its flush, and the steps of all flushes interleave with those of the workers:
`Collector.get_request`, `ItemBuffer.put` (which flushes in the worker's
thread once the buffer is full), `BatchSpider.update_task`, and the `finally`
of `ParserWorker.run`.

A worker is known by the request it took. Puts are numbered, so that the
items of a request can be told apart; `acks` and `marks` record what was the
case at each call of `Collector.done` and of `mark_task`.
-/

namespace Netspy

/-- An entry of `_pending`, with its number. -/
structure Entry (ρ : Type) where
  serial : Nat
  obj : Obj
  owner : Option ρ

/-- The callback that `update_task` registers: the task, the request it was
called for, and how many items had been put by then. -/
structure Hook (ρ : Type) where
  task : PyVal
  owner : ρ
  puts : Nat

/-- How far a call of `flush` has come. `acking` has the owners still to be
acknowledged, and the hooks of the first one once they are popped. -/
inductive Flush (ρ : Type) where
  | swapped (batch : List (Entry ρ))
  | acking (batch : List (Entry ρ)) (todo : List ρ) (hooks : Option (List (Hook ρ)))
  | returned
  | raised (batch : List (Entry ρ))

/-- Where a worker is with its request: not there yet, in `_dispatch`, in a
`put` that flushes (with the flush, once it has begun), or past it. -/
inductive Phase where
  | idle
  | dispatching
  | flushing (flush : Option Nat)
  | finished
  deriving Repr, DecidableEq

structure Worker where
  phase : Phase := .idle
  deferred : Bool := false
  deriving Repr, DecidableEq

/-- A call of `Collector.done`: whether the worker had finished, and the items
put for the request that were not persisted. -/
structure AckRecord (ρ : Type) where
  owner : ρ
  finished : Bool
  unsettled : List Nat
  deriving Repr, DecidableEq

/-- A call of `mark_task`: the state it wrote, and the items put before
`update_task` was called that were not persisted. -/
structure MarkRecord where
  task : PyVal
  done : Bool
  unsettled : List Nat
  deriving Repr, DecidableEq

structure Persisting (ρ : Type) where
  handled : Bool := false
  pipelinePaths : Option (List String) := none
  cache : List (List String) := []
  pending : List (Entry ρ) := []
  afterPersist : List (Hook ρ) := []
  flushes : Nat → Flush ρ := fun _ => .returned
  started : Nat := 0
  workers : ρ → Worker := fun _ => {}
  /-- Every entry that was ever put. -/
  produced : List (Entry ρ) := []
  /-- The numbers of the entries in batches that were persisted. -/
  settled : List Nat := []
  acks : List (AckRecord ρ) := []
  marks : List MarkRecord := []

namespace Persisting

inductive Act (ρ : Type) where
  | take (o : ρ)
  | put (o : ρ) (obj : Obj)
  | putReturn (o : ρ)
  | putRaise (o : ρ)
  | updateTask (o : ρ) (task : PyVal) (ok : Bool)
  | finish (o : ρ)
  /-- A flush begins: in the `put` of a worker, or in another thread. -/
  | swap (worker : Option ρ)
  | persist (j : Nat) (out : Turnout)
  | popHooks (j : Nat)
  | runHook (j : Nat)
  | ack (j : Nat)

variable {ρ : Type}

def setFlush (s : Persisting ρ) (j : Nat) (f : Flush ρ) : Persisting ρ :=
  { s with flushes := Function.update s.flushes j f }

section
variable (s : Persisting ρ) (j : Nat) (f : Flush ρ)

@[simp] theorem setFlush_pending : (s.setFlush j f).pending = s.pending := rfl
@[simp] theorem setFlush_afterPersist : (s.setFlush j f).afterPersist = s.afterPersist := rfl
@[simp] theorem setFlush_flushes : (s.setFlush j f).flushes = Function.update s.flushes j f := rfl
@[simp] theorem setFlush_started : (s.setFlush j f).started = s.started := rfl
@[simp] theorem setFlush_workers : (s.setFlush j f).workers = s.workers := rfl
@[simp] theorem setFlush_produced : (s.setFlush j f).produced = s.produced := rfl
@[simp] theorem setFlush_settled : (s.setFlush j f).settled = s.settled := rfl
@[simp] theorem setFlush_acks : (s.setFlush j f).acks = s.acks := rfl
@[simp] theorem setFlush_marks : (s.setFlush j f).marks = s.marks := rfl

end

def append (s : Persisting ρ) (o : ρ) (obj : Obj) : Persisting ρ :=
  let e : Entry ρ := ⟨s.produced.length, obj, some o⟩
  { s with pending := s.pending ++ [e], produced := s.produced ++ [e] }

@[simp] theorem append_workers (s : Persisting ρ) (o : ρ) (obj : Obj) :
    (s.append o obj).workers = s.workers := rfl

variable [DecidableEq ρ]

def setWorker (s : Persisting ρ) (o : ρ) (w : Worker) : Persisting ρ :=
  { s with workers := Function.update s.workers o w }

section
variable (s : Persisting ρ) (o : ρ) (w : Worker)

@[simp] theorem setWorker_pending : (s.setWorker o w).pending = s.pending := rfl
@[simp] theorem setWorker_afterPersist : (s.setWorker o w).afterPersist = s.afterPersist := rfl
@[simp] theorem setWorker_flushes : (s.setWorker o w).flushes = s.flushes := rfl
@[simp] theorem setWorker_started : (s.setWorker o w).started = s.started := rfl
@[simp] theorem setWorker_workers : (s.setWorker o w).workers = Function.update s.workers o w := rfl
@[simp] theorem setWorker_produced : (s.setWorker o w).produced = s.produced := rfl
@[simp] theorem setWorker_settled : (s.setWorker o w).settled = s.settled := rfl
@[simp] theorem setWorker_acks : (s.setWorker o w).acks = s.acks := rfl
@[simp] theorem setWorker_marks : (s.setWorker o w).marks = s.marks := rfl

end

variable (lib : Stdlib) (st : Setting)

/-- The items among the first `puts` that were put for `o` and are not
persisted. -/
def unsettled (s : Persisting ρ) (o : ρ) (puts : Nat) : List Nat :=
  (((s.produced.take puts).filter fun e => e.owner = some o).map Entry.serial).filter (· ∉ s.settled)

def owns (s : Persisting ρ) (o : ρ) : Bool := s.pending.any fun e => e.owner = some o

@[simp] theorem setWorker_owns (s : Persisting ρ) (o : ρ) (w : Worker) (x : ρ) :
    (s.setWorker o w).owns x = s.owns x := rfl

/-- `Collector.done`. -/
def recordAck (s : Persisting ρ) (o : ρ) : Persisting ρ :=
  { s with acks := s.acks ++
      [⟨o, decide ((s.workers o).phase = .finished), s.unsettled o s.produced.length⟩] }

/-- `mark_task`, for an `update_task` of `o` after so many puts. -/
def recordMark (s : Persisting ρ) (h : Hook ρ) (done : Bool) : Persisting ρ :=
  { s with marks := s.marks ++ [⟨h.task, done, s.unsettled h.owner h.puts⟩] }

/-- `put`, up to the flush that a full buffer makes. -/
def put (s : Persisting ρ) (o : ρ) (obj : Obj) : Persisting ρ :=
  let s := s.append o obj
  if st.ITEM_MAX_CACHED_COUNT ≤ s.pending.length then s.setWorker o { s.workers o with phase := .flushing none }
  else s.setWorker o { s.workers o with deferred := true }

/-- `BatchSpider.update_task`. -/
def updateTask (s : Persisting ρ) (o : ρ) (task : PyVal) (ok : Bool) : Persisting ρ :=
  let h : Hook ρ := ⟨task, o, s.produced.length⟩
  if !ok then s.recordMark h false
  else if s.owns o then { s with afterPersist := s.afterPersist ++ [h] }
  else s.recordMark h true

/-- The swap at the head of `flush`; an empty batch ends it. -/
def swap (s : Persisting ρ) : Persisting ρ :=
  { s with
    pending := []
    flushes := Function.update s.flushes s.started
      (if s.pending.isEmpty then .returned else .swapped s.pending)
    started := s.started + 1 }

def batchOwners (batch : List (Entry ρ)) : List ρ :=
  ItemBuffer.owners (batch.map fun e => (e.obj, e.owner))

def startAcking (batch : List (Entry ρ)) (todo : List ρ) : Flush ρ :=
  if todo.isEmpty then .returned else .acking batch todo none

/-- The handler or `_persist`: whether it returned, and the pipelines loaded. -/
def persistBatch (s : Persisting ρ) (out : Turnout) (batch : List (Entry ρ)) :
    Bool × List (List String) :=
  if s.handled then (out.handler.isOk, s.cache)
  else
    let (res, cache, _) := ItemBuffer.persist lib st out (s.pipelinePaths.getD st.ITEM_PIPELINES)
      s.cache (batch.map Entry.obj)
    (res.isOk, cache)

def persist (s : Persisting ρ) (j : Nat) (out : Turnout) (batch : List (Entry ρ)) : Persisting ρ :=
  let (returned, cache) := persistBatch lib st s out batch
  let s := { s with cache }
  if returned then
    { s with settled := s.settled ++ batch.map Entry.serial }.setFlush j
      (startAcking batch (batchOwners batch))
  else s.setFlush j (.raised batch)

def step (s : Persisting ρ) : Act ρ → Option (Persisting ρ)
  | .take o =>
    match (s.workers o).phase with
    | .idle | .finished => some (s.setWorker o ⟨.dispatching, false⟩)
    | _ => none
  | .put o obj => if (s.workers o).phase = .dispatching then some (s.put st o obj) else none
  | .putReturn o =>
    match (s.workers o).phase with
    | .flushing (some j) =>
      match s.flushes j, s.handled with
      | .returned, _ | .raised _, false => some (s.setWorker o ⟨.dispatching, true⟩)
      | _, _ => none
    | _ => none
  | .putRaise o =>
    match (s.workers o).phase with
    | .flushing (some j) =>
      match s.flushes j, s.handled with
      | .raised _, true => some (s.setWorker o { s.workers o with phase := .dispatching })
      | _, _ => none
    | _ => none
  | .updateTask o task ok =>
    if (s.workers o).phase = .dispatching then some (s.updateTask o task ok) else none
  | .finish o =>
    if (s.workers o).phase = .dispatching then
      let s := s.setWorker o { s.workers o with phase := .finished }
      some (if (s.workers o).deferred then s else s.recordAck o)
    else none
  | .swap none => some s.swap
  | .swap (some o) =>
    if (s.workers o).phase = .flushing none then
      some (s.swap.setWorker o { s.workers o with phase := .flushing (some s.started) })
    else none
  | .persist j out =>
    match s.flushes j with
    | .swapped batch => some (s.persist lib st j out batch)
    | _ => none
  | .popHooks j =>
    match s.flushes j with
    | .acking batch (o :: todo) none =>
      some ({ s with afterPersist := s.afterPersist.filter fun h => h.owner ≠ o }.setFlush j
        (.acking batch (o :: todo) (some (s.afterPersist.filter fun h => h.owner = o))))
    | _ => none
  | .runHook j =>
    match s.flushes j with
    | .acking batch todo (some (h :: hooks)) =>
      some ((s.recordMark h true).setFlush j (.acking batch todo (some hooks)))
    | _ => none
  | .ack j =>
    match s.flushes j with
    | .acking batch (o :: todo) (some []) => some ((s.recordAck o).setFlush j (startAcking batch todo))
    | _ => none

/-- The runs of a buffer that starts empty, with a handler or with pipelines. -/
def machine : Machine (Persisting ρ) (Act ρ) where
  start s := ∃ handled pipelinePaths, s = { handled, pipelinePaths }
  step := step lib st

end Persisting

end Netspy
