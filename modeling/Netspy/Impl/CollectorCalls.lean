import Netspy.Framework.Machine
import Netspy.Impl.Collector

/-!
# Calls of a collector

`get_request`, `done` and `drain` of `core/collector.py` under many threads. A locked
section is a step, and so is the answer of a call to the queue, which may be to raise. A
call of `get_request` that finds no request in the buffer is an element of `calls`, and
what it has in its local variables is its `Stage`.

`taken`, `acked` and `drained` record what the queue has returned, and where requests
went: an object that the queue returns again starts anew. No step depends on them.
-/

namespace Netspy

/-- The second locked section of `get_request`. -/
def Collector.extend {ρ : Type} (c : Collector ρ) (extra : List ρ) : Collector ρ :=
  { c with buffer := c.buffer ++ extra }

namespace CollectorCalls

/-- Where a call of `get_request` stands. -/
inductive Stage (ρ : Type) where
  /-- before `self._queue.get` returns -/
  | asking
  /-- `first` is `r`, before `self._queue.get_batch` returns -/
  | first (r : ρ)
  /-- before `self._buffer.extend(extra)` -/
  | batch (r : ρ) (extra : List ρ)
  /-- before `self._mark_in_progress(first)` -/
  | buffered (r : ρ)
  | returned (request : Option ρ)
  | raised
  deriving Repr, DecidableEq

/-- The requests in the local variables of a call that has not returned. -/
def Stage.carried {ρ : Type} : Stage ρ → List ρ
  | .asking | .returned _ | .raised => []
  | .first r | .buffered r => [r]
  | .batch r extra => r :: extra

/-- The answer of a call to the queue. -/
inductive Answer (α : Type) where
  | raises
  | returns (value : α)
  deriving Repr, DecidableEq

structure State (ρ : Type) where
  collector : Collector ρ := {}
  calls : List (Stage ρ) := []
  taken : List ρ := []
  acked : List ρ := []
  drained : List ρ := []
  deriving Repr, DecidableEq

inductive Action (ρ : Type) where
  /-- The first locked section of `get_request`. -/
  | getRequest
  | queueGet (i : Nat) (answer : Answer (Option ρ))
  | queueGetBatch (i : Nat) (answer : Answer (List ρ))
  | extend (i : Nat)
  | markInProgress (i : Nat)
  /-- The locked section of `done`; the queue's own `done` follows it. -/
  | done (request : ρ)
  | drain
  deriving Repr, DecidableEq

variable {ρ : Type} [DecidableEq ρ]

namespace State

def setCall (s : State ρ) (i : Nat) (stage : Stage ρ) : State ρ :=
  { s with calls := s.calls.set i stage }

/-- The queue has returned `requests`. -/
def take (s : State ρ) (requests : List ρ) : State ρ :=
  { s with
    taken := s.taken ++ requests
    acked := s.acked.filter (· ∉ requests)
    drained := s.drained.filter (· ∉ requests) }

def acknowledge (s : State ρ) (request : ρ) : State ρ :=
  { s with
    collector := s.collector.done request
    acked := if request ∈ s.acked then s.acked else s.acked ++ [request] }

def carried (s : State ρ) : List ρ := s.calls.flatMap Stage.carried

/-- All that the collector, its calls and its callers have. -/
def places (s : State ρ) : List ρ :=
  s.collector.buffer ++ s.carried ++ s.collector.inProgress ++ s.acked ++ s.drained

/-- Every request that the queue has returned is in exactly one place, once. -/
def Conserves (s : State ρ) : Prop := ∀ request ∈ s.taken, s.places.count request = 1

instance (s : State ρ) : Decidable s.Conserves := inferInstanceAs (Decidable (∀ request ∈ s.taken, _))

end State

def step (s : State ρ) : Action ρ → Option (State ρ)
  | .getRequest =>
    match s.collector.popBuffer with
    | some (_, collector) => some { s with collector }
    | none => some { s with calls := s.calls ++ [.asking] }
  | .queueGet i answer =>
    match s.calls[i]?, answer with
    | some .asking, .raises => some (s.setCall i .raised)
    | some .asking, .returns none => some (s.setCall i (.returned none))
    | some .asking, .returns (some first) => some ((s.take [first]).setCall i (.first first))
    | _, _ => none
  | .queueGetBatch i answer =>
    match s.calls[i]?, answer with
    | some (.first _), .raises => some (s.setCall i .raised)
    -- `if extra:`
    | some (.first first), .returns [] => some (s.setCall i (.buffered first))
    | some (.first first), .returns extra => some ((s.take extra).setCall i (.batch first extra))
    | _, _ => none
  | .extend i =>
    match s.calls[i]? with
    | some (.batch first extra) =>
      some ({ s with collector := s.collector.extend extra }.setCall i (.buffered first))
    | _ => none
  | .markInProgress i =>
    match s.calls[i]? with
    | some (.buffered first) =>
      some ({ s with collector := s.collector.mark first }.setCall i (.returned (some first)))
    | _ => none
  | .done request => some (s.acknowledge request)
  | .drain =>
    some { s with
      collector := s.collector.drain.2
      drained := s.drained ++ s.collector.drain.1 }

def machine : Machine (State ρ) (Action ρ) where
  start s := s = {}
  step := step

/-- A request that a call, the buffer or a worker has. -/
def State.Held (s : State ρ) (request : ρ) : Prop :=
  request ∈ s.collector.buffer ∨ request ∈ s.carried ∨ request ∈ s.collector.inProgress

instance (s : State ρ) (request : ρ) : Decidable (s.Held request) :=
  inferInstanceAs (Decidable (_ ∨ _ ∨ _))

/-- `get_batch` does not raise; the queue returns requests that nobody has, each once; and
`done` is called for requests that are in progress, or were. -/
def Keeps (s : State ρ) : Action ρ → Prop
  | .queueGet _ (.returns (some first)) => ¬ s.Held first
  | .queueGetBatch _ .raises => False
  | .queueGetBatch _ (.returns extra) => extra.Nodup ∧ ∀ request ∈ extra, ¬ s.Held request
  | .done request =>
    request ∉ s.collector.buffer ∧ request ∉ s.carried ∧ request ∉ s.drained
  | _ => True

end CollectorCalls

end Netspy
