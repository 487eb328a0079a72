import Mathlib.Data.List.Sort
import Mathlib.Data.Prod.Lex
import Mathlib.Logic.Function.Basic
import Netspy.Framework.Machine
import Netspy.Impl.Request

/-!
# `core/task_queue.py`: the queue of one process

`MemoryTaskQueue`, with what its `PriorityQueue` holds in the order in which it comes out:
by priority, and then by the number that `put` has drawn before it puts. No two entries
have one number, so requests are never compared.

The threads of a crawl share the queue. To draw a number and to put are two steps, and
other threads may go between. `finished` has the entries that were put, and `taken` those
that came out, each in its order; no step depends on them.
-/

namespace Netspy

/-- `(request.priority, next(self._seq), request)`. -/
structure QueueEntry where
  priority : Int
  seq : Nat
  request : Request
  deriving DecidableEq

/-- What entries are compared by. -/
def QueueEntry.key (e : QueueEntry) : Int ×ₗ Nat := toLex (e.priority, e.seq)

structure MemoryTaskQueue where
  queue : List QueueEntry := []
  seq : Nat := 0

namespace MemoryTaskQueue

/-- The first half of `put`. -/
def draw (q : MemoryTaskQueue) (request : Request) : QueueEntry × MemoryTaskQueue :=
  (⟨request.priority, q.seq, request⟩, { q with seq := q.seq + 1 })

/-- `self._q.put`. -/
def insert (q : MemoryTaskQueue) (e : QueueEntry) : MemoryTaskQueue :=
  { q with queue := q.queue.orderedInsert (fun x y => x.key ≤ y.key) e }

/-- `get` when it does not wait, or no longer. -/
def get (q : MemoryTaskQueue) : Option QueueEntry × MemoryTaskQueue :=
  match q.queue with
  | [] => (none, q)
  | e :: queue => (some e, { q with queue })

/-- The loop of `get_batch`, for so many turns. -/
def getLoop : Nat → MemoryTaskQueue → List QueueEntry × MemoryTaskQueue
  | 0, q => ([], q)
  | n + 1, q =>
    match q.get with
    | (none, q) => ([], q)
    | (some e, q) => let (out, q) := getLoop n q; (e :: out, q)

/-- `get_batch`, with no other thread between. -/
def getBatch (q : MemoryTaskQueue) (count : Int) : List QueueEntry × MemoryTaskQueue :=
  getLoop (max 1 count).toNat q

def qsize (q : MemoryTaskQueue) : Nat := q.queue.length

def empty (q : MemoryTaskQueue) : Bool := q.queue.isEmpty

end MemoryTaskQueue

/-- The threads that share a queue; `puts` are those in the middle of a `put`. -/
structure QueueThreads where
  q : MemoryTaskQueue := {}
  puts : Nat → Option QueueEntry := fun _ => none
  finished : List QueueEntry := []
  taken : List QueueEntry := []

inductive QueueAct where
  | draw (i : Nat) (request : Request)
  | put (i : Nat)
  /-- A `get` that finds something, or a turn of a `get_batch`. -/
  | get

namespace QueueThreads

def step (s : QueueThreads) : QueueAct → Option QueueThreads
  | .draw i request =>
    match s.puts i with
    | some _ => none
    | none => let (e, q) := s.q.draw request; some { s with q, puts := Function.update s.puts i (some e) }
  | .put i =>
    match s.puts i with
    | some e =>
      some { s with q := s.q.insert e, puts := Function.update s.puts i none, finished := s.finished ++ [e] }
    | none => none
  | .get =>
    match s.q.get with
    | (some e, q) => some { s with q, taken := s.taken ++ [e] }
    | (none, _) => none

def machine : Machine QueueThreads QueueAct where
  start s := s = {}
  step := step

end QueueThreads

end Netspy
