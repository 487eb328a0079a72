import Netspy.Framework.Machine
import Netspy.Impl.BufferThreads
import Netspy.Impl.Dedup

/-!
# The history of a request buffer

A `RequestBuffer` with the exact filter, used by any number of threads: any of
them may put, flush and drain at any moment, and any call to the filter or to
the queue may raise instead of doing what it does. A request is tagged with
its place among the requests put, `puts`, which has them as they were put.
`enqueued`, `drained` and `dropped` are where those go that leave the buffer,
and `fresh` has the tags of those that the filter called new. These five only
record what happens.
-/

namespace Netspy

structure BufferHistory where
  buffer : BufferThreads Nat := {}
  dedup : LiteFilter := {}
  puts : List Request := []
  fresh : List Nat := []
  enqueued : List (Tagged Nat) := []
  drained : List (Tagged Nat) := []
  dropped : List (Tagged Nat) := []
  deriving Repr, DecidableEq

inductive BufferCall where
  | put (r : Request)
  | putRetry (r : Request)
  /-- A call of `flush`, up to its swap. Another one is a flush that `put` makes. -/
  | swap
  /-- Flush `j` asks the filter about its next request; `add` raises, or works. -/
  | ask (j : Nat) (raised : Option Exn)
  /-- Flush `j` calls `queue.put`, which raises, or works. -/
  | push (j : Nat) (raised : Option Exn)
  | drainPending
  deriving Repr, DecidableEq

namespace BufferHistory

variable (lib : Stdlib)

/-- The filter and the queue, at a call that raises or works. A call that raises
has had no effect. -/
def services (raised : Option Exn) : Services LiteFilter where
  fingerprint := Request.fingerprint lib
  add key d :=
    match raised with
    | some e => (.error e, d)
    | none =>
      let (fresh, d) := d.add key
      (.ok fresh, d)
  put _ d :=
    match raised with
    | some e => (.error e, d)
    | none => (.ok (), d)

def put (s : BufferHistory) (r : Request) : BufferHistory :=
  { s with buffer := s.buffer.put ⟨s.puts.length, r⟩, puts := s.puts ++ [r] }

def ask (s : BufferHistory) (j : Nat) (raised : Option Exn) : Option BufferHistory := do
  let x ← s.buffer.asking j
  let (answer, dedup) := RequestBuffer.askDedup (services lib raised) x.request s.dedup
  let (dropped, buffer) ← s.buffer.filter j (BufferThreads.answerOf answer)
  let fresh := if x.request.filterRepeat && answer.toOption == some true then [x.tag] else []
  return { s with buffer, dedup, fresh := s.fresh ++ fresh, dropped := s.dropped ++ dropped.toList }

def push (s : BufferHistory) (j : Nat) (raised : Option Exn) : Option BufferHistory := do
  let x ← s.buffer.putting j
  let (res, dedup) := (services lib raised).put x.request s.dedup
  let (pushed, buffer) ← s.buffer.push j res.isOk
  return { s with buffer, dedup, enqueued := s.enqueued ++ pushed.toList }

def drainPending (s : BufferHistory) : BufferHistory :=
  let (drained, buffer) := s.buffer.drainPending
  { s with buffer, drained := s.drained ++ drained }

def step (s : BufferHistory) : BufferCall → Option BufferHistory
  | .put r => some (s.put r)
  | .putRetry r => some (s.put { r with filterRepeat := false })
  | .swap => some { s with buffer := s.buffer.swap }
  | .ask j raised => ask lib s j raised
  | .push j raised => push lib s j raised
  | .drainPending => some s.drainPending

/-- A buffer starts empty, with a filter that has seen nothing. -/
def machine : Machine BufferHistory BufferCall where
  start s := s = {}
  step := step lib

/-- Request `i` was put with `filter_repeat` and has the fingerprint `key`. -/
def Filters (s : BufferHistory) (key : String) (i : Nat) : Prop :=
  ∃ r ∈ s.puts[i]?, r.filterRepeat = true ∧ r.fingerprint lib = .ok key

instance (s : BufferHistory) (key : String) (i : Nat) : Decidable (s.Filters lib key i) :=
  decidable_of_iff (s.puts[i]?.any fun r => r.filterRepeat && r.fingerprint lib == .ok key) (by
    simp [Filters, Option.any_eq_true])

/-- Request `i` is in the buffer and past the filter, or was enqueued or drained. -/
def Kept (s : BufferHistory) (i : Nat) : Prop :=
  (∃ x, s.buffer.Past x ∧ x.tag = i) ∨ i ∈ s.enqueued.map Tagged.tag ∨ i ∈ s.drained.map Tagged.tag

end BufferHistory

end Netspy
