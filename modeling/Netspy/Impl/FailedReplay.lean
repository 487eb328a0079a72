import Netspy.Framework.Machine
import Netspy.Impl.BufferThreads

/-!
# `RETRY_FAILED_ON_START`

The replay of failed requests at the start of a spider: that of
`core/base_scheduler.py` from `FAILED_REQUEST_PATH`, and that of
`core/redis_scheduler.py` from `<ns>:failed_requests`, with what `_seed` calls
around them. One start follows the other. The file, its staging file, the list
and the staging keys outlive a start, and so does the queue in Redis; that of
`AirScheduler` does not.

A line is what the loops over `lines` and `lrange` see; it is kept with the
number of the failure that it is of, and so is the request that a replay makes
of it. Lines that are blank or that `from_dict` does not take are skipped. No
other thread uses the buffer before the seeding is over. Requests of one payload
are one member of `z_requests`; here each stands for itself, and they may be
taken one after the other.
-/

namespace Netspy

/-- A request, with the failure that it is of if it is one of a replay. -/
abbrev FailedCopy := Tagged (Option Nat)

/-- The calls of `_seed`, in order. -/
inductive SeedCall where
  | replayFile
  | replayList
  | put (r : Request)
  | flush
  deriving Repr, DecidableEq

/-- How far a start is in a replay. -/
inductive ReplayFrame where
  | idle
  /-- The file is renamed, and not read yet. -/
  | readFile
  /-- The requests to put into the buffer, and then `staging.unlink()`. -/
  | file (rest : List FailedCopy)
  /-- The list is renamed, and not read yet. -/
  | readList
  /-- The requests to put into the buffer, and then a flush. -/
  | list (rest : List FailedCopy)
  /-- That flush, and then `delete(staging)`. -/
  | flushed
  deriving Repr, DecidableEq

/-- A process that is in `_seed`, with its buffer and the flush that it is in. -/
structure SpiderStart where
  frame : ReplayFrame := .idle
  calls : List SeedCall
  buffer : BufferThreads (Option Nat) := {}
  flushing : Option Nat := none
  deriving Repr, DecidableEq

namespace SpiderStart

/-- What a start calls the buffer with next, if it does: `put` of a request, or
`flush` for none. -/
def bufferCall (p : SpiderStart) : Option (Option FailedCopy) :=
  match p.frame, p.calls with
  | .file (x :: _), _ => some (some x)
  | .list (x :: _), _ => some (some x)
  | .list [], _ => some none
  | .idle, .put r :: _ => some (some ⟨none, r⟩)
  | .idle, .flush :: _ => some none
  | _, _ => none

/-- What is to be done after that call. -/
def afterCall (p : SpiderStart) : SpiderStart :=
  match p.frame with
  | .file rest => { p with frame := .file rest.tail }
  | .list [] => { p with frame := .flushed }
  | .list rest => { p with frame := .list rest.tail }
  | _ => { p with calls := p.calls.tail }

/-- The swap at the head of `flush`. -/
def swap (p : SpiderStart) : SpiderStart :=
  { p with buffer := p.buffer.swap, flushing := some p.buffer.flushes.length }

/-- The call of the buffer: `put` flushes a buffer that is full. -/
def call (maxCached : Nat) (p : SpiderStart) : Option FailedCopy → SpiderStart
  | none => p.afterCall.swap
  | some x =>
    let q := { p.afterCall with buffer := p.buffer.put x }
    if maxCached ≤ q.buffer.pending.length then q.swap else q

end SpiderStart

structure FailedReplay (Line : Type) where
  file : Option (List (Nat × Line)) := none
  staging : Option (List (Nat × Line)) := none
  failedList : List (Nat × Line) := []
  /-- The staging key of each node. -/
  keys : Nat → List (Nat × Line) := fun _ => []
  /-- The last node that started. -/
  node : Nat := 0
  queue : List FailedCopy := []
  running : Option SpiderStart := none
  taken : List FailedCopy := []
  /-- All that was ever appended to the file or pushed to the list. -/
  failed : List Line := []

/-- The scheduler, and what it is given. -/
structure ReplaySetup (Line : Type) where
  /-- `Request.from_dict(loads_json(line))`, where it raises nothing. -/
  parse : Line → Option Request
  maxCached : Nat
  /-- `RedisScheduler`, not `AirScheduler`. -/
  redis : Bool

namespace FailedReplay

variable {Line : Type} (cfg : ReplaySetup Line)

/-- The request that a replay makes of the failure `n`. -/
def copyOf (n : Nat) (r : Request) : FailedCopy := ⟨some n, { r with filterRepeat := false }⟩

/-- The requests that a replay makes of some lines. -/
def requests (lines : List (Nat × Line)) : List FailedCopy :=
  lines.filterMap fun x => (cfg.parse x.2).map (copyOf x.1)

/-- `self._replay_failed_requests()`. -/
def replayCalls : List SeedCall := if cfg.redis then [.replayFile, .replayList] else [.replayFile]

/-- `_seed_requests`. -/
def seedRequests (startRequests : List Request) : List SeedCall :=
  replayCalls cfg ++ startRequests.map .put ++ [.flush]

/-- `_seed`. In Redis only the node with the seed lock calls `_seed_requests`,
and only if the queue is empty. The flush at the end is left out where nothing
was replayed, which leaves nothing in the buffer. -/
def seed (seeding : Bool) (startRequests : List Request) : List SeedCall :=
  if cfg.redis then
    (if seeding then seedRequests cfg startRequests else []) ++ (replayCalls cfg ++ [.flush])
  else seedRequests cfg startRequests

/-- A step of the flush that `p` is in: the filter is asked, the queue is called,
or the flush is over. -/
def flushStep (fresh : Bool) (p : SpiderStart) (j : Nat) (s : FailedReplay Line) : Option (FailedReplay Line) :=
  match p.buffer.asking j with
  | some _ =>
    (p.buffer.filter j (if fresh then .fresh else .seen)).map fun (_, buffer) =>
      { s with running := some { p with buffer } }
  | none =>
    match p.buffer.push j true with
    | some (pushed, buffer) =>
      some { s with queue := s.queue ++ pushed.toList, running := some { p with buffer } }
    | none => some { s with running := some { p with flushing := none } }

/-- A step of `p` that is not in the buffer. -/
def stepAlone (p : SpiderStart) (s : FailedReplay Line) : Option (FailedReplay Line) :=
  match p.frame, p.calls with
  | .idle, .replayFile :: calls =>
    match s.file with
    | none => some { s with running := some { p with calls } }
    | some lines =>
      -- `rename` replaces a staging file that is there
      some { s with
        file := none
        staging := some lines
        running := some { p with frame := .readFile, calls } }
  | .readFile, _ => some { s with running := some { p with frame := .file (requests cfg (s.staging.getD [])) } }
  | .file [], _ => some { s with staging := none, running := some { p with frame := .idle } }
  | .idle, .replayList :: calls =>
    match s.failedList with
    -- there is no such key, and `rename` raises
    | [] => some { s with running := some { p with calls } }
    | line :: lines =>
      some { s with
        failedList := []
        keys := Function.update s.keys s.node (line :: lines)
        running := some { p with frame := .readList, calls } }
  | .readList, _ => some { s with running := some { p with frame := .list (requests cfg (s.keys s.node)) } }
  | .flushed, _ =>
    some { s with keys := Function.update s.keys s.node [], running := some { p with frame := .idle } }
  | _, _ => none

/-- The next step of `p`, in which nothing raises. -/
def next (fresh : Bool) (p : SpiderStart) (s : FailedReplay Line) : Option (FailedReplay Line) :=
  match p.flushing with
  | some j => flushStep fresh p j s
  | none =>
    match p.bufferCall with
    | some request => some { s with running := some (p.call cfg.maxCached request) }
    | none => stepAlone cfg p s

/-- The replay gives up: `rename` or `read_text` of the file, or `rename` of the
list, raises what is caught. -/
def giveUp (p : SpiderStart) (s : FailedReplay Line) : Option (FailedReplay Line) :=
  match p.flushing, p.frame, p.calls with
  | none, .idle, .replayFile :: calls => some { s with running := some { p with calls } }
  | none, .idle, .replayList :: calls => some { s with running := some { p with calls } }
  | none, .readFile, _ => some { s with running := some { p with frame := .idle } }
  | _, _, _ => none

inductive Action (Line : Type) where
  | start (seeding : Bool) (startRequests : List Request)
  | next (fresh : Bool)
  | giveUp
  /-- The start is killed, or an exception ends it. -/
  | kill
  /-- The run ends after `_seed`. -/
  | finish
  /-- A worker takes a request from the queue. -/
  | take (i : Nat)
  /-- A request fails for good: a line for the list, or for the file. -/
  | fail (toList : Bool) (line : Line)

def step (s : FailedReplay Line) : Action Line → Option (FailedReplay Line)
  | .start seeding startRequests =>
    match s.running with
    | none => some { s with node := s.node + 1, running := some { calls := seed cfg seeding startRequests } }
    | some _ => none
  | .next fresh => s.running.bind fun p => next cfg fresh p s
  | .giveUp => s.running.bind fun p => giveUp p s
  | .kill => s.running.map fun _ => { s with queue := if cfg.redis then s.queue else [], running := none }
  | .finish =>
    match s.running with
    | some ⟨.idle, [], _, none⟩ =>
      -- `AirScheduler` takes what is left off its queue and dumps it
      some { s with
        queue := if cfg.redis then s.queue else []
        taken := if cfg.redis then s.taken else s.taken ++ s.queue
        running := none }
    | _ => none
  | .take i =>
    match s.queue[i]? with
    | none => none
    | some x => some { s with queue := s.queue.eraseIdx i, taken := s.taken ++ [x] }
  | .fail toList line =>
    let entry := (s.failed.length, line)
    let s := { s with failed := s.failed ++ [line] }
    if toList then some { s with failedList := s.failedList ++ [entry] }
    else some { s with file := some (s.file.getD [] ++ [entry]) }

def machine : Machine (FailedReplay Line) (Action Line) where
  start s := s = {}
  step := step cfg

/-- The requests of the staging file or key that is replayed there. -/
def source (s : FailedReplay Line) : ReplayFrame → List FailedCopy
  | .idle => []
  | .readFile | .file _ => requests cfg (s.staging.getD [])
  | .readList | .list _ | .flushed => requests cfg (s.keys s.node)

/-- Those of them that are still to be put into the buffer. -/
def unread (s : FailedReplay Line) : ReplayFrame → List FailedCopy
  | .idle | .flushed => []
  | .readFile => requests cfg (s.staging.getD [])
  | .readList => requests cfg (s.keys s.node)
  | .file rest | .list rest => rest

/-- The requests of the staging that is being replayed. -/
def replaying (s : FailedReplay Line) : List FailedCopy :=
  match s.running with
  | none => []
  | some p => source cfg s p.frame

/-- The requests that the start has yet to put into the queue. -/
def inHand (s : FailedReplay Line) : List FailedCopy :=
  match s.running with
  | none => []
  | some p => p.buffer.entries ++ unread cfg s p.frame

/-- A failure is in the file or the list, in what is being replayed, in the
queue, or was taken from it. -/
def Kept (s : FailedReplay Line) (x : FailedCopy) : Prop :=
  x ∈ requests cfg (s.file.getD []) ∨ x ∈ requests cfg s.failedList ∨ x ∈ replaying cfg s ∨ x ∈ s.queue ∨ x ∈ s.taken

end FailedReplay

end Netspy
