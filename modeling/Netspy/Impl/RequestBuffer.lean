import Netspy.Impl.Request

/-!
# `buffer/request_buffer.py`

The buffer between what yields requests and the task queue. The queue and
the filter are whatever the buffer was given, so they are a `Services` over
a world `W` of their own: each call may raise, and returns the world after
it. The buffer's lock is taken for the swap and for the requeue; one flush
alone is `flush`.

`dropped` lists the requests counted under `DEDUP_DROPPED`.
-/

namespace Netspy

structure Services (W : Type) where
  /-- `request.fingerprint`. -/
  fingerprint : Request → Except Exn String
  /-- `dedup.add`: whether the fingerprint is new. -/
  add : String → W → Except Exn Bool × W
  /-- `task_queue.put`. -/
  put : Request → W → Except Exn Unit × W

structure RequestBuffer (W : Type) where
  pending : List Request
  dropped : List Request
  world : W

namespace RequestBuffer

variable {W : Type} (srv : Services W)

/-- `self._dedup.add(request.fingerprint) if request.filter_repeat else True`. -/
def askDedup (r : Request) (w : W) : Except Exn Bool × W :=
  if r.filterRepeat then
    match srv.fingerprint r with
    | .error e => (.error e, w)
    | .ok fp => srv.add fp w
  else (.ok true, w)

/-- `_requeue`: back to the head of the buffer. Only the first request may have
passed the filter already; its flag is cleared, or its own fingerprint would
drop it in the next round. -/
def requeue (s : RequestBuffer W) (requests : List Request) (firstPassedDedup : Bool) :
    RequestBuffer W :=
  let requests :=
    match requests with
    | r :: rest => if firstPassedDedup then { r with filterRepeat := false } :: rest else r :: rest
    | [] => []
  { s with pending := requests ++ s.pending }

/-- The loop of `flush` over the batch it swapped out. -/
def flushLoop : List Request → RequestBuffer W → Except Exn Unit × RequestBuffer W
  | [], s => (.ok (), s)
  | r :: rest, s =>
    match askDedup srv r s.world with
    | (.error e, w) => (.error e, requeue { s with world := w } (r :: rest) false)
    | (.ok false, w) => flushLoop rest { s with dropped := s.dropped ++ [r], world := w }
    | (.ok true, w) =>
      match srv.put r w with
      | (.error e, w) => (.error e, requeue { s with world := w } (r :: rest) true)
      | (.ok (), w) => flushLoop rest { s with world := w }

def flush (s : RequestBuffer W) : Except Exn Unit × RequestBuffer W :=
  flushLoop srv s.pending { s with pending := [] }

/-- `_flush_guarded`: the exception goes to the log, what `flush` did stays. -/
def flushGuarded (s : RequestBuffer W) : RequestBuffer W := (flush srv s).2

/-- `n` rounds of the buffer thread. -/
def rounds : Nat → RequestBuffer W → RequestBuffer W
  | 0, s => s
  | n + 1, s => rounds n (flushGuarded srv s)

/-- `put`, which flushes in the caller's thread once the buffer is full. -/
def put (maxCached : Nat) (r : Request) (s : RequestBuffer W) : Except Exn Unit × RequestBuffer W :=
  let s := { s with pending := s.pending ++ [r] }
  if maxCached ≤ s.pending.length then flush srv s else (.ok (), s)

def putRetry (maxCached : Nat) (r : Request) (s : RequestBuffer W) :
    Except Exn Unit × RequestBuffer W :=
  put srv maxCached { r with filterRepeat := false } s

def isEmpty (s : RequestBuffer W) : Bool := s.pending.isEmpty

def pendingCount (s : RequestBuffer W) : Nat := s.pending.length

def drainPending (s : RequestBuffer W) : List Request × RequestBuffer W :=
  (s.pending, { s with pending := [] })

end RequestBuffer

end Netspy
