import Netspy.Impl.TaskQueue

/-!
# `core/redis_scheduler.py`: where requests leave a node

A request that is out of retries is given to `_on_failed_request` and then
acknowledged by its worker; what is left when the node shuts down goes through
`_on_shutdown`. How the calls to Redis end is given from outside. The failed list and
`FAILED_REQUEST_PATH` hold what `dumps_json(request.to_dict())` gives, as the queue
does.
-/

namespace Netspy

structure NodeExit where
  tasks : RedisTaskQueue := {}
  /-- `<ns>:failed_requests`. -/
  failedRequests : List String := []
  /-- The lines of `FAILED_REQUEST_PATH`. -/
  dumpFile : List String := []
  /-- Pending in the request buffer. -/
  pending : List Request := []
  /-- The collector's `_buffer` and `_in_progress`. -/
  buffer : List Request := []
  inProgress : List Request := []

/-- `dumps_json(request.to_dict())`, and the bytes of that text: it may raise, as on a
keyword argument with a tuple as a key. -/
structure Serializer where
  dumps : Request → Option String
  /-- Not over its flag, which is a bool. -/
  flag : ∀ r b, (dumps { r with filterRepeat := b }).isSome = (dumps r).isSome

/-- How a call to Redis ends: it may have done its work and raise all the same, if the
answer is lost. -/
inductive RedisCall where
  | works
  | fails
  | answerLost
  deriving DecidableEq

/-- Redis has run the command. -/
def RedisCall.reaches : RedisCall → Bool
  | works | answerLost => true
  | fails => false

namespace NodeExit

variable (st : Setting) (codec : Serializer)

/-- `RedisTaskQueue.put`, and whether it returns. -/
def queuePut (call : RedisCall) (r : Request) (s : NodeExit) : Bool × NodeExit :=
  match codec.dumps r with
  | none => (false, s)
  | some payload =>
    let stored := { s with tasks := { s.tasks with queue := s.tasks.queue.zadd payload r.priority } }
    (call = .works, if call.reaches then stored else s)

/-- `RedisTaskQueue.done`, which suppresses what its `ZREM` raises. -/
def queueDone (zrem : RedisCall) (r : Request) (s : NodeExit) : NodeExit :=
  match r.leaseToken with
  | some token => if token ≠ "" ∧ zrem.reaches = true then { s with tasks := s.tasks.doneMember token } else s
  | none => s

/-- `Collector.done`. -/
def collectorDone (zrem : RedisCall) (r : Request) (s : NodeExit) : NodeExit :=
  { s with inProgress := s.inProgress.erase r }.queueDone zrem r

/-- `RedisScheduler._on_failed_request`, which suppresses what it raises. -/
def onFailedRequest (rpush : RedisCall) (r : Request) (s : NodeExit) : NodeExit :=
  match codec.dumps r with
  | some text => if rpush.reaches then { s with failedRequests := s.failedRequests ++ [text] } else s
  | none => s

/-- The way of a request that is out of retries: the failed sink, and then the
acknowledgement at the end of the worker's turn. -/
def giveUp (rpush zrem : RedisCall) (r : Request) (s : NodeExit) : NodeExit :=
  (s.onFailedRequest codec rpush r).collectorDone zrem r

/-- What the loop of `_append_requests` writes: it ends at the first request that raises. -/
def appendRequests : List Request → List String
  | [] => []
  | r :: rest =>
    match codec.dumps r with
    | some line => line :: appendRequests rest
    | none => []

/-- `_dump_requests`, into a file that can be written. -/
def dumpRequests (rs : List Request) (s : NodeExit) : NodeExit :=
  if st.DUMP_UNFINISHED_ON_EXIT then { s with dumpFile := s.dumpFile ++ appendRequests codec rs } else s

def clearFilter (r : Request) : Request := { r with filterRepeat := false }

/-- The loop of `_on_shutdown`, with how its calls of `put` and of `ZREM` end. -/
def pushBack (puts zrems : Nat → RedisCall) : Nat → List Request → NodeExit → NodeExit
  | _, [], s => s
  | i, r :: rest, s =>
    let r := clearFilter r
    let (returned, s) := s.queuePut codec (puts i) r
    if returned then pushBack puts zrems (i + 1) rest (s.queueDone (zrems i) r)
    else s.dumpRequests st codec (r :: rest)

def leftovers (s : NodeExit) : List Request := s.pending ++ s.buffer

/-- `_on_shutdown`. -/
def onShutdown (puts zrems : Nat → RedisCall) (s : NodeExit) : NodeExit :=
  pushBack st codec puts zrems 0 s.leftovers { s with pending := [], buffer := [] }

/-- A text that the request is known by: the member that it was taken as, or
what it is serialised to, whatever its `filter_repeat`. -/
def Payload (r : Request) (m : String) : Prop :=
  r.leaseToken = some m ∨ ∃ b, codec.dumps { r with filterRepeat := b } = some m

/-- In `z_requests`, in `z_inflight` with leases on, in the failed list or in the
file. -/
def Holds (s : NodeExit) (m : String) : Prop :=
  m ∈ s.tasks.queue ∨ (0 < st.SPIDER_TASK_LEASE ∧ m ∈ s.tasks.inflight) ∨ m ∈ s.failedRequests ∨ m ∈ s.dumpFile

def Kept (s : NodeExit) (r : Request) : Prop := ∃ m, Payload codec r m ∧ s.Holds st m

end NodeExit

end Netspy
