import Netspy.Framework.Machine
import Netspy.Impl.ParserControl

/-!
# The rounds of a request

A request that a worker puts back is taken again, by this worker or another
one, until it is no longer put back. Of what happens to it in between only
`retry_times` matters here, which comes back as it was put: `to_dict` has it.
In each round the hooks, the download and what they find in the heap may be
any. The state counts the rounds, the downloads and the outcomes.
-/

namespace Netspy

namespace ParserWorker

/-- From the hooks on: whether `download_request` is called. -/
def fetches (env : Env) (q : Ref) (resp : Option Response) (h : Heap) : Bool :=
  if resp.isSome || !(h q).autoRequest then false
  else
    match env.robotsAllowed (h q).url with
    | .ok allowed => allowed
    | .error _ => false

/-- Whether `_process` calls `download_request`, which it does once. -/
def downloads (env : Env) (q : Ref) (h : Heap) : Bool :=
  match Middleware.processRequests env.middlewares q h with
  | (.error _, _) => false
  | (.ok out, h) =>
    let (q, resp) : Ref × Option Response :=
      match out with
      | .inl q' => (q', none)
      | .inr r => (q, some r)
    match env.downloadMidware q h with
    | (.error _, _) => false
    | (.ok replaced, h) => fetches env (replaced.getD q) resp h

end ParserWorker

/-- The counters that `_process` counts a request under. -/
def Effect.counts (key : String) : Effect → Bool
  | .stat k => k == key
  | _ => false

/-- The request that the last effect puts. -/
def lastPut (es : List Effect) : Option Ref :=
  match es.getLast? with
  | some (.putRetry q) => some q
  | some (.put q) => some q
  | _ => none

/-- What is put back after `RETRY` is counted. -/
def putBack : List Effect → Option Ref
  | [] => none
  | e :: es => if e.counts "retry" then lastPut es else putBack es

structure Lineage where
  /-- The request while it is in the buffer or the queue. -/
  waiting : Option Request
  rounds : Nat := 0
  downloads : Nat := 0
  /-- How often it went through `_fail`. -/
  failed : Nat := 0
  /-- How often it was done or dropped. -/
  settled : Nat := 0

/-- A worker takes the request, which is the object `taken` in its heap. -/
structure Round where
  env : Env
  taken : Ref
  heap : Heap

namespace Lineage

variable (st : Setting)

def step (s : Lineage) (a : Round) : Option Lineage :=
  match s.waiting with
  | none => none
  | some r =>
    if (a.heap a.taken).retryTimes = r.retryTimes then
      let j := (ParserWorker.process st a.env a.taken { heap := a.heap }).2
      some {
        waiting := (putBack j.effects).map j.heap
        rounds := s.rounds + 1
        downloads := s.downloads + (ParserWorker.downloads a.env a.taken a.heap).toNat
        failed := s.failed + j.effects.countP (Effect.counts "request_failed")
        settled := s.settled + j.effects.countP (Effect.counts "request_ok") +
          j.effects.countP (Effect.counts "dropped") }
    else none

def machine : Machine Lineage Round where
  start s := ∃ r, s = { waiting := some r }
  step := step st

end Lineage

end Netspy
