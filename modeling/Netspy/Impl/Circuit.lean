import Mathlib.Logic.Function.Basic
import Netspy.Framework.Machine
import Netspy.Impl.Lineage

/-!
# `network/circuit.py`

A `CircuitBreaker` and what the workers tell it, one round of `_process` after another,
whatever the requests. `domain` stands for `domain_of`. A domain that is not in the dict
has no failures. The call of `penalize` when it trips is left out.
-/

namespace Netspy

structure CircuitSetting extends Setting where
  CIRCUIT_FAILURE_THRESHOLD : Int := 10

structure CircuitBreaker where
  failures : String → Nat := fun _ => 0

/-- A call to the breaker. -/
inductive CircuitCall where
  | success (url : String)
  | failure (url : String)
  deriving Repr, DecidableEq

/-- The calls to the breaker among the effects of a worker. -/
def CircuitCall.of : Effect → Option CircuitCall
  | .recordSuccess url => some (.success url)
  | .recordFailure url => some (.failure url)
  | _ => none

namespace CircuitBreaker

variable (st : CircuitSetting) (domain : String → String)

def recordSuccess (cb : CircuitBreaker) (url : String) : CircuitBreaker :=
  { failures := Function.update cb.failures (domain url) 0 }

/-- Whether it trips just now. -/
def recordFailure (cb : CircuitBreaker) (url : String) : Bool × CircuitBreaker :=
  let threshold := st.CIRCUIT_FAILURE_THRESHOLD
  if threshold ≤ 0 then (false, cb)
  else
    let count := cb.failures (domain url) + 1
    if threshold ≤ count then (true, { failures := Function.update cb.failures (domain url) 0 })
    else (false, { failures := Function.update cb.failures (domain url) count })

def call (cb : CircuitBreaker) : CircuitCall → Bool × CircuitBreaker
  | .success url => (false, cb.recordSuccess domain url)
  | .failure url => cb.recordFailure st domain url

/-- Whether one of the calls trips. -/
def calls (cb : CircuitBreaker) : List CircuitCall → Bool × CircuitBreaker
  | [] => (false, cb)
  | c :: cs =>
    let (tripped, cb) := cb.call st domain c
    let (later, cb) := calls cb cs
    (tripped || later, cb)

end CircuitBreaker

/-! ## The responses of a worker -/

namespace ParserWorker

variable (env : Env)

/-- The response after `process_response`, whatever it is turned into. -/
def answered (q : Ref) (resp : Option Response) (h : Heap) : Option Response :=
  match resp with
  | none => none
  | some r =>
    match Middleware.processResponses env.middlewares.reverse q r h with
    | (.ok (.inl r'), _) => some r'
    | _ => some r

/-- The response that reaches the worker, of a middleware or of the download. -/
def reached (q : Ref) (h : Heap) : Option Response :=
  match Middleware.processRequests env.middlewares q h with
  | (.error _, _) => none
  | (.ok out, h) =>
    let (q, resp) : Ref × Option Response :=
      match out with
      | .inl q' => (q', none)
      | .inr r => (q, some r)
    match env.downloadMidware q h with
    | (.error _, _) => none
    | (.ok replaced, h) =>
      let q := replaced.getD q
      if resp.isSome || !(h q).autoRequest then answered env q resp h
      else
        match env.robotsAllowed (h q).url with
        | .ok true =>
          match env.download q h with
          | (.ok r, h) => answered env q (some r) h
          | (.error _, _) => none
        | _ => none

end ParserWorker

namespace Round

variable (st : CircuitSetting) (domain : String → String)

/-- What a worker tells the breaker. -/
def calls (r : Round) : List CircuitCall :=
  (ParserWorker.work st.toSetting r.env r.taken r.heap).1.effects.filterMap CircuitCall.of

/-- Whether `record_failure` trips. -/
def trips (cb : CircuitBreaker) (r : Round) : Bool := (cb.calls st domain (r.calls st)).1

end Round

def circuitMachine (st : CircuitSetting) (domain : String → String) : Machine CircuitBreaker Round where
  start cb := cb = {}
  step cb r := some (cb.calls st domain (r.calls st)).2

end Netspy
