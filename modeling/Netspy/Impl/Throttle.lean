import Mathlib.Algebra.Order.Ring.Rat
import Mathlib.Logic.Function.Basic
import Netspy.Framework.Machine
import Netspy.Framework.Reserve
import Netspy.Impl.Request
import Netspy.Impl.Setting

/-!
# `network/throttle.py`

A `DomainThrottle`, and the worker threads that share one. Times are rational
numbers of microseconds. Each section under the lock is one step, and a worker
that sleeps may leave at any moment from the end of its wait on.

With `GLOBAL_THROTTLE` a ticket may be answered by Redis; its answer is part of
the action. Warnings are left out.
-/

namespace Netspy

/-- `domain_of`. -/
def domainOf (lib : Stdlib) (url : String) : Except Exn String := do
  let parts ← lib.urlsplit url
  return lib.lower parts.netloc

structure DomainThrottle where
  nextAt : String → Option ℚ := fun _ => none
  /-- How many places of a domain's semaphore are taken. -/
  sems : String → Nat := fun _ => 0
  domainDelay : String → Option ℚ := fun _ => none

namespace DomainThrottle

/-- The interval that a ticket reserves; `factor` is `random.uniform(0.5, 1.5)`. -/
def delay (st : Setting) (d : DomainThrottle) (domain : String) (factor : ℚ) : ℚ :=
  let override := (d.domainDelay domain).getD 0
  let delay := max st.DOWNLOAD_DELAY override
  if 0 < delay && st.RANDOMIZE_DOWNLOAD_DELAY then delay * factor else delay

/-- When the domain is free. -/
def freeAt (d : DomainThrottle) (domain : String) : ℚ := (d.nextAt domain).getD 0

/-- The end of `_take_ticket`, which returns the wait. -/
def takeTicket (d : DomainThrottle) (domain : String) (delay now : ℚ) : ℚ × DomainThrottle :=
  let ready := max now (d.freeAt domain)
  let d :=
    if 0 < delay || now < ready then
      { d with nextAt := Function.update d.nextAt domain (some (Reserve.next (d.freeAt domain) now (max delay 0))) }
    else d
  (ready - now, d)

/-- `penalize`. -/
def penalize (d : DomainThrottle) (domain : String) (seconds now : ℚ) : DomainThrottle :=
  if seconds ≤ 0 then d
  else { d with nextAt := Function.update d.nextAt domain (some (Reserve.next (d.freeAt domain) now seconds)) }

/-- `set_domain_delay`. -/
def setDomainDelay (d : DomainThrottle) (domain : String) (seconds : ℚ) : DomainThrottle :=
  { d with domainDelay := Function.update d.domainDelay domain (some (max seconds 0)) }

end DomainThrottle

/-! ## Workers -/

/-- Where a worker is in `slot`: in possession of a place of the semaphore, with
the delay of its ticket, asleep until `start`, or in the body. -/
inductive Slot where
  | out
  | admitted (domain : String)
  | paced (domain : String) (delay : ℚ)
  | waiting (domain : String) (start : ℚ)
  | inside (domain : String)
  deriving DecidableEq

def Slot.domain : Slot → Option String
  | .out => none
  | .admitted domain | .paced domain _ | .waiting domain _ | .inside domain => some domain

/-- A ticket that was taken, with the answer of Redis if it gave one. -/
structure Ticket where
  domain : String
  moment : ℚ
  delay : ℚ
  remote : Option ℚ
  wait : ℚ
  deriving DecidableEq

def Ticket.start (t : Ticket) : ℚ := t.moment + t.wait

/-- A call of `penalize`. -/
structure Penalty where
  domain : String
  moment : ℚ
  seconds : ℚ
  deriving DecidableEq

/-- What has happened. -/
inductive ThrottleEvent where
  | ticket (t : Ticket)
  | penalty (p : Penalty)
  | left (domain : String) (moment : ℚ)
  deriving DecidableEq

def ThrottleEvent.domain : ThrottleEvent → String
  | .ticket t => t.domain
  | .penalty p => p.domain
  | .left domain _ => domain

/-- The log has the last event first. -/
structure Throttle where
  now : ℚ := 0
  throttle : DomainThrottle := {}
  workers : Nat → Slot := fun _ => .out
  log : List ThrottleEvent := []

inductive ThrottleAct where
  | tick (now : ℚ)
  | enter (i : Nat) (url : String)
  | pace (i : Nat) (domain : String) (factor : ℚ)
  | take (i : Nat) (domain : String) (remote : Option ℚ)
  | leave (i : Nat) (domain : String)
  | done (i : Nat) (domain : String)
  | penalize (url : String) (seconds : ℚ)
  | setDomainDelay (domain : String) (seconds : ℚ)

namespace Throttle

def move (s : Throttle) (i : Nat) (slot : Slot) : Throttle :=
  { s with workers := Function.update s.workers i slot }

/-- `sem.acquire()` and `sem.release()`. -/
def acquire (st : Setting) (s : Throttle) (domain : String) : Option Throttle :=
  if st.CONCURRENT_REQUESTS_PER_DOMAIN ≤ 0 then some s
  else if s.throttle.sems domain < st.CONCURRENT_REQUESTS_PER_DOMAIN then
    some { s with throttle := { s.throttle with
      sems := Function.update s.throttle.sems domain (s.throttle.sems domain + 1) } }
  else none

def release (st : Setting) (s : Throttle) (domain : String) : Throttle :=
  if st.CONCURRENT_REQUESTS_PER_DOMAIN ≤ 0 then s
  else { s with throttle := { s.throttle with
    sems := Function.update s.throttle.sems domain (s.throttle.sems domain - 1) } }

/-- `_take_ticket`, from the answer of Redis on. -/
def takeTicket (st : Setting) (s : Throttle) (domain : String) (delay : ℚ) (remote : Option ℚ) : Ticket × Throttle :=
  match remote.filter fun _ => st.GLOBAL_THROTTLE with
  | some wait => (⟨domain, s.now, delay, some wait, wait⟩, s)
  | none =>
    let (wait, throttle) := s.throttle.takeTicket domain delay s.now
    (⟨domain, s.now, delay, none, wait⟩, { s with throttle })

def step (lib : Stdlib) (st : Setting) (s : Throttle) : ThrottleAct → Option Throttle
  | .tick now => if s.now ≤ now then some { s with now } else none
  | .enter i url =>
    match domainOf lib url with
    | .error _ => some s
    | .ok domain =>
      if s.workers i = .out then (s.acquire st domain).map fun s => s.move i (.admitted domain) else none
  | .pace i domain factor =>
    if s.workers i = .admitted domain ∧ 1 / 2 ≤ factor ∧ factor ≤ 3 / 2 then
      some (s.move i (.paced domain (s.throttle.delay st domain factor)))
    else none
  | .take i domain remote =>
    match s.workers i with
    | .paced admitted delay =>
      if admitted = domain then
        let (ticket, s) := s.takeTicket st domain delay remote
        some { s.move i (.waiting domain ticket.start) with log := .ticket ticket :: s.log }
      else none
    | _ => none
  | .leave i domain =>
    match s.workers i with
    | .waiting admitted start =>
      if admitted = domain ∧ start ≤ s.now then
        some { s.move i (.inside domain) with log := .left domain s.now :: s.log }
      else none
    | _ => none
  | .done i domain => if s.workers i = .inside domain then some ((s.release st domain).move i .out) else none
  | .penalize url seconds =>
    match domainOf lib url with
    | .error _ => some s
    | .ok domain =>
      some { s with
        throttle := s.throttle.penalize domain seconds s.now
        log := .penalty ⟨domain, s.now, seconds⟩ :: s.log }
  | .setDomainDelay domain seconds => some { s with throttle := s.throttle.setDomainDelay domain seconds }

end Throttle

/-- The workers of a process, from its start on. -/
def throttleMachine (lib : Stdlib) (st : Setting) : Machine Throttle ThrottleAct where
  start s := s = {}
  step := Throttle.step lib st

end Netspy
