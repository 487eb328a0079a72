import Mathlib.Algebra.Order.Monoid.Unbundled.WithTop
import Mathlib.Algebra.Order.Ring.Rat
import Mathlib.Logic.Function.Basic
import Netspy.Framework.Machine
import Netspy.Impl.Setting

/-!
# `network/proxy_pool/api.py`

An `ApiProxyPool`, and the threads that share one. Each section under its lock is
one step. Where such a section asks for the time more than once, the moments are
part of the action, in order.

The body that the provider answers is left out: `_fetch` gets the proxies that
`_parse` has found in it, or none at all if the request failed.
-/

namespace Netspy

/-- What is behind the first `://`. -/
def afterScheme : List Char → Option (List Char)
  | ':' :: '/' :: '/' :: rest => some rest
  | _ :: rest => afterScheme rest
  | [] => none

/-- `proxy.split("://", 1)[-1]`. -/
def rawProxy (proxy : String) : String := String.ofList ((afterScheme proxy.toList).getD proxy.toList)

/-- `_normalize`. -/
def normalizeProxy (proxy : String) : String :=
  if (afterScheme proxy.toList).isSome then proxy else "http://" ++ proxy

/-- Dicts with a proxy as their key; `banned` has the end of its cooldown. -/
structure ApiProxyPool where
  pool : List String := []
  useCount : String → Option Nat := fun _ => none
  banned : String → Option (WithTop ℚ) := fun _ => none
  fails : String → Option (Nat × ℚ) := fun _ => none
  suspects : String → Option (Nat × ℚ) := fun _ => none
  lastFetch : Option ℚ := none

namespace ApiProxyPool

/-- `_prune`. -/
def prune (st : Setting) (p : ApiProxyPool) (now : ℚ) : ApiProxyPool :=
  let banned (key : String) := (p.banned key).filter fun (till : WithTop ℚ) => !decide (till ≤ now)
  let recent (entry : Nat × ℚ) := !decide (st.PROXY_BAN_MAX_SECONDS < now - entry.2)
  { p with
    banned
    fails := fun key => (p.fails key).filter recent
    suspects := fun key => (p.suspects key).filter recent
    useCount := fun key => if key ∈ p.pool ∨ (banned key).isSome then p.useCount key else none }

/-- `_is_banned`. -/
def isBanned (p : ApiProxyPool) (proxy : String) (now : ℚ) : Bool × ApiProxyPool :=
  match p.banned proxy with
  | none => (false, p)
  | some till => if now < till then (true, p) else (false, { p with banned := Function.update p.banned proxy none })

/-- `_drop`. -/
def drop (p : ApiProxyPool) (proxy : String) : ApiProxyPool := { p with pool := p.pool.erase proxy }

/-- The end of `_fetch`: the proxies, each with the moment at which it is looked at. -/
def refill : List (String × ℚ) → ApiProxyPool → ApiProxyPool
  | [], p => p
  | (proxy, now) :: found, p =>
    let (banned, p) := p.isBanned proxy now
    refill found (if !banned && proxy ∉ p.pool then { p with pool := p.pool ++ [proxy] } else p)

/-- `_use_count` goes up, and who is used up is dropped. -/
def use (st : Setting) (p : ApiProxyPool) (proxy : String) : ApiProxyPool :=
  let count := (p.useCount proxy).getD 0 + 1
  let p := { p with useCount := Function.update p.useCount proxy (some count) }
  if st.PROXY_MAX_USE_TIMES ≤ count then p.drop proxy else p

/-- The loop of `get_proxy`, for so many turns, with the moments of its checks: the
proxy with the moment of its check. There is none if the moments do not suffice. -/
def scan (st : Setting) : Nat → List ℚ → ApiProxyPool → Option (Option (String × ℚ) × ApiProxyPool)
  | 0, _, p => some (none, p)
  | n + 1, now :: checks, p =>
    match p.pool with
    | proxy :: rest =>
      let (banned, p) := { p with pool := rest ++ [proxy] }.isBanned proxy now
      if banned then scan st n checks (p.drop proxy)
      else some (some (normalizeProxy proxy, now), p.use st proxy)
    | [] => none
  | _ + 1, [], _ => none

/-- The exponent of the least power of two that is too large for a float. -/
def floatLimit : Nat := 1024

/-- `_ban_seconds`. The setting is a float, so the power is made one: from the limit on this
raises `OverflowError`. -/
def banSeconds (st : Setting) (fails : Nat) : Option (WithTop ℚ) :=
  let base := st.PROXY_BAN_SECONDS
  if base ≤ 0 then some ⊤
  else if floatLimit ≤ fails - 1 then none
  else some ↑(min (base * 2 ^ (fails - 1)) st.PROXY_BAN_MAX_SECONDS)

/-- A count goes up, or starts again after a long time. -/
def strike (st : Setting) (entry : Option (Nat × ℚ)) (now : ℚ) : Nat :=
  let (prev, last) := entry.getD (0, 0)
  (if last ≠ 0 ∧ st.PROXY_BAN_MAX_SECONDS < now - last then 0 else prev) + 1

/-- `report_bad`. If `_ban_seconds` raises, the failure is counted and that is all. -/
def reportBad (st : Setting) (p : ApiProxyPool) (proxy : String) (now : ℚ) : ApiProxyPool :=
  let raw := rawProxy proxy
  let fails := strike st (p.fails raw) now
  let p := { p with
    fails := Function.update p.fails raw (some (fails, now))
    suspects := Function.update p.suspects raw none }
  match banSeconds st fails with
  | none => p
  | some seconds =>
    let banned := Function.update (Function.update p.banned raw (some (now + seconds))) proxy (some (now + seconds))
    { p with banned }.drop raw

/-- The section of `report_suspect`, and whether it goes on to `report_bad`. -/
def reportSuspect (st : Setting) (p : ApiProxyPool) (proxy : String) (now : ℚ) : Bool × ApiProxyPool :=
  let threshold := max st.PROXY_SUSPECT_BAN_AFTER 1
  let raw := rawProxy proxy
  let n := strike st (p.suspects raw) now
  if n < threshold then (false, { p with suspects := Function.update p.suspects raw (some (n, now)) })
  else (true, { p with suspects := Function.update p.suspects raw none })

/-- The section of `report_good`. -/
def clear (p : ApiProxyPool) (raw : String) : ApiProxyPool :=
  { p with fails := Function.update p.fails raw none, suspects := Function.update p.suspects raw none }

end ApiProxyPool

/-! ## Threads -/

/-- Where a thread is: it has found the pool empty, it waits for the provider, it is
about to choose; it is about to clear the counts of a proxy, or to report one bad
that was suspected too often. -/
inductive PoolTask where
  | idle
  | empty
  | fetching
  | ready
  | clearing (raw : String)
  | condemning (proxy : String)
  deriving DecidableEq

/-- What has happened: a proxy was returned, or none, with the proxies in the pool
that were not banned when the section began; or one was reported bad, with the cooldown
that it got, if any. -/
inductive PoolEvent where
  | returned (result : Option (String × ℚ)) (free : List String)
  | bad (proxy : String) (moment : ℚ) (cooldown : Option (WithTop ℚ))
  deriving DecidableEq

/-- The log has the last event first. `_fetch_lock` has its holder. -/
structure PoolThreads where
  now : ℚ
  pool : ApiProxyPool := {}
  fetchLock : Option Nat := none
  tasks : Nat → PoolTask := fun _ => .idle
  log : List PoolEvent := []

inductive PoolAct where
  | tick (now : ℚ)
  | look (i : Nat)
  | fetch (i : Nat)
  | fetched (i : Nat) (found : Option (List (String × ℚ)))
  | choose (i : Nat) (checks : List ℚ)
  | reportGood (i : Nat) (proxy : String)
  | clear (i : Nat)
  | reportSuspect (i : Nat) (proxy : String)
  | reportBad (i : Nat) (proxy : String)

namespace PoolThreads

def setTask (s : PoolThreads) (i : Nat) (task : PoolTask) : PoolThreads :=
  { s with tasks := Function.update s.tasks i task }

/-- The moments follow one another from now on. -/
def inOrder (s : PoolThreads) (moments : List ℚ) : Bool := decide ((s.now :: moments).Pairwise (· ≤ ·))

/-- The last moment of a section. -/
def lastOf (s : PoolThreads) (moments : List ℚ) : ℚ := moments.getLast?.getD s.now

/-- The proxies in the pool that are not banned. -/
def free (s : PoolThreads) : List String := s.pool.pool.filter fun proxy => !(s.pool.isBanned proxy s.now).1

def bad (st : Setting) (s : PoolThreads) (proxy : String) : PoolThreads :=
  let seconds := ApiProxyPool.banSeconds st (ApiProxyPool.strike st (s.pool.fails (rawProxy proxy)) s.now)
  { s with pool := s.pool.reportBad st proxy s.now, log := .bad proxy s.now seconds :: s.log }

/-- `api` is whether there is a provider. -/
def step (st : Setting) (api : Bool) (s : PoolThreads) : PoolAct → Option PoolThreads
  | .tick now => if s.now ≤ now then some { s with now } else none
  | .look i =>
    if s.tasks i = .idle then some (s.setTask i (if s.pool.pool.isEmpty then .empty else .ready)) else none
  | .fetch i =>
    if s.tasks i = .empty then
      if !api then some (s.setTask i .ready)
      else if s.fetchLock.isSome then none
      else if s.pool.lastFetch.any fun last => decide (s.now - last < st.PROXY_MIN_INTERVAL) then
        some (s.setTask i .ready)
      else
        let pool := { s.pool with lastFetch := some s.now }.prune st s.now
        some { s.setTask i .fetching with pool, fetchLock := some i }
    else none
  | .fetched i found =>
    if s.tasks i = .fetching ∧ s.fetchLock = some i then
      match found with
      | none => some { s.setTask i .ready with fetchLock := none }
      | some found =>
        if s.inOrder (found.map Prod.snd) then
          some { s.setTask i .ready with
            fetchLock := none, pool := s.pool.refill found, now := s.lastOf (found.map Prod.snd) }
        else none
    else none
  | .choose i checks =>
    if s.tasks i = .ready ∧ s.inOrder checks then
      (s.pool.scan st s.pool.pool.length checks).map fun (result, pool) =>
        { s.setTask i .idle with pool, now := s.lastOf checks, log := .returned result s.free :: s.log }
    else none
  | .reportGood i proxy =>
    if s.tasks i = .idle then
      let raw := rawProxy proxy
      some (if (s.pool.fails raw).isNone && (s.pool.suspects raw).isNone then s else s.setTask i (.clearing raw))
    else none
  | .clear i =>
    match s.tasks i with
    | .clearing raw => some { s.setTask i .idle with pool := s.pool.clear raw }
    | _ => none
  | .reportSuspect i proxy =>
    if s.tasks i = .idle then
      let (reached, pool) := s.pool.reportSuspect st proxy s.now
      some { s.setTask i (if reached then .condemning proxy else .idle) with pool }
    else none
  | .reportBad i proxy =>
    if s.tasks i = .idle ∨ s.tasks i = .condemning proxy then some ((s.setTask i .idle).bad st proxy) else none

end PoolThreads

/-- The threads of a pool from when it is made. -/
def poolMachine (st : Setting) (api : Bool) : Machine PoolThreads PoolAct where
  start s := ∃ now, 0 < now ∧ s = { now }
  step := PoolThreads.step st api

end Netspy
