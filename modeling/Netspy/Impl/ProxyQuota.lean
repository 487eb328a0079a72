import Netspy.Impl.ProxyPool

/-!
# Stays of proxies

The threads of a pool, with a record of the stays of its proxies: one begins when
`_fetch` appends a proxy, and ends when the proxy is not in the pool any more. No step
depends on the record.
-/

namespace Netspy

/-- The proxy that the loop of `get_proxy` hands out, as the pool has it: the first that
is not banned when it is looked at. -/
def ApiProxyPool.picked (p : ApiProxyPool) (checks : List ℚ) : Option String :=
  ((p.pool.zip checks).find? fun entry => !(p.isBanned entry.1 entry.2).1).map Prod.fst

structure Stay where
  proxy : String
  /-- The use count of the proxy when it was appended. -/
  before : Nat
  /-- How often `get_proxy` has returned it. -/
  returned : Nat := 0
  reportedBad : Bool := false
  ended : Bool := false
  deriving Repr, DecidableEq

/-- What a stay is to be: the proxy is returned so many times at most, and exactly so many
times if nobody reports it bad. -/
def Stay.Keeps (st : Setting) (x : Stay) : Prop :=
  x.returned ≤ st.PROXY_MAX_USE_TIMES ∧ (x.ended → x.reportedBad = false → x.returned = st.PROXY_MAX_USE_TIMES)

instance (st : Setting) (x : Stay) : Decidable (x.Keeps st) := inferInstanceAs (Decidable (_ ∧ _))

namespace PoolAct

/-- The proxy that a step hands out. -/
def handed (s : PoolThreads) : PoolAct → Option String
  | .choose _ checks => s.pool.picked checks
  | _ => none

/-- Whether a step bans the proxy. -/
def bans (proxy : String) : PoolAct → Bool
  | .reportBad _ reported => proxy = rawProxy reported ∨ proxy = reported
  | _ => false

end PoolAct

structure PoolStays where
  threads : PoolThreads
  stays : List Stay := []

namespace PoolStays

/-- A stay after a step that leaves `pool`. -/
def goOn (handed : Option String) (bans : String → Bool) (pool : List String) (x : Stay) : Stay :=
  if x.ended then x
  else
    { x with
      returned := if handed = some x.proxy then x.returned + 1 else x.returned
      reportedBad := x.reportedBad || bans x.proxy
      ended := x.proxy ∉ pool }

/-- The stays that begin. -/
def begun (p : ApiProxyPool) (pool : List String) : List Stay :=
  (pool.filter (· ∉ p.pool)).map fun proxy => { proxy, before := (p.useCount proxy).getD 0 }

def step (st : Setting) (api : Bool) (s : PoolStays) (a : PoolAct) : Option PoolStays :=
  (s.threads.step st api a).map fun threads =>
    { threads
      stays :=
        s.stays.map (goOn (a.handed s.threads) (fun proxy => a.bans proxy) threads.pool.pool) ++
          begun s.threads.pool threads.pool.pool }

/-- A proxy that `_fetch` appends has no use count. -/
def Fresh (st : Setting) (s : PoolStays) : PoolAct → Prop
  | .fetched _ (some found) =>
    st.PROXY_MAX_USE_TIMES = 1 ∨ ∀ entry ∈ found,
      entry.1 ∈ s.threads.pool.pool ∨ (s.threads.pool.isBanned entry.1 entry.2).1 = true ∨
        (s.threads.pool.useCount entry.1).getD 0 = 0
  | _ => True

instance (st : Setting) (s : PoolStays) : (a : PoolAct) → Decidable (Fresh st s a)
  | .fetched _ (some found) => inferInstanceAs (Decidable (_ ∨ ∀ entry ∈ found, _))
  | .fetched _ none | .tick _ | .look _ | .fetch _ | .choose _ _ | .reportGood _ _ | .clear _ | .reportSuspect _ _
  | .reportBad _ _ => isTrue trivial

end PoolStays

def stayMachine (st : Setting) (api : Bool) : Machine PoolStays PoolAct where
  start s := ∃ now, 0 < now ∧ s = { threads := { now } }
  step := PoolStays.step st api

end Netspy
