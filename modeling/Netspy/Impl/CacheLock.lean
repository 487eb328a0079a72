import Netspy.Framework.Machine
import Netspy.Impl.Downloader

/-!
# `ProxyClientCache` under its lock

The calls of `get_or_create` and `drain` that any threads make on one cache. A thread
keeps the lock while its factory runs and while it evicts; the others wait. A factory
raises, or it returns a new client, which is known by the number of those made before.
`setting.SESSION_CACHE_SIZE` may be set at any time.

`returned`, `drained` and `used` record what happened. No step depends on them.
-/

namespace Netspy

/-- How far the `get_or_create` is that has the lock: at its factory, or after that. -/
inductive CacheCall (κ : Type) where
  | creating (proxy : κ) (capacity : Option Int)
  | evicting (proxy : κ) (client : Nat) (limit : Int) (evicted : List Nat)
  deriving DecidableEq

/-- A `get_or_create` that has returned. -/
structure CacheReturn (κ : Type) where
  proxy : κ
  client : Nat
  evicted : List Nat
  /-- What it computes if it creates its client. -/
  limit : Int
  created : Bool
  deriving DecidableEq

structure CacheThreads (κ : Type) where
  items : ProxyClientCache κ Nat := []
  /-- The thread that has the lock. -/
  lock : Option (Nat × CacheCall κ) := none
  SESSION_CACHE_SIZE : Int := 16
  made : Nat := 0
  returned : List (CacheReturn κ) := []
  drained : List (List Nat) := []
  /-- The clients that calls found or created, the last first. -/
  used : List Nat := []

inductive CacheLockAct (κ : Type) where
  | configure (size : Int)
  /-- A call, up to its `return` if the client is found. -/
  | getOrCreate (i : Nat) (proxy : κ) (capacity : Option Int)
  /-- The factory, and if it returns what is done up to `while`. -/
  | factory (i : Nat) (raises : Bool)
  | popitem (i : Nat)
  /-- `return client, evicted`. -/
  | finish (i : Nat)
  | drain (i : Nat)
  deriving DecidableEq

namespace CacheThreads

variable {κ : Type}

/-- `max(capacity if capacity is not None else setting.SESSION_CACHE_SIZE, 1)`. -/
def limit (s : CacheThreads κ) (capacity : Option Int) : Int := max (capacity.getD s.SESSION_CACHE_SIZE) 1

variable [DecidableEq κ]

/-- `self._items.move_to_end(proxy)`. -/
def moveToEnd (items : ProxyClientCache κ Nat) (proxy : κ) (client : Nat) : ProxyClientCache κ Nat :=
  items.filter (·.1 ≠ proxy) ++ [(proxy, client)]

/-- `self._items[proxy] = client`. -/
def setItem (items : ProxyClientCache κ Nat) (proxy : κ) (client : Nat) : ProxyClientCache κ Nat :=
  if (items.lookup proxy).isSome then items.map fun kv => if kv.1 = proxy then (proxy, client) else kv
  else items ++ [(proxy, client)]

def step (s : CacheThreads κ) : CacheLockAct κ → Option (CacheThreads κ)
  | .configure size => some { s with SESSION_CACHE_SIZE := size }
  | .getOrCreate i proxy capacity =>
    if s.lock.isSome then none
    else
      match s.items.lookup proxy with
      | some client =>
        some { s with
          items := moveToEnd s.items proxy client
          returned := s.returned ++ [⟨proxy, client, [], s.limit capacity, false⟩]
          used := client :: s.used }
      | none => some { s with lock := some (i, .creating proxy capacity) }
  | .factory i raises =>
    match s.lock with
    | some (j, .creating proxy capacity) =>
      if i = j then
        if raises then some { s with lock := none }
        else
          some { s with
            items := setItem s.items proxy s.made
            lock := some (i, .evicting proxy s.made (s.limit capacity) [])
            made := s.made + 1
            used := s.made :: s.used }
      else none
    | _ => none
  | .popitem i =>
    match s.lock, s.items with
    | some (j, .evicting proxy client limit evicted), (_, old) :: items =>
      if i = j ∧ limit < s.items.length then
        some { s with items, lock := some (i, .evicting proxy client limit (evicted ++ [old])) }
      else none
    | _, _ => none
  | .finish i =>
    match s.lock with
    | some (j, .evicting proxy client limit evicted) =>
      if i = j ∧ s.items.length ≤ limit then
        some { s with lock := none, returned := s.returned ++ [⟨proxy, client, evicted, limit, true⟩] }
      else none
    | _ => none
  | .drain _ =>
    if s.lock.isSome then none else some { s with items := [], drained := s.drained ++ [s.items.map Prod.snd] }

def machine (κ : Type) [DecidableEq κ] : Machine (CacheThreads κ) (CacheLockAct κ) where
  start s := s = { SESSION_CACHE_SIZE := s.SESSION_CACHE_SIZE }
  step := step

end CacheThreads

/-! ## Where a client is -/

/-- A place for a client: the cache under a key, the `evicted` of a `get_or_create`, or
the result of a `drain`. -/
inductive ClientPlace (κ : Type) where
  | cached (proxy : κ)
  | evicted (call : Nat)
  | drained (call : Nat)

namespace CacheThreads

variable {κ : Type}

/-- The `evicted` of each `get_or_create` that has one; the last may be that of the call
that still evicts. -/
def evictedLists (s : CacheThreads κ) : List (List Nat) :=
  s.returned.map CacheReturn.evicted ++
    match s.lock with
    | some (_, .evicting _ _ _ evicted) => [evicted]
    | _ => []

def Holds (s : CacheThreads κ) (client : Nat) : ClientPlace κ → Prop
  | .cached proxy => (proxy, client) ∈ s.items
  | .evicted call => ∃ clients ∈ s.evictedLists[call]?, client ∈ clients
  | .drained call => ∃ clients ∈ s.drained[call]?, client ∈ clients

end CacheThreads

end Netspy
