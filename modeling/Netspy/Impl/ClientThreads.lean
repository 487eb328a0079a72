import Netspy.Framework.Machine
import Netspy.Impl.Downloader

/-!
# Threads that share the clients of a downloader

A worker gets its client from a cache in one step, under its lock, and with it
those that were dropped to make room. It closes these one after another, and then
downloads. The downloads that are followed here are those whose client is cached:
of `HttpxDownloader` and `CurlDownloader` the ones through a session, of
`AsyncHttpxDownloader` the ones through a proxy, each event loop with a cache of
its own. A client is a number here.
-/

namespace Netspy

/-- The downloaders whose workers share clients. -/
inductive Downloader where
  | httpx
  | curl
  | asyncHttpx
  deriving DecidableEq

/-- Where the thread `i` finds its client: which cache, of which capacity, under
which key. -/
structure Pooling where
  capacity : Nat
  cache : Nat → Nat
  key : Nat → Option String → Option (Option String)

def SessionDownloader.pooling (d : SessionDownloader) : Pooling where
  capacity := d.capacity
  cache _ := 0
  key i proxy := if d.useSession then some (sessionKey proxy i d.shards) else none

def AsyncHttpxDownloader.pooling (d : AsyncHttpxDownloader) : Pooling where
  capacity := d.capacity
  cache i := shardIndex i d.loops
  key _ proxy := proxy.map some

def Downloader.pooling (st : Setting) (concurrency : Nat) : Downloader → Pooling
  | .httpx => (HttpxDownloader st concurrency (.bool true) true).pooling
  | .curl => (CurlDownloader st concurrency (.bool true) true).pooling
  | .asyncHttpx => (AsyncHttpxDownloader.init st concurrency (.bool true)).pooling

/-- A worker with a client, and those it has yet to close. -/
structure ClientUse where
  key : Option String
  client : Nat
  evicted : List Nat
  deriving DecidableEq

/-- `asked` are the keys that a cache was asked for, the last first. -/
structure ClientThreads where
  caches : Nat → ProxyClientCache (Option String) Nat := fun _ => []
  made : Nat := 0
  workers : Nat → Option ClientUse := fun _ => none
  asked : Nat → List (Option String) := fun _ => []

inductive ClientAct where
  | getOrCreate (i : Nat) (proxy : Option String)
  /-- The next `evicted.close()`, or `evicted.aclose()`. -/
  | close (i : Nat)
  | finish (i : Nat)
  deriving DecidableEq

namespace ClientThreads

/-- `get_or_create`, of the thread `i`. -/
def get (p : Pooling) (s : ClientThreads) (i : Nat) (key : Option String) : ClientThreads :=
  let c := p.cache i
  let (client, evicted, items) := (s.caches c).getOrCreate key s.made p.capacity
  { caches := Function.update s.caches c items
    made := s.made + 1
    workers := Function.update s.workers i (some { key, client, evicted })
    asked := Function.update s.asked c (key :: s.asked c) }

def step (p : Pooling) (s : ClientThreads) : ClientAct → Option ClientThreads
  | .getOrCreate i proxy =>
    match s.workers i, p.key i proxy with
    | none, some key => some (s.get p i key)
    | _, _ => none
  | .close i =>
    match s.workers i with
    | some ⟨key, client, _ :: evicted⟩ =>
      some { s with workers := Function.update s.workers i (some { key, client, evicted }) }
    | _ => none
  | .finish i =>
    match s.workers i with
    | some ⟨_, _, []⟩ => some { s with workers := Function.update s.workers i none }
    | _ => none

def machine (p : Pooling) : Machine ClientThreads ClientAct where
  start s := s = {}
  step := step p

/-- The client that a thread is about to close. -/
def closing (s : ClientThreads) : ClientAct → Option Nat
  | .close i => (s.workers i).bind (·.evicted.head?)
  | _ => none

end ClientThreads

end Netspy
