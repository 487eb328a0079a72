import Mathlib.Logic.Function.Basic
import Netspy.Framework.Lru
import Netspy.Framework.Server
import Netspy.Impl.Setting

/-!
# `network/downloader/`

Which client carries a request, in the three downloaders of HTTP: a client of its
own, the one of an event loop, or one that is cached for the proxy. Of a request
the proxy that was picked for it is seen, its `verify`, and whether it has cookies;
of a client, what it was built with.

`verify` is what `httpx` takes: a boolean, the path of a CA bundle, or an
`SSLContext`, which is equal to itself only. The cookie jars, which are cached the
same way, and the limits and timeouts are left out.
-/

namespace Netspy

inductive Verify where
  | bool (b : Bool)
  | path (s : String)
  | context (id : Nat)
  deriving Repr, DecidableEq

/-- A client, and what it was built with. -/
structure Client where
  proxy : Option String
  verify : Verify
  deriving Repr, DecidableEq

/-- What a downloader sees of a request. -/
structure Download where
  /-- `shard_index`, of the thread that it runs in, before the remainder. -/
  thread : Nat
  proxy : Option String
  verify : Option Verify := none
  cookies : Bool := false
  deriving Repr, DecidableEq

/-- `request.requests_kwargs.get("verify", self._verify)`. -/
def Download.effective (x : Download) (own : Verify) : Verify := x.verify.getD own

/-! ## `_common.py` -/

/-- `ProxyClientCache`: the one that was used the longest time ago first. The keys
are `str | None`, of which only equality is seen. -/
abbrev ProxyClientCache (κ β : Type) := List (κ × β)

namespace ProxyClientCache

variable {κ β : Type} [DecidableEq κ]

/-- `get_or_create`: the client, those to be closed, and the cache. -/
def getOrCreate (items : ProxyClientCache κ β) (proxy : κ) (factory : β) (capacity : Nat) :
    β × List β × ProxyClientCache κ β :=
  match items.lookup proxy with
  | some client => (client, [], items.filter (·.1 ≠ proxy) ++ [(proxy, client)])
  | none =>
    let items := items ++ [(proxy, factory)]
    let limit := max capacity 1
    (factory, (items.take (items.length - limit)).map Prod.snd, items.drop (items.length - limit))

end ProxyClientCache

/-- `shard_count`, and `loop_count`. -/
def shardCount (concurrency perShard : Nat) : Nat :=
  if perShard = 0 then 1 else max 1 ((max concurrency 1 + perShard - 1) / perShard)

/-- `shard_index`. -/
def shardIndex (thread shards : Nat) : Nat := if shards ≤ 1 then 0 else thread % shards

/-- The key of a session. -/
def sessionKey (proxy : Option String) (thread shards : Nat) : Option String :=
  if shards ≤ 1 then proxy else some (proxy.getD "None" ++ "#" ++ toString (shardIndex thread shards))

/-! ## `_httpx.py`, `_curl.py` -/

/-- A downloader of its own clients or sessions, with so many shards. -/
structure SessionDownloader where
  verify : Verify := .bool true
  useSession : Bool := false
  shards : Nat
  capacity : Nat
  clients : ProxyClientCache (Option String) Client := []

namespace SessionDownloader

/-- `_make_client`, `_make_session`. -/
def makeClient (proxy : Option String) (verify : Verify) : Client := { proxy, verify }

/-- `_session_client`, `_session_for_proxy`. -/
def sessionClient (d : SessionDownloader) (proxy : Option String) (thread : Nat) : Client × SessionDownloader :=
  let (client, _, clients) :=
    d.clients.getOrCreate (sessionKey proxy thread d.shards) (makeClient proxy d.verify) d.capacity
  (client, { d with clients })

/-- `_client_for`, `_session_for`. -/
def clientFor (d : SessionDownloader) (x : Download) : Client × SessionDownloader :=
  let verify := x.effective d.verify
  if d.useSession && !x.cookies && decide (verify = d.verify) then d.sessionClient x.proxy x.thread
  else (makeClient x.proxy verify, d)

end SessionDownloader

/-- A new `HttpxDownloader`. -/
def HttpxDownloader (st : Setting) (concurrency : Nat) (verify : Verify) (useSession : Bool) : SessionDownloader :=
  let shards := shardCount concurrency st.SESSION_SHARD_THREADS
  { verify, useSession, shards, capacity := max st.SESSION_CACHE_SIZE 1 * shards }

/-- A new `CurlDownloader`. -/
def CurlDownloader (st : Setting) (concurrency : Nat) (verify : Verify) (useSession : Bool) : SessionDownloader :=
  let shards := shardCount concurrency st.CURL_SESSION_SHARD_THREADS
  { verify, useSession, shards, capacity := max st.SESSION_CACHE_SIZE 1 * shards }

/-! ## `_async_httpx.py` -/

/-- An event loop with its client, and those it has for proxies. -/
structure AsyncShard where
  client : Client
  proxied : ProxyClientCache String Client := []

structure AsyncHttpxDownloader where
  verify : Verify := .bool true
  loops : Nat
  capacity : Nat
  shards : Nat → AsyncShard

namespace AsyncHttpxDownloader

/-- A new `AsyncHttpxDownloader`. -/
def init (st : Setting) (concurrency : Nat) (verify : Verify) : AsyncHttpxDownloader where
  verify
  loops := shardCount concurrency st.ASYNC_THREADS_PER_LOOP
  capacity := st.SESSION_CACHE_SIZE
  shards _ := { client := { proxy := none, verify } }

/-- `_client_for_proxy`. -/
def clientForProxy (d : AsyncHttpxDownloader) (i : Nat) (proxy : String) (verify : Verify) :
    Client × AsyncHttpxDownloader :=
  let (client, _, proxied) :=
    (d.shards i).proxied.getOrCreate proxy { proxy := some proxy, verify } d.capacity
  (client, { d with shards := Function.update d.shards i { d.shards i with proxied } })

/-- `_download`. -/
def download (d : AsyncHttpxDownloader) (x : Download) : Client × AsyncHttpxDownloader :=
  let i := shardIndex x.thread d.loops
  let verify := x.effective d.verify
  if x.cookies then ({ proxy := x.proxy, verify }, d)
  else
    match x.proxy with
    | some proxy => d.clientForProxy i proxy verify
    | none => ((d.shards i).client, d)

end AsyncHttpxDownloader

end Netspy
