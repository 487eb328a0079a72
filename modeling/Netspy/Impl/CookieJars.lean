import Netspy.Impl.Downloader

/-!
# The cookie jars of the downloaders

The clients that are cached with the jar that each was built with, and the cache
of jars that all of a proxy's shards take theirs from. A jar is a number. Of a
client only its jar is kept here, and of the calls only those for a cached client,
each as one step.
-/

namespace Netspy

/-- The two caches of a `HttpxDownloader`, or of a `CurlDownloader`. -/
structure SessionJars where
  shards : Nat
  capacity : Nat
  clients : ProxyClientCache (Option String) Nat := []
  jars : ProxyClientCache (Option String) Nat := []
  made : Nat := 0

/-- A call for the client of a proxy, in a thread with this number. -/
structure SessionCall where
  proxy : Option String
  thread : Nat
  /-- Whether `factory()` would return a client: it raises on a proxy it does not take. -/
  builds : Bool := true
  deriving DecidableEq

namespace SessionJars

/-- The caches of a downloader with so many shards. -/
def init (st : Setting) (shards : Nat) : SessionJars where
  shards
  capacity := max st.SESSION_CACHE_SIZE 1 * shards

/-- `_jar_for`. -/
def jarFor (d : SessionJars) (proxy : Option String) : Nat × SessionJars :=
  let (jar, _, jars) := d.jars.getOrCreate proxy d.made d.capacity
  (jar, { d with jars, made := d.made + 1 })

/-- `_session_client`, `_session_for_proxy`: the jar of the client, if it is cached or
can be made. If `factory()` raises, the jar was asked for all the same. -/
def sessionClient (d : SessionJars) (call : SessionCall) : Option Nat × SessionJars :=
  let (jar, d) := d.jarFor call.proxy
  let key := sessionKey call.proxy call.thread d.shards
  if call.builds || (d.clients.lookup key).isSome then
    let (client, _, clients) := d.clients.getOrCreate key jar d.capacity
    (some client, { d with clients })
  else (none, d)

/-- The caches after some calls. -/
def after (d : SessionJars) (calls : List SessionCall) : SessionJars := calls.foldl (fun d call => (d.sessionClient call).2) d

end SessionJars

/-- The caches of an `AsyncHttpxDownloader`: a default client for each event loop,
with its jar, and the clients of the loop for proxies. -/
structure AsyncJars where
  loops : Nat
  /-- `SESSION_CACHE_SIZE`, and `_jar_capacity`. -/
  capacity : Nat
  jarCapacity : Nat
  defaults : Nat → Option Nat := fun _ => none
  proxied : Nat → ProxyClientCache String Nat := fun _ => []
  jars : ProxyClientCache (Option String) Nat := []
  made : Nat := 0

namespace AsyncJars

/-- `self._jars.get_or_create(proxy, CookieJar, capacity=self._jar_capacity)`. -/
def jarFor (d : AsyncJars) (proxy : Option String) : Nat × AsyncJars :=
  let (jar, _, jars) := d.jars.getOrCreate proxy d.made d.jarCapacity
  (jar, { d with jars, made := d.made + 1 })

/-- `_Shard._setup`. -/
def setup (d : AsyncJars) (i : Nat) : AsyncJars :=
  let (jar, d) := d.jarFor none
  { d with defaults := Function.update d.defaults i (some jar) }

/-- A new `AsyncHttpxDownloader`, which sets up one loop after the other. -/
def init (st : Setting) (loops : Nat) : AsyncJars :=
  let loops := max loops 1
  (List.range loops).foldl setup
    { loops, capacity := st.SESSION_CACHE_SIZE, jarCapacity := max st.SESSION_CACHE_SIZE 1 * loops }

/-- `_client_for_proxy`, on the loop of a thread. -/
def clientForProxy (d : AsyncJars) (call : Nat × String) : AsyncJars :=
  let (thread, proxy) := call
  let i := shardIndex thread d.loops
  let (jar, d) := d.jarFor (some proxy)
  let (_, _, proxied) := (d.proxied i).getOrCreate proxy jar d.capacity
  { d with proxied := Function.update d.proxied i proxied }

def after (d : AsyncJars) (calls : List (Nat × String)) : AsyncJars := calls.foldl clientForProxy d

end AsyncJars

end Netspy
