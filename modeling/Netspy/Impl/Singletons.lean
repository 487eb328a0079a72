import Netspy.Framework.Once
import Netspy.Impl.Downloader
import Netspy.Impl.Request

/-!
# The singletons of a process

`get_default_downloader`, `get_proxy_pool`, `get_redis` and `ssl_context_for` look into a
dict, and again under a lock before they make what is missing. What the dicts of the
first three hold is taken out and closed by `close_default_downloaders`,
`close_proxy_pool` and `close_redis`; contexts are never closed. An exception of a
`close` ends the loop over the others, except in `close_redis`.

The settings are those of one run. What else a downloader does with its request, and the
reset of `_effective_concurrency` at the end of `close_default_downloaders`, are not seen
here.
-/

namespace Netspy

/-! ## `network/downloader/__init__.py` -/

structure DownloaderSetting where
  USE_SESSION : Bool := false
  DOWNLOADER_ASYNC : Bool := false
  DOWNLOADER_IMPERSONATE : String := ""

/-- `_wants_session`. -/
def wantsSession (st : DownloaderSetting) (request : Request) : Bool := request.useSession.getD st.USE_SESSION

/-- `resolve_impersonate`; no browser and the empty name are the same. -/
def resolveImpersonate (st : DownloaderSetting) (request : Request) : Option String :=
  some (request.impersonate.getD st.DOWNLOADER_IMPERSONATE) |>.filter (· ≠ "")

/-- The keys of `_defaults`. -/
inductive DefaultKey where
  | playwright
  | curlSession
  | curl
  | async
  | httpxSession
  | httpx
  deriving Repr, DecidableEq

/-- The key that `get_default_downloader` computes. -/
def defaultKey (st : DownloaderSetting) (request : Request) : DefaultKey :=
  let wantSession := wantsSession st request
  if request.render then .playwright
  else if (resolveImpersonate st request).isSome then if wantSession then .curlSession else .curl
  else if st.DOWNLOADER_ASYNC then .async
  else if wantSession then .httpxSession
  else .httpx

/-- A downloader that `_build` makes; `impersonate` is what a `CurlDownloader` itself is
given. -/
inductive DefaultDownloader where
  | playwright
  | curl (useSession : Bool) (impersonate : Option String)
  | asyncHttpx
  | httpx (useSession : Bool)
  deriving Repr, DecidableEq

/-- `_build`. -/
def buildDownloader (st : DownloaderSetting) (key : DefaultKey) (request : Request) : DefaultDownloader :=
  match key with
  | .playwright => .playwright
  | .curl | .curlSession => .curl (wantsSession st request) none
  | .async => .asyncHttpx
  | .httpx | .httpxSession => .httpx (wantsSession st request)

/-- `self._impersonate or resolve_impersonate(request)`: the browser that the downloader
imitates for a request. -/
def DefaultDownloader.impersonates (st : DownloaderSetting) (request : Request) : DefaultDownloader → Option String
  | .curl _ impersonate => impersonate.filter (· ≠ "") <|> resolveImpersonate st request
  | _ => none

/-- `get_default_downloader` and `close_default_downloaders` of all threads. -/
def defaultDownloaders (st : DownloaderSetting) : Machine (Once Request DefaultKey) (OnceAct Request) :=
  Once.machine (defaultKey st) false

/-- The downloader with this number: the one that the thread at the factory has built for
its own request. -/
def downloaderAt (st : DownloaderSetting) (s : Once Request DefaultKey) (object : Nat) : Option DefaultDownloader :=
  s.made[object]?.map fun request => buildDownloader st (defaultKey st request) request

/-! ## `network/proxy_pool/__init__.py` -/

/-- With `PROXY_ENABLE`: `get_proxy_pool`, which keeps one pool, and `close_proxy_pool`. -/
def proxyPools : Machine (Once Unit Unit) (OnceAct Unit) := Once.machine id false

/-! ## `db/redisdb.py` -/

/-- The key of `_clients`: `url or setting.REDIS_URL`. -/
def redisKey (REDIS_URL : String) (url : Option String) : String := (url.filter (· ≠ "")).getD REDIS_URL

/-- `get_redis` and `close_redis`. -/
def redisClients (REDIS_URL : String) : Machine (Once (Option String) String) (OnceAct (Option String)) :=
  Once.machine (redisKey REDIS_URL) true

/-! ## `network/downloader/_common.py` -/

/-- What `ssl_context_for` looks up in `_ssl_cache`: all but `False` and contexts.
`other` is `None`, and what else is no string. -/
inductive CachedVerify where
  | true
  | other
  | path (s : String)
  deriving Repr, DecidableEq

/-- `verify if isinstance(verify, str) else True`; `none` is `True`. -/
def sslKey : CachedVerify → Option String
  | .path s => some s
  | .true | .other => none

/-- What `httpx.create_ssl_context` does. -/
inductive SslCreated where
  | context
  /-- It returns `None`, as of 0.28 for `None`. -/
  | nothing
  | raised
  deriving Repr, DecidableEq

/-- What threads do in `ssl_context_for`. -/
inductive SslAct where
  | sslContextFor (i : Nat) (verify : CachedVerify)
  | enter (i : Nat)
  | create (i : Nat) (created : SslCreated)
  deriving Repr, DecidableEq

/-- That `_ssl_cache` has `None` for a key is as if it had nothing. -/
def SslAct.once : SslAct → OnceAct CachedVerify
  | .sslContextFor i verify => .get i verify
  | .enter i => .enter i
  | .create i created => .make i (created ≠ .context)

/-- Of `True` and of a path a context is made, if nothing raises. -/
def sslContexts : Machine (Once CachedVerify (Option String)) SslAct where
  start s := s = {}
  step s a :=
    match a with
    | .create i .nothing =>
      match s.calls i with
      | some (.making .other _) => s.step sslKey true a.once
      | _ => none
    | _ => s.step sslKey true a.once

end Netspy
