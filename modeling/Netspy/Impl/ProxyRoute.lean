import Mathlib.Data.Rat.Defs
import Netspy.Framework.Machine
import Netspy.Impl.Downloader

/-!
# The exit of a download

How the proxy of a download is picked (`_common.py`, `proxy_pool/__init__.py`), and
what it goes through then: a client of `HttpxDownloader`, `CurlDownloader` or
`AsyncHttpxDownloader`, or a browser context of `PlaywrightDownloader`
(`_playwright.py`). A pool is a number, and may answer anything.

Of the requests that a render worker gets from its queue any may be the next one.
-/

namespace Netspy

/-- A value, if it is true. -/
def truthy (s : Option String) : Option String := s.filter (· ≠ "")

/-- What a download sees of a request, and of the thread that it runs in. -/
structure RouteRequest where
  thread : Nat := 0
  proxy : Option String := none
  proxies : Option String := none
  verify : Option Verify := none
  cookies : Bool := false
  deriving DecidableEq

/-- The same with the proxy that was picked. -/
def RouteRequest.via (x : RouteRequest) (proxy : Option String) : Download where
  thread := x.thread
  proxy
  verify := x.verify
  cookies := x.cookies

/-! ## `_playwright.py` -/

/-- `WEBDRIVER`, and whether there is a `user_data_dir`. -/
structure RenderConfig where
  proxy : Option String := none
  userDataDir : Bool := false
  deriving DecidableEq

structure BrowserContext where
  proxy : Option String
  deriving DecidableEq

/-- `_RenderWorker`. It has a browser apart from its context unless there is a profile. -/
structure RenderWorker where
  context : Option BrowserContext := none
  proxyContexts : ProxyClientCache String BrowserContext := []
  deriving DecidableEq

namespace RenderWorker

/-- `_default_proxy`, and what the browser is launched with. -/
def defaultProxy (config : RenderConfig) : Option String := truthy config.proxy

/-- `_ensure_browser`. -/
def ensureBrowser (config : RenderConfig) (w : RenderWorker) : RenderWorker :=
  if w.context.isSome then w else { w with context := some { proxy := defaultProxy config } }

/-- `_new_context`. Without a proxy of its own, a context has that of the launch. -/
def newContext (config : RenderConfig) (proxy : Option String) : BrowserContext where
  proxy := if proxy.isSome ∧ proxy ≠ defaultProxy config then proxy else defaultProxy config

/-- `_context_for`, or an error. -/
def contextFor (st : Setting) (config : RenderConfig) (w : RenderWorker) (proxy : Option String) :
    Option BrowserContext × RenderWorker :=
  if proxy = defaultProxy config then (w.context, w)
  else
    match proxy with
    | none => (w.context, w)
    | some server =>
      if config.userDataDir then (none, w)
      else
        let (context, _, proxyContexts) :=
          w.proxyContexts.getOrCreate server (newContext config (some server)) st.SESSION_CACHE_SIZE
        (some context, { w with proxyContexts })

/-- A turn of `run`, until there is a page: its context, or an error. -/
def render (st : Setting) (config : RenderConfig) (w : RenderWorker) (cookies : Bool) (proxy : Option String) :
    Option BrowserContext × RenderWorker :=
  let w := w.ensureBrowser config
  if cookies && !config.userDataDir then (some (newContext config proxy), w) else w.contextFor st config proxy

end RenderWorker

/-! ## Downloaders -/

/-- A downloader; `fixed` is its `_proxy`. -/
inductive Router where
  | session (fixed : Option String) (d : SessionDownloader)
  | async (d : AsyncHttpxDownloader)
  | playwright (config : RenderConfig) (workers : Nat → RenderWorker)

namespace Router

/-- The fixed proxy. -/
def fixed : Router → Option String
  | session fixed _ => fixed
  | async _ => none
  | playwright config _ => config.proxy

/-- What it hands to `pick_proxy` as `fallback`. -/
def fallback (x : RouteRequest) : Router → Option String
  | session fixed _ => fixed
  | async _ => none
  | playwright config _ => ((truthy x.proxy).or (truthy x.proxies)).or (truthy config.proxy)

/-- It has no clients yet but those that it starts with. -/
def Fresh : Router → Prop
  | session _ d => d.clients = []
  | async d => ∀ i, (d.shards i).proxied = []
  | playwright _ workers => ∀ w, workers w = {}

end Router

/-! ## `_common.py` -/

/-- Where a download is: `_attempt_proxy` is next; `get_proxy_pool` waits for its lock;
a pool is asked; none was got, with the deadline once it is set. Then it has its
proxy, or its job is in the queue, and it ends with a connection or an exception. -/
inductive Stage where
  | picking (deadline : Option ℚ)
  | locking (deadline : Option ℚ)
  | asking (deadline : Option ℚ) (pool : Nat)
  | refused (deadline : Option ℚ)
  | picked (proxy : Option String)
  | queued (proxy : Option String)
  | connected (exit : Option String)
  | raised
  deriving DecidableEq

namespace Stage

def ended : Stage → Bool
  | connected _ | raised => true
  | _ => false

end Stage

/-- A download with what the pools have returned for it, the last first. -/
structure RouteRun where
  request : RouteRequest
  router : Nat
  returned : List (Option String) := []
  stage : Stage := .picking none
  /-- The call has raised, as its job was not rendered in time. -/
  gaveUp : Bool := false
  deriving DecidableEq

/-- `pool` is `_state["pool"]`. -/
structure Routes where
  now : ℚ
  pool : Option Nat := none
  made : Nat := 0
  routers : Nat → Router
  runs : Nat → Option RouteRun := fun _ => none

inductive RouteAct where
  | tick (now : ℚ)
  /-- `close_proxy_pool`. -/
  | closePool
  | start (n : Nat) (request : RouteRequest) (router : Nat)
  | attempt (n : Nat)
  | lock (n : Nat)
  | ask (n : Nat) (proxy : Option String)
  | setDeadline (n : Nat)
  | check (n : Nat)
  | carry (n : Nat)
  | render (n : Nat) (w : Nat)
  /-- `event.wait` is over, and the job stays in the queue. -/
  | giveUp (n : Nat)
  /-- Something else raises, or the job is drained. -/
  | fail (n : Nat)

namespace Routes

def setRun (s : Routes) (n : Nat) (run : RouteRun) : Routes := { s with runs := Function.update s.runs n (some run) }

def setStage (s : Routes) (n : Nat) (run : RouteRun) (stage : Stage) : Routes := s.setRun n { run with stage }

def setRouter (s : Routes) (k : Nat) (router : Router) : Routes :=
  { s with routers := Function.update s.routers k router }

/-- `_attempt_proxy`, up to where it asks the pool. -/
def attempt (st : Setting) (s : Routes) (run : RouteRun) (deadline : Option ℚ) : Stage :=
  let fallback := (s.routers run.router).fallback run.request
  match ((truthy run.request.proxy).or (truthy run.request.proxies)).or (truthy fallback) with
  | some explicit => .picked (some explicit)
  | none =>
    if !st.PROXY_ENABLE then .picked none
    else
      match s.pool with
      | some pool => .asking deadline pool
      | none => .locking deadline

/-- A client gets the request, or the job is put. -/
def carry (s : Routes) (n : Nat) (run : RouteRun) (proxy : Option String) : Routes :=
  let k := run.router
  match s.routers k with
  | .session fixed d =>
    let (client, d) := d.clientFor (run.request.via proxy)
    (s.setRouter k (.session fixed d)).setStage n run (.connected (truthy client.proxy))
  | .async d =>
    let (client, d) := d.download (run.request.via proxy)
    (s.setRouter k (.async d)).setStage n run (.connected (truthy client.proxy))
  | .playwright .. => s.setStage n run (.queued proxy)

def step (st : Setting) (s : Routes) : RouteAct → Option Routes
  | .tick now => if s.now ≤ now then some { s with now } else none
  | .closePool => some { s with pool := none }
  | .start n request router => if (s.runs n).isSome then none else some (s.setRun n { request, router })
  | .attempt n => (s.runs n).bind fun run =>
    match run.stage with
    | .picking deadline => some (s.setStage n run (s.attempt st run deadline))
    | _ => none
  | .lock n => (s.runs n).bind fun run =>
    match run.stage, s.pool with
    | .locking deadline, some pool => some (s.setStage n run (.asking deadline pool))
    | .locking deadline, none =>
      some { s.setStage n run (.asking deadline s.made) with pool := some s.made, made := s.made + 1 }
    | _, _ => none
  | .ask n proxy => (s.runs n).bind fun run =>
    match run.stage with
    | .asking deadline _ =>
      let stage := if (truthy proxy).isSome || st.PROXY_ALLOW_DIRECT then .picked proxy else .refused deadline
      some (s.setRun n { run with returned := proxy :: run.returned, stage })
    | _ => none
  | .setDeadline n => (s.runs n).bind fun run =>
    match run.stage with
    | .refused none => some (s.setStage n run (.refused (some (s.now + st.PROXY_WAIT_TIMEOUT))))
    | _ => none
  | .check n => (s.runs n).bind fun run =>
    match run.stage with
    | .refused (some deadline) =>
      some (s.setStage n run (if deadline ≤ s.now then .raised else .picking (some deadline)))
    | _ => none
  | .carry n => (s.runs n).bind fun run =>
    match run.stage with
    | .picked proxy => some (s.carry n run proxy)
    | _ => none
  | .render n w => (s.runs n).bind fun run =>
    match run.stage, s.routers run.router with
    | .queued proxy, .playwright config workers =>
      let (context, worker) := (workers w).render st config run.request.cookies proxy
      let stage := match context with
        | some context => .connected context.proxy
        | none => .raised
      some ((s.setRouter run.router (.playwright config (Function.update workers w worker))).setStage n run stage)
    | _, _ => none
  | .giveUp n => (s.runs n).bind fun run =>
    match run.stage with
    | .queued _ => some (s.setRun n { run with gaveUp := true })
    | _ => none
  | .fail n => (s.runs n).bind fun run => if run.stage.ended then none else some (s.setStage n run .raised)

end Routes

/-- The downloads of a process, with downloaders that are new at first. -/
def routeMachine (st : Setting) : Machine Routes RouteAct where
  start s := (∀ k, (s.routers k).Fresh) ∧ ∀ n, s.runs n = none
  step := Routes.step st

end Netspy
