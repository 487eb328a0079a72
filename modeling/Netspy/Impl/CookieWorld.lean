import Netspy.Framework.Machine
import Netspy.Impl.CookieJars

/-!
# Cookies in the downloaders

What is sent with downloads that may run at the same time, on the clients that
`_client_for` of `_httpx.py`, `_session_for` of `_curl.py`, `_download` of
`_async_httpx.py` and `_render` of `_playwright.py` choose for them. A jar is its
cookies; a client, or a browser context, has a jar that others may have too, or one of
its own. What the client libraries do with a jar is a `CookieLibrary`.

The picked proxy, the thread, and whether a browser or a client can be made come with a
download, and so do the responses. A download that fails takes no more responses. A
`CookieJar` that the caller passes is one of `given`; the parameters that
`send_kwargs` passes on have no cookies.
-/

namespace Netspy

/-- A client library: it sends what the jar of a client holds, and stores what a
response sets there. What is asked is a `τ` (a URL, a moment), a response a `ρ`. -/
structure CookieLibrary (γ τ ρ : Type) where
  name : γ → String
  value : γ → Option String
  /-- The jar made from a dict, for a request to this URL. -/
  ofDict : String → List (String × String) → List γ
  store : List γ → τ → ρ → List γ
  send : List γ → τ → List γ
  /-- The names and values that a response sets. -/
  setBy : τ → ρ → List (String × Option String)
  ofDict_mem : ∀ {url d c}, c ∈ ofDict url d → ∃ kv ∈ d, name c = kv.1 ∧ value c = some kv.2
  store_mem : ∀ {jar t r c}, c ∈ store jar t r → c ∈ jar ∨ (name c, value c) ∈ setBy t r
  send_mem : ∀ {jar t c}, c ∈ send jar t → c ∈ jar

/-- `requests_kwargs.get("cookies")`. -/
inductive CookiesArg where
  | none
  | dict (d : List (String × String))
  | jar (n : Nat)
  deriving Repr, DecidableEq

/-- What a downloader reads of a `Request`. -/
structure CookieRequest where
  url : String
  verify : Option Verify := none
  cookies : CookiesArg := .none
  /-- Whether it is a GET without a body. -/
  renderable : Bool := true
  deriving Repr, DecidableEq

/-- Whether a request carries cookies in a dict. -/
def CookieRequest.carries (r : CookieRequest) : Bool :=
  match r.cookies with
  | .dict d => !d.isEmpty
  | _ => false

inductive JarRef where
  /-- Made by a downloader. -/
  | cached (n : Nat)
  /-- Passed by the caller. -/
  | given (n : Nat)
  deriving Repr, DecidableEq

inductive JarUse (γ : Type) where
  | shared (jar : JarRef)
  | own (jar : List γ)
  deriving Repr, DecidableEq

/-- What a download finds when it starts. -/
structure Circumstances where
  thread : Nat := 0
  /-- What `pick_proxy` returned. -/
  proxy : Option String := none
  launches : Bool := true
  builds : Bool := true
  deriving Repr, DecidableEq

variable {γ τ ρ : Type} (lib : CookieLibrary γ τ ρ)

namespace CookiesArg

/-- `bool(cookies)`. -/
def truthy (given : Nat → List γ) : CookiesArg → Bool
  | none => false
  | dict d => !d.isEmpty
  | jar n => !(given n).isEmpty

/-- `_make_client`, `_make_session`, as far as the jar goes. -/
def makeClient (url : String) : CookiesArg → JarUse γ
  | none => .own []
  | dict d => .own (lib.ofDict url d)
  | jar n => .shared (.given n)

/-- `d[k] = v`. -/
def setItem (d : List (String × String)) (k v : String) : List (String × String) :=
  if (d.lookup k).isSome then d.map fun kv => if kv.1 = k then (k, v) else kv else d ++ [(k, v)]

/-- The cookies of `_render_inputs`. -/
def renderInputs (given : Nat → List γ) : CookiesArg → List (String × String)
  | none => []
  | dict d => d
  | jar n => (given n).foldl (fun d c => match lib.value c with
      | some v => setItem d (lib.name c) v
      | Option.none => d) []

end CookiesArg

/-! ## `_httpx.py`, `_curl.py` -/

/-- A `HttpxDownloader`, or a `CurlDownloader`. -/
structure SessionCookies where
  verify : Verify := .bool true
  useSession : Bool := false
  caches : SessionJars

/-- `_client_for`, `_session_for`. -/
def SessionCookies.clientFor (d : SessionCookies) (r : CookieRequest) (given : Nat → List γ) (how : Circumstances) :
    Option (JarUse γ) × SessionCookies :=
  let verify := r.verify.getD d.verify
  if d.useSession && !r.cookies.truthy given && decide (verify = d.verify) then
    let (client, caches) := d.caches.sessionClient ⟨how.proxy, how.thread, how.builds⟩
    (client.map fun n => .shared (.cached n), { d with caches })
  else (if how.builds then some (r.cookies.makeClient lib r.url) else none, d)

/-! ## `_async_httpx.py` -/

namespace AsyncJars

/-- `_client_for_proxy`: the jar of the client, if it is cached or can be made. -/
def proxyClient (d : AsyncJars) (thread : Nat) (proxy : String) (builds : Bool) : Option Nat × AsyncJars :=
  let i := shardIndex thread d.loops
  let (jar, d) := d.jarFor (some proxy)
  if builds || ((d.proxied i).lookup proxy).isSome then
    let (client, _, proxied) := (d.proxied i).getOrCreate proxy jar d.capacity
    (some client, { d with proxied := Function.update d.proxied i proxied })
  else (none, d)

theorem proxyClient_builds (d : AsyncJars) (thread : Nat) (proxy : String) :
    (d.proxyClient thread proxy true).2 = d.clientForProxy (thread, proxy) := rfl

/-- `_download`, up to its client. -/
def clientFor (d : AsyncJars) (r : CookieRequest) (given : Nat → List γ) (how : Circumstances) :
    Option (JarUse γ) × AsyncJars :=
  if r.cookies.truthy given then (if how.builds then some (r.cookies.makeClient lib r.url) else none, d)
  else
    match how.proxy with
    | some proxy =>
      let (client, d) := d.proxyClient how.thread proxy how.builds
      (client.map fun n => .shared (.cached n), d)
    | none => ((d.defaults (shardIndex how.thread d.loops)).map fun n => .shared (.cached n), d)

end AsyncJars

/-! ## `_playwright.py` -/

/-- The contexts of a `_RenderWorker` without `user_data_dir`, each with its jar. -/
structure RenderContexts where
  /-- `WEBDRIVER["proxy"]`. -/
  defaultProxy : Option String := none
  /-- `SESSION_CACHE_SIZE`. -/
  capacity : Nat
  context : Option Nat := none
  proxied : ProxyClientCache String Nat := []
  made : Nat := 0

namespace RenderContexts

/-- `_ensure_browser`: whether there is a browser, with the default context. -/
def ensureBrowser (w : RenderContexts) (launches : Bool) : Bool × RenderContexts :=
  match w.context with
  | some _ => (true, w)
  | none => if launches then (true, { w with context := some w.made, made := w.made + 1 }) else (false, w)

/-- `_context_for`, with a browser. -/
def contextFor (w : RenderContexts) (proxy : Option String) (builds : Bool) : Option Nat × RenderContexts :=
  match proxy with
  | none => (w.context, w)
  | some p =>
    if proxy = w.defaultProxy then (w.context, w)
    else if builds || (w.proxied.lookup p).isSome then
      let (context, _, proxied) := w.proxied.getOrCreate p w.made w.capacity
      (some context, { w with proxied, made := w.made + 1 })
    else (none, w)

/-- `_render`, up to its context. -/
def render (w : RenderContexts) (r : CookieRequest) (given : Nat → List γ) (how : Circumstances) :
    Option (JarUse γ) × RenderContexts :=
  let (up, w) := w.ensureBrowser how.launches
  if !(up && r.renderable) then (none, w)
  else
    let cookies := r.cookies.renderInputs lib given
    if !cookies.isEmpty then (if how.builds then some (.own (lib.ofDict r.url cookies)) else none, w)
    else
      let (context, w) := w.contextFor how.proxy how.builds
      (context.map fun n => .shared (.cached n), w)

end RenderContexts

/-! ## Downloads -/

inductive DownloadState (γ : Type) where
  | waiting
  | running (use : JarUse γ)
  | over
  deriving Repr, DecidableEq

/-- The state of a downloader: its caches, the jars, and its downloads, which are
numbered. -/
structure CookieWorld (σ γ : Type) where
  clients : σ
  cached : Nat → List γ := fun _ => []
  given : Nat → List γ := fun _ => []
  downloads : Nat → DownloadState γ := fun _ => .waiting

/-- The function of a downloader that chooses the client of a request. -/
abbrev ClientChoice (σ γ : Type) := σ → CookieRequest → (Nat → List γ) → Circumstances → Option (JarUse γ) × σ

inductive DownloadEvent (τ ρ : Type) where
  | start (how : Circumstances)
  | exchange (target : τ) (response : ρ)
  | finish

namespace CookieWorld

variable {σ : Type}

/-- What a client sends from. -/
def jarOf (s : CookieWorld σ γ) : JarUse γ → List γ
  | .shared (.cached n) => s.cached n
  | .shared (.given n) => s.given n
  | .own jar => jar

def setDownload (s : CookieWorld σ γ) (i : Nat) (state : DownloadState γ) : CookieWorld σ γ :=
  { s with downloads := Function.update s.downloads i state }

/-- The jar of the client of download `i` is now this. -/
def setJar (s : CookieWorld σ γ) (i : Nat) (jar : List γ) : JarUse γ → CookieWorld σ γ
  | .shared (.cached n) => { s with cached := Function.update s.cached n jar }
  | .shared (.given n) => { s with given := Function.update s.given n jar }
  | .own _ => s.setDownload i (.running (.own jar))

variable (choose : ClientChoice σ γ) (requests : Nat → CookieRequest)

def step (s : CookieWorld σ γ) : Nat × DownloadEvent τ ρ → Option (CookieWorld σ γ)
  | (i, .start how) =>
    match s.downloads i with
    | .waiting =>
      match choose s.clients (requests i) s.given how with
      | (some use, clients) => some ({ s with clients }.setDownload i (.running use))
      | (none, clients) => some ({ s with clients }.setDownload i .over)
    | _ => none
  | (i, .exchange target response) =>
    match s.downloads i with
    | .running use => some (s.setJar i (lib.store (s.jarOf use) target response) use)
    | _ => none
  | (i, .finish) =>
    match s.downloads i with
    | .running _ => some (s.setDownload i .over)
    | _ => none

/-- The cookies that are sent at a step. -/
def sent (s : CookieWorld σ γ) : Nat × DownloadEvent τ ρ → List γ
  | (i, .exchange target _) =>
    match s.downloads i with
    | .running use => lib.send (s.jarOf use) target
    | _ => []
  | _ => []

/-- A downloader whose caches start as `init`; the caller's jars may hold anything. -/
def machine (init : σ) : Machine (CookieWorld σ γ) (Nat × DownloadEvent τ ρ) where
  start s := s.clients = init ∧ (∀ n, s.cached n = []) ∧ ∀ i, s.downloads i = .waiting
  step := step lib choose requests

end CookieWorld

end Netspy
