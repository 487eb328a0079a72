import Netspy.Framework.Fallible
import Netspy.Framework.Machine
import Netspy.Impl.Request
import Netspy.Impl.Setting

/-!
# The browser of a render worker

`_RenderWorker` of `network/downloader/_playwright.py`, with the engines, browsers and
contexts that it starts, each known by a number. In each job every call to the engine may
raise; it is told by the place in the source that it is made at. What a context is made
with is left out.

`started`, `closed`, `prepared`, `pages` and `readUnset` record what happened. No step
depends on them.
-/

namespace Netspy

namespace RenderBrowser

/-- A place at which the engine is called. `extra` is whether a context is prepared by
`_new_context`. `work` stands for all calls between `new_page` and `page.close`. -/
inductive Site where
  | importEngine
  | start
  | browserType
  | launch
  | launchPersistent
  | newDefault
  | route (extra : Bool)
  | script (extra : Bool)
  | newExtra
  | addCookies
  | newPage
  | work
  | pageClose
  | close
  deriving Repr, DecidableEq

/-- `WEBDRIVER`, as far as it matters here. -/
structure Config where
  loadImages : Bool := false
  stealth : Bool := true
  userDataDir : Bool := false
  proxy : Option String := none
  deriving Repr, DecidableEq

/-- A job, and which calls raise while it is done. -/
structure Job where
  proxy : Option String := none
  cookies : Bool := false
  /-- Whether `_render_inputs` accepts the request. -/
  renderable : Bool := true
  raises : Site → Bool := fun _ => false

/-- The fields of the worker. `ctxKwargs` is whether `_ctx_kwargs` is set. -/
structure Worker where
  engine : Option Nat := none
  browser : Option Nat := none
  context : Option Nat := none
  ctxKwargs : Bool := false
  /-- The least recently used first. -/
  proxyContexts : List (String × Nat) := []
  /-- How many objects were started; they are numbered. -/
  made : Nat := 0
  started : List Nat := []
  closed : List Nat := []
  /-- The contexts for which `_prepare_context` has completed. -/
  prepared : List Nat := []
  /-- The contexts in which pages were opened. -/
  pages : List Nat := []
  /-- `_ctx_kwargs` was read before it was set. -/
  readUnset : Bool := false
  deriving Repr, DecidableEq

abbrev Render := Fallible Worker Exn

variable (st : Setting) (cfg : Config) (raises : Site → Bool)

def call (site : Site) : Render Unit := if raises site then throw "Error" else pure ()

/-- A call that starts an engine, a browser or a context. -/
def launch (site : Site) : Render Nat := do
  call raises site
  modifyGet fun w => (w.made, { w with made := w.made + 1, started := w.started ++ [w.made] })

/-- `close()` or `stop()`, whether it raises or not. -/
def close (obj : Nat) : Render Unit := do
  modify fun w => { w with closed := w.closed ++ [obj] }
  call raises .close

/-- `close()` of some, whose exceptions are logged. -/
def closeAll : List Nat → Render Unit
  | [] => pure ()
  | obj :: objs => do
    tryCatch (close raises obj) fun _ => pure ()
    closeAll objs

def prepareContext (extra : Bool) (context : Nat) : Render Unit := do
  if !cfg.loadImages then call raises (.route extra) else pure ()
  if cfg.stealth then call raises (.script extra) else pure ()
  modify fun w => { w with prepared := w.prepared ++ [context] }

/-- `_ensure_browser` from `sync_playwright().start()` on. -/
def startBrowser : Render Unit := do
  call raises .importEngine
  let pw ← launch raises .start
  modify fun w => { w with engine := some pw }
  call raises .browserType
  let context ←
    if cfg.userDataDir then launch raises .launchPersistent
    else do
      let browser ← launch raises .launch
      modify fun w => { w with browser := some browser }
      launch raises .newDefault
  modify fun w => { w with context := some context }
  modify fun w => { w with ctxKwargs := true }
  prepareContext cfg raises false context

def ensureBrowser : Render Unit := do
  let w ← get
  if w.context.isSome then pure () else startBrowser cfg raises

/-- `_new_context`; the proxy that it is made with is left out. -/
def newContext : Render Nat := do
  let w ← get
  if w.ctxKwargs then pure ()
  else do
    modify fun w => { w with readUnset := true }
    throw "AttributeError"
  -- `None` has no `new_context`
  if w.browser.isSome then pure () else throw "AttributeError"
  let context ← launch raises .newExtra
  prepareContext cfg raises true context
  return context

/-- `_context_for`. -/
def contextFor (proxy : Option String) : Render (Option Nat) := do
  let w ← get
  match proxy with
  | none => return w.context
  | some server =>
    if cfg.proxy = some server then return w.context
    else if w.browser.isNone then throw "RequestError"
    else
      match w.proxyContexts.lookup server with
      | some context =>
        set { w with proxyContexts := w.proxyContexts.erase (server, context) ++ [(server, context)] }
        return some context
      | none =>
        let context ← newContext cfg raises
        let w ← get
        let proxyContexts := w.proxyContexts ++ [(server, context)]
        let excess := proxyContexts.length - max st.SESSION_CACHE_SIZE 1
        set { w with proxyContexts := proxyContexts.drop excess }
        closeAll raises ((proxyContexts.take excess).map Prod.snd)
        return some context

/-- `_render` up to `new_page`. -/
def openPage (job : Job) (context : Nat) : Render Unit := do
  if job.cookies then call raises .addCookies else pure ()
  call raises .newPage
  modify fun w => { w with pages := w.pages ++ [context] }

/-- A context that is for this job only is closed. -/
def closeOwned (owned : Bool) (context : Nat) : Render Unit := if owned then close raises context else pure ()

/-- `_render`, in the context that it has got. -/
def renderIn (job : Job) (context : Nat) (owned : Bool) : Render Unit := do
  tryCatch (openPage raises job context) fun e => do
    closeOwned raises owned context
    throw e
  tryFinally (call raises .work) do
    call raises .pageClose
    closeOwned raises owned context

/-- `_render`. -/
def render (job : Job) : Render Unit := do
  if job.renderable then pure () else throw "RequestError"
  let w ← get
  if job.cookies && w.browser.isSome then do
    let context ← newContext cfg raises
    renderIn raises job context true
  else do
    match ← contextFor st cfg raises job.proxy with
    | some context => renderIn raises job context false
    | none => throw "AttributeError"

/-- What `run` does with a job. -/
def turn (job : Job) : Render Unit :=
  tryCatch
    (do
      ensureBrowser cfg job.raises
      render st cfg job.raises job)
    fun _ => pure ()

/-- `_teardown`, when the worker exits. -/
def teardown : Render Unit := do
  let w ← get
  set { w with proxyContexts := [] }
  closeAll raises (w.proxyContexts.map Prod.snd ++ w.context.toList ++ w.browser.toList ++ w.engine.toList)
  modify fun w => { w with context := none, browser := none, engine := none }

def machine : Machine Worker Job where
  start w := w = {}
  step w job := some (turn st cfg job w).2

/-- Whether `_prepare_context` completes. -/
def prepares (extra : Bool) : Bool := (cfg.loadImages || !raises (.route extra)) && (!cfg.stealth || !raises (.script extra))

/-- Whether a browser can be started. -/
def starts : Bool :=
  !raises .importEngine && !raises .start && !raises .browserType &&
    (if cfg.userDataDir then !raises .launchPersistent else !raises .launch && !raises .newDefault) &&
    prepares cfg raises false

/-- Whether a page can be opened for the job in a context. -/
def opens (job : Job) : Bool := (!job.cookies || !job.raises .addCookies) && !job.raises .newPage

/-- An engine is started though there is one, since there is no context. -/
def Restarts (w : Worker) (job : Job) : Prop :=
  w.context = none ∧ w.engine.isSome ∧ job.raises .importEngine = false ∧ job.raises .start = false

/-- The default context is not prepared, and a page is opened in it. -/
def OpensUnprepared (w : Worker) (job : Job) : Prop :=
  (∃ context ∈ w.context, context ∉ w.prepared) ∧ job.renderable ∧ ¬ (job.cookies ∧ w.browser.isSome) ∧
    (job.proxy = none ∨ job.proxy = cfg.proxy) ∧ opens job

/-- A context is made for the job, or for its proxy. -/
def MakesContext (w : Worker) (job : Job) : Prop :=
  (w.context.isSome ∨ starts cfg job.raises) ∧ job.renderable ∧ cfg.userDataDir = false ∧
    (job.cookies ∨ ∃ server ∈ job.proxy, cfg.proxy ≠ some server ∧ w.proxyContexts.lookup server = none) ∧
      job.raises .newExtra = false

/-- A context that is made is not closed, as it could not be prepared, or as the page in
it could not be closed. -/
def LosesContext (w : Worker) (job : Job) : Prop :=
  MakesContext cfg w job ∧ (prepares cfg job.raises true → job.cookies ∧ opens job ∧ job.raises .pageClose)

/-- The jobs that do no harm to a worker. -/
def Clean (w : Worker) (job : Job) : Prop := ¬ Restarts w job ∧ ¬ OpensUnprepared cfg w job ∧ ¬ LosesContext cfg w job

instance (w : Worker) (job : Job) : Decidable (Restarts w job) := inferInstanceAs (Decidable (_ ∧ _ ∧ _ ∧ _))
instance (w : Worker) (job : Job) : Decidable (OpensUnprepared cfg w job) :=
  inferInstanceAs (Decidable (_ ∧ _ ∧ _ ∧ _ ∧ _))
instance (w : Worker) (job : Job) : Decidable (MakesContext cfg w job) :=
  inferInstanceAs (Decidable (_ ∧ _ ∧ _ ∧ _ ∧ _))
instance (w : Worker) (job : Job) : Decidable (LosesContext cfg w job) := inferInstanceAs (Decidable (_ ∧ _))
instance (w : Worker) (job : Job) : Decidable (Clean cfg w job) := inferInstanceAs (Decidable (_ ∧ _ ∧ _))

end RenderBrowser

end Netspy
