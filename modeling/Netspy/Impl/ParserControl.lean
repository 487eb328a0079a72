import Netspy.Impl.Status

/-!
# `core/parser_control.py` and `network/middleware.py`

What a worker does with a request that it took. Requests are objects that the
hooks of the user may change, so a request is a `Ref`, its identity, and a
`Heap` has what each object holds. The hooks, the download and the buffers'
answers are the fields of an `Env`; what the worker does to the rest of the
program is a list of `Effect`s. The texts of the log lines are left out.
-/

namespace Netspy

/-- `id(request)`. -/
abbrev Ref := Nat

abbrev Heap := Ref → Request

/-- What a callback may yield. -/
inductive Yield where
  | request (q : Ref)
  | call (fn : Heap → Except Exn Unit × Heap)
  | item (obj : Obj)

/-- What a callback yields, and what it raises after that. -/
structure Results where
  yields : List Yield
  raised : Option Exn := none

/-- What `process_request` of a middleware returns. -/
inductive MwOut where
  | none
  | response (r : Response)
  | request (q : Ref)

structure Middleware where
  processRequest : Option (Ref → Heap → Except Exn MwOut × Heap) := none
  processResponse : Option (Ref → Response → Heap → Except Exn (Response ⊕ Ref) × Heap) := none

abbrev Callback.Fn := Ref → Option Response → Heap → Except Exn (Option Results) × Heap

structure Env where
  middlewares : List Middleware := []
  downloadMidware : Ref → Heap → Except Exn (Option Ref) × Heap := fun _ h => (.ok none, h)
  robotsAllowed : String → Except Exn Bool := fun _ => .ok true
  download : Ref → Heap → Except Exn Response × Heap
  validate : Ref → Response → Heap → Except Exn (Option Bool) × Heap := fun _ _ h => (.ok (some true), h)
  parse : Callback.Fn
  /-- A callback of the parser that a request names. -/
  method : String → Option Callback.Fn := fun _ => none
  /-- The callable that a request holds as its callback. -/
  callable : Ref → Callback.Fn := fun _ _ _ h => (.ok none, h)
  failedRequest : Callback.Fn := fun _ _ h => (.ok none, h)
  /-- `exception_request`, whose exceptions are logged. -/
  exceptionRequest : Ref → Option Response → Exn → Heap → Heap := fun _ _ _ h => h
  failedSink : Bool := true
  /-- `isinstance(exc, cls)`. -/
  isinstance : Exn → String → Bool := fun e cls => e == cls
  /-- `exc.status_code` of an `HttpStatusError`. -/
  statusOf : Exn → Nat := fun _ => 0
  /-- What `status.py` uses. -/
  header : HeaderLib := { strip := id, float := fun _ => none, parsedate := fun _ => .ok none }
  /-- `time.time()`, call by call, and `random.uniform(0.5, 1.0)`. -/
  clock : Nat → ℚ := fun _ => 0
  uniform : ℚ := 1
  /-- `time.sleep`, `throttle.penalize` and the calls of the breaker. -/
  sleep : PyFloat → Except Exn Unit := fun _ => .ok ()
  penalize : String → PyFloat → Except Exn Unit := fun _ _ => .ok ()
  recordFailure : String → Except Exn Unit := fun _ => .ok ()
  recordSuccess : String → Except Exn Unit := fun _ => .ok ()
  /-- `request_buffer.put` and `item_buffer.put`, after so many effects. -/
  requestPut : Nat → Except Exn Unit := fun _ => .ok ()
  itemPut : Nat → Except Exn Unit := fun _ => .ok ()

inductive Effect where
  | stat (key : String)
  /-- `request_buffer.put`. -/
  | put (q : Ref)
  | putRetry (q : Ref)
  /-- `item_buffer.put`, and whether it returned. -/
  | putItem (obj : Obj) (owner : Ref) (returned : Bool)
  | penalize (url : String) (cooldown : PyFloat)
  | recordFailure (url : String)
  | recordSuccess (url : String)
  | sleep (delay : PyFloat)
  | failedSink (q : Ref)

/-- The heap, what the worker has done so far, how often it has read the clock, and its
`_deferred`. -/
structure Job where
  heap : Heap
  effects : List Effect := []
  reads : Nat := 0
  deferred : Bool := false

namespace Job

def emit (j : Job) (e : Effect) : Job := { j with effects := j.effects ++ [e] }

def setHeap (j : Job) (h : Heap) : Job := { j with heap := h }

def read (j : Job) : Job := { j with reads := j.reads + 1 }

@[simp] theorem emit_effects (j : Job) (e : Effect) : (j.emit e).effects = j.effects ++ [e] := rfl

@[simp] theorem emit_deferred (j : Job) (e : Effect) : (j.emit e).deferred = j.deferred := rfl

@[simp] theorem setHeap_effects (j : Job) (h : Heap) : (j.setHeap h).effects = j.effects := rfl

@[simp] theorem setHeap_deferred (j : Job) (h : Heap) : (j.setHeap h).deferred = j.deferred := rfl

@[simp] theorem read_heap (j : Job) : j.read.heap = j.heap := rfl

@[simp] theorem read_effects (j : Job) : j.read.effects = j.effects := rfl

@[simp] theorem read_deferred (j : Job) : j.read.deferred = j.deferred := rfl

end Job

/-! ## `MiddlewareManager` -/

namespace Middleware

def processRequests : List Middleware → Ref → Heap → Except Exn (Ref ⊕ Response) × Heap
  | [], q, h => (.ok (.inl q), h)
  | mw :: rest, q, h =>
    match mw.processRequest with
    | none => processRequests rest q h
    | some handler =>
      match handler q h with
      | (.error e, h) => (.error e, h)
      | (.ok .none, h) => processRequests rest q h
      | (.ok (.response r), h) => (.ok (.inr r), h)
      | (.ok (.request q'), h) => processRequests rest q' h

/-- `process_response`, given the middlewares in reverse. -/
def processResponses : List Middleware → Ref → Response → Heap → Except Exn (Response ⊕ Ref) × Heap
  | [], _, r, h => (.ok (.inl r), h)
  | mw :: rest, q, r, h =>
    match mw.processResponse with
    | none => processResponses rest q r h
    | some handler =>
      match handler q r h with
      | (.error e, h) => (.error e, h)
      | (.ok (.inr q'), h) => (.ok (.inr q'), h)
      | (.ok (.inl r'), h) => processResponses rest q r' h

end Middleware

/-! ## `circuit.py` -/

variable (st : Setting) (env : Env)

def unhealthyCodes : List Nat := [429, 500, 502, 503, 504]

def countsAsUnhealthy (exc : Option Exn) (resp : Option Response) : Bool :=
  match resp, exc with
  | some r, _ => decide (r.statusCode ∈ unhealthyCodes)
  | none, none => false
  | none, some e =>
    if env.isinstance e "HttpStatusError" then decide (env.statusOf e ∈ unhealthyCodes)
    else if env.isinstance e "ResponseTooLargeError" then false
    else if env.isinstance e "ProxyUnavailableError" then false
    else if env.isinstance e "UserUnavailableError" then false
    else env.isinstance e "RequestError"

/-! ## `ParserWorker` -/

namespace ParserWorker

/-- The loop of `_dispatch`; the generator may raise where it would yield next. -/
def dispatchLoop (raised : Option Exn) (owner : Ref) : List Yield → Job → Except Exn Unit × Job
  | [], j =>
    match raised with
    | none => (.ok (), j)
    | some e => (.error e, j)
  | .request q :: rest, j =>
    match env.requestPut j.effects.length with
    | .error e => (.error e, j.emit (.put q))
    | .ok () => dispatchLoop raised owner rest (j.emit (.put q))
  | .call fn :: rest, j =>
    match fn j.heap with
    | (.error e, h) => (.error e, j.setHeap h)
    | (.ok (), h) => dispatchLoop raised owner rest (j.setHeap h)
  | .item obj :: rest, j =>
    match env.itemPut j.effects.length with
    | .error e => (.error e, j.emit (.putItem obj owner false))
    | .ok () => dispatchLoop raised owner rest { j.emit (.putItem obj owner true) with deferred := true }

def dispatch (results : Option Results) (owner : Ref) (j : Job) : Except Exn Unit × Job :=
  match results with
  | none => (.ok (), j)
  | some rs => dispatchLoop env rs.raised owner rs.yields j

def drop (j : Job) : Job := j.emit (.stat "dropped")

/-- `_fail` from its hook on: what the hook and the sink raise is logged. -/
def handFailed (q : Ref) (resp : Option Response) (j : Job) : Job :=
  let j :=
    match env.failedRequest q resp j.heap with
    | (.error _, h) => j.setHeap h
    | (.ok results, h) => (dispatch env results q (j.setHeap h)).2
  if env.failedSink then j.emit (.failedSink q) else j

/-- `_fail`. -/
def fail (q : Ref) (resp : Option Response) (exc : Option Exn) (j : Job) : Except Exn Unit × Job :=
  let j := j.emit (.stat "request_failed")
  if countsAsUnhealthy env exc resp then
    let url := (j.heap q).url
    let j := j.emit (.recordFailure url)
    match env.recordFailure url with
    | .error e => (.error e, j)
    | .ok () => (.ok (), handFailed env q resp j)
  else (.ok (), handFailed env q resp j)

/-- The wait of `_retry_or_fail`. -/
def pause (q : Ref) (resp : Option Response) (j : Job) : Except Exn Unit × Job :=
  match RetryAfter.retryDelay env.header st env.uniform (j.heap q).retryTimes resp (env.clock j.reads) with
  | .error e => (.error e, j.read)
  | .ok delay =>
    if (PyFloat.fin 0).lt delay then (env.sleep delay, j.read.emit (.sleep delay)) else (.ok (), j.read)

@[simp] theorem pause_heap (q : Ref) (resp : Option Response) (j : Job) : (pause st env q resp j).2.heap = j.heap := by
  unfold pause
  split
  · rfl
  · split <;> rfl

def retryOrFail (q : Ref) (resp : Option Response) (exc : Exn) (j : Job) : Except Exn Unit × Job :=
  let tooLarge := env.isinstance exc "ResponseTooLargeError"
  if tooLarge || decide (st.SPIDER_MAX_RETRY_TIMES ≤ (j.heap q).retryTimes) then fail env q resp (some exc) j
  else
    let r := j.heap q
    let j := j.setHeap (Function.update j.heap q { r with retryTimes := r.retryTimes + 1 })
    let j := j.emit (.stat "retry")
    let j := j.setHeap (env.exceptionRequest q resp exc j.heap)
    match pause st env q resp j with
    | (.error e, j) => (.error e, j)
    | (.ok (), j) =>
      let r := j.heap q
      let j := j.setHeap (Function.update j.heap q { r with filterRepeat := false })
      (env.requestPut j.effects.length, j.emit (.putRetry q))

/-- `_retry_replacement`: a middleware turned the response into the request
`q'`. -/
def retryReplacement (q q' : Ref) (resp : Response) (j : Job) : Except Exn Unit × Job :=
  if st.SPIDER_MAX_RETRY_TIMES ≤ (j.heap q).retryTimes then fail env q (some resp) none j
  else
    let r := j.heap q'
    let j := j.setHeap (Function.update j.heap q'
      { r with retryTimes := (j.heap q).retryTimes + 1, filterRepeat := false })
    let j := j.emit (.stat "retry")
    (env.requestPut j.effects.length, j.emit (.put q'))

/-- `if cooldown: throttle.penalize(...)`. -/
def penalize (q : Ref) (cooldown : Option PyFloat) (j : Job) : Except Exn Unit × Job :=
  match cooldown with
  | none => (.ok (), j)
  | some s =>
    if s.truthy then
      let seconds := s.pyMin (.fin (RetryAfter.retryAfterMax st))
      (env.penalize (j.heap q).url seconds, j.emit (.penalize (j.heap q).url seconds))
    else (.ok (), j)

/-- `_check_status`: whether the response may go on to the callback. -/
def checkStatus (q : Ref) (resp : Response) (j : Job) : Except Exn Bool × Job :=
  match classify st resp with
  | .ok => (.ok true, j)
  | .retry =>
    match RetryAfter.retryAfterSeconds env.header st (some resp) (env.clock j.reads) with
    | .error e => (.error e, j.read)
    | .ok cooldown =>
      match penalize st env q cooldown j.read with
      | (.error e, j) => (.error e, j)
      | (.ok (), j) =>
        match RetryAfter.retryAfterTooLong env.header st (some resp) (env.clock j.reads) with
        | .error e => (.error e, j.read)
        | .ok (some _) =>
          let (res, j) := fail env q (some resp) (some "HttpStatusError") j.read
          (res.map fun _ => false, j)
        | .ok none =>
          let (res, j) := retryOrFail st env q (some resp) "HttpStatusError" j.read
          (res.map fun _ => false, j)
  | .fail =>
    let (res, j) := fail env q (some resp) (some "HttpStatusError") j
    (res.map fun _ => false, j)

def validate (q : Ref) (resp : Response) (j : Job) : Except Exn Bool × Job :=
  match env.validate q resp j.heap with
  | (.error e, h) =>
    let j := j.setHeap h
    if env.isinstance e "ValidationError" then
      let (res, j) := retryOrFail st env q (some resp) e j
      (res.map fun _ => false, j)
    else if env.isinstance e "NotRetryError" then (.ok false, drop j)
    else (.error e, j)
  | (.ok ok, h) =>
    let j := j.setHeap h
    if ok = some false then (.ok false, drop j) else (.ok true, j)

def resolveCallback (q : Ref) (h : Heap) : Except Exn Callback.Fn :=
  match (h q).callback with
  | none => .ok env.parse
  | some (.callable _) => .ok (env.callable q)
  | some (.name s) =>
    match env.method s with
    | some fn => .ok fn
    | none => .error "SpiderError"

/-- `self._dispatch(callback(request, response, **request.cb_kwargs), request)`. -/
def invoke (callback : Callback.Fn) (q : Ref) (resp : Option Response) (j : Job) :
    Except Exn Unit × Job :=
  match callback q resp j.heap with
  | (.error e, h) => (.error e, j.setHeap h)
  | (.ok results, h) => dispatch env results q (j.setHeap h)

/-- `_process` from the callback on. -/
def callBack (q : Ref) (resp : Option Response) (j : Job) : Except Exn Unit × Job :=
  match resolveCallback env q j.heap with
  | .error e => (.error e, j)
  | .ok callback =>
    match invoke env callback q resp j with
    | (.error e, j) =>
      if env.isinstance e "NotRetryError" then (.ok (), drop j)
      else retryOrFail st env q resp e (j.emit (.stat "parse_error"))
    | (.ok (), j) =>
      let j := j.emit (.stat "request_ok")
      (env.recordSuccess (j.heap q).url, j.emit (.recordSuccess (j.heap q).url))

/-- `_process` once there is a response, or none is wanted. -/
def handleResponse (q : Ref) (resp : Option Response) (j : Job) : Except Exn Unit × Job :=
  match resp with
  | none => callBack st env q none j
  | some r =>
    match Middleware.processResponses env.middlewares.reverse q r j.heap with
    | (.error e, h) => (.error e, j.setHeap h)
    | (.ok (.inr q'), h) => retryReplacement st env q q' r (j.setHeap h)
    | (.ok (.inl r), h) =>
      match checkStatus st env q r (j.setHeap h) with
      | (.error e, j) => (.error e, j)
      | (.ok false, j) => (.ok (), j)
      | (.ok true, j) =>
        match validate st env q r j with
        | (.error e, j) => (.error e, j)
        | (.ok false, j) => (.ok (), j)
        | (.ok true, j) => callBack st env q (some r) j

/-- `_process` after the hooks: robots.txt and the download. -/
def fetch (q : Ref) (resp : Option Response) (j : Job) : Except Exn Unit × Job :=
  if resp.isSome || !(j.heap q).autoRequest then handleResponse st env q resp j
  else
    match env.robotsAllowed (j.heap q).url with
    | .error e => (.error e, j)
    | .ok false => (.ok (), drop (j.emit (.stat "robots_dropped")))
    | .ok true =>
      match env.download q j.heap with
      | (.ok r, h) => handleResponse st env q (some r) (j.setHeap h)
      | (.error e, h) =>
        let j := j.setHeap h
        if env.isinstance e "ContentTypeRejectedError" then
          (.ok (), drop (j.emit (.stat "content_type_dropped")))
        else if env.isinstance e "RequestError" then retryOrFail st env q none e j
        else (.error e, j)

/-- `_process`: `request` is rebound to what the hooks return. -/
def process (q : Ref) (j : Job) : Except Exn Unit × Job :=
  match Middleware.processRequests env.middlewares q j.heap with
  | (.error e, h) => retryOrFail st env q none e (j.setHeap h)
  | (.ok out, h) =>
    let (q, resp) : Ref × Option Response :=
      match out with
      | .inl q' => (q', none)
      | .inr r => (q, some r)
    match env.downloadMidware q h with
    | (.error e, h) => retryOrFail st env q none e (j.setHeap h)
    | (.ok replaced, h) => fetch st env (replaced.getD q) resp (j.setHeap h)

/-- The body of the loop of `run` on the request it took: what it did, and
whether it acknowledged the request itself. -/
def work (taken : Ref) (h : Heap) : Job × Bool :=
  let (_, j) := process st env taken { heap := h }
  (j, !j.deferred)

end ParserWorker

/-! ## The collector and the item buffer of a node -/

/-- As `BaseScheduler` wires them: the `ack` of the item buffer is the
collector's `done`. -/
structure Node where
  collector : Collector Ref
  items : ItemBuffer Ref Unit
  /-- The requests that `Collector.done` was called for. -/
  doneCalls : List Ref := []

/-- What happens to them: an effect of the worker, its call of `done`, or a
flush of any thread. -/
inductive Act where
  | effect (e : Effect)
  | done (q : Ref)
  | flush (out : Turnout)

namespace Node

def done (n : Node) (q : Ref) : Node :=
  { n with collector := n.collector.done q, doneCalls := n.doneCalls ++ [q] }

def act (lib : Stdlib) (st : Setting) (n : Node) : Act → Node
  | .effect (.putItem obj owner _) => { n with items := (n.items.put st obj (some owner)).2 }
  | .effect _ => n
  | .done q => n.done q
  | .flush out =>
    let (f, items) := n.items.flush lib st out
    f.acked.foldl done { n with items }

def acts (lib : Stdlib) (st : Setting) (n : Node) (as : List Act) : Node := as.foldl (act lib st) n

end Node

/-- What the worker does with the request it took. -/
def workActs (st : Setting) (env : Env) (taken : Ref) (h : Heap) : List Act :=
  let (j, acks) := ParserWorker.work st env taken h
  j.effects.map .effect ++ if acks then [.done taken] else []

end Netspy
