import Netspy.Impl.UserPoolMiddleware

/-!
# The cookies of a request that is tried again

The attempts at one request, with the `UserPoolMiddleware` before and after each: the
request goes on as the same object, as the copy that `process_response` makes, or as what
`from_dict` makes of its JSON on another node. What `_wait_for_user` returns is part of
the action, and so is what the middleware finds of the response. A report that raises
leaves the request as one that works, and is not told from it.

`sent` and `reports` record what happened. No step depends on them, but a response comes
after an attempt was sent.
-/

namespace Netspy

/-! ## Copies -/

/-- The key of a JSON object that `dumps` writes. -/
def jsonKey : PyVal → Except Exn String
  | .str s => .ok s
  | .int i => .ok (toString i)
  | .float text => .ok text
  | .bool true => .ok "true"
  | .bool false => .ok "false"
  | .none => .ok "null"
  | _ => .error "TypeError"

mutual

/-- `loads_json(dumps_json(value))`; `str` is what `default=str` makes of other values. -/
def reloaded (str : PyVal → String) : PyVal → Except Exn PyVal
  | .list xs => do return .list (← reloadedList str xs)
  | .dict kvs => do return .dict ((← reloadedPairs str kvs).foldl (fun d kv => PyVal.setItem d kv.1 kv.2) [])
  | .callable name => .ok (.str (str (.callable name)))
  | .obj text => .ok (.str (str (.obj text)))
  | v => .ok v

def reloadedList (str : PyVal → String) : List PyVal → Except Exn (List PyVal)
  | [] => .ok []
  | x :: xs => do return (← reloaded str x) :: (← reloadedList str xs)

def reloadedPairs (str : PyVal → String) : List (PyVal × PyVal) → Except Exn (List (PyVal × PyVal))
  | [] => .ok []
  | (k, v) :: kvs => do return (.str (← jsonKey k), ← reloaded str v) :: (← reloadedPairs str kvs)

end

namespace DecodedRequest

def callbackName (r : DecodedRequest) : PyVal :=
  match r.callback with
  | .str s => .str s
  | .callable name => .str name
  | _ => .none

/-- `to_dict`. -/
def toDict (r : DecodedRequest) : Dict :=
  [("url", r.url), ("method", .str r.method), ("callback", r.callbackName), ("priority", r.priority),
    ("retry_times", r.retryTimes), ("filter_repeat", r.filterRepeat), ("auto_request", r.autoRequest),
    ("use_session", r.useSession), ("random_user_agent", r.randomUserAgent), ("impersonate", r.impersonate),
    ("render", r.render), ("render_time", r.renderTime), ("wait_for", r.waitFor),
    ("download_midware", r.downloadMidware), ("parser_name", r.parserName), ("cb_kwargs", r.cbKwargs),
    ("requests_kwargs", Request.ofDict r.requestsKwargs), ("custom", Request.ofDict r.custom)]

/-- `copy`. -/
def copy (upper : String → String) (r : DecodedRequest) : Except Exn DecodedRequest := do
  let new ← fromDict upper (Request.ofDict r.toDict)
  return if r.callback.isCallable then { new with callback := r.callback } else new

/-- To the queue as JSON, and back. -/
def requeued (str : PyVal → String) (upper : String → String) (r : DecodedRequest) : Except Exn DecodedRequest := do
  fromDict upper (← reloaded str (Request.ofDict r.toDict))

end DecodedRequest

/-! ## The middleware -/

namespace UserPoolMiddleware

/-- `_base_cookies` of a request with these two dicts: the cookies, and its `custom`. -/
def baseOf (requestsKwargs custom : Dict) : Except Exn (List (PyVal × PyVal) × Dict) := do
  match custom.get baseCookiesKey with
  | .none =>
    let cookies := requestsKwargs.get "cookies"
    let base ← dictOf (if cookies.truthy then cookies else .dict [])
    return (base, setKey custom baseCookiesKey (.dict base))
  | base => return (← dictOf base, custom)

/-- What `_set_cookies` makes of `requests_kwargs`. -/
def withCookies (requestsKwargs : Dict) (cookies : List (PyVal × PyVal)) : Dict :=
  if cookies = [] then requestsKwargs.filter fun kv => kv.1 ≠ "cookies"
  else setKey requestsKwargs "cookies" (.dict cookies)

theorem baseCookies_eq (r : Request) :
    baseCookies r = (baseOf r.requestsKwargs r.custom).map fun (base, custom) => (base, { r with custom }) := by
  unfold baseCookies baseOf
  generalize r.custom.get baseCookiesKey = base
  generalize r.requestsKwargs.get "cookies" = cookies
  cases base with
  | none =>
    dsimp only
    generalize dictOf (if cookies.truthy then cookies else .dict []) = made
    cases made with
    | error e => rfl
    | ok base => rfl
  | _ =>
    dsimp only
    generalize dictOf _ = made
    cases made with
    | error e => rfl
    | ok base => rfl

theorem setCookies_eq (r : Request) (cookies : List (PyVal × PyVal)) :
    setCookies r cookies = { r with requestsKwargs := withCookies r.requestsKwargs cookies } := rfl

end UserPoolMiddleware

open UserPoolMiddleware

/-! ## Attempts -/

def PyVal.isScalar : PyVal → Bool
  | .none | .bool _ | .int _ | .float _ | .str _ => true
  | _ => false

/-- A dict of cookies. -/
structure Cookies where
  items : Dict
  nodup : (items.map Prod.fst).Nodup
  scalar : ∀ kv ∈ items, kv.2.isScalar

/-- The dict as a value. -/
def Cookies.entries (c : Cookies) : List (PyVal × PyVal) := c.items.map fun kv => (.str kv.1, kv.2)

/-- The cookies with those of an account over them. -/
def Cookies.overlaid (c : Cookies) : Option User → List (PyVal × PyVal)
  | some { cookies := .dict kvs, .. } => kvs.foldl (fun d kv => PyVal.setItem d kv.1 kv.2) c.entries
  | _ => c.entries

/-- The value of a `cookies` argument that stands for these cookies. -/
def Cookies.Given (c : Cookies) (v : PyVal) : Prop := if v.truthy then v = .dict c.entries else c.items = []

structure Attempts where
  request : DecodedRequest
  /-- `request.__dict__["_user"]`. -/
  user : Option User := none
  /-- The account of the attempt, once `process_request` has returned. -/
  sent : Option (Option User) := none
  /-- The accounts that were reported, each with that of the attempt. -/
  reports : List (User × Option User) := []

inductive AttemptAct where
  | processRequest (account : Option User)
  | processResponse (loggedIn : Bool)
  /-- The same object is tried again; other hooks may have changed it. -/
  | retry (r : DecodedRequest)
  | requeue

namespace Attempts

/-- The two keys are as they were, in dicts. -/
def LeavesCookies (r r' : DecodedRequest) : Prop :=
  ((r'.requestsKwargs.map Prod.fst).Nodup ∧ (r'.custom.map Prod.fst).Nodup) ∧
    ∀ key ∈ ["cookies", baseCookiesKey],
      r'.requestsKwargs.lookup key = r.requestsKwargs.lookup key ∧ r'.custom.lookup key = r.custom.lookup key

instance (r r' : DecodedRequest) : Decidable (LeavesCookies r r') := inferInstanceAs (Decidable (_ ∧ _))

variable (st : Setting) (str : PyVal → String) (upper : String → String)

/-- `process_request`. -/
def processRequest (s : Attempts) (account : Option User) : Attempts :=
  match baseOf s.request.requestsKwargs s.request.custom with
  | .error _ => { s with sent := none }
  | .ok (base, custom) =>
    let s := { s with request := { s.request with custom }, user := none, sent := none }
    match account with
    | none =>
      if st.USER_POOL_ALLOW_ANONYMOUS then
        { s with
          request := { s.request with requestsKwargs := withCookies s.request.requestsKwargs base }
          sent := some none }
      else s
    | some user =>
      match merged base user.cookies with
      | .error _ => s
      | .ok cookies =>
        { s with
          request := { s.request with requestsKwargs := withCookies s.request.requestsKwargs cookies }
          user := some user
          sent := some (some user) }

/-- The request that `process_response` makes after `check_login` failed. -/
def loginRetry (r : DecodedRequest) : Except Exn DecodedRequest := do
  let retry ← r.copy upper
  let (base, custom) ← baseOf retry.requestsKwargs retry.custom
  return { retry with
    custom, requestsKwargs := withCookies retry.requestsKwargs base, filterRepeat := .bool false }

/-- `process_response`, in an attempt with this account. -/
def processResponse (s : Attempts) (account : Option User) (loggedIn : Bool) : Attempts :=
  let s := { s with reports := s.reports ++ s.user.toList.map (·, account), sent := none }
  if loggedIn then s
  else
    match loginRetry upper s.request with
    | .error _ => s
    | .ok request => { s with request, user := none }

def step (s : Attempts) : AttemptAct → Option Attempts
  | .processRequest account => some (s.processRequest st account)
  | .processResponse loggedIn => s.sent.map fun account => s.processResponse upper account loggedIn
  | .retry r => if LeavesCookies s.request r then some { s with request := r, sent := none } else none
  | .requeue => (s.request.requeued str upper).toOption.map fun request => { s with request, user := none, sent := none }

/-- The runs from a request that was made with these cookies. -/
def machine (c : Cookies) : Machine Attempts AttemptAct where
  start s :=
    ∃ url method keywords,
      DecodedRequest.init upper url method keywords = .ok s.request ∧ c.Given (keywords.get "cookies") ∧
        keywords.lookup baseCookiesKey = none ∧ s = { request := s.request }
  step := step st str upper

end Attempts

end Netspy
