import Netspy.Impl.Request

/-!
# `Request.from_dict`

What a queue member decodes to. Its text may hold anything, so the values are
as JSON gives them: `Request.__init__` looks at few of them and keeps the
others as they are. Where a Python call rejects its argument, the exception is
the one it raises.
-/

namespace Netspy

/-- `_HTTP_KEYS`. -/
def httpKeys : List String :=
  ["params", "headers", "cookies", "data", "json", "content", "files", "auth", "timeout",
    "follow_redirects", "allow_redirects", "verify", "proxy", "proxies", "cert"]

/-- What a `Request` holds that was made of values of any type. -/
structure DecodedRequest where
  url : PyVal
  method : String
  callback : PyVal
  leaseToken : Option String := none
  priority : PyVal
  retryTimes : PyVal
  filterRepeat : PyVal
  autoRequest : PyVal
  useSession : PyVal
  randomUserAgent : PyVal
  impersonate : PyVal
  render : PyVal
  renderTime : PyVal
  waitFor : PyVal
  downloadMidware : PyVal
  parserName : PyVal
  cbKwargs : PyVal
  requestsKwargs : Dict
  custom : Dict
  deriving Repr, DecidableEq

/-- `d[key] = value` in a dict with keys of any type. -/
def PyVal.setItem (kvs : List (PyVal × PyVal)) (key value : PyVal) : List (PyVal × PyVal) :=
  if (kvs.lookup key).isSome then kvs.map fun kv => if kv.1 = key then (key, value) else kv
  else kvs ++ [(key, value)]

/-- Keys of a dict must be hashable. -/
def PyVal.hashable : PyVal → Bool
  | .list _ => false
  | .dict _ => false
  | _ => true

/-- The two elements of an entry of the sequence given to `dict`. -/
def pairOf : PyVal → Except Exn (PyVal × PyVal)
  | .list [k, v] => .ok (k, v)
  | .list _ => .error "ValueError"
  | .dict [(k, _), (v, _)] => .ok (k, v)
  | .dict _ => .error "ValueError"
  | .str s =>
    match s.toList with
    | [k, v] => .ok (.str (String.singleton k), .str (String.singleton v))
    | _ => .error "ValueError"
  | _ => .error "TypeError"

def dictOfPairs : List PyVal → List (PyVal × PyVal) → Except Exn (List (PyVal × PyVal))
  | [], acc => .ok acc
  | x :: xs, acc => do
    let (k, v) ← pairOf x
    if k.hashable then dictOfPairs xs (PyVal.setItem acc k v) else .error "TypeError"

/-- `dict(value)`. -/
def dictOf : PyVal → Except Exn (List (PyVal × PyVal))
  | .dict kvs => .ok kvs
  | .list xs => dictOfPairs xs []
  | .str s => dictOfPairs (s.toList.map fun c => .str (String.singleton c)) []
  | _ => .error "TypeError"

/-- `data.pop(key, default)`. -/
def popItem (kvs : List (PyVal × PyVal)) (key : String) (default : PyVal) :
    PyVal × List (PyVal × PyVal) :=
  ((kvs.lookup (.str key)).getD default, kvs.filter fun kv => kv.1 ≠ .str key)

/-- The keyword arguments that `**value` gives. -/
def keywordsOf : List (PyVal × PyVal) → Except Exn Dict
  | [] => .ok []
  | (.str k, v) :: kvs => do return (k, v) :: (← keywordsOf kvs)
  | _ => .error "TypeError"

/-- `_SERIALIZABLE`. -/
def serializable : List String :=
  ["priority", "retry_times", "filter_repeat", "auto_request", "use_session", "random_user_agent",
    "impersonate", "render", "render_time", "wait_for", "download_midware", "parser_name", "cb_kwargs"]

/-- The parameters of `Request.__init__` that have a name. -/
def parameters : List String :=
  ["self", "url", "method", "callback", "render_script"] ++ serializable

/-- `method.upper()`. -/
def upperOf (upper : String → String) : PyVal → Except Exn String
  | .str s => .ok (upper s)
  | _ => .error "AttributeError"

/-- `Request(url, method, **keywords)`. -/
def DecodedRequest.init (upper : String → String) (url method : PyVal) (keywords : Dict) :
    Except Exn DecodedRequest := do
  -- no argument may be given twice
  unless ((["self", "url", "method"] ++ keywords.map Prod.fst).Nodup) do
    throw "TypeError"
  let arg (name : String) (default : PyVal) : PyVal := (keywords.lookup name).getD default
  let method ← upperOf upper method
  let others := keywords.filter fun kv => kv.1 ∉ parameters
  return {
    url, method
    callback := arg "callback" .none
    priority := arg "priority" (.int 300)
    retryTimes := arg "retry_times" (.int 0)
    filterRepeat := arg "filter_repeat" (.bool true)
    autoRequest := arg "auto_request" (.bool true)
    useSession := arg "use_session" .none
    randomUserAgent := arg "random_user_agent" .none
    impersonate := arg "impersonate" .none
    render := arg "render" (.bool false)
    renderTime := arg "render_time" .none
    waitFor := arg "wait_for" .none
    downloadMidware := arg "download_midware" .none
    parserName := arg "parser_name" .none
    cbKwargs := if (arg "cb_kwargs" .none).truthy then arg "cb_kwargs" .none else .dict []
    requestsKwargs := others.filter fun kv => kv.1 ∈ httpKeys
    custom := others.filter fun kv => kv.1 ∉ httpKeys }

/-- `Request.from_dict`. -/
def fromDict (upper : String → String) (data : PyVal) : Except Exn DecodedRequest := do
  let data ← dictOf data
  let (url, data) ← match data.lookup (.str "url") with
    | some url => .ok (url, (popItem data "url" .none).2)
    | none => .error "KeyError"
  let (method, data) := popItem data "method" (.str "GET")
  let (requestsKwargs, data) := popItem data "requests_kwargs" (.dict [])
  let requestsKwargs ← dictOf (if requestsKwargs.truthy then requestsKwargs else .dict [])
  let (custom, data) := popItem data "custom" (.dict [])
  let custom ← dictOf (if custom.truthy then custom else .dict [])
  let known := ("callback" :: serializable).filterMap fun key => (data.lookup (.str key)).map (key, ·)
  DecodedRequest.init upper url method (known ++ (← keywordsOf requestsKwargs) ++ (← keywordsOf custom))

end Netspy
