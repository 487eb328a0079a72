import Netspy.Impl.Dump
import Netspy.Impl.RequestCookies

/-!
# A request that goes through the queue

`dumps_json` and `loads_json` as texts, and a request that comes back from its text any
number of times, with changes in between. What the interpreter limits, as the digits of
an `int` and the depth of nested values, is left out.
-/

namespace Netspy

/-! ## `utils/tools.py` -/

mutual

/-- What `json.dumps` writes for a value; `str` is the `default`. -/
def encoded (str : PyVal → String) : PyVal → Except Exn Json
  | .none => .ok .null
  | .bool b => .ok (.bool b)
  | .int i => .ok (.int i)
  | .float text => .ok (.float text)
  | .str s => .ok (.str s)
  | .list xs => do return .arr (← encodedList str xs)
  | .dict kvs => do return .obj (← encodedPairs str kvs)
  | .callable name => .ok (.str (str (.callable name)))
  | .obj text => .ok (.str (str (.obj text)))

def encodedList (str : PyVal → String) : List PyVal → Except Exn (List Json)
  | [] => .ok []
  | x :: xs => do return (← encoded str x) :: (← encodedList str xs)

def encodedPairs (str : PyVal → String) : List (PyVal × PyVal) → Except Exn (List (String × Json))
  | [] => .ok []
  | (k, v) :: kvs => do return (← jsonKey k, ← encoded str v) :: (← encodedPairs str kvs)

end

/-- `dumps_json`. -/
def dumpsJson (str : PyVal → String) (obj : PyVal) : Except Exn String := do return Json.dumps (← encoded str obj)

/-- `loads_json`. -/
def loadsJson (text : String) : Except Exn PyVal :=
  match Json.loads text with
  | some v => .ok (toPy v)
  | none => .error "JSONDecodeError"

/-- A JSON value: the keys of its objects are distinct, and its floats are floats. -/
structure JsonValue where
  json : Json
  wf : json.WF

def JsonValue.value (v : JsonValue) : PyVal := toPy v.json

/-! ## `network/request.py` -/

namespace DecodedRequest

/-- The attributes of an instance, but for `render_script`. -/
def attributes (r : DecodedRequest) : Dict :=
  [("url", r.url), ("method", .str r.method), ("callback", r.callback), ("lease_token", Request.optStr r.leaseToken),
    ("priority", r.priority), ("retry_times", r.retryTimes), ("filter_repeat", r.filterRepeat),
    ("auto_request", r.autoRequest), ("use_session", r.useSession), ("random_user_agent", r.randomUserAgent),
    ("impersonate", r.impersonate), ("render", r.render), ("render_time", r.renderTime), ("wait_for", r.waitFor),
    ("download_midware", r.downloadMidware), ("parser_name", r.parserName), ("cb_kwargs", r.cbKwargs),
    ("requests_kwargs", Request.ofDict r.requestsKwargs), ("custom", Request.ofDict r.custom)]

/-- `getattr(request, name)`, of a name that the class does not have: `__getattr__` is
asked for what is no attribute. -/
def getAttribute (r : DecodedRequest) (name : String) : Except Exn PyVal :=
  match (r.attributes.lookup name).or (r.custom.lookup name) with
  | some value => .ok value
  | none => .error "AttributeError"

/-- `fingerprint`, of a request whose `url` is a string. -/
def fingerprint (lib : Stdlib) (r : DecodedRequest) : Option (Except Exn String) :=
  match r.url with
  | .str url => some ({ url, method := r.method, requestsKwargs := r.requestsKwargs : Request }.fingerprint lib)
  | _ => none

/-- `Request.from_dict(loads_json(dumps_json(r.to_dict())))`. -/
def roundTrip (str : PyVal → String) (upper : String → String) (r : DecodedRequest) : Except Exn DecodedRequest := do
  let text ← dumpsJson str (Request.ofDict r.toDict)
  fromDict upper (← loadsJson text)

end DecodedRequest

/-! ## Trips -/

/-- A change of a request, or a trip. -/
inductive TripAct where
  | retryTimes (n : Int)
  | filterRepeat (b : Bool)
  /-- `requests_kwargs["cookies"] = value`, or a change of that value. -/
  | cookies (value : JsonValue)
  /-- `requests_kwargs.pop("cookies", None)`. -/
  | noCookies
  /-- `_base_cookies` keeps what the request had at first. -/
  | baseCookies (value : JsonValue)
  | roundTrip

namespace RequestTrips

open UserPoolMiddleware

/-- Keyword arguments that JSON keeps: `callback` is none or a name, and the
others are JSON values. -/
structure Serialisable (keywords : Dict) : Prop where
  callback : ∀ value, ("callback", value) ∈ keywords → value = .none ∨ ∃ name, value = .str name
  json : ∀ kv ∈ keywords, kv.1 ≠ "render_script" → ∃ v : JsonValue, v.value = kv.2

variable (str : PyVal → String) (upper : String → String)

def step (r : DecodedRequest) : TripAct → Option DecodedRequest
  | .retryTimes n => some { r with retryTimes := .int n }
  | .filterRepeat b => some { r with filterRepeat := .bool b }
  | .cookies v => some { r with requestsKwargs := setKey r.requestsKwargs "cookies" v.value }
  | .noCookies => some { r with requestsKwargs := r.requestsKwargs.filter fun kv => kv.1 ≠ "cookies" }
  | .baseCookies v => some { r with custom := setKey r.custom baseCookiesKey v.value }
  | .roundTrip => (r.roundTrip str upper).toOption

/-- From any request that the constructor returns. -/
def machine : Machine DecodedRequest TripAct where
  start r := ∃ url method keywords, Serialisable keywords ∧
    DecodedRequest.init upper (.str url) (.str method) keywords = .ok r
  step := step str upper

end RequestTrips

end Netspy
