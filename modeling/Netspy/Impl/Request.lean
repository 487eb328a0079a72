import Mathlib.Data.List.Sort
import Netspy.Impl.Value

/-!
# `network/request.py`, `utils/tools.py`

A `Request` with what its constructor keeps, its fingerprint, and the dict it
is serialised to. The functions of the standard library that the fingerprint
calls are the fields of a `Stdlib`; nothing is assumed of them. An exception
is the name of its class.

`render_script` takes no part in any of this and is left out.
-/

namespace Netspy

abbrev Exn := String

/-- The five parts of a URL that `urlsplit` returns. -/
structure SplitResult where
  scheme : String
  netloc : String
  path : String
  query : String
  fragment : String
  deriving Repr, DecidableEq

structure Stdlib where
  urlsplit : String → Except Exn SplitResult
  /-- `parse_qsl(query, keep_blank_values=True)`. -/
  parseQsl : String → List (String × String)
  urlencode : List (String × String) → String
  urlunsplit : SplitResult → String
  /-- `json.dumps(value, sort_keys=True, ensure_ascii=False, default=str)`. -/
  dumpsSorted : PyVal → Except Exn String
  str : PyVal → String
  repr : PyVal → String
  /-- `hashlib.md5(text.encode()).hexdigest()`. -/
  md5 : String → String
  lower : String → String

/-- `_stringify`: containers as JSON, everything else by `str`, which leaves a
string as it is. -/
def stringify (lib : Stdlib) : PyVal → Except Exn String
  | .list xs => lib.dumpsSorted (.list xs)
  | .dict kvs => lib.dumpsSorted (.dict kvs)
  | .str s => .ok s
  | v => .ok (lib.str v)

/-- `tools.get_fingerprint`. -/
def getFingerprint (lib : Stdlib) (parts : List PyVal) : Except Exn String := do
  let texts ← parts.mapM (stringify lib)
  return lib.md5 ("|".intercalate texts)

/-- Of strings alone it is the hash of the joined strings. -/
theorem getFingerprint_str (lib : Stdlib) (texts : List String) :
    getFingerprint lib (texts.map .str) = .ok (lib.md5 ("|".intercalate texts)) := by
  have h : ((texts.map PyVal.str).mapM (stringify lib)) = .ok texts := by
    induction texts with
    | nil => rfl
    | cons t ts ih =>
      rw [List.map_cons, List.mapM_cons, ih]
      rfl
  simp only [getFingerprint, h]
  rfl

inductive Callback where
  | name (s : String)
  /-- A callable, with its `__name__` where that is a string. -/
  | callable (name : Option String)
  deriving Repr, DecidableEq

structure Request where
  url : String
  method : String := "GET"
  callback : Option Callback := none
  /-- The payload it was taken from the queue as. Not serialised. -/
  leaseToken : Option String := none
  priority : Int := 300
  retryTimes : Int := 0
  filterRepeat : Bool := true
  autoRequest : Bool := true
  useSession : Option Bool := none
  randomUserAgent : Option Bool := none
  impersonate : Option String := none
  render : Bool := false
  renderTime : PyVal := .none
  waitFor : Option String := none
  downloadMidware : Option String := none
  parserName : Option String := none
  cbKwargs : Dict := []
  requestsKwargs : Dict := []
  custom : Dict := []
  deriving Repr, DecidableEq

namespace Request

def callbackName (r : Request) : Option String :=
  match r.callback with
  | none => none
  | some (.name s) => some s
  | some (.callable name) => name

/-- The pairs of a query, in the order of Python's tuples of strings. -/
def sortedPairs (ps : List (String × String)) : List (String × String) :=
  ps.insertionSort fun a b => a.1 < b.1 ∨ a.1 = b.1 ∧ a.2 ≤ b.2

def canonicalUrl (lib : Stdlib) (r : Request) : Except Exn String := do
  let parts ← lib.urlsplit r.url
  let query := lib.urlencode (sortedPairs (lib.parseQsl parts.query))
  return lib.urlunsplit ⟨parts.scheme, parts.netloc, parts.path, query, ""⟩

/-- `data or json or params or ""`. -/
def body (r : Request) : PyVal :=
  let data := r.requestsKwargs.get "data"
  let json := r.requestsKwargs.get "json"
  let params := r.requestsKwargs.get "params"
  if data.truthy then data else if json.truthy then json else if params.truthy then params
  else .str ""

def fingerprint (lib : Stdlib) (r : Request) : Except Exn String := do
  let url ← r.canonicalUrl lib
  getFingerprint lib [.str r.method, .str url, r.body]

/-- The fingerprint does not look at `filter_repeat`. -/
@[simp] theorem fingerprint_filterRepeat (lib : Stdlib) (r : Request) (b : Bool) :
    fingerprint lib { r with filterRepeat := b } = fingerprint lib r := rfl

def optStr : Option String → PyVal
  | none => .none
  | some s => .str s

def optBool : Option Bool → PyVal
  | none => .none
  | some b => .bool b

def ofDict (d : Dict) : PyVal := .dict (d.map fun kv => (.str kv.1, kv.2))

def toDict (r : Request) : Dict :=
  [("url", .str r.url), ("method", .str r.method), ("callback", optStr r.callbackName),
    ("priority", .int r.priority), ("retry_times", .int r.retryTimes),
    ("filter_repeat", .bool r.filterRepeat), ("auto_request", .bool r.autoRequest),
    ("use_session", optBool r.useSession), ("random_user_agent", optBool r.randomUserAgent),
    ("impersonate", optStr r.impersonate), ("render", .bool r.render),
    ("render_time", r.renderTime), ("wait_for", optStr r.waitFor),
    ("download_midware", optStr r.downloadMidware), ("parser_name", optStr r.parserName),
    ("cb_kwargs", ofDict r.cbKwargs), ("requests_kwargs", ofDict r.requestsKwargs),
    ("custom", ofDict r.custom)]

/-- A request serialises without its lease token. -/
theorem toDict_leaseToken (r : Request) (t : Option String) :
    toDict { r with leaseToken := t } = toDict r := rfl

end Request

end Netspy
