import Netspy.Framework.Base64
import Netspy.Framework.Files
import Netspy.Framework.Json.RoundTrip
import Netspy.Framework.Lines
import Netspy.Framework.Machine
import Netspy.Framework.Utf8
import Netspy.Impl.Request

/-!
# The files of `network/cache.py`

One entry of the response cache and its `.part` file, with any number of threads and
processes that store and load it. Opening, writing some of the bytes that are left,
closing, renaming and reading are one step each. A store that raises stops where it is,
as one that crashes does.

A `Response` has what `to_dict` keeps of it. Of what JSON reads, any field may be any
value, as `from_dict` does not look. `lower` is `str.lower`, and `isZero` tells a float
that is zero.
-/

namespace Netspy

structure FullResponse where
  url : Json
  statusCode : Json
  content : List UInt8 := []
  headers : List (String × Json) := []
  cookies : Json := .obj []
  encoding : Json := .null
  elapsed : Json := .null
  history : Json := .arr []

namespace FullResponse

variable (lower : String → String) (isZero : String → Bool)

def truthy : Json → Bool
  | .null => false
  | .bool b => b
  | .int i => i ≠ 0
  | .float text => !isZero text
  | .str s => s ≠ ""
  | .arr vs => !vs.isEmpty
  | .obj kvs => !kvs.isEmpty

/-- `v or default`. -/
def orElse (v default : Json) : Json := if truthy isZero v then v else default

/-- `__init__`. -/
def init (url statusCode : Json) (content : List UInt8) (headers cookies encoding elapsed history : Json) :
    Except Exn FullResponse :=
  match orElse isZero headers (.obj []) with
  | .obj kvs =>
    .ok {
      url, statusCode, content, encoding, elapsed
      headers := Json.dictOf (kvs.map fun kv => (lower kv.1, kv.2))
      cookies := orElse isZero cookies (.obj [])
      history := orElse isZero history (.arr []) }
  | _ => .error "AttributeError"

def toDict (r : FullResponse) : Json :=
  .obj [("url", r.url), ("status_code", r.statusCode), ("headers", .obj r.headers), ("cookies", r.cookies),
    ("encoding", r.encoding), ("elapsed", r.elapsed), ("history", r.history),
    ("content_b64", .str (String.ofList (Base64.encode r.content)))]

/-- `data[key]`. -/
def item (kvs : List (String × Json)) (key : String) : Except Exn Json :=
  match kvs.lookup key with
  | some v => .ok v
  | none => .error "KeyError"

def b64decode : Json → Except Exn (List UInt8)
  | .str s =>
    match Base64.decode s.toList with
    | some bs => .ok bs
    | none => .error "ValueError"
  | _ => .error "TypeError"

def fromDict : Json → Except Exn FullResponse
  | .obj kvs => do
    let url ← item kvs "url"
    let statusCode ← item kvs "status_code"
    let content ← b64decode ((kvs.lookup "content_b64").getD (.str ""))
    let get (key : String) : Json := (kvs.lookup key).getD .null
    init lower isZero url statusCode content (get "headers") (get "cookies") (get "encoding") (get "elapsed")
      (get "history")
  | _ => .error "TypeError"

/-- Its fields are values that JSON has, and as the constructor leaves them. -/
structure Built (r : FullResponse) : Prop where
  url : r.url.WF
  statusCode : r.statusCode.WF
  headers : Json.WF (.obj r.headers)
  lowered : ∀ kv ∈ r.headers, lower kv.1 = kv.1
  cookies : r.cookies.WF ∧ orElse isZero r.cookies (.obj []) = r.cookies
  encoding : r.encoding.WF
  elapsed : r.elapsed.WF
  history : r.history.WF ∧ orElse isZero r.history (.arr []) = r.history

end FullResponse

inductive CacheFile where
  | part
  | entry
  deriving DecidableEq

inductive StoreStage where
  | ready
  | writing (file offset : Nat)
  | closed
  /-- It renamed the file, raised or crashed. -/
  | ended
  deriving DecidableEq

/-- A call of `store`, past its checks. -/
structure StoreCall (lower : String → String) (isZero : String → Bool) where
  response : { r : FullResponse // r.Built lower isZero }
  stage : StoreStage := .ready

/-- `loads` are the results of all calls of `load`. -/
structure CacheFiles (lower : String → String) (isZero : String → Bool) where
  files : Files CacheFile := {}
  stores : List (StoreCall lower isZero) := []
  loads : List (Option FullResponse) := []

inductive CacheFileAct (lower : String → String) (isZero : String → Bool) where
  | store (response : { r : FullResponse // r.Built lower isZero })
  | openPart (i : Nat)
  /-- The next `n` bytes. -/
  | write (i n : Nat)
  | close (i : Nat)
  | replace (i : Nat)
  | crash (i : Nat)
  /-- `load`; an entry may have expired. -/
  | load (expired : Bool)
  /-- `clear`. -/
  | clear

namespace CacheFiles

variable {lower : String → String} {isZero : String → Bool}

/-- `tools.dumps_json(response.to_dict())`, encoded. -/
def text (r : FullResponse) : List UInt8 := Utf8.encode (Json.render r.toDict)

/-- What `load` makes of the bytes of an entry. -/
def parse (lower : String → String) (isZero : String → Bool) (bytes : List UInt8) : Option FullResponse := do
  let chars ← Utf8.decode bytes
  let data ← Json.loads (String.ofList (Lines.universalNewlines chars))
  (FullResponse.fromDict lower isZero data).toOption

def load (s : CacheFiles lower isZero) (expired : Bool) : Option FullResponse :=
  if expired then none else (s.files.read .entry).bind (parse lower isZero)

def setStage (s : CacheFiles lower isZero) (i : Nat) (stage : StoreStage) : CacheFiles lower isZero :=
  { s with stores := s.stores.modify i fun c => { c with stage } }

def step (s : CacheFiles lower isZero) : CacheFileAct lower isZero → Option (CacheFiles lower isZero)
  | .store response => some { s with stores := s.stores ++ [{ response }] }
  | .openPart i =>
    match s.stores[i]? with
    | some ⟨_, .ready⟩ =>
      let (file, files) := s.files.openWrite .part
      some { s.setStage i (.writing file 0) with files }
    | _ => none
  | .write i n =>
    match s.stores[i]? with
    | some ⟨response, .writing file offset⟩ =>
      let bytes := ((text response.1).drop offset).take n
      some { s.setStage i (.writing file (offset + bytes.length)) with files := s.files.write file offset bytes }
    | _ => none
  | .close i =>
    match s.stores[i]? with
    | some ⟨response, .writing _ offset⟩ =>
      if offset = (text response.1).length then some (s.setStage i .closed) else none
    | _ => none
  | .replace i =>
    match s.stores[i]? with
    | some ⟨_, .closed⟩ =>
      some { s.setStage i .ended with files := (s.files.rename .part .entry).getD s.files }
    | _ => none
  | .crash i =>
    match s.stores[i]? with
    | some _ => some (s.setStage i .ended)
    | none => none
  | .load expired => some { s with loads := s.loads ++ [s.load expired] }
  | .clear => some { s with files := s.files.unlink .entry }

def machine (lower : String → String) (isZero : String → Bool) :
    Machine (CacheFiles lower isZero) (CacheFileAct lower isZero) where
  start s := s = {}
  step := step

end CacheFiles

end Netspy
