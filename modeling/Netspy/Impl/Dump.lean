import Netspy.Framework.Json.Lines
import Netspy.Impl.RequestDict

/-!
# The dump files

`ItemBuffer._dump_failed` and `BaseScheduler._append_requests` append a line
for each record; `_read_lines` of `commands/retry.py` and the loop of
`BaseScheduler._replay_failed_requests` read them. A file is its text: it is
written and read as UTF-8.
-/

namespace Netspy

/-- A dict that `json.dumps` writes as it is. -/
structure JsonDict where
  items : List (String × Json)
  wf : (Json.obj items).WF

def JsonDict.json (d : JsonDict) : Json := .obj d.items

mutual

/-- What `json.loads` returns, as a Python value. -/
def toPy : Json → PyVal
  | .null => .none
  | .bool b => .bool b
  | .int i => .int i
  | .float text => .float text
  | .str s => .str s
  | .arr vs => .list (toPyList vs)
  | .obj kvs => .dict (toPyPairs kvs)

def toPyList : List Json → List PyVal
  | [] => []
  | v :: vs => toPy v :: toPyList vs

def toPyPairs : List (String × Json) → List (PyVal × PyVal)
  | [] => []
  | (k, v) :: kvs => (.str k, toPy v) :: toPyPairs kvs

end

/-- The arguments of `_dump_failed`. -/
structure FailedWrite where
  table : String
  datas : List JsonDict
  updateKeys : Option (List String) := none
  pipelines : Option (List String) := none

namespace FailedWrite

/-- An entry of `extra`: none for `None` and for an empty list. -/
def entry (key : String) : Option (List String) → List (String × Json)
  | some (x :: xs) => [(key, .arr ((x :: xs).map .str))]
  | _ => []

/-- `{"table": table, "data": data, **extra}`. -/
def record (w : FailedWrite) (data : JsonDict) : Json :=
  .obj ([("table", .str w.table), ("data", data.json)] ++ entry "update_keys" w.updateKeys ++
    entry "pipelines" w.pipelines)

def records (w : FailedWrite) : List Json := w.datas.map w.record

end FailedWrite

/-- `_dump_failed`. -/
def dumpFailed (file : List Char) (w : FailedWrite) : List Char := file ++ Json.linesOf w.records

/-- `_append_requests`, given what `to_dict` returns for each request. -/
def appendRequests (file : List Char) (requests : List JsonDict) : List Char :=
  file ++ Json.linesOf (requests.map JsonDict.json)

/-- `_read_lines`. -/
def readLines (file : List Char) : List Json := Json.readLines (fun _ => true) file

/-- `Request.from_dict` takes this. -/
def accepted (upper : String → String) (v : Json) : Bool := (fromDict upper (toPy v)).isOk

/-- The records for which the loop of `_replay_failed_requests` makes a
request. -/
def replayLines (upper : String → String) (file : List Char) : List Json :=
  Json.readLines (accepted upper) file

end Netspy
