import Netspy.Impl.Dump
import Netspy.Impl.ItemBuffer

/-!
# `retry_items` of `commands/retry.py`

The replay of `FAILED_ITEM_PATH`. What loading a list of pipelines and calling
one of them return or raise is an `Answers`. `attempts` lists the groups that
were given to their pipelines, in order; of the pipelines of a group, `calls`
has those that were called.
-/

namespace Netspy

/-- What the rows of a replay are grouped by: table, `update_keys`, pipelines. -/
structure ReplayKey where
  table : PyVal
  keys : List PyVal
  paths : Option (List PyVal)
  deriving Repr, DecidableEq

/-- A write as the pipelines see it: `update_items` or `save_items`, with the
pipelines that are to take it. -/
structure Operation where
  isUpdate : Bool
  table : PyVal
  updateKeys : List PyVal
  pipelines : List PyVal
  deriving Repr, DecidableEq

structure ReplayCall where
  pipeline : PyVal
  operation : Operation
  datas : List PyVal
  accepted : Bool
  deriving Repr, DecidableEq

structure Answers where
  /-- `tools.load_object(p)()` for each path. -/
  load : List PyVal → Except Exn Unit := fun _ => .ok ()
  /-- `save_items` or `update_items` of the pipeline at a place of the list. -/
  write : Operation → Nat → Except Exn Bool := fun _ _ => .ok true

/-- `record.get(key)`. -/
def getKey (kvs : List (PyVal × PyVal)) (key : String) : PyVal := (kvs.lookup (.str key)).getD .none

/-- `record[key]`. -/
def getItem (kvs : List (PyVal × PyVal)) (key : String) : Except Exn PyVal :=
  match kvs.lookup (.str key) with
  | some v => .ok v
  | none => .error "KeyError"

/-- `tuple(value)`. -/
def tupleOf : PyVal → Except Exn (List PyVal)
  | .list xs => .ok xs
  | .dict kvs => .ok (kvs.map Prod.fst)
  | .str s => .ok (s.toList.map fun c => .str (String.singleton c))
  | _ => .error "TypeError"

/-- `tuple(value or ())`. -/
def keysOf (v : PyVal) : Except Exn (List PyVal) := if v.truthy then tupleOf v else .ok []

/-- `tuple(value) if value else None`. -/
def pathsOf (v : PyVal) : Except Exn (Option (List PyVal)) :=
  if v.truthy then (tupleOf v).map some else .ok none

/-- The key of a record in `groups`. A record that is no dict has no `get`. -/
def replayKey : PyVal → Except Exn ReplayKey
  | .dict kvs => do
    let keys ← keysOf (getKey kvs "update_keys")
    let table ← getItem kvs "table"
    let paths ← pathsOf (getKey kvs "pipelines")
    if ((table :: keys) ++ paths.getD []).all PyVal.hashable then return ⟨table, keys, paths⟩
    else throw "TypeError"
  | _ => .error "AttributeError"

def keyed (record : Json) : Except Exn (ReplayKey × Json) := (replayKey (toPy record)).map (·, record)

/-- The loop that groups the records. -/
def groupRecords (records : List Json) :
    Except Exn (Groups (Prod.fst : ReplayKey × Json → ReplayKey)) :=
  (records.mapM keyed).map .ofList

/-- `r["data"]`. -/
def dataOf (record : Json) : Except Exn PyVal :=
  match toPy record with
  | .dict kvs => getItem kvs "data"
  | _ => .error "TypeError"

/-- `_pipelines(paths)`, by their paths. -/
def replayPipelines (st : Setting) (paths : Option (List PyVal)) : List PyVal :=
  match paths with
  | some (p :: ps) => p :: ps
  | _ => st.ITEM_PIPELINES.map .str

def replayOperation (st : Setting) (k : ReplayKey) : Operation where
  isUpdate := !k.keys.isEmpty
  table := k.table
  updateKeys := k.keys
  pipelines := replayPipelines st k.paths

/-- `all(...)` over the pipelines of a group: stops at the first one that
refuses or raises. -/
def replayAll (answers : Answers) (op : Operation) (datas : List PyVal) :
    Nat → List PyVal → List ReplayCall × Bool
  | _, [] => ([], true)
  | i, p :: ps =>
    let accepted :=
      match answers.write op i with
      | .ok b => b
      | .error _ => false
    if accepted then
      let (calls, done) := replayAll answers op datas (i + 1) ps
      (⟨p, op, datas, true⟩ :: calls, done)
    else ([⟨p, op, datas, false⟩], false)

structure Replay where
  attempts : List (Operation × List PyVal) := []
  calls : List ReplayCall := []
  ok : Nat := 0
  remaining : List Json := []

/-- The turn of the loop for one group, once its data are read. A pipeline that
cannot be loaded fails the group, as one that raises does. -/
def replayGroup (answers : Answers) (st : Setting) (k : ReplayKey) (rows : List Json) (datas : List PyVal)
    (r : Replay) : Replay :=
  let op := replayOperation st k
  let (calls, done) :=
    match answers.load op.pipelines with
    | .error _ => ([], false)
    | .ok () => replayAll answers op datas 0 op.pipelines
  let r := { r with attempts := r.attempts ++ [(op, datas)], calls := r.calls ++ calls }
  if done then { r with ok := r.ok + datas.length } else { r with remaining := r.remaining ++ rows }

def replayGroups (answers : Answers) (st : Setting) :
    List (ReplayKey × List (ReplayKey × Json)) → Replay → Except Exn Unit × Replay
  | [], r => (.ok (), r)
  | (k, rows) :: rest, r =>
    match (rows.map Prod.snd).mapM dataOf with
    | .error e => (.error e, r)
    | .ok datas => replayGroups answers st rest (replayGroup answers st k (rows.map Prod.snd) datas r)

/-- What `retry_items` returns or raises, what it did, and what it leaves in
the file, where no file is an empty one. -/
structure Retried where
  result : Except Exn (Nat × Nat)
  replay : Replay := {}
  file : List Char

def retryItems (answers : Answers) (st : Setting) (file : List Char) : Retried :=
  let records := readLines file
  if records.isEmpty then { result := .ok (0, 0), file }
  else
    match groupRecords records with
    | .error e => { result := .error e, file }
    | .ok groups =>
      match replayGroups answers st groups.entries {} with
      | (.error e, replay) => { result := .error e, replay, file }
      | (.ok (), replay) =>
        { result := .ok (replay.ok, replay.remaining.length), replay, file := Json.linesOf replay.remaining }

/-- Each datum that was given to pipelines, with its operation. -/
def Replay.issued (r : Replay) : List (Operation × PyVal) := r.attempts.flatMap fun a => a.2.map (a.1, ·)

/-! ## What was dumped -/

/-- A call of `_persist`. -/
structure PersistCall where
  st : Setting
  /-- The spider's `pipelines=` argument. -/
  pipelinePaths : Option (List String) := none
  cache : List (List String) := []
  out : Turnout
  batch : List Obj

namespace PersistCall

variable (lib : Stdlib) (c : PersistCall)

def defaults : List String := c.pipelinePaths.getD c.st.ITEM_PIPELINES

def report : Report := (ItemBuffer.persist lib c.st c.out c.defaults c.cache c.batch).2.2

/-- `groups` after the first loop. -/
def groups : List (GroupKey × List Norm) := (ItemBuffer.sift lib c.st c.out 0 c.batch {}).2.groups.entries

/-- `update_keys` of a group, which are those of its first row. -/
def updateKeys (k : GroupKey) : List String :=
  (((c.groups lib).lookup k).bind fun rows => rows.head?.map Norm.updateKeys).getD []

/-- The write that `_persist` tried for a group. -/
def operation (k : GroupKey) : Operation where
  isUpdate := k.isUpdate
  table := .str k.table
  updateKeys := if k.isUpdate then (c.updateKeys lib k).map .str else []
  pipelines := (ItemBuffer.pipelineKey c.defaults k.pipelines).map .str

/-- Each datum that was dumped, with the write that was tried for it. -/
def attempted (encode : Dict → JsonDict) : List (Operation × PyVal) :=
  (c.report lib).dumped.map fun d => (c.operation lib d.1.groupKey, toPy (encode d.1.data).json)

end PersistCall

/-- A line that `_dump_failed` writes, where `encode` gives what `json.dumps`
makes of the data of a row. -/
def DumpRecord.json (encode : Dict → JsonDict) (r : DumpRecord) : Json :=
  FailedWrite.record ⟨r.table, [], r.updateKeys, r.pipelines⟩ (encode r.data)

/-- What some calls of `_persist` leave in `FAILED_ITEM_PATH`. -/
def dumpedFile (lib : Stdlib) (encode : Dict → JsonDict) (cs : List PersistCall) : List Char :=
  cs.foldl (fun file c => file ++ Json.linesOf ((c.report lib).dumped.map fun d => d.2.json encode)) []

end Netspy
