import Mathlib.Logic.Function.Basic
import Netspy.Impl.ItemBuffer

/-!
# The dicts that the pipelines share

The turn of `_persist` of `buffer/item_buffer.py` for one group of items, with the dicts
as what they are, objects: each pipeline gets the same ones, and so does `_dump_failed`.
A row is known by the identity of its dict, which may be that of another row too. The
pipelines are those of `pipelines/`. What their servers answer is a `Turnout`;
`insert_many` adds an `_id` to each dict that has none, whether it raises or not, and
everything else only reads.
-/

namespace Netspy

inductive PipelineKind where
  | mongo
  | csv
  | elasticsearch
  | mysql
  | postgres
  deriving Repr, DecidableEq

def PipelineKind.path : PipelineKind → String
  | .mongo => "netspy.pipelines.mongo.MongoPipeline"
  | .csv => "netspy.pipelines.csv.CsvPipeline"
  | .elasticsearch => "netspy.pipelines.elasticsearch.ElasticsearchPipeline"
  | .mysql => "netspy.pipelines.mysql.MysqlPipeline"
  | .postgres => "netspy.pipelines.postgres.PostgresPipeline"

/-- The dicts by their identities, and how many `ObjectId`s were made. -/
structure SharedDicts where
  dicts : Nat → Dict
  made : Nat := 0

namespace SharedDicts

def hasId (s : SharedDicts) (row : Nat) : Bool := ((s.dicts row).lookup "_id").isSome

/-- What the items of a group look like now. -/
def datas (s : SharedDicts) (rows : List Nat) : List Dict := rows.map s.dicts

variable (objectId : Nat → PyVal)

/-- `if "_id" not in document: document["_id"] = ObjectId()`. -/
def addId (s : SharedDicts) (row : Nat) : SharedDicts :=
  if s.hasId row then s
  else { dicts := Function.update s.dicts row (s.dicts row ++ [("_id", objectId s.made)]), made := s.made + 1 }

/-- What `insert_many` does to its documents. -/
def insertMany : List Nat → SharedDicts → SharedDicts
  | [], s => s
  | row :: rows, s => insertMany rows (s.addId objectId row)

end SharedDicts

namespace SharedRows

/-- What the calls of the group return or raise. -/
structure Env where
  out : Turnout := {}
  objectId : Nat → PyVal
  /-- Whether `self._db[table]` of the pipeline at a place of the list gives a collection. -/
  collection : Nat → Bool := fun _ => true

variable (env : Env) (k : GroupKey) (updateKeys : List String)

/-- A `save_items` or an `update_items` that only reads. -/
def readItems (i : Nat) (rows : List Nat) : Except Exn Bool := if rows.isEmpty then .ok true else env.out.write k i

/-- `MongoPipeline.save_items`. -/
def mongoSaveItems (i : Nat) (rows : List Nat) (s : SharedDicts) : Except Exn Bool × SharedDicts :=
  if rows.isEmpty then (.ok true, s)
  else if env.collection i then (env.out.write k i, s.insertMany env.objectId rows)
  else (.ok false, s)

/-- The call that `_write` makes. -/
def write (i : Nat) (pipeline : PipelineKind) (rows : List Nat) (s : SharedDicts) : Except Exn Bool × SharedDicts :=
  match pipeline, k.isUpdate with
  | .mongo, false => mongoSaveItems env k i rows s
  -- `BasePipeline.update_items`
  | .csv, true => (.error "NotImplementedError", s)
  | _, _ => (readItems env k i rows, s)

/-- What `_write` returns. -/
def accepted : Except Exn Bool → Bool
  | .ok b => b
  | .error _ => false

/-- `all(self._write(...) for pipeline in pipelines)`. -/
def writeAll (rows : List Nat) : Nat → List PipelineKind → SharedDicts → List WriteCall × Bool × SharedDicts
  | _, [], s => ([], true, s)
  | i, pipeline :: rest, s =>
    let datas := s.datas rows
    let (answer, s) := write env k i pipeline rows s
    let call : WriteCall := ⟨pipeline.path, k.table, k.isUpdate, datas, updateKeys, accepted answer⟩
    if accepted answer then
      let (calls, ok, s) := writeAll rows (i + 1) rest s
      (call :: calls, ok, s)
    else ([call], false, s)

/-- The rows of which `_dump_failed` writes a line, until one raises. -/
def dumpedRows : Nat → List Nat → List Nat
  | _, [] => []
  | i, row :: rows =>
    match env.out.dumpLine k i with
    | .error _ => []
    | .ok () => row :: dumpedRows (i + 1) rows

/-- `_dump_failed`: the data of its lines. -/
def dumpFailed (rows : List Nat) (s : SharedDicts) : List Dict :=
  match env.out.openDump k with
  | .error _ => []
  | .ok () => s.datas (dumpedRows env k 0 rows)

/-- What a group did: the calls of its pipelines, and the data that was dumped. -/
structure Stored where
  calls : List WriteCall
  dumped : List Dict

/-- The turn of `_persist` for a group. -/
def storeGroup (rows : List Nat) (pipelines : List PipelineKind) (s : SharedDicts) : Stored :=
  let (calls, ok, s) := writeAll env k updateKeys rows 0 pipelines s
  { calls, dumped := if ok then [] else dumpFailed env k rows s }

/-- Each pipeline got the dicts as they were, and these were dumped, up to the line that
raised. -/
def KeepsDicts (rows : List Nat) (pipelines : List PipelineKind) (s : SharedDicts) : Prop :=
  let stored := storeGroup env k updateKeys rows pipelines s
  (∀ call ∈ stored.calls, call.datas = s.datas rows) ∧ stored.dumped <+: s.datas rows

instance (rows : List Nat) (pipelines : List PipelineKind) (s : SharedDicts) :
    Decidable (KeepsDicts env k updateKeys rows pipelines s) := inferInstanceAs (Decidable (_ ∧ _))

/-- Whether a call is one of `insert_many`. -/
def inserts (i : Nat) (pipeline : PipelineKind) : Bool := decide (pipeline = .mongo) && !k.isUpdate && env.collection i

/-- Whether a call is accepted. -/
def accepts (i : Nat) (pipeline : PipelineKind) : Bool :=
  if pipeline = .csv ∧ k.isUpdate then false
  else if pipeline = .mongo ∧ k.isUpdate = false ∧ env.collection i = false then false
  else accepted (env.out.write k i)

/-- The first call of `insert_many` is the last use of the dicts: it is accepted and no
pipeline follows, or it is not and no dict that had no `_id` is dumped. -/
def InsertsLast (rows : List Nat) (s : SharedDicts) : Nat → List PipelineKind → Prop
  | _, [] => True
  | i, pipeline :: rest =>
    if inserts env k i pipeline then
      if accepts env k i pipeline then rest = []
      else env.out.openDump k = .ok () → ∀ row ∈ dumpedRows env k 0 rows, s.hasId row
    else accepts env k i pipeline → InsertsLast rows s (i + 1) rest

end SharedRows

end Netspy
