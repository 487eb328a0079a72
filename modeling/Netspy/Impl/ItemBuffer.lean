import Netspy.Framework.Groups
import Netspy.Impl.Collector
import Netspy.Impl.Item

/-!
# `buffer/item_buffer.py`

One flush of the item buffer, as its thread runs it from the swap of
`_pending` to the acknowledgements. What the calls to the outside return or
raise (the item filter, the pipelines and their loading, the dump file, the
debug handler) is a `Turnout`: a flush makes each call at most once for each
object, group, pipeline and row, so a `Turnout` has an entry for each. What
the flush did is its `Report`.

An owner is the request that produced an item, by its identity.
-/

namespace Netspy

/-- What rows are grouped by. -/
structure GroupKey where
  table : String
  isUpdate : Bool
  pipelines : Option (List String)
  deriving Repr, DecidableEq

def Norm.groupKey (n : Norm) : GroupKey := ⟨n.table, n.isUpdate, n.pipelines⟩

/-- What the calls of one flush return or raise. -/
structure Turnout where
  /-- `get_item_filter()`, when the buffer was not given a filter. -/
  filter : Except Exn Unit := .ok ()
  /-- `dedup.get`, for the object at a place of the batch. -/
  lookup : Nat → String → Except Exn Bool := fun _ _ => .ok false
  /-- Loading and building the pipelines of a key. -/
  load : List String → Except Exn Unit := fun _ => .ok ()
  /-- `save_items` or `update_items` of the pipeline at a place of the list. -/
  write : GroupKey → Nat → Except Exn Bool := fun _ _ => .ok true
  /-- `dedup.add`, for the row at a place of the group. -/
  record : GroupKey → Nat → Except Exn Unit := fun _ _ => .ok ()
  /-- `path.open("a")`. -/
  openDump : GroupKey → Except Exn Unit := fun _ => .ok ()
  /-- Serialising and writing the row at a place of the group. -/
  dumpLine : GroupKey → Nat → Except Exn Unit := fun _ _ => .ok ()
  handler : Except Exn Unit := .ok ()

/-- A call of a pipeline's `save_items` or `update_items`. -/
structure WriteCall where
  pipeline : String
  table : String
  isUpdate : Bool
  datas : List Dict
  updateKeys : List String
  accepted : Bool
  deriving Repr, DecidableEq

/-- A line of `FAILED_ITEM_PATH`. -/
structure DumpRecord where
  table : String
  data : Dict
  updateKeys : Option (List String)
  pipelines : Option (List String)
  deriving Repr, DecidableEq

/-- What a flush did: the rows it saw, in order, each with whether it was
counted as a duplicate; the calls of pipelines; the rows of the groups that
all their pipelines accepted; the rows it dumped; the fingerprints it
recorded; whether the filter failed it. -/
structure Report where
  decided : List (Norm × Bool) := []
  calls : List WriteCall := []
  written : List Norm := []
  dumped : List (Norm × DumpRecord) := []
  recorded : List String := []
  degraded : Bool := false
  deriving Repr, DecidableEq

/-- The rows counted under `ITEM_DEDUP_DROPPED`. -/
def Report.duplicates (r : Report) : List Norm := (r.decided.filter Prod.snd).map Prod.fst

namespace ItemBuffer

variable (lib : Stdlib) (st : Setting) (out : Turnout)

/-! ## `_persist` -/

/-- The first loop of `_persist`: `seen`, `groups` and the decisions so far. -/
structure Sifted where
  seen : List String := []
  groups : Groups Norm.groupKey := .empty
  report : Report := {}

/-- One turn of the first loop, after `_normalize`. -/
def siftOne (i : Nat) (norm : Norm) (acc : Sifted) : Sifted :=
  match norm.fingerprint with
  | some fp =>
    if st.ITEM_FILTER_ENABLE then
      let looked := if fp ∈ acc.seen then .ok true else out.lookup i fp
      let (duplicate, failed) :=
        match looked with
        | .ok duplicate => (duplicate, false)
        | .error _ => (false, true)
      let report := { acc.report with
        decided := acc.report.decided ++ [(norm, duplicate)]
        degraded := acc.report.degraded || failed }
      if duplicate then { acc with report }
      else { seen := fp :: acc.seen, groups := acc.groups.add norm, report }
    else
      { acc with
        groups := acc.groups.add norm
        report := { acc.report with decided := acc.report.decided ++ [(norm, false)] } }
  | none =>
    { acc with
      groups := acc.groups.add norm
      report := { acc.report with decided := acc.report.decided ++ [(norm, false)] } }

def sift : Nat → List Obj → Sifted → Except Exn Unit × Sifted
  | _, [], acc => (.ok (), acc)
  | i, obj :: rest, acc =>
    match normalize lib st obj with
    | .error e => (.error e, acc)
    | .ok norm => sift (i + 1) rest (siftOne st out i norm acc)

/-- `all(self._write(...) for pipeline in pipelines)`: stops at the first
pipeline that refuses or raises. -/
def writeAll (k : GroupKey) (datas : List Dict) (updateKeys : List String) :
    Nat → List String → List WriteCall × Bool
  | _, [] => ([], true)
  | i, p :: ps =>
    let accepted :=
      match out.write k i with
      | .ok b => b
      | .error _ => false
    let call : WriteCall := ⟨p, k.table, k.isUpdate, datas, updateKeys, accepted⟩
    if accepted then
      let (calls, ok) := writeAll k datas updateKeys (i + 1) ps
      (call :: calls, ok)
    else ([call], false)

/-- Recording the fingerprints of a written group, until the filter raises:
what was recorded, and whether it raised. -/
def recordAll (k : GroupKey) : Nat → List Norm → List String × Bool
  | _, [] => ([], false)
  | i, row :: rows =>
    match row.fingerprint with
    | none => recordAll k (i + 1) rows
    | some fp =>
      match out.record k i with
      | .error _ => ([], true)
      | .ok () =>
        let (fps, failed) := recordAll k (i + 1) rows
        (fp :: fps, failed)

/-- What `_dump_failed` writes for a row. -/
def dumpRecord (k : GroupKey) (updateKeys : List String) (row : Norm) : DumpRecord where
  table := k.table
  data := row.data
  updateKeys := if k.isUpdate && !updateKeys.isEmpty then some updateKeys else none
  pipelines := Item.orElse k.pipelines none

/-- The lines `_dump_failed` writes, until one raises. -/
def dumpLines (k : GroupKey) (updateKeys : List String) :
    Nat → List Norm → Except Exn Unit × List (Norm × DumpRecord)
  | _, [] => (.ok (), [])
  | i, row :: rows =>
    match out.dumpLine k i with
    | .error e => (.error e, [])
    | .ok () =>
      let (res, lines) := dumpLines k updateKeys (i + 1) rows
      (res, (row, dumpRecord k updateKeys row) :: lines)

def dumpFailed (k : GroupKey) (updateKeys : List String) (rows : List Norm) :
    Except Exn Unit × List (Norm × DumpRecord) :=
  match out.openDump k with
  | .error e => (.error e, [])
  | .ok () => dumpLines out k updateKeys 0 rows

/-- The key of `_resolve_pipelines`. -/
def pipelineKey (defaults : List String) (paths : Option (List String)) : List String :=
  paths.getD defaults

/-- `_resolve_pipelines`: builds the pipelines of a key unless the cache has
them. -/
def resolvePipelines (key : List String) (cache : List (List String)) :
    Except Exn Unit × List (List String) :=
  if key ∈ cache then (.ok (), cache)
  else
    match out.load key with
    | .error e => (.error e, cache)
    | .ok () => (.ok (), key :: cache)

/-- The turn of the second loop of `_persist` for one group, once it has its
pipelines. -/
def storeGroup (k : GroupKey) (key : List String) (rows : List Norm) (rep : Report) :
    Except Exn Unit × Report :=
  let datas := rows.map Norm.data
  let updateKeys := (rows.head?.map Norm.updateKeys).getD []
  let (calls, ok) := writeAll out k datas updateKeys 0 key
  let rep := { rep with calls := rep.calls ++ calls }
  if ok then
    let rep := { rep with written := rep.written ++ rows }
    if st.ITEM_FILTER_ENABLE then
      let (fps, failed) := recordAll out k 0 rows
      (.ok (), { rep with recorded := rep.recorded ++ fps, degraded := rep.degraded || failed })
    else (.ok (), rep)
  else
    let (res, lines) := dumpFailed out k updateKeys rows
    (res, { rep with dumped := rep.dumped ++ lines })

/-- The second loop of `_persist`; `cache` is `_pipeline_cache`. -/
def writeGroups (defaults : List String) :
    List (GroupKey × List Norm) → List (List String) → Report →
      Except Exn Unit × List (List String) × Report
  | [], cache, rep => (.ok (), cache, rep)
  | (k, rows) :: rest, cache, rep =>
    match resolvePipelines out (pipelineKey defaults k.pipelines) cache with
    | (.error e, cache) => (.error e, cache, rep)
    | (.ok (), cache) =>
      match storeGroup st out k (pipelineKey defaults k.pipelines) rows rep with
      | (.error e, rep) => (.error e, cache, rep)
      | (.ok (), rep) => writeGroups defaults rest cache rep

/-- `_get_dedup`, as far as it may raise. -/
def getDedup : Except Exn Unit := if st.ITEM_FILTER_ENABLE then out.filter else .ok ()

def persist (defaults : List String) (cache : List (List String)) (batch : List Obj) :
    Except Exn Unit × List (List String) × Report :=
  match getDedup st out with
  | .error e => (.error e, cache, {})
  | .ok () =>
    match sift lib st out 0 batch {} with
    | (.error e, acc) => (.error e, cache, acc.report)
    | (.ok (), acc) => writeGroups st out defaults acc.groups.entries cache acc.report

end ItemBuffer

/-! ## The buffer -/

structure ItemBuffer (ρ η : Type) where
  /-- Whether there is a debug handler in place of the pipelines. -/
  handled : Bool := false
  /-- The spider's `pipelines=` argument. -/
  pipelinePaths : Option (List String) := none
  cache : List (List String) := []
  pending : List (Obj × Option ρ) := []
  /-- `_after_persist`, the hooks of each owner in order. -/
  afterPersist : List (ρ × η) := []

namespace ItemBuffer

variable {ρ η : Type} [DecidableEq ρ] (lib : Stdlib) (st : Setting) (out : Turnout)

def defaultPipelines (s : ItemBuffer ρ η) : List String := s.pipelinePaths.getD st.ITEM_PIPELINES

def owns (s : ItemBuffer ρ η) (owner : ρ) : Bool := s.pending.any fun e => e.2 = some owner

def afterPersistIfPending (s : ItemBuffer ρ η) (owner : ρ) (fn : η) : Bool × ItemBuffer ρ η :=
  if s.owns owner then (true, { s with afterPersist := s.afterPersist ++ [(owner, fn)] })
  else (false, s)

/-- The owners of a batch, each once. -/
def owners (batch : List (Obj × Option ρ)) : List ρ :=
  (batch.filterMap Prod.snd).foldl (fun os o => if o ∈ os then os else os ++ [o]) []

/-- What one flush did: the items (`persisted`), the hooks it ran and the
owners it acknowledged, in order, and what it raised. -/
structure Flushed (ρ η : Type) where
  result : Except Exn Unit := .ok ()
  report : Report := {}
  /-- The objects given to the debug handler. -/
  handled : List Obj := []
  hooks : List η := []
  acked : List ρ := []

/-- `_run_after_persist`: takes the hooks of an owner. -/
def takeHooks (s : ItemBuffer ρ η) (owner : ρ) : List η × ItemBuffer ρ η :=
  ((s.afterPersist.filter fun h => h.1 = owner).map Prod.snd,
    { s with afterPersist := s.afterPersist.filter fun h => h.1 ≠ owner })

/-- `_ack_all`: for each owner, its hooks and then the acknowledgement. An
exception of either is logged and changes nothing here. -/
def ackAll : List ρ → Flushed ρ η → ItemBuffer ρ η → Flushed ρ η × ItemBuffer ρ η
  | [], f, s => (f, s)
  | o :: os, f, s =>
    let (hooks, s) := takeHooks s o
    ackAll os { f with hooks := f.hooks ++ hooks, acked := f.acked ++ [o] } s

def flush (s : ItemBuffer ρ η) : Flushed ρ η × ItemBuffer ρ η :=
  let batch := s.pending
  let s := { s with pending := [] }
  if batch.isEmpty then ({}, s)
  else
    let objs := batch.map Prod.fst
    if s.handled then
      match out.handler with
      | .error e => ({ result := .error e }, s)
      | .ok () => ackAll (owners batch) { handled := objs } s
    else
      match persist lib st out (s.defaultPipelines st) s.cache objs with
      | (.error _, cache, report) => ({ report }, { s with cache })
      | (.ok (), cache, report) => ackAll (owners batch) { report } { s with cache }

/-- `put`, up to the flush that a full buffer makes in the caller's thread. -/
def put (item : Obj) (owner : Option ρ) (s : ItemBuffer ρ η) : Bool × ItemBuffer ρ η :=
  let s := { s with pending := s.pending ++ [(item, owner)] }
  (decide (st.ITEM_MAX_CACHED_COUNT ≤ s.pending.length), s)

end ItemBuffer

end Netspy
