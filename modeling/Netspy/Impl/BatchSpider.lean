import Netspy.Impl.BatchStore
import Netspy.Impl.Cluster
import Netspy.Impl.Dedup

/-!
# `core/batch_monitor.py`, `core/spiders/batch_spider.py`

The master and the workers of a batch job. The master goes through its rounds
call by call: it opens a batch, puts lost tasks back, claims tasks and pushes
them to `<ns>:batch_pending`. It may stop between any two calls and be started
again. The workers are the nodes of a `Cluster` whose pollers pop the pushed
tasks; their filters are in their processes or shared, and outlive a batch.

Each pushed task gets the number of its claim, which goes with it to the
requests it is converted to (`converted`). No step reads it.

The lock of the master and the flag that a batch is done are left out.
-/

namespace Netspy

/-- The namespace of a run, and where its filters are. -/
def runNs (jobNs runId : String) : String := if runId = "" then jobNs else jobNs ++ ":run:" ++ runId

/-- `_resolve_dedup_scope`. -/
def resolveDedupScope (scope : DedupScope) (runId : String) : DedupScope :=
  match scope with
  | .auto | .run => if runId = "" then .spider else .run
  | .spider => .spider

def dedupNs (scope : DedupScope) (jobNs runId : String) : String :=
  match resolveDedupScope scope runId with
  | .run => runNs jobNs runId
  | _ => jobNs

/-- A `BatchSpider` has no run: its filter is that of the job, whatever the scope. -/
theorem dedupNs_noRun (scope : DedupScope) (jobNs : String) : dedupNs scope jobNs "" = jobNs := by
  cases scope <;> rfl

inductive FilterAt (ν : Type) where
  | process (n : ν)
  | shared (name : String)
  deriving DecidableEq

/-- `_make_dedup` of a `BatchSpider`'s scheduler. -/
def makeDedup {ν : Type} (st : Setting) (jobNs : String) (n : ν) : FilterAt ν :=
  match st.DEDUP_FILTER with
  | .lite | .memory => .process n
  | .redis | .redisSet => .shared (dedupNs st.DEDUP_SCOPE jobNs "")

/-- What `flush` gets from the filter for a request, if the call works. -/
def askFilter {φ : Type} [Filter φ] (lib : Stdlib) (f : φ) (r : Request) (works : Bool) : Answer × φ :=
  if r.filterRepeat then
    match r.fingerprint lib, works with
    | .ok key, true => (if (Filter.add f key).1 then .fresh else .seen, (Filter.add f key).2)
    | _, _ => (.raised, f)
  else (.fresh, f)

/-- `_task_requests_tagged`. -/
def tagged (task : PyVal) (r : Request) : Request :=
  { r with cbKwargs := r.cbKwargs.setdefault "task" task }

/-- The fingerprint does not see which task a request is for. -/
@[simp] theorem fingerprint_tagged (lib : Stdlib) (task : PyVal) (r : Request) :
    (tagged task r).fingerprint lib = r.fingerprint lib := rfl

structure BatchSpider where
  lib : Stdlib
  jobNs : String
  dumpsJson : Dict → String
  loadsJson : String → Except Exn PyVal

/-- The call that the master makes next. -/
inductive MonitorPhase where
  | resting
  | resetAll
  | deletePending
  | createBatch
  | resetLost (batch : BatchRecord)
  | claim (batch : BatchRecord)
  | push (batch : BatchRecord) (claimed : List Dict)
  | count (batch : BatchRecord)
  | finish (batch : BatchRecord)
  deriving DecidableEq

/-- A request that a pushed task was converted to. -/
structure Converted where
  serial : Nat
  claim : Nat
  request : Request

structure BatchJob (ν S φ : Type) where
  cluster : Cluster ν := {}
  store : S
  monitor : MonitorPhase := .resting
  /-- `<ns>:batch_pending`, with the number of each claim. -/
  pendingTasks : List (Nat × String) := []
  claims : Nat := 0
  filters : FilterAt ν → φ
  /-- The claims of what each poller has not converted. -/
  fetched : ν → List Nat := fun _ => []
  converted : ν → List Converted := fun _ => []

inductive BatchAct (ν : Type) where
  | tick (d : Nat)
  | ensureBatch (force : Bool)
  | monitor
  | stopMonitor
  | updateTask (id : PyVal) (state : Int)
  | join (n : ν) (keepAlive : Bool) (threads : Nat)
  | kill (n : ν)
  | fetch (n : ν)
  | convert (n : ν) (r : Request)
  | nextTask (n : ν)
  | filter (n : ν) (j : Nat) (works : Bool)
  | node (n : ν) (a : NodeAct)

/-- The steps of a node that the job has no part in. -/
def NodeAct.isOwn : NodeAct → Bool
  | .fetch _ | .convert _ | .nextTask | .filter _ _ => false
  | _ => true

namespace BatchJob

variable {ν S φ : Type} [DecidableEq ν] [BatchStore S] [Filter φ]
  (st : Setting) (codec : Codec) (spider : BatchSpider)

def interval : Nat :=
  if st.BATCH_INTERVAL_UNIT = "day" then st.BATCH_INTERVAL * 86400 else st.BATCH_INTERVAL * 3600

omit [DecidableEq ν] [Filter φ] in
/-- `_ensure_batch`, up to the first call that changes something. -/
def ensureBatch (s : BatchJob ν S φ) (force : Bool) : MonitorPhase :=
  match BatchStore.latestBatch s.store with
  | some latest =>
    if !latest.isDone then .resetLost latest
    else if !force && decide (BatchStore.batchAge s.store s.cluster.now latest.id < interval st) then .resting
    else .resetAll
  | none => .resetAll

omit [DecidableEq ν] [Filter φ] in
/-- The next call of the master. -/
def monitorStep (s : BatchJob ν S φ) : Option (BatchJob ν S φ) :=
  match s.monitor with
  | .resting => none
  | .resetAll =>
    some { s with store := BatchStore.resetAllTasks s.store, monitor := .deletePending }
  | .deletePending => some { s with pendingTasks := [], monitor := .createBatch }
  | .createBatch =>
    let (batch, store) :=
      BatchStore.createBatch s.store s.cluster.now (BatchStore.countTasks s.store).total
    some { s with store, monitor := .resetLost batch }
  | .resetLost batch =>
    let (_, store) := BatchStore.resetLostTasks s.store s.cluster.now st.BATCH_LOST_TASK_STALE
    some { s with store, monitor := .claim batch }
  | .claim batch =>
    let (claimed, store) := BatchStore.claimTasks s.store s.cluster.now st.BATCH_PUSH_LIMIT
    some { s with store, monitor := if claimed = [] then .count batch else .push batch claimed }
  | .push batch claimed =>
    let numbered := claimed.zipIdx.map fun (task, i) => (s.claims + i, spider.dumpsJson task)
    some { s with
      pendingTasks := s.pendingTasks ++ numbered
      claims := s.claims + claimed.length
      monitor := .count batch }
  | .count batch =>
    let counts := BatchStore.countTasks s.store
    some { s with
      store := BatchStore.updateBatchCounts s.store batch.id counts.done counts.failed counts.total
      monitor := if counts.total = 0 || counts.finished then .finish batch else .resetLost batch }
  | .finish batch => some { s with store := BatchStore.finishBatch s.store batch.id, monitor := .resting }

/-- A step of the nodes. -/
def nodeStep (s : BatchJob ν S φ) (a : ClusterAct ν) : Option (BatchJob ν S φ) :=
  (s.cluster.step st codec a).map fun cluster => { s with cluster }

/-- The poller pops tasks; if a text is no JSON, what it popped is gone. -/
def fetch (s : BatchJob ν S φ) (n : ν) : Option (BatchJob ν S φ) :=
  let popped := s.pendingTasks.take (max 1 st.TASK_BATCH_SIZE)
  let s' := { s with pendingTasks := s.pendingTasks.drop (max 1 st.TASK_BATCH_SIZE) }
  match popped.mapM fun e => spider.loadsJson e.2 with
  | .ok tasks =>
    (s'.nodeStep st codec (.node n (.fetch tasks))).map fun s' =>
      { s' with fetched := Function.update s.fetched n (popped.map Prod.fst) }
  | .error _ =>
    if (s.cluster.nodes n).alive ∧ (s.cluster.nodes n).poller.phase = .waiting then some s' else none

/-- `_task_requests_tagged` yields a request for the task that the poller is at. -/
def convert (s : BatchJob ν S φ) (n : ν) (r : Request) : Option (BatchJob ν S φ) :=
  let nd := s.cluster.nodes n
  match nd.poller.phase, s.fetched n with
  | .converting (task :: _), claim :: _ =>
    let r := tagged task r
    (s.nodeStep st codec (.node n (.convert r))).map fun s' =>
      { s' with
        converted :=
          Function.update s.converted n (s.converted n ++ [⟨nd.yielded.length, claim, r⟩]) }
  | _, _ => none

/-- A flush asks the filter of its node. -/
def filter (s : BatchJob ν S φ) (n : ν) (j : Nat) (works : Bool) : Option (BatchJob ν S φ) :=
  match (s.cluster.nodes n).requestBuffer.asking j with
  | some x =>
    let place := makeDedup st spider.jobNs n
    let (answer, f) := askFilter spider.lib (s.filters place) x.request works
    (s.nodeStep st codec (.node n (.filter j answer))).map fun s' =>
      { s' with filters := Function.update s.filters place f }
  | none => none

def step (s : BatchJob ν S φ) : BatchAct ν → Option (BatchJob ν S φ)
  | .tick d => s.nodeStep st codec (.tick d)
  | .ensureBatch force =>
    if s.monitor = .resting then some { s with monitor := s.ensureBatch st force } else none
  | .monitor => s.monitorStep st spider
  | .stopMonitor => some { s with monitor := .resting }
  | .updateTask id state => some { s with store := BatchStore.markTask s.store s.cluster.now id state }
  | .join n keepAlive threads =>
    (s.nodeStep st codec (.join n .task keepAlive threads)).map fun s' =>
      { s' with
        fetched := Function.update s.fetched n []
        converted := Function.update s.converted n [] }
  | .kill n => s.nodeStep st codec (.kill n)
  | .fetch n => s.fetch st codec spider n
  | .convert n r => s.convert st codec n r
  | .nextTask n =>
    (s.nodeStep st codec (.node n .nextTask)).map fun s' =>
      { s' with fetched := Function.update s.fetched n (s.fetched n).tail }
  | .filter n j works => s.filter st codec spider n j works
  | .node n a => if a.isOwn then s.nodeStep st codec (.node n a) else none

/-- The runs from any task table, batches, filters and content of Redis. -/
def machine : Machine (BatchJob ν S φ) (BatchAct ν) where
  start s :=
    (Cluster.machine st codec).start s.cluster ∧ s.monitor = .resting ∧
      ∀ n, s.fetched n = [] ∧ s.converted n = []
  step := step st codec spider

/-- What a worker writes to the task table. -/
def marksSettled : BatchAct ν → Bool
  | .updateTask _ state => decide (state = BatchStore.DONE ∨ state = BatchStore.FAILED)
  | _ => true

/-- The runs over a new `MemoryBatchStore` with any tasks, whose workers mark
tasks done or failed. -/
def memoryMachine : Machine (BatchJob ν MemoryBatchStore φ) (BatchAct ν) where
  start s := (machine st codec spider).start s ∧ s.store.batches = [] ∧ s.store.touched = []
  step s a := if marksSettled a then step st codec spider s a else none

end BatchJob

end Netspy
