import Netspy.Impl.BatchSpider

/-!
# Which task copy a row is settled by

The master of a batch job, any number of workers, and all that is on its way
between them: the pushed copies in `<ns>:batch_pending`, the tasks that pollers
have popped, the requests in buffers, in the queue and in workers, the hooks
that wait for items to be persisted, and the requests in `failed_requests.jsonl`.
Where a request is makes no difference to the task table, so each kind is one
list; what a worker loses when it is killed is forgotten piece by piece.

Each pushed copy has the number of its claim, and what comes from the copy keeps
it. No step reads it, or the number of the batch, which counts the resets.
-/

namespace Netspy

/-- A request, and the claim whose copy it comes from. -/
structure Flight where
  request : Request
  claim : Option Nat

/-- A call of `mark_task`. -/
structure Mark where
  id : PyVal
  state : Int
  claim : Option Nat
  batch : Nat
  deriving DecidableEq

structure BatchWork (S : Type) where
  now : Nat := 0
  store : S
  monitor : MonitorPhase := .resting
  /-- `<ns>:batch_pending`, with the number of each claim. -/
  pendingTasks : List (Nat × String) := []
  batch : Nat := 0
  /-- The batch that each claim was pushed in. -/
  pushedIn : List Nat := []
  fetched : List (Nat × PyVal) := []
  flights : List Flight := []
  /-- The `mark_task` calls that wait for items, by claim and task. -/
  hooks : List (Option Nat × PyVal) := []
  dumped : List Flight := []
  marks : List Mark := []

inductive BatchWorkAct where
  | tick (d : Nat)
  | ensureBatch (force : Bool)
  | monitor
  | stopMonitor
  | fetch
  /-- The task at `i` is converted to a request. -/
  | convert (i : Nat) (r : Request)
  | endTask (i : Nat)
  /-- The request at `j`, or a hook, is changed, copied or retried as `r`. -/
  | change (j : Nat) (r : Request)
  | yieldRequest (j : Nat) (r : Request)
  | endRequest (j : Nat)
  /-- `update_task` in the context of a request, which has items to persist or
  has none. -/
  | updateTask (j : Nat) (id : PyVal) (ok owns : Bool)
  | failedRequest (j : Nat)
  | failedSink (j : Nat)
  | replay (k : Nat)
  | persisted (h : Nat)
  | loseHook (h : Nat)

/-- The task that `failed_request` fails. -/
def failedTask (st : Setting) (r : Request) : Option PyVal :=
  match r.cbKwargs.get "task" with
  | .dict task =>
    match task.lookup (.str st.BATCH_TASK_ID_FIELD) with
    | some .none => none
    | tid => tid
  | _ => none

namespace BatchWork

variable {S : Type} [BatchStore S] (st : Setting) (spider : BatchSpider)

/-- What the master sees. -/
def job (s : BatchWork S) : BatchJob Unit S LiteFilter where
  cluster := { now := s.now }
  store := s.store
  monitor := s.monitor
  pendingTasks := s.pendingTasks
  claims := s.pushedIn.length
  filters _ := {}

/-- The next call of the master. -/
def monitorStep (s : BatchWork S) : Option (BatchWork S) :=
  (s.job.monitorStep st spider).map fun t =>
    { s with
      store := t.store
      monitor := t.monitor
      pendingTasks := t.pendingTasks
      batch := if s.monitor = .resetAll then s.batch + 1 else s.batch
      pushedIn := s.pushedIn ++ List.replicate (t.claims - s.pushedIn.length) s.batch }

/-- `fetch_tasks`; if a text is no JSON, what it popped is gone. -/
def fetch (s : BatchWork S) : BatchWork S :=
  let popped := s.pendingTasks.take (max 1 st.TASK_BATCH_SIZE)
  let s := { s with pendingTasks := s.pendingTasks.drop (max 1 st.TASK_BATCH_SIZE) }
  match popped.mapM fun e => spider.loadsJson e.2 with
  | .ok tasks => { s with fetched := s.fetched ++ (popped.map Prod.fst).zip tasks }
  | .error _ => s

def mark (s : BatchWork S) (claim : Option Nat) (id : PyVal) (state : Int) : BatchWork S :=
  { s with
    store := BatchStore.markTask s.store s.now id state
    marks := s.marks ++ [⟨id, state, claim, s.batch⟩] }

/-- `update_task`: a task is done once the items of the request are persisted, and
failed at once. -/
def updateTask (s : BatchWork S) (claim : Option Nat) (id : PyVal) (ok owns : Bool) : BatchWork S :=
  if !ok then s.mark claim id BatchStore.FAILED
  else if owns then { s with hooks := s.hooks ++ [(claim, id)] }
  else s.mark claim id BatchStore.DONE

def step (s : BatchWork S) : BatchWorkAct → Option (BatchWork S)
  | .tick d => some { s with now := s.now + d }
  | .ensureBatch force =>
    if s.monitor = .resting then some { s with monitor := s.job.ensureBatch st force } else none
  | .monitor => s.monitorStep st spider
  | .stopMonitor => some { s with monitor := .resting }
  | .fetch => some (s.fetch st spider)
  | .convert i r =>
    s.fetched[i]?.map fun e => { s with flights := s.flights ++ [⟨tagged e.2 r, some e.1⟩] }
  | .endTask i => some { s with fetched := s.fetched.eraseIdx i }
  | .change j r =>
    s.flights[j]?.map fun f => { s with flights := s.flights.set j { f with request := r } }
  | .yieldRequest j r =>
    s.flights[j]?.map fun f => { s with flights := s.flights ++ [{ f with request := r }] }
  | .endRequest j => some { s with flights := s.flights.eraseIdx j }
  | .updateTask j id ok owns => s.flights[j]?.map fun f => s.updateTask f.claim id ok owns
  | .failedRequest j =>
    s.flights[j]?.map fun f =>
      match failedTask st f.request with
      | some tid => s.updateTask f.claim tid false false
      | none => s
  | .failedSink j => s.flights[j]?.map fun f => { s with dumped := s.dumped ++ [f] }
  | .replay k => s.dumped[k]?.map fun f => { s with flights := s.flights ++ [f] }
  | .persisted h =>
    s.hooks[h]?.map fun e => { s with hooks := s.hooks.eraseIdx h }.mark e.1 e.2 BatchStore.DONE
  | .loseHook h => some { s with hooks := s.hooks.eraseIdx h }

/-- The runs from any task table and batches. -/
def machine : Machine (BatchWork S) BatchWorkAct where
  start s := s.monitor = .resting ∧ s.pendingTasks = [] ∧ s.pushedIn = [] ∧ s.fetched = [] ∧ s.flights = [] ∧
    s.hooks = [] ∧ s.dumped = [] ∧ s.marks = []
  step := step st spider

end BatchWork

end Netspy
