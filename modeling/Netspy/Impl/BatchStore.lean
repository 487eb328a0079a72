import Netspy.Impl.Value

/-!
# `core/batch_store.py`

The task table and the batch records of a `BatchSpider`: the interface, and
the store that keeps both in memory. Of a batch record only what decides
something or is counted is kept.
-/

namespace Netspy

namespace BatchStore

def TODO : Int := 0
def DONE : Int := 1
def DOING : Int := 2
def FAILED : Int := -1

end BatchStore

structure BatchRecord where
  id : Nat
  totalCount : Nat
  doneCount : Nat := 0
  failCount : Nat := 0
  isDone : Bool := false
  deriving Repr, DecidableEq

structure TaskCounts where
  total : Nat := 0
  todo : Nat := 0
  doing : Nat := 0
  done : Nat := 0
  failed : Nat := 0
  deriving Repr, DecidableEq

namespace TaskCounts

def settled (c : TaskCounts) : Nat := c.done + c.failed

def finished (c : TaskCounts) : Bool := decide (0 < c.total ∧ c.total ≤ c.settled)

end TaskCounts

class BatchStore (S : Type) where
  latestBatch : S → Option BatchRecord
  /-- The time since the batch was created. -/
  batchAge : S → (now id : Nat) → Nat
  createBatch : S → (now total : Nat) → BatchRecord × S
  updateBatchCounts : S → (id done failed total : Nat) → S
  finishBatch : S → (id : Nat) → S
  countTasks : S → TaskCounts
  resetAllTasks : S → S
  resetLostTasks : S → (now stale : Nat) → Nat × S
  claimTasks : S → (now limit : Nat) → List Dict × S
  markTask : S → (now : Nat) → (id : PyVal) → (state : Int) → S

/-- A row of the task table. -/
structure TaskRow where
  id : PyVal
  state : Int := BatchStore.TODO
  columns : Dict := []
  deriving Repr, DecidableEq

structure MemoryBatchStore where
  idField : String := "id"
  stateField : String := "batch_status"
  tasks : List TaskRow := []
  /-- Newest first. -/
  touched : List (PyVal × Nat) := []
  batches : List BatchRecord := []
  createdAt : List (Nat × Nat) := []
  seq : Nat := 0
  deriving Repr, DecidableEq

namespace MemoryBatchStore

open BatchStore

def latestBatch (db : MemoryBatchStore) : Option BatchRecord := db.batches.getLast?

def batchAge (db : MemoryBatchStore) (now id : Nat) : Nat := now - (db.createdAt.lookup id).getD now

def createBatch (db : MemoryBatchStore) (now total : Nat) : BatchRecord × MemoryBatchStore :=
  let record : BatchRecord := { id := db.seq + 1, totalCount := total }
  (record, { db with
    seq := db.seq + 1
    batches := db.batches ++ [record]
    createdAt := (record.id, now) :: db.createdAt })

def updateRecord (db : MemoryBatchStore) (id : Nat) (f : BatchRecord → BatchRecord) : MemoryBatchStore :=
  { db with batches := db.batches.map fun b => if b.id = id then f b else b }

def updateBatchCounts (db : MemoryBatchStore) (id done failed total : Nat) : MemoryBatchStore :=
  db.updateRecord id fun b => { b with doneCount := done, failCount := failed, totalCount := total }

def finishBatch (db : MemoryBatchStore) (id : Nat) : MemoryBatchStore :=
  db.updateRecord id fun b => { b with isDone := true }

def countTasks (db : MemoryBatchStore) : TaskCounts where
  total := db.tasks.length
  todo := db.tasks.countP (·.state = TODO)
  doing := db.tasks.countP (·.state = DOING)
  done := db.tasks.countP (·.state = DONE)
  failed := db.tasks.countP (·.state = FAILED)

def resetAllTasks (db : MemoryBatchStore) : MemoryBatchStore :=
  { db with tasks := db.tasks.map fun row => { row with state := TODO }, touched := [] }

/-- A row in `DOING` that was not touched for `stale`. -/
def isLost (db : MemoryBatchStore) (now stale : Nat) (row : TaskRow) : Bool :=
  row.state = DOING && decide (stale ≤ now - (db.touched.lookup row.id).getD now)

def resetLostTasks (db : MemoryBatchStore) (now stale : Nat) : Nat × MemoryBatchStore :=
  (db.tasks.countP (db.isLost now stale),
    { db with tasks := db.tasks.map fun row =>
        if db.isLost now stale row then { row with state := TODO } else row })

/-- The loop of `claim_tasks`: the rows after it, and the claimed ones. -/
def claimRows : (limit : Nat) → List TaskRow → List TaskRow × List TaskRow
  | 0, rows => (rows, [])
  | _, [] => ([], [])
  | k + 1, row :: rows =>
    if row.state = TODO then
      let (after, claimed) := claimRows k rows
      ({ row with state := DOING } :: after, { row with state := DOING } :: claimed)
    else
      let (after, claimed) := claimRows (k + 1) rows
      (row :: after, claimed)

def rowDict (db : MemoryBatchStore) (row : TaskRow) : Dict :=
  [(db.idField, row.id), (db.stateField, .int row.state)] ++ row.columns

def claimTasks (db : MemoryBatchStore) (now limit : Nat) : List Dict × MemoryBatchStore :=
  let (tasks, claimed) := claimRows (max 1 limit) db.tasks
  (claimed.map db.rowDict, { db with
    tasks
    touched := claimed.reverse.map (fun row => (row.id, now)) ++ db.touched })

/-- The first row of this id. -/
def markRows (id : PyVal) (state : Int) : List TaskRow → Option (List TaskRow)
  | [] => none
  | row :: rows =>
    if row.id = id then some ({ row with state } :: rows) else (markRows id state rows).map (row :: ·)

def markTask (db : MemoryBatchStore) (now : Nat) (id : PyVal) (state : Int) : MemoryBatchStore :=
  match markRows id state db.tasks with
  | some tasks => { db with tasks, touched := (id, now) :: db.touched }
  | none => db

instance : BatchStore MemoryBatchStore where
  latestBatch := latestBatch
  batchAge := batchAge
  createBatch := createBatch
  updateBatchCounts := updateBatchCounts
  finishBatch := finishBatch
  countTasks := countTasks
  resetAllTasks := resetAllTasks
  resetLostTasks := resetLostTasks
  claimTasks := claimTasks
  markTask := markTask

end MemoryBatchStore

end Netspy
