import Netspy.Framework.TaskBoard
import Netspy.Impl.BatchStore

/-!
# `core/batch_store.py`: many workers at one task table

The methods of both stores that write to the task table, called by any number of threads
or processes. Those of `MemoryBatchStore` hold its lock, and each is a step.

Of a `MysqlBatchStore` the statements are the steps. A `claim_tasks` is a transaction: it
selects rows `FOR UPDATE`, updates them, and commits, and in between it may be rolled back
by an error or by the death of its process. Which rows a `SELECT` with a `LIMIT` finds, is
up to the server. A statement waits for the rows that another transaction has locked, and
sees no update before its commit. Whether `update_time` follows the updates of its row is
a property of the table (`autoTime`). The column of `id_field` is the primary key.

`log` and `returned` record what happened; no step depends on them. The batch records and
`count_tasks` are left out.
-/

namespace Netspy

open BatchStore

/-! ## `MemoryBatchStore` -/

structure MemoryTasks where
  now : Nat := 0
  store : MemoryBatchStore
  log : List (BoardEvent PyVal Int) := []
  returned : List (List Dict) := []

inductive MemoryTasksAct where
  | tick (d : Nat)
  | claimTasks (limit : Nat)
  | markTask (id : PyVal) (state : Int)
  | resetAllTasks
  | resetLostTasks (stale : Nat)

namespace MemoryTasks

def step (s : MemoryTasks) : MemoryTasksAct → Option MemoryTasks
  | .tick d => some { s with now := s.now + d }
  | .claimTasks limit =>
    let (claimed, store) := s.store.claimTasks s.now limit
    let ids := (MemoryBatchStore.claimRows (max 1 limit) s.store.tasks).2.map TaskRow.id
    some { s with store, returned := s.returned ++ [claimed], log := .claimed ids :: s.log }
  | .markTask id state =>
    some { s with
      store := s.store.markTask s.now id state
      log := if id ∈ s.store.tasks.map TaskRow.id then .marked id state :: s.log else s.log }
  | .resetAllTasks =>
    some { s with store := s.store.resetAllTasks, log := .reset (s.store.tasks.map TaskRow.id) :: s.log }
  | .resetLostTasks stale =>
    let lost := (s.store.tasks.filter (s.store.isLost s.now stale)).map TaskRow.id
    some { s with store := (s.store.resetLostTasks s.now stale).2, log := .reset lost :: s.log }

def machine : Machine MemoryTasks MemoryTasksAct where
  start s := s.log = [] ∧ (s.store.tasks.map TaskRow.id).Nodup
  step := step

end MemoryTasks

/-! ## `MysqlBatchStore` -/

/-- A row of the task table, as it is committed; times are in seconds. -/
structure MysqlRow where
  id : PyVal
  state : Int := TODO
  time : Option Nat := none
  columns : Dict := []
  deriving DecidableEq

/-- How far a `claim_tasks` is, with the rows that it has read and locked. -/
inductive MysqlClaim where
  | selected (rows : List MysqlRow)
  | updated (rows : List MysqlRow)

def MysqlClaim.rows : MysqlClaim → List MysqlRow
  | .selected rows | .updated rows => rows

structure MysqlTasks where
  autoTime : Bool := true
  now : Nat := 0
  tasks : List MysqlRow := []
  claims : Nat → Option MysqlClaim := fun _ => none
  /-- Whose transaction has locked the row of this id. -/
  locks : PyVal → Option Nat := fun _ => none
  log : List (BoardEvent PyVal Int) := []
  returned : List (List MysqlRow) := []

inductive MysqlTasksAct where
  | tick (d : Nat)
  /-- `SELECT * … WHERE batch_status=0 LIMIT n FOR UPDATE`, which finds these. -/
  | select (i : Nat) (limit : Int) (found : List MysqlRow)
  | update (i : Nat)
  /-- The commit; the worker may not live to see its answer. -/
  | commit (i : Nat) (answered : Bool)
  | rollback (i : Nat)
  | markTask (id : PyVal) (state : Int)
  | resetAllTasks
  | resetLostTasks (stale : Nat)

namespace MysqlTasks

/-- What an `UPDATE` that sets the state makes of a row. -/
def setState (s : MysqlTasks) (state : Int) (row : MysqlRow) : MysqlRow :=
  { row with state, time := if s.autoTime then some s.now else row.time }

/-- `UPDATE … SET batch_status=… WHERE …`. -/
def updateWhere (s : MysqlTasks) (state : Int) (p : MysqlRow → Bool) : MysqlTasks :=
  { s with tasks := s.tasks.map fun row => if p row then s.setState state row else row }

/-- The end of the transaction of the worker `i`. -/
def unlock (s : MysqlTasks) (i : Nat) : MysqlTasks :=
  { s with
    claims := Function.update s.claims i none
    locks := fun id => if s.locks id = some i then none else s.locks id }

/-- `batch_status=2 AND update_time < DATE_SUB(NOW(), INTERVAL stale SECOND)`. -/
def isLost (s : MysqlTasks) (stale : Nat) (row : MysqlRow) : Bool :=
  decide (row.state = DOING) && row.time.any fun time => decide (time + stale < s.now)

def step (s : MysqlTasks) : MysqlTasksAct → Option MysqlTasks
  | .tick d => some { s with now := s.now + d }
  | .select i limit found =>
    if (s.claims i).isNone ∧ (found.map MysqlRow.id).Nodup ∧ found.length ≤ max 1 limit ∧
        ∀ row ∈ found, row ∈ s.tasks ∧ row.state = TODO ∧ s.locks row.id = none then
      if found.isEmpty then some { s with returned := s.returned ++ [[]] }
      else
        some { s with
          claims := Function.update s.claims i (some (.selected found))
          locks := fun id => if id ∈ found.map MysqlRow.id then some i else s.locks id }
    else none
  | .update i =>
    match s.claims i with
    | some (.selected rows) => some { s with claims := Function.update s.claims i (some (.updated rows)) }
    | _ => none
  | .commit i answered =>
    match s.claims i with
    | some (.updated rows) =>
      let ids := rows.map MysqlRow.id
      some { (s.updateWhere DOING (·.id ∈ ids)).unlock i with
        log := .claimed ids :: s.log
        returned := if answered then s.returned ++ [rows] else s.returned }
    | _ => none
  | .rollback i => if (s.claims i).isSome then some (s.unlock i) else none
  | .markTask id state =>
    if (s.locks id).isNone then
      some { s.updateWhere state (·.id = id) with
        log := if id ∈ s.tasks.map MysqlRow.id then .marked id state :: s.log else s.log }
    else none
  | .resetAllTasks =>
    if ∀ row ∈ s.tasks, s.locks row.id = none then
      some { s.updateWhere TODO (fun _ => true) with log := .reset (s.tasks.map MysqlRow.id) :: s.log }
    else none
  | .resetLostTasks stale =>
    some { s.updateWhere TODO (s.isLost stale) with
      log := .reset ((s.tasks.filter (s.isLost stale)).map MysqlRow.id) :: s.log }

def machine : Machine MysqlTasks MysqlTasksAct where
  start s := s = { autoTime := s.autoTime, now := s.now, tasks := s.tasks } ∧ (s.tasks.map MysqlRow.id).Nodup
  step := step

end MysqlTasks

end Netspy
