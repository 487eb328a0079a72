import Mathlib.Logic.Function.Basic
import Netspy.Framework.Machine
import Netspy.Impl.Collector
import Netspy.Impl.TaskQueue

/-!
# Leases of requests that a node holds

`Collector.get_request` and `done` with the calls of `RedisTaskQueue` that they
make, and `_renew_leases` of the heartbeat, on any number of nodes with one
clock. A call that writes a deadline reads the clock first and reaches Redis
later; each of the two is a step, as is each section under the collector's lock
and each script.

A taken request is known by its number in `taken`, which has its member and the
time that its first deadline was computed from. A request is done with once
`Collector.done` has taken it out of `_in_progress`, whoever calls that.
-/

namespace Netspy

/-- A call of `get_request`, from its first call to the queue on. -/
inductive GetCall where
  /-- The deadline of `_take(1)` is computed. -/
  | asking (since : Nat)
  | blocked
  /-- `bzpopmin` returned, and then the deadline is computed. -/
  | popped (member : String)
  | leasing (member : String) (since : Nat)
  /-- The first request is there, and then the deadline of `get_batch` is
  computed. -/
  | first (t : Nat)
  | batching (t : Nat) (since : Nat)
  /-- The batch is there, and then it is in `_buffer`. -/
  | batch (t : Nat) (extra : List Nat)
  | buffered (t : Nat)
  | returned
  deriving Repr, DecidableEq

namespace GetCall

/-- The requests that a call has and that are not recorded in the collector. -/
def held : GetCall → List Nat
  | .first t | .batching t _ | .buffered t => [t]
  | .batch t extra => t :: extra
  | _ => []

/-- The deadlines that a call has computed and not written. -/
def computed : GetCall → List Nat
  | .asking since | .leasing _ since | .batching _ since => [since]
  | _ => []

/-- The member that is in no set. -/
def unleased : GetCall → Option String
  | .popped m | .leasing m _ => some m
  | _ => none

end GetCall

/-- A call of `_renew_leases`: since when, with the members that it is for, and
once it has computed the deadline, from which time. -/
structure RenewCall where
  begun : Nat
  tokens : List String
  computed : Option Nat := none
  deriving Repr, DecidableEq

structure LeaseHolder where
  running : Bool := false
  collector : Collector Nat := {}
  calls : List GetCall := []
  /-- Requests that `done` was called for and whose `ZREM` is to come. -/
  settling : List Nat := []
  taken : List (String × Nat) := []
  renewal : Option RenewCall := none
  /-- When the last renewal that is over began, or the node itself. -/
  renewedAt : Nat := 0
  deriving Repr, DecidableEq

namespace LeaseHolder

def member (nd : LeaseHolder) (t : Nat) : Option String := (nd.taken[t]?).map Prod.fst

/-- The requests that calls of `get_request` have. -/
def unrecorded (nd : LeaseHolder) : List Nat := nd.calls.flatMap GetCall.held

/-- All that the node has taken and is not done with. -/
def held (nd : LeaseHolder) : List Nat := nd.collector.heldRequests ++ nd.unrecorded

/-- `held_requests`, with their tokens. -/
def tokens (nd : LeaseHolder) : List String := nd.collector.heldRequests.filterMap nd.member

def setCall (nd : LeaseHolder) (i : Nat) (c : GetCall) : LeaseHolder := { nd with calls := nd.calls.set i c }

end LeaseHolder

structure Renewal (ν : Type) where
  now : Nat := 0
  tasks : RedisTaskQueue := {}
  nodes : ν → LeaseHolder := fun _ => {}
  /-- The payloads that there were at the start or that were put. -/
  used : List String := []

inductive HolderAct where
  | popBuffer
  | ask
  | take (i : Nat)
  | bzpopmin (i : Nat)
  | timeout (i : Nat)
  | computeLease (i : Nat)
  | recordLease (i : Nat)
  | computeBatch (i : Nat)
  | takeBatch (i : Nat)
  | extend (i : Nat)
  | mark (i : Nat)
  | done (t : Nat)
  | zrem (t : Nat)
  | renew
  | computeRenewal
  | renewScript

inductive RenewalAct (ν : Type) where
  | tick (d : Nat)
  | put (r : Request)
  /-- `reclaim_expired`, which read the clock at `asOf`. -/
  | reclaim (asOf limit : Nat)
  | join (n : ν)
  | kill (n : ν)
  | node (n : ν) (a : HolderAct)

namespace Renewal

/-- The member that call `i` of a node has popped, and that is in no set. -/
def unleased {ν : Type} (s : Renewal ν) (n : ν) (i : Nat) : Option String :=
  ((s.nodes n).calls[i]?).bind GetCall.unleased

variable {ν : Type} [DecidableEq ν] (st : Setting) (codec : Codec)

def setNode (s : Renewal ν) (n : ν) (nd : LeaseHolder) : Renewal ν :=
  { s with nodes := Function.update s.nodes n nd }

def setTasks (s : Renewal ν) (q : RedisTaskQueue) : Renewal ν := { s with tasks := q }

section
variable (s : Renewal ν) (n : ν) (nd : LeaseHolder) (q : RedisTaskQueue)

@[simp] theorem setNode_now : (s.setNode n nd).now = s.now := rfl
@[simp] theorem setNode_tasks : (s.setNode n nd).tasks = s.tasks := rfl
@[simp] theorem setNode_nodes : (s.setNode n nd).nodes = Function.update s.nodes n nd := rfl
@[simp] theorem setNode_used : (s.setNode n nd).used = s.used := rfl
omit [DecidableEq ν] in
@[simp] theorem setTasks_now : (s.setTasks q).now = s.now := rfl
omit [DecidableEq ν] in
@[simp] theorem setTasks_tasks : (s.setTasks q).tasks = q := rfl
omit [DecidableEq ν] in
@[simp] theorem setTasks_nodes : (s.setTasks q).nodes = s.nodes := rfl
omit [DecidableEq ν] in
@[simp] theorem setTasks_used : (s.setTasks q).used = s.used := rfl

end

def act (s : Renewal ν) (n : ν) (a : HolderAct) : Option (Renewal ν) :=
  let nd := s.nodes n
  match a with
  | .popBuffer =>
    match nd.collector.popBuffer with
    | some (_, collector) => some (s.setNode n { nd with collector })
    | none => none
  | .ask => some (s.setNode n { nd with calls := nd.calls ++ [.asking s.now] })
  | .take i =>
    match nd.calls[i]? with
    | some (.asking since) =>
      match s.tasks.take st since 1 with
      | ([], _) => some (s.setNode n (nd.setCall i .blocked))
      | (m :: _, q) =>
        some ((s.setTasks q).setNode n
          ({ nd with taken := nd.taken ++ [(m, since)] }.setCall i (.first nd.taken.length)))
    | _ => none
  | .bzpopmin i =>
    match nd.calls[i]?, s.tasks.bzpopmin with
    | some .blocked, some (m, q) => some ((s.setTasks q).setNode n (nd.setCall i (.popped m)))
    | _, _ => none
  | .timeout i =>
    match nd.calls[i]? with
    | some .blocked => some (s.setNode n (nd.setCall i .returned))
    | _ => none
  | .computeLease i =>
    match nd.calls[i]? with
    | some (.popped m) => some (s.setNode n (nd.setCall i (.leasing m s.now)))
    | _ => none
  | .recordLease i =>
    match nd.calls[i]? with
    | some (.leasing m since) =>
      some ((s.setTasks (s.tasks.recordLease st since m)).setNode n
        ({ nd with taken := nd.taken ++ [(m, since)] }.setCall i (.first nd.taken.length)))
    | _ => none
  | .computeBatch i =>
    match nd.calls[i]? with
    | some (.first t) => some (s.setNode n (nd.setCall i (.batching t s.now)))
    | _ => none
  | .takeBatch i =>
    match nd.calls[i]? with
    | some (.batching t since) =>
      let (ms, q) := s.tasks.take st since (st.COLLECTOR_TASK_COUNT - 1)
      let extra := (List.range ms.length).map (nd.taken.length + ·)
      some ((s.setTasks q).setNode n
        ({ nd with taken := nd.taken ++ ms.map fun m => (m, since) }.setCall i (.batch t extra)))
    | _ => none
  | .extend i =>
    match nd.calls[i]? with
    | some (.batch t extra) =>
      let collector := { nd.collector with buffer := nd.collector.buffer ++ extra }
      some (s.setNode n ({ nd with collector }.setCall i (.buffered t)))
    | _ => none
  | .mark i =>
    match nd.calls[i]? with
    | some (.buffered t) =>
      some (s.setNode n ({ nd with collector := nd.collector.mark t }.setCall i .returned))
    | _ => none
  | .done t =>
    if t ∈ nd.collector.inProgress then
      some (s.setNode n { nd with collector := nd.collector.done t, settling := nd.settling ++ [t] })
    else none
  | .zrem t =>
    match nd.member t with
    | some m =>
      if t ∈ nd.settling then
        some ((s.setTasks (s.tasks.doneMember m)).setNode n { nd with settling := nd.settling.erase t })
      else none
    | none => none
  | .renew =>
    match nd.renewal with
    | none => some (s.setNode n { nd with renewal := some ⟨s.now, nd.tokens, none⟩ })
    | some _ => none
  | .computeRenewal =>
    match nd.renewal with
    | some ⟨begun, tokens, none⟩ => some (s.setNode n { nd with renewal := some ⟨begun, tokens, some s.now⟩ })
    | _ => none
  | .renewScript =>
    match nd.renewal with
    | some ⟨begun, tokens, some computed⟩ =>
      some ((s.setTasks (s.tasks.renew st computed tokens)).setNode n
        { nd with renewal := none, renewedAt := begun })
    | _ => none

def step (s : Renewal ν) : RenewalAct ν → Option (Renewal ν)
  | .tick d => some { s with now := s.now + d }
  | .put r => some { s with tasks := s.tasks.put codec r, used := codec.dumps r :: s.used }
  | .reclaim asOf limit =>
    if asOf ≤ s.now then some (s.setTasks (s.tasks.reclaimExpired st asOf limit true).2) else none
  | .join n =>
    if s.nodes n = {} then some (s.setNode n { running := true, renewedAt := s.now }) else none
  | .kill n => some (s.setNode n { s.nodes n with running := false })
  | .node n a => if (s.nodes n).running then s.act st n a else none

/-- The runs of nodes that start on sets with pairwise distinct payloads. -/
def machine : Machine (Renewal ν) (RenewalAct ν) where
  start s :=
    (∀ n, s.nodes n = {}) ∧ (∀ m, m ∈ s.tasks.queue → m ∈ s.used ∧ m ∉ s.tasks.inflight) ∧
      ∀ m, m ∈ s.tasks.inflight → m ∈ s.used
  step := step st codec

end Renewal

end Netspy
