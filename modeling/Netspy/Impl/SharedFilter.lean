import Netspy.Impl.Cluster
import Netspy.Impl.Dedup

/-!
# Nodes with one request filter

The nodes of a `Cluster` whose flushes ask one filter in Redis. A call of `add`
works, fails before it has an effect, or has its effect while the reply is
lost, which raises. `recorded` has the keys that a call of `add` wrote, and
`enqueued` the requests that were put into `z_requests`; no step reads these
two. What is left in the memory of a node that exits is gone as with a kill, so
an exit is one.
-/

namespace Netspy

inductive Reply where
  | answered
  | failed
  | lost
  deriving Repr, DecidableEq

/-- What `flush` gets from the filter, the filter then, and the key that the call
wrote. -/
def askShared {φ : Type} [Filter φ] (lib : Stdlib) (f : φ) (r : Request) (reply : Reply) :
    Answer × φ × Option String :=
  if r.filterRepeat then
    match r.fingerprint lib with
    | .error _ => (.raised, f, none)
    | .ok key =>
      let (fresh, f') := Filter.add f key
      let written := if fresh then some key else none
      match reply with
      | .answered => (if fresh then .fresh else .seen, f', written)
      | .failed => (.raised, f, none)
      | .lost => (.raised, f', written)
  else (.fresh, f, none)

structure SharedFilter (ν φ : Type) where
  cluster : Cluster ν := {}
  filter : φ
  recorded : List String := []
  enqueued : List Request := []

inductive SharedAct (ν : Type) where
  /-- Flush `j` of a node asks the filter about its next request. -/
  | ask (n : ν) (j : Nat) (reply : Reply)
  /-- Any other step. -/
  | cluster (a : ClusterAct ν)

/-- The request that a step puts into the queue. -/
def Cluster.putBy {ν : Type} (s : Cluster ν) : ClusterAct ν → Option Request
  | .node n (.push j true) => ((s.nodes n).requestBuffer.putting j).map Tagged.request
  | .node n (.pushBack true) => (s.nodes n).leftovers.head?.map Leftover.request
  | _ => none

namespace SharedFilter

variable {ν φ : Type} [DecidableEq ν] [Filter φ] (st : Setting) (codec : Codec) (lib : Stdlib)

/-- The key that a call of `add` writes. -/
def writtenBy (s : SharedFilter ν φ) (n : ν) (j : Nat) (reply : Reply) : Option String :=
  ((s.cluster.nodes n).requestBuffer.asking j).bind fun x => (askShared lib s.filter x.request reply).2.2

def ask (s : SharedFilter ν φ) (n : ν) (j : Nat) (reply : Reply) : Option (SharedFilter ν φ) :=
  match (s.cluster.nodes n).requestBuffer.asking j with
  | some x =>
    let (answer, f, written) := askShared lib s.filter x.request reply
    (s.cluster.step st codec (.node n (.filter j answer))).map fun cluster =>
      { s with cluster, filter := f, recorded := s.recorded ++ written.toList }
  | none => none

def step (s : SharedFilter ν φ) : SharedAct ν → Option (SharedFilter ν φ)
  | .ask n j reply => s.ask st codec lib n j reply
  | .cluster (.node _ (.filter _ _)) => none
  | .cluster a =>
    (s.cluster.step st codec a).map fun cluster =>
      { s with cluster, enqueued := s.enqueued ++ (s.cluster.putBy a).toList }

/-- The runs from any content of the sets, with a filter that contains nothing. -/
def machine : Machine (SharedFilter ν φ) (SharedAct ν) where
  start s :=
    (Cluster.machine st codec).start s.cluster ∧ (∀ key, Filter.contains s.filter key = false) ∧
      s.recorded = [] ∧ s.enqueued = []
  step := step st codec lib

/-! ## Where the requests of a fingerprint are -/

omit [DecidableEq ν] [Filter φ] in
/-- A request with this fingerprint has been put into `z_requests`. -/
def Put (s : SharedFilter ν φ) (key : String) : Prop := ∃ r ∈ s.enqueued, r.fingerprint lib = .ok key

/-- The node holds one in its request buffer, or will push one back. -/
def Holds (nd : RedisScheduler) (key : String) : Prop :=
  ∃ r, ((∃ x ∈ nd.requestBuffer.entries, x.request = r) ∨ ∃ l ∈ nd.leftovers, l.request = r) ∧
    r.fingerprint lib = .ok key

omit [DecidableEq ν] [Filter φ] in
/-- Every recorded fingerprint is that of a request that was put, or that a node
still alive holds. -/
def Covered (s : SharedFilter ν φ) : Prop := ∀ key ∈ s.recorded,
  s.Put lib key ∨ ∃ n, (s.cluster.nodes n).alive = true ∧ Holds lib (s.cluster.nodes n) key

/-- The node holds one that will not be asked about again. -/
def HoldsPast (nd : RedisScheduler) (key : String) : Prop :=
  ∃ r, ((∃ x, nd.requestBuffer.Past x ∧ x.request = r) ∨ ∃ l ∈ nd.leftovers, l.request = r) ∧
    r.fingerprint lib = .ok key

omit [DecidableEq ν] [Filter φ] in
/-- It has been put, or a node other than `n` holds it so. -/
def SafeWithout (s : SharedFilter ν φ) (n : ν) (key : String) : Prop :=
  s.Put lib key ∨ ∃ i, i ≠ n ∧ (s.cluster.nodes i).alive = true ∧ HoldsPast lib (s.cluster.nodes i) key

omit [DecidableEq ν] in
/-- No node is killed while it holds a request past the filter, with a recorded
fingerprint that is not safe without it; no `_on_shutdown` gives up such a
request when a `put` raises; and no reply is lost to a call of `add` that writes
a fingerprint that is not safe without it. -/
def Guard (s : SharedFilter ν φ) : SharedAct ν → Prop
  | .cluster (.kill n) =>
    ∀ key ∈ s.recorded, HoldsPast lib (s.cluster.nodes n) key → s.SafeWithout lib n key
  | .cluster (.node n (.pushBack false)) =>
    ∀ key ∈ s.recorded, (∃ l ∈ (s.cluster.nodes n).leftovers, l.request.fingerprint lib = .ok key) →
      s.SafeWithout lib n key
  | .ask n j .lost => ∀ key ∈ s.writtenBy lib n j .lost, s.SafeWithout lib n key
  | _ => True

end SharedFilter

end Netspy
