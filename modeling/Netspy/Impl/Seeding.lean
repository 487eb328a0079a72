import Mathlib.Data.Fintype.Defs
import Netspy.Impl.Cluster

/-!
# How nodes seed

The start of a `RedisScheduler`, up to its threads: `_seed_or_skip` takes the
lock `<ns>:lock:seed`, looks at the queue and puts the requests of
`start_requests` into the node's buffer, which flushes when it is full and at
the end. Until its threads start a node has no other part in the `Cluster`. A
call that raises there ends the process, as a kill does, and so does
`start_requests` itself; all nodes have the same `start_requests`. A request of
it is known by its number in the list, and `seeded` has, for each node, the
numbers under which these requests are among those its buffer got.
-/

namespace Netspy

/-- How far a node is in `run`. -/
inductive SeedPhase where
  | starting
  /-- It has the lock, and has not looked at the queue yet. -/
  | locked
  /-- It has put so many of the requests. -/
  | seeding (count : Nat)
  | passed
  | running
  deriving Repr, DecidableEq

structure Seeding (ν : Type) where
  cluster : Cluster ν := {}
  /-- When the lock expires. -/
  seedLock : Option Nat := none
  phases : ν → SeedPhase := fun _ => .starting
  seeded : ν → List Nat := fun _ => []

inductive SeedAct (ν : Type) where
  | tick (d : Nat)
  | join (n : ν) (keepAlive : Bool) (threads : Nat)
  | kill (n : ν)
  | acquire (n : ν)
  | checkQueue (n : ν)
  /-- A failed request of an earlier run is put. -/
  | replay (n : ν) (r : Request)
  | seed (n : ν)
  | endSeed (n : ν)
  | startThreads (n : ν)
  | node (n : ν) (a : NodeAct)

/-- The steps of a flush that raises nothing. -/
def NodeAct.isFlush : NodeAct → Bool
  | .swap => true
  | .filter _ answer => answer ≠ .raised
  | .push _ works => works
  | _ => false

def NodeAct.isSeed : NodeAct → Bool
  | .seed _ => true
  | _ => false

def Event.isDone : Event → Bool
  | .done _ _ _ => true
  | _ => false

/-- It has the lock and has not come to the end of `_seed_requests`. -/
def SeedPhase.isSeeding : SeedPhase → Bool
  | .locked | .seeding _ => true
  | _ => false

/-- What a node may do in its phase. -/
def SeedPhase.allows (p : SeedPhase) (a : NodeAct) : Bool :=
  match p with
  | .running => !a.isSeed
  | _ => a.isFlush

namespace Seeding

variable {ν : Type} [DecidableEq ν] (st : Setting) (codec : Codec) (seeds : List Request)

def alive (s : Seeding ν) (n : ν) : Bool := (s.cluster.nodes n).alive

def setPhase (s : Seeding ν) (n : ν) (p : SeedPhase) : Seeding ν :=
  { s with phases := Function.update s.phases n p }

def clusterStep (s : Seeding ν) (a : ClusterAct ν) : Option (Seeding ν) :=
  (s.cluster.step st codec a).map fun cluster => { s with cluster }

/-- `acquire_once`. -/
def acquire (s : Seeding ν) (n : ν) : Seeding ν :=
  if s.seedLock.any fun e => s.cluster.now < e then s.setPhase n .passed
  else { s with seedLock := some (s.cluster.now + st.SPIDER_SEED_LOCK_TTL) }.setPhase n .locked

/-- One round of the loop over `start_requests`. -/
def seed (s : Seeding ν) (n : ν) (count : Nat) (r : Request) : Option (Seeding ν) :=
  (s.clusterStep st codec (.node n (.seed r))).map fun t =>
    { t with
      seeded := Function.update s.seeded n (s.seeded n ++ [(s.cluster.nodes n).yielded.length]) }.setPhase n
        (.seeding (count + 1))

def step (s : Seeding ν) : SeedAct ν → Option (Seeding ν)
  | .tick d => s.clusterStep st codec (.tick d)
  | .join n keepAlive threads => s.clusterStep st codec (.join n .redis keepAlive threads)
  | .kill n => s.clusterStep st codec (.kill n)
  | .acquire n => if s.alive n ∧ s.phases n = .starting then some (s.acquire st n) else none
  | .checkQueue n =>
    if s.alive n ∧ s.phases n = .locked then
      some (s.setPhase n (if s.cluster.tasks.empty then .seeding 0 else .passed))
    else none
  | .replay n r =>
    if st.RETRY_FAILED_ON_START ∧ (s.phases n = .seeding 0 ∨ s.phases n = .passed) then
      s.clusterStep st codec (.node n (.seed { r with filterRepeat := false }))
    else none
  | .seed n =>
    match s.phases n with
    | .seeding count =>
      match seeds[count]? with
      | some r => s.seed st codec n count r
      | none => none
    | _ => none
  | .endSeed n =>
    if s.alive n ∧ s.phases n = .seeding seeds.length ∧ (s.cluster.nodes n).requestBuffer.entries = [] then
      some (s.setPhase n .passed)
    else none
  | .startThreads n =>
    if s.alive n ∧ s.phases n = .passed then some (s.setPhase n .running) else none
  | .node n a => if (s.phases n).allows a then s.clusterStep st codec (.node n a) else none

/-- The runs from any content of the sets and of the heartbeat hash, without a
lock. -/
def machine : Machine (Seeding ν) (SeedAct ν) where
  start s :=
    (Cluster.machine st codec).start s.cluster ∧ s.seedLock = none ∧
      ∀ n, s.phases n = .starting ∧ s.seeded n = []
  step := step st codec seeds

/-! ## What has become of the seeds -/

omit [DecidableEq ν] in
/-- Request `i` of `start_requests` was offered to the filter and dropped as seen,
or put into the queue. -/
def SeedIn (s : Seeding ν) (i : Nat) : Prop :=
  ∃ n, ∃ k ∈ (s.seeded n)[i]?,
    k ∈ (s.cluster.nodes n).dropped ∨ k ∈ (s.cluster.nodes n).landed.map fun e => e.1.serial

omit [DecidableEq ν] in
def SeedsIn (s : Seeding ν) : Prop := ∀ i < seeds.length, s.SeedIn i

omit [DecidableEq ν] in
/-- If `_is_done` has returned true, the seeds are in. -/
def DoneAfterSeeds (s : Seeding ν) : Prop := (∃ e ∈ s.cluster.log, e.isDone = true) → s.SeedsIn seeds

omit [DecidableEq ν] in
/-- The node has taken the lock and is not through with the seeds. -/
def Unfinished (s : Seeding ν) (n : ν) : Prop :=
  s.alive n = true ∧ (s.phases n).isSeeding = true ∧ ¬ s.SeedsIn seeds

omit [DecidableEq ν] in
/-- Some node is. -/
def Waiting (s : Seeding ν) : Prop := ∃ i, s.Unfinished seeds i

omit [DecidableEq ν] in
/-- At this time the node cannot finish, or is within its grace. -/
def InGrace (s : Seeding ν) (n : ν) (now : Nat) : Prop :=
  (s.cluster.nodes n).keepAlive = true ∨ now - (s.cluster.nodes n).startedAt < st.SPIDER_STARTUP_GRACE

omit [DecidableEq ν] in
/-- No node is killed while it seeds, and none finds other requests in the queue
before the seeds are in. And while a node seeds, the others that run and may
finish have counted no request and stay within their grace. -/
def Guard (s : Seeding ν) : SeedAct ν → Prop
  | .kill n => ¬ s.Unfinished seeds n
  | .checkQueue _ => s.cluster.tasks.empty = true ∨ s.SeedsIn seeds
  | .tick d =>
    s.Waiting seeds → ∀ n, (s.cluster.nodes n).status = .running → s.phases n = .running →
      s.InGrace st n (s.cluster.now + d)
  | .startThreads n => s.Waiting seeds → s.InGrace st n s.cluster.now
  | .node n (.count _) => s.Waiting seeds → (s.cluster.nodes n).keepAlive = true
  | _ => True

section

variable [Fintype ν] (s : Seeding ν)

instance (i : Nat) : Decidable (s.SeedIn i) :=
  inferInstanceAs (Decidable (∃ n, ∃ k ∈ (s.seeded n)[i]?,
    k ∈ (s.cluster.nodes n).dropped ∨ k ∈ (s.cluster.nodes n).landed.map fun e => e.1.serial))

instance : Decidable (s.SeedsIn seeds) := inferInstanceAs (Decidable (∀ i < seeds.length, s.SeedIn i))

instance (n : ν) : Decidable (s.Unfinished seeds n) :=
  inferInstanceAs (Decidable (s.alive n = true ∧ (s.phases n).isSeeding = true ∧ ¬ s.SeedsIn seeds))

instance : Decidable (s.Waiting seeds) := inferInstanceAs (Decidable (∃ i, s.Unfinished seeds i))

instance (n : ν) (now : Nat) : Decidable (s.InGrace st n now) := inferInstanceAs (Decidable (_ ∨ _))

instance (a : SeedAct ν) : Decidable (s.Guard st seeds a) := by
  unfold Guard
  split <;> infer_instance

end

end Seeding

end Netspy
