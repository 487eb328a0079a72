import Netspy.Framework.Machine
import Netspy.Impl.RequestDict
import Netspy.Impl.TaskQueue

/-!
# Nodes on one `RedisTaskQueue`

The calls of `RedisTaskQueue` as the nodes of a namespace make them: `put`,
`get_batch` and the first attempt of `get`, `done`, `renew` and
`reclaim_expired`, each one step, with time passing and nodes dying between
any two. Every Lua script is atomic, and between the script of `_take` and the
end of the call the node only decodes what it was given.

`leases` are the requests that calls have returned, each with the node that it
was returned to, the end of its lease as that node knows it and whether `done`
was called. `history` lists the calls that put, returned and finished a
member, the latest first, and `calls` the calls of `_take`. These only record
what happens.
-/

namespace Netspy

/-- What decoding a member needs of the standard library. -/
structure Decoder where
  /-- `json.loads`. -/
  loads : String → Except Exn PyVal
  /-- `str.upper`. -/
  upper : String → String

namespace Decoder

variable (dec : Decoder)

/-- `Request.from_dict(tools.loads_json(member))`. -/
def request (member : String) : Except Exn DecodedRequest := do
  let data ← dec.loads member
  fromDict dec.upper data

/-- `_decode`. -/
def decode : Option String → Except Exn (Option DecodedRequest)
  | none => .ok none
  | some member => (dec.request member).map some

/-- The member is JSON that `from_dict` accepts. -/
def Decodes (member : String) : Prop := (dec.request member).isOk = true

instance (member : String) : Decidable (dec.Decodes member) :=
  inferInstanceAs (Decidable ((dec.request member).isOk = true))

end Decoder

namespace RedisTaskQueue

variable (st : Setting) (dec : Decoder)

/-- The loop of `_take` over the members of its script. -/
def decodeMembers (q : RedisTaskQueue) :
    List String → Except Exn (List DecodedRequest) × RedisTaskQueue
  | [] => (.ok [], q)
  | member :: members =>
    match dec.decode (some member) with
    | .error e => (.error e, q)
    | .ok none => decodeMembers (q.doneMember member) members
    | .ok (some r) =>
      let (out, q) := decodeMembers q members
      (out.map ({ r with leaseToken := some member } :: ·), q)

/-- `get_batch`. -/
def getBatch (q : RedisTaskQueue) (now count : Nat) :
    Except Exn (List DecodedRequest) × RedisTaskQueue :=
  let (members, q) := q.take st now count
  decodeMembers dec q members

/-- What `_take` makes of a member. -/
def returned (member : String) : Except Exn DecodedRequest :=
  (dec.request member).map ({ · with leaseToken := some member })

/-- Decoding leaves the queue as the script left it, and stops at the first
member that does not decode. -/
theorem decodeMembers_eq (q : RedisTaskQueue) (members : List String) :
    decodeMembers dec q members = (members.mapM (returned dec), q) := by
  induction members with
  | nil => rfl
  | cons member members ih =>
    rw [decodeMembers, List.mapM_cons, returned, ih, Decoder.decode]
    cases dec.request member with
    | error e => rfl
    | ok r => cases members.mapM (returned dec) <;> rfl

/-- The requests that a call returns have its members as their tokens. -/
theorem tokens_of_returned {members : List String} {rs : List DecodedRequest}
    (h : members.mapM (returned dec) = .ok rs) : rs.filterMap DecodedRequest.leaseToken = members := by
  induction members generalizing rs with
  | nil => cases h; rfl
  | cons member members ih =>
    rw [List.mapM_cons, returned] at h
    cases hr : dec.request member with
    | error e => rw [hr] at h; cases h
    | ok r =>
      rw [hr] at h
      cases hrs : members.mapM (returned dec) with
      | error e => rw [hrs] at h; cases h
      | ok rs' =>
        rw [hrs] at h
        cases h
        exact congrArg (member :: ·) (ih hrs)

/-- It returns exactly if every member decodes. -/
theorem isOk_returned {members : List String} :
    (members.mapM (returned dec)).isOk = true ↔ ∀ m ∈ members, dec.Decodes m := by
  induction members with
  | nil => exact ⟨fun _ m hm => absurd hm List.not_mem_nil, fun _ => rfl⟩
  | cons member members ih =>
    rw [List.forall_mem_cons, ← ih, List.mapM_cons, returned, Decoder.Decodes]
    cases dec.request member with
    | error e => exact ⟨nofun, nofun⟩
    | ok r =>
      cases members.mapM (returned dec) with
      | error e => exact ⟨nofun, nofun⟩
      | ok rs => exact ⟨fun _ => ⟨rfl, rfl⟩, fun _ => rfl⟩

/-- `done`. -/
def done (q : RedisTaskQueue) (r : DecodedRequest) : RedisTaskQueue :=
  match r.leaseToken with
  | some token => if token = "" then q else q.doneMember token
  | none => q

/-- The tokens that `renew` sends. -/
def tokensOf (requests : List DecodedRequest) : List String :=
  (requests.filterMap DecodedRequest.leaseToken).filter (· ≠ "")

end RedisTaskQueue

structure Lease (ν : Type) where
  node : ν
  request : DecodedRequest
  deadline : Nat
  done : Bool := false

inductive LeaseEvent (ν : Type) where
  | put (member : String)
  | take (n : ν) (member : String)
  | done (n : ν) (member : String)
  deriving DecidableEq

/-- A call of `_take`: what its script popped, and what it returned or raised. -/
structure TakeCall where
  popped : List String
  result : Except Exn (List DecodedRequest)
  deriving DecidableEq

structure LeaseQueue (ν : Type) where
  queue : RedisTaskQueue := {}
  now : Nat := 0
  dead : ν → Bool := fun _ => false
  leases : List (Lease ν) := []
  history : List (LeaseEvent ν) := []
  calls : List TakeCall := []

inductive LeaseAct (ν : Type) where
  | put (n : ν) (r : Request)
  | getBatch (n : ν) (count : Nat)
  /-- The attempt of `get` that does not block. -/
  | get (n : ν)
  /-- `done` of the request of lease `i`, which the node holds. -/
  | done (n : ν) (i : Nat)
  /-- `renew` of the requests of some leases of the node. -/
  | renew (n : ν) (is : List Nat)
  | reclaimExpired (n : ν) (limit : Nat)
  | tick (time : Nat)
  | die (n : ν)

namespace LeaseQueue

variable {ν : Type} [DecidableEq ν] (st : Setting) (codec : Codec) (dec : Decoder)

def put (s : LeaseQueue ν) (r : Request) : LeaseQueue ν :=
  { s with
    queue := s.queue.put codec r
    history := .put (codec.dumps r) :: s.history }

/-- A call of `_take`, which returns requests or raises. -/
def take (s : LeaseQueue ν) (n : ν) (count : Nat) : LeaseQueue ν :=
  let (out, queue) := s.queue.getBatch st dec s.now count
  let requests := out.toOption.getD []
  { s with
    queue
    leases := s.leases ++ requests.map fun r => ⟨n, r, s.now + st.SPIDER_TASK_LEASE, false⟩
    history := (requests.filterMap DecodedRequest.leaseToken).map (.take n) ++ s.history
    calls := s.calls ++ [⟨(s.queue.take st s.now count).1, out⟩] }

def done (s : LeaseQueue ν) (n : ν) (i : Nat) : Option (LeaseQueue ν) := do
  let l ← s.leases[i]?
  if l.node = n then
    let token := l.request.leaseToken.toList
    return { s with
      queue := s.queue.done l.request
      leases := s.leases.set i { l with done := true }
      history := token.map (.done n) ++ s.history }
  else none

/-- The requests of those leases of `is` that the node holds. -/
def requestsOf (s : LeaseQueue ν) (n : ν) (is : List Nat) : List DecodedRequest :=
  (is.filterMap fun i => s.leases[i]?).filterMap fun l => if l.node = n then some l.request else none

/-- A lease that the node asks to renew is renewed if its member is in flight. -/
def renewed (s : LeaseQueue ν) (n : ν) (is : List Nat) (i : Nat) (l : Lease ν) : Lease ν :=
  if l.node = n ∧ i ∈ is ∧ ∃ token ∈ l.request.leaseToken, token ≠ "" ∧ token ∈ s.queue.inflight then
    { l with deadline := s.now + st.SPIDER_TASK_LEASE }
  else l

def renew (s : LeaseQueue ν) (n : ν) (is : List Nat) : LeaseQueue ν :=
  { s with
    queue := s.queue.renew st s.now (RedisTaskQueue.tokensOf (s.requestsOf n is))
    leases := s.leases.mapIdx (s.renewed st n is) }

def step (s : LeaseQueue ν) : LeaseAct ν → Option (LeaseQueue ν)
  | .put n r => if s.dead n then none else some (s.put codec r)
  | .getBatch n count => if s.dead n then none else some (s.take st dec n count)
  | .get n => if s.dead n then none else some (s.take st dec n 1)
  | .done n i => if s.dead n then none else s.done n i
  | .renew n is => if s.dead n then none else some (s.renew st n is)
  | .reclaimExpired n limit =>
    if s.dead n then none
    else some { s with queue := (s.queue.reclaimExpired st s.now limit true).2 }
  | .tick time => some { s with now := s.now + time }
  | .die n => some { s with dead := Function.update s.dead n true }

/-- The sets may hold anything at the start; no node holds a request. -/
def machine : Machine (LeaseQueue ν) (LeaseAct ν) where
  start s := s.leases = [] ∧ s.history = [] ∧ s.calls = []
  step := step st codec dec

end LeaseQueue

end Netspy
