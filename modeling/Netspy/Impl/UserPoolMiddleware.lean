import Netspy.Impl.ParserControl
import Netspy.Impl.RedisUserPool
import Netspy.Impl.RequestDict

/-!
# `network/user_pool/middleware.py`

Workers with a `UserPoolMiddleware` over a shared pool: how `_process` goes
through the hooks, with what each of them returns or raises as part of the
action. The middleware is the first one whose `process_request` is called, and
the last one whose `process_response` is. What the pools do is in `UserPools`,
whose threads are the workers; `borrowed` there is the account that a worker got
for the request it processes, and no step reads it but its own report.

An account is hung on the request object (`_user`), which is not serialised: a
request that comes from Redis, or is a copy, has none.

The base cookies of a request stay in its `custom`. What follows
`process_response` has no part in this and is one step, as is what follows an
exception.
-/

namespace Netspy

namespace UserPoolMiddleware

def baseCookiesKey : String := "_user_pool_base_cookies"

/-- `d[key] = value`. -/
def setKey (d : Dict) (key : String) (value : PyVal) : Dict :=
  if (d.lookup key).isSome then d.map fun kv => if kv.1 = key then (key, value) else kv else d ++ [(key, value)]

/-- `_base_cookies`: the cookies that the request itself has, and the request. -/
def baseCookies (r : Request) : Except Exn (List (PyVal × PyVal) × Request) := do
  match r.custom.get baseCookiesKey with
  | .none =>
    let cookies := r.requestsKwargs.get "cookies"
    let base ← dictOf (if cookies.truthy then cookies else .dict [])
    return (base, { r with custom := setKey r.custom baseCookiesKey (.dict base) })
  | base => return (← dictOf base, r)

/-- `_set_cookies`. -/
def setCookies (r : Request) (cookies : List (PyVal × PyVal)) : Request :=
  { r with
    requestsKwargs :=
      if cookies = [] then r.requestsKwargs.filter fun kv => kv.1 ≠ "cookies"
      else setKey r.requestsKwargs "cookies" (.dict cookies) }

/-- `{**base, **cookies}`. -/
def merged (base : List (PyVal × PyVal)) : PyVal → Except Exn (List (PyVal × PyVal))
  | .dict kvs => .ok (kvs.foldl (fun d kv => PyVal.setItem d kv.1 kv.2) base)
  | _ => .error "TypeError"

end UserPoolMiddleware

/-- What a hook does that takes a request: nothing, or it returns something. -/
inductive HookOut where
  | none
  | request (q : Ref)
  | response
  | raised (e : Exn)
  deriving DecidableEq

inductive FetchOut where
  | response
  | robotsDenied
  | raised (e : Exn)
  deriving DecidableEq

/-- Where a worker is with its request. -/
inductive WorkPhase where
  | idle
  | processRequest (q : Ref)
  /-- `_wait_for_user`. -/
  | waitForUser (q : Ref) (base : List (PyVal × PyVal)) (deadline : Option Nat)
  /-- `process_request` of another middleware, with so many to follow; `_process` still has
  its own request, and the manager perhaps another one. -/
  | laterRequest (own q : Ref) (k : Nat)
  | downloadMidware (q : Ref) (response : Bool)
  | fetch (q : Ref)
  /-- `process_response` of another middleware. -/
  | laterResponse (q : Ref) (k : Nat)
  | processResponse (q : Ref)
  | report (q : Ref)
  /-- What follows, or what follows an exception. -/
  | rest (raised : Option Exn)
  deriving DecidableEq

structure PoolCrawl (ν ω : Type) where
  pools : UserPools ν ω := {}
  /-- The request objects of each node, and their `_user`. -/
  requests : ν → Ref → Request
  userOf : ν → Ref → Option User := fun _ _ => none
  workers : ω → WorkPhase := fun _ => .idle
  /-- The accounts that have been in the set. -/
  known : List String := []

inductive PoolCrawlAct (ν ω : Type) where
  | tick (d : Nat)
  | init (n : ν) (accounts : List User)
  | writeCookies (username : String) (text : Option String)
  /-- Anything else changes a request object. -/
  | change (n : ν) (q : Ref) (r : Request)
  | take (w : ω) (q : Ref)
  | processRequest (w : ω)
  | get (w : ω)
  | call (w : ω) (login : Except Exn PyVal) (reply : Reply)
  | laterRequest (w : ω) (out : HookOut)
  | downloadMidware (w : ω) (out : HookOut)
  | fetch (w : ω) (out : FetchOut)
  | laterResponse (w : ω) (out : HookOut)
  | processResponse (w : ω) (loggedIn : Bool)
  | finish (w : ω)

namespace PoolCrawl

variable {ν ω : Type} [DecidableEq ν] [DecidableEq ω] (st : Setting) (pools : ν → RedisUserPool) (node : ω → ν)
  (others : ν → Nat)

def setPhase (s : PoolCrawl ν ω) (w : ω) (phase : WorkPhase) : PoolCrawl ν ω :=
  { s with workers := Function.update s.workers w phase }

/-- The request is done with the middlewares, and its worker with the pool. -/
def leave (s : PoolCrawl ν ω) (w : ω) (raised : Option Exn) : PoolCrawl ν ω :=
  { s with pools := s.pools.setUser w .out }.setPhase w (.rest raised)

def setRequest (s : PoolCrawl ν ω) (n : ν) (q : Ref) (r : Request) : PoolCrawl ν ω :=
  { s with requests := Function.update s.requests n (Function.update (s.requests n) q r) }

def setUserOf (s : PoolCrawl ν ω) (n : ν) (q : Ref) (user : Option User) : PoolCrawl ν ω :=
  { s with userOf := Function.update s.userOf n (Function.update (s.userOf n) q user) }

/-- The loop of `MiddlewareManager.process_request`. -/
def nextRequest (own q : Ref) : Nat → WorkPhase
  | 0 => .downloadMidware q false
  | k + 1 => .laterRequest own q k

/-- The loop of `MiddlewareManager.process_response`. -/
def nextResponse (q : Ref) : Nat → WorkPhase
  | 0 => .processResponse q
  | k + 1 => .laterResponse q k

/-- `process_request`, up to `_wait_for_user`. -/
def processRequest (s : PoolCrawl ν ω) (w : ω) (q : Ref) : PoolCrawl ν ω :=
  match UserPoolMiddleware.baseCookies (s.requests (node w) q) with
  | .ok (base, r) =>
    ((s.setRequest (node w) q r).setUserOf (node w) q none).setPhase w (.waitForUser q base none)
  | .error e => s.leave w (some e)

/-- `_wait_for_user` has an account. -/
def gotUser (s : PoolCrawl ν ω) (w : ω) (q : Ref) (base : List (PyVal × PyVal)) (user : User) : PoolCrawl ν ω :=
  match UserPoolMiddleware.merged base user.cookies with
  | .ok cookies =>
    let r := UserPoolMiddleware.setCookies (s.requests (node w) q) cookies
    ((s.setRequest (node w) q r).setUserOf (node w) q (some user)).setPhase w (nextRequest q q (others (node w)))
  | .error e => s.leave w (some e)

/-- `get` returned no account. -/
def noUser (s : PoolCrawl ν ω) (w : ω) (q : Ref) (base : List (PyVal × PyVal)) (deadline : Option Nat) :
    PoolCrawl ν ω :=
  if st.USER_POOL_ALLOW_ANONYMOUS then
    let r := UserPoolMiddleware.setCookies (s.requests (node w) q) base
    (s.setRequest (node w) q r).setPhase w (nextRequest q q (others (node w)))
  else
    let deadline := deadline.getD (s.pools.now + st.USER_POOL_WAIT_TIMEOUT)
    if deadline ≤ s.pools.now then s.leave w (some "UserUnavailableError")
    else s.setPhase w (.waitForUser q base (some deadline))

/-- A step of the call that a worker is in. -/
def call (s : PoolCrawl ν ω) (w : ω) (n : ν) (call : PoolCall) (login : Except Exn PyVal) (reply : Reply) :
    Option (PoolCrawl ν ω) :=
  let out := ((pools n).step s.pools.keys (s.pools.accounts n) login reply call).next
  let s := { s with pools := s.pools.call pools w n call login reply }
  match s.workers w with
  | .waitForUser q base deadline =>
    some <|
      match out with
      | .inl _ => s
      | .inr (.user user) => s.gotUser node others w q base user
      | .inr .none | .inr .reported => s.noUser st node others w q base deadline
      | .inr (.raised e) => s.leave w (some e)
  | .report _ =>
    some <|
      match out with
      | .inl _ => s
      | .inr (.raised e) => s.leave w (some e)
      | .inr _ => s.leave w none
  | _ => none

/-- `process_response`: the account is that of the request object. -/
def processResponse (s : PoolCrawl ν ω) (w : ω) (q : Ref) (loggedIn : Bool) : PoolCrawl ν ω :=
  match s.userOf (node w) q with
  | some user =>
    let score := if loggedIn then s.pools.now else s.pools.now + 1800000000
    { s with
      pools := s.pools.setUser w (.calling (node w) (.reporting user.username score !loggedIn)) }.setPhase w (.report q)
  | none => s.leave w none

def step (s : PoolCrawl ν ω) : PoolCrawlAct ν ω → Option (PoolCrawl ν ω)
  | .tick d => (s.pools.step pools (.tick d)).map fun pools => { s with pools }
  | .init n accounts =>
    (s.pools.step pools (.init n accounts)).map fun pools =>
      { s with pools, known := s.known ++ accounts.map User.username }
  | .writeCookies username text =>
    (s.pools.step pools (.writeCookies username text)).map fun pools => { s with pools }
  | .change n q r => some (s.setRequest n q r)
  | .take w q =>
    match s.workers w with
    | .idle => some (s.setPhase w (.processRequest q))
    | _ => none
  | .processRequest w =>
    match s.workers w with
    | .processRequest q => some (s.processRequest node w q)
    | _ => none
  | .get w =>
    match s.workers w with
    | .waitForUser _ _ _ => (s.pools.step pools (.get w (node w))).map fun pools => { s with pools }
    | _ => none
  | .call w login reply =>
    match s.pools.users w with
    | .calling n call => s.call st pools node others w n call login reply
    | _ => none
  | .laterRequest w out =>
    match s.workers w with
    | .laterRequest own q k =>
      some <|
        match out with
        | .none => s.setPhase w (nextRequest own q k)
        | .request q' => s.setPhase w (nextRequest own q' k)
        | .response => s.setPhase w (.downloadMidware own true)
        | .raised e => s.leave w (some e)
    | _ => none
  | .downloadMidware w out =>
    match s.workers w, out with
    | .downloadMidware q response, .none =>
      some (s.setPhase w (if response then nextResponse q (others (node w)) else .fetch q))
    | .downloadMidware _ response, .request q' =>
      some (s.setPhase w (if response then nextResponse q' (others (node w)) else .fetch q'))
    | .downloadMidware _ _, .raised e => some (s.leave w (some e))
    | _, _ => none
  | .fetch w out =>
    match s.workers w with
    | .fetch q =>
      some <|
        if (s.requests (node w) q).autoRequest then
          match out with
          | .response => s.setPhase w (nextResponse q (others (node w)))
          | .robotsDenied => s.leave w none
          | .raised e => s.leave w (some e)
        else s.leave w none
    | _ => none
  | .laterResponse w out =>
    match s.workers w, out with
    | .laterResponse q k, .response | .laterResponse q k, .none => some (s.setPhase w (nextResponse q k))
    | .laterResponse _ _, .request _ => some (s.leave w none)
    | .laterResponse _ _, .raised e => some (s.leave w (some e))
    | _, _ => none
  | .processResponse w loggedIn =>
    match s.workers w with
    | .processResponse q => some (s.processResponse node w q loggedIn)
    | _ => none
  | .finish w =>
    match s.workers w with
    | .rest _ => some (s.setPhase w .idle)
    | _ => none

/-- A score that the longest wait has led to. -/
def WithinWait (longest : Nat) (s : PoolCrawl ν ω) : Prop := ∀ row ∈ s.pools.keys.ready.rows, row.1 ≤ s.pools.now + longest

/-- The runs from any accounts and cookies in Redis. -/
def machine (longest : Nat) : Machine (PoolCrawl ν ω) (PoolCrawlAct ν ω) where
  start s :=
    (∀ w, s.workers w = .idle ∧ s.pools.users w = .out) ∧ s.known = s.pools.keys.ready.members ∧ s.WithinWait longest
  step := step st pools node others

end PoolCrawl

end Netspy
