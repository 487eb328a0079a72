import Mathlib.Logic.Function.Basic
import Netspy.Framework.Machine
import Netspy.Framework.ZSet
import Netspy.Impl.Request
import Netspy.Impl.SharedFilter
import Netspy.Impl.Value

/-!
# `network/user_pool/redis.py`

The accounts that nodes share: the sorted set of those that can be borrowed, the
cached cookies, and the calls of `get`, `report_ok` and `report_bad`. Each
command is a step, and so is a call of `login`; a command may raise, with its
effect or without it. What a call reads of the clock, it reads before the command
that needs it.

Of a `User` the name and the cookies are kept. A cookie may expire, or be written
from outside, at any time.
-/

namespace Netspy

structure User where
  username : String := "guest"
  cookies : PyVal := .dict []
  deriving DecidableEq

/-- `<name>:users:ready` and `<name>:cookie:<username>`. -/
structure PoolKeys where
  ready : ZSet String := ∅
  cookies : String → Option String := fun _ => none

/-- The options of a pool, and what it does with JSON. -/
structure RedisUserPool where
  login : Bool := false
  requireCookies : Bool := false
  notReadyRetry : Nat := 30000000
  loadsJson : String → Except Exn PyVal
  dumpsJson : PyVal → Except Exn String

/-- The next command of a call. -/
inductive PoolCall where
  | popping (now : Nat)
  | puttingBack (username : String) (score : Int)
  | reading (now : Nat) (username : String)
  | loggingIn (now : Nat) (username : String)
  | caching (user : User)
  | coolingDown (username : String) (until_ : Nat)
  /-- `report_ok`, or `report_bad`, which forgets the cookies after that. -/
  | reporting (username : String) (score : Nat) (bad : Bool)
  | forgetting (username : String)
  deriving DecidableEq

inductive PoolResult where
  | user (u : User)
  | none
  | reported
  | raised (e : Exn)
  deriving DecidableEq

namespace PoolCall

/-- The account that a call has and that is in no set. -/
def held : PoolCall → Option String
  | .popping _ | .forgetting _ => Option.none
  | .puttingBack u _ | .reading _ u | .loggingIn _ u | .coolingDown u _ | .reporting u _ _ => some u
  | .caching user => some user.username

end PoolCall

/-- What a step of a call leaves: the keys, the cookies of the accounts that the
pool was made with, and what the call does next or returns. -/
structure PoolStep where
  keys : PoolKeys
  accounts : String → Option PyVal
  next : PoolCall ⊕ PoolResult

namespace PoolStep

def held (p : PoolStep) : Option String :=
  match p.next with
  | .inl call => call.held
  | .inr (.user u) => some u.username
  | .inr _ => none

end PoolStep

namespace RedisUserPool

variable (pool : RedisUserPool)

/-- `user.cookies = cookies`, for an account of the list. -/
def setCookies (accounts : String → Option PyVal) (username : String) (cookies : PyVal) : String → Option PyVal :=
  Function.update accounts username ((accounts username).map fun _ => cookies)

/-- The cached cookies, if they are JSON and not `null`. -/
def cachedCookies (cached : Option String) : Option PyVal :=
  match cached with
  | some text =>
    if text = "" then none
    else
      match pool.loadsJson text with
      | .ok .none | .error _ => none
      | .ok cookies => some cookies
  | none => none

/-- A command that works, and what is done up to the next one; or `login`. -/
def next (keys : PoolKeys) (accounts : String → Option PyVal) (login : Except Exn PyVal) : PoolCall → PoolStep
  | .popping now =>
    match keys.ready.rows.head? with
    | none => ⟨keys, accounts, .inr .none⟩
    | some (score, username) =>
      ⟨{ keys with ready := keys.ready.afterPop 1 }, accounts,
        .inl (if (now : Int) < score then .puttingBack username score else .reading now username)⟩
  | .puttingBack username score =>
    ⟨{ keys with ready := keys.ready.zadd username score }, accounts, .inr .none⟩
  | .reading now username =>
    match pool.cachedCookies (keys.cookies username) with
    | some cookies => ⟨keys, setCookies accounts username cookies, .inr (.user { username, cookies })⟩
    | none =>
      if pool.login then ⟨keys, accounts, .inl (.loggingIn now username)⟩
      else if pool.requireCookies then ⟨keys, accounts, .inl (.coolingDown username (now + pool.notReadyRetry))⟩
      else ⟨keys, accounts, .inr (.user { username, cookies := (accounts username).getD (.dict []) })⟩
  | .loggingIn now username =>
    match login with
    | .ok cookies => ⟨keys, setCookies accounts username cookies, .inl (.caching { username, cookies })⟩
    | .error _ => ⟨keys, accounts, .inl (.coolingDown username (now + 300000000))⟩
  | .caching user =>
    match pool.dumpsJson user.cookies with
    | .ok text =>
      ⟨{ keys with cookies := Function.update keys.cookies user.username (some text) }, accounts, .inr (.user user)⟩
    | .error e => ⟨keys, accounts, .inr (.raised e)⟩
  | .coolingDown username until_ =>
    ⟨{ keys with ready := keys.ready.zadd username until_ }, accounts, .inr .none⟩
  | .reporting username score bad =>
    ⟨{ keys with ready := keys.ready.zadd username score }, accounts,
      if bad then .inl (.forgetting username) else .inr .reported⟩
  | .forgetting username =>
    ⟨{ keys with cookies := Function.update keys.cookies username none }, accounts, .inr .reported⟩

/-- The next step of a call; what `login` raises is caught. -/
def step (keys : PoolKeys) (accounts : String → Option PyVal) (login : Except Exn PyVal) (reply : Reply)
    (call : PoolCall) : PoolStep :=
  match call, reply with
  | .loggingIn _ _, _ | _, .answered => pool.next keys accounts login call
  | _, .failed => ⟨keys, accounts, .inr (.raised "ConnectionError")⟩
  | _, .lost => ⟨(pool.next keys accounts login call).keys, accounts, .inr (.raised "ConnectionError")⟩

/-- `ZADD .. NX` of `__init__`. -/
def addAccounts (keys : PoolKeys) (accounts : List User) : PoolKeys :=
  { keys with ready := (accounts.map User.username).foldl (fun z a => z.zaddNX a 0) keys.ready }

/-- `_accounts`. -/
def accountsOf (accounts : List User) (username : String) : Option PyVal :=
  (accounts.reverse.find? (·.username = username)).map User.cookies

end RedisUserPool

/-! ## Nodes that share a pool -/

/-- A thread that uses the pool. -/
inductive PoolUser (ν : Type) where
  | out
  | calling (n : ν) (call : PoolCall)
  | borrowed (n : ν) (user : User)
  deriving DecidableEq

namespace PoolUser

variable {ν : Type}

/-- The account that is with it, until it is in the set again. -/
def held : PoolUser ν → Option String
  | .out => none
  | .calling _ call => call.held
  | .borrowed _ user => some user.username

def node? : PoolUser ν → Option ν
  | .out => none
  | .calling n _ | .borrowed n _ => some n

end PoolUser

structure UserPools (ν τ : Type) where
  now : Nat := 0
  keys : PoolKeys := {}
  accounts : ν → String → Option PyVal := fun _ _ => none
  users : τ → PoolUser ν := fun _ => .out

inductive UserPoolAct (ν τ : Type) where
  | tick (d : Nat)
  /-- A pool is made, by a node that starts or is started again. -/
  | init (n : ν) (accounts : List User)
  | get (i : τ) (n : ν)
  | call (i : τ) (login : Except Exn PyVal) (reply : Reply)
  | reportOk (i : τ)
  | reportBad (i : τ) (blockSeconds : Nat)
  | crash (n : ν)
  | writeCookies (username : String) (text : Option String)

namespace UserPools

variable {ν τ : Type} [DecidableEq ν] [DecidableEq τ] (pools : ν → RedisUserPool)

def setUser (s : UserPools ν τ) (i : τ) (user : PoolUser ν) : UserPools ν τ :=
  { s with users := Function.update s.users i user }

/-- Where a thread is after a step of its call. -/
def afterCall (n : ν) : PoolCall ⊕ PoolResult → PoolUser ν
  | .inl call => .calling n call
  | .inr (.user user) => .borrowed n user
  | .inr _ => .out

def call (s : UserPools ν τ) (i : τ) (n : ν) (call : PoolCall) (login : Except Exn PyVal) (reply : Reply) :
    UserPools ν τ :=
  let p := (pools n).step s.keys (s.accounts n) login reply call
  { s with keys := p.keys, accounts := Function.update s.accounts n p.accounts }.setUser i (afterCall n p.next)

/-- `report_ok` and `report_bad`. -/
def report (s : UserPools ν τ) (i : τ) (bad : Option Nat) : Option (UserPools ν τ) :=
  match s.users i with
  | .borrowed n user =>
    some (s.setUser i (.calling n (.reporting user.username (s.now + bad.getD 0) bad.isSome)))
  | _ => none

def step (s : UserPools ν τ) : UserPoolAct ν τ → Option (UserPools ν τ)
  | .tick d => some { s with now := s.now + d }
  | .init n accounts =>
    some { s with
      keys := RedisUserPool.addAccounts s.keys accounts
      accounts := Function.update s.accounts n (RedisUserPool.accountsOf accounts) }
  | .get i n =>
    match s.users i with
    | .out => some (s.setUser i (.calling n (.popping s.now)))
    | _ => none
  | .call i login reply =>
    match s.users i with
    | .calling n call => some (s.call pools i n call login reply)
    | _ => none
  | .reportOk i => s.report i none
  | .reportBad i blockSeconds => s.report i (some blockSeconds)
  | .crash n => some { s with users := fun i => if (s.users i).node? = some n then .out else s.users i }
  | .writeCookies username text =>
    some { s with keys := { s.keys with cookies := Function.update s.keys.cookies username text } }

/-- The runs from any content of the set and of the cookies. -/
def machine : Machine (UserPools ν τ) (UserPoolAct ν τ) where
  start s := ∀ i, s.users i = .out
  step := step pools

end UserPools

end Netspy
