import Mathlib.Logic.Function.Basic
import Netspy.Framework.Machine
import Netspy.Impl.RedisUserPool

/-!
# `network/user_pool/local.py`

The accounts of one process under many threads: `get`, `report_bad` and `add_user`. A
locked section is a step, and so are the answer of `login`, what a call does outside of
the locks, and the passing of time, which is counted in microseconds. An account is its
position in `_users`.

`atStart`, `looked` and `excused` record what happened during a call. No step depends on
them.
-/

namespace Netspy

namespace LocalUserPool

/-- What a call of `get` does next. -/
inductive Stage where
  /-- `total = len(self._users)` -/
  | counting
  /-- the head of the loop -/
  | looping
  /-- `if user.cookies or self._login is None` -/
  | found (user : Nat)
  /-- `with self._login_lock(user.username)` -/
  | waiting (user : Nat)
  /-- `if user.cookies`, under the lock -/
  | locked (user : Nat)
  | loggingIn (user : Nat)
  /-- `self._blocked[user.username] = time.monotonic() + 300` -/
  | failed (user : Nat)
  | returned (user : Option Nat)
  deriving Repr, DecidableEq

structure Call where
  now : Int
  total : Nat := 0
  stage : Stage := .counting
  /-- The names of the accounts in the pool when the call started. -/
  atStart : List String
  /-- The positions that the call has looked at. -/
  looked : List Nat := []
  /-- The names of the accounts that were blocked at some moment of the call, or had
  their login fail during it. -/
  excused : List String := []
  deriving Repr, DecidableEq

def Call.running (c : Call) : Bool :=
  match c.stage with
  | .returned _ => false
  | _ => true

def Call.excuse (c : Call) (names : List String) : Call :=
  if c.running then { c with excused := c.excused ++ names } else c

structure State where
  login : Bool := false
  users : List User := []
  blocked : String → Int := fun _ => 0
  idx : Nat := 0
  /-- The names whose login lock is held. -/
  loginLocks : List String := []
  clock : Int := 0
  calls : List Call := []

inductive Action where
  | addUser (user : User)
  | reportBad (user : Nat) (blockSeconds : Int)
  /-- `get` is called, and reads the clock. -/
  | get
  | count (i : Nat)
  | look (i : Nat)
  /-- The loop of `get` is over. -/
  | giveUp (i : Nat)
  | check (i : Nat)
  | lock (i : Nat)
  | recheck (i : Nat)
  /-- What `login` returns, as a dict. -/
  | login (i : Nat) (answer : Except Exn (List (PyVal × PyVal)))
  | block (i : Nat)
  | tick (time : Nat)

namespace State

def name? (s : State) (user : Nat) : Option String := s.users[user]?.map User.username

def isBlocked (s : State) (name : String) : Prop := s.clock < s.blocked name

instance (s : State) (name : String) : Decidable (s.isBlocked name) := inferInstanceAs (Decidable (_ < _))

def setCall (s : State) (i : Nat) (c : Call) : State := { s with calls := s.calls.set i c }

def setCookies (s : State) (user : Nat) (cookies : PyVal) : State :=
  { s with users := s.users.modify user fun u => { u with cookies } }

def unlock (s : State) (name : String) : State := { s with loginLocks := s.loginLocks.filter (· ≠ name) }

/-- The running calls have seen that `names` cannot be used. -/
def excuse (s : State) (names : List String) : State := { s with calls := s.calls.map (·.excuse names) }

/-- What is blocked now, was blocked at some moment of the running calls. -/
def observe (s : State) : State := s.excuse ((s.users.map User.username).filter (s.isBlocked ·))

end State

/-- The step of a call, in the stage it is in. -/
def callStep (s : State) (i : Nat) (c : Call) : Action → Option State
  | .count _ =>
    if c.stage = .counting then some (s.setCall i { c with total := s.users.length, stage := .looping }) else none
  | .look _ =>
    if c.stage = .looping ∧ c.looked.length < c.total then
      let user := s.idx % c.total
      (s.name? user).map fun name =>
        { s with idx := s.idx + 1 }.setCall i { c with
          looked := c.looked ++ [user]
          stage := if c.now < s.blocked name then .looping else .found user }
    else none
  | .giveUp _ =>
    if c.stage = .looping ∧ c.looked.length = c.total then some (s.setCall i { c with stage := .returned none })
    else none
  | .check _ =>
    match c.stage with
    | .found user =>
      s.users[user]?.map fun u =>
        if u.cookies ≠ .dict [] ∨ s.login = false then s.setCall i { c with stage := .returned (some user) }
        else s.setCall i { c with stage := .waiting user }
    | _ => none
  | .lock _ =>
    match c.stage with
    | .waiting user =>
      (s.name? user).bind fun name =>
        if name ∈ s.loginLocks then none
        else some ({ s with loginLocks := name :: s.loginLocks }.setCall i { c with stage := .locked user })
    | _ => none
  | .recheck _ =>
    match c.stage with
    | .locked user =>
      s.users[user]?.map fun u =>
        if u.cookies ≠ .dict [] then (s.unlock u.username).setCall i { c with stage := .returned (some user) }
        else s.setCall i { c with stage := .loggingIn user }
    | _ => none
  | .login _ answer =>
    match c.stage, answer with
    | .loggingIn user, .ok cookies =>
      (s.name? user).map fun name =>
        ((s.setCookies user (.dict cookies)).unlock name).setCall i { c with stage := .returned (some user) }
    | .loggingIn user, .error _ =>
      (s.name? user).map fun name => (s.setCall i { c with stage := .failed user }).excuse [name]
    | _, _ => none
  | .block _ =>
    match c.stage with
    | .failed user =>
      (s.name? user).map fun name =>
        ({ s with blocked := Function.update s.blocked name (s.clock + 300000000) }.unlock name).setCall i
          { c with stage := .looping }
    | _ => none
  | _ => none

def act (s : State) : Action → Option State
  | .addUser user => some { s with users := s.users ++ [user] }
  | .reportBad user blockSeconds =>
    (s.name? user).map fun name =>
      { s with blocked := Function.update s.blocked name (s.clock + blockSeconds) }.setCookies user (.dict [])
  | .get => some { s with calls := s.calls ++ [{ now := s.clock, atStart := s.users.map User.username }] }
  | .tick time => some { s with clock := s.clock + time }
  | a@(.count i) | a@(.look i) | a@(.giveUp i) | a@(.check i) | a@(.lock i) | a@(.recheck i) | a@(.login i _)
  | a@(.block i) => s.calls[i]?.bind fun c => callStep s i c a

/-- A new pool, at any time. -/
def machine : Machine State Action where
  start s := ∃ login users clock, s = { login, users, clock }
  step s a := (act s a).map State.observe

/-- A call that gives up has looked at no position twice, and accounts are blocked for
some time. -/
def Sound (s : State) : Action → Prop
  | .giveUp i => ∀ c ∈ s.calls[i]?, c.looked.Nodup
  | .reportBad _ blockSeconds => 0 < blockSeconds
  | _ => True

instance (s : State) : (a : Action) → Decidable (Sound s a)
  | .giveUp i => inferInstanceAs (Decidable (∀ c ∈ s.calls[i]?, c.looked.Nodup))
  | .reportBad _ blockSeconds => inferInstanceAs (Decidable (0 < blockSeconds))
  | .addUser _ | .get | .count _ | .look _ | .check _ | .lock _ | .recheck _ | .login _ _ | .block _ | .tick _ =>
    isTrue trivial

end LocalUserPool

/-! ## `GuestUserPool`

A `LocalUserPool` that makes its own accounts. `get` reads the clock, tops the accounts up
in one locked section, and goes on to `super().get()`, which is a call of that pool. -/

open LocalUserPool (State Action)

/-- Where a call is, before `super().get()`. -/
inductive GuestStage where
  /-- It has read the clock. -/
  | asked (now : Int)
  | toppedUp
  deriving Repr, DecidableEq

structure GuestUserPool where
  pool : State := { login := true }
  size : Nat
  counter : Nat := 0
  entering : Nat → Option GuestStage := fun _ => none

inductive GuestAct where
  | enter (i : Nat)
  | topUp (i : Nat)
  | get (i : Nat)
  /-- Everything else that may happen to a `LocalUserPool`. -/
  | pool (a : Action)

namespace GuestUserPool

def guest (n : Nat) : User := { username := "guest-" ++ toString n }

/-- `sum(1 for u in self._users if self._blocked.get(u.username, 0.0) <= now)` -/
def live (pool : State) (now : Int) : Nat := pool.users.countP fun u => pool.blocked u.username ≤ now

/-- The loop of `get`. -/
def topUp (s : GuestUserPool) (now : Int) : Option GuestUserPool :=
  let missing := s.size - live s.pool now
  let guests := (List.range' (s.counter + 1) missing).map guest
  (LocalUserPool.machine.exec s.pool (guests.map .addUser)).map fun pool =>
    { s with pool, counter := s.counter + missing }

def step (s : GuestUserPool) : GuestAct → Option GuestUserPool
  | .enter i =>
    match s.entering i with
    | none => some { s with entering := Function.update s.entering i (some (.asked s.pool.clock)) }
    | some _ => none
  | .topUp i =>
    match s.entering i with
    | some (.asked now) =>
      (s.topUp now).map fun s => { s with entering := Function.update s.entering i (some .toppedUp) }
    | _ => none
  | .get i =>
    match s.entering i with
    | some .toppedUp =>
      (LocalUserPool.machine.step s.pool .get).map fun pool =>
        { s with pool, entering := Function.update s.entering i none }
    | _ => none
  | .pool .get => none
  | .pool a => (LocalUserPool.machine.step s.pool a).map fun pool => { s with pool }

def machine : Machine GuestUserPool GuestAct where
  start s := ∃ size clock, 0 ≤ clock ∧ s = { pool := { login := true, clock }, size := max 1 size }
  step := step

/-- The name of a guest. -/
def isGuest (name : String) : Bool := "guest-".toList.isPrefixOf name.toList

/-- Accounts are blocked for some time, and those that a caller adds are no guests. -/
def Sound (_ : GuestUserPool) : GuestAct → Prop
  | .pool (.reportBad _ blockSeconds) => 0 < blockSeconds
  | .pool (.addUser user) => isGuest user.username = false
  | _ => True

instance (s : GuestUserPool) : (a : GuestAct) → Decidable (Sound s a)
  | .pool (.reportBad _ blockSeconds) => inferInstanceAs (Decidable (0 < blockSeconds))
  | .pool (.addUser user) => inferInstanceAs (Decidable (isGuest user.username = false))
  | .pool .get | .pool (.count _) | .pool (.look _) | .pool (.giveUp _) | .pool (.check _)
  | .pool (.lock _) | .pool (.recheck _) | .pool (.login _ _) | .pool (.block _) | .pool (.tick _)
  | .enter _ | .topUp _ | .get _ => isTrue trivial

end GuestUserPool

end Netspy
