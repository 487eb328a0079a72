import Netspy.Framework.Machine
import Netspy.Impl.Request
import Netspy.Impl.Robots

/-!
# `network/robots.py`: the cache under its threads

The threads that ask one `RobotsCache` for the entry of a domain, and `reset`. Each
section under `_lock` is a step, and so is each look at the clock, the answer of the
download, and the passing of time. A lock of a domain is known by its number in `locks`,
which tells for which domain it was made, and after how many resets. `delays` is
`_domain_delay` of the throttle.

What a parsed file allows is left to `canFetch`. The header and the log lines are left out.
`locks`, `resets`, `fetches` and `answers` record what happened; no step depends on them,
except that the locks are numbered.
-/

namespace Netspy

/-- `_Entry`; without a parser it allows everything. -/
structure RobotsEntry (ρ : Type) where
  parser : Option ρ
  text : String
  fetchedAt : Nat
  deriving DecidableEq

/-- What the cache calls, and `ROBOTS_USER_AGENT`. -/
structure RobotsLib (ρ : Type) extends Robots.Lib Rat where
  parse : String → Except Exn ρ
  useragent : List Char

/-- What the download gives: the status and what `resp.text` does, or an exception. -/
abbrev RobotsResponse := Except Exn (Nat × Except Exn String)

/-- The end of `_fetch`. The text is decoded outside of every `try`. -/
def RobotsLib.fetch {ρ : Type} (lib : RobotsLib ρ) : RobotsResponse → Except Exn (Option ρ × String)
  | .error _ => .ok (none, "")
  | .ok (status, text) =>
    if status = 404 ∨ 400 ≤ status ∧ status < 500 then .ok (none, "")
    else if ¬(200 ≤ status ∧ status < 300) then .ok (none, "")
    else
      match text with
      | .error e => .error e
      | .ok text =>
        match lib.parse text with
        | .ok parser => .ok (some parser, text)
        | .error _ => .ok (none, "")

/-- `crawl_delay`, of an entry. -/
def RobotsLib.crawlDelay {ρ : Type} (lib : RobotsLib ρ) (entry : RobotsEntry ρ) : Option Rat :=
  if entry.parser.isNone then none else Robots.parseCrawlDelay lib.toLib entry.text.toList lib.useragent

/-- How far a call of `_entry` is. -/
inductive RobotsPhase (ρ : Type) where
  /-- It has looked without the lock of the domain. -/
  | looked (entry : Option (RobotsEntry ρ))
  | missed
  | waiting (lock : Nat)
  | held (lock : Nat)
  /-- It has looked again. -/
  | relooked (lock : Nat) (entry : Option (RobotsEntry ρ))
  | fetching (lock : Nat) (begun : Nat)
  | fetched (lock : Nat) (entry : RobotsEntry ρ)
  | stored (lock : Nat) (entry : RobotsEntry ρ)
  deriving DecidableEq

/-- The lock that `_domain_lock` has returned. -/
def RobotsPhase.lock? {ρ : Type} : RobotsPhase ρ → Option Nat
  | .looked _ | .missed => none
  | .waiting l | .held l | .relooked l _ | .fetching l _ | .fetched l _ | .stored l _ => some l

/-- The lock that it has. -/
def RobotsPhase.inside {ρ : Type} : RobotsPhase ρ → Option Nat
  | .looked _ | .missed | .waiting _ => none
  | .held l | .relooked l _ | .fetching l _ | .fetched l _ | .stored l _ => some l

structure RobotsCall (ρ : Type) where
  domain : String
  phase : RobotsPhase ρ
  deriving DecidableEq

structure RobotsFetch (ρ : Type) where
  domain : String
  begun : Nat
  response : RobotsResponse
  /-- `none` if `_fetch` raised. -/
  entry : Option (RobotsEntry ρ)

/-- An entry that was returned, and when it was judged fresh or was fetched. -/
structure RobotsAnswer (ρ : Type) where
  domain : String
  entry : RobotsEntry ρ
  moment : Nat

/-- `allowed`, of a URL about which a parser answers so. -/
def RobotsAnswer.allowed {ρ : Type} (a : RobotsAnswer ρ) (canFetch : ρ → Except Exn Bool) : Bool :=
  match a.entry.parser with
  | none => true
  | some parser =>
    match canFetch parser with
    | .ok b => b
    | .error _ => true

structure RobotsCache (ρ : Type) where
  now : Nat := 0
  entries : String → Option (RobotsEntry ρ) := fun _ => none
  domainLocks : String → Option Nat := fun _ => none
  /-- The thread that has a lock. -/
  holders : Nat → Option Nat := fun _ => none
  calls : Nat → Option (RobotsCall ρ) := fun _ => none
  delays : String → Option Rat := fun _ => none
  locks : List (String × Nat) := []
  resets : Nat := 0
  fetches : List (RobotsFetch ρ) := []
  answers : List (RobotsAnswer ρ) := []

inductive RobotsAct where
  | tick (d : Nat)
  | entry (i : Nat) (domain : String)
  /-- `if entry is not None and self._fresh(entry)`, of either look. -/
  | judge (i : Nat)
  | domainLock (i : Nat)
  | acquire (i : Nat)
  | look (i : Nat)
  | fetched (i : Nat) (response : RobotsResponse)
  | store (i : Nat)
  /-- `_apply_crawl_delay`, and the return. -/
  | applyDelay (i : Nat)
  | reset

namespace RobotsCache

variable {ρ : Type}

/-- `_fresh`. -/
def fresh (ttl : Int) (now : Nat) (entry : RobotsEntry ρ) : Bool :=
  decide (ttl ≤ 0) || decide ((now : Int) - entry.fetchedAt < ttl)

def setCall (s : RobotsCache ρ) (i : Nat) (c : Option (RobotsCall ρ)) : RobotsCache ρ :=
  { s with calls := Function.update s.calls i c }

/-- The call returns the entry, without a lock. -/
def answer (s : RobotsCache ρ) (i : Nat) (domain : String) (entry : RobotsEntry ρ) (moment : Nat) : RobotsCache ρ :=
  { s.setCall i none with answers := ⟨domain, entry, moment⟩ :: s.answers }

def release (s : RobotsCache ρ) (l : Nat) : RobotsCache ρ := { s with holders := Function.update s.holders l none }

/-- `_apply_crawl_delay`. -/
def applyCrawlDelay (lib : RobotsLib ρ) (s : RobotsCache ρ) (domain : String) (entry : RobotsEntry ρ) : RobotsCache ρ :=
  match lib.crawlDelay entry with
  | none => s
  | some seconds =>
    if 0 < seconds then { s with delays := Function.update s.delays domain (some seconds) } else s

def step (lib : RobotsLib ρ) (ttl : Int) (s : RobotsCache ρ) : RobotsAct → Option (RobotsCache ρ)
  | .tick d => some { s with now := s.now + d }
  | .entry i domain =>
    match s.calls i with
    | none => some (s.setCall i (some ⟨domain, .looked (s.entries domain)⟩))
    | some _ => none
  | .judge i =>
    match s.calls i with
    | some ⟨domain, .looked entry⟩ =>
      match entry.filter (fresh ttl s.now) with
      | some entry => some (s.answer i domain entry s.now)
      | none => some (s.setCall i (some ⟨domain, .missed⟩))
    | some ⟨domain, .relooked l entry⟩ =>
      match entry.filter (fresh ttl s.now) with
      | some entry => some ((s.answer i domain entry s.now).release l)
      | none => some (s.setCall i (some ⟨domain, .fetching l s.now⟩))
    | _ => none
  | .domainLock i =>
    match s.calls i with
    | some ⟨domain, .missed⟩ =>
      match s.domainLocks domain with
      | some l => some (s.setCall i (some ⟨domain, .waiting l⟩))
      | none =>
        some { s.setCall i (some ⟨domain, .waiting s.locks.length⟩) with
          domainLocks := Function.update s.domainLocks domain (some s.locks.length)
          locks := s.locks ++ [(domain, s.resets)] }
    | _ => none
  | .acquire i =>
    match s.calls i with
    | some ⟨domain, .waiting l⟩ =>
      if (s.holders l).isNone then
        some { s.setCall i (some ⟨domain, .held l⟩) with holders := Function.update s.holders l (some i) }
      else none
    | _ => none
  | .look i =>
    match s.calls i with
    | some ⟨domain, .held l⟩ => some (s.setCall i (some ⟨domain, .relooked l (s.entries domain)⟩))
    | _ => none
  | .fetched i response =>
    match s.calls i with
    | some ⟨domain, .fetching l begun⟩ =>
      match lib.fetch response with
      | .ok (parser, text) =>
        let entry : RobotsEntry ρ := ⟨parser, text, s.now⟩
        some { s.setCall i (some ⟨domain, .fetched l entry⟩) with
          fetches := ⟨domain, begun, response, some entry⟩ :: s.fetches }
      | .error _ => some ({ s.setCall i none with fetches := ⟨domain, begun, response, none⟩ :: s.fetches }.release l)
    | _ => none
  | .store i =>
    match s.calls i with
    | some ⟨domain, .fetched l entry⟩ =>
      some { s.setCall i (some ⟨domain, .stored l entry⟩) with
        entries := Function.update s.entries domain (some entry) }
    | _ => none
  | .applyDelay i =>
    match s.calls i with
    | some ⟨domain, .stored l entry⟩ =>
      some ((s.applyCrawlDelay lib domain entry).answer i domain entry entry.fetchedAt |>.release l)
    | _ => none
  | .reset =>
    some { s with entries := fun _ => none, domainLocks := fun _ => none, resets := s.resets + 1 }

def machine (lib : RobotsLib ρ) (ttl : Int) : Machine (RobotsCache ρ) RobotsAct where
  start s := s = {}
  step := step lib ttl

end RobotsCache

end Netspy
