import Mathlib.Logic.Function.Basic
import Netspy.Framework.Machine
import Netspy.Impl.Setting

/-!
# `core/base_scheduler.py`: a run under signals

`BaseScheduler.run` with the signals that come, and with the calls of `stop` from
elsewhere. What a call of `run` does is not seen here: it returns, or raises. Python runs
the handler of a signal between two instructions of the main thread, so that a signal may
come anywhere; a call of `_on_signal` is one step. `supported` are the signals of the
platform. A handler that is none of Python's, which `getsignal` gives as `None`, is left
out, and so are the handlers that raise something other than `KeyboardInterrupt`.

`begun`, `asked`, `answers`, `waitedAt` and `ended` record what happened. No step depends on
them.
-/

namespace Netspy

inductive Sig where
  | SIGINT
  | SIGTERM
  deriving Repr, DecidableEq

inductive Handler (η : Type) where
  | onSignal
  | other (handler : η)
  deriving Repr, DecidableEq

/-- What a call raises: an `Exception`, or something like `KeyboardInterrupt`. -/
inductive Raised where
  | exception
  | exit
  deriving Repr, DecidableEq

/-- The steps of `_teardown`. -/
inductive TearStep where
  | stopWorkers
  | stopMetrics
  | stopBuffers
  | flushRequests
  | flushItems
  | closePipelines
  | restoreSignal
  | closeDownloaders
  | closeProxyPool
  | closeUserPool
  | onShutdown
  deriving Repr, DecidableEq

inductive RunPlace (η : Type) where
  | startCallback
  | install (sigs : List Sig)
  /-- `signal.signal(sig, self._on_signal)` -/
  | installing (sig : Sig) (sigs : List Sig)
  | seed
  | startThreads
  | onStart
  /-- the head of the loop of `_wait_until_done` -/
  | loop
  | isDone
  | alert
  | wait
  | tear (step : TearStep) (rest : List TearStep)
  | restoring (saved : List (Sig × Handler η)) (rest : List TearStep)
  | endCallback
  | summary
  | returned
  | raised (e : Raised)
  deriving Repr, DecidableEq

/-- Why the loop is over. -/
inductive LoopEnd where
  | stopped
  | deadline
  | done
  | raised
  deriving Repr, DecidableEq

structure Lifecycle (η : Type) where
  place : RunPlace η := .startCallback
  handlers : Sig → Handler η
  origHandlers : List (Sig × Handler η) := []
  interrupted : Bool := false
  stopEvent : Bool := false
  clock : Nat := 0
  deadline : Option Nat := none
  streak : Nat := 0
  /-- What the `finally` of `run` raises again. -/
  pending : Option Raised := none
  begun : List TearStep := []
  /-- How often the run was asked to stop. -/
  asked : Nat := 0
  /-- The answers of `_is_done`, with the last one first. -/
  answers : List Bool := []
  waitedAt : Option Nat := none
  ended : Option LoopEnd := none

inductive LifecycleAct where
  /-- The call that `run` is at returns, or raises. -/
  | goOn (raised : Option Raised)
  /-- `_is_done` returns. -/
  | answer (done : Bool)
  /-- A handler that is not `_on_signal` may raise `KeyboardInterrupt`. -/
  | signal (sig : Sig) (interrupts : Bool)
  | stop
  | tick (time : Nat)

namespace Lifecycle

variable {η : Type}

/-- `_SIGNALS` -/
def SIGNALS : List Sig := [.SIGINT, .SIGTERM]

/-- `steps` -/
def steps : List TearStep :=
  [.stopWorkers, .stopMetrics, .stopBuffers, .flushRequests, .flushItems, .closePipelines, .restoreSignal,
    .closeDownloaders, .closeProxyPool, .closeUserPool, .onShutdown]

def finished (s : Lifecycle η) : Bool :=
  match s.place with
  | .returned | .raised _ => true
  | _ => false

/-- The loop of `_teardown` goes on; after it `run` raises what was raised, or goes on. -/
def tearNext (s : Lifecycle η) : List TearStep → Lifecycle η
  | [] => { s with place := s.pending.elim .endCallback .raised }
  | .restoreSignal :: rest =>
    { s with place := .restoring s.origHandlers rest, begun := s.begun ++ [.restoreSignal] }
  | step :: rest => { s with place := .tear step rest, begun := s.begun ++ [step] }

/-- `_wait_until_done` is over. -/
def endLoop (s : Lifecycle η) (ended : LoopEnd) : Lifecycle η := { s with ended := some ended }.tearNext steps

/-- Something is raised at the place where `run` is. -/
def raise (s : Lifecycle η) (e : Raised) : Lifecycle η :=
  match s.place, e with
  | .loop, _ | .isDone, _ | .alert, _ | .wait, _ => { s with pending := some e }.endLoop .raised
  | .tear _ rest, .exception | .restoring _ rest, .exception => s.tearNext rest
  | _, _ => { s with place := .raised e }

/-- `_restore_signal`, in one go. -/
def restore (s : Lifecycle η) : Lifecycle η :=
  { s with
    handlers := s.origHandlers.foldl (fun handlers entry => Function.update handlers entry.1 entry.2) s.handlers
    origHandlers := [] }

/-- `_on_signal`. -/
def onSignal (s : Lifecycle η) : Lifecycle η :=
  if s.interrupted then { s with asked := s.asked + 1 }.restore.raise .exit
  else { s with interrupted := true, stopEvent := true, asked := s.asked + 1 }

/-- The call at this place returns. -/
def next (st : Setting) (main : Bool) (supported : Sig → Bool) (s : Lifecycle η) : Option (Lifecycle η) :=
  match s.place with
  | .startCallback => some { s with place := .install (if main then SIGNALS else []) }
  | .install [] => some { s with place := .seed }
  | .install (sig :: sigs) =>
    if supported sig then
      some { s with
        place := .installing sig sigs
        origHandlers := s.origHandlers.filter (fun entry => entry.1 ≠ sig) ++ [(sig, s.handlers sig)] }
    else some { s with place := .install sigs, origHandlers := s.origHandlers.filter fun entry => entry.1 ≠ sig }
  | .installing sig sigs =>
    some { s with place := .install sigs, handlers := Function.update s.handlers sig .onSignal }
  | .seed => some { s with place := .startThreads }
  | .startThreads => some { s with place := .onStart }
  | .onStart =>
    let limit := st.SPIDER_MAX_RUNTIME
    some { s with
      place := .loop, streak := 0, waitedAt := some s.clock
      deadline := if 0 < limit then some (s.clock + limit) else none }
  | .loop =>
    if s.stopEvent then some (s.endLoop .stopped)
    else if s.deadline.any (· ≤ s.clock) then some ({ s with stopEvent := true }.endLoop .deadline)
    else some { s with place := .isDone }
  | .isDone => none
  | .alert => some { s with place := .wait }
  | .wait => some { s with place := .loop }
  | .tear _ rest => some (s.tearNext rest)
  | .restoring [] rest => some ({ s with origHandlers := [] }.tearNext rest)
  | .restoring ((sig, handler) :: saved) rest =>
    some { s with place := .restoring saved rest, handlers := Function.update s.handlers sig handler }
  | .endCallback => some { s with place := .summary }
  | .summary => some { s with place := .returned }
  | .returned | .raised _ => none

/-- Whether the call at this place may raise something by itself. -/
def mayRaise (s : Lifecycle η) : Bool :=
  match s.place with
  | .startCallback | .seed | .startThreads | .onStart | .isDone | .alert | .tear _ _ | .endCallback | .summary => true
  | .install _ | .installing _ _ | .loop | .wait | .restoring _ _ | .returned | .raised _ => false

def step (st : Setting) (main : Bool) (supported : Sig → Bool) (s : Lifecycle η) : LifecycleAct → Option (Lifecycle η)
  | .goOn none => s.next st main supported
  | .goOn (some e) => if s.mayRaise then some (s.raise e) else none
  | .answer done =>
    match s.place with
    | .isDone =>
      let s := { s with answers := done :: s.answers, streak := if done then s.streak + 1 else 0 }
      if done ∧ st.DONE_CHECK_TIMES ≤ s.streak then some (s.endLoop .done) else some { s with place := .alert }
    | _ => none
  | .signal sig interrupts =>
    if main ∧ supported sig ∧ !s.finished then
      match s.handlers sig with
      | .onSignal => some s.onSignal
      | .other _ => if interrupts then some (s.raise .exit) else some s
    else none
  | .stop => some { s with interrupted := true, stopEvent := true, asked := s.asked + 1 }
  | .tick time => some { s with clock := s.clock + time }

/-- `run` is called, by the main thread or another one. -/
def machine (st : Setting) (main : Bool) (supported : Sig → Bool) (before : Sig → η) :
    Machine (Lifecycle η) LifecycleAct where
  start s := ∃ clock, s = { handlers := fun sig => .other (before sig), clock }
  step := step st main supported

/-- In a step of `_teardown`. -/
def tearing (s : Lifecycle η) : Bool :=
  match s.place with
  | .tear _ _ | .restoring _ _ => true
  | _ => false

/-- No step of `_teardown` raises `SystemExit` or the like by itself. -/
def Sound (s : Lifecycle η) : LifecycleAct → Prop
  | .goOn raised => raised = some .exit → s.tearing = false
  | _ => True

instance (s : Lifecycle η) : (a : LifecycleAct) → Decidable (Sound s a)
  | .goOn raised => inferInstanceAs (Decidable (raised = some .exit → s.tearing = false))
  | .answer _ | .signal _ _ | .stop | .tick _ => isTrue trivial

end Lifecycle

end Netspy
