import Netspy.Impl.ParserControl

/-!
# How long a response makes its worker wait

The functions of `ParserWorker` that sleep or penalize, as far as they do. Each reads the
clock itself.
-/

namespace Netspy

namespace RetryAfter

variable (lib : HeaderLib) (st : Setting)

inductive Wait where
  /-- `throttle.penalize`. -/
  | penalize (seconds : PyFloat)
  /-- `time.sleep`, before `put_retry`. -/
  | sleep (delay : PyFloat)
  deriving DecidableEq, Repr

/-- What the turn of a response depends on otherwise: what `time.time()` returns, call
by call, how often the request was retried, whether an exception is given up on at
once, and what `validate` and the callback do. -/
structure Visit where
  clock : Nat → ℚ
  uniform : ℚ := 1
  retryTimes : Int := 0
  givesUp : Exn → Bool := fun _ => false
  validate : Except Exn (Option Bool) := .ok none
  callback : Except Exn Unit := .ok ()

/-- How often the clock was read, and the waits. -/
structure Waited where
  reads : Nat := 0
  waits : List Wait := []

def Waited.read (w : Waited) : Waited := { w with reads := w.reads + 1 }

def Waited.emit (w : Waited) (x : Wait) : Waited := { w with waits := w.waits ++ [x] }

variable (v : Visit)

def retryOrFail (resp : Option Response) (exc : Exn) (w : Waited) : Except Exn Unit × Waited :=
  if v.givesUp exc || decide (st.SPIDER_MAX_RETRY_TIMES ≤ v.retryTimes) then (.ok (), w)
  else
    match retryDelay lib st v.uniform (v.retryTimes + 1) resp (v.clock w.reads) with
    | .error e => (.error e, w.read)
    | .ok delay => (.ok (), if (PyFloat.fin 0).lt delay then w.read.emit (.sleep delay) else w.read)

def checkStatus (resp : Response) (w : Waited) : Except Exn Bool × Waited :=
  match classify st resp with
  | .ok => (.ok true, w)
  | .fail => (.ok false, w)
  | .retry =>
    match retryAfterSeconds lib st (some resp) (v.clock w.reads) with
    | .error e => (.error e, w.read)
    | .ok cooldown =>
      let w :=
        match cooldown with
        | none => w.read
        | some s =>
          if s.truthy then w.read.emit (.penalize (s.pyMin (.fin (retryAfterMax st)))) else w.read
      match retryAfterTooLong lib st (some resp) (v.clock w.reads) with
      | .error e => (.error e, w.read)
      | .ok (some _) => (.ok false, w.read)
      | .ok none =>
        let (res, w) := retryOrFail lib st v (some resp) "HttpStatusError" w.read
        (res.map fun _ => false, w)

def validate (resp : Response) (w : Waited) : Except Exn Bool × Waited :=
  match v.validate with
  | .error e =>
    if lib.isinstance e "ValidationError" then
      let (res, w) := retryOrFail lib st v (some resp) e w
      (res.map fun _ => false, w)
    else if lib.isinstance e "NotRetryError" then (.ok false, w)
    else (.error e, w)
  | .ok ok => (.ok (decide (ok ≠ some false)), w)

def callBack (resp : Response) (w : Waited) : Except Exn Unit × Waited :=
  match v.callback with
  | .error e => if lib.isinstance e "NotRetryError" then (.ok (), w) else retryOrFail lib st v (some resp) e w
  | .ok () => (.ok (), w)

/-- `_process`, once the middlewares have let a response through. -/
def handle (resp : Response) : Except Exn Unit × Waited :=
  match checkStatus lib st v resp {} with
  | (.error e, w) => (.error e, w)
  | (.ok false, w) => (.ok (), w)
  | (.ok true, w) =>
    match validate lib st v resp w with
    | (.error e, w) => (.error e, w)
    | (.ok false, w) => (.ok (), w)
    | (.ok true, w) => callBack lib st v resp w

end RetryAfter

end Netspy
