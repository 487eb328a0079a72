import Mathlib.Algebra.Order.Field.Rat
import Netspy.Impl.ItemBuffer

/-!
# `network/status.py`

What the status code of a response decides, and how long it makes its worker wait: the
header `Retry-After` as Python reads it, where a time may be infinite or not a number, and
a date may be one that no `datetime` has. Each function is given the clock. Times are in
seconds.
-/

namespace Netspy

structure Response where
  statusCode : Nat
  url : String
  headers : List (String × String) := []
  deriving Repr, DecidableEq

inductive Verdict where
  | ok
  | retry
  | fail
  deriving Repr, DecidableEq

def classify (st : Setting) (r : Response) : Verdict :=
  if !st.CHECK_STATUS_CODE then .ok
  else if 200 ≤ r.statusCode ∧ r.statusCode < 400 then .ok
  else if r.statusCode ∈ st.ACCEPT_STATUS_CODES then .ok
  else if r.statusCode ∈ st.RETRY_STATUS_CODES then .retry
  else .fail

/-! ## `Retry-After` -/

/-- A Python float. -/
inductive PyFloat where
  | nan
  | fin (x : ℚ)
  | inf
  | negInf
  deriving DecidableEq, Repr

namespace PyFloat

/-- `a < b`. -/
def lt : PyFloat → PyFloat → Bool
  | .fin x, .fin y => decide (x < y)
  | .fin _, .inf => true
  | .negInf, .fin _ => true
  | .negInf, .inf => true
  | _, _ => false

/-- `a <= b`. -/
def le : PyFloat → PyFloat → Bool
  | .nan, _ => false
  | _, .nan => false
  | a, b => !lt b a

/-- `max(a, b)`. -/
def pyMax (a b : PyFloat) : PyFloat := if lt a b then b else a

/-- `min(a, b)`. -/
def pyMin (a b : PyFloat) : PyFloat := if lt b a then b else a

/-- `bool(x)`. -/
def truthy (x : PyFloat) : Bool := x != .fin 0

end PyFloat

/-- What `status.py` uses of Python's libraries. -/
structure HeaderLib where
  strip : String → String
  /-- `float(text)`, unless it raises `ValueError`. -/
  float : String → Option PyFloat
  /-- `parsedate_to_datetime(text)`, by what `timestamp()` of it returns or raises. -/
  parsedate : String → Except Exn (Option (Except Exn ℚ))
  /-- The difference of two finite floats. -/
  sub : ℚ → ℚ → ℚ := fun x y => x - y
  /-- `isinstance(exc, cls)`. -/
  isinstance : Exn → String → Bool := fun e cls => e == cls

namespace RetryAfter

variable (lib : HeaderLib) (st : Setting)

/-- `setting.RETRY_AFTER_MAX`. -/
def retryAfterMax : ℚ := st.RETRY_AFTER_MAX / 1000000

def parseRetryAfter (value : String) (now : ℚ) : Except Exn (Option PyFloat) :=
  let value := lib.strip value
  if value = "" then .ok none
  else
    match lib.float value with
    | some x => .ok (some (x.pyMax (.fin 0)))
    | none =>
      match lib.parsedate value with
      | .error e =>
        if lib.isinstance e "TypeError" || lib.isinstance e "ValueError" then .ok none else .error e
      | .ok none => .ok none
      | .ok (some (.error e)) => .error e
      | .ok (some (.ok when_)) => .ok (some (PyFloat.pyMax (.fin (lib.sub when_ now)) (.fin 0)))

def retryAfterSeconds (resp : Option Response) (now : ℚ) : Except Exn (Option PyFloat) :=
  match resp with
  | none => .ok none
  | some r =>
    if st.RETRY_AFTER_MAX = 0 ∨ r.statusCode ∉ [429, 503] then .ok none
    else
      match r.headers.lookup "retry-after" with
      | none => .ok none
      | some raw => if raw = "" then .ok none else parseRetryAfter lib raw now

/-- The wait before the `times`-th retry; `uniform` is what `random.uniform(0.5, 1.0)`
returns. -/
def retryDelay (uniform : ℚ) (times : Int) (resp : Option Response) (now : ℚ) : Except Exn PyFloat :=
  match retryAfterSeconds lib st resp now with
  | .error e => .error e
  | .ok (some explicit) => .ok explicit
  | .ok none =>
    if 0 < st.RETRY_BACKOFF then
      -- a float times an int that no float can hold
      if 1024 < times then .error "OverflowError"
      else
        let raw : ℚ := st.RETRY_BACKOFF / 1000000 * 2 ^ (max (times - 1) 0).toNat
        let capped := if st.RETRY_AFTER_MAX = 0 then raw else min raw (retryAfterMax st)
        .ok (.fin (capped * uniform))
    else .ok (.fin (st.SPIDER_RETRY_INTERVAL / 1000000))

def retryAfterTooLong (resp : Option Response) (now : ℚ) : Except Exn (Option PyFloat) :=
  match retryAfterSeconds lib st resp now with
  | .error e => .error e
  | .ok none => .ok none
  | .ok (some seconds) => .ok (if (PyFloat.fin (retryAfterMax st)).lt seconds then some seconds else none)

end RetryAfter

end Netspy
