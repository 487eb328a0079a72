import Mathlib.Data.Rat.Floor
import Netspy.Impl.Throttle

/-!
# `network/global_throttle.py`

The script that reserves a domain in Redis, and one domain that is reserved with
it and with a `DomainThrottle` at the same moments. The clock is in microseconds;
the script has milliseconds.

What the script computes are doubles. All of them are sums of whole milliseconds
and of `now`, which has at most three more decimals; such numbers are far enough
apart for the floors to be those of exact arithmetic.
-/

namespace Netspy

/-- What Redis has under the key of a domain, and when that expires. -/
structure ThrottleKey where
  value : Int
  expires : Int
  deriving DecidableEq

/-- `_TICKET_LUA`: the reply, and what the key is set to. -/
def ticketLua (micros : Nat) (delay : ℚ) (key : Option ThrottleKey) : Int × ThrottleKey :=
  let now : ℚ := (micros / 1000000 : Nat) * 1000 + (micros % 1000000 : Nat) / 1000
  let next : ℚ := ((key.map ThrottleKey.value).getD 0 : Int)
  let ready := if now < next then next else now
  let target := ready + delay
  (⌊ready - now⌋, { value := ⌊target⌋, expires := ⌊now⌋ + (⌊target - now⌋ + 60000) })

/-- A domain in the process and in Redis, with the waits in both, the last first. -/
structure BothThrottles where
  now : Nat := 0
  throttle : DomainThrottle := {}
  key : Option ThrottleKey := none
  waits : List (Int × ℚ) := []

/-- Delays and penalties are whole milliseconds. -/
inductive BothAct where
  | tick (now : Nat)
  | ticket (delay : Nat)
  | penalize (seconds : Nat)
  | expire

namespace BothThrottles

def step (domain : String) (s : BothThrottles) : BothAct → Option BothThrottles
  | .tick now => if s.now ≤ now then some { s with now } else none
  | .ticket delay =>
    let (reply, key) := ticketLua s.now (max delay 0) s.key
    let (wait, throttle) := s.throttle.takeTicket domain (delay * 1000) s.now
    some { s with throttle, key := some key, waits := (reply, wait) :: s.waits }
  | .penalize seconds =>
    if seconds ≤ 0 then some s
    else
      let (_, key) := ticketLua s.now (max seconds 0) s.key
      some { s with throttle := s.throttle.penalize domain (seconds * 1000) s.now, key := some key }
  | .expire =>
    match s.key with
    | some key => if key.expires ≤ (s.now / 1000 : Nat) then some { s with key := none } else none
    | none => none

end BothThrottles

def bothMachine (domain : String) : Machine BothThrottles BothAct where
  start s := ∃ now, s = { now }
  step := BothThrottles.step domain

end Netspy
