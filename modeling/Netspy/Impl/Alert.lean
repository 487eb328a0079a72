import Netspy.Impl.Request
import Netspy.Impl.Setting

/-!
# `utils/alert.py`: `AlertManager`

The checks that the main thread makes while it waits. A notifier that raises
is logged, so an alert is the time it is sent at; the texts are left out. The
filter is only asked for its `count` and its `capacity`, which for a filter in
Redis are calls that may raise.
-/

namespace Netspy

structure AlertManager where
  lastOk : Nat := 0
  lastProgress : Nat := 0
  lastSent : List (String × Nat) := []
  deriving Repr, DecidableEq

/-- What a check reads: the clock, two stats and two properties of the filter. -/
structure AlertInput where
  now : Nat := 0
  ok : Nat := 0
  failed : Nat := 0
  count : Except Exn (Option Int) := .ok none
  capacity : Except Exn (Option Int) := .ok none

/-- `getattr(obj, name, None)`, where the property gives `value`. -/
def getattr (isinstance : Exn → String → Bool) (value : Except Exn (Option Int)) :
    Except Exn (Option Int) :=
  match value with
  | .error e => if isinstance e "AttributeError" then .ok none else .error e
  | .ok v => .ok v

namespace AlertManager

variable (st : Setting) (isinstance : Exn → String → Bool)

/-- `_fire`. -/
def fire (a : AlertManager) (key : String) (now : Nat) : AlertManager :=
  match a.lastSent.lookup key with
  | some last =>
    if now - last < st.WARNING_INTERVAL then a
    else { a with lastSent := (key, now) :: a.lastSent.filter fun s => s.1 ≠ key }
  | none => { a with lastSent := (key, now) :: a.lastSent }

/-- `_check_dedup_fill`. -/
def checkDedupFill (x : AlertInput) (a : AlertManager) : Except Exn AlertManager := do
  if st.DEDUP_WARN_FILL_RATE = 0 then return a
  let count ← getattr isinstance x.count
  let capacity ← getattr isinstance x.capacity
  match count, capacity with
  | some count, some capacity =>
    if capacity ≤ 0 then return a
    if count * 1000000 < capacity * st.DEDUP_WARN_FILL_RATE then return a
    return a.fire st "dedup_fill" x.now
  | _, _ => return a

/-- The three checks of the stats. `failed / total` is made only from
`WARNING_MIN_REQUESTS` requests on, which may be none. -/
def checkStats (x : AlertInput) (a : AlertManager) : Except Exn AlertManager := do
  let total := x.ok + x.failed
  let a := if a.lastOk < x.ok then { a with lastOk := x.ok, lastProgress := x.now } else a
  let a :=
    if st.WARNING_STALL_SECONDS ≠ 0 ∧ total ≠ 0 ∧ st.WARNING_STALL_SECONDS < x.now - a.lastProgress then
      a.fire st "stall" x.now
    else a
  let a ←
    if st.WARNING_MIN_REQUESTS ≤ total then
      if total = 0 then throw "ZeroDivisionError"
      else if st.WARNING_FAILED_RATE * total ≤ x.failed * 1000000 then pure (a.fire st "failed_rate" x.now)
      else pure a
    else pure a
  if st.WARNING_FAILED_COUNT ≠ 0 ∧ st.WARNING_FAILED_COUNT ≤ x.failed then
    return a.fire st "failed_count" x.now
  return a

def check (x : AlertInput) (a : AlertManager) : Except Exn AlertManager :=
  if !st.WARNING_ENABLE then .ok a
  else do checkDedupFill st isinstance x (← checkStats st x a)

/-- What makes a check raise: a rate of no requests at all, or the filter. -/
structure Fails (x : AlertInput) : Prop where
  enabled : st.WARNING_ENABLE = true
  raises : (st.WARNING_MIN_REQUESTS ≤ 0 ∧ x.ok = 0 ∧ x.failed = 0) ∨
    st.DEDUP_WARN_FILL_RATE ≠ 0 ∧
      ((getattr isinstance x.count).isOk = false ∨ (getattr isinstance x.capacity).isOk = false)

variable {st isinstance} {x : AlertInput} {a : AlertManager}

theorem isOk_checkStats :
    (checkStats st x a).isOk = true ↔ ¬ (st.WARNING_MIN_REQUESTS ≤ 0 ∧ x.ok = 0 ∧ x.failed = 0) := by
  unfold checkStats
  by_cases h0 : st.WARNING_MIN_REQUESTS ≤ ((x.ok + x.failed : Nat) : Int)
  · by_cases ht : x.ok + x.failed = 0
    · refine iff_of_false ?_ (not_not.mpr ⟨?_, ?_, ?_⟩)
      · simp only [if_pos h0, if_pos ht]
        exact Bool.false_ne_true
      all_goals omega
    · refine iff_of_true ?_ (by omega)
      simp only [if_pos h0, if_neg ht]
      split <;> simp only [pure_bind] <;> split <;> rfl
  · refine iff_of_true ?_ (by omega)
    simp only [if_neg h0, pure_bind]
    split <;> rfl

theorem isOk_checkDedupFill :
    (checkDedupFill st isinstance x a).isOk = true ↔
      ¬ (st.DEDUP_WARN_FILL_RATE ≠ 0 ∧
        ((getattr isinstance x.count).isOk = false ∨ (getattr isinstance x.capacity).isOk = false)) := by
  unfold checkDedupFill
  by_cases h0 : st.DEDUP_WARN_FILL_RATE = 0
  · rw [if_pos h0]
    exact iff_of_true rfl fun h => h.1 h0
  · rw [if_neg h0]
    cases getattr isinstance x.count with
    | error e => exact iff_of_false Bool.false_ne_true (not_not.mpr ⟨h0, .inl rfl⟩)
    | ok count =>
      cases getattr isinstance x.capacity with
      | error e => exact iff_of_false Bool.false_ne_true (not_not.mpr ⟨h0, .inr rfl⟩)
      | ok capacity =>
        refine iff_of_true ?_ fun h => h.2.elim Bool.noConfusion Bool.noConfusion
        simp only [bind, Except.bind]
        split
        · split <;> [rfl; split <;> rfl]
        · rfl

theorem isOk_check : (check st isinstance x a).isOk = true ↔ ¬ Fails st isinstance x := by
  unfold check
  cases hw : st.WARNING_ENABLE with
  | false => exact iff_of_true rfl fun h => by simp [h.enabled] at hw
  | true =>
    have hs : (checkStats st x a).isOk = true ↔ _ := isOk_checkStats
    cases hc : checkStats st x a with
    | error e =>
      rw [hc] at hs
      have := not_not.mp (mt hs.mpr Bool.false_ne_true)
      exact iff_of_false Bool.false_ne_true (not_not.mpr ⟨hw, .inl this⟩)
    | ok a' =>
      rw [hc] at hs
      refine (isOk_checkDedupFill (a := a')).trans (not_congr ⟨fun h => ⟨hw, .inr h⟩, fun h => ?_⟩)
      exact h.raises.resolve_left (hs.mp rfl)

end AlertManager

end Netspy
