import Mathlib.Tactic.Linarith
import Mathlib.Tactic.NormNum
import Netspy.Impl.RetryAfter

/-!
# How long a server can make a worker wait

`RETRY_AFTER_MAX` bounds what `_check_status` does for a status that is retried, since
it gives up on a longer wait; a response that passes the status check and fails later
is retried after whatever its header states. What a header states does not depend on
the clock (`stated`), so the waits of a turn are bounded exactly if that is, where it
counts (`waits_capped_iff`). A header that is not a number as a float goes past the
bound of `penalize`.
-/

namespace Netspy

namespace PyFloat

theorem pyMin_le (x : PyFloat) (m : ℚ) : (x.pyMin (.fin m)).le (.fin m) = true ↔ x ≠ .nan := by
  cases x with
  | fin x => by_cases h : m < x <;> simp [pyMin, lt, le, h]
  | _ => simp [pyMin, lt, le]

theorem lt_pyMax {m : ℚ} (hm : 0 ≤ m) (x : PyFloat) : lt (.fin m) (x.pyMax (.fin 0)) = lt (.fin m) x := by
  cases x with
  | fin x =>
    by_cases h : x < 0
    · have hx : ¬ m < x := by linarith
      simp [pyMax, lt, h, hx, hm]
    · simp [pyMax, lt, h]
  | _ => simp [pyMax, lt, hm]

theorem pyMax_le {m : ℚ} (hm : 0 ≤ m) (x : PyFloat) : (x.pyMax (.fin 0)).le (.fin m) = x.le (.fin m) := by
  cases x with
  | fin x =>
    by_cases h : x < 0
    · have hx : ¬ m < x := by linarith
      simp [pyMax, lt, le, h, hx, hm]
    · simp [pyMax, lt, le, h]
  | _ => simp [pyMax, lt, le, hm]

theorem pyMax_eq_nan {x : PyFloat} : x.pyMax (.fin 0) = .nan ↔ x = .nan := by
  cases x with
  | fin x => by_cases h : x < 0 <;> simp [pyMax, lt, h]
  | _ => simp [pyMax, lt]

theorem le_of_not_lt {x : PyFloat} {m : ℚ} (hx : x ≠ .nan) (h : lt (.fin m) x = false) : x.le (.fin m) = true := by
  cases x with
  | nan => exact absurd rfl hx
  | fin x => simpa [le] using h
  | _ => simpa [le] using h

end PyFloat

namespace RetryAfter

open PyFloat

variable (lib : HeaderLib) (st : Setting) (v : Visit)

def Wait.seconds : Wait → PyFloat
  | .penalize seconds => seconds
  | .sleep delay => delay

/-- No wait is longer than `RETRY_AFTER_MAX`. -/
def Capped (w : Waited) : Prop := ∀ x ∈ w.waits, x.seconds.le (.fin (retryAfterMax st)) = true

@[simp] theorem Waited.read_reads (w : Waited) : w.read.reads = w.reads + 1 := rfl

theorem capped_empty : Capped st {} := fun _ h => absurd h List.not_mem_nil

theorem capped_read {w : Waited} : Capped st w.read ↔ Capped st w := .rfl

theorem capped_emit {w : Waited} {x : Wait} :
    Capped st (w.emit x) ↔ Capped st w ∧ x.seconds.le (.fin (retryAfterMax st)) = true := by
  simp [Capped, Waited.emit, or_imp, forall_and]

theorem retryAfterMax_nonneg : 0 ≤ retryAfterMax st := by
  unfold retryAfterMax
  exact div_nonneg (Nat.cast_nonneg _) (by norm_num)

/-! ## What a header states -/

/-- What the response's header says, where it is read: a number of seconds or a date. -/
def stated (resp : Response) : Option (PyFloat ⊕ ℚ) :=
  if st.RETRY_AFTER_MAX = 0 ∨ resp.statusCode ∉ [429, 503] then none
  else
    match resp.headers.lookup "retry-after" with
    | none => none
    | some raw =>
      if raw = "" ∨ lib.strip raw = "" then none
      else
        match lib.float (lib.strip raw), lib.parsedate (lib.strip raw) with
        | some x, _ => some (.inl x)
        | none, .ok (some (.ok when_)) => some (.inr when_)
        | none, _ => none

/-- The seconds that this is at a time. -/
def secondsAt (now : ℚ) : PyFloat ⊕ ℚ → PyFloat
  | .inl x => x.pyMax (.fin 0)
  | .inr when_ => PyFloat.pyMax (.fin (lib.sub when_ now)) (.fin 0)

/-- A header that states nothing is ignored, or every read of it raises. -/
theorem retryAfterSeconds_cases (resp : Response) :
    (∃ x, stated lib st resp = some x ∧
      ∀ now, retryAfterSeconds lib st (some resp) now = .ok (some (secondsAt lib now x))) ∨
    stated lib st resp = none ∧ ∀ now s, retryAfterSeconds lib st (some resp) now ≠ .ok (some s) := by
  by_cases hc : st.RETRY_AFTER_MAX = 0 ∨ resp.statusCode ∉ [429, 503]
  · refine .inr ⟨by rw [stated, if_pos hc], fun now s => ?_⟩
    simp only [retryAfterSeconds, if_pos hc]
    simp
  · simp only [stated, retryAfterSeconds, if_neg hc]
    cases resp.headers.lookup "retry-after" with
    | none => simp
    | some raw =>
      by_cases h₁ : raw = ""
      · simp [h₁]
      · by_cases h₂ : lib.strip raw = ""
        · simp [h₁, h₂, parseRetryAfter]
        · simp only [parseRetryAfter, h₁, h₂, or_self, if_false]
          cases lib.float (lib.strip raw) with
          | some x => exact .inl ⟨.inl x, rfl, fun _ => rfl⟩
          | none =>
            cases lib.parsedate (lib.strip raw) with
            | error e =>
              refine .inr ⟨rfl, fun now s => ?_⟩
              dsimp only
              split <;> simp
            | ok date =>
              rcases date with _ | e | when_
              · simp
              · simp
              · exact .inl ⟨.inr when_, rfl, fun _ => rfl⟩

theorem retryAfterSeconds_some (resp : Response) {x : PyFloat ⊕ ℚ} (h : stated lib st resp = some x) (now : ℚ) :
    retryAfterSeconds lib st (some resp) now = .ok (some (secondsAt lib now x)) := by
  rcases retryAfterSeconds_cases lib st resp with ⟨y, hy, hs⟩ | ⟨hn, -⟩
  · rw [h] at hy
    cases hy
    exact hs now
  · rw [hn] at h
    cases h

theorem retryAfterSeconds_none (resp : Response) (h : stated lib st resp = none) (now : ℚ) (s : PyFloat) :
    retryAfterSeconds lib st (some resp) now ≠ .ok (some s) := by
  rcases retryAfterSeconds_cases lib st resp with ⟨y, hy, -⟩ | ⟨-, hs⟩
  · rw [h] at hy
    cases hy
  · exact hs now s

/-! ## The waits of a retry -/

/-- `_retry_or_fail` retries. -/
def Retries (exc : Exn) : Prop := v.givesUp exc = false ∧ v.retryTimes < st.SPIDER_MAX_RETRY_TIMES

/-- Sleeping for this is not too long. -/
def SleepOk (r : Except Exn (Option PyFloat)) : Prop :=
  ∀ s, r = .ok (some s) → lt (.fin 0) s = true → s.le (.fin (retryAfterMax st)) = true

variable {st}

/-- Without a header no retry waits. -/
theorem capped_retryOrFail (hinterval : st.SPIDER_RETRY_INTERVAL = 0) (hbackoff : st.RETRY_BACKOFF = 0)
    (resp : Response) (exc : Exn) (w : Waited) :
    Capped st (retryOrFail lib st v (some resp) exc w).2 ↔
      Capped st w ∧ (Retries st v exc → SleepOk st (retryAfterSeconds lib st (some resp) (v.clock w.reads))) := by
  by_cases hr : Retries st v exc
  · have hc : ¬ (v.givesUp exc || decide (st.SPIDER_MAX_RETRY_TIMES ≤ v.retryTimes)) = true := by
      simpa [Retries] using hr
    simp only [retryOrFail, if_neg hc, retryDelay, hbackoff, hinterval, SleepOk, hr]
    cases retryAfterSeconds lib st (some resp) (v.clock w.reads) with
    | error e => simp [capped_read]
    | ok s =>
      cases s with
      | none => simp [lt, capped_read]
      | some s =>
        by_cases hs : lt (.fin 0) s = true
        · simp [hs, capped_emit, capped_read, Wait.seconds]
        · simp [hs, capped_read]
  · have hc : (v.givesUp exc || decide (st.SPIDER_MAX_RETRY_TIMES ≤ v.retryTimes)) = true := by
      simp only [Retries, not_and, not_lt] at hr
      cases hg : v.givesUp exc with
      | true => rfl
      | false => simpa using hr hg
    simp [retryOrFail, hc, hr]

theorem sleepOk_stated (resp : Response) {x : PyFloat ⊕ ℚ} (h : stated lib st resp = some x) (now : ℚ) :
    SleepOk st (retryAfterSeconds lib st (some resp) now) ↔
      match x with
      | .inl x => x = .nan ∨ x.le (.fin (retryAfterMax st)) = true
      | .inr when_ => lib.sub when_ now ≤ retryAfterMax st := by
  have hm := retryAfterMax_nonneg st
  rw [retryAfterSeconds_some lib st resp h now]
  have hs : SleepOk st (.ok (some (secondsAt lib now x))) ↔
      (lt (.fin 0) (secondsAt lib now x) = true → (secondsAt lib now x).le (.fin (retryAfterMax st)) = true) := by
    simp [SleepOk]
  rw [hs]
  have key : ∀ y : PyFloat, (lt (.fin 0) (y.pyMax (.fin 0)) = true →
      (y.pyMax (.fin 0)).le (.fin (retryAfterMax st)) = true) ↔ y = .nan ∨ y.le (.fin (retryAfterMax st)) = true := by
    intro y
    rw [lt_pyMax le_rfl, pyMax_le hm]
    cases y with
    | fin y =>
      simp only [lt, le, decide_eq_true_eq, Bool.not_eq_true', decide_eq_false_iff_not, not_lt, reduceCtorEq,
        false_or]
      exact ⟨fun h => (lt_or_ge 0 y).elim h fun hy => hy.trans hm, fun h _ => h⟩
    | _ => simp [lt, le]
  cases x with
  | inl x => exact key x
  | inr when_ =>
    refine (key _).trans ?_
    simp [le, lt]

theorem sleepOk_none (resp : Response) (h : stated lib st resp = none) (now : ℚ) :
    SleepOk st (retryAfterSeconds lib st (some resp) now) :=
  fun s hs => absurd hs (retryAfterSeconds_none lib st resp h now s)

/-! ## A turn -/

variable (st) in
/-- A response that passes the status check fails later, and is retried. -/
def RetriedLate : Prop :=
  match v.validate with
  | .error e => lib.isinstance e "ValidationError" = true ∧ Retries st v e
  | .ok ok => ok ≠ some false ∧ ∃ e, v.callback = .error e ∧ lib.isinstance e "NotRetryError" = false ∧ Retries st v e

theorem capped_callBack (hinterval : st.SPIDER_RETRY_INTERVAL = 0) (hbackoff : st.RETRY_BACKOFF = 0)
    (resp : Response) :
    Capped st (callBack lib st v resp {}).2 ↔
      ((∃ e, v.callback = .error e ∧ lib.isinstance e "NotRetryError" = false ∧ Retries st v e) →
        SleepOk st (retryAfterSeconds lib st (some resp) (v.clock 0))) := by
  unfold callBack
  cases hcb : v.callback with
  | ok u => simp [capped_empty]
  | error e =>
    cases he : lib.isinstance e "NotRetryError" with
    | true => simp [he, capped_empty]
    | false =>
      simp only [he, Bool.false_eq_true, if_false, capped_retryOrFail lib v hinterval hbackoff]
      simp [capped_empty, he]

theorem capped_of_ok (hinterval : st.SPIDER_RETRY_INTERVAL = 0) (hbackoff : st.RETRY_BACKOFF = 0)
    {resp : Response} (hc : classify st resp = .ok) :
    Capped st (handle lib st v resp).2 ↔
      (RetriedLate lib st v → SleepOk st (retryAfterSeconds lib st (some resp) (v.clock 0))) := by
  have hcheck : checkStatus lib st v resp {} = (.ok true, {}) := by simp [checkStatus, hc]
  unfold handle RetriedLate
  rw [hcheck]
  simp only [validate]
  cases v.validate with
  | error e =>
    cases he : lib.isinstance e "ValidationError" with
    | true =>
      have hw : Capped st (retryOrFail lib st v (some resp) e {}).2 ↔ _ :=
        capped_retryOrFail lib v hinterval hbackoff resp e {}
      simp only [he, if_true, true_and]
      refine Iff.trans ?_ (hw.trans (and_iff_right (capped_empty st)))
      cases retryOrFail lib st v (some resp) e {} with
      | mk res w => cases res <;> rfl
    | false =>
      cases hn : lib.isinstance e "NotRetryError" <;> simp [he, hn, capped_empty]
  | ok ok =>
    by_cases hok : ok = some false
    · simp [hok, capped_empty]
    · simp only [hok, ne_eq, not_false_eq_true, decide_true, true_and]
      exact capped_callBack lib v hinterval hbackoff resp

omit st in
theorem map_false_ne (r : Except Exn Unit) : (r.map fun _ => false) ≠ .ok true := by
  cases r <;> simp [Except.map]

/-- What `_check_status` may do for a status that is retried. -/
theorem capped_of_retry (hinterval : st.SPIDER_RETRY_INTERVAL = 0) (hbackoff : st.RETRY_BACKOFF = 0)
    {resp : Response} (hc : classify st resp = .retry) :
    Capped st (handle lib st v resp).2 ↔
      match stated lib st resp with
      | none => True
      | some x =>
        secondsAt lib (v.clock 0) x ≠ .nan ∧
          (lt (.fin (retryAfterMax st)) (secondsAt lib (v.clock 1) x) = false → Retries st v "HttpStatusError" →
            SleepOk st (retryAfterSeconds lib st (some resp) (v.clock 2))) := by
  -- the turn ends in the status check
  have hsnd : (handle lib st v resp).2 = (checkStatus lib st v resp {}).2 := by
    have hne : (checkStatus lib st v resp {}).1 ≠ .ok true := by
      simp only [checkStatus, hc]
      split
      · simp
      · split
        · simp
        · simp
        · exact map_false_ne _
    unfold handle
    cases hx : checkStatus lib st v resp {} with
    | mk res w =>
      rw [hx] at hne
      rcases res with e | _ | _
      · rfl
      · rfl
      · exact absurd rfl hne
  rw [hsnd]
  rcases retryAfterSeconds_cases lib st resp with ⟨x, hx, hs⟩ | ⟨hx, hs⟩
  · have hread : ∀ s : PyFloat, Capped st (if s.truthy = true then
          (Waited.read {}).emit (.penalize (s.pyMin (.fin (retryAfterMax st)))) else Waited.read {}) ↔ s ≠ .nan := by
      intro s
      split
      · rw [capped_emit, capped_read]
        exact (and_iff_right (capped_empty st)).trans (pyMin_le _ _)
      · rename_i ht
        refine iff_of_true (capped_empty st) ?_
        rintro rfl
        exact ht rfl
    have hreads : ∀ s : PyFloat, (if s.truthy = true then
          (Waited.read {}).emit (.penalize (s.pyMin (.fin (retryAfterMax st)))) else Waited.read {}).reads = 1 := by
      intro s
      split <;> rfl
    simp only [hx, checkStatus, hc, hs, retryAfterTooLong, hreads]
    cases ht : lt (.fin (retryAfterMax st)) (secondsAt lib (v.clock 1) x) with
    | true =>
      simp only [if_true]
      rw [capped_read, hread]
      simp
    | false =>
      simp only [Bool.false_eq_true, if_false]
      refine (capped_retryOrFail lib v hinterval hbackoff resp _ _).trans ?_
      rw [capped_read, hread]
      simp only [Waited.read_reads, hreads, hs, forall_const]
  · simp only [hx, iff_true, checkStatus, hc, retryAfterTooLong]
    cases h₀ : retryAfterSeconds lib st (some resp) (v.clock (Waited.reads {})) with
    | error e => exact capped_empty st
    | ok s =>
      cases s with
      | some s => exact absurd h₀ (hs _ s)
      | none =>
        dsimp only
        cases h₁ : retryAfterSeconds lib st (some resp) (v.clock (Waited.read {}).reads) with
        | error e => exact capped_empty st
        | ok s =>
          cases s with
          | some s => exact absurd h₁ (hs _ s)
          | none =>
            refine (capped_retryOrFail lib v hinterval hbackoff resp _ _).mpr ⟨capped_empty st, fun _ => ?_⟩
            exact sleepOk_none lib resp hx _

variable (st) in
/-- What a header states is short enough where it counts: a number for a response that
is retried after the status check, a date too, and when the status check retries, that a
number is one and that the clock is not set back past the bound. -/
def Bounded (resp : Response) : Prop :=
  match classify st resp, stated lib st resp with
  | .ok, some (.inl x) => RetriedLate lib st v → x = .nan ∨ x.le (.fin (retryAfterMax st)) = true
  | .ok, some (.inr when_) => RetriedLate lib st v → lib.sub when_ (v.clock 0) ≤ retryAfterMax st
  | .retry, some (.inl x) => x ≠ .nan
  | .retry, some (.inr when_) => Retries st v "HttpStatusError" →
      lib.sub when_ (v.clock 1) ≤ retryAfterMax st → lib.sub when_ (v.clock 2) ≤ retryAfterMax st
  | _, _ => True

/-- Of every response, whatever the settings for status codes and however the request
then fails: no sleep and no penalty is longer than `RETRY_AFTER_MAX` exactly if what the
header states is bounded. -/
theorem waits_capped_iff (hinterval : st.SPIDER_RETRY_INTERVAL = 0) (hbackoff : st.RETRY_BACKOFF = 0)
    (resp : Response) : Capped st (handle lib st v resp).2 ↔ Bounded lib st v resp := by
  have hm := retryAfterMax_nonneg st
  unfold Bounded
  cases hc : classify st resp with
  | fail =>
    refine iff_of_true ?_ trivial
    simp [handle, checkStatus, hc, capped_empty]
  | ok =>
    rw [capped_of_ok lib v hinterval hbackoff hc]
    cases hx : stated lib st resp with
    | none => exact iff_of_true (fun _ => sleepOk_none lib resp hx _) trivial
    | some x =>
      rw [sleepOk_stated lib resp hx]
      cases x <;> rfl
  | retry =>
    rw [capped_of_retry lib v hinterval hbackoff hc]
    cases hx : stated lib st resp with
    | none => rfl
    | some x =>
      dsimp only
      rw [sleepOk_stated lib resp hx]
      cases x with
      | inl x =>
        simp only [secondsAt, ne_eq, pyMax_eq_nan, lt_pyMax hm]
        exact and_iff_left_of_imp fun hx hlt _ => .inr (le_of_not_lt hx hlt)
      | inr when_ =>
        have hlt : lt (.fin (retryAfterMax st)) (secondsAt lib (v.clock 1) (.inr when_)) = false ↔
            lib.sub when_ (v.clock 1) ≤ retryAfterMax st := by
          show lt _ (PyFloat.pyMax _ _) = false ↔ _
          rw [lt_pyMax hm]
          simp [lt]
        have hne : secondsAt lib (v.clock 0) (.inr when_) ≠ .nan := by
          show PyFloat.pyMax _ _ ≠ .nan
          rw [ne_eq, pyMax_eq_nan]
          simp
        rw [hlt]
        exact ⟨fun h hr hle => h.2 hle hr, fun h => ⟨hne, fun hle hr => h hr hle⟩⟩

/-- Reads some whole numbers. -/
def wholeSeconds : HeaderLib where
  strip := id
  float text := if text = "3600" then some (.fin 3600) else if text = "30" then some (.fin 30) else none
  parsedate _ := .error "ValueError"

def limited (header : String) : Response where
  statusCode := 429
  url := "u"
  headers := [("retry-after", header)]

theorem waits_capped_iff_limited :
    Capped {} (handle wholeSeconds {} { clock := fun _ => 0 } (limited "30")).2 :=
  (waits_capped_iff wholeSeconds { clock := fun _ => 0 }
    (show ({} : Setting).SPIDER_RETRY_INTERVAL = 0 from rfl) rfl (limited "30")).mpr
    (show (PyFloat.fin 30) ≠ .nan by decide)

/-- Without a status check, the callback that cannot use the page makes the worker sleep
for an hour. -/
theorem uncheckedStatus_not_capped :
    ¬ ∀ (lib : HeaderLib) (st : Setting) (v : Visit) (resp : Response), 0 < st.RETRY_AFTER_MAX →
      st.SPIDER_RETRY_INTERVAL = 0 → st.RETRY_BACKOFF = 0 → Capped st (handle lib st v resp).2 := by
  intro h
  let st : Setting := { CHECK_STATUS_CODE := false }
  let v : Visit := { clock := fun _ => 0, callback := .error "IndexError" }
  have hwaits : (handle wholeSeconds st v (limited "3600")).2.waits = [.sleep (.fin 3600)] := by
    decide +kernel
  have hle := h wholeSeconds st v (limited "3600") (by decide) rfl rfl (.sleep (.fin 3600))
    (by rw [hwaits]; exact List.mem_singleton_self _)
  exact absurd hle (by decide +kernel)

end RetryAfter

end Netspy
