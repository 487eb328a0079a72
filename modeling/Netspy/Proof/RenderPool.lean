import Mathlib.Data.List.Basic
import Netspy.Impl.RenderPool

/-!
# Jobs of a `_RenderPool`

A job that has been put is in one place, in the queue or with one worker, until its
event is set; then it has a response or an error. `close` gets on only with workers that
have been stopped or have left (`Inv`).
-/

namespace Netspy

namespace RenderPool

/-- Just one of `response` and `error` is set. -/
def Answered (job : RenderJob) : Prop := job.response.isSome = !job.error.isSome

/-- The event of the job is set, with a response or an error. -/
def Settled (s : RenderPool) (i : Nat) : Prop :=
  ∃ call, s.calls[i]? = some call ∧ call.job.event = true ∧ Answered call.job

instance (s : RenderPool) (i : Nat) : Decidable (s.Settled i) :=
  match h : s.calls[i]? with
  | none => isFalse (by simp [Settled, h])
  | some call =>
    decidable_of_iff (call.job.event = true ∧ call.job.response.isSome = !call.job.error.isSome)
      (by simp [Settled, h, Answered])

/-! ## Where a job is -/

def queued (s : RenderPool) (i : Nat) : Nat := s.jobs.count (some i)

/-- How many workers are at a stage. -/
def workersAt (s : RenderPool) (stage : WorkerStage) : Nat := (s.workers.map (·.stage)).count stage

end RenderPool

def SubmitStage.Put : SubmitStage → Prop
  | .starting | .started => False
  | .waiting | .returned => True

namespace RenderPool

/-- What is known of a call whose job is `q` times in the queue, being rendered by `r`
workers and rendered by `d` workers. -/
inductive Kept (q r d : Nat) : Option Submit → Prop
  | uncalled : q = 0 → r = 0 → d = 0 → Kept q r d none
  | unput {call : Submit} : ¬ call.stage.Put → call.job = {} → q = 0 → r = 0 → d = 0 → Kept q r d (some call)
  | pending {call : Submit} : call.stage.Put → call.job = {} → q + r = 1 → d = 0 → Kept q r d (some call)
  | rendered {call : Submit} : call.stage.Put → call.job.event = false → Answered call.job → q = 0 → r = 0 →
    d = 1 → Kept q r d (some call)
  | settled {call : Submit} : call.stage.Put → call.job.event = true → Answered call.job → q = 0 → r = 0 →
    d = 0 → Kept q r d (some call)

def KeptAt (s : RenderPool) (i : Nat) : Prop :=
  Kept (s.queued i) (s.workersAt (.rendering i)) (s.workersAt (.rendered i)) s.calls[i]?

/-- A job in the queue or with a worker that renders it has no result yet. -/
theorem Kept.of_pos {q r d : Nat} {o : Option Submit} (h : Kept q r d o) (hp : 0 < q + r) :
    ∃ call, o = some call ∧ call.stage.Put ∧ call.job = {} ∧ q + r = 1 ∧ d = 0 := by
  cases h with
  | pending h1 h2 h3 h4 => exact ⟨_, rfl, h1, h2, h3, h4⟩
  | _ => omega

theorem Kept.of_rendered {q r d : Nat} {o : Option Submit} (h : Kept q r d o) (hp : 0 < d) :
    ∃ call, o = some call ∧ call.stage.Put ∧ Answered call.job ∧ q = 0 ∧ r = 0 ∧ d = 1 := by
  cases h with
  | rendered h1 h2 h3 h4 h5 h6 => exact ⟨_, rfl, h1, h3, h4, h5, h6⟩
  | _ => omega

/-- What nobody has is settled. -/
theorem Kept.settled_of_zero {q r d : Nat} {call : Submit} (h : Kept q r d (some call)) (hput : call.stage.Put)
    (hq : q = 0) (hr : r = 0) (hd : d = 0) : call.job.event = true ∧ Answered call.job := by
  cases h with
  | settled _ h2 h3 => exact ⟨h2, h3⟩
  | unput h1 => exact absurd hput h1
  | _ => omega

variable {s t : RenderPool} {i w : Nat} {x : PoolWorker}

@[simp] theorem setWorker_jobs (y : PoolWorker) : (s.setWorker w y).jobs = s.jobs := rfl
@[simp] theorem setWorker_calls (y : PoolWorker) : (s.setWorker w y).calls = s.calls := rfl
@[simp] theorem setWorker_close (y : PoolWorker) : (s.setWorker w y).close = s.close := rfl
@[simp] theorem setStage_jobs (st : SubmitStage) : (s.setStage i st).jobs = s.jobs := rfl
@[simp] theorem setStage_workers (st : SubmitStage) : (s.setStage i st).workers = s.workers := rfl
@[simp] theorem setStage_close (st : SubmitStage) : (s.setStage i st).close = s.close := rfl
@[simp] theorem modifyJob_jobs (f : RenderJob → RenderJob) : (s.modifyJob i f).jobs = s.jobs := rfl
@[simp] theorem modifyJob_workers (f : RenderJob → RenderJob) : (s.modifyJob i f).workers = s.workers := rfl
@[simp] theorem modifyJob_close (f : RenderJob → RenderJob) : (s.modifyJob i f).close = s.close := rfl

/-- A place of a list that is written over. -/
theorem count_set_add {α : Type} [DecidableEq α] {l : List α} {k : Nat} {a : α} (h : l[k]? = some a) (b c : α) :
    (l.set k b).count c + (if a = c then 1 else 0) = l.count c + if b = c then 1 else 0 := by
  obtain ⟨hlt, ha⟩ := List.getElem?_eq_some_iff.mp h
  have hpos : a = c → 0 < l.count c := by
    rintro rfl
    exact List.count_pos_iff.mpr (List.mem_of_getElem? h)
  rw [List.count_set hlt, ha]
  simp only [beq_iff_eq]
  split
  · have := hpos ‹_›
    omega
  · omega

theorem count_setWorker (hw : s.workers[w]? = some x) (y : PoolWorker) (stage : WorkerStage) :
    (s.setWorker w y).workersAt stage + (if x.stage = stage then 1 else 0)
      = s.workersAt stage + if y.stage = stage then 1 else 0 := by
  unfold workersAt setWorker
  rw [List.map_set]
  exact count_set_add (by simp [hw]) _ _

/-- A worker that moves to a stage without a job from another such stage. -/
theorem workersAt_setWorker_idle (hw : s.workers[w]? = some x) {y : PoolWorker} {stage : WorkerStage}
    (hx : x.stage ≠ stage) (hy : y.stage ≠ stage) : (s.setWorker w y).workersAt stage = s.workersAt stage := by
  have h := count_setWorker hw y stage
  simpa [hx, hy] using h

theorem workersAt_pos (hw : s.workers[w]? = some x) : 0 < s.workersAt x.stage :=
  List.count_pos_iff.mpr (List.mem_map.mpr ⟨x, List.mem_of_getElem? hw, rfl⟩)

/-! ## What a step does -/

/-- A step of the worker `w`, which is `x`. -/
inductive Worked (s : RenderPool) (w : Nat) (x : PoolWorker) : RenderPool → Prop
  | looked : x.stage = .checking →
    Worked s w x (s.setWorker w { x with stage := if x.stop then .leaving else .getting })
  | timedOut : x.stage = .getting → s.jobs = [] → Worked s w x (s.setWorker w { x with stage := .checking })
  | dismissed {jobs : List (Option Nat)} : x.stage = .getting → s.jobs = none :: jobs →
    Worked s w x { s.setWorker w { x with stage := .leaving } with jobs }
  | took {i : Nat} {jobs : List (Option Nat)} : x.stage = .getting → s.jobs = some i :: jobs →
    Worked s w x { s.setWorker w { x with stage := .rendering i } with jobs }
  | answered {i : Nat} {f : RenderJob → RenderJob} : x.stage = .rendering i → (f {}).event = false →
    Answered (f {}) → Worked s w x ((s.setWorker w { x with stage := .rendered i }).modifyJob i f)
  | notified {i : Nat} : x.stage = .rendered i →
    Worked s w x ((s.setWorker w { x with stage := .checking }).modifyJob i fun job => { job with event := true })
  | left : x.stage = .leaving → Worked s w x (s.setWorker w { x with stage := .exited })

theorem worked_of_run {result : Except String Response} (ht : s.run w x result = some t) : Worked s w x t := by
  unfold run at ht
  split at ht <;> rename_i hs
  · cases ht
    exact .looked hs
  · split at ht <;> rename_i hjobs <;> cases ht
    · exact .timedOut hs hjobs
    · exact .dismissed hs hjobs
    · exact .took hs hjobs
  · cases result <;> cases ht <;> exact .answered hs rfl rfl
  · cases ht
    exact .notified hs
  · cases ht
    exact .left hs
  · cases ht

/-- A step of `close`. -/
inductive Closing (s : RenderPool) : RenderPool → Prop
  | again : s.close = .open → s.closed = true → Closing s { s with close := .returned }
  | began : s.close = .open → s.closed = false →
    Closing s { s with closed := true, close := if s.started then .stopping 0 else .returned }
  | stopped {k : Nat} {x : PoolWorker} : s.close = .stopping k → s.workers[k]? = some x →
    Closing s { s.setWorker k { x with stop := true } with close := .stopping (k + 1) }
  | stoppedAll {k : Nat} : s.close = .stopping k → s.workers.length ≤ k → Closing s { s with close := .sending 0 }
  | sent {k : Nat} : s.close = .sending k → k < s.workers.length →
    Closing s { s with jobs := s.jobs ++ [none], close := .sending (k + 1) }
  | sentAll {k : Nat} : s.close = .sending k → s.workers.length ≤ k → Closing s { s with close := .joining 0 }
  | joined {k : Nat} {x : PoolWorker} : s.close = .joining k → s.workers[k]? = some x → x.stage = .exited →
    Closing s { s with close := .joining (k + 1) }
  | joinedAll {k : Nat} : s.close = .joining k → s.workers.length ≤ k →
    Closing s { s with workers := [], started := false, close := .draining }
  | drained : s.close = .draining → s.jobs = [] → Closing s { s with close := .returned }
  | dropped {jobs : List (Option Nat)} : s.close = .draining → s.jobs = none :: jobs → Closing s { s with jobs }
  | failed {i : Nat} {jobs : List (Option Nat)} {exc : String} : s.close = .draining → s.jobs = some i :: jobs →
    Closing s ({ s with jobs }.modifyJob i fun job => job.fail exc)

theorem closing_of_closeStep (ht : s.closeStep = some t) : Closing s t := by
  unfold closeStep at ht
  split at ht <;> rename_i hc
  · split at ht <;> rename_i hcl <;> cases ht
    · exact .again hc hcl
    · exact .began hc (Bool.eq_false_of_not_eq_true hcl)
  · split at ht <;> rename_i hk <;> cases ht
    · exact .stopped hc hk
    · exact .stoppedAll hc (List.getElem?_eq_none_iff.mp hk)
  · split at ht <;> rename_i hk <;> cases ht
    · exact .sent hc hk
    · exact .sentAll hc (Nat.le_of_not_lt hk)
  · split at ht <;> rename_i hk
    · split at ht <;> rename_i hx <;> cases ht
      exact .joined hc hk hx
    · cases ht
      exact .joinedAll hc (List.getElem?_eq_none_iff.mp hk)
  · split at ht <;> rename_i hjobs <;> cases ht
    · exact .drained hc hjobs
    · exact .dropped hc hjobs
    · exact .failed hc hjobs
  · cases ht

/-- A step of any thread. -/
inductive Moved (size : Nat) (s : RenderPool) : RenderAct → RenderPool → Prop
  | submit : Moved size s .submit { s with calls := s.calls ++ [{}] }
  | ensureStarted {i : Nat} : s.stage i = some .starting → s.locked = false →
    Moved size s (.ensureStarted i) ((s._ensure_started size).setStage i .started)
  | put {i : Nat} : s.stage i = some .started →
    Moved size s (.put i) { s.setStage i .waiting with jobs := s.jobs ++ [some i] }
  | wake {i : Nat} : s.stage i = some .waiting → s.calls[i]?.map (·.job.event) = some true →
    Moved size s (.wake i) (s.setStage i .returned)
  | work {w : Nat} {x : PoolWorker} {result : Except String Response} {t : RenderPool} : s.workers[w]? = some x →
    Worked s w x t → Moved size s (.work w result) t
  | close {t : RenderPool} : Closing s t → Moved size s .close t

theorem moved_of_step {size : Nat} {a : RenderAct} (ht : step size s a = some t) : Moved size s a t := by
  cases a with
  | submit =>
    cases ht
    exact .submit
  | ensureStarted i =>
    simp only [step] at ht
    split at ht <;> rename_i hi <;> cases ht
    exact .ensureStarted hi.1 hi.2
  | put i =>
    simp only [step] at ht
    split at ht <;> rename_i hi <;> cases ht
    exact .put hi
  | wake i =>
    simp only [step] at ht
    split at ht <;> rename_i hi <;> cases ht
    exact .wake hi.1 hi.2
  | work w result =>
    simp only [step] at ht
    split at ht <;> rename_i hw
    · exact .work hw (worked_of_run ht)
    · cases ht
  | close => exact .close (closing_of_closeStep ht)

/-! ## What every step keeps -/

/-- How far `close` is with the workers. -/
def Stopped (s : RenderPool) : Prop :=
  match s.close with
  | .open => True
  | .stopping k => ∀ w x, w < k → s.workers[w]? = some x → x.stop = true
  | .sending _ => ∀ x ∈ s.workers, x.stop = true
  | .joining k => (∀ x ∈ s.workers, x.stop = true) ∧ ∀ w x, w < k → s.workers[w]? = some x → x.stage = .exited
  | .draining | .returned => s.workers = []

structure Inv (s : RenderPool) : Prop where
  kept (i : Nat) : s.KeptAt i
  closed : s.closed = true ↔ s.close ≠ .open
  idle : s.started = false → s.workers = []
  /-- A job is put when there is a pool, or after one. -/
  ready (i : Nat) (call : Submit) : s.calls[i]? = some call → call.stage ≠ .starting →
    s.started = true ∨ s.closed = true
  stopped : s.Stopped

theorem calls_setStage (st : SubmitStage) (j : Nat) :
    (s.setStage i st).calls[j]? = if i = j then s.calls[j]?.map fun c => { c with stage := st } else s.calls[j]? := by
  simp only [setStage, List.getElem?_modify]
  split <;> simp

theorem calls_modifyJob (f : RenderJob → RenderJob) (j : Nat) :
    (s.modifyJob i f).calls[j]? =
      if i = j then s.calls[j]?.map fun c => { c with job := f c.job } else s.calls[j]? := by
  simp only [modifyJob, List.getElem?_modify]
  split <;> simp

theorem Inv.submit (h : Inv s) : Inv { s with calls := s.calls ++ [{}] } := by
  refine ⟨fun i => ?_, h.closed, h.idle, fun i call hc hst => ?_, h.stopped⟩
  · have hk := h.kept i
    show Kept _ _ _ (s.calls ++ [({} : Submit)])[i]?
    unfold KeptAt at hk
    by_cases hi : i < s.calls.length
    · rwa [List.getElem?_append_left hi]
    · rw [List.getElem?_eq_none (by omega)] at hk
      obtain ⟨h1, h2, h3⟩ := hk
      by_cases he : i = s.calls.length
      · subst he
        rw [List.getElem?_concat_length]
        exact .unput (by simp [SubmitStage.Put]) rfl h1 h2 h3
      · rw [List.getElem?_eq_none (by simp; omega)]
        exact .uncalled h1 h2 h3
  · by_cases hi : i < s.calls.length
    · exact h.ready i call (by rwa [List.getElem?_append_left hi] at hc) hst
    · rw [List.getElem?_append_right (by omega), List.getElem?_singleton] at hc
      split at hc <;> cases hc
      exact absurd rfl hst

/-- A call that goes on without its job. -/
theorem Inv.setStage (h : Inv s) {st st' : SubmitStage} (hi : s.stage i = some st) (hput : st'.Put ↔ st.Put)
    (hready : s.started = true ∨ s.closed = true) : Inv (s.setStage i st') := by
  refine ⟨fun j => ?_, h.closed, h.idle, fun j call hc hst => ?_, h.stopped⟩
  · have hk := h.kept j
    show Kept _ _ _ (s.setStage i st').calls[j]?
    rw [calls_setStage]
    split
    · rename_i hij
      subst hij
      obtain ⟨call, hcall, hst⟩ := Option.map_eq_some_iff.mp hi
      subst hst
      unfold KeptAt at hk
      rw [hcall] at hk ⊢
      cases hk with
      | unput h1 h2 h3 h4 h5 => exact .unput (mt hput.mp h1) h2 h3 h4 h5
      | pending h1 h2 h3 h4 => exact .pending (hput.mpr h1) h2 h3 h4
      | rendered h1 h2 h3 h4 h5 h6 => exact .rendered (hput.mpr h1) h2 h3 h4 h5 h6
      | settled h1 h2 h3 h4 h5 h6 => exact .settled (hput.mpr h1) h2 h3 h4 h5 h6
    · exact hk
  · exact hready

theorem Inv._ensure_started (size : Nat) (h : Inv s) : Inv (s._ensure_started size) := by
  unfold RenderPool._ensure_started
  split
  · exact h
  · rename_i hns
    simp only [Bool.or_eq_true, not_or, Bool.not_eq_true] at hns
    have hopen : s.close = .open := by
      by_contra hne
      rw [h.closed.mpr hne] at hns
      simp at hns
    refine ⟨fun i => ?_, h.closed, by simp, fun i call hc hst => .inl rfl, ?_⟩
    · have hk := h.kept i
      have hw : ∀ stage : WorkerStage, stage ≠ .checking →
          workersAt { s with workers := List.replicate (max 1 size) {}, started := true } stage
            = s.workersAt stage := by
        intro stage hne
        simp [workersAt, h.idle hns.2, List.count_replicate, hne.symm]
      unfold KeptAt
      rwa [hw (.rendering i) nofun, hw (.rendered i) nofun]
    · simp only [Stopped, hopen]

theorem started_or_closed (size : Nat) (s : RenderPool) :
    (s._ensure_started size).started = true ∨ (s._ensure_started size).closed = true := by
  unfold RenderPool._ensure_started
  split
  · rename_i h
    simpa [or_comm] using h
  · exact .inl rfl

theorem _ensure_started_calls (size : Nat) (s : RenderPool) : (s._ensure_started size).calls = s.calls := by
  unfold RenderPool._ensure_started
  split <;> rfl

theorem Inv.put (h : Inv s) (hi : s.stage i = some .started) :
    Inv { s.setStage i .waiting with jobs := s.jobs ++ [some i] } := by
  obtain ⟨call, hcall, hst⟩ := Option.map_eq_some_iff.mp hi
  refine ⟨fun j => ?_, h.closed, h.idle, fun j c hc hne => ?_, h.stopped⟩
  · have hk := h.kept j
    show Kept ((s.jobs ++ [some i]).count (some j)) _ _ (s.setStage i .waiting).calls[j]?
    rw [calls_setStage, List.count_append]
    unfold KeptAt queued at hk
    split
    · rename_i hij
      subst hij
      rw [hcall] at hk ⊢
      cases hk with
      | unput h1 h2 h3 h4 h5 =>
        refine .pending trivial h2 ?_ h5
        simp only [h3, List.count_singleton_self]
        show 0 + 1 + s.workersAt _ = 1
        omega
      | _ => simp_all [SubmitStage.Put]
    · rename_i hij
      have : List.count (some j) [some i] = 0 := by simp [hij]
      rw [this]
      exact hk
  · exact h.ready i call hcall (by simp [hst])

theorem Stopped.set (h : s.Stopped) (hw : s.workers[w]? = some x) (hx : x.stage ≠ .exited) {st : WorkerStage}
    (hworkers : t.workers = s.workers.set w { x with stage := st }) (hclose : t.close = s.close) : t.Stopped := by
  have hget : ∀ (v : Nat) (z : PoolWorker), (s.workers.set w { x with stage := st })[v]? = some z →
      ∃ z' : PoolWorker, s.workers[v]? = some z' ∧ z.stop = z'.stop ∧ (z'.stage = .exited → z.stage = .exited) := by
    intro v z hv
    rw [List.getElem?_set] at hv
    split at hv
    · rename_i hwv
      split at hv <;> cases hv
      exact ⟨x, hwv ▸ hw, rfl, fun he => absurd he hx⟩
    · exact ⟨z, hv, rfl, id⟩
  have hstop : (∀ z ∈ s.workers, z.stop = true) → ∀ z ∈ s.workers.set w { x with stage := st }, z.stop = true := by
    intro hall z hz
    obtain ⟨v, hv⟩ := List.getElem?_of_mem hz
    obtain ⟨z', hz', he, _⟩ := hget v z hv
    exact he.trans (hall z' (List.mem_of_getElem? hz'))
  unfold Stopped at h ⊢
  rw [hclose, hworkers]
  split at h
  · trivial
  · intro v z hlt hv
    obtain ⟨z', hz', he, _⟩ := hget v z hv
    exact he.trans (h v z' hlt hz')
  · exact hstop h
  · refine ⟨hstop h.1, fun v z hlt hv => ?_⟩
    obtain ⟨z', hz', _, he⟩ := hget v z hv
    exact he (h.2 v z' hlt hz')
  all_goals
    rw [h] at hw
    simp at hw

/-- A step of a worker that keeps what is known of the jobs. -/
theorem Inv.set (h : Inv s) (hw : s.workers[w]? = some x) (hx : x.stage ≠ .exited) (st : WorkerStage)
    (hworkers : t.workers = s.workers.set w { x with stage := st }) (hclose : t.close = s.close)
    (hclosed : t.closed = s.closed) (hstarted : t.started = s.started)
    (hstage : ∀ j, t.stage j = s.stage j) (hk : ∀ j, t.KeptAt j) : Inv t := by
  refine ⟨hk, ?_, fun hns => ?_, fun j call hc hst => ?_, h.stopped.set hw hx hworkers hclose⟩
  · rw [hclosed, hclose]
    exact h.closed
  · rw [h.idle (hstarted ▸ hns)] at hw
    simp at hw
  · have hj := hstage j
    simp only [stage, hc, Option.map_some] at hj
    obtain ⟨call', hc', hst'⟩ := Option.map_eq_some_iff.mp hj.symm
    rw [hstarted, hclosed]
    exact h.ready j call' hc' (by rwa [hst'])

theorem stage_modifyJob (f : RenderJob → RenderJob) (j : Nat) : (s.modifyJob i f).stage j = s.stage j := by
  simp only [stage, calls_modifyJob]
  split
  · rw [Option.map_map]
    rfl
  · rfl

/-- A worker that moves from a stage without a job to another. -/
theorem KeptAt.set (h : s.KeptAt i) (hw : s.workers[w]? = some x) (y : PoolWorker)
    (hx : x.stage ≠ .rendering i ∧ x.stage ≠ .rendered i) (hy : y.stage ≠ .rendering i ∧ y.stage ≠ .rendered i) :
    (s.setWorker w y).KeptAt i := by
  unfold KeptAt
  rw [workersAt_setWorker_idle hw hx.1 hy.1, workersAt_setWorker_idle hw hx.2 hy.2]
  exact h

/-- What the worker that renders the job `i` does to it. -/
theorem Inv.modifyJob (h : Inv s) (hw : s.workers[w]? = some x) (hx : x.stage ≠ .exited) (st : WorkerStage)
    {f : RenderJob → RenderJob} (hne : ∀ j, j ≠ i → x.stage ≠ .rendering j ∧ x.stage ≠ .rendered j)
    (hst : ∀ j, j ≠ i → st ≠ .rendering j ∧ st ≠ .rendered j)
    (hk : KeptAt ((s.setWorker w { x with stage := st }).modifyJob i f) i) :
    Inv ((s.setWorker w { x with stage := st }).modifyJob i f) := by
  refine h.set hw hx st rfl rfl rfl rfl (fun j => stage_modifyJob f j) fun j => ?_
  by_cases hji : j = i
  · rwa [hji]
  · unfold KeptAt
    rw [calls_modifyJob, if_neg (Ne.symm hji)]
    exact (h.kept j).set hw _ (hne j hji) (hst j hji)

theorem Inv.work (h : Inv s) (hw : s.workers[w]? = some x) (ht : Worked s w x t) : Inv t := by
  cases ht with
  | looked hs =>
    refine h.set hw (by simp [hs]) (if x.stop then .leaving else .getting) rfl rfl rfl rfl (fun _ => rfl)
      fun j => ?_
    apply (h.kept j).set hw _ (by simp [hs])
    cases x.stop <;> simp
  | timedOut hs hjobs =>
    refine h.set hw (by simp [hs]) .checking rfl rfl rfl rfl (fun _ => rfl) fun j => ?_
    exact (h.kept j).set hw _ (by simp [hs]) (by simp)
  | dismissed hs hjobs =>
    refine h.set hw (by simp [hs]) .leaving rfl rfl rfl rfl (fun _ => rfl) fun j => ?_
    have hk := (h.kept j).set hw { x with stage := .leaving } (by simp [hs]) (by simp)
    unfold KeptAt queued at hk
    rw [setWorker_jobs, hjobs, List.count_cons_of_ne (by simp)] at hk
    exact hk
  | @took i jobs hs hjobs =>
    refine h.set hw (by simp [hs]) (.rendering i) rfl rfl rfl rfl (fun _ => rfl) fun j => ?_
    have hk := h.kept j
    have hr := count_setWorker hw { x with stage := .rendering i } (.rendering j)
    have hd := count_setWorker hw { x with stage := .rendering i } (.rendered j)
    unfold KeptAt queued at hk
    show Kept (jobs.count (some j)) ((s.setWorker w { x with stage := .rendering i }).workersAt (.rendering j))
      ((s.setWorker w { x with stage := .rendering i }).workersAt (.rendered j)) s.calls[j]?
    rw [hjobs, List.count_cons] at hk
    by_cases hij : i = j
    · subst hij
      simp only [hs, beq_self_eq_true, if_true, reduceCtorEq, if_false] at hk hr hd
      obtain ⟨call, hc, hput, hnew, hone, hzero⟩ := hk.of_pos (by omega)
      rw [hc]
      exact .pending hput hnew (by omega) (by omega)
    · simp only [hs, WorkerStage.rendering.injEq, Option.some.injEq, beq_iff_eq, hij, reduceCtorEq, if_false,
        Nat.add_zero] at hk hr hd
      rwa [hr, hd]
  | @answered i f hs he ha =>
    have hk := h.kept i
    unfold KeptAt at hk
    have hr := count_setWorker hw { x with stage := .rendered i } (.rendering i)
    have hd := count_setWorker hw { x with stage := .rendered i } (.rendered i)
    simp only [hs, if_true, reduceCtorEq, if_false, Nat.add_zero] at hr hd
    have hpos : 0 < s.workersAt (.rendering i) := hs ▸ workersAt_pos hw
    obtain ⟨call, hc, hput, hnew, hone, hzero⟩ := hk.of_pos (by omega)
    refine h.modifyJob hw (by simp [hs]) (.rendered i) (fun j hj => by simp [hs, Ne.symm hj])
      (fun j hj => by simp [Ne.symm hj]) ?_
    unfold KeptAt
    rw [calls_modifyJob, if_pos rfl, setWorker_calls, hc]
    refine .rendered hput ?_ ?_ ?_ ?_ ?_
    · simpa only [hnew] using he
    · simpa only [hnew] using ha
    · show s.queued i = 0
      omega
    · show (s.setWorker w { x with stage := .rendered i }).workersAt (.rendering i) = 0
      omega
    · show (s.setWorker w { x with stage := .rendered i }).workersAt (.rendered i) = 1
      omega
  | @notified i hs =>
    have hk := h.kept i
    unfold KeptAt at hk
    have hr := count_setWorker hw { x with stage := .checking } (.rendering i)
    have hd := count_setWorker hw { x with stage := .checking } (.rendered i)
    simp only [hs, if_true, reduceCtorEq, if_false, Nat.add_zero] at hr hd
    obtain ⟨call, hc, hput, ha, hq, hr0, hone⟩ := hk.of_rendered (hs ▸ workersAt_pos hw)
    refine h.modifyJob hw (by simp [hs]) .checking (fun j hj => by simp [hs, Ne.symm hj]) (fun j _ => by simp) ?_
    unfold KeptAt
    rw [calls_modifyJob, if_pos rfl, setWorker_calls, hc]
    refine .settled hput rfl ha hq ?_ ?_
    · show (s.setWorker w { x with stage := .checking }).workersAt (.rendering i) = 0
      omega
    · show (s.setWorker w { x with stage := .checking }).workersAt (.rendered i) = 0
      omega
  | left hs =>
    refine h.set hw (by simp [hs]) .exited rfl rfl rfl rfl (fun _ => rfl) fun j => ?_
    exact (h.kept j).set hw _ (by simp [hs]) (by simp)

/-- What `close` does without a job: the workers keep their stages. -/
theorem Inv.close (h : Inv s) (hstages : t.workers.map (·.stage) = s.workers.map (·.stage))
    (hqueued : ∀ i, t.queued i = s.queued i) (hcalls : t.calls = s.calls) (hclosed : t.closed = true)
    (hclose : t.close ≠ .open) (hstarted : t.started = s.started) (hstopped : t.Stopped) : Inv t where
  kept i := by
    unfold KeptAt workersAt
    rw [hstages, hqueued, hcalls]
    exact h.kept i
  closed := by simp [hclosed, hclose]
  idle hns := by
    have hnil := h.idle (hstarted ▸ hns)
    rw [hnil] at hstages
    exact List.map_eq_nil_iff.mp hstages
  ready _ _ _ _ := .inr hclosed
  stopped := hstopped

theorem Inv.fail (h : Inv s) (hclose : s.close = .draining) {jobs : List (Option Nat)}
    (hjobs : s.jobs = some i :: jobs) (exc : String) :
    Inv ({ s with jobs }.modifyJob i fun job => job.fail exc) := by
  refine ⟨fun j => ?_, h.closed, h.idle, fun j call _ _ => .inr (h.closed.mpr (by simp [hclose])), h.stopped⟩
  have hk := h.kept j
  unfold KeptAt queued at hk
  rw [hjobs, List.count_cons] at hk
  show Kept (jobs.count (some j)) (s.workersAt (.rendering j)) (s.workersAt (.rendered j))
    ({ s with jobs }.modifyJob i fun job => job.fail exc).calls[j]?
  rw [calls_modifyJob]
  by_cases hij : i = j
  · subst hij
    simp only [beq_self_eq_true, if_true] at hk ⊢
    obtain ⟨call, hc, hput, hnew, hone, hzero⟩ := hk.of_pos (by omega)
    rw [hc]
    refine .settled hput (by simp [hnew, RenderJob.fail]) (by simp [hnew, RenderJob.fail, Answered]) ?_ ?_ hzero
    · omega
    · show s.workersAt (.rendering i) = 0
      omega
  · simp only [hij, if_false, Option.some.injEq, beq_iff_eq, Nat.add_zero] at hk ⊢
    exact hk

theorem Inv.closing (h : Inv s) (ht : Closing s t) : Inv t := by
  have hst := h.stopped
  unfold Stopped at hst
  have hclosed : s.close ≠ .open → s.closed = true := h.closed.mpr
  cases ht with
  | again hc hcl => exact absurd hc (h.closed.mp hcl)
  | began hc hcl =>
    refine h.close rfl (fun _ => rfl) rfl rfl ?_ rfl ?_
    · split <;> simp
    · cases hs : s.started with
      | true => exact fun _ _ hlt => absurd hlt (Nat.not_lt_zero _)
      | false => exact h.idle hs
  | @stopped k x hc hk =>
    simp only [hc] at hst
    refine h.close ?_ (fun _ => rfl) rfl (hclosed (by simp [hc])) (by simp) rfl fun w y hlt hw => ?_
    · apply List.ext_getElem?
      intro v
      simp only [setWorker, List.getElem?_map, List.getElem?_set]
      split
      · rename_i hkv
        subst hkv
        obtain ⟨hlt, rfl⟩ := List.getElem?_eq_some_iff.mp hk
        simp [hlt]
      · rfl
    · rw [setWorker, List.getElem?_set] at hw
      split at hw
      · split at hw <;> cases hw
        rfl
      · exact hst w y (by omega) hw
  | stoppedAll hc hlen =>
    simp only [hc] at hst
    refine h.close rfl (fun _ => rfl) rfl (hclosed (by simp [hc])) (by simp) rfl fun x hx => ?_
    obtain ⟨w, hw⟩ := List.getElem?_of_mem hx
    have hlt : w < s.workers.length := (List.getElem?_eq_some_iff.mp hw).1
    exact hst w x (by omega) hw
  | sent hc hk =>
    simp only [hc] at hst
    refine h.close rfl (fun i => ?_) rfl (hclosed (by simp [hc])) (by simp) rfl hst
    simp [queued, List.count_append]
  | sentAll hc hlen =>
    simp only [hc] at hst
    exact h.close rfl (fun _ => rfl) rfl (hclosed (by simp [hc])) (by simp) rfl
      ⟨hst, fun _ _ hlt => absurd hlt (Nat.not_lt_zero _)⟩
  | @joined k x hc hk hx =>
    simp only [hc] at hst
    refine h.close rfl (fun _ => rfl) rfl (hclosed (by simp [hc])) (by simp) rfl ⟨hst.1, fun w y hlt hw => ?_⟩
    by_cases hwk : w = k
    · subst hwk
      cases hk.symm.trans hw
      exact hx
    · exact hst.2 w y (by omega) hw
  | joinedAll hc hlen =>
    simp only [hc] at hst
    have hall := hclosed (by simp [hc])
    have hexited : ∀ stage : WorkerStage, stage ≠ .exited → s.workersAt stage = 0 := by
      intro stage hne
      refine List.count_eq_zero.mpr fun hmem => ?_
      obtain ⟨x, hx, rfl⟩ := List.mem_map.mp hmem
      obtain ⟨w, hw⟩ := List.getElem?_of_mem hx
      have hlt := (List.getElem?_eq_some_iff.mp hw).1
      exact hne (hst.2 w x (by omega) hw)
    refine ⟨fun i => ?_, by simp [hall], fun _ => rfl, fun _ _ _ _ => .inr hall, rfl⟩
    have hki := h.kept i
    unfold KeptAt at hki
    rw [hexited (.rendering i) (by simp), hexited (.rendered i) (by simp)] at hki
    exact hki
  | drained hc hjobs =>
    simp only [hc] at hst
    exact h.close rfl (fun _ => rfl) rfl (hclosed (by simp [hc])) (by simp) rfl hst
  | dropped hc hjobs =>
    refine h.close rfl (fun i => ?_) rfl (hclosed (by simp [hc])) (by simp [hc]) rfl h.stopped
    simp [queued, hjobs]
  | failed hc hjobs => exact h.fail hc hjobs _

theorem inv_step (size : Nat) {a : RenderAct} (h : Inv s) (ht : step size s a = some t) : Inv t := by
  cases moved_of_step ht with
  | submit => exact h.submit
  | @ensureStarted i hi _ =>
    have hstage : (s._ensure_started size).stage i = some .starting := by
      simpa only [stage, _ensure_started_calls] using hi
    exact (h._ensure_started size).setStage hstage Iff.rfl (started_or_closed size s)
  | put hi => exact h.put hi
  | wake hi _ =>
    refine h.setStage hi Iff.rfl ?_
    obtain ⟨call, hc, hst⟩ := Option.map_eq_some_iff.mp hi
    exact h.ready _ call hc (by simp [hst])
  | work hw ht => exact h.work hw ht
  | close ht => exact h.closing ht

theorem inv_start : Inv {} where
  kept _ := .uncalled rfl rfl rfl
  closed := by simp
  idle _ := rfl
  ready i call hc := by simp at hc
  stopped := trivial

theorem inv_of_reachable {size : Nat} (h : (machine size).Reachable s) : Inv s := by
  refine Machine.Within.induct (I := Inv) ?_ (fun s a t hi _ ht => inv_step size hi ht) h
  rintro s rfl
  exact inv_start

end RenderPool

end Netspy
