import Mathlib.Data.Prod.Lex
import Netspy.Framework.Fair
import Netspy.Proof.RenderPool

/-!
# `_RenderPool` after `close`

In a run in which the workers and the thread that closes go on, `close` returns, and it
returns when there are no workers and the queue is empty. So a job has its event set if
and only if it was put before (`settled_iff`): one that is put later stays in the queue.
-/

namespace Netspy

namespace RenderPool

variable {s t : RenderPool} {i w : Nat} {x : PoolWorker}

/-! ## `close` returns -/

def stageRank : WorkerStage → Nat
  | .getting => 5
  | .rendering _ => 4
  | .rendered _ => 3
  | .checking => 2
  | .leaving => 1
  | .exited => 0

theorem stageRank_le (stage : WorkerStage) : stageRank stage ≤ 5 := by
  cases stage <;> simp [stageRank]

/-- The stage of the worker that `close` waits for. -/
def joined (s : RenderPool) (k : Nat) : WorkerStage := (s.workers[k]?.map (·.stage)).getD .exited

/-- How many calls are at a stage. -/
def callsAt (s : RenderPool) (st : SubmitStage) : Nat := (s.calls.map (·.stage)).count st

/-- How much is left to do for `close`: its phase, and what is left of that. -/
def phase (s : RenderPool) : CloseStage → Nat × Nat
  | .open => (5, 0)
  | .stopping k => (4, s.workers.length - k)
  | .sending k => (3, s.workers.length - k)
  | .joining k => (2, 6 * (s.workers.length - k) + stageRank (s.joined k))
  | .draining => (1, s.jobs.length + s.callsAt .started)
  | .returned => (0, 0)

def rank (s : RenderPool) : Nat ×ₗ Nat := toLex (s.phase s.close)

theorem rank_lt_of_fst (h : (t.phase t.close).1 < (s.phase s.close).1) : t.rank < s.rank :=
  Prod.Lex.toLex_lt_toLex.mpr (.inl h)

theorem rank_lt_of_snd (h : (t.phase t.close).1 = (s.phase s.close).1)
    (hlt : (t.phase t.close).2 < (s.phase s.close).2) : t.rank < s.rank :=
  Prod.Lex.toLex_lt_toLex.mpr (.inr ⟨h, hlt⟩)

/-- Who must act next. -/
def helpful (s : RenderPool) : RenderThread :=
  match s.close with
  | .joining k => if s.joined k = .exited then .closer else .worker k
  | _ => .closer

theorem enabled (size : Nat) (h : s.close ≠ .returned) :
    (machine size).Enabled RenderAct.thread s s.helpful := by
  have hclose : s.closeStep.isSome → (machine size).Enabled RenderAct.thread s .closer := fun h => ⟨.close, rfl, h⟩
  unfold helpful
  split
  · rename_i k hc
    unfold joined
    cases hk : s.workers[k]? with
    | none =>
      apply hclose
      simp only [closeStep, hc, hk, Option.isSome_some]
    | some x =>
      simp only [Option.map_some, Option.getD_some]
      split
      · rename_i hx
        apply hclose
        simp only [closeStep, hc, hk, hx, if_true, Option.isSome_some]
      · rename_i hx
        refine ⟨.work k (.error ""), rfl, ?_⟩
        show (step size s (.work k (.error ""))).isSome = true
        simp only [step, hk, run]
        split
        · rfl
        · split <;> rfl
        · rfl
        · rfl
        · rfl
        · exact absurd ‹_› hx
  · rename_i hj
    apply hclose
    unfold closeStep
    split
    · split <;> rfl
    · split <;> rfl
    · split <;> rfl
    · exact absurd ‹_› (hj _)
    · split <;> rfl
    · exact absurd ‹_› h

theorem callsAt_modifyJob (f : RenderJob → RenderJob) (st : SubmitStage) :
    (s.modifyJob i f).callsAt st = s.callsAt st := by
  have h : (s.modifyJob i f).calls.map (·.stage) = s.calls.map (·.stage) := by
    apply List.ext_getElem?
    intro j
    simpa only [stage, List.getElem?_map] using stage_modifyJob f j
  simp only [callsAt, h]

theorem callsAt_setStage {st : SubmitStage} (hi : s.stage i = some st) (st' st'' : SubmitStage) :
    (s.setStage i st').callsAt st'' + (if st = st'' then 1 else 0)
      = s.callsAt st'' + if st' = st'' then 1 else 0 := by
  have hi' : (s.calls.map (·.stage))[i]? = some st := by simpa only [stage, List.getElem?_map] using hi
  have h : (s.setStage i st').calls.map (·.stage) = (s.calls.map (·.stage)).set i st' := by
    apply List.ext_getElem?
    intro j
    rw [List.getElem?_map, calls_setStage, List.getElem?_set]
    split
    · rename_i hij
      subst hij
      obtain ⟨call, hc, _⟩ := Option.map_eq_some_iff.mp hi
      simp [(List.getElem?_eq_some_iff.mp hc).1]
    · rw [List.getElem?_map]
  unfold callsAt
  rw [h]
  exact count_set_add hi' _ _

theorem rank_close (ht : Closing s t) : t.close = .returned ∨ t.rank < s.rank := by
  cases ht with
  | again hc hcl => exact .inl rfl
  | began hc hcl =>
    cases hs : s.started with
    | false => exact .inl rfl
    | true => exact .inr (rank_lt_of_fst (by rw [hc]; simp [phase]))
  | @stopped k x hc hk =>
    right
    have hlt := (List.getElem?_eq_some_iff.mp hk).1
    apply rank_lt_of_snd <;> rw [hc]
    · rfl
    · show (s.workers.set k _).length - (k + 1) < s.workers.length - k
      rw [List.length_set]
      omega
  | stoppedAll hc hlen => exact .inr (rank_lt_of_fst (by rw [hc]; simp [phase]))
  | @sent k hc hk =>
    right
    apply rank_lt_of_snd <;> rw [hc]
    · rfl
    · show s.workers.length - (k + 1) < s.workers.length - k
      omega
  | sentAll hc hlen => exact .inr (rank_lt_of_fst (by rw [hc]; simp [phase]))
  | @joined k x hc hk hx =>
    right
    have hlt := (List.getElem?_eq_some_iff.mp hk).1
    have hle := stageRank_le (s.joined (k + 1))
    apply rank_lt_of_snd <;> rw [hc]
    · rfl
    · show 6 * (s.workers.length - (k + 1)) + stageRank (s.joined (k + 1))
        < 6 * (s.workers.length - k) + stageRank (s.joined k)
      omega
  | joinedAll hc hlen => exact .inr (rank_lt_of_fst (by rw [hc]; simp [phase]))
  | drained hc hjobs => exact .inl rfl
  | @dropped jobs hc hjobs =>
    right
    apply rank_lt_of_snd <;> simp only [hc, phase, hjobs, List.length_cons]
    show jobs.length + s.callsAt .started < _
    omega
  | @failed i jobs exc hc hjobs =>
    right
    apply rank_lt_of_snd <;> simp only [modifyJob_close, hc, phase, hjobs, List.length_cons]
    rw [callsAt_modifyJob]
    show jobs.length + s.callsAt .started < _
    omega

/-- A worker that has been stopped gets nearer to its exit with every step. -/
theorem stageRank_work (hstop : x.stop = true) (ht : Worked s w x t) :
    ∃ y, t.workers = s.workers.set w y ∧ stageRank y.stage < stageRank x.stage := by
  cases ht with
  | looked hs => exact ⟨_, rfl, by simp [stageRank, hs, hstop]⟩
  | timedOut hs => exact ⟨_, rfl, by simp [stageRank, hs]⟩
  | dismissed hs => exact ⟨_, rfl, by simp [stageRank, hs]⟩
  | took hs => exact ⟨_, rfl, by simp [stageRank, hs]⟩
  | answered hs => exact ⟨_, rfl, by simp [stageRank, hs]⟩
  | notified hs => exact ⟨_, rfl, by simp [stageRank, hs]⟩
  | left hs => exact ⟨_, rfl, by simp [stageRank, hs]⟩

/-- What a step of a worker leaves alone. -/
theorem Worked.frame (ht : Worked s w x t) :
    t.close = s.close ∧ t.workers.length = s.workers.length ∧ ∀ k, k ≠ w → t.workers[k]? = s.workers[k]? := by
  have hset : ∀ y : PoolWorker, (s.workers.set w y).length = s.workers.length ∧
      ∀ k, k ≠ w → (s.workers.set w y)[k]? = s.workers[k]? := fun y =>
    ⟨List.length_set, fun k hk => List.getElem?_set_ne hk.symm⟩
  cases ht <;> exact ⟨rfl, hset _⟩

theorem Worked.stage (ht : Worked s w x t) (i : Nat) : t.stage i = s.stage i := by
  cases ht with
  | answered => exact stage_modifyJob _ i
  | notified => exact stage_modifyJob _ i
  | _ => rfl

theorem Closing.stage (ht : Closing s t) (i : Nat) : t.stage i = s.stage i := by
  cases ht with
  | failed => exact stage_modifyJob _ i
  | _ => rfl

theorem Closing.ne_returned (ht : Closing s t) : s.close ≠ .returned := by
  cases ht <;> simp [*]

theorem _ensure_started_close (size : Nat) (s : RenderPool) : (s._ensure_started size).close = s.close := by
  unfold RenderPool._ensure_started
  split <;> rfl

/-- A caller does not keep `close` from its end. -/
theorem callers_step (size : Nat) {a : RenderAct} (ha : a.thread = .callers) (h : s.close ≠ .returned)
    (ht : step size s a = some t) : t.rank = s.rank ∧ t.helpful = s.helpful := by
  have hsame : t.close = s.close → t.workers = s.workers →
      t.jobs.length + t.callsAt .started = s.jobs.length + s.callsAt .started →
      t.rank = s.rank ∧ t.helpful = s.helpful := by
    intro hclose hworkers hcount
    have hjoined : t.joined = s.joined := by
      funext k
      simp only [joined, hworkers]
    constructor
    · unfold rank
      rw [hclose]
      unfold phase
      split <;> simp only [hworkers, hjoined, hcount]
    · simp only [helpful, hclose, hjoined]
  cases moved_of_step ht with
  | submit => exact hsame rfl rfl (by simp [callsAt, List.count_append])
  | @ensureStarted i hi hlocked =>
    have hopen : s.close = .open := by
      unfold locked at hlocked
      split at hlocked
      · assumption
      · exact absurd ‹_› h
      · cases hlocked
    have hopen' : ((s._ensure_started size).setStage i .started).close = .open := by
      rw [setStage_close, _ensure_started_close, hopen]
    simp only [rank, helpful, hopen, hopen', phase, and_self]
  | @put i hi =>
    have hc := callsAt_setStage hi .waiting .started
    simp only [if_true, reduceCtorEq, if_false] at hc
    refine hsame rfl rfl ?_
    show (s.jobs ++ [some i]).length + (s.setStage i .waiting).callsAt .started = _
    rw [List.length_append, List.length_singleton]
    omega
  | @wake i hi _ =>
    have hc := callsAt_setStage hi .returned .started
    simp only [reduceCtorEq, if_false] at hc
    refine hsame rfl rfl ?_
    show s.jobs.length + (s.setStage i .returned).callsAt .started = _
    omega
  | work => cases ha
  | close => cases ha

theorem work_step (h : Inv s) (hne : s.close ≠ .returned) (hw : s.workers[w]? = some x) (ht : Worked s w x t) :
    t.rank < s.rank ∨ t.rank = s.rank ∧ t.helpful = s.helpful ∧ .worker w ≠ s.helpful := by
  obtain ⟨hclose, hlength, hother⟩ := ht.frame
  have hst := h.stopped
  unfold Stopped at hst
  by_cases hj : ∃ k, s.close = .joining k
  · obtain ⟨k, hc⟩ := hj
    simp only [hc] at hst
    by_cases hkw : k = w
    · left
      subst hkw
      obtain ⟨y, hworkers, hlt⟩ := stageRank_work (hst.1 x (List.mem_of_getElem? hw)) ht
      have hy : t.joined k = y.stage := by
        simp [joined, hworkers, (List.getElem?_eq_some_iff.mp hw).1]
      have hx : s.joined k = x.stage := by simp [joined, hw]
      apply rank_lt_of_snd <;> rw [hclose, hc]
      · rfl
      · simp only [phase, hlength, hy, hx]
        omega
    · right
      have hjoined : t.joined k = s.joined k := by simp only [joined, hother k hkw]
      refine ⟨?_, ?_, ?_⟩
      · simp only [rank, hclose, hc, phase, hlength, hjoined]
      · simp only [helpful, hclose, hc, hjoined]
      · simp only [helpful, hc]
        split <;> simp [Ne.symm hkw]
  · right
    have hcloser : ∀ u : RenderPool, u.close = s.close → u.helpful = .closer := by
      intro u hu
      unfold helpful
      split
      · rename_i k hk
        exact absurd ⟨k, hu ▸ hk⟩ hj
      · rfl
    refine ⟨?_, (hcloser t hclose).trans (hcloser s rfl).symm, by simp [hcloser s rfl]⟩
    unfold rank
    rw [hclose]
    split at hst
    · simp [phase, ‹s.close = _›]
    · simp [phase, ‹s.close = _›, hlength]
    · simp [phase, ‹s.close = _›, hlength]
    · exact absurd ⟨_, ‹_›⟩ hj
    · rw [hst] at hw
      simp at hw
    · exact absurd ‹_› hne

theorem close_step (size : Nat) {a : RenderAct} (ha : a ≠ .close) (ht : step size s a = some t) :
    t.close = s.close := by
  cases moved_of_step ht with
  | ensureStarted => exact _ensure_started_close size s
  | work _ ht => exact ht.frame.1
  | close => exact absurd rfl ha
  | _ => rfl

theorem helpful_step (size : Nat) {a : RenderAct} (h : Inv s) (hne : s.close ≠ .returned)
    (ht : step size s a = some t) :
    t.close = .returned ∨ Inv t ∧
      (t.rank < s.rank ∨ t.rank = s.rank ∧ t.helpful = s.helpful ∧ a.thread ≠ s.helpful) := by
  have hinv := inv_step size h ht
  have hcallers : a.thread = .callers → t.rank = s.rank ∧ t.helpful = s.helpful ∧ a.thread ≠ s.helpful := by
    intro ha
    obtain ⟨h1, h2⟩ := callers_step size ha hne ht
    refine ⟨h1, h2, ?_⟩
    rw [ha, helpful]
    split
    · split <;> simp
    · simp
  cases moved_of_step ht with
  | work hw ht => exact .inr ⟨hinv, work_step h hne hw ht⟩
  | close ht => exact (rank_close ht).imp_right fun hlt => ⟨hinv, .inl hlt⟩
  | _ => exact .inr ⟨hinv, .inr (hcallers rfl)⟩

theorem returns {size : Nat} (r : (machine size).Run) (hfair : ∀ i, i ≠ .callers → r.Fair RenderAct.thread i)
    (t : Nat) : ∃ u, t ≤ u ∧ (r.state u).close = .returned := by
  refine Machine.Run.Fair.reaches (I := Inv) rank helpful (fun s _ _ => hfair _ ?_)
    (fun s _ hne => enabled size hne) (fun s a s' hi hne ht => helpful_step size hi hne ht)
    (inv_of_reachable (r.reachable t))
  unfold helpful
  split
  · split <;> simp
  · simp

/-! ## Which jobs are settled -/

theorem put_step (size : Nat) {a : RenderAct} (h : ∃ st, s.stage i = some st ∧ st.Put)
    (ht : step size s a = some t) : ∃ st, t.stage i = some st ∧ st.Put := by
  obtain ⟨st, hi, hput⟩ := h
  have hset : ∀ j st', st'.Put → ∃ st, (s.setStage j st').stage i = some st ∧ st.Put := by
    intro j st' hst'
    unfold stage at hi ⊢
    rw [calls_setStage]
    split
    · obtain ⟨call, hc, _⟩ := Option.map_eq_some_iff.mp hi
      exact ⟨st', by simp [hc], hst'⟩
    · exact ⟨st, hi, hput⟩
  cases moved_of_step ht with
  | submit =>
    obtain ⟨call, hc, hst⟩ := Option.map_eq_some_iff.mp hi
    refine ⟨st, ?_, hput⟩
    unfold stage
    rw [List.getElem?_append_left (List.getElem?_eq_some_iff.mp hc).1]
    exact hi
  | @ensureStarted j hj _ =>
    refine ⟨st, ?_, hput⟩
    have hne : j ≠ i := by
      rintro rfl
      cases hi.symm.trans hj
      exact hput
    unfold stage at hi ⊢
    rwa [calls_setStage, if_neg hne, _ensure_started_calls]
  | put => exact hset _ .waiting trivial
  | wake => exact hset _ .returned trivial
  | work _ ht => exact ⟨st, (ht.stage i).trans hi, hput⟩
  | close ht => exact ⟨st, (ht.stage i).trans hi, hput⟩

/-- When `close` returns nobody has a job. -/
theorem settled_of_return (h : Inv s) (ht : Closing s t) (hret : t.close = .returned) {st : SubmitStage}
    (hi : s.stage i = some st) (hput : st.Put) : t.Settled i := by
  have hinv := h.closing ht
  have hst := hinv.stopped
  unfold Stopped at hst
  rw [hret] at hst
  have hjobs : t.jobs = [] := by
    cases ht with
    | again hc hcl => exact absurd hc (h.closed.mp hcl)
    | began hc hcl =>
      obtain ⟨call, hcall, he⟩ := Option.map_eq_some_iff.mp hi
      have hne : call.stage ≠ .starting := by
        rintro hs
        rw [← he, hs] at hput
        exact hput
      rcases h.ready i call hcall hne with hs | hs
      · simp [hs] at hret
      · simp [hcl] at hs
    | drained _ hjobs => exact hjobs
    | dropped hc => cases hc.symm.trans hret
    | failed hc => cases hc.symm.trans hret
    | _ => cases hret
  have hk := hinv.kept i
  obtain ⟨call, hcall, he⟩ := Option.map_eq_some_iff.mp ((ht.stage i).trans hi)
  unfold KeptAt at hk
  rw [hcall] at hk
  refine ⟨call, hcall, ?_⟩
  apply hk.settled_of_zero
  · rwa [he]
  · simp [queued, hjobs]
  · simp [workersAt, hst]
  · simp [workersAt, hst]

/-- After `close` no job changes. -/
theorem returned_step (size : Nat) {a : RenderAct} (h : Inv s) (hret : s.close = .returned)
    (ht : step size s a = some t) :
    t.close = .returned ∧ ∀ (i : Nat) (call : Submit), s.calls[i]? = some call →
      ∃ call' : Submit, t.calls[i]? = some call' ∧ call'.job = call.job := by
  have hst := h.stopped
  unfold Stopped at hst
  rw [hret] at hst
  have hset : ∀ (j : Nat) (st : SubmitStage) (i : Nat) (call : Submit), s.calls[i]? = some call →
      ∃ call' : Submit, (s.setStage j st).calls[i]? = some call' ∧ call'.job = call.job := by
    intro j st i call hc
    rw [calls_setStage, hc]
    split <;> exact ⟨_, rfl, rfl⟩
  cases moved_of_step ht with
  | submit =>
    refine ⟨hret, fun i call hc => ⟨call, ?_, rfl⟩⟩
    rw [List.getElem?_append_left (List.getElem?_eq_some_iff.mp hc).1]
    exact hc
  | @ensureStarted j _ _ =>
    have hcl : s.closed = true := h.closed.mpr (by simp [hret])
    have hsame : s._ensure_started size = s := by simp [RenderPool._ensure_started, hcl]
    rw [hsame]
    exact ⟨hret, hset j .started⟩
  | @put j _ => exact ⟨hret, hset j .waiting⟩
  | @wake j _ _ => exact ⟨hret, hset j .returned⟩
  | work hw =>
    rw [hst] at hw
    cases hw
  | close ht => exact absurd hret ht.ne_returned

theorem started_of_put {size : Nat} (ht : step size s (.put i) = some t) : s.stage i = some .started := by
  cases moved_of_step ht with
  | put hi => exact hi

theorem waiting_of_put {size : Nat} (ht : step size s (.put i) = some t) : t.stage i = some .waiting := by
  cases moved_of_step ht with
  | put hi =>
    obtain ⟨call, hc, _⟩ := Option.map_eq_some_iff.mp hi
    show (s.setStage i .waiting).calls[i]?.map (·.stage) = _
    rw [calls_setStage, if_pos rfl, hc]
    rfl

section

variable {size : Nat} (r : (machine size).Run)

/-- A job stays as it is from the return of `close` on. -/
theorem job_after_return {t u : Nat} (htu : t ≤ u) (hret : (r.state t).close = .returned) {call : Submit}
    (hc : (r.state t).calls[i]? = some call) : ∃ call', (r.state u).calls[i]? = some call' ∧ call'.job = call.job := by
  have h : (r.state u).close = .returned ∧
      ∃ call', (r.state u).calls[i]? = some call' ∧ call'.job = call.job := by
    apply r.stays (I := fun s => s.close = .returned ∧ ∃ call', s.calls[i]? = some call' ∧ call'.job = call.job) htu
      ⟨hret, call, hc, rfl⟩
    rintro v a _ ha ⟨hv, call', hc', hjob⟩
    obtain ⟨h1, h2⟩ := returned_step size (inv_of_reachable (r.reachable v)) hv (r.next_some ha)
    obtain ⟨call'', hc'', hjob'⟩ := h2 i call' hc'
    exact ⟨h1, call'', hc'', hjob'.trans hjob⟩
  exact h.2

theorem settled_of_put (hfair : ∀ i, i ≠ .callers → r.Fair RenderAct.thread i) {t : Nat}
    (ht : r.act t = some (.put i)) (hopen : (r.state t).close ≠ .returned) :
    ∃ u, ∀ v, u ≤ v → (r.state v).Settled i := by
  have hs : step size (r.state t) (.put i) = some (r.state (t + 1)) := r.next_some ht
  have hput : ∃ st, (r.state (t + 1)).stage i = some st ∧ st.Put := ⟨.waiting, waiting_of_put hs, trivial⟩
  have hclose := close_step size (a := .put i) (by simp) hs
  obtain ⟨u, htu, hu⟩ := returns r hfair (t + 1)
  obtain ⟨v, htv, _, hv, hv'⟩ := Machine.exists_change (p := fun u => (r.state u).close ≠ .returned) htu
    (hclose ▸ hopen) (fun hne => hne hu)
  have hret : (r.state (v + 1)).close = .returned := not_not.mp hv'
  obtain ⟨st, hst, hst'⟩ : ∃ st, (r.state v).stage i = some st ∧ st.Put :=
    r.stays (I := fun s => ∃ st, s.stage i = some st ∧ st.Put) htv hput
      fun _ _ _ ha hi => put_step size hi (r.next_some ha)
  refine ⟨v + 1, fun x hx => ?_⟩
  have hsettled : (r.state (v + 1)).Settled i := by
    cases ha : r.act v with
    | none => exact absurd (r.next_none ha ▸ hret) hv
    | some a =>
      have hstep : step size (r.state v) a = some (r.state (v + 1)) := r.next_some ha
      by_cases hcl : a = .close
      · subst hcl
        cases moved_of_step hstep with
        | close hclosing => exact settled_of_return (inv_of_reachable (r.reachable v)) hclosing hret hst hst'
      · exact absurd ((close_step size hcl hstep).symm.trans hret) hv
  obtain ⟨call, hc, hevent, hanswer⟩ := hsettled
  obtain ⟨call', hc', hjob⟩ := job_after_return r hx hret hc
  exact ⟨call', hc', hjob ▸ hevent, hjob ▸ hanswer⟩

theorem not_settled_of_put {t : Nat} (ht : r.act t = some (.put i)) (hret : (r.state t).close = .returned)
    (u : Nat) : ∃ v, u ≤ v ∧ ¬ (r.state v).Settled i := by
  have hs : step size (r.state t) (.put i) = some (r.state (t + 1)) := r.next_some ht
  have hk := (inv_of_reachable (r.reachable t)).kept i
  obtain ⟨call, hc, hst⟩ := Option.map_eq_some_iff.mp (started_of_put hs)
  unfold KeptAt at hk
  rw [hc] at hk
  cases hk with
  | unput _ hnew =>
    refine ⟨max u t, Nat.le_max_left u t, ?_⟩
    obtain ⟨call', hc', hjob⟩ := job_after_return r (Nat.le_max_right u t) hret hc
    rintro ⟨call'', hc'', hevent, _⟩
    cases hc'.symm.trans hc''
    rw [hjob, hnew] at hevent
    cases hevent
  | _ => simp_all [SubmitStage.Put]

/-- Every job that is put is settled in the end if and only if none is put after `close` has
returned. -/
theorem settled_iff (hfair : ∀ i, i ≠ .callers → r.Fair RenderAct.thread i) :
    (∀ t i, r.act t = some (.put i) → ∃ u, ∀ v, u ≤ v → (r.state v).Settled i) ↔
      ∀ t i, r.act t = some (.put i) → (r.state t).close ≠ .returned := by
  refine ⟨fun h t i ht hret => ?_, fun h t i ht => settled_of_put r hfair ht (h t i ht)⟩
  obtain ⟨u, hu⟩ := h t i ht
  obtain ⟨v, huv, hv⟩ := not_settled_of_put r ht hret u
  exact hv (hu v huv)

end

/-- `close`, while the only worker takes `n` steps and exits. -/
def closing (n : Nat) : List RenderAct :=
  List.replicate 5 RenderAct.close ++ List.replicate n (RenderAct.work 0 (.error "")) ++
    List.replicate 4 RenderAct.close

/-- The worker takes the job when it has been stopped. -/
def inTime : List RenderAct := [RenderAct.submit, .ensureStarted 0, .put 0, .work 0 (.error "")] ++ closing 5

/-- `close` runs while a caller is between `_ensure_started` and `put`. -/
def late : List RenderAct := [RenderAct.submit, .ensureStarted 0] ++ closing 2 ++ [RenderAct.put 0]

def lateEnd : RenderPool where
  jobs := [some 0]
  closed := true
  close := .returned
  calls := [{ stage := .waiting }]

def inTimeEnd : RenderPool where
  closed := true
  close := .returned
  calls := [{ stage := .waiting, job := { error := some "", event := true } }]

theorem late_exec : (machine 1).exec {} late = some lateEnd := by decide

theorem inTime_exec : (machine 1).exec {} inTime = some inTimeEnd := by decide

theorem fair_of_returned {as : List RenderAct} (he : (machine 1).exec {} as = some s) (hret : s.close = .returned)
    (hworkers : s.workers = []) {i : RenderThread} (hi : i ≠ .callers) :
    (Machine.Run.ofExec (M := machine 1) rfl he).Fair RenderAct.thread i := by
  apply Machine.Run.ofExec_fair
  rintro ⟨a, rfl, ha⟩
  cases a with
  | work w result => simp [machine, step, hworkers] at ha
  | close => simp [machine, step, closeStep, hret] at ha
  | _ => exact hi rfl

theorem settled_iff_inTime :
    ∃ u, ∀ v, u ≤ v → ((Machine.Run.ofExec (M := machine 1) rfl inTime_exec).state v).Settled 0 := by
  refine (settled_iff (Machine.Run.ofExec rfl inTime_exec) fun i => fair_of_returned inTime_exec rfl rfl).mpr ?_
    2 0 rfl
  intro t i ht
  have hput : inTime[t]? = some (.put i) := ht
  have hi : i = 0 := by simpa [inTime, closing] using List.mem_of_getElem? hput
  subst hi
  have hsecond : ∀ t < inTime.length, inTime[t]? = some (.put 0) → t = 2 := by decide
  cases hsecond t (List.getElem?_eq_some_iff.mp hput).1 hput
  decide

/-- The job that is put when `close` has returned is not settled. -/
theorem late_not_settled :
    ¬ ∀ (size : Nat) (r : (machine size).Run), (∀ i, i ≠ .callers → r.Fair RenderAct.thread i) →
      ∀ t i, r.act t = some (.put i) → ∃ u, ∀ v, u ≤ v → (r.state v).Settled i := by
  intro h
  obtain ⟨u, hu⟩ := h 1 (Machine.Run.ofExec rfl late_exec) (fun i => fair_of_returned late_exec rfl rfl) 13 0 rfl
  have hs := hu (max u late.length) (Nat.le_max_left _ _)
  have he := Machine.Run.ofExec_state (M := machine 1) rfl late_exec (Nat.le_max_right u late.length)
  rw [he] at hs
  exact absurd hs (by decide)

end RenderPool

end Netspy
