import Netspy.Impl.Loops

/-!
# What ends a loop

Each loop survives its inputs exactly if none of the calls raises that it makes
outside a `try`: for a worker `queue.get` and `get_batch`, for the item buffer
the debug handler, for the poller the `flush` that ends a poll, and for the
main thread its reads of the queue and of the filter's properties. The request
buffer has no such call (`requestLoop_survives`).
-/

namespace Netspy

theorem isOk_eq_false {α : Type} {r : Except Exn α} : r.isOk = false ↔ ∃ e, r = .error e := by
  cases r with
  | error e => exact iff_of_true rfl ⟨e, rfl⟩
  | ok a => exact iff_of_false Bool.noConfusion fun ⟨_, h⟩ => by cases h

/-! ## A worker -/

namespace WorkerTurn

variable (st : Setting) (x : WorkerTurn) (s : WorkerThread)

/-- The turn calls the queue, and a call raises. -/
def Raises : Prop :=
  x.stopped = false ∧ (x.others (s.collector, s.heap)).1.buffer = [] ∧
    (x.get.isOk = false ∨ (∃ first, x.get = .ok (some first)) ∧ x.getBatch.isOk = false)

/-- A request that the turn took was processed, and it is settled unless it
put an item. -/
def Processes (t : WorkerThread) : Prop :=
  ∀ r, (x.getRequest (x.others (s.collector, s.heap))).1 = .ok (some r) →
    ∃ job, t.jobs = (r, job, !job.deferred) :: s.jobs ∧
      (job.deferred = false → r ∉ t.collector.inProgress)

theorem getRequest_raises (c : Collector Ref × Heap) :
    (x.getRequest c).1.isOk = false ↔
      c.1.buffer = [] ∧
        (x.get.isOk = false ∨ (∃ first, x.get = .ok (some first)) ∧ x.getBatch.isOk = false) := by
  unfold getRequest Collector.popBuffer
  cases hb : c.1.buffer with
  | cons r rest => simp [Except.isOk, Except.toBool]
  | nil =>
    cases x.get with
    | error e => simp [Except.isOk, Except.toBool]
    | ok first =>
      cases first with
      | none => simp [Except.isOk, Except.toBool]
      | some first => cases x.getBatch <;> simp [Except.isOk, Except.toBool]

theorem turn_raises : (∃ e t, x.turn st s = .raised e t) ↔ x.Raises s := by
  unfold turn Raises
  rw [← getRequest_raises, isOk_eq_false]
  cases x.stopped with
  | true => simp
  | false =>
    rcases x.getRequest (x.others (s.collector, s.heap)) with ⟨_ | _ | r, c⟩ <;> simp

theorem stopped_of_returned {t : WorkerThread} (h : x.turn st s = .returned t) : x.stopped = true := by
  unfold turn at h
  split at h
  · assumption
  · split at h <;> cases h

theorem processes_of_again {t : WorkerThread} (h : x.turn st s = .again t) : x.Processes s t := by
  intro r hr
  unfold turn at h
  split at h
  · cases h
  · rcases hg : x.getRequest (x.others (s.collector, s.heap)) with ⟨got, c⟩
    rw [hg] at h hr
    cases hr
    cases h
    refine ⟨(ParserWorker.work st x.env r c.2).1, rfl, fun hd => ?_⟩
    have ha : (ParserWorker.work st x.env r c.2).2 = true := by
      show (!(ParserWorker.work st x.env r c.2).1.deferred) = true
      rw [hd, Bool.not_false]
    show r ∉ (if (ParserWorker.work st x.env r c.2).2 then c.1.done r else c.1).inProgress
    rw [if_pos ha]
    exact fun hm => (Collector.mem_done.mp hm).1 rfl

end WorkerTurn

theorem workerLoop_survives (st : Setting) (xs : List WorkerTurn) (s : WorkerThread) :
    (workerLoop st).Survives (fun x _ => x.stopped = true) WorkerTurn.Processes xs s ↔
      ∀ x u, (workerLoop st).Comes xs s x u → ¬ x.Raises u :=
  Loop.survives_iff (I := fun _ => True) (fun _ _ _ _ _ => trivial)
    (fun x u => (x.turn_raises st u).trans not_not.symm)
    (fun x u _ _ h => x.stopped_of_returned st u h) (fun x u _ h => x.processes_of_again st u h) trivial

/-! ## The buffers -/

namespace ItemBuffer

variable {ρ η : Type} [DecidableEq ρ] (lib : Stdlib) (st : Setting) (out : Turnout)

theorem ackAll_result (os : List ρ) (f : Flushed ρ η) (s : ItemBuffer ρ η) :
    (ackAll os f s).1.result = f.result ∧ (ackAll os f s).2.pending = s.pending := by
  induction os generalizing f s with
  | nil => exact ⟨rfl, rfl⟩
  | cons o os ih => exact ih _ _

/-- Only the debug handler ends a flush; what was pending is taken in any
case. -/
theorem flush_raises (s : ItemBuffer ρ η) :
    ((s.flush lib st out).1.result.isOk = false ↔
        s.handled = true ∧ s.pending ≠ [] ∧ out.handler.isOk = false) ∧
      (s.flush lib st out).2.pending = [] := by
  unfold flush
  cases hp : s.pending with
  | nil => simp [Except.isOk, Except.toBool]
  | cons e rest =>
    dsimp only [List.isEmpty_cons]
    rw [if_neg Bool.false_ne_true]
    cases s.handled with
    | true =>
      cases out.handler with
      | error e => simp [Except.isOk, Except.toBool]
      | ok _ => simp [ackAll_result, Except.isOk, Except.toBool]
    | false =>
      simp only [Bool.false_eq_true, false_and, iff_false, if_false]
      split <;> simp [ackAll_result, Except.isOk, Except.toBool]

end ItemBuffer

/-- The turn gives items to the debug handler, which raises. -/
def ItemTurn.Raises {ρ η : Type} (x : ItemTurn ρ η) (s : ItemBuffer ρ η) : Prop :=
  (x.others s).handled = true ∧ (x.others s).pending ≠ [] ∧ x.out.handler.isOk = false

section
variable {ρ η : Type} [DecidableEq ρ] (lib : Stdlib) (st : Setting)

theorem itemLoop_survives (xs : List (ItemTurn ρ η)) (s : ItemBuffer ρ η) :
    (itemLoop lib st).Survives (fun x _ => x.stopped = true) (fun _ _ t => t.pending = []) xs s ↔
      ∀ x u, (itemLoop lib st).Comes xs s x u → ¬ x.Raises u := by
  refine Loop.survives_iff (I := fun _ => True) (fun _ _ _ _ _ => trivial) (fun x u => ?_)
    (fun x u t _ h => ?_) (fun x u t h => ?_) trivial
  all_goals
    have hf := ItemBuffer.flush_raises lib st x.out (x.others u)
  · rw [not_not, ItemTurn.Raises, ← hf.1, isOk_eq_false]
    unfold itemLoop
    rcases (x.others u).flush lib st x.out with ⟨⟨_ | _, _, _, _, _⟩, s'⟩
    · simp
    · cases x.stopped <;> simp
  · unfold itemLoop at h
    split at h
    · cases h
    · split at h
      · assumption
      · cases h
  · unfold itemLoop at h
    split at h
    · cases h
    · rename_i hs
      split at h
      · cases h
      · cases h
        simpa [hs] using hf.2

end

namespace RequestBuffer

variable {W : Type} (srv : Services W)

theorem flushLoop_ok (batch : List Request) (s : RequestBuffer W) (h : (flushLoop srv batch s).1 = .ok ()) :
    (flushLoop srv batch s).2.pending = s.pending := by
  induction batch generalizing s with
  | nil => rfl
  | cons r rest ih =>
    rcases hd : askDedup srv r s.world with ⟨e | _ | _, w⟩
    · simp [flushLoop, hd] at h
    · simp only [flushLoop, hd] at h ⊢
      exact ih _ h
    · rcases hp : srv.put r w with ⟨e | _, w'⟩
      · simp [flushLoop, hd, hp] at h
      · simp only [flushLoop, hd, hp] at h ⊢
        exact ih _ h

end RequestBuffer

/-- Whatever the filter and the queue do, the request buffer's thread goes on;
a flush that meets no exception leaves nothing behind. -/
theorem requestLoop_survives {W : Type} (srv : Services W) (xs : List (RequestTurn W)) (s : RequestBuffer W) :
    (requestLoop srv).Survives (fun x _ => x.stopped = true)
      (fun x u t => ((x.others u).flush srv).1 = .ok () → t.pending = []) xs s := by
  have hsafe : ∀ x u, (∃ e t, requestLoop srv x u = .raised e t) ↔ ¬ True := fun x u => by
    unfold requestLoop
    cases x.stopped <;> simp
  refine (Loop.survives_iff (I := fun _ => True) (fun _ _ _ _ _ => trivial) hsafe
    (fun x u t _ h => ?_) (fun x u t h => ?_) trivial).mpr fun _ _ _ => trivial
  all_goals
    unfold requestLoop at h
    dsimp only at h
    split at h
  · assumption
  · cases h
  · cases h
  · cases h
    exact RequestBuffer.flushLoop_ok srv _ _

/-! ## The poller -/

namespace PollTurn

variable (st : Setting) (x : PollTurn) (s : PollerState)

/-- The turn has tasks, and the flush after them raises. -/
def Raises : Prop :=
  ¬ (s.started = true ∧ x.stopped = true) ∧ (∃ task tasks, x.fetch = .ok (task :: tasks)) ∧ x.flush.isOk = false

theorem poll_raises : (x.poll st s).1.isOk = false ↔
    (∃ task tasks, x.fetch = .ok (task :: tasks)) ∧ x.flush.isOk = false := by
  unfold poll
  cases x.fetch with
  | error e => simp [Except.isOk, Except.toBool]
  | ok tasks =>
    cases tasks with
    | nil => simp [Except.isOk, Except.toBool]
    | cons task tasks => simp

theorem foldl_convert (tasks : List PyVal) :
    (tasks.foldl x.convert s).tasks = s.tasks ++ tasks := by
  induction tasks generalizing s with
  | nil => exact (List.append_nil _).symm
  | cons task tasks ih =>
    rw [List.foldl_cons, ih]
    exact List.append_assoc _ [task] tasks

/-- Every fetched task is given to `_make_requests`, whatever the others
raise. -/
theorem poll_tasks {tasks : List PyVal} (h : x.fetch = .ok tasks) :
    (x.poll st s).2.tasks = s.tasks ++ tasks := by
  unfold poll
  rw [h]
  cases tasks with
  | nil =>
    dsimp only
    split <;> exact (List.append_nil _).symm
  | cons task tasks => exact x.foldl_convert _ _

end PollTurn

theorem pollerLoop_survives (st : Setting) (xs : List PollTurn) (s : PollerState) :
    (pollerLoop st).Survives (fun x _ => x.stopped = true)
        (fun x u t => ∀ tasks, x.fetch = .ok tasks → t.tasks = u.tasks ++ tasks) xs s ↔
      ∀ x u, (pollerLoop st).Comes xs s x u → ¬ x.Raises u := by
  refine Loop.survives_iff (I := fun _ => True) (fun _ _ _ _ _ => trivial) (fun x u => ?_)
    (fun x u t _ h => ?_) (fun x u t h tasks ht => ?_) trivial
  · have hr := x.poll_raises st { u with started := true }
    rw [not_not, PollTurn.Raises, ← hr, isOk_eq_false]
    unfold pollerLoop
    rcases x.poll st { u with started := true } with ⟨_ | _, t⟩ <;> cases u.started <;> cases x.stopped <;>
      simp
  · unfold pollerLoop at h
    split at h
    · rename_i hs
      exact (Bool.and_eq_true_iff.mp hs).2
    · split at h <;> cases h
  · unfold pollerLoop at h
    split at h
    · cases h
    · have hp := x.poll_tasks st { u with started := true } ht
      split at h
      · cases h
      · rename_i hs
        cases h
        rw [hs] at hp
        exact hp

/-! ## The main thread -/

namespace WaitTurn

variable (st : Setting) (w : Waiting) (x : WaitTurn)

/-- Every buffer and worker is found idle, and the queue empty by the
collector. -/
def Idle : Prop :=
  x.requestBufferEmpty = true ∧ x.collectorIdle = true ∧ x.collectorQueueEmpty = .ok true ∧
    x.itemBufferEmpty = true ∧ x.workersIdle = true

/-- A call of `queue.empty` that is made raises. -/
def QueueRaises : Prop :=
  (x.requestBufferEmpty = true ∧ x.collectorIdle = true ∧ x.collectorQueueEmpty.isOk = false) ∨
    x.Idle ∧ x.queueEmpty.isOk = false

/-- `RedisScheduler` is past the grace and has reclaimed nothing, and a call
that it makes then raises. -/
def RedisRaises : Prop :=
  x.reclaimed = 0 ∧ (x.QueueRaises ∨ (x.Idle ∧ x.queueEmpty = .ok true) ∧ x.inflightCount.isOk = false)

/-- A call that `_is_done` makes raises. -/
def IsDoneRaises (seenWork : Bool) : Prop :=
  match w.scheduler with
  | .air => x.QueueRaises
  | .redis => w.keepAlive = false ∧ (x.inStartupGrace st w seenWork).1 = false ∧ x.RedisRaises
  | .redisTask => w.keepAlive = false ∧ x.exhausted = some true ∧ x.QueueRaises

theorem localIdle_eq :
    (x.localIdle.isOk = false ↔
        x.requestBufferEmpty = true ∧ x.collectorIdle = true ∧ x.collectorQueueEmpty.isOk = false) ∧
      (x.localIdle = .ok true ↔ x.Idle) := by
  unfold localIdle Idle
  cases x.requestBufferEmpty <;> cases x.collectorIdle <;> cases x.collectorQueueEmpty <;>
    simp [Except.isOk, Except.toBool, Except.map, and_assoc]

theorem quiet_eq :
    (x.quiet.isOk = false ↔ x.QueueRaises) ∧
      (x.quiet = .ok true ↔ x.Idle ∧ x.queueEmpty = .ok true) := by
  have h := x.localIdle_eq
  unfold quiet QueueRaises
  rw [← h.1, ← h.2]
  rcases x.localIdle with e | _ | _ <;> simp [bind, Except.bind, pure, Except.pure, Except.isOk, Except.toBool]

theorem redisDone_raises : (x.redisDone st).isOk = false ↔ x.RedisRaises := by
  have h := x.quiet_eq
  unfold redisDone RedisRaises
  rw [← h.1, ← h.2]
  by_cases h0 : x.reclaimed = 0
  · rcases x.quiet with e | _ | _ <;> cases x.inflightCount <;>
      simp [h0, bind, Except.bind, pure, Except.pure, Except.isOk, Except.toBool]
  · simp [h0, Except.isOk, Except.toBool]

theorem isDone_raises (seenWork : Bool) :
    (x.isDone st w seenWork).1.isOk = false ↔ x.IsDoneRaises st w seenWork := by
  unfold isDone IsDoneRaises
  cases w.scheduler with
  | air => exact x.quiet_eq.1
  | redis =>
    dsimp only
    rw [← x.redisDone_raises st]
    cases w.keepAlive <;> cases (x.inStartupGrace st w seenWork).1 <;> simp [Except.isOk, Except.toBool]
  | redisTask =>
    dsimp only
    rw [← x.quiet_eq.1]
    rcases x.exhausted with _ | _ | _ <;> cases w.keepAlive <;> cases x.quiet <;>
      simp [Except.isOk, Except.toBool, Except.map]

variable (isinstance : Exn → String → Bool) (s : WaitState)

/-- `_is_done` returns true, the last of `DONE_CHECK_TIMES` times in a row. -/
def DoneEnough : Prop :=
  (x.isDone st w s.seenWork).1 = .ok true ∧ List.replicate st.DONE_CHECK_TIMES true <+: true :: s.results

/-- `_wait_until_done` may return here. -/
def MayReturn : Prop := x.stopped = true ∨ x.pastDeadline st w = true ∨ x.DoneEnough st w s

/-- A call that the turn makes raises: in `_is_done`, or in the alert check
that follows unless the streak is long enough. -/
def Raises : Prop :=
  x.stopped = false ∧ x.pastDeadline st w = false ∧
    (x.IsDoneRaises st w s.seenWork ∨
      (∃ done, (x.isDone st w s.seenWork).1 = .ok done ∧ ¬ (done = true ∧ st.DONE_CHECK_TIMES ≤ s.streak + 1)) ∧
        AlertManager.Fails st isinstance x.alert)

theorem turn_cases :
    (x.stopped = true ∧ x.turn st w isinstance s = .returned s) ∨
      (x.stopped = false ∧ x.pastDeadline st w = true ∧
        x.turn st w isinstance s = .returned { s with stopEvent := true }) ∨
      (x.stopped = false ∧ x.pastDeadline st w = false ∧
        ((∃ e seen, x.isDone st w s.seenWork = (.error e, seen) ∧
            x.turn st w isinstance s = .raised e { s with seenWork := seen }) ∨
          ∃ done seen, x.isDone st w s.seenWork = (.ok done, seen) ∧
            x.turn st w isinstance s = x.judge st isinstance done (s.count done seen))) := by
  unfold turn
  cases x.stopped with
  | true => exact .inl ⟨rfl, rfl⟩
  | false =>
    cases x.pastDeadline st w with
    | true => exact .inr (.inl ⟨rfl, rfl, rfl⟩)
    | false =>
      refine .inr (.inr ⟨rfl, rfl, ?_⟩)
      rcases x.isDone st w s.seenWork with ⟨e | done, seen⟩
      · exact .inl ⟨e, seen, rfl, rfl⟩
      · exact .inr ⟨done, seen, rfl, rfl⟩

theorem judge_raises (done seen : Bool) :
    (∃ e t, x.judge st isinstance done (s.count done seen) = .raised e t) ↔
      ¬ (done = true ∧ st.DONE_CHECK_TIMES ≤ s.streak + 1) ∧ AlertManager.Fails st isinstance x.alert := by
  have ha : ((s.count done seen).alert.check st isinstance x.alert).isOk = true ↔ _ := AlertManager.isOk_check
  have hs : done = true → (s.count done seen).streak = s.streak + 1 := fun h => if_pos h
  unfold judge
  by_cases hd : done = true ∧ st.DONE_CHECK_TIMES ≤ s.streak + 1
  · rw [if_pos (Bool.and_eq_true_iff.mpr ⟨hd.1, decide_eq_true ((hs hd.1).symm ▸ hd.2)⟩)]
    exact iff_of_false (fun ⟨_, _, h⟩ => by cases h) fun h => h.1 hd
  · rw [if_neg (fun h => hd (by
      obtain ⟨h1, h2⟩ := Bool.and_eq_true_iff.mp h
      exact ⟨h1, hs h1 ▸ of_decide_eq_true h2⟩))]
    cases hc : (s.count done seen).alert.check st isinstance x.alert with
    | error e =>
      rw [hc] at ha
      exact iff_of_true ⟨e, _, rfl⟩ ⟨hd, not_not.mp (mt ha.mpr Bool.false_ne_true)⟩
    | ok a =>
      rw [hc] at ha
      exact iff_of_false (fun ⟨_, _, h⟩ => by cases h) fun h => ha.mp rfl h.2

theorem turn_raises : (∃ e t, x.turn st w isinstance s = .raised e t) ↔ x.Raises st w isinstance s := by
  have hd := x.isDone_raises st w s.seenWork
  rw [Raises, ← hd]
  rcases x.turn_cases st w isinstance s with ⟨h, ht⟩ | ⟨h, hl, ht⟩ | ⟨h, hl, ⟨e, seen, hx, ht⟩ | ⟨done, seen, hx, ht⟩⟩
  · simp [h, ht]
  · simp [hl, ht]
  · rw [ht, hx]
    exact iff_of_true ⟨e, _, rfl⟩ ⟨h, hl, .inl rfl⟩
  · rw [ht, judge_raises, hx]
    constructor
    · intro hj
      exact ⟨h, hl, .inr ⟨⟨done, rfl, hj.1⟩, hj.2⟩⟩
    · rintro ⟨-, -, hj | ⟨⟨d, hd, hj⟩, hf⟩⟩
      · cases hj
      · cases hd
        exact ⟨hj, hf⟩

/-- The streak counts the latest results, and these are true. -/
def StreakTrue (s : WaitState) : Prop := List.replicate s.streak true <+: s.results

variable {s}

theorem count_streakTrue (hs : StreakTrue s) (done seen : Bool) : StreakTrue (s.count done seen) := by
  cases done with
  | true => exact List.cons_prefix_cons.mpr ⟨rfl, hs⟩
  | false => exact List.nil_prefix

theorem turn_streakTrue {t : WaitState} (hs : StreakTrue s) (h : x.turn st w isinstance s = .again t) :
    StreakTrue t := by
  rcases x.turn_cases st w isinstance s with ⟨-, ht⟩ | ⟨-, -, ht⟩ | ⟨-, -, ⟨e, seen, -, ht⟩ | ⟨done, seen, -, ht⟩⟩ <;>
    rw [ht] at h
  · cases h
  · cases h
  · cases h
  · unfold judge at h
    split at h
    · cases h
    · split at h <;> cases h
      exact count_streakTrue hs done seen

theorem turn_mayReturn {t : WaitState} (hs : StreakTrue s) (h : x.turn st w isinstance s = .returned t) :
    x.MayReturn st w s := by
  rcases x.turn_cases st w isinstance s with ⟨hx, -⟩ | ⟨-, hx, -⟩ | ⟨-, -, ⟨e, seen, -, ht⟩ | ⟨done, seen, hx, ht⟩⟩
  · exact .inl hx
  · exact .inr (.inl hx)
  · rw [ht] at h
    cases h
  · rw [ht, judge] at h
    split at h
    · rename_i hd
      obtain ⟨rfl, hd⟩ := Bool.and_eq_true_iff.mp hd
      refine .inr (.inr ⟨congrArg Prod.fst hx, ?_⟩)
      have hp : List.replicate (s.streak + 1) true <+: true :: s.results := count_streakTrue hs true seen
      have hd : st.DONE_CHECK_TIMES ≤ s.streak + 1 := of_decide_eq_true hd
      exact (List.prefix_replicate_iff.mpr ⟨by simpa using hd, by simp⟩).trans hp
    · split at h <;> cases h

end WaitTurn

theorem waitLoop_survives (st : Setting) (isinstance : Exn → String → Bool) (w : Waiting)
    (xs : List WaitTurn) (seenWork : Bool) (alert : AlertManager) :
    (waitLoop st isinstance w).Survives (WaitTurn.MayReturn st w) (fun _ _ _ => True) xs { seenWork, alert } ↔
      ∀ x u, (waitLoop st isinstance w).Comes xs { seenWork, alert } x u → ¬ x.Raises st w isinstance u :=
  Loop.survives_iff (I := WaitTurn.StreakTrue) (fun x _ _ hs h => x.turn_streakTrue st w isinstance hs h)
    (fun x u => (x.turn_raises st w isinstance u).trans not_not.symm)
    (fun x _ _ hs h => x.turn_mayReturn st w isinstance hs h) (fun _ _ _ _ => trivial) List.nil_prefix

/-- Each loop survives exactly the inputs at which no call raises that is made
outside a `try`. -/
theorem loops_survive_iff (lib : Stdlib) (st : Setting) (isinstance : Exn → String → Bool) (w : Waiting)
    {ρ η W : Type} [DecidableEq ρ] (srv : Services W) :
    (∀ xs s, (workerLoop st).Survives (fun x _ => x.stopped = true) WorkerTurn.Processes xs s ↔
      ∀ x u, (workerLoop st).Comes xs s x u → ¬ x.Raises u) ∧
    (∀ xs (s : ItemBuffer ρ η),
      (itemLoop lib st).Survives (fun x _ => x.stopped = true) (fun _ _ t => t.pending = []) xs s ↔
        ∀ x u, (itemLoop lib st).Comes xs s x u → ¬ x.Raises u) ∧
    (∀ xs s, (requestLoop srv).Survives (fun x _ => x.stopped = true)
      (fun x u t => ((x.others u).flush srv).1 = .ok () → t.pending = []) xs s) ∧
    (∀ xs s, (pollerLoop st).Survives (fun x _ => x.stopped = true)
        (fun x u t => ∀ tasks, x.fetch = .ok tasks → t.tasks = u.tasks ++ tasks) xs s ↔
      ∀ x u, (pollerLoop st).Comes xs s x u → ¬ x.Raises u) ∧
    (∀ xs seenWork alert,
      (waitLoop st isinstance w).Survives (WaitTurn.MayReturn st w) (fun _ _ _ => True) xs { seenWork, alert } ↔
        ∀ x u, (waitLoop st isinstance w).Comes xs { seenWork, alert } x u → ¬ x.Raises st w isinstance u) :=
  ⟨workerLoop_survives st, itemLoop_survives lib st, requestLoop_survives srv, pollerLoop_survives st,
    waitLoop_survives st isinstance w⟩

/-- One lost connection in `queue.get`, after which there is work. -/
def lostConnection : List WorkerTurn :=
  let env : Env :=
    { download := fun _ h => (.ok ⟨200, "https://a", []⟩, h), parse := fun _ _ h => (.ok none, h) }
  [{ get := .error "ConnectionError", env }, { get := .ok (some 0), env }]

theorem lostConnection_ends_worker :
    ¬ (workerLoop {}).Survives (fun x _ => x.stopped = true) WorkerTurn.Processes lostConnection
      { heap := fun _ => { url := "https://a" } } :=
  fun h => h.notRaised "ConnectionError" _ rfl

end Netspy
