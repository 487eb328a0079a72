import Netspy.Impl.AirScheduler

/-!
# What a step of a crawl does

One inversion lemma for the workers, for the buffers, for the teardown and for the main
thread: each says everything that a step of theirs can do. What is kept by every step is
derived from these.
-/

namespace Netspy

namespace AirScheduler

variable {st : Setting} {threads : Nat} {handled : Bool} {s t : AirScheduler} {a : AirAct} {w : Nat}

theorem batchOf_of_flushed {j : Nat} (h : s.flushed j = true) : s.buffer.batchOf j = [] := by
  obtain ⟨f, hf, hempty⟩ := (Option.any_eq_true _ _).mp h
  rw [BufferThreads.batchOf, hf]
  exact List.isEmpty_iff.mp hempty

/-- Everything a step of a worker can do. -/
inductive Worked (st : Setting) (threads : Nat) (handled : Bool) (s : AirScheduler) (w : Nat) :
    WorkerAct → AirScheduler → Prop
  | enter (hw : s.workers w = .idle) (hlt : w < threads) (hmain : s.main.started = true) (hs : s.stopping = false) :
      Worked st threads handled s w .enter (s.move w .entered)
  | exit (hw : s.workers w = .idle) (hlt : w < threads) : Worked st threads handled s w .exit (s.move w .exited)
  | pop (x : Tagged AirPut) (rest : List (Tagged AirPut)) (hw : s.workers w = .entered) (hc : s.collected = x :: rest) :
      Worked st threads handled s w .pop
        { s.move w (.marked x) with collected := rest, inProgress := x.tag.obj :: s.inProgress }
  | popEmpty (hw : s.workers w = .entered) (hc : s.collected = []) :
      Worked st threads handled s w .pop (s.move w .asking)
  | take (i : Nat) (x : Tagged AirPut) (hw : s.workers w = .asking) (hq : s.queue[i]? = some x) :
      Worked st threads handled s w (.take i) { s.move w (.took x []) with queue := s.queue.eraseIdx i }
  | timeout (hw : s.workers w = .asking) : Worked st threads handled s w .timeout (s.move w .idle)
  | extra (i : Nat) (x y : Tagged AirPut) (more : List (Tagged AirPut)) (hw : s.workers w = .took x more)
      (hq : s.queue[i]? = some y) :
      Worked st threads handled s w (.extra i) { s.move w (.took x (more ++ [y])) with queue := s.queue.eraseIdx i }
  | extend (x : Tagged AirPut) (more : List (Tagged AirPut)) (hw : s.workers w = .took x more) :
      Worked st threads handled s w .extend { s.move w (.extended x) with collected := s.collected ++ more }
  | mark (x : Tagged AirPut) (hw : s.workers w = .extended x) :
      Worked st threads handled s w .mark { s.move w (.marked x) with inProgress := x.tag.obj :: s.inProgress }
  | begin (x : Tagged AirPut) (hw : s.workers w = .marked x) :
      Worked st threads handled s w .begin (s.move w (.busy x false .running false))
  | put (obj : Nat) (request : Request) (x : Tagged AirPut) (deferred retried : Bool)
      (hw : s.workers w = .busy x deferred .running retried) :
      Worked st threads handled s w (.put obj request) ((s.put obj request).move w (.busy x deferred .put retried))
  | checked (x : Tagged AirPut) (deferred retried : Bool) (wait : AirWait)
      (hw : s.workers w = .busy x deferred .put retried) (hwait : wait = .full ∨ wait = .running) :
      Worked st threads handled s w .checkFull (s.move w (.busy x deferred wait retried))
  | swap (x : Tagged AirPut) (deferred retried : Bool) (hw : s.workers w = .busy x deferred .full retried) :
      Worked st threads handled s w .flush
        ((s.swap (some w)).move w (.busy x deferred (.flush s.buffer.flushes.length) retried))
  | flushed (x : Tagged AirPut) (deferred retried : Bool) (j : Nat)
      (hw : s.workers w = .busy x deferred (.flush j) retried) (hj : s.buffer.batchOf j = []) :
      Worked st threads handled s w .resume (s.move w (.busy x deferred .running retried))
  | itemsFlushed (x : Tagged AirPut) (deferred deferred' retried : Bool) (k : Nat)
      (hw : s.workers w = .busy x deferred (.itemFlush k) retried) (hk : s.items.holding k = []) :
      Worked st threads handled s w .resume (s.move w (.busy x deferred' .running retried))
  | putItem (owner : Nat) (x : Tagged AirPut) (deferred deferred' retried : Bool) (wait : AirWait)
      (hw : s.workers w = .busy x deferred .running retried) :
      Worked st threads handled s w (.putItem owner)
        ({ s with items := { s.items with pending := s.items.pending ++ [AirPut.mk x.tag.serial owner] } }.move w
          (.busy x deferred' wait retried))
  | swapItems (x : Tagged AirPut) (deferred retried : Bool) (hw : s.workers w = .busy x deferred .itemPut retried) :
      Worked st threads handled s w .flushItems
        ({ s with items := s.items.swap (some w) }.move w (.busy x deferred (.itemFlush s.items.started) retried))
  | retry (obj : Nat) (request : Request) (x : Tagged AirPut) (deferred : Bool)
      (hw : s.workers w = .busy x deferred .running false) :
      Worked st threads handled s w (.retry obj request)
        (((s.put obj { request with filterRepeat := false }).settle x .retried).move w (.busy x deferred .put true))
  | finish (fate : AirFate) (x : Tagged AirPut) (deferred : Bool) (hw : s.workers w = .busy x deferred .running false) :
      Worked st threads handled s w (.finish fate) ((s.settle x fate).move w (.finished x deferred))
  | finishRetried (fate : AirFate) (x : Tagged AirPut) (deferred : Bool)
      (hw : s.workers w = .busy x deferred .running true) :
      Worked st threads handled s w (.finish fate) (s.move w (.finished x deferred))
  | ack (x : Tagged AirPut) (deferred : Bool) (inProgress : List Nat) (hw : s.workers w = .finished x deferred)
      (hsub : inProgress ⊆ s.inProgress) :
      Worked st threads handled s w .ack { s.move w .acked with inProgress }
  | rest (hw : s.workers w = .acked) : Worked st threads handled s w .rest (s.move w .idle)

theorem worked {a : WorkerAct} (h : workerStep st threads handled s w a = some t) :
    Worked st threads handled s w a t := by
  cases a with
  | enter =>
    simp only [workerStep] at h
    split at h
    · rename_i hg
      cases h
      exact .enter hg.1 hg.2.1 hg.2.2.1 hg.2.2.2
    · cases h
  | exit =>
    simp only [workerStep] at h
    split at h
    · rename_i hg
      cases h
      exact .exit hg.1 hg.2.1
    · cases h
  | pop =>
    simp only [workerStep] at h
    split at h
    · rename_i x rest hw hc
      cases h
      exact .pop x rest hw hc
    · rename_i hw hc
      cases h
      exact .popEmpty hw hc
    · cases h
  | take i =>
    simp only [workerStep] at h
    split at h
    · rename_i x hw hq
      cases h
      exact .take i x hw hq
    · cases h
  | timeout =>
    simp only [workerStep] at h
    split at h
    · cases h
      exact .timeout ‹_›
    · cases h
  | extra i =>
    simp only [workerStep] at h
    split at h
    · rename_i x more y hw hq
      split at h
      · cases h
        exact .extra i x y more hw hq
      · cases h
    · cases h
  | extend =>
    simp only [workerStep] at h
    split at h
    · rename_i x more hw
      cases h
      exact .extend x more hw
    · cases h
  | mark =>
    simp only [workerStep] at h
    split at h
    · rename_i x hw
      cases h
      exact .mark x hw
    · cases h
  | begin =>
    simp only [workerStep] at h
    split at h
    · rename_i x hw
      cases h
      exact .begin x hw
    · cases h
  | put obj request =>
    simp only [workerStep] at h
    split at h
    · rename_i x deferred retried hw
      cases h
      exact .put obj request x deferred retried hw
    · cases h
  | checkFull =>
    simp only [workerStep] at h
    split at h
    · rename_i x deferred retried hw
      cases h
      refine .checked x deferred retried _ hw ?_
      split
      · exact .inl rfl
      · exact .inr rfl
    · cases h
  | flush =>
    simp only [workerStep] at h
    split at h
    · rename_i x deferred retried hw
      cases h
      exact .swap x deferred retried hw
    · cases h
  | resume =>
    simp only [workerStep] at h
    split at h
    · rename_i x deferred j retried hw
      split at h
      · rename_i hj
        cases h
        exact .flushed x deferred retried j hw (batchOf_of_flushed hj)
      · cases h
    · rename_i x deferred k retried hw
      split at h
      · rename_i raised hk
        cases h
        refine .itemsFlushed x deferred _ retried k hw ?_
        rw [AirItems.holding, hk]
      · cases h
    · cases h
  | putItem owner =>
    simp only [workerStep] at h
    split at h
    · rename_i x deferred retried hw
      cases h
      split
      · exact .putItem owner x deferred _ retried _ hw
      · exact .putItem owner x deferred _ retried _ hw
    · cases h
  | flushItems =>
    simp only [workerStep] at h
    split at h
    · rename_i x deferred retried hw
      cases h
      exact .swapItems x deferred retried hw
    · cases h
  | retry obj request =>
    simp only [workerStep] at h
    split at h
    · rename_i x deferred hw
      cases h
      exact .retry obj request x deferred hw
    · cases h
  | finish fate =>
    simp only [workerStep] at h
    split at h
    · rename_i x deferred hw
      split at h
      · cases h
      · cases h
        exact .finish fate x deferred hw
    · rename_i x deferred hw
      cases h
      exact .finishRetried fate x deferred hw
    · cases h
  | ack =>
    simp only [workerStep] at h
    split at h
    · rename_i x deferred hw
      cases h
      refine .ack x deferred _ hw ?_
      split
      · exact List.Subset.refl _
      · exact List.filter_subset_self _
    · cases h
  | rest =>
    simp only [workerStep] at h
    split at h
    · cases h
      exact .rest ‹_›
    · cases h

/-- Everything a thread of a buffer, or a flush, can do. -/
inductive Buffered (s : AirScheduler) : BufferAct → AirScheduler → Prop
  | swap : Buffered s .swap (s.swap none)
  | filter (j : Nat) (answer : Answer) (dropped : Option (Tagged AirPut)) (b : BufferThreads AirPut)
      (hf : s.buffer.filter j answer = some (dropped, b)) :
      Buffered s (.filter j answer)
        { s with buffer := b, fates := (dropped.toList.map fun x => (x.tag.serial, .dropped)) ++ s.fates }
  | push (j : Nat) (works : Bool) (pushed : Option (Tagged AirPut)) (b : BufferThreads AirPut)
      (hp : s.buffer.push j works = some (pushed, b)) :
      Buffered s (.push j works) { s with buffer := b, queue := s.queue ++ pushed.toList }
  | swapItems : Buffered s .swapItems { s with items := s.items.swap none }
  | persist (k : Nat) (batch : List AirPut) (hk : s.items.flushes k = .holding batch) :
      Buffered s (.persist k true) { s with items := s.items.setFlush k (.acking (batch.map AirPut.obj).dedup) }
  | lose (k : Nat) (batch : List AirPut) (hk : s.items.flushes k = .holding batch) :
      Buffered s (.persist k false)
        { s with items := { s.items.setFlush k (.over true) with lost := s.items.lost ++ batch } }
  | ack (k obj : Nat) (owners : List Nat) (hk : s.items.flushes k = .acking (obj :: owners)) :
      Buffered s (.ack k) { s with
        items := s.items.setFlush k (.acking owners)
        inProgress := s.inProgress.filter (· ≠ obj) }
  | acked (k : Nat) (hk : s.items.flushes k = .acking []) :
      Buffered s (.ack k) { s with items := s.items.setFlush k (.over false) }

theorem buffered {a : BufferAct} (h : s.bufferStep a = some t) : Buffered s a t := by
  cases a with
  | swap =>
    simp only [bufferStep] at h
    split at h
    · cases h
      exact .swap
    · cases h
  | filter j answer =>
    obtain ⟨⟨dropped, b⟩, hf, rfl⟩ := Option.map_eq_some_iff.mp h
    exact .filter j answer dropped b hf
  | push j works =>
    obtain ⟨⟨pushed, b⟩, hp, rfl⟩ := Option.map_eq_some_iff.mp h
    exact .push j works pushed b hp
  | swapItems =>
    simp only [bufferStep] at h
    split at h
    · cases h
      exact .swapItems
    · cases h
  | persist k works =>
    simp only [bufferStep] at h
    split at h
    · rename_i batch hk
      cases h
      cases works with
      | true => exact .persist k batch hk
      | false => exact .lose k batch hk
    · cases h
  | ack k =>
    simp only [bufferStep] at h
    split at h
    · rename_i obj owners hk
      cases h
      exact .ack k obj owners hk
    · rename_i hk
      cases h
      exact .acked k hk
    · cases h

/-- Everything a step of the teardown can do. -/
inductive Torn (s : AirScheduler) : Teardown → AirScheduler → Prop
  | stopWorkers : Torn s .stopWorkers { s with stopping := true, main := .tearing (.flush none) }
  | flush : Torn s (.flush none) { s.swap none with main := .tearing (.flush (some s.buffer.flushes.length)) }
  | flushed (j : Nat) (hj : s.buffer.batchOf j = []) :
      Torn s (.flush (some j)) { s with main := .tearing (.itemFlush none) }
  | itemFlush : Torn s (.itemFlush none)
      { s with items := s.items.swap none, main := .tearing (.itemFlush (some s.items.started)) }
  | itemsFlushed (k : Nat) (hk : s.items.holding k = []) :
      Torn s (.itemFlush (some k)) { s with main := .tearing .drainPending }
  | drainPending : Torn s .drainPending { s with
      buffer := { s.buffer with pending := [] }
      leftovers := s.buffer.pending
      main := .tearing .drainCollector }
  | drainCollector : Torn s .drainCollector { s with
      leftovers := s.leftovers ++ s.collected
      collected := []
      main := .tearing .drainQueue }
  | drainQueue (x : Tagged AirPut) (queue : List (Tagged AirPut)) (hq : s.queue = x :: queue) :
      Torn s .drainQueue { s with leftovers := s.leftovers ++ [x], queue }
  | drained (hq : s.queue = []) : Torn s .drainQueue { s with main := .tearing .dump }

theorem torn {step : Teardown} (h : s.tearStep step = some t) : Torn s step t := by
  unfold tearStep at h
  split at h
  · cases h
    exact .stopWorkers
  · cases h
    exact .flush
  · split at h
    · cases h
      exact .flushed _ (batchOf_of_flushed ‹_›)
    · cases h
  · cases h
    exact .itemFlush
  · split at h
    · rename_i raised hk
      cases h
      refine .itemsFlushed _ ?_
      rw [AirItems.holding, hk]
    · cases h
  · cases h
    exact .drainPending
  · cases h
    exact .drainCollector
  · split at h
    · rename_i x queue hq
      cases h
      exact .drainQueue x queue hq
    · rename_i hq
      cases h
      exact .drained hq
  · cases h

/-- Everything a step of the main thread can do. -/
inductive Steered (st : Setting) (threads : Nat) (s : AirScheduler) : MainAct → AirScheduler → Prop
  | seed (obj : Nat) (request : Request) (hm : s.main = .seeding none) :
      Steered st threads s (.seed obj request) (s.put obj request)
  | seedFlush (hm : s.main = .seeding none) :
      Steered st threads s .seedFlush { s.swap none with main := .seeding (some s.buffer.flushes.length) }
  | seedReturn (j : Nat) (hm : s.main = .seeding (some j)) (hj : s.buffer.batchOf j = []) :
      Steered st threads s .seedReturn { s with main := .seeding none }
  | start (hm : s.main = .seeding none) : Steered st threads s .start { s with main := .polling 0 }
  | stop : Steered st threads s .stop { s with stopped := true }
  | check (streak : Nat) (hm : s.main = .polling streak) :
      Steered st threads s .loop { s with main := .checking streak .pending false }
  | leave (streak : Nat) (hm : s.main = .polling streak) :
      Steered st threads s .loop { s with main := .tearing .stopWorkers }
  | timeUp (streak : Nat) (hm : s.main = .polling streak) :
      Steered st threads s .timeUp { s with stopped := true, main := .tearing .stopWorkers }
  | found (streak : Nat) (next : CheckRead) (slipped : Bool) (hm : s.main = .checking streak next slipped) :
      Steered st threads s .read { s with main := .polling 0 }
  | next (streak : Nat) (next next' : CheckRead) (slipped : Bool) (hm : s.main = .checking streak next slipped)
      (hf : s.findsNothing next = true) (hn : nextRead threads next = some next') :
      Steered st threads s .read { s with main := .checking streak next' slipped }
  | again (streak : Nat) (next : CheckRead) (slipped : Bool) (hm : s.main = .checking streak next slipped) :
      Steered st threads s .read { s with main := .polling (streak + 1) }
  | finish (streak : Nat) (next : CheckRead) (slipped : Bool) (hm : s.main = .checking streak next slipped)
      (hf : s.findsNothing next = true) (hn : nextRead threads next = none) (hd : st.DONE_CHECK_TIMES ≤ streak + 1) :
      Steered st threads s .read { s with main := .done }
  | tearDone (hm : s.main = .done) : Steered st threads s .tear { s with main := .tearing .stopWorkers }
  | tear (step : Teardown) (t : AirScheduler) (hm : s.main = .tearing step) (h : Torn s step t) :
      Steered st threads s .tear t
  | dump (cut : Option Nat) (hm : s.main = .tearing .dump) :
      Steered st threads s (.dump cut) { s with
        main := .ended
        dumpFile := s.dumpFile ++
          if st.DUMP_UNFINISHED_ON_EXIT then (cut.map s.leftovers.take).getD s.leftovers else [] }

theorem steered {a : MainAct} (h : mainStep st threads s a = some t) : Steered st threads s a t := by
  cases a with
  | seed obj request =>
    simp only [mainStep] at h
    split at h
    · cases h
      exact .seed obj request ‹_›
    · cases h
  | seedFlush =>
    simp only [mainStep] at h
    split at h
    · cases h
      exact .seedFlush ‹_›
    · cases h
  | seedReturn =>
    simp only [mainStep] at h
    split at h
    · rename_i j hm
      split at h
      · cases h
        exact .seedReturn j hm (batchOf_of_flushed ‹_›)
      · cases h
    · cases h
  | start =>
    simp only [mainStep] at h
    split at h
    · rename_i hg
      cases h
      exact .start hg.1
    · cases h
  | stop =>
    cases h
    exact .stop
  | loop =>
    simp only [mainStep] at h
    split at h
    · rename_i streak hm
      cases h
      split
      · exact .leave streak hm
      · exact .check streak hm
    · cases h
  | timeUp =>
    simp only [mainStep] at h
    split at h
    · rename_i streak hm
      split at h
      · cases h
        exact .timeUp streak hm
      · cases h
    · cases h
  | read =>
    simp only [mainStep] at h
    split at h
    · rename_i streak next slipped hm
      split at h
      · rename_i hf
        split at h
        · rename_i next' hn
          cases h
          exact .next streak next next' slipped hm hf hn
        · rename_i hn
          cases h
          split
          · exact .finish streak next slipped hm hf hn ‹_›
          · exact .again streak next slipped hm
      · cases h
        exact .found streak next slipped hm
    · cases h
  | tear =>
    simp only [mainStep] at h
    split at h
    · cases h
      exact .tearDone ‹_›
    · rename_i step hm
      exact .tear step t hm (torn h)
    · cases h
  | dump cut =>
    simp only [mainStep] at h
    split at h
    · cases h
      exact .dump cut ‹_›
    · cases h

theorem worked_main {a : WorkerAct} (h : Worked st threads handled s w a t) : t.main = s.main := by
  cases h with
  | _ => rfl

theorem buffered_main {a : BufferAct} (h : Buffered s a t) : t.main = s.main := by
  cases h with
  | _ => rfl

theorem torn_main {step : Teardown} (hm : s.main = .tearing step) (h : Torn s step t) : ∃ step, t.main = .tearing step := by
  cases h with
  | drainQueue => exact ⟨_, hm⟩
  | _ => exact ⟨_, rfl⟩

theorem mark_eq (s : AirScheduler) (slip : Bool) : s.mark slip = { s with main := (s.mark slip).main } := by
  unfold mark
  split
  · rfl
  · rfl

/-- A step, with what it slips past the check that the main thread makes. -/
theorem step_cases (h : s.step st threads handled a = some t) :
    ∃ u, s.turn st threads handled a = some u ∧
      ((∃ streak next slipped, s.main = .checking streak next slipped ∧ t = u.mark (s.slips next a)) ∨
        (∀ streak next slipped, s.main ≠ .checking streak next slipped) ∧ s.main ≠ .ended ∧ t = u) := by
  unfold step at h
  split at h
  · cases h
  · rename_i streak next slipped hm
    obtain ⟨u, hu, rfl⟩ := Option.map_eq_some_iff.mp h
    exact ⟨u, hu, .inl ⟨streak, next, slipped, hm, rfl⟩⟩
  · rename_i hended hchecking
    exact ⟨t, h, .inr ⟨hchecking, hended, rfl⟩⟩

theorem mark_of_checking {streak : Nat} {slipped slip : Bool} (h : s.main = .checking streak next slipped) :
    s.mark slip = { s with main := .checking streak next (slipped || slip) } := by
  unfold mark
  rw [h]

end AirScheduler

end Netspy
