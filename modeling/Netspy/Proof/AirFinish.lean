import Netspy.Proof.AirScheduler

/-!
# When a crawl finishes

A check of `_is_done` reads one place after the other. What it has read as empty stays
so unless a step puts something there, and a flush that holds something is run by a
worker that is still to be read, or was seen (`Seen`). So if nothing slips past the last
check, there is nothing left when it ends (`finishes_idle`).
-/

namespace Netspy

/-- What a worker waits for. -/
def AirPhase.wait : AirPhase → AirWait
  | .busy _ _ wait _ => wait
  | _ => .running

/-- It has no request, and is not about to end one. -/
def AirPhase.AtRest (phase : AirPhase) : Prop := phase.isBusy = false ∧ phase.isQuiet = false

theorem AirPhase.AtRest.wait {phase : AirPhase} (h : phase.AtRest) : phase.wait = .running := by
  cases phase with
  | busy => cases h.1
  | _ => rfl

namespace AirScheduler

variable {st : Setting} {threads : Nat} {handled : Bool} {s t : AirScheduler} {a : AirAct} {w : Nat}

/-! ## Flushes and who runs them -/

/-- A worker whose flush holds something waits for it. -/
structure Linked (threads : Nat) (s : AirScheduler) : Prop where
  flush : ∀ j w, s.buffer.batchOf j ≠ [] → s.runner j = some w → (s.workers w).wait = .flush j
  items : ∀ k w, s.items.holding k ≠ [] → s.items.runner k = some w → (s.workers w).wait = .itemFlush k
  batch : ∀ k, s.items.flushes k ≠ .holding []
  begun : ∀ k, s.items.started ≤ k → s.items.holding k = []
  threads : ∀ w, threads ≤ w → s.workers w = .idle

theorem Linked.lt (hl : Linked threads s) (h : s.workers w ≠ .idle) : w < threads :=
  Nat.lt_of_not_le fun hle => h (hl.threads w hle)

/-- A worker that does not wait for a flush goes on. -/
theorem Linked.move (hl : Linked threads s) (hw : w < threads) {phase : AirPhase}
    (hf : ∀ j, (s.workers w).wait = .flush j → s.buffer.batchOf j = [])
    (hi : ∀ k, (s.workers w).wait = .itemFlush k → s.items.holding k = []) : Linked threads (s.move w phase) := by
  refine ⟨fun j v hj hr => ?_, fun k v hk hr => ?_, hl.batch, hl.begun, fun v hv => ?_⟩
  · have hwait := hl.flush j v hj hr
    refine (congrArg AirPhase.wait (Function.update_of_ne ?_ ..)).trans hwait
    rintro rfl
    exact hj (hf j hwait)
  · have hwait := hl.items k v hk hr
    refine (congrArg AirPhase.wait (Function.update_of_ne ?_ ..)).trans hwait
    rintro rfl
    exact hk (hi k hwait)
  · exact (Function.update_of_ne (Nat.ne_of_gt (Nat.lt_of_lt_of_le hw hv)) ..).trans (hl.threads v hv)

theorem Linked.move_of_wait (hl : Linked threads s) {old phase : AirPhase} (hold : s.workers w = old) (hw : w < threads)
    (hf : ∀ j, old.wait ≠ .flush j) (hi : ∀ k, old.wait ≠ .itemFlush k) : Linked threads (s.move w phase) := by
  subst hold
  exact hl.move hw (fun j h => absurd h (hf j)) fun k h => absurd h (hi k)

theorem holding_swap_of_ne (b : AirItems) (runner : Option Nat) {k : Nat} (hk : k ≠ b.started) :
    (b.swap runner).holding k = b.holding k := by
  unfold AirItems.holding AirItems.swap
  dsimp only
  rw [Function.update_of_ne hk]

theorem holding_swap_self (b : AirItems) (runner : Option Nat) : (b.swap runner).holding b.started = b.pending := by
  unfold AirItems.holding AirItems.swap
  dsimp only
  rw [Function.update_self]
  cases hp : b.pending with
  | nil => rfl
  | cons x rest => rfl

theorem holding_setFlush_of_ne (b : AirItems) {i k : Nat} (f : AirItemFlush) (hk : k ≠ i) :
    (b.setFlush i f).holding k = b.holding k := by
  unfold AirItems.holding AirItems.setFlush
  dsimp only
  rw [Function.update_of_ne hk]

/-- A flush of items that is past its swap holds no more. -/
theorem holding_of_setFlush {b : AirItems} {i k : Nat} {f : AirItemFlush} (hf : ∀ batch, f ≠ .holding batch)
    (h : (b.setFlush k f).holding i ≠ []) : b.holding i ≠ [] := by
  by_cases hik : i = k
  · subst hik
    refine absurd ?_ h
    unfold AirItems.holding AirItems.setFlush
    dsimp only
    rw [Function.update_self]
    cases f with
    | holding batch => exact absurd rfl (hf batch)
    | _ => rfl
  · rwa [holding_setFlush_of_ne b f hik] at h

/-- A flush of requests begins in a thread `r`. -/
theorem Linked.swap (hl : Linked threads s) {r : Option Nat}
    (hr : ∀ w, r = some w → s.buffer.pending ≠ [] → (s.workers w).wait = .flush s.buffer.flushes.length) :
    Linked threads (s.swap r) := by
  refine ⟨fun j v hj hv => ?_, hl.items, hl.batch, hl.begun, hl.threads⟩
  by_cases hlast : j = s.buffer.flushes.length
  · subst hlast
    have hself : (s.swap r).runner s.buffer.flushes.length = r := Function.update_self ..
    refine hr v (hself.symm.trans hv) ?_
    rwa [← s.buffer.batchOf_swap_self]
  · refine hl.flush j v ?_ ((Function.update_of_ne hlast ..).symm.trans hv)
    rwa [← s.buffer.batchOf_swap_of_ne hlast]

/-- A flush of items begins in a thread `r`. -/
theorem Linked.swapItems (hl : Linked threads s) {r : Option Nat}
    (hr : ∀ w, r = some w → s.items.pending ≠ [] → (s.workers w).wait = .itemFlush s.items.started) :
    Linked threads { s with items := s.items.swap r } := by
  refine ⟨hl.flush, fun k v hk hv => ?_, fun k => ?_, fun k hk => ?_, hl.threads⟩
  · by_cases hlast : k = s.items.started
    · subst hlast
      have hself : (s.items.swap r).runner s.items.started = r := Function.update_self ..
      refine hr v (hself.symm.trans hv) ?_
      rwa [← holding_swap_self s.items r]
    · refine hl.items k v ?_ ((Function.update_of_ne hlast ..).symm.trans hv)
      rwa [← holding_swap_of_ne s.items r hlast]
  · show Function.update s.items.flushes s.items.started _ k ≠ _
    by_cases hlast : k = s.items.started
    · subst hlast
      rw [Function.update_self]
      cases hp : s.items.pending with
      | nil => exact nofun
      | cons x rest => exact nofun
    · rw [Function.update_of_ne hlast]
      exact hl.batch k
  · have hk : s.items.started + 1 ≤ k := hk
    show (s.items.swap r).holding k = []
    rw [holding_swap_of_ne s.items r (by omega)]
    exact hl.begun k (by omega)

/-- A flush of items that is past its swap goes on. -/
theorem Linked.setFlush (hl : Linked threads s) {k : Nat} {f : AirItemFlush} (hf : ∀ batch, f ≠ .holding batch)
    {lost : List AirPut} : Linked threads { s with items := { s.items.setFlush k f with lost } } := by
  refine ⟨hl.flush, fun i v hi hv => hl.items i v (holding_of_setFlush hf hi) hv, fun i => ?_, fun i hi => ?_, hl.threads⟩
  · show Function.update s.items.flushes k f i ≠ _
    by_cases hik : i = k
    · subst hik
      rw [Function.update_self]
      exact hf []
    · rw [Function.update_of_ne hik]
      exact hl.batch i
  · by_contra h
    exact holding_of_setFlush hf h (hl.begun i hi)

/-! ## Steps keep the links -/

theorem Linked.congr (hl : Linked threads s) (hb : t.buffer = s.buffer) (hr : t.runner = s.runner) (hi : t.items = s.items)
    (hw : t.workers = s.workers) : Linked threads t := by
  refine ⟨?_, ?_, ?_, ?_, ?_⟩
  · rw [hb, hr, hw]
    exact hl.flush
  · rw [hi, hw]
    exact hl.items
  · rw [hi]
    exact hl.batch
  · rw [hi]
    exact hl.begun
  · rw [hw]
    exact hl.threads

theorem Linked.work (hl : Linked threads s) {a : WorkerAct} (h : Worked st threads handled s w a t) : Linked threads t := by
  cases h with
  | enter hw hlt | exit hw hlt => exact hl.move_of_wait hw hlt nofun nofun
  | popEmpty hw | timeout hw | begin _ hw | checked _ _ _ _ hw | rest hw =>
    exact hl.move_of_wait hw (hl.lt (hw ▸ nofun)) nofun nofun
  | pop _ _ hw | take _ _ hw | extra _ _ _ _ hw | extend _ _ hw | mark _ hw | ack _ _ _ hw | finish _ _ _ hw
  | finishRetried _ _ _ hw =>
    exact (hl.move_of_wait hw (hl.lt (hw ▸ nofun)) nofun nofun).congr rfl rfl rfl rfl
  | flushed x deferred retried j hw hj =>
    refine hl.move (hl.lt (hw ▸ nofun)) (fun i hi => ?_) fun k hk => ?_
    · rw [hw] at hi
      cases hi
      exact hj
    · rw [hw] at hk
      cases hk
  | itemsFlushed x deferred deferred' retried k hw hk =>
    refine hl.move (hl.lt (hw ▸ nofun)) (fun j hj => ?_) fun i hi => ?_
    · rw [hw] at hj
      cases hj
    · rw [hw] at hi
      cases hi
      exact hk
  | put obj request x deferred retried hw =>
    have h : Linked threads (s.move w (.busy x deferred .put retried)) :=
      hl.move_of_wait hw (hl.lt (hw ▸ nofun)) nofun nofun
    exact ⟨h.flush, h.items, h.batch, h.begun, h.threads⟩
  | retry obj request x deferred hw =>
    have h : Linked threads (s.move w (.busy x deferred .put true)) :=
      hl.move_of_wait hw (hl.lt (hw ▸ nofun)) nofun nofun
    exact ⟨h.flush, h.items, h.batch, h.begun, h.threads⟩
  | putItem owner x deferred deferred' retried wait hw =>
    have h : Linked threads (s.move w (.busy x deferred' wait retried)) :=
      hl.move_of_wait hw (hl.lt (hw ▸ nofun)) nofun nofun
    exact ⟨h.flush, h.items, h.batch, h.begun, h.threads⟩
  | swap x deferred retried hw =>
    have h : Linked threads (s.move w (.busy x deferred (.flush s.buffer.flushes.length) retried)) :=
      hl.move_of_wait hw (hl.lt (hw ▸ nofun)) nofun nofun
    refine (h.swap (r := some w) ?_).congr rfl rfl rfl rfl
    rintro _ ⟨⟩ -
    exact congrArg AirPhase.wait (Function.update_self w _ s.workers)
  | swapItems x deferred retried hw =>
    have h : Linked threads (s.move w (.busy x deferred (.itemFlush s.items.started) retried)) :=
      hl.move_of_wait hw (hl.lt (hw ▸ nofun)) nofun nofun
    refine (h.swapItems (r := some w) ?_).congr rfl rfl rfl rfl
    rintro _ ⟨⟩ -
    exact congrArg AirPhase.wait (Function.update_self w _ s.workers)

/-- A flush of requests goes on. -/
theorem Linked.drain (hl : Linked threads s) {b : BufferThreads AirPut} {raises : Bool} (hb : s.buffer.Drains b raises)
    {queue : List (Tagged AirPut)} {fates : List (Nat × AirFate)} :
    Linked threads { s with buffer := b, queue, fates } :=
  ⟨fun j v hj => hl.flush j v (hb.batch j hj), hl.items, hl.batch, hl.begun, hl.threads⟩

theorem Linked.buffer (hl : Linked threads s) {a : BufferAct} (h : Buffered s a t) : Linked threads t := by
  cases h with
  | swap => exact hl.swap (by rintro _ ⟨⟩)
  | filter _ _ _ _ hf => exact hl.drain (BufferThreads.drains_filter hf).2
  | push _ _ _ _ hp => exact hl.drain (BufferThreads.drains_push hp).2
  | swapItems => exact hl.swapItems (by rintro _ ⟨⟩)
  | persist | lose | acked => exact hl.setFlush (by rintro _ ⟨⟩)
  | ack => exact (hl.setFlush (by rintro _ ⟨⟩)).congr rfl rfl rfl rfl

theorem Linked.tear (hl : Linked threads s) {step : Teardown} (h : Torn s step t) : Linked threads t := by
  cases h with
  | flush => exact (hl.swap (by rintro _ ⟨⟩)).congr rfl rfl rfl rfl
  | itemFlush => exact (hl.swapItems (r := none) (by rintro _ ⟨⟩)).congr rfl rfl rfl rfl
  | drainPending => exact ⟨hl.flush, hl.items, hl.batch, hl.begun, hl.threads⟩
  | _ => exact hl.congr rfl rfl rfl rfl

theorem Linked.steer (hl : Linked threads s) {a : MainAct} (h : Steered st threads s a t) : Linked threads t := by
  cases h with
  | seed => exact ⟨hl.flush, hl.items, hl.batch, hl.begun, hl.threads⟩
  | seedFlush => exact (hl.swap (by rintro _ ⟨⟩)).congr rfl rfl rfl rfl
  | tear step _ _ h => exact hl.tear h
  | _ => exact hl.congr rfl rfl rfl rfl

theorem Linked.turn (hl : Linked threads s) (h : s.turn st threads handled a = some t) : Linked threads t := by
  cases a with
  | main a => exact hl.steer (steered h)
  | worker w a => exact hl.work (worked h)
  | buffer a => exact hl.buffer (buffered h)

theorem Linked.step (hl : Linked threads s) (h : s.step st threads handled a = some t) : Linked threads t := by
  obtain ⟨u, hu, ⟨_, next, _, -, rfl⟩ | ⟨-, -, rfl⟩⟩ := step_cases h
  · rw [mark_eq]
    exact (hl.turn hu).congr rfl rfl rfl rfl
  · exact hl.turn hu

theorem linked_of_reachable (h : (airMachine st threads handled).Reachable s) : Linked threads s := by
  refine Machine.Within.induct (fun u hu => ?_) (fun u a v hl _ hv => hl.step hv) h
  cases hu
  exact ⟨nofun, nofun, nofun, fun _ _ => rfl, fun _ _ => rfl⟩

/-! ## What a check has seen -/

/-- What a check that nothing has slipped past knows when `next` is to be read. -/
structure Seen (threads : Nat) (s : AirScheduler) (next : CheckRead) : Prop where
  pending : next.pendingRead = true → s.buffer.pending = [] ∧ ∀ j, s.buffer.batchOf j ≠ [] → s.runner j ≠ none
  collector : next.collectorRead = true → s.collected = [] ∧ s.items.lost = []
  items : next.itemsRead = true → s.items.pending = [] ∧ ∀ k, s.items.holding k ≠ [] → s.items.runner k ≠ none
  workers : ∀ w < threads, next.workerRead w = true → (s.workers w).AtRest

theorem collectorRead_of_workerRead {next : CheckRead} (h : next.workerRead w = true) : next.collectorRead = true := by
  cases next with
  | worker | queue => rfl
  | _ => cases h

variable {next : CheckRead}

theorem Seen.move (hs : Seen threads s next) {phase : AirPhase} (hp : next.workerRead w = true → phase.AtRest) :
    Seen threads (s.move w phase) next := by
  refine ⟨hs.pending, hs.collector, hs.items, fun v hv hr => ?_⟩
  by_cases hvw : v = w
  · subst hvw
    have hself : (s.move v phase).workers v = phase := Function.update_self ..
    rw [hself]
    exact hp hr
  · have hne : (s.move w phase).workers v = s.workers v := Function.update_of_ne hvw ..
    rw [hne]
    exact hs.workers v hv hr

/-- A worker that is not at rest has not been read, so it may go on. -/
theorem Seen.move_of_busy (hs : Seen threads s next) (hl : Linked threads s) {old phase : AirPhase}
    (hw : s.workers w = old) (hold : ¬old.AtRest) : Seen threads (s.move w phase) next := by
  subst hw
  refine hs.move fun hr => absurd (hs.workers w (hl.lt fun hidle => hold ?_) hr) hold
  rw [hidle]
  exact ⟨rfl, rfl⟩

theorem Seen.swap (hs : Seen threads s next) {r : Option Nat} : Seen threads (s.swap r) next := by
  refine ⟨fun hr => ?_, hs.collector, hs.items, hs.workers⟩
  obtain ⟨hpending, hflushes⟩ := hs.pending hr
  refine ⟨rfl, fun j hj => ?_⟩
  by_cases hlast : j = s.buffer.flushes.length
  · subst hlast
    exact absurd (s.buffer.batchOf_swap_self.trans hpending) hj
  · have hrunner : (s.swap r).runner j = s.runner j := Function.update_of_ne hlast ..
    rw [hrunner]
    exact hflushes j fun h => hj ((s.buffer.batchOf_swap_of_ne hlast).trans h)

theorem Seen.swapItems (hs : Seen threads s next) {r : Option Nat} :
    Seen threads { s with items := s.items.swap r } next := by
  refine ⟨hs.pending, hs.collector, fun hr => ?_, hs.workers⟩
  obtain ⟨hpending, hflushes⟩ := hs.items hr
  refine ⟨rfl, fun k hk => ?_⟩
  by_cases hlast : k = s.items.started
  · subst hlast
    exact absurd ((holding_swap_self s.items r).trans hpending) hk
  · have hrunner : (s.items.swap r).runner k = s.items.runner k := Function.update_of_ne hlast ..
    show (s.items.swap r).runner k ≠ none
    rw [hrunner]
    exact hflushes k fun h => hk ((holding_swap_of_ne s.items r hlast).trans h)

theorem Seen.work (hs : Seen threads s next) (hl : Linked threads s) {a : WorkerAct} (h : Worked st threads handled s w a t)
    (hslips : s.slips next (.worker w a) = false) : Seen threads t next := by
  cases h with
  | enter | exit | popEmpty | timeout | rest => exact hs.move fun _ => ⟨rfl, rfl⟩
  | pop x rest hw hc =>
    -- the collector had something, so it has not been read
    have hr : next.collectorRead ≠ true := fun hr => List.cons_ne_nil x rest (hc.symm.trans (hs.collector hr).1)
    have h : Seen threads (s.move w (.marked x)) next :=
      hs.move fun hw => absurd (collectorRead_of_workerRead hw) hr
    exact ⟨h.pending, fun hc => absurd hc hr, h.items, h.workers⟩
  | take i x =>
    have h : Seen threads (s.move w (.took x [])) next := hs.move fun hr => absurd (hslips.symm.trans hr) nofun
    exact ⟨h.pending, h.collector, h.items, h.workers⟩
  | extra i x y more hw =>
    have h : Seen threads (s.move w (.took x (more ++ [y]))) next :=
      hs.move_of_busy hl hw (by rintro ⟨-, ⟨⟩⟩)
    exact ⟨h.pending, h.collector, h.items, h.workers⟩
  | extend x more hw =>
    have h : Seen threads (s.move w (.extended x)) next :=
      hs.move_of_busy hl hw (by rintro ⟨-, ⟨⟩⟩)
    refine ⟨h.pending, fun hr => ?_, h.items, h.workers⟩
    simp only [slips, hw, hr, Bool.true_and, Bool.not_eq_false', List.isEmpty_iff] at hslips
    rw [hslips, List.append_nil]
    exact hs.collector hr
  | mark x hw =>
    have h : Seen threads (s.move w (.marked x)) next :=
      hs.move_of_busy hl hw (by rintro ⟨-, ⟨⟩⟩)
    exact ⟨h.pending, h.collector, h.items, h.workers⟩
  | begin x hw => exact hs.move_of_busy hl hw (by rintro ⟨-, ⟨⟩⟩)
  | put obj request x deferred retried hw =>
    have h : Seen threads (s.move w (.busy x deferred .put retried)) next :=
      hs.move_of_busy hl hw (by rintro ⟨⟨⟩, -⟩)
    exact ⟨fun hr => absurd (hslips.symm.trans hr) nofun, h.collector, h.items, h.workers⟩
  | retry obj request x deferred hw =>
    have h : Seen threads (s.move w (.busy x deferred .put true)) next :=
      hs.move_of_busy hl hw (by rintro ⟨⟨⟩, -⟩)
    exact ⟨fun hr => absurd (hslips.symm.trans hr) nofun, h.collector, h.items, h.workers⟩
  | putItem owner x deferred deferred' retried wait hw =>
    have h : Seen threads (s.move w (.busy x deferred' wait retried)) next :=
      hs.move_of_busy hl hw (by rintro ⟨⟨⟩, -⟩)
    exact ⟨h.pending, h.collector, fun hr => absurd (hslips.symm.trans hr) nofun, h.workers⟩
  | swap x deferred retried hw =>
    exact (hs.move_of_busy hl hw (by rintro ⟨⟨⟩, -⟩)).swap (r := some w)
  | swapItems x deferred retried hw =>
    exact (hs.move_of_busy hl hw (by rintro ⟨⟨⟩, -⟩)).swapItems (r := some w)
  | checked x deferred retried wait hw | flushed x deferred retried j hw | itemsFlushed x deferred deferred' retried k hw =>
    exact hs.move_of_busy hl hw (by rintro ⟨⟨⟩, -⟩)
  | finish fate x deferred hw =>
    have h : Seen threads (s.move w (.finished x deferred)) next :=
      hs.move_of_busy hl hw (by rintro ⟨⟨⟩, -⟩)
    exact ⟨h.pending, h.collector, h.items, h.workers⟩
  | finishRetried fate x deferred hw =>
    exact hs.move_of_busy hl hw (by rintro ⟨⟨⟩, -⟩)
  | ack x deferred inProgress hw =>
    have h : Seen threads (s.move w .acked) next :=
      hs.move_of_busy hl hw (by rintro ⟨⟨⟩, -⟩)
    exact ⟨h.pending, h.collector, h.items, h.workers⟩

/-- A flush of requests goes on, and puts nothing back where the check has looked. -/
theorem Seen.drain (hs : Seen threads s next) {b : BufferThreads AirPut} {raises : Bool} (hb : s.buffer.Drains b raises)
    (hraises : next.pendingRead = true → raises = false) {queue : List (Tagged AirPut)} {fates : List (Nat × AirFate)} :
    Seen threads { s with buffer := b, queue, fates } next := by
  refine ⟨fun hr => ?_, hs.collector, hs.items, hs.workers⟩
  obtain ⟨hpending, hflushes⟩ := hs.pending hr
  exact ⟨(hb.pending (hraises hr)).trans hpending, fun j hj => hflushes j (hb.batch j hj)⟩

/-- A flush of items goes on. -/
theorem Seen.setFlush (hs : Seen threads s next) {k : Nat} {f : AirItemFlush} (hf : ∀ batch, f ≠ .holding batch)
    {lost : List AirPut} (hlost : next.collectorRead = true → lost = []) :
    Seen threads { s with items := { s.items.setFlush k f with lost } } next := by
  refine ⟨hs.pending, fun hr => ⟨(hs.collector hr).1, hlost hr⟩, fun hr => ?_, hs.workers⟩
  exact ⟨(hs.items hr).1, fun i hi => (hs.items hr).2 i (holding_of_setFlush hf hi)⟩

theorem Seen.buffer (hs : Seen threads s next) {a : BufferAct} (h : Buffered s a t)
    (hslips : s.slips next (.buffer a) = false) : Seen threads t next := by
  cases h with
  | swap => exact hs.swap
  | filter j answer dropped b hf =>
    refine hs.drain (BufferThreads.drains_filter hf).2 fun hr => ?_
    cases answer with
    | raised => rwa [slips, hr] at hslips
    | fresh | seen => rfl
  | push j works pushed b hp =>
    refine hs.drain (BufferThreads.drains_push hp).2 fun hr => ?_
    cases works with
    | true => rfl
    | false => exact absurd (hslips.symm.trans hr) nofun
  | swapItems => exact hs.swapItems
  | persist | acked => exact hs.setFlush (by rintro _ ⟨⟩) fun hr => (hs.collector hr).2
  | lose => exact hs.setFlush (by rintro _ ⟨⟩) fun hr => absurd (hslips.symm.trans hr) nofun
  | ack k obj owners =>
    have h : Seen threads { s with items := s.items.setFlush k (.acking owners) } next :=
      hs.setFlush (by rintro _ ⟨⟩) fun hr => (hs.collector hr).2
    exact ⟨h.pending, h.collector, h.items, h.workers⟩

/-! ## What the reads find -/

theorem lt_of_batchOf_ne_nil {b : BufferThreads AirPut} {j : Nat} (h : b.batchOf j ≠ []) : j < b.flushes.length := by
  by_contra hge
  refine h ?_
  rw [BufferThreads.batchOf, List.getElem?_eq_none (Nat.le_of_not_lt hge)]
  rfl

theorem flushed_eq_false {j : Nat} (h : s.buffer.batchOf j ≠ []) : s.flushed j = false :=
  Bool.eq_false_of_not_eq_true fun hj => h (batchOf_of_flushed hj)

theorem runner_of_pending (h : s.unseen .pending = false) {j : Nat} (hj : s.buffer.batchOf j ≠ []) : s.runner j ≠ none := by
  intro hr
  refine absurd h (Bool.not_eq_false _ |>.mpr (List.any_eq_true.mpr ⟨j, ?_, ?_⟩))
  · exact List.mem_range.mpr (lt_of_batchOf_ne_nil hj)
  · rw [hr, flushed_eq_false hj]
    rfl

theorem runner_of_items (hl : Linked threads s) (h : s.unseen .items = false) {k : Nat} (hk : s.items.holding k ≠ []) :
    s.items.runner k ≠ none := by
  intro hr
  refine absurd h (Bool.not_eq_false _ |>.mpr (List.any_eq_true.mpr ⟨k, ?_, ?_⟩))
  · exact List.mem_range.mpr (Nat.lt_of_not_le fun hle => hk (hl.begun k hle))
  · rw [hr, List.isEmpty_eq_false_iff.mpr hk]
    rfl

theorem lost_of_collector (h : s.unseen .collector = false) (hp : s.inProgress = []) : s.items.lost = [] := by
  cases hlost : s.items.lost with
  | nil => rfl
  | cons x rest =>
    rw [unseen, hlost, hp] at h
    simp at h

/-- A read that finds nothing, and that nothing passes unseen. -/
theorem Seen.read (hs : Seen threads s next) (hl : Linked threads s) {next' : CheckRead}
    (hf : s.findsNothing next = true) (hu : s.unseen next = false) (hn : nextRead threads next = some next') :
    Seen threads s next' := by
  cases next with
  | pending =>
    cases hn
    exact ⟨fun _ => ⟨List.isEmpty_iff.mp hf, fun j => runner_of_pending hu⟩, nofun, nofun, nofun⟩
  | collector =>
    cases hn
    obtain ⟨hcollected, hprogress⟩ := (Bool.and_eq_true _ _).mp hf
    refine ⟨hs.pending, fun _ => ⟨List.isEmpty_iff.mp hcollected, ?_⟩, nofun, nofun⟩
    exact lost_of_collector hu (List.isEmpty_iff.mp hprogress)
  | collectorQueue =>
    cases hn
    exact ⟨hs.pending, hs.collector, nofun, nofun⟩
  | items =>
    have hitems : s.items.pending = [] ∧ ∀ k, s.items.holding k ≠ [] → s.items.runner k ≠ none :=
      ⟨List.isEmpty_iff.mp hf, fun k => runner_of_items hl hu⟩
    cases hn
    split
    · refine ⟨hs.pending, hs.collector, fun _ => hitems, fun w _ hr => ?_⟩
      exact absurd (of_decide_eq_true (p := w < 0) hr) (Nat.not_lt_zero w)
    · exact ⟨hs.pending, hs.collector, fun _ => hitems, fun w hw => absurd (Nat.zero_lt_of_lt hw) ‹_›⟩
  | worker i =>
    have hworkers (w : Nat) (hw : w < threads) (hi : w ≤ i) : (s.workers w).AtRest := by
      rcases Nat.lt_or_eq_of_le hi with hlt | rfl
      · exact hs.workers w hw (decide_eq_true hlt)
      · exact ⟨(Bool.not_eq_true' _).mp hf, hu⟩
    cases hn
    split
    · exact ⟨hs.pending, hs.collector, hs.items, fun w hw hr => hworkers w hw (Nat.le_of_lt_succ (of_decide_eq_true hr))⟩
    · exact ⟨hs.pending, hs.collector, hs.items, fun w hw _ => hworkers w hw (by omega)⟩
  | queue => cases hn

/-- Nothing is left. -/
structure Idle (s : AirScheduler) : Prop where
  pending : s.buffer.pending = []
  batch : ∀ j, s.buffer.batchOf j = []
  queue : s.queue = []
  collected : s.collected = []
  workers : ∀ w, (s.workers w).AtRest
  itemsPending : s.items.pending = []
  holding : ∀ k, s.items.holding k = []
  lost : s.items.lost = []

/-- No worker runs a flush if all are at rest. -/
theorem Seen.idle (hs : Seen threads s .queue) (hl : Linked threads s) (hq : s.queue = []) : Idle s := by
  have hworkers (w : Nat) : (s.workers w).AtRest := by
    rcases Nat.lt_or_ge w threads with hlt | hge
    · exact hs.workers w hlt rfl
    · rw [hl.threads w hge]
      exact ⟨rfl, rfl⟩
  obtain ⟨hpending, hflushes⟩ := hs.pending rfl
  obtain ⟨hcollected, hlost⟩ := hs.collector rfl
  obtain ⟨hitems, hholding⟩ := hs.items rfl
  refine ⟨hpending, fun j => ?_, hq, hcollected, hworkers, hitems, fun k => ?_, hlost⟩
  · by_contra hj
    obtain ⟨w, hw⟩ := Option.ne_none_iff_exists'.mp (hflushes j hj)
    exact absurd ((hworkers w).wait.symm.trans (hl.flush j w hj hw)) nofun
  · by_contra hk
    obtain ⟨w, hw⟩ := Option.ne_none_iff_exists'.mp (hholding k hk)
    exact absurd ((hworkers w).wait.symm.trans (hl.items k w hk hw)) nofun

theorem Idle.seen (h : Idle s) (threads : Nat) : Seen threads s .queue :=
  ⟨fun _ => ⟨h.pending, fun j hj => absurd (h.batch j) hj⟩, fun _ => ⟨h.collected, h.lost⟩,
    fun _ => ⟨h.itemsPending, fun k hk => absurd (h.holding k) hk⟩, fun w _ _ => h.workers w⟩

theorem Idle.work (h : Idle s) (hl : Linked threads s) {a : WorkerAct} (ht : Worked st threads handled s w a t) :
    Idle t := by
  have hrest := h.workers w
  have hq : t.queue = [] ∧ s.slips .queue (.worker w a) = false := by
    cases ht with
    | take i x hw hq =>
      rw [h.queue] at hq
      cases hq
    | extra i x y more hw hq =>
      rw [h.queue] at hq
      cases hq
    | put _ _ _ _ _ hw | retry _ _ _ _ hw | putItem _ _ _ _ _ _ hw =>
      rw [hw] at hrest
      cases hrest.1
    | extend x more hw =>
      rw [hw] at hrest
      cases hrest.2
    | _ => exact ⟨h.queue, rfl⟩
  exact ((h.seen threads).work hl ht hq.2).idle (hl.work ht) hq.1

theorem Idle.buffer (h : Idle s) (hl : Linked threads s) {a : BufferAct} (ht : Buffered s a t) : Idle t := by
  have hq : t.queue = [] ∧ s.slips .queue (.buffer a) = false := by
    cases ht with
    | filter j _ _ _ hf => exact absurd (h.batch j) (BufferThreads.drains_filter hf).1
    | push j _ _ _ hp => exact absurd (h.batch j) (BufferThreads.drains_push hp).1
    | lose k batch hk =>
      refine absurd (h.holding k) ?_
      rw [AirItems.holding, hk]
      rintro rfl
      exact hl.batch k hk
    | _ => exact ⟨h.queue, rfl⟩
  exact ((h.seen threads).buffer ht hq.2).idle (hl.buffer ht) hq.1

/-! ## A whole crawl -/

/-- A read by which the main thread finishes. -/
def finishes (st : Setting) (s : AirScheduler) : AirAct → Bool
  | .main .read =>
    match s.main with
    | .checking streak .queue _ => s.queue.isEmpty && decide (st.DONE_CHECK_TIMES ≤ streak + 1)
    | _ => false
  | _ => false

/-- Something has slipped past the check. -/
def passed (s : AirScheduler) : Bool :=
  match s.main with
  | .checking _ _ slipped => slipped
  | _ => false

/-- Nothing has slipped past the check by which the main thread finishes. -/
def Clean (st : Setting) (s : AirScheduler) (a : AirAct) : Prop := s.finishes st a = true → s.passed = false

instance (st : Setting) (s : AirScheduler) (a : AirAct) : Decidable (Clean st s a) :=
  inferInstanceAs (Decidable (_ → _))

/-- What a check has seen holds while it is made, and nothing is left once the main thread is done. -/
structure Checked (threads : Nat) (s : AirScheduler) : Prop where
  linked : Linked threads s
  seen : ∀ streak next, s.main = .checking streak next false → Seen threads s next
  done : s.main = .done → Idle s

theorem nextRead_eq_none (h : nextRead threads next = none) : next = .queue := by
  cases next with
  | queue => rfl
  | _ => cases h

/-- A worker or a buffer takes a step while a check is made. -/
theorem Checked.during (hc : Checked threads s) {streak : Nat} {slipped slip : Bool}
    (hm : s.main = .checking streak next slipped) (hl : Linked threads t) (ht : t.main = s.main)
    (hseen : Seen threads s next → slip = false → Seen threads t next) : Checked threads (t.mark slip) := by
  rw [mark_of_checking (ht.trans hm)]
  refine ⟨hl.congr rfl rfl rfl rfl, fun streak' next' h => ?_, nofun⟩
  obtain ⟨-, rfl, hfalse⟩ := MainPhase.checking.inj h
  obtain ⟨rfl, rfl⟩ := Bool.or_eq_false_iff.mp hfalse
  have h := hseen (hc.seen streak _ hm) rfl
  exact ⟨h.pending, h.collector, h.items, h.workers⟩

/-- The main thread makes a read, or is told to stop. -/
theorem Checked.check (hc : Checked threads s) {streak : Nat} {slipped : Bool} (hm : s.main = .checking streak next slipped)
    {a : MainAct} (hg : Clean st s (.main a)) (h : Steered st threads s a t) :
    Checked threads (t.mark (s.slips next (.main a))) := by
  have hl := hc.linked.steer h
  cases h with
  | stop =>
    refine hc.during hm hl rfl fun hs _ => ?_
    exact ⟨hs.pending, hs.collector, hs.items, hs.workers⟩
  | found | again =>
    exact ⟨hl, nofun, nofun⟩
  | next streak' next₀ next' slipped' hm' hf hn =>
    obtain ⟨rfl, rfl, rfl⟩ := MainPhase.checking.inj (hm'.symm.trans hm)
    rw [mark_of_checking rfl]
    refine ⟨hl.congr rfl rfl rfl rfl, fun streak'' next'' h => ?_, nofun⟩
    obtain ⟨-, rfl, hfalse⟩ := MainPhase.checking.inj h
    obtain ⟨rfl, hu⟩ := Bool.or_eq_false_iff.mp hfalse
    have h := (hc.seen streak' _ hm).read hc.linked hf hu hn
    exact ⟨h.pending, h.collector, h.items, h.workers⟩
  | finish streak' next₀ slipped' hm' hf hn hd =>
    obtain ⟨rfl, rfl, rfl⟩ := MainPhase.checking.inj (hm'.symm.trans hm)
    obtain rfl := nextRead_eq_none hn
    have hq : s.queue = [] := List.isEmpty_iff.mp hf
    simp only [Clean, finishes, passed, hm, hq, List.isEmpty_nil, Bool.true_and, decide_eq_true_eq] at hg
    obtain rfl := hg hd
    have h := (hc.seen streak' _ hm).idle hc.linked hq
    exact ⟨hl, nofun, fun _ => ⟨h.pending, h.batch, h.queue, h.collected, h.workers, h.itemsPending, h.holding, h.lost⟩⟩
  | _ => simp_all

theorem Checked.step (hc : Checked threads s) (hg : Clean st s a) (h : s.step st threads handled a = some t) :
    Checked threads t := by
  obtain ⟨u, hu, ⟨streak, next, slipped, hm, rfl⟩ | ⟨hchecking, -, rfl⟩⟩ := step_cases h
  · have hl := hc.linked.turn hu
    cases a with
    | main a => exact hc.check hm hg (steered hu)
    | worker w a =>
      have hw := worked hu
      exact hc.during hm hl (worked_main hw) fun hs => hs.work hc.linked hw
    | buffer a =>
      have hb := buffered hu
      exact hc.during hm hl (buffered_main hb) fun hs => hs.buffer hb
  · have hl := hc.linked.turn hu
    cases a with
    | main a =>
      cases steered hu with
      | check streak hm =>
        refine ⟨hl, fun streak' next h => ?_, nofun⟩
        obtain ⟨-, rfl, -⟩ := MainPhase.checking.inj h
        exact ⟨nofun, nofun, nofun, nofun⟩
      | stop =>
        refine ⟨hl, fun _ _ hm => absurd hm (hchecking _ _ _), fun hm => ?_⟩
        have h := hc.done hm
        exact ⟨h.pending, h.batch, h.queue, h.collected, h.workers, h.itemsPending, h.holding, h.lost⟩
      | tear step t hm h =>
        obtain ⟨step', hstep⟩ := torn_main hm h
        exact ⟨hl, fun _ _ h => absurd (hstep.symm.trans h) nofun, fun h => absurd (hstep.symm.trans h) nofun⟩
      | seed obj request hm =>
        exact ⟨hl, fun _ _ h => absurd (hm.symm.trans h) nofun, fun h => absurd (hm.symm.trans h) nofun⟩
      | found _ _ _ hm | next _ _ _ _ hm | again _ _ _ hm | finish _ _ _ hm => exact absurd hm (hchecking _ _ _)
      | seedFlush | seedReturn | start | leave | timeUp | tearDone | dump => exact ⟨hl, nofun, nofun⟩
    | worker w a =>
      have hw := worked hu
      rw [← worked_main hw] at hchecking
      refine ⟨hl, fun _ _ hm => absurd hm (hchecking _ _ _), fun hm => ?_⟩
      exact (hc.done ((worked_main hw).symm.trans hm)).work hc.linked hw
    | buffer a =>
      have hb := buffered hu
      rw [← buffered_main hb] at hchecking
      refine ⟨hl, fun _ _ hm => absurd hm (hchecking _ _ _), fun hm => ?_⟩
      exact (hc.done ((buffered_main hb).symm.trans hm)).buffer hc.linked hb

/-- A crawl that is done, and past whose last check nothing has slipped, leaves nothing. -/
theorem finishes_idle (st : Setting) (threads : Nat) (handled : Bool) {s : AirScheduler}
    (h : (airMachine st threads handled).Within (Clean st) s) (hm : s.main = .done) : Idle s := by
  have hc : Checked threads s := by
    refine Machine.Within.induct (fun u hu => ?_) (fun u a v hu hg hv => hu.step hg hv) h
    cases hu
    exact ⟨⟨nofun, nofun, nofun, fun _ _ => rfl, fun _ _ => rfl⟩, nofun, nofun⟩
  exact hc.done hm

/-- A crawl of one thread from one seed up to the end of its page, which yields a request. -/
def onePage : List AirAct :=
  [.main (.seed 0 { url := "x" }), .main .seedFlush, .buffer (.filter 0 .fresh), .buffer (.push 0 true),
    .main .seedReturn, .main .start, .worker 0 .enter, .worker 0 .pop, .worker 0 (.take 0), .worker 0 .extend,
    .worker 0 .mark, .worker 0 .begin, .worker 0 (.put 1 { url := "y" }), .worker 0 .checkFull,
    .worker 0 (.finish .completed), .worker 0 .ack, .worker 0 .rest]

/-- A check in which every read finds nothing. -/
def oneCheck : List AirAct := .main .loop :: List.replicate 6 (.main .read)

def threeChecks : List AirAct := oneCheck ++ oneCheck ++ oneCheck

/-- The request that the seed yields is dropped before the checks. -/
theorem finishes_idle_dropped :
    ∃ s, (airMachine {} 1 false).exec {}
      (onePage ++ [AirAct.buffer .swap, .buffer (.filter 1 .seen)] ++ threeChecks) = some s ∧ s.main = .done ∧ Idle s := by
  have hran : ((airMachine {} 1 false).exec {}
      (onePage ++ [AirAct.buffer .swap, .buffer (.filter 1 .seen)] ++ threeChecks)).map AirScheduler.main =
        some .done := by decide +kernel
  have hmeets : (airMachine {} 1 false).Meets (Clean {}) {}
      (onePage ++ [AirAct.buffer .swap, .buffer (.filter 1 .seen)] ++ threeChecks) := by decide +kernel
  obtain ⟨s, he, hm⟩ := Option.map_eq_some_iff.mp hran
  exact ⟨s, he, hm, finishes_idle {} 1 false (Machine.Within.exec (.start rfl) hmeets he) hm⟩

/-- The buffer's thread has the request in its flush, and three checks find nothing. -/
theorem heldBatch_finishes : ∃ s, (airMachine {} 1 false).Reachable s ∧ s.main = .done ∧ ¬Idle s := by
  have hran : ((airMachine {} 1 false).exec {} (onePage ++ [AirAct.buffer .swap] ++ threeChecks)).map
      (fun s => (s.main, s.buffer.batchOf 1)) = some (.done, [⟨⟨1, 1⟩, { url := "y" }⟩]) := by decide +kernel
  obtain ⟨s, he, hs⟩ := Option.map_eq_some_iff.mp hran
  obtain ⟨hm, hbatch⟩ := Prod.mk.inj hs
  exact ⟨s, Machine.Reachable.exec (.start rfl) he, hm, fun h => nomatch hbatch.symm.trans (h.batch 1)⟩

end AirScheduler

end Netspy
