import Netspy.Impl.Cluster

/-!
# What the steps of the nodes do

`LocalStep` are the steps that change their node only; `Stepped` says of every
step which state it leads to. The proofs about runs go by cases on these.
-/

namespace Netspy

open RedisScheduler

variable (st : Setting) (codec : Codec)

inductive LocalStep (nd : RedisScheduler) : NodeAct → RedisScheduler → Prop
  | seed (r : Request) : LocalStep nd (.seed r) (nd.yieldRequest none none r)
  | popBuffer (w t : Nat) (collector : Collector Nat) (hw : nd.workers[w]? = some .idle)
      (hc : nd.collector.popBuffer = some (t, collector)) :
    LocalStep nd (.popBuffer w) ({ nd with collector }.setWorker w (.busy t false))
  | getNone (w : Nat) (hw : nd.workers[w]? = some .idle) :
    LocalStep nd (.get w) (nd.setWorker w .blocked)
  | timeout (w : Nat) (hw : nd.workers[w]? = some .blocked) :
    LocalStep nd (.timeout w) (nd.setWorker w .idle)
  | yieldRequest (w t : Nat) (deferred : Bool) (r : Request)
      (hw : nd.workers[w]? = some (.busy t deferred)) :
    LocalStep nd (.yieldRequest w r) (nd.yieldRequest (some t) none r)
  | putRetry (w t : Nat) (deferred : Bool) (r : Request)
      (hw : nd.workers[w]? = some (.busy t deferred)) :
    LocalStep nd (.putRetry w r)
      (nd.yieldRequest (some t) (some t) { r with filterRepeat := false })
  | putItem (w t : Nat) (deferred returned : Bool)
      (hw : nd.workers[w]? = some (.busy t deferred)) :
    LocalStep nd (.putItem w returned)
      ({ nd with items := nd.items ++ [t] }.setWorker w (.busy t (deferred || returned)))
  | count (w t : Nat) (deferred : Bool) (hw : nd.workers[w]? = some (.busy t deferred)) :
    LocalStep nd (.count w) { nd with counted := true }
  | finishDeferred (w t : Nat) (works : Bool) (hw : nd.workers[w]? = some (.busy t true)) :
    LocalStep nd (.finish w works) (nd.setWorker w .idle)
  | swap : LocalStep nd .swap nd.swap
  | filter (j : Nat) (answer : Answer) (dropped : Option (Tagged Buffered))
      (requestBuffer : BufferThreads Buffered)
      (hf : nd.requestBuffer.filter j answer = some (dropped, requestBuffer)) :
    LocalStep nd (.filter j answer) { nd with
      requestBuffer
      dropped := nd.dropped ++ (dropped.map fun x => x.tag.origin.serial).toList }
  | pushRaised (j : Nat) (requestBuffer : BufferThreads Buffered)
      (hp : nd.requestBuffer.push j false = some (none, requestBuffer)) :
    LocalStep nd (.push j false) { nd with requestBuffer }
  | swapItems :
    LocalStep nd .swapItems { nd with items := [], itemFlushes := nd.itemFlushes ++ [nd.items.dedup] }
  | failItems (j : Nat) : LocalStep nd (.failItems j) { nd with itemFlushes := nd.itemFlushes.set j [] }
  | fetchNone (p : TaskPoller) (hp : p.phase = .waiting) (hk : nd.kind = .task)
      (hw : nd.poller.phase = .waiting) :
    LocalStep nd (.fetch []) { nd with poller := p }
  | fetch (tasks : List PyVal) (hne : tasks ≠ []) (hk : nd.kind = .task)
      (hw : nd.poller.phase = .waiting) :
    LocalStep nd (.fetch tasks) { nd with poller := { nd.poller with phase := .fetched tasks } }
  | resetPolls (tasks : List PyVal) (hp : nd.poller.phase = .fetched tasks) :
    LocalStep nd .resetPolls { nd with poller := ⟨.converting tasks, false, 0⟩ }
  | convert (r : Request) (task : PyVal) (tasks : List PyVal)
      (hp : nd.poller.phase = .converting (task :: tasks)) :
    LocalStep nd (.convert r) (nd.yieldRequest none none r)
  | nextTask (task : PyVal) (tasks : List PyVal) (hp : nd.poller.phase = .converting (task :: tasks)) :
    LocalStep nd .nextTask { nd with poller := { nd.poller with phase := .converting tasks } }
  | endPoll (hp : nd.poller.phase = .converting []) :
    LocalStep nd .endPoll ({ nd with poller := { nd.poller with phase := .waiting } }.swap)
  | pushBackRaised (l : Leftover) (rest : List Leftover) (hl : nd.leftovers = l :: rest)
      (hs : nd.settling = none) :
    LocalStep nd (.pushBack false) { nd with leftovers := [], dumped := nd.dumped ++ nd.leftovers }

namespace Cluster

variable {ν : Type} [DecidableEq ν]

/-- The state after each step that does more than change its node. -/
inductive Stepped (s : Cluster ν) : ClusterAct ν → Cluster ν → Prop
  | tick (d : Nat) : Stepped s (.tick d) { s with now := s.now + d }
  | join (n : ν) (kind : SchedulerKind) (keepAlive : Bool) (threads : Nat)
      (hn : (s.nodes n).status = .absent) :
    Stepped s (.join n kind keepAlive threads) (s.setNode n
      { kind, keepAlive, status := .running, startedAt := s.now, workers := List.replicate threads .idle })
  | kill (n : ν) :
    Stepped s (.kill n) (s.setNode n { s.nodes n with status := .killed, check := .idle })
  | inNode (n : ν) (a : NodeAct) (nd : RedisScheduler) (h : LocalStep (s.nodes n) a nd) :
    Stepped s (.node n a) (s.setNode n nd)
  | get (n : ν) (w : Nat) (m : String) (rest : List String) (q : RedisTaskQueue)
      (hw : (s.nodes n).workers[w]? = some .idle) (hq : s.tasks.take st s.now 1 = (m :: rest, q)) :
    Stepped s (.node n (.get w))
      (((s.setTasks q).setNode n
        ({ s.nodes n with taken := (s.nodes n).taken ++ [m] }.setWorker w
          (.got (s.nodes n).taken.length))).note [.took m])
  | getBatch (n : ν) (w t : Nat) (ms : List String) (q : RedisTaskQueue) (extra : List Nat)
      (hw : (s.nodes n).workers[w]? = some (.got t))
      (hq : s.tasks.take st s.now (st.COLLECTOR_TASK_COUNT - 1) = (ms, q)) :
    Stepped s (.node n (.getBatch w))
      (((s.setTasks q).setNode n
        ({ s.nodes n with
          taken := (s.nodes n).taken ++ ms
          collector := (s.nodes n).collector.received t extra }.setWorker w (.busy t false))).note
        (ms.map .took))
  | bzpopmin (n : ν) (w : Nat) (m : String) (q : RedisTaskQueue)
      (hw : (s.nodes n).workers[w]? = some .blocked) (hq : s.tasks.bzpopmin = some (m, q)) :
    Stepped s (.node n (.bzpopmin w))
      (((s.setTasks q).setNode n ((s.nodes n).setWorker w (.popped m))).note [.took m])
  | lease (n : ν) (w : Nat) (m : String) (hw : (s.nodes n).workers[w]? = some (.popped m)) :
    Stepped s (.node n (.lease w))
      (((s.setTasks (s.tasks.recordLease st s.now m)).setNode n
        ({ s.nodes n with taken := (s.nodes n).taken ++ [m] }.setWorker w
          (.got (s.nodes n).taken.length))).note [.took m])
  | finish (n : ν) (w t : Nat) (works : Bool) (hw : (s.nodes n).workers[w]? = some (.busy t false)) :
    Stepped s (.node n (.finish w works))
      ((s.setNode n ((s.nodes n).setWorker w .idle)).collectorDone n t works)
  | push (n : ν) (j : Nat) (x : Tagged Buffered) (requestBuffer : BufferThreads Buffered)
      (hp : (s.nodes n).requestBuffer.push j true = some (some x, requestBuffer)) :
    Stepped s (.node n (.push j true))
      ((s.setTasks (s.tasks.put codec x.request)).setNode n
        { s.nodes n with
          requestBuffer
          landed := (s.nodes n).landed ++ [(x.tag.origin, codec.dumps x.request)] })
  | ackOwner (n : ν) (j t : Nat) (rest : List Nat) (works : Bool)
      (hj : (s.nodes n).itemFlushes[j]? = some (t :: rest)) :
    Stepped s (.node n (.ackOwner j works))
      ((s.setNode n { s.nodes n with itemFlushes := (s.nodes n).itemFlushes.set j rest }).collectorDone
        n t works)
  | beat (n : ν) : Stepped s (.node n .beat) (s.beat n)
  | renew (n : ν) :
    Stepped s (.node n .renew) (s.setTasks (s.tasks.renew st s.now (s.nodes n).heldTokens))
  | pollIgnored (n : ν) (works : Bool) (hc : (s.nodes n).check = .idle)
      (hk : (s.nodes n).keepAlive = true ∨ (s.nodes n).kind = .task ∨
        ((s.nodes n).inStartupGrace st s.now).1 = true) :
    Stepped s (.node n (.check works)) (s.note [.polled (s.tasks.due s.now)])
  | pollTask (n : ν) (works : Bool) (hc : (s.nodes n).check = .idle) (ha : (s.nodes n).keepAlive = false)
      (hk : (s.nodes n).kind = .task) (he : (s.nodes n).poller.exhausted = true) :
    Stepped s (.node n (.check works))
      ((s.note [.polled (s.tasks.due s.now)]).setNode n { s.nodes n with check := .requestBuffer })
  | pollReclaim (n : ν) (works : Bool) (seenWork : Bool) (hc : (s.nodes n).check = .idle)
      (ha : (s.nodes n).keepAlive = false) (hk : (s.nodes n).kind = .redis)
      (hg : ((s.nodes n).inStartupGrace st s.now).1 = false)
      (moved : Nat) (q : RedisTaskQueue)
      (hq : s.tasks.reclaimExpired st s.now reclaimLimit works = (moved, q)) :
    Stepped s (.node n (.check works))
      (((s.note [.polled (s.tasks.due s.now)]).setTasks q).setNode n
        { s.nodes n with seenWork, check := if moved = 0 then .requestBuffer else .idle })
  | read (n : ν) (works : Bool) (h₁ : (s.nodes n).check ≠ .idle) (h₂ : (s.nodes n).check ≠ .heartbeats) :
    Stepped s (.node n (.check works)) (s.setNode n
      { s.nodes n with
        check := if (s.checkNext st (s.nodes n)).1 then (s.checkNext st (s.nodes n)).2 else .idle })
  | readIdle (n : ν) (works : Bool) (hc : (s.nodes n).check = .heartbeats) (hi : s.allNodesIdle st = true) :
    Stepped s (.node n (.check works))
      ((s.setNode n { s.nodes n with check := .idle }).note
        [.done s.tasks.empty (s.tasks.inflightCount == 0) (s.nodes n).poller.unconverted])
  | readBusy (n : ν) (works : Bool) (hc : (s.nodes n).check = .heartbeats) :
    Stepped s (.node n (.check works)) (s.setNode n { s.nodes n with check := .idle })
  | drain (n : ν) (hr : (s.nodes n).status = .running) :
    Stepped s (.node n .drain)
      ({ s with heartbeat := s.heartbeat.filter fun e => e.1 ≠ n }.setNode n ((s.nodes n).drain codec))
  | pushBack (n : ν) (l : Leftover) (rest : List Leftover) (hl : (s.nodes n).leftovers = l :: rest)
      (hs : (s.nodes n).settling = none) :
    Stepped s (.node n (.pushBack true))
      ((s.setTasks (s.tasks.put codec l.request)).setNode n
        { s.nodes n with
          leftovers := rest
          settling := l.token
          landed := (s.nodes n).landed ++
            (l.origin.map fun o => (o, codec.dumps l.request)).toList })
  | pushDone (n : ν) (t : Nat) (works : Bool) (hs : (s.nodes n).settling = some t) :
    Stepped s (.node n (.pushDone works))
      ((s.setNode n { s.nodes n with settling := none }).queueDone n t works)

/-- `done` acknowledges the request, or leaves the state as it was. -/
theorem queueDone_cases (s : Cluster ν) (n : ν) (t : Nat) (works : Bool) :
    (∃ m, (s.nodes n).taken[t]? = some m ∧
      s.queueDone n t works =
        ((s.setTasks (s.tasks.doneMember m)).setNode n
          { s.nodes n with acked := (s.nodes n).acked ++ [t] }).note [.acked m]) ∨
      s.queueDone n t works = s := by
  unfold queueDone
  dsimp only
  split
  · rename_i m hm
    exact .inl ⟨m, hm, rfl⟩
  · exact .inr rfl

variable {st codec} {s t : Cluster ν}

/-- The grace period changes `_seen_work` only, and nothing while it lasts. -/
theorem inStartupGrace_snd (nd : RedisScheduler) (now : Nat) :
    (nd.inStartupGrace st now).2 = { nd with seenWork := (nd.inStartupGrace st now).2.seenWork } ∧
      ((nd.inStartupGrace st now).1 = true → (nd.inStartupGrace st now).2 = nd) := by
  unfold inStartupGrace
  split
  · exact ⟨rfl, fun _ => rfl⟩
  · split
    · exact ⟨rfl, fun h => by cases h⟩
    · exact ⟨rfl, fun _ => rfl⟩

theorem setNode_self (s : Cluster ν) (n : ν) : s.setNode n (s.nodes n) = s := by
  rw [setNode, Function.update_eq_self]

/-- The head of `_is_done`. -/
theorem stepped_checkBegin (n : ν) (works : Bool) (hc : (s.nodes n).check = .idle) :
    Stepped st codec s (.node n (.check works)) (s.checkBegin st n works) := by
  unfold checkBegin
  dsimp only
  split
  · rename_i ha
    exact .pollIgnored n works hc (.inl ha)
  · rename_i ha
    obtain ⟨hnd, hsame⟩ := @inStartupGrace_snd st (s.nodes n) s.now
    split
    · rename_i hk
      split
      · rename_i hg
        rw [hsame hg]
        exact (setNode_self (s.note [.polled (s.tasks.due s.now)]) n).symm ▸
          .pollIgnored n works hc (.inr (.inr hg))
      · rename_i hg
        rw [hnd]
        exact .pollReclaim n works _ hc (by simpa using ha) hk (by simpa using hg) _ _ rfl
    · rename_i hk
      split
      · rename_i he
        exact .pollTask n works hc (by simpa using ha) hk he
      · exact .pollIgnored n works hc (.inr (.inl hk))

theorem stepped_check (n : ν) (works : Bool) :
    Stepped st codec s (.node n (.check works)) (s.check st n works) := by
  unfold check
  dsimp only
  split
  · rename_i hc
    exact stepped_checkBegin n works hc
  · rename_i hc
    split
    · rename_i hi
      exact .readIdle n works hc (by simpa using (Bool.and_eq_true_iff.mp hi).2)
    · exact .readBusy n works hc
  · rename_i h₁ h₂
    exact .read n works h₁ h₂

/-- The steps of the workers. -/
theorem stepped_worker {n : ν} {a : NodeAct} (h : s.act st codec n a = some t) (w : Nat)
    (ha : a = .popBuffer w ∨ a = .get w ∨ a = .getBatch w ∨ a = .bzpopmin w ∨ a = .timeout w ∨
      a = .lease w) : Stepped st codec s (.node n a) t := by
  rcases ha with rfl | rfl | rfl | rfl | rfl | rfl
  · simp only [act] at h
    split at h
    · rename_i hw hc
      cases h
      exact .inNode n _ _ (.popBuffer w _ _ hw hc)
    · cases h
  · simp only [act] at h
    split at h
    · rename_i hw _
      cases h
      exact .inNode n _ _ (.getNone w hw)
    · rename_i hw hq
      cases h
      exact .get n w _ _ _ hw hq
    · cases h
  · simp only [act] at h
    split at h
    · rename_i hw hq
      cases h
      exact .getBatch n w _ _ _ _ hw hq
    · cases h
  · simp only [act] at h
    split at h
    · rename_i hw hq
      cases h
      exact .bzpopmin n w _ _ hw hq
    · cases h
  · simp only [act] at h
    split at h
    · rename_i hw
      cases h
      exact .inNode n _ _ (.timeout w hw)
    · cases h
  · simp only [act] at h
    split at h
    · rename_i hw
      cases h
      exact .lease n w _ hw
    · cases h

/-- The steps of a worker in `_process`. -/
theorem stepped_process {n : ν} {a : NodeAct} (h : s.act st codec n a = some t) (w : Nat)
    (ha : (∃ r, a = .yieldRequest w r) ∨ (∃ r, a = .putRetry w r) ∨ (∃ b, a = .putItem w b) ∨
      a = .count w ∨ ∃ b, a = .finish w b) : Stepped st codec s (.node n a) t := by
  rcases ha with ⟨r, rfl⟩ | ⟨r, rfl⟩ | ⟨b, rfl⟩ | rfl | ⟨b, rfl⟩ <;> simp only [act] at h <;>
    split at h
  · rename_i hw
    cases h
    exact .inNode n _ _ (.yieldRequest w _ _ r hw)
  · cases h
  · rename_i hw
    cases h
    exact .inNode n _ _ (.putRetry w _ _ r hw)
  · cases h
  · rename_i hw
    cases h
    exact .inNode n _ _ (.putItem w _ _ b hw)
  · cases h
  · rename_i hw
    cases h
    exact .inNode n _ _ (.count w _ _ hw)
  · cases h
  · rename_i deferred hw
    cases h
    cases deferred with
    | true => exact .inNode n _ _ (.finishDeferred w _ b hw)
    | false => exact .finish n w _ b hw
  · cases h

/-- The steps of a flush of the request buffer. -/
theorem stepped_flush {n : ν} {a : NodeAct} (h : s.act st codec n a = some t) (j : Nat)
    (ha : (∃ answer, a = .filter j answer) ∨ ∃ b, a = .push j b) : Stepped st codec s (.node n a) t := by
  rcases ha with ⟨answer, rfl⟩ | ⟨works, rfl⟩
  · simp only [act] at h
    split at h
    · rename_i hf
      cases h
      exact .inNode n _ _ (.filter j answer _ _ hf)
    · cases h
  · simp only [act] at h
    split at h
    · rename_i hp
      cases h
      obtain rfl := BufferThreads.works_of_push hp
      exact .push n j _ _ hp
    · rename_i hp
      cases h
      obtain rfl := BufferThreads.works_of_push hp
      exact .inNode n _ _ (.pushRaised j _ hp)
    · cases h

/-- The steps of the task poller. -/
theorem stepped_poller {n : ν} {a : NodeAct} (h : s.act st codec n a = some t)
    (ha : (∃ tasks, a = .fetch tasks) ∨ a = .resetPolls ∨ (∃ r, a = .convert r) ∨ a = .nextTask ∨
      a = .endPoll) : Stepped st codec s (.node n a) t := by
  rcases ha with ⟨tasks, rfl⟩ | rfl | ⟨r, rfl⟩ | rfl | rfl
  · simp only [act] at h
    split at h
    · rename_i hp
      cases h
      cases tasks with
      | nil => exact .inNode n _ _ (.fetchNone _ hp.2 hp.1 hp.2)
      | cons x xs => exact .inNode n _ _ (.fetch (x :: xs) (by simp) hp.1 hp.2)
    · cases h
  · simp only [act] at h
    split at h
    · rename_i hp
      cases h
      exact .inNode n _ _ (.resetPolls _ hp)
    · cases h
  · simp only [act] at h
    split at h
    · rename_i hp
      cases h
      exact .inNode n _ _ (.convert r _ _ hp)
    · cases h
  · simp only [act] at h
    split at h
    · rename_i hp
      cases h
      exact .inNode n _ _ (.nextTask _ _ hp)
    · cases h
  · simp only [act] at h
    split at h
    · rename_i hp
      cases h
      exact .inNode n _ _ (.endPoll hp)
    · cases h

/-- The steps of the shutdown. -/
theorem stepped_shutdown {n : ν} {a : NodeAct} (h : s.act st codec n a = some t)
    (ha : a = .drain ∨ (∃ b, a = .pushBack b) ∨ ∃ b, a = .pushDone b) :
    Stepped st codec s (.node n a) t := by
  rcases ha with rfl | ⟨works, rfl⟩ | ⟨works, rfl⟩
  · simp only [act] at h
    split at h
    · rename_i hr
      cases h
      exact .drain n hr.1
    · cases h
  · simp only [act] at h
    split at h
    · rename_i hl hs
      cases works with
      | true =>
        cases h
        exact .pushBack n _ _ hl hs
      | false =>
        cases h
        exact .inNode n _ _ (.pushBackRaised _ _ hl hs)
    · cases h
  · simp only [act] at h
    split at h
    · rename_i hs
      cases h
      exact .pushDone n _ works hs
    · cases h

theorem stepped_act {n : ν} {a : NodeAct} (h : s.act st codec n a = some t) :
    Stepped st codec s (.node n a) t := by
  cases a with
  | seed r =>
    cases h
    exact .inNode n _ _ (.seed r)
  | popBuffer w | get w | getBatch w | bzpopmin w | timeout w | lease w =>
    exact stepped_worker h w (by simp)
  | yieldRequest w | putRetry w | putItem w | count w | finish w => exact stepped_process h w (by simp)
  | swap =>
    cases h
    exact .inNode n _ _ .swap
  | filter j | push j => exact stepped_flush h j (by simp)
  | swapItems =>
    cases h
    exact .inNode n _ _ .swapItems
  | ackOwner j works =>
    simp only [act] at h
    split at h
    · rename_i hj
      cases h
      exact .ackOwner n j _ _ works hj
    · cases h
  | failItems j =>
    cases h
    exact .inNode n _ _ (.failItems j)
  | beat =>
    simp only [act] at h
    split at h
    · cases h
      exact .beat n
    · cases h
  | renew =>
    simp only [act] at h
    split at h
    · cases h
      exact .renew n
    · cases h
  | fetch | resetPolls | convert | nextTask | endPoll => exact stepped_poller h (by simp)
  | check works =>
    simp only [act] at h
    split at h
    · cases h
      exact stepped_check n works
    · cases h
  | drain | pushBack | pushDone => exact stepped_shutdown h (by simp)

theorem stepped {a : ClusterAct ν} (h : s.step st codec a = some t) : Stepped st codec s a t := by
  cases a with
  | tick d =>
    cases h
    exact .tick d
  | join n kind keepAlive threads =>
    simp only [step] at h
    split at h
    · rename_i hn
      cases h
      exact .join n kind keepAlive threads hn
    · cases h
  | kill n =>
    simp only [step] at h
    split at h
    · cases h
      exact .kill n
    · cases h
  | node n a =>
    simp only [step] at h
    split at h
    · exact stepped_act h
    · cases h

/-! ## Two nodes and one request

The runs that the theorems are tried on start here. -/

/-- A payload that is the URL alone. -/
def urlCodec : Codec where
  dumps r := r.url
  loads m := { url := m }

def oneQueued : Cluster Bool := { tasks := { queue := (∅ : ZSet String).zadd "a" 300 } }

theorem start_oneQueued : (machine {} urlCodec).start oneQueued := ⟨fun _ => rfl, rfl⟩

def after (as : List (ClusterAct Bool)) : Cluster Bool :=
  ((machine {} urlCodec).exec oneQueued as).getD {}

theorem exec_after (as : List (ClusterAct Bool))
    (h : ((machine {} urlCodec).exec oneQueued as).isSome = true) :
    (machine {} urlCodec).exec oneQueued as = some (after as) :=
  Machine.exec_getD h _

end Cluster

end Netspy
