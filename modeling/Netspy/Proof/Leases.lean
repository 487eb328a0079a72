import Netspy.Proof.Cluster

/-!
# Recovery of leases that have ended

A call of `_is_done` should put every member whose lease has ended back into
the queue (`Recovered`). Only a `RedisScheduler` that does not keep alive and
is past its startup grace reclaims at all (`Reclaims`); in runs where every
call that finds such members is of this kind they are recovered, and any
other call leaves one where it was (`leases_recovered`).
-/

namespace Netspy

namespace Cluster

variable {ν : Type} [DecidableEq ν] {st : Setting} {codec : Codec}

/-- Not in flight any more, and in the queue. -/
def Back (q : RedisTaskQueue) (m : String) : Prop := m ∉ q.inflight ∧ m ∈ q.queue

omit [DecidableEq ν] in
/-- Every member whose lease had ended at a call of `_is_done` is back, or has
been taken or acknowledged since. -/
def Recovered (s : Cluster ν) : Prop :=
  ∀ before due after, s.log = before ++ .polled due :: after →
    ∀ m ∈ due, Back s.tasks m ∨ .took m ∈ after ∨ .acked m ∈ after

variable (st) in
/-- A call of `_is_done` that finds leases ended comes to `reclaim_expired`, the
call works, and no deadline is above the time in milliseconds. -/
def Reclaims (s : Cluster ν) : ClusterAct ν → Prop
  | .node n (.check works) =>
    (s.nodes n).check = .idle → s.tasks.due s.now ≠ [] →
      0 < st.SPIDER_TASK_LEASE ∧ works = true ∧ (s.nodes n).kind = .redis ∧
        (s.nodes n).keepAlive = false ∧ ((s.nodes n).inStartupGrace st s.now).1 = false ∧
          ∀ p ∈ s.tasks.inflight.rows, p.2 ∈ s.tasks.due s.now → p.1 ≤ toMillis s.now
  | _ => True

instance (s : Cluster ν) (a : ClusterAct ν) : Decidable (Reclaims st s a) := by
  unfold Reclaims
  split <;> infer_instance

/-! ## What a step does to members that are back -/

theorem mem_due {q : RedisTaskQueue} {now : Nat} {m : String} :
    m ∈ q.due now ↔ ∃ y, (y, m) ∈ q.inflight.rows ∧ y < now ∧ q.inflight.zrank m < reclaimLimit := by
  rw [RedisTaskQueue.due, ZSet.mem_zrangebyscore]
  exact exists_congr fun y => by rw [Int.le_sub_one_iff]

theorem inflight_of_mem_due {q : RedisTaskQueue} {now : Nat} {m : String} (h : m ∈ q.due now) :
    m ∈ q.inflight := by
  obtain ⟨y, hy, -⟩ := mem_due.mp h
  exact ZSet.mem_of_row hy

omit [DecidableEq ν] in
/-- A step adds events at the end of the log. What was back stays so or is in
one of them, and what is due in one of them is back. -/
theorem recovered_step {s t : Cluster ν} {es : List Event} (h : Recovered s) (hl : t.log = s.log ++ es)
    (hb : ∀ m, Back s.tasks m → Back t.tasks m ∨ .took m ∈ es ∨ .acked m ∈ es)
    (hp : ∀ due, .polled due ∈ es → ∀ m ∈ due, Back t.tasks m) : Recovered t := by
  intro before due after ht m hm
  rw [hl, List.append_eq_append_iff] at ht
  rcases ht with ⟨mid, rfl, he⟩ | ⟨mid, hs, he⟩
  · exact .inl (hp due (he ▸ by simp) m hm)
  · cases mid with
    | nil => exact .inl (hp due (by rw [List.nil_append] at he; exact he ▸ by simp) m hm)
    | cons e mid =>
      obtain ⟨rfl, rfl⟩ := List.cons.inj he
      rcases h before due mid hs m hm with hback | ht | ha
      · rcases hb m hback with hback | ht | ha
        · exact .inl hback
        · exact .inr (.inl (List.mem_append_right _ ht))
        · exact .inr (.inr (List.mem_append_right _ ha))
      · exact .inr (.inl (List.mem_append_left _ ht))
      · exact .inr (.inr (List.mem_append_left _ ha))

omit [DecidableEq ν] in
/-- A step without calls of `_is_done`, by which what is back stays so. -/
theorem recovered_of_back {s t : Cluster ν} (h : Recovered s) (hl : t.log = s.log)
    (hb : ∀ m, Back s.tasks m → Back t.tasks m) : Recovered t :=
  recovered_step h (by rw [hl, List.append_nil]) (fun m hm => .inl (hb m hm))
    fun _ hd => absurd hd List.not_mem_nil

omit [DecidableEq ν] in
/-- A step that takes `ms`. -/
theorem recovered_took {s t : Cluster ν} (h : Recovered s) (ms : List String)
    (hl : t.log = s.log ++ ms.map .took)
    (hb : ∀ m, Back s.tasks m → m ∉ ms → Back t.tasks m) : Recovered t := by
  refine recovered_step h hl (fun m hm => ?_) fun due hd => by simp at hd
  by_cases hms : m ∈ ms
  · exact .inr (.inl (List.mem_map_of_mem hms))
  · exact .inl (hb m hm hms)

theorem back_take {q : RedisTaskQueue} {now count : Nat} {m : String} (h : Back q m)
    (hm : m ∉ (q.take st now count).1) : Back (q.take st now count).2 m :=
  ⟨fun hi => (RedisTaskQueue.inflight_take_subset hi).elim hm h.1,
    (RedisTaskQueue.mem_queue_take.mp h.2).resolve_left hm⟩

theorem recovered_queueDone {s : Cluster ν} (h : Recovered s) (n : ν) (k : Nat) (works : Bool) :
    Recovered (s.queueDone n k works) := by
  rcases queueDone_cases s n k works with ⟨p, -, he⟩ | he
  · rw [he]
    refine recovered_step h rfl (fun m hm => .inl ⟨?_, hm.2⟩) fun due hd => by simp at hd
    exact fun hi => hm.1 (RedisTaskQueue.mem_inflight_doneMember.mp hi).1
  · rwa [he]

theorem recovered_setNode {s : Cluster ν} (h : Recovered s) (n : ν) (nd : RedisScheduler) :
    Recovered (s.setNode n nd) := h

omit [DecidableEq ν] in
/-- A call of `_is_done` that moves nothing, with no lease ended. -/
theorem recovered_polled {s : Cluster ν} (h : Recovered s) (hd : s.tasks.due s.now = []) :
    Recovered (s.note [.polled (s.tasks.due s.now)]) := by
  refine recovered_step h rfl (fun m hm => .inl hm) fun due hdue m hm => ?_
  have he : due = s.tasks.due s.now := by simpa using hdue
  rw [he, hd] at hm
  exact absurd hm List.not_mem_nil

theorem back_reclaimExpired {q : RedisTaskQueue} {now limit : Nat} {works : Bool} {m : String}
    (h : Back q m) : Back (q.reclaimExpired st now limit works).2 m :=
  ⟨fun hi => h.1 (RedisTaskQueue.inflight_reclaimExpired_subset hi),
    RedisTaskQueue.queue_subset_reclaimExpired h.2⟩

/-- A member whose lease has ended is reclaimed if its deadline is not above the
time in milliseconds. -/
theorem mem_expired_of_due {q : RedisTaskQueue} {now : Nat} {m : String} (h : m ∈ q.due now)
    (hr : ∀ p ∈ q.inflight.rows, p.2 ∈ q.due now → p.1 ≤ toMillis now) :
    m ∈ q.expired now reclaimLimit := by
  obtain ⟨y, hy, -, hrank⟩ := mem_due.mp h
  exact (RedisTaskQueue.mem_expired (by decide)).mpr ⟨y, hy, hr _ hy h, hrank⟩

theorem recovered_of_step {s t : Cluster ν} {a : ClusterAct ν} (h : Recovered s) (hg : Reclaims st s a)
    (hs : Stepped st codec s a t) : Recovered t := by
  cases hs with
  | tick | join | kill | inNode | beat | drain | read | readBusy => exact recovered_of_back h rfl fun _ => id
  | get n w p rest q hw hq =>
    have hfst : (s.tasks.take st s.now 1).1 = [p] := by
      have hrest := RedisTaskQueue.take_one (congrArg Prod.fst hq)
      rw [hq, hrest]
    refine recovered_took h [p] rfl fun m hm hp => ?_
    have := back_take hm (hfst ▸ hp)
    rwa [hq] at this
  | getBatch n w k ms q extra hw hq =>
    refine recovered_took h ms rfl fun m hm hp => ?_
    have hp' : m ∉ (s.tasks.take st s.now (st.COLLECTOR_TASK_COUNT - 1)).1 := by rwa [hq]
    have := back_take hm hp'
    rwa [hq] at this
  | bzpopmin n w p q hw hq =>
    refine recovered_took h [p] rfl fun m hm hp => ?_
    obtain ⟨-, hi, hmq⟩ := RedisTaskQueue.mem_bzpopmin (m := m) hq
    exact ⟨hi.symm ▸ hm.1, (hmq.mp hm.2).resolve_left (by simpa using hp)⟩
  | lease n w p hw =>
    refine recovered_took h [p] rfl fun m hm hp => ⟨fun hi => ?_, ?_⟩
    · exact (RedisTaskQueue.inflight_recordLease_subset hi).elim (by simpa using hp) hm.1
    · show m ∈ (s.tasks.recordLease st s.now p).queue
      rw [RedisTaskQueue.queue_recordLease]
      exact hm.2
  | finish n w k works => exact recovered_queueDone (recovered_setNode (recovered_setNode h _ _) _ _) n k _
  | ackOwner n j k => exact recovered_queueDone (recovered_setNode (recovered_setNode h _ _) _ _) n k _
  | pushDone n k => exact recovered_queueDone (recovered_setNode h _ _) n k _
  | push | pushBack =>
    exact recovered_of_back h rfl fun m hm => ⟨hm.1, RedisTaskQueue.mem_queue_put.mpr (.inr hm.2)⟩
  | renew n =>
    refine recovered_of_back h rfl fun m hm =>
      ⟨fun hi => hm.1 (RedisTaskQueue.mem_inflight_renew.mp hi), ?_⟩
    show m ∈ (s.tasks.renew st s.now (s.nodes n).heldTokens).queue
    rw [RedisTaskQueue.queue_renew]
    exact hm.2
  | pollIgnored n works hc hk =>
    refine recovered_polled h ?_
    by_contra hd
    obtain ⟨-, -, hk₁, hk₂, hk₃, -⟩ := hg hc hd
    rcases hk with hk | hk | hk
    · rw [hk] at hk₂
      cases hk₂
    · rw [hk] at hk₁
      cases hk₁
    · rw [hk] at hk₃
      cases hk₃
  | pollTask n works hc _ hk =>
    refine recovered_setNode (recovered_polled h ?_) _ _
    by_contra hd
    obtain ⟨-, -, hk₁, -⟩ := hg hc hd
    rw [hk] at hk₁
    cases hk₁
  | pollReclaim n works seenWork hc _ _ _ moved q hq =>
    have hq' : q = (s.tasks.reclaimExpired st s.now reclaimLimit works).2 := by rw [hq]
    refine recovered_step (s := s) h rfl (fun m hm => .inl (hq' ▸ back_reclaimExpired hm)) fun due hdue m hm => ?_
    have he : due = s.tasks.due s.now := by simpa using hdue
    rw [he] at hm
    obtain ⟨hl, rfl, -, -, -, hr⟩ := hg hc (List.ne_nil_of_mem hm)
    exact hq' ▸ RedisTaskQueue.reclaimExpired_of_mem hl (mem_expired_of_due hm hr)
  | readIdle => exact recovered_step h rfl (fun _ hm => .inl hm) fun due hd => by simp at hd

/-! ## Calls that do not reclaim -/

omit [DecidableEq ν] in
/-- After a call that leaves a member in flight whose lease has ended. -/
theorem not_recovered {s t : Cluster ν} {m : String} (hm : m ∈ s.tasks.due s.now)
    (hl : t.log = s.log ++ [Event.polled (s.tasks.due s.now)]) (hi : m ∈ t.tasks.inflight) : ¬ Recovered t := by
  intro h
  rcases h s.log _ [] hl m hm with hb | hb | hb
  · exact hb.1 hi
  · exact absurd hb List.not_mem_nil
  · exact absurd hb List.not_mem_nil

theorem not_recovered_of_not_reclaims {s t : Cluster ν} {n : ν} {works : Bool}
    (hs : Stepped st codec s (.node n (.check works)) t)
    (hg : ¬ Reclaims st s (.node n (.check works))) : ¬ Recovered t := by
  simp only [Reclaims, Classical.not_imp] at hg
  obtain ⟨hc, hd, hg⟩ := hg
  obtain ⟨m, hm⟩ := List.exists_mem_of_ne_nil _ hd
  have hi := inflight_of_mem_due hm
  cases hs with
  | inNode _ _ _ h => cases h
  | pollIgnored => exact not_recovered hm rfl hi
  | pollTask => exact not_recovered hm rfl hi
  | pollReclaim _ _ seenWork _ ha hk hgr moved q hq =>
    have hq' : q = (s.tasks.reclaimExpired st s.now reclaimLimit works).2 := by rw [hq]
    by_cases hw : st.SPIDER_TASK_LEASE = 0 ∨ works = false
    · refine not_recovered hm rfl (hq' ▸ RedisTaskQueue.reclaimExpired_of_not_mem hi ?_)
      tauto
    · -- what is left is a deadline above the time in milliseconds
      simp only [not_or, Bool.not_eq_false] at hw
      have hr : ¬ ∀ p ∈ s.tasks.inflight.rows, p.2 ∈ s.tasks.due s.now → p.1 ≤ toMillis s.now :=
        fun hr => hg ⟨Nat.pos_of_ne_zero hw.1, hw.2, hk, ha, hgr, hr⟩
      obtain ⟨⟨y, p⟩, hp, hpd, hlt⟩ := by simpa only [not_forall] using hr
      refine not_recovered hpd rfl (hq' ▸ RedisTaskQueue.reclaimExpired_of_not_mem (ZSet.mem_of_row hp) ?_)
      refine .inr (.inr fun he => hlt ?_)
      obtain ⟨z, hz, hle, -⟩ := (RedisTaskQueue.mem_expired (by decide)).mp he
      exact ZSet.score_unique hp hz ▸ hle
  | read _ _ h => exact absurd hc h
  | readIdle _ _ h => rw [hc] at h; cases h
  | readBusy _ _ h => rw [hc] at h; cases h

/-! ## The runs -/

theorem recovered_start {s : Cluster ν} (h : (machine st codec).start s) : Recovered s := by
  intro before due after he
  rw [h.2] at he
  exact absurd he.symm (by simp)

variable (ν st codec) in
/-- In runs whose calls of `_is_done` reclaim, every member whose lease has ended
is recovered; and a call that does not reclaim recovers no more than before. -/
theorem leases_recovered :
    (∀ s : Cluster ν, (machine st codec).Within (Reclaims st) s → Recovered s) ∧
      ∀ (s t : Cluster ν) (n : ν) (works : Bool), Recovered s →
        s.step st codec (.node n (.check works)) = some t →
          (Recovered t ↔ Reclaims st s (.node n (.check works))) := by
  constructor
  · intro s h
    exact h.induct (I := Recovered) (fun _ => recovered_start)
      fun _ _ _ hs hg ht => recovered_of_step hs hg (stepped ht)
  · intro s t n works hs ht
    constructor
    · intro h
      by_contra hg
      exact not_recovered_of_not_reclaims (stepped ht) hg h
    · intro hg
      exact recovered_of_step hs hg (stepped ht)

/-- A node takes the request and is killed; another, of the given kind, calls
`_is_done` when the lease has ended. -/
def deadNodeRun (kind : SchedulerKind) : List (ClusterAct Bool) :=
  [.join false .redis false 1, .node false (.get 0), .kill false, .join true kind false 1,
    .tick 601000000, .node true (.check true)]

theorem leases_recovered_deadNodeRun : Recovered (after (deadNodeRun .redis)) :=
  (leases_recovered Bool {} urlCodec).1 _
    (.exec (.start start_oneQueued) (by decide +kernel) (exec_after _ (by decide +kernel)))

/-- The dead node's request stays in flight if the survivor is a
`RedisTaskScheduler`. -/
theorem deadNodeRun_not_recovered :
    ¬ ∀ s : Cluster Bool, (machine {} urlCodec).Reachable s → Recovered s := by
  intro h
  have hr : (machine {} urlCodec).Reachable (after (deadNodeRun .task)) :=
    .exec (.start start_oneQueued) (exec_after _ (by decide +kernel))
  rcases h _ hr [.took "a"] ["a"] [] rfl "a" (by decide) with hb | hb | hb
  · exact hb.1 (by decide)
  · exact absurd hb List.not_mem_nil
  · exact absurd hb List.not_mem_nil

end Cluster

end Netspy
