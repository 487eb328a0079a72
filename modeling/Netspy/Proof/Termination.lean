import Mathlib.Data.Fintype.Defs
import Netspy.Proof.Cluster

/-!
# When `_is_done` returns true

`_is_done` reads the two sets, the heartbeats and the poller one after the
other, and a `RedisTaskScheduler` does not read `z_inflight` at all: it relies
on the heartbeats of those who hold the leases. A heartbeat reports the work
its node has in hand when it is sent, so the runs keep beside the state what
that was (`tell`). The answer is right if nothing `_is_done` has read is
undone before it returns, and every lease is that of a node at work when a
`RedisTaskScheduler` reads the heartbeats (`Undisturbed`): then both sets are
empty and no task that the node popped is unconverted (`done_in_quiet`).
-/

namespace Netspy

open RedisScheduler

/-! ## What a heartbeat tells -/

namespace RedisScheduler

/-- The requests that `_local_pending` counts: those in the collector's buffer, with
a busy worker, or with an item that is pending. -/
def inHand (nd : RedisScheduler) : List Nat :=
  nd.collector.buffer ++ nd.workers.filterMap (fun
    | .busy t _ => some t
    | _ => none) ++ nd.items

theorem inHand_le (nd : RedisScheduler) : nd.inHand.length ≤ nd.localPending := by
  have hbusy : (nd.workers.filterMap fun
      | .busy t _ => some t
      | _ => none).length = nd.workers.countP isBusy := by
    induction nd.workers with
    | nil => rfl
    | cons x xs ih =>
      cases x with
      | busy => rw [List.countP_cons_of_pos rfl, ← ih]; rfl
      | idle | blocked | popped | got => rw [List.countP_cons_of_neg (by simp [isBusy]), ← ih]; rfl
  rw [inHand, List.length_append, List.length_append, hbusy, localPending, Collector.bufferedCount]
  omega

end RedisScheduler

/-! ## The poller -/

/-- A node without poller polls nothing, a poller in its loop is not exhausted,
and while `_is_done` runs nothing popped is unconverted. -/
structure PollsRight (nd : RedisScheduler) : Prop where
  redis : nd.kind = .redis → nd.poller.phase = .waiting
  converting : ∀ tasks, nd.poller.phase = .converting tasks → nd.poller.exhausted = false
  checking : nd.check ≠ .idle → nd.poller.unconverted = []

theorem TaskPoller.unconverted_of_waiting {p : TaskPoller} (h : p.phase = .waiting) : p.unconverted = [] := by
  rw [TaskPoller.unconverted, h]

theorem PollsRight.congr {nd nd' : RedisScheduler} (h : PollsRight nd) (hk : nd'.kind = nd.kind)
    (hp : nd'.poller = nd.poller) (hc : nd'.check ≠ .idle → nd.check ≠ .idle) : PollsRight nd' :=
  ⟨fun e => hp ▸ h.redis (hk ▸ e), fun tasks e => hp ▸ h.converting tasks (hp ▸ e),
    fun e => hp ▸ h.checking (hc e)⟩

namespace LocalStep

variable {nd nd' : RedisScheduler} {a : NodeAct}

/-- Only the main thread goes on with `_is_done`. -/
theorem check_kind (h : LocalStep nd a nd') : nd'.check = nd.check ∧ nd'.kind = nd.kind := by
  cases h <;> exact ⟨rfl, rfl⟩

/-- A poller that pops tasks only while the node is not in `_is_done`. -/
theorem pollsRight (h : LocalStep nd a nd') (hn : PollsRight nd)
    (hg : ∀ tasks, a = .fetch tasks → tasks = [] ∨ nd.check = .idle) : PollsRight nd' := by
  cases h with
  | fetchNone p hp =>
    refine ⟨fun _ => hp, fun tasks e => ?_, fun _ => TaskPoller.unconverted_of_waiting hp⟩
    have hp' : p.phase = .converting tasks := e
    rw [hp] at hp'
    cases hp'
  | fetch tasks hne hk =>
    refine ⟨fun e => ?_, nofun, fun e => ?_⟩
    · have hk' : nd.kind = .redis := e
      rw [hk] at hk'
      cases hk'
    · exact absurd ((hg tasks rfl).resolve_left hne) e
  | resetPolls tasks hp =>
    refine ⟨fun e => ?_, fun _ _ => rfl, fun e => ?_⟩
    · rw [hn.redis e] at hp
      cases hp
    · have := hn.checking e
      rwa [TaskPoller.unconverted, hp] at this
  | nextTask task tasks hp =>
    refine ⟨fun e => ?_, fun _ _ => hn.converting _ hp, fun e => ?_⟩
    · rw [hn.redis e] at hp
      cases hp
    · have := hn.checking e
      rw [TaskPoller.unconverted, hp] at this
      cases this
  | endPoll => exact ⟨fun _ => rfl, nofun, fun _ => rfl⟩
  | _ => exact hn.congr rfl rfl id

end LocalStep

namespace Cluster

variable {ν : Type} [DecidableEq ν] {st : Setting} {codec : Codec}

/-! ## The sets -/

/-- No call of `_is_done` has made its last read of `z_requests`. -/
def Unread (s : Cluster ν) : Prop :=
  ∀ n, (s.nodes n).check ≠ .inflight ∧ (s.nodes n).check ≠ .heartbeats

/-- No call of `_is_done` has read `z_inflight`. -/
def InflightUnread (s : Cluster ν) : Prop :=
  ∀ n, (s.nodes n).kind = .redis → (s.nodes n).check ≠ .heartbeats

/-- The requests that `told` has for a node are those that `_local_pending` counted
when the node sent its last heartbeat. -/
def tell (told : ν → List Nat) (s : Cluster ν) (a : ClusterAct ν) (_ : Cluster ν) : ν → List Nat :=
  match a with
  | .node n .beat => Function.update told n (s.nodes n).inHand
  | .node n .drain => Function.update told n []
  | _ => told

variable (ν st codec) in
/-- The runs with what the heartbeats were sent for. -/
def toldMachine : Machine (Cluster ν × (ν → List Nat)) (ClusterAct ν) :=
  (machine st codec).withHistory (fun _ => []) tell

variable (st) in
omit [DecidableEq ν] in
/-- The node has sent a heartbeat, which is not stale, and had a request in hand
when it sent the last one. -/
def AtWork (x : Cluster ν × (ν → List Nat)) (k : ν) : Prop :=
  x.2 k ≠ [] ∧ ∃ e ∈ x.1.heartbeat, e.1 = k ∧ x.1.now - e.2.1 ≤ st.HEARTBEAT_STALE

variable (st) in
omit [DecidableEq ν] in
/-- What is in flight was taken by nodes that are at work. -/
def LeasesAtWork (x : Cluster ν × (ν → List Nat)) : Prop :=
  ∀ p ∈ x.1.tasks.inflight.rows, ∃ k, p.2 ∈ (x.1.nodes k).taken ∧ AtWork st x k

variable (st) in
omit [DecidableEq ν] in
/-- Nothing that a call of `_is_done` has read is undone before it returns: no
member comes to a set that it found empty, and no task is popped, nor was one
just before it read `exhausted`. When a `RedisTaskScheduler` reads the
heartbeats, every lease is that of a node at work. -/
def Undisturbed (x : Cluster ν × (ν → List Nat)) : ClusterAct ν → Prop
  | .node _ (.push _ works) | .node _ (.pushBack works) => works = true → Unread x.1
  | .node _ (.lease _) => InflightUnread x.1
  | .node n (.fetch tasks) => tasks = [] ∨ (x.1.nodes n).check = .idle
  | .node n (.check works) =>
    ((x.1.nodes n).check = .idle →
      match (x.1.nodes n).kind with
      | .redis =>
        (x.1.nodes n).keepAlive = false → ((x.1.nodes n).inStartupGrace st x.1.now).1 = false →
          works = true → x.1.tasks.expired x.1.now reclaimLimit ≠ [] → Unread x.1
      | .task => (x.1.nodes n).poller.exhausted = true → (x.1.nodes n).poller.fetching = false) ∧
    ((x.1.nodes n).check = .heartbeats → (x.1.nodes n).kind = .task → LeasesAtWork st x)
  | _ => True

section
variable [Fintype ν] (s : Cluster ν) (x : Cluster ν × (ν → List Nat))

instance : Decidable (Unread s) := inferInstanceAs (Decidable (∀ _, _ ∧ _))

instance : Decidable (InflightUnread s) := inferInstanceAs (Decidable (∀ _, _ → _))

instance (k : ν) : Decidable (AtWork st x k) := inferInstanceAs (Decidable (_ ∧ _))

instance : Decidable (LeasesAtWork st x) := inferInstanceAs (Decidable (∀ p ∈ x.1.tasks.inflight.rows, _))

/-- A condition that depends on the kind of a scheduler. -/
def decidableOfKind {p q : Prop} [Decidable p] [Decidable q] : ∀ kind : SchedulerKind,
    Decidable (match kind with
      | .redis => p
      | .task => q)
  | .redis => inferInstanceAs (Decidable p)
  | .task => inferInstanceAs (Decidable q)

instance : ∀ a : ClusterAct ν, Decidable (Undisturbed st x a)
  | .node _ (.push _ works) | .node _ (.pushBack works) => inferInstanceAs (Decidable (works = true → Unread x.1))
  | .node _ (.lease _) => inferInstanceAs (Decidable (InflightUnread x.1))
  | .node n (.fetch tasks) => inferInstanceAs (Decidable (tasks = [] ∨ (x.1.nodes n).check = .idle))
  | .node n (.check _) =>
    @instDecidableAnd _ _ (@instDecidableForall _ _ _ (decidableOfKind (x.1.nodes n).kind)) inferInstance
  | .tick _ | .join .. | .kill _ | .node _ (.seed _) | .node _ (.popBuffer _) | .node _ (.get _) | .node _ (.getBatch _)
  | .node _ (.bzpopmin _) | .node _ (.timeout _) | .node _ (.yieldRequest ..) | .node _ (.putRetry ..)
  | .node _ (.putItem ..) | .node _ (.count _) | .node _ (.finish ..) | .node _ .swap | .node _ (.filter ..)
  | .node _ .swapItems | .node _ (.ackOwner ..) | .node _ (.failItems _) | .node _ .beat | .node _ .renew
  | .node _ .resetPolls | .node _ (.convert _) | .node _ .nextTask | .node _ .endPoll | .node _ .drain
  | .node _ (.pushDone _) => isTrue trivial

end

omit [DecidableEq ν] in
/-- A heartbeat that was sent for requests in hand reports pending work. -/
def Told (x : Cluster ν × (ν → List Nat)) : Prop :=
  ∀ k, x.2 k ≠ [] → ∀ e ∈ x.1.heartbeat, e.1 = k → 0 < e.2.2

omit [DecidableEq ν] in
theorem Told.not_idle {x : Cluster ν × (ν → List Nat)} (h : Told x) {k : ν} (hw : AtWork st x k) :
    x.1.allNodesIdle st ≠ true := by
  obtain ⟨ht, e, he, hek, hfresh⟩ := hw
  intro hi
  have hpending := h k ht e he hek
  have hidle := List.all_eq_true.mp hi e he
  simp only [Bool.or_eq_true, decide_eq_true_eq, beq_iff_eq] at hidle
  omega

/-- Only a heartbeat and the shutdown write to the hash. -/
theorem heartbeat_step {s t : Cluster ν} {a : ClusterAct ν} (hs : Stepped st codec s a t)
    (ha : ∀ n, a ≠ .node n .beat ∧ a ≠ .node n .drain) : t.heartbeat = s.heartbeat := by
  have hdone (u : Cluster ν) (n : ν) (k : Nat) (works : Bool) : (u.queueDone n k works).heartbeat = u.heartbeat := by
    rcases queueDone_cases u n k works with ⟨m, -, he⟩ | he
    · rw [he]
      rfl
    · rw [he]
  cases hs with
  | beat n => exact absurd rfl (ha n).1
  | drain n => exact absurd rfl (ha n).2
  | finish n | ackOwner n | pushDone n => exact hdone ..
  | _ => rfl

theorem Told.step {s t : Cluster ν} {told : ν → List Nat} {a : ClusterAct ν} (h : Told (s, told))
    (hs : Stepped st codec s a t) : Told (t, tell told s a t) := by
  by_cases ha : ∀ n, a ≠ .node n .beat ∧ a ≠ .node n .drain
  · have htell : tell told s a t = told := by
      unfold tell
      split
      · exact absurd rfl (ha _).1
      · exact absurd rfl (ha _).2
      · rfl
    intro k hk e he
    rw [htell] at hk
    exact h k hk e (heartbeat_step hs ha ▸ he)
  · obtain ⟨n, hn⟩ := not_forall.mp ha
    intro k hk e he hek
    rcases not_and_or.mp hn with hn | hn
    · obtain rfl := not_not.mp hn
      cases hs with
      | inNode _ _ _ hl => cases hl
      | beat =>
        have hk : Function.update told n (s.nodes n).inHand k ≠ [] := hk
        rcases List.mem_cons.mp he with rfl | he
        · rw [← hek, Function.update_self] at hk
          exact (List.length_pos_of_ne_nil hk).trans_le (inHand_le _)
        · obtain ⟨he, hen⟩ := List.mem_filter.mp he
          rw [Function.update_of_ne (hek ▸ of_decide_eq_true hen)] at hk
          exact h k hk e he hek
    · obtain rfl := not_not.mp hn
      cases hs with
      | inNode _ _ _ hl => cases hl
      | drain =>
        have hk : Function.update told n [] k ≠ [] := hk
        obtain ⟨he, hen⟩ := List.mem_filter.mp he
        rw [Function.update_of_ne (hek ▸ of_decide_eq_true hen)] at hk
        exact h k hk e he hek

theorem told_reachable {x : Cluster ν × (ν → List Nat)} (h : (toldMachine ν st codec).Reachable x) : Told x := by
  refine h.induct (I := Told) (fun y hy k hk => ?_) ?_
  · rw [hy.2] at hk
    exact absurd rfl hk
  · rintro ⟨s, told⟩ a ⟨t, told'⟩ hx - ht
    obtain ⟨ht, hh⟩ := Machine.withHistory_step.mp ht
    have hh : told' = tell told s a t := hh
    rw [hh]
    exact hx.step (stepped ht)

/-- Not an answer of `_is_done`, or one given when the sets were empty and
nothing popped was unconverted. -/
def InQuiet : Event → Prop
  | .done queueEmpty inflightEmpty unconverted =>
    queueEmpty = true ∧ inflightEmpty = true ∧ unconverted = []
  | _ => True

omit [DecidableEq ν] in
/-- Whenever `_is_done` returned true, the sets were empty and no task popped by
the node was unconverted. -/
def DoneInQuiet (s : Cluster ν) : Prop := ∀ e ∈ s.log, InQuiet e

omit [DecidableEq ν] in
/-- What `_is_done` has found still holds. -/
structure Observed (s : Cluster ν) : Prop where
  polls : ∀ n, PollsRight (s.nodes n)
  queue : ∀ n, (s.nodes n).check = .inflight ∨ (s.nodes n).check = .heartbeats →
    ∀ m, m ∉ s.tasks.queue
  inflight : ∀ n, (s.nodes n).kind = .redis → (s.nodes n).check = .heartbeats →
    ∀ m, m ∉ s.tasks.inflight
  done : DoneInQuiet s

omit [DecidableEq ν] in
theorem DoneInQuiet.append {s t : Cluster ν} (h : DoneInQuiet s) {es : List Event}
    (hl : t.log = s.log ++ es) (he : ∀ e ∈ es, InQuiet e) : DoneInQuiet t := by
  intro e hm
  rw [hl] at hm
  exact (List.mem_append.mp hm).elim (h e) (he e)

/-- A step that changes one node, and neither makes it pass a read nor adds to a
set that was found empty. -/
theorem Observed.update {s t : Cluster ν} (h : Observed s) {n : ν} {nd : RedisScheduler}
    (ht : t.nodes = Function.update s.nodes n nd) (hn : PollsRight nd)
    (hc : nd.check = .inflight ∨ nd.check = .heartbeats →
      nd.check = (s.nodes n).check ∧ nd.kind = (s.nodes n).kind)
    (hq : Unread s ∨ ∀ m, m ∈ t.tasks.queue → m ∈ s.tasks.queue)
    (hi : InflightUnread s ∨ ∀ m, m ∈ t.tasks.inflight → m ∈ s.tasks.queue ∨ m ∈ s.tasks.inflight)
    (hd : DoneInQuiet t) : Observed t := by
  have hsame : ∀ k, (t.nodes k).check = .inflight ∨ (t.nodes k).check = .heartbeats →
      (t.nodes k).check = (s.nodes k).check ∧ (t.nodes k).kind = (s.nodes k).kind := by
    intro k hk
    rw [ht] at hk ⊢
    by_cases hkn : k = n
    · subst hkn
      rw [Function.update_self] at hk ⊢
      exact hc hk
    · rw [Function.update_of_ne hkn]
      exact ⟨rfl, rfl⟩
  refine ⟨?_, fun k hk m hm => ?_, fun k hk hb m hm => ?_, hd⟩
  · rw [ht]
    exact (Function.forall_update_iff s.nodes fun _ => PollsRight).mpr ⟨hn, fun k _ => h.polls k⟩
  · have hs := (hsame k hk).1
    rw [hs] at hk
    rcases hq with hq | hq
    · exact hk.elim (hq k).1 (hq k).2
    · exact h.queue k hk m (hq m hm)
  · obtain ⟨hsc, hsk⟩ := hsame k (.inr hb)
    rw [hsc] at hb
    rw [hsk] at hk
    rcases hi with hi | hi
    · exact hi k hk hb
    · exact (hi m hm).elim (h.queue k (.inr hb) m) (h.inflight k hk hb m)

/-- A step in one node that leaves the shared state and the main thread. -/
theorem Observed.inNode {s : Cluster ν} (h : Observed s) (n : ν) {nd : RedisScheduler}
    (hn : PollsRight nd) (hc : nd.check = (s.nodes n).check) (hk : nd.kind = (s.nodes n).kind) :
    Observed (s.setNode n nd) :=
  h.update rfl hn (fun _ => ⟨hc, hk⟩) (.inr fun _ => id) (.inr fun _ => .inr) h.done

theorem Observed.queueDone {s : Cluster ν} (h : Observed s) (n : ν) (k : Nat) (works : Bool) :
    Observed (s.queueDone n k works) := by
  rcases queueDone_cases s n k works with ⟨p, -, he⟩ | he
  · rw [he]
    refine h.update rfl ((h.polls n).congr rfl rfl id) (fun _ => ⟨rfl, rfl⟩) (.inr fun _ => id)
      (.inr fun m hm => .inr (RedisTaskQueue.mem_inflight_doneMember.mp hm).1)
      (h.done.append rfl (by simp [InQuiet]))
  · rwa [he]

theorem Observed.collectorDone {s : Cluster ν} (h : Observed s) (n : ν) (k : Nat) (works : Bool) :
    Observed (s.collectorDone n k works) := by
  have hn : Observed (s.setNode n
      { s.nodes n with collector := (s.nodes n).collector.done k }) :=
    h.inNode n ((h.polls n).congr rfl rfl id) rfl rfl
  exact hn.queueDone n k works

/-- A take adds to `z_inflight` what was in `z_requests`. -/
theorem Observed.take {s t : Cluster ν} (h : Observed s) {n : ν} {nd : RedisScheduler} {count : Nat}
    {ms : List String} (hq : s.tasks.take st s.now count = (ms, t.tasks))
    (ht : t.nodes = Function.update s.nodes n nd) (hn : PollsRight nd)
    (hc : nd.check = (s.nodes n).check) (hk : nd.kind = (s.nodes n).kind)
    (hl : t.log = s.log ++ ms.map .took) : Observed t := by
  refine h.update ht hn (fun _ => ⟨hc, hk⟩) (.inr fun m hm => ?_) (.inr fun m hm => ?_)
    (h.done.append hl (by simp [InQuiet]))
  · exact RedisTaskQueue.mem_queue_take.mpr (.inr (by rw [hq]; exact hm))
  · have hi : m ∈ (s.tasks.take st s.now count).2.inflight := by rwa [hq]
    rcases RedisTaskQueue.inflight_take_subset hi with hm | hm
    · exact .inl (RedisTaskQueue.mem_queue_take.mpr (.inl hm))
    · exact .inr hm

/-! ## The reads -/

omit [DecidableEq ν] in
/-- A read goes on to `z_inflight` or the heartbeats only from an empty set. -/
theorem checkNext_spec (s : Cluster ν) (nd : RedisScheduler) (hgo : (s.checkNext st nd).1 = true) :
    ((s.checkNext st nd).2 = .inflight → nd.check = .queue ∧ s.tasks.empty = true) ∧
      ((s.checkNext st nd).2 = .heartbeats →
        nd.check = .queue ∧ s.tasks.empty = true ∧ nd.kind = .task ∨
          nd.check = .inflight ∧ s.tasks.inflight.zcard = 0) := by
  unfold checkNext at hgo ⊢
  cases hc : nd.check with
  | idle | requestBuffer | collector | collectorQueue | itemBuffer | heartbeats => exact ⟨nofun, nofun⟩
  | worker w =>
    dsimp only
    split <;> exact ⟨nofun, nofun⟩
  | queue =>
    rw [hc] at hgo
    refine ⟨fun _ => ⟨rfl, hgo⟩, fun e => .inl ⟨rfl, hgo, ?_⟩⟩
    cases hk : nd.kind with
    | redis => simp [hk] at e
    | task => rfl
  | inflight =>
    rw [hc] at hgo
    exact ⟨nofun, fun _ => .inr ⟨rfl, by simpa [RedisTaskQueue.inflightCount] using hgo⟩⟩

theorem Observed.read {s : Cluster ν} (h : Observed s) (n : ν) (hne : (s.nodes n).check ≠ .idle) :
    Observed (s.setNode n
      { s.nodes n with
        check := if (s.checkNext st (s.nodes n)).1 then (s.checkNext st (s.nodes n)).2 else .idle }) := by
  cases hgo : (s.checkNext st (s.nodes n)).1 with
  | false =>
    exact h.update rfl ((h.polls n).congr rfl rfl fun _ => hne) (by simp) (.inr fun _ => id)
      (.inr fun _ => .inr) h.done
  | true =>
    obtain ⟨hin, hbeat⟩ := checkNext_spec s (s.nodes n) hgo
    refine ⟨?_, ?_, ?_, h.done⟩
    · exact (Function.forall_update_iff s.nodes fun _ => PollsRight).mpr
        ⟨(h.polls n).congr rfl rfl fun _ => hne, fun k _ => h.polls k⟩
    · refine (Function.forall_update_iff s.nodes fun _ (nd : RedisScheduler) =>
        nd.check = .inflight ∨ nd.check = .heartbeats → ∀ m, m ∉ s.tasks.queue).mpr
          ⟨fun hk => ?_, fun k _ => h.queue k⟩
      rcases hk with hk | hk
      · exact RedisTaskQueue.empty_iff.mp (hin hk).2
      · rcases hbeat hk with ⟨-, he, -⟩ | ⟨hc, -⟩
        · exact RedisTaskQueue.empty_iff.mp he
        · exact h.queue n (.inl hc)
    · refine (Function.forall_update_iff s.nodes fun _ (nd : RedisScheduler) =>
        nd.kind = .redis → nd.check = .heartbeats → ∀ m, m ∉ s.tasks.inflight).mpr
          ⟨fun hk hb => ?_, fun k _ => h.inflight k⟩
      rcases hbeat hb with ⟨-, -, ht⟩ | ⟨-, he⟩
      · rw [show (s.nodes n).kind = .redis from hk] at ht
        cases ht
      · exact ZSet.zcard_eq_zero.mp he

/-- The call returns: the sets and the poller are as it has found them. -/
theorem Observed.readIdle {s : Cluster ν} {told : ν → List Nat} (h : Observed s) (ht : Told (s, told)) (n : ν)
    {works : Bool} (hg : Undisturbed st (s, told) (.node n (.check works)))
    (hc : (s.nodes n).check = .heartbeats) (hi : s.allNodesIdle st = true) :
    Observed ((s.setNode n { s.nodes n with check := .idle }).note
      [.done s.tasks.empty (s.tasks.inflightCount == 0) (s.nodes n).poller.unconverted]) := by
  refine h.update rfl ((h.polls n).congr rfl rfl (by simp)) (by simp) (.inr fun _ => id)
    (.inr fun _ => .inr) (h.done.append rfl fun e he => ?_)
  rw [List.mem_singleton.mp he]
  refine ⟨RedisTaskQueue.empty_iff.mpr (h.queue n (.inr hc)), beq_iff_eq.mpr ?_,
    (h.polls n).checking (by rw [hc]; simp)⟩
  cases hk : (s.nodes n).kind with
  | redis => exact ZSet.zcard_eq_zero.mpr (h.inflight n hk hc)
  | task =>
    -- whoever holds a lease has told of it
    refine ZSet.zcard_eq_zero.mpr fun m hm => ?_
    obtain ⟨y, hy⟩ := ZSet.mem_iff.mp hm
    obtain ⟨k, -, hwork⟩ := hg.2 hc hk (y, m) hy
    exact ht.not_idle hwork hi

omit [DecidableEq ν] in
/-- A `RedisTaskScheduler` begins: its poller is exhausted, so it is in no loop. -/
theorem Observed.pollTask {s : Cluster ν} {told : ν → List Nat} (h : Observed s) (n : ν) {works : Bool}
    (hg : Undisturbed st (s, told) (.node n (.check works))) (hc : (s.nodes n).check = .idle)
    (hk : (s.nodes n).kind = .task) (he : (s.nodes n).poller.exhausted = true) :
    PollsRight { s.nodes n with check := .requestBuffer } := by
  refine ⟨(h.polls n).redis, (h.polls n).converting, fun _ => ?_⟩
  have hf : (s.nodes n).poller.fetching = false := by
    have := hg.1 hc
    rw [hk] at this
    exact this he
  show (s.nodes n).poller.unconverted = []
  unfold TaskPoller.unconverted
  cases hp : (s.nodes n).poller.phase with
  | waiting => rfl
  | fetched tasks =>
    rw [TaskPoller.fetching, hp] at hf
    cases hf
  | converting tasks =>
    rw [(h.polls n).converting tasks hp] at he
    cases he

/-- A `RedisScheduler` begins. -/
theorem Observed.pollReclaim {s : Cluster ν} {told : ν → List Nat} (h : Observed s) (n : ν)
    {works seenWork : Bool} (hg : Undisturbed st (s, told) (.node n (.check works))) (hc : (s.nodes n).check = .idle)
    (ha : (s.nodes n).keepAlive = false) (hk : (s.nodes n).kind = .redis)
    (hgr : ((s.nodes n).inStartupGrace st s.now).1 = false) {moved : Nat} {q : RedisTaskQueue}
    (hq : s.tasks.reclaimExpired st s.now reclaimLimit works = (moved, q)) :
    Observed (((s.note [.polled (s.tasks.due s.now)]).setTasks q).setNode n
      { s.nodes n with seenWork, check := if moved = 0 then .requestBuffer else .idle }) := by
  have hp : PollsRight { s.nodes n with seenWork, check := if moved = 0 then .requestBuffer else .idle } :=
    ⟨(h.polls n).redis, (h.polls n).converting,
      fun _ => TaskPoller.unconverted_of_waiting ((h.polls n).redis hk)⟩
  have hq' : q = (s.tasks.reclaimExpired st s.now reclaimLimit works).2 := by rw [hq]
  refine h.update rfl hp (by split <;> simp) ?_ (.inr fun m hm => .inr ?_)
    (h.done.append rfl (by simp [InQuiet]))
  · by_cases he : works = true ∧ s.tasks.expired s.now reclaimLimit ≠ []
    · have := hg.1 hc
      rw [hk] at this
      exact .inl (this ha hgr he.1 he.2)
    · -- nothing moves
      refine .inr fun m hm => ?_
      have hsame : q.queue = s.tasks.queue := by
        rw [hq']
        unfold RedisTaskQueue.reclaimExpired
        split
        · rfl
        · rename_i hw
          have hnil : s.tasks.expired s.now reclaimLimit = [] := by
            by_contra hne
            exact he ⟨by simpa using (not_or.mp hw).2, hne⟩
          rw [hnil]
          rfl
      exact hsame ▸ hm
  · exact RedisTaskQueue.inflight_reclaimExpired_subset (hq' ▸ hm)

theorem Observed.step {s t : Cluster ν} {told : ν → List Nat} {a : ClusterAct ν} (ht : Told (s, told))
    (h : Observed s) (hg : Undisturbed st (s, told) a) (hs : Stepped st codec s a t) : Observed t := by
  cases hs with
  | tick | beat => exact ⟨h.polls, h.queue, h.inflight, h.done⟩
  | join n kind keepAlive threads =>
    exact h.update rfl ⟨fun _ => rfl, nofun, fun e => absurd rfl e⟩ (by simp) (.inr fun _ => id)
      (.inr fun _ => .inr) h.done
  | kill n =>
    exact h.update rfl ((h.polls n).congr rfl rfl (by simp)) (by simp) (.inr fun _ => id)
      (.inr fun _ => .inr) h.done
  | inNode n a nd hl =>
    refine h.inNode n (hl.pollsRight (h.polls n) ?_) hl.check_kind.1 hl.check_kind.2
    rintro tasks rfl
    exact hg
  | get n w p rest q hw hq =>
    have hrest := RedisTaskQueue.take_one (congrArg Prod.fst hq)
    rw [hrest] at hq
    exact h.take hq rfl ((h.polls n).congr rfl rfl id) rfl rfl rfl
  | getBatch n w k ms q extra hw hq => exact h.take hq rfl ((h.polls n).congr rfl rfl id) rfl rfl rfl
  | bzpopmin n w p q hw hq =>
    obtain ⟨-, hi, -⟩ := RedisTaskQueue.mem_bzpopmin (m := p) hq
    refine h.update rfl ((h.polls n).congr rfl rfl id) (fun _ => ⟨rfl, rfl⟩) (.inr fun m hm => ?_)
      (.inr fun m hm => .inr (hi ▸ hm)) (h.done.append rfl (by simp [InQuiet]))
    exact (RedisTaskQueue.mem_bzpopmin hq).2.2.mpr (.inr hm)
  | lease n w p hw =>
    refine h.update rfl ((h.polls n).congr rfl rfl id) (fun _ => ⟨rfl, rfl⟩) (.inr fun m hm => ?_)
      (.inl hg) (h.done.append rfl (by simp [InQuiet]))
    rwa [note_tasks, setNode_tasks, setTasks_tasks, RedisTaskQueue.queue_recordLease] at hm
  | finish n w k works | ackOwner n j k rest works =>
    refine Observed.collectorDone ?_ n k works
    exact h.inNode n ((h.polls n).congr rfl rfl id) rfl rfl
  | pushDone n k works =>
    refine Observed.queueDone ?_ n k works
    exact h.inNode n ((h.polls n).congr rfl rfl id) rfl rfl
  | push n | pushBack n =>
    exact h.update rfl ((h.polls n).congr rfl rfl id) (fun _ => ⟨rfl, rfl⟩) (.inl (hg rfl))
      (.inr fun m hm => .inr hm) h.done
  | renew n =>
    refine h.update (Function.update_eq_self n s.nodes).symm (h.polls n) (fun _ => ⟨rfl, rfl⟩)
      (.inr fun m hm => ?_) (.inr fun m hm => .inr (RedisTaskQueue.mem_inflight_renew.mp hm)) h.done
    rwa [setTasks_tasks, RedisTaskQueue.queue_renew] at hm
  | pollIgnored n works =>
    exact ⟨h.polls, h.queue, h.inflight, h.done.append rfl (by simp [InQuiet])⟩
  | pollTask n works hc _ hk he =>
    exact h.update rfl (h.pollTask n hg hc hk he) (by simp) (.inr fun _ => id) (.inr fun _ => .inr)
      (h.done.append rfl (by simp [InQuiet]))
  | pollReclaim n works seenWork hc ha hk hgr moved q hq => exact h.pollReclaim n hg hc ha hk hgr hq
  | read n works h₁ => exact h.read n h₁
  | readIdle n works hc hi => exact h.readIdle ht n hg hc hi
  | readBusy n =>
    exact h.update rfl ((h.polls n).congr rfl rfl (by simp)) (by simp) (.inr fun _ => id)
      (.inr fun _ => .inr) h.done
  | drain n =>
    exact h.update rfl ((h.polls n).congr rfl rfl id) (fun _ => ⟨rfl, rfl⟩) (.inr fun _ => id)
      (.inr fun _ => .inr) h.done

/-! ## The runs -/

theorem observed_start {s : Cluster ν} (h : (machine st codec).start s) : Observed s := by
  refine ⟨fun n => ?_, fun n hn => ?_, fun n _ hn => ?_, fun e he => ?_⟩
  · rw [h.1 n]
    exact ⟨fun _ => rfl, nofun, fun e => absurd rfl e⟩
  · rw [h.1 n] at hn
    exact hn.elim nofun nofun
  · rw [h.1 n] at hn
    cases hn
  · rw [h.2] at he
    exact absurd he List.not_mem_nil

def toldAfter (as : List (ClusterAct Bool)) : Cluster Bool × (Bool → List Nat) :=
  ((toldMachine Bool {} urlCodec).exec (oneQueued, fun _ => []) as).getD ({}, fun _ => [])

theorem exec_toldAfter (as : List (ClusterAct Bool))
    (h : ((toldMachine Bool {} urlCodec).exec (oneQueued, fun _ => []) as).isSome = true) :
    (toldMachine Bool {} urlCodec).exec (oneQueued, fun _ => []) as = some (toldAfter as) :=
  Machine.exec_getD h _

theorem start_toldAfter : (toldMachine Bool {} urlCodec).start (oneQueued, fun _ => []) := ⟨start_oneQueued, rfl⟩

/-- An action for each read of `_is_done`. -/
def checks (n : Bool) (reads : Nat) : List (ClusterAct Bool) := List.replicate reads (.node n (.check true))

/-- A node works off the queue while another, which has no tasks, reads its
heartbeat, and both stop. -/
def quietRun : List (ClusterAct Bool) :=
  [ClusterAct.join true .redis false 1, .join false .task false 1, .node true (.get 0), .node true (.getBatch 0),
    .node true (.count 0), .node true .beat] ++ List.replicate 3 (ClusterAct.node false (.fetch [])) ++ checks false 9 ++
      [ClusterAct.node true (.finish 0 true), .node true .beat] ++ checks true 10 ++ checks false 9

/-- A `RedisScheduler` takes the request and is killed; a `RedisTaskScheduler`
that finds no tasks calls `_is_done`. -/
def orphanRun : List (ClusterAct Bool) :=
  [ClusterAct.join false .redis false 1, .node false (.get 0), .kill false, .join true .task false 1,
    .node true (.fetch []), .node true (.fetch []), .node true (.fetch [])] ++ checks true 9

end Cluster

end Netspy
