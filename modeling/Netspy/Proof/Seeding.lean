import Netspy.Impl.Seeding
import Netspy.Proof.Placed

/-!
# Nobody is done before the seeds are in

A node that gets to the end of `_seed_requests` has nothing left in its buffer,
so each request of `start_requests` was dropped or put into the queue by then.
Whoever has taken the lock is still seeding or has got there, if it was not
killed and found the queue empty (`Sown`). While it seeds, it has no heartbeat,
and all that keeps the others from finishing is their startup grace: as long as
this lasts, `_is_done` returns false without a look at the queue (`Patient`). So
nobody is done before the seeds are in, if the seeding is over before anybody's
grace is.
-/

namespace Netspy

open RedisScheduler

namespace Cluster

variable {ν : Type} [DecidableEq ν] {st : Setting} {codec : Codec} {s t : Cluster ν}

theorem nodes_queueDone_of_ne {n i : ν} (hi : i ≠ n) (k : Nat) (works : Bool) :
    (s.queueDone n k works).nodes i = s.nodes i := by
  rcases queueDone_cases s n k works with ⟨m, -, he⟩ | he
  · rw [he]
    exact Function.update_of_ne hi ..
  · rw [he]

/-- A step of a node changes no other. -/
theorem nodes_of_ne {n i : ν} {a : NodeAct} (hs : Stepped st codec s (.node n a) t) (hi : i ≠ n) :
    t.nodes i = s.nodes i := by
  cases hs with
  | beat | renew | pollIgnored => rfl
  | finish _ w k works | ackOwner _ j k rest works =>
    refine (nodes_queueDone_of_ne hi k works).trans ?_
    rw [setNode_nodes, Function.update_of_ne hi, setNode_nodes, Function.update_of_ne hi]
  | pushDone _ k works =>
    refine (nodes_queueDone_of_ne hi k works).trans ?_
    rw [setNode_nodes, Function.update_of_ne hi]
  | _ => exact Function.update_of_ne hi ..

end Cluster

/-! ## What a node does not forget -/

namespace RedisScheduler

structure Grows (nd nd' : RedisScheduler) : Prop where
  present : nd'.status ≠ .absent
  yielded : nd.yielded ⊆ nd'.yielded
  dropped : nd.dropped ⊆ nd'.dropped
  landed : nd.landed ⊆ nd'.landed

theorem Grows.of_eq {nd nd' : RedisScheduler} (hp : nd.status ≠ .absent) (hs : nd'.status = nd.status)
    (hy : nd'.yielded = nd.yielded) (hd : nd'.dropped = nd.dropped) (hl : nd'.landed = nd.landed) : Grows nd nd' :=
  ⟨hs ▸ hp, hy ▸ List.Subset.refl _, hd ▸ List.Subset.refl _, hl ▸ List.Subset.refl _⟩

theorem Grows.trans {nd₁ nd₂ nd₃ : RedisScheduler} (h : Grows nd₁ nd₂) (h' : Grows nd₂ nd₃) : Grows nd₁ nd₃ :=
  ⟨h'.present, List.Subset.trans h.yielded h'.yielded, List.Subset.trans h.dropped h'.dropped,
    List.Subset.trans h.landed h'.landed⟩

/-- The node is in no call of `_is_done` and has seen no work. -/
structure Unseen (nd : RedisScheduler) : Prop where
  check : nd.check = .idle
  seenWork : nd.seenWork = false
  counted : nd.counted = false

/-- What a step that is neither of `_is_done` nor counts a request does to that. -/
structure Same (nd nd' : RedisScheduler) : Prop where
  kind : nd'.kind = nd.kind
  keepAlive : nd'.keepAlive = nd.keepAlive
  startedAt : nd'.startedAt = nd.startedAt
  check : nd'.check = nd.check ∨ nd'.check = .idle
  seenWork : nd'.seenWork = nd.seenWork
  counted : nd'.counted = nd.counted
  running : nd'.status = .running → nd.status = .running

theorem Same.of_eq {nd nd' : RedisScheduler} (hk : nd'.kind = nd.kind) (ha : nd'.keepAlive = nd.keepAlive)
    (hs : nd'.startedAt = nd.startedAt) (hc : nd'.check = nd.check) (hw : nd'.seenWork = nd.seenWork)
    (hn : nd'.counted = nd.counted) (hst : nd'.status = nd.status) : Same nd nd' :=
  ⟨hk, ha, hs, .inl hc, hw, hn, hst.symm.trans⟩

theorem same_refl (nd : RedisScheduler) : Same nd nd := .of_eq rfl rfl rfl rfl rfl rfl rfl

theorem Same.trans {nd₁ nd₂ nd₃ : RedisScheduler} (h : Same nd₁ nd₂) (h' : Same nd₂ nd₃) : Same nd₁ nd₃ := by
  refine ⟨h'.kind.trans h.kind, h'.keepAlive.trans h.keepAlive, h'.startedAt.trans h.startedAt, ?_,
    h'.seenWork.trans h.seenWork, h'.counted.trans h.counted, fun hr => h.running (h'.running hr)⟩
  rcases h'.check with hc | hc
  · exact h.check.imp hc.trans hc.trans
  · exact .inr hc

theorem Same.idle {nd nd' : RedisScheduler} (h : Same nd nd') (hc : nd.check = .idle) : nd'.check = .idle :=
  h.check.elim (fun he => he.trans hc) id

theorem Same.unseen {nd nd' : RedisScheduler} (h : Same nd nd') (hu : Unseen nd) : Unseen nd' :=
  ⟨h.idle hu.check, h.seenWork.trans hu.seenWork, h.counted.trans hu.counted⟩

end RedisScheduler

theorem LocalStep.grows {nd nd' : RedisScheduler} {a : NodeAct} (h : LocalStep nd a nd')
    (hp : nd.status ≠ .absent) : Grows nd nd' := by
  cases h with
  | seed | yieldRequest | putRetry | convert =>
    exact ⟨hp, List.subset_append_left .., List.Subset.refl _, List.Subset.refl _⟩
  | filter => exact ⟨hp, List.Subset.refl _, List.subset_append_left .., List.Subset.refl _⟩
  | _ => exact .of_eq hp rfl rfl rfl rfl

theorem LocalStep.same {nd nd' : RedisScheduler} {a : NodeAct} (h : LocalStep nd a nd') (ha : ∀ w, a ≠ .count w) :
    Same nd nd' := by
  cases h with
  | count w => exact absurd rfl (ha w)
  | _ => exact .of_eq rfl rfl rfl rfl rfl rfl rfl

namespace Cluster

variable {ν : Type} [DecidableEq ν] {st : Setting} {codec : Codec} {s t : Cluster ν}

theorem grows_update {n : ν} {nd : RedisScheduler} (ht : t.nodes = Function.update s.nodes n nd) {i : ν}
    (hp : (s.nodes i).status ≠ .absent) (h : (s.nodes n).status ≠ .absent → Grows (s.nodes n) nd) :
    Grows (s.nodes i) (t.nodes i) := by
  rw [ht]
  by_cases hin : i = n
  · subst hin
    rw [Function.update_self]
    exact h hp
  · rw [Function.update_of_ne hin]
    exact .of_eq hp rfl rfl rfl rfl

theorem grows_setNode {n : ν} {nd : RedisScheduler} {i : ν} (hp : (s.nodes i).status ≠ .absent)
    (h : (s.nodes n).status ≠ .absent → Grows (s.nodes n) nd) :
    Grows (s.nodes i) ((s.setNode n nd).nodes i) := grows_update rfl hp h

theorem grows_queueDone (n : ν) (k : Nat) (works : Bool) {i : ν} (hp : (s.nodes i).status ≠ .absent) :
    Grows (s.nodes i) ((s.queueDone n k works).nodes i) := by
  rcases queueDone_cases s n k works with ⟨m, -, he⟩ | he
  · rw [he]
    refine grows_update rfl hp fun hp => ?_
    exact .of_eq hp rfl rfl rfl rfl
  · rw [he]
    exact .of_eq hp rfl rfl rfl rfl

theorem grows_collectorDone (n : ν) (k : Nat) (works : Bool) {i : ν} (hp : (s.nodes i).status ≠ .absent) :
    Grows (s.nodes i) ((s.collectorDone n k works).nodes i) := by
  have hg := @grows_setNode ν _ s n { s.nodes n with collector := (s.nodes n).collector.done k } i hp
    fun hp => .of_eq hp rfl rfl rfl rfl
  exact hg.trans (grows_queueDone n k works hg.present)

/-- What a node has yielded, dropped and put stays so. -/
theorem grows_step {a : ClusterAct ν} (hs : Stepped st codec s a t) (i : ν) (hp : (s.nodes i).status ≠ .absent) :
    Grows (s.nodes i) (t.nodes i) := by
  cases hs with
  | tick | beat | renew | pollIgnored => exact .of_eq hp rfl rfl rfl rfl
  | join n _ _ _ hn => exact grows_update rfl hp fun hpn => absurd hn hpn
  | kill n =>
    refine grows_update rfl hp fun _ => ?_
    exact ⟨nofun, List.Subset.refl _, List.Subset.refl _, List.Subset.refl _⟩
  | inNode n a nd hl => exact grows_update rfl hp hl.grows
  | finish n w k works =>
    have hg := @grows_setNode ν _ s n ((s.nodes n).setWorker w .idle) i hp fun hp => .of_eq hp rfl rfl rfl rfl
    exact hg.trans (grows_collectorDone n k works hg.present)
  | ackOwner n j k rest works =>
    have hg := @grows_setNode ν _ s n { s.nodes n with itemFlushes := (s.nodes n).itemFlushes.set j rest } i hp
      fun hp => .of_eq hp rfl rfl rfl rfl
    exact hg.trans (grows_collectorDone n k works hg.present)
  | pushDone n k works =>
    have hg := @grows_setNode ν _ s n { s.nodes n with settling := none } i hp fun hp => .of_eq hp rfl rfl rfl rfl
    exact hg.trans (grows_queueDone n k works hg.present)
  | push n | pushBack n =>
    refine grows_update rfl hp fun hp => ?_
    exact ⟨hp, List.Subset.refl _, List.Subset.refl _, List.subset_append_left ..⟩
  | drain n =>
    refine grows_update rfl hp fun hp => ?_
    exact ⟨nofun, List.Subset.refl _, List.Subset.refl _, List.Subset.refl _⟩
  | _ =>
    refine grows_update rfl hp fun hp => ?_
    exact .of_eq hp rfl rfl rfl rfl

/-! ## Whether a node may finish -/

theorem same_update {n : ν} {nd : RedisScheduler} (ht : t.nodes = Function.update s.nodes n nd)
    (h : Same (s.nodes n) nd) (i : ν) : Same (s.nodes i) (t.nodes i) := by
  rw [ht]
  by_cases hin : i = n
  · subst hin
    rwa [Function.update_self]
  · rw [Function.update_of_ne hin]
    exact same_refl _

theorem same_queueDone (n : ν) (k : Nat) (works : Bool) (i : ν) :
    Same (s.nodes i) ((s.queueDone n k works).nodes i) := by
  rcases queueDone_cases s n k works with ⟨m, -, he⟩ | he
  · rw [he]
    refine same_update rfl ?_ i
    exact .of_eq rfl rfl rfl rfl rfl rfl rfl
  · rw [he]
    exact same_refl _

theorem same_collectorDone (n : ν) (k : Nat) (works : Bool) (i : ν) :
    Same (s.nodes i) ((s.collectorDone n k works).nodes i) := by
  refine Same.trans (same_update (setNode_nodes s n _) ?_ i) (same_queueDone n k works i)
  exact .of_eq rfl rfl rfl rfl rfl rfl rfl

theorem same_step {a : ClusterAct ν} (hs : Stepped st codec s a t) (hjoin : ∀ n kind keepAlive threads,
      a ≠ .join n kind keepAlive threads) (hcount : ∀ n w, a ≠ .node n (.count w))
    (hcheck : ∀ n works, a ≠ .node n (.check works)) (i : ν) : Same (s.nodes i) (t.nodes i) := by
  cases hs with
  | tick | beat | renew => exact same_refl _
  | join n kind keepAlive threads => exact absurd rfl (hjoin n kind keepAlive threads)
  | kill n =>
    refine same_update rfl ?_ i
    exact ⟨rfl, rfl, rfl, .inr rfl, rfl, rfl, nofun⟩
  | drain n =>
    refine same_update rfl ?_ i
    exact ⟨rfl, rfl, rfl, .inl rfl, rfl, rfl, nofun⟩
  | inNode n a nd hl => exact same_update rfl (hl.same fun w he => hcount n w (by rw [he])) i
  | pollIgnored n works | pollTask n works | pollReclaim n works | read n works | readIdle n works
  | readBusy n works => exact absurd rfl (hcheck n works)
  | finish n w k works | ackOwner n j k rest works =>
    refine Same.trans (same_update (setNode_nodes s n _) ?_ i) (same_collectorDone n k works i)
    exact .of_eq rfl rfl rfl rfl rfl rfl rfl
  | pushDone n k works =>
    refine Same.trans (same_update (setNode_nodes s n _) ?_ i) (same_queueDone n k works i)
    exact .of_eq rfl rfl rfl rfl rfl rfl rfl
  | _ =>
    refine same_update rfl ?_ i
    exact .of_eq rfl rfl rfl rfl rfl rfl rfl

theorem count_node {n : ν} {w : Nat} (hs : Stepped st codec s (.node n (.count w)) t) :
    t = s.setNode n { s.nodes n with counted := true } := by
  cases hs with
  | inNode _ _ _ hl =>
    cases hl
    rfl

/-- Only time goes by without a node. -/
theorem now_node {n : ν} {a : NodeAct} (hs : Stepped st codec s (.node n a) t) : t.now = s.now := by
  have hdone (u : Cluster ν) (k : Nat) (works : Bool) : (u.queueDone n k works).now = u.now := by
    rcases queueDone_cases u n k works with ⟨m, -, he⟩ | he
    · rw [he]
      rfl
    · rw [he]
  cases hs with
  | finish | ackOwner | pushDone => exact hdone ..
  | _ => rfl

/-- A node that has seen no work is within its grace until this is over. -/
theorem inStartupGrace_of_unseen {nd : RedisScheduler} {now : Nat} (hu : Unseen nd)
    (hg : now - nd.startedAt < st.SPIDER_STARTUP_GRACE) : (nd.inStartupGrace st now).1 = true := by
  rw [inStartupGrace, hu.seenWork, hu.counted]
  exact decide_eq_true hg

/-- `_is_done` on a `RedisScheduler` that keeps alive, or is within its grace: it
returns at once. -/
theorem check_ignored {n : ν} {works : Bool} (hs : Stepped st codec s (.node n (.check works)) t)
    (hc : (s.nodes n).check = .idle) (hk : (s.nodes n).kind = .redis)
    (hg : (s.nodes n).keepAlive = true ∨ ((s.nodes n).inStartupGrace st s.now).1 = true) :
    t.nodes = s.nodes := by
  cases hs with
  | inNode _ _ _ hl => cases hl
  | pollIgnored => rfl
  | pollTask _ _ _ _ hk' =>
    rw [hk] at hk'
    cases hk'
  | pollReclaim _ _ _ _ ha _ hg' =>
    rcases hg with hg | hg
    · rw [hg] at ha
      cases ha
    · rw [hg] at hg'
      cases hg'
  | read _ _ hne => exact absurd hc hne
  | readIdle _ _ hb | readBusy _ _ hb =>
    rw [hc] at hb
    cases hb

/-- A node that shuts down calls it no more. -/
theorem running_of_check {n : ν} {works : Bool} (h : s.step st codec (.node n (.check works)) = some t) :
    (s.nodes n).status = .running := by
  simp only [step, act] at h
  split_ifs at h
  assumption

/-- Whatever it reads, it is a call of the same node. -/
theorem check_same {n : ν} {works : Bool} (hs : Stepped st codec s (.node n (.check works)) t) (i : ν) :
    (t.nodes i).kind = (s.nodes i).kind ∧ (t.nodes i).keepAlive = (s.nodes i).keepAlive ∧
      (t.nodes i).startedAt = (s.nodes i).startedAt ∧ (t.nodes i).status = (s.nodes i).status := by
  have hof {nd : RedisScheduler} (ht : t.nodes = Function.update s.nodes n nd)
      (hn : nd.kind = (s.nodes n).kind ∧ nd.keepAlive = (s.nodes n).keepAlive ∧
        nd.startedAt = (s.nodes n).startedAt ∧ nd.status = (s.nodes n).status) :
      (t.nodes i).kind = (s.nodes i).kind ∧ (t.nodes i).keepAlive = (s.nodes i).keepAlive ∧
        (t.nodes i).startedAt = (s.nodes i).startedAt ∧ (t.nodes i).status = (s.nodes i).status := by
    rw [ht]
    by_cases hin : i = n
    · subst hin
      rwa [Function.update_self]
    · rw [Function.update_of_ne hin]
      exact ⟨rfl, rfl, rfl, rfl⟩
  cases hs with
  | inNode _ _ _ hl => cases hl
  | pollIgnored => exact ⟨rfl, rfl, rfl, rfl⟩
  | _ => exact hof rfl ⟨rfl, rfl, rfl, rfl⟩

/-- While it seeds, a node neither shuts down nor dumps anything. -/
theorem own_step {n : ν} {a : NodeAct} (hs : Stepped st codec s (.node n a) t)
    (ha : a.isFlush = true ∨ a.isSeed = true) :
    (t.nodes n).status = (s.nodes n).status ∧ (t.nodes n).dumped = (s.nodes n).dumped := by
  cases hs with
  | inNode _ _ nd hl =>
    rw [setNode_nodes, Function.update_self]
    cases hl with
    | seed | swap | filter | pushRaised => exact ⟨rfl, rfl⟩
    | _ => exact absurd ha (by rintro (h | h) <;> cases h)
  | push =>
    rw [setNode_nodes, Function.update_self]
    exact ⟨rfl, rfl⟩
  | _ => exact absurd ha (by rintro (h | h) <;> cases h)

theorem done_of_queueDone {n : ν} {k : Nat} {works : Bool} {e : Event} (he : e ∈ (s.queueDone n k works).log)
    (hd : e.isDone = true) : e ∈ s.log := by
  rcases queueDone_cases s n k works with ⟨m, -, heq⟩ | heq
  · rw [heq] at he
    rcases List.mem_append.mp he with he | he
    · exact he
    · rw [List.mem_singleton.mp he] at hd
      cases hd
  · rwa [heq] at he

theorem done_of_collectorDone {n : ν} {k : Nat} {works : Bool} {e : Event}
    (he : e ∈ (s.collectorDone n k works).log) (hd : e.isDone = true) : e ∈ s.log :=
  @done_of_queueDone ν _ (s.setNode n { s.nodes n with collector := (s.nodes n).collector.done k }) n k works e he hd

/-- The last read of `_is_done`, if it fails. -/
theorem log_check_false {n : ν} (hc : (s.nodes n).check = .heartbeats) : (s.check st n false).log = s.log := by
  unfold check
  dsimp only
  rw [hc]
  rfl

/-- Only the last read of `_is_done` returns true. -/
theorem done_of_step {a : ClusterAct ν} (h : s.step st codec a = some t) {e : Event} (he : e ∈ t.log)
    (hd : e.isDone = true) : e ∈ s.log ∨ ∃ n, a = .node n (.check true) ∧
      (s.nodes n).check = .heartbeats ∧ s.allNodesIdle st = true := by
  have hnote {es : List Event} (hes : ∀ e ∈ es, e.isDone = false) (he : e ∈ s.log ++ es) : e ∈ s.log := by
    refine (List.mem_append.mp he).resolve_right fun he => ?_
    rw [hes e he] at hd
    cases hd
  cases stepped h with
  | finish n w k works | ackOwner n j k rest works =>
    exact .inl (@done_of_collectorDone ν _ (s.setNode n _) n k works e he hd)
  | pushDone n k works => exact .inl (@done_of_queueDone ν _ (s.setNode n _) n k works e he hd)
  | get | bzpopmin | lease | pollIgnored | pollTask | pollReclaim =>
    exact .inl (hnote (List.forall_mem_singleton.mpr rfl) he)
  | getBatch n w k ms =>
    exact .inl (hnote (List.forall_mem_map.mpr fun _ _ => rfl) he)
  | readIdle n works hc hi =>
    cases works with
    | true => exact .inr ⟨n, rfl, hc, hi⟩
    | false =>
      simp only [step, act] at h
      split_ifs at h
      rw [← Option.some.inj h, log_check_false hc] at he
      exact .inl he
  | _ => exact .inl he

end Cluster

/-- How many requests of `start_requests` a node that has not passed has put. -/
def SeedPhase.count : SeedPhase → Option Nat
  | .starting | .locked => some 0
  | .seeding c => some c
  | .passed | .running => none

namespace Seeding

variable {ν : Type} [DecidableEq ν] {st : Setting} {codec : Codec} {seeds : List Request} {s t : Seeding ν}

/-- How the lock and the phases stand: what a node has put it still has, until it
runs it neither shuts down nor dumps, and whoever has taken the lock is still
seeding, or the seeds are in. -/
structure Sown (seeds : List Request) (s : Seeding ν) : Prop where
  own : ∀ n, s.phases n ≠ .running → (s.cluster.nodes n).status ≠ .leaving ∧ (s.cluster.nodes n).dumped = []
  numbered : ∀ n, ∀ k ∈ s.seeded n,
    (s.cluster.nodes n).status ≠ .absent ∧ ∃ o ∈ (s.cluster.nodes n).yielded, o.serial = k
  counted : ∀ n, ∀ c ∈ (s.phases n).count, (s.seeded n).length = c
  locked : ∀ n, s.phases n ≠ .starting → s.seedLock ≠ none
  begun : s.seedLock ≠ none → (∃ n, s.alive n = true ∧ (s.phases n).isSeeding = true) ∨ s.SeedsIn seeds
  done : s.DoneAfterSeeds seeds

omit [DecidableEq ν] in
/-- Seeds that are in stay so. -/
theorem SeedsIn.mono (h : s.SeedsIn seeds) (hs : Sown seeds s)
    (hg : ∀ n, (s.cluster.nodes n).status ≠ .absent → Grows (s.cluster.nodes n) (t.cluster.nodes n))
    (he : ∀ n, s.seeded n <+: t.seeded n) : t.SeedsIn seeds := by
  intro i hi
  obtain ⟨n, k, hk, hp⟩ := h i hi
  have hgrow := hg n (hs.numbered n k (List.mem_of_getElem? hk)).1
  refine ⟨n, k, ?_, hp.imp (fun h => hgrow.dropped h) fun h => ?_⟩
  · obtain ⟨l, hl⟩ := he n
    rw [← hl, List.getElem?_append_left (List.getElem?_eq_some_iff.mp hk).1]
    exact hk
  · obtain ⟨p, hp, hpk⟩ := List.mem_map.mp h
    exact List.mem_map.mpr ⟨p, hgrow.landed hp, hpk⟩

/-- A step that changes the cluster only. -/
theorem clusterStep_eq {a : ClusterAct ν} (h : s.clusterStep st codec a = some t) :
    s.cluster.step st codec a = some t.cluster ∧ t = { s with cluster := t.cluster } := by
  obtain ⟨c, hc, rfl⟩ := Option.map_eq_some_iff.mp h
  exact ⟨hc, rfl⟩

/-- A step of the cluster, by which no node that seeds dies and `_is_done` returns
true only if the seeds are in. -/
theorem Sown.cluster {a : ClusterAct ν} (h : Sown seeds s) (hc : s.cluster.step st codec a = some t.cluster)
    (ht : t = { s with cluster := t.cluster })
    (hown : ∀ n, s.phases n ≠ .running →
      (t.cluster.nodes n).status ≠ .leaving ∧ (t.cluster.nodes n).dumped = [])
    (halive : ∀ n, s.alive n = true → (s.phases n).isSeeding = true → t.alive n = true ∨ s.SeedsIn seeds)
    (hdone : ∀ n, a = .node n (.check true) → (s.cluster.nodes n).check = .heartbeats →
      s.cluster.allNodesIdle st = true → s.SeedsIn seeds) : Sown seeds t := by
  have hgrows := Cluster.grows_step (Cluster.stepped hc)
  have hphases : t.phases = s.phases := by rw [ht]
  have hseeded : t.seeded = s.seeded := by rw [ht]
  have hlock : t.seedLock = s.seedLock := by rw [ht]
  have hin (hin : s.SeedsIn seeds) : t.SeedsIn seeds := hin.mono h hgrows fun n => hseeded ▸ List.prefix_refl _
  refine ⟨hphases ▸ hown, fun n k hk => ?_, ?_, ?_, fun hl => ?_, ?_⟩
  · obtain ⟨hp, o, ho, hok⟩ := h.numbered n k (hseeded ▸ hk)
    exact ⟨(hgrows n hp).present, o, (hgrows n hp).yielded ho, hok⟩
  · rw [hphases, hseeded]
    exact h.counted
  · rw [hphases, hlock]
    exact h.locked
  · rcases h.begun (hlock ▸ hl) with ⟨n, hal, hn⟩ | hsin
    · rcases halive n hal hn with hal | hsin
      · exact .inl ⟨n, hal, by rwa [hphases]⟩
      · exact .inr (hin hsin)
    · exact .inr (hin hsin)
  · rintro ⟨e, he, hd⟩
    rcases Cluster.done_of_step hc he hd with he | ⟨n, ha, hcheck, hidle⟩
    · exact hin (h.done ⟨e, he, hd⟩)
    · exact hin (hdone n ha hcheck hidle)

/-- A node that is not running takes only the steps of a flush and of the loop. -/
theorem Sown.own_node (h : Sown seeds s) {n : ν} {a : NodeAct}
    (hc : s.cluster.step st codec (.node n a) = some t.cluster)
    (ha : s.phases n ≠ .running → a.isFlush = true ∨ a.isSeed = true) (i : ν) :
    (s.phases i ≠ .running →
      (t.cluster.nodes i).status ≠ .leaving ∧ (t.cluster.nodes i).dumped = []) ∧
    (s.alive i = true → (s.phases i).isSeeding = true → t.alive i = true) := by
  by_cases hin : i = n
  · subst hin
    refine ⟨fun hp => ?_, fun hal hp => ?_⟩
    · obtain ⟨hst, hd⟩ := Cluster.own_step (Cluster.stepped hc) (ha hp)
      rw [hst, hd]
      exact h.own i hp
    · have hne : s.phases i ≠ .running := fun he => by rw [he] at hp; cases hp
      obtain ⟨hst, -⟩ := Cluster.own_step (Cluster.stepped hc) (ha hne)
      rw [alive, RedisScheduler.alive, hst]
      exact hal
  · unfold alive
    rw [Cluster.nodes_of_ne (Cluster.stepped hc) hin]
    exact ⟨h.own i, fun hal _ => hal⟩

theorem Sown.node (h : Sown seeds s) {n : ν} {a : NodeAct} (hc : s.clusterStep st codec (.node n a) = some t)
    (ha : s.phases n ≠ .running → a.isFlush = true ∨ a.isSeed = true)
    (hdone : a = .check true → (s.cluster.nodes n).check = .heartbeats → s.cluster.allNodesIdle st = true →
      s.SeedsIn seeds) : Sown seeds t := by
  obtain ⟨hc, ht⟩ := clusterStep_eq hc
  refine h.cluster hc ht (fun i => (h.own_node hc ha i).1) (fun i hal hp => .inl ((h.own_node hc ha i).2 hal hp)) ?_
  rintro i ⟨⟩
  exact hdone rfl

theorem Sown.setPhase (h : Sown seeds s) {n : ν} {p : SeedPhase} (hcount : ∀ c ∈ p.count, (s.seeded n).length = c)
    (hlock : s.seedLock ≠ none) (hrun : p = .running ∨ s.phases n ≠ .running)
    (hend : (s.phases n).isSeeding = true → p.isSeeding = true ∨ s.SeedsIn seeds) : Sown seeds (s.setPhase n p) := by
  have hof {P : ν → SeedPhase → Prop} (hn : P n p) (hs : ∀ i, i ≠ n → P i (s.phases i)) (i : ν) :
      P i ((s.setPhase n p).phases i) := by
    show P i (Function.update s.phases n p i)
    by_cases hin : i = n
    · subst hin
      rwa [Function.update_self]
    · rw [Function.update_of_ne hin]
      exact hs i hin
  refine ⟨hof (P := fun i q => q ≠ .running → _) ?_ fun i _ => h.own i, h.numbered,
    hof (P := fun i q => ∀ c ∈ q.count, (s.seeded i).length = c) hcount fun i _ => h.counted i, fun _ _ => hlock,
      fun _ => ?_, h.done⟩
  · exact fun hp => h.own n (hrun.resolve_left hp)
  · rcases h.begun hlock with ⟨i, hal, hi⟩ | hin
    · by_cases hin : i = n
      · subst hin
        refine (hend hi).imp_left fun hp => ⟨i, hal, ?_⟩
        show (Function.update s.phases i p i).isSeeding = true
        rwa [Function.update_self]
      · refine .inl ⟨i, hal, ?_⟩
        show (Function.update s.phases n p i).isSeeding = true
        rwa [Function.update_of_ne hin]
    · exact .inr hin

theorem Sown.acquire (h : Sown seeds s) {n : ν} (hal : s.alive n = true) (hp : s.phases n = .starting) :
    Sown seeds (s.acquire st n) := by
  have hzero : (s.seeded n).length = 0 := h.counted n 0 (by rw [hp]; rfl)
  unfold Seeding.acquire
  split_ifs with hlive
  · refine h.setPhase nofun (fun he => ?_) (.inr (by rw [hp]; nofun)) (by rw [hp]; nofun)
    rw [he] at hlive
    cases hlive
  · -- the lock and the phase change in one step
    refine ⟨fun i hi => h.own i fun he => hi ?_, h.numbered, fun i c hc => ?_, fun _ _ => nofun,
      fun _ => .inl ⟨n, hal, ?_⟩, h.done⟩
    · show Function.update s.phases n .locked i = .running
      rw [Function.update_of_ne (fun e => by rw [e, hp] at he; cases he)]
      exact he
    · have hc : c ∈ (Function.update s.phases n .locked i).count := hc
      by_cases hin : i = n
      · subst hin
        rw [Function.update_self] at hc
        cases hc
        exact hzero
      · rw [Function.update_of_ne hin] at hc
        exact h.counted i c hc
    · show (Function.update s.phases n .locked n).isSeeding = true
      rw [Function.update_self]
      rfl

omit [DecidableEq ν] in
/-- At the end of `_seed_requests` nothing is left in the node's buffer. -/
theorem Sown.seedsIn (h : Sown seeds s) {n : ν} (hpl : Placed (s.cluster.nodes n)) (hal : s.alive n = true)
    (hp : s.phases n = .seeding seeds.length) (he : (s.cluster.nodes n).requestBuffer.entries = []) :
    s.SeedsIn seeds := by
  obtain ⟨hleave, hdumped⟩ := h.own n (by rw [hp]; nofun)
  have hrun : (s.cluster.nodes n).status = .running := by
    rcases Bool.or_eq_true_iff.mp hal with hr | hl
    · exact of_decide_eq_true hr
    · exact absurd (of_decide_eq_true hl) hleave
  have hheld : (s.cluster.nodes n).held = [] := by
    rw [held, BufferThreads.tags, he, hpl.staying (.inr hrun), hdumped]
    rfl
  intro i hi
  have hlen : (s.seeded n).length = seeds.length := h.counted n _ (by rw [hp]; rfl)
  have hk := List.getElem?_eq_getElem (hlen ▸ hi)
  obtain ⟨-, o, ho, hok⟩ := h.numbered n _ (List.mem_of_getElem? hk)
  refine ⟨n, _, hk, ?_⟩
  rw [← hok]
  rcases hpl.placed o ho with hm | hm | ⟨m, hm⟩
  · rw [hheld] at hm
    exact absurd hm List.not_mem_nil
  · exact .inl hm
  · exact .inr (List.mem_map.mpr ⟨_, hm, rfl⟩)

/-- A step that gives one node a new state. -/
theorem own_update {n : ν} {nd : RedisScheduler} (h : Sown seeds s)
    (hn : t.cluster.nodes = Function.update s.cluster.nodes n nd)
    (hnd : nd.status ≠ .leaving ∧ (s.phases n ≠ .running → nd.dumped = [])) (i : ν) (hi : s.phases i ≠ .running) :
    (t.cluster.nodes i).status ≠ .leaving ∧ (t.cluster.nodes i).dumped = [] := by
  rw [hn]
  by_cases hin : i = n
  · subst hin
    rw [Function.update_self]
    exact ⟨hnd.1, hnd.2 hi⟩
  · rw [Function.update_of_ne hin]
    exact h.own i hi

theorem Sown.join (h : Sown seeds s) {n : ν} {keepAlive : Bool} {threads : Nat}
    (hc : s.cluster.step st codec (.join n .redis keepAlive threads) = some t.cluster)
    (ht : t = { s with cluster := t.cluster }) : Sown seeds t := by
  have hn := hc
  simp only [Cluster.step] at hn
  split_ifs at hn with habs
  have hnodes := congrArg Cluster.nodes (Option.some.inj hn).symm
  refine h.cluster hc ht (own_update h hnodes ⟨by simp, fun _ => rfl⟩) (fun i hal _ => .inl ?_) fun _ ha => by cases ha
  unfold alive at hal ⊢
  rw [hnodes, Cluster.setNode_nodes]
  by_cases hin : i = n
  · subst hin
    rw [RedisScheduler.alive, habs] at hal
    cases hal
  · rwa [Function.update_of_ne hin]

theorem Sown.kill (h : Sown seeds s) {n : ν} (hc : s.cluster.step st codec (.kill n) = some t.cluster)
    (ht : t = { s with cluster := t.cluster })
    (hin : s.alive n = true → (s.phases n).isSeeding = true → s.SeedsIn seeds) : Sown seeds t := by
  have hn := hc
  simp only [Cluster.step] at hn
  split_ifs at hn with halive
  have hnodes := congrArg Cluster.nodes (Option.some.inj hn).symm
  refine h.cluster hc ht (own_update h hnodes ⟨by simp, fun hp => (h.own n hp).2⟩) (fun i hal hp => ?_)
    fun _ ha => by cases ha
  by_cases hi : i = n
  · subst hi
    exact .inr (hin hal hp)
  · refine .inl ?_
    unfold alive at hal ⊢
    rwa [hnodes, Cluster.setNode_nodes, Function.update_of_ne hi]

/-- One more request has been put, and has its number. -/
theorem Sown.extend (h : Sown seeds s) {n : ν} {count k : Nat} (hp : s.phases n = .seeding count)
    (hk : (s.cluster.nodes n).status ≠ .absent ∧ ∃ o ∈ (s.cluster.nodes n).yielded, o.serial = k) :
    Sown seeds ({ s with seeded := Function.update s.seeded n (s.seeded n ++ [k]) }.setPhase n
      (.seeding (count + 1))) := by
  have hseeds (i : ν) : s.seeded i <+: Function.update s.seeded n (s.seeded n ++ [k]) i := by
    by_cases hin : i = n
    · subst hin
      rw [Function.update_self]
      exact List.prefix_append ..
    · rewrite [Function.update_of_ne hin]
      exact List.prefix_refl _
  have hmono (hin : s.SeedsIn seeds) :
      ({ s with seeded := Function.update s.seeded n (s.seeded n ++ [k]) }.setPhase n
        (.seeding (count + 1))).SeedsIn seeds :=
    hin.mono h (fun _ hp => .of_eq hp rfl rfl rfl rfl) hseeds
  refine ⟨fun i hi => h.own i fun he => hi ?_, fun i j hj => ?_, fun i c hc => ?_, fun i hi => ?_, fun hl => ?_,
    fun hd => hmono (h.done hd)⟩
  · show Function.update s.phases n _ i = .running
    rw [Function.update_of_ne (fun e => by rw [e, hp] at he; cases he)]
    exact he
  · have hj : j ∈ Function.update s.seeded n (s.seeded n ++ [k]) i := hj
    by_cases hin : i = n
    · subst hin
      rw [Function.update_self] at hj
      rcases List.mem_append.mp hj with hj | hj
      · exact h.numbered i j hj
      · rw [List.mem_singleton.mp hj]
        exact hk
    · rw [Function.update_of_ne hin] at hj
      exact h.numbered i j hj
  · have hc : c ∈ (Function.update s.phases n (.seeding (count + 1)) i).count := hc
    show (Function.update s.seeded n (s.seeded n ++ [k]) i).length = c
    by_cases hin : i = n
    · subst hin
      rw [Function.update_self] at hc ⊢
      cases hc
      rw [List.length_append, h.counted i count (by rw [hp]; rfl), List.length_singleton]
    · rw [Function.update_of_ne hin] at hc ⊢
      exact h.counted i c hc
  · exact h.locked n (by rw [hp]; nofun)
  · rcases h.begun hl with ⟨i, hal, hi⟩ | hin
    · refine .inl ⟨i, hal, ?_⟩
      show (Function.update s.phases n (.seeding (count + 1)) i).isSeeding = true
      by_cases hin : i = n
      · subst hin
        rw [Function.update_self]
        rfl
      · rwa [Function.update_of_ne hin]
    · exact .inr (hmono hin)

/-- The request that `put` has appended. -/
theorem yielded_seed {n : ν} {r : Request} {c d : Cluster ν} (h : c.step st codec (.node n (.seed r)) = some d) :
    (d.nodes n).status ≠ .absent ∧ ∃ o ∈ (d.nodes n).yielded, o.serial = (c.nodes n).yielded.length := by
  simp only [Cluster.step, Cluster.act] at h
  split_ifs at h with hal
  cases h
  rw [Cluster.setNode_nodes, Function.update_self]
  refine ⟨fun he => ?_, ⟨_, none⟩, List.mem_append_right _ (List.mem_singleton_self _), rfl⟩
  have he : (c.nodes n).status = .absent := he
  rw [RedisScheduler.alive, he] at hal
  cases hal

theorem Sown.seed (h : Sown seeds s) {n : ν} {count : Nat} {r : Request} (hp : s.phases n = .seeding count)
    (hs : s.seed st codec n count r = some t) : Sown seeds t := by
  obtain ⟨u, hu, rfl⟩ := Option.map_eq_some_iff.mp hs
  obtain ⟨hc, he⟩ := clusterStep_eq hu
  have hn : Sown seeds u := h.node hu (fun _ => .inr rfl) nofun
  have hseeded : s.seeded = u.seeded := by rw [he]
  rw [hseeded]
  exact hn.extend (by rw [he]; exact hp) (yielded_seed hc)

/-! ## Who waits -/

/-- A node that has not started its threads has seen no work; one that may finish
has seen none either, and is within its grace, until the seeds are in. -/
structure Patient (st : Setting) (seeds : List Request) (s : Seeding ν) : Prop where
  absent : ∀ n, (s.cluster.nodes n).status = .absent → s.phases n = .starting
  redis : ∀ n, (s.cluster.nodes n).kind = .redis
  kept : ∀ n, (s.cluster.nodes n).keepAlive = true → (s.cluster.nodes n).check = .idle
  unseen : ∀ n, s.phases n ≠ .running → Unseen (s.cluster.nodes n)
  waiting : ¬ s.SeedsIn seeds → ∀ n, (s.cluster.nodes n).status = .running → s.phases n = .running →
    (s.cluster.nodes n).keepAlive = false →
      Unseen (s.cluster.nodes n) ∧ s.cluster.now - (s.cluster.nodes n).startedAt < st.SPIDER_STARTUP_GRACE

omit [DecidableEq ν] in
/-- Whoever has come past the lock waits, or the seeds are in. -/
theorem Sown.waits (h : Sown seeds s) {n : ν} (hp : s.phases n ≠ .starting) (hin : ¬ s.SeedsIn seeds) :
    s.Waiting seeds := by
  rcases h.begun (h.locked n hp) with ⟨i, hal, hi⟩ | hsin
  · exact ⟨i, hal, hi, hin⟩
  · exact absurd hsin hin

/-- Every step is one of the cluster, or leaves it as it is. -/
theorem cluster_step {a : SeedAct ν} (hs : s.step st codec seeds a = some t) :
    t.cluster = s.cluster ∨ ∃ b, s.cluster.step st codec b = some t.cluster := by
  have hof {b : ClusterAct ν} {u : Seeding ν} (hs : s.clusterStep st codec b = some u) :
      ∃ b, s.cluster.step st codec b = some u.cluster := ⟨b, (clusterStep_eq hs).1⟩
  unfold step at hs
  cases a with
  | tick | join | kill => exact .inr (hof hs)
  | acquire n =>
    dsimp only at hs
    split_ifs at hs
    cases hs
    refine .inl ?_
    unfold acquire
    split_ifs <;> rfl
  | checkQueue | endSeed | startThreads =>
    dsimp only at hs
    split_ifs at hs
    all_goals
      cases hs
      exact .inl rfl
  | replay | node =>
    dsimp only at hs
    split_ifs at hs
    exact .inr (hof hs)
  | seed n =>
    dsimp only at hs
    split at hs
    · split at hs
      · obtain ⟨u, hu, rfl⟩ := Option.map_eq_some_iff.mp hs
        exact .inr ⟨_, (clusterStep_eq hu).1⟩
      · cases hs
    · cases hs

/-- The seeds that a node has put stay so. -/
theorem seeded_step {a : SeedAct ν} (hs : s.step st codec seeds a = some t) (i : ν) :
    s.seeded i <+: t.seeded i := by
  have hof {b : ClusterAct ν} {u : Seeding ν} (hs : s.clusterStep st codec b = some u) :
      s.seeded i <+: u.seeded i := by
    have hseeded : u.seeded = s.seeded := by rw [(clusterStep_eq hs).2]
    exact hseeded ▸ List.prefix_refl _
  unfold step at hs
  cases a with
  | tick | join | kill => exact hof hs
  | acquire n =>
    dsimp only at hs
    split_ifs at hs
    cases hs
    unfold acquire
    split_ifs <;> exact List.prefix_refl _
  | checkQueue | endSeed | startThreads =>
    dsimp only at hs
    split_ifs at hs
    all_goals
      cases hs
      exact List.prefix_refl _
  | replay | node =>
    dsimp only at hs
    split_ifs at hs
    exact hof hs
  | seed n =>
    dsimp only at hs
    split at hs
    · split at hs
      · obtain ⟨u, hu, rfl⟩ := Option.map_eq_some_iff.mp hs
        show s.seeded i <+: Function.update s.seeded n _ i
        by_cases hin : i = n
        · subst hin
          rw [Function.update_self]
          exact List.prefix_append ..
        · exact (Function.update_of_ne hin ..).symm ▸ List.prefix_refl _
      · cases hs
    · cases hs

theorem seedsIn_step {a : SeedAct ν} (h : Sown seeds s) (hs : s.step st codec seeds a = some t)
    (hin : s.SeedsIn seeds) : t.SeedsIn seeds := by
  refine hin.mono h (fun n hp => ?_) (seeded_step hs)
  rcases cluster_step hs with he | ⟨b, hb⟩
  · rw [he]
    exact .of_eq hp rfl rfl rfl rfl
  · exact Cluster.grows_step (Cluster.stepped hb) n hp

omit [DecidableEq ν] in
/-- A step of the cluster by which no node comes, calls `_is_done` or counts a
request. -/
theorem Patient.same (h : Patient st seeds s) (hphases : t.phases = s.phases)
    (hsame : ∀ i, Same (s.cluster.nodes i) (t.cluster.nodes i))
    (habs : ∀ i, (t.cluster.nodes i).status = .absent → (s.cluster.nodes i).status = .absent)
    (hin : s.SeedsIn seeds → t.SeedsIn seeds)
    (hgrace : ¬ s.SeedsIn seeds → ∀ i, (s.cluster.nodes i).status = .running → s.phases i = .running →
      (s.cluster.nodes i).keepAlive = false →
        t.cluster.now - (s.cluster.nodes i).startedAt < st.SPIDER_STARTUP_GRACE) : Patient st seeds t := by
  refine ⟨fun i hi => hphases ▸ h.absent i (habs i hi), fun i => (hsame i).kind.trans (h.redis i),
    fun i hk => (hsame i).idle (h.kept i ((hsame i).keepAlive ▸ hk)),
    fun i hp => (hsame i).unseen (h.unseen i (hphases ▸ hp)),
    fun hno i hr hp hk => ?_⟩
  have hno : ¬ s.SeedsIn seeds := fun hs => hno (hin hs)
  have hr := (hsame i).running hr
  rw [hphases] at hp
  rw [(hsame i).keepAlive] at hk
  rw [(hsame i).startedAt]
  exact ⟨(hsame i).unseen (h.waiting hno i hr hp hk).1, hgrace hno i hr hp hk⟩

/-- A step of a node that is neither of `_is_done` nor counts a request. -/
theorem Patient.node (h : Patient st seeds s) {n : ν} {a : NodeAct}
    (hc : s.cluster.step st codec (.node n a) = some t.cluster) (hphases : t.phases = s.phases)
    (hcount : ∀ w, a ≠ .count w) (hcheck : ∀ works, a ≠ .check works)
    (hin : s.SeedsIn seeds → t.SeedsIn seeds) : Patient st seeds t := by
  have hs := Cluster.stepped hc
  refine h.same hphases (Cluster.same_step hs nofun ?_ ?_) (fun i hi => ?_) hin fun hno i hr hp hk => ?_
  · rintro _ w ⟨⟩
    exact hcount w rfl
  · rintro _ works ⟨⟩
    exact hcheck works rfl
  · by_contra hne
    exact (Cluster.grows_step hs i hne).present hi
  · rw [Cluster.now_node hs]
    exact (h.waiting hno i hr hp hk).2

/-- A node goes on to another phase. -/
theorem Patient.phase (h : Patient st seeds s) {n : ν} {p : SeedPhase} (hc : t.cluster = s.cluster)
    (hphases : t.phases = Function.update s.phases n p) (hal : s.alive n = true) (hp : s.phases n ≠ .running)
    (hrun : p = .running → ¬ s.SeedsIn seeds → (s.cluster.nodes n).keepAlive = false →
      s.cluster.now - (s.cluster.nodes n).startedAt < st.SPIDER_STARTUP_GRACE)
    (hin : s.SeedsIn seeds → t.SeedsIn seeds) : Patient st seeds t := by
  refine ⟨fun i hi => ?_, hc ▸ h.redis, hc ▸ h.kept, fun i hi => ?_, fun hno i hr hi hk => ?_⟩
  · rw [hc] at hi
    have hne : i ≠ n := by
      rintro rfl
      rw [alive, RedisScheduler.alive, hi] at hal
      cases hal
    rw [hphases, Function.update_of_ne hne]
    exact h.absent i hi
  · rw [hc]
    rw [hphases] at hi
    by_cases hne : i = n
    · subst hne
      exact h.unseen i hp
    · rw [Function.update_of_ne hne] at hi
      exact h.unseen i hi
  · have hno : ¬ s.SeedsIn seeds := fun hsin => hno (hin hsin)
    rw [hc] at hr hk ⊢
    rw [hphases] at hi
    by_cases hne : i = n
    · subst hne
      rw [Function.update_self] at hi
      exact ⟨h.unseen i hp, hrun hi hno hk⟩
    · rw [Function.update_of_ne hne] at hi
      exact h.waiting hno i hr hi hk

theorem Patient.join (h : Patient st seeds s) {n : ν} {keepAlive : Bool} {threads : Nat}
    (hc : s.cluster.step st codec (.join n .redis keepAlive threads) = some t.cluster)
    (hphases : t.phases = s.phases) (hin : s.SeedsIn seeds → t.SeedsIn seeds) : Patient st seeds t := by
  simp only [Cluster.step] at hc
  split_ifs at hc with habs
  have hnodes := congrArg Cluster.nodes (Option.some.inj hc).symm
  have hnow : t.cluster.now = s.cluster.now := by rw [← Option.some.inj hc]; rfl
  have hstart : t.phases n = .starting := hphases ▸ h.absent n habs
  -- all but the new node are as they were
  have hne {i : ν} (hi : i ≠ n) : t.cluster.nodes i = s.cluster.nodes i := by
    rw [hnodes, Cluster.setNode_nodes, Function.update_of_ne hi]
  have hself : t.cluster.nodes n =
      { kind := .redis, keepAlive, status := .running, startedAt := s.cluster.now,
        workers := List.replicate threads .idle } := by
    rw [hnodes, Cluster.setNode_nodes, Function.update_self]
  refine ⟨fun i hi => ?_, fun i => ?_, fun i hk => ?_, fun i hi => ?_, fun hno i hr hi hk => ?_⟩
  all_goals by_cases hin' : i = n
  · subst hin'
    exact hstart
  · rw [hphases]
    exact h.absent i (hne hin' ▸ hi)
  · rw [hin', hself]
  · rw [hne hin']
    exact h.redis i
  · rw [hin', hself]
  · rw [hne hin'] at hk ⊢
    exact h.kept i hk
  · rw [hin', hself]
    exact ⟨rfl, rfl, rfl⟩
  · rw [hne hin']
    exact h.unseen i (hphases ▸ hi)
  · rw [hin', hstart] at hi
    cases hi
  · rw [hne hin'] at hr hk ⊢
    rw [hnow]
    exact h.waiting (fun hsin => hno (hin hsin)) i hr (hphases ▸ hi) hk

/-- A request is counted, which ends the grace. -/
theorem Patient.count (h : Patient st seeds s) {n : ν} {w : Nat}
    (hc : s.cluster.step st codec (.node n (.count w)) = some t.cluster) (hphases : t.phases = s.phases)
    (hrun : s.phases n = .running) (hin : s.SeedsIn seeds → t.SeedsIn seeds)
    (hg : ¬ s.SeedsIn seeds → (s.cluster.nodes n).keepAlive = true) : Patient st seeds t := by
  have hs := Cluster.stepped hc
  have hself : t.cluster.nodes n = { s.cluster.nodes n with counted := true } := by
    rw [Cluster.count_node hs, Cluster.setNode_nodes, Function.update_self]
  have hne {i : ν} (hi : i ≠ n) : t.cluster.nodes i = s.cluster.nodes i := Cluster.nodes_of_ne hs hi
  refine ⟨fun i hi => ?_, fun i => ?_, fun i hk => ?_, fun i hi => ?_, fun hno i hr hi hk => ?_⟩
  all_goals by_cases hin' : i = n
  · rw [hin', hself] at hi
    rw [hphases, hin']
    exact h.absent n hi
  · rw [hphases]
    exact h.absent i (hne hin' ▸ hi)
  · rw [hin', hself]
    exact h.redis n
  · rw [hne hin']
    exact h.redis i
  · rw [hin', hself] at hk ⊢
    exact h.kept n hk
  · rw [hne hin'] at hk ⊢
    exact h.kept i hk
  · rw [hphases, hin'] at hi
    exact absurd hrun hi
  · rw [hne hin']
    exact h.unseen i (hphases ▸ hi)
  · rw [hin', hself] at hk
    have hk : (s.cluster.nodes n).keepAlive = false := hk
    rw [hg fun hsin => hno (hin hsin)] at hk
    cases hk
  · rw [hne hin'] at hr hk ⊢
    rw [Cluster.now_node hs]
    exact h.waiting (fun hsin => hno (hin hsin)) i hr (hphases ▸ hi) hk

omit [DecidableEq ν] in
/-- Who is past the head of `_is_done` has come there after the seeds were in. -/
theorem Patient.seedsIn (h : Patient st seeds s) {n : ν} (hst : (s.cluster.nodes n).status = .running)
    (hrun : s.phases n = .running) (hc : (s.cluster.nodes n).check ≠ .idle) : s.SeedsIn seeds := by
  by_contra hin
  cases hk : (s.cluster.nodes n).keepAlive with
  | true => exact hc (h.kept n hk)
  | false => exact hc (h.waiting hin n hst hrun hk).1.check

/-- A call of `_is_done` goes on only after the seeds are in. -/
theorem Patient.check (h : Patient st seeds s) {n : ν} {works : Bool}
    (hc : s.cluster.step st codec (.node n (.check works)) = some t.cluster) (hphases : t.phases = s.phases)
    (hrun : s.phases n = .running) (hin : s.SeedsIn seeds → t.SeedsIn seeds) : Patient st seeds t := by
  have hs := Cluster.stepped hc
  have hsame := Cluster.check_same hs
  have hstatus := Cluster.running_of_check hc
  -- a node that cannot finish, or waits, returns at once
  have hreturns (hi : (s.cluster.nodes n).keepAlive = true ∨ ¬ s.SeedsIn seeds) :
      t.cluster.nodes = s.cluster.nodes := by
    cases hk : (s.cluster.nodes n).keepAlive with
    | true => exact Cluster.check_ignored hs (h.kept n hk) (h.redis n) (.inl hk)
    | false =>
      obtain ⟨hu, hg⟩ := h.waiting (hi.resolve_left (by simp [hk])) n hstatus hrun hk
      exact Cluster.check_ignored hs hu.check (h.redis n) (.inr (Cluster.inStartupGrace_of_unseen hu hg))
  refine ⟨fun i hi => ?_, fun i => (hsame i).1.trans (h.redis i), fun i hk => ?_, fun i hp => ?_,
    fun hno i hr hp hk => ?_⟩
  · rw [hphases]
    exact h.absent i ((hsame i).2.2.2 ▸ hi)
  · rw [(hsame i).2.1] at hk
    by_cases hin : i = n
    · subst hin
      rw [hreturns (.inl hk)]
      exact h.kept i hk
    · rw [Cluster.nodes_of_ne hs hin]
      exact h.kept i hk
  · rw [hphases] at hp
    have hin : i ≠ n := fun he => hp (he ▸ hrun)
    rw [Cluster.nodes_of_ne hs hin]
    exact h.unseen i hp
  · have hno : ¬ s.SeedsIn seeds := fun hsin => hno (hin hsin)
    rw [hphases] at hp
    rw [hreturns (.inr hno)] at hr hk ⊢
    rw [Cluster.now_node hs]
    exact h.waiting hno i hr hp hk

/-! ## The runs -/

/-- What only a node with threads does. -/
theorem running_of_allows {p : SeedPhase} {a : NodeAct} (h : p.allows a = true) (ha : a.isFlush = false) :
    p = .running := by
  unfold SeedPhase.allows at h
  split at h
  · rfl
  · rw [ha] at h
    cases h

theorem sown_step {a : SeedAct ν} (hpl : ∀ n, Placed (s.cluster.nodes n)) (h : Sown seeds s)
    (hw : Patient st seeds s) (hg : Guard st seeds s a) (hs : s.step st codec seeds a = some t) : Sown seeds t := by
  have hunfinished {n : ν} (hal : s.alive n = true) (hp : (s.phases n).isSeeding = true)
      (hno : ¬ s.Unfinished seeds n) : s.SeedsIn seeds := by
    by_contra hin
    exact hno ⟨hal, hp, hin⟩
  unfold step at hs
  cases a with
  | tick d =>
    obtain ⟨hc, ht⟩ := clusterStep_eq hs
    have hnodes : t.cluster.nodes = s.cluster.nodes := by rw [← Option.some.inj hc]
    exact h.cluster hc ht (hnodes ▸ h.own) (fun i hal _ => .inl (by rwa [alive, hnodes])) nofun
  | join n keepAlive threads =>
    obtain ⟨hc, ht⟩ := clusterStep_eq hs
    exact h.join hc ht
  | kill n =>
    obtain ⟨hc, ht⟩ := clusterStep_eq hs
    exact h.kill hc ht fun hal hp => hunfinished hal hp hg
  | acquire n =>
    dsimp only at hs
    split_ifs at hs with hcond
    cases hs
    exact h.acquire hcond.1 hcond.2
  | checkQueue n =>
    dsimp only at hs
    split_ifs at hs with hcond hempty
    · cases hs
      refine h.setPhase ?_ (h.locked n (by rw [hcond.2]; nofun)) (.inr (by rw [hcond.2]; nofun)) fun _ => .inl rfl
      rintro c ⟨⟩
      exact h.counted n 0 (by rw [hcond.2]; rfl)
    · cases hs
      exact h.setPhase nofun (h.locked n (by rw [hcond.2]; nofun)) (.inr (by rw [hcond.2]; nofun))
        fun _ => .inr (hg.resolve_left hempty)
  | replay n r =>
    dsimp only at hs
    split_ifs at hs with hcond
    exact h.node hs (fun _ => .inr rfl) nofun
  | seed n =>
    dsimp only at hs
    split at hs
    · rename_i count hp
      split at hs
      · exact h.seed hp hs
      · cases hs
    · cases hs
  | endSeed n =>
    dsimp only at hs
    split_ifs at hs with hcond
    cases hs
    have hin := h.seedsIn (hpl n) hcond.1 hcond.2.1 hcond.2.2
    refine h.setPhase nofun (h.locked n (by rw [hcond.2.1]; nofun)) (.inr (by rw [hcond.2.1]; nofun)) fun _ => .inr hin
  | startThreads n =>
    dsimp only at hs
    split_ifs at hs with hcond
    cases hs
    exact h.setPhase nofun (h.locked n (by rw [hcond.2]; nofun)) (.inl rfl) (by rw [hcond.2]; nofun)
  | node n a =>
    dsimp only at hs
    split_ifs at hs with hallow
    refine h.node hs (fun hp => .inl ?_) ?_
    · unfold SeedPhase.allows at hallow
      split at hallow
      · exact absurd ‹_› hp
      · exact hallow
    · rintro rfl hcheck -
      exact hw.seedsIn (Cluster.running_of_check (clusterStep_eq hs).1) (running_of_allows hallow rfl)
        (by rw [hcheck]; nofun)

theorem patient_step {a : SeedAct ν} (hsown : Sown seeds s) (h : Patient st seeds s) (hg : Guard st seeds s a)
    (hs : s.step st codec seeds a = some t) : Patient st seeds t := by
  have hin : s.SeedsIn seeds → t.SeedsIn seeds := seedsIn_step hsown hs
  have hprefix := seeded_step hs
  have hgrace (hno : ¬ s.SeedsIn seeds) (i : ν) (hr : (s.cluster.nodes i).status = .running)
      (hp : s.phases i = .running) (hk : (s.cluster.nodes i).keepAlive = false) :=
    (h.waiting hno i hr hp hk).2
  unfold step at hs
  cases a with
  | tick d =>
    obtain ⟨hc, ht⟩ := clusterStep_eq hs
    have hnodes : t.cluster.nodes = s.cluster.nodes := by rw [← Option.some.inj hc]
    have hnow : t.cluster.now = s.cluster.now + d := by rw [← Option.some.inj hc]
    refine h.same (by rw [ht]) (fun i => hnodes ▸ same_refl _) (fun i hi => hnodes ▸ hi) hin fun hno i hr hp hk => ?_
    rw [hnow]
    exact (hg (hsown.waits (by rw [hp]; simp) hno) i hr hp).resolve_left (by simp [hk])
  | join n keepAlive threads =>
    obtain ⟨hc, ht⟩ := clusterStep_eq hs
    exact h.join hc (by rw [ht]) hin
  | kill n =>
    obtain ⟨hc, ht⟩ := clusterStep_eq hs
    have hst := Cluster.stepped hc
    have hsame := Cluster.same_step hst (by simp) (by simp) (by simp)
    refine h.same (by rw [ht]) hsame (fun i hi => ?_) hin fun hno i hr hp hk => ?_
    · by_contra hne
      exact (Cluster.grows_step hst i hne).present hi
    · have hnow : t.cluster.now = s.cluster.now := by
        simp only [Cluster.step] at hc
        split_ifs at hc
        rw [← Option.some.inj hc]
        rfl
      rw [hnow]
      exact hgrace hno i hr hp hk
  | acquire n =>
    dsimp only at hs
    split_ifs at hs with hcond
    cases hs
    have hnr : s.phases n ≠ .running := by simp [hcond.2]
    unfold acquire at hin ⊢
    split_ifs at hin ⊢
    · exact h.phase rfl rfl hcond.1 hnr (by simp) hin
    · exact h.phase rfl rfl hcond.1 hnr (by simp) hin
  | checkQueue n =>
    dsimp only at hs
    split_ifs at hs with hcond hempty
    all_goals
      cases hs
      exact h.phase rfl rfl hcond.1 (by simp [hcond.2]) (by simp) hin
  | replay n r =>
    dsimp only at hs
    split_ifs at hs
    obtain ⟨hc, ht⟩ := clusterStep_eq hs
    exact h.node hc (by rw [ht]) (by simp) (by simp) hin
  | seed n =>
    dsimp only at hs
    split at hs
    · rename_i count hp
      split at hs
      · obtain ⟨u, hu, rfl⟩ := Option.map_eq_some_iff.mp hs
        obtain ⟨hc, hue⟩ := clusterStep_eq hu
        have hseeded : u.seeded = s.seeded := by rw [hue]
        have hinu : s.SeedsIn seeds → u.SeedsIn seeds := fun hsin =>
          hsin.mono hsown (fun i hi => Cluster.grows_step (Cluster.stepped hc) i hi)
            fun i => hseeded ▸ List.prefix_refl _
        have hnode : Patient st seeds u := h.node hc (by rw [hue]) (by simp) (by simp) hinu
        have hsownu : Sown seeds u := hsown.node hu (fun _ => .inr rfl) (by simp)
        have hphase : u.phases n ≠ .running := by
          rw [hue, hp]
          simp
        refine hnode.phase rfl rfl ?_ hphase (by simp) fun hsin =>
          hsin.mono hsownu (fun _ hi => .of_eq hi rfl rfl rfl rfl) fun i => ?_
        · refine (hsown.own_node hc (fun _ => .inr rfl) n).2 ?_ (by rw [hp]; rfl)
          simp only [Cluster.step] at hc
          split_ifs at hc with hal
          exact hal
        · rw [hseeded]
          exact hprefix i
      · cases hs
    · cases hs
  | endSeed n =>
    dsimp only at hs
    split_ifs at hs with hcond
    cases hs
    exact h.phase rfl rfl hcond.1 (by simp [hcond.2.1]) (by simp) hin
  | startThreads n =>
    dsimp only at hs
    split_ifs at hs with hcond
    cases hs
    refine h.phase rfl rfl hcond.1 (by simp [hcond.2]) (fun _ hno hk => ?_) hin
    exact (hg (hsown.waits (by rw [hcond.2]; simp) hno)).resolve_left (by simp [hk])
  | node n a =>
    dsimp only at hs
    split_ifs at hs with hallow
    obtain ⟨hc, ht⟩ := clusterStep_eq hs
    have hphases : t.phases = s.phases := by rw [ht]
    by_cases hcheck : ∃ works, a = .check works
    · obtain ⟨works, rfl⟩ := hcheck
      exact h.check hc hphases (running_of_allows hallow rfl) hin
    · by_cases hcount : ∃ w, a = .count w
      · obtain ⟨w, rfl⟩ := hcount
        have hrun := running_of_allows hallow rfl
        exact h.count hc hphases hrun hin fun hno => hg (hsown.waits (by rw [hrun]; simp) hno)
      · exact h.node hc hphases (fun w he => hcount ⟨w, he⟩) (fun works he => hcheck ⟨works, he⟩) hin

theorem placed_within {G : Seeding ν → SeedAct ν → Prop} (h : (machine st codec seeds).Within G s) :
    ∀ n, Placed (s.cluster.nodes n) := by
  have hr : (Cluster.machine st codec).Reachable s.cluster :=
    h.map Seeding.cluster (fun s (hs : (machine st codec seeds).start s) => hs.1) fun _ _ _ => cluster_step
  exact Cluster.placed_reachable hr

theorem sown_start (h : (machine st codec seeds).start s) : Sown seeds s := by
  refine ⟨fun n _ => ?_, fun n k hk => ?_, fun n c hc => ?_, fun n hn => absurd (h.2.2 n).1 hn,
    fun hl => absurd h.2.1 hl, ?_⟩
  · rw [h.1.1 n]
    exact ⟨nofun, rfl⟩
  · rw [(h.2.2 n).2] at hk
    exact absurd hk List.not_mem_nil
  · rw [(h.2.2 n).1] at hc
    cases hc
    rw [(h.2.2 n).2]
    rfl
  · rintro ⟨e, he, -⟩
    rw [h.1.2] at he
    exact absurd he List.not_mem_nil

theorem patient_start (h : (machine st codec seeds).start s) : Patient st seeds s := by
  refine ⟨fun n _ => (h.2.2 n).1, fun n => ?_, fun n _ => ?_, fun n _ => ?_, fun _ n _ hp => ?_⟩
  · rw [h.1.1 n]
  · rw [h.1.1 n]
  · rw [h.1.1 n]
    exact ⟨rfl, rfl, rfl⟩
  · rw [(h.2.2 n).1] at hp
    cases hp

/-- In every run in which no node dies while it seeds, none finds other requests in
the queue before, and the others' grace lasts until the seeds are in,
`_is_done` returns true only when every request of `start_requests` was dropped
as seen or put into the queue. -/
theorem done_after_seeds (st : Setting) (codec : Codec) (seeds : List Request) (s : Seeding ν)
    (h : (machine st codec seeds).Within (Guard st seeds) s) : s.DoneAfterSeeds seeds := by
  have hboth : Sown seeds s ∧ Patient st seeds s :=
    h.induct_with (I := fun s => Sown seeds s ∧ Patient st seeds s) (fun _ => placed_within)
      (fun _ hs => ⟨sown_start hs, patient_start hs⟩)
      fun _ _ _ hp hi hg ht => ⟨sown_step hp hi.1 hi.2 hg ht, patient_step hi.1 hi.2 hg ht⟩
  exact hboth.1.done

/-! ## Two nodes that start -/

def firstPage : List Request := [{ url := "a" }]

def afterSeeds (as : List (SeedAct Bool)) : Seeding Bool :=
  ((machine {} Cluster.urlCodec firstPage).exec {} as).getD {}

theorem exec_afterSeeds (as : List (SeedAct Bool))
    (h : ((machine {} Cluster.urlCodec firstPage).exec {} as).isSome = true) :
    (machine {} Cluster.urlCodec firstPage).exec {} as = some (afterSeeds as) :=
  Machine.exec_getD h _

theorem start_noLock : (machine {} Cluster.urlCodec firstPage).start ({} : Seeding Bool) :=
  ⟨⟨fun _ => rfl, rfl⟩, rfl, fun _ => ⟨rfl, rfl⟩⟩

/-- The first node takes the lock, the second one starts and is idle until its
grace is over, and calls `_is_done`. In between the first one takes some steps. -/
def twoStarts (seeding : List (SeedAct Bool)) : List (SeedAct Bool) :=
  [SeedAct.join false false 1, .acquire false, .checkQueue false] ++ seeding ++
    [SeedAct.join true false 1, .acquire true, .startThreads true, .tick 10000000] ++
    List.replicate 10 (SeedAct.node true (.check true))

/-- The one request is dropped, as seen by the filter. -/
def quickStart : List (SeedAct Bool) :=
  twoStarts [.seed false, .node false .swap, .node false (.filter 0 .seen), .endSeed false]

theorem done_after_seeds_quickStart :
    (afterSeeds quickStart).DoneAfterSeeds firstPage ∧ ∃ e ∈ (afterSeeds quickStart).cluster.log, e.isDone = true :=
  ⟨done_after_seeds {} Cluster.urlCodec firstPage _
    (.exec (.start start_noLock) (by decide +kernel) (exec_afterSeeds _ (by decide +kernel))), by decide +kernel⟩

/-- It is still in `start_requests`. -/
theorem slowStart_not_done_after_seeds : ¬ ∀ s : Seeding Bool,
    (machine {} Cluster.urlCodec firstPage).Reachable s → s.DoneAfterSeeds firstPage := by
  intro h
  have hr : (machine {} Cluster.urlCodec firstPage).Reachable (afterSeeds (twoStarts [])) :=
    .exec (.start start_noLock) (exec_afterSeeds _ (by decide +kernel))
  have hin := h _ hr (by decide +kernel)
  revert hin
  decide +kernel

end Seeding

end Netspy
