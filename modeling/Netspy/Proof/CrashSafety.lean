import Netspy.Proof.Placed

/-!
# Yielded requests when nodes are killed

A yielded request is in the memory of its node until it is put into the
queue (`Placed`). From then on it is one of those that a member of the sorted
sets stands for, and goes with the member from one to the other, until a
request that was taken with it is acknowledged. Requests of one payload are
one member, so the runs keep beside the state for whom each member stands
(`Copies`).

A worker acknowledges the request that yielded others without looking at the
request buffer, and takes its member out of `z_inflight` whoever else holds a
lease on it. So no yielded request is lost with a node if requests are
acknowledged only when all that they yielded has left the memory, and with
their own leases only (`LandsFirst`, `crash_safe`).
-/

namespace Netspy

/-! ## Who is in the sets -/

/-- A yielded request and its node. -/
abbrev Copy (ν : Type) := ν × Origin

/-- The requests that the members of `z_requests` and `z_inflight` stand for, and
those that a worker of a node has popped without a lease; who was taken with
the `t`-th request that a node took, and who was so when it was acknowledged. -/
structure Copies (ν : Type) where
  queued : List (Copy ν × String) := []
  popped : List ((Copy ν × String) × ν × Nat) := []
  leased : List (Copy ν × String) := []
  carried : List (Copy ν × ν × Nat) := []
  acked : List (Copy ν) := []

namespace Copies

variable {ν : Type} [DecidableEq ν] (g : Copies ν) (n : ν)

omit [DecidableEq ν] in
def put (es : List (Origin × String)) : Copies ν :=
  { g with queued := g.queued ++ es.map fun e => ((n, e.1), e.2) }

omit [DecidableEq ν] in
/-- A node takes `ms`, the first of them as its `t`-th request. -/
def take (t : Nat) (ms : List String) : Copies ν :=
  let moved := g.queued.filter (·.2 ∈ ms)
  { g with
    queued := g.queued.filter (·.2 ∉ ms)
    leased := g.leased ++ moved
    carried := g.carried ++ moved.map fun e => (e.1, n, t + ms.idxOf e.2) }

omit [DecidableEq ν] in
def pop (w : Nat) (m : String) : Copies ν :=
  { g with
    queued := g.queued.filter (·.2 ≠ m)
    popped := g.popped ++ (g.queued.filter (·.2 = m)).map (·, n, w) }

/-- A worker records the lease of what it has popped, its node's `t`-th request. -/
def lease (w t : Nat) : Copies ν :=
  let moved := (g.popped.filter (·.2 = (n, w))).map Prod.fst
  { g with
    popped := g.popped.filter (·.2 ≠ (n, w))
    leased := g.leased ++ moved
    carried := g.carried ++ moved.map fun e => (e.1, n, t) }

/-- A node acknowledges the requests it took as `ts`, which leaves `inflight`. -/
def ack (ts : List Nat) (inflight : ZSet String) : Copies ν :=
  { g with
    leased := g.leased.filter (·.2 ∈ inflight)
    acked := g.acked ++ (g.carried.filter fun e => e.2.1 = n ∧ e.2.2 ∈ ts).map Prod.fst }

omit [DecidableEq ν] in
/-- What is not in flight any more is in the queue. -/
def reclaim (inflight : ZSet String) : Copies ν :=
  { g with
    queued := g.queued ++ g.leased.filter (·.2 ∉ inflight)
    leased := g.leased.filter (·.2 ∈ inflight) }

/-- What the step of `a` from `s` to `t` does. -/
def next (g : Copies ν) (s : Cluster ν) (a : ClusterAct ν) (t : Cluster ν) : Copies ν :=
  match a with
  | .node n (.push ..) | .node n (.pushBack _) =>
    g.put n ((t.nodes n).landed.drop (s.nodes n).landed.length)
  | .node n (.get _) | .node n (.getBatch _) =>
    g.take n (s.nodes n).taken.length ((t.nodes n).taken.drop (s.nodes n).taken.length)
  | .node n (.bzpopmin w) =>
    match s.tasks.bzpopmin with
    | some (m, _) => g.pop n w m
    | none => g
  | .node n (.lease w) => g.lease n w (s.nodes n).taken.length
  | .node n (.finish ..) | .node n (.ackOwner ..) | .node n (.pushDone _) =>
    g.ack n ((t.nodes n).acked.drop (s.nodes n).acked.length) t.tasks.inflight
  | .node _ (.check _) => g.reclaim t.tasks.inflight
  | _ => g

omit [DecidableEq ν] in
/-- A member stands for it, a worker has popped it, or it was acknowledged. -/
def Holds (c : Copy ν) (m : String) : Prop :=
  (c, m) ∈ g.queued ∨ (c, m) ∈ g.leased ∨ (∃ w, ((c, m), w) ∈ g.popped) ∨ c ∈ g.acked

variable {g n}

omit [DecidableEq ν] in
@[simp] theorem put_nil : g.put n [] = g := by simp [put]

omit [DecidableEq ν] in
@[simp] theorem take_nil (t : Nat) : g.take n t [] = g := by simp [take]

/-- Without a change of `z_inflight` nothing moves. -/
theorem ack_nil {inflight : ZSet String} (h : ∀ e ∈ g.leased, e.2 ∈ inflight) : g.ack n [] inflight = g := by
  have hl : g.leased.filter (·.2 ∈ inflight) = g.leased := List.filter_eq_self.mpr (by simpa using h)
  simp [ack, hl]

omit [DecidableEq ν] in
theorem Holds.put {c : Copy ν} {m : String} (h : g.Holds c m) (es : List (Origin × String)) :
    (g.put n es).Holds c m := h.imp_left fun h => List.mem_append_left _ h

omit [DecidableEq ν] in
theorem Holds.take {c : Copy ν} {m : String} (h : g.Holds c m) (t : Nat) (ms : List String) :
    (g.take n t ms).Holds c m := by
  rcases h with h | h | h
  · by_cases hm : m ∈ ms
    · exact .inr (.inl (List.mem_append_right _ (List.mem_filter.mpr ⟨h, by simpa using hm⟩)))
    · exact .inl (List.mem_filter.mpr ⟨h, by simpa using hm⟩)
  · exact .inr (.inl (List.mem_append_left _ h))
  · exact .inr (.inr h)

omit [DecidableEq ν] in
theorem Holds.pop {c : Copy ν} {m : String} (h : g.Holds c m) (w : Nat) (p : String) :
    (g.pop n w p).Holds c m := by
  rcases h with h | h | ⟨k, h⟩ | h
  · by_cases hm : m = p
    · refine .inr (.inr (.inl ⟨(n, w), List.mem_append_right _ (List.mem_map.mpr ⟨(c, m), ?_, rfl⟩)⟩))
      exact List.mem_filter.mpr ⟨h, by simpa using hm⟩
    · exact .inl (List.mem_filter.mpr ⟨h, by simpa using hm⟩)
  · exact .inr (.inl h)
  · exact .inr (.inr (.inl ⟨k, List.mem_append_left _ h⟩))
  · exact .inr (.inr (.inr h))

theorem Holds.lease {c : Copy ν} {m : String} (h : g.Holds c m) (w t : Nat) : (g.lease n w t).Holds c m := by
  rcases h with h | h | ⟨k, h⟩ | h
  · exact .inl h
  · exact .inr (.inl (List.mem_append_left _ h))
  · by_cases hk : k = (n, w)
    · refine .inr (.inl (List.mem_append_right _ (List.mem_map.mpr ⟨((c, m), k), ?_, rfl⟩)))
      exact List.mem_filter.mpr ⟨h, by simpa using hk⟩
    · exact .inr (.inr (.inl ⟨k, List.mem_filter.mpr ⟨h, by simpa using hk⟩⟩))
  · exact .inr (.inr (.inr h))

omit [DecidableEq ν] in
theorem Holds.reclaim {c : Copy ν} {m : String} (h : g.Holds c m) (inflight : ZSet String) :
    (g.reclaim inflight).Holds c m := by
  rcases h with h | h | h
  · exact .inl (List.mem_append_left _ h)
  · by_cases hm : m ∈ inflight
    · exact .inr (.inl (List.mem_filter.mpr ⟨h, by simpa using hm⟩))
    · exact .inl (List.mem_append_right _ (List.mem_filter.mpr ⟨h, by simpa using hm⟩))
  · exact .inr (.inr h)

/-- Who loses its lease to the acknowledgement was taken with the request. -/
theorem Holds.ack {c : Copy ν} {m : String} (h : g.Holds c m) {t : Nat} {inflight : ZSet String}
    (hg : (c, m) ∈ g.leased → m ∉ inflight → (c, n, t) ∈ g.carried ∨ c ∈ g.acked) :
    (g.ack n [t] inflight).Holds c m := by
  rcases h with h | h | h | h
  · exact .inl h
  · by_cases hm : m ∈ inflight
    · exact .inr (.inl (List.mem_filter.mpr ⟨h, by simpa using hm⟩))
    · rcases hg h hm with hc | hc
      · refine .inr (.inr (.inr (List.mem_append_right _ (List.mem_map.mpr ⟨(c, n, t), ?_, rfl⟩))))
        exact List.mem_filter.mpr ⟨hc, by simp⟩
      · exact .inr (.inr (.inr (List.mem_append_left _ hc)))
  · exact .inr (.inr (.inl h))
  · exact .inr (.inr (.inr (List.mem_append_left _ h)))

end Copies

namespace RedisScheduler

/-- The request that a worker is busy with. -/
def takeOf (nd : RedisScheduler) (w : Nat) : Option Nat :=
  match nd.workers[w]? with
  | some (.busy t _) => some t
  | _ => none

/-- The request that a worker acknowledges when it finishes. -/
def ackingTake (nd : RedisScheduler) (w : Nat) : Option Nat :=
  match nd.workers[w]? with
  | some (.busy t false) => some t
  | _ => none

/-- A worker that has nothing popped goes on: what is popped stays so. -/
theorem popped_setWorker {nd : RedisScheduler} {w : Nat} {x : WorkerState} (hw : nd.workers[w]? = some x)
    (y : WorkerState) {i : Nat} {m : String} (h : nd.workers[i]? = some (.popped m)) (hx : x ≠ .popped m) :
    (nd.setWorker w y).workers[i]? = some (.popped m) := by
  have hi : w ≠ i := by
    rintro rfl
    exact hx (Option.some.inj (hw.symm.trans h))
  exact (List.getElem?_set_ne hi).trans h

/-- It is not in the memory any more. -/
def Left (nd : RedisScheduler) (o : Origin) : Prop := o.serial ∈ nd.dropped ∨ ∃ m, (o, m) ∈ nd.landed

theorem Left.mono {nd nd' : RedisScheduler} {o : Origin} (h : nd.Left o) (hd : nd.dropped ⊆ nd'.dropped)
    (hl : nd.landed ⊆ nd'.landed) : nd'.Left o :=
  h.imp (fun h => hd h) fun ⟨m, hm⟩ => ⟨m, hl hm⟩

/-- What the other nodes rely on: nothing that has landed, was dropped or is
popped is forgotten, and no acknowledged request yields. -/
structure Keeps (nd nd' : RedisScheduler) : Prop where
  landed : nd'.landed = nd.landed
  acked : nd'.acked = nd.acked
  dropped : nd.dropped ⊆ nd'.dropped
  popped : ∀ (w : Nat) (m : String), nd.workers[w]? = some (.popped m) → nd'.workers[w]? = some (.popped m)
  yielded : ∀ o ∈ nd'.yielded, o ∈ nd.yielded ∨ ∀ t, o.parent = some t → t ∉ nd.acked

theorem Keeps.of_eq {nd nd' : RedisScheduler} (hl : nd'.landed = nd.landed) (ha : nd'.acked = nd.acked)
    (hd : nd'.dropped = nd.dropped)
    (hp : ∀ (w : Nat) (m : String), nd.workers[w]? = some (.popped m) → nd'.workers[w]? = some (.popped m))
    (hy : nd'.yielded = nd.yielded) : Keeps nd nd' :=
  ⟨hl, ha, hd ▸ List.Subset.refl _, hp, fun _ ho => .inl (hy ▸ ho)⟩

theorem keeps_refl (nd : RedisScheduler) : Keeps nd nd := .of_eq rfl rfl rfl (fun _ _ => id) rfl

theorem keeps_yieldRequest {nd : RedisScheduler} (parent token : Option Nat) (r : Request)
    (hp : ∀ t, parent = some t → t ∉ nd.acked) : Keeps nd (nd.yieldRequest parent token r) := by
  refine ⟨rfl, rfl, List.Subset.refl _, fun _ _ => id, fun o ho => ?_⟩
  refine (List.mem_append.mp ho).imp_right fun ho => ?_
  rw [List.mem_singleton.mp ho]
  exact hp

end RedisScheduler

namespace LocalStep

open RedisScheduler

variable {nd nd' : RedisScheduler} {a : NodeAct}

/-- A step by which no acknowledged request yields. -/
theorem keeps (h : LocalStep nd a nd')
    (hg : ∀ w r, a = .yieldRequest w r ∨ a = .putRetry w r → ∀ t ∈ nd.takeOf w, t ∉ nd.acked) :
    Keeps nd nd' := by
  cases h with
  | seed r | convert r => exact keeps_yieldRequest none none r nofun
  | yieldRequest w t deferred r hw =>
    refine keeps_yieldRequest _ _ r ?_
    rintro _ ⟨⟩
    exact hg w r (.inl rfl) t (by simp [takeOf, hw])
  | putRetry w t deferred r hw =>
    refine keeps_yieldRequest _ _ _ ?_
    rintro _ ⟨⟩
    exact hg w r (.inr rfl) t (by simp [takeOf, hw])
  | popBuffer _ _ _ hw | putItem _ _ _ _ hw | finishDeferred _ _ _ hw =>
    exact .of_eq rfl rfl rfl (fun _ _ hm => popped_setWorker hw _ hm nofun) rfl
  | getNone _ hw | timeout _ hw =>
    exact .of_eq rfl rfl rfl (fun _ _ hm => popped_setWorker hw _ hm nofun) rfl
  | filter =>
    exact ⟨rfl, rfl, List.subset_append_left .., fun _ _ => id, fun _ => .inl⟩
  | _ => exact .of_eq rfl rfl rfl (fun _ _ => id) rfl

end LocalStep

namespace Cluster

open RedisScheduler

variable {ν : Type} [DecidableEq ν] {st : Setting} {codec : Codec}

/-! ## All nodes -/

variable (ν st codec) in
/-- The runs with who is in the sets. -/
def copiesMachine : Machine (Cluster ν × Copies ν) (ClusterAct ν) :=
  (machine st codec).withHistory {} Copies.next

section
variable (x : Cluster ν × Copies ν)

omit [DecidableEq ν] in
/-- Dropped as a duplicate, or put into the queue, and now there or in flight, or
acknowledged itself. -/
def Landed (n : ν) (o : Origin) : Prop :=
  o.serial ∈ (x.1.nodes n).dropped ∨ ∃ m, (o, m) ∈ (x.1.nodes n).landed ∧
    (((n, o), m) ∈ x.2.queued ∧ m ∈ x.1.tasks.queue ∨
      ((n, o), m) ∈ x.2.leased ∧ m ∈ x.1.tasks.inflight ∨ (n, o) ∈ x.2.acked)

omit [DecidableEq ν] in
/-- Every request that an acknowledged one yielded, or that it was retried as,
has landed. -/
def CrashSafe : Prop :=
  ∀ n, ∀ o ∈ (x.1.nodes n).yielded, ∀ t, o.parent = some t → t ∈ (x.1.nodes n).acked → Landed x n o

omit [DecidableEq ν] in
/-- Nothing that the `t`-th request of a node yielded is in the memory of the node,
or popped by a worker of any node, alive or dead, without a lease. -/
def Unheld (n : ν) (t : Nat) : Prop :=
  (∀ o ∈ (x.1.nodes n).held, o.parent ≠ some t) ∧
    ∀ e ∈ x.2.popped, e.1.1.1 = n → e.1.1.2.parent = some t → e.1.1 ∈ x.2.acked

omit [DecidableEq ν] in
/-- Its acknowledgement takes the lease away from no yielded request that was not
taken with it. -/
def OwnLease (n : ν) (t : Nat) : Prop :=
  ∀ m ∈ (x.1.nodes n).taken[t]?, ∀ e ∈ x.2.leased, e.2 = m → e.1.2.parent ≠ none →
    (e.1, n, t) ∈ x.2.carried ∨ e.1 ∈ x.2.acked

omit [DecidableEq ν] in
/-- An acknowledgement comes when what the request yielded has left the memory, and
touches no lease but its own. -/
def Settles (n : ν) (t : Nat) : Prop := Unheld x n t ∧ OwnLease x n t

omit [DecidableEq ν] in
/-- Acknowledgements are such, after one the request yields nothing, and no
`bzpopmin` takes what an acknowledged request yielded. -/
def LandsFirst : ClusterAct ν → Prop
  | .node n (.yieldRequest w _) | .node n (.putRetry w _) =>
    ∀ t ∈ (x.1.nodes n).takeOf w, t ∉ (x.1.nodes n).acked
  | .node n (.finish w works) => works = true → ∀ t ∈ (x.1.nodes n).ackingTake w, Settles x n t
  | .node n (.ackOwner j works) =>
    works = true → ∀ t ∈ (x.1.nodes n).itemFlushes[j]?.bind List.head?, Settles x n t
  | .node n (.pushDone works) => works = true → ∀ t ∈ (x.1.nodes n).settling, Settles x n t
  | .node _ (.bzpopmin _) =>
    ∀ p ∈ x.1.tasks.bzpopmin, ∀ e ∈ x.2.queued, e.2 = p.1 →
      ∀ t ∈ e.1.2.parent, t ∈ (x.1.nodes e.1.1).acked → e.1 ∈ x.2.acked
  | _ => True

instance (n : ν) (t : Nat) : Decidable (Unheld x n t) := inferInstanceAs (Decidable (_ ∧ _))

instance (n : ν) (t : Nat) : Decidable (OwnLease x n t) := inferInstanceAs (Decidable (∀ m ∈ (x.1.nodes n).taken[t]?, _))

instance (n : ν) (t : Nat) : Decidable (Settles x n t) := inferInstanceAs (Decidable (_ ∧ _))

instance : ∀ a : ClusterAct ν, Decidable (LandsFirst x a)
  | .node n (.yieldRequest w _) | .node n (.putRetry w _) =>
    inferInstanceAs (Decidable (∀ t ∈ (x.1.nodes n).takeOf w, t ∉ (x.1.nodes n).acked))
  | .node n (.finish w works) =>
    inferInstanceAs (Decidable (works = true → ∀ t ∈ (x.1.nodes n).ackingTake w, Settles x n t))
  | .node n (.ackOwner j works) =>
    inferInstanceAs (Decidable (works = true → ∀ t ∈ (x.1.nodes n).itemFlushes[j]?.bind List.head?, Settles x n t))
  | .node n (.pushDone works) => inferInstanceAs (Decidable (works = true → ∀ t ∈ (x.1.nodes n).settling, Settles x n t))
  | .node _ (.bzpopmin _) => inferInstanceAs (Decidable (∀ p ∈ x.1.tasks.bzpopmin, _))
  | .tick _ | .join .. | .kill _ | .node _ (.seed _) | .node _ (.popBuffer _) | .node _ (.get _) | .node _ (.getBatch _)
  | .node _ (.timeout _) | .node _ (.lease _) | .node _ (.putItem ..) | .node _ (.count _) | .node _ .swap
  | .node _ (.filter ..) | .node _ (.push ..) | .node _ .swapItems | .node _ (.failItems _) | .node _ .beat
  | .node _ .renew | .node _ (.fetch _) | .node _ .resetPolls | .node _ (.convert _) | .node _ .nextTask
  | .node _ .endPoll | .node _ (.check _) | .node _ .drain | .node _ (.pushBack _) => isTrue trivial

end

/-- Where the requests are that were put into the queue. -/
structure Tracked (x : Cluster ν × Copies ν) : Prop where
  queued : ∀ e ∈ x.2.queued, e.2 ∈ x.1.tasks.queue
  leased : ∀ e ∈ x.2.leased, e.2 ∈ x.1.tasks.inflight
  popped : ∀ e ∈ x.2.popped, (x.1.nodes e.2.1).workers[e.2.2]? = some (.popped e.1.2)
  kept : ∀ n, ∀ e ∈ (x.1.nodes n).landed, e.1.parent ≠ none → x.2.Holds (n, e.1) e.2
  left : ∀ n, ∀ o ∈ (x.1.nodes n).yielded, ∀ t, o.parent = some t → t ∈ (x.1.nodes n).acked →
    (x.1.nodes n).Left o
  unpopped : ∀ e ∈ x.2.popped, ∀ t, e.1.1.2.parent = some t → t ∈ (x.1.nodes e.1.1.1).acked → e.1.1 ∈ x.2.acked

omit [DecidableEq ν] in
theorem Tracked.crashSafe {x : Cluster ν × Copies ν} (h : Tracked x) : CrashSafe x := by
  intro n o ho t hot ht
  refine (h.left n o ho t hot ht).imp_right fun ⟨m, hm⟩ => ⟨m, hm, ?_⟩
  rcases h.kept n _ hm (by simp [hot]) with hq | hl | ⟨w, hp⟩ | ha
  · exact .inl ⟨hq, h.queued _ hq⟩
  · exact .inr (.inl ⟨hl, h.leased _ hl⟩)
  · exact .inr (.inr (h.unpopped _ hp t hot ht))
  · exact .inr (.inr ha)

variable {s t : Cluster ν} {g g' : Copies ν}

/-- A step that changes one node. -/
theorem Tracked.update (h : Tracked (s, g)) {n : ν} {nd : RedisScheduler}
    (ht : t.nodes = Function.update s.nodes n nd)
    (hq : ∀ e ∈ g'.queued, e.2 ∈ t.tasks.queue) (hi : ∀ e ∈ g'.leased, e.2 ∈ t.tasks.inflight)
    (hp : ∀ e ∈ g'.popped, (t.nodes e.2.1).workers[e.2.2]? = some (.popped e.1.2))
    (hk : ∀ c m, g.Holds c m → c.2.parent ≠ none → g'.Holds c m)
    (hl : ∀ e ∈ nd.landed, e ∈ (s.nodes n).landed ∨ g'.Holds (n, e.1) e.2)
    (ho : ∀ o ∈ nd.yielded, ∀ k, o.parent = some k → k ∈ nd.acked → nd.Left o)
    (hu : ∀ e ∈ g'.popped, ∀ k, e.1.1.2.parent = some k → k ∈ (t.nodes e.1.1.1).acked → e.1.1 ∈ g'.acked) :
    Tracked (t, g') := by
  refine ⟨hq, hi, hp, fun i e he hpar => ?_, fun i o hoi k hok hka => ?_, hu⟩
  · have he : e ∈ (t.nodes i).landed := he
    rw [ht] at he
    by_cases hin : i = n
    · subst hin
      rw [Function.update_self] at he
      exact (hl e he).elim (fun he => hk _ _ (h.kept i e he hpar) hpar) id
    · rw [Function.update_of_ne hin] at he
      exact hk _ _ (h.kept i e he hpar) hpar
  · have hoi : o ∈ (t.nodes i).yielded := hoi
    have hka : k ∈ (t.nodes i).acked := hka
    show (t.nodes i).Left o
    rw [ht] at hoi hka ⊢
    by_cases hin : i = n
    · subst hin
      rw [Function.update_self] at hoi hka ⊢
      exact ho o hoi k hok hka
    · rw [Function.update_of_ne hin] at hoi hka ⊢
      exact h.left i o hoi k hok hka

/-- The workers of the other nodes, and those that stay popped, are where they were. -/
theorem Tracked.popped_update (h : Tracked (s, g)) {n : ν} {nd : RedisScheduler}
    (ht : t.nodes = Function.update s.nodes n nd) {e : (Copy ν × String) × ν × Nat} (he : e ∈ g.popped)
    (hp : e.2.1 = n → (s.nodes n).workers[e.2.2]? = some (.popped e.1.2) →
      nd.workers[e.2.2]? = some (.popped e.1.2)) :
    (t.nodes e.2.1).workers[e.2.2]? = some (.popped e.1.2) := by
  have hold := h.popped e he
  rw [ht]
  by_cases hin : e.2.1 = n
  · have hold : (s.nodes e.2.1).workers[e.2.2]? = some (.popped e.1.2) := hold
    rw [hin] at hold
    rw [hin, Function.update_self]
    exact hp hin hold
  · rw [Function.update_of_ne hin]
    exact hold

/-- A step after which a node has acknowledged no more. -/
theorem Tracked.unpopped_update (h : Tracked (s, g)) {n : ν} {nd : RedisScheduler}
    (ht : t.nodes = Function.update s.nodes n nd) (ha : nd.acked ⊆ (s.nodes n).acked)
    {e : (Copy ν × String) × ν × Nat} (he : e ∈ g.popped) {k : Nat} (hpar : e.1.1.2.parent = some k)
    (hk : k ∈ (t.nodes e.1.1.1).acked) : e.1.1 ∈ g.acked := by
  refine h.unpopped e he k hpar ?_
  rw [ht] at hk
  by_cases hin : e.1.1.1 = n
  · rw [hin, Function.update_self] at hk
    show k ∈ (s.nodes e.1.1.1).acked
    rw [hin]
    exact ha hk
  · rwa [Function.update_of_ne hin] at hk

omit [DecidableEq ν] in
theorem Tracked.left_keeps (h : Tracked (s, g)) {n : ν} {nd : RedisScheduler} (hk : Keeps (s.nodes n) nd)
    (o : Origin) (ho : o ∈ nd.yielded) (k : Nat) (hok : o.parent = some k) (hka : k ∈ nd.acked) : nd.Left o := by
  rw [hk.acked] at hka
  rcases hk.yielded o ho with hy | hy
  · exact (h.left n o hy k hok hka).mono hk.dropped (hk.landed ▸ List.Subset.refl _)
  · exact absurd hka (hy k hok)

/-- A step by which requests move from one place to another. -/
theorem Tracked.move (h : Tracked (s, g)) {n : ν} {nd : RedisScheduler}
    (ht : t.nodes = Function.update s.nodes n nd) (hk : Keeps (s.nodes n) nd)
    (hq : ∀ e ∈ g'.queued, e.2 ∈ t.tasks.queue) (hi : ∀ e ∈ g'.leased, e.2 ∈ t.tasks.inflight)
    (hp : g'.popped = g.popped) (ha : g'.acked = g.acked) (hh : ∀ c m, g.Holds c m → g'.Holds c m) :
    Tracked (t, g') := by
  refine h.update ht hq hi (fun e he => h.popped_update ht (hp ▸ he) fun _ => hk.popped _ _)
    (fun c m hc _ => hh c m hc) (fun e he => .inl (hk.landed ▸ he)) (h.left_keeps hk) fun e he k hpar hka => ?_
  rw [hp] at he
  rw [ha]
  exact h.unpopped_update ht (hk.acked ▸ List.Subset.refl _) he hpar hka

/-- A step by which none moves. -/
theorem Tracked.frame (h : Tracked (s, g)) {n : ν} {nd : RedisScheduler}
    (ht : t.nodes = Function.update s.nodes n nd) (hk : Keeps (s.nodes n) nd)
    (hq : ∀ m ∈ s.tasks.queue, m ∈ t.tasks.queue) (hi : ∀ m ∈ s.tasks.inflight, m ∈ t.tasks.inflight) :
    Tracked (t, g) :=
  h.move ht hk (fun e he => hq _ (h.queued e he)) (fun e he => hi _ (h.leased e he)) rfl rfl fun _ _ => id

theorem Tracked.inNode (h : Tracked (s, g)) (n : ν) {nd : RedisScheduler} (hk : Keeps (s.nodes n) nd) :
    Tracked (s.setNode n nd, g) :=
  h.frame rfl hk (fun _ => id) fun _ => id

/-! ## The steps that put, take and acknowledge -/

/-- The steps that change their node only. -/
theorem next_inNode (h : Tracked (s, g)) {n : ν} {a : NodeAct} {nd : RedisScheduler}
    (hl : LocalStep (s.nodes n) a nd) : g.next s (.node n a) (s.setNode n nd) = g := by
  have hself : (s.setNode n nd).nodes n = nd := by rw [setNode_nodes, Function.update_self]
  cases hl with
  | getNone =>
    simp only [Copies.next, hself]
    exact (congrArg _ (List.drop_length ..)).trans (Copies.take_nil _)
  | pushRaised | pushBackRaised =>
    simp only [Copies.next, hself, List.drop_length]
    exact Copies.put_nil
  | finishDeferred =>
    simp only [Copies.next, hself]
    exact (congrArg (g.ack n · _) (List.drop_length ..)).trans (Copies.ack_nil h.leased)
  | _ => rfl

/-- A request is put into the queue. -/
theorem Tracked.put (h : Tracked (s, g)) (n : ν) (nd : RedisScheduler) (r : Request)
    (es : List (Origin × String)) (hes : ∀ e ∈ es, e.2 = codec.dumps r)
    (hl : nd.landed = (s.nodes n).landed ++ es) (hy : nd.yielded = (s.nodes n).yielded)
    (ha : nd.acked = (s.nodes n).acked) (hd : nd.dropped = (s.nodes n).dropped)
    (hw : nd.workers = (s.nodes n).workers) :
    Tracked ((s.setTasks (s.tasks.put codec r)).setNode n nd, g.put n es) := by
  refine h.update (n := n) rfl (fun e he => ?_) h.leased
    (fun e he => h.popped_update rfl he fun _ hp => hw ▸ hp) (fun c m hc _ => hc.put es) (fun e he => ?_)
    (fun o ho k hok hka => ?_) fun e he k hpar hka => h.unpopped_update rfl (ha ▸ List.Subset.refl _) he hpar hka
  · refine RedisTaskQueue.mem_queue_put.mpr ?_
    rcases List.mem_append.mp he with he | he
    · exact .inr (h.queued e he)
    · obtain ⟨d, hd, rfl⟩ := List.mem_map.mp he
      exact .inl (hes d hd)
  · rw [hl] at he
    refine (List.mem_append.mp he).imp_right fun he => .inl (List.mem_append_right _ ?_)
    exact List.mem_map.mpr ⟨e, he, rfl⟩
  · exact (h.left n o (hy ▸ ho) k hok (ha ▸ hka)).mono (hd ▸ List.Subset.refl _)
      (hl ▸ List.subset_append_left ..)

/-- With leases on, what a take removes from the queue is in flight. -/
theorem Tracked.take (hlease : 0 < st.SPIDER_TASK_LEASE) (h : Tracked (s, g)) {n : ν} {nd : RedisScheduler}
    {count : Nat} {ms : List String} {q : RedisTaskQueue} (k : Nat) (es : List Event)
    (hq : s.tasks.take st s.now count = (ms, q)) (hk : Keeps (s.nodes n) nd) :
    Tracked (((s.setTasks q).setNode n nd).note es, g.take n k ms) := by
  have hms : (s.tasks.take st s.now count).1 = ms := congrArg Prod.fst hq
  have htasks : (s.tasks.take st s.now count).2 = q := congrArg Prod.snd hq
  have hin : ∀ m, m ∈ q.inflight ↔ m ∈ ms ∨ m ∈ s.tasks.inflight := fun m => by
    rw [← hms, ← htasks]
    exact RedisTaskQueue.mem_inflight_take hlease
  have hqueue : ∀ m ∈ s.tasks.queue, m ∈ ms ∨ m ∈ q.queue := fun m hm => by
    rw [← hms, ← htasks]
    exact RedisTaskQueue.mem_queue_take.mp hm
  refine h.move (n := n) rfl hk (fun e he => ?_) (fun e he => ?_) rfl rfl fun c m hc => hc.take k ms
  · obtain ⟨he, hne⟩ := List.mem_filter.mp he
    exact (hqueue _ (h.queued e he)).resolve_left (of_decide_eq_true hne)
  · rcases List.mem_append.mp he with he | he
    · exact (hin _).mpr (.inr (h.leased e he))
    · exact (hin _).mpr (.inl (of_decide_eq_true (List.mem_filter.mp he).2))

/-- A worker pops a member that no acknowledged request yielded. -/
theorem Tracked.pop (h : Tracked (s, g)) {n : ν} {w : Nat} {p : String} {q : RedisTaskQueue}
    (hw : (s.nodes n).workers[w]? = some .blocked) (hq : s.tasks.bzpopmin = some (p, q))
    (hg : LandsFirst (s, g) (.node n (.bzpopmin w))) :
    Tracked (((s.setTasks q).setNode n ((s.nodes n).setWorker w (.popped p))).note [.took p],
      g.pop n w p) := by
  have hstays : ∀ (i : Nat) (m : String), (s.nodes n).workers[i]? = some (.popped m) →
      ((s.nodes n).setWorker w (.popped p)).workers[i]? = some (.popped m) := fun _ _ hm =>
    popped_setWorker hw _ hm nofun
  have hmem := fun m => RedisTaskQueue.mem_bzpopmin (m := m) hq
  refine h.update (n := n) rfl (fun e he => ?_) (fun e he => ?_) (fun e he => ?_) (fun c m hc _ => hc.pop w p)
    (fun e he => .inl he) (h.left n) fun e he k hpar hka => ?_
  · obtain ⟨he, hne⟩ := List.mem_filter.mp he
    exact ((hmem e.2).2.2.mp (h.queued e he)).resolve_left (of_decide_eq_true hne)
  · exact (hmem e.2).2.1 ▸ h.leased e he
  · rcases List.mem_append.mp he with he | he
    · exact h.popped_update rfl he fun _ => hstays _ _
    · obtain ⟨d, hd, rfl⟩ := List.mem_map.mp he
      rw [note_nodes, setNode_nodes, Function.update_self]
      show ((s.nodes n).setWorker w (.popped p)).workers[w]? = some (.popped d.2)
      rw [of_decide_eq_true (List.mem_filter.mp hd).2]
      exact List.getElem?_set_self (List.getElem?_eq_some_iff.mp hw).1
  · rcases List.mem_append.mp he with he | he
    · refine h.unpopped_update (n := n) rfl ?_ he hpar hka
      exact List.Subset.refl (s.nodes n).acked
    · obtain ⟨d, hd, rfl⟩ := List.mem_map.mp he
      obtain ⟨hd, hdp⟩ := List.mem_filter.mp hd
      refine hg _ hq d hd (of_decide_eq_true hdp) k hpar ?_
      have hka : k ∈ ((Function.update s.nodes n ((s.nodes n).setWorker w (.popped p))) d.1.1).acked := hka
      by_cases hin : d.1.1 = n
      · rw [hin, Function.update_self] at hka
        show k ∈ (s.nodes d.1.1).acked
        rw [hin]
        exact hka
      · rwa [Function.update_of_ne hin] at hka

/-- A worker records the lease of what it has popped. -/
theorem Tracked.lease (hlease : 0 < st.SPIDER_TASK_LEASE) (h : Tracked (s, g)) {n : ν} {w k : Nat} {p : String}
    (hw : (s.nodes n).workers[w]? = some (.popped p)) :
    Tracked (((s.setTasks (s.tasks.recordLease st s.now p)).setNode n
      ({ s.nodes n with taken := (s.nodes n).taken ++ [p] }.setWorker w (.got k))).note [.took p],
        g.lease n w k) := by
  have hin : ∀ m, m ∈ (s.tasks.recordLease st s.now p).inflight ↔ m = p ∨ m ∈ s.tasks.inflight := fun m =>
    RedisTaskQueue.mem_inflight_recordLease hlease
  refine h.update (n := n) rfl (fun e he => ?_) (fun e he => ?_) (fun e he => ?_) (fun c m hc _ => hc.lease w k)
    (fun e he => .inl he) (h.left n) fun e he j hpar hja => ?_
  · show e.2 ∈ (s.tasks.recordLease st s.now p).queue
    rw [RedisTaskQueue.queue_recordLease]
    exact h.queued e he
  · refine (hin e.2).mpr ?_
    rcases List.mem_append.mp he with he | he
    · exact .inr (h.leased e he)
    · -- what the worker had popped is the member `p`
      obtain ⟨d, hd, rfl⟩ := List.mem_map.mp he
      obtain ⟨hd, hdw⟩ := List.mem_filter.mp hd
      have hpop := h.popped d hd
      rw [of_decide_eq_true hdw] at hpop
      exact .inl (WorkerState.popped.inj (Option.some.inj (hpop.symm.trans hw)))
  · obtain ⟨he, hne⟩ := List.mem_filter.mp he
    refine h.popped_update rfl he fun hen hp => ?_
    have hwe : w ≠ e.2.2 := fun hwe => of_decide_eq_true hne (Prod.ext hen hwe.symm)
    exact (List.getElem?_set_ne hwe).trans hp
  · obtain ⟨he, -⟩ := List.mem_filter.mp he
    refine h.unpopped_update (n := n) rfl ?_ he hpar hja
    exact List.Subset.refl (s.nodes n).acked

/-- A request is acknowledged, after what it yielded is out of the memory. -/
theorem Tracked.queueDone (h : Tracked (s, g)) {n : ν} (hp : Placed (s.nodes n)) {k : Nat} {works : Bool}
    (hu : works = true → Settles (s, g) n k) :
    Tracked (s.queueDone n k works,
      g.ack n (((s.queueDone n k works).nodes n).acked.drop (s.nodes n).acked.length)
        (s.queueDone n k works).tasks.inflight) := by
  have hsame (he : s.queueDone n k works = s) : Tracked (s.queueDone n k works,
      g.ack n (((s.queueDone n k works).nodes n).acked.drop (s.nodes n).acked.length)
        (s.queueDone n k works).tasks.inflight) := by
    rw [he, List.drop_length, Copies.ack_nil h.leased]
    exact h
  cases works with
  | false =>
    refine hsame ?_
    unfold Cluster.queueDone
    dsimp only
    split <;> first | rfl | contradiction
  | true =>
    rcases queueDone_cases s n k true with ⟨p, hpk, he⟩ | he
    · obtain ⟨⟨hheld, hpop⟩, hown⟩ := hu rfl
      rw [he, note_nodes, setNode_nodes, Function.update_self, List.drop_left, note_tasks, setNode_tasks,
        setTasks_tasks]
      -- whoever loses a lease was taken with this request
      have hmoves : ∀ c m, g.Holds c m → c.2.parent ≠ none →
          (g.ack n [k] (s.tasks.doneMember p).inflight).Holds c m := by
        refine fun c m hc hpar => hc.ack fun hl hm => ?_
        have hmp : m = p := by
          by_contra hne
          exact hm (RedisTaskQueue.mem_inflight_doneMember.mpr ⟨h.leased _ hl, hne⟩)
        exact hown p hpk _ hl hmp hpar
      refine h.update (n := n) rfl h.queued (fun e he => of_decide_eq_true (List.mem_filter.mp he).2)
        (fun e he => ?_) hmoves (fun e he => .inl he) (fun o ho t hot hta => ?_) fun e he t hpar hta => ?_
      · refine h.popped_update (n := n) rfl he ?_
        exact fun _ => id
      · rcases List.mem_append.mp hta with hta | hta
        · exact h.left n o ho t hot hta
        · rw [List.mem_singleton.mp hta] at hot
          exact (hp.placed o ho).resolve_left fun hm => hheld o hm hot
      · refine List.mem_append_left _ ?_
        have hta : t ∈ ((Function.update s.nodes n
          { s.nodes n with acked := (s.nodes n).acked ++ [k] }) e.1.1.1).acked := hta
        by_cases hin : e.1.1.1 = n
        · rw [hin, Function.update_self] at hta
          rcases List.mem_append.mp hta with hta | hta
          · exact h.unpopped e he t hpar (by rw [hin]; exact hta)
          · rw [List.mem_singleton.mp hta] at hpar
            exact hpop e he hin hpar
        · rw [Function.update_of_ne hin] at hta
          exact h.unpopped e he t hpar hta
    · exact hsame he

omit [DecidableEq ν] in
theorem Settles.congr {n : ν} {k : Nat} (h : Settles (s, g) n k) (hh : (t.nodes n).held = (s.nodes n).held)
    (ht : (t.nodes n).taken = (s.nodes n).taken) : Settles (t, g) n k := by
  obtain ⟨⟨hheld, hpop⟩, hown⟩ := h
  refine ⟨⟨fun o ho => hheld o (hh ▸ ho), hpop⟩, fun m hm => hown m ?_⟩
  rw [← ht]
  exact hm

/-- The steps that acknowledge, after what they do to their node. -/
theorem Tracked.acknowledge (h : Tracked (s, g)) {n : ν} {nd : RedisScheduler} {k : Nat}
    {works : Bool} (hk : Keeps (s.nodes n) nd) (hpn : Placed nd) (hh : nd.held = (s.nodes n).held)
    (ht : nd.taken = (s.nodes n).taken) (hu : works = true → Settles (s, g) n k) :
    Tracked ((s.setNode n nd).queueDone n k works,
      g.ack n ((((s.setNode n nd).queueDone n k works).nodes n).acked.drop (s.nodes n).acked.length)
        ((s.setNode n nd).queueDone n k works).tasks.inflight) := by
  have hself : (s.setNode n nd).nodes n = nd := by rw [setNode_nodes, Function.update_self]
  have hdone := @Tracked.queueDone _ _ _ _ (h.inNode n hk) n (hself.symm ▸ hpn) k works
    fun hworks => (hu hworks).congr (by rw [hself, hh]) (by rw [hself, ht])
  have hlen : ((s.setNode n nd).nodes n).acked.length = (s.nodes n).acked.length := by rw [hself, hk.acked]
  rwa [hlen] at hdone

theorem collectorDone_setNode (s : Cluster ν) (n : ν) (nd : RedisScheduler) (k : Nat) (works : Bool) :
    (s.setNode n nd).collectorDone n k works =
      (s.setNode n { nd with collector := nd.collector.done k }).queueDone n k works := by
  simp only [collectorDone, setNode, Function.update_self, Function.update_idem]

/-- Expired members go back into the queue. -/
theorem Tracked.reclaim (h : Tracked (s, g)) {n : ν} {nd : RedisScheduler}
    (ht : t.nodes = Function.update s.nodes n nd) (hk : Keeps (s.nodes n) nd)
    (hq : ∀ m ∈ s.tasks.queue, m ∈ t.tasks.queue)
    (hi : ∀ m ∈ s.tasks.inflight, m ∈ t.tasks.queue ∨ m ∈ t.tasks.inflight) :
    Tracked (t, g.reclaim t.tasks.inflight) := by
  refine h.move ht hk (fun e he => ?_) (fun e he => of_decide_eq_true (List.mem_filter.mp he).2) rfl rfl
    fun c m hc => hc.reclaim _
  rcases List.mem_append.mp he with he | he
  · exact hq _ (h.queued e he)
  · obtain ⟨he, hne⟩ := List.mem_filter.mp he
    exact (hi _ (h.leased e he)).resolve_right (of_decide_eq_true hne)

theorem Tracked.step (hlease : 0 < st.SPIDER_TASK_LEASE) {a : ClusterAct ν} (hp : ∀ n, Placed (s.nodes n))
    (h : Tracked (s, g)) (hg : LandsFirst (s, g) a) (hs : Stepped st codec s a t) :
    Tracked (t, g.next s a t) := by
  cases hs with
  | tick | beat => exact ⟨h.queued, h.leased, h.popped, h.kept, h.left, h.unpopped⟩
  | join n kind keepAlive threads hn =>
    have hnone : ∀ e ∈ g.popped, e.2.1 ≠ n := fun e he hen => by
      have := h.popped e he
      rw [hen, (hp n).absent hn] at this
      cases this
    refine h.update (n := n) rfl h.queued h.leased
      (fun e he => h.popped_update (n := n) rfl he fun hen => absurd hen (hnone e he)) (fun _ _ hc _ => hc)
      (fun _ he => absurd he List.not_mem_nil) (fun _ ho => absurd ho List.not_mem_nil)
      fun e he k hpar hk => h.unpopped_update (n := n) rfl (List.nil_subset _) he hpar hk
  | kill n => exact h.inNode n (.of_eq rfl rfl rfl (fun _ _ => id) rfl)
  | inNode n a nd hl =>
    rw [next_inNode h hl]
    refine h.inNode n (hl.keeps ?_)
    rintro w r (rfl | rfl) t ht <;> exact hg t ht
  | get n w p rest q hw hq =>
    rw [RedisTaskQueue.take_one (congrArg Prod.fst hq)] at hq
    have hk : Keeps (s.nodes n) ({ s.nodes n with taken := (s.nodes n).taken ++ [p] }.setWorker w
        (.got (s.nodes n).taken.length)) :=
      .of_eq rfl rfl rfl (fun _ _ hm => popped_setWorker hw _ hm nofun) rfl
    have ht := h.take hlease (s.nodes n).taken.length [.took p] hq hk
    simpa only [Copies.next, note_nodes, setNode_nodes, Function.update_self, setWorker, List.drop_left] using ht
  | getBatch n w k ms q extra hw hq =>
    have hk : Keeps (s.nodes n) ({ s.nodes n with
        taken := (s.nodes n).taken ++ ms
        collector := (s.nodes n).collector.received k extra }.setWorker w (.busy k false)) :=
      .of_eq rfl rfl rfl (fun _ _ hm => popped_setWorker hw _ hm nofun) rfl
    have ht := h.take hlease (s.nodes n).taken.length (ms.map .took) hq hk
    simpa only [Copies.next, note_nodes, setNode_nodes, Function.update_self, setWorker, List.drop_left] using ht
  | bzpopmin n w p q hw hq =>
    simp only [Copies.next, hq]
    exact h.pop hw hq hg
  | lease n w p hw => exact h.lease hlease hw
  | finish n w k works hw =>
    rw [collectorDone_setNode]
    refine h.acknowledge ?_ ?_ ?_ ?_ fun hworks => hg hworks k (by simp [ackingTake, hw])
    · exact .of_eq rfl rfl rfl (fun _ _ hm => popped_setWorker hw _ hm nofun) rfl
    · exact (hp n).setWorker hw _ rfl
    · rfl
    · rfl
  | push n j x b hb =>
    have hes : ∀ e ∈ [(x.tag.origin, codec.dumps x.request)], e.2 = codec.dumps x.request := by simp
    have ht := h.put n
      { s.nodes n with
        requestBuffer := b
        landed := (s.nodes n).landed ++ [(x.tag.origin, codec.dumps x.request)] }
      x.request _ hes rfl rfl rfl rfl rfl
    simpa only [Copies.next, setNode_nodes, Function.update_self, List.drop_left] using ht
  | ackOwner n j k rest works hj =>
    rw [collectorDone_setNode]
    refine h.acknowledge ?_ ?_ ?_ ?_ fun hworks => hg hworks k (by simp [hj])
    · exact .of_eq rfl rfl rfl (fun _ _ => id) rfl
    · exact ⟨(hp n).placed, (hp n).absent, (hp n).staying⟩
    · rfl
    · rfl
  | renew n =>
    refine h.frame (Function.update_eq_self n s.nodes).symm (keeps_refl _) (fun m hq => ?_) fun m hi => ?_
    · show m ∈ (s.tasks.renew st s.now (s.nodes n).heldTokens).queue
      rwa [RedisTaskQueue.queue_renew]
    · exact RedisTaskQueue.mem_inflight_renew.mpr hi
  | pollIgnored n =>
    exact h.reclaim (n := n) (Function.update_eq_self n s.nodes).symm (keeps_refl _) (fun _ => id) fun _ => .inr
  | pollTask n | readIdle n | read n | readBusy n =>
    refine h.reclaim (n := n) rfl ?_ (fun _ => id) fun _ => .inr
    exact .of_eq rfl rfl rfl (fun _ _ => id) rfl
  | pollReclaim n works seenWork _ _ _ _ moved q hq =>
    have hq' : (s.tasks.reclaimExpired st s.now reclaimLimit works).2 = q := congrArg Prod.snd hq
    refine h.reclaim (n := n) rfl ?_ (fun m hm => ?_) fun m hm => ?_
    · exact .of_eq rfl rfl rfl (fun _ _ => id) rfl
    · exact hq' ▸ RedisTaskQueue.queue_subset_reclaimExpired hm
    · exact hq' ▸ RedisTaskQueue.mem_reclaimExpired.mp (.inr hm)
  | drain n hr =>
    refine h.frame (n := n) rfl ?_ (fun _ => id) fun _ => id
    exact .of_eq rfl rfl rfl (fun _ _ => id) rfl
  | pushBack n l rest hl hs =>
    have hes : ∀ e ∈ (l.origin.map fun o => (o, codec.dumps l.request)).toList,
        e.2 = codec.dumps l.request := by simp
    have ht := h.put n
      { s.nodes n with
        leftovers := rest
        settling := l.token
        landed := (s.nodes n).landed ++ (l.origin.map fun o => (o, codec.dumps l.request)).toList }
      l.request _ hes rfl rfl rfl rfl rfl
    simpa only [Copies.next, setNode_nodes, Function.update_self, List.drop_left] using ht
  | pushDone n k works hs =>
    refine h.acknowledge ?_ ?_ ?_ ?_ fun hworks => hg hworks k (by simp [hs])
    · exact .of_eq rfl rfl rfl (fun _ _ => id) rfl
    · exact ⟨(hp n).placed, (hp n).absent, (hp n).staying⟩
    · rfl
    · rfl

/-! ## The runs -/

theorem tracked_start {x : Cluster ν × Copies ν} (h : (copiesMachine ν st codec).start x) : Tracked x := by
  obtain ⟨s, g⟩ := x
  obtain ⟨⟨hn, -⟩, rfl⟩ := h
  refine ⟨nofun, nofun, nofun, fun n e he => ?_, fun n o ho => ?_, nofun⟩
  · have he : e ∈ (s.nodes n).landed := he
    rw [hn n] at he
    exact absurd he List.not_mem_nil
  · have ho : o ∈ (s.nodes n).yielded := ho
    rw [hn n] at ho
    exact absurd ho List.not_mem_nil

theorem placed_copies {x : Cluster ν × Copies ν} (h : (copiesMachine ν st codec).Reachable x) (n : ν) :
    Placed (x.1.nodes n) :=
  placed_reachable (Machine.reachable_iff_withHistory.mpr ⟨x.2, h⟩) n

/-- With leases on, in runs that acknowledge a request only when what it yielded
has left the memory, and with its own lease only, nothing that an acknowledged
request yielded is lost, whatever nodes are killed. -/
theorem crash_safe (hlease : 0 < st.SPIDER_TASK_LEASE) (x : Cluster ν × Copies ν)
    (h : (copiesMachine ν st codec).Within LandsFirst x) : CrashSafe x := by
  refine (h.induct_with (I := Tracked) (fun _ hx => placed_copies hx.reachable) (fun _ => tracked_start) ?_).crashSafe
  rintro ⟨s, g⟩ a ⟨t, g'⟩ hp hx hg ht
  obtain ⟨ht, hh⟩ := Machine.withHistory_step.mp ht
  have hh : g' = g.next s a t := hh
  rw [hh]
  exact hx.step hlease hp hg (stepped ht)

/-- A worker takes the request and yields one more, which is put into the queue,
or not, before the worker finishes and the node is killed. -/
def yieldRun (flush : List NodeAct) : List (ClusterAct Bool) :=
  [ClusterAct.join true .redis false 1, .node true (.get 0), .node true (.getBatch 0),
    .node true (.yieldRequest 0 { url := "b" })] ++ flush.map (ClusterAct.node true) ++
      [ClusterAct.node true (.finish 0 true), .kill true]

def copiesAfter (as : List (ClusterAct Bool)) : Cluster Bool × Copies Bool :=
  ((copiesMachine Bool {} urlCodec).exec (oneQueued, {}) as).getD ({}, {})

theorem exec_copiesAfter (as : List (ClusterAct Bool))
    (h : ((copiesMachine Bool {} urlCodec).exec (oneQueued, {}) as).isSome = true) :
    (copiesMachine Bool {} urlCodec).exec (oneQueued, {}) as = some (copiesAfter as) :=
  Machine.exec_getD h _

theorem crash_safe_yieldRun : CrashSafe (copiesAfter (yieldRun [.swap, .filter 0 .fresh, .push 0 true])) :=
  @crash_safe Bool _ {} urlCodec (by decide) _
    (.exec (.start ⟨start_oneQueued, rfl⟩) (by decide +kernel) (exec_copiesAfter _ (by decide +kernel)))

/-- A callback yields two requests of one payload. Each is taken, by another node,
before the first of them is acknowledged, and with it the lease of both. -/
def twinRun : List (ClusterAct Bool) :=
  [ClusterAct.join true .redis false 1, .join false .redis false 2, .node true (.get 0), .node true (.getBatch 0),
    .node true (.yieldRequest 0 { url := "b" }), .node true (.yieldRequest 0 { url := "b" }),
    .node true .swap, .node true (.filter 0 .fresh), .node true (.push 0 true),
    .node false (.get 0), .node false (.getBatch 0),
    .node true (.filter 0 .fresh), .node true (.push 0 true), .node true (.finish 0 true),
    .node true (.get 0), .node true (.getBatch 0), .node false (.finish 0 true)]

example : (copiesMachine Bool {} urlCodec).Meets LandsFirst (oneQueued, {}) twinRun.dropLast ∧
    ¬ (copiesMachine Bool {} urlCodec).Meets LandsFirst (oneQueued, {}) twinRun := by decide +kernel

theorem yieldRun_not_crash_safe :
    ¬ ∀ x : Cluster Bool × Copies Bool, (copiesMachine Bool {} urlCodec).Reachable x → CrashSafe x := by
  intro h
  have hr : (copiesMachine Bool {} urlCodec).Reachable (copiesAfter (yieldRun [])) :=
    .exec (.start ⟨start_oneQueued, rfl⟩) (exec_copiesAfter _ (by decide +kernel))
  rcases h _ hr true ⟨0, some 0⟩ (by decide +kernel) 0 rfl (by decide +kernel) with hd | ⟨m, hm, -⟩
  · exact absurd hd (by decide +kernel)
  · have hnone : ((copiesAfter (yieldRun [])).1.nodes true).landed = [] := by decide +kernel
    rw [hnone] at hm
    exact absurd hm List.not_mem_nil

end Cluster

end Netspy
