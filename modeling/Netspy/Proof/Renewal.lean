import Netspy.Impl.Renewal

/-!
# A node that renews its leases in time

What a node holds has a deadline at least `SPIDER_TASK_LEASE` after the call
that took it, and at least that after the last renewal began, less the time
between taking and recording; so it has not expired while renewals come in time
(`not_expired`). `_RENEW_LUA` sets the score also of a member that another node
took meanwhile, to a deadline that may be earlier, so this is about the runs in
which no renewal lowers the score of what the node holds.
-/

namespace Netspy

namespace LeaseHolder

/-- The deadlines that calls of `get_request` have computed. -/
def computed (nd : LeaseHolder) : List Nat := nd.calls.flatMap GetCall.computed

def unleased (nd : LeaseHolder) (i : Nat) : Option String := (nd.calls[i]?).bind GetCall.unleased

theorem mem_flatMap_set {β : Type} {f : GetCall → List β} {cs : List GetCall} {i : Nat} {c : GetCall} {b : β}
    (h : b ∈ (cs.set i c).flatMap f) : b ∈ f c ∨ b ∈ cs.flatMap f := by
  obtain ⟨c', hc', hb⟩ := List.mem_flatMap.mp h
  rcases List.mem_or_eq_of_mem_set hc' with hc' | rfl
  · exact .inr (List.mem_flatMap.mpr ⟨c', hc', hb⟩)
  · exact .inl hb

theorem mem_flatMap_of_get {β : Type} {f : GetCall → List β} {cs : List GetCall} {i : Nat} {c : GetCall} {b : β}
    (hi : cs[i]? = some c) (hb : b ∈ f c) : b ∈ cs.flatMap f :=
  List.mem_flatMap.mpr ⟨c, List.mem_of_getElem? hi, hb⟩

/-- What call `i` has in place of what it had. -/
theorem unleased_setCall (nd : LeaseHolder) {i : Nat} {c c' : GetCall} (hi : nd.calls[i]? = some c) (j : Nat) :
    (nd.setCall i c').unleased j = if j = i then c'.unleased else nd.unleased j := by
  unfold unleased setCall
  dsimp only
  split
  · rename_i hj
    rw [hj, List.getElem?_set_self (List.getElem?_eq_some_iff.mp hi).1]
    rfl
  · rename_i hj
    rw [List.getElem?_set_ne (Ne.symm hj)]

theorem unleased_setCall_same (nd : LeaseHolder) {i : Nat} {c c' : GetCall} (hi : nd.calls[i]? = some c)
    (hc : c'.unleased = c.unleased) (j : Nat) : (nd.setCall i c').unleased j = nd.unleased j := by
  rw [nd.unleased_setCall hi]
  split
  · rename_i hj
    rw [hj, hc, unleased, hi]
    rfl
  · rfl

theorem mem_held {nd : LeaseHolder} {t : Nat} :
    t ∈ nd.held ↔ t ∈ nd.collector.heldRequests ∨ t ∈ nd.unrecorded := List.mem_append

theorem mem_tokens {nd : LeaseHolder} {t since : Nat} {m : String} (ht : t ∈ nd.collector.heldRequests)
    (hm : nd.taken[t]? = some (m, since)) : m ∈ nd.tokens :=
  List.mem_filterMap.mpr ⟨t, ht, by rw [member, hm]; rfl⟩

/-- After a step the node holds what it held, less what it is done with, and
the members `ms` that it has taken, with a deadline from `since`. -/
structure Carries (nd nd' : LeaseHolder) (now : Nat) (ms : List String) (since : Nat) : Prop where
  running : nd'.running = nd.running
  renewedAt : nd'.renewedAt = nd.renewedAt
  renewal : nd'.renewal = nd.renewal
  taken : nd'.taken = nd.taken ++ ms.map fun m => (m, since)
  held : ∀ t ∈ nd'.held, t ∈ nd.held ∨ ∃ k < ms.length, t = nd.taken.length + k
  unrecorded : ∀ t ∈ nd'.unrecorded, t ∈ nd.unrecorded ∨ ∃ k < ms.length, t = nd.taken.length + k
  computed : ∀ x ∈ nd'.computed, x ∈ nd.computed ∨ x = now

/-- A call that goes on with no more than it had. -/
theorem carries_setCall (nd : LeaseHolder) {now i : Nat} {c c' : GetCall} (hi : nd.calls[i]? = some c)
    (hh : c'.held ⊆ c.held) (hx : ∀ x ∈ c'.computed, x ∈ c.computed ∨ x = now) :
    Carries nd (nd.setCall i c') now [] 0 := by
  have hu : ∀ t ∈ (nd.setCall i c').unrecorded, t ∈ nd.unrecorded := fun t ht =>
    (mem_flatMap_set ht).elim (fun h => mem_flatMap_of_get hi (hh h)) id
  refine ⟨rfl, rfl, rfl, (List.append_nil _).symm, fun t ht => .inl ?_, fun t ht => .inl (hu t ht), fun x hx' => ?_⟩
  · exact mem_held.mpr ((mem_held.mp ht).imp_right (hu t))
  · rcases mem_flatMap_set hx' with h | h
    · exact (hx x h).imp_left (mem_flatMap_of_get hi)
    · exact .inl h

/-- A call that has taken `ms` and goes on with them. -/
theorem carries_take (nd : LeaseHolder) {now i since : Nat} {c : GetCall} (c' : GetCall) (ms : List String)
    (hi : nd.calls[i]? = some c)
    (hh : ∀ t ∈ c'.held, t ∈ c.held ∨ ∃ k < ms.length, t = nd.taken.length + k)
    (hx : c'.computed = []) :
    Carries nd ({ nd with taken := nd.taken ++ ms.map fun m => (m, since) }.setCall i c') now ms since := by
  have hu : ∀ t ∈ (nd.setCall i c').unrecorded, t ∈ nd.unrecorded ∨ ∃ k < ms.length, t = nd.taken.length + k :=
    fun t ht => (mem_flatMap_set ht).elim (fun h => (hh t h).imp_left (mem_flatMap_of_get hi)) .inl
  refine ⟨rfl, rfl, rfl, rfl, fun t ht => ?_, hu, fun x hx' => .inl ?_⟩
  · rcases mem_held.mp ht with h | h
    · exact .inl (mem_held.mpr (.inl h))
    · exact (hu t h).imp_left fun h => mem_held.mpr (.inr h)
  · rcases mem_flatMap_set hx' with h | h
    · rw [hx] at h
      exact absurd h List.not_mem_nil
    · exact h

/-- What the collector does with what it and a call have. -/
theorem carries_collector (nd : LeaseHolder) {now i : Nat} {c c' : GetCall} {collector : Collector Nat}
    (hi : nd.calls[i]? = some c) (hh : c'.held ⊆ c.held) (hx : c'.computed = [])
    (hc : ∀ t ∈ collector.heldRequests, t ∈ nd.collector.heldRequests ∨ t ∈ c.held) :
    Carries nd ({ nd with collector }.setCall i c') now [] 0 := by
  have hmove : Carries nd (nd.setCall i c') now [] 0 :=
    nd.carries_setCall hi hh fun x h => absurd (hx ▸ h) List.not_mem_nil
  refine { hmove with held := fun t ht => .inl ?_ }
  rcases mem_held.mp ht with h | h
  · exact mem_held.mpr ((hc t h).imp_right (mem_flatMap_of_get hi))
  · exact mem_held.mpr (.inr ((hmove.unrecorded t h).resolve_right fun ⟨k, hk, _⟩ => absurd hk (Nat.not_lt_zero k)))

end LeaseHolder

namespace Renewal

open LeaseHolder RedisTaskQueue

variable {ν : Type} {st : Setting} {codec : Codec} {s t : Renewal ν} {n n₀ : ν} {d h : Nat}

/-! ## What a step of a node does -/

/-- The kinds of steps of a node: what they make of the queue and of the node. -/
inductive Acts (st : Setting) (s : Renewal ν) (n : ν) : HolderAct → RedisTaskQueue → LeaseHolder → Prop
  | move {a : HolderAct} {nd : LeaseHolder} (hc : Carries (s.nodes n) nd s.now [] 0)
      (hu : ∀ i, nd.unleased i = (s.nodes n).unleased i) : Acts st s n a s.tasks nd
  | take {a : HolderAct} {nd : LeaseHolder} {since count : Nat} (hs : since ∈ (s.nodes n).computed)
      (hc : Carries (s.nodes n) nd s.now (s.tasks.take st since count).1 since)
      (hu : ∀ i, nd.unleased i = (s.nodes n).unleased i) : Acts st s n a (s.tasks.take st since count).2 nd
  | pop {a : HolderAct} {nd : LeaseHolder} {i : Nat} {p : String} {q : RedisTaskQueue} (hq : s.tasks.bzpopmin = some (p, q))
      (hc : Carries (s.nodes n) nd s.now [] 0)
      (hu : ∀ j, nd.unleased j = if j = i then some p else (s.nodes n).unleased j) : Acts st s n a q nd
  | record {a : HolderAct} {nd : LeaseHolder} {i since : Nat} {p : String} (hi : (s.nodes n).unleased i = some p)
      (hs : since ∈ (s.nodes n).computed) (hc : Carries (s.nodes n) nd s.now [p] since)
      (hu : ∀ j, nd.unleased j = if j = i then none else (s.nodes n).unleased j) :
      Acts st s n a (s.tasks.recordLease st since p) nd
  | zrem {a : HolderAct} {nd : LeaseHolder} (p : String) (hc : Carries (s.nodes n) nd s.now [] 0)
      (hu : ∀ i, nd.unleased i = (s.nodes n).unleased i) : Acts st s n a (s.tasks.doneMember p) nd
  | renew {a : HolderAct} (hr : (s.nodes n).renewal = none) :
      Acts st s n a s.tasks { s.nodes n with renewal := some ⟨s.now, (s.nodes n).tokens, none⟩ }
  | compute {a : HolderAct} {begun : Nat} {tokens : List String} (hr : (s.nodes n).renewal = some ⟨begun, tokens, none⟩) :
      Acts st s n a s.tasks { s.nodes n with renewal := some ⟨begun, tokens, some s.now⟩ }
  | script {begun computed : Nat} {tokens : List String}
      (hr : (s.nodes n).renewal = some ⟨begun, tokens, some computed⟩) :
      Acts st s n .renewScript (s.tasks.renew st computed tokens) { s.nodes n with renewal := none, renewedAt := begun }

/-- A step of one call that touches nothing but the call. -/
theorem acts_setCall {a : HolderAct} {i : Nat} {c c' : GetCall} (hi : (s.nodes n).calls[i]? = some c) (hh : c'.held ⊆ c.held)
    (hx : ∀ x ∈ c'.computed, x ∈ c.computed ∨ x = s.now) (hu : c'.unleased = c.unleased) :
    Acts st s n a s.tasks ((s.nodes n).setCall i c') :=
  .move (carries_setCall _ hi hh hx) (unleased_setCall_same _ hi hu)

theorem popBuffer_held {c c' : Collector Nat} {r : Nat} (hp : c.popBuffer = some (r, c')) :
    ∀ t ∈ c'.heldRequests, t ∈ c.heldRequests := by
  unfold Collector.popBuffer at hp
  split at hp
  · cases hp
  · rename_i r' rest hb
    cases hp
    intro t ht
    rcases List.mem_append.mp ht with ht | ht
    · exact List.mem_append_left _ (hb ▸ List.mem_cons_of_mem _ ht)
    · rcases Collector.mem_mark.mp ht with rfl | ht
      · exact List.mem_append_left _ (hb ▸ List.mem_cons_self)
      · exact List.mem_append_right _ ht

variable [DecidableEq ν]

theorem act_cases {a : HolderAct} (ht : s.act st n a = some t) :
    ∃ q nd, t = (s.setTasks q).setNode n nd ∧ Acts st s n a q nd := by
  have hself (nd : LeaseHolder) : s.setNode n nd = (s.setTasks s.tasks).setNode n nd := rfl
  cases a with
  | popBuffer =>
    simp only [act] at ht
    split at ht
    · rename_i r collector hp
      cases ht
      refine ⟨_, _, hself _, .move ⟨rfl, rfl, rfl, (List.append_nil _).symm, fun t ht => .inl ?_,
        fun t ht => .inl ht, fun x hx => .inl hx⟩ fun _ => rfl⟩
      exact mem_held.mpr ((mem_held.mp ht).imp_left (popBuffer_held hp t))
    · cases ht
  | ask =>
    cases ht
    have hcalls {β : Type} {f : GetCall → List β} {b : β}
        (hb : b ∈ ((s.nodes n).calls ++ [GetCall.asking s.now]).flatMap f) :
        b ∈ (s.nodes n).calls.flatMap f ∨ b ∈ f (.asking s.now) := by
      rw [List.flatMap_append, List.mem_append, List.flatMap_singleton] at hb
      exact hb
    have hu : ∀ t ∈ ((s.nodes n).calls ++ [GetCall.asking s.now]).flatMap GetCall.held, t ∈ (s.nodes n).unrecorded :=
      fun t ht => (hcalls ht).resolve_right List.not_mem_nil
    refine ⟨_, _, hself _, .move ⟨rfl, rfl, rfl, (List.append_nil _).symm, fun t ht => .inl ?_,
      fun t ht => .inl (hu t ht), fun x hx => (hcalls hx).imp_right List.mem_singleton.mp⟩ fun i => ?_⟩
    · exact mem_held.mpr ((mem_held.mp ht).imp_right (hu t))
    · unfold LeaseHolder.unleased
      dsimp only
      rcases Nat.lt_trichotomy i (s.nodes n).calls.length with hi | hi | hi
      · rw [List.getElem?_append_left hi]
      · rw [hi, List.getElem?_concat_length, List.getElem?_eq_none le_rfl]
        rfl
      · rw [List.getElem?_eq_none (by rw [List.length_append, List.length_singleton]; omega), List.getElem?_eq_none hi.le]
  | take i =>
    simp only [act] at ht
    split at ht
    · rename_i since hi
      have hs : since ∈ (s.nodes n).computed := mem_flatMap_of_get hi (List.mem_singleton.mpr rfl)
      split at ht
      · rename_i q hq
        cases ht
        exact ⟨_, _, hself _, acts_setCall hi (List.nil_subset _) (fun x hx => absurd hx List.not_mem_nil) rfl⟩
      · rename_i m rest q hq
        cases ht
        have hm : (s.tasks.take st since 1).1 = m :: rest := congrArg Prod.fst hq
        obtain rfl : rest = [] := take_one hm
        have hc : Carries (s.nodes n) _ s.now [m] since := carries_take (s.nodes n)
          (.first (s.nodes n).taken.length) [m] hi (fun t ht => .inr ⟨0, Nat.one_pos, List.mem_singleton.mp ht⟩) rfl
        have hq : q = (s.tasks.take st since 1).2 := (congrArg Prod.snd hq).symm
        exact ⟨q, _, rfl, hq ▸ .take hs (hm ▸ hc) (unleased_setCall_same _ hi rfl)⟩
    · cases ht
  | bzpopmin i =>
    simp only [act] at ht
    split at ht
    · rename_i m q hi hq
      cases ht
      exact ⟨q, _, rfl, .pop hq (carries_setCall _ hi (List.nil_subset _) fun x hx => absurd hx List.not_mem_nil)
        (unleased_setCall _ hi)⟩
    · cases ht
  | timeout i =>
    simp only [act] at ht
    split at ht
    · rename_i hi
      cases ht
      exact ⟨_, _, hself _, acts_setCall hi (List.nil_subset _) (fun x hx => absurd hx List.not_mem_nil) rfl⟩
    · cases ht
  | computeLease i =>
    simp only [act] at ht
    split at ht
    · rename_i m hi
      cases ht
      exact ⟨_, _, hself _, acts_setCall hi (List.nil_subset _) (fun x hx => .inr (List.mem_singleton.mp hx)) rfl⟩
    · cases ht
  | recordLease i =>
    simp only [act] at ht
    split at ht
    · rename_i m since hi
      cases ht
      have hs : since ∈ (s.nodes n).computed := mem_flatMap_of_get hi (List.mem_singleton.mpr rfl)
      have hc : Carries (s.nodes n) _ s.now [m] since := carries_take (s.nodes n)
        (.first (s.nodes n).taken.length) [m] hi (fun t ht => .inr ⟨0, Nat.one_pos, List.mem_singleton.mp ht⟩) rfl
      exact ⟨_, _, rfl, .record (i := i) (by rw [LeaseHolder.unleased, hi]; rfl) hs hc (unleased_setCall _ hi)⟩
    · cases ht
  | computeBatch i =>
    simp only [act] at ht
    split at ht
    · rename_i r hi
      cases ht
      exact ⟨_, _, hself _, acts_setCall hi (List.Subset.refl _) (fun x hx => .inr (List.mem_singleton.mp hx)) rfl⟩
    · cases ht
  | takeBatch i =>
    simp only [act] at ht
    split at ht
    · rename_i r since hi
      cases ht
      have hs : since ∈ (s.nodes n).computed := mem_flatMap_of_get hi (List.mem_singleton.mpr rfl)
      refine ⟨_, _, rfl, .take hs (carries_take _ _ _ hi (fun t ht => ?_) rfl) (unleased_setCall_same _ hi rfl)⟩
      rcases List.mem_cons.mp ht with ht | ht
      · exact .inl (List.mem_singleton.mpr ht)
      · obtain ⟨k, hk, rfl⟩ := List.mem_map.mp ht
        exact .inr ⟨k, List.mem_range.mp hk, rfl⟩
    · cases ht
  | extend i =>
    simp only [act] at ht
    split at ht
    · rename_i r extra hi
      cases ht
      refine ⟨_, _, hself _, .move (carries_collector _ hi (fun t ht => ?_) rfl fun t ht => ?_)
        (unleased_setCall_same _ hi rfl)⟩
      · exact List.mem_cons.mpr (.inl (List.mem_singleton.mp ht))
      · simp only [Collector.heldRequests, List.mem_append, GetCall.held, List.mem_cons] at ht ⊢
        tauto
    · cases ht
  | mark i =>
    simp only [act] at ht
    split at ht
    · rename_i r hi
      cases ht
      refine ⟨_, _, hself _, .move (carries_collector _ hi (List.nil_subset _) rfl fun t ht => ?_)
        (unleased_setCall_same _ hi rfl)⟩
      rcases List.mem_append.mp ht with ht | ht
      · exact .inl (List.mem_append_left _ ht)
      · rcases Collector.mem_mark.mp ht with rfl | ht
        · exact .inr (List.mem_singleton.mpr rfl)
        · exact .inl (List.mem_append_right _ ht)
    · cases ht
  | done r =>
    simp only [act] at ht
    split at ht
    · cases ht
      refine ⟨_, _, hself _, .move ⟨rfl, rfl, rfl, (List.append_nil _).symm, fun t ht => .inl ?_,
        fun t ht => .inl ht, fun x hx => .inl hx⟩ fun _ => rfl⟩
      refine mem_held.mpr ((mem_held.mp ht).imp_left fun ht => ?_)
      rcases List.mem_append.mp ht with ht | ht
      · exact List.mem_append_left _ ht
      · exact List.mem_append_right _ (Collector.mem_done.mp ht).2
    · cases ht
  | zrem r =>
    simp only [act] at ht
    split at ht
    · rename_i m hm
      split at ht
      · cases ht
        exact ⟨_, _, rfl, .zrem m ⟨rfl, rfl, rfl, (List.append_nil _).symm, fun t ht => .inl ht,
          fun t ht => .inl ht, fun x hx => .inl hx⟩ fun _ => rfl⟩
      · cases ht
    · cases ht
  | renew =>
    simp only [act] at ht
    split at ht
    · rename_i hr
      cases ht
      exact ⟨_, _, hself _, .renew hr⟩
    · cases ht
  | computeRenewal =>
    simp only [act] at ht
    split at ht
    · rename_i begun tokens hr
      cases ht
      exact ⟨_, _, hself _, .compute hr⟩
    · cases ht
  | renewScript =>
    simp only [act] at ht
    split at ht
    · rename_i begun tokens computed hr
      cases ht
      exact ⟨_, _, rfl, .script hr⟩
    · cases ht

/-! ## Where a payload is -/

/-- A payload is in one place: the queue, in flight, or popped by one call. -/
structure Owned (s : Renewal ν) : Prop where
  queue : ∀ m, m ∈ s.tasks.queue → m ∈ s.used ∧ m ∉ s.tasks.inflight
  inflight : ∀ m, m ∈ s.tasks.inflight → m ∈ s.used
  unleased : ∀ n i m, s.unleased n i = some m → m ∈ s.used ∧ m ∉ s.tasks.queue ∧ m ∉ s.tasks.inflight
  unique : ∀ n i n' i' m, s.unleased n i = some m → s.unleased n' i' = some m → n = n' ∧ i = i'

/-- The node is on time until `now`: its last renewal that is over began at most
`h` before, and what it takes is recorded at most `d` after its deadline was
computed. -/
structure Timely (d h : Nat) (nd : LeaseHolder) (now : Nat) : Prop where
  renewed : now ≤ nd.renewedAt + h
  computed : ∀ x ∈ nd.computed, now ≤ x + d
  unrecorded : ∀ t ∈ nd.unrecorded, ∀ p ∈ nd.taken[t]?, now ≤ p.2 + d

/-- The node, while it runs, stays on time, and a payload is put once. -/
def OnTime (codec : Codec) (n₀ : ν) (d h : Nat) (s : Renewal ν) : RenewalAct ν → Prop
  | .tick e => (s.nodes n₀).running = true → Timely d h (s.nodes n₀) (s.now + e)
  | .put r => codec.dumps r ∉ s.used
  | _ => True

/-- No renewal lowers the score of what the node holds. -/
def LowersNone (st : Setting) (n₀ : ν) (s : Renewal ν) : RenewalAct ν → Prop
  | .node n .renewScript => (s.nodes n₀).running = true →
      ∀ c ∈ (s.nodes n).renewal, ∀ computed ∈ c.computed, ∀ t ∈ (s.nodes n₀).held,
        ∀ m ∈ (s.nodes n₀).member t, m ∈ c.tokens → ∀ p ∈ s.tasks.inflight.rows, p.2 = m →
          p.1 ≤ toMillis (computed + st.SPIDER_TASK_LEASE)
  | _ => True

def Healthy (st : Setting) (codec : Codec) (n₀ : ν) (d h : Nat) (s : Renewal ν) (a : RenewalAct ν) : Prop :=
  OnTime codec n₀ d h s a ∧ LowersNone st n₀ s a

instance (nd : LeaseHolder) (now : Nat) : Decidable (Timely d h nd now) :=
  decidable_of_iff (now ≤ nd.renewedAt + h ∧ (∀ x ∈ nd.computed, now ≤ x + d) ∧
      ∀ t ∈ nd.unrecorded, ∀ p ∈ nd.taken[t]?, now ≤ p.2 + d)
    ⟨fun ⟨hr, hc, hu⟩ => ⟨hr, hc, hu⟩, fun ⟨hr, hc, hu⟩ => ⟨hr, hc, hu⟩⟩

instance (s : Renewal ν) : ∀ a, Decidable (OnTime codec n₀ d h s a)
  | .tick e => inferInstanceAs (Decidable ((s.nodes n₀).running = true → Timely d h (s.nodes n₀) (s.now + e)))
  | .put r => inferInstanceAs (Decidable (codec.dumps r ∉ s.used))
  | .reclaim .. | .join .. | .kill .. | .node .. => isTrue trivial

instance (s : Renewal ν) : ∀ a, Decidable (LowersNone st n₀ s a)
  | .node n .renewScript => inferInstanceAs (Decidable ((s.nodes n₀).running = true →
      ∀ c ∈ (s.nodes n).renewal, ∀ computed ∈ c.computed, ∀ t ∈ (s.nodes n₀).held,
        ∀ m ∈ (s.nodes n₀).member t, m ∈ c.tokens → ∀ p ∈ s.tasks.inflight.rows, p.2 = m →
          p.1 ≤ toMillis (computed + st.SPIDER_TASK_LEASE)))
  | .tick .. | .put .. | .reclaim .. | .join .. | .kill .. => isTrue trivial
  | .node _ .popBuffer | .node _ .ask | .node _ (.take _) | .node _ (.bzpopmin _) | .node _ (.timeout _)
  | .node _ (.computeLease _) | .node _ (.recordLease _) | .node _ (.computeBatch _) | .node _ (.takeBatch _)
  | .node _ (.extend _) | .node _ (.mark _) | .node _ (.done _) | .node _ (.zrem _) | .node _ .renew
  | .node _ .computeRenewal => isTrue trivial

instance (s : Renewal ν) (a : RenewalAct ν) : Decidable (Healthy st codec n₀ d h s a) :=
  inferInstanceAs (Decidable (_ ∧ _))

theorem unleased_setNode (q : RedisTaskQueue) (nd : LeaseHolder) (k : ν) (i : Nat) :
    ((s.setTasks q).setNode n nd).unleased k i = if k = n then nd.unleased i else s.unleased k i := by
  unfold Renewal.unleased LeaseHolder.unleased
  rw [setNode_nodes, Function.update_apply]
  split
  · rfl
  · rfl

/-- Where the calls of the node have what they had, so have all. -/
theorem unleased_same {q : RedisTaskQueue} {nd : LeaseHolder}
    (hu : ∀ i, nd.unleased i = (s.nodes n).unleased i) (k : ν) (i : Nat) :
    ((s.setTasks q).setNode n nd).unleased k i = s.unleased k i := by
  rw [unleased_setNode]
  split
  · rename_i hk
    rw [hu, hk]
    rfl
  · rfl

/-- Where one call of the node has `x` now, and the others what they had. -/
theorem unleased_changed {q : RedisTaskQueue} {nd : LeaseHolder} {i j : Nat} {x : Option String} {k : ν} {m : String}
    (hu : ∀ j, nd.unleased j = if j = i then x else (s.nodes n).unleased j)
    (hk : ((s.setTasks q).setNode n nd).unleased k j = some m) :
    (k = n ∧ j = i ∧ x = some m) ∨ (¬(k = n ∧ j = i) ∧ s.unleased k j = some m) := by
  rw [unleased_setNode] at hk
  split at hk
  · rename_i hkn
    rw [hu] at hk
    split at hk
    · exact .inl ⟨hkn, ‹_›, hk⟩
    · exact .inr ⟨fun h => absurd h.2 ‹_›, hkn ▸ hk⟩
  · exact .inr ⟨fun h => absurd h.1 ‹_›, hk⟩

omit [DecidableEq ν] in
/-- After a step after which calls have no more than before. -/
theorem Owned.of_unleased (hs : Owned s) (hq : ∀ m, m ∈ t.tasks.queue → m ∈ t.used ∧ m ∉ t.tasks.inflight)
    (hi : ∀ m, m ∈ t.tasks.inflight → m ∈ t.used)
    (hu : ∀ n i m, t.unleased n i = some m → s.unleased n i = some m)
    (hm : ∀ n i m, t.unleased n i = some m → m ∈ t.used ∧ m ∉ t.tasks.queue ∧ m ∉ t.tasks.inflight) : Owned t :=
  ⟨hq, hi, hm, fun n i n' i' m h h' => hs.unique n i n' i' m (hu n i m h) (hu n' i' m h')⟩

/-- A node takes members with their leases. -/
theorem Owned.take {nd : LeaseHolder} {since count : Nat} (hl : 0 < st.SPIDER_TASK_LEASE) (hs : Owned s)
    (hu : ∀ i, nd.unleased i = (s.nodes n).unleased i) :
    Owned ((s.setTasks (s.tasks.take st since count).2).setNode n nd) := by
  have hin {m : String} (hm : m ∈ (s.tasks.take st since count).2.inflight) := (mem_inflight_take hl).mp hm
  refine hs.of_unleased (fun m hm => ?_) (fun m hm => ?_) (fun k i m hk => unleased_same hu k i ▸ hk) fun k i m hk => ?_
  · have hq := mem_queue_take.mpr (.inr hm)
    refine ⟨(hs.queue m hq).1, fun hm' => ?_⟩
    rcases hin hm' with hm' | hm'
    · exact not_mem_queue_take hm' hm
    · exact (hs.queue m hq).2 hm'
  · rcases hin hm with hm | hm
    · exact (hs.queue m (mem_queue_take.mpr (.inl hm))).1
    · exact hs.inflight m hm
  · obtain ⟨hused, hqueue, hinf⟩ := hs.unleased k i m (unleased_same hu k i ▸ hk)
    refine ⟨hused, fun hm => hqueue (mem_queue_take.mpr (.inr hm)), fun hm => ?_⟩
    rcases hin hm with hm | hm
    · exact hqueue (mem_queue_take.mpr (.inl hm))
    · exact hinf hm

/-- A call of a node pops a member, which has no lease yet. -/
theorem Owned.pop {q : RedisTaskQueue} {nd : LeaseHolder} {i : Nat} {p : String} (hs : Owned s)
    (hq : s.tasks.bzpopmin = some (p, q))
    (hu : ∀ j, nd.unleased j = if j = i then some p else (s.nodes n).unleased j) :
    Owned ((s.setTasks q).setNode n nd) := by
  obtain ⟨hp, hinf, -⟩ := mem_bzpopmin (m := p) hq
  have hsub {m : String} (hm : m ∈ q.queue) : m ∈ s.tasks.queue := (mem_bzpopmin hq).2.2.mpr (.inr hm)
  refine ⟨fun m hm => ?_, fun m hm => hs.inflight m (hinf ▸ hm), fun k j m hk => ?_, fun k j k' j' m hk hk' => ?_⟩
  · exact ⟨(hs.queue m (hsub hm)).1, fun hm' => (hs.queue m (hsub hm)).2 (hinf ▸ hm')⟩
  · rcases unleased_changed hu hk with ⟨-, -, hm⟩ | ⟨-, hk⟩
    · cases hm
      exact ⟨(hs.queue p hp).1, not_mem_bzpopmin hq, fun hm => (hs.queue p hp).2 (hinf ▸ hm)⟩
    · obtain ⟨hused, hqueue, hinf'⟩ := hs.unleased k j m hk
      exact ⟨hused, fun hm => hqueue (hsub hm), fun hm => hinf' (hinf ▸ hm)⟩
  · rcases unleased_changed hu hk with ⟨rfl, rfl, hm⟩ | ⟨-, hk⟩
    · rcases unleased_changed hu hk' with ⟨rfl, rfl, -⟩ | ⟨-, hk'⟩
      · exact ⟨rfl, rfl⟩
      · cases hm
        exact absurd hp (hs.unleased k' j' p hk').2.1
    · rcases unleased_changed hu hk' with ⟨-, -, hm⟩ | ⟨-, hk'⟩
      · cases hm
        exact absurd hp (hs.unleased k j p hk).2.1
      · exact hs.unique k j k' j' m hk hk'

/-- It records the lease of the member. -/
theorem Owned.record {nd : LeaseHolder} {i since : Nat} {p : String} (hs : Owned s)
    (hi : (s.nodes n).unleased i = some p) (hu : ∀ j, nd.unleased j = if j = i then none else (s.nodes n).unleased j) :
    Owned ((s.setTasks (s.tasks.recordLease st since p)).setNode n nd) := by
  have hown {k : ν} {j : Nat} {m : String}
      (hk : ((s.setTasks (s.tasks.recordLease st since p)).setNode n nd).unleased k j = some m) :
      s.unleased k j = some m ∧ m ≠ p := by
    rcases unleased_changed hu hk with ⟨-, -, hm⟩ | ⟨hkj, hold⟩
    · cases hm
    · exact ⟨hold, fun hmp => hkj (hs.unique k j n i m hold (hmp ▸ hi))⟩
  have hp := hs.unleased n i p hi
  have hq : (s.tasks.recordLease st since p).queue = s.tasks.queue := queue_recordLease
  refine hs.of_unleased (fun m hm => ?_) (fun m hm => ?_) (fun k j m hk => (hown hk).1) fun k j m hk => ?_
  · replace hm : m ∈ s.tasks.queue := hq ▸ hm
    refine ⟨(hs.queue m hm).1, fun hm' => ?_⟩
    rcases inflight_recordLease_subset hm' with rfl | hm'
    · exact hp.2.1 hm
    · exact (hs.queue m hm).2 hm'
  · rcases inflight_recordLease_subset hm with rfl | hm
    · exact hp.1
    · exact hs.inflight m hm
  · obtain ⟨hold, hne⟩ := hown hk
    obtain ⟨hused, hqueue, hinf⟩ := hs.unleased k j m hold
    exact ⟨hused, fun hm => hqueue (hq ▸ hm), fun hm => (inflight_recordLease_subset hm).elim hne hinf⟩

/-- Members leave the table of leases, or get later deadlines there. -/
theorem Owned.of_inflight {q : RedisTaskQueue} {nd : LeaseHolder} (hs : Owned s) (hq : q.queue = s.tasks.queue)
    (hin : ∀ m, m ∈ q.inflight → m ∈ s.tasks.inflight) (hu : ∀ i, nd.unleased i = (s.nodes n).unleased i) :
    Owned ((s.setTasks q).setNode n nd) := by
  refine hs.of_unleased (fun m hm => ?_) (fun m hm => hs.inflight m (hin m hm))
    (fun k i m hk => unleased_same hu k i ▸ hk) fun k i m hk => ?_
  · obtain ⟨hused, hinf⟩ := hs.queue m (hq ▸ hm)
    exact ⟨hused, fun hm => hinf (hin m hm)⟩
  · obtain ⟨hused, hqueue, hinf⟩ := hs.unleased k i m (unleased_same hu k i ▸ hk)
    exact ⟨hused, fun hm => hqueue (hq ▸ hm), fun hm => hinf (hin m hm)⟩

theorem owned_acts {a : HolderAct} {q : RedisTaskQueue} {nd : LeaseHolder} (hl : 0 < st.SPIDER_TASK_LEASE) (hs : Owned s)
    (ha : Acts st s n a q nd) : Owned ((s.setTasks q).setNode n nd) := by
  cases ha with
  | move hc hu => exact hs.of_inflight rfl (fun _ => id) hu
  | renew | compute => exact hs.of_inflight rfl (fun _ => id) fun _ => rfl
  | take hx hc hu => exact hs.take hl hu
  | pop hq hc hu => exact hs.pop hq hu
  | record hi hx hc hu => exact hs.record hi hu
  | zrem p hc hu => exact hs.of_inflight rfl (fun _ hm => (mem_inflight_doneMember.mp hm).1) hu
  | script hr => exact hs.of_inflight queue_renew (fun _ hm => mem_inflight_renew.mp hm) fun _ => rfl

/-! ## What a node holds -/

/-- A member that the node has taken, with a deadline computed from `since`: it
is nowhere else, and where it has a score, that is late enough. The deadlines of
`_RENEW_LUA` and `_TAKE_LUA` are rounded to milliseconds. -/
structure Safe (st : Setting) (d : Nat) (s : Renewal ν) (nd : LeaseHolder) (m : String) (since : Nat) : Prop where
  used : m ∈ s.used
  queue : m ∉ s.tasks.queue
  unleased : ∀ k i, s.unleased k i ≠ some m
  lease : ∀ y, (y, m) ∈ s.tasks.inflight.rows →
    (since + st.SPIDER_TASK_LEASE : Int) ≤ y + 499 ∧ (nd.renewedAt + st.SPIDER_TASK_LEASE : Int) ≤ y + d + 499
  renewal : ∀ rc ∈ nd.renewal, m ∈ rc.tokens ∨ rc.begun ≤ since + d

omit [DecidableEq ν] in
theorem Safe.not_expired {nd : LeaseHolder} {m : String} {since asOf limit : Nat} (hs : Safe st d s nd m since)
    (hL : d + h + 1000 ≤ st.SPIDER_TASK_LEASE) (hnow : s.now ≤ nd.renewedAt + h) (ha : asOf ≤ s.now) :
    m ∉ s.tasks.expired asOf limit := fun hm => by
  obtain ⟨y, hy, hle⟩ := row_of_expired hm
  have hlease := (hs.lease y hy).2
  have hround := toMillis_le asOf
  omega

/-- What a step does to a member that a node holds. -/
structure Spares (s t : Renewal ν) (m : String) : Prop where
  used : m ∈ s.used → m ∈ t.used
  queue : m ∈ t.tasks.queue → m ∈ s.tasks.queue
  unleased : ∀ k i, t.unleased k i = some m → s.unleased k i = some m
  rows : ∀ y, (y, m) ∈ t.tasks.inflight.rows → ∃ y₀ ≤ y, (y₀, m) ∈ s.tasks.inflight.rows

omit [DecidableEq ν] in
theorem Safe.spared {nd nd' : LeaseHolder} {m : String} {since : Nat} (hs : Safe st d s nd m since)
    (hm : Spares s t m) (hr : nd'.renewedAt = nd.renewedAt) (hc : nd'.renewal = nd.renewal) :
    Safe st d t nd' m since := by
  refine ⟨hm.used hs.used, fun h => hs.queue (hm.queue h), fun k i h => hs.unleased k i (hm.unleased k i h),
    fun y hy => ?_, hc ▸ hs.renewal⟩
  obtain ⟨y₀, hle, hy₀⟩ := hm.rows y hy
  have hlease := hs.lease y₀ hy₀
  rw [hr]
  omega

theorem acts_spares {a : HolderAct} {q : RedisTaskQueue} {nd nd₀ : LeaseHolder} {m : String} {since : Nat}
    (hl : 0 < st.SPIDER_TASK_LEASE) (hs : Safe st d s nd₀ m since) (ha : Acts st s n a q nd)
    (hg : a = .renewScript → ∀ c ∈ (s.nodes n).renewal, ∀ computed ∈ c.computed, m ∈ c.tokens →
      ∀ y, (y, m) ∈ s.tasks.inflight.rows → y ≤ toMillis (computed + st.SPIDER_TASK_LEASE)) :
    Spares s ((s.setTasks q).setNode n nd) m := by
  have hsame {q : RedisTaskQueue} {nd : LeaseHolder} (hu : ∀ i, nd.unleased i = (s.nodes n).unleased i) :
      ∀ k i, ((s.setTasks q).setNode n nd).unleased k i = some m → s.unleased k i = some m :=
    fun k i hk => unleased_same hu k i ▸ hk
  cases ha with
  | move hc hu => exact ⟨id, id, hsame hu, fun y hy => ⟨y, le_rfl, hy⟩⟩
  | renew => exact ⟨id, id, hsame fun _ => rfl, fun y hy => ⟨y, le_rfl, hy⟩⟩
  | compute => exact ⟨id, id, hsame fun _ => rfl, fun y hy => ⟨y, le_rfl, hy⟩⟩
  | take hx hc hu =>
    refine ⟨id, fun hm => mem_queue_take.mpr (.inr hm), hsame hu, fun y hy => ?_⟩
    rcases (row_take hl).mp hy with ⟨hm, -⟩ | ⟨-, hy⟩
    · exact absurd (mem_queue_take.mpr (.inl hm)) hs.queue
    · exact ⟨y, le_rfl, hy⟩
  | @pop _ nd i p q hq hc hu =>
    obtain ⟨hp, hinf, -⟩ := mem_bzpopmin (m := p) hq
    refine ⟨id, fun hm => (mem_bzpopmin hq).2.2.mpr (.inr hm), fun k j hk => ?_, fun y hy => ⟨y, le_rfl, hinf ▸ hy⟩⟩
    rcases unleased_changed hu hk with ⟨-, -, hm⟩ | ⟨-, hk⟩
    · cases hm
      exact absurd hp hs.queue
    · exact hk
  | @record _ nd i since p hi hx hc hu =>
    have hmp : m ≠ p := fun e => hs.unleased n i (e ▸ hi)
    have hq : (s.tasks.recordLease st since p).queue = s.tasks.queue := queue_recordLease
    refine ⟨id, fun hm => hq ▸ hm, fun k j hk => ?_, fun y hy => ?_⟩
    · rcases unleased_changed hu hk with ⟨-, -, hm⟩ | ⟨-, hk⟩
      · cases hm
      · exact hk
    · rcases (row_recordLease hl).mp hy with ⟨-, hm⟩ | ⟨hy, -⟩
      · exact absurd hm hmp
      · exact ⟨y, le_rfl, hy⟩
  | zrem p hc hu => exact ⟨id, id, hsame hu, fun y hy => ⟨y, le_rfl, (ZSet.row_zrem.mp hy).1⟩⟩
  | @script begun computed tokens hr =>
    have hq : (s.tasks.renew st computed tokens).queue = s.tasks.queue := queue_renew
    refine ⟨id, fun hm => hq ▸ hm, hsame fun _ => rfl, fun y hy => ?_⟩
    rcases (row_renew_iff hl).mp hy with ⟨ht, hin, rfl⟩ | ⟨-, hy⟩
    · obtain ⟨y₀, hy₀⟩ := ZSet.mem_iff.mp hin
      exact ⟨y₀, hg rfl _ hr computed rfl ht y₀ hy₀, hy₀⟩
    · exact ⟨y, le_rfl, hy⟩

/-- A running node: it is on time, and what it holds is safe. -/
structure Secure (st : Setting) (d h : Nat) (s : Renewal ν) (nd : LeaseHolder) : Prop where
  timely : Timely d h nd s.now
  renewedAt : nd.renewedAt ≤ s.now
  renewal : ∀ rc ∈ nd.renewal, (nd.renewedAt ≤ rc.begun ∧ rc.begun ≤ s.now) ∧ ∀ c ∈ rc.computed, rc.begun ≤ c
  safe : ∀ t ∈ nd.held, ∃ p, nd.taken[t]? = some p ∧ Safe st d s nd p.1 p.2

omit [DecidableEq ν] in
/-- A step that carries on with what the node held and the members it takes. -/
theorem Secure.carries {nd nd' : LeaseHolder} {ms : List String} {since : Nat} (hs : Secure st d h s nd)
    (hc : Carries nd nd' s.now ms since) (hnow : t.now = s.now)
    (hsince : ∀ m ∈ ms, since ∈ nd.computed ∧ Safe st d t nd' m since)
    (hm : ∀ r ∈ nd.held, ∀ m ∈ nd.member r, Spares s t m) : Secure st d h t nd' := by
  have htaken {r : Nat} {p : String × Nat} (hp : nd.taken[r]? = some p) : nd'.taken[r]? = some p := by
    rw [hc.taken, List.getElem?_append_left (List.getElem?_eq_some_iff.mp hp).1, hp]
  have hnew {k : Nat} (hk : k < ms.length) : nd'.taken[nd.taken.length + k]? = some (ms[k], since) := by
    rw [hc.taken, List.getElem?_append_right (Nat.le_add_right _ _), Nat.add_sub_cancel_left, List.getElem?_map,
      List.getElem?_eq_getElem hk]
    rfl
  refine ⟨⟨?_, fun x hx => ?_, fun r hr p hp => ?_⟩, ?_, ?_, fun r hr => ?_⟩
  · rw [hnow, hc.renewedAt]
    exact hs.timely.renewed
  · rw [hnow]
    rcases hc.computed x hx with hx | rfl
    · exact hs.timely.computed x hx
    · exact Nat.le_add_right _ _
  · rw [hnow]
    rcases hc.unrecorded r hr with hr | ⟨k, hk, rfl⟩
    · obtain ⟨p', hp', -⟩ := hs.safe r (mem_held.mpr (.inr hr))
      obtain rfl : p' = p := Option.some.inj ((htaken hp').symm.trans hp)
      exact hs.timely.unrecorded r hr p' hp'
    · obtain rfl : (ms[k], since) = p := Option.some.inj ((hnew hk).symm.trans hp)
      exact hs.timely.computed since (hsince _ (List.getElem_mem hk)).1
  · rw [hnow, hc.renewedAt]
    exact hs.renewedAt
  · rw [hnow, hc.renewal, hc.renewedAt]
    exact hs.renewal
  · rcases hc.held r hr with hr | ⟨k, hk, rfl⟩
    · obtain ⟨p, hp, hsafe⟩ := hs.safe r hr
      exact ⟨p, htaken hp, hsafe.spared (hm r hr p.1 (by rw [member, hp]; rfl)) hc.renewedAt hc.renewal⟩
    · exact ⟨_, hnew hk, (hsince _ (List.getElem_mem hk)).2⟩

theorem secure_acts {a : HolderAct} {q : RedisTaskQueue} {nd : LeaseHolder} (hl : 0 < st.SPIDER_TASK_LEASE)
    (ho : Owned s) (hs : Secure st d h s (s.nodes n)) (ha : Acts st s n a q nd)
    (hm : ∀ r ∈ (s.nodes n).held, ∀ m ∈ (s.nodes n).member r, Spares s ((s.setTasks q).setNode n nd) m) :
    Secure st d h ((s.setTasks q).setNode n nd) nd := by
  -- a renewal begun before the call computed its deadline is not too late for what it takes
  have hbegun {since : Nat} (hx : since ∈ (s.nodes n).computed) : ∀ rc ∈ (s.nodes n).renewal, rc.begun ≤ since + d :=
    fun rc hrc => (hs.renewal rc hrc).1.2.trans (hs.timely.computed since hx)
  have hrenewed {since : Nat} (hx : since ∈ (s.nodes n).computed) : (s.nodes n).renewedAt ≤ since + d :=
    hs.renewedAt.trans (hs.timely.computed since hx)
  cases ha with
  | move hc hu => exact hs.carries hc rfl (fun m hm => absurd hm List.not_mem_nil) hm
  | pop hq hc hu => exact hs.carries hc rfl (fun m hm => absurd hm List.not_mem_nil) hm
  | zrem p hc hu => exact hs.carries hc rfl (fun m hm => absurd hm List.not_mem_nil) hm
  | @take _ nd since count hx hc hu =>
    refine hs.carries hc rfl (fun m hms => ⟨hx, ?_⟩) hm
    have hq : m ∈ s.tasks.queue := mem_queue_take.mpr (.inl hms)
    refine ⟨(ho.queue m hq).1, not_mem_queue_take hms, fun k i hk => ?_, fun y hy => ?_, fun rc hrc => .inr ?_⟩
    · exact (ho.unleased k i m (unleased_same hu k i ▸ hk)).2.1 hq
    · rcases (row_take hl).mp hy with ⟨-, rfl⟩ | ⟨hnot, -⟩
      · have hround := le_toMillis (since + st.SPIDER_TASK_LEASE)
        have hle := hrenewed hx
        rw [hc.renewedAt]
        omega
      · exact absurd hms hnot
    · exact hbegun hx rc (hc.renewal ▸ hrc)
  | @record _ nd i since p hi hx hc hu =>
    refine hs.carries hc rfl (fun m hms => ⟨hx, ?_⟩) hm
    obtain rfl : m = p := List.mem_singleton.mp hms
    obtain ⟨hused, hqueue, -⟩ := ho.unleased n i m hi
    have hq : (s.tasks.recordLease st since m).queue = s.tasks.queue := queue_recordLease
    refine ⟨hused, fun hm => hqueue (hq ▸ hm), fun k j hk => ?_,
      fun y hy => ?_, fun rc hrc => .inr ?_⟩
    · rcases unleased_changed hu hk with ⟨-, -, hm⟩ | ⟨hkj, hk⟩
      · cases hm
      · exact hkj (ho.unique k j n i m hk hi)
    · rcases (row_recordLease hl).mp hy with ⟨rfl, -⟩ | ⟨-, hne⟩
      · have hle := hrenewed hx
        rw [hc.renewedAt]
        omega
      · exact absurd rfl hne
    · exact hbegun hx rc (hc.renewal ▸ hrc)
  | renew hr =>
    refine ⟨⟨hs.timely.renewed, hs.timely.computed, hs.timely.unrecorded⟩, hs.renewedAt, fun rc hrc => ?_,
      fun r hheld => ?_⟩
    · cases hrc
      exact ⟨⟨hs.renewedAt, le_rfl⟩, fun c hc => by cases hc⟩
    · obtain ⟨p, hp, hsafe⟩ := hs.safe r hheld
      have hmp := hm r hheld p.1 (by rw [member, hp]; rfl)
      refine ⟨p, hp, hsafe.used, hsafe.queue, fun k i hk => hsafe.unleased k i (hmp.unleased k i hk), hsafe.lease,
        fun rc hrc => ?_⟩
      cases hrc
      -- what is not recorded now was taken at most `d` ago
      rcases mem_held.mp hheld with hrec | hrec
      · exact .inl (mem_tokens hrec hp)
      · exact .inr (hs.timely.unrecorded r hrec p hp)
  | @compute _ begun tokens hr =>
    obtain ⟨hb, -⟩ := hs.renewal _ hr
    refine ⟨⟨hs.timely.renewed, hs.timely.computed, hs.timely.unrecorded⟩, hs.renewedAt, fun rc hrc => ?_,
      fun r hheld => ?_⟩
    · cases hrc
      exact ⟨hb, fun c hc => by cases hc; exact hb.2⟩
    · obtain ⟨p, hp, hsafe⟩ := hs.safe r hheld
      have hmp := hm r hheld p.1 (by rw [member, hp]; rfl)
      refine ⟨p, hp, hsafe.used, hsafe.queue, fun k i hk => hsafe.unleased k i (hmp.unleased k i hk), hsafe.lease,
        fun rc hrc => ?_⟩
      cases hrc
      exact hsafe.renewal ⟨begun, tokens, none⟩ hr
  | @script begun computed tokens hr =>
    obtain ⟨⟨hrb, hb⟩, hcomp⟩ := hs.renewal _ hr
    refine ⟨⟨hs.timely.renewed.trans (Nat.add_le_add_right hrb h), hs.timely.computed, hs.timely.unrecorded⟩, hb,
      fun rc hrc => (by cases hrc), fun r hheld => ?_⟩
    obtain ⟨p, hp, hsafe⟩ := hs.safe r hheld
    have hmp := hm r hheld p.1 (by rw [member, hp]; rfl)
    refine ⟨p, hp, hmp.used hsafe.used, fun hq => hsafe.queue (hmp.queue hq),
      fun k i hk => hsafe.unleased k i (hmp.unleased k i hk), fun y hy => ⟨?_, ?_⟩, fun rc hrc => (by cases hrc)⟩
    · obtain ⟨y₀, hle, hy₀⟩ := hmp.rows y hy
      have hlease := (hsafe.lease y₀ hy₀).1
      omega
    · show (begun + st.SPIDER_TASK_LEASE : Int) ≤ y + d + 499
      rcases (row_renew_iff hl).mp hy with ⟨-, -, rfl⟩ | ⟨hnot, hy⟩
      · have hround := le_toMillis (computed + st.SPIDER_TASK_LEASE)
        have hle : begun ≤ computed := hcomp computed rfl
        omega
      · have hlate : begun ≤ p.2 + d := (hsafe.renewal _ hr).resolve_left fun ht =>
          hnot ⟨ht, ZSet.mem_of_row hy⟩
        have hlease := (hsafe.lease y hy).1
        omega

/-! ## The runs -/

structure Guarded (st : Setting) (d h : Nat) (n₀ : ν) (s : Renewal ν) : Prop where
  owned : Owned s
  secure : (s.nodes n₀).running = true → Secure st d h s (s.nodes n₀)

omit [DecidableEq ν] in
/-- A step that the node has no part in. -/
theorem Secure.spared {nd : LeaseHolder} (hs : Secure st d h s nd) (hnow : t.now = s.now)
    (hm : ∀ r ∈ nd.held, ∀ m ∈ nd.member r, Spares s t m) : Secure st d h t nd := by
  have hc : Carries nd nd s.now [] 0 :=
    ⟨rfl, rfl, rfl, (List.append_nil _).symm, fun _ h => .inl h, fun _ h => .inl h, fun _ h => .inl h⟩
  exact hs.carries hc hnow (fun _ hm => absurd hm List.not_mem_nil) hm

omit [DecidableEq ν] in
theorem Secure.of_held {nd : LeaseHolder} {r : Nat} {m : String} (hs : Secure st d h s nd) (hr : r ∈ nd.held)
    (hm : nd.member r = some m) : ∃ since, Safe st d s nd m since := by
  obtain ⟨p, hp, hsafe⟩ := hs.safe r hr
  rw [member, hp] at hm
  exact ⟨p.2, Option.some.inj hm ▸ hsafe⟩

theorem guarded_step {a : RenewalAct ν} (hL : d + h + 1000 ≤ st.SPIDER_TASK_LEASE) (hs : Guarded st d h n₀ s)
    (hg : Healthy st codec n₀ d h s a) (ht : step st codec s a = some t) : Guarded st d h n₀ t := by
  have hl : 0 < st.SPIDER_TASK_LEASE := by omega
  obtain ⟨ho, hsec⟩ := hs
  cases a with
  | tick e =>
    cases ht
    refine ⟨⟨ho.queue, ho.inflight, ho.unleased, ho.unique⟩, fun hrun => ?_⟩
    have hn := hsec hrun
    refine ⟨hg.1 hrun, hn.renewedAt.trans (Nat.le_add_right _ _), fun rc hrc => ?_, fun r hr => ?_⟩
    · obtain ⟨⟨hrb, hb⟩, hc⟩ := hn.renewal rc hrc
      exact ⟨⟨hrb, hb.trans (Nat.le_add_right _ _)⟩, hc⟩
    · obtain ⟨p, hp, hsafe⟩ := hn.safe r hr
      exact ⟨p, hp, hsafe.used, hsafe.queue, hsafe.unleased, hsafe.lease, hsafe.renewal⟩
  | put r =>
    cases ht
    have hold {m : String} (hm : m ∈ s.used) : m ≠ codec.dumps r := fun e => hg.1 (e ▸ hm)
    have hqueue {m : String} (hm : m ∈ s.used) (hq : m ∈ (s.tasks.put codec r).queue) : m ∈ s.tasks.queue :=
      (mem_queue_put.mp hq).resolve_left (hold hm)
    refine ⟨ho.of_unleased (fun m hm => ?_) (fun m hm => List.mem_cons_of_mem _ (ho.inflight m hm))
      (fun _ _ _ hk => hk) fun k i m hk => ?_, fun hrun => (hsec hrun).spared rfl fun q hq m hm => ?_⟩
    · rcases mem_queue_put.mp hm with rfl | hm
      · exact ⟨List.mem_cons_self, fun hm => hg.1 (ho.inflight _ hm)⟩
      · exact ⟨List.mem_cons_of_mem _ (ho.queue m hm).1, (ho.queue m hm).2⟩
    · obtain ⟨hused, hq, hinf⟩ := ho.unleased k i m hk
      exact ⟨List.mem_cons_of_mem _ hused, fun hm => hq (hqueue hused hm), hinf⟩
    · obtain ⟨since, hsafe⟩ := (hsec hrun).of_held hq hm
      exact ⟨List.mem_cons_of_mem _, hqueue hsafe.used, fun _ _ hk => hk, fun y hy => ⟨y, le_rfl, hy⟩⟩
  | reclaim asOf limit =>
    simp only [step, Option.ite_none_right_eq_some, Option.some.injEq] at ht
    obtain ⟨ha, rfl⟩ := ht
    have hin {m : String} (hm : m ∈ s.tasks.expired asOf limit) : m ∈ s.tasks.inflight := by
      obtain ⟨y, hy, -⟩ := row_of_expired hm
      exact ZSet.mem_of_row hy
    have hkept {m : String} (hm : m ∈ (s.tasks.reclaimExpired st asOf limit true).2.inflight) :
        m ∈ s.tasks.inflight ∧ m ∉ s.tasks.expired asOf limit := by
      obtain ⟨y, hy⟩ := ZSet.mem_iff.mp hm
      exact ⟨ZSet.mem_of_row ((row_reclaimExpired_iff hl).mp hy).1, ((row_reclaimExpired_iff hl).mp hy).2⟩
    refine ⟨ho.of_unleased (fun m hm => ?_) (fun m hm => ho.inflight m (hkept hm).1)
      (fun _ _ _ hk => hk) fun k i m hk => ?_, fun hrun => (hsec hrun).spared rfl fun q hq m hm => ?_⟩
    · rcases (mem_queue_reclaimExpired hl).mp hm with hm | hm
      · exact ⟨ho.inflight m (hin hm), fun hm' => (hkept hm').2 hm⟩
      · exact ⟨(ho.queue m hm).1, fun hm' => (ho.queue m hm).2 (hkept hm').1⟩
    · obtain ⟨hused, hqueue, hinf⟩ := ho.unleased k i m hk
      refine ⟨hused, fun hm => ?_, fun hm => hinf (hkept hm).1⟩
      rcases (mem_queue_reclaimExpired hl).mp hm with hm | hm
      · exact hinf (hin hm)
      · exact hqueue hm
    · obtain ⟨since, hsafe⟩ := (hsec hrun).of_held hq hm
      have hnot : m ∉ s.tasks.expired asOf limit := hsafe.not_expired hL (hsec hrun).timely.renewed ha
      exact ⟨id, fun hm => ((mem_queue_reclaimExpired hl).mp hm).resolve_left hnot, fun _ _ hk => hk,
        fun y hy => ⟨y, le_rfl, ((row_reclaimExpired_iff hl).mp hy).1⟩⟩
  | join n =>
    simp only [step, Option.ite_none_right_eq_some, Option.some.injEq] at ht
    obtain ⟨hn, rfl⟩ := ht
    have hsame (k : ν) (i : Nat) :
        ((s.setTasks s.tasks).setNode n { running := true, renewedAt := s.now }).unleased k i = s.unleased k i :=
      unleased_same (fun _ => by rw [hn]; rfl) k i
    refine ⟨ho.of_unleased ho.queue ho.inflight (fun k i m hk => hsame k i ▸ hk)
      fun k i m hk => ho.unleased k i m (hsame k i ▸ hk), fun hrun => ?_⟩
    rw [setNode_nodes, Function.update_apply] at hrun ⊢
    split
    · exact ⟨⟨Nat.le_add_right _ _, fun x hx => absurd hx List.not_mem_nil, fun r hr => absurd hr List.not_mem_nil⟩,
        le_rfl, fun rc hrc => (by cases hrc), fun r hr => absurd hr List.not_mem_nil⟩
    · rw [if_neg ‹_›] at hrun
      exact (hsec hrun).spared rfl fun r hr m hm =>
        ⟨id, id, fun k i hk => hsame k i ▸ hk, fun y hy => ⟨y, le_rfl, hy⟩⟩
  | kill n =>
    cases ht
    have hsame (k : ν) (i : Nat) :
        ((s.setTasks s.tasks).setNode n { s.nodes n with running := false }).unleased k i = s.unleased k i := by
      apply unleased_same
      exact fun _ => rfl
    refine ⟨ho.of_unleased ho.queue ho.inflight (fun k i m hk => hsame k i ▸ hk)
      fun k i m hk => ho.unleased k i m (hsame k i ▸ hk), fun hrun => ?_⟩
    rw [setNode_nodes, Function.update_apply] at hrun ⊢
    split
    · rw [if_pos ‹_›] at hrun
      cases hrun
    · rw [if_neg ‹_›] at hrun
      exact (hsec hrun).spared rfl fun r hr m hm =>
        ⟨id, id, fun k i hk => hsame k i ▸ hk, fun y hy => ⟨y, le_rfl, hy⟩⟩
  | node n a =>
    simp only [step, Option.ite_none_right_eq_some] at ht
    obtain ⟨hrunning, ht⟩ := ht
    obtain ⟨q, nd, rfl, ha⟩ := act_cases ht
    have hspares (hrun : (s.nodes n₀).running = true) : ∀ r ∈ (s.nodes n₀).held, ∀ m ∈ (s.nodes n₀).member r,
        Spares s ((s.setTasks q).setNode n nd) m := fun r hr m hm => by
      obtain ⟨since, hsafe⟩ := (hsec hrun).of_held hr hm
      refine acts_spares hl hsafe ha fun hscript c hc computed hcomp hmc => ?_
      subst hscript
      exact fun y hy => hg.2 hrun c hc computed hcomp r hr m hm hmc (y, m) hy rfl
    refine ⟨owned_acts hl ho ha, fun hrun => ?_⟩
    rw [setNode_nodes, Function.update_apply] at hrun ⊢
    split
    · rename_i hn
      subst hn
      exact secure_acts hl ho (hsec hrunning) ha (hspares hrunning)
    · rw [if_neg ‹_›] at hrun
      exact (hsec hrun).spared rfl (hspares hrun)

theorem guarded_within (hL : d + h + 1000 ≤ st.SPIDER_TASK_LEASE)
    (hs : (machine st codec).Within (Healthy st codec n₀ d h) s) : Guarded st d h n₀ s := by
  refine hs.induct (I := Guarded st d h n₀) (fun s h0 => ?_) fun s a t hi hg ht => guarded_step hL hi hg ht
  obtain ⟨hnodes, hqueue, hinf⟩ := h0
  have hnone (k : ν) (i : Nat) : s.unleased k i = none := by
    unfold Renewal.unleased
    rw [hnodes]
    rfl
  refine ⟨⟨hqueue, hinf, fun k i m hk => ?_, fun k i k' i' m hk => ?_⟩, fun hrun => ?_⟩
  · rw [hnone] at hk
    cases hk
  · rw [hnone] at hk
    cases hk
  · rw [hnodes] at hrun
    cases hrun

/-- While a node is on time, with a lease longer than the two times and than the
rounding of the deadlines, and no renewal lowers the score of what it holds, no
reclaim moves anything that it holds. -/
theorem held_not_reclaimed (n₀ : ν) (d h : Nat) (hL : d + h + 1000 ≤ st.SPIDER_TASK_LEASE) :
    ∀ s, (machine st codec).Within (Healthy st codec n₀ d h) s → (s.nodes n₀).running = true →
      ∀ r ∈ (s.nodes n₀).held, ∃ m, (s.nodes n₀).member r = some m ∧
        ∀ asOf limit t, (machine st codec).step s (.reclaim asOf limit) = some t → m ∉ t.tasks.queue := by
  intro s hs hrun r hr
  have hsec := (guarded_within hL hs).secure hrun
  obtain ⟨p, hp, hsafe⟩ := hsec.safe r hr
  refine ⟨p.1, by rw [member, hp]; rfl, fun asOf limit t ht hm => ?_⟩
  have ht : step st codec s (.reclaim asOf limit) = some t := ht
  simp only [step, Option.ite_none_right_eq_some, Option.some.injEq] at ht
  obtain ⟨ha, rfl⟩ := ht
  rcases (mem_queue_reclaimExpired (by omega)).mp hm with hm | hm
  · exact hsafe.not_expired hL hsec.timely.renewed ha hm
  · exact hsafe.queue hm

theorem step_reclaim {asOf limit : Nat} (ha : asOf ≤ s.now) : (machine st codec).step s (.reclaim asOf limit) =
    some (s.setTasks (s.tasks.reclaimExpired st asOf limit true).2) := if_pos ha

/-! ## A renewal that is late -/

def urlPayload : Codec where
  dumps r := r.url
  loads m := { url := m }

/-- A node takes what there is. -/
def taking (n : Bool) : List (RenewalAct Bool) :=
  [.node n .ask, .node n (.take 0), .node n (.computeBatch 0), .node n (.takeBatch 0), .node n (.extend 0),
    .node n (.mark 0)]

def renewing (n : Bool) : List (RenewalAct Bool) := [.node n .renew, .node n .computeRenewal]

def afterActs (as : List (RenewalAct Bool)) : Renewal Bool := ((machine {} urlPayload).exec {} as).getD {}

theorem exec_afterActs (as : List (RenewalAct Bool)) (h : ((machine {} urlPayload).exec {} as).isSome = true) :
    (machine {} urlPayload).exec {} as = some (afterActs as) :=
  Machine.exec_getD h _

theorem start_empty : (machine {} urlPayload).start ({} : Renewal Bool) :=
  ⟨fun _ => rfl, fun _ hm => absurd hm List.not_mem_nil, fun _ hm => absurd hm List.not_mem_nil⟩

/-- The node takes a request and renews it once. -/
def onceRenewed : List (RenewalAct Bool) :=
  [RenewalAct.put { url := "a" }, .join true] ++ taking true ++ [RenewalAct.tick 300000000] ++ renewing true ++
    [RenewalAct.node true .renewScript, .tick 300000000]

theorem held_not_reclaimed_once :
    "a" ∉ ((afterActs onceRenewed).tasks.reclaimExpired {} 600000000 500 true).2.queue := by
  obtain ⟨m, hm, hnot⟩ := @held_not_reclaimed Bool {} urlPayload _ true 1000000 300000000 (by decide)
    (afterActs onceRenewed)
    (.exec (.start start_empty) (by decide +kernel) (exec_afterActs _ (by decide +kernel)))
    (by decide +kernel) 0 (by decide +kernel)
  obtain rfl : m = "a" := Option.some.inj (hm.symm.trans (by decide +kernel))
  have hnow : 600000000 ≤ (afterActs onceRenewed).now := by decide +kernel
  exact hnot 600000000 500 _ (step_reclaim hnow)

/-- A node computes a renewal and is held up until its lease has ended. The other
node takes the request, and the renewal then sets the old deadline. -/
def lateRenewal : List (RenewalAct Bool) :=
  [RenewalAct.put { url := "a" }, .join false] ++ taking false ++ renewing false ++
    [RenewalAct.tick 601000000, .reclaim 601000000 500, .join true] ++ taking true ++ [RenewalAct.node false .renewScript]

theorem lateRenewal_reclaimed : ¬ ∀ s : Renewal Bool,
    (machine {} urlPayload).Within (OnTime urlPayload true 1000000 300000000) s → (s.nodes true).running = true →
      ∀ r ∈ (s.nodes true).held, ∃ m, (s.nodes true).member r = some m ∧
        ∀ asOf limit t, (machine {} urlPayload).step s (.reclaim asOf limit) = some t → m ∉ t.tasks.queue := by
  intro hall
  obtain ⟨m, hm, hnot⟩ := hall (afterActs lateRenewal)
    (.exec (.start start_empty) (by decide +kernel) (exec_afterActs _ (by decide +kernel)))
    (by decide +kernel) 0 (by decide +kernel)
  obtain rfl : m = "a" := Option.some.inj (hm.symm.trans (by decide +kernel))
  have hnow : 601000000 ≤ (afterActs lateRenewal).now := by decide +kernel
  have hmoved : "a" ∈ ((afterActs lateRenewal).tasks.reclaimExpired {} 601000000 500 true).2.queue := by
    decide +kernel
  exact hnot 601000000 500 _ (step_reclaim hnow) hmoved

end Renewal

end Netspy
