import Mathlib.Data.Fintype.Basic
import Netspy.Impl.BatchSpider
import Netspy.Proof.Placed

/-!
# Requests of claimed tasks

A request that a worker converts a claimed task to is on its way to the queue,
or was put into it, unless the filter drops it; and a filter that outlives the
claim drops it for what was crawled in an earlier batch, or before the task was
lost. So every claim is crawled again if the filter, when it is asked about a
request of a claim, knows no fingerprint like it but from this claim
(`KnowsOnlyClaim`, `crawled`).
-/

namespace Netspy

open RedisScheduler

/-- Of one claim, with one fingerprint. -/
def Converted.Equal (lib : Stdlib) (e e' : Converted) : Prop :=
  e'.claim = e.claim ∧ e'.request.fingerprint lib = e.request.fingerprint lib

instance (lib : Stdlib) (e e' : Converted) : Decidable (e.Equal lib e') :=
  inferInstanceAs (Decidable (_ ∧ _))

namespace RedisScheduler

/-- On its way to the queue, or put into it. -/
def Arriving (nd : RedisScheduler) (k : Nat) : Prop :=
  (∃ o ∈ nd.held, o.serial = k) ∨ ∃ e ∈ nd.landed, e.1.serial = k

/-- Not dropped, and the filter will not be asked about it. -/
def PastFilter (nd : RedisScheduler) (k : Nat) : Prop :=
  k ∉ nd.dropped ∧ ∀ x ∈ nd.requestBuffer.awaiting, x.tag.origin.serial ≠ k

instance (nd : RedisScheduler) (k : Nat) : Decidable (nd.Arriving k) := inferInstanceAs (Decidable (_ ∨ _))

instance (nd : RedisScheduler) (k : Nat) : Decidable (nd.PastFilter k) := inferInstanceAs (Decidable (_ ∧ _))

theorem Placed.arriving {nd : RedisScheduler} (h : Placed nd) {o : Origin} (ho : o ∈ nd.yielded)
    (hd : o.serial ∉ nd.dropped) : nd.Arriving o.serial := by
  rcases h.placed o ho with hm | hm | ⟨m, hm⟩
  · exact .inl ⟨o, hm, rfl⟩
  · exact absurd hm hd
  · exact .inr ⟨_, hm, rfl⟩

theorem PastFilter.steady {nd nd' : RedisScheduler} {k : Nat} (h : nd.PastFilter k) (hs : Steady nd nd')
    (hk : k < nd.yielded.length) : nd'.PastFilter k := by
  refine ⟨hs.dropped ▸ h.1, fun x hx => ?_⟩
  rcases hs.awaiting x hx with hx | hle
  · exact h.2 x hx
  · exact (hk.trans_le hle).ne'

end RedisScheduler

/-- What is known of the requests `es` that a node has converted tasks to. -/
structure ClaimsSifted (lib : Stdlib) (nd : RedisScheduler) (es : List Converted) : Prop where
  numbered : ∀ x ∈ nd.requestBuffer.entries, x.tag.origin.serial < nd.yielded.length
  droppedBefore : ∀ k ∈ nd.dropped, k < nd.yielded.length
  yielded : ∀ e ∈ es, ∃ o ∈ nd.yielded, o.serial = e.serial
  before : ∀ e ∈ es, e.serial < nd.yielded.length
  same : ∀ x ∈ nd.requestBuffer.entries, ∀ e ∈ es, e.serial = x.tag.origin.serial →
    x.request.fingerprint lib = e.request.fingerprint lib
  /-- A dropped one has an equal one of its claim that will not be dropped. -/
  dropped : ∀ e ∈ es, e.serial ∈ nd.dropped → ∃ e' ∈ es, e.Equal lib e' ∧ nd.PastFilter e'.serial

namespace ClaimsSifted

variable {lib : Stdlib} {nd nd' : RedisScheduler} {es : List Converted}

/-- A node that has just started. -/
theorem fresh (hb : nd.requestBuffer = {}) (hd : nd.dropped = []) : ClaimsSifted lib nd [] := by
  have he : nd.requestBuffer.entries = [] := by
    rw [hb]
    rfl
  refine ⟨?_, ?_, ?_, ?_, ?_, ?_⟩ <;> simp [he, hd]

theorem steady (h : ClaimsSifted lib nd es) (hs : Steady nd nd') : ClaimsSifted lib nd' es := by
  have hlen : nd.yielded.length ≤ nd'.yielded.length := hs.yielded.length_le
  refine ⟨fun x hx => ?_, fun k hk => ?_, fun e he => ?_, fun e he => (h.before e he).trans_le hlen,
    fun x hx e he hxe => ?_, fun e he hd => ?_⟩
  · rcases hs.entries x hx with ⟨y, hy, b, rfl⟩ | ⟨-, hlt⟩
    · exact (h.numbered y hy).trans_le hlen
    · exact hlt
  · exact (h.droppedBefore k (hs.dropped ▸ hk)).trans_le hlen
  · obtain ⟨o, ho, hoe⟩ := h.yielded e he
    exact ⟨o, hs.yielded.subset ho, hoe⟩
  · rcases hs.entries x hx with ⟨y, hy, b, rfl⟩ | ⟨hle, -⟩
    · exact h.same y hy e he hxe
    · exact absurd (hxe ▸ h.before e he) (Nat.not_lt.mpr hle)
  · obtain ⟨e', he', heq, hp⟩ := h.dropped e he (hs.dropped ▸ hd)
    exact ⟨e', he', heq, hp.steady hs (h.before e' he')⟩

/-- One more request of a claimed task. -/
theorem convert (h : ClaimsSifted lib nd es) (claim : Nat) (r : Request) :
    ClaimsSifted lib (nd.yieldRequest none none r) (es ++ [⟨nd.yielded.length, claim, r⟩]) := by
  have hs := h.steady (steady_yieldRequest nd none none r)
  refine ⟨hs.numbered, hs.droppedBefore, fun e he => ?_, fun e he => ?_, fun x hx e he hxe => ?_,
    fun e he hd => ?_⟩
  · rcases List.mem_append.mp he with he | he
    · exact hs.yielded e he
    · rw [List.mem_singleton.mp he]
      exact ⟨_, List.mem_append_right _ (List.mem_singleton.mpr rfl), rfl⟩
  · rcases List.mem_append.mp he with he | he
    · exact hs.before e he
    · rw [List.mem_singleton.mp he]
      simp [RedisScheduler.yieldRequest]
  · rcases List.mem_append.mp he with he | he
    · exact hs.same x hx e he hxe
    · rw [List.mem_singleton.mp he] at hxe ⊢
      rcases List.mem_cons.mp ((BufferThreads.entries_put ..).mem_iff.mp hx) with rfl | hx
      · rfl
      · exact absurd (h.numbered x hx) (hxe ▸ Nat.lt_irrefl _)
  · rcases List.mem_append.mp he with he | he
    · obtain ⟨e', he', heq, hp⟩ := hs.dropped e he hd
      exact ⟨e', List.mem_append_left _ he', heq, hp⟩
    · rw [List.mem_singleton.mp he] at hd
      exact absurd (h.droppedBefore _ hd) (Nat.lt_irrefl _)

/-- The filter drops a request for an equal one of its claim. -/
theorem filter (h : ClaimsSifted lib nd es) {b : BufferThreads Buffered} {j : Nat} {answer : Answer}
    {dropped : Option (Tagged Buffered)} (hf : nd.requestBuffer.filter j answer = some (dropped, b))
    (hg : ∀ x ∈ dropped, ∀ e ∈ es, e.serial = x.tag.origin.serial →
      ∃ e' ∈ es, e.Equal lib e' ∧ nd.PastFilter e'.serial) :
    ClaimsSifted lib { nd with
      requestBuffer := b
      dropped := nd.dropped ++ (dropped.map fun x => x.tag.origin.serial).toList } es := by
  obtain ⟨hs, hd⟩ := BufferThreads.sifts_filter hf
  have hout : ∀ k ∈ nd.dropped ++ (dropped.map fun x => x.tag.origin.serial).toList,
      k ∈ nd.dropped ∨ ∃ x ∈ dropped, x.tag.origin.serial = k := fun k hk => by
    simpa using hk
  have hpast : ∀ k, nd.PastFilter k → PastFilter { nd with
      requestBuffer := b
      dropped := nd.dropped ++ (dropped.map fun x => x.tag.origin.serial).toList } k := by
    refine fun k hk => ⟨fun hkd => ?_, fun x hx => hk.2 x (hs.awaiting hx)⟩
    rcases hout k hkd with hkd | ⟨x, hx, rfl⟩
    · exact hk.1 hkd
    · obtain ⟨ha, hr, -⟩ := hd x hx
      exact hk.2 x (BufferThreads.mem_awaiting_of_asking ha hr) rfl
  refine ⟨fun x hx => ?_, fun k hk => ?_, h.yielded, h.before, fun x hx e he hxe => ?_, fun e he hed => ?_⟩
  · rcases hs.entries x hx with hx | ⟨y, hy, rfl⟩
    · exact h.numbered x hx
    · exact h.numbered y hy
  · rcases hout k hk with hk | ⟨x, hx, rfl⟩
    · exact h.droppedBefore k hk
    · exact h.numbered x (BufferThreads.mem_entries_of_asking (hd x hx).1)
  · rcases hs.entries x hx with hx | ⟨y, hy, rfl⟩
    · exact h.same x hx e he hxe
    · exact h.same y hy e he hxe
  · rcases hout _ hed with hed | ⟨x, hx, hxe⟩
    · obtain ⟨e', he', heq, hp⟩ := h.dropped e he hed
      exact ⟨e', he', heq, hpast _ hp⟩
    · obtain ⟨e', he', heq, hp⟩ := hg x hx e he hxe.symm
      exact ⟨e', he', heq, hpast _ hp⟩

end ClaimsSifted

/-- The filter would call the request a duplicate. -/
def knows {φ : Type} [Filter φ] (lib : Stdlib) (f : φ) (r : Request) : Bool :=
  match r.fingerprint lib with
  | .ok key => Filter.contains f key
  | .error _ => false

/-- A request that a lawful filter drops was known to it. -/
theorem askFilter_seen {φ : Type} [Filter φ] [LawfulFilter φ] {lib : Stdlib} {f : φ} {r : Request}
    {works : Bool} (h : (askFilter lib f r works).1 = .seen) : works = true ∧ knows lib f r = true := by
  unfold askFilter at h
  unfold knows
  split at h
  · split at h
    · rename_i key hk
      refine ⟨rfl, ?_⟩
      rw [hk]
      by_contra hc
      rw [LawfulFilter.add_fst f key (by simpa using hc)] at h
      cases h
    · cases h
  · cases h

namespace BatchJob

variable {ν S φ : Type} [DecidableEq ν] [BatchStore S] [Filter φ] {st : Setting} {codec : Codec}
  {spider : BatchSpider} {s t : BatchJob ν S φ}

/-- Each request of a claimed task, or an equal one of its claim, is on its way to
the queue or was put into it. -/
def Crawled (lib : Stdlib) (s : BatchJob ν S φ) : Prop :=
  ∀ n, ∀ e ∈ s.converted n, ∃ e' ∈ s.converted n,
    e.Equal lib e' ∧ (s.cluster.nodes n).Arriving e'.serial

instance [Fintype ν] (lib : Stdlib) : Decidable (s.Crawled lib) :=
  inferInstanceAs (Decidable (∀ n, ∀ e ∈ s.converted n, ∃ e' ∈ s.converted n, _ ∧ _))

/-- The filter that is asked about a request of a claimed task does not know it, or
an equal one of the claim is past the filter. -/
def KnowsOnlyClaim (st : Setting) (spider : BatchSpider) (s : BatchJob ν S φ) : BatchAct ν → Prop
  | .filter n j true =>
    ∀ x ∈ (s.cluster.nodes n).requestBuffer.asking j, ∀ e ∈ s.converted n,
      e.serial = x.tag.origin.serial →
      knows spider.lib (s.filters (makeDedup st spider.jobNs n)) x.request = true →
      ∃ e' ∈ s.converted n, e.Equal spider.lib e' ∧ (s.cluster.nodes n).PastFilter e'.serial
  | _ => True

instance (a : BatchAct ν) : Decidable (KnowsOnlyClaim st spider s a) := by
  unfold KnowsOnlyClaim
  split <;> infer_instance

/-! ## Steps -/

omit [BatchStore S] [Filter φ] in
theorem nodeStep_eq_some {a : ClusterAct ν} (h : s.nodeStep st codec a = some t) :
    ∃ c, Cluster.Stepped st codec s.cluster a c ∧ t = { s with cluster := c } := by
  obtain ⟨c, hc, rfl⟩ := Option.map_eq_some_iff.mp h
  exact ⟨c, Cluster.stepped hc, rfl⟩

omit [DecidableEq ν] [Filter φ] in
/-- The master does not touch the nodes. -/
theorem monitorStep_frame (h : s.monitorStep st spider = some t) :
    t.cluster = s.cluster ∧ t.converted = s.converted := by
  unfold monitorStep at h
  split at h <;> cases h <;> exact ⟨rfl, rfl⟩

/-- What a step does to the nodes and to what they converted. -/
inductive Moves (st : Setting) (spider : BatchSpider) (s : BatchJob ν S φ) :
    BatchAct ν → BatchJob ν S φ → Prop
  | quiet (a : BatchAct ν) (t : BatchJob ν S φ) (hc : t.converted = s.converted)
      (hs : ∀ n, Steady (s.cluster.nodes n) (t.cluster.nodes n)) : Moves st spider s a t
  | join (n : ν) (keepAlive : Bool) (threads : Nat) (nd : RedisScheduler) (t : BatchJob ν S φ)
      (hn : t.cluster.nodes = Function.update s.cluster.nodes n nd)
      (hc : t.converted = Function.update s.converted n [])
      (hb : nd.requestBuffer = {}) (hd : nd.dropped = []) :
    Moves st spider s (.join n keepAlive threads) t
  | convert (n : ν) (r r' : Request) (claim : Nat) (t : BatchJob ν S φ)
      (hn : t.cluster.nodes =
        Function.update s.cluster.nodes n ((s.cluster.nodes n).yieldRequest none none r'))
      (hc : t.converted = Function.update s.converted n
        (s.converted n ++ [⟨(s.cluster.nodes n).yielded.length, claim, r'⟩])) :
    Moves st spider s (.convert n r) t
  | filter (n : ν) (j : Nat) (works : Bool) (x : Tagged Buffered) (dropped : Option (Tagged Buffered))
      (b : BufferThreads Buffered) (t : BatchJob ν S φ)
      (hx : (s.cluster.nodes n).requestBuffer.asking j = some x)
      (hf : (s.cluster.nodes n).requestBuffer.filter j
        (askFilter spider.lib (s.filters (makeDedup st spider.jobNs n)) x.request works).1 = some (dropped, b))
      (hn : t.cluster.nodes = Function.update s.cluster.nodes n
        { s.cluster.nodes n with
          requestBuffer := b
          dropped := (s.cluster.nodes n).dropped ++
            (dropped.map fun x => x.tag.origin.serial).toList })
      (hc : t.converted = s.converted) :
    Moves st spider s (.filter n j works) t

omit [BatchStore S] [Filter φ] in
theorem quiet_node {n : ν} {a : NodeAct} (ha : ∀ j answer, a ≠ .filter j answer)
    (h : s.nodeStep st codec (.node n a) = some t) :
    t.converted = s.converted ∧ ∀ i, Steady (s.cluster.nodes i) (t.cluster.nodes i) := by
  obtain ⟨c, hs, rfl⟩ := nodeStep_eq_some h
  exact ⟨rfl, Cluster.steady_step hs ha⟩

omit [BatchStore S] in
theorem moves_convert {n : ν} {r : Request} (h : s.convert st codec n r = some t) :
    Moves st spider s (.convert n r) t := by
  unfold convert at h
  dsimp only at h
  split at h
  · rename_i task tasks claim claims hp hf
    obtain ⟨u, hu, rfl⟩ := Option.map_eq_some_iff.mp h
    obtain ⟨c, hs, rfl⟩ := nodeStep_eq_some hu
    cases hs with
    | inNode _ _ nd hl =>
      cases hl
      exact .convert n r (tagged task r) claim _ rfl rfl
  · cases h

omit [BatchStore S] in
theorem moves_filter {n : ν} {j : Nat} {works : Bool} (h : s.filter st codec spider n j works = some t) :
    Moves st spider s (.filter n j works) t := by
  unfold filter at h
  split at h
  · rename_i x hx
    obtain ⟨u, hu, rfl⟩ := Option.map_eq_some_iff.mp h
    obtain ⟨c, hs, rfl⟩ := nodeStep_eq_some hu
    cases hs with
    | inNode _ _ nd hl =>
      cases hl with
      | filter _ _ dropped b hf => exact .filter n j works x dropped b _ hx hf rfl rfl
  · cases h

omit [BatchStore S] in
theorem moves_fetch {n : ν} (h : s.fetch st codec spider n = some t) : Moves st spider s (.fetch n) t := by
  unfold fetch at h
  dsimp only at h
  split at h
  · obtain ⟨u, hu, rfl⟩ := Option.map_eq_some_iff.mp h
    obtain ⟨hc, hs⟩ := quiet_node (by simp) hu
    exact .quiet _ _ hc hs
  · split at h
    · cases h
      exact .quiet _ _ rfl fun _ => .of_eq rfl rfl rfl
    · cases h

theorem moves {a : BatchAct ν} (h : s.step st codec spider a = some t) : Moves st spider s a t := by
  cases a with
  | tick d =>
    obtain ⟨c, hs, rfl⟩ := nodeStep_eq_some h
    cases hs
    exact .quiet _ _ rfl fun _ => .of_eq rfl rfl rfl
  | ensureBatch force =>
    simp only [step] at h
    split at h
    · cases h
      exact .quiet _ _ rfl fun _ => .of_eq rfl rfl rfl
    · cases h
  | monitor =>
    obtain ⟨hc, hv⟩ := monitorStep_frame h
    exact .quiet _ _ hv fun n => hc ▸ .of_eq rfl rfl rfl
  | stopMonitor | updateTask =>
    cases h
    exact .quiet _ _ rfl fun _ => .of_eq rfl rfl rfl
  | join n keepAlive threads =>
    obtain ⟨u, hu, rfl⟩ := Option.map_eq_some_iff.mp h
    obtain ⟨c, hs, rfl⟩ := nodeStep_eq_some hu
    cases hs
    exact .join n keepAlive threads _ _ rfl rfl rfl rfl
  | kill n =>
    obtain ⟨c, hs, rfl⟩ := nodeStep_eq_some h
    cases hs
    refine .quiet _ _ rfl (Cluster.steady_update rfl ?_)
    exact .of_eq rfl rfl rfl
  | fetch n => exact moves_fetch h
  | convert n r => exact moves_convert h
  | nextTask n =>
    obtain ⟨u, hu, rfl⟩ := Option.map_eq_some_iff.mp h
    obtain ⟨hc, hs⟩ := quiet_node (by simp) hu
    exact .quiet _ _ hc hs
  | filter n j works => exact moves_filter h
  | node n a =>
    simp only [step] at h
    split at h
    · rename_i ha
      obtain ⟨hc, hs⟩ := quiet_node (fun j answer e => by simp [e, NodeAct.isOwn] at ha) h
      exact .quiet _ _ hc hs
    · cases h

/-! ## The runs -/

omit [BatchStore S] [Filter φ] in
theorem nodeStep_cluster {a : ClusterAct ν} (h : s.nodeStep st codec a = some t) :
    s.cluster.step st codec a = some t.cluster := by
  obtain ⟨c, hc, rfl⟩ := Option.map_eq_some_iff.mp h
  exact hc

/-- A step of the job is a step of the cluster, or none. -/
theorem cluster_step {a : BatchAct ν} (h : s.step st codec spider a = some t) :
    t.cluster = s.cluster ∨ ∃ b, s.cluster.step st codec b = some t.cluster := by
  cases a with
  | tick | kill => exact .inr ⟨_, nodeStep_cluster h⟩
  | ensureBatch force =>
    simp only [step] at h
    split at h
    · cases h
      exact .inl rfl
    · cases h
  | monitor => exact .inl (monitorStep_frame h).1
  | stopMonitor | updateTask =>
    cases h
    exact .inl rfl
  | join n | nextTask n =>
    obtain ⟨u, hu, rfl⟩ := Option.map_eq_some_iff.mp h
    have hc := nodeStep_cluster hu
    exact .inr ⟨_, hc⟩
  | fetch n =>
    simp only [step, fetch] at h
    split at h
    · obtain ⟨u, hu, rfl⟩ := Option.map_eq_some_iff.mp h
      have hc := nodeStep_cluster hu
      exact .inr ⟨_, hc⟩
    · split at h
      · cases h
        exact .inl rfl
      · cases h
  | convert n r =>
    simp only [step, convert] at h
    split at h
    · obtain ⟨u, hu, rfl⟩ := Option.map_eq_some_iff.mp h
      have hc := nodeStep_cluster hu
      exact .inr ⟨_, hc⟩
    · cases h
  | filter n j works =>
    simp only [step, filter] at h
    split at h
    · obtain ⟨u, hu, rfl⟩ := Option.map_eq_some_iff.mp h
      have hc := nodeStep_cluster hu
      exact .inr ⟨_, hc⟩
    · cases h
  | node n a =>
    simp only [step] at h
    split at h
    · exact .inr ⟨_, nodeStep_cluster h⟩
    · cases h

/-- Seen from the nodes, a run of the job is a run of the cluster. -/
theorem cluster_reachable {G : BatchJob ν S φ → BatchAct ν → Prop}
    (h : (machine st codec spider).Within G s) : (Cluster.machine st codec).Reachable s.cluster :=
  h.map BatchJob.cluster (fun _ (hs : _ ∧ _) => hs.1) fun _ _ _ ht => cluster_step ht

omit [BatchStore S] in
/-- What one guarded step preserves. -/
theorem claimsSifted_step [LawfulFilter φ] {a : BatchAct ν}
    (h : ∀ n, ClaimsSifted spider.lib (s.cluster.nodes n) (s.converted n)) (hg : KnowsOnlyClaim st spider s a)
    (hm : Moves st spider s a t) (n : ν) : ClaimsSifted spider.lib (t.cluster.nodes n) (t.converted n) := by
  cases hm with
  | quiet _ _ hc hs => exact hc ▸ (h n).steady (hs n)
  | join m keepAlive threads nd _ hn hc hb hd =>
    rw [hn, hc]
    by_cases hnm : n = m
    · subst hnm
      rw [Function.update_self, Function.update_self]
      exact .fresh hb hd
    · rw [Function.update_of_ne hnm, Function.update_of_ne hnm]
      exact h n
  | convert m r r' claim _ hn hc =>
    rw [hn, hc]
    by_cases hnm : n = m
    · subst hnm
      rw [Function.update_self, Function.update_self]
      exact (h n).convert claim r'
    · rw [Function.update_of_ne hnm, Function.update_of_ne hnm]
      exact h n
  | filter m j works x dropped b _ hx hf hn hc =>
    rw [hn, hc]
    by_cases hnm : n = m
    · subst hnm
      rw [Function.update_self]
      refine (h n).filter hf fun y hy e he hey => ?_
      obtain ⟨ha, -, hseen⟩ := (BufferThreads.sifts_filter hf).2 y hy
      obtain rfl : x = y := Option.some.inj (hx.symm.trans ha)
      obtain ⟨rfl, hk⟩ := askFilter_seen hseen
      exact hg x ha e he hey hk
    · rw [Function.update_of_ne hnm]
      exact h n

theorem claimsSifted_start (h : (machine st codec spider).start s) (n : ν) :
    ClaimsSifted spider.lib (s.cluster.nodes n) (s.converted n) := by
  obtain ⟨⟨hnodes, -⟩, -, hf⟩ := h
  rw [hnodes, (hf n).2]
  exact .fresh rfl rfl

/-- In the runs in which the filters know nothing of the requests of a claim but
from the claim itself, every claim is crawled. -/
theorem crawled [LawfulFilter φ] (s : BatchJob ν S φ)
    (h : (machine st codec spider).Within (KnowsOnlyClaim st spider) s) : Crawled spider.lib s := by
  intro n e he
  have hp : Placed (s.cluster.nodes n) := Cluster.placed_reachable (cluster_reachable h) n
  have hs : ∀ n, ClaimsSifted spider.lib (s.cluster.nodes n) (s.converted n) :=
    h.induct (I := fun s => ∀ n, ClaimsSifted spider.lib (s.cluster.nodes n) (s.converted n))
      (fun _ hs n => claimsSifted_start hs n) fun _ _ _ hi hg ht => claimsSifted_step hi hg (moves ht)
  by_cases hd : e.serial ∈ (s.cluster.nodes n).dropped
  · obtain ⟨e', he', heq, hpast⟩ := (hs n).dropped e he hd
    obtain ⟨o, ho, hoe⟩ := (hs n).yielded e' he'
    exact ⟨e', he', heq, hoe ▸ hp.arriving ho (hoe ▸ hpast.1)⟩
  · obtain ⟨o, ho, hoe⟩ := (hs n).yielded e he
    exact ⟨e, he, ⟨rfl, rfl⟩, hoe ▸ hp.arriving ho (hoe ▸ hd)⟩

/-- A library that leaves texts as they are. -/
def plainLib : Stdlib where
  urlsplit url := .ok ⟨"", "", url, "", ""⟩
  parseQsl _ := []
  urlencode _ := ""
  urlunsplit parts := parts.path
  dumpsSorted _ := .ok ""
  str _ := ""
  repr _ := ""
  md5 text := text
  lower text := text

/-- A job with one task. -/
def oneTask : BatchSpider where
  lib := plainLib
  jobNs := "netspy:job"
  dumpsJson _ := "task"
  loadsJson _ := .ok (.dict [(.str "id", .int 1), (.str "batch_status", .int 2)])

def oneTaskJob : BatchJob Unit MemoryBatchStore LiteFilter where
  store := { tasks := [{ id := .int 1 }] }
  filters _ := {}

theorem start_oneTaskJob : (machine {} Cluster.urlCodec oneTask).start oneTaskJob :=
  ⟨⟨fun _ => rfl, rfl⟩, rfl, fun _ => ⟨rfl, rfl⟩⟩

/-- The master opens a batch and pushes the task; the worker converts it to a
request for the URL, which its flush `j` asks the filter about. -/
def openBatch (url : String) (j : Nat) : List (BatchAct Unit) :=
  [.ensureBatch true, .monitor, .monitor, .monitor, .monitor, .monitor, .monitor, .fetch (),
    .node () .resetPolls, .convert () { url }, .nextTask (), .node () .endPoll, .filter () j true]

/-- One batch is crawled to its end, and a second one is opened. -/
def twoBatches (url : String) : List (BatchAct Unit) :=
  .join () true 1 :: openBatch "a" 0 ++
    [BatchAct.node () (.push 0 true), .updateTask (.int 1) BatchStore.DONE, .monitor, .monitor] ++ openBatch url 1

def afterBatches (url : String) : BatchJob Unit MemoryBatchStore LiteFilter :=
  ((machine {} Cluster.urlCodec oneTask).exec oneTaskJob (twoBatches url)).getD oneTaskJob

theorem exec_twoBatches (url : String)
    (h : ((machine {} Cluster.urlCodec oneTask).exec oneTaskJob (twoBatches url)).isSome = true) :
    (machine {} Cluster.urlCodec oneTask).exec oneTaskJob (twoBatches url) = some (afterBatches url) :=
  Machine.exec_getD h _

theorem crawled_twoBatches : Crawled plainLib (afterBatches "b") :=
  @crawled Unit MemoryBatchStore LiteFilter _ _ _ {} Cluster.urlCodec oneTask _ _
    (.exec (.start start_oneTaskJob) (by decide +kernel) (exec_twoBatches _ (by decide +kernel)))

theorem twoBatches_not_crawled :
    ¬ ∀ s : BatchJob Unit MemoryBatchStore LiteFilter,
      (machine {} Cluster.urlCodec oneTask).Reachable s → Crawled plainLib s := by
  intro h
  have hr : (machine {} Cluster.urlCodec oneTask).Reachable (afterBatches "a") :=
    .exec (.start start_oneTaskJob) (exec_twoBatches _ (by decide +kernel))
  exact absurd (h _ hr) (by decide +kernel)

end BatchJob

end Netspy
