import Netspy.Impl.SharedFilter
import Netspy.Proof.Fingerprint
import Netspy.Proof.Placed

/-!
# A recorded fingerprint is that of a request

Past the filter, a request stays with its node until it is put, unless the node
is killed or gives it up (`carries_step`). So every recorded fingerprint is
covered in every run whose kills, failed pushes and lost replies leave another
request with it (`covered_within`); a kill right after `add` leaves none.
-/

namespace Netspy

namespace BufferThreads

variable {α : Type} {b c : BufferThreads α} {x : Tagged α}

theorem Past.put (h : b.Past x) (y : Tagged α) : (b.put y).Past x := by
  rcases h with ⟨hx, hr⟩ | h
  · exact .inl ⟨(entries_put b y).mem_iff.mpr (List.mem_cons_of_mem y hx), hr⟩
  · exact .inr h

theorem Past.swap (h : b.Past x) : b.swap.Past x := by
  rcases h with ⟨hx, hr⟩ | ⟨j, hj⟩
  · exact .inl ⟨(entries_swap b).mem_iff.mpr hx, hr⟩
  · obtain ⟨rest, hj⟩ := putting_eq_some.mp hj
    refine .inr ⟨j, putting_eq_some.mpr ⟨rest, ?_⟩⟩
    exact (List.getElem?_append_left (List.getElem?_eq_some_iff.mp hj).1).trans hj

/-- A flush goes on to `g`: what was past the filter still is, unless the flush
was to put it. -/
theorem Past.setFlush {j : Nat} {f : RequestFlush α} (g : RequestFlush α) (back : List (Tagged α)) (h : b.Past x)
    (hj : b.flushes[j]? = some f)
    (hb : x ∈ f.batch → x.request.filterRepeat = false → x ∈ back ++ g.batch) :
    ({ b with pending := back ++ b.pending }.setFlush j g).Past x ∨ ∃ rest, f = ⟨x :: rest, true⟩ := by
  rcases h with ⟨hx, hr⟩ | ⟨k, hk⟩
  · refine .inl (.inl ⟨BufferThreads.mem_entries.mpr ?_, hr⟩)
    have hnew (hx : x ∈ back ++ g.batch) : x ∈ back ++ b.pending ∨ ∃ f' ∈ b.flushes.set j g, x ∈ f'.batch :=
      (List.mem_append.mp hx).imp (List.mem_append_left _) fun hx => ⟨g, mem_set_self g hj, hx⟩
    rcases BufferThreads.mem_entries.mp hx with hx | ⟨f', hf, hx⟩
    · exact .inl (List.mem_append_right _ hx)
    · rcases mem_set_or g hj hf with hf | rfl
      · exact .inr ⟨f', hf, hx⟩
      · exact hnew (hb hx hr)
  · obtain ⟨rest, hk⟩ := putting_eq_some.mp hk
    by_cases hjk : j = k
    · subst hjk
      exact .inr ⟨rest, Option.some.inj (hj.symm.trans hk)⟩
    · refine .inl (.inr ⟨k, putting_eq_some.mpr ⟨rest, ?_⟩⟩)
      exact (List.getElem?_set_ne hjk).trans hk

/-- The filter drops only what it was asked about. -/
theorem Past.filter {j : Nat} {answer : Answer} {dropped : Option (Tagged α)} (h : b.Past x)
    (hf : b.filter j answer = some (dropped, c)) : c.Past x := by
  unfold BufferThreads.filter at hf
  split at hf
  · rename_i y rest hj
    have hpast {g : RequestFlush α} {back : List (Tagged α)}
        (hb : x ∈ y :: rest → x.request.filterRepeat = false → x ∈ back ++ g.batch) :
        ({ b with pending := back ++ b.pending }.setFlush j g).Past x :=
      (h.setFlush g back hj hb).resolve_right nofun
    split at hf
    · cases hf
      exact @hpast ⟨y :: rest, true⟩ [] fun hx _ => hx
    · rename_i hs
      cases hf
      refine @hpast ⟨rest, false⟩ [] fun hx hr => (List.mem_cons.mp hx).resolve_left ?_
      rintro rfl
      rw [if_neg (by rw [hr]; exact Bool.false_ne_true)] at hs
      cases hs
    · cases hf
      exact @hpast { batch := [] } (y :: rest) fun hx _ => List.mem_append_left _ hx
  · cases hf

/-- Whom the filter calls new is past it. -/
theorem past_of_fresh {j : Nat} {dropped : Option (Tagged α)} (hx : b.asking j = some x)
    (hf : b.filter j .fresh = some (dropped, c)) : c.Past x := by
  obtain ⟨rest, hj⟩ := asking_eq_some.mp hx
  simp only [BufferThreads.filter, hj, ite_self, Option.some.injEq, Prod.mk.injEq] at hf
  obtain ⟨-, rfl⟩ := hf
  exact .inr ⟨j, putting_eq_some.mpr ⟨rest, List.getElem?_set_self (List.getElem?_eq_some_iff.mp hj).1⟩⟩

theorem putting_of_push {j : Nat} (h : b.push j true = some (some x, c)) : b.putting j = some x := by
  unfold BufferThreads.push at h
  split at h
  · rename_i y rest hj
    cases h
    exact putting_eq_some.mpr ⟨rest, hj⟩
  · cases h

/-- The queue takes what is put; a call that raises leaves it in the buffer, with
its flag cleared. -/
theorem Past.push {j : Nat} {works : Bool} {pushed : Option (Tagged α)} (h : b.Past x)
    (hp : b.push j works = some (pushed, c)) : c.Past x ∨ pushed = some x ∨ c.Past (clearFilter x) := by
  unfold BufferThreads.push at hp
  split at hp
  · rename_i y rest hj
    have hhead {r : List (Tagged α)} (he : (⟨y :: rest, true⟩ : RequestFlush α) = ⟨x :: r, true⟩) : x = y :=
      (List.cons.inj (RequestFlush.mk.inj he).1).1.symm
    split at hp
    · cases hp
      by_cases hxy : x = y
      · exact .inr (.inl (congrArg some hxy.symm))
      · refine .inl ((h.setFlush ⟨rest, false⟩ [] hj fun hx _ => ?_).resolve_right fun ⟨r, he⟩ => hxy (hhead he))
        exact (List.mem_cons.mp hx).resolve_left hxy
    · cases hp
      by_cases hxy : x = y
      · subst hxy
        refine .inr (.inr (.inl ⟨BufferThreads.mem_entries.mpr (.inl ?_), rfl⟩))
        exact List.mem_append_left _ List.mem_cons_self
      · refine .inl ((h.setFlush { batch := [] } (clearFilter y :: rest) hj fun hx _ => ?_).resolve_right
          fun ⟨r, he⟩ => hxy (hhead he))
        exact List.mem_append_left _ (List.mem_cons_of_mem _ ((List.mem_cons.mp hx).resolve_left hxy))
  · cases hp

theorem Past.drainPending (h : b.Past x) : x ∈ b.drainPending.1 ∨ b.drainPending.2.Past x := by
  rcases h with ⟨hx, hr⟩ | h
  · exact (BufferThreads.mem_entries.mp hx).imp_right fun hf => .inl ⟨BufferThreads.mem_entries.mpr (.inr hf), hr⟩
  · exact .inr (.inr h)

end BufferThreads

open RedisScheduler

namespace SharedFilter

variable (lib : Stdlib) {st : Setting} {codec : Codec} {key : String}

/-- Whether the filter is asked does not change the fingerprint. -/
theorem fingerprint_filterRepeat (r : Request) (b : Bool) :
    ({ r with filterRepeat := b } : Request).fingerprint lib = r.fingerprint lib := rfl

/-! ## One node -/

theorem HoldsPast.holds {nd : RedisScheduler} (h : HoldsPast lib nd key) : Holds lib nd key := by
  obtain ⟨r, hr, hk⟩ := h
  exact ⟨r, hr.imp_left fun ⟨x, hx, he⟩ => ⟨x, hx.mem_entries, he⟩, hk⟩

theorem HoldsPast.of_past {nd : RedisScheduler} {x : Tagged Buffered} (hx : nd.requestBuffer.Past x)
    (hk : x.request.fingerprint lib = .ok key) : HoldsPast lib nd key := ⟨x.request, .inl ⟨x, hx, rfl⟩, hk⟩

theorem HoldsPast.of_leftover {nd : RedisScheduler} {l : Leftover} (hl : l ∈ nd.leftovers)
    (hk : l.request.fingerprint lib = .ok key) : HoldsPast lib nd key := ⟨l.request, .inr ⟨l, hl, rfl⟩, hk⟩

/-- A step of the buffer that keeps what is past the filter. -/
theorem HoldsPast.buffer {nd nd' : RedisScheduler} (h : HoldsPast lib nd key)
    (hb : ∀ x, nd.requestBuffer.Past x → nd'.requestBuffer.Past x) (hl : nd'.leftovers = nd.leftovers) :
    HoldsPast lib nd' key := by
  obtain ⟨r, ⟨x, hx, rfl⟩ | ⟨l, hm, rfl⟩, hk⟩ := h
  · exact .of_past lib (hb x hx) hk
  · exact .of_leftover lib (hl ▸ hm) hk

theorem HoldsPast.push {nd : RedisScheduler} {b : BufferThreads Buffered} {j : Nat} {works : Bool}
    {pushed : Option (Tagged Buffered)} (h : HoldsPast lib nd key)
    (hp : nd.requestBuffer.push j works = some (pushed, b)) :
    HoldsPast lib { nd with requestBuffer := b } key ∨ ∃ x ∈ pushed, x.request.fingerprint lib = .ok key := by
  obtain ⟨r, ⟨x, hx, rfl⟩ | ⟨l, hm, rfl⟩, hk⟩ := h
  · rcases hx.push hp with hx | rfl | hx
    · exact .inl (.of_past lib hx hk)
    · exact .inr ⟨x, rfl, hk⟩
    · exact .inl (.of_past lib hx hk)
  · exact .inl (.of_leftover lib hm hk)

theorem HoldsPast.drain {nd : RedisScheduler} (h : HoldsPast lib nd key) (hl : nd.leftovers = []) :
    HoldsPast lib (nd.drain codec) key := by
  obtain ⟨r, ⟨x, hx, rfl⟩ | ⟨l, hm, rfl⟩, hk⟩ := h
  · rcases hx.drainPending with hx | hx
    · exact .of_leftover lib (List.mem_append_left _ (List.mem_map_of_mem hx)) hk
    · exact .of_past lib hx hk
  · rw [hl] at hm
    exact absurd hm List.not_mem_nil

/-- A node that runs and holds a request with this fingerprint past the filter. -/
def Carries (nd : RedisScheduler) (key : String) : Prop := nd.alive = true ∧ HoldsPast lib nd key

theorem carries_local {nd nd' : RedisScheduler} {a : NodeAct} (h : LocalStep nd a nd') (ha : a ≠ .pushBack false)
    (hc : Carries lib nd key) : Carries lib nd' key := by
  obtain ⟨hal, hc⟩ := hc
  cases h with
  | seed | yieldRequest | putRetry | convert => exact ⟨hal, hc.buffer lib (fun _ hx => hx.put _) rfl⟩
  | swap | endPoll => exact ⟨hal, hc.buffer lib (fun _ hx => hx.swap) rfl⟩
  | filter j answer dropped b hf => exact ⟨hal, hc.buffer lib (fun _ hx => hx.filter hf) rfl⟩
  | pushRaised j b hp =>
    refine ⟨hal, (hc.push lib hp).resolve_right ?_⟩
    exact fun ⟨x, hx, _⟩ => Option.not_mem_none x hx
  | pushBackRaised => exact absurd rfl ha
  | _ => exact ⟨hal, hc⟩

/-! ## All nodes -/

variable {ν : Type} [DecidableEq ν] {s t : Cluster ν}

/-- A step that puts no request of this fingerprint leaves the node that carries
one as it is, or carries it on. -/
theorem carries_update {n i : ν} {nd : RedisScheduler} {P : Prop} (h : Carries lib (s.nodes i) key)
    (ht : t.nodes = Function.update s.nodes n nd)
    (hn : i = n → Carries lib (s.nodes n) key → P ∨ Carries lib nd key) : P ∨ Carries lib (t.nodes i) key := by
  rw [ht]
  by_cases hin : i = n
  · subst hin
    rw [Function.update_self]
    exact hn rfl h
  · rw [Function.update_of_ne hin]
    exact .inr h

theorem carries_queueDone {n i : ν} {k : Nat} {works : Bool} (h : Carries lib (s.nodes i) key) :
    Carries lib ((s.queueDone n k works).nodes i) key := by
  rcases Cluster.queueDone_cases s n k works with ⟨m, -, he⟩ | he
  · rw [he]
    refine (carries_update lib (P := False) h rfl fun _ hc => .inr ?_).resolve_left id
    exact hc
  · rwa [he]

theorem carries_setNode {n i : ν} {nd : RedisScheduler} (h : Carries lib (s.nodes i) key)
    (hn : Carries lib (s.nodes n) key → Carries lib nd key) : Carries lib ((s.setNode n nd).nodes i) key :=
  (carries_update lib (P := False) h rfl fun _ hc => .inr (hn hc)).resolve_left id

theorem carries_collectorDone {n i : ν} {k : Nat} {works : Bool} (h : Carries lib (s.nodes i) key) :
    Carries lib ((s.collectorDone n k works).nodes i) key :=
  carries_queueDone lib (carries_setNode lib h id)

/-- Any step but a kill of the node, and a push of the shutdown that raises. -/
theorem carries_step {a : ClusterAct ν} (hp : ∀ i, Placed (s.nodes i)) (hs : Cluster.Stepped st codec s a t) {i : ν}
    (hk : a ≠ .kill i) (hr : a ≠ .node i (.pushBack false)) (h : Carries lib (s.nodes i) key) :
    (∃ r ∈ s.putBy a, r.fingerprint lib = .ok key) ∨ Carries lib (t.nodes i) key := by
  cases hs with
  | tick | beat | renew | pollIgnored => exact .inr h
  | join n kind keepAlive threads hn =>
    refine carries_update lib h rfl fun _ hc => ?_
    have hal := hc.1
    rw [alive, hn] at hal
    cases hal
  | kill n => exact carries_update lib h rfl fun hin => absurd (hin ▸ rfl) hk
  | inNode n a nd hl =>
    refine carries_update lib h rfl fun hin hc => .inr (carries_local lib hl ?_ hc)
    rintro rfl
    exact hr (hin ▸ rfl)
  | push n j x b hp' =>
    refine carries_update lib h rfl fun _ hc => ?_
    have hput : s.putBy (.node n (.push j true)) = some x.request := by
      show ((s.nodes n).requestBuffer.putting j).map Tagged.request = _
      rw [BufferThreads.putting_of_push hp']
      rfl
    rcases hc.2.push lib hp' with hc' | ⟨y, hy, hf⟩
    · exact .inr ⟨hc.1, hc'⟩
    · cases hy
      exact .inl ⟨x.request, hput, hf⟩
  | finish | ackOwner =>
    refine .inr (carries_collectorDone lib (carries_setNode lib h ?_))
    exact id
  | pushDone =>
    refine .inr (carries_queueDone lib (carries_setNode lib h ?_))
    exact id
  | drain n hrun =>
    refine carries_update lib h rfl fun _ hc => .inr ⟨rfl, ?_⟩
    exact hc.2.drain lib ((hp n).staying (.inr hrun))
  | pushBack n l rest hl hset =>
    refine carries_update lib h rfl fun _ hc => ?_
    have hput : s.putBy (.node n (.pushBack true)) = some l.request := by
      show (s.nodes n).leftovers.head?.map Leftover.request = _
      rw [hl]
      rfl
    obtain ⟨hal, r, ⟨x, hx, rfl⟩ | ⟨l', hm, rfl⟩, hf⟩ := hc
    · exact .inr ⟨hal, .of_past lib hx hf⟩
    · rw [hl] at hm
      rcases List.mem_cons.mp hm with rfl | hm
      · exact .inl ⟨_, hput, hf⟩
      · exact .inr ⟨hal, .of_leftover lib hm hf⟩
  | get | getBatch | bzpopmin | lease | pollTask | pollReclaim | read | readIdle | readBusy =>
    refine carries_update lib h rfl fun _ hc => .inr ?_
    exact hc

/-! ## The runs -/

variable {φ : Type} [Filter φ] {u v : SharedFilter ν φ}

omit [DecidableEq ν] [Filter φ] in
theorem Put.mono {r : Option Request} (h : u.Put lib key) (he : v.enqueued = u.enqueued ++ r.toList) :
    v.Put lib key := by
  obtain ⟨q, hq, hk⟩ := h
  exact ⟨q, he ▸ List.mem_append_left _ hq, hk⟩

omit [DecidableEq ν] [Filter φ] in
theorem put_of_mem {r : Option Request} (he : v.enqueued = u.enqueued ++ r.toList)
    (h : ∃ q ∈ r, q.fingerprint lib = .ok key) : v.Put lib key := by
  obtain ⟨q, hq, hk⟩ := h
  exact ⟨q, he ▸ List.mem_append_right _ (Option.mem_toList.mpr hq), hk⟩

/-- Every step of the machine is one of the nodes, with what it records. -/
theorem step_cluster {a : SharedAct ν} (h : u.step st codec lib a = some v) :
    (∃ n j reply x, a = .ask n j reply ∧ (u.cluster.nodes n).requestBuffer.asking j = some x ∧
      u.cluster.step st codec (.node n (.filter j (askShared lib u.filter x.request reply).1)) = some v.cluster ∧
      v.filter = (askShared lib u.filter x.request reply).2.1 ∧
      v.recorded = u.recorded ++ (askShared lib u.filter x.request reply).2.2.toList ∧
      v.enqueued = u.enqueued) ∨
    (∃ b, a = .cluster b ∧ u.cluster.step st codec b = some v.cluster ∧ v.filter = u.filter ∧
      v.recorded = u.recorded ∧ v.enqueued = u.enqueued ++ (u.cluster.putBy b).toList) := by
  unfold step at h
  split at h
  · rename_i n j reply
    unfold ask at h
    split at h
    · rename_i x hx
      obtain ⟨c, hc, rfl⟩ := Option.map_eq_some_iff.mp h
      exact .inl ⟨n, j, reply, x, rfl, hx, hc, rfl, rfl, rfl⟩
    · cases h
  · cases h
  · rename_i b _
    obtain ⟨c, hc, rfl⟩ := Option.map_eq_some_iff.mp h
    exact .inr ⟨b, rfl, hc, rfl, rfl, rfl⟩

/-- What a call of `add` writes is past the filter after it, unless its reply is
lost. -/
theorem written_answer {f : φ} {r : Request} {reply : Reply} (hk : key ∈ (askShared lib f r reply).2.2) :
    r.fingerprint lib = .ok key ∧ (reply = .lost ∨ (askShared lib f r reply).1 = .fresh) := by
  unfold askShared at hk ⊢
  split_ifs at hk ⊢ with hr
  · cases hf : r.fingerprint lib with
    | error e => simp [hf] at hk
    | ok key' =>
      simp only [hf] at hk ⊢
      cases reply with
      | failed => cases hk
      | lost =>
        split_ifs at hk with hfresh
        · cases hk
          exact ⟨rfl, .inl rfl⟩
        · cases hk
      | answered =>
        split_ifs at hk ⊢ with hfresh
        · cases hk
          exact ⟨rfl, .inr rfl⟩
        · cases hk
  · cases hk

/-- Covered, by a request that will not be asked about again. -/
def Kept (s : SharedFilter ν φ) : Prop :=
  ∀ key ∈ s.recorded, s.Put lib key ∨ ∃ n, Carries lib (s.cluster.nodes n) key

/-- A push of the shutdown that raises gives up the leftovers only. -/
theorem carries_pushBackRaised {i : ν} (hs : Cluster.Stepped st codec s (.node i (.pushBack false)) t)
    (h : Carries lib (s.nodes i) key) :
    (∃ l ∈ (s.nodes i).leftovers, l.request.fingerprint lib = .ok key) ∨ Carries lib (t.nodes i) key := by
  obtain ⟨hal, r, ⟨x, hx, rfl⟩ | ⟨l, hl, rfl⟩, hk⟩ := h
  · cases hs with
    | inNode _ _ nd hl =>
      cases hl with
      | pushBackRaised l rest hl hset =>
        refine .inr ?_
        rw [Cluster.setNode_nodes, Function.update_self]
        exact ⟨hal, .of_past lib hx hk⟩
  · exact .inl ⟨l, hl, hk⟩

omit [Filter φ] in
/-- Where the one that carries a request of the key goes on to carry it. -/
theorem kept_of_carries {a : ClusterAct ν} {i : ν} (hp : ∀ i, Placed (u.cluster.nodes i))
    (hs : u.cluster.step st codec a = some v.cluster)
    (he : v.enqueued = u.enqueued ++ (u.cluster.putBy a).toList) (hk : a ≠ .kill i)
    (hr : a ≠ .node i (.pushBack false)) (h : Carries lib (u.cluster.nodes i) key) :
    v.Put lib key ∨ ∃ n, Carries lib (v.cluster.nodes n) key :=
  (carries_step lib hp (Cluster.stepped hs) hk hr h).imp (put_of_mem lib he) fun hc => ⟨i, hc⟩

omit [Filter φ] in
/-- What is safe without the node that a step is about. -/
theorem kept_of_safe {a : ClusterAct ν} {n : ν} (hp : ∀ i, Placed (u.cluster.nodes i))
    (hs : u.cluster.step st codec a = some v.cluster)
    (he : v.enqueued = u.enqueued ++ (u.cluster.putBy a).toList)
    (hk : ∀ i, i ≠ n → a ≠ .kill i ∧ a ≠ .node i (.pushBack false)) (h : u.SafeWithout lib n key) :
    v.Put lib key ∨ ∃ i, Carries lib (v.cluster.nodes i) key := by
  rcases h with h | ⟨i, hin, hal, hc⟩
  · exact .inl (h.mono lib he)
  · exact kept_of_carries lib hp hs he (hk i hin).1 (hk i hin).2 ⟨hal, hc⟩

theorem kept_cluster {a : ClusterAct ν} (hp : ∀ i, Placed (u.cluster.nodes i))
    (hs : u.cluster.step st codec a = some v.cluster)
    (he : v.enqueued = u.enqueued ++ (u.cluster.putBy a).toList) (hg : Guard lib u (.cluster a))
    (hkey : key ∈ u.recorded) (h : u.Put lib key ∨ ∃ n, Carries lib (u.cluster.nodes n) key) :
    v.Put lib key ∨ ∃ n, Carries lib (v.cluster.nodes n) key := by
  rcases h with h | ⟨i, hc⟩
  · exact .inl (h.mono lib he)
  · by_cases hk : a = .kill i
    · subst hk
      refine kept_of_safe lib hp hs he (fun k hne => ⟨?_, nofun⟩) (hg key hkey hc.2)
      rintro ⟨⟩
      exact hne rfl
    · by_cases hr : a = .node i (.pushBack false)
      · subst hr
        rcases carries_pushBackRaised lib (Cluster.stepped hs) hc with hl | hc
        · refine kept_of_safe lib hp hs he (fun k hne => ⟨nofun, ?_⟩) (hg key hkey hl)
          rintro ⟨⟩
          exact hne rfl
        · exact .inr ⟨i, hc⟩
      · exact kept_of_carries lib hp hs he hk hr hc

/-- A call of `add` that writes the key and is answered leaves a request of it past
the filter. -/
theorem carries_fresh {n : ν} {j : Nat} {x : Tagged Buffered}
    (hx : (s.nodes n).requestBuffer.asking j = some x) (hs : s.step st codec (.node n (.filter j .fresh)) = some t)
    (hk : x.request.fingerprint lib = .ok key) : Carries lib (t.nodes n) key := by
  have hal : (s.nodes n).alive = true := by
    by_contra hal
    simp only [Cluster.step, if_neg hal] at hs
    cases hs
  cases Cluster.stepped hs with
  | inNode _ _ nd hl =>
    cases hl with
    | filter _ _ dropped b hf =>
      rw [Cluster.setNode_nodes, Function.update_self]
      exact ⟨hal, .of_past lib (BufferThreads.past_of_fresh hx hf) hk⟩

theorem kept_step {a : SharedAct ν} (hp : ∀ i, Placed (u.cluster.nodes i)) (h : u.Kept lib) (hg : Guard lib u a)
    (hs : u.step st codec lib a = some v) : v.Kept lib := by
  intro key hkey
  rcases step_cluster lib hs with ⟨n, j, reply, x, rfl, hx, hc, -, hrec, he⟩ | ⟨b, rfl, hc, -, hrec, he⟩
  · have henq : v.enqueued = u.enqueued ++
        (u.cluster.putBy (.node n (.filter j (askShared lib u.filter x.request reply).1))).toList :=
      he.trans (List.append_nil _).symm
    rw [hrec, List.mem_append, Option.mem_toList] at hkey
    rcases hkey with hkey | hkey
    · exact kept_cluster lib hp hc henq trivial hkey (h key hkey)
    · obtain ⟨hf, rfl | hfresh⟩ := written_answer lib hkey
      · refine kept_of_safe lib hp hc henq (fun i _ => ⟨nofun, nofun⟩) (hg key ?_)
        exact Option.mem_def.mpr (Option.bind_eq_some_iff.mpr ⟨x, hx, hkey⟩)
      · rw [hfresh] at hc
        exact .inr ⟨n, carries_fresh lib hx hc hf⟩
  · rw [hrec] at hkey
    exact kept_cluster lib hp hc he hg hkey (h key hkey)

theorem placed_within {G : SharedFilter ν φ → SharedAct ν → Prop} (h : (machine st codec lib).Within G u) :
    ∀ i, Placed (u.cluster.nodes i) := by
  have hr : (Cluster.machine st codec).Reachable u.cluster := by
    refine h.map SharedFilter.cluster (fun s (hs : (machine st codec lib).start s) => hs.1) fun s a t hs => .inr ?_
    rcases step_cluster lib hs with ⟨n, j, reply, x, -, -, hc, -⟩ | ⟨b, -, hc, -⟩
    · exact ⟨.node n (.filter j _), hc⟩
    · exact ⟨b, hc⟩
  exact Cluster.placed_reachable hr

/-- In every run in which no kill, no failed push of a shutdown and no lost reply
takes the only request with a recorded fingerprint, every recorded fingerprint
is that of a request that was put or that a node still alive holds. -/
theorem covered_within (st : Setting) (codec : Codec) (s : SharedFilter ν φ)
    (h : (machine st codec lib).Within (Guard lib) s) : s.Covered lib := by
  have hkept : s.Kept lib := by
    refine h.induct_with (I := Kept lib) (fun _ => placed_within lib) (fun s hs key hkey => ?_)
      fun _ _ _ hp hk hg ht => kept_step lib hp hk hg ht
    rw [hs.2.2.1] at hkey
    exact absurd hkey List.not_mem_nil
  exact fun key hkey => (hkept key hkey).imp_right fun ⟨n, hal, hc⟩ => ⟨n, hal, hc.holds lib⟩

/-! ## What the filter contains -/

/-- What a call of `add` does to the filter. -/
theorem askShared_cases (f : φ) (r : Request) (reply : Reply) :
    ((askShared lib f r reply).2.1 = f ∧ (askShared lib f r reply).2.2 = none) ∨
      ∃ key, (askShared lib f r reply).2.1 = (Filter.add f key).2 ∧
        (askShared lib f r reply).2.2 = if (Filter.add f key).1 then some key else none := by
  unfold askShared
  split_ifs
  · cases r.fingerprint lib with
    | error e => exact .inl ⟨rfl, rfl⟩
    | ok key =>
      cases reply with
      | failed => exact .inl ⟨rfl, rfl⟩
      | answered | lost => exact .inr ⟨key, rfl, rfl⟩
  · exact .inl ⟨rfl, rfl⟩

/-- The filter contains what was recorded. -/
theorem recorded_contained [RecordingFilter φ] {G : SharedFilter ν φ → SharedAct ν → Prop}
    (h : (machine st codec lib).Within G u) : ∀ key ∈ u.recorded, Filter.contains u.filter key = true := by
  refine h.induct (I := fun s => ∀ key ∈ s.recorded, Filter.contains s.filter key = true) (fun s hs key hkey => ?_)
    fun s a t hi _ ht key hkey => ?_
  · rw [hs.2.2.1] at hkey
    exact absurd hkey List.not_mem_nil
  · rcases step_cluster lib ht with ⟨n, j, reply, x, -, -, -, hf, hrec, -⟩ | ⟨b, -, -, hf, hrec, -⟩
    · rw [hrec, List.mem_append, Option.mem_toList] at hkey
      rw [hf]
      rcases askShared_cases lib s.filter x.request reply with ⟨he, hw⟩ | ⟨k, he, hw⟩
      · rw [he]
        exact hi key (hkey.resolve_right fun hk => by rw [hw] at hk; cases hk)
      · rw [he]
        rcases hkey with hkey | hkey
        · exact RecordingFilter.contains_mono _ _ _ (hi key hkey)
        · rw [hw] at hkey
          split_ifs at hkey
          cases hkey
          exact RecordingFilter.contains_add ..
    · rw [hf]
      exact hi key (hrec ▸ hkey)

/-- The SET has the recorded fingerprints for members. -/
theorem mem_members_iff {s : SharedFilter ν RedisSetFilter} {G : SharedFilter ν RedisSetFilter → SharedAct ν → Prop}
    (h : (machine st codec lib).Within G s) : key ∈ s.filter.members ↔ key ∈ s.recorded := by
  refine ⟨?_, fun hk => of_decide_eq_true (recorded_contained lib h key hk)⟩
  refine h.induct (I := fun s => key ∈ s.filter.members → key ∈ s.recorded) (fun s hs hk => ?_)
    fun s a t hi _ ht hk => ?_
  · exact absurd (decide_eq_true hk) (Bool.eq_false_iff.mp (hs.2.1 key))
  · rcases step_cluster lib ht with ⟨n, j, reply, x, -, -, -, hf, hrec, -⟩ | ⟨b, -, -, hf, hrec, -⟩
    · rw [hf] at hk
      rw [hrec, List.mem_append, Option.mem_toList]
      rcases askShared_cases lib s.filter x.request reply with ⟨he, -⟩ | ⟨k, he, hw⟩
      · exact .inl (hi (he ▸ hk))
      · rw [he] at hk
        rcases RedisSetFilter.mem_add.mp hk with rfl | hk
        · by_cases hold : key ∈ s.filter.members
          · exact .inl (hi hold)
          · have hfresh : (Filter.add s.filter key).1 = true := RedisSetFilter.add_fst.mpr hold
            rw [hw, if_pos hfresh]
            exact .inr rfl
        · exact .inl (hi hk)
    · rw [hrec]
      exact hi (hf ▸ hk)

/-! ## A node that is killed in a flush -/

def seedRequest : Request := { url := "a" }

/-- A node starts, puts a request into its buffer and asks the filter about it. -/
def askedRun : List (SharedAct Unit) :=
  [.cluster (.join () .redis false 1), .cluster (.node () (.seed seedRequest)), .cluster (.node () .swap),
    .ask () 0 .answered]

def emptyShared : SharedFilter Unit RedisSetFilter := { filter := {} }

theorem start_emptyShared : (machine {} Cluster.urlCodec Request.plainUrls).start emptyShared :=
  ⟨⟨fun _ => rfl, rfl⟩, fun _ => rfl, rfl, rfl⟩

def afterShared (as : List (SharedAct Unit)) : SharedFilter Unit RedisSetFilter :=
  ((machine {} Cluster.urlCodec Request.plainUrls).exec emptyShared as).getD emptyShared

theorem exec_afterShared (as : List (SharedAct Unit))
    (h : ((machine {} Cluster.urlCodec Request.plainUrls).exec emptyShared as).isSome = true) :
    (machine {} Cluster.urlCodec Request.plainUrls).exec emptyShared as = some (afterShared as) :=
  Machine.exec_getD h _

/-- The request is put before the node is killed. -/
def putRun : List (SharedAct Unit) := askedRun ++ [SharedAct.cluster (.node () (.push 0 true))]

theorem covered_within_putRun : (afterShared (putRun ++ [SharedAct.cluster (.kill ())])).Covered Request.plainUrls := by
  have hput : (machine {} Cluster.urlCodec Request.plainUrls).Within (Guard Request.plainUrls) (afterShared putRun) := by
    refine .exec (.start start_emptyShared) (.of_forall (fun a ha s => ?_) _) (exec_afterShared _ (by decide +kernel))
    simp only [putRun, askedRun, List.cons_append, List.nil_append, List.mem_cons, List.not_mem_nil, or_false] at ha
    rcases ha with rfl | rfl | rfl | rfl | rfl <;> trivial
  have hrec : (afterShared putRun).recorded = ["GET|a|"] := by decide +kernel
  have henq : (afterShared putRun).enqueued = [seedRequest] := by decide +kernel
  have hstep : (machine {} Cluster.urlCodec Request.plainUrls).step (afterShared putRun) (.cluster (.kill ())) =
      some (afterShared (putRun ++ [SharedAct.cluster (.kill ())])) := by
    have h := exec_afterShared (putRun ++ [SharedAct.cluster (.kill ())]) (by decide +kernel)
    rw [Machine.exec_append, exec_afterShared putRun (by decide +kernel), Option.bind_some, Machine.exec_cons] at h
    obtain ⟨t, ht, he⟩ := Option.bind_eq_some_iff.mp h
    rw [ht]
    exact he
  refine covered_within Request.plainUrls {} Cluster.urlCodec _ (hput.step ?_ hstep)
  intro key hkey _
  rw [hrec, List.mem_singleton] at hkey
  subst hkey
  exact .inl ⟨seedRequest, henq ▸ List.mem_cons_self, rfl⟩

/-- The node is killed after `add` and before `queue.put`. -/
theorem killedFlush_not_covered : ¬ ∀ s : SharedFilter Unit RedisSetFilter,
    (machine {} Cluster.urlCodec Request.plainUrls).Reachable s → s.Covered Request.plainUrls := by
  intro h
  have hr : (machine {} Cluster.urlCodec Request.plainUrls).Reachable
      (afterShared (askedRun ++ [SharedAct.cluster (.kill ())])) :=
    .exec (.start start_emptyShared) (exec_afterShared _ (by decide +kernel))
  have henq : (afterShared (askedRun ++ [SharedAct.cluster (.kill ())])).enqueued = [] := by decide +kernel
  rcases h _ hr "GET|a|" (by decide +kernel) with ⟨r, hr, -⟩ | ⟨n, hal, -⟩
  · rw [henq] at hr
    exact absurd hr List.not_mem_nil
  · cases n
    revert hal
    decide +kernel

end SharedFilter

end Netspy
