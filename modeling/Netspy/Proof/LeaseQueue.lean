import Netspy.Impl.LeaseQueue

/-!
# The lease queue keeps what is put

What was put is in `z_requests` or in `z_inflight` until a node that has taken
it calls `done` (`conserved`).
-/

namespace Netspy

namespace LeaseQueue

open RedisTaskQueue

variable {ν : Type} {st : Setting} {codec : Codec} {dec : Decoder} {s t : LeaseQueue ν}

/-- The member is in one of the two sets. -/
def Stored (s : LeaseQueue ν) (m : String) : Prop := m ∈ s.queue.queue ∨ m ∈ s.queue.inflight

/-- What the script of a call of `_take` pops. -/
def popped (st : Setting) (s : LeaseQueue ν) (count : Nat) : List String := (s.queue.take st s.now count).1

theorem queue_take (n : ν) (count : Nat) :
    (s.take st dec n count).queue = (s.queue.take st s.now count).2 := by
  simp only [take, getBatch, decodeMembers_eq]

/-- The tokens of the requests that a call returns. -/
def tokensTaken (st : Setting) (dec : Decoder) (s : LeaseQueue ν) (count : Nat) : List String :=
  (((s.queue.getBatch st dec s.now count).1.toOption.getD []).filterMap DecodedRequest.leaseToken)

theorem tokensTaken_subset (count : Nat) : tokensTaken st dec s count ⊆ s.popped st count := by
  simp only [tokensTaken, popped, getBatch, decodeMembers_eq]
  cases h : (s.queue.take st s.now count).1.mapM (returned dec) with
  | error e => exact List.nil_subset _
  | ok rs => exact (tokens_of_returned dec h) ▸ List.Subset.refl _

theorem decodes_of_taken {count : Nat} {m : String} (hm : m ∈ tokensTaken st dec s count) : dec.Decodes m := by
  simp only [tokensTaken, getBatch, decodeMembers_eq] at hm
  cases h : (s.queue.take st s.now count).1.mapM (returned dec) with
  | error e =>
    rw [h] at hm
    exact absurd hm List.not_mem_nil
  | ok rs =>
    rw [h] at hm
    have hok : ((s.queue.take st s.now count).1.mapM (returned dec)).isOk = true := by rw [h]; rfl
    exact (isOk_returned dec).mp hok m (tokens_of_returned dec h ▸ hm)

theorem calls_take (n : ν) (count : Nat) :
    (s.take st dec n count).calls =
      s.calls ++ [⟨s.popped st count, (s.popped st count).mapM (returned dec)⟩] := by
  simp only [take, getBatch, decodeMembers_eq, popped]

/-! ## What is stored stays stored -/

theorem stored_put {m : String} (r : Request) (h : s.Stored m) : (s.put codec r).Stored m :=
  h.imp_left fun h => mem_queue_put.mpr (.inr h)

theorem stored_take {m : String} (n : ν) (count : Nat) (hl : 0 < st.SPIDER_TASK_LEASE) (h : s.Stored m) :
    (s.take st dec n count).Stored m := by
  unfold Stored
  rw [queue_take]
  rcases h with h | h
  · rcases mem_queue_take.mp h with h | h
    · exact .inr ((mem_inflight_take hl).mpr (.inl h))
    · exact .inl h
  · exact .inr ((mem_inflight_take hl).mpr (.inr h))

theorem mem_inflight_done {q : RedisTaskQueue} {r : DecodedRequest} {m : String} :
    m ∈ (q.done r).inflight ↔ m ∈ q.inflight ∧ ¬ (r.leaseToken = some m ∧ m ≠ "") := by
  unfold RedisTaskQueue.done
  split
  · rename_i token ht
    rw [ht]
    split
    · rename_i he
      simp only [he, Option.some.injEq, iff_self_and, not_and, not_not]
      exact fun _ e => e.symm
    · rename_i he
      rw [mem_inflight_doneMember, Option.some.injEq]
      refine and_congr_right fun _ => not_congr ⟨fun e => ⟨e.symm, e ▸ he⟩, fun e => e.1.symm⟩
  · rename_i hn
    simp only [hn, iff_self_and, not_and]
    exact fun _ => nofun

@[simp] theorem queue_done {q : RedisTaskQueue} {r : DecodedRequest} : (q.done r).queue = q.queue := by
  unfold RedisTaskQueue.done
  split
  · split <;> rfl
  · rfl

theorem stored_reclaimExpired {m : String} (limit : Nat) (h : s.Stored m) :
    Stored { s with queue := (s.queue.reclaimExpired st s.now limit true).2 } m :=
  mem_reclaimExpired.mp h

theorem stored_popped {m : String} (n : ν) (count : Nat) (hl : 0 < st.SPIDER_TASK_LEASE)
    (h : m ∈ s.popped st count) : (s.take st dec n count).Stored m := by
  unfold Stored
  rw [queue_take]
  exact .inr ((mem_inflight_take hl).mpr (.inl h))

/-- What one step does to the two sets and to the history: what was stored is
stored after it, but for what it finishes. -/
structure Keeps (dec : Decoder) (s t : LeaseQueue ν) (events : List (LeaseEvent ν)) : Prop where
  history : t.history = events ++ s.history
  stored : ∀ m, s.Stored m → t.Stored m ∨ ∃ n, .done n m ∈ events
  put : ∀ m, .put m ∈ events → events = [.put m] ∧ t.Stored m
  done : ∀ n m, .done n m ∈ events → events = [.done n m] ∧ .take n m ∈ s.history
  take : ∀ n m, .take n m ∈ events → dec.Decodes m
  leases : ∀ l ∈ t.leases, ∀ m ∈ l.request.leaseToken,
    .take l.node m ∈ events ∨ ∃ l' ∈ s.leases, l'.node = l.node ∧ m ∈ l'.request.leaseToken
  calls : ∀ call ∈ t.calls, call ∈ s.calls ∨ ∀ m ∈ call.popped, t.Stored m

/-- A step that puts and finishes nothing and returns no request. -/
theorem keeps_nil {s t : LeaseQueue ν} (hh : t.history = s.history) (hs : ∀ m, s.Stored m → t.Stored m)
    (hl : ∀ l ∈ t.leases, ∃ l' ∈ s.leases, l'.node = l.node ∧ l'.request = l.request)
    (hc : t.calls = s.calls) : Keeps dec s t [] := by
  refine ⟨hh, fun m h => .inl (hs m h), nofun, nofun, nofun, fun l hlt m hm => .inr ?_,
    fun call h => .inl (hc ▸ h)⟩
  obtain ⟨l', hl', hn, hr⟩ := hl l hlt
  exact ⟨l', hl', hn, hr ▸ hm⟩

theorem keeps_take (n : ν) (count : Nat) (hl : 0 < st.SPIDER_TASK_LEASE) :
    Keeps dec s (s.take st dec n count) ((tokensTaken st dec s count).map (.take n)) := by
  refine ⟨rfl, fun m h => .inl (stored_take n count hl h), fun m hm => ?_, fun _ m hm => ?_, fun _ m hm => ?_,
    fun l hlt m hm => ?_, fun call hc => ?_⟩
  · obtain ⟨_, -, h⟩ := List.mem_map.mp hm
    cases h
  · obtain ⟨_, -, h⟩ := List.mem_map.mp hm
    cases h
  · obtain ⟨_, hm', h⟩ := List.mem_map.mp hm
    cases h
    exact decodes_of_taken hm'
  · rcases List.mem_append.mp hlt with hlt | hlt
    · exact .inr ⟨l, hlt, rfl, hm⟩
    · obtain ⟨r, hr, rfl⟩ := List.mem_map.mp hlt
      exact .inl (List.mem_map_of_mem (List.mem_filterMap.mpr ⟨r, hr, hm⟩))
  · rw [calls_take] at hc
    rcases List.mem_append.mp hc with hc | hc
    · exact .inl hc
    · rw [List.mem_singleton.mp hc]
      exact .inr fun m hm => stored_popped n count hl hm

variable [DecidableEq ν]

theorem keeps_done (n : ν) (i : Nat)
    (hI : ∀ l ∈ s.leases, ∀ m ∈ l.request.leaseToken, .take l.node m ∈ s.history)
    (h : s.done n i = some t) : ∃ events, Keeps dec s t events := by
  simp only [LeaseQueue.done, Option.bind_eq_bind, Option.bind_eq_some_iff] at h
  obtain ⟨l, hli, h⟩ := h
  split at h
  · rename_i hn
    cases h
    have hmem : l ∈ s.leases := List.mem_of_getElem? hli
    refine ⟨l.request.leaseToken.toList.map (.done n), rfl, fun m hm => ?_, fun m hm => ?_, fun n' m hm => ?_,
      fun n' m hm => ?_, fun l' hl' m hm => .inr ?_, fun call hc => .inl hc⟩
    · by_cases hd : l.request.leaseToken = some m
      · exact .inr ⟨n, by rw [hd]; exact List.mem_singleton.mpr rfl⟩
      · refine .inl (hm.imp (fun h => ?_) fun h => mem_inflight_done.mpr ⟨h, fun e => hd e.1⟩)
        show m ∈ (s.queue.done l.request).queue
        rwa [queue_done]
    · obtain ⟨_, -, h⟩ := List.mem_map.mp hm
      cases h
    · obtain ⟨m', hm', h⟩ := List.mem_map.mp hm
      cases h
      have ht := Option.mem_toList.mp hm'
      refine ⟨by rw [ht]; rfl, hn ▸ hI l hmem m ht⟩
    · obtain ⟨_, -, h⟩ := List.mem_map.mp hm
      cases h
    · rcases List.mem_or_eq_of_mem_set hl' with hl' | rfl
      · exact ⟨l', hl', rfl, hm⟩
      · exact ⟨l, hmem, rfl, hm⟩
  · cases h

theorem keeps_step {a : LeaseAct ν} (hl : 0 < st.SPIDER_TASK_LEASE)
    (hI : ∀ l ∈ s.leases, ∀ m ∈ l.request.leaseToken, .take l.node m ∈ s.history)
    (h : step st codec dec s a = some t) : ∃ events, Keeps dec s t events := by
  cases a with
  | put n r =>
    simp only [step, Option.ite_none_left_eq_some, Option.some.injEq] at h
    obtain ⟨-, rfl⟩ := h
    refine ⟨[.put (codec.dumps r)], rfl, fun m hm => .inl (stored_put r hm), fun m hm => ?_, fun n m hm => ?_,
      fun n m hm => ?_, fun l hlt m hm => .inr ⟨l, hlt, rfl, hm⟩, fun call hc => .inl hc⟩
    · obtain rfl := (LeaseEvent.put.inj (List.mem_singleton.mp hm))
      exact ⟨rfl, .inl (mem_queue_put.mpr (.inl rfl))⟩
    · cases List.mem_singleton.mp hm
    · cases List.mem_singleton.mp hm
  | getBatch n count =>
    simp only [step, Option.ite_none_left_eq_some, Option.some.injEq] at h
    obtain ⟨-, rfl⟩ := h
    exact ⟨_, keeps_take n count hl⟩
  | get n =>
    simp only [step, Option.ite_none_left_eq_some, Option.some.injEq] at h
    obtain ⟨-, rfl⟩ := h
    exact ⟨_, keeps_take n 1 hl⟩
  | done n i =>
    simp only [step, Option.ite_none_left_eq_some] at h
    exact keeps_done n i hI h.2
  | renew n is =>
    simp only [step, Option.ite_none_left_eq_some, Option.some.injEq] at h
    obtain ⟨-, rfl⟩ := h
    refine ⟨[], keeps_nil rfl (fun m hm => ?_) (fun l hlt => ?_) rfl⟩
    · exact hm.imp (fun h => queue_renew.symm ▸ h) mem_inflight_renew.mpr
    · obtain ⟨i, hi, rfl⟩ := List.mem_mapIdx.mp hlt
      refine ⟨s.leases[i], List.getElem_mem hi, ?_⟩
      unfold renewed
      split <;> exact ⟨rfl, rfl⟩
  | reclaimExpired n limit =>
    simp only [step, Option.ite_none_left_eq_some, Option.some.injEq] at h
    obtain ⟨-, rfl⟩ := h
    exact ⟨[], keeps_nil rfl (fun m hm => stored_reclaimExpired limit hm) (fun l hlt => ⟨l, hlt, rfl, rfl⟩) rfl⟩
  | tick time =>
    cases h
    exact ⟨[], keeps_nil rfl (fun m hm => hm) (fun l hlt => ⟨l, hlt, rfl, rfl⟩) rfl⟩
  | die n =>
    cases h
    exact ⟨[], keeps_nil rfl (fun m hm => hm) (fun l hlt => ⟨l, hlt, rfl, rfl⟩) rfl⟩

/-- What the history says of the sets and of the requests that nodes hold. -/
structure Recorded (dec : Decoder) (s : LeaseQueue ν) : Prop where
  put : ∀ later earlier m, s.history = later ++ .put m :: earlier →
    s.Stored m ∨ ∃ n, .done n m ∈ later
  done : ∀ later earlier n m, s.history = later ++ .done n m :: earlier → .take n m ∈ earlier
  take : ∀ n m, .take n m ∈ s.history → dec.Decodes m
  leases : ∀ l ∈ s.leases, ∀ m ∈ l.request.leaseToken, .take l.node m ∈ s.history
  calls : ∀ call ∈ s.calls, ∀ m ∈ call.popped, ¬ dec.Decodes m → s.Stored m

omit [DecidableEq ν] in
/-- An entry of a history is one of the new ones or one of the old ones. -/
theorem split_history {events history later earlier : List (LeaseEvent ν)} {e : LeaseEvent ν}
    (h : events ++ history = later ++ e :: earlier) :
    (∃ later', later = events ++ later' ∧ history = later' ++ e :: earlier) ∨
      ∃ rest, events = later ++ e :: rest ∧ earlier = rest ++ history := by
  rcases List.append_eq_append_iff.mp h with ⟨later', rfl, hh⟩ | ⟨rest, rfl, hh⟩
  · exact .inl ⟨later', rfl, hh⟩
  · cases rest with
    | nil => exact .inl ⟨[], by simp, hh.symm⟩
    | cons x rest =>
      obtain ⟨rfl, rfl⟩ := List.cons.inj hh
      exact .inr ⟨rest, rfl, rfl⟩

omit [DecidableEq ν] in
theorem Recorded.step {events : List (LeaseEvent ν)} (hs : Recorded dec s) (h : Keeps dec s t events) :
    Recorded dec t := by
  refine ⟨fun later earlier m hp => ?_, fun later earlier n m hd => ?_, fun n m ht => ?_, fun l hl m hm => ?_,
    fun call hc m hm hd => ?_⟩
  · rcases split_history (h.history.symm.trans hp) with ⟨later', rfl, hh⟩ | ⟨rest, he, -⟩
    · rcases hs.put later' earlier m hh with hst | ⟨n, hn⟩
      · rcases h.stored m hst with hst | ⟨n, hn⟩
        · exact .inl hst
        · exact .inr ⟨n, List.mem_append_left _ hn⟩
      · exact .inr ⟨n, List.mem_append_right _ hn⟩
    · exact .inl (h.put m (he ▸ List.mem_append_right _ List.mem_cons_self)).2
  · rcases split_history (h.history.symm.trans hd) with ⟨later', rfl, hh⟩ | ⟨rest, he, hr⟩
    · exact hs.done later' earlier n m hh
    · have ht := (h.done n m (he ▸ List.mem_append_right _ List.mem_cons_self)).2
      exact hr ▸ List.mem_append_right _ ht
  · rw [h.history] at ht
    rcases List.mem_append.mp ht with ht | ht
    · exact h.take n m ht
    · exact hs.take n m ht
  · rw [h.history]
    rcases h.leases l hl m hm with he | ⟨l', hl', hn, hm'⟩
    · exact List.mem_append_left _ he
    · exact List.mem_append_right _ (hn ▸ hs.leases l' hl' m hm')
  · rcases h.calls call hc with hc | hst
    · -- nobody has taken a member that does not decode, so nobody finishes it
      refine (h.stored m (hs.calls call hc m hm hd)).resolve_right fun ⟨n, hn⟩ => ?_
      exact hd (hs.take n m (h.done n m hn).2)
    · exact hst m hm

theorem recorded_reachable (hl : 0 < st.SPIDER_TASK_LEASE) (h : (machine st codec dec).Reachable s) :
    Recorded dec s := by
  refine h.induct (I := Recorded dec) (fun s hs => ?_) fun s a t hi _ ht => ?_
  · obtain ⟨hleases, hhist, hcalls⟩ := hs
    refine ⟨fun later earlier m hp => ?_, fun later earlier n m hp => ?_, fun n m ht => ?_, fun l hlt => ?_,
      fun call hc => ?_⟩
    · exact absurd (hhist.symm.trans hp) (by simp)
    · exact absurd (hhist.symm.trans hp) (by simp)
    · exact absurd (hhist ▸ ht) List.not_mem_nil
    · exact absurd (hleases ▸ hlt) List.not_mem_nil
    · exact absurd (hcalls ▸ hc) List.not_mem_nil
  · obtain ⟨events, hk⟩ := keeps_step hl hi.leases ht
    exact hi.step hk

/-- Every member that was put is in `z_requests` or `z_inflight` unless a node
has called `done` on it since, each `done` is of a node that had taken the
member before, and a renewal adds nothing to `z_inflight`. -/
theorem conserved (hl : 0 < st.SPIDER_TASK_LEASE) (h : (machine st codec dec).Reachable s) :
    (∀ later earlier m, s.history = later ++ .put m :: earlier →
      m ∈ s.queue.queue ∨ m ∈ s.queue.inflight ∨ ∃ n, .done n m ∈ later) ∧
    (∀ later earlier n m, s.history = later ++ .done n m :: earlier → .take n m ∈ earlier) ∧
    ∀ n is t, (machine st codec dec).step s (.renew n is) = some t →
      ∀ m, m ∈ t.queue.inflight → m ∈ s.queue.inflight := by
  have hr : Recorded dec s := recorded_reachable hl h
  refine ⟨fun later earlier m hp => or_assoc.mp (hr.put later earlier m hp), hr.done, fun n is t ht m hm => ?_⟩
  have ht : step st codec dec s (.renew n is) = some t := ht
  simp only [step, Option.ite_none_left_eq_some, Option.some.injEq] at ht
  obtain ⟨-, rfl⟩ := ht
  exact mem_inflight_renew.mp hm

/-- A member is a URL, which `bad` is not. -/
def urlDecoder : Decoder where
  loads text := if text = "bad" then .error "JSONDecodeError" else .ok (.dict [(.str "url", .str text)])
  upper text := text

def urlDumps : Codec where
  dumps r := r.url
  loads text := { url := text }

def after (run : List (LeaseAct Bool)) : LeaseQueue Bool :=
  ((machine {} urlDumps urlDecoder).exec {} run).getD {}

theorem exec_after {run : List (LeaseAct Bool)}
    (h : ((machine {} urlDumps urlDecoder).exec {} run).isSome = true) :
    (machine {} urlDumps urlDecoder).exec {} run = some (after run) := Machine.exec_getD h _

/-- A node takes the request; its lease ends, and the other node takes it. -/
def retaken : List (LeaseAct Bool) :=
  [.put false { url := "a" }, .getBatch false 1, .tick 601000000, .reclaimExpired true 500, .getBatch true 1]

/-- The first node, whose lease has ended, renews and then finishes the request
that the second one holds. -/
theorem conserved_retaken :
    (∃ n, LeaseEvent.done n "a" ∈ (after (retaken ++ [.renew false [0], .done false 0])).history.dropLast) ∧
      .take false "a" ∈ (after retaken).history := by
  have hr : (machine {} urlDumps urlDecoder).Reachable (after (retaken ++ [LeaseAct.renew false [0], .done false 0])) :=
    .exec (.start ⟨rfl, rfl, rfl⟩) (exec_after (by decide +kernel))
  obtain ⟨hput, hdone, -⟩ := conserved (by decide) hr
  refine ⟨?_, ?_⟩
  · rcases hput [.done false "a", .take true "a", .take false "a"] [] "a" (by decide +kernel) with h | h | h
    · exact absurd h (by decide +kernel)
    · exact absurd h (by decide +kernel)
    · exact h
  · exact hdone [] _ false "a" (by decide +kernel)

end LeaseQueue

end Netspy
