import Netspy.Proof.LeaseQueue

/-!
# Members that do not decode

`_take` decodes after its script has popped the members and recorded their
leases, and the first member that does not decode ends it with an exception. A
call is as it should be exactly if everything it popped decodes
(`contained_iff`); with leases a member that does not decode stays in the two
sets for good (`undecodable_stays`).
-/

namespace Netspy

namespace LeaseQueue

open RedisTaskQueue

variable {ν : Type} {st : Setting} {codec : Codec} {dec : Decoder} {s t : LeaseQueue ν}

/-- Every call has returned the requests of those members it popped that decode,
each with its token, and the others it popped are in neither set. -/
def Contained (dec : Decoder) (s : LeaseQueue ν) : Prop :=
  ∀ call ∈ s.calls,
    (∃ rs, call.result = .ok rs ∧ (call.popped.filter dec.Decodes).mapM (returned dec) = .ok rs) ∧
    ∀ m ∈ call.popped, ¬ dec.Decodes m → m ∉ s.queue.queue ∧ m ∉ s.queue.inflight

/-- Each call has decoded what it popped. -/
def Decoded (dec : Decoder) (s : LeaseQueue ν) : Prop :=
  ∀ call ∈ s.calls, call.result = call.popped.mapM (returned dec)

theorem decoded_take (n : ν) (count : Nat) (hs : s.Decoded dec) : (s.take st dec n count).Decoded dec := by
  intro call hc
  rw [calls_take] at hc
  rcases List.mem_append.mp hc with hc | hc
  · exact hs call hc
  · rw [List.mem_singleton.mp hc]

variable [DecidableEq ν]

theorem decoded_step {a : LeaseAct ν} (hs : s.Decoded dec) (h : step st codec dec s a = some t) :
    t.Decoded dec := by
  cases a with
  | getBatch n count =>
    simp only [step, Option.ite_none_left_eq_some, Option.some.injEq] at h
    exact h.2 ▸ decoded_take n count hs
  | get n =>
    simp only [step, Option.ite_none_left_eq_some, Option.some.injEq] at h
    exact h.2 ▸ decoded_take n 1 hs
  | done n i =>
    simp only [step, Option.ite_none_left_eq_some, done, Option.bind_eq_bind, Option.bind_eq_some_iff] at h
    obtain ⟨-, l, -, h⟩ := h
    split at h
    · cases h
      exact hs
    · cases h
  | put n r | renew n is | reclaimExpired n limit =>
    simp only [step, Option.ite_none_left_eq_some, Option.some.injEq] at h
    exact h.2 ▸ hs
  | tick time | die n =>
    cases h
    exact hs

theorem decoded_reachable (h : (machine st codec dec).Reachable s) : s.Decoded dec := by
  refine h.induct (I := Decoded dec) (fun s hs => ?_) fun s a t hi _ ht => decoded_step hi ht
  exact fun call hc => absurd (hs.2.2 ▸ hc) List.not_mem_nil

/-- With leases, a member that a call has popped and that does not decode is in
the queue or in flight from then on. -/
theorem undecodable_stays (hl : 0 < st.SPIDER_TASK_LEASE) (h : (machine st codec dec).Reachable s) :
    ∀ call ∈ s.calls, ∀ m ∈ call.popped, ¬ dec.Decodes m → m ∈ s.queue.queue ∨ m ∈ s.queue.inflight :=
  (recorded_reachable hl h).calls

/-- In every run the calls of `_take` contain what does not decode exactly if they
have popped nothing but what decodes. -/
theorem contained_iff (h : (machine st codec dec).Reachable s) :
    s.Contained dec ↔ ∀ call ∈ s.calls, ∀ m ∈ call.popped, dec.Decodes m := by
  have hs : s.Decoded dec := decoded_reachable h
  refine ⟨fun hc call hm => ?_, fun hd call hm => ⟨?_, fun m hp hn => absurd (hd call hm m hp) hn⟩⟩
  · -- it has returned, so it got through all of them
    obtain ⟨⟨rs, hr, -⟩, -⟩ := hc call hm
    refine (isOk_returned dec).mp ?_
    rw [← hs call hm, hr]
    rfl
  · have hall : call.popped.filter dec.Decodes = call.popped :=
      List.filter_eq_self.mpr fun m hp => decide_eq_true (hd call hm m hp)
    have hok := (isOk_returned dec).mpr (hd call hm)
    rw [hall, hs call hm]
    cases hr : call.popped.mapM (returned dec) with
    | error e => rw [hr] at hok; cases hok
    | ok rs => exact ⟨rs, rfl, rfl⟩

/-- A member that is no JSON among the others. -/
def mixedQueue : LeaseQueue Bool where
  queue := { queue := ((∅ : ZSet String).zadd "a" 300).zadd "bad" 300 }

def afterMixed (run : List (LeaseAct Bool)) : LeaseQueue Bool :=
  ((machine {} urlDumps urlDecoder).exec mixedQueue run).getD {}

theorem contained_iff_oneCall :
    (afterMixed [.getBatch false 1]).Contained urlDecoder :=
  (@contained_iff Bool {} urlDumps urlDecoder _ _ (.exec (.start ⟨rfl, rfl, rfl⟩)
    (Machine.exec_getD (by decide +kernel) _))).mpr (by decide +kernel)

/-- The batch has both of them: the call raises, and when the leases have ended
both are in the queue again. -/
theorem mixedQueue_not_contained :
    ¬ ∀ s : LeaseQueue Bool, (machine {} urlDumps urlDecoder).Reachable s → s.Contained urlDecoder := by
  intro h
  have hr : (machine {} urlDumps urlDecoder).Reachable
      (afterMixed [.getBatch false 2, .tick 601000000, .reclaimExpired true 500]) :=
    .exec (.start ⟨rfl, rfl, rfl⟩) (Machine.exec_getD (by decide +kernel) _)
  obtain ⟨-, hc⟩ := h _ hr ⟨["a", "bad"], .error "JSONDecodeError"⟩ (by decide +kernel)
  exact (hc "bad" (by decide) (by decide +kernel)).1 (by decide +kernel)

end LeaseQueue

end Netspy
