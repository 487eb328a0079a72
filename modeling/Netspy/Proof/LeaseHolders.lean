import Netspy.Proof.LeaseQueue

/-!
# A lease and its holder

While a request is not finished and the lease under which it was taken has not
ended, its member is in `z_inflight`, in the runs in which nobody else's step
takes it out (`held_in_flight`): a member is known by its payload only, so a
`done` of another holder of the payload, one whose lease has ended or one that
took a second put of it, also removes it (`staleDone_not_protected`).
-/

namespace Netspy

/-- The lease has not ended, and `done` was not called. -/
def Lease.Live {ν : Type} (l : Lease ν) (now : Nat) : Prop := l.done = false ∧ now < l.deadline

instance {ν : Type} (l : Lease ν) (now : Nat) : Decidable (l.Live now) :=
  inferInstanceAs (Decidable (l.done = false ∧ now < l.deadline))

/-- Time passing ends leases and makes none live. -/
theorem Lease.Live.mono {ν : Type} {l : Lease ν} {a b : Nat} (h : a ≤ b) (hl : l.Live b) : l.Live a :=
  ⟨hl.1, Nat.lt_of_le_of_lt h hl.2⟩

namespace LeaseQueue

open RedisTaskQueue

variable {ν : Type} {st : Setting} {codec : Codec} {dec : Decoder} {s t : LeaseQueue ν}

/-- The member of every live lease is in flight. -/
def Protected (s : LeaseQueue ν) : Prop :=
  ∀ l ∈ s.leases, l.Live s.now → ∀ m ∈ l.request.leaseToken, m ∈ s.queue.inflight

instance (s : LeaseQueue ν) : Decidable s.Protected :=
  inferInstanceAs (Decidable (∀ l ∈ s.leases, l.Live s.now → ∀ m ∈ l.request.leaseToken, m ∈ s.queue.inflight))

/-- No lease but lease `i` is a live lease of the member. -/
def Sole (s : LeaseQueue ν) (i : Nat) (m : String) : Prop :=
  ∀ j < s.leases.length, j ≠ i → ∀ l ∈ s.leases[j]?, l.Live s.now → l.request.leaseToken ≠ some m

instance (s : LeaseQueue ν) (i : Nat) (m : String) : Decidable (s.Sole i m) :=
  inferInstanceAs (Decidable (∀ j < s.leases.length, j ≠ i → ∀ l ∈ s.leases[j]?, l.Live s.now →
    l.request.leaseToken ≠ some m))

/-- The step takes nothing out of flight that a live lease needs: `done` is not
called on a member of which there is another live lease, and to a reclaim, which
rounds both the time and the end of a lease, no live lease has ended. -/
def Undisturbed (s : LeaseQueue ν) : LeaseAct ν → Prop
  | .done _ i => ∀ l ∈ s.leases[i]?, ∀ m ∈ l.request.leaseToken, m ≠ "" → s.Sole i m
  | .reclaimExpired _ limit => ∀ l ∈ s.leases, l.Live s.now →
      ∀ m ∈ l.request.leaseToken, m ∉ s.queue.expired s.now limit
  | _ => True

instance (s : LeaseQueue ν) : ∀ a : LeaseAct ν, Decidable (s.Undisturbed a)
  | .done _ i => inferInstanceAs (Decidable (∀ l ∈ s.leases[i]?, ∀ m ∈ l.request.leaseToken, m ≠ "" → s.Sole i m))
  | .reclaimExpired _ limit => inferInstanceAs (Decidable (∀ l ∈ s.leases, l.Live s.now →
      ∀ m ∈ l.request.leaseToken, m ∉ s.queue.expired s.now limit))
  | .put .. => isTrue trivial
  | .getBatch .. => isTrue trivial
  | .get .. => isTrue trivial
  | .renew .. => isTrue trivial
  | .tick .. => isTrue trivial
  | .die .. => isTrue trivial

/-- The member is in flight with a score that is at least the deadline. -/
def Scored (s : LeaseQueue ν) (m : String) (deadline : Nat) : Prop :=
  ∃ y, (y, m) ∈ s.queue.inflight.rows ∧ (toMillis deadline : Int) ≤ y

structure Secured (st : Setting) (s : LeaseQueue ν) : Prop where
  scored : ∀ l ∈ s.leases, l.Live s.now → ∀ m ∈ l.request.leaseToken, s.Scored m l.deadline
  deadline : ∀ l ∈ s.leases, l.deadline ≤ s.now + st.SPIDER_TASK_LEASE

theorem Secured.protected (h : Secured st s) : s.Protected := fun l hl hlive m hm => by
  obtain ⟨y, hy, -⟩ := h.scored l hl hlive m hm
  exact ZSet.mem_of_row hy

/-! ## What each call does to the scores -/

theorem inflight_take (n : ν) (count : Nat) (hl : st.SPIDER_TASK_LEASE ≠ 0) :
    (s.take st dec n count).queue.inflight = (s.popped st count).foldl
      (fun z m => z.zadd m (toMillis (s.now + st.SPIDER_TASK_LEASE))) s.queue.inflight := by
  rw [queue_take]
  unfold popped RedisTaskQueue.take
  dsimp only
  rw [if_neg hl]

/-- A take gives what it takes the latest deadline that there is. -/
theorem scored_take {m : String} {d : Nat} (n : ν) (count : Nat) (hl : st.SPIDER_TASK_LEASE ≠ 0)
    (hd : d ≤ s.now + st.SPIDER_TASK_LEASE) (h : m ∈ s.popped st count ∨ s.Scored m d) :
    (s.take st dec n count).Scored m d := by
  have hle : (toMillis d : Int) ≤ toMillis (s.now + st.SPIDER_TASK_LEASE) := by
    exact_mod_cast toMillis_mono hd
  unfold Scored
  rw [inflight_take n count hl]
  by_cases hm : m ∈ s.popped st count
  · exact ⟨_, ZSet.row_foldl_zadd.mpr (.inl ⟨hm, rfl⟩), hle⟩
  · obtain ⟨y, hy, hyd⟩ := h.resolve_left hm
    exact ⟨y, ZSet.row_foldl_zadd.mpr (.inr ⟨hm, hy⟩), hyd⟩

theorem secured_take (n : ν) (count : Nat) (hs : Secured st s) : Secured st (s.take st dec n count) := by
  have hnew {l : Lease ν} (hlt : l ∈ (s.take st dec n count).leases) :
      l ∈ s.leases ∨ (l.deadline = s.now + st.SPIDER_TASK_LEASE ∧
        ∀ m ∈ l.request.leaseToken, m ∈ s.popped st count) := by
    rcases List.mem_append.mp hlt with hlt | hlt
    · exact .inl hlt
    · obtain ⟨r, hr, rfl⟩ := List.mem_map.mp hlt
      refine .inr ⟨rfl, fun m hm => ?_⟩
      exact tokensTaken_subset count (List.mem_filterMap.mpr ⟨r, hr, hm⟩)
  refine ⟨fun l hlt hlive m hm => ?_, fun l hlt => ?_⟩
  · -- without leases none is live
    have hl : st.SPIDER_TASK_LEASE ≠ 0 := fun hz => by
      have hlt' : s.now < l.deadline := hlive.2
      rcases hnew hlt with hlt | ⟨hd, -⟩
      · have hdl := hs.deadline l hlt
        omega
      · omega
    rcases hnew hlt with hlt | ⟨hd, hp⟩
    · exact scored_take n count hl (hs.deadline l hlt) (.inr (hs.scored l hlt hlive m hm))
    · exact scored_take n count hl hd.le (.inl (hp m hm))
  · rcases hnew hlt with hlt | ⟨hd, -⟩
    · exact hs.deadline l hlt
    · exact hd.le

theorem row_done {q : RedisTaskQueue} {r : DecodedRequest} {m : String} {y : Int}
    (h : (y, m) ∈ q.inflight.rows) (hr : ¬ (r.leaseToken = some m ∧ m ≠ "")) :
    (y, m) ∈ (q.done r).inflight.rows := by
  unfold RedisTaskQueue.done
  split
  · rename_i token ht
    split
    · exact h
    · rename_i hne
      exact ZSet.row_zrem.mpr ⟨h, fun e => hr ⟨e ▸ ht, e ▸ hne⟩⟩
  · exact h

/-- A renewal lowers no score, as no deadline is later than its own. -/
theorem row_renew {q : RedisTaskQueue} {now d : Nat} {tokens : List String} {m : String}
    (hd : d ≤ now + st.SPIDER_TASK_LEASE)
    (h : ∃ y, (y, m) ∈ q.inflight.rows ∧ (toMillis d : Int) ≤ y) :
    ∃ y, (y, m) ∈ (q.renew st now tokens).inflight.rows ∧ (toMillis d : Int) ≤ y := by
  obtain ⟨y, hy, hyd⟩ := h
  unfold RedisTaskQueue.renew
  split
  · exact ⟨y, hy, hyd⟩
  · by_cases hm : m ∈ tokens ∧ m ∈ q.inflight
    · refine ⟨_, ZSet.row_foldl_zaddXX.mpr (.inl ⟨hm.1, hm.2, rfl⟩), ?_⟩
      exact_mod_cast toMillis_mono hd
    · exact ⟨y, ZSet.row_foldl_zaddXX.mpr (.inr ⟨hm, hy⟩), hyd⟩

theorem row_renewed {q : RedisTaskQueue} {now : Nat} {tokens : List String} {m : String}
    (hl : st.SPIDER_TASK_LEASE ≠ 0) (hm : m ∈ tokens) (hq : m ∈ q.inflight) :
    ((toMillis (now + st.SPIDER_TASK_LEASE) : Int), m) ∈ (q.renew st now tokens).inflight.rows := by
  unfold RedisTaskQueue.renew
  rw [if_neg hl]
  exact ZSet.row_foldl_zaddXX.mpr (.inl ⟨hm, hq, rfl⟩)

theorem row_reclaimExpired {q : RedisTaskQueue} {now limit : Nat} {works : Bool} {m : String} {y : Int}
    (h : (y, m) ∈ q.inflight.rows) (hm : m ∉ q.expired now limit) :
    (y, m) ∈ (q.reclaimExpired st now limit works).2.inflight.rows := by
  unfold reclaimExpired
  split
  · exact h
  · exact ZSet.row_foldl_zrem.mpr ⟨h, hm⟩

/-! ## The steps -/

variable [DecidableEq ν]

/-- What is left of a lease, or of another one, after `done`. -/
theorem leases_done {n : ν} {i : Nat} (h : s.done n i = some t) :
    ∃ l, s.leases[i]? = some l ∧ t.queue = s.queue.done l.request ∧ t.now = s.now ∧
      t.leases = s.leases.set i { l with done := true } := by
  simp only [LeaseQueue.done, Option.bind_eq_bind, Option.bind_eq_some_iff] at h
  obtain ⟨l, hli, h⟩ := h
  split at h
  · cases h
    exact ⟨l, hli, rfl, rfl, rfl⟩
  · cases h

theorem secured_done {n : ν} {i : Nat} (hs : Secured st s) (hg : s.Undisturbed (.done n i))
    (h : s.done n i = some t) : Secured st t := by
  obtain ⟨l, hli, hq, hnow, hleases⟩ := leases_done h
  have hother {l' : Lease ν} (hl' : l' ∈ t.leases) :
      l' = { l with done := true } ∨ ∃ j, j ≠ i ∧ s.leases[j]? = some l' := by
    obtain ⟨j, hj⟩ := List.mem_iff_getElem?.mp (hleases ▸ hl')
    by_cases hij : i = j
    · subst hij
      rw [List.getElem?_set_self (List.getElem?_eq_some_iff.mp hli).1] at hj
      exact .inl (Option.some.inj hj).symm
    · rw [List.getElem?_set_ne hij] at hj
      exact .inr ⟨j, fun e => hij e.symm, hj⟩
  refine ⟨fun l' hl' hlive m hm => ?_, fun l' hl' => ?_⟩
  · rw [hnow] at hlive
    rcases hother hl' with rfl | ⟨j, hij, hj⟩
    · cases hlive.1
    · obtain ⟨y, hy, hyd⟩ := hs.scored l' (List.mem_of_getElem? hj) hlive m hm
      refine ⟨y, hq ▸ row_done hy fun ⟨ht, hne⟩ => ?_, hyd⟩
      exact hg l hli m ht hne j (List.getElem?_eq_some_iff.mp hj).1 hij l' hj hlive hm
  · rw [hnow]
    rcases hother hl' with rfl | ⟨j, -, hj⟩
    · exact hs.deadline l (List.mem_of_getElem? hli)
    · exact hs.deadline l' (List.mem_of_getElem? hj)

theorem mem_tokens {n : ν} {is : List Nat} {i : Nat} {l : Lease ν} {m : String} (hl : s.leases[i]? = some l)
    (hn : l.node = n) (hi : i ∈ is) (hm : m ∈ l.request.leaseToken) (hne : m ≠ "") :
    m ∈ tokensOf (s.requestsOf n is) := by
  refine List.mem_filter.mpr ⟨List.mem_filterMap.mpr ⟨l.request, ?_, hm⟩, by simpa using hne⟩
  exact List.mem_filterMap.mpr ⟨l, List.mem_filterMap.mpr ⟨i, hi, hl⟩, if_pos hn⟩

theorem secured_renew (n : ν) (is : List Nat) (hs : Secured st s) : Secured st (s.renew st n is) := by
  have hcases {l : Lease ν} (hl : l ∈ (s.renew st n is).leases) : ∃ i l₀, s.leases[i]? = some l₀ ∧
      l = s.renewed st n is i l₀ := by
    obtain ⟨i, hi, rfl⟩ := List.mem_mapIdx.mp hl
    exact ⟨i, s.leases[i], List.getElem?_eq_getElem hi, rfl⟩
  refine ⟨fun l hlt hlive m hm => ?_, fun l hlt => ?_⟩
  · obtain ⟨i, l₀, hi, rfl⟩ := hcases hlt
    have hmem := List.mem_of_getElem? hi
    unfold renewed at hlive hm ⊢
    split at hlive
    · rename_i hr
      obtain ⟨hn, his, token, ht, hne, hin⟩ := hr
      rw [if_pos ⟨hn, his, token, ht, hne, hin⟩] at hm ⊢
      obtain rfl : token = m := Option.some.inj (ht.symm.trans hm)
      have hl : st.SPIDER_TASK_LEASE ≠ 0 := fun hz => by
        have hlt' : s.now < s.now + st.SPIDER_TASK_LEASE := hlive.2
        omega
      exact ⟨_, row_renewed hl (mem_tokens hi hn his ht hne) hin, le_rfl⟩
    · rename_i hr
      rw [if_neg hr] at hm ⊢
      exact row_renew (hs.deadline l₀ hmem) (hs.scored l₀ hmem hlive m hm)
  · obtain ⟨i, l₀, hi, rfl⟩ := hcases hlt
    unfold renewed
    split
    · exact le_rfl
    · exact hs.deadline l₀ (List.mem_of_getElem? hi)

theorem secured_step {a : LeaseAct ν} (hs : Secured st s) (hg : s.Undisturbed a)
    (h : step st codec dec s a = some t) : Secured st t := by
  cases a with
  | put n r =>
    simp only [step, Option.ite_none_left_eq_some, Option.some.injEq] at h
    obtain ⟨-, rfl⟩ := h
    exact ⟨hs.scored, hs.deadline⟩
  | getBatch n count =>
    simp only [step, Option.ite_none_left_eq_some, Option.some.injEq] at h
    obtain ⟨-, rfl⟩ := h
    exact secured_take n count hs
  | get n =>
    simp only [step, Option.ite_none_left_eq_some, Option.some.injEq] at h
    obtain ⟨-, rfl⟩ := h
    exact secured_take n 1 hs
  | done n i =>
    simp only [step, Option.ite_none_left_eq_some] at h
    exact secured_done hs hg h.2
  | renew n is =>
    simp only [step, Option.ite_none_left_eq_some, Option.some.injEq] at h
    obtain ⟨-, rfl⟩ := h
    exact secured_renew n is hs
  | reclaimExpired n limit =>
    simp only [step, Option.ite_none_left_eq_some, Option.some.injEq] at h
    obtain ⟨-, rfl⟩ := h
    refine ⟨fun l hl hlive m hm => ?_, hs.deadline⟩
    obtain ⟨y, hy, hyd⟩ := hs.scored l hl hlive m hm
    exact ⟨y, row_reclaimExpired hy (hg l hl hlive m hm), hyd⟩
  | tick time =>
    cases h
    refine ⟨fun l hl hlive m hm => ?_, fun l hl => ?_⟩
    · exact hs.scored l hl (hlive.mono (Nat.le_add_right _ _)) m hm
    · exact (hs.deadline l hl).trans (Nat.add_le_add_right (Nat.le_add_right _ _) _)
  | die n =>
    cases h
    exact ⟨hs.scored, hs.deadline⟩

theorem secured_within (h : (machine st codec dec).Within Undisturbed s) : Secured st s := by
  refine h.induct (I := Secured st) (fun s hs => ?_) fun s a t hi hg ht => secured_step hi hg ht
  obtain ⟨hleases, -⟩ := hs
  exact ⟨fun l hl => absurd (hleases ▸ hl) List.not_mem_nil, fun l hl => absurd (hleases ▸ hl) List.not_mem_nil⟩

/-- A step that disturbs a live lease leaves it without its member. -/
theorem undisturbed_of_protected {a : LeaseAct ν} (hs : Secured st s) (ht : t.Protected)
    (h : step st codec dec s a = some t) : s.Undisturbed a := by
  cases a with
  | done n i =>
    simp only [step, Option.ite_none_left_eq_some] at h
    obtain ⟨l, hli, hq, hnow, hleases⟩ := leases_done h.2
    intro l₁ hl₁ m hm hne j hj hij l' hl' hlive hm'
    obtain rfl : l = l₁ := Option.some.inj (hli.symm.trans hl₁)
    have hmem : l' ∈ t.leases := by
      rw [hleases]
      exact List.mem_iff_getElem?.mpr ⟨j, (List.getElem?_set_ne (Ne.symm hij)).trans hl'⟩
    have hin := ht l' hmem (hnow ▸ hlive) m hm'
    rw [hq] at hin
    exact (mem_inflight_done.mp hin).2 ⟨hm, hne⟩
  | reclaimExpired n limit =>
    simp only [step, Option.ite_none_left_eq_some, Option.some.injEq] at h
    obtain ⟨-, rfl⟩ := h
    intro l hl hlive m hm he
    have hpos : 0 < st.SPIDER_TASK_LEASE := by
      have hd := hs.deadline l hl
      have hlt : s.now < l.deadline := hlive.2
      omega
    exact (reclaimExpired_of_mem hpos he).1 (ht l hl hlive m hm)
  | _ => trivial

variable (ν st codec dec) in
/-- In the runs in which nothing is taken out of flight that a live lease needs,
the member of every request that is taken, not finished and within its lease is
in `z_inflight`; and a step from there keeps this only if it takes out nothing. -/
theorem held_in_flight :
    (∀ s : LeaseQueue ν, (machine st codec dec).Within Undisturbed s → s.Protected) ∧
      ∀ (s t : LeaseQueue ν) (a : LeaseAct ν), (machine st codec dec).Within Undisturbed s →
        (machine st codec dec).step s a = some t → (t.Protected ↔ s.Undisturbed a) := by
  refine ⟨fun s h => (secured_within h).protected, fun s t a h ht => ⟨fun hp => ?_, fun hg => ?_⟩⟩
  · exact undisturbed_of_protected (secured_within h) hp ht
  · exact (secured_step (secured_within h) hg ht).protected

/-- The second node finishes it first. -/
theorem held_in_flight_retaken : (after (retaken ++ [.done true 1, .renew false [0]])).Protected :=
  (held_in_flight Bool {} urlDumps urlDecoder).1 _
    (.exec (.start ⟨rfl, rfl, rfl⟩) (by decide +kernel) (exec_after (by decide +kernel)))

/-- The first node finishes it first, and the second has nothing left in flight. -/
theorem staleDone_not_protected :
    ¬ ∀ s : LeaseQueue Bool, (machine {} urlDumps urlDecoder).Reachable s → s.Protected := by
  intro h
  have hr : (machine {} urlDumps urlDecoder).Reachable (after (retaken ++ [LeaseAct.done false 0])) :=
    .exec (.start ⟨rfl, rfl, rfl⟩) (exec_after (by decide +kernel))
  exact absurd (h _ hr) (by decide +kernel)

end LeaseQueue

end Netspy
