import Mathlib.Data.List.Nodup
import Mathlib.Data.List.Perm.Basic
import Netspy.Framework.Past
import Netspy.Impl.CollectorCalls

/-!
# Conservation of requests

Each step moves requests from one place to another, and the queue adds to them. Where
`get_batch` raises, the request that `get` has returned is in no place any more; where an
object is returned while somebody has it, it is in two; and so is one that is
acknowledged while it waits. These are all the ways (`step_conserves_iff`).
-/

namespace Netspy

namespace CollectorCalls

variable {ρ : Type} [DecidableEq ρ] {s t : State ρ} {a : Action ρ} {as : List (Action ρ)} {i : Nat}
  {stage stage' : Stage ρ} {q r : ρ} {extra rs : List ρ} {c : Collector ρ}

theorem count_mark (h : r ∉ c.inProgress) (q : ρ) :
    (c.mark r).inProgress.count q = c.inProgress.count q + [r].count q := by
  simp only [Collector.mark, if_neg h, List.count_append]

theorem count_done (q : ρ) : (c.done r).inProgress.count q = if q = r then 0 else c.inProgress.count q := by
  split
  · simp [Collector.done, List.count_eq_zero, *]
  · exact List.count_filter (by simpa using ‹_›)

theorem popBuffer_eq (h : c.popBuffer = some (r, c')) :
    ∃ rest, c.buffer = r :: rest ∧ c' = { c with buffer := rest }.mark r := by
  unfold Collector.popBuffer at h
  split at h
  · cases h
  · cases h
    exact ⟨_, ‹_›, rfl⟩

namespace State

theorem count_places (s : State ρ) (q : ρ) :
    s.places.count q =
      s.collector.buffer.count q + s.carried.count q + s.collector.inProgress.count q + s.acked.count q +
        s.drained.count q := by
  simp only [places, List.count_append]

/-- What a call has now takes the place of what it had. -/
theorem count_setCall (h : s.calls[i]? = some stage) (stage' : Stage ρ) (q : ρ) :
    (s.setCall i stage').carried.count q + stage.carried.count q =
      s.carried.count q + stage'.carried.count q := by
  obtain ⟨hi, rfl⟩ := List.getElem?_eq_some_iff.mp h
  have hnew := (List.Perm.flatMap_right Stage.carried (List.set_perm_cons_eraseIdx hi stage')).count_eq q
  have hold := (List.Perm.flatMap_right Stage.carried (List.getElem_cons_eraseIdx_perm hi)).count_eq q
  simp only [List.flatMap_cons, List.count_append] at hnew hold
  simp only [carried, setCall]
  omega

theorem count_places_setCall (h : s.calls[i]? = some stage) (stage' : Stage ρ) (q : ρ) :
    (s.setCall i stage').places.count q + stage.carried.count q =
      s.places.count q + stage'.carried.count q := by
  have hcarried := count_setCall h stage' q
  rw [count_places, count_places]
  simp only [setCall] at hcarried ⊢
  omega

theorem count_setCollector (c : Collector ρ) (q : ρ) :
    { s with collector := c }.places.count q + s.collector.buffer.count q + s.collector.inProgress.count q =
      s.places.count q + c.buffer.count q + c.inProgress.count q := by
  rw [count_places, count_places]
  show c.buffer.count q + s.carried.count q + c.inProgress.count q + s.acked.count q + s.drained.count q + _ + _ = _
  omega

/-- What the calls and the collector have, and what was drained, the queue has returned. -/
def Known (s : State ρ) : Prop := ∀ q, s.Held q ∨ q ∈ s.drained → q ∈ s.taken

theorem not_held : ¬ s.Held q ↔
    s.collector.buffer.count q = 0 ∧ s.carried.count q = 0 ∧ s.collector.inProgress.count q = 0 := by
  simp only [Held, not_or, List.count_eq_zero]

omit [DecidableEq ρ] in
theorem mem_carried (h : s.calls[i]? = some stage) (hr : r ∈ stage.carried) : r ∈ s.carried :=
  List.mem_flatMap.mpr ⟨stage, List.mem_of_getElem? h, hr⟩

theorem Conserves.congr (h : s.Conserves) (htaken : t.taken = s.taken)
    (hcount : ∀ q, t.places.count q = s.places.count q) : t.Conserves := by
  intro q hq
  rw [htaken] at hq
  rw [hcount q]
  exact h q hq

/-- A call goes on with the same requests. -/
theorem conserves_setCall (h : s.calls[i]? = some stage) (hc : stage'.carried = stage.carried) (hs : s.Conserves) :
    (s.setCall i stage').Conserves := by
  refine hs.congr rfl fun q => ?_
  have hcount := count_places_setCall h stage' q
  rw [hc] at hcount
  omega

/-- A call has the requests that the queue returned in addition. -/
theorem conserves_take (h : s.calls[i]? = some stage) (hc : stage'.carried = stage.carried ++ rs) (hs : s.Conserves) :
    ((s.take rs).setCall i stage').Conserves ↔ rs.Nodup ∧ ∀ r ∈ rs, ¬ s.Held r := by
  have hplaces (q : ρ) : ((s.take rs).setCall i stage').places.count q =
      s.collector.buffer.count q + s.carried.count q + rs.count q + s.collector.inProgress.count q +
        (s.take rs).acked.count q + (s.take rs).drained.count q := by
    have hset := count_places_setCall (s := s.take rs) h stage' q
    rw [hc, List.count_append, count_places (s.take rs)] at hset
    have hcarried : (s.take rs).carried = s.carried := rfl
    have hcollector : (s.take rs).collector = s.collector := rfl
    rw [hcarried, hcollector] at hset
    omega
  have hin {q : ρ} (hq : q ∈ rs) : (s.take rs).acked.count q = 0 ∧ (s.take rs).drained.count q = 0 := by
    simp [take, List.count_eq_zero, hq]
  have hout {q : ρ} (hq : q ∉ rs) :
      (s.take rs).acked.count q = s.acked.count q ∧ (s.take rs).drained.count q = s.drained.count q := by
    simp [take, List.count_filter, hq]
  constructor
  · intro ht
    have hone {q : ρ} (hq : q ∈ rs) : rs.count q = 1 ∧ ¬ s.Held q := by
      have htq := ht q (List.mem_append_right _ hq)
      have hpos := List.count_pos_iff.mpr hq
      rw [hplaces] at htq
      rw [not_held]
      omega
    refine ⟨List.nodup_iff_count_eq_one.mpr fun q hq => (hone hq).1, fun r hr => (hone hr).2⟩
  · rintro ⟨hnodup, hfree⟩ q hq
    rw [hplaces]
    by_cases hrs : q ∈ rs
    · have hone := List.nodup_iff_count_eq_one.mp hnodup q hrs
      have hfree := not_held.mp (hfree q hrs)
      have h0 := hin hrs
      omega
    · have hsq := hs q ((List.mem_append.mp hq).resolve_right hrs)
      have hsame := hout hrs
      rw [count_places] at hsq
      rw [List.count_eq_zero.mpr hrs]
      omega

/-- A call that ends with a request in its variables loses it. -/
theorem not_conserves_lost (h : s.calls[i]? = some (.first r)) (hk : s.Known) (hs : s.Conserves) :
    ¬ (s.setCall i .raised).Conserves := by
  intro ht
  have hr : r ∈ s.taken := hk r (.inl (.inr (.inl (mem_carried h (List.mem_singleton_self r)))))
  have hbefore := hs r hr
  have hafter := ht r hr
  have hcount := count_places_setCall h .raised r
  simp only [Stage.carried, List.count_nil, List.count_singleton_self] at hcount
  omega

/-- From the front of the buffer to the requests in progress. -/
theorem conserves_popBuffer (h : s.collector.popBuffer = some (r, c)) (hk : s.Known) (hs : s.Conserves) :
    { s with collector := c }.Conserves := by
  obtain ⟨rest, hbuffer, rfl⟩ := popBuffer_eq h
  have hr : r ∈ s.taken := hk r (.inl (.inl (by simp [hbuffer])))
  have hone := hs r hr
  rw [count_places, hbuffer, List.count_cons_self] at hone
  have hnot : r ∉ s.collector.inProgress := List.count_eq_zero.mp (by omega)
  refine hs.congr rfl fun q => ?_
  have hcount := count_setCollector (s := s) ({ s.collector with buffer := rest }.mark r) q
  rw [count_mark (c := { s.collector with buffer := rest }) hnot, hbuffer, ← List.singleton_append,
    List.count_append] at hcount
  simp only [Collector.mark] at hcount ⊢
  omega

/-- From a call to the buffer. -/
theorem conserves_extend (h : s.calls[i]? = some (.batch r extra)) (hs : s.Conserves) :
    ({ s with collector := s.collector.extend extra }.setCall i (.buffered r)).Conserves := by
  refine hs.congr rfl fun q => ?_
  have hset := count_places_setCall (s := { s with collector := s.collector.extend extra }) h (.buffered r) q
  have hcount := count_setCollector (s := s) (s.collector.extend extra) q
  have hcons : ([r] ++ extra).count q = [r].count q + extra.count q := List.count_append
  rw [show (Stage.batch r extra).carried = [r] ++ extra from rfl, hcons] at hset
  simp only [Stage.carried] at hset
  simp only [Collector.extend, List.count_append] at hcount hset ⊢
  omega

/-- From a call to the requests in progress. -/
theorem conserves_mark (h : s.calls[i]? = some (.buffered r)) (hk : s.Known) (hs : s.Conserves) :
    ({ s with collector := s.collector.mark r }.setCall i (.returned (some r))).Conserves := by
  have hin : r ∈ s.carried := mem_carried h (List.mem_singleton_self r)
  have hone := hs r (hk r (.inl (.inr (.inl hin))))
  have hpos := List.count_pos_iff.mpr hin
  rw [count_places] at hone
  have hnot : r ∉ s.collector.inProgress := List.count_eq_zero.mp (by omega)
  refine hs.congr rfl fun q => ?_
  have hset := count_places_setCall (s := { s with collector := s.collector.mark r }) h (.returned (some r)) q
  have hcount := count_setCollector (s := s) (s.collector.mark r) q
  rw [count_mark hnot] at hcount
  simp only [Stage.carried, List.count_nil] at hset
  simp only [Collector.mark] at hcount hset ⊢
  omega

/-- From the buffer to the caller. -/
theorem conserves_drain (hs : s.Conserves) :
    { s with
      collector := s.collector.drain.2
      drained := s.drained ++ s.collector.drain.1 }.Conserves := by
  refine hs.congr rfl fun q => ?_
  rw [count_places, count_places]
  simp only [Collector.drain, List.count_append, List.count_nil, carried]
  omega

theorem count_acknowledge (q : ρ) :
    (s.acknowledge r).acked.count q = if q = r then max 1 (s.acked.count r) else s.acked.count q := by
  unfold acknowledge
  dsimp only
  split
  next h =>
    have hpos := List.count_pos_iff.mpr h
    split
    next heq =>
      rw [heq]
      omega
    next => rfl
  next h =>
    rw [List.count_append]
    split
    next heq => rw [heq, List.count_eq_zero.mpr h, List.count_singleton_self, Nat.max_zero]
    next hne =>
      have hzero : [r].count q = 0 := List.count_eq_zero.mpr (by simpa using hne)
      rw [hzero, Nat.add_zero]

/-- From wherever it is to the acknowledged ones. -/
theorem conserves_acknowledge (hk : s.Known) (hs : s.Conserves) :
    (s.acknowledge r).Conserves ↔ r ∉ s.collector.buffer ∧ r ∉ s.carried ∧ r ∉ s.drained := by
  have hplaces (q : ρ) : (s.acknowledge r).places.count q =
      s.collector.buffer.count q + s.carried.count q + (if q = r then 0 else s.collector.inProgress.count q) +
        (if q = r then max 1 (s.acked.count r) else s.acked.count q) + s.drained.count q := by
    rw [count_places, ← count_done, ← count_acknowledge]
    rfl
  constructor
  · intro ht
    refine ⟨fun hin => ?_, fun hin => ?_, fun hin => ?_⟩
    all_goals
      have hone := ht r (hk r (by simp [Held, hin]))
      have hpos := List.count_pos_iff.mpr hin
      rw [hplaces, if_pos rfl, if_pos rfl] at hone
      omega
  · rintro ⟨hbuffer, hcarried, hdrained⟩ q hq
    have hone := hs q hq
    rw [count_places] at hone
    rw [hplaces]
    by_cases hqr : q = r
    · have hb := List.count_eq_zero.mpr hbuffer
      have hc := List.count_eq_zero.mpr hcarried
      have hd := List.count_eq_zero.mpr hdrained
      rw [if_pos hqr, if_pos hqr]
      rw [hqr] at hone ⊢
      omega
    · rw [if_neg hqr, if_neg hqr]
      exact hone

omit [DecidableEq ρ] in
theorem Known.setCall (hk : s.Known) (h : ∀ r ∈ stage.carried, r ∈ s.taken) : (s.setCall i stage).Known := by
  rintro q ((hq | hq | hq) | hq)
  · exact hk q (.inl (.inl hq))
  · obtain ⟨stage', hstage, hr⟩ := List.mem_flatMap.mp hq
    rcases List.mem_or_eq_of_mem_set hstage with hold | rfl
    · exact hk q (.inl (.inr (.inl (List.mem_flatMap.mpr ⟨stage', hold, hr⟩))))
    · exact h q hr
  · exact hk q (.inl (.inr (.inr hq)))
  · exact hk q (.inr hq)

omit [DecidableEq ρ] in
theorem Known.carried (hk : s.Known) (h : s.calls[i]? = some stage) (hr : r ∈ stage.carried) : r ∈ s.taken :=
  hk r (.inl (.inr (.inl (mem_carried h hr))))

theorem Known.take (hk : s.Known) (rs : List ρ) : (s.take rs).Known := by
  rintro q (hq | hq)
  · exact List.mem_append_left _ (hk q (.inl hq))
  · exact List.mem_append_left _ (hk q (.inr (List.mem_filter.mp hq).1))

omit [DecidableEq ρ] in
theorem Known.setCollector (hk : s.Known) (h : ∀ r, r ∈ c.buffer ∨ r ∈ c.inProgress → r ∈ s.taken) :
    { s with collector := c }.Known := by
  rintro q ((hq | hq | hq) | hq)
  · exact h q (.inl hq)
  · exact hk q (.inl (.inr (.inl hq)))
  · exact h q (.inr hq)
  · exact hk q (.inr hq)

omit [DecidableEq ρ] in
theorem Known.collector (hk : s.Known) (h : r ∈ s.collector.buffer ∨ r ∈ s.collector.inProgress) : r ∈ s.taken :=
  hk r (.inl (h.imp id .inr))

end State

open State

/-! ### Steps and runs -/

/-- What is in one place or another, the queue has returned. -/
theorem known_step (hk : s.Known) (h : step s a = some t) : t.Known := by
  cases a with
  | getRequest =>
    simp only [step] at h
    split at h
    next hpop =>
      obtain ⟨rest, hbuffer, rfl⟩ := popBuffer_eq hpop
      cases h
      refine hk.setCollector fun r hr => ?_
      rw [Collector.mem_mark] at hr
      refine hk.collector ?_
      rw [hbuffer, List.mem_cons]
      tauto
    next =>
      cases h
      rintro q ((hq | hq | hq) | hq)
      · exact hk q (.inl (.inl hq))
      · refine hk q (.inl (.inr (.inl ?_)))
        simpa [carried, Stage.carried] using hq
      · exact hk q (.inl (.inr (.inr hq)))
      · exact hk q (.inr hq)
  | queueGet i answer =>
    simp only [step] at h
    split at h
    · cases h
      exact hk.setCall nofun
    · cases h
      exact hk.setCall nofun
    · cases h
      exact (hk.take _).setCall fun r hr => List.mem_append_right _ hr
    · cases h
  | queueGetBatch i answer =>
    simp only [step] at h
    split at h
    · cases h
      exact hk.setCall nofun
    next hcall =>
      cases h
      exact hk.setCall fun r hr => hk.carried hcall hr
    next hcall =>
      cases h
      refine (hk.take _).setCall fun r hr => ?_
      rcases List.mem_cons.mp hr with rfl | hr
      · exact List.mem_append_left _ (hk.carried hcall (List.mem_singleton_self r))
      · exact List.mem_append_right _ hr
    · cases h
  | extend i =>
    simp only [step] at h
    split at h
    next hcall =>
      cases h
      refine (hk.setCollector ?_).setCall fun r hr => ?_
      · rintro r (hr | hr)
        · rcases List.mem_append.mp hr with hr | hr
          · exact hk.collector (.inl hr)
          · exact hk.carried hcall (List.mem_cons_of_mem _ hr)
        · exact hk.collector (.inr hr)
      · exact hk.carried hcall (List.mem_singleton.mp hr ▸ List.mem_cons_self)
    · cases h
  | markInProgress i =>
    simp only [step] at h
    split at h
    next hcall =>
      cases h
      refine (hk.setCollector ?_).setCall nofun
      rintro r (hr | hr)
      · exact hk.collector (.inl hr)
      · rcases Collector.mem_mark.mp hr with rfl | hr
        · exact hk.carried hcall (List.mem_singleton_self r)
        · exact hk.collector (.inr hr)
    · cases h
  | done r =>
    cases h
    rintro q ((hq | hq | hq) | hq)
    · exact hk.collector (.inl hq)
    · exact hk q (.inl (.inr (.inl hq)))
    · exact hk.collector (.inr (Collector.mem_done.mp hq).2)
    · exact hk q (.inr hq)
  | drain =>
    cases h
    rintro q ((hq | hq | hq) | hq)
    · cases hq
    · exact hk q (.inl (.inr (.inl hq)))
    · exact hk.collector (.inr hq)
    · rcases List.mem_append.mp hq with hq | hq
      · exact hk q (.inr hq)
      · exact hk.collector (.inl hq)

/-- A step that starts with every request in one place ends so if and only if it keeps
them. -/
theorem step_conserves_iff (hk : s.Known) (hs : s.Conserves) (h : step s a = some t) :
    t.Conserves ↔ Keeps s a := by
  cases a with
  | getRequest =>
    refine iff_of_true ?_ trivial
    simp only [step] at h
    split at h
    next hpop =>
      cases h
      exact State.conserves_popBuffer hpop hk hs
    next =>
      cases h
      refine hs.congr rfl fun q => ?_
      simp [State.count_places, State.carried, Stage.carried]
  | queueGet i answer =>
    simp only [step] at h
    split at h
    next hcall =>
      cases h
      exact iff_of_true (State.conserves_setCall hcall rfl hs) trivial
    next hcall =>
      cases h
      exact iff_of_true (State.conserves_setCall hcall rfl hs) trivial
    · cases h
      rw [State.conserves_take ‹_› rfl hs]
      simp [Keeps]
    · cases h
  | queueGetBatch i answer =>
    simp only [step] at h
    split at h
    · cases h
      exact iff_of_false (State.not_conserves_lost ‹_› hk hs) id
    next hcall =>
      cases h
      exact iff_of_true (State.conserves_setCall hcall rfl hs) (by simp [Keeps])
    · cases h
      exact State.conserves_take ‹_› rfl hs
    · cases h
  | extend i =>
    simp only [step] at h
    split at h
    · cases h
      exact iff_of_true (State.conserves_extend ‹_› hs) trivial
    · cases h
  | markInProgress i =>
    simp only [step] at h
    split at h
    · cases h
      exact iff_of_true (State.conserves_mark ‹_› hk hs) trivial
    · cases h
  | done r =>
    cases h
    exact State.conserves_acknowledge hk hs
  | drain =>
    cases h
    exact iff_of_true (State.conserves_drain hs) trivial

/-- In every state of a run each request that the queue has returned is in one place, if and
only if no step of it loses one or has one twice. -/
theorem conserves_iff (he : machine.exec {} as = some t) :
    (∀ bs u, bs <+: as → machine.exec {} bs = some u → u.Conserves) ↔ machine.Meets Keeps {} as := by
  apply Machine.forall_prefix_iff_meets (J := State.Known) _ _ _ _ he
  · intro u a v hk h
    exact known_step hk h
  · intro u a v hk hs h
    exact step_conserves_iff hk hs h
  · rintro q ((hq | hq | hq) | hq)
    all_goals cases hq
  · nofun

instance (s : State ρ) : (a : Action ρ) → Decidable (Keeps s a)
  | .queueGet _ (.returns (some first)) => inferInstanceAs (Decidable (¬ s.Held first))
  | .queueGetBatch _ .raises => isFalse id
  | .queueGetBatch _ (.returns extra) =>
    @instDecidableAnd _ _ inferInstance (List.decidableBAll (fun request => ¬ s.Held request) extra)
  | .done request =>
    inferInstanceAs (Decidable (request ∉ s.collector.buffer ∧ request ∉ s.carried ∧ request ∉ s.drained))
  | .queueGet _ (.returns none) | .queueGet _ .raises | .getRequest | .extend _ | .markInProgress _ | .drain =>
    isTrue trivial

/-- Three requests are taken: one is acknowledged, one is in progress, and one is drained. -/
def threeTaken : List (Action Nat) :=
  [.getRequest, .queueGet 0 (.returns (some 1)), .getRequest, .queueGetBatch 0 (.returns [2, 3]), .queueGet 1 .raises,
    .extend 0, .markInProgress 0, .getRequest, .done 1, .drain]

def afterThreeTaken : State Nat where
  collector := { inProgress := [2] }
  calls := [.returned (some 1), .raised]
  taken := [1, 2, 3]
  acked := [1]
  drained := [3]

theorem conserves_iff_threeTaken :
    machine.exec {} threeTaken = some afterThreeTaken ∧ afterThreeTaken.Conserves := by
  have hran : machine.exec {} threeTaken = some afterThreeTaken := by decide
  have hall := (conserves_iff hran).mpr (by decide)
  exact ⟨hran, hall threeTaken afterThreeTaken (List.prefix_refl _) hran⟩

/-- `get` returns a request, and then `get_batch` raises. -/
def batchRaises : List (Action Nat) :=
  [.getRequest, .queueGet 0 (.returns (some 1)), .queueGetBatch 0 .raises]

/-- The request is in none of the places. -/
theorem batchRaises_lost : ∃ t : State Nat, machine.exec {} batchRaises = some t ∧
    1 ∈ t.taken ∧ t.places.count 1 = 0 ∧ ¬ t.Conserves :=
  ⟨{ calls := [.raised], taken := [1] }, by decide⟩

end CollectorCalls

end Netspy
