import Mathlib.Data.List.Nodup
import Netspy.Framework.Fifo
import Netspy.Impl.AsyncClose

/-!
# Who is answered when a shard is closed

The callbacks of a loop run in the order in which they were added. So what was submitted
before `_cancel_pending` is a task when that looks; and a task that is done answers its
thread before it tells `gather`, as it was given that callback first. Hence when
`_cancel_pending` is answered, they all are (`Cancels`), and only then the loop is stopped.
-/

namespace Netspy

open Fifo (Ahead)

/-- The coroutine that is in this stage as long as the callback is in the queue. -/
def LoopHandle.main? : LoopHandle → Option Nat
  | .create i | .step i | .answer i => some i
  | .gathered _ | .stop => none

namespace LoopShard

variable {s t : LoopShard} {a : LoopAct} {ready rest l : List LoopHandle} {jobs : Nat → Option CoroStage}
  {tasks : List Nat} {isLate : Prop} {i k : Nat} {c : CoroStage}

/-! ## What a step does -/

def late (s : LoopShard) : Prop := s.closing = .stopping ∨ s.closing = .closed ∨ s.closing = .failed

/-- The callback is taken from the queue. -/
def take (s : LoopShard) (rest : List LoopHandle) (n : Nat) : LoopShard := { s with ready := rest, todo := n }

/-- Everything that a step can do. -/
inductive Stepped (s : LoopShard) : LoopAct → LoopShard → Prop
  | rejected (i : Nat) (hclosed : s.closing = .closed) : Stepped s (.submit i) { s with rejected := i :: s.rejected }
  | submitted (i : Nat) (hfree : s.jobs i = none) : Stepped s (.submit i) (s.submit i)
  | woke (i : Nat) (hjob : s.jobs i = some .waiting) (hk : s.canceller ≠ some i) :
      Stepped s (.wake i) ((s.setJob i .scheduled).add [.step i])
  | turned (n : Nat) (ended : Bool) (hend : ended = true → s.ended = true ∨ s.stopping = true) :
      Stepped s .turn { s with todo := n, ended }
  | created (o : StepOutcome) (rest : List LoopHandle) (n i : Nat) (hready : s.ready = .create i :: rest) :
      Stepped s (.run o) (((s.take rest n).setJob i .scheduled).add [.step i])
  | waited (rest : List LoopHandle) (n i : Nat) (hready : s.ready = .step i :: rest) (hk : s.canceller ≠ some i) :
      Stepped s (.run .waits) ((s.take rest n).setJob i .waiting)
  | finished (rest : List LoopHandle) (n i : Nat) (hready : s.ready = .step i :: rest)
      (hk : s.canceller = some i → s.gathering ≠ none) : Stepped s (.run .finishes) ((s.take rest n).finish i)
  | found (rest : List LoopHandle) (n i : Nat) (tasks : List Nat) (hready : s.ready = .step i :: rest)
      (hk : s.canceller = some i) (hg : s.gathering = none) (hsub : ∀ j ∈ tasks, j ∈ s.submitted)
      (htasks : ∀ j ∈ s.submitted, j ∈ tasks ↔ j ≠ i ∧ s.isLive j) (hn : tasks.Nodup) :
      Stepped s (.run (.finds tasks)) ((s.take rest n).cancelPending i tasks)
  | answered (o : StepOutcome) (rest : List LoopHandle) (n i : Nat) (hready : s.ready = .answer i :: rest) :
      Stepped s (.run o) ((s.take rest n).setJob i .answered)
  | gathered (o : StepOutcome) (rest : List LoopHandle) (n i : Nat) (hready : s.ready = .gathered i :: rest) :
      Stepped s (.run o) ((s.take rest n).gathered i)
  | stopped (o : StepOutcome) (rest : List LoopHandle) (n : Nat) (hready : s.ready = .stop :: rest) :
      Stepped s (.run o) { s.take rest n with stopping := true }
  | closing (k : Nat) (hclosing : s.closing = .unclosed) (hfree : s.jobs k = none) :
      Stepped s (.close k) { s.submit k with closing := .aclosing k }
  | cancelling (j k : Nat) (hclosing : s.closing = .aclosing j) (hfree : s.jobs k = none) :
      Stepped s (.cancelPending k) { s.submit k with closing := .cancelling k, canceller := some k, before := s.submitted }
  | stopping (k : Nat) (hclosing : s.closing = .cancelling k) (hk : s.jobs k = some .answered) :
      Stepped s .stop { s.add [.stop] with closing := .stopping }
  | joined (c : Closing) (hclosing : s.closing = .stopping) (hc : c = .closed ∨ c = .failed) :
      Stepped s .joined { s with closing := c }

theorem step_cases (h : s.step a = some t) : Stepped s a t := by
  cases a with
  | submit i =>
    obtain ⟨hfree, h⟩ := Option.ite_none_left_eq_some.mp h
    have hfree : s.jobs i = none := by simpa [isFree] using hfree
    split at h
    next hclosed =>
      cases h
      exact .rejected i hclosed
    next =>
      cases h
      exact .submitted i hfree
  | wake i =>
    obtain ⟨⟨hjob, hk, -⟩, h⟩ := Option.ite_none_right_eq_some.mp h
    cases h
    exact .woke i hjob hk
  | turn =>
    obtain ⟨-, h⟩ := Option.ite_none_right_eq_some.mp h
    split at h
    next hstop =>
      cases h
      exact .turned s.todo true fun _ => .inr hstop
    next =>
      obtain ⟨-, h⟩ := Option.ite_none_left_eq_some.mp h
      cases h
      exact .turned s.ready.length s.ended .inl
  | run o =>
    simp only [step] at h
    split at h
    next n x rest htodo hready =>
      cases x with
      | create i =>
        cases h
        exact .created o rest n i hready
      | step i =>
        cases o with
        | waits =>
          obtain ⟨hk, h⟩ := Option.ite_none_left_eq_some.mp h
          cases h
          exact .waited rest n i hready hk
        | finishes =>
          obtain ⟨hk, h⟩ := Option.ite_none_left_eq_some.mp h
          cases h
          exact .finished rest n i hready fun he hg => hk ⟨he, hg⟩
        | finds tasks =>
          obtain ⟨⟨hk, hg, hn, hsub, htasks⟩, h⟩ := Option.ite_none_right_eq_some.mp h
          cases h
          exact .found rest n i tasks hready hk hg hsub htasks hn
      | answer i =>
        cases h
        exact .answered o rest n i hready
      | gathered i =>
        cases h
        exact .gathered o rest n i hready
      | stop =>
        cases h
        exact .stopped o rest n hready
    next => cases h
  | close k =>
    obtain ⟨⟨hclosing, hfree⟩, h⟩ := Option.ite_none_right_eq_some.mp h
    cases h
    exact .closing k hclosing (by simpa [isFree] using hfree)
  | cancelPending k =>
    simp only [step] at h
    split at h
    next j hclosing =>
      obtain ⟨⟨-, hfree⟩, h⟩ := Option.ite_none_right_eq_some.mp h
      cases h
      exact .cancelling j k hclosing (by simpa [isFree] using hfree)
    next => cases h
  | stop =>
    simp only [step] at h
    split at h
    next k hclosing =>
      obtain ⟨hk, h⟩ := Option.ite_none_right_eq_some.mp h
      cases h
      exact .stopping k hclosing hk
    next => cases h
  | joined =>
    obtain ⟨hclosing, h⟩ := Option.ite_none_right_eq_some.mp h
    cases h
    exact .joined _ hclosing (by split <;> simp)

/-! ## The callbacks in the queue -/

/-- What a callback in the queue says about its coroutine. -/
def Handles (jobs : Nat → Option CoroStage) (tasks : List Nat) (isLate : Prop) : LoopHandle → Prop
  | .create i => jobs i = some .queued
  | .step i => jobs i = some .scheduled
  | .answer i => jobs i = some .done
  | .gathered i => (jobs i = some .done ∨ jobs i = some .answered) ∧ i ∈ tasks
  | .stop => isLate

structure Queue (ready : List LoopHandle) (jobs : Nat → Option CoroStage) (tasks : List Nat) (isLate : Prop) : Prop where
  nodup : ready.Nodup
  handles : ∀ x ∈ ready, Handles jobs tasks isLate x
  queued : ∀ i, jobs i = some .queued → .create i ∈ ready
  done : ∀ i, jobs i = some .done → .answer i ∈ ready

/-- A coroutine has one callback that goes with its stage. -/
theorem Handles.unique {x y : LoopHandle} (hx : Handles jobs tasks isLate x) (hy : Handles jobs tasks isLate y)
    (hxi : x.main? = some i) (hyi : y.main? = some i) : x = y := by
  cases x <;> cases y <;> simp_all [LoopHandle.main?, Handles]

namespace Queue

/-- The callback is taken; no other one of its coroutine is left. -/
theorem rest_ne {x : LoopHandle} (h : Queue (x :: rest) jobs tasks isLate) (hx : x.main? = some i) :
    ∀ y ∈ rest, y.main? ≠ some i := by
  intro y hy hyi
  have he := (h.handles x List.mem_cons_self).unique (h.handles y (List.mem_cons_of_mem _ hy)) hx hyi
  exact (List.nodup_cons.mp h.nodup).1 (he ▸ hy)

/-- A coroutine that is in another stage now: its callback is gone, and `l` are new. -/
theorem move (h : Queue ready jobs tasks isLate) (hrest : rest.Sublist ready) (hno : ∀ y ∈ rest, y.main? ≠ some i)
    (hkeep : ∀ j, j ≠ i → (.create j ∈ ready → .create j ∈ rest) ∧ (.answer j ∈ ready → .answer j ∈ rest))
    (hg : .gathered i ∈ rest → c = .done ∨ c = .answered) (hnodup : l.Nodup) (hnew : ∀ y ∈ l, y ∉ rest)
    (hhs : ∀ y ∈ l, Handles (Function.update jobs i (some c)) tasks isLate y)
    (hq : c = .queued → .create i ∈ l) (hd : c = .done → .answer i ∈ l) :
    Queue (rest ++ l) (Function.update jobs i (some c)) tasks isLate where
  nodup := List.nodup_append.mpr ⟨h.nodup.sublist hrest, hnodup, fun y hy z hz he => hnew z hz (he ▸ hy)⟩
  handles y hy := by
    rcases List.mem_append.mp hy with hy | hy
    · have hold := h.handles y (hrest.subset hy)
      have hne := hno y hy
      cases y with
      | create j | step j | answer j =>
        have hj : j ≠ i := fun hj => hne (congrArg some hj)
        simpa [Handles, hj] using hold
      | gathered j =>
        by_cases hj : j = i
        · subst hj
          exact ⟨by simpa using hg hy, hold.2⟩
        · simpa [Handles, hj] using hold
      | stop => exact hold
    · exact hhs y hy
  queued j hj := by
    obtain ⟨rfl, hc⟩ | ⟨hne, hj⟩ := Calls.update_eq_some hj
    · exact List.mem_append_right _ (hq (Option.some.inj hc))
    · exact List.mem_append_left _ ((hkeep j hne).1 (h.queued j hj))
  done j hj := by
    obtain ⟨rfl, hc⟩ | ⟨hne, hj⟩ := Calls.update_eq_some hj
    · exact List.mem_append_right _ (hd (Option.some.inj hc))
    · exact List.mem_append_left _ ((hkeep j hne).2 (h.done j hj))

/-- `move`, where the callback was the next one. -/
theorem pop {x : LoopHandle} (h : Queue (x :: rest) jobs tasks isLate) (hx : x.main? = some i)
    (hg : .gathered i ∈ rest → c = .done ∨ c = .answered) (hnodup : l.Nodup) (hnew : ∀ y ∈ l, y ∉ rest)
    (hhs : ∀ y ∈ l, Handles (Function.update jobs i (some c)) tasks isLate y)
    (hq : c = .queued → .create i ∈ l) (hd : c = .done → .answer i ∈ l) :
    Queue (rest ++ l) (Function.update jobs i (some c)) tasks isLate := by
  refine h.move (List.sublist_cons_self x rest) (h.rest_ne hx)
      (fun j hj => ⟨fun hm => ?_, fun hm => ?_⟩) hg hnodup hnew hhs hq hd
  · rcases List.mem_cons.mp hm with rfl | hm
    · exact absurd (Option.some.inj hx) hj
    · exact hm
  · rcases List.mem_cons.mp hm with rfl | hm
    · exact absurd (Option.some.inj hx) hj
    · exact hm

/-- `move`, where it had none. -/
theorem push (h : Queue ready jobs tasks isLate) (hno : ∀ y ∈ ready, y.main? ≠ some i)
    (hg : .gathered i ∈ ready → c = .done ∨ c = .answered) (hnodup : l.Nodup) (hnew : ∀ y ∈ l, y ∉ ready)
    (hhs : ∀ y ∈ l, Handles (Function.update jobs i (some c)) tasks isLate y)
    (hq : c = .queued → .create i ∈ l) (hd : c = .done → .answer i ∈ l) :
    Queue (ready ++ l) (Function.update jobs i (some c)) tasks isLate :=
  h.move (List.Sublist.refl ready) hno (fun _ _ => ⟨id, id⟩) hg hnodup hnew hhs hq hd

/-- A callback that belongs to no stage is taken. -/
theorem drop {x : LoopHandle} (h : Queue (x :: rest) jobs tasks isLate) (hx : x.main? = none) :
    Queue rest jobs tasks isLate where
  nodup := (List.nodup_cons.mp h.nodup).2
  handles y hy := h.handles y (List.mem_cons_of_mem _ hy)
  queued i hi := by
    rcases List.mem_cons.mp (h.queued i hi) with rfl | hm
    · cases hx
    · exact hm
  done i hi := by
    rcases List.mem_cons.mp (h.done i hi) with rfl | hm
    · cases hx
    · exact hm

/-- Where there is no callback of a coroutine. -/
theorem main_ne (h : Queue ready jobs tasks isLate) (hi : jobs i = none ∨ jobs i = some .waiting) :
    ∀ y ∈ ready, y.main? ≠ some i := by
  intro y hy hyi
  have hold := h.handles y hy
  cases y <;> simp_all [LoopHandle.main?, Handles]

end Queue

/-- The queue of a shard goes with its coroutines. -/
structure InOrder (s : LoopShard) : Prop where
  queue : Queue s.ready s.jobs (s.gathering.getD []) s.late
  submitted : ∀ i, i ∈ s.submitted ↔ s.jobs i ≠ none
  ended : s.stopping = true ∨ s.ended = true → s.late

theorem isLive_iff : s.isLive i = true ↔ s.jobs i = some .scheduled ∨ s.jobs i = some .waiting := by
  simp [isLive]

/-- The stage of the coroutine of the next callback. -/
theorem InOrder.head {x : LoopHandle} (h : InOrder s) (hready : s.ready = x :: rest) :
    Handles s.jobs (s.gathering.getD []) s.late x :=
  h.queue.handles x (hready ▸ List.mem_cons_self)

theorem InOrder.submit (h : InOrder s) (hfree : s.jobs k = none) : InOrder (s.submit k) where
  queue := by
    refine h.queue.push (h.queue.main_ne (.inl hfree)) (fun hm => ?_) (by simp) (fun y hy hm => ?_) (fun y hy => ?_)
      (fun _ => by simp) (fun hc => by cases hc)
    · have := (h.queue.handles _ hm).1
      simp [hfree] at this
    · cases List.mem_singleton.mp hy
      have := h.queue.handles _ hm
      simp [Handles, hfree] at this
    · cases List.mem_singleton.mp hy
      simp [Handles]
  submitted i := by
    show i ∈ s.submitted ++ [k] ↔ Function.update s.jobs k (some .queued) i ≠ none
    by_cases hi : i = k
    · simp [hi]
    · simp [hi, h.submitted]
  ended := h.ended

/-- A coroutine that is in another stage. -/
theorem InOrder.move (h : InOrder s) (hjob : s.jobs i ≠ none) {n : Nat}
    (hq : Queue (rest ++ l) (Function.update s.jobs i (some c)) (s.gathering.getD []) s.late) :
    InOrder (((s.take rest n).setJob i c).add l) where
  queue := hq
  submitted j := by
    show j ∈ s.submitted ↔ Function.update s.jobs i (some c) j ≠ none
    by_cases hj : j = i
    · subst hj
      simpa [hjob] using (h.submitted j).mpr hjob
    · simpa [hj] using h.submitted j
  ended := h.ended

theorem InOrder.finish (h : InOrder s) {n : Nat} (hready : s.ready = .step i :: rest) :
    InOrder ((s.take rest n).finish i) := by
  have hjob : s.jobs i = some .scheduled := h.head hready
  have hq := h.queue
  rw [hready] at hq
  have hnot {y : LoopHandle} (hy : y ∈ rest) : Handles s.jobs (s.gathering.getD []) s.late y :=
    hq.handles y (List.mem_cons_of_mem _ hy)
  refine h.move (by simp [hjob]) (hq.pop rfl (fun _ => .inl rfl) ?_ ?_ ?_ (fun hc => by cases hc) (by simp))
  · split <;> simp
  · intro y hy hm
    have hold := hnot hm
    by_cases hmem : i ∈ s.gathering.getD []
    · rw [show (s.take rest n).gathering = s.gathering from rfl, if_pos hmem] at hy
      rcases List.mem_cons.mp hy with rfl | hy
      · simp [Handles, hjob] at hold
      · cases List.mem_singleton.mp hy
        simp [Handles, hjob] at hold
    · rw [show (s.take rest n).gathering = s.gathering from rfl, if_neg hmem] at hy
      cases List.mem_singleton.mp hy
      simp [Handles, hjob] at hold
  · intro y hy
    by_cases hmem : i ∈ s.gathering.getD []
    · rw [show (s.take rest n).gathering = s.gathering from rfl, if_pos hmem] at hy
      rcases List.mem_cons.mp hy with rfl | hy
      · simp [Handles]
      · cases List.mem_singleton.mp hy
        simpa [Handles] using hmem
    · rw [show (s.take rest n).gathering = s.gathering from rfl, if_neg hmem] at hy
      cases List.mem_singleton.mp hy
      simp [Handles]

/-- Only `gather` and its tasks matter to the queue. -/
theorem InOrder.forget (h : InOrder s) (hg : s.gathering = none) : InOrder { s with gathering := some [] } where
  queue := by
    have hq := h.queue
    rw [hg] at hq
    exact hq
  submitted := h.submitted
  ended := h.ended

/-- `_cancel_pending` looks, and finds tasks. -/
theorem InOrder.look (h : InOrder s) {n : Nat} (hready : s.ready = .step k :: rest) (hg : s.gathering = none)
    (hsub : ∀ j ∈ tasks, j ∈ s.submitted) (htasks : ∀ j ∈ s.submitted, j ∈ tasks ↔ j ≠ k ∧ s.isLive j) (hn : tasks.Nodup) :
    InOrder { ((s.take rest n).setJob k .waiting).add ((tasks.filter fun i => s.jobs i = some .waiting).map .step) with
      jobs := fun i => if i ∈ tasks then some .scheduled else ((s.take rest n).setJob k .waiting).jobs i
      gathering := some tasks } := by
  have hjob : s.jobs k = some .scheduled := h.head hready
  have hq := h.queue
  rw [hready, hg] at hq
  have hlive {j : Nat} (hj : j ∈ tasks) : j ≠ k ∧ (s.jobs j = some .scheduled ∨ s.jobs j = some .waiting) := by
    obtain ⟨hne, hlive⟩ := (htasks j (hsub j hj)).mp hj
    exact ⟨hne, isLive_iff.mp hlive⟩
  -- who is no task and not `_cancel_pending` stays
  have hsame {j : Nat} {c : CoroStage}
      (hj : (if j ∈ tasks then some .scheduled else Function.update s.jobs k (some .waiting) j) = some c)
      (hc : c ≠ .scheduled) (hw : c ≠ .waiting) : s.jobs j = some c := by
    split at hj
    next => exact absurd (Option.some.inj hj).symm hc
    next =>
      obtain ⟨-, hj⟩ | ⟨-, hj⟩ := Calls.update_eq_some hj
      · exact absurd (Option.some.inj hj).symm hw
      · exact hj
  have hstays {j : Nat} (hjk : j ≠ k) (hj : ¬ (s.jobs j = some .scheduled ∨ s.jobs j = some .waiting)) :
      (if j ∈ tasks then some CoroStage.scheduled else Function.update s.jobs k (some .waiting) j) = s.jobs j := by
    rw [if_neg fun hm => hj (hlive hm).2, Function.update_of_ne hjk]
  refine { queue := ⟨?_, ?_, ?_, ?_⟩, submitted := fun j => ?_, ended := h.ended }
  · refine List.nodup_append.mpr ⟨(List.nodup_cons.mp hq.nodup).2, List.Nodup.map ?_ (List.Nodup.filter _ hn), ?_⟩
    · intro i j he
      exact LoopHandle.step.inj he
    · rintro y hy z hz rfl
      obtain ⟨j, hj, rfl⟩ := List.mem_map.mp hz
      have hold : s.jobs j = some .scheduled := hq.handles _ (List.mem_cons_of_mem _ hy)
      have hw := (List.mem_filter.mp hj).2
      simp [hold] at hw
  · intro y hy
    rcases List.mem_append.mp hy with hy | hy
    · have hold := hq.handles y (List.mem_cons_of_mem _ hy)
      have hne := hq.rest_ne rfl y hy
      cases y with
      | create j =>
        have hj : s.jobs j = some .queued := hold
        exact (hstays (fun he => hne (congrArg some he)) (by simp [hj])).trans hj
      | step j =>
        have hj : s.jobs j = some .scheduled := hold
        have hjk : j ≠ k := fun he => hne (congrArg some he)
        by_cases hm : j ∈ tasks
        · exact if_pos hm
        · refine (if_neg hm).trans ?_
          rw [← hj]
          exact Function.update_of_ne hjk ..
      | answer j =>
        have hj : s.jobs j = some .done := hold
        exact (hstays (fun he => hne (congrArg some he)) (by simp [hj])).trans hj
      | gathered j => exact absurd hold.2 List.not_mem_nil
      | stop => exact hold
    · obtain ⟨j, hj, rfl⟩ := List.mem_map.mp hy
      exact if_pos (List.mem_filter.mp hj).1
  · intro j hj
    rcases List.mem_cons.mp (hq.queued j (hsame hj (by simp) (by simp))) with he | hm
    · cases he
    · exact List.mem_append_left _ hm
  · intro j hj
    rcases List.mem_cons.mp (hq.done j (hsame hj (by simp) (by simp))) with he | hm
    · cases he
    · exact List.mem_append_left _ hm
  · show j ∈ s.submitted ↔ (if j ∈ tasks then some CoroStage.scheduled else Function.update s.jobs k (some .waiting) j) ≠ none
    by_cases hm : j ∈ tasks
    · simp [hm, hsub j hm]
    · by_cases hjk : j = k
      · subst hjk
        simp [hm, (h.submitted j).mpr (by simp [hjob])]
      · simp [hm, hjk, h.submitted]

/-- `gather` is told, and waits for the others. -/
theorem InOrder.tell (h : InOrder s) {n : Nat} (hready : s.ready = .gathered i :: rest) :
    InOrder { s.take rest n with gathering := s.gathering.map fun tasks => tasks.erase i } where
  queue := by
    have hq := h.queue
    rw [hready] at hq
    have hd := hq.drop rfl
    refine { hd with handles := fun y hy => ?_ }
    have hold := hd.handles y hy
    cases y with
    | gathered j =>
      have hji : j ≠ i := by
        rintro rfl
        exact (List.nodup_cons.mp hq.nodup).1 hy
      obtain ⟨hjob, hmem⟩ := hold
      refine ⟨hjob, ?_⟩
      cases hg : s.gathering with
      | none =>
        rw [hg] at hmem
        cases hmem
      | some tasks =>
        rw [hg] at hmem
        exact (List.mem_erase_of_ne hji).mpr hmem
    | create | step | answer | stop => exact hold
  submitted := h.submitted
  ended := h.ended

theorem InOrder.gathered (h : InOrder s) {n : Nat} (hready : s.ready = .gathered i :: rest)
    (hk : ∀ k, s.canceller = some k → s.jobs k = some .waiting) : InOrder ((s.take rest n).gathered i) := by
  have ht := h.tell (n := n) hready
  unfold LoopShard.gathered
  split
  next k hmap hcanceller =>
    have hmap : s.gathering.map (fun tasks => tasks.erase i) = some [] := hmap
    have hjob := hk k hcanceller
    rw [hmap] at ht
    have hno := ht.queue.main_ne (.inr hjob)
    have hnot : .gathered k ∉ rest := fun hm => by
      have := (ht.queue.handles _ hm).2
      cases this
    have hq := ht.queue.push (c := .scheduled) (l := [.step k]) hno (fun hm => absurd hm hnot) (by simp)
      (fun y hy hm => hno y hm (by cases List.mem_singleton.mp hy; rfl)) (fun y hy => by
        cases List.mem_singleton.mp hy
        simp [Handles]) (by simp) (by simp)
    have hsome : s.jobs k ≠ none := by simp [hjob]
    have hm := ht.move (n := n) hsome hq
    exact { hm with }
  next => exact ht

/-! ## What `_cancel_pending` waits for -/

/-- The callbacks after which `_cancel_pending` may go on. -/
def Marks (k : Nat) (x : LoopHandle) : Prop := x = .step k ∨ x = .answer k ∨ ∃ j, x = .gathered j

/-- `i` will be answered before `k` is. -/
inductive Awaited (ready : List LoopHandle) (jobs : Nat → Option CoroStage) (k i : Nat) : Option (List Nat) → Prop
  | queued (hi : jobs i = some .queued) (hk : jobs k = some .queued) (ha : Ahead (.create i) (.create k) ready) :
      Awaited ready jobs k i none
  | task (hi : jobs i ≠ some .queued) : Awaited ready jobs k i none
  | live (tasks : List Nat) (hi : jobs i = some .scheduled ∨ jobs i = some .waiting) (hmem : i ∈ tasks) :
      Awaited ready jobs k i (some tasks)
  | told (tasks : List Nat) (hi : jobs i = some .done) (hmem : i ∈ tasks) (ha : Ahead (.answer i) (.gathered i) ready) :
      Awaited ready jobs k i (some tasks)
  | ahead (tasks : List Nat) (hi : jobs i = some .done) (ha : ∀ x, Marks k x → Ahead (.answer i) x ready) :
      Awaited ready jobs k i (some tasks)
  | answered (tasks : List Nat) (hi : jobs i = some .answered) : Awaited ready jobs k i (some tasks)

/-- The stage of `_cancel_pending`. -/
def Looks (jobs : Nat → Option CoroStage) (k : Nat) : Option (List Nat) → Prop
  | none => jobs k = some .queued ∨ jobs k = some .scheduled
  | some tasks => (tasks = [] ∧ (jobs k = some .scheduled ∨ jobs k = some .done ∨ jobs k = some .answered)) ∨
      (tasks ≠ [] ∧ jobs k = some .waiting)

/-- `Awaited`, until `k` is answered. -/
structure Sure (ready : List LoopHandle) (jobs : Nat → Option CoroStage) (gathering : Option (List Nat)) (k i : Nat) :
    Prop where
  ne : i ≠ k
  known : jobs i ≠ none
  awaited : Awaited ready jobs k i gathering
  answered : jobs k = some .answered → jobs i = some .answered

variable {gathering : Option (List Nat)} {j : Nat}

/-- A step of another coroutine, whose callback is taken, or that had none. -/
theorem Sure.other (h : Sure ready jobs gathering k i) (hq : Queue ready jobs (gathering.getD []) isLate) (hji : j ≠ i)
    (hready : (ready = rest ∧ jobs j ≠ some .queued) ∨ ∃ x, ready = x :: rest ∧ x.main? = some j)
    (hk : j = k → c = .answered → jobs i = some .answered) :
    Sure (rest ++ l) (Function.update jobs j (some c)) gathering k i := by
  have hi : Function.update jobs j (some c) i = jobs i := Function.update_of_ne hji.symm ..
  have hnext {x : LoopHandle} (hx : x.main? = some i) : ready = rest ∨ ∃ z, ready = z :: rest ∧ z ≠ x := by
    rcases hready with ⟨hr, -⟩ | ⟨z, hr, hz⟩
    · exact .inl hr
    · refine .inr ⟨z, hr, ?_⟩
      rintro rfl
      exact hji (Option.some.inj (hz.symm.trans hx))
  refine ⟨h.ne, hi ▸ h.known, ?_, fun ha => ?_⟩
  · cases h.awaited with
    | queued hqi hqk ha =>
      by_cases hjk : j = k
      · -- then the callback that is taken makes the task of `k`, and the one of `i` is ahead of it
        subst hjk
        rcases hready with ⟨-, hno⟩ | ⟨z, hr, hz⟩
        · exact absurd hqk hno
        · have he : z = .create j := (hq.handles z (hr ▸ List.mem_cons_self)).unique (hq.handles _ (hq.queued j hqk)) hz rfl
          rw [hr, he] at ha
          exact ha.head.elim
      · refine .queued (hi.trans hqi) ((Function.update_of_ne (Ne.symm hjk) ..).trans hqk)
          (ha.next (hq.queued i hqi) (hnext rfl))
    | task hni => exact .task (hi ▸ hni)
    | live tasks hli hmem => exact .live tasks (by rwa [hi]) hmem
    | told tasks hdi hmem ha => exact .told tasks (hi.trans hdi) hmem (ha.next (hq.done i hdi) (hnext rfl))
    | ahead tasks hdi ha => exact .ahead tasks (hi.trans hdi) fun x hx => (ha x hx).next (hq.done i hdi) (hnext rfl)
    | answered tasks hai => exact .answered tasks (hi.trans hai)
  · rw [hi]
    obtain ⟨rfl, hc⟩ | ⟨-, ha⟩ := Calls.update_eq_some ha
    · exact hk rfl (Option.some.inj hc)
    · exact h.answered ha

/-- A step of the coroutine itself. -/
theorem Sure.self (h : Sure ready jobs gathering k i)
    (ha : Awaited (rest ++ l) (Function.update jobs i (some c)) k i gathering)
    (hno : jobs i ≠ some .answered) : Sure (rest ++ l) (Function.update jobs i (some c)) gathering k i := by
  refine ⟨h.ne, by simp, ha, fun hk => ?_⟩
  rw [Function.update_of_ne h.ne.symm] at hk
  exact absurd (h.answered hk) hno

/-- It is a task that `gather` waits for, or nobody has looked. -/
theorem Awaited.live_cases (h : Awaited ready jobs k i gathering) (hi : jobs i = some .scheduled ∨ jobs i = some .waiting) :
    gathering = none ∨ ∃ tasks, gathering = some tasks ∧ i ∈ tasks := by
  cases h with
  | queued | task => exact .inl rfl
  | live tasks _ hmem => exact .inr ⟨tasks, rfl, hmem⟩
  | told tasks hd | ahead tasks hd | answered tasks hd => simp [hd] at hi

/-- A task that goes on. -/
theorem Sure.live (h : Sure ready jobs gathering k i) (hi : jobs i = some .scheduled ∨ jobs i = some .waiting)
    (hc : c = .scheduled ∨ c = .waiting) : Sure (rest ++ l) (Function.update jobs i (some c)) gathering k i := by
  refine h.self ?_ (by rcases hi with hi | hi <;> simp [hi])
  rcases h.awaited.live_cases hi with rfl | ⟨tasks, rfl, hmem⟩
  · exact .task (by rcases hc with rfl | rfl <;> simp)
  · exact .live tasks (by simpa using hc) hmem

/-- What is known of `_cancel_pending`, at each place of `_close_shard`. -/
structure Cancels (s : LoopShard) : Prop where
  closing : (s.closing = .unclosed ∨ ∃ j, s.closing = .aclosing j) ∧ s.canceller = none ∨
    (∃ k, s.closing = .cancelling k ∧ s.canceller = some k) ∨
    s.late ∧ ∃ k, s.canceller = some k ∧ s.jobs k = some .answered
  gathering : s.canceller = none → s.gathering = none
  looks : ∀ k, s.canceller = some k → Looks s.jobs k s.gathering
  sure : ∀ k, s.canceller = some k → ∀ i ∈ s.before, Sure s.ready s.jobs s.gathering k i

namespace Cancels

theorem not_late (h : Cancels s) (hc : ¬ ∃ k, s.canceller = some k ∧ s.jobs k = some .answered) : ¬ s.late := by
  rcases h.closing with ⟨hu | ⟨j, hu⟩, -⟩ | ⟨k, hu, -⟩ | ⟨-, hk⟩
  · simp [late, hu]
  · simp [late, hu]
  · simp [late, hu]
  · exact absurd hk hc

theorem known (h : Cancels s) (hk : s.canceller = some k) : s.jobs k ≠ none := by
  have hl := h.looks k hk
  cases hg : s.gathering with
  | none =>
    rw [hg] at hl
    rcases hl with hl | hl <;> simp [hl]
  | some tasks =>
    rw [hg] at hl
    rcases hl with ⟨-, hl | hl | hl⟩ | ⟨-, hl⟩ <;> simp [hl]

/-- While `gather` waits for somebody, so does `_cancel_pending`. -/
theorem waiting (h : Cancels s) (ho : InOrder s) (hready : s.ready = .gathered i :: rest) (hk : s.canceller = some k) :
    s.jobs k = some .waiting := by
  have hmem := (ho.head hready).2
  have hl := h.looks k hk
  cases hg : s.gathering with
  | none =>
    rw [hg] at hmem
    cases hmem
  | some tasks =>
    rw [hg] at hl hmem
    rcases hl with ⟨rfl, -⟩ | ⟨-, hl⟩
    · cases hmem
    · exact hl

/-- A step of a coroutine that is not `_cancel_pending`. -/
theorem other (h : Cancels s) (ho : InOrder s) {n : Nat} (hk : s.canceller ≠ some j)
    (hready : (s.ready = rest ∧ s.jobs j ≠ some .queued) ∨ ∃ x, s.ready = x :: rest ∧ x.main? = some j)
    (hself : ∀ k ∈ s.canceller, Sure s.ready s.jobs s.gathering k j →
      Sure (rest ++ l) (Function.update s.jobs j (some c)) s.gathering k j) :
    Cancels (((s.take rest n).setJob j c).add l) where
  closing := by
    refine h.closing.imp id (Or.imp id ?_)
    rintro ⟨hl, k, hc, ha⟩
    exact ⟨hl, k, hc, (Function.update_of_ne (fun he => hk (by rw [← he]; exact hc)) ..).trans ha⟩
  gathering := h.gathering
  looks k hc := by
    have hkj : k ≠ j := fun he => hk (by rw [← he]; exact hc)
    have hl := h.looks k hc
    have he : (((s.take rest n).setJob j c).add l).jobs k = s.jobs k := Function.update_of_ne hkj ..
    show Looks _ k s.gathering
    cases hg : s.gathering with
    | none =>
      rw [hg] at hl
      simpa only [Looks, he] using hl
    | some tasks =>
      rw [hg] at hl
      simpa only [Looks, he] using hl
  sure k hc i hi := by
    have hs := h.sure k hc i hi
    by_cases hij : i = j
    · subst hij
      exact hself k hc hs
    · refine hs.other ho.queue (Ne.symm hij) hready fun hjk _ => ?_
      exact absurd (by rw [hjk]; exact hc) hk

/-- A step of `_cancel_pending`. -/
theorem own (h : Cancels s) (ho : InOrder s) {n : Nat} {x : LoopHandle} (hk : s.canceller = some k)
    (hready : s.ready = x :: rest) (hx : x.main? = some k)
    (hlooks : Looks (Function.update s.jobs k (some c)) k s.gathering)
    (hans : c = .answered → ∀ i ∈ s.before, s.jobs i = some .answered) :
    Cancels (((s.take rest n).setJob k c).add l) where
  closing := by
    refine h.closing.imp id (Or.imp id ?_)
    rintro ⟨-, k', hc, ha⟩
    cases hk.symm.trans hc
    have := ho.head hready
    cases x <;> simp_all [LoopHandle.main?, Handles]
  gathering := h.gathering
  looks k' hc := by
    cases hk.symm.trans hc
    exact hlooks
  sure k' hc i hi := by
    cases hk.symm.trans hc
    have hs := h.sure k hk i hi
    exact hs.other ho.queue (Ne.symm hs.ne) (.inr ⟨x, hready, hx⟩) fun _ hc => hans hc i hi

/-- `_cancel_pending` has not looked. -/
theorem gathering_eq_none (h : Cancels s) (hk : s.canceller = some k) (hjob : s.jobs k = some .queued) :
    s.gathering = none := by
  have hl := h.looks k hk
  cases hg : s.gathering with
  | none => rfl
  | some tasks =>
    rw [hg] at hl
    simp [Looks, hjob] at hl

/-- It waits for nobody. -/
theorem gathering_eq_nil (h : Cancels s) (hk : s.canceller = some k)
    (hjob : s.jobs k = some .scheduled ∨ s.jobs k = some .done)
    (hg : s.gathering ≠ none) : s.gathering = some [] := by
  have hl := h.looks k hk
  cases he : s.gathering with
  | none => exact absurd he hg
  | some tasks =>
    rw [he] at hl
    rcases hl with ⟨rfl, -⟩ | ⟨-, hl⟩
    · rfl
    · rcases hjob with hjob | hjob <;> simp [hjob] at hl

/-- When `_cancel_pending` is answered, all are. -/
theorem all_answered (h : Cancels s) (ho : InOrder s) (hk : s.canceller = some k) (hready : s.ready = .answer k :: rest) :
    ∀ i ∈ s.before, s.jobs i = some .answered := by
  intro i hi
  have hjob : s.jobs k = some .done := ho.head hready
  have hg : s.gathering = some [] := by
    refine h.gathering_eq_nil hk (.inr hjob) fun hg => ?_
    have hl := h.looks k hk
    rw [hg] at hl
    simp [Looks, hjob] at hl
  have ha := (h.sure k hk i hi).awaited
  rw [hg, hready] at ha
  cases ha with
  | live _ _ hmem => cases hmem
  | told _ _ hmem => cases hmem
  | ahead _ _ ha => exact (ha _ (.inr (.inl rfl))).head.elim
  | answered _ hai => exact hai

/-- When it is about to look, the calls are tasks. -/
theorem not_queued (h : Cancels s) (hk : s.canceller = some k) (hg : s.gathering = none) (hjob : s.jobs k = some .scheduled)
    (hi : i ∈ s.before) : s.jobs i ≠ some .queued := by
  have ha := (h.sure k hk i hi).awaited
  rw [hg] at ha
  cases ha with
  | queued _ hqk => simp [hjob] at hqk
  | task hni => exact hni

/-- And nothing that it waits for is in the queue. -/
theorem marks_not_mem (ho : InOrder s) (hready : s.ready = .step k :: rest) (hg : s.gathering = none) {x : LoopHandle}
    (hx : Marks k x) : x ∉ rest := by
  have hq := ho.queue
  rw [hready, hg] at hq
  intro hm
  have hold := hq.handles x (List.mem_cons_of_mem _ hm)
  rcases hx with rfl | rfl | ⟨j, rfl⟩
  · exact hq.rest_ne rfl _ hm rfl
  · exact hq.rest_ne rfl _ hm rfl
  · exact absurd hold.2 List.not_mem_nil

/-- It finds nobody: who is not answered is done, and his answer is ahead. -/
theorem lookNobody (h : Cancels s) (ho : InOrder s) {n : Nat} (hready : s.ready = .step k :: rest) (hk : s.canceller = some k)
    (hg : s.gathering = none) (hnobody : ∀ j ∈ s.submitted, j ≠ k → ¬ s.isLive j) :
    Cancels ({ s.take rest n with gathering := some [] }.finish k) := by
  have hjob : s.jobs k = some .scheduled := ho.head hready
  refine { closing := h.closing.imp id (Or.imp id ?_), gathering := fun hn => ?_, looks := ?_, sure := ?_ }
  · rintro ⟨-, k', hc, ha⟩
    cases hk.symm.trans hc
    simp [hjob] at ha
  · exact absurd (hk.symm.trans hn) (by simp)
  · intro k' hc
    cases hk.symm.trans hc
    exact .inl ⟨rfl, .inr (.inl (Function.update_self ..))⟩
  · intro k' hc i hi
    cases hk.symm.trans hc
    have hs := h.sure k hk i hi
    have hsame : Function.update s.jobs k (some .done) i = s.jobs i := Function.update_of_ne hs.ne ..
    refine ⟨hs.ne, fun hn => hs.known (hsame.symm.trans hn), ?_, fun ha => ?_⟩
    · show Awaited (rest ++ [.answer k]) (Function.update s.jobs k (some .done)) k i (some [])
      have hlive := hnobody i ((ho.submitted i).mpr hs.known) hs.ne
      have hni := h.not_queued hk hg hjob hi
      cases hi : s.jobs i with
      | none => exact absurd hi hs.known
      | some c =>
        cases c with
        | queued => exact absurd hi hni
        | scheduled | waiting => simp [isLive, hi] at hlive
        | answered => exact .answered [] (hsame.trans hi)
        | done =>
          refine .ahead [] (hsame.trans hi) fun x hx => (Ahead.of_not_mem (marks_not_mem ho hready hg hx)).append _ ?_
          rcases List.mem_cons.mp (hready ▸ ho.queue.done i hi) with he | hm
          · cases he
          · exact hm
    · have ha : Function.update s.jobs k (some .done) k = some .answered := ha
      simp at ha

/-- It looks: who is neither a task nor answered is done, and his answer is ahead. -/
theorem look (h : Cancels s) (ho : InOrder s) {n : Nat} (hready : s.ready = .step k :: rest) (hk : s.canceller = some k)
    (hg : s.gathering = none) (htasks : ∀ j ∈ s.submitted, j ∈ tasks ↔ j ≠ k ∧ s.isLive j) (hne : tasks ≠ []) :
    Cancels { ((s.take rest n).setJob k .waiting).add ((tasks.filter fun i => s.jobs i = some .waiting).map .step) with
      jobs := fun i => if i ∈ tasks then some .scheduled else ((s.take rest n).setJob k .waiting).jobs i
      gathering := some tasks } := by
  have hjob : s.jobs k = some .scheduled := ho.head hready
  have hkt : k ∉ tasks := fun hm => ((htasks k ((ho.submitted k).mpr (by simp [hjob]))).mp hm).1 rfl
  have hknew : (if k ∈ tasks then some CoroStage.scheduled else Function.update s.jobs k (some .waiting) k) =
      some .waiting := by
    rw [if_neg hkt, Function.update_self]
  refine { closing := h.closing.imp id (Or.imp id ?_), gathering := fun hn => ?_, looks := ?_, sure := ?_ }
  · rintro ⟨-, k', hc, ha⟩
    cases hk.symm.trans hc
    simp [hjob] at ha
  · exact absurd (hk.symm.trans hn) (by simp)
  · intro k' hc
    cases hk.symm.trans hc
    exact .inr ⟨hne, hknew⟩
  · intro k' hc i hi
    cases hk.symm.trans hc
    have hs := h.sure k hk i hi
    have hjobs {c : CoroStage} (hi : s.jobs i = some c) (hc : i ∉ tasks) :
        (if i ∈ tasks then some .scheduled else Function.update s.jobs k (some .waiting) i) = some c := by
      rw [if_neg hc, Function.update_of_ne hs.ne, hi]
    have hnot (hlive : ¬ s.isLive i = true) : i ∉ tasks := fun hm =>
      hlive ((htasks i ((ho.submitted i).mpr hs.known)).mp hm).2
    refine ⟨hs.ne, ?_, ?_, fun ha => ?_⟩
    · show (if i ∈ tasks then some CoroStage.scheduled else Function.update s.jobs k (some .waiting) i) ≠ none
      by_cases hm : i ∈ tasks
      · simp [hm]
      · simpa [hm, hs.ne] using hs.known
    · have hni := h.not_queued hk hg hjob hi
      by_cases hlive : s.isLive i = true
      · have hm := (htasks i ((ho.submitted i).mpr hs.known)).mpr ⟨hs.ne, hlive⟩
        exact .live tasks (.inl (if_pos hm)) hm
      · have hm := hnot hlive
        cases hi : s.jobs i with
        | none => exact absurd hi hs.known
        | some c =>
          cases c with
          | queued => exact absurd hi hni
          | scheduled | waiting => simp [isLive, hi] at hlive
          | answered => exact .answered tasks (hjobs hi hm)
          | done =>
            refine .ahead tasks (hjobs hi hm) fun x hx => Ahead.of_not_mem fun hxr => ?_
            rcases List.mem_append.mp hxr with hxr | hxr
            · exact marks_not_mem ho hready hg hx hxr
            · obtain ⟨j, hj, rfl⟩ := List.mem_map.mp hxr
              have hjt := (List.mem_filter.mp hj).1
              rcases hx with he | he | ⟨j', he⟩
              · cases he
                exact hkt hjt
              · cases he
              · cases he
    · have ha : (if k ∈ tasks then some CoroStage.scheduled else Function.update s.jobs k (some .waiting) k) =
        some .answered := ha
      rw [hknew] at ha
      cases ha

/-- `gather` is told of `i`: it waits for the others that are not answered. -/
theorem awaited_tell (h : Awaited (.gathered i :: rest) jobs k j (some tasks))
    (hi : jobs i = some .done ∨ jobs i = some .answered) :
    jobs j = some .answered ∨ j ∈ tasks.erase i ∧ Awaited rest jobs k j (some (tasks.erase i)) := by
  cases h with
  | live _ hl hmem =>
    have hji : j ≠ i := by
      rintro rfl
      rcases hi with hi | hi <;> simp [hi] at hl
    have hm := (List.mem_erase_of_ne hji).mpr hmem
    exact .inr ⟨hm, .live _ hl hm⟩
  | told _ hd hmem ha =>
    have hji : j ≠ i := by
      rintro rfl
      exact ha.head
    have hm := (List.mem_erase_of_ne hji).mpr hmem
    exact .inr ⟨hm, .told _ hd hm (ha.tail (by simp))⟩
  | ahead _ hd ha => exact (ha _ (.inr (.inr ⟨i, rfl⟩))).head.elim
  | answered _ hai => exact .inl hai

theorem gathered (h : Cancels s) (ho : InOrder s) {n : Nat} (hready : s.ready = .gathered i :: rest) :
    Cancels ((s.take rest n).gathered i) := by
  obtain ⟨hi, hmem⟩ : (s.jobs i = some .done ∨ s.jobs i = some .answered) ∧ i ∈ s.gathering.getD [] := ho.head hready
  obtain ⟨tasks, hg⟩ : ∃ tasks, s.gathering = some tasks := by
    cases hg : s.gathering with
    | none =>
      rw [hg] at hmem
      cases hmem
    | some tasks => exact ⟨tasks, rfl⟩
  obtain ⟨k, hk⟩ : ∃ k, s.canceller = some k := by
    cases hk : s.canceller with
    | none => simp [h.gathering hk] at hg
    | some k => exact ⟨k, rfl⟩
  have hjob := h.waiting ho hready hk
  have hsure : ∀ j ∈ s.before, j ≠ k ∧ s.jobs j ≠ none ∧
      (s.jobs j = some .answered ∨ j ∈ tasks.erase i ∧ Awaited rest s.jobs k j (some (tasks.erase i))) := by
    intro j hj
    have hs := h.sure k hk j hj
    have ha := hs.awaited
    rw [hg, hready] at ha
    exact ⟨hs.ne, hs.known, awaited_tell ha hi⟩
  have hclosing : ¬ s.late := by
    refine h.not_late ?_
    rintro ⟨k', hc, ha⟩
    cases hk.symm.trans hc
    simp [hjob] at ha
  have hphase : ∀ {p : Prop}, (s.closing = .unclosed ∨ ∃ j, s.closing = .aclosing j) ∧ s.canceller = none ∨
      (∃ k, s.closing = .cancelling k ∧ s.canceller = some k) ∨ s.late ∧ p := fun {p} =>
    h.closing.imp id (Or.imp id fun hl => absurd hl.1 hclosing)
  unfold LoopShard.gathered
  split
  next k' hmap hk' =>
    have hnil : tasks.erase i = [] := by
      rw [show (s.take rest n).gathering = some tasks from hg, Option.map_some] at hmap
      exact Option.some.inj hmap
    cases hk.symm.trans hk'
    refine { closing := hphase, gathering := fun hn => absurd (hk.symm.trans hn) (by simp), looks := ?_, sure := ?_ }
    · intro k' hc
      cases hk.symm.trans hc
      exact .inl ⟨rfl, .inl (Function.update_self ..)⟩
    · intro k' hc j hj
      cases hk.symm.trans hc
      obtain ⟨hne, hknown, hj⟩ := hsure j hj
      have ha : s.jobs j = some .answered := hj.resolve_right fun hm => by
        rw [hnil] at hm
        exact absurd hm.1 List.not_mem_nil
      have hsame : Function.update s.jobs k (some .scheduled) j = some .answered := (Function.update_of_ne hne ..).trans ha
      refine ⟨hne, fun hn => ?_, .answered [] hsame, fun _ => hsame⟩
      cases hsame.symm.trans hn
  next hno =>
    have hne : tasks.erase i ≠ [] := fun he => hno k (by
      rw [show (s.take rest n).gathering = some tasks from hg, Option.map_some, he]) hk
    have hmap : (s.take rest n).gathering.map (fun tasks => tasks.erase i) = some (tasks.erase i) := by
      rw [show (s.take rest n).gathering = some tasks from hg, Option.map_some]
    rw [hmap]
    refine { closing := hphase, gathering := fun hn => absurd (hk.symm.trans hn) (by simp), looks := ?_, sure := ?_ }
    · intro k' hc
      cases hk.symm.trans hc
      exact .inr ⟨hne, hjob⟩
    · intro k' hc j hj
      cases hk.symm.trans hc
      obtain ⟨hnk, hknown, hj⟩ := hsure j hj
      refine ⟨hnk, hknown, ?_, fun ha => ?_⟩
      · rcases hj with ha | ⟨-, ha⟩
        · exact .answered _ ha
        · exact ha
      · have ha : s.jobs k = some .answered := ha
        simp [hjob] at ha

/-- From when the loop is to be stopped. -/
theorem late_answered (h : Cancels s) (hl : s.late) (hk : s.canceller = some k) : s.jobs k = some .answered := by
  rcases h.closing with ⟨-, hn⟩ | ⟨k', hu, -⟩ | ⟨-, k', hk', ha⟩
  · cases hk.symm.trans hn
  · simp [late, hu] at hl
  · cases hk.symm.trans hk'
    exact ha

/-- `_cancel_pending` is answered, and nothing is awaited any more. -/
theorem sure_of_answered (h : Cancels s) (hk : s.canceller = some k) (ha : s.jobs k = some .answered) (hi : i ∈ s.before) :
    Sure ready s.jobs s.gathering k i := by
  have hs := h.sure k hk i hi
  refine ⟨hs.ne, hs.known, ?_, hs.answered⟩
  have hl := h.looks k hk
  cases hg : s.gathering with
  | none =>
    rw [hg] at hl
    simp [Looks, ha] at hl
  | some tasks => exact .answered tasks (hs.answered ha)

/-- A coroutine that was not there. -/
theorem submit (h : Cancels s) (ho : InOrder s) (hfree : s.jobs j = none) : Cancels (s.submit j) := by
  have hk : s.canceller ≠ some j := fun hk => h.known hk hfree
  have hs := h.other (n := s.todo) (c := .queued) (l := [.create j]) ho hk (.inl ⟨rfl, by simp [hfree]⟩) fun k _ hs =>
    absurd hfree hs.known
  exact { hs with }

end Cancels

/-! ## Closing -/

/-- The invariant of a shard. -/
structure Kept (s : LoopShard) : Prop where
  inOrder : InOrder s
  cancels : Cancels s

theorem Queue.mono {isLate' : Prop} (h : Queue ready jobs tasks isLate) (ho : isLate → isLate') :
    Queue ready jobs tasks isLate' where
  nodup := h.nodup
  handles x hx := by
    have hold := h.handles x hx
    cases x with
    | stop => exact ho hold
    | create | step | answer | gathered => exact hold
  queued := h.queued
  done := h.done

/-- The next place of `_close_shard`. -/
theorem InOrder.close (h : InOrder s) (closing : Closing) (canceller : Option Nat) (before : List Nat)
    (ho : s.late → { s with closing }.late) : InOrder { s with closing, canceller, before } where
  queue := h.queue.mono ho
  submitted := h.submitted
  ended hs := ho (h.ended hs)

theorem Kept.step (h : Kept s) (ht : Stepped s a t) : Kept t := by
  obtain ⟨ho, hc⟩ := h
  cases ht with
  | rejected i hclosed => exact ⟨{ ho with }, { hc with }⟩
  | submitted i hfree => exact ⟨ho.submit hfree, hc.submit ho hfree⟩
  | woke i hjob hk =>
    have hno := ho.queue.main_ne (.inr hjob)
    have hg : .gathered i ∉ s.ready := fun hm => by
      have := (ho.queue.handles _ hm).1
      simp [hjob] at this
    have hq := ho.queue.push (c := .scheduled) (l := [.step i]) hno (fun hm => absurd hm hg) (by simp)
      (fun y hy hm => hno y hm (by cases List.mem_singleton.mp hy; rfl)) (fun y hy => by
        cases List.mem_singleton.mp hy
        simp [Handles]) (by simp) (by simp)
    have hi := ho.move (n := s.todo) (by simp [hjob]) hq
    have hs := hc.other (n := s.todo) (c := .scheduled) (l := [.step i]) ho hk (.inl ⟨rfl, by simp [hjob]⟩)
      fun k _ hs => hs.live (.inr hjob) (.inl rfl)
    exact ⟨{ hi with }, { hs with }⟩
  | turned n ended hend =>
    refine ⟨{ ho with ended := fun hs => ?_ }, { hc with }⟩
    rcases hs with hs | hs
    · exact ho.ended (.inl hs)
    · exact ho.ended (hend hs).symm
  | created o rest n i hready =>
    have hjob : s.jobs i = some .queued := ho.head hready
    have hq := ho.queue
    rw [hready] at hq
    have hg : .gathered i ∉ rest := fun hm => by
      have := (hq.handles _ (List.mem_cons_of_mem _ hm)).1
      simp [hjob] at this
    have hq' := hq.pop (c := .scheduled) (l := [.step i]) rfl (fun hm => absurd hm hg) (by simp)
      (fun y hy hm => hq.rest_ne rfl y hm (by cases List.mem_singleton.mp hy; rfl)) (fun y hy => by
        cases List.mem_singleton.mp hy
        simp [Handles]) (by simp) (by simp)
    refine ⟨ho.move (by simp [hjob]) hq', ?_⟩
    by_cases hk : s.canceller = some i
    · refine hc.own ho hk hready rfl ?_ (by simp)
      rw [hc.gathering_eq_none hk hjob]
      exact .inr (Function.update_self ..)
    · refine hc.other ho hk (.inr ⟨_, hready, rfl⟩) fun k _ hs => hs.self ?_ (by simp [hjob])
      have ha := hs.awaited
      generalize s.gathering = gathering at ha
      cases ha with
      | queued | task => exact .task (by simp)
      | live tasks hl => simp [hjob] at hl
      | told tasks hd | ahead tasks hd | answered tasks hd => simp [hjob] at hd
  | waited rest n i hready hk =>
    have hjob : s.jobs i = some .scheduled := ho.head hready
    have hq := ho.queue
    rw [hready] at hq
    have hg : .gathered i ∉ rest := fun hm => by
      have := (hq.handles _ (List.mem_cons_of_mem _ hm)).1
      simp [hjob] at this
    have hq' := hq.pop (c := .waiting) (l := []) rfl (fun hm => absurd hm hg) (by simp) (by simp) (by simp) (by simp)
        (by simp)
    have hi := ho.move (n := n) (by simp [hjob]) hq'
    have hs := hc.other (n := n) (c := .waiting) (l := []) ho hk (.inr ⟨_, hready, rfl⟩) fun k _ hs =>
      hs.live (.inl hjob) (.inr rfl)
    simp only [add, List.append_nil] at hi hs
    exact ⟨hi, hs⟩
  | finished rest n i hready hk =>
    have hjob : s.jobs i = some .scheduled := ho.head hready
    refine ⟨ho.finish hready, ?_⟩
    by_cases hki : s.canceller = some i
    · have hg := hc.gathering_eq_nil hki (.inl hjob) (hk hki)
      refine hc.own ho hki hready rfl ?_ (by simp)
      rw [hg]
      exact .inl ⟨rfl, .inr (.inl (Function.update_self ..))⟩
    · refine hc.other ho hki (.inr ⟨_, hready, rfl⟩) fun k _ hs => hs.self ?_ (by simp [hjob])
      rcases hs.awaited.live_cases (.inl hjob) with hg | ⟨tasks, hg, hmem⟩
      · rw [hg]
        exact .task (by simp)
      · -- its thread is answered before `gather` is told
        rw [hg, show (s.take rest n).gathering = some tasks from hg, Option.getD_some, if_pos hmem]
        refine .told tasks (by simp) hmem ?_
        have hno : .gathered i ∉ rest ++ [.answer i] := fun hm => by
          rcases List.mem_append.mp hm with hm | hm
          · have hmem' : .gathered i ∈ s.ready := hready ▸ List.mem_cons_of_mem _ hm
            have := (ho.queue.handles _ hmem').1
            simp [hjob] at this
          · cases List.mem_singleton.mp hm
        have ha := (Ahead.of_not_mem (x := .answer i) hno).append [.gathered i]
            (List.mem_append_right _ (List.mem_singleton_self _))
        rwa [List.append_assoc] at ha
  | found rest n i tasks hready hk hg hsub htasks hn =>
    unfold cancelPending
    split
    next hnil =>
      obtain rfl := List.isEmpty_iff.mp hnil
      refine ⟨(ho.forget hg).finish hready, hc.lookNobody ho hready hk hg fun j hj hjk hlive => ?_⟩
      exact List.not_mem_nil ((htasks j hj).mpr ⟨hjk, hlive⟩)
    next hne => exact ⟨ho.look hready hg hsub htasks hn, hc.look ho hready hk hg htasks (by simpa using hne)⟩
  | answered o rest n i hready =>
    have hjob : s.jobs i = some .done := ho.head hready
    have hq := ho.queue
    rw [hready] at hq
    have hq' := hq.pop (c := .answered) (l := []) rfl (fun _ => .inr rfl) (by simp) (by simp) (by simp) (by simp) (by simp)
    have hi := ho.move (n := n) (by simp [hjob]) hq'
    have hs : Cancels (((s.take rest n).setJob i .answered).add []) := by
      by_cases hk : s.canceller = some i
      · refine hc.own ho hk hready rfl ?_ fun _ => hc.all_answered ho hk hready
        have hl := hc.looks i hk
        cases hg : s.gathering with
        | none =>
          rw [hg] at hl
          simp [Looks, hjob] at hl
        | some tasks =>
          rw [hg] at hl
          rcases hl with ⟨rfl, -⟩ | ⟨-, hl⟩
          · exact .inl ⟨rfl, .inr (.inr (Function.update_self ..))⟩
          · simp [hjob] at hl
      · refine hc.other ho hk (.inr ⟨_, hready, rfl⟩) fun k _ hs => ⟨hs.ne, by simp, ?_, fun _ => by simp⟩
        cases hg : s.gathering with
        | none => exact .task (by simp)
        | some tasks => exact .answered tasks (by simp)
    simp only [add, List.append_nil] at hi hs
    exact ⟨hi, hs⟩
  | gathered o rest n i hready =>
    exact ⟨ho.gathered hready fun k hk => hc.waiting ho hready hk, hc.gathered ho hready⟩
  | stopped o rest n hready =>
    have hlate : s.late := ho.head hready
    have hq := ho.queue
    rw [hready] at hq
    exact ⟨⟨hq.drop rfl, ho.submitted, fun _ => hlate⟩, ⟨hc.closing, hc.gathering, hc.looks, fun k hk i hi =>
      hc.sure_of_answered hk (hc.late_answered hlate hk) hi⟩⟩
  | closing k hclosing hfree =>
    have hnone : s.canceller = none := by
      rcases hc.closing with ⟨-, hn⟩ | ⟨k, hu, -⟩ | ⟨hl, -⟩
      · exact hn
      · simp [hclosing] at hu
      · simp [late, hclosing] at hl
    have hi := (ho.submit hfree).close (.aclosing k) s.canceller s.before fun hl => by
      simp [late, submit, add, setJob, hclosing] at hl
    have hs := hc.submit ho hfree
    exact ⟨hi, { hs with closing := .inl ⟨.inr ⟨k, rfl⟩, hnone⟩ }⟩
  | cancelling j k hclosing hfree =>
    have hnone : s.canceller = none := by
      rcases hc.closing with ⟨-, hn⟩ | ⟨k, hu, -⟩ | ⟨hl, -⟩
      · exact hn
      · simp [hclosing] at hu
      · simp [late, hclosing] at hl
    have hg := hc.gathering hnone
    have hi := (ho.submit hfree).close (.cancelling k) (some k) s.submitted fun hl => by
      simp [late, submit, add, setJob, hclosing] at hl
    refine ⟨hi, ⟨.inr (.inl ⟨k, rfl, rfl⟩), fun hn => by simp at hn, fun k' hk' => ?_, fun k' hk' i hi => ?_⟩⟩
    · cases hk'
      show Looks (Function.update s.jobs k (some .queued)) k s.gathering
      rw [hg]
      exact .inl (Function.update_self ..)
    · cases hk'
      have hknown := (ho.submitted i).mp hi
      have hne : i ≠ k := fun he => hknown (he ▸ hfree)
      have hsame : Function.update s.jobs k (some .queued) i = s.jobs i := Function.update_of_ne hne ..
      have hself : Function.update s.jobs k (some .queued) k = some .queued := Function.update_self ..
      refine ⟨hne, fun hn => hknown (hsame.symm.trans hn), ?_, fun ha => ?_⟩
      · show Awaited (s.ready ++ [.create k]) (Function.update s.jobs k (some .queued)) k i s.gathering
        rw [hg]
        by_cases hq : s.jobs i = some .queued
        · have hno : .create k ∉ s.ready := fun hm => ho.queue.main_ne (.inl hfree) _ hm rfl
          exact .queued (hsame.trans hq) hself ((Ahead.of_not_mem hno).append _ (ho.queue.queued i hq))
        · exact .task fun hn => hq (hsame.symm.trans hn)
      · have ha : Function.update s.jobs k (some .queued) k = some .answered := ha
        simp at ha
  | stopping k hclosing hk =>
    have hcanceller : s.canceller = some k := by
      rcases hc.closing with ⟨hu | ⟨j, hu⟩, -⟩ | ⟨k', hu, hk'⟩ | ⟨hl, -⟩
      · simp [hclosing] at hu
      · simp [hclosing] at hu
      · cases hclosing.symm.trans hu
        exact hk'
      · simp [late, hclosing] at hl
    have hlate : ¬ s.late := by simp [late, hclosing]
    have hno : .stop ∉ s.ready := fun hm => hlate (ho.queue.handles _ hm)
    refine ⟨⟨⟨?_, ?_, ?_, ?_⟩, ho.submitted, fun _ => .inl rfl⟩,
      ⟨.inr (.inr ⟨.inl rfl, k, hcanceller, hk⟩), hc.gathering, hc.looks,
      fun k' hk' i hi => ?_⟩⟩
    · exact List.nodup_append.mpr ⟨ho.queue.nodup, List.nodup_singleton _, fun x hx y hy he =>
        hno (List.mem_singleton.mp hy ▸ he ▸ hx)⟩
    · intro x hx
      rcases List.mem_append.mp hx with hx | hx
      · exact (ho.queue.mono fun hl => absurd hl hlate).handles x hx
      · cases List.mem_singleton.mp hx
        exact .inl rfl
    · exact fun i hi => List.mem_append_left _ (ho.queue.queued i hi)
    · exact fun i hi => List.mem_append_left _ (ho.queue.done i hi)
    · cases hcanceller.symm.trans hk'
      exact hc.sure_of_answered hcanceller hk hi
  | joined c hclosing hjoin =>
    have hlate : s.late := .inl hclosing
    have ht : { s with closing := c }.late := by
      rcases hjoin with rfl | rfl
      · exact .inr (.inl rfl)
      · exact .inr (.inr rfl)
    refine ⟨ho.close c s.canceller s.before fun _ => ht, ⟨?_, hc.gathering, hc.looks, hc.sure⟩⟩
    rcases hc.closing with ⟨hu | ⟨j, hu⟩, -⟩ | ⟨k', hu, hk'⟩ | ⟨-, hk⟩
    · simp [hclosing] at hu
    · simp [hclosing] at hu
    · simp [hclosing] at hu
    · exact .inr (.inr ⟨ht, hk⟩)

theorem kept (h : machine.Reachable s) : Kept s := by
  refine h.induct (fun s hs => ?_) fun s a t hs _ ht => hs.step (step_cases ht)
  cases hs
  refine ⟨⟨⟨List.nodup_nil, by simp, by simp, by simp⟩, by simp, by simp⟩, ⟨.inl ⟨.inl rfl, rfl⟩, by simp, by simp, by simp⟩⟩

/-- Where `_close_shard` has got past `_cancel_pending`, every call that was submitted
before that is answered. The loop is not stopped earlier; so if a call is left without an
answer when the loop has ended, it was submitted after `_cancel_pending` was. -/
theorem async_close_answers (h : machine.Reachable s) :
    (s.closing = .stopping ∨ s.closing = .closed ∨ s.closing = .failed → ∀ i ∈ s.before, s.jobs i = some .answered) ∧
      (s.ended = true → ∀ i ∈ s.submitted, s.jobs i ≠ some .answered → i ∉ s.before) := by
  obtain ⟨ho, hc⟩ := kept h
  have hall (hl : s.late) : ∀ i ∈ s.before, s.jobs i = some .answered := by
    intro i hi
    rcases hc.closing with ⟨hu | ⟨j, hu⟩, -⟩ | ⟨k, hu, -⟩ | ⟨-, k, hk, ha⟩
    · simp [late, hu] at hl
    · simp [late, hu] at hl
    · simp [late, hu] at hl
    · exact (hc.sure k hk i hi).answered ha
  exact ⟨hall, fun hend i _ hno hi => hno (hall (ho.ended (.inr hend)) i hi)⟩

/-- A slow call is cancelled; another one comes when `_cancel_pending` is done, and its
thread is never answered. -/
def comesLate : List LoopAct :=
  [.submit 0, .turn, .run .waits, .turn, .run .waits, .close 1, .turn, .run .waits, .turn, .run .finishes, .turn, .run .waits,
    .cancelPending 2, .turn, .run .waits, .turn, .run (.finds [0]), .turn, .run .finishes, .turn, .run .waits, .run .waits,
    .turn, .run .finishes, .submit 3, .turn, .run .waits, .stop, .run .waits, .turn, .run .waits, .run .finishes, .turn,
    .joined]

theorem comesLate_ran : (machine.exec {} comesLate).map (fun s => (s.closing, s.ended, s.before, s.jobs 0, s.jobs 3)) =
    some (.closed, true, [0, 1], some .answered, some .done) := by
  decide

theorem async_close_answers_comesLate : ∃ s, machine.exec {} comesLate = some s ∧ s.jobs 3 = some .done ∧
    ∀ i ∈ s.before, s.jobs i = some .answered := by
  obtain ⟨s, he, hs⟩ := Option.map_eq_some_iff.mp comesLate_ran
  have hr : machine.Reachable s := Machine.Reachable.exec (.start rfl) he
  have hclosed : s.closing = .closed := congrArg Prod.fst hs
  have hlate : s.jobs 3 = some .done := congrArg (fun x => x.2.2.2.2) hs
  exact ⟨s, he, hlate, (async_close_answers hr).1 (.inr (.inl hclosed))⟩

end LoopShard

end Netspy
