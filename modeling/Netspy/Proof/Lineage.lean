import Netspy.Impl.Lineage
import Netspy.Proof.Outcome

/-!
# The retry budget

A request is downloaded at most `SPIDER_MAX_RETRY_TIMES + 1` times, with all
that replaces it, and ends done, dropped or failed, once: if what is put back
has more retries than what was taken (`retry_budget`). `_retry_replacement` sees
to that; a request that `process_request` or `download_midware` returns in place
of the taken one starts with its own count (`freshRequests_not_budgeted`).
-/

namespace Netspy

/-! ## What is put back -/

theorem counts_iff (e : Effect) :
    (e.counts "request_ok" = true ↔ Outcome.of e = some .ok) ∧
    (e.counts "dropped" = true ↔ Outcome.of e = some .dropped) ∧
    (e.counts "retry" = true ↔ Outcome.of e = some .retried) ∧
    (e.counts "request_failed" = true ↔ Outcome.of e = some .failed) := by
  cases e with
  | stat key =>
    simp only [Effect.counts, beq_iff_eq]
    unfold Outcome.of
    split <;> simp_all
  | _ => simp [Effect.counts, Outcome.of]

theorem putBack_append {es es' : List Effect} (h : .retried ∉ outcomes es) :
    putBack (es ++ es') = putBack es' := by
  induction es with
  | nil => rfl
  | cons e es ih =>
    rw [outcomes, List.filterMap_cons] at h
    have he : e.counts "retry" ≠ true := fun he => by
      rw [(counts_iff e).2.2.1.mp he] at h
      exact h List.mem_cons_self
    rw [List.cons_append, putBack, if_neg he]
    refine ih fun hm => h ?_
    split
    · exact hm
    · exact List.mem_cons_of_mem _ hm

theorem putBack_none {es : List Effect} (h : .retried ∉ outcomes es) : putBack es = none := by
  rw [← List.append_nil es, putBack_append h]
  rfl

theorem countP_outcome {es : List Effect} {key : String} {o : Outcome}
    (h : ∀ e : Effect, e.counts key = true ↔ Outcome.of e = some o) :
    es.countP (Effect.counts key) = (outcomes es).count o := by
  induction es with
  | nil => rfl
  | cons e es ih =>
    rw [List.countP_cons, ih, outcomes, outcomes, List.filterMap_cons]
    cases hoe : Outcome.of e with
    | none => simp [h, hoe]
    | some o' => simp [h, hoe, List.count_cons]

theorem putBack_retry (es : List Effect) (q : Ref) : putBack (Effect.stat "retry" :: es ++ [Effect.putRetry q]) = some q := by
  rw [List.cons_append, putBack, if_pos (by rfl), lastPut, List.getLast?_append]
  rfl

/-! ## One round -/

namespace ParserWorker

variable (st : Setting)

/-- The turn spends the budget of a request with the count `times`: when the count
is read, the request that the hooks left bound has at least that, and
`exception_request` does not lower it; and no exception leaves `_process` before it has
put the request back. -/
def SpendsTurn (env : Env) (times : Int) : Turn × Job → Prop
  | (.raise _, _) => False
  | (.retry b resp exc, j) => GivesUp st env b exc j.heap ∨
      (times ≤ (j.heap b).retryTimes ∧ (j.heap b).retryTimes < (retriedHeap env b resp exc j.heap b).retryTimes ∧
        pauseRaises st env b resp (retriedHeap env b resp exc j.heap) (env.clock j.reads) = false)
  | (.replace b _ _, j) => st.SPIDER_MAX_RETRY_TIMES ≤ (j.heap b).retryTimes ∨ times ≤ (j.heap b).retryTimes
  | _ => True

instance (env : Env) (times : Int) : ∀ x : Turn × Job, Decidable (SpendsTurn st env times x)
  | (.raise _, _) => isFalse id
  | (.retry b resp exc, j) => inferInstanceAs (Decidable ((env.isinstance exc "ResponseTooLargeError" = true ∨
      st.SPIDER_MAX_RETRY_TIMES ≤ (j.heap b).retryTimes) ∨ (times ≤ (j.heap b).retryTimes ∧
        (j.heap b).retryTimes < (retriedHeap env b resp exc j.heap b).retryTimes ∧
        pauseRaises st env b resp (retriedHeap env b resp exc j.heap) (env.clock j.reads) = false)))
  | (.replace b _ _, j) => inferInstanceAs (Decidable
      (st.SPIDER_MAX_RETRY_TIMES ≤ (j.heap b).retryTimes ∨ times ≤ (j.heap b).retryTimes))
  | (.ok _, _) => isTrue trivial
  | (.drop, _) => isTrue trivial
  | (.fail .., _) => isTrue trivial

/-- The round spends the budget of the request that it took. -/
def Spends (a : Round) : Prop :=
  0 ≤ (a.heap a.taken).retryTimes ∧
    SpendsTurn st a.env (a.heap a.taken).retryTimes (turn st a.env a.taken { heap := a.heap })

instance (a : Round) : Decidable (Spends st a) :=
  inferInstanceAs (Decidable (0 ≤ (a.heap a.taken).retryTimes ∧
    SpendsTurn st a.env (a.heap a.taken).retryTimes (turn st a.env a.taken { heap := a.heap })))

/-- A round ends the lineage with one outcome, or puts back a request with a
higher count where the count had not reached the limit. -/
theorem round_cases {a : Round} (hg : Spends st a) :
    let j := (process st a.env a.taken { heap := a.heap }).2
    (putBack j.effects = none ∧ ∃ o, outcomes j.effects = [o] ∧ o ≠ .retried) ∨
    ∃ b, putBack j.effects = some b ∧ outcomes j.effects = [.retried] ∧
      (a.heap a.taken).retryTimes < st.SPIDER_MAX_RETRY_TIMES ∧
      (a.heap a.taken).retryTimes < (j.heap b).retryTimes := by
  intro j
  have hj : j = (settle st a.env (turn st a.env a.taken { heap := a.heap })).2 := by
    rw [← process_eq]
  obtain ⟨-, hg⟩ := hg
  obtain ⟨es₀, he₀, ho₀⟩ := turn_counts st a.env a.taken { heap := a.heap }
  generalize turn st a.env a.taken { heap := a.heap } = x at hg hj he₀
  obtain ⟨t, g⟩ := x
  have hge : g.effects = es₀ := he₀
  -- the outcome after those of the hooks, which are none
  have hafter {es : List Effect} {os : List Outcome} (he : j.effects = g.effects ++ es)
      (ho : outcomes es = os) : outcomes j.effects = os ∧ putBack j.effects = putBack es := by
    rw [he, hge]
    refine ⟨?_, putBack_append (by rw [ho₀]; exact List.not_mem_nil)⟩
    rw [outcomes, List.filterMap_append]
    exact (congrArg (· ++ _) ho₀).trans ho
  have hends {o : Outcome} (hne : o ≠ .retried) (hc : Counts [o] g j) :
      putBack j.effects = none ∧ ∃ o, outcomes j.effects = [o] ∧ o ≠ .retried := by
    obtain ⟨es, he, ho⟩ := hc
    obtain ⟨h₁, h₂⟩ := hafter he ho
    refine ⟨h₂.trans (putBack_none ?_), o, h₁, hne⟩
    rw [ho]
    exact fun hm => hne (List.mem_singleton.mp hm).symm
  cases t with
  | ok q =>
    refine .inl (hends (o := .ok) (by simp) ?_)
    rw [hj]
    exact ((Counts.refl g).emit _).quiet rfl
  | drop =>
    refine .inl (hends (o := .dropped) (by simp) ?_)
    rw [hj]
    exact (Counts.refl g).emit _
  | fail q resp exc =>
    refine .inl (hends (o := .failed) (by simp) ?_)
    rw [hj]
    exact fail_counts a.env q _ _ g
  | raise e => exact False.elim hg
  | retry b resp exc =>
    by_cases hgu : GivesUp st a.env b exc g.heap
    · refine .inl (hends (o := .failed) (by simp) ?_)
      rw [hj, settle, retryOrFail_of_givesUp st a.env resp hgu]
      exact fail_counts a.env b _ _ g
    · obtain ⟨hle, hlt, hpause⟩ := Or.resolve_left hg hgu
      obtain ⟨es, hes, ⟨hraises, -⟩ | ⟨-, he, hr⟩⟩ := retryOrFail_retries st a.env resp hgu
      · exact absurd hraises (by simp [hpause])
      have ho := outcomes_slept hes
      have hj' : j = (retryOrFail st a.env b resp exc g).2 := hj
      rw [← hj'] at he hr
      obtain ⟨h₁, h₂⟩ := hafter he (outcomes_retried b ho)
      refine .inr ⟨b, h₂.trans (putBack_retry es b), h₁, ?_, ?_⟩
      · have hmax : ¬ st.SPIDER_MAX_RETRY_TIMES ≤ (g.heap b).retryTimes := fun h => hgu (.inr h)
        omega
      · omega
  | replace b b' resp =>
    by_cases hgu : st.SPIDER_MAX_RETRY_TIMES ≤ (g.heap b).retryTimes
    · refine .inl (hends (o := .failed) (by simp) ?_)
      rw [hj, settle, retryReplacement_of_givesUp st a.env b' resp hgu]
      exact fail_counts a.env b _ _ g
    · obtain ⟨he, hr⟩ := retryReplacement_retries st a.env b' resp hgu
      have hle := Or.resolve_left hg hgu
      have hj' : j = (retryReplacement st a.env b b' resp g).2 := hj
      rw [← hj'] at he hr
      obtain ⟨h₁, h₂⟩ := hafter he (show outcomes [.stat "retry", .put b'] = [.retried] from rfl)
      refine .inr ⟨b', h₂, h₁, ?_, ?_⟩
      · omega
      · omega

end ParserWorker

/-! ## The rounds -/

namespace Lineage

variable {st : Setting} {s t : Lineage}

/-- The request has been processed and downloaded at most
`SPIDER_MAX_RETRY_TIMES + 1` times and has failed at most once, and it has ended
once if it is no longer put back. -/
structure Budgeted (st : Setting) (s : Lineage) : Prop where
  rounds : s.rounds ≤ st.SPIDER_MAX_RETRY_TIMES + 1
  downloads : s.downloads ≤ st.SPIDER_MAX_RETRY_TIMES + 1
  failed : s.failed ≤ 1
  ended : s.waiting = none → s.failed + s.settled = 1

/-- What holds between two rounds. -/
structure Counted (st : Setting) (s : Lineage) : Prop where
  downloads : s.downloads ≤ s.rounds
  waiting : ∀ r ∈ s.waiting, s.failed = 0 ∧ s.settled = 0 ∧
    (s.rounds = 0 ∨ (s.rounds ≤ st.SPIDER_MAX_RETRY_TIMES ∧ s.rounds ≤ r.retryTimes))
  ended : s.waiting = none → s.rounds ≤ st.SPIDER_MAX_RETRY_TIMES + 1 ∧ s.failed + s.settled = 1

theorem Counted.budgeted (h : Counted st s) (hmax : 0 ≤ st.SPIDER_MAX_RETRY_TIMES) : Budgeted st s := by
  have hd := h.downloads
  cases hw : s.waiting with
  | none =>
    obtain ⟨hr, he⟩ := h.ended hw
    exact ⟨hr, by omega, by omega, fun _ => he⟩
  | some r =>
    obtain ⟨hf, -, hr⟩ := h.waiting r hw
    exact ⟨by omega, by omega, by omega, fun hn => absurd (hw.symm.trans hn) (by simp)⟩

/-- Each round that spends the budget leaves the counts right. -/
theorem counted_step {a : Round} (hs : Counted st s) (hmax : 0 ≤ st.SPIDER_MAX_RETRY_TIMES)
    (hg : ParserWorker.Spends st a) (h : step st s a = some t) : Counted st t := by
  unfold step at h
  split at h
  · cases h
  · rename_i r hw
    split at h
    · rename_i hr
      obtain ⟨hf, hset, hrounds⟩ := hs.waiting r hw
      have hd := hs.downloads
      have hone : (ParserWorker.downloads a.env a.taken a.heap).toNat ≤ 1 := Bool.toNat_le _
      have hpos := hg.1
      have hcases := ParserWorker.round_cases st hg
      dsimp only at h hcases
      rw [countP_outcome fun e => (counts_iff e).1, countP_outcome fun e => (counts_iff e).2.1,
        countP_outcome fun e => (counts_iff e).2.2.2] at h
      rcases hcases with ⟨hp, o, ho, hne⟩ | ⟨b, hp, ho, hlt, hnext⟩
      · rw [hp, ho] at h
        cases h
        refine ⟨?_, fun _ hr => absurd hr (Option.not_mem_none _), fun _ => ⟨?_, ?_⟩⟩
        · show s.downloads + _ ≤ s.rounds + 1
          omega
        · show ((s.rounds + 1 : Nat) : Int) ≤ _
          omega
        · show s.failed + List.count .failed [o] + (s.settled + List.count .ok [o] + List.count .dropped [o]) = 1
          cases o with
          | retried => exact absurd rfl hne
          | ok | dropped | failed => simp [hf, hset]
      · rw [hp, ho] at h
        cases h
        refine ⟨?_, fun r' hr' => ⟨hf, hset, .inr ⟨?_, ?_⟩⟩, nofun⟩
        · show s.downloads + _ ≤ s.rounds + 1
          omega
        · show ((s.rounds + 1 : Nat) : Int) ≤ _
          omega
        · obtain rfl := Option.some.inj hr'
          show ((s.rounds + 1 : Nat) : Int) ≤ _
          omega
    · cases h

/-- In the rounds that spend the budget, a request and what replaces it are
downloaded at most `SPIDER_MAX_RETRY_TIMES + 1` times and end once. -/
theorem retry_budget (hmax : 0 ≤ st.SPIDER_MAX_RETRY_TIMES)
    (h : (machine st).Within (fun _ => ParserWorker.Spends st) s) : Budgeted st s := by
  refine Counted.budgeted (h.induct (I := Counted st) ?_ fun s a t hs hg ht => counted_step hs hmax hg ht) hmax
  rintro s ⟨r, rfl⟩
  exact ⟨Nat.le_refl 0, fun _ _ => ⟨rfl, rfl, .inl rfl⟩, nofun⟩

/-- A download that never works. -/
def failingDownload : Env where
  download _ h := (.error "RequestError", h)
  parse _ _ h := (.ok none, h)

/-- And a middleware that returns a new request, the object 1, for each. -/
def freshRequests : Env :=
  { failingDownload with
    middlewares := [{ processRequest := some fun _ h =>
      (.ok (.request 1), Function.update h 1 { url := "a" }) }] }

/-- Rounds in which the request is taken with these counts. -/
def roundsWith (env : Env) (times : List Int) : List Round :=
  times.map fun n => ⟨env, 0, fun _ => { url := "a", retryTimes := n }⟩

def newRequest : Lineage := { waiting := some { url := "a" } }

def after (env : Env) (times : List Int) : Lineage := ((machine {}).exec newRequest (roundsWith env times)).getD newRequest

theorem exec_after {env : Env} {times : List Int}
    (h : ((machine {}).exec newRequest (roundsWith env times)).isSome = true) :
    (machine {}).exec newRequest (roundsWith env times) = some (after env times) :=
  Machine.exec_getD h _

theorem retry_budget_failingDownload : Budgeted {} (after failingDownload [0, 1, 2, 3]) :=
  retry_budget (by decide) (.exec (.start ⟨_, rfl⟩) (by decide +kernel) (exec_after (by decide +kernel)))

/-- Each round reads the count of the new request, which is 0, and puts it back
with the count 1. -/
theorem freshRequests_not_budgeted :
    ¬ ∀ s : Lineage, (machine {}).Reachable s → Budgeted {} s := by
  intro h
  have hr : (machine {}).Reachable (after freshRequests [0, 1, 1, 1, 1]) :=
    .exec (.start ⟨_, rfl⟩) (exec_after (by decide +kernel))
  exact absurd (h _ hr).downloads (by decide +kernel)

end Lineage

end Netspy
