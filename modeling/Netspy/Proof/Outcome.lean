import Netspy.Proof.Turn

/-!
# The outcome of a request

Every round of `_process` that no exception leaves counts its request under one
of `REQUEST_OK`, `DROPPED`, `RETRY` and `REQUEST_FAILED`, and puts it back or
hands it to the failed sink accordingly; a round that an exception leaves before
the turn is taken does nothing of this (`process_accounted_iff`).
-/

namespace Netspy

inductive Outcome where
  | ok
  | dropped
  | retried
  | failed
  deriving Repr, DecidableEq

/-- The outcome that a counter stands for. -/
def Outcome.of : Effect → Option Outcome
  | .stat "request_ok" => some .ok
  | .stat "dropped" => some .dropped
  | .stat "retry" => some .retried
  | .stat "request_failed" => some .failed
  | _ => none

def outcomes (es : List Effect) : List Outcome := es.filterMap Outcome.of

/-- There is one outcome; a request that is retried is put back, or what replaces
it is, and one that failed is given to the failed sink. -/
def Accounted (env : Env) (q : Ref) (es : List Effect) : Prop :=
  ∃ o, outcomes es = [o] ∧
    (o = .retried → [.putRetry q] <:+ es ∨ ∃ q', [.stat "retry", .put q'] <:+ es) ∧
    (o = .failed → env.failedSink = true → .failedSink q ∈ es)

/-- `j'` is `j` after effects with the outcomes `os`. -/
def Counts (os : List Outcome) (j j' : Job) : Prop :=
  ∃ es, j'.effects = j.effects ++ es ∧ outcomes es = os

namespace Counts

variable {os os' : List Outcome} {j j₁ j₂ : Job}

theorem refl (j : Job) : Counts [] j j := ⟨[], (List.append_nil _).symm, rfl⟩

theorem trans (h : Counts os j j₁) (h' : Counts os' j₁ j₂) : Counts (os ++ os') j j₂ := by
  obtain ⟨es, he, ho⟩ := h
  obtain ⟨es', he', ho'⟩ := h'
  refine ⟨es ++ es', by rw [he', he, List.append_assoc], ?_⟩
  rw [outcomes, List.filterMap_append]
  exact congrArg₂ _ ho ho'

theorem emit (h : Counts os j j₁) (e : Effect) : Counts (os ++ (Outcome.of e).toList) j (j₁.emit e) := by
  refine h.trans ⟨[e], rfl, ?_⟩
  cases hoe : Outcome.of e <;> simp [outcomes, List.filterMap, hoe]

/-- An effect that is no outcome. -/
theorem quiet (h : Counts os j j₁) {e : Effect} (he : Outcome.of e = none) : Counts os j (j₁.emit e) := by
  have hc := h.emit e
  rwa [he, Option.toList_none, List.append_nil] at hc

end Counts

namespace ParserWorker

variable (st : Setting) (env : Env)

/-- What comes before the turn counts nothing. -/
theorem outcomes_beforeTurn {es : List Effect} (h : ∀ e ∈ es, e.BeforeTurn) : outcomes es = [] := by
  refine List.filterMap_eq_nil_iff.mpr fun e hmem => ?_
  have hP := h e hmem
  unfold Outcome.of
  split
  · exact absurd (by decide) hP
  · exact absurd (by decide) hP
  · exact absurd (by decide) hP
  · exact absurd (by decide) hP
  · rfl

theorem Emits.counts {j j' : Job} (h : Emits Effect.BeforeTurn j j') : Counts [] j j' := by
  obtain ⟨es, he, hbefore⟩ := h
  exact ⟨es, he, outcomes_beforeTurn hbefore⟩

theorem turn_counts (q : Ref) (j : Job) : Counts [] j (turn st env q j).2 := Emits.counts (turn_emits st env q j)

/-! ## Each turn counts once -/

/-- The effects after `j` are accounted for. -/
def Settles (env : Env) (q : Ref) (j j' : Job) : Prop :=
  ∃ es, j'.effects = j.effects ++ es ∧ Accounted env q es

theorem failing_counts (q : Ref) (resp : Option Response) (exc : Option Exn) (j : Job) :
    Counts [.failed] j (failing env q resp exc j) := by
  have hcounted : Counts [.failed] j (j.emit (.stat "request_failed")) := (Counts.refl j).emit _
  unfold failing
  dsimp only
  split
  · exact hcounted.quiet rfl
  · exact hcounted

/-- `_fail` counts once, and nothing after it. -/
theorem fail_counts (q : Ref) (resp : Option Response) (exc : Option Exn) (j : Job) :
    Counts [.failed] j (fail env q resp exc j).2 := by
  obtain ⟨j₁, hhook, he⟩ := fail_rule env (Emits.rule q) resp exc j
  have hc := (failing_counts env q resp exc j).trans (Emits.counts hhook)
  rcases he with he | he
  · exact he ▸ hc
  · exact he ▸ hc.quiet rfl

/-- Without an exception of the breaker the sink is given the request. -/
theorem fail_settles {q : Ref} {resp : Option Response} {exc : Option Exn} {j : Job}
    (h : ¬(env.failedSink = true ∧ BreakerRaises env q resp exc j.heap)) :
    Settles env q j (fail env q resp exc j).2 := by
  obtain ⟨es, hes, ho⟩ := fail_counts env q resp exc j
  refine ⟨es, hes, .failed, ho, nofun, fun _ hs => ?_⟩
  have hb : ¬BreakerRaises env q resp exc j.heap := fun hb => h ⟨hs, hb⟩
  rw [fail_of_not_raises env hb] at hes
  obtain ⟨j₁, ⟨es₁, h₁, -⟩, he⟩ := handFailed_rule env (Emits.rule q) resp (failing env q resp exc j)
  obtain ⟨es₂, h₂, -⟩ := failing_counts env q resp exc j
  dsimp only at hes
  rw [he, if_pos hs, Job.emit_effects, h₁, h₂, List.append_assoc, List.append_assoc] at hes
  rw [← List.append_cancel_left hes]
  exact List.mem_append_right _ (List.mem_append_right _ List.mem_cons_self)

/-- The wait of `_retry_or_fail` raises: its length cannot be computed, or slept. -/
def pauseRaises (q : Ref) (resp : Option Response) (h : Heap) (now : ℚ) : Bool :=
  match RetryAfter.retryDelay env.header st env.uniform (h q).retryTimes resp now with
  | .error _ => true
  | .ok delay => (PyFloat.fin 0).lt delay && !(env.sleep delay).isOk

theorem pause_spec (q : Ref) (resp : Option Response) (j : Job) :
    (∃ es, (pause st env q resp j).2.effects = j.effects ++ es ∧ ∀ e ∈ es, ∃ delay, e = .sleep delay) ∧
      ((∃ e, (pause st env q resp j).1 = .error e) ↔ pauseRaises st env q resp j.heap (env.clock j.reads) = true) := by
  unfold pause pauseRaises
  cases RetryAfter.retryDelay env.header st env.uniform (j.heap q).retryTimes resp (env.clock j.reads) with
  | error e => exact ⟨⟨[], (List.append_nil _).symm, nofun⟩, iff_of_true ⟨e, rfl⟩ rfl⟩
  | ok delay =>
    dsimp only
    by_cases hlt : (PyFloat.fin 0).lt delay = true
    · rw [if_pos hlt, hlt, Bool.true_and]
      refine ⟨⟨[.sleep delay], rfl, by simp⟩, ?_⟩
      cases env.sleep delay with
      | error e => exact iff_of_true ⟨e, rfl⟩ rfl
      | ok _ => exact iff_of_false nofun nofun
    · rw [if_neg hlt, Bool.eq_false_iff.mpr hlt, Bool.false_and]
      exact ⟨⟨[], (List.append_nil _).symm, nofun⟩, iff_of_false nofun nofun⟩

/-- What `_retry_or_fail` does when it does not give up, in two cases. -/
theorem retryOrFail_eq {q : Ref} {exc : Exn} {j j₁ j₂ : Job} (resp : Option Response)
    (h : ¬ GivesUp st env q exc j.heap) (h₁ : (j.emit (.stat "retry")).setHeap (retriedHeap env q resp exc j.heap) = j₁)
    (h₂ : (pause st env q resp j₁).2 = j₂) :
    pauseRaises st env q resp j₁.heap (env.clock j₁.reads) = true ∧ (∃ e, retryOrFail st env q resp exc j = (.error e, j₂)) ∨
      ¬(pauseRaises st env q resp j₁.heap (env.clock j₁.reads) = true) ∧ (retryOrFail st env q resp exc j).2 =
        (j₂.setHeap (Function.update j₂.heap q { j₂.heap q with filterRepeat := false })).emit (.putRetry q) := by
  obtain ⟨-, hraises⟩ := pause_spec st env q resp j₁
  subst h₂
  rw [retryOrFail_of_not_givesUp st env resp h, h₁]
  rcases hp : pause st env q resp j₁ with ⟨e | _, j₂⟩ <;> rw [hp] at hraises
  · exact .inl ⟨hraises.mp ⟨e, rfl⟩, e, rfl⟩
  · refine .inr ⟨fun h => ?_, rfl⟩
    obtain ⟨e, he⟩ := hraises.mpr h
    cases he

/-- A retry counts, and is put back unless the wait raises. -/
theorem retryOrFail_retries {q : Ref} {exc : Exn} {j : Job} (resp : Option Response)
    (h : ¬ GivesUp st env q exc j.heap) :
    ∃ es, (∀ e ∈ es, ∃ delay, e = Effect.sleep delay) ∧
      (pauseRaises st env q resp (retriedHeap env q resp exc j.heap) (env.clock j.reads) = true ∧
          (∃ e, (retryOrFail st env q resp exc j).1 = .error e) ∧
          (retryOrFail st env q resp exc j).2.effects = j.effects ++ Effect.stat "retry" :: es ∨
        ¬(pauseRaises st env q resp (retriedHeap env q resp exc j.heap) (env.clock j.reads) = true) ∧
          (retryOrFail st env q resp exc j).2.effects = j.effects ++ (Effect.stat "retry" :: es ++ [Effect.putRetry q]) ∧
          ((retryOrFail st env q resp exc j).2.heap q).retryTimes = (retriedHeap env q resp exc j.heap q).retryTimes) := by
  let j₁ : Job := (j.emit (.stat "retry")).setHeap (retriedHeap env q resp exc j.heap)
  obtain ⟨⟨es, he, hes⟩, -⟩ := pause_spec st env q resp j₁
  have he' : (pause st env q resp j₁).2.effects = j.effects ++ Effect.stat "retry" :: es := by
    rw [he]
    exact List.append_assoc ..
  refine ⟨es, hes, ?_⟩
  rcases retryOrFail_eq st env resp h (rfl : _ = j₁) rfl with ⟨hraises, e, hr⟩ | ⟨hraises, hr⟩
  · exact .inl ⟨hraises, ⟨e, by rw [hr]⟩, by rw [hr]; exact he'⟩
  · refine .inr ⟨hraises, ?_, ?_⟩
    · rw [hr, Job.emit_effects, Job.setHeap_effects, he', List.append_assoc]
    · rw [hr]
      show (Function.update (pause st env q resp j₁).2.heap q
        { (pause st env q resp j₁).2.heap q with filterRepeat := false } q).retryTimes = _
      rw [Function.update_self, pause_heap]
      rfl

omit st env in
theorem outcomes_slept {es : List Effect} (h : ∀ e ∈ es, ∃ delay, e = Effect.sleep delay) : outcomes es = [] := by
  refine List.filterMap_eq_nil_iff.mpr fun e he => ?_
  obtain ⟨delay, rfl⟩ := h e he
  rfl

omit st env in
theorem outcomes_retried {es : List Effect} (q : Ref) (h : outcomes es = []) :
    outcomes (Effect.stat "retry" :: es ++ [Effect.putRetry q]) = [.retried] := by
  show Outcome.retried :: outcomes (es ++ [Effect.putRetry q]) = [.retried]
  rw [outcomes, List.filterMap_append]
  exact congrArg (Outcome.retried :: ·) ((List.append_nil _).trans h)

theorem retryReplacement_of_givesUp {q : Ref} {j : Job} (q' : Ref) (resp : Response)
    (h : st.SPIDER_MAX_RETRY_TIMES ≤ (j.heap q).retryTimes) :
    retryReplacement st env q q' resp j = fail env q (some resp) none j := if_pos h

theorem retryReplacement_retries {q : Ref} {j : Job} (q' : Ref) (resp : Response)
    (h : ¬ st.SPIDER_MAX_RETRY_TIMES ≤ (j.heap q).retryTimes) :
    (retryReplacement st env q q' resp j).2.effects = j.effects ++ [Effect.stat "retry", .put q'] ∧
      ((retryReplacement st env q q' resp j).2.heap q').retryTimes = (j.heap q).retryTimes + 1 := by
  unfold retryReplacement
  rw [if_neg h]
  refine ⟨?_, ?_⟩
  · simp only [Job.emit_effects, Job.setHeap_effects, List.append_assoc]
    rfl
  · simp only [Job.setHeap, Job.emit, Function.update_self]

/-- An exception leaves a turn before its outcome is complete. -/
def Unsettled (t : Turn) (j : Job) : Prop :=
  match t with
  | .ok _ | .drop => False
  | .raise _ => True
  | .fail q resp exc => env.failedSink = true ∧ BreakerRaises env q (some resp) (some exc) j.heap
  | .replace q _ resp =>
    st.SPIDER_MAX_RETRY_TIMES ≤ (j.heap q).retryTimes ∧ env.failedSink = true ∧ BreakerRaises env q (some resp) none j.heap
  | .retry q resp exc =>
    GivesUp st env q exc j.heap ∧ env.failedSink = true ∧ BreakerRaises env q resp (some exc) j.heap ∨
      ¬GivesUp st env q exc j.heap ∧ pauseRaises st env q resp (retriedHeap env q resp exc j.heap) (env.clock j.reads) = true

variable {st env}

/-- What comes before a turn does not matter to its outcome. -/
theorem Settles.accounted {q : Ref} {j j' : Job} (hj : ∀ e ∈ j.effects, e.BeforeTurn) (h : Settles env q j j') :
    Accounted env q j'.effects := by
  obtain ⟨es, he, o, hone, hput, hsink⟩ := h
  rw [he]
  refine ⟨o, ?_, fun hr => ?_, fun hf hs => List.mem_append_right _ (hsink hf hs)⟩
  · rw [outcomes, List.filterMap_append]
    exact (congrArg (· ++ _) (outcomes_beforeTurn hj)).trans hone
  · refine (hput hr).imp (fun h => ?_) fun ⟨q', h⟩ => ⟨q', ?_⟩
    · exact h.trans (List.suffix_append _ _)
    · exact h.trans (List.suffix_append _ _)

/-- Of what has failed, the sink is told exactly if the breaker does not raise first. -/
theorem fail_accounted_iff {q : Ref} {resp : Option Response} {exc : Option Exn} {j : Job}
    (hj : ∀ e ∈ j.effects, e.BeforeTurn) :
    Accounted env q (fail env q resp exc j).2.effects ↔ ¬(env.failedSink = true ∧ BreakerRaises env q resp exc j.heap) := by
  refine ⟨fun h ⟨hs, hb⟩ => ?_, fun h => (fail_settles env h).accounted hj⟩
  obtain ⟨o, ho, -, hsink⟩ := h
  obtain ⟨e, he⟩ := fail_of_raises env hb
  obtain ⟨es, hes, hone⟩ := fail_counts env q resp exc j
  have hfailed : o = .failed := by
    rw [hes, outcomes, List.filterMap_append, show j.effects.filterMap Outcome.of = [] from outcomes_beforeTurn hj] at ho
    exact (List.singleton_inj.mp (hone.symm.trans ho)).symm
  have hm := hsink hfailed hs
  have hfailing : (failing env q resp exc j).effects =
      j.effects ++ [Effect.stat "request_failed", .recordFailure (j.heap q).url] := by
    unfold failing
    dsimp only
    rw [if_pos hb.1]
    exact List.append_assoc ..
  rw [he, hfailing] at hm
  rcases List.mem_append.mp hm with hm | hm
  · exact hj _ hm
  · simp at hm

theorem retryOrFail_accounted_iff {q : Ref} {resp : Option Response} {exc : Exn} {j : Job}
    (hj : ∀ e ∈ j.effects, e.BeforeTurn) :
    Accounted env q (retryOrFail st env q resp exc j).2.effects ↔ ¬Unsettled st env (.retry q resp exc) j := by
  by_cases hg : GivesUp st env q exc j.heap
  · rw [retryOrFail_of_givesUp st env resp hg, fail_accounted_iff hj]
    exact not_congr ⟨fun h => .inl ⟨hg, h⟩, fun h => h.elim And.right fun h => absurd hg h.1⟩
  · have hunsettled : Unsettled st env (.retry q resp exc) j ↔
        pauseRaises st env q resp (retriedHeap env q resp exc j.heap) (env.clock j.reads) = true :=
      ⟨fun h => h.elim (fun h => absurd h.1 hg) And.right, fun h => .inr ⟨hg, h⟩⟩
    rw [hunsettled]
    obtain ⟨es, hes, ⟨hraises, -, he⟩ | ⟨hraises, he, -⟩⟩ := retryOrFail_retries st env resp hg
    · refine iff_of_false ?_ (not_not.mpr hraises)
      rintro ⟨o, ho, hput, -⟩
      have hr : o = .retried := by
        rw [he, outcomes, List.filterMap_append, show j.effects.filterMap Outcome.of = [] from outcomes_beforeTurn hj] at ho
        have hone : Outcome.retried :: outcomes es = [o] := ho
        exact (List.cons.inj hone).1.symm
      -- the last effect is the count, or the sleep that raised
      have hlast : ∀ e ∈ (j.effects ++ Effect.stat "retry" :: es).getLast?,
          e = .stat "retry" ∨ ∃ delay, e = .sleep delay := by
        intro e hm
        rw [List.getLast?_append_of_ne_nil _ (List.cons_ne_nil _ _)] at hm
        exact (List.mem_cons.mp (List.mem_of_getLast? hm)).imp id (hes e)
      rw [he] at hput
      rcases hput hr with ⟨pre, hp⟩ | ⟨q', pre, hp⟩
      · rcases hlast (.putRetry q) (by rw [← hp]; simp) with h | ⟨_, h⟩ <;> cases h
      · rcases hlast (.put q') (by rw [← hp]; simp) with h | ⟨_, h⟩ <;> cases h
    · refine iff_of_true (Settles.accounted hj ⟨_, he, .retried, outcomes_retried q (outcomes_slept hes),
        fun _ => .inl ?_, nofun⟩) hraises
      exact ⟨.stat "retry" :: es, rfl⟩

theorem settle_accounted_iff {q : Ref} {t : Turn} {j : Job} (hq : t.Of q) (hj : ∀ e ∈ j.effects, e.BeforeTurn) :
    Accounted env q (settle st env (t, j)).2.effects ↔ ¬Unsettled st env t j := by
  cases t with
  | ok q' =>
    refine iff_of_true (Settles.accounted hj ⟨[.stat "request_ok", .recordSuccess (j.heap q').url], ?_, .ok, rfl,
        nofun, nofun⟩) id
    exact List.append_assoc ..
  | drop => exact iff_of_true (Settles.accounted hj ⟨[.stat "dropped"], rfl, .dropped, rfl, nofun, nofun⟩) id
  | retry q' resp exc => exact hq ▸ retryOrFail_accounted_iff hj
  | replace q' q'' resp =>
    subst hq
    by_cases hg : st.SPIDER_MAX_RETRY_TIMES ≤ (j.heap q').retryTimes
    · rw [settle, retryReplacement_of_givesUp st env q'' resp hg, fail_accounted_iff hj]
      exact not_congr ⟨fun h => ⟨hg, h⟩, And.right⟩
    · refine iff_of_true (Settles.accounted hj ?_) fun h => hg h.1
      exact ⟨_, (retryReplacement_retries st env q'' resp hg).1, .retried, rfl,
        fun _ => .inr ⟨q'', List.suffix_refl _⟩, nofun⟩
  | fail q' resp exc =>
    subst hq
    exact fail_accounted_iff hj
  | raise e =>
    refine iff_of_false ?_ (not_not.mpr trivial)
    rintro ⟨o, ho, -⟩
    have hnone : outcomes j.effects = [] := outcomes_beforeTurn hj
    cases hnone.symm.trans ho

/-! ## Where an exception gets away -/

/-- What `_process` does next. -/
inductive Stage where
  | fetch
  | respond
  | check
  | validate
  | call

variable (st env)

/-- How far a round gets: what is next, the request that is bound then, and its response. -/
inductive Gets (q : Ref) (h : Heap) : Stage → Ref → Option Response → Job → Prop
  | hooked {q' : Ref} {h₁ h₂ : Heap} {replaced : Option Ref} :
      Middleware.processRequests env.middlewares q h = (.ok (.inl q'), h₁) →
      env.downloadMidware q' h₁ = (.ok replaced, h₂) → Gets q h .fetch (replaced.getD q') none { heap := h₂ }
  | given {r : Response} {h₁ h₂ : Heap} {replaced : Option Ref} :
      Middleware.processRequests env.middlewares q h = (.ok (.inr r), h₁) →
      env.downloadMidware q h₁ = (.ok replaced, h₂) → Gets q h .respond (replaced.getD q) (some r) { heap := h₂ }
  | unasked {q' : Ref} {j : Job} : Gets q h .fetch q' none j → (j.heap q').autoRequest = false → Gets q h .call q' none j
  | downloaded {q' : Ref} {j : Job} {r : Response} {h' : Heap} : Gets q h .fetch q' none j →
      (j.heap q').autoRequest = true → env.robotsAllowed (j.heap q').url = .ok true →
      env.download q' j.heap = (.ok r, h') → Gets q h .respond q' (some r) (j.setHeap h')
  | passed {q' : Ref} {j : Job} {r r' : Response} {h' : Heap} : Gets q h .respond q' (some r) j →
      Middleware.processResponses env.middlewares.reverse q' r j.heap = (.ok (.inl r'), h') →
      Gets q h .check q' (some r') (j.setHeap h')
  | accepted {q' : Ref} {j : Job} {r : Response} : Gets q h .check q' (some r) j → classify st r = .ok →
      Gets q h .validate q' (some r) j
  | valid {q' : Ref} {j : Job} {r : Response} {ok : Option Bool} {h' : Heap} : Gets q h .validate q' (some r) j →
      env.validate q' r j.heap = (.ok ok, h') → ok ≠ some false → Gets q h .call q' (some r) (j.setHeap h')

/-- `_retry_or_fail` is called. -/
inductive Retries (q : Ref) (h : Heap) : Ref → Option Response → Exn → Job → Prop
  | processRequest {e : Exn} {h₁ : Heap} : Middleware.processRequests env.middlewares q h = (.error e, h₁) →
      Retries q h q none e { heap := h₁ }
  | downloadMidware {q' : Ref} {h₁ h₂ : Heap} {e : Exn} :
      Middleware.processRequests env.middlewares q h = (.ok (.inl q'), h₁) →
      env.downloadMidware q' h₁ = (.error e, h₂) → Retries q h q' none e { heap := h₂ }
  | downloadMidware_given {r : Response} {h₁ h₂ : Heap} {e : Exn} :
      Middleware.processRequests env.middlewares q h = (.ok (.inr r), h₁) →
      env.downloadMidware q h₁ = (.error e, h₂) → Retries q h q none e { heap := h₂ }
  | download {q' : Ref} {j : Job} {e : Exn} {h' : Heap} : Gets st env q h .fetch q' none j →
      (j.heap q').autoRequest = true → env.robotsAllowed (j.heap q').url = .ok true →
      env.download q' j.heap = (.error e, h') → env.isinstance e "ContentTypeRejectedError" = false →
      env.isinstance e "RequestError" = true → Retries q h q' none e (j.setHeap h')
  | status {q' : Ref} {j j₁ : Job} {r : Response} {cooldown : Option PyFloat} : Gets st env q h .check q' (some r) j →
      classify st r = .retry →
      RetryAfter.retryAfterSeconds env.header st (some r) (env.clock j.reads) = .ok cooldown →
      penalize st env q' cooldown j.read = (.ok (), j₁) →
      RetryAfter.retryAfterTooLong env.header st (some r) (env.clock j₁.reads) = .ok none →
      Retries q h q' (some r) "HttpStatusError" j₁.read
  | validate {q' : Ref} {j : Job} {r : Response} {e : Exn} {h' : Heap} : Gets st env q h .validate q' (some r) j →
      env.validate q' r j.heap = (.error e, h') → env.isinstance e "ValidationError" = true →
      Retries q h q' (some r) e (j.setHeap h')
  | callback {q' : Ref} {resp : Option Response} {j j₁ : Job} {callback : Callback.Fn} {e : Exn} :
      Gets st env q h .call q' resp j → resolveCallback env q' j.heap = .ok callback →
      invoke env callback q' resp j = (.error e, j₁) → env.isinstance e "NotRetryError" = false →
      Retries q h q' resp e (j₁.emit (.stat "parse_error"))

/-- `_fail` is called. -/
inductive Fails (q : Ref) (h : Heap) : Ref → Option Response → Option Exn → Job → Prop
  | status {q' : Ref} {j : Job} {r : Response} : Gets st env q h .check q' (some r) j → classify st r = .fail →
      Fails q h q' (some r) (some "HttpStatusError") j
  | tooLong {q' : Ref} {j j₁ : Job} {r : Response} {cooldown : Option PyFloat} {seconds : PyFloat} :
      Gets st env q h .check q' (some r) j → classify st r = .retry →
      RetryAfter.retryAfterSeconds env.header st (some r) (env.clock j.reads) = .ok cooldown →
      penalize st env q' cooldown j.read = (.ok (), j₁) →
      RetryAfter.retryAfterTooLong env.header st (some r) (env.clock j₁.reads) = .ok (some seconds) →
      Fails q h q' (some r) (some "HttpStatusError") j₁.read
  | givenUp {q' : Ref} {resp : Option Response} {exc : Exn} {j : Job} : Retries st env q h q' resp exc j →
      GivesUp st env q' exc j.heap → Fails q h q' resp (some exc) j
  | replaced {q' q'' : Ref} {j : Job} {r : Response} {h' : Heap} : Gets st env q h .respond q' (some r) j →
      Middleware.processResponses env.middlewares.reverse q' r j.heap = (.ok (.inr q''), h') →
      st.SPIDER_MAX_RETRY_TIMES ≤ (h' q').retryTimes → Fails q h q' (some r) none (j.setHeap h')

/-- A call that raises where nothing catches it and no outcome is complete. -/
inductive Escapes (q : Ref) (h : Heap) : Prop
  | robots {q' : Ref} {j : Job} {e : Exn} : Gets st env q h .fetch q' none j → (j.heap q').autoRequest = true →
      env.robotsAllowed (j.heap q').url = .error e → Escapes q h
  | download {q' : Ref} {j : Job} {e : Exn} {h' : Heap} : Gets st env q h .fetch q' none j →
      (j.heap q').autoRequest = true → env.robotsAllowed (j.heap q').url = .ok true →
      env.download q' j.heap = (.error e, h') → env.isinstance e "ContentTypeRejectedError" = false →
      env.isinstance e "RequestError" = false → Escapes q h
  | processResponse {q' : Ref} {j : Job} {r : Response} {e : Exn} {h' : Heap} : Gets st env q h .respond q' (some r) j →
      Middleware.processResponses env.middlewares.reverse q' r j.heap = (.error e, h') → Escapes q h
  | retryAfter {q' : Ref} {j : Job} {r : Response} {e : Exn} : Gets st env q h .check q' (some r) j →
      classify st r = .retry → RetryAfter.retryAfterSeconds env.header st (some r) (env.clock j.reads) = .error e →
      Escapes q h
  | penalize {q' : Ref} {j j₁ : Job} {r : Response} {cooldown : Option PyFloat} {e : Exn} :
      Gets st env q h .check q' (some r) j → classify st r = .retry →
      RetryAfter.retryAfterSeconds env.header st (some r) (env.clock j.reads) = .ok cooldown →
      penalize st env q' cooldown j.read = (.error e, j₁) → Escapes q h
  | retryAfterTooLong {q' : Ref} {j j₁ : Job} {r : Response} {cooldown : Option PyFloat} {e : Exn} :
      Gets st env q h .check q' (some r) j → classify st r = .retry →
      RetryAfter.retryAfterSeconds env.header st (some r) (env.clock j.reads) = .ok cooldown →
      penalize st env q' cooldown j.read = (.ok (), j₁) →
      RetryAfter.retryAfterTooLong env.header st (some r) (env.clock j₁.reads) = .error e → Escapes q h
  | validate {q' : Ref} {j : Job} {r : Response} {e : Exn} {h' : Heap} : Gets st env q h .validate q' (some r) j →
      env.validate q' r j.heap = (.error e, h') → env.isinstance e "ValidationError" = false →
      env.isinstance e "NotRetryError" = false → Escapes q h
  | callbackName {q' : Ref} {resp : Option Response} {j : Job} {e : Exn} : Gets st env q h .call q' resp j →
      resolveCallback env q' j.heap = .error e → Escapes q h
  | pause {q' : Ref} {resp : Option Response} {exc : Exn} {j : Job} : Retries st env q h q' resp exc j →
      ¬GivesUp st env q' exc j.heap → pauseRaises st env q' resp (retriedHeap env q' resp exc j.heap)
        (env.clock j.reads) = true →
      Escapes q h
  | breaker {q' : Ref} {resp : Option Response} {exc : Option Exn} {j : Job} : Fails st env q h q' resp exc j →
      env.failedSink = true → BreakerRaises env q' resp exc j.heap → Escapes q h

variable {st env} {q q' : Ref} {h : Heap} {resp : Option Response} {exc : Exn} {j : Job}

/-- The rest of a round. -/
def rest (st : Setting) (env : Env) : Stage → Ref → Option Response → Job → Turn × Job
  | .fetch, q, resp, j => fetchTurn st env q resp j
  | .respond, q, resp, j => responseTurn st env q resp j
  | .check, q, some r, j => statusTurn st env q r j
  | .validate, q, some r, j => validateTurn env q r j
  | _, q, resp, j => callBackTurn env q resp j

theorem Gets.turn {stage : Stage} (hg : Gets st env q h stage q' resp j) :
    turn st env q { heap := h } = rest st env stage q' resp j := by
  induction hg with
  | hooked h₁ h₂ => simp only [ParserWorker.turn, h₁, h₂, rest, Job.setHeap]
  | given h₁ h₂ => simp only [ParserWorker.turn, h₁, h₂, rest, fetchTurn, Option.isSome_some, Bool.true_or, if_true,
      Job.setHeap]
  | unasked _ hauto ih => simp [ih, rest, fetchTurn, hauto, responseTurn]
  | downloaded _ hauto hrobots hdown ih => simp [ih, rest, fetchTurn, hauto, hrobots, hdown]
  | passed _ hresp ih => simp only [ih, rest, responseTurn, hresp]
  | accepted _ hst ih => simp only [ih, rest, statusTurn, hst]
  | valid _ hval hok ih => simp only [ih, rest, validateTurn, hval, if_neg hok]

theorem Retries.turn (hr : Retries st env q h q' resp exc j) : turn st env q { heap := h } = (.retry q' resp exc, j) := by
  cases hr with
  | processRequest h₁ => simp only [ParserWorker.turn, h₁, Job.setHeap]
  | downloadMidware h₁ h₂ => simp only [ParserWorker.turn, h₁, h₂, Job.setHeap]
  | downloadMidware_given h₁ h₂ => simp only [ParserWorker.turn, h₁, h₂, Job.setHeap]
  | download hg hauto hrobots hdown hct hreq => simp [hg.turn, rest, fetchTurn, hauto, hrobots, hdown, hct, hreq]
  | status hg hst hsec hpen hlong => simp only [hg.turn, rest, statusTurn, hst, hsec, hpen, hlong]
  | validate hg hval hexc => simp only [hg.turn, rest, validateTurn, hval, hexc, if_true]
  | callback hg hcb hinv hexc => simp only [hg.turn, rest, callBackTurn, hcb, hinv, hexc, Bool.false_eq_true, if_false]

theorem Fails.unsettled {exc : Option Exn} (hf : Fails st env q h q' resp exc j) (hs : env.failedSink = true)
    (hb : BreakerRaises env q' resp exc j.heap) :
    Unsettled st env (turn st env q { heap := h }).1 (turn st env q { heap := h }).2 := by
  cases hf with
  | status hg hst =>
    simp only [hg.turn, rest, statusTurn, hst]
    exact ⟨hs, hb⟩
  | tooLong hg hst hsec hpen hlong =>
    simp only [hg.turn, rest, statusTurn, hst, hsec, hpen, hlong]
    exact ⟨hs, hb⟩
  | givenUp hr hg =>
    rw [hr.turn]
    exact .inl ⟨hg, hs, hb⟩
  | replaced hg hresp hmax =>
    simp only [hg.turn, rest, responseTurn, hresp]
    exact ⟨hmax, hs, hb⟩

theorem Escapes.unsettled (he : Escapes st env q h) :
    Unsettled st env (turn st env q { heap := h }).1 (turn st env q { heap := h }).2 := by
  cases he with
  | robots hg hauto hrobots => simp [hg.turn, rest, fetchTurn, hauto, hrobots, Unsettled]
  | download hg hauto hrobots hdown hct hreq =>
    simp [hg.turn, rest, fetchTurn, hauto, hrobots, hdown, hct, hreq, Unsettled]
  | processResponse hg hresp => simp only [hg.turn, rest, responseTurn, hresp, Unsettled]
  | retryAfter hg hst hsec => simp only [hg.turn, rest, statusTurn, hst, hsec, Unsettled]
  | penalize hg hst hsec hpen => simp only [hg.turn, rest, statusTurn, hst, hsec, hpen, Unsettled]
  | retryAfterTooLong hg hst hsec hpen hlong => simp only [hg.turn, rest, statusTurn, hst, hsec, hpen, hlong, Unsettled]
  | validate hg hval hexc hnot =>
    simp only [hg.turn, rest, validateTurn, hval, hexc, hnot, Bool.false_eq_true, if_false, Unsettled]
  | callbackName hg hcb => simp only [hg.turn, rest, callBackTurn, hcb, Unsettled]
  | pause hr hg hp =>
    rw [hr.turn]
    exact .inr ⟨hg, hp⟩
  | breaker hf hs hb => exact hf.unsettled hs hb

/-! An exception that leaves a turn unsettled comes from one of these calls. -/

theorem Retries.escapes (hr : Retries st env q h q' resp exc j) (hu : Unsettled st env (.retry q' resp exc) j) :
    Escapes st env q h := by
  rcases hu with ⟨hg, hs, hb⟩ | ⟨hg, hp⟩
  · exact .breaker (.givenUp hr hg) hs hb
  · exact .pause hr hg hp

theorem call_escapes (hg : Gets st env q h .call q' resp j)
    (hu : Unsettled st env (callBackTurn env q' resp j).1 (callBackTurn env q' resp j).2) : Escapes st env q h := by
  unfold callBackTurn at hu
  cases hcb : resolveCallback env q' j.heap with
  | error e => exact .callbackName hg hcb
  | ok callback =>
    simp only [hcb] at hu
    rcases hinv : invoke env callback q' resp j with ⟨e | _, j₁⟩ <;> simp only [hinv] at hu
    · cases hexc : env.isinstance e "NotRetryError" with
      | true => exact absurd hu (by simp [hexc, Unsettled])
      | false => exact (Retries.callback hg hcb hinv hexc).escapes (by simpa [hexc] using hu)
    · exact hu.elim

theorem validate_escapes {r : Response} (hg : Gets st env q h .validate q' (some r) j)
    (hu : Unsettled st env (validateTurn env q' r j).1 (validateTurn env q' r j).2) : Escapes st env q h := by
  unfold validateTurn at hu
  rcases hval : env.validate q' r j.heap with ⟨e | ok, h'⟩ <;> simp only [hval] at hu
  · cases hexc : env.isinstance e "ValidationError" with
    | true => exact (Retries.validate hg hval hexc).escapes (by simpa [hexc] using hu)
    | false =>
      cases hnot : env.isinstance e "NotRetryError" with
      | true => exact absurd hu (by simp [hexc, hnot, Unsettled])
      | false => exact .validate hg hval hexc hnot
  · by_cases hok : ok = some false
    · exact absurd hu (by simp [hok, Unsettled])
    · rw [if_neg hok] at hu
      exact call_escapes (.valid hg hval hok) hu

theorem check_escapes {r : Response} (hg : Gets st env q h .check q' (some r) j)
    (hu : Unsettled st env (statusTurn st env q' r j).1 (statusTurn st env q' r j).2) : Escapes st env q h := by
  unfold statusTurn at hu
  cases hst : classify st r with
  | ok =>
    simp only [hst] at hu
    exact validate_escapes (.accepted hg hst) hu
  | fail =>
    simp only [hst] at hu
    exact .breaker (.status hg hst) hu.1 hu.2
  | retry =>
    simp only [hst] at hu
    cases hsec : RetryAfter.retryAfterSeconds env.header st (some r) (env.clock j.reads) with
    | error e => exact .retryAfter hg hst hsec
    | ok cooldown =>
      simp only [hsec] at hu
      rcases hpen : penalize st env q' cooldown j.read with ⟨e | _, j₁⟩
      · exact .penalize hg hst hsec hpen
      · simp only [hpen] at hu
        rcases hlong : RetryAfter.retryAfterTooLong env.header st (some r) (env.clock j₁.reads) with e | _ | seconds
        · exact .retryAfterTooLong hg hst hsec hpen hlong
        · simp only [hlong] at hu
          exact (Retries.status hg hst hsec hpen hlong).escapes hu
        · simp only [hlong] at hu
          exact .breaker (.tooLong hg hst hsec hpen hlong) hu.1 hu.2

theorem respond_escapes {r : Response} (hg : Gets st env q h .respond q' (some r) j)
    (hu : Unsettled st env (responseTurn st env q' (some r) j).1 (responseTurn st env q' (some r) j).2) :
    Escapes st env q h := by
  unfold responseTurn at hu
  rcases hresp : Middleware.processResponses env.middlewares.reverse q' r j.heap with ⟨e | r' | q'', h'⟩ <;>
    simp only [hresp] at hu
  · exact .processResponse hg hresp
  · exact check_escapes (.passed hg hresp) hu
  · exact .breaker (.replaced hg hresp hu.1) hu.2.1 hu.2.2

theorem fetch_escapes (hg : Gets st env q h .fetch q' none j)
    (hu : Unsettled st env (fetchTurn st env q' none j).1 (fetchTurn st env q' none j).2) : Escapes st env q h := by
  unfold fetchTurn at hu
  cases hauto : (j.heap q').autoRequest with
  | false =>
    simp only [hauto, Option.isSome_none, Bool.not_false, Bool.or_true, if_true] at hu
    exact call_escapes (.unasked hg hauto) hu
  | true =>
    simp only [hauto, Option.isSome_none, Bool.not_true, Bool.or_false, Bool.false_eq_true, if_false] at hu
    rcases hrobots : env.robotsAllowed (j.heap q').url with e | allowed
    · exact .robots hg hauto hrobots
    · cases allowed with
      | false => exact absurd hu (by simp [hrobots, Unsettled])
      | true =>
        simp only [hrobots] at hu
        rcases hdown : env.download q' j.heap with ⟨e | r, h'⟩ <;> simp only [hdown] at hu
        · cases hct : env.isinstance e "ContentTypeRejectedError" with
          | true => exact absurd hu (by simp [hct, Unsettled])
          | false =>
            cases hreq : env.isinstance e "RequestError" with
            | true => exact (Retries.download hg hauto hrobots hdown hct hreq).escapes (by simpa [hct, hreq] using hu)
            | false => exact .download hg hauto hrobots hdown hct hreq
        · exact respond_escapes (.downloaded hg hauto hrobots hdown) hu

theorem escapes_iff : Escapes st env q h ↔
    Unsettled st env (turn st env q { heap := h }).1 (turn st env q { heap := h }).2 := by
  refine ⟨Escapes.unsettled, fun hu => ?_⟩
  unfold turn at hu
  rcases hreq : Middleware.processRequests env.middlewares q h with ⟨e | q₁ | r, h₁⟩ <;> simp only [hreq] at hu
  · exact (Retries.processRequest hreq).escapes hu
  · rcases hmid : env.downloadMidware q₁ h₁ with ⟨e | replaced, h₂⟩ <;> simp only [hmid] at hu
    · exact (Retries.downloadMidware hreq hmid).escapes hu
    · exact fetch_escapes (.hooked hreq hmid) hu
  · rcases hmid : env.downloadMidware q h₁ with ⟨e | replaced, h₂⟩ <;> simp only [hmid] at hu
    · exact (Retries.downloadMidware_given hreq hmid).escapes hu
    · exact respond_escapes (.given hreq hmid) hu

/-- Of every request and whatever its hooks do: `_process` gives it exactly one outcome
unless one of the calls that it makes unguarded raises. -/
theorem process_accounted_iff (st : Setting) (env : Env) (q : Ref) (h : Heap) :
    Accounted env (bound env q h) (process st env q { heap := h }).2.effects ↔ ¬Escapes st env q h := by
  obtain ⟨es, he, hbefore⟩ := turn_emits st env q { heap := h }
  have hj : ∀ e ∈ (turn st env q { heap := h }).2.effects, e.BeforeTurn := by
    rw [he]
    exact hbefore
  rw [process_eq, escapes_iff]
  exact settle_accounted_iff (turn_of st env q { heap := h }) hj

/-- `process_response` of a middleware raises. -/
def raisingMiddleware : Env where
  middlewares := [{ processResponse := some fun _ _ h => (.error "KeyError", h) }]
  download _ h := (.ok { statusCode := 200, url := "a" }, h)
  parse _ _ h := (.ok none, h)

theorem raisingMiddleware_not_accounted :
    ¬ ∀ (st : Setting) (env : Env) (q : Ref) (h : Heap),
      Accounted env (bound env q h) (process st env q { heap := h }).2.effects := by
  intro h
  obtain ⟨o, ho, -⟩ := h {} raisingMiddleware 0 fun _ => { url := "a" }
  have hnone : outcomes (process {} raisingMiddleware 0 { heap := fun _ => { url := "a" } }).2.effects = [] := rfl
  rw [hnone] at ho
  cases ho

end ParserWorker

end Netspy
