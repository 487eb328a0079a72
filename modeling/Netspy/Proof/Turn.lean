import Netspy.Impl.ParserControl

/-!
# The turns that a request takes

What the hooks of a round do to a request leads to one of a few turns: it is
done, dropped, retried, replaced, failed, or an exception leaves `_process`.
`turn` follows the hooks up to that point, and `_process` is what `settle` then
makes of it (`process_eq`). What holds of a job before its turn is proved from what
one step does to it (`turn_rule`); the results about owners, outcomes and retries are
proved of the turns, one case for each.
-/

namespace Netspy

inductive Turn where
  | ok (q : Ref)
  | drop
  /-- `_retry_or_fail` is called. -/
  | retry (q : Ref) (resp : Option Response) (exc : Exn)
  /-- `_retry_replacement` is called for `q'`. -/
  | replace (q q' : Ref) (resp : Response)
  | fail (q : Ref) (resp : Response) (exc : Exn)
  /-- No `except` catches it. -/
  | raise (e : Exn)
  deriving Repr, DecidableEq

/-- The turn is taken with `q` as the request. -/
def Turn.Of (q : Ref) : Turn → Prop
  | .ok q' => q' = q
  | .retry q' _ _ => q' = q
  | .replace q' _ _ => q' = q
  | .fail q' _ _ => q' = q
  | .drop => True
  | .raise _ => True

/-- The request that `process_request` and `download_midware` leave bound. -/
def bound (env : Env) (taken : Ref) (h : Heap) : Ref :=
  match Middleware.processRequests env.middlewares taken h with
  | (.error _, _) => taken
  | (.ok out, h) =>
    let q :=
      match out with
      | .inl q => q
      | .inr _ => taken
    match env.downloadMidware q h with
    | (.ok (some q'), _) => q'
    | _ => q

/-- What may happen before the turn is taken: no outcome is counted, and the breaker is
told nothing. -/
def Effect.BeforeTurn : Effect → Prop
  | .put _ | .putItem _ _ _ | .penalize _ _ => True
  | .stat key => key ∉ ["request_ok", "dropped", "retry", "request_failed"]
  | _ => False

theorem Effect.beforeTurn_stat {key : String} (h : key ∉ ["request_ok", "dropped", "retry", "request_failed"]) :
    (Effect.stat key).BeforeTurn := h

/-- `j'` is `j` after effects which all satisfy `P`. -/
def Emits (P : Effect → Prop) (j j' : Job) : Prop := ∃ es, j'.effects = j.effects ++ es ∧ ∀ e ∈ es, P e

namespace Emits

variable {P : Effect → Prop} {j j₁ j₂ : Job}

theorem refl (j : Job) : Emits P j j := ⟨[], (List.append_nil _).symm, nofun⟩

theorem trans (h : Emits P j j₁) (h' : Emits P j₁ j₂) : Emits P j j₂ := by
  obtain ⟨es, he, hP⟩ := h
  obtain ⟨es', he', hP'⟩ := h'
  refine ⟨es ++ es', by rw [he', he, List.append_assoc], fun e hmem => ?_⟩
  exact (List.mem_append.mp hmem).elim (hP e) (hP' e)

theorem emit (h : Emits P j j₁) {e : Effect} (he : P e) : Emits P j (j₁.emit e) :=
  h.trans ⟨[e], rfl, fun _ hmem => List.mem_singleton.mp hmem ▸ he⟩

end Emits

/-- What it takes to prove `R` of a job and the same job when the turn of `q` is taken. -/
structure TurnRule (q : Ref) (R : Job → Job → Prop) : Prop where
  refl (j : Job) : R j j
  trans {j₁ j₂ j₃ : Job} : R j₁ j₂ → R j₂ j₃ → R j₁ j₃
  setHeap (j : Job) (h : Heap) : R j (j.setHeap h)
  read (j : Job) : R j j.read
  emit (j : Job) {e : Effect} : e.BeforeTurn → (∀ obj o b, e ≠ .putItem obj o b) → R j (j.emit e)
  putItem_raised (j : Job) (obj : Obj) : R j (j.emit (.putItem obj q false))
  putItem (j : Job) (obj : Obj) : R j { j.emit (.putItem obj q true) with deferred := true }

theorem Emits.rule (q : Ref) : TurnRule q (Emits Effect.BeforeTurn) where
  refl := Emits.refl
  trans := Emits.trans
  setHeap j _ := Emits.refl j
  read j := Emits.refl j
  emit j _ he _ := (Emits.refl j).emit he
  putItem_raised j _ := (Emits.refl j).emit trivial
  putItem j obj := (Emits.refl j).emit (e := .putItem obj q true) trivial

namespace ParserWorker

variable (st : Setting) (env : Env)

/-- From the callback on. -/
def callBackTurn (q : Ref) (resp : Option Response) (j : Job) : Turn × Job :=
  match resolveCallback env q j.heap with
  | .error e => (.raise e, j)
  | .ok callback =>
    match invoke env callback q resp j with
    | (.error e, j) =>
      if env.isinstance e "NotRetryError" then (.drop, j)
      else (.retry q resp e, j.emit (.stat "parse_error"))
    | (.ok (), j) => (.ok q, j)

def validateTurn (q : Ref) (resp : Response) (j : Job) : Turn × Job :=
  match env.validate q resp j.heap with
  | (.error e, h) =>
    let j := j.setHeap h
    if env.isinstance e "ValidationError" then (.retry q (some resp) e, j)
    else if env.isinstance e "NotRetryError" then (.drop, j)
    else (.raise e, j)
  | (.ok ok, h) =>
    let j := j.setHeap h
    if ok = some false then (.drop, j) else callBackTurn env q (some resp) j

def statusTurn (q : Ref) (resp : Response) (j : Job) : Turn × Job :=
  match classify st resp with
  | .ok => validateTurn env q resp j
  | .retry =>
    match RetryAfter.retryAfterSeconds env.header st (some resp) (env.clock j.reads) with
    | .error e => (.raise e, j.read)
    | .ok cooldown =>
      match penalize st env q cooldown j.read with
      | (.error e, j) => (.raise e, j)
      | (.ok (), j) =>
        match RetryAfter.retryAfterTooLong env.header st (some resp) (env.clock j.reads) with
        | .error e => (.raise e, j.read)
        | .ok (some _) => (.fail q resp "HttpStatusError", j.read)
        | .ok none => (.retry q (some resp) "HttpStatusError", j.read)
  | .fail => (.fail q resp "HttpStatusError", j)

def responseTurn (q : Ref) (resp : Option Response) (j : Job) : Turn × Job :=
  match resp with
  | none => callBackTurn env q none j
  | some r =>
    match Middleware.processResponses env.middlewares.reverse q r j.heap with
    | (.error e, h) => (.raise e, j.setHeap h)
    | (.ok (.inr q'), h) => (.replace q q' r, j.setHeap h)
    | (.ok (.inl r), h) => statusTurn st env q r (j.setHeap h)

def fetchTurn (q : Ref) (resp : Option Response) (j : Job) : Turn × Job :=
  if resp.isSome || !(j.heap q).autoRequest then responseTurn st env q resp j
  else
    match env.robotsAllowed (j.heap q).url with
    | .error e => (.raise e, j)
    | .ok false => (.drop, j.emit (.stat "robots_dropped"))
    | .ok true =>
      match env.download q j.heap with
      | (.ok r, h) => responseTurn st env q (some r) (j.setHeap h)
      | (.error e, h) =>
        let j := j.setHeap h
        if env.isinstance e "ContentTypeRejectedError" then (.drop, j.emit (.stat "content_type_dropped"))
        else if env.isinstance e "RequestError" then (.retry q none e, j)
        else (.raise e, j)

def turn (q : Ref) (j : Job) : Turn × Job :=
  match Middleware.processRequests env.middlewares q j.heap with
  | (.error e, h) => (.retry q none e, j.setHeap h)
  | (.ok out, h) =>
    let (q, resp) : Ref × Option Response :=
      match out with
      | .inl q' => (q', none)
      | .inr r => (q, some r)
    match env.downloadMidware q h with
    | (.error e, h) => (.retry q none e, j.setHeap h)
    | (.ok replaced, h) => fetchTurn st env (replaced.getD q) resp (j.setHeap h)

/-- What `_process` does in each turn. -/
def settle : Turn × Job → Except Exn Unit × Job
  | (.ok q, j) =>
    let j := j.emit (.stat "request_ok")
    (env.recordSuccess (j.heap q).url, j.emit (.recordSuccess (j.heap q).url))
  | (.drop, j) => (.ok (), ParserWorker.drop j)
  | (.retry q resp exc, j) => retryOrFail st env q resp exc j
  | (.replace q q' resp, j) => retryReplacement st env q q' resp j
  | (.fail q resp exc, j) => ParserWorker.fail env q (some resp) (some exc) j
  | (.raise e, j) => (.error e, j)

theorem callBack_eq (q : Ref) (resp : Option Response) (j : Job) :
    callBack st env q resp j = settle st env (callBackTurn env q resp j) := by
  unfold callBack callBackTurn
  cases resolveCallback env q j.heap with
  | error e => rfl
  | ok callback =>
    dsimp only
    rcases invoke env callback q resp j with ⟨e | _, j'⟩
    · cases h : env.isinstance e "NotRetryError" <;> simp only [h] <;> rfl
    · rfl

/-- A check that has settled the request stops there. -/
theorem stopped_eq (x : Except Exn Unit × Job) (go : Job → Except Exn Unit × Job) :
    (match (x.1.map fun _ => false, x.2) with
      | (.error e, j) => (.error e, j)
      | (.ok false, j) => (.ok (), j)
      | (.ok true, j) => go j) = x := by
  rcases x with ⟨e | _, j⟩ <;> rfl

/-- What comes after `_check_status` and `_validate` let a response through. -/
theorem validate_eq (q : Ref) (resp : Response) (j : Job) :
    (match validate st env q resp j with
      | (.error e, j) => (.error e, j)
      | (.ok false, j) => (.ok (), j)
      | (.ok true, j) => callBack st env q (some resp) j) =
      settle st env (validateTurn env q resp j) := by
  unfold validate validateTurn
  rcases env.validate q resp j.heap with ⟨e | ok, h⟩
  · dsimp only
    cases env.isinstance e "ValidationError" with
    | true => exact stopped_eq _ _
    | false => cases env.isinstance e "NotRetryError" <;> rfl
  · dsimp only
    by_cases hok : ok = some false
    · simp only [if_pos hok]
      rfl
    · simp only [if_neg hok]
      exact callBack_eq st env q (some resp) (j.setHeap h)

theorem status_eq (q : Ref) (resp : Response) (j : Job) :
    (match checkStatus st env q resp j with
      | (.error e, j) => (.error e, j)
      | (.ok false, j) => (.ok (), j)
      | (.ok true, j) =>
        match validate st env q resp j with
        | (.error e, j) => (.error e, j)
        | (.ok false, j) => (.ok (), j)
        | (.ok true, j) => callBack st env q (some resp) j) =
      settle st env (statusTurn st env q resp j) := by
  unfold checkStatus statusTurn
  cases classify st resp with
  | ok => exact validate_eq st env q resp j
  | fail => exact stopped_eq _ _
  | retry =>
    dsimp only
    cases RetryAfter.retryAfterSeconds env.header st (some resp) (env.clock j.reads) with
    | error e => rfl
    | ok cooldown =>
      dsimp only
      rcases penalize st env q cooldown j.read with ⟨e | _, j⟩
      · rfl
      · dsimp only
        rcases RetryAfter.retryAfterTooLong env.header st (some resp) (env.clock j.reads) with e | _ | _
        · rfl
        · exact stopped_eq _ _
        · exact stopped_eq _ _

theorem handleResponse_eq (q : Ref) (resp : Option Response) (j : Job) :
    handleResponse st env q resp j = settle st env (responseTurn st env q resp j) := by
  cases resp with
  | none => exact callBack_eq st env q none j
  | some r =>
    unfold handleResponse responseTurn
    dsimp only
    rcases Middleware.processResponses env.middlewares.reverse q r j.heap with ⟨e | r' | q', h⟩
    · rfl
    · exact status_eq st env q r' (j.setHeap h)
    · rfl

theorem fetch_eq (q : Ref) (resp : Option Response) (j : Job) :
    fetch st env q resp j = settle st env (fetchTurn st env q resp j) := by
  unfold fetch fetchTurn
  cases resp.isSome || !(j.heap q).autoRequest with
  | true => exact handleResponse_eq st env q resp j
  | false =>
    dsimp only [if_false]
    rcases env.robotsAllowed (j.heap q).url with e | allowed
    · rfl
    · cases allowed with
      | false => rfl
      | true =>
        dsimp only
        rcases env.download q j.heap with ⟨e | r, h⟩
        · dsimp only
          cases env.isinstance e "ContentTypeRejectedError" with
          | true => rfl
          | false => cases env.isinstance e "RequestError" <;> rfl
        · exact handleResponse_eq st env q (some r) (j.setHeap h)

/-- `_process` is the turn its hooks take, and what is done in it. -/
theorem process_eq (q : Ref) (j : Job) : process st env q j = settle st env (turn st env q j) := by
  unfold process turn
  rcases Middleware.processRequests env.middlewares q j.heap with ⟨e | out, h⟩
  · rfl
  · cases out with
    | inl q' =>
      dsimp only
      rcases env.downloadMidware q' h with ⟨e | replaced, h'⟩
      · rfl
      · exact fetch_eq st env (replaced.getD q') none (j.setHeap h')
    | inr r =>
      dsimp only
      rcases env.downloadMidware q h with ⟨e | replaced, h'⟩
      · rfl
      · exact fetch_eq st env (replaced.getD q) (some r) (j.setHeap h')

/-! ## The request that a turn is about -/

theorem callBackTurn_of (q : Ref) (resp : Option Response) (j : Job) :
    (callBackTurn env q resp j).1.Of q := by
  unfold callBackTurn
  cases resolveCallback env q j.heap with
  | error e => trivial
  | ok callback =>
    dsimp only
    rcases invoke env callback q resp j with ⟨e | _, j'⟩
    · dsimp only
      split <;> trivial
    · rfl

theorem validateTurn_of (q : Ref) (resp : Response) (j : Job) : (validateTurn env q resp j).1.Of q := by
  unfold validateTurn
  rcases env.validate q resp j.heap with ⟨e | ok, h⟩
  · dsimp only
    split
    · rfl
    · split <;> trivial
  · dsimp only
    split
    · trivial
    · exact callBackTurn_of env q _ _

theorem responseTurn_of (q : Ref) (resp : Option Response) (j : Job) :
    (responseTurn st env q resp j).1.Of q := by
  cases resp with
  | none => exact callBackTurn_of env q none j
  | some r =>
    unfold responseTurn
    dsimp only
    rcases Middleware.processResponses env.middlewares.reverse q r j.heap with ⟨e | r' | q', h⟩
    · trivial
    · dsimp only [statusTurn]
      split
      · exact validateTurn_of env q r' _
      · split
        · trivial
        · split
          · trivial
          · split <;> trivial
      · rfl
    · rfl

theorem fetchTurn_of (q : Ref) (resp : Option Response) (j : Job) :
    (fetchTurn st env q resp j).1.Of q := by
  unfold fetchTurn
  split
  · exact responseTurn_of st env q resp j
  · split
    · trivial
    · trivial
    · split
      · exact responseTurn_of st env q _ _
      · dsimp only
        split
        · trivial
        · split <;> trivial

/-- The turn is that of the request which the hooks leave bound. -/
theorem turn_of (q : Ref) (j : Job) : (turn st env q j).1.Of (bound env q j.heap) := by
  unfold turn bound
  rcases Middleware.processRequests env.middlewares q j.heap with ⟨e | out, h⟩
  · rfl
  · cases out with
    | inl q' =>
      dsimp only
      rcases env.downloadMidware q' h with ⟨e | _ | q'', h'⟩
      · rfl
      · exact fetchTurn_of st env q' none _
      · exact fetchTurn_of st env q'' none _
    | inr r =>
      dsimp only
      rcases env.downloadMidware q h with ⟨e | _ | q'', h'⟩
      · rfl
      · exact fetchTurn_of st env q (some r) _
      · exact fetchTurn_of st env q'' (some r) _

/-! ## What happens before the turn is taken -/

/-- `_fail`, up to its hook. -/
def failing (q : Ref) (resp : Option Response) (exc : Option Exn) (j : Job) : Job :=
  let j := j.emit (.stat "request_failed")
  if countsAsUnhealthy env exc resp then j.emit (.recordFailure (j.heap q).url) else j

section

variable {q : Ref} {R : Job → Job → Prop} (hR : TurnRule q R)
include hR

theorem dispatchLoop_rule (raised : Option Exn) (ys : List Yield) (j : Job) :
    R j (dispatchLoop env raised q ys j).2 := by
  induction ys generalizing j with
  | nil =>
    unfold dispatchLoop
    split <;> exact hR.refl j
  | cons y ys ih =>
    cases y with
    | request r =>
      have hput : R j (j.emit (.put r)) := hR.emit j trivial (by simp)
      unfold dispatchLoop
      split
      · exact hput
      · exact hR.trans hput (ih _)
    | call fn =>
      unfold dispatchLoop
      split
      · exact hR.setHeap j _
      · exact hR.trans (hR.setHeap j _) (ih _)
    | item obj =>
      unfold dispatchLoop
      split
      · exact hR.putItem_raised j obj
      · exact hR.trans (hR.putItem j obj) (ih _)

theorem dispatch_rule (results : Option Results) (j : Job) : R j (dispatch env results q j).2 := by
  cases results with
  | none => exact hR.refl j
  | some rs => exact dispatchLoop_rule env hR rs.raised rs.yields j

/-- The breaker raises where `_fail` tells it. -/
def BreakerRaises (q : Ref) (resp : Option Response) (exc : Option Exn) (h : Heap) : Prop :=
  countsAsUnhealthy env exc resp = true ∧ ∃ e, env.recordFailure (h q).url = .error e

omit hR in
theorem fail_of_raises {resp : Option Response} {exc : Option Exn} {j : Job} (h : BreakerRaises env q resp exc j.heap) :
    ∃ e, fail env q resp exc j = (.error e, failing env q resp exc j) := by
  obtain ⟨hc, e, he⟩ := h
  refine ⟨e, ?_⟩
  have he' : env.recordFailure ((j.emit (.stat "request_failed")).heap q).url = .error e := he
  unfold fail failing
  dsimp only
  rw [if_pos hc, if_pos hc, he']

omit hR in
theorem fail_of_not_raises {resp : Option Response} {exc : Option Exn} {j : Job}
    (h : ¬BreakerRaises env q resp exc j.heap) :
    fail env q resp exc j = (.ok (), handFailed env q resp (failing env q resp exc j)) := by
  unfold fail failing
  dsimp only
  by_cases hc : countsAsUnhealthy env exc resp = true
  · rw [if_pos hc, if_pos hc]
    cases he : env.recordFailure ((j.emit (.stat "request_failed")).heap q).url with
    | error e => exact absurd ⟨hc, e, he⟩ h
    | ok _ => rfl
  · rw [if_neg hc, if_neg hc]

/-- The hook of `_fail`, and what it yields; the sink is last. -/
theorem handFailed_rule (resp : Option Response) (j : Job) :
    ∃ j₁, R j j₁ ∧ handFailed env q resp j = if env.failedSink then j₁.emit (.failedSink q) else j₁ := by
  unfold handFailed
  refine ⟨_, ?_, rfl⟩
  split
  · exact hR.setHeap _ _
  · exact hR.trans (hR.setHeap _ _) (dispatch_rule env hR _ _)

/-- After its count `_fail` stops at the breaker, or goes on with its hook; the sink is
last. -/
theorem fail_rule (resp : Option Response) (exc : Option Exn) (j : Job) :
    ∃ j₁, R (failing env q resp exc j) j₁ ∧
      ((fail env q resp exc j).2 = j₁ ∨ (fail env q resp exc j).2 = j₁.emit (.failedSink q)) := by
  by_cases hb : BreakerRaises env q resp exc j.heap
  · obtain ⟨e, he⟩ := fail_of_raises env hb
    exact ⟨_, hR.refl _, .inl (congrArg Prod.snd he)⟩
  · obtain ⟨j₁, hhook, he⟩ := handFailed_rule env hR resp (failing env q resp exc j)
    refine ⟨j₁, hhook, ?_⟩
    rw [fail_of_not_raises env hb]
    dsimp only
    rw [he]
    split
    · exact .inr rfl
    · exact .inl rfl

theorem invoke_rule (callback : Callback.Fn) (resp : Option Response) (j : Job) :
    R j (invoke env callback q resp j).2 := by
  unfold invoke
  split
  · exact hR.setHeap j _
  · exact hR.trans (hR.setHeap j _) (dispatch_rule env hR _ _)

theorem callBackTurn_rule (resp : Option Response) (j : Job) : R j (callBackTurn env q resp j).2 := by
  unfold callBackTurn
  cases resolveCallback env q j.heap with
  | error e => exact hR.refl j
  | ok callback =>
    have hi := invoke_rule env hR callback resp j
    dsimp only
    rcases hij : invoke env callback q resp j with ⟨e | _, j'⟩ <;> rw [hij] at hi
    · dsimp only
      split
      · exact hi
      · exact hR.trans hi (hR.emit j' (Effect.beforeTurn_stat (by decide)) (by simp))
    · exact hi

theorem validateTurn_rule (resp : Response) (j : Job) : R j (validateTurn env q resp j).2 := by
  unfold validateTurn
  rcases env.validate q resp j.heap with ⟨e | ok, h⟩
  · dsimp only
    split
    · exact hR.setHeap j h
    · split <;> exact hR.setHeap j h
  · dsimp only
    split
    · exact hR.setHeap j h
    · exact hR.trans (hR.setHeap j h) (callBackTurn_rule env hR _ (j.setHeap h))

theorem penalize_rule (cooldown : Option PyFloat) (j : Job) : R j (penalize st env q cooldown j).2 := by
  cases cooldown with
  | none => exact hR.refl j
  | some s =>
    unfold penalize
    dsimp only
    split
    · exact hR.emit j trivial (by simp)
    · exact hR.refl j

theorem statusTurn_rule (resp : Response) (j : Job) : R j (statusTurn st env q resp j).2 := by
  unfold statusTurn
  cases classify st resp with
  | ok => exact validateTurn_rule env hR resp j
  | fail => exact hR.refl j
  | retry =>
    dsimp only
    cases RetryAfter.retryAfterSeconds env.header st (some resp) (env.clock j.reads) with
    | error e => exact hR.read j
    | ok cooldown =>
      have hp := hR.trans (hR.read j) (penalize_rule st env hR cooldown j.read)
      dsimp only
      rcases hpen : penalize st env q cooldown j.read with ⟨e | _, j₁⟩ <;> rw [hpen] at hp
      · exact hp
      · have hp := hR.trans hp (hR.read j₁)
        dsimp only
        split <;> exact hp

theorem responseTurn_rule (resp : Option Response) (j : Job) : R j (responseTurn st env q resp j).2 := by
  cases resp with
  | none => exact callBackTurn_rule env hR none j
  | some r =>
    unfold responseTurn
    dsimp only
    rcases Middleware.processResponses env.middlewares.reverse q r j.heap with ⟨e | r' | q', h⟩
    · exact hR.setHeap j h
    · exact hR.trans (hR.setHeap j h) (statusTurn_rule st env hR r' (j.setHeap h))
    · exact hR.setHeap j h

theorem fetchTurn_rule (resp : Option Response) (j : Job) : R j (fetchTurn st env q resp j).2 := by
  unfold fetchTurn
  split
  · exact responseTurn_rule st env hR resp j
  · split
    · exact hR.refl j
    · exact hR.emit j (Effect.beforeTurn_stat (by decide)) (by simp)
    · split
      · exact hR.trans (hR.setHeap j _) (responseTurn_rule st env hR _ _)
      · dsimp only
        split
        · exact hR.trans (hR.setHeap j _) (hR.emit _ (Effect.beforeTurn_stat (by decide)) (by simp))
        · split <;> exact hR.setHeap j _

end

/-- `_retry_or_fail` gives up. -/
def GivesUp (q : Ref) (exc : Exn) (h : Heap) : Prop :=
  env.isinstance exc "ResponseTooLargeError" = true ∨ st.SPIDER_MAX_RETRY_TIMES ≤ (h q).retryTimes

theorem retryOrFail_of_givesUp {q : Ref} {exc : Exn} {j : Job} (resp : Option Response)
    (h : GivesUp st env q exc j.heap) :
    retryOrFail st env q resp exc j = fail env q resp (some exc) j := by
  have hc : (env.isinstance exc "ResponseTooLargeError" ||
      decide (st.SPIDER_MAX_RETRY_TIMES ≤ (j.heap q).retryTimes)) = true := by
    simpa [GivesUp] using h
  unfold retryOrFail
  exact if_pos hc

/-- The heap when `exception_request` has returned. -/
def retriedHeap (q : Ref) (resp : Option Response) (exc : Exn) (h : Heap) : Heap :=
  env.exceptionRequest q resp exc (Function.update h q { h q with retryTimes := (h q).retryTimes + 1 })

theorem retryOrFail_of_not_givesUp {q : Ref} {exc : Exn} {j : Job} (resp : Option Response)
    (h : ¬ GivesUp st env q exc j.heap) :
    retryOrFail st env q resp exc j =
      match pause st env q resp ((j.emit (.stat "retry")).setHeap (retriedHeap env q resp exc j.heap)) with
      | (.error e, j) => (.error e, j)
      | (.ok (), j) => (env.requestPut j.effects.length,
          (j.setHeap (Function.update j.heap q { j.heap q with filterRepeat := false })).emit (.putRetry q)) := by
  have hc : ¬ (env.isinstance exc "ResponseTooLargeError" ||
      decide (st.SPIDER_MAX_RETRY_TIMES ≤ (j.heap q).retryTimes)) = true := by
    simpa [GivesUp] using h
  unfold retryOrFail
  dsimp only
  rw [if_neg hc]
  rfl

/-- What a request's hooks do to its job before the turn is taken. -/
theorem turn_rule {q : Ref} {j : Job} {R : Job → Job → Prop} (hR : TurnRule (bound env q j.heap) R) :
    R j (turn st env q j).2 := by
  revert hR
  unfold turn bound
  rcases Middleware.processRequests env.middlewares q j.heap with ⟨e | out, h⟩
  · exact fun hR => hR.setHeap j h
  · cases out with
    | inl q' =>
      dsimp only
      rcases env.downloadMidware q' h with ⟨e | _ | q'', h'⟩
      · exact fun hR => hR.setHeap j h'
      · exact fun hR => hR.trans (hR.setHeap j h') (fetchTurn_rule st env hR none _)
      · exact fun hR => hR.trans (hR.setHeap j h') (fetchTurn_rule st env hR none _)
    | inr r =>
      dsimp only
      rcases env.downloadMidware q h with ⟨e | _ | q'', h'⟩
      · exact fun hR => hR.setHeap j h'
      · exact fun hR => hR.trans (hR.setHeap j h') (fetchTurn_rule st env hR (some r) _)
      · exact fun hR => hR.trans (hR.setHeap j h') (fetchTurn_rule st env hR (some r) _)

theorem turn_emits (q : Ref) (j : Job) : Emits Effect.BeforeTurn j (turn st env q j).2 :=
  turn_rule st env (Emits.rule _)

end ParserWorker

end Netspy
