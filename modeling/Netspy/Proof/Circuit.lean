import Netspy.Framework.Past
import Netspy.Impl.Circuit
import Netspy.Proof.Outcome

/-!
# Consecutive failures

What a round tells the breaker is decided by its turn (`calls_eq`): a success at its end,
a failure in `_fail`, and nothing in the other exits. So a healthy response that leaves
through one of these does not clear the count, and the failures before it and after it
are counted as one streak (`trips_consecutive_iff`).
-/

namespace Netspy

namespace ParserWorker

variable (st : Setting) (env : Env)

/-- What `_fail` is called with in a turn, if it is. -/
def failure : Turn → Heap → Option (Option Response × Option Exn)
  | .retry q resp exc, h =>
    if env.isinstance exc "ResponseTooLargeError" = true ∨ st.SPIDER_MAX_RETRY_TIMES ≤ (h q).retryTimes then
      some (resp, some exc)
    else none
  | .replace q _ resp, h => if st.SPIDER_MAX_RETRY_TIMES ≤ (h q).retryTimes then some (some resp, none) else none
  | .fail _ resp exc, _ => some (some resp, some exc)
  | _, _ => none

/-- Whether the request is put back. -/
def requeued (t : Turn) (h : Heap) : Bool :=
  match t with
  | .retry _ _ _ | .replace _ _ _ => (failure st env t h).isNone
  | _ => false

/-! ## What a worker tells the breaker -/

/-- `j'` is `j` after effects with these calls. -/
def Tells (cs : List CircuitCall) (j j' : Job) : Prop :=
  ∃ es, j'.effects = j.effects ++ es ∧ es.filterMap CircuitCall.of = cs

omit st env in
theorem Tells.trans {cs cs' : List CircuitCall} {j j₁ j₂ : Job} (h : Tells cs j j₁) (h' : Tells cs' j₁ j₂) :
    Tells (cs ++ cs') j j₂ := by
  obtain ⟨es, he, hc⟩ := h
  obtain ⟨es', he', hc'⟩ := h'
  exact ⟨es ++ es', by rw [he', he, List.append_assoc], by rw [List.filterMap_append, hc, hc']⟩

omit st env in
theorem Tells.emit (j : Job) (e : Effect) : Tells (CircuitCall.of e).toList j (j.emit e) := by
  refine ⟨[e], rfl, ?_⟩
  cases h : CircuitCall.of e with
  | none => rw [List.filterMap_cons_none h]; rfl
  | some c => rw [List.filterMap_cons_some h]; rfl

omit st env in
/-- What comes before the turn tells it nothing. -/
theorem Emits.tells {j j' : Job} (h : Emits Effect.BeforeTurn j j') : Tells [] j j' := by
  obtain ⟨es, he, hbefore⟩ := h
  refine ⟨es, he, List.filterMap_eq_nil_iff.mpr fun e hmem => ?_⟩
  have hP := hbefore e hmem
  cases e with
  | recordFailure _ | recordSuccess _ => exact hP.elim
  | _ => rfl

/-- What `_fail` tells it. -/
def failureCalls (url : String) (failure : Option Response × Option Exn) : List CircuitCall :=
  if countsAsUnhealthy env failure.2 failure.1 then [.failure url] else []

theorem fail_tells (q : Ref) (resp : Option Response) (exc : Option Exn) (j : Job) :
    Tells (failureCalls env (j.heap q).url (resp, exc)) j (fail env q resp exc j).2 := by
  have hcounted : Tells [] j (j.emit (.stat "request_failed")) := Tells.emit j _
  have hfailing : Tells (failureCalls env (j.heap q).url (resp, exc)) j (failing env q resp exc j) := by
    unfold failing failureCalls
    dsimp only
    split
    · exact hcounted.trans (Tells.emit _ _)
    · exact hcounted
  obtain ⟨j₁, hhook, he⟩ := fail_rule env (Emits.rule q) resp exc j
  have htold := hfailing.trans (Emits.tells hhook)
  rw [List.append_nil] at htold
  rcases he with he | he
  · exact he ▸ htold
  · have hsink := htold.trans (Tells.emit j₁ (.failedSink q))
    rw [show (CircuitCall.of (.failedSink q)).toList = [] from rfl, List.append_nil] at hsink
    exact he ▸ hsink

theorem pause_tells (q : Ref) (resp : Option Response) (j : Job) : Tells [] j (pause st env q resp j).2 := by
  obtain ⟨⟨es, he, hes⟩, -⟩ := pause_spec st env q resp j
  refine ⟨es, he, List.filterMap_eq_nil_iff.mpr fun e hm => ?_⟩
  obtain ⟨delay, rfl⟩ := hes e hm
  rfl

/-- What a turn tells it, about the request `q`. -/
def turnCalls (t : Turn) (h : Heap) (q : Ref) : List CircuitCall :=
  match t with
  | .ok _ => [.success (h q).url]
  | .drop | .retry _ _ _ | .replace _ _ _ | .fail _ _ _ | .raise _ =>
    ((failure st env t h).map (failureCalls env (h q).url)).getD []

theorem settle_tells {t : Turn} {q : Ref} (hq : t.Of q) (j : Job) :
    Tells (turnCalls st env t j.heap q) j (settle st env (t, j)).2 := by
  cases t with
  | ok q' =>
    cases hq
    exact ⟨[.stat "request_ok", .recordSuccess (j.heap q).url], List.append_assoc .., rfl⟩
  | drop => exact ⟨[.stat "dropped"], rfl, rfl⟩
  | retry q' resp exc =>
    cases hq
    by_cases hg : GivesUp st env q exc j.heap
    · rw [settle, retryOrFail_of_givesUp st env resp hg, turnCalls, failure, if_pos (show _ ∨ _ from hg)]
      exact fail_tells env q resp (some exc) j
    · obtain ⟨j₁, h₁⟩ : ∃ j₁, (j.emit (.stat "retry")).setHeap (retriedHeap env q resp exc j.heap) = j₁ := ⟨_, rfl⟩
      obtain ⟨j₂, h₂⟩ : ∃ j₂, (pause st env q resp j₁).2 = j₂ := ⟨_, rfl⟩
      rw [settle, turnCalls, failure, if_neg (show ¬ (_ ∨ _) from hg)]
      have hretry : Tells [] j j₁ := h₁ ▸ Tells.emit j (.stat "retry")
      have hpaused : Tells [] j j₂ := hretry.trans (h₂ ▸ pause_tells st env q resp j₁)
      have hput (g : Heap) : Tells [] j₂ ((j₂.setHeap g).emit (.putRetry q)) := Tells.emit (j₂.setHeap g) _
      rcases retryOrFail_eq st env resp hg h₁ h₂ with ⟨-, e, hr⟩ | ⟨-, hr⟩
      · rw [hr]
        exact hpaused
      · rw [hr]
        exact hpaused.trans (hput _)
  | replace q' q'' resp =>
    cases hq
    by_cases hg : st.SPIDER_MAX_RETRY_TIMES ≤ (j.heap q).retryTimes
    · rw [settle, retryReplacement_of_givesUp st env q'' resp hg, turnCalls, failure, if_pos hg]
      exact fail_tells env q (some resp) none j
    · rw [turnCalls, failure, if_neg hg]
      exact ⟨_, (retryReplacement_retries st env q'' resp hg).1, rfl⟩
  | fail q' resp exc =>
    cases hq
    exact fail_tells env q (some resp) (some exc) j
  | raise e => exact ⟨[], (List.append_nil _).symm, rfl⟩

theorem process_tells (q : Ref) (j : Job) :
    Tells (turnCalls st env (turn st env q j).1 (turn st env q j).2.heap (bound env q j.heap)) j (process st env q j).2 := by
  rw [process_eq]
  exact (Emits.tells (turn_emits st env q j)).trans (settle_tells st env (turn_of st env q j) (turn st env q j).2)

end ParserWorker

/-! ## Rounds -/

namespace Round

open ParserWorker

variable {st : CircuitSetting} {domain : String → String} {r : Round} {rs : List Round} {cb cb' : CircuitBreaker}

/-- The turn that a round takes. -/
def turn (st : CircuitSetting) (r : Round) : Turn × Job := ParserWorker.turn st.toSetting r.env r.taken { heap := r.heap }

/-- The domain of its request, when the turn is taken. -/
def site (st : CircuitSetting) (domain : String → String) (r : Round) : String :=
  domain ((r.turn st).2.heap (bound r.env r.taken r.heap)).url

/-- A final failure that `counts_as_unhealthy` accepts. -/
def unhealthy (st : CircuitSetting) (r : Round) : Bool :=
  (failure st.toSetting r.env (r.turn st).1 (r.turn st).2.heap).any fun (resp, exc) => countsAsUnhealthy r.env exc resp

def succeeds (st : CircuitSetting) (r : Round) : Bool :=
  match (r.turn st).1 with
  | .ok _ => true
  | _ => false

/-- What the outcome of a round says about the site, if it is final: that it is unhealthy,
or that it is not. -/
def evidence (st : CircuitSetting) (r : Round) : Option Bool :=
  if r.unhealthy st then some true
  else if !requeued st.toSetting r.env (r.turn st).1 (r.turn st).2.heap &&
      (reached r.env r.taken r.heap).any fun resp => decide (resp.statusCode ∉ unhealthyCodes) then
    some false
  else none

/-- What the outcomes of a domain say, in order. -/
def evidences (st : CircuitSetting) (domain : String → String) (d : String) (rs : List Round) : List Bool :=
  (rs.filter fun r => r.site st domain = d).filterMap (evidence st)

/-- The last `n` outcomes of a domain that say something all say that it is unhealthy. -/
def LastUnhealthy (st : CircuitSetting) (domain : String → String) (d : String) (n : Nat) (rs : List Round) : Prop :=
  (evidences st domain d rs).reverse.take n = List.replicate n true

/-- While failures of the domain are counted, a healthy response leaves otherwise than by a
success. -/
def Unheeded (st : CircuitSetting) (domain : String → String) (d : String) (cb : CircuitBreaker) (r : Round) : Prop :=
  r.site st domain = d ∧ 0 < cb.failures d ∧ r.succeeds st = false ∧ r.evidence st = some false

/-- The count of the domain starts again. -/
def Clears (st : CircuitSetting) (domain : String → String) (d : String) (cb : CircuitBreaker) (r : Round) : Prop :=
  r.site st domain = d ∧ (r.succeeds st = true ∨ r.trips st domain cb = true)

theorem unhealthy_of_succeeds (h : r.succeeds st = true) : r.unhealthy st = false := by
  unfold succeeds at h
  unfold unhealthy
  split at h
  next heq =>
    rw [heq]
    rfl
  next => cases h

/-- A round tells the breaker of its success, or of its failure. -/
theorem calls_eq (st : CircuitSetting) (r : Round) :
    r.calls st = if r.succeeds st then [.success ((r.turn st).2.heap (bound r.env r.taken r.heap)).url]
      else if r.unhealthy st then [.failure ((r.turn st).2.heap (bound r.env r.taken r.heap)).url] else [] := by
  obtain ⟨es, he, hc⟩ := process_tells st.toSetting r.env r.taken { heap := r.heap }
  have hcalls : r.calls st = turnCalls st.toSetting r.env (r.turn st).1 (r.turn st).2.heap (bound r.env r.taken r.heap) := by
    rw [calls, work, he]
    exact hc
  rw [hcalls]
  unfold succeeds unhealthy
  generalize (r.turn st).2.heap = h
  cases hturn : (r.turn st).1 with
  | ok q => rfl
  | drop | raise _ => rfl
  | retry _ _ _ | replace _ _ _ | fail _ _ _ =>
    dsimp only [turnCalls]
    cases failure st.toSetting r.env _ h with
    | none => rfl
    | some failure => rfl

/-- A round that neither succeeds nor fails leaves the counts as they are. -/
theorem step_quiet (hs : r.succeeds st = false) (hu : r.unhealthy st = false) (cb : CircuitBreaker) :
    cb.calls st domain (r.calls st) = (false, cb) := by
  rw [calls_eq, hs, hu]
  rfl

theorem step_succeeds (hs : r.succeeds st = true) (cb : CircuitBreaker) :
    cb.calls st domain (r.calls st) = (false, { failures := Function.update cb.failures (r.site st domain) 0 }) := by
  rw [calls_eq, hs]
  rfl

theorem step_unhealthy (hu : r.unhealthy st = true) (cb : CircuitBreaker) :
    cb.calls st domain (r.calls st) = cb.recordFailure st domain ((r.turn st).2.heap (bound r.env r.taken r.heap)).url := by
  have hs : r.succeeds st = false := by
    rw [← Bool.not_eq_true]
    intro hs
    rw [unhealthy_of_succeeds hs] at hu
    cases hu
  rw [calls_eq, hs, hu]
  simp [CircuitBreaker.calls, CircuitBreaker.call]

/-! ## Streaks -/

theorem evidences_concat (d : String) (rs : List Round) (r : Round) :
    (evidences st domain d (rs ++ [r])).reverse =
      (if r.site st domain = d then (r.evidence st).toList else []) ++ (evidences st domain d rs).reverse := by
  simp only [evidences, List.filter_append, List.filterMap_append, List.reverse_append]
  congr 1
  by_cases hd : r.site st domain = d
  · rw [List.filter_singleton, if_pos hd]
    cases h : r.evidence st with
    | none => simp [hd, h]
    | some b => simp [hd, h]
  · simp [hd]

/-- A domain without a response that left unheeded since its count started has failed as
often in a row as is counted. -/
structure Streak (st : CircuitSetting) (domain : String → String) (d : String) (rs : List Round) (cb : CircuitBreaker) :
    Prop where
  below : (cb.failures d : Int) < st.CIRCUIT_FAILURE_THRESHOLD
  streak : LastUnhealthy st domain d (cb.failures d) rs ↔
    ¬ (circuitMachine st domain).Since (Unheeded st domain d) (Clears st domain d) {} rs

theorem evidence_unhealthy (hu : r.unhealthy st = true) : r.evidence st = some true := by
  rw [evidence, if_pos hu]

theorem failures_other {d : String} (hd : r.site st domain ≠ d) (cb : CircuitBreaker) :
    (cb.calls st domain (r.calls st)).2.failures d = cb.failures d := by
  cases hs : r.succeeds st with
  | true =>
    rw [step_succeeds hs]
    exact Function.update_of_ne (Ne.symm hd) ..
  | false =>
    cases hu : r.unhealthy st with
    | true =>
      rw [step_unhealthy hu, CircuitBreaker.recordFailure]
      dsimp only
      split
      · rfl
      · split
        · exact Function.update_of_ne (Ne.symm hd) ..
        · exact Function.update_of_ne (Ne.symm hd) ..
    | false => rw [step_quiet hs hu]

theorem evidence_quiet {b : Bool} (hu : r.unhealthy st = false) (hev : r.evidence st = some b) : b = false := by
  rw [evidence, if_neg (by rw [hu]; exact Bool.false_ne_true)] at hev
  split at hev
  · exact (Option.some.inj hev).symm
  · cases hev

theorem step_trips (hu : r.unhealthy st = true) (hpos : 0 < st.CIRCUIT_FAILURE_THRESHOLD)
    (h : st.CIRCUIT_FAILURE_THRESHOLD ≤ (cb.failures (r.site st domain) + 1 : Nat)) :
    cb.calls st domain (r.calls st) = (true, { failures := Function.update cb.failures (r.site st domain) 0 }) := by
  rw [step_unhealthy hu, CircuitBreaker.recordFailure]
  dsimp only
  rw [if_neg (Int.not_le.mpr hpos)]
  exact if_pos h

theorem step_counts (hu : r.unhealthy st = true) (hpos : 0 < st.CIRCUIT_FAILURE_THRESHOLD)
    (h : ¬ st.CIRCUIT_FAILURE_THRESHOLD ≤ (cb.failures (r.site st domain) + 1 : Nat)) :
    cb.calls st domain (r.calls st) =
      (false, { failures := Function.update cb.failures (r.site st domain) (cb.failures (r.site st domain) + 1) }) := by
  rw [step_unhealthy hu, CircuitBreaker.recordFailure]
  dsimp only
  rw [if_neg (Int.not_le.mpr hpos)]
  exact if_neg h

/-- One more failure in a row. -/
theorem lastUnhealthy_concat {d : String} (hd : r.site st domain = d) (hu : r.unhealthy st = true) (n : Nat) :
    LastUnhealthy st domain d (n + 1) (rs ++ [r]) ↔ LastUnhealthy st domain d n rs := by
  rw [LastUnhealthy, evidences_concat, if_pos hd, evidence_unhealthy hu, Option.toList_some, List.singleton_append,
    List.take_succ_cons, List.replicate_succ, List.cons_inj_right]
  rfl

/-- The count starts again. -/
theorem streak_cleared {d : String} (hpos : 0 < st.CIRCUIT_FAILURE_THRESHOLD) (hzero : cb'.failures d = 0)
    (hsince : ¬ (circuitMachine st domain).Since (Unheeded st domain d) (Clears st domain d) {} rs) :
    Streak st domain d rs cb' := by
  refine ⟨by rw [hzero]; exact hpos, iff_of_true ?_ hsince⟩
  rw [hzero, LastUnhealthy, List.take_zero, List.replicate_zero]

theorem Streak.step {d : String} (h : Streak st domain d rs cb) (he : (circuitMachine st domain).exec {} rs = some cb)
    (hs : (circuitMachine st domain).step cb r = some cb') : Streak st domain d (rs ++ [r]) cb' := by
  have hsince := Machine.since_concat (A := Unheeded st domain d) (B := Clears st domain d) he hs
  have hbelow := h.below
  have hpos : 0 < st.CIRCUIT_FAILURE_THRESHOLD := by omega
  cases hs
  by_cases hd : r.site st domain = d
  · subst hd
    cases hsucc : r.succeeds st with
    | true =>
      refine streak_cleared hpos ?_ ?_
      · rw [step_succeeds hsucc]
        exact Function.update_self ..
      · rw [hsince]
        rintro (⟨-, -, hno, -⟩ | ⟨-, hno⟩)
        · rw [hsucc] at hno
          cases hno
        · exact hno ⟨rfl, .inl hsucc⟩
    | false =>
      cases hu : r.unhealthy st with
      | true =>
        by_cases htrip : st.CIRCUIT_FAILURE_THRESHOLD ≤ (cb.failures (r.site st domain) + 1 : Nat)
        · have hcall := step_trips hu hpos htrip
          refine streak_cleared hpos ?_ ?_
          · rw [hcall]
            exact Function.update_self ..
          · rw [hsince]
            rintro (⟨-, -, -, hev⟩ | ⟨-, hno⟩)
            · rw [evidence_unhealthy hu] at hev
              cases hev
            · exact hno ⟨rfl, .inr (by rw [trips, hcall])⟩
        · have hcall := step_counts hu hpos htrip
          have hcount : (cb.calls st domain (r.calls st)).2.failures (r.site st domain) =
              cb.failures (r.site st domain) + 1 := by
            rw [hcall]
            exact Function.update_self ..
          refine ⟨by rw [hcount]; omega, ?_⟩
          rw [hcount, hsince, lastUnhealthy_concat rfl hu]
          refine h.streak.trans (not_congr ?_)
          constructor
          · refine fun hold => .inr ⟨hold, ?_⟩
            rintro ⟨-, hno | hno⟩
            · rw [hsucc] at hno
              cases hno
            · rw [trips, hcall] at hno
              cases hno
          · rintro (⟨-, -, -, hev⟩ | ⟨hold, -⟩)
            · rw [evidence_unhealthy hu] at hev
              cases hev
            · exact hold
      | false =>
        have hcall : cb.calls st domain (r.calls st) = (false, cb) := step_quiet hsucc hu cb
        have hclear : ¬ Clears st domain (r.site st domain) cb r := by
          rintro ⟨-, hno | hno⟩
          · rw [hsucc] at hno
            cases hno
          · rw [trips, hcall] at hno
            cases hno
        have hcount : (cb.calls st domain (r.calls st)).2.failures (r.site st domain) = cb.failures (r.site st domain) := by
          rw [hcall]
        refine ⟨by rw [hcount]; exact hbelow, ?_⟩
        rw [hcount, hsince]
        cases hev : r.evidence st with
        | none =>
          rw [LastUnhealthy, evidences_concat, if_pos rfl, hev, Option.toList_none, List.nil_append]
          refine h.streak.trans (not_congr ⟨fun hold => .inr ⟨hold, hclear⟩, ?_⟩)
          rintro (⟨-, -, -, hno⟩ | ⟨hold, -⟩)
          · rw [hev] at hno
            cases hno
          · exact hold
        | some b =>
          have hb : b = false := evidence_quiet hu hev
          subst hb
          rw [LastUnhealthy, evidences_concat, if_pos rfl, hev]
          by_cases hzero : cb.failures (r.site st domain) = 0
          · have hnone : ¬ (circuitMachine st domain).Since (Unheeded st domain (r.site st domain))
                (Clears st domain (r.site st domain)) {} rs := by
              rw [← h.streak, hzero, LastUnhealthy, List.take_zero, List.replicate_zero]
            refine iff_of_true ?_ ?_
            · rw [hzero, List.take_zero, List.replicate_zero]
            · rintro (⟨-, hcounted, -⟩ | ⟨hold, -⟩)
              · omega
              · exact hnone hold
          · obtain ⟨n, hn⟩ := Nat.exists_eq_succ_of_ne_zero hzero
            refine iff_of_false ?_ (not_not_intro (.inl ⟨rfl, Nat.pos_of_ne_zero hzero, hsucc, hev⟩))
            rw [hn, Option.toList_some, List.singleton_append, List.take_succ_cons, List.replicate_succ]
            intro h
            cases (List.cons.inj h).1
  · have hcount := failures_other hd cb
    refine ⟨by rw [hcount]; exact hbelow, ?_⟩
    rw [hcount, LastUnhealthy, evidences_concat, if_neg hd, List.nil_append, hsince]
    refine h.streak.trans (not_congr ?_)
    constructor
    · exact fun hold => .inr ⟨hold, fun hclear => hd hclear.1⟩
    · rintro (hnew | ⟨hold, -⟩)
      · exact absurd hnew.1 hd
      · exact hold

theorem of_trips (ht : r.trips st domain cb = true) : r.unhealthy st = true ∧ 0 < st.CIRCUIT_FAILURE_THRESHOLD ∧
    st.CIRCUIT_FAILURE_THRESHOLD ≤ (cb.failures (r.site st domain) + 1 : Nat) := by
  cases hs : r.succeeds st with
  | true =>
    rw [trips, step_succeeds hs] at ht
    cases ht
  | false =>
    cases hu : r.unhealthy st with
    | false =>
      rw [trips, step_quiet hs hu] at ht
      cases ht
    | true =>
      refine ⟨rfl, ?_⟩
      by_cases hpos : 0 < st.CIRCUIT_FAILURE_THRESHOLD
      · refine ⟨hpos, ?_⟩
        by_contra hlt
        rw [trips, step_counts hu hpos hlt] at ht
        cases ht
      · rw [trips, step_unhealthy hu, CircuitBreaker.recordFailure] at ht
        dsimp only at ht
        rw [if_pos (Int.not_lt.mp hpos)] at ht
        cases ht

theorem streak {d : String} (hpos : 0 < st.CIRCUIT_FAILURE_THRESHOLD)
    (he : (circuitMachine st domain).exec {} rs = some cb) : Streak st domain d rs cb := by
  apply Machine.exec_induct (I := Streak st domain d) _ _ he
  · exact streak_cleared hpos rfl id
  · exact fun rs r u v hu hstreak hv => hstreak.step hu hv

/-- When the breaker trips, the last outcomes of the domain that say something about it are
all unhealthy, as many as make the threshold, if and only if no healthy response has left
otherwise than by a success since its count started. -/
theorem trips_consecutive_iff (he : (circuitMachine st domain).exec {} rs = some cb) (ht : r.trips st domain cb = true) :
    LastUnhealthy st domain (r.site st domain) st.CIRCUIT_FAILURE_THRESHOLD.toNat (rs ++ [r]) ↔
      ¬ (circuitMachine st domain).Since (Unheeded st domain (r.site st domain)) (Clears st domain (r.site st domain))
        {} rs := by
  obtain ⟨hu, hpos, hle⟩ := of_trips ht
  have hstreak := streak (d := r.site st domain) hpos he
  have hbelow := hstreak.below
  have hn : st.CIRCUIT_FAILURE_THRESHOLD.toNat = cb.failures (r.site st domain) + 1 := by omega
  rw [hn, lastUnhealthy_concat rfl hu]
  exact hstreak.streak

/-! ### A missing page between two failures -/

/-- The download fails, and is not retried. -/
def down : Round where
  env := { download := fun _ h => (.error "RequestError", h), parse := fun _ _ h => (.ok none, h) }
  taken := 0
  heap _ := { url := "https://a.com/x", retryTimes := 10 }

/-- The site answers that there is no such page. -/
def missing : Round :=
  { down with env := { down.env with download := fun _ h => (.ok { statusCode := 404, url := "https://a.com/y" }, h) } }

def twoFailures : CircuitSetting := { CIRCUIT_FAILURE_THRESHOLD := 2 }

theorem trips_consecutive_iff_down : ∃ cb, (circuitMachine twoFailures fun _ => "a.com").exec {} [down] = some cb ∧
    (LastUnhealthy twoFailures (fun _ => "a.com") "a.com" 2 [down, down] ↔
      ¬ (circuitMachine twoFailures fun _ => "a.com").Since (Unheeded twoFailures (fun _ => "a.com") "a.com")
        (Clears twoFailures (fun _ => "a.com") "a.com") {} [down]) := by
  have hexec : (circuitMachine twoFailures fun _ => "a.com").exec {} [down] = some _ := rfl
  exact ⟨_, hexec, trips_consecutive_iff hexec (r := down) (by decide)⟩

/-- The breaker trips although the site has answered in between. -/
theorem missing_trips : ∃ cb, (circuitMachine twoFailures fun _ => "a.com").exec {} [down, missing] = some cb ∧
    down.trips twoFailures (fun _ => "a.com") cb = true ∧
    ¬ LastUnhealthy twoFailures (fun _ => "a.com") "a.com" 2 [down, missing, down] :=
  ⟨_, rfl, by decide, by unfold LastUnhealthy; decide⟩

end Round

end Netspy
