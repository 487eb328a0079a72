import Netspy.Framework.Assoc
import Netspy.Impl.ResponseCache
import Netspy.Impl.UserPoolMiddleware
import Netspy.Proof.Fingerprint

/-!
# Retries and the response cache

The cache holds what was last stored under a fingerprint, whatever became of the
response after that, and a fingerprint leaves the cookies out. So a retry performs a
download unless an entry under its fingerprint is there and fresh
(`retry_downloads_iff`): the response that was rejected is one.
-/

namespace Netspy

namespace UserPoolMiddleware

theorem get_setCookies {key : String} (h : key ≠ "cookies") (r : Request) (cookies : List (PyVal × PyVal)) :
    (setCookies r cookies).requestsKwargs.get key = r.requestsKwargs.get key := by
  unfold Dict.get setCookies
  split
  · rw [List.lookup_filter_ne h]
  · unfold setKey
    split
    · rw [List.lookup_replace_ne h]
    · have hne : (key == "cookies") = false := by simp [h]
      simp [List.lookup_append, List.lookup_cons, hne]

/-- An account has no part in the fingerprint. -/
theorem fingerprint_setCookies (lib : Stdlib) (r : Request) (cookies : List (PyVal × PyVal)) :
    (setCookies r cookies).fingerprint lib = r.fingerprint lib := by
  have hbody : (setCookies r cookies).body = r.body := by
    unfold Request.body
    rw [get_setCookies (by decide), get_setCookies (by decide), get_setCookies (by decide)]
  unfold Request.fingerprint
  rw [hbody]
  rfl

end UserPoolMiddleware

namespace CacheCrawl

variable (lib : Stdlib) (st : Setting)

/-- The entry that a download leaves, if the file can be written. -/
def stored (request : Request) (response : Response) : Option String :=
  if st.RESPONSE_CACHE_ENABLE && ResponseCache._cacheable request && decide (classify st response = .ok) then
    (request.fingerprint lib).toOption
  else none

/-- What an event makes of an entry, if it concerns it. -/
def effect (path : String) : CacheEvent → Option (Option CacheEntry)
  | .downloaded request response time written =>
    if written && decide (stored lib st request response = some path) then some (some ⟨response, time⟩) else none
  | .removed p => if p = path then some none else none

/-- What the last event that concerns an entry left there. -/
def last (log : List CacheEvent) (path : String) : Option CacheEntry := (log.findSome? (effect lib st path)).join

/-- A response of a `GET`, of a status that is `ok`, was written under this fingerprint at
most `RESPONSE_CACHE_EXPIRE` ago, and not removed. -/
def Fresh (s : CacheCrawl) (path : String) : Prop :=
  ∃ entry, last lib st s.log path = some entry ∧
    (st.RESPONSE_CACHE_EXPIRE = 0 ∨ s.now - entry.mtime ≤ st.RESPONSE_CACHE_EXPIRE)

theorem last_removed (log : List CacheEvent) (path : String) :
    last lib st (.removed path :: log) = Function.update (last lib st log) path none := by
  funext p
  by_cases hp : p = path
  · subst hp
    simp [last, effect]
  · simp [last, effect, Ne.symm hp, Function.update_of_ne hp]

theorem last_downloaded {log : List CacheEvent} {now : Nat} {written : Bool} {request : Request}
    {response : Response} {dir : CacheDir}
    (h : ResponseCache.store lib st (last lib st log) now written request response = .ok dir) :
    last lib st (.downloaded request response now written :: log) = dir := by
  have hnone : stored lib st request response = none ∨ written = false →
      last lib st (.downloaded request response now written :: log) = last lib st log := by
    rintro (hs | hs) <;> funext p <;> simp [last, effect, hs]
  unfold ResponseCache.store at h
  split at h
  · rename_i hoff
    cases h
    apply hnone
    left
    unfold stored
    rw [if_neg]
    simp only [Bool.or_eq_true, Bool.not_eq_true'] at hoff
    rcases hoff with hoff | hoff <;> simp [hoff]
  · rename_i hon
    split at h
    · rename_i hc
      cases h
      apply hnone
      left
      simp [stored, hc]
    · rename_i hc
      simp only [ResponseCache._entry_path] at h
      cases hf : request.fingerprint lib with
      | error e =>
        rw [hf] at h
        cases h
      | ok path =>
        rw [hf] at h
        have hs : stored lib st request response = some path := by
          simp only [Bool.or_eq_true, Bool.not_eq_true', not_or, Bool.not_eq_false] at hon
          simp [stored, hon, not_not.mp hc, hf, Except.toOption]
        cases written with
        | false =>
          cases h
          exact hnone (.inr rfl)
        | true =>
          cases h
          funext p
          by_cases hp : p = path
          · subst hp
            simp [last, effect, hs]
          · simp [last, effect, hs, Ne.symm hp, Function.update_of_ne hp]

/-- The directory holds what was last stored. -/
theorem dir_eq {s : CacheCrawl} (h : (machine lib st).Reachable s) : s.dir = last lib st s.log := by
  refine Machine.Within.induct (I := fun s => s.dir = last lib st s.log) ?_ (fun s a t hi _ ht => ?_) h
  · rintro s rfl
    rfl
  · have hset : ∀ (i : Nat) (pass : Pass), (s.setPass i pass).dir = last lib st (s.setPass i pass).log :=
      fun _ _ => hi
    simp only [machine, step] at ht
    cases a with
    | clock now =>
      cases ht
      exact hi
    | submit request =>
      cases ht
      exact hi
    | change i request =>
      simp only at ht
      split at ht <;> cases ht <;> exact hset _ _
    | load i readable =>
      simp only at ht
      split at ht <;> cases ht
      split <;> exact hset _ _
    | raise i =>
      simp only at ht
      split at ht <;> cases ht
      exact hset _ _
    | store i response written =>
      simp only at ht
      split at ht <;> cases ht
      split
      · exact hset _ _
      · rename_i dir hd
        rw [hi] at hd
        exact (last_downloaded lib st hd).symm
    | judge i judgement =>
      simp only at ht
      split at ht <;> cases ht
      split <;> exact hi
    | remove path =>
      cases ht
      simp only [last_removed, hi]

/-- A retry performs a download if and only if the cache is off, it is no `GET`, or no
response is fresh under its fingerprint, or readable. -/
theorem retry_downloads_iff {s t : CacheCrawl} (h : (machine lib st).Reachable s) {i : Nat} {request : Request}
    {rejected : Response} {readable : Bool} (hi : s.passes[i]? = some (.waiting request (some rejected)))
    (ht : step lib st s (.load i readable) = some t) :
    t.passes[i]? = some (.downloading request (some rejected)) ↔
      st.RESPONSE_CACHE_ENABLE = false ∨ request.method ≠ "GET" ∨
        ∃ path, request.fingerprint lib = .ok path ∧ (readable = false ∨ ¬ Fresh lib st s path) := by
  have hget : ∀ pass : Pass, (s.setPass i pass).passes[i]? = some pass := by
    intro pass
    rw [setPass, List.getElem?_set_self (List.getElem?_eq_some_iff.mp hi).1]
  simp only [step, hi, Option.some.injEq] at ht
  subst ht
  unfold ResponseCache.load ResponseCache._cacheable ResponseCache._entry_path
  cases hon : st.RESPONSE_CACHE_ENABLE with
  | false => simp [hget]
  | true =>
    by_cases hm : request.method = "GET"
    · simp only [hm, beq_self_eq_true, Bool.not_true, Bool.or_self, Bool.false_eq_true, if_false]
      cases hf : request.fingerprint lib with
      | error e =>
        refine iff_of_false ?_ ?_
        · simp [hget, bind, Except.bind]
        · simp
      | ok path =>
        have hiff : (∃ p, Except.ok path = (.ok p : Except Exn String) ∧ (readable = false ∨ ¬ Fresh lib st s p)) ↔
            (readable = false ∨ ¬ Fresh lib st s path) := by simp
        simp only [hiff, bind, Except.bind, ne_eq, not_true_eq_false, Bool.true_eq_false, false_or]
        rw [dir_eq lib st h]
        unfold Fresh
        cases hl : last lib st s.log path with
        | none => simp [hget, pure, Except.pure]
        | some entry =>
          have hexp : (st.RESPONSE_CACHE_EXPIRE = 0 ∨ s.now - entry.mtime ≤ st.RESPONSE_CACHE_EXPIRE) ↔
              ResponseCache.expired st s.now entry = false := by
            unfold ResponseCache.expired
            rw [decide_eq_false_iff_not]
            omega
          simp only [Option.some.injEq, exists_eq_left', hexp, pure, Except.pure]
          cases ResponseCache.expired st s.now entry <;> cases readable <;> simp [hget]
    · simp [hm, hget]

/-- A fresh entry answers the request, with whatever account. -/
theorem account_served {s : CacheCrawl} (h : (machine lib st).Reachable s) {i : Nat} {request : Request}
    {cookies : List (PyVal × PyVal)} {rejected : Option Response} {path : String} {entry : CacheEntry}
    (hi : s.passes[i]? = some (.waiting (UserPoolMiddleware.setCookies request cookies) rejected))
    (hon : st.RESPONSE_CACHE_ENABLE = true) (hm : request.method = "GET")
    (hpath : request.fingerprint lib = .ok path) (hl : last lib st s.log path = some entry)
    (hfresh : ResponseCache.expired st s.now entry = false) :
    step lib st s (.load i true) =
      some (s.setPass i (.answered (UserPoolMiddleware.setCookies request cookies) entry.response)) := by
  have hload : ResponseCache.load lib st s.dir s.now true (UserPoolMiddleware.setCookies request cookies)
      = .ok (some entry.response) := by
    have hm' : (UserPoolMiddleware.setCookies request cookies).method = "GET" := hm
    unfold ResponseCache.load ResponseCache._cacheable ResponseCache._entry_path
    rw [UserPoolMiddleware.fingerprint_setCookies, hpath, hm', hon, dir_eq lib st h]
    simp [bind, Except.bind, hl, hfresh, pure, Except.pure]
  simp only [step, hi, hload]

/-! ## The retries of `_process` -/

theorem replaced_put (env : Env) {q q' : Ref} {resp : Response} {j : Job} {retry : Request}
    (h : (Judgement.replaced (j.heap q')).retry st (j.heap q) = some retry) :
    (ParserWorker.retryReplacement st env q q' resp j).2.heap q' = retry ∧
      Effect.put q' ∈ (ParserWorker.retryReplacement st env q q' resp j).2.effects := by
  simp only [Judgement.retry] at h
  split at h <;> cases h
  rename_i hlt
  unfold ParserWorker.retryReplacement
  rw [if_neg hlt]
  simp [Job.emit, Job.setHeap]

theorem raised_put (env : Env) {q : Ref} {resp : Option Response} {exc : Exn} {j : Job} {retry : Request}
    (hsize : env.isinstance exc "ResponseTooLargeError" = false) (hhook : env.exceptionRequest q resp exc = id)
    (hpause : ∀ j, (ParserWorker.pause st env q resp j).1 = .ok ())
    (h : Judgement.invalid.retry st (j.heap q) = some retry) :
    (ParserWorker.retryOrFail st env q resp exc j).2.heap q = retry ∧
      Effect.putRetry q ∈ (ParserWorker.retryOrFail st env q resp exc j).2.effects := by
  simp only [Judgement.retry] at h
  split at h <;> cases h
  rename_i hlt
  unfold ParserWorker.retryOrFail
  simp only [hsize, hlt, decide_false, Bool.or_self, Bool.false_eq_true, if_false, hhook]
  rcases hp : ParserWorker.pause st env q resp _ with ⟨e | _, j'⟩
  · exact absurd (hpause _) (by rw [hp]; simp)
  · have hheap : j'.heap = _ :=
      (congrArg (fun x : Except Exn Unit × Job => x.2.heap) hp).symm.trans (ParserWorker.pause_heap st env q resp _)
    simp [Job.emit, Job.setHeap, hheap]

/-! ## Two accounts -/

/-- A page that is no data, of status 200. -/
def loginWall : Response := { statusCode := 200, url := "http://x/a" }

def account (sid : String) : List (PyVal × PyVal) := [(.str "sid", .str sid)]

def page : Request := { url := "http://x/a" }

def retried : Request := { page with retryTimes := 1, filterRepeat := false }

/-- The account `alice` gets the login wall, and the request is tried again with `bob`. -/
def twoAccounts : List CacheAct :=
  [.submit page, .change 0 (UserPoolMiddleware.setCookies page (account "alice")), .load 0 true,
    .store 0 loginWall true, .judge 0 (.replaced (UserPoolMiddleware.setCookies page [])),
    .change 1 (UserPoolMiddleware.setCookies retried (account "bob"))]

def cacheOn : Setting := { RESPONSE_CACHE_ENABLE := true }

def after (as : List CacheAct) : CacheCrawl := ((machine Request.plainUrls cacheOn).exec {} as).getD {}

theorem reachable_after {as : List CacheAct}
    (h : (machine Request.plainUrls cacheOn).exec {} as = some (after as)) :
    (machine Request.plainUrls cacheOn).Reachable (after as) :=
  Machine.Reachable.exec (.start rfl) h

/-- `bob`'s request performs a download where the entry has been removed. -/
def removed : List CacheAct := twoAccounts ++ [CacheAct.remove "GET|http://x/a|"]

theorem retry_downloads_iff_removed :
    ((after (removed ++ [CacheAct.load 1 true])).passes[1]?) =
      some (.downloading (UserPoolMiddleware.setCookies retried (account "bob")) (some loginWall)) := by
  have hi : (after removed).passes[1]? =
      some (.waiting (UserPoolMiddleware.setCookies retried (account "bob")) (some loginWall)) := by decide
  have ht : step Request.plainUrls cacheOn (after removed) (.load 1 true) =
      some (after (removed ++ [CacheAct.load 1 true])) := rfl
  have hnone : last Request.plainUrls cacheOn (after removed).log "GET|http://x/a|" = none := rfl
  refine (retry_downloads_iff Request.plainUrls cacheOn (reachable_after rfl) hi ht).mpr (.inr (.inr ?_))
  refine ⟨"GET|http://x/a|", rfl, .inr ?_⟩
  rintro ⟨entry, he, _⟩
  rw [hnone] at he
  cases he

/-- The login wall answers the second account as well. -/
theorem loginWall_served :
    ¬ ∀ (lib : Stdlib) (st : Setting) (s t : CacheCrawl) (i : Nat) (request : Request) (rejected : Response)
        (readable : Bool), st.RESPONSE_CACHE_ENABLE = true → (machine lib st).Reachable s →
        s.passes[i]? = some (.waiting request (some rejected)) → step lib st s (.load i readable) = some t →
        t.passes[i]? = some (.downloading request (some rejected)) := by
  intro h
  have hi : (after twoAccounts).passes[1]? =
      some (.waiting (UserPoolMiddleware.setCookies retried (account "bob")) (some loginWall)) := by decide
  have ht : step Request.plainUrls cacheOn (after twoAccounts) (.load 1 true) =
      some (after (twoAccounts ++ [CacheAct.load 1 true])) := rfl
  have hd := h _ _ _ _ 1 _ _ true rfl (reachable_after rfl) hi ht
  have hserved : (after (twoAccounts ++ [CacheAct.load 1 true])).passes[1]? =
      some (.answered (UserPoolMiddleware.setCookies retried (account "bob")) loginWall) := by decide
  rw [hserved] at hd
  cases hd

end CacheCrawl

end Netspy
