import Netspy.Impl.UserPoolMiddleware
import Netspy.Proof.RedisUserPool

/-!
# What becomes of a borrowed account

A worker gives an account back in one place: `process_response` of the pool's
middleware, which reads it from the request object. No account is lost as long as
each request with an account gets there, with the object that the account was
hung on, and no command of the pool raises while the account is in no set
(`account_returns`).
-/

namespace Netspy

open RedisUserPool

def PyVal.isDict : PyVal → Bool
  | .dict _ => true
  | _ => false

/-- No command raises while the account is in no set, none pops one and then
raises, and the cookies that come with an account are a dict. -/
def CallKeeps (pool : RedisUserPool) (keys : PoolKeys) (accounts : String → Option PyVal) (reply : Reply) :
    PoolCall → Prop
  | .popping _ => reply = .lost → keys.ready.rows = []
  | .forgetting _ | .loggingIn _ _ => True
  | .puttingBack _ _ | .coolingDown _ _ | .reporting _ _ _ => reply ≠ .failed
  | .reading _ u =>
    reply = .answered ∧
      ((pool.cachedCookies (keys.cookies u)).getD ((accounts u).getD (.dict []))).isDict = true
  | .caching user => reply = .answered ∧ (pool.dumpsJson user.cookies).isOk = true ∧ user.cookies.isDict = true

instance (pool : RedisUserPool) (keys : PoolKeys) (accounts : String → Option PyVal) (reply : Reply) (call : PoolCall) :
    Decidable (CallKeeps pool keys accounts reply call) := by
  unfold CallKeeps
  split <;> infer_instance

/-- The scores that a call will write are at most the longest wait away. -/
def PoolCall.Within (now longest : Nat) : PoolCall → Prop
  | .popping t | .reading t _ | .loggingIn t _ => t ≤ now
  | .puttingBack _ score => score ≤ now + longest
  | .coolingDown _ score | .reporting _ score _ => score ≤ now + longest
  | .caching _ | .forgetting _ => True

/-- A call of `report_ok` or `report_bad`. -/
def PoolCall.reports : PoolCall → Bool
  | .reporting _ _ _ | .forgetting _ => true
  | _ => false

theorem PoolCall.Within.mono {call : PoolCall} {now now' longest : Nat} (h : call.Within now longest) (hle : now ≤ now') :
    call.Within now' longest := by
  cases call with
  | popping u | reading u username | loggingIn u username => exact Nat.le_trans h hle
  | puttingBack username score =>
    have h : score ≤ now + longest := h
    show score ≤ now' + longest
    omega
  | coolingDown username score | reporting username score bad =>
    have h : score ≤ now + longest := h
    show score ≤ now' + longest
    omega
  | caching user | forgetting username => trivial

section
variable {pool : RedisUserPool} {keys : PoolKeys} {accounts : String → Option PyVal} {login : Except Exn PyVal}
  {call : PoolCall} {reply : Reply}

/-! ## A step of a call -/

/-- What was in the set, or with the call, is after a command that works. -/
theorem keeps_next {x : String} (hx : x ∈ keys.ready ∨ call.held = some x)
    (hd : ∀ user, call = .caching user → (pool.dumpsJson user.cookies).isOk = true) :
    x ∈ (pool.next keys accounts login call).keys.ready ∨ (pool.next keys accounts login call).held = some x := by
  cases call with
  | popping now =>
    have hx : x ∈ keys.ready := hx.resolve_right (fun he => by cases he)
    simp only [RedisUserPool.next]
    split
    · exact .inl hx
    · rename_i score username hhead
      by_cases hu : x = username
      · refine .inr ?_
        unfold PoolStep.held
        rw [hu]
        dsimp only
        split <;> rfl
      · exact .inl ((ZSet.mem_afterPop hhead).mpr ⟨hx, hu⟩)
  | puttingBack username score | coolingDown username score | reporting username score bad =>
    exact .inl (ZSet.mem_zadd.mpr (hx.symm.imp_left fun he => (Option.some.inj he).symm))
  | reading now username =>
    rcases hx with hx | hx
    · refine .inl ?_
      simp only [RedisUserPool.next]
      repeat' split
      all_goals exact hx
    · refine .inr ?_
      simp only [RedisUserPool.next]
      repeat' split
      all_goals exact hx
  | loggingIn now username =>
    rcases hx with hx | hx
    · refine .inl ?_
      simp only [RedisUserPool.next]
      split <;> exact hx
    · refine .inr ?_
      simp only [RedisUserPool.next]
      split <;> exact hx
  | caching user =>
    have hdumps := hd user rfl
    simp only [RedisUserPool.next]
    split
    · exact hx
    · rename_i he
      rw [he] at hdumps
      cases hdumps
  | forgetting username => exact .inl (hx.resolve_right (fun he => by cases he))

theorem keeps_step (h : CallKeeps pool keys accounts reply call) {x : String}
    (hx : x ∈ keys.ready ∨ call.held = some x) :
    x ∈ (pool.step keys accounts login reply call).keys.ready ∨
      (pool.step keys accounts login reply call).held = some x := by
  cases call with
  | popping now =>
    have hmem : x ∈ keys.ready := hx.resolve_right nofun
    cases reply with
    | answered => exact keeps_next hx fun _ => nofun
    | failed => exact .inl hmem
    | lost =>
      obtain ⟨y, hy⟩ := ZSet.mem_iff.mp hmem
      rw [h rfl] at hy
      cases hy
  | puttingBack username score | coolingDown username score =>
    cases reply with
    | answered => exact keeps_next hx fun _ => nofun
    | failed => exact absurd rfl h
    | lost => exact .inl (ZSet.mem_zadd.mpr (hx.symm.imp_left fun he => (Option.some.inj he).symm))
  | reporting username score bad =>
    cases reply with
    | answered => exact keeps_next hx fun _ => nofun
    | failed => exact absurd rfl h
    | lost => exact .inl (ZSet.mem_zadd.mpr (hx.symm.imp_left fun he => (Option.some.inj he).symm))
  | reading now username =>
    obtain ⟨rfl, -⟩ := h
    exact keeps_next hx fun _ => nofun
  | loggingIn now username =>
    have hstep : pool.step keys accounts login reply (.loggingIn now username) =
        pool.next keys accounts login (.loggingIn now username) := by
      cases reply <;> rfl
    rw [hstep]
    exact keeps_next hx fun _ => nofun
  | caching user =>
    obtain ⟨rfl, hdumps, -⟩ := h
    refine keeps_next hx fun user' he => ?_
    cases he
    exact hdumps
  | forgetting username =>
    have hmem : x ∈ keys.ready := hx.resolve_right nofun
    cases reply <;> exact .inl hmem

/-- The account of a `get` that returned has a dict of cookies. -/
theorem isDict_step (h : CallKeeps pool keys accounts reply call) {user : User}
    (hu : (pool.step keys accounts login reply call).next = .inr (.user user)) : user.cookies.isDict = true := by
  cases call with
  | popping now =>
    cases reply with
    | answered =>
      simp only [RedisUserPool.step, RedisUserPool.next] at hu
      split at hu <;> cases hu
    | failed | lost => cases hu
  | puttingBack username score | coolingDown username score | forgetting username => cases reply <;> cases hu
  | reporting username score bad => cases reply <;> cases bad <;> cases hu
  | reading now username =>
    obtain ⟨rfl, hdict⟩ := h
    simp only [RedisUserPool.step, RedisUserPool.next] at hu
    split at hu
    · rename_i cookies hcached
      cases hu
      rw [hcached] at hdict
      exact hdict
    · rename_i hcached
      rw [hcached] at hdict
      split at hu
      · cases hu
      · split at hu <;> cases hu
        exact hdict
  | loggingIn now username =>
    have hnext : (pool.next keys accounts login (.loggingIn now username)).next = .inr (.user user) := by
      cases reply <;> exact hu
    simp only [RedisUserPool.next] at hnext
    split at hnext <;> cases hnext
  | caching user' =>
    obtain ⟨rfl, -, hdict⟩ := h
    simp only [RedisUserPool.step, RedisUserPool.next] at hu
    split at hu <;> cases hu
    exact hdict

/-- A report goes on with its other command, or ends. -/
theorem reports_step (h : call.reports = true) :
    (∃ call', (pool.step keys accounts login reply call).next = .inl call' ∧ call'.reports = true) ∨
      (pool.step keys accounts login reply call).next = .inr .reported ∨
      ∃ e, (pool.step keys accounts login reply call).next = .inr (.raised e) := by
  cases call with
  | reporting username score bad =>
    cases reply with
    | answered =>
      cases bad with
      | true => exact .inl ⟨_, rfl, rfl⟩
      | false => exact .inr (.inl rfl)
    | failed | lost => exact .inr (.inr ⟨_, rfl⟩)
  | forgetting username =>
    cases reply with
    | answered => exact .inr (.inl rfl)
    | failed | lost => exact .inr (.inr ⟨_, rfl⟩)
  | _ => cases h

/-- A command writes the score that its call computed. -/
theorem row_next {now longest : Nat} (hw : call.Within now longest) {y : Int} {x : String}
    (h : (y, x) ∈ (pool.next keys accounts login call).keys.ready.rows) :
    (y, x) ∈ keys.ready.rows ∨ y ≤ now + longest := by
  cases call with
  | popping t =>
    simp only [RedisUserPool.next] at h
    split at h
    · exact .inl h
    · exact .inl (List.mem_of_mem_drop h)
  | puttingBack username score | coolingDown username score =>
    rcases ZSet.row_zadd.mp h with ⟨rfl, -⟩ | ⟨h, -⟩
    · refine .inr ?_
      have hw : _ ≤ _ := hw
      omega
    · exact .inl h
  | reporting username score bad =>
    rcases ZSet.row_zadd.mp h with ⟨rfl, -⟩ | ⟨h, -⟩
    · refine .inr ?_
      have hw : score ≤ now + longest := hw
      omega
    · exact .inl h
  | reading t username =>
    simp only [RedisUserPool.next] at h
    repeat' split at h
    all_goals exact .inl h
  | loggingIn t username | caching user =>
    simp only [RedisUserPool.next] at h
    split at h <;> exact .inl h
  | forgetting username => exact .inl h

theorem row_step {now longest : Nat} (hw : call.Within now longest) {y : Int} {x : String}
    (h : (y, x) ∈ (pool.step keys accounts login reply call).keys.ready.rows) :
    (y, x) ∈ keys.ready.rows ∨ y ≤ now + longest := by
  unfold RedisUserPool.step at h
  split at h
  · exact row_next hw h
  · exact row_next hw h
  · exact .inl h
  · exact row_next hw h

/-- The score that a call computes is that of a row, or no longer away than its
wait. -/
theorem within_step {now longest : Nat} (hw : call.Within now longest) (hl : 300000000 ≤ longest)
    (hn : pool.notReadyRetry ≤ longest) (hrows : ∀ row ∈ keys.ready.rows, row.1 ≤ (now : Int) + longest)
    {call' : PoolCall} (h : (pool.step keys accounts login reply call).next = .inl call') :
    call'.Within now longest := by
  cases call with
  | popping t =>
    cases reply with
    | answered =>
      simp only [RedisUserPool.step, RedisUserPool.next] at h
      split at h
      · cases h
      · rename_i score username hhead
        cases h
        split
        · exact hrows _ (List.mem_of_head? hhead)
        · exact hw
    | failed | lost => cases h
  | puttingBack username score | coolingDown username score | forgetting username => cases reply <;> cases h
  | reporting username score bad =>
    cases reply with
    | answered =>
      cases bad <;> cases h
      trivial
    | failed | lost => cases h
  | reading t username =>
    have hw : t ≤ now := hw
    cases reply with
    | answered =>
      simp only [RedisUserPool.step, RedisUserPool.next] at h
      split at h
      · cases h
      · split at h
        · cases h
          exact hw
        · split at h <;> cases h
          show t + pool.notReadyRetry ≤ now + longest
          omega
    | failed | lost => cases h
  | loggingIn t username =>
    have hw : t ≤ now := hw
    have hnext : (pool.next keys accounts login (.loggingIn t username)).next = .inl call' := by
      cases reply <;> exact h
    simp only [RedisUserPool.next] at hnext
    split at hnext <;> cases hnext
    · trivial
    · show t + 300000000 ≤ now + longest
      omega
  | caching user =>
    cases reply with
    | answered =>
      simp only [RedisUserPool.step, RedisUserPool.next] at h
      split at h <;> cases h
    | failed | lost => cases h

end

namespace PoolCrawl

section
variable {ν ω : Type} [DecidableEq ν] [DecidableEq ω] {st : Setting} {pools : ν → RedisUserPool} {node : ω → ν}
  {others : ν → Nat} {longest : Nat} {s t : PoolCrawl ν ω}

/-- A request with an account gets to `process_response` with the object that the
account was hung on, and the commands of the pool work. -/
def Returns (pools : ν → RedisUserPool) (node : ω → ν) (s : PoolCrawl ν ω) : PoolCrawlAct ν ω → Prop
  | .call w _ reply =>
    match s.pools.users w with
    | .calling n call => CallKeeps (pools n) s.pools.keys (s.pools.accounts n) reply call
    | _ => True
  | .laterRequest w (.raised _) | .downloadMidware w (.raised _) => s.pools.users w = .out
  | .fetch w out =>
    s.pools.users w = .out ∨
      out = .response ∧
        match s.workers w with
        | .fetch q => (s.requests (node w) q).autoRequest = true
        | _ => True
  | .laterResponse w out => s.pools.users w = .out ∨ out = .response ∨ out = .none
  | .processResponse w _ =>
    match s.workers w, s.pools.users w with
    | .processResponse q, .borrowed _ user => (s.userOf (node w) q).map User.username = some user.username
    | _, _ => True
  | _ => True

instance (s : PoolCrawl ν ω) (a : PoolCrawlAct ν ω) : Decidable (Returns pools node s a) := by
  unfold Returns
  repeat' split
  all_goals infer_instance

/-- The account is in the set or with a worker. -/
def Has (s : PoolCrawl ν ω) (u : String) : Prop := u ∈ s.pools.keys.ready ∨ ∃ w, s.pools.held w = some u

/-- Where a worker that is at `phase` can be with the pool. -/
def Fits (phase : WorkPhase) (user : PoolUser ν) : Prop :=
  match phase with
  | .idle | .processRequest _ | .rest _ => user = .out
  | .waitForUser _ _ _ => ∀ n u, user ≠ .borrowed n u
  | .report _ => ∃ n call, user = .calling n call ∧ call.reports = true
  | _ => ∀ n call, user ≠ .calling n call

structure Kept (longest : Nat) (s : PoolCrawl ν ω) : Prop where
  has : ∀ u ∈ s.known, s.Has u
  scores : s.WithinWait longest
  calls : ∀ w n call, s.pools.users w = .calling n call → call.Within s.pools.now longest
  fits : ∀ w, Fits (s.workers w) (s.pools.users w)

omit [DecidableEq ν] [DecidableEq ω] in
theorem Kept.fits_of (h : Kept longest s) {w : ω} {phase : WorkPhase} (hw : s.workers w = phase) :
    Fits phase (s.pools.users w) := hw ▸ h.fits w

omit [DecidableEq ν] in
/-- Nobody loses an account if a worker that has one keeps it. -/
theorem Has.setUser {u : String} (h : s.Has u) {w : ω} {user : PoolUser ν} {t : PoolCrawl ν ω}
    (ht : t.pools = s.pools.setUser w user) (hk : ∀ x, s.pools.held w = some x → user.held = some x) : t.Has u := by
  unfold Has
  rw [ht]
  rcases h with h | ⟨v, hv⟩
  · exact .inl h
  · refine .inr ⟨v, ?_⟩
    rw [UserPools.held_setUser]
    by_cases hvw : v = w
    · subst hvw
      rw [Function.update_self]
      exact hk u hv
    · rw [Function.update_of_ne hvw]
      exact hv

omit [DecidableEq ν] in
/-- A worker that has no call to do, or its first one, and an account as before. -/
theorem Kept.setUser (h : Kept longest s) {w : ω} {user : PoolUser ν} {phase : WorkPhase} {t : PoolCrawl ν ω}
    (hp : t.pools = s.pools.setUser w user) (hw : t.workers = Function.update s.workers w phase)
    (hn : t.known = s.known) (hk : ∀ x, s.pools.held w = some x → user.held = some x)
    (hc : ∀ n call, user = .calling n call → call.Within s.pools.now longest) (hf : Fits phase user) :
    Kept longest t where
  has u hu := (h.has u (hn ▸ hu)).setUser hp hk
  scores := by
    unfold WithinWait
    rw [hp]
    exact h.scores
  calls v n call hv := by
    rw [hp] at hv ⊢
    have hv : Function.update s.pools.users w user v = .calling n call := hv
    by_cases hvw : v = w
    · rw [hvw, Function.update_self] at hv
      exact hc n call hv
    · rw [Function.update_of_ne hvw] at hv
      exact h.calls v n call hv
  fits v := by
    rw [hp, hw]
    by_cases hvw : v = w
    · subst hvw
      show Fits (Function.update s.workers v phase v) (Function.update s.pools.users v user v)
      rw [Function.update_self, Function.update_self]
      exact hf
    · show Fits (Function.update s.workers w phase v) (Function.update s.pools.users w user v)
      rw [Function.update_of_ne hvw, Function.update_of_ne hvw]
      exact h.fits v

omit [DecidableEq ν] in
theorem setUser_self (p : UserPools ν ω) (w : ω) : p.setUser w (p.users w) = p := by
  unfold UserPools.setUser
  rw [Function.update_eq_self]

omit [DecidableEq ν] in
/-- A worker that goes on, with the pool as before. -/
theorem Kept.setPhase (h : Kept longest s) {w : ω} {phase : WorkPhase} {t : PoolCrawl ν ω} (hp : t.pools = s.pools)
    (hw : t.workers = Function.update s.workers w phase) (hn : t.known = s.known)
    (hf : Fits phase (s.pools.users w)) : Kept longest t :=
  h.setUser (hp.trans (setUser_self s.pools w).symm) hw hn (fun _ hx => hx) (h.calls w) hf

omit [DecidableEq ν] in
/-- A worker that has no account leaves. -/
theorem Kept.leave (h : Kept longest s) {w : ω} {raised : Option Exn} (ho : s.pools.users w = .out) :
    Kept longest (s.leave w raised) :=
  h.setUser rfl rfl rfl (fun x hx => by rw [UserPools.held, ho] at hx; cases hx) (fun n call hc => by cases hc) rfl

omit [DecidableEq ν] [DecidableEq ω] in
theorem fits_next {user : PoolUser ν} (hf : ∀ n call, user ≠ .calling n call) (own q : Ref) (k : Nat) :
    Fits (nextRequest own q k) user ∧ Fits (nextResponse q k) user := by
  cases k with
  | zero => exact ⟨hf, hf⟩
  | succ k => exact ⟨hf, hf⟩

/-- A step of a call, but for what the worker does with its result. -/
theorem Kept.call (h : Kept longest s) {w : ω} {n : ν} {call : PoolCall} {login : Except Exn PyVal} {reply : Reply}
    (hl : 1800000000 ≤ longest) (hn : (pools n).notReadyRetry ≤ longest) (hw : s.pools.users w = .calling n call)
    (hk : CallKeeps (pools n) s.pools.keys (s.pools.accounts n) reply call) {phase : WorkPhase} {t : PoolCrawl ν ω}
    (hp : t.pools = s.pools.call pools w n call login reply) (hph : t.workers = Function.update s.workers w phase)
    (hkn : t.known = s.known)
    (hf : Fits phase (UserPools.afterCall n
      ((pools n).step s.pools.keys (s.pools.accounts n) login reply call).next)) : Kept longest t := by
  have hwithin := h.calls w n call hw
  have hheld : s.pools.held w = call.held := by
    rw [UserPools.held, hw]
    rfl
  have hafter : t.pools.held = Function.update s.pools.held w
      ((pools n).step s.pools.keys (s.pools.accounts n) login reply call).held := by
    rw [hp]
    unfold UserPools.call
    rw [UserPools.held_setUser, UserPools.held_afterCall]
    rfl
  constructor
  · intro u hu
    have hstep := h.has u (hkn ▸ hu)
    unfold Has at hstep ⊢
    rw [hafter]
    have hmine (hx : u ∈ s.pools.keys.ready ∨ call.held = some u) : u ∈ t.pools.keys.ready ∨
        ∃ v, Function.update s.pools.held w
          ((pools n).step s.pools.keys (s.pools.accounts n) login reply call).held v = some u := by
      rw [hp]
      rcases @keeps_step _ _ _ login _ _ hk _ hx with hx | hx
      · exact .inl hx
      · exact .inr ⟨w, by rw [Function.update_self]; exact hx⟩
    rcases hstep with hu | ⟨v, hv⟩
    · exact hmine (.inl hu)
    · by_cases hvw : v = w
      · subst hvw
        exact hmine (.inr (hheld.symm.trans hv))
      · exact .inr ⟨v, by rw [Function.update_of_ne hvw]; exact hv⟩
  · intro row hrow
    rw [hp] at hrow ⊢
    rcases row_step hwithin hrow with hrow | hle
    · exact h.scores row hrow
    · exact hle
  · intro v m call' hv
    rw [hp] at hv ⊢
    have hv : Function.update s.pools.users w _ v = .calling m call' := hv
    by_cases hvw : v = w
    · rw [hvw, Function.update_self] at hv
      unfold UserPools.afterCall at hv
      split at hv
      · rename_i next hnext
        cases hv
        exact within_step hwithin (by omega) hn h.scores hnext
      · cases hv
      · cases hv
    · rw [Function.update_of_ne hvw] at hv
      exact h.calls v m call' hv
  · intro v
    rw [hp, hph]
    by_cases hvw : v = w
    · subst hvw
      show Fits (Function.update s.workers v phase v) (Function.update s.pools.users v _ v)
      rw [Function.update_self, Function.update_self]
      exact hf
    · show Fits (Function.update s.workers w phase v) (Function.update s.pools.users w _ v)
      rw [Function.update_of_ne hvw, Function.update_of_ne hvw]
      exact h.fits v

omit [DecidableEq ν] [DecidableEq ω] in
/-- What is not a worker's step leaves where they are. -/
theorem Kept.shared (h : Kept longest s) {t : PoolCrawl ν ω} (hw : t.workers = s.workers)
    (hu : t.pools.users = s.pools.users) (hnow : s.pools.now ≤ t.pools.now)
    (hready : ∀ u ∈ s.pools.keys.ready, u ∈ t.pools.keys.ready)
    (hknown : ∀ u ∈ t.known, u ∈ s.known ∨ u ∈ t.pools.keys.ready)
    (hrows : ∀ row ∈ t.pools.keys.ready.rows, row.1 ≤ 0 ∨ row ∈ s.pools.keys.ready.rows) : Kept longest t where
  has u hk := by
    have hheld : t.pools.held = s.pools.held := by
      unfold UserPools.held
      rw [hu]
    rcases hknown u hk with hk | hk
    · unfold Has
      rw [hheld]
      exact (h.has u hk).imp_left (hready u)
    · exact .inl hk
  scores row hrow := by
    rcases hrows row hrow with hle | hrow
    · omega
    · have hle := h.scores row hrow
      omega
  calls w n call hc := (h.calls w n call (hu ▸ hc)).mono hnow
  fits w := by
    rw [hw, hu]
    exact h.fits w

omit [DecidableEq ν] [DecidableEq ω] in
theorem merged_of_isDict {base : List (PyVal × PyVal)} {cookies : PyVal} (h : cookies.isDict = true) :
    ∃ kvs, UserPoolMiddleware.merged base cookies = .ok kvs := by
  cases cookies with
  | dict kvs => exact ⟨_, rfl⟩
  | _ => cases h

/-- The thread of a call that has ended is out already. -/
theorem setUser_call {p : UserPools ν ω} {w : ω} {n : ν} {call : PoolCall} {login : Except Exn PyVal} {reply : Reply}
    (h : UserPools.afterCall n ((pools n).step p.keys (p.accounts n) login reply call).next = .out) :
    (p.call pools w n call login reply).setUser w .out = p.call pools w n call login reply := by
  have hw : (p.call pools w n call login reply).users w = .out := (Function.update_self w _ p.users).trans h
  rw [← hw]
  exact setUser_self _ w

/-- A step of a call, and what its worker does with the result. -/
theorem Kept.callStep (h : Kept longest s) {w : ω} {n : ν} {call : PoolCall} {login : Except Exn PyVal}
    {reply : Reply} (hl : 1800000000 ≤ longest) (hn : ∀ n, (pools n).notReadyRetry ≤ longest)
    (hw : s.pools.users w = .calling n call) (hk : CallKeeps (pools n) s.pools.keys (s.pools.accounts n) reply call)
    (ht : s.call st pools node others w n call login reply = some t) : Kept longest t := by
  have hkept {phase : WorkPhase} {t : PoolCrawl ν ω} :=
    @Kept.call ν ω _ _ pools longest s h w n call login reply hl (hn n) hw hk phase t
  unfold PoolCrawl.call at ht
  dsimp only at ht
  have hleave (raised : Option Exn)
      (hout : UserPools.afterCall n ((pools n).step s.pools.keys (s.pools.accounts n) login reply call).next = .out) :
      Kept longest
        (PoolCrawl.leave { s with pools := s.pools.call pools w n call login reply } w raised) :=
    hkept (setUser_call hout) rfl rfl hout
  have hnone (q : Ref) (base : List (PyVal × PyVal)) (deadline : Option Nat)
      (hout : UserPools.afterCall n ((pools n).step s.pools.keys (s.pools.accounts n) login reply call).next = .out) :
      Kept longest
        (PoolCrawl.noUser st node others { s with pools := s.pools.call pools w n call login reply } w q base
          deadline) := by
    unfold noUser
    split
    · have hf : ∀ m c, (PoolUser.out : PoolUser ν) ≠ .calling m c := fun _ _ => nofun
      refine hkept rfl rfl rfl ?_
      rw [hout]
      exact (fits_next hf q q _).1
    · dsimp only
      split
      · exact hleave _ hout
      · refine hkept rfl rfl rfl ?_
        rw [hout]
        exact fun _ _ => nofun
  split at ht
  · rename_i q base deadline hph
    cases ht
    split
    · rename_i call' hnext
      refine hkept rfl (Function.update_eq_self w s.workers).symm rfl ?_
      rw [hph, hnext]
      exact fun _ _ => nofun
    · rename_i user hnext
      obtain ⟨kvs, hkvs⟩ := @merged_of_isDict base user.cookies (isDict_step hk hnext)
      unfold gotUser
      rw [hkvs]
      have hf : ∀ m c, (PoolUser.borrowed n user : PoolUser ν) ≠ .calling m c := fun _ _ => nofun
      refine hkept rfl rfl rfl ?_
      rw [hnext]
      exact (fits_next hf q q _).1
    · rename_i hnext
      exact hnone q base deadline (by rw [hnext]; rfl)
    · rename_i hnext
      exact hnone q base deadline (by rw [hnext]; rfl)
    · rename_i e hnext
      exact hleave (some e) (by rw [hnext]; rfl)
  · rename_i q hph
    cases ht
    have hreports : call.reports = true := by
      have hf := h.fits w
      rw [hph, hw] at hf
      obtain ⟨m, c, hc, hr⟩ := hf
      cases hc
      exact hr
    rcases @reports_step (pools n) s.pools.keys (s.pools.accounts n) login call reply hreports with
      ⟨call', hnext, hr⟩ | hnext | ⟨e, hnext⟩
    · rw [hnext]
      refine hkept rfl (Function.update_eq_self w s.workers).symm rfl ?_
      rw [hph, hnext]
      exact ⟨n, call', rfl, hr⟩
    · rw [hnext]
      exact hleave none (by rw [hnext]; rfl)
    · rw [hnext]
      exact hleave (some e) (by rw [hnext]; rfl)
  · cases ht

/-- What one guarded step preserves. -/
theorem kept_step {a : PoolCrawlAct ν ω} (h : Kept longest s) (hl : 1800000000 ≤ longest)
    (hn : ∀ n, (pools n).notReadyRetry ≤ longest) (hg : Returns pools node s a)
    (ht : step st pools node others s a = some t) : Kept longest t := by
  cases a with
  | tick d =>
    cases ht
    exact h.shared rfl rfl (Nat.le_add_right _ d) (fun _ hu => hu) (fun _ hu => .inl hu) fun _ hr => .inr hr
  | init n accounts =>
    cases ht
    refine h.shared rfl rfl (Nat.le_refl _) (fun u hu => ZSet.mem_foldl_zaddNX.mpr (.inr hu)) (fun u hu => ?_)
      fun row hrow => ?_
    · exact (List.mem_append.mp hu).imp_right fun hu => ZSet.mem_foldl_zaddNX.mpr (.inl hu)
    · rcases ZSet.row_foldl_zaddNX hrow with ⟨hy, -⟩ | hrow
      · exact .inl (Int.le_of_eq hy)
      · exact .inr hrow
  | writeCookies username text =>
    cases ht
    exact h.shared rfl rfl (Nat.le_refl _) (fun _ hu => hu) (fun _ hu => .inl hu) fun _ hr => .inr hr
  | change n q r =>
    cases ht
    exact h.shared rfl rfl (Nat.le_refl _) (fun _ hu => hu) (fun _ hu => .inl hu) fun _ hr => .inr hr
  | take w q =>
    simp only [step] at ht
    split at ht <;> cases ht
    rename_i hw
    have hf := h.fits_of hw
    exact h.setPhase rfl rfl rfl hf
  | processRequest w =>
    simp only [step] at ht
    split at ht <;> cases ht
    rename_i q hw
    have hf := h.fits_of hw
    have ho : s.pools.users w = .out := hf
    unfold processRequest
    split
    · exact h.setPhase rfl rfl rfl fun n u => by rw [ho]; simp
    · exact h.leave ho
  | get w =>
    simp only [step] at ht
    split at ht
    · rename_i q base deadline hw
      obtain ⟨p, hp, rfl⟩ := Option.map_eq_some_iff.mp ht
      simp only [UserPools.step] at hp
      split at hp <;> cases hp
      rename_i ho
      refine h.setUser rfl (Function.update_eq_self w s.workers).symm rfl (fun x hx => ?_) (fun n call hc => ?_) ?_
      · rw [UserPools.held, ho] at hx
        cases hx
      · cases hc
        exact Nat.le_refl _
      · rw [hw]
        exact fun n u hu => by cases hu
    · cases ht
  | call w login reply =>
    simp only [step] at ht
    split at ht
    · rename_i n call hw
      have hk : CallKeeps (pools n) s.pools.keys (s.pools.accounts n) reply call := by
        simp only [Returns, hw] at hg
        exact hg
      exact h.callStep hl hn hw hk ht
    · cases ht
  | laterRequest w out =>
    simp only [step] at ht
    split at ht
    · rename_i own q k hw
      have hf := h.fits_of hw
      cases out with
      | none | request q' =>
        cases ht
        exact h.setPhase rfl rfl rfl (fits_next hf own _ k).1
      | response =>
        cases ht
        exact h.setPhase rfl rfl rfl hf
      | raised e =>
        cases ht
        exact h.leave hg
    · cases ht
  | downloadMidware w out =>
    simp only [step] at ht
    split at ht
    · rename_i q response hw
      have hf := h.fits_of hw
      cases ht
      refine h.setPhase rfl rfl rfl ?_
      split
      · exact (fits_next hf q q _).2
      · exact hf
    · rename_i q response q' hw
      have hf := h.fits_of hw
      cases ht
      refine h.setPhase rfl rfl rfl ?_
      split
      · exact (fits_next hf q' q' _).2
      · exact hf
    · cases ht
      exact h.leave hg
    · cases ht
  | fetch w out =>
    simp only [step] at ht
    split at ht
    · rename_i q hw
      have hf := h.fits_of hw
      cases ht
      rcases hg with ho | ⟨rfl, hauto⟩
      · split
        · cases out with
          | response => exact h.setPhase rfl rfl rfl (fits_next hf q q _).2
          | robotsDenied | raised e => exact h.leave ho
        · exact h.leave ho
      · rw [hw] at hauto
        rw [if_pos hauto]
        exact h.setPhase rfl rfl rfl (fits_next hf q q _).2
    · cases ht
  | laterResponse w out =>
    simp only [step] at ht
    split at ht
    · rename_i q k hw
      have hf := h.fits_of hw
      cases ht
      exact h.setPhase rfl rfl rfl (fits_next hf q q k).2
    · rename_i q k hw
      have hf := h.fits_of hw
      cases ht
      exact h.setPhase rfl rfl rfl (fits_next hf q q k).2
    · cases ht
      exact h.leave (hg.resolve_right (by simp))
    · cases ht
      exact h.leave (hg.resolve_right (by simp))
    · cases ht
  | processResponse w loggedIn =>
    simp only [step] at ht
    split at ht
    · rename_i q hw
      cases ht
      have hf := h.fits_of hw
      unfold processResponse
      split
      · rename_i user huser
        refine h.setUser rfl rfl rfl (fun x hx => ?_) (fun n call hc => ?_) ⟨node w, _, rfl, rfl⟩
        · cases hu : s.pools.users w with
          | out =>
            rw [UserPools.held, hu] at hx
            cases hx
          | calling n call => exact absurd hu (hf n call)
          | borrowed n user' =>
            rw [UserPools.held, hu] at hx
            simp only [Returns, hw, hu, huser] at hg
            exact hg.trans hx
        · cases hc
          show (if loggedIn then s.pools.now else s.pools.now + 1800000000) ≤ s.pools.now + longest
          split <;> omega
      · rename_i huser
        refine h.leave ?_
        cases hu : s.pools.users w with
        | out => rfl
        | calling n call => exact absurd hu (hf n call)
        | borrowed n user' =>
          simp only [Returns, hw, hu, huser] at hg
          cases hg
    · cases ht
  | finish w =>
    simp only [step] at ht
    split at ht <;> cases ht
    rename_i e hw
    have hf := h.fits_of hw
    exact h.setPhase rfl rfl rfl hf

/-- The request is not done with the middlewares. -/
def inWork : WorkPhase → Bool
  | .idle | .rest _ => false
  | _ => true

/-- In the runs in which each request with an account gets to `process_response`
and the pool's commands work, an account is with a worker whose request is not
done, or it is in the set, with a score no longer away than the longest wait. -/
theorem account_returns (hl : 1800000000 ≤ longest) (hn : ∀ n, (pools n).notReadyRetry ≤ longest)
    (s : PoolCrawl ν ω) (h : (machine st pools node others longest).Within (Returns pools node) s) :
    ∀ u ∈ s.known, (∃ w, s.pools.held w = some u ∧ inWork (s.workers w) = true) ∨
      ∃ score, (score, u) ∈ s.pools.keys.ready.rows ∧ score ≤ s.pools.now + longest := by
  have hkept : Kept longest s := by
    refine h.induct (fun s hs => ?_) fun s a t hi hg ht => kept_step hi hl hn hg ht
    obtain ⟨hworkers, hknown, hscores⟩ := hs
    refine ⟨fun u hu => .inl ?_, hscores, fun w n call hc => ?_, fun w => ?_⟩
    · rw [hknown] at hu
      exact hu
    · rw [(hworkers w).2] at hc
      cases hc
    · rw [(hworkers w).1, (hworkers w).2]
      rfl
  intro u hu
  rcases hkept.has u hu with hu | ⟨w, hw⟩
  · obtain ⟨score, hrow⟩ := ZSet.mem_iff.mp hu
    exact .inr ⟨score, hrow, hkept.scores _ hrow⟩
  · refine .inl ⟨w, hw, ?_⟩
    have hf := hkept.fits w
    cases hph : s.workers w with
    | idle | rest e =>
      rw [hph] at hf
      have ho : s.pools.users w = .out := hf
      rw [UserPools.held, ho] at hw
      cases hw
    | _ => rfl

end

/-- One worker, and no other middleware. -/
def onePool : PoolCrawl Unit Unit where
  requests _ _ := { url := "a" }

def oneWorker : Machine (PoolCrawl Unit Unit) (PoolCrawlAct Unit Unit) :=
  machine {} (fun _ => UserPools.plainPool false) (fun _ => ()) (fun _ => 0) 1800000000

/-- A request gets the account `u1` and is to be downloaded. -/
def downloads : List (PoolCrawlAct Unit Unit) :=
  [.init () [{ username := "u1" }], .take () 0, .processRequest (), .get (), .call () (.ok .none) .answered,
    .call () (.ok .none) .answered, .downloadMidware () .none]

def ran (as : List (PoolCrawlAct Unit Unit)) : PoolCrawl Unit Unit := (oneWorker.exec onePool as).getD onePool

theorem exec_ran {as : List (PoolCrawlAct Unit Unit)} (h : (oneWorker.exec onePool as).isSome = true) :
    oneWorker.exec onePool as = some (ran as) :=
  Machine.exec_getD h _

theorem start_onePool : oneWorker.start onePool := ⟨fun _ => ⟨rfl, rfl⟩, rfl, List.forall_mem_nil _⟩

/-- The download works, and the login is refused: the account comes back blocked. -/
def refused : List (PoolCrawlAct Unit Unit) :=
  downloads ++ [PoolCrawlAct.fetch () .response, .processResponse () false, .call () (.ok .none) .answered,
    .call () (.ok .none) .answered, .finish ()]

theorem account_returns_refused :
    (∃ w, (ran refused).pools.held w = some "u1" ∧ inWork ((ran refused).workers w) = true) ∨
      ∃ score, (score, "u1") ∈ (ran refused).pools.keys.ready.rows ∧
        score ≤ (ran refused).pools.now + (1800000000 : Nat) :=
  account_returns (Nat.le_refl _) (fun _ => by decide) (ran refused)
    (.exec (.start start_onePool) (by decide +kernel) (exec_ran (by decide +kernel))) "u1" (by decide +kernel)

/-- The download fails: the request is done, and the account is in no set and with
nobody. -/
theorem lost_downloadError :
    ∃ s : PoolCrawl Unit Unit, oneWorker.Reachable s ∧ "u1" ∈ s.known ∧ s.workers () = .idle ∧
      s.pools.held () = none ∧ "u1" ∉ s.pools.keys.ready := by
  have hrun := @exec_ran (downloads ++ [PoolCrawlAct.fetch () (.raised "RequestError"), .finish ()]) (by decide +kernel)
  exact ⟨_, .exec (.start start_onePool) hrun, by decide +kernel, by decide +kernel, by decide +kernel,
    by decide +kernel⟩

end PoolCrawl

end Netspy
