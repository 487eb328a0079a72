import Netspy.Framework.Exclusive
import Netspy.Impl.RedisUserPool

/-!
# Accounts are with one holder at a time

An account is in the set of those that can be borrowed, or with the thread that
popped it, until that reports it. A step of a call gives back only the account
that it has. A pool that is made names its accounts again, whoever has them: two
threads do not get the same account as long as no pool is made with an account
that is with a thread (`one_holder`).
-/

namespace Netspy

open RedisUserPool

section
variable {pool : RedisUserPool} {keys : PoolKeys} {accounts : String → Option PyVal} {login : Except Exn PyVal}
  {call : PoolCall} {reply : Reply}

/-! ## A step of a call -/

/-- What a step puts into the set, the call had. -/
theorem mem_ready_next {x : String} (h : x ∈ (pool.next keys accounts login call).keys.ready) :
    x ∈ keys.ready ∨ call.held = some x := by
  cases call with
  | popping now =>
    simp only [RedisUserPool.next] at h
    split at h
    · exact .inl h
    · rename_i score username hhead
      exact .inl ((ZSet.mem_afterPop hhead).mp h).1
  | reading now username =>
    simp only [RedisUserPool.next] at h
    split at h
    · exact .inl h
    · split at h
      · exact .inl h
      · split at h <;> exact .inl h
  | loggingIn now username | caching user =>
    simp only [RedisUserPool.next] at h
    split at h <;> exact .inl h
  | puttingBack username score | coolingDown username until_ | reporting username score bad =>
    exact (ZSet.mem_zadd.mp h).symm.imp_right fun he => congrArg some he.symm
  | forgetting username => exact .inl h

/-- What a step leaves with the call, it had or took from the set. -/
theorem held_next {x : String} (hc : ∀ y, call.held = some y → y ∉ keys.ready)
    (h : (pool.next keys accounts login call).held = some x) :
    (x ∈ keys.ready ∨ call.held = some x) ∧ x ∉ (pool.next keys accounts login call).keys.ready := by
  cases call with
  | popping now =>
    simp only [RedisUserPool.next] at h ⊢
    split at h
    · cases h
    · rename_i score username hhead
      have hx : username = x := by
        unfold PoolStep.held at h
        split at h
        · rename_i hnext
          cases hnext
          split at h <;> exact Option.some.inj h
        · rename_i hnext
          cases hnext
        · cases h
      subst hx
      exact ⟨.inl (ZSet.mem_of_row (List.mem_of_head? hhead)), fun hm => ((ZSet.mem_afterPop hhead).mp hm).2 rfl⟩
  | reading now username =>
    have hkeys : (pool.next keys accounts login (.reading now username)).keys = keys := by
      simp only [RedisUserPool.next]
      split
      · rfl
      · split
        · rfl
        · split <;> rfl
    rw [hkeys]
    have hx : username = x := by
      simp only [RedisUserPool.next] at h
      split at h
      · exact Option.some.inj h
      · split at h
        · exact Option.some.inj h
        · split at h <;> exact Option.some.inj h
    subst hx
    exact ⟨.inr rfl, hc username rfl⟩
  | loggingIn now username =>
    simp only [RedisUserPool.next] at h ⊢
    have hx : username = x := by
      split at h <;> exact Option.some.inj h
    subst hx
    split
    · exact ⟨.inr rfl, hc username rfl⟩
    · exact ⟨.inr rfl, hc username rfl⟩
  | caching user =>
    simp only [RedisUserPool.next] at h ⊢
    split at h
    · cases h
      exact ⟨.inr rfl, hc user.username rfl⟩
    · cases h
  | puttingBack username score | coolingDown username until_ | forgetting username => cases h
  | reporting username score bad => cases bad <;> cases h

theorem mem_ready_step {x : String} (h : x ∈ (pool.step keys accounts login reply call).keys.ready) :
    x ∈ keys.ready ∨ call.held = some x := by
  unfold RedisUserPool.step at h
  split at h
  · exact mem_ready_next h
  · exact mem_ready_next h
  · exact .inl h
  · exact mem_ready_next h

theorem held_step {x : String} (hc : ∀ y, call.held = some y → y ∉ keys.ready)
    (h : (pool.step keys accounts login reply call).held = some x) :
    (x ∈ keys.ready ∨ call.held = some x) ∧ x ∉ (pool.step keys accounts login reply call).keys.ready := by
  unfold RedisUserPool.step at h ⊢
  split at h
  · exact held_next hc h
  · exact held_next hc h
  · cases h
  · cases h

end

namespace UserPools

section
variable {ν τ : Type} [DecidableEq ν] [DecidableEq τ] {pools : ν → RedisUserPool} {s t : UserPools ν τ}

def held (s : UserPools ν τ) (i : τ) : Option String := (s.users i).held

/-- No pool is made with an account that is with a thread. -/
def NamesNoHeld (s : UserPools ν τ) : UserPoolAct ν τ → Prop
  | .init _ accounts => ∀ a ∈ accounts, ∀ i, s.held i ≠ some a.username
  | _ => True

/-- Each account is in the set or with one thread. -/
def OneHolder (s : UserPools ν τ) : Prop := Exclusive (· ∈ s.keys.ready) s.held

omit [DecidableEq ν] in
theorem held_setUser (i : τ) (user : PoolUser ν) :
    (s.setUser i user).held = Function.update s.held i user.held := by
  funext j
  by_cases hj : j = i
  · rw [hj, Function.update_self]
    show (Function.update s.users i user i).held = _
    rw [Function.update_self]
  · rw [Function.update_of_ne hj]
    show (Function.update s.users i user j).held = _
    rw [Function.update_of_ne hj]
    rfl

omit [DecidableEq ν] [DecidableEq τ] in
theorem held_afterCall (n : ν) (p : PoolStep) : (afterCall n p.next).held = p.held := by
  unfold afterCall PoolStep.held
  split <;> rfl

/-- What one guarded step preserves. -/
theorem oneHolder_step {a : UserPoolAct ν τ} (h : OneHolder s) (hg : NamesNoHeld s a) (ht : step pools s a = some t) :
    OneHolder t := by
  cases a with
  | tick d | writeCookies username text =>
    cases ht
    exact h
  | init n accounts =>
    cases ht
    refine h.add fun x hx => ?_
    rcases ZSet.mem_foldl_zaddNX.mp hx with hx | hx
    · obtain ⟨a, ha, rfl⟩ := List.mem_map.mp hx
      exact .inr (hg a ha)
    · exact .inl hx
  | get i n =>
    simp only [step] at ht
    split at ht <;> cases ht
    unfold OneHolder
    rw [held_setUser]
    exact h.step (fun x hx => .inl hx) nofun
  | call i login reply =>
    simp only [step] at ht
    split at ht
    · rename_i n call hi
      cases ht
      have hheld : s.held i = call.held := by
        unfold held
        rw [hi]
        rfl
      unfold OneHolder UserPools.call
      rw [held_setUser, held_afterCall]
      refine h.step (fun x hx => ?_) fun x hx => ?_
      · rw [hheld]
        exact mem_ready_step hx
      · rw [hheld]
        exact held_step (fun y hy => h.not_free i y (hheld.trans hy)) hx
    · cases ht
  | reportOk i | reportBad i blockSeconds =>
    simp only [step, report] at ht
    split at ht
    · rename_i n user hi
      cases ht
      have hheld : s.held i = some user.username := by
        unfold held
        rw [hi]
        rfl
      unfold OneHolder
      rw [held_setUser]
      refine h.step (fun x hx => .inl hx) fun x hx => ?_
      cases hx
      exact ⟨.inr hheld, h.not_free i _ hheld⟩
    · cases ht
  | crash n =>
    cases ht
    refine h.mono (fun x hx => hx) fun i x hi => ?_
    have hi : (if (s.users i).node? = some n then PoolUser.out else s.users i).held = some x := hi
    split at hi
    · cases hi
    · exact hi

/-- In the runs in which no pool is made with an account that is with a thread, an
account that is borrowed is not in the set, and no other thread has it. -/
theorem one_holder (s : UserPools ν τ) (h : (machine pools).Within NamesNoHeld s) :
    ∀ i n user, s.users i = .borrowed n user →
      user.username ∉ s.keys.ready ∧ ∀ j, s.held j = some user.username → j = i := by
  have hone : OneHolder s := by
    refine h.induct (fun s hs => ?_) fun s a t hi hg ht => oneHolder_step hi hg ht
    have hnone (i : τ) (x : String) (hi : s.held i = some x) : False := by
      unfold held at hi
      rw [hs i] at hi
      cases hi
    exact ⟨fun i x hi => (hnone i x hi).elim, fun i j x hi => (hnone i x hi).elim⟩
  intro i n user hi
  have hheld : s.held i = some user.username := by
    unfold held
    rw [hi]
    rfl
  exact ⟨hone.not_free i _ hheld, fun j hj => hone.unique j i _ hj hheld⟩

end

def plainPool (_ : Bool) : RedisUserPool where
  loadsJson _ := .error "JSONDecodeError"
  dumpsJson _ := .ok ""

def noPools : UserPools Bool Nat := {}

def ran (as : List (UserPoolAct Bool Nat)) : UserPools Bool Nat := ((machine plainPool).exec noPools as).getD noPools

theorem exec_ran {as : List (UserPoolAct Bool Nat)} (h : ((machine plainPool).exec noPools as).isSome = true) :
    (machine plainPool).exec noPools as = some (ran as) :=
  Machine.exec_getD h _

/-- A thread of a node makes a pool with one account, and gets it. -/
def getsOne (n : Bool) (i : Nat) : List (UserPoolAct Bool Nat) :=
  [.init n [{ username := "u1" }], .get i n, .call i (.ok .none) .answered, .call i (.ok .none) .answered]

theorem meets_getsOne : (machine plainPool).Meets NamesNoHeld noPools (getsOne false 0) :=
  ⟨fun _ _ _ => nofun, fun _ _ => ⟨trivial, fun _ _ => ⟨trivial, fun _ _ => ⟨trivial, fun _ _ => trivial⟩⟩⟩⟩

theorem one_holder_getsOne :
    "u1" ∉ (ran (getsOne false 0)).keys.ready ∧ ∀ j, (ran (getsOne false 0)).held j = some "u1" → j = 0 := by
  have hrun := exec_ran (by decide +kernel : ((machine plainPool).exec noPools (getsOne false 0)).isSome = true)
  have hgot : (ran (getsOne false 0)).users 0 = .borrowed false { username := "u1" } := by decide +kernel
  exact one_holder _ (.exec (.start fun _ => rfl) meets_getsOne hrun) 0 false { username := "u1" } hgot

/-- A second node starts while the account is borrowed, and gets it too. -/
theorem shared_laterNode :
    ∃ s : UserPools Bool Nat, (machine plainPool).Reachable s ∧
      s.users 0 = .borrowed false { username := "u1" } ∧ s.users 1 = .borrowed true { username := "u1" } := by
  have hrun := @exec_ran (getsOne false 0 ++ getsOne true 1) (by decide +kernel)
  exact ⟨_, .exec (.start fun _ => rfl) hrun, by decide +kernel, by decide +kernel⟩

end UserPools

end Netspy
