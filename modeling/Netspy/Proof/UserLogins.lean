import Netspy.Framework.Exclusive
import Netspy.Proof.LocalUserPool

/-!
# One login at a time

The login lock of a name is held from before the second look at the cookies until
`login` has answered, or until the account is blocked (`Stage.inside?`). So who logs an
account in is the only one (`Logins.exclusive`), and the account has no cookies until
`login` returns (`Logins.empty`).
-/

namespace Netspy

namespace LocalUserPool

variable {s s' t : State} {a : Action} {i : Nat} {c c' : Call}

/-- The account whose login lock a call holds. -/
def Stage.inside? : Stage → Option Nat
  | .locked user | .loggingIn user | .failed user => some user
  | .counting | .looping | .found _ | .waiting _ | .returned _ => none

/-- The name whose login lock a call holds. -/
def State.held (s : State) (i : Nat) : Option String :=
  s.calls[i]?.bind fun c => c.stage.inside?.bind s.name?

structure Logins (s : State) : Prop where
  exclusive : Exclusive (fun name => name ∉ s.loginLocks) s.held
  known : ∀ c ∈ s.calls, ∀ user, c.stage.inside? = some user → (s.name? user).isSome
  empty : ∀ c ∈ s.calls, ∀ user, c.stage = .loggingIn user → ∀ u, s.users[user]? = some u → u.cookies = .dict []

theorem held_of_call (hc : s.calls[i]? = some c) : s.held i = c.stage.inside?.bind s.name? := by
  rw [State.held, hc, Option.bind_some]

/-- What the calls hold, if one of them goes on. -/
theorem held_setCall (hcalls : s'.calls = s.calls) (hnames : ∀ user, s'.name? user = s.name? user)
    (hc : s.calls[i]? = some c) (c' : Call) :
    (s'.setCall i c').held = Function.update s.held i (c'.stage.inside?.bind s.name?) := by
  have hn : s'.name? = s.name? := funext hnames
  have hlt := (List.getElem?_eq_some_iff.mp hc).1
  funext j
  by_cases hj : j = i
  · subst hj
    rw [Function.update_self, State.held]
    show ((s'.calls.set j c')[j]?.bind fun c => c.stage.inside?.bind s'.name?) = _
    rw [hcalls, List.getElem?_set_self hlt, Option.bind_some, hn]
  · rw [Function.update_of_ne hj, State.held, State.held]
    show ((s'.calls.set i c')[j]?.bind fun c => c.stage.inside?.bind s'.name?) = _
    rw [hcalls, List.getElem?_set_ne (Ne.symm hj), hn]

namespace Logins

/-- A call goes on. -/
theorem setCall (h : Logins s) (s' : State) (hc : s.calls[i]? = some c) (hcalls : s'.calls = s.calls)
    (hnames : ∀ user, s'.name? user = s.name? user)
    (hex : Exclusive (fun name => name ∉ s'.loginLocks) (Function.update s.held i (c'.stage.inside?.bind s.name?)))
    (hknown : ∀ user, c'.stage.inside? = some user → (s.name? user).isSome)
    (hempty : ∀ j d user, j ≠ i → s.calls[j]? = some d → d.stage = .loggingIn user → ∀ u, s'.users[user]? = some u →
      u.cookies = .dict [])
    (hown : ∀ user, c'.stage = .loggingIn user → ∀ u, s'.users[user]? = some u → u.cookies = .dict []) :
    Logins (s'.setCall i c') where
  exclusive := by
    rw [held_setCall hcalls hnames hc]
    exact hex
  known d hd user hu := by
    show (s'.name? user).isSome
    rw [hnames]
    rcases List.mem_or_eq_of_mem_set hd with hd | rfl
    · rw [hcalls] at hd
      exact h.known d hd user hu
    · exact hknown user hu
  empty d hd user hstage u hu := by
    obtain ⟨j, hj⟩ := List.getElem?_of_mem hd
    rw [show (s'.setCall i c').calls = s'.calls.set i c' from rfl, hcalls] at hj
    by_cases hji : j = i
    · subst hji
      rw [List.getElem?_set_self (List.getElem?_eq_some_iff.mp hc).1] at hj
      cases hj
      exact hown user hstage u hu
    · rw [List.getElem?_set_ne (Ne.symm hji)] at hj
      exact hempty j d user hji hj hstage u hu

/-- A call goes on with the lock that it has, or without one. -/
theorem goOn (h : Logins s) (idx : Nat) (hc : s.calls[i]? = some c) (hin : c'.stage.inside? = c.stage.inside?)
    (hown : ∀ user, c'.stage = .loggingIn user → ∀ u, s.users[user]? = some u → u.cookies = .dict []) :
    Logins ({ s with idx }.setCall i c') := by
  refine h.setCall { s with idx } hc rfl (fun _ => rfl) ?_ (fun user hu => ?_) (fun j d user _ hd hst u hu => ?_) hown
  · rw [hin, ← held_of_call hc, Function.update_eq_self]
    exact h.exclusive
  · exact h.known c (List.mem_of_getElem? hc) user (hin ▸ hu)
  · exact h.empty d (List.mem_of_getElem? hd) user hst u hu

/-- A call gives its lock back. -/
theorem unlock (h : Logins s) (s' : State) (hc : s.calls[i]? = some c) {name : String} (hname : s.held i = some name)
    (hcalls : s'.calls = s.calls) (hnames : ∀ user, s'.name? user = s.name? user) (hlocks : s'.loginLocks = s.loginLocks)
    (hin : c'.stage.inside? = none)
    (hempty : ∀ j d user, j ≠ i → s.calls[j]? = some d → d.stage = .loggingIn user → ∀ u, s'.users[user]? = some u →
      u.cookies = .dict []) :
    Logins ((s'.unlock name).setCall i c') := by
  refine h.setCall _ hc hcalls hnames ?_ (fun user hu => by simp [hin] at hu) hempty
    fun user hst => by simp [hst, Stage.inside?] at hin
  rw [hin, Option.bind_none]
  refine h.exclusive.step (fun x hx => ?_) fun x hx => by cases hx
  by_cases hxn : x = name
  · exact .inr (hxn ▸ hname)
  · refine .inl fun hmem => hx (List.mem_filter.mpr ⟨hlocks ▸ hmem, ?_⟩)
    simpa using hxn

theorem stage_excuse (c : Call) (names : List String) : (c.excuse names).stage = c.stage := by
  unfold Call.excuse
  split <;> rfl

theorem excuse (h : Logins s) (names : List String) : Logins (s.excuse names) where
  exclusive := by
    have he : (s.excuse names).held = s.held := by
      funext j
      show ((s.calls.map fun c => c.excuse names)[j]?.bind fun c => c.stage.inside?.bind s.name?) = _
      rw [List.getElem?_map, State.held]
      cases s.calls[j]? with
      | none => rfl
      | some c => rw [Option.map_some, Option.bind_some, Option.bind_some, stage_excuse]
    rw [he]
    exact h.exclusive
  known c hc user hu := by
    obtain ⟨d, hd, rfl⟩ := List.mem_map.mp hc
    rw [stage_excuse] at hu
    exact h.known d hd user hu
  empty c hc user hst := by
    obtain ⟨d, hd, rfl⟩ := List.mem_map.mp hc
    rw [stage_excuse] at hst
    exact h.empty d hd user hst

theorem callStep (h : Logins s) (hc : s.calls[i]? = some c) (ht : LocalUserPool.callStep s i c a = some t) : Logins t := by
  have hmem := List.mem_of_getElem? hc
  have hempty (j : Nat) (d : Call) (user : Nat) (hji : j ≠ i) (hd : s.calls[j]? = some d) (hst : d.stage = .loggingIn user)
      (u : User) (hu : s.users[user]? = some u) : u.cookies = .dict [] :=
    h.empty d (List.mem_of_getElem? hd) user hst u hu
  cases a with
  | count _ =>
    obtain ⟨hstage, ht⟩ := Option.ite_none_right_eq_some.mp ht
    cases ht
    exact h.goOn _ hc (by simp [hstage, Stage.inside?]) (by simp)
  | look _ =>
    obtain ⟨⟨hstage, -⟩, ht⟩ := Option.ite_none_right_eq_some.mp ht
    obtain ⟨name, -, rfl⟩ := Option.map_eq_some_iff.mp ht
    refine h.goOn _ hc ?_ fun user hst => ?_
    · rw [hstage]
      dsimp only
      split <;> rfl
    · dsimp only at hst
      split at hst <;> cases hst
  | giveUp _ =>
    obtain ⟨⟨hstage, -⟩, ht⟩ := Option.ite_none_right_eq_some.mp ht
    cases ht
    exact h.goOn _ hc (by simp [hstage, Stage.inside?]) (by simp)
  | check _ =>
    simp only [LocalUserPool.callStep] at ht
    split at ht
    next user hstage =>
      obtain ⟨u, -, rfl⟩ := Option.map_eq_some_iff.mp ht
      split
      · exact h.goOn _ hc (by simp [hstage, Stage.inside?]) (by simp)
      · exact h.goOn _ hc (by simp [hstage, Stage.inside?]) (by simp)
    next => cases ht
  | lock _ =>
    simp only [LocalUserPool.callStep] at ht
    split at ht
    next user hstage =>
      obtain ⟨name, hname, ht⟩ := Option.bind_eq_some_iff.mp ht
      obtain ⟨hfree, ht⟩ := Option.ite_none_left_eq_some.mp ht
      cases ht
      refine h.setCall { s with loginLocks := name :: s.loginLocks } hc rfl (fun _ => rfl) ?_ ?_ hempty (by simp)
      · refine h.exclusive.step (fun x hx => .inl fun hm => hx (List.mem_cons_of_mem _ hm)) fun x hx => ?_
        cases hname.symm.trans hx
        exact ⟨.inl hfree, fun hno => hno List.mem_cons_self⟩
      · intro user' hu
        cases hu
        rw [hname, Option.isSome_some]
    next => cases ht
  | recheck _ =>
    simp only [LocalUserPool.callStep] at ht
    split at ht
    next user hstage =>
      obtain ⟨u, hu, rfl⟩ := Option.map_eq_some_iff.mp ht
      split
      next =>
        have hheld : s.held i = some u.username := by
          rw [held_of_call hc, hstage, Stage.inside?, Option.bind_some, State.name?, hu, Option.map_some]
        exact h.unlock _ hc hheld rfl (fun _ => rfl) rfl rfl hempty
      next hno =>
        refine h.goOn s.idx hc (by simp [hstage, Stage.inside?]) fun user' hst u' hu' => ?_
        cases hst
        cases hu.symm.trans hu'
        exact not_not.mp hno
    next => cases ht
  | login _ answer =>
    simp only [LocalUserPool.callStep] at ht
    split at ht
    next user cookies hstage =>
      obtain ⟨name, hname, rfl⟩ := Option.map_eq_some_iff.mp ht
      have hheld : s.held i = some name := by
        rw [held_of_call hc, hstage, Stage.inside?, Option.bind_some, hname]
      have hnames (user' : Nat) : (s.setCookies user (.dict cookies)).name? user' = s.name? user' := by
        rw [name?_eq, name?_eq, names_setCookies]
      refine h.unlock _ hc hheld rfl hnames rfl rfl fun j d user' hji hd hst u hu => ?_
      -- another account, as two that log in have different names
      have hne : user ≠ user' := by
        rintro rfl
        refine hji (h.exclusive.unique j i name ?_ hheld)
        rw [held_of_call hd, hst, Stage.inside?, Option.bind_some, hname]
      refine hempty j d user' hji hd hst u ?_
      rwa [State.setCookies, List.getElem?_modify_ne _ _ hne] at hu
    next user e hstage =>
      obtain ⟨name, -, rfl⟩ := Option.map_eq_some_iff.mp ht
      exact (h.goOn s.idx hc (by simp [hstage, Stage.inside?]) (by simp)).excuse [name]
    next => cases ht
  | block _ =>
    simp only [LocalUserPool.callStep] at ht
    split at ht
    next user hstage =>
      obtain ⟨name, hname, rfl⟩ := Option.map_eq_some_iff.mp ht
      have hheld : s.held i = some name := by
        rw [held_of_call hc, hstage, Stage.inside?, Option.bind_some, hname]
      exact h.unlock { s with blocked := _ } hc hheld rfl (fun _ => rfl) rfl rfl hempty
    next => cases ht
  | addUser _ | reportBad _ _ | get | tick _ => cases ht

theorem act (h : Logins s) (ht : LocalUserPool.act s a = some t) : Logins t := by
  cases a with
  | addUser user =>
    cases ht
    have hold {user' : Nat} (hu : (s.name? user').isSome) : user' < s.users.length := by
      by_contra hno
      simp [State.name?, List.getElem?_eq_none (Nat.le_of_not_lt hno)] at hu
    have hsame {user' : Nat} (hu : (s.name? user').isSome) : (s.users ++ [user])[user']? = s.users[user']? :=
      List.getElem?_append_left (hold hu)
    have he : State.held { s with users := s.users ++ [user] } = s.held := by
      funext j
      rw [State.held, State.held]
      cases hj : s.calls[j]? with
      | none => rfl
      | some c =>
        rw [Option.bind_some, Option.bind_some]
        cases hin : c.stage.inside? with
        | none => rfl
        | some user' =>
          rw [Option.bind_some, Option.bind_some, State.name?, State.name?,
            hsame (h.known c (List.mem_of_getElem? hj) user' hin)]
    refine ⟨he ▸ h.exclusive, fun c hc user' hu => ?_, fun c hc user' hst u hu => ?_⟩
    · have hk := h.known c hc user' hu
      rw [State.name?, hsame hk]
      exact hk
    · have hk := h.known c hc user' (by rw [hst, Stage.inside?])
      exact h.empty c hc user' hst u ((hsame hk).symm.trans hu)
  | reportBad user blockSeconds =>
    obtain ⟨name, hname, rfl⟩ := Option.map_eq_some_iff.mp ht
    have hnames (user' : Nat) : (s.setCookies user (.dict [])).name? user' = s.name? user' := by
      rw [name?_eq, name?_eq, names_setCookies]
    refine ⟨?_, fun c hc user' hu => ?_, fun c hc user' hst u hu => ?_⟩
    · have he : State.held
          ({ s with blocked := Function.update s.blocked name (s.clock + blockSeconds) }.setCookies user (.dict [])) =
          s.held := by
        funext j
        rw [State.held, State.held]
        congr 1
        funext c
        congr 1
        exact funext hnames
      rw [he]
      exact h.exclusive
    · exact (congrArg Option.isSome (hnames user')).trans (h.known c hc user' hu)
    · by_cases hne : user = user'
      · subst hne
        obtain ⟨v, -, rfl⟩ : ∃ v, s.users[user]? = some v ∧ { v with cookies := PyVal.dict [] } = u := by
          simpa [State.setCookies, List.getElem?_modify] using hu
        rfl
      · refine h.empty c hc user' hst u ?_
        rwa [State.setCookies, List.getElem?_modify_ne _ _ hne] at hu
  | get =>
    cases ht
    have hnew {c : Call} (hc : c ∈ s.calls ++ [{ now := s.clock, atStart := s.users.map User.username }]) {user : Nat}
        (hu : c.stage.inside? = some user) : c ∈ s.calls := by
      rcases List.mem_append.mp hc with hc | hc
      · exact hc
      · cases List.mem_singleton.mp hc
        cases hu
    have he : State.held { s with calls := s.calls ++ [{ now := s.clock, atStart := s.users.map User.username }] } =
        s.held := by
      funext j
      rw [State.held, State.held, List.getElem?_append]
      split
      next => rfl
      next hj =>
        rw [List.getElem?_eq_none (Nat.le_of_not_lt hj), Option.bind_none]
        rcases Nat.eq_zero_or_pos (j - s.calls.length) with hz | hpos
        · rw [hz]
          rfl
        · rw [List.getElem?_eq_none (Nat.succ_le_of_lt hpos), Option.bind_none]
    refine ⟨he ▸ h.exclusive, fun c hc user hu => h.known c (hnew hc hu) user hu, fun c hc user hst => ?_⟩
    exact h.empty c (hnew hc (by rw [hst, Stage.inside?])) user hst
  | tick time =>
    cases ht
    exact { h with }
  | giveUp i | count i | look i | check i | lock i | recheck i | login i _ | block i =>
    obtain ⟨c, hc, ht⟩ := Option.bind_eq_some_iff.mp ht
    exact h.callStep hc ht

end Logins

theorem logins (h : machine.Reachable s) : Logins s := by
  refine h.induct ?_ fun s a t hs _ ht => ?_
  · rintro s ⟨login, users, clock, rfl⟩
    exact ⟨⟨by simp [State.held], by simp [State.held]⟩, by simp, by simp⟩
  · obtain ⟨u, hu, rfl⟩ := Option.map_eq_some_iff.mp ht
    exact (hs.act hu).excuse _

/-- An account is logged in by one thread at a time, and only while it has no cookies: no
login takes the session of another one away. -/
theorem logins_alone (h : machine.Reachable s) :
    (∀ (i j : Nat) (c d : Call) (user user' : Nat), s.calls[i]? = some c → s.calls[j]? = some d →
      c.stage = .loggingIn user → d.stage = .loggingIn user' → s.name? user = s.name? user' → i = j) ∧
      ∀ c ∈ s.calls, ∀ user, c.stage = .loggingIn user → ∃ u, s.users[user]? = some u ∧ u.cookies = .dict [] := by
  have hl := logins h
  refine ⟨fun i j c d user user' hc hd hst hst' he => ?_, fun c hc user hst => ?_⟩
  · obtain ⟨name, hname⟩ := Option.isSome_iff_exists.mp (hl.known c (List.mem_of_getElem? hc) user
      (by rw [hst, Stage.inside?]))
    refine hl.exclusive.unique i j name ?_ ?_
    · rw [held_of_call hc, hst, Stage.inside?, Option.bind_some, hname]
    · rw [held_of_call hd, hst', Stage.inside?, Option.bind_some, ← he, hname]
  · obtain ⟨name, hname⟩ := Option.isSome_iff_exists.mp (hl.known c hc user (by rw [hst, Stage.inside?]))
    obtain ⟨u, hu, -⟩ := Option.map_eq_some_iff.mp hname
    exact ⟨u, hu, hl.empty c hc user hst u hu⟩

/-- Two calls have found the account `a`, and one of them logs it in. -/
def oneWaits : List Action :=
  [.get, .get, .count 0, .count 1, .look 0, .look 1, .check 0, .check 1, .lock 1, .recheck 1]

theorem oneWaits_ran : (machine.exec { login := true, users := [{ username := "a" }] } oneWaits).map
    (fun s => s.calls.map Call.stage) = some [.waiting 0, .loggingIn 0] := by
  decide

theorem logins_alone_oneWaits : ∃ s, machine.exec { login := true, users := [{ username := "a" }] } oneWaits = some s ∧
    (∃ c ∈ s.calls, c.stage = .loggingIn 0) ∧
    ∀ c ∈ s.calls, ∀ user, c.stage = .loggingIn user → ∃ u, s.users[user]? = some u ∧ u.cookies = .dict [] := by
  obtain ⟨s, he, hs⟩ := Option.map_eq_some_iff.mp oneWaits_ran
  have hr : machine.Reachable s := Machine.Reachable.exec (.start ⟨_, _, _, rfl⟩) he
  have hin : Stage.loggingIn 0 ∈ s.calls.map Call.stage := hs ▸ List.mem_cons_of_mem _ List.mem_cons_self
  obtain ⟨c, hc, hst⟩ := List.mem_map.mp hin
  exact ⟨s, he, ⟨c, hc, hst⟩, (logins_alone hr).2⟩

end LocalUserPool

end Netspy
