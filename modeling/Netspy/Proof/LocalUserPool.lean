import Mathlib.Data.List.Perm.Subperm
import Netspy.Impl.LocalUserPool

/-!
# Giving up

What `get` finds blocked is blocked at some moment of the call, and a login that fails
excuses the account (`CallInv`). So a call that gives up has an excuse for each account
that it has looked at. It has made as many looks as there were accounts, but the index is
shared: only if no two of them were at the same position, they were at all.
-/

namespace Netspy

namespace LocalUserPool

def State.names (s : State) : List String := s.users.map User.username

variable {s s' t : State} {a : Action} {as : List Action} {c c' : Call} {i : Nat} {names names' : List String}
  {blocked blocked' : String → Int} {B B' : String → Prop}

/-- The account that a call is about to return or to log in. -/
def Stage.user? : Stage → Option Nat
  | .found user | .waiting user | .locked user | .loggingIn user => some user
  | .returned user => user
  | .counting | .looping | .failed _ => none

/-- What a call knows: for each account it is done with, it has an excuse. One for what is
blocked it has, or `B` gives it. -/
structure CallInv (names : List String) (blocked : String → Int) (B : String → Prop) (c : Call) : Prop where
  atStart : c.atStart <+: names
  counting : c.stage = .counting → c.looked = []
  counted : c.stage ≠ .counting → c.atStart.length ≤ c.total
  looked : ∀ user ∈ c.looked, user < c.total
  seen : ∀ user ∈ c.looked, c.stage.user? = some user ∨ ∀ name, c.atStart[user]? = some name → name ∈ c.excused
  blocked : c.running = true → ∀ name ∈ c.atStart, c.now < blocked name → name ∈ c.excused ∨ B name
  gaveUp : c.stage = .returned none → ∀ name ∈ c.atStart, name ∈ c.excused

namespace CallInv

theorem frame (h : CallInv names blocked B c) (hn : names <+: names')
    (hb : ∀ name, blocked' name = blocked name ∨ B' name) (hB : ∀ name, B name → B' name) :
    CallInv names' blocked' B' c where
  __ := h
  atStart := h.atStart.trans hn
  blocked hrun name hname hlt := by
    rcases hb name with heq | hB'
    · rw [heq] at hlt
      exact (h.blocked hrun name hname hlt).imp id (hB name)
    · exact .inr hB'

theorem excuse (h : CallInv names blocked B c) (more : List String) (hmore : ∀ name ∈ names, B name → name ∈ more ∨ B' name) :
    CallInv names blocked B' (c.excuse more) := by
  unfold Call.excuse
  split
  next hrun =>
    exact {
      h with
      seen := fun user hu => (h.seen user hu).imp id fun hex name hname => List.mem_append_left _ (hex name hname)
      blocked := fun _ name hname hlt => by
        rcases h.blocked hrun name hname hlt with hex | hB
        · exact .inl (List.mem_append_left _ hex)
        · exact (hmore name (h.atStart.subset hname) hB).imp (List.mem_append_right _) id
      gaveUp := fun hg name hname => List.mem_append_left _ (h.gaveUp hg name hname) }
  next hrun => exact { h with blocked := fun hc => absurd hc hrun }

theorem name_eq (h : CallInv names blocked B c) {user : Nat} {name name' : String} (hname : names[user]? = some name)
    (hstart : c.atStart[user]? = some name') : name' = name := by
  obtain ⟨hlt, heq⟩ := List.getElem?_eq_some_iff.mp hstart
  have hnames := List.prefix_iff_getElem?.mp h.atStart user hlt
  rw [hname, heq] at hnames
  exact (Option.some.inj hnames).symm

/-- A call goes on with the account that it has. -/
theorem advance (h : CallInv names blocked B c) (hrun : c.running = true) {user : Nat} {stage : Stage}
    (hold : c.stage.user? = some user) (hnew : stage.user? = some user) :
    CallInv names blocked B { c with stage } where
  atStart := h.atStart
  counting hst := by
    cases hst
    cases hnew
  counted _ := h.counted fun hst => by
    rw [hst] at hold
    cases hold
  looked := h.looked
  seen u hu := (h.seen u hu).imp (fun huser => hnew.trans (hold.symm.trans huser)) id
  blocked _ := h.blocked hrun
  gaveUp hst := by
    cases hst
    cases hnew

theorem goOn (h : CallInv names blocked B c) {user : Nat} (hstage : c.stage = .failed user) :
    CallInv names blocked B { c with stage := .looping } where
  atStart := h.atStart
  counting := nofun
  counted _ := h.counted (by simp [hstage])
  looked := h.looked
  seen u hu := by
    refine .inr ((h.seen u hu).resolve_left ?_)
    rw [hstage]
    nofun
  blocked _ := h.blocked (by rw [Call.running, hstage])
  gaveUp := nofun

theorem count (h : CallInv names blocked B c) (hstage : c.stage = .counting) :
    CallInv names blocked B { c with total := names.length, stage := .looping } where
  atStart := h.atStart
  counting hst := by cases hst
  counted _ := h.atStart.length_le
  looked user hu := by
    rw [h.counting hstage] at hu
    cases hu
  seen user hu := by
    rw [h.counting hstage] at hu
    cases hu
  blocked _ := h.blocked (by rw [Call.running, hstage])
  gaveUp hst := by cases hst

/-- What was blocked when the call started, or later, is not found. -/
theorem look (h : CallInv names blocked (fun _ => False) c) (hstage : c.stage = .looping) {user : Nat} {name : String}
    (huser : user < c.total) (hname : names[user]? = some name) :
    CallInv names blocked B { c with
      looked := c.looked ++ [user]
      stage := if c.now < blocked name then .looping else .found user } where
  atStart := h.atStart
  counting hst := by
    dsimp only at hst
    split at hst
    · cases hst
    · cases hst
  counted _ := h.counted (by simp [hstage])
  looked u hu := by
    rcases List.mem_append.mp hu with hu | hu
    · exact h.looked u hu
    · rw [List.mem_singleton.mp hu]
      exact huser
  seen u hu := by
    rcases List.mem_append.mp hu with hu | hu
    · refine .inr ((h.seen u hu).resolve_left ?_)
      rw [hstage]
      nofun
    · rw [List.mem_singleton.mp hu]
      by_cases hblocked : c.now < blocked name
      · refine .inr fun name' hname' => ?_
        have heq := h.name_eq hname hname'
        subst heq
        have hrun : c.running = true := by rw [Call.running, hstage]
        exact (h.blocked hrun _ (List.mem_of_getElem? hname') hblocked).resolve_right id
      · refine .inl ?_
        simp only [if_neg hblocked]
        rfl
  blocked _ name hname hlt := (h.blocked (by rw [Call.running, hstage]) name hname hlt).imp id False.elim
  gaveUp hst := by
    dsimp only at hst
    split at hst
    · cases hst
    · cases hst

/-- As many looks as accounts, at different positions, are at all of them. -/
theorem giveUp (h : CallInv names blocked B c) (hstage : c.stage = .looping) (hlen : c.looked.length = c.total)
    (hnodup : c.looked.Nodup) : CallInv names blocked B { c with stage := .returned none } := by
  have hall : c.looked.Perm (List.range c.total) := by
    refine (List.subperm_of_subset hnodup fun user hu => ?_).perm_of_length_le ?_
    · exact List.mem_range.mpr (h.looked user hu)
    · rw [List.length_range, hlen]
  have hexcused : ∀ user ∈ c.looked, ∀ name, c.atStart[user]? = some name → name ∈ c.excused := by
    intro user hu
    refine (h.seen user hu).resolve_left ?_
    rw [hstage]
    nofun
  exact {
    atStart := h.atStart
    counting := nofun
    counted := fun _ => h.counted (by simp [hstage])
    looked := h.looked
    seen := fun user hu => .inr (hexcused user hu)
    blocked := nofun
    gaveUp := fun _ name hname => by
      obtain ⟨user, hlt, heq⟩ := List.getElem_of_mem hname
      have htotal : user < c.total := hlt.trans_le (h.counted (by simp [hstage]))
      refine hexcused user (hall.mem_iff.mpr (List.mem_range.mpr htotal)) name ?_
      exact List.getElem?_eq_some_iff.mpr ⟨hlt, heq⟩ }

/-- The account whose login failed is excused. -/
theorem fail (h : CallInv names blocked B c) {user : Nat} (hstage : c.stage = .loggingIn user) {name : String}
    (hname : names[user]? = some name) :
    CallInv names blocked B ({ c with stage := .failed user }.excuse [name]) where
  atStart := h.atStart
  counting := nofun
  counted _ := h.counted (by simp [hstage])
  looked := h.looked
  seen u hu := by
    refine .inr fun name' hname' => List.mem_append.mpr ?_
    rcases h.seen u hu with huser | hex
    · rw [hstage] at huser
      cases huser
      exact .inr (List.mem_singleton.mpr (h.name_eq hname hname'))
    · exact .inl (hex name' hname')
  blocked _ name' hname' hlt :=
    (h.blocked (by rw [Call.running, hstage]) name' hname' hlt).imp (List.mem_append_left _) id
  gaveUp := nofun

end CallInv

/-- The same of the calls in a state. -/
def Excuses (B : State → String → Prop) (s : State) : Prop := ∀ c ∈ s.calls, CallInv s.names s.blocked (B s) c

theorem Excuses.excuse {B₁ B₂ : State → String → Prop} (h : Excuses B₁ s) (more : List String)
    (hmore : ∀ name ∈ s.names, B₁ s name → name ∈ more ∨ B₂ s name) (hB : B₂ (s.excuse more) = B₂ s) :
    Excuses B₂ (s.excuse more) := by
  intro c hc
  obtain ⟨c', hc', rfl⟩ := List.mem_map.mp hc
  rw [hB]
  exact (h c' hc').excuse more hmore

/-- After each step nothing is blocked without an excuse. -/
theorem Excuses.observe (h : Excuses State.isBlocked s) : Excuses (fun _ _ => False) s.observe := by
  refine h.excuse _ (fun name hname hb => .inl ?_) rfl
  exact List.mem_filter.mpr ⟨hname, decide_eq_true hb⟩

/-- A step that takes a call on, and blocks accounts. -/
theorem Excuses.setCall (h : Excuses (fun _ _ => False) s) (hcalls : s'.calls = s.calls) (hn : s.names <+: s'.names)
    (hb : ∀ name, s'.blocked name = s.blocked name ∨ s'.isBlocked name)
    (hc : CallInv s'.names s'.blocked s'.isBlocked c) : Excuses State.isBlocked (s'.setCall i c) := by
  intro c' hc'
  rcases List.mem_or_eq_of_mem_set hc' with hold | rfl
  · rw [hcalls] at hold
    exact (h c' hold).frame hn hb fun _ => False.elim
  · exact hc

/-- An account is blocked for some time. -/
theorem blocked_update (s : State) (name : String) {time : Int} (h : 0 < time) (name' : String) :
    Function.update s.blocked name (s.clock + time) name' = s.blocked name' ∨
      s.clock < Function.update s.blocked name (s.clock + time) name' := by
  by_cases heq : name' = name
  · refine .inr ?_
    rw [heq, Function.update_self]
    omega
  · exact .inl (Function.update_of_ne heq _ _)

/-- A step of no call. -/
theorem Excuses.frame (h : Excuses (fun _ _ => False) s) (hcalls : s'.calls = s.calls) (hn : s.names <+: s'.names)
    (hb : ∀ name, s'.blocked name = s.blocked name ∨ s'.isBlocked name) : Excuses State.isBlocked s' := by
  intro c hc
  rw [hcalls] at hc
  exact (h c hc).frame hn hb fun _ => False.elim

@[simp] theorem names_setCookies (s : State) (user : Nat) (cookies : PyVal) :
    (s.setCookies user cookies).names = s.names := by
  refine List.ext_getElem? fun k => ?_
  simp only [State.names, State.setCookies, List.getElem?_map, List.getElem?_modify]
  split
  · cases s.users[k]? with
    | none => rfl
    | some _ => rfl
  · simp

theorem name?_eq (s : State) (user : Nat) : s.name? user = s.names[user]? := by
  rw [State.name?, State.names, List.getElem?_map]

theorem callStep_excuses (h : Excuses (fun _ _ => False) s) (hc : s.calls[i]? = some c)
    (hg : ∀ j, a = .giveUp j → c.looked.Nodup) (ht : callStep s i c a = some t) :
    Excuses State.isBlocked t := by
  have hinv := h c (List.mem_of_getElem? hc)
  have hweak : CallInv s.names s.blocked s.isBlocked c := hinv.frame List.prefix_rfl (fun _ => .inl rfl) fun _ => False.elim
  have hset (s' : State) (hcalls : s'.calls = s.calls) (hn : s'.names = s.names) (hb : s'.blocked = s.blocked)
      (c' : Call) (hc' : CallInv s'.names s'.blocked s'.isBlocked c') : Excuses State.isBlocked (s'.setCall i c') :=
    h.setCall hcalls (hn ▸ List.prefix_rfl) (fun _ => .inl (hb ▸ rfl)) hc'
  cases a with
  | count _ =>
    simp only [callStep] at ht
    split at ht
    next hstage =>
      cases ht
      refine hset s rfl rfl rfl _ ?_
      have hcount := hweak.count hstage
      rwa [State.names, List.length_map] at hcount
    next => cases ht
  | look _ =>
    simp only [callStep] at ht
    split at ht
    next hstage =>
      obtain ⟨name, hname, rfl⟩ := Option.map_eq_some_iff.mp ht
      rw [name?_eq] at hname
      exact hset { s with idx := s.idx + 1 } rfl rfl rfl _
        (hinv.look hstage.1 (Nat.mod_lt _ (Nat.zero_lt_of_lt hstage.2)) hname)
    next => cases ht
  | giveUp j =>
    simp only [callStep] at ht
    split at ht
    next hstage =>
      cases ht
      exact hset s rfl rfl rfl _ (hweak.giveUp hstage.1 hstage.2 (hg j rfl))
    next => cases ht
  | check _ =>
    simp only [callStep] at ht
    split at ht
    next user hstage =>
      obtain ⟨u, hu, rfl⟩ := Option.map_eq_some_iff.mp ht
      split
      · exact hset s rfl rfl rfl _
          (hweak.advance (by rw [Call.running, hstage]) (by rw [hstage]; rfl) rfl)
      · exact hset s rfl rfl rfl _
          (hweak.advance (by rw [Call.running, hstage]) (by rw [hstage]; rfl) rfl)
    next => cases ht
  | lock _ =>
    simp only [callStep] at ht
    split at ht
    next user hstage =>
      obtain ⟨name, hname, ht⟩ := Option.bind_eq_some_iff.mp ht
      split at ht
      · cases ht
      · cases ht
        exact hset { s with loginLocks := name :: s.loginLocks } rfl rfl rfl _
          (hweak.advance (by rw [Call.running, hstage]) (by rw [hstage]; rfl) rfl)
    next => cases ht
  | recheck _ =>
    simp only [callStep] at ht
    split at ht
    next user hstage =>
      obtain ⟨u, hu, rfl⟩ := Option.map_eq_some_iff.mp ht
      split
      · exact hset (s.unlock u.username) rfl rfl rfl _
          (hweak.advance (by rw [Call.running, hstage]) (by rw [hstage]; rfl) rfl)
      · exact hset s rfl rfl rfl _
          (hweak.advance (by rw [Call.running, hstage]) (by rw [hstage]; rfl) rfl)
    next => cases ht
  | login _ answer =>
    simp only [callStep] at ht
    split at ht
    next user cookies hstage =>
      obtain ⟨name, hname, rfl⟩ := Option.map_eq_some_iff.mp ht
      refine hset ((s.setCookies user (.dict cookies)).unlock name) rfl (names_setCookies s user _) rfl _ ?_
      have hlogged : CallInv s.names s.blocked s.isBlocked { c with stage := .returned (some user) } :=
        hweak.advance (by rw [Call.running, hstage]) (by rw [hstage]; rfl) rfl
      rw [← names_setCookies s user (.dict cookies)] at hlogged
      exact hlogged
    next user e hstage =>
      obtain ⟨name, hname, rfl⟩ := Option.map_eq_some_iff.mp ht
      rw [name?_eq] at hname
      intro excused hexcused
      obtain ⟨c', hc', rfl⟩ := List.mem_map.mp hexcused
      rcases List.mem_or_eq_of_mem_set hc' with hold | rfl
      · exact (h c' hold).excuse [name] fun _ _ => False.elim
      · exact hweak.fail hstage hname
    next => cases ht
  | block _ =>
    simp only [callStep] at ht
    split at ht
    next user hstage =>
      obtain ⟨name, hname, rfl⟩ := Option.map_eq_some_iff.mp ht
      have hb := blocked_update s name (show (0 : Int) < 300000000 by decide)
      exact h.setCall rfl List.prefix_rfl hb ((hinv.frame List.prefix_rfl hb fun _ => False.elim).goOn hstage)
    next => cases ht
  | addUser _ | reportBad _ _ | get | tick _ => cases ht

/-- What a step blocks, or what was blocked when a call starts, is blocked after it. -/
theorem act_excuses (h : Excuses (fun _ _ => False) s) (hg : Sound s a) (ht : act s a = some t) :
    Excuses State.isBlocked t := by
  cases a with
  | addUser user =>
    cases ht
    refine h.frame rfl ?_ fun _ => .inl rfl
    rw [State.names, State.names, List.map_append]
    exact List.prefix_append _ _
  | reportBad user blockSeconds =>
    obtain ⟨name, hname, rfl⟩ := Option.map_eq_some_iff.mp ht
    refine h.frame rfl ?_ (blocked_update s name hg)
    rw [names_setCookies]
    exact List.prefix_rfl
  | get =>
    cases ht
    intro c hc
    rcases List.mem_append.mp hc with hold | hnew
    · exact (h c hold).frame List.prefix_rfl (fun _ => .inl rfl) fun _ => False.elim
    · rw [List.mem_singleton.mp hnew]
      exact {
        atStart := List.prefix_rfl
        counting := fun _ => rfl
        counted := fun hst => absurd rfl hst
        looked := nofun
        seen := nofun
        blocked := fun _ name _ hlt => .inr hlt
        gaveUp := nofun }
  | tick time =>
    cases ht
    exact h.frame rfl List.prefix_rfl fun _ => .inl rfl
  | giveUp i =>
    obtain ⟨c, hc, ht⟩ := Option.bind_eq_some_iff.mp ht
    exact callStep_excuses h hc (fun _ _ => hg c hc) ht
  | count i | look i | check i | lock i | recheck i | login i _ | block i =>
    obtain ⟨c, hc, ht⟩ := Option.bind_eq_some_iff.mp ht
    exact callStep_excuses h hc (fun j hj => by cases hj) ht

theorem excuses (h : machine.Within Sound s) : Excuses (fun _ _ => False) s := by
  apply h.induct
  · rintro s ⟨login, users, clock, rfl⟩
    nofun
  · intro s a t hs hg ht
    obtain ⟨u, hu, rfl⟩ := Option.map_eq_some_iff.mp ht
    exact (act_excuses hs hg hu).observe

/-- A call of `get` returns no account only if each of those that were in the pool when it
started was blocked at some moment, or had its login fail. -/
theorem get_none (hs : machine.start s) (hm : machine.Meets Sound s as) (he : machine.exec s as = some t) :
    ∀ c ∈ t.calls, c.stage = .returned none → ∀ name ∈ c.atStart, name ∈ c.excused :=
  fun c hc => (excuses (Machine.Within.exec (.start hs) hm he) c hc).gaveUp

/-- Two accounts. -/
def twoUsers : State := { users := [{ username := "a" }, { username := "b" }] }

/-- Both are blocked, and a call looks at both. -/
def bothBlocked : List Action :=
  [.reportBad 0 1800000000, .reportBad 1 1800000000, .get, .count 0, .look 0, .look 0, .giveUp 0]

theorem get_none_bothBlocked : ∃ t, machine.exec twoUsers bothBlocked = some t ∧
    ∀ c ∈ t.calls, c.stage = .returned none → ∀ name ∈ c.atStart, name ∈ c.excused := by
  have h : (machine.exec twoUsers bothBlocked).isSome := by decide
  obtain ⟨t, ht⟩ := Option.isSome_iff_exists.mp h
  exact ⟨t, ht, get_none ⟨_, _, _, rfl⟩ (by decide) ht⟩

/-- Between the two looks of a call another one looks, and takes the second account. -/
def otherLooks : List Action :=
  [.reportBad 0 1800000000, .get, .count 0, .look 0, .get, .count 1, .look 1, .look 0, .giveUp 0]

/-- The call has looked at the first account twice. -/
theorem otherLooks_skipped : ∃ t, machine.exec twoUsers otherLooks = some t ∧
    ∃ c ∈ t.calls, c.stage = .returned none ∧ "b" ∈ c.atStart ∧ "b" ∉ c.excused :=
  ⟨_, rfl, by decide⟩

end LocalUserPool

end Netspy
