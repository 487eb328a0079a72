import Netspy.Impl.Lifecycle

/-!
# How a run ends

A first signal raises nothing, and a second one puts the handlers back before it raises. So
while the handlers are in place, a run that was asked to stop at most once goes through
every step of `_teardown`, and after it through the rest of `run`; only when the handlers
are back, or at the second demand, something can end it earlier (`Kept`).
-/

namespace Netspy

namespace Lifecycle

variable {η : Type} {st : Setting} {main : Bool} {supported : Sig → Bool} {before : Sig → η} {s t : Lifecycle η}
  {a : LifecycleAct} {rest : List TearStep} {e : Raised}

/-- The signals that have no handler of the run yet. -/
def uninstalled (s : Lifecycle η) : List Sig :=
  match s.place with
  | .startCallback => SIGNALS
  | .install sigs => sigs
  | .installing sig sigs => sig :: sigs
  | _ => []

/-- The handlers are those from before the run. -/
def Back (before : Sig → η) (s : Lifecycle η) : Prop := ∀ sig, s.handlers sig = .other (before sig)

/-- A second demand has put the handlers back. -/
def Forced (before : Sig → η) (s : Lifecycle η) : Prop :=
  2 ≤ s.asked ∧ Back before s ∧ s.waitedAt ≠ none

/-- What was begun of `_teardown`, and whether the run has got there. -/
def Placed (s : Lifecycle η) : Prop :=
  match s.place with
  | .startCallback | .install _ | .installing _ _ | .seed | .startThreads | .onStart => s.begun = [] ∧ s.waitedAt = none
  | .loop | .isDone | .alert | .wait => s.begun = [] ∧ s.waitedAt ≠ none
  | .tear _ rest | .restoring _ rest => s.begun ++ rest = steps ∧ s.waitedAt ≠ none
  | .endCallback | .summary | .returned => s.begun = steps ∧ s.waitedAt ≠ none
  | .raised e => s.begun <+: steps ∧
      (s.waitedAt ≠ none → s.begun = steps ∨ e = .exit ∧ (2 ≤ s.asked ∨ .restoreSignal ∈ s.begun))

/-- What is kept to be put back. -/
def Saved (before : Sig → η) (s : Lifecycle η) : Prop :=
  match s.place with
  | .installing sig _ => sig ∈ s.origHandlers.map Prod.fst ∧ s.begun = []
  | .restoring saved _ => s.begun.getLast? = some .restoreSignal ∧
      (∀ entry ∈ saved, entry.2 = .other (before entry.1)) ∧ ∀ sig, s.handlers sig = .onSignal → sig ∈ saved.map Prod.fst
  | .raised e => s.waitedAt ≠ none → Back before s ∨ e = .exit ∧ s.begun.getLast? = some .restoreSignal
  | _ => .restoreSignal ∈ s.begun → Back before s

/-- What holds at every place. -/
structure Held (main : Bool) (supported : Sig → Bool) (before : Sig → η) (s : Lifecycle η) : Prop where
  origs : ∀ entry ∈ s.origHandlers, entry.2 = .other (before entry.1)
  own : ∀ sig, s.handlers sig = .other (before sig) ∨ s.handlers sig = .onSignal ∧ sig ∈ s.origHandlers.map Prod.fst
  caught : main = true → s.finished = false → ∀ sig, supported sig = true → sig ∉ s.uninstalled →
    .restoreSignal ∉ s.begun → s.handlers sig = .onSignal ∨ Forced before s
  fresh : ∀ sig ∈ s.uninstalled, s.handlers sig = .other (before sig)
  nodup : s.uninstalled.Nodup
  asked : s.interrupted = true → 1 ≤ s.asked

structure Kept (main : Bool) (supported : Sig → Bool) (before : Sig → η) (s : Lifecycle η) : Prop where
  held : Held main supported before s
  placed : Placed s
  saved : Saved before s

/-- Between two steps of `_teardown`. -/
structure Between (main : Bool) (supported : Sig → Bool) (before : Sig → η) (s : Lifecycle η) (rest : List TearStep) :
    Prop where
  held : Held main supported before s
  begun : s.begun ++ rest = steps
  waited : s.waitedAt ≠ none
  installed : s.uninstalled = [] ∧ s.finished = false
  back : .restoreSignal ∈ s.begun → Back before s

/-- The run is at another place. -/
theorem Held.goto (h : Held main supported before s) (hfin : s.finished = false) (hhandlers : t.handlers = s.handlers)
    (horigs : t.origHandlers = s.origHandlers) (hasked : t.interrupted = s.interrupted ∧ t.asked = s.asked)
    (hun : t.uninstalled = s.uninstalled ∨ t.uninstalled = [] ∧ t.finished = true)
    (hbegun : .restoreSignal ∈ s.begun → .restoreSignal ∈ t.begun) (hwaited : s.waitedAt ≠ none → t.waitedAt ≠ none) :
    Held main supported before t where
  origs := horigs ▸ h.origs
  own := by
    rw [hhandlers, horigs]
    exact h.own
  caught hm hf sig hs hsig hno := by
    rw [hhandlers]
    rcases hun with hun | ⟨-, hended⟩
    · refine (h.caught hm hfin sig hs (hun ▸ hsig) fun hb => hno (hbegun hb)).imp id fun hf => ?_
      exact ⟨hasked.2 ▸ hf.1, fun sig => hhandlers ▸ hf.2.1 sig, hwaited hf.2.2⟩
    · cases hended.symm.trans hf
  fresh sig hsig := by
    rw [hhandlers]
    rcases hun with hun | ⟨hun, -⟩
    · exact h.fresh sig (hun ▸ hsig)
    · simp [hun] at hsig
  nodup := by
    rcases hun with hun | ⟨hun, -⟩
    · exact hun ▸ h.nodup
    · exact hun ▸ List.nodup_nil
  asked := by
    rw [hasked.1, hasked.2]
    exact h.asked

/-- The next step of `_teardown`. -/
theorem Between.tearNext (h : Between main supported before s rest) : Kept main supported before (s.tearNext rest) := by
  have hheld {place : RunPlace η} {begun : List TearStep} (hun : uninstalled { s with place } = [])
      (hbegun : .restoreSignal ∈ s.begun → .restoreSignal ∈ begun) : Held main supported before { s with place, begun } :=
    h.held.goto h.installed.2 rfl rfl ⟨rfl, rfl⟩ (.inl (hun.trans h.installed.1.symm)) hbegun id
  unfold Lifecycle.tearNext
  split
  next =>
    have hbegun : s.begun = steps := by simpa using h.begun
    have hback : Back before s := h.back (hbegun ▸ by decide)
    refine ⟨hheld (by cases s.pending <;> rfl) id, ?_, ?_⟩
    · unfold Placed
      cases hp : s.pending with
      | none => exact ⟨hbegun, h.waited⟩
      | some e => exact ⟨by simp [hbegun], fun _ => .inl hbegun⟩
    · unfold Saved
      cases hp : s.pending with
      | none => exact fun _ => hback
      | some e => exact fun _ => .inl hback
  next rest =>
    refine ⟨hheld rfl fun hm => List.mem_append_left _ hm, ⟨by simpa using h.begun, h.waited⟩, by simp, h.held.origs,
      fun sig hsig => ?_⟩
    rcases h.held.own sig with ho | ho
    · cases ho.symm.trans hsig
    · exact ho.2
  next step rest hstep =>
    refine ⟨hheld rfl fun hm => List.mem_append_left _ hm, ⟨by simpa using h.begun, h.waited⟩, fun hm => ?_⟩
    rcases List.mem_append.mp hm with hm | hm
    · exact h.back hm
    · exact absurd (List.mem_singleton.mp hm).symm hstep

/-- The loop of `_wait_until_done` is over. -/
theorem Held.endLoop (h : Held main supported before s) (hp : s.begun = [] ∧ s.waitedAt ≠ none)
    (hi : s.uninstalled = [] ∧ s.finished = false) {r : LoopEnd} : Kept main supported before (s.endLoop r) :=
  Between.tearNext ⟨{ h with }, congrArg (· ++ steps) hp.1, hp.2, hi, fun hm => by simp [hp.1] at hm⟩

/-- Something is raised. What is no `Exception` comes from a handler. -/
theorem Kept.raise (h : Kept main supported before s) (hfin : s.finished = false) (hexc : e = .exception → s.mayRaise = true)
    (hexit : e = .exit → s.tearing = true → (2 ≤ s.asked ∨ .restoreSignal ∈ s.begun) ∧
      (Back before s ∨ s.begun.getLast? = some .restoreSignal)) :
    Kept main supported before (s.raise e) := by
  obtain ⟨hh, hp, hr⟩ := h
  have hraised (hpre : s.begun <+: steps)
      (hall : s.waitedAt ≠ none → s.begun = steps ∧ Back before s ∨ e = .exit ∧ s.tearing = true) :
      Kept main supported before { s with place := .raised e } := by
    refine ⟨hh.goto hfin rfl rfl ⟨rfl, rfl⟩ (.inr ⟨rfl, rfl⟩) id id, ⟨hpre, fun hw => ?_⟩, fun hw => ?_⟩
    · exact (hall hw).imp And.left fun he => ⟨he.1, (hexit he.1 he.2).1⟩
    · rcases hall hw with ⟨-, hback⟩ | he
      · exact .inl hback
      · exact (hexit he.1 he.2).2.imp id fun hl => ⟨he.1, hl⟩
  have hearly (hp : s.begun = [] ∧ s.waitedAt = none) : Kept main supported before { s with place := .raised e } :=
    hraised (by simp [hp.1]) fun hw => absurd hp.2 hw
  have hlate (hp : s.begun = steps ∧ s.waitedAt ≠ none) (hr : .restoreSignal ∈ s.begun → Back before s) :
      Kept main supported before { s with place := .raised e } :=
    hraised (by simp [hp.1]) fun _ => .inl ⟨hp.1, hr (hp.1 ▸ by decide)⟩
  have hloop (hp : s.begun = [] ∧ s.waitedAt ≠ none) (hi : s.uninstalled = []) :
      Kept main supported before ({ s with pending := some e }.endLoop .raised) := by
    refine Between.tearNext ⟨{ hh with }, ?_, hp.2, ⟨hi, hfin⟩, fun hm => by simp [hp.1] at hm⟩
    exact congrArg (· ++ steps) hp.1
  unfold Placed at hp
  unfold Saved at hr
  unfold Lifecycle.raise
  cases hplace : s.place with
  | startCallback | install | installing | seed | startThreads | onStart =>
    simp only [hplace] at hp
    exact hearly hp
  | loop | isDone | alert | wait =>
    simp only [hplace] at hp
    have hi : s.uninstalled = [] := by simp only [uninstalled, hplace]
    exact hloop hp hi
  | tear step rest =>
    simp only [hplace] at hp hr
    cases e with
    | exception => exact Between.tearNext ⟨hh, hp.1, hp.2, ⟨by simp only [uninstalled, hplace], hfin⟩, hr⟩
    | exit => exact hraised ⟨rest, hp.1⟩ fun _ => .inr ⟨rfl, by rw [tearing, hplace]⟩
  | restoring saved rest =>
    simp only [hplace] at hp
    cases e with
    | exception => simp [mayRaise, hplace] at hexc
    | exit => exact hraised ⟨rest, hp.1⟩ fun _ => .inr ⟨rfl, by rw [tearing, hplace]⟩
  | endCallback | summary =>
    simp only [hplace] at hp hr
    exact hlate hp hr
  | returned | raised => simp [finished, hplace] at hfin

/-- Handlers that are put back one after the other. -/
theorem restore_eq (saved : List (Sig × Handler η)) (handlers : Sig → Handler η) {sig : Sig}
    (horigs : ∀ entry ∈ saved, entry.2 = .other (before entry.1))
    (h : handlers sig = .other (before sig) ∨ sig ∈ saved.map Prod.fst) :
    saved.foldl (fun handlers entry => Function.update handlers entry.1 entry.2) handlers sig = .other (before sig) := by
  induction saved generalizing handlers with
  | nil => simpa using h
  | cons entry saved ih =>
    refine ih _ (fun entry' hm => horigs entry' (List.mem_cons_of_mem _ hm)) ?_
    by_cases he : sig = entry.1
    · subst he
      exact .inl ((Function.update_self ..).trans (horigs entry List.mem_cons_self))
    · exact h.imp (Function.update_of_ne he ..).trans fun hm => (List.mem_cons.mp hm).resolve_left he

theorem Held.back_restore (h : Held main supported before s) : Back before s.restore :=
  fun sig => restore_eq s.origHandlers s.handlers h.origs ((h.own sig).imp id And.right)

/-- Before the loop nothing catches what is raised. -/
theorem raise_early (hp : Placed s) (hw : s.waitedAt = none) (e : Raised) : s.raise e = { s with place := .raised e } := by
  unfold Placed at hp
  unfold Lifecycle.raise
  cases hplace : s.place <;> simp only [hplace] at hp
  all_goals first | rfl | exact absurd hw hp.2

/-- The steps are begun in their order. -/
theorem Placed.begun_prefix (hp : Placed s) : s.begun <+: steps := by
  unfold Placed at hp
  cases hplace : s.place with
  | tear step rest | restoring saved rest =>
    simp only [hplace] at hp
    exact ⟨rest, hp.1⟩
  | raised e =>
    simp only [hplace] at hp
    exact hp.1
  | _ =>
    simp only [hplace] at hp
    simp [hp.1]

theorem Placed.waited_of_tearing (hp : Placed s) (ht : s.tearing = true) : s.waitedAt ≠ none := by
  unfold Placed at hp
  unfold tearing at ht
  cases hplace : s.place with
  | tear step rest | restoring saved rest =>
    simp only [hplace] at hp
    exact hp.2
  | _ => simp [hplace] at ht

/-- More demands. -/
theorem Placed.ask (hp : Placed s) (hplace : t.place = s.place) (hbegun : t.begun = s.begun) (hw : t.waitedAt = s.waitedAt)
    (hasked : s.asked ≤ t.asked) : Placed t := by
  unfold Placed at hp ⊢
  rw [hplace]
  cases hs : s.place with
  | raised e =>
    simp only [hs] at hp
    refine ⟨hbegun ▸ hp.1, fun hwaited => ?_⟩
    rw [hbegun]
    exact (hp.2 (hw ▸ hwaited)).imp id fun he => ⟨he.1, he.2.imp (fun h2 => Nat.le_trans h2 hasked) id⟩
  | _ =>
    simp only [hs] at hp
    rw [hbegun, hw]
    exact hp

theorem Saved.of_back (hr : Saved before s) (hp : Placed s) (hw : s.waitedAt ≠ none) (hplace : t.place = s.place)
    (hbegun : t.begun = s.begun) (hb : Back before t) : Saved before t := by
  unfold Placed at hp
  unfold Saved at hr ⊢
  rw [hplace]
  cases hs : s.place with
  | installing sig sigs =>
    simp only [hs] at hp
    exact absurd hp.2 hw
  | restoring saved rest =>
    simp only [hs] at hr
    exact ⟨hbegun ▸ hr.1, hr.2.1, fun sig hsig => by cases (hb sig).symm.trans hsig⟩
  | raised e => exact fun _ => .inl hb
  | _ => exact fun _ => hb

/-- A second demand. -/
theorem Kept.force (h : Kept main supported before s) (hfin : s.finished = false) (hi : s.interrupted = true) :
    Kept main supported before ({ s with asked := s.asked + 1 }.restore.raise .exit) := by
  have hback : Back before ({ s with asked := s.asked + 1 } : Lifecycle η).restore := h.held.back_restore
  have hasked : 2 ≤ s.asked + 1 := Nat.succ_le_succ (h.held.asked hi)
  have hp : Placed ({ s with asked := s.asked + 1 } : Lifecycle η).restore := h.placed.ask rfl rfl rfl (Nat.le_succ _)
  have hone : s.interrupted = true → 1 ≤ s.asked + 1 := fun _ => Nat.le_of_succ_le hasked
  by_cases hw : s.waitedAt = none
  · rw [raise_early hp hw]
    exact ⟨⟨by simp [restore], fun sig => .inl (hback sig), fun _ hf => Bool.noConfusion hf, fun sig _ => hback sig,
        List.nodup_nil, hone⟩,
      ⟨h.placed.begun_prefix, fun hno => absurd hw hno⟩, fun _ => .inl hback⟩
  · refine Kept.raise ⟨⟨by simp [restore], fun sig => .inl (hback sig), fun _ _ _ _ _ _ => .inr ⟨hasked, hback, hw⟩,
      fun sig _ => hback sig, h.held.nodup, hone⟩, hp, ?_⟩ hfin (fun he => by cases he) fun _ _ => ⟨.inl hasked, .inl hback⟩
    exact h.saved.of_back h.placed hw rfl rfl hback

/-- A demand. -/
theorem Kept.ask (h : Kept main supported before s) :
    Kept main supported before { s with interrupted := true, stopEvent := true, asked := s.asked + 1 } := by
  refine ⟨⟨h.held.origs, h.held.own, fun hm hf sig hs hsig hno => ?_, h.held.fresh, h.held.nodup,
    fun _ => Nat.succ_le_succ (Nat.zero_le _)⟩, h.placed.ask rfl rfl rfl (Nat.le_succ _), h.saved⟩
  exact (h.held.caught hm hf sig hs hsig hno).imp id fun hforced => ⟨Nat.le_succ_of_le hforced.1, hforced.2⟩

theorem Kept.onSignal (h : Kept main supported before s) (hfin : s.finished = false) :
    Kept main supported before s.onSignal := by
  unfold Lifecycle.onSignal
  split
  next hi => exact h.force hfin hi
  next => exact h.ask

/-- `_install_signal` goes on with the next signal. -/
theorem Held.skip {sig : Sig} {sigs : List Sig} (h : Held main supported before s) (hplace : s.place = .install (sig :: sigs))
    (hno : supported sig = false) :
    Held main supported before { s with
      place := .install sigs, origHandlers := s.origHandlers.filter fun entry => entry.1 ≠ sig } := by
  have hun : s.uninstalled = sig :: sigs := by simp only [uninstalled, hplace]
  have hfin : s.finished = false := by simp only [finished, hplace]
  have hfresh := h.fresh
  have hnodup := h.nodup
  rw [hun] at hfresh hnodup
  refine ⟨fun entry hm => h.origs entry ((List.mem_filter.mp hm).1), fun sig' => ?_, fun hm _ sig' hs hsig hb => ?_,
    fun sig' hm => hfresh sig' (List.mem_cons_of_mem _ hm), (List.nodup_cons.mp hnodup).2, h.asked⟩
  · refine (h.own sig').imp id fun ho => ⟨ho.1, ?_⟩
    have hne : sig' ≠ sig := by
      rintro rfl
      cases (hfresh sig' List.mem_cons_self).symm.trans ho.1
    obtain ⟨entry, hm, rfl⟩ := List.mem_map.mp ho.2
    exact List.mem_map_of_mem (List.mem_filter.mpr ⟨hm, by simpa using hne⟩)
  · have hne : sig' ≠ sig := by
      rintro rfl
      cases hno.symm.trans hs
    exact h.caught hm hfin sig' hs (by rw [hun]; exact List.not_mem_cons_of_ne_of_not_mem hne hsig) hb

/-- The handler of the next signal is kept. -/
theorem Held.keep {sig : Sig} {sigs : List Sig} (h : Held main supported before s)
    (hplace : s.place = .install (sig :: sigs)) :
    Held main supported before { s with
      place := .installing sig sigs
      origHandlers := s.origHandlers.filter (fun entry => entry.1 ≠ sig) ++ [(sig, s.handlers sig)] } := by
  have hun : s.uninstalled = sig :: sigs := by simp only [uninstalled, hplace]
  have hfin : s.finished = false := by simp only [finished, hplace]
  have hsig : s.handlers sig = .other (before sig) := h.fresh sig (hun ▸ List.mem_cons_self)
  have hfresh := h.fresh
  have hnodup := h.nodup
  rw [hun] at hfresh hnodup
  refine ⟨fun entry hm => ?_, fun sig' => ?_, fun hm _ sig' hs hno hb => h.caught hm hfin sig' hs (hun ▸ hno) hb, hfresh,
    hnodup, h.asked⟩
  · rcases List.mem_append.mp hm with hm | hm
    · exact h.origs entry ((List.mem_filter.mp hm).1)
    · cases List.mem_singleton.mp hm
      exact hsig
  · refine (h.own sig').imp id fun ho => ⟨ho.1, ?_⟩
    rw [List.map_append, List.mem_append]
    by_cases hne : sig' = sig
    · exact .inr (List.mem_singleton.mpr hne)
    · obtain ⟨entry, hm, rfl⟩ := List.mem_map.mp ho.2
      exact .inl (List.mem_map_of_mem (List.mem_filter.mpr ⟨hm, by simpa using hne⟩))

/-- The next signal has its handler. -/
theorem Held.install {sig : Sig} {sigs : List Sig} (h : Held main supported before s)
    (hplace : s.place = .installing sig sigs)
    (hkept : sig ∈ s.origHandlers.map Prod.fst) (hw : s.waitedAt = none) :
    Held main supported before { s with place := .install sigs, handlers := Function.update s.handlers sig .onSignal } := by
  have hun : s.uninstalled = sig :: sigs := by simp only [uninstalled, hplace]
  have hfin : s.finished = false := by simp only [finished, hplace]
  have hfresh := h.fresh
  have hnodup := h.nodup
  rw [hun] at hfresh hnodup
  obtain ⟨hsig, hnodup⟩ := List.nodup_cons.mp hnodup
  refine ⟨h.origs, fun sig' => ?_, fun hm _ sig' hs hno hb => .inl ?_, fun sig' hm => ?_, hnodup, h.asked⟩
  · by_cases hne : sig' = sig
    · subst hne
      exact .inr ⟨Function.update_self .., hkept⟩
    · exact (h.own sig').imp (Function.update_of_ne hne ..).trans fun ho => ⟨(Function.update_of_ne hne ..).trans ho.1, ho.2⟩
  · by_cases hne : sig' = sig
    · subst hne
      exact Function.update_self ..
    · refine (Function.update_of_ne hne ..).trans ((h.caught hm hfin sig' hs ?_ hb).resolve_right fun hf => hf.2.2 hw)
      rw [hun]
      exact List.not_mem_cons_of_ne_of_not_mem hne hno
  · have hne : sig' ≠ sig := fun he => hsig (he ▸ hm)
    exact (Function.update_of_ne hne ..).trans (hfresh sig' (List.mem_cons_of_mem _ hm))

theorem Kept.next (h : Kept main supported before s) (ht : s.next st main supported = some t) :
    Kept main supported before t := by
  obtain ⟨hh, hp, hr⟩ := h
  unfold Placed at hp
  unfold Saved at hr
  unfold Lifecycle.next at ht
  cases hplace : s.place with
  | startCallback =>
    simp only [hplace, Option.some.injEq] at hp hr ht
    subst ht
    refine ⟨{ hh with caught := fun hm _ sig _ hsig => ?_, fresh := fun sig hsig => ?_, nodup := ?_ }, hp, hr⟩
    · cases sig <;> simp [uninstalled, hm, SIGNALS] at hsig
    · exact hh.fresh sig (by cases sig <;> simp [uninstalled, hplace, SIGNALS])
    · cases main
      · exact List.nodup_nil
      · exact (by decide : SIGNALS.Nodup)
  | install sigs =>
    simp only [hplace] at hp hr ht
    cases sigs with
    | nil =>
      cases ht
      have hfin : s.finished = false := by simp only [finished, hplace]
      exact ⟨hh.goto hfin rfl rfl ⟨rfl, rfl⟩ (.inl (by simp only [uninstalled, hplace])) id id, hp, hr⟩
    | cons sig sigs =>
      dsimp only at ht
      split at ht
      next =>
        cases ht
        exact ⟨hh.keep hplace, hp, by simp, hp.1⟩
      next hno =>
        cases ht
        exact ⟨hh.skip hplace (by simpa using hno), hp, hr⟩
  | installing sig sigs =>
    simp only [hplace, Option.some.injEq] at hp hr ht
    subst ht
    exact ⟨hh.install hplace hr.1 hp.2, hp, fun hm => by simp [hp.1] at hm⟩
  | seed | startThreads =>
    simp only [hplace, Option.some.injEq] at hp hr ht
    subst ht
    have hfin : s.finished = false := by simp only [finished, hplace]
    exact ⟨hh.goto hfin rfl rfl ⟨rfl, rfl⟩ (.inl (by simp only [uninstalled, hplace])) id id, hp, hr⟩
  | onStart =>
    simp only [hplace, Option.some.injEq] at hp hr ht
    subst ht
    have hfin : s.finished = false := by simp only [finished, hplace]
    exact ⟨hh.goto hfin rfl rfl ⟨rfl, rfl⟩ (.inl (by simp only [uninstalled, hplace])) id (fun _ => by simp),
      ⟨hp.1, by simp⟩, hr⟩
  | loop =>
    simp only [hplace] at hp ht
    have hi : s.uninstalled = [] := by simp only [uninstalled, hplace]
    have hfin : s.finished = false := by simp only [finished, hplace]
    split at ht
    next =>
      cases ht
      exact hh.endLoop hp ⟨hi, hfin⟩
    next =>
      split at ht
      next =>
        cases ht
        exact Held.endLoop (s := { s with stopEvent := true }) { hh with } hp ⟨hi, hfin⟩
      next =>
        cases ht
        exact ⟨hh.goto hfin rfl rfl ⟨rfl, rfl⟩ (.inl hi.symm) id id, hp, fun hm => by simp [hp.1] at hm⟩
  | isDone => simp [hplace] at ht
  | alert | wait =>
    simp only [hplace, Option.some.injEq] at hp hr ht
    subst ht
    have hfin : s.finished = false := by simp only [finished, hplace]
    exact ⟨hh.goto hfin rfl rfl ⟨rfl, rfl⟩ (.inl (by simp only [uninstalled, hplace])) id id, hp, hr⟩
  | tear step rest =>
    simp only [hplace, Option.some.injEq] at hp hr ht
    subst ht
    exact Between.tearNext ⟨hh, hp.1, hp.2, ⟨by simp only [uninstalled, hplace], by simp only [finished, hplace]⟩, hr⟩
  | restoring saved rest =>
    simp only [hplace] at hp hr ht
    have hfin : s.finished = false := by simp only [finished, hplace]
    cases saved with
    | nil =>
      cases ht
      have hback : Back before s := fun sig => (hh.own sig).resolve_right fun ho => by simpa using hr.2.2 sig ho.1
      have hh : Held main supported before { s with place := .restoring [] rest } :=
        hh.goto hfin rfl rfl ⟨rfl, rfl⟩ (.inl (by simp only [uninstalled, hplace])) id id
      refine Between.tearNext ⟨?_, hp.1, hp.2, ⟨rfl, rfl⟩, fun _ => hback⟩
      exact { hh with origs := by simp, own := fun sig => .inl (hback sig) }
    | cons entry saved =>
      cases ht
      have hmem : .restoreSignal ∈ s.begun := List.mem_of_getLast? hr.1
      have hentry := hr.2.1 entry List.mem_cons_self
      have hhandler (sig : Sig) (hno : sig ≠ entry.1) : Function.update s.handlers entry.1 entry.2 sig = s.handlers sig :=
        Function.update_of_ne hno ..
      have hself : Function.update s.handlers entry.1 entry.2 entry.1 = .other (before entry.1) :=
        (Function.update_self ..).trans hentry
      refine ⟨⟨hh.origs, fun sig => ?_, fun _ _ _ _ _ hno => absurd hmem hno, fun sig hm => by simp [uninstalled] at hm,
        List.nodup_nil, hh.asked⟩, hp, hr.1, fun entry hm => hr.2.1 entry (List.mem_cons_of_mem _ hm), fun sig hsig => ?_⟩
      · by_cases hne : sig = entry.1
        · exact .inl (hne ▸ hself)
        · exact (hh.own sig).imp (hhandler sig hne).trans fun ho => ⟨(hhandler sig hne).trans ho.1, ho.2⟩
      · by_cases hne : sig = entry.1
        · subst hne
          cases hself.symm.trans hsig
        · exact (List.mem_cons.mp (hr.2.2 sig ((hhandler sig hne).symm.trans hsig))).resolve_left hne
  | endCallback | summary =>
    simp only [hplace, Option.some.injEq] at hp hr ht
    subst ht
    have hfin : s.finished = false := by simp only [finished, hplace]
    exact ⟨hh.goto hfin rfl rfl ⟨rfl, rfl⟩ (.inl (by simp only [uninstalled, hplace])) id id, hp, hr⟩
  | returned | raised => simp [hplace] at ht

/-- Another handler has raised something in the loop or later: the run was forced to stop,
or the handlers are being put back. -/
theorem Kept.uncaught (h : Kept main supported before s) (hfin : s.finished = false) (hm : main = true) {sig : Sig}
    (hs : supported sig = true) (hsig : s.handlers sig ≠ .onSignal) (hw : s.waitedAt ≠ none) :
    (2 ≤ s.asked ∨ .restoreSignal ∈ s.begun) ∧ (Back before s ∨ s.begun.getLast? = some .restoreSignal) := by
  have hp := h.placed
  have hr := h.saved
  unfold Placed at hp
  unfold Saved at hr
  by_cases hmem : .restoreSignal ∈ s.begun
  · refine ⟨.inr hmem, ?_⟩
    cases hplace : s.place with
    | restoring saved rest =>
      simp only [hplace] at hr
      exact .inr hr.1
    | installing sig sigs =>
      simp only [hplace] at hp
      exact absurd hp.2 hw
    | raised e => simp [finished, hplace] at hfin
    | _ =>
      simp only [hplace] at hr
      exact .inl (hr hmem)
  · have hun : s.uninstalled = [] := by
      unfold uninstalled
      cases hplace : s.place with
      | startCallback | install sigs | installing sig sigs =>
        simp only [hplace] at hp
        exact absurd hp.2 hw
      | _ => rfl
    have hforced := (h.held.caught hm hfin sig hs (by simp [hun]) hmem).resolve_left hsig
    exact ⟨.inl hforced.1, .inl hforced.2.1⟩

theorem Kept.step (h : Kept main supported before s) (hg : Sound s a)
    (ht : (machine st main supported before).step s a = some t) :
    Kept main supported before t := by
  cases a with
  | goOn raised =>
    cases raised with
    | none => exact h.next ht
    | some e =>
      obtain ⟨hmay, ht⟩ := Option.ite_none_right_eq_some.mp ht
      cases ht
      have hfin : s.finished = false := by
        unfold mayRaise at hmay
        unfold finished
        cases hplace : s.place <;> simp_all
      exact h.raise hfin (fun _ => hmay) fun he ht => absurd (hg (congrArg some he)) (by simp [ht])
  | answer done =>
    simp only [machine, Lifecycle.step] at ht
    split at ht
    next hplace =>
      have hp := h.placed
      unfold Placed at hp
      simp only [hplace] at hp
      have hi : s.uninstalled = [] := by simp only [uninstalled, hplace]
      have hfin : s.finished = false := by simp only [finished, hplace]
      generalize (if done = true then s.streak + 1 else 0) = streak at ht
      split at ht
      next =>
        cases ht
        exact Held.endLoop (s := { s with answers := done :: s.answers, streak }) { h.held with } hp ⟨hi, hfin⟩
      next =>
        cases ht
        exact ⟨h.held.goto hfin rfl rfl ⟨rfl, rfl⟩ (.inl hi.symm) id id, hp, fun hm => by simp [hp.1] at hm⟩
    next => cases ht
  | signal sig interrupts =>
    obtain ⟨⟨hm, hs, hfin⟩, ht⟩ := Option.ite_none_right_eq_some.mp ht
    have hfin : s.finished = false := by simpa using hfin
    split at ht
    next =>
      cases ht
      exact h.onSignal hfin
    next handler hother =>
      split at ht
      next =>
        cases ht
        exact h.raise hfin (fun he => by cases he) fun _ htear =>
          h.uncaught hfin hm hs (by simp [hother]) (h.placed.waited_of_tearing htear)
      next =>
        cases ht
        exact h
  | stop =>
    cases ht
    exact h.ask
  | tick time =>
    cases ht
    exact ⟨{ h.held with }, h.placed, h.saved⟩

theorem kept (h : (machine st main supported before).Within Sound s) : Kept main supported before s := by
  refine h.induct ?_ fun s a t hs hg ht => hs.step hg ht
  rintro s ⟨clock, rfl⟩
  refine ⟨⟨by simp, fun sig => .inl rfl, fun _ _ sig _ hsig => ?_, fun _ _ => rfl, ?_, by simp⟩, ⟨rfl, rfl⟩, fun _ sig => rfl⟩
  · cases sig <;> simp [uninstalled, SIGNALS] at hsig
  · exact (by decide : SIGNALS.Nodup)

/-- The steps of `_teardown` are begun in their order. A run that has got to its loop begins
all of them, unless `KeyboardInterrupt` ends it: at the second demand to stop, or when the
handlers are being put back. And these are back then, unless this is what was ended. -/
theorem teardown_goes_through (h : (machine st main supported before).Within Sound s) (hfin : s.finished = true) :
    s.begun <+: steps ∧
      (s.waitedAt ≠ none → s.begun = steps ∨ s.place = .raised .exit ∧ (2 ≤ s.asked ∨ .restoreSignal ∈ s.begun)) ∧
      (s.waitedAt ≠ none → (∀ sig, s.handlers sig = .other (before sig)) ∨
        s.place = .raised .exit ∧ s.begun.getLast? = some .restoreSignal) := by
  have hk := kept h
  have hp := hk.placed
  have hr := hk.saved
  have hback (hbegun : s.begun = steps) (hr : .restoreSignal ∈ s.begun → Back before s) : Back before s :=
    hr (hbegun ▸ by decide)
  refine ⟨hp.begun_prefix, ?_⟩
  unfold Placed at hp
  unfold Saved at hr
  unfold finished at hfin
  cases hplace : s.place with
  | returned =>
    simp only [hplace] at hp hr
    exact ⟨fun _ => .inl hp.1, fun _ => .inl (hback hp.1 hr)⟩
  | raised e =>
    simp only [hplace] at hp hr
    exact ⟨fun hw => (hp.2 hw).imp id fun he => ⟨congrArg RunPlace.raised he.1, he.2⟩,
      fun hw => (hr hw).imp id fun he => ⟨congrArg RunPlace.raised he.1, he.2⟩⟩
  | _ => simp [hplace] at hfin

/-- A run is interrupted, and a step of `_teardown` fails. When the handlers are back, it is
interrupted again. -/
def interruptedTwice : List LifecycleAct :=
  List.replicate 10 (LifecycleAct.goOn none) ++
    [LifecycleAct.signal .SIGINT false, .answer false, .goOn none, .goOn none, .goOn none, .goOn (some .exception)] ++
    List.replicate 8 (LifecycleAct.goOn none) ++ [LifecycleAct.signal .SIGINT true]

theorem interruptedTwice_ran : ((machine {} true (fun _ => true) fun _ => ()).exec { handlers := fun _ => .other () }
    interruptedTwice).map (fun s => (s.place, s.waitedAt, s.begun)) = some (.raised .exit, some 0, steps.take 8) := by
  decide

theorem teardown_goes_through_interruptedTwice : ∃ s, (machine {} true (fun _ => true) fun _ => ()).exec
    { handlers := fun _ => .other () } interruptedTwice = some s ∧ s.begun = steps.take 8 ∧
      (s.begun = steps ∨ s.place = .raised .exit ∧ (2 ≤ s.asked ∨ .restoreSignal ∈ s.begun)) := by
  obtain ⟨s, he, hs⟩ := Option.map_eq_some_iff.mp interruptedTwice_ran
  have hw : (machine {} true (fun _ => true) fun _ => ()).Within Sound s :=
    Machine.Within.exec (.start ⟨0, rfl⟩) (by decide) he
  have hplace : s.place = .raised .exit := congrArg Prod.fst hs
  have hbegun : s.begun = steps.take 8 := congrArg (fun x => x.2.2) hs
  have hwaited : s.waitedAt = some 0 := congrArg (fun x => x.2.1) hs
  have hfin : s.finished = true := by rw [finished, hplace]
  exact ⟨s, he, hbegun, (teardown_goes_through hw hfin).2.1 (by simp [hwaited])⟩

/-! ## Why the loop is over -/

/-- Nothing of `_teardown` is begun before the loop is over. -/
def Unbegun (s : Lifecycle η) : Prop :=
  match s.place with
  | .startCallback | .install _ | .installing _ _ | .seed | .startThreads | .onStart => s.begun = [] ∧ s.waitedAt = none
  | .loop | .isDone | .alert | .wait => s.begun = [] ∧ s.waitedAt ≠ none
  | .tear _ _ | .restoring _ _ | .endCallback | .summary | .returned | .raised _ => True

theorem unbegun_tearNext (s : Lifecycle η) (rest : List TearStep) : Unbegun (s.tearNext rest) := by
  unfold Lifecycle.tearNext
  split
  · unfold Unbegun
    cases hp : s.pending <;> trivial
  · trivial
  · trivial

theorem unbegun_raise (s : Lifecycle η) (e : Raised) : Unbegun (s.raise e) := by
  unfold Lifecycle.raise
  split
  · exact unbegun_tearNext _ _
  · exact unbegun_tearNext _ _
  · exact unbegun_tearNext _ _
  · exact unbegun_tearNext _ _
  · exact unbegun_tearNext _ _
  · exact unbegun_tearNext _ _
  · trivial

theorem Unbegun.next (hp : Unbegun s) (ht : s.next st main supported = some t) : Unbegun t := by
  unfold Unbegun at hp
  unfold Lifecycle.next at ht
  cases hplace : s.place with
  | install sigs =>
    simp only [hplace] at hp ht
    cases sigs with
    | nil =>
      cases ht
      exact hp
    | cons sig sigs =>
      dsimp only at ht
      split at ht <;> cases ht <;> exact hp
  | onStart =>
    simp only [hplace, Option.some.injEq] at hp ht
    subst ht
    exact ⟨hp.1, by simp⟩
  | loop =>
    simp only [hplace] at hp ht
    split at ht
    next =>
      cases ht
      exact unbegun_tearNext _ _
    next =>
      split at ht
      next =>
        cases ht
        exact unbegun_tearNext _ _
      next =>
        cases ht
        exact hp
  | tear step rest =>
    simp only [hplace, Option.some.injEq] at ht
    subst ht
    exact unbegun_tearNext _ _
  | restoring saved rest =>
    simp only [hplace] at ht
    cases saved with
    | nil =>
      cases ht
      exact unbegun_tearNext _ _
    | cons entry saved =>
      cases ht
      trivial
  | isDone | returned | raised => simp [hplace] at ht
  | _ =>
    simp only [hplace, Option.some.injEq] at hp ht
    subst ht
    exact hp

theorem Unbegun.step (hp : Unbegun s) (ht : (machine st main supported before).step s a = some t) : Unbegun t := by
  cases a with
  | goOn raised =>
    cases raised with
    | none => exact hp.next ht
    | some e =>
      obtain ⟨-, ht⟩ := Option.ite_none_right_eq_some.mp ht
      cases ht
      exact unbegun_raise s e
  | answer done =>
    simp only [machine, Lifecycle.step] at ht
    split at ht
    next hplace =>
      unfold Unbegun at hp
      simp only [hplace] at hp
      generalize (if done = true then s.streak + 1 else 0) = streak at ht
      split at ht
      next =>
        cases ht
        exact unbegun_tearNext _ _
      next =>
        cases ht
        exact hp
    next => cases ht
  | signal sig interrupts =>
    obtain ⟨-, ht⟩ := Option.ite_none_right_eq_some.mp ht
    split at ht
    next =>
      cases ht
      unfold Lifecycle.onSignal
      split
      · exact unbegun_raise _ .exit
      · exact hp
    next =>
      split at ht
      next =>
        cases ht
        exact unbegun_raise s .exit
      next =>
        cases ht
        exact hp
  | stop | tick time =>
    cases ht
    exact hp

theorem unbegun (h : (machine st main supported before).Reachable s) : Unbegun s := by
  refine h.induct ?_ fun s a t hs _ ht => hs.step ht
  rintro s ⟨clock, rfl⟩
  exact ⟨rfl, rfl⟩

def Reason (st : Setting) (s : Lifecycle η) : LoopEnd → Prop
  | .stopped => 1 ≤ s.asked
  | .deadline => ∃ time, s.waitedAt = some time ∧ 0 < st.SPIDER_MAX_RUNTIME ∧ time + st.SPIDER_MAX_RUNTIME ≤ s.clock
  | .done => max 1 st.DONE_CHECK_TIMES ≤ (s.answers.takeWhile id).length
  | .raised => s.pending ≠ none

structure Ends (st : Setting) (s : Lifecycle η) : Prop where
  fresh : s.waitedAt = none → s.answers = []
  unended : s.begun = [] → s.ended = none
  streak : s.waitedAt ≠ none → s.streak = (s.answers.takeWhile id).length
  deadline : ∀ time, s.deadline = some time → ∃ start, s.waitedAt = some start ∧ 0 < st.SPIDER_MAX_RUNTIME ∧
    time = start + st.SPIDER_MAX_RUNTIME
  stop : s.stopEvent = true → 1 ≤ s.asked ∨ s.ended = some .deadline
  reason : ∀ r, s.ended = some r → Reason st s r

theorem tearNext_eq (s : Lifecycle η) (rest : List TearStep) : ∃ place begun, s.tearNext rest = { s with place, begun } ∧
    s.begun <+: begun ∧ (rest ≠ [] → begun ≠ []) := by
  unfold tearNext
  split
  · exact ⟨_, s.begun, rfl, List.prefix_rfl, fun h => absurd rfl h⟩
  · exact ⟨_, _, rfl, List.prefix_append _ _, by simp⟩
  · exact ⟨_, _, rfl, List.prefix_append _ _, by simp⟩

theorem Ends.move (h : Ends st s) {place : RunPlace η} {begun : List TearStep} (hb : s.begun <+: begun) :
    Ends st { s with place, begun } :=
  { h with unended := fun hn => h.unended (List.prefix_nil.mp (hn ▸ hb)) }

theorem Ends.tearNext (h : Ends st s) (rest : List TearStep) : Ends st (s.tearNext rest) := by
  obtain ⟨place, begun, he, hb, -⟩ := tearNext_eq s rest
  rw [he]
  exact h.move hb

theorem Ends.asked_of_stop (h : Ends st s) (hbegun : s.begun = []) (hs : s.stopEvent = true) : 1 ≤ s.asked :=
  (h.stop hs).resolve_right (by simp [h.unended hbegun])

theorem Ends.endLoop (h : Ends st s) {r : LoopEnd} {stopEvent : Bool} (hr : Reason st s r) (hbegun : s.begun = [])
    (hstop : stopEvent = true → s.stopEvent = true ∨ r = .deadline) : Ends st ({ s with stopEvent }.endLoop r) := by
  obtain ⟨place, begun, he, -, hne⟩ := tearNext_eq { s with stopEvent, ended := some r } steps
  rw [Lifecycle.endLoop, he]
  refine { h with
    unended := fun hn => absurd hn (hne (by decide))
    stop := fun hs => (hstop hs).imp (h.asked_of_stop hbegun) (congrArg some), reason := ?_ }
  rintro r ⟨⟩
  cases r <;> exact hr

theorem Ends.raise (h : Ends st s) (hp : Unbegun s) (e : Raised) : Ends st (s.raise e) := by
  unfold Unbegun at hp
  unfold Lifecycle.raise
  cases hplace : s.place with
  | loop | isDone | alert | wait =>
    simp only [hplace] at hp
    refine Ends.endLoop (s := { s with pending := some e }) { h with reason := ?_ } (by simp [Reason]) hp.1 .inl
    intro r hr
    cases (h.unended hp.1).symm.trans hr
  | tear step rest | restoring saved rest =>
    cases e with
    | exception => exact h.tearNext rest
    | exit => exact h.move List.prefix_rfl
  | _ => exact h.move List.prefix_rfl

theorem Ends.ask (h : Ends st s) : Ends st { s with interrupted := true, stopEvent := true, asked := s.asked + 1 } := by
  refine { h with stop := fun _ => .inl (Nat.succ_le_succ (Nat.zero_le _)), reason := fun r hr => ?_ }
  have hold := h.reason r hr
  cases r with
  | stopped => exact Nat.le_succ_of_le hold
  | deadline | done | raised => exact hold

theorem Ends.onSignal (h : Ends st s) (hp : Unbegun s) : Ends st s.onSignal := by
  unfold Lifecycle.onSignal
  split
  next =>
    refine Ends.raise (s := ({ s with asked := s.asked + 1 } : Lifecycle η).restore) ?_ hp _
    refine { h with stop := fun hs => (h.stop hs).imp Nat.le_succ_of_le id, reason := fun r hr => ?_ }
    have hold := h.reason r hr
    cases r with
    | stopped => exact Nat.le_succ_of_le hold
    | deadline | done | raised => exact hold
  next => exact h.ask

theorem Ends.next (h : Ends st s) (hp : Unbegun s) (ht : s.next st main supported = some t) : Ends st t := by
  unfold Unbegun at hp
  unfold Lifecycle.next at ht
  cases hplace : s.place with
  | install sigs =>
    simp only [hplace] at ht
    cases sigs with
    | nil =>
      cases ht
      exact { h with }
    | cons sig sigs =>
      dsimp only at ht
      split at ht <;> cases ht <;> exact { h with }
  | startCallback | installing | seed | startThreads | alert | wait | endCallback | summary =>
    simp only [hplace, Option.some.injEq] at ht
    subst ht
    exact { h with }
  | onStart =>
    simp only [hplace, Option.some.injEq] at hp ht
    subst ht
    have hans := h.fresh hp.2
    refine { h with fresh := by simp, streak := fun _ => by simp [hans], deadline := fun time hd => ?_,
                     reason := fun r hr => ?_ }
    · obtain ⟨hlim, hd⟩ := Option.ite_none_right_eq_some.mp hd
      cases hd
      exact ⟨s.clock, rfl, hlim, rfl⟩
    · cases (h.unended hp.1).symm.trans hr
  | loop =>
    simp only [hplace] at hp ht
    split at ht
    next hstop =>
      cases ht
      exact h.endLoop (r := .stopped) (h.asked_of_stop hp.1 hstop) hp.1 .inl
    next =>
      split at ht
      next hdeadline =>
        cases ht
        obtain ⟨time, hd, hle⟩ := (Option.any_eq_true _ _).mp hdeadline
        obtain ⟨start, hw, hlim, rfl⟩ := h.deadline time hd
        exact h.endLoop ⟨start, hw, hlim, of_decide_eq_true hle⟩ hp.1 fun _ => .inr rfl
      next =>
        cases ht
        exact { h with }
  | isDone => simp [hplace] at ht
  | tear step rest =>
    simp only [hplace, Option.some.injEq] at ht
    subst ht
    exact h.tearNext rest
  | restoring saved rest =>
    simp only [hplace] at ht
    cases saved with
    | nil =>
      cases ht
      exact Ends.tearNext (s := { s with origHandlers := [], place := .restoring [] rest }) { h with } rest
    | cons entry saved =>
      cases ht
      exact { h with }
  | returned | raised => simp [hplace] at ht

theorem Ends.step (h : Ends st s) (hp : Unbegun s) (ht : (machine st main supported before).step s a = some t) :
    Ends st t := by
  cases a with
  | goOn raised =>
    cases raised with
    | none => exact h.next hp ht
    | some e =>
      obtain ⟨-, ht⟩ := Option.ite_none_right_eq_some.mp ht
      cases ht
      exact h.raise hp e
  | answer done =>
    simp only [machine, Lifecycle.step] at ht
    split at ht
    next hplace =>
      unfold Unbegun at hp
      simp only [hplace] at hp
      have hans : Ends st { s with answers := done :: s.answers, streak := if done then s.streak + 1 else 0 } := by
        refine { h with fresh := fun hw => absurd hw hp.2, streak := fun hw => ?_, reason := fun r hr => ?_ }
        · cases done with
          | true => exact congrArg (· + 1) (h.streak hw)
          | false => rfl
        · cases (h.unended hp.1).symm.trans hr
      have hstreak := hans.streak hp.2
      generalize (if done = true then s.streak + 1 else 0) = streak at ht hans hstreak
      split at ht
      next hdone =>
        cases ht
        refine hans.endLoop (r := .done) (Nat.max_le.mpr ⟨?_, hstreak ▸ hdone.2⟩) hp.1 .inl
        simp [hdone.1]
      next =>
        cases ht
        exact { hans with }
    next => cases ht
  | signal sig interrupts =>
    obtain ⟨-, ht⟩ := Option.ite_none_right_eq_some.mp ht
    split at ht
    next =>
      cases ht
      exact h.onSignal hp
    next =>
      split at ht
      next =>
        cases ht
        exact h.raise hp .exit
      next =>
        cases ht
        exact h
  | stop =>
    cases ht
    exact h.ask
  | tick time =>
    cases ht
    refine { h with reason := fun r hr => ?_ }
    have hold := h.reason r hr
    cases r with
    | deadline =>
      obtain ⟨start, hw, hlim, hle⟩ := hold
      exact ⟨start, hw, hlim, Nat.le_add_right_of_le hle⟩
    | stopped | done | raised => exact hold

theorem ends (h : (machine st main supported before).Reachable s) : Ends st s := by
  refine h.induct_with (J := Unbegun) (fun s hs => unbegun hs) ?_ ?_
  · rintro s ⟨clock, rfl⟩
    exact ⟨fun _ => rfl, fun _ => rfl, fun hw => absurd rfl hw, by simp, by simp, by simp⟩
  · intro s a t hp hs _ ht
    exact hs.step hp ht

/-- How often `_is_done` may still be asked when the run is to stop. -/
def budget (s : Lifecycle η) : Nat :=
  match s.place with
  | .isDone => 1
  | _ => 0

def isAnswer : LifecycleAct → Bool
  | .answer _ => true
  | _ => false

theorem stop_tearNext (s : Lifecycle η) (rest : List TearStep) :
    (s.tearNext rest).stopEvent = s.stopEvent ∧ budget (s.tearNext rest) = 0 := by
  unfold tearNext
  split
  · cases hp : s.pending <;> exact ⟨rfl, by simp [budget]⟩
  · exact ⟨rfl, rfl⟩
  · exact ⟨rfl, rfl⟩

theorem stop_raise (s : Lifecycle η) (e : Raised) : (s.raise e).stopEvent = s.stopEvent ∧ budget (s.raise e) = 0 := by
  unfold raise
  cases hplace : s.place with
  | loop | isDone | alert | wait => exact stop_tearNext _ steps
  | tear step rest | restoring saved rest =>
    cases e with
    | exception => exact stop_tearNext s rest
    | exit => exact ⟨rfl, rfl⟩
  | _ => exact ⟨rfl, rfl⟩

theorem stop_next (hs : s.stopEvent = true) (ht : s.next st main supported = some t) : t.stopEvent = true ∧ budget t = 0 := by
  unfold next at ht
  cases hplace : s.place with
  | install sigs =>
    simp only [hplace] at ht
    cases sigs with
    | nil =>
      cases ht
      exact ⟨hs, rfl⟩
    | cons sig sigs =>
      dsimp only at ht
      split at ht <;> cases ht <;> exact ⟨hs, rfl⟩
  | loop =>
    simp only [hplace, if_pos hs, Option.some.injEq] at ht
    subst ht
    exact (stop_tearNext _ steps).imp_left (·.trans hs)
  | tear step rest =>
    simp only [hplace, Option.some.injEq] at ht
    subst ht
    exact (stop_tearNext _ rest).imp_left (·.trans hs)
  | restoring saved rest =>
    simp only [hplace] at ht
    cases saved with
    | nil =>
      cases ht
      exact (stop_tearNext _ rest).imp_left (·.trans hs)
    | cons entry saved =>
      cases ht
      exact ⟨hs, rfl⟩
  | isDone | returned | raised => simp [hplace] at ht
  | _ =>
    simp only [hplace, Option.some.injEq] at ht
    subst ht
    exact ⟨hs, rfl⟩

theorem stop_step (hs : s.stopEvent = true) (ht : (machine st main supported before).step s a = some t) :
    t.stopEvent = true ∧ (if isAnswer a then 1 else 0) + budget t ≤ budget s := by
  cases a with
  | goOn raised =>
    refine (?_ : t.stopEvent = true ∧ budget t = 0).imp id fun hb => by simp [isAnswer, hb]
    cases raised with
    | none => exact stop_next hs ht
    | some e =>
      obtain ⟨-, ht⟩ := Option.ite_none_right_eq_some.mp ht
      cases ht
      exact (stop_raise s e).imp_left (·.trans hs)
  | answer done =>
    simp only [machine, Lifecycle.step] at ht
    split at ht
    next hplace =>
      generalize (if done = true then s.streak + 1 else 0) = streak at ht
      have hb : budget s = 1 := by simp only [budget, hplace]
      split at ht
      next =>
        cases ht
        exact (stop_tearNext _ steps).imp (·.trans hs) fun h0 => Nat.le_of_eq (by rw [hb, endLoop, h0]; rfl)
      next =>
        cases ht
        exact ⟨hs, Nat.le_of_eq hb.symm⟩
    next => cases ht
  | signal sig interrupts =>
    obtain ⟨-, ht⟩ := Option.ite_none_right_eq_some.mp ht
    split at ht
    next =>
      cases ht
      unfold onSignal
      split
      · exact (stop_raise _ .exit).imp (·.trans hs) fun hb => by simp [isAnswer, hb]
      · exact ⟨rfl, by simp [isAnswer, budget]⟩
    next =>
      split at ht
      next =>
        cases ht
        exact (stop_raise s .exit).imp (·.trans hs) fun hb => by simp [isAnswer, hb]
      next =>
        cases ht
        exact ⟨hs, by simp [isAnswer]⟩
  | stop =>
    cases ht
    exact ⟨rfl, by simp [isAnswer, budget]⟩
  | tick time =>
    cases ht
    exact ⟨hs, by simp [isAnswer, budget]⟩

/-- The loop ends because the run was asked to stop, its time was up, `_is_done` was true
so many times in a row, or something was raised. Once it is asked to stop, `_is_done` is
asked no more, except that a call which goes on returns. -/
theorem loop_ends_for_reason (h : (machine st main supported before).Reachable s) :
    (∀ r, s.ended = some r → Reason st s r) ∧
      ∀ as t, s.stopEvent = true → (machine st main supported before).exec s as = some t →
        as.countP isAnswer ≤ 1 := by
  refine ⟨(ends h).reason, fun as t hs he => ?_⟩
  have hle : as.countP isAnswer ≤ budget s := by
    clear h
    induction as generalizing s with
    | nil => exact Nat.zero_le _
    | cons a as ih =>
      obtain ⟨u, hu, he⟩ := Option.bind_eq_some_iff.mp he
      obtain ⟨hsu, hb⟩ := stop_step hs hu
      rw [List.countP_cons, Nat.add_comm]
      exact Nat.le_trans (Nat.add_le_add_left (ih hsu he) _) hb
  refine Nat.le_trans hle ?_
  unfold budget
  split <;> simp

/-- `_is_done` is true once, and then two times in a row. -/
def doneTwice : List LifecycleAct :=
  let turn (done : Bool) : List LifecycleAct := [.answer done, .goOn none, .goOn none, .goOn none]
  List.replicate 10 (LifecycleAct.goOn none) ++ turn true ++ turn false ++ turn true ++ [LifecycleAct.answer true]

theorem doneTwice_ran : ((machine { DONE_CHECK_TIMES := 2 } true (fun _ => true) fun _ => ()).exec
    { handlers := fun _ => .other () } doneTwice).map (fun s => (s.ended, s.answers)) =
      some (some .done, [true, true, false, true]) := by
  decide

theorem loop_ends_for_reason_doneTwice : ∃ s, (machine { DONE_CHECK_TIMES := 2 } true (fun _ => true) fun _ => ()).exec
    { handlers := fun _ => .other () } doneTwice = some s ∧ s.ended = some .done ∧
      Reason { DONE_CHECK_TIMES := 2 } s .done := by
  obtain ⟨s, he, hs⟩ := Option.map_eq_some_iff.mp doneTwice_ran
  have hr : (machine { DONE_CHECK_TIMES := 2 } true (fun _ => true) fun _ => ()).Reachable s :=
    Machine.Reachable.exec (.start ⟨0, rfl⟩) he
  have hended : s.ended = some .done := congrArg Prod.fst hs
  exact ⟨s, he, hended, (loop_ends_for_reason hr).1 .done hended⟩

end Lifecycle

end Netspy
