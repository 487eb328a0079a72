import Mathlib.Logic.Function.Basic
import Mathlib.Tactic.Common

/-!
# Machines

A machine is a set of initial states and a partial step function: `step s a`
is the state after the action `a`, or `none` where `a` is not possible in
`s`. Everything that may happen (which thread runs next, what a call
returns, a crash) is an action, so a run is a list of actions.

`Within G` are the states that runs reach whose every step meets the guard
`G`; with no guard they are `Reachable`. A property of these states is
proved by `Within.induct` from what one step preserves; a property of the
steps themselves follows from an invariant of the states they start in.
-/

universe u v

structure Machine (σ : Type u) (α : Type v) where
  start : σ → Prop
  step : σ → α → Option σ

namespace Machine

variable {σ : Type u} {α : Type v} (M : Machine σ α)

/-- The state after a list of actions, if each is possible in turn. -/
def exec (s : σ) : List α → Option σ
  | [] => some s
  | a :: as => (M.step s a).bind fun t => exec t as

@[simp] theorem exec_nil (s : σ) : M.exec s [] = some s := rfl

theorem exec_cons (s : σ) (a : α) (as : List α) :
    M.exec s (a :: as) = (M.step s a).bind fun t => M.exec t as := rfl

theorem exec_append (s : σ) (as bs : List α) :
    M.exec s (as ++ bs) = (M.exec s as).bind fun t => M.exec t bs := by
  induction as generalizing s with
  | nil => rfl
  | cons a as ih =>
    simp only [List.cons_append, exec_cons]
    cases M.step s a with
    | none => rfl
    | some t => exact ih t

variable {M} in
/-- The state that a run leads to, if each action is possible. -/
theorem exec_getD {s : σ} {as : List α} (h : (M.exec s as).isSome = true) (d : σ) :
    M.exec s as = some ((M.exec s as).getD d) :=
  (Option.getD_of_ne_none (Option.isSome_iff_ne_none.mp h) d).symm

/-- The states reached by runs whose every step meets the guard `G` in the
state it starts from. -/
inductive Within (G : σ → α → Prop) : σ → Prop
  | start {s : σ} : M.start s → Within G s
  | step {s t : σ} {a : α} : Within G s → G s a → M.step s a = some t → Within G t

/-- The states reached by any run. -/
abbrev Reachable : σ → Prop := M.Within fun _ _ => True

variable {M} {G H : σ → α → Prop}

/-- The invariant rule: what holds at the start and is preserved by every
guarded step holds throughout. -/
theorem Within.induct {I : σ → Prop} (h0 : ∀ s, M.start s → I s)
    (hs : ∀ s a t, I s → G s a → M.step s a = some t → I t) {s : σ} (h : M.Within G s) : I s := by
  induction h with
  | start h => exact h0 _ h
  | step _ hg ht ih => exact hs _ _ _ ih hg ht

/-- The invariant rule with a lemma already proved of the guarded states. -/
theorem Within.induct_with {J I : σ → Prop} (hJ : ∀ s, M.Within G s → J s)
    (h0 : ∀ s, M.start s → I s)
    (hs : ∀ s a t, J s → I s → G s a → M.step s a = some t → I t) {s : σ} (h : M.Within G s) : I s := by
  induction h with
  | start h => exact h0 _ h
  | step hw hg ht ih => exact hs _ _ _ (hJ _ hw) ih hg ht

theorem Within.mono (hGH : ∀ s a, G s a → H s a) {s : σ} (h : M.Within G s) : M.Within H s := by
  induction h with
  | start h => exact .start h
  | step _ hg ht ih => exact .step ih (hGH _ _ hg) ht

theorem Within.reachable {s : σ} (h : M.Within G s) : M.Reachable s := h.mono fun _ _ _ => trivial

/-- A machine whose every step is a step of another one, or none, stays within
what that one reaches. -/
theorem Within.map {τ β : Type*} {N : Machine τ β} (f : σ → τ) (h0 : ∀ s, M.start s → N.start (f s))
    (hs : ∀ s a t, M.step s a = some t → f t = f s ∨ ∃ b, N.step (f s) b = some (f t)) {s : σ}
    (h : M.Within G s) : N.Reachable (f s) := by
  induction h with
  | start h => exact .start (h0 _ h)
  | step _ _ ht ih =>
    rcases hs _ _ _ ht with he | ⟨b, hb⟩
    · rwa [he]
    · exact ih.step trivial hb

/-! ## History -/

/-- The machine that keeps, beside its state, a history of its steps. No step
depends on it. -/
def withHistory {γ : Type*} (M : Machine σ α) (h₀ : γ) (next : γ → σ → α → σ → γ) : Machine (σ × γ) α where
  start x := M.start x.1 ∧ x.2 = h₀
  step x a := (M.step x.1 a).map fun t => (t, next x.2 x.1 a t)

section
variable {γ : Type*} {h₀ : γ} {next : γ → σ → α → σ → γ}

theorem withHistory_step {x y : σ × γ} {a : α} :
    (M.withHistory h₀ next).step x a = some y ↔ M.step x.1 a = some y.1 ∧ y.2 = next x.2 x.1 a y.1 := by
  obtain ⟨t, h⟩ := y
  show (M.step x.1 a).map _ = some (t, h) ↔ _
  rw [Option.map_eq_some_iff]
  constructor
  · rintro ⟨u, hu, he⟩
    cases he
    exact ⟨hu, rfl⟩
  · rintro ⟨ht, hh⟩
    exact ⟨t, ht, Prod.ext rfl hh.symm⟩

/-- Each run has its history. -/
theorem exec_withHistory {s t : σ} {as : List α} (he : M.exec s as = some t) (h : γ) :
    ∃ h', (M.withHistory h₀ next).exec (s, h) as = some (t, h') := by
  induction as generalizing s h with
  | nil =>
    cases he
    exact ⟨h, rfl⟩
  | cons a as ih =>
    obtain ⟨u, hu, he⟩ := Option.bind_eq_some_iff.mp he
    obtain ⟨h', hh⟩ := ih he (next h s a u)
    have hy : (M.withHistory h₀ next).step (s, h) a = some (u, next h s a u) := withHistory_step.mpr ⟨hu, rfl⟩
    exact ⟨h', by rw [exec_cons, hy, Option.bind_some, hh]⟩

/-- Each run of the one is a run of the other. -/
theorem reachable_iff_withHistory {s : σ} : M.Reachable s ↔ ∃ h, (M.withHistory h₀ next).Reachable (s, h) := by
  constructor
  · intro hs
    induction hs with
    | start hs => exact ⟨h₀, .start ⟨hs, rfl⟩⟩
    | @step s t a _ _ ht ih =>
      obtain ⟨h, hh⟩ := ih
      have hy : (M.withHistory h₀ next).step (s, h) a = some (t, next h s a t) :=
        withHistory_step.mpr ⟨ht, rfl⟩
      exact ⟨_, hh.step trivial hy⟩
  · rintro ⟨h, hh⟩
    exact hh.map (M := M.withHistory h₀ next) Prod.fst (fun _ (hs : M.start _ ∧ _) => hs.1)
      fun _ _ _ ht => .inr ⟨_, (withHistory_step.mp ht).1⟩

end

theorem Reachable.exec {s t : σ} {as : List α} (h : M.Reachable s) (he : M.exec s as = some t) :
    M.Reachable t := by
  induction as generalizing s with
  | nil => cases he; exact h
  | cons a as ih =>
    rw [exec_cons] at he
    obtain ⟨u, hu, hr⟩ := Option.bind_eq_some_iff.mp he
    exact ih (h.step trivial hu) hr

/-- Whether every step of a run meets the guard `G`. -/
def Meets (M : Machine σ α) (G : σ → α → Prop) (s : σ) : List α → Prop
  | [] => True
  | a :: as => G s a ∧ ∀ t, M.step s a = some t → Meets M G t as

instance [∀ s a, Decidable (G s a)] (s : σ) (as : List α) : Decidable (M.Meets G s as) :=
  go s as
where
  go (s : σ) : (as : List α) → Decidable (M.Meets G s as)
    | [] => isTrue trivial
    | a :: as =>
      match h : M.step s a with
      | none => decidable_of_iff (G s a) ⟨fun hg => ⟨hg, by simp [h]⟩, fun hm => hm.1⟩
      | some t =>
        haveI := go t as
        decidable_of_iff (G s a ∧ M.Meets G t as)
          ⟨fun hm => ⟨hm.1, by simpa [h] using hm.2⟩, fun hm => ⟨hm.1, hm.2 t h⟩⟩

/-- Actions that meet the guard in every state. -/
theorem Meets.of_forall {as : List α} (h : ∀ a ∈ as, ∀ s, G s a) (s : σ) : M.Meets G s as := by
  induction as generalizing s with
  | nil => trivial
  | cons a as ih => exact ⟨h a List.mem_cons_self s, fun t _ => ih (fun b hb => h b (List.mem_cons_of_mem a hb)) t⟩

/-- A run meets a guard if every step of it does. -/
theorem meets_iff {s : σ} {as : List α} :
    M.Meets G s as ↔ ∀ xs a ys u, as = xs ++ a :: ys → M.exec s xs = some u → G u a := by
  induction as generalizing s with
  | nil => exact ⟨fun _ xs a ys u he => absurd he (by simp), fun _ => trivial⟩
  | cons b bs ih =>
    refine ⟨fun hm xs a ys u he hx => ?_, fun h => ⟨h [] b bs s rfl rfl, fun t ht => ih.mpr fun xs a ys u he hx => ?_⟩⟩
    · cases xs with
      | nil =>
        cases he
        cases hx
        exact hm.1
      | cons c xs =>
        cases he
        obtain ⟨t, ht, hx⟩ := Option.bind_eq_some_iff.mp hx
        exact ih.mp (hm.2 t ht) xs a ys u rfl hx
    · refine h (b :: xs) a ys u (by rw [he]; rfl) ?_
      rw [exec_cons, ht]
      exact hx

/-- What is preserved by every guarded step is preserved by a guarded run. -/
theorem Meets.preserves {I : σ → Prop} (hs : ∀ s a t, I s → G s a → M.step s a = some t → I t) {s t : σ}
    {as : List α} (hm : M.Meets G s as) (he : M.exec s as = some t) (h : I s) : I t := by
  induction as generalizing s with
  | nil =>
    cases he
    exact h
  | cons a as ih =>
    obtain ⟨u, hu, he⟩ := Option.bind_eq_some_iff.mp he
    exact ih (hm.2 u hu) he (hs s a u h hm.1 hu)

theorem Within.exec {s t : σ} {as : List α} (h : M.Within G s) (hm : M.Meets G s as)
    (he : M.exec s as = some t) : M.Within G t := by
  induction as generalizing s with
  | nil => cases he; exact h
  | cons a as ih =>
    rw [exec_cons] at he
    obtain ⟨u, hu, hr⟩ := Option.bind_eq_some_iff.mp he
    exact ih (h.step hm.1 hu) (hm.2 u hu) hr

end Machine

/-! ## Threads

What the call of each thread is at, if it is in one, as a function. A step of a thread
updates it there. -/

namespace Calls

variable {ι α : Type*} [DecidableEq ι] {f : ι → Option α} {i j : ι} {c : Option α} {x : α}

/-- After a step of the thread `i` a thread is at `x`: it is `i` itself, or was there. -/
theorem update_eq_some (h : Function.update f i c j = some x) : j = i ∧ c = some x ∨ j ≠ i ∧ f j = some x := by
  by_cases hj : j = i
  · subst hj
    exact .inl ⟨rfl, by simpa using h⟩
  · exact .inr ⟨hj, by simpa [hj] using h⟩

/-- What holds of all threads, if it holds of the one that made the step. -/
theorem forall_update {P : ι → α → Prop} (h : ∀ j y, f j = some y → P j y) (hi : ∀ y, c = some y → P i y) :
    ∀ j y, Function.update f i c j = some y → P j y := by
  intro j y hj
  obtain ⟨rfl, hc⟩ | ⟨-, hj⟩ := update_eq_some hj
  · exact hi y hc
  · exact h j y hj

end Calls
