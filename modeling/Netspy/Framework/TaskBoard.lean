import Mathlib.Logic.Function.Basic
import Netspy.Framework.Machine

/-!
# Tasks that are claimed

What a table of tasks is for: a claim gets tasks that wait (`todo`) and makes them busy
(`doing`); a mark gives one task any status, and a reset makes tasks wait again. The log
has the last event first.

`TaskBoard.claims_apart`: between two claims of one task it was put back. A store that
does nothing but such steps inherits this by `Machine.Within.map`, or step by step.
-/

universe u v

inductive BoardEvent (ι : Type u) (σ : Type v) where
  | claimed (tasks : List ι)
  | marked (task : ι) (status : σ)
  | reset (tasks : List ι)
  deriving DecidableEq

structure TaskBoard (ι : Type u) (σ : Type v) where
  status : ι → σ
  log : List (BoardEvent ι σ) := []

variable {ι : Type u} {σ : Type v}

/-- Whether the task waits after this. -/
def BoardEvent.PutsBack (todo : σ) (task : ι) : BoardEvent ι σ → Prop
  | .claimed _ => False
  | .marked task' status => task' = task ∧ status = todo
  | .reset tasks => task ∈ tasks

/-- Between two claims of one task it is put back. -/
def ClaimsApart (todo : σ) (log : List (BoardEvent ι σ)) : Prop :=
  ∀ zs later ys earlier xs task, log = zs ++ .claimed later :: (ys ++ .claimed earlier :: xs) →
    task ∈ earlier → task ∈ later → ∃ e ∈ ys, e.PutsBack todo task

namespace TaskBoard

variable [DecidableEq ι] [DecidableEq σ] (todo doing : σ)

/-- The event `e` happens, if it can. -/
def step (b : TaskBoard ι σ) (e : BoardEvent ι σ) : Option (TaskBoard ι σ) :=
  match e with
  | .claimed tasks =>
    if tasks.Nodup ∧ ∀ task ∈ tasks, b.status task = todo then
      some { status := fun task => if task ∈ tasks then doing else b.status task, log := e :: b.log }
    else none
  | .marked task status => some { status := Function.update b.status task status, log := e :: b.log }
  | .reset tasks =>
    some { status := fun task => if task ∈ tasks then todo else b.status task, log := e :: b.log }

def machine : Machine (TaskBoard ι σ) (BoardEvent ι σ) where
  start b := b.log = []
  step := step todo doing

variable {todo doing} {b b' : TaskBoard ι σ} {e : BoardEvent ι σ}

/-- What was claimed and not put back does not wait. -/
def Busy (todo : σ) (b : TaskBoard ι σ) : Prop :=
  ∀ xs tasks ys task, b.log = xs ++ .claimed tasks :: ys → task ∈ tasks → (∀ e ∈ xs, ¬ e.PutsBack todo task) →
    b.status task ≠ todo

/-- The last event is the one that is looked for, or a later one. -/
theorem cons_eq_append {α : Type*} {a c : α} {as xs ys : List α} (h : a :: as = xs ++ c :: ys) :
    (xs = [] ∧ a = c ∧ as = ys) ∨ ∃ xs', xs = a :: xs' ∧ as = xs' ++ c :: ys := by
  cases xs with
  | nil =>
    cases h
    exact .inl ⟨rfl, rfl, rfl⟩
  | cons x xs =>
    cases h
    exact .inr ⟨xs, rfl, rfl⟩

theorem log_step (h : b.step todo doing e = some b') : b'.log = e :: b.log := by
  cases e with
  | claimed tasks =>
    obtain ⟨-, h⟩ := Option.ite_none_right_eq_some.mp h
    cases h
    rfl
  | marked task status =>
    cases h
    rfl
  | reset tasks =>
    cases h
    rfl

theorem Busy.step (h : Busy todo b) (hne : doing ≠ todo) (hs : b.step todo doing e = some b') : Busy todo b' := by
  intro xs tasks ys task hlog htask hback
  rcases cons_eq_append ((log_step hs).symm.trans hlog) with ⟨rfl, rfl, -⟩ | ⟨later, rfl, hold⟩
  · obtain ⟨-, hs⟩ := Option.ite_none_right_eq_some.mp hs
    cases hs
    simpa [htask] using hne
  · have hold := h later tasks ys task hold htask fun x hx => hback x (List.mem_cons_of_mem e hx)
    have he := hback e List.mem_cons_self
    cases e with
    | claimed tasks' =>
      obtain ⟨-, hs⟩ := Option.ite_none_right_eq_some.mp hs
      cases hs
      show (if task ∈ tasks' then doing else b.status task) ≠ todo
      split
      · exact hne
      · exact hold
    | marked task' status =>
      cases hs
      show Function.update b.status task' status task ≠ todo
      by_cases ht : task = task'
      · subst ht
        rw [Function.update_self]
        exact fun hstatus => he ⟨rfl, hstatus⟩
      · rwa [Function.update_of_ne ht]
    | reset tasks' =>
      cases hs
      show (if task ∈ tasks' then todo else b.status task) ≠ todo
      rwa [if_neg (show task ∉ tasks' from he)]

theorem claimsApart_step (h : ClaimsApart todo b.log) (hbusy : Busy todo b) (hs : b.step todo doing e = some b') :
    ClaimsApart todo b'.log := by
  intro zs later ys earlier xs task hlog hearlier hlater
  rcases cons_eq_append ((log_step hs).symm.trans hlog) with ⟨-, rfl, hlog⟩ | ⟨zs, -, hlog⟩
  · by_contra hback
    push Not at hback
    obtain ⟨hwait, -⟩ := Option.ite_none_right_eq_some.mp hs
    exact hbusy ys earlier xs task hlog hearlier hback (hwait.2 task hlater)
  · exact h zs later ys earlier xs task hlog hearlier hlater

/-- In every run, between two claims of one task it was put back. -/
theorem claims_apart (hne : doing ≠ todo) (h : (machine todo doing).Reachable b) : ClaimsApart todo b.log := by
  have hboth : Busy todo b ∧ ClaimsApart todo b.log := by
    refine Machine.Within.induct (I := fun b => Busy todo b ∧ ClaimsApart todo b.log) (fun b hb => ?_)
      (fun b e b' hI _ hs => ⟨hI.1.step hne hs, claimsApart_step hI.2 hI.1 hs⟩) h
    have hlog : b.log = [] := hb
    exact ⟨fun xs tasks ys task he => by simp [hlog] at he, fun zs later ys earlier xs task he => by simp [hlog] at he⟩
  exact hboth.2

end TaskBoard
