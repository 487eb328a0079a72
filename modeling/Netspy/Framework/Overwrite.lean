import Mathlib.Data.List.Induction
import Mathlib.Logic.Function.Basic
import Mathlib.Tactic.Common

/-!
# Stores that writes overwrite

A store maps keys to values; a write `u` sets the keys it `hits` to `val u`.
After a list of writes each key holds what the last write to it set
(`replay_apply`), so only the order of the writes to each key matters
(`replay_congr`).

A write that would change nothing may be left out: `foldl_kept` leaves out
the entries that a log marks, if each of them would change nothing at its
place. This holds of any steps, whatever they do.
-/

universe u v w

namespace Overwrite

section Stores

variable {υ : Type u} {κ : Type v} {ν : Type w} (hits : υ → κ → Bool) (val : υ → ν)

def overwrite (s : κ → Option ν) (u : υ) : κ → Option ν := fun k =>
  if hits u k then some (val u) else s k

def replay (s : κ → Option ν) (us : List υ) : κ → Option ν := us.foldl (overwrite hits val) s

/-- The last write to a key. -/
def lastWrite (us : List υ) (k : κ) : Option υ := (us.filter fun u => hits u k).getLast?

@[simp] theorem replay_nil (s : κ → Option ν) : replay hits val s [] = s := rfl

theorem replay_cons (s : κ → Option ν) (u : υ) (us : List υ) :
    replay hits val s (u :: us) = replay hits val (overwrite hits val s u) us := rfl

theorem replay_append (s : κ → Option ν) (us vs : List υ) :
    replay hits val s (us ++ vs) = replay hits val (replay hits val s us) vs := List.foldl_append

/-- What a key holds after a list of writes: what the last write to it set. -/
theorem replay_apply (s : κ → Option ν) (us : List υ) (k : κ) :
    replay hits val s us k = ((lastWrite hits us k).map val).or (s k) := by
  induction us generalizing s with
  | nil => rfl
  | cons u us ih =>
    rw [replay_cons, ih, lastWrite, lastWrite, List.filter_cons, overwrite]
    by_cases hu : hits u k = true
    · simp only [hu, if_true, List.getLast?_cons, Option.map_some, Option.some_or]
      cases (us.filter fun u => hits u k).getLast? <;> rfl
    · simp only [hu]
      rfl

/-- Two lists with the same writes to each key, in the same order, leave the
same store. -/
theorem replay_congr (s : κ → Option ν) {us vs : List υ}
    (h : ∀ k, (us.filter fun u => hits u k) = vs.filter fun u => hits u k) :
    replay hits val s us = replay hits val s vs := by
  funext k
  rw [replay_apply, replay_apply, lastWrite, lastWrite, h]

/-- The last writes of two lists to each key have the same value, and a key
that only one list writes has that value already. -/
def Agree (s : κ → Option ν) (us vs : List υ) : Prop :=
  ∀ k, match lastWrite hits us k, lastWrite hits vs k with
    | some u, some v => val u = val v
    | some u, none => s k = some (val u)
    | none, some v => s k = some (val v)
    | none, none => True

/-- Two lists of writes leave the same store exactly when their last writes
agree. -/
theorem replay_eq_iff (s : κ → Option ν) (us vs : List υ) :
    replay hits val s us = replay hits val s vs ↔ Agree hits val s us vs := by
  rw [funext_iff]
  refine forall_congr' fun k => ?_
  rw [replay_apply, replay_apply]
  cases lastWrite hits us k with
  | none =>
    cases lastWrite hits vs k with
    | none => simp
    | some v => simp
  | some u =>
    cases lastWrite hits vs k with
    | none => simp [eq_comm]
    | some v => simp

end Stores

section Logs

variable {υ : Type u} {σ : Type v} (act : σ → υ → σ)

/-- The entries of a log that are not marked. -/
def kept (log : List (υ × Bool)) : List υ := (log.filter fun e => !e.2).map Prod.fst

@[simp] theorem kept_nil : kept ([] : List (υ × Bool)) = [] := rfl

theorem kept_append (l l' : List (υ × Bool)) : kept (l ++ l') = kept l ++ kept l' := by
  simp [kept]

/-- Leaving out the marked entries of a log, if each of them would change
nothing after the entries before it, changes nothing. -/
theorem foldl_kept (s : σ) (log : List (υ × Bool))
    (h : ∀ pre u post, log = pre ++ (u, true) :: post →
      act ((pre.map Prod.fst).foldl act s) u = (pre.map Prod.fst).foldl act s) :
    (kept log).foldl act s = (log.map Prod.fst).foldl act s := by
  induction log using List.reverseRecOn with
  | nil => rfl
  | append_singleton log e ih =>
    have ih := ih fun pre u post hs => h pre u (post ++ [e]) (by simp [hs])
    obtain ⟨u, b⟩ := e
    rw [kept_append, List.map_append, List.foldl_append, List.foldl_append, ih]
    cases b with
    | false => rfl
    | true => exact (h log u [] rfl).symm

/-- `foldl_kept`, if each marked entry would change nothing after the kept
entries before it. -/
theorem foldl_kept_of_kept (s : σ) (log : List (υ × Bool))
    (h : ∀ pre u post, log = pre ++ (u, true) :: post →
      act ((kept pre).foldl act s) u = (kept pre).foldl act s) :
    (kept log).foldl act s = (log.map Prod.fst).foldl act s := by
  induction log using List.reverseRecOn with
  | nil => rfl
  | append_singleton log e ih =>
    have ih := ih fun pre u post hs => h pre u (post ++ [e]) (by simp [hs])
    obtain ⟨u, b⟩ := e
    rw [kept_append, List.map_append, List.foldl_append, List.foldl_append, ← ih]
    cases b with
    | false => rfl
    | true => exact (h log u [] rfl).symm

/-- Whether the marked entries change nothing may be asked of what the kept
entries leave, or of what all entries leave. -/
theorem marked_idle_iff (s : σ) (log : List (υ × Bool)) :
    (∀ pre u post, log = pre ++ (u, true) :: post →
      act ((kept pre).foldl act s) u = (kept pre).foldl act s) ↔
    (∀ pre u post, log = pre ++ (u, true) :: post →
      act ((pre.map Prod.fst).foldl act s) u = (pre.map Prod.fst).foldl act s) := by
  constructor
  · intro h pre u post hs
    rw [← foldl_kept_of_kept act s pre fun pre' u' post' hs' =>
      h pre' u' (post' ++ (u, true) :: post) (by simp [hs, hs'])]
    exact h pre u post hs
  · intro h pre u post hs
    rw [foldl_kept act s pre fun pre' u' post' hs' =>
      h pre' u' (post' ++ (u, true) :: post) (by simp [hs, hs'])]
    exact h pre u post hs

end Logs

end Overwrite
