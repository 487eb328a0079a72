import Mathlib.Data.List.Basic

/-!
# Loops that another thread stops

A loop takes one turn after the other. What a turn meets (whether it is told
to stop, what its calls return or raise) is its input; the turn goes on to the
next one, returns, or lets an exception end the loop.

A loop `Survives` its inputs if no exception ends it, it returns only where it
may, it comes to every turn before that, and each of these does its work.
`survives_iff` gives this from what is known of one turn: which inputs raise
(the others are `safe`), where it returns and what it does.
-/

inductive Turned (ε σ : Type*) where
  | again (s : σ)
  | returned (s : σ)
  | raised (e : ε) (s : σ)

abbrev Loop (τ ε σ : Type*) := τ → σ → Turned ε σ

namespace Loop

variable {τ ε σ : Type*} (L : Loop τ ε σ)

def run : List τ → σ → Turned ε σ
  | [], s => .again s
  | x :: xs, s =>
    match L x s with
    | .again t => run xs t
    | .returned t => .returned t
    | .raised e t => .raised e t

/-- The loop comes to the turn with the input `x`, in the state `u`. -/
inductive Comes : List τ → σ → τ → σ → Prop
  | here {x : τ} {xs : List τ} {s : σ} : Comes (x :: xs) s x s
  | later {x y : τ} {xs : List τ} {s t u : σ} : L x s = .again t → Comes xs t y u → Comes (x :: xs) s y u

/-- `mayReturn` is where the loop may return, `works` what a turn that goes on
has done. -/
structure Survives (mayReturn : τ → σ → Prop) (works : τ → σ → σ → Prop) (xs : List τ) (s : σ) :
    Prop where
  notRaised : ∀ e t, L.run xs s ≠ .raised e t
  returns : ∀ t, L.run xs s = .returned t → ∃ x u, L.Comes xs s x u ∧ mayReturn x u
  goesOn : ∀ pre x post, xs = pre ++ x :: post → (∀ y u, L.Comes pre s y u → ¬ mayReturn y u) →
    ∃ u, L.Comes xs s x u
  doesWork : ∀ x u t, L.Comes xs s x u → L x u = .again t → works x u t

variable {L} {I : σ → Prop} {safe mayReturn : τ → σ → Prop} {works : τ → σ → σ → Prop}

/-- What every turn preserves holds at every turn. -/
theorem Comes.induct (hI : ∀ x s t, I s → L x s = .again t → I t) {xs : List τ} {s u : σ} {x : τ}
    (h : L.Comes xs s x u) (hs : I s) : I u := by
  induction h with
  | here => exact hs
  | later ht _ ih => exact ih (hI _ _ _ hs ht)

/-- A run that is ended by an exception came to a turn that raised. -/
theorem exists_of_raised {xs : List τ} {s t : σ} {e : ε} (h : L.run xs s = .raised e t) :
    ∃ x u, L.Comes xs s x u ∧ L x u = .raised e t := by
  induction xs generalizing s with
  | nil => cases h
  | cons x xs ih =>
    rw [run] at h
    split at h
    · rename_i s' hs
      obtain ⟨y, u, hc, hu⟩ := ih h
      exact ⟨y, u, .later hs hc, hu⟩
    · cases h
    · rename_i hs
      exact ⟨x, s, .here, hs.trans h⟩

theorem exists_of_returned {xs : List τ} {s t : σ} (h : L.run xs s = .returned t) :
    ∃ x u, L.Comes xs s x u ∧ L x u = .returned t := by
  induction xs generalizing s with
  | nil => cases h
  | cons x xs ih =>
    rw [run] at h
    split at h
    · rename_i s' hs
      obtain ⟨y, u, hc, hu⟩ := ih h
      exact ⟨y, u, .later hs hc, hu⟩
    · rename_i hs
      exact ⟨x, s, .here, hs.trans h⟩
    · cases h

theorem Comes.run_raised {xs : List τ} {s t u : σ} {x : τ} {e : ε} (h : L.Comes xs s x u)
    (hx : L x u = .raised e t) : L.run xs s = .raised e t := by
  induction h with
  | here => rw [run, hx]
  | later ht _ ih =>
    rw [run, ht]
    exact ih hx

/-- A turn is come to unless an earlier one returned or raised. -/
theorem comes_of_append {pre post : List τ} {x : τ} {s : σ}
    (h : ∀ y u, L.Comes pre s y u → ∃ t, L y u = .again t) : ∃ u, L.Comes (pre ++ x :: post) s x u := by
  induction pre generalizing s with
  | nil => exact ⟨s, .here⟩
  | cons y pre ih =>
    obtain ⟨t, ht⟩ := h y s .here
    obtain ⟨u, hu⟩ := ih (fun z v hz => h z v (.later ht hz))
    exact ⟨u, .later ht hu⟩

theorem Comes.append {pre post : List τ} {x : τ} {s u : σ} (h : L.Comes pre s x u) :
    L.Comes (pre ++ post) s x u := by
  induction h with
  | here => exact .here
  | later ht _ ih => exact .later ht ih

theorem survives_iff (hI : ∀ x s t, I s → L x s = .again t → I t)
    (hsafe : ∀ x s, (∃ e t, L x s = .raised e t) ↔ ¬ safe x s)
    (hret : ∀ x s t, I s → L x s = .returned t → mayReturn x s)
    (hwork : ∀ x s t, L x s = .again t → works x s t) {xs : List τ} {s : σ} (hs : I s) :
    L.Survives mayReturn works xs s ↔ ∀ x u, L.Comes xs s x u → safe x u := by
  constructor
  · intro h x u hc
    by_contra hn
    obtain ⟨e, t, ht⟩ := (hsafe x u).mpr hn
    exact h.notRaised e t (hc.run_raised ht)
  · intro h
    have hr : ∀ x u, L.Comes xs s x u → ∀ e t, L x u ≠ .raised e t := fun x u hc e t he =>
      (hsafe x u).mp ⟨e, t, he⟩ (h x u hc)
    refine ⟨fun e t he => ?_, fun t ht => ?_, fun pre x post hxs hpre => ?_, fun x u t _ => hwork x u t⟩
    · obtain ⟨x, u, hc, hu⟩ := exists_of_raised he
      exact hr x u hc e t hu
    · obtain ⟨x, u, hc, hu⟩ := exists_of_returned ht
      exact ⟨x, u, hc, hret x u t (hc.induct hI hs) hu⟩
    · subst hxs
      refine comes_of_append fun y u hc => ?_
      -- the turn did not return, or it would have been allowed to, and did not raise
      rcases hy : L y u with t | t | ⟨e, t⟩
      · exact ⟨t, rfl⟩
      · exact absurd (hret y u t (hc.induct hI hs) hy) (hpre y u hc)
      · exact absurd hy (hr y u hc.append e t)

end Loop
