import Mathlib.Logic.Function.Basic

/-!
# Tokens that one holder has at a time

Tokens that are free, or that a holder has. `Exclusive` says that none is free
and held, and none has two holders. A step of one holder keeps this, if it gives
back only what it had and takes only what was free and is not any more
(`Exclusive.step`).
-/

structure Exclusive {α ι : Type*} (free : α → Prop) (held : ι → Option α) : Prop where
  not_free : ∀ i x, held i = some x → ¬ free x
  unique : ∀ i j x, held i = some x → held j = some x → i = j

namespace Exclusive

variable {α ι : Type*} {free free' : α → Prop} {held held' : ι → Option α}

/-- Holders that have less. -/
theorem mono (h : Exclusive free held) (hf : ∀ x, free' x → free x) (hh : ∀ i x, held' i = some x → held i = some x) :
    Exclusive free' held' where
  not_free i x hi hx := h.not_free i x (hh i x hi) (hf x hx)
  unique i j x hi hj := h.unique i j x (hh i x hi) (hh j x hj)

/-- Tokens that nobody has become free. -/
theorem add (h : Exclusive free held) (hf : ∀ x, free' x → free x ∨ ∀ i, held i ≠ some x) :
    Exclusive free' held where
  not_free i x hi hx := (hf x hx).elim (h.not_free i x hi) fun hn => hn i hi
  unique := h.unique

/-- A step of the holder `i`. -/
theorem step [DecidableEq ι] (h : Exclusive free held) {i : ι} {y : Option α}
    (hgive : ∀ x, free' x → free x ∨ held i = some x)
    (htake : ∀ x, y = some x → (free x ∨ held i = some x) ∧ ¬ free' x) :
    Exclusive free' (Function.update held i y) := by
  have hother (j : ι) (x : α) (hji : j ≠ i) (hj : held j = some x) : ¬ free x ∧ held i ≠ some x :=
    ⟨h.not_free j x hj, fun hi => hji (h.unique j i x hj hi)⟩
  constructor
  · intro j x hj hx
    by_cases hji : j = i
    · rw [hji, Function.update_self] at hj
      exact (htake x hj).2 hx
    · rw [Function.update_of_ne hji] at hj
      have hno := hother j x hji hj
      exact (hgive x hx).elim hno.1 hno.2
  · intro j k x hj hk
    by_cases hji : j = i
    · by_cases hki : k = i
      · rw [hji, hki]
      · rw [hji, Function.update_self] at hj
        rw [Function.update_of_ne hki] at hk
        have hno := hother k x hki hk
        exact absurd (htake x hj).1 (not_or.mpr hno)
    · rw [Function.update_of_ne hji] at hj
      by_cases hki : k = i
      · rw [hki, Function.update_self] at hk
        have hno := hother j x hji hj
        exact absurd (htake x hk).1 (not_or.mpr hno)
      · rw [Function.update_of_ne hki] at hk
        exact h.unique j k x hj hk

end Exclusive
