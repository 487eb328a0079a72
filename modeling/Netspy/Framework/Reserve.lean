import Mathlib.Algebra.BigOperators.Group.List.Basic
import Mathlib.Algebra.Order.Group.Lattice
import Mathlib.Algebra.Order.Group.MinMax

/-!
# Reservations in one number

A resource that is used by one at a time, and the first moment at which it is
free. To reserve it is to move that moment: from now on, or from when it is free,
by the time for which it is wanted. Reservations add up: the resource is free
when, counted from each of them on, all have had their time (`after_le_iff`).
-/

namespace Reserve

variable {T : Type*} [AddCommGroup T]

/-- The time of some reservations together, each with its moment. -/
def total (xs : List (T × T)) : T := (xs.map Prod.snd).sum

@[simp] theorem total_nil : total ([] : List (T × T)) = 0 := rfl

@[simp] theorem total_cons (x : T × T) (xs : List (T × T)) : total (x :: xs) = x.2 + total xs := List.sum_cons

theorem total_append (xs ys : List (T × T)) : total (xs ++ ys) = total xs + total ys := by
  unfold total
  rw [List.map_append, List.sum_append]

variable [LinearOrder T]

/-- The moment from which the resource is free, once it is wanted for `d` at `now`. -/
def next (free now d : T) : T := max now free + d

/-- The same after several reservations, the last first. -/
def after (free : T) : List (T × T) → T
  | [] => free
  | x :: xs => next (after free xs) x.1 x.2

variable [IsOrderedAddMonoid T]

theorem next_le_iff {free now d b : T} : next free now d ≤ b ↔ now + d ≤ b ∧ free + d ≤ b := by
  rw [next, ← max_add_add_right, max_le_iff]

theorem le_next {d : T} (hd : 0 ≤ d) (free now : T) : now ≤ next free now d ∧ free ≤ next free now d := by
  unfold next
  exact ⟨(le_max_left now free).trans (le_add_of_nonneg_right hd), (le_max_right now free).trans (le_add_of_nonneg_right hd)⟩

/-- The resource is free at `b` exactly if the reservations from each of them on
have had their time by then, and so has what was there before. -/
theorem after_le_iff {free b : T} {xs : List (T × T)} :
    after free xs ≤ b ↔
      free + total xs ≤ b ∧ ∀ later x earlier, xs = later ++ x :: earlier → x.1 + (total later + x.2) ≤ b := by
  induction xs generalizing b with
  | nil => simp [after]
  | cons y ys ih =>
    rw [after, next_le_iff, ← le_sub_iff_add_le (b := y.2) (a := after free ys), ih, total_cons]
    constructor
    · rintro ⟨hnow, hfree, hold⟩
      refine ⟨?_, fun later x earlier he => ?_⟩
      · rw [add_comm y.2, ← add_assoc]
        exact le_sub_iff_add_le.mp hfree
      · cases later with
        | nil =>
          cases he
          rw [total_nil, zero_add]
          exact hnow
        | cons z later =>
          cases he
          have hle := le_sub_iff_add_le.mp (hold later x earlier rfl)
          rw [total_cons, add_assoc y.2, add_comm y.2, ← add_assoc]
          exact hle
    · rintro ⟨hfree, hall⟩
      refine ⟨?_, ?_, fun later x earlier he => ?_⟩
      · have hle := hall [] y ys rfl
        rwa [total_nil, zero_add] at hle
      · rw [le_sub_iff_add_le, add_assoc, add_comm (total ys)]
        exact hfree
      · have hle := hall (y :: later) x earlier (by rw [he]; rfl)
        rw [le_sub_iff_add_le, add_assoc, add_comm _ y.2, ← add_assoc y.2, ← total_cons]
        exact hle

/-- The same where it was free before all of that. -/
theorem after_le_iff_of_le {free b : T} {xs : List (T × T)} (hb : free ≤ b) (hxs : ∀ x ∈ xs, free ≤ x.1) :
    after free xs ≤ b ↔ ∀ later x earlier, xs = later ++ x :: earlier → x.1 + (total later + x.2) ≤ b := by
  rw [after_le_iff]
  refine and_iff_right_of_imp fun hall => ?_
  rcases List.eq_nil_or_concat xs with rfl | ⟨later, x, rfl⟩
  · rw [total_nil, add_zero]
    exact hb
  · rw [List.concat_eq_append, total_append, total_cons, total_nil, add_zero]
    refine (add_le_add_left (hxs x ?_) _).trans (hall later x [] List.concat_eq_append)
    rw [List.concat_eq_append]
    exact List.mem_append_right later List.mem_cons_self

end Reserve
