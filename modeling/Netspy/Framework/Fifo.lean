import Mathlib.Tactic.Common

/-!
# What is ahead in a queue

Entries are added at the end of a queue and taken from its front. `Ahead x y q` says that
in `q` an `x` stands before every `y`, so that `x` is taken first. It is kept while `x` is
in the queue; where `y` is the next entry, it cannot be.
-/

universe u

namespace Fifo

variable {α : Type u} {x y z : α} {q zs : List α}

def Ahead (x y : α) (q : List α) : Prop := ∀ front back, q = front ++ y :: back → x ∈ front

theorem Ahead.of_not_mem (h : y ∉ q) : Ahead x y q := by
  rintro front back rfl
  exact absurd (List.mem_append_right front List.mem_cons_self) h

/-- Entries that are added, while `x` is there. -/
theorem Ahead.append (h : Ahead x y q) (zs : List α) (hx : x ∈ q) : Ahead x y (q ++ zs) := by
  intro front back he
  rcases List.append_eq_append_iff.mp he with ⟨mid, rfl, -⟩ | ⟨mid, rfl, hzs⟩
  · exact List.mem_append_left mid hx
  · cases mid with
    | nil => rwa [List.append_nil] at hx
    | cons z mid =>
      cases hzs
      exact h front mid rfl

/-- The next entry is taken. -/
theorem Ahead.tail (h : Ahead x y (z :: q)) (hz : z ≠ x) : Ahead x y q := by
  rintro front back rfl
  rcases List.mem_cons.mp (h (z :: front) back rfl) with rfl | hx
  · exact absurd rfl hz
  · exact hx

/-- The next entry, if one is taken, is another one than `x`, and some are added. -/
theorem Ahead.next {rest : List α} (h : Ahead x y q) (hx : x ∈ q) (hq : q = rest ∨ ∃ z, q = z :: rest ∧ z ≠ x) :
    Ahead x y (rest ++ zs) := by
  rcases hq with rfl | ⟨z, rfl, hz⟩
  · exact h.append zs hx
  · rcases List.mem_cons.mp hx with rfl | hx
    · exact absurd rfl hz
    · exact (h.tail hz).append zs hx

theorem Ahead.head (h : Ahead x y (y :: q)) : False := absurd (h [] q rfl) List.not_mem_nil

end Fifo
