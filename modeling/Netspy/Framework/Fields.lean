import Mathlib.Data.List.Basic

/-!
# Joining with a separator

Lists that are joined with a separator give the same list exactly if they have
the same fields, which are what the separators cut the parts into
(`intercalate_inj`). The parts themselves are lost where a part holds a
separator; they can be told from the fields if it is known how many separators
each part holds (`eq_of_fields`).
-/

namespace Fields

variable {α : Type*} [DecidableEq α] (sep : α)

/-- What the separators cut some parts into. -/
def fields (parts : List (List α)) : List (List α) := parts.flatMap (List.splitOn sep)

theorem splitOn_intercalate_eq {parts : List (List α)} (h : parts ≠ []) :
    ([sep].intercalate parts).splitOn sep = fields sep parts := by
  induction parts with
  | nil => exact absurd rfl h
  | cons p ps ih =>
    cases ps with
    | nil => simp [fields]
    | cons q qs =>
      have htail := ih (List.cons_ne_nil q qs)
      rw [List.intercalate_cons_cons, List.append_assoc, List.singleton_append, List.splitOn_append_cons_self, htail]
      rfl

/-- Joined lists are the same exactly if their fields are. -/
theorem intercalate_inj {ps qs : List (List α)} (hp : ps ≠ []) (hq : qs ≠ []) :
    [sep].intercalate ps = [sep].intercalate qs ↔ fields sep ps = fields sep qs := by
  rw [← splitOn_intercalate_eq sep hp, ← splitOn_intercalate_eq sep hq]
  constructor
  · exact congrArg _
  · intro h
    have := congrArg (List.intercalate [sep]) h
    rwa [List.intercalate_splitOn, List.intercalate_splitOn] at this

theorem length_splitOn (xs : List α) : (xs.splitOn sep).length = xs.count sep + 1 := by
  induction xs with
  | nil => rfl
  | cons x xs ih =>
    rw [List.splitOn_cons_eq_if_modifyHead, List.count_cons]
    split_ifs with hx
    · rw [List.length_cons, ih]
    · rw [List.length_modifyHead, ih]

/-- The parts are known from their fields and from how many separators each of
them holds. -/
theorem eq_of_fields {ps qs : List (List α)} (hc : ps.map (List.count sep) = qs.map (List.count sep))
    (h : fields sep ps = fields sep qs) : ps = qs := by
  induction ps generalizing qs with
  | nil => exact (List.map_eq_nil_iff.mp hc.symm).symm
  | cons p ps ih =>
    cases qs with
    | nil => exact absurd hc (List.cons_ne_nil _ _)
    | cons q qs =>
      obtain ⟨hpq, hrest⟩ := List.cons.inj hc
      have hlen : (p.splitOn sep).length = (q.splitOn sep).length := by
        rw [length_splitOn, length_splitOn, hpq]
      obtain ⟨hhead, htail⟩ := List.append_inj h hlen
      have hp : p = q := by
        have := congrArg (List.intercalate [sep]) hhead
        rwa [List.intercalate_splitOn, List.intercalate_splitOn] at this
      rw [hp, ih hrest htail]

end Fields
