import Mathlib.Data.List.Basic

/-!
# Lines as Python splits a text into them

`splitlines` is `str.splitlines`, which ends a line at any of ten characters,
not only at a newline. The lines are the text without these
(`flatten_splitlines`), and a line that has none of them is split off as it is
(`splitlines_line`).
-/

namespace Lines

def isLineBreak (c : Char) : Bool :=
  c = '\n' || c = '\r' || c = '\x0b' || c = '\x0c' || c = '\x1c' || c = '\x1d' || c = '\x1e' || c = '\u0085' ||
    c = '\u2028' || c = '\u2029'

def consHead (c : Char) : List (List Char) → List (List Char)
  | [] => [[c]]
  | line :: lines => (c :: line) :: lines

def splitlines : List Char → List (List Char)
  | [] => []
  | '\r' :: '\n' :: cs => [] :: splitlines cs
  | c :: cs => if isLineBreak c then [] :: splitlines cs else consHead c (splitlines cs)

/-- What reading in text mode makes of line ends. -/
def universalNewlines : List Char → List Char
  | [] => []
  | '\r' :: '\n' :: cs => '\n' :: universalNewlines cs
  | c :: cs => (if c = '\r' then '\n' else c) :: universalNewlines cs

/-- `str.isspace` of a character. -/
def isSpace (c : Char) : Bool :=
  let n := c.toNat
  (9 ≤ n && n ≤ 13) || (28 ≤ n && n ≤ 32) || n = 0x85 || n = 0xa0 || n = 0x1680 || (0x2000 ≤ n && n ≤ 0x200a) ||
    n = 0x2028 || n = 0x2029 || n = 0x202f || n = 0x205f || n = 0x3000

/-- `not line.strip()`. -/
def isBlank (line : List Char) : Bool := line.all isSpace

@[simp] theorem flatten_consHead (c : Char) (lines : List (List Char)) :
    (consHead c lines).flatten = c :: lines.flatten := by
  cases lines <;> rfl

/-- The lines are the text without its line breaks. -/
theorem flatten_splitlines (cs : List Char) :
    (splitlines cs).flatten = cs.filter fun c => !isLineBreak c := by
  fun_induction splitlines cs with
  | case1 => rfl
  | case2 cs ih => exact ih
  | case3 c cs _ hc ih => rw [List.filter_cons_of_neg (by simp [hc]), List.flatten_cons, List.nil_append, ih]
  | case4 c cs _ hc ih => rw [List.filter_cons_of_pos (by simp [hc]), flatten_consHead, ih]

theorem splitlines_crlf (cs : List Char) : splitlines ('\r' :: '\n' :: cs) = [] :: splitlines cs := rfl

/-- A carriage return that no newline follows is a line end by itself. -/
theorem splitlines_cons_of {c : Char} {cs : List Char} (h : c = '\r' → cs.head? ≠ some '\n') :
    splitlines (c :: cs) = if isLineBreak c then [] :: splitlines cs else consHead c (splitlines cs) := by
  -- the equations of `splitlines` would compare characters by their codes
  rw [splitlines.eq_def]
  split
  · rename_i heq
    cases heq
  · rename_i cs' heq
    obtain ⟨rfl, rfl⟩ := List.cons.inj heq
    exact absurd rfl (h rfl)
  · rename_i heq
    obtain ⟨rfl, rfl⟩ := List.cons.inj heq
    rfl

theorem splitlines_cons {c : Char} (hc : isLineBreak c = false) (cs : List Char) :
    splitlines (c :: cs) = consHead c (splitlines cs) := by
  have hr : c ≠ '\r' := fun e => absurd hc (by rw [e]; decide)
  rw [splitlines_cons_of fun e => absurd e hr, hc, if_neg Bool.false_ne_true]

/-- A line that has no line break is split off at the one that ends it. -/
theorem splitlines_line {line : List Char} (h : ∀ c ∈ line, isLineBreak c = false) {c : Char}
    (hc : isLineBreak c = true) (hr : c ≠ '\r') (rest : List Char) :
    splitlines (line ++ c :: rest) = line :: splitlines rest := by
  induction line with
  | nil => rw [List.nil_append, splitlines_cons_of fun e => absurd e hr, if_pos hc]
  | cons x line ih =>
    rw [List.cons_append, splitlines_cons (h x List.mem_cons_self), ih fun y hy => h y (List.mem_cons_of_mem _ hy)]
    rfl

theorem consHead_append (c : Char) {xs : List (List Char)} (h : xs ≠ []) (ys : List (List Char)) :
    consHead c (xs ++ ys) = consHead c xs ++ ys := by
  cases xs with
  | nil => exact absurd rfl h
  | cons x xs => rfl

theorem splitlines_ne_nil {cs : List Char} (h : cs ≠ []) : splitlines cs ≠ [] := by
  fun_cases splitlines cs with
  | case1 => exact absurd rfl h
  | case2 cs => exact List.cons_ne_nil _ _
  | case3 c cs hr hc => exact List.cons_ne_nil _ _
  | case4 c cs hr hc => cases splitlines cs <;> exact List.cons_ne_nil _ _

/-- What follows begins a line: there is no text yet, or it ends one. A carriage
return may go on with a newline. -/
def endsLine (cs : List Char) : Bool :=
  match cs.getLast? with
  | none => true
  | some b => isLineBreak b && b != '\r'

theorem endsLine_cons {c : Char} {cs : List Char} (h : endsLine (c :: cs) = true) :
    (cs = [] ∧ isLineBreak c = true ∧ c ≠ '\r') ∨ (cs ≠ [] ∧ endsLine cs = true) := by
  cases cs with
  | nil => exact .inl ⟨rfl, by simpa [endsLine] using h⟩
  | cons d cs =>
    refine .inr ⟨List.cons_ne_nil _ _, ?_⟩
    unfold endsLine at h ⊢
    rwa [List.getLast?_cons_cons] at h

theorem splitlines_append {xs : List Char} (h : endsLine xs = true) (ys : List Char) :
    splitlines (xs ++ ys) = splitlines xs ++ splitlines ys := by
  fun_induction splitlines xs with
  | case1 => rfl
  | case2 cs ih =>
    have hcs : endsLine cs = true := by
      rcases endsLine_cons h with ⟨he, -, -⟩ | ⟨-, h⟩
      · exact absurd he (List.cons_ne_nil _ _)
      · rcases endsLine_cons h with ⟨rfl, -, -⟩ | ⟨-, h⟩
        · rfl
        · exact h
    rw [List.cons_append, List.cons_append, splitlines_crlf, ih hcs, List.cons_append]
  | case3 c cs hrn hc ih =>
    rcases endsLine_cons h with ⟨rfl, -, hr⟩ | ⟨hne, hcs⟩
    · rw [List.cons_append, splitlines_cons_of fun e => absurd e hr, if_pos hc]
      rfl
    · have hnot : c = '\r' → (cs ++ ys).head? ≠ some '\n' := by
        intro hcr hh
        cases cs with
        | nil => exact hne rfl
        | cons d cs => exact hrn cs hcr (by rw [Option.some.inj hh])
      rw [List.cons_append, splitlines_cons_of hnot, if_pos hc, ih hcs, List.cons_append]
  | case4 c cs hrn hc ih =>
    rcases endsLine_cons h with ⟨rfl, hb, -⟩ | ⟨hne, hcs⟩
    · exact absurd hb hc
    · have hr : c ≠ '\r' := fun e => hc (by rw [e]; decide)
      rw [List.cons_append, splitlines_cons_of fun e => absurd e hr, if_neg hc, ih hcs,
        consHead_append _ (splitlines_ne_nil hne)]

theorem universalNewlines_eq_self {cs : List Char} (h : '\r' ∉ cs) : universalNewlines cs = cs := by
  induction cs with
  | nil => rfl
  | cons c cs ih =>
    rw [List.mem_cons, not_or] at h
    have hc : c ≠ '\r' := Ne.symm h.1
    simp [universalNewlines, hc, ih h.2]

theorem isBlank_cons {c : Char} (h : isSpace c = false) (line : List Char) : isBlank (c :: line) = false := by
  rw [isBlank, List.all_cons, h, Bool.false_and]

end Lines
