import Netspy.Framework.Json.Lines
import Netspy.Framework.Json.Torn

/-!
# What is left of a file of values

A value that is not on one line comes apart into pieces that begin or end
inside a string. From these nothing is read that has a character in its strings
which no value has outside of them: the values with such a character that are
read from a file are those that are on one line (`filter_readLines`).
-/

namespace Json

open Lines

/-- No string of the value has a separator. -/
def oneLine (v : Json) : Bool := (chars v).all fun c => !isSeparator c

theorem oneLine_iff {v : Json} : v.oneLine = true ↔ ∀ c ∈ chars v, isSeparator c = false := by
  simp [oneLine]

/-- A separator stands only in strings, and is no part of an escape. -/
theorem separator_cuts {c : Char} (h : isSeparator c = true) :
    (isPlain c = false ∧ isEscape c = false) ∧ c ≠ '"' ∧ c ≠ '\\' ∧ c ≠ '\r' := by
  simp only [isSeparator, Bool.or_eq_true, decide_eq_true_eq] at h
  rcases h with (rfl | rfl) | rfl <;> decide

/-- The lines of a text that ends outside its strings: one, or pieces. -/
theorem splitlines_mode (n : Nat) : ∀ {cs : List Char} (_ : cs.length ≤ n) {m : Mode} (_ : m ≠ .escape)
    (_ : modeAfter m cs = some .outside) (_ : ∀ c ∈ cs, isLineBreak c = true → isSeparator c = true)
    (rest : List Char), ∃ ps, splitlines (cs ++ '\n' :: rest) = ps ++ splitlines rest ∧
      ((∀ c ∈ cs, isLineBreak c = false) ∧ ps = [cs] ∨ ∀ p ∈ ps, Torn p) := by
  induction n with
  | zero =>
    intro cs hn m _ _ _ rest
    cases List.length_eq_zero_iff.mp (Nat.le_zero.mp hn)
    exact ⟨[[]], splitlines_line (by simp) (by decide) (by decide) rest, .inl ⟨by simp, rfl⟩⟩
  | succ n ih =>
    intro cs hn m hm hmode hs rest
    cases hf : cs.find? isLineBreak with
    | none =>
      have hno : ∀ c ∈ cs, isLineBreak c = false := fun c hc => by simpa using List.find?_eq_none.mp hf c hc
      exact ⟨[cs], splitlines_line hno (by decide) (by decide) rest, .inl ⟨hno, rfl⟩⟩
    | some c =>
      -- the piece up to the first separator, and the pieces of the rest
      obtain ⟨hc, xs, ys, rfl, hx⟩ := List.find?_eq_some_iff_append.mp hf
      obtain ⟨⟨hp, he⟩, hq, hb, hr⟩ := separator_cuts (hs c (by simp) hc)
      obtain ⟨hxs, hys⟩ := modeAfter_cut hp he hq hb hmode
      have hlen : ys.length ≤ n := by
        rw [List.length_append, List.length_cons] at hn
        omega
      obtain ⟨ps, hps, hor⟩ := ih hlen (by decide) hys (fun d hd => hs d (by simp [hd])) rest
      refine ⟨xs :: ps, ?_, .inr (List.forall_mem_cons.mpr ⟨?_, ?_⟩)⟩
      · rw [List.append_assoc, List.cons_append, splitlines_line (fun d hd => by simpa using hx d hd) hc hr, hps,
          List.cons_append]
      · cases m with
        | outside => exact .inl hxs
        | inside => exact .inr ⟨_, hxs⟩
        | escape => exact absurd rfl hm
      · rcases hor with ⟨-, rfl⟩ | hor
        · exact List.forall_mem_singleton.mpr (.inr ⟨_, hys⟩)
        · exact hor

/-- The lines that a written value makes. -/
theorem splitlines_render {v : Json} (h : v.WF) (rest : List Char) :
    ∃ ps, splitlines (render v ++ '\n' :: rest) = ps ++ splitlines rest ∧
      (v.oneLine = true ∧ ps = [render v] ∨ v.oneLine = false ∧ ∀ p ∈ ps, Torn p) := by
  cases ho : v.oneLine with
  | true =>
    have hl := (render_oneLine_iff h).mpr (oneLine_iff.mp ho)
    exact ⟨[render v], splitlines_line hl (by decide) (by decide) rest, .inl ⟨rfl, rfl⟩⟩
  | false =>
    have hs : ∀ c ∈ render v, isLineBreak c = true → isSeparator c = true :=
      fun c hc hb => (isSeparator_of_lineBreak hb (mem_render v h hc).1).1
    obtain ⟨ps, hps, hor⟩ := splitlines_mode _ le_rfl (by decide) (modeAfter_render v h) hs rest
    refine ⟨ps, hps, .inr ⟨rfl, hor.resolve_left fun hl => ?_⟩⟩
    rw [oneLine_iff.mpr ((render_oneLine_iff h).mp hl.1)] at ho
    cases ho

/-- Of the values that have a character which no value has outside its
strings, those on one line are read, and no others. -/
theorem filter_readLines {accept p : Json → Bool} (hp : ∀ v, p v = true → ∃ c ∈ chars v, isPlain c = false)
    {vs : List Json} (h : ∀ v ∈ vs, v.WF) :
    (readLines accept (linesOf vs)).filter p = vs.filter fun v => v.oneLine && (accept v && p v) := by
  rw [readLines, universalNewlines_linesOf h]
  induction vs with
  | nil => rfl
  | cons v vs ih =>
    have hv := h v List.mem_cons_self
    have ih := ih fun w hw => h w (List.mem_cons_of_mem _ hw)
    obtain ⟨ps, hps, hor⟩ := splitlines_render hv (linesOf vs)
    have hl : linesOf (v :: vs) = render v ++ '\n' :: linesOf vs := by
      rw [linesOf, List.flatMap_cons, List.append_assoc]
      rfl
    rw [hl, hps, List.filterMap_append, List.filter_append, ih, List.filter_cons]
    rcases hor with ⟨ho, rfl⟩ | ⟨ho, ht⟩
    · rw [List.filterMap_cons, List.filterMap_nil, readLine_render hv, ho, Bool.true_and]
      cases accept v <;> cases hpv : p v <;> simp [hpv]
    · have hnone : (ps.filterMap (readLine accept)).filter p = [] := by
        rw [List.filter_eq_nil_iff]
        intro w hw hpw
        obtain ⟨line, hline, hr⟩ := List.mem_filterMap.mp hw
        rw [readLine] at hr
        split_ifs at hr
        obtain ⟨c, hc, hn⟩ := hp w hpw
        have := plain_of_torn (ht line hline) (Option.filter_eq_some_iff.mp hr).1 c hc
        rw [hn] at this
        cases this
      rw [hnone, ho, Bool.false_and, if_neg Bool.false_ne_true, List.nil_append]

end Json
