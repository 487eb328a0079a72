import Netspy.Framework.Json.Chars
import Netspy.Framework.Json.Weight
import Netspy.Framework.Lines

/-!
# Values one to a line

A file of values, each written on a line of its own, and read by
`splitlines`. It is read back as it was written exactly if no string holds one
of the three characters that end a line for `splitlines` and are not escaped
(`readLines_iff`): a value that has one comes apart, and then the values read
weigh less than the values written.
-/

namespace Json

open Lines

/-- The characters that end a line for `splitlines` and are written as they
are. -/
def isSeparator (c : Char) : Bool := c = '\u0085' || c = '\u2028' || c = '\u2029'

def linesOf (vs : List Json) : List Char := vs.flatMap fun v => render v ++ ['\n']

theorem linesOf_append (xs ys : List Json) : linesOf (xs ++ ys) = linesOf xs ++ linesOf ys :=
  List.flatMap_append

/-- What some appends leave in a file. -/
theorem foldl_linesOf {α : Type} (f : α → List Json) (xs : List α) (vs : List Json) :
    xs.foldl (fun file x => file ++ linesOf (f x)) (linesOf vs) = linesOf (vs ++ xs.flatMap f) := by
  induction xs generalizing vs with
  | nil => rw [List.flatMap_nil, List.append_nil, List.foldl_nil]
  | cons x xs ih => rw [List.foldl_cons, ← linesOf_append, ih, List.flatMap_cons, List.append_assoc]

/-- One line, if it is not blank and `accept` takes what it holds. -/
def readLine (accept : Json → Bool) (line : List Char) : Option Json :=
  if isBlank line then none else (loads (String.ofList line)).filter accept

def readLines (accept : Json → Bool) (text : List Char) : List Json :=
  (splitlines (universalNewlines text)).filterMap (readLine accept)

theorem isLineBreak_of_separator {c : Char} (h : isSeparator c = true) :
    isLineBreak c = true ∧ 0x80 ≤ c.toNat := by
  simp only [isSeparator, Bool.or_eq_true, decide_eq_true_eq] at h
  rcases h with (rfl | rfl) | rfl <;> decide

theorem isSeparator_of_lineBreak {c : Char} (h : isLineBreak c = true) (hc : 0x20 ≤ c.toNat) :
    isSeparator c = true ∧ 0x80 ≤ c.toNat := by
  simp only [isLineBreak, Bool.or_eq_true, decide_eq_true_eq] at h
  rcases h with ((((((((rfl | rfl) | rfl) | rfl) | rfl) | rfl) | rfl) | rfl) | rfl) | rfl
  all_goals first | (exact absurd hc (by decide)) | decide

/-- A written value is on one line exactly if its strings have no separator. -/
theorem render_oneLine_iff {v : Json} (h : v.WF) :
    (∀ c ∈ render v, isLineBreak c = false) ↔ ∀ c ∈ chars v, isSeparator c = false := by
  constructor
  · intro hr c hc
    by_contra hs
    obtain ⟨hb, hn⟩ := isLineBreak_of_separator (Bool.not_eq_false _ ▸ hs)
    exact absurd (hr c (mem_render_of_chars v hc hn)) (by rw [hb]; decide)
  · intro hs c hc
    by_contra hb
    obtain ⟨h20, hm⟩ := mem_render v h hc
    obtain ⟨hsep, h80⟩ := isSeparator_of_lineBreak (Bool.not_eq_false _ ▸ hb) h20
    rcases hm with hm | hm
    · omega
    · exact absurd (hs c hm) (by rw [hsep]; decide)

theorem isSpace_head {c : Char} (h : IsHead c) : isSpace c = false := by
  have h1 := h.1
  simp only [isSpace, Bool.or_eq_false_iff, Bool.and_eq_false_iff, decide_eq_false_iff_not]
  omega

theorem isBlank_render {v : Json} (h : v.WF) : isBlank (render v) = false := by
  obtain ⟨c, cs, hc, hh⟩ := render_head h
  rw [hc]
  exact isBlank_cons (isSpace_head hh) cs

theorem readLine_render {accept : Json → Bool} {v : Json} (h : v.WF) :
    readLine accept (render v) = if accept v then some v else none := by
  have hl := loads_dumps h
  rw [dumps] at hl
  rw [readLine, isBlank_render h, if_neg Bool.false_ne_true, hl]
  cases ha : accept v <;> simp [ha]

theorem weight_readLine {accept : Json → Bool} {line : List Char} {v : Json} (h : readLine accept line = some v) :
    weight (render v) ≤ weight line ∧ accept v = true := by
  rw [readLine] at h
  split_ifs at h
  obtain ⟨hl, ha⟩ := Option.filter_eq_some_iff.mp h
  have := weight_loads hl
  rw [String.toList_ofList] at this
  exact ⟨this, ha⟩

/-! ## What the lines weigh -/

def totalWeight (vs : List Json) : Nat := (vs.map fun v => weight (render v)).sum

theorem weight_flatten (lines : List (List Char)) : (lines.map weight).sum = weight lines.flatten :=
  List.countP_flatten.symm

/-- What is read from some lines weighs no more than they do. -/
theorem totalWeight_read (accept : Json → Bool) (lines : List (List Char)) :
    totalWeight (lines.filterMap (readLine accept)) ≤ (lines.map weight).sum := by
  induction lines with
  | nil => exact le_rfl
  | cons line lines ih =>
    rw [List.map_cons, List.sum_cons]
    rcases hr : readLine accept line with _ | v
    · rw [List.filterMap_cons_none hr]
      omega
    · have hw := (weight_readLine hr).1
      rw [List.filterMap_cons_some hr]
      simp only [totalWeight, List.map_cons, List.sum_cons] at ih ⊢
      omega

/-- Without its line breaks a text weighs less, if it has any. -/
theorem weight_filter (cs : List Char) :
    weight (cs.filter fun c => !isLineBreak c) ≤ weight cs ∧
      (weight cs ≤ weight (cs.filter fun c => !isLineBreak c) → ∀ c ∈ cs, isLineBreak c = false) := by
  induction cs with
  | nil => exact ⟨le_rfl, fun _ _ hc => absurd hc List.not_mem_nil⟩
  | cons c cs ih =>
    cases hb : isLineBreak c with
    | false =>
      rw [List.filter_cons_of_pos (by rw [hb]; rfl)]
      have h1 : ∀ ds, weight (c :: ds) = weight [c] + weight ds := fun ds => weight_append [c] ds
      rw [h1 (cs.filter _), h1 cs]
      refine ⟨by omega, fun h => List.forall_mem_cons.mpr ⟨hb, ih.2 (by omega)⟩⟩
    | true =>
      have hc : counted c = true := by
        by_contra hc
        simp only [counted, Bool.and_eq_true, decide_eq_true_eq, not_and_or, not_not] at hc
        rcases hc with rfl | rfl <;> exact absurd hb (by decide)
      rw [List.filter_cons_of_neg (by rw [hb]; decide), weight_cons_of_counted hc]
      exact ⟨by omega, fun h => by omega⟩

/-- The weight of the lines of a written file. -/
def splitWeight (vs : List Json) : Nat := (vs.map fun v => weight ((render v).filter fun c => !isLineBreak c)).sum

theorem weight_splitlines (vs : List Json) : ((splitlines (linesOf vs)).map weight).sum = splitWeight vs := by
  rw [weight_flatten, flatten_splitlines]
  induction vs with
  | nil => rfl
  | cons v vs ih =>
    rw [linesOf, List.flatMap_cons, List.filter_append, List.filter_append, weight_append, weight_append]
    simp only [splitWeight, List.map_cons, List.sum_cons] at ih ⊢
    rw [← ih]
    rfl

/-- If the lines weigh as much as what was written, no value came apart. -/
theorem oneLine_of_weight {vs : List Json} (h : totalWeight vs ≤ splitWeight vs) :
    ∀ v ∈ vs, ∀ c ∈ render v, isLineBreak c = false := by
  have hle : ∀ vs : List Json, splitWeight vs ≤ totalWeight vs := by
    intro vs
    induction vs with
    | nil => exact le_rfl
    | cons v vs ih => exact Nat.add_le_add (weight_filter (render v)).1 ih
  induction vs with
  | nil => exact fun _ hv => absurd hv List.not_mem_nil
  | cons v vs ih =>
    have h1 := (weight_filter (render v)).1
    have h2 := hle vs
    have h3 : weight (render v) + totalWeight vs ≤
        weight ((render v).filter fun c => !isLineBreak c) + splitWeight vs := h
    exact List.forall_mem_cons.mpr ⟨(weight_filter (render v)).2 (by omega), ih (by omega)⟩

/-! ## Reading back -/

theorem universalNewlines_linesOf {vs : List Json} (h : ∀ v ∈ vs, v.WF) :
    universalNewlines (linesOf vs) = linesOf vs := by
  refine universalNewlines_eq_self fun hr => ?_
  obtain ⟨v, hv, hc⟩ := List.mem_flatMap.mp hr
  rcases List.mem_append.mp hc with hc | hc
  · exact absurd (mem_render v (h v hv) hc).1 (by decide)
  · exact absurd (List.mem_singleton.mp hc) (by decide)

/-- What is read from two texts, the first of which ends its last line. -/
theorem readLines_append {accept : Json → Bool} {xs ys : List Char} (hx : '\r' ∉ xs) (hy : '\r' ∉ ys)
    (h : endsLine xs = true) : readLines accept (xs ++ ys) = readLines accept xs ++ readLines accept ys := by
  have hxy : '\r' ∉ xs ++ ys := fun hm => (List.mem_append.mp hm).elim hx hy
  unfold readLines
  rw [universalNewlines_eq_self hxy, universalNewlines_eq_self hx, universalNewlines_eq_self hy,
    splitlines_append h, List.filterMap_append]

theorem splitlines_linesOf {vs : List Json} (h : ∀ v ∈ vs, ∀ c ∈ render v, isLineBreak c = false) :
    splitlines (linesOf vs) = vs.map render := by
  induction vs with
  | nil => rfl
  | cons v vs ih =>
    rw [linesOf, List.flatMap_cons, List.append_assoc]
    refine (splitlines_line (h v List.mem_cons_self) (by decide) (by decide) _).trans ?_
    exact congrArg (render v :: ·) (ih fun w hw => h w (List.mem_cons_of_mem _ hw))

/-- A file of values is read back as it was written exactly if no string of
them has a separator and the reader accepts each. -/
theorem readLines_iff {accept : Json → Bool} {vs : List Json} (h : ∀ v ∈ vs, v.WF) :
    readLines accept (linesOf vs) = vs ↔
      ∀ v ∈ vs, (∀ c ∈ chars v, isSeparator c = false) ∧ accept v = true := by
  rw [readLines, universalNewlines_linesOf h]
  constructor
  · intro he v hv
    have hw := totalWeight_read accept (splitlines (linesOf vs))
    rw [he, weight_splitlines] at hw
    refine ⟨(render_oneLine_iff (h v hv)).mp (oneLine_of_weight hw v hv), ?_⟩
    obtain ⟨line, -, hr⟩ := List.mem_filterMap.mp (he.symm ▸ hv)
    exact (weight_readLine hr).2
  · intro hs
    rw [splitlines_linesOf fun v hv => (render_oneLine_iff (h v hv)).mpr (hs v hv).1, List.filterMap_map]
    refine (List.filterMap_congr fun v hv => ?_).trans List.filterMap_some
    exact (readLine_render (h v hv)).trans (if_pos (hs v hv).2)

end Json
