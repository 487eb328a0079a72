import Netspy.Framework.Json.Chars
import Netspy.Framework.Json.Reads

/-!
# Pieces of a written value

Where a written value is cut inside its strings, the pieces begin or end inside
a string. `modeAfter` follows a piece from the place where it begins. From a
piece that begins outside the strings and ends inside one, nothing is read.
From one that begins inside, reading takes for strings what stood between the
strings of the value, so that what is read has `isPlain` characters only
(`plain_of_torn`).
-/

namespace Json

/-- The characters that a value is written with outside its strings. -/
def isPlain (c : Char) : Bool :=
  isNumChar c || [' ', ',', ':', '[', ']', '{', '}', 'n', 'u', 'l', 't', 'r', 'f', 'a', 's', 'N', 'I', 'i', 'y'].contains c

/-- What may follow a backslash. -/
def isEscape (c : Char) : Bool := (unescape c).isSome || c = 'u'

/-- Where one is in a text: outside the strings, in one, or after a backslash. -/
inductive Mode where
  | outside
  | inside
  | escape
  deriving DecidableEq

namespace Mode

def step : Mode → Char → Option Mode
  | outside, c => if c = '"' then some inside else if isPlain c then some outside else none
  | inside, c => if c = '"' then some outside else if c = '\\' then some escape else some inside
  | escape, c => if isEscape c then some inside else none

/-- The other side of a quote. -/
def other : Mode → Mode
  | outside => inside
  | inside => outside
  | escape => escape

end Mode

/-- The mode after a text that begins in a mode; none if the text is no part of
a written value. -/
def modeAfter (m : Mode) (cs : List Char) : Option Mode := cs.foldlM Mode.step m

theorem modeAfter_cons (m : Mode) (c : Char) (cs : List Char) :
    modeAfter m (c :: cs) = (m.step c).bind fun m => modeAfter m cs := List.foldlM_cons

theorem modeAfter_append (m : Mode) (xs ys : List Char) :
    modeAfter m (xs ++ ys) = (modeAfter m xs).bind fun m => modeAfter m ys := List.foldlM_append

/-- A text that leaves the mode as it is may be left out. -/
theorem modeAfter_skip {m : Mode} {xs : List Char} (h : modeAfter m xs = some m) (ys : List Char) :
    modeAfter m (xs ++ ys) = modeAfter m ys := by
  rw [modeAfter_append, h, Option.bind_some]

theorem step_plain {c : Char} (h : isPlain c = true) {m : Mode} (hm : m ≠ .escape) : m.step c = some m := by
  have hq : c ≠ '"' := fun e => absurd h (by rw [e]; decide)
  have hb : c ≠ '\\' := fun e => absurd h (by rw [e]; decide)
  cases m with
  | outside => rw [Mode.step, if_neg hq, if_pos h]
  | inside => rw [Mode.step, if_neg hq, if_neg hb]
  | escape => exact absurd rfl hm

theorem step_inside {c : Char} (hq : c ≠ '"') (hb : c ≠ '\\') : Mode.inside.step c = some .inside := by
  rw [Mode.step, if_neg hq, if_neg hb]

theorem modeAfter_plain {xs : List Char} (h : ∀ c ∈ xs, isPlain c = true) {m : Mode} (hm : m ≠ .escape) :
    modeAfter m xs = some m := by
  induction xs with
  | nil => rfl
  | cons x xs ih =>
    rw [modeAfter_cons, step_plain (h x List.mem_cons_self) hm, Option.bind_some,
      ih fun c hc => h c (List.mem_cons_of_mem _ hc)]

/-! ## Written values -/

theorem digitChar_inside : ∀ n < 16, Mode.inside.step (Nat.digitChar n) = some .inside := by decide

theorem modeAfter_escapeChar (c : Char) : modeAfter .inside (escapeChar c) = some .inside := by
  rcases escapeChar_cases c with ⟨e, he, -, hw⟩ | ⟨hlt, hw⟩ | ⟨⟨hq, hb, -⟩, hw⟩
  · rw [hw]
    exact of_shortEscapes (p := fun e => modeAfter .inside ['\\', e] = some .inside) (by decide) he
  · have hu : modeAfter .inside ['\\', 'u', '0', '0'] = some .inside := by decide
    rw [hw, modeAfter_skip hu, modeAfter_cons, digitChar_inside _ (by omega), Option.bind_some, modeAfter_cons,
      digitChar_inside _ (by omega)]
    rfl
  · rw [hw, modeAfter_cons, step_inside hq hb]
    rfl

theorem modeAfter_renderString (s : String) : modeAfter .outside (renderString s) = some .outside := by
  have hs : ∀ xs : List Char, modeAfter .inside (xs.flatMap escapeChar) = some .inside := by
    intro xs
    induction xs with
    | nil => rfl
    | cons x xs ih => rw [List.flatMap_cons, modeAfter_skip (modeAfter_escapeChar x), ih]
  rw [renderString, List.cons_append, modeAfter_cons]
  show modeAfter .inside _ = _
  rw [modeAfter_skip (hs _)]
  rfl

theorem isPlain_of_numChar {c : Char} (h : isNumChar c = true) : isPlain c = true := by
  rw [isPlain, h, Bool.true_or]

theorem isPlain_number {text : List Char} {v : Json} (h : scanNumber text = some (v, [])) :
    ∀ c ∈ text, isPlain c = true := by
  obtain ⟨t, h1, -, h3, -⟩ := scanNumber_split h
  rw [List.append_nil] at h1
  exact h1 ▸ fun c hc => isPlain_of_numChar (h3 c hc)

theorem isPlain_float {text : String} (h : IsFloat text) : ∀ c ∈ text.toList, isPlain c = true := by
  rcases h with h | rfl | rfl | rfl
  · exact isPlain_number h
  all_goals exact List.all_eq_true.mp rfl

theorem modeAfter_separator {c : Char} (hc : isPlain c = true) {xs ys : List Char}
    (hx : modeAfter .outside xs = some .outside) (hy : modeAfter .outside ys = some .outside) :
    modeAfter .outside (xs ++ c :: ' ' :: ys) = some .outside := by
  have hs : modeAfter .outside [c, ' '] = some .outside :=
    modeAfter_plain (by simp only [List.forall_mem_cons]; exact ⟨hc, by decide, by simp⟩) (by decide)
  rw [modeAfter_skip hx]
  exact (modeAfter_skip hs ys).trans hy

theorem modeAfter_bracketed {a b : Char} (ha : isPlain a = true) (hb : isPlain b = true) {xs : List Char}
    (hx : modeAfter .outside xs = some .outside) : modeAfter .outside (a :: xs ++ [b]) = some .outside := by
  rw [List.cons_append, modeAfter_cons, step_plain ha (by decide), Option.bind_some, modeAfter_skip hx,
    modeAfter_cons, step_plain hb (by decide)]
  rfl

mutual

/-- After a written value one is outside its strings again. -/
theorem modeAfter_render : ∀ (v : Json) (_ : v.WF), modeAfter .outside (render v) = some .outside
  | .null, _ => by decide
  | .bool true, _ => by decide
  | .bool false, _ => by decide
  | .int i, _ => modeAfter_plain (isPlain_number (scanNumber_renderInt_nil i)) (by decide)
  | .float _, hw => modeAfter_plain (isPlain_float hw) (by decide)
  | .str s, _ => modeAfter_renderString s
  | .arr vs, hw => modeAfter_bracketed (by decide) (by decide) (modeAfter_renderElems vs hw)
  | .obj kvs, hw => modeAfter_bracketed (by decide) (by decide) (modeAfter_renderMembers kvs hw.2)

theorem modeAfter_renderElems : ∀ (vs : List Json) (_ : WFElems vs),
    modeAfter .outside (renderElems vs) = some .outside
  | [], _ => rfl
  | [v], hw => modeAfter_render v hw.1
  | v :: w :: vs, hw =>
    modeAfter_separator (by decide) (modeAfter_render v hw.1) (modeAfter_renderElems (w :: vs) hw.2)

theorem modeAfter_renderMembers : ∀ (kvs : List (String × Json)) (_ : WFMembers kvs),
    modeAfter .outside (renderMembers kvs) = some .outside
  | [], _ => rfl
  | [(k, v)], hw => modeAfter_separator (by decide) (modeAfter_renderString k) (modeAfter_render v hw.1)
  | (k, v) :: kv :: kvs, hw =>
    modeAfter_separator (by decide) (modeAfter_renderString k)
      (modeAfter_separator (by decide) (modeAfter_render v hw.1) (modeAfter_renderMembers (kv :: kvs) hw.2))

end

/-- A character that stands only in strings cuts a text inside a string. -/
theorem modeAfter_cut {c : Char} (hp : isPlain c = false) (he : isEscape c = false) {m m' : Mode}
    {xs ys : List Char} (hq : c ≠ '"') (hb : c ≠ '\\') (h : modeAfter m (xs ++ c :: ys) = some m') :
    modeAfter m xs = some .inside ∧ modeAfter .inside ys = some m' := by
  rw [modeAfter_append, Option.bind_eq_some_iff] at h
  obtain ⟨k, hk, h⟩ := h
  rw [modeAfter_cons, Option.bind_eq_some_iff] at h
  obtain ⟨l, hl, h⟩ := h
  cases k with
  | outside => rw [Mode.step, if_neg hq, hp] at hl; cases hl
  | inside =>
    rw [step_inside hq hb] at hl
    cases hl
    exact ⟨hk, h⟩
  | escape => rw [Mode.step, he] at hl; cases hl

/-! ## Reading a piece -/

theorem modeAfter_tail {c : Char} (hq : c ≠ '"') (hb : c ≠ '\\') {m b : Mode} (hm : m ≠ .escape) {cs : List Char}
    (h : modeAfter m (c :: cs) = some b) : modeAfter m cs = some b := by
  rw [modeAfter_cons, Option.bind_eq_some_iff] at h
  obtain ⟨k, hk, h⟩ := h
  cases m with
  | outside =>
    rw [Mode.step, if_neg hq] at hk
    split_ifs at hk
    cases hk
    exact h
  | inside =>
    rw [step_inside hq hb] at hk
    cases hk
    exact h
  | escape => exact absurd rfl hm

theorem modeAfter_dropped {xs cs : List Char} (hx : ∀ c ∈ xs, c ≠ '"' ∧ c ≠ '\\') {m b : Mode} (hm : m ≠ .escape)
    (h : modeAfter m (xs ++ cs) = some b) : modeAfter m cs = some b := by
  induction xs with
  | nil => exact h
  | cons x xs ih =>
    have hx' := hx x List.mem_cons_self
    exact ih (fun c hc => hx c (List.mem_cons_of_mem _ hc)) (modeAfter_tail hx'.1 hx'.2 hm h)

theorem modeAfter_skipWs {m b : Mode} (hm : m ≠ .escape) {cs : List Char} (h : modeAfter m cs = some b) :
    modeAfter m (skipWs cs) = some b := by
  have hw : ∀ c : Char, isWhitespace c = true → c ≠ '"' ∧ c ≠ '\\' := by
    intro c hc
    constructor <;> rintro rfl <;> exact absurd hc (by decide)
  rw [← List.takeWhile_append_dropWhile (p := isWhitespace) (l := cs)] at h
  exact modeAfter_dropped (fun c hc => hw c (List.mem_takeWhile_imp hc)) hm h

/-- What comes after a character that stands between values, and the blanks
before it. -/
theorem modeAfter_after {c : Char} (hc : c ≠ '"' ∧ c ≠ '\\') {m b : Mode} (hm : m ≠ .escape) {cs rest : List Char}
    (hs : skipWs cs = c :: rest) (h : modeAfter m cs = some b) : modeAfter m rest = some b := by
  have h := modeAfter_skipWs hm h
  rw [hs] at h
  exact modeAfter_tail hc.1 hc.2 hm h

theorem modeAfter_quote {m : Mode} (hm : m ≠ .escape) (cs : List Char) :
    modeAfter m ('"' :: cs) = modeAfter m.other cs := by
  cases m with
  | outside => rfl
  | inside => rfl
  | escape => exact absurd rfl hm

theorem hexVal_inside {c : Char} {n : Nat} (h : hexVal c = some n) : Mode.inside.step c = some .inside := by
  refine step_inside ?_ ?_ <;> rintro rfl <;> cases h

theorem modeAfter_unit {a b c d : Char} {n : Nat} (h : codeUnit a b c d = some n) (cs : List Char) :
    modeAfter .inside ('\\' :: 'u' :: a :: b :: c :: d :: cs) = modeAfter .inside cs := by
  simp only [codeUnit, Option.bind_eq_bind, Option.bind_eq_some_iff] at h
  obtain ⟨_, ha, _, hb, _, hc, _, hd, -⟩ := h
  have hu : modeAfter .inside ['\\', 'u', a, b, c, d] = some .inside := by
    show modeAfter .inside [a, b, c, d] = _
    simp only [modeAfter_cons, hexVal_inside ha, hexVal_inside hb, hexVal_inside hc, hexVal_inside hd,
      Option.bind_some]
    rfl
  exact modeAfter_skip hu cs

/-- A string of the value is read as a string. -/
theorem readsString_inside {cs s rest : List Char} (h : ReadsString cs s rest) {b : Mode}
    (hm : modeAfter .inside cs = some b) : modeAfter .outside rest = some b := by
  induction h with
  | close => exact hm
  | raw hq hb _ _ ih => exact ih (modeAfter_tail hq hb (by decide) hm)
  | @escape e c cs s rest he _ ih =>
    have hesc : modeAfter .inside ['\\', e] = some .inside := by
      show (if isEscape e then some Mode.inside else none).bind some = _
      rw [isEscape, he]
      rfl
    exact ih ((modeAfter_skip hesc cs).symm.trans hm)
  | unit hu _ ih =>
    rw [modeAfter_unit hu] at hm
    exact ih hm
  | pair hu hu' _ ih =>
    rw [modeAfter_unit hu, modeAfter_unit hu'] at hm
    exact ih hm

/-- What is read as a string from between two strings of the value is plain. -/
theorem readsString_outside {cs s rest : List Char} (h : ReadsString cs s rest) {b : Mode}
    (hm : modeAfter .outside cs = some b) : modeAfter .inside rest = some b ∧ ∀ c ∈ s, isPlain c = true := by
  have hbs : ∀ ds, modeAfter .outside ('\\' :: ds) ≠ some b := fun ds => nofun
  induction h with
  | close => exact ⟨hm, fun c hc => absurd hc List.not_mem_nil⟩
  | raw hq _ _ _ ih =>
    rw [modeAfter_cons, Option.bind_eq_some_iff] at hm
    obtain ⟨k, hk, hm⟩ := hm
    rw [Mode.step, if_neg hq] at hk
    split_ifs at hk with hp
    cases hk
    obtain ⟨h1, h2⟩ := ih hm
    exact ⟨h1, List.forall_mem_cons.mpr ⟨hp, h2⟩⟩
  | escape _ _ _ => exact absurd hm (hbs _)
  | unit _ _ _ => exact absurd hm (hbs _)
  | pair _ _ _ _ => exact absurd hm (hbs _)

/-- What is read from a piece that begins in a mode: plain, if that is inside a
string. -/
def Clean (m : Mode) (cs : List Char) : Prop := m = .inside → ∀ c ∈ cs, isPlain c = true

theorem Clean.nil (m : Mode) : Clean m [] := fun _ _ hc => absurd hc List.not_mem_nil

theorem Clean.append {m : Mode} {xs ys : List Char} (hx : Clean m xs) (hy : Clean m ys) : Clean m (xs ++ ys) :=
  fun h => List.forall_mem_append.mpr ⟨hx h, hy h⟩

theorem readsString_mode {m b : Mode} (hm : m ≠ .escape) {cs s rest : List Char} (hs : ReadsString cs s rest)
    (h : modeAfter m ('"' :: cs) = some b) : modeAfter m rest = some b ∧ Clean m s := by
  rw [modeAfter_quote hm] at h
  cases m with
  | outside => exact ⟨readsString_inside hs h, fun he => (by cases he)⟩
  | inside =>
    obtain ⟨h1, h2⟩ := readsString_outside hs h
    exact ⟨h1, fun _ => h2⟩
  | escape => exact absurd rfl hm

theorem scanNumber_mode {m b : Mode} (hm : m ≠ .escape) {cs rest : List Char} {v : Json}
    (hs : scanNumber cs = some (v, rest)) (h : modeAfter m cs = some b) :
    modeAfter m rest = some b ∧ Clean m (chars v) := by
  obtain ⟨text, rfl, -, hc, hv⟩ := scanNumber_split hs
  have hx : ∀ c ∈ text, c ≠ '"' ∧ c ≠ '\\' := by
    intro c hm
    constructor <;> rintro rfl <;> exact absurd (hc _ hm) (by decide)
  refine ⟨modeAfter_dropped hx hm h, ?_⟩
  rcases hv with rfl | ⟨i, rfl, -⟩ <;> exact Clean.nil m

theorem scanWord_mode {m b : Mode} (hm : m ≠ .escape) {cs rest : List Char} {v : Json}
    (hs : scanWord cs words = some (v, rest)) (h : modeAfter m cs = some b) :
    modeAfter m rest = some b ∧ Clean m (chars v) := by
  have hgo : ∀ {ws : List (List Char × Json)},
      (∀ p ∈ ws, (∀ c ∈ p.1, c ≠ '"' ∧ c ≠ '\\') ∧ chars p.2 = []) → scanWord cs ws = some (v, rest) →
        modeAfter m rest = some b ∧ Clean m (chars v) := by
    intro ws hws hs
    induction ws with
    | nil => cases hs
    | cons p ws ih =>
      obtain ⟨hp, hws⟩ := List.forall_mem_cons.mp hws
      rw [scanWord] at hs
      split_ifs at hs with hpre
      · cases hs
        obtain ⟨t, rfl⟩ := hpre
        rw [List.drop_left, hp.2]
        exact ⟨modeAfter_dropped hp.1 hm h, Clean.nil m⟩
      · exact ih hws hs
  exact hgo (by simp [words, chars]) hs

theorem mem_charsMembers {kvs : List (String × Json)} {c : Char} :
    c ∈ charsMembers kvs ↔ ∃ kv ∈ kvs, c ∈ kv.1.toList ∨ c ∈ chars kv.2 := by
  induction kvs with
  | nil => simp [charsMembers]
  | cons kv kvs ih =>
    obtain ⟨k, v⟩ := kv
    rw [charsMembers, List.mem_append, List.mem_append, ih, ← or_assoc]
    simp only [List.mem_cons, exists_eq_or_imp]

theorem Clean.dictOf {m : Mode} {kvs : List (String × Json)} (h : Clean m (charsMembers kvs)) :
    Clean m (charsMembers (dictOf kvs)) := by
  intro he c hc
  obtain ⟨kv, hkv, hc⟩ := mem_charsMembers.mp hc
  exact h he c (mem_charsMembers.mpr ⟨kv, mem_dictOf hkv, hc⟩)

theorem Clean.ofList {m : Mode} {s : List Char} (h : Clean m s) : Clean m (String.ofList s).toList := by
  rwa [String.toList_ofList]

mutual

theorem readsValue_mode {m b : Mode} (hm : m ≠ .escape) : ∀ {cs v rest}, ReadsValue cs v rest →
    modeAfter m cs = some b → modeAfter m rest = some b ∧ Clean m (chars v)
  | _, _, _, .str hs, h => (readsString_mode hm hs h).imp_right Clean.ofList
  | _, _, _, .emptyObj hs, h => ⟨modeAfter_after (by decide) hm hs (modeAfter_tail (by decide) (by decide) hm h), .nil m⟩
  | _, _, _, .obj hs, h =>
    (readsMembers_mode hm hs (modeAfter_skipWs hm (modeAfter_tail (by decide) (by decide) hm h))).imp_right
      Clean.dictOf
  | _, _, _, .emptyArr hs, h => ⟨modeAfter_after (by decide) hm hs (modeAfter_tail (by decide) (by decide) hm h), .nil m⟩
  | _, _, _, .arr hs, h => readsElems_mode hm hs (modeAfter_skipWs hm (modeAfter_tail (by decide) (by decide) hm h))
  | _, _, _, .number hs, h => scanNumber_mode hm hs h
  | _, _, _, .word hs, h => scanWord_mode hm hs h

theorem readsElems_mode {m b : Mode} (hm : m ≠ .escape) : ∀ {cs vs rest}, ReadsElems cs vs rest →
    modeAfter m cs = some b → modeAfter m rest = some b ∧ Clean m (charsElems vs)
  | _, _, _, .last hv hb, h => by
    obtain ⟨h1, hc1⟩ := readsValue_mode hm hv h
    exact ⟨modeAfter_after (by decide) hm hb h1, hc1.append (.nil m)⟩
  | _, _, _, .next hv hc hs, h => by
    obtain ⟨h1, hc1⟩ := readsValue_mode hm hv h
    have h2 := modeAfter_after (by decide) hm hc h1
    obtain ⟨h3, hc3⟩ := readsElems_mode hm hs (modeAfter_skipWs hm h2)
    exact ⟨h3, hc1.append hc3⟩

theorem readsMembers_mode {m b : Mode} (hm : m ≠ .escape) : ∀ {cs kvs rest}, ReadsMembers cs kvs rest →
    modeAfter m cs = some b → modeAfter m rest = some b ∧ Clean m (charsMembers kvs)
  | _, _, _, .last hk hc hv hb, h => by
    obtain ⟨h1, hc1⟩ := readsString_mode hm hk h
    have h2 := modeAfter_after (by decide) hm hc h1
    obtain ⟨h3, hc3⟩ := readsValue_mode hm hv (modeAfter_skipWs hm h2)
    exact ⟨modeAfter_after (by decide) hm hb h3, hc1.ofList.append (hc3.append (.nil m))⟩
  | _, _, _, .next hk hc hv hd hs, h => by
    obtain ⟨h1, hc1⟩ := readsString_mode hm hk h
    have h2 := modeAfter_after (by decide) hm hc h1
    obtain ⟨h3, hc3⟩ := readsValue_mode hm hv (modeAfter_skipWs hm h2)
    have h4 := modeAfter_after (by decide) hm hd h3
    obtain ⟨h5, hc5⟩ := readsMembers_mode hm hs (modeAfter_skipWs hm h4)
    exact ⟨h5, hc1.ofList.append (hc3.append hc5)⟩

end

/-- A piece that begins or ends inside a string of the value. -/
def Torn (cs : List Char) : Prop :=
  modeAfter .outside cs = some .inside ∨ ∃ b, modeAfter .inside cs = some b

/-- What is read from a piece is read to its end, in the mode where it began. -/
theorem loads_mode {m b : Mode} (hm : m ≠ .escape) {cs : List Char} {v : Json} (hl : loads (String.ofList cs) = some v)
    (h : modeAfter m cs = some b) : b = m ∧ Clean m (chars v) := by
  obtain ⟨rest, hr, he⟩ := reads_of_loads hl
  rw [String.toList_ofList] at hr
  obtain ⟨h1, h2⟩ := readsValue_mode hm hr (modeAfter_skipWs hm h)
  have h3 := modeAfter_skipWs hm h1
  rw [he] at h3
  exact ⟨(Option.some.inj h3).symm, h2⟩

theorem plain_of_torn {cs : List Char} (ht : Torn cs) {v : Json} (hl : loads (String.ofList cs) = some v) :
    ∀ c ∈ chars v, isPlain c = true := by
  rcases ht with h | ⟨b, h⟩
  · exact absurd (loads_mode (by decide) hl h).1 (by decide)
  · exact (loads_mode (by decide) hl h).2 rfl

end Json
