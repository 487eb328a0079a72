import Netspy.Framework.Json.Syntax

/-!
# What reading does

`ReadsString cs s rest` and `ReadsValue cs v rest` say what is read from the
front of `cs` and that it leaves `rest`, with one constructor for each way in
which that may go. `scanString` and `scanValue`, whatever its fuel, do nothing
else (`readsString_of_scan`, `reads_of_scan`).
-/

namespace Json

/-- From after the opening quote to after the closing one. -/
inductive ReadsString : List Char → List Char → List Char → Prop
  | close {rest} : ReadsString ('"' :: rest) [] rest
  | raw {c cs s rest} (hq : c ≠ '"') (hb : c ≠ '\\') (hn : ¬ c.toNat < 0x20) (h : ReadsString cs s rest) :
    ReadsString (c :: cs) (c :: s) rest
  | escape {e c cs s rest} (he : unescape e = some c) (h : ReadsString cs s rest) :
    ReadsString ('\\' :: e :: cs) (c :: s) rest
  | unit {a b c d n cs s rest} (hu : codeUnit a b c d = some n) (h : ReadsString cs s rest) :
    ReadsString ('\\' :: 'u' :: a :: b :: c :: d :: cs) (Char.ofNat n :: s) rest
  | pair {a b c d e f g i n m cs s rest} (hu : codeUnit a b c d = some n) (hu' : codeUnit e f g i = some m)
    (h : ReadsString cs s rest) :
    ReadsString ('\\' :: 'u' :: a :: b :: c :: d :: '\\' :: 'u' :: e :: f :: g :: i :: cs)
      (Char.ofNat (0x10000 + (n - 0xd800) * 0x400 + (m - 0xdc00)) :: s) rest

theorem readsString_of_scan {cs s rest : List Char} (h : scanString cs = some (s, rest)) : ReadsString cs s rest := by
  fun_induction scanString cs generalizing s
  case case2 cs =>
    cases h
    exact .close
  case case5 hu _ _ _ _ _ _ _ hu' _ ih =>
    obtain ⟨⟨t, r⟩, he, hs⟩ := Option.map_eq_some_iff.mp h
    cases hs
    exact .pair hu hu' (ih he)
  case case9 hu _ _ ih =>
    obtain ⟨⟨t, r⟩, he, hs⟩ := Option.map_eq_some_iff.mp h
    cases hs
    exact .unit hu (ih he)
  case case11 hu ih =>
    obtain ⟨⟨t, r⟩, he, hs⟩ := Option.map_eq_some_iff.mp h
    cases hs
    exact .escape hu (ih he)
  case case13 c cs hq _ hb hn ih =>
    obtain ⟨⟨t, r⟩, he, hs⟩ := Option.map_eq_some_iff.mp h
    cases hs
    refine .raw hq ?_ hn (ih he)
    -- a backslash that ends the text
    rintro rfl
    cases cs with
    | nil => cases he
    | cons e cs => exact hb e cs rfl rfl
  all_goals cases h

mutual

inductive ReadsValue : List Char → Json → List Char → Prop
  | str {cs s rest} (h : ReadsString cs s rest) : ReadsValue ('"' :: cs) (.str (String.ofList s)) rest
  | emptyObj {cs rest} (h : skipWs cs = '}' :: rest) : ReadsValue ('{' :: cs) (.obj []) rest
  | obj {cs kvs rest} (h : ReadsMembers (skipWs cs) kvs rest) : ReadsValue ('{' :: cs) (.obj (dictOf kvs)) rest
  | emptyArr {cs rest} (h : skipWs cs = ']' :: rest) : ReadsValue ('[' :: cs) (.arr []) rest
  | arr {cs vs rest} (h : ReadsElems (skipWs cs) vs rest) : ReadsValue ('[' :: cs) (.arr vs) rest
  | number {cs v rest} (h : scanNumber cs = some (v, rest)) : ReadsValue cs v rest
  | word {cs v rest} (h : scanWord cs words = some (v, rest)) : ReadsValue cs v rest

inductive ReadsElems : List Char → List Json → List Char → Prop
  | last {cs v t rest} (hv : ReadsValue cs v t) (hb : skipWs t = ']' :: rest) : ReadsElems cs [v] rest
  | next {cs v t u vs rest} (hv : ReadsValue cs v t) (hc : skipWs t = ',' :: u)
    (h : ReadsElems (skipWs u) vs rest) : ReadsElems cs (v :: vs) rest

inductive ReadsMembers : List Char → List (String × Json) → List Char → Prop
  | last {cs key t u v w rest} (hk : ReadsString cs key t) (hc : skipWs t = ':' :: u)
    (hv : ReadsValue (skipWs u) v w) (hb : skipWs w = '}' :: rest) :
    ReadsMembers ('"' :: cs) [(String.ofList key, v)] rest
  | next {cs key t u v w x kvs rest} (hk : ReadsString cs key t) (hc : skipWs t = ':' :: u)
    (hv : ReadsValue (skipWs u) v w) (hd : skipWs w = ',' :: x) (h : ReadsMembers (skipWs x) kvs rest) :
    ReadsMembers ('"' :: cs) ((String.ofList key, v) :: kvs) rest

end

/-! One step of each function, given what holds for the parts. -/

section
variable {n : Nat} {cs rest : List Char}
  (ihV : ∀ {cs v rest}, scanValue n cs = some (v, rest) → ReadsValue cs v rest)
  (ihE : ∀ {cs vs rest}, scanElems n cs = some (vs, rest) → ReadsElems cs vs rest)
  (ihM : ∀ {cs kvs rest}, scanMembers n cs = some (kvs, rest) → ReadsMembers cs kvs rest)
include ihV ihE ihM

omit ihV in
theorem reads_scanValue {v : Json} (h : scanValue (n + 1) cs = some (v, rest)) : ReadsValue cs v rest := by
  rcases cs with _ | ⟨c, cs⟩
  · cases h
  rw [scanValue] at h
  split_ifs at h with hq hb ha
  · obtain ⟨⟨s, r⟩, he, hs⟩ := Option.map_eq_some_iff.mp h
    cases hs
    exact hq ▸ .str (readsString_of_scan he)
  · rcases hr : skipWs cs with _ | ⟨d, r⟩ <;> simp only [hr] at h
    · cases h
    split_ifs at h with hd
    · cases h
      exact hb ▸ .emptyObj (hd ▸ hr)
    · obtain ⟨⟨kvs, t⟩, he, hs⟩ := Option.map_eq_some_iff.mp h
      cases hs
      exact hb ▸ .obj (ihM (hr ▸ he))
  · rcases hr : skipWs cs with _ | ⟨d, r⟩ <;> simp only [hr] at h
    · cases h
    split_ifs at h with hd
    · cases h
      exact ha ▸ .emptyArr (hd ▸ hr)
    · obtain ⟨⟨vs, t⟩, he, hs⟩ := Option.map_eq_some_iff.mp h
      cases hs
      exact ha ▸ .arr (ihE (hr ▸ he))
  · rcases Option.or_eq_some_iff.mp h with h | ⟨-, h⟩
    · exact .number h
    · exact .word h

omit ihM in
theorem reads_scanElems {vs : List Json} (h : scanElems (n + 1) cs = some (vs, rest)) : ReadsElems cs vs rest := by
  rw [scanElems] at h
  rcases hv : scanValue n cs with _ | ⟨v, t⟩ <;> simp only [hv] at h
  · cases h
  rcases hr : skipWs t with _ | ⟨d, r⟩ <;> simp only [hr] at h
  · cases h
  split_ifs at h with hb hc
  · cases h
    exact .last (ihV hv) (hb ▸ hr)
  · obtain ⟨⟨vs', t'⟩, he, hs⟩ := Option.map_eq_some_iff.mp h
    cases hs
    exact .next (ihV hv) (hc ▸ hr) (ihE he)

omit ihE in
theorem reads_scanMembers {kvs : List (String × Json)} (h : scanMembers (n + 1) cs = some (kvs, rest)) :
    ReadsMembers cs kvs rest := by
  rcases cs with _ | ⟨c, cs⟩
  · cases h
  rw [scanMembers] at h
  split_ifs at h with hq
  rcases hk : scanString cs with _ | ⟨key, t⟩ <;> simp only [hk] at h
  · cases h
  rcases ht : skipWs t with _ | ⟨d, u⟩ <;> simp only [ht] at h
  · cases h
  split_ifs at h with hd
  rcases hv : scanValue n (skipWs u) with _ | ⟨v, w⟩ <;> simp only [hv] at h
  · cases h
  rcases hw : skipWs w with _ | ⟨e, x⟩ <;> simp only [hw] at h
  · cases h
  split_ifs at h with hb hc
  · cases h
    exact hq ▸ .last (readsString_of_scan hk) (hd ▸ ht) (ihV hv) (hb ▸ hw)
  · obtain ⟨⟨kvs', r⟩, he, hs⟩ := Option.map_eq_some_iff.mp h
    cases hs
    exact hq ▸ .next (readsString_of_scan hk) (hd ▸ ht) (ihV hv) (hc ▸ hw) (ihM he)

end

theorem reads_of_scan (n : Nat) :
    (∀ {cs v rest}, scanValue n cs = some (v, rest) → ReadsValue cs v rest) ∧
    (∀ {cs vs rest}, scanElems n cs = some (vs, rest) → ReadsElems cs vs rest) ∧
    (∀ {cs kvs rest}, scanMembers n cs = some (kvs, rest) → ReadsMembers cs kvs rest) := by
  induction n with
  | zero => exact ⟨fun h => (by cases h), fun h => (by cases h), fun h => (by cases h)⟩
  | succ n ih =>
    obtain ⟨ihV, ihE, ihM⟩ := ih
    exact ⟨reads_scanValue ihE ihM, reads_scanElems ihV ihE, reads_scanMembers ihV ihM⟩

/-- A text is one value between blanks. -/
theorem reads_of_loads {text : String} {v : Json} (h : loads text = some v) :
    ∃ rest, ReadsValue (skipWs text.toList) v rest ∧ skipWs rest = [] := by
  rw [loads] at h
  split at h
  · cases h
  · rename_i v' rest hs
    split_ifs at h with hr
    cases h
    exact ⟨rest, (reads_of_scan _).1 hs, hr⟩

end Json
