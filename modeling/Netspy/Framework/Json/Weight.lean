import Mathlib.Algebra.GroupWithZero.Nat
import Netspy.Framework.Json.Reads
import Netspy.Framework.Json.RoundTrip

/-!
# What is read is not longer than its text

The weight of a text is the number of its characters other than blanks and
commas. Writing what was read from a text again weighs no more than the text
(`weight_loads`): an escape is at least as long as what it stands for is
written, and a key that comes twice is written once. What was written can
therefore not be read back whole from a part of it.
-/

namespace Json

def counted (c : Char) : Bool := c ≠ ' ' && c ≠ ','

def weight (cs : List Char) : Nat := cs.countP counted

@[simp] theorem weight_nil : weight [] = 0 := rfl

@[simp] theorem weight_append (xs ys : List Char) : weight (xs ++ ys) = weight xs + weight ys :=
  List.countP_append

theorem weight_cons_of_counted {c : Char} (h : counted c = true) (cs : List Char) :
    weight (c :: cs) = weight cs + 1 := List.countP_cons_of_pos h

theorem weight_le_length (cs : List Char) : weight cs ≤ cs.length := List.countP_le_length

theorem weight_skipWs (cs : List Char) : weight (skipWs cs) ≤ weight cs :=
  (List.dropWhile_sublist _).countP_le

/-! ## Strings -/

theorem counted_of_hexVal {c : Char} {n : Nat} (h : hexVal c = some n) : counted c = true := by
  by_contra hc
  simp only [counted, Bool.and_eq_true, decide_eq_true_eq, not_and_or, not_not] at hc
  rcases hc with rfl | rfl <;> cases h

theorem counted_of_codeUnit {a b c d : Char} {n : Nat} (h : codeUnit a b c d = some n) :
    counted a = true ∧ counted b = true ∧ counted c = true ∧ counted d = true := by
  simp only [codeUnit, Option.bind_eq_bind, Option.bind_eq_some_iff] at h
  obtain ⟨_, ha, _, hb, _, hc, _, hd, -⟩ := h
  exact ⟨counted_of_hexVal ha, counted_of_hexVal hb, counted_of_hexVal hc, counted_of_hexVal hd⟩

theorem length_escapeChar (c : Char) : (escapeChar c).length ≤ 6 := by
  rcases escapeChar_cases c with ⟨e, -, -, hw⟩ | ⟨-, hw⟩ | ⟨-, hw⟩
  · simp [hw]
  · simp [hw]
  · simp [hw]

theorem mem_of_unescape {e c : Char} (h : unescape e = some c) : e ∈ '/' :: shortEscapes := by
  by_contra hnot
  simp only [shortEscapes, List.mem_cons, List.not_mem_nil, or_false, not_or] at hnot
  simp [unescape, hnot] at h

/-- A short escape stands for a character that is written no longer. -/
theorem weight_unescape {e c : Char} (h : unescape e = some c) :
    counted e = true ∧ weight (escapeChar c) ≤ 2 :=
  of_unescape (p := fun e c => counted e = true ∧ weight (escapeChar c) ≤ 2) (by decide) (mem_of_unescape h) h

theorem weight_escape_raw {c : Char} (hq : c ≠ '"') (hb : c ≠ '\\') (h : ¬ c.toNat < 0x20) :
    escapeChar c = [c] := by
  have hn : ∀ d : Char, d.toNat < 0x20 → c ≠ d := fun d hd e => h (e ▸ hd)
  rw [escapeChar, if_neg hq, if_neg hb, if_neg (hn _ (by decide)), if_neg (hn _ (by decide)),
    if_neg (hn _ (by decide)), if_neg (hn _ (by decide)), if_neg (hn _ (by decide)), if_neg h]

theorem weight_unit {a b c d : Char} {n : Nat} (h : codeUnit a b c d = some n) (cs : List Char) :
    weight ('\\' :: 'u' :: a :: b :: c :: d :: cs) = weight cs + 6 := by
  obtain ⟨ha, hb, hc, hd⟩ := counted_of_codeUnit h
  rw [weight_cons_of_counted rfl, weight_cons_of_counted rfl, weight_cons_of_counted ha, weight_cons_of_counted hb,
    weight_cons_of_counted hc, weight_cons_of_counted hd]

theorem weight_readsString {cs s rest : List Char} (h : ReadsString cs s rest) :
    weight (s.flatMap escapeChar) + 1 + weight rest ≤ weight cs := by
  have hesc : ∀ c, weight (escapeChar c) ≤ 6 := fun c => (weight_le_length _).trans (length_escapeChar c)
  induction h with
  | close =>
    rw [weight_cons_of_counted rfl, List.flatMap_nil, weight_nil]
    omega
  | @raw c cs s rest hq hb hn h ih =>
    have hw : weight (c :: cs) = weight (escapeChar c) + weight cs := by
      rw [weight_escape_raw hq hb hn]
      exact weight_append [c] cs
    rw [List.flatMap_cons, weight_append, hw]
    omega
  | escape he h ih =>
    obtain ⟨hce, hwc⟩ := weight_unescape he
    rw [List.flatMap_cons, weight_append, weight_cons_of_counted rfl, weight_cons_of_counted hce]
    omega
  | @unit a b c d n cs s rest hu h ih =>
    have hc := hesc (Char.ofNat n)
    rw [List.flatMap_cons, weight_append, weight_unit hu]
    omega
  | @pair a b c d e f g i n m cs s rest hu hu' h ih =>
    have hc := hesc (Char.ofNat (0x10000 + (n - 0xd800) * 0x400 + (m - 0xdc00)))
    rw [List.flatMap_cons, weight_append, weight_unit hu, weight_unit hu']
    omega

/-! ## Values -/

def elemsWeight (vs : List Json) : Nat := (vs.map fun v => weight (render v)).sum

def memberWeight (kv : String × Json) : Nat := weight (renderString kv.1) + 1 + weight (render kv.2)

def membersWeight (kvs : List (String × Json)) : Nat := (kvs.map memberWeight).sum

theorem weight_comma (cs : List Char) : weight (',' :: ' ' :: cs) = weight cs := rfl

theorem weight_renderElems (vs : List Json) : weight (renderElems vs) = elemsWeight vs := by
  induction vs with
  | nil => rfl
  | cons v vs ih =>
    cases vs with
    | nil => exact (Nat.add_zero _).symm
    | cons w vs =>
      rw [renderElems, weight_append, weight_comma, ih]
      · rfl
      · exact List.cons_ne_nil w vs

theorem weight_colon (cs : List Char) : weight (':' :: ' ' :: cs) = weight cs + 1 := by
  rw [weight_cons_of_counted rfl]
  rfl

theorem weight_renderMembers (kvs : List (String × Json)) : weight (renderMembers kvs) = membersWeight kvs := by
  induction kvs with
  | nil => rfl
  | cons kv kvs ih =>
    cases kvs with
    | nil =>
      rw [renderMembers, weight_append, weight_colon]
      show _ = memberWeight kv + 0
      rw [memberWeight]
      omega
    | cons kv' kvs =>
      rw [renderMembers, weight_append, weight_colon, weight_append, weight_comma, ih]
      · show _ = memberWeight kv + membersWeight (kv' :: kvs)
        rw [memberWeight]
        omega
      · exact List.cons_ne_nil kv' kvs

theorem weight_bracketed {a b : Char} (ha : counted a = true) (hb : counted b = true) (cs : List Char) :
    weight (a :: cs ++ [b]) = weight cs + 2 := by
  rw [List.cons_append, weight_cons_of_counted ha, weight_append, weight_cons_of_counted hb, weight_nil]

theorem weight_arr (vs : List Json) : weight (render (.arr vs)) = elemsWeight vs + 2 := by
  rw [render, weight_bracketed rfl rfl, weight_renderElems]

theorem weight_obj (kvs : List (String × Json)) : weight (render (.obj kvs)) = membersWeight kvs + 2 := by
  rw [render, weight_bracketed rfl rfl, weight_renderMembers]

theorem weight_renderString (s : String) :
    weight (renderString s) = weight (s.toList.flatMap escapeChar) + 2 := weight_bracketed rfl rfl _

theorem membersWeight_setItem (kvs : List (String × Json)) (k : String) (v : Json) :
    membersWeight (setItem kvs k v) ≤ membersWeight kvs + memberWeight (k, v) := by
  induction kvs with
  | nil => simp [setItem, membersWeight]
  | cons kv kvs ih =>
    obtain ⟨k', v'⟩ := kv
    rw [setItem]
    simp only [membersWeight, List.map_cons, List.sum_cons] at ih ⊢
    split_ifs with h
    · subst h
      simp only [List.map_cons, List.sum_cons]
      omega
    · simp only [List.map_cons, List.sum_cons]
      omega

/-- A key that comes twice is written once. -/
theorem membersWeight_dictOf (kvs : List (String × Json)) : membersWeight (dictOf kvs) ≤ membersWeight kvs := by
  have hgo : ∀ (rest acc : List (String × Json)),
      membersWeight (rest.foldl (fun kvs kv => setItem kvs kv.1 kv.2) acc) ≤
        membersWeight acc + membersWeight rest := by
    intro rest
    induction rest with
    | nil => exact fun acc => le_rfl
    | cons kv rest ih =>
      intro acc
      obtain ⟨k, v⟩ := kv
      refine (ih _).trans ?_
      have := membersWeight_setItem acc k v
      simp only [membersWeight, List.map_cons, List.sum_cons] at this ⊢
      omega
  exact (hgo kvs []).trans (Nat.zero_add _).le

theorem counted_of_numChar {c : Char} (h : isNumChar c = true) : counted c = true := by
  by_contra hc
  simp only [counted, Bool.and_eq_true, decide_eq_true_eq, not_and_or, not_not] at hc
  rcases hc with rfl | rfl <;> exact absurd h (by decide)

theorem weight_scanNumber {cs rest : List Char} {v : Json} (h : scanNumber cs = some (v, rest)) :
    weight (render v) + weight rest ≤ weight cs := by
  obtain ⟨text, rfl, -, hc, hv⟩ := scanNumber_split h
  have hw : weight text = text.length := List.countP_eq_length.mpr fun c hm => counted_of_numChar (hc c hm)
  rw [weight_append]
  refine Nat.add_le_add_right ?_ _
  rcases hv with rfl | ⟨i, rfl, hl⟩
  · rw [render, String.toList_ofList]
  · exact (weight_le_length _).trans (hl.trans hw.ge)

theorem weight_scanWord {cs rest : List Char} {v : Json} {ws : List (List Char × Json)}
    (hws : ∀ p ∈ ws, render p.2 = p.1) (h : scanWord cs ws = some (v, rest)) :
    weight (render v) + weight rest ≤ weight cs := by
  induction ws with
  | nil => cases h
  | cons p ws ih =>
    rw [scanWord] at h
    split_ifs at h with hp
    · cases h
      obtain ⟨t, rfl⟩ := hp
      rw [List.drop_left, hws _ List.mem_cons_self, weight_append]
    · exact ih (fun q hq => hws q (List.mem_cons_of_mem _ hq)) h

theorem render_words : ∀ p ∈ words, render p.2 = p.1 := by
  simp [words, render]

theorem weight_quote_readsString {cs s rest : List Char} (h : ReadsString cs s rest) :
    weight (renderString (String.ofList s)) + weight rest ≤ weight ('"' :: cs) := by
  have := weight_readsString h
  rw [weight_renderString, String.toList_ofList, weight_cons_of_counted rfl]
  omega

/-- A character between two values, and the blanks before it. -/
theorem weight_after {c : Char} (hc : counted c = true) {cs rest : List Char} (h : skipWs cs = c :: rest) :
    weight rest + 1 ≤ weight cs := by
  have := weight_skipWs cs
  rwa [h, weight_cons_of_counted hc] at this

theorem weight_after_comma {cs rest : List Char} (h : skipWs cs = ',' :: rest) : weight rest ≤ weight cs := by
  have := weight_skipWs cs
  rwa [h] at this

mutual

/-- What is read weighs no more than what is taken from the text; a list of
elements or members takes its closing bracket too. -/
theorem weight_readsValue : ∀ {cs v rest}, ReadsValue cs v rest → weight (render v) + weight rest ≤ weight cs
  | _, _, _, .str h => weight_quote_readsString h
  | _, _, rest, .emptyObj h => by
    have h1 := weight_after rfl h
    rw [weight_cons_of_counted rfl]
    show 2 + weight rest ≤ _
    omega
  | _, _, _, @ReadsValue.obj cs kvs _ h => by
    have h1 := weight_readsMembers h
    have h2 := weight_skipWs cs
    have h3 := membersWeight_dictOf kvs
    rw [weight_obj, weight_cons_of_counted rfl]
    omega
  | _, _, rest, .emptyArr h => by
    have h1 := weight_after rfl h
    rw [weight_cons_of_counted rfl]
    show 2 + weight rest ≤ _
    omega
  | _, _, _, @ReadsValue.arr cs _ _ h => by
    have h1 := weight_readsElems h
    have h2 := weight_skipWs cs
    rw [weight_arr, weight_cons_of_counted rfl]
    omega
  | _, _, _, .number h => weight_scanNumber h
  | _, _, _, .word h => weight_scanWord render_words h

theorem weight_readsElems : ∀ {cs vs rest}, ReadsElems cs vs rest → elemsWeight vs + 1 + weight rest ≤ weight cs
  | _, _, _, @ReadsElems.last _ v _ _ hv hb => by
    have h1 := weight_readsValue hv
    have h2 := weight_after rfl hb
    show weight (render v) + 0 + 1 + _ ≤ _
    omega
  | _, _, _, @ReadsElems.next _ v _ u vs _ hv hc h => by
    have h1 := weight_readsValue hv
    have h2 := weight_after_comma hc
    have h3 := weight_readsElems h
    have h4 := weight_skipWs u
    show weight (render v) + elemsWeight vs + 1 + _ ≤ _
    omega

theorem weight_readsMembers : ∀ {cs kvs rest}, ReadsMembers cs kvs rest →
    membersWeight kvs + 1 + weight rest ≤ weight cs
  | _, _, _, @ReadsMembers.last _ key _ u v _ _ hk hc hv hb => by
    have h1 := weight_quote_readsString hk
    have h2 := weight_after rfl hc
    have h3 := weight_skipWs u
    have h4 := weight_readsValue hv
    have h5 := weight_after rfl hb
    show weight (renderString (String.ofList key)) + 1 + weight (render v) + 0 + 1 + _ ≤ _
    omega
  | _, _, _, @ReadsMembers.next _ key _ u v _ x kvs _ hk hc hv hd h => by
    have h1 := weight_quote_readsString hk
    have h2 := weight_after rfl hc
    have h3 := weight_skipWs u
    have h4 := weight_readsValue hv
    have h5 := weight_after_comma hd
    have h6 := weight_skipWs x
    have h7 := weight_readsMembers h
    show weight (renderString (String.ofList key)) + 1 + weight (render v) + membersWeight kvs + 1 + _ ≤ _
    omega

end

/-- A value that is read from a text is not written longer than that. -/
theorem weight_loads {text : String} {v : Json} (h : loads text = some v) :
    weight (render v) ≤ weight text.toList := by
  obtain ⟨rest, hr, -⟩ := reads_of_loads h
  have h1 := weight_readsValue hr
  have h2 := weight_skipWs text.toList
  omega

end Json
