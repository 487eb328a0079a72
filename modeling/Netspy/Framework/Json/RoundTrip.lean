import Netspy.Framework.Json.Number

/-!
# Reading back what was written

A value is `WF` if its floats are texts of floats and the keys of its objects
are distinct, which Python's values are. `loads_dumps`: reading what a `WF`
value was written as gives the value.
-/

namespace Json

/-! ## Strings -/

theorem hexVal_digitChar : ∀ n < 16, hexVal (Nat.digitChar n) = some n := by decide

theorem codeUnit_control {n : Nat} (h : n < 0x20) :
    codeUnit '0' '0' (Nat.digitChar (n / 16)) (Nat.digitChar (n % 16)) = some n := by
  have h0 : hexVal '0' = some 0 := by decide
  have h1 := hexVal_digitChar (n / 16) (by omega)
  have h2 := hexVal_digitChar (n % 16) (by omega)
  simp only [codeUnit, h0, h1, h2, Option.bind_eq_bind, Option.bind_some, Option.pure_def]
  congr 1
  omega

/-- The letters behind the backslash of a short escape. -/
def shortEscapes : List Char := ['"', '\\', 'n', 'r', 't', 'f', 'b']

theorem of_shortEscapes {p : Char → Prop} [DecidablePred p] (h : (shortEscapes.all fun e => decide (p e)) = true) {e : Char}
    (he : e ∈ shortEscapes) : p e := of_decide_eq_true (List.all_eq_true.mp h e he)

/-- What is so of these letters and of what they stand for. -/
theorem of_unescape {p : Char → Char → Prop} [∀ e c, Decidable (p e c)] {es : List Char}
    (h : (es.all fun e => (unescape e).all fun c => decide (p e c)) = true) {e c : Char} (he : e ∈ es)
    (hc : unescape e = some c) : p e c := by
  have hall := List.all_eq_true.mp h e he
  rw [hc] at hall
  exact of_decide_eq_true hall

/-- A character is written with a short escape, as a code unit, or as it is. -/
theorem escapeChar_cases (c : Char) :
    (∃ e ∈ shortEscapes, unescape e = some c ∧ escapeChar c = ['\\', e]) ∨
      (c.toNat < 0x20 ∧
        escapeChar c = ['\\', 'u', '0', '0'] ++ [Nat.digitChar (c.toNat / 16), Nat.digitChar (c.toNat % 16)]) ∨
      (c ≠ '"' ∧ c ≠ '\\' ∧ ¬ c.toNat < 0x20) ∧ escapeChar c = [c] := by
  by_cases hshort : ∃ e ∈ shortEscapes, unescape e = some c
  · obtain ⟨e, he, hc⟩ := hshort
    have hw : escapeChar c = ['\\', e] := of_unescape (p := fun e c => escapeChar c = ['\\', e]) (by decide) he hc
    exact .inl ⟨e, he, hc, hw⟩
  · have hnot (e d : Char) (he : e ∈ shortEscapes) (hd : unescape e = some d) : c ≠ d := fun h => hshort ⟨e, he, h ▸ hd⟩
    have hquote : c ≠ '"' := hnot '"' '"' (by decide) rfl
    have hbackslash : c ≠ '\\' := hnot '\\' '\\' (by decide) rfl
    rw [escapeChar, if_neg hquote, if_neg hbackslash, if_neg (hnot 'n' '\n' (by decide) rfl),
      if_neg (hnot 'r' '\r' (by decide) rfl), if_neg (hnot 't' '\t' (by decide) rfl),
        if_neg (hnot 'f' '\x0c' (by decide) rfl),
      if_neg (hnot 'b' '\x08' (by decide) rfl)]
    by_cases hlt : c.toNat < 0x20
    · exact .inr (.inl ⟨hlt, if_pos hlt⟩)
    · exact .inr (.inr ⟨⟨hquote, hbackslash, hlt⟩, if_neg hlt⟩)

/-- A character is read back from what it is written as. -/
theorem scanString_escapeChar (c : Char) (cs : List Char) :
    scanString (escapeChar c ++ cs) = (scanString cs).map (consChar c) := by
  rcases escapeChar_cases c with ⟨e, he, hc, hw⟩ | ⟨hlt, hw⟩ | ⟨⟨hq, hb, hn⟩, hw⟩
  · have hletter : e ≠ 'u' := of_shortEscapes (p := fun e => e ≠ 'u') (by decide) he
    simp [hw, scanString, hletter, hc]
  · have hc := codeUnit_control hlt
    simp only [hw, List.cons_append, List.nil_append, scanString, hc]
    rw [if_neg (by omega), if_neg (by omega), Char.ofNat_toNat]
  · simp [hw, scanString, hb, hn]

theorem scanString_escaped (s cs : List Char) :
    scanString (s.flatMap escapeChar ++ '"' :: cs) = some (s, cs) := by
  induction s with
  | nil => rfl
  | cons c s ih =>
    rw [List.flatMap_cons, List.append_assoc, scanString_escapeChar, ih]
    rfl

theorem scanString_rendered (s : String) (cs : List Char) :
    scanString (s.toList.flatMap escapeChar ++ ['"'] ++ cs) = some (s.toList, cs) := by
  rw [List.append_assoc]
  exact scanString_escaped _ cs

/-! ## Values -/

/-- The text of a float. -/
def IsFloat (text : String) : Prop :=
  scanNumber text.toList = some (.float text, []) ∨ text = "NaN" ∨ text = "Infinity" ∨ text = "-Infinity"

mutual

def WF : Json → Prop
  | .float text => IsFloat text
  | .arr vs => WFElems vs
  | .obj kvs => (kvs.map Prod.fst).Nodup ∧ WFMembers kvs
  | _ => True

def WFElems : List Json → Prop
  | [] => True
  | v :: vs => WF v ∧ WFElems vs

def WFMembers : List (String × Json) → Prop
  | [] => True
  | (_, v) :: kvs => WF v ∧ WFMembers kvs

end

/-- What a value may start with: no blank, no closing bracket. -/
def IsHead (c : Char) : Prop := (0x20 < c.toNat ∧ c.toNat < 0x80) ∧ c ≠ ']' ∧ c ≠ '}'

instance (c : Char) : Decidable (IsHead c) := inferInstanceAs (Decidable (_ ∧ _))

theorem IsHead.notWhitespace {c : Char} (h : IsHead c) : isWhitespace c = false := by
  by_contra hw
  simp only [isWhitespace, Bool.not_eq_false, Bool.or_eq_true, decide_eq_true_eq] at hw
  rcases hw with ((rfl | rfl) | rfl) | rfl <;> exact absurd h.1.1 (by decide)

theorem skipWs_head {c : Char} {cs : List Char} (h : IsHead c) : skipWs (c :: cs) = c :: cs := by
  rw [skipWs, List.dropWhile_cons, h.notWhitespace]
  rfl

theorem skipWs_space (cs : List Char) : skipWs (' ' :: cs) = skipWs cs := rfl

theorem isHead_numChar {c : Char} (h : isNumChar c = true) :
    IsHead c ∧ c ≠ '"' ∧ c ≠ '{' ∧ c ≠ '[' := by
  refine ⟨⟨numChar_range h, ?_, ?_⟩, ?_, ?_, ?_⟩
  all_goals
    rintro rfl
    exact absurd h (by decide)

/-- The text of a float, and of an integer, is scanned as a value. -/
theorem scanValue_number {text rest : List Char} {v : Json} (n : Nat) (h : scanNumber text = some (v, []))
    (hr : Stops rest) :
    scanValue (n + 1) (text ++ rest) = some (v, rest) ∧ ∃ c cs, text = c :: cs ∧ IsHead c := by
  obtain ⟨t, h1, h2, h3, -⟩ := scanNumber_split h
  rw [List.append_nil] at h1
  subst h1
  obtain ⟨c, cs, rfl⟩ := List.exists_cons_of_ne_nil h2
  obtain ⟨hc, hq, hb, ha⟩ := isHead_numChar (h3 c List.mem_cons_self)
  refine ⟨?_, c, cs, rfl, hc⟩
  have hs := scanNumber_append hr h
  rw [List.cons_append] at hs ⊢
  rw [scanValue, if_neg hq, if_neg hb, if_neg ha, hs]
  rfl

theorem scanValue_float {text : String} {rest : List Char} (n : Nat) (h : IsFloat text) (hr : Stops rest) :
    scanValue (n + 1) (text.toList ++ rest) = some (.float text, rest) ∧
      ∃ c cs, text.toList = c :: cs ∧ IsHead c := by
  rcases h with h | rfl | rfl | rfl
  · exact scanValue_number n h hr
  · exact ⟨rfl, 'N', _, rfl, by decide⟩
  · exact ⟨rfl, 'I', _, rfl, by decide⟩
  · exact ⟨rfl, '-', _, rfl, by decide⟩

theorem scanNumber_renderInt_nil (i : Int) : scanNumber (renderInt i) = some (.int i, []) := by
  have h := scanNumber_renderInt i stops_nil
  rwa [List.append_nil] at h

theorem render_head {v : Json} (h : v.WF) : ∃ c cs, render v = c :: cs ∧ IsHead c := by
  cases v with
  | null => exact ⟨'n', _, rfl, by decide⟩
  | bool b => cases b <;> exact ⟨_, _, rfl, by decide⟩
  | int i => exact (scanValue_number 0 (scanNumber_renderInt_nil i) stops_nil).2
  | float text => exact (scanValue_float 0 h stops_nil).2
  | str s => exact ⟨'"', _, rfl, by decide⟩
  | arr vs => exact ⟨'[', _, rfl, by decide⟩
  | obj kvs => exact ⟨'{', _, rfl, by decide⟩

theorem skipWs_render {v : Json} (h : v.WF) (rest : List Char) :
    skipWs (render v ++ rest) = render v ++ rest := by
  obtain ⟨c, cs, hc, hh⟩ := render_head h
  rw [hc, List.cons_append, skipWs_head hh]

theorem setItem_new {kvs : List (String × Json)} {k : String} {v : Json} (h : k ∉ kvs.map Prod.fst) :
    setItem kvs k v = kvs ++ [(k, v)] := by
  induction kvs with
  | nil => rfl
  | cons kv kvs ih =>
    rw [List.map_cons, List.mem_cons, not_or] at h
    rw [setItem, if_neg (Ne.symm h.1), ih h.2]
    rfl

/-- A dict of pairs with distinct keys has just these. -/
theorem dictOf_nodup {kvs : List (String × Json)} (h : (kvs.map Prod.fst).Nodup) : dictOf kvs = kvs := by
  have hgo : ∀ (acc rest : List (String × Json)), ((acc ++ rest).map Prod.fst).Nodup →
      rest.foldl (fun kvs kv => setItem kvs kv.1 kv.2) acc = acc ++ rest := by
    intro acc rest
    induction rest generalizing acc with
    | nil => exact fun _ => (List.append_nil acc).symm
    | cons kv rest ih =>
      intro hn
      have hk : kv.1 ∉ acc.map Prod.fst := by
        rw [List.map_append, List.nodup_append] at hn
        exact fun hm => hn.2.2 _ hm _ (List.mem_map_of_mem List.mem_cons_self) rfl
      rw [List.foldl_cons, setItem_new hk, ih _ (by simpa using hn), List.append_assoc]
      rfl
  exact hgo [] kvs h

theorem mem_setItem {kvs : List (String × Json)} {k : String} {v : Json} {kv : String × Json}
    (h : kv ∈ setItem kvs k v) : kv ∈ kvs ∨ kv = (k, v) := by
  induction kvs with
  | nil => exact .inr (List.mem_singleton.mp h)
  | cons kv' kvs ih =>
    rw [setItem] at h
    split at h
    · rename_i hk
      rcases List.mem_cons.mp h with rfl | h
      · exact .inr (by rw [hk])
      · exact .inl (List.mem_cons_of_mem _ h)
    · rcases List.mem_cons.mp h with rfl | h
      · exact .inl List.mem_cons_self
      · exact (ih h).imp_left (List.mem_cons_of_mem _)

theorem mem_dictOf {pairs : List (String × Json)} {kv : String × Json} (h : kv ∈ dictOf pairs) : kv ∈ pairs := by
  have hgo : ∀ (pairs acc : List (String × Json)), kv ∈ pairs.foldl (fun kvs kv => setItem kvs kv.1 kv.2) acc →
      kv ∈ acc ∨ kv ∈ pairs := by
    intro pairs
    induction pairs with
    | nil => exact fun acc h => .inl h
    | cons p pairs ih =>
      intro acc h
      rcases ih _ h with h | h
      · rcases mem_setItem h with h | rfl
        · exact .inl h
        · exact .inr List.mem_cons_self
      · exact .inr (List.mem_cons_of_mem _ h)
  exact (hgo pairs [] h).resolve_left List.not_mem_nil

theorem nodup_setItem {kvs : List (String × Json)} (h : (kvs.map Prod.fst).Nodup) (k : String) (v : Json) :
    ((setItem kvs k v).map Prod.fst).Nodup := by
  induction kvs with
  | nil => simp [setItem]
  | cons kv kvs ih =>
    rw [List.map_cons, List.nodup_cons] at h
    rw [setItem]
    split
    · exact List.nodup_cons.mpr h
    · rename_i hk
      refine List.nodup_cons.mpr ⟨fun hm => ?_, ih h.2⟩
      obtain ⟨kv', hkv', he⟩ := List.mem_map.mp hm
      rcases mem_setItem hkv' with hkv' | rfl
      · exact h.1 (he ▸ List.mem_map_of_mem hkv')
      · exact hk he.symm

/-- A dict has each key once. -/
theorem nodup_dictOf (pairs : List (String × Json)) : ((dictOf pairs).map Prod.fst).Nodup := by
  have hgo : ∀ acc : List (String × Json), (acc.map Prod.fst).Nodup →
      ((pairs.foldl (fun kvs kv => setItem kvs kv.1 kv.2) acc).map Prod.fst).Nodup := by
    induction pairs with
    | nil => exact fun acc h => h
    | cons p pairs ih => exact fun acc h => ih _ (nodup_setItem h p.1 p.2)
  exact hgo [] List.nodup_nil

theorem wfMembers_iff {kvs : List (String × Json)} : WFMembers kvs ↔ ∀ kv ∈ kvs, kv.2.WF := by
  induction kvs with
  | nil => simp [WFMembers]
  | cons kv kvs ih => rw [WFMembers, List.forall_mem_cons, ih]

theorem stops_comma (cs : List Char) : Stops (',' :: cs) := stops_cons rfl
theorem stops_bracket (cs : List Char) : Stops (']' :: cs) := stops_cons rfl
theorem stops_brace (cs : List Char) : Stops ('}' :: cs) := stops_cons rfl

theorem renderElems_cons (v : Json) (vs : List Json) : ∃ t, renderElems (v :: vs) = render v ++ t := by
  cases vs with
  | nil => exact ⟨[], (List.append_nil _).symm⟩
  | cons w vs => exact ⟨_, rfl⟩

theorem renderMembers_cons (kv : String × Json) (kvs : List (String × Json)) :
    ∃ t, renderMembers (kv :: kvs) = '"' :: t := by
  cases kvs <;> exact ⟨_, rfl⟩

theorem isHead_quote : IsHead '"' := by decide

/-! The steps of an array and of an object, given how the parts are scanned. -/

section
variable {n : Nat} {v : Json} {vs : List Json} {k : String} {kvs : List (String × Json)} {t rest : List Char}

theorem scanElems_last (hv : scanValue n (render v ++ ']' :: rest) = some (v, ']' :: rest)) :
    scanElems (n + 1) (renderElems [v] ++ ']' :: rest) = some ([v], rest) := by
  rw [renderElems, scanElems, hv]
  rfl

theorem scanElems_next (hv : scanValue n (render v ++ ',' :: ' ' :: t) = some (v, ',' :: ' ' :: t))
    (ht : skipWs t = t) (hvs : scanElems n t = some (vs, rest)) :
    scanElems (n + 1) (render v ++ ',' :: ' ' :: t) = some (v :: vs, rest) := by
  rw [scanElems, hv]
  show (scanElems n (skipWs (' ' :: t))).map _ = _
  rw [skipWs_space, ht, hvs]
  rfl

theorem scanArr (hv : v.WF) (hvs : scanElems n (renderElems (v :: vs) ++ ']' :: rest) = some (v :: vs, rest)) :
    scanValue (n + 1) (render (.arr (v :: vs)) ++ rest) = some (.arr (v :: vs), rest) := by
  obtain ⟨t, ht⟩ := renderElems_cons v vs
  obtain ⟨c, cs, hc, hh⟩ := render_head hv
  have hr : render (.arr (v :: vs)) ++ rest = '[' :: (renderElems (v :: vs) ++ ']' :: rest) := by
    simp [render]
  rw [ht, hc, List.cons_append, List.cons_append] at hvs
  rw [hr, ht, hc, List.cons_append, List.cons_append, scanValue, if_neg (by decide), if_neg (by decide),
    if_pos rfl, skipWs_head hh]
  dsimp only
  rw [if_neg hh.2.1, hvs]
  rfl

/-- A member up to its value. -/
theorem scanMembers_key (t : List Char) (hv : skipWs t = t) :
    scanMembers (n + 1) (renderString k ++ ':' :: ' ' :: t) =
      match scanValue n t with
      | none => none
      | some (v, rest) =>
        match skipWs rest with
        | [] => none
        | d :: rest =>
          if d = '}' then some ([(k, v)], rest)
          else if d = ',' then (scanMembers n (skipWs rest)).map fun p => ((k, v) :: p.1, p.2)
          else none := by
  rw [renderString, List.cons_append, List.cons_append, scanMembers, if_pos rfl, scanString_rendered]
  show (match scanValue n (skipWs (' ' :: t)) with
    | none => none
    | some (v, rest) => _) = _
  rewrite [skipWs_space, hv, String.ofList_toList]
  rfl

theorem scanMembers_last (hwf : v.WF) (hv : scanValue n (render v ++ '}' :: rest) = some (v, '}' :: rest)) :
    scanMembers (n + 1) (renderMembers [(k, v)] ++ '}' :: rest) = some ([(k, v)], rest) := by
  rw [renderMembers, List.append_assoc, List.cons_append, List.cons_append,
    scanMembers_key _ (skipWs_render hwf _), hv]
  rfl

theorem scanMembers_next (hwf : v.WF)
    (hv : scanValue n (render v ++ ',' :: ' ' :: t) = some (v, ',' :: ' ' :: t))
    (ht : skipWs t = t) (hkvs : scanMembers n t = some (kvs, rest)) :
    scanMembers (n + 1) (renderString k ++ ':' :: ' ' :: (render v ++ ',' :: ' ' :: t)) =
      some ((k, v) :: kvs, rest) := by
  rw [scanMembers_key _ (skipWs_render hwf _), hv]
  show (scanMembers n (skipWs (' ' :: t))).map _ = _
  rw [skipWs_space, ht, hkvs]
  rfl

theorem scanObj {kv : String × Json} (hd : ((kv :: kvs).map Prod.fst).Nodup)
    (hkvs : scanMembers n (renderMembers (kv :: kvs) ++ '}' :: rest) = some (kv :: kvs, rest)) :
    scanValue (n + 1) (render (.obj (kv :: kvs)) ++ rest) = some (.obj (kv :: kvs), rest) := by
  obtain ⟨t, ht⟩ := renderMembers_cons kv kvs
  have hr : render (.obj (kv :: kvs)) ++ rest = '{' :: (renderMembers (kv :: kvs) ++ '}' :: rest) := by
    simp [render]
  rw [ht, List.cons_append] at hkvs
  rw [hr, ht, List.cons_append, scanValue, if_neg (by decide), if_pos rfl, skipWs_head isHead_quote]
  dsimp only
  rw [if_neg (by decide), hkvs, Option.map_some, dictOf_nodup hd]

end

mutual

theorem scanValue_render : ∀ (v : Json) (_ : v.WF) (n : Nat) (_ : (render v).length ≤ n) (rest : List Char)
    (_ : Stops rest), scanValue n (render v ++ rest) = some (v, rest)
  | v, h, 0, hn, _, _ => by
    obtain ⟨c, cs, hc, -⟩ := render_head h
    rw [hc] at hn
    exact absurd hn (Nat.not_succ_le_zero _)
  | .null, _, n + 1, _, rest, _ => rfl
  | .bool true, _, n + 1, _, rest, _ => rfl
  | .bool false, _, n + 1, _, rest, _ => rfl
  | .int i, _, n + 1, _, rest, hr => (scanValue_number n (scanNumber_renderInt_nil i) hr).1
  | .float text, h, n + 1, _, rest, hr => (scanValue_float n h hr).1
  | .str s, _, n + 1, _, rest, _ => by
    rw [render, renderString, List.cons_append, List.cons_append, scanValue, if_pos rfl, scanString_rendered,
      Option.map_some, String.ofList_toList]
  | .arr [], _, n + 1, _, rest, _ => rfl
  | .arr (v :: vs), h, n + 1, hn, rest, _ => by
    refine scanArr h.1 (scanElems_render v vs h n ?_ rest)
    simpa [render] using hn
  | .obj [], _, n + 1, _, rest, _ => rfl
  | .obj ((k, v) :: kvs), h, n + 1, hn, rest, _ => by
    refine scanObj h.1 (scanMembers_render k v kvs h.2 n ?_ rest)
    simpa [render] using hn

theorem scanElems_render : ∀ (v : Json) (vs : List Json) (_ : WFElems (v :: vs)) (n : Nat)
    (_ : (renderElems (v :: vs)).length + 1 ≤ n) (rest : List Char),
    scanElems n (renderElems (v :: vs) ++ ']' :: rest) = some (v :: vs, rest)
  | _, _, _, 0, hn, _ => absurd hn (Nat.not_succ_le_zero _)
  | v, [], h, n + 1, hn, rest => by
    exact scanElems_last (scanValue_render v h.1 n (Nat.le_of_succ_le_succ hn) _ (stops_bracket rest))
  | v, w :: vs, h, n + 1, hn, rest => by
    have hl : (render v).length + (renderElems (w :: vs)).length + 2 ≤ n := by
      simp only [renderElems, List.length_append, List.length_cons] at hn ⊢
      omega
    obtain ⟨t, ht⟩ := renderElems_cons w vs
    rw [renderElems, List.append_assoc, List.cons_append, List.cons_append]
    · refine scanElems_next (scanValue_render v h.1 n (by omega) _ (stops_comma _)) ?_
        (scanElems_render w vs h.2 n (by omega) rest)
      rw [ht, List.append_assoc]
      exact skipWs_render h.2.1 _
    · exact List.cons_ne_nil w vs

theorem scanMembers_render : ∀ (k : String) (v : Json) (kvs : List (String × Json))
    (_ : WFMembers ((k, v) :: kvs)) (n : Nat) (_ : (renderMembers ((k, v) :: kvs)).length + 1 ≤ n)
    (rest : List Char), scanMembers n (renderMembers ((k, v) :: kvs) ++ '}' :: rest) = some ((k, v) :: kvs, rest)
  | _, _, _, _, 0, hn, _ => absurd hn (Nat.not_succ_le_zero _)
  | k, v, [], h, n + 1, hn, rest => by
    have hl : (render v).length ≤ n := by
      simp only [renderMembers, List.length_append, List.length_cons] at hn
      omega
    exact scanMembers_last h.1 (scanValue_render v h.1 n hl _ (stops_brace rest))
  | k, v, (k', v') :: kvs, h, n + 1, hn, rest => by
    have hl : (render v).length + (renderMembers ((k', v') :: kvs)).length + 4 ≤ n := by
      simp only [renderMembers, List.length_append, List.length_cons] at hn ⊢
      omega
    obtain ⟨t, ht⟩ := renderMembers_cons (k', v') kvs
    have hr : renderMembers ((k, v) :: (k', v') :: kvs) ++ '}' :: rest =
        renderString k ++ ':' :: ' ' ::
          (render v ++ ',' :: ' ' :: (renderMembers ((k', v') :: kvs) ++ '}' :: rest)) := by
      simp [renderMembers]
    rw [hr]
    refine scanMembers_next h.1 (scanValue_render v h.1 n (by omega) _ (stops_comma _)) ?_
      (scanMembers_render k' v' kvs h.2 n (by omega) rest)
    rw [ht]
    exact skipWs_head isHead_quote

end

/-- Reading what a value was written as gives the value. -/
theorem loads_dumps {v : Json} (h : v.WF) : loads (dumps v) = some v := by
  rw [loads, dumps, String.toList_ofList]
  have hs := scanValue_render v h ((render v).length + 1) (Nat.le_succ _) [] stops_nil
  have hw := skipWs_render h []
  rw [List.append_nil] at hs hw
  rw [hw, hs]
  rfl

end Json
