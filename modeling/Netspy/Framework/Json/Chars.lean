import Netspy.Framework.Json.RoundTrip

/-!
# The characters of a written value

Control characters are escaped, and characters from U+0080 on are written as
they are: those of a written value are those of its strings and keys
(`mem_render`, `mem_render_of_chars`).
-/

namespace Json

mutual

/-- The characters of the strings and keys of a value. -/
def chars : Json → List Char
  | .str s => s.toList
  | .arr vs => charsElems vs
  | .obj kvs => charsMembers kvs
  | _ => []

def charsElems : List Json → List Char
  | [] => []
  | v :: vs => chars v ++ charsElems vs

def charsMembers : List (String × Json) → List Char
  | [] => []
  | (k, v) :: kvs => k.toList ++ (chars v ++ charsMembers kvs)

end

def IsAscii (c : Char) : Prop := 0x20 ≤ c.toNat ∧ c.toNat < 0x80

/-- A character that may stand in a written value with the characters `cs`. -/
def Written (cs : List Char) (c : Char) : Prop := 0x20 ≤ c.toNat ∧ (c.toNat < 0x80 ∨ c ∈ cs)

theorem IsAscii.written {c : Char} (h : IsAscii c) (cs : List Char) : Written cs c := ⟨h.1, .inl h.2⟩

theorem Written.mono {cs ds : List Char} {c : Char} (h : Written cs c) (hs : ∀ d ∈ cs, d ∈ ds) : Written ds c :=
  ⟨h.1, h.2.imp_right (hs c)⟩

instance (c : Char) : Decidable (IsAscii c) := inferInstanceAs (Decidable (_ ∧ _))

theorem isAscii_digitChar : ∀ n < 16, IsAscii (Nat.digitChar n) := by decide

theorem isAscii_of_all {ds : List Char} (h : (ds.all fun c => decide (IsAscii c)) = true) : ∀ c ∈ ds, IsAscii c :=
  fun c hc => of_decide_eq_true (List.all_eq_true.mp h c hc)

theorem written_of_all {cs ds : List Char} {d : Char} (h : ∀ c ∈ ds, IsAscii c) (hd : d ∈ ds) : Written cs d :=
  (h d hd).written cs

theorem mem_escapeChar {c d : Char} (h : d ∈ escapeChar c) : Written [c] d := by
  rcases escapeChar_cases c with ⟨e, he, -, hw⟩ | ⟨hlt, hw⟩ | ⟨⟨-, -, hn⟩, hw⟩
  · have hletter : IsAscii e := of_shortEscapes (p := IsAscii) (by decide) he
    have hall : ∀ e' ∈ ['\\', e], IsAscii e' := by simpa using ⟨by decide, hletter⟩
    exact written_of_all hall (hw ▸ h)
  · have hd : ∀ e ∈ [Nat.digitChar (c.toNat / 16), Nat.digitChar (c.toNat % 16)], IsAscii e := by
      intro e he
      simp only [List.mem_cons, List.not_mem_nil, or_false] at he
      rcases he with rfl | rfl <;> exact isAscii_digitChar _ (by omega)
    have hu : ∀ e ∈ ['\\', 'u', '0', '0'], IsAscii e := isAscii_of_all rfl
    exact written_of_all (List.forall_mem_append.mpr ⟨hu, hd⟩) (hw ▸ h)
  · rw [hw, List.mem_singleton] at h
    rw [h]
    exact ⟨Nat.le_of_not_lt hn, .inr List.mem_cons_self⟩

theorem mem_escapeChar_self {c : Char} (h : 0x80 ≤ c.toNat) : c ∈ escapeChar c := by
  rcases escapeChar_cases c with ⟨e, he, hc, -⟩ | ⟨hlt, -⟩ | ⟨-, hw⟩
  · have hlt : c.toNat < 0x80 := of_unescape (p := fun _ c => c.toNat < 0x80) (by decide) he hc
    omega
  · omega
  · rw [hw]
    exact List.mem_singleton_self c

theorem mem_renderString {s : String} {d : Char} (h : d ∈ renderString s) : Written s.toList d := by
  rw [renderString, List.mem_append, List.mem_cons, List.mem_singleton, List.mem_flatMap] at h
  rcases h with (rfl | ⟨c, hc, hd⟩) | rfl
  · exact IsAscii.written (by decide) _
  · exact (mem_escapeChar hd).mono fun e he => List.mem_singleton.mp he ▸ hc
  · exact IsAscii.written (by decide) _

theorem mem_renderString_self {s : String} {c : Char} (hc : c ∈ s.toList) (h : 0x80 ≤ c.toNat) :
    c ∈ renderString s := by
  rw [renderString, List.mem_append, List.mem_cons, List.mem_flatMap]
  exact .inl (.inr ⟨c, hc, mem_escapeChar_self h⟩)

theorem isAscii_numChar {c : Char} (h : isNumChar c = true) : IsAscii c :=
  ⟨(numChar_range h).1.le, (numChar_range h).2⟩

theorem isAscii_number {text : List Char} {v : Json} (h : scanNumber text = some (v, [])) :
    ∀ c ∈ text, IsAscii c := by
  obtain ⟨t, h1, -, h3, -⟩ := scanNumber_split h
  rw [List.append_nil] at h1
  exact h1 ▸ fun c hc => isAscii_numChar (h3 c hc)

theorem isAscii_float {text : String} (h : IsFloat text) : ∀ c ∈ text.toList, IsAscii c := by
  rcases h with h | rfl | rfl | rfl
  · exact isAscii_number h
  all_goals exact isAscii_of_all rfl

mutual

theorem mem_render : ∀ (v : Json) (_ : v.WF) {c : Char} (_ : c ∈ render v), Written (chars v) c
  | .null, _, _, h => written_of_all (isAscii_of_all rfl) h
  | .bool true, _, _, h => written_of_all (isAscii_of_all rfl) h
  | .bool false, _, _, h => written_of_all (isAscii_of_all rfl) h
  | .int i, _, _, h => written_of_all (isAscii_number (scanNumber_renderInt_nil i)) h
  | .float _, hw, _, h => written_of_all (isAscii_float hw) h
  | .str _, _, _, h => mem_renderString h
  | .arr vs, hw, c, h => by
    rw [render, List.mem_append, List.mem_cons, List.mem_singleton] at h
    rcases h with (rfl | h) | rfl
    · exact IsAscii.written (by decide) _
    · exact mem_renderElems vs hw h
    · exact IsAscii.written (by decide) _
  | .obj kvs, hw, c, h => by
    rw [render, List.mem_append, List.mem_cons, List.mem_singleton] at h
    rcases h with (rfl | h) | rfl
    · exact IsAscii.written (by decide) _
    · exact mem_renderMembers kvs hw.2 h
    · exact IsAscii.written (by decide) _

theorem mem_renderElems : ∀ (vs : List Json) (_ : WFElems vs) {c : Char} (_ : c ∈ renderElems vs),
    Written (charsElems vs) c
  | [], _, _, h => absurd h List.not_mem_nil
  | [v], hw, _, h => (mem_render v hw.1 h).mono fun _ hd => List.mem_append_left _ hd
  | v :: w :: vs, hw, c, h => by
    rw [renderElems, List.mem_append, List.mem_cons, List.mem_cons] at h
    · rcases h with h | rfl | rfl | h
      · exact (mem_render v hw.1 h).mono fun _ hd => List.mem_append_left _ hd
      · exact IsAscii.written (by decide) _
      · exact IsAscii.written (by decide) _
      · exact (mem_renderElems (w :: vs) hw.2 h).mono fun _ hd => List.mem_append_right _ hd
    · exact List.cons_ne_nil w vs

theorem mem_renderMembers : ∀ (kvs : List (String × Json)) (_ : WFMembers kvs) {c : Char}
    (_ : c ∈ renderMembers kvs), Written (charsMembers kvs) c
  | [], _, _, h => absurd h List.not_mem_nil
  | [(k, v)], hw, c, h => by
    rw [renderMembers, List.mem_append, List.mem_cons, List.mem_cons] at h
    rcases h with h | rfl | rfl | h
    · exact (mem_renderString h).mono fun _ hd => List.mem_append_left _ hd
    · exact IsAscii.written (by decide) _
    · exact IsAscii.written (by decide) _
    · exact (mem_render v hw.1 h).mono fun _ hd => List.mem_append_right _ (List.mem_append_left _ hd)
  | (k, v) :: kv :: kvs, hw, c, h => by
    rw [renderMembers, List.mem_append, List.mem_cons, List.mem_cons, List.mem_append, List.mem_cons,
      List.mem_cons] at h
    · rcases h with h | rfl | rfl | h | rfl | rfl | h
      · exact (mem_renderString h).mono fun _ hd => List.mem_append_left _ hd
      · exact IsAscii.written (by decide) _
      · exact IsAscii.written (by decide) _
      · exact (mem_render v hw.1 h).mono fun _ hd => List.mem_append_right _ (List.mem_append_left _ hd)
      · exact IsAscii.written (by decide) _
      · exact IsAscii.written (by decide) _
      · exact (mem_renderMembers (kv :: kvs) hw.2 h).mono fun _ hd =>
          List.mem_append_right _ (List.mem_append_right _ hd)
    · exact List.cons_ne_nil kv kvs

end

mutual

theorem mem_render_of_chars : ∀ (v : Json) {c : Char} (_ : c ∈ chars v) (_ : 0x80 ≤ c.toNat), c ∈ render v
  | .null, _, h, _ => absurd h List.not_mem_nil
  | .bool _, _, h, _ => absurd h List.not_mem_nil
  | .int _, _, h, _ => absurd h List.not_mem_nil
  | .float _, _, h, _ => absurd h List.not_mem_nil
  | .str _, _, h, hc => mem_renderString_self h hc
  | .arr vs, _, h, hc => List.mem_append_left _ (List.mem_cons_of_mem _ (mem_renderElems_of_chars vs h hc))
  | .obj kvs, _, h, hc => List.mem_append_left _ (List.mem_cons_of_mem _ (mem_renderMembers_of_chars kvs h hc))

theorem mem_renderElems_of_chars : ∀ (vs : List Json) {c : Char} (_ : c ∈ charsElems vs) (_ : 0x80 ≤ c.toNat),
    c ∈ renderElems vs
  | [], _, h, _ => absurd h List.not_mem_nil
  | [v], _, h, hc => mem_render_of_chars v ((List.mem_append.mp h).resolve_right List.not_mem_nil) hc
  | v :: w :: vs, c, h, hc => by
    rw [renderElems, List.mem_append, List.mem_cons, List.mem_cons]
    · rcases List.mem_append.mp h with h | h
      · exact .inl (mem_render_of_chars v h hc)
      · exact .inr (.inr (.inr (mem_renderElems_of_chars (w :: vs) h hc)))
    · exact List.cons_ne_nil w vs

theorem mem_renderMembers_of_chars : ∀ (kvs : List (String × Json)) {c : Char} (_ : c ∈ charsMembers kvs)
    (_ : 0x80 ≤ c.toNat), c ∈ renderMembers kvs
  | [], _, h, _ => absurd h List.not_mem_nil
  | [(k, v)], c, h, hc => by
    rw [renderMembers, List.mem_append, List.mem_cons, List.mem_cons]
    rcases List.mem_append.mp h with h | h
    · exact .inl (mem_renderString_self h hc)
    · exact .inr (.inr (.inr (mem_render_of_chars v ((List.mem_append.mp h).resolve_right List.not_mem_nil) hc)))
  | (k, v) :: kv :: kvs, c, h, hc => by
    rw [renderMembers, List.mem_append, List.mem_cons, List.mem_cons, List.mem_append, List.mem_cons, List.mem_cons]
    · rcases List.mem_append.mp h with h | h
      · exact .inl (mem_renderString_self h hc)
      · rcases List.mem_append.mp h with h | h
        · exact .inr (.inr (.inr (.inl (mem_render_of_chars v h hc))))
        · exact .inr (.inr (.inr (.inr (.inr (.inr (mem_renderMembers_of_chars (kv :: kvs) h hc))))))
    · exact List.cons_ne_nil kv kvs

end

end Json
