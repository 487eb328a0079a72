import Mathlib.Data.List.Basic

/-!
# UTF-8

Texts as bytes, on lists. `decode` is strict: it undoes `encode`, and bytes
that no text encodes to are refused (`decode_eq_some`). `decodeReplace` puts
U+FFFD for what does not decode, and so it undoes nothing that has one
(`encode_decodeReplace`).
-/

namespace Utf8

def encode (cs : List Char) : List UInt8 := cs.flatMap String.utf8EncodeChar

@[simp] theorem encode_nil : encode [] = [] := rfl

@[simp] theorem encode_cons (c : Char) (cs : List Char) : encode (c :: cs) = String.utf8EncodeChar c ++ encode cs := rfl

@[simp] theorem encode_append (xs ys : List Char) : encode (xs ++ ys) = encode xs ++ encode ys :=
  List.flatMap_append

theorem encodeChar_ne_nil (c : Char) : String.utf8EncodeChar c ≠ [] := by
  intro h
  have hlen := String.length_utf8EncodeChar c
  rw [h, List.length_nil] at hlen
  exact absurd hlen (Nat.ne_of_lt c.utf8Size_pos)

/-- The character that the bytes begin with, and what follows it. -/
def next (bs : List UInt8) : Option (Char × List UInt8) :=
  (bs.toByteArray.utf8DecodeChar? 0).map fun c => (c, bs.drop c.utf8Size)

theorem next_encodeChar (c : Char) (bs : List UInt8) : next (String.utf8EncodeChar c ++ bs) = some (c, bs) := by
  have hdrop : (String.utf8EncodeChar c ++ bs).drop c.utf8Size = bs :=
    List.drop_left' (String.length_utf8EncodeChar c)
  rw [next, List.toByteArray_append, ByteArray.utf8DecodeChar?_utf8EncodeChar_append, Option.map_some, hdrop]

theorem eq_of_next {bs rest : List UInt8} {c : Char} (h : next bs = some (c, rest)) :
    bs = String.utf8EncodeChar c ++ rest := by
  obtain ⟨c', hc, he⟩ := Option.map_eq_some_iff.mp h
  obtain ⟨rfl, rfl⟩ := Prod.mk.inj he
  obtain ⟨l, hl⟩ := ByteArray.exists_of_utf8DecodeChar?_eq_some hc
  have hbs : bs = String.utf8EncodeChar c' ++ l.data.toList := by
    have hdata := congrArg (fun b : ByteArray => b.data.toList) hl
    simpa using hdata
  rw [hbs, List.drop_left' (String.length_utf8EncodeChar c')]

/-- The loop of a decoder, with fuel for each byte. -/
def decodeFrom : Nat → List UInt8 → Option (List Char)
  | _, [] => some []
  | 0, _ :: _ => none
  | fuel + 1, b :: bs =>
    match next (b :: bs) with
    | some (c, rest) => (decodeFrom fuel rest).map (c :: ·)
    | none => none

def decode (bs : List UInt8) : Option (List Char) := decodeFrom bs.length bs

theorem decodeFrom_encode (cs : List Char) {fuel : Nat} (h : (encode cs).length ≤ fuel) :
    decodeFrom fuel (encode cs) = some cs := by
  induction cs generalizing fuel with
  | nil => cases fuel <;> rfl
  | cons c cs ih =>
    rw [encode_cons] at h ⊢
    have hnext := next_encodeChar c (encode cs)
    cases hc : String.utf8EncodeChar c with
    | nil => exact absurd hc (encodeChar_ne_nil c)
    | cons b bs =>
      rw [hc, List.cons_append] at h hnext
      rw [List.cons_append]
      have hlen : (encode cs).length + 1 ≤ fuel := by
        rw [List.length_cons, List.length_append] at h
        omega
      obtain ⟨fuel, rfl⟩ : ∃ n, fuel = n + 1 := ⟨fuel - 1, by omega⟩
      rw [decodeFrom, hnext]
      exact congrArg (Option.map (c :: ·)) (ih (by omega))

theorem eq_encode_of_decodeFrom {fuel : Nat} {bs : List UInt8} {cs : List Char}
    (h : decodeFrom fuel bs = some cs) : bs = encode cs := by
  induction fuel generalizing bs cs with
  | zero =>
    cases bs with
    | nil => cases h; rfl
    | cons b bs => cases h
  | succ fuel ih =>
    cases bs with
    | nil => cases h; rfl
    | cons b bs =>
      rw [decodeFrom] at h
      cases hn : next (b :: bs) with
      | none => rw [hn] at h; cases h
      | some p =>
        obtain ⟨c, rest⟩ := p
        rw [hn] at h
        obtain ⟨cs', hcs, rfl⟩ := Option.map_eq_some_iff.mp h
        rw [eq_of_next hn, ih hcs, encode_cons]

theorem decode_eq_some {bs : List UInt8} {cs : List Char} : decode bs = some cs ↔ bs = encode cs := by
  constructor
  · exact eq_encode_of_decodeFrom
  · rintro rfl
    exact decodeFrom_encode cs (Nat.le_refl _)

@[simp] theorem decode_encode (cs : List Char) : decode (encode cs) = some cs := decode_eq_some.mpr rfl

/-- Bytes that go on after a text are those of the rest of a text, or of none. -/
theorem encode_append_eq {xs ys : List Char} {bs : List UInt8} (h : encode xs ++ bs = encode ys) :
    ∃ zs, ys = xs ++ zs ∧ bs = encode zs := by
  induction xs generalizing ys with
  | nil => exact ⟨ys, rfl, h⟩
  | cons x xs ih =>
    rw [encode_cons, List.append_assoc] at h
    have hx := next_encodeChar x (encode xs ++ bs)
    cases ys with
    | nil =>
      exact absurd (List.append_eq_nil_iff.mp h).1 (encodeChar_ne_nil x)
    | cons y ys =>
      rw [h, encode_cons, next_encodeChar] at hx
      obtain ⟨rfl, hrest⟩ := Prod.mk.inj (Option.some.inj hx)
      obtain ⟨zs, rfl, hz⟩ := ih hrest.symm
      exact ⟨zs, rfl, hz⟩

/-! ## Replacing what does not decode -/

def isTail (b : UInt8) : Bool := 0x80 ≤ b && b ≤ 0xBF

/-- A second byte that some character has after this first one. -/
def isSecond (a b : UInt8) : Bool :=
  if a = 0xE0 then 0xA0 ≤ b && b ≤ 0xBF
  else if a = 0xED then 0x80 ≤ b && b ≤ 0x9F
  else if a = 0xF0 then 0x90 ≤ b && b ≤ 0xBF
  else if a = 0xF4 then 0x80 ≤ b && b ≤ 0x8F
  else 0xC2 ≤ a && a ≤ 0xF3 && isTail b

/-- How many bytes one U+FFFD stands for, where no character begins: the longest
beginning of one, or one byte. -/
def badLength : List UInt8 → Nat
  | a :: b :: rest =>
    if isSecond a b then
      match rest with
      | c :: _ => if 0xF0 ≤ a && isTail c then 3 else 2
      | [] => 2
    else 1
  | _ => 1

theorem badLength_pos (bs : List UInt8) : 0 < badLength bs := by
  unfold badLength
  split
  · split
    · split
      · split <;> decide
      · decide
    · decide
  · decide

/-- The loop of `bytes.decode("utf-8", "replace")`. -/
def replaceFrom : Nat → List UInt8 → List Char
  | _, [] => []
  | 0, _ :: _ => []
  | fuel + 1, b :: bs =>
    match next (b :: bs) with
    | some (c, rest) => c :: replaceFrom fuel rest
    | none => '\ufffd' :: replaceFrom fuel ((b :: bs).drop (badLength (b :: bs)))

def decodeReplace (bs : List UInt8) : List Char := replaceFrom bs.length bs

theorem length_encodeChar_pos (c : Char) : 0 < (String.utf8EncodeChar c).length :=
  List.length_pos_iff.mpr (encodeChar_ne_nil c)

/-- More fuel than bytes changes nothing. -/
theorem replaceFrom_eq {fuel fuel' : Nat} {bs : List UInt8} (h : bs.length ≤ fuel) (h' : bs.length ≤ fuel') :
    replaceFrom fuel bs = replaceFrom fuel' bs := by
  induction fuel generalizing fuel' bs with
  | zero =>
    cases List.length_eq_zero_iff.mp (Nat.le_zero.mp h)
    cases fuel' <;> rfl
  | succ fuel ih =>
    cases bs with
    | nil => cases fuel' <;> rfl
    | cons b bs =>
      obtain ⟨fuel', rfl⟩ : ∃ n, fuel' = n + 1 := ⟨fuel' - 1, by rw [List.length_cons] at h'; omega⟩
      rw [List.length_cons] at h h'
      rw [replaceFrom, replaceFrom]
      cases hn : next (b :: bs) with
      | some p =>
        obtain ⟨c, rest⟩ := p
        have hlen := congrArg List.length (eq_of_next hn)
        have hpos := length_encodeChar_pos c
        rw [List.length_cons, List.length_append] at hlen
        exact congrArg (c :: ·) (ih (by omega) (by omega))
      | none =>
        have hpos := badLength_pos (b :: bs)
        refine congrArg ('\ufffd' :: ·) (ih ?_ ?_)
        all_goals
          rw [List.length_drop, List.length_cons]
          omega

theorem decodeReplace_next {bs rest : List UInt8} {c : Char} (h : next bs = some (c, rest)) :
    decodeReplace bs = c :: decodeReplace rest := by
  have hlen := congrArg List.length (eq_of_next h)
  have hpos := length_encodeChar_pos c
  rw [List.length_append] at hlen
  cases bs with
  | nil =>
    rw [List.length_nil] at hlen
    omega
  | cons b bs =>
    rw [List.length_cons] at hlen
    rw [decodeReplace, List.length_cons, replaceFrom, h]
    exact congrArg (c :: ·) (replaceFrom_eq (by omega) (Nat.le_refl _))

theorem decodeReplace_bad {b : UInt8} {bs : List UInt8} (h : next (b :: bs) = none) :
    decodeReplace (b :: bs) = '\ufffd' :: decodeReplace ((b :: bs).drop (badLength (b :: bs))) := by
  have hpos := badLength_pos (b :: bs)
  rw [decodeReplace, List.length_cons, replaceFrom, h]
  refine congrArg ('\ufffd' :: ·) (replaceFrom_eq ?_ (Nat.le_refl _))
  rw [List.length_drop, List.length_cons]
  omega

theorem decodeReplace_encode_append (cs : List Char) (bs : List UInt8) :
    decodeReplace (encode cs ++ bs) = cs ++ decodeReplace bs := by
  induction cs with
  | nil => rfl
  | cons c cs ih =>
    rw [encode_cons, List.append_assoc, decodeReplace_next (next_encodeChar c _), ih, List.cons_append]

@[simp] theorem decodeReplace_encode (cs : List Char) : decodeReplace (encode cs) = cs := by
  have h := decodeReplace_encode_append cs []
  rwa [List.append_nil, show decodeReplace [] = [] from rfl, List.append_nil] at h

/-- Where no U+FFFD comes out, none was put in. -/
theorem encode_decodeReplace {bs : List UInt8} (h : '\ufffd' ∉ decodeReplace bs) : encode (decodeReplace bs) = bs := by
  induction hn : bs.length using Nat.strongRecOn generalizing bs with
  | _ n ih =>
    cases bs with
    | nil => rfl
    | cons b bs =>
      cases hnext : next (b :: bs) with
      | some p =>
        obtain ⟨c, rest⟩ := p
        have hbs := eq_of_next hnext
        have hlen := congrArg List.length hbs
        have hpos := length_encodeChar_pos c
        rw [List.length_append] at hlen
        rw [decodeReplace_next hnext] at h ⊢
        rw [encode_cons, ih rest.length (by omega) (fun hm => h (List.mem_cons_of_mem _ hm)) rfl, ← hbs]
      | none =>
        rw [decodeReplace_bad hnext] at h
        exact absurd List.mem_cons_self h

/-- The byte FF begins no character. -/
theorem next_ff (bs : List UInt8) : next (0xFF :: bs) = none := by
  cases hn : next (0xFF :: bs) with
  | none => rfl
  | some p =>
    obtain ⟨c, hc, -⟩ := Option.map_eq_some_iff.mp hn
    have hfirst := ByteArray.isUTF8FirstByte_of_isSome_utf8DecodeChar? (Option.isSome_iff_exists.mpr ⟨c, hc⟩)
    have hnot : ¬ (0xFF : UInt8).IsUTF8FirstByte := by
      unfold UInt8.IsUTF8FirstByte
      decide
    rw [List.getElem_toByteArray] at hfirst
    exact absurd hfirst hnot

theorem decodeReplace_ff (bs : List UInt8) : decodeReplace (0xFF :: bs) = '\ufffd' :: decodeReplace bs := by
  have hone : badLength (0xFF :: bs) = 1 := by
    cases bs <;> rfl
  rw [decodeReplace_bad (next_ff bs), hone]
  rfl

/-- A text with a U+FFFD also comes of bytes that no text encodes to. -/
theorem exists_undecodable {cs : List Char} (h : '\ufffd' ∈ cs) :
    ∃ bs, decodeReplace bs = cs ∧ ∀ zs, bs ≠ encode zs := by
  obtain ⟨xs, ys, rfl⟩ := List.append_of_mem h
  refine ⟨encode xs ++ 0xFF :: encode ys, ?_, fun zs hz => ?_⟩
  · rw [decodeReplace_encode_append, decodeReplace_ff, decodeReplace_encode]
  · obtain ⟨rest, -, hrest⟩ := encode_append_eq hz
    cases rest with
    | nil => cases hrest
    | cons c rest =>
      have hnext := next_encodeChar c (encode rest)
      rw [← encode_cons, ← hrest, next_ff] at hnext
      cases hnext

end Utf8
