import Mathlib.Data.List.TakeWhile
import Netspy.Framework.Utf8

/-!
# The query of a URL

A query is parsed into pairs and written from pairs as `urllib.parse` does it,
on lists of characters. `rawPairs` has the pairs as bytes, and `parseQsl` as
texts, with U+FFFD for what is not UTF-8. What is written from bytes is parsed
as these bytes again (`rawPairs_encodePairs`).

Percent decoding takes the whole text at once: the decoding of `unquote` takes
each run of ASCII characters by itself, which is the same, since no character
goes on with the first byte of another.
-/

namespace Url

/-! ## Percent encoding -/

def hexVal (c : Char) : Option Nat :=
  if '0' ≤ c && c ≤ '9' then some (c.toNat - '0'.toNat)
  else if 'a' ≤ c && c ≤ 'f' then some (c.toNat - 'a'.toNat + 10)
  else if 'A' ≤ c && c ≤ 'F' then some (c.toNat - 'A'.toNat + 10)
  else none

/-- `unquote_to_bytes`. -/
def unquoteToBytes : List Char → List UInt8
  | '%' :: a :: b :: cs =>
    match hexVal a, hexVal b with
    | some x, some y => UInt8.ofNat (16 * x + y) :: unquoteToBytes cs
    | _, _ => 0x25 :: unquoteToBytes (a :: b :: cs)
  | c :: cs => String.utf8EncodeChar c ++ unquoteToBytes cs
  | [] => []

/-- `string.replace("+", " ")`. -/
def plusToSpace (cs : List Char) : List Char := cs.map fun c => if c = '+' then ' ' else c

/-- The bytes that a name or a value of a query stands for. -/
def rawOf (cs : List Char) : List UInt8 := unquoteToBytes (plusToSpace cs)

/-- `unquote_plus(string, encoding="utf-8", errors="replace")`. -/
def unquotePlus (cs : List Char) : List Char := Utf8.decodeReplace (rawOf cs)

def isSafe (b : UInt8) : Bool :=
  let c := Char.ofNat b.toNat
  c.isAlphanum || c = '_' || c = '.' || c = '-' || c = '~'

/-- A digit of `{:02X}`. -/
def hexDigit (n : Nat) : Char := if n < 10 then Char.ofNat (48 + n) else Char.ofNat (55 + n)

def quoteByte (b : UInt8) : List Char :=
  if isSafe b then [Char.ofNat b.toNat]
  else if b = 0x20 then ['+']
  else ['%', hexDigit (b.toNat / 16), hexDigit (b.toNat % 16)]

def quoteBytes (bs : List UInt8) : List Char := bs.flatMap quoteByte

/-- `quote_plus`. -/
def quotePlus (cs : List Char) : List Char := quoteBytes (Utf8.encode cs)

theorem forall_byte {p : UInt8 → Bool} (h : (List.range 256).all (fun n => p (UInt8.ofNat n)) = true) (b : UInt8) :
    p b = true := by
  have hb := List.all_eq_true.mp h b.toNat (List.mem_range.mpr b.toNat_lt)
  rwa [UInt8.ofNat_toNat] at hb

/-- A character that quoting writes. -/
def isQuoted (c : Char) : Bool :=
  c.isAlphanum || c = '_' || c = '.' || c = '-' || c = '~' || c = '+' || c = '%'

theorem quoteByte_isQuoted (b : UInt8) : (quoteByte b).all isQuoted = true :=
  forall_byte (p := fun b => (quoteByte b).all isQuoted) (by decide +kernel) b

/-- A byte is quoted as one character that stands for itself, or in hexadecimal. -/
theorem quoteByte_cases (b : UInt8) :
    (∃ c, quoteByte b = [c] ∧ c ≠ '%' ∧ String.utf8EncodeChar (if c = '+' then ' ' else c) = [b]) ∨
      ∃ x y, quoteByte b = ['%', x, y] ∧ x ≠ '+' ∧ y ≠ '+' ∧ hexVal x = some (b.toNat / 16) ∧
        hexVal y = some (b.toNat % 16) := by
  have hsafe := forall_byte (p := fun b => !isSafe b || (Char.ofNat b.toNat != '%' &&
    String.utf8EncodeChar (if Char.ofNat b.toNat = '+' then ' ' else Char.ofNat b.toNat) == [b])) (by decide +kernel) b
  have hhex := forall_byte (p := fun b => hexDigit (b.toNat / 16) != '+' && hexDigit (b.toNat % 16) != '+' &&
    hexVal (hexDigit (b.toNat / 16)) == some (b.toNat / 16) &&
    hexVal (hexDigit (b.toNat % 16)) == some (b.toNat % 16)) (by decide +kernel) b
  unfold quoteByte
  split
  · rename_i hb
    rw [hb, Bool.not_true, Bool.false_or, Bool.and_eq_true, bne_iff_ne, beq_iff_eq] at hsafe
    exact .inl ⟨_, rfl, hsafe⟩
  · split
    · rename_i hb
      subst hb
      exact .inl ⟨'+', rfl, by decide, by decide⟩
    · simp only [Bool.and_eq_true, bne_iff_ne, beq_iff_eq, ne_eq] at hhex
      obtain ⟨⟨⟨hx, hy⟩, hxv⟩, hyv⟩ := hhex
      exact .inr ⟨_, _, rfl, hx, hy, hxv, hyv⟩

theorem unquoteToBytes_cons {c : Char} (h : c ≠ '%') (cs : List Char) :
    unquoteToBytes (c :: cs) = String.utf8EncodeChar c ++ unquoteToBytes cs := by
  rw [unquoteToBytes]
  intro a b rest hc
  exact absurd hc h

theorem rawOf_quoteByte (b : UInt8) (cs : List Char) : rawOf (quoteByte b ++ cs) = b :: rawOf cs := by
  rcases quoteByte_cases b with ⟨c, hq, hc, henc⟩ | ⟨x, y, hq, hx, hy, hxv, hyv⟩
  · have hne : (if c = '+' then ' ' else c) ≠ '%' := by
      split
      · decide
      · exact hc
    rw [hq, rawOf, plusToSpace, List.map_append, List.map_singleton, List.singleton_append,
      unquoteToBytes_cons hne, henc]
    rfl
  · have hpct : plusToSpace (['%', x, y] ++ cs) = '%' :: x :: y :: plusToSpace cs := by
      simp [plusToSpace, hx, hy]
    have hbyte : UInt8.ofNat (16 * (b.toNat / 16) + b.toNat % 16) = b := by
      rw [Nat.div_add_mod, UInt8.ofNat_toNat]
    rw [hq, rawOf, hpct, unquoteToBytes, hxv, hyv]
    dsimp only
    rw [hbyte]
    rfl

/-- Quoting is undone. -/
@[simp] theorem rawOf_quoteBytes (bs : List UInt8) : rawOf (quoteBytes bs) = bs := by
  induction bs with
  | nil => rfl
  | cons b bs ih =>
    rw [quoteBytes, List.flatMap_cons, rawOf_quoteByte]
    exact congrArg (b :: ·) ih

theorem quoteBytes_isQuoted {bs : List UInt8} {c : Char} (h : c ∈ quoteBytes bs) : isQuoted c = true := by
  obtain ⟨b, -, hc⟩ := List.mem_flatMap.mp h
  exact List.all_eq_true.mp (quoteByte_isQuoted b) c hc

/-! ## Pairs -/

/-- `text.partition(sep)`, without the separator. -/
def partition (sep : Char) (text : List Char) : List Char × List Char :=
  (text.takeWhile (· ≠ sep), (text.dropWhile (· ≠ sep)).drop 1)

/-- The parts of a query that stand for a pair. -/
def pieces (query : List Char) : List (List Char) := (query.splitOn '&').filter fun piece => !piece.isEmpty

/-- The pairs of a query, as bytes. -/
def rawPairs (query : List Char) : List (List UInt8 × List UInt8) :=
  (pieces query).map fun piece => (rawOf (partition '=' piece).1, rawOf (partition '=' piece).2)

/-- `parse_qsl(query, keep_blank_values=True)`. -/
def parseQsl (query : List Char) : List (List Char × List Char) :=
  (pieces query).map fun piece => (unquotePlus (partition '=' piece).1, unquotePlus (partition '=' piece).2)

/-- A query that has these pairs. -/
def encodePairs (ps : List (List UInt8 × List UInt8)) : List Char :=
  ['&'].intercalate (ps.map fun p => quoteBytes p.1 ++ '=' :: quoteBytes p.2)

/-- `urlencode`. -/
def urlencode (ps : List (List Char × List Char)) : List Char :=
  ['&'].intercalate (ps.map fun p => quotePlus p.1 ++ '=' :: quotePlus p.2)

def decodePair (p : List UInt8 × List UInt8) : List Char × List Char :=
  (Utf8.decodeReplace p.1, Utf8.decodeReplace p.2)

def encodePair (p : List Char × List Char) : List UInt8 × List UInt8 := (Utf8.encode p.1, Utf8.encode p.2)

theorem parseQsl_eq (query : List Char) : parseQsl query = (rawPairs query).map decodePair := by
  rw [rawPairs, List.map_map]
  rfl

theorem urlencode_eq (ps : List (List Char × List Char)) : urlencode ps = encodePairs (ps.map encodePair) := by
  rw [encodePairs, List.map_map]
  rfl

theorem not_mem_quoteBytes {bs : List UInt8} {c : Char} (h : isQuoted c = false) : c ∉ quoteBytes bs := fun hc => by
  rw [quoteBytes_isQuoted hc] at h
  cases h

theorem partition_append {sep : Char} {xs : List Char} (h : sep ∉ xs) (ys : List Char) :
    partition sep (xs ++ sep :: ys) = (xs, ys) := by
  unfold partition
  have hall : ∀ c ∈ xs, decide (c ≠ sep) = true := fun c hc => decide_eq_true fun e => h (e ▸ hc)
  rw [List.takeWhile_append_of_pos hall, List.dropWhile_append_of_pos hall]
  simp

theorem partition_of_not_mem {sep : Char} {xs : List Char} (h : sep ∉ xs) : partition sep xs = (xs, []) := by
  unfold partition
  have hall : ∀ c ∈ xs, decide (c ≠ sep) = true := fun c hc => decide_eq_true fun e => h (e ▸ hc)
  rw [List.takeWhile_eq_self_iff.mpr hall, List.dropWhile_eq_nil_iff.mpr hall]
  rfl

/-- What is written from pairs is parsed as these. -/
theorem rawPairs_encodePairs (ps : List (List UInt8 × List UInt8)) : rawPairs (encodePairs ps) = ps := by
  cases ps with
  | nil => rfl
  | cons p ps =>
    have hamp : ∀ l ∈ (p :: ps).map (fun p => quoteBytes p.1 ++ '=' :: quoteBytes p.2), '&' ∉ l := by
      intro l hl hc
      obtain ⟨q, -, rfl⟩ := List.mem_map.mp hl
      rcases List.mem_append.mp hc with hc | hc
      · exact not_mem_quoteBytes (by decide) hc
      · rcases List.mem_cons.mp hc with hc | hc
        · exact absurd hc (by decide)
        · exact not_mem_quoteBytes (by decide) hc
    have hne : ∀ l ∈ (p :: ps).map (fun p => quoteBytes p.1 ++ '=' :: quoteBytes p.2), (!l.isEmpty) = true := by
      intro l hl
      obtain ⟨q, -, rfl⟩ := List.mem_map.mp hl
      simp
    rw [rawPairs, pieces, encodePairs, List.splitOn_intercalate '&' hamp (List.cons_ne_nil _ _),
      List.filter_eq_self.mpr hne, List.map_map]
    refine (List.map_congr_left fun q _ => ?_).trans (List.map_id _)
    show (rawOf (partition '=' (quoteBytes q.1 ++ '=' :: quoteBytes q.2)).1, _) = _
    rw [partition_append (not_mem_quoteBytes (by decide)), rawOf_quoteBytes, rawOf_quoteBytes]
    rfl

theorem decodePair_encodePair (p : List Char × List Char) : decodePair (encodePair p) = p := by
  unfold decodePair encodePair
  rw [Utf8.decodeReplace_encode, Utf8.decodeReplace_encode]

theorem parseQsl_urlencode (ps : List (List Char × List Char)) : parseQsl (urlencode ps) = ps := by
  rw [parseQsl_eq, urlencode_eq, rawPairs_encodePairs, List.map_map]
  exact (List.map_congr_left fun p _ => decodePair_encodePair p).trans (List.map_id _)

/-- A query is written with these characters. -/
def isQueryChar (c : Char) : Bool := isQuoted c || c = '=' || c = '&'

theorem mem_intercalate {α : Type} {x c : α} {ls : List (List α)} (h : c ∈ [x].intercalate ls) :
    c = x ∨ ∃ l ∈ ls, c ∈ l := by
  induction ls with
  | nil => exact absurd h List.not_mem_nil
  | cons l ls ih =>
    cases ls with
    | nil => exact .inr ⟨l, List.mem_cons_self, by simpa using h⟩
    | cons l' ls =>
      rw [List.intercalate_cons_cons, List.append_assoc] at h
      rcases List.mem_append.mp h with h | h
      · exact .inr ⟨l, List.mem_cons_self, h⟩
      · rcases List.mem_append.mp h with h | h
        · exact .inl (List.mem_singleton.mp h)
        · rcases ih h with h | ⟨m, hm, hc⟩
          · exact .inl h
          · exact .inr ⟨m, List.mem_cons_of_mem _ hm, hc⟩

theorem encodePairs_isQueryChar {ps : List (List UInt8 × List UInt8)} {c : Char} (h : c ∈ encodePairs ps) :
    isQueryChar c = true := by
  have hquoted {bs : List UInt8} (hc : c ∈ quoteBytes bs) : isQueryChar c = true := by
    rw [isQueryChar, quoteBytes_isQuoted hc, Bool.true_or, Bool.true_or]
  rcases mem_intercalate h with rfl | ⟨l, hl, hc⟩
  · decide
  · obtain ⟨p, -, rfl⟩ := List.mem_map.mp hl
    rcases List.mem_append.mp hc with hc | hc
    · exact hquoted hc
    · rcases List.mem_cons.mp hc with rfl | hc
      · decide
      · exact hquoted hc

/-! ## Pairs that are lost -/

/-- The text of the pair may stand for bytes that do not decode. -/
def isReplaced (p : List Char × List Char) : Bool := p.1.contains '\ufffd' || p.2.contains '\ufffd'

theorem encodePair_decodePair {p : List UInt8 × List UInt8} (h : isReplaced (decodePair p) = false) :
    encodePair (decodePair p) = p := by
  rw [isReplaced, Bool.or_eq_false_iff, ← Bool.not_eq_true, ← Bool.not_eq_true, List.contains_iff_mem,
    List.contains_iff_mem] at h
  show (Utf8.encode (Utf8.decodeReplace p.1), Utf8.encode (Utf8.decodeReplace p.2)) = p
  rw [Utf8.encode_decodeReplace h.1, Utf8.encode_decodeReplace h.2]

/-- Where a pair may be replaced, there are other bytes with the same texts. -/
theorem exists_other {ps : List (List Char × List Char)} (h : ps.any isReplaced = true) :
    ∃ rs : List (List UInt8 × List UInt8), rs.map decodePair = ps ∧ ¬ rs.Perm (ps.map encodePair) := by
  obtain ⟨p, hp, hr⟩ := List.any_eq_true.mp h
  obtain ⟨before, after, rfl⟩ := List.append_of_mem hp
  have hother : ∃ q : List UInt8 × List UInt8, decodePair q = p ∧ ∀ p', encodePair p' ≠ q := by
    rcases Bool.or_eq_true_iff.mp hr with hc | hc
    · obtain ⟨bs, hbs, hno⟩ := Utf8.exists_undecodable (List.contains_iff_mem.mp hc)
      refine ⟨(bs, Utf8.encode p.2), ?_, fun p' he => hno p'.1 (congrArg Prod.fst he).symm⟩
      show (Utf8.decodeReplace bs, Utf8.decodeReplace (Utf8.encode p.2)) = p
      rw [hbs, Utf8.decodeReplace_encode]
    · obtain ⟨bs, hbs, hno⟩ := Utf8.exists_undecodable (List.contains_iff_mem.mp hc)
      refine ⟨(Utf8.encode p.1, bs), ?_, fun p' he => hno p'.2 (congrArg Prod.snd he).symm⟩
      show (Utf8.decodeReplace (Utf8.encode p.1), Utf8.decodeReplace bs) = p
      rw [hbs, Utf8.decodeReplace_encode]
  obtain ⟨q, hq, hno⟩ := hother
  have hmap (ps : List (List Char × List Char)) : (ps.map encodePair).map decodePair = ps := by
    rw [List.map_map]
    exact (List.map_congr_left fun p _ => decodePair_encodePair p).trans (List.map_id _)
  refine ⟨before.map encodePair ++ q :: after.map encodePair, ?_, fun hperm => ?_⟩
  · rw [List.map_append, List.map_cons, hmap, hmap, hq]
  · have hmem : q ∈ (before ++ p :: after).map encodePair :=
      hperm.mem_iff.mp (List.mem_append_right _ List.mem_cons_self)
    obtain ⟨p', -, he⟩ := List.mem_map.mp hmem
    exact hno p' he

/-- The bytes of a text that has no U+FFFD. -/
def IsText (bs : List UInt8) : Prop := ∃ cs, bs = Utf8.encode cs ∧ '\ufffd' ∉ cs

theorem isReplaced_eq_false {p : List UInt8 × List UInt8} :
    isReplaced (decodePair p) = false ↔ IsText p.1 ∧ IsText p.2 := by
  have hnot {bs : List UInt8} : (Utf8.decodeReplace bs).contains '\ufffd' = false ↔ IsText bs := by
    rw [← Bool.not_eq_true, List.contains_iff_mem]
    constructor
    · exact fun h => ⟨_, (Utf8.encode_decodeReplace h).symm, h⟩
    · rintro ⟨cs, rfl, h⟩
      rwa [Utf8.decodeReplace_encode]
  rw [isReplaced, Bool.or_eq_false_iff]
  exact and_congr hnot hnot

end Url
