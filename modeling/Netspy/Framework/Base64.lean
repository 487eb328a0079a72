import Mathlib.Tactic.Common

/-!
# Base64

`decode` reads as Python's `b64decode` does by default: what is no letter of the
alphabet is passed over, and padding that completes a group of four ends the text.
-/

namespace Base64

/-- The letter of a number below 64. -/
def letter (n : Nat) : Char :=
  if n < 26 then Char.ofNat (65 + n)
  else if n < 52 then Char.ofNat (71 + n)
  else if n < 62 then Char.ofNat (n - 4)
  else if n = 62 then '+' else '/'

def value (c : Char) : Option Nat :=
  if 'A' ≤ c ∧ c ≤ 'Z' then some (c.toNat - 65)
  else if 'a' ≤ c ∧ c ≤ 'z' then some (c.toNat - 71)
  else if '0' ≤ c ∧ c ≤ '9' then some (c.toNat + 4)
  else if c = '+' then some 62 else if c = '/' then some 63 else none

def encode : List UInt8 → List Char
  | [] => []
  | [a] => [letter (a.toNat / 4), letter (a.toNat % 4 * 16), '=', '=']
  | [a, b] =>
    [letter (a.toNat / 4), letter (a.toNat % 4 * 16 + b.toNat / 16), letter (b.toNat % 16 * 4), '=']
  | a :: b :: c :: rest =>
    letter (a.toNat / 4) :: letter (a.toNat % 4 * 16 + b.toNat / 16) ::
      letter (b.toNat % 16 * 4 + c.toNat / 64) :: letter (c.toNat % 64) :: encode rest

/-- `quad` letters of a group have been read, `left` are the bits of the last of them
that are in no byte yet, and `pads` signs of padding follow them. -/
def decodeFrom (quad left pads : Nat) : List Char → Option (List UInt8)
  | [] => if quad = 0 then some [] else none
  | c :: cs =>
    if c = '=' then
      if quad < 2 then decodeFrom quad left pads cs
      else if 4 ≤ quad + (pads + 1) then some [] else decodeFrom quad left (pads + 1) cs
    else match value c with
      | none => decodeFrom quad left pads cs
      | some v =>
        match quad with
        | 0 => decodeFrom 1 v 0 cs
        | 1 => (decodeFrom 2 (v % 16) 0 cs).map (UInt8.ofNat (left * 4 + v / 16) :: ·)
        | 2 => (decodeFrom 3 (v % 4) 0 cs).map (UInt8.ofNat (left * 16 + v / 4) :: ·)
        | _ => (decodeFrom 0 0 0 cs).map (UInt8.ofNat (left * 64 + v) :: ·)

/-- A text with other characters than those of ASCII is refused. -/
def decode (cs : List Char) : Option (List UInt8) :=
  if cs.all fun c => decide (c.toNat < 0x80) then decodeFrom 0 0 0 cs else none

theorem value_letter : ∀ n < 64, value (letter n) = some n := by decide

theorem letter_ne_pad : ∀ n < 64, letter n ≠ '=' := by decide

theorem letter_ascii : ∀ n < 64, (letter n).toNat < 0x80 := by decide

theorem decodeFrom_zero {n left pads : Nat} (h : n < 64) (cs : List Char) :
    decodeFrom 0 left pads (letter n :: cs) = decodeFrom 1 n 0 cs := by
  simp [decodeFrom, letter_ne_pad n h, value_letter n h]

theorem decodeFrom_one {n left pads : Nat} (h : n < 64) (cs : List Char) :
    decodeFrom 1 left pads (letter n :: cs) =
      (decodeFrom 2 (n % 16) 0 cs).map (UInt8.ofNat (left * 4 + n / 16) :: ·) := by
  simp [decodeFrom, letter_ne_pad n h, value_letter n h]

theorem decodeFrom_two {n left pads : Nat} (h : n < 64) (cs : List Char) :
    decodeFrom 2 left pads (letter n :: cs) =
      (decodeFrom 3 (n % 4) 0 cs).map (UInt8.ofNat (left * 16 + n / 4) :: ·) := by
  simp [decodeFrom, letter_ne_pad n h, value_letter n h]

theorem decodeFrom_three {n left pads : Nat} (h : n < 64) (cs : List Char) :
    decodeFrom 3 left pads (letter n :: cs) =
      (decodeFrom 0 0 0 cs).map (UInt8.ofNat (left * 64 + n) :: ·) := by
  simp [decodeFrom, letter_ne_pad n h, value_letter n h]

theorem ofNat_eq {a : UInt8} {n : Nat} (h : n = a.toNat) : UInt8.ofNat n = a := by
  rw [h, UInt8.ofNat_toNat]

theorem decodeFrom_encode (bs : List UInt8) : decodeFrom 0 0 0 (encode bs) = some bs := by
  induction bs using encode.induct with
  | case1 => rfl
  | case2 a =>
    have ha := a.toNat_lt
    rw [encode, decodeFrom_zero (by omega), decodeFrom_one (by omega), ofNat_eq (a := a) (by omega)]
    simp [decodeFrom]
  | case3 a b =>
    have ha := a.toNat_lt
    have hb := b.toNat_lt
    rw [encode, decodeFrom_zero (by omega), decodeFrom_one (by omega), decodeFrom_two (by omega),
      ofNat_eq (a := a) (by omega), ofNat_eq (a := b) (by omega)]
    simp [decodeFrom]
  | case4 a b c rest ih =>
    have ha := a.toNat_lt
    have hb := b.toNat_lt
    have hc := c.toNat_lt
    rw [encode, decodeFrom_zero (by omega), decodeFrom_one (by omega), decodeFrom_two (by omega),
      decodeFrom_three (by omega), ofNat_eq (a := a) (by omega), ofNat_eq (a := b) (by omega),
      ofNat_eq (a := c) (by omega), ih]
    rfl

theorem encode_ascii (bs : List UInt8) : ∀ c ∈ encode bs, c.toNat < 0x80 := by
  induction bs using encode.induct with
  | case1 => exact fun c hc => absurd hc List.not_mem_nil
  | case2 a =>
    have ha := a.toNat_lt
    simp only [encode, List.forall_mem_cons]
    exact ⟨letter_ascii _ (by omega), letter_ascii _ (by omega), by decide, by decide, by simp⟩
  | case3 a b =>
    have ha := a.toNat_lt
    have hb := b.toNat_lt
    simp only [encode, List.forall_mem_cons]
    exact ⟨letter_ascii _ (by omega), letter_ascii _ (by omega), letter_ascii _ (by omega), by decide, by simp⟩
  | case4 a b c rest ih =>
    have ha := a.toNat_lt
    have hb := b.toNat_lt
    have hc := c.toNat_lt
    simp only [encode, List.forall_mem_cons]
    exact ⟨letter_ascii _ (by omega), letter_ascii _ (by omega), letter_ascii _ (by omega),
      letter_ascii _ (by omega), ih⟩

@[simp] theorem decode_encode (bs : List UInt8) : decode (encode bs) = some bs := by
  rw [decode, if_pos (by simpa using encode_ascii bs), decodeFrom_encode]

end Base64
