import Mathlib.Algebra.Group.Nat.Defs
import Mathlib.Data.List.TakeWhile
import Netspy.Framework.Json.Syntax

/-!
# Numbers in JSON

A number is scanned as far as its characters go: what follows it does not
matter unless it starts with one of them (`scanNumber_append`), and what is
scanned and what is left are together the text (`scanUnsigned_split`). An
integer is scanned as itself (`scanNumber_renderInt`).
-/

namespace Json

def isNumChar (c : Char) : Bool :=
  c.isDigit || c = '.' || c = 'e' || c = 'E' || c = '+' || c = '-'

theorem numChar_range {c : Char} (h : isNumChar c = true) : 0x20 < c.toNat ∧ c.toNat < 0x80 := by
  simp only [isNumChar, Bool.or_eq_true, decide_eq_true_eq] at h
  rcases h with ((((h | rfl) | rfl) | rfl) | rfl) | rfl
  · simp only [Char.isDigit, ge_iff_le, Bool.and_eq_true, decide_eq_true_eq] at h
    have h1 : 48 ≤ c.toNat := h.1
    have h2 : c.toNat ≤ 57 := h.2
    omega
  all_goals decide

/-- A number ends before this text. -/
def Stops (rest : List Char) : Prop := ∀ c ∈ rest.head?, isNumChar c = false

theorem stops_nil : Stops [] := fun c hc => absurd hc (Option.not_mem_none c)

theorem stops_cons {c : Char} {rest : List Char} (h : isNumChar c = false) : Stops (c :: rest) := by
  intro d hd
  rw [List.head?_cons, Option.mem_some_iff] at hd
  exact hd ▸ h

theorem not_digit_of_not_numChar {c : Char} (h : isNumChar c = false) : c.isDigit = false := by
  simp only [isNumChar, Bool.or_eq_false_iff] at h
  exact h.1.1.1.1.1

/-- A run of digits goes no further than it did before more text came. -/
theorem digits_append {rest : List Char} (h : Stops rest) (cs : List Char) :
    (cs ++ rest).takeWhile Char.isDigit = cs.takeWhile Char.isDigit ∧
      (cs ++ rest).dropWhile Char.isDigit = cs.dropWhile Char.isDigit ++ rest := by
  induction cs with
  | nil =>
    cases rest with
    | nil => exact ⟨rfl, rfl⟩
    | cons c rest =>
      have hc : c.isDigit = false := not_digit_of_not_numChar (h c rfl)
      simp [hc]
  | cons c cs ih =>
    rw [List.cons_append, List.takeWhile_cons, List.takeWhile_cons, List.dropWhile_cons, List.dropWhile_cons]
    cases c.isDigit with
    | true => exact ⟨congrArg (c :: ·) ih.1, ih.2⟩
    | false => exact ⟨rfl, rfl⟩

theorem scanInt_append {rest cs ds r : List Char} (h : Stops rest) (hs : scanInt cs = some (ds, r)) :
    scanInt (cs ++ rest) = some (ds, r ++ rest) := by
  cases cs with
  | nil => cases hs
  | cons c cs =>
    obtain ⟨h1, h2⟩ := digits_append h cs
    simp only [List.cons_append, scanInt, h1, h2] at hs ⊢
    split_ifs at hs ⊢ with h0 hd <;> cases hs <;> rfl

theorem scanFrac_stops {rest : List Char} (h : Stops rest) : scanFrac rest = ([], rest) := by
  cases rest with
  | nil => rfl
  | cons c rest =>
    have hn := h c rfl
    have hc : c ≠ '.' := fun e => absurd hn (by rw [e]; decide)
    rw [scanFrac, if_neg hc]

theorem scanFrac_append {rest : List Char} (h : Stops rest) (cs : List Char) :
    scanFrac (cs ++ rest) = ((scanFrac cs).1, (scanFrac cs).2 ++ rest) := by
  cases cs with
  | nil => exact scanFrac_stops h
  | cons c cs =>
    obtain ⟨h1, h2⟩ := digits_append h cs
    simp only [List.cons_append, scanFrac, h1, h2]
    split
    · split <;> rfl
    · rfl

theorem scanSign_append {rest : List Char} (h : Stops rest) (cs : List Char) :
    scanSign (cs ++ rest) = ((scanSign cs).1, (scanSign cs).2 ++ rest) := by
  cases cs with
  | nil =>
    cases rest with
    | nil => rfl
    | cons c rest =>
      have hn := h c rfl
      simp only [isNumChar, Bool.or_eq_false_iff] at hn
      simp [scanSign, hn.1.2, hn.2]
  | cons c cs =>
    simp only [List.cons_append, scanSign]
    split <;> rfl

theorem scanExp_stops {rest : List Char} (h : Stops rest) : scanExp rest = ([], rest) := by
  cases rest with
  | nil => rfl
  | cons c rest =>
    have hn := h c rfl
    simp only [isNumChar, Bool.or_eq_false_iff] at hn
    simp [scanExp, hn.1.1.2, hn.1.1.1.2]

theorem scanExp_append {rest : List Char} (h : Stops rest) (cs : List Char) :
    scanExp (cs ++ rest) = ((scanExp cs).1, (scanExp cs).2 ++ rest) := by
  cases cs with
  | nil => exact scanExp_stops h
  | cons c cs =>
    obtain ⟨h1, h2⟩ := digits_append h (scanSign cs).2
    simp only [List.cons_append, scanExp, scanSign_append h, h1, h2]
    split
    · split <;> rfl
    · rfl

theorem scanUnsigned_append {rest cs text r : List Char} {b : Bool} (h : Stops rest)
    (hs : scanUnsigned cs = some (b, text, r)) : scanUnsigned (cs ++ rest) = some (b, text, r ++ rest) := by
  unfold scanUnsigned at hs ⊢
  cases hi : scanInt cs with
  | none => rw [hi] at hs; cases hs
  | some p =>
    rw [hi] at hs
    rw [scanInt_append h hi]
    cases hs
    simp only [scanFrac_append h, scanExp_append h]

/-- A whole number is scanned as itself before any text that does not go on
with it. -/
theorem scanNumber_append {rest cs : List Char} {v : Json} (h : Stops rest)
    (hs : scanNumber cs = some (v, [])) : scanNumber (cs ++ rest) = some (v, rest) := by
  cases cs with
  | nil => cases hs
  | cons c cs =>
    simp only [List.cons_append, scanNumber] at hs ⊢
    split_ifs at hs ⊢ with hc
    · rcases hu : scanUnsigned cs with _ | ⟨_ | _, text, r⟩ <;> rw [hu] at hs
      · cases hs
      all_goals
        cases hs
        rw [scanUnsigned_append h hu]
        rfl
    · rcases hu : scanUnsigned (c :: cs) with _ | ⟨_ | _, text, r⟩ <;> rw [hu] at hs
      · cases hs
      all_goals
        cases hs
        rw [← List.cons_append, scanUnsigned_append h hu]
        rfl

/-! ## Integers -/

theorem digitChar_ne_zero : ∀ n < 10, 0 < n → Nat.digitChar n ≠ '0' := by decide

theorem isDigit_toDigits {n : Nat} {c : Char} (h : c ∈ Nat.toDigits 10 n) : c.isDigit = true :=
  Nat.isDigit_of_mem_toDigits (by decide) (by decide) h

/-- The digits of a positive number do not start with a zero. -/
theorem head_toDigits {n : Nat} (hn : 0 < n) : ∃ d ds, Nat.toDigits 10 n = d :: ds ∧ d ≠ '0' := by
  induction n using Nat.strong_induction_on with
  | _ n ih =>
    rw [Nat.toDigits_eq_if (by decide)]
    split
    · rename_i hlt
      exact ⟨Nat.digitChar n, [], rfl, digitChar_ne_zero n hlt hn⟩
    · rename_i hge
      obtain ⟨d, ds, he, hd⟩ := ih (n / 10) (by omega) (by omega)
      rw [he]
      exact ⟨d, _, List.cons_append .., hd⟩

theorem scanUnsigned_toDigits (n : Nat) {rest : List Char} (h : Stops rest) :
    scanUnsigned (Nat.toDigits 10 n ++ rest) = some (true, Nat.toDigits 10 n, rest) := by
  have hi : scanInt (Nat.toDigits 10 n ++ rest) = some (Nat.toDigits 10 n, rest) := by
    rcases Nat.eq_zero_or_pos n with rfl | hn
    · rw [Nat.toDigits_zero]
      rfl
    · obtain ⟨d, ds, he, hd⟩ := head_toDigits hn
      have hall : ∀ c ∈ d :: ds, c.isDigit = true := fun c hc => isDigit_toDigits (he ▸ hc)
      obtain ⟨h1, h2⟩ := digits_append h ds
      rw [he, List.cons_append, scanInt, if_neg hd, if_pos (hall d List.mem_cons_self), h1, h2,
        List.takeWhile_eq_self_iff.mpr fun c hc => hall c (List.mem_cons_of_mem _ hc),
        List.dropWhile_eq_nil_iff.mpr fun c hc => hall c (List.mem_cons_of_mem _ hc)]
      rfl
  rw [scanUnsigned, hi]
  simp only [scanFrac_stops h, scanExp_stops h, List.append_nil]
  rfl

theorem natOf_toDigits (n : Nat) : natOf (Nat.toDigits 10 n) = n := Nat.ofDigitChars_ten_toDigits

theorem scanNumber_renderInt (i : Int) {rest : List Char} (h : Stops rest) :
    scanNumber (renderInt i ++ rest) = some (.int i, rest) := by
  cases i with
  | ofNat n =>
    obtain ⟨d, ds, he⟩ : ∃ d ds, Nat.toDigits 10 n = d :: ds :=
      List.exists_cons_of_ne_nil Nat.toDigits_ne_nil
    have hd : d ≠ '-' := fun e => absurd (isDigit_toDigits (n := n) (c := d) (he ▸ List.mem_cons_self))
      (by rw [e]; decide)
    have hu := scanUnsigned_toDigits n h
    rw [renderInt, he, List.cons_append, scanNumber, if_neg hd, ← List.cons_append, ← he, hu]
    simp only [natOf_toDigits]
    rfl
  | negSucc n =>
    rw [renderInt, List.cons_append, scanNumber, if_pos rfl, scanUnsigned_toDigits _ h]
    simp only [natOf_toDigits]
    rfl

/-! ## What is scanned and what is left -/

theorem isNumChar_of_digit {c : Char} (h : c.isDigit = true) : isNumChar c = true := by
  simp [isNumChar, h]

theorem digit_of_mem_takeWhile {cs : List Char} {c : Char} (h : c ∈ cs.takeWhile Char.isDigit) :
    c.isDigit = true := List.mem_takeWhile_imp h

theorem scanInt_split {cs ds r : List Char} (h : scanInt cs = some (ds, r)) :
    cs = ds ++ r ∧ ds ≠ [] ∧ ∀ c ∈ ds, c.isDigit = true := by
  cases cs with
  | nil => cases h
  | cons c cs =>
    rw [scanInt] at h
    split_ifs at h with h0 hd
    · cases h
      exact ⟨by rw [h0]; rfl, List.cons_ne_nil _ _, fun d hd => by rw [List.mem_singleton.mp hd]; decide⟩
    · cases h
      refine ⟨?_, List.cons_ne_nil _ _, fun d hd' => ?_⟩
      · rw [List.cons_append, List.takeWhile_append_dropWhile]
      · rcases List.mem_cons.mp hd' with rfl | hm
        · exact hd
        · exact digit_of_mem_takeWhile hm

theorem scanFrac_split (cs : List Char) :
    cs = (scanFrac cs).1 ++ (scanFrac cs).2 ∧ ∀ c ∈ (scanFrac cs).1, isNumChar c = true := by
  cases cs with
  | nil => exact ⟨rfl, fun _ h => absurd h List.not_mem_nil⟩
  | cons c cs =>
    rw [scanFrac]
    split_ifs with hc
    · split
      · exact ⟨rfl, fun _ h => absurd h List.not_mem_nil⟩
      · rename_i d ds hd
        refine ⟨?_, fun x hx => ?_⟩
        · rw [← hd, List.cons_append, List.takeWhile_append_dropWhile]
        · rcases List.mem_cons.mp hx with rfl | hx
          · rw [hc]
            decide
          · exact isNumChar_of_digit (digit_of_mem_takeWhile (hd ▸ hx))
    · exact ⟨rfl, fun _ h => absurd h List.not_mem_nil⟩

theorem scanSign_split (cs : List Char) :
    cs = (scanSign cs).1 ++ (scanSign cs).2 ∧ ∀ c ∈ (scanSign cs).1, isNumChar c = true := by
  cases cs with
  | nil => exact ⟨rfl, fun _ h => absurd h List.not_mem_nil⟩
  | cons c cs =>
    rw [scanSign]
    split_ifs with hc
    · refine ⟨rfl, fun x hx => ?_⟩
      rw [List.mem_singleton.mp hx, isNumChar]
      simp only [Bool.or_eq_true, decide_eq_true_eq] at hc ⊢
      tauto
    · exact ⟨rfl, fun _ h => absurd h List.not_mem_nil⟩

theorem scanExp_split (cs : List Char) :
    cs = (scanExp cs).1 ++ (scanExp cs).2 ∧ ∀ c ∈ (scanExp cs).1, isNumChar c = true := by
  cases cs with
  | nil => exact ⟨rfl, fun _ h => absurd h List.not_mem_nil⟩
  | cons c cs =>
    rw [scanExp]
    split_ifs with hc
    · obtain ⟨h1, h2⟩ := scanSign_split cs
      split
      · exact ⟨rfl, fun _ h => absurd h List.not_mem_nil⟩
      · rename_i d ds hd
        refine ⟨?_, fun x hx => ?_⟩
        · dsimp only
          rw [← hd, List.append_assoc, List.takeWhile_append_dropWhile, List.cons_append, ← h1]
        · rcases List.mem_append.mp hx with hx | hx
          · rcases List.mem_cons.mp hx with rfl | hx
            · simp only [Bool.or_eq_true, decide_eq_true_eq] at hc
              simp only [isNumChar, Bool.or_eq_true, decide_eq_true_eq]
              tauto
            · exact h2 x hx
          · exact isNumChar_of_digit (digit_of_mem_takeWhile (hd ▸ hx))
    · exact ⟨rfl, fun _ h => absurd h List.not_mem_nil⟩

theorem scanUnsigned_split {cs text r : List Char} {b : Bool} (h : scanUnsigned cs = some (b, text, r)) :
    cs = text ++ r ∧ text ≠ [] ∧ (∀ c ∈ text, isNumChar c = true) ∧
      (b = true → ∀ c ∈ text, c.isDigit = true) := by
  unfold scanUnsigned at h
  rcases hi : scanInt cs with _ | ⟨ds, r'⟩ <;> rw [hi] at h
  · cases h
  · cases h
    obtain ⟨h1, h2, h3⟩ := scanInt_split hi
    obtain ⟨h4, h5⟩ := scanFrac_split r'
    obtain ⟨h6, h7⟩ := scanExp_split (scanFrac r').2
    refine ⟨?_, by simp [h2], fun c hc => ?_, fun hb c hc => ?_⟩
    · rw [List.append_assoc, List.append_assoc, ← h6, ← h4, h1]
    · rcases List.mem_append.mp hc with hc | hc
      · rcases List.mem_append.mp hc with hc | hc
        · exact isNumChar_of_digit (h3 c hc)
        · exact h5 c hc
      · exact h7 c hc
    · simp only [Bool.and_eq_true, List.isEmpty_iff] at hb
      rw [hb.1, hb.2, List.append_nil, List.append_nil] at hc
      exact h3 c hc

theorem ofDigitChars_lt {ds : List Char} (h : ∀ c ∈ ds, c.isDigit = true) (init : Nat) :
    Nat.ofDigitChars 10 ds init < 10 ^ ds.length * (init + 1) := by
  induction ds generalizing init with
  | nil => simp
  | cons c ds ih =>
    have hc : c.toNat - '0'.toNat ≤ 9 := by
      have := h c List.mem_cons_self
      simp only [Char.isDigit, ge_iff_le, Bool.and_eq_true, decide_eq_true_eq] at this
      have h9 : c.toNat ≤ 57 := this.2
      show c.toNat - 48 ≤ 9
      omega
    rw [Nat.ofDigitChars_cons]
    refine lt_of_lt_of_le (ih (fun x hx => h x (List.mem_cons_of_mem _ hx)) _) ?_
    rw [List.length_cons, Nat.pow_succ, Nat.mul_assoc]
    exact Nat.mul_le_mul_left _ (by omega)

theorem length_toDigits_natOf {ds : List Char} (hne : ds ≠ []) (h : ∀ c ∈ ds, c.isDigit = true) :
    (Nat.toDigits 10 (natOf ds)).length ≤ ds.length :=
  (Nat.length_toDigits_le_iff (by decide) (List.length_pos_iff.mpr hne)).mpr
    (by simpa [natOf] using ofDigitChars_lt h 0)

/-- What is scanned as a number is its text, or an integer that is written no
longer. -/
theorem scanNumber_split {cs rest : List Char} {v : Json} (h : scanNumber cs = some (v, rest)) :
    ∃ text, cs = text ++ rest ∧ text ≠ [] ∧ (∀ c ∈ text, isNumChar c = true) ∧
      (v = .float (String.ofList text) ∨ ∃ i, v = .int i ∧ (renderInt i).length ≤ text.length) := by
  cases cs with
  | nil => cases h
  | cons c cs =>
    rw [scanNumber] at h
    split_ifs at h with hc
    · rcases hu : scanUnsigned cs with _ | ⟨_ | _, text, r⟩ <;> rw [hu] at h
      · cases h
      all_goals
        cases h
        obtain ⟨h1, h2, h3, h4⟩ := scanUnsigned_split hu
        refine ⟨'-' :: text, by rw [hc, h1]; rfl, List.cons_ne_nil _ _, ?_, ?_⟩
        · exact List.forall_mem_cons.mpr ⟨rfl, h3⟩
      · exact .inl rfl
      · refine .inr ⟨_, rfl, ?_⟩
        have hl := length_toDigits_natOf h2 (h4 rfl)
        rcases hn : natOf text with _ | n
        · show 1 ≤ text.length + 1
          omega
        · rw [hn] at hl
          exact Nat.succ_le_succ hl
    · rcases hu : scanUnsigned (c :: cs) with _ | ⟨_ | _, text, r⟩ <;> rw [hu] at h
      · cases h
      all_goals
        cases h
        obtain ⟨h1, h2, h3, h4⟩ := scanUnsigned_split hu
        refine ⟨text, h1, h2, h3, ?_⟩
      · exact .inl rfl
      · exact .inr ⟨_, rfl, length_toDigits_natOf h2 (h4 rfl)⟩

end Json
