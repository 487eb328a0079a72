import Mathlib.Logic.Function.Basic
import Mathlib.Tactic.Common

/-!
# Files with names

A name leads to a file, and the file has the bytes: writing goes to the file that was
opened, whatever name leads there now. Opening for writing cuts a file to nothing and
leaves it where it is; only a name without a file gets a new one. A rename takes the
name from what it led to, and that file stays with those that have it open.
-/

universe u

structure Files (ν : Type u) where
  names : ν → Option Nat := fun _ => none
  content : Nat → List UInt8 := fun _ => []
  /-- How many files there have been. -/
  made : Nat := 0

namespace Files

variable {ν : Type u} [DecidableEq ν]

/-- Bytes with `bs` written from `offset` on; what is missing before is zero. -/
def splice (xs : List UInt8) (offset : Nat) (bs : List UInt8) : List UInt8 :=
  (xs ++ List.replicate (offset - xs.length) 0).take offset ++ bs ++ xs.drop (offset + bs.length)

/-- `open(name, "w")`. -/
def openWrite (fs : Files ν) (name : ν) : Nat × Files ν :=
  match fs.names name with
  | some f => (f, { fs with content := Function.update fs.content f [] })
  | none =>
    (fs.made,
      { names := Function.update fs.names name (some fs.made)
        content := Function.update fs.content fs.made []
        made := fs.made + 1 })

def write (fs : Files ν) (f offset : Nat) (bs : List UInt8) : Files ν :=
  { fs with content := Function.update fs.content f (splice (fs.content f) offset bs) }

/-- `os.replace(a, b)`, which fails where `a` leads nowhere. -/
def rename (fs : Files ν) (a b : ν) : Option (Files ν) :=
  (fs.names a).map fun f => { fs with names := Function.update (Function.update fs.names a none) b (some f) }

def unlink (fs : Files ν) (name : ν) : Files ν := { fs with names := Function.update fs.names name none }

def read (fs : Files ν) (name : ν) : Option (List UInt8) := (fs.names name).map fs.content

/-- The files that names lead to have been made, and no two names lead to one. -/
structure Valid (fs : Files ν) : Prop where
  made (name : ν) (f : Nat) : fs.names name = some f → f < fs.made
  inj (a b : ν) (f : Nat) : fs.names a = some f → fs.names b = some f → a = b

/-- Writing on from the end. -/
theorem splice_end (xs bs : List UInt8) : splice xs xs.length bs = xs ++ bs := by
  simp [splice]

theorem splice_take (text : List UInt8) (offset n : Nat) (h : offset ≤ text.length) :
    splice (text.take offset) offset ((text.drop offset).take n) = text.take (offset + n) := by
  have hlen : (text.take offset).length = offset := by simp [h]
  have he := splice_end (text.take offset) ((text.drop offset).take n)
  rw [hlen] at he
  rw [he, ← List.take_add]

variable {fs : Files ν} {name : ν}

theorem openWrite_names : (fs.openWrite name).2.names name = some (fs.openWrite name).1 := by
  unfold openWrite
  split
  · assumption
  · simp

theorem openWrite_names_of_ne {other : ν} (h : other ≠ name) : (fs.openWrite name).2.names other = fs.names other := by
  unfold openWrite
  split
  · rfl
  · exact Function.update_of_ne h _ _

theorem openWrite_content : (fs.openWrite name).2.content (fs.openWrite name).1 = [] := by
  unfold openWrite
  split <;> simp

/-- What other names lead to is as it was. -/
theorem read_openWrite (hv : fs.Valid) {other : ν} (h : other ≠ name) :
    (fs.openWrite name).2.read other = fs.read other := by
  unfold read
  rw [openWrite_names_of_ne h]
  cases ho : fs.names other with
  | none => rfl
  | some g =>
    have hne : g ≠ (fs.openWrite name).1 := by
      unfold openWrite
      split
      · rename_i f hf
        rintro rfl
        exact h (hv.inj _ _ _ ho hf)
      · exact Nat.ne_of_lt (hv.made _ _ ho)
    have hcontent : (fs.openWrite name).2.content g = fs.content g := by
      unfold openWrite at hne ⊢
      split at hne <;> simp only at hne ⊢ <;> exact Function.update_of_ne hne _ _
    simp [hcontent]

theorem valid_openWrite (hv : fs.Valid) : (fs.openWrite name).2.Valid := by
  unfold openWrite
  split
  · exact ⟨hv.made, hv.inj⟩
  · constructor
    · intro a f ha
      by_cases hn : a = name
      · subst hn
        simp only [Function.update_self, Option.some.injEq] at ha
        exact ha ▸ Nat.lt_succ_self _
      · simp only [Function.update_of_ne hn] at ha
        exact Nat.lt_succ_of_lt (hv.made a f ha)
    · intro a b f ha hb
      by_cases hna : a = name <;> by_cases hnb : b = name <;>
        simp only [hna, hnb, Function.update_self, Function.update_of_ne, ne_eq, not_false_eq_true,
          Option.some.injEq] at ha hb
      · rw [hna, hnb]
      · exact absurd (hv.made b f hb) (by omega)
      · exact absurd (hv.made a f ha) (by omega)
      · exact hv.inj a b f ha hb

omit [DecidableEq ν] in
theorem read_write_of_ne {f offset : Nat} {bs : List UInt8} (h : fs.names name ≠ some f) :
    (fs.write f offset bs).read name = fs.read name := by
  unfold read write
  cases hn : fs.names name with
  | none => rfl
  | some g =>
    have hne : g ≠ f := by
      rintro rfl
      exact h hn
    simp [Function.update_of_ne hne]

omit [DecidableEq ν] in
theorem valid_write (hv : fs.Valid) (f offset : Nat) (bs : List UInt8) : (fs.write f offset bs).Valid :=
  ⟨hv.made, hv.inj⟩

theorem valid_rename {a b : ν} {fs' : Files ν} (hv : fs.Valid) (h : fs.rename a b = some fs') : fs'.Valid := by
  obtain ⟨f, hf, rfl⟩ := Option.map_eq_some_iff.mp h
  have hget : ∀ (c : ν) (g : Nat), Function.update (Function.update fs.names a none) b (some f) c = some g →
      c = b ∧ g = f ∨ c ≠ b ∧ c ≠ a ∧ fs.names c = some g := by
    intro c g hc
    by_cases hcb : c = b
    · subst hcb
      rw [Function.update_self] at hc
      exact .inl ⟨rfl, (Option.some.inj hc).symm⟩
    · rw [Function.update_of_ne hcb] at hc
      by_cases hca : c = a
      · subst hca
        simp at hc
      · rw [Function.update_of_ne hca] at hc
        exact .inr ⟨hcb, hca, hc⟩
  constructor
  · intro c g hc
    rcases hget c g hc with ⟨rfl, rfl⟩ | ⟨_, _, hc⟩
    · exact hv.made a _ hf
    · exact hv.made c g hc
  · intro c d g hc hd
    rcases hget c g hc with ⟨hcb, hcf⟩ | ⟨_, hca, hc'⟩ <;> rcases hget d g hd with ⟨hdb, hdf⟩ | ⟨_, hda, hd'⟩
    · rw [hcb, hdb]
    · exact absurd (hv.inj d a _ hd' (hcf ▸ hf)) hda
    · exact absurd (hv.inj c a _ hc' (hdf ▸ hf)) hca
    · exact hv.inj c d g hc' hd'

theorem unlink_names_of_ne {other : ν} (h : other ≠ name) : (fs.unlink name).names other = fs.names other :=
  Function.update_of_ne h _ _

theorem valid_unlink (hv : fs.Valid) (name : ν) : (fs.unlink name).Valid := by
  have hget : ∀ (c : ν) (g : Nat), (fs.unlink name).names c = some g → fs.names c = some g := by
    intro c g hc
    by_cases hcn : c = name
    · subst hcn
      simp [unlink] at hc
    · simpa only [unlink, Function.update_of_ne hcn] using hc
  exact ⟨fun c g hc => hv.made c g (hget c g hc), fun c d g hc hd => hv.inj c d g (hget c g hc) (hget d g hd)⟩

end Files
