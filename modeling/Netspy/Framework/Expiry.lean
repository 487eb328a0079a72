import Mathlib.Logic.Function.Basic

/-!
# Keys that expire

The keys of a store such as Redis, as far as their deadlines go: a key is absent, there
without a deadline, or there with one. A write makes a key without a deadline, or keeps
the one it has; a rename takes it along. What a key has after each operation is one
lemma each.
-/

/-- The keys that are there, each with its deadline, if it has one. -/
abbrev Keyspace (κ : Type*) := κ → Option (Option Nat)

namespace Keyspace

variable {κ : Type*} [DecidableEq κ] (ks : Keyspace κ) (k : κ)

/-- Commands that add to keys. -/
def write (keys : List κ) : Keyspace κ := fun k => if k ∈ keys then some ((ks k).getD none) else ks k

/-- `DEL`, or a command that takes the last element of a key. -/
def delete : Keyspace κ := Function.update ks k none

/-- `SET key value NX EX`, with the deadline that this makes. -/
def setNx (deadline : Nat) : Keyspace κ := if ks k = none then Function.update ks k (some (some deadline)) else ks

/-- `EXPIRE` of some keys, with the deadline that this makes. -/
def expire (keys : List κ) (deadline : Nat) : Keyspace κ :=
  fun k => if k ∈ keys then (ks k).map fun _ => some deadline else ks k

/-- `RENAME`, of a key that is there. -/
def rename (k' : κ) : Keyspace κ := Function.update (Function.update ks k' (ks k)) k none

omit [DecidableEq κ] in
/-- What is there at a later time. -/
def elapse (now : Nat) : Keyspace κ := fun k =>
  match ks k with
  | some (some deadline) => if deadline ≤ now then none else ks k
  | _ => ks k

/-- The key has a deadline. -/
def Timed : Prop := ∃ deadline, ks k = some (some deadline)

variable {ks} {k} {k' : κ} {deadline now : Nat}

omit [DecidableEq κ] in
theorem timed_iff : ks.Timed k ↔ ks k ≠ none ∧ ks k ≠ some none := by
  unfold Timed
  cases ks k with
  | none => simp
  | some x => cases x with
    | none => simp
    | some deadline => simp

theorem write_of_mem {keys : List κ} (h : k ∈ keys) : ks.write keys k = some ((ks k).getD none) := if_pos h

theorem write_of_not_mem {keys : List κ} (h : k ∉ keys) : ks.write keys k = ks k := if_neg h

/-- A write leaves all deadlines. -/
theorem write_deadline {keys : List κ} : ks.write keys k = some (some deadline) ↔ ks k = some (some deadline) := by
  by_cases h : k ∈ keys
  · rw [write_of_mem h]
    cases ks k with
    | none => simp
    | some x => simp
  · rw [write_of_not_mem h]

theorem write_eq_none {keys : List κ} : ks.write keys k = none ↔ k ∉ keys ∧ ks k = none := by
  by_cases h : k ∈ keys
  · simp [write_of_mem h, h]
  · simp [write_of_not_mem h, h]

@[simp] theorem delete_self : ks.delete k k = none := Function.update_self ..

theorem delete_of_ne (h : k' ≠ k) : ks.delete k k' = ks k' := Function.update_of_ne h ..

theorem delete_eq_some {x : Option Nat} : ks.delete k k' = some x ↔ k' ≠ k ∧ ks k' = some x := by
  by_cases h : k' = k
  · subst h
    simp
  · rw [delete_of_ne h]
    exact (and_iff_right h).symm

theorem setNx_of_ne (h : k' ≠ k) : ks.setNx k deadline k' = ks k' := by
  unfold setNx
  split
  · exact Function.update_of_ne h ..
  · rfl

theorem setNx_self : ks.setNx k deadline k = if ks k = none then some (some deadline) else ks k := by
  unfold setNx
  split
  · exact Function.update_self ..
  · rfl

theorem expire_of_mem {keys : List κ} (h : k ∈ keys) : ks.expire keys deadline k = (ks k).map fun _ => some deadline :=
  if_pos h

theorem expire_of_not_mem {keys : List κ} (h : k ∉ keys) : ks.expire keys deadline k = ks k := if_neg h

theorem expire_eq_none {keys : List κ} : ks.expire keys deadline k = none ↔ ks k = none := by
  unfold expire
  split
  · exact Option.map_eq_none_iff
  · rfl

theorem rename_self (h : k ≠ k') : ks.rename k k' k = none ∧ ks.rename k k' k' = ks k :=
  ⟨Function.update_self .., (Function.update_of_ne (Ne.symm h) ..).trans (Function.update_self ..)⟩

theorem rename_of_ne {k₁ : κ} (h : k₁ ≠ k) (h' : k₁ ≠ k') : ks.rename k k' k₁ = ks k₁ :=
  (Function.update_of_ne h ..).trans (Function.update_of_ne h' ..)

omit [DecidableEq κ] in
/-- What is still there was there, and its deadline has not come. -/
theorem elapse_eq_some {x : Option Nat} :
    ks.elapse now k = some x ↔ ks k = some x ∧ ∀ deadline, x = some deadline → now < deadline := by
  unfold elapse
  split
  · rename_i deadline hk
    split
    · rename_i hle
      constructor
      · exact nofun
      · rintro ⟨h, hlt⟩
        rw [hk] at h
        cases h
        exact absurd (hlt deadline rfl) (Nat.not_lt.mpr hle)
    · rename_i hlt
      refine ⟨fun h => ⟨h, ?_⟩, And.left⟩
      rintro d rfl
      rw [hk] at h
      cases h
      exact Nat.lt_of_not_le hlt
  · rename_i hk
    refine ⟨fun h => ⟨h, ?_⟩, And.left⟩
    rintro d rfl
    exact absurd h (hk d)

omit [DecidableEq κ] in
/-- A key expires if its deadline has come. -/
theorem elapse_ne_none (h : ks k ≠ none) :
    ks.elapse now k ≠ none ↔ ∀ deadline, ks k = some (some deadline) → now < deadline := by
  obtain ⟨x, hx⟩ := Option.ne_none_iff_exists'.mp h
  constructor
  · intro he deadline hd
    obtain ⟨y, hy⟩ := Option.ne_none_iff_exists'.mp he
    obtain ⟨hy, hlt⟩ := elapse_eq_some.mp hy
    exact hlt deadline (Option.some.inj (hy.symm.trans hd))
  · intro hlt
    rw [elapse_eq_some.mpr ⟨hx, fun d hd => hlt d (hd ▸ hx)⟩]
    exact Option.some_ne_none x

end Keyspace
