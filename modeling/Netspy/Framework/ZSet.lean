import Mathlib.Data.List.Sort
import Mathlib.Order.Lattice

/-!
# Sorted sets

Redis sorted sets: each member once, with a score, in the order of the scores
and, for equal scores, of the members. `ZSet` keeps both facts with the rows.
The commands are named as Redis names them; what they do is said by which
members and rows there are after them (`mem_zadd`, `mem_zrem`, `mem_zpopmin`)
and, for a range, by scores and ranks (`mem_zrangebyscore`).
-/

universe u

/-- The order of two rows. -/
def ZSet.Row.le {α : Type u} [LinearOrder α] (p q : Int × α) : Prop := p.1 < q.1 ∨ p.1 = q.1 ∧ p.2 ≤ q.2

structure ZSet (α : Type u) [LinearOrder α] where
  rows : List (Int × α)
  sorted : rows.Pairwise ZSet.Row.le
  nodup : (rows.map Prod.snd).Nodup

namespace ZSet

variable {α : Type u} [LinearOrder α]

instance (p q : Int × α) : Decidable (Row.le p q) :=
  inferInstanceAs (Decidable (p.1 < q.1 ∨ p.1 = q.1 ∧ p.2 ≤ q.2))

instance : Std.Total (Row.le (α := α)) where
  total p q := by
    unfold Row.le
    rcases lt_trichotomy p.1 q.1 with h | h | h
    · exact .inl (.inl h)
    · exact (le_total p.2 q.2).imp (fun hl => .inr ⟨h, hl⟩) fun hl => .inr ⟨h.symm, hl⟩
    · exact .inr (.inl h)

instance : IsTrans (Int × α) Row.le where
  trans p q r := by
    rintro (h | ⟨h, hl⟩) (h' | ⟨h', hl'⟩)
    · exact .inl (h.trans h')
    · exact .inl (h' ▸ h)
    · exact .inl (h ▸ h')
    · exact .inr ⟨h.trans h', hl.trans hl'⟩

def members (z : ZSet α) : List α := z.rows.map Prod.snd

instance : Membership α (ZSet α) := ⟨fun z a => a ∈ z.members⟩

instance (a : α) (z : ZSet α) : Decidable (a ∈ z) := inferInstanceAs (Decidable (a ∈ z.members))

instance : EmptyCollection (ZSet α) := ⟨⟨[], .nil, .nil⟩⟩

theorem mem_iff {z : ZSet α} {a : α} : a ∈ z ↔ ∃ x, (x, a) ∈ z.rows := by
  show a ∈ z.rows.map Prod.snd ↔ _
  simp

theorem mem_of_row {z : ZSet α} {x : Int} {a : α} (h : (x, a) ∈ z.rows) : a ∈ z := mem_iff.mpr ⟨x, h⟩

/-- A member has one score. -/
theorem score_unique {z : ZSet α} {x y : Int} {a : α} (h : (x, a) ∈ z.rows) (h' : (y, a) ∈ z.rows) :
    x = y :=
  congrArg Prod.fst (List.inj_on_of_nodup_map z.nodup h h' rfl)

def zcard (z : ZSet α) : Nat := z.rows.length

theorem zcard_eq_zero {z : ZSet α} : z.zcard = 0 ↔ ∀ a, a ∉ z := by
  unfold zcard
  rw [List.length_eq_zero_iff]
  constructor
  · intro h a ha
    obtain ⟨x, hx⟩ := mem_iff.mp ha
    rw [h] at hx
    exact List.not_mem_nil hx
  · intro h
    exact List.eq_nil_iff_forall_not_mem.mpr fun p hp => h p.2 (mem_of_row hp)

/-- How many rows are before that of `a`. -/
def zrank (z : ZSet α) (a : α) : Nat := z.members.idxOf a

def zrem (z : ZSet α) (a : α) : ZSet α where
  rows := z.rows.filter fun p => p.2 ≠ a
  sorted := z.sorted.filter _
  nodup := z.nodup.sublist (List.filter_sublist.map _)

@[simp] theorem row_zrem {z : ZSet α} {a b : α} {y : Int} :
    (y, b) ∈ (z.zrem a).rows ↔ (y, b) ∈ z.rows ∧ b ≠ a := by
  simp [zrem]

@[simp] theorem mem_zrem {z : ZSet α} {a b : α} : b ∈ z.zrem a ↔ b ∈ z ∧ b ≠ a := by
  simp only [mem_iff, row_zrem, exists_and_right]

def zadd (z : ZSet α) (a : α) (x : Int) : ZSet α where
  rows := (z.zrem a).rows.orderedInsert Row.le (x, a)
  sorted := (z.zrem a).sorted.orderedInsert _ _
  nodup := by
    have hp := (List.perm_orderedInsert Row.le (x, a) (z.zrem a).rows).map Prod.snd
    rw [hp.nodup_iff]
    refine List.nodup_cons.mpr ⟨fun h => ?_, (z.zrem a).nodup⟩
    exact (mem_zrem.mp (show a ∈ z.zrem a from h)).2 rfl

@[simp] theorem row_zadd {z : ZSet α} {a b : α} {x y : Int} :
    (y, b) ∈ (z.zadd a x).rows ↔ (y = x ∧ b = a) ∨ ((y, b) ∈ z.rows ∧ b ≠ a) := by
  simp only [zadd, List.mem_orderedInsert, Prod.mk.injEq, row_zrem]

@[simp] theorem mem_zadd {z : ZSet α} {a b : α} {x : Int} : b ∈ z.zadd a x ↔ b = a ∨ b ∈ z := by
  simp only [mem_iff, row_zadd]
  constructor
  · rintro ⟨y, ⟨-, h⟩ | ⟨h, -⟩⟩
    · exact .inl h
    · exact .inr ⟨y, h⟩
  · rintro (rfl | ⟨y, h⟩)
    · exact ⟨x, .inl ⟨rfl, rfl⟩⟩
    · by_cases hb : b = a
      · exact ⟨x, .inl ⟨rfl, hb⟩⟩
      · exact ⟨y, .inr ⟨h, hb⟩⟩

/-- `ZADD .. XX`. -/
def zaddXX (z : ZSet α) (a : α) (x : Int) : ZSet α := if a ∈ z then z.zadd a x else z

@[simp] theorem mem_zaddXX {z : ZSet α} {a b : α} {x : Int} : b ∈ z.zaddXX a x ↔ b ∈ z := by
  unfold zaddXX
  split
  · rename_i h
    simp only [mem_zadd, or_iff_right_iff_imp]
    exact fun e => e ▸ h
  · rfl

/-- `ZADD .. NX`. -/
def zaddNX (z : ZSet α) (a : α) (x : Int) : ZSet α := if a ∈ z then z else z.zadd a x

@[simp] theorem mem_zaddNX {z : ZSet α} {a b : α} {x : Int} : b ∈ z.zaddNX a x ↔ b = a ∨ b ∈ z := by
  unfold zaddNX
  split
  · rename_i h
    exact ⟨.inr, fun hb => hb.elim (fun e => e ▸ h) id⟩
  · exact mem_zadd

theorem row_zaddNX {z : ZSet α} {a b : α} {x y : Int} (h : (y, b) ∈ (z.zaddNX a x).rows) :
    (y = x ∧ b = a) ∨ (y, b) ∈ z.rows := by
  unfold zaddNX at h
  split at h
  · exact .inr h
  · exact (row_zadd.mp h).imp_right And.left

/-- What is left by `ZPOPMIN` of up to `n` members. -/
def afterPop (z : ZSet α) (n : Nat) : ZSet α where
  rows := z.rows.drop n
  sorted := z.sorted.sublist (List.drop_sublist _ _)
  nodup := z.nodup.sublist ((List.drop_sublist _ _).map _)

def zpopmin (z : ZSet α) (n : Nat) : List α × ZSet α := (z.members.take n, z.afterPop n)

theorem mem_zpopmin {z : ZSet α} {n : Nat} {a : α} :
    a ∈ z ↔ a ∈ (z.zpopmin n).1 ∨ a ∈ (z.zpopmin n).2 := by
  show a ∈ z.members ↔ a ∈ z.members.take n ∨ a ∈ (z.rows.drop n).map Prod.snd
  rw [List.map_drop, ← List.mem_append]
  exact (List.take_append_drop n z.members).symm ▸ Iff.rfl

/-- What is popped is gone, as it was there once. -/
theorem not_mem_zpopmin {z : ZSet α} {n : Nat} {a : α} (h : a ∈ (z.zpopmin n).1) : a ∉ (z.zpopmin n).2 := by
  have hn : (z.members.take n ++ z.members.drop n).Nodup := (List.take_append_drop n z.members).symm ▸ z.nodup
  intro h'
  have h' : a ∈ z.members.drop n := (List.map_drop (f := Prod.snd) (l := z.rows) (i := n)) ▸ h'
  exact (List.nodup_append.mp hn).2.2 a h a h' rfl

theorem mem_afterPop {z : ZSet α} {p : Int × α} (h : z.rows.head? = some p) {b : α} :
    b ∈ z.afterPop 1 ↔ b ∈ z ∧ b ≠ p.2 := by
  obtain ⟨rows, hrows⟩ := List.head?_eq_some_iff.mp h
  have hn := z.nodup
  rw [hrows, List.map_cons, List.nodup_cons] at hn
  show b ∈ (z.rows.drop 1).map Prod.snd ↔ b ∈ z.rows.map Prod.snd ∧ b ≠ p.2
  rw [hrows, List.drop_one, List.tail_cons, List.map_cons, List.mem_cons]
  constructor
  · exact fun hb => ⟨.inr hb, fun he => hn.1 (he ▸ hb)⟩
  · exact fun hb => hb.1.resolve_left hb.2

/-- `ZRANGEBYSCORE -inf x LIMIT 0 n`. -/
def zrangebyscore (z : ZSet α) (x : Int) (n : Nat) : List α :=
  ((z.rows.filter fun p => p.1 ≤ x).take n).map Prod.snd

theorem mem_take_filter {x y : Int} {a : α} {rows : List (Int × α)} (hs : rows.Pairwise Row.le)
    (hn : (rows.map Prod.snd).Nodup) (n : Nat) :
    (y, a) ∈ (rows.filter fun p => p.1 ≤ x).take n ↔
      (y, a) ∈ rows ∧ y ≤ x ∧ (rows.map Prod.snd).idxOf a < n := by
  induction rows generalizing n with
  | nil => simp
  | cons p rest ih =>
    obtain ⟨hp, hs⟩ := List.pairwise_cons.mp hs
    obtain ⟨hpn, hn⟩ := List.nodup_cons.mp hn
    cases n with
    | zero => simp
    | succ n =>
      by_cases hx : p.1 ≤ x
      · rw [List.filter_cons_of_pos (by simpa using hx), List.take_succ_cons, List.mem_cons, ih hs hn,
          List.mem_cons, List.map_cons]
        by_cases ha : p.2 = a
        · have hrest : (y, a) ∉ rest := fun h => hpn (ha ▸ List.mem_map_of_mem h)
          rw [ha, List.idxOf_cons_self]
          constructor
          · rintro (h | h)
            · exact ⟨.inl h, by rw [← h] at hx; exact hx, Nat.succ_pos n⟩
            · exact absurd h.1 hrest
          · rintro ⟨h | h, -⟩
            · exact .inl h
            · exact absurd h hrest
        · rw [List.idxOf_cons_ne _ ha, Nat.succ_lt_succ_iff]
          have hpa : (y, a) ≠ p := fun h => ha (by rw [← h])
          simp only [hpa, false_or]
      · -- the rows after `p` have scores above `x` too
        have hlt : ∀ q ∈ p :: rest, x < q.1 := by
          intro q hq
          rcases List.mem_cons.mp hq with rfl | hq
          · omega
          · rcases hp q hq with h | h <;> omega
        rw [List.filter_eq_nil_iff.mpr fun q hq => by simpa using hlt q hq, List.take_nil]
        constructor
        · intro h
          exact absurd h List.not_mem_nil
        · rintro ⟨h, hy, -⟩
          exact absurd (hlt _ h) (by simpa using hy)

/-- The members of a range: scores up to `x`, and fewer than `n` rows before. -/
theorem mem_zrangebyscore {z : ZSet α} {x : Int} {n : Nat} {a : α} :
    a ∈ z.zrangebyscore x n ↔ ∃ y, (y, a) ∈ z.rows ∧ y ≤ x ∧ z.zrank a < n := by
  unfold zrangebyscore
  simp only [List.mem_map, Prod.exists, exists_eq_right]
  exact exists_congr fun y => mem_take_filter z.sorted z.nodup n

/-! ## Several members -/

theorem mem_foldl_zrem {z : ZSet α} {as : List α} {b : α} : b ∈ as.foldl zrem z ↔ b ∈ z ∧ b ∉ as := by
  induction as generalizing z with
  | nil => simp
  | cons a as ih =>
    rw [List.foldl_cons, ih, mem_zrem, List.mem_cons, not_or, and_assoc]

theorem row_foldl_zrem {z : ZSet α} {as : List α} {b : α} {y : Int} :
    (y, b) ∈ (as.foldl zrem z).rows ↔ (y, b) ∈ z.rows ∧ b ∉ as := by
  induction as generalizing z with
  | nil => simp
  | cons a as ih =>
    rw [List.foldl_cons, ih, row_zrem, List.mem_cons, not_or, and_assoc]

/-- Members added with one score have that score, and the others keep theirs. -/
theorem row_foldl_zadd {z : ZSet α} {as : List α} {x : Int} {b : α} {y : Int} :
    (y, b) ∈ (as.foldl (fun z a => z.zadd a x) z).rows ↔
      (b ∈ as ∧ y = x) ∨ (b ∉ as ∧ (y, b) ∈ z.rows) := by
  induction as generalizing z with
  | nil => simp
  | cons a as ih =>
    rw [List.foldl_cons, ih, row_zadd, List.mem_cons, not_or]
    tauto

theorem row_zaddXX {z : ZSet α} {a b : α} {x y : Int} :
    (y, b) ∈ (z.zaddXX a x).rows ↔ (b = a ∧ b ∈ z ∧ y = x) ∨ (¬ (b = a ∧ b ∈ z) ∧ (y, b) ∈ z.rows) := by
  unfold zaddXX
  split
  · rename_i h
    rw [row_zadd]
    constructor
    · rintro (⟨rfl, rfl⟩ | ⟨hy, hb⟩)
      · exact .inl ⟨rfl, h, rfl⟩
      · exact .inr ⟨fun e => hb e.1, hy⟩
    · rintro (⟨rfl, -, rfl⟩ | ⟨hb, hy⟩)
      · exact .inl ⟨rfl, rfl⟩
      · exact .inr ⟨hy, fun e => hb ⟨e, e ▸ h⟩⟩
  · rename_i h
    have hb : ¬ (b = a ∧ b ∈ z) := fun e => h (e.1 ▸ e.2)
    constructor
    · exact fun hy => .inr ⟨hb, hy⟩
    · rintro (⟨e, hz, -⟩ | ⟨-, hy⟩)
      · exact absurd ⟨e, hz⟩ hb
      · exact hy

theorem row_foldl_zaddXX {z : ZSet α} {as : List α} {x : Int} {b : α} {y : Int} :
    (y, b) ∈ (as.foldl (fun z a => z.zaddXX a x) z).rows ↔
      (b ∈ as ∧ b ∈ z ∧ y = x) ∨ (¬ (b ∈ as ∧ b ∈ z) ∧ (y, b) ∈ z.rows) := by
  induction as generalizing z with
  | nil => simp
  | cons a as ih =>
    rw [List.foldl_cons, ih, row_zaddXX, mem_zaddXX, List.mem_cons]
    tauto

theorem mem_foldl_zadd {z : ZSet α} {as : List α} {x : Int} {b : α} :
    b ∈ as.foldl (fun z a => z.zadd a x) z ↔ b ∈ as ∨ b ∈ z := by
  induction as generalizing z with
  | nil => simp
  | cons a as ih =>
    rw [List.foldl_cons, ih, mem_zadd, List.mem_cons]
    tauto

theorem mem_foldl_zaddNX {z : ZSet α} {as : List α} {x : Int} {b : α} :
    b ∈ as.foldl (fun z a => z.zaddNX a x) z ↔ b ∈ as ∨ b ∈ z := by
  induction as generalizing z with
  | nil => simp
  | cons a as ih =>
    rw [List.foldl_cons, ih, mem_zaddNX, List.mem_cons]
    tauto

theorem row_foldl_zaddNX {z : ZSet α} {as : List α} {x y : Int} {b : α}
    (h : (y, b) ∈ (as.foldl (fun z a => z.zaddNX a x) z).rows) : (y = x ∧ b ∈ as) ∨ (y, b) ∈ z.rows := by
  induction as generalizing z with
  | nil => exact .inr h
  | cons a as ih =>
    rcases ih h with ⟨hy, hb⟩ | h
    · exact .inl ⟨hy, List.mem_cons_of_mem a hb⟩
    · exact (row_zaddNX h).imp_left fun ⟨hy, hb⟩ => ⟨hy, hb ▸ List.mem_cons_self⟩

theorem mem_foldl_zaddXX {z : ZSet α} {as : List α} {x : Int} {b : α} :
    b ∈ as.foldl (fun z a => z.zaddXX a x) z ↔ b ∈ z := by
  induction as generalizing z with
  | nil => rfl
  | cons a as ih => rw [List.foldl_cons, ih, mem_zaddXX]

end ZSet
