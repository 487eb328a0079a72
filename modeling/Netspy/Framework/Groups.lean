import Mathlib.Data.List.Nodup
import Mathlib.Data.List.Perm.Basic

/-!
# Rows grouped by a key

`Groups key` is what collecting rows one by one into a
`dict[key, list]` gives: the groups in the order in which their keys first
came, the rows of a group in the order in which they came. No group is
empty, no key has two groups, and every row is in the group of its own key;
a `Groups` carries these as fields.

Regrouping loses no row (`rows_ofList`) and keeps the order of any rows that
share a key (`filter_rows_ofList`).
-/

universe u v

variable {α : Type u} {κ : Type v}

structure Groups (key : α → κ) where
  entries : List (κ × List α)
  nodup : (entries.map Prod.fst).Nodup
  keyed : ∀ e ∈ entries, ∀ x ∈ e.2, key x = e.1
  nonempty : ∀ e ∈ entries, e.2 ≠ []

namespace Groups

variable {key : α → κ}

def empty : Groups key := ⟨[], List.nodup_nil, by simp, by simp⟩

/-- All rows, group by group. -/
def rows (g : Groups key) : List α := g.entries.flatMap Prod.snd

@[simp] theorem entries_empty : (empty : Groups key).entries = [] := rfl

@[simp] theorem rows_empty : (empty : Groups key).rows = [] := rfl

variable [DecidableEq κ]

/-- `d[k].append(x)` on the entries of a `defaultdict(list)`. -/
def append (k : κ) (x : α) : List (κ × List α) → List (κ × List α)
  | [] => [(k, [x])]
  | (k', xs) :: es => if k' = k then (k', xs ++ [x]) :: es else (k', xs) :: append k x es

theorem mem_keys_append {k k' : κ} {x : α} {es : List (κ × List α)} :
    k' ∈ (append k x es).map Prod.fst ↔ k' = k ∨ k' ∈ es.map Prod.fst := by
  induction es with
  | nil => simp [append]
  | cons e es ih =>
    simp only [append]
    split
    · rename_i h
      simp only [List.map_cons, List.mem_cons, h]
      tauto
    · simp only [List.map_cons, List.mem_cons, ih]
      tauto

theorem nodup_append {k : κ} {x : α} {es : List (κ × List α)} (h : (es.map Prod.fst).Nodup) :
    ((append k x es).map Prod.fst).Nodup := by
  induction es with
  | nil => simp [append]
  | cons e es ih =>
    simp only [List.map_cons, List.nodup_cons] at h
    simp only [append]
    split
    · simpa using h
    · rename_i hne
      simp only [List.map_cons, List.nodup_cons, mem_keys_append, not_or]
      exact ⟨⟨hne, h.1⟩, ih h.2⟩

/-- What holds of the old groups, of a new group and of an extended one holds
of all groups after `append`. -/
theorem forall_append {P : κ × List α → Prop} {k : κ} {x : α} {es : List (κ × List α)}
    (hnew : P (k, [x])) (hext : ∀ xs, (k, xs) ∈ es → P (k, xs ++ [x])) (hold : ∀ e ∈ es, P e) :
    ∀ e ∈ append k x es, P e := by
  induction es with
  | nil => simpa [append] using hnew
  | cons e es ih =>
    obtain ⟨k', xs⟩ := e
    simp only [append]
    split
    · rename_i h
      subst h
      intro e he
      rcases List.mem_cons.mp he with rfl | he
      · exact hext xs List.mem_cons_self
      · exact hold e (List.mem_cons_of_mem _ he)
    · intro e he
      rcases List.mem_cons.mp he with rfl | he
      · exact hold _ List.mem_cons_self
      · exact ih (fun ys hys => hext ys (List.mem_cons_of_mem _ hys))
          (fun e he => hold e (List.mem_cons_of_mem _ he)) e he

/-- Adds a row to the group of its key. -/
def add (g : Groups key) (x : α) : Groups key where
  entries := append (key x) x g.entries
  nodup := nodup_append g.nodup
  keyed := forall_append (P := fun e => ∀ y ∈ e.2, key y = e.1) (by simp)
    (fun xs hxs y hy => by
      rcases List.mem_append.mp hy with hy | hy
      · exact g.keyed _ hxs y hy
      · rw [List.mem_singleton.mp hy])
    g.keyed
  nonempty := forall_append (P := fun e => e.2 ≠ []) (by simp) (fun xs _ => by simp) g.nonempty

def ofList (xs : List α) : Groups key := xs.foldl add empty

theorem flatMap_append_perm (k : κ) (x : α) (es : List (κ × List α)) :
    ((append k x es).flatMap Prod.snd).Perm (es.flatMap Prod.snd ++ [x]) := by
  induction es with
  | nil => simp [append]
  | cons e es ih =>
    simp only [append]
    split
    · simp only [List.flatMap_cons, List.append_assoc]
      exact (List.perm_append_comm : ([x] ++ _).Perm _).append_left e.2
    · simp only [List.flatMap_cons, List.append_assoc]
      exact ih.append_left e.2

theorem rows_add (g : Groups key) (x : α) : (g.add x).rows.Perm (g.rows ++ [x]) :=
  flatMap_append_perm _ x _

theorem rows_foldl_add (xs : List α) (g : Groups key) : (xs.foldl add g).rows.Perm (g.rows ++ xs) := by
  induction xs generalizing g with
  | nil => simp
  | cons x xs ih =>
    refine (ih (g.add x)).trans (((rows_add g x).append_right xs).trans ?_)
    simp

/-- Grouping keeps every row, once. -/
theorem rows_ofList (xs : List α) : (ofList xs : Groups key).rows.Perm xs := by
  have h := rows_foldl_add xs (empty : Groups key)
  rwa [rows_empty, List.nil_append] at h

/-- Rows with the key `k` are in the group of `k` only. -/
theorem filter_flatMap_append {p : α → Bool} {k : κ} {x : α} {es : List (κ × List α)}
    (hp : ∀ y, p y = true → key y = k) (hk : k = key x ∨ p x = false)
    (hn : (es.map Prod.fst).Nodup) (hes : ∀ e ∈ es, ∀ y ∈ e.2, key y = e.1) :
    ((append (key x) x es).flatMap Prod.snd).filter p = (es.flatMap Prod.snd).filter p ++ [x].filter p := by
  induction es with
  | nil => simp [append]
  | cons e es ih =>
    obtain ⟨k', xs⟩ := e
    simp only [List.map_cons, List.nodup_cons] at hn
    have htail : ∀ e ∈ es, ∀ y ∈ e.2, key y = e.1 := fun e he => hes e (List.mem_cons_of_mem _ he)
    simp only [append]
    split
    · rename_i h
      simp only [List.flatMap_cons, List.filter_append, List.append_assoc]
      congr 1
      rcases hk with rfl | hx
      · -- the later groups have other keys
        have hnone : (es.flatMap Prod.snd).filter p = [] := by
          rw [List.filter_eq_nil_iff]
          intro y hy hpy
          obtain ⟨e, he, hye⟩ := List.mem_flatMap.mp hy
          have : e.1 = k' := by rw [← htail e he y hye, hp y hpy, h]
          exact hn.1 (this ▸ List.mem_map_of_mem (f := Prod.fst) he)
        rw [hnone, List.append_nil, List.nil_append]
      · simp [hx]
    · simp only [List.flatMap_cons, List.filter_append, List.append_assoc]
      rw [ih hn.2 htail]

theorem filter_rows_add {p : α → Bool} {k : κ} (hp : ∀ y, p y = true → key y = k) (g : Groups key)
    (x : α) : (g.add x).rows.filter p = g.rows.filter p ++ [x].filter p := by
  refine filter_flatMap_append hp ?_ g.nodup g.keyed
  cases h : p x with
  | true => exact .inl (hp x h).symm
  | false => exact .inr rfl

/-- Rows that share a key keep their order. -/
theorem filter_rows_ofList {p : α → Bool} {k : κ} (hp : ∀ y, p y = true → key y = k) (xs : List α) :
    (ofList xs : Groups key).rows.filter p = xs.filter p := by
  have h : ∀ (xs : List α) (g : Groups key),
      (xs.foldl add g).rows.filter p = g.rows.filter p ++ xs.filter p := by
    intro xs
    induction xs with
    | nil => simp
    | cons x xs ih =>
      intro g
      rw [List.foldl_cons, ih (g.add x), filter_rows_add hp, List.append_assoc, ← List.filter_append,
        List.singleton_append]
  have := h xs (empty : Groups key)
  rwa [rows_empty, List.filter_nil, List.nil_append] at this

/-- The rows with the key of a group are the rows of that group. -/
theorem filter_flatMap_eq {es : List (κ × List α)} (hn : (es.map Prod.fst).Nodup)
    (hes : ∀ e ∈ es, ∀ x ∈ e.2, key x = e.1) {e : κ × List α} (he : e ∈ es) :
    (es.flatMap Prod.snd).filter (fun x => key x = e.1) = e.2 := by
  induction es with
  | nil => cases he
  | cons d es ih =>
    simp only [List.map_cons, List.nodup_cons] at hn
    have htail : ∀ e ∈ es, ∀ x ∈ e.2, key x = e.1 := fun e he => hes e (List.mem_cons_of_mem _ he)
    rw [List.flatMap_cons, List.filter_append]
    rcases List.mem_cons.mp he with rfl | he
    · have hall : e.2.filter (fun x => key x = e.1) = e.2 := by
        rw [List.filter_eq_self]
        intro x hx
        simpa using hes e List.mem_cons_self x hx
      have hnone : (es.flatMap Prod.snd).filter (fun x => key x = e.1) = [] := by
        rw [List.filter_eq_nil_iff]
        intro x hx hk
        obtain ⟨e', he', hxe⟩ := List.mem_flatMap.mp hx
        have : e'.1 = e.1 := by rw [← htail e' he' x hxe, of_decide_eq_true hk]
        exact hn.1 (this ▸ List.mem_map_of_mem (f := Prod.fst) he')
      rw [hall, hnone, List.append_nil]
    · have hnone : d.2.filter (fun x => key x = e.1) = [] := by
        rw [List.filter_eq_nil_iff]
        intro x hx hk
        have : d.1 = e.1 := by rw [← hes d List.mem_cons_self x hx, of_decide_eq_true hk]
        exact hn.1 (this ▸ List.mem_map_of_mem (f := Prod.fst) he)
      rw [hnone, List.nil_append, ih hn.2 htail he]

/-- The groups of a list: for each key that occurs, the rows with that key in
their order. -/
theorem mem_entries_ofList {xs ys : List α} {k : κ} :
    (k, ys) ∈ (ofList xs : Groups key).entries ↔ ys = xs.filter (fun x => key x = k) ∧ ys ≠ [] := by
  have hfilter : ∀ e ∈ (ofList xs : Groups key).entries, e.2 = xs.filter (fun x => key x = e.1) := by
    intro e he
    have h := filter_rows_ofList (fun y (hy : decide (key y = e.1) = true) => of_decide_eq_true hy) xs
    rw [← h]
    exact (filter_flatMap_eq (ofList xs).nodup (ofList xs).keyed he).symm
  constructor
  · intro he
    exact ⟨hfilter _ he, (ofList xs).nonempty _ he⟩
  · rintro ⟨rfl, hne⟩
    obtain ⟨x, hx⟩ := List.exists_mem_of_ne_nil _ hne
    obtain ⟨hx, hk⟩ := List.mem_filter.mp hx
    have hrows : x ∈ (ofList xs : Groups key).rows := (rows_ofList xs).mem_iff.mpr hx
    obtain ⟨e, he, hxe⟩ := List.mem_flatMap.mp hrows
    have hek : e.1 = k := by rw [← (ofList xs).keyed e he x hxe, of_decide_eq_true hk]
    rw [← hek, ← hfilter e he]
    exact he

/-- A group is found under its key. -/
theorem lookup_entries (g : Groups key) {k : κ} {xs : List α} (h : (k, xs) ∈ g.entries) :
    g.entries.lookup k = some xs := by
  have hgo : ∀ es : List (κ × List α), (es.map Prod.fst).Nodup → (k, xs) ∈ es → es.lookup k = some xs := by
    intro es hn hm
    induction es with
    | nil => exact absurd hm List.not_mem_nil
    | cons e es ih =>
      obtain ⟨k', ys⟩ := e
      rw [List.map_cons, List.nodup_cons] at hn
      rw [List.lookup_cons]
      rcases List.mem_cons.mp hm with hm | hm
      · cases hm
        rw [beq_self_eq_true]
      · have hne : k ≠ k' := fun e => hn.1 (List.mem_map.mpr ⟨(k, xs), hm, e⟩)
        rw [beq_eq_false_iff_ne.mpr hne]
        exact ih hn.2 hm
  exact hgo _ g.nodup h

end Groups
