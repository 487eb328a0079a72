import Netspy.Impl.CsvPipeline

/-!
# Rows under the header of a CSV file

Every item becomes one row, with the columns that its object took from the first item
it saved (`file_after`). The header is the one that the file's first writer left, so a
row is read back as its item exactly if the columns and the header agree on it
(`aligned_iff`); whatever the item, they do if the header is a prefix of the columns
(`fits_all_iff`).
-/

namespace Netspy

namespace CsvTable

/-- The items that are saved, in order. -/
def saved (acts : List CsvAct) : List Fields :=
  acts.flatMap fun
    | .saveItems items => items
    | _ => []

/-- The items that are saved, each with the columns of its object at that time. -/
def withColumns : Option (List String) → List CsvAct → List (List String × Fields)
  | _, [] => []
  | _, .create :: acts | _, .close :: acts => withColumns none acts
  | columns, .saveItems [] :: acts => withColumns columns acts
  | columns, .saveItems (sample :: items) :: acts =>
    let columns := columns.getD (sample.map Prod.fst)
    (sample :: items).map (columns, ·) ++ withColumns (some columns) acts

theorem withColumns_snd (columns : Option (List String)) (acts : List CsvAct) :
    (withColumns columns acts).map Prod.snd = saved acts := by
  induction acts generalizing columns with
  | nil => rfl
  | cons a acts ih =>
    cases a with
    | create => exact ih none
    | close => exact ih none
    | saveItems items =>
      cases items with
      | nil => exact ih columns
      | cons sample items =>
        show ((sample :: items).map _ ++ withColumns _ acts).map Prod.snd = (sample :: items) ++ saved acts
        rw [List.map_append, List.map_map, ih]
        simp [Function.comp_def]

/-! ## The rows of the file -/

def rowsOf (ps : List (List String × Fields)) : List (List String) := ps.map fun p => writerow p.1 p.2

theorem rowsOf_append (ps qs : List (List String × Fields)) : rowsOf (ps ++ qs) = rowsOf ps ++ rowsOf qs :=
  List.map_append

theorem rowsOf_map (columns : List String) (items : List Fields) :
    rowsOf (items.map (columns, ·)) = items.map (writerow columns) := by
  simp [rowsOf, Function.comp_def]

/-- A file with a header is only appended to. -/
theorem foldl_file (t : CsvTable) (ht : t.file ≠ []) (acts : List CsvAct) :
    (acts.foldl step t).file = t.file ++ rowsOf (withColumns t.fieldnames acts) := by
  induction acts generalizing t with
  | nil => exact (List.append_nil _).symm
  | cons a acts ih =>
    rw [List.foldl_cons]
    cases a with
    | create => exact ih { t with fieldnames := none } ht
    | close => exact ih { t with fieldnames := none } ht
    | saveItems items =>
      cases items with
      | nil => exact ih t ht
      | cons sample items =>
        have he : t.file.isEmpty = false := by simpa using ht
        have hstep : step t (.saveItems (sample :: items)) =
            { file := t.file ++ (sample :: items).map (writerow (t.fieldnames.getD (sample.map Prod.fst)))
              fieldnames := some (t.fieldnames.getD (sample.map Prod.fst)) } := by
          obtain ⟨file, fieldnames⟩ := t
          cases fieldnames with
          | none => simp only [step, saveItems, writer, he, Bool.false_eq_true, if_false, Option.getD_none]
          | some columns => rfl
        rw [hstep, ih _ (by simp [ht])]
        show _ ++ _ ++ _ = t.file ++ rowsOf ((sample :: items).map _ ++ withColumns _ acts)
        rw [rowsOf_append, rowsOf_map, List.append_assoc]

/-- The file after some calls: an empty one gets the first columns as its header. -/
theorem file_after (file : List (List String)) (acts : List CsvAct) :
    (after file acts).file =
      if file = [] then ((withColumns none acts).head?.map Prod.fst).toList ++ rowsOf (withColumns none acts)
      else file ++ rowsOf (withColumns none acts) := by
  split
  · rename_i hf
    subst hf
    unfold after
    induction acts with
    | nil => rfl
    | cons a acts ih =>
      cases a with
      | create => exact ih
      | close => exact ih
      | saveItems items =>
        cases items with
        | nil => exact ih
        | cons sample items =>
          have hstep : step { file := [] } (.saveItems (sample :: items)) =
              { file := sample.map Prod.fst :: (sample :: items).map (writerow (sample.map Prod.fst))
                fieldnames := some (sample.map Prod.fst) } := rfl
          rw [List.foldl_cons, hstep, foldl_file _ (by simp)]
          show _ :: _ ++ _ = _ :: rowsOf ((sample :: items).map _ ++ withColumns _ acts)
          rw [rowsOf_append, rowsOf_map]
          rfl
  · rename_i hf
    exact foldl_file { file } hf acts

/-! ## Reading it back -/

/-- A row read under a header: every column of it holds the item's value. -/
def Under (header row : List String) (item : Fields) : Prop :=
  ∀ (j : Nat) (column : String), header[j]? = some column → row[j]? = some (cell item column)

/-- The rows after those that were there, and after the header, are the saved items
under the header. -/
def Aligned (file : List (List String)) (acts : List CsvAct) : Prop :=
  List.Forall₂ (Under ((after file acts).file.headD [])) ((after file acts).file.drop (max 1 file.length))
    (saved acts)

/-- The header and these columns agree on an item, column by column. -/
def Fits (header columns : List String) (item : Fields) : Prop :=
  ∀ (j : Nat) (column : String), header[j]? = some column → ∃ c, columns[j]? = some c ∧ cell item c = cell item column

theorem under_writerow {header columns : List String} {item : Fields} :
    Under header (writerow columns item) item ↔ Fits header columns item := by
  refine forall_congr' fun j => forall_congr' fun column => imp_congr_right fun _ => ?_
  rw [writerow, List.getElem?_map, Option.map_eq_some_iff]

/-- Columns fit a header whatever the item exactly if they begin with it. -/
theorem fits_all_iff {header columns : List String} :
    (∀ item, Fits header columns item) ↔ header <+: columns := by
  constructor
  · intro h
    have hget : ∀ (j : Nat) (column : String), header[j]? = some column → columns[j]? = some column := by
      intro j column hj
      obtain ⟨c, hc, heq⟩ := h [(column, "x")] j column hj
      have hx : cell [(column, "x")] column = "x" := by simp [cell]
      rw [hx] at heq
      have hcc : c = column := by
        by_contra hne
        have hb : (c == column) = false := beq_eq_false_iff_ne.mpr hne
        have : cell [(column, "x")] c = "" := by simp [cell, List.lookup_cons, hb]
        rw [this] at heq
        exact absurd heq (by decide)
      rw [hc, hcc]
    rw [List.prefix_iff_getElem?]
    intro i hi
    exact hget i _ (List.getElem?_eq_getElem hi)
  · rintro ⟨rest, rfl⟩ item j column hj
    have hlt := (List.getElem?_eq_some_iff.mp hj).1
    exact ⟨column, by rw [List.getElem?_append_left hlt, hj], rfl⟩

/-- The header that the items are read by: that of the file, or else the columns of the
first item. -/
def header (file : List (List String)) (acts : List CsvAct) : List String :=
  (file.head? <|> (withColumns none acts).head?.map Prod.fst).getD []

theorem forall₂_rowsOf {h : List String} (ps : List (List String × Fields)) :
    List.Forall₂ (Under h) (rowsOf ps) (ps.map Prod.snd) ↔ ∀ p ∈ ps, Fits h p.1 p.2 := by
  rw [rowsOf, List.forall₂_map_left_iff, List.forall₂_map_right_iff, List.forall₂_same]
  exact forall₂_congr fun p _ => under_writerow

/-- For every file and all calls: the file reads back as the saved items exactly if the
header agrees on each item with the columns that its object had. -/
theorem aligned_iff (file : List (List String)) (acts : List CsvAct) :
    Aligned file acts ↔ ∀ p ∈ withColumns none acts, Fits (header file acts) p.1 p.2 := by
  unfold Aligned header
  rw [file_after, ← withColumns_snd none acts]
  cases file with
  | cons row rows =>
    have hlen : max 1 (row :: rows).length = (row :: rows).length := by simp
    rw [if_neg (List.cons_ne_nil _ _), hlen, List.drop_left]
    exact forall₂_rowsOf _
  | nil =>
    rw [if_pos rfl]
    cases hps : withColumns none acts with
    | nil => simp [rowsOf]
    | cons p ps =>
      show List.Forall₂ (Under p.1) (rowsOf (p :: ps)) _ ↔ _
      exact forall₂_rowsOf (p :: ps)

/-- Two objects, one after the other, with their fields in another order. -/
def swappedFields : List CsvAct :=
  [.saveItems [[("title", "a"), ("url", "x")]], .close, .create, .saveItems [[("url", "y"), ("title", "b")]], .close]

theorem swappedFields_not_aligned : ¬ ∀ file acts, Aligned file acts := by
  intro h
  have hfile : (after [] swappedFields).file = [["title", "url"], ["a", "x"], ["y", "b"]] := rfl
  have hal := h [] swappedFields
  unfold Aligned at hal
  rw [hfile] at hal
  obtain ⟨-, hrest⟩ := List.forall₂_cons.mp hal
  obtain ⟨hrow, -⟩ := List.forall₂_cons.mp hrest
  exact absurd (hrow 0 "title" rfl) (by decide)

end CsvTable

end Netspy
