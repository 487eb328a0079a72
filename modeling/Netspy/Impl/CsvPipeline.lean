import Mathlib.Data.List.Forall2

/-!
# `pipelines/csv.py`

The file of one table and the `CsvPipeline` objects that append to it, one after the
other. What `csv` writes and reads are rows of strings, so the file is the list of its
rows; a row is never empty text, so the file is empty exactly if it has no rows. Every
call flushes what it wrote. The warning about new fields is left out.
-/

namespace Netspy

/-- An item with string values, in the order of its fields. -/
abbrev Fields := List (String × String)

inductive CsvAct where
  /-- A new `CsvPipeline` on the directory. -/
  | create
  | saveItems (items : List Fields)
  | close

/-- The file, and the `fieldnames` of the object's writer once it has one. -/
structure CsvTable where
  file : List (List String) := []
  fieldnames : Option (List String) := none
  deriving Repr, DecidableEq

namespace CsvTable

/-- `item.get(column, "")`. -/
def cell (item : Fields) (column : String) : String := (item.lookup column).getD ""

/-- What `writerow` writes. -/
def writerow (columns : List String) (item : Fields) : List String := columns.map (cell item)

/-- `_writer`. -/
def writer (t : CsvTable) (sample : Fields) : List String × CsvTable :=
  match t.fieldnames with
  | some columns => (columns, t)
  | none =>
    let columns := sample.map Prod.fst
    (columns, {
      file := if t.file.isEmpty then [columns] else t.file
      fieldnames := some columns })

def saveItems (t : CsvTable) (items : List Fields) : CsvTable :=
  match items with
  | [] => t
  | sample :: _ =>
    let (columns, t) := t.writer sample
    { t with file := t.file ++ items.map (writerow columns) }

def step (t : CsvTable) : CsvAct → CsvTable
  | .create | .close => { t with fieldnames := none }
  | .saveItems items => t.saveItems items

/-- The table after some calls, for a directory whose file has these rows. -/
def after (file : List (List String)) (acts : List CsvAct) : CsvTable := acts.foldl step { file }

end CsvTable

end Netspy
