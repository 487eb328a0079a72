import Netspy.Impl.Dump

/-!
# What the dump files decode to

Both files are read back as they were written exactly if no string in them has
one of the characters U+0085, U+2028 and U+2029, which `json.dumps` leaves as
they are and `splitlines` takes for the end of a line.
-/

namespace Netspy

theorem entry_wf (key : String) (xs : Option (List String)) : Json.WFMembers (FailedWrite.entry key xs) := by
  have hstr : ∀ ys : List String, Json.WFElems (ys.map .str) := by
    intro ys
    induction ys with
    | nil => trivial
    | cons y ys ih => exact ⟨trivial, ih⟩
  match xs with
  | none | some [] => trivial
  | some (x :: xs) => exact ⟨hstr (x :: xs), trivial⟩

theorem wfMembers_append {xs ys : List (String × Json)} (hx : Json.WFMembers xs) (hy : Json.WFMembers ys) :
    Json.WFMembers (xs ++ ys) := by
  induction xs with
  | nil => exact hy
  | cons x xs ih => exact ⟨hx.1, ih hx.2⟩

/-- The record of a row is a JSON value again. -/
theorem FailedWrite.record_wf (w : FailedWrite) (data : JsonDict) : (w.record data).WF := by
  refine ⟨?_, wfMembers_append (wfMembers_append ⟨trivial, data.wf, trivial⟩ (entry_wf _ _)) (entry_wf _ _)⟩
  have hkeys : ∀ key xs, (entry key xs).map Prod.fst = [] ∨ (entry key xs).map Prod.fst = [key] := by
    intro key xs
    match xs with
    | none | some [] => exact .inl rfl
    | some (x :: xs) => exact .inr rfl
  rw [List.map_append, List.map_append]
  rcases hkeys "update_keys" w.updateKeys with h1 | h1 <;> rcases hkeys "pipelines" w.pipelines with h2 | h2 <;>
    rw [h1, h2] <;> simp

/-- The strings of a record have none of the three characters. -/
def OneLine (v : Json) : Prop := ∀ c ∈ v.chars, Json.isSeparator c = false

/-- Both files decode to what was dumped exactly if every record is on one
line, and `from_dict` takes each dumped request. -/
theorem dumps_decode_iff (upper : String → String) :
    (∀ ws : List FailedWrite,
      readLines (ws.foldl dumpFailed []) = ws.flatMap FailedWrite.records ↔
        ∀ v ∈ ws.flatMap FailedWrite.records, OneLine v) ∧
    (∀ rss : List (List JsonDict),
      replayLines upper (rss.foldl appendRequests []) = rss.flatten.map JsonDict.json ↔
        ∀ r ∈ rss.flatten, OneLine r.json ∧ accepted upper r.json = true) := by
  constructor
  · intro ws
    have hwf : ∀ v ∈ ws.flatMap FailedWrite.records, v.WF := by
      intro v hv
      obtain ⟨w, -, hv⟩ := List.mem_flatMap.mp hv
      obtain ⟨d, -, rfl⟩ := List.mem_map.mp hv
      exact w.record_wf d
    rw [show ws.foldl dumpFailed [] = _ from Json.foldl_linesOf FailedWrite.records ws [], List.nil_append, readLines,
      Json.readLines_iff hwf]
    exact forall₂_congr fun v _ => and_iff_left rfl
  · intro rss
    have hfile : rss.foldl appendRequests [] = Json.linesOf (rss.flatten.map JsonDict.json) := by
      refine (Json.foldl_linesOf (List.map JsonDict.json) rss []).trans ?_
      rw [List.nil_append, List.map_flatten, List.flatMap_def]
    have hwf : ∀ v ∈ rss.flatten.map JsonDict.json, v.WF := by
      intro v hv
      obtain ⟨r, -, rfl⟩ := List.mem_map.mp hv
      exact r.wf
    rw [hfile, replayLines, Json.readLines_iff hwf, List.forall_mem_map]
    rfl

/-- An item whose text holds a line separator. -/
def separated : FailedWrite :=
  { table := "items", datas := [⟨[("text", .str "a\u2028b")], by simp [Json.WF, Json.WFMembers]⟩] }

theorem separated_not_decoded : readLines (dumpFailed [] separated) ≠ separated.records := by
  have hmem : (separated.record ⟨[("text", .str "a\u2028b")], by simp [Json.WF, Json.WFMembers]⟩) ∈ separated.records := by
    exact List.mem_singleton_self _
  have hwf : ∀ v ∈ separated.records, v.WF := by
    intro v hv
    obtain ⟨d, -, rfl⟩ := List.mem_map.mp hv
    exact separated.record_wf d
  intro he
  have hone := ((Json.readLines_iff hwf).mp he _ hmem).1
  have hc : '\u2028' ∈ (separated.record ⟨[("text", .str "a\u2028b")], by simp [Json.WF, Json.WFMembers]⟩).chars := by
    simp [FailedWrite.record, FailedWrite.entry, separated, JsonDict.json, Json.chars, Json.charsMembers]
  exact absurd (hone _ hc) (by decide)

end Netspy
