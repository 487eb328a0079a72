import Netspy.Framework.Json.Kept
import Netspy.Impl.DumpFile
import Netspy.Proof.Dump

/-!
# What a torn append costs

A line that is appended to a torn one goes on with it, and a part of a
character makes the whole file unreadable. In the runs in which neither
happens, every record whose line was completely written is read, in order
(`read_within`).
-/

namespace Netspy

/-- A record of `_dump_failed`, as a dict. -/
def FailedWrite.dict (w : FailedWrite) (data : JsonDict) : JsonDict :=
  ⟨[("table", .str w.table), ("data", data.json)] ++ entry "update_keys" w.updateKeys ++
    entry "pipelines" w.pipelines, w.record_wf data⟩

namespace DumpFile

variable {s t : DumpFile}

/-! ## The calls -/

/-- The lines of a call that is not cut short. -/
theorem exec_lines (rs : List JsonDict) : machine.exec s (rs.map .line) =
    some { bytes := s.bytes ++ Utf8.encode (Json.linesOf (rs.map JsonDict.json)), written := s.written ++ rs } := by
  induction rs generalizing s with
  | nil => simp [Json.linesOf]
  | cons r rs ih =>
    rw [List.map_cons, Machine.exec_cons]
    show machine.exec { bytes := s.bytes ++ line r, written := s.written ++ [r] } (rs.map .line) = _
    rw [ih, line, List.map_cons, ← List.singleton_append (l := rs.map JsonDict.json), Json.linesOf_append,
      Utf8.encode_append]
    simp

theorem linesOf_cons (v : Json) (vs : List Json) : Json.linesOf (v :: vs) = Json.linesOf [v] ++ Json.linesOf vs :=
  Json.linesOf_append [v] vs

/-- A call that is cut short after `n` bytes is some whole lines and a part of
the next one. -/
theorem exec_cut (rs : List JsonDict) {n : Nat} (h : n < (Utf8.encode (Json.linesOf (rs.map JsonDict.json))).length) :
    ∃ k r m, machine.exec s ((rs.take k).map AppendAct.line ++ [AppendAct.cut r m]) =
      some { bytes := s.bytes ++ (Utf8.encode (Json.linesOf (rs.map JsonDict.json))).take n
             written := s.written ++ rs.take k } := by
  induction rs generalizing s n with
  | nil => exact absurd h (Nat.not_lt_zero n)
  | cons r rs ih =>
    have hline : Utf8.encode (Json.linesOf [r.json]) = line r := rfl
    rw [List.map_cons, linesOf_cons, Utf8.encode_append, hline] at h ⊢
    by_cases hn : n < (line r).length
    · refine ⟨0, r, n, ?_⟩
      rw [List.take_append_of_le_length (Nat.le_of_lt hn)]
      simp [Machine.exec_cons, machine, step, hn]
    · have hlen : (line r).length ≤ n := Nat.le_of_not_lt hn
      have hrest : n - (line r).length < (Utf8.encode (Json.linesOf (rs.map JsonDict.json))).length := by
        rw [List.length_append] at h
        omega
      obtain ⟨k, r', m, hk⟩ := ih (s := { bytes := s.bytes ++ line r, written := s.written ++ [r] }) hrest
      refine ⟨k + 1, r', m, ?_⟩
      rw [List.take_succ_cons, List.map_cons, List.cons_append, Machine.exec_cons]
      show machine.exec { bytes := s.bytes ++ line r, written := s.written ++ [r] } _ = _
      have htake : (line r ++ Utf8.encode (Json.linesOf (rs.map JsonDict.json))).take n =
          line r ++ (Utf8.encode (Json.linesOf (rs.map JsonDict.json))).take (n - (line r).length) := by
        rw [List.take_append, List.take_of_length_le hlen]
      rw [hk, htake]
      simp

/-! ## What is read -/

/-- Each reader, by which values it takes. -/
def read (accept : Json → Bool) (s : DumpFile) : Except Exn (List Json) :=
  (readText s.bytes).map (Json.readLines accept)

/-- The reader does not raise, and finds every record that was completely
written, in order. -/
def ReadBy (accept : Json → Bool) (s : DumpFile) : Prop :=
  ∃ rs, read accept s = .ok rs ∧ (s.written.map JsonDict.json).Sublist rs

/-- The file decodes, and what is appended to it begins a line. -/
def atLineStart (s : DumpFile) : Bool :=
  match Utf8.decode s.bytes with
  | some cs => Lines.endsLine cs
  | none => false

/-- A whole line is one for the readers, and begins one; a part of a line ends
between two characters. -/
def Sound (accept : Json → Bool) (s : DumpFile) : AppendAct → Prop
  | .line r => r.json.oneLine = true ∧ accept r.json = true ∧ s.atLineStart = true
  | .cut r n => (Utf8.decode ((line r).take n)).isSome = true

instance (accept : Json → Bool) (s : DumpFile) : ∀ a, Decidable (Sound accept s a)
  | .line r => inferInstanceAs (Decidable (r.json.oneLine = true ∧ accept r.json = true ∧ s.atLineStart = true))
  | .cut r n => inferInstanceAs (Decidable ((Utf8.decode ((line r).take n)).isSome = true))

/-- The text is what is read of it and what may be torn. -/
structure Settled (accept : Json → Bool) (s : DumpFile) (done tail : List Char) : Prop where
  bytes : s.bytes = Utf8.encode (done ++ tail)
  noReturn : '\r' ∉ done ++ tail
  endsLine : Lines.endsLine done = true
  written : (s.written.map JsonDict.json).Sublist (Json.readLines accept done)

theorem Settled.readBy {accept : Json → Bool} {done tail : List Char} (h : Settled accept s done tail) :
    ReadBy accept s := by
  have hr := h.noReturn
  rw [List.mem_append, not_or] at hr
  refine ⟨Json.readLines accept (done ++ tail), ?_, ?_⟩
  · rw [read, readText, h.bytes, Utf8.decode_encode]
    rfl
  · rw [Json.readLines_append hr.1 hr.2 h.endsLine]
    exact h.written.trans (List.sublist_append_left _ _)

theorem return_not_mem_line (r : JsonDict) : '\r' ∉ Json.linesOf [r.json] := by
  intro hr
  rw [Json.linesOf, List.flatMap_singleton] at hr
  rcases List.mem_append.mp hr with hc | hc
  · exact absurd (Json.mem_render r.json r.wf hc).1 (by decide)
  · exact absurd (List.mem_singleton.mp hc) (by decide)

theorem endsLine_line (cs : List Char) (v : Json) : Lines.endsLine (cs ++ Json.linesOf [v]) = true := by
  rw [Json.linesOf, List.flatMap_singleton, ← List.append_assoc, Lines.endsLine, List.getLast?_concat]
  decide

theorem settled_step {accept : Json → Bool} {a : AppendAct} (h : ∃ done tail, Settled accept s done tail)
    (hg : Sound accept s a) (ht : step s a = some t) : ∃ done tail, Settled accept t done tail := by
  obtain ⟨done, tail, hs⟩ := h
  have hr := hs.noReturn
  cases a with
  | line r =>
    cases ht
    obtain ⟨hone, hacc, hstart⟩ := hg
    have hends : Lines.endsLine (done ++ tail) = true := by
      unfold atLineStart at hstart
      rwa [hs.bytes, Utf8.decode_encode] at hstart
    have hnew : '\r' ∉ done ++ tail ++ Json.linesOf [r.json] := fun hm =>
      (List.mem_append.mp hm).elim hr (return_not_mem_line r)
    refine ⟨done ++ tail ++ Json.linesOf [r.json], [], ?_, ?_, endsLine_line _ _, ?_⟩
    · show s.bytes ++ line r = _
      rw [List.append_nil, Utf8.encode_append, ← hs.bytes]
      rfl
    · rwa [List.append_nil]
    · -- what was read before, and this record
      have hread : Json.readLines accept (Json.linesOf [r.json]) = [r.json] := by
        refine (Json.readLines_iff (List.forall_mem_singleton.mpr r.wf)).mpr ?_
        exact List.forall_mem_singleton.mpr ⟨Json.oneLine_iff.mp hone, hacc⟩
      obtain ⟨rs, hrs, hsub⟩ := hs.readBy
      have hrs : Json.readLines accept (done ++ tail) = rs := by
        rw [read, readText, hs.bytes, Utf8.decode_encode] at hrs
        exact Except.ok.inj hrs
      rw [Json.readLines_append hr (return_not_mem_line r) hends, hread, hrs]
      show ((s.written ++ [r]).map JsonDict.json).Sublist _
      rw [List.map_append]
      exact hsub.append (List.Sublist.refl _)
  | cut r n =>
    simp only [step, Option.ite_none_right_eq_some, Option.some.injEq] at ht
    obtain ⟨-, rfl⟩ := ht
    obtain ⟨p, hp⟩ := Option.isSome_iff_exists.mp hg
    have hbytes : (line r).take n = Utf8.encode p := Utf8.decode_eq_some.mp hp
    obtain ⟨q, hq, -⟩ : ∃ q, Json.linesOf [r.json] = p ++ q ∧ (line r).drop n = Utf8.encode q :=
      Utf8.encode_append_eq (hbytes ▸ List.take_append_drop n (line r))
    have hpr : '\r' ∉ p := fun hm => return_not_mem_line r (hq ▸ List.mem_append_left q hm)
    refine ⟨done, tail ++ p, ?_, ?_, hs.endsLine, hs.written⟩
    · show s.bytes ++ (line r).take n = _
      rw [hbytes, hs.bytes, ← Utf8.encode_append, List.append_assoc]
    · rw [← List.append_assoc]
      exact fun hm => (List.mem_append.mp hm).elim hr hpr

theorem settled_within {accept : Json → Bool} (h : machine.Within (Sound accept) s) :
    ∃ done tail, Settled accept s done tail := by
  refine h.induct (I := fun s => ∃ done tail, Settled accept s done tail) (fun s h0 => ?_)
    fun s a t hi hg ht => settled_step hi hg ht
  obtain rfl : s = {} := h0
  exact ⟨[], [], rfl, List.not_mem_nil, rfl, List.Sublist.refl _⟩

/-- After a part of a line the file is read only if it decodes. -/
theorem sound_of_readBy {accept : Json → Bool} {r : JsonDict} {n : Nat}
    (hs : ∃ done tail, Settled accept s done tail) (ht : step s (.cut r n) = some t) (h : ReadBy accept t) :
    Sound accept s (.cut r n) := by
  obtain ⟨done, tail, hs⟩ := hs
  simp only [step, Option.ite_none_right_eq_some, Option.some.injEq] at ht
  obtain ⟨-, rfl⟩ := ht
  obtain ⟨rs, hrs, -⟩ := h
  cases hd : Utf8.decode (s.bytes ++ (line r).take n) with
  | none =>
    simp only [read, readText, hd] at hrs
    cases hrs
  | some cs =>
    have hbytes := Utf8.decode_eq_some.mp hd
    rw [hs.bytes] at hbytes
    obtain ⟨p, -, hp⟩ := Utf8.encode_append_eq hbytes
    exact Option.isSome_iff_exists.mpr ⟨p, Utf8.decode_eq_some.mpr hp⟩

/-- In the runs in which a whole line begins a line and is one, and no append is
cut inside a character, both readers return, with every record that was
completely written, in order; and a cut from there keeps this only if it is not
inside a character. -/
theorem read_within (upper : String → String) :
    (∀ s, machine.Within (Sound fun _ => true) s →
      ∃ rs, readItems s = .ok rs ∧ (s.written.map JsonDict.json).Sublist rs) ∧
    (∀ s, machine.Within (Sound (accepted upper)) s →
      ∃ rs, readRequests upper s = .ok rs ∧ (s.written.map JsonDict.json).Sublist rs) ∧
    ∀ s t r n, machine.Within (Sound fun _ => true) s → machine.step s (.cut r n) = some t →
      ((∃ rs, readItems t = .ok rs ∧ (t.written.map JsonDict.json).Sublist rs) ↔
        (Utf8.decode ((line r).take n)).isSome = true) := by
  have hread {accept : Json → Bool} {s : DumpFile} (h : machine.Within (Sound accept) s) : ReadBy accept s := by
    obtain ⟨done, tail, hs⟩ := settled_within h
    exact hs.readBy
  refine ⟨fun s h => hread h, fun s h => hread h, fun s t r n h ht => ⟨fun hr => ?_, fun hc => ?_⟩⟩
  · exact sound_of_readBy (settled_within h) ht hr
  · exact hread (h.step (a := .cut r n) hc ht)

theorem wf_empty : (Json.obj []).WF := ⟨List.nodup_nil, trivial⟩

def emptyRecord : JsonDict := FailedWrite.dict ⟨"t", [], none, none⟩ ⟨[], wf_empty⟩

def afterAppends (as : List AppendAct) : DumpFile := (machine.exec {} as).getD {}

theorem exec_afterAppends (as : List AppendAct) (h : (machine.exec {} as).isSome = true) :
    machine.exec {} as = some (afterAppends as) :=
  Machine.exec_getD h _

theorem read_within_tornLast : ∃ rs, readItems (afterAppends [.line emptyRecord, .cut emptyRecord 5]) = .ok rs ∧
    ((afterAppends [.line emptyRecord, .cut emptyRecord 5]).written.map JsonDict.json).Sublist rs :=
  (read_within id).1 _ (.exec (.start rfl) (by decide +kernel) (exec_afterAppends _ (by decide +kernel)))

/-- A record is appended to a torn line. -/
theorem glued_not_read : ¬ ∀ s, machine.Reachable s →
    ∃ rs, readItems s = .ok rs ∧ (s.written.map JsonDict.json).Sublist rs := by
  intro h
  have hreach : machine.Reachable (afterAppends [.cut emptyRecord 5, .line emptyRecord]) :=
    .exec (.start rfl) (exec_afterAppends _ (by decide +kernel))
  obtain ⟨rs, hrs, hsub⟩ := h _ hreach
  have hnone : (readItems (afterAppends [.cut emptyRecord 5, .line emptyRecord])).toOption.map List.length = some 0 := by
    decide +kernel
  have hone : (afterAppends [.cut emptyRecord 5, .line emptyRecord]).written.length = 1 := by decide +kernel
  have hlen := hsub.length_le
  rw [List.length_map, hone] at hlen
  rw [hrs] at hnone
  have hzero : rs.length = 0 := Option.some.inj hnone
  omega

end DumpFile

end Netspy
