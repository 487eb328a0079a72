import Mathlib.Logic.Function.Basic
import Netspy.Framework.Machine
import Netspy.Impl.Retry

/-!
# `retry_items` while a spider dumps

The steps of one run of `retry_items` on `FAILED_ITEM_PATH`, with the calls of
`_dump_failed` by the threads of a spider that runs at the same time. A call of
`_dump_failed` opens the file, and what it writes comes to the end of it in
parts, between which other calls may write; the file that it has open is at the
path until `retry_items` unlinks or replaces it.

The text of the file is in pieces: the lines of records that were written in one
piece, and any other text. `appended` has the records that were completely
written, `records` what `_read_lines` returned and `accepted` the rows of the
groups that all pipelines accepted; these only record what happens.
-/

namespace Netspy

/-- What is in the file: the whole line of a record, or any other text. -/
inductive Piece where
  | line (v : Json)
  | text (cs : List Char)

namespace Piece

def chars : Piece → List Char
  | .line v => Json.render v ++ ['\n']
  | .text cs => cs

def record : Piece → Option Json
  | .line v => some v
  | .text _ => none

end Piece

/-- A call of `_dump_failed` that is under way: the records whose lines are not
completely written, and what is written of the first of these. -/
structure DumpCall where
  left : List Json
  written : List Char := []
  /-- The file that it has open is the one at the path. -/
  attached : Bool := true
  /-- Something else stands behind what is written of the line. -/
  torn : Bool := false

inductive RetryPhase where
  | idle
  /-- In the loop over the groups. -/
  | replaying (groups : List (ReplayKey × List (ReplayKey × Json))) (replay : Replay)
  /-- The pipelines are closed. -/
  | closed (replay : Replay)
  /-- The `.part` file is written. -/
  | staged (replay : Replay)
  | over

structure RetryRun where
  /-- `none` if there is no file. -/
  file : Option (List Piece) := none
  /-- The calls of `_dump_failed`. -/
  dumps : Nat → Option DumpCall := fun _ => none
  /-- The call whose unfinished line is the end of the file. -/
  last : Option Nat := none
  phase : RetryPhase := .idle
  records : List Json := []
  accepted : List Json := []
  appended : List Json := []

inductive RetryAct where
  /-- `_dump_failed` opens the file. -/
  | openDump (i : Nat) (w : FailedWrite)
  /-- It writes up to so many characters of the line. -/
  | part (i : Nat) (written : Nat)
  | finish (i : Nat)
  | closeDump (i : Nat)
  /-- It raises, or the spider is killed. -/
  | abort (i : Nat)
  | read
  | group (answers : Answers)
  | close
  | stage
  | replace
  | unlink
  /-- `retry_items` is killed, or a step of it raises. -/
  | crash

namespace RetryRun

/-- The records whose lines are in the file. -/
def lines (s : RetryRun) : List Json := (s.file.getD []).filterMap Piece.record

/-- What reading the file gives. -/
def text (s : RetryRun) : List Char :=
  (s.file.getD []).flatMap Piece.chars ++
    match s.last.bind s.dumps with
    | some d => d.written
    | none => []

def setDump (s : RetryRun) (i : Nat) (d : Option DumpCall) : RetryRun :=
  { s with dumps := Function.update s.dumps i d }

/-- What the call has written is there to stay. -/
def settle (s : RetryRun) (d : DumpCall) (p : Piece) : RetryRun :=
  { s with file := if d.attached then some (s.file.getD [] ++ [p]) else s.file }

/-- The call `i` is about to write behind the unfinished line of another one. -/
def cutOff (s : RetryRun) (i : Nat) : RetryRun :=
  match s.last with
  | none => s
  | some j =>
    if j = i then s
    else
      match s.dumps j with
      | none => s
      | some d => { (s.settle d (.text d.written)).setDump j (some { d with torn := true }) with last := none }

/-- The file at the path is another one now, or none. -/
def swap (s : RetryRun) (file : Option (List Piece)) : RetryRun :=
  { s with
    file
    dumps := fun i => (s.dumps i).map fun d => { d with attached := false }
    last := none
    phase := .over }

/-- All pipelines accept the group: `done` of the loop. -/
def groupAccepts (answers : Answers) (st : Setting) (k : ReplayKey) (datas : List PyVal) : Bool :=
  let op := replayOperation st k
  match answers.load op.pipelines with
  | .error _ => false
  | .ok () => (replayAll answers op datas 0 op.pipelines).2

variable (st : Setting)

def step (s : RetryRun) : RetryAct → Option RetryRun
  | .openDump i w =>
    match s.dumps i with
    | none => some { s.setDump i (some { left := w.records }) with file := some (s.file.getD []) }
    | some _ => none
  | .part i written =>
    match s.dumps i with
    | some ⟨v :: left, before, attached, torn⟩ =>
      if before.length < written ∧ written ≤ (Json.render v).length then
        let chars := (Json.render v).take written
        let d : DumpCall := ⟨v :: left, chars, attached, torn⟩
        if !attached then some (s.setDump i (some d))
        else if torn then some (((s.cutOff i).settle d (.text (chars.drop before.length))).setDump i (some d))
        else some { (s.cutOff i).setDump i (some d) with last := some i }
      else none
    | _ => none
  | .finish i =>
    match s.dumps i with
    | some ⟨v :: left, written, attached, torn⟩ =>
      let t := if attached then { s.cutOff i with last := none } else s
      let p := if torn then .text ((Json.render v).drop written.length ++ ['\n']) else .line v
      some { (t.settle ⟨v :: left, written, attached, torn⟩ p).setDump i (some ⟨left, [], attached, false⟩) with
        appended := s.appended ++ [v] }
    | _ => none
  | .closeDump i =>
    match s.dumps i with
    | some ⟨[], _, _, _⟩ => some (s.setDump i none)
    | _ => none
  | .abort i =>
    match s.dumps i with
    | some d =>
      let t := if s.last = some i then { s.settle d (.text d.written) with last := none } else s
      some (t.setDump i none)
    | none => none
  | .read =>
    match s.phase with
    | .idle =>
      let records := readLines s.text
      if records.isEmpty then some { s with phase := .over }
      else
        match groupRecords records with
        | .error _ => some { s with phase := .over }
        | .ok groups => some { s with records, phase := .replaying groups.entries {} }
    | _ => none
  | .group answers =>
    match s.phase with
    | .replaying ((k, rows) :: rest) replay =>
      match (rows.map Prod.snd).mapM dataOf with
      | .error _ => some { s with phase := .over }
      | .ok datas =>
        some { s with
          phase := .replaying rest (replayGroup answers st k (rows.map Prod.snd) datas replay)
          accepted := if groupAccepts answers st k datas then s.accepted ++ rows.map Prod.snd else s.accepted }
    | _ => none
  | .close =>
    match s.phase with
    | .replaying [] replay => some { s with phase := .closed replay }
    | _ => none
  | .stage =>
    match s.phase with
    | .closed replay => if replay.remaining.isEmpty then none else some { s with phase := .staged replay }
    | _ => none
  | .replace =>
    match s.phase with
    | .staged replay => some (s.swap (some (replay.remaining.map .line)))
    | _ => none
  | .unlink =>
    match s.phase with
    | .closed replay => if replay.remaining.isEmpty then some (s.swap none) else none
    | _ => none
  | .crash => some { s with phase := .over }

/-- The runs from any content of the file. -/
def machine : Machine RetryRun RetryAct where
  start s := s.dumps = (fun _ => none) ∧ s.last = none ∧ s.phase = .idle ∧ s.records = [] ∧ s.accepted = [] ∧
    s.appended = s.lines
  step := step st

end RetryRun

end Netspy
