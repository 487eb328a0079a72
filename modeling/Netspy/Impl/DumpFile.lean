import Netspy.Framework.Machine
import Netspy.Framework.Utf8
import Netspy.Impl.Dump

/-!
# Appends that are cut short

A dump file as its bytes. `_dump_failed` and `_append_requests` write the line
of one record after the other; a crash leaves any part of a line, and later
calls append to what there is. Both readers read the whole file as UTF-8
before they split it, and neither of them catches a `UnicodeDecodeError`:
`_read_lines` catches nothing, `_replay_failed_requests` an `OSError`.

`written` has the records whose lines were completely written, in order; it
only records what happens.
-/

namespace Netspy

structure DumpFile where
  bytes : List UInt8 := []
  written : List JsonDict := []

namespace DumpFile

/-- A line as it is written: `dumps_json(..) + "\n"`. -/
def line (r : JsonDict) : List UInt8 := Utf8.encode (Json.linesOf [r.json])

inductive AppendAct where
  | line (r : JsonDict)
  /-- The first bytes of a line, and then a crash. -/
  | cut (r : JsonDict) (n : Nat)

def step (s : DumpFile) : AppendAct → Option DumpFile
  | .line r => some { bytes := s.bytes ++ line r, written := s.written ++ [r] }
  | .cut r n => if n < (line r).length then some { s with bytes := s.bytes ++ (line r).take n } else none

/-- The appends to a file that there was not. -/
def machine : Machine DumpFile AppendAct where
  start s := s = {}
  step := step

/-- `read_text(encoding="utf-8")`. -/
def readText (bytes : List UInt8) : Except Exn (List Char) :=
  match Utf8.decode bytes with
  | some cs => .ok cs
  | none => .error "UnicodeDecodeError"

/-- `_read_lines` of the file. -/
def readItems (s : DumpFile) : Except Exn (List Json) := (readText s.bytes).map readLines

/-- What `_replay_failed_requests` makes requests of. -/
def readRequests (upper : String → String) (s : DumpFile) : Except Exn (List Json) :=
  (readText s.bytes).map (replayLines upper)

end DumpFile

end Netspy
