import Mathlib.Data.List.Basic

/-!
# How much of a body is read

`read_capped` of `_common.py`, with the two loops that bring it the chunks of a body:
`HttpxDownloader.download` hands it those of `iter_bytes` as they come, and `_stream` of
`_async_httpx.py` those that it has collected from `aiter_bytes`. A server may send
without end, so a body is the chunks that have come so far; a loop that needs more then
waits. `int` of a text that is not a number raises, and has no value here.
-/

namespace Netspy

structure Body where
  chunks : List (List UInt8)
  /-- Whether no more will come. -/
  ended : Bool := true
  deriving Repr, DecidableEq

inductive ReadOut where
  | content (bytes : List UInt8)
  /-- `ResponseTooLargeError` -/
  | tooLarge
  | waiting
  deriving Repr, DecidableEq

namespace ReadCapped

variable (int : String → Option Int) (limit : Int)

/-- The test of `Content-Length`. -/
def declaredOver : Option String → Bool
  | none => false
  | some text =>
    if text = "" then false
    else
      match int text with
      | some size => limit < size
      | none => false

/-- `b"".join(chunks)`, and how many chunks were taken. -/
def join (body : Body) : ReadOut × Nat :=
  (if body.ended then .content body.chunks.flatten else .waiting, body.chunks.length)

/-- The loop over the chunks. -/
def loop (buf : List UInt8) (ended : Bool) : List (List UInt8) → ReadOut × Nat
  | [] => (if ended then .content buf else .waiting, 0)
  | chunk :: chunks =>
    let buf := buf ++ chunk
    if limit < buf.length then (.tooLarge, 1)
    else
      let (out, taken) := loop buf ended chunks
      (out, taken + 1)

/-- `read_capped`, and how many chunks it took. -/
def readCapped (body : Body) (declared : Option String) : ReadOut × Nat :=
  if limit ≤ 0 then join body
  else if declaredOver int limit declared then (.tooLarge, 0)
  else loop limit [] body.ended body.chunks

/-- The loop of `_stream`: what it has collected, and whether it was left. -/
def collect (total : Nat) (ended : Bool) : List (List UInt8) → List (List UInt8) × Bool
  | [] => ([], ended)
  | chunk :: chunks =>
    let total := total + chunk.length
    if 0 < limit ∧ limit < total then ([chunk], true)
    else
      let (collected, left) := collect total ended chunks
      (chunk :: collected, left)

/-- `_stream` -/
def stream (body : Body) (declared : Option String) : ReadOut × Nat :=
  let (chunks, left) := collect limit 0 body.ended body.chunks
  (if left then (readCapped int limit ⟨chunks, true⟩ declared).1 else .waiting, chunks.length)

/-- `HttpxDownloader.download` -/
def download (body : Body) (declared : Option String) : ReadOut × Nat :=
  readCapped int limit body declared

end ReadCapped

end Netspy
