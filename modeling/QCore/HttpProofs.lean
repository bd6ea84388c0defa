import Mathlib
import QCore.MachineIntProofs
import QCore.FallibleProofs
import QCore.JsonProofs
import QCore.ScanProofs

/-! # Responses of a plain gateway

    A response is read whole and then taken apart: a status line, headers, an empty
    line and a body, which is as long as a header says or comes in chunks.

    A text is kept as its bytes once they are known to be UTF-8.  Every scan below
    is for an ASCII byte, and no byte of a longer character is one. -/

namespace QCoreHttp

open QCoreMachineInt QCoreFallible QCoreJson QCoreScan

/-- A 16-bit unsigned word. -/
abbrev U16 := Fin 65536

instance neZero_u16 : NeZero (65536 : Nat) := ⟨by decide⟩

/-! ## Bytes of a text -/

/-- The end of a line. -/
def crlf : List UInt8 := [0x0d, 0x0a]

/-- The end of the headers. -/
def headersEnd : List UInt8 := [0x0d, 0x0a, 0x0d, 0x0a]

/-- The byte of a space. -/
def space : UInt8 := 0x20

/-- The byte of a colon. -/
def colon : UInt8 := 0x3a

/-- The byte of a semicolon. -/
def semicolon : UInt8 := 0x3b

/-- Bytes that are UTF-8. -/
def isText (bytes : List UInt8) : Bool := (fromUtf8 bytes).isSome

/-- A blank or a tab. -/
def isBlank (b : UInt8) : Bool := b == 0x20 || b == 0x09

/-- A text without the blanks around it. -/
def trimBlanks (text : List UInt8) : List UInt8 :=
  ((text.dropWhile isBlank).reverse.dropWhile isBlank).reverse

/-- A byte in lower case. -/
def lower (b : UInt8) : UInt8 := if 0x41 ≤ b ∧ b ≤ 0x5a then b + 0x20 else b

/-- Bytes that are equal in any case. -/
def eqIgnoreAsciiCase (a b : List UInt8) : Bool := a.map lower == b.map lower

/-- A digit of a chunk's size. -/
def isHexDigit (b : UInt8) : Bool := (hexDigit b).isSome

/-- The size that digits stand for. -/
def hexValue (digits : List UInt8) : Nat :=
  digits.foldl (fun acc b => acc * 16 + (hexDigit b).getD 0) 0

/-- A text up to a byte, all of it when the byte is not there. -/
def upTo (b : UInt8) (text : List UInt8) : List UInt8 := text.takeWhile (fun c => c != b)

/-- A text after a byte, nothing when the byte is not there. -/
def after (b : UInt8) (text : List UInt8) : List UInt8 :=
  (text.dropWhile (fun c => c != b)).drop 1

/-! ## Chunks -/

/-- A chunk and what follows it, or nothing for the chunk of size zero. -/
def nextChunk (data : List UInt8) : Except String (Option (List UInt8 × List UInt8)) := do
  let eol ← okOr (find data crlf) "a chunk size line is not terminated"
  let line := data.take eol
  refuseIf (¬ isText line) "a chunk size is not text"
  let sizeText := trimBlanks (upTo semicolon line)
  refuseIf (sizeText = [] ∨ 8 < sizeText.length ∨ ¬ sizeText.all isHexDigit)
    "a chunk size is not a hexadecimal number"
  let size : U64 ← okOr (tryFrom _ (hexValue sizeText)) "a chunk size is out of range"
  let data := data.drop (eol + 2)
  if size = 0 then return none
  else
    let last ← okOr (checkedAdd size 2) "a chunk size is out of range"
    refuseIf (data.length < last.val ∨ (data.take last.val).drop size.val ≠ crlf)
      "a chunk is truncated"
    return some (data.take size.val, data.drop last.val)

/-- The loop over chunks.  Each takes at least a line, so the fuel outlasts them. -/
def dechunkLoop : Nat → List UInt8 → List UInt8 → Except String (List UInt8)
  | 0, _, _ => .error outOfFuel
  | n + 1, data, out => do
      match ← nextChunk data with
      | none => return out
      | some (chunk, rest) => dechunkLoop n rest (out ++ chunk)

/-- A chunked body put together. -/
def dechunk (data : List UInt8) : Except String (List UInt8) :=
  dechunkLoop (data.length + 1) data []

/-! ## Headers -/

/-- What the headers say of the body. -/
structure Framing where
  length : Option U64 := none
  chunked : Bool := false

/-- The status of a status line. -/
def parseStatus (line : List UInt8) : Except String U16 := do
  let version := upTo space line
  refuseIf (version ≠ asBytes "HTTP/1.1" ∧ version ≠ asBytes "HTTP/1.0")
    "the response has no HTTP status line"
  let code := upTo space (after space line)
  refuseIf (code.length ≠ 3 ∨ ¬ code.all isDigit) "no status code in the response"
  let status : U16 ← okOr (tryFrom _ (decimalValue code)) "no status code in the response"
  refuseIf (status < 200)
    s!"the gateway sent an interim status {status} that this client never asks for"
  return status

/-- What a header line says of how the body is framed. -/
def readHeader (framing : Framing) (line : List UInt8) : Except String Framing := do
  refuseIf (colon ∉ line) "a response header has no name and value"
  let name := upTo colon line
  let value := trimBlanks (after colon line)
  if eqIgnoreAsciiCase name (asBytes "content-length") then do
    refuseIf (value = [] ∨ ¬ value.all isDigit) "the response content length is not a number"
    let n : U64 ← okOr (tryFrom _ (decimalValue value))
      "the response content length is out of range"
    refuseIf (framing.length.any (fun m => m ≠ n))
      "the response carries two different content lengths"
    return { framing with length := some n }
  else if eqIgnoreAsciiCase name (asBytes "transfer-encoding") then do
    refuseIf (¬ eqIgnoreAsciiCase value (asBytes "chunked") ∨ framing.chunked)
      "the response uses a transfer encoding this client does not read"
    return { framing with chunked := true }
  else return framing

/-- The status and the framing of a head. -/
def parseHead (head : List UInt8) : Except String (U16 × Framing) := do
  let lines := pieces head crlf
  let status ← parseStatus (lines.head?.getD [])
  let framing ← lines.tail.foldlM readHeader {}
  return (status, framing)

/-! ## Bodies -/

/-- The body that the bytes after the headers carry. -/
def framedBody (framing : Framing) (body : List UInt8) : Except String (List UInt8) :=
  match framing.chunked, framing.length with
  | true, some _ => .error "the response carries both a content length and a chunked encoding"
  | true, none => dechunk body
  | false, some n => do
      refuseIf (body.length ≠ n.val)
        s!"the response body is {body.length} bytes but its content length says {n}"
      return body
  | false, none => .ok body

/-- The status and the body of a response. -/
def parseResponse (raw : List UInt8) : Except String (U16 × String) := do
  let split ← okOr (find raw headersEnd) "the response has no end of headers"
  let head := raw.take split
  refuseIf (¬ isText head) "the response headers are not UTF-8"
  let (status, framing) ← parseHead head
  let body ← framedBody framing (raw.drop (split + 4))
  let text ← okOr (fromUtf8 body) "the response is not UTF-8"
  return (status, text)

end QCoreHttp
