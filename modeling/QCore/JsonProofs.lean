import Mathlib.Data.Finset.Insert
import QCore.MachineIntProofs

/-! # The wire's JSON: values, writer and parser

    The gateway wire and the saved session are both this JSON.  The writer
    (`Json.render`) and the parser (`parse`) are independent pieces of code; the
    parser is a hand-written recursive descent over raw bytes.

    The parser's position is kept as the bytes still to be read, and its depth
    counter as an argument, since it only ever rises on the way into a nested
    value and falls on the way out.  The loops carry a fuel, so that the
    definitions are structural; a byte can take two turns (an array loop and the
    value in it), so twice the bytes to read and one more is enough, and that it
    is never the fuel which ends a parse is `parse_reads` in the grammar file. -/

namespace QCoreJson

open QCoreMachineInt

/-- A wire value.  A number is an unsigned 64-bit integer and nothing else. -/
inductive Json where
  | null
  | bool (b : Bool)
  | int (n : U64)
  | str (s : String)
  | array (items : List Json)
  | object (fields : List (String × Json))

/-! ## Text as bytes -/

/-- The UTF-8 bytes of a text. -/
def asBytes (s : String) : List UInt8 := s.toList.flatMap String.utf8EncodeChar

/-- A run of bytes as text, when it is UTF-8. -/
def fromUtf8 (bytes : List UInt8) : Option String :=
  String.fromUTF8? bytes.toByteArray

/-! ## The writer -/

/-- Four lowercase hexadecimal digits. -/
def hex04 (n : Nat) : String :=
  String.ofList [(n / 4096 % 16).digitChar, (n / 256 % 16).digitChar,
    (n / 16 % 16).digitChar, (n % 16).digitChar]

/-- One character of a JSON string, escaped where the writer escapes it. -/
def escapeChar (c : Char) : String :=
  if c = '"' then "\\\""
  else if c = '\\' then "\\\\"
  else if c = '\n' then "\\n"
  else if c = '\r' then "\\r"
  else if c = '\t' then "\\t"
  else if c.toNat < 32 then "\\u" ++ hex04 c.toNat
  else String.singleton c

/-- The escaped characters of a string, one after the other. -/
def escapeChars : List Char → String
  | [] => ""
  | c :: cs => escapeChar c ++ escapeChars cs

/-- A string between its quotes. -/
def writeString (s : String) : String := "\"" ++ escapeChars s.toList ++ "\""

mutual

/-- Write a value with no spaces. -/
def Json.write : Json → String
  | .null => "null"
  | .bool true => "true"
  | .bool false => "false"
  | .int n => toString n.val
  | .str s => writeString s
  | .array items => "[" ++ Json.writeItems items ++ "]"
  | .object fields => "\x7b" ++ Json.writeFields fields ++ "\x7d"

/-- The items of an array, with a comma before every item but the first. -/
def Json.writeItems : List Json → String
  | [] => ""
  | [v] => v.write
  | v :: w :: rest => v.write ++ "," ++ Json.writeItems (w :: rest)

/-- The fields of an object, with a comma before every field but the first. -/
def Json.writeFields : List (String × Json) → String
  | [] => ""
  | [(k, v)] => writeString k ++ ":" ++ v.write
  | (k, v) :: w :: rest =>
      writeString k ++ ":" ++ v.write ++ "," ++ Json.writeFields (w :: rest)

end

/-- The text of a value. -/
def Json.render (v : Json) : String := v.write

/-! ## Reading a value -/

namespace Json

/-- The last field of that name, as the source searches from the back. -/
def get (v : Json) (key : String) : Option Json :=
  match v with
  | .object fields => (fields.reverse.find? (fun f => f.1 = key)).map Prod.snd
  | _ => none

/-- The string that a value is. -/
def asStr : Json → Option String
  | .str s => some s
  | _ => none

/-- The number that it is. -/
def asU64 : Json → Option U64
  | .int n => some n
  | _ => none

/-- The truth value that it is. -/
def asBool : Json → Option Bool
  | .bool b => some b
  | _ => none

/-- The items that it has. -/
def asArray : Json → Option (List Json)
  | .array items => some items
  | _ => none

end Json

/-! ## The parser -/

/-- A parse step: what was read and the bytes left, or the error. -/
abbrev Parsed (α : Type) := Except String (α × List UInt8)

/-- The error of a loop whose fuel ran out; no input reaches it. -/
def outOfFuel : String := "out of fuel"

/-- How deep values may be nested. -/
def maxDepth : Nat := 128

/-- White space between values. -/
def isSpace (c : UInt8) : Bool := c == 0x20 || c == 0x09 || c == 0x0a || c == 0x0d

/-- What follows it. -/
def skipWs (rest : List UInt8) : List UInt8 := rest.dropWhile isSpace

/-- A digit of a number. -/
def isDigit (c : UInt8) : Bool := 0x30 ≤ c && c ≤ 0x39

/-- A byte a string carries as itself: not a quote, a backslash or a control. -/
def isPlain (c : UInt8) : Bool := c != 0x22 && c != 0x5c && 0x20 ≤ c

/-- The value of a hexadecimal digit in either case. -/
def hexDigit (c : UInt8) : Option Nat :=
  if 0x30 ≤ c ∧ c ≤ 0x39 then some (c.toNat - 0x30)
  else if 0x61 ≤ c ∧ c ≤ 0x66 then some (c.toNat - 0x61 + 10)
  else if 0x41 ≤ c ∧ c ≤ 0x46 then some (c.toNat - 0x41 + 10)
  else none

/-- Read that many hexadecimal digits onto an accumulated code. -/
def hexDigits : Nat → Nat → List UInt8 → Parsed Nat
  | 0, code, rest => .ok (code, rest)
  | _ + 1, _, [] => .error "bad unicode escape"
  | n + 1, code, c :: rest =>
      match hexDigit c with
      | some digit => hexDigits n (code * 16 + digit) rest
      | none => .error "bad unicode escape"

/-- Four hex digits. -/
def hex4 (rest : List UInt8) : Parsed Nat := hexDigits 4 0 rest

/-- A code point as a character, when it is a Unicode scalar value. -/
def charFromU32 (code : Nat) : Option Char :=
  if code.isValidChar then some (Char.ofNat code) else none

/-- A code point as a character, with the source's error. -/
def codePoint (code : Nat) (rest : List UInt8) : Parsed Char :=
  match charFromU32 code with
  | some c => .ok (c, rest)
  | none => .error "bad unicode code point"

/-- A character that is written by its number, of two halves where it is far out. -/
def unicodeChar (rest : List UInt8) : Parsed Char :=
  match hex4 rest with
  | .error e => .error e
  | .ok (hi, rest) =>
      if 0xD800 ≤ hi ∧ hi ≤ 0xDBFF then
        match rest with
        | 0x5c :: 0x75 :: rest =>
            match hex4 rest with
            | .error e => .error e
            | .ok (lo, rest) =>
                if 0xDC00 ≤ lo ∧ lo ≤ 0xDFFF then
                  codePoint (0x10000 + (hi - 0xD800) * 1024 + (lo - 0xDC00)) rest
                else .error "a bad surrogate pair"
        | _ => .error "a high surrogate with no low surrogate"
      else if 0xDC00 ≤ hi ∧ hi ≤ 0xDFFF then
        .error "a low surrogate with no high surrogate"
      else codePoint hi rest

/-- What follows a backslash in a string. -/
def escape : List UInt8 → Parsed Char
  | 0x22 :: rest => .ok ('"', rest)
  | 0x5c :: rest => .ok ('\\', rest)
  | 0x2f :: rest => .ok ('/', rest)
  | 0x6e :: rest => .ok ('\n', rest)
  | 0x72 :: rest => .ok ('\r', rest)
  | 0x74 :: rest => .ok ('\t', rest)
  | 0x62 :: rest => .ok ('\x08', rest)
  | 0x66 :: rest => .ok ('\x0c', rest)
  | 0x75 :: rest => unicodeChar rest
  | _ => .error "bad escape in a string"

/-- The loop of `string`: a run of plain bytes, then a quote or an escape. -/
def stringLoop : Nat → String → List UInt8 → Parsed String
  | 0, _, _ => .error outOfFuel
  | fuel + 1, s, rest =>
      match fromUtf8 (rest.takeWhile isPlain) with
      | none => .error "a string is not UTF-8"
      | some run =>
          match rest.dropWhile isPlain with
          | 0x22 :: rest => .ok (s ++ run, rest)
          | 0x5c :: rest =>
              match escape rest with
              | .error e => .error e
              | .ok (c, rest) => stringLoop fuel ((s ++ run).push c) rest
          | _ :: _ => .error "a string carries a raw control character"
          | [] => .error "a string was not closed"

/-- Read a string whose opening quote is the next byte. -/
def string (rest : List UInt8) : Parsed String :=
  stringLoop (rest.length + 1) "" rest.tail

/-- Bytes below 128 as text. -/
def asciiText (bytes : List UInt8) : String :=
  String.ofList (bytes.map (fun b => Char.ofNat b.toNat))

/-- The number a run of decimal digits denotes. -/
def decimalValue (digits : List UInt8) : Nat :=
  digits.foldl (fun acc c => acc * 10 + (c.toNat - 0x30)) 0

/-- A run of bytes as a 64-bit number: digits only, at least one, in range. -/
def parseU64 (text : List UInt8) : Option U64 :=
  if text ≠ [] ∧ text.all isDigit = true then tryFrom _ (decimalValue text) else none

/-- The bytes a number takes: an optional minus sign and a run of digits. -/
def numberText : List UInt8 → List UInt8
  | 0x2d :: rest => 0x2d :: rest.takeWhile isDigit
  | rest => rest.takeWhile isDigit

/-- Whether the next byte starts a fraction or an exponent. -/
def startsFraction : List UInt8 → Bool
  | c :: _ => c == 0x2e || c == 0x65 || c == 0x45
  | [] => false

/-- A whole number that fits its type. -/
def number (rest : List UInt8) : Parsed Json :=
  let text := numberText rest
  let after := rest.drop text.length
  let shown := asciiText text
  if startsFraction after then
    .error s!"'{shown}' is followed by a fraction or exponent, the wire carries whole numbers only"
  else if 1 < text.length ∧ text.head? = some 0x30 then
    .error s!"'{shown}' has a leading zero, which JSON does not allow"
  else
    match parseU64 text with
    | some n => .ok (.int n, after)
    | none => .error s!"'{shown}' is not a whole number the wire accepts"

/-- Whether the next bytes are that word, and the bytes after it. -/
def literal (word rest : List UInt8) : Option (List UInt8) :=
  if word.isPrefixOf rest then some (rest.drop word.length) else none

/-- A truth value. -/
def boolean (rest : List UInt8) : Parsed Json :=
  match literal (asBytes "true") rest with
  | some rest => .ok (.bool true, rest)
  | none =>
      match literal (asBytes "false") rest with
      | some rest => .ok (.bool false, rest)
      | none => .error "expected true or false"

/-- The null value. -/
def null (rest : List UInt8) : Parsed Json :=
  match literal (asBytes "null") rest with
  | some rest => .ok (.null, rest)
  | none => .error "expected null"

/-- One level down, unless that is too deep. -/
def nested (parse : Nat → List UInt8 → Parsed Json) (depth : Nat)
    (rest : List UInt8) : Parsed Json :=
  if depth + 1 > maxDepth then .error "the JSON is nested too deep"
  else parse (depth + 1) rest

mutual

/-- A value, with the fuel for what is nested in it. -/
def value : Nat → Nat → List UInt8 → Parsed Json
  | 0, _, _ => .error outOfFuel
  | fuel + 1, depth, rest =>
      match skipWs rest with
      | 0x7b :: rest =>
          nested (fun depth rest =>
            match skipWs rest with
            | 0x7d :: rest => .ok (.object [], rest)
            | rest => objectLoop fuel depth [] ∅ rest) depth rest
      | 0x5b :: rest =>
          nested (fun depth rest =>
            match skipWs rest with
            | 0x5d :: rest => .ok (.array [], rest)
            | rest => arrayLoop fuel depth [] rest) depth rest
      | 0x22 :: rest =>
          match string (0x22 :: rest) with
          | .error e => .error e
          | .ok (s, rest) => .ok (.str s, rest)
      | c :: rest =>
          if c = 0x74 ∨ c = 0x66 then boolean (c :: rest)
          else if c = 0x6e then null (c :: rest)
          else if c = 0x2d ∨ isDigit c = true then number (c :: rest)
          else .error "expected a JSON value"
      | [] => .error "expected a JSON value"

/-- The loop of `object`, at a key. -/
def objectLoop : Nat → Nat → List (String × Json) → Finset String →
    List UInt8 → Parsed Json
  | 0, _, _, _, _ => .error outOfFuel
  | fuel + 1, depth, fields, seen, rest =>
      match skipWs rest with
      | 0x22 :: rest =>
          match string (0x22 :: rest) with
          | .error e => .error e
          | .ok (key, rest) =>
              if key ∈ seen then .error "an object names the same key twice"
              else
                match skipWs rest with
                | 0x3a :: rest =>
                    match value fuel depth rest with
                    | .error e => .error e
                    | .ok (v, rest) =>
                        match skipWs rest with
                        | 0x2c :: rest =>
                            objectLoop fuel depth (fields ++ [(key, v)]) (insert key seen) rest
                        | 0x7d :: rest => .ok (.object (fields ++ [(key, v)]), rest)
                        | _ => .error "expected a comma or a closing brace"
                | _ => .error "expected a colon after a key"
      | _ => .error "expected a string key"

/-- The loop of `array`, at an item. -/
def arrayLoop : Nat → Nat → List Json → List UInt8 → Parsed Json
  | 0, _, _, _ => .error outOfFuel
  | fuel + 1, depth, items, rest =>
      match value fuel depth rest with
      | .error e => .error e
      | .ok (v, rest) =>
          match skipWs rest with
          | 0x2c :: rest => arrayLoop fuel depth (items ++ [v]) rest
          | 0x5d :: rest => .ok (.array (items ++ [v]), rest)
          | _ => .error "expected a comma or a closing bracket"

end

/-- Parse a whole text as one value. -/
def parse (input : String) : Except String Json :=
  let bytes := asBytes input
  match value (2 * bytes.length + 1) 0 (skipWs bytes) with
  | .error e => .error e
  | .ok (v, rest) =>
      match skipWs rest with
      | [] => .ok v
      | _ :: _ => .error "trailing characters after the JSON value"

/-! ## Whole numbers in text -/

/-- A text of decimal digits as an unsigned 128-bit number. -/
def wholeNumber (text : String) : Option U128 :=
  if text = "" ∨ (text.toList.all Char.isDigit) = false then none
  else tryFrom _ (Nat.ofDigitChars 10 text.toList 0)

/-- A whole number with no leading zero. -/
def canonicalDecimal (text : String) : Option U128 :=
  if 1 < (asBytes text).length ∧ text.toList.head? = some '0' then none
  else wholeNumber text

end QCoreJson
