import Mathlib
import QCore.MachineIntProofs
import QCore.ByteMemoryProofs
import QCore.FallibleProofs
import QCore.JsonProofs
import QCore.WireProofs
import QCore.CratesProofs
import QCore.RegroupProofs

/-! # Recovery phrases

    A seed is written as twenty five words.  Its 256 bits are followed by 19 bits
    of the hash of the seed, and each word stands for eleven of the 275 bits.

    A phrase that is typed in is folded to lowercase letters, split at white space,
    and each word is looked up without a branch that depends on it.  A phrase of
    another kind, with the SHA-256 checksum that other wallets use, is refused with
    a text of its own. -/

namespace QCoreMnemonic

open QCoreMachineInt QCoreByteMemory QCoreFallible QCoreJson QCoreWire QCoreCrates QCoreRegroup

/-- A list of words to write phrases in. -/
structure WordList where
  words : List String
  length_words : words.length = 2048
  nodup : words.Nodup
  nonempty : ∀ word ∈ words, word ≠ ""
  lowercase : ∀ word ∈ words, ∀ c ∈ word.toList, 'a' ≤ c ∧ c ≤ 'z'
  short : ∀ word ∈ words, (asBytes word).length ≤ 16

/-- The bits of a phrase that check the others. -/
def phraseChecksumBits : ℕ := 19

/-- The words of a phrase. -/
def phraseWords : ℕ := (seedLen * 8 + phraseChecksumBits) / 11

/-! ## The hash of other wallets' phrases -/

/-- The eight words of a digest in progress. -/
structure Sha256State where
  a : UInt32
  b : UInt32
  c : UInt32
  d : UInt32
  e : UInt32
  f : UInt32
  g : UInt32
  h : UInt32

/-- The constants of the rounds. -/
def roundConstants : List UInt32 :=
  [0x428a2f98, 0x71374491, 0xb5c0fbcf, 0xe9b5dba5, 0x3956c25b, 0x59f111f1, 0x923f82a4, 0xab1c5ed5,
    0xd807aa98, 0x12835b01, 0x243185be, 0x550c7dc3, 0x72be5d74, 0x80deb1fe, 0x9bdc06a7, 0xc19bf174,
    0xe49b69c1, 0xefbe4786, 0x0fc19dc6, 0x240ca1cc, 0x2de92c6f, 0x4a7484aa, 0x5cb0a9dc, 0x76f988da,
    0x983e5152, 0xa831c66d, 0xb00327c8, 0xbf597fc7, 0xc6e00bf3, 0xd5a79147, 0x06ca6351, 0x14292967,
    0x27b70a85, 0x2e1b2138, 0x4d2c6dfc, 0x53380d13, 0x650a7354, 0x766a0abb, 0x81c2c92e, 0x92722c85,
    0xa2bfe8a1, 0xa81a664b, 0xc24b8b70, 0xc76c51a3, 0xd192e819, 0xd6990624, 0xf40e3585, 0x106aa070,
    0x19a4c116, 0x1e376c08, 0x2748774c, 0x34b0bcb5, 0x391c0cb3, 0x4ed8aa4a, 0x5b9cca4f, 0x682e6ff3,
    0x748f82ee, 0x78a5636f, 0x84c87814, 0x8cc70208, 0x90befffa, 0xa4506ceb, 0xbef9a3f7, 0xc67178f2]

/-- The words that a digest starts from. -/
def initialState : Sha256State :=
  ⟨0x6a09e667, 0xbb67ae85, 0x3c6ef372, 0xa54ff53a, 0x510e527f, 0x9b05688c, 0x1f83d9ab, 0x5be0cd19⟩

/-- A word with its bits rotated. -/
def rotateRight (x n : UInt32) : UInt32 := x >>> n ||| x <<< (32 - n)

/-- The loop that pads a message, as often as it may run. -/
def padMessage : ℕ → List UInt8 → List UInt8
  | 0, message => message
  | n + 1, message =>
      if message.length % 64 ≠ 56 then padMessage n (message ++ [0]) else message

/-- A message, padded to whole blocks, with its length in bits at the end. -/
def paddedMessage (data : List UInt8) : List UInt8 :=
  padMessage 64 (data ++ [0x80]) ++ beBytes 8 (data.length * 8)

/-- The next word of a schedule. -/
def scheduleStep (schedule : List UInt32) (t : ℕ) : List UInt32 :=
  let low := schedule.getD (t - 15) 0
  let high := schedule.getD (t - 2) 0
  let s0 := rotateRight low 7 ^^^ rotateRight low 18 ^^^ low >>> 3
  let s1 := rotateRight high 17 ^^^ rotateRight high 19 ^^^ high >>> 10
  schedule ++ [schedule.getD (t - 16) 0 + s0 + schedule.getD (t - 7) 0 + s1]

/-- The sixty four words of a block. -/
def scheduleOf (block : List UInt8) : List UInt32 :=
  (List.range' 16 48).foldl scheduleStep
    ((chunks 4 block).map (fun bytes => UInt32.ofNat (ofBeBytes bytes)))

/-- One round. -/
def sha256Round (work : Sha256State) (round : UInt32 × UInt32) : Sha256State :=
  let ⟨a, b, c, d, e, f, g, h⟩ := work
  let s1 := rotateRight e 6 ^^^ rotateRight e 11 ^^^ rotateRight e 25
  let choice := (e &&& f) ^^^ (~~~e &&& g)
  let t1 := h + s1 + choice + round.1 + round.2
  let s0 := rotateRight a 2 ^^^ rotateRight a 13 ^^^ rotateRight a 22
  let majority := (a &&& b) ^^^ (a &&& c) ^^^ (b &&& c)
  let t2 := s0 + majority
  ⟨t1 + t2, a, b, c, d + t1, e, f, g⟩

/-- The rounds of one block. -/
def sha256Block (s : Sha256State) (block : List UInt8) : Sha256State :=
  let w := (roundConstants.zip (scheduleOf block)).foldl sha256Round s
  ⟨s.a + w.a, s.b + w.b, s.c + w.c, s.d + w.d, s.e + w.e, s.f + w.f, s.g + w.g, s.h + w.h⟩

/-- The digest of some bytes. -/
def sha256 (data : List UInt8) : Bytes 32 :=
  let s := (chunks 64 (paddedMessage data)).foldl sha256Block initialState
  ⟨beBytes 4 s.a.toNat ++ beBytes 4 s.b.toNat ++ beBytes 4 s.c.toNat ++ beBytes 4 s.d.toNat
    ++ beBytes 4 s.e.toNat ++ beBytes 4 s.f.toNat ++ beBytes 4 s.g.toNat ++ beBytes 4 s.h.toNat,
    by simp⟩

/-! ## Folding a phrase -/

/-- The letters that other forms of letters stand for: from a character to a
    character, and the letters of one, or the letter of the first of several. -/
def nfkd : List (ℕ × ℕ × String) :=
  [(0x00aa, 0x00aa, "a"), (0x00ba, 0x00ba, "o"), (0x0132, 0x0132, "ij"), (0x0133, 0x0133, "ij"),
    (0x017f, 0x017f, "s"), (0x01c7, 0x01c7, "lj"), (0x01c8, 0x01c8, "lj"), (0x01c9, 0x01c9, "lj"),
    (0x01ca, 0x01ca, "nj"), (0x01cb, 0x01cb, "nj"), (0x01cc, 0x01cc, "nj"), (0x01f1, 0x01f1, "dz"),
    (0x01f2, 0x01f2, "dz"), (0x01f3, 0x01f3, "dz"), (0x02b0, 0x02b0, "h"), (0x02b2, 0x02b2, "j"),
    (0x02b3, 0x02b3, "r"), (0x02b7, 0x02b7, "w"), (0x02b8, 0x02b8, "y"), (0x02e1, 0x02e1, "l"),
    (0x02e2, 0x02e2, "s"), (0x02e3, 0x02e3, "x"), (0x1d2c, 0x1d2c, "a"), (0x1d2e, 0x1d2e, "b"),
    (0x1d30, 0x1d31, "d"), (0x1d33, 0x1d3a, "g"), (0x1d3c, 0x1d3c, "o"), (0x1d3e, 0x1d3e, "p"),
    (0x1d3f, 0x1d3f, "r"), (0x1d40, 0x1d41, "t"), (0x1d42, 0x1d42, "w"), (0x1d43, 0x1d43, "a"),
    (0x1d47, 0x1d47, "b"), (0x1d48, 0x1d49, "d"), (0x1d4d, 0x1d4d, "g"), (0x1d4f, 0x1d4f, "k"),
    (0x1d50, 0x1d50, "m"), (0x1d52, 0x1d52, "o"), (0x1d56, 0x1d56, "p"), (0x1d57, 0x1d58, "t"),
    (0x1d5b, 0x1d5b, "v"), (0x1d62, 0x1d62, "i"), (0x1d63, 0x1d63, "r"), (0x1d64, 0x1d65, "u"),
    (0x1d9c, 0x1d9c, "c"), (0x1da0, 0x1da0, "f"), (0x1dbb, 0x1dbb, "z"), (0x2071, 0x2071, "i"),
    (0x207f, 0x207f, "n"), (0x2090, 0x2090, "a"), (0x2091, 0x2091, "e"), (0x2092, 0x2092, "o"),
    (0x2093, 0x2093, "x"), (0x2095, 0x2095, "h"), (0x2096, 0x2099, "k"), (0x209a, 0x209a, "p"),
    (0x209b, 0x209c, "s"), (0x20a8, 0x20a8, "rs"), (0x2102, 0x2102, "c"), (0x210a, 0x210b, "g"),
    (0x210c, 0x210c, "h"), (0x210d, 0x210d, "h"), (0x210e, 0x210e, "h"), (0x2110, 0x2110, "i"),
    (0x2111, 0x2111, "i"), (0x2112, 0x2112, "l"), (0x2113, 0x2113, "l"), (0x2115, 0x2115, "n"),
    (0x2116, 0x2116, "no"), (0x2119, 0x211b, "p"), (0x211c, 0x211c, "r"), (0x211d, 0x211d, "r"),
    (0x2120, 0x2120, "sm"), (0x2121, 0x2121, "tel"), (0x2122, 0x2122, "tm"), (0x2124, 0x2124, "z"),
    (0x2128, 0x2128, "z"), (0x212a, 0x212a, "k"), (0x212c, 0x212d, "b"), (0x212f, 0x212f, "e"),
    (0x2130, 0x2131, "e"), (0x2133, 0x2133, "m"), (0x2134, 0x2134, "o"), (0x2139, 0x2139, "i"),
    (0x213b, 0x213b, "fax"), (0x2145, 0x2145, "d"), (0x2146, 0x2147, "d"), (0x2148, 0x2149, "i"),
    (0x2160, 0x2160, "i"), (0x2161, 0x2161, "ii"), (0x2162, 0x2162, "iii"), (0x2163, 0x2163, "iv"),
    (0x2164, 0x2164, "v"), (0x2165, 0x2165, "vi"), (0x2166, 0x2166, "vii"),
    (0x2167, 0x2167, "viii"), (0x2168, 0x2168, "ix"), (0x2169, 0x2169, "x"), (0x216a, 0x216a, "xi"),
    (0x216b, 0x216b, "xii"), (0x216c, 0x216c, "l"), (0x216d, 0x216e, "c"), (0x216f, 0x216f, "m"),
    (0x2170, 0x2170, "i"), (0x2171, 0x2171, "ii"), (0x2172, 0x2172, "iii"), (0x2173, 0x2173, "iv"),
    (0x2174, 0x2174, "v"), (0x2175, 0x2175, "vi"), (0x2176, 0x2176, "vii"),
    (0x2177, 0x2177, "viii"), (0x2178, 0x2178, "ix"), (0x2179, 0x2179, "x"), (0x217a, 0x217a, "xi"),
    (0x217b, 0x217b, "xii"), (0x217c, 0x217c, "l"), (0x217d, 0x217e, "c"), (0x217f, 0x217f, "m"),
    (0x24b6, 0x24cf, "a"), (0x24d0, 0x24e9, "a"), (0x2c7c, 0x2c7c, "j"), (0x2c7d, 0x2c7d, "v"),
    (0x3250, 0x3250, "pte"), (0x32cc, 0x32cc, "hg"), (0x32cd, 0x32cd, "erg"),
    (0x32ce, 0x32ce, "ev"), (0x32cf, 0x32cf, "ltd"), (0x3371, 0x3371, "hpa"),
    (0x3372, 0x3372, "da"), (0x3373, 0x3373, "au"), (0x3374, 0x3374, "bar"), (0x3375, 0x3375, "ov"),
    (0x3376, 0x3376, "pc"), (0x3377, 0x3377, "dm"), (0x337a, 0x337a, "iu"), (0x3380, 0x3380, "pa"),
    (0x3381, 0x3381, "na"), (0x3383, 0x3383, "ma"), (0x3384, 0x3384, "ka"), (0x3385, 0x3385, "kb"),
    (0x3386, 0x3386, "mb"), (0x3387, 0x3387, "gb"), (0x3388, 0x3388, "cal"),
    (0x3389, 0x3389, "kcal"), (0x338a, 0x338a, "pf"), (0x338b, 0x338b, "nf"),
    (0x338e, 0x338e, "mg"), (0x338f, 0x338f, "kg"), (0x3390, 0x3390, "hz"), (0x3391, 0x3391, "khz"),
    (0x3392, 0x3392, "mhz"), (0x3393, 0x3393, "ghz"), (0x3394, 0x3394, "thz"),
    (0x3396, 0x3396, "ml"), (0x3397, 0x3397, "dl"), (0x3398, 0x3398, "kl"), (0x3399, 0x3399, "fm"),
    (0x339a, 0x339a, "nm"), (0x339c, 0x339c, "mm"), (0x339d, 0x339d, "cm"), (0x339e, 0x339e, "km"),
    (0x33a9, 0x33a9, "pa"), (0x33aa, 0x33aa, "kpa"), (0x33ab, 0x33ab, "mpa"),
    (0x33ac, 0x33ac, "gpa"), (0x33ad, 0x33ad, "rad"), (0x33b0, 0x33b0, "ps"),
    (0x33b1, 0x33b1, "ns"), (0x33b3, 0x33b3, "ms"), (0x33b4, 0x33b4, "pv"), (0x33b5, 0x33b5, "nv"),
    (0x33b7, 0x33b7, "mv"), (0x33b8, 0x33b8, "kv"), (0x33b9, 0x33b9, "mv"), (0x33ba, 0x33ba, "pw"),
    (0x33bb, 0x33bb, "nw"), (0x33bd, 0x33bd, "mw"), (0x33be, 0x33be, "kw"), (0x33bf, 0x33bf, "mw"),
    (0x33c3, 0x33c3, "bq"), (0x33c4, 0x33c4, "cc"), (0x33c5, 0x33c5, "cd"), (0x33c8, 0x33c8, "db"),
    (0x33c9, 0x33c9, "gy"), (0x33ca, 0x33ca, "ha"), (0x33cb, 0x33cb, "hp"), (0x33cc, 0x33cc, "in"),
    (0x33cd, 0x33cd, "kk"), (0x33ce, 0x33ce, "km"), (0x33cf, 0x33cf, "kt"), (0x33d0, 0x33d0, "lm"),
    (0x33d1, 0x33d1, "ln"), (0x33d2, 0x33d2, "log"), (0x33d3, 0x33d3, "lx"), (0x33d4, 0x33d4, "mb"),
    (0x33d5, 0x33d5, "mil"), (0x33d6, 0x33d6, "mol"), (0x33d7, 0x33d7, "ph"),
    (0x33d9, 0x33d9, "ppm"), (0x33da, 0x33da, "pr"), (0x33db, 0x33db, "sr"), (0x33dc, 0x33dc, "sv"),
    (0x33dd, 0x33dd, "wb"), (0x33ff, 0x33ff, "gal"), (0xa7f2, 0xa7f2, "c"), (0xa7f3, 0xa7f3, "f"),
    (0xa7f4, 0xa7f4, "q"), (0xfb00, 0xfb00, "ff"), (0xfb01, 0xfb01, "fi"), (0xfb02, 0xfb02, "fl"),
    (0xfb03, 0xfb03, "ffi"), (0xfb04, 0xfb04, "ffl"), (0xfb05, 0xfb05, "st"),
    (0xfb06, 0xfb06, "st"), (0xff21, 0xff3a, "a"), (0xff41, 0xff5a, "a"), (0x107a5, 0x107a5, "q"),
    (0x1ccd6, 0x1ccef, "a"), (0x1d400, 0x1d419, "a"), (0x1d41a, 0x1d433, "a"),
    (0x1d434, 0x1d44d, "a"), (0x1d44e, 0x1d454, "a"), (0x1d456, 0x1d467, "i"),
    (0x1d468, 0x1d481, "a"), (0x1d482, 0x1d49b, "a"), (0x1d49c, 0x1d49c, "a"),
    (0x1d49e, 0x1d49f, "c"), (0x1d4a2, 0x1d4a2, "g"), (0x1d4a5, 0x1d4a6, "j"),
    (0x1d4a9, 0x1d4ac, "n"), (0x1d4ae, 0x1d4b5, "s"), (0x1d4b6, 0x1d4b9, "a"),
    (0x1d4bb, 0x1d4bb, "f"), (0x1d4bd, 0x1d4c3, "h"), (0x1d4c5, 0x1d4cf, "p"),
    (0x1d4d0, 0x1d4e9, "a"), (0x1d4ea, 0x1d503, "a"), (0x1d504, 0x1d505, "a"),
    (0x1d507, 0x1d50a, "d"), (0x1d50d, 0x1d514, "j"), (0x1d516, 0x1d51c, "s"),
    (0x1d51e, 0x1d537, "a"), (0x1d538, 0x1d539, "a"), (0x1d53b, 0x1d53e, "d"),
    (0x1d540, 0x1d544, "i"), (0x1d546, 0x1d546, "o"), (0x1d54a, 0x1d550, "s"),
    (0x1d552, 0x1d56b, "a"), (0x1d56c, 0x1d585, "a"), (0x1d586, 0x1d59f, "a"),
    (0x1d5a0, 0x1d5b9, "a"), (0x1d5ba, 0x1d5d3, "a"), (0x1d5d4, 0x1d5ed, "a"),
    (0x1d5ee, 0x1d607, "a"), (0x1d608, 0x1d621, "a"), (0x1d622, 0x1d63b, "a"),
    (0x1d63c, 0x1d655, "a"), (0x1d656, 0x1d66f, "a"), (0x1d670, 0x1d689, "a"),
    (0x1d68a, 0x1d6a3, "a"), (0x1f12b, 0x1f12b, "c"), (0x1f12c, 0x1f12c, "r"),
    (0x1f12d, 0x1f12d, "cd"), (0x1f12e, 0x1f12e, "wz"), (0x1f130, 0x1f149, "a"),
    (0x1f14a, 0x1f14a, "hv"), (0x1f14b, 0x1f14b, "mv"), (0x1f14c, 0x1f14c, "sd"),
    (0x1f14d, 0x1f14d, "ss"), (0x1f14e, 0x1f14e, "ppv"), (0x1f14f, 0x1f14f, "wc"),
    (0x1f16a, 0x1f16a, "mc"), (0x1f16b, 0x1f16b, "md"), (0x1f16c, 0x1f16c, "mr"),
    (0x1f190, 0x1f190, "dj")]

/-- What one line of the table says of a character. -/
def compatLine (code : ℕ) (line : ℕ × ℕ × String) : Option String := do
  let (start, last, letters) := line
  if ¬ (start ≤ code ∧ code ≤ last) then none
  else if start = last then some letters
  else
    let first ← (asBytes letters).head?
    let offset ← tryFrom 256 (code - start)
    let letter ← checkedAdd first.toFin offset
    return String.singleton (Char.ofNat letter.val)

/-- What a character is folded to for compatibility. -/
def compatLetters (c : Char) : Option String := nfkd.findSome? (compatLine c.toNat)

/-- Unicode says how a character is lowered that is neither ASCII nor in the table. -/
def foldChar (toLowercase : Char → List Char) (c : Char) : List Char :=
  if c.toNat < 128 then [c.toLower]
  else
    match compatLetters c with
    | some letters => letters.toList
    | none => toLowercase c

/-- A phrase with every character folded. -/
def normalizedPhrase (toLowercase : Char → List Char) (phrase : String) : String :=
  String.ofList (phrase.toList.flatMap (foldChar toLowercase))

/-- The words of a text, between its white space. -/
def splitWhitespace (text : String) : List String :=
  ((text.toList.splitOnP isWhitespace).filter (fun word => !word.isEmpty)).map String.ofList

/-! ## Looking a word up -/

/-- The most bytes of a word that are looked at. -/
def wordWidth : ℕ := 16

/-- The first bytes of a word, or all of them and zeros. -/
def padded (word : String) : List UInt8 :=
  (asBytes word ++ List.replicate wordWidth 0).take wordWidth

/-- One where two words have one length and the same padded bytes, and zero elsewhere. -/
def equalWords (candidate word : String) : UInt8 :=
  let unequal : UInt8 := if (asBytes candidate).length ≠ (asBytes word).length then 1 else 0
  let diff := ((padded candidate).zip (padded word)).foldl
    (fun diff bytes => diff ||| (bytes.1 ^^^ bytes.2)) unequal
  ((diff.toUInt16 - 1) >>> 8).toUInt8 &&& 1

/-- Keep the index of a candidate if it is the word, without a branch. -/
def lookAt (word : String) (seen : UInt64 × UInt8) (candidate : String × ℕ) : UInt64 × UInt8 :=
  let equal := equalWords candidate.1 word
  (seen.1 ||| (UInt64.ofNat candidate.2 &&& (0 - equal.toUInt64)), seen.2 ||| equal)

/-- The place of a word in a list, found without stopping at it. -/
def wordIndex (words : List String) (word : String) : Option ℕ :=
  let fits := (asBytes word).length ≤ wordWidth
  let (found, hit) := words.zipIdx.foldl (lookAt word) (0, 0)
  if hit = 1 ∧ fits then some found.toNat else none

/-! ## Phrases and seeds -/

/-- Bits as bytes, eight by eight. -/
def bitsToBytes (bits : List UInt8) : List UInt8 := (chunks 8 bits).map byteOf

/-- A bit of a hash, first the greatest of the first byte. -/
def digestBit (digest : Bytes 32) (i : ℕ) : UInt8 :=
  digest.val.getD (i / 8) 0 >>> UInt8.ofNat (7 - i % 8) &&& 1

/-- Whether a phrase carries the checksum of another standard. -/
def isStandardPhrase (bits : List UInt8) : Bool :=
  if bits.length / 11 ∉ [12, 15, 18, 21, 24] then false
  else
    let checksumBits := bits.length / 33
    let entropyBits := bits.length - checksumBits
    let digest := sha256 (bitsToBytes (bits.take entropyBits))
    (List.range checksumBits).all (fun i => bits.getD (entropyBits + i) 0 == digestBit digest i)

/-- The refusal of one that does. -/
def standardPhrase : String := "this phrase carries a standard BIP-39 checksum and is not a twenty five word Quantova recovery phrase, so it cannot restore a Quantova account"

/-- The text a phrase is refused with, which tells another wallet's phrase apart. -/
def refusalOf (bits : List UInt8) (refusal : String) : String :=
  if isStandardPhrase bits then standardPhrase else refusal

section

variable (crates : Crates) (list : WordList) (toLowercase : Char → List Char)

/-- A bit that checks a seed. -/
def checksumBit (seed : Bytes seedLen) (i : ℕ) : UInt8 := digestBit (crates.sha3_256 seed.val) i

/-- The bits of a seed and of its checksum. -/
def phraseBits (seed : Bytes seedLen) : List UInt8 :=
  seed.val.flatMap byteBits ++ (List.range phraseChecksumBits).map (checksumBit crates seed)

/-- Add a word to a phrase, after a space unless it is the first. -/
def pushWord (phrase word : String) : String :=
  (if phrase = "" then phrase else phrase.push ' ') ++ word

/-- Eleven bits are an index below the length of the list. -/
def mnemonicFromSeed (seed : Bytes seedLen) : String :=
  ((chunks 11 (phraseBits crates seed)).map
    (fun chunk => list.words.getD (numberOf chunk) "")).foldl pushWord ""

/-- The first bits as a seed.  There are enough of them wherever it is read. -/
def seedOf (bits : List UInt8) : Bytes seedLen :=
  ⟨(bitsToBytes (bits.take (seedLen * 8)) ++ List.replicate seedLen 0).take seedLen, by simp⟩

/-- The bits behind a seed check it. -/
def checksumHolds (bits : List UInt8) (seed : Bytes seedLen) : Bool :=
  (List.range phraseChecksumBits).all
    (fun i => bits.getD (seedLen * 8 + i) 0 == checksumBit crates seed i)

/-- The seed of a phrase. -/
def seedFromMnemonic (phrase : String) : Except String (Bytes seedLen) := do
  let entered := splitWhitespace (normalizedPhrase toLowercase phrase)
  let indices ← entered.mapM (fun word =>
    okOr (wordIndex list.words word) "a word in the phrase is not in the word list")
  let bits := indices.flatMap (bitsOf 11)
  refuseIf (entered.length ≠ phraseWords)
    (refusalOf bits "a recovery phrase is twenty five words")
  let seed := seedOf bits
  refuseIf (!checksumHolds crates bits seed)
    (refusalOf bits "the recovery phrase checksum does not match, check for a typo")
  return seed

/-- The seed of a phrase in a byte buffer. -/
def seedFromMnemonicBytes (phrase : List UInt8) : Except String (Bytes seedLen) := do
  let text ← okOr (fromUtf8 phrase) "the recovery phrase is not UTF-8 text"
  seedFromMnemonic crates list toLowercase text

/-- The phrase of a seed, as a byte buffer. -/
def mnemonicBytesFromSeed (seed : Bytes seedLen) : List UInt8 :=
  asBytes (mnemonicFromSeed crates list seed)

end

end QCoreMnemonic
