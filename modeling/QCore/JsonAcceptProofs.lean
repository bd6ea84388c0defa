import Mathlib
import QCore.JsonGrammarProofs

/-! # The parser reads every text of the grammar

    The other half of what `parse` accepts: a piece of the grammar, with whatever
    comes after it, is read to its end and no further.  Only a number needs to
    know what comes next (`EndsNumber`).  The layer of arrays and objects is
    proved over any language of values the parser reads at its depth (`ReadAt`),
    and `value_complete` stacks it as the grammar does. -/

namespace QCoreJsonAccept

open QCoreMachineInt QCoreUtf8 QCoreJson QCoreJsonGrammar

/-! ## Strings and numbers -/

/-- A digit's character is one byte, which reads as the digit. -/
theorem hexDigit_complete {c : Char} {d : Nat} (h : HexDigit c d) :
    String.utf8EncodeChar c = [UInt8.ofNat c.toNat] ∧ hexDigit (UInt8.ofNat c.toNat) = some d := by
  have hlower : ∀ d : Fin 16, d.val.digitChar.toNat < 128 ∧
      hexDigit (UInt8.ofNat d.val.digitChar.toNat) = some d.val := by decide
  have hupper : ∀ d : Fin 16, d.val.digitChar.toUpper.toNat < 128 ∧
      hexDigit (UInt8.ofNat d.val.digitChar.toUpper.toNat) = some d.val := by decide
  obtain ⟨hd, rfl | rfl⟩ := h
  · exact ⟨utf8EncodeChar_ascii (hlower ⟨d, hd⟩).1, (hlower ⟨d, hd⟩).2⟩
  · exact ⟨utf8EncodeChar_ascii (hupper ⟨d, hd⟩).1, (hupper ⟨d, hd⟩).2⟩

/-- Four digits are read as their number. -/
theorem hex4_complete {hs : List Char} {n : Nat} (h : Hex4 hs n) (rest : List Char) :
    hex4 (encode (hs ++ rest)) = .ok (n, encode rest) := by
  cases h with
  | digits ha hb hc hd =>
      next a b c d i j k l =>
      have hcode : (((0 * 16 + i) * 16 + j) * 16 + k) * 16 + l
          = i * 4096 + j * 256 + k * 16 + l := by omega
      simp only [List.cons_append, List.nil_append, encode_cons, (hexDigit_complete ha).1,
        (hexDigit_complete hb).1, (hexDigit_complete hc).1, (hexDigit_complete hd).1, hex4,
        hexDigits, (hexDigit_complete ha).2, (hexDigit_complete hb).2, (hexDigit_complete hc).2,
        (hexDigit_complete hd).2, hcode]

/-- The number of a character is read as it. -/
theorem codePoint_complete {code : Nat} {c : Char} (h : c.toNat = code) (rest : List UInt8) :
    codePoint code rest = .ok (c, rest) := by
  subst h
  have hv : charFromU32 c.toNat = some c := by
    rw [charFromU32, if_pos (show c.toNat.isValidChar from c.valid), Char.ofNat_toNat]
  rw [codePoint, hv]

/-- A character's own code is not that of a surrogate. -/
theorem not_surrogate (c : Char) : ¬ (0xD800 ≤ c.toNat ∧ c.toNat ≤ 0xDFFF) := by
  intro h
  have hv : c.toNat.isValidChar := c.valid
  rcases hv with hlow | ⟨hhigh, -⟩
  · omega
  · omega

/-- **An escape of the grammar is read.** -/
theorem escape_complete {es : List Char} {c : Char} (h : Escape es c) (rest : List Char) :
    escape (encode (es ++ rest)) = .ok (c, encode rest) := by
  cases h with
  | quote => rfl
  | backslash => rfl
  | slash => rfl
  | newline => rfl
  | carriageReturn => rfl
  | tab => rfl
  | backspace => rfl
  | formFeed => rfl
  | code hcode =>
      next hs =>
      have hsur := not_surrogate c
      show unicodeChar (encode (hs ++ rest)) = _
      rw [unicodeChar, hex4_complete hcode]
      show (if 0xD800 ≤ c.toNat ∧ c.toNat ≤ 0xDBFF then _ else _) = _
      rw [if_neg (by omega), if_neg (by omega), codePoint_complete rfl]
  | pair hhi hlo high low hc =>
      next hs ls hi lo =>
      show unicodeChar (encode (hs ++ '\\' :: 'u' :: ls ++ rest)) = _
      rw [List.append_assoc, unicodeChar, hex4_complete hhi]
      have hnext : encode ('\\' :: 'u' :: ls ++ rest) = 0x5c :: 0x75 :: encode (ls ++ rest) := rfl
      simp only [high, hnext, hex4_complete hlo, low, and_self, if_true]
      exact codePoint_complete hc _

/-- A raw character joins the run the loop is at. -/
theorem stringLoop_raw {c : Char} (hc : isRaw c = true) (fuel : Nat) (s : String)
    (cs : List Char) :
    stringLoop (fuel + 1) s (encode (c :: cs)) = stringLoop (fuel + 1) (s.push c) (encode cs) := by
  have hrun : s ++ String.ofList (c :: cs.takeWhile isRaw)
      = s.push c ++ String.ofList (cs.takeWhile isRaw) := by
    apply String.ext
    simp
  rw [stringLoop, stringLoop, plain_agrees.takeWhile_encode, plain_agrees.dropWhile_encode,
    plain_agrees.takeWhile_encode, plain_agrees.dropWhile_encode,
    List.takeWhile_cons_of_pos hc, List.dropWhile_cons_of_pos hc, fromUtf8, fromUtf8,
    fromUTF8?_encode, fromUTF8?_encode]
  dsimp only
  rw [hrun]

/-- An escape is read as its character. -/
theorem stringLoop_escape {es : List Char} {c : Char} (h : Escape es c) (fuel : Nat)
    (s : String) (cs : List Char) :
    stringLoop (fuel + 1) s (encode ('\\' :: (es ++ cs))) = stringLoop fuel (s.push c) (encode cs)
      := by
  have hstop : isRaw '\\' = false := by decide
  have hempty : s ++ String.ofList [] = s := by simp
  rw [stringLoop, plain_agrees.takeWhile_encode, plain_agrees.dropWhile_encode,
    List.takeWhile_cons_of_neg (by simp [hstop]), List.dropWhile_cons_of_neg (by simp [hstop]),
    fromUtf8, fromUTF8?_encode]
  have hnext : encode ('\\' :: (es ++ cs)) = 0x5c :: encode (es ++ cs) := rfl
  simp only [hempty, hnext, escape_complete h]

/-- A string ends at its closing quote. -/
theorem stringLoop_quote (fuel : Nat) (s : String) (cs : List Char) :
    stringLoop (fuel + 1) s (encode ('"' :: cs)) = .ok (s, encode cs) := by
  have hstop : isRaw '"' = false := by decide
  have hempty : s ++ String.ofList [] = s := by simp
  rw [stringLoop, plain_agrees.takeWhile_encode, plain_agrees.dropWhile_encode,
    List.takeWhile_cons_of_neg (by simp [hstop]), List.dropWhile_cons_of_neg (by simp [hstop]),
    fromUtf8, fromUTF8?_encode]
  dsimp only
  rw [hempty]
  rfl

/-- The string loop reads a body to its closing quote. -/
theorem stringLoop_complete {body str : List Char} (h : StringBody body str)
    (rest : List Char) : ∀ (fuel : Nat) (s : String), body.length < fuel →
      stringLoop fuel s (encode (body ++ '"' :: rest)) = .ok (s ++ String.ofList str, encode rest)
      := by
  induction h with
  | nil =>
      intro fuel s hfuel
      obtain ⟨fuel, rfl⟩ : ∃ f, fuel = f + 1 := ⟨fuel - 1, by omega⟩
      rw [List.nil_append, stringLoop_quote]
      simp
  | raw hc hcs ih =>
      intro fuel s hfuel
      rw [List.length_cons] at hfuel
      obtain ⟨fuel, rfl⟩ : ∃ f, fuel = f + 1 := ⟨fuel - 1, by omega⟩
      rw [List.cons_append, stringLoop_raw hc, ih _ _ (by omega)]
      congr 2
      apply String.ext
      simp
  | escape he hcs ih =>
      intro fuel s hfuel
      rw [List.length_cons, List.length_append] at hfuel
      obtain ⟨fuel, rfl⟩ : ∃ f, fuel = f + 1 := ⟨fuel - 1, by omega⟩
      rw [List.cons_append, List.append_assoc, stringLoop_escape he, ih _ _ (by omega)]
      congr 2
      apply String.ext
      simp

/-- The text of a string is read. -/
theorem string_complete {t : List Char} {s : String} (h : StringText t s) (rest : List Char) :
    string (encode (t ++ rest)) = .ok (s, encode rest) := by
  cases h with
  | quoted hbody =>
      next body str =>
      have hlen := length_le_length_encode (body ++ '"' :: rest)
      have hcs : '"' :: (body ++ ['"']) ++ rest = '"' :: (body ++ '"' :: rest) := by simp
      rw [List.length_append] at hlen
      rw [hcs, string]
      show stringLoop ((encode (body ++ '"' :: rest)).length + 1 + 1) ""
        (encode (body ++ '"' :: rest)) = _
      rw [stringLoop_complete hbody rest _ _ (by omega)]
      simp

/-- What comes next does not go on with a number: no digit, fraction or
    exponent. -/
def EndsNumber (rest : List Char) : Prop :=
  ∀ c ∈ rest.head?, c.isDigit = false ∧ c ≠ '.' ∧ c ≠ 'e' ∧ c ≠ 'E'

theorem endsNumber_nil : EndsNumber [] := by
  intro c hc
  cases hc

theorem endsNumber_cons {c : Char} (hdigit : c.isDigit = false) (hdot : c ≠ '.')
    (he : c ≠ 'e') (hE : c ≠ 'E') (rest : List Char) : EndsNumber (c :: rest) := by
  intro d hd
  obtain rfl : c = d := Option.some.inj hd
  exact ⟨hdigit, hdot, he, hE⟩

/-- Blanks end a number too. -/
theorem EndsNumber.blank {w rest : List Char} (hw : Blank w) (h : EndsNumber rest) :
    EndsNumber (w ++ rest) := by
  cases w with
  | nil => exact h
  | cons c w =>
      have hc := hw c List.mem_cons_self
      have hcases : c = ' ' ∨ c = '\t' ∨ c = '\n' ∨ c = '\r' := by
        simpa [isBlank, or_assoc] using hc
      rcases hcases with rfl | rfl | rfl | rfl <;>
        exact endsNumber_cons (by decide) (by decide) (by decide) (by decide) _

/-- A number ends where no fraction follows it. -/
theorem startsFraction_encode {rest : List Char} (h : EndsNumber rest) :
    startsFraction (encode rest) = false := by
  cases hb : encode rest with
  | nil => rfl
  | cons b bs =>
      have hne : ∀ c : Char, c.toNat < 128 → c = '.' ∨ c = 'e' ∨ c = 'E' →
          b ≠ UInt8.ofNat c.toNat := by
        intro c hc hcases heq
        obtain ⟨cs', rfl, -⟩ := encode_eq_cons_ascii c hc heq hb
        obtain ⟨-, hdot, he, hE⟩ := h c rfl
        rcases hcases with rfl | rfl | rfl
        · exact hdot rfl
        · exact he rfl
        · exact hE rfl
      have h1 : b ≠ 0x2e := hne '.' (by decide) (Or.inl rfl)
      have h2 : b ≠ 0x65 := hne 'e' (by decide) (Or.inr (Or.inl rfl))
      have h3 : b ≠ 0x45 := hne 'E' (by decide) (Or.inr (Or.inr rfl))
      simp [startsFraction, h1, h2, h3]

/-- **A number of the grammar is read**, when what follows ends it. -/
theorem number_complete {t : List Char} {n : U64} (h : NumberText t n) {rest : List Char}
    (hrest : EndsNumber rest) :
    number (encode (t ++ rest)) = .ok (.int n, encode rest) := by
  have htake : (t ++ rest).takeWhile Char.isDigit = t := by
    rw [List.takeWhile_append_of_pos h.digits]
    cases rest with
    | nil => simp
    | cons c rest => simp [(hrest c rfl).1]
  have hsign : (t ++ rest).head? ≠ some '-' := by
    obtain ⟨c, cs, hcs⟩ := List.exists_cons_of_ne_nil h.nonempty
    have hc := h.digits c (by rw [hcs]; exact List.mem_cons_self)
    rw [hcs]
    intro hhead
    rw [Option.some.inj hhead] at hc
    exact absurd hc (by decide)
  have hzero : ¬ (1 < (encode t).length ∧ (encode t).head? = some 0x30) := by
    rintro ⟨hlen, hhead⟩
    obtain ⟨bs, hbs⟩ := List.head?_eq_some_iff.mp hhead
    obtain ⟨cs, hcs, -⟩ := encode_eq_cons_ascii '0' (by decide) rfl hbs
    rw [h.noLeadingZero (by rw [hcs]; rfl)] at hlen
    exact absurd hlen (by decide)
  rw [number, numberText_encode hsign, htake]
  rw [encode_append, List.drop_left, startsFraction_encode hrest, if_neg Bool.false_ne_true,
    if_neg hzero, (parseU64_encode h.digits n).mpr ⟨h.nonempty, h.denotes⟩]

/-! ## Blanks -/

theorem skipWs_blank {w : List Char} (hw : Blank w) (cs : List Char) :
    skipWs (encode (w ++ cs)) = skipWs (encode cs) := by
  rw [skipWs, skipWs, encode_append, List.dropWhile_append_of_pos]
  exact space_agrees.encode_inside hw

theorem skipWs_starts {c : Char} (h : isBlank c = false) (cs : List Char) :
    skipWs (encode (c :: cs)) = encode (c :: cs) := by
  rw [skipWs, space_agrees.dropWhile_encode, List.dropWhile_cons_of_neg (by simp [h])]

theorem value_led {w : List Char} (hw : Blank w) (fuel depth : Nat) (cs : List Char) :
    value fuel depth (encode (w ++ cs)) = value fuel depth (encode cs) := by
  rw [← value_skipWs, skipWs_blank hw, value_skipWs]

/-- The loops skip blanks by themselves, too. -/
theorem arrayLoop_skipWs (fuel depth : Nat) (items : List Json) (rest : List UInt8) :
    arrayLoop fuel depth items (skipWs rest) = arrayLoop fuel depth items rest := by
  cases fuel with
  | zero => rfl
  | succ fuel => rw [arrayLoop, arrayLoop, value_skipWs]

/-- Blanks before the fields of an object do not matter. -/
theorem objectLoop_skipWs (fuel depth : Nat) (fields : List (String × Json))
    (seen : Finset String) (rest : List UInt8) :
    objectLoop fuel depth fields seen (skipWs rest) = objectLoop fuel depth fields seen rest := by
  cases fuel with
  | zero => rfl
  | succ fuel => rw [objectLoop, objectLoop, skipWs_skipWs]

/-! ## Scalars, arrays and objects -/

/-- A digit is no blank. -/
theorem isSpace_of_isDigit {b : UInt8} (h : isDigit b = true) : isSpace b = false := by
  have hne : ∀ c : UInt8, isDigit c = false → b ≠ c := by
    intro c hc hbc
    rw [hbc, hc] at h
    exact Bool.noConfusion h
  simp [isSpace, hne 0x20 (by decide), hne 0x09 (by decide), hne 0x0a (by decide),
    hne 0x0d (by decide)]

/-- The parser takes a number at a digit. -/
theorem value_digit {b : UInt8} (h : isDigit b = true) (fuel depth : Nat)
    (rest : List UInt8) : value (fuel + 1) depth (b :: rest) = number (b :: rest) := by
  have hne : ∀ c : UInt8, isDigit c = false → b ≠ c := by
    intro c hc hbc
    rw [hbc, hc] at h
    exact Bool.noConfusion h
  have h1 := hne 0x7b (by decide)
  have h2 := hne 0x5b (by decide)
  have h3 := hne 0x22 (by decide)
  have h4 : ¬ (b = 0x74 ∨ b = 0x66) := by
    rintro (hb | hb)
    · exact hne 0x74 (by decide) hb
    · exact hne 0x66 (by decide) hb
  have hskip : skipWs (b :: rest) = b :: rest := by
    rw [skipWs, List.dropWhile_cons_of_neg (by simp [isSpace_of_isDigit h])]
  rw [value, hskip]
  split
  · next heq => exact absurd (List.cons.inj heq).1 h1
  · next heq => exact absurd (List.cons.inj heq).1 h2
  · next heq => exact absurd (List.cons.inj heq).1 h3
  · next heq =>
      obtain ⟨rfl, rfl⟩ := List.cons.inj heq
      rw [if_neg h4, if_neg (hne 0x6e (by decide)), if_pos (Or.inr h)]
  · next heq => cases heq

/-- At a bracket the parser goes one level down, into an array. -/
theorem value_bracket (fuel depth : Nat) (rest : List UInt8) :
    value (fuel + 1) depth (0x5b :: rest)
      = nested (fun depth rest =>
          match skipWs rest with
          | 0x5d :: rest => .ok (.array [], rest)
          | rest => arrayLoop fuel depth [] rest) depth rest := by
  rw [value]
  rfl

/-- At a brace the parser goes one level down, into an object. -/
theorem value_brace (fuel depth : Nat) (rest : List UInt8) :
    value (fuel + 1) depth (0x7b :: rest)
      = nested (fun depth rest =>
          match skipWs rest with
          | 0x7d :: rest => .ok (.object [], rest)
          | rest => objectLoop fuel depth [] ∅ rest) depth rest := by
  rw [value]
  rfl

/-- At a quote the object loop reads a key. -/
theorem objectLoop_quote (fuel depth : Nat) (fields : List (String × Json))
    (seen : Finset String) (rest : List UInt8) :
    objectLoop (fuel + 1) depth fields seen (0x22 :: rest)
      = match string (0x22 :: rest) with
        | .error e => .error e
        | .ok (key, rest) =>
            if key ∈ seen then .error "an object names the same key twice"
            else
              match skipWs rest with
              | 0x3a :: rest =>
                  match value fuel depth rest with
                  | .error e => .error e
                  | .ok (v, rest) =>
                      match skipWs rest with
                      | 0x2c :: rest =>
                          objectLoop fuel depth (fields ++ [(key, v)]) (insert key seen) rest
                      | 0x7d :: rest => .ok (.object (fields ++ [(key, v)]), rest)
                      | _ => .error "expected a comma or a closing brace"
              | _ => .error "expected a colon after a key" := by
  rw [objectLoop]
  rfl

/-- At a quote the parser reads a string. -/
theorem value_quote (fuel depth : Nat) (rest : List UInt8) :
    value (fuel + 1) depth (0x22 :: rest)
      = match string (0x22 :: rest) with
        | .error e => .error e
        | .ok (s, rest) => .ok (.str s, rest) := by
  rw [value]
  rfl

/-- The text of a scalar is read. -/
theorem scalar_complete {t : List Char} {v : Json} (h : Scalar t v) {rest : List Char}
    (hrest : EndsNumber rest) (fuel depth : Nat) :
    value (fuel + 1) depth (encode (t ++ rest)) = .ok (v, encode rest) := by
  cases h with
  | null => rfl
  | true => rfl
  | false => rfl
  | int h =>
      have hnum := number_complete h hrest
      obtain ⟨c, cs, rfl⟩ := List.exists_cons_of_ne_nil h.nonempty
      have hc := h.digits c List.mem_cons_self
      rw [List.cons_append, encode_cons, utf8EncodeChar_ascii (by have := digit_range hc; omega),
        List.singleton_append] at hnum ⊢
      rw [value_digit, hnum]
      refine digit_agrees.inside hc _ ?_
      rw [utf8EncodeChar_ascii (by have := digit_range hc; omega)]
      exact List.mem_singleton_self _
  | str h =>
      have hstr := string_complete h rest
      cases h with
      | quoted hbody =>
          rw [List.cons_append] at hstr ⊢
          have hq : ∀ cs, encode ('"' :: cs) = 0x22 :: encode cs := fun _ => rfl
          rw [hq] at hstr ⊢
          rw [value_quote, hstr]

/-- A language of values that the parser reads at a depth, given that much fuel. -/
def ReadAt (V : List Char → Json → Prop) (depth : Nat) : Prop :=
  ∀ {t : List Char} {v : Json}, V t v → ∀ (fuel : Nat) (rest : List Char),
    t.length ≤ fuel → EndsNumber rest →
    value fuel depth (encode (t ++ rest)) = .ok (v, encode rest)

section Layer

variable {V : List Char → Json → Prop} {depth : Nat} (hV : ReadAt V depth)
include hV

/-- An item with the blanks around it, at whatever ends a number. -/
theorem ReadAt.padded {w t w' : List Char} {v : Json} (hw : Blank w) (hv : V t v)
    (hw' : Blank w') {fuel : Nat} (hfuel : (w ++ t ++ w').length ≤ fuel) {rest : List Char}
    (hrest : EndsNumber rest) :
    value fuel depth (encode (w ++ t ++ w' ++ rest)) = .ok (v, encode (w' ++ rest)) := by
  rw [List.length_append, List.length_append] at hfuel
  rw [List.append_assoc, List.append_assoc, value_led hw]
  exact hV hv fuel (w' ++ rest) (by omega) (hrest.blank hw')

/-- The items of an array are read, given enough fuel. -/
theorem arrayLoop_complete {cs : List Char} {vs : List Json} (h : Items V cs vs)
    (rest : List Char) : ∀ (fuel : Nat) (items : List Json), cs.length + 1 ≤ fuel →
      arrayLoop fuel depth items (encode (cs ++ ']' :: rest))
        = .ok (.array (items ++ vs), encode rest) := by
  have hbracket : EndsNumber (']' :: rest) :=
    endsNumber_cons (by decide) (by decide) (by decide) (by decide) _
  induction h with
  | last hw hv hw' =>
      intro fuel items hfuel
      obtain ⟨fuel, rfl⟩ : ∃ f, fuel = f + 1 := ⟨fuel - 1, by omega⟩
      rw [arrayLoop, hV.padded hw hv hw' (by omega) hbracket]
      dsimp only
      rw [skipWs_blank hw', skipWs_starts (by decide)]
      rfl
  | more hw hv hw' hvs ih =>
      next w t w' cs v vs =>
      intro fuel items hfuel
      rw [List.length_append, List.length_cons] at hfuel
      obtain ⟨fuel, rfl⟩ : ∃ f, fuel = f + 1 := ⟨fuel - 1, by omega⟩
      -- a number before the comma ends there
      have hcomma : EndsNumber (',' :: (cs ++ ']' :: rest)) :=
        endsNumber_cons (by decide) (by decide) (by decide) (by decide) _
      rw [List.append_assoc, List.cons_append, arrayLoop,
        hV.padded hw hv hw' (by omega) hcomma]
      dsimp only
      rw [skipWs_blank hw', skipWs_starts (by decide)]
      show arrayLoop fuel depth (items ++ [v]) (encode (cs ++ ']' :: rest)) = _
      rw [ih fuel (items ++ [v]) (by omega), List.append_assoc, List.singleton_append]

/-- One turn of the object loop on a field of a key it has not seen. -/
theorem objectLoop_field {cs : List Char} {key : String} {v : Json} (h : Field V cs (key, v))
    {fields : List (String × Json)} {seen : Finset String} (hnew : key ∉ seen) {fuel : Nat}
    (hfuel : cs.length ≤ fuel) {rest : List Char} (hrest : EndsNumber rest) :
    objectLoop (fuel + 1) depth fields seen (encode (cs ++ rest))
      = match skipWs (encode rest) with
        | 0x2c :: rest => objectLoop fuel depth (fields ++ [(key, v)]) (insert key seen) rest
        | 0x7d :: rest => .ok (.object (fields ++ [(key, v)]), rest)
        | _ => .error "expected a comma or a closing brace" := by
  cases h with
  | field hw hk hw' hu hv hu' =>
      next w k w' u t u' =>
      have hq : ∀ cs, encode ('"' :: cs) = 0x22 :: encode cs := fun _ => rfl
      have hc : ∀ cs, encode (':' :: cs) = 0x3a :: encode cs := fun _ => rfl
      have hvalue : value fuel depth (encode (u ++ t ++ u' ++ rest))
          = .ok (v, encode (u' ++ rest)) := by
        refine hV.padded hu hv hu' ?_ hrest
        simp only [List.length_append, List.length_cons] at hfuel ⊢
        omega
      have hstr := string_complete hk (w' ++ ':' :: (u ++ t ++ u' ++ rest))
      have hcs : w ++ k ++ w' ++ ':' :: (u ++ t ++ u') ++ rest
          = w ++ (k ++ (w' ++ ':' :: (u ++ t ++ u' ++ rest))) := by simp
      rw [hcs]
      cases hk with
      | quoted hbody =>
          rw [List.cons_append] at hstr ⊢
          rw [← objectLoop_skipWs, skipWs_blank hw, skipWs_starts (by decide), hq,
            objectLoop_quote]
          rw [hq] at hstr
          have hcolon : skipWs (encode (w' ++ ':' :: (u ++ t ++ u' ++ rest)))
              = 0x3a :: encode (u ++ t ++ u' ++ rest) := by
            rw [skipWs_blank hw', skipWs_starts (by decide), hc]
          simp only [hstr, hnew, if_false, hcolon, hvalue, skipWs_blank hu']

/-- The fields of an object are read where no key is met twice. -/
theorem objectLoop_complete {cs : List Char} {fs : List (String × Json)} (h : Fields V cs fs)
    (rest : List Char) : ∀ (fuel : Nat) (fields : List (String × Json)) (seen : Finset String),
      (fs.map Prod.fst).Nodup → (∀ k ∈ fs.map Prod.fst, k ∉ seen) → cs.length + 1 ≤ fuel →
      objectLoop fuel depth fields seen (encode (cs ++ '\x7d' :: rest))
        = .ok (.object (fields ++ fs), encode rest) := by
  induction h with
  | last hf =>
      next cs f =>
      obtain ⟨key, v⟩ := f
      intro fuel fields seen _ hseen hfuel
      obtain ⟨fuel, rfl⟩ : ∃ f, fuel = f + 1 := ⟨fuel - 1, by omega⟩
      have hbrace : EndsNumber ('\x7d' :: rest) :=
        endsNumber_cons (by decide) (by decide) (by decide) (by decide) _
      rw [objectLoop_field hV hf (hseen key (by simp)) (by omega) hbrace,
        skipWs_starts (by decide)]
      rfl
  | more hf hfs ih =>
      next cs ds f fs =>
      obtain ⟨key, v⟩ := f
      intro fuel fields seen hnodup hseen hfuel
      rw [List.length_append, List.length_cons] at hfuel
      obtain ⟨fuel, rfl⟩ : ∃ f, fuel = f + 1 := ⟨fuel - 1, by omega⟩
      rw [List.map_cons, List.nodup_cons] at hnodup
      have hcomma : EndsNumber (',' :: (ds ++ '\x7d' :: rest)) :=
        endsNumber_cons (by decide) (by decide) (by decide) (by decide) _
      -- the keys to come differ from this one too
      have hseen' : ∀ k ∈ fs.map Prod.fst, k ∉ insert key seen := by
        intro k hk
        rw [Finset.mem_insert, not_or]
        refine ⟨?_, hseen k (List.mem_cons_of_mem _ hk)⟩
        intro heq
        exact hnodup.1 (heq ▸ hk)
      rw [List.append_assoc, List.cons_append,
        objectLoop_field hV hf (hseen key (by simp)) (by omega) hcomma,
        skipWs_starts (by decide)]
      show objectLoop fuel depth (fields ++ [(key, v)]) (insert key seen)
        (encode (ds ++ '\x7d' :: rest)) = _
      rw [ih fuel _ _ hnodup.2 hseen' (by omega), List.append_assoc, List.singleton_append]

end Layer

/-- The first character of the items is a value's, so no bracket. -/
theorem items_skipWs_head {n : Nat} {cs : List Char} {vs : List Json} (h : Items (Value n) cs vs)
    (rest : List Char) :
    ∃ c cs', skipWs (encode (cs ++ rest)) = encode (c :: cs') ∧ c ≠ ']' := by
  have hhead : ∀ {w t : List Char} {v : Json}, Blank w → Value n t v → ∀ ds : List Char,
      ∃ c cs', skipWs (encode (w ++ t ++ ds)) = encode (c :: cs') ∧ c ≠ ']' := by
    intro w t v hw hv ds
    obtain ⟨c, cs, rfl, hblank, hne⟩ := hv.head
    rw [List.append_assoc, skipWs_blank hw, List.cons_append, skipWs_starts hblank]
    exact ⟨c, _, rfl, hne⟩
  cases h with
  | last hw hv hw' =>
      rw [List.append_assoc]
      exact hhead hw hv _
  | more hw hv hw' hvs =>
      rw [List.append_assoc, List.append_assoc]
      exact hhead hw hv _

/-- The first character of the fields is the quote of a key. -/
theorem fields_skipWs_head {V : List Char → Json → Prop} {cs : List Char}
    {fs : List (String × Json)} (h : Fields V cs fs) (rest : List Char) :
    ∃ cs', skipWs (encode (cs ++ rest)) = encode ('"' :: cs') := by
  have hfield : ∀ {cs : List Char} {f : String × Json}, Field V cs f → ∀ ds : List Char,
      ∃ cs', skipWs (encode (cs ++ ds)) = encode ('"' :: cs') := by
    intro cs f hf ds
    cases hf with
    | field hw hk hw' hu hv hu' =>
        cases hk with
        | quoted hbody =>
            simp only [List.append_assoc, List.cons_append]
            rw [skipWs_blank hw, skipWs_starts (by decide)]
            exact ⟨_, rfl⟩
  cases h with
  | last hf => exact hfield hf rest
  | more hf hfs =>
      rw [List.append_assoc]
      exact hfield hf _

/-- A list or an object is read where what it holds is. -/
theorem nested_complete {n depth : Nat} (hV : ReadAt (Value n) (depth + 1))
    (hdepth : depth + 1 ≤ maxDepth) {t : List Char} {v : Json} (h : Nested (Value n) t v)
    {fuel : Nat} (hfuel : t.length ≤ fuel + 1) (rest : List Char) :
    value (fuel + 1) depth (encode (t ++ rest)) = .ok (v, encode rest) := by
  have hopen : ∀ {b : UInt8} {c : Char}, String.utf8EncodeChar c = [b] → ∀ cs,
      encode (c :: cs) = b :: encode cs := by
    intro b c hc cs
    rw [encode_cons, hc, List.singleton_append]
  cases h with
  | emptyArray hw =>
      rw [List.cons_append, List.append_assoc, hopen (b := 0x5b) (by decide), value_bracket,
        nested, if_neg (by omega), skipWs_blank hw, List.singleton_append,
        skipWs_starts (by decide)]
      rfl
  | array hvs =>
      next cs vs =>
      rw [List.length_cons, List.length_append, List.length_singleton] at hfuel
      have hloop := arrayLoop_complete hV hvs rest fuel [] (by omega)
      -- the first item begins with no bracket, so the array is not taken for an
      -- empty one
      obtain ⟨c, cs', hc, hne⟩ := items_skipWs_head hvs (']' :: rest)
      rw [← arrayLoop_skipWs, hc] at hloop
      rw [List.cons_append, List.append_assoc, hopen (b := 0x5b) (by decide), value_bracket,
        nested, if_neg (by omega), List.singleton_append, hc]
      split
      · next heq =>
          obtain ⟨ds, hds, -⟩ := encode_eq_cons_ascii ']' (by decide) rfl heq
          exact absurd (List.cons.inj hds).1 hne
      · exact hloop
  | emptyObject hw =>
      rw [List.cons_append, List.append_assoc, hopen (b := 0x7b) (by decide), value_brace,
        nested, if_neg (by omega), skipWs_blank hw, List.singleton_append,
        skipWs_starts (by decide)]
      rfl
  | object hfs hdistinct =>
      next cs fs =>
      rw [List.length_cons, List.length_append, List.length_singleton] at hfuel
      have hloop := objectLoop_complete hV hfs rest fuel [] ∅ hdistinct
        (fun k _ => Finset.notMem_empty k) (by omega)
      obtain ⟨cs', hc⟩ := fields_skipWs_head hfs ('\x7d' :: rest)
      rw [← objectLoop_skipWs, hc] at hloop
      rw [List.cons_append, List.append_assoc, hopen (b := 0x7b) (by decide), value_brace,
        nested, if_neg (by omega), List.singleton_append, hc]
      exact hloop

/-- **Completeness**: a value of the grammar that is not too deep is read. -/
theorem value_complete : ∀ (n depth : Nat), depth + n ≤ maxDepth → ReadAt (Value n) depth := by
  intro n
  induction n with
  | zero =>
      intro depth _ t v h fuel rest hfuel hrest
      obtain ⟨c, cs, hcs, -⟩ := h.head
      rw [hcs, List.length_cons] at hfuel
      obtain ⟨fuel, rfl⟩ : ∃ f, fuel = f + 1 := ⟨fuel - 1, by omega⟩
      exact scalar_complete h hrest fuel depth
  | succ n ih =>
      intro depth hdepth t v h fuel rest hfuel hrest
      obtain ⟨c, cs, hcs, -⟩ := h.head
      obtain ⟨fuel, rfl⟩ : ∃ f, fuel = f + 1 := by
        rw [hcs, List.length_cons] at hfuel
        exact ⟨fuel - 1, by omega⟩
      rcases h with h | h
      · exact scalar_complete h hrest fuel depth
      · exact nested_complete (ih (depth + 1) (by omega)) (by omega) h hfuel rest

/-- A text of the grammar is parsed as the value the grammar gives it. -/
theorem parse_of_text {input : String} {v : Json} (h : Text input.toList v) :
    parse input = .ok v := by
  have hlen := length_le_length_encode input.toList
  have hbytes : asBytes input = encode input.toList := rfl
  rw [parse, hbytes, value_skipWs]
  generalize input.toList = cs at *
  cases h with
  | padded hw hv hw' =>
      next w t w' =>
      have hfuel : t.length ≤ 2 * (encode (w ++ t ++ w')).length + 1 := by
        rw [List.length_append, List.length_append] at hlen
        omega
      have hread := value_complete 128 0 (Nat.le_refl _) hv _ w' hfuel
        (by simpa using endsNumber_nil.blank hw')
      rw [List.append_assoc] at hread ⊢
      rw [value_led hw, hread]
      dsimp only
      have hend := skipWs_blank hw' []
      rw [List.append_nil] at hend
      rw [hend]
      rfl

/-- **The parser accepts the grammar**: on every text `parse` gives a value
    exactly when the grammar gives the text that value, and the error for text
    that is not UTF-8 is never met. -/
theorem parse_accepts_grammar (input : String) :
    (∀ v, parse input = .ok v ↔ Text input.toList v) ∧
      parse input ≠ .error "a string is not UTF-8" := by
  have hreads := parse_reads input
  constructor
  · intro v
    constructor
    · intro h
      rw [h] at hreads
      exact hreads
    · exact parse_of_text
  · intro h
    rw [h] at hreads
    exact hreads.1 rfl

end QCoreJsonAccept
