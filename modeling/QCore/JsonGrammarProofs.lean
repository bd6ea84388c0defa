import Mathlib
import QCore.Utf8Proofs
import QCore.JsonProofs

/-! # The grammar of the wire's JSON

    The texts `parse` is meant to accept, written down as a grammar over
    characters that knows nothing of bytes, positions or loops.  The scalars are
    one layer; the arrays and objects over any language of values are another;
    `Value n` stacks the second on the first `n` times.

    Soundness of the parser follows: what every parse step reads off the bytes of
    a text (`Reads`), whether it ends well or not, and from it what `parse`
    answers. -/

namespace QCoreJsonGrammar

open QCoreMachineInt QCoreUtf8 QCoreJson

/-! ## Scalars -/

/-- The characters that may stand between two tokens. -/
def isBlank (c : Char) : Bool := c == ' ' || c == '\t' || c == '\n' || c == '\r'

/-- Nothing but white space. -/
def Blank (w : List Char) : Prop := ∀ c ∈ w, isBlank c = true

/-- A digit's character, in either case. -/
def HexDigit (c : Char) (d : Nat) : Prop :=
  d < 16 ∧ (c = d.digitChar ∨ c = d.digitChar.toUpper)

/-- Four hexadecimal digits and the code they spell. -/
inductive Hex4 : List Char → Nat → Prop
  | digits {a b c d : Char} {i j k l : Nat} (ha : HexDigit a i) (hb : HexDigit b j)
      (hc : HexDigit c k) (hd : HexDigit d l) :
      Hex4 [a, b, c, d] (i * 4096 + j * 256 + k * 16 + l)

/-- What stands after a backslash, and the character it means.  A code that is a
    surrogate is no character, so it is only met in a pair. -/
inductive Escape : List Char → Char → Prop
  | quote : Escape ['"'] '"'
  | backslash : Escape ['\\'] '\\'
  | slash : Escape ['/'] '/'
  | newline : Escape ['n'] '\n'
  | carriageReturn : Escape ['r'] '\r'
  | tab : Escape ['t'] '\t'
  | backspace : Escape ['b'] '\x08'
  | formFeed : Escape ['f'] '\x0c'
  | code {hs : List Char} {c : Char} (hcode : Hex4 hs c.toNat) : Escape ('u' :: hs) c
  | pair {hs ls : List Char} {hi lo : Nat} {c : Char} (hhi : Hex4 hs hi) (hlo : Hex4 ls lo)
      (high : 0xD800 ≤ hi ∧ hi ≤ 0xDBFF) (low : 0xDC00 ≤ lo ∧ lo ≤ 0xDFFF)
      (hc : c.toNat = 0x10000 + (hi - 0xD800) * 0x400 + (lo - 0xDC00)) :
      Escape ('u' :: (hs ++ '\\' :: 'u' :: ls)) c

/-- A character a string carries as itself: not a quote, a backslash or a
    character below U+0020. -/
def isRaw (c : Char) : Bool := c != '"' && c != '\\' && 0x20 ≤ c.toNat

/-- What stands between the quotes of a string, and the characters it means. -/
inductive StringBody : List Char → List Char → Prop
  | nil : StringBody [] []
  | raw {c : Char} {cs s : List Char} (hc : isRaw c = true) (hcs : StringBody cs s) :
      StringBody (c :: cs) (c :: s)
  | escape {es cs s : List Char} {c : Char} (hc : Escape es c) (hcs : StringBody cs s) :
      StringBody ('\\' :: (es ++ cs)) (c :: s)

/-- A string with its quotes. -/
inductive StringText : List Char → String → Prop
  | quoted {body s : List Char} (h : StringBody body s) :
      StringText ('"' :: (body ++ ['"'])) (String.ofList s)

/-- A whole number below 2^64 in decimal, with no needless zero in front. -/
structure NumberText (cs : List Char) (n : U64) : Prop where
  nonempty : cs ≠ []
  digits : ∀ c ∈ cs, c.isDigit = true
  noLeadingZero : cs.head? = some '0' → cs = ['0']
  denotes : Nat.ofDigitChars 10 cs 0 = n.val

/-- The values that hold no other value. -/
inductive Scalar : List Char → Json → Prop
  | null : Scalar ['n', 'u', 'l', 'l'] .null
  | true : Scalar ['t', 'r', 'u', 'e'] (.bool true)
  | false : Scalar ['f', 'a', 'l', 's', 'e'] (.bool false)
  | int {cs : List Char} {n : U64} (h : NumberText cs n) : Scalar cs (.int n)
  | str {cs : List Char} {s : String} (h : StringText cs s) : Scalar cs (.str s)

/-! ## Arrays and objects -/

/-- The items of an array that is not empty. -/
inductive Items (V : List Char → Json → Prop) : List Char → List Json → Prop
  | last {w t w' : List Char} {v : Json} (hw : Blank w) (hv : V t v) (hw' : Blank w') :
      Items V (w ++ t ++ w') [v]
  | more {w t w' cs : List Char} {v : Json} {vs : List Json} (hw : Blank w) (hv : V t v)
      (hw' : Blank w') (hvs : Items V cs vs) :
      Items V (w ++ t ++ w' ++ ',' :: cs) (v :: vs)

/-- One field of an object: a key, a colon and a value. -/
inductive Field (V : List Char → Json → Prop) : List Char → String × Json → Prop
  | field {w k w' u t u' : List Char} {key : String} {v : Json} (hw : Blank w)
      (hk : StringText k key) (hw' : Blank w') (hu : Blank u) (hv : V t v) (hu' : Blank u') :
      Field V (w ++ k ++ w' ++ ':' :: (u ++ t ++ u')) (key, v)

/-- The fields of an object that is not empty. -/
inductive Fields (V : List Char → Json → Prop) : List Char → List (String × Json) → Prop
  | last {cs : List Char} {f : String × Json} (hf : Field V cs f) : Fields V cs [f]
  | more {cs ds : List Char} {f : String × Json} {fs : List (String × Json)}
      (hf : Field V cs f) (hfs : Fields V ds fs) : Fields V (cs ++ ',' :: ds) (f :: fs)

/-- The values that hold values of a language, with no key twice in an object. -/
inductive Nested (V : List Char → Json → Prop) : List Char → Json → Prop
  | emptyArray {w : List Char} (hw : Blank w) : Nested V ('[' :: (w ++ [']'])) (.array [])
  | array {cs : List Char} {vs : List Json} (hvs : Items V cs vs) :
      Nested V ('[' :: (cs ++ [']'])) (.array vs)
  | emptyObject {w : List Char} (hw : Blank w) :
      Nested V ('\x7b' :: (w ++ ['\x7d'])) (.object [])
  | object {cs : List Char} {fs : List (String × Json)} (hfs : Fields V cs fs)
      (distinct : (fs.map Prod.fst).Nodup) : Nested V ('\x7b' :: (cs ++ ['\x7d'])) (.object fs)

/-- The text of a value whose arrays and objects nest at most that deep. -/
def Value : Nat → List Char → Json → Prop
  | 0, t, v => Scalar t v
  | n + 1, t, v => Scalar t v ∨ Nested (Value n) t v

/-- A whole text: a value at most 128 deep with blanks around it. -/
inductive Text : List Char → Json → Prop
  | padded {w t w' : List Char} {v : Json} (hw : Blank w) (hv : Value 128 t v)
      (hw' : Blank w') : Text (w ++ t ++ w') v

theorem Scalar.value {t : List Char} {v : Json} (h : Scalar t v) (n : Nat) : Value n t v := by
  cases n with
  | zero => exact h
  | succ n => exact Or.inl h

/-! ## The first character of a value -/

/-- A character a value can start with. -/
def Starts (c : Char) : Prop := isBlank c = false ∧ c ≠ ']'

/-- A digit starts a value. -/
theorem starts_of_isDigit {c : Char} (h : c.isDigit = true) : Starts c := by
  have hne : ∀ d : Char, d.isDigit = false → c ≠ d := by
    intro d hd hcd
    rw [hcd, hd] at h
    exact Bool.noConfusion h
  refine ⟨?_, hne ']' (by decide)⟩
  simp [isBlank, hne ' ' (by decide), hne '\t' (by decide), hne '\n' (by decide),
    hne '\r' (by decide)]

/-- A scalar begins with a character that starts one. -/
theorem Scalar.head {t : List Char} {v : Json} (h : Scalar t v) :
    ∃ c cs, t = c :: cs ∧ Starts c := by
  cases h with
  | null => exact ⟨_, _, rfl, by decide, by decide⟩
  | true => exact ⟨_, _, rfl, by decide, by decide⟩
  | false => exact ⟨_, _, rfl, by decide, by decide⟩
  | int h =>
      obtain ⟨c, cs, rfl⟩ := List.exists_cons_of_ne_nil h.nonempty
      exact ⟨c, cs, rfl, starts_of_isDigit (h.digits c List.mem_cons_self)⟩
  | str h =>
      cases h with
      | quoted hbody => exact ⟨_, _, rfl, by decide, by decide⟩

/-- A list or an object begins with a character that starts a value. -/
theorem Nested.head {V : List Char → Json → Prop} {t : List Char} {v : Json}
    (h : Nested V t v) : ∃ c cs, t = c :: cs ∧ Starts c := by
  cases h with
  | emptyArray hw => exact ⟨_, _, rfl, by decide, by decide⟩
  | array hvs => exact ⟨_, _, rfl, by decide, by decide⟩
  | emptyObject hw => exact ⟨_, _, rfl, by decide, by decide⟩
  | object hfs hdistinct => exact ⟨_, _, rfl, by decide, by decide⟩

/-- A value starts with a character that is no blank and no closing bracket. -/
theorem Value.head {n : Nat} {t : List Char} {v : Json} (h : Value n t v) :
    ∃ c cs, t = c :: cs ∧ Starts c := by
  cases n with
  | zero => exact Scalar.head h
  | succ n =>
      rcases h with h | h
      · exact h.head
      · exact h.head

/-! ## Bytes and characters -/

theorem ne_of_high {b n : UInt8} (hb : 0x80 ≤ b) (hn : n.toNat < 128) : b ≠ n := by
  intro h
  rw [h, UInt8.le_iff_toNat_le] at hb
  exact absurd hb (Nat.not_le.mpr hn)

theorem char_ne_of_high {c d : Char} (hc : 128 ≤ c.toNat) (hd : d.toNat < 128) : c ≠ d := by
  intro h
  rw [h] at hc
  exact absurd hc (Nat.not_le.mpr hd)

/-- The bytes the parser skips are the blanks. -/
theorem space_agrees : Agrees isSpace isBlank := by
  refine agrees_of_ascii false (by decide) ?_ ?_
  · intro b hb
    have hne := fun n hn => ne_of_high (n := n) hb hn
    simp [isSpace, hne 0x20 (by decide), hne 0x09 (by decide), hne 0x0a (by decide),
      hne 0x0d (by decide)]
  · intro c hc
    have hne := fun d hd => char_ne_of_high (d := d) hc hd
    simp [isBlank, hne ' ' (by decide), hne '\t' (by decide), hne '\n' (by decide),
      hne '\r' (by decide)]

/-- The bytes of a string's plain run are the characters a string carries as
    themselves. -/
theorem plain_agrees : Agrees isPlain isRaw := by
  refine agrees_of_ascii true (by decide) ?_ ?_
  · intro b hb
    have h20 : (0x20 : UInt8) ≤ b := UInt8.le_trans (by decide) hb
    simp [isPlain, ne_of_high hb (n := 0x22) (by decide), ne_of_high hb (n := 0x5c) (by decide),
      h20]
  · intro c hc
    have h20 : 0x20 ≤ c.toNat := Nat.le_trans (by decide) hc
    simp [isRaw, char_ne_of_high hc (d := '"') (by decide),
      char_ne_of_high hc (d := '\\') (by decide), h20]

theorem digit_range {c : Char} (h : c.isDigit = true) : 48 ≤ c.toNat ∧ c.toNat ≤ 57 := by
  simp only [Char.isDigit, Bool.and_eq_true, decide_eq_true_eq] at h
  exact ⟨h.1, h.2⟩

/-- A digit is the same in characters and in bytes. -/
theorem digit_agrees : Agrees isDigit Char.isDigit := by
  refine agrees_of_ascii false (by decide) ?_ ?_
  · intro b hb
    have h39 : ¬ b ≤ 0x39 := by
      rw [UInt8.le_iff_toNat_le] at hb ⊢
      exact Nat.not_le.mpr (Nat.lt_of_lt_of_le (by decide) hb)
    simp [isDigit, h39]
  · intro c hc
    cases h : c.isDigit with
    | false => rfl
    | true => exact absurd (digit_range h).2 (by omega)

/-! ## What a parse step reads -/

/-- An error a text can really end in. -/
def Genuine (e : String) : Prop := e ≠ "a string is not UTF-8" ∧ e ≠ outOfFuel

/-- **What a parse step on the bytes of a text reads**: the value of a prefix in
    the language, with the bytes of what comes after it, or a genuine error. -/
def Reads {α : Type} (G : List Char → α → Prop) (cs : List Char) : Parsed α → Prop
  | .ok (a, rest) => ∃ t cs', cs = t ++ cs' ∧ rest = encode cs' ∧ G t a
  | .error e => Genuine e

/-- A step after some characters, read together with them. -/
theorem Reads.after {α : Type} {G H : List Char → α → Prop} {cs : List Char} {p : Parsed α}
    (h : Reads G cs p) {w : List Char} (hmap : ∀ t a, G t a → H (w ++ t) a) :
    Reads H (w ++ cs) p := by
  cases p with
  | error e => exact h
  | ok r =>
      obtain ⟨a, rest⟩ := r
      obtain ⟨t, cs', hcs, hrest, hg⟩ := h
      exact ⟨w ++ t, cs', by rw [hcs, List.append_assoc], hrest, hmap t a hg⟩

theorem Reads.mono {α : Type} {G H : List Char → α → Prop} {cs : List Char} {p : Parsed α}
    (h : Reads G cs p) (hmap : ∀ t a, G t a → H t a) : Reads H cs p :=
  h.after (w := []) hmap

theorem skipWs_encode (cs : List Char) :
    ∃ w cs', cs = w ++ cs' ∧ Blank w ∧ skipWs (encode cs) = encode cs' :=
  ⟨cs.takeWhile isBlank, cs.dropWhile isBlank, List.takeWhile_append_dropWhile.symm,
    fun _ hc => List.mem_takeWhile_imp hc, space_agrees.dropWhile_encode cs⟩

/-! ## Strings -/

instance hexDigit_decidable (c : Char) (d : Nat) : Decidable (HexDigit c d) :=
  inferInstanceAs (Decidable (_ ∧ _))

/-- A byte read as a hexadecimal digit is one's character. -/
theorem hexDigit_ascii : ∀ n : Fin 128, ∀ d ∈ hexDigit (UInt8.ofNat n.val),
    HexDigit (Char.ofNat n.val) d := by
  decide

/-- A byte above ASCII is no digit. -/
theorem hexDigit_high {b : UInt8} (hb : 0x80 ≤ b) : hexDigit b = none := by
  have hle : ∀ n : UInt8, n.toNat < 128 → ¬ b ≤ n := by
    intro n hn
    rw [UInt8.le_iff_toNat_le] at hb ⊢
    exact Nat.not_le.mpr (Nat.lt_of_lt_of_le hn hb)
  simp [hexDigit, hle 0x39 (by decide), hle 0x66 (by decide), hle 0x46 (by decide)]

/-- One turn of the digit loop takes a character that is a digit, or ends. -/
theorem hexDigits_encode (n code : Nat) (cs : List Char) :
    (∃ c d cs', cs = c :: cs' ∧ HexDigit c d ∧
      hexDigits (n + 1) code (encode cs) = hexDigits n (code * 16 + d) (encode cs')) ∨
    hexDigits (n + 1) code (encode cs) = .error "bad unicode escape" := by
  cases cs with
  | nil => exact Or.inr rfl
  | cons c cs =>
      by_cases hc : c.toNat < 128
      · rw [encode_cons, utf8EncodeChar_ascii hc, List.singleton_append, hexDigits]
        cases hd : hexDigit (UInt8.ofNat c.toNat) with
        | none => exact Or.inr rfl
        | some d =>
            have h := hexDigit_ascii ⟨c.toNat, hc⟩ d hd
            rw [Char.ofNat_toNat] at h
            exact Or.inl ⟨c, d, cs, rfl, h, rfl⟩
      · right
        obtain ⟨b, bs, hb⟩ := utf8EncodeChar_eq_cons c
        have hbig := utf8EncodeChar_high (Nat.not_lt.mp hc) b (by rw [hb]; simp)
        rw [encode_cons, hb, List.cons_append, hexDigits, hexDigit_high hbig]

theorem genuine_badEscape : Genuine "bad unicode escape" := ⟨by simp, by simp [outOfFuel]⟩

/-- What is read as four digits is four digits. -/
theorem hex4_reads (cs : List Char) : Reads Hex4 cs (hex4 (encode cs)) := by
  rw [hex4]
  rcases hexDigits_encode 3 0 cs with ⟨a, i, cs1, rfl, ha, h1⟩ | herr
  · rcases hexDigits_encode 2 (0 * 16 + i) cs1 with ⟨b, j, cs2, rfl, hb, h2⟩ | herr
    · rcases hexDigits_encode 1 ((0 * 16 + i) * 16 + j) cs2 with ⟨c, k, cs3, rfl, hc, h3⟩ | herr
      · rcases hexDigits_encode 0 (((0 * 16 + i) * 16 + j) * 16 + k) cs3 with
          ⟨d, l, cs4, rfl, hd, h4⟩ | herr
        · rw [h1, h2, h3, h4, hexDigits]
          refine ⟨[a, b, c, d], cs4, rfl, rfl, ?_⟩
          have hcode : (((0 * 16 + i) * 16 + j) * 16 + k) * 16 + l
              = i * 4096 + j * 256 + k * 16 + l := by omega
          rw [hcode]
          exact .digits ha hb hc hd
        · rw [h1, h2, h3, herr]; exact genuine_badEscape
      · rw [h1, h2, herr]; exact genuine_badEscape
    · rw [h1, herr]; exact genuine_badEscape
  · rw [herr]; exact genuine_badEscape

/-- A code point read as a character. -/
theorem codePoint_reads {G : List Char → Char → Prop} {t cs : List Char} {code : Nat}
    (hg : ∀ c : Char, c.toNat = code → G t c) :
    Reads G (t ++ cs) (codePoint code (encode cs)) := by
  rw [codePoint, charFromU32]
  by_cases hv : code.isValidChar
  · rw [if_pos hv]
    refine ⟨t, cs, rfl, rfl, hg _ ?_⟩
    rw [Char.ofNat, dif_pos hv]
    rfl
  · rw [if_neg hv]
    exact ⟨by simp, by simp [outOfFuel]⟩

/-- **What follows `\u` is read as the grammar has it**, a surrogate pair
    included. -/
theorem unicodeChar_reads (cs : List Char) :
    Reads (fun t c => Escape ('u' :: t) c) cs (unicodeChar (encode cs)) := by
  have hhi := hex4_reads cs
  rw [unicodeChar]
  cases h : hex4 (encode cs) with
  | error e => rw [h] at hhi; exact hhi
  | ok r =>
      obtain ⟨hi, rest⟩ := r
      rw [h] at hhi
      obtain ⟨hs, cs1, rfl, rfl, hhs⟩ := hhi
      show Reads _ _ (if 0xD800 ≤ hi ∧ hi ≤ 0xDBFF then _ else _)
      by_cases high : 0xD800 ≤ hi ∧ hi ≤ 0xDBFF
      · rw [if_pos high]
        split
        · next rest heq =>
            obtain ⟨cs2, rfl, heq'⟩ := encode_eq_cons_ascii '\\' (by decide) rfl heq
            obtain ⟨cs3, rfl, rfl⟩ := encode_eq_cons_ascii 'u' (by decide) rfl heq'.symm
            have hlo := hex4_reads cs3
            cases h' : hex4 (encode cs3) with
            | error e => rw [h'] at hlo; exact hlo
            | ok r =>
                obtain ⟨lo, rest⟩ := r
                rw [h'] at hlo
                obtain ⟨ls, cs4, rfl, rfl, hls⟩ := hlo
                show Reads _ _ (if 0xDC00 ≤ lo ∧ lo ≤ 0xDFFF then _ else _)
                by_cases low : 0xDC00 ≤ lo ∧ lo ≤ 0xDFFF
                · rw [if_pos low]
                  have hsplit : hs ++ '\\' :: 'u' :: (ls ++ cs4)
                      = (hs ++ '\\' :: 'u' :: ls) ++ cs4 := by simp
                  have hpair : ∀ c : Char,
                      c.toNat = 0x10000 + (hi - 0xD800) * 1024 + (lo - 0xDC00) →
                      Escape ('u' :: (hs ++ '\\' :: 'u' :: ls)) c := by
                    intro c hc
                    exact Escape.pair hhs hls high low hc
                  rw [hsplit]
                  -- unifying two large sums of numerals runs too deep
                  generalize 0x10000 + (hi - 0xD800) * 1024 + (lo - 0xDC00) = code at hpair ⊢
                  exact codePoint_reads hpair
                · rw [if_neg low]
                  exact ⟨by decide +kernel, by simp [outOfFuel]⟩
        · exact ⟨by simp, by simp [outOfFuel]⟩
      · rw [if_neg high]
        by_cases low : 0xDC00 ≤ hi ∧ hi ≤ 0xDFFF
        · rw [if_pos low]
          exact ⟨by simp, by simp [outOfFuel]⟩
        · rw [if_neg low]
          exact codePoint_reads fun c hc => .code (hc.symm ▸ hhs)

/-- What is read as an escape is one. -/
theorem escape_reads (cs : List Char) : Reads Escape cs (escape (encode cs)) := by
  have hone : ∀ {b : UInt8} {rest : List UInt8} (c d : Char), c.toNat < 128 →
      b = UInt8.ofNat c.toNat → encode cs = b :: rest → Escape [c] d →
      Reads Escape cs (.ok (d, rest)) := by
    intro b rest c d hc hb h he
    obtain ⟨cs', rfl, rfl⟩ := encode_eq_cons_ascii c hc hb h
    exact ⟨[c], cs', rfl, rfl, he⟩
  unfold escape
  split
  · next h => exact hone '"' _ (by decide) rfl h .quote
  · next h => exact hone '\\' _ (by decide) rfl h .backslash
  · next h => exact hone '/' _ (by decide) rfl h .slash
  · next h => exact hone 'n' _ (by decide) rfl h .newline
  · next h => exact hone 'r' _ (by decide) rfl h .carriageReturn
  · next h => exact hone 't' _ (by decide) rfl h .tab
  · next h => exact hone 'b' _ (by decide) rfl h .backspace
  · next h => exact hone 'f' _ (by decide) rfl h .formFeed
  · next h =>
      obtain ⟨cs', rfl, rfl⟩ := encode_eq_cons_ascii 'u' (by decide) rfl h
      exact (unicodeChar_reads cs').after (w := ['u']) fun t c he => he
  · exact ⟨by simp, by simp [outOfFuel]⟩

/-- Plain characters in front of a body stand for themselves. -/
theorem StringBody.raw_append {run cs s : List Char} (hrun : ∀ c ∈ run, isRaw c = true)
    (h : StringBody cs s) : StringBody (run ++ cs) (run ++ s) := by
  induction run with
  | nil => exact h
  | cons c run ih =>
      have hc := hrun c List.mem_cons_self
      exact .raw hc (ih fun d hd => hrun d (List.mem_cons_of_mem _ hd))

/-- **The string loop reads a body and its closing quote**, whatever it has
    already. -/
theorem stringLoop_reads : ∀ (fuel : Nat) (s : String) (cs : List Char), cs.length < fuel →
    Reads (fun t r => ∃ body str, t = body ++ ['"'] ∧ StringBody body str ∧
      r = s ++ String.ofList str) cs (stringLoop fuel s (encode cs)) := by
  intro fuel
  induction fuel with
  | zero => intro s cs hfuel; exact absurd hfuel (Nat.not_lt_zero _)
  | succ fuel ih =>
      intro s cs hfuel
      have hsplit := List.takeWhile_append_dropWhile (p := isRaw) (l := cs)
      have hrun : ∀ c ∈ cs.takeWhile isRaw, isRaw c = true := fun c hc =>
        List.mem_takeWhile_imp hc
      rw [stringLoop, plain_agrees.takeWhile_encode, plain_agrees.dropWhile_encode, fromUtf8,
        fromUTF8?_encode]
      -- the raw characters the loop runs over, and what stopped it
      generalize cs.takeWhile isRaw = run at hsplit hrun
      generalize cs.dropWhile isRaw = after at hsplit
      subst hsplit
      dsimp only
      split
      · next heq =>
          obtain ⟨cs', rfl, rfl⟩ := encode_eq_cons_ascii '"' (by decide) rfl heq
          refine ⟨run ++ ['"'], cs', by simp, rfl, run, run, rfl, ?_, rfl⟩
          have hbody := StringBody.raw_append hrun .nil
          rwa [List.append_nil] at hbody
      · next heq =>
          obtain ⟨cs', rfl, rfl⟩ := encode_eq_cons_ascii '\\' (by decide) rfl heq
          have hesc := escape_reads cs'
          cases h : escape (encode cs') with
          | error e => rw [h] at hesc; exact hesc
          | ok r =>
              obtain ⟨c, rest⟩ := r
              rw [h] at hesc
              obtain ⟨es, ds, rfl, rfl, he⟩ := hesc
              have hlen : ds.length < fuel := by
                simp only [List.length_append, List.length_cons] at hfuel
                omega
              have hrec := ih ((s ++ String.ofList run).push c) ds hlen
              have hcs : run ++ '\\' :: (es ++ ds) = (run ++ '\\' :: es) ++ ds := by simp
              rw [hcs]
              refine hrec.after ?_
              rintro t r ⟨body, str, rfl, hbody, rfl⟩
              refine ⟨run ++ '\\' :: (es ++ body), run ++ c :: str, by simp, ?_, ?_⟩
              · exact StringBody.raw_append hrun (.escape he hbody)
              · apply String.ext
                simp
      · exact ⟨by simp, by simp [outOfFuel]⟩
      · exact ⟨by simp, by simp [outOfFuel]⟩

/-- What is read as a string is one. -/
theorem string_reads (cs : List Char) :
    Reads StringText ('"' :: cs) (string (0x22 :: encode cs)) := by
  have hlen := length_le_length_encode cs
  have h := stringLoop_reads ((encode cs).length + 2) "" cs (by omega)
  refine h.after (w := ['"']) ?_
  rintro t r ⟨body, str, rfl, hbody, rfl⟩
  have hempty : "" ++ String.ofList str = String.ofList str := by simp
  rw [hempty]
  exact .quoted hbody

/-! ## Numbers and words -/

/-- The byte of an ASCII character. -/
def asciiByte (c : Char) : UInt8 := UInt8.ofNat c.toNat

theorem asciiByte_toNat {c : Char} (h : c.toNat < 128) :
    (asciiByte c).toNat = c.toNat := by
  rw [asciiByte, UInt8.toNat_ofNat', Nat.mod_eq_of_lt (by omega)]

/-- Digits are one byte each. -/
theorem encode_digits {cs : List Char} (h : ∀ c ∈ cs, c.isDigit = true) :
    encode cs = cs.map asciiByte := by
  induction cs with
  | nil => rfl
  | cons c cs ih =>
      have hc := digit_range (h c List.mem_cons_self)
      rw [encode_cons, List.map_cons,
        ih (fun d hd => h d (List.mem_cons_of_mem _ hd)), utf8EncodeChar_ascii (by omega)]
      rfl

/-- The digits of a decimal text denote its number. -/
theorem decimalValue_encode {cs : List Char} (h : ∀ c ∈ cs, c.isDigit = true) :
    decimalValue (encode cs) = Nat.ofDigitChars 10 cs 0 := by
  have hgen : ∀ (cs : List Char), (∀ c ∈ cs, c.isDigit = true) → ∀ acc : Nat,
      (cs.map asciiByte).foldl (fun acc c => acc * 10 + (c.toNat - 0x30)) acc
        = Nat.ofDigitChars 10 cs acc := by
    intro cs
    induction cs with
    | nil => intro _ acc; rfl
    | cons c cs ih =>
        intro h acc
        have hc := digit_range (h c List.mem_cons_self)
        have hn := asciiByte_toNat (c := c) (by omega)
        rw [List.map_cons, List.foldl_cons,
          ih (fun d hd => h d (List.mem_cons_of_mem _ hd)), Nat.ofDigitChars_cons, hn,
          Nat.mul_comm acc 10]
        rfl
  rw [encode_digits h]
  exact hgen cs h 0

/-- A run of digits is a 64-bit number when it has one and it is in range. -/
theorem parseU64_encode {cs : List Char} (h : ∀ c ∈ cs, c.isDigit = true) (n : U64) :
    parseU64 (encode cs) = some n ↔ cs ≠ [] ∧ Nat.ofDigitChars 10 cs 0 = n.val := by
  have hall : (encode cs).all isDigit = true :=
    List.all_eq_true.mpr (digit_agrees.encode_inside h)
  have hne : encode cs ≠ [] ↔ cs ≠ [] := by
    rw [encode_digits h, ne_eq, List.map_eq_nil_iff]
  rw [parseU64, decimalValue_encode h]
  by_cases hcs : cs = []
  · simp [hcs]
  · rw [if_pos ⟨hne.mpr hcs, hall⟩, tryFrom_eq_some]
    simp [hcs]

/-- Without a sign the bytes of a number are its digits. -/
theorem numberText_encode {cs : List Char} (h : cs.head? ≠ some '-') :
    numberText (encode cs) = encode (cs.takeWhile Char.isDigit) := by
  unfold numberText
  split
  · next heq =>
      obtain ⟨cs', rfl, -⟩ := encode_eq_cons_ascii '-' (by decide) rfl heq
      exact absurd rfl h
  · exact digit_agrees.takeWhile_encode cs

/-- The errors of a number quote its text. -/
theorem genuine_quoted (shown after : String) :
    Genuine (toString "'" ++ toString shown ++ toString after) := by
  have hne : ∀ e : String, e.toList.head? ≠ some '\'' →
      toString "'" ++ toString shown ++ toString after ≠ e := by
    intro e he h
    refine he ?_
    rw [← h]
    simp [toString, String.toList_append]
  exact ⟨hne _ (by decide), hne _ (by decide)⟩

/-- **A number is read as the grammar has it.** -/
theorem number_reads (cs : List Char) :
    Reads (fun t v => ∃ n, v = .int n ∧ NumberText t n) cs (number (encode cs)) := by
  rw [number]
  split
  · exact genuine_quoted _ _
  split
  · exact genuine_quoted _ _
  next hzero =>
  split
  · next n hparse =>
      by_cases hsign : cs.head? = some '-'
      · -- a sign is no digit
        obtain ⟨tl, htext⟩ : ∃ tl, numberText (encode cs) = 0x2d :: tl := by
          obtain ⟨ds, rfl⟩ := List.head?_eq_some_iff.mp hsign
          exact ⟨_, rfl⟩
        have hnone : parseU64 (0x2d :: tl) = none := by
          have hminus : isDigit 0x2d = false := by decide
          rw [parseU64, List.all_cons, hminus]
          simp
        rw [htext, hnone] at hparse
        cases hparse
      · have htext := numberText_encode hsign
        have hdig : ∀ c ∈ cs.takeWhile Char.isDigit, c.isDigit = true := fun c hc =>
          List.mem_takeWhile_imp hc
        rw [htext] at hparse hzero ⊢
        rw [parseU64_encode hdig] at hparse
        have hsplit := List.takeWhile_append_dropWhile (p := Char.isDigit) (l := cs)
        generalize cs.takeWhile Char.isDigit = ds at *
        generalize cs.dropWhile Char.isDigit = after at *
        subst hsplit
        rw [encode_append, List.drop_left]
        refine ⟨ds, after, rfl, rfl, n, rfl, hparse.1, hdig, ?_, hparse.2⟩
        intro hhead
        rw [encode_digits hdig, List.length_map, List.head?_map, hhead] at hzero
        obtain ⟨tl, rfl⟩ := List.head?_eq_some_iff.mp hhead
        have hlen : ¬ 1 < ('0' :: tl).length := fun h => hzero ⟨h, rfl⟩
        rw [List.length_cons] at hlen
        rw [List.length_eq_zero_iff.mp (by omega : tl.length = 0)]
  · exact genuine_quoted _ _

/-- A word of ASCII characters at the head of a text. -/
theorem literal_encode {word : List Char} (hword : ∀ c ∈ word, c.toNat < 128) :
    ∀ {cs : List Char} {rest : List UInt8}, literal (encode word) (encode cs) = some rest →
      ∃ cs', cs = word ++ cs' ∧ rest = encode cs' := by
  have hgen : ∀ (word : List Char), (∀ c ∈ word, c.toNat < 128) → ∀ (cs : List Char),
      encode word <+: encode cs → ∃ cs', cs = word ++ cs' := by
    intro word
    induction word with
    | nil => intro _ cs _; exact ⟨cs, rfl⟩
    | cons c word ih =>
        intro hword cs hpre
        have hc := hword c List.mem_cons_self
        rw [encode_cons, utf8EncodeChar_ascii hc, List.singleton_append] at hpre
        obtain ⟨rest, hrest⟩ := hpre
        obtain ⟨cs', rfl, hcs'⟩ := encode_eq_cons_ascii c hc rfl hrest.symm
        obtain ⟨ds, rfl⟩ := ih (fun d hd => hword d (List.mem_cons_of_mem _ hd)) cs' ⟨rest, hcs'⟩
        exact ⟨ds, rfl⟩
  intro cs rest h
  rw [literal] at h
  split at h
  · next hpre =>
      obtain ⟨cs', rfl⟩ := hgen word hword cs (List.isPrefixOf_iff_prefix.mp hpre)
      rw [encode_append, List.drop_left] at h
      exact ⟨cs', rfl, (Option.some.inj h).symm⟩
  · cases h

/-- What is read as a boolean is one. -/
theorem boolean_reads (cs : List Char) : Reads Scalar cs (boolean (encode cs)) := by
  have htrue : asBytes "true" = encode ['t', 'r', 'u', 'e'] := by decide
  have hfalse : asBytes "false" = encode ['f', 'a', 'l', 's', 'e'] := by decide
  rw [boolean, htrue, hfalse]
  split
  · next h =>
      obtain ⟨cs', rfl, rfl⟩ := literal_encode (by simp) h
      exact ⟨_, cs', rfl, rfl, .true⟩
  split
  · next h =>
      obtain ⟨cs', rfl, rfl⟩ := literal_encode (by simp) h
      exact ⟨_, cs', rfl, rfl, .false⟩
  · exact ⟨by simp, by simp [outOfFuel]⟩

/-- What is read as null is null. -/
theorem null_reads (cs : List Char) : Reads Scalar cs (null (encode cs)) := by
  have hnull : asBytes "null" = encode ['n', 'u', 'l', 'l'] := by decide
  rw [null, hnull]
  split
  · next h =>
      obtain ⟨cs', rfl, rfl⟩ := literal_encode (by simp) h
      exact ⟨_, cs', rfl, rfl, .null⟩
  · exact ⟨by simp, by simp [outOfFuel]⟩

/-! ## Values, items and fields -/

/-- A value with blanks before it. -/
inductive Led (V : List Char → Json → Prop) : List Char → Json → Prop
  | led {w t : List Char} {v : Json} (hw : Blank w) (hv : V t v) : Led V (w ++ t) v

/-- What the array loop reads: the items to come and the closing bracket. -/
inductive ArrayTail (V : List Char → Json → Prop) (items : List Json) : List Char → Json → Prop
  | tail {cs : List Char} {vs : List Json} (hvs : Items V cs vs) :
      ArrayTail V items (cs ++ [']']) (.array (items ++ vs))

/-- What the object loop reads: the fields to come and the closing brace. -/
inductive ObjectTail (V : List Char → Json → Prop) (fields : List (String × Json)) :
    List Char → Json → Prop
  | tail {cs : List Char} {fs : List (String × Json)} (hfs : Fields V cs fs)
      (distinct : ((fields ++ fs).map Prod.fst).Nodup) :
      ObjectTail V fields (cs ++ ['\x7d']) (.object (fields ++ fs))

theorem genuine_expected : Genuine "expected a JSON value" := ⟨by simp, by simp [outOfFuel]⟩

theorem Blank.append {w w' : List Char} (hw : Blank w) (hw' : Blank w') : Blank (w ++ w') := by
  intro c hc
  rcases List.mem_append.mp hc with h | h
  · exact hw c h
  · exact hw' c h

/-- Blanks may be put before the items. -/
theorem Items.led {V : List Char → Json → Prop} {u cs : List Char} {vs : List Json}
    (hu : Blank u) (h : Items V cs vs) : Items V (u ++ cs) vs := by
  cases h with
  | last hw hv hw' =>
      rw [← List.append_assoc, ← List.append_assoc]
      exact .last (hu.append hw) hv hw'
  | more hw hv hw' hvs =>
      rw [← List.append_assoc, ← List.append_assoc, ← List.append_assoc]
      exact .more (hu.append hw) hv hw' hvs

/-- Blanks may stand before a field. -/
theorem Field.led {V : List Char → Json → Prop} {x cs : List Char} {f : String × Json}
    (hx : Blank x) (h : Field V cs f) : Field V (x ++ cs) f := by
  cases h with
  | field hw hk hw' hu hv hu' =>
      rw [← List.append_assoc, ← List.append_assoc, ← List.append_assoc]
      exact .field (hx.append hw) hk hw' hu hv hu'

/-- Blanks may be put before the fields. -/
theorem Fields.led {V : List Char → Json → Prop} {x cs : List Char}
    {fs : List (String × Json)} (hx : Blank x) (h : Fields V cs fs) : Fields V (x ++ cs) fs := by
  cases h with
  | last hf => exact .last (hf.led hx)
  | more hf hfs =>
      rw [← List.append_assoc]
      exact .more (hf.led hx) hfs

/-- One level down, a value at most `n + 1` deep holds values at most `n` deep. -/
theorem nested_reads {n depth : Nat} (hn : depth + n = maxDepth) {cs : List Char}
    {p : Nat → List UInt8 → Parsed Json} {rest : List UInt8}
    (hp : ∀ m, n = m + 1 → Reads (Nested (Value m)) cs (p (depth + 1) rest)) :
    Reads (Value n) cs (nested p depth rest) := by
  rw [nested]
  cases n with
  | zero =>
      rw [if_pos (by omega)]
      exact ⟨by simp, by simp [outOfFuel]⟩
  | succ m =>
      rw [if_neg (by omega)]
      exact (hp m rfl).mono fun t v h => Or.inr h

/-- One turn of `value`: the byte after the blanks says which kind it reads. -/
theorem value_reads {fuel n depth : Nat} (hn : depth + n = maxDepth)
    (harray : ∀ m, n = m + 1 → ∀ cs : List Char, 2 * cs.length + 2 ≤ fuel →
      Reads (ArrayTail (Value m) []) cs (arrayLoop fuel (depth + 1) [] (encode cs)))
    (hobject : ∀ m, n = m + 1 → ∀ cs : List Char, 2 * cs.length + 2 ≤ fuel →
      Reads (ObjectTail (Value m) []) cs (objectLoop fuel (depth + 1) [] ∅ (encode cs)))
    {cs : List Char} (hfuel : 2 * cs.length ≤ fuel) :
    Reads (Led (Value n)) cs (value (fuel + 1) depth (encode cs)) := by
  obtain ⟨w, cs1, rfl, hw, hskip⟩ := skipWs_encode cs
  rw [List.length_append] at hfuel
  have hlead : ∀ {p : Parsed Json}, Reads (Value n) cs1 p →
      Reads (Led (Value n)) (w ++ cs1) p := fun h => h.after fun t v hv => .led hw hv
  have hscalar : ∀ {p : Parsed Json}, Reads Scalar cs1 p → Reads (Value n) cs1 p :=
    fun h => h.mono fun t v hv => hv.value n
  rw [value, hskip]
  refine hlead ?_
  split
  · -- an object
    next heq =>
      obtain ⟨cs2, rfl, rfl⟩ := encode_eq_cons_ascii '\x7b' (by decide) rfl heq
      obtain ⟨w2, cs3, rfl, hw2, hskip2⟩ := skipWs_encode cs2
      rw [List.length_cons, List.length_append] at hfuel
      refine nested_reads hn ?_
      intro m hm
      rw [hskip2]
      split
      · next heq2 =>
          obtain ⟨cs4, rfl, rfl⟩ := encode_eq_cons_ascii '\x7d' (by decide) rfl heq2
          exact ⟨'\x7b' :: (w2 ++ ['\x7d']), cs4, by simp, rfl, .emptyObject hw2⟩
      · have h := (hobject m hm cs3 (by omega)).after (w := '\x7b' :: w2)
          (H := Nested (Value m))
        refine h ?_
        rintro t v ⟨hfs, hdistinct⟩
        have htext := Nested.object (hfs.led hw2) hdistinct
        rw [List.append_assoc] at htext
        exact htext
  · -- an array
    next heq =>
      obtain ⟨cs2, rfl, rfl⟩ := encode_eq_cons_ascii '[' (by decide) rfl heq
      obtain ⟨w2, cs3, rfl, hw2, hskip2⟩ := skipWs_encode cs2
      rw [List.length_cons, List.length_append] at hfuel
      refine nested_reads hn ?_
      intro m hm
      rw [hskip2]
      split
      · next heq2 =>
          obtain ⟨cs4, rfl, rfl⟩ := encode_eq_cons_ascii ']' (by decide) rfl heq2
          exact ⟨'[' :: (w2 ++ [']']), cs4, by simp, rfl, .emptyArray hw2⟩
      · have h := (harray m hm cs3 (by omega)).after (w := '[' :: w2)
          (H := Nested (Value m))
        refine h ?_
        rintro t v ⟨hvs⟩
        have htext := Nested.array (hvs.led hw2)
        rw [List.append_assoc] at htext
        exact htext
  · -- a string
    next heq =>
      obtain ⟨cs2, rfl, rfl⟩ := encode_eq_cons_ascii '"' (by decide) rfl heq
      have hstr := string_reads cs2
      refine hscalar ?_
      cases h : string (0x22 :: encode cs2) with
      | error e => rw [h] at hstr; exact hstr
      | ok r =>
          rw [h] at hstr
          obtain ⟨t, cs3, hcs, hrest, hs⟩ := hstr
          exact ⟨t, cs3, hcs, hrest, .str hs⟩
  · -- a word or a number
    next heq =>
      rw [← heq]
      refine hscalar ?_
      split
      · exact boolean_reads cs1
      split
      · exact null_reads cs1
      split
      · refine (number_reads cs1).mono ?_
        rintro t v ⟨n, rfl, hnum⟩
        exact .int hnum
      · exact genuine_expected
  · exact genuine_expected

/-- One turn of the array loop: an item, then a comma and more or the bracket. -/
theorem arrayLoop_reads {fuel n depth : Nat} {items : List Json} {cs : List Char}
    (hvalue : Reads (Led (Value n)) cs (value fuel depth (encode cs)))
    (hloop : ∀ (items : List Json) (cs' : List Char), cs'.length < cs.length →
      Reads (ArrayTail (Value n) items) cs' (arrayLoop fuel depth items (encode cs'))) :
    Reads (ArrayTail (Value n) items) cs (arrayLoop (fuel + 1) depth items (encode cs)) := by
  rw [arrayLoop]
  cases h : value fuel depth (encode cs) with
  | error e => rw [h] at hvalue; exact hvalue
  | ok r =>
      obtain ⟨v, rest⟩ := r
      rw [h] at hvalue
      obtain ⟨t, cs1, rfl, rfl, ⟨hw, hv⟩⟩ := hvalue
      next w t =>
      obtain ⟨w', cs2, rfl, hw', hskip⟩ := skipWs_encode cs1
      dsimp only
      rw [hskip]
      split
      · next heq =>
          obtain ⟨cs3, rfl, rfl⟩ := encode_eq_cons_ascii ',' (by decide) rfl heq
          have hlen : cs3.length < (w ++ t ++ (w' ++ ',' :: cs3)).length := by
            simp only [List.length_append, List.length_cons]
            omega
          -- the items after the comma are read with this one in front
          have hrec := hloop (items ++ [v]) cs3 hlen
          have hcs : w ++ t ++ (w' ++ ',' :: cs3) = (w ++ t ++ w' ++ [',']) ++ cs3 := by simp
          rw [hcs]
          refine hrec.after ?_
          rintro t' v' ⟨hvs⟩
          have htext : ArrayTail (Value n) items _ _ := .tail (Items.more hw hv hw' hvs)
          simpa using htext
      · next heq =>
          obtain ⟨cs3, rfl, rfl⟩ := encode_eq_cons_ascii ']' (by decide) rfl heq
          exact ⟨w ++ t ++ w' ++ [']'], cs3, by simp, rfl, .tail (.last hw hv hw')⟩
      · exact ⟨by simp, by simp [outOfFuel]⟩

/-- One turn of the object loop: a new key, a colon and a value, then a comma and
    more or the brace. -/
theorem objectLoop_reads {fuel n depth : Nat} {fields : List (String × Json)}
    {seen : Finset String} {cs : List Char} (hseen : ∀ k, k ∈ seen ↔ k ∈ fields.map Prod.fst)
    (hnodup : (fields.map Prod.fst).Nodup)
    (hvalue : ∀ cs' : List Char, cs'.length < cs.length →
      Reads (Led (Value n)) cs' (value fuel depth (encode cs')))
    (hloop : ∀ (fields : List (String × Json)) (seen : Finset String) (cs' : List Char),
      (∀ k, k ∈ seen ↔ k ∈ fields.map Prod.fst) → (fields.map Prod.fst).Nodup →
      cs'.length < cs.length →
      Reads (ObjectTail (Value n) fields) cs' (objectLoop fuel depth fields seen (encode cs'))) :
    Reads (ObjectTail (Value n) fields) cs
      (objectLoop (fuel + 1) depth fields seen (encode cs)) := by
  obtain ⟨w, cs1, rfl, hw, hskip⟩ := skipWs_encode cs
  rw [objectLoop, hskip]
  split
  · next heq =>
      obtain ⟨cs2, rfl, rfl⟩ := encode_eq_cons_ascii '"' (by decide) rfl heq
      have hstr := string_reads cs2
      -- a key, which must be new
      cases h : string (0x22 :: encode cs2) with
      | error e => rw [h] at hstr; exact hstr
      | ok r =>
          obtain ⟨key, rest⟩ := r
          rw [h] at hstr
          obtain ⟨k, cs3, hcs3, rfl, hk⟩ := hstr
          rw [hcs3] at hvalue hloop ⊢
          dsimp only
          split
          · exact ⟨by simp, by simp [outOfFuel]⟩
          next hnew =>
          have hnew' : key ∉ fields.map Prod.fst := fun hmem => hnew ((hseen key).mpr hmem)
          obtain ⟨w', cs4, rfl, hw', hskip'⟩ := skipWs_encode cs3
          rw [hskip']
          split
          · next heq' =>
              obtain ⟨cs5, rfl, rfl⟩ := encode_eq_cons_ascii ':' (by decide) rfl heq'
              have hv := hvalue cs5 (by simp only [List.length_append, List.length_cons]; omega)
              cases hval : value fuel depth (encode cs5) with
              | error e => rw [hval] at hv; exact hv
              | ok r =>
                  obtain ⟨v, rest⟩ := r
                  rw [hval] at hv
                  obtain ⟨ut, cs6, rfl, rfl, ⟨hu, hv⟩⟩ := hv
                  next u t =>
                  obtain ⟨u', cs7, rfl, hu', hskip''⟩ := skipWs_encode cs6
                  -- the field is read: a comma goes on, a brace ends the object
                  have hfield := Field.field hw hk hw' hu hv hu'
                  have hdistinct : ((fields ++ [(key, v)]).map Prod.fst).Nodup := by
                    rw [List.map_append]
                    exact List.Nodup.append hnodup (List.nodup_singleton _)
                      (by simpa using hnew')
                  dsimp only
                  rw [hskip'']
                  split
                  · next heq'' =>
                      obtain ⟨cs8, rfl, rfl⟩ := encode_eq_cons_ascii ',' (by decide) rfl heq''
                      have hseen' : ∀ k, k ∈ insert key seen ↔
                          k ∈ (fields ++ [(key, v)]).map Prod.fst := by
                        intro k'
                        rw [Finset.mem_insert, hseen k', List.map_append, List.mem_append]
                        simp [or_comm]
                      have hrec := hloop _ _ cs8 hseen' hdistinct
                        (by simp only [List.length_append, List.length_cons]; omega)
                      have hcs : w ++ (k ++ (w' ++ ':' :: (u ++ t ++ (u' ++ ',' :: cs8))))
                          = (w ++ k ++ w' ++ ':' :: (u ++ t ++ u') ++ [',']) ++ cs8 := by simp
                      rw [hcs]
                      refine hrec.after ?_
                      rintro t' v' ⟨hfs, hdistinct⟩
                      rw [List.append_assoc, List.singleton_append] at hdistinct ⊢
                      have htext := ObjectTail.tail (Fields.more hfield hfs) hdistinct
                      simpa using htext
                  · next heq'' =>
                      obtain ⟨cs8, rfl, rfl⟩ := encode_eq_cons_ascii '\x7d' (by decide) rfl heq''
                      exact ⟨w ++ k ++ w' ++ ':' :: (u ++ t ++ u') ++ ['\x7d'], cs8, by simp, rfl,
                        .tail (.last hfield) hdistinct⟩
                  · exact ⟨by simp, by simp [outOfFuel]⟩
          · exact ⟨by simp, by simp [outOfFuel]⟩
  · exact ⟨by simp, by simp [outOfFuel]⟩

/-- **Soundness**: with enough fuel, `value` and the two loops read off a text
    what the grammar has there. -/
theorem parser_reads : ∀ (fuel n depth : Nat), depth + n = maxDepth →
    (∀ cs : List Char, 2 * cs.length + 1 ≤ fuel →
      Reads (Led (Value n)) cs (value fuel depth (encode cs))) ∧
    (∀ (items : List Json) (cs : List Char), 2 * cs.length + 2 ≤ fuel →
      Reads (ArrayTail (Value n) items) cs (arrayLoop fuel depth items (encode cs))) ∧
    (∀ (fields : List (String × Json)) (seen : Finset String) (cs : List Char),
      (∀ k, k ∈ seen ↔ k ∈ fields.map Prod.fst) → (fields.map Prod.fst).Nodup →
      2 * cs.length + 2 ≤ fuel →
      Reads (ObjectTail (Value n) fields) cs
        (objectLoop fuel depth fields seen (encode cs))) := by
  -- all three at once: a value reads its items and fields one level down, with
  -- less fuel and a shorter text
  intro fuel
  induction fuel with
  | zero =>
      intro n depth hn
      refine ⟨?_, ?_, ?_⟩
      · intro cs hfuel; exact absurd hfuel (Nat.not_succ_le_zero _)
      · intro items cs hfuel; exact absurd hfuel (Nat.not_succ_le_zero _)
      · intro fields seen cs _ _ hfuel; exact absurd hfuel (Nat.not_succ_le_zero _)
  | succ fuel ih =>
      intro n depth hn
      obtain ⟨hvalue, harray, hobject⟩ := ih n depth hn
      refine ⟨?_, ?_, ?_⟩
      · intro cs hfuel
        refine value_reads hn ?_ ?_ (by omega)
        · intro m hm cs' hfuel'
          exact (ih m (depth + 1) (by omega)).2.1 [] cs' hfuel'
        · intro m hm cs' hfuel'
          refine (ih m (depth + 1) (by omega)).2.2 [] ∅ cs' ?_ List.nodup_nil hfuel'
          intro k
          simp
      · intro items cs hfuel
        refine arrayLoop_reads (hvalue cs (by omega)) ?_
        intro items' cs' hlt
        exact harray items' cs' (by omega)
      · intro fields seen cs hseen hnodup hfuel
        refine objectLoop_reads hseen hnodup ?_ ?_
        · intro cs' hlt
          exact hvalue cs' (by omega)
        · intro fields' seen' cs' hseen' hnodup' hlt
          exact hobject fields' seen' cs' hseen' hnodup' (by omega)

theorem skipWs_skipWs (rest : List UInt8) : skipWs (skipWs rest) = skipWs rest :=
  List.dropWhile_idempotent isSpace rest

/-- `value` skips blanks by itself. -/
theorem value_skipWs (fuel depth : Nat) (rest : List UInt8) :
    value fuel depth (skipWs rest) = value fuel depth rest := by
  cases fuel with
  | zero => rfl
  | succ fuel => rw [value, value, skipWs_skipWs]

/-- **What `parse` answers**: a value of the grammar, or an error a text can
    really end in; neither the fuel nor the encoding ends it. -/
theorem parse_reads (input : String) :
    match parse input with
    | .ok v => Text input.toList v
    | .error e => Genuine e := by
  have hlen := length_le_length_encode input.toList
  have hbytes : asBytes input = encode input.toList := rfl
  have hv := (parser_reads (2 * (asBytes input).length + 1) maxDepth 0 (Nat.zero_add _)).1
    input.toList (by rw [hbytes]; omega)
  rw [parse, hbytes, value_skipWs]
  rw [hbytes] at hv
  cases h : value (2 * (encode input.toList).length + 1) 0 (encode input.toList) with
  | error e => rw [h] at hv; exact hv
  | ok r =>
      obtain ⟨v, rest⟩ := r
      rw [h] at hv
      obtain ⟨wt, cs1, hcs, rfl, ⟨hw, hv⟩⟩ := hv
      next w t =>
      obtain ⟨w', cs2, rfl, hw', hskip⟩ := skipWs_encode cs1
      dsimp only
      rw [hskip]
      cases cs2 with
      | nil =>
          rw [hcs, List.append_nil]
          exact .padded hw hv hw'
      | cons c cs2 =>
          obtain ⟨b, bs, hb⟩ := utf8EncodeChar_eq_cons c
          rw [encode_cons, hb]
          exact ⟨by simp, by simp [outOfFuel]⟩

end QCoreJsonGrammar
