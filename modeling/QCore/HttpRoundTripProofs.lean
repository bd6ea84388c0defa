import Mathlib
import QCore.MachineIntProofs
import QCore.FallibleProofs
import QCore.Utf8Proofs
import QCore.JsonProofs
import QCore.JsonGrammarProofs
import QCore.WireProofs
import QCore.ScanProofs
import QCore.HttpProofs
import QCore.ChunkedBodyProofs
import QCore.HttpFramingProofs

/-! # Responses read back

    A gateway's response is written down here as the wire has it: a status line,
    header lines with one that frames the body among them, an empty line and the
    body, whole or cut into chunks anywhere.  The reader returns its status and its
    text (`framed_response_reads_back`).

    Nothing in the body is taken for a line: its bytes are counted, in one length or
    in the size of each chunk, before anything is looked for in what follows them. -/

namespace QCoreHttpRoundTrip

open QCoreMachineInt QCoreFallible QCoreUtf8 QCoreJson QCoreWire QCoreScan QCoreHttp
  QCoreChunkedBody QCoreHttpFraming
open QCoreJsonGrammar hiding isBlank

/-! ## Lines -/

/-- Bytes before the first line end are passed over when they are no part of one. -/
theorem no_crlf_append {before rest : List UInt8} (hbefore : (0x0d : UInt8) ∉ before)
    (hrest : ¬ crlf <:+: rest) : ¬ crlf <:+: before ++ rest := by
  induction before with
  | nil => exact hrest
  | cons b before ih =>
      rw [List.mem_cons, not_or] at hbefore
      rw [List.cons_append, List.infix_cons_iff]
      rintro (hhere | hlater)
      · exact hbefore.1 (List.cons_prefix_cons.mp hhere).1
      · exact ih hbefore.2 hlater

theorem no_crlf_cons {b : UInt8} {rest : List UInt8} (hb : b ≠ 0x0d) (hrest : ¬ crlf <:+: rest) :
    ¬ crlf <:+: b :: rest :=
  no_crlf_append (List.mem_singleton.not.mpr hb.symm) hrest

theorem no_crlf_nil : ¬ crlf <:+: [] := by decide

/-- A text in which no character begins a line end has none. -/
theorem no_crlf {line : List UInt8} (h : (0x0d : UInt8) ∉ line) : ¬ crlf <:+: line := by
  have := no_crlf_append h no_crlf_nil
  rwa [List.append_nil] at this

/-- A byte that does not occur differs from all that do. -/
theorem bne_of_not_mem {b : UInt8} {text : List UInt8} (h : b ∉ text) :
    ∀ c ∈ text, (c != b) = true := by
  intro c hc
  rw [bne_iff_ne]
  rintro rfl
  exact h hc

theorem not_bne_self (b : UInt8) : ¬ (b != b) = true := by
  rw [bne_self_eq_false]
  exact Bool.false_ne_true

theorem upTo_append {b : UInt8} {before : List UInt8} (h : b ∉ before) (rest : List UInt8) :
    upTo b (before ++ (b :: rest)) = before := by
  rw [upTo, List.takeWhile_append_of_pos (bne_of_not_mem h), List.takeWhile_cons,
    if_neg (not_bne_self b), List.append_nil]

theorem upTo_self {b : UInt8} {text : List UInt8} (h : b ∉ text) : upTo b text = text :=
  List.takeWhile_eq_self_iff.mpr (bne_of_not_mem h)

theorem after_append {b : UInt8} {before : List UInt8} (h : b ∉ before) (rest : List UInt8) :
    after b (before ++ (b :: rest)) = rest := by
  rw [after, List.dropWhile_append_of_pos (bne_of_not_mem h), List.dropWhile_cons,
    if_neg (not_bne_self b)]
  rfl

/-- A text without spaces and tabs has no blank. -/
theorem not_blank {text : List UInt8} (hspace : (0x20 : UInt8) ∉ text)
    (htab : (0x09 : UInt8) ∉ text) : ∀ b ∈ text, ¬ isBlank b := by
  intro b hb hblank
  rw [isBlank, Bool.or_eq_true, beq_iff_eq, beq_iff_eq] at hblank
  rcases hblank with rfl | rfl
  · exact hspace hb
  · exact htab hb

/-- Blanks around a text without blanks are taken away. -/
theorem trimBlanks_append {before value behind : List UInt8} (hbefore : ∀ b ∈ before, isBlank b)
    (hvalue : ∀ b ∈ value, ¬ isBlank b) (hbehind : ∀ b ∈ behind, isBlank b) :
    trimBlanks (before ++ (value ++ behind)) = value := by
  have hfront : ∀ {row rest : List UInt8}, (∀ b ∈ row, ¬ isBlank b) →
      (∀ b ∈ rest, isBlank b) →
        (row ++ rest).dropWhile isBlank = if row = [] then [] else row ++ rest := by
    intro row rest hrow hrest
    cases row with
    | nil => rw [List.nil_append, if_pos rfl, List.dropWhile_eq_nil_iff.mpr hrest]
    | cons b row =>
        rw [if_neg (List.cons_ne_nil _ _), List.cons_append,
          List.dropWhile_cons_of_neg (hrow b List.mem_cons_self)]
  rw [trimBlanks, List.dropWhile_append_of_pos hbefore, hfront hvalue hbehind]
  by_cases hnil : value = []
  · rw [if_pos hnil, hnil]
    rfl
  · have hvalue' : ∀ b ∈ value.reverse, ¬ isBlank b := fun b hb => hvalue b (List.mem_reverse.mp hb)
    rw [if_neg hnil, List.reverse_append,
      List.dropWhile_append_of_pos (fun b hb => hbehind b (List.mem_reverse.mp hb)),
      ← List.append_nil value.reverse, hfront hvalue' (fun b hb => absurd hb List.not_mem_nil),
      if_neg (fun h => hnil (List.reverse_eq_nil_iff.mp h)), List.append_nil, List.reverse_reverse]

theorem trimBlanks_self {value : List UInt8} (hvalue : ∀ b ∈ value, ¬ isBlank b) :
    trimBlanks value = value := by
  have hnone : ∀ b ∈ ([] : List UInt8), isBlank b := fun b hb => absurd hb List.not_mem_nil
  have htrim := trimBlanks_append hnone hvalue hnone
  rwa [List.append_nil, List.nil_append] at htrim

theorem isText_asBytes (text : String) : isText (asBytes text) = true := by
  rw [isText, fromUtf8_asBytes]
  rfl

/-! ## Status lines -/

/-- A status line with a reason. -/
def statusLine (version : String) (status : U16) (reason : String) : List UInt8 :=
  asBytes version ++ (space :: (asBytes (toString status.val) ++ (space :: asBytes reason)))

theorem asBytes_toString (n : ℕ) : asBytes (toString n) = encode (Nat.toDigits 10 n) := by
  rw [Nat.toString_eq_ofList_toDigits, asBytes, String.toList_ofList, encode]

theorem isDigit_toDigits {n : ℕ} {c : Char} (h : c ∈ Nat.toDigits 10 n) : c.isDigit = true :=
  Nat.isDigit_of_mem_toDigits (by decide) (by decide) h

theorem all_isDigit_toString (n : ℕ) : (asBytes (toString n)).all isDigit = true := by
  rw [asBytes_toString]
  exact List.all_eq_true.mpr (digit_agrees.encode_inside fun c hc => isDigit_toDigits hc)

theorem decimalValue_toString (n : ℕ) : decimalValue (asBytes (toString n)) = n := by
  rw [asBytes_toString, decimalValue_encode fun c hc => isDigit_toDigits hc,
    Nat.ofDigitChars_ten_toDigits]

/-- A number of three digits has three. -/
theorem length_toString {n : ℕ} (hlow : 100 ≤ n) (hhigh : n ≤ 999) :
    (asBytes (toString n)).length = 3 := by
  rw [asBytes_toString, encode_digits fun c hc => isDigit_toDigits hc, List.length_map]
  have hle : (Nat.toDigits 10 n).length ≤ 3 :=
    (Nat.length_toDigits_le_iff (by decide) (by decide)).mpr (by omega)
  have hgt : ¬ (Nat.toDigits 10 n).length ≤ 2 := by
    rw [Nat.length_toDigits_le_iff (by decide) (by decide)]
    omega
  omega

theorem space_not_digit {digits : List UInt8} (h : digits.all isDigit = true) :
    space ∉ digits := by
  intro hmem
  exact absurd (List.all_eq_true.mp h space hmem) (by decide)

/-- **The status line is read back.** -/
theorem parseStatus_statusLine {version reason : String} {status : U16}
    (hversion : version = "HTTP/1.1" ∨ version = "HTTP/1.0") (hlow : 200 ≤ status.val)
    (hhigh : status.val ≤ 999) : parseStatus (statusLine version status reason) = .ok status := by
  have hspace : space ∉ asBytes version := by
    rcases hversion with rfl | rfl
    · decide
    · decide
  have hdigits := all_isDigit_toString status.val
  have hup : upTo space (statusLine version status reason) = asBytes version :=
    upTo_append hspace _
  have hafter : after space (statusLine version status reason)
      = asBytes (toString status.val) ++ (space :: asBytes reason) := after_append hspace _
  have hcode : upTo space (after space (statusLine version status reason))
      = asBytes (toString status.val) := by
    rw [hafter]
    exact upTo_append (space_not_digit hdigits) _
  rw [parseStatus]
  dsimp only
  rw [hup, hcode]
  refine guard_pass ?_ (guard_pass ?_ (value_pass (a := status) ?_ (guard_pass ?_ rfl)))
  · rintro ⟨hfirst, hsecond⟩
    rcases hversion with rfl | rfl
    · exact hfirst rfl
    · exact hsecond rfl
  · rw [length_toString (by omega) hhigh]
    rintro (hlength | hdigit)
    · exact hlength rfl
    · exact hdigit hdigits
  · rw [decimalValue_toString]
    exact tryFrom_val status
  · exact Nat.not_lt.mpr hlow

/-! ## Header lines -/

/-- A header line that says nothing of the body. -/
structure PlainHeader (line : String) : Prop where
  whole : ¬ crlf <:+: asBytes line
  named : colon ∈ asBytes line
  other : ∀ name ∈ ["content-length", "transfer-encoding"],
    (upTo colon (asBytes line)).map lower ≠ asBytes name

/-- A header line of that name in any case, with blanks around its value. -/
def HeaderOf (name : String) (line : String) (value : List UInt8) : Prop :=
  ∃ spelled before behind, asBytes line = spelled ++ (colon :: (before ++ (value ++ behind)))
    ∧ spelled.map lower = asBytes name ∧ ∀ b ∈ before ++ behind, isBlank b

/-- A content length in decimal digits. -/
def LengthHeader (line : String) (n : U64) : Prop :=
  ∃ value, HeaderOf "content-length" line value ∧ value ≠ [] ∧ value.all isDigit = true
    ∧ decimalValue value = n.val

/-- A chunked encoding. -/
def ChunkedHeader (line : String) : Prop :=
  ∃ value, HeaderOf "transfer-encoding" line value ∧ value.map lower = asBytes "chunked"

/-- A byte that no letter spells is in a text only when it is in its lower case. -/
theorem not_mem_of_lower {b : UInt8} {spelled : List UInt8} {name : String}
    (h : spelled.map lower = asBytes name) (hb : lower b = b) (hname : b ∉ asBytes name) :
    b ∉ spelled := by
  intro hmem
  refine hname ?_
  rw [← h, ← hb]
  exact List.mem_map_of_mem hmem

/-- What a header of that name and value is made of, where neither has a blank, a
    colon in its name or the beginning of a line end. -/
theorem HeaderOf.parts {name line : String} {value : List UInt8} (h : HeaderOf name line value)
    (hcolon : colon ∉ asBytes name) (hcr : (0x0d : UInt8) ∉ asBytes name)
    (hvalue : (0x0d : UInt8) ∉ value) (hspace : (0x20 : UInt8) ∉ value)
    (htab : (0x09 : UInt8) ∉ value) :
    ¬ crlf <:+: asBytes line ∧ colon ∈ asBytes line
      ∧ (upTo colon (asBytes line)).map lower = asBytes name
      ∧ trimBlanks (after colon (asBytes line)) = value := by
  obtain ⟨spelled, before, behind, hline, hspelled, hblanks⟩ := h
  have hnocolon : colon ∉ spelled := not_mem_of_lower hspelled rfl hcolon
  have hnocr : (0x0d : UInt8) ∉ spelled := not_mem_of_lower hspelled rfl hcr
  have hpad : (0x0d : UInt8) ∉ before ++ behind := fun hmem => absurd (hblanks _ hmem) (by decide)
  rw [List.mem_append, not_or] at hpad
  rw [hline]
  refine ⟨no_crlf ?_, ?_, ?_, ?_⟩
  · simp only [List.mem_append, List.mem_cons, not_or]
    exact ⟨hnocr, by decide, hpad.1, hvalue, hpad.2⟩
  · exact List.mem_append_right _ List.mem_cons_self
  · rw [upTo_append hnocolon, hspelled]
  · rw [after_append hnocolon]
    exact trimBlanks_append (fun b hb => hblanks b (List.mem_append_left _ hb))
      (not_blank hspace htab) (fun b hb => hblanks b (List.mem_append_right _ hb))

theorem eqIgnoreAsciiCase_iff {text : List UInt8} {name : String}
    (hlower : (asBytes name).map lower = asBytes name) :
    eqIgnoreAsciiCase text (asBytes name) = true ↔ text.map lower = asBytes name := by
  rw [eqIgnoreAsciiCase, beq_iff_eq, hlower]

theorem contentLength_iff {text : List UInt8} :
    eqIgnoreAsciiCase text (asBytes "content-length") = true
      ↔ text.map lower = asBytes "content-length" := eqIgnoreAsciiCase_iff (by decide)

theorem transferEncoding_iff {text : List UInt8} :
    eqIgnoreAsciiCase text (asBytes "transfer-encoding") = true
      ↔ text.map lower = asBytes "transfer-encoding" := eqIgnoreAsciiCase_iff (by decide)

/-- **A plain header** leaves the framing as it is. -/
theorem readHeader_plain {line : String} (h : PlainHeader line) (framing : Framing) :
    readHeader framing (asBytes line) = .ok framing := by
  have hlength := mt contentLength_iff.mp (h.other _ List.mem_cons_self)
  have hencoding := mt transferEncoding_iff.mp
    (h.other _ (List.mem_cons_of_mem _ List.mem_cons_self))
  refine guard_pass (not_not.mpr h.named) ?_
  dsimp only
  rw [if_neg hlength, if_neg hencoding]
  rfl

/-- **A content length** is read. -/
theorem readHeader_length {line : String} {n : U64} (h : LengthHeader line n) :
    ¬ crlf <:+: asBytes line ∧ readHeader {} (asBytes line) = .ok { length := some n } := by
  obtain ⟨value, hheader, hne, hdigits, hn⟩ := h
  have hnot : ∀ b, isDigit b = false → b ∉ value := by
    intro b hb hmem
    rw [List.all_eq_true.mp hdigits b hmem] at hb
    cases hb
  obtain ⟨hwhole, hcolon, hname, hvalue⟩ := hheader.parts (by decide) (by decide)
    (hnot _ (by decide)) (hnot _ (by decide)) (hnot _ (by decide))
  refine ⟨hwhole, guard_pass (not_not.mpr hcolon) ?_⟩
  dsimp only
  rw [if_pos (contentLength_iff.mpr hname), hvalue]
  refine guard_pass ?_ (value_pass (tryFrom_eq_some.mpr hn) (guard_pass ?_ rfl))
  · rintro (hnil | hdigit)
    · exact hne hnil
    · exact hdigit hdigits
  · exact Bool.false_ne_true

/-- **A chunked encoding** is read. -/
theorem readHeader_chunked {line : String} (h : ChunkedHeader line) :
    ¬ crlf <:+: asBytes line ∧ readHeader {} (asBytes line) = .ok { chunked := true } := by
  obtain ⟨value, hheader, hchunked⟩ := h
  obtain ⟨hwhole, hcolon, hname, hvalue⟩ := hheader.parts (by decide) (by decide)
    (not_mem_of_lower hchunked rfl (by decide)) (not_mem_of_lower hchunked rfl (by decide))
    (not_mem_of_lower hchunked rfl (by decide))
  have hlength : ¬ eqIgnoreAsciiCase (upTo colon (asBytes line)) (asBytes "content-length") = true
      := by
    rw [contentLength_iff, hname]
    decide
  refine ⟨hwhole, guard_pass (not_not.mpr hcolon) ?_⟩
  dsimp only
  rw [if_neg hlength, if_pos (transferEncoding_iff.mpr hname), hvalue]
  refine guard_pass ?_ rfl
  rintro (hnot | htwice)
  · exact hnot ((eqIgnoreAsciiCase_iff (by decide)).mpr hchunked)
  · exact Bool.false_ne_true htwice

/-! ## Heads -/

/-- A first line and header lines. -/
def headOf (first : List UInt8) (headers : List String) : List UInt8 :=
  first ++ headers.flatMap (fun line => crlf ++ asBytes line)

/-- A response as the wire has it. -/
def message (first : List UInt8) (headers : List String) (body : List UInt8) : List UInt8 :=
  headOf first headers ++ (headersEnd ++ body)

theorem headOf_cons (first : List UInt8) (line : String) (headers : List String) :
    headOf first (line :: headers) = first ++ (crlf ++ headOf (asBytes line) headers) := by
  rw [headOf, headOf, List.flatMap_cons, List.append_assoc]

/-- The lines of a head are the lines it was made of. -/
theorem pieces_headOf {first : List UInt8} {headers : List String} (hfirst : ¬ crlf <:+: first)
    (hheaders : ∀ line ∈ headers, ¬ crlf <:+: asBytes line) :
    pieces (headOf first headers) crlf = first :: headers.map asBytes := by
  induction headers generalizing first with
  | nil =>
      rw [headOf, List.flatMap_nil, List.append_nil]
      exact pieces_last crlf_ne_nil hfirst
  | cons line headers ih =>
      rw [headOf_cons, pieces_cons crlf_ne_nil unbordered_crlf hfirst,
        ih (hheaders line List.mem_cons_self)
          (fun other hother => hheaders other (List.mem_cons_of_mem _ hother)), List.map_cons]

/-- After a first line that is not empty a head does not begin with a line end. -/
theorem not_crlf_headOf {first : List UInt8} (hne : first ≠ []) (hfirst : ¬ crlf <:+: first)
    (headers : List String) (rest : List UInt8) :
    ¬ crlf <+: headOf first headers ++ (headersEnd ++ rest) := by
  cases headers with
  | nil =>
      rw [headOf, List.flatMap_nil, List.append_nil, headersEnd_eq, List.append_assoc]
      exact not_crlf_start hne hfirst _
  | cons line headers =>
      rw [headOf_cons, List.append_assoc, List.append_assoc]
      exact not_crlf_start hne hfirst _

/-- **The headers end where the head does**, since none of its lines is empty. -/
theorem parts_message {first : List UInt8} {headers : List String} (hfirst : ¬ crlf <:+: first)
    (hheaders : ∀ line ∈ headers, asBytes line ≠ [] ∧ ¬ crlf <:+: asBytes line)
    (body : List UInt8) : Parts (message first headers body) (headOf first headers) body := by
  refine ⟨rfl, ?_⟩
  rw [message]
  induction headers generalizing first with
  | nil =>
      rw [headOf, List.flatMap_nil, List.append_nil, headersEnd_eq, List.append_assoc,
        ← headersEnd_eq, find_headersEnd_line hfirst, ← List.append_assoc, ← headersEnd_eq,
        find_headersEnd_done]
      rfl
  | cons line headers ih =>
      obtain ⟨hne, hline⟩ := hheaders line List.mem_cons_self
      rw [headOf_cons, List.append_assoc, List.append_assoc, find_headersEnd_line hfirst,
        find_headersEnd_crlf (not_crlf_headOf hne hline headers body),
        ih hline (fun other hother => hheaders other (List.mem_cons_of_mem _ hother))]
      simp only [Option.map_some, List.length_append, length_crlf]

/-- A head that is made of texts is text. -/
theorem isText_headOf (first : String) (headers : List String) :
    isText (headOf (asBytes first) headers) = true := by
  have hbytes : ∃ text : String, headOf (asBytes first) headers = asBytes text := by
    induction headers generalizing first with
    | nil => exact ⟨first, by rw [headOf, List.flatMap_nil, List.append_nil]⟩
    | cons line headers ih =>
        obtain ⟨text, htext⟩ := ih line
        refine ⟨first ++ ("\r\n" ++ text), ?_⟩
        rw [headOf_cons, htext, asBytes_append, asBytes_append]
        rfl
  obtain ⟨text, htext⟩ := hbytes
  rw [htext]
  exact isText_asBytes text

/-! ## Replies -/

/-- A response of a gateway without the header that frames its body. -/
structure Reply where
  version : String
  status : U16
  reason : String
  before : List String
  behind : List String
  spoken : version = "HTTP/1.1" ∨ version = "HTTP/1.0"
  final : 200 ≤ status.val ∧ status.val ≤ 999
  whole : ¬ crlf <:+: asBytes reason
  plain : ∀ line ∈ before ++ behind, PlainHeader line

/-- It is sent with that header anywhere among the others, and a body. -/
def Reply.send (reply : Reply) (header : String) (body : List UInt8) : List UInt8 :=
  message (statusLine reply.version reply.status reply.reason)
    (reply.before ++ header :: reply.behind) body

theorem statusLine_text (version reason : String) (status : U16) :
    statusLine version status reason
      = asBytes (version ++ (" " ++ (toString status.val ++ (" " ++ reason)))) := by
  rw [asBytes_append, asBytes_append, asBytes_append, asBytes_append]
  rfl

/-- Header lines that say nothing of the framing leave it. -/
theorem foldlM_readHeader_plain {lines : List String} (h : ∀ line ∈ lines, PlainHeader line)
    (framing : Framing) : (lines.map asBytes).foldlM readHeader framing = .ok framing := by
  induction lines with
  | nil => rfl
  | cons line lines ih =>
      rw [List.map_cons, List.foldlM_cons, readHeader_plain (h line List.mem_cons_self), ok_bind]
      exact ih fun other hother => h other (List.mem_cons_of_mem _ hother)

section

variable {header : String} {framing : Framing}

/-- A status line does not break off. -/
theorem Reply.statusLine_whole (reply : Reply) :
    ¬ crlf <:+: statusLine reply.version reply.status reply.reason := by
  have hversion : (0x0d : UInt8) ∉ asBytes reply.version := by
    rcases reply.spoken with hspoken | hspoken
    · rw [hspoken]
      decide
    · rw [hspoken]
      decide
  have hstatus : (0x0d : UInt8) ∉ asBytes (toString reply.status.val) := by
    intro hmem
    exact absurd (List.all_eq_true.mp (all_isDigit_toString _) _ hmem) (by decide)
  refine no_crlf_append hversion (no_crlf_cons (by decide) ?_)
  exact no_crlf_append hstatus (no_crlf_cons (by decide) reply.whole)

/-- A header with a colon is not an empty line. -/
theorem ne_nil_of_readHeader {line : List UInt8} (h : readHeader {} line = .ok framing) :
    line ≠ [] := by
  rintro rfl
  obtain ⟨hcolon, -⟩ := guard_ok h
  exact hcolon List.not_mem_nil

/-- **A reply's head is read back**: its lines are whole, the headers around the one
    that frames the body leave the framing to it. -/
theorem Reply.parts (reply : Reply) (hwhole : ¬ crlf <:+: asBytes header)
    (hread : readHeader {} (asBytes header) = .ok framing) (body : List UInt8) :
    ∃ head, Parts (reply.send header body) head body ∧ isText head = true
      ∧ parseHead head = .ok (reply.status, framing) := by
  have hlines : ∀ line ∈ reply.before ++ header :: reply.behind,
      asBytes line ≠ [] ∧ ¬ crlf <:+: asBytes line := by
    intro line hline
    rcases List.mem_append.mp hline with hbefore | hrest
    · have hplain := reply.plain line (List.mem_append_left _ hbefore)
      exact ⟨List.ne_nil_of_mem hplain.named, hplain.whole⟩
    · rcases List.mem_cons.mp hrest with rfl | hbehind
      · exact ⟨ne_nil_of_readHeader hread, hwhole⟩
      · have hplain := reply.plain line (List.mem_append_right _ hbehind)
        exact ⟨List.ne_nil_of_mem hplain.named, hplain.whole⟩
  refine ⟨_, parts_message reply.statusLine_whole hlines body, ?_, ?_⟩
  · rw [statusLine_text]
    exact isText_headOf _ _
  · rw [parseHead, pieces_headOf reply.statusLine_whole (fun line hline => (hlines line hline).2)]
    refine bind_pass (a := reply.status)
      (parseStatus_statusLine reply.spoken reply.final.1 reply.final.2) ?_
    refine bind_pass (a := framing) ?_ rfl
    rw [List.tail_cons, List.map_append, List.map_cons, List.foldlM_append,
      foldlM_readHeader_plain (fun line hline => reply.plain line (List.mem_append_left _ hline)),
      ok_bind, List.foldlM_cons, hread, ok_bind,
      foldlM_readHeader_plain (fun line hline => reply.plain line (List.mem_append_right _ hline))]

end

/-! ## Chunks -/

/-- A chunk as it is sent: the digits of its size, an extension that may follow them
    and its content. -/
structure Chunk where
  size : String
  extension : Option (List UInt8)
  content : List UInt8

/-- The line in front of a chunk. -/
def Chunk.line (chunk : Chunk) : List UInt8 :=
  match chunk.extension with
  | none => asBytes chunk.size
  | some extension => asBytes chunk.size ++ (semicolon :: extension)

/-- A chunk as it is sent. -/
def Chunk.send (chunk : Chunk) : List UInt8 :=
  chunk.line ++ (crlf ++ (chunk.content ++ crlf))

/-- Its size is in hexadecimal digits, at most eight of them and in any case, and no
    line ends in its extension. -/
structure Chunk.WellFormed (chunk : Chunk) : Prop where
  given : asBytes chunk.size ≠ []
  short : (asBytes chunk.size).length ≤ 8
  digits : (asBytes chunk.size).all isHexDigit = true
  value : hexValue (asBytes chunk.size) = chunk.content.length
  whole : ∀ extension, chunk.extension = some extension → ¬ crlf <:+: extension

/-- Its extension is UTF-8. -/
def Chunk.Readable (chunk : Chunk) : Prop :=
  ∀ extension, chunk.extension = some extension → ∃ text : String, extension = asBytes text

theorem not_hexDigit {b : UInt8} {digits : List UInt8} (h : digits.all isHexDigit = true)
    (hb : isHexDigit b = false) : b ∉ digits := by
  intro hmem
  rw [List.all_eq_true.mp h b hmem] at hb
  cases hb

/-- **The size line of a chunk** gives its size. -/
theorem Chunk.sizeLine {chunk : Chunk} (h : chunk.WellFormed) (htext : chunk.Readable) :
    SizeLine chunk.line chunk.content.length := by
  obtain ⟨size, extension, content⟩ := chunk
  have hcr := not_hexDigit h.digits (b := 0x0d) (by decide)
  have hsemicolon := not_hexDigit h.digits (b := semicolon) (by decide)
  have hdigits : sizeText (Chunk.line ⟨size, extension, content⟩) = asBytes size := by
    have hup : upTo semicolon (Chunk.line ⟨size, extension, content⟩) = asBytes size := by
      cases extension with
      | none => exact upTo_self hsemicolon
      | some extension => exact upTo_append hsemicolon extension
    rw [sizeText, hup]
    exact trimBlanks_self
      (not_blank (not_hexDigit h.digits (by decide)) (not_hexDigit h.digits (by decide)))
  constructor
  · show ¬ crlf <:+: Chunk.line ⟨size, extension, content⟩
    cases extension with
    | none => exact no_crlf hcr
    | some extension =>
        exact no_crlf_append hcr
          (no_crlf_cons (by decide) (h.whole extension rfl))
  · show isText (Chunk.line ⟨size, extension, content⟩) = true
    cases extension with
    | none => exact isText_asBytes size
    | some extension =>
        obtain ⟨text, rfl⟩ := htext extension rfl
        have hline := isText_asBytes (size ++ (";" ++ text))
        rwa [asBytes_append, asBytes_append] at hline
  · rw [hdigits]
    exact h.given
  · rw [hdigits]
    exact h.short
  · rw [hdigits]
    exact h.digits
  · rw [hdigits]
    exact h.value

/-- **Chunks that are sent are chunks**, with the empty line after the last as what
    stands after its size line. -/
theorem chunks_send {chunks : List Chunk} {last : Chunk}
    (hchunks : ∀ chunk ∈ chunks, chunk.WellFormed ∧ chunk.Readable ∧ chunk.content ≠ [])
    (hlast : last.WellFormed) (hreadable : last.Readable) (hempty : last.content = []) :
    Chunks (chunks.flatMap Chunk.send ++ last.send) (chunks.flatMap Chunk.content) crlf := by
  induction chunks with
  | nil =>
      have hline := Chunk.sizeLine hlast hreadable
      rw [hempty] at hline
      have := Chunks.last crlf hline
      rwa [List.flatMap_nil, List.flatMap_nil, List.nil_append, Chunk.send, hempty,
        List.nil_append]
  | cons chunk chunks ih =>
      obtain ⟨hwell, htext, hne⟩ := hchunks chunk List.mem_cons_self
      have hrest := ih fun other hother => hchunks other (List.mem_cons_of_mem _ hother)
      have := Chunks.chunk (Chunk.sizeLine hwell htext) hne hrest
      rw [List.flatMap_cons, List.flatMap_cons, Chunk.send]
      simp only [List.append_assoc] at this ⊢
      exact this

/-! ## Read back -/

/-- **A framed response is read back**: its status and its text, when the body is
    whole under its length and when it is cut into chunks anywhere. -/
theorem framed_response_reads_back (reply : Reply) (text : String) :
    (∀ (header : String) (n : U64), LengthHeader header n → n.val = (asBytes text).length →
      parseResponse (reply.send header (asBytes text)) = .ok (reply.status, text))
    ∧ ∀ (header : String) (chunks : List Chunk) (last : Chunk), ChunkedHeader header →
      (∀ chunk ∈ chunks, chunk.WellFormed ∧ chunk.Readable ∧ chunk.content ≠ []) →
      last.WellFormed → last.Readable → last.content = [] →
      chunks.flatMap Chunk.content = asBytes text →
      parseResponse (reply.send header (chunks.flatMap Chunk.send ++ last.send))
        = .ok (reply.status, text) := by
  constructor
  · intro header n hheader hn
    obtain ⟨hwhole, hread⟩ := readHeader_length hheader
    obtain ⟨head, hparts, htext, hhead⟩ := reply.parts hwhole hread (asBytes text)
    refine parseResponse_iff.mpr ⟨head, _, _, _, hparts, htext, hhead, ?_, fromUtf8_asBytes text⟩
    exact guard_pass (not_not.mpr hn.symm) rfl
  · intro header chunks last hheader hchunks hlast hreadable hempty hcontent
    obtain ⟨hwhole, hread⟩ := readHeader_chunked hheader
    obtain ⟨head, hparts, htext, hhead⟩ := reply.parts hwhole hread
      (chunks.flatMap Chunk.send ++ last.send)
    refine parseResponse_iff.mpr ⟨head, _, _, _, hparts, htext, hhead, ?_, fromUtf8_asBytes text⟩
    rw [← hcontent]
    exact dechunk_iff.mpr ⟨crlf, chunks_send hchunks hlast hreadable hempty⟩

theorem final_ok : 200 ≤ (200 : U16).val ∧ (200 : U16).val ≤ 999 := by decide

theorem whole_ok : ¬ crlf <:+: asBytes "OK" := by decide

/-- A reply with nothing but the header that frames its body. -/
def plainReply : Reply where
  version := "HTTP/1.1"
  status := 200
  reason := "OK"
  before := []
  behind := []
  spoken := Or.inl rfl
  final := final_ok
  whole := whole_ok
  plain := fun _ hline => absurd hline List.not_mem_nil

/-- The usual header of a chunked body is one. -/
theorem chunkedHeader_example : ChunkedHeader "Transfer-Encoding: chunked" := by
  refine ⟨asBytes "chunked", ⟨asBytes "Transfer-Encoding", [space], [], ?_, ?_, ?_⟩, ?_⟩
  · rfl
  · decide +kernel
  · intro b hb
    rw [List.append_nil, List.mem_singleton] at hb
    rw [hb]
    rfl
  · decide +kernel

/-- Two characters of two bytes each, cut in the middle of both and read back. -/
theorem framed_response_reads_back_cut :
    parseResponse (plainReply.send "Transfer-Encoding: chunked"
        ([⟨"1", none, [0xc3]⟩, ⟨"02", some (asBytes "a=b"), [0xa9, 0xc3]⟩, ⟨"1", none, [0xa9]⟩].flatMap
          Chunk.send ++ Chunk.send ⟨"0", none, []⟩))
      = .ok (200, "éé") := by
  refine (framed_response_reads_back plainReply "éé").2 _ _ _ chunkedHeader_example ?_ ?_ ?_ rfl
    (by decide)
  · intro chunk hchunk
    simp only [List.mem_cons, List.not_mem_nil, or_false] at hchunk
    rcases hchunk with rfl | rfl | rfl
    · exact ⟨⟨by decide, by decide, by decide, by decide, by simp⟩, by simp [Chunk.Readable],
        by decide⟩
    · refine ⟨⟨by decide, by decide, by decide, by decide, ?_⟩, ?_, by decide⟩
      · rintro _ ⟨⟩
        decide
      · rintro _ ⟨⟩
        exact ⟨"a=b", rfl⟩
    · exact ⟨⟨by decide, by decide, by decide, by decide, by simp⟩, by simp [Chunk.Readable],
        by decide⟩
  · exact ⟨by decide, by decide, by decide, by decide, by simp⟩
  · simp [Chunk.Readable]

/-- A chunk whose extension is not UTF-8 is refused, well formed as it is. -/
theorem unreadable_extension_refused :
    ChunkedHeader "Transfer-Encoding: chunked"
      ∧ Chunk.WellFormed ⟨"2", some [0xff], asBytes "ok"⟩
      ∧ Chunk.WellFormed ⟨"0", none, []⟩
      ∧ [Chunk.mk "2" (some [0xff]) (asBytes "ok")].flatMap Chunk.content = asBytes "ok"
      ∧ parseResponse (plainReply.send "Transfer-Encoding: chunked"
          ([⟨"2", some [0xff], asBytes "ok"⟩].flatMap Chunk.send ++ Chunk.send ⟨"0", none, []⟩))
        = .error "a chunk size is not text" := by
  refine ⟨chunkedHeader_example, ⟨by decide, by decide, by decide, by decide, ?_⟩,
    ⟨by decide, by decide, by decide, by decide, by simp⟩, rfl, by decide +kernel⟩
  rintro _ ⟨⟩
  decide

end QCoreHttpRoundTrip
