import Mathlib
import QCore.FallibleProofs
import QCore.JsonProofs
import QCore.ScanProofs
import QCore.HttpProofs
import QCore.ChunkedBodyProofs
import QCore.HttpFramingProofs

/-! # What follows a response

    A content length is the number of all the bytes after the headers, so nothing
    follows such a response.  The reader of chunks returns at the size line of the
    last one, and what stands after it is never looked at: not the trailer, not the
    empty line that closes it, not another response.

    A chunked response that is accepted is therefore a whole one exactly when the
    first empty line after that size line is where its bytes end, and each line before
    it names a field (`accepted_whole_iff`). -/

namespace QCoreResponseEnd

open QCoreFallible QCoreJson QCoreScan QCoreHttp QCoreChunkedBody QCoreHttpFraming

/-! ## Field lines -/

/-- A letter, a digit, or one of the marks that a field name may have. -/
def isNameByte (b : UInt8) : Bool :=
  (0x30 ≤ b && b ≤ 0x39) || (0x41 ≤ b && b ≤ 0x5a) || (0x61 ≤ b && b ≤ 0x7a)
    || (asBytes "!#$%&'*+-.^_`|~").contains b

/-- A blank, or a byte that is no control character. -/
def isValueByte (b : UInt8) : Bool := b == 0x09 || (0x20 ≤ b && b != 0x7f)

/-- A field line: a name, a colon and a value. -/
structure FieldLine (line : List UInt8) : Prop where
  separated : colon ∈ line
  name_ne : upTo colon line ≠ []
  name : ∀ b ∈ upTo colon line, isNameByte b = true
  value : ∀ b ∈ after colon line, isValueByte b = true

/-- Whether a line is a field line is looked up in its bytes. -/
instance instDecidableFieldLine (line : List UInt8) : Decidable (FieldLine line) :=
  decidable_of_iff (colon ∈ line ∧ upTo colon line ≠ []
      ∧ (∀ b ∈ upTo colon line, isNameByte b = true)
      ∧ ∀ b ∈ after colon line, isValueByte b = true)
    ⟨fun ⟨h₁, h₂, h₃, h₄⟩ => ⟨h₁, h₂, h₃, h₄⟩, fun h => ⟨h.separated, h.name_ne, h.name, h.value⟩⟩

/-- A field line is not empty. -/
theorem FieldLine.ne_nil {line : List UInt8} (h : FieldLine line) : line ≠ [] :=
  List.ne_nil_of_mem h.separated

/-! ## Trailers -/

/-- Field lines and the empty line that closes a chunked body, and nothing else. -/
inductive Trailers : List UInt8 → Prop where
  | done : Trailers crlf
  | line {line rest : List UInt8} (hfield : FieldLine line) (hwhole : ¬ crlf <:+: line)
      (hrest : Trailers rest) : Trailers (line ++ (crlf ++ rest))

/-- The first empty line after a size line ends the bytes. -/
def EndsAtEmptyLine (rest : List UInt8) : Prop :=
  (find (crlf ++ rest) headersEnd).map (· + 2) = some rest.length

instance instDecidableEndsAtEmptyLine (rest : List UInt8) : Decidable (EndsAtEmptyLine rest) :=
  inferInstanceAs (Decidable (_ = _))

/-- The empty line may be the first. -/
theorem endsAtEmptyLine_crlf {rest : List UInt8} (h : crlf <+: rest) :
    EndsAtEmptyLine rest ↔ rest = crlf := by
  obtain ⟨more, rfl⟩ := h
  rw [EndsAtEmptyLine, ← List.append_assoc, ← headersEnd_eq, find_headersEnd_done,
    Option.map_some, Option.some.injEq, List.length_append, length_crlf, List.append_right_eq_self,
    ← List.length_eq_zero_iff]
  omega

/-- Or there are lines before it. -/
theorem endsAtEmptyLine_line {line : List UInt8} (hne : line ≠ []) (hwhole : ¬ crlf <:+: line)
    (rest : List UInt8) : EndsAtEmptyLine (line ++ (crlf ++ rest)) ↔ EndsAtEmptyLine rest := by
  rw [EndsAtEmptyLine, EndsAtEmptyLine, find_headersEnd_crlf (not_crlf_start hne hwhole rest),
    find_headersEnd_line hwhole]
  cases find (crlf ++ rest) headersEnd with
  | none => exact iff_of_false (Option.some_ne_none _).symm (Option.some_ne_none _).symm
  | some k =>
      simp only [Option.map_some, Option.some.injEq, List.length_append, length_crlf]
      omega

/-- Each line that is not empty is a field line. -/
def FieldLines (rest : List UInt8) : Prop := ∀ line ∈ pieces rest crlf, line ≠ [] → FieldLine line

instance instDecidableFieldLines (rest : List UInt8) : Decidable (FieldLines rest) :=
  inferInstanceAs (Decidable (∀ _ ∈ _, _))

/-- The empty line alone has no line that would have to be one. -/
theorem fieldLines_crlf : FieldLines crlf := by decide

/-- A line is looked at before those behind it. -/
theorem fieldLines_line {line : List UInt8} (hwhole : ¬ crlf <:+: line) (rest : List UInt8) :
    FieldLines (line ++ (crlf ++ rest)) ↔ (line ≠ [] → FieldLine line) ∧ FieldLines rest := by
  rw [FieldLines, FieldLines, pieces_cons crlf_ne_nil unbordered_crlf hwhole,
    List.forall_mem_cons]

/-- Where an empty line is found there is a first line. -/
theorem exists_line {rest : List UInt8} (h : EndsAtEmptyLine rest) (hnot : ¬ crlf <+: rest) :
    ∃ line rest', line ≠ [] ∧ ¬ crlf <:+: line ∧ rest = line ++ (crlf ++ rest') := by
  cases hfind : find rest crlf with
  | none =>
      rw [EndsAtEmptyLine, find_headersEnd_crlf hnot, (find_none headersEnd_ne_nil).mpr] at h
      · cases h
      · intro hthere
        exact (find_none crlf_ne_nil).mp hfind (crlf_prefix_headersEnd.isInfix.trans hthere)
  | some k =>
      obtain ⟨hsplit, hwhole⟩ := line_of_find hfind
      refine ⟨_, _, ?_, hwhole, hsplit⟩
      intro hnil
      rw [hnil, List.nil_append] at hsplit
      exact hnot (hsplit ▸ List.prefix_append _ _)

/-- **Trailers are field lines that end at the first empty line.** -/
theorem trailers_iff {rest : List UInt8} :
    Trailers rest ↔ EndsAtEmptyLine rest ∧ FieldLines rest := by
  constructor
  · intro h
    induction h with
    | done => exact ⟨(endsAtEmptyLine_crlf List.prefix_rfl).mpr rfl, fieldLines_crlf⟩
    | line hfield hwhole _ ih =>
        exact ⟨(endsAtEmptyLine_line hfield.ne_nil hwhole _).mpr ih.1,
          (fieldLines_line hwhole _).mpr ⟨fun _ => hfield, ih.2⟩⟩
  · rintro ⟨hends, hfields⟩
    induction hn : rest.length using Nat.strong_induction_on generalizing rest with
    | h n ih =>
        by_cases hcrlf : crlf <+: rest
        · rw [(endsAtEmptyLine_crlf hcrlf).mp hends]
          exact .done
        · obtain ⟨line, rest', hne, hwhole, rfl⟩ := exists_line hends hcrlf
          obtain ⟨hfield, hrest⟩ := (fieldLines_line hwhole rest').mp hfields
          have hends' := (endsAtEmptyLine_line hne hwhole rest').mp hends
          refine .line (hfield hne) hwhole (ih rest'.length ?_ hends' hrest rfl)
          rw [← hn, List.length_append, List.length_append, length_crlf]
          omega

/-! ## Whole responses -/

/-- A body that is as long as the headers say, or chunks with their trailer. -/
structure WholeBody (head body : List UInt8) : Prop where
  counted : ∀ line ∈ headerLines head, Named "content-length" line → body.length = lengthIn line
  closed : Chunked (headerLines head) → ∃ content rest, Chunks body content rest ∧ Trailers rest

/-- The bytes are one whole response and nothing else. -/
def OneResponse (raw : List UInt8) : Prop :=
  ∃ head body, Parts raw head body ∧ WholeBody head body

/-- Where the response is chunked, the first empty line after the size line of the
    last chunk ends the bytes, and each line before it is a field line. -/
def EndsClosed (raw : List UInt8) : Prop :=
  ∀ head body, Parts raw head body → Chunked (headerLines head) →
    ∀ content rest, Chunks body content rest → EndsAtEmptyLine rest ∧ FieldLines rest

section

variable {raw head body content rest : List UInt8}

/-- A response has one last size line, and what stands behind it is looked at. -/
theorem endsClosed_iff (hparts : Parts raw head body) (hchunked : Chunked (headerLines head))
    (hchunks : Chunks body content rest) :
    EndsClosed raw ↔ EndsAtEmptyLine rest ∧ FieldLines rest := by
  refine ⟨fun h => h head body hparts hchunked content rest hchunks, ?_⟩
  intro h head' body' hparts' _ content' rest' hchunks'
  obtain ⟨rfl, rfl⟩ := hparts.unique hparts'
  obtain ⟨rfl, rfl⟩ := hchunks.unique hchunks'
  exact h

/-- A chunked response is whole when what stands after its last size line is. -/
theorem not_oneResponse (hparts : Parts raw head body) (hchunked : Chunked (headerLines head))
    (hchunks : Chunks body content rest) (hrest : ¬ Trailers rest) : ¬ OneResponse raw := by
  rintro ⟨head', body', hparts', hwhole⟩
  obtain ⟨rfl, rfl⟩ := hparts.unique hparts'
  obtain ⟨content', rest', hchunks', htrailers⟩ := hwhole.closed hchunked
  obtain ⟨rfl, rfl⟩ := hchunks.unique hchunks'
  exact hrest htrailers

end

/-- **An accepted response is one whole response** exactly when it is not chunked, or
    its bytes end at the first empty line after its last chunk and the lines before it
    are field lines. -/
theorem accepted_whole_iff {raw : List UInt8} {answer : U16 × String}
    (hraw : parseResponse raw = .ok answer) : OneResponse raw ↔ EndsClosed raw := by
  obtain ⟨head, body, framing, content, hparts, -, hhead, hbody, -⟩ := parseResponse_iff.mp hraw
  have hsaid := parseHead_said hhead
  constructor
  · intro hone head' body' hparts' hchunked content' rest hchunks
    by_contra hrest
    exact not_oneResponse hparts' hchunked hchunks (fun h => hrest (trailers_iff.mp h)) hone
  · intro hends
    refine ⟨head, body, hparts, ?_⟩
    rcases framedBody_cases hsaid hbody with ⟨hchunked, hnone, rest, hchunks⟩ | ⟨hnot, -, hlength⟩
    · exact ⟨fun line hline hname => absurd hname (hnone line hline),
        fun _ => ⟨content, rest, hchunks,
          trailers_iff.mpr (hends head body hparts hchunked content rest hchunks)⟩⟩
    · exact ⟨hlength, fun hchunked => absurd hchunked hnot⟩

/-! ## Two chunked replies -/

/-- The size line of the last chunk, and what stands behind it. -/
def chunkedReplyWith (rest : List UInt8) : List UInt8 :=
  chunkedHead ++ (headersEnd ++ (asBytes "2" ++ (crlf ++ (asBytes "\x7b\x7d" ++ (crlf
    ++ (asBytes "0" ++ (crlf ++ rest)))))))

section

variable (rest : List UInt8)

theorem chunkedReplyWith_chunked : Chunked (headerLines chunkedHead) :=
  ⟨asBytes "Transfer-Encoding: chunked", by decide +kernel, by decide +kernel⟩

/-- The chunked reply has one chunk, and the given bytes behind it. -/
theorem chunkedReplyWith_parts : ∃ body, Parts (chunkedReplyWith rest) chunkedHead body
    ∧ Chunks body (asBytes "\x7b\x7d") rest := by
  have hlast : SizeLine (asBytes "0") 0 := by
    constructor
    all_goals decide +kernel
  have hfirst : SizeLine (asBytes "2") (asBytes "\x7b\x7d").length := by
    constructor
    all_goals decide +kernel
  have hhead : Parts (chunkedHead ++ headersEnd) chunkedHead [] := ⟨rfl, by decide +kernel⟩
  have hchunks := Chunks.chunk hfirst (by decide +kernel) (.last rest hlast)
  have hparts := hhead.append (asBytes "2" ++ (crlf ++ (asBytes "\x7b\x7d" ++ (crlf
    ++ (asBytes "0" ++ (crlf ++ rest))))))
  rw [List.append_assoc] at hparts
  rw [List.append_nil] at hchunks
  exact ⟨_, hparts, hchunks⟩

end

/-- With a digest in its trailer the reply is one whole response. -/
theorem accepted_whole_iff_reply :
    OneResponse (chunkedReplyWith (asBytes "Digest: none\r\n\r\n")) := by
  have haccepted : parseResponse (chunkedReplyWith (asBytes "Digest: none\r\n\r\n"))
      = .ok (200, "\x7b\x7d") := by decide +kernel
  obtain ⟨body, hparts, hchunks⟩ := chunkedReplyWith_parts (asBytes "Digest: none\r\n\r\n")
  refine (accepted_whole_iff haccepted).mpr ?_
  refine (endsClosed_iff hparts chunkedReplyWith_chunked hchunks).mpr ⟨?_, ?_⟩
  · decide +kernel
  · decide +kernel

/-- A chunked body that is followed by something else than its closing line. -/
def trailedReply : List UInt8 := chunkedReplyWith (asBytes "junk")

/-- It is accepted, and it is not one response. -/
theorem trailedReply_accepted_not_whole :
    parseResponse trailedReply = .ok (200, "\x7b\x7d") ∧ Framed trailedReply
      ∧ ¬ OneResponse trailedReply := by
  obtain ⟨body, hparts, hchunks⟩ := chunkedReplyWith_parts (asBytes "junk")
  obtain ⟨line, hline, hname⟩ := chunkedReplyWith_chunked
  refine ⟨by decide +kernel, ⟨_, _, hparts, line, hline, Or.inr hname⟩, ?_⟩
  refine not_oneResponse hparts chunkedReplyWith_chunked hchunks (fun htrailers => ?_)
  have hends : ¬ EndsAtEmptyLine (asBytes "junk") := by decide +kernel
  exact hends (trailers_iff.mp htrailers).1

end QCoreResponseEnd
