import Mathlib
import QCore.MachineIntProofs
import QCore.FallibleProofs
import QCore.JsonProofs
import QCore.ScanProofs
import QCore.HttpProofs
import QCore.ChunkedBodyProofs

/-! # Where a response ends

    The headers end at the first empty line, and what they say of the body is a
    content length or a chunked encoding.  A response of either kind that is cut
    short is refused or read as before: a length counts the bytes that are left, and
    what chunks carry does not depend on what follows them. -/

namespace QCoreHttpFraming

open QCoreMachineInt QCoreFallible QCoreJson QCoreScan QCoreHttp QCoreChunkedBody

/-! ## The end of the headers -/

theorem headersEnd_eq : headersEnd = crlf ++ crlf := rfl

theorem headersEnd_ne_nil : headersEnd ≠ [] := List.cons_ne_nil _ _

theorem crlf_prefix_headersEnd : crlf <+: headersEnd := List.prefix_append crlf crlf

/-- A line that is not empty does not begin with its end. -/
theorem not_crlf_start {line : List UInt8} (hne : line ≠ []) (h : ¬ crlf <:+: line)
    (rest : List UInt8) : ¬ crlf <+: line ++ (crlf ++ rest) :=
  not_starts unbordered_crlf h (List.length_pos_iff.mpr hne)

/-- The headers do not end within a line. -/
theorem find_headersEnd_line {line : List UInt8} (h : ¬ crlf <:+: line) (rest : List UInt8) :
    find (line ++ (crlf ++ rest)) headersEnd
      = (find (crlf ++ rest) headersEnd).map (line.length + ·) := by
  refine find_skip fun j hj hthere => ?_
  exact not_starts unbordered_crlf h hj (crlf_prefix_headersEnd.trans hthere)

/-- They do not end at a line end that another does not follow. -/
theorem find_headersEnd_crlf {rest : List UInt8} (h : ¬ crlf <+: rest) :
    find (crlf ++ rest) headersEnd = (find rest headersEnd).map (2 + ·) := by
  refine find_skip fun j hj hthere => ?_
  rw [length_crlf] at hj
  interval_cases j
  · rw [List.drop_zero, headersEnd_eq, List.prefix_append_right_inj] at hthere
    exact h hthere
  · -- the second byte of a line end is not the first
    exact absurd (List.cons_prefix_cons.mp hthere).1 (by decide)

/-- **They end at an empty line.** -/
theorem find_headersEnd_done (rest : List UInt8) :
    find (headersEnd ++ rest) headersEnd = some 0 :=
  (find_eq_some headersEnd_ne_nil).mpr
    ⟨List.prefix_append _ _, fun j hj => absurd hj (Nat.not_lt_zero j)⟩

/-- A response is its head, an empty line and a body. -/
structure Parts (raw head body : List UInt8) : Prop where
  split : raw = head ++ (headersEnd ++ body)
  first : find raw headersEnd = some head.length

/-- The parts of a response lie on either side of its first empty line. -/
theorem parts_of_find {raw : List UInt8} {k : ℕ} (h : find raw headersEnd = some k) :
    Parts raw (raw.take k) (raw.drop (k + 4)) := by
  obtain ⟨hlength, hsplit⟩ := find_split headersEnd_ne_nil h
  refine ⟨hsplit, ?_⟩
  rw [List.length_take_of_le (by omega)]
  exact h

section

variable {raw head head' body body' : List UInt8}

theorem Parts.take (h : Parts raw head body) : raw.take head.length = head := by
  rw [h.split, List.take_left]

theorem Parts.drop (h : Parts raw head body) : raw.drop (head.length + 4) = body := by
  rw [h.split, ← List.drop_drop, List.drop_left]
  rfl

/-- A response has its parts in one way. -/
theorem Parts.unique (h : Parts raw head body) (h' : Parts raw head' body') :
    head = head' ∧ body = body' := by
  have hlength : head.length = head'.length := Option.some.inj (h.first.symm.trans h'.first)
  have hhead := h.take
  have hbody := h.drop
  rw [hlength] at hhead hbody
  exact ⟨hhead.symm.trans h'.take, hbody.symm.trans h'.drop⟩

/-- A response that goes on has the same head. -/
theorem Parts.append (h : Parts raw head body) (more : List UInt8) :
    Parts (raw ++ more) head (body ++ more) := by
  refine ⟨?_, find_append headersEnd_ne_nil h.first more⟩
  rw [h.split, List.append_assoc, List.append_assoc]

end

/-! ## What the headers say -/

/-- The lines of a head behind its status line. -/
def headerLines (head : List UInt8) : List (List UInt8) := (pieces head crlf).tail

/-- A header of that name, in any case. -/
def Named (name : String) (line : List UInt8) : Prop :=
  eqIgnoreAsciiCase (upTo colon line) (asBytes name) = true

instance instDecidableNamed (name : String) (line : List UInt8) : Decidable (Named name line) :=
  inferInstanceAs (Decidable (_ = _))

/-- The number in a header. -/
def lengthIn (line : List UInt8) : ℕ := decimalValue (trimBlanks (after colon line))

/-- Header lines carry a chunked encoding.  An encoding that is not chunked is
    refused. -/
def Chunked (lines : List (List UInt8)) : Prop := ∃ line ∈ lines, Named "transfer-encoding" line

/-- A framing is what header lines say. -/
structure Says (lines : List (List UInt8)) (framing : Framing) : Prop where
  chunked : framing.chunked = true ↔ Chunked lines
  length : ∀ line ∈ lines, Named "content-length" line →
    ∃ n, framing.length = some n ∧ n.val = lengthIn line
  given : ∀ n, framing.length = some n →
    ∃ line ∈ lines, Named "content-length" line ∧ n.val = lengthIn line

theorem not_named_both {line : List UInt8} (h : Named "content-length" line) :
    ¬ Named "transfer-encoding" line := by
  intro h'
  have hboth := (eq_of_beq h).symm.trans (eq_of_beq h')
  exact absurd hboth (by decide)

/-- **What a header does to the framing**: it gives the length that the headers before
    it give or the first one, it makes the body chunked, or it says nothing. -/
theorem readHeader_cases {framing framing' : Framing} {line : List UInt8}
    (h : readHeader framing line = .ok framing') :
    (Named "content-length" line ∧ ∃ n, n.val = lengthIn line
        ∧ (∀ m, framing.length = some m → m = n)
        ∧ framing' = { framing with length := some n })
      ∨ (Named "transfer-encoding" line ∧ framing' = { framing with chunked := true })
      ∨ (¬ Named "content-length" line ∧ ¬ Named "transfer-encoding" line
        ∧ framing' = framing) := by
  obtain ⟨-, h⟩ := guard_ok h
  dsimp only at h
  by_cases hlength : Named "content-length" line
  · rw [Named] at hlength
    rw [if_pos hlength] at h
    obtain ⟨-, h⟩ := guard_ok h
    obtain ⟨n, hn, h⟩ := value_ok h
    obtain ⟨hsame, h⟩ := guard_ok h
    refine Or.inl ⟨hlength, n, (tryFrom_eq_some.mp hn).symm, ?_, (Except.ok.inj h).symm⟩
    intro m hm
    by_contra hne
    refine hsame ?_
    rw [hm, Option.any_some, decide_eq_true_eq]
    exact hne
  · rw [Named] at hlength
    rw [if_neg hlength] at h
    by_cases hchunked : Named "transfer-encoding" line
    · rw [Named] at hchunked
      rw [if_pos hchunked] at h
      obtain ⟨-, h⟩ := guard_ok h
      exact Or.inr (Or.inl ⟨hchunked, (Except.ok.inj h).symm⟩)
    · rw [Named] at hchunked
      rw [if_neg hchunked] at h
      exact Or.inr (Or.inr ⟨hlength, hchunked, (Except.ok.inj h).symm⟩)

/-- One header: a framing that says what the lines before say goes on to one that
    says what they say with it. -/
theorem readHeader_said {lines : List (List UInt8)} {framing framing' : Framing}
    {line : List UInt8} (hsaid : Says lines framing) (h : readHeader framing line = .ok framing') :
    Says (lines ++ [line]) framing' := by
  have hmem : ∀ other, other ∈ lines ++ [line] ↔ other ∈ lines ∨ other = line := by
    intro other
    rw [List.mem_append, List.mem_singleton]
  have hchunked : Chunked (lines ++ [line]) ↔ Chunked lines ∨ Named "transfer-encoding" line := by
    simp only [Chunked, hmem, or_and_right, exists_or, exists_eq_left]
  obtain ⟨hnamed, n, hn, hsame, rfl⟩ | ⟨hnamed, rfl⟩ | ⟨hlength, hother, rfl⟩ := readHeader_cases h
  · -- a content length, and the lines before carry none or this one
    constructor
    · rw [hchunked, ← hsaid.chunked, or_iff_left (not_named_both hnamed)]
    · intro other hother hname
      rcases (hmem other).mp hother with hbefore | rfl
      · obtain ⟨m, hm, hval⟩ := hsaid.length other hbefore hname
        exact ⟨n, rfl, hsame m hm ▸ hval⟩
      · exact ⟨n, rfl, hn⟩
    · intro m hm
      cases hm
      exact ⟨line, (hmem line).mpr (Or.inr rfl), hnamed, hn⟩
  · -- a chunked encoding
    constructor
    · rw [hchunked]
      exact iff_of_true rfl (Or.inr hnamed)
    · intro other hother hname
      rcases (hmem other).mp hother with hbefore | rfl
      · exact hsaid.length other hbefore hname
      · exact absurd hnamed (not_named_both hname)
    · intro m hm
      obtain ⟨other, hbefore, hother⟩ := hsaid.given m hm
      exact ⟨other, (hmem other).mpr (Or.inl hbefore), hother⟩
  · -- another header
    constructor
    · rw [hchunked, ← hsaid.chunked, or_iff_left hother]
    · intro other hmember hname
      rcases (hmem other).mp hmember with hbefore | rfl
      · exact hsaid.length other hbefore hname
      · exact absurd hname hlength
    · intro m hm
      obtain ⟨other, hbefore, hother⟩ := hsaid.given m hm
      exact ⟨other, (hmem other).mpr (Or.inl hbefore), hother⟩

/-- Each header line that is read adds what it says to the framing. -/
theorem foldlM_readHeader_said {lines before : List (List UInt8)} {framing framing' : Framing}
    (hsaid : Says before framing) (h : lines.foldlM readHeader framing = .ok framing') :
    Says (before ++ lines) framing' := by
  induction lines generalizing before framing with
  | nil =>
      cases h
      rwa [List.append_nil]
  | cons line lines ih =>
      rw [List.foldlM_cons] at h
      obtain ⟨next, hline, h⟩ := bind_ok h
      have hall := ih (readHeader_said hsaid hline) h
      rwa [List.append_assoc] at hall

theorem says_nil : Says [] {} where
  chunked := iff_of_false Bool.false_ne_true (fun ⟨_, hline, _⟩ => List.not_mem_nil hline)
  length _ hline := absurd hline List.not_mem_nil
  given n h := absurd h (Option.some_ne_none n).symm

/-- **The framing of a head is what its header lines say.** -/
theorem parseHead_said {head : List UInt8} {status : U16} {framing : Framing}
    (h : parseHead head = .ok (status, framing)) : Says (headerLines head) framing := by
  obtain ⟨_, -, h⟩ := bind_ok h
  obtain ⟨framing', hlines, h⟩ := bind_ok h
  cases h
  exact foldlM_readHeader_said says_nil hlines

/-! ## What is accepted -/

/-- A response is accepted where it has its parts, a head that is text, and a body as it
    is framed. -/
theorem parseResponse_iff {raw : List UInt8} {status : U16} {text : String} :
    parseResponse raw = .ok (status, text) ↔
      ∃ head body framing content, Parts raw head body ∧ isText head = true
        ∧ parseHead head = .ok (status, framing) ∧ framedBody framing body = .ok content
        ∧ fromUtf8 content = some text := by
  constructor
  · intro h
    obtain ⟨k, hfind, h⟩ := value_ok h
    obtain ⟨htext, h⟩ := guard_ok h
    obtain ⟨⟨status', framing⟩, hhead, h⟩ := bind_ok h
    obtain ⟨content, hbody, h⟩ := bind_ok h
    obtain ⟨text', hcontent, h⟩ := value_ok h
    cases h
    exact ⟨_, _, framing, content, parts_of_find hfind, not_not.mp htext, hhead, hbody, hcontent⟩
  · rintro ⟨head, body, framing, content, hparts, htext, hhead, hbody, hcontent⟩
    rw [← hparts.drop] at hbody
    have htake := hparts.take
    refine value_pass hparts.first (guard_pass ?_ (bind_pass (a := (status, framing)) ?_ ?_))
    · rw [htake]
      exact not_not.mpr htext
    · rw [htake]
      exact hhead
    · exact bind_pass hbody (value_pass hcontent rfl)

/-- A response that carries a content length or a chunked encoding. -/
def Framed (raw : List UInt8) : Prop :=
  ∃ head body, Parts raw head body ∧ ∃ line ∈ headerLines head,
    Named "content-length" line ∨ Named "transfer-encoding" line

/-- **A body is framed as the headers say.** -/
theorem framedBody_cases {lines : List (List UInt8)} {framing : Framing}
    {body content : List UInt8} (hsaid : Says lines framing)
    (h : framedBody framing body = .ok content) :
    (Chunked lines ∧ (∀ line ∈ lines, ¬ Named "content-length" line)
        ∧ ∃ rest, Chunks body content rest)
      ∨ (¬ Chunked lines ∧ content = body
        ∧ ∀ line ∈ lines, Named "content-length" line → body.length = lengthIn line) := by
  obtain ⟨length, chunked⟩ := framing
  cases chunked with
  | true =>
      cases length with
      | some n => cases h
      | none =>
          refine Or.inl ⟨hsaid.chunked.mp rfl, ?_, dechunk_iff.mp h⟩
          intro line hline hname
          obtain ⟨n, hn, -⟩ := hsaid.length line hline hname
          cases hn
  | false =>
      have hnot : ¬ Chunked lines := fun hc => Bool.false_ne_true (hsaid.chunked.mpr hc)
      cases length with
      | none =>
          refine Or.inr ⟨hnot, (Except.ok.inj h).symm, ?_⟩
          intro line hline hname
          obtain ⟨n, hn, -⟩ := hsaid.length line hline hname
          cases hn
      | some n =>
          obtain ⟨hlength, h⟩ := guard_ok h
          refine Or.inr ⟨hnot, (Except.ok.inj h).symm, ?_⟩
          intro line hline hname
          obtain ⟨m, hm, hval⟩ := hsaid.length line hline hname
          cases hm
          exact (not_not.mp hlength).trans hval

/-! ## Cut short -/

/-- Two bodies of one framing that goes on carry the same. -/
theorem framedBody_append {lines : List (List UInt8)} {framing : Framing}
    {body more content content' : List UInt8} (hsaid : Says lines framing)
    (hframed : ∃ line ∈ lines, Named "content-length" line ∨ Named "transfer-encoding" line)
    (hshort : framedBody framing body = .ok content)
    (hlong : framedBody framing (body ++ more) = .ok content') : content = content' := by
  rcases framedBody_cases hsaid hshort with ⟨hchunked, -, rest, hchunks⟩ | ⟨hnot, rfl, hlength⟩
  · rcases framedBody_cases hsaid hlong with ⟨-, -, rest', hchunks'⟩ | ⟨hnot, -⟩
    · exact ((hchunks.append more).unique hchunks').1
    · exact absurd hchunked hnot
  · rcases framedBody_cases hsaid hlong with ⟨hchunked, -⟩ | ⟨-, rfl, hlength'⟩
    · exact absurd hchunked hnot
    · obtain ⟨line, hline, hname | hname⟩ := hframed
      · -- a length counts every byte, so there are none more
        have hsame := (hlength line hline hname).trans (hlength' line hline hname).symm
        rw [List.length_append, Nat.left_eq_add, List.length_eq_zero_iff] at hsame
        rw [hsame, List.append_nil]
      · exact absurd ⟨line, hline, hname⟩ hnot

/-- **A framed response that is cut short** is refused or read as the whole is. -/
theorem cut_response_reads_alike {raw short : List UInt8} {answer : U16 × String}
    (hraw : parseResponse raw = .ok answer) (hframed : Framed raw) (hshort : short <+: raw) :
    (∃ e, parseResponse short = .error e) ∨ parseResponse short = .ok answer := by
  cases hparse : parseResponse short with
  | error e => exact Or.inl ⟨e, rfl⟩
  | ok answer' =>
      refine Or.inr (congrArg Except.ok ?_)
      obtain ⟨more, rfl⟩ := hshort
      obtain ⟨head, body, framing, content, hparts, -, hhead, hbody, htext⟩ :=
        parseResponse_iff.mp hparse
      obtain ⟨head', body', framing', content', hparts', -, hhead', hbody', htext'⟩ :=
        parseResponse_iff.mp hraw
      obtain ⟨head'', body'', hparts'', hline⟩ := hframed
      obtain ⟨rfl, rfl⟩ := (hparts.append more).unique hparts'
      obtain ⟨rfl, -⟩ := hparts'.unique hparts''
      -- one head, so one status and one framing
      obtain ⟨hstatus, rfl⟩ := Prod.mk.inj (Except.ok.inj (hhead.symm.trans hhead'))
      obtain rfl := framedBody_append (parseHead_said hhead) hline hbody hbody'
      exact Prod.ext hstatus (Option.some.inj (htext.symm.trans htext'))

/-- A gateway's reply in two chunks. -/
def chunkedHead : List UInt8 := asBytes "HTTP/1.1 200 OK\r\nTransfer-Encoding: chunked"

/-- A reply of two chunks of one byte. -/
def chunkedReply : List UInt8 :=
  chunkedHead ++ (headersEnd ++ asBytes "1\r\n\x7b\r\n1\r\n\x7d\r\n0\r\n\r\n")

theorem chunkedReply_framed : Framed chunkedReply :=
  ⟨chunkedHead, _, ⟨rfl, by decide +kernel⟩, asBytes "Transfer-Encoding: chunked",
    by decide +kernel, Or.inr (by decide +kernel)⟩

/-- Cut before the empty line that closes it, it is read as the whole. -/
theorem cut_response_reads_alike_reply :
    (∃ e, parseResponse (chunkedReply.take 62) = .error e)
      ∨ parseResponse (chunkedReply.take 62) = .ok (200, "\x7b\x7d") := by
  have haccepted : parseResponse chunkedReply = .ok (200, "\x7b\x7d") := by decide +kernel
  exact cut_response_reads_alike haccepted chunkedReply_framed (List.take_prefix _ _)

end QCoreHttpFraming
