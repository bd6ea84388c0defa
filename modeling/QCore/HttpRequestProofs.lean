import Mathlib
import QCore.MachineIntProofs
import QCore.FallibleProofs
import QCore.TraceProofs
import QCore.Utf8Proofs
import QCore.JsonProofs
import QCore.JsonGrammarProofs
import QCore.WireProofs
import QCore.ScanProofs
import QCore.HttpProofs
import QCore.HttpFramingProofs
import QCore.HttpRoundTripProofs

/-! # Requests of the built-in transport

    The transport that a client has when it is given no other writes one request to
    one address and reads until the gateway closes.  What it writes is not
    authenticated, so it writes to a loopback address only.

    The request is put together from texts that others chose.  A gateway that takes
    a stream apart by the rules of the format finds the parts again, and nothing
    behind them (`readRequest_requestText`): no part can end the head early, bring a
    header of its own or change where the body ends. -/

namespace QCoreHttpRequest

open QCoreMachineInt QCoreFallible QCoreTrace QCoreTrace.Traced QCoreUtf8 QCoreJson QCoreWire
  QCoreScan QCoreHttp QCoreHttpFraming QCoreHttpRoundTrip

/-! ## Hosts and ports -/

/-- The most bytes that are read. -/
def maxResponse : Nat := 8 * 1024 * 1024

/-- A text without a start. -/
def stripPrefix (start text : List Char) : Option (List Char) :=
  if start <+: text then some (text.drop start.length) else none

/-- A text before and after the first such character. -/
def splitOnce (c : Char) (text : List Char) : Option (List Char × List Char) :=
  if c ∈ text then some (text.takeWhile (· ≠ c), (text.dropWhile (· ≠ c)).tail) else none

/-- A text before and after the last such character. -/
def rsplitOnce (c : Char) (text : List Char) : Option (List Char × List Char) :=
  (splitOnce c text.reverse).map (fun (behind, before) => (before.reverse, behind.reverse))

/-- A text of digits, with or without a plus sign, as a 16-bit number. -/
def parseU16 (text : List Char) : Option U16 :=
  let digits := if text.head? = some '+' then text.tail else text
  if digits = [] ∨ digits.all Char.isDigit = false then none
  else tryFrom _ (Nat.ofDigitChars 10 digits 0)

/-- The host and the port of an authority, the host in brackets or not. -/
def splitHostport (hostport : List Char) : Except String (List Char × U16) :=
  match hostport with
  | '[' :: rest => do
      let (host, behind) ← okOr (splitOnce ']' rest) "the bracketed host has no closing bracket"
      let digits ← okOr (stripPrefix [':'] behind) "the base must be host:port"
      let port ← okOr (parseU16 digits) "the port is not a number"
      return (host, port)
  | _ => do
      let (host, digits) ← okOr (rsplitOnce ':' hostport) "the base must be host:port"
      let port ← okOr (parseU16 digits) "the port is not a number"
      return (host, port)

/-! ## Sockets -/

/-- What one read of a socket can put into the buffer. -/
abbrev Buffer := { bytes : List UInt8 // bytes.length ≤ 8192 }

/-- What the transport reaches for one request.  None of it is trusted. -/
structure Sockets (Addr : Type) where
  toSocketAddrs : String → U16 → Except String (List Addr)
  isLoopback : Addr → Bool
  connect : Addr → Except String Unit
  writeAll : List UInt8 → Except String Unit
  /-- Whether there is time left before a read. -/
  timeLeft : Nat → Bool
  read : Nat → Except String Buffer

/-- What the transport does that others can see. -/
inductive Act (Addr : Type)
  | resolve (host : String) (port : U16)
  | connect (addr : Addr)
  | write (bytes : List UInt8)
deriving DecidableEq

/-- A refusal with the step that it comes from. -/
def during {α : Type} (what : String) (x : Except String α) : Except String α :=
  x.mapError (fun e => what ++ ": " ++ e)

variable {Addr : Type}

/-- The loop that reads a response.  Every read but the last adds a byte, so the
    fuel outlasts the reads that the cap allows. -/
def readLoop (net : Sockets Addr) : Nat → Nat → List UInt8 → Except String (List UInt8)
  | 0, _, _ => .error outOfFuel
  | n + 1, turn, raw => do
      refuseIf (¬ net.timeLeft turn) "the response timed out"
      let buf ← during "read" (net.read turn)
      if buf.val = [] then return raw
      else
        refuseIf (maxResponse < raw.length + buf.val.length) "the response is too large"
        readLoop net n (turn + 1) (raw ++ buf.val)

/-- All that a gateway sends. -/
def readResponse (net : Sockets Addr) : Except String (List UInt8) :=
  readLoop net (maxResponse + 1) 0 []

/-! ## Requests -/

/-- A host and a port as a header names them. -/
def hostHeader (host : List Char) (port : U16) : String :=
  if ':' ∈ host then "[" ++ String.ofList host ++ "]:" ++ toString port.val
  else String.ofList host ++ ":" ++ toString port.val

/-- The text of a request. -/
def requestText (path : String) (host : List Char) (port : U16) (body : String) : String :=
  "POST " ++ path ++ " HTTP/1.1\r\n"
    ++ "Host: " ++ hostHeader host port ++ "\r\n"
    ++ "Content-Type: application/json\r\n"
    ++ "Content-Length: " ++ toString (asBytes body).length ++ "\r\n"
    ++ "Connection: close\r\n"
    ++ "\r\n"
    ++ body

/-- A text breaks its line. -/
def hasLineBreak (text : List Char) : Bool := text.any (fun c => c == '\r' || c == '\n')

/-- The host and port of a base and nothing after them. -/
def baseHostport (base : String) : Except String (List Char) := do
  let hostport ← okOr (stripPrefix "http://".toList base.toList)
    (if "https://".toList <+: base.toList then
      "the built in transport speaks plaintext http to a loopback node only, so reach an https gateway by supplying a TLS transport with Client::with_transport"
    else "the base must start with http://")
  refuseIf (hostport.any (fun c => c ∈ ['\r', '\n', '/', '?', '#', '@', ' ']))
    "the base must be http://host:port with nothing after the port"
  return hostport

/-- One exchange over a socket. -/
def post (net : Sockets Addr) (base path body : String) :
    Traced Unit (Act Addr) String (U16 × String) := do
  refuseIf (hasLineBreak path.toList) "the path carries a line break"
  let hostport ← baseHostport base
  let (host, port) ← splitHostport hostport
  emit (fun _ => .resolve (String.ofList host) port)
  let addrs ← during "resolve" (net.toSocketAddrs (String.ofList host) port)
  let addr ← okOr addrs.head? "the host did not resolve"
  refuseIf (¬ net.isLoopback addr)
    ("refusing plaintext to a non-loopback gateway (" ++ String.ofList host
      ++ "); its fee and nonce would be unauthenticated and rewritable to drain funds, use a loopback node or a secure tunnel")
  emit (fun _ => .connect addr)
  during "connect" (net.connect addr)
  emit (fun _ => .write (asBytes (requestText path host port body)))
  during "write" (net.writeAll (asBytes (requestText path host port body)))
  let raw ← readResponse net
  parseResponse raw

/-! ## What is read -/

/-- A socket gives those bytes from a turn on, in these pieces, and then closes. -/
inductive Streams (net : Sockets Addr) : Nat → List (List UInt8) → Prop
  | closed {turn : Nat} {buf : Buffer} (left : net.timeLeft turn = true)
      (read : net.read turn = .ok buf) (empty : buf.val = []) : Streams net turn []
  | more {turn : Nat} {buf : Buffer} {rest : List (List UInt8)} (left : net.timeLeft turn = true)
      (read : net.read turn = .ok buf) (some : buf.val ≠ [])
      (later : Streams net (turn + 1) rest) : Streams net turn (buf.val :: rest)

section

variable {net : Sockets Addr} {n turn : Nat} {raw whole : List UInt8}

theorem during_ok {α : Type} {what : String} {x : Except String α} {a : α} :
    during what x = .ok a ↔ x = .ok a := by
  cases x with
  | error e => exact iff_of_false nofun nofun
  | ok b => exact Iff.rfl

/-- **The loop reads a response whole**: with enough fuel it succeeds exactly when
    the socket closes in time with no more bytes than the cap, and gives all of them,
    wherever the reads were cut. -/
theorem readLoop_iff (hraw : raw.length ≤ maxResponse) (hfuel : maxResponse < n + raw.length) :
    readLoop net n turn raw = .ok whole ↔
      ∃ pieces, Streams net turn pieces ∧ whole = raw ++ pieces.flatten
        ∧ whole.length ≤ maxResponse := by
  induction n generalizing turn raw with
  | zero => omega
  | succ n ih =>
      rw [readLoop, guard_iff, bind_iff]
      constructor
      · rintro ⟨hleft, buf, hread, h⟩
        have htime : net.timeLeft turn = true := not_not.mp hleft
        rw [during_ok] at hread
        by_cases hempty : buf.val = []
        · rw [if_pos hempty] at h
          obtain rfl : raw = whole := Except.ok.inj h
          exact ⟨[], Streams.closed htime hread hempty, (List.append_nil _).symm, hraw⟩
        · rw [if_neg hempty, guard_iff] at h
          obtain ⟨hroom, h⟩ := h
          have hpos := List.length_pos_iff.mpr hempty
          obtain ⟨rest, hrest, hwhole, hcap⟩ := (ih (by rw [List.length_append]; omega)
            (by rw [List.length_append]; omega)).mp h
          refine ⟨buf.val :: rest, Streams.more htime hread hempty hrest, ?_, hcap⟩
          rw [hwhole, List.flatten_cons, List.append_assoc]
      · rintro ⟨pieces, hstreams, hwhole, hcap⟩
        cases hstreams with
        | @closed _ buf hleft hread hempty =>
            refine ⟨not_not.mpr hleft, buf, during_ok.mpr hread, ?_⟩
            rw [if_pos hempty, hwhole, List.flatten_nil, List.append_nil]
            rfl
        | @more _ buf rest hleft hread hsome hlater =>
            have hpos := List.length_pos_iff.mpr hsome
            rw [List.flatten_cons, ← List.append_assoc] at hwhole
            have hlen := congrArg List.length hwhole
            rw [List.length_append, List.length_append] at hlen
            refine ⟨not_not.mpr hleft, buf, during_ok.mpr hread, ?_⟩
            rw [if_neg hsome, guard_iff]
            refine ⟨by omega, (ih ?_ ?_).mpr ⟨rest, hlater, hwhole, hcap⟩⟩
            · rw [List.length_append]; omega
            · rw [List.length_append]; omega

theorem readResponse_iff : readResponse net = .ok whole ↔
    ∃ pieces, Streams net 0 pieces ∧ whole = pieces.flatten ∧ whole.length ≤ maxResponse :=
  readLoop_iff (Nat.zero_le _) (Nat.lt_succ_self _)

end

/-! ## A gateway that reads -/

/-- The values of the headers of a name, without the blanks around them. -/
def fieldValues (name : String) (lines : List (List UInt8)) : List (List UInt8) :=
  (lines.filter (fun line => eqIgnoreAsciiCase (upTo colon line) (asBytes name))).map
    (fun line => trimBlanks (after colon line))

/-- What a request line asks for. -/
def requestTarget (line : List UInt8) : Option (List UInt8) :=
  let rest := line.drop (asBytes "POST ").length
  if asBytes "POST " <+: line ∧ asBytes " HTTP/1.1" <:+ rest then
    some (rest.take (rest.length - (asBytes " HTTP/1.1").length))
  else none

/-- A request that a gateway took from a stream. -/
structure Received where
  target : List UInt8
  host : List UInt8
  body : List UInt8
deriving DecidableEq

/-- A stream taken apart by the rules of the format: a request and what follows it. -/
def readRequest (stream : List UInt8) : Option (Received × List UInt8) :=
  match find stream headersEnd with
  | none => none
  | some split =>
      let lines := pieces (stream.take split) crlf
      let rest := stream.drop (split + 4)
      match requestTarget (lines.head?.getD []), fieldValues "host" lines.tail,
          fieldValues "content-length" lines.tail, fieldValues "transfer-encoding" lines.tail with
      | some target, [host], [length], [] =>
          if length ≠ [] ∧ length.all isDigit = true ∧ decimalValue length ≤ rest.length then
            some ({ target, host, body := rest.take (decimalValue length) },
              rest.drop (decimalValue length))
          else none
      | _, _, _, _ => none

/-! ## What is written is read -/

/-- The first line of a request. -/
def requestLine (path : String) : String := "POST " ++ path ++ " HTTP/1.1"

/-- The names and values of the headers of a request. -/
def requestFields (host : List Char) (port : U16) (body : String) : List (String × String) :=
  [("Host", hostHeader host port), ("Content-Type", "application/json"),
    ("Content-Length", toString (asBytes body).length), ("Connection", "close")]

/-- A header line. -/
def fieldLine (field : String × String) : String := field.1 ++ ": " ++ field.2

/-- A carriage return is the same in characters and in bytes. -/
theorem carriage_agrees : Agrees (fun b => b != 0x0d) (fun c => c != '\r') := by
  refine agrees_of_ascii true (by decide) (fun b hb => ?_) (fun c hc => ?_)
  · rw [bne_iff_ne]
    rintro rfl
    exact absurd hb (by decide)
  · rw [bne_iff_ne]
    rintro rfl
    exact absurd hc (by decide)

/-- A text without a carriage return has no byte that begins a line end. -/
theorem no_carriage {text : String} (h : '\r' ∉ text.toList) : (0x0d : UInt8) ∉ asBytes text := by
  intro hmem
  have hinside : ∀ b ∈ asBytes text, (b != 0x0d) = true :=
    carriage_agrees.encode_inside (fun c hc => bne_iff_ne.mpr (fun heq => h (heq ▸ hc)))
  exact bne_iff_ne.mp (hinside 0x0d hmem) rfl

section

variable {path body : String} {host : List Char} {port : U16}

/-- A request is its line, its fields and its body. -/
theorem asBytes_requestText : asBytes (requestText path host port body)
    = message (asBytes (requestLine path)) ((requestFields host port body).map fieldLine)
        (asBytes body) := by
  have hbreak : asBytes "\r\n" = crlf := by decide +kernel
  have hversion : asBytes " HTTP/1.1\r\n" = asBytes " HTTP/1.1" ++ crlf := by decide +kernel
  have htype : asBytes "Content-Type: application/json\r\n"
      = asBytes "Content-Type" ++ (asBytes ": " ++ (asBytes "application/json" ++ crlf)) := by
    decide +kernel
  have hclose : asBytes "Connection: close\r\n"
      = asBytes "Connection" ++ (asBytes ": " ++ (asBytes "close" ++ crlf)) := by decide +kernel
  have hhost : asBytes "Host: " = asBytes "Host" ++ asBytes ": " := by decide +kernel
  have hlength : asBytes "Content-Length: " = asBytes "Content-Length" ++ asBytes ": " := by
    decide +kernel
  unfold requestText requestLine requestFields
  generalize hostHeader host port = header
  generalize toString (asBytes body).length = size
  simp only [fieldLine, message, headOf, asBytes_append, List.map_cons, List.map_nil,
    List.flatMap_cons, List.flatMap_nil, List.append_nil, List.append_assoc, headersEnd_eq]
  generalize asBytes path = target, asBytes header = shown, asBytes size = digits,
    asBytes body = content
  simp only [hbreak, hversion, htype, hclose, hhost, hlength, List.append_assoc]

theorem asBytes_fieldLine (field : String × String) :
    asBytes (fieldLine field) = asBytes field.1 ++ (colon :: (space :: asBytes field.2)) := by
  have hmark : asBytes ": " = [colon, space] := by decide
  rw [fieldLine, asBytes_append, asBytes_append, hmark, List.append_assoc]
  rfl

/-- The value of a header is read back without the blanks around it. -/
theorem fieldValues_fieldLine {name : String} {fields : List (String × String)}
    (h : ∀ field ∈ fields, colon ∉ asBytes field.1) :
    fieldValues name ((fields.map fieldLine).map asBytes)
      = (fields.filter (fun field => eqIgnoreAsciiCase (asBytes field.1) (asBytes name))).map
          (fun field => trimBlanks (asBytes field.2)) := by
  have hspace : ∀ value : List UInt8, trimBlanks (space :: value) = trimBlanks value :=
    fun _ => rfl
  induction fields with
  | nil => rfl
  | cons field fields ih =>
      have hcolon := h field List.mem_cons_self
      have ih := ih (fun other hother => h other (List.mem_cons_of_mem _ hother))
      rw [fieldValues] at ih ⊢
      rw [List.map_cons, List.map_cons, List.filter_cons, List.filter_cons, asBytes_fieldLine,
        upTo_append hcolon]
      split
      · rw [List.map_cons, List.map_cons, ih, after_append hcolon, hspace]
      · exact ih

theorem asBytes_requestLine : asBytes (requestLine path)
    = asBytes "POST " ++ (asBytes path ++ asBytes " HTTP/1.1") := by
  rw [requestLine, asBytes_append, asBytes_append, List.append_assoc]

theorem requestTarget_requestLine : requestTarget (asBytes (requestLine path)) = some (asBytes path) := by
  rw [asBytes_requestLine, requestTarget, List.drop_left]
  rw [if_pos ⟨List.prefix_append _ _, List.suffix_append _ _⟩, List.length_append,
    Nat.add_sub_cancel, List.take_left]

theorem no_carriage_number (n : ℕ) : (0x0d : UInt8) ∉ asBytes (toString n) := by
  intro hmem
  exact absurd (List.all_eq_true.mp (all_isDigit_toString n) _ hmem) (by decide)

theorem number_not_blank (n : ℕ) : ∀ b ∈ asBytes (toString n), ¬ isBlank b := by
  refine not_blank (space_not_digit (all_isDigit_toString n)) (fun hmem => ?_)
  exact absurd (List.all_eq_true.mp (all_isDigit_toString n) _ hmem) (by decide)

/-- A number is written in digits, and there is one at least. -/
theorem toString_not_empty (n : ℕ) : asBytes (toString n) ≠ [] := by
  rw [asBytes_toString]
  intro hnil
  have hlength := length_le_length_encode (Nat.toDigits 10 n)
  rw [hnil] at hlength
  exact Nat.toDigits_ne_nil (List.length_eq_zero_iff.mp (Nat.le_zero.mp hlength))

/-- The host that is sent breaks no line where the given one breaks none. -/
theorem no_carriage_hostHeader (hhost : '\r' ∉ host) :
    (0x0d : UInt8) ∉ asBytes (hostHeader host port) := by
  have hchars : (0x0d : UInt8) ∉ asBytes (String.ofList host) :=
    no_carriage (by rwa [String.toList_ofList])
  have hport := no_carriage_number port.val
  have hmarks : (0x0d : UInt8) ∉ asBytes "[" ∧ (0x0d : UInt8) ∉ asBytes "]:"
      ∧ (0x0d : UInt8) ∉ asBytes ":" := by decide
  rw [hostHeader]
  split
  · simp only [asBytes_append, List.mem_append, not_or]
    exact ⟨⟨⟨hmarks.1, hchars⟩, hmarks.2.1⟩, hport⟩
  · simp only [asBytes_append, List.mem_append, not_or]
    exact ⟨⟨hchars, hmarks.2.2⟩, hport⟩

/-- No header of a request can end early, nor is one empty. -/
theorem requestFields_whole (hhost : '\r' ∉ host) :
    ∀ line ∈ (requestFields host port body).map fieldLine,
      asBytes line ≠ [] ∧ ¬ crlf <:+: asBytes line := by
  have hwhole : ∀ field : String × String, (0x0d : UInt8) ∉ asBytes field.1 →
      (0x0d : UInt8) ∉ asBytes field.2 →
      asBytes (fieldLine field) ≠ [] ∧ ¬ crlf <:+: asBytes (fieldLine field) := by
    intro field hname hvalue
    rw [asBytes_fieldLine]
    refine ⟨List.append_ne_nil_of_right_ne_nil _ (List.cons_ne_nil _ _), ?_⟩
    exact no_crlf_append hname (no_crlf_cons (by decide) (no_crlf_cons (by decide) (no_crlf hvalue)))
  have hnames : (0x0d : UInt8) ∉ asBytes "Host" ∧ (0x0d : UInt8) ∉ asBytes "Content-Type"
      ∧ (0x0d : UInt8) ∉ asBytes "Content-Length" ∧ (0x0d : UInt8) ∉ asBytes "Connection" := by
    decide
  have hvalues : (0x0d : UInt8) ∉ asBytes "application/json" ∧ (0x0d : UInt8) ∉ asBytes "close" := by
    decide
  intro line hline
  obtain ⟨field, hfield, rfl⟩ := List.mem_map.mp hline
  simp only [requestFields, List.mem_cons, List.not_mem_nil, or_false] at hfield
  rcases hfield with rfl | rfl | rfl | rfl
  · exact hwhole _ hnames.1 (no_carriage_hostHeader hhost)
  · exact hwhole _ hnames.2.1 hvalues.1
  · exact hwhole _ hnames.2.2.1 (no_carriage_number _)
  · exact hwhole _ hnames.2.2.2 hvalues.2

/-- A request names one host and one length. -/
theorem requestFields_named (host : List Char) (port : U16) (body : String) :
    (∀ field ∈ requestFields host port body, colon ∉ asBytes field.1)
      ∧ (requestFields host port body).filter
          (fun field => eqIgnoreAsciiCase (asBytes field.1) (asBytes "host"))
        = [("Host", hostHeader host port)]
      ∧ (requestFields host port body).filter
          (fun field => eqIgnoreAsciiCase (asBytes field.1) (asBytes "content-length"))
        = [("Content-Length", toString (asBytes body).length)]
      ∧ (requestFields host port body).filter
          (fun field => eqIgnoreAsciiCase (asBytes field.1) (asBytes "transfer-encoding")) = [] := by
  unfold requestFields
  generalize hostHeader host port = header
  generalize toString (asBytes body).length = size
  have hnames : ∀ name ∈ ["Host", "Content-Type", "Content-Length", "Connection"],
      colon ∉ asBytes name := by decide
  have hhost : ["Host", "Content-Type", "Content-Length", "Connection"].map
      (fun name => eqIgnoreAsciiCase (asBytes name) (asBytes "host"))
        = [true, false, false, false] := by decide +kernel
  have hlength : ["Host", "Content-Type", "Content-Length", "Connection"].map
      (fun name => eqIgnoreAsciiCase (asBytes name) (asBytes "content-length"))
        = [false, false, true, false] := by decide +kernel
  have hchunked : ["Host", "Content-Type", "Content-Length", "Connection"].map
      (fun name => eqIgnoreAsciiCase (asBytes name) (asBytes "transfer-encoding"))
        = [false, false, false, false] := by decide +kernel
  simp only [List.map_cons, List.map_nil, List.cons.injEq, and_true] at hhost hlength hchunked
  refine ⟨?_, ?_, ?_, ?_⟩
  · intro field hfield
    exact hnames field.1 (List.mem_map_of_mem hfield)
  · simp only [List.filter_cons, hhost, List.filter_nil, if_true, Bool.false_eq_true, if_false]
  · simp only [List.filter_cons, hlength, List.filter_nil, if_true, Bool.false_eq_true, if_false]
  · simp only [List.filter_cons, hchunked, List.filter_nil, Bool.false_eq_true, if_false]

/-- The head of a request, and its lines. -/
theorem parts_requestText (hpath : '\r' ∉ path.toList) (hhost : '\r' ∉ host) :
    ∃ head, Parts (asBytes (requestText path host port body)) head (asBytes body)
      ∧ pieces head crlf = asBytes (requestLine path)
        :: ((requestFields host port body).map fieldLine).map asBytes := by
  have hline : ¬ crlf <:+: asBytes (requestLine path) := by
    have hparts : (0x0d : UInt8) ∉ asBytes "POST " ∧ (0x0d : UInt8) ∉ asBytes " HTTP/1.1" := by
      decide
    rw [asBytes_requestLine]
    exact no_crlf_append hparts.1 (no_crlf_append (no_carriage hpath) (no_crlf hparts.2))
  have hwhole := @requestFields_whole body host port hhost
  refine ⟨headOf (asBytes (requestLine path)) ((requestFields host port body).map fieldLine), ?_,
    pieces_headOf hline (fun line hmem => (hwhole line hmem).2)⟩
  rw [asBytes_requestText]
  exact parts_message hline hwhole (asBytes body)

/-- A stream with such a head is a request as soon as the body is there. -/
theorem readRequest_parts {stream head rest : List UInt8} (hparts : Parts stream head rest)
    (hlines : pieces head crlf = asBytes (requestLine path)
      :: ((requestFields host port body).map fieldLine).map asBytes) :
    readRequest stream = if (asBytes body).length ≤ rest.length then
      some ({ target := asBytes path, host := trimBlanks (asBytes (hostHeader host port)),
              body := rest.take (asBytes body).length }, rest.drop (asBytes body).length)
    else none := by
  obtain ⟨hcolon, hnamed, hlength, hchunked⟩ := requestFields_named host port body
  have hsize := trimBlanks_self (number_not_blank (asBytes body).length)
  rw [readRequest, hparts.first]
  simp only [hparts.take, hparts.drop, hlines, List.head?_cons, Option.getD_some, List.tail_cons,
    requestTarget_requestLine, fieldValues_fieldLine hcolon, hnamed, hlength, hchunked,
    List.map_cons, List.map_nil, hsize, decimalValue_toString]
  by_cases hfits : (asBytes body).length ≤ rest.length
  · rw [if_pos hfits, if_pos ⟨toString_not_empty _, all_isDigit_toString _, hfits⟩]
  · rw [if_neg hfits, if_neg (fun h => hfits h.2.2)]

/-- **A gateway reads back what was put into a request**, and whatever follows the
    request it reads as following it. -/
theorem readRequest_requestText (hpath : '\r' ∉ path.toList) (hhost : '\r' ∉ host)
    (more : List UInt8) :
    readRequest (asBytes (requestText path host port body) ++ more)
      = some ({ target := asBytes path, host := trimBlanks (asBytes (hostHeader host port)),
                body := asBytes body }, more) := by
  obtain ⟨head, hparts, hlines⟩ := @parts_requestText path body host port hpath hhost
  have hfits : (asBytes body).length ≤ (asBytes body ++ more).length := by
    rw [List.length_append]
    exact Nat.le_add_right _ _
  rw [readRequest_parts (hparts.append more) hlines, if_pos hfits, List.take_left, List.drop_left]

/-- **A request that is cut short** is none. -/
theorem readRequest_cut (hpath : '\r' ∉ path.toList) (hhost : '\r' ∉ host) {short : List UInt8}
    (hshort : short <+: asBytes (requestText path host port body))
    (hcut : short ≠ asBytes (requestText path host port body)) : readRequest short = none := by
  obtain ⟨head, hparts, hlines⟩ := @parts_requestText path body host port hpath hhost
  obtain ⟨missing, hmissing⟩ := hshort
  cases hfind : find short headersEnd with
  | none => rw [readRequest, hfind]
  | some k =>
      -- the head is whole, so it is the body that was cut
      have hshort := parts_of_find hfind
      obtain ⟨hhead, hbody⟩ := Parts.unique (hmissing ▸ hshort.append missing) hparts
      rw [readRequest_parts hshort (hhead ▸ hlines), if_neg]
      intro hfits
      rw [← hbody, List.length_append] at hfits
      have hnil : missing = [] := List.length_eq_zero_iff.mp (by omega)
      rw [hnil, List.append_nil] at hmissing
      exact hcut hmissing

end

/-! ## One exchange -/

/-- The host and port that a base names. -/
def Names (base : String) (host : List Char) (port : U16) : Prop :=
  ∃ hostport, base.toList = "http://".toList ++ hostport
    ∧ (∀ c ∈ hostport, c ∉ ['\r', '\n', '/', '?', '#', '@', ' '])
    ∧ splitHostport hostport = .ok (host, port)

/-- The address that the transport takes for a host and port. -/
structure Resolves (net : Sockets Addr) (host : List Char) (port : U16) (addr : Addr) : Prop where
  first : ∃ more, net.toSocketAddrs (String.ofList host) port = .ok (addr :: more)
  loopback : net.isLoopback addr = true

/-- What stands before the first separator is part of the text. -/
theorem splitOnce_mem {c d : Char} {text before behind : List Char}
    (h : splitOnce c text = some (before, behind)) (hd : d ∈ before) : d ∈ text := by
  rw [splitOnce] at h
  split at h
  · obtain ⟨rfl, -⟩ := Prod.ext_iff.mp (Option.some.inj h)
    exact (List.takeWhile_sublist _).mem hd
  · cases h

/-- What stands before the last separator is part of the text. -/
theorem rsplitOnce_mem {c d : Char} {text before behind : List Char}
    (h : rsplitOnce c text = some (before, behind)) (hd : d ∈ before) : d ∈ text := by
  rw [rsplitOnce, Option.map_eq_some_iff] at h
  obtain ⟨⟨front, back⟩, hsplit, heq⟩ := h
  obtain ⟨rfl, -⟩ := Prod.ext_iff.mp heq
  rw [splitOnce] at hsplit
  split at hsplit
  · obtain ⟨-, rfl⟩ := Prod.ext_iff.mp (Option.some.inj hsplit)
    have hback := (List.dropWhile_sublist (· ≠ c)).mem (List.mem_of_mem_tail (List.mem_reverse.mp hd))
    exact List.mem_reverse.mp hback
  · cases hsplit

/-- The two ways a host and port are written. -/
theorem splitHostport_cases {hostport host : List Char} {port : U16}
    (h : splitHostport hostport = .ok (host, port)) :
    (∃ rest digits, hostport = '[' :: rest ∧ splitOnce ']' rest = some (host, ':' :: digits)
        ∧ parseU16 digits = some port)
      ∨ (hostport.head? ≠ some '[' ∧ ∃ digits, rsplitOnce ':' hostport = some (host, digits)
        ∧ parseU16 digits = some port) := by
  unfold splitHostport at h
  split at h
  · rename_i rest
    obtain ⟨⟨host', behind⟩, hsplit, h⟩ := bind_iff.mp h
    obtain ⟨digits, hdigits, h⟩ := value_iff.mp h
    obtain ⟨port', hport, h⟩ := value_iff.mp h
    obtain ⟨rfl, rfl⟩ := Prod.ext_iff.mp (Except.ok.inj h)
    rw [stripPrefix] at hdigits
    split at hdigits
    · next hcolon =>
        obtain ⟨tail, rfl⟩ := hcolon
        obtain rfl : tail = digits := Option.some.inj hdigits
        exact Or.inl ⟨rest, tail, rfl, okOr_ok hsplit, hport⟩
    · cases hdigits
  · rename_i hnot
    obtain ⟨⟨host', digits⟩, hsplit, h⟩ := bind_iff.mp h
    obtain ⟨port', hport, h⟩ := value_iff.mp h
    obtain ⟨rfl, rfl⟩ := Prod.ext_iff.mp (Except.ok.inj h)
    refine Or.inr ⟨fun hhead => ?_, digits, okOr_ok hsplit, hport⟩
    obtain ⟨rest, rfl⟩ := List.head?_eq_some_iff.mp hhead
    exact hnot rest rfl

theorem splitHostport_mem {hostport host : List Char} {port : U16}
    (h : splitHostport hostport = .ok (host, port)) {c : Char} (hc : c ∈ host) : c ∈ hostport := by
  rcases splitHostport_cases h with ⟨rest, _, rfl, hsplit, -⟩ | ⟨-, _, hsplit, -⟩
  · exact List.mem_cons_of_mem _ (splitOnce_mem hsplit hc)
  · exact rsplitOnce_mem hsplit hc

section

variable {net : Sockets Addr} {base path body : String} {host : List Char} {port : U16}

/-- A base is a scheme and a host with a port, and nothing after them. -/
theorem baseHostport_ok {hostport : List Char} : baseHostport base = .ok hostport ↔
    base.toList = "http://".toList ++ hostport
      ∧ ∀ c ∈ hostport, c ∉ ['\r', '\n', '/', '?', '#', '@', ' '] := by
  rw [baseHostport, value_iff]
  constructor
  · rintro ⟨text, htext, h⟩
    obtain ⟨hplain, h⟩ := guard_iff.mp h
    obtain rfl : text = hostport := Except.ok.inj h
    rw [stripPrefix] at htext
    split at htext
    · next hstart =>
        obtain ⟨tail, htail⟩ := hstart
        rw [← htail, List.drop_left] at htext
        obtain rfl : tail = text := Option.some.inj htext
        refine ⟨htail.symm, fun c hc hmem => hplain ?_⟩
        exact List.any_eq_true.mpr ⟨c, hc, decide_eq_true hmem⟩
    · cases htext
  · rintro ⟨hbase, hplain⟩
    refine ⟨hostport, ?_, guard_iff.mpr ⟨fun hany => ?_, rfl⟩⟩
    · rw [hbase, stripPrefix, if_pos (List.prefix_append _ _), List.drop_left]
    · obtain ⟨c, hc, hmem⟩ := List.any_eq_true.mp hany
      exact hplain c hc (of_decide_eq_true hmem)

theorem names_of_base {hostport : List Char} (hbase : baseHostport base = .ok hostport)
    (hsplit : splitHostport hostport = .ok (host, port)) : Names base host port := by
  obtain ⟨heq, hplain⟩ := baseHostport_ok.mp hbase
  exact ⟨hostport, heq, hplain, hsplit⟩

theorem Names.whole (h : Names base host port) : '\r' ∉ host := by
  obtain ⟨hostport, -, hplain, hsplit⟩ := h
  exact fun hc => hplain _ (splitHostport_mem hsplit hc) (by decide)

theorem whole_path (h : ¬ hasLineBreak path.toList = true) : '\r' ∉ path.toList := by
  intro hc
  exact h (List.any_eq_true.mpr ⟨'\r', hc, by decide⟩)

/-- What a request is on the wire. -/
abbrev onWire (path body : String) (host : List Char) (port : U16) : List UInt8 :=
  asBytes (requestText path host port body)

/-- The acts of one use of the transport, in their order.  It can stop after each. -/
inductive Acts (net : Sockets Addr) (base path body : String) : List (Act Addr) → Prop
  | none : Acts net base path body []
  | resolve {host : List Char} {port : U16} (whole : ¬ hasLineBreak path.toList = true)
      (names : Names base host port) :
      Acts net base path body [.resolve (String.ofList host) port]
  | connect {host : List Char} {port : U16} {addr : Addr} (whole : ¬ hasLineBreak path.toList = true)
      (names : Names base host port) (resolves : Resolves net host port addr) :
      Acts net base path body [.resolve (String.ofList host) port, .connect addr]
  | write {host : List Char} {port : U16} {addr : Addr} (whole : ¬ hasLineBreak path.toList = true)
      (names : Names base host port) (resolves : Resolves net host port addr)
      (connected : net.connect addr = .ok ()) :
      Acts net base path body
        [.resolve (String.ofList host) port, .connect addr, .write (onWire path body host port)]

end

/-- A host resolves to the first address that is found, if that is a loopback one. -/
theorem resolves_of_first {net : Sockets Addr} {host : List Char} {port : U16} {addrs : List Addr}
    {addr : Addr} (haddrs : during "resolve" (net.toSocketAddrs (String.ofList host) port) = .ok addrs)
    (haddr : okOr addrs.head? "the host did not resolve" = .ok addr)
    (hloop : ¬ ¬ net.isLoopback addr = true) : Resolves net host port addr := by
  obtain ⟨more, rfl⟩ := List.head?_eq_some_iff.mp (okOr_ok haddr)
  exact ⟨⟨more, during_ok.mp haddrs⟩, not_not.mp hloop⟩

section

variable {α β : Type} {s : Unit}

/-- What holds when nothing is done, and of all that is done with a value, holds of what
    is done. -/
theorem value_acts {Q : List (Act Addr) → Prop} {x : Except String α}
    {f : α → Traced Unit (Act Addr) String β} (hnone : Q [])
    (hsome : ∀ a, x = .ok a → Q (f a s).events) :
    Q ((liftM x >>= f : Traced Unit (Act Addr) String β) s).events := by
  cases x with
  | error e => exact hnone
  | ok a => exact hsome a rfl

theorem emit_acts {Q : List (Act Addr) → Prop} {act : Act Addr}
    {f : Unit → Traced Unit (Act Addr) String β} (h : Q (act :: (f () s).events)) :
    Q ((emit (fun _ => act) >>= f : Traced Unit (Act Addr) String β) s).events := h

end

/-- Acts that go on from others. -/
abbrev After (net : Sockets Addr) (base path body : String) (before acts : List (Act Addr)) : Prop :=
  Acts net base path body (before ++ acts)

/-- **What the transport does** is one of these. -/
theorem post_acts (net : Sockets Addr) (base path body : String) :
    Acts net base path body (post net base path body ()).events := by
  rw [post]
  refine value_acts Acts.none (fun _ hpath => ?_)
  have hpath := refuseIf_ok hpath
  refine value_acts Acts.none (fun hostport hbase => ?_)
  refine value_acts Acts.none (fun hp hsplit => ?_)
  obtain ⟨host, port⟩ := hp
  have hnames := names_of_base hbase hsplit
  have hstop := @Acts.resolve _ net base path body host port hpath hnames
  refine emit_acts ?_
  refine value_acts (Q := After net base path body [.resolve (String.ofList host) port]) hstop
    (fun addrs haddrs => ?_)
  refine value_acts (Q := After net base path body [.resolve (String.ofList host) port]) hstop
    (fun addr haddr => ?_)
  refine value_acts (Q := After net base path body [.resolve (String.ofList host) port]) hstop
    (fun _ hloop => ?_)
  have hresolves := resolves_of_first haddrs haddr (refuseIf_ok hloop)
  have hconnect := @Acts.connect _ net base path body host port addr hpath hnames hresolves
  refine emit_acts (Q := After net base path body [.resolve (String.ofList host) port]) ?_
  refine value_acts (Q := After net base path body [.resolve (String.ofList host) port, .connect addr])
    hconnect (fun _ hconnected => ?_)
  have hwrite := @Acts.write _ net base path body host port addr hpath hnames hresolves
    (during_ok.mp hconnected)
  refine emit_acts
    (Q := After net base path body [.resolve (String.ofList host) port, .connect addr]) ?_
  refine value_acts (Q := After net base path body [.resolve (String.ofList host) port,
    .connect addr, .write (onWire path body host port)]) hwrite (fun _ _ => ?_)
  exact value_acts (Q := After net base path body [.resolve (String.ofList host) port,
    .connect addr, .write (onWire path body host port)]) hwrite (fun _ _ => hwrite)

section

variable {net : Sockets Addr} {base path body : String} {u : Unit}

/-- **The transport answers** exactly when a loopback address took the whole request
    and closed in time, and the answer is what all that was read says. -/
theorem post_gives {answer : U16 × String} :
    Gives (post net base path body) () answer () ↔
      (¬ hasLineBreak path.toList = true) ∧ ∃ host port addr raw, Names base host port
        ∧ Resolves net host port addr ∧ net.connect addr = .ok ()
        ∧ net.writeAll (onWire path body host port) = .ok ()
        ∧ readResponse net = .ok raw ∧ parseResponse raw = .ok answer := by
  rw [post]
  constructor
  · intro h
    obtain ⟨hpath, h⟩ := gives_guard h
    obtain ⟨hostport, hbase, h⟩ := gives_value h
    obtain ⟨⟨host, port⟩, hsplit, h⟩ := gives_value h
    obtain ⟨_, _, -, h⟩ := gives_bind h
    obtain ⟨addrs, haddrs, h⟩ := gives_value h
    obtain ⟨addr, haddr, h⟩ := gives_value h
    obtain ⟨hloop, h⟩ := gives_guard h
    obtain ⟨_, _, -, h⟩ := gives_bind h
    obtain ⟨_, hconnect, h⟩ := gives_value h
    obtain ⟨_, _, -, h⟩ := gives_bind h
    obtain ⟨_, hwritten, h⟩ := gives_value h
    obtain ⟨raw, hraw, h⟩ := gives_value h
    exact ⟨hpath, host, port, addr, raw, names_of_base hbase hsplit,
      resolves_of_first haddrs haddr hloop, during_ok.mp hconnect, during_ok.mp hwritten, hraw,
      (gives_ofExcept h).1⟩
  · rintro ⟨hpath, host, port, addr, raw, ⟨hostport, hbase, hplain, hsplit⟩, hresolves, hconnect,
      hwritten, hraw, hanswer⟩
    obtain ⟨more, hfirst⟩ := hresolves.first
    have hguard : (refuseIf (hasLineBreak path.toList) "the path carries a line break"
        : Except String Unit) = .ok () := if_neg hpath
    refine bind_gives (ofExcept_gives hguard) ?_
    refine bind_gives (ofExcept_gives (baseHostport_ok.mpr ⟨hbase, hplain⟩)) ?_
    refine bind_gives (ofExcept_gives hsplit) (bind_gives (m := emit _) ⟨rfl, rfl⟩ ?_)
    refine bind_gives (ofExcept_gives (during_ok.mpr hfirst)) ?_
    refine bind_gives (ofExcept_gives (a := addr) rfl) ?_
    refine bind_gives (ofExcept_gives (if_neg (not_not.mpr hresolves.loopback))) ?_
    refine bind_gives (m := emit _) ⟨rfl, rfl⟩ (bind_gives (ofExcept_gives (during_ok.mpr hconnect)) ?_)
    refine bind_gives (m := emit _) ⟨rfl, rfl⟩ (bind_gives (ofExcept_gives (during_ok.mpr hwritten)) ?_)
    exact bind_gives (ofExcept_gives hraw) (ofExcept_gives hanswer)

/-- A request is written as soon as there is a connection. -/
theorem post_writes {host : List Char} {port : U16} {addr : Addr}
    (hpath : ¬ hasLineBreak path.toList = true) (hnames : Names base host port)
    (hresolves : Resolves net host port addr) (hconnect : net.connect addr = .ok ()) :
    Emits (post net base path body) () (.write (onWire path body host port)) := by
  obtain ⟨hostport, hbase, hplain, hsplit⟩ := hnames
  obtain ⟨more, hfirst⟩ := hresolves.first
  have hguard : (refuseIf (hasLineBreak path.toList = true) "the path carries a line break"
      : Except String Unit) = .ok () := if_neg hpath
  have hcauses : Causes (· = Act.write (onWire path body host port)) (post net base path body) () := by
    rw [post]
    refine bind_causes (ofExcept_gives hguard) ?_
    refine bind_causes (ofExcept_gives (baseHostport_ok.mpr ⟨hbase, hplain⟩)) ?_
    refine bind_causes (ofExcept_gives hsplit) (bind_causes (m := emit _) ⟨rfl, rfl⟩ ?_)
    refine bind_causes (ofExcept_gives (during_ok.mpr hfirst)) ?_
    refine bind_causes (ofExcept_gives (a := addr) rfl) ?_
    refine bind_causes (ofExcept_gives (if_neg (not_not.mpr hresolves.loopback))) ?_
    refine bind_causes (m := emit _) ⟨rfl, rfl⟩
      (bind_causes (ofExcept_gives (during_ok.mpr hconnect)) ?_)
    exact bind_causes_first ⟨_, rfl, List.mem_singleton_self _⟩
  obtain ⟨_, rfl, hemits⟩ := hcauses
  exact hemits

end

/-- What is written is written once, after a connection to a loopback address, and a
    gateway reads back from it what was asked. -/
theorem post_written (net : Sockets Addr) (base path body : String) {bytes : List UInt8}
    (hwrite : Emits (post net base path body) () (.write bytes)) :
    ∃ host port addr, Names base host port ∧ Resolves net host port addr
      ∧ net.connect addr = .ok () ∧ (post net base path body ()).events
        = [.resolve (String.ofList host) port, .connect addr, .write bytes]
      ∧ (∀ more, readRequest (bytes ++ more)
        = some ({ target := asBytes path, host := trimBlanks (asBytes (hostHeader host port)),
                  body := asBytes body }, more))
      ∧ ∀ short, short <+: bytes → short ≠ bytes → readRequest short = none := by
  rw [Emits] at hwrite
  have hdone := post_acts net base path body
  generalize (post net base path body ()).events = acts at hwrite hdone ⊢
  cases hdone with
  | none => cases hwrite
  | resolve => simp at hwrite
  | connect => simp at hwrite
  | @write host port addr hpath hnames hresolves hconnected =>
      have hbytes : bytes = onWire path body host port := by simpa using hwrite
      refine ⟨host, port, addr, hnames, hresolves, hconnected, by rw [hbytes], ?_⟩
      rw [hbytes]
      exact ⟨readRequest_requestText (whole_path hpath) hnames.whole,
        fun short => readRequest_cut (whole_path hpath) hnames.whole⟩

/-- **One exchange.**  Whatever the transport reaches and is asked for: what it
    writes, it writes once, after it connected to a loopback address, and a gateway
    reads back from it the path and the body, and nothing else in front of what may
    follow; of a request that breaks off it reads nothing.  It answers exactly when all
    of that was written and the gateway closed in time, and what it answers is read
    from all the bytes that came, however they were cut. -/
theorem post_exchanges (net : Sockets Addr) (base path body : String) :
    (∀ bytes, Emits (post net base path body) () (.write bytes) →
      ∃ host port addr, Names base host port ∧ Resolves net host port addr
        ∧ net.connect addr = .ok () ∧ (post net base path body ()).events
          = [.resolve (String.ofList host) port, .connect addr, .write bytes]
        ∧ (∀ more, readRequest (bytes ++ more)
          = some ({ target := asBytes path, host := trimBlanks (asBytes (hostHeader host port)),
                    body := asBytes body }, more))
        ∧ ∀ short, short <+: bytes → short ≠ bytes → readRequest short = none)
      ∧ ∀ answer, Gives (post net base path body) () answer () ↔
        (¬ hasLineBreak path.toList = true) ∧ ∃ host port addr pieces, Names base host port
          ∧ Resolves net host port addr ∧ net.connect addr = .ok ()
          ∧ net.writeAll (onWire path body host port) = .ok () ∧ Streams net 0 pieces
          ∧ pieces.flatten.length ≤ maxResponse ∧ parseResponse pieces.flatten = .ok answer := by
  refine ⟨fun _ hwrite => post_written net base path body hwrite, fun answer => ?_⟩
  rw [post_gives]
  constructor
  · rintro ⟨hpath, host, port, addr, raw, hnames, hresolves, hconnect, hwritten, hraw, hanswer⟩
    obtain ⟨pieces, hstreams, rfl, hcap⟩ := readResponse_iff.mp hraw
    exact ⟨hpath, host, port, addr, pieces, hnames, hresolves, hconnect, hwritten, hstreams, hcap,
      hanswer⟩
  · rintro ⟨hpath, host, port, addr, pieces, hnames, hresolves, hconnect, hwritten, hstreams,
      hcap, hanswer⟩
    exact ⟨hpath, host, port, addr, _, hnames, hresolves, hconnect, hwritten,
      readResponse_iff.mpr ⟨pieces, hstreams, rfl, hcap⟩, hanswer⟩

/-- A node on this machine whose reply comes in two reads. -/
def localSockets : Sockets Unit where
  toSocketAddrs _ _ := .ok [()]
  isLoopback _ := true
  connect _ := .ok ()
  writeAll _ := .ok ()
  timeLeft _ := true
  read turn := match turn with
    | 0 => .ok ⟨asBytes "HTTP/1.1 200 OK\r\nContent-", by decide +kernel⟩
    | 1 => .ok ⟨asBytes "Length: 2\r\n\r\nok", by decide +kernel⟩
    | _ => .ok ⟨[], by decide⟩

/-- The local gateway answers in two pieces. -/
theorem localSockets_streams : Streams localSockets 0
    [asBytes "HTTP/1.1 200 OK\r\nContent-", asBytes "Length: 2\r\n\r\nok"] := by
  have hfirst : asBytes "HTTP/1.1 200 OK\r\nContent-" ≠ [] := by decide
  have hsecond : asBytes "Length: 2\r\n\r\nok" ≠ [] := by decide
  have hend : Streams localSockets 2 [] := Streams.closed rfl rfl rfl
  have hlater : Streams localSockets 1 [asBytes "Length: 2\r\n\r\nok"] :=
    @Streams.more _ localSockets 1 ⟨_, by decide +kernel⟩ _ rfl rfl hsecond hend
  exact @Streams.more _ localSockets 0 ⟨_, by decide +kernel⟩ _ rfl rfl hfirst hlater

theorem local_names : Names "http://127.0.0.1:80" "127.0.0.1".toList 80 :=
  ⟨"127.0.0.1:80".toList, by decide +kernel, by simp, by decide +kernel⟩

/-- The request is written, and the two pieces are read as one reply. -/
theorem post_exchanges_at_local :
    (∃ bytes, Emits (post localSockets "http://127.0.0.1:80" "/v1/node_info" "{}") () (.write bytes)
      ∧ (readRequest bytes).isSome = true)
      ∧ Gives (post localSockets "http://127.0.0.1:80" "/v1/node_info" "{}") () (200, "ok") () := by
  obtain ⟨hwrites, hgives⟩ := post_exchanges localSockets "http://127.0.0.1:80" "/v1/node_info" "{}"
  constructor
  · have hemits : Emits (post localSockets "http://127.0.0.1:80" "/v1/node_info" "{}") ()
        (.write (onWire "/v1/node_info" "{}" "127.0.0.1".toList 80)) :=
      post_writes (by decide) local_names ⟨⟨[], rfl⟩, rfl⟩ rfl
    obtain ⟨host, port, addr, -, -, -, -, hread, -⟩ := hwrites _ hemits
    have hread := hread []
    rw [List.append_nil] at hread
    exact ⟨_, hemits, by rw [hread]; rfl⟩
  · refine (hgives _).mpr ⟨by decide, "127.0.0.1".toList, 80, (), _, local_names, ⟨⟨[], rfl⟩, rfl⟩,
      rfl, rfl, localSockets_streams, by decide +kernel, by decide +kernel⟩

end QCoreHttpRequest
