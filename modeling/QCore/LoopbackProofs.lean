import Mathlib
import QCore.MachineIntProofs
import QCore.FallibleProofs
import QCore.TraceProofs
import QCore.TransitionProofs
import QCore.JsonProofs
import QCore.JsonRoundTripProofs
import QCore.WireProofs
import QCore.CratesProofs
import QCore.ContractProofs
import QCore.SessionProofs
import QCore.FinalityProofs
import QCore.FinalitySafetyProofs
import QCore.AddressProofs
import QCore.SigningProofs
import QCore.RosterProofs
import QCore.ClientProofs
import QCore.TrustProofs
import QCore.RosterRunProofs
import QCore.HeadProofs
import QCore.HttpProofs
import QCore.EntryPointProofs
import QCore.SubmissionProofs
import QCore.EntryRunProofs
import QCore.EntryStepProofs
import QCore.SharedSessionProofs
import QCore.AccountProofs
import QCore.ClientRunProofs
import QCore.AskedProofs
import QCore.HttpRequestProofs

/-! # A client on the built-in transport

    A request of a client becomes a path and a body, the transport makes a stream of
    bytes of them, and a gateway on this machine takes the stream apart again.  Seen
    from the gateway, what a signing call hands over is the transaction that its account
    signed, to the byte, whatever the client was called for before.

    Before each request a client looks at the host that its endpoint names.  The
    transport looks at the endpoint a second time, for the host that it will resolve,
    and the two do not read it alike. -/

namespace QCoreLoopback

open QCoreMachineInt QCoreFallible QCoreTrace QCoreTrace.Traced QCoreTransition QCoreJson
  QCoreJsonRoundTrip QCoreWire QCoreSession QCoreCrates QCoreContract QCoreClient
  QCoreClient.Client QCoreHttp QCoreEntryPoint QCoreSubmission QCoreEntryRun QCoreEntryStep
  QCoreAccount QCoreClientRun QCoreAsked QCoreHttpRequest QCoreTrust QCoreHead QCoreFinalitySafety
  QCoreSigning QCoreAddress QCoreSession.SigningSession QCoreRosterRun QCoreSharedSession

/-! ## The two readings of an endpoint -/

/-- A host in the form in which it is compared. -/
def comparedHost (host : List Char) : String :=
  String.ofList ((host.reverse.dropWhile (· = '.')).reverse.map Char.toLower)

/-- What is split at the last separator is put together again. -/
theorem rsplitOnce_eq {c : Char} {text before behind : List Char}
    (h : rsplitOnce c text = some (before, behind)) :
    text = before ++ (c :: behind) ∧ c ∉ behind := by
  rw [rsplitOnce, Option.map_eq_some_iff] at h
  obtain ⟨⟨front, back⟩, hsplit, heq⟩ := h
  obtain ⟨rfl, rfl⟩ := Prod.ext_iff.mp heq
  rw [splitOnce] at hsplit
  split at hsplit
  · next hmem =>
      obtain ⟨rfl, rfl⟩ := Prod.ext_iff.mp (Option.some.inj hsplit)
      have hhead : (text.reverse.dropWhile (· ≠ c)) ≠ [] := by
        intro hnil
        have hall := List.dropWhile_eq_nil_iff.mp hnil c hmem
        simp at hall
      have hfirst : (text.reverse.dropWhile (· ≠ c)).head hhead = c := by
        have hnot := List.head_dropWhile_not (· ≠ c) hhead
        simpa using hnot
      have hsplit : text.reverse
          = text.reverse.takeWhile (· ≠ c) ++ (c :: (text.reverse.dropWhile (· ≠ c)).tail) := by
        have hcons := List.cons_head_tail hhead
        rw [hfirst] at hcons
        rw [hcons, List.takeWhile_append_dropWhile]
      constructor
      · have hrev := congrArg List.reverse hsplit
        rw [List.reverse_reverse, List.reverse_append, List.reverse_cons, List.append_assoc] at hrev
        exact hrev
      · intro hc
        have hin := List.mem_takeWhile_imp (List.mem_reverse.mp hc)
        simp at hin
  · cases hsplit

/-- Nothing behind a mark is taken up to it. -/
theorem takeWhile_mark {c : Char} (before behind : List Char) :
    (before ++ (c :: behind)).takeWhile (· ≠ c) = before.takeWhile (· ≠ c) := by
  induction before with
  | nil =>
      rw [List.nil_append, List.takeWhile_cons, List.takeWhile_nil, if_neg (by simp)]
  | cons d before ih =>
      rw [List.cons_append, List.takeWhile_cons, List.takeWhile_cons, ih]

theorem afterScheme_http (rest : List Char) : afterScheme ("http://".toList ++ rest) = some rest :=
  rfl

/-- The endpoint check reads nothing after the host and port of a base. -/
theorem endpointHost_plain {base : String} {hostport : List Char}
    (hbase : base.toList = "http://".toList ++ hostport)
    (hplain : ∀ c ∈ hostport, c ∉ ['\r', '\n', '/', '?', '#', '@', ' ']) :
    endpointHost base = comparedHost
      (if hostport.head? = some '[' then hostport else hostport.takeWhile (· ≠ ':')) := by
  have hauthority : hostport.takeWhile (fun c => !endsAuthority c) = hostport := by
    refine List.takeWhile_eq_self_iff.mpr (fun c hc => ?_)
    have hnot := hplain c hc
    simp only [List.mem_cons, List.not_mem_nil, or_false, not_or] at hnot
    simp [endsAuthority, hnot]
  have huser : (hostport.reverse.takeWhile (· ≠ '@')).reverse = hostport := by
    have hall : hostport.reverse.takeWhile (· ≠ '@') = hostport.reverse := by
      refine List.takeWhile_eq_self_iff.mpr (fun c hc => ?_)
      have hnot := hplain c (List.mem_reverse.mp hc)
      simp only [List.mem_cons, List.not_mem_nil, or_false, not_or] at hnot
      simp [hnot]
    rw [hall, List.reverse_reverse]
  rw [endpointHost, hbase, afterScheme_http]
  simp only [Option.getD_some, hauthority, huser]
  rfl

/-- A bracket stays in front when dots are taken from the end. -/
theorem comparedHost_bracket (rest : List Char) :
    (comparedHost ('[' :: rest)).toList.head? = some '[' := by
  have hkept : ∃ front, ('[' :: rest).reverse.dropWhile (· = '.') = front ++ ['['] := by
    rw [List.reverse_cons]
    generalize rest.reverse = row
    induction row with
    | nil => exact ⟨[], rfl⟩
    | cons c row ih =>
        rw [List.cons_append, List.dropWhile_cons]
        split
        · exact ih
        · exact ⟨c :: row, rfl⟩
  obtain ⟨front, hfront⟩ := hkept
  rw [comparedHost, String.toList_ofList, hfront, List.reverse_append]
  rfl

/-- **The endpoint check and the transport** agree on a host that is not in
    brackets: the check refuses a base that the transport can use exactly when the
    host it will resolve is, up to its first colon, that of the retired network, in
    any case and with dots behind it.  In brackets every host passes. -/
theorem checkEndpoint_names {base : String} {host : List Char} {port : U16}
    (h : Names base host port) : checkEndpoint base = .ok () ↔
      (∃ rest, base.toList = "http://[".toList ++ rest)
        ∨ comparedHost (host.takeWhile (· ≠ ':')) ∉ retiredRpcHosts := by
  obtain ⟨hostport, hbase, hplain, hsplit⟩ := h
  rw [checkEndpoint, refuseIf_iff, endpointHost_plain hbase hplain]
  rcases splitHostport_cases hsplit with ⟨rest, _, rfl, -, -⟩ | ⟨hhead, digits, hcolon, -⟩
  · refine iff_of_true ?_ (Or.inl ⟨rest, hbase⟩)
    rw [List.head?_cons, if_pos rfl]
    intro hretired
    have hfirst := comparedHost_bracket rest
    have hnone : ∀ retired ∈ retiredRpcHosts, retired.toList.head? ≠ some '[' := by decide +kernel
    exact hnone _ hretired hfirst
  · obtain ⟨heq, -⟩ := rsplitOnce_eq hcolon
    have hsame : hostport.takeWhile (· ≠ ':') = host.takeWhile (· ≠ ':') := by
      rw [heq, takeWhile_mark]
    rw [if_neg hhead, hsame]
    constructor
    · exact Or.inr
    · rintro (⟨rest, hrest⟩ | hout)
      · have hbracket : "http://[".toList ++ rest = "http://".toList ++ ('[' :: rest) := rfl
        rw [hbase, hbracket, List.append_cancel_left_eq] at hrest
        exact absurd (congrArg List.head? hrest) hhead
      · exact hout

/-- The check reads the two forms of one retired host apart. -/
theorem checkEndpoint_names_retired :
    checkEndpoint "http://RPC-Testnet.quantova.org.:80" ≠ .ok ()
      ∧ checkEndpoint "http://[rpc-testnet.quantova.org]:80" = .ok () := by
  have hplain : Names "http://RPC-Testnet.quantova.org.:80" "RPC-Testnet.quantova.org.".toList 80 :=
    ⟨"RPC-Testnet.quantova.org.:80".toList, by decide +kernel, by simp, by decide +kernel⟩
  have hbracket : Names "http://[rpc-testnet.quantova.org]:80" "rpc-testnet.quantova.org".toList 80 :=
    ⟨"[rpc-testnet.quantova.org]:80".toList, by decide +kernel, by simp, by decide +kernel⟩
  constructor
  · intro hok
    rcases (checkEndpoint_names hplain).mp hok with ⟨rest, hrest⟩ | hout
    · have heighth := congrArg (fun row : List Char => row[7]?) hrest
      have hbracket : ("http://[".toList ++ rest)[7]? = some '[' := rfl
      rw [hbracket] at heighth
      exact absurd heighth (by decide +kernel)
    · exact hout (by decide +kernel)
  · exact (checkEndpoint_names hbracket).mpr
      (Or.inl ⟨"rpc-testnet.quantova.org]:80".toList, by decide +kernel⟩)

/-! ## What a gateway is handed -/

variable {Addr : Type}

/-- What the transport does with a request of a client. -/
def carried (net : Nat → Sockets Addr) (self : Client) (r : Request) :
    Traced Unit (Act Addr) String (U16 × String) :=
  post (net r.state.turn) self.base ("/v1/" ++ r.method) r.body

/-- The transaction in a request that hands one over, as a gateway reads it. -/
def submission (received : Received) : Option (List UInt8) := do
  let text ← fromUtf8 received.body
  let json ← (parse text).toOption
  let field ← json.get "tx"
  let hex ← field.asStr
  (fromHex hex).toOption

/-- A body that hands bytes over is read as those bytes. -/
theorem submission_submitBody {received : Received} {txBytes : List UInt8}
    (h : received.body = asBytes (submitBody txBytes)) : submission received = some txBytes := by
  have hdistinct : Json.DistinctKeys (.object [("tx", .str (toHex txBytes))]) := by
    simp [Json.DistinctKeys, Json.DistinctFields]
  have hparse : parse (submitBody txBytes) = .ok (.object [("tx", .str (toHex txBytes))]) :=
    parse_render hdistinct (by simp [Json.height, Json.heightFields, maxDepth])
  have hget : Json.get (.object [("tx", .str (toHex txBytes))]) "tx" = some (.str (toHex txBytes)) :=
    rfl
  rw [submission, h, fromUtf8_asBytes]
  simp only [Option.bind_eq_bind, Option.bind_some, hparse, Except.toOption, hget, Json.asStr,
    fromHex_toHex]

section

variable {self : Client} {AccountLeaf : Type} {accounts : AccountCrates AccountLeaf}
  {s t : ClientState} {log : List (Done AccountLeaf)} {net : Nat → Sockets Addr}

/-- **What a gateway is handed is what was signed.**  Over any run of calls of a
    client on the built-in transport, the bytes that are written for a request are
    written once, to a loopback address, and a gateway reads one request from them
    and nothing behind it, and none at all when they break off.  Where the request
    hands a transaction over, the gateway reads from it the bytes that the account of
    the call signed, or those that a caller gave to the call. -/
theorem handed_over_to_the_byte (h : Run (Calls self accounts) s log t) :
    ∀ done ∈ log, ∀ r ∈ done.requests, ∀ bytes, Emits (carried net self r) () (.write bytes) →
      ∃ name port addr received, (net r.state.turn).isLoopback addr = true
        ∧ (carried net self r ()).events = [.resolve name port, .connect addr, .write bytes]
        ∧ readRequest bytes = some (received, [])
        ∧ (∀ short, short <+: bytes → short ≠ bytes → readRequest short = none)
        ∧ received.target = asBytes ("/v1/" ++ r.method) ∧ received.body = asBytes r.body
        ∧ (r.Submits → ∃ txBytes, submission received = some txBytes
          ∧ HandsSigned self done.call txBytes) := by
  intro done hdone r hr bytes hwrite
  obtain ⟨host, port, addr, -, hresolves, -, hacts, hread, hcut⟩ :=
    post_written (net r.state.turn) self.base ("/v1/" ++ r.method) r.body hwrite
  have hread := hread []
  rw [List.append_nil] at hread
  refine ⟨_, port, addr, _, hresolves.loopback, hacts, hread, hcut, rfl, rfl, ?_⟩
  intro hsubmits
  obtain ⟨_, _, hcall⟩ := run_called h done hdone
  obtain ⟨txBytes, hbody, hsigned⟩ := ((call_asked hcall).2 r hr hsubmits).signed
  exact ⟨txBytes, submission_submitBody (congrArg asBytes hbody), hsigned⟩

end

/-! ## A transfer over a socket -/

/-- The local client, with an endpoint that the built-in transport can use. -/
def portedClient : Client := { localClient with base := "http://127.0.0.1:80" }

theorem ported_endpoint : checkEndpoint portedClient.base = .ok () :=
  refuseIf_iff.mpr (by decide +kernel)

/-- Only the endpoint check looks at the endpoint. -/
theorem ported_rpc : portedClient.rpc = localClient.rpc := by
  have hlocal : checkEndpoint localClient.base = .ok () := checkEndpoint_loopback
  funext method body
  rw [rpc, rpc, ported_endpoint, hlocal]
  rfl

/-- The client with a port opens a call as the local one does. -/
theorem ported_opening : opening portedClient = opening localClient := by
  have hinfo : portedClient.nodeInfo = localClient.nodeInfo := by
    rw [nodeInfo, nodeInfo, ported_rpc]
  funext sender targets feeOf
  unfold opening
  rw [hinfo]
  rfl

theorem ported_account : portedClient.account = localClient.account := by
  funext address
  rw [account, account, ported_rpc]

theorem ported_genesis {trusted : Option TrustedRosters} (h : trusted = none) :
    genesisUnder portedClient trusted localNode = .ok (filled 0) := local_genesis h

/-- The head is not verified, but the clock bounds it. -/
theorem ported_validity (session : SigningSession) :
    ∃ t : ClientState, t.turn = 2 ∧ t.trustedRoster = none
      ∧ t.shared = SigningSession.new.noteHead "Q-local" 5 0
      ∧ Gives (validity portedClient localNode)
        { freshState with turn := 1, session := session } 305 t :=
  ⟨_, rfl, rfl, rfl, validity_of_clock (ported_genesis rfl) ⟨rfl, rfl⟩ rfl rfl rfl⟩

/-- The transfer of the client with a port hands a transaction over. -/
theorem ported_transfer : Causes Request.Submits
    (transferExpecting portedClient (filled 0) 0 "Qb" 1 7 none) freshState := by
  obtain ⟨t, hturn, htrusted, hshared, hvalid⟩ :=
    ported_validity (rememberAddress pairCrates.toCrates .new "Qa")
  have hgranted : (t.shared.slot (accountSlotKey "Q-local" "Qa") 3 none false).1 = .ok 3 := by
    rw [hshared]
    rfl
  have hopening := local_opening
  have haccount := local_account hturn
  rw [← ported_opening] at hopening
  rw [← ported_account] at haccount
  refine bind_causes (ofExcept_gives rfl) (bind_causes hopening (bind_causes hvalid ?_))
  refine bind_causes haccount (bind_causes (m := step _) ⟨hgranted, rfl⟩ ?_)
  exact causes_finally (causes_mono (fun _ h => h.1) (signAndSubmit_causes
    ⟨"Qa", "tx", []⟩ ported_endpoint (ported_genesis htrusted) rfl (fun s => ⟨s, rfl, rfl⟩)))

/-- Sockets of a node that takes every request. -/
def localNet (_ : Nat) : Sockets Unit := localSockets

/-- The transfer, as a call of that client. -/
def portedCall : Done Unit :=
  (ClientCall.sign localTransfer).done portedClient emptyAccounts freshState

/-- The request that hands it over is written. -/
theorem ported_writes : ∃ t r bytes,
    Run (Calls portedClient emptyAccounts) freshState [portedCall] t
      ∧ r ∈ portedCall.requests ∧ r.method = "submit_transaction"
      ∧ Emits (carried localNet portedClient r) () (.write bytes) := by
  have hcauses : Causes Request.Submits
      ((ClientCall.sign localTransfer).run portedClient emptyAccounts) freshState :=
    bind_causes_first (bind_causes_first ported_transfer)
  obtain ⟨r, hr, hemits⟩ := hcauses
  have hmethod : r.method = "submit_transaction" := hr
  have hpath : ¬ hasLineBreak ("/v1/" ++ r.method).toList = true := by
    rw [hmethod]
    decide +kernel
  exact ⟨_, r, onWire ("/v1/" ++ r.method) r.body "127.0.0.1".toList 80,
    Run.single (calls_done _ _), requests_done hemits, hmethod,
    post_writes hpath local_names ⟨⟨[], rfl⟩, rfl⟩ rfl⟩

/-- A transfer is written, and the gateway reads from it what the caller's account
    signed. -/
theorem handed_over_to_the_byte_at_local : ∃ r bytes received, r.Submits
    ∧ Emits (carried localNet portedClient r) () (.write bytes)
    ∧ readRequest bytes = some (received, [])
    ∧ ∃ body genesis rnd wrapper, submission received = some wrapper.bytes
      ∧ portedClient.crates.trySignHedged (filled 0) 0 body genesis rnd = some wrapper := by
  obtain ⟨t, r, bytes, hrun, hr, hmethod, hwrite⟩ := ported_writes
  obtain ⟨_, _, _, received, -, -, hread, -, -, -, hsubmits⟩ :=
    handed_over_to_the_byte hrun _ List.mem_cons_self r hr bytes hwrite
  obtain ⟨_, hsubmission, hhands⟩ := hsubmits hmethod
  obtain ⟨body, genesis, rnd, wrapper, hsigned, rfl⟩ := hhands.of_sign
  exact ⟨r, bytes, received, hmethod, hwrite, hread, body, genesis, rnd, wrapper, hsubmission,
    hsigned⟩

end QCoreLoopback
