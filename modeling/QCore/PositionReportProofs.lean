import Mathlib
import QCore.MachineIntProofs
import QCore.ByteMemoryProofs
import QCore.SortedMapProofs
import QCore.FallibleProofs
import QCore.DecoderProofs
import QCore.TraceProofs
import QCore.JsonProofs
import QCore.JsonRoundTripProofs
import QCore.WireProofs
import QCore.Utf8Proofs
import QCore.CratesProofs
import QCore.CertificateProofs
import QCore.FinalityProofs
import QCore.FinalitySafetyProofs
import QCore.RosterProofs
import QCore.ClientProofs
import QCore.TrustProofs
import QCore.HeadProofs
import QCore.ConfirmationProofs
import QCore.RosterRunProofs
import QCore.SubmissionProofs

/-! # The positions a confirmation reports

    A confirmation names the position of its transaction, and of the event that
    proves its call.  The gateway names the first in a field of the answer that
    carries the path, and the second by the place at which it lists the event;
    the path of the event comes in another answer.

    The client checks the position of the transaction against the path.  It does
    not check the place of the event, so that place fits its path exactly when the
    gateway's list and its answer for the event go together: `positions_fit_iff`. -/

namespace QCorePositionReport

open QCoreMachineInt QCoreByteMemory QCoreSortedMap QCoreFallible QCoreDecoder QCoreTrace
  QCoreTrace.Traced QCoreJson QCoreJsonRoundTrip QCoreWire QCoreUtf8 QCoreCrates QCoreCertificate
  QCoreFinality QCoreFinalitySafety QCoreRoster QCoreClient QCoreClient.Client QCoreTrust QCoreHead
  QCoreConfirmation QCoreRosterRun QCoreSubmission

/-! ## The answers a position comes from -/

section

variable (self : Client) (s : ClientState) (txId : String)

/-- The gateway names a position for a transaction, its leaf and its path. -/
def TransactionAnswer (index : U64) (leaf : List UInt8) (steps : Steps) : Prop :=
  ∃ info t height t', Gives self.nodeInfo s info t
    ∧ Gives (transactionProof self txId) t (height, index, leaf, steps) t'

/-- A leaf under an event root is an event of the transaction that was asked for. -/
def ProvesEvent (contract : String) (selector : Bytes 4) (data : Option (List UInt8))
    (eventRoot : Bytes 32) (leaf : List UInt8) (steps : Steps) : Prop :=
  verifyEvent self.chain eventRoot leaf steps = true ∧ ∃ event,
    decodeEvent self.chain leaf = .ok event ∧ event.tx = txId
      ∧ matchesEvent self contract selector data event.contract event.selector event.data = true

variable (contract : String) (selector : Bytes 4) (data : Option (List UInt8))

/-- The state in which the client asks for the event at a place of a list, if none
    before it was proven: a turn has gone by for each listed event that it asked for. -/
def askingAt (listed : List ContractEvent) (place : ℕ) : ClientState :=
  { s with turn := s.turn + (listed.take place).countP (fun event =>
      matchesEvent self contract selector data event.contract event.selector event.data) }

/-- **The gateway offers an event**: it lists one at a place, and what it answers when
    it is asked for that place proves the event. -/
structure Offers (header : FinalizedHeader) (listed : List ContractEvent) (place : ℕ)
    (leaf : List UInt8) (steps : Steps) : Prop where
  here : ∃ event, listed[place]? = some event
    ∧ matchesEvent self contract selector data event.contract event.selector event.data = true
  answered : ∃ t, Gives (eventProof self header.height place)
    (askingAt self s contract selector data listed place) (leaf, steps) t
  proves : ProvesEvent self txId contract selector data header.eventRoot leaf steps

/-- The gateway offers an event at a place and at none before it. -/
def FirstOffer (header : FinalizedHeader) (listed : List ContractEvent) (place : ℕ)
    (leaf : List UInt8) (steps : Steps) : Prop :=
  Offers self s txId contract selector data header listed place leaf steps
    ∧ ∀ earlier < place, ∀ leaf' steps',
      ¬ Offers self s txId contract selector data header listed earlier leaf' steps'

/-- The gateway lists an event at a place and answers for it with a leaf and a path. -/
def EventAnswer (eventIndex : U64) (leaf : List UInt8) (steps : Steps) : Prop :=
  ∃ confirmed t listed t' place, Gives (confirmInclusionTrusted self txId) s confirmed t
    ∧ Gives (events self confirmed.header.height) t listed t'
    ∧ FirstOffer self t' txId contract selector data confirmed.header listed place leaf steps
    ∧ eventIndex = Fin.ofNat _ place

/-- **The gateway's answers go together**: the place at which it first offers the
    event is one that the path in its answer can have. -/
def AnswersFit : Prop :=
  ∀ confirmed t listed t', Gives (confirmInclusionTrusted self txId) s confirmed t →
    Gives (events self confirmed.header.height) t listed t' →
    ∀ place leaf steps,
      FirstOffer self t' txId contract selector data confirmed.header listed place leaf steps →
      indexFitsPath (Fin.ofNat _ place) steps = true

end

/-! ## Confirming, and what it should report -/

/-- The calls that confirm a transaction. -/
inductive Confirming
  | inclusion (genesisHash : Bytes 32) (roster : VerifiedRoster)
  | inclusionTrusted
  | transaction (genesisHash : Bytes 32) (roster : VerifiedRoster)
  | transactionTrusted
  | callEvent (contract : String) (selector : Bytes 4) (data : Option (List UInt8))

/-- Make the call. -/
def Confirming.run (self : Client) (txId : String) : Confirming → ClientM ConfirmedTransaction
  | .inclusion genesisHash roster => confirmInclusion self txId genesisHash roster
  | .inclusionTrusted => confirmInclusionTrusted self txId
  | .transaction genesisHash roster => confirmTransaction self txId genesisHash roster
  | .transactionTrusted => confirmTransactionTrusted self txId
  | .callEvent contract selector data => confirmCallEvent self txId contract selector data

/-- The answer that proves an event, where one is asked for. -/
def Confirming.EventAnswer (self : Client) (s : ClientState) (txId : String) (eventIndex : U64)
    (leaf : List UInt8) (steps : Steps) : Confirming → Prop
  | .callEvent contract selector data =>
      QCorePositionReport.EventAnswer self s txId contract selector data eventIndex leaf steps
  | _ => False

/-- **Every position that is reported** is one that its verified path can have. -/
structure PositionsFit (self : Client) (s : ClientState) (txId : String) (call : Confirming)
    (c : ConfirmedTransaction) : Prop where
  transaction : ∃ leaf steps, TransactionAnswer self s txId c.index leaf steps
    ∧ verifyTransaction self.crates self.chain c.header.transactionRoot txId leaf steps = true
    ∧ indexFitsPath c.index steps = true
  event : ∀ eventIndex, c.outcome = .eventProven eventIndex →
    ∃ leaf steps, call.EventAnswer self s txId eventIndex leaf steps
      ∧ verifyEvent self.chain c.header.eventRoot leaf steps = true
      ∧ indexFitsPath eventIndex steps = true

/-- A call that asks for an event has a gateway whose answers go together. -/
def Confirming.AnswersFit (self : Client) (s : ClientState) (txId : String) : Confirming → Prop
  | .callEvent contract selector data =>
      QCorePositionReport.AnswersFit self s txId contract selector data
  | _ => True

/-! ## What a run has asked -/

section

variable {self : Client} {s s' : ClientState} {txId : String} {c : ConfirmedTransaction}
  {contract : String} {selector : Bytes 4} {data : Option (List UInt8)}

/-- A computation succeeds in one way. -/
theorem gives_unique {σ ev ε α : Type} {m : Traced σ ev ε α} {s t t' : σ} {a b : α}
    (h : Gives m s a t) (h' : Gives m s b t') : a = b ∧ t = t' :=
  ⟨Except.ok.inj (h.1.symm.trans h'.1), h.2.symm.trans h'.2⟩

/-- **The answers fix the event** that is offered first. -/
theorem FirstOffer.unique {header : FinalizedHeader} {place place' : ℕ}
    {listed : List ContractEvent} {leaf leaf' : List UInt8} {steps steps' : Steps}
    (h : FirstOffer self s txId contract selector data header listed place leaf steps)
    (h' : FirstOffer self s txId contract selector data header listed place' leaf' steps') :
    place = place' ∧ leaf = leaf' ∧ steps = steps' := by
  rcases Nat.lt_trichotomy place place' with hlt | rfl | hlt
  · exact absurd h.1 (h'.2 place hlt leaf steps)
  · obtain ⟨-, ⟨_, hgives⟩, -⟩ := h.1
    obtain ⟨-, ⟨_, hgives'⟩, -⟩ := h'.1
    cases (gives_unique hgives hgives').1
    exact ⟨rfl, rfl, rfl⟩
  · exact absurd h'.1 (h.2 place' hlt leaf' steps')

/-- The next event of a list is asked for a turn later if this one is asked for. -/
theorem askingAt_succ {listed rest : List ContractEvent} {event : ContractEvent} {place : ℕ}
    (hrest : listed.drop place = event :: rest) :
    listed[place]? = some event ∧ listed.drop (place + 1) = rest
      ∧ (askingAt self s contract selector data listed (place + 1)).turn
        = (askingAt self s contract selector data listed place).turn
          + (matchesEvent self contract selector data event.contract event.selector
              event.data).toNat := by
  have hget : listed[place]? = some event := by
    rw [← List.head?_drop, hrest, List.head?_cons]
  refine ⟨hget, ?_, ?_⟩
  · rw [← List.tail_drop, hrest, List.tail_cons]
  · simp only [askingAt, List.take_add_one, hget, Option.toList_some, List.countP_append,
      List.countP_singleton, Nat.add_assoc]
    cases matchesEvent self contract selector data event.contract event.selector event.data <;> rfl

/-- The gateway's answers settle which event is found. -/
theorem EventAnswer.unique {eventIndex eventIndex' : U64} {leaf leaf' : List UInt8}
    {steps steps' : Steps}
    (h : EventAnswer self s txId contract selector data eventIndex leaf steps)
    (h' : EventAnswer self s txId contract selector data eventIndex' leaf' steps') :
    eventIndex = eventIndex' ∧ leaf = leaf' ∧ steps = steps' := by
  obtain ⟨confirmed, t, listed, u, place, hconfirmed, hlisted, hfirst, rfl⟩ := h
  obtain ⟨confirmed', t', listed', u', place', hconfirmed', hlisted', hfirst', rfl⟩ := h'
  obtain ⟨rfl, rfl⟩ := gives_unique hconfirmed hconfirmed'
  obtain ⟨rfl, rfl⟩ := gives_unique hlisted hlisted'
  obtain ⟨rfl, rfl, rfl⟩ := hfirst.unique hfirst'
  exact ⟨rfl, rfl, rfl⟩

/-- A place is asked for and its answer does not prove the event, so it is not offered. -/
theorem not_offers {header : FinalizedHeader} {listed : List ContractEvent} {place : ℕ}
    {leaf : List UInt8} {steps : Steps} {t : ClientState}
    (hgives : Gives (eventProof self header.height place)
      (askingAt self s contract selector data listed place) (leaf, steps) t)
    (hproves : ¬ ProvesEvent self txId contract selector data header.eventRoot leaf steps)
    (leaf' : List UInt8) (steps' : Steps) :
    ¬ Offers self s txId contract selector data header listed place leaf' steps' := by
  rintro ⟨-, ⟨_, hgives'⟩, hproves'⟩
  cases (gives_unique hgives hgives').1
  exact hproves hproves'

/-- A request for an event takes one turn and changes nothing else. -/
theorem eventProof_turn {height : U64} {position : ℕ} {answer : List UInt8 × Steps}
    {t : ClientState} (h : Gives (eventProof self height position) s answer t) :
    t = { s with turn := s.turn + 1 } := by
  obtain ⟨text, u, htext, h⟩ := gives_bind h
  obtain ⟨-, rfl⟩ := rpc_gives htext
  obtain ⟨_, -, h⟩ := gives_value h
  obtain ⟨_, -, h⟩ := gives_value h
  obtain ⟨_, -, h⟩ := gives_value h
  obtain ⟨_, -, h⟩ := gives_value h
  exact (gives_pure h).2

/-- **The search reports** the place at which the event is offered first. -/
theorem provenEvent_first {position : ℕ} {listed rest : List ContractEvent}
    {c' : ConfirmedTransaction} (hrest : listed.drop position = rest)
    (hnone : ∀ earlier < position, ∀ leaf steps,
      ¬ Offers self s txId contract selector data c.header listed earlier leaf steps)
    (h : Gives (provenEvent self c txId contract selector data position rest)
      (askingAt self s contract selector data listed position) c' s') :
    ∃ place leaf steps,
      FirstOffer self s txId contract selector data c.header listed place leaf steps
        ∧ verifyEvent self.chain c.header.eventRoot leaf steps = true
        ∧ c' = { c with outcome := .eventProven (Fin.ofNat _ place) } := by
  induction rest generalizing position with
  | nil => exact nomatch (gives_ofExcept h).1
  | cons event rest ih =>
      obtain ⟨hget, hdrop, hturn⟩ := @askingAt_succ self s contract selector data _ _ _ _ hrest
      -- a place that offers nothing is one more before the next
      have hnext : (∀ leaf steps,
          ¬ Offers self s txId contract selector data c.header listed position leaf steps) →
          ∀ earlier < position + 1, ∀ leaf steps,
            ¬ Offers self s txId contract selector data c.header listed earlier leaf steps := by
        intro hhere earlier hlt
        rcases Nat.lt_succ_iff_lt_or_eq.mp hlt with hlt | rfl
        · exact hnone earlier hlt
        · exact hhere
      unfold provenEvent at h
      split at h
      · next hmatch =>
          rw [hmatch] at hturn
          obtain ⟨⟨leaf, steps⟩, t, hproof, h⟩ := gives_bind h
          have ht : t = askingAt self s contract selector data listed (position + 1) := by
            rw [eventProof_turn hproof]
            exact congrArg (fun turn => { s with turn := turn }) hturn.symm
          rw [ht] at h
          dsimp only at h
          split at h
          · next hverify =>
              obtain ⟨proven, hdecoded, h⟩ := gives_value h
              split at h
              · next hproven =>
                  obtain ⟨rfl, -⟩ := gives_pure h
                  exact ⟨position, leaf, steps, ⟨⟨⟨event, hget, hmatch⟩, ⟨t, hproof⟩, hverify, proven,
                    hdecoded, hproven⟩, hnone⟩, hverify, rfl⟩
              · next hother =>
                  refine ih hdrop (hnext (not_offers hproof ?_)) h
                  rintro ⟨-, event', hdecoded', hproven⟩
                  cases hdecoded.symm.trans hdecoded'
                  exact hother hproven
          · next hverify =>
              exact ih hdrop (hnext (not_offers hproof (fun hproves => hverify hproves.1))) h
      · next hmatch =>
          have hsame : askingAt self s contract selector data listed (position + 1)
              = askingAt self s contract selector data listed position := by
            rw [Bool.eq_false_iff.mpr hmatch] at hturn
            exact congrArg (fun turn => { s with turn := turn }) hturn
          refine ih hdrop (hnext ?_) (hsame ▸ h)
          rintro leaf steps ⟨⟨event', hget', hmatch'⟩, -, -⟩
          cases hget.symm.trans hget'
          exact hmatch hmatch'

/-- **An inclusion** reports a position that the verified path can have, and no
    event. -/
theorem inclusion_fits {trusted : Option (Bytes 32 × VerifiedRoster)}
    (h : Gives (inclusion self txId trusted) s c s') :
    (∃ leaf steps, TransactionAnswer self s txId c.index leaf steps
      ∧ verifyTransaction self.crates self.chain c.header.transactionRoot txId leaf steps = true
      ∧ indexFitsPath c.index steps = true)
    ∧ ∀ eventIndex, c.outcome ≠ .eventProven eventIndex := by
  obtain ⟨info, t₁, hinfo, h⟩ := gives_bind h
  obtain ⟨chainId, -, h⟩ := gives_value h
  obtain ⟨⟨height, index, leaf, steps⟩, t₂, hproof, h⟩ := gives_bind h
  obtain ⟨⟨epoch, header, certificate⟩, t₃, -, h⟩ := gives_bind h
  obtain ⟨⟨genesis, roster⟩, t₄, -, h⟩ := gives_bind h
  obtain ⟨length, -, h⟩ := gives_value h
  obtain ⟨verified, -, h⟩ := gives_value h
  obtain ⟨-, h⟩ := gives_guard h
  obtain ⟨hproven, h⟩ := gives_guard h
  obtain ⟨hposition, h⟩ := gives_guard h
  obtain ⟨kind, -, h⟩ := gives_value h
  obtain ⟨rfl, -⟩ := gives_pure h
  refine ⟨⟨leaf, steps, ⟨info, t₁, height, t₂, hinfo, hproof⟩, ?_, ?_⟩, ?_⟩
  · simpa using hproven
  · simpa using hposition
  · intro eventIndex
    cases kind with
    | transfer => exact TxOutcome.noConfusion
    | call => exact TxOutcome.noConfusion

/-- A call that asks for no event confirms an inclusion. -/
theorem inclusion_of_run {call : Confirming} (h : Gives (call.run self txId) s c s')
    (hcall : ∀ contract selector data, call ≠ .callEvent contract selector data) :
    ∃ trusted t, Gives (inclusion self txId trusted) s c t := by
  cases call with
  | inclusion genesisHash roster => exact ⟨_, s', h⟩
  | inclusionTrusted => exact ⟨_, s', h⟩
  | transaction genesisHash roster =>
      obtain ⟨confirmed, t, hconfirmed, h⟩ := gives_bind h
      obtain ⟨rfl, -⟩ := settled_ok (gives_ofExcept h).1
      exact ⟨_, t, hconfirmed⟩
  | transactionTrusted =>
      obtain ⟨confirmed, t, hconfirmed, h⟩ := gives_bind h
      obtain ⟨rfl, -⟩ := settled_ok (gives_ofExcept h).1
      exact ⟨_, t, hconfirmed⟩
  | callEvent contract selector data => exact absurd rfl (hcall contract selector data)

/-- **A call that confirms an event** reports the place at which its gateway lists
    the event, and leaves the position of the transaction as it was checked. -/
theorem confirmCallEvent_reports
    (h : Gives (confirmCallEvent self txId contract selector data) s c s') :
    (∃ leaf steps, TransactionAnswer self s txId c.index leaf steps
      ∧ verifyTransaction self.crates self.chain c.header.transactionRoot txId leaf steps = true
      ∧ indexFitsPath c.index steps = true)
    ∧ ∃ eventIndex leaf steps, c.outcome = .eventProven eventIndex
      ∧ EventAnswer self s txId contract selector data eventIndex leaf steps
      ∧ verifyEvent self.chain c.header.eventRoot leaf steps = true := by
  obtain ⟨confirmed, t, hconfirmed, h⟩ := gives_bind h
  obtain ⟨listed, t', hlisted, h⟩ := gives_bind h
  obtain ⟨place, leaf, steps, hfirst, hverify, rfl⟩ :=
    @provenEvent_first self t' _ _ _ _ _ _ 0 listed listed _ rfl
      (fun earlier hlt => absurd hlt (Nat.not_lt_zero earlier)) h
  exact ⟨(inclusion_fits hconfirmed).1, _, leaf, steps, rfl,
    ⟨confirmed, t, listed, t', place, hconfirmed, hlisted, hfirst, rfl⟩, hverify⟩

/-- The answers go together, whatever is listed, where no answer to a place has a path
    that the place cannot have: one answer alone tells. -/
theorem answersFit_of_answers {call : Confirming}
    (hfits : ∀ height place t leaf steps t',
      Gives (eventProof self height place) t (leaf, steps) t' →
        indexFitsPath (Fin.ofNat _ place) steps = true) :
    call.AnswersFit self s txId := by
  cases call with
  | callEvent contract selector data =>
      rintro confirmed t listed t' - - place leaf steps ⟨⟨-, ⟨t'', hanswered⟩, -⟩, -⟩
      exact hfits _ _ _ _ _ _ hanswered
  | _ => trivial

end

/-! ## A list with one event too many -/

/-- A plain reader of sixteen bytes, most significant first. -/
def plainGetU128 (bytes : List UInt8) : Option (U128 × List UInt8) :=
  if 16 ≤ bytes.length then some (Fin.ofNat _ (ofBeBytes (bytes.take 16)), bytes.drop 16) else none

/-- A chain whose blocks hold one transaction and one event: a leaf is alone under
    its root and has no sibling. -/
def singleChain : Chain :=
  { plainChain with
    getU128 := plainGetU128
    verifyInclusion := fun _ _ steps => steps.isEmpty
    renderTx := fun _ => some "tx" }

theorem singleChain_checks : PlainChecks singleChain := by
  constructor
  all_goals intros; rfl

/-- The leaf of a call whose other fields are empty. -/
def callLeaf : List UInt8 := List.replicate 88 0 ++ [1, 0] ++ List.replicate 8 0

/-- The event that the call left. -/
def calledSelector : Bytes 4 := ⟨[1, 2, 3, 4], rfl⟩

/-- The leaf of an event that the contract `Qa` emits in the transaction `tx`. -/
def calledLeaf : List UInt8 :=
  [0, 0, 0, 0, 0, 0, 0, 2, 81, 97, 0, 0, 0, 0, 0, 0, 0, 4, 1, 2, 3, 4,
    0, 0, 0, 0, 0, 0, 0, 0, 0, 0, 0, 0, 0, 0, 0, 2, 116, 120]

/-- What its gateway answers about the transaction. -/
def callProof : Json := .object
  [("height", .int 1), ("index", .int 0), ("leaf", .str (toHex callLeaf)), ("steps", .array [])]

/-- What it answers about the height. -/
def finalityAnswer : Json := .object
  [("header_bytes", .str (toHex [1, 0])), ("certificate", .str (toHex (soleCertificate 0)))]

/-- An event of the contract, as it is listed. -/
def listedEvent (selector : List UInt8) : Json := .object
  [("contract", .str "Qa"), ("selector", .str (toHex selector)), ("data", .str (toHex []))]

/-- The event of the block stands after one that the block does not hold. -/
def eventList : Json := .object
  [("events", .array [listedEvent [9, 9, 9, 9], listedEvent calledSelector.val])]

/-- What the gateway answers about the event. -/
def calledProof : Json := .object [("leaf", .str (toHex calledLeaf)), ("steps", .array [])]

/-- A client whose gateway adds an event to the list. -/
def paddedClient : Client :=
  { statusClient 200 with
    crates := { stillCrates with chainIdFromName := fun _ => 1 }
    chain := singleChain
    transport
      | 0 => .ok (200, localInfo.render)
      | 1 => .ok (200, callProof.render)
      | 2 => .ok (200, finalityAnswer.render)
      | 3 => .ok (200, eventList.render)
      | _ => .ok (200, calledProof.render) }

theorem padded_nodeInfo : Gives paddedClient.nodeInfo anchoredState localNode
    { anchoredState with turn := 1 } :=
  bind_gives (rpc_answers rfl rfl length_localInfo) (ofExcept_gives parse_localInfo)

/-- Each answer of the padded gateway is parsed. -/
theorem padded_parses {answer : Json}
    (h : answer ∈ [callProof, finalityAnswer, eventList, calledProof]) :
    parse answer.render = .ok answer := by
  simp only [List.mem_cons, List.not_mem_nil, or_false] at h
  rcases h with rfl | rfl | rfl | rfl <;> refine parse_render ?_ (by decide)
  · simp [callProof, Json.DistinctKeys, Json.DistinctFields, Json.DistinctItems]
  · simp [finalityAnswer, Json.DistinctKeys, Json.DistinctFields]
  · simp [eventList, listedEvent, Json.DistinctKeys, Json.DistinctFields, Json.DistinctItems]
  · simp [calledProof, Json.DistinctKeys, Json.DistinctFields, Json.DistinctItems]

/-- Every answer is short enough for the client to read. -/
theorem padded_lengths : (asBytes callProof.render).length ≤ responseCap "get_transaction_proof"
    ∧ (asBytes finalityAnswer.render).length ≤ responseCap "get_finality"
    ∧ (asBytes eventList.render).length ≤ responseCap "get_events"
    ∧ (asBytes calledProof.render).length ≤ responseCap "get_event_proof" := by
  simp only [callProof, finalityAnswer, eventList, listedEvent, calledProof, Json.render,
    Json.write, Json.writeFields, Json.writeItems, asBytes_append, List.length_append,
    length_writeString_toHex]
  decide +kernel

/-- The padded gateway proves the transaction. -/
theorem padded_transactionProof : Gives (transactionProof paddedClient "tx")
    { anchoredState with turn := 1 } (1, 0, callLeaf, []) { anchoredState with turn := 2 } := by
  refine bind_gives (rpc_answers rfl rfl padded_lengths.1) ?_
  refine bind_gives (ofExcept_gives (padded_parses (by simp))) ?_
  refine bind_gives (ofExcept_gives rfl) (bind_gives (ofExcept_gives rfl) ?_)
  refine bind_gives (ofExcept_gives (bind_pass rfl (fromHex_toHex callLeaf))) ?_
  exact bind_gives (ofExcept_gives rfl) (bind_gives (ofExcept_gives rfl) ⟨rfl, rfl⟩)

/-- The header of the block is certified. -/
theorem padded_certified : Gives (certifiedAt paddedClient 1) { anchoredState with turn := 2 }
    (0, [1, 0], soleCertificate 0) { anchoredState with turn := 3 } := by
  refine bind_gives (rpc_answers rfl rfl padded_lengths.2.1) ?_
  refine bind_gives (ofExcept_gives (padded_parses (by simp))) ?_
  refine bind_gives (ofExcept_gives (bind_pass rfl (fromHex_toHex [1, 0]))) ?_
  refine bind_gives (ofExcept_gives (bind_pass rfl (fromHex_toHex (soleCertificate 0)))) ?_
  refine bind_gives (ofExcept_gives (a := 1) rfl) (bind_gives (ofExcept_gives rfl) ?_)
  exact bind_gives (ofExcept_gives (a := 0) rfl) ⟨rfl, rfl⟩

/-- The certificate shows that the block at height 1 is final. -/
theorem padded_final : ∃ verified, verified.height = 1
    ∧ verifyFinalityInEpoch singleChain 1 (filled 0) 10 { epoch := 0, members := [soleValidator] }
      [1, 0] (soleCertificate 0) = .ok verified := by
  obtain ⟨verified, haccepted⟩ := sole_accepted_on singleChain_checks 1 (b := 0) [1, 0]
    rfl rfl rfl
  obtain ⟨header, envelope, attestations, hacc⟩ := accepted_spec haccepted
  refine ⟨verified, ?_, ?_⟩
  · cases hacc.parsed
    exact hacc.result.1
  · exact bind_pass (a := 1) rfl (bind_pass (a := 0) rfl
      (guard_pass (not_not.mpr rfl) haccepted))

/-- The call is included at position 0 of that block. -/
theorem padded_inclusion : ∃ confirmed, confirmed.header.height = 1
    ∧ Gives (confirmInclusionTrusted paddedClient "tx") anchoredState confirmed
      { anchoredState with turn := 3 } := by
  obtain ⟨verified, hheight, hfinal⟩ := padded_final
  have hkind : transactionKind paddedClient.crates singleChain callLeaf = .ok .call := rfl
  refine ⟨{ txId := "tx", index := 0, header := verified, kind := .call
            outcome := .includedOutcomeUnproven }, hheight, ?_⟩
  refine bind_gives padded_nodeInfo (bind_gives (ofExcept_gives (a := 1) rfl) ?_)
  refine bind_gives padded_transactionProof (bind_gives padded_certified ?_)
  refine bind_gives (a := (filled 0, { epoch := 0, members := [soleValidator] })) ⟨rfl, rfl⟩ ?_
  refine bind_gives (ofExcept_gives (a := 10) rfl) (bind_gives (ofExcept_gives hfinal) ?_)
  refine bind_gives (ofExcept_gives (if_neg (not_not.mpr hheight))) ?_
  refine bind_gives (ofExcept_gives rfl) (bind_gives (ofExcept_gives rfl) ?_)
  exact bind_gives (ofExcept_gives hkind) ⟨rfl, rfl⟩

/-- The gateway lists two events. -/
theorem padded_events : Gives (events paddedClient 1) { anchoredState with turn := 3 }
    [⟨"Qa", ⟨[9, 9, 9, 9], rfl⟩, []⟩, ⟨"Qa", calledSelector, []⟩]
    { anchoredState with turn := 4 } := by
  have hitem : ∀ selector : Bytes 4, parseEvent (listedEvent selector.val)
      = .ok ⟨"Qa", selector, []⟩ := by
    intro selector
    refine bind_pass (a := "Qa") rfl ?_
    refine bind_pass (bind_pass rfl (fromHex_toHex selector.val)) ?_
    refine bind_pass (a := selector) (dif_pos selector.property) ?_
    exact bind_pass (bind_pass rfl (fromHex_toHex [])) rfl
  refine bind_gives (rpc_answers rfl rfl padded_lengths.2.2.1) (ofExcept_gives ?_)
  refine bind_pass (padded_parses (by simp)) (bind_pass (a := _) rfl ?_)
  refine bind_pass (hitem ⟨[9, 9, 9, 9], rfl⟩) ?_
  exact bind_pass (hitem calledSelector) rfl

/-- It proves the event at a place where the block has none. -/
theorem padded_eventProof : Gives (eventProof paddedClient 1 1) { anchoredState with turn := 4 }
    (calledLeaf, []) { anchoredState with turn := 5 } := by
  refine bind_gives (rpc_answers rfl rfl padded_lengths.2.2.2) ?_
  refine bind_gives (ofExcept_gives (padded_parses (by simp))) ?_
  refine bind_gives (ofExcept_gives (bind_pass rfl (fromHex_toHex calledLeaf))) ?_
  exact bind_gives (ofExcept_gives rfl) (bind_gives (ofExcept_gives rfl) ⟨rfl, rfl⟩)

/-- What the client is asked to confirm. -/
def paddedCall : Confirming := .callEvent "Qa" calledSelector none

theorem decode_calledLeaf : decodeEvent singleChain calledLeaf
    = .ok { contract := "Qa", selector := calledSelector, data := [], tx := "tx" } := rfl

/-- The event is reported at position 1, with a path that only position 0 has. -/
theorem padded_run : ∃ c s', Gives (paddedCall.run paddedClient "tx") anchoredState c s'
    ∧ c.outcome = .eventProven 1
    ∧ paddedCall.EventAnswer paddedClient anchoredState "tx" 1 calledLeaf [] := by
  obtain ⟨confirmed, hheight, hconfirmed⟩ := padded_inclusion
  have hlisted : Gives (events paddedClient confirmed.header.height)
      { anchoredState with turn := 3 }
      [⟨"Qa", ⟨[9, 9, 9, 9], rfl⟩, []⟩, ⟨"Qa", calledSelector, []⟩]
      { anchoredState with turn := 4 } := by
    rw [hheight]
    exact padded_events
  have hproof : Gives (eventProof paddedClient confirmed.header.height 1)
      { anchoredState with turn := 4 } (calledLeaf, []) { anchoredState with turn := 5 } := by
    rw [hheight]
    exact padded_eventProof
  have hproves : ProvesEvent paddedClient "tx" "Qa" calledSelector none
      confirmed.header.eventRoot calledLeaf [] := ⟨rfl, _, decode_calledLeaf, rfl, rfl⟩
  refine ⟨{ confirmed with outcome := .eventProven 1 }, { anchoredState with turn := 5 }, ?_, rfl,
    confirmed, _, _, _, 1, hconfirmed, hlisted,
    ⟨⟨⟨⟨"Qa", calledSelector, []⟩, rfl, rfl⟩, ⟨_, hproof⟩, hproves⟩, ?_⟩, rfl⟩
  · refine bind_gives hconfirmed (bind_gives hlisted (bind_gives hproof ?_))
    exact bind_gives (ofExcept_gives decode_calledLeaf) ⟨rfl, rfl⟩
  · -- the event that was added has another selector
    rintro earlier hlt leaf steps ⟨⟨event, hget, hmatch⟩, -, -⟩
    obtain rfl : earlier = 0 := Nat.lt_one_iff.mp hlt
    cases hget
    exact absurd hmatch (by decide)

/-- What the client confirms has a certified header behind it all the same. -/
theorem confirmations_are_proven_padded : ∃ c, c.outcome = .eventProven 1
    ∧ Confirmed paddedClient anchoredState none "tx" c
    ∧ EventProven paddedClient "tx" "Qa" calledSelector none c := by
  obtain ⟨c, s', hrun, houtcome, -⟩ := padded_run
  obtain ⟨-, -, -, -, hevent, -⟩ := confirmations_are_proven paddedClient anchoredState "tx"
  exact ⟨c, houtcome, hevent "Qa" calledSelector none c s' hrun⟩

/-- The gateway's place for the event is not one its path can have. -/
theorem padded_misfits {c : ConfirmedTransaction} (houtcome : c.outcome = .eventProven 1)
    (hanswer : paddedCall.EventAnswer paddedClient anchoredState "tx" 1 calledLeaf []) :
    ¬ PositionsFit paddedClient anchoredState "tx" paddedCall c := by
  rintro ⟨-, hevent⟩
  obtain ⟨leaf, steps, hanswer', -, hfits⟩ := hevent 1 houtcome
  obtain ⟨-, -, rfl⟩ := hanswer.unique hanswer'
  exact absurd hfits (by decide)

end QCorePositionReport
