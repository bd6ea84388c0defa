import Mathlib
import QCore.MachineIntProofs
import QCore.ByteMemoryProofs
import QCore.FallibleProofs
import QCore.DecoderProofs
import QCore.TraceProofs
import QCore.JsonProofs
import QCore.WireProofs
import QCore.CratesProofs
import QCore.AddressProofs
import QCore.CertificateProofs
import QCore.FinalityProofs
import QCore.RosterProofs
import QCore.ClientProofs
import QCore.TrustProofs
import QCore.HeadProofs

/-! # Confirming a transaction

    A transaction is confirmed by a leaf under the transaction root of a
    certified header, and a call by an event under its event root as well.  The
    height, the header, the certificate, the roster, the leaf and the path all
    come from a gateway in separate answers; `inclusion_gives` is what ties them
    together. -/

namespace QCoreConfirmation

open QCoreMachineInt QCoreByteMemory QCoreFallible QCoreDecoder QCoreTrace QCoreTrace.Traced
  QCoreJson QCoreWire QCoreCrates QCoreAddress QCoreCertificate QCoreFinality QCoreRoster
  QCoreClient QCoreClient.Client QCoreTrust QCoreHead

/-- The most steps a path may have. -/
def maxProofSteps : Nat := 64

/-- What a transaction does. -/
inductive TxKind
  | transfer
  | call
  deriving DecidableEq

/-- What is known of what became of it. -/
inductive TxOutcome
  | applied
  | includedOutcomeUnproven
  | eventProven (eventIndex : U64)

/-- A transaction that is proven to stand in a certified block. -/
structure ConfirmedTransaction where
  txId : String
  index : U64
  header : FinalizedHeader
  kind : TxKind
  outcome : TxOutcome

/-- An event, as the event root commits to it. -/
structure ChainEvent where
  contract : String
  selector : Bytes 4
  data : List UInt8
  tx : String

/-- An event, as a gateway lists it. -/
structure ContractEvent where
  contract : String
  selector : Bytes 4
  data : List UInt8

/-! ## Leaves and paths -/

section

variable (crates : TxCrates) (chain : Chain)

/-- The siblings on the way to a root, and whether each is on the left. -/
abbrev Steps := List (Bytes 32 × Bool)

/-- A leaf stands under an event root. -/
def verifyEvent (eventRoot : Bytes 32) (leaf : List UInt8) (steps : Steps) : Bool :=
  if maxProofSteps < steps.length then false else chain.verifyInclusion eventRoot leaf steps

/-- A leaf stands under a transaction root, and is that of a transaction id. -/
def verifyTransaction (transactionRoot : Bytes 32) (txId : String) (leaf : List UInt8)
    (steps : Steps) : Bool :=
  match chain.renderTx (crates.sha3_256 leaf) with
  | some id => id == txId && verifyEvent chain transactionRoot leaf steps
  | none => false

/-- `qtv/vm/deploy`, in bytes. -/
def vmDeployTag : List UInt8 := [113, 116, 118, 47, 118, 109, 47, 100, 101, 112, 108, 111, 121]

/-- The address that a deploy is sent to. -/
def vmDeployAddress : String :=
  (crates.renderAddress (crates.sha3_256 vmDeployTag)).get (crates.renders _)

/-- The refusal of a leaf that is no transaction. -/
def malformedTransaction : String := "the transaction leaf is malformed"

/-- What a transaction leaf says of its target, its asset and its kind. -/
def transactionDecoder : Decode String (List UInt8 × Nat × UInt8) := do
  let _ ← field chain.getBytes malformedTransaction
  let _ ← field chain.getU64 malformedTransaction
  let _ ← field chain.getU64 malformedTransaction
  let _ ← field chain.getU128 malformedTransaction
  let target ← field chain.getBytes malformedTransaction
  let _ ← field chain.getBytes malformedTransaction
  let _ ← field chain.getU64 malformedTransaction
  let _ ← field chain.getU64 malformedTransaction
  let inAsset ← field chain.getBytes malformedTransaction
  let _ ← field chain.getU64 malformedTransaction
  let kind ← field chain.getU8 malformedTransaction
  let _ ← field chain.getU8 malformedTransaction
  let _ ← field chain.getBytes malformedTransaction
  return (target, inAsset.length, kind)

/-- What the transaction of a leaf does: one that has the kind of a call, deploys or
    carries an asset is a call. -/
def transactionKind (leaf : List UInt8) : Except String TxKind := do
  let (target, inAsset, kind) ← decodeAll (transactionDecoder chain) malformedTransaction leaf
  let deploy :=
    match addressPayload crates.toCrates (vmDeployAddress crates) with
    | .ok payload => payload.val == target
    | .error _ => false
  return if kind = crates.kindCall ∨ deploy = true ∨ inAsset ≠ 0 then .call else .transfer

/-- The refusal of a leaf that is no event. -/
def malformedEvent : String := "the event leaf is malformed"

/-- A field that is text. -/
def textField : Decode String String := do
  let bytes ← field chain.getBytes malformedEvent
  okOr (fromUtf8 bytes) malformedEvent

/-- An event, field by field. -/
def eventDecoder : Decode String ChainEvent := do
  let contract ← textField chain
  let selector ← field chain.getBytes malformedEvent
  let selector ← exactly 4 selector malformedEvent
  let data ← field chain.getBytes malformedEvent
  let tx ← fun unread =>
    if unread.length > 0 then textField chain unread else Except.ok ("", unread)
  return { contract, selector, data, tx }

/-- An event is all of its leaf. -/
def decodeEvent (leaf : List UInt8) : Except String ChainEvent :=
  decodeAll (eventDecoder chain) malformedEvent leaf

end

/-- How many ones the binary form of a 64-bit number has. -/
def countOnes (n : Nat) : Nat := (List.range 64).countP (fun i => n.testBit i)

/-- Whether a leaf at a position can have a path that turns as this one does: the
    peaks above it are a one of the position each, and the rest is its low bits. -/
def indexFitsPath (index : U64) (steps : Steps) : Bool :=
  let topDown := (steps.map (·.2)).reverse
  match topDown.findIdx? (fun right => !right) with
  | none => countOnes index.val = steps.length
  | some turn =>
      let depth := steps.length - turn - 1
      if 64 ≤ depth then false
      else
        let low := (topDown.drop (turn + 1)).foldl (fun acc right => acc * 2 + right.toNat) 0
        let high := index.val / 2 ^ (depth + 1)
        index.val % 2 ^ depth = low ∧ index.val / 2 ^ depth % 2 = 0 ∧ countOnes high = turn

/-- A step of a path. -/
def parseStep (item : Json) : Except String (Bytes 32 × Bool) := do
  let bytes ← hexField item "sibling" "a proof step needs a sibling"
  let sibling ← exactly 32 bytes "a proof sibling is 32 bytes"
  let left ← okOr ((item.get "left").bind Json.asBool) "a proof step needs a boolean left"
  return (sibling, left)

/-- A path, with no more steps than the cap. -/
def parseSteps (steps : Json) : Except String Steps := do
  let items ← okOr steps.asArray "the proof steps must be a list"
  refuseIf (maxProofSteps < items.length) "the proof has too many steps"
  items.mapM parseStep

/-- An event, from an answer. -/
def parseEvent (item : Json) : Except String ContractEvent := do
  let contract ← okOr ((item.get "contract").bind Json.asStr) "an event has no contract"
  let selector ← hexField item "selector" "an event has no selector"
  let selector ← exactly 4 selector "an event selector is not four bytes"
  let data ← hexField item "data" "an event has no data"
  return { contract, selector, data }

/-- The events of an answer. -/
def parseEvents (response : String) : Except String (List ContractEvent) := do
  let v ← parse response
  let items ← okOr ((v.get "events").bind Json.asArray) "the events response has no events array"
  items.mapM parseEvent

/-! ## Confirming -/

variable (self : Client)

/-- The id of the chain that a gateway reports, which is the configured one where one is
    configured. -/
def checkedChain (info : NodeInfo) : Except String U64 := do
  match self.network.chainId with
  | some configured =>
      refuseIf (info.chainId ≠ configured)
        s!"the gateway reports chain {shown info.chainId} but this client is configured for {configured}"
  | none => pure ()
  checkedChainId self.crates.toCrates info.chainId

/-- The roster to check a header of an epoch against: the one given, or the one
    the client trusts. -/
def rosterFor (chainId epoch : U64) (trusted : Option (Bytes 32 × VerifiedRoster)) :
    ClientM (Bytes 32 × VerifiedRoster) := do
  match trusted with
  | some trusted => return trusted
  | none => do
      let roster ← rosterForEpoch self chainId epoch
      let (genesis, members) ← okOr roster
        "a verified confirmation needs a trusted validator roster, call trust_roster first"
      return (genesis, { epoch, members })

/-- What a proof of a transaction says: its height, its index, its leaf and path. -/
def transactionProof (txId : String) : ClientM (U64 × U64 × List UInt8 × Steps) := do
  let text ← self.rpc "get_transaction_proof" (Json.object [("tx_id", .str txId)]).render
  let proof ← parse text
  let height ← okOr ((proof.get "height").bind Json.asU64) "the transaction proof names no height"
  let index ← okOr ((proof.get "index").bind Json.asU64) "the transaction proof names no index"
  let leaf ← hexField proof "leaf" "the transaction proof carries no leaf"
  let steps ← okOr (proof.get "steps") "the transaction proof carries no steps"
  let steps ← parseSteps steps
  return (height, index, leaf, steps)

/-- Prove a transaction to stand in a certified block, under the roster a caller brings
    or those the client trusts. -/
def inclusion (txId : String) (trusted : Option (Bytes 32 × VerifiedRoster)) :
    ClientM ConfirmedTransaction := do
  let info ← self.nodeInfo
  let chainId ← checkedChain self info
  let (height, index, leaf, steps) ← transactionProof self txId
  let (epoch, header, certificate) ← certifiedAt self height
  let (genesisHash, roster) ← rosterFor self chainId epoch trusted
  let epochLength ← epochLength self
  let verified ← verifyFinalityInEpoch self.chain chainId genesisHash epochLength roster header
    certificate
  refuseIf (verified.height ≠ height)
    "the finalized header is not at the height the proof names"
  refuseIf (!verifyTransaction self.crates self.chain verified.transactionRoot txId leaf steps)
    "the transaction is not proven inside the finalized block"
  refuseIf (!indexFitsPath index steps)
    s!"the gateway names position {index} for the transaction, which its verified inclusion path cannot reach"
  let kind ← transactionKind self.crates self.chain leaf
  return {
    txId, index, header := verified, kind
    outcome := match kind with
      | .transfer => .applied
      | .call => .includedOutcomeUnproven }

/-- With a roster that the caller brings. -/
def confirmInclusion (txId : String) (genesisHash : Bytes 32) (roster : VerifiedRoster) :
    ClientM ConfirmedTransaction :=
  inclusion self txId (some (genesisHash, roster))

/-- With the rosters that the client trusts. -/
def confirmInclusionTrusted (txId : String) : ClientM ConfirmedTransaction :=
  inclusion self txId none

/-- Inclusion settles what is no contract call. -/
def settled (confirmed : ConfirmedTransaction) : Except String ConfirmedTransaction := do
  refuseIf (confirmed.kind = .call)
    s!"{confirmed.txId} is a contract call, which the chain includes and charges even when it reverts, so inclusion does not prove it ran; prove the event it emits with confirm_call_event, or use confirm_inclusion for inclusion alone"
  return confirmed

/-- Prove a transaction that is no call, with a roster that the caller brings. -/
def confirmTransaction (txId : String) (genesisHash : Bytes 32) (roster : VerifiedRoster) :
    ClientM ConfirmedTransaction := do
  let confirmed ← confirmInclusion self txId genesisHash roster
  settled confirmed

/-- With the rosters that the client trusts. -/
def confirmTransactionTrusted (txId : String) : ClientM ConfirmedTransaction := do
  let confirmed ← confirmInclusionTrusted self txId
  settled confirmed

/-- The events of a block, as a gateway lists them. -/
def events (height : U64) : ClientM (List ContractEvent) := do
  let text ← self.rpc "get_events" (Json.object [("height", .int height)]).render
  parseEvents text

/-- Whether an event is of a contract and a selector, and carries the data. -/
def matchesEvent (contract : String) (selector : Bytes 4) (data : Option (List UInt8))
    (eventContract : String) (eventSelector : Bytes 4) (eventData : List UInt8) : Bool :=
  sameAddress self.crates.toCrates eventContract contract && eventSelector == selector
    && data.all (fun data => data == eventData)

/-- The leaf of an event and its path. -/
def eventProof (height : U64) (position : Nat) : ClientM (List UInt8 × Steps) := do
  let text ← self.rpc "get_event_proof"
    (Json.object [("height", .int height), ("index", .int (Fin.ofNat _ position))]).render
  let answer ← parse text
  let leaf ← hexField answer "leaf" "the event proof carries no leaf"
  let steps ← okOr (answer.get "steps") "the event proof carries no steps"
  let steps ← parseSteps steps
  return (leaf, steps)

/-- Try the events of a block one after another. -/
def provenEvent (confirmed : ConfirmedTransaction) (txId contract : String) (selector : Bytes 4)
    (data : Option (List UInt8)) : Nat → List ContractEvent → ClientM ConfirmedTransaction
  | _, [] => liftM (Except.error s!"the block that holds {txId} carries no proven event of that contract and selector, so the call is not shown to have run" :
      Except String ConfirmedTransaction)
  | position, event :: rest =>
      if matchesEvent self contract selector data event.contract event.selector event.data then do
        let (leaf, steps) ← eventProof self confirmed.header.height position
        if verifyEvent self.chain confirmed.header.eventRoot leaf steps then do
          let proven ← decodeEvent self.chain leaf
          if proven.tx = txId
              ∧ matchesEvent self contract selector data proven.contract proven.selector
                proven.data = true then
            return { confirmed with outcome := .eventProven (Fin.ofNat _ position) }
          else provenEvent confirmed txId contract selector data (position + 1) rest
        else provenEvent confirmed txId contract selector data (position + 1) rest
      else provenEvent confirmed txId contract selector data (position + 1) rest

/-- Prove a call by an event that it left in its block. -/
def confirmCallEvent (txId contract : String) (selector : Bytes 4) (data : Option (List UInt8)) :
    ClientM ConfirmedTransaction := do
  let confirmed ← confirmInclusionTrusted self txId
  let events ← events self confirmed.header.height
  provenEvent self confirmed txId contract selector data 0 events

/-- The status of a transaction that the client's rosters prove. -/
def trustedStatus (txId : String) : ClientM TxStatus := do
  let confirmed ← confirmInclusionTrusted self txId
  let height := confirmed.header.height
  let block := self.crates.renderBlock confirmed.header.hash
  return if confirmed.kind = .call then .included height block else .finalised height block

/-- The status of a transaction on the gateway's word alone. -/
def reportedStatus (height : U64) (block : Option String) : ClientM TxStatus := do
  let refusal := "a mainnet transaction status needs a trusted validator roster, the gateway's word alone is not proof of finality, call trust_roster first"
  if self.network.isMainnet ∨ self.network.chainId.any (isMainnetChain self.crates.toCrates) then
    liftM (Except.error refusal : Except String TxStatus)
  else do
    let info ← self.nodeInfo
    refuseIf (isMainnetChain self.crates.toCrates info.chainId) refusal
    return .unverified height block

/-- The status of a transaction, checked where the client trusts a roster. -/
def transaction (txId : String) : ClientM TxStatus := do
  let status ← self.transactionReported txId
  match status with
  | .finalised height block => do
      if ← anchorPinnedRoster self then trustedStatus self txId
      else reportedStatus self height block
  | status => return status

/-! ## What a confirmation has behind it -/

/-- Where a roster comes from: it was given, or it is joined to a trusted one. -/
def Source (chainId : U64) (s : ClientState) (trusted : Option (Bytes 32 × VerifiedRoster))
    (genesis : Bytes 32) (roster : VerifiedRoster) : Prop :=
  match trusted with
  | some given => given = (genesis, roster)
  | none => TrustedIn self chainId s genesis roster

/-- A leaf whose hash is the transaction's id, proven under a certified header. -/
structure Included (chainId : U64) (genesis : Bytes 32) (roster : VerifiedRoster)
    (leaf : List UInt8) (steps : Steps) (txId : String) (c : ConfirmedTransaction) : Prop where
  certified : CertifiedBy self chainId genesis roster c.header
  names : c.txId = txId
  hash : self.chain.renderTx (self.crates.sha3_256 leaf) = some txId
  proven : self.chain.verifyInclusion c.header.transactionRoot leaf steps = true
  short : steps.length ≤ maxProofSteps
  position : indexFitsPath c.index steps = true
  kind : transactionKind self.crates self.chain leaf = .ok c.kind

/-- A confirmation with everything behind it. -/
def Confirmed (s : ClientState) (trusted : Option (Bytes 32 × VerifiedRoster)) (txId : String)
    (c : ConfirmedTransaction) : Prop :=
  ∃ chainId genesis roster leaf steps, Source self chainId s trusted genesis roster
    ∧ Included self chainId genesis roster leaf steps txId c

/-- An event of a contract and a selector, with the data, that names the
    transaction and is proven under the event root of the header. -/
def EventProven (txId contract : String) (selector : Bytes 4) (data : Option (List UInt8))
    (c : ConfirmedTransaction) : Prop :=
  ∃ leaf steps event, steps.length ≤ maxProofSteps
    ∧ self.chain.verifyInclusion c.header.eventRoot leaf steps = true
    ∧ decodeEvent self.chain leaf = .ok event
    ∧ sameAddress self.crates.toCrates event.contract contract = true
    ∧ event.selector = selector ∧ event.tx = txId ∧ ∀ bytes, data = some bytes → event.data = bytes

section

variable {self} {s s' : ClientState} {txId : String}
  {trusted : Option (Bytes 32 × VerifiedRoster)} {c : ConfirmedTransaction}

/-- An event that is verified has a path that is short enough and leads to the root. -/
theorem verifyEvent_true {root : Bytes 32} {leaf : List UInt8} {steps : Steps}
    (h : verifyEvent self.chain root leaf steps = true) :
    steps.length ≤ maxProofSteps ∧ self.chain.verifyInclusion root leaf steps = true := by
  rw [verifyEvent] at h
  split at h
  · exact absurd h Bool.false_ne_true
  · next hshort => exact ⟨not_lt.mp hshort, h⟩

/-- An inclusion that is verified is that of the transaction's own leaf, by a path that
    leads to the root. -/
theorem verifyTransaction_true {root : Bytes 32} {leaf : List UInt8} {steps : Steps}
    (h : verifyTransaction self.crates self.chain root txId leaf steps = true) :
    self.chain.renderTx (self.crates.sha3_256 leaf) = some txId
      ∧ steps.length ≤ maxProofSteps ∧ self.chain.verifyInclusion root leaf steps = true := by
  rw [verifyTransaction] at h
  split at h
  · next id hid =>
      rw [Bool.and_eq_true, beq_iff_eq] at h
      exact ⟨h.1 ▸ hid, verifyEvent_true h.2⟩
  · exact absurd h Bool.false_ne_true

/-- The roster of an epoch was given, or is joined to a trusted one. -/
theorem rosterFor_gives {chainId epoch : U64} {genesis : Bytes 32} {roster : VerifiedRoster}
    (h : Gives (rosterFor self chainId epoch trusted) s (genesis, roster) s') :
    Source self chainId s trusted genesis roster := by
  cases trusted with
  | some given => exact (gives_pure h).1.symm
  | none =>
      obtain ⟨answer, t, hanswer, h⟩ := gives_bind h
      obtain ⟨⟨genesis', members⟩, hsome, h⟩ := gives_value h
      rw [okOr_ok hsome] at hanswer
      obtain ⟨heq, -⟩ := gives_pure h
      cases heq
      exact rosterForEpoch_gives hanswer

theorem transactionProof_asks (txId : String) : Asks (transactionProof self txId) := by
  refine within_bind (rpc_asks (by decide) _) (fun _ => within_bind (within_ofExcept _) (fun _ => ?_))
  refine within_bind (within_ofExcept _) (fun _ => within_bind (within_ofExcept _) (fun _ => ?_))
  refine within_bind (within_ofExcept _) (fun _ => within_bind (within_ofExcept _) (fun _ => ?_))
  exact within_bind (within_ofExcept _) (fun _ => within_pure _)

/-- **What an inclusion has shown.** -/
theorem inclusion_gives (h : Gives (inclusion self txId trusted) s c s') :
    Confirmed self s trusted txId c := by
  obtain ⟨info, t₁, hinfo, h⟩ := gives_bind h
  obtain ⟨chainId, -, h⟩ := gives_value h
  obtain ⟨⟨height, index, leaf, steps⟩, t₂, hproof, h⟩ := gives_bind h
  obtain ⟨⟨epoch, header, certificate⟩, t₃, hcertified, h⟩ := gives_bind h
  obtain ⟨⟨genesis, roster⟩, t₄, hroster, h⟩ := gives_bind h
  obtain ⟨length, hlength, h⟩ := gives_value h
  obtain ⟨verified, hverify, h⟩ := gives_value h
  obtain ⟨-, h⟩ := gives_guard h
  obtain ⟨hproven, h⟩ := gives_guard h
  obtain ⟨hposition, h⟩ := gives_guard h
  obtain ⟨kind, hkind, h⟩ := gives_value h
  obtain ⟨rfl, -⟩ := gives_pure h
  -- the requests before the roster is looked up change nothing it rests on
  have hlater : Later s t₃ := IsTrans.trans _ _ _ (nodeInfo_asks.gives hinfo)
    (IsTrans.trans _ _ _ ((transactionProof_asks txId).gives hproof)
      ((certifiedAt_asks height).gives hcertified))
  obtain ⟨hhash, hshort, hinclusion⟩ := verifyTransaction_true (by simpa using hproven)
  refine ⟨chainId, genesis, roster, leaf, steps, ?_,
    { certified := certifiedBy_of_ok hlength hverify
      names := rfl
      hash := hhash
      proven := hinclusion
      short := hshort
      position := by simpa using hposition
      kind := hkind }⟩
  have hsource := rosterFor_gives hroster
  cases trusted with
  | some given => exact hsource
  | none => exact TrustedIn.of_later hlater hsource

/-- Of a confirmed transaction only a transfer is settled. -/
theorem settled_ok {c' : ConfirmedTransaction} (h : settled c = .ok c') :
    c' = c ∧ c.kind = .transfer := by
  obtain ⟨hkind, h⟩ := guard_ok h
  cases h
  refine ⟨rfl, ?_⟩
  cases hc : c.kind with
  | transfer => rfl
  | call => exact absurd hc hkind

/-- An event that matches is the contract's, with the selector, and with the data where
    it is named. -/
theorem matchesEvent_true {contract other : String} {selector selector' : Bytes 4}
    {data : Option (List UInt8)} {bytes : List UInt8}
    (h : matchesEvent self contract selector data other selector' bytes = true) :
    sameAddress self.crates.toCrates other contract = true ∧ selector' = selector
      ∧ ∀ wanted, data = some wanted → bytes = wanted := by
  rw [matchesEvent, Bool.and_eq_true, Bool.and_eq_true, beq_iff_eq] at h
  refine ⟨h.1.1, h.1.2, ?_⟩
  rintro wanted rfl
  exact (beq_iff_eq.mp h.2).symm

/-- **A proven event** is under the header's event root and says what was asked
    of it; nothing of the confirmation but its outcome changes. -/
theorem provenEvent_gives {contract : String} {selector : Bytes 4} {data : Option (List UInt8)}
    {position : Nat} {events : List ContractEvent} {c' : ConfirmedTransaction}
    (h : Gives (provenEvent self c txId contract selector data position events) s c' s') :
    ∃ outcome, c' = { c with outcome := outcome }
      ∧ EventProven self txId contract selector data c' := by
  induction events generalizing position s with
  | nil => exact nomatch (gives_ofExcept h).1
  | cons event rest ih =>
      unfold provenEvent at h
      split at h
      · obtain ⟨⟨leaf, steps⟩, t, -, h⟩ := gives_bind h
        dsimp only at h
        split at h
        · next hproven =>
            obtain ⟨proven, hdecoded, h⟩ := gives_value h
            split at h
            · next hmatch =>
                obtain ⟨rfl, -⟩ := gives_pure h
                obtain ⟨hshort, hinclusion⟩ := verifyEvent_true hproven
                obtain ⟨hcontract, hselector, hdata⟩ := matchesEvent_true hmatch.2
                exact ⟨_, rfl, leaf, steps, proven, hshort, hinclusion, hdecoded, hcontract,
                  hselector, hmatch.1, hdata⟩
            · exact ih h
        · exact ih h
      · exact ih h

/-- A transaction that the gateway reports is finalised, pending or unknown. -/
theorem parseTransaction_status {response : String} {status : TxStatus}
    (h : parseTransaction response = .ok status) :
    (∃ height block, status = .finalised height block) ∨ status = .pending
      ∨ status = .unknown := by
  obtain ⟨v, -, h⟩ := bind_ok h
  obtain ⟨text, -, h⟩ := bind_ok h
  split at h
  · obtain ⟨height, -, h⟩ := bind_ok h
    obtain ⟨block, -, h⟩ := bind_ok h
    cases h
    exact Or.inl ⟨height, block, rfl⟩
  · split at h
    · cases h; exact Or.inr (Or.inl rfl)
    · split at h
      · cases h; exact Or.inr (Or.inr rfl)
      · exact nomatch h

/-! ## The calls that confirm -/

theorem confirmTransactionTrusted_gives (h : Gives (confirmTransactionTrusted self txId) s c s') :
    Confirmed self s none txId c ∧ c.kind = .transfer := by
  obtain ⟨confirmed, t, hconfirmed, h⟩ := gives_bind h
  obtain ⟨rfl, hkind⟩ := settled_ok (gives_ofExcept h).1
  exact ⟨inclusion_gives hconfirmed, hkind⟩

/-- A transaction that is confirmed has everything behind it and is no call. -/
theorem confirmTransaction_gives {genesis : Bytes 32} {roster : VerifiedRoster}
    (h : Gives (confirmTransaction self txId genesis roster) s c s') :
    Confirmed self s (some (genesis, roster)) txId c ∧ c.kind = .transfer := by
  obtain ⟨confirmed, t, hconfirmed, h⟩ := gives_bind h
  obtain ⟨rfl, hkind⟩ := settled_ok (gives_ofExcept h).1
  exact ⟨inclusion_gives hconfirmed, hkind⟩

/-- A proven event leaves the inclusion of its transaction as it was. -/
theorem confirmCallEvent_gives {contract : String} {selector : Bytes 4}
    {data : Option (List UInt8)}
    (h : Gives (confirmCallEvent self txId contract selector data) s c s') :
    Confirmed self s none txId c ∧ EventProven self txId contract selector data c := by
  obtain ⟨confirmed, t, hconfirmed, h⟩ := gives_bind h
  obtain ⟨events, t', -, h⟩ := gives_bind h
  obtain ⟨outcome, rfl, hevent⟩ := provenEvent_gives h
  obtain ⟨chainId, genesis, roster, leaf, steps, hsource,
    ⟨hcertified, hnames, hhash, hproven, hshort, hposition, hkind⟩⟩ := inclusion_gives hconfirmed
  exact ⟨⟨chainId, genesis, roster, leaf, steps, hsource,
    ⟨hcertified, hnames, hhash, hproven, hshort, hposition, hkind⟩⟩, hevent⟩

theorem transactionReported_asks (txId : String) : Asks (self.transactionReported txId) :=
  within_bind (rpc_asks (by decide) _) (fun _ => within_ofExcept _)

/-- Without a trusted roster no status is finalised. -/
theorem reportedStatus_gives {height : U64} {block : Option String} {status : TxStatus}
    (h : Gives (reportedStatus self height block) s status s') :
    status = .unverified height block := by
  rw [reportedStatus] at h
  split at h
  · cases (gives_ofExcept h).1
  · obtain ⟨info, t, -, h⟩ := gives_bind h
    obtain ⟨-, h⟩ := gives_guard h
    exact (gives_pure h).1

/-- **A finalised status** is of a transfer whose inclusion is proven. -/
theorem transaction_gives {height : U64} {block : Option String}
    (h : Gives (transaction self txId) s (.finalised height block) s') :
    ∃ c, Confirmed self s none txId c ∧ c.kind = .transfer ∧ height = c.header.height
      ∧ block = self.crates.renderBlock c.header.hash := by
  obtain ⟨status, t, hreported, h⟩ := gives_bind h
  have hlater : Later s t := (transactionReported_asks txId).gives hreported
  obtain ⟨text, t', -, hparse⟩ := gives_bind hreported
  rcases parseTransaction_status (gives_ofExcept hparse).1 with ⟨_, _, rfl⟩ | rfl | rfl
  · obtain ⟨anchored, u, hanchor, h⟩ := gives_bind h
    cases anchored with
    | false => exact nomatch reportedStatus_gives h
    | true =>
        rw [if_pos rfl] at h
        obtain ⟨c, u', hconfirmed, h⟩ := gives_bind h
        obtain ⟨hstatus, -⟩ := gives_pure h
        split at hstatus
        · exact nomatch hstatus
        · next hkind =>
            cases hstatus
            obtain ⟨chainId, genesis, roster, leaf, steps, hsource, hincluded⟩ :=
              inclusion_gives hconfirmed
            refine ⟨c, ⟨chainId, genesis, roster, leaf, steps, ?_, hincluded⟩, ?_, rfl, rfl⟩
            · exact (TrustedIn.of_anchored hanchor hsource).of_later hlater
            · cases hc : c.kind with
              | transfer => rfl
              | call => exact absurd hc hkind
  · exact nomatch (gives_pure h).1
  · exact nomatch (gives_pure h).1

/-- **Whatever is confirmed is proven.**  A confirmation, an event or a finalised
    status that a client returns has a certified header behind it, whatever its
    gateway answered. -/
theorem confirmations_are_proven (self : Client) (s : ClientState) (txId : String) :
    (∀ genesis roster c s', Gives (confirmInclusion self txId genesis roster) s c s' →
        Confirmed self s (some (genesis, roster)) txId c)
      ∧ (∀ c s', Gives (confirmInclusionTrusted self txId) s c s' → Confirmed self s none txId c)
      ∧ (∀ genesis roster c s', Gives (confirmTransaction self txId genesis roster) s c s' →
        Confirmed self s (some (genesis, roster)) txId c ∧ c.kind = .transfer)
      ∧ (∀ c s', Gives (confirmTransactionTrusted self txId) s c s' →
        Confirmed self s none txId c ∧ c.kind = .transfer)
      ∧ (∀ contract selector data c s',
        Gives (confirmCallEvent self txId contract selector data) s c s' →
        Confirmed self s none txId c ∧ EventProven self txId contract selector data c)
      ∧ (∀ height block s', Gives (transaction self txId) s (.finalised height block) s' →
        ∃ c, Confirmed self s none txId c ∧ c.kind = .transfer ∧ height = c.header.height
          ∧ block = self.crates.renderBlock c.header.hash) := by
  refine ⟨?_, ?_, ?_, ?_, ?_, ?_⟩
  · intro genesis roster c s' h
    exact inclusion_gives h
  · intro c s' h
    exact inclusion_gives h
  · intro genesis roster c s' h
    exact confirmTransaction_gives h
  · intro c s' h
    exact confirmTransactionTrusted_gives h
  · intro contract selector data c s' h
    exact confirmCallEvent_gives h
  · intro height block s' h
    exact transaction_gives h

end

end QCoreConfirmation
