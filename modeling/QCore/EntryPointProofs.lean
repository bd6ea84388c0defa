import Mathlib
import QCore.MachineIntProofs
import QCore.ByteMemoryProofs
import QCore.SortedMapProofs
import QCore.FallibleProofs
import QCore.TraceProofs
import QCore.JsonProofs
import QCore.WireProofs
import QCore.SessionProofs
import QCore.SessionStateProofs
import QCore.SessionSpentProofs
import QCore.CratesProofs
import QCore.AddressProofs
import QCore.ContractProofs
import QCore.RosterProofs
import QCore.ClientProofs
import QCore.TrustProofs
import QCore.HeadProofs
import QCore.ConfirmationProofs
import QCore.SigningProofs
import QCore.OrderProofs

/-! # The signing entry points

    There are seven: a transfer, a key registration, a call, a call that carries
    an asset, two kinds of order call and a deploy.  Each vets who it pays, asks
    the gateway what it signs against, takes its nonces, signs and hands the
    transaction over.  The gateway answers every question, so each answer is
    guarded before it is used.

    What follows the definitions is one lemma for each of those parts: what it
    leaves when it succeeds, and that no transaction is handed over before its
    guards have passed. -/

namespace QCoreEntryPoint

open QCoreMachineInt QCoreByteMemory QCoreSortedMap QCoreFallible QCoreTrace QCoreTrace.Traced
  QCoreJson QCoreWire QCoreSession QCoreCrates QCoreAddress QCoreContract QCoreRoster QCoreClient
  QCoreClient.Client QCoreTrust QCoreHead QCoreConfirmation QCoreSigning QCoreOrder

/-- The genesis of the main network is not known yet. -/
def mainnetGenesisHash : Option (Bytes 32) := none

/-- Whether a gateway reports the main network. -/
def isMainnetInfo (crates : TxCrates) (info : NodeInfo) : Bool :=
  isMainnetChain crates.toCrates info.chainId
    || mainnetGenesisHash.any (fun pinned => (parseGenesis info).toOption = some pinned)

/-- The key that the nonces of an account are kept under. -/
def accountSlotKey (chain account : String) : String := chain ++ "/" ++ account

/-- The key that the order nonces of a signer are kept under. -/
def orderSlotKey (crates : TxCrates) (chain contract : String) (signer : Bytes 32) :
    Except String String := do
  let payload ← addressPayload crates.toCrates contract
  let contract ← okOr (crates.renderAddress payload) "the contract is not a Q1 address"
  return chain ++ "/" ++ contract ++ "/" ++ toHex signer.val

/-- Whether a gateway took a transaction. -/
def accepted : Submit → Bool
  | .accepted _ _ => true
  | .rejected _ _ _ => false

section

variable (self : Client)

/-! ## Guards -/

/-- The genesis to sign for, under the rosters that are trusted. -/
def genesisUnder (trusted : Option TrustedRosters) (info : NodeInfo) :
    Except String (Bytes 32) := do
  let reported ← parseGenesis info
  refuseIf (trusted.any (fun trusted => trusted.1 ≠ reported))
    "the gateway reports a genesis hash other than the one whose validator roster this client trusts, refusing to sign"
  match self.network.genesisHash with
  | some pinned => do
      refuseIf (pinned ≠ reported)
        "the gateway reports a genesis hash other than the one pinned for this network, refusing to sign"
      return pinned
  | none => do
      refuseIf (isPublicChain self.crates.toCrates info.chainId)
        s!"no genesis hash is pinned for the public chain {shown info.chainId}, pin the network genesis before signing"
      return reported

/-- The genesis to sign for. -/
def signingGenesis (info : NodeInfo) : ClientM (Bytes 32) := do
  let s ← read
  genesisUnder self s.trustedRoster info

/-- The main network is not signed for unless its caller acknowledged it. -/
def guardMainnet : Except String Unit :=
  let label := self.network.chainId.getD ""
  refuseIf (self.network.isMainnet ∧ ¬ self.acknowledgeMainnet)
    s!"refusing to sign for the mainnet network {label} without acknowledging it, acknowledge mainnet when you mean to move real value"

/-- The sender is remembered, and no target may look like an address that is. -/
def vetTarget (sender : String) (targets : List String) : ClientM Unit := do
  modify (fun s => { s with session := rememberAddress self.crates.toCrates s.session sender })
  let s ← read
  (targets.forM (checkTarget self.crates.toCrates s.session) : Except String Unit)

/-- What was signed for is remembered. -/
def rememberTargets (targets : List String) : ClientM Unit :=
  modify (fun s => { s with
    session := targets.foldl (rememberAddress self.crates.toCrates) s.session })

/-- Pin the first name a client with no configured one signs for. -/
def pinChain (name : String) : ClientM Unit := do
  let s ← read
  match s.pinnedChain with
  | some first =>
      liftM (refuseIf (first ≠ name)
        s!"the gateway reported {shown first} earlier in this session and now reports {shown name}, refusing to sign")
  | none => modify (fun s => { s with pinnedChain := some name })

/-- Refuse a chain other than the configured one, or than the first. -/
def holdChain (info : NodeInfo) : ClientM Unit :=
  match self.network.chainId with
  | some configured =>
      liftM (refuseIf (info.chainId ≠ configured)
        s!"the gateway reports chain {shown info.chainId} but this client is configured for {configured}, refusing to sign a transaction that would be valid on a network you did not choose")
  | none => do
      let isMainnet := isMainnetInfo self.crates info
      refuseIf ((isPublicChain self.crates.toCrates info.chainId || isMainnet)
          && !(isMainnet && self.acknowledgeMainnet))
        s!"the gateway reports the public chain {shown info.chainId} but this client was opened for an unnamed network, configure the testnet or mainnet network before signing for it"
      pinChain info.chainId

/-- The id of the chain to sign for, which is held to from then on. -/
def signingChainId (info : NodeInfo) : ClientM U64 := do
  refuseIf (info.chainId = "")
    "the gateway did not report a chain id to bind the signature to"
  let id ← checkedChainId self.crates.toCrates info.chainId
  holdChain self info
  refuseIf (isMainnetInfo self.crates info && !self.acknowledgeMainnet)
    s!"the gateway reports the mainnet chain {shown info.chainId} but this client did not acknowledge mainnet, refusing to sign a mainnet transaction without acknowledging mainnet"
  return id

/-- The clock of the network, or the known one of the chain. -/
def clockFor (info : NodeInfo) : Except String (Option ChainClock) := do
  let clock ← self.network.clock
  return clock.or (knownClock info.chainId)

/-- The deadline to sign with, from a head that is verified or bounded by a clock. -/
def validity (info : NodeInfo) : ClientM U64 := do
  let _ ← signingGenesis self info
  let verified ← verifyHead self info
  refuseIf (!verified && (self.network.isMainnet
      || isPublicChain self.crates.toCrates info.chainId))
    s!"the head of the public chain {shown info.chainId} must be verified against a trusted validator roster before signing, pin the network roster commitment or call trust_roster"
  let clock ← clockFor self info
  let wall ← reach (fun turn => (self.clock turn).getD 0)
  let s ← read
  let floor := s.shared.headFloor info.chainId
  let validUntil ← boundedValidUntilFor clock verified info.headHeight wall (floor.map (·.1))
    ((floor.map (fun floor => saturatingSub wall floor.2)).getD 0)
  modify (fun s => { s with shared := s.shared.noteHead info.chainId info.headHeight wall })
  return validUntil

/-- A fee that is not above what the caller allows. -/
def feeWithin (fee maxFee : U128) : Except String U128 := do
  refuseIf (maxFee < fee) s!"the fee {fee} is above the maximum you allowed {maxFee}, refusing to sign"
  return fee

/-- The fee of a transfer or a registration. -/
def transferFeeWithin (maxFee : U128) (info : NodeInfo) : Except String U128 := do
  refuseIf (maxFee < info.transferFee)
    s!"the gateway fee {info.transferFee} is above the maximum you allowed {maxFee}, refusing to sign"
  return info.transferFee

/-- The fee of a call. -/
def callFeeWithin (meterLimit : U64) (maxFee : U128) (info : NodeInfo) : Except String U128 :=
  feeWithin (vmCallFee info.transferFee meterLimit) maxFee

/-- The fee of a call that deploys. -/
def deployFeeWithin (meterLimit : U64) (maxFee : U128) (info : NodeInfo) :
    Except String U128 := do
  let deployFee ← deployFeeOf info
  feeWithin (saturatingAdd (vmCallFee info.transferFee meterLimit) deployFee) maxFee

/-- What every entry point begins with. -/
def opening (sender : String) (targets : List String) (feeOf : NodeInfo → Except String U128) :
    ClientM (NodeInfo × U128 × U64) := do
  vetTarget self sender targets
  let info ← self.nodeInfo
  guardMainnet self
  let fee ← feeOf info
  let chainId ← signingChainId self info
  return (info, fee, chainId)

/-! ## What contracts hold -/

/-- The slots of a contract, as a gateway reports them. -/
def storage (contract : String) : ClientM (List StorageSlot) := do
  let text ← self.rpc "get_storage" (storageBody contract)
  parseStorage text

/-- The balance of a holder in an asset, as a gateway reports it. -/
def assetBalance (issuer holder : String) : ClientM U128 := do
  refuseIf (!validAddress self.crates.toCrates issuer || !validAddress self.crates.toCrates holder)
    "the issuer or holder is not a Q1 address"
  let text ← self.rpc "get_asset_balance" (assetBalanceBody issuer holder)
  let v ← parse text
  fieldU128 v "balance"

/-- The slots that are asked for by key, as a gateway reports them. -/
def storageAt (contract : String) (keys : List (Bytes 32)) : ClientM (List StorageSlot) := do
  let text ← self.rpc "get_storage_at" (storageAtBody contract keys)
  parseStorage text

/-- The value of one slot, which the gateway has to report. -/
def slotValue (contract : String) (key : Bytes 32) : ClientM U64 := do
  let slots ← storageAt self contract [key]
  okOr (storageValueReported slots key) "the gateway did not report the requested storage slot"

/-- The order nonce of a signer. -/
def contractNonce (contract : String) (signer : Bytes 32) : ClientM U64 :=
  slotValue self contract (nonceSlotKey self.crates.toCrates signer)

/-- The value of a numbered slot. -/
def contractScalar (contract : String) (slot : U64) : ClientM U64 :=
  slotValue self contract (self.crates.scalarSlotKey slot)

/-- The value of an entry of a map. -/
def contractMap (contract : String) (mapDomainTag : U64) (key : Bytes 32) : ClientM U64 :=
  slotValue self contract (mapSlotKey self.crates.toCrates mapDomainTag key)

/-! ## Nonces -/

/-- Take a nonce of the shared session, and release it however the rest ends. -/
def reserving {α : Type} (key : String) (reported : U64) (expected : Option U64) (order : Bool)
    (rest : String → U64 → ClientM α) : ClientM α := do
  let nonce ← step (fun s =>
    let (answer, shared) := s.shared.slot key reported expected order
    (answer, { s with shared }))
  andFinally (rest key nonce) (fun s => { s with shared := s.shared.release key nonce })

/-- Go on with a nonce of the account that signs. -/
def checkedNonce {α : Type} (info : NodeInfo) (sender : String) (expected : Option U64)
    (rest : String → U64 → ClientM α) : ClientM α := do
  let account ← self.account sender
  reserving (accountSlotKey info.chainId sender) account.nonce expected false rest

/-- Go on with an order nonce of the signer. -/
def orderNonce {α : Type} (info : NodeInfo) (contract : String) (signer : Bytes 32)
    (expected : Option U64) (rest : String → U64 → ClientM α) : ClientM α := do
  let key ← orderSlotKey self.crates info.chainId contract signer
  let reported ← contractNonce self contract signer
  reserving key reported expected true rest

/-! ## Handing over -/

/-- Give the session to the hook, if there is one. -/
def saveSigned : ClientM Unit :=
  match self.onSigned with
  | some hook => do
      let s ← read
      let saved ← reach (fun turn => hook turn s.shared.exportState)
      saved.mapError
        (fun e => s!"the signed nonce could not be saved before submitting, nothing was sent: {e}")
  | none => pure ()

/-- Hand a transaction over once its nonces are marked and stored. -/
def submitHeld (slots : List (String × U64)) (signed : SignedTransfer) : ClientM Submit := do
  modify (fun s => { s with shared := s.shared.signedAll slots })
  saveSigned self
  let outcome ← self.submit signed.txBytes
  modify (fun s => { s with shared := s.shared.outcomeAll slots (accepted outcome) })
  return outcome

/-- What the random source gives when it is asked. -/
def drawn : ClientM (Except String (Bytes 32)) :=
  reach (fun turn => freshRandomness (self.entropy turn))

/-- Sign for the genesis and hand the transaction over. -/
def signAndSubmit (info : NodeInfo) (targets : List String) (slots : List (String × U64))
    (sign : Bytes 32 → Except String (Bytes 32) → Except String SignedTransfer) :
    ClientM (SignedTransfer × Submit) := do
  let genesis ← signingGenesis self info
  let randomness ← drawn self
  let signed ← sign genesis randomness
  rememberTargets self targets
  let outcome ← submitHeld self slots signed
  return (signed, outcome)

/-! ## Entry points -/

/-- Send an amount to a recipient. -/
def transferExpecting (seed : Bytes seedLen) (index : U64) (recipient : String) (amount : U64)
    (maxFee : U128) (expectedNonce : Option U64) : ClientM (SignedTransfer × Submit) := do
  refuseIf (¬ validAddress self.crates.toCrates recipient) "the recipient is not a Q1 address"
  let sender := self.crates.accountAddress seed index
  let (info, fee, chainId) ← opening self sender [recipient] (transferFeeWithin maxFee)
  let validUntil ← validity self info
  checkedNonce self info sender expectedNonce (fun key nonce =>
    signAndSubmit self info [recipient] [(key, nonce)] (fun genesis randomness =>
      signTransfer self.crates seed index recipient amount nonce fee chainId validUntil
        info.headHeight genesis randomness))

/-- Register the key of the account. -/
def registerExpecting (seed : Bytes seedLen) (index : U64) (maxFee : U128)
    (expectedNonce : Option U64) : ClientM (SignedTransfer × Submit) := do
  let sender := self.crates.accountAddress seed index
  let (info, fee, chainId) ← opening self sender [] (transferFeeWithin maxFee)
  let validUntil ← validity self info
  checkedNonce self info sender expectedNonce (fun key nonce =>
    signAndSubmit self info [] [(key, nonce)] (fun genesis randomness =>
      signRegister self.crates seed index nonce fee chainId validUntil info.headHeight genesis
        randomness))

/-- Call a contract, with an amount of the native asset. -/
def callPayableExpecting (seed : Bytes seedLen) (index : U64) (target : String)
    (args : List UInt8) (value meterLimit : U64) (maxFee : U128) (expectedNonce : Option U64) :
    ClientM (SignedTransfer × Submit) := do
  refuseIf (¬ validAddress self.crates.toCrates target) "the target is not a Q1 address"
  let sender := self.crates.accountAddress seed index
  let feeOf :=
    if sameAddress self.crates.toCrates target (vmDeployAddress self.crates) then
      deployFeeWithin meterLimit maxFee
    else callFeeWithin meterLimit maxFee
  let (info, fee, chainId) ← opening self sender [target] feeOf
  let validUntil ← validity self info
  checkedNonce self info sender expectedNonce (fun key nonce =>
    signAndSubmit self info [target] [(key, nonce)] (fun genesis randomness =>
      signPayableCall self.crates seed index target args value nonce meterLimit fee chainId
        validUntil info.transferFee info.headHeight genesis randomness))

/-- Call a contract, with an amount of another asset. -/
def callAssetExpecting (seed : Bytes seedLen) (index : U64) (target : String)
    (args : List UInt8) (assetIssuer : String) (amount meterLimit : U64) (maxFee : U128)
    (expectedNonce : Option U64) : ClientM (SignedTransfer × Submit) := do
  refuseIf (¬ validAddress self.crates.toCrates target) "the target is not a Q1 address"
  refuseIf (¬ validAddress self.crates.toCrates assetIssuer)
    "the asset issuer is not a Q1 address"
  let sender := self.crates.accountAddress seed index
  let (info, fee, chainId) ← opening self sender [target, assetIssuer]
    (callFeeWithin meterLimit maxFee)
  let validUntil ← validity self info
  checkedNonce self info sender expectedNonce (fun key nonce =>
    signAndSubmit self info [target, assetIssuer] [(key, nonce)] (fun genesis randomness =>
      signAssetCall self.crates seed index target args assetIssuer amount nonce meterLimit fee
        chainId validUntil info.transferFee info.headHeight genesis randomness))

/-- The seconds since 1970, which an order needs. -/
def orderClock : ClientM U64 := do
  let now ← reach self.clock
  okOr now "the system clock is before 1970"

/-- Take the order's nonce, build it, take the account's and hand the call over. -/
def callOrder (info : NodeInfo) (caller contract : String) (signer : Bytes 32)
    (targets : List String) (expectedNonce expectedOrderNonce : Option U64)
    (build : U64 → Except String (Bytes 32) → Except String SignedOrderCall)
    (sign : SignedOrderCall → U64 → Bytes 32 → Except String (Bytes 32) →
      Except String SignedTransfer) :
    ClientM (SignedTransfer × Submit × SignedOrderCall) :=
  orderNonce self info contract signer expectedOrderNonce (fun orderKey nonce => do
    let randomness ← drawn self
    let order ← build nonce randomness
    checkedNonce self info caller expectedNonce (fun key accountNonce => do
      let (signed, outcome) ← signAndSubmit self info targets
        [(orderKey, nonce), (key, accountNonce)] (sign order accountNonce)
      return (signed, outcome, order)))

/-- Call a contract with an order of its owner, of words. -/
def callSignedOrderExpecting (callerSeed : Bytes seedLen) (callerIndex : U64) (contract : String)
    (selector : Bytes 4) (layout : OrderLayout) (fields : List U64) (ownerSeed : Bytes seedLen)
    (ownerIndex meterLimit : U64) (maxFee : U128)
    (expectedNonce expectedOrderNonce : Option U64) :
    ClientM (SignedTransfer × Submit × SignedOrderCall) := do
  refuseIf (¬ validAddress self.crates.toCrates contract) "the contract is not a Q1 address"
  let now ← orderClock self
  checkOrderExpiry layout.expiry now
  let caller := self.crates.accountAddress callerSeed callerIndex
  let (info, fee, chainId) ← opening self caller [contract] (callFeeWithin meterLimit maxFee)
  let genesis ← signingGenesis self info
  let validUntil ← validity self info
  callOrder self info caller contract (orderSigner self.crates.toCrates ownerSeed ownerIndex)
    [contract] expectedNonce expectedOrderNonce
    (fun nonce randomness =>
      buildSignedOrderCall self.crates.toCrates chainId genesis contract selector layout fields
        ownerSeed ownerIndex nonce randomness)
    (fun order accountNonce genesis randomness =>
      signCall self.crates callerSeed callerIndex contract order.callArgs accountNonce meterLimit
        fee chainId validUntil info.transferFee info.headHeight genesis randomness)

/-- Call a contract with an order of its owner, of typed fields. -/
def callTypedOrderExpecting (callerSeed : Bytes seedLen) (callerIndex : U64) (contract : String)
    (selector : Bytes 4) (layoutHash : Bytes 32) (schemeOff ptrOff expiryOff expiry regionOff : U64)
    (fields : List FieldArg) (ownerSeed : Bytes seedLen) (ownerIndex value : U64)
    (inAsset : Option String) (meterLimit : U64) (maxFee : U128)
    (expectedNonce expectedOrderNonce : Option U64) :
    ClientM (SignedTransfer × Submit × SignedOrderCall) := do
  refuseIf (¬ validAddress self.crates.toCrates contract) "the contract is not a Q1 address"
  refuseIf (inAsset.any (fun issuer => !validAddress self.crates.toCrates issuer))
    "the asset issuer is not a Q1 address"
  let now ← orderClock self
  checkOrderExpiry expiry now
  let caller := self.crates.accountAddress callerSeed callerIndex
  let targets := contract :: inAsset.toList
  let (info, fee, chainId) ← opening self caller targets (callFeeWithin meterLimit maxFee)
  let genesis ← signingGenesis self info
  let validUntil ← validity self info
  callOrder self info caller contract (orderSigner self.crates.toCrates ownerSeed ownerIndex)
    targets expectedNonce expectedOrderNonce
    (fun nonce randomness =>
      buildTypedOrderCall self.crates.toCrates chainId genesis contract selector layoutHash
        schemeOff ptrOff expiryOff regionOff fields ownerSeed ownerIndex nonce expiry randomness)
    (fun order accountNonce genesis randomness =>
      match inAsset with
      | some issuer =>
          signAssetCall self.crates callerSeed callerIndex contract order.callArgs issuer value
            accountNonce meterLimit fee chainId validUntil info.transferFee info.headHeight genesis
            randomness
      | none =>
          signPayableCall self.crates callerSeed callerIndex contract order.callArgs value
            accountNonce meterLimit fee chainId validUntil info.transferFee info.headHeight genesis
            randomness)

/-- Deploy a contract with its parameters. -/
def deployWithParamsExpecting (seed : Bytes seedLen) (index : U64) (container : List UInt8)
    (params : List DeployParam) (meterLimit : U64) (maxFee : U128) (expectedNonce : Option U64) :
    ClientM (SignedTransfer × Submit × String) := do
  let deployer := self.crates.accountAddress seed index
  let (info, fee, chainId) ← opening self deployer [] (deployFeeWithin meterLimit maxFee)
  let validUntil ← validity self info
  checkedNonce self info deployer expectedNonce (fun key accountNonce => do
    let args := buildDeployCall container params
    let contract ← okOr (contractAddress self.crates deployer accountNonce)
      "the deployer is not a Q1 address"
    let (signed, outcome) ← signAndSubmit self info [] [(key, accountNonce)]
      (fun genesis randomness =>
        signCall self.crates seed index (vmDeployAddress self.crates) args accountNonce meterLimit
          fee chainId validUntil info.transferFee info.headHeight genesis randomness)
    rememberTargets self (if accepted outcome then [contract] else [])
    return (signed, outcome, contract))

end

/-! ## What the guards leave -/

section

variable {self : Client} {info : NodeInfo} {genesis : Bytes 32} {chainId : U64} {fee : U128}
  {s s' : ClientState} {r : Request}

/-- A genesis that is accepted is the reported one, the pinned one and that of the
    trusted rosters. -/
theorem genesisUnder_ok {trusted : Option TrustedRosters}
    (h : genesisUnder self trusted info = .ok genesis) :
    parseGenesis info = .ok genesis ∧ (∀ t, trusted = some t → t.1 = genesis)
      ∧ ∀ pinned, self.network.genesisHash = some pinned → pinned = genesis := by
  obtain ⟨reported, hreported, h⟩ := bind_ok h
  obtain ⟨htrusted, h⟩ := guard_ok h
  have hsame : ∀ t, trusted = some t → t.1 = reported := by
    rintro t rfl
    simpa using htrusted
  split at h
  · next pinned hpinned =>
      obtain ⟨heq, h⟩ := guard_ok h
      cases h
      obtain rfl := not_not.mp heq
      exact ⟨hreported, hsame, fun other hother => Option.some.inj (hother.symm.trans hpinned)⟩
  · next hnone =>
      obtain ⟨-, h⟩ := guard_ok h
      cases h
      exact ⟨hreported, hsame, fun other hother => nomatch hnone.symm.trans hother⟩

/-- The genesis does not depend on which rosters are trusted. -/
theorem genesisUnder_unique {trusted trusted' : Option TrustedRosters} {genesis' : Bytes 32}
    (h : genesisUnder self trusted info = .ok genesis)
    (h' : genesisUnder self trusted' info = .ok genesis') : genesis = genesis' :=
  Except.ok.inj ((genesisUnder_ok h).1.symm.trans (genesisUnder_ok h').1)

theorem signingGenesis_gives (h : Gives (signingGenesis self info) s genesis s') :
    genesisUnder self s.trustedRoster info = .ok genesis ∧ s' = s := by
  have h := gives_read_bind h
  exact gives_ofExcept h

theorem signingGenesis_asks : Asks (signingGenesis self info) :=
  within_bind within_read (fun _ => within_ofExcept _)

/-- No target is a lookalike of an address that is known once the sender is. -/
def Vetted (self : Client) (s : ClientState) (sender : String) (targets : List String) : Prop :=
  ∀ target ∈ targets, lookalikeOf self.crates.toCrates target
    (known (rememberAddress self.crates.toCrates s.session sender)) = none

/-- Targets that are vetted look like none that is known, and only the book has changed.
    -/
theorem vetTarget_gives {sender : String} {targets : List String} {u : Unit}
    (h : Gives (vetTarget self sender targets) s u s') :
    Vetted self s sender targets ∧ ∃ session, s' = { s with session := session } := by
  obtain ⟨_, t, hmodify, h⟩ := gives_bind h
  obtain rfl := gives_modify hmodify
  have h := gives_read_bind h
  obtain ⟨hchecked, rfl⟩ := gives_ofExcept h
  exact ⟨fun target htarget => checkTarget_ok (forM_ok hchecked target htarget), _, rfl⟩

/-- The chain is the configured one, or the one name that is pinned. -/
def Named (self : Client) (first pinned : Option String) (name : String) : Prop :=
  self.network.chainId = some name
    ∨ self.network.chainId = none ∧ pinned = some name ∧ (first = none ∨ first = some name)

/-- A client is bound to a chain once. -/
theorem pinChain_gives {name : String} {u : Unit} (h : Gives (pinChain name) s u s') :
    s' = { s with pinnedChain := some name }
      ∧ (s.pinnedChain = none ∨ s.pinnedChain = some name) := by
  have h := gives_read_bind h
  split at h
  · next first hfirst =>
      obtain ⟨hsame, rfl⟩ := gives_ofExcept h
      rw [← not_not.mp (refuseIf_ok hsame), ← hfirst]
      exact ⟨rfl, Or.inr rfl⟩
  · next hnone => exact ⟨gives_modify h, Or.inl hnone⟩

/-- A chain that is held is the one that the client is bound to, if it was bound. -/
theorem holdChain_gives {u : Unit} (h : Gives (holdChain self info) s u s') :
    ∃ pinned, s' = { s with pinnedChain := pinned }
      ∧ Named self s.pinnedChain pinned info.chainId := by
  rw [holdChain] at h
  split at h
  · next configured hconfigured =>
      obtain ⟨hsame, rfl⟩ := gives_ofExcept h
      rw [← not_not.mp (refuseIf_ok hsame)] at hconfigured
      exact ⟨s'.pinnedChain, rfl, Or.inl hconfigured⟩
  · next hnone =>
      obtain ⟨-, h⟩ := gives_guard h
      obtain ⟨rfl, hfirst⟩ := pinChain_gives h
      exact ⟨_, rfl, Or.inr ⟨hnone, rfl, hfirst⟩⟩

/-- To hold a chain hands nothing over. -/
theorem holdChain_silent : Silent Request.Submits (holdChain self info) := by
  rw [holdChain]
  split
  · exact silent_ofExcept _
  · refine silent_bind (silent_ofExcept _) (fun _ => silent_bind (silent_of_nil (fun _ => rfl)) ?_)
    intro t
    split
    · exact silent_ofExcept _
    · exact silent_of_nil (fun _ => rfl)

/-- **A chain that is signed for** is the one held to, by its own id, and a
    mainnet one was acknowledged. -/
theorem signingChainId_gives (h : Gives (signingChainId self info) s chainId s') :
    checkedChainId self.crates.toCrates info.chainId = .ok chainId
      ∧ (isMainnetChain self.crates.toCrates info.chainId = true →
        self.acknowledgeMainnet = true)
      ∧ ∃ pinned, s' = { s with pinnedChain := pinned }
        ∧ Named self s.pinnedChain pinned info.chainId := by
  obtain ⟨-, h⟩ := gives_guard h
  obtain ⟨id, hid, h⟩ := gives_value h
  obtain ⟨_, t, hhold, h⟩ := gives_bind h
  obtain ⟨hmainnet, h⟩ := gives_guard h
  obtain ⟨rfl, rfl⟩ := gives_pure h
  refine ⟨hid, fun hname => ?_, holdChain_gives hhold⟩
  simpa [isMainnetInfo, hname] using hmainnet

theorem signingChainId_silent : Silent Request.Submits (signingChainId self info) :=
  silent_bind (silent_ofExcept _) (fun _ => silent_bind (silent_ofExcept _) (fun _ =>
    silent_bind holdChain_silent (fun _ => silent_bind (silent_ofExcept _) (fun _ =>
      (within_pure (R := Later) _).silent))))

/-- What an opening leaves: who is paid was vetted, the gateway's answer, a
    chain to sign for, and the fee. -/
structure Opened (client : Client) (s : ClientState) (sender : String) (targets : List String)
    (info : NodeInfo) (chainId : U64) (s' : ClientState) : Prop where
  vetted : Vetted client s sender targets
  reported : ∃ turn text, client.transport turn = .ok (200, text) ∧ parseNodeInfo text = .ok info
  chain : checkedChainId client.crates.toCrates info.chainId = .ok chainId
  mainnet : client.network.isMainnet = true
    ∨ isMainnetChain client.crates.toCrates info.chainId = true → client.acknowledgeMainnet = true
  named : Named client s.pinnedChain s'.pinnedChain info.chainId
  rosters : s'.trustedRoster = s.trustedRoster
  shared : s'.shared = s.shared

/-- **An opening that succeeds** has passed its guards. -/
theorem opening_gives {sender : String} {targets : List String}
    {feeOf : NodeInfo → Except String U128}
    (h : Gives (opening self sender targets feeOf) s (info, fee, chainId) s') :
    feeOf info = .ok fee ∧ Opened self s sender targets info chainId s' := by
  obtain ⟨_, t, hvet, h⟩ := gives_bind h
  obtain ⟨hvetted, session, rfl⟩ := vetTarget_gives hvet
  obtain ⟨answer, t, hinfo, h⟩ := gives_bind h
  obtain ⟨text, htext, hparse⟩ := nodeInfo_gives hinfo
  obtain ⟨turn, rfl⟩ := nodeInfo_asks.gives hinfo
  obtain ⟨hguard, h⟩ := gives_guard h
  obtain ⟨paid, hfee, h⟩ := gives_value h
  obtain ⟨id, t, hid, h⟩ := gives_bind h
  obtain ⟨heq, rfl⟩ := gives_pure h
  cases heq
  obtain ⟨hchain, hmainnet, pinned, rfl, hnamed⟩ := signingChainId_gives hid
  refine ⟨hfee, hvetted, ⟨_, text, htext, hparse⟩, hchain, ?_, hnamed, rfl, rfl⟩
  rintro (hnetwork | hname)
  · simpa [hnetwork] using hguard
  · exact hmainnet hname

/-- To open a call hands nothing over. -/
theorem opening_silent {sender : String} {targets : List String}
    {feeOf : NodeInfo → Except String U128} :
    Silent Request.Submits (opening self sender targets feeOf) := by
  refine silent_bind (silent_of_nil (fun _ => rfl)) (fun _ => ?_)
  refine silent_bind nodeInfo_asks.silent (fun _ => silent_bind (silent_ofExcept _) (fun _ => ?_))
  refine silent_bind (silent_ofExcept _) (fun _ => silent_bind signingChainId_silent (fun _ => ?_))
  exact silent_of_nil (fun _ => rfl)

/-! ## What a deadline rests on -/

/-- The head a gateway reports is certified by the roster of its epoch, joined to
    one that is trusted. -/
def VerifiedHead (self : Client) (chainId : U64) (genesis : Bytes 32) (s : ClientState)
    (info : NodeInfo) : Prop :=
  ∃ roster finalized, finalized.height = info.headHeight
    ∧ CertifiedBy self chainId genesis roster finalized
    ∧ TrustedIn self chainId s genesis roster

/-- The head a gateway reports is one the chain's clock allows at a time the
    client read. -/
def BoundedHead (self : Client) (info : NodeInfo) : Prop :=
  ∃ clock turn, (self.network.clock = .ok (some clock)
      ∨ self.network.clock = .ok none ∧ knownClock info.chainId = some clock)
    ∧ info.headHeight ≤ clock.headCeiling ((self.clock turn).getD 0)

/-- A head that may be signed against: verified, or on a chain that is neither a
    mainnet nor a public one, bounded. -/
def HeadHeld (self : Client) (chainId : U64) (genesis : Bytes 32) (s : ClientState)
    (info : NodeInfo) : Prop :=
  VerifiedHead self chainId genesis s info
    ∨ self.network.isMainnet = false ∧ isPublicChain self.crates.toCrates info.chainId = false
      ∧ BoundedHead self info

/-- The rosters a head was verified under are of the genesis that is signed for. -/
theorem trustedIn_genesis {genesis' : Bytes 32} {roster : VerifiedRoster}
    (hgenesis : genesisUnder self s.trustedRoster info = .ok genesis)
    (h : TrustedIn self chainId s genesis' roster) : genesis' = genesis := by
  obtain ⟨-, htrusted, hpinned⟩ := genesisUnder_ok hgenesis
  obtain ⟨rosters, start, length, n, hrosters | ⟨-, hanchor, -⟩, -⟩ := h
  · exact htrusted _ hrosters
  · exact hpinned _ hanchor

/-- The clock of a call is the configured one, or the known one of its chain. -/
theorem clockFor_ok {clock : ChainClock} (h : clockFor self info = .ok (some clock)) :
    self.network.clock = .ok (some clock)
      ∨ self.network.clock = .ok none ∧ knownClock info.chainId = some clock := by
  obtain ⟨configured, hconfigured, h⟩ := bind_ok h
  cases configured with
  | some c => cases h; exact Or.inl hconfigured
  | none => exact Or.inr ⟨hconfigured, Except.ok.inj h⟩

/-- **A deadline that is chosen** is three hundred blocks past a head that may be
    signed against. -/
theorem validity_gives {validUntil : U64} (h : Gives (validity self info) s validUntil s')
    (hchain : checkedChainId self.crates.toCrates info.chainId = .ok chainId) :
    ∃ genesis, genesisUnder self s.trustedRoster info = .ok genesis
      ∧ validUntil.val = info.headHeight.val + 300 ∧ HeadHeld self chainId genesis s info
      ∧ ∃ turn trusted wall, s' = { s with
          turn := turn, trustedRoster := trusted
          shared := s.shared.noteHead info.chainId info.headHeight wall } := by
  obtain ⟨genesis, t, hgenesis, h⟩ := gives_bind h
  obtain ⟨hgenesis, ht⟩ := signingGenesis_gives hgenesis
  rw [ht] at h
  obtain ⟨verified, t', hverified, h⟩ := gives_bind h
  obtain ⟨hpublic, h⟩ := gives_guard h
  obtain ⟨clock, hclock, h⟩ := gives_value h
  obtain ⟨wall, t'', hwall, h⟩ := gives_bind h
  have h := gives_read_bind h
  obtain ⟨deadline, hdeadline, h⟩ := gives_value h
  obtain ⟨_, t₃, hnoted, h⟩ := gives_bind h
  obtain ⟨rfl, rfl⟩ := gives_pure h
  obtain ⟨turn, trusted, rfl⟩ := (verifyHead_follows info).gives hverified
  obtain ⟨hreached, rfl⟩ := hwall
  obtain rfl := gives_modify hnoted
  obtain ⟨hvalid, hhead⟩ := boundedValidUntilFor_ok hdeadline
  -- a verified head comes with its certificate; any other is bounded by the clock
  refine ⟨genesis, hgenesis, hvalid, ?_, _, _, wall, rfl⟩
  cases verified with
  | true =>
      obtain ⟨id, genesis', roster, finalized, hid, hheight, hcertified, htrusted⟩ :=
        verifyHead_gives hverified
      cases hid.symm.trans hchain
      obtain rfl := trustedIn_genesis hgenesis htrusted
      exact Or.inl ⟨roster, finalized, hheight, hcertified, htrusted⟩
  | false =>
      obtain ⟨c, rfl, hceiling⟩ := hhead.resolve_left Bool.false_ne_true
      cases hreached
      have hlocal : self.network.isMainnet = false
          ∧ isPublicChain self.crates.toCrates info.chainId = false := by simpa using hpublic
      exact Or.inr ⟨hlocal.1, hlocal.2, c, turn, clockFor_ok hclock, hceiling⟩

/-- To find a deadline hands nothing over. -/
theorem validity_silent : Silent Request.Submits (validity self info) := by
  refine silent_bind signingGenesis_asks.silent (fun _ => ?_)
  refine silent_bind (verifyHead_follows info).silent (fun _ => ?_)
  refine silent_bind (silent_ofExcept _) (fun _ => silent_bind (silent_ofExcept _) (fun _ => ?_))
  refine silent_bind (reach_asks _).silent (fun _ => silent_bind (silent_of_nil (fun _ => rfl)) ?_)
  intro t
  refine silent_bind (silent_ofExcept _) (fun _ => silent_bind (silent_of_nil (fun _ => rfl)) ?_)
  intro _
  exact silent_of_nil (fun _ => rfl)

/-! ## What a nonce rests on -/

/-- What is handed over behind a reservation is handed over at the nonce that was
    granted. -/
theorem emits_reserving {α : Type} {key : String} {reported : U64} {expected : Option U64}
    {order : Bool} {rest : String → U64 → ClientM α} (hr : r.Submits)
    (h : Emits (reserving key reported expected order rest) s r) :
    ∃ nonce shared, s.shared.slot key reported expected order = (.ok nonce, shared)
      ∧ Emits (rest key nonce) { s with shared := shared } r := by
  obtain ⟨nonce, t, hslot, h⟩ := emits_after (silent_of_nil (fun _ => rfl)) hr h
  obtain ⟨hanswer, rfl⟩ := hslot
  exact ⟨nonce, _, Prod.ext hanswer rfl, emits_andFinally h⟩

/-- What is handed over behind the account's nonce is handed over at one that was
    granted for it. -/
theorem emits_checkedNonce {α : Type} {sender : String} {expected : Option U64}
    {rest : String → U64 → ClientM α} (hr : r.Submits)
    (h : Emits (checkedNonce self info sender expected rest) s r) :
    ∃ reported nonce shared turn,
      s.shared.slot (accountSlotKey info.chainId sender) reported expected false
        = (.ok nonce, shared)
      ∧ Emits (rest (accountSlotKey info.chainId sender) nonce)
        { s with turn := turn, shared := shared } r := by
  obtain ⟨account, t, -, ⟨turn, rfl⟩, h⟩ := (account_asks sender).after hr h
  obtain ⟨nonce, shared, hslot, h⟩ := emits_reserving hr h
  exact ⟨account.nonce, nonce, shared, turn, hslot, h⟩

theorem storageAt_asks (contract : String) (keys : List (Bytes 32)) :
    Asks (storageAt self contract keys) :=
  within_bind (rpc_asks (by decide) _) (fun _ => within_ofExcept _)

/-- A slot is asked for and read, and nothing else. -/
theorem slotValue_asks (contract : String) (key : Bytes 32) : Asks (slotValue self contract key) :=
  within_bind (storageAt_asks contract [key]) (fun _ => within_ofExcept _)

theorem contractNonce_asks (contract : String) (signer : Bytes 32) :
    Asks (contractNonce self contract signer) := slotValue_asks contract _

theorem storage_asks (contract : String) : Asks (storage self contract) :=
  within_bind (rpc_asks (by decide) _) (fun _ => within_ofExcept _)

theorem assetBalance_asks (issuer holder : String) : Asks (assetBalance self issuer holder) :=
  within_bind (within_ofExcept _) (fun _ => within_bind (rpc_asks (by decide) _) (fun _ =>
    within_bind (within_ofExcept _) (fun _ => within_ofExcept _)))

/-- What is handed over behind an order's nonce is handed over at one that was granted
    for it. -/
theorem emits_orderNonce {α : Type} {contract : String} {signer : Bytes 32}
    {expected : Option U64} {rest : String → U64 → ClientM α} (hr : r.Submits)
    (h : Emits (orderNonce self info contract signer expected rest) s r) :
    ∃ key reported nonce shared turn,
      orderSlotKey self.crates info.chainId contract signer = .ok key
      ∧ s.shared.slot key reported expected true = (.ok nonce, shared)
      ∧ Emits (rest key nonce) { s with turn := turn, shared := shared } r := by
  obtain ⟨key, hkey, h⟩ := emits_value h
  obtain ⟨reported, t, -, ⟨turn, rfl⟩, h⟩ := (contractNonce_asks contract signer).after hr h
  obtain ⟨nonce, shared, hslot, h⟩ := emits_reserving hr h
  exact ⟨key, reported, nonce, shared, turn, hkey, hslot, h⟩

/-! ## What is handed over -/

/-- To save what was signed only asks. -/
theorem saveSigned_asks : Asks (saveSigned self) := by
  rw [saveSigned]
  split
  · refine within_bind within_read (fun _ => within_bind (reach_asks _) (fun _ => ?_))
    exact within_ofExcept _
  · exact within_pure _

/-- A transaction is handed over in the request that submits it. -/
theorem emits_submit {txBytes : List UInt8} (h : Emits (self.submit txBytes) s r) :
    r.body = submitBody txBytes ∧ r.state = s := by
  rcases emits_bind h with h | ⟨text, t, -, h⟩
  · obtain ⟨_, -, h⟩ := emits_value h
    rcases emits_bind h with h | ⟨⟨status, text⟩, t, -, h⟩
    · rcases emits_bind h with h | ⟨_, t, -, h⟩
      · cases List.mem_singleton.mp h
        exact ⟨rfl, rfl⟩
      · rcases emits_bind h with h | ⟨answer, t', -, h⟩
        · exact absurd h List.not_mem_nil
        · exact absurd h List.not_mem_nil
    · obtain ⟨-, h⟩ := emits_guard h
      obtain ⟨-, h⟩ := emits_guard h
      exact absurd h List.not_mem_nil
  · exact absurd h List.not_mem_nil

/-- What is handed over is the signed bytes, with their nonces signed for. -/
theorem emits_submitHeld {slots : List (String × U64)} {signed : SignedTransfer}
    (hr : r.Submits) (h : Emits (submitHeld self slots signed) s r) :
    r.body = submitBody signed.txBytes
      ∧ ∃ turn, r.state = { s with turn := turn, shared := s.shared.signedAll slots } := by
  have h := emits_modify h
  obtain ⟨_, t, -, ⟨turn, rfl⟩, h⟩ := saveSigned_asks.after hr h
  rcases emits_bind h with h | ⟨outcome, t, -, h⟩
  · obtain ⟨hbody, hstate⟩ := emits_submit h
    exact ⟨hbody, turn, hstate⟩
  · exact absurd (emits_modify h) List.not_mem_nil

/-- **What is handed over was signed** for the genesis that its rosters and its
    network hold to, and every nonce it uses was marked before. -/
theorem emits_signAndSubmit {targets : List String} {slots : List (String × U64)}
    {sign : Bytes 32 → Except String (Bytes 32) → Except String SignedTransfer} (hr : r.Submits)
    (h : Emits (signAndSubmit self info targets slots sign) s r) :
    ∃ genesis randomness signed, genesisUnder self s.trustedRoster info = .ok genesis
      ∧ sign genesis randomness = .ok signed ∧ r.body = submitBody signed.txBytes
      ∧ ∃ turn session, r.state = { s with
          turn := turn, session := session, shared := s.shared.signedAll slots } := by
  obtain ⟨genesis, t, hgenesis, h⟩ := emits_after signingGenesis_asks.silent hr h
  obtain ⟨hgenesis, ht⟩ := signingGenesis_gives hgenesis
  rw [ht] at h
  obtain ⟨randomness, t', -, ⟨turn, rfl⟩, h⟩ := (reach_asks _).after hr h
  obtain ⟨signed, hsigned, h⟩ := emits_value h
  have h := emits_modify h
  rcases emits_bind h with h | ⟨outcome, t, -, h⟩
  · obtain ⟨hbody, turn', hstate⟩ := emits_submitHeld hr h
    exact ⟨genesis, randomness, signed, hgenesis, hsigned, hbody, turn', _, hstate⟩
  · exact absurd h List.not_mem_nil

end

end QCoreEntryPoint
