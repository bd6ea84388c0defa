import Mathlib
import QCore.MachineIntProofs
import QCore.ByteMemoryProofs
import QCore.FallibleProofs
import QCore.TraceProofs
import QCore.JsonProofs
import QCore.JsonRoundTripProofs
import QCore.WireProofs
import QCore.SessionProofs
import QCore.SessionSpentProofs
import QCore.CratesProofs
import QCore.AddressProofs
import QCore.ContractProofs
import QCore.FinalitySafetyProofs
import QCore.ClientProofs
import QCore.TrustProofs
import QCore.RosterRunProofs
import QCore.HeadProofs
import QCore.ConfirmationProofs
import QCore.SigningProofs
import QCore.OrderProofs
import QCore.EntryPointProofs

/-! # What is handed over

    Whatever a gateway answers, a transaction is handed over only when every
    guard has passed.  `Guarded` lists what then holds of it: its fee, its chain,
    its genesis, its deadline, its nonces and its targets, each against what the
    client was given or already knew.

    The proof goes along an entry point: `Ready` is what holds once the opening
    and the deadline are behind it, and `emits_guarded` what the rest adds. -/

namespace QCoreSubmission

open QCoreMachineInt QCoreByteMemory QCoreFallible QCoreTrace QCoreTrace.Traced QCoreJson
  QCoreJsonRoundTrip QCoreWire QCoreSession QCoreSession.SigningSession QCoreCrates QCoreAddress
  QCoreContract QCoreFinalitySafety QCoreClient QCoreClient.Client QCoreTrust QCoreRosterRun
  QCoreHead QCoreConfirmation QCoreSigning QCoreOrder QCoreEntryPoint

/-- Nonces that a session granted one after the other. -/
inductive Grants : SigningSession → List (String × U64) → SigningSession → Prop
  | nil {session : SigningSession} : Grants session [] session
  | cons {session next last : SigningSession} {key : String} {nonce reported : U64}
      {expected : Option U64} {order : Bool} {slots : List (String × U64)}
      (granted : session.slot key reported expected order = (.ok nonce, next))
      (rest : Grants next slots last) : Grants session ((key, nonce) :: slots) last

/-- A transaction goes to one of the addresses that a call is asked to sign for.  One
    that is asked for none goes to an address of the chain's own, where keys are
    registered or contracts deployed. -/
def GoesTo (crates : TxCrates) (targets : List String) (target : String) : Prop :=
  target ∈ targets
    ∨ targets = [] ∧ (target = keyRegisterAddress crates ∨ target = vmDeployAddress crates)

/-- What a transaction that is handed over has behind it: the answer it was
    signed against, the genesis it was signed for, its body and its nonces. -/
structure Guarded (client : Client) (s : ClientState) (maxFee : U128) (targets : List String)
    (r : Request) (info : NodeInfo) (genesis : Bytes 32) (body : Body)
    (slots : List (String × U64)) : Prop where
  handed : ∃ seed index rnd wrapper, body.sender = client.crates.accountAddress seed index
    ∧ client.crates.trySignHedged seed index body genesis rnd = some wrapper
    ∧ r.body = submitBody wrapper.bytes
  reported : ∃ turn text, client.transport turn = .ok (200, text) ∧ parseNodeInfo text = .ok info
  fee : body.fee ≤ maxFee
  /-- Its chain is the one that is configured, or the first that was pinned. -/
  chain : body.chainId = client.crates.chainIdFromName info.chainId
    ∧ Named client s.pinnedChain r.state.pinnedChain info.chainId
  live : info.chainId ∉ retiredChainNames
    ∧ ∀ name ∈ retiredChainNames, client.crates.chainIdFromName name ≠ body.chainId
  mainnet : client.network.isMainnet = true
    ∨ isMainnetChain client.crates.toCrates info.chainId = true → client.acknowledgeMainnet = true
  pinned : ∀ pinned, client.network.genesisHash = some pinned → genesis = pinned
  trusted : ∀ t, s.trustedRoster = some t ∨ r.state.trustedRoster = some t → genesis = t.1
  deadline : body.validUntil.val = info.headHeight.val + 300
  head : HeadHeld client body.chainId genesis s info
  /-- Its account's nonce is one of those it uses. -/
  account : (accountSlotKey info.chainId body.sender, body.nonce) ∈ slots
  /-- Those it uses were granted by the session, and are marked in it. -/
  granted : ∃ wall session,
    Grants (s.shared.noteHead info.chainId info.headHeight wall) slots session
      ∧ r.state.shared = session.signedAll slots
  held : ∀ slot ∈ slots, r.state.shared.isHeld slot.1 slot.2 = true
  vetted : Vetted client s body.sender targets
  /-- It goes to a target that was vetted; one without any, to an address of the chain's
      own. -/
  target : GoesTo client.crates targets body.target
  asset : ∀ payload, body.inAsset = some payload →
    ∃ issuer ∈ targets, addressPayload client.crates.toCrates issuer = .ok payload

/-- A call carries an order: the order is the owner's for the chain, the genesis
    and the contract, and its nonce is one of those the transaction uses. -/
def CarriesOrder (self : Client) (contract : String) (signer : Bytes 32) (info : NodeInfo)
    (genesis : Bytes 32) (body : Body) (slots : List (String × U64)) : Prop :=
  ∃ order key nonce, body.args = order.callArgs
    ∧ Orders self.crates.toCrates body.chainId genesis contract signer nonce order
    ∧ orderSlotKey self.crates info.chainId contract signer = .ok key ∧ (key, nonce) ∈ slots

section

variable {self : Client} {s s₁ s₂ : ClientState} {r : Request} {seed : Bytes seedLen}
  {index chainId validUntil nonce : U64} {sender : String} {targets : List String}
  {info : NodeInfo} {genesis : Bytes 32} {fee maxFee : U128} {args : List UInt8}
  {slots : List (String × U64)} {signed : SignedTransfer}

/-! ## What a name and a fee rest on -/

/-- A chain that is accepted has its own id and is not retired. -/
theorem checkedChainId_ok {crates : Crates} {name : String}
    (h : checkedChainId crates name = .ok chainId) :
    chainId = crates.chainIdFromName name ∧ name ∉ retiredChainNames := by
  obtain ⟨-, h⟩ := guard_ok h
  obtain ⟨hlive, h⟩ := guard_ok h
  obtain ⟨-, h⟩ := guard_ok h
  cases h
  exact ⟨rfl, hlive⟩

theorem feeWithin_ok {asked : U128} (h : feeWithin asked maxFee = .ok fee) : fee ≤ maxFee := by
  obtain ⟨hle, h⟩ := guard_ok h
  cases h
  exact not_lt.mp hle

theorem transferFeeWithin_ok (h : transferFeeWithin maxFee info = .ok fee) : fee ≤ maxFee := by
  obtain ⟨hle, h⟩ := guard_ok h
  cases h
  exact not_lt.mp hle

theorem deployFeeWithin_ok {meterLimit : U64}
    (h : deployFeeWithin meterLimit maxFee info = .ok fee) : fee ≤ maxFee := by
  obtain ⟨_, -, h⟩ := bind_ok h
  exact feeWithin_ok h

/-! ## Before the nonces -/

/-- What holds once an opening and a deadline are behind an entry point. -/
structure Ready (client : Client) (s : ClientState) (sender : String) (targets : List String)
    (info : NodeInfo) (chainId validUntil : U64) (s' : ClientState) : Prop where
  vetted : Vetted client s sender targets
  reported : ∃ turn text, client.transport turn = .ok (200, text) ∧ parseNodeInfo text = .ok info
  chain : checkedChainId client.crates.toCrates info.chainId = .ok chainId
  mainnet : client.network.isMainnet = true
    ∨ isMainnetChain client.crates.toCrates info.chainId = true → client.acknowledgeMainnet = true
  named : Named client s.pinnedChain s'.pinnedChain info.chainId
  deadline : validUntil.val = info.headHeight.val + 300
  genesis : ∃ genesis, genesisUnder client s.trustedRoster info = .ok genesis
    ∧ HeadHeld client chainId genesis s info
  shared : ∃ wall, s'.shared = s.shared.noteHead info.chainId info.headHeight wall

/-- What is trusted depends on the rosters alone. -/
theorem headHeld_of_rosters (hrosters : s₁.trustedRoster = s.trustedRoster)
    (h : HeadHeld self chainId genesis s₁ info) : HeadHeld self chainId genesis s info := by
  rcases h with ⟨roster, finalized, hheight, hcertified, rosters, start, length, n, htrusted, hin⟩ |
    hbounded
  · rw [Trusted, hrosters] at htrusted
    exact Or.inl ⟨roster, finalized, hheight, hcertified, rosters, start, length, n, htrusted, hin⟩
  · exact Or.inr hbounded

/-- With its deadline found a call is ready to sign. -/
theorem ready_of_validity (hopened : Opened self s sender targets info chainId s₁)
    (h : Gives (validity self info) s₁ validUntil s₂) :
    Ready self s sender targets info chainId validUntil s₂ := by
  obtain ⟨genesis, hgenesis, hdeadline, hhead, turn, trusted, wall, rfl⟩ :=
    validity_gives h hopened.chain
  rw [hopened.rosters] at hgenesis
  refine ⟨hopened.vetted, hopened.reported, hopened.chain, hopened.mainnet, hopened.named,
    hdeadline, ⟨genesis, hgenesis, headHeld_of_rosters hopened.rosters hhead⟩, wall, ?_⟩
  show s₁.shared.noteHead _ _ _ = _
  rw [hopened.shared]

/-! ## What is signed -/

/-- What a body says, under the names an entry point has for it. -/
structure Terms (crates : TxCrates) (targets : List String) (args : List UInt8)
    (nonce chainId validUntil : U64) (fee : U128) (body : Body) : Prop where
  args : body.args = args
  nonce : body.nonce = nonce
  fee : body.fee = fee
  chainId : body.chainId = chainId
  validUntil : body.validUntil = validUntil
  target : GoesTo crates targets body.target
  asset : ∀ payload, body.inAsset = some payload →
    ∃ issuer ∈ targets, addressPayload crates.toCrates issuer = .ok payload

/-- A native body that goes to a target of the call is on its terms. -/
theorem terms_native {crates : TxCrates} {target : String} {value meterLimit : U64}
    {callsCode : Bool}
    (htarget : GoesTo crates targets target) :
    Terms crates targets args nonce chainId validUntil fee (nativeBody crates seed index target
      args value nonce meterLimit fee chainId validUntil callsCode) :=
  ⟨rfl, rfl, rfl, rfl, rfl, htarget, fun _ h => nomatch h⟩

/-- The body of a call with an asset is on the terms of the call. -/
theorem terms_asset {crates : TxCrates} {target assetIssuer : String} {issuer : Bytes 32}
    {amount meterLimit : U64} (htarget : target ∈ targets) (hissuer : assetIssuer ∈ targets)
    (hpayload : addressPayload crates.toCrates assetIssuer = .ok issuer) :
    Terms crates targets args nonce chainId validUntil fee (assetBody crates seed index target args
      issuer amount nonce meterLimit fee chainId validUntil) := by
  refine ⟨rfl, rfl, rfl, rfl, rfl, Or.inl htarget, fun payload h => ⟨assetIssuer, hissuer, ?_⟩⟩
  cases h
  exact hpayload

/-- A way to sign signs a body of these terms, for any genesis. -/
def SignsTerms (crates : TxCrates) (seed : Bytes seedLen) (index : U64) (targets : List String)
    (args : List UInt8) (nonce chainId validUntil : U64) (fee : U128)
    (sign : Bytes 32 → Except String (Bytes 32) → Except String SignedTransfer) : Prop :=
  ∀ genesis randomness signed, sign genesis randomness = .ok signed →
    ∃ body, Signs crates seed index genesis body signed
      ∧ Terms crates targets args nonce chainId validUntil fee body

/-- What is signed for a call that pays is on its terms. -/
theorem signPayableCall_terms {crates : TxCrates} {target : String}
    {value meterLimit head : U64} {transferFee : U128}
    (htarget : GoesTo crates targets target) :
    SignsTerms crates seed index targets args nonce chainId validUntil fee
      (signPayableCall crates seed index target args value nonce meterLimit fee chainId validUntil
        transferFee head) :=
  fun _ _ _ h => ⟨_, signPayableCall_ok h, terms_native htarget⟩

theorem signTransfer_terms {crates : TxCrates} {recipient : String} {amount head : U64} :
    SignsTerms crates seed index [recipient] (crates.putU64 amount) nonce chainId validUntil fee
      (signTransfer crates seed index recipient amount nonce fee chainId validUntil head) :=
  fun _ _ _ h => ⟨_, signTransfer_ok h, terms_native (Or.inl List.mem_cons_self)⟩

theorem signRegister_terms {crates : TxCrates} {head : U64} :
    SignsTerms crates seed index [] (crates.accountPublicKey seed index) nonce chainId validUntil
      fee (signRegister crates seed index nonce fee chainId validUntil head) :=
  fun _ _ _ h => ⟨_, signNative_ok h, terms_native (Or.inr ⟨rfl, Or.inl rfl⟩)⟩

/-- What is signed for a call with an asset is on its terms. -/
theorem signAssetCall_terms {crates : TxCrates} {target assetIssuer : String}
    {amount meterLimit head : U64} {transferFee : U128} :
    SignsTerms crates seed index [target, assetIssuer] args nonce chainId validUntil fee
      (signAssetCall crates seed index target args assetIssuer amount nonce meterLimit fee chainId
        validUntil transferFee head) := by
  intro genesis randomness signed h
  obtain ⟨issuer, hissuer, hsigns⟩ := signAssetCall_ok h
  exact ⟨_, hsigns, terms_asset List.mem_cons_self
    (List.mem_cons_of_mem _ List.mem_cons_self) hissuer⟩

/-! ## Handing over -/

/-- **What is handed over is guarded**, once an entry point is ready and its
    nonces were granted. -/
theorem emits_guarded {turn : Nat} {session : SigningSession}
    {sign : Bytes 32 → Except String (Bytes 32) → Except String SignedTransfer}
    (hready : Ready self s (self.crates.accountAddress seed index) targets info chainId
      validUntil s₂)
    (hfee : fee ≤ maxFee) (hgrants : Grants s₂.shared slots session)
    (haccount : (accountSlotKey info.chainId (self.crates.accountAddress seed index), nonce)
      ∈ slots)
    (hsign : SignsTerms self.crates seed index targets args nonce chainId validUntil fee sign)
    (hr : r.Submits)
    (h : Emits (signAndSubmit self info targets slots sign)
      { s₂ with turn := turn, shared := session } r) :
    ∃ genesis body, genesisUnder self s.trustedRoster info = .ok genesis
      ∧ body.args = args ∧ body.chainId = chainId
      ∧ Guarded self s maxFee targets r info genesis body slots := by
  obtain ⟨genesis, randomness, signed, hgenesis, hsigned, hbody, turn', book, hstate⟩ :=
    emits_signAndSubmit hr h
  obtain ⟨body, hsigns, hterms⟩ := hsign _ _ _ hsigned
  obtain ⟨rnd, wrapper, hwrapper, hbytes⟩ := hsigns.wrapped
  obtain ⟨before, hbefore, hhead⟩ := hready.genesis
  obtain ⟨wall, hshared⟩ := hready.shared
  obtain ⟨hid, hlive⟩ := checkedChainId_ok hready.chain
  -- the rosters may have been anchored since, but the genesis is the one reported
  obtain rfl := genesisUnder_unique hbefore hgenesis
  obtain ⟨-, htrusted, hpinned⟩ := genesisUnder_ok hbefore
  obtain ⟨-, htrusted', -⟩ := genesisUnder_ok hgenesis
  refine ⟨before, body, hbefore, hterms.args, hterms.chainId, ?_⟩
  exact {
    handed := ⟨seed, index, rnd, wrapper, hsigns.sender, hwrapper, by rw [hbody, hbytes]⟩
    reported := hready.reported
    fee := hterms.fee ▸ hfee
    chain := by
      rw [hterms.chainId, hstate]
      exact ⟨hid, hready.named⟩
    live := ⟨hlive, hsigns.live⟩
    mainnet := hready.mainnet
    pinned := fun pinned h => (hpinned pinned h).symm
    trusted := by
      rintro t (ht | ht)
      · exact (htrusted t ht).symm
      · rw [hstate] at ht
        exact (htrusted' t ht).symm
    deadline := by
      rw [hterms.validUntil]
      exact hready.deadline
    head := hterms.chainId ▸ hhead
    account := by
      rw [hsigns.sender, hterms.nonce]
      exact haccount
    granted := ⟨wall, session, hshared ▸ hgrants, by rw [hstate]⟩
    held := by
      intro slot hslot
      rw [hstate]
      exact isHeld_signedAll slots (Or.inr hslot)
    vetted := hsigns.sender ▸ hready.vetted
    target := hterms.target
    asset := hterms.asset }

/-- What an entry point that uses its account's nonce alone hands over. -/
theorem emits_account {α : Type} {expected : Option U64}
    {rest : String → U64 → ClientM α}
    {sign : U64 → Bytes 32 → Except String (Bytes 32) → Except String SignedTransfer}
    (hready : Ready self s (self.crates.accountAddress seed index) targets info chainId
      validUntil s₂)
    (hfee : fee ≤ maxFee)
    (hsign : ∀ nonce, SignsTerms self.crates seed index targets args nonce chainId validUntil fee
      (sign nonce))
    (hrest : ∀ {key nonce t}, Emits (rest key nonce) t r →
      Emits (signAndSubmit self info targets [(key, nonce)] (sign nonce)) t r)
    (hr : r.Submits)
    (h : Emits (checkedNonce self info (self.crates.accountAddress seed index) expected rest)
      s₂ r) :
    ∃ info genesis body slots, Guarded self s maxFee targets r info genesis body slots := by
  obtain ⟨reported, nonce, shared, turn, hslot, h⟩ := emits_checkedNonce hr h
  obtain ⟨genesis, body, -, -, -, hguarded⟩ := emits_guarded hready hfee (.cons hslot .nil)
    List.mem_cons_self (hsign nonce) hr (hrest h)
  exact ⟨info, genesis, body, _, hguarded⟩

/-- What an entry point that carries an order hands over. -/
theorem emits_order {contract : String} {signer : Bytes 32}
    {expected expectedOrder : Option U64}
    {build : U64 → Except String (Bytes 32) → Except String SignedOrderCall}
    {sign : SignedOrderCall → U64 → Bytes 32 → Except String (Bytes 32) →
      Except String SignedTransfer}
    (hready : Ready self s (self.crates.accountAddress seed index) targets info chainId
      validUntil s₂)
    (hfee : fee ≤ maxFee) (hgenesis : genesisUnder self s.trustedRoster info = .ok genesis)
    (hbuild : ∀ nonce randomness order, build nonce randomness = .ok order →
      Orders self.crates.toCrates chainId genesis contract signer nonce order)
    (hsign : ∀ (order : SignedOrderCall) nonce, SignsTerms self.crates seed index targets
      order.callArgs nonce chainId validUntil fee (sign order nonce))
    (hr : r.Submits)
    (h : Emits (callOrder self info (self.crates.accountAddress seed index) contract signer
      targets expected expectedOrder build sign) s₂ r) :
    ∃ info genesis body slots, Guarded self s maxFee targets r info genesis body slots
      ∧ CarriesOrder self contract signer info genesis body slots := by
  obtain ⟨key, reported, nonce, shared, turn, hkey, hslot, h⟩ := emits_orderNonce hr h
  obtain ⟨randomness, t, -, ⟨turn', rfl⟩, h⟩ := (reach_asks _).after hr h
  obtain ⟨order, hordered, h⟩ := emits_value h
  obtain ⟨reported', accountNonce, shared', turn'', hslot', h⟩ := emits_checkedNonce hr h
  rcases emits_bind h with h | ⟨⟨signed, outcome⟩, t, -, h⟩
  · obtain ⟨genesis', body, hgenesis', hargs, hchain, hguarded⟩ := emits_guarded hready hfee
      (.cons hslot (.cons hslot' .nil)) (List.mem_cons_of_mem _ List.mem_cons_self)
      (hsign order accountNonce) hr h
    cases hgenesis.symm.trans hgenesis'
    refine ⟨info, genesis, body, _, hguarded, order, key, nonce, hargs, ?_, hkey,
      List.mem_cons_self⟩
    rw [hchain]
    exact hbuild _ _ _ hordered
  · exact absurd h List.not_mem_nil

/-! ## The entry points -/

/-- An entry point that hands something over has opened. -/
theorem emits_opening {α : Type} {feeOf : NodeInfo → Except String U128}
    {rest : NodeInfo × U128 × U64 → ClientM α} (hr : r.Submits)
    (h : Emits (opening self sender targets feeOf >>= rest) s r) :
    ∃ info fee chainId s₁, feeOf info = .ok fee ∧ Opened self s sender targets info chainId s₁
      ∧ Emits (rest (info, fee, chainId)) s₁ r := by
  obtain ⟨⟨info, fee, chainId⟩, s₁, hopening, h⟩ := emits_after opening_silent hr h
  obtain ⟨hfee, hopened⟩ := opening_gives hopening
  exact ⟨info, fee, chainId, s₁, hfee, hopened, h⟩

/-- An opened entry point that hands something over is ready. -/
theorem emits_validity {α : Type} {rest : U64 → ClientM α} (hr : r.Submits)
    (hopened : Opened self s sender targets info chainId s₁)
    (h : Emits (validity self info >>= rest) s₁ r) :
    ∃ validUntil s₂, Ready self s sender targets info chainId validUntil s₂
      ∧ Emits (rest validUntil) s₂ r := by
  obtain ⟨validUntil, s₂, hvalid, h⟩ := emits_after validity_silent hr h
  exact ⟨validUntil, s₂, ready_of_validity hopened hvalid, h⟩

/-- A transfer that is handed over passed every check. -/
theorem transfer_guarded {recipient : String} {amount : U64} {expected : Option U64}
    (hr : r.Submits)
    (h : Emits (transferExpecting self seed index recipient amount maxFee expected) s r) :
    ∃ info genesis body slots, Guarded self s maxFee [recipient] r info genesis body slots := by
  obtain ⟨-, h⟩ := emits_guard h
  obtain ⟨info, fee, chainId, s₁, hfee, hopened, h⟩ := emits_opening hr h
  obtain ⟨validUntil, s₂, hready, h⟩ := emits_validity hr hopened h
  exact emits_account hready (transferFeeWithin_ok hfee) (fun _ => signTransfer_terms)
    (fun h => h) hr h

/-- So did the registration of a key. -/
theorem register_guarded {expected : Option U64} (hr : r.Submits)
    (h : Emits (registerExpecting self seed index maxFee expected) s r) :
    ∃ info genesis body slots, Guarded self s maxFee [] r info genesis body slots := by
  obtain ⟨info, fee, chainId, s₁, hfee, hopened, h⟩ := emits_opening hr h
  obtain ⟨validUntil, s₂, hready, h⟩ := emits_validity hr hopened h
  exact emits_account hready (transferFeeWithin_ok hfee) (fun _ => signRegister_terms)
    (fun h => h) hr h

/-- So did a call that pays. -/
theorem callPayable_guarded {target : String} {value meterLimit : U64} {expected : Option U64}
    (hr : r.Submits)
    (h : Emits (callPayableExpecting self seed index target args value meterLimit maxFee expected)
      s r) :
    ∃ info genesis body slots, Guarded self s maxFee [target] r info genesis body slots := by
  obtain ⟨-, h⟩ := emits_guard h
  obtain ⟨info, fee, chainId, s₁, hfee, hopened, h⟩ := emits_opening hr h
  obtain ⟨validUntil, s₂, hready, h⟩ := emits_validity hr hopened h
  have hle : fee ≤ maxFee := by
    split at hfee
    · exact deployFeeWithin_ok hfee
    · exact feeWithin_ok hfee
  exact emits_account hready hle
    (fun _ => signPayableCall_terms (Or.inl List.mem_cons_self)) (fun h => h) hr h

/-- So did a call that pays in an asset. -/
theorem callAsset_guarded {target assetIssuer : String} {amount meterLimit : U64}
    {expected : Option U64} (hr : r.Submits)
    (h : Emits (callAssetExpecting self seed index target args assetIssuer amount meterLimit maxFee
      expected) s r) :
    ∃ info genesis body slots,
      Guarded self s maxFee [target, assetIssuer] r info genesis body slots := by
  obtain ⟨-, h⟩ := emits_guard h
  obtain ⟨-, h⟩ := emits_guard h
  obtain ⟨info, fee, chainId, s₁, hfee, hopened, h⟩ := emits_opening hr h
  obtain ⟨validUntil, s₂, hready, h⟩ := emits_validity hr hopened h
  exact emits_account hready (feeWithin_ok hfee) (fun _ => signAssetCall_terms) (fun h => h) hr h

/-- So did a deploy. -/
theorem deployWithParams_guarded {container : List UInt8} {params : List DeployParam}
    {meterLimit : U64} {expected : Option U64} (hr : r.Submits)
    (h : Emits (deployWithParamsExpecting self seed index container params meterLimit maxFee
      expected) s r) :
    ∃ info genesis body slots, Guarded self s maxFee [] r info genesis body slots := by
  obtain ⟨info, fee, chainId, s₁, hfee, hopened, h⟩ := emits_opening hr h
  obtain ⟨validUntil, s₂, hready, h⟩ := emits_validity hr hopened h
  have hsign : ∀ nonce, SignsTerms self.crates seed index [] (buildDeployCall container params)
      nonce chainId validUntil fee (signCall self.crates seed index (vmDeployAddress self.crates)
        (buildDeployCall container params) nonce meterLimit fee chainId validUntil
        info.transferFee info.headHeight) :=
    fun _ => signPayableCall_terms (Or.inr ⟨rfl, Or.inr rfl⟩)
  refine emits_account hready (deployFeeWithin_ok hfee) hsign ?_ hr h
  intro key nonce t h
  obtain ⟨contract, -, h⟩ := emits_value h
  -- nothing is handed over once the outcome is known
  rcases emits_bind h with h | ⟨⟨signed, outcome⟩, t', -, h⟩
  · exact h
  · exact absurd (emits_modify h) List.not_mem_nil

/-- An order entry point reads the genesis before the deadline is chosen. -/
theorem emits_genesis {α : Type} {rest : Bytes 32 → ClientM α} (hr : r.Submits)
    (hopened : Opened self s sender targets info chainId s₁)
    (h : Emits (signingGenesis self info >>= rest) s₁ r) :
    ∃ genesis, genesisUnder self s.trustedRoster info = .ok genesis ∧ Emits (rest genesis) s₁ r := by
  obtain ⟨genesis, t, hgenesis, h⟩ := emits_after signingGenesis_asks.silent hr h
  obtain ⟨hgenesis, ht⟩ := signingGenesis_gives hgenesis
  rw [ht] at h
  rw [hopened.rosters] at hgenesis
  exact ⟨genesis, hgenesis, h⟩

theorem orderClock_asks : Asks (orderClock self) :=
  within_bind (reach_asks _) (fun _ => within_ofExcept _)

/-- An opening guards against what was known before the clock was read. -/
theorem Guarded.of_later {body : Body} (hlater : Later s s₁)
    (h : Guarded self s₁ maxFee targets r info genesis body slots) :
    Guarded self s maxFee targets r info genesis body slots := by
  obtain ⟨turn, rfl⟩ := hlater
  exact { h with head := headHeld_of_rosters rfl h.head }

/-- A call with an order that is handed over passed every check. -/
theorem callSignedOrder_guarded {contract : String} {selector : Bytes 4} {layout : OrderLayout}
    {fields : List U64} {ownerSeed : Bytes seedLen} {ownerIndex meterLimit : U64}
    {expected expectedOrder : Option U64} (hr : r.Submits)
    (h : Emits (callSignedOrderExpecting self seed index contract selector layout fields ownerSeed
      ownerIndex meterLimit maxFee expected expectedOrder) s r) :
    ∃ info genesis body slots, Guarded self s maxFee [contract] r info genesis body slots
      ∧ CarriesOrder self contract (orderSigner self.crates.toCrates ownerSeed ownerIndex) info
        genesis body slots := by
  obtain ⟨-, h⟩ := emits_guard h
  obtain ⟨now, t, -, hlater, h⟩ := orderClock_asks.after hr h
  obtain ⟨_, -, h⟩ := emits_value h
  obtain ⟨info, fee, chainId, s₁, hfee, hopened, h⟩ := emits_opening hr h
  obtain ⟨genesis, hgenesis, h⟩ := emits_genesis hr hopened h
  obtain ⟨validUntil, s₂, hready, h⟩ := emits_validity hr hopened h
  obtain ⟨info, genesis, body, slots, hguarded, horder⟩ := emits_order hready (feeWithin_ok hfee)
    hgenesis (fun _ _ _ h => buildSignedOrderCall_orders h)
    (fun _ _ => signPayableCall_terms (Or.inl List.mem_cons_self)) hr h
  exact ⟨info, genesis, body, slots, hguarded.of_later hlater, horder⟩

/-- So did a call with a typed order. -/
theorem callTypedOrder_guarded {contract : String} {selector : Bytes 4} {layoutHash : Bytes 32}
    {schemeOff ptrOff expiryOff expiry regionOff : U64} {fields : List FieldArg}
    {ownerSeed : Bytes seedLen} {ownerIndex value meterLimit : U64} {inAsset : Option String}
    {expected expectedOrder : Option U64} (hr : r.Submits)
    (h : Emits (callTypedOrderExpecting self seed index contract selector layoutHash schemeOff
      ptrOff expiryOff expiry regionOff fields ownerSeed ownerIndex value inAsset meterLimit maxFee
      expected expectedOrder) s r) :
    ∃ info genesis body slots,
      Guarded self s maxFee (contract :: inAsset.toList) r info genesis body slots
      ∧ CarriesOrder self contract (orderSigner self.crates.toCrates ownerSeed ownerIndex) info
        genesis body slots := by
  obtain ⟨-, h⟩ := emits_guard h
  obtain ⟨-, h⟩ := emits_guard h
  obtain ⟨now, t, -, hlater, h⟩ := orderClock_asks.after hr h
  obtain ⟨_, -, h⟩ := emits_value h
  obtain ⟨info, fee, chainId, s₁, hfee, hopened, h⟩ := emits_opening hr h
  obtain ⟨genesis, hgenesis, h⟩ := emits_genesis hr hopened h
  obtain ⟨validUntil, s₂, hready, h⟩ := emits_validity hr hopened h
  have hcarries : ∃ info genesis body slots,
      Guarded self t maxFee (contract :: inAsset.toList) r info genesis body slots
      ∧ CarriesOrder self contract (orderSigner self.crates.toCrates ownerSeed ownerIndex) info
        genesis body slots := by
    refine emits_order hready (feeWithin_ok hfee) hgenesis
      (fun _ _ _ h => buildTypedOrderCall_orders h) ?_ hr h
    intro order nonce
    cases inAsset with
    | some issuer => exact signAssetCall_terms
    | none => exact signPayableCall_terms (Or.inl List.mem_cons_self)
  obtain ⟨info, genesis, body, slots, hguarded, horder⟩ := hcarries
  exact ⟨info, genesis, body, slots, hguarded.of_later hlater, horder⟩

/-- **Whatever is handed over is guarded.**  A transaction that a signing entry
    point hands to its gateway has passed every guard, whatever the gateway
    answered, and an order it carries is the owner's for a nonce it uses. -/
theorem handed_over_is_guarded (self : Client) (s : ClientState) (r : Request) (hr : r.Submits)
    (seed : Bytes seedLen) (index : U64) (maxFee : U128) (expected : Option U64) :
    (∀ recipient amount,
        Emits (transferExpecting self seed index recipient amount maxFee expected) s r →
        ∃ info genesis body slots, Guarded self s maxFee [recipient] r info genesis body slots)
      ∧ (Emits (registerExpecting self seed index maxFee expected) s r →
        ∃ info genesis body slots, Guarded self s maxFee [] r info genesis body slots)
      ∧ (∀ target args value meterLimit,
        Emits (callPayableExpecting self seed index target args value meterLimit maxFee expected)
          s r →
        ∃ info genesis body slots, Guarded self s maxFee [target] r info genesis body slots)
      ∧ (∀ target args assetIssuer amount meterLimit,
        Emits (callAssetExpecting self seed index target args assetIssuer amount meterLimit maxFee
          expected) s r →
        ∃ info genesis body slots,
          Guarded self s maxFee [target, assetIssuer] r info genesis body slots)
      ∧ (∀ contract selector layout fields ownerSeed ownerIndex meterLimit expectedOrder,
        Emits (callSignedOrderExpecting self seed index contract selector layout fields ownerSeed
          ownerIndex meterLimit maxFee expected expectedOrder) s r →
        ∃ info genesis body slots, Guarded self s maxFee [contract] r info genesis body slots
          ∧ CarriesOrder self contract (orderSigner self.crates.toCrates ownerSeed ownerIndex)
            info genesis body slots)
      ∧ (∀ contract selector layoutHash schemeOff ptrOff expiryOff expiry regionOff fields
          ownerSeed ownerIndex value inAsset meterLimit expectedOrder,
        Emits (callTypedOrderExpecting self seed index contract selector layoutHash schemeOff
          ptrOff expiryOff expiry regionOff fields ownerSeed ownerIndex value inAsset meterLimit
          maxFee expected expectedOrder) s r →
        ∃ info genesis body slots,
          Guarded self s maxFee (contract :: inAsset.toList) r info genesis body slots
          ∧ CarriesOrder self contract (orderSigner self.crates.toCrates ownerSeed ownerIndex)
            info genesis body slots)
      ∧ (∀ container params meterLimit,
        Emits (deployWithParamsExpecting self seed index container params meterLimit maxFee
          expected) s r →
        ∃ info genesis body slots, Guarded self s maxFee [] r info genesis body slots) := by
  refine ⟨?_, ?_, ?_, ?_, ?_, ?_, ?_⟩
  · intro recipient amount h
    exact transfer_guarded hr h
  · intro h
    exact register_guarded hr h
  · intro target args value meterLimit h
    exact callPayable_guarded hr h
  · intro target args assetIssuer amount meterLimit h
    exact callAsset_guarded hr h
  · intro contract selector layout fields ownerSeed ownerIndex meterLimit expectedOrder h
    exact callSignedOrder_guarded hr h
  · intro contract selector layoutHash schemeOff ptrOff expiryOff expiry regionOff fields ownerSeed
      ownerIndex value inAsset meterLimit expectedOrder h
    exact callTypedOrder_guarded hr h
  · intro container params meterLimit h
    exact deployWithParams_guarded hr h

end

/-! ## A transfer on a local network -/

/-- Crates with two accounts, that sign anything. -/
def pairCrates : TxCrates :=
  { stillCrates with
    parseAddress := fun s => some (List.replicate 32 (if s = "Qa" then 1 else 2))
    accountAddress := fun _ _ => "Qa"
    trySignHedged := fun _ _ _ _ _ => some { id := "tx", bytes := [] } }

/-- What the gateway of a local node answers about its chain. -/
def localInfo : Json := .object
  [("fee", .object [("transfer_quon", .str "7")]), ("chain_id", .str "Q-local"),
    ("genesis_hash", .str (toHex (filled 0).val)), ("head_height", .int 5),
    ("denomination", .str "q"), ("version", .str "1"), ("protocol", .int 2)]

/-- What it answers about the account. -/
def localAccount : Json := .object
  [("address", .str "Qa"), ("nonce", .int 3), ("balance", .str "9"), ("scheme", .int 1)]

/-- A client of a local network, whose gateway answers what it is asked. -/
def localClient : Client :=
  { statusClient 200 with
    crates := pairCrates
    network :=
      { name := "local", chainId := some "Q-local", isMainnet := false, genesisHash := none
        rosterCommitment := none, epochLength := none, genesisSecs := some 0
        blocksPerSec := some 1 }
    transport := fun turn =>
      .ok (200, if turn = 0 then localInfo.render else localAccount.render)
    entropy := fun _ => some ⟨(List.range 32).map UInt8.ofNat, by decide⟩ }

/-- The first answer as it is read. -/
def localNode : NodeInfo :=
  { chainId := "Q-local", genesisHash := toHex (filled 0).val, headHeight := 5
    denomination := "q", transferFee := 7, version := "1", protocol := 2, deployFee := none
    rateMicroUsdPerQtov := none, quonPerQtov := none }

/-- The answer is short enough for the client to read. -/
theorem length_localInfo : (asBytes localInfo.render).length ≤ responseCap "node_info" := by
  simp only [localInfo, Json.render, Json.write, Json.writeFields, asBytes_append,
    List.length_append, length_writeString_toHex]
  decide +kernel

theorem parse_localInfo : parseNodeInfo localInfo.render = .ok localNode := by
  refine bind_pass (parse_render ?_ (by decide)) rfl
  simp [localInfo, Json.DistinctKeys, Json.DistinctFields]

theorem parse_localAccount : parseAccount localAccount.render
    = .ok { address := "Qa", nonce := 3, balance := 9, scheme := 1, hasKey := false } := by
  refine bind_pass (parse_render ?_ (by decide)) rfl
  simp [localAccount, Json.DistinctKeys, Json.DistinctFields]

/-- The local gateway reports a genesis of zeros. -/
theorem local_genesis {trusted : Option TrustedRosters} (h : trusted = none) :
    genesisUnder localClient trusted localNode = .ok (filled 0) := by
  have hparse : parseGenesis localNode = .ok (filled 0) := by
    have hhex : fromHex localNode.genesisHash = .ok (filled 0).val := fromHex_toHex _
    rw [parseGenesis, hhex]
    rfl
  rw [h]
  exact bind_pass hparse rfl

/-- A call to the local gateway is opened. -/
theorem local_opening : Gives (opening localClient "Qa" ["Qb"] (transferFeeWithin 7)) freshState
    (localNode, 7, 9)
    { freshState with turn := 1, session := rememberAddress pairCrates.toCrates .new "Qa" } := by
  have hinfo : ∀ {s : ClientState}, s.turn = 0 →
      Gives localClient.nodeInfo s localNode { s with turn := s.turn + 1 } := by
    intro s hs
    refine bind_gives (rpc_answers rfl ?_ length_localInfo) (ofExcept_gives parse_localInfo)
    rw [hs]
    rfl
  refine bind_gives (m := vetTarget _ _ _) ⟨rfl, rfl⟩ (bind_gives (hinfo rfl) ?_)
  refine bind_gives (ofExcept_gives rfl) (bind_gives (ofExcept_gives rfl) ?_)
  exact bind_gives (m := signingChainId _ _) ⟨rfl, rfl⟩ ⟨rfl, rfl⟩

/-- A deadline above a head that the clock bounds and no roster verifies. -/
theorem validity_of_clock {client : Client} {info : NodeInfo} {genesis : Bytes 32}
    {validUntil : U64} {clock : Option ChainClock} {s : ClientState}
    (hgenesis : genesisUnder client s.trustedRoster info = .ok genesis)
    (hhead : Gives (verifyHead client info) s false s)
    (hlocal : (client.network.isMainnet || isPublicChain client.crates.toCrates info.chainId) = false)
    (hclock : clockFor client info = .ok clock)
    (hvalid : boundedValidUntilFor clock false info.headHeight ((client.clock s.turn).getD 0)
      ((s.shared.headFloor info.chainId).map (·.1))
      (((s.shared.headFloor info.chainId).map (fun floor =>
        saturatingSub ((client.clock s.turn).getD 0) floor.2)).getD 0) = .ok validUntil) :
    Gives (validity client info) s validUntil
      { s with
        turn := s.turn + 1
        shared := s.shared.noteHead info.chainId info.headHeight
          ((client.clock s.turn).getD 0) } := by
  have hguard : ∀ refusal : String, refuseIf ((!false && (client.network.isMainnet
      || isPublicChain client.crates.toCrates info.chainId)) = true) refusal = .ok () := by
    intro refusal
    rw [hlocal]
    rfl
  refine bind_gives (bind_gives (m := read) ⟨rfl, rfl⟩ (ofExcept_gives hgenesis)) ?_
  refine bind_gives hhead (bind_gives (ofExcept_gives (hguard _)) ?_)
  refine bind_gives (ofExcept_gives hclock) (bind_gives (m := reach _) ⟨rfl, rfl⟩ ?_)
  refine bind_gives (m := read) ⟨rfl, rfl⟩ (bind_gives (ofExcept_gives (a := validUntil) hvalid) ?_)
  exact bind_gives (m := modify _) ⟨rfl, rfl⟩ ⟨rfl, rfl⟩

/-- The head is not verified, but the clock bounds it. -/
theorem local_validity (session : SigningSession) :
    ∃ t : ClientState, t.turn = 2 ∧ t.trustedRoster = none
      ∧ t.shared = SigningSession.new.noteHead "Q-local" 5 0
      ∧ Gives (validity localClient localNode)
        { freshState with turn := 1, session := session } 305 t :=
  ⟨_, rfl, rfl, rfl, validity_of_clock (local_genesis rfl) ⟨rfl, rfl⟩ rfl rfl rfl⟩

/-- A client whose gateway answers for the account reads it. -/
theorem account_of_answer {client : Client} {t : ClientState}
    (hbase : checkEndpoint client.base = .ok ())
    (htext : client.transport t.turn = .ok (200, localAccount.render)) :
    Gives (client.account "Qa") t
      { address := "Qa", nonce := 3, balance := 9, scheme := 1, hasKey := false }
      { t with turn := t.turn + 1 } := by
  refine bind_gives (rpc_answers hbase htext (by decide +kernel)) ?_
  refine bind_gives (ofExcept_gives parse_localAccount) ?_
  have hsame : ∀ refusal : String, refuseIf (("Qa" : String) ≠ "Qa") refusal = .ok () :=
    fun _ => if_neg (not_not.mpr rfl)
  exact bind_gives (ofExcept_gives (hsame _)) ⟨rfl, rfl⟩

/-- The account at the local gateway is at the reported nonce. -/
theorem local_account {t : ClientState} (h : t.turn = 2) :
    Gives (localClient.account "Qa") t
      { address := "Qa", nonce := 3, balance := 9, scheme := 1, hasKey := false }
      { t with turn := t.turn + 1 } := by
  refine account_of_answer rfl ?_
  rw [h]
  rfl

/-- What is put back in the end is put back after every event. -/
theorem causes_finally {α : Type} {P : Request → Prop} {m : ClientM α}
    {g : ClientState → ClientState} {s : ClientState} (h : Causes P m s) :
    Causes P (m.andFinally g) s := h

/-- A client with an endpoint hands over what it can sign and store. -/
theorem signAndSubmit_causes {client : Client} {info : NodeInfo} {targets : List String}
    {slots : List (String × U64)} {genesis : Bytes 32}
    {sign : Bytes 32 → Except String (Bytes 32) → Except String SignedTransfer}
    {s : ClientState} (signed : SignedTransfer) (hbase : checkEndpoint client.base = .ok ())
    (hgenesis : genesisUnder client s.trustedRoster info = .ok genesis)
    (hsigned : sign genesis (freshRandomness (client.entropy s.turn)) = .ok signed)
    (hsave : ∀ s, ∃ s', Gives (saveSigned client) s () s') :
    Causes (fun r => r.Submits ∧ r.body = submitBody signed.txBytes)
      (signAndSubmit client info targets slots sign) s := by
  refine bind_causes (bind_gives (m := read) ⟨rfl, rfl⟩ (ofExcept_gives hgenesis)) ?_
  refine bind_causes (m := drawn _) ⟨rfl, rfl⟩ (bind_causes (ofExcept_gives hsigned) ?_)
  refine bind_causes (m := modify _) ⟨rfl, rfl⟩ (bind_causes_first ?_)
  refine bind_causes (m := modify _) ⟨rfl, rfl⟩ ?_
  obtain ⟨s', hsaved⟩ := hsave _
  refine bind_causes hsaved ?_
  -- the request is made before anything of its answer is read
  refine bind_causes_first (bind_causes_first (bind_causes (ofExcept_gives hbase) ?_))
  refine bind_causes_first (bind_causes_first ⟨_, ?_, List.mem_singleton.mpr rfl⟩)
  exact ⟨rfl, rfl⟩

/-- The local client hands a transfer over. -/
theorem local_transfer : Causes Request.Submits
    (transferExpecting localClient (filled 0) 0 "Qb" 1 7 none) freshState := by
  obtain ⟨t, hturn, htrusted, hshared, hvalid⟩ :=
    local_validity (rememberAddress pairCrates.toCrates .new "Qa")
  have hgranted : (t.shared.slot (accountSlotKey "Q-local" "Qa") 3 none false).1 = .ok 3 := by
    rw [hshared]
    rfl
  refine bind_causes (ofExcept_gives rfl) (bind_causes local_opening (bind_causes hvalid ?_))
  refine bind_causes (local_account hturn) (bind_causes (m := step _) ⟨hgranted, rfl⟩ ?_)
  exact causes_finally (causes_mono (fun _ h => h.1) (signAndSubmit_causes
    ⟨"Qa", "tx", []⟩ rfl (local_genesis htrusted) rfl (fun s => ⟨s, rfl, rfl⟩)))

/-! ## One transfer after another -/

/-- A request says which bytes it hands over. -/
theorem submitBody_inj {bytes bytes' : List UInt8} (h : submitBody bytes = submitBody bytes') :
    bytes = bytes' := by
  have hparse : ∀ bytes : List UInt8,
      parse (submitBody bytes) = .ok (.object [("tx", .str (toHex bytes))]) := fun bytes =>
    parse_render (by simp [Json.DistinctKeys, Json.DistinctFields])
      (by simp [Json.height, Json.heightFields, maxDepth])
  have hread := hparse bytes
  rw [h, hparse] at hread
  simp only [Except.ok.injEq, Json.object.injEq, List.cons.injEq, Prod.mk.injEq,
    Json.str.injEq, true_and, and_true] at hread
  exact toHex_inj hread.symm

/-- What it answers to a transaction. -/
def localReceipt : Json := .object
  [("verdict", .str "accepted"), ("state", .str "pending"), ("tx_id", .str "tx")]

/-- Crates that know one chain from every other, and sign in as many bytes as the nonce
    counts, each of them the chain. -/
def steadyCrates : TxCrates :=
  { pairCrates with
    chainIdFromName := fun name => if name = "Q-local" then 9 else 8
    trySignHedged := fun _ _ body _ _ =>
      some { id := "tx", bytes := List.replicate body.nonce.val (UInt8.ofNat body.chainId.val) } }

/-- The answers that one transfer after another asks for. -/
def steadyAnswer (turn : ℕ) : Json :=
  match turn % 5 with
  | 0 => localInfo
  | 4 => localReceipt
  | _ => localAccount

/-- A client of the local network whose gateway takes one transfer after another. -/
def steadyClient : Client :=
  { localClient with
    crates := steadyCrates
    transport := fun turn => .ok (200, (steadyAnswer turn).render) }

theorem steady_text {turn n : ℕ} (h : turn % 5 = n % 5) :
    steadyClient.transport turn = .ok (200, (steadyAnswer n).render) := by
  show Except.ok (200, (steadyAnswer turn).render) = _
  rw [steadyAnswer, steadyAnswer, h]

theorem parse_localReceipt : parseSubmit localReceipt.render = .ok (.accepted "pending" "tx") := by
  refine bind_pass (parse_render ?_ (by decide)) rfl
  simp [localReceipt, Json.DistinctKeys, Json.DistinctFields]

/-- The key of the nonces of the local account. -/
def localKey : String := accountSlotKey "Q-local" "Qa"

/-- What a transfer of the local account leaves. -/
def afterTransfer (s : ClientState) (expected : Option U64) : ClientState :=
  { s with
    turn := s.turn + 5
    session := ["Qb"].foldl (rememberAddress steadyCrates.toCrates)
      (rememberAddress steadyCrates.toCrates s.session "Qa")
    shared := (((((s.shared.noteHead "Q-local" 5 0).slot localKey 3 expected false).2.signedAll
      [(localKey, 3)]).outcomeAll [(localKey, 3)] true).release localKey 3) }

/-- No roster is trusted, so the head is not verified. -/
theorem steady_head {u : ClientState} (htrusted : u.trustedRoster = none) :
    Gives (verifyHead steadyClient localNode) u false u := by
  obtain ⟨turn, pinnedChain, session, trustedRoster, shared⟩ := u
  subst htrusted
  exact ⟨rfl, rfl⟩

/-- What is signed is handed over, and the gateway takes it. -/
theorem steady_submits {u : ClientState} {targets : List String} {slots : List (String × U64)}
    {sign : Bytes 32 → Except String (Bytes 32) → Except String SignedTransfer}
    {signed : SignedTransfer} (hturn : u.turn % 5 = 3) (htrusted : u.trustedRoster = none)
    (hsign : sign (filled 0) (freshRandomness (steadyClient.entropy u.turn)) = .ok signed) :
    Gives (signAndSubmit steadyClient localNode targets slots sign) u
      (signed, .accepted "pending" "tx")
      { u with
        turn := u.turn + 2
        session := targets.foldl (rememberAddress steadyCrates.toCrates) u.session
        shared := (u.shared.signedAll slots).outcomeAll slots true } := by
  have htext : steadyClient.transport (u.turn + 1) = .ok (200, localReceipt.render) :=
    steady_text (n := 4) (by omega)
  refine bind_gives (bind_gives (m := read) ⟨rfl, rfl⟩ (ofExcept_gives (local_genesis htrusted))) ?_
  refine bind_gives (m := drawn _) ⟨rfl, rfl⟩ (bind_gives (ofExcept_gives hsign) ?_)
  refine bind_gives (m := rememberTargets _ _) ⟨rfl, rfl⟩ (bind_gives ?_ ⟨rfl, rfl⟩)
  refine bind_gives (m := modify _) ⟨rfl, rfl⟩ (bind_gives (m := saveSigned _) ⟨rfl, rfl⟩ ?_)
  refine bind_gives (bind_gives (rpc_answers rfl htext (by decide +kernel))
    (ofExcept_gives parse_localReceipt)) ?_
  exact bind_gives (m := modify _) ⟨rfl, rfl⟩ ⟨rfl, rfl⟩

/-- **A transfer goes through** from any state in which its recipient passes, its head is
    within bounds and its nonce is granted. -/
theorem steady_transfer {s : ClientState} {expected : Option U64} (hturn : s.turn % 5 = 0)
    (htrusted : s.trustedRoster = none)
    (hvet : checkTarget steadyCrates.toCrates (rememberAddress steadyCrates.toCrates s.session "Qa") "Qb"
      = .ok ())
    (hvalid : boundedValidUntilFor (some ⟨0, 1⟩) false 5 0
      ((s.shared.headFloor "Q-local").map (·.1))
      (((s.shared.headFloor "Q-local").map (fun floor => saturatingSub 0 floor.2)).getD 0) = .ok 305)
    (hslot : ((s.shared.noteHead "Q-local" 5 0).slot localKey 3 expected false).1 = .ok 3) :
    Causes (fun r => r.Submits ∧ r.body = submitBody [9, 9, 9])
        (transferExpecting steadyClient (filled 0) 0 "Qb" 1 7 expected) s
      ∧ Gives (transferExpecting steadyClient (filled 0) 0 "Qb" 1 7 expected) s
        (⟨"Qa", "tx", [9, 9, 9]⟩, .accepted "pending" "tx") (afterTransfer s expected) := by
  have hturns : ∀ n, (s.turn + n) % 5 = n % 5 := fun n => by
    rw [Nat.add_mod, hturn, Nat.zero_add, Nat.mod_mod]
  have hopening : Gives (opening steadyClient "Qa" ["Qb"] (transferFeeWithin 7)) s (localNode, 7, 9)
      { s with
        turn := s.turn + 1
        session := rememberAddress steadyCrates.toCrates s.session "Qa" } := by
    have hpass : ["Qb"].forM (checkTarget steadyCrates.toCrates
        (rememberAddress steadyCrates.toCrates s.session "Qa")) = (.ok () : Except String Unit) :=
      bind_pass hvet rfl
    have hinfo : ∀ {u : ClientState}, u.turn = s.turn →
        Gives steadyClient.nodeInfo u localNode { u with turn := u.turn + 1 } := fun hu =>
      bind_gives (rpc_answers rfl (steady_text (n := 0) (hu ▸ hturn)) length_localInfo)
        (ofExcept_gives parse_localInfo)
    refine bind_gives (m := vetTarget _ _ _) ⟨hpass, rfl⟩ (bind_gives (hinfo rfl) ?_)
    refine bind_gives (ofExcept_gives rfl) (bind_gives (ofExcept_gives rfl) ?_)
    exact bind_gives (m := signingChainId _ _) ⟨rfl, rfl⟩ ⟨rfl, rfl⟩
  have hvalidity : Gives (validity steadyClient localNode)
      { s with
        turn := s.turn + 1
        session := rememberAddress steadyCrates.toCrates s.session "Qa" } 305
      { s with
        turn := s.turn + 2
        session := rememberAddress steadyCrates.toCrates s.session "Qa"
        shared := s.shared.noteHead "Q-local" 5 0 } :=
    validity_of_clock (local_genesis htrusted) (steady_head htrusted) rfl rfl hvalid
  have haccount : Gives (steadyClient.account "Qa")
      { s with
        turn := s.turn + 2
        session := rememberAddress steadyCrates.toCrates s.session "Qa"
        shared := s.shared.noteHead "Q-local" 5 0 }
      { address := "Qa", nonce := 3, balance := 9, scheme := 1, hasKey := false }
      { s with
        turn := s.turn + 3
        session := rememberAddress steadyCrates.toCrates s.session "Qa"
        shared := s.shared.noteHead "Q-local" 5 0 } :=
    account_of_answer rfl (steady_text (hturns 2))
  have hsigned : signTransfer steadyCrates (filled 0) 0 "Qb" 1 3 7 9 305 5 (filled 0)
      (freshRandomness (steadyClient.entropy (s.turn + 3))) = .ok ⟨"Qa", "tx", [9, 9, 9]⟩ := rfl
  have hturn3 : (s.turn + 3) % 5 = 3 := hturns 3
  constructor
  · refine bind_causes (ofExcept_gives rfl) (bind_causes hopening (bind_causes hvalidity ?_))
    refine bind_causes haccount (bind_causes (m := step _) ⟨hslot, rfl⟩ ?_)
    exact causes_finally (signAndSubmit_causes ⟨"Qa", "tx", [9, 9, 9]⟩ rfl
      (local_genesis htrusted) hsigned (fun s => ⟨s, rfl, rfl⟩))
  · refine bind_gives (ofExcept_gives rfl) (bind_gives hopening (bind_gives hvalidity ?_))
    refine bind_gives haccount (bind_gives (m := step _) ⟨hslot, rfl⟩ ?_)
    exact gives_andFinally (steady_submits (u := { s with
      turn := s.turn + 3
      session := rememberAddress steadyCrates.toCrates s.session "Qa"
      shared := ((s.shared.noteHead "Q-local" 5 0).slot localKey 3 expected false).2 })
      hturn3 htrusted hsigned)

/-- The first transfer is granted the nonce that is reported. -/
theorem steady_first :
    Causes (fun r => r.Submits ∧ r.body = submitBody [9, 9, 9])
        (transferExpecting steadyClient (filled 0) 0 "Qb" 1 7 none) freshState
      ∧ Gives (transferExpecting steadyClient (filled 0) 0 "Qb" 1 7 none) freshState
        (⟨"Qa", "tx", [9, 9, 9]⟩, .accepted "pending" "tx") (afterTransfer freshState none) :=
  steady_transfer rfl rfl rfl rfl rfl

/-- A second transfer is granted the same nonce by its name. -/
theorem steady_again :
    Causes (fun r => r.Submits ∧ r.body = submitBody [9, 9, 9])
        (transferExpecting steadyClient (filled 0) 0 "Qb" 1 7 (some 3))
        (afterTransfer freshState none)
      ∧ Gives (transferExpecting steadyClient (filled 0) 0 "Qb" 1 7 (some 3))
        (afterTransfer freshState none) (⟨"Qa", "tx", [9, 9, 9]⟩, .accepted "pending" "tx")
        (afterTransfer (afterTransfer freshState none) (some 3)) :=
  steady_transfer rfl rfl rfl rfl rfl

/-- The transfer of the local client is guarded. -/
theorem handed_over_is_guarded_at_local : ∃ r info genesis body slots,
    Guarded localClient freshState 7 ["Qb"] r info genesis body slots := by
  obtain ⟨r, hr, h⟩ := local_transfer
  obtain ⟨htransfer, -⟩ := handed_over_is_guarded localClient freshState r hr (filled 0) 0 7 none
  obtain ⟨info, genesis, body, slots, hguarded⟩ := htransfer "Qb" 1 h
  exact ⟨r, info, genesis, body, slots, hguarded⟩

end QCoreSubmission
