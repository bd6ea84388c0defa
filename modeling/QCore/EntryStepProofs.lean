import Mathlib
import QCore.MachineIntProofs
import QCore.ByteMemoryProofs
import QCore.FallibleProofs
import QCore.TraceProofs
import QCore.TransitionProofs
import QCore.WireProofs
import QCore.SessionProofs
import QCore.CratesProofs
import QCore.AddressProofs
import QCore.ContractProofs
import QCore.ClientProofs
import QCore.TrustProofs
import QCore.HeadProofs
import QCore.ConfirmationProofs
import QCore.SigningProofs
import QCore.OrderProofs
import QCore.EntryPointProofs
import QCore.SubmissionProofs
import QCore.EntryRunProofs

/-! # The steps of a signing call

    Seven entry points sign, and all do it in the same steps: they check what they
    were given, prepare (read the clock, open, choose a deadline, ask for the nonces),
    reserve a nonce of the session, and sign and hand over.  `entry_steps` says so once
    for all seven: what holds of a call when it holds of the steps (`Steps`) holds of
    every entry point, from any state.

    What is signed at the end is said there too (`Asked`): the caller decides whom to
    pay or call, with what, and how much the fee may be, and nothing of that comes from
    the gateway. -/

namespace QCoreEntryStep

open QCoreMachineInt QCoreByteMemory QCoreFallible QCoreTrace QCoreTrace.Traced QCoreTransition
  QCoreWire QCoreSession QCoreSession.SigningSession QCoreCrates QCoreAddress QCoreContract
  QCoreClient QCoreClient.Client QCoreTrust QCoreHead QCoreConfirmation QCoreSigning QCoreOrder
  QCoreEntryPoint QCoreSubmission QCoreEntryRun

/-! ## What a caller says -/

/-- The account that a call signs with. -/
def accountOf : Entry → Bytes seedLen × U64
  | .transfer seed index _ _ _ _ | .register seed index _ _ | .callPayable seed index _ _ _ _ _ _
  | .callAsset seed index _ _ _ _ _ _ _ | .callSignedOrder seed index _ _ _ _ _ _ _ _ _ _
  | .callTypedOrder seed index _ _ _ _ _ _ _ _ _ _ _ _ _ _ _ _ _
  | .deployWithParams seed index _ _ _ _ _ => (seed, index)

/-- The most a caller lets the fee be. -/
def maxFeeOf : Entry → U128
  | .transfer _ _ _ _ maxFee _ | .register _ _ maxFee _ | .callPayable _ _ _ _ _ _ maxFee _
  | .callAsset _ _ _ _ _ _ _ maxFee _ | .callSignedOrder _ _ _ _ _ _ _ _ _ maxFee _ _
  | .callTypedOrder _ _ _ _ _ _ _ _ _ _ _ _ _ _ _ _ maxFee _ _
  | .deployWithParams _ _ _ _ _ maxFee _ => maxFee

/-- The account nonce the caller names. -/
def namedNonce : Entry → Option U64
  | .transfer _ _ _ _ _ expected | .register _ _ _ expected | .callPayable _ _ _ _ _ _ _ expected
  | .callAsset _ _ _ _ _ _ _ _ expected | .callSignedOrder _ _ _ _ _ _ _ _ _ _ expected _
  | .callTypedOrder _ _ _ _ _ _ _ _ _ _ _ _ _ _ _ _ _ expected _
  | .deployWithParams _ _ _ _ _ _ expected => expected

/-- The order nonce the caller names. -/
def namedOrderNonce : Entry → Option U64
  | .callSignedOrder _ _ _ _ _ _ _ _ _ _ _ expectedOrder
  | .callTypedOrder _ _ _ _ _ _ _ _ _ _ _ _ _ _ _ _ _ _ expectedOrder => expectedOrder
  | _ => none

/-- The addresses a call is asked to sign for. -/
def targetsOf : Entry → List String
  | .transfer _ _ recipient _ _ _ => [recipient]
  | .register .. => []
  | .callPayable _ _ target _ _ _ _ _ => [target]
  | .callAsset _ _ target _ assetIssuer _ _ _ _ => [target, assetIssuer]
  | .callSignedOrder _ _ contract _ _ _ _ _ _ _ _ _ => [contract]
  | .callTypedOrder _ _ contract _ _ _ _ _ _ _ _ _ _ _ inAsset _ _ _ _ => contract :: inAsset.toList
  | .deployWithParams .. => []

/-- The part of a transaction that a caller decides. -/
structure Ask where
  target : String
  args : List UInt8
  value : U64
  meterLimit : U64
  kind : UInt8
  inAsset : Option (Bytes 32)

/-- The transaction an account signs when it is asked. -/
def Ask.body (ask : Ask) (crates : TxCrates) (account : Bytes seedLen × U64) (nonce : U64)
    (fee : U128) (chainId validUntil : U64) : Body :=
  { sender := crates.accountAddress account.1 account.2, nonce, meterLimit := ask.meterLimit, fee,
    target := ask.target, args := ask.args, value := ask.value, chainId, kind := ask.kind,
    inAsset := ask.inAsset, validUntil }

/-- What an entry point is asked for.  A call that carries an order is asked for it
    on a chain, and for an order nonce. -/
inductive Asks (crates : TxCrates) (chainId : U64) (genesis : Bytes 32) :
    Entry → Option U64 → Ask → Prop
  | transfer {seed : Bytes seedLen} {index : U64} {recipient : String} {amount : U64}
      {maxFee : U128} {expected : Option U64} (some : amount ≠ 0) :
      Asks crates chainId genesis (.transfer seed index recipient amount maxFee expected) none
        { target := recipient, args := crates.putU64 amount, value := 0
          meterLimit := nativeTransferMeter, kind := crates.kindTransfer, inAsset := none }
  | register {seed : Bytes seedLen} {index : U64} {maxFee : U128} {expected : Option U64} :
      Asks crates chainId genesis (.register seed index maxFee expected) none
        { target := keyRegisterAddress crates, args := crates.accountPublicKey seed index, value := 0
          meterLimit := nativeTransferMeter, kind := crates.kindTransfer, inAsset := none }
  | callPayable {seed : Bytes seedLen} {index : U64} {target : String} {args : List UInt8}
      {value meterLimit : U64} {maxFee : U128} {expected : Option U64} :
      Asks crates chainId genesis
        (.callPayable seed index target args value meterLimit maxFee expected) none
        { target, args, value, meterLimit, kind := crates.kindCall, inAsset := none }
  | callAsset {seed : Bytes seedLen} {index : U64} {target : String} {args : List UInt8}
      {assetIssuer : String} {amount meterLimit : U64} {maxFee : U128} {expected : Option U64}
      {issuer : Bytes 32} (issued : addressPayload crates.toCrates assetIssuer = .ok issuer) :
      Asks crates chainId genesis
        (.callAsset seed index target args assetIssuer amount meterLimit maxFee expected) none
        { target, args, value := amount, meterLimit, kind := crates.kindCall
          inAsset := some issuer }
  | callSignedOrder {seed : Bytes seedLen} {index : U64} {contract : String} {selector : Bytes 4}
      {layout : OrderLayout} {fields : List U64} {ownerSeed : Bytes seedLen}
      {ownerIndex meterLimit : U64} {maxFee : U128} {expected expectedOrder : Option U64}
      {nonce : U64} {randomness : Except String (Bytes 32)} {order : SignedOrderCall}
      (built : buildSignedOrderCall crates.toCrates chainId genesis contract selector layout fields
        ownerSeed ownerIndex nonce randomness = .ok order) :
      Asks crates chainId genesis
        (.callSignedOrder seed index contract selector layout fields ownerSeed ownerIndex meterLimit
          maxFee expected expectedOrder) (some nonce)
        { target := contract, args := order.callArgs, value := 0, meterLimit
          kind := crates.kindCall, inAsset := none }
  | callTypedOrder {seed : Bytes seedLen} {index : U64} {contract : String} {selector : Bytes 4}
      {layoutHash : Bytes 32} {schemeOff ptrOff expiryOff expiry regionOff : U64}
      {fields : List FieldArg} {ownerSeed : Bytes seedLen} {ownerIndex value : U64}
      {inAsset : Option String} {meterLimit : U64} {maxFee : U128}
      {expected expectedOrder : Option U64} {nonce : U64}
      {randomness : Except String (Bytes 32)} {order : SignedOrderCall}
      {issuer : Option (Bytes 32)}
      (built : buildTypedOrderCall crates.toCrates chainId genesis contract selector layoutHash
        schemeOff ptrOff expiryOff regionOff fields ownerSeed ownerIndex nonce expiry randomness
          = .ok order)
      (issued : inAsset.mapM (addressPayload crates.toCrates) = .ok issuer) :
      Asks crates chainId genesis
        (.callTypedOrder seed index contract selector layoutHash schemeOff ptrOff expiryOff expiry
          regionOff fields ownerSeed ownerIndex value inAsset meterLimit maxFee expected
          expectedOrder) (some nonce)
        { target := contract, args := order.callArgs, value, meterLimit, kind := crates.kindCall
          inAsset := issuer }
  | deployWithParams {seed : Bytes seedLen} {index : U64} {container : List UInt8}
      {params : List DeployParam} {meterLimit : U64} {maxFee : U128} {expected : Option U64} :
      Asks crates chainId genesis
        (.deployWithParams seed index container params meterLimit maxFee expected) none
        { target := vmDeployAddress crates, args := buildDeployCall container params, value := 0
          meterLimit, kind := crates.kindCall, inAsset := none }

/-- What is signed is what a call asks for, with a nonce, a fee, a chain and a deadline
    of the client's. -/
structure AsAsked (client : Client) (entry : Entry) (txBytes : List UInt8) (genesis : Bytes 32)
    (orderNonce : Option U64) (ask : Ask) (nonce : U64) (fee : U128) (chainId validUntil : U64) :
    Prop where
  asked : Asks client.crates chainId genesis entry orderNonce ask
  signed : ∃ rnd wrapper, client.crates.trySignHedged (accountOf entry).1 (accountOf entry).2
      (ask.body client.crates (accountOf entry) nonce fee chainId validUntil) genesis rnd
        = some wrapper
    ∧ txBytes = wrapper.bytes
  fee : fee ≤ maxFeeOf entry
  nonce : ∀ expected, namedNonce entry = some expected → nonce = expected
  orderNonce : ∀ expected, namedOrderNonce entry = some expected → orderNonce = some expected

/-- A transaction is one that a call asks for. -/
abbrev Asked (self : Client) (entry : Entry) (txBytes : List UInt8) : Prop :=
  ∃ genesis orderNonce ask nonce fee chainId validUntil,
    AsAsked self entry txBytes genesis orderNonce ask nonce fee chainId validUntil

/-! ## The steps -/

/-- What a call does before it reserves a nonce: it asks for what it needs, and hands
    nothing over. -/
inductive Preparing (self : Client) (entry : Entry) : {α : Type} → ClientM α → Prop
  | clock : Preparing self entry (orderClock self)
  | opening {sender : String} {targets : List String} {feeOf : NodeInfo → Except String U128} :
      Preparing self entry (opening self sender targets feeOf)
  | genesis {info : NodeInfo} : Preparing self entry (signingGenesis self info)
  | validity {info : NodeInfo}
      (named : ∀ name, self.network.chainId = some name → info.chainId = name) :
      Preparing self entry (validity self info)
  | account :
      Preparing self entry
        (self.account (self.crates.accountAddress (accountOf entry).1 (accountOf entry).2))
  | orderNonce {contract : String} {signer : Bytes 32}
      (carries : entry.order self = some (contract, signer)) :
      Preparing self entry (contractNonce self contract signer)
  | draw : Preparing self entry (drawn self)

/-- What a call does when the outcome is known. -/
inductive Closing (self : Client) : {α : Type} → ClientM α → Prop
  | done {α : Type} (a : α) : Closing self (pure a)
  | remember {α : Type} (targets : List String) (a : α) :
      Closing self (rememberTargets self targets >>= fun _ => pure a)

/-- A property of computations that a call has when its steps have it. -/
structure Steps (client : Client) (entry : Entry)
    (P : {α : Type} → ClientM α → ClientState → Prop) : Prop where
  value : ∀ {α β : Type} {x : Except String α} {rest : α → ClientM β} {s : ClientState},
    (∀ a, x = .ok a → P (rest a) s) →
    P ((liftM x : Traced ClientState Request String α) >>= rest) s
  prepare : ∀ {α β : Type} {m : ClientM α} {rest : α → ClientM β} {s : ClientState},
    Preparing client entry m → (∀ a t, Gives m s a t → P (rest a) t) → P (m >>= rest) s
  /-- A nonce that is named is granted or none is. -/
  reserve : ∀ {α : Type} {key : String} {reported : U64} {expected : Option U64} {order : Bool}
    {rest : String → U64 → ClientM α} {s : ClientState},
    (∀ named, expected = some named → named ∈ entry.named) →
    (∀ nonce t, (∀ named, expected = some named → nonce = named) → P (rest key nonce) t) →
    P (reserving key reported expected order rest) s
  /-- What is signed is what was asked for. -/
  submit : ∀ {info : NodeInfo} {slots : List (String × U64)}
    {sign : Bytes 32 → Except String (Bytes 32) → Except String SignedTransfer} {s : ClientState},
    (∀ rosters genesis randomness signed, genesisUnder client rosters info = .ok genesis →
      sign genesis randomness = .ok signed → Asked client entry signed.txBytes) →
    P (signAndSubmit client info (targetsOf entry) slots sign) s
  close : ∀ {α β : Type} {m : ClientM α} {rest : α → ClientM β} {s : ClientState},
    P m s → (∀ a, Closing client (rest a)) → P (m >>= rest) s

section

variable {self : Client} {s t : ClientState} {info : NodeInfo} {entry : Entry}
  {account : Bytes seedLen × U64} {genesis : Bytes 32} {nonce chainId validUntil : U64} {fee : U128}

/-- No step before a nonce hands anything over. -/
theorem Preparing.silent {α : Type} {m : ClientM α} (h : Preparing self entry m) :
    Silent Request.Submits m := by
  cases h with
  | clock => exact orderClock_asks.silent
  | opening => exact opening_silent
  | genesis => exact signingGenesis_asks.silent
  | validity => exact validity_silent
  | account => exact (account_asks _).silent
  | orderNonce => exact (contractNonce_asks _ _).silent
  | draw => exact (reach_asks _).silent

theorem Closing.silent {α : Type} {m : ClientM α} (h : Closing self m) :
    Silent Request.Submits m := by
  cases h with
  | done => exact silent_of_nil (fun _ => rfl)
  | remember => exact silent_of_nil (fun _ => rfl)

/-! ## What is signed -/

/-- A way to sign signs only what is asked. -/
def SignsAsked (crates : TxCrates) (account : Bytes seedLen × U64) (nonce : U64) (fee : U128)
    (chainId validUntil : U64) (Wanted : Bytes 32 → Ask → Prop)
    (sign : Bytes 32 → Except String (Bytes 32) → Except String SignedTransfer) : Prop :=
  ∀ genesis randomness signed, sign genesis randomness = .ok signed → ∃ ask, Wanted genesis ask
    ∧ Signs crates account.1 account.2 genesis
      (ask.body crates account nonce fee chainId validUntil) signed

/-- A grant of a nonce that was named is of that nonce. -/
theorem slot_names {session session' : SigningSession} {key : String} {reported : U64}
    {expected : Option U64} {order : Bool}
    (h : session.slot key reported expected order = (.ok nonce, session')) :
    ∀ named, expected = some named → nonce = named := by
  rintro named rfl
  obtain ⟨rfl, hadmits, -⟩ := slot_ok h
  exact hadmits.symm

/-- A nonce that was reserved is the one that is named. -/
theorem granted_names {key : String} {reported : U64} {expected : Option U64} {order : Bool}
    (h : Gives (step (fun s : ClientState =>
      let (answer, shared) := s.shared.slot key reported expected order
      (answer, { s with shared })) : ClientM U64) s nonce t) :
    ∀ named, expected = some named → nonce = named :=
  slot_names (Prod.ext h.1 rfl)

section

variable {crates : TxCrates} {target : String} {args : List UInt8} {value meterLimit head : U64}
  {transferFee : U128}

/-- A transfer signs its recipient and its amount, if there is one. -/
theorem signTransfer_asked {Wanted : Bytes 32 → Ask → Prop} {recipient : String} {amount : U64}
    (h : ∀ genesis, amount ≠ 0 → Wanted genesis
      { target := recipient, args := crates.putU64 amount, value := 0
        meterLimit := nativeTransferMeter, kind := crates.kindTransfer, inAsset := none }) :
    SignsAsked crates account nonce fee chainId validUntil Wanted
      (signTransfer crates account.1 account.2 recipient amount nonce fee chainId validUntil
        head) := by
  intro genesis randomness signed hsigned
  obtain ⟨hsome, hsigned⟩ := guard_ok hsigned
  exact ⟨_, h genesis hsome, signNative_ok hsigned⟩

/-- A registration signs the account's own key. -/
theorem signRegister_asked {Wanted : Bytes 32 → Ask → Prop}
    (h : ∀ genesis, Wanted genesis
      { target := keyRegisterAddress crates, args := crates.accountPublicKey account.1 account.2
        value := 0, meterLimit := nativeTransferMeter, kind := crates.kindTransfer
        inAsset := none }) :
    SignsAsked crates account nonce fee chainId validUntil Wanted
      (signRegister crates account.1 account.2 nonce fee chainId validUntil head) :=
  fun genesis _ _ hsigned => ⟨_, h genesis, signNative_ok hsigned⟩

/-- A call without an asset signs its target, its arguments and its value. -/
theorem signPayableCall_asked {Wanted : Bytes 32 → Ask → Prop}
    (h : ∀ genesis, Wanted genesis
      { target, args, value, meterLimit, kind := crates.kindCall, inAsset := none }) :
    SignsAsked crates account nonce fee chainId validUntil Wanted
      (signPayableCall crates account.1 account.2 target args value nonce meterLimit fee chainId
        validUntil transferFee head) :=
  fun genesis _ _ hsigned => ⟨_, h genesis, signPayableCall_ok hsigned⟩

/-- A call with an asset signs the payload of its issuer too. -/
theorem signAssetCall_asked {Wanted : Bytes 32 → Ask → Prop} {assetIssuer : String}
    (h : ∀ genesis issuer, addressPayload crates.toCrates assetIssuer = .ok issuer → Wanted genesis
      { target, args, value, meterLimit, kind := crates.kindCall, inAsset := some issuer }) :
    SignsAsked crates account nonce fee chainId validUntil Wanted
      (signAssetCall crates account.1 account.2 target args assetIssuer value nonce meterLimit fee
        chainId validUntil transferFee head) := by
  intro genesis randomness signed hsigned
  obtain ⟨issuer, hissuer, hsigns⟩ := signAssetCall_ok hsigned
  exact ⟨_, h genesis issuer hissuer, hsigns⟩

end

/-- A way to sign what is asked, for the genesis that the client holds to. -/
theorem asked_of_signs {orderNonce : Option U64}
    {sign : Bytes 32 → Except String (Bytes 32) → Except String SignedTransfer}
    (hfee : fee ≤ maxFeeOf entry)
    (hnonce : ∀ expected, namedNonce entry = some expected → nonce = expected)
    (horder : ∀ expected, namedOrderNonce entry = some expected → orderNonce = some expected)
    (hsign : SignsAsked self.crates (accountOf entry) nonce fee chainId validUntil
      (fun genesis ask => (∃ rosters, genesisUnder self rosters info = .ok genesis) →
        Asks self.crates chainId genesis entry orderNonce ask) sign) :
    ∀ rosters genesis randomness signed, genesisUnder self rosters info = .ok genesis →
      sign genesis randomness = .ok signed → Asked self entry signed.txBytes := by
  intro rosters genesis randomness signed hgenesis hsigned
  obtain ⟨ask, hasks, hsigns⟩ := hsign genesis randomness signed hsigned
  exact ⟨genesis, orderNonce, ask, nonce, fee, chainId, validUntil, hasks ⟨rosters, hgenesis⟩,
    hsigns.wrapped, hfee, hnonce, horder⟩

/-! ## Every entry point takes these steps -/

/-- A name that a client goes by is the configured one. -/
theorem name_of_named {first pinned : Option String} {named : String}
    (h : Named self first pinned named) :
    ∀ name, self.network.chainId = some name → named = name := by
  intro name hconfigured
  rcases h with hsome | ⟨hnone, -⟩
  · exact Option.some.inj (hsome.symm.trans hconfigured)
  · exact nomatch hnone.symm.trans hconfigured

section

variable {P : {α : Type} → ClientM α → ClientState → Prop} {α : Type}

/-- After an opening the fee is that of the network and the chain the configured one. -/
theorem Steps.opened (h : Steps self entry P) {sender : String} {targets : List String}
    {feeOf : NodeInfo → Except String U128} {rest : NodeInfo × U128 × U64 → ClientM α}
    (hrest : ∀ info fee chainId t, feeOf info = .ok fee →
      (∀ name, self.network.chainId = some name → info.chainId = name) →
      P (rest (info, fee, chainId)) t) :
    P (opening self sender targets feeOf >>= rest) s := by
  refine h.prepare .opening ?_
  rintro ⟨info, fee, chainId⟩ t hopening
  obtain ⟨hfee, hopened⟩ := opening_gives hopening
  exact hrest info fee chainId t hfee (name_of_named hopened.named)

/-- The account's nonce is reserved once the gateway was asked for it. -/
theorem Steps.checked (h : Steps self entry P) {expected : Option U64}
    {rest : String → U64 → ClientM α}
    (hexpected : ∀ named, expected = some named → named ∈ entry.named)
    (hrest : ∀ key nonce t, (∀ named, expected = some named → nonce = named) →
      P (rest key nonce) t) :
    P (checkedNonce self info
      (self.crates.accountAddress (accountOf entry).1 (accountOf entry).2) expected rest) s :=
  h.prepare .account (fun _ _ _ => h.reserve hexpected (hrest _))

/-- An order's nonce is reserved, then the account's, and what is signed carries the
    order. -/
theorem Steps.ordered (h : Steps self entry P) (chainId validUntil : U64) {contract : String}
    {signer : Bytes 32}
    {expected expectedOrder : Option U64}
    {build : U64 → Except String (Bytes 32) → Except String SignedOrderCall}
    {sign : SignedOrderCall → U64 → Bytes 32 → Except String (Bytes 32) →
      Except String SignedTransfer}
    (hcarries : entry.order self = some (contract, signer))
    (hexpected : ∀ named, expected = some named → named ∈ entry.named)
    (hexpectedOrder : ∀ named, expectedOrder = some named → named ∈ entry.named)
    (hnonce : namedNonce entry = expected) (horder : namedOrderNonce entry = expectedOrder)
    (hfee : fee ≤ maxFeeOf entry)
    (hsign : ∀ orderNonce randomness order nonce, build orderNonce randomness = .ok order →
      SignsAsked self.crates (accountOf entry) nonce fee chainId validUntil
        (fun genesis ask => (∃ rosters, genesisUnder self rosters info = .ok genesis) →
          Asks self.crates chainId genesis entry (some orderNonce) ask) (sign order nonce)) :
    P (callOrder self info (self.crates.accountAddress (accountOf entry).1 (accountOf entry).2)
      contract signer (targetsOf entry) expected expectedOrder build sign) s := by
  refine h.value (fun key _ => h.prepare (.orderNonce hcarries) (fun reported _ _ => ?_))
  refine h.reserve hexpectedOrder (fun orderNonce _ hgranted => ?_)
  refine h.prepare .draw (fun randomness _ _ => h.value (fun order hordered => ?_))
  refine h.checked hexpected (fun _ nonce _ hgranted' => h.close (h.submit ?_) ?_)
  · refine asked_of_signs hfee (hnonce ▸ hgranted') (fun named hnamed => ?_)
      (hsign orderNonce randomness order nonce hordered)
    exact congrArg some (hgranted named (horder ▸ hnamed))
  · rintro ⟨signed, outcome⟩
    exact .done _

end

/-- **Every entry point takes the steps of a signing call**, from any state, whatever
    its gateway answers. -/
theorem entry_steps {P : {α : Type} → ClientM α → ClientState → Prop} (h : Steps self entry P)
    (s : ClientState) : P (entry.run self) s := by
  cases entry with
  | transfer seed index recipient amount maxFee expected =>
      refine h.close (h.value (fun _ _ => h.opened (fun info fee chainId t hfee hname => ?_)))
        (fun _ => .done ())
      refine h.prepare (.validity hname) (fun validUntil _ _ => ?_)
      refine h.checked (fun _ => Option.mem_toList.mpr) (fun _ nonce _ hgranted => h.submit ?_)
      exact asked_of_signs (transferFeeWithin_ok hfee) hgranted nofun
        (signTransfer_asked (fun _ hsome _ => .transfer hsome))
  | register seed index maxFee expected =>
      refine h.close (h.opened (fun info fee chainId t hfee hname => ?_)) (fun _ => .done ())
      refine h.prepare (.validity hname) (fun validUntil _ _ => ?_)
      refine h.checked (fun _ => Option.mem_toList.mpr) (fun _ nonce _ hgranted => h.submit ?_)
      exact asked_of_signs (transferFeeWithin_ok hfee) hgranted nofun
        (signRegister_asked (fun _ _ => .register))
  | callPayable seed index target args value meterLimit maxFee expected =>
      refine h.close (h.value (fun _ _ => h.opened (fun info fee chainId t hfee hname => ?_)))
        (fun _ => .done ())
      refine h.prepare (.validity hname) (fun validUntil _ _ => ?_)
      have hle : fee ≤ maxFee := by
        split at hfee
        · exact deployFeeWithin_ok hfee
        · exact feeWithin_ok hfee
      refine h.checked (fun _ => Option.mem_toList.mpr) (fun _ nonce _ hgranted => h.submit ?_)
      exact asked_of_signs hle hgranted nofun (signPayableCall_asked (fun _ _ => .callPayable))
  | callAsset seed index target args assetIssuer amount meterLimit maxFee expected =>
      refine h.close (h.value (fun _ _ => h.value (fun _ _ =>
        h.opened (fun info fee chainId t hfee hname => ?_)))) (fun _ => .done ())
      refine h.prepare (.validity hname) (fun validUntil _ _ => ?_)
      refine h.checked (fun _ => Option.mem_toList.mpr) (fun _ nonce _ hgranted => h.submit ?_)
      exact asked_of_signs (feeWithin_ok hfee) hgranted nofun
        (signAssetCall_asked (fun _ _ hissuer _ => .callAsset hissuer))
  | callSignedOrder seed index contract selector layout fields ownerSeed ownerIndex meterLimit maxFee
      expected expectedOrder =>
      refine h.close (h.value (fun _ _ => h.prepare .clock (fun now _ _ => h.value (fun _ _ =>
        h.opened (fun info fee chainId t hfee hname => ?_))))) (fun _ => .done ())
      refine h.prepare .genesis (fun genesis _ hgenesis => ?_)
      refine h.prepare (.validity hname) (fun validUntil _ _ => ?_)
      obtain ⟨hgenesis, -⟩ := signingGenesis_gives hgenesis
      refine h.ordered chainId validUntil rfl
        (fun _ hnamed => List.mem_append_left _ (Option.mem_toList.mpr hnamed))
        (fun _ hnamed => List.mem_append_right _ (Option.mem_toList.mpr hnamed)) rfl rfl
        (feeWithin_ok hfee) (fun orderNonce randomness order nonce hordered => ?_)
      refine signPayableCall_asked ?_
      -- the order was built for the genesis that is signed for
      rintro later ⟨_, hlater⟩
      cases genesisUnder_unique hgenesis hlater
      exact .callSignedOrder hordered
  | callTypedOrder seed index contract selector layoutHash schemeOff ptrOff expiryOff expiry regionOff
      fields ownerSeed ownerIndex value inAsset meterLimit maxFee expected expectedOrder =>
      refine h.close (h.value (fun _ _ => h.value (fun _ _ => h.prepare .clock (fun now _ _ =>
        h.value (fun _ _ => h.opened (fun info fee chainId t hfee hname => ?_))))))
        (fun _ => .done ())
      refine h.prepare .genesis (fun genesis _ hgenesis => ?_)
      refine h.prepare (.validity hname) (fun validUntil _ _ => ?_)
      obtain ⟨hgenesis, -⟩ := signingGenesis_gives hgenesis
      refine h.ordered chainId validUntil rfl
        (fun _ hnamed => List.mem_append_left _ (Option.mem_toList.mpr hnamed))
        (fun _ hnamed => List.mem_append_right _ (Option.mem_toList.mpr hnamed)) rfl rfl
        (feeWithin_ok hfee) (fun orderNonce randomness order nonce hordered => ?_)
      cases inAsset with
      | some assetIssuer =>
          refine signAssetCall_asked ?_
          rintro later issuer hissuer ⟨_, hlater⟩
          cases genesisUnder_unique hgenesis hlater
          refine .callTypedOrder hordered ?_
          show some <$> addressPayload self.crates.toCrates assetIssuer = _
          rw [hissuer]
          rfl
      | none =>
          refine signPayableCall_asked ?_
          rintro later ⟨_, hlater⟩
          cases genesisUnder_unique hgenesis hlater
          exact .callTypedOrder hordered rfl
  | deployWithParams seed index container params meterLimit maxFee expected =>
      refine h.close (h.opened (fun info fee chainId t hfee hname => ?_)) (fun _ => .done ())
      refine h.prepare (.validity hname) (fun validUntil _ _ => ?_)
      refine h.checked (fun _ => Option.mem_toList.mpr) (fun _ nonce _ hgranted => ?_)
      refine h.value (fun _ _ => h.close (h.submit ?_) ?_)
      · exact asked_of_signs (deployFeeWithin_ok hfee) hgranted nofun
          (signPayableCall_asked (fun _ _ => .deployWithParams))
      · rintro ⟨signed, outcome⟩
        exact .remember _ _

/-! ## One transaction at most, and the one that is asked for -/

/-- A plain submit hands over at most once. -/
theorem submit_once {txBytes : List UInt8} : Once Request.Submits (self.submit txBytes) := by
  have hpost : Once Request.Submits (self.post "submit_transaction" (submitBody txBytes)) :=
    once_before (once_emit _) (fun _ => silent_bind (silent_of_nil (fun _ => rfl))
      (fun _ => silent_ofExcept _))
  refine once_before (once_after (silent_ofExcept _) (fun _ => once_before hpost ?_))
    (fun _ => silent_ofExcept _)
  rintro ⟨status, text⟩
  exact silent_bind (silent_ofExcept _) (fun _ => silent_bind (silent_ofExcept _)
    (fun _ => silent_of_nil (fun _ => rfl)))

/-- So does the signing step. -/
theorem signAndSubmit_once {targets : List String} {slots : List (String × U64)}
    {sign : Bytes 32 → Except String (Bytes 32) → Except String SignedTransfer} :
    Once Request.Submits (signAndSubmit self info targets slots sign) := by
  have hheld : ∀ signed, Once Request.Submits (submitHeld self slots signed) := fun signed =>
    once_after (silent_of_nil (fun _ => rfl)) (fun _ => once_after saveSigned_asks.silent
      (fun _ => once_before submit_once (fun _ => silent_of_nil (fun _ => rfl))))
  refine once_after signingGenesis_asks.silent (fun _ => once_after (reach_asks _).silent ?_)
  refine fun _ => once_after (silent_ofExcept _) (fun signed => ?_)
  exact once_after (silent_of_nil (fun _ => rfl)) (fun _ => once_before (hheld signed)
    (fun _ => silent_of_nil (fun _ => rfl)))

/-- **A call hands at most one transaction over.** -/
theorem entry_once (self : Client) (entry : Entry) : Once Request.Submits (entry.run self) := by
  refine entry_steps (P := OnceAt Request.Submits)
    ⟨?value, ?prepare, ?reserve, ?submit, ?close⟩
  case value => exact onceAt_value
  case prepare => exact fun hm hrest => onceAt_after hm.silent hrest
  case reserve =>
    exact fun _ hrest => onceAt_after (silent_of_nil (fun _ => rfl))
      (fun nonce t hgranted => hrest nonce t (granted_names hgranted))
  case submit => exact fun _ => signAndSubmit_once _
  case close => exact fun hm hclose => onceAt_before hm (fun a => (hclose a).silent)

/-- **What a call hands over is what it is asked for.** -/
theorem entry_asked {r : Request} (hr : r.Submits) (h : Emits (entry.run self) s r) :
    ∃ txBytes, r.body = submitBody txBytes ∧ Asked self entry txBytes := by
  revert h
  refine entry_steps (P := fun m s =>
    Emits m s r → ∃ txBytes, r.body = submitBody txBytes ∧ Asked self entry txBytes)
    ⟨?value, ?prepare, ?reserve, ?submit, ?close⟩ s
  case value =>
    intro α β x rest s hrest h
    obtain ⟨a, ha, h⟩ := emits_value h
    exact hrest a ha h
  case prepare =>
    intro α β m rest s hm hrest h
    obtain ⟨a, t, hgives, h⟩ := emits_after hm.silent hr h
    exact hrest a t hgives h
  case reserve =>
    intro α key reported expected order rest s _ hrest h
    obtain ⟨nonce, t, hgranted, h⟩ := emits_after (silent_of_nil (fun _ => rfl)) hr h
    exact hrest nonce t (granted_names hgranted) (emits_andFinally h)
  case submit =>
    intro info slots sign s hasked h
    obtain ⟨genesis, randomness, signed, hgenesis, hsigned, hbody, -⟩ := emits_signAndSubmit hr h
    exact ⟨signed.txBytes, hbody, hasked _ genesis randomness signed hgenesis hsigned⟩
  case close =>
    intro α β m rest s hm hclose h
    rcases emits_bind h with h | ⟨a, t, -, h⟩
    · exact hm h
    · exact absurd hr ((hclose a).silent t r h)

end

end QCoreEntryStep
