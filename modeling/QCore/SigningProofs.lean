import Mathlib
import QCore.MachineIntProofs
import QCore.ByteMemoryProofs
import QCore.FallibleProofs
import QCore.WireProofs
import QCore.CratesProofs
import QCore.AddressProofs
import QCore.ContractProofs
import QCore.ClientProofs
import QCore.ConfirmationProofs

/-! # Signing a transaction

    Every transaction is a body, signed for a genesis by an account.  Before one
    is signed its fee, its deadline and its chain are checked; what is signed is
    the body of those very values, which `Signs` says. -/

namespace QCoreSigning

open QCoreMachineInt QCoreByteMemory QCoreFallible QCoreWire QCoreCrates QCoreAddress QCoreContract
  QCoreClient QCoreConfirmation

/-- A height that no chain is past. -/
def maxPlausibleHead : U64 := 1099511627776

/-- The meter of a transfer. -/
def nativeTransferMeter : U64 := 1210

/-- The highest meter of a call. -/
def maxMeterLimit : U64 := 12500000

/-- The highest meter of a deploy. -/
def maxDeployMeterLimit : U64 := 50000000

/-- The most bytes of arguments. -/
def maxCallArgs : Nat := 128 * 1024

/-- How far past the head a deadline may be. -/
def maxValidityBlocks : U64 := 3600

/-- How far past the head it is. -/
def defaultValidityBlocks : U64 := 300

/-- What a deploy costs, in millionths of a dollar. -/
def deployFeeMicroUsd : U128 := 5000000

/-- The least that a transfer costs. -/
def feeBandFloorMicroUsd : U128 := 500

/-- The most that it costs. -/
def feeBandCeilingMicroUsd : U128 := 1000

/-- How many transfers a deploy costs, where they cost the most. -/
def deployToTransferFloor : U128 := deployFeeMicroUsd / feeBandCeilingMicroUsd

/-- How many it costs, where they cost the least. -/
def deployToTransferCeiling : U128 := deployFeeMicroUsd / feeBandFloorMicroUsd

/-! ## Fees -/

/-- The fee of a call is that of a transfer, whatever its meter limit. -/
def vmCallFee (transferFee : U128) (_meterLimit : U64) : U128 := transferFee

/-- The meter, the arguments and the fee of a call are such as the chain admits, under a
    ceiling for the meter. -/
def checkCallUnder (ceiling meterLimit : U64) (argsLen : Nat) (fee transferFee : U128)
    (deploy : Bool) : Except String Unit := do
  refuseIf (meterLimit < nativeTransferMeter ∨ ceiling < meterLimit)
    s!"the meter limit {meterLimit} is outside the range {nativeTransferMeter} to {ceiling} the chain admits, refusing to sign"
  refuseIf (maxCallArgs < argsLen)
    s!"the call arguments are {argsLen} bytes, above the {maxCallArgs} byte cap the chain admits, refusing to sign"
  let required := vmCallFee transferFee meterLimit
  refuseIf (fee < required)
    s!"the fee {fee} is below the flat network fee {required}, refusing to sign a call the chain would reject"
  refuseIf (deploy ∧ fee = required)
    s!"the fee {fee} carries no deploy fee, a deploy pays the locked network fee {required} plus the frozen deploy fee, refusing to sign a deploy the chain would reject"
  -- the fee is not below what is required, so nothing is clamped
  let deployFee := saturatingSub fee required
  refuseIf (deploy ∧ (deployFee < saturatingMul transferFee deployToTransferFloor
      ∨ saturatingMul (saturatingAdd transferFee 1) deployToTransferCeiling < deployFee))
    s!"the deploy fee {deployFee} is not the frozen five US dollars at any rate that prices the {transferFee} network fee inside its locked band, refusing to sign"
  refuseIf (¬ deploy ∧ required < fee)
    s!"the fee {fee} is above the flat network fee {required}, every transaction pays exactly the locked fee, refusing to sign"

/-- The check of a call that deploys nothing. -/
def checkCall (meterLimit : U64) (argsLen : Nat) (fee transferFee : U128) : Except String Unit :=
  checkCallUnder maxMeterLimit meterLimit argsLen fee transferFee false

/-- The fee of a deploy, which a gateway has to report as its rate says. -/
def deployFeeOf (info : NodeInfo) : Except String U128 :=
  match info.deployFee, info.rateMicroUsdPerQtov, info.quonPerQtov with
  | some fee, some rate, some unit => do
      -- a division by zero is zero, and the rate is refused below
      let expected := saturatingMul deployFeeMicroUsd unit / rate
      refuseIf (rate = 0 ∨ unit = 0 ∨ fee ≠ expected)
        s!"the gateway asks a deploy fee of {fee} Quon, which is not the frozen five US dollars at its own rate, refusing to sign"
      let bandFloor := saturatingMul feeBandFloorMicroUsd unit / rate
      let bandCeiling := saturatingMul feeBandCeilingMicroUsd unit / rate
      refuseIf (info.transferFee < bandFloor ∨ bandCeiling < info.transferFee)
        s!"the gateway rate of {rate} micro US dollars a QTOV prices its own {info.transferFee} Quon network fee outside the locked band, so the rate behind its deploy fee does not hold, refusing to sign"
      return fee
  | _, _, _ =>
      .error "the gateway does not report the deploy fee with its rate, refusing to sign a deploy"

/-! ## Deadlines -/

/-- A deadline is a height that the chain can reach. -/
def checkDeadline (validUntil : U64) : Except String Unit := do
  refuseIf (validUntil = 0)
    "a validity deadline of zero never expires, refusing to sign a transaction that stays valid forever"
  refuseIf (saturatingAdd maxPlausibleHead maxValidityBlocks < validUntil)
    s!"the validity deadline {validUntil} is past any height this chain can reach, refusing to sign a transaction that stays valid forever"

/-- A deadline is past the head, and not far past it. -/
def checkValidUntil (validUntil head : U64) : Except String Unit := do
  checkDeadline validUntil
  refuseIf (validUntil ≤ head)
    s!"the validity deadline {validUntil} is not past the head {head}, refusing to sign a transaction that has already expired"
  refuseIf (maxValidityBlocks < saturatingSub validUntil head)
    s!"the validity deadline {validUntil} is more than {maxValidityBlocks} blocks past the head {head}, refusing to sign a transaction that stays valid that long"

/-- The clock a head is bounded by: none when the head is verified. -/
def boundingClock (clock : Option ChainClock) (verified : Bool) :
    Except String (Option ChainClock) :=
  match verified, clock with
  | true, _ => .ok none
  | false, some clock => .ok (some clock)
  | false, none => .error "the head is neither verified against a trusted validator roster nor bounded by a known genesis time and block rate, refusing to sign a deadline the gateway alone chose"

/-- How high a head can be above the floor after some seconds. -/
def leapCeiling (clock : ChainClock) (floor floorAgeSecs : U64) : U64 :=
  saturatingAdd floor
    (saturatingAdd (saturatingMul floorAgeSecs clock.blocksPerSec) headSlackBlocks)

/-- A head is not below the floor, nor further above it than the clock allows. -/
def checkFloor (clock : Option ChainClock) (head : U64) (floor : Option U64)
    (floorAgeSecs : U64) : Except String Unit :=
  match floor with
  | some floor => do
      refuseIf (head < floor)
        s!"the gateway reports head {head} below the {floor} it reported earlier, refusing to sign"
      refuseIf (clock.any (fun clock => leapCeiling clock floor floorAgeSecs < head))
        s!"the gateway head leapt from {floor} to {head} faster than blocks are made, refusing to sign"
  | none => .ok ()

/-- The deadline for a head that is verified, or that a clock or a floor bounds. -/
def boundedValidUntilFor (clock : Option ChainClock) (verified : Bool) (head wallSecs : U64)
    (floor : Option U64) (floorAgeSecs : U64) : Except String U64 := do
  refuseIf (maxPlausibleHead < head)
    s!"the gateway reports head {head}, past any height this chain can have reached, refusing to sign"
  let clock ← boundingClock clock verified
  refuseIf (clock.any (fun clock => clock.headCeiling wallSecs < head))
    s!"the gateway reports head {head} further ahead than wall-clock time allows, refusing to sign"
  checkFloor clock head floor floorAgeSecs
  let validUntil := saturatingAdd head defaultValidityBlocks
  checkValidUntil validUntil head
  return validUntil

/-! ## Transactions -/

/-- A transaction that was signed. -/
structure SignedTransfer where
  fromAddress : String
  txId : String
  txBytes : List UInt8

/-- Every byte is the first. -/
def degenerateRandomness (bytes : List UInt8) : Bool := bytes.all (fun b => bytes.head? = some b)

/-- What the random source filled, if it is fit to sign with. -/
def freshRandomness (filled : Option (Bytes 32)) : Except String (Bytes 32) := do
  let refusal := "no secure random source is available, refusing to sign"
  let rnd ← okOr filled refusal
  refuseIf (degenerateRandomness rnd.val = true) refusal
  return rnd

section

variable (crates : TxCrates)

/-- The check of a call, by what its target is. -/
def checkCallTo (target : String) (meterLimit : U64) (argsLen : Nat) (fee transferFee : U128) :
    Except String Unit :=
  let deploy := sameAddress crates.toCrates target (vmDeployAddress crates)
  let ceiling := if deploy then maxDeployMeterLimit else maxMeterLimit
  checkCallUnder ceiling meterLimit argsLen fee transferFee deploy

/-- `qtv/key/register`, in bytes. -/
def keyRegisterTag : List UInt8 :=
  [113, 116, 118, 47, 107, 101, 121, 47, 114, 101, 103, 105, 115, 116, 101, 114]

/-- The address that a key is registered at. -/
def keyRegisterAddress : String :=
  (crates.renderAddress (crates.sha3_256 keyRegisterTag)).get (crates.renders _)

/-- Sign a body; `randomness` is what the random source gives. -/
def signFresh (seed : Bytes seedLen) (index : U64) (body : Body) (genesis : Bytes 32)
    (randomness : Except String (Bytes 32)) : Except String SignedTransfer := do
  let rnd ← randomness
  let wrapper ← okOr (crates.trySignHedged seed index body genesis rnd)
    "the sender or the target is not a q1 address"
  return { fromAddress := crates.accountAddress seed index, txId := wrapper.id,
           txBytes := wrapper.bytes }

/-- The body of a transfer or of a call that carries no asset. -/
def nativeBody (seed : Bytes seedLen) (index : U64) (target : String) (args : List UInt8)
    (value nonce meterLimit : U64) (fee : U128) (chainId validUntil : U64) (callsCode : Bool) :
    Body :=
  { sender := crates.accountAddress seed index, nonce, meterLimit, fee, target, args, value,
    chainId, kind := if callsCode then crates.kindCall else crates.kindTransfer, inAsset := none,
    validUntil }

/-- The body of a call that carries an asset. -/
def assetBody (seed : Bytes seedLen) (index : U64) (target : String) (args : List UInt8)
    (issuer : Bytes 32) (amount nonce meterLimit : U64) (fee : U128) (chainId validUntil : U64) :
    Body :=
  { sender := crates.accountAddress seed index, nonce, meterLimit, fee, target, args,
    value := amount, chainId, kind := crates.kindCall, inAsset := some issuer, validUntil }

/-- A transfer goes to another account. -/
def checkSelf (seed : Bytes seedLen) (index : U64) (target : String) (callsCode : Bool) :
    Except String Unit :=
  if callsCode then .ok ()
  else do
    let recipient ← addressPayload crates.toCrates target
    let sender ← addressPayload crates.toCrates (crates.accountAddress seed index)
    refuseIf (recipient = sender)
      "the recipient is the sending account itself and the chain refuses a self transfer, refusing to sign"

/-- Sign a transaction that brings no asset. -/
def signNative (seed : Bytes seedLen) (index : U64) (target : String) (args : List UInt8)
    (value nonce meterLimit : U64) (fee : U128) (chainId validUntil : U64) (callsCode : Bool)
    (head : U64) (genesis : Bytes 32) (randomness : Except String (Bytes 32)) :
    Except String SignedTransfer := do
  refuseIf (¬ validAddress crates.toCrates target) "the target is not a Q1 address"
  checkValidUntil validUntil head
  checkGenesis crates.toCrates chainId genesis
  checkSelf crates seed index target callsCode
  signFresh crates seed index (nativeBody crates seed index target args value nonce meterLimit fee
    chainId validUntil callsCode) genesis randomness

/-- Sign a call that brings an amount of the native asset. -/
def signPayableCall (seed : Bytes seedLen) (index : U64) (target : String) (args : List UInt8)
    (value nonce meterLimit : U64) (fee : U128) (chainId validUntil : U64) (transferFee : U128)
    (head : U64) (genesis : Bytes 32) (randomness : Except String (Bytes 32)) :
    Except String SignedTransfer := do
  checkCallTo crates target meterLimit args.length fee transferFee
  signNative crates seed index target args value nonce meterLimit fee chainId validUntil true head
    genesis randomness

/-- Sign a call that brings nothing. -/
def signCall (seed : Bytes seedLen) (index : U64) (target : String) (args : List UInt8)
    (nonce meterLimit : U64) (fee : U128) (chainId validUntil : U64) (transferFee : U128)
    (head : U64) (genesis : Bytes 32) (randomness : Except String (Bytes 32)) :
    Except String SignedTransfer :=
  signPayableCall crates seed index target args 0 nonce meterLimit fee chainId validUntil
    transferFee head genesis randomness

/-- Sign a call that brings an amount of another asset. -/
def signAssetCall (seed : Bytes seedLen) (index : U64) (target : String) (args : List UInt8)
    (assetIssuer : String) (amount nonce meterLimit : U64) (fee : U128) (chainId validUntil : U64)
    (transferFee : U128) (head : U64) (genesis : Bytes 32)
    (randomness : Except String (Bytes 32)) : Except String SignedTransfer := do
  refuseIf (¬ validAddress crates.toCrates target) "the target is not a Q1 address"
  refuseIf (amount = 0) "an asset transfer of zero is refused, the chain rejects it"
  let issuer ← okOr (crates.parseAddress assetIssuer) "the asset issuer is not a Q1 address"
  let issuer ← exactly 32 issuer "the asset issuer is not a Q1 address"
  checkCall meterLimit args.length fee transferFee
  checkValidUntil validUntil head
  checkGenesis crates.toCrates chainId genesis
  signFresh crates seed index (assetBody crates seed index target args issuer amount nonce
    meterLimit fee chainId validUntil) genesis randomness

/-- Sign a transfer. -/
def signTransfer (seed : Bytes seedLen) (index : U64) (recipient : String) (amount nonce : U64)
    (fee : U128) (chainId validUntil head : U64) (genesis : Bytes 32)
    (randomness : Except String (Bytes 32)) : Except String SignedTransfer := do
  refuseIf (amount = 0) "a transfer of zero is refused, the chain rejects it"
  signNative crates seed index recipient (crates.putU64 amount) 0 nonce nativeTransferMeter fee chainId
    validUntil false head genesis randomness

/-- Sign the registration of the account's own key. -/
def signRegister (seed : Bytes seedLen) (index nonce : U64) (fee : U128)
    (chainId validUntil head : U64) (genesis : Bytes 32)
    (randomness : Except String (Bytes 32)) : Except String SignedTransfer :=
  signNative crates seed index (keyRegisterAddress crates) (crates.accountPublicKey seed index) 0
    nonce nativeTransferMeter fee chainId validUntil false head genesis randomness

end

/-! ## What is signed -/

/-- A transaction is a body, signed for a genesis by an account, whose chain is
    not a retired one. -/
structure Signs (crates : TxCrates) (seed : Bytes seedLen) (index : U64) (genesis : Bytes 32)
    (body : Body) (signed : SignedTransfer) : Prop where
  sender : body.sender = crates.accountAddress seed index
  wrapped : ∃ rnd wrapper, crates.trySignHedged seed index body genesis rnd = some wrapper
    ∧ signed.txBytes = wrapper.bytes
  live : ∀ name ∈ retiredChainNames, crates.chainIdFromName name ≠ body.chainId

section

variable {crates : TxCrates} {seed : Bytes seedLen} {index : U64} {genesis : Bytes 32}
  {target : String} {args : List UInt8} {value nonce meterLimit : U64} {fee transferFee : U128}
  {chainId validUntil head : U64} {randomness : Except String (Bytes 32)} {signed : SignedTransfer}

/-- A chain id that passes the check is of no retired name. -/
theorem checkGenesis_live {crates : Crates}
    (h : checkGenesis crates chainId genesis = .ok ()) :
    ∀ name ∈ retiredChainNames, crates.chainIdFromName name ≠ chainId := by
  rw [checkGenesis] at h
  split at h
  · exact nomatch h
  · next hnone =>
      intro name hname heq
      rw [List.find?_eq_none] at hnone
      exact hnone name hname (beq_iff_eq.mpr heq)

/-- What is signed afresh is the body, by the seed's key. -/
theorem signFresh_ok {body : Body} (hsender : body.sender = crates.accountAddress seed index)
    (hgenesis : checkGenesis crates.toCrates body.chainId genesis = .ok ())
    (h : signFresh crates seed index body genesis randomness = .ok signed) :
    Signs crates seed index genesis body signed := by
  obtain ⟨rnd, -, h⟩ := bind_ok h
  obtain ⟨wrapper, hwrapper, h⟩ := value_ok h
  cases h
  exact ⟨hsender, ⟨rnd, wrapper, hwrapper, rfl⟩, checkGenesis_live hgenesis⟩

/-- A native call that is signed has the native body. -/
theorem signNative_ok {callsCode : Bool}
    (h : signNative crates seed index target args value nonce meterLimit fee chainId validUntil
      callsCode head genesis randomness = .ok signed) :
    Signs crates seed index genesis (nativeBody crates seed index target args value nonce
      meterLimit fee chainId validUntil callsCode) signed := by
  obtain ⟨-, h⟩ := guard_ok h
  obtain ⟨-, -, h⟩ := bind_ok h
  obtain ⟨_, hgenesis, h⟩ := bind_ok h
  obtain ⟨-, -, h⟩ := bind_ok h
  exact signFresh_ok rfl hgenesis h

/-- A call that pays and is signed has the native body. -/
theorem signPayableCall_ok
    (h : signPayableCall crates seed index target args value nonce meterLimit fee chainId
      validUntil transferFee head genesis randomness = .ok signed) :
    Signs crates seed index genesis (nativeBody crates seed index target args value nonce
      meterLimit fee chainId validUntil true) signed := by
  obtain ⟨-, -, h⟩ := bind_ok h
  exact signNative_ok h

/-- So has a transfer. -/
theorem signTransfer_ok {recipient : String} {amount : U64}
    (h : signTransfer crates seed index recipient amount nonce fee chainId validUntil head
      genesis randomness = .ok signed) :
    Signs crates seed index genesis (nativeBody crates seed index recipient (crates.putU64 amount)
      0 nonce nativeTransferMeter fee chainId validUntil false) signed := by
  obtain ⟨-, h⟩ := guard_ok h
  exact signNative_ok h

/-- A call with an asset that is signed has a body with its issuer. -/
theorem signAssetCall_ok {assetIssuer : String} {amount : U64}
    (h : signAssetCall crates seed index target args assetIssuer amount nonce meterLimit fee
      chainId validUntil transferFee head genesis randomness = .ok signed) :
    ∃ issuer, addressPayload crates.toCrates assetIssuer = .ok issuer
      ∧ Signs crates seed index genesis (assetBody crates seed index target args issuer amount
        nonce meterLimit fee chainId validUntil) signed := by
  obtain ⟨-, h⟩ := guard_ok h
  obtain ⟨-, h⟩ := guard_ok h
  obtain ⟨payload, hpayload, h⟩ := value_ok h
  obtain ⟨issuer, hissuer, h⟩ := bind_ok h
  obtain ⟨-, -, h⟩ := bind_ok h
  obtain ⟨-, -, h⟩ := bind_ok h
  obtain ⟨_, hgenesis, h⟩ := bind_ok h
  refine ⟨issuer, addressPayload_of_parse ?_, signFresh_ok rfl hgenesis h⟩
  rw [hpayload, ← exactly_ok hissuer]

/-- **A deadline** is the head and the blocks a transaction stays valid for, and
    the head was verified or is one the clock allows. -/
theorem boundedValidUntilFor_ok {clock : Option ChainClock} {verified : Bool}
    {wallSecs floorAgeSecs : U64} {floor : Option U64}
    (h : boundedValidUntilFor clock verified head wallSecs floor floorAgeSecs = .ok validUntil) :
    validUntil.val = head.val + 300
      ∧ (verified = true ∨ ∃ c, clock = some c ∧ head ≤ c.headCeiling wallSecs) := by
  obtain ⟨hreachable, h⟩ := guard_ok h
  obtain ⟨bound, hbound, h⟩ := bind_ok h
  obtain ⟨hceiling, h⟩ := guard_ok h
  obtain ⟨-, -, h⟩ := bind_ok h
  obtain ⟨-, -, h⟩ := bind_ok h
  cases h
  constructor
  · -- the sum is far from the largest word, so nothing is clamped
    have hhead : head.val ≤ 1099511627776 := not_lt.mp hreachable
    have hblocks : defaultValidityBlocks.val = 300 := rfl
    rw [saturatingAdd_val, hblocks]
    omega
  · cases verified with
    | true => exact Or.inl rfl
    | false =>
        cases clock with
        | none => exact nomatch hbound
        | some c =>
            cases hbound
            have hle : ¬ c.headCeiling wallSecs < head := by simpa using hceiling
            exact Or.inr ⟨c, rfl, not_lt.mp hle⟩

end

end QCoreSigning
