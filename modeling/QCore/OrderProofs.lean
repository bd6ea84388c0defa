import Mathlib
import QCore.MachineIntProofs
import QCore.ByteMemoryProofs
import QCore.FallibleProofs
import QCore.JsonProofs
import QCore.SessionStateProofs
import QCore.WireProofs
import QCore.CratesProofs
import QCore.AddressProofs
import QCore.ContractProofs

/-! # What a contract is asked and called with

    An order is signed for a nonce that its contract stores under the owner's
    signer, so a client asks the gateway for that slot first.  A deploy call
    carries a container and its parameters, and the contract it makes has an
    address that follows from the deployer and its nonce. -/

namespace QCoreOrder

open QCoreMachineInt QCoreByteMemory QCoreFallible QCoreJson QCoreSession QCoreWire QCoreCrates
  QCoreAddress QCoreContract

/-- `QTVNONCE`, in bytes. -/
def nonceTag : List UInt8 := [81, 84, 86, 78, 79, 78, 67, 69]

/-- `QDEPLOY2`, in bytes. -/
def deployParamsTag : List UInt8 := [81, 68, 69, 80, 76, 79, 89, 50]

/-- `QGENSNTL`, in bytes. -/
def genesisParamSentinel : List UInt8 := [81, 71, 69, 78, 83, 78, 84, 76]

/-- `qtv/vm/contract/`, in bytes. -/
def vmContractTag : List UInt8 :=
  [113, 116, 118, 47, 118, 109, 47, 99, 111, 110, 116, 114, 97, 99, 116, 47]

/-- How long an order may live. -/
def maxOrderLifetimeSecs : U64 := 86400

/-! ## Orders -/

/-- Where an entry of a contract expects the words of an order. -/
structure OrderLayout where
  schemeOff : U64
  ptrOff : U64
  expiryOff : U64
  fieldOffs : List U64
  regionOff : U64
  expiry : U64
  layoutHash : Bytes 32

/-- An order expires in the future, and soon. -/
def checkOrderExpiry (expiry nowSecs : U64) : Except String Unit := do
  refuseIf (expiry = 0 ∨ expiry ≤ nowSecs) "the order expiry must lie in the future"
  refuseIf (maxOrderLifetimeSecs < saturatingSub expiry nowSecs)
    "the order expiry must lie within 24 hours"

section

variable (crates : Crates)

/-- The address that an owner's orders are of. -/
def orderSigner (ownerSeed : Bytes seedLen) (ownerIndex : U64) : Bytes 32 :=
  let seed := crates.accountSeed ownerSeed crates.schemeLattice ownerIndex
  let (publicKey, _) := crates.keygenInto seed
  signerAddress crates crates.schemeLattice publicKey

/-- An order of words, laid out as the entry expects. -/
def buildSignedOrderCall (chainId : U64) (genesis : Bytes 32) (contract : String)
    (selector : Bytes 4) (layout : OrderLayout) (fields : List U64) (ownerSeed : Bytes seedLen)
    (ownerIndex nonce : U64) (randomness : Except String (Bytes 32)) :
    Except String SignedOrderCall := do
  refuseIf (fields.length ≠ layout.fieldOffs.length)
    s!"the order carries {fields.length} field values but the entry layout expects {layout.fieldOffs.length}"
  let typed := List.zipWith (fun offset value => { offset, value := .word value : FieldArg })
    layout.fieldOffs fields
  buildTypedOrderCall crates chainId genesis contract selector layout.layoutHash layout.schemeOff
    layout.ptrOff layout.expiryOff layout.regionOff typed ownerSeed ownerIndex nonce layout.expiry
    randomness

/-- An order signs for a contract of a chain, and for the nonce it names. -/
structure Orders (chainId : U64) (genesis : Bytes 32) (contract : String) (signer : Bytes 32)
    (nonce : U64) (order : SignedOrderCall) : Prop where
  signer : order.signer = signer
  nonce : order.nonce = nonce
  message : ∃ id selector layoutHash values, contractId crates contract = .ok id
    ∧ order.message = canonicalOrderMessageTyped chainId genesis id selector order.signer
      order.nonce order.expiry layoutHash values

variable {crates} {chainId : U64} {genesis : Bytes 32} {contract : String} {selector : Bytes 4}
  {ownerSeed : Bytes seedLen} {ownerIndex nonce expiry : U64}
  {randomness : Except String (Bytes 32)} {order : SignedOrderCall}

/-- **An order that is built** is the owner's, for the nonce it was built with. -/
theorem buildTypedOrderCall_orders {layoutHash : Bytes 32}
    {schemeOff ptrOff expiryOff regionOff : U64} {fields : List FieldArg}
    (h : buildTypedOrderCall crates chainId genesis contract selector layoutHash schemeOff ptrOff
      expiryOff regionOff fields ownerSeed ownerIndex nonce expiry randomness = .ok order) :
    Orders crates chainId genesis contract (orderSigner crates ownerSeed ownerIndex) nonce
      order := by
  rw [buildTypedOrderCall] at h
  obtain ⟨id, hid, h⟩ := bind_ok h
  obtain ⟨-, h⟩ := guard_ok h
  obtain ⟨-, -, h⟩ := bind_ok h
  obtain ⟨-, -, h⟩ := bind_ok h
  obtain ⟨rnd, -, h⟩ := bind_ok h
  obtain ⟨signature, -, h⟩ := value_ok h
  obtain ⟨memLen, -, h⟩ := bind_ok h
  obtain ⟨memory, -, h⟩ := bind_ok h
  cases h
  exact ⟨rfl, rfl, id, selector, layoutHash, _, hid, rfl⟩

/-- An order over words that is built is the owner's, for the given nonce. -/
theorem buildSignedOrderCall_orders {layout : OrderLayout} {fields : List U64}
    (h : buildSignedOrderCall crates chainId genesis contract selector layout fields ownerSeed
      ownerIndex nonce randomness = .ok order) :
    Orders crates chainId genesis contract (orderSigner crates ownerSeed ownerIndex) nonce
      order := by
  obtain ⟨-, h⟩ := guard_ok h
  exact buildTypedOrderCall_orders h

end

/-! ## Storage -/

/-- A slot of a contract, as a gateway reports it. -/
structure StorageSlot where
  slot : Bytes 32
  value : U64

/-- The key of a signer's order nonce. -/
def nonceSlotKey (crates : Crates) (signer : Bytes 32) : Bytes 32 :=
  crates.sha3_256 (nonceTag ++ signer.val)

/-- The key of an entry of a map. -/
def mapSlotKey (crates : Crates) (mapDomainTag : U64) (keyAddress : Bytes 32) : Bytes 32 :=
  crates.sha3_256 (beBytes 8 mapDomainTag.val ++ keyAddress.val)

/-- The text that asks for a contract's slots. -/
def storageBody (address : String) : String := (Json.object [("address", .str address)]).render

/-- The text that asks for a balance. -/
def assetBalanceBody (issuer holder : String) : String :=
  (Json.object [("issuer", .str issuer), ("holder", .str holder)]).render

/-- The text that asks for slots by their keys. -/
def storageAtBody (address : String) (keys : List (Bytes 32)) : String :=
  (Json.object [("address", .str address),
    ("keys", .array (keys.map (fun key => .str (toHex key.val))))]).render

/-- The value of a storage slot: a digit string and nothing else. -/
def slotValueOf (item : Json) : Except String U64 :=
  match item.get "value" with
  | some (.str text) =>
      okOr ((canonicalDecimal text).bind (fun n => tryFrom _ n.val))
        "a storage slot value is not a canonical whole number"
  | some _ => .error "a storage slot value must be a digit string"
  | none => .error "a storage slot has no value"

/-- A slot, from an answer. -/
def parseStorageSlot (item : Json) : Except String StorageSlot := do
  let bytes ← hexField item "slot" "a storage slot has no slot key"
  let slot ← exactly 32 bytes "a storage slot key is not thirty two bytes"
  let value ← slotValueOf item
  return { slot, value }

/-- The slots of an answer. -/
def parseStorage (response : String) : Except String (List StorageSlot) := do
  let v ← parse response
  let items ← okOr ((v.get "slots").bind Json.asArray) "the storage response has no slots array"
  items.mapM parseStorageSlot

/-- The value of a slot, where it is reported. -/
def storageValueReported (slots : List StorageSlot) (key : Bytes 32) : Option U64 :=
  (slots.find? (fun slot => slot.slot = key)).map StorageSlot.value

/-- The value of a slot, where one that is not reported is zero. -/
def storageValue (slots : List StorageSlot) (key : Bytes 32) : U64 :=
  (storageValueReported slots key).getD 0

/-! ## Deploys -/

/-- A parameter of a deploy. -/
inductive DeployParam
  | address (a : Bytes 32)
  | u64 (v : U64)
  | u128 (v : U128)
  | guardians (gs : List (Bytes 32))

/-- The bytes of a parameter. -/
def DeployParam.bytes : DeployParam → List UInt8
  | .address a => a.val
  | .u64 v => beBytes 8 v.val
  -- the low word first, then the high one
  | .u128 v => beBytes 8 v.val ++ beBytes 8 (v.val / 2 ^ 64)
  | .guardians gs => gs.flatMap Subtype.val

/-- The arguments of a deploy: its container, and its parameters with a mark behind
    them. -/
def buildDeployCall (container : List UInt8) (params : List DeployParam) : List UInt8 :=
  let region := params.flatMap DeployParam.bytes
  let region := if params = [] then region else region ++ genesisParamSentinel
  deployParamsTag ++ beBytes 4 container.length ++ container ++ region

/-- Where a deployer's contract of a nonce is. -/
def contractAddress (crates : TxCrates) (deployer : String) (nonce : U64) : Option String :=
  match addressPayload crates.toCrates deployer with
  | .ok payload =>
      crates.renderAddress
        (crates.sha3_256 (vmContractTag ++ payload.val ++ (beBytes 8 nonce.val).reverse))
  | .error _ => none

end QCoreOrder
