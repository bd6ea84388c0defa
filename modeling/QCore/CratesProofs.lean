import QCore.MachineIntProofs
import QCore.ByteMemoryProofs

/-! # The crates outside the repository

    Addresses, hashes, keys, signatures and the chain's own encodings come from
    other crates.  The development takes them as the fields of one structure and
    proves its results for every choice of them; a result that relies on how one
    of them behaves says so in a hypothesis. -/

namespace QCoreCrates

open QCoreMachineInt QCoreByteMemory

/-- The length of a seed. -/
abbrev seedLen : Nat := 32

/-- What is used of the crates outside this repository. -/
structure Crates where
  /-- The payload of an address, for a string that is one. -/
  parseAddress : String → Option (List UInt8)
  chainIdFromName : String → U64
  mainnetChainId : U64
  sha3_256 : List UInt8 → Bytes 32
  /-- The seed of an account, from a seed, a scheme and an index. -/
  accountSeed : Bytes seedLen → UInt8 → U64 → Bytes 32
  schemeLattice : UInt8
  /-- The public key and the secret key of a module lattice seed. -/
  keygenInto : Bytes 32 → List UInt8 × List UInt8
  /-- A module lattice signature, over a secret key, a message, a context and
      fresh randomness. -/
  sign : List UInt8 → List UInt8 → List UInt8 → Bytes 32 → Option (List UInt8)
  vmVerifyContext : List UInt8

/-- The body of a transaction, as it is signed. -/
structure Body where
  sender : String
  nonce : U64
  meterLimit : U64
  fee : U128
  target : String
  args : List UInt8
  value : U64
  chainId : U64
  kind : UInt8
  /-- The issuer of the asset it carries, if it carries one. -/
  inAsset : Option (Bytes 32)
  validUntil : U64

/-- A signed transaction: its id and its encoding. -/
structure Wrapper where
  id : String
  bytes : List UInt8

/-- The crates that transactions and addresses come from. -/
structure TxCrates extends Crates where
  /-- The address of a payload. -/
  renderAddress : Bytes 32 → Option String
  /-- A full hash reaches the address floor. -/
  renders : ∀ payload, (renderAddress payload).isSome = true
  renderBlock : Bytes 32 → Option String
  /-- The address and the public key of an account, by its seed and index. -/
  accountAddress : Bytes seedLen → U64 → String
  accountPublicKey : Bytes seedLen → U64 → List UInt8
  putU64 : U64 → List UInt8
  /-- The key of a scalar slot of a contract. -/
  scalarSlotKey : U64 → Bytes 32
  kindTransfer : UInt8
  kindCall : UInt8
  /-- Sign a body for a genesis, as an account, with fresh randomness. -/
  trySignHedged : Bytes seedLen → U64 → Body → Bytes 32 → Bytes 32 → Option Wrapper

end QCoreCrates
