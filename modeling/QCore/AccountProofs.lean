import Mathlib
import QCore.MachineIntProofs
import QCore.ByteMemoryProofs
import QCore.FallibleProofs
import QCore.TraceProofs
import QCore.JsonProofs
import QCore.WireProofs
import QCore.CratesProofs
import QCore.AddressProofs
import QCore.CertificateProofs
import QCore.FinalityProofs
import QCore.RosterProofs
import QCore.ClientProofs
import QCore.TrustProofs
import QCore.HeadProofs
import QCore.ConfirmationProofs

/-! # Accounts under a certified state

    The state root of a certified header commits to every account.  A gateway
    that is asked for an account answers with a header, a certificate and a proof
    of what the account's key holds, which may be nothing: an account that was
    never used has no leaf. -/

namespace QCoreAccount

open QCoreMachineInt QCoreByteMemory QCoreFallible QCoreTrace QCoreTrace.Traced QCoreJson QCoreWire
  QCoreCrates QCoreAddress QCoreCertificate QCoreFinality QCoreRoster QCoreClient
  QCoreClient.Client QCoreTrust QCoreHead QCoreConfirmation

/-- The part of the chain's crates that accounts rest on: the key of an account
    in the state, and the leaf that a value encodes. -/
structure AccountCrates (AccountLeaf : Type) where
  accountStateKey : String → List UInt8
  decodeAccountLeaf : List UInt8 → Option AccountLeaf

variable {AccountLeaf : Type}

/-- An account under a certified header. -/
structure VerifiedAccount (AccountLeaf : Type) where
  address : String
  header : FinalizedHeader
  account : Option AccountLeaf

/-- The account a proven value holds, none when the key holds nothing. -/
def accountOf (accounts : AccountCrates AccountLeaf) :
    Option (List UInt8) → Except String (Option AccountLeaf)
  | none => .ok none
  | some bytes => do
      let leaf ← okOr (accounts.decodeAccountLeaf bytes) "the proven account leaf is malformed"
      return some leaf

/-- An account that a proof shows under a header that a certificate proves final. -/
def verifyAccount (crates : Crates) (chain : Chain) (accounts : AccountCrates AccountLeaf)
    (chainId : U64) (genesisHash : Bytes 32) (epochLength : U64) (roster : VerifiedRoster)
    (address : String) (headerBytes certificateBytes proofBytes : List UInt8) :
    Except String (VerifiedAccount AccountLeaf) := do
  refuseIf (¬ validAddress crates address) "the address is not a Q1 address"
  let header ← verifyFinalityInEpoch chain chainId genesisHash epochLength roster headerBytes
    certificateBytes
  let proof ← okOr (chain.stateProof proofBytes) "the state proof is malformed"
  refuseIf (!chain.stateVerify (accounts.accountStateKey address) proof header.qRoot)
    "the account is not proven against the finalized state"
  let account ← accountOf accounts proof.value
  return { address, header, account }

section

variable (self : Client) (accounts : AccountCrates AccountLeaf)

/-- Ask for an account with its proof. -/
def accountProof (address : String) : ClientM Json := do
  let text ← self.rpc "get_account_proof" (Json.object [("address", .str address)]).render
  parse text

/-- Ask for an account and check it against the rosters that are trusted. -/
def verifiedAccount (address : String) : ClientM (VerifiedAccount AccountLeaf) := do
  let info ← self.nodeInfo
  let chainId ← checkedChain self info
  let answer ← accountProof self address
  let header ← hexField answer "header_bytes" "the account proof carries no header_bytes"
  let epoch ← epochOfHeader self header ((answer.get "epoch").bind Json.asU64)
  let trusted ← rosterForEpoch self chainId epoch
  let (genesisHash, members) ← okOr trusted
    "a verified balance needs a trusted validator roster, call trust_roster first"
  let epochLength ← epochLength self
  let certificate ← hexField answer "certificate" "the account proof carries no certificate"
  let proof ← hexField answer "proof" "the account proof carries no proof"
  verifyAccount self.crates.toCrates self.chain accounts chainId genesisHash epochLength
    { epoch, members } address header certificate proof

end

/-! ## What a verified account has behind it -/

section

variable {self : Client} {accounts : AccountCrates AccountLeaf} {chainId : U64}

/-- **An account that is verified** is proven under the state root of a header that is
    certified. -/
theorem verifyAccount_ok {crates : Crates} {chain : Chain} {genesis : Bytes 32} {length : U64}
    {roster : VerifiedRoster} {address : String}
    {headerBytes certificateBytes proofBytes : List UInt8} {v : VerifiedAccount AccountLeaf}
    (h : verifyAccount crates chain accounts chainId genesis length roster address headerBytes
      certificateBytes proofBytes = .ok v) :
    v.address = address ∧ validAddress crates address = true
      ∧ verifyFinalityInEpoch chain chainId genesis length roster headerBytes certificateBytes
        = .ok v.header
      ∧ ∃ proof, chain.stateProof proofBytes = some proof
        ∧ chain.stateVerify (accounts.accountStateKey address) proof v.header.qRoot = true
        ∧ accountOf accounts proof.value = .ok v.account := by
  obtain ⟨hvalid, h⟩ := guard_ok h
  obtain ⟨header, hheader, h⟩ := bind_ok h
  obtain ⟨proof, hproof, h⟩ := value_ok h
  obtain ⟨hproven, h⟩ := guard_ok h
  obtain ⟨account, haccount, h⟩ := bind_ok h
  cases h
  exact ⟨rfl, not_not.mp hvalid, hheader, proof, hproof, by simpa using hproven, haccount⟩

theorem accountProof_asks (address : String) : Asks (accountProof self address) :=
  within_bind (rpc_asks (by decide) _) (fun _ => within_ofExcept _)

/-- A chain that is accepted is the one that was asked for, and is a chain's name. -/
theorem checkedChain_ok {info : NodeInfo} (h : checkedChain self info = .ok chainId) :
    (∀ name, self.network.chainId = some name → info.chainId = name)
      ∧ checkedChainId self.crates.toCrates info.chainId = .ok chainId := by
  rw [checkedChain] at h
  split at h
  · next configured hconfigured =>
      obtain ⟨hsame, h⟩ := guard_ok h
      refine ⟨fun name hname => ?_, h⟩
      exact (not_not.mp hsame).trans (Option.some.inj (hconfigured.symm.trans hname))
  · next hnone => exact ⟨fun name hname => (nomatch hnone.symm.trans hname), h⟩

end

end QCoreAccount
