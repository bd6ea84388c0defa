import Mathlib
import QCore.MachineIntProofs
import QCore.ByteMemoryProofs
import QCore.FallibleProofs
import QCore.JsonProofs
import QCore.WireProofs
import QCore.CertificateProofs
import QCore.FinalityProofs

/-! # Rosters by epoch

    Validators serve for an epoch, a fixed number of blocks.  The header that
    seals an epoch commits to the roster of the next, so a client that trusts one
    roster can check the next: a certificate by the current roster for the sealing
    header, and a state proof of the commitment under it.

    `nextRoster_spec` says what one such step has shown, and `Chain` is any
    number of them. -/

namespace QCoreRoster

open QCoreMachineInt QCoreByteMemory QCoreFallible QCoreJson QCoreWire QCoreCertificate
  QCoreFinality

/-- A roster and its epoch. -/
@[ext]
structure VerifiedRoster where
  epoch : U64
  members : List RosterMember
  deriving DecidableEq

variable (chain : Chain)

/-- What a roster commits to. -/
def rosterEntries (members : List RosterMember) : List RosterEntry :=
  members.map (fun m =>
    { id := m.id, stake := m.stake, attestPk := m.attestPk, rootDigest := m.root.digest
      rootSlots := m.root.slots })

/-- The commitment to a roster. -/
def rosterCommitmentOf (epoch : U64) (members : List RosterMember) : List UInt8 :=
  chain.rosterCommitment epoch (rosterEntries members)

/-- A roster is its entries. -/
theorem rosterEntries_injective : Function.Injective rosterEntries := by
  refine List.map_injective_iff.mpr ?_
  rintro ⟨id, stake, attestPk, digest, slots⟩ ⟨id', stake', attestPk', digest', slots'⟩ h
  cases h
  rfl

/-! ## Epochs and heights -/

/-- The epoch of a height. -/
def epochOf (height epochLength : U64) : Except String U64 := do
  refuseIf (epochLength = 0) "the epoch length must be at least one block"
  return height / epochLength

/-- The height that header bytes name. -/
def headerHeight (headerBytes : List UInt8) : Except String U64 := do
  let header ← okOr (chain.headerFromBytes headerBytes) "the header bytes are malformed"
  return header.height

/-- A header that is final under the roster of its own epoch. -/
def verifyFinalityInEpoch (chainId : U64) (genesisHash : Bytes 32) (epochLength : U64)
    (roster : VerifiedRoster) (headerBytes certificateBytes : List UInt8) :
    Except String FinalizedHeader := do
  let height ← headerHeight chain headerBytes
  let epoch ← epochOf height epochLength
  refuseIf (epoch ≠ roster.epoch)
    s!"the header lies in epoch {epoch} but the roster offered to certify it is the roster of epoch {roster.epoch}, refusing a roster from another epoch"
  verifyFinality chain chainId genesisHash headerBytes certificateBytes roster.members

/-- The last height of an epoch. -/
def sealingHeight (epoch epochLength : U64) : Except String U64 := do
  refuseIf (epochLength = 0) "the epoch length must be at least one block"
  okOr ((checkedAdd epoch 1).bind (fun next => (checkedMul next epochLength).bind
    (fun start => checkedSub start 1))) "the roster epoch is at its limit"

/-- A roster that the last block of the epoch before commits to. -/
def verifyNextRoster (chainId : U64) (genesisHash : Bytes 32) (epochLength : U64)
    (current : VerifiedRoster) (headerBytes certificateBytes : List UInt8)
    (nextMembers : List RosterMember) (proofBytes : List UInt8) :
    Except String VerifiedRoster := do
  refuseIf (nextMembers = [] ∨ maxRoster < nextMembers.length)
    "the next validator roster is empty or too large"
  let next ← okOr (checkedAdd current.epoch 1) "the roster epoch is at its limit"
  let sealing ← sealingHeight current.epoch epochLength
  let height ← headerHeight chain headerBytes
  refuseIf (height ≠ sealing)
    s!"the roster for epoch {next} must be proven at height {sealing}, the block that seals epoch {current.epoch}, not at height {height}"
  let header ← verifyFinalityInEpoch chain chainId genesisHash epochLength current headerBytes
    certificateBytes
  let proof ← okOr (chain.stateProof proofBytes) "the state proof is malformed"
  let expected := rosterCommitmentOf chain next nextMembers
  refuseIf (proof.value ≠ some expected)
    s!"the roster offered for epoch {next} is not the one the chain committed"
  refuseIf (!chain.stateVerify (chain.rosterCommitmentKey next) proof header.qRoot)
    s!"the roster commitment for epoch {next} is not proven against the finalized state"
  return { epoch := next, members := nextMembers }

/-! ## Reading a roster -/

/-- A field of digits as a 64-bit number. -/
def rosterDigits (item : Json) (key : String) : Except String U64 := do
  let text ← okOr ((item.get key).bind Json.asStr)
    s!"a roster member needs {key} as a digit string"
  okOr ((canonicalDecimal text).bind (fun n => tryFrom _ n.val))
    s!"a roster {key} is not a canonical whole number in range"

/-- A validator, from an answer. -/
def rosterMember (item : Json) : Except String RosterMember := do
  let id ← okOr ((item.get "id").bind Json.asU64) "a roster member needs a numeric id"
  let attestPk ← hexField item "attest_pk" "a roster member needs an attest_pk"
  let root ← hexField item "root" "a roster member needs its sortition root"
  let digest ← exactly 32 root "a roster root is 32 bytes of hex"
  let stake ← rosterDigits item "stake"
  let slots ← rosterDigits item "root_slots"
  return { id, stake, attestPk, root := { digest, slots } }

/-- A roster, from an answer. -/
def parseRoster (text : String) : Except String (List RosterMember) := do
  let parsed ← parse text
  let items ← okOr parsed.asArray "the validator roster must be a JSON array"
  refuseIf (maxRoster < items.length) "the validator roster is too large"
  items.mapM rosterMember

/-! ## What one step has shown -/

section

variable {chain} {chainId epochLength : U64} {genesisHash : Bytes 32}
  {headerBytes certificateBytes proofBytes : List UInt8}
  {current next : VerifiedRoster} {members : List RosterMember}

theorem headerHeight_ok {height : U64} (h : headerHeight chain headerBytes = .ok height) :
    ∃ header, chain.headerFromBytes headerBytes = some header ∧ header.height = height := by
  obtain ⟨header, hheader, h⟩ := value_ok h
  cases h
  exact ⟨header, hheader, rfl⟩

/-- A header accepted in an epoch is accepted by its roster, and its height lies
    in the epoch. -/
theorem verifyFinalityInEpoch_ok {finalized : FinalizedHeader}
    (h : verifyFinalityInEpoch chain chainId genesisHash epochLength current headerBytes
      certificateBytes = .ok finalized) :
    verifyFinality chain chainId genesisHash headerBytes certificateBytes current.members
        = .ok finalized
      ∧ headerHeight chain headerBytes = .ok finalized.height
      ∧ epochOf finalized.height epochLength = .ok current.epoch := by
  obtain ⟨height, hheight, h⟩ := bind_ok h
  obtain ⟨epoch, hepoch, h⟩ := bind_ok h
  obtain ⟨hsame, h⟩ := guard_ok h
  obtain ⟨header, envelope, attestations, hacc⟩ := accepted_spec h
  obtain ⟨header', hheader', hheight'⟩ := headerHeight_ok hheight
  rw [hacc.parsed] at hheader'
  cases hheader'
  rw [hacc.result.1, hheight']
  exact ⟨h, hheight, not_not.mp hsame ▸ hepoch⟩

/-- What a step from one roster to the next has shown. -/
structure NextRoster (chain : Chain) (chainId : U64) (genesisHash : Bytes 32) (epochLength : U64)
    (current next : VerifiedRoster) (headerBytes certificateBytes : List UInt8)
    (header : FinalizedHeader) (proof : StateProof) : Prop where
  epoch : next.epoch.val = current.epoch.val + 1
  sealing : sealingHeight current.epoch epochLength = .ok header.height
  certified : verifyFinality chain chainId genesisHash headerBytes certificateBytes
    current.members = .ok header
  committed : proof.value = some (rosterCommitmentOf chain next.epoch next.members)
  proven : chain.stateVerify (chain.rosterCommitmentKey next.epoch) proof header.qRoot = true

/-- A roster that is accepted is the next one, by a header and a proof. -/
theorem nextRoster_spec
    (h : verifyNextRoster chain chainId genesisHash epochLength current headerBytes
      certificateBytes members proofBytes = .ok next) :
    ∃ header proof, NextRoster chain chainId genesisHash epochLength current next headerBytes
      certificateBytes header proof ∧ next.members = members
      ∧ chain.stateProof proofBytes = some proof := by
  obtain ⟨-, h⟩ := guard_ok h
  obtain ⟨epoch, hepoch, h⟩ := value_ok h
  obtain ⟨sealing, hsealing, h⟩ := bind_ok h
  obtain ⟨height, hheight, h⟩ := bind_ok h
  obtain ⟨hsame, h⟩ := guard_ok h
  obtain ⟨header, hheader, h⟩ := bind_ok h
  obtain ⟨proof, hproof, h⟩ := value_ok h
  obtain ⟨hvalue, h⟩ := guard_ok h
  obtain ⟨hproven, h⟩ := guard_ok h
  cases h
  obtain ⟨hcertified, hheight', -⟩ := verifyFinalityInEpoch_ok hheader
  have hat : header.height = sealing := by
    rw [hheight] at hheight'
    cases hheight'
    exact not_not.mp hsame
  exact ⟨header, proof,
    { epoch := checkedAdd_eq_some.mp hepoch
      sealing := hat ▸ hsealing
      certified := hcertified
      committed := not_not.mp hvalue
      proven := by simpa using hproven }, rfl, hproof⟩

end

/-! ## Any number of steps -/

/-- One successful check of a roster against the one before it, proven in a header
    at the sealing height. -/
def Step (chain : Chain) (chainId : U64) (genesisHash : Bytes 32) (epochLength : U64)
    (current next : VerifiedRoster) : Prop :=
  ∃ headerBytes certificateBytes members proofBytes header proof,
    verifyNextRoster chain chainId genesisHash epochLength current headerBytes certificateBytes
      members proofBytes = .ok next
    ∧ NextRoster chain chainId genesisHash epochLength current next headerBytes certificateBytes
      header proof

/-- A roster joined to an anchor by so many steps. -/
inductive Joined (chain : Chain) (chainId : U64) (genesisHash : Bytes 32) (epochLength : U64)
    (anchor : VerifiedRoster) : Nat → VerifiedRoster → Prop
  | anchor : Joined chain chainId genesisHash epochLength anchor 0 anchor
  | next {n : Nat} {current next : VerifiedRoster} :
      Joined chain chainId genesisHash epochLength anchor n current →
      Step chain chainId genesisHash epochLength current next →
      Joined chain chainId genesisHash epochLength anchor (n + 1) next

section

variable {chain} {chainId epochLength : U64} {genesisHash : Bytes 32}
  {anchor roster : VerifiedRoster} {n : Nat}

/-- A roster that is accepted is a step from the current one. -/
theorem step_of_ok {current next : VerifiedRoster}
    {headerBytes certificateBytes proofBytes : List UInt8} {members : List RosterMember}
    (h : verifyNextRoster chain chainId genesisHash epochLength current headerBytes
      certificateBytes members proofBytes = .ok next) :
    Step chain chainId genesisHash epochLength current next := by
  obtain ⟨header, proof, hnext, -⟩ := nextRoster_spec h
  exact ⟨_, _, _, _, header, proof, h, hnext⟩

theorem Step.epoch {current next : VerifiedRoster}
    (h : Step chain chainId genesisHash epochLength current next) :
    next.epoch.val = current.epoch.val + 1 := by
  obtain ⟨_, _, _, _, _, _, -, hnext⟩ := h
  exact hnext.epoch

/-- The number of steps is the number of epochs from the anchor. -/
theorem Joined.epoch (h : Joined chain chainId genesisHash epochLength anchor n roster) :
    roster.epoch.val = anchor.epoch.val + n := by
  induction h with
  | anchor => rfl
  | next _ hstep ih =>
      rw [hstep.epoch, ih]
      rfl

/-- Steps from a roster that is joined go on from the anchor. -/
theorem Joined.trans {m : Nat} {roster' : VerifiedRoster}
    (h : Joined chain chainId genesisHash epochLength anchor n roster)
    (h' : Joined chain chainId genesisHash epochLength roster m roster') :
    Joined chain chainId genesisHash epochLength anchor (n + m) roster' := by
  induction h' with
  | anchor => exact h
  | next _ hstep ih => exact ih.next hstep

/-- What a chain binds: a roster certifies one state root for a height, and a proof
    binds one value to a key under a root. -/
structure Binding (chain : Chain) (chainId : U64) (genesisHash : Bytes 32) : Prop where
  certified : ∀ {members headerBytes headerBytes' certificateBytes certificateBytes' header header'},
    verifyFinality chain chainId genesisHash headerBytes certificateBytes members = .ok header →
    verifyFinality chain chainId genesisHash headerBytes' certificateBytes' members = .ok header' →
    header.height = header'.height → header.qRoot = header'.qRoot
  proven : ∀ {key root} {proof proof' : StateProof}, chain.stateVerify key proof root = true →
    chain.stateVerify key proof' root = true → proof.value = proof'.value

/-- Two rosters of one epoch, joined to one anchor, that the chain commits to alike. -/
structure ShareCommitment (chain : Chain) (chainId : U64) (genesisHash : Bytes 32)
    (epochLength : U64) (anchor roster roster' : VerifiedRoster) : Prop where
  joined : ∃ n, Joined chain chainId genesisHash epochLength anchor n roster
    ∧ Joined chain chainId genesisHash epochLength anchor n roster'
  differ : roster ≠ roster'
  same : rosterCommitmentOf chain roster.epoch roster.members
    = rosterCommitmentOf chain roster'.epoch roster'.members

/-- A commitment to one list of entries is shared by none. -/
theorem not_shareCommitment {roster' : VerifiedRoster}
    (hcommitted : ∀ epoch, Function.Injective (chain.rosterCommitment epoch)) :
    ¬ ShareCommitment chain chainId genesisHash epochLength anchor roster roster' := by
  rintro ⟨⟨n, hjoined, hjoined'⟩, hdiffer, hsame⟩
  have hepoch : roster.epoch = roster'.epoch :=
    Fin.ext (hjoined.epoch.trans hjoined'.epoch.symm)
  rw [← hepoch] at hsame
  exact hdiffer (VerifiedRoster.ext hepoch (rosterEntries_injective (hcommitted _ hsame)))

/-- **Two rosters joined to one anchor** by as many steps are one roster, or two on
    the way share a commitment. -/
theorem Joined.unique {roster' : VerifiedRoster} (hbinding : Binding chain chainId genesisHash)
    (h : Joined chain chainId genesisHash epochLength anchor n roster)
    (h' : Joined chain chainId genesisHash epochLength anchor n roster') :
    roster = roster' ∨ ∃ between between',
      ShareCommitment chain chainId genesisHash epochLength anchor between between' := by
  induction h generalizing roster' with
  | anchor => cases h'; exact Or.inl rfl
  | @next m current next hprev hstep ih =>
      cases h' with
      | next hprev' hstep' =>
          obtain rfl | hshared := ih hprev'
          · have hjoined := hprev.next hstep
            have hjoined' := hprev'.next hstep'
            obtain ⟨_, _, _, _, header, proof, -, hnext⟩ := hstep
            obtain ⟨_, _, _, _, header', proof', -, hnext'⟩ := hstep'
            -- both headers seal the same epoch, so they carry one state root
            have hheight : header.height = header'.height :=
              Except.ok.inj (hnext.sealing.symm.trans hnext'.sealing)
            have hroot := hbinding.certified hnext.certified hnext'.certified hheight
            have hepoch := Fin.ext (hnext.epoch.trans hnext'.epoch.symm)
            have hvalue := hbinding.proven hnext.proven
              (by rw [hepoch, hroot]; exact hnext'.proven)
            rw [hnext.committed, hnext'.committed] at hvalue
            by_cases hsame : next = roster'
            · exact Or.inl hsame
            · exact Or.inr ⟨next, roster', ⟨_, hjoined, hjoined'⟩, hsame, Option.some.inj hvalue⟩
          · exact Or.inr hshared

end

end QCoreRoster
