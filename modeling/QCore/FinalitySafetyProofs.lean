import Mathlib
import QCore.MachineIntProofs
import QCore.ByteMemoryProofs
import QCore.FallibleProofs
import QCore.QuorumProofs
import QCore.CertificateProofs
import QCore.FinalityProofs

/-! # Two certificates share a third

    Two headers accepted against one roster were each signed by more than two
    thirds of the active stake, so more than a third of it signed both.  When the
    headers differ at one height, those validators have signed two blocks of that
    height, and each of their signatures is in a certificate for all to see. -/

namespace QCoreFinalitySafety

open QCoreMachineInt QCoreByteMemory QCoreFallible QCoreQuorum QCoreCertificate QCoreFinality

/-- The members that attest in both of two certificates. -/
def attestingBoth (active : List RosterMember) (attestations attestations' : List Attestation) :
    List RosterMember :=
  active.filter (fun m => m.id ∈ attesters attestations && m.id ∈ attesters attestations')

/-- A block is of the height and holds the header hash it is made with. -/
def NamesBlocks (chain : Chain) : Prop :=
  ∀ height hash parent, (chain.newBlock height hash parent).height = height
    ∧ (chain.newBlock height hash parent).val = hash

/-- A validator's signature over a block, verified. -/
def SignedBlock (chain : Chain) (chainId : U64) (genesisHash : Bytes 32) (member : RosterMember)
    (block : Block) (attestations : List Attestation) : Prop :=
  ∃ a ∈ attestations, a.fromId = member.id ∧ a.block = block
    ∧ chain.verify member.attestPk (messageOf chain chainId genesisHash a) a.sig
        chain.attestContext = true

section

variable {chain : Chain} {chainId : U64} {genesisHash : Bytes 32}
  {headerBytes headerBytes' certificateBytes certificateBytes' : List UInt8}
  {roster : List RosterMember} {finalized finalized' : FinalizedHeader}
  {header header' : Header} {envelope envelope' : Envelope}
  {attestations attestations' : List Attestation}

/-- A member that attests in an accepted certificate signed the block it names. -/
theorem signedBlock_of_attesting
    (h : Accepted chain chainId genesisHash headerBytes certificateBytes roster finalized header
      envelope attestations)
    {member : RosterMember} (hmember : member ∈ activeSet chain roster)
    (hattests : member.id ∈ attesters attestations) :
    SignedBlock chain chainId genesisHash member envelope.block attestations := by
  obtain ⟨a, ha, hid⟩ := List.mem_map.mp hattests
  obtain ⟨m, hm⟩ := h.attested a ha
  obtain ⟨hin, hmid⟩ := memberOf_some hm.found
  -- ids are distinct in the active set, so the member found is this one
  have hsame : m = member :=
    List.inj_on_of_nodup_map (activeSet_distinct h.distinct) hin hmember (hmid.trans hid)
  exact ⟨a, ha, hid, hm.block, hsame ▸ hm.verified⟩

/-- More than a third of the active stake attests in both certificates. -/
theorem attestingBoth_enough
    (h : Accepted chain chainId genesisHash headerBytes certificateBytes roster finalized header
      envelope attestations)
    (h' : Accepted chain chainId genesisHash headerBytes' certificateBytes' roster finalized'
      header' envelope' attestations') :
    stakeOf (activeSet chain roster)
      < 3 * stakeOf (attestingBoth (activeSet chain roster) attestations attestations') := by
  have hmeet := quorums_meet h.enough h'.enough
  have hmeet : 2 * 2 * stakeOf (activeSet chain roster)
      < 3 * stakeOf (activeSet chain roster)
        + 3 * stakeOf (attestingBoth (activeSet chain roster) attestations attestations') := hmeet
  omega

/-- Headers with different hashes are named by different blocks. -/
theorem blocks_differ (hnames : NamesBlocks chain)
    (h : Accepted chain chainId genesisHash headerBytes certificateBytes roster finalized header
      envelope attestations)
    (h' : Accepted chain chainId genesisHash headerBytes' certificateBytes' roster finalized'
      header' envelope' attestations')
    (hdiffer : header.hash ≠ header'.hash) : envelope.block ≠ envelope'.block := by
  intro hblock
  rw [h.names, h'.names] at hblock
  have hval := congrArg Block.val hblock
  rw [(hnames _ _ _).2, (hnames _ _ _).2] at hval
  exact hdiffer hval

theorem block_height (hnames : NamesBlocks chain)
    (h : Accepted chain chainId genesisHash headerBytes certificateBytes roster finalized header
      envelope attestations) : envelope.block.height = header.height := by
  rw [h.names, (hnames _ _ _).1]

/-- **Two accepted certificates share more than a third of the active stake.**
    If they are for different headers of one height, either the two headers are
    a collision of the header hash, or every validator the certificates share has
    a verified signature over two different blocks of that height. -/
theorem accepted_certificates_share_a_third (hnames : NamesBlocks chain)
    (h : verifyFinality chain chainId genesisHash headerBytes certificateBytes roster
      = .ok finalized)
    (h' : verifyFinality chain chainId genesisHash headerBytes' certificateBytes' roster
      = .ok finalized') :
    ∃ header header' envelope envelope' attestations attestations',
      Accepted chain chainId genesisHash headerBytes certificateBytes roster finalized header
        envelope attestations
      ∧ Accepted chain chainId genesisHash headerBytes' certificateBytes' roster finalized'
        header' envelope' attestations'
      ∧ stakeOf (activeSet chain roster)
          < 3 * stakeOf (attestingBoth (activeSet chain roster) attestations attestations')
      ∧ (header.height = header'.height → header ≠ header' →
          header.hash = header'.hash ∨
          ∀ member ∈ attestingBoth (activeSet chain roster) attestations attestations',
            ∃ block block', block ≠ block' ∧ block.height = header.height
              ∧ block'.height = header.height
              ∧ SignedBlock chain chainId genesisHash member block attestations
              ∧ SignedBlock chain chainId genesisHash member block' attestations') := by
  obtain ⟨header, envelope, attestations, hacc⟩ := accepted_spec h
  obtain ⟨header', envelope', attestations', hacc'⟩ := accepted_spec h'
  refine ⟨header, header', envelope, envelope', attestations, attestations', hacc, hacc',
    attestingBoth_enough hacc hacc', ?_⟩
  intro hheight hdiffer
  by_cases hhash : header.hash = header'.hash
  · exact Or.inl hhash
  · right
    intro member hmember
    obtain ⟨hactive, hboth⟩ := List.mem_filter.mp hmember
    rw [Bool.and_eq_true, decide_eq_true_iff, decide_eq_true_iff] at hboth
    exact ⟨envelope.block, envelope'.block, blocks_differ hnames hacc hacc' hhash,
      block_height hnames hacc, hheight ▸ block_height hnames hacc',
      signedBlock_of_attesting hacc hactive hboth.1,
      signedBlock_of_attesting hacc' hactive hboth.2⟩

end

/-! ## A roster of one -/

/-- One byte over and over. -/
def filled (b : UInt8) : Bytes 32 := ⟨List.replicate 32 b, List.length_replicate⟩

/-- A small chain over the plain encoding: a header is its height and one byte of hash,
    and every signature and committee proof holds. -/
def plainChain : Chain where
  minSelfStake := 1
  maxActiveValidators := 100
  publicKeyBytes := 1952
  signatureBytes := 3309
  preimageBytes := 32
  nodeBytes := 32
  getU8 := plainGetU8
  getU64 := plainGetU64
  getU128 := fun _ => none
  getBytes := plainGetBytes
  headerFromBytes
    | [height, b] => some {
        height := u64From height, hash := filled b, parentHash := filled 0, qRoot := filled b
        transactionRoot := filled b, eventRoot := filled b, time := 0 }
    | _ => none
  newBlock := fun height hash parent => ⟨height, hash, parent, 0⟩
  publicKeyIsDegenerate := fun _ => false
  attestationMessage := fun _ _ _ _ _ _ block => block.val.val
  attestContext := []
  verify := fun _ _ _ _ => true
  verifyMembership := fun _ _ _ _ => true
  stateProof := fun _ => none
  stateVerify := fun _ _ _ => false
  rosterCommitment := fun _ _ => []
  rosterCommitmentKey := fun _ => []
  verifyInclusion := fun _ _ _ => false
  renderTx := fun _ => none

/-- The one validator of a roster. -/
def soleValidator : RosterMember :=
  { id := 7, stake := 10, attestPk := List.replicate 1952 1, root := ⟨filled 0, 64⟩ }

/-- A block of height one, with a hash of one byte. -/
def soleBlock (b : UInt8) : Block := { height := 1, val := filled b, parent := .genesis, cost := 0 }

/-- What a certificate for it names. -/
def soleEnvelope (b : UInt8) : Envelope :=
  { height := 1, slot := 3, block := soleBlock b, committee := filled 0 }

/-- What the validator signs for it. -/
def soleAttestation (b : UInt8) : Attestation :=
  { fromId := 7, height := 1, slot := 3, view := 0, committee := filled 0, block := soleBlock b
    membership := { position := 3, preimage := (filled 0).val, siblings := [] }
    sig := List.replicate 3309 0 }

/-- A chain that reads certificates and checks attestations as the small one does,
    whatever it does with headers, leaves and its state. -/
structure PlainChecks (chain : Chain) : Prop where
  minSelfStake : chain.minSelfStake = 1
  maxActiveValidators : chain.maxActiveValidators = 100
  publicKeyBytes : chain.publicKeyBytes = 1952
  signatureBytes : chain.signatureBytes = 3309
  preimageBytes : chain.preimageBytes = 32
  getU8 : chain.getU8 = plainGetU8
  getU64 : chain.getU64 = plainGetU64
  getBytes : chain.getBytes = plainGetBytes
  newBlock : ∀ height hash parent, chain.newBlock height hash parent = ⟨height, hash, parent, 0⟩
  publicKeyIsDegenerate : ∀ key, chain.publicKeyIsDegenerate key = false
  verify : ∀ key message sig context, chain.verify key message sig context = true
  verifyMembership : ∀ root id slot membership,
    chain.verifyMembership root id slot membership = true

theorem plainChain_checks : PlainChecks plainChain := by
  constructor
  all_goals intros; rfl

/-- The certificate in which the validator attests to a block. -/
def soleCertificate (b : UInt8) : List UInt8 :=
  encodeCertificate (plainCodec plainChain rfl rfl rfl) (soleEnvelope b) [soleAttestation b] []

section

variable {chain : Chain}

/-- Every such chain reads the certificate. -/
theorem decode_soleCertificate (h : PlainChecks chain) (b : UInt8) :
    decodeCertificate chain (soleCertificate b)
      = .ok (soleEnvelope b, [soleAttestation b], []) := by
  have hfits : ∀ {n : Nat} {c : UInt8}, n ≤ 3309 →
      (List.replicate n c).length < 18446744073709551616 := by
    intro n c hn
    rw [List.length_replicate]
    omega
  refine decodeCertificate_encode (w := plainCodec chain h.getU8 h.getU64 h.getBytes)
    { committee := hfits (n := 32) (by omega)
      attestation := ?_
      fewAttestations := Nat.le_of_lt_succ (show 1 < 4097 by omega)
      attestationsSorted := List.pairwise_singleton _ _
      reveal := fun r hr => absurd hr List.not_mem_nil
      fewReveals := Nat.zero_le _
      revealsSorted := List.Pairwise.nil }
  intro a ha
  rw [List.mem_singleton] at ha
  subst ha
  exact ⟨⟨⟨⟨List.length_replicate.trans h.preimageBytes.symm, hfits (n := 32) (by omega)⟩,
      fun s hs => absurd hs List.not_mem_nil, Nat.zero_le _⟩,
    List.length_replicate.trans h.signatureBytes.symm, hfits (n := 3309) (by omega)⟩,
    hfits (n := 32) (by omega)⟩

/-- **The certificate of a roster of one** is accepted for a header of its height and
    hash. -/
theorem sole_accepted_on (h : PlainChecks chain) (chainId : U64) {b : UInt8}
    (headerBytes : List UInt8) {header : Header}
    (hparsed : chain.headerFromBytes headerBytes = some header) (hheight : header.height = 1)
    (hhash : header.hash = filled b) :
    ∃ finalized, verifyFinality chain chainId (filled 0) headerBytes (soleCertificate b)
      [soleValidator] = .ok finalized := by
  have hactive : activeSet chain [soleValidator] = [soleValidator] := by
    rw [activeSet, h.minSelfStake, h.maxActiveValidators]
    rfl
  have hkey : soleValidator.attestPk.length = chain.publicKeyBytes :=
    List.length_replicate.trans h.publicKeyBytes.symm
  have hmember : checkMember chain (∅, ∅) soleValidator
      = .ok ({7}, {soleValidator.attestPk}) :=
    guard_pass (Finset.notMem_empty _) (guard_pass (not_not.mpr hkey)
      (guard_pass (Finset.notMem_empty _) rfl))
  have hcount : countAttestation chain chainId (filled 0) [soleValidator] (soleEnvelope b) 0 (0, ∅)
      (soleAttestation b) = .ok (10, {7}) := by
    refine guard_pass ?_ (guard_pass (Finset.notMem_empty _) (value_pass rfl
      (guard_pass (not_not.mpr hkey) (guard_pass ?_ (guard_pass ?_ (guard_pass ?_ rfl))))))
    · rintro (h | h | h | h | h) <;> exact h rfl
    · rw [h.publicKeyIsDegenerate]
      exact Bool.false_ne_true
    · rw [h.verify]
      exact Bool.false_ne_true
    · rw [h.verifyMembership]
      rintro (h | h)
      · exact absurd h (by decide)
      · exact absurd h Bool.false_ne_true
  have hblock : chain.newBlock header.height header.hash (parentOf header) = soleBlock b := by
    rw [h.newBlock, hhash, parentOf, if_pos hheight, hheight]
    rfl
  refine ⟨_, guard_pass ?_ (bind_pass (bind_pass hmember rfl) (guard_pass ?_ (value_pass hparsed
    (bind_pass (decode_soleCertificate h b) (guard_pass ?_ (value_pass rfl
      (bind_pass (bind_pass (hactive.symm ▸ hcount) rfl) (bind_pass rfl
        (guard_pass ?_ rfl)))))))))⟩
  · rintro (h | h)
    · exact absurd h (List.cons_ne_nil _ _)
    · exact absurd h (by decide)
  · rw [hactive]; decide
  · rw [hblock, hheight]
    rintro (h | h) <;> exact h rfl
  · rw [hactive]; decide

end

/-- On the small chain it is accepted for the header of its byte. -/
theorem sole_accepted (b : UInt8) :
    ∃ finalized, verifyFinality plainChain 1 (filled 0) [1, b] (soleCertificate b) [soleValidator]
      = .ok finalized :=
  sole_accepted_on plainChain_checks 1 _ rfl rfl rfl

/-- With one validator that signs two blocks both are accepted. -/
theorem accepted_certificates_share_a_third_of_one :
    ∃ attestations attestations' block block', block ≠ block' ∧ block.height = 1
      ∧ block'.height = 1
      ∧ SignedBlock plainChain 1 (filled 0) soleValidator block attestations
      ∧ SignedBlock plainChain 1 (filled 0) soleValidator block' attestations' := by
  obtain ⟨finalized, h⟩ := sole_accepted 0
  obtain ⟨finalized', h'⟩ := sole_accepted 1
  obtain ⟨header, header', envelope, envelope', attestations, attestations', hacc, hacc', -,
    hdiffer⟩ := accepted_certificates_share_a_third (fun _ _ _ => ⟨rfl, rfl⟩) h h'
  -- the headers and the attestations are the ones that were encoded
  cases hacc.parsed
  cases hacc'.parsed
  obtain ⟨_, hdecoded⟩ := hacc.decoded
  obtain ⟨_, hdecoded'⟩ := hacc'.decoded
  rw [decode_soleCertificate plainChain_checks] at hdecoded hdecoded'
  cases hdecoded
  cases hdecoded'
  have hhash : filled 0 ≠ filled 1 := by decide
  rcases hdiffer rfl (fun h => hhash (congrArg Header.hash h)) with hsame | hsigned
  · exact absurd hsame hhash
  · exact ⟨_, _, hsigned soleValidator (List.mem_filter.mpr ⟨List.mem_cons_self, rfl⟩)⟩

end QCoreFinalitySafety
