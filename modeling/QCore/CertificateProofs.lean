import Mathlib
import QCore.MachineIntProofs
import QCore.ByteMemoryProofs
import QCore.FallibleProofs
import QCore.DecoderProofs

/-! # Finality certificates

    A certificate names a block and carries the attestations of the validators
    that signed it, each with a proof of its place in the committee, and the
    committee reveals.  It comes from the network as bytes.

    The signature scheme, the committee membership proof, the header encoding
    and the byte encoding are the chain's own crates, and every result holds for
    whatever they do. -/

namespace QCoreCertificate

open QCoreMachineInt QCoreByteMemory QCoreFallible QCoreDecoder

/-- The tag of a genesis parent. -/
def parentGenesis : UInt8 := 0

/-- The tag of a parent with a hash. -/
def parentValue : UInt8 := 1

/-- The one stage that is supported. -/
def stageOne : UInt8 := 1

/-- The most attestations of a certificate. -/
def maxAttestations : U64 := 4096

/-- The most siblings of a credential. -/
def maxCredentialSiblings : U64 := 64

/-- The most reveals of a certificate. -/
def maxCommitteeReveals : U64 := 4096

/-! ## Validators, headers and certificates -/

/-- The sortition root of a validator. -/
structure Root where
  digest : Bytes 32
  slots : U64
  deriving DecidableEq

/-- A validator of a roster. -/
structure RosterMember where
  id : U64
  stake : U64
  attestPk : List UInt8
  root : Root
  deriving DecidableEq

/-- What the client reads of a header. -/
structure Header where
  height : U64
  hash : Bytes 32
  parentHash : Bytes 32
  qRoot : Bytes 32
  transactionRoot : Bytes 32
  eventRoot : Bytes 32
  time : U64
  deriving DecidableEq

/-- What a certified header says of its block. -/
structure FinalizedHeader where
  height : U64
  hash : Bytes 32
  parentHash : Bytes 32
  qRoot : Bytes 32
  transactionRoot : Bytes 32
  eventRoot : Bytes 32
  time : U64
  signedStake : U128
  totalStake : U128
  deriving DecidableEq

/-- The parent of a block. -/
inductive Parent
  | genesis
  | value (hash : Bytes 32)
  deriving DecidableEq

/-- A block, as a certificate names it. -/
structure Block where
  height : U64
  val : Bytes 32
  parent : Parent
  cost : U64
  deriving DecidableEq

/-- What a certificate is for. -/
structure Envelope where
  height : U64
  slot : U64
  block : Block
  committee : Bytes 32

/-- A place in a validator's sortition tree, with the path that proves it. -/
structure Credential where
  position : U64
  preimage : List UInt8
  siblings : List (List UInt8)

/-- A signature of one validator for a block. -/
structure Attestation where
  fromId : U64
  height : U64
  slot : U64
  view : U64
  committee : Bytes 32
  block : Block
  membership : Credential
  sig : List UInt8

/-- A proof of what a key holds in the state, `none` when it holds nothing. -/
structure StateProof where
  value : Option (List UInt8)
  path : List UInt8

/-- The part of a validator that a roster commitment is to. -/
structure RosterEntry where
  id : U64
  stake : U64
  attestPk : List UInt8
  rootDigest : Bytes 32
  rootSlots : U64
  deriving DecidableEq

/-- The crates of the chain that finality rests on.  A decoder reads from the
    front of the unread bytes and leaves the rest. -/
structure Chain where
  minSelfStake : U64
  maxActiveValidators : Nat
  publicKeyBytes : Nat
  signatureBytes : Nat
  preimageBytes : Nat
  nodeBytes : Nat
  getU8 : List UInt8 → Option (UInt8 × List UInt8)
  getU64 : List UInt8 → Option (U64 × List UInt8)
  getU128 : List UInt8 → Option (U128 × List UInt8)
  getBytes : List UInt8 → Option (List UInt8 × List UInt8)
  headerFromBytes : List UInt8 → Option Header
  /-- The block of a height, a header hash and a parent. -/
  newBlock : U64 → Bytes 32 → Parent → Block
  publicKeyIsDegenerate : List UInt8 → Bool
  /-- The message a validator signs: chain, genesis, height, slot, view,
      committee and block. -/
  attestationMessage : U64 → Bytes 32 → U64 → U64 → U64 → Bytes 32 → Block → List UInt8
  attestContext : List UInt8
  /-- Whether a signature verifies, for a key, a message, a signature and a context. -/
  verify : List UInt8 → List UInt8 → List UInt8 → List UInt8 → Bool
  /-- Whether a validator sits in the committee of a slot, by its root. -/
  verifyMembership : Root → U64 → U64 → Credential → Bool
  stateProof : List UInt8 → Option StateProof
  /-- Whether a proof holds for a key under a state root. -/
  stateVerify : List UInt8 → StateProof → Bytes 32 → Bool
  rosterCommitment : U64 → List RosterEntry → List UInt8
  rosterCommitmentKey : U64 → List UInt8
  /-- Whether a leaf sits under a Merkle root, by the siblings on its path and
      the side each is on. -/
  verifyInclusion : Bytes 32 → List UInt8 → List (Bytes 32 × Bool) → Bool
  /-- The text of a transaction id. -/
  renderTx : Bytes 32 → Option String

variable (chain : Chain)

/-! ## Decoding a certificate -/

/-- The refusal of bytes that are not a certificate. -/
def codec : String := "the certificate bytes are malformed"

/-- A byte of a certificate. -/
def getU8 : Decode String UInt8 := field chain.getU8 codec

/-- A number of a certificate. -/
def getU64 : Decode String U64 := field chain.getU64 codec

/-- A field of a fixed width. -/
def readArray (n : Nat) : Decode String (Bytes n) := do
  let bytes ← field chain.getBytes codec
  if h : bytes.length = n then return ⟨bytes, h⟩
  else throw "a fixed certificate field has the wrong length"

/-- A hash, byte by byte. -/
def readValue : Decode String (Bytes 32) := times (getU8 chain) 32

/-- The parent of a block, from its tag and its hash. -/
def decodeParent (tag : UInt8) (value : Bytes 32) : Except String Parent :=
  if tag = parentGenesis ∧ value.val = List.replicate 32 0 then .ok .genesis
  else if tag = parentValue then .ok (.value value)
  else .error "the certificate block parent tag is unknown"

/-- A block, field by field. -/
def decodeBlock : Decode String Block := do
  let height ← getU64 chain
  let val ← readValue chain
  let parentTag ← getU8 chain
  let parentValue ← readValue chain
  let parent ← decodeParent parentTag parentValue
  let cost ← getU64 chain
  return { height, val, parent, cost }

/-- An envelope, field by field. -/
def decodeEnvelope : Decode String Envelope := do
  let height ← getU64 chain
  let slot ← getU64 chain
  let block ← decodeBlock chain
  let committee ← readArray chain 32
  return { height, slot, block, committee }

/-- A credential, with no more siblings than the cap. -/
def decodeCredential : Decode String Credential := do
  let position ← getU64 chain
  let preimage ← readArray chain chain.preimageBytes
  let count ← getU64 chain
  refuse (maxCredentialSiblings < count) "a credential path is too long"
  let siblings ← times (readArray chain chain.nodeBytes) count.val
  return { position, preimage := preimage.val, siblings := siblings.val.map (·.val) }

/-- An attestation, field by field. -/
def decodeAttestation : Decode String Attestation := do
  let fromId ← getU64 chain
  let height ← getU64 chain
  let slot ← getU64 chain
  let view ← getU64 chain
  let committee ← readArray chain 32
  let block ← decodeBlock chain
  let membership ← decodeCredential chain
  let sig ← readArray chain chain.signatureBytes
  return { fromId, height, slot, view, committee, block, membership, sig := sig.val }

/-- Whether some neighbour has a smaller id than the one before it. -/
def outOfOrder : List Attestation → Bool
  | a :: b :: rest => b.fromId < a.fromId || outOfOrder (b :: rest)
  | _ => false

/-- The committee reveals, none with a smaller id than the last. -/
def decodeReveals (lastReveal : Option U64) : Nat → Decode String (List (U64 × Credential))
  | 0 => return []
  | n + 1 => do
      let id ← getU64 chain
      refuse (lastReveal.any (fun last => id < last))
        "the certificate committee reveals are out of order"
      let credential ← decodeCredential chain
      let rest ← decodeReveals (some id) n
      return (id, credential) :: rest

/-- A certificate: its envelope, its attestations in order, and its reveals. -/
def certificateDecoder : Decode String (Envelope × List Attestation × List (U64 × Credential)) := do
  let envelope ← decodeEnvelope chain
  let stage ← getU8 chain
  refuse (stage ≠ stageOne) "the certificate stage is not supported"
  let count ← getU64 chain
  refuse (maxAttestations < count) "the certificate carries too many attestations"
  let attestations ← times (decodeAttestation chain) count.val
  refuse (outOfOrder attestations.val) "the certificate attestations are out of order"
  let reveals ← getU64 chain
  refuse (maxCommitteeReveals < reveals) "the certificate carries too many committee reveals"
  let revealed ← decodeReveals chain none reveals.val
  return (envelope, attestations.val, revealed)

/-- A certificate is all of its bytes. -/
def decodeCertificate (bytes : List UInt8) :
    Except String (Envelope × List Attestation × List (U64 × Credential)) :=
  decodeAll (certificateDecoder chain) codec bytes

/-! ## Encoding one

    The repository only decodes.  The encoder below is what the decoder is the
    inverse of, over any byte encoding whose fields read back. -/

/-- Writers for the fields a decoder reads. -/
structure Codec (chain : Chain) where
  putU8 : UInt8 → List UInt8
  putU64 : U64 → List UInt8
  putBytes : List UInt8 → List UInt8
  /-- The byte strings that can be written. -/
  fits : List UInt8 → Prop
  getU8_put : ∀ b rest, chain.getU8 (putU8 b ++ rest) = some (b, rest)
  getU64_put : ∀ v rest, chain.getU64 (putU64 v ++ rest) = some (v, rest)
  getBytes_put : ∀ bytes rest, fits bytes →
    chain.getBytes (putBytes bytes ++ rest) = some (bytes, rest)

/-! A plain encoding: words most significant byte first, a string after its length. -/

/-- A plain reader of one byte. -/
def plainGetU8 : List UInt8 → Option (UInt8 × List UInt8)
  | [] => none
  | b :: rest => some (b, rest)

/-- A plain reader of eight bytes, most significant first. -/
def plainGetU64 (bytes : List UInt8) : Option (U64 × List UInt8) :=
  if 8 ≤ bytes.length then some (Fin.ofNat _ (ofBeBytes (bytes.take 8)), bytes.drop 8) else none

/-- A plain reader of bytes behind their length. -/
def plainGetBytes (bytes : List UInt8) : Option (List UInt8 × List UInt8) := do
  let (n, rest) ← plainGetU64 bytes
  if n.val ≤ rest.length then some (rest.take n.val, rest.drop n.val) else none

/-- A number that was put high byte first is got back. -/
theorem plainGetU64_put (v : U64) (rest : List UInt8) :
    plainGetU64 (beBytes 8 v.val ++ rest) = some (v, rest) := by
  have hlen : (beBytes 8 v.val).length = 8 := length_beBytes 8 v.val
  rw [plainGetU64, if_pos (by rw [List.length_append]; omega), List.take_left' hlen,
    List.drop_left' hlen, ofBeBytes_beBytes]
  congr 2
  refine Fin.ext ?_
  have := v.isLt
  show v.val % 256 ^ 8 % 18446744073709551616 = v.val
  omega

/-- A chain that uses the plain encoding. -/
def plainCodec (chain : Chain) (h8 : chain.getU8 = plainGetU8) (h64 : chain.getU64 = plainGetU64)
    (hbytes : chain.getBytes = plainGetBytes) : Codec chain where
  putU8 b := [b]
  putU64 v := beBytes 8 v.val
  putBytes bytes := beBytes 8 bytes.length ++ bytes
  fits bytes := bytes.length < 18446744073709551616
  getU8_put b rest := by rw [h8]; rfl
  getU64_put v rest := by rw [h64, plainGetU64_put]
  getBytes_put bytes rest hfits := by
    rw [hbytes, List.append_assoc, plainGetBytes,
      plainGetU64_put ⟨bytes.length, hfits⟩ (bytes ++ rest)]
    show (if bytes.length ≤ (bytes ++ rest).length then _ else _) = _
    rw [if_pos (by rw [List.length_append]; omega), List.take_left, List.drop_left]

variable {chain} (w : Codec chain)

/-- A parent, as its tag and its hash. -/
def encodeParent : Parent → List UInt8
  | .genesis => w.putU8 parentGenesis ++ (List.replicate 32 0).flatMap w.putU8
  | .value hash => w.putU8 parentValue ++ hash.val.flatMap w.putU8

/-- A block, as it is decoded. -/
def encodeBlock (block : Block) : List UInt8 :=
  w.putU64 block.height ++ (block.val.val.flatMap w.putU8
    ++ (encodeParent w block.parent ++ w.putU64 block.cost))

/-- An envelope, as it is decoded. -/
def encodeEnvelope (envelope : Envelope) : List UInt8 :=
  w.putU64 envelope.height ++ (w.putU64 envelope.slot ++ (encodeBlock w envelope.block
    ++ w.putBytes envelope.committee.val))

/-- A credential, as it is decoded. -/
def encodeCredential (credential : Credential) : List UInt8 :=
  w.putU64 credential.position ++ (w.putBytes credential.preimage
    ++ (w.putU64 (Fin.ofNat _ credential.siblings.length)
      ++ credential.siblings.flatMap w.putBytes))

/-- An attestation, as it is decoded. -/
def encodeAttestation (a : Attestation) : List UInt8 :=
  w.putU64 a.fromId ++ (w.putU64 a.height ++ (w.putU64 a.slot ++ (w.putU64 a.view
    ++ (w.putBytes a.committee.val ++ (encodeBlock w a.block
      ++ (encodeCredential w a.membership ++ w.putBytes a.sig))))))

/-- A reveal, as it is decoded. -/
def encodeReveal (reveal : U64 × Credential) : List UInt8 :=
  w.putU64 reveal.1 ++ encodeCredential w reveal.2

/-- A certificate, as it is decoded. -/
def encodeCertificate (envelope : Envelope) (attestations : List Attestation)
    (reveals : List (U64 × Credential)) : List UInt8 :=
  encodeEnvelope w envelope ++ (w.putU8 stageOne
    ++ (w.putU64 (Fin.ofNat _ attestations.length) ++ (attestations.flatMap (encodeAttestation w)
      ++ (w.putU64 (Fin.ofNat _ reveals.length) ++ reveals.flatMap (encodeReveal w)))))

/-- A credential with fields of the right length. -/
structure WellFormedCredential (credential : Credential) : Prop where
  preimage : credential.preimage.length = chain.preimageBytes ∧ w.fits credential.preimage
  siblings : ∀ s ∈ credential.siblings, s.length = chain.nodeBytes ∧ w.fits s
  short : credential.siblings.length ≤ maxCredentialSiblings.val

/-- An attestation with fields of the right length. -/
structure WellFormedAttestation (a : Attestation) : Prop where
  membership : WellFormedCredential w a.membership
  sig : a.sig.length = chain.signatureBytes ∧ w.fits a.sig

/-! ## The round trip -/

variable {w}

theorem reads_u8 (b : UInt8) : Reads (getU8 chain) (w.putU8 b) b :=
  Reads.field (w.getU8_put b)

theorem reads_u64 (v : U64) : Reads (getU64 chain) (w.putU64 v) v :=
  Reads.field (w.getU64_put v)

/-- An array is read back. -/
theorem reads_array {n : Nat} (bytes : Bytes n) (hfits : w.fits bytes.val) :
    Reads (readArray chain n) (w.putBytes bytes.val) bytes := by
  have hread : Reads (field chain.getBytes codec) (w.putBytes bytes.val) bytes.val :=
    Reads.field (fun rest => w.getBytes_put bytes.val rest hfits)
  rw [← List.append_nil (w.putBytes bytes.val)]
  refine hread.bind ?_
  rw [dif_pos bytes.property]
  exact Reads.pure

theorem reads_value (value : Bytes 32) :
    Reads (readValue chain) (value.val.flatMap w.putU8) value :=
  Reads.times value.property (fun b _ => reads_u8 b)

/-- A length written and read back is itself, up to the largest word. -/
theorem ofNat_val {len : Nat} {bound : U64} (h : len ≤ bound.val) :
    (Fin.ofNat 18446744073709551616 len).val = len :=
  Nat.mod_eq_of_lt (Nat.lt_of_le_of_lt h bound.isLt)

/-- A block is read back. -/
theorem reads_block (block : Block) : Reads (decodeBlock chain) (encodeBlock w block) block := by
  obtain ⟨height, val, parent, cost⟩ := block
  refine (reads_u64 height).bind ((reads_value val).bind ?_)
  cases parent with
  | genesis =>
      -- the genesis tag stands before a zero value
      rw [encodeParent, List.append_assoc]
      have hzero : Reads (readValue chain) ((List.replicate 32 0).flatMap w.putU8)
          ⟨List.replicate 32 0, List.length_replicate⟩ := reads_value ⟨_, List.length_replicate⟩
      exact (reads_u8 parentGenesis).bind (hzero.bind (Reads.pure.bind_nil (reads_u64 cost).bind_pure))
  | value hash =>
      rw [encodeParent, List.append_assoc]
      exact (reads_u8 parentValue).bind
        ((reads_value hash).bind (Reads.pure.bind_nil (reads_u64 cost).bind_pure))

theorem reads_envelope (envelope : Envelope) (hcommittee : w.fits envelope.committee.val) :
    Reads (decodeEnvelope chain) (encodeEnvelope w envelope) envelope := by
  obtain ⟨height, slot, block, committee⟩ := envelope
  exact (reads_u64 height).bind ((reads_u64 slot).bind ((reads_block block).bind
    (reads_array committee hcommittee).bind_pure))

/-- Strings of one length are a list of fixed-length strings. -/
theorem exists_fixed_length {n : Nat} {l : List (List UInt8)} (h : ∀ s ∈ l, s.length = n) :
    ∃ fixed : List (Bytes n), fixed.map (·.val) = l := by
  induction l with
  | nil => exact ⟨[], rfl⟩
  | cons s rest ih =>
      obtain ⟨fixed, hfixed⟩ := ih (fun t ht => h t (List.mem_cons_of_mem _ ht))
      exact ⟨⟨s, h s List.mem_cons_self⟩ :: fixed, by rw [List.map_cons, hfixed]⟩

/-- A credential within its bounds is read back. -/
theorem reads_credential {credential : Credential} (h : WellFormedCredential w credential) :
    Reads (decodeCredential chain) (encodeCredential w credential) credential := by
  obtain ⟨position, preimage, siblings⟩ := credential
  obtain ⟨fixed, rfl⟩ := exists_fixed_length (fun s hs => (h.siblings s hs).1)
  have hcount := ofNat_val h.short
  have hlen : fixed.length = (Fin.ofNat 18446744073709551616 (fixed.map (·.val)).length).val := by
    rw [hcount, List.length_map]
  refine (reads_u64 position).bind ((reads_array ⟨preimage, h.preimage.1⟩ h.preimage.2).bind
    ((reads_u64 _).bind ((Reads.refuse ?_).bind_nil ?_)))
  · rw [Fin.lt_def, hcount]
    exact Nat.not_lt.mpr h.short
  · rw [List.flatMap_map]
    exact (Reads.times hlen (fun s hs =>
      reads_array s (h.siblings _ (List.mem_map_of_mem hs)).2)).bind_pure

/-- An attestation within its bounds is read back. -/
theorem reads_attestation {a : Attestation} (h : WellFormedAttestation w a)
    (hcommittee : w.fits a.committee.val) :
    Reads (decodeAttestation chain) (encodeAttestation w a) a := by
  obtain ⟨fromId, height, slot, view, committee, block, membership, sig⟩ := a
  exact (reads_u64 fromId).bind ((reads_u64 height).bind ((reads_u64 slot).bind
    ((reads_u64 view).bind ((reads_array committee hcommittee).bind ((reads_block block).bind
      ((reads_credential h.membership).bind
        (reads_array ⟨sig, h.sig.1⟩ h.sig.2).bind_pure))))))

/-- Reveals in ascending order, from the last one read on, read back. -/
theorem reads_reveals {reveals : List (U64 × Credential)} {lastReveal : Option U64}
    (hcredentials : ∀ r ∈ reveals, WellFormedCredential w r.2)
    (hsorted : (lastReveal.toList ++ reveals.map (·.1)).Pairwise (· ≤ ·)) :
    Reads (decodeReveals chain lastReveal reveals.length) (reveals.flatMap (encodeReveal w))
      reveals := by
  induction reveals generalizing lastReveal with
  | nil => exact Reads.pure
  | cons reveal rest ih =>
      obtain ⟨id, credential⟩ := reveal
      have hafter : ¬ lastReveal.any (fun last => id < last) = true := by
        cases lastReveal with
        | none => exact Bool.false_ne_true
        | some last =>
            have hle : last ≤ id := (List.pairwise_cons.mp hsorted).1 id List.mem_cons_self
            simpa using hle
      have hrest : ((some id).toList ++ rest.map (·.1)).Pairwise (· ≤ ·) :=
        (List.pairwise_append.mp hsorted).2.1
      rw [List.flatMap_cons, encodeReveal, List.append_assoc]
      exact (reads_u64 id).bind ((Reads.refuse hafter).bind_nil
        ((reads_credential (hcredentials _ List.mem_cons_self)).bind
          (ih (fun r hr => hcredentials r (List.mem_cons_of_mem _ hr)) hrest).bind_pure))

/-- Attestations in order are not refused for their order. -/
theorem outOfOrder_eq_false {attestations : List Attestation}
    (h : (attestations.map (·.fromId)).Pairwise (· ≤ ·)) : outOfOrder attestations = false := by
  induction attestations with
  | nil => rfl
  | cons a rest ih =>
      cases rest with
      | nil => rfl
      | cons b rest =>
          have hab : a.fromId ≤ b.fromId := (List.pairwise_cons.mp h).1 _ List.mem_cons_self
          rw [outOfOrder, ih (List.pairwise_cons.mp h).2, Bool.or_false]
          exact decide_eq_false (not_lt.mpr hab)

/-- Senders that no neighbour steps back from are in ascending order. -/
theorem pairwise_of_outOfOrder {attestations : List Attestation}
    (h : outOfOrder attestations = false) :
    (attestations.map (·.fromId)).Pairwise (· ≤ ·) := by
  induction attestations with
  | nil => exact List.Pairwise.nil
  | cons a rest ih =>
      cases rest with
      | nil => exact List.pairwise_singleton _ _
      | cons b rest =>
          rw [outOfOrder, Bool.or_eq_false_iff] at h
          have hab : a.fromId ≤ b.fromId := not_lt.mp (of_decide_eq_false h.1)
          have hrest := ih h.2
          refine List.pairwise_cons.mpr ⟨?_, hrest⟩
          intro id hid
          rcases List.mem_cons.mp hid with rfl | hid
          · exact hab
          · exact le_trans hab ((List.pairwise_cons.mp hrest).1 id hid)

/-- A certificate the decoder takes: its fields have the right length, its
    lists are in order and no longer than allowed. -/
structure WellFormed (w : Codec chain) (envelope : Envelope) (attestations : List Attestation)
    (reveals : List (U64 × Credential)) : Prop where
  committee : w.fits envelope.committee.val
  attestation : ∀ a ∈ attestations, WellFormedAttestation w a ∧ w.fits a.committee.val
  fewAttestations : attestations.length ≤ maxAttestations.val
  attestationsSorted : (attestations.map (·.fromId)).Pairwise (· ≤ ·)
  reveal : ∀ r ∈ reveals, WellFormedCredential w r.2
  fewReveals : reveals.length ≤ maxCommitteeReveals.val
  revealsSorted : (reveals.map (·.1)).Pairwise (· ≤ ·)

/-- **A certificate that is encoded is decoded back.** -/
theorem decodeCertificate_encode {envelope : Envelope} {attestations : List Attestation}
    {reveals : List (U64 × Credential)} (h : WellFormed w envelope attestations reveals) :
    decodeCertificate chain (encodeCertificate w envelope attestations reveals)
      = .ok (envelope, attestations, reveals) := by
  have hcount := ofNat_val h.fewAttestations
  have hreveals := ofNat_val h.fewReveals
  refine decodeAll_ok ((reads_envelope envelope h.committee).bind ((reads_u8 stageOne).bind
    ((Reads.refuse (by simp)).bind_nil ((reads_u64 _).bind ((Reads.refuse ?_).bind_nil
      (Reads.bind (Reads.times hcount.symm (fun a ha =>
        reads_attestation (h.attestation a ha).1 (h.attestation a ha).2))
        ((Reads.refuse ?_).bind_nil ((reads_u64 _).bind ((Reads.refuse ?_).bind_nil ?_)))))))))
  · rw [Fin.lt_def, hcount]
    exact Nat.not_lt.mpr h.fewAttestations
  · exact Bool.eq_false_iff.mp (outOfOrder_eq_false h.attestationsSorted)
  · rw [Fin.lt_def, hreveals]
    exact Nat.not_lt.mpr h.fewReveals
  · rw [hreveals]
    have hsorted : ((none : Option U64).toList ++ reveals.map (·.1)).Pairwise (· ≤ ·) :=
      h.revealsSorted
    exact (reads_reveals h.reveal hsorted).bind_pure

end QCoreCertificate
