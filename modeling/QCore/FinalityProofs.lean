import Mathlib
import QCore.MachineIntProofs
import QCore.ByteMemoryProofs
import QCore.FallibleProofs
import QCore.QuorumProofs
import QCore.CertificateProofs

/-! # Finality

    A light client accepts a header when a certificate names it and validators
    with more than two thirds of the active stake signed it.  The certificate is
    untrusted; the roster is what the client trusts.  `accepted_spec` says what
    an accepted certificate has shown, and later results use nothing else about
    the check. -/

namespace QCoreFinality

open QCoreMachineInt QCoreByteMemory QCoreFallible QCoreQuorum QCoreCertificate

/-- The most validators a roster may have. -/
def maxRoster : Nat := 4096

variable (chain : Chain)

/-! ## The active set -/

/-- The order the active set is cut in: most stake first, then least id. -/
def ranksBefore (a b : RosterMember) : Prop :=
  b.stake < a.stake ∨ b.stake = a.stake ∧ a.id ≤ b.id

instance : DecidableRel ranksBefore := fun a b => by
  unfold ranksBefore; infer_instance

/-- The validators that count: those with enough stake, and of too many the first by
    rank. -/
def activeSet (roster : List RosterMember) : List RosterMember :=
  let active := roster.filter (fun m => chain.minSelfStake ≤ m.stake)
  if chain.maxActiveValidators < active.length then
    (active.insertionSort ranksBefore).take chain.maxActiveValidators
  else active

/-- The stake of a list of validators. -/
def stakeOf (members : List RosterMember) : ℕ := weight (fun m => m.stake.val) members

/-- A number of 64 bits as one of 128. -/
def u128From (a : U64) : U128 := ⟨a.val, Nat.lt_trans a.isLt (by decide)⟩

/-- The stake of a list of validators, as the client adds it up. -/
def totalStake (members : List RosterMember) : U128 :=
  members.foldl (fun total m => saturatingAdd total (u128From m.stake)) 0

/-! ## The check -/

/-- The ids and keys of the validators before this one. -/
abbrev Named := Finset U64 × Finset (List UInt8)

/-- A validator of a roster is named once, with a key of its own. -/
def checkMember (named : Named) (member : RosterMember) : Except String Named := do
  refuseIf (member.id ∈ named.1) "the validator roster names a validator twice"
  refuseIf (member.attestPk.length ≠ chain.publicKeyBytes)
    "a roster key is not an ML-DSA-65 public key"
  refuseIf (member.attestPk ∈ named.2)
    "the validator roster gives two validators the same attestation key"
  return (insert member.id named.1, insert member.attestPk named.2)

/-- The member an id names. -/
def memberOf (roster : List RosterMember) (id : U64) : Option RosterMember :=
  roster.find? (fun m => m.id = id)

/-- The stake counted so far and the validators it came from. -/
abbrev Tally := U128 × Finset U64

/-- What an attestation signs. -/
def messageOf (chainId : U64) (genesisHash : Bytes 32) (a : Attestation) : List UInt8 :=
  chain.attestationMessage chainId genesisHash a.height a.slot a.view a.committee a.block

/-- Count one attestation of a certificate, which has to be for its block. -/
def countAttestation (chainId : U64) (genesisHash : Bytes 32) (roster : List RosterMember)
    (envelope : Envelope) (firstView : U64) (tally : Tally) (attestation : Attestation) :
    Except String Tally := do
  refuseIf (attestation.height ≠ envelope.height ∨ attestation.slot ≠ envelope.slot
      ∨ attestation.committee ≠ envelope.committee ∨ attestation.block ≠ envelope.block
      ∨ attestation.view ≠ firstView)
    "an attestation does not match the certificate it sits in"
  refuseIf (attestation.fromId ∈ tally.2) "a validator attests twice in one certificate"
  let member ← okOr (memberOf roster attestation.fromId)
    "an attestation comes from a validator outside the roster"
  refuseIf (member.attestPk.length ≠ chain.publicKeyBytes)
    "a roster key is not an ML-DSA-65 public key"
  refuseIf (chain.publicKeyIsDegenerate member.attestPk) "a roster key is degenerate"
  refuseIf (!chain.verify member.attestPk (messageOf chain chainId genesisHash attestation)
      attestation.sig chain.attestContext)
    "an attestation signature does not verify"
  refuseIf (member.stake = 0
      ∨ !chain.verifyMembership member.root attestation.fromId attestation.slot
          attestation.membership)
    "an attestation does not prove its committee membership"
  return (saturatingAdd tally.1 (u128From member.stake), insert attestation.fromId tally.2)

/-- A reveal proves that its validator sits in the committee. -/
def checkReveal (roster : List RosterMember) (slot : U64) (reveal : U64 × Credential) :
    Except String Unit := do
  let member ← okOr (memberOf roster reveal.1)
    "a committee reveal names a validator outside the roster"
  refuseIf (!chain.verifyMembership member.root reveal.1 slot reveal.2)
    "a committee reveal does not prove its committee membership"

/-- The parent of a header's block. -/
def parentOf (header : Header) : Parent :=
  if header.height = 1 then .genesis else .value header.parentHash

/-- A header that a certificate proves final under a roster. -/
def verifyFinality (chainId : U64) (genesisHash : Bytes 32)
    (headerBytes certificateBytes : List UInt8) (roster : List RosterMember) :
    Except String FinalizedHeader := do
  refuseIf (roster = [] ∨ maxRoster < roster.length)
    "the validator roster is empty or too large"
  let _ ← roster.foldlM (checkMember chain) (∅, ∅)
  let active := activeSet chain roster
  let total := totalStake active
  refuseIf (total = 0) "the validator roster carries no stake"
  let header ← okOr (chain.headerFromBytes headerBytes) "the header bytes are malformed"
  let (envelope, attestations, reveals) ← decodeCertificate chain certificateBytes
  refuseIf (envelope.block ≠ chain.newBlock header.height header.hash (parentOf header)
      ∨ envelope.height ≠ header.height)
    "the certificate does not name this header"
  let firstView ← okOr (attestations.head?.map (·.view)) "the certificate carries no attestations"
  let (signed, _) ← attestations.foldlM
    (countAttestation chain chainId genesisHash active envelope firstView) (0, ∅)
  reveals.forM (checkReveal chain active envelope.slot)
  refuseIf (saturatingMul signed 3 ≤ saturatingMul total 2)
    "the attesting validators hold two thirds of the stake or less, finality needs strictly more"
  return {
    height := header.height
    hash := header.hash
    parentHash := header.parentHash
    qRoot := header.qRoot
    transactionRoot := header.transactionRoot
    eventRoot := header.eventRoot
    time := header.time
    signedStake := signed
    totalStake := total }

/-! ## What an accepted certificate has shown -/

/-- An attestation of the block a certificate names, signed by a member. -/
structure Attested (chainId : U64) (genesisHash : Bytes 32) (active : List RosterMember)
    (envelope : Envelope) (a : Attestation) (member : RosterMember) : Prop where
  block : a.block = envelope.block
  found : memberOf active a.fromId = some member
  verified : chain.verify member.attestPk (messageOf chain chainId genesisHash a) a.sig
    chain.attestContext = true
  committee : chain.verifyMembership member.root a.fromId a.slot a.membership = true

/-- The ids that attest. -/
def attesters (attestations : List Attestation) : List U64 := attestations.map (·.fromId)

/-- The members of a list that attest. -/
def attesting (active : List RosterMember) (attestations : List Attestation) :
    List RosterMember :=
  active.filter (fun m => m.id ∈ attesters attestations)

/-- What an accepted certificate comes to. -/
structure Accepted (chainId : U64) (genesisHash : Bytes 32)
    (headerBytes certificateBytes : List UInt8) (roster : List RosterMember)
    (finalized : FinalizedHeader) (header : Header) (envelope : Envelope)
    (attestations : List Attestation) : Prop where
  parsed : chain.headerFromBytes headerBytes = some header
  decoded : ∃ reveals,
    decodeCertificate chain certificateBytes = .ok (envelope, attestations, reveals)
  size : roster.length ≤ maxRoster
  distinct : (roster.map (·.id)).Nodup
  names : envelope.block = chain.newBlock header.height header.hash (parentOf header)
  height : envelope.height = header.height
  once : (attesters attestations).Nodup
  attested : ∀ a ∈ attestations, ∃ member,
    Attested chain chainId genesisHash (activeSet chain roster) envelope a member
  enough : 2 * stakeOf (activeSet chain roster)
    < 3 * stakeOf (attesting (activeSet chain roster) attestations)
  result : finalized.height = header.height ∧ finalized.hash = header.hash
    ∧ finalized.parentHash = header.parentHash ∧ finalized.qRoot = header.qRoot
    ∧ finalized.transactionRoot = header.transactionRoot
    ∧ finalized.eventRoot = header.eventRoot ∧ finalized.time = header.time

section ActiveSet

variable {chain}

/-- The active set is part of the roster. -/
theorem activeSet_subperm (roster : List RosterMember) :
    (activeSet chain roster).Subperm roster := by
  rw [activeSet]
  split
  · have hcut := (List.take_sublist chain.maxActiveValidators
      ((roster.filter (fun m => chain.minSelfStake ≤ m.stake)).insertionSort
        ranksBefore)).subperm
    exact hcut.trans ((List.perm_insertionSort _ _).subperm.trans List.filter_sublist.subperm)
  · exact List.filter_sublist.subperm

theorem length_activeSet_le (roster : List RosterMember) :
    (activeSet chain roster).length ≤ roster.length :=
  (activeSet_subperm roster).length_le

/-- Validators named once are named once in the active set. -/
theorem activeSet_distinct {roster : List RosterMember} (h : (roster.map (·.id)).Nodup) :
    ((activeSet chain roster).map (·.id)).Nodup := by
  obtain ⟨l, hperm, hsub⟩ := activeSet_subperm roster
  exact (hperm.map _).nodup_iff.mp ((hsub.map _).nodup h)

/-- The stake of at most as many validators as a roster has fits a word. -/
theorem stakeOf_le {members : List RosterMember} (h : members.length ≤ maxRoster) :
    stakeOf members ≤ maxRoster * 18446744073709551615 := by
  have hle : stakeOf members ≤ members.length * 18446744073709551615 :=
    weight_le_length_mul (fun m _ => Nat.le_of_lt_succ m.stake.isLt)
  exact hle.trans (Nat.mul_le_mul_right _ h)

/-- The stake of a roster that is not too long does not saturate. -/
theorem totalStake_val {members : List RosterMember} (h : members.length ≤ maxRoster) :
    (totalStake members).val = stakeOf members := by
  have hbound := stakeOf_le h
  rw [totalStake, foldl_saturatingAdd_val]
  show min (0 + stakeOf members) _ = _
  rw [maxRoster] at hbound
  omega

end ActiveSet

section Tally

variable {chain} {chainId : U64} {genesisHash : Bytes 32} {active : List RosterMember}
  {envelope : Envelope} {firstView : U64}

theorem memberOf_some {members : List RosterMember} {id : U64} {m : RosterMember}
    (h : memberOf members id = some m) : m ∈ members ∧ m.id = id :=
  ⟨List.mem_of_find?_eq_some h, by simpa using List.find?_some h⟩

/-- What counting one attestation has shown, and what it adds. -/
theorem countAttestation_ok {tally tally' : Tally} {a : Attestation}
    (h : countAttestation chain chainId genesisHash active envelope firstView tally a
      = .ok tally') :
    ∃ m, Attested chain chainId genesisHash active envelope a m ∧ a.fromId ∉ tally.2
      ∧ tally' = (saturatingAdd tally.1 (u128From m.stake), insert a.fromId tally.2) := by
  obtain ⟨hmatch, h⟩ := guard_ok h
  obtain ⟨hfresh, h⟩ := guard_ok h
  obtain ⟨m, hmember, h⟩ := value_ok h
  obtain ⟨-, h⟩ := guard_ok h
  obtain ⟨-, h⟩ := guard_ok h
  obtain ⟨hverify, h⟩ := guard_ok h
  obtain ⟨hcommittee, h⟩ := guard_ok h
  push Not at hmatch hcommittee
  cases h
  exact ⟨m, ⟨hmatch.2.2.2.1, hmember, by simpa using hverify, by simpa using hcommittee.2⟩,
    hfresh, rfl⟩

/-- **Counting a whole certificate**: each attestation is counted once, for the
    stake of the member it names. -/
theorem countAttestations_ok {attestations : List Attestation} {tally tally' : Tally}
    (h : attestations.foldlM
      (countAttestation chain chainId genesisHash active envelope firstView) tally
      = .ok tally') :
    ∃ members, List.Forall₂ (Attested chain chainId genesisHash active envelope)
        attestations members
      ∧ tally'.1.val = min (tally.1.val + stakeOf members) (2 ^ 128 - 1)
      ∧ (attesters attestations).Nodup ∧ ∀ a ∈ attestations, a.fromId ∉ tally.2 := by
  induction attestations generalizing tally with
  | nil =>
      cases h
      refine ⟨[], List.Forall₂.nil, ?_, List.nodup_nil, fun a ha => absurd ha List.not_mem_nil⟩
      show tally'.1.val = min (tally'.1.val + 0) (2 ^ 128 - 1)
      have := tally'.1.isLt
      omega
  | cons a rest ih =>
      rw [List.foldlM_cons] at h
      obtain ⟨next, hnext, h⟩ := bind_ok h
      obtain ⟨m, hattested, hfresh, rfl⟩ := countAttestation_ok hnext
      obtain ⟨members, hall, hsum, hnodup, hunseen⟩ := ih h
      refine ⟨m :: members, List.Forall₂.cons hattested hall, ?_, ?_, ?_⟩
      · rw [hsum, saturatingAdd_val]
        show _ = min (tally.1.val + (m.stake.val + stakeOf members)) _
        show min (min (tally.1.val + m.stake.val) _ + _) _ = _
        omega
      · -- the rest is counted with this validator already seen
        refine List.nodup_cons.mpr ⟨?_, hnodup⟩
        intro hmem
        obtain ⟨b, hb, hid⟩ := List.mem_map.mp hmem
        exact hunseen b hb (hid ▸ Finset.mem_insert_self _ _)
      · intro b hb
        rcases List.mem_cons.mp hb with rfl | hb
        · exact hfresh
        · exact fun hseen => hunseen b hb (Finset.mem_insert_of_mem hseen)

/-- The members counted are members of the active set that attest, each once. -/
theorem stakeOf_counted_le {attestations : List Attestation} {members : List RosterMember}
    (hall : List.Forall₂ (Attested chain chainId genesisHash active envelope)
      attestations members)
    (hnodup : (attesters attestations).Nodup) :
    stakeOf members ≤ stakeOf (attesting active attestations) := by
  have hids : members.map (·.id) = attesters attestations := by
    clear hnodup
    induction hall with
    | nil => rfl
    | cons hattested _ ih =>
        rw [List.map_cons, ih, (memberOf_some hattested.found).2]
        rfl
  refine weight_le_of_subset (List.Nodup.of_map _ (hids ▸ hnodup)) ?_
  intro m hm
  refine List.mem_filter.mpr ⟨?_, ?_⟩
  · clear hids hnodup
    induction hall with
    | nil => exact absurd hm List.not_mem_nil
    | cons hattested _ ih =>
        rcases List.mem_cons.mp hm with rfl | hm
        · exact (memberOf_some hattested.found).1
        · exact ih hm
  · exact decide_eq_true (hids ▸ List.mem_map_of_mem hm)

end Tally

/-! ## The spec of the check -/

section Check

variable {chain} {chainId : U64} {genesisHash : Bytes 32}
  {headerBytes certificateBytes : List UInt8} {roster : List RosterMember}
  {finalized : FinalizedHeader}

/-- Members that are accepted have ids of their own. -/
theorem checkMembers_distinct {members : List RosterMember} {named named' : Named}
    (h : members.foldlM (checkMember chain) named = .ok named') :
    (members.map (·.id)).Nodup ∧ ∀ m ∈ members, m.id ∉ named.1 := by
  induction members generalizing named with
  | nil => exact ⟨List.nodup_nil, fun m hm => absurd hm List.not_mem_nil⟩
  | cons member rest ih =>
      rw [List.foldlM_cons] at h
      obtain ⟨next, hnext, h⟩ := bind_ok h
      obtain ⟨hid, hnext⟩ := guard_ok hnext
      obtain ⟨-, hnext⟩ := guard_ok hnext
      obtain ⟨-, hnext⟩ := guard_ok hnext
      cases hnext
      obtain ⟨hnodup, hunnamed⟩ := ih h
      refine ⟨List.nodup_cons.mpr ⟨?_, hnodup⟩, ?_⟩
      · intro hmem
        obtain ⟨m, hm, hmid⟩ := List.mem_map.mp hmem
        exact hunnamed m hm (hmid ▸ Finset.mem_insert_self _ _)
      · intro m hm
        rcases List.mem_cons.mp hm with rfl | hm
        · exact hid
        · exact fun hnamed => hunnamed m hm (Finset.mem_insert_of_mem hnamed)

/-- The comparison made in saturating words is the one made in numbers: the
    stake of a roster is too small for either product to clamp on the right. -/
theorem two_thirds_exceeded {signed total : U128} {t s : ℕ} (htotal : total.val = t)
    (ht : t ≤ maxRoster * 18446744073709551615) (hsigned : signed.val ≤ s)
    (h : ¬ saturatingMul signed 3 ≤ saturatingMul total 2) : 2 * t < 3 * s := by
  rw [Fin.le_def, saturatingMul_val, saturatingMul_val] at h
  have h3 : (3 : U128).val = 3 := rfl
  have h2 : (2 : U128).val = 2 := rfl
  rw [h2, h3, htotal] at h
  rw [maxRoster] at ht
  omega

/-- **What acceptance means.** -/
theorem accepted_spec
    (h : verifyFinality chain chainId genesisHash headerBytes certificateBytes roster
      = .ok finalized) :
    ∃ header envelope attestations, Accepted chain chainId genesisHash headerBytes
      certificateBytes roster finalized header envelope attestations := by
  -- one line for each check the client makes
  obtain ⟨hsize, h⟩ := guard_ok h
  obtain ⟨named, hnamed, h⟩ := bind_ok h
  obtain ⟨-, h⟩ := guard_ok h
  obtain ⟨header, hheader, h⟩ := value_ok h
  obtain ⟨⟨envelope, attestations, reveals⟩, hdecoded, h⟩ := bind_ok h
  obtain ⟨hnames, h⟩ := guard_ok h
  obtain ⟨firstView, -, h⟩ := value_ok h
  obtain ⟨⟨signed, seen⟩, hcount, h⟩ := bind_ok h
  obtain ⟨-, -, h⟩ := bind_ok h
  obtain ⟨hthirds, h⟩ := guard_ok h
  push Not at hsize hnames
  obtain ⟨members, hall, hsum, hnodup, -⟩ := countAttestations_ok hcount
  have hlength : (activeSet chain roster).length ≤ maxRoster :=
    (length_activeSet_le roster).trans hsize.2
  have hsigned : signed.val ≤ stakeOf (attesting (activeSet chain roster) attestations) :=
    calc signed.val ≤ stakeOf members := by
          rw [hsum]
          show min (0 + stakeOf members) _ ≤ _
          omega
      _ ≤ _ := stakeOf_counted_le hall hnodup
  cases h
  exact ⟨header, envelope, attestations,
    { parsed := hheader
      decoded := ⟨reveals, hdecoded⟩
      size := hsize.2
      distinct := (checkMembers_distinct hnamed).1
      names := hnames.1
      height := hnames.2
      once := hnodup
      attested := fun a ha => by
        obtain ⟨i, hi, rfl⟩ := List.getElem_of_mem ha
        exact ⟨_, List.Forall₂.get hall hi (hall.length_eq ▸ hi)⟩
      enough := two_thirds_exceeded (totalStake_val hlength) (stakeOf_le hlength) hsigned hthirds
      result := ⟨rfl, rfl, rfl, rfl, rfl, rfl, rfl⟩ }⟩

end Check

end QCoreFinality
