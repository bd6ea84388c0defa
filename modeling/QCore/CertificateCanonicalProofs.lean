import Mathlib
import QCore.CertificateProofs

/-! # One encoding for each certificate

    `decodeCertificate` takes exactly what the encoder writes, field by field,
    when the byte encoding of the fields does.  So a string that is accepted is
    the encoding of what it decodes to, and no byte of it can be changed without
    changing the certificate.

    The byte encoding at hand: a byte, a word of eight bytes with the least
    significant first, and a string after its length as such a word. -/

namespace QCoreCertificateCanonical

open QCoreMachineInt QCoreByteMemory QCoreFallible QCoreDecoder QCoreCertificate

/-! ## What each field takes -/

/-- A byte encoding whose fields are read off nothing but what is written for them. -/
structure Canonical {chain : Chain} (w : Codec chain) : Prop where
  getU8_taken : ∀ bytes b rest, chain.getU8 bytes = some (b, rest) →
    bytes = w.putU8 b ++ rest
  getU64_taken : ∀ bytes v rest, chain.getU64 bytes = some (v, rest) →
    bytes = w.putU64 v ++ rest
  getBytes_taken : ∀ bytes field rest, chain.getBytes bytes = some (field, rest) →
    w.fits field ∧ bytes = w.putBytes field ++ rest

variable {chain : Chain} {w : Codec chain}

/-- The parent's tag and value are what is written for it: one tag forces a zero
    value, the other takes any, and there is no third. -/
theorem encodeParent_of_decodeParent {tag : UInt8} {value : Bytes 32} {parent : Parent}
    (h : decodeParent tag value = .ok parent) :
    encodeParent w parent = w.putU8 tag ++ value.val.flatMap w.putU8 := by
  rw [decodeParent] at h
  split at h
  · next hgenesis =>
      cases h
      rw [encodeParent, hgenesis.1, hgenesis.2]
  split at h
  · next hvalue =>
      cases h
      rw [encodeParent, hvalue]
  · cases h

/-- A count read as a word is the length of what was read. -/
theorem ofNat_of_length {α : Type} {l : List α} {count : U64} (h : l.length = count.val) :
    Fin.ofNat 18446744073709551616 l.length = count := by
  rw [h]
  exact Fin.ofNat_val_eq_self count

variable (hw : Canonical w)
include hw

theorem takes_u8 : Takes (getU8 chain) (fun _ => True) w.putU8 :=
  Takes.field fun bytes b rest h => ⟨trivial, hw.getU8_taken bytes b rest h⟩

theorem takes_u64 : Takes (getU64 chain) (fun _ => True) w.putU64 :=
  Takes.field fun bytes v rest h => ⟨trivial, hw.getU64_taken bytes v rest h⟩

/-- An array is read from its own bytes alone. -/
theorem takes_array (n : Nat) :
    Takes (readArray chain n) (fun a => w.fits a.val) (fun a => w.putBytes a.val)
    := by
  intro bytes a rest h
  have htakes : Takes (field chain.getBytes codec) w.fits w.putBytes := Takes.field hw.getBytes_taken
  obtain ⟨read, mid, hfits, hbytes, hlength⟩ := htakes.bind_ok h
  by_cases hlen : read.length = n
  · rw [dif_pos hlen] at hlength
    cases hlength
    exact ⟨hfits, hbytes⟩
  · rw [dif_neg hlen] at hlength
    cases hlength

theorem takes_value :
    Takes (readValue chain) (fun _ => True) (fun value => value.val.flatMap w.putU8) := by
  intro bytes value rest h
  exact ⟨trivial, ((takes_u8 hw).times 32 h).2⟩

/-- A block is read from its own encoding alone. -/
theorem takes_block : Takes (decodeBlock chain) (fun _ => True) (encodeBlock w) := by
  intro bytes block rest h
  obtain ⟨height, mid1, -, h1, h⟩ := (takes_u64 hw).bind_ok h
  obtain ⟨val, mid2, -, h2, h⟩ := (takes_value hw).bind_ok h
  obtain ⟨tag, mid3, -, h3, h⟩ := (takes_u8 hw).bind_ok h
  obtain ⟨value, mid4, -, h4, h⟩ := (takes_value hw).bind_ok h
  obtain ⟨parent, hparent, h⟩ := lift_bind_ok h
  obtain ⟨cost, mid5, -, h5, h⟩ := (takes_u64 hw).bind_ok h
  cases h
  refine ⟨trivial, ?_⟩
  rw [h1, h2, h3, h4, h5, encodeBlock, encodeParent_of_decodeParent hparent]
  simp only [List.append_assoc]

/-- So is an envelope. -/
theorem takes_envelope :
    Takes (decodeEnvelope chain) (fun envelope => w.fits envelope.committee.val)
      (encodeEnvelope w) := by
  intro bytes envelope rest h
  obtain ⟨height, mid1, -, h1, h⟩ := (takes_u64 hw).bind_ok h
  obtain ⟨slot, mid2, -, h2, h⟩ := (takes_u64 hw).bind_ok h
  obtain ⟨block, mid3, -, h3, h⟩ := (takes_block hw).bind_ok h
  obtain ⟨committee, mid4, hfits, h4, h⟩ := (takes_array hw 32).bind_ok h
  cases h
  refine ⟨hfits, ?_⟩
  rw [h1, h2, h3, h4, encodeEnvelope]
  simp only [List.append_assoc]

/-- So is a credential. -/
theorem takes_credential :
    Takes (decodeCredential chain) (WellFormedCredential w) (encodeCredential w) := by
  intro bytes credential rest h
  obtain ⟨position, mid1, -, h1, h⟩ := (takes_u64 hw).bind_ok h
  obtain ⟨preimage, mid2, hpreimage, h2, h⟩ := (takes_array hw _).bind_ok h
  obtain ⟨count, mid3, -, h3, h⟩ := (takes_u64 hw).bind_ok h
  obtain ⟨hshort, h⟩ := refuse_bind_ok h
  obtain ⟨siblings, mid4, hsiblings, h4, h⟩ := ((takes_array hw _).times _).bind_ok h
  cases h
  have hlen : (siblings.val.map (·.val)).length = count.val := by
    rw [List.length_map, siblings.property]
  refine ⟨⟨⟨preimage.property, hpreimage⟩, ?_, ?_⟩, ?_⟩
  · intro s hs
    obtain ⟨sibling, hmem, rfl⟩ := List.mem_map.mp hs
    exact ⟨sibling.property, hsiblings sibling hmem⟩
  · show (siblings.val.map (·.val)).length ≤ maxCredentialSiblings.val
    rw [hlen]
    exact Fin.le_def.mp (not_lt.mp hshort)
  · rw [h1, h2, h3, h4, encodeCredential, ofNat_of_length hlen, List.flatMap_map]
    simp only [List.append_assoc]

/-- So is an attestation. -/
theorem takes_attestation :
    Takes (decodeAttestation chain)
      (fun a => WellFormedAttestation w a ∧ w.fits a.committee.val) (encodeAttestation w) := by
  intro bytes a rest h
  obtain ⟨fromId, mid1, -, h1, h⟩ := (takes_u64 hw).bind_ok h
  obtain ⟨height, mid2, -, h2, h⟩ := (takes_u64 hw).bind_ok h
  obtain ⟨slot, mid3, -, h3, h⟩ := (takes_u64 hw).bind_ok h
  obtain ⟨view, mid4, -, h4, h⟩ := (takes_u64 hw).bind_ok h
  obtain ⟨committee, mid5, hcommittee, h5, h⟩ := (takes_array hw 32).bind_ok h
  obtain ⟨block, mid6, -, h6, h⟩ := (takes_block hw).bind_ok h
  obtain ⟨membership, mid7, hmembership, h7, h⟩ := (takes_credential hw).bind_ok h
  obtain ⟨sig, mid8, hsig, h8, h⟩ := (takes_array hw _).bind_ok h
  cases h
  refine ⟨⟨⟨hmembership, sig.property, hsig⟩, hcommittee⟩, ?_⟩
  rw [h1, h2, h3, h4, h5, h6, h7, h8, encodeAttestation]
  simp only [List.append_assoc]

/-- The reveals taken after a last one are in ascending order from it on. -/
theorem takes_reveals (n : Nat) (lastReveal : Option U64) :
    Takes (decodeReveals chain lastReveal n)
      (fun reveals => reveals.length = n ∧ (∀ r ∈ reveals, WellFormedCredential w r.2) ∧
        (lastReveal.toList ++ reveals.map (·.1)).Pairwise (· ≤ ·))
      (fun reveals => reveals.flatMap (encodeReveal w)) := by
  induction n generalizing lastReveal with
  | zero =>
      intro bytes reveals rest h
      cases h
      refine ⟨⟨rfl, ?_, ?_⟩, rfl⟩
      · intro r hr
        exact absurd hr List.not_mem_nil
      · cases lastReveal with
        | none => exact List.Pairwise.nil
        | some last => exact List.pairwise_singleton _ _
  | succ n ih =>
      intro bytes reveals rest h
      obtain ⟨id, mid1, -, h1, h⟩ := (takes_u64 hw).bind_ok h
      obtain ⟨hafter, h⟩ := refuse_bind_ok h
      obtain ⟨credential, mid2, hcredential, h2, h⟩ := (takes_credential hw).bind_ok h
      obtain ⟨others, mid3, ⟨hlen, hall, hsorted⟩, h3, h⟩ := (ih (some id)).bind_ok h
      cases h
      -- the decoder compares each id with the one before it, which orders them all
      have hids : (id :: others.map (·.1)).Pairwise (· ≤ ·) := hsorted
      refine ⟨⟨by rw [List.length_cons, hlen], ?_, ?_⟩, ?_⟩
      · intro r hr
        rcases List.mem_cons.mp hr with rfl | hr
        · exact hcredential
        · exact hall r hr
      · rw [List.map_cons]
        cases lastReveal with
        | none => exact hids
        | some last =>
            have hle : last ≤ id := by simpa using hafter
            refine List.pairwise_cons.mpr ⟨?_, hids⟩
            intro next hnext
            rcases List.mem_cons.mp hnext with rfl | hnext
            · exact hle
            · exact le_trans hle ((List.pairwise_cons.mp hids).1 next hnext)
      · show bytes = ((id, credential) :: others).flatMap (encodeReveal w) ++ rest
        rw [h1, h2, h3, List.flatMap_cons, encodeReveal]
        simp only [List.append_assoc]

/-- A whole certificate is read from its own encoding alone. -/
theorem takes_certificate :
    Takes (certificateDecoder chain)
      (fun c => WellFormed w c.1 c.2.1 c.2.2)
      (fun c => encodeCertificate w c.1 c.2.1 c.2.2) := by
  intro bytes certificate rest h
  obtain ⟨envelope, mid1, hcommittee, h1, h⟩ := (takes_envelope hw).bind_ok h
  obtain ⟨stage, mid2, -, h2, h⟩ := (takes_u8 hw).bind_ok h
  obtain ⟨hstage, h⟩ := refuse_bind_ok h
  obtain ⟨count, mid3, -, h3, h⟩ := (takes_u64 hw).bind_ok h
  obtain ⟨hfew, h⟩ := refuse_bind_ok h
  obtain ⟨attestations, mid4, hattestations, h4, h⟩ := ((takes_attestation hw).times _).bind_ok h
  obtain ⟨horder, h⟩ := refuse_bind_ok h
  obtain ⟨reveals, mid5, -, h5, h⟩ := (takes_u64 hw).bind_ok h
  obtain ⟨hfewReveals, h⟩ := refuse_bind_ok h
  obtain ⟨revealed, mid6, ⟨hlen, hall, hsorted⟩, h6, h⟩ :=
    (takes_reveals hw _ none).bind_ok h
  cases h
  -- a count that was read is the length of the list that was read
  have hcount := ofNat_of_length attestations.property
  have hreveals := ofNat_of_length hlen
  refine ⟨⟨hcommittee, hattestations, ?_, ?_, hall, ?_, hsorted⟩, ?_⟩
  · show attestations.val.length ≤ maxAttestations.val
    rw [attestations.property]
    exact Fin.le_def.mp (not_lt.mp hfew)
  · exact pairwise_of_outOfOrder (Bool.eq_false_iff.mpr horder)
  · show revealed.length ≤ maxCommitteeReveals.val
    rw [hlen]
    exact Fin.le_def.mp (not_lt.mp hfewReveals)
  · show bytes = encodeCertificate w envelope attestations.val revealed ++ rest
    rw [h1, h2, h3, h4, h5, h6, encodeCertificate, hcount, hreveals, not_not.mp hstage]
    simp only [List.append_assoc]

/-- **A certificate is accepted exactly as it is encoded.** -/
theorem decodeCertificate_eq_ok (bytes : List UInt8) (envelope : Envelope)
    (attestations : List Attestation) (reveals : List (U64 × Credential)) :
    decodeCertificate chain bytes = .ok (envelope, attestations, reveals) ↔
      WellFormed w envelope attestations reveals ∧
        bytes = encodeCertificate w envelope attestations reveals := by
  constructor
  · intro h
    have htaken := decodeAll_takes (takes_certificate hw) h
    exact htaken
  · rintro ⟨hformed, rfl⟩
    exact decodeCertificate_encode hformed

omit hw

/-! ## The byte encoding at hand -/

/-- A word of eight bytes, least significant first. -/
def leGetU64 (bytes : List UInt8) : Option (U64 × List UInt8) :=
  if 8 ≤ bytes.length then some (Fin.ofNat _ (ofLeBytes (bytes.take 8)), bytes.drop 8) else none

/-- A string after its length. -/
def leGetBytes (bytes : List UInt8) : Option (List UInt8 × List UInt8) := do
  let (n, rest) ← leGetU64 bytes
  if n.val ≤ rest.length then some (rest.take n.val, rest.drop n.val) else none

/-- A number that was put low byte first is got back. -/
theorem leGetU64_put (v : U64) (rest : List UInt8) :
    leGetU64 (leBytes 8 v.val ++ rest) = some (v, rest) := by
  have hlen : (leBytes 8 v.val).length = 8 := length_leBytes 8 v.val
  rw [leGetU64, if_pos (by rw [List.length_append]; omega), List.take_left' hlen,
    List.drop_left' hlen, ofLeBytes_leBytes]
  congr 2
  refine Fin.ext ?_
  have := v.isLt
  show v.val % 256 ^ 8 % 18446744073709551616 = v.val
  omega

/-- A number that is got was put, low byte first. -/
theorem leGetU64_taken {bytes rest : List UInt8} {v : U64}
    (h : leGetU64 bytes = some (v, rest)) : bytes = leBytes 8 v.val ++ rest := by
  rw [leGetU64] at h
  split at h
  · next hlong =>
      have hlen : (bytes.take 8).length = 8 := by rw [List.length_take]; omega
      have hlt := ofLeBytes_lt (bytes.take 8)
      have hback := leBytes_ofLeBytes (bytes.take 8)
      rw [hlen] at hlt hback
      cases h
      have hval : (Fin.ofNat 18446744073709551616 (ofLeBytes (bytes.take 8))).val
          = ofLeBytes (bytes.take 8) := Nat.mod_eq_of_lt hlt
      rw [hval, hback, List.take_append_drop]
  · cases h

/-- Bytes that were put behind their length are got back. -/
theorem leGetBytes_put {field : List UInt8} (hfits : field.length < 18446744073709551616)
    (rest : List UInt8) :
    leGetBytes (leBytes 8 field.length ++ field ++ rest) = some (field, rest) := by
  rw [List.append_assoc, leGetBytes, leGetU64_put ⟨field.length, hfits⟩ (field ++ rest)]
  show (if field.length ≤ (field ++ rest).length then _ else _) = _
  rw [if_pos (by rw [List.length_append]; omega), List.take_left, List.drop_left]

/-- Bytes that are got were put behind their length. -/
theorem leGetBytes_taken {bytes field rest : List UInt8}
    (h : leGetBytes bytes = some (field, rest)) :
    field.length < 18446744073709551616 ∧ bytes = leBytes 8 field.length ++ field ++ rest := by
  cases hn : leGetU64 bytes with
  | none => rw [leGetBytes, hn] at h; cases h
  | some r =>
      obtain ⟨n, unread⟩ := r
      rw [leGetBytes, hn] at h
      have hbytes := leGetU64_taken hn
      by_cases hlong : n.val ≤ unread.length
      · have h' : some (unread.take n.val, unread.drop n.val) = some (field, rest) := by
          rw [← h]
          exact (if_pos hlong).symm
        cases h'
        have hlen : (unread.take n.val).length = n.val := by rw [List.length_take]; omega
        rw [hlen, List.append_assoc, List.take_append_drop]
        exact ⟨n.isLt, hbytes⟩
      · have h' : (none : Option (List UInt8 × List UInt8)) = some (field, rest) := by
          rw [← h]
          exact (if_neg hlong).symm
        cases h'

/-- A chain with that byte encoding. -/
def littleEndian (chain : Chain) : Chain :=
  { chain with getU8 := plainGetU8, getU64 := leGetU64, getBytes := leGetBytes }

/-- Its writers.  Any string a machine can hold has a length that is a word. -/
def leCodec (chain : Chain) : Codec (littleEndian chain) where
  putU8 b := [b]
  putU64 v := leBytes 8 v.val
  putBytes field := leBytes 8 field.length ++ field
  fits field := field.length < 18446744073709551616
  getU8_put _ _ := rfl
  getU64_put := leGetU64_put
  getBytes_put _ rest hfits := leGetBytes_put hfits rest

/-- The codec that puts the low byte first is canonical. -/
theorem leCodec_canonical (chain : Chain) : Canonical (leCodec chain) where
  getU8_taken bytes b rest h := by
    cases bytes with
    | nil => cases h
    | cons c bytes => cases h; rfl
  getU64_taken _ _ _ h := leGetU64_taken h
  getBytes_taken _ _ _ h := leGetBytes_taken h

/-- **Certificates are canonical**: a string is accepted exactly when it is the
    encoding of what it decodes to, whose lists are in order and no longer than
    allowed; so no two strings decode to one certificate. -/
theorem certificates_are_canonical (chain : Chain) :
    (∀ (bytes : List UInt8) (envelope : Envelope) (attestations : List Attestation)
      (reveals : List (U64 × Credential)),
      decodeCertificate (littleEndian chain) bytes = .ok (envelope, attestations, reveals) ↔
        WellFormed (leCodec chain) envelope attestations reveals ∧
          bytes = encodeCertificate (leCodec chain) envelope attestations reveals) ∧
    (∀ (bytes bytes' : List UInt8) (certificate : Envelope × List Attestation ×
      List (U64 × Credential)),
      decodeCertificate (littleEndian chain) bytes = .ok certificate →
      decodeCertificate (littleEndian chain) bytes' = .ok certificate → bytes = bytes') := by
  have hw := leCodec_canonical chain
  constructor
  · exact decodeCertificate_eq_ok hw
  · intro bytes bytes' certificate h h'
    have hbytes := ((decodeCertificate_eq_ok hw _ _ _ _).mp h).2
    have hbytes' := ((decodeCertificate_eq_ok hw _ _ _ _).mp h').2
    rw [hbytes, hbytes']

end QCoreCertificateCanonical
