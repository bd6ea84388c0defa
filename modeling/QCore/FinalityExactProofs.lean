import Mathlib
import QCore.FinalitySafetyProofs

/-! # Exactly when a header is final

    `verifyFinality` checks the roster, the header, the certificate and every
    attestation one after the other, and adds the stake up in saturating words as
    it goes.  This file says what all of that amounts to: a list of conditions on
    the roster, the header and the certificate (`Finalizes`), with the stake added
    up in plain numbers.  The check accepts exactly the inputs that meet them.

    Two facts carry the stake.  No sum reaches the point where it would clamp,
    since a roster has at most 4096 members; and the members counted are exactly
    the active members that attest, since both are listed once. -/

namespace QCoreFinalityExact

open QCoreMachineInt QCoreByteMemory QCoreFallible QCoreQuorum QCoreCertificate QCoreFinality
open QCoreFinalitySafety

variable (chain : Chain)

/-! ## The conditions -/

/-- A roster that can be counted. -/
structure WellFormed (roster : List RosterMember) : Prop where
  nonempty : 1 ≤ roster.length
  size : roster.length ≤ maxRoster
  ids : (roster.map (·.id)).Nodup
  keys : (roster.map (·.attestPk)).Nodup
  keyLength : ∀ m ∈ roster, m.attestPk.length = chain.publicKeyBytes

/-- An attestation that counts for a member: it says what the certificate says,
    in the common view, and the member signed it and sits in the committee. -/
structure Counts (chainId : U64) (genesisHash : Bytes 32) (envelope : Envelope) (view : U64)
    (a : Attestation) (m : RosterMember) : Prop where
  height : a.height = envelope.height
  slot : a.slot = envelope.slot
  committee : a.committee = envelope.committee
  block : a.block = envelope.block
  inView : a.view = view
  sender : m.id = a.fromId
  strongKey : chain.publicKeyIsDegenerate m.attestPk = false
  verified : chain.verify m.attestPk (messageOf chain chainId genesisHash a) a.sig
    chain.attestContext = true
  member : chain.verifyMembership m.root a.fromId a.slot a.membership = true

/-- Everything a header needs to be final. -/
structure Finalizes (chainId : U64) (genesisHash : Bytes 32)
    (headerBytes certificateBytes : List UInt8) (roster : List RosterMember)
    (header : Header) (envelope : Envelope) (attestations : List Attestation)
    (reveals : List (U64 × Credential)) : Prop where
  wellFormed : WellFormed chain roster
  staked : 0 < stakeOf (activeSet chain roster)
  parsed : chain.headerFromBytes headerBytes = some header
  decoded : decodeCertificate chain certificateBytes = .ok (envelope, attestations, reveals)
  names : envelope.block = chain.newBlock header.height header.hash (parentOf header)
  height : envelope.height = header.height
  attested : attestations ≠ []
  counted : ∃ view, ∀ a ∈ attestations, ∃ m ∈ activeSet chain roster,
    Counts chain chainId genesisHash envelope view a m
  once : (attesters attestations).Nodup
  revealed : ∀ reveal ∈ reveals, ∃ m ∈ activeSet chain roster,
    m.id = reveal.1 ∧ chain.verifyMembership m.root reveal.1 envelope.slot reveal.2 = true
  enough : 2 * stakeOf (activeSet chain roster)
    < 3 * stakeOf (attesting (activeSet chain roster) attestations)

/-- What the client learns of a final header: its fields, and the two sums. -/
structure Reports (header : Header) (signed total : ℕ) (finalized : FinalizedHeader) : Prop where
  height : finalized.height = header.height
  hash : finalized.hash = header.hash
  parentHash : finalized.parentHash = header.parentHash
  qRoot : finalized.qRoot = header.qRoot
  transactionRoot : finalized.transactionRoot = header.transactionRoot
  eventRoot : finalized.eventRoot = header.eventRoot
  time : finalized.time = header.time
  signedStake : finalized.signedStake.val = signed
  totalStake : finalized.totalStake.val = total

/-! ## The roster -/

section Roster

variable {chain} {roster : List RosterMember}

/-- A member is accepted with an id and a key of its own, and a key of the right length.
    -/
theorem checkMember_iff {named named' : Named} {m : RosterMember} :
    checkMember chain named m = .ok named' ↔
      m.id ∉ named.1 ∧ m.attestPk.length = chain.publicKeyBytes ∧ m.attestPk ∉ named.2 ∧
        named' = (insert m.id named.1, insert m.attestPk named.2) := by
  rw [checkMember, guard_iff, guard_iff, guard_iff, not_not]
  refine and_congr_right' (and_congr_right' (and_congr_right' ?_))
  constructor
  · intro h
    cases h
    rfl
  · intro h
    rw [h]
    rfl

/-- Members are accepted with ids and keys of their own, and keys of the right length.
    -/
theorem checkMembers_iff {members : List RosterMember} {named : Named} :
    (∃ named', members.foldlM (checkMember chain) named = .ok named') ↔
      ((members.map (·.id)).Nodup ∧ ∀ m ∈ members, m.id ∉ named.1) ∧
      ((members.map (·.attestPk)).Nodup ∧ ∀ m ∈ members, m.attestPk ∉ named.2) ∧
      ∀ m ∈ members, m.attestPk.length = chain.publicKeyBytes := by
  induction members generalizing named with
  | nil => simp [pure, Except.pure]
  | cons m rest ih =>
      have hstep : (∃ named', (m :: rest).foldlM (checkMember chain) named = .ok named') ↔
          (m.id ∉ named.1 ∧ m.attestPk.length = chain.publicKeyBytes ∧ m.attestPk ∉ named.2) ∧
            ∃ named', rest.foldlM (checkMember chain)
              (insert m.id named.1, insert m.attestPk named.2) = .ok named' := by
        simp only [List.foldlM_cons, bind_iff, checkMember_iff]
        constructor
        · rintro ⟨named', _, ⟨hid, hlength, hkey, rfl⟩, hrest⟩
          exact ⟨⟨hid, hlength, hkey⟩, named', hrest⟩
        · rintro ⟨⟨hid, hlength, hkey⟩, named', hrest⟩
          exact ⟨named', _, ⟨hid, hlength, hkey, rfl⟩, hrest⟩
      -- the rest is checked with this id and key already taken
      rw [hstep, ih]
      simp only [List.map_cons, List.nodup_cons, List.mem_map, List.forall_mem_cons,
        Finset.mem_insert, not_or, not_exists, not_and]
      constructor
      · rintro ⟨⟨hid, hlength, hkey⟩, ⟨hids, hnewIds⟩, ⟨hkeys, hnewKeys⟩, hlengths⟩
        exact ⟨⟨⟨fun x hx => (hnewIds x hx).1, hids⟩, hid, fun x hx => (hnewIds x hx).2⟩,
          ⟨⟨fun x hx => (hnewKeys x hx).1, hkeys⟩, hkey, fun x hx => (hnewKeys x hx).2⟩,
          hlength, hlengths⟩
      · rintro ⟨⟨⟨hids, hidsRest⟩, hid, hnewIds⟩, ⟨⟨hkeys, hkeysRest⟩, hkey, hnewKeys⟩, hlength,
          hlengths⟩
        exact ⟨⟨hid, hlength, hkey⟩, ⟨hidsRest, fun x hx => ⟨hids x hx, hnewIds x hx⟩⟩,
          ⟨hkeysRest, fun x hx => ⟨hkeys x hx, hnewKeys x hx⟩⟩, hlengths⟩

/-- **What the checks of the roster amount to.** -/
theorem wellFormed_iff :
    (¬ (roster = [] ∨ maxRoster < roster.length) ∧
      ∃ named, roster.foldlM (checkMember chain) (∅, ∅) = .ok named) ↔
      WellFormed chain roster := by
  rw [checkMembers_iff, not_or, not_lt]
  constructor
  · rintro ⟨⟨hne, hsize⟩, ⟨hids, -⟩, ⟨hkeys, -⟩, hlengths⟩
    exact ⟨List.length_pos_iff.mpr hne, hsize, hids, hkeys, hlengths⟩
  · intro h
    have hempty : ∀ {α : Type} (a : α), a ∉ (∅ : Finset α) := fun a => Finset.notMem_empty a
    exact ⟨⟨List.length_pos_iff.mp h.nonempty, h.size⟩, ⟨h.ids, fun m _ => hempty m.id⟩,
      ⟨h.keys, fun m _ => hempty m.attestPk⟩, h.keyLength⟩

/-- An active validator is a member with enough stake. -/
theorem mem_activeSet {m : RosterMember} (h : m ∈ activeSet chain roster) :
    m ∈ roster ∧ chain.minSelfStake ≤ m.stake := by
  have hfilter : m ∈ roster.filter (fun m => chain.minSelfStake ≤ m.stake) := by
    rw [activeSet] at h
    split at h
    · exact (List.mem_insertionSort _).mp (List.mem_of_mem_take h)
    · exact h
  rw [List.mem_filter] at hfilter
  exact ⟨hfilter.1, of_decide_eq_true hfilter.2⟩

/-- Where ids are distinct, the member found for an id is the one with it. -/
theorem memberOf_iff {members : List RosterMember} (hids : (members.map (·.id)).Nodup) {id : U64}
    {m : RosterMember} : memberOf members id = some m ↔ m ∈ members ∧ m.id = id := by
  constructor
  · exact memberOf_some
  · rintro ⟨hmem, hid⟩
    cases hfound : memberOf members id with
    | none =>
        rw [memberOf, List.find?_eq_none] at hfound
        exact absurd (decide_eq_true hid) (hfound m hmem)
    | some found =>
        obtain ⟨hfoundMem, hfoundId⟩ := memberOf_some hfound
        -- two members of one id are one member
        exact congrArg some (List.inj_on_of_nodup_map hids hfoundMem hmem
          (hfoundId.trans hid.symm))

end Roster

/-! ## The attestations -/

section Attestations

variable {chain} {chainId : U64} {genesisHash : Bytes 32} {active : List RosterMember}
  {envelope : Envelope} {view : U64}

/-- Counting one attestation. -/
theorem countAttestation_iff (hids : (active.map (·.id)).Nodup)
    (hstake : ∀ m ∈ active, m.stake ≠ 0)
    (hlength : ∀ m ∈ active, m.attestPk.length = chain.publicKeyBytes)
    {tally tally' : Tally} {a : Attestation} :
    countAttestation chain chainId genesisHash active envelope view tally a = .ok tally' ↔
      ∃ m ∈ active, Counts chain chainId genesisHash envelope view a m ∧ a.fromId ∉ tally.2 ∧
        tally' = (saturatingAdd tally.1 (u128From m.stake), insert a.fromId tally.2) := by
  simp only [countAttestation, guard_iff, value_iff, memberOf_iff hids]
  constructor
  · rintro ⟨hmatch, hfresh, m, ⟨hmem, hid⟩, -, hstrong, hverify, hmembership, hresult⟩
    push Not at hmatch hmembership
    cases hresult
    exact ⟨m, hmem, ⟨hmatch.1, hmatch.2.1, hmatch.2.2.1, hmatch.2.2.2.1, hmatch.2.2.2.2, hid,
      by simpa using hstrong, by simpa using hverify, by simpa using hmembership.2⟩, hfresh, rfl⟩
  · rintro ⟨m, hmem, hcounts, hfresh, rfl⟩
    refine ⟨?_, hfresh, m, ⟨hmem, hcounts.sender⟩, ?_, ?_, ?_, ?_, rfl⟩
    · push Not
      exact ⟨hcounts.height, hcounts.slot, hcounts.committee, hcounts.block, hcounts.inView⟩
    · exact not_not.mpr (hlength m hmem)
    · rw [hcounts.strongKey]
      exact Bool.false_ne_true
    · rw [hcounts.verified]
      exact Bool.false_ne_true
    · rw [hcounts.member]
      rintro (hzero | hfalse)
      · exact hstake m hmem hzero
      · exact Bool.false_ne_true hfalse

/-- **Counting a whole certificate.** -/
theorem countAttestations_iff (hids : (active.map (·.id)).Nodup)
    (hstake : ∀ m ∈ active, m.stake ≠ 0)
    (hlength : ∀ m ∈ active, m.attestPk.length = chain.publicKeyBytes)
    {attestations : List Attestation} {tally : Tally} :
    (∃ tally', attestations.foldlM
        (countAttestation chain chainId genesisHash active envelope view) tally = .ok tally') ↔
      (∀ a ∈ attestations, ∃ m ∈ active, Counts chain chainId genesisHash envelope view a m) ∧
        (attesters attestations).Nodup ∧ ∀ a ∈ attestations, a.fromId ∉ tally.2 := by
  induction attestations generalizing tally with
  | nil => simp [pure, Except.pure, attesters]
  | cons a rest ih =>
      simp only [List.foldlM_cons, bind_iff, countAttestation_iff hids hstake hlength]
      constructor
      · rintro ⟨tally', next, ⟨m, hmem, hcounts, hfresh, rfl⟩, hrest⟩
        obtain ⟨hall, hnodup, hunseen⟩ := ih.mp ⟨tally', hrest⟩
        refine ⟨List.forall_mem_cons.mpr ⟨⟨m, hmem, hcounts⟩, hall⟩, ?_,
          List.forall_mem_cons.mpr ⟨hfresh, ?_⟩⟩
        · -- the rest is counted with this validator already seen
          refine List.nodup_cons.mpr ⟨?_, hnodup⟩
          intro hagain
          obtain ⟨b, hb, hid⟩ := List.mem_map.mp hagain
          exact hunseen b hb (hid ▸ Finset.mem_insert_self _ _)
        · exact fun b hb hseen => hunseen b hb (Finset.mem_insert_of_mem hseen)
      · rintro ⟨hall, hnodup, hunseen⟩
        obtain ⟨⟨m, hmem, hcounts⟩, hallRest⟩ := List.forall_mem_cons.mp hall
        obtain ⟨hfresh, hunseenRest⟩ := List.forall_mem_cons.mp hunseen
        obtain ⟨hnew, hnodupRest⟩ := List.nodup_cons.mp hnodup
        have hunseenAfter : ∀ b ∈ rest, b.fromId ∉ insert a.fromId tally.2 := by
          intro b hb hseen
          rcases Finset.mem_insert.mp hseen with hid | hseen
          · exact hnew (List.mem_map.mpr ⟨b, hb, hid⟩)
          · exact hunseenRest b hb hseen
        have hfold : ∃ tally', rest.foldlM
            (countAttestation chain chainId genesisHash active envelope view)
            (saturatingAdd tally.1 (u128From m.stake), insert a.fromId tally.2) = .ok tally' :=
          ih.mpr ⟨hallRest, hnodupRest, hunseenAfter⟩
        obtain ⟨tally', hrest⟩ := hfold
        exact ⟨tally', _, ⟨m, hmem, hcounts, hfresh, rfl⟩, hrest⟩

/-- The members counted are exactly the active members that attest. -/
theorem stakeOf_counted_eq {attestations : List Attestation} {members : List RosterMember}
    (hids : (active.map (·.id)).Nodup)
    (hall : List.Forall₂ (Attested chain chainId genesisHash active envelope)
      attestations members)
    (hnodup : (attesters attestations).Nodup) :
    stakeOf members = stakeOf (attesting active attestations) := by
  refine le_antisymm (stakeOf_counted_le hall hnodup) ?_
  refine weight_le_of_subset ((List.Nodup.of_map _ hids).filter _) ?_
  intro m hm
  obtain ⟨hmem, hattests⟩ := List.mem_filter.mp hm
  obtain ⟨a, ha, hid⟩ := List.mem_map.mp (of_decide_eq_true hattests)
  -- the member counted for this attestation has the same id, so it is this one
  obtain ⟨i, hi, rfl⟩ := List.getElem_of_mem ha
  have hi' : i < members.length := hall.length_eq ▸ hi
  have hattested := List.Forall₂.get hall hi hi'
  have hfound := (memberOf_iff hids).mpr ⟨hmem, hid.symm⟩
  have hsame : members.get ⟨i, hi'⟩ = m := Option.some.inj (hattested.found.symm.trans hfound)
  rw [← hsame]
  exact List.get_mem _ _

/-- The stake counted from nothing is the stake of the active members that
    attest. -/
theorem counted_stake (hids : (active.map (·.id)).Nodup) (hsize : active.length ≤ maxRoster)
    {attestations : List Attestation} {tally : Tally}
    (h : attestations.foldlM
      (countAttestation chain chainId genesisHash active envelope view) (0, ∅) = .ok tally) :
    tally.1.val = stakeOf (attesting active attestations) := by
  obtain ⟨members, hall, hsum, hnodup, -⟩ := countAttestations_ok h
  have hcounted := stakeOf_counted_eq hids hall hnodup
  have hattesting : (attesting active attestations).length ≤ maxRoster :=
    (List.length_filter_le _ _).trans hsize
  have hbound := stakeOf_le hattesting
  rw [hsum, hcounted]
  show min (0 + _) _ = _
  rw [maxRoster] at hbound
  omega

/-- A reveal by an active validator. -/
theorem checkReveal_iff (hids : (active.map (·.id)).Nodup) {slot : U64}
    {reveal : U64 × Credential} :
    checkReveal chain active slot reveal = .ok () ↔ ∃ m ∈ active, m.id = reveal.1 ∧
      chain.verifyMembership m.root reveal.1 slot reveal.2 = true := by
  simp only [checkReveal, value_iff, memberOf_iff hids, refuseIf_iff]
  constructor
  · rintro ⟨m, ⟨hmem, hid⟩, hverify⟩
    exact ⟨m, hmem, hid, by simpa using hverify⟩
  · rintro ⟨m, hmem, hid, hverify⟩
    exact ⟨m, ⟨hmem, hid⟩, by simp [hverify]⟩

/-- The comparison made in saturating words is the one made in numbers. -/
theorem two_thirds_iff {signed total : U128} {s t : ℕ} (hsigned : signed.val = s)
    (htotal : total.val = t) (hs : s ≤ maxRoster * 18446744073709551615)
    (ht : t ≤ maxRoster * 18446744073709551615) :
    ¬ saturatingMul signed 3 ≤ saturatingMul total 2 ↔ 2 * t < 3 * s := by
  -- three times the stake of a whole roster stays below 2 ^ 128
  have h3 : (3 : U128).val = 3 := rfl
  have h2 : (2 : U128).val = 2 := rfl
  rw [Fin.le_def, saturatingMul_val, saturatingMul_val, h2, h3, hsigned, htotal]
  rw [maxRoster] at hs ht
  omega

end Attestations

/-! ## The whole check -/

section Check

variable {chain} {chainId : U64} {genesisHash : Bytes 32}
  {headerBytes certificateBytes : List UInt8} {roster : List RosterMember}

/-- The active set of a roster that can be counted. -/
theorem WellFormed.active (h : WellFormed chain roster) (hmin : 1 ≤ chain.minSelfStake) :
    ((activeSet chain roster).map (·.id)).Nodup ∧
      (activeSet chain roster).length ≤ maxRoster ∧
      (∀ m ∈ activeSet chain roster, m.stake ≠ 0) ∧
      ∀ m ∈ activeSet chain roster, m.attestPk.length = chain.publicKeyBytes := by
  refine ⟨activeSet_distinct h.ids, (length_activeSet_le roster).trans h.size, ?_, ?_⟩
  · intro m hm hzero
    have hstake := hmin.trans (mem_activeSet hm).2
    rw [hzero] at hstake
    exact absurd hstake (by decide)
  · intro m hm
    exact h.keyLength m (mem_activeSet hm).1

/-- What is reported is determined by the header and the sums. -/
theorem reports_unique {header : Header} {signed total : ℕ} {f f' : FinalizedHeader}
    (h : Reports header signed total f) (h' : Reports header signed total f') : f = f' := by
  cases f
  cases f'
  rw [FinalizedHeader.mk.injEq]
  exact ⟨h.height.trans h'.height.symm, h.hash.trans h'.hash.symm,
    h.parentHash.trans h'.parentHash.symm, h.qRoot.trans h'.qRoot.symm,
    h.transactionRoot.trans h'.transactionRoot.symm, h.eventRoot.trans h'.eventRoot.symm,
    h.time.trans h'.time.symm, Fin.ext (h.signedStake.trans h'.signedStake.symm),
    Fin.ext (h.totalStake.trans h'.totalStake.symm)⟩

/-- The stake that attests is bounded as the roster is. -/
theorem stakeOf_attesting_le {active : List RosterMember} (hsize : active.length ≤ maxRoster)
    (attestations : List Attestation) :
    stakeOf (attesting active attestations) ≤ maxRoster * 18446744073709551615 :=
  stakeOf_le ((List.length_filter_le _ _).trans hsize)

/-- An accepted certificate meets the conditions. -/
theorem finalizes_of_accepted (hmin : 1 ≤ chain.minSelfStake) {finalized : FinalizedHeader}
    (h : verifyFinality chain chainId genesisHash headerBytes certificateBytes roster
      = .ok finalized) :
    ∃ header envelope attestations reveals,
      Finalizes chain chainId genesisHash headerBytes certificateBytes roster header envelope
        attestations reveals ∧
      Reports header (stakeOf (attesting (activeSet chain roster) attestations))
        (stakeOf (activeSet chain roster)) finalized := by
  -- one line for each check, in the order they are made
  obtain ⟨hsize, h⟩ := guard_ok h
  obtain ⟨named, hnamed, h⟩ := bind_ok h
  have hroster := wellFormed_iff.mp ⟨hsize, named, hnamed⟩
  obtain ⟨hids, hlength, hstake, hkeys⟩ := hroster.active hmin
  have htotal := totalStake_val hlength
  obtain ⟨hcarries, h⟩ := guard_ok h
  obtain ⟨header, hheader, h⟩ := value_ok h
  obtain ⟨⟨envelope, attestations, reveals⟩, hdecoded, h⟩ := bind_ok h
  obtain ⟨hnames, h⟩ := guard_ok h
  obtain ⟨view, hview, h⟩ := value_ok h
  obtain ⟨⟨signed, seen⟩, hcount, h⟩ := bind_ok h
  obtain ⟨u, hreveals, h⟩ := bind_ok h
  obtain ⟨hthirds, h⟩ := guard_ok h
  push Not at hnames
  have hsigned := counted_stake hids hlength hcount
  obtain ⟨hcounted, honce, -⟩ :=
    (countAttestations_iff hids hstake hkeys).mp ⟨(signed, seen), hcount⟩
  cases h
  refine ⟨header, envelope, attestations, reveals, ?_,
    ⟨rfl, rfl, rfl, rfl, rfl, rfl, rfl, hsigned, htotal⟩⟩
  refine ⟨hroster, ?_, hheader, hdecoded, hnames.1, hnames.2, ?_, ⟨view, hcounted⟩, honce, ?_,
    (two_thirds_iff hsigned htotal (stakeOf_attesting_le hlength attestations)
      (stakeOf_le hlength)).mp hthirds⟩
  · rw [← htotal]
    exact Nat.pos_of_ne_zero (fun hzero => hcarries (Fin.ext hzero))
  · rintro rfl
    cases hview
  · exact fun reveal hreveal => (checkReveal_iff hids).mp (forM_iff.mp hreveals reveal hreveal)

/-- A certificate that meets the conditions is accepted. -/
theorem accepted_of_finalizes (hmin : 1 ≤ chain.minSelfStake) {header : Header}
    {envelope : Envelope} {attestations : List Attestation} {reveals : List (U64 × Credential)}
    (h : Finalizes chain chainId genesisHash headerBytes certificateBytes roster header envelope
      attestations reveals) :
    ∃ finalized, verifyFinality chain chainId genesisHash headerBytes certificateBytes roster
        = .ok finalized ∧
      Reports header (stakeOf (attesting (activeSet chain roster) attestations))
        (stakeOf (activeSet chain roster)) finalized := by
  obtain ⟨hids, hlength, hstake, hkeys⟩ := h.wellFormed.active hmin
  obtain ⟨hsize, named, hnamed⟩ := wellFormed_iff.mpr h.wellFormed
  have htotal := totalStake_val hlength
  have hcarries : totalStake (activeSet chain roster) ≠ 0 := by
    intro hzero
    have hstaked := h.staked
    rw [← htotal, hzero] at hstaked
    exact absurd hstaked (lt_irrefl 0)
  -- the view of the first attestation is the common one
  obtain ⟨view, hcounted⟩ := h.counted
  have hview : attestations.head?.map (·.view) = some view := by
    obtain ⟨first, rest, hcons⟩ := List.exists_cons_of_ne_nil h.attested
    obtain ⟨m, -, hcounts⟩ := hcounted first (hcons ▸ List.mem_cons_self)
    rw [hcons]
    exact congrArg some hcounts.inView
  have hfold : ∃ tally : Tally, attestations.foldlM (countAttestation chain chainId genesisHash
      (activeSet chain roster) envelope view) (0, ∅) = .ok tally :=
    (countAttestations_iff hids hstake hkeys).mpr
      ⟨hcounted, h.once, fun a _ => Finset.notMem_empty a.fromId⟩
  obtain ⟨⟨signed, seen⟩, hcount⟩ := hfold
  have hsigned := counted_stake hids hlength hcount
  have hnames : ¬ (envelope.block ≠ chain.newBlock header.height header.hash (parentOf header)
      ∨ envelope.height ≠ header.height) := by
    push Not
    exact ⟨h.names, h.height⟩
  have hreveals : reveals.forM (checkReveal chain (activeSet chain roster) envelope.slot)
      = .ok () :=
    forM_iff.mpr fun reveal hreveal => (checkReveal_iff hids).mpr (h.revealed reveal hreveal)
  have hthirds := (two_thirds_iff hsigned htotal (stakeOf_attesting_le hlength attestations)
    (stakeOf_le hlength)).mpr h.enough
  -- the checks pass one after the other, in the order they are made
  refine ⟨_, guard_pass hsize (bind_pass hnamed (guard_pass hcarries (value_pass h.parsed
    (bind_pass h.decoded (guard_pass hnames (value_pass hview (bind_pass hcount
      (bind_pass hreveals (guard_pass hthirds rfl))))))))), ?_⟩
  exact ⟨rfl, rfl, rfl, rfl, rfl, rfl, rfl, hsigned, htotal⟩

/-- **A header is final exactly when its conditions are met**, and the client
    then learns its fields and the exact sums. -/
theorem verify_finality_iff (hmin : 1 ≤ chain.minSelfStake) (finalized : FinalizedHeader) :
    verifyFinality chain chainId genesisHash headerBytes certificateBytes roster = .ok finalized ↔
      ∃ header envelope attestations reveals,
        Finalizes chain chainId genesisHash headerBytes certificateBytes roster header envelope
          attestations reveals ∧
        Reports header (stakeOf (attesting (activeSet chain roster) attestations))
          (stakeOf (activeSet chain roster)) finalized := by
  constructor
  · exact finalizes_of_accepted hmin
  · rintro ⟨header, envelope, attestations, reveals, hfinal, hreports⟩
    obtain ⟨accepted, haccepted, hreports'⟩ := accepted_of_finalizes hmin hfinal
    rw [haccepted, reports_unique hreports' hreports]

end Check

/-- The certificate of a roster of one reports the whole stake. -/
theorem verify_finality_iff_of_one :
    ∃ finalized, verifyFinality plainChain 1 (filled 0) [1, 0] (soleCertificate 0) [soleValidator]
        = .ok finalized ∧ finalized.totalStake.val = 10 := by
  obtain ⟨finalized, haccepted⟩ := sole_accepted 0
  have hmin : 1 ≤ plainChain.minSelfStake := by decide
  obtain ⟨header, envelope, attestations, reveals, -, hreports⟩ :=
    (verify_finality_iff hmin finalized).mp haccepted
  exact ⟨finalized, haccepted, hreports.totalStake⟩

end QCoreFinalityExact
