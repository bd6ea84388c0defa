import Mathlib
import QCore.MachineIntProofs
import QCore.ByteMemoryProofs
import QCore.SortedMapProofs
import QCore.FallibleProofs
import QCore.TraceProofs
import QCore.JsonProofs
import QCore.WireProofs
import QCore.CratesProofs
import QCore.CertificateProofs
import QCore.FinalityProofs
import QCore.RosterProofs
import QCore.ClientProofs
import QCore.TrustProofs

/-! # Headers a gateway proves

    A gateway answers a height with a header and a certificate.  The client
    works the epoch out from the header, follows its rosters to that epoch and
    checks the certificate against the roster it finds.  `CertifiedBy` is what a
    header that passes has behind it. -/

namespace QCoreHead

open QCoreMachineInt QCoreByteMemory QCoreSortedMap QCoreFallible QCoreTrace QCoreTrace.Traced
  QCoreJson QCoreWire QCoreCrates QCoreCertificate QCoreFinality QCoreRoster QCoreClient
  QCoreClient.Client QCoreTrust

variable (self : Client)

/-- The epoch of a header, which a gateway may not report otherwise. -/
def epochOfHeader (header : List UInt8) (reported : Option U64) : Except String U64 := do
  let height ← headerHeight self.chain header
  let epoch ← epochOf height (← epochLength self)
  match reported with
  | some reported =>
      refuseIf (reported ≠ epoch)
        s!"the gateway names epoch {reported} for height {height}, which lies in epoch {epoch}, refusing to choose a roster on its word"
      return epoch
  | none => return epoch

/-- Ask for the certified header of a height. -/
def certifiedAt (height : U64) : ClientM (U64 × List UInt8 × List UInt8) := do
  let text ← self.rpc "get_finality" (Json.object [("height", .int height)]).render
  let finality ← parse text
  let header ← hexField finality "header_bytes" "the finality answer carries no header"
  let certificate ← hexField finality "certificate" "the finality answer carries no certificate"
  let named ← headerHeight self.chain header
  refuseIf (named ≠ height)
    s!"the gateway answered a finality proof for another height when asked for height {height}"
  let epoch ← epochOfHeader self header ((finality.get "epoch").bind Json.asU64)
  return (epoch, header, certificate)

/-- Whether the network or the chain a gateway reports is a mainnet one. -/
def needsRoster (info : NodeInfo) : Bool :=
  self.network.isMainnet || isMainnetChain self.crates.toCrates info.chainId
    || self.network.chainId.any (isMainnetChain self.crates.toCrates)

/-- Check the head a gateway reports against the rosters that are trusted. -/
def verifyTrustedHead (chainId : U64) (info : NodeInfo) : ClientM Bool := do
  let (epoch, header, certificate) ← certifiedAt self info.headHeight
  let trusted ← rosterForEpoch self chainId epoch
  let (genesisHash, members) ← okOr trusted "no trusted validator roster is held"
  let epochLength ← epochLength self
  let verified ← verifyFinalityInEpoch self.chain chainId genesisHash epochLength
    { epoch, members } header certificate
  refuseIf (verified.height ≠ info.headHeight)
    s!"the gateway reports head {info.headHeight} but its finality proof is for height {verified.height}, refusing to sign"
  return true

/-- Whether the head of a gateway is verified; where a roster is needed there has to be
    one. -/
def verifyHead (info : NodeInfo) : ClientM Bool := do
  let chainId ← checkedChainId self.crates.toCrates info.chainId
  if ← anchorPinnedRoster self then verifyTrustedHead self chainId info
  else do
    refuseIf (needsRoster self info)
      "a mainnet client needs a trusted validator roster to check the head it signs against, call trust_roster first"
    return false

/-! ## What a header has behind it -/

/-- A roster that is joined to one a client trusts. -/
def TrustedIn (chainId : U64) (s : ClientState) (genesis : Bytes 32) (roster : VerifiedRoster) :
    Prop :=
  ∃ rosters start epochLength n, Trusted self s (genesis, rosters)
    ∧ rosters.get start.epoch = some start.members
    ∧ self.network.epochLength = some epochLength
    ∧ Joined self.chain chainId genesis epochLength start n roster

/-- A header certified by validators of the roster of its own epoch that hold
    more than two thirds of the roster's active stake. -/
structure CertifiedBy (chainId : U64) (genesis : Bytes 32) (roster : VerifiedRoster)
    (finalized : FinalizedHeader) : Prop where
  epoch : ∃ epochLength, self.network.epochLength = some epochLength
    ∧ epochOf finalized.height epochLength = .ok roster.epoch
  certified : ∃ headerBytes certificateBytes header envelope attestations,
    Accepted self.chain chainId genesis headerBytes certificateBytes roster.members finalized
      header envelope attestations

section

variable {self} {chainId : U64} {genesis : Bytes 32} {roster : VerifiedRoster}
  {headerBytes certificateBytes : List UInt8} {s s' : ClientState}

/-- A header that is verified is certified by the roster. -/
theorem certifiedBy_of_ok {length : U64} {finalized : FinalizedHeader}
    (hlength : QCoreTrust.epochLength self = .ok length)
    (h : verifyFinalityInEpoch self.chain chainId genesis length roster headerBytes
      certificateBytes = .ok finalized) : CertifiedBy self chainId genesis roster finalized := by
  obtain ⟨hverify, -, hepoch⟩ := verifyFinalityInEpoch_ok h
  obtain ⟨header, envelope, attestations, hacc⟩ := accepted_spec hverify
  exact ⟨⟨length, epochLength_ok hlength, hepoch⟩, headerBytes, certificateBytes, header, envelope,
    attestations, hacc⟩

theorem TrustedIn.of_later (hlater : Later s s') (h : TrustedIn self chainId s' genesis roster) :
    TrustedIn self chainId s genesis roster := by
  obtain ⟨rosters, start, length, n, htrusted, h⟩ := h
  exact ⟨rosters, start, length, n, htrusted.of_later hlater, h⟩

/-- What is trusted once a client is anchored was trusted before. -/
theorem TrustedIn.of_anchored (hanchor : Gives (anchorPinnedRoster self) s true s')
    (h : TrustedIn self chainId s' genesis roster) :
    TrustedIn self chainId s genesis roster := by
  obtain ⟨rosters, start, length, n, htrusted, h⟩ := h
  rcases anchorPinnedRoster_gives hanchor with ⟨-, trusted, turn, hbefore, rfl⟩ | ⟨hfalse, -⟩
  · rcases htrusted with hsome | ⟨hnone, -⟩
    · cases hsome
      exact ⟨rosters, start, length, n, hbefore, h⟩
    · exact nomatch hnone
  · exact nomatch hfalse

/-- A roster for an epoch is joined to one that is trusted. -/
theorem rosterForEpoch_gives {epoch : U64} {members : List RosterMember}
    (h : Gives (rosterForEpoch self chainId epoch) s (some (genesis, members)) s') :
    TrustedIn self chainId s genesis { epoch, members } := by
  obtain ⟨anchored, t, hanchor, h⟩ := gives_bind h
  cases anchored with
  | false => exact nomatch (gives_pure h).1
  | true =>
      rw [if_pos rfl] at h
      have h := gives_read_bind h
      refine TrustedIn.of_anchored hanchor ?_
      split at h
      · exact nomatch (gives_pure h).1
      · next trusted htrusted =>
          obtain ⟨start, _, length, hanswer, hstored, hlength, hfound⟩ := followRosters_gives (givesBy_of_gives h)
          obtain ⟨n, hjoined⟩ := joined_of_found hfound
          cases hanswer
          exact ⟨_, start, length, n, Or.inl htrusted, hstored, hlength, hjoined⟩

theorem certifiedAt_asks (height : U64) : Asks (certifiedAt self height) := by
  refine within_bind (rpc_asks (by decide) _) (fun _ => within_bind (within_ofExcept _) (fun _ => ?_))
  refine within_bind (within_ofExcept _) (fun _ => within_bind (within_ofExcept _) (fun _ => ?_))
  refine within_bind (within_ofExcept _) (fun _ => within_bind (within_ofExcept _) (fun _ => ?_))
  exact within_bind (within_ofExcept _) (fun _ => within_pure _)

/-- To check the head follows rosters and no more. -/
theorem verifyHead_follows (info : NodeInfo) : Follows (verifyHead self info) := by
  refine within_bind (within_ofExcept _) (fun chainId => ?_)
  refine within_bind anchorPinnedRoster_follows (fun anchored => ?_)
  split
  · refine within_bind (follows_of_asks (certifiedAt_asks _)) ?_
    rintro ⟨epoch, header, certificate⟩
    refine within_bind rosterForEpoch_follows (fun _ => within_bind (within_ofExcept _) ?_)
    rintro ⟨genesis, members⟩
    refine within_bind (within_ofExcept _) (fun _ => within_bind (within_ofExcept _) (fun _ => ?_))
    exact within_bind (within_ofExcept _) (fun _ => within_pure _)
  · exact within_bind (within_ofExcept _) (fun _ => within_pure _)

/-- **A verified head** is certified by the roster of its epoch, joined to one
    that is trusted. -/
theorem verifyHead_gives {info : NodeInfo} (h : Gives (verifyHead self info) s true s') :
    ∃ chainId genesis roster finalized,
      checkedChainId self.crates.toCrates info.chainId = .ok chainId
        ∧ finalized.height = info.headHeight
        ∧ CertifiedBy self chainId genesis roster finalized
        ∧ TrustedIn self chainId s genesis roster := by
  obtain ⟨chainId, hchain, h⟩ := gives_value h
  obtain ⟨anchored, t, hanchor, h⟩ := gives_bind h
  cases anchored with
  | false =>
      obtain ⟨-, h⟩ := gives_guard h
      exact nomatch (gives_pure h).1
  | true =>
      rw [if_pos rfl] at h
      obtain ⟨⟨epoch, header, certificate⟩, t', hcertified, h⟩ := gives_bind h
      obtain ⟨trusted, t'', htrusted, h⟩ := gives_bind h
      obtain ⟨⟨genesis, members⟩, hsome, h⟩ := gives_value h
      rw [okOr_ok hsome] at htrusted
      obtain ⟨length, hlength, h⟩ := gives_value h
      obtain ⟨finalized, hverify, h⟩ := gives_value h
      obtain ⟨hheight, -⟩ := gives_guard h
      -- the roster was chosen after the certificate was asked for
      have hin := (rosterForEpoch_gives htrusted).of_later
        ((certifiedAt_asks info.headHeight).gives hcertified)
      exact ⟨chainId, genesis, _, finalized, hchain, not_not.mp hheight,
        certifiedBy_of_ok hlength hverify, hin.of_anchored hanchor⟩

end

end QCoreHead
