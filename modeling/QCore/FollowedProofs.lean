import Mathlib
import QCore.MachineIntProofs
import QCore.ByteMemoryProofs
import QCore.SortedMapProofs
import QCore.FallibleProofs
import QCore.TraceProofs
import QCore.TransitionProofs
import QCore.QuorumProofs
import QCore.JsonProofs
import QCore.WireProofs
import QCore.CratesProofs
import QCore.CertificateProofs
import QCore.FinalityProofs
import QCore.FinalitySafetyProofs
import QCore.RosterProofs
import QCore.ClientProofs
import QCore.TrustProofs
import QCore.RosterRunProofs
import QCore.HeadProofs
import QCore.ConfirmationProofs
import QCore.AccountProofs
import QCore.ClientRunProofs

/-! # What stands behind what a client tells

    A client tells its caller of a header or an account only on a certificate that its
    gateway showed it, accepted under a roster that it followed from where it started.
    Every roster on the way was shown too, with a header, a certificate and a proof.

    So all that a client is told over a run of calls is traced to the answers of its
    gateway in that run: `Took` is a certificate that was shown and accepted, and
    `run_told` finds one behind everything that is told. -/

namespace QCoreFollowed

open QCoreMachineInt QCoreByteMemory QCoreSortedMap QCoreFallible QCoreTrace QCoreTrace.Traced
  QCoreTransition QCoreJson QCoreWire QCoreCrates QCoreCertificate QCoreFinality
  QCoreFinalitySafety QCoreRoster QCoreClient QCoreClient.Client QCoreTrust QCoreRosterRun
  QCoreHead QCoreConfirmation QCoreAccount QCoreClientRun

/-! ## What was shown -/

/-- Bytes that an answer to one of the requests carries as hex. -/
def Shown (self : Client) (asked : Request → Prop) (bytes : List UInt8) : Prop :=
  ∃ answer key missing, Answered self asked answer ∧ hexField answer key missing = .ok bytes

/-- Members that an answer to one of the requests carries. -/
def ShownRoster (self : Client) (asked : Request → Prop) (members : List RosterMember) : Prop :=
  ∃ answer v, Answered self asked answer ∧ answer.get "members" = some v
    ∧ parseRoster v.render = .ok members

/-- A certificate for a header was shown, and accepted under the roster of the header's
    epoch, which was followed from an anchor. -/
structure Took (client : Client) (asked : Request → Prop) (chainId : U64) (genesis : Bytes 32)
    (anchor roster : VerifiedRoster) (finalized : FinalizedHeader) (header : Header)
    (envelope : Envelope) (attestations : List Attestation) : Prop where
  followed : FoundFrom client asked chainId genesis (lengthOf client) anchor roster
  epoch : epochOf finalized.height (lengthOf client) = .ok roster.epoch
  shown : ∃ headerBytes certificateBytes, Shown client asked headerBytes
    ∧ Shown client asked certificateBytes
    ∧ Accepted client.chain chainId genesis headerBytes certificateBytes roster.members finalized
      header envelope attestations

/-- A header was taken, under some roster from the anchor. -/
abbrev TookHeader (self : Client) (asked : Request → Prop) (chainId : U64) (genesis : Bytes 32)
    (anchor : VerifiedRoster) (finalized : FinalizedHeader) : Prop :=
  ∃ roster header envelope attestations,
    Took self asked chainId genesis anchor roster finalized header envelope attestations

/-- A proof was shown of what a key holds under the state root of a header that was
    taken. -/
structure TookProof (client : Client) (asked : Request → Prop) (chainId : U64) (genesis : Bytes 32)
    (anchor : VerifiedRoster) (root : Bytes 32) (key : List UInt8) (proof : StateProof) :
    Prop where
  under : ∃ finalized, TookHeader client asked chainId genesis anchor finalized
    ∧ finalized.qRoot = root
  shown : ∃ proofBytes, Shown client asked proofBytes
    ∧ client.chain.stateProof proofBytes = some proof
  proven : client.chain.stateVerify key proof root = true

section

variable {self : Client} {asked : Request → Prop} {chainId length : U64} {genesis : Bytes 32}
  {anchor roster next : VerifiedRoster} {s s' : ClientState}

theorem lengthOf_eq (h : self.network.epochLength = some length) : lengthOf self = length := by
  rw [lengthOf, h]
  rfl

/-- A header that passes the check of its epoch, under a roster that was followed, is
    taken. -/
theorem took_of_ok {headerBytes certificateBytes : List UInt8} {finalized : FinalizedHeader}
    (hlength : self.network.epochLength = some length)
    (hfollowed : FoundFrom self asked chainId genesis (lengthOf self) anchor roster)
    (hheader : Shown self asked headerBytes) (hcertificate : Shown self asked certificateBytes)
    (h : verifyFinalityInEpoch self.chain chainId genesis length roster headerBytes
      certificateBytes = .ok finalized) :
    TookHeader self asked chainId genesis anchor finalized := by
  obtain ⟨hverify, -, hepoch⟩ := verifyFinalityInEpoch_ok h
  obtain ⟨header, envelope, attestations, hacc⟩ := accepted_spec hverify
  exact ⟨roster, header, envelope, attestations, hfollowed, (lengthOf_eq hlength).symm ▸ hepoch,
    headerBytes, certificateBytes, hheader, hcertificate, hacc⟩

/-- The block that seals an epoch lies in it. -/
theorem epochOf_sealingHeight {epoch epochLength height : U64}
    (h : sealingHeight epoch epochLength = .ok height) :
    epochOf height epochLength = .ok epoch := by
  obtain ⟨hlength, h⟩ := guard_ok h
  obtain ⟨next, hnext, h⟩ := Option.bind_eq_some_iff.mp (okOr_ok h)
  obtain ⟨start, hstart, h⟩ := Option.bind_eq_some_iff.mp h
  rw [checkedAdd_eq_some] at hnext
  rw [checkedMul_eq_some] at hstart
  rw [checkedSub_eq_some] at h
  refine guard_pass hlength (congrArg Except.ok (Fin.ext ?_))
  have hone : (1 : U64).val = 1 := rfl
  have hpos : 0 < epochLength.val := Nat.pos_of_ne_zero (fun hz => hlength (Fin.ext hz))
  have hsealed : height.val = epoch.val * epochLength.val + (epochLength.val - 1) := by
    rw [hone] at hnext h
    rw [hnext, Nat.add_mul] at hstart
    omega
  show height.val / epochLength.val = epoch.val
  rw [hsealed, Nat.mul_comm, Nat.mul_add_div hpos, Nat.div_eq_of_lt (by omega), Nat.add_zero]

/-- **A roster that was found** was shown, and proven under the header that seals the
    epoch of the one before, which was taken. -/
theorem found_took (hfollowed : FoundFrom self asked chainId genesis (lengthOf self) anchor roster)
    (h : Found self asked chainId genesis (lengthOf self) roster next) :
    ∃ finalized header envelope attestations proof,
      Took self asked chainId genesis anchor roster finalized header envelope attestations
        ∧ sealingHeight roster.epoch (lengthOf self) = .ok finalized.height
        ∧ ShownRoster self asked next.members
        ∧ TookProof self asked chainId genesis anchor finalized.qRoot
          (self.chain.rosterCommitmentKey next.epoch) proof
        ∧ proof.value = some (rosterCommitmentOf self.chain next.epoch next.members) := by
  obtain ⟨answer, members, headerBytes, certificateBytes, proofBytes, hanswer, ⟨v, hv, hmembers⟩,
    hheader, hcertificate, hproof, hok⟩ := h.shown
  obtain ⟨finalized, proof, hnext, rfl, hparsed⟩ := nextRoster_spec hok
  obtain ⟨header, envelope, attestations, hacc⟩ := accepted_spec hnext.certified
  have htook : Took self asked chainId genesis anchor roster finalized header envelope
      attestations :=
    ⟨hfollowed, epochOf_sealingHeight hnext.sealing, headerBytes, certificateBytes,
      ⟨_, _, _, hanswer, hheader⟩, ⟨_, _, _, hanswer, hcertificate⟩, hacc⟩
  exact ⟨finalized, header, envelope, attestations, proof, htook, hnext.sealing,
    ⟨answer, v, hanswer, hv, hmembers⟩, ⟨⟨finalized, ⟨_, _, _, _, htook⟩, rfl⟩,
      ⟨proofBytes, ⟨_, _, _, hanswer, hproof⟩, hparsed⟩, hnext.proven⟩, hnext.committed⟩

/-- Rosters are followed upwards. -/
theorem foundFrom_epoch (h : FoundFrom self asked chainId genesis length anchor roster) :
    anchor.epoch.val ≤ roster.epoch.val := by
  induction h with
  | refl => exact le_refl _
  | tail _ hfound ih =>
      rw [hfound.step.epoch]
      exact Nat.le_succ_of_le ih

end

/-! ## Where a client starts -/

/-- What a client starts from: one roster that it was given, or a commitment that its
    network pins to the roster of the first epoch. -/
inductive Start
  | given (anchor : VerifiedRoster)
  | pinned (commitment : Bytes 32)

/-- A client was just given the roster, or its network pins the commitment and it trusts no
    roster yet. -/
inductive Start.Begins (self : Client) (genesis : Bytes 32) : Start → ClientState → Prop
  | given {anchor : VerifiedRoster} {s₀ s : ClientState} {u : Unit}
      (h : Gives (trustRosterAt genesis anchor.epoch anchor.members) s₀ u s) :
      Start.Begins self genesis (.given anchor) s
  | pinned {commitment : Bytes 32} {s : ClientState} (hnone : s.trustedRoster = none)
      (hgenesis : self.network.genesisHash = some genesis)
      (hcommitment : self.network.rosterCommitment = some commitment) :
      Start.Begins self genesis (.pinned commitment) s

/-- The rosters that a client may be anchored at: the one it was given, or one of the first
    epoch that was shown and that the commitment is to. -/
def Start.Anchors (self : Client) (asked : Request → Prop) : Start → VerifiedRoster → Prop
  | .given anchor, roster => roster = anchor
  | .pinned commitment, roster => roster.epoch = 0 ∧ ShownRoster self asked roster.members
      ∧ rosterCommitmentOf self.chain 0 roster.members = commitment.val

/-- A client trusts nothing yet and has a commitment to go by, or all it trusts was followed
    from its anchor. -/
inductive Rooted (self : Client) (asked : Request → Prop) (chainId : U64) (genesis : Bytes 32)
    (start : Start) (s : ClientState) : Prop
  | waiting {commitment : Bytes 32} (hnone : s.trustedRoster = none)
      (hgenesis : self.network.genesisHash = some genesis)
      (hcommitment : self.network.rosterCommitment = some commitment)
      (hstart : start = .pinned commitment) : Rooted self asked chainId genesis start s
  | anchored {anchor : VerifiedRoster} (hanchor : start.Anchors self asked anchor)
      (htrusts : Trusts (FoundFrom self asked chainId genesis (lengthOf self) anchor) genesis
        anchor s) : Rooted self asked chainId genesis start s

section

variable {self : Client} {asked : Request → Prop} {chainId : U64} {genesis : Bytes 32}
  {start : Start} {s s' t : ClientState}

/-- A roster that was given is trusted, and is the anchor. -/
theorem trusts_given {anchor : VerifiedRoster} {s₀ : ClientState} {u : Unit}
    (h : Gives (trustRosterAt genesis anchor.epoch anchor.members) s₀ u s) :
    Trusts (FoundFrom self asked chainId genesis (lengthOf self) anchor) genesis anchor s := by
  obtain ⟨-, h⟩ := gives_guard h
  obtain rfl := gives_modify h
  exact ⟨_, rfl, keeps_single Relation.ReflTransGen.refl⟩

theorem rooted_of_begins (h : start.Begins self genesis s) :
    Rooted self asked chainId genesis start s := by
  cases h with
  | given h => exact .anchored rfl (trusts_given h)
  | pinned hnone hgenesis hcommitment => exact .waiting hnone hgenesis hcommitment rfl

/-- Rosters that are rooted stay so while they do not change. -/
theorem Rooted.of_rosters (h : Rooted self asked chainId genesis start s)
    (hsame : t.trustedRoster = s.trustedRoster) : Rooted self asked chainId genesis start t := by
  cases h with
  | waiting hnone hgenesis hcommitment hstart =>
      exact .waiting (hsame.trans hnone) hgenesis hcommitment hstart
  | anchored hanchor htrusts =>
      obtain ⟨rosters, hrosters, hkeeps⟩ := htrusts
      exact .anchored hanchor ⟨rosters, hsame.trans hrosters, hkeeps⟩

theorem Rooted.of_later (h : Rooted self asked chainId genesis start s) (hlater : Later s t) :
    Rooted self asked chainId genesis start t := by
  obtain ⟨turn, rfl⟩ := hlater
  exact h.of_rosters rfl

/-- Anchoring a client leaves it at a roster that it was shown, if anywhere. -/
theorem anchorPinned_rooted {commitment : Bytes 32}
    (hasked : ∀ r, Emits (anchorPinned self genesis commitment) s r → asked r)
    (h : Rooted self asked chainId genesis (.pinned commitment) s) :
    Ends (Rooted self asked chainId genesis (.pinned commitment))
      (anchorPinned self genesis commitment) s := by
  have hmoves : Asks (getRosterProof self 0) := getRosterProof_asks 0
  refine ends_bind (h.of_later (hmoves.moves s)) (fun answer t hgives => ?_)
  have hanswer : Answered self asked answer :=
    getRosterProof_answered ⟨hgives, fun r hr => hasked r (emits_first hr)⟩
  have ht : Rooted self asked chainId genesis (.pinned commitment) t :=
    h.of_later (hmoves.gives hgives)
  refine ends_value ht (fun v hv => ends_value ht (fun members hmembers => ?_))
  refine ends_value ht (fun _ hcommits => ?_)
  have hanchor : (Start.pinned commitment).Anchors self asked { epoch := 0, members } :=
    ⟨rfl, ⟨answer, v, hanswer, okOr_ok hv, hmembers⟩, not_not.mp (refuseIf_ok hcommits)⟩
  have htrust : Ends (Rooted self asked chainId genesis (.pinned commitment))
      (trustRosterAt genesis 0 members) t := by
    refine ends_value ht (fun _ _ => ?_)
    exact .anchored hanchor ⟨_, rfl, keeps_single Relation.ReflTransGen.refl⟩
  exact ends_bind htrust (fun _ _ hgives => hgives.2 ▸ htrust)

/-- To anchor the pinned roster keeps the rosters rooted. -/
theorem anchorPinnedRoster_rooted
    (hasked : ∀ r, Emits (anchorPinnedRoster self) s r → asked r)
    (h : Rooted self asked chainId genesis start s) :
    Ends (Rooted self asked chainId genesis start) (anchorPinnedRoster self) s := by
  cases h with
  | @waiting commitment hnone hgenesis hcommitment hstart =>
      subst hstart
      have hrun : anchorPinnedRoster self s = anchorPinned self genesis commitment s := by
        rw [anchorPinnedRoster, read_bind]
        simp only [hnone, hgenesis, hcommitment]
      rw [Ends, hrun]
      refine anchorPinned_rooted (fun r hr => hasked r ?_)
        (.waiting hnone hgenesis hcommitment rfl)
      rw [Emits, hrun]
      exact hr
  | anchored hanchor htrusts =>
      obtain ⟨rosters, hrosters, -⟩ := id htrusts
      rw [Ends, anchorPinnedRoster_trusted hrosters]
      exact .anchored hanchor htrusts

/-- Following rosters leaves a client with rosters from its anchor. -/
theorem followRosters_rooted {epoch : U64} {anchor : VerifiedRoster}
    {rosters : SortedMap U64 (List RosterMember)}
    (hasked : ∀ r, Emits (followRosters self chainId epoch (genesis, rosters)) s r → asked r)
    (hanchor : start.Anchors self asked anchor) (hrosters : s.trustedRoster = some (genesis, rosters))
    (hkeeps : Keeps (FoundFrom self asked chainId genesis (lengthOf self) anchor) anchor rosters) :
    Ends (Rooted self asked chainId genesis start)
      (followRosters self chainId epoch (genesis, rosters)) s := by
  have htrusts : Trusts (FoundFrom self asked chainId genesis (lengthOf self) anchor) genesis anchor
      s := ⟨rosters, hrosters, hkeeps⟩
  cases hstart : startingRoster rosters epoch with
  | error e =>
      refine ends_value (.anchored hanchor htrusts) (fun start' hstart' => ?_)
      exact nomatch hstart.symm.trans hstart'
  | ok first =>
      obtain ⟨hstored, -⟩ := startingRoster_ok hstart
      cases hlength : epochLength self with
      | error e =>
          refine ends_value (.anchored hanchor htrusts) (fun _ _ => ?_)
          refine ends_value (.anchored hanchor htrusts) (fun _ hlength' => ?_)
          exact nomatch hlength.symm.trans hlength'
      | ok length =>
          have hrun : followRosters self chainId epoch (genesis, rosters) s
              = (walk self chainId genesis length epoch (epoch.val - first.epoch.val) first
                  >>= fun current => pure (some (genesis, current.members))) s := by
            rw [followRosters, hstart, hlength]
            rfl
          rw [Ends, hrun]
          simp only [Emits, hrun] at hasked
          have hsame := lengthOf_eq (epochLength_ok hlength)
          have hwalk : Ends (Trusts (FoundFrom self asked chainId genesis (lengthOf self) anchor)
              genesis anchor)
              (walk self chainId genesis length epoch (epoch.val - first.epoch.val) first) s :=
            walk_keeps (fun hcurrent hfound => hcurrent.tail (hsame ▸ hfound))
              (hkeeps.each hstored) (hkeeps.least hstored)
              (fun r hr => hasked r (emits_first hr)) htrusts
          refine ends_bind (.anchored hanchor hwalk) (fun _ _ hgives => ?_)
          exact .anchored hanchor (hgives.2 ▸ hwalk)

/-- So does looking up the roster of an epoch. -/
theorem rosterForEpoch_rooted {epoch : U64}
    (hasked : ∀ r, Emits (rosterForEpoch self chainId epoch) s r → asked r)
    (h : Rooted self asked chainId genesis start s) :
    Ends (Rooted self asked chainId genesis start) (rosterForEpoch self chainId epoch) s := by
  have hanchored := anchorPinnedRoster_rooted (fun r hr => hasked r (emits_first hr)) h
  refine ends_bind hanchored (fun anchored t hgives => ?_)
  have ht : Rooted self asked chainId genesis start t := hgives.2 ▸ hanchored
  have hthen := fun r hr => hasked r (emits_then hgives hr)
  cases anchored with
  | false => exact ht
  | true =>
      simp only [if_true, Emits, read_bind] at hthen
      rw [if_pos rfl, Ends, read_bind]
      cases ht with
      | waiting hnone hgenesis hcommitment hstart =>
          simp only [hnone]
          exact .waiting hnone hgenesis hcommitment hstart
      | anchored hanchor htrusts =>
          obtain ⟨rosters, hrosters, hkeeps⟩ := htrusts
          simp only [hrosters] at hthen ⊢
          exact followRosters_rooted hthen hanchor hrosters hkeeps

/-- **What a client comes to trust was followed** from where it started, by what it asked
    for. -/
theorem touches_keep_rooted {name : String} (hname : self.network.chainId = some name)
    (h : Touches self asked s t)
    (hrooted : Rooted self asked (self.crates.chainIdFromName name) genesis start s) :
    Rooted self asked (self.crates.chainIdFromName name) genesis start t := by
  induction h with
  | refl => exact hrooted
  | tail _ htouch ih =>
      cases htouch with
      | steady hsteady => exact ih.of_rosters hsteady.2
      | pin _ _ hsame => exact ih.of_rosters hsame
      | look hlook =>
          cases hlook with
          | later hlater => exact ih.of_later hlater
          | anchor hsent => exact anchorPinnedRoster_rooted hsent ih
          | follow hchain hsent =>
              rw [hchain name hname] at hsent ⊢
              exact rosterForEpoch_rooted hsent ih

/-- **The roster of an epoch** that a client comes to was followed from its anchor. -/
theorem rosterForEpoch_followed {epoch : U64} {genesis' : Bytes 32} {members : List RosterMember}
    (h : Rooted self asked chainId genesis start s)
    (hgives : GivesBy asked (rosterForEpoch self chainId epoch) s (some (genesis', members)) s') :
    genesis' = genesis ∧ ∃ anchor, start.Anchors self asked anchor
      ∧ FoundFrom self asked chainId genesis (lengthOf self) anchor { epoch, members } := by
  obtain ⟨anchored, t, hanchored, hrest⟩ := givesBy_bind hgives
  have ht : Rooted self asked chainId genesis start t :=
    hanchored.1.2 ▸ anchorPinnedRoster_rooted hanchored.2 h
  cases anchored with
  | false => exact nomatch (gives_pure hrest.1).1
  | true =>
      rw [if_pos rfl] at hrest
      have hrest := givesBy_read hrest
      cases ht with
      | waiting hnone =>
          simp only [hnone] at hrest
          exact nomatch (gives_pure hrest.1).1
      | anchored hanchor htrusts =>
          obtain ⟨rosters, hrosters, hkeeps⟩ := htrusts
          simp only [hrosters] at hrest
          obtain ⟨first, _, length, hanswer, hstored, hlength, hfound⟩ := followRosters_gives hrest
          cases hanswer
          rw [← lengthOf_eq hlength] at hfound
          exact ⟨rfl, _, hanchor, (hkeeps.each hstored).trans hfound⟩

end

/-! ## What is told -/

variable {AccountLeaf : Type}

/-- The header behind what a caller is told. -/
def headerOf : Told AccountLeaf → Option FinalizedHeader
  | .confirmed c => some c.header
  | .account v => some v.header
  | .other => none

/-- What is told rests on a header that was taken, and an account on a proof under it. -/
def Backed (self : Client) (accounts : AccountCrates AccountLeaf) (asked : Request → Prop)
    (chainId : U64) (genesis : Bytes 32) (anchor : VerifiedRoster) : Told AccountLeaf → Prop
  | .confirmed c => TookHeader self asked chainId genesis anchor c.header
  | .account v => TookHeader self asked chainId genesis anchor v.header
      ∧ ∃ proof, TookProof self asked chainId genesis anchor v.header.qRoot
          (accounts.accountStateKey v.address) proof ∧ accountOf accounts proof.value = .ok v.account
  | .other => True

section

variable {self : Client} {accounts : AccountCrates AccountLeaf} {asked : Request → Prop}
  {name : String} {genesis : Bytes 32} {start : Start} {s s' t : ClientState}
  {log : List (Done AccountLeaf)} {told : Told AccountLeaf}

/-- What a caller is told of a header was taken. -/
theorem Backed.header {chainId : U64} {anchor : VerifiedRoster} {finalized : FinalizedHeader}
    (h : Backed self accounts asked chainId genesis anchor told)
    (hheader : headerOf told = some finalized) :
    TookHeader self asked chainId genesis anchor finalized := by
  cases told with
  | confirmed c => cases hheader; exact h
  | account v => cases hheader; exact h.1
  | other => exact nomatch hheader

/-- A certificate that is asked for at a height is shown with its header. -/
theorem certifiedAt_shown {height epoch : U64} {header certificate : List UInt8}
    (h : GivesBy asked (certifiedAt self height) s (epoch, header, certificate) s') :
    Shown self asked header ∧ Shown self asked certificate := by
  obtain ⟨text, t, htext, h⟩ := givesBy_bind h
  obtain ⟨r, hr, hanswer⟩ := rpc_givesBy htext
  obtain ⟨answer, hparsed, h⟩ := givesBy_value h
  obtain ⟨header', hheader, h⟩ := givesBy_value h
  obtain ⟨certificate', hcertificate, h⟩ := givesBy_value h
  obtain ⟨_, -, h⟩ := givesBy_value h
  obtain ⟨-, h⟩ := givesBy_guard h
  obtain ⟨_, -, h⟩ := givesBy_value h
  cases (gives_pure h.1).1
  have hanswered : Answered self asked answer := ⟨r, text, hr, hanswer, hparsed⟩
  exact ⟨⟨answer, _, _, hanswered, hheader⟩, answer, _, _, hanswered, hcertificate⟩

/-- An inclusion is told of a header that was taken. -/
theorem inclusion_backed {txId : String} {c : ConfirmedTransaction}
    (hname : self.network.chainId = some name)
    (hrooted : Rooted self asked (self.crates.chainIdFromName name) genesis start s)
    (h : GivesBy asked (inclusion self txId none) s c s') :
    ∃ anchor, start.Anchors self asked anchor
      ∧ TookHeader self asked (self.crates.chainIdFromName name) genesis anchor c.header := by
  obtain ⟨info, t₁, hinfo, h⟩ := givesBy_bind h
  obtain ⟨chainId, hchain, h⟩ := givesBy_value h
  obtain rfl := onChain_of_checkedChain hchain name hname
  obtain ⟨⟨height, index, leaf, steps⟩, t₂, hproof, h⟩ := givesBy_bind h
  obtain ⟨⟨epoch, header, certificate⟩, t₃, hcertified, h⟩ := givesBy_bind h
  obtain ⟨⟨genesis', roster⟩, t₄, hroster, h⟩ := givesBy_bind h
  obtain ⟨length, hlength, h⟩ := givesBy_value h
  obtain ⟨verified, hverify, h⟩ := givesBy_value h
  obtain ⟨-, h⟩ := givesBy_guard h
  obtain ⟨-, h⟩ := givesBy_guard h
  obtain ⟨-, h⟩ := givesBy_guard h
  obtain ⟨kind, -, h⟩ := givesBy_value h
  obtain ⟨rfl, -⟩ := gives_pure h.1
  -- the requests before the roster is looked up change nothing it rests on
  have hlater : Later s t₃ := IsTrans.trans _ _ _ (nodeInfo_asks.gives hinfo.1)
    (IsTrans.trans _ _ _ ((transactionProof_asks txId).gives hproof.1)
      ((certifiedAt_asks height).gives hcertified.1))
  obtain ⟨answer, t₅, hanswer, hroster⟩ := givesBy_bind hroster
  obtain ⟨⟨_, members⟩, hsome, hroster⟩ := givesBy_value hroster
  rw [okOr_ok hsome] at hanswer
  cases (gives_pure hroster.1).1
  obtain ⟨rfl, anchor, hanchor, hfollowed⟩ :=
    rosterForEpoch_followed (hrooted.of_later hlater) hanswer
  obtain ⟨hheader, hcertificate⟩ := certifiedAt_shown hcertified
  exact ⟨anchor, hanchor,
    took_of_ok (epochLength_ok hlength) hfollowed hheader hcertificate hverify⟩

/-- A verified account is backed by what the gateway showed. -/
theorem verifiedAccount_backed {address : String} {v : VerifiedAccount AccountLeaf}
    (hname : self.network.chainId = some name)
    (hrooted : Rooted self asked (self.crates.chainIdFromName name) genesis start s)
    (h : GivesBy asked (verifiedAccount self accounts address) s v s') :
    ∃ anchor, start.Anchors self asked anchor
      ∧ Backed self accounts asked (self.crates.chainIdFromName name) genesis anchor
        (.account v) := by
  obtain ⟨info, t₁, hinfo, h⟩ := givesBy_bind h
  obtain ⟨chainId, hchain, h⟩ := givesBy_value h
  obtain rfl := onChain_of_checkedChain hchain name hname
  obtain ⟨answer, t₂, hanswer, h⟩ := givesBy_bind h
  obtain ⟨header, hheader, h⟩ := givesBy_value h
  obtain ⟨epoch, -, h⟩ := givesBy_value h
  obtain ⟨trusted, t₃, htrusted, h⟩ := givesBy_bind h
  obtain ⟨⟨genesis', members⟩, hsome, h⟩ := givesBy_value h
  rw [okOr_ok hsome] at htrusted
  obtain ⟨length, hlength, h⟩ := givesBy_value h
  obtain ⟨certificate, hcertificate, h⟩ := givesBy_value h
  obtain ⟨proofBytes, hproofBytes, h⟩ := givesBy_value h
  have hlater : Later s t₂ := IsTrans.trans _ _ _ (nodeInfo_asks.gives hinfo.1)
    ((accountProof_asks address).gives hanswer.1)
  obtain ⟨rfl, anchor, hanchor, hfollowed⟩ :=
    rosterForEpoch_followed (hrooted.of_later hlater) htrusted
  obtain ⟨text, t₄, htext, hparsed⟩ := givesBy_bind hanswer
  obtain ⟨r, hr, hreply⟩ := rpc_givesBy htext
  have hanswered : Answered self asked answer :=
    ⟨r, text, hr, hreply, (gives_ofExcept hparsed.1).1⟩
  obtain ⟨rfl, -, hfinalized, proof, hproof, hproven, haccount⟩ :=
    verifyAccount_ok (gives_ofExcept h.1).1
  -- the account is proven under the header that was taken
  have htook := took_of_ok (epochLength_ok hlength) hfollowed ⟨answer, _, _, hanswered, hheader⟩
    ⟨answer, _, _, hanswered, hcertificate⟩ hfinalized
  exact ⟨anchor, hanchor, htook, proof, ⟨⟨v.header, htook, rfl⟩,
    ⟨proofBytes, ⟨answer, _, _, hanswered, hproofBytes⟩, hproof⟩, hproven⟩, haccount⟩

/-- **What a call tells** rests on a header that was taken, or is nothing of the chain. -/
theorem call_told {call : ClientCall} (hname : self.network.chainId = some name)
    (hrooted : Rooted self asked (self.crates.chainIdFromName name) genesis start s)
    (h : GivesBy asked (call.run self accounts) s told s') :
    told = .other ∨ ∃ anchor, start.Anchors self asked anchor
      ∧ Backed self accounts asked (self.crates.chainIdFromName name) genesis anchor told := by
  cases call with
  | confirmInclusionTrusted txId =>
      obtain ⟨c, _, hc, h⟩ := givesBy_bind h
      obtain ⟨rfl, -⟩ := gives_pure h.1
      exact Or.inr (inclusion_backed hname hrooted hc)
  | confirmTransactionTrusted txId =>
      obtain ⟨c, _, hc, h⟩ := givesBy_bind h
      obtain ⟨rfl, -⟩ := gives_pure h.1
      obtain ⟨confirmed, _, hconfirmed, hc⟩ := givesBy_bind hc
      obtain ⟨rfl, -⟩ := settled_ok (gives_ofExcept hc.1).1
      exact Or.inr (inclusion_backed hname hrooted hconfirmed)
  | confirmCallEvent txId contract selector data =>
      obtain ⟨c, _, hc, h⟩ := givesBy_bind h
      obtain ⟨rfl, -⟩ := gives_pure h.1
      obtain ⟨confirmed, _, hconfirmed, hc⟩ := givesBy_bind hc
      obtain ⟨events, _, -, hc⟩ := givesBy_bind hc
      -- a proven event changes nothing but the outcome
      obtain ⟨outcome, rfl, -⟩ := provenEvent_gives hc.1
      have hbacked := inclusion_backed hname hrooted hconfirmed
      exact Or.inr hbacked
  | verifiedAccount address =>
      obtain ⟨v, _, hv, h⟩ := givesBy_bind h
      obtain ⟨rfl, -⟩ := gives_pure h.1
      exact Or.inr (verifiedAccount_backed hname hrooted hv)
  | _ =>
      obtain ⟨_, _, -, h⟩ := givesBy_bind h
      exact Or.inl (gives_pure h.1).1

/-- **Over a run**, everything that is told rests on headers that were taken in it, from
    where the client started. -/
theorem run_told (hname : self.network.chainId = some name)
    (hbegins : start.Begins self genesis s) (h : Run (Calls self accounts) s log t)
    (hasked : ∀ r, AskedIn log r → asked r) :
    ∀ done ∈ log, ∀ told, done.told = .ok told → told = .other
      ∨ ∃ anchor, start.Anchors self asked anchor
        ∧ Backed self accounts asked (self.crates.chainIdFromName name) genesis anchor told := by
  induction h with
  | nil => exact fun _ hmem => absurd hmem List.not_mem_nil
  | @cons es e u v hrun hcall ih =>
      have hearlier : ∀ r, AskedIn es r → asked r := fun r hr =>
        hasked r (hr.imp (fun _ hmem => ⟨List.mem_cons_of_mem _ hmem.1, hmem.2⟩))
      intro done hmem told htold
      rcases List.mem_cons.mp hmem with rfl | hmem
      · have hgives : Gives (done.call.run self accounts) u told v := by
          rw [Gives, hcall]
          exact ⟨htold, rfl⟩
        have hrooted := touches_keep_rooted hname (run_touches hrun hearlier).1
          (rooted_of_begins hbegins)
        exact call_told hname hrooted ⟨hgives, fun r hr =>
          hasked r ⟨done, List.mem_cons_self, (call_emits hcall).mp hr⟩⟩
      · exact ih hearlier done hmem told htold

end

end QCoreFollowed
