import Mathlib
import QCore.MachineIntProofs
import QCore.ByteMemoryProofs
import QCore.SortedMapProofs
import QCore.FallibleProofs
import QCore.TraceProofs
import QCore.JsonProofs
import QCore.WireProofs
import QCore.CertificateProofs
import QCore.FinalityProofs
import QCore.RosterProofs
import QCore.ClientProofs

/-! # The rosters a client trusts

    A client is given one roster to trust, or checks the first against a pinned
    commitment, and from then on follows the chain from epoch to epoch.  It
    keeps at most so many rosters and always the first.

    The gateway is asked for each step and its answer is checked against the
    roster before (`Found`), so what a walk returns was found from what it started
    from, step by step (`walk_found`), whatever the gateway says; and what it stores
    on the way was too (`walk_keeps`). -/

namespace QCoreTrust

open QCoreMachineInt QCoreByteMemory QCoreSortedMap QCoreFallible QCoreTrace QCoreTrace.Traced
  QCoreJson QCoreWire QCoreCertificate QCoreFinality QCoreRoster QCoreClient QCoreClient.Client

/-- How many rosters are kept. -/
def keptRosters : Nat := 32

/-- Drop the second smallest epoch until few enough are left. -/
def evict {V : Type} : Nat → SortedMap U64 V → SortedMap U64 V
  | 0, rosters => rosters
  | n + 1, rosters =>
      if keptRosters < rosters.len then
        match rosters.secondKey with
        | some oldest => evict n (rosters.remove oldest)
        | none => rosters
      else rosters

/-- Store a roster, and drop others if there are too many. -/
def storeRoster (rosters : SortedMap U64 (List RosterMember)) (roster : VerifiedRoster) :
    SortedMap U64 (List RosterMember) :=
  let rosters := rosters.insert roster.epoch roster.members
  evict rosters.len rosters

section

variable (self : Client)

/-- Trust a roster that the caller brings. -/
def trustRosterAt (genesisHash : Bytes 32) (epoch : U64) (roster : List RosterMember) :
    ClientM Unit := do
  refuseIf (roster = []) "a trusted validator roster cannot be empty"
  modify (fun s => { s with
    trustedRoster := some (genesisHash, SortedMap.empty.insert epoch roster) })

/-- Trust one for the first epoch. -/
def trustRoster (genesisHash : Bytes 32) (roster : List RosterMember) : ClientM Unit :=
  trustRosterAt genesisHash 0 roster

/-- Ask for the roster of an epoch. -/
def getRosterProof (epoch : U64) : ClientM Json := do
  let text ← self.rpc "get_roster_proof" (Json.object [("epoch", .int epoch)]).render
  parse text

/-- Ask for the roster of the first epoch and check it against the pinned
    commitment. -/
def anchorPinned (genesis commitment : Bytes 32) : ClientM Bool := do
  let answer ← getRosterProof self 0
  let members ← okOr (answer.get "members") "the roster answer carries no members"
  let members ← parseRoster members.render
  refuseIf (rosterCommitmentOf self.chain 0 members ≠ commitment.val)
    "the gateway offers a genesis roster other than the one pinned for this network, refusing to trust it"
  trustRosterAt genesis 0 members
  return true

/-- Whether there is a roster to start from: one that is trusted, or one that a pinned
    commitment is to. -/
def anchorPinnedRoster : ClientM Bool := do
  let s ← read
  match s.trustedRoster, self.network.genesisHash, self.network.rosterCommitment with
  | some _, _, _ => return true
  | none, some genesis, some commitment => anchorPinned self genesis commitment
  | none, _, _ => return false

/-- The length of an epoch, which the network has to pin. -/
def epochLength : Except String U64 :=
  let refusal := s!"no epoch length is pinned for the {self.network.name} network, so the validator roster for a height cannot be chosen without trusting the gateway; set the network epoch length"
  match self.network.epochLength with
  | some length => if 0 < length then .ok length else .error refusal
  | none => .error refusal

/-- Ask for the roster after the current one and check it. -/
def nextRoster (chainId : U64) (genesis : Bytes 32) (epochLength : U64)
    (current : VerifiedRoster) : ClientM VerifiedRoster := do
  -- the current epoch is below the one asked for, so there is a next
  let next := current.epoch + 1
  let answer ← getRosterProof self next
  refuseIf ((answer.get "epoch").bind Json.asU64 ≠ some next)
    s!"the gateway answered a roster proof for another epoch when asked for epoch {next}"
  let members ← okOr (answer.get "members") "the roster answer carries no members"
  let members ← parseRoster members.render
  let header ← hexField answer "header_bytes" "the roster answer carries no header_bytes"
  let certificate ← hexField answer "certificate" "the roster answer carries no certificate"
  let proof ← hexField answer "proof" "the roster answer carries no proof"
  verifyNextRoster self.chain chainId genesis epochLength current header certificate members proof

/-- Keep a roster that was followed. -/
def keepRoster (roster : VerifiedRoster) : ClientM Unit :=
  modify (fun s => { s with trustedRoster := s.trustedRoster.map (fun trusted =>
    (trusted.1, storeRoster trusted.2 roster)) })

/-- Follow the chain of rosters up to an epoch, storing each.  The number is how
    many steps the loop may take. -/
def walk (chainId : U64) (genesis : Bytes 32) (epochLength epoch : U64) :
    Nat → VerifiedRoster → ClientM VerifiedRoster
  | 0, current => return current
  | n + 1, current =>
      if current.epoch < epoch then do
        let next ← nextRoster self chainId genesis epochLength current
        keepRoster next
        walk chainId genesis epochLength epoch n next
      else return current

/-- The stored roster a walk to an epoch starts from. -/
def startingRoster (rosters : SortedMap U64 (List RosterMember)) (epoch : U64) :
    Except String VerifiedRoster :=
  match rosters.lastUpTo epoch with
  | some (start, members) => .ok { epoch := start, members }
  | none => .error s!"the trusted roster starts after epoch {epoch}, so that epoch cannot be checked"

/-- The roster of an epoch, from the rosters that are stored. -/
def followRosters (chainId epoch : U64) (trusted : TrustedRosters) :
    ClientM (Option (Bytes 32 × List RosterMember)) := do
  let start ← startingRoster trusted.2 epoch
  let epochLength ← epochLength self
  let current ← walk self chainId trusted.1 epochLength epoch (epoch.val - start.epoch.val) start
  return some (trusted.1, current.members)

/-- The roster of an epoch, followed from those that are trusted. -/
def rosterForEpoch (chainId epoch : U64) :
    ClientM (Option (Bytes 32 × List RosterMember)) := do
  if ← anchorPinnedRoster self then
    match (← read).trustedRoster with
    | none => return none
    | some trusted => followRosters self chainId epoch trusted
  else return none

end

/-! ## Keeping few rosters and the anchor -/

section

variable {rosters : SortedMap U64 (List RosterMember)} {anchor roster : VerifiedRoster}
  {P : VerifiedRoster → Prop}

/-- What a client's rosters satisfy: the anchor is among them and is the first,
    each has a property, and there are few. -/
structure Keeps (P : VerifiedRoster → Prop) (anchor : VerifiedRoster)
    (rosters : SortedMap U64 (List RosterMember)) : Prop where
  first : rosters.get anchor.epoch = some anchor.members
  least : ∀ {epoch members}, rosters.get epoch = some members → anchor.epoch ≤ epoch
  each : ∀ {epoch members}, rosters.get epoch = some members → P { epoch, members }
  few : rosters.len ≤ keptRosters

/-- An anchor alone is kept. -/
theorem keeps_single (hanchor : P anchor) :
    Keeps P anchor (SortedMap.empty.insert anchor.epoch anchor.members) := by
  have hget : ∀ {epoch members},
      ((∅ : SortedMap U64 (List RosterMember)).insert anchor.epoch anchor.members).get epoch
        = some members → epoch = anchor.epoch ∧ members = anchor.members := by
    intro epoch members h
    rw [SortedMap.get_insert] at h
    split at h
    · next heq => exact ⟨heq, (Option.some.inj h).symm⟩
    · exact nomatch h
  refine ⟨?_, ?_, ?_, ?_⟩
  · rw [SortedMap.get_insert, if_pos rfl]
  · intro epoch members h
    exact (hget h).1 ▸ le_refl _
  · intro epoch members h
    obtain ⟨rfl, rfl⟩ := hget h
    exact hanchor
  · exact (SortedMap.len_insert_le _ _ _).trans (by decide)

/-- Eviction never drops the first epoch, and stops when few enough are left. -/
theorem evict_keeps {fuel : Nat} (hfuel : rosters.len ≤ fuel)
    (hanchor : rosters.get anchor.epoch = some anchor.members)
    (hleast : ∀ {epoch members}, rosters.get epoch = some members → anchor.epoch ≤ epoch)
    (heach : ∀ {epoch members}, rosters.get epoch = some members → P { epoch, members }) :
    Keeps P anchor (evict fuel rosters) := by
  induction fuel generalizing rosters with
  | zero => exact ⟨hanchor, hleast, heach, hfuel.trans (Nat.zero_le _)⟩
  | succ n ih =>
      rw [evict]
      split
      · next hmany =>
          obtain ⟨oldest, holdest⟩ := SortedMap.secondKey_isSome
            (m := rosters) (lt_of_le_of_lt (by decide) hmany)
          obtain ⟨⟨v, hv⟩, k₀, v₀, hk₀, hlt⟩ := SortedMap.secondKey_some holdest
          -- the second epoch is above some stored one, so it is not the anchor
          have hne : anchor.epoch ≠ oldest := fun heq =>
            absurd (lt_of_le_of_lt (hleast hk₀) hlt) (heq ▸ lt_irrefl _)
          have hkept : ∀ {epoch members}, (rosters.remove oldest).get epoch = some members →
              rosters.get epoch = some members := by
            intro epoch members h
            rw [SortedMap.get_remove] at h
            split at h
            · exact nomatch h
            · exact h
          rw [holdest]
          refine ih ?_ ?_ (fun h => hleast (hkept h)) (fun h => heach (hkept h))
          · have := SortedMap.len_remove_lt hv
            omega
          · rw [SortedMap.get_remove, if_neg hne]
            exact hanchor
      · next hfew => exact ⟨hanchor, hleast, heach, not_lt.mp hfew⟩

/-- Storing a later roster with the property keeps what is kept. -/
theorem storeRoster_keeps (h : Keeps P anchor rosters) (hafter : anchor.epoch < roster.epoch)
    (hroster : P roster) : Keeps P anchor (storeRoster rosters roster) := by
  refine evict_keeps (le_refl _) ?_ ?_ ?_
  · rw [SortedMap.get_insert, if_neg (ne_of_lt hafter)]
    exact h.first
  · intro epoch members hget
    rw [SortedMap.get_insert] at hget
    split at hget
    · next heq => exact heq ▸ le_of_lt hafter
    · exact h.least hget
  · intro epoch members hget
    rw [SortedMap.get_insert] at hget
    split at hget
    · next heq =>
        cases hget
        exact heq ▸ hroster
    · exact h.each hget

end

/-! ## What a walk returns and stores -/

section

variable {self : Client} {chainId epochLength epoch : U64} {genesis : Bytes 32}

/-- A gateway's answer to one of the requests. -/
def Answered (self : Client) (asked : Request → Prop) (answer : Json) : Prop :=
  ∃ r text, asked r ∧ self.transport r.state.turn = .ok (200, text) ∧ parse text = .ok answer

theorem getRosterProof_answered {asked : Request → Prop} {answer : Json} {s s' : ClientState}
    (h : GivesBy asked (getRosterProof self epoch) s answer s') : Answered self asked answer := by
  obtain ⟨text, t, htext, h⟩ := givesBy_bind h
  obtain ⟨r, hr, hanswer⟩ := rpc_givesBy htext
  exact ⟨r, text, hr, hanswer, (gives_ofExcept h.1).1⟩

theorem getRosterProof_asks (epoch : U64) : Asks (getRosterProof self epoch) :=
  within_bind (rpc_asks (by decide) _) (fun _ => within_ofExcept _)

/-- To find the next roster only asks. -/
theorem nextRoster_asks (current : VerifiedRoster) :
    Asks (nextRoster self chainId genesis epochLength current) := by
  refine within_bind (getRosterProof_asks _) (fun _ => within_bind (within_ofExcept _) (fun _ => ?_))
  refine within_bind (within_ofExcept _) (fun _ => within_bind (within_ofExcept _) (fun _ => ?_))
  refine within_bind (within_ofExcept _) (fun _ => within_bind (within_ofExcept _) (fun _ => ?_))
  exact within_bind (within_ofExcept _) (fun _ => within_ofExcept _)

/-- This client found the next roster, when it asked for the one after the current. -/
def Found (self : Client) (asked : Request → Prop) (chainId : U64) (genesis : Bytes 32)
    (epochLength : U64) (current next : VerifiedRoster) : Prop :=
  ∃ s s', GivesBy asked (nextRoster self chainId genesis epochLength current) s next s'

section

variable {asked : Request → Prop} {current next : VerifiedRoster}

/-- **What was found was shown**: the answer to a request has a header, a certificate and
    a proof by which the members pass the check against the roster before. -/
theorem Found.shown (h : Found self asked chainId genesis epochLength current next) :
    ∃ answer members header certificate proof, Answered self asked answer
      ∧ (∃ v, answer.get "members" = some v ∧ parseRoster v.render = .ok members)
      ∧ hexField answer "header_bytes" "the roster answer carries no header_bytes" = .ok header
      ∧ hexField answer "certificate" "the roster answer carries no certificate" = .ok certificate
      ∧ hexField answer "proof" "the roster answer carries no proof" = .ok proof
      ∧ verifyNextRoster self.chain chainId genesis epochLength current header certificate members
        proof = .ok next := by
  obtain ⟨s, s', h⟩ := h
  obtain ⟨answer, t, hanswer, h⟩ := givesBy_bind h
  obtain ⟨-, h⟩ := givesBy_guard h
  obtain ⟨v, hv, h⟩ := givesBy_value h
  obtain ⟨members, hmembers, h⟩ := givesBy_value h
  obtain ⟨header, hheader, h⟩ := givesBy_value h
  obtain ⟨certificate, hcertificate, h⟩ := givesBy_value h
  obtain ⟨proof, hproof, h⟩ := givesBy_value h
  exact ⟨answer, members, header, certificate, proof, getRosterProof_answered hanswer,
    ⟨v, okOr_ok hv, hmembers⟩, hheader, hcertificate, hproof, (gives_ofExcept h.1).1⟩

/-- A roster the gateway's answer led to passed the check against the one before. -/
theorem Found.step (h : Found self asked chainId genesis epochLength current next) :
    Step self.chain chainId genesis epochLength current next := by
  obtain ⟨_, _, _, _, _, -, -, -, -, -, hnext⟩ := h.shown
  exact step_of_ok hnext

/-- A roster that was found from another one, step by step. -/
abbrev FoundFrom (self : Client) (asked : Request → Prop) (chainId : U64) (genesis : Bytes 32)
    (epochLength : U64) : VerifiedRoster → VerifiedRoster → Prop :=
  Relation.ReflTransGen (Found self asked chainId genesis epochLength)

/-- What was found is joined to what it was found from. -/
theorem joined_of_found {start roster : VerifiedRoster}
    (h : FoundFrom self asked chainId genesis epochLength start roster) :
    ∃ n, Joined self.chain chainId genesis epochLength start n roster := by
  induction h with
  | refl => exact ⟨0, Joined.anchor⟩
  | tail _ hfound ih =>
      obtain ⟨n, hjoined⟩ := ih
      exact ⟨n + 1, hjoined.next hfound.step⟩

end

/-- A walk takes one step and goes on, until it is at its epoch. -/
theorem walk_succ (fuel : Nat) (current : VerifiedRoster) :
    walk self chainId genesis epochLength epoch (fuel + 1) current
      = if current.epoch < epoch then do
          let next ← nextRoster self chainId genesis epochLength current
          keepRoster next
          walk self chainId genesis epochLength epoch fuel next
        else pure current := rfl

/-- **What a walk returns** was found from what it started from, and given enough
    steps it is of the epoch asked for. -/
theorem walk_found {asked : Request → Prop} {fuel : Nat} {s s' : ClientState}
    {current roster : VerifiedRoster} (hbelow : current.epoch ≤ epoch)
    (hfuel : epoch.val - current.epoch.val ≤ fuel)
    (h : GivesBy asked (walk self chainId genesis epochLength epoch fuel current) s roster s') :
    roster.epoch = epoch ∧ FoundFrom self asked chainId genesis epochLength current roster := by
  induction fuel generalizing current s with
  | zero =>
      obtain ⟨rfl, -⟩ := gives_pure h.1
      have hge : epoch.val ≤ roster.epoch.val := by omega
      exact ⟨Fin.le_antisymm hbelow hge, Relation.ReflTransGen.refl⟩
  | succ fuel ih =>
      rw [walk_succ] at h
      split at h
      · obtain ⟨next, t, hnext, h⟩ := givesBy_bind h
        obtain ⟨-, t', -, h⟩ := givesBy_bind h
        have hfound : Found self asked chainId genesis epochLength current next := ⟨s, t, hnext⟩
        have hlt : current.epoch.val < epoch.val := by assumption
        have hepoch := hfound.step.epoch
        obtain ⟨hreached, hrest⟩ := ih (Fin.le_def.mpr (by omega)) (by omega) h
        exact ⟨hreached, Relation.ReflTransGen.head hfound hrest⟩
      · next hge =>
          obtain ⟨rfl, -⟩ := gives_pure h.1
          exact ⟨le_antisymm hbelow (not_lt.mp hge), Relation.ReflTransGen.refl⟩

/-- A client trusts rosters under a genesis that keep an anchor. -/
def Trusts (P : VerifiedRoster → Prop) (genesis : Bytes 32) (anchor : VerifiedRoster)
    (s : ClientState) : Prop :=
  ∃ rosters, s.trustedRoster = some (genesis, rosters) ∧ Keeps P anchor rosters

theorem Trusts.later {P : VerifiedRoster → Prop} {anchor : VerifiedRoster} {s s' : ClientState}
    (h : Trusts P genesis anchor s) (hlater : Later s s') : Trusts P genesis anchor s' := by
  obtain ⟨turn, rfl⟩ := hlater
  exact h

/-- A roster after the anchor that is kept is trusted. -/
theorem Trusts.keepRoster {P : VerifiedRoster → Prop} {anchor roster : VerifiedRoster}
    {s : ClientState} (h : Trusts P genesis anchor s) (hafter : anchor.epoch < roster.epoch)
    (hroster : P roster) : Ends (Trusts P genesis anchor) (keepRoster roster) s := by
  obtain ⟨rosters, htrusted, hkeeps⟩ := h
  refine ⟨storeRoster rosters roster, ?_, storeRoster_keeps hkeeps hafter hroster⟩
  show Option.map _ s.trustedRoster = _
  rw [htrusted]
  rfl

/-- **What a walk stores** keeps the anchor, whether the walk succeeds or not. -/
theorem walk_keeps {asked : Request → Prop} {P : VerifiedRoster → Prop}
    {anchor : VerifiedRoster} {fuel : Nat} {s : ClientState} {current : VerifiedRoster}
    (hnext : ∀ {current next}, P current →
      Found self asked chainId genesis epochLength current next → P next)
    (hcurrent : P current) (hafter : anchor.epoch ≤ current.epoch)
    (hasked : ∀ r, Emits (walk self chainId genesis epochLength epoch fuel current) s r → asked r)
    (h : Trusts P genesis anchor s) :
    Ends (Trusts P genesis anchor) (walk self chainId genesis epochLength epoch fuel current) s := by
  induction fuel generalizing current s with
  | zero => exact h
  | succ fuel ih =>
      rw [walk_succ] at hasked ⊢
      by_cases hlt : current.epoch < epoch
      · rw [if_pos hlt] at hasked ⊢
        refine ends_bind (h.later ((nextRoster_asks current).moves s)) ?_
        intro next t hgives
        have hfound : Found self asked chainId genesis epochLength current next :=
          ⟨s, t, hgives, fun r hr => hasked r (emits_first hr)⟩
        have hbeyond : anchor.epoch < next.epoch := by
          rw [Fin.lt_def, hfound.step.epoch]
          exact Nat.lt_succ_of_le hafter
        have hkept : Ends (Trusts P genesis anchor) (keepRoster next) t :=
          (h.later ((nextRoster_asks current).gives hgives)).keepRoster hbeyond
            (hnext hcurrent hfound)
        refine ends_bind hkept ?_
        intro _ t' hgives'
        exact ih (hnext hcurrent hfound) (le_of_lt hbeyond)
          (fun r hr => hasked r (emits_then hgives (emits_then hgives' hr))) (hgives'.2 ▸ hkept)
      · rw [if_neg hlt]
        exact h

/-! ## The roster of an epoch -/

/-- The roster that a walk starts at is one that is kept, not past the epoch. -/
theorem startingRoster_ok {rosters : SortedMap U64 (List RosterMember)} {start : VerifiedRoster}
    (h : startingRoster rosters epoch = .ok start) :
    rosters.get start.epoch = some start.members ∧ start.epoch ≤ epoch := by
  rw [startingRoster] at h
  split at h
  · next start' members hlast =>
      cases h
      exact SortedMap.lastUpTo_some hlast
  · exact nomatch h

/-- The length of an epoch is the configured one. -/
theorem epochLength_ok {length : U64} (h : QCoreTrust.epochLength self = .ok length) :
    self.network.epochLength = some length := by
  rw [QCoreTrust.epochLength] at h
  split at h
  · next l hl =>
      split at h
      · cases h; exact hl
      · exact nomatch h
  · exact nomatch h

/-- **What a client is told of an epoch** was found from a roster it had stored. -/
theorem followRosters_gives {asked : Request → Prop} {trusted : TrustedRosters}
    {s s' : ClientState} {answer : Option (Bytes 32 × List RosterMember)}
    (h : GivesBy asked (followRosters self chainId epoch trusted) s answer s') :
    ∃ start members epochLength, answer = some (trusted.1, members)
      ∧ trusted.2.get start.epoch = some start.members
      ∧ self.network.epochLength = some epochLength
      ∧ FoundFrom self asked chainId trusted.1 epochLength start { epoch, members } := by
  obtain ⟨start, hstart, h⟩ := givesBy_value h
  obtain ⟨length, hlength, h⟩ := givesBy_value h
  obtain ⟨roster, t, hwalk, h⟩ := givesBy_bind h
  obtain ⟨rfl, -⟩ := gives_pure h.1
  obtain ⟨hstored, hbelow⟩ := startingRoster_ok hstart
  obtain ⟨rfl, hfound⟩ := walk_found hbelow (le_refl _) hwalk
  exact ⟨start, roster.members, length, rfl, hstored, epochLength_ok hlength, hfound⟩

/-- The rosters a pinned network starts from: the members its commitment is to. -/
def PinnedAnchor (self : Client) (trusted : TrustedRosters) : Prop :=
  self.network.genesisHash = some trusted.1 ∧ ∃ commitment members,
    self.network.rosterCommitment = some commitment
      ∧ rosterCommitmentOf self.chain 0 members = commitment.val
      ∧ trusted.2 = SortedMap.empty.insert 0 members

/-- The rosters a client trusts: those it was given, or those its network pins. -/
def Trusted (self : Client) (s : ClientState) (trusted : TrustedRosters) : Prop :=
  s.trustedRoster = some trusted ∨ s.trustedRoster = none ∧ PinnedAnchor self trusted

theorem Trusted.of_later {s s' : ClientState} {trusted : TrustedRosters} (hlater : Later s s')
    (h : Trusted self s' trusted) : Trusted self s trusted := by
  obtain ⟨turn, rfl⟩ := hlater
  exact h

/-- A client that trusts a roster has nothing to anchor. -/
theorem anchorPinnedRoster_trusted {s : ClientState} {trusted : TrustedRosters}
    (h : s.trustedRoster = some trusted) : anchorPinnedRoster self s = ⟨.ok true, s, []⟩ := by
  rw [anchorPinnedRoster, read_bind]
  simp only [h]
  rfl

/-- The anchor is the roster that was pinned. -/
theorem anchorPinned_gives {commitment : Bytes 32} {s s' : ClientState} {b : Bool}
    (hgenesis : self.network.genesisHash = some genesis)
    (hcommitment : self.network.rosterCommitment = some commitment)
    (h : Gives (anchorPinned self genesis commitment) s b s') :
    b = true ∧ ∃ trusted turn, PinnedAnchor self trusted
      ∧ s' = { s with turn := turn, trustedRoster := some trusted } := by
  obtain ⟨answer, t, hanswer, h⟩ := gives_bind h
  obtain ⟨turn, rfl⟩ := (getRosterProof_asks 0).gives hanswer
  obtain ⟨_, -, h⟩ := gives_value h
  obtain ⟨members, -, h⟩ := gives_value h
  obtain ⟨hcommitted, h⟩ := gives_guard h
  obtain ⟨_, t, htrust, h⟩ := gives_bind h
  obtain ⟨-, htrust⟩ := gives_guard htrust
  obtain rfl := gives_modify htrust
  obtain ⟨rfl, rfl⟩ := gives_pure h
  exact ⟨rfl, _, turn, ⟨hgenesis, commitment, members, hcommitment, not_not.mp hcommitted, rfl⟩,
    rfl⟩

/-- **An anchored client** trusts the rosters it did, or those its network pins. -/
theorem anchorPinnedRoster_gives {s s' : ClientState} {b : Bool}
    (h : Gives (anchorPinnedRoster self) s b s') :
    b = true ∧ (∃ trusted turn, Trusted self s trusted
        ∧ s' = { s with turn := turn, trustedRoster := some trusted })
      ∨ b = false ∧ s' = s := by
  have h := gives_read_bind h
  split at h
  · next trusted htrusted =>
      obtain ⟨rfl, rfl⟩ := gives_pure h
      refine Or.inl ⟨rfl, trusted, s'.turn, Or.inl htrusted, ?_⟩
      rw [← htrusted]
  · next hnone hgenesis hcommitment =>
      obtain ⟨rfl, trusted, turn, hpinned, rfl⟩ := anchorPinned_gives hgenesis hcommitment h
      exact Or.inl ⟨rfl, trusted, turn, Or.inr ⟨hnone, hpinned⟩, rfl⟩
  · obtain ⟨rfl, rfl⟩ := gives_pure h
    exact Or.inr ⟨rfl, rfl⟩

theorem rosterForEpoch_trusted {s : ClientState} {trusted : TrustedRosters}
    (h : s.trustedRoster = some trusted) :
    rosterForEpoch self chainId epoch s = followRosters self chainId epoch trusted s := by
  rw [rosterForEpoch, bind_skip (anchorPinnedRoster_trusted h), if_pos rfl, read_bind]
  simp only [h]

/-! ## What following rosters changes -/

/-- Nothing has changed but the number of turns and the rosters. -/
def Followed (s s' : ClientState) : Prop :=
  ∃ turn trusted, s' = { s with turn := turn, trustedRoster := trusted }

instance : Std.Refl Followed := ⟨fun s => ⟨s.turn, s.trustedRoster, rfl⟩⟩

instance : IsTrans ClientState Followed := ⟨by
  rintro s _ _ ⟨turn, trusted, rfl⟩ ⟨turn', trusted', rfl⟩
  exact ⟨turn', trusted', rfl⟩⟩

/-- A computation that follows rosters and hands no transaction over. -/
abbrev Follows {α : Type} (m : ClientM α) : Prop := Within Followed Request.Submits m

theorem Followed.of_later {s s' : ClientState} (h : Later s s') : Followed s s' := by
  obtain ⟨turn, rfl⟩ := h
  exact ⟨turn, s.trustedRoster, rfl⟩

theorem follows_of_asks {α : Type} {m : ClientM α} (h : Asks m) : Follows m :=
  h.mono (fun _ _ => Followed.of_later)

theorem trustRosterAt_follows (epoch : U64) (roster : List RosterMember) :
    Follows (trustRosterAt genesis epoch roster) :=
  within_bind (within_ofExcept _) (fun _ => within_modify (fun s => ⟨s.turn, _, rfl⟩))

/-- To anchor the pinned roster follows rosters and no more. -/
theorem anchorPinnedRoster_follows : Follows (anchorPinnedRoster self) := by
  refine within_bind within_read (fun s => ?_)
  split
  · exact within_pure _
  · refine within_bind (follows_of_asks (getRosterProof_asks _)) (fun _ => ?_)
    refine within_bind (within_ofExcept _) (fun _ => within_bind (within_ofExcept _) (fun _ => ?_))
    refine within_bind (within_ofExcept _) (fun _ => ?_)
    exact within_bind (trustRosterAt_follows _ _) (fun _ => within_pure _)
  · exact within_pure _

/-- So does a walk along them. -/
theorem walk_follows (fuel : Nat) (current : VerifiedRoster) :
    Follows (walk self chainId genesis epochLength epoch fuel current) := by
  induction fuel generalizing current with
  | zero => exact within_pure _
  | succ fuel ih =>
      rw [walk_succ]
      split
      · refine within_bind (follows_of_asks (nextRoster_asks current)) (fun next => ?_)
        refine within_bind (within_modify (fun s => ⟨s.turn, _, rfl⟩)) (fun _ => ?_)
        exact ih next
      · exact within_pure _

/-- So does the roster of an epoch. -/
theorem rosterForEpoch_follows : Follows (rosterForEpoch self chainId epoch) := by
  refine within_bind anchorPinnedRoster_follows (fun anchored => ?_)
  split
  · refine within_bind within_read (fun s => ?_)
    split
    · exact within_pure _
    · refine within_bind (within_ofExcept _) (fun _ => within_bind (within_ofExcept _) (fun _ => ?_))
      exact within_bind (walk_follows _ _) (fun _ => within_pure _)
  · exact within_pure _

end

end QCoreTrust
