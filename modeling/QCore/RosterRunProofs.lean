import Mathlib
import QCore.MachineIntProofs
import QCore.ByteMemoryProofs
import QCore.SortedMapProofs
import QCore.FallibleProofs
import QCore.TraceProofs
import QCore.TransitionProofs
import QCore.JsonProofs
import QCore.JsonRoundTripProofs
import QCore.WireProofs
import QCore.CratesProofs
import QCore.ContractProofs
import QCore.SessionProofs
import QCore.CertificateProofs
import QCore.FinalityProofs
import QCore.FinalitySafetyProofs
import QCore.RosterProofs
import QCore.ClientProofs
import QCore.TrustProofs

/-! # Runs of roster lookups

    A client is anchored once and then asked for the roster of one epoch after
    another, in any order, while its gateway answers as it likes.  Which rosters
    it has stored when it is asked depends on what it was asked before.  What it
    answers does not: every roster is joined to the anchor by a chain of checks,
    and such a chain has one end. -/

namespace QCoreRosterRun

open QCoreMachineInt QCoreByteMemory QCoreSortedMap QCoreFallible QCoreTrace QCoreTransition
  QCoreJson QCoreJsonRoundTrip QCoreWire QCoreSession QCoreCrates QCoreContract QCoreCertificate QCoreFinality QCoreFinalitySafety
  QCoreRoster QCoreClient QCoreClient.Client QCoreTrust

/-- A call for the roster of an epoch and what came of it. -/
abbrev Call := U64 × Except String (Option (Bytes 32 × List RosterMember))

/-- One call, from the state before it to the state after. -/
def calls (self : Client) (chainId : U64) (s : ClientState) (call : Call) (s' : ClientState) :
    Prop :=
  (rosterForEpoch self chainId call.1 s).result = call.2
    ∧ (rosterForEpoch self chainId call.1 s).state = s'

/-- The epoch length a client is configured with, zero when it has none. -/
def lengthOf (self : Client) : U64 := self.network.epochLength.getD 0

/-- A roster joined to an anchor by as many steps as there are epochs between. -/
def JoinedTo (self : Client) (chainId : U64) (genesis : Bytes 32) (anchor roster : VerifiedRoster) :
    Prop :=
  anchor.epoch ≤ roster.epoch ∧ Joined self.chain chainId genesis (lengthOf self) anchor
    (roster.epoch.val - anchor.epoch.val) roster

section

variable {self : Client} {chainId : U64} {genesis : Bytes 32} {anchor : VerifiedRoster}
  {s s' : ClientState}

/-- A roster some steps from the anchor is joined to it. -/
theorem joinedTo_of_joined {n : Nat} {roster : VerifiedRoster}
    (h : Joined self.chain chainId genesis (lengthOf self) anchor n roster) :
    JoinedTo self chainId genesis anchor roster := by
  have hepoch := h.epoch
  refine ⟨Fin.le_def.mpr (by omega), ?_⟩
  rwa [show roster.epoch.val - anchor.epoch.val = n by omega]

/-- So is the roster that is found after a joined one. -/
theorem joinedTo_found {asked : Request → Prop} {length : U64} (hlength : self.network.epochLength = some length)
    {current next : VerifiedRoster} (h : JoinedTo self chainId genesis anchor current)
    (hfound : Found self asked chainId genesis length current next) :
    JoinedTo self chainId genesis anchor next := by
  have hsame : lengthOf self = length := by rw [lengthOf, hlength]; rfl
  exact joinedTo_of_joined (h.2.next (hsame ▸ hfound.step))

/-- Anchoring a client leaves the anchor alone among its rosters. -/
theorem trusts_anchor {u : Unit}
    (h : Gives (trustRosterAt genesis anchor.epoch anchor.members) s u s') :
    Trusts (JoinedTo self chainId genesis anchor) genesis anchor s' := by
  obtain ⟨-, h⟩ := gives_guard h
  obtain rfl := gives_modify h
  exact ⟨_, rfl, keeps_single (joinedTo_of_joined Joined.anchor)⟩

/-- One call keeps what is stored joined to the anchor, whether it succeeds or not. -/
theorem rosterForEpoch_keeps {epoch : U64}
    (h : Trusts (JoinedTo self chainId genesis anchor) genesis anchor s) :
    Ends (Trusts (JoinedTo self chainId genesis anchor) genesis anchor)
      (rosterForEpoch self chainId epoch) s := by
  obtain ⟨rosters, htrusted, hkeeps⟩ := id h
  have hfollow : Ends (Trusts (JoinedTo self chainId genesis anchor) genesis anchor)
      (followRosters self chainId epoch (genesis, rosters)) s := by
    refine ends_value h (fun start hstart => ends_value h (fun length hlength => ?_))
    obtain ⟨hstored, -⟩ := startingRoster_ok hstart
    have hwalk : Ends (Trusts (JoinedTo self chainId genesis anchor) genesis anchor)
        (walk self chainId genesis length epoch (epoch.val - start.epoch.val) start) s :=
      walk_keeps (joinedTo_found (epochLength_ok hlength)) (hkeeps.each hstored)
        (hkeeps.least hstored) (fun _ _ => trivial) h
    exact ends_bind hwalk (fun _ _ hgives => hgives.2 ▸ hwalk)
  rw [Ends, rosterForEpoch_trusted htrusted]
  exact hfollow

/-- What a call answers is under the trusted genesis and joined to the anchor. -/
theorem rosterForEpoch_answers {epoch : U64} {answer : Option (Bytes 32 × List RosterMember)}
    (h : Trusts (JoinedTo self chainId genesis anchor) genesis anchor s)
    (hgives : Gives (rosterForEpoch self chainId epoch) s answer s') :
    ∃ members, answer = some (genesis, members)
      ∧ JoinedTo self chainId genesis anchor { epoch, members } := by
  obtain ⟨rosters, htrusted, hkeeps⟩ := h
  rw [Gives, rosterForEpoch_trusted htrusted] at hgives
  obtain ⟨start, members, length, rfl, hstored, hlength, hfound⟩ := followRosters_gives (givesBy_of_gives hgives)
  obtain ⟨n, hjoined⟩ := joined_of_found hfound
  have hsame : lengthOf self = length := by rw [lengthOf, hlength]; rfl
  exact ⟨members, rfl,
    joinedTo_of_joined ((hkeeps.each hstored).2.trans (hsame.symm ▸ hjoined))⟩

/-- **Over a run of calls** what is stored stays joined to the anchor, and so is
    every answer. -/
theorem run_joined {log : List Call} {t : ClientState}
    (h : Trusts (JoinedTo self chainId genesis anchor) genesis anchor s)
    (hrun : Run (calls self chainId) s log t) :
    Trusts (JoinedTo self chainId genesis anchor) genesis anchor t
      ∧ ∀ epoch answer, (epoch, .ok answer) ∈ log → ∃ members, answer = some (genesis, members)
        ∧ JoinedTo self chainId genesis anchor { epoch, members } := by
  induction hrun with
  | nil => exact ⟨h, fun _ _ hmem => absurd hmem List.not_mem_nil⟩
  | cons _ hcall ih =>
      obtain ⟨hkept, hanswers⟩ := ih
      obtain ⟨hresult, hstate⟩ := hcall
      refine ⟨hstate ▸ rosterForEpoch_keeps hkept, ?_⟩
      intro epoch answer hmem
      rcases List.mem_cons.mp hmem with rfl | hmem
      · exact rosterForEpoch_answers hkept ⟨hresult, rfl⟩
      · exact hanswers epoch answer hmem

/-- **Rosters follow from their anchor.**  However a client's calls and its
    gateway's answers go, the anchor stays stored and first, few rosters are
    stored, and every roster stored or answered for an epoch is joined to the
    anchor by one step for each epoch between.  Two clients that start from one
    anchor on one chain therefore answer one roster for an epoch, whichever
    gateways they ask and whatever they have been asked before, provided the chain
    binds what it certifies and proves: or it commits alike to two rosters on the
    way, which it never does when a commitment is to one roster. -/
theorem rosters_follow_from_their_anchor {other : Client} {s₀ s₀' s' t t' : ClientState}
    {u u' : Unit} {log log' : List Call}
    (hanchor : Gives (trustRosterAt genesis anchor.epoch anchor.members) s₀ u s)
    (hrun : Run (calls self chainId) s log t)
    (hanchor' : Gives (trustRosterAt genesis anchor.epoch anchor.members) s₀' u' s')
    (hrun' : Run (calls other chainId) s' log' t')
    (hchain : other.chain = self.chain)
    (hlength : other.network.epochLength = self.network.epochLength) :
    Trusts (JoinedTo self chainId genesis anchor) genesis anchor t
      ∧ (∀ epoch answer, (epoch, .ok answer) ∈ log → ∃ members,
          answer = some (genesis, members)
            ∧ JoinedTo self chainId genesis anchor { epoch, members })
      ∧ (Binding self.chain chainId genesis → ∀ epoch answer answer',
          (epoch, .ok answer) ∈ log → (epoch, .ok answer') ∈ log' →
          answer = answer' ∨ ∃ roster roster',
            ShareCommitment self.chain chainId genesis (lengthOf self) anchor roster roster')
      ∧ (Binding self.chain chainId genesis →
          (∀ epoch, Function.Injective (self.chain.rosterCommitment epoch)) →
          ∀ epoch answer answer', (epoch, .ok answer) ∈ log → (epoch, .ok answer') ∈ log' →
          answer = answer') := by
  obtain ⟨hkept, hanswers⟩ := run_joined (trusts_anchor hanchor) hrun
  obtain ⟨-, hanswers'⟩ := run_joined (trusts_anchor hanchor') hrun'
  have hagree : Binding self.chain chainId genesis → ∀ epoch answer answer',
      (epoch, .ok answer) ∈ log → (epoch, .ok answer') ∈ log' →
      answer = answer' ∨ ∃ roster roster',
        ShareCommitment self.chain chainId genesis (lengthOf self) anchor roster roster' := by
    intro hbinding epoch answer answer' hmem hmem'
    obtain ⟨members, rfl, -, hjoined⟩ := hanswers epoch answer hmem
    obtain ⟨members', rfl, -, hjoined'⟩ := hanswers' epoch answer' hmem'
    rw [hchain, show lengthOf other = lengthOf self by rw [lengthOf, lengthOf, hlength]] at hjoined'
    refine (hjoined.unique hbinding hjoined').imp_left (fun hsame => ?_)
    cases hsame
    rfl
  refine ⟨hkept, hanswers, hagree, ?_⟩
  intro hbinding hcommitted epoch answer answer' hmem hmem'
  refine (hagree hbinding epoch answer answer' hmem hmem').resolve_right ?_
  rintro ⟨_, _, hshared⟩
  exact not_shareCommitment hcommitted hshared

end

/-! ## Two gateways that show one roster -/

/-- The fields of an entry, in types that can be counted. -/
def entryTuple (e : RosterEntry) : U64 × U64 × List (Fin 256) × List (Fin 256) × U64 :=
  (e.id, e.stake, e.attestPk.map UInt8.toFin, e.rootDigest.val.map UInt8.toFin, e.rootSlots)

/-- An entry is told by its parts. -/
theorem entryTuple_injective : Function.Injective entryTuple := by
  rintro ⟨id, stake, attestPk, ⟨digest, hdigest⟩, slots⟩
    ⟨id', stake', attestPk', ⟨digest', hdigest'⟩, slots'⟩ h
  have hbyte : Function.Injective UInt8.toFin := fun a b hab => UInt8.toFin_inj.mp hab
  simp only [entryTuple, Prod.mk.injEq] at h
  obtain ⟨rfl, rfl, hpk, hdigests, rfl⟩ := h
  cases List.map_injective_iff.mpr hbyte hpk
  cases List.map_injective_iff.mpr hbyte hdigests
  rfl

/-- A commitment to a list of entries: as many zeros as its number. -/
@[irreducible]
def countedCommitment (entries : List RosterEntry) : List UInt8 :=
  List.replicate (Encodable.encode (entries.map entryTuple)) 0

theorem countedCommitment_injective : Function.Injective countedCommitment := by
  intro a b h
  have hlen := congrArg List.length h
  rw [countedCommitment, countedCommitment, List.length_replicate, List.length_replicate] at hlen
  exact List.map_injective_iff.mpr entryTuple_injective (Encodable.encode_injective hlen)

/-- The validator of the epoch after the anchor's. -/
def nextValidator : RosterMember :=
  { id := 8, stake := 20, attestPk := List.replicate 1952 2, root := ⟨filled 0, 64⟩ }

/-- What the chain commits to for the epoch of that validator. -/
def nextCommitment : List UInt8 := countedCommitment (rosterEntries [nextValidator])

/-- A chain whose headers all carry one state root, under which a key can hold nothing
    but that commitment. -/
def sealedChain : Chain :=
  { plainChain with
    headerFromBytes
      | [height, b] => some {
          height := u64From height, hash := filled b, parentHash := filled 0
          qRoot := filled 0, transactionRoot := filled 0, eventRoot := filled 0, time := 0 }
      | _ => none
    stateProof := fun _ => some ⟨some nextCommitment, []⟩
    stateVerify := fun _ proof _ => decide (proof.value = some nextCommitment)
    rosterCommitment := fun _ => countedCommitment }

theorem sealedChain_checks : PlainChecks sealedChain := by
  constructor
  all_goals intros; rfl

/-- The sealed chain commits to its rosters. -/
theorem sealedChain_binding : Binding sealedChain 7 (filled 0) where
  certified := by
    intro members headerBytes headerBytes' _ _ header header' h h' _
    have hroot : ∀ {bytes : List UInt8} {p : Header}, sealedChain.headerFromBytes bytes = some p →
        p.qRoot = filled 0 := by
      intro bytes p hp
      match bytes, hp with
      | [height, b], hp => cases hp; rfl
    obtain ⟨p, _, _, hacc⟩ := accepted_spec h
    obtain ⟨p', _, _, hacc'⟩ := accepted_spec h'
    rw [hacc.result.2.2.2.1, hacc'.result.2.2.2.1, hroot hacc.parsed, hroot hacc'.parsed]
  proven := by
    intro key root proof proof' h h'
    have hvalue : proof.value = some nextCommitment := of_decide_eq_true h
    have hvalue' : proof'.value = some nextCommitment := of_decide_eq_true h'
    exact hvalue.trans hvalue'.symm

/-- Crates of a chain on which nothing is signed. -/
def stillCrates : TxCrates :=
  { oneByteCrates with
    renderAddress := fun _ => some "Q1"
    renders := fun _ => rfl
    renderBlock := fun _ => none
    accountAddress := fun _ _ => "Q1"
    accountPublicKey := fun _ _ => []
    putU64 := fun v => beBytes 8 v.val
    scalarSlotKey := fun _ => filled 0
    kindTransfer := 0
    kindCall := 1
    trySignHedged := fun _ _ _ _ _ => none }

/-- A client whose gateway answers every request with one status and no text. -/
def statusClient (status : U64) : Client where
  crates := stillCrates
  chain := sealedChain
  base := "http://127.0.0.1"
  network :=
    { name := "local", chainId := none, isMainnet := false, genesisHash := none
      rosterCommitment := none, epochLength := some 10, genesisSecs := none, blocksPerSec := none }
  acknowledgeMainnet := false
  transport := fun _ => .ok (status, "")
  clock := fun _ => some 0
  entropy := fun _ => none
  onSigned := none

theorem checkEndpoint_loopback : checkEndpoint "http://127.0.0.1" = .ok () :=
  refuseIf_iff.mpr (by decide +kernel)

/-- The state of a client that was not used. -/
def freshState : ClientState :=
  { turn := 0, pinnedChain := none, session := .new, trustedRoster := none, shared := .new }

/-- The roster of one, for the first epoch. -/
def soleRoster : VerifiedRoster := { epoch := 0, members := [soleValidator] }

/-- The state of a client that is anchored at that roster. -/
def anchoredState : ClientState :=
  { freshState with trustedRoster := some (filled 0, SortedMap.empty.insert 0 [soleValidator]) }

theorem anchoredState_gives : Gives (trustRosterAt (filled 0) soleRoster.epoch soleRoster.members)
    freshState () anchoredState := ⟨rfl, rfl⟩

/-- The validator of the next epoch, as a gateway names it. -/
def nextMember : Json := .object
  [("id", .int 8), ("attest_pk", .str (toHex nextValidator.attestPk)),
    ("root", .str (toHex (filled 0).val)), ("stake", .str "20"), ("root_slots", .str "64")]

/-- A gateway's answer for the second epoch, with a header of one byte. -/
def rosterAnswer (b : UInt8) : Json := .object
  [("epoch", .int 1), ("members", .array [nextMember]), ("header_bytes", .str (toHex [1, b])),
    ("certificate", .str (toHex (soleCertificate b))), ("proof", .str "")]

/-- A client whose gateway shows that answer after so many turns, in epochs of two
    blocks. -/
def sealingClient (b : UInt8) (turns : ℕ) : Client :=
  { statusClient 200 with
    network := { (statusClient 200).network with epochLength := some 2 }
    transport := fun turn =>
      if turn < turns then .ok (500, "") else .ok (200, (rosterAnswer b).render) }

/-- The roster of one member is parsed. -/
theorem parse_nextMember : parseRoster (Json.array [nextMember]).render = .ok [nextValidator] := by
  have hparsed : parse (Json.array [nextMember]).render = .ok (Json.array [nextMember]) := by
    refine parse_render ?_ (by decide)
    simp [nextMember, Json.DistinctKeys, Json.DistinctFields, Json.DistinctItems]
  have hmember : rosterMember nextMember = .ok nextValidator := by
    refine bind_pass (a := 8) rfl (bind_pass (bind_pass rfl (fromHex_toHex _)) ?_)
    refine bind_pass (bind_pass rfl (fromHex_toHex (filled 0).val)) ?_
    refine bind_pass (a := filled 0) (dif_pos (filled 0).property) ?_
    exact bind_pass (a := 20) rfl (bind_pass (a := 64) rfl rfl)
  refine bind_pass hparsed (bind_pass (a := [nextMember]) rfl (guard_pass (by decide) ?_))
  exact bind_pass hmember rfl

theorem parse_rosterAnswer (b : UInt8) : parse (rosterAnswer b).render = .ok (rosterAnswer b) := by
  have hheight : Json.height (rosterAnswer b) = 3 := rfl
  refine parse_render ?_ (hheight ▸ by decide)
  simp [rosterAnswer, nextMember, Json.DistinctKeys, Json.DistinctFields, Json.DistinctItems]

/-- A gateway's header of that byte, certified by the first roster, is taken for the
    step to the next. -/
theorem sealed_next (b : UInt8) :
    verifyNextRoster sealedChain 7 (filled 0) 2 soleRoster [1, b] (soleCertificate b)
      [nextValidator] [] = .ok { epoch := 1, members := [nextValidator] } := by
  obtain ⟨finalized, hfinal⟩ := sole_accepted_on sealedChain_checks 7 (b := b) [1, b]
    rfl rfl rfl
  obtain ⟨header, _, _, hacc⟩ := accepted_spec hfinal
  have hcommitted : rosterCommitmentOf sealedChain 1 [nextValidator] = nextCommitment := rfl
  refine guard_pass ?_ (value_pass (a := 1) rfl (bind_pass (a := 1) rfl (bind_pass (a := 1) rfl
    (guard_pass (not_not.mpr rfl) (bind_pass (bind_pass (a := 1) rfl (bind_pass (a := 0) rfl
      (guard_pass (not_not.mpr rfl) hfinal))) (value_pass rfl (guard_pass ?_
        (guard_pass ?_ rfl))))))))
  · rintro (h | h)
    · exact absurd h (List.cons_ne_nil _ _)
    · exact absurd h (by decide)
  · rw [hcommitted]
    exact not_not.mpr rfl
  · show ¬ (!decide (some nextCommitment = some nextCommitment)) = true
    rw [decide_eq_true rfl]
    exact Bool.false_ne_true

/-- The answer is short enough for the client to read. -/
theorem length_rosterAnswer {b : UInt8} (hb : b ∈ ([0, 1] : List UInt8)) :
    (asBytes (rosterAnswer b).render).length ≤ responseCap "get_roster_proof" := by
  simp only [rosterAnswer, nextMember, Json.render, Json.write, Json.writeFields, Json.writeItems,
    asBytes_append, List.length_append, length_writeString_toHex, List.length_cons, List.length_nil]
  simp only [List.mem_cons, List.not_mem_nil, or_false] at hb
  rcases hb with rfl | rfl
  · decide +kernel
  · decide +kernel

section

variable {b : UInt8} (hb : b ∈ ([0, 1] : List UInt8)) {turns : ℕ}
include hb

/-- Once the gateway shows its answer, the client finds the next roster. -/
theorem sealing_next {s : ClientState} (hturn : turns ≤ s.turn) :
    Gives (nextRoster (sealingClient b turns) 7 (filled 0) 2 soleRoster) s
      { epoch := 1, members := [nextValidator] } { s with turn := s.turn + 1 } := by
  have htext : (sealingClient b turns).transport s.turn = .ok (200, (rosterAnswer b).render) :=
    if_neg (not_lt.mpr hturn)
  have hanswer : Gives (getRosterProof (sealingClient b turns) 1) s (rosterAnswer b)
      { s with turn := s.turn + 1 } :=
    bind_gives (rpc_answers checkEndpoint_loopback htext (length_rosterAnswer hb))
      (ofExcept_gives (parse_rosterAnswer b))
  refine bind_gives hanswer (bind_gives (ofExcept_gives (if_neg (not_not.mpr rfl))) ?_)
  refine bind_gives (ofExcept_gives (a := Json.array [nextMember]) rfl) ?_
  refine bind_gives (ofExcept_gives parse_nextMember) ?_
  refine bind_gives (ofExcept_gives (bind_pass rfl (fromHex_toHex [1, b]))) ?_
  refine bind_gives (ofExcept_gives (bind_pass rfl (fromHex_toHex (soleCertificate b)))) ?_
  refine bind_gives (ofExcept_gives (bind_pass rfl (fromHex_toHex []))) ?_
  exact ofExcept_gives (sealed_next b)

/-- And so it answers for the second epoch, when it is anchored at the first. -/
theorem sealing_answers {s : ClientState} (hturn : turns ≤ s.turn)
    (htrusted : s.trustedRoster = anchoredState.trustedRoster) :
    (rosterForEpoch (sealingClient b turns) 7 1 s).result
      = .ok (some (filled 0, [nextValidator])) := by
  have hwalk : Gives (walk (sealingClient b turns) 7 (filled 0) 2 1 1 soleRoster) s
      { epoch := 1, members := [nextValidator] } _ :=
    bind_gives (sealing_next hb hturn) (bind_gives (m := keepRoster _) ⟨rfl, rfl⟩ ⟨rfl, rfl⟩)
  have hfollow : Gives (followRosters (sealingClient b turns) 7 1
      (filled 0, SortedMap.empty.insert 0 [soleValidator])) s (some (filled 0, [nextValidator])) _ :=
    bind_gives (ofExcept_gives (a := soleRoster) rfl) (bind_gives (ofExcept_gives (a := 2) rfl)
      (bind_gives hwalk ⟨rfl, rfl⟩))
  rw [rosterForEpoch_trusted htrusted]
  exact hfollow.1

/-- A gateway that shows its answer at once is asked one time. -/
theorem sealing_run : ∃ t, Run (calls (sealingClient b 0) 7) anchoredState
    [(1, .ok (some (filled 0, [nextValidator])))] t :=
  ⟨_, Run.single ⟨sealing_answers hb (Nat.zero_le _) rfl, rfl⟩⟩

/-- One that refuses first is asked again. -/
theorem sealing_run_again : ∃ e t, Run (calls (sealingClient b 1) 7) anchoredState
    [(1, .ok (some (filled 0, [nextValidator]))), (1, .error e)] t := by
  have htext : (sealingClient b 1).transport 0 = .ok (500, "") := rfl
  obtain ⟨e, hrpc⟩ : ∃ e, Refuses ((sealingClient b 1).rpc "get_roster_proof"
      (Json.object [("epoch", .int 1)]).render) anchoredState e { anchoredState with turn := 1 } :=
    ⟨_, rpc_refuses checkEndpoint_loopback htext (Nat.zero_le _) (by decide)⟩
  have hrefused : Refuses (rosterForEpoch (sealingClient b 1) 7 1) anchoredState e
      { anchoredState with turn := 1 } := by
    rw [Refuses, rosterForEpoch_trusted rfl]
    refine bind_refuses (ofExcept_gives (a := soleRoster) rfl)
      (bind_refuses (ofExcept_gives (a := 2) rfl) (bind_refuses_first ?_))
    exact bind_refuses_first (bind_refuses_first (bind_refuses_first hrpc))
  exact ⟨e, _, .cons (Run.single ⟨hrefused.1, hrefused.2⟩)
    ⟨sealing_answers hb (le_refl _) rfl, rfl⟩⟩

end

/-- Two gateways show headers of two blocks, and one of them refuses at first; both
    lead to one roster, a step from the anchor. -/
theorem rosters_follow_from_their_anchor_at_two_gateways : ∃ e t t' answer answer',
    Run (calls (sealingClient 0 0) 7) anchoredState [(1, .ok answer)] t
      ∧ Run (calls (sealingClient 1 1) 7) anchoredState [(1, .ok answer'), (1, .error e)] t'
      ∧ Trusts (JoinedTo (sealingClient 0 0) 7 (filled 0) soleRoster) (filled 0) soleRoster t
      ∧ Binding sealedChain 7 (filled 0)
      ∧ (∃ members, members ≠ [soleValidator] ∧ answer = some (filled 0, members)
        ∧ JoinedTo (sealingClient 0 0) 7 (filled 0) soleRoster { epoch := 1, members })
      ∧ answer = answer' := by
  obtain ⟨t, hrun⟩ := sealing_run (b := 0) (by decide)
  obtain ⟨e, t', hrun'⟩ := sealing_run_again (b := 1) (by decide)
  obtain ⟨hkept, hanswers, -, hagree⟩ := rosters_follow_from_their_anchor anchoredState_gives hrun
    anchoredState_gives hrun' rfl rfl
  obtain ⟨members, hmembers, hjoined⟩ := hanswers 1 _ List.mem_cons_self
  refine ⟨e, t, t', _, _, hrun, hrun', hkept, sealedChain_binding, ⟨members, ?_, hmembers, hjoined⟩,
    hagree sealedChain_binding (fun _ => countedCommitment_injective) 1 _ _ List.mem_cons_self
      List.mem_cons_self⟩
  rintro rfl
  have hid : (8 : U64) = 7 :=
    congrArg RosterMember.id (List.cons.inj (Prod.mk.inj (Option.some.inj hmembers)).2).1
  exact absurd hid (by decide)

end QCoreRosterRun
