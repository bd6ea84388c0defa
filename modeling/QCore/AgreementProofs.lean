import Mathlib
import QCore.MachineIntProofs
import QCore.ByteMemoryProofs
import QCore.SortedMapProofs
import QCore.FallibleProofs
import QCore.TraceProofs
import QCore.TransitionProofs
import QCore.QuorumProofs
import QCore.JsonProofs
import QCore.JsonRoundTripProofs
import QCore.WireProofs
import QCore.CratesProofs
import QCore.AddressProofs
import QCore.CertificateProofs
import QCore.FinalityProofs
import QCore.FinalitySafetyProofs
import QCore.RosterProofs
import QCore.ClientProofs
import QCore.TrustProofs
import QCore.RosterRunProofs
import QCore.HeadProofs
import QCore.SubmissionProofs
import QCore.AccountProofs
import QCore.ClientRunProofs
import QCore.FollowedProofs

/-! # Two clients, one history

    Two clients that start from one roster may ask different gateways, at
    different times, about different epochs.  Nothing is assumed here of the
    validators: the clients are told of one history, or something is to blame, and it
    is in what the two were shown.  Either it breaks the chain's crates: two headers of
    one hash, two proofs under one root, two rosters of one commitment, one for each
    client.  Or it is two certificates, one for each client, in which validators with
    more than a third of the active stake of one roster signed two blocks of one
    height. -/

namespace QCoreAgreement

open QCoreMachineInt QCoreByteMemory QCoreSortedMap QCoreFallible QCoreTrace QCoreTrace.Traced
  QCoreTransition QCoreQuorum QCoreJson QCoreJsonRoundTrip QCoreWire QCoreCrates QCoreAddress
  QCoreCertificate QCoreFinality QCoreFinalitySafety QCoreRoster QCoreClient QCoreClient.Client
  QCoreTrust QCoreRosterRun QCoreHead QCoreSubmission QCoreAccount QCoreClientRun QCoreFollowed

/-! ## What is to blame -/

/-- A client, and the requests of its run. -/
structure Side where
  client : Client
  asked : Request → Prop

/-- What the chain's crates are relied on to rule out, in what two sides took and were
    shown: a header on each side of one hash, a proof on each side for one key under one
    root, a roster on each side of one commitment, that differ. -/
inductive Forgery (a b : Side) (chainId : U64) (genesis : Bytes 32) : Prop
  | header {anchor anchor' roster roster' : VerifiedRoster} {f f' : FinalizedHeader}
      {header header' : Header} {envelope envelope' : Envelope}
      {attestations attestations' : List Attestation}
      (took : Took a.client a.asked chainId genesis anchor roster f header envelope attestations)
      (took' : Took b.client b.asked chainId genesis anchor' roster' f' header' envelope'
        attestations')
      (differ : header ≠ header') (same : header.hash = header'.hash)
  | proof {anchor anchor' : VerifiedRoster} {root : Bytes 32} {key : List UInt8}
      {proof proof' : StateProof}
      (took : TookProof a.client a.asked chainId genesis anchor root key proof)
      (took' : TookProof b.client b.asked chainId genesis anchor' root key proof')
      (differ : proof.value ≠ proof'.value)
  | roster {epoch : U64} {members members' : List RosterMember}
      (shown : ShownRoster a.client a.asked members)
      (shown' : ShownRoster b.client b.asked members') (differ : members ≠ members')
      (same : rosterCommitmentOf a.client.chain epoch members
        = rosterCommitmentOf a.client.chain epoch members')

/-- A side took a certificate for a block under a roster, in which each of these signed
    it. -/
def TookSigned (side : Side) (chainId : U64) (genesis : Bytes 32) (anchor roster : VerifiedRoster)
    (block : Block) (signers : List RosterMember) : Prop :=
  ∃ f header envelope attestations,
    Took side.client side.asked chainId genesis anchor roster f header envelope attestations
      ∧ envelope.block = block
      ∧ ∀ member ∈ signers,
        SignedBlock side.client.chain chainId genesis member block attestations

/-- Active members of a roster that hold more than a third of its stake each signed two
    blocks of one height, one in a certificate that one side took and the other in one that
    the other side took. -/
structure SignedTwice (a b : Side) (chainId : U64) (genesis : Bytes 32)
    (anchor roster : VerifiedRoster) (block block' : Block) (culprits : List RosterMember) :
    Prop where
  took : TookSigned a chainId genesis anchor roster block culprits
  took' : TookSigned b chainId genesis anchor roster block' culprits
  height : block.height = block'.height
  differ : block ≠ block'
  active : culprits.Sublist (activeSet a.client.chain roster.members)
  enough : stakeOf (activeSet a.client.chain roster.members) < 3 * stakeOf culprits

/-- Why two clients may be told different things. -/
def Fault (a b : Side) (chainId : U64) (genesis : Bytes 32) : Prop :=
  Forgery a b chainId genesis ∨ ∃ anchor roster block block' culprits,
    SignedTwice a b chainId genesis anchor roster block block' culprits

/-- Two finalized headers are of one block. -/
structure SameBlock (f f' : FinalizedHeader) : Prop where
  height : f.height = f'.height
  hash : f.hash = f'.hash
  parentHash : f.parentHash = f'.parentHash
  qRoot : f.qRoot = f'.qRoot
  transactionRoot : f.transactionRoot = f'.transactionRoot
  eventRoot : f.eventRoot = f'.eventRoot
  time : f.time = f'.time

/-! ## One anchor -/

section

variable {a b : Side} {chainId : U64} {genesis : Bytes 32}
  {anchor roster roster' : VerifiedRoster} {f f' : FinalizedHeader} {header header' : Header}
  {envelope envelope' : Envelope} {attestations attestations' : List Attestation}

/-- **Two headers of one height** that two sides took under one roster are of one block, or
    something is to blame. -/
theorem took_agree (hnames : NamesBlocks a.client.chain) (hchain : b.client.chain = a.client.chain)
    (h : Took a.client a.asked chainId genesis anchor roster f header envelope attestations)
    (h' : Took b.client b.asked chainId genesis anchor roster f' header' envelope' attestations')
    (hheight : f.height = f'.height) : SameBlock f f' ∨ Fault a b chainId genesis := by
  obtain ⟨headerBytes, certificateBytes, -, -, hacc⟩ := h.shown
  obtain ⟨headerBytes', certificateBytes', -, -, hacc'⟩ := h'.shown
  rw [hchain] at hacc'
  obtain ⟨hf, hhash, hparent, hroot, htransactions, hevents, htime⟩ := hacc.result
  obtain ⟨hf', hhash', hparent', hroot', htransactions', hevents', htime'⟩ := hacc'.result
  by_cases hsame : header = header'
  · subst hsame
    exact Or.inl ⟨hheight, hhash.trans hhash'.symm, hparent.trans hparent'.symm,
      hroot.trans hroot'.symm, htransactions.trans htransactions'.symm,
      hevents.trans hevents'.symm, htime.trans htime'.symm⟩
  · by_cases hcollide : header.hash = header'.hash
    · exact Or.inr (Or.inl (.header h h' hsame hcollide))
    · -- those who attest in both certificates signed both blocks
      have hboth : ∀ member ∈ attestingBoth (activeSet a.client.chain roster.members) attestations
            attestations', SignedBlock a.client.chain chainId genesis member envelope.block attestations
          ∧ SignedBlock a.client.chain chainId genesis member envelope'.block attestations' := by
        intro member hmember
        obtain ⟨hactive, hboth⟩ := List.mem_filter.mp hmember
        rw [Bool.and_eq_true, decide_eq_true_iff, decide_eq_true_iff] at hboth
        exact ⟨signedBlock_of_attesting hacc hactive hboth.1,
          signedBlock_of_attesting hacc' hactive hboth.2⟩
      have hblocks : envelope.block.height = envelope'.block.height := by
        rw [block_height hnames hacc, block_height hnames hacc', ← hf, ← hf', hheight]
      refine Or.inr (Or.inr ⟨anchor, roster, envelope.block, envelope'.block, _,
        ⟨f, header, envelope, attestations, h, rfl, fun member hmember => (hboth member hmember).1⟩,
        ⟨f', header', envelope', attestations', h', rfl, fun member hmember => ?_⟩, hblocks,
        blocks_differ hnames hacc hacc' hcollide, List.filter_sublist,
        attestingBoth_enough hacc hacc'⟩)
      rw [hchain]
      exact (hboth member hmember).2

/-- **Two rosters of one epoch** that two sides followed from one anchor are one roster, or
    something is to blame. -/
theorem followed_agree (hnames : NamesBlocks a.client.chain)
    (hchain : b.client.chain = a.client.chain) (hlength : lengthOf b.client = lengthOf a.client)
    (h : FoundFrom a.client a.asked chainId genesis (lengthOf a.client) anchor roster)
    (h' : FoundFrom b.client b.asked chainId genesis (lengthOf b.client) anchor roster')
    (hepoch : roster.epoch = roster'.epoch) : roster = roster' ∨ Fault a b chainId genesis := by
  induction h generalizing roster' with
  | refl =>
      cases h' with
      | refl => exact Or.inl rfl
      | tail hprev hfound =>
          have habove := hfound.step.epoch
          have hbelow := foundFrom_epoch hprev
          rw [hepoch] at hbelow
          omega
  | @tail current next hprev hfound ih =>
      cases h' with
      | refl =>
          have habove := hfound.step.epoch
          have hbelow := foundFrom_epoch hprev
          rw [hepoch] at habove
          omega
      | @tail current' _ hprev' hfound' =>
          have hbefore : current.epoch = current'.epoch := by
            have habove := hfound.step.epoch
            have habove' := hfound'.step.epoch
            rw [hepoch] at habove
            exact Fin.ext (by omega)
          rcases ih hprev' hbefore with rfl | hfault
          · obtain ⟨f, header, envelope, attestations, proof, htook, hsealing, hshown, hproof,
              hvalue⟩ := found_took hprev hfound
            obtain ⟨f', header', envelope', attestations', proof', htook', hsealing', hshown',
              hproof', hvalue'⟩ := found_took hprev' hfound'
            rw [hlength] at hsealing'
            rw [hchain] at hvalue'
            have hheight : f.height = f'.height := Except.ok.inj (hsealing.symm.trans hsealing')
            rcases took_agree hnames hchain htook htook' hheight with hblock | hfault
            · -- under one state root, the proofs and the commitments decide
              rw [hchain, ← hepoch, ← hblock.qRoot] at hproof'
              by_cases hsame : proof.value = proof'.value
              · rw [hvalue, hvalue', ← hepoch] at hsame
                by_cases hmembers : next.members = roster'.members
                · exact Or.inl (VerifiedRoster.ext hepoch hmembers)
                · exact Or.inr (Or.inl (.roster hshown hshown' hmembers (Option.some.inj hsame)))
              · exact Or.inr (Or.inl (.proof hproof hproof' hsame))
            · exact Or.inr hfault
          · exact Or.inr hfault

/-- **Two headers of one height** that two sides took are of one block, or something is to
    blame. -/
theorem headers_agree (hnames : NamesBlocks a.client.chain)
    (hchain : b.client.chain = a.client.chain) (hlength : lengthOf b.client = lengthOf a.client)
    (h : TookHeader a.client a.asked chainId genesis anchor f)
    (h' : TookHeader b.client b.asked chainId genesis anchor f') (hheight : f.height = f'.height) :
    SameBlock f f' ∨ Fault a b chainId genesis := by
  obtain ⟨roster, header, envelope, attestations, htook⟩ := h
  obtain ⟨roster', header', envelope', attestations', htook'⟩ := h'
  have hepoch : roster.epoch = roster'.epoch := by
    have hthat := htook'.epoch
    rw [hlength, ← hheight] at hthat
    exact Except.ok.inj (htook.epoch.symm.trans hthat)
  rcases followed_agree hnames hchain hlength htook.followed htook'.followed hepoch with rfl | hfault
  · exact took_agree hnames hchain htook htook' hheight
  · exact Or.inr hfault

/-- Two anchors that two sides may start at are one, or were shown and break the
    commitment. -/
theorem anchors_agree {start : Start} {anchor' : VerifiedRoster}
    (hchain : b.client.chain = a.client.chain) (h : start.Anchors a.client a.asked anchor)
    (h' : start.Anchors b.client b.asked anchor') : anchor = anchor' ∨ Fault a b chainId genesis := by
  cases start with
  | given => exact Or.inl (h.trans h'.symm)
  | pinned commitment =>
      obtain ⟨hzero, hshown, hcommits⟩ := h
      obtain ⟨hzero', hshown', hcommits'⟩ := h'
      rw [hchain] at hcommits'
      by_cases hmembers : anchor.members = anchor'.members
      · exact Or.inl (VerifiedRoster.ext (hzero.trans hzero'.symm) hmembers)
      · exact Or.inr (Or.inl (.roster hshown hshown' hmembers (hcommits.trans hcommits'.symm)))

end

/-! ## Two clients -/

/-- Two clients of one chain, by one name and with one length of epoch. -/
structure Alike (client other : Client) (name : String) : Prop where
  crates : other.crates = client.crates
  chain : other.chain = client.chain
  configured : client.network.chainId = some name
  configured' : other.network.chainId = some name
  epochLength : other.network.epochLength = client.network.epochLength

section

variable {AccountLeaf : Type} {self other : Client} {accounts : AccountCrates AccountLeaf}
  {name : String} {genesis : Bytes 32} {start : Start} {s t s' t' : ClientState}
  {log log' : List (Done AccountLeaf)} {done done' : Done AccountLeaf}
  {told told' : Told AccountLeaf}

/-- What two alike clients are told from one start rests on headers taken from one anchor,
    or something is to blame. -/
theorem told_from_one_anchor (halike : Alike self other name)
    (hbegins : start.Begins self genesis s) (hbegins' : start.Begins other genesis s')
    (hrun : Run (Calls self accounts) s log t) (hrun' : Run (Calls other accounts) s' log' t')
    (hmem : done ∈ log) (hmem' : done' ∈ log') (htold : done.told = .ok told)
    (htold' : done'.told = .ok told') (hsome : told ≠ .other) (hsome' : told' ≠ .other) :
    (∃ anchor,
        Backed self accounts (AskedIn log) (self.crates.chainIdFromName name) genesis anchor told
          ∧ Backed other accounts (AskedIn log') (self.crates.chainIdFromName name) genesis anchor
            told')
      ∨ Fault ⟨self, AskedIn log⟩ ⟨other, AskedIn log'⟩ (self.crates.chainIdFromName name)
        genesis := by
  obtain ⟨anchor, hanchor, hbacked⟩ := (run_told halike.configured hbegins hrun (fun _ hr => hr)
    done hmem told htold).resolve_left hsome
  obtain ⟨anchor', hanchor', hbacked'⟩ := (run_told halike.configured' hbegins' hrun'
    (fun _ hr => hr) done' hmem' told' htold').resolve_left hsome'
  rw [halike.crates] at hbacked'
  rcases anchors_agree (a := ⟨self, AskedIn log⟩) (b := ⟨other, AskedIn log'⟩) halike.chain hanchor
    hanchor' with rfl | hfault
  · exact Or.inl ⟨anchor, hbacked, hbacked'⟩
  · exact Or.inr hfault

theorem Alike.lengths (halike : Alike self other name) : lengthOf other = lengthOf self := by
  rw [lengthOf, lengthOf, halike.epochLength]

end

/-! ## Two gateways with two headers

    The one validator of a roster signs two blocks of height one, and each of two
    gateways shows one of them, with the account it holds under it. -/

/-- A chain on whose state every key holds the byte that the root is made of. -/
def provenChain : Chain :=
  { plainChain with
    stateProof := fun bytes => some ⟨some bytes, []⟩
    stateVerify := fun _ proof root => decide (proof.value = some (root.val.take 1)) }

theorem provenChain_checks : PlainChecks provenChain := by
  constructor
  all_goals intros; rfl

/-- An account is one byte. -/
def byteAccounts : AccountCrates UInt8 where
  accountStateKey := fun address => asBytes address
  decodeAccountLeaf := List.head?

/-- What the gateway of a block answers about an account. -/
def accountAnswer (b : UInt8) : Json := .object
  [("header_bytes", .str (toHex [1, b])), ("certificate", .str (toHex (soleCertificate b))),
    ("proof", .str (toHex [b]))]

/-- A client of the local network whose gateway shows the header of one byte. -/
def provenClient (b : UInt8) : Client :=
  { localClient with
    chain := provenChain
    network := { localClient.network with epochLength := some 10 }
    transport := fun turn =>
      .ok (200, if turn = 0 then localInfo.render else (accountAnswer b).render) }

theorem parse_accountAnswer (b : UInt8) : parse (accountAnswer b).render = .ok (accountAnswer b) := by
  have hheight : Json.height (accountAnswer b) = 1 := rfl
  refine parse_render ?_ (hheight ▸ by decide)
  simp [accountAnswer, Json.DistinctKeys, Json.DistinctFields]

/-- The answer with one certificate is short enough to be taken. -/
theorem length_accountAnswer {b : UInt8} (h : (soleCertificate b).length ≤ 4096) :
    (asBytes (accountAnswer b).render).length ≤ responseCap "get_account_proof" := by
  have hframe : (asBytes (accountAnswer b).render).length
      ≤ 64 + 2 * (soleCertificate b).length := by
    have hmarks : (asBytes "\x7b").length = 1 ∧ (asBytes "\x7d").length = 1
        ∧ (asBytes ":").length = 1 ∧ (asBytes ",").length = 1 := by decide +kernel
    have hkeys : (asBytes (writeString "header_bytes")).length = 14
        ∧ (asBytes (writeString "certificate")).length = 13
        ∧ (asBytes (writeString "proof")).length = 7 := by
      decide +kernel
    simp only [accountAnswer, Json.render, Json.write, Json.writeFields, asBytes_append,
      List.length_append, length_writeString_toHex, List.length_cons, List.length_nil, hmarks, hkeys]
    omega
  have hcap : responseCap "get_account_proof" = 4194304 := by decide +kernel
  omega

/-- The client verifies the account under the header that its gateway shows. -/
theorem proven_verified {b : UInt8} {finalized : FinalizedHeader}
    (h : (soleCertificate b).length ≤ 4096)
    (hfinal : verifyFinality provenChain 9 (filled 0) [1, b] (soleCertificate b) [soleValidator]
      = .ok finalized) (hroot : finalized.qRoot = filled b) :
    Gives (verifiedAccount (provenClient b) byteAccounts "Qb") anchoredState
      { address := "Qb", header := finalized, account := some b }
      { anchoredState with turn := 2 } := by
  have hbase : checkEndpoint (provenClient b).base = .ok () := checkEndpoint_loopback
  have hinfo : Gives (provenClient b).nodeInfo anchoredState localNode
      { anchoredState with turn := 1 } :=
    bind_gives (rpc_answers hbase rfl length_localInfo) (ofExcept_gives parse_localInfo)
  have hanswer : Gives (accountProof (provenClient b) "Qb") { anchoredState with turn := 1 }
      (accountAnswer b) { anchoredState with turn := 2 } :=
    bind_gives (rpc_answers hbase rfl (length_accountAnswer h))
      (ofExcept_gives (parse_accountAnswer b))
  have hepoch : verifyFinalityInEpoch provenChain 9 (filled 0) 10 soleRoster [1, b]
      (soleCertificate b) = .ok finalized :=
    bind_pass (a := 1) rfl (bind_pass (a := 0) rfl (guard_pass (not_not.mpr rfl) hfinal))
  have hvalid : validAddress pairCrates.toCrates "Qb" = true := rfl
  have hproven : ¬ (!provenChain.stateVerify (byteAccounts.accountStateKey "Qb") ⟨some [b], []⟩
      finalized.qRoot) = true := by
    rw [hroot]
    show ¬ (!decide (some [b] = some [b])) = true
    rw [decide_eq_true rfl]
    exact Bool.false_ne_true
  refine bind_gives hinfo (bind_gives (ofExcept_gives (a := 9) rfl) (bind_gives hanswer ?_))
  refine bind_gives (ofExcept_gives (bind_pass rfl (fromHex_toHex [1, b]))) ?_
  refine bind_gives (ofExcept_gives (a := 0) rfl) ?_
  refine bind_gives (m := rosterForEpoch _ _ _) (a := some (filled 0, [soleValidator]))
    ⟨rfl, rfl⟩ (bind_gives (ofExcept_gives (a := (filled 0, [soleValidator])) rfl) ?_)
  refine bind_gives (ofExcept_gives (a := 10) rfl) ?_
  refine bind_gives (ofExcept_gives (bind_pass rfl (fromHex_toHex (soleCertificate b)))) ?_
  refine bind_gives (ofExcept_gives (bind_pass rfl (fromHex_toHex [b]))) (ofExcept_gives ?_)
  exact guard_pass (not_not.mpr hvalid) (bind_pass hepoch (value_pass rfl
    (guard_pass hproven (bind_pass (a := some b) rfl rfl))))

/-- So a caller is told of it. -/
theorem proven_told {b : UInt8} (h : (soleCertificate b).length ≤ 4096) :
    ∃ (v : VerifiedAccount UInt8) (done : Done UInt8) (t : ClientState),
      v.header.height = 1 ∧ v.header.hash = filled b ∧ v.address = "Qb" ∧ v.account = some b
        ∧ Calls (provenClient b) byteAccounts anchoredState done t
        ∧ done.told = .ok (.account v) := by
  obtain ⟨finalized, hfinal⟩ := sole_accepted_on provenChain_checks 9 (b := b) [1, b] rfl rfl rfl
  obtain ⟨header, _, _, hacc⟩ := accepted_spec hfinal
  have hheader : provenChain.headerFromBytes [1, b] = some header := hacc.parsed
  cases hheader
  obtain ⟨hheight, hhash, -, hroot, -⟩ := hacc.result
  have htold : Gives ((ClientCall.verifiedAccount "Qb").run (provenClient b) byteAccounts)
      anchoredState (.account { address := "Qb", header := finalized, account := some b })
      { anchoredState with turn := 2 } := bind_gives (proven_verified h hfinal hroot) ⟨rfl, rfl⟩
  exact ⟨{ address := "Qb", header := finalized, account := some b }, _, _, hheight, hhash, rfl, rfl,
    calls_done (ClientCall.verifiedAccount "Qb") anchoredState, told_done htold⟩

theorem proven_alike : Alike (provenClient 0) (provenClient 1) "Q-local" := ⟨rfl, rfl, rfl, rfl, rfl⟩

theorem proven_begins (b : UInt8) :
    (Start.given soleRoster).Begins (provenClient b) (filled 0) anchoredState :=
  .given anchoredState_gives

end QCoreAgreement
