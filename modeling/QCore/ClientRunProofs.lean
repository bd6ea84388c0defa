import Mathlib
import QCore.MachineIntProofs
import QCore.ByteMemoryProofs
import QCore.FallibleProofs
import QCore.TraceProofs
import QCore.TransitionProofs
import QCore.WireProofs
import QCore.SessionProofs
import QCore.CratesProofs
import QCore.ContractProofs
import QCore.CertificateProofs
import QCore.FinalityProofs
import QCore.FinalitySafetyProofs
import QCore.RosterProofs
import QCore.ClientProofs
import QCore.TrustProofs
import QCore.RosterRunProofs
import QCore.HeadProofs
import QCore.ConfirmationProofs
import QCore.SigningProofs
import QCore.OrderProofs
import QCore.EntryPointProofs
import QCore.SubmissionProofs
import QCore.EntryRunProofs
import QCore.EntryStepProofs
import QCore.SharedSessionProofs
import QCore.AccountProofs

/-! # The life of one client

    A client is called many times: to sign, to hand over, to confirm, to prove an account,
    to look at a contract.  What a call does to the chain its client pinned and the
    rosters it trusts is one of a few things (`Touch`), whatever the call is and wherever
    it stops.  What these keep holds over a client's life.

    Where rosters are followed, what was sent for them is kept with it (`asked`), so that
    what a client trusts can be traced to answers of its gateway. -/

namespace QCoreClientRun

open QCoreMachineInt QCoreByteMemory QCoreFallible QCoreTrace QCoreTrace.Traced QCoreTransition
  QCoreWire QCoreSession QCoreCrates QCoreContract QCoreCertificate QCoreFinality
  QCoreFinalitySafety QCoreRoster QCoreClient QCoreClient.Client QCoreTrust QCoreRosterRun QCoreHead
  QCoreConfirmation QCoreSigning QCoreOrder QCoreEntryPoint QCoreSubmission QCoreEntryRun
  QCoreEntryStep QCoreSharedSession QCoreAccount

/-! ## What a part of a call does -/

/-- Neither the pinned chain nor the trusted rosters have changed. -/
def Steady (s s' : ClientState) : Prop :=
  s'.pinnedChain = s.pinnedChain ∧ s'.trustedRoster = s.trustedRoster

instance : Std.Refl Steady := ⟨fun _ => ⟨rfl, rfl⟩⟩

instance : IsTrans ClientState Steady :=
  ⟨fun _ _ _ h h' => ⟨h'.1.trans h.1, h'.2.trans h.2⟩⟩

/-- The id is that of the configured chain, if one is configured. -/
def OnChain (self : Client) (chainId : U64) : Prop :=
  ∀ name, self.network.chainId = some name → chainId = self.crates.chainIdFromName name

/-- What a part of a call that reads does: it asks, or follows rosters by requests of
    a kind. -/
inductive Look (self : Client) (asked : Request → Prop) (s : ClientState) : ClientState → Prop
  | later {s' : ClientState} (h : Later s s') : Look self asked s s'
  | anchor (sent : ∀ r, Emits (anchorPinnedRoster self) s r → asked r) :
      Look self asked s (anchorPinnedRoster self s).state
  | follow {chainId epoch : U64} (hchain : OnChain self chainId)
      (sent : ∀ r, Emits (rosterForEpoch self chainId epoch) s r → asked r) :
      Look self asked s (rosterForEpoch self chainId epoch s).state

/-- What a part of any call may do to what its client has pinned and trusts. -/
inductive Touch (self : Client) (asked : Request → Prop) (s : ClientState) : ClientState → Prop
  | look {s' : ClientState} (h : Look self asked s s') : Touch self asked s s'
  | steady {s' : ClientState} (h : Steady s s') : Touch self asked s s'
  | pin {s' : ClientState} {name : String} (hnone : s.pinnedChain = none)
      (hpinned : s'.pinnedChain = some name) (hrosters : s'.trustedRoster = s.trustedRoster) :
      Touch self asked s s'

/-- Any number of looks. -/
abbrev Looks (self : Client) (asked : Request → Prop) : ClientState → ClientState → Prop :=
  Relation.ReflTransGen (Look self asked)

/-- Any number of touches. -/
abbrev Touches (self : Client) (asked : Request → Prop) : ClientState → ClientState → Prop :=
  Relation.ReflTransGen (Touch self asked)

/-- A relation on states for each kind of requests. -/
abbrev Traces := (Request → Prop) → ClientState → ClientState → Prop

/-- A computation stays in such a relation with the requests it sends, and goes on
    staying in it after what it hands over. -/
def Threads {α : Type} (R : Traces) (m : ClientM α) (s : ClientState) : Prop :=
  ∀ asked, (∀ r, Emits m s r → asked r) → Passes (R asked) Request.Submits Request.state m s

/-- A computation that only looks, and hands nothing over. -/
structure Reads {α : Type} (client : Client) (m : ClientM α) : Prop where
  looks : ∀ s, Threads (Looks client) m s
  silent : Silent Request.Submits m

/-- A computation that is steady, also after what it hands over. -/
abbrev Holds {α : Type} (m : ClientM α) (s : ClientState) : Prop :=
  Passes Steady Request.Submits Request.state m s

section

variable {R : Traces} [∀ asked, Std.Refl (R asked)] [∀ asked, IsTrans ClientState (R asked)]
  {α β : Type} {m : ClientM α} {f : α → ClientM β} {s : ClientState}

omit [∀ asked, Std.Refl (R asked)] in
/-- **A sequence stays in a relation** when each of its steps does. -/
theorem threads_bind (hm : Threads R m s) (hf : ∀ a t, Gives m s a t → Threads R (f a) t) :
    Threads R (m >>= f) s := by
  intro asked hasked
  refine passes_bind (hm asked (fun r hr => hasked r (emits_first hr))) (fun a t hgives => ?_)
  exact hf a t hgives asked (fun r hr => hasked r (emits_then hgives hr))

omit [∀ asked, IsTrans ClientState (R asked)] in
theorem threads_pure (a : α) : Threads R (pure a) s := fun _ _ => (within_pure a).passes

theorem threads_value {x : Except String α} (hf : ∀ a, x = .ok a → Threads R (f a) s) :
    Threads R ((liftM x : Traced ClientState Request String α) >>= f) s := by
  refine threads_bind (fun _ _ => (within_ofExcept x).passes) (fun a t hgives => ?_)
  obtain ⟨hx, ht⟩ := gives_ofExcept hgives
  exact ht ▸ hf a hx

/-- After the state is read, it is what it was. -/
theorem threads_read {f : ClientState → ClientM α} (h : Threads R (f s) s) :
    Threads R (read >>= f) s := by
  refine threads_bind (fun _ _ => within_read.passes) ?_
  rintro a t ⟨ha, rfl⟩
  cases ha
  exact h

omit [∀ asked, Std.Refl (R asked)] in
theorem threads_finally {g : ClientState → ClientState} (hm : Threads R m s)
    (hg : ∀ asked t, R asked t (g t)) : Threads R (m.andFinally g) s :=
  fun asked hasked => passes_finally (hm asked (fun r hr => hasked r hr)) (hg asked)

end

section

variable {self : Client} {asked : Request → Prop} {info : NodeInfo} {s t : ClientState}
  {α β : Type} {m : ClientM α} {f : α → ClientM β}

theorem touches_of_looks (h : Looks self asked s t) : Touches self asked s t :=
  Relation.ReflTransGen.mono (fun _ _ => Touch.look) _ _ h

theorem threads_of_holds (h : Holds m s) : Threads (Touches self) m s :=
  fun _ _ => h.mono (fun _ _ hsteady => Relation.ReflTransGen.single (Touch.steady hsteady))

theorem holds_of_asks (h : Asks m) : Holds m s := by
  refine (h.mono ?_).passes
  rintro s s' ⟨turn, rfl⟩
  exact ⟨rfl, rfl⟩

theorem holds_modify {g : ClientState → ClientState} (h : ∀ s, Steady s (g s)) :
    Holds (modify g) s := (within_modify h).passes

/-- A look takes turns and follows rosters, and changes nothing else. -/
theorem Look.followed (h : Look self asked s t) : Followed s t := by
  cases h with
  | later hlater => exact Followed.of_later hlater
  | anchor _ => exact anchorPinnedRoster_follows.moves s
  | follow _ _ => exact rosterForEpoch_follows.moves s

/-! ## Reading -/

theorem Reads.threads (h : Reads self m) : Threads (Touches self) m s :=
  fun asked hasked => (h.looks s asked hasked).mono (fun _ _ => touches_of_looks)

theorem reads_of_asks (h : Asks m) : Reads self m where
  looks := fun _ _ _ =>
    (h.mono (fun _ _ hlater => Relation.ReflTransGen.single (Look.later hlater))).passes
  silent := h.silent

theorem reads_pure (a : α) : Reads self (pure a) := reads_of_asks (within_pure a)

theorem reads_except (x : Except String α) : Reads self (liftM x : Traced ClientState Request String α) :=
  reads_of_asks (within_ofExcept x)

theorem reads_bind (hm : Reads self m) (hf : ∀ a, Reads self (f a)) : Reads self (m >>= f) where
  looks := fun s => threads_bind (hm.looks s) (fun a t _ => (hf a).looks t)
  silent := silent_bind hm.silent (fun a => (hf a).silent)

/-- A step from an `Except`, where the rest may rest on the value. -/
theorem reads_value {x : Except String α} (hf : ∀ a, x = .ok a → Reads self (f a)) :
    Reads self ((liftM x : Traced ClientState Request String α) >>= f) where
  looks := fun s => threads_value (fun a ha => (hf a ha).looks s)
  silent := by
    intro s r he
    obtain ⟨a, ha, he⟩ := emits_value he
    exact (hf a ha).silent s r he

theorem anchorPinnedRoster_reads : Reads self (anchorPinnedRoster self) where
  looks := fun _ _ hasked => ⟨Relation.ReflTransGen.single (Look.anchor hasked),
    fun r hr he => absurd hr (anchorPinnedRoster_follows.silent _ r he)⟩
  silent := anchorPinnedRoster_follows.silent

theorem rosterForEpoch_reads {chainId epoch : U64} (hchain : OnChain self chainId) :
    Reads self (rosterForEpoch self chainId epoch) where
  looks := fun _ _ hasked => ⟨Relation.ReflTransGen.single (Look.follow hchain hasked),
    fun r hr he => absurd hr (rosterForEpoch_follows.silent _ r he)⟩
  silent := rosterForEpoch_follows.silent

/-! ## Signing -/

/-- A plain submit is steady. -/
theorem submit_holds {txBytes : List UInt8} : Holds (self.submit txBytes) s := by
  have hend : Steady s (self.submit txBytes s).state := by
    have hlater : Moves Later (self.submit txBytes) := submit_later
    obtain ⟨turn, hturn⟩ := hlater s
    rw [hturn]
    exact ⟨rfl, rfl⟩
  refine ⟨hend, fun r _ he => ?_⟩
  rw [(emits_submit he).2]
  exact hend

/-- The signing step is steady. -/
theorem signAndSubmit_holds {targets : List String} {slots : List (String × U64)}
    {sign : Bytes 32 → Except String (Bytes 32) → Except String SignedTransfer} :
    Holds (signAndSubmit self info targets slots sign) s := by
  have hheld : ∀ {signed t}, Holds (submitHeld self slots signed) t := by
    intro signed t
    refine passes_bind (holds_modify (fun _ => ⟨rfl, rfl⟩)) (fun _ _ _ => ?_)
    refine passes_bind (holds_of_asks saveSigned_asks) (fun _ _ _ => ?_)
    refine passes_bind submit_holds (fun _ _ _ => ?_)
    exact passes_bind (holds_modify (fun _ => ⟨rfl, rfl⟩)) (fun _ _ _ => (within_pure _).passes)
  refine passes_bind (holds_of_asks signingGenesis_asks) (fun _ _ _ => ?_)
  refine passes_bind (holds_of_asks (reach_asks _)) (fun _ _ _ => passes_value (fun _ _ => ?_))
  refine passes_bind (holds_modify (fun _ => ⟨rfl, rfl⟩)) (fun _ _ _ => ?_)
  exact passes_bind hheld (fun _ _ _ => (within_pure _).passes)

/-- To bind the session to a chain is a touch. -/
theorem pinChain_threads {name : String} : Threads (Touches self) (pinChain name) s := by
  refine threads_read ?_
  split
  · exact fun _ _ => (within_ofExcept _).passes
  · next hnone =>
      refine fun _ _ => ⟨Relation.ReflTransGen.single (Touch.pin hnone rfl rfl), ?_⟩
      exact fun r _ he => absurd he List.not_mem_nil

/-- To check the chain is a number of touches. -/
theorem signingChainId_threads : Threads (Touches self) (signingChainId self info) s := by
  have hhold : ∀ {t}, Threads (Touches self) (holdChain self info) t := by
    intro t
    rw [holdChain]
    split
    · exact fun _ _ => (within_ofExcept _).passes
    · exact threads_value (fun _ _ => pinChain_threads)
  refine threads_value (fun _ _ => threads_value (fun _ _ => threads_bind hhold (fun _ _ _ => ?_)))
  exact threads_value (fun _ _ => threads_pure _)

/-- So is the opening of a call. -/
theorem opening_threads {sender : String} {targets : List String}
    {feeOf : NodeInfo → Except String U128} :
    Threads (Touches self) (opening self sender targets feeOf) s := by
  have hvet : Within Steady Request.Submits (vetTarget self sender targets) :=
    within_bind (within_modify (fun _ => ⟨rfl, rfl⟩)) (fun _ =>
      within_bind within_read (fun _ => within_ofExcept _))
  refine threads_bind (threads_of_holds hvet.passes) (fun _ _ _ => ?_)
  refine threads_bind (reads_of_asks nodeInfo_asks).threads (fun _ _ _ => ?_)
  refine threads_value (fun _ _ => threads_value (fun _ _ => ?_))
  exact threads_bind signingChainId_threads (fun _ _ _ => threads_pure _)

/-- The id of a name that is the configured one. -/
theorem onChain_of_checked {chainId : U64}
    (hname : ∀ name, self.network.chainId = some name → info.chainId = name)
    (h : checkedChainId self.crates.toCrates info.chainId = .ok chainId) : OnChain self chainId :=
  fun name hconfigured => hname name hconfigured ▸ (checkedChainId_ok h).1

theorem onChain_of_checkedChain {chainId : U64} (h : checkedChain self info = .ok chainId) :
    OnChain self chainId := by
  obtain ⟨hname, hchecked⟩ := checkedChain_ok h
  exact onChain_of_checked hname hchecked

/-- To check the head only reads. -/
theorem verifyHead_reads
    (hname : ∀ name, self.network.chainId = some name → info.chainId = name) :
    Reads self (verifyHead self info) := by
  refine reads_value (fun chainId hchain => reads_bind anchorPinnedRoster_reads (fun anchored => ?_))
  split
  · refine reads_bind (reads_of_asks (certifiedAt_asks _)) ?_
    rintro ⟨epoch, header, certificate⟩
    refine reads_bind (rosterForEpoch_reads (onChain_of_checked hname hchain)) (fun _ => ?_)
    refine reads_bind (reads_except _) ?_
    rintro ⟨genesis, members⟩
    refine reads_bind (reads_except _) (fun _ => reads_bind (reads_except _) (fun _ => ?_))
    exact reads_bind (reads_except _) (fun _ => reads_pure _)
  · exact reads_bind (reads_except _) (fun _ => reads_pure _)

/-- To find a deadline is a number of touches. -/
theorem validity_threads
    (hname : ∀ name, self.network.chainId = some name → info.chainId = name) :
    Threads (Touches self) (validity self info) s := by
  refine threads_bind (reads_of_asks signingGenesis_asks).threads (fun _ _ _ => ?_)
  refine threads_bind (verifyHead_reads hname).threads (fun _ _ _ => ?_)
  refine threads_value (fun _ _ => threads_value (fun _ _ => ?_))
  refine threads_bind (reads_of_asks (reach_asks _)).threads (fun _ _ _ => threads_read ?_)
  refine threads_value (fun _ _ => ?_)
  exact threads_bind (threads_of_holds (holds_modify (fun _ => ⟨rfl, rfl⟩)))
    (fun _ _ _ => threads_pure _)

/-- So is each step of an entry point before it signs. -/
theorem Preparing.threads {entry : Entry} (h : Preparing self entry m) :
    Threads (Touches self) m s := by
  cases h with
  | clock => exact (reads_of_asks orderClock_asks).threads
  | opening => exact opening_threads
  | genesis => exact (reads_of_asks signingGenesis_asks).threads
  | validity named => exact validity_threads named
  | account => exact (reads_of_asks (account_asks _)).threads
  | orderNonce => exact (reads_of_asks (contractNonce_asks _ _)).threads
  | draw => exact (reads_of_asks (reach_asks _)).threads

/-- So is what is done when the outcome is known. -/
theorem Closing.threads (h : Closing self m) : Threads (Touches self) m s := by
  cases h with
  | done => exact threads_pure _
  | remember =>
      exact threads_bind (threads_of_holds (holds_modify (fun _ => ⟨rfl, rfl⟩)))
        (fun _ _ _ => threads_pure _)

/-- **A signing call touches its client**, whatever its gateway answers and wherever it
    stops. -/
theorem entry_threads (self : Client) (entry : Entry) (s : ClientState) :
    Threads (Touches self) (entry.run self) s := by
  refine entry_steps (P := fun m s => Threads (Touches self) m s)
    ⟨?value, ?prepare, ?reserve, ?submit, ?close⟩ s
  case value => exact threads_value
  case prepare => exact fun hm hrest => threads_bind (Preparing.threads hm) hrest
  case reserve =>
    intro α key reported expected order rest s _ hrest
    refine threads_bind (threads_of_holds (within_step (fun _ => ⟨rfl, rfl⟩)).passes) ?_
    intro nonce t hgranted
    refine threads_finally (hrest nonce t (granted_names hgranted)) (fun _ _ => ?_)
    exact Relation.ReflTransGen.single (Touch.steady ⟨rfl, rfl⟩)
  case submit => exact fun _ => threads_of_holds signAndSubmit_holds
  case close => exact fun hm hclose => threads_bind hm (fun a _ _ => Closing.threads (hclose a))

end

/-! ## Calls that read -/

section

variable {self : Client} {txId : String}

/-- To look for a transaction in a block only reads. -/
theorem inclusion_reads {trusted : Option (Bytes 32 × VerifiedRoster)} :
    Reads self (inclusion self txId trusted) := by
  refine reads_bind (reads_of_asks nodeInfo_asks) (fun info => ?_)
  refine reads_value (fun chainId hchain => ?_)
  refine reads_bind (reads_of_asks (transactionProof_asks txId)) ?_
  rintro ⟨height, index, leaf, steps⟩
  refine reads_bind (reads_of_asks (certifiedAt_asks height)) ?_
  rintro ⟨epoch, header, certificate⟩
  have hroster : Reads self (rosterFor self chainId epoch trusted) := by
    cases trusted with
    | some given => exact reads_pure _
    | none =>
        refine reads_bind (rosterForEpoch_reads (onChain_of_checkedChain hchain)) (fun _ => ?_)
        exact reads_bind (reads_except _) (fun _ => reads_pure _)
  refine reads_bind hroster ?_
  rintro ⟨genesis, roster⟩
  refine reads_bind (reads_except _) (fun _ => reads_bind (reads_except _) (fun _ => ?_))
  refine reads_bind (reads_except _) (fun _ => reads_bind (reads_except _) (fun _ => ?_))
  refine reads_bind (reads_except _) (fun _ => reads_bind (reads_except _) (fun _ => ?_))
  exact reads_pure _

theorem events_asks (height : U64) : Asks (events self height) :=
  within_bind (rpc_asks (by decide) _) (fun _ => within_ofExcept _)

theorem eventProof_asks (height : U64) (position : Nat) : Asks (eventProof self height position) := by
  refine within_bind (rpc_asks (by decide) _) (fun _ => within_bind (within_ofExcept _) (fun _ => ?_))
  refine within_bind (within_ofExcept _) (fun _ => within_bind (within_ofExcept _) (fun _ => ?_))
  exact within_bind (within_ofExcept _) (fun _ => within_pure _)

/-- To look for an event only asks. -/
theorem provenEvent_asks {c : ConfirmedTransaction} {contract : String} {selector : Bytes 4}
    {data : Option (List UInt8)} (position : Nat) (events : List ContractEvent) :
    Asks (provenEvent self c txId contract selector data position events) := by
  induction events generalizing position with
  | nil => exact within_ofExcept _
  | cons event rest ih =>
      rw [provenEvent]
      split
      · refine within_bind (eventProof_asks _ _) ?_
        rintro ⟨leaf, steps⟩
        dsimp only
        split
        · refine within_bind (within_ofExcept _) (fun proven => ?_)
          split
          · exact within_pure _
          · exact ih _
        · exact ih _
      · exact ih _

/-- The confirmation of an event only reads. -/
theorem confirmCallEvent_reads {contract : String} {selector : Bytes 4}
    {data : Option (List UInt8)} :
    Reads self (confirmCallEvent self txId contract selector data) := by
  refine reads_bind inclusion_reads (fun _ => ?_)
  refine reads_bind (reads_of_asks (events_asks _)) (fun _ => ?_)
  exact reads_of_asks (provenEvent_asks _ _)

/-- The status of a transaction only reads. -/
theorem transaction_reads : Reads self (transaction self txId) := by
  refine reads_bind (reads_of_asks (transactionReported_asks txId)) (fun status => ?_)
  split
  · next height block =>
      refine reads_bind anchorPinnedRoster_reads (fun anchored => ?_)
      split
      · exact reads_bind inclusion_reads (fun _ => reads_pure _)
      · rw [reportedStatus]
        split
        · exact reads_except _
        · refine reads_bind (reads_of_asks nodeInfo_asks) (fun _ => ?_)
          exact reads_bind (reads_except _) (fun _ => reads_pure _)
  · exact reads_pure _

/-- So does a verified account. -/
theorem verifiedAccount_reads {AccountLeaf : Type} {accounts : AccountCrates AccountLeaf}
    {address : String} : Reads self (verifiedAccount self accounts address) := by
  refine reads_bind (reads_of_asks nodeInfo_asks) (fun info => ?_)
  refine reads_value (fun chainId hchain => ?_)
  refine reads_bind (reads_of_asks (accountProof_asks address)) (fun _ => ?_)
  refine reads_bind (reads_except _) (fun _ => reads_bind (reads_except _) (fun _ => ?_))
  refine reads_bind (rosterForEpoch_reads (onChain_of_checkedChain hchain)) (fun _ => ?_)
  refine reads_bind (reads_except _) ?_
  rintro ⟨genesis, members⟩
  refine reads_bind (reads_except _) (fun _ => reads_bind (reads_except _) (fun _ => ?_))
  exact reads_bind (reads_except _) (fun _ => reads_except _)

end

/-! ## Runs of calls -/

/-- A call of a client that may ask its gateway something: to sign and hand over, to hand
    bytes over as they are, to confirm or to look something up. -/
inductive ClientCall
  | sign (entry : Entry)
  | submit (txBytes : List UInt8)
  | nodeInfo
  | account (address : String)
  | storage (contract : String)
  | storageAt (contract : String) (keys : List (Bytes 32))
  | contractNonce (contract : String) (signer : Bytes 32)
  | contractScalar (contract : String) (slot : U64)
  | contractMap (contract : String) (mapDomainTag : U64) (key : Bytes 32)
  | assetBalance (issuer holder : String)
  | events (height : U64)
  | confirmInclusion (txId : String) (genesisHash : Bytes 32) (roster : VerifiedRoster)
  | confirmInclusionTrusted (txId : String)
  | confirmTransaction (txId : String) (genesisHash : Bytes 32) (roster : VerifiedRoster)
  | confirmTransactionTrusted (txId : String)
  | confirmCallEvent (txId contract : String) (selector : Bytes 4) (data : Option (List UInt8))
  | transaction (txId : String)
  | verifiedAccount (address : String)

/-- Whether a call is there to hand something over. -/
def ClientCall.handsOver : ClientCall → Bool
  | sign _ | submit _ => true
  | _ => false

/-- What a caller is told that the rosters a client trusts stand behind. -/
inductive Told (AccountLeaf : Type)
  | confirmed (c : ConfirmedTransaction)
  | account (v : VerifiedAccount AccountLeaf)
  | other

variable {AccountLeaf : Type}

/-- A call, and what the caller is told. -/
def ClientCall.run (self : Client) (accounts : AccountCrates AccountLeaf) :
    ClientCall → ClientM (Told AccountLeaf)
  | sign entry => do
      entry.run self
      return .other
  | submit txBytes => do
      let _ ← self.submit txBytes
      return .other
  | nodeInfo => do
      let _ ← self.nodeInfo
      return .other
  | account address => do
      let _ ← self.account address
      return .other
  | storage contract => do
      let _ ← QCoreEntryPoint.storage self contract
      return .other
  | storageAt contract keys => do
      let _ ← QCoreEntryPoint.storageAt self contract keys
      return .other
  | contractNonce contract signer => do
      let _ ← QCoreEntryPoint.contractNonce self contract signer
      return .other
  | contractScalar contract slot => do
      let _ ← QCoreEntryPoint.contractScalar self contract slot
      return .other
  | contractMap contract mapDomainTag key => do
      let _ ← QCoreEntryPoint.contractMap self contract mapDomainTag key
      return .other
  | assetBalance issuer holder => do
      let _ ← QCoreEntryPoint.assetBalance self issuer holder
      return .other
  | events height => do
      let _ ← QCoreConfirmation.events self height
      return .other
  -- a caller that brings a roster trusts it on its own account
  | confirmInclusion txId genesisHash roster => do
      let _ ← QCoreConfirmation.confirmInclusion self txId genesisHash roster
      return .other
  | confirmInclusionTrusted txId => do
      let c ← QCoreConfirmation.confirmInclusionTrusted self txId
      return .confirmed c
  | confirmTransaction txId genesisHash roster => do
      let _ ← QCoreConfirmation.confirmTransaction self txId genesisHash roster
      return .other
  | confirmTransactionTrusted txId => do
      let c ← QCoreConfirmation.confirmTransactionTrusted self txId
      return .confirmed c
  | confirmCallEvent txId contract selector data => do
      let c ← QCoreConfirmation.confirmCallEvent self txId contract selector data
      return .confirmed c
  | transaction txId => do
      let _ ← QCoreConfirmation.transaction self txId
      return .other
  | verifiedAccount address => do
      let v ← QCoreAccount.verifiedAccount self accounts address
      return .account v

/-- A call and what came of it. -/
structure Done (AccountLeaf : Type) where
  call : ClientCall
  told : Except String (Told AccountLeaf)
  requests : List Request

/-- A request of one of the calls. -/
def AskedIn (log : List (Done AccountLeaf)) (r : Request) : Prop :=
  ∃ done ∈ log, r ∈ done.requests

/-- One call, from the state before it to the state after. -/
def Calls (self : Client) (accounts : AccountCrates AccountLeaf) (s : ClientState)
    (done : Done AccountLeaf) (s' : ClientState) : Prop :=
  done.call.run self accounts s = ⟨done.told, s', done.requests⟩

/-- A call, with what comes of it in a state. -/
def ClientCall.done (self : Client) (accounts : AccountCrates AccountLeaf) (call : ClientCall)
    (s : ClientState) : Done AccountLeaf :=
  ⟨call, (call.run self accounts s).result, (call.run self accounts s).events⟩

section

variable {self : Client} {accounts : AccountCrates AccountLeaf} {s s' t : ClientState}
  {log : List (Done AccountLeaf)} {done : Done AccountLeaf} {asked : Request → Prop}

theorem calls_done (call : ClientCall) (s : ClientState) :
    Calls self accounts s (call.done self accounts s) (call.run self accounts s).state := rfl

theorem requests_done {call : ClientCall} {r : Request} (h : Emits (call.run self accounts) s r) :
    r ∈ (call.done self accounts s).requests := h

theorem told_done {call : ClientCall} {told : Told AccountLeaf}
    (h : Gives (call.run self accounts) s told s') : (call.done self accounts s).told = .ok told :=
  h.1

/-- A call of any other kind only looks. -/
theorem call_reads {call : ClientCall} (h : call.handsOver = false) :
    Reads self (call.run self accounts) := by
  have hdone : ∀ {α β : Type} {m : ClientM α} {g : α → β}, Reads self m →
      Reads self (m >>= fun a => (pure (g a) : ClientM β)) :=
    fun h => reads_bind h (fun _ => reads_pure _)
  cases call with
  | sign | submit => cases h
  | nodeInfo => exact hdone (reads_of_asks nodeInfo_asks)
  | account address => exact hdone (reads_of_asks (account_asks address))
  | storage contract => exact hdone (reads_of_asks (storage_asks contract))
  | storageAt contract keys => exact hdone (reads_of_asks (storageAt_asks contract keys))
  | contractNonce contract signer =>
      exact hdone (reads_of_asks (contractNonce_asks contract signer))
  | contractScalar contract slot => exact hdone (reads_of_asks (slotValue_asks contract _))
  | contractMap contract mapDomainTag key =>
      exact hdone (reads_of_asks (slotValue_asks contract _))
  | assetBalance issuer holder => exact hdone (reads_of_asks (assetBalance_asks issuer holder))
  | events height => exact hdone (reads_of_asks (events_asks height))
  | confirmInclusion | confirmInclusionTrusted => exact hdone inclusion_reads
  | confirmTransaction | confirmTransactionTrusted =>
      exact hdone (reads_bind inclusion_reads (fun _ => reads_except _))
  | confirmCallEvent => exact hdone confirmCallEvent_reads
  | transaction => exact hdone transaction_reads
  | verifiedAccount => exact hdone verifiedAccount_reads

/-- **A call is a number of touches**, whatever it is. -/
theorem call_threads (call : ClientCall) (s : ClientState) :
    Threads (Touches self) (call.run self accounts) s := by
  cases call with
  | sign entry => exact threads_bind (entry_threads self entry s) (fun _ _ _ => threads_pure _)
  | submit txBytes =>
      exact threads_bind (threads_of_holds submit_holds) (fun _ _ _ => threads_pure _)
  | _ => exact (call_reads rfl).threads

/-- **Two kinds of calls hand over**: one that signs, and one that is given the bytes. -/
theorem call_hands {call : ClientCall} {r : Request} (hr : r.Submits)
    (h : Emits (call.run self accounts) s r) :
    (∃ entry, call = .sign entry ∧ Emits (entry.run self) s r)
      ∨ ∃ txBytes, call = .submit txBytes ∧ r.body = submitBody txBytes := by
  cases call with
  | sign entry => exact Or.inl ⟨entry, rfl, emits_map h⟩
  | submit txBytes =>
      have hsubmit := emits_map h
      exact Or.inr ⟨txBytes, rfl, (emits_submit hsubmit).1⟩
  | _ =>
      exact absurd hr ((call_reads rfl).silent s r h)

/-- What one call sends is sent in the run. -/
theorem call_emits {r : Request} (hcall : Calls self accounts s done s') :
    Emits (done.call.run self accounts) s r ↔ r ∈ done.requests := by
  rw [Emits, hcall]

/-- So is what one that signs does. -/
theorem signed_request {entry : Entry} {r : Request} (hsign : done.call = .sign entry)
    (hcall : Calls self accounts s done s') (hr : r ∈ done.requests) :
    Emits (entry.run self) s r := by
  have hemits := (call_emits hcall).mpr hr
  rw [hsign] at hemits
  exact emits_map hemits

/-- One call touches its client, by requests of a kind that it sends. -/
theorem call_touches (hcall : Calls self accounts s done s')
    (hasked : ∀ r ∈ done.requests, asked r) :
    Touches self asked s s' ∧ ∀ r ∈ done.requests, r.Submits → Touches self asked r.state s' := by
  have hthreads : Threads (Touches self) (done.call.run self accounts) s :=
    call_threads done.call s
  obtain ⟨hends, hpast⟩ := hthreads asked (fun r hr => hasked r ((call_emits hcall).mp hr))
  rw [hcall] at hends hpast
  exact ⟨hends, fun r hr hsubmits => hpast r hsubmits ((call_emits hcall).mpr hr)⟩

/-- Each call of a run goes from some state to some other. -/
theorem run_called (h : Run (Calls self accounts) s log t) :
    ∀ done ∈ log, ∃ u v, Calls self accounts u done v := by
  induction h with
  | nil => exact fun _ hmem => absurd hmem List.not_mem_nil
  | @cons es e u v _ hcall ih =>
      intro done hmem
      rcases List.mem_cons.mp hmem with rfl | hmem
      · exact ⟨u, v, hcall⟩
      · exact ih done hmem

/-- **A run of calls touches its client**, and goes on touching it after whatever
    it has handed over. -/
theorem run_touches (h : Run (Calls self accounts) s log t)
    (hasked : ∀ r, AskedIn log r → asked r) :
    Touches self asked s t
      ∧ ∀ done ∈ log, ∀ r ∈ done.requests, r.Submits → Touches self asked r.state t := by
  induction h with
  | nil => exact ⟨Relation.ReflTransGen.refl, fun _ hmem => absurd hmem List.not_mem_nil⟩
  | @cons es e u v _ hcall ih =>
      obtain ⟨hends, hpast⟩ := call_touches hcall
        (fun r hr => hasked r ⟨e, List.mem_cons_self, hr⟩)
      obtain ⟨hbefore, hearlier⟩ := ih (fun r hr => hasked r (hr.imp
        (fun _ hmem => ⟨List.mem_cons_of_mem _ hmem.1, hmem.2⟩)))
      refine ⟨hbefore.trans hends, ?_⟩
      intro done hmem r hr hsubmits
      rcases List.mem_cons.mp hmem with rfl | hmem
      · exact hpast r hr hsubmits
      · exact (hearlier done hmem r hr hsubmits).trans hends

/-! ## What no call undoes -/

/-- A pinned chain stays pinned. -/
theorem touches_keep_pinned {name : String} (h : Touches self asked s t)
    (hpinned : s.pinnedChain = some name) : t.pinnedChain = some name := by
  induction h with
  | refl => exact hpinned
  | tail _ htouch ih =>
      cases htouch with
      | look hlook =>
          obtain ⟨turn, trusted, hstate⟩ := hlook.followed
          rw [hstate]
          exact ih
      | steady hsteady => exact hsteady.1.trans ih
      | pin hnone _ _ => exact nomatch hnone.symm.trans ih

/-- The rosters a client trusts are under a genesis. -/
def Under (genesis : Bytes 32) (s : ClientState) : Prop :=
  ∃ rosters, s.trustedRoster = some (genesis, rosters)

/-- A walk along rosters stays under the genesis that it began with. -/
theorem walk_under {chainId length epoch : U64} {genesis genesis' : Bytes 32} {fuel : Nat}
    {current : VerifiedRoster} (h : Under genesis s) :
    Ends (Under genesis) (walk self chainId genesis' length epoch fuel current) s := by
  induction fuel generalizing current s with
  | zero => exact h
  | succ fuel ih =>
      rw [walk_succ]
      split
      · have hlater : Ends (Under genesis) (nextRoster self chainId genesis' length current) s := by
          obtain ⟨turn, hturn⟩ := (nextRoster_asks current).moves s
          rw [Ends, hturn]
          exact h
        refine ends_bind hlater (fun next t hgives => ?_)
        obtain ⟨rosters, hrosters⟩ : Under genesis t := hgives.2 ▸ hlater
        have hkept : Ends (Under genesis) (keepRoster next) t := by
          refine ⟨storeRoster rosters next, ?_⟩
          show Option.map _ t.trustedRoster = _
          rw [hrosters]
          rfl
        exact ends_bind hkept (fun _ _ hkeep => ih (hkeep.2 ▸ hkept))
      · exact h

/-- Rosters that are trusted stay under their genesis. -/
theorem touches_keep_genesis {genesis : Bytes 32} (h : Touches self asked s t)
    (hunder : Under genesis s) : Under genesis t := by
  induction h with
  | refl => exact hunder
  | tail _ htouch ih =>
      obtain ⟨rosters, hrosters⟩ := ih
      cases htouch with
      | steady hsteady => exact ⟨rosters, hsteady.2.trans hrosters⟩
      | pin _ _ hsame => exact ⟨rosters, hsame.trans hrosters⟩
      | look hlook =>
        cases hlook with
        | later hlater =>
          obtain ⟨turn, rfl⟩ := hlater
          exact ⟨rosters, hrosters⟩
        | anchor _ =>
          rw [anchorPinnedRoster_trusted hrosters]
          exact ⟨rosters, hrosters⟩
        | @follow chainId epoch _ _ =>
          rw [rosterForEpoch_trusted hrosters]
          show Ends (Under genesis) (followRosters self chainId epoch (genesis, rosters)) _
          refine ends_value ⟨rosters, hrosters⟩ (fun start _ => ?_)
          refine ends_value ⟨rosters, hrosters⟩ (fun length _ => ?_)
          have hwalk : Ends (Under genesis)
              (walk self chainId genesis length epoch (epoch.val - start.epoch.val) start) _ :=
            walk_under ⟨rosters, hrosters⟩
          exact ends_bind hwalk (fun _ _ hgives => hgives.2 ▸ hwalk)

/-! ## One chain -/

/-- A transaction that is handed over was signed by an account for a genesis. -/
def SignedFor (self : Client) (r : Request) (genesis : Bytes 32) (body : Body) : Prop :=
  ∃ seed index rnd wrapper, body.sender = self.crates.accountAddress seed index
    ∧ self.crates.trySignHedged seed index body genesis rnd = some wrapper
    ∧ r.body = submitBody wrapper.bytes

/-- **What a call hands over is guarded**, for each address it is asked to sign for. -/
theorem entry_vetted {entry : Entry} {r : Request} (hr : r.Submits)
    (h : Emits (entry.run self) s r) :
    ∃ maxFee info genesis body slots,
      Guarded self s maxFee (targetsOf entry) r info genesis body slots := by
  cases entry with
  | transfer => exact ⟨_, transfer_guarded hr (emits_map h)⟩
  | register => exact ⟨_, register_guarded hr (emits_map h)⟩
  | callPayable => exact ⟨_, callPayable_guarded hr (emits_map h)⟩
  | callAsset => exact ⟨_, callAsset_guarded hr (emits_map h)⟩
  | callSignedOrder =>
      have horder := emits_map h
      obtain ⟨info, genesis, body, slots, hguarded, -⟩ := callSignedOrder_guarded hr horder
      exact ⟨_, info, genesis, body, slots, hguarded⟩
  | callTypedOrder =>
      have horder := emits_map h
      obtain ⟨info, genesis, body, slots, hguarded, -⟩ := callTypedOrder_guarded hr horder
      exact ⟨_, info, genesis, body, slots, hguarded⟩
  | deployWithParams => exact ⟨_, deployWithParams_guarded hr (emits_map h)⟩

/-- Every transaction that was signed in a run was guarded in a call that began past the
    start of the run, and was handed over before its end. -/
theorem run_guarded (h : Run (Calls self accounts) s log t) : ∀ done ∈ log,
    ∀ entry, done.call = .sign entry → ∀ r ∈ done.requests, r.Submits →
      ∃ u maxFee info genesis body slots, Touches self (fun _ => True) s u
        ∧ Touches self (fun _ => True) r.state t
        ∧ Guarded self u maxFee (targetsOf entry) r info genesis body slots := by
  induction h with
  | nil => exact fun _ hmem => absurd hmem List.not_mem_nil
  | @cons es e u v hrun hcall ih =>
      obtain ⟨hends, hpast⟩ := call_touches hcall (fun _ _ => trivial)
      intro done hmem entry hsign r hr hsubmits
      rcases List.mem_cons.mp hmem with rfl | hmem
      · obtain ⟨maxFee, info, genesis, body, slots, hguarded⟩ :=
          entry_vetted hsubmits (signed_request hsign hcall hr)
        exact ⟨u, maxFee, info, genesis, body, slots, (run_touches hrun (fun _ _ => trivial)).1,
          hpast r hr hsubmits, hguarded⟩
      · obtain ⟨w, maxFee, info, genesis, body, slots, hbefore, hafter, hguarded⟩ :=
          ih done hmem entry hsign r hr hsubmits
        exact ⟨w, maxFee, info, genesis, body, slots, hbefore, hafter.trans hends, hguarded⟩

/-- **One client, one chain.**  Whatever a client is called for and its gateway
    answers, every transaction it ever signs and hands over is signed for one and the
    same chain, which is the configured one where one is configured, and not a retired
    one; and where its network pins a genesis or it trusted rosters from the
    start, for that one genesis.  What it hands over besides was given to it as it is. -/
theorem handed_over_on_one_chain (h : Run (Calls self accounts) s log t) :
    ∃ name, (∀ configured, self.network.chainId = some configured → name = configured)
      ∧ ∀ done ∈ log, ∀ r ∈ done.requests, r.Submits →
        (∃ txBytes, done.call = .submit txBytes ∧ r.body = submitBody txBytes)
          ∨ ∃ genesis body, SignedFor self r genesis body
            ∧ body.chainId = self.crates.chainIdFromName name ∧ name ∉ retiredChainNames
            ∧ (∀ pinned, self.network.genesisHash = some pinned → genesis = pinned)
            ∧ ∀ trusted, Under trusted s → genesis = trusted := by
  refine ⟨(self.network.chainId.or t.pinnedChain).getD "", fun configured hconfigured => ?_, ?_⟩
  · rw [hconfigured]
    rfl
  · intro done hmem r hr hsubmits
    obtain ⟨_, _, hcall⟩ := run_called h done hmem
    rcases call_hands hsubmits ((call_emits hcall).mpr hr) with ⟨entry, hsign, -⟩ | hgiven
    · obtain ⟨u, maxFee, info, genesis, body, slots, hbefore, hafter, hguarded⟩ :=
        run_guarded h done hmem entry hsign r hr hsubmits
      -- a name that was pinned when the transaction was handed over is pinned at the end
      have hname : (self.network.chainId.or t.pinnedChain).getD "" = info.chainId := by
        rcases hguarded.chain.2 with hsome | ⟨hnone, hpinned, -⟩
        · rw [hsome]
          rfl
        · rw [hnone, touches_keep_pinned hafter hpinned]
          rfl
      rw [hname]
      refine Or.inr ⟨genesis, body, hguarded.handed, hguarded.chain.1, hguarded.live.1,
        hguarded.pinned, ?_⟩
      intro trusted hunder
      obtain ⟨rosters, hrosters⟩ := touches_keep_genesis hbefore hunder
      exact hguarded.trusted _ (Or.inl hrosters)
    · exact Or.inl hgiven

end

/-! ## A transfer among other calls -/

/-- Crates for accounts that have no leaf. -/
def emptyAccounts : AccountCrates Unit where
  accountStateKey := fun _ => []
  decodeAccountLeaf := fun _ => none

theorem sign_emits {self : Client} {accounts : AccountCrates AccountLeaf} {s : ClientState}
    {r : Request} (entry : Entry) (h : Emits (entry.run self) s r) :
    r ∈ ((ClientCall.sign entry).done self accounts s).requests :=
  requests_done (emits_first h)

theorem sign_state {self : Client} {accounts : AccountCrates AccountLeaf} {s s' : ClientState}
    (entry : Entry) (h : Gives (entry.run self) s () s') :
    ((ClientCall.sign entry).run self accounts s).state = s' :=
  (bind_gives h ⟨rfl, rfl⟩).2

/-- The steady client is called for one transfer and then for another, and both are handed
    over. -/
theorem steady_run : ∃ first second : Done Unit,
    Calls steadyClient emptyAccounts freshState first (afterTransfer freshState none)
      ∧ Calls steadyClient emptyAccounts (afterTransfer freshState none) second
        (afterTransfer (afterTransfer freshState none) (some 3))
      ∧ first.call = .sign localTransfer ∧ second.call = .sign againTransfer
      ∧ (∃ r ∈ first.requests, r.Submits) ∧ ∃ r ∈ second.requests, r.Submits := by
  obtain ⟨r, ⟨hr, -⟩, hemits⟩ := steady_first.1
  obtain ⟨r', ⟨hr', -⟩, hemits'⟩ := steady_again.1
  have hfirst : Calls steadyClient emptyAccounts freshState _ _ :=
    calls_done (.sign localTransfer) freshState
  rw [sign_state localTransfer (transfer_gives steady_first.2)] at hfirst
  have hsecond : Calls steadyClient emptyAccounts (afterTransfer freshState none) _ _ :=
    calls_done (.sign againTransfer) (afterTransfer freshState none)
  rw [sign_state againTransfer (transfer_gives steady_again.2)] at hsecond
  exact ⟨_, _, hfirst, hsecond, rfl, rfl,
    ⟨r, sign_emits localTransfer (transfer_emits hemits), hr⟩,
    r', sign_emits againTransfer (transfer_emits hemits'), hr'⟩

/-- Two transfers that a client of the local network hands over, one after the other, are
    for the local chain. -/
theorem handed_over_on_one_chain_at_local : ∃ (first second : Done Unit) (t : ClientState),
    Run (Calls steadyClient emptyAccounts) freshState [second, first] t
      ∧ (∃ r ∈ first.requests, r.Submits) ∧ (∃ r ∈ second.requests, r.Submits)
      ∧ ∀ done ∈ [second, first], ∀ r ∈ done.requests, r.Submits →
          ∃ genesis body, SignedFor steadyClient r genesis body
            ∧ body.chainId = steadyCrates.chainIdFromName "Q-local" := by
  obtain ⟨first, second, hfirst, hsecond, hcall, hcall', hhands, hhands'⟩ := steady_run
  have hrun := (Run.single hfirst).cons hsecond
  refine ⟨first, second, _, hrun, hhands, hhands', fun done hmem r hr hsubmits => ?_⟩
  obtain ⟨name, hname, hhanded⟩ := handed_over_on_one_chain hrun
  have hlocal : name = "Q-local" := hname "Q-local" rfl
  rcases hhanded done hmem r hr hsubmits with ⟨txBytes, hgiven, -⟩ | ⟨genesis, body, hsigned,
    hchain, -⟩
  · -- both calls sign
    rcases List.mem_cons.mp hmem with rfl | hmem
    · exact nomatch hcall'.symm.trans hgiven
    · cases List.mem_singleton.mp hmem
      exact nomatch hcall.symm.trans hgiven
  · exact ⟨genesis, body, hsigned, hlocal ▸ hchain⟩

end QCoreClientRun
