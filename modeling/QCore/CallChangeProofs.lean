import Mathlib
import QCore.MachineIntProofs
import QCore.ByteMemoryProofs
import QCore.FallibleProofs
import QCore.TraceProofs
import QCore.TransitionProofs
import QCore.WireProofs
import QCore.SessionProofs
import QCore.SessionSpentProofs
import QCore.CratesProofs
import QCore.AddressProofs
import QCore.ContractProofs
import QCore.CertificateProofs
import QCore.FinalityProofs
import QCore.FinalitySafetyProofs
import QCore.RosterProofs
import QCore.ClientProofs
import QCore.TrustProofs
import QCore.RosterRunProofs
import QCore.HeadProofs
import QCore.ConfirmationProofs
import QCore.SigningProofs
import QCore.OrderProofs
import QCore.EntryPointProofs
import QCore.SubmissionProofs
import QCore.EntryRunProofs
import QCore.EntryStepProofs
import QCore.SharedSessionProofs
import QCore.AccountProofs
import QCore.ClientRunProofs

/-! # What a call may change

    Whatever a client is called for, and wherever the call stops, the client goes from
    one state to the next by one of nine changes (`Change`): a turn, an address that is
    remembered, a chain that is pinned, rosters that are followed, and five calls of
    the shared session.  A nonce is asked for by name only when the caller named it.

    What each of the nine keeps, every call keeps, and every run of calls. -/

namespace QCoreCallChange

open QCoreMachineInt QCoreByteMemory QCoreFallible QCoreTrace QCoreTrace.Traced QCoreTransition
  QCoreWire QCoreSession QCoreSession.SigningSession QCoreCrates QCoreAddress QCoreContract
  QCoreCertificate QCoreFinality QCoreFinalitySafety QCoreRoster QCoreClient QCoreClient.Client
  QCoreTrust QCoreRosterRun QCoreHead QCoreConfirmation QCoreSigning QCoreOrder QCoreEntryPoint
  QCoreSubmission QCoreEntryStep QCoreAccount QCoreClientRun
open QCoreEntryRun (Entry submit_later)

/-! ## One change -/

/-- What a call may do to its client at once, if only these nonces are named. -/
inductive Change (self : Client) (named : List U64) (s : ClientState) : ClientState → Prop
  | turned (turn : Nat) : Change self named s { s with turn := turn }
  | remembered (address : String) :
      Change self named s
        { s with session := rememberAddress self.crates.toCrates s.session address }
  | pinned (name : String) (none : s.pinnedChain = none) :
      Change self named s { s with pinnedChain := some name }
  | followed (rosters : Option TrustedRosters) :
      Change self named s { s with trustedRoster := rosters }
  | noted (chain : String) (height wall : U64) :
      Change self named s { s with shared := s.shared.noteHead chain height wall }
  | slot (key : String) (reported : U64) (expected : Option U64) (order : Bool)
      (names : ∀ nonce, expected = some nonce → nonce ∈ named) :
      Change self named s { s with shared := (s.shared.slot key reported expected order).2 }
  | signed (key : String) (nonce : U64) :
      Change self named s { s with shared := s.shared.signed key nonce }
  | outcome (key : String) (nonce : U64) (accepted : Bool) :
      Change self named s { s with shared := s.shared.outcome key nonce accepted }
  | released (key : String) (nonce : U64) :
      Change self named s { s with shared := s.shared.release key nonce }

/-- Any number of them. -/
abbrev Changes (self : Client) (named : List U64) : ClientState → ClientState → Prop :=
  Relation.ReflTransGen (Change self named)

/-- A computation that only changes its client so, and hands nothing over. -/
abbrev Visits {α : Type} (self : Client) (named : List U64) (m : ClientM α) : Prop :=
  Within (Changes self named) Request.Submits m

/-- A computation that only changes its client so, also after what it hands over. -/
abbrev Alters {α : Type} (self : Client) (named : List U64) (m : ClientM α) (s : ClientState) :
    Prop :=
  Passes (Changes self named) Request.Submits Request.state m s

section

variable {self : Client} {named : List U64} {info : NodeInfo} {s s' : ClientState} {α β : Type}
  {m : ClientM α}

theorem changes_of_later (h : Later s s') : Changes self named s s' := by
  obtain ⟨turn, rfl⟩ := h
  exact Relation.ReflTransGen.single (Change.turned turn)

theorem visits_of_asks (h : Asks m) : Visits self named m := h.mono (fun _ _ => changes_of_later)

theorem changes_of_followed (h : Followed s s') : Changes self named s s' := by
  obtain ⟨turn, trusted, rfl⟩ := h
  exact (Relation.ReflTransGen.single (Change.turned turn)).tail (Change.followed trusted)

theorem visits_of_follows (h : Follows m) : Visits self named m :=
  h.mono (fun _ _ => changes_of_followed)

/-- To look is to take turns and to follow rosters. -/
theorem changes_of_looks {asked : Request → Prop} (h : Looks self asked s s') :
    Changes self named s s' := by
  induction h with
  | refl => exact Relation.ReflTransGen.refl
  | tail _ hlook ih => exact ih.trans (changes_of_followed hlook.followed)

theorem visits_of_reads (h : Reads self m) : Visits self named m :=
  ⟨fun s => changes_of_looks (h.looks s (fun _ => True) (fun _ _ => trivial)).ends, h.silent⟩

theorem visits_modify {g : ClientState → ClientState} (h : ∀ s, Changes self named s (g s)) :
    Visits self named (modify g) := within_modify h

theorem alters_modify {g : ClientState → ClientState} (h : ∀ s, Changes self named s (g s)) :
    Alters self named (modify g) s := (visits_modify h).passes

/-- To remember targets is a change that a call may make. -/
theorem visits_remember (targets : List String) :
    Visits self named (rememberTargets self targets) := by
  refine visits_modify (fun s => ?_)
  induction targets generalizing s with
  | nil => exact Relation.ReflTransGen.refl
  | cons target rest ih => exact (ih _).head (Change.remembered target)

/-- One call of the shared session for each nonce of a transaction. -/
theorem changes_fold {change : SigningSession → String × U64 → SigningSession}
    (h : ∀ s slot, Change self named s { s with shared := change s.shared slot })
    (slots : List (String × U64)) :
    ∀ s, Changes self named s { s with shared := slots.foldl change s.shared } := by
  induction slots with
  | nil => exact fun _ => Relation.ReflTransGen.refl
  | cons slot rest ih => exact fun s => (ih _).head (h s slot)

/-! ## From the nonces on -/

/-- A plain submit changes no more than a call may. -/
theorem submit_alters {txBytes : List UInt8} : Alters self named (self.submit txBytes) s := by
  have hlater : Moves Later (self.submit txBytes) := submit_later
  have hend : Changes self named s (self.submit txBytes s).state := changes_of_later (hlater s)
  refine ⟨hend, fun r _ he => ?_⟩
  rw [(emits_submit he).2]
  exact hend

/-- The signing step changes no more of the session than a signing may. -/
theorem signAndSubmit_alters {targets : List String} {slots : List (String × U64)}
    {sign : Bytes 32 → Except String (Bytes 32) → Except String SignedTransfer} :
    Alters self named (signAndSubmit self info targets slots sign) s := by
  have hsigned : ∀ s : ClientState,
      Changes self named s { s with shared := s.shared.signedAll slots } :=
    changes_fold (fun _ slot => Change.signed slot.1 slot.2) slots
  have houtcome : ∀ (accepted : Bool) (s : ClientState),
      Changes self named s { s with shared := s.shared.outcomeAll slots accepted } :=
    fun accepted => changes_fold (fun _ slot => Change.outcome slot.1 slot.2 accepted) slots
  have hheld : ∀ {signed t}, Alters self named (submitHeld self slots signed) t := by
    intro signed t
    refine passes_bind (alters_modify hsigned) (fun _ _ _ => ?_)
    refine passes_bind (visits_of_asks saveSigned_asks).passes (fun _ _ _ => ?_)
    refine passes_bind submit_alters (fun outcome _ _ => ?_)
    exact passes_bind (alters_modify (houtcome _)) (fun _ _ _ => (within_pure _).passes)
  refine passes_bind (visits_of_asks signingGenesis_asks).passes (fun _ _ _ => ?_)
  refine passes_bind (visits_of_asks (reach_asks _)).passes (fun _ _ _ => ?_)
  refine passes_value (fun _ _ => ?_)
  refine passes_bind (visits_remember targets).passes (fun _ _ _ => ?_)
  exact passes_bind hheld (fun _ _ _ => (within_pure _).passes)

/-! ## Before the nonces -/

/-- To bind the session to a chain is a change that a call may make. -/
theorem pinChain_visits {name : String} : Visits self named (pinChain name) := by
  refine ⟨fun s => ?_, silent_bind (silent_of_nil (fun _ => rfl)) (fun s => ?_)⟩
  · cases hpinned : s.pinnedChain with
    | none =>
        have hrun : pinChain name s = ⟨.ok (), { s with pinnedChain := some name }, []⟩ := by
          rw [pinChain, read_bind]
          simp only [hpinned]
          rfl
        rw [hrun]
        exact Relation.ReflTransGen.single (Change.pinned name hpinned)
    | some first =>
        have hstate : (pinChain name s).state = s := by
          rw [pinChain, read_bind]
          simp only [hpinned]
          rfl
        rw [hstate]
  · split <;> exact silent_of_nil (fun _ => rfl)

/-- The check of the chain changes at most the binding. -/
theorem signingChainId_visits : Visits self named (signingChainId self info) := by
  have hhold : Visits self named (holdChain self info) := by
    rw [holdChain]
    split
    · exact within_ofExcept _
    · exact within_bind (within_ofExcept _) (fun _ => pinChain_visits)
  refine within_bind (within_ofExcept _) (fun _ => within_bind (within_ofExcept _) (fun _ => ?_))
  exact within_bind hhold (fun _ => within_bind (within_ofExcept _) (fun _ => within_pure _))

/-- The opening of a call changes no more than a call may. -/
theorem opening_visits {sender : String} {targets : List String}
    {feeOf : NodeInfo → Except String U128} :
    Visits self named (opening self sender targets feeOf) := by
  have hvet : Visits self named (vetTarget self sender targets) := by
    refine within_bind (visits_modify (fun s => ?_)) (fun _ =>
      within_bind within_read (fun _ => within_ofExcept _))
    exact Relation.ReflTransGen.single (Change.remembered sender)
  refine within_bind hvet (fun _ => within_bind (visits_of_asks nodeInfo_asks) (fun _ => ?_))
  refine within_bind (within_ofExcept _) (fun _ => within_bind (within_ofExcept _) (fun _ => ?_))
  exact within_bind signingChainId_visits (fun _ => within_pure _)

/-- The deadline of a call is found with changes that a call may make. -/
theorem validity_visits : Visits self named (validity self info) := by
  refine within_bind (visits_of_asks signingGenesis_asks) (fun _ => ?_)
  refine within_bind (visits_of_follows (verifyHead_follows info)) (fun _ => ?_)
  refine within_bind (within_ofExcept _) (fun _ => within_bind (within_ofExcept _) (fun _ => ?_))
  refine within_bind (visits_of_asks (reach_asks _)) (fun wall => within_bind within_read ?_)
  intro s
  refine within_bind (within_ofExcept _) (fun _ => within_bind ?_ (fun _ => within_pure _))
  exact visits_modify (fun s => Relation.ReflTransGen.single
    (Change.noted info.chainId info.headHeight wall))

/-! ## The entry points -/

/-- Each step of an entry point before it signs changes no more than a call may. -/
theorem preparing_visits {entry : Entry} (h : Preparing self entry m) : Visits self named m := by
  cases h with
  | clock => exact visits_of_asks orderClock_asks
  | opening => exact opening_visits
  | genesis => exact visits_of_asks signingGenesis_asks
  | validity => exact validity_visits
  | account => exact visits_of_asks (account_asks _)
  | orderNonce => exact visits_of_asks (contractNonce_asks _ _)
  | draw => exact visits_of_asks (reach_asks _)

theorem closing_visits (h : Closing self m) : Visits self named m := by
  cases h with
  | done => exact within_pure _
  | remember targets => exact within_bind (visits_remember targets) (fun _ => within_pure _)

/-- **A signing call makes these changes only**, and asks by name only for the nonces it
    was given. -/
theorem entry_alters (self : Client) (entry : Entry) (s : ClientState) :
    Alters self entry.named (entry.run self) s := by
  refine entry_steps (P := fun m s => Alters self entry.named m s)
    ⟨?value, ?prepare, ?reserve, ?submit, ?close⟩ s
  case value => exact passes_value
  case prepare => exact fun hm hrest => passes_bind (preparing_visits hm).passes hrest
  case reserve =>
    intro α key reported expected order rest s hnames hrest
    refine passes_bind (within_step (fun _ => ?_)).passes (fun nonce t hgranted => ?_)
    · exact Relation.ReflTransGen.single (Change.slot key reported expected order hnames)
    · exact passes_finally (hrest nonce t (granted_names hgranted))
        (fun _ => Relation.ReflTransGen.single (Change.released key nonce))
  case submit => exact fun _ => signAndSubmit_alters
  case close =>
    exact fun hm hclose => passes_bind hm (fun a _ _ => (closing_visits (hclose a)).passes)

variable {AccountLeaf : Type} {accounts : AccountCrates AccountLeaf}

/-! ## Any call, any run -/

/-- The nonces that a call is given by name. -/
def namedBy : ClientCall → List U64
  | .sign entry => entry.named
  | _ => []

/-- **A call changes no more** than a call may, by the nonces that it names. -/
theorem call_alters (call : ClientCall) (s : ClientState) :
    Alters self (namedBy call) (call.run self accounts) s := by
  cases call with
  | sign entry =>
      exact passes_bind (entry_alters self entry s) (fun _ _ _ => (within_pure _).passes)
  | submit txBytes => exact passes_bind submit_alters (fun _ _ _ => (within_pure _).passes)
  | _ => exact (visits_of_reads (call_reads rfl)).passes

/-- **What every change keeps, a run of calls keeps**, from its start to its end and
    from whatever it hands over on. -/
theorem run_keeps_related {R : ClientState → ClientState → Prop} [Std.Refl R]
    [IsTrans ClientState R] {log : List (Done AccountLeaf)} {s t : ClientState}
    (hkeep : ∀ named s s', Change self named s s' → R s s')
    (h : Run (Calls self accounts) s log t) :
    R s t ∧ ∀ done ∈ log, ∀ r ∈ done.requests, r.Submits → R r.state t := by
  have hchanges : ∀ {named : List U64} {s s' : ClientState}, Changes self named s s' → R s s' := by
    intro named s s' hs
    induction hs with
    | refl => exact Std.Refl.refl s
    | tail _ hlast ih => exact IsTrans.trans _ _ _ ih (hkeep _ _ _ hlast)
  induction h with
  | nil => exact ⟨Std.Refl.refl s, fun _ hmem => absurd hmem List.not_mem_nil⟩
  | @cons es e u v _ hcall ih =>
      have halters : Alters self (namedBy e.call) (e.call.run self accounts) u :=
        call_alters e.call u
      obtain ⟨hends, hpast⟩ := halters
      rw [hcall] at hends hpast
      refine ⟨IsTrans.trans _ _ _ ih.1 (hchanges hends), ?_⟩
      intro done hmem r hr hsubmits
      rcases List.mem_cons.mp hmem with rfl | hmem
      · exact hchanges (hpast r hsubmits (by rw [Emits, hcall]; exact hr))
      · exact IsTrans.trans _ _ _ (ih.2 done hmem r hr hsubmits) (hchanges hends)

end

end QCoreCallChange
