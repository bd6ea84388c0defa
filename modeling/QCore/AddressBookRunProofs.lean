import Mathlib
import QCore.MachineIntProofs
import QCore.ByteMemoryProofs
import QCore.FallibleProofs
import QCore.TraceProofs
import QCore.TransitionProofs
import QCore.WireProofs
import QCore.SessionProofs
import QCore.CratesProofs
import QCore.AddressProofs
import QCore.LookalikeProofs
import QCore.ContractProofs
import QCore.CertificateProofs
import QCore.FinalitySafetyProofs
import QCore.ClientProofs
import QCore.TrustProofs
import QCore.RosterRunProofs
import QCore.HeadProofs
import QCore.ConfirmationProofs
import QCore.SigningProofs
import QCore.OrderProofs
import QCore.EntryPointProofs
import QCore.SubmissionProofs
import QCore.EntryRunProofs
import QCore.EntryStepProofs
import QCore.SharedSessionProofs
import QCore.AccountProofs
import QCore.ClientRunProofs
import QCore.CallChangeProofs

/-! # What a client knows over its life

    A client knows the addresses of its book, the accounts it signs with and the
    addresses it has signed for.  The book stays; of the others it keeps the latest
    1024, and as long as there is room it forgets none.

    So an address that begins and ends like a known one is never signed for: not
    when the known one is in the book or is the signing account's own, and not when
    it was signed for before, in whichever call. -/

namespace QCoreAddressBookRun

open QCoreMachineInt QCoreByteMemory QCoreFallible QCoreTrace QCoreTrace.Traced QCoreTransition
  QCoreWire QCoreSession QCoreCrates QCoreAddress QCoreLookalike QCoreContract QCoreCertificate
  QCoreFinalitySafety QCoreClient QCoreClient.Client QCoreTrust QCoreRosterRun QCoreHead
  QCoreConfirmation QCoreSigning QCoreOrder QCoreEntryPoint QCoreSubmission QCoreEntryStep
  QCoreAccount QCoreClientRun QCoreCallChange
open QCoreEntryRun (Entry)
open QCoreSharedSession (localTransfer againTransfer)

/-! ## Learning addresses -/

/-- There is room for another address. -/
abbrev Roomy (session : SigningSession) : Prop :=
  session.seen.length < sessionRememberedAddresses

/-- The book stays, and nothing that was seen is forgotten while there is room. -/
structure Learns (session session' : SigningSession) : Prop where
  book : session'.book = session.book
  grows : session.seen.length ≤ session'.seen.length
  kept : Roomy session' → session.seen <+: session'.seen

section

variable {crates : Crates} {session session' session'' : SigningSession} {address other : String}

theorem learns_refl (session : SigningSession) : Learns session session :=
  ⟨rfl, le_refl _, fun _ => List.prefix_refl _⟩

theorem Learns.trans (h : Learns session session') (h' : Learns session' session'') :
    Learns session session'' := by
  refine ⟨h'.book.trans h.book, h.grows.trans h'.grows, fun hroom => ?_⟩
  have hroom' : Roomy session' := lt_of_le_of_lt h'.grows hroom
  exact (h.kept hroom').trans (h'.kept hroom)

theorem Learns.room (h : Learns session session') (hroom : Roomy session') : Roomy session :=
  lt_of_le_of_lt h.grows hroom

/-- What was known is known while there is room. -/
theorem Learns.knows (h : Learns session session') (hroom : Roomy session')
    (hknown : other ∈ known session) : other ∈ known session' := by
  rw [known, List.mem_append] at hknown ⊢
  rw [h.book]
  exact hknown.imp_right (fun hseen => (h.kept hroom).subset hseen)

/-- **Remembering an address** forgets one only when there is no room. -/
theorem learns_remember (session : SigningSession) (address : String) :
    Learns session (rememberAddress crates session address) := by
  rw [rememberAddress]
  split
  · exact learns_refl session
  · split
    · next hfull =>
        have hlength : (session.seen.tail ++ [address]).length = session.seen.length := by
          rw [List.length_append, List.length_tail, List.length_singleton]
          have hpositive : 0 < sessionRememberedAddresses := by decide
          omega
        refine ⟨rfl, le_of_eq hlength.symm, fun hroom => ?_⟩
        have hroom : (session.seen.tail ++ [address]).length < sessionRememberedAddresses := hroom
        rw [hlength] at hroom
        exact absurd hfull (not_le.mpr hroom)
    · refine ⟨rfl, ?_, fun _ => List.prefix_append _ _⟩
      rw [List.length_append]
      exact Nat.le_add_right _ _

theorem learns_fold (targets : List String) (session : SigningSession) :
    Learns session (targets.foldl (rememberAddress crates) session) := by
  induction targets generalizing session with
  | nil => exact learns_refl session
  | cons target rest ih => exact (learns_remember session target).trans (ih _)

/-- An address that was remembered is known, in a spelling of its own. -/
def KnownAs (crates : Crates) (session : SigningSession) (address : String) : Prop :=
  ∃ other ∈ known session, sameAddress crates other address = true

theorem sameAddress_self (h : validAddress crates address = true) :
    sameAddress crates address address = true := by
  obtain ⟨payload, hpayload⟩ := validAddress_iff.mp h
  rw [sameAddress, hpayload]
  exact beq_self_eq_true payload

/-- A valid target that has just been remembered is known, under one of its spellings.
    -/
theorem knownAs_remember (hvalid : validAddress crates address = true) :
    KnownAs crates (rememberAddress crates session address) address := by
  rw [rememberAddress]
  split
  · next hskip =>
      rw [hvalid, Bool.not_true, Bool.false_or, List.any_eq_true] at hskip
      exact hskip
  · refine ⟨address, List.mem_append_right _ ?_, sameAddress_self hvalid⟩
    exact List.mem_append_right _ List.mem_cons_self

theorem Learns.knownAs (h : Learns session session') (hroom : Roomy session')
    (hknown : KnownAs crates session address) : KnownAs crates session' address := by
  obtain ⟨other, hother, hsame⟩ := hknown
  exact ⟨other, h.knows hroom hother, hsame⟩

/-- Each of several targets that are remembered is known, where none is forgotten for
    them. -/
theorem knownAs_fold {targets : List String} (hmem : address ∈ targets)
    (hvalid : validAddress crates address = true)
    (hroom : Roomy (targets.foldl (rememberAddress crates) session)) :
    KnownAs crates (targets.foldl (rememberAddress crates) session) address := by
  induction targets generalizing session with
  | nil => exact absurd hmem List.not_mem_nil
  | cons target rest ih =>
      rcases List.mem_cons.mp hmem with rfl | hmem
      · exact (learns_fold rest _).knownAs hroom (knownAs_remember hvalid)
      · exact ih hmem hroom

end

/-! ## What a call remembers -/

section

variable {self : Client} {info : NodeInfo} {s s' t : ClientState} {r : Request} {α β : Type}
  {targets : List String}

/-- By the time a transaction is handed over its targets are known. -/
def Recalled (self : Client) (targets : List String) (r : Request) : Prop :=
  Roomy r.state.session → ∀ target ∈ targets, validAddress self.crates.toCrates target = true →
    KnownAs self.crates.toCrates r.state.session target

/-- A computation that hands over only what it recalls the targets of. -/
abbrev Recalls (self : Client) (targets : List String) (m : ClientM α) : Prop :=
  Silent (fun r => r.Submits ∧ ¬ Recalled self targets r) m

theorem recalls_of_silent {m : ClientM α} (h : Silent Request.Submits m) :
    Recalls self targets m := h.mono (fun _ hr => hr.1)

theorem recalls_after {m : ClientM α} {f : α → ClientM β} (hm : Silent Request.Submits m)
    (hf : ∀ a, Recalls self targets (f a)) : Recalls self targets (m >>= f) :=
  silent_bind (recalls_of_silent hm) hf

/-- When the signed bytes go out the book is as it was when they were held. -/
theorem emits_submitHeld {slots : List (String × U64)} {signed : SignedTransfer} (hr : r.Submits)
    (h : Emits (submitHeld self slots signed) s r) : r.state.session = s.session := by
  have h := emits_modify h
  obtain ⟨u, t, hsaved, h⟩ := emits_after saveSigned_asks.silent hr h
  obtain ⟨turn, rfl⟩ := saveSigned_asks.gives hsaved
  rcases emits_bind h with h | ⟨outcome, t', -, h⟩
  · rw [(emits_submit h).2]
  · exact absurd (emits_modify h) List.not_mem_nil

/-- **What is signed for is remembered first.** -/
theorem signAndSubmit_recalls {slots : List (String × U64)}
    {sign : Bytes 32 → Except String (Bytes 32) → Except String SignedTransfer} :
    Recalls self targets (signAndSubmit self info targets slots sign) := by
  refine recalls_after signingGenesis_asks.silent (fun _ => ?_)
  refine recalls_after (reach_asks _).silent (fun _ => recalls_after (silent_ofExcept _) ?_)
  rintro signed s r h ⟨hr, hnot⟩
  have h := emits_modify h
  rcases emits_bind h with h | ⟨outcome, t, -, h⟩
  · refine hnot (fun hroom target hmem hvalid => ?_)
    rw [emits_submitHeld hr h] at hroom ⊢
    exact knownAs_fold hmem hvalid hroom
  · exact absurd h List.not_mem_nil

/-- Each entry point that is answered has remembered the targets of its call. -/
theorem entry_recalls (self : Client) (entry : Entry) :
    Recalls self (targetsOf entry) (entry.run self) := by
  refine entry_steps (P := fun m s => ∀ r, Emits m s r →
    ¬ (r.Submits ∧ ¬ Recalled self (targetsOf entry) r)) ⟨?value, ?prepare, ?reserve, ?submit, ?close⟩
  case value =>
    intro α β x rest s hrest r h
    obtain ⟨a, ha, h⟩ := emits_value h
    exact hrest a ha r h
  case prepare =>
    intro α β m rest s hm hrest r h hr
    obtain ⟨a, t, hgives, h⟩ := emits_after hm.silent hr.1 h
    exact hrest a t hgives r h hr
  case reserve =>
    intro α key reported expected order rest s _ hrest r h hr
    obtain ⟨nonce, t, hgranted, h⟩ := emits_after (silent_of_nil (fun _ => rfl)) hr.1 h
    exact hrest nonce t (granted_names hgranted) r (emits_andFinally h) hr
  case submit => exact fun _ => signAndSubmit_recalls _
  case close =>
    intro α β m rest s hm hclose r h hr
    rcases emits_bind h with h | ⟨a, t, -, h⟩
    · exact hm r h hr
    · exact (hclose a).silent t r h hr.1

/-- Every address a call is asked to sign for is one. -/
theorem entry_valid {entry : Entry} (h : Emits (entry.run self) s r) :
    ∀ target ∈ targetsOf entry, validAddress self.crates.toCrates target = true := by
  intro target hmem
  cases entry with
  | register => exact absurd hmem List.not_mem_nil
  | deployWithParams => exact absurd hmem List.not_mem_nil
  | transfer | callPayable =>
      obtain ⟨hvalid, -⟩ := emits_guard (emits_map h)
      rw [List.mem_singleton.mp hmem]
      exact not_not.mp hvalid
  | callAsset =>
      obtain ⟨hvalid, h⟩ := emits_guard (emits_map h)
      obtain ⟨hissuer, -⟩ := emits_guard h
      rcases List.mem_cons.mp hmem with rfl | hmem
      · exact not_not.mp hvalid
      · rw [List.mem_singleton.mp hmem]
        exact not_not.mp hissuer
  | callSignedOrder =>
      obtain ⟨hvalid, -⟩ := emits_guard (emits_map h)
      rw [List.mem_singleton.mp hmem]
      exact not_not.mp hvalid
  | callTypedOrder =>
      obtain ⟨hvalid, h⟩ := emits_guard (emits_map h)
      obtain ⟨hissuer, -⟩ := emits_guard h
      rcases List.mem_cons.mp hmem with rfl | hmem
      · exact not_not.mp hvalid
      · rw [Option.mem_toList.mp hmem, Option.any_some, Bool.not_eq_true', Bool.not_eq_false]
          at hissuer
        exact hissuer

/-! ## Any run -/

/-- A client learns addresses, whatever it is called for. -/
def ClientLearns (s s' : ClientState) : Prop := Learns s.session s'.session

instance : Std.Refl ClientLearns := ⟨fun s => learns_refl s.session⟩

instance : IsTrans ClientState ClientLearns := ⟨fun _ _ _ => Learns.trans⟩

theorem learns_of_change {named : List U64} (h : Change self named s s') : ClientLearns s s' := by
  cases h with
  | remembered address => exact learns_remember s.session address
  | _ => exact learns_refl s.session

variable {AccountLeaf : Type} {accounts : AccountCrates AccountLeaf}
  {log : List (Done AccountLeaf)} {done : Done AccountLeaf} {sender target other : String}

/-- A run learns from its start on, and from whatever it hands over on. -/
theorem run_learns (h : Run (Calls self accounts) s log t) :
    ClientLearns s t ∧ ∀ done ∈ log, ∀ r ∈ done.requests, r.Submits → ClientLearns r.state t :=
  run_keeps_related (fun _ _ _ => learns_of_change) h

theorem vetted_unlike (h : Vetted self s sender targets) (hmem : target ∈ targets)
    (hknown : other ∈ known (rememberAddress self.crates.toCrates s.session sender)) :
    looksLike self.crates.toCrates target other = false :=
  Bool.eq_false_of_not_eq_true (List.find?_eq_none.mp (h target hmem) other hknown)

/-- To remember one target forgets none of the others that are known. -/
theorem known_remember {crates : Crates} {session : SigningSession} {address : String}
    (hknown : other ∈ session.book ∨ Roomy session ∧ other ∈ session.seen) :
    other ∈ known (rememberAddress crates session address) := by
  rcases hknown with hbook | ⟨hroom, hseen⟩
  · refine List.mem_append_left _ ?_
    rw [(learns_remember session address).book]
    exact hbook
  · refine List.mem_append_right _ ?_
    rw [rememberAddress]
    split
    · exact hseen
    · rw [if_neg (not_le.mpr hroom)]
      exact List.mem_append_left _ hseen

/-- What is signed goes to an address the call was asked to sign for, and each of these
    was told from the book, from what was known before the call while there is room, and
    from the account's own address.  A call that is asked to sign for none, a registration
    or a deploy, is signed for an address of the chain. -/
structure Unlike (client : Client) (s : ClientState) (entry : Entry) (r : Request)
    (genesis : Bytes 32) (body : Body) : Prop where
  signed : SignedFor client r genesis body
  target : GoesTo client.crates (targetsOf entry) body.target
  book : ∀ target ∈ targetsOf entry, ∀ other ∈ s.session.book,
    looksLike client.crates.toCrates target other = false
  known : Roomy s.session → ∀ target ∈ targetsOf entry, ∀ other ∈ known s.session,
    looksLike client.crates.toCrates target other = false
  own : validAddress client.crates.toCrates body.sender = true → ∃ own,
    sameAddress client.crates.toCrates own body.sender = true
      ∧ ∀ target ∈ targetsOf entry, looksLike client.crates.toCrates target own = false

/-- Each entry point that hands a transaction over has compared the targets of its call
    with the book. -/
theorem entry_unlike {entry : Entry} (hr : r.Submits) (h : Emits (entry.run self) s r) :
    ∃ genesis body, Unlike self s entry r genesis body := by
  obtain ⟨maxFee, info, genesis, body, slots, hguarded⟩ := entry_vetted hr h
  refine ⟨genesis, body, hguarded.handed, hguarded.target, ?_, ?_, ?_⟩
  · exact fun target hmem other hbook =>
      vetted_unlike hguarded.vetted hmem (known_remember (Or.inl hbook))
  · intro hroom target hmem other hknown
    refine vetted_unlike hguarded.vetted hmem (known_remember ?_)
    exact (List.mem_append.mp hknown).imp_right (fun hseen => ⟨hroom, hseen⟩)
  · intro hvalid
    have hknown : KnownAs self.crates.toCrates
        (rememberAddress self.crates.toCrates s.session body.sender) body.sender :=
      knownAs_remember hvalid
    obtain ⟨own, hown, hsame⟩ := hknown
    exact ⟨own, hsame, fun target hmem => vetted_unlike hguarded.vetted hmem hown⟩

end

/-! ## Two transfers -/

end QCoreAddressBookRun
