import Mathlib
import QCore.MachineIntProofs
import QCore.ByteMemoryProofs
import QCore.FallibleProofs
import QCore.TraceProofs
import QCore.TransitionProofs
import QCore.SimulationProofs
import QCore.WireProofs
import QCore.SessionProofs
import QCore.SessionStateProofs
import QCore.SessionSpentProofs
import QCore.SigningRunProofs
import QCore.CratesProofs
import QCore.ContractProofs
import QCore.ClientProofs
import QCore.TrustProofs
import QCore.HeadProofs
import QCore.ConfirmationProofs
import QCore.SigningProofs
import QCore.OrderProofs
import QCore.EntryPointProofs
import QCore.SubmissionProofs

/-! # Entry points are signings

    The clients of a process share one session, and every call of an entry point
    works on it: it notes the head, takes the nonces it needs, marks them signed,
    hands the transaction over, notes the outcome and drops what it reserved.
    The system of signings says what may be done to a shared session and when.
    Here each entry point is matched by a run of that system, whatever the gateway
    answers and wherever the call stops, so what was proved of the system holds of
    the code.

    `Frame` is what a part of a call keeps of the signings around it, and
    `matched_reserving` is the step that starts one and ends it. -/

namespace QCoreEntryRun

open QCoreMachineInt QCoreByteMemory QCoreFallible QCoreTrace QCoreTrace.Traced QCoreTransition
  QCoreSimulation QCoreWire QCoreSession QCoreSession.SigningSession QCoreSigningRun QCoreCrates
  QCoreContract QCoreClient QCoreClient.Client QCoreTrust QCoreHead QCoreConfirmation QCoreSigning
  QCoreOrder QCoreEntryPoint QCoreSubmission

/-! ## What an entry point does to the session -/

instance : DecidablePred Request.Submits := fun r =>
  inferInstanceAs (Decidable (r.method = "submit_transaction"))

/-- A run of signings signs at a nonce of a key. -/
def SignsAt (run : List Event) (key : String) (nonce : U64) : Prop :=
  ∃ i, .signed i key nonce ∈ run

/-- A run of signings was granted a nonce of a key by its name. -/
def NamesAt (run : List Event) (key : String) (nonce : U64) : Prop :=
  ∃ i reported order granted, .slot i key reported (some nonce) order granted ∈ run

/-- A part of a run in which no nonce is asked for. -/
def AsksNone (run : List Event) : Prop :=
  ∀ i key reported expected order granted, .slot i key reported expected order granted ∉ run

/-- A part of a run in which nothing signs. -/
def SignsNone (run : List Event) : Prop := ∀ i key nonce, .signed i key nonce ∉ run

/-- A request hands over a transaction that an account signed at the nonce it
    carries, and where it carries an order, the order is the owner's and was
    signed for at the nonce it carries too. -/
def Hands (crates : TxCrates) (order : Option (String × Bytes 32)) (r : Request)
    (run : List Event) : Prop :=
  ∃ seed index chain body genesis rnd wrapper, body.sender = crates.accountAddress seed index
    ∧ crates.trySignHedged seed index body genesis rnd = some wrapper
    ∧ r.body = submitBody wrapper.bytes ∧ body.chainId = crates.chainIdFromName chain
    ∧ SignsAt run (accountSlotKey chain body.sender) body.nonce
    ∧ ∀ contract signer, order = some (contract, signer) →
        ∃ key, ∃ call : SignedOrderCall, orderSlotKey crates chain contract signer = .ok key
          ∧ body.args = call.callArgs ∧ call.signer = signer ∧ SignsAt run key call.nonce

/-- The code over the system of signings. -/
def signings (crates : TxCrates) (order : Option (String × Bytes 32)) :
    Level ClientState Request Signings Event where
  step := Step
  stands s g := g.session = s.shared
  accounts r run := r.Submits → Hands crates order r run
  mono := by
    intro r es es' h hsub hr
    obtain ⟨seed, index, chain, body, genesis, rnd, wrapper, hsender, hsigned, hbody, hchain,
      ⟨i, hi⟩, horder⟩ := h hr
    refine ⟨seed, index, chain, body, genesis, rnd, wrapper, hsender, hsigned, hbody, hchain,
      ⟨i, hsub hi⟩, ?_⟩
    intro contract signer hcarries
    obtain ⟨key, call, hkey, hargs, hsigner, j, hj⟩ := horder contract signer hcarries
    exact ⟨key, call, hkey, hargs, hsigner, j, hsub hj⟩

/-! ## What a part of a call keeps -/

/-- Signings by name, with the nonce each was granted. -/
abbrev Own := List (Nat × String × U64)

/-- The signings are at a phase. -/
def At (phase : Phase) (own : Own) (g : Signings) : Prop :=
  ∀ x ∈ own, g.signing x.1 = some ⟨x.2.1, x.2.2, phase⟩

/-- What a part of a call keeps: its own signings have not ended, every other is
    as it was or was started and ended, only nonces the caller named are asked for
    by name, and none is asked for once it signs. -/
structure Frame (own : Own) (named : List U64) (g : Signings) (es : List Event) (g' : Signings) :
    Prop where
  kept : ∀ x ∈ own, ∃ phase, phase ≠ .ended ∧ g'.signing x.1 = some ⟨x.2.1, x.2.2, phase⟩
  others : ∀ j, j ∉ own.map (·.1) → g'.signing j = g.signing j
    ∨ g.signing j = none ∧ ∃ key nonce, g'.signing j = some ⟨key, nonce, .ended⟩
  named : ∀ key nonce, NamesAt es key nonce → nonce ∈ named
  parts : ∃ late early, es = late ++ early ∧ AsksNone late ∧ SignsNone early

section

variable {own : Own} {named : List U64} {g g' g'' : Signings} {es es' : List Event}

/-- What two parts of a run name, one of them names. -/
theorem namesAt_append {key : String} {nonce : U64} (h : NamesAt (es' ++ es) key nonce) :
    NamesAt es' key nonce ∨ NamesAt es key nonce := by
  obtain ⟨i, reported, order, granted, hmem⟩ := h
  rcases List.mem_append.mp hmem with hmem | hmem
  · exact Or.inl ⟨i, reported, order, granted, hmem⟩
  · exact Or.inr ⟨i, reported, order, granted, hmem⟩

theorem AsksNone.append (h' : AsksNone es') (h : AsksNone es) : AsksNone (es' ++ es) :=
  fun _ _ _ _ _ _ hmem => (List.mem_append.mp hmem).elim (h' _ _ _ _ _ _) (h _ _ _ _ _ _)

theorem SignsNone.append (h' : SignsNone es') (h : SignsNone es) : SignsNone (es' ++ es) :=
  fun _ _ _ hmem => (List.mem_append.mp hmem).elim (h' _ _ _) (h _ _ _)

theorem asksNone_nil : AsksNone [] := fun _ _ _ _ _ _ => List.not_mem_nil

theorem signsNone_nil : SignsNone [] := fun _ _ _ => List.not_mem_nil

theorem AsksNone.names (h : AsksNone es) (key : String) (nonce : U64) : ¬ NamesAt es key nonce := by
  rintro ⟨i, reported, order, granted, hmem⟩
  exact h _ _ _ _ _ _ hmem

/-- Parts follow one another where the later one asks for no nonce or the earlier
    one signs nothing. -/
theorem Frame.trans (h : Frame own named g es g') (h' : Frame own named g' es' g'')
    (horder : AsksNone es' ∨ SignsNone es) : Frame own named g (es' ++ es) g'' := by
  refine ⟨h'.kept, ?_, ?_, ?_⟩
  · intro j hj
    rcases h'.others j hj with hsame | ⟨hnone, hended⟩
    · rw [hsame]
      exact h.others j hj
    · rcases h.others j hj with hsame | ⟨-, key, nonce, hsome⟩
      · exact Or.inr ⟨hsame ▸ hnone, hended⟩
      · exact nomatch hnone.symm.trans hsome
  · intro key nonce hnames
    exact (namesAt_append hnames).elim (h'.named key nonce) (h.named key nonce)
  · rcases horder with hnone | hnone
    · obtain ⟨late, early, rfl, hlate, hearly⟩ := h.parts
      exact ⟨es' ++ late, early, (List.append_assoc _ _ _).symm, hnone.append hlate, hearly⟩
    · obtain ⟨late, early, rfl, hlate, hearly⟩ := h'.parts
      exact ⟨late, early ++ es, List.append_assoc _ _ _, hlate, hearly.append hnone⟩

/-- Signings that are granted have not ended. -/
theorem kept_of_at (h : At .granted own g) :
    ∀ x ∈ own, ∃ phase, phase ≠ .ended ∧ g.signing x.1 = some ⟨x.2.1, x.2.2, phase⟩ :=
  fun x hx => ⟨.granted, nofun, h x hx⟩

theorem run_roomy (h : Run Step g es g') (hroomy : Roomy g) : Roomy g' :=
  Run.invariant h hroomy (fun hI hs => roomy_step hI hs)

end

/-! ## Heads that are noted -/

/-- The session is what it was, but for heads that were noted. -/
def Notes (s s' : ClientState) : Prop :=
  ∃ heads : List (String × U64 × U64),
    s'.shared = heads.foldl (fun session head => session.noteHead head.1 head.2.1 head.2.2) s.shared

instance : Std.Refl Notes := ⟨fun _ => ⟨[], rfl⟩⟩

instance : IsTrans ClientState Notes := ⟨by
  rintro s t u ⟨heads, hheads⟩ ⟨heads', hheads'⟩
  exact ⟨heads ++ heads', by rw [hheads', hheads, List.foldl_append]⟩⟩

theorem notes_of_shared {s s' : ClientState} (h : s'.shared = s.shared) : Notes s s' := ⟨[], h⟩

/-- A computation that hands nothing over and does nothing else to the session. -/
abbrev Prepares {α : Type} (m : ClientM α) : Prop := Within Notes Request.Submits m

theorem prepares_of_asks {α : Type} {m : ClientM α} (h : Asks m) : Prepares m := by
  refine h.mono ?_
  rintro s s' ⟨turn, rfl⟩
  exact notes_of_shared rfl

theorem prepares_of_follows {α : Type} {m : ClientM α} (h : Follows m) : Prepares m := by
  refine h.mono ?_
  rintro s s' ⟨turn, trusted, rfl⟩
  exact notes_of_shared rfl

section

variable {self : Client} {info : NodeInfo}

/-- To hold a chain is a step before any nonce. -/
theorem holdChain_prepares : Prepares (holdChain self info) := by
  rw [holdChain]
  split
  · exact within_ofExcept _
  · refine within_bind (within_ofExcept _) (fun _ => within_bind within_read ?_)
    intro s
    split
    · exact within_ofExcept _
    · exact within_modify (fun s => notes_of_shared rfl)

theorem signingChainId_prepares : Prepares (signingChainId self info) := by
  refine within_bind (within_ofExcept _) (fun _ => within_bind (within_ofExcept _) (fun _ => ?_))
  refine within_bind holdChain_prepares (fun _ => within_bind (within_ofExcept _) (fun _ => ?_))
  exact within_pure _

/-- To open a call is a step before any nonce. -/
theorem opening_prepares {sender : String} {targets : List String}
    {feeOf : NodeInfo → Except String U128} : Prepares (opening self sender targets feeOf) := by
  have hvet : Prepares (vetTarget self sender targets) :=
    within_bind (within_modify (fun s => notes_of_shared rfl)) (fun _ =>
      within_bind within_read (fun _ => within_ofExcept _))
  refine within_bind hvet (fun _ => within_bind (prepares_of_asks nodeInfo_asks) (fun _ => ?_))
  refine within_bind (within_ofExcept _) (fun _ => within_bind (within_ofExcept _) (fun _ => ?_))
  exact within_bind signingChainId_prepares (fun _ => within_pure _)

/-- So is to find a deadline. -/
theorem validity_prepares : Prepares (validity self info) := by
  refine within_bind (prepares_of_asks signingGenesis_asks) (fun _ => ?_)
  refine within_bind (prepares_of_follows (verifyHead_follows info)) (fun _ => ?_)
  refine within_bind (within_ofExcept _) (fun _ => within_bind (within_ofExcept _) (fun _ => ?_))
  refine within_bind (prepares_of_asks (reach_asks _)) (fun wall => within_bind within_read ?_)
  intro s
  refine within_bind (within_ofExcept _) (fun _ => within_bind ?_ (fun _ => within_pure _))
  exact within_modify (fun s => ⟨[(info.chainId, info.headHeight, wall)], rfl⟩)

theorem orderClock_prepares : Prepares (orderClock self) := prepares_of_asks orderClock_asks

end

section

variable {crates : TxCrates} {order : Option (String × Bytes 32)} {own : Own} {named : List U64}
  {past : List Event} {α β : Type} {m : ClientM α} {f : α → ClientM β} {s : ClientState}
  {g : Signings}

/-- Heads that are noted, one after the other. -/
theorem run_noted (heads : List (String × U64 × U64)) : ∀ g : Signings, ∃ es,
    Run Step g es ⟨heads.foldl (fun session head => session.noteHead head.1 head.2.1 head.2.2)
      g.session, g.signing⟩ ∧ AsksNone es ∧ SignsNone es := by
  induction heads with
  | nil => exact fun g => ⟨[], Run.nil, asksNone_nil, signsNone_nil⟩
  | cons head rest ih =>
      intro g
      obtain ⟨es, hrun, hasks, hsigns⟩ :=
        ih ⟨g.session.noteHead head.1 head.2.1 head.2.2, g.signing⟩
      refine ⟨es ++ [.noteHead head.1 head.2.1 head.2.2], (Run.single Step.noteHead).append hrun,
        hasks.append ?_, hsigns.append ?_⟩
      · intro i key reported expected order granted hmem
        cases List.mem_singleton.mp hmem
      · intro i key nonce hmem
        cases List.mem_singleton.mp hmem

/-- A part of a call that leaves the signings as they are. -/
def Same (g : Signings) (es : List Event) (g' : Signings) : Prop :=
  g'.signing = g.signing ∧ AsksNone es ∧ SignsNone es

theorem same_nil (g : Signings) : Same g [] g := ⟨rfl, asksNone_nil, signsNone_nil⟩

/-- A computation that prepares leaves the signings as they are. -/
theorem matched_prepares (hm : Prepares m) (hstands : g.session = s.shared) :
    Matched (signings crates order) past m s g (Same g) := by
  obtain ⟨heads, hheads⟩ := hm.moves s
  obtain ⟨es, hrun, hasks, hsigns⟩ := run_noted heads g
  refine ⟨es, _, hrun, ?_, ⟨rfl, hasks, hsigns⟩, ?_⟩
  · show heads.foldl _ g.session = (m s).state.shared
    rw [hstands, hheads]
  · intro r he hr
    exact absurd hr (hm.silent s r he)

/-- What a computation that prepares keeps of its signings. -/
theorem frame_of_same {es : List Event} {g' : Signings}
    (hkept : ∀ x ∈ own, ∃ phase, phase ≠ .ended ∧ g.signing x.1 = some ⟨x.2.1, x.2.2, phase⟩)
    (h : Same g es g') : Frame own named g es g' := by
  obtain ⟨hsame, hasks, hsigns⟩ := h
  exact ⟨hsame ▸ hkept, fun j _ => Or.inl (by rw [hsame]),
    fun key nonce h => absurd h (hasks.names key nonce), es, [], (List.append_nil _).symm, hasks,
    signsNone_nil⟩

/-- What comes after a preparation starts from the same signings. -/
theorem matched_after (hm : Prepares m) (hstands : g.session = s.shared) (hown : At .granted own g)
    (hroomy : Roomy g)
    (hthen : ∀ a t es g', Gives m s a t → g'.session = t.shared → At .granted own g' → Roomy g' →
      Matched (signings crates order) (es ++ past) (f a) t g' (Frame own named g')) :
    Matched (signings crates order) past (m >>= f) s g (Frame own named g) := by
  refine matched_bind (Same g) (matched_prepares hm hstands)
    (fun _ es g' _ hsame => frame_of_same (kept_of_at hown) hsame) ?_
  intro a t es g' hgives hrun hstands' hsame
  have hown' : At .granted own g' := fun x hx => by rw [hsame.1]; exact hown x hx
  refine (hthen a t es g' hgives hstands' hown' (run_roomy hrun hroomy)).weaken ?_
  intro es' g'' hframe
  exact (frame_of_same (kept_of_at hown) hsame).trans hframe (Or.inr hsame.2.2)

/-- What comes before a preparation is kept. -/
theorem matched_before (hm : Matched (signings crates order) past m s g (Frame own named g))
    (hf : ∀ a, Prepares (f a)) :
    Matched (signings crates order) past (m >>= f) s g (Frame own named g) := by
  refine matched_bind (Frame own named g) hm (fun _ es g' _ h => h) ?_
  intro a t es g' _ _ hstands hframe
  refine (matched_prepares (hf a) hstands).weaken ?_
  intro es' g'' hsame
  exact hframe.trans (frame_of_same hframe.kept hsame) (Or.inl hsame.2.1)

end

/-! ## Handing over -/

/-- Every signing of a list moves on by one phase, one after the other. -/
theorem run_moved (before after : Phase) (change : SigningSession → String × U64 → SigningSession)
    (event : Nat × String × U64 → Event)
    (hstep : ∀ (g : Signings) (x : Nat × String × U64),
      g.signing x.1 = some ⟨x.2.1, x.2.2, before⟩ → Step g (event x)
        ⟨change g.session x.2, Function.update g.signing x.1 (some ⟨x.2.1, x.2.2, after⟩)⟩)
    (own : Own) (hdistinct : (own.map (·.1)).Nodup) : ∀ g : Signings, At before own g →
      ∃ g', Run Step g (own.map event).reverse g'
        ∧ g'.session = (own.map (·.2)).foldl change g.session ∧ At after own g'
        ∧ ∀ j, j ∉ own.map (·.1) → g'.signing j = g.signing j := by
  induction own with
  | nil => exact fun g _ => ⟨g, Run.nil, rfl, nofun, fun _ _ => rfl⟩
  | cons x rest ih =>
      intro g hat
      obtain ⟨hfresh, hdistinct⟩ := List.nodup_cons.mp hdistinct
      have hfirst := hstep g x (hat x List.mem_cons_self)
      have hrest : At before rest
          ⟨change g.session x.2, Function.update g.signing x.1 (some ⟨x.2.1, x.2.2, after⟩)⟩ := by
        intro y hy
        have hne : y.1 ≠ x.1 := fun heq => hfresh (List.mem_map.mpr ⟨y, hy, heq⟩)
        show Function.update _ _ _ y.1 = _
        rw [Function.update_apply, if_neg hne]
        exact hat y (List.mem_cons_of_mem _ hy)
      obtain ⟨g', hrun, hsession, hat', hothers⟩ := ih hdistinct _ hrest
      have hall := (Run.single hfirst).append hrun
      refine ⟨g', ?_, hsession, ?_, ?_⟩
      · rw [List.map_cons, List.reverse_cons]
        exact hall
      · intro y hy
        rcases List.mem_cons.mp hy with rfl | hy
        · rw [hothers y.1 hfresh]
          exact Function.update_self ..
        · exact hat' y hy
      · intro j hj
        rw [List.map_cons, List.mem_cons, not_or] at hj
        rw [hothers j hj.2]
        exact Function.update_of_ne hj.1 _ _

section

variable {self : Client} {order : Option (String × Bytes 32)} {own : Own} {named : List U64}
  {past : List Event} {s : ClientState} {g : Signings} {signed : SignedTransfer}

/-- Labels none of which asks for a nonce. -/
theorem asksNone_map {event : Nat × String × U64 → Event}
    (hevent : ∀ x i key reported expected order granted,
      event x ≠ .slot i key reported expected order granted) :
    AsksNone (own.map event).reverse := by
  intro i key reported expected order granted hmem
  obtain ⟨x, -, hx⟩ := List.mem_map.mp (List.mem_reverse.mp hmem)
  exact hevent x _ _ _ _ _ _ hx

/-- Moving signings on by a phase that is not their end. -/
theorem frame_of_moved {after : Phase} {es : List Event} {g' : Signings} (hat : At after own g')
    (hothers : ∀ j, j ∉ own.map (·.1) → g'.signing j = g.signing j) (hafter : after ≠ .ended)
    (hasks : AsksNone es) : Frame own named g es g' :=
  ⟨fun x hx => ⟨after, hafter, hat x hx⟩, fun j hj => Or.inl (hothers j hj),
    fun key nonce h => absurd h (hasks.names key nonce), es, [], (List.append_nil _).symm, hasks,
    signsNone_nil⟩

/-- A plain submit changes the number of turns alone. -/
theorem submit_later {txBytes : List UInt8} : Moves Later (self.submit txBytes) := by
  have hpost : Moves Later (self.post "submit_transaction" (submitBody txBytes)) := by
    refine moves_bind (fun s => ⟨s.turn, rfl⟩) (fun _ => moves_bind (reach_asks _).moves ?_)
    exact fun answer => (within_ofExcept (P := Request.Submits) answer).moves
  refine moves_bind (moves_bind (fun s => ⟨s.turn, rfl⟩) (fun _ => moves_bind hpost ?_)) ?_
  · rintro ⟨status, text⟩
    exact moves_bind (fun s => ⟨s.turn, rfl⟩) (fun _ => moves_bind (fun s => ⟨s.turn, rfl⟩)
      (fun _ s => ⟨s.turn, rfl⟩))
  · exact fun _ s => ⟨s.turn, rfl⟩

/-- Signings that have signed learn the outcome. -/
theorem matched_reported {α : Type} {slots : List (String × U64)} (hslots : own.map (·.2) = slots)
    (hdistinct : (own.map (·.1)).Nodup) (hstands : g.session = s.shared) (hown : At .signed own g)
    (wasAccepted : Bool) (a : α) :
    Matched (signings self.crates order) past
      (modify (fun s => { s with shared := s.shared.outcomeAll slots wasAccepted }) >>= fun _ =>
        (pure a : ClientM α)) s g (fun es g' => Frame own named g es g' ∧ AsksNone es) := by
  obtain ⟨g', hrun, hsession, hat, hothers⟩ := run_moved .signed .reported
    (fun session slot => session.outcome slot.1 slot.2 wasAccepted)
    (fun x => .outcome x.1 wasAccepted) (fun _ _ h => Step.outcome h) own hdistinct g hown
  rw [hslots, hstands] at hsession
  have hasks : AsksNone (own.map (fun x => Event.outcome x.1 wasAccepted)).reverse :=
    asksNone_map (fun _ _ _ _ _ _ _ => nofun)
  exact matched_quiet (fun r h => absurd (emits_modify h) List.not_mem_nil) hrun hsession
    ⟨frame_of_moved hat hothers nofun hasks, hasks⟩

/-- A request hands over what was signed before it. -/
theorem matched_request {slots : List (String × U64)} (hslots : own.map (·.2) = slots)
    (hdistinct : (own.map (·.1)).Nodup) (hstands : g.session = s.shared) (hown : At .signed own g)
    (hhands : ∀ r, r.body = submitBody signed.txBytes → Hands self.crates order r past) :
    Matched (signings self.crates order) past (do
      let outcome ← self.submit signed.txBytes
      modify (fun s => { s with shared := s.shared.outcomeAll slots (accepted outcome) })
      return outcome) s g (fun es g' => Frame own named g es g' ∧ AsksNone es) := by
  have hlater : Moves Later (self.submit signed.txBytes) := submit_later
  obtain ⟨turn, hturn⟩ := hlater s
  have hkept : ∀ x ∈ own, ∃ phase, phase ≠ .ended ∧ g.signing x.1 = some ⟨x.2.1, x.2.2, phase⟩ :=
    fun x hx => ⟨.signed, nofun, hown x hx⟩
  refine matched_bind (fun es g' => es = [] ∧ g' = g) (matched_still ?_ ⟨rfl, rfl⟩ ?_) ?_ ?_
  · show g.session = (self.submit signed.txBytes s).state.shared
    rw [hturn]
    exact hstands
  · intro r he _
    exact hhands r (emits_submit he).1
  · rintro err es g' - ⟨rfl, rfl⟩
    exact ⟨frame_of_same hkept (same_nil _), asksNone_nil⟩
  · rintro outcome t es g' - - hstands' ⟨rfl, rfl⟩
    simpa only [List.append_nil] using matched_reported hslots hdistinct hstands' hown _ _

/-- **A transaction is handed over** once the signings it needs have signed, and
    they learn its outcome after. -/
theorem matched_submitHeld {slots : List (String × U64)} (hslots : own.map (·.2) = slots)
    (hdistinct : (own.map (·.1)).Nodup) (hstands : g.session = s.shared)
    (hown : At .granted own g)
    (hhands : ∀ r run, r.body = submitBody signed.txBytes →
      (∀ p ∈ slots, SignsAt run p.1 p.2) → Hands self.crates order r run) :
    Matched (signings self.crates order) past (submitHeld self slots signed) s g
      (Frame own named g) := by
  obtain ⟨g₁, hrun, hsession, hat, hothers⟩ := run_moved .granted .signed
    (fun session slot => session.signed slot.1 slot.2) (fun x => .signed x.1 x.2.1 x.2.2)
    (fun _ _ h => Step.signed h) own hdistinct g hown
  rw [hslots, hstands] at hsession
  have hframe : Frame own named g (own.map (fun x => Event.signed x.1 x.2.1 x.2.2)).reverse g₁ :=
    frame_of_moved hat hothers nofun (asksNone_map (fun _ _ _ _ _ _ _ => nofun))
  have hsigns : ∀ p ∈ slots,
      ∃ i, Event.signed i p.1 p.2 ∈ (own.map (fun x => Event.signed x.1 x.2.1 x.2.2)).reverse := by
    intro p hp
    rw [← hslots] at hp
    obtain ⟨x, hx, rfl⟩ := List.mem_map.mp hp
    exact ⟨x.1, List.mem_reverse.mpr (List.mem_map.mpr ⟨x, hx, rfl⟩)⟩
  refine matched_bind
    (fun es g' => es = (own.map (fun x => Event.signed x.1 x.2.1 x.2.2)).reverse ∧ g' = g₁)
    (matched_quiet (fun r h => absurd h List.not_mem_nil) hrun hsession ⟨rfl, rfl⟩) ?_ ?_
  · rintro err es g' - ⟨rfl, rfl⟩
    exact hframe
  rintro u t es g' - - hstands₁ ⟨rfl, rfl⟩
  -- the hook comes between, and what is signed is in its past and the request's
  refine matched_bind (Same g') (matched_prepares (prepares_of_asks saveSigned_asks) hstands₁)
    (fun _ es g'' _ hsame =>
      hframe.trans (frame_of_same hframe.kept hsame) (Or.inl hsame.2.1)) ?_
  intro u' t' es g'' _ _ hstands₂ hsame
  have hat' : At .signed own g'' := fun x hx => by rw [hsame.1]; exact hat x hx
  have hpast : ∀ r, r.body = submitBody signed.txBytes → Hands self.crates order r
      (es ++ ((own.map (fun x => Event.signed x.1 x.2.1 x.2.2)).reverse ++ past)) := by
    intro r hr
    refine hhands r _ hr (fun p hp => ?_)
    obtain ⟨i, hi⟩ := hsigns p hp
    exact ⟨i, List.mem_append_right _ (List.mem_append_left _ hi)⟩
  have hmiddle := hframe.trans (frame_of_same hframe.kept hsame) (Or.inl hsame.2.1)
  have hall : ∀ es' g₃, Frame own named g'' es' g₃ ∧ AsksNone es' → Frame own named g
      (es' ++ es ++ (own.map (fun x => Event.signed x.1 x.2.1 x.2.2)).reverse) g₃ := by
    rintro es' g₃ ⟨hframe', hasks⟩
    rw [List.append_assoc]
    exact hmiddle.trans hframe' (Or.inl hasks)
  have hrequest := (matched_request hslots hdistinct hstands₂ hat' hpast).weaken hall
  with_reducible exact hrequest

/-- **What is signed is handed over**, whatever the part before the signature did. -/
theorem matched_signAndSubmit {info : NodeInfo} {targets : List String}
    {slots : List (String × U64)}
    {sign : Bytes 32 → Except String (Bytes 32) → Except String SignedTransfer}
    (hslots : own.map (·.2) = slots) (hdistinct : (own.map (·.1)).Nodup)
    (hstands : g.session = s.shared) (hown : At .granted own g) (hroomy : Roomy g)
    (hsign : ∀ genesis randomness signed r run, sign genesis randomness = .ok signed →
      r.body = submitBody signed.txBytes → (∀ p ∈ slots, SignsAt run p.1 p.2) →
      Hands self.crates order r run) :
    Matched (signings self.crates order) past (signAndSubmit self info targets slots sign) s g
      (Frame own named g) := by
  have hremember : Prepares (rememberTargets self targets) :=
    within_modify (fun s => notes_of_shared rfl)
  refine matched_after (prepares_of_asks signingGenesis_asks) hstands hown hroomy ?_
  intro genesis t es g' _ hstands hown hroomy
  refine matched_after (prepares_of_asks (reach_asks _)) hstands hown hroomy ?_
  intro randomness t' es' g'' _ hstands hown hroomy
  refine matched_value hstands (frame_of_same (kept_of_at hown) (same_nil _)) ?_
  intro signed hsigned
  refine matched_after hremember hstands hown hroomy ?_
  intro _ t'' es'' g₃ _ hstands hown _
  refine matched_before (matched_submitHeld hslots hdistinct hstands hown ?_)
    (fun _ => within_pure _)
  exact fun r run hr hsigns => hsign _ _ _ r run hsigned hr hsigns

/-! ## A nonce that is taken -/

/-- The signing that takes a nonce ends when the part of the call does. -/
theorem frame_of_released {i : Nat} {key : String} {nonce reported : U64} {expected : Option U64}
    {isOrder : Bool} {session : SigningSession} {es : List Event} {g'' : Signings}
    (hnamed : ∀ n, expected = some n → n ∈ named) (hi : i ∉ own.map (·.1))
    (hfree : g.signing i = none)
    (h : Frame (own ++ [(i, key, nonce)]) named
      ⟨session, Function.update g.signing i (some ⟨key, nonce, .granted⟩)⟩ es g'') :
    Frame own named g (.release i :: es ++ [.slot i key reported expected isOrder true])
      ⟨g''.session.release key nonce, Function.update g''.signing i (some ⟨key, nonce, .ended⟩)⟩ := by
  refine ⟨?_, ?_, ?_, ?_⟩
  · intro x hx
    have hne : x.1 ≠ i := fun heq => hi (List.mem_map.mpr ⟨x, hx, heq⟩)
    obtain ⟨phase, hphase, hat⟩ := h.kept x (List.mem_append_left _ hx)
    refine ⟨phase, hphase, ?_⟩
    show Function.update g''.signing i _ x.1 = _
    rw [Function.update_of_ne hne]
    exact hat
  · intro j hj
    show Function.update g''.signing i _ j = _ ∨ _ ∧ ∃ key nonce,
      Function.update g''.signing i _ j = _
    by_cases heq : j = i
    · -- the signing this part started, which has now ended
      rw [heq, Function.update_self]
      exact Or.inr ⟨hfree, key, nonce, rfl⟩
    · rw [Function.update_of_ne heq]
      have hother : j ∉ (own ++ [(i, key, nonce)]).map (·.1) := by
        rw [List.map_append, List.mem_append, not_or]
        exact ⟨hj, fun hmem => heq (List.mem_singleton.mp hmem)⟩
      have hbefore : Function.update g.signing i (some ⟨key, nonce, .granted⟩) j = g.signing j :=
        Function.update_of_ne heq _ _
      rw [← hbefore]
      exact h.others j hother
  · intro k n hnames
    rcases namesAt_append hnames with ⟨j, r, o, granted, hmem⟩ | ⟨j, r, o, granted, hmem⟩
    · rcases List.mem_cons.mp hmem with heq | hmem
      · cases heq
      · exact h.named k n ⟨j, r, o, granted, hmem⟩
    · cases List.mem_singleton.mp hmem
      exact hnamed _ rfl
  · obtain ⟨late, early, rfl, hlate, hearly⟩ := h.parts
    refine ⟨.release i :: late, early ++ [.slot i key reported expected isOrder true], ?_, ?_,
      hearly.append ?_⟩
    · simp only [List.cons_append, List.append_assoc]
    · intro j k r e o granted hmem
      rcases List.mem_cons.mp hmem with heq | hmem
      · cases heq
      · exact hlate _ _ _ _ _ _ hmem
    · intro j k n hmem
      cases List.mem_singleton.mp hmem

/-- **A nonce is taken for a part of a call**: a signing is started, the part is
    matched with it, and it ends. -/
theorem matched_reserving {α : Type} {key : String} {reported : U64} {expected : Option U64}
    {isOrder : Bool} {rest : String → U64 → ClientM α}
    (hnamed : ∀ n, expected = some n → n ∈ named) (hdistinct : (own.map (·.1)).Nodup)
    (hstands : g.session = s.shared) (hown : At .granted own g) (hroomy : Roomy g)
    (hrest : ∀ i nonce t past g', ((own ++ [(i, key, nonce)]).map (·.1)).Nodup →
      g'.session = t.shared → At .granted (own ++ [(i, key, nonce)]) g' → Roomy g' →
      Matched (signings self.crates order) past (rest key nonce) t g'
        (Frame (own ++ [(i, key, nonce)]) named g')) :
    Matched (signings self.crates order) past (reserving key reported expected isOrder rest) s g
      (Frame own named g) := by
  have hslot : g.session.slot key reported expected isOrder
      = s.shared.slot key reported expected isOrder := by rw [hstands]
  cases hanswer : s.shared.slot key reported expected isOrder with
  | mk answer session =>
      rw [hanswer] at hslot
      have hresult : ∀ x : Except String U64, (s.shared.slot key reported expected isOrder).1 = x →
          answer = x := fun x hx => by rw [← hx, hanswer]
      cases answer with
      | error msg =>
          -- a refused nonce starts no signing
          have hrun : Run Step g [.slot 0 key reported expected isOrder false]
              ⟨session, g.signing⟩ := Run.single (.refused hslot)
          have hframe : Frame own named g [.slot 0 key reported expected isOrder false]
              ⟨session, g.signing⟩ := by
            refine ⟨kept_of_at hown, fun j _ => Or.inl rfl, ?_, [], _, rfl, asksNone_nil, ?_⟩
            · rintro k n ⟨j, r, o, granted, hmem⟩
              cases List.mem_singleton.mp hmem
              exact hnamed n rfl
            · intro j k n hmem
              cases List.mem_singleton.mp hmem
          refine matched_bind (Frame own named g)
            (matched_quiet (fun r h => absurd h List.not_mem_nil) hrun ?_ hframe)
            (fun _ _ _ _ h => h) ?_
          · show session = (s.shared.slot key reported expected isOrder).2
            rw [hanswer]
          · intro nonce t es g' hgives _ _ _
            exact nomatch hresult _ hgives.1
      | ok nonce =>
          obtain ⟨i, hi⟩ := id hroomy
          have hfree := hi i (le_refl i)
          have hfresh : i ∉ own.map (·.1) := by
            intro hmem
            obtain ⟨x, hx, rfl⟩ := List.mem_map.mp hmem
            exact nomatch hfree.symm.trans (hown x hx)
          have hrun : Run Step g [.slot i key reported expected isOrder true]
              ⟨session, Function.update g.signing i (some ⟨key, nonce, .granted⟩)⟩ :=
            Run.single (.granted hfree hslot)
          refine matched_bind (fun es g' => es = [.slot i key reported expected isOrder true]
              ∧ g' = ⟨session, Function.update g.signing i (some ⟨key, nonce, .granted⟩)⟩)
            (matched_quiet (fun r h => absurd h List.not_mem_nil) hrun ?_ ⟨rfl, rfl⟩) ?_ ?_
          · show session = (s.shared.slot key reported expected isOrder).2
            rw [hanswer]
          · intro err es g' herror
            exact nomatch hresult _ herror
          · rintro taken t es g' hgives hrun' hstands' ⟨rfl, rfl⟩
            cases hresult _ hgives.1
            refine matched_finally (hrest i nonce t _ _ ?_ hstands' ?_ (run_roomy hrun' hroomy)) ?_
            · rw [List.map_append, List.nodup_append]
              refine ⟨hdistinct, List.nodup_singleton _, ?_⟩
              intro a ha b hb heq
              rw [List.map_singleton, List.mem_singleton] at hb
              have hsame : a = i := heq.trans hb
              exact hfresh (hsame ▸ ha)
            · intro x hx
              show Function.update g.signing i _ x.1 = _
              rcases List.mem_append.mp hx with hx | hx
              · have hne : x.1 ≠ i := fun heq => hfresh (List.mem_map.mpr ⟨x, hx, heq⟩)
                rw [Function.update_of_ne hne]
                exact hown x hx
              · cases List.mem_singleton.mp hx
                exact Function.update_self ..
            · intro u es g'' hstands'' hframe
              obtain ⟨phase, hphase, hat⟩ :=
                hframe.kept (i, key, nonce) (List.mem_append_right _ List.mem_cons_self)
              refine ⟨[.release i], _, Run.single (.release hat hphase), ?_, ?_⟩
              · show g''.session.release key nonce = u.shared.release key nonce
                rw [hstands'']
              · exact frame_of_released hnamed hfresh hfree hframe

/-- The account's nonce is taken once its state was asked for. -/
theorem matched_checkedNonce {α : Type} {info : NodeInfo} {sender : String} {expected : Option U64}
    {rest : String → U64 → ClientM α} (hnamed : ∀ n, expected = some n → n ∈ named)
    (hdistinct : (own.map (·.1)).Nodup) (hstands : g.session = s.shared) (hown : At .granted own g)
    (hroomy : Roomy g)
    (hrest : ∀ i nonce t past g',
      ((own ++ [(i, accountSlotKey info.chainId sender, nonce)]).map (·.1)).Nodup →
      g'.session = t.shared → At .granted (own ++ [(i, accountSlotKey info.chainId sender, nonce)]) g' →
      Roomy g' → Matched (signings self.crates order) past
        (rest (accountSlotKey info.chainId sender) nonce) t g'
        (Frame (own ++ [(i, accountSlotKey info.chainId sender, nonce)]) named g')) :
    Matched (signings self.crates order) past (checkedNonce self info sender expected rest) s g
      (Frame own named g) := by
  refine matched_after (prepares_of_asks (account_asks sender)) hstands hown hroomy ?_
  intro account t es g' _ hstands hown hroomy
  exact matched_reserving hnamed hdistinct hstands hown hroomy hrest

/-- An order's nonce is taken once the contract's state was asked for. -/
theorem matched_orderNonce {α : Type} {info : NodeInfo} {contract : String} {signer : Bytes 32}
    {expected : Option U64} {rest : String → U64 → ClientM α}
    (hnamed : ∀ n, expected = some n → n ∈ named) (hdistinct : (own.map (·.1)).Nodup)
    (hstands : g.session = s.shared) (hown : At .granted own g) (hroomy : Roomy g)
    (hrest : ∀ key, orderSlotKey self.crates info.chainId contract signer = .ok key →
      ∀ i nonce t past g', ((own ++ [(i, key, nonce)]).map (·.1)).Nodup →
      g'.session = t.shared → At .granted (own ++ [(i, key, nonce)]) g' → Roomy g' →
      Matched (signings self.crates order) past (rest key nonce) t g'
        (Frame (own ++ [(i, key, nonce)]) named g')) :
    Matched (signings self.crates order) past
      (orderNonce self info contract signer expected rest) s g (Frame own named g) := by
  refine matched_value hstands (frame_of_same (kept_of_at hown) (same_nil _)) ?_
  intro key hkey
  refine matched_after (prepares_of_asks (contractNonce_asks contract signer)) hstands hown hroomy ?_
  intro reported t es g' _ hstands hown hroomy
  exact matched_reserving hnamed hdistinct hstands hown hroomy (hrest key hkey)

end

/-! ## The entry points -/

section

variable {self : Client} {seed : Bytes seedLen} {index chainId validUntil nonce : U64}
  {targets : List String} {args : List UInt8} {fee : U128} {info : NodeInfo}
  {order : Option (String × Bytes 32)} {s : ClientState} {g : Signings} {past : List Event}

/-- What is signed under an account's terms hands a transaction of it over. -/
theorem hands_of_terms {sign : Bytes 32 → Except String (Bytes 32) → Except String SignedTransfer}
    {genesis : Bytes 32} {randomness : Except String (Bytes 32)} {signed : SignedTransfer}
    {r : Request} {run : List Event}
    (hchain : checkedChainId self.crates.toCrates info.chainId = .ok chainId)
    (hterms : SignsTerms self.crates seed index targets args nonce chainId validUntil fee sign)
    (hsigned : sign genesis randomness = .ok signed) (hr : r.body = submitBody signed.txBytes)
    (haccount : SignsAt run
      (accountSlotKey info.chainId (self.crates.accountAddress seed index)) nonce)
    (horder : ∀ contract signer, order = some (contract, signer) →
      ∃ key, ∃ call : SignedOrderCall,
        orderSlotKey self.crates info.chainId contract signer = .ok key
          ∧ args = call.callArgs ∧ call.signer = signer ∧ SignsAt run key call.nonce) :
    Hands self.crates order r run := by
  obtain ⟨body, hsigns, hbody⟩ := hterms _ _ _ hsigned
  obtain ⟨rnd, wrapper, hwrapper, hbytes⟩ := hsigns.wrapped
  refine ⟨seed, index, info.chainId, body, genesis, rnd, wrapper, hsigns.sender, hwrapper, ?_, ?_,
    ?_, ?_⟩
  · rw [hr, hbytes]
  · rw [hbody.chainId]
    exact (checkedChainId_ok hchain).1
  · rw [hsigns.sender, hbody.nonce]
    exact haccount
  · rw [hbody.args]
    exact horder

/-- **A call that needs its account's nonce alone** is one signing. -/
theorem matched_account {α : Type} {expected : Option U64} {named : List U64}
    {rest : String → U64 → ClientM α}
    {sign : U64 → Bytes 32 → Except String (Bytes 32) → Except String SignedTransfer}
    (hnamed : ∀ n, expected = some n → n ∈ named) (hstands : g.session = s.shared)
    (hroomy : Roomy g) (hchain : checkedChainId self.crates.toCrates info.chainId = .ok chainId)
    (hterms : ∀ nonce, SignsTerms self.crates seed index targets args nonce chainId validUntil fee
      (sign nonce))
    (hrest : ∀ own key nonce t past g', g'.session = t.shared → At .granted own g' → Roomy g' →
      (∀ t past g', g'.session = t.shared → At .granted own g' → Roomy g' →
        Matched (signings self.crates none) past
          (signAndSubmit self info targets [(key, nonce)] (sign nonce)) t g' (Frame own named g')) →
      Matched (signings self.crates none) past (rest key nonce) t g' (Frame own named g')) :
    Matched (signings self.crates none) past
      (checkedNonce self info (self.crates.accountAddress seed index) expected rest) s g
      (Frame [] named g) := by
  refine matched_checkedNonce hnamed List.nodup_nil hstands nofun hroomy ?_
  intro i nonce t past g' hdistinct hstands hown hroomy
  refine hrest _ _ nonce t past g' hstands hown hroomy ?_
  intro t past g' hstands hown hroomy
  refine matched_signAndSubmit rfl hdistinct hstands hown hroomy ?_
  intro genesis randomness signed r run hsigned hr hsigns
  exact hands_of_terms hchain (hterms nonce) hsigned hr (hsigns _ List.mem_cons_self)
    (fun _ _ h => nomatch h)

/-- A guard at the start of a call takes no nonce. -/
theorem matched_guard {α : Type} {x : Except String Unit} {rest : Unit → ClientM α}
    {named : List U64} (hstands : g.session = s.shared)
    (hrest : Matched (signings self.crates order) past (rest ()) s g (Frame [] named g)) :
    Matched (signings self.crates order) past (liftM x >>= rest) s g (Frame [] named g) :=
  matched_value hstands (frame_of_same nofun (same_nil _)) (fun _ _ => hrest)

/-- What follows an opening and a deadline takes the nonces. -/
theorem matched_opened {α : Type} {sender : String} {feeOf : NodeInfo → Except String U128}
    {rest : NodeInfo × U128 × U64 → ClientM α} {named : List U64}
    (hstands : g.session = s.shared) (hroomy : Roomy g)
    (hrest : ∀ info fee chainId t past g',
      checkedChainId self.crates.toCrates info.chainId = .ok chainId → g'.session = t.shared →
      Roomy g' → Matched (signings self.crates order) past (rest (info, fee, chainId)) t g'
        (Frame [] named g')) :
    Matched (signings self.crates order) past (opening self sender targets feeOf >>= rest) s g
      (Frame [] named g) := by
  refine matched_after opening_prepares hstands nofun hroomy ?_
  rintro ⟨info, fee, chainId⟩ t es g' hgives hstands - hroomy
  obtain ⟨-, hopened⟩ := opening_gives hgives
  exact hrest info fee chainId t _ g' hopened.chain hstands hroomy

/-- What follows the choice of a deadline is matched, whatever head was noted for it. -/
theorem matched_valid {α : Type} {rest : U64 → ClientM α} {named : List U64}
    (hstands : g.session = s.shared) (hroomy : Roomy g)
    (hrest : ∀ validUntil t past g', g'.session = t.shared → Roomy g' →
      Matched (signings self.crates order) past (rest validUntil) t g' (Frame [] named g')) :
    Matched (signings self.crates order) past (validity self info >>= rest) s g
      (Frame [] named g) := by
  refine matched_after validity_prepares hstands nofun hroomy ?_
  rintro validUntil t es g' - hstands - hroomy
  exact hrest validUntil t _ g' hstands hroomy

/-- A transfer is matched by a signing. -/
theorem transfer_matched {recipient : String} {amount : U64} {maxFee : U128}
    {expected : Option U64} (hstands : g.session = s.shared) (hroomy : Roomy g) :
    Matched (signings self.crates none) past
      (transferExpecting self seed index recipient amount maxFee expected) s g
      (Frame [] expected.toList g) := by
  refine matched_guard hstands (matched_opened hstands hroomy ?_)
  intro info fee chainId t past g' hchain hstands hroomy
  refine matched_valid hstands hroomy ?_
  intro validUntil t past g' hstands hroomy
  exact matched_account (fun n hn => Option.mem_toList.mpr hn) hstands hroomy hchain
    (fun _ => signTransfer_terms)
    (fun _ _ _ _ _ _ hstands hown hroomy h => h _ _ _ hstands hown hroomy)

/-- So is the registration of a key. -/
theorem register_matched {maxFee : U128} {expected : Option U64}
    (hstands : g.session = s.shared) (hroomy : Roomy g) :
    Matched (signings self.crates none) past
      (registerExpecting self seed index maxFee expected) s g (Frame [] expected.toList g) := by
  refine matched_opened hstands hroomy ?_
  intro info fee chainId t past g' hchain hstands hroomy
  refine matched_valid hstands hroomy ?_
  intro validUntil t past g' hstands hroomy
  exact matched_account (fun n hn => Option.mem_toList.mpr hn) hstands hroomy hchain
    (fun _ => signRegister_terms)
    (fun _ _ _ _ _ _ hstands hown hroomy h => h _ _ _ hstands hown hroomy)

/-- So is a call that pays. -/
theorem callPayable_matched {target : String} {value meterLimit : U64} {maxFee : U128}
    {expected : Option U64} (hstands : g.session = s.shared) (hroomy : Roomy g) :
    Matched (signings self.crates none) past
      (callPayableExpecting self seed index target args value meterLimit maxFee expected) s g
      (Frame [] expected.toList g) := by
  refine matched_guard hstands (matched_opened hstands hroomy ?_)
  intro info fee chainId t past g' hchain hstands hroomy
  refine matched_valid hstands hroomy ?_
  intro validUntil t past g' hstands hroomy
  exact matched_account (fun n hn => Option.mem_toList.mpr hn) hstands hroomy hchain
    (fun _ => signPayableCall_terms (Or.inl List.mem_cons_self))
    (fun _ _ _ _ _ _ hstands hown hroomy h => h _ _ _ hstands hown hroomy)

/-- So is a call that pays in an asset. -/
theorem callAsset_matched {target assetIssuer : String} {amount meterLimit : U64} {maxFee : U128}
    {expected : Option U64} (hstands : g.session = s.shared) (hroomy : Roomy g) :
    Matched (signings self.crates none) past
      (callAssetExpecting self seed index target args assetIssuer amount meterLimit maxFee expected)
      s g (Frame [] expected.toList g) := by
  refine matched_guard hstands (matched_guard hstands (matched_opened hstands hroomy ?_))
  intro info fee chainId t past g' hchain hstands hroomy
  refine matched_valid hstands hroomy ?_
  intro validUntil t past g' hstands hroomy
  exact matched_account (fun n hn => Option.mem_toList.mpr hn) hstands hroomy hchain
    (fun _ => signAssetCall_terms)
    (fun _ _ _ _ _ _ hstands hown hroomy h => h _ _ _ hstands hown hroomy)

/-- So is a deploy. -/
theorem deployWithParams_matched {container : List UInt8} {params : List DeployParam}
    {meterLimit : U64} {maxFee : U128} {expected : Option U64} (hstands : g.session = s.shared)
    (hroomy : Roomy g) :
    Matched (signings self.crates none) past
      (deployWithParamsExpecting self seed index container params meterLimit maxFee expected) s g
      (Frame [] expected.toList g) := by
  refine matched_opened hstands hroomy ?_
  intro info fee chainId t past g' hchain hstands hroomy
  refine matched_valid hstands hroomy ?_
  intro validUntil t past g' hstands hroomy
  have hsign : ∀ nonce, SignsTerms self.crates seed index [] (buildDeployCall container params)
      nonce chainId validUntil fee (signCall self.crates seed index (vmDeployAddress self.crates)
        (buildDeployCall container params) nonce meterLimit fee chainId validUntil
        info.transferFee info.headHeight) :=
    fun _ => signPayableCall_terms (Or.inr ⟨rfl, Or.inr rfl⟩)
  refine matched_account (fun n hn => Option.mem_toList.mpr hn) hstands hroomy hchain hsign ?_
  intro own key nonce t past g' hstands hown hroomy hhands
  refine matched_value hstands (frame_of_same (kept_of_at hown) (same_nil _)) ?_
  intro contract _
  refine matched_before (hhands t past g' hstands hown hroomy) ?_
  rintro ⟨signed, outcome⟩
  have hremember : Prepares (rememberTargets self (if accepted outcome then [contract] else [])) :=
    within_modify (fun s => notes_of_shared rfl)
  exact within_bind hremember (fun _ => within_pure _)

/-- **A call that carries an order** is two signings, of the order's nonce and of
    its account's. -/
theorem matched_order {contract : String} {signer : Bytes 32}
    {expected expectedOrder : Option U64}
    {build : U64 → Except String (Bytes 32) → Except String SignedOrderCall}
    {sign : SignedOrderCall → U64 → Bytes 32 → Except String (Bytes 32) →
      Except String SignedTransfer}
    (hstands : g.session = s.shared) (hroomy : Roomy g)
    (hchain : checkedChainId self.crates.toCrates info.chainId = .ok chainId)
    (hbuild : ∀ nonce randomness order, build nonce randomness = .ok order →
      order.signer = signer ∧ order.nonce = nonce)
    (hterms : ∀ (order : SignedOrderCall) nonce, SignsTerms self.crates seed index targets
      order.callArgs nonce chainId validUntil fee (sign order nonce)) :
    Matched (signings self.crates (some (contract, signer))) past
      (callOrder self info (self.crates.accountAddress seed index) contract signer targets
        expected expectedOrder build sign) s g
      (Frame [] (expected.toList ++ expectedOrder.toList) g) := by
  have hnamed : ∀ n, expected = some n → n ∈ expected.toList ++ expectedOrder.toList :=
    fun n hn => List.mem_append_left _ (Option.mem_toList.mpr hn)
  have hnamedOrder : ∀ n, expectedOrder = some n → n ∈ expected.toList ++ expectedOrder.toList :=
    fun n hn => List.mem_append_right _ (Option.mem_toList.mpr hn)
  refine matched_orderNonce hnamedOrder List.nodup_nil hstands nofun hroomy ?_
  intro orderKey hkey i nonce t past g' hdistinct hstands hown hroomy
  refine matched_after (prepares_of_asks (reach_asks _)) hstands hown hroomy ?_
  intro randomness t es g' _ hstands hown hroomy
  refine matched_value hstands (frame_of_same (kept_of_at hown) (same_nil _)) ?_
  intro call hcall
  obtain ⟨hsigner, hnonce⟩ := hbuild _ _ _ hcall
  refine matched_checkedNonce hnamed hdistinct hstands hown hroomy ?_
  intro j accountNonce t past g' hdistinct hstands hown hroomy
  refine matched_before (matched_signAndSubmit rfl hdistinct hstands hown hroomy ?_)
    (fun _ => within_pure _)
  intro genesis randomness' signed r run hsigned hr hsigns
  refine hands_of_terms hchain (hterms call accountNonce) hsigned hr
    (hsigns _ (List.mem_cons_of_mem _ List.mem_cons_self)) ?_
  rintro c k ⟨⟩
  refine ⟨orderKey, call, hkey, rfl, hsigner, ?_⟩
  rw [hnonce]
  exact hsigns _ List.mem_cons_self

/-- A call with an order is matched by two signings. -/
theorem callSignedOrder_matched {contract : String} {selector : Bytes 4} {layout : OrderLayout}
    {fields : List U64} {ownerSeed : Bytes seedLen} {ownerIndex meterLimit : U64} {maxFee : U128}
    {expected expectedOrder : Option U64} (hstands : g.session = s.shared) (hroomy : Roomy g) :
    Matched (signings self.crates
        (some (contract, orderSigner self.crates.toCrates ownerSeed ownerIndex))) past
      (callSignedOrderExpecting self seed index contract selector layout fields ownerSeed ownerIndex
        meterLimit maxFee expected expectedOrder) s g
      (Frame [] (expected.toList ++ expectedOrder.toList) g) := by
  refine matched_guard hstands (matched_after orderClock_prepares hstands nofun hroomy ?_)
  rintro now t es g' - hstands - hroomy
  refine matched_guard hstands (matched_opened hstands hroomy ?_)
  intro info fee chainId t past g' hchain hstands hroomy
  refine matched_after (prepares_of_asks signingGenesis_asks) hstands nofun hroomy ?_
  rintro genesis t es g' - hstands - hroomy
  refine matched_valid hstands hroomy ?_
  intro validUntil t past g' hstands hroomy
  refine matched_order hstands hroomy hchain ?_
    (fun _ _ => signPayableCall_terms (Or.inl List.mem_cons_self))
  intro nonce randomness order h
  have horder := buildSignedOrderCall_orders h
  exact ⟨horder.signer, horder.nonce⟩

/-- So is a call with a typed order. -/
theorem callTypedOrder_matched {contract : String} {selector : Bytes 4} {layoutHash : Bytes 32}
    {schemeOff ptrOff expiryOff expiry regionOff : U64} {fields : List FieldArg}
    {ownerSeed : Bytes seedLen} {ownerIndex value meterLimit : U64} {inAsset : Option String}
    {maxFee : U128} {expected expectedOrder : Option U64} (hstands : g.session = s.shared)
    (hroomy : Roomy g) :
    Matched (signings self.crates
        (some (contract, orderSigner self.crates.toCrates ownerSeed ownerIndex))) past
      (callTypedOrderExpecting self seed index contract selector layoutHash schemeOff ptrOff
        expiryOff expiry regionOff fields ownerSeed ownerIndex value inAsset meterLimit maxFee
        expected expectedOrder) s g
      (Frame [] (expected.toList ++ expectedOrder.toList) g) := by
  refine matched_guard hstands (matched_guard hstands
    (matched_after orderClock_prepares hstands nofun hroomy ?_))
  rintro now t es g' - hstands - hroomy
  refine matched_guard hstands (matched_opened hstands hroomy ?_)
  intro info fee chainId t past g' hchain hstands hroomy
  refine matched_after (prepares_of_asks signingGenesis_asks) hstands nofun hroomy ?_
  rintro genesis t es g' - hstands - hroomy
  refine matched_valid hstands hroomy ?_
  intro validUntil t past g' hstands hroomy
  refine matched_order hstands hroomy hchain ?_ (?_ : ∀ (order : SignedOrderCall) nonce,
    SignsTerms self.crates seed index _ order.callArgs nonce chainId validUntil fee _)
  · intro nonce randomness order h
    have horder := buildTypedOrderCall_orders h
    exact ⟨horder.signer, horder.nonce⟩
  · intro order nonce
    cases inAsset with
    | some issuer => exact signAssetCall_terms
    | none => exact signPayableCall_terms (Or.inl List.mem_cons_self)

end

/-- A call of an entry point, with what its caller gives it. -/
inductive Entry
  | transfer (seed : Bytes seedLen) (index : U64) (recipient : String) (amount : U64)
      (maxFee : U128) (expected : Option U64)
  | register (seed : Bytes seedLen) (index : U64) (maxFee : U128) (expected : Option U64)
  | callPayable (seed : Bytes seedLen) (index : U64) (target : String) (args : List UInt8)
      (value meterLimit : U64) (maxFee : U128) (expected : Option U64)
  | callAsset (seed : Bytes seedLen) (index : U64) (target : String) (args : List UInt8)
      (assetIssuer : String) (amount meterLimit : U64) (maxFee : U128) (expected : Option U64)
  | callSignedOrder (callerSeed : Bytes seedLen) (callerIndex : U64) (contract : String)
      (selector : Bytes 4) (layout : OrderLayout) (fields : List U64) (ownerSeed : Bytes seedLen)
      (ownerIndex meterLimit : U64) (maxFee : U128) (expected expectedOrder : Option U64)
  | callTypedOrder (callerSeed : Bytes seedLen) (callerIndex : U64) (contract : String)
      (selector : Bytes 4) (layoutHash : Bytes 32)
      (schemeOff ptrOff expiryOff expiry regionOff : U64) (fields : List FieldArg)
      (ownerSeed : Bytes seedLen) (ownerIndex value : U64) (inAsset : Option String)
      (meterLimit : U64) (maxFee : U128) (expected expectedOrder : Option U64)
  | deployWithParams (seed : Bytes seedLen) (index : U64) (container : List UInt8)
      (params : List DeployParam) (meterLimit : U64) (maxFee : U128) (expected : Option U64)

namespace Entry

/-- Call the entry point. -/
def run (self : Client) : Entry → ClientM Unit
  | transfer seed index recipient amount maxFee expected => do
      let _ ← transferExpecting self seed index recipient amount maxFee expected
      return ()
  | register seed index maxFee expected => do
      let _ ← registerExpecting self seed index maxFee expected
      return ()
  | callPayable seed index target args value meterLimit maxFee expected => do
      let _ ← callPayableExpecting self seed index target args value meterLimit maxFee expected
      return ()
  | callAsset seed index target args assetIssuer amount meterLimit maxFee expected => do
      let _ ← callAssetExpecting self seed index target args assetIssuer amount meterLimit maxFee
        expected
      return ()
  | callSignedOrder callerSeed callerIndex contract selector layout fields ownerSeed ownerIndex
      meterLimit maxFee expected expectedOrder => do
      let _ ← callSignedOrderExpecting self callerSeed callerIndex contract selector layout fields
        ownerSeed ownerIndex meterLimit maxFee expected expectedOrder
      return ()
  | callTypedOrder callerSeed callerIndex contract selector layoutHash schemeOff ptrOff expiryOff
      expiry regionOff fields ownerSeed ownerIndex value inAsset meterLimit maxFee expected
      expectedOrder => do
      let _ ← callTypedOrderExpecting self callerSeed callerIndex contract selector layoutHash
        schemeOff ptrOff expiryOff expiry regionOff fields ownerSeed ownerIndex value inAsset
        meterLimit maxFee expected expectedOrder
      return ()
  | deployWithParams seed index container params meterLimit maxFee expected => do
      let _ ← deployWithParamsExpecting self seed index container params meterLimit maxFee expected
      return ()

/-- The nonces the caller names. -/
def named : Entry → List U64
  | transfer _ _ _ _ _ expected | register _ _ _ expected | callPayable _ _ _ _ _ _ _ expected
  | callAsset _ _ _ _ _ _ _ _ expected | deployWithParams _ _ _ _ _ _ expected => expected.toList
  | callSignedOrder _ _ _ _ _ _ _ _ _ _ expected expectedOrder
  | callTypedOrder _ _ _ _ _ _ _ _ _ _ _ _ _ _ _ _ _ expected expectedOrder =>
      expected.toList ++ expectedOrder.toList

/-- The contract an order is for and its owner's key, where the call carries one. -/
def order (self : Client) : Entry → Option (String × Bytes 32)
  | callSignedOrder _ _ contract _ _ _ ownerSeed ownerIndex _ _ _ _
  | callTypedOrder _ _ contract _ _ _ _ _ _ _ _ ownerSeed ownerIndex _ _ _ _ _ _ =>
      some (contract, orderSigner self.crates.toCrates ownerSeed ownerIndex)
  | _ => none

end Entry

/-- **Every entry point is matched by a run of signings**, whatever its gateway
    answers and wherever it stops. -/
theorem entry_matched (self : Client) (entry : Entry) {s : ClientState} {g : Signings}
    {past : List Event} (hstands : g.session = s.shared) (hroomy : Roomy g) :
    Matched (signings self.crates (entry.order self)) past (entry.run self) s g
      (Frame [] entry.named g) := by
  cases entry with
  | transfer => exact matched_before (transfer_matched hstands hroomy) (fun _ => within_pure _)
  | register => exact matched_before (register_matched hstands hroomy) (fun _ => within_pure _)
  | callPayable =>
      exact matched_before (callPayable_matched hstands hroomy) (fun _ => within_pure _)
  | callAsset => exact matched_before (callAsset_matched hstands hroomy) (fun _ => within_pure _)
  | callSignedOrder =>
      exact matched_before (callSignedOrder_matched hstands hroomy) (fun _ => within_pure _)
  | callTypedOrder =>
      exact matched_before (callTypedOrder_matched hstands hroomy) (fun _ => within_pure _)
  | deployWithParams =>
      exact matched_before (deployWithParams_matched hstands hroomy) (fun _ => within_pure _)

end QCoreEntryRun
