import Mathlib
import QCore.MachineIntProofs
import QCore.ByteMemoryProofs
import QCore.FallibleProofs
import QCore.TraceProofs
import QCore.TransitionProofs
import QCore.SimulationProofs
import QCore.WireProofs
import QCore.SessionProofs
import QCore.SessionStateProofs
import QCore.SessionSpentProofs
import QCore.SigningRunProofs
import QCore.CratesProofs
import QCore.ClientProofs
import QCore.FinalitySafetyProofs
import QCore.RosterRunProofs
import QCore.SigningProofs
import QCore.EntryPointProofs
import QCore.SubmissionProofs
import QCore.EntryRunProofs
import QCore.EntryStepProofs

/-! # One session, many clients

    A process has one signing session and any number of clients, each with a
    gateway, a clock and a random source of its own.  Calls of the seven entry
    points follow one another in any order, and between them a client does what it
    likes with its own state, or a saved text is restored into the session.

    Every such run is a run of signings, one turn for each call, and at the end of
    a turn no signing is left.  So no two calls hand over transactions at one
    nonce of one key, unless a call since the first was given that nonce by name. -/

namespace QCoreSharedSession

open QCoreMachineInt QCoreByteMemory QCoreFallible QCoreTrace QCoreTrace.Traced QCoreTransition
  QCoreSimulation QCoreWire QCoreSession QCoreSession.SigningSession QCoreSigningRun QCoreCrates
  QCoreClient QCoreFinalitySafety QCoreRosterRun QCoreSigning QCoreEntryPoint QCoreSubmission
  QCoreEntryRun QCoreEntryStep

/-! ## The process -/

/-- The session of a process and what each client keeps for itself. -/
structure Process where
  session : SigningSession
  client : Nat → ClientState

/-- What a client finds when it is called. -/
def Process.before (p : Process) (i : Nat) : ClientState :=
  { p.client i with shared := p.session }

/-- What happens in a process: a call is over when the next thing happens. -/
inductive Happening
  | called (i : Nat) (entry : Entry) (requests : List Request)
  | restored (saved : SigningSession)
  | other

/-- One call, one text that is restored, or anything else a client does to its own
    state. -/
inductive Happens (clients : Nat → Client) : Process → Happening → Process → Prop
  | called {p : Process} {i : Nat} {entry : Entry} :
      Happens clients p (.called i entry (entry.run (clients i) (p.before i)).events)
        ⟨(entry.run (clients i) (p.before i)).state.shared,
          Function.update p.client i (entry.run (clients i) (p.before i)).state⟩
  | restored {p : Process} {saved : SigningSession} (hsaved : Reachable saved) :
      Happens clients p (.restored saved)
        ⟨(p.session.importState saved.exportState).2, p.client⟩
  | other {p : Process} {client : Nat → ClientState} :
      Happens clients p .other ⟨p.session, client⟩

/-- What a run of signings says of a happening: a call hands over at most one
    transaction, signed at the nonces the run signs at, and asks by name only for
    nonces its caller named. -/
def Explained (clients : Nat → Client) : Happening → List Event → Prop
  | .called i entry requests, run =>
      (∀ r ∈ requests, r.Submits → Hands (clients i).crates (entry.order (clients i)) r run)
        ∧ requests.countP Request.Submits ≤ 1
        ∧ ∀ key nonce, NamesAt run key nonce → nonce ∈ entry.named
  | .restored saved, run => run = [.importState saved.exportState]
  | .other, run => run = []

/-! ## Turns -/

/-- No signing goes on. -/
def Idle (g : Signings) : Prop :=
  ∀ i signing, g.signing i = some signing → signing.phase = .ended

/-- One turn of the system: a run that leaves no signing, in which no nonce is
    asked for once one signs. -/
def Turn (g : Signings) (run : List Event) (g' : Signings) : Prop :=
  Run Step g run g' ∧ Idle g'
    ∧ ∃ late early, run = late ++ early ∧ AsksNone late ∧ SignsNone early

section

variable {g g' : Signings} {run : List Event} {runs : List (List Event)} {key : String}
  {nonce : U64}

theorem not_live_of_idle (h : Idle g) (i : Nat) : ¬ g.Live i key nonce :=
  fun hlive => nomatch h i _ hlive

theorem turn_reachable (h : Turn g run g') (hg : Reachable g.session) : Reachable g'.session :=
  Run.invariant (I := fun g => Reachable g.session) h.1 hg (fun hI hs => step_reachable hs hI)

/-- Turns one after the other are a run. -/
theorem run_of_turns (h : Run Turn g runs g') : Run Step g runs.flatten g' := by
  induction h with
  | nil => exact Run.nil
  | cons _ hlast ih => exact ih.append hlast.1

theorem turns_keep (h : Run Turn g runs g') (hg : Reachable g.session) (hidle : Idle g) :
    Reachable g'.session ∧ Idle g' :=
  Run.invariant (I := fun g => Reachable g.session ∧ Idle g) h ⟨hg, hidle⟩
    (fun hI hturn => ⟨turn_reachable hturn hI.1, hturn.2.1⟩)

/-- **A nonce a turn signs at is spent** when the turn is over. -/
theorem turn_spends (h : Turn g run g') (hg : Reachable g.session)
    (hsigns : SignsAt run key nonce) : g'.session.Spent key nonce := by
  obtain ⟨hrun, -, late, early, rfl, hlate, hearly⟩ := h
  obtain ⟨i, hi⟩ := hsigns
  have hi : Event.signed i key nonce ∈ late :=
    (List.mem_append.mp hi).resolve_right (hearly i key nonce)
  obtain ⟨after, before, rfl⟩ := List.append_of_mem hi
  rw [List.append_assoc] at hrun
  obtain ⟨t, hbefore, hafter⟩ := hrun.split
  -- the nonce is spent right after the signature, and nothing is asked for since
  cases hbefore with
  | cons hrest hlast =>
      have ht : Reachable t.session :=
        Run.invariant (I := fun g => Reachable g.session) (hrest.cons hlast) hg
          (fun hI hs => step_reachable hs hI)
      have hspent : t.session.Spent key nonce := by
        cases hlast with
        | signed _ => exact spent_of_signed _ _ _
      refine run_spent hafter ht hspent ?_
      intro j o hmem
      exact hlate _ _ _ _ _ _ (List.mem_append_left _ hmem)

/-- **A spent nonce is not signed at** by a run that starts with no signing and does
    not name it. -/
theorem spent_signs_none (h : Run Step g run g') (hg : Reachable g.session)
    (hspent : g.session.Spent key nonce) (hidle : ∀ i, ¬ g.Live i key nonce)
    (hnames : ¬ NamesAt run key nonce) :
    (∀ i, ¬ g'.Live i key nonce) ∧ ¬ SignsAt run key nonce := by
  induction h with
  | nil => exact ⟨hidle, fun ⟨i, hi⟩ => absurd hi List.not_mem_nil⟩
  | @cons es e t u hrest hlast ih =>
      have hearlier : ¬ NamesAt es key nonce := by
        rintro ⟨i, reported, order, granted, hmem⟩
        exact hnames ⟨i, reported, order, granted, List.mem_cons_of_mem _ hmem⟩
      obtain ⟨hlive, hsigns⟩ := ih hearlier
      have hspent : t.session.Spent key nonce := by
        refine run_spent hrest hg hspent ?_
        intro i o hmem
        exact hearlier ⟨i, nonce, o, true, hmem⟩
      have hhere : ∀ i, e ≠ .signed i key nonce := by
        rintro i rfl
        cases hlast with
        | signed hi => exact hlive i hi
      refine ⟨?_, ?_⟩
      · intro i hi
        cases hlast with
        | @granted j k r m x o s hfree hslot =>
            rcases live_update.mp hi with ⟨rfl, hnew⟩ | ⟨-, hold⟩
            · -- a grant of a spent nonce names it
              cases hnew
              obtain ⟨rfl, hadmits, -⟩ := slot_ok hslot
              cases x with
              | none =>
                  obtain ⟨msg, s', hrefused⟩ := slot_refuses_spent hspent o
                  exact nomatch hslot.symm.trans hrefused
              | some named =>
                  cases hadmits
                  exact hnames ⟨i, nonce, o, true, List.mem_cons_self⟩
            · exact hlive i hold
        | refused => exact hlive i hi
        | signed hj =>
            rcases live_update.mp hi with ⟨-, hphase⟩ | ⟨-, hold⟩
            · cases hphase
            · exact hlive i hold
        | outcome hj =>
            rcases live_update.mp hi with ⟨-, hphase⟩ | ⟨-, hold⟩
            · cases hphase
            · exact hlive i hold
        | release hj hp =>
            rcases live_update.mp hi with ⟨-, hphase⟩ | ⟨-, hold⟩
            · cases hphase
            · exact hlive i hold
        | noteHead => exact hlive i hi
        | importState => exact hlive i hi
      · rintro ⟨i, hi⟩
        rcases List.mem_cons.mp hi with heq | hi
        · exact hhere i heq.symm
        · exact hsigns ⟨i, hi⟩

end

/-! ## A process is a run of turns -/

section

variable {clients : Nat → Client} {p p' : Process} {happening : Happening}
  {happenings : List Happening} {g : Signings}

theorem step_restores {saved : SigningSession} (hsaved : Reachable saved) :
    Step g (.importState saved.exportState)
      ⟨(g.session.importState saved.exportState).2, g.signing⟩ := by
  cases himport : g.session.importState saved.exportState with
  | mk res session => exact .importState hsaved himport

/-- **Whatever happens is a turn**, and the turn explains it. -/
theorem happening_turn (h : Happens clients p happening p') (hsession : g.session = p.session)
    (hidle : Idle g) (hroomy : Roomy g) :
    ∃ run g', Turn g run g' ∧ g'.session = p'.session ∧ Roomy g'
      ∧ Explained clients happening run := by
  cases h with
  | @called i entry =>
      have hmatched : Matched (signings (clients i).crates (entry.order (clients i))) []
          (entry.run (clients i)) (p.before i) g (Frame [] entry.named g) :=
        entry_matched (clients i) entry hsession hroomy
      obtain ⟨run, g', hrun, hstands, hframe, haccounts⟩ := hmatched
      refine ⟨run, g', ⟨hrun, ?_, hframe.parts⟩, hstands, run_roomy hrun hroomy, ?_,
        entry_once _ entry _, hframe.named⟩
      · intro j signing hj
        rcases hframe.others j List.not_mem_nil with hsame | ⟨-, key, nonce, hended⟩
        · exact hidle j signing (hsame ▸ hj)
        · rw [hended] at hj
          cases hj
          rfl
      · intro r hr hsubmits
        have hhands := haccounts r hr hsubmits
        rwa [List.append_nil] at hhands
  | @restored saved hsaved =>
      rw [← hsession]
      have hstep := step_restores (g := g) hsaved
      have hidle' : Idle ⟨(g.session.importState saved.exportState).2, g.signing⟩ :=
        fun i signing hi => hidle i signing hi
      refine ⟨_, _, ⟨Run.single hstep, hidle', [], _, rfl, asksNone_nil, ?_⟩, rfl,
        roomy_step hroomy hstep, rfl⟩
      intro i key nonce hmem
      cases List.mem_singleton.mp hmem
  | other =>
      exact ⟨[], g, ⟨Run.nil, hidle, [], [], rfl, asksNone_nil, signsNone_nil⟩, hsession, hroomy,
        rfl⟩

/-- A run of calls is a run of turns that ends as it does. -/
theorem happenings_turns (h : Run (Happens clients) p happenings p')
    (hsession : g.session = p.session)
    (hidle : Idle g) (hroomy : Roomy g) :
    ∃ runs g', Run Turn g runs g' ∧ g'.session = p'.session ∧ Idle g' ∧ Roomy g'
      ∧ List.Forall₂ (Explained clients) happenings runs := by
  induction h with
  | nil => exact ⟨[], g, Run.nil, hsession, hidle, hroomy, List.Forall₂.nil⟩
  | cons _ hlast ih =>
      obtain ⟨runs, g', hruns, hsession', hidle', hroomy', hall⟩ := ih
      obtain ⟨run, g'', hturn, hsession'', hroomy'', hexplained⟩ :=
        happening_turn hlast hsession' hidle' hroomy'
      exact ⟨run :: runs, g'', hruns.cons hturn, hsession'', hturn.2.1, hroomy'',
        List.Forall₂.cons hexplained hall⟩

theorem idle_fresh : Idle .fresh := fun _ _ h => nomatch h

theorem roomy_fresh : Roomy .fresh := ⟨0, fun _ _ => rfl⟩

/-- **Calls of entry points are signings.**  However the calls of a process follow
    one another, each over before the next begins, whatever the gateways, clocks, hooks
    and random sources of its clients answer, and wherever each call stops: what happens
    to the session is a run of the system of signings, one part for each call.  A call hands over at
    most one transaction, signed by its account at a nonce that its part of the run
    signs at, and with an order of the owner's at a nonce that is signed at too; it
    takes by name only the nonces its caller named; and when it is over no signing
    is left, so nothing it reserved stays reserved for it. -/
theorem calls_are_signings (h : Run (Happens clients) p happenings p') (hnew : p.session = .new) :
    ∃ runs g, List.Forall₂ (Explained clients) happenings runs
      ∧ Run Step .fresh runs.flatten g ∧ g.session = p'.session ∧ Idle g := by
  obtain ⟨runs, g, hruns, hsession, hidle, -, hall⟩ :=
    happenings_turns h (g := .fresh) hnew.symm idle_fresh roomy_fresh
  exact ⟨runs, g, hall, run_of_turns hruns, hsession, hidle⟩

/-- **No two calls hand over at one nonce.**  In every run of a process, where two
    calls each hand over a transaction signed at one nonce of one key, that nonce
    was asked for by name in the later of the two calls, or in one between. -/
theorem nonce_is_handed_over_once (h : Run (Happens clients) p happenings p')
    (hnew : p.session = .new) :
    ∃ runs, List.Forall₂ (Explained clients) happenings runs
      ∧ ∀ later second between first earlier,
        runs = later ++ second :: (between ++ first :: earlier) →
        ∀ key nonce, SignsAt first key nonce → SignsAt second key nonce →
          ∃ run ∈ second :: between, NamesAt run key nonce := by
  obtain ⟨runs, g, hruns, -, -, -, hall⟩ :=
    happenings_turns h (g := .fresh) hnew.symm idle_fresh roomy_fresh
  refine ⟨runs, hall, ?_⟩
  rintro later second between first earlier rfl key nonce hfirst hsecond
  by_contra hnone
  push Not at hnone
  -- the process up to the first of the two, to the second, and from there
  obtain ⟨t₃, hupto, -⟩ := hruns.split
  cases hupto with
  | @cons _ _ t₂ _ hbetween hturn =>
      obtain ⟨t₁, hfirst', hbetween⟩ := hbetween.split
      obtain ⟨hreachable, hidle⟩ := turns_keep hfirst' .new idle_fresh
      cases hfirst' with
      | @cons _ _ t₀ _ hearlier hturn' =>
          have hspent : t₁.session.Spent key nonce :=
            turn_spends hturn' (turns_keep hearlier .new idle_fresh).1 hfirst
          obtain ⟨hreachable', hidle'⟩ := turns_keep hbetween hreachable hidle
          have hspent' : t₂.session.Spent key nonce := by
            refine run_spent (run_of_turns hbetween) hreachable hspent ?_
            intro i o hmem
            obtain ⟨run, hrun, hmem⟩ := List.mem_flatten.mp hmem
            exact hnone run (List.mem_cons_of_mem _ hrun) ⟨i, nonce, o, true, hmem⟩
          exact (spent_signs_none hturn.1 hreachable' hspent' (not_live_of_idle hidle')
            (hnone second List.mem_cons_self)).2 hsecond

end

/-! ## Two transfers of one client -/

/-- A process that has just started. -/
def localProcess : Process := { session := .new, client := fun _ => freshState }

section

variable {client : Client} {seed : Bytes seedLen} {index : U64} {recipient : String}
  {amount : U64} {maxFee : U128} {expected : Option U64} {s s' : ClientState}

/-- A call of the entry point leaves what the transfer leaves. -/
theorem transfer_gives {done : SignedTransfer × Submit}
    (h : Gives (transferExpecting client seed index recipient amount maxFee expected) s done s') :
    Gives ((Entry.transfer seed index recipient amount maxFee expected).run client) s () s' :=
  bind_gives h ⟨rfl, rfl⟩

/-- What the transfer asks for, a call of the entry point asks for. -/
theorem transfer_emits {r : Request}
    (h : Emits (transferExpecting client seed index recipient amount maxFee expected) s r) :
    Emits ((Entry.transfer seed index recipient amount maxFee expected).run client) s r :=
  emits_first h

end

/-- A transfer of one unit that names no nonce. -/
def localTransfer : Entry := .transfer (filled 0) 0 "Qb" 1 7 none

/-- The transfer of the local client is explained by a run that signs at the nonce
    it hands over at. -/
theorem calls_are_signings_at_local : ∃ r run, r.Submits ∧ Hands pairCrates none r run := by
  have hrun : Run (Happens (fun _ => localClient)) localProcess
      [.called 0 localTransfer (localTransfer.run localClient freshState).events] _ :=
    Run.single .called
  obtain ⟨runs, g, hall, -⟩ := calls_are_signings hrun rfl
  have hcauses : Causes Request.Submits (localTransfer.run localClient) freshState :=
    bind_causes_first local_transfer
  obtain ⟨r, hr, hemits⟩ := hcauses
  cases hall with
  | @cons _ run _ _ hexplained _ => exact ⟨r, run, hr, hexplained.1 r hemits hr⟩

/-- A transfer of one unit that names the nonce of the one before. -/
def againTransfer : Entry := .transfer (filled 0) 0 "Qb" 1 7 (some 3)

/-- What a steady call hands over is signed at the nonce three of the local account. -/
theorem hands_three {r : Request} {run : List Event} (hbody : r.body = submitBody [9, 9, 9])
    (h : Hands steadyCrates none r run) : SignsAt run localKey 3 := by
  obtain ⟨seed, index, chain, body, genesis, rnd, wrapper, hsender, hsigned, hbody', hchain,
    hsigns, -⟩ := h
  have hbytes : List.replicate body.nonce.val (UInt8.ofNat body.chainId.val) = [9, 9, 9] := by
    have hwrapper := congrArg Wrapper.bytes (Option.some.inj hsigned)
    exact hwrapper.trans (submitBody_inj (hbody'.symm.trans hbody))
  have hnonce : body.nonce = 3 := Fin.ext (by simpa using congrArg List.length hbytes)
  have hlocal : chain = "Q-local" := by
    by_contra hother
    have height : body.chainId = 8 := hchain.trans (if_neg hother)
    rw [hnonce, height] at hbytes
    exact absurd hbytes (by decide)
  rw [hlocal, hnonce, hsender] at hsigns
  exact hsigns

/-- A call of a client happens, whatever it is. -/
theorem happens_called {clients : Nat → Client} {p : Process} {i : Nat} {u : ClientState}
    (entry : Entry) (hu : p.before i = u) :
    Happens clients p (.called i entry (entry.run (clients i) u).events)
      ⟨(entry.run (clients i) u).state.shared,
        Function.update p.client i (entry.run (clients i) u).state⟩ := by
  subst hu
  exact .called

/-- A client that is called again finds what its last call left. -/
theorem before_update {client : Nat → ClientState} {i : Nat} {u : ClientState} :
    Process.before ⟨u.shared, Function.update client i u⟩ i = u := by
  show { Function.update client i u i with shared := u.shared } = u
  rw [Function.update_self]

/-- Two transfers are handed over at one nonce, one after the other, and the second
    named it. -/
theorem nonce_is_handed_over_once_by_two : ∃ requests requests' first second,
    Explained (fun _ => steadyClient) (.called 0 localTransfer requests) first
      ∧ Explained (fun _ => steadyClient) (.called 0 againTransfer requests') second
      ∧ (∃ r ∈ requests, r.Submits) ∧ (∃ r ∈ requests', r.Submits)
      ∧ SignsAt first localKey 3 ∧ SignsAt second localKey 3 ∧ NamesAt second localKey 3 := by
  -- what the two calls find, and what each hands over
  obtain ⟨r, ⟨hr, hbody⟩, hemits⟩ := steady_first.1
  obtain ⟨r', ⟨hr', hbody'⟩, hemits'⟩ := steady_again.1
  have hafter : (localTransfer.run steadyClient freshState).state = afterTransfer freshState none :=
    (transfer_gives steady_first.2).2
  have hmem : r ∈ (localTransfer.run steadyClient freshState).events := transfer_emits hemits
  have hmem' : r' ∈ (againTransfer.run steadyClient
      (localTransfer.run steadyClient freshState).state).events := by
    rw [hafter]
    exact transfer_emits hemits'
  have hcalled : Happens (fun _ => steadyClient) localProcess _ _ :=
    happens_called (i := 0) (u := freshState) localTransfer rfl
  have hrun := (Run.single hcalled).cons (happens_called againTransfer before_update)
  obtain ⟨runs, hall, honce⟩ := nonce_is_handed_over_once hrun rfl
  obtain ⟨second, _, hsecond, hrest, rfl⟩ := List.forall₂_cons_left_iff.mp hall
  obtain ⟨first, _, hfirst, hnil, rfl⟩ := List.forall₂_cons_left_iff.mp hrest
  cases List.forall₂_nil_left_iff.mp hnil
  have hthree := hands_three hbody (hfirst.1 r hmem hr)
  have hthree' := hands_three hbody' (hsecond.1 r' hmem' hr')
  obtain ⟨run, hnames, hnamed⟩ := honce [] second [] first [] rfl localKey 3 hthree hthree'
  cases List.mem_singleton.mp hnames
  exact ⟨_, _, first, second, hfirst, hsecond, ⟨r, hmem, hr⟩, ⟨r', hmem', hr'⟩, hthree, hthree',
    hnamed⟩

end QCoreSharedSession
