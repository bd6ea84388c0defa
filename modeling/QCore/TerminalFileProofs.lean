import Mathlib
import QCore.MachineIntProofs
import QCore.ByteMemoryProofs
import QCore.FallibleProofs
import QCore.TraceProofs
import QCore.TransitionProofs
import QCore.JsonProofs
import QCore.WireProofs
import QCore.SessionProofs
import QCore.SessionStateProofs
import QCore.SessionSpentProofs
import QCore.ProcessRunProofs
import QCore.CratesProofs
import QCore.ClientProofs
import QCore.FinalitySafetyProofs
import QCore.RosterRunProofs
import QCore.ConfirmationProofs
import QCore.SigningProofs
import QCore.EntryPointProofs
import QCore.SubmissionProofs
import QCore.EntryRunProofs
import QCore.EntryStepProofs
import QCore.CallChangeProofs
import QCore.TerminalProofs

/-! # One session file, many runs

    Runs of the terminal follow one another and keep one session file.  Each is told
    anything, meets any gateway, and may be killed at any moment; what it leaves in
    the file is what it last stored there.

    A run that hands a transaction over has stored its nonce first, and every later
    run starts from what is stored.  So no two runs hand over transactions of one
    account at one nonce of one chain. -/

namespace QCoreTerminalFile

open QCoreMachineInt QCoreByteMemory QCoreFallible QCoreTrace QCoreTrace.Traced QCoreTransition
  QCoreJson QCoreWire QCoreSession QCoreSession.SigningSession QCoreProcessRun QCoreCrates
  QCoreClient QCoreClient.Client QCoreFinalitySafety QCoreRosterRun QCoreConfirmation QCoreSigning
  QCoreEntryPoint QCoreSubmission QCoreEntryStep QCoreCallChange QCoreTerminal
open QCoreEntryRun (Entry)

/-! ## What a call does to the nonces -/

/-- The session is still one that calls lead to, and what was spent is spent. -/
def Ages (s s' : ClientState) : Prop :=
  Reachable s.shared → Reachable s'.shared
    ∧ ∀ key nonce, s.shared.Spent key nonce → s'.shared.Spent key nonce

instance : Std.Refl Ages := ⟨fun _ h => ⟨h, fun _ _ hspent => hspent⟩⟩

instance : IsTrans ClientState Ages := ⟨by
  intro s t u h h' hs
  obtain ⟨ht, hkeeps⟩ := h hs
  obtain ⟨hu, hkeeps'⟩ := h' ht
  exact ⟨hu, fun key nonce hspent => hkeeps' key nonce (hkeeps key nonce hspent)⟩⟩

/-- A computation through which the nonces stay spent, also after what it hands over. -/
abbrev Keeps {α : Type} (m : ClientM α) (s : ClientState) : Prop :=
  Passes Ages Request.Submits Request.state m s

section

variable {self : Client} {s s' : ClientState}

theorem ages_of_shared (h : s'.shared = s.shared) : Ages s s' := by
  intro hs
  rw [h]
  exact ⟨hs, fun _ _ hspent => hspent⟩

/-- A call of the session that names no nonce keeps every nonce spent. -/
theorem ages_of_call (c : QCoreSession.Call)
    (hnames : ∀ key nonce order, c ≠ .slot key nonce (some nonce) order) :
    Ages s { s with shared := (s.shared.call c).2 } :=
  fun hs => ⟨Reachable.call c hs, fun key nonce hspent =>
    spent_call (reachable_acceptedPassed hs) hspent c (hnames key nonce)⟩

/-- So does every change when no nonce is named. -/
theorem ages_of_change (h : Change self [] s s') : Ages s s' := by
  cases h with
  | turned => exact ages_of_shared rfl
  | remembered => exact ages_of_shared rfl
  | pinned => exact ages_of_shared rfl
  | followed => exact ages_of_shared rfl
  | noted chain height wall => exact ages_of_call (.noteHead chain height wall) (fun _ _ _ => nofun)
  | slot key reported expected order names =>
      refine ages_of_call (.slot key reported expected order) ?_
      intro key' nonce order' heq
      cases heq
      exact absurd (names _ rfl) List.not_mem_nil
  | signed key nonce => exact ages_of_call (.signed key nonce) (fun _ _ _ => nofun)
  | outcome key nonce accepted =>
      exact ages_of_call (.outcome key nonce accepted) (fun _ _ _ => nofun)
  | released key nonce => exact ages_of_call (.release key nonce) (fun _ _ _ => nofun)

theorem ages_of_changes (h : Changes self [] s s') : Ages s s' := by
  induction h with
  | refl => exact ages_of_shared rfl
  | tail _ hlast ih => exact IsTrans.trans _ _ _ ih (ages_of_change hlast)

/-- A call that names no nonce keeps the nonces spent. -/
theorem entry_keeps (entry : Entry) (hnone : entry.named = []) : Keeps (entry.run self) s := by
  have halters := entry_alters self entry s
  rw [hnone] at halters
  exact halters.mono (fun _ _ => ages_of_changes)

/-- So does the call itself, whose value it drops. -/
theorem keeps_of_entry {α : Type} (call : ClientM α) (entry : Entry) (hnone : entry.named = [])
    (hrun : entry.run self = call >>= fun _ => pure ()) : Keeps call s := by
  have hkeeps : Keeps (entry.run self) s := entry_keeps entry hnone
  rw [hrun] at hkeeps
  exact passes_of_map hkeeps

variable {seed : Bytes seedLen} {index : U64} {maxFee : U128}

theorem transfer_keeps {recipient : String} {amount : U64} :
    Keeps (transferExpecting self seed index recipient amount maxFee none) s :=
  keeps_of_entry _ (.transfer seed index recipient amount maxFee none) rfl rfl

theorem register_keeps : Keeps (registerExpecting self seed index maxFee none) s :=
  keeps_of_entry _ (.register seed index maxFee none) rfl rfl

end

/-! ## A run from the session it loaded -/

section

variable {m : Machine} {args : List String} {options : Options} {self : Client} {entry : Entry}
  {session : SigningSession} {s t : ClientState}

/-- A session that is loaded is the client's. -/
theorem gives_loadSession (h : Loaded m session) :
    loadSession m freshState = ⟨.ok (), { freshState with shared := session }, []⟩ := by
  rw [loadSession]
  cases h with
  | nowhere hnone => rw [hnone]; rfl
  | missing hplace hread =>
      rw [hplace]
      simp only [hread]
      rfl
  | restored hplace hread himport =>
      rw [hplace]
      simp only [hread]
      show (⟨_, _, _⟩ : Ran _ _ _ _) = _
      simp only [freshState, himport]
      rfl

theorem saveSession_asks : Asks (saveSession m) :=
  within_bind within_read (fun _ => within_bind (reach_asks _) (fun _ => within_ofExcept _))

/-- What is done in a session after it was loaded. -/
def fromSession (m : Machine) (call : ClientM (SignedTransfer × Submit)) :
    ClientM (SignedTransfer × Submit) := do
  let result ← attempt call
  saveSession m
  result

/-- A call in a session begins from the loaded one. -/
theorem inSession_from {α : Type} {call : ClientM (SignedTransfer × Submit)}
    {f : SignedTransfer × Submit → ClientM α} (h : Loaded m session) :
    (inSession m call >>= f) freshState
      = (fromSession m call >>= f) { freshState with shared := session } := by
  have hfirst : inSession m call freshState
      = fromSession m call { freshState with shared := session } := bind_skip (gives_loadSession h)
  rw [bind_run, hfirst, ← bind_run]

/-- A call over a loaded session keeps what the call keeps. -/
theorem fromSession_keeps {call : ClientM (SignedTransfer × Submit)}
    {report : SignedTransfer × Submit → Except String (List String)} (h : Keeps call s) :
    Keeps (fromSession m call >>= fun answer => liftM (report answer)) s := by
  have hattempt : Keeps call.attempt s := ⟨h.ends, h.past⟩
  have hsave : Within Ages Request.Submits (saveSession m) := saveSession_asks.mono (by
    rintro s s' ⟨turn, rfl⟩
    exact ages_of_shared rfl)
  refine passes_bind ?_ (fun _ _ _ => (within_ofExcept _).passes)
  refine passes_bind hattempt (fun _ _ _ => ?_)
  exact passes_bind hsave.passes (fun _ _ _ => (within_ofExcept _).passes)

theorem wholeArg_reads {n : Nat} {text message : String} {v : Fin n}
    (h : ∃ w, wholeNumber text = some w ∧ w.val = v.val) : wholeArg text message = .ok v := by
  obtain ⟨w, hw, hval⟩ := h
  rw [wholeArg, hw, Option.bind_some, tryFrom_eq_some.mpr hval]
  rfl

/-- What a run leaves keeps the nonces spent that were spent in a state. -/
def KeptFrom {α : Type} (s : ClientState) (ran : Ran ClientState Request String α) : Prop :=
  Ages s ran.state ∧ ∀ r ∈ ran.events, r.Submits → Ages r.state ran.state

/-- From the session it loaded on, a run keeps the nonces spent. -/
theorem run_keeps (htold : Told m args options self entry) (hloaded : Loaded m session) :
    KeptFrom { freshState with shared := session } (run m args freshState) := by
  have hvalue : ∀ {α β : Type} {x : Except String α} {a : α} {f : α → ClientM β}, x = .ok a →
      (liftM x >>= f) freshState = f a freshState := by
    intro α β x a f hx
    exact bind_skip (by rw [hx]; rfl)
  have hkept : ∀ {call : ClientM (SignedTransfer × Submit)}
      {report : SignedTransfer × Submit → Except String (List String)},
      (∀ s, Keeps call s) → KeptFrom { freshState with shared := session }
        ((inSession m call >>= fun answer => liftM (report answer)) freshState) := by
    intro call report hcall
    rw [inSession_from hloaded]
    have hkeeps : Keeps (fromSession m call >>= fun answer => liftM (report answer))
        { freshState with shared := session } := fromSession_keeps (hcall _)
    exact ⟨hkeeps.ends, fun r hr hsubmits => hkeeps.past r hsubmits hr⟩
  cases htold with
  | @send rest more options self seed gateway source recipient amountText maxFeeText amount maxFee
      taken words seedRead amountRead maxFeeRead opened =>
      have hamount : (wholeArg amountText "the amount is not a number" : Except String U64)
          = .ok amount := wholeArg_reads amountRead
      have hmaxFee : (wholeArg maxFeeText "the max fee is not a number" : Except String U128)
          = .ok maxFee := wholeArg_reads ⟨maxFee, maxFeeRead, rfl⟩
      show KeptFrom _ (cmdSend m rest freshState)
      rw [cmdSend, hvalue taken, words]
      dsimp only
      rw [hvalue seedRead, hvalue hamount, hvalue hmaxFee, hvalue opened]
      exact hkept (fun _ => transfer_keeps)
  | @register rest more options self seed gateway source maxFeeText maxFee taken words seedRead
      maxFeeRead opened =>
      have hmaxFee : (wholeArg maxFeeText "the max fee is not a number" : Except String U128)
          = .ok maxFee := wholeArg_reads ⟨maxFee, maxFeeRead, rfl⟩
      show KeptFrom _ (cmdRegister m rest freshState)
      rw [cmdRegister, hvalue taken, words]
      dsimp only
      rw [hvalue seedRead, hvalue hmaxFee, hvalue opened]
      exact hkept (fun _ => register_keeps)

end

/-! ## Runs that share a file -/

/-- A run finds what is in the session file, unless the file cannot be read. -/
def Finds (m : Machine) (file : Option String) : Prop :=
  ∀ path, sessionPath m = some path → ∀ answer, m.readToString path = answer →
    answer = (match file with
      | some text => .ok text
      | none => .error .notFound) ∨ ∃ e, answer = .error (.other e)

/-- What a run hands over and leaves in the session file, wherever it is killed.  Of a
    run that was killed the machine is one it would have gone on with. -/
inductive Leaves (m : Machine) (args : List String) (file : Option String) :
    List Request → Option String → Prop
  | untouched : Leaves m args file [] file
  /-- The hook stored the session, and nothing was stored after it. -/
  | stored {r : Request} {handed : List Request} (submits : r.Submits)
      (emits : Emits (run m args) freshState r) (either : handed = [] ∨ handed = [r]) :
      Leaves m args file handed (some r.state.shared.exportState)
  /-- The session was stored at the end. -/
  | finished {options : Options} {self : Client} {entry : Entry} {session : SigningSession}
      {turn : Nat} (told : Told m args options self entry) (loaded : Loaded m session)
      (saved : writeSession m turn (run m args freshState).state.shared.exportState = .ok ()) :
      Leaves m args file ((run m args freshState).events.filter Request.Submits)
        (some (run m args freshState).state.shared.exportState)

/-- A run of the terminal, and what it handed over before it ended. -/
structure Done where
  machine : Machine
  args : List String
  handed : List Request

/-- Runs one after the other on one session file. -/
def Next (file : Option String) (done : Done) (file' : Option String) : Prop :=
  Finds done.machine file ∧ Leaves done.machine done.args file done.handed file'

/-- A transaction of a run is what the run was told, at a nonce of a sender on a
    chain. -/
def Uses (done : Done) (r : Request) (chain sender : String) (nonce : U64) : Prop :=
  ∃ options self entry session txBytes info genesis ask fee validUntil,
    Told done.machine done.args options self entry ∧ Loaded done.machine session
      ∧ r.body = submitBody txBytes
      ∧ AsAsked self entry txBytes genesis none ask nonce fee
          (self.crates.chainIdFromName info.chainId) validUntil
      ∧ Handed self { freshState with shared := session } sender r info genesis nonce
      ∧ info.chainId = chain
      ∧ self.crates.accountAddress (accountOf entry).1 (accountOf entry).2 = sender

section

variable {m : Machine} {self : Client} {info : NodeInfo} {genesis : Bytes 32} {done : Done}
  {log : List Done} {file file' : Option String} {r : Request} {chain sender : String}
  {nonce : U64} {session t : SigningSession}

/-! ## One run -/

theorem writeSession_place {turn : Nat} {text : String} (h : writeSession m turn text = .ok ()) :
    ∃ path, sessionPath m = some path := by
  obtain ⟨path, hpath, -⟩ := bind_ok h
  exact ⟨path, okOr_ok hpath⟩

/-- What is handed over was not spent when the session was loaded, and is spent by
    then. -/
theorem handed_spends (hs : Reachable session)
    (h : Handed self { freshState with shared := session } sender r info genesis nonce) :
    Reachable r.state.shared
      ∧ r.state.shared.Spent (accountSlotKey info.chainId sender) nonce
      ∧ (∀ key nonce, session.Spent key nonce → r.state.shared.Spent key nonce)
      ∧ ¬ session.Spent (accountSlotKey info.chainId sender) nonce := by
  obtain ⟨wall, reported, granted, hslot, hstate⟩ := h.granted
  have hnoted : Reachable (session.noteHead info.chainId info.headHeight wall) :=
    Reachable.call (.noteHead info.chainId info.headHeight wall) hs
  have hkept : ∀ key nonce, session.Spent key nonce →
      (session.noteHead info.chainId info.headHeight wall).Spent key nonce :=
    fun key nonce hspent => spent_call (reachable_acceptedPassed hs) hspent
      (.noteHead info.chainId info.headHeight wall) (fun _ => nofun)
  have hgranted : Reachable granted := reachable_slot hnoted hslot
  rw [hstate]
  refine ⟨reachable_signedAll _ hgranted,
    spent_signedAll _ hgranted (Or.inr List.mem_cons_self), fun key nonce hspent => ?_,
    fun hspent => ?_⟩
  · refine spent_signedAll _ hgranted (Or.inl (spent_slot_ok (hkept key nonce hspent) hslot ?_))
    exact nofun
  · obtain ⟨rfl, -, -⟩ := slot_ok hslot
    obtain ⟨msg, _, hrefused⟩ := slot_refuses_spent (hkept _ _ hspent) false
    exact nomatch hslot.symm.trans hrefused

/-- A run that keeps a session file starts from what is in it. -/
theorem loaded_keeps (hfinds : Finds m file) (hplace : ∃ path, sessionPath m = some path)
    (hloaded : Loaded m session) (ht : Reachable t)
    (hfile : file = some t.exportState ∨ file = none ∧ t = new) :
    Reachable session ∧ ∀ key nonce, t.Spent key nonce → session.Spent key nonce := by
  cases hloaded with
  | nowhere hnone =>
      obtain ⟨path, hpath⟩ := hplace
      exact nomatch hnone.symm.trans hpath
  | missing hpath hread =>
      rcases hfinds _ hpath _ hread with hfound | ⟨e, hother⟩
      · rcases hfile with rfl | ⟨-, rfl⟩
        · cases hfound
        · exact ⟨.new, fun _ _ hspent => hspent⟩
      · cases hother
  | restored hpath hread himport =>
      rcases hfinds _ hpath _ hread with hfound | ⟨e, hother⟩
      · rcases hfile with rfl | ⟨rfl, -⟩
        · cases hfound
          have hrestored := restored_of_importState himport
          have hreachable := Reachable.importState .new ht
          rw [himport] at hreachable
          exact ⟨hreachable, fun _ _ hspent => spent_restored hrestored (Or.inr hspent)⟩
        · cases hfound
      · cases hother

/-- What is handed over in a run was caused by it, and is one transaction at most. -/
theorem next_handed (h : Next file done file') :
    done.handed.length ≤ 1
      ∧ ∀ r ∈ done.handed, r.Submits ∧ Emits (run done.machine done.args) freshState r := by
  obtain ⟨m, args, handed⟩ := done
  have hleaves : Leaves m args file handed file' := h.2
  cases hleaves with
  | untouched => exact ⟨Nat.zero_le 1, fun _ hr => absurd hr List.not_mem_nil⟩
  | stored submits emits either =>
      rcases either with rfl | rfl
      · exact ⟨Nat.zero_le 1, fun _ hr => absurd hr List.not_mem_nil⟩
      · refine ⟨le_refl 1, fun r hr => ?_⟩
        cases List.mem_singleton.mp hr
        exact ⟨submits, emits⟩
  | finished told loaded saved =>
      refine ⟨?_, fun r hr => ?_⟩
      · rw [← List.countP_eq_length_filter]
        exact run_once args freshState
      · obtain ⟨hmem, hsubmits⟩ := List.mem_filter.mp hr
        exact ⟨of_decide_eq_true hsubmits, hmem⟩

/-- Every transaction of a run uses a nonce. -/
theorem uses_of_emits (hr : r.Submits) (h : Emits (run done.machine done.args) freshState r) :
    ∃ chain sender nonce, Uses done r chain sender nonce := by
  obtain ⟨options, self, entry, session, htold, hloaded, txBytes, info, genesis, ask, nonce, fee,
    validUntil, hbody, hasked, hhanded⟩ := emits_run hr h
  exact ⟨_, _, nonce, options, self, entry, session, txBytes, info, genesis, ask, fee, validUntil,
    htold, hloaded, hbody, hasked, hhanded, rfl, rfl⟩

/-- A run that uses a nonce has a session file. -/
theorem uses_place (h : Uses done r chain sender nonce) :
    ∃ path, sessionPath done.machine = some path := by
  obtain ⟨options, self, entry, session, txBytes, info, genesis, ask, fee, validUntil, htold, -, -,
    -, hhanded, -, -⟩ := h
  obtain ⟨gateway, hopened⟩ := told_opens htold
  obtain ⟨turn, hsaved⟩ := hhanded.saved _ (buildClient_ok hopened).2.1
  exact writeSession_place hsaved

/-! ## The file remembers -/

/-- The file holds a session in which every nonce a run handed over at is spent. -/
def Remembers (log : List Done) (file : Option String) (t : SigningSession) : Prop :=
  Reachable t ∧ (file = some t.exportState ∨ file = none ∧ t = new)
    ∧ ∀ done ∈ log, ∀ r ∈ done.handed, ∀ chain sender nonce, Uses done r chain sender nonce →
      t.Spent (accountSlotKey chain sender) nonce

/-- What a run uses was not spent in the file it found. -/
theorem uses_unspent (h : Remembers log file t) (hnext : Next file done file')
    (huses : Uses done r chain sender nonce) : ¬ t.Spent (accountSlotKey chain sender) nonce := by
  have hplace := uses_place huses
  obtain ⟨options, self, entry, session, txBytes, info, genesis, ask, fee, validUntil, -, hloaded,
    -, -, hhanded, rfl, rfl⟩ := huses
  obtain ⟨hreachable, hkept⟩ := loaded_keeps hnext.1 hplace hloaded h.1 h.2.1
  exact fun hspent => (handed_spends hreachable hhanded).2.2.2 (hkept _ _ hspent)

/-- What a run uses is spent when it is handed over, with all that was spent in the
    file. -/
theorem uses_spent (h : Remembers log file t) (hnext : Next file done file')
    (huses : Uses done r chain sender nonce) :
    Reachable r.state.shared ∧ r.state.shared.Spent (accountSlotKey chain sender) nonce
      ∧ ∀ key nonce, t.Spent key nonce → r.state.shared.Spent key nonce := by
  have hplace := uses_place huses
  obtain ⟨options, self, entry, session, txBytes, info, genesis, ask, fee, validUntil, -, hloaded,
    -, -, hhanded, rfl, rfl⟩ := huses
  obtain ⟨hreachable, hkept⟩ := loaded_keeps hnext.1 hplace hloaded h.1 h.2.1
  obtain ⟨hthen, hspent, hsince, -⟩ := handed_spends hreachable hhanded
  exact ⟨hthen, hspent, fun _ _ hold => hsince _ _ (hkept _ _ hold)⟩

/-- **One run**: the file remembers what it handed over too. -/
theorem remembers_next (h : Remembers log file t) (hnext : Next file done file') :
    ∃ t', Remembers (done :: log) file' t' := by
  obtain ⟨ht, hfile, hpast⟩ := h
  have hremember : ∀ {t' : SigningSession} {text : String}, Reachable t' → text = t'.exportState →
      (∀ key nonce, t.Spent key nonce → t'.Spent key nonce) →
      (∀ r ∈ done.handed, ∀ chain sender nonce, Uses done r chain sender nonce →
        t'.Spent (accountSlotKey chain sender) nonce) →
      Remembers (done :: log) (some text) t' := by
    rintro t' _ hreachable rfl hkept hnew
    refine ⟨hreachable, Or.inl rfl, fun d hd r hr chain sender nonce huses => ?_⟩
    rcases List.mem_cons.mp hd with rfl | hd
    · exact hnew r hr chain sender nonce huses
    · exact hkept _ _ (hpast d hd r hr chain sender nonce huses)
  obtain ⟨m, args, handed⟩ := done
  have hleaves : Leaves m args file handed file' := hnext.2
  cases hleaves with
  | untouched =>
      refine ⟨t, ht, hfile, fun d hd r hr chain sender nonce huses => ?_⟩
      rcases List.mem_cons.mp hd with rfl | hd
      · exact absurd hr List.not_mem_nil
      · exact hpast d hd r hr chain sender nonce huses
  | @stored r _ submits emits either =>
      have hused : ∃ chain sender nonce, Uses ⟨m, args, handed⟩ r chain sender nonce :=
        uses_of_emits submits emits
      obtain ⟨chain, sender, nonce, huses⟩ := hused
      obtain ⟨hreachable, -, hkept⟩ := uses_spent ⟨ht, hfile, hpast⟩ hnext huses
      refine ⟨_, hremember hreachable rfl hkept (fun r' hr' chain sender nonce huses => ?_)⟩
      have hone : r' ∈ [r] := by
        rcases either with rfl | rfl
        · exact absurd hr' List.not_mem_nil
        · exact hr'
      cases List.mem_singleton.mp hone
      exact (uses_spent ⟨ht, hfile, hpast⟩ hnext huses).2.1
  | finished told loaded saved =>
      obtain ⟨hreachable, hkept⟩ :=
        loaded_keeps hnext.1 (writeSession_place saved) loaded ht hfile
      obtain ⟨hages, hlater⟩ := run_keeps told loaded
      obtain ⟨hend, hsince⟩ := hages hreachable
      refine ⟨_, hremember hend rfl (fun key nonce hold => hsince _ _ (hkept _ _ hold)) ?_⟩
      intro r hr chain sender nonce huses
      obtain ⟨hmem, hsubmits⟩ := List.mem_filter.mp hr
      obtain ⟨hthen, hspent, -⟩ := uses_spent ⟨ht, hfile, hpast⟩ hnext huses
      exact (hlater r hmem (of_decide_eq_true hsubmits) hthen).2 _ _ hspent

/-- **A nonce is used once.**  However runs of the terminal that keep one session file
    follow one another, whatever each is told and meets, and wherever each is killed:
    a run hands over one transaction at most, at a nonce of its account on its chain,
    and no later run hands one over at that nonce of that account on that chain. -/
theorem no_run_uses_a_nonce_again (h : Run Next none log file) :
    (∀ done ∈ log, done.handed.length ≤ 1
        ∧ ∀ r ∈ done.handed, ∃ chain sender nonce, Uses done r chain sender nonce)
      ∧ log.Pairwise (fun later earlier => ∀ r ∈ earlier.handed, ∀ r' ∈ later.handed,
        ∀ chain sender nonce, Uses earlier r chain sender nonce →
          ¬ Uses later r' chain sender nonce) := by
  suffices hall : (∃ t, Remembers log file t) ∧ (∀ done ∈ log, done.handed.length ≤ 1
      ∧ ∀ r ∈ done.handed, ∃ chain sender nonce, Uses done r chain sender nonce)
      ∧ log.Pairwise (fun later earlier => ∀ r ∈ earlier.handed, ∀ r' ∈ later.handed,
        ∀ chain sender nonce, Uses earlier r chain sender nonce →
          ¬ Uses later r' chain sender nonce) from hall.2
  induction h with
  | nil =>
      refine ⟨⟨new, .new, Or.inr ⟨rfl, rfl⟩, ?_⟩, ?_, List.Pairwise.nil⟩
      · exact fun _ hd => absurd hd List.not_mem_nil
      · exact fun _ hd => absurd hd List.not_mem_nil
  | @cons log done file file' hrest hnext ih =>
      obtain ⟨⟨t, hremembers⟩, huses, hpairs⟩ := ih
      refine ⟨remembers_next hremembers hnext, fun d hd => ?_, hpairs.cons ?_⟩
      · rcases List.mem_cons.mp hd with rfl | hd
        · obtain ⟨hone, hcaused⟩ := next_handed hnext
          exact ⟨hone, fun r hr => uses_of_emits (hcaused r hr).1 (hcaused r hr).2⟩
        · exact huses d hd
      · intro earlier hearlier r hr r' hr' chain sender nonce hfirst hsecond
        exact uses_unspent hremembers hnext hsecond
          (hremembers.2.2 earlier hearlier r hr chain sender nonce hfirst)

end

/-! ## A transfer and the next run -/

/-- A run hands its transfer over and is killed, and no run that comes next uses its
    nonce. -/
theorem no_run_uses_a_nonce_again_at_local : ∃ done r file chain sender nonce,
    r ∈ done.handed ∧ Uses done r chain sender nonce ∧ ∀ later file', Next file later file' →
      ∀ r' ∈ later.handed, ¬ Uses later r' chain sender nonce := by
  obtain ⟨r, hr, hemits⟩ := localMachine_sends
  have hnext : Next none ⟨localMachine, sendArgs, [r]⟩ (some r.state.shared.exportState) := by
    refine ⟨?_, Leaves.stored hr hemits (Or.inr rfl)⟩
    rintro path - answer rfl
    exact Or.inl rfl
  have hmem : r ∈ [r] := List.mem_singleton.mpr rfl
  obtain ⟨huses, -⟩ := no_run_uses_a_nonce_again (Run.single hnext)
  obtain ⟨chain, sender, nonce, hused⟩ := (huses _ List.mem_cons_self).2 r hmem
  refine ⟨_, r, some r.state.shared.exportState, chain, sender, nonce, hmem, hused, ?_⟩
  intro later file' hlater r' hr'
  obtain ⟨-, hpairs⟩ := no_run_uses_a_nonce_again ((Run.single hnext).cons hlater)
  exact (List.pairwise_cons.mp hpairs).1 _ List.mem_cons_self r hmem r' hr' chain sender nonce hused

end QCoreTerminalFile
