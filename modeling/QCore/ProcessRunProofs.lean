import Mathlib
import QCore.TransitionProofs
import QCore.SessionSpentProofs

/-! # Process runs and the saved session

    A process keeps its session in memory and saves it through its signed hook.
    A submission goes through fixed stages: every nonce it carries is marked
    signed, the hook is called with the exported session, and only when the hook
    has succeeded is the transaction handed to submit; the outcome is noted
    last.  A process may crash between any two steps, which loses everything but
    the last text its hook stored; the next process restores that text.

    So the stored text always knows of a nonce before the network does: a nonce
    that was ever handed to submit is spent in the text and in every session
    restored from it, until a caller names that nonce. -/

namespace QCoreProcessRun

open QCoreMachineInt QCoreTransition QCoreSession QCoreSession.SigningSession

/-! ## The system -/

/-- How far a submission got, with the nonces its transaction carries. -/
inductive Submission
  | idle
  | signed (slots : List (String × U64))
  | saved (slots : List (String × U64))
  | submitted (slots : List (String × U64))

/-- A process between its start and its end. -/
structure Process where
  session : SigningSession
  /-- The reservations the signings in progress hold. -/
  reserved : List (String × U64)
  submission : Submission

/-- The text last stored, and the process that runs, if any. -/
structure World where
  stored : Option String
  process : Option Process

/-- No process runs, and nothing is stored. -/
def World.empty : World := ⟨none, none⟩

/-- What happens to a process. -/
inductive Event
  | start
  | crash
  | slot (key : String) (reported : U64) (expected : Option U64) (order : Bool) (granted : Bool)
  | noteHead (chain : String) (height wallSecs : U64)
  | release (key : String) (slot : U64)
  | signed (slots : List (String × U64))
  | hookStored
  | hookFailed (stored : Bool)
  | submit (slots : List (String × U64))
  | submitFailed
  | outcome (accepted : Bool)
  | save

/-- The session a process starts with: a fresh one, or one that restored the
    stored text. -/
def World.restored (w : World) : SigningSession :=
  match w.stored with
  | none => new
  | some text => (new.importState text).2

/-- One step of the process that runs, or its crash, or the next one's start.
    The gateway decides what nonce a slot call reports and what a submission
    comes to; the hook may fail, before or after it stored its text. -/
inductive Step : World → Event → World → Prop
  | start {w : World} (hdown : w.process = none) :
      Step w .start ⟨w.stored, some ⟨w.restored, [], .idle⟩⟩
  | crash {w : World} : Step w .crash ⟨w.stored, none⟩
  | granted {w : World} {s s' : SigningSession} {l : List (String × U64)} {k : String}
      {r n : U64} {e : Option U64} {o : Bool} (hup : w.process = some ⟨s, l, .idle⟩)
      (hslot : s.slot k r e o = (.ok n, s')) :
      Step w (.slot k r e o true) ⟨w.stored, some ⟨s', (k, n) :: l, .idle⟩⟩
  | refused {w : World} {s s' : SigningSession} {l : List (String × U64)} {k : String}
      {r : U64} {e : Option U64} {o : Bool} {msg : String}
      (hup : w.process = some ⟨s, l, .idle⟩) (hslot : s.slot k r e o = (.error msg, s')) :
      Step w (.slot k r e o false) ⟨w.stored, some ⟨s', l, .idle⟩⟩
  | noteHead {w : World} {s : SigningSession} {l : List (String × U64)} {c : String}
      {h t : U64} (hup : w.process = some ⟨s, l, .idle⟩) :
      Step w (.noteHead c h t) ⟨w.stored, some ⟨s.noteHead c h t, l, .idle⟩⟩
  | release {w : World} {s : SigningSession} {l : List (String × U64)} {k : String} {n : U64}
      (hup : w.process = some ⟨s, l, .idle⟩) (hmem : (k, n) ∈ l) :
      Step w (.release k n) ⟨w.stored, some ⟨s.release k n, l.erase (k, n), .idle⟩⟩
  | signed {w : World} {s : SigningSession} {l slots : List (String × U64)}
      (hup : w.process = some ⟨s, l, .idle⟩) (hgranted : ∀ p ∈ slots, p ∈ l) :
      Step w (.signed slots) ⟨w.stored, some ⟨s.signedAll slots, l, .signed slots⟩⟩
  | hookStored {w : World} {s : SigningSession} {l slots : List (String × U64)}
      (hup : w.process = some ⟨s, l, .signed slots⟩) :
      Step w .hookStored ⟨some s.exportState, some ⟨s, l, .saved slots⟩⟩
  | hookFailed {w : World} {s : SigningSession} {l slots : List (String × U64)} {b : Bool}
      (hup : w.process = some ⟨s, l, .signed slots⟩) :
      Step w (.hookFailed b)
        ⟨if b then some s.exportState else w.stored, some ⟨s, l, .idle⟩⟩
  | submit {w : World} {s : SigningSession} {l slots : List (String × U64)}
      (hup : w.process = some ⟨s, l, .saved slots⟩) :
      Step w (.submit slots) ⟨w.stored, some ⟨s, l, .submitted slots⟩⟩
  | submitFailed {w : World} {s : SigningSession} {l slots : List (String × U64)}
      (hup : w.process = some ⟨s, l, .submitted slots⟩) :
      Step w .submitFailed ⟨w.stored, some ⟨s, l, .idle⟩⟩
  | outcome {w : World} {s : SigningSession} {l slots : List (String × U64)} {accepted : Bool}
      (hup : w.process = some ⟨s, l, .submitted slots⟩) :
      Step w (.outcome accepted)
        ⟨w.stored, some ⟨s.outcomeAll slots accepted, l, .idle⟩⟩
  | save {w : World} {s : SigningSession} {l : List (String × U64)}
      (hup : w.process = some ⟨s, l, .idle⟩) :
      Step w .save ⟨some s.exportState, some ⟨s, l, .idle⟩⟩

/-! ## What is stored -/

/-- The text is one some reachable session exported, which had spent the nonces. -/
def StoredSpent (stored : Option String) (slots : List (String × U64)) : Prop :=
  ∃ t, Reachable t ∧ stored = some t.exportState ∧ ∀ p ∈ slots, t.Spent p.1 p.2

/-- What every step keeps: sessions are reachable, a stored text was exported
    from a reachable session, and a submission's nonces are held from the moment
    they are marked until the hook returned, and spent in the stored text from
    then on. -/
structure Sound (w : World) : Prop where
  session : ∀ p, w.process = some p → Reachable p.session
  stored : w.stored = none ∨ StoredSpent w.stored []
  held : ∀ s l slots, w.process = some ⟨s, l, .signed slots⟩ →
    ∀ p ∈ slots, s.isHeld p.1 p.2 = true
  saved : ∀ s l slots, w.process = some ⟨s, l, .saved slots⟩ →
    StoredSpent w.stored slots ∧ ∀ p ∈ slots, s.Spent p.1 p.2

/-- A session that is restored can be reached. -/
theorem reachable_restored {w : World} (h : w.stored = none ∨ StoredSpent w.stored []) :
    Reachable w.restored := by
  rw [World.restored]
  rcases h with hnone | ⟨t, ht, hstored, -⟩
  · rw [hnone]; exact .new
  · rw [hstored]; exact .importState .new ht

theorem storedSpent_nil {stored : Option String} {slots : List (String × U64)}
    (h : StoredSpent stored slots) : StoredSpent stored [] := by
  obtain ⟨t, ht, hstored, -⟩ := h
  exact ⟨t, ht, hstored, fun p hp => absurd hp List.not_mem_nil⟩

/-- The text a reachable session exports. -/
theorem storedSpent_export {s : SigningSession} {slots : List (String × U64)}
    (hs : Reachable s) (h : ∀ p ∈ slots, s.Spent p.1 p.2) :
    StoredSpent (some s.exportState) slots := ⟨s, hs, rfl, h⟩

/-- After a request for a nonce the session can be reached. -/
theorem reachable_slot {s s' : SigningSession} {k : String} {r : U64} {e : Option U64}
    {o : Bool} {res : Except String U64} (hs : Reachable s)
    (h : s.slot k r e o = (res, s')) : Reachable s' := by
  have := Reachable.call (.slot k r e o) hs
  rw [call, h] at this
  exact this

/-- A world whose process is idle is sound when its session and its text are. -/
theorem sound_idle {stored : Option String} {s : SigningSession} {l : List (String × U64)}
    (hs : Reachable s) (hstored : stored = none ∨ StoredSpent stored []) :
    Sound ⟨stored, some ⟨s, l, .idle⟩⟩ := by
  refine ⟨?_, hstored, ?_, ?_⟩
  · intro p hp; cases hp; exact hs
  · intro s' l' slots hp; cases hp
  · intro s' l' slots hp; cases hp

/-- Each step keeps what is stored in step with what was signed for. -/
theorem sound_step {w w' : World} {e : Event} (h : Sound w) (hstep : Step w e w') :
    Sound w' := by
  cases hstep with
  | start hdown => exact sound_idle (reachable_restored h.stored) h.stored
  | crash => exact ⟨nofun, h.stored, nofun, nofun⟩
  | granted hup hslot => exact sound_idle (reachable_slot (h.session _ hup) hslot) h.stored
  | refused hup hslot => exact sound_idle (reachable_slot (h.session _ hup) hslot) h.stored
  | @noteHead s l c height t hup =>
      exact sound_idle (Reachable.call (.noteHead c height t) (h.session _ hup)) h.stored
  | @release s l k n hup hmem =>
      exact sound_idle (Reachable.call (.release k n) (h.session _ hup)) h.stored
  | @signed s l slots hup hgranted =>
      refine ⟨?_, h.stored, ?_, ?_⟩
      · intro p hp; cases hp; exact reachable_signedAll slots (h.session _ hup)
      · intro s' l' slots' hp; cases hp
        exact fun p hp => isHeld_signedAll slots (Or.inr hp)
      · intro s' l' slots' hp; cases hp
  | @hookStored s l slots hup =>
      have hspent : ∀ p ∈ slots, s.Spent p.1 p.2 :=
        fun p hp => Or.inl (h.held s l slots hup p hp)
      have hexport := storedSpent_export (h.session _ hup) hspent
      refine ⟨?_, Or.inr (storedSpent_nil hexport), ?_, ?_⟩
      · intro p hp; cases hp; exact (h.session _ hup :)
      · intro s' l' slots' hp; cases hp
      · intro s' l' slots' hp; cases hp
        exact ⟨hexport, hspent⟩
  | @hookFailed s l slots b hup =>
      refine sound_idle (h.session _ hup) ?_
      cases b with
      | false => exact h.stored
      | true => exact Or.inr (storedSpent_export (h.session _ hup) (fun p hp => nomatch hp))
  | submit hup =>
      refine ⟨?_, h.stored, ?_, ?_⟩
      · intro p hp; cases hp; exact (h.session _ hup :)
      · intro s' l' slots' hp; cases hp
      · intro s' l' slots' hp; cases hp
  | submitFailed hup => exact sound_idle (h.session _ hup) h.stored
  | @outcome s l slots accepted hup =>
      exact sound_idle (reachable_outcomeAll slots accepted (h.session _ hup)) h.stored
  | save hup =>
      exact sound_idle (h.session _ hup)
        (Or.inr (storedSpent_export (h.session _ hup) (fun p hp => nomatch hp)))

theorem run_sound {es : List Event} {w : World} (h : Run Step .empty es w) : Sound w :=
  Run.invariant h ⟨nofun, Or.inl rfl, nofun, nofun⟩ sound_step

/-! ## A submitted nonce outlives every crash -/

/-- The nonce is spent in the stored text and in the process that runs. -/
structure Durable (k : String) (n : U64) (w : World) : Prop where
  memory : ∀ p, w.process = some p → p.session.Spent k n
  stored : StoredSpent w.stored [(k, n)]

/-- What is spent in the session and in the stored text is durable. -/
theorem durable_of_process {k : String} {n : U64} {stored : Option String} {p : Process}
    (hmem : p.session.Spent k n) (hstored : StoredSpent stored [(k, n)]) :
    Durable k n ⟨stored, some p⟩ := by
  refine ⟨?_, hstored⟩
  intro q hq
  cases hq
  exact hmem

/-- **One step keeps a durable nonce durable**, unless it grants it by name. -/
theorem durable_step {k : String} {n : U64} {w w' : World} {e : Event} (hw : Sound w)
    (h : Durable k n w) (hstep : Step w e w') (hname : ∀ o, e ≠ .slot k n (some n) o true) :
    Durable k n w' := by
  have hcall : ∀ {s l sub} (c : Call), w.process = some ⟨s, l, sub⟩ →
      (∀ o, c ≠ .slot k n (some n) o) → (s.call c).2.Spent k n := by
    intro s l sub c hup hc
    exact spent_call (reachable_acceptedPassed (hw.session _ hup)) (h.memory _ hup) c hc
  have hexport : ∀ {s l sub}, w.process = some ⟨s, l, sub⟩ →
      StoredSpent (some s.exportState) [(k, n)] := by
    intro s l sub hup
    refine storedSpent_export (hw.session _ hup) ?_
    intro p hp
    rw [List.mem_singleton] at hp
    rw [hp]
    exact h.memory _ hup
  cases hstep with
  | start hdown =>
      -- a process that starts reads the stored text, which has the nonce spent
      obtain ⟨t, ht, hstored, hspent⟩ := h.stored
      refine durable_of_process ?_ h.stored
      show (World.restored w).Spent k n
      rw [World.restored, hstored]
      exact spent_restored (importState_restored new t)
        (Or.inr (hspent (k, n) List.mem_cons_self))
  | crash => exact ⟨nofun, h.stored⟩
  | @granted s s' l k' r m e o hup hslot =>
      refine durable_of_process (spent_slot_ok (h.memory _ hup) hslot ?_) h.stored
      rintro ⟨rfl, rfl, rfl⟩
      exact hname o rfl
  | @refused s s' l k' r e o msg hup hslot =>
      exact durable_of_process (spent_slot_error
        (reachable_acceptedPassed (hw.session _ hup)) (h.memory _ hup) hslot) h.stored
  | @noteHead s l c height t hup =>
      exact durable_of_process (hcall (.noteHead c height t) hup (fun _ => nofun)) h.stored
  | @release s l k' m hup hmem =>
      exact durable_of_process (hcall (.release k' m) hup (fun _ => nofun)) h.stored
  | @signed s l slots hup hgranted =>
      exact durable_of_process
        (spent_signedAll slots (hw.session _ hup) (Or.inl (h.memory _ hup))) h.stored
  | hookStored hup => exact durable_of_process (h.memory _ hup :) (hexport hup)
  | @hookFailed s l slots b hup =>
      -- a hook that fails may have stored the text before it did
      cases b with
      | false => exact durable_of_process (h.memory _ hup :) h.stored
      | true => exact durable_of_process (h.memory _ hup :) (hexport hup)
  | submit hup => exact durable_of_process (h.memory _ hup :) h.stored
  | submitFailed hup => exact durable_of_process (h.memory _ hup :) h.stored
  | @outcome s l slots accepted hup =>
      exact durable_of_process
        (spent_outcomeAll slots accepted (hw.session _ hup) (h.memory _ hup)) h.stored
  | save hup => exact durable_of_process (h.memory _ hup :) (hexport hup)

/-- Handing a transaction to submit makes its nonces durable. -/
theorem durable_submit {k : String} {n : U64} {w w' : World} {slots : List (String × U64)}
    (hw : Sound w) (hstep : Step w (.submit slots) w') (hmem : (k, n) ∈ slots) :
    Durable k n w' := by
  cases hstep with
  | submit hup =>
      obtain ⟨⟨t, ht, hstored, hspent⟩, hmemory⟩ := hw.saved _ _ _ hup
      refine ⟨?_, t, ht, hstored, ?_⟩
      · intro p hp
        cases hp
        exact hmemory (k, n) hmem
      · intro p hp
        rw [List.mem_singleton] at hp
        rw [hp]
        exact hspent (k, n) hmem

/-- Only the hook leads to a saved submission. -/
theorem step_to_saved {w w' : World} {e : Event} {s : SigningSession}
    {l slots : List (String × U64)} (hstep : Step w e w')
    (h : w'.process = some ⟨s, l, .saved slots⟩) :
    e = .hookStored ∧ w.process = some ⟨s, l, .signed slots⟩ := by
  cases hstep <;> cases h
  case hookStored hup => exact ⟨rfl, hup⟩

/-- Only marking nonces leads to a signed submission. -/
theorem step_to_signed {w w' : World} {e : Event} {s : SigningSession}
    {l slots : List (String × U64)} (hstep : Step w e w')
    (h : w'.process = some ⟨s, l, .signed slots⟩) : e = .signed slots := by
  cases hstep <;> cases h
  case signed hgranted hup => rfl

/-- A submission reaches the network right after its hook stored the session,
    and the hook is called right after its nonces are marked. -/
theorem submit_follows_hook {es : List Event} {w : World} {slots : List (String × U64)}
    (h : Run Step .empty (.submit slots :: es) w) :
    ∃ es', es = .hookStored :: .signed slots :: es' := by
  cases h with
  | cons hsaved hsubmit =>
      cases hsubmit with
      | submit hup =>
          cases hsaved with
          | nil => exact nomatch hup
          | cons hmarked hhook =>
              obtain ⟨rfl, hup'⟩ := step_to_saved hhook hup
              cases hmarked with
              | nil => exact nomatch hup'
              | cons _ hsigned => exact ⟨_, by rw [step_to_signed hsigned hup']⟩

/-- **No crash forgets a submitted nonce.**  In every sequence of process runs,
    each stopped by a crash at any step and followed by one that restores the
    last stored text: a nonce of a transaction that was handed to submit is
    refused, in every process that runs later, to a slot call that does not name
    it, unless a slot call was granted it by name since; a transaction is handed
    to submit only right after the hook stored the session with its nonces
    marked; and when the hook fails its nonces stay held and the submission is
    over. -/
theorem submitted_nonce_survives_crashes {es : List Event} {w : World}
    (hrun : Run Step .empty es w) :
    (∀ later slots earlier, es = later ++ .submit slots :: earlier →
      ∀ k n, (k, n) ∈ slots → (∀ o, .slot k n (some n) o true ∉ later) →
      ∀ p, w.process = some p → ∀ o, ∃ msg s, p.session.slot k n none o = (.error msg, s)) ∧
    (∀ slots es', es = .submit slots :: es' →
      ∃ earlier, es' = .hookStored :: .signed slots :: earlier) ∧
    ∀ b w', Step w (.hookFailed b) w' → ∃ s l slots,
      w.process = some ⟨s, l, .signed slots⟩ ∧ w'.process = some ⟨s, l, .idle⟩ ∧
      ∀ p ∈ slots, s.isHeld p.1 p.2 = true := by
  refine ⟨?_, ?_, ?_⟩
  · intro later slots earlier hes k n hmem hname p hp o
    rw [hes] at hrun
    obtain ⟨mid, hbefore, hafter⟩ := hrun.split
    cases hbefore with
    | cons hstart hsubmit =>
        have hmid := sound_step (run_sound hstart) hsubmit
        have hboth : Sound w ∧ Durable k n w :=
          Run.invariant_of_labels (P := fun e => ∀ o, e ≠ .slot k n (some n) o true)
            (I := fun w => Sound w ∧ Durable k n w) hafter
            ⟨hmid, durable_submit (run_sound hstart) hsubmit hmem⟩
            (fun hI hP hs => ⟨sound_step hI.1 hs, durable_step hI.1 hI.2 hs hP⟩)
            (fun e he o heq => hname o (heq ▸ he))
        exact slot_refuses_spent (hboth.2.memory p hp) o
  · intro slots es' hes
    rw [hes] at hrun
    exact submit_follows_hook hrun
  · intro b w' hstep
    cases hstep with
    | @hookFailed s l slots b hup =>
        exact ⟨s, l, slots, hup, rfl, (run_sound hrun).held s l slots hup⟩

/-- A process is granted nonce 7, signs, stores its session, submits and
    crashes; the one after it is refused nonce 7. -/
theorem submitted_nonce_survives_a_crash :
    ∃ w p, w.process = some p ∧ Run Step .empty [.start, .crash, .submit [("a", 7)],
        .hookStored, .signed [("a", 7)], .slot "a" 7 none false true, .start] w ∧
      ∃ msg s, p.session.slot "a" 7 none false = (.error msg, s) := by
  have hslot : new.slot "a" 7 none false = (.ok 7, (new.slot "a" 7 none false).2) :=
    Prod.ext (by rfl) rfl
  have hgranted : Run Step .empty [.slot "a" 7 none false true, .start] _ :=
    (Run.single (.start rfl)).cons (.granted rfl hslot)
  have hsigned := hgranted.cons (.signed rfl (show ∀ p ∈ [("a", 7)], p ∈ _ by simp))
  have hrun := (((hsigned.cons (.hookStored rfl)).cons (.submit rfl)).cons .crash).cons
    (.start rfl)
  have hrefused := (submitted_nonce_survives_crashes hrun).1 [.start, .crash] [("a", 7)] _ rfl
    "a" 7 (by simp) (by simp) _ rfl false
  exact ⟨_, _, rfl, hrun, hrefused⟩

end QCoreProcessRun
