import Mathlib
import QCore.TransitionProofs
import QCore.DiskProofs
import QCore.JsonProofs
import QCore.WireProofs
import QCore.SessionSpentProofs

/-! # Two terminal runs that share one session file

    A terminal run loads the session file, takes one nonce the gateway reports,
    signs, saves the session before it submits, submits, and saves the session
    once more at its end, whatever came of the rest.  It never names a nonce.  A
    save opens a temporary file and empties it, writes the session to it piece by
    piece and renames it over the session file.  Both runs use the same two paths,
    so each may open and write what the other has opened, and each save replaces
    the whole session file.

    Two such runs interleave freely, so the file can forget what one of them
    signed, and both can sign at one nonce.  The steps that do no harm are those
    of a run that SAW the other's signed nonce, by loading the file after the
    other's save, and those taken before the other has signed, or has begun to
    save what it signed; and no run opens the temporary file while the other is at
    a save.  When every signing and opening step is of that kind, no nonce is
    signed twice and the file ends up holding what both runs signed. -/

namespace QCoreTerminalRun

open QCoreMachineInt QCoreSortedMap QCoreTransition QCoreDisk QCoreJson QCoreWire QCoreSession
  QCoreSession.SigningSession

/-! ## The system -/

/-- One of the two saves of a run: of the nonce it signed, before it submits, or the
    last, with the nonce that was signed, if any, and whether the first save
    succeeded. -/
inductive Save
  | first (key : String) (nonce : U64)
  | last (nonce : Option (String × U64)) (saved : Bool)

/-- How far a run got.  From its signature on a stage carries the nonce signed; the
    last two say which nonce was signed, if any, and whether the save before
    submitting succeeded. -/
inductive Stage
  | started
  | loaded
  | granted (key : String) (nonce : U64)
  | signed (key : String) (nonce : U64)
  | saving (save : Save) (handle : Handle)
  | saved (key : String) (nonce : U64)
  | submitted (key : String) (nonce : U64)
  | finishing (nonce : Option (String × U64)) (saved : Bool)
  | finished (nonce : Option (String × U64)) (saved : Bool)

/-- The nonce that was signed before a save. -/
@[simp] def Save.nonce : Save → Option (String × U64)
  | .first k n => some (k, n)
  | .last p _ => p

/-- A save before this one kept the nonce. -/
@[simp] def Save.hasSaved : Save → Bool
  | .first _ _ => false
  | .last p s => p.isSome && s

/-- The stage in which a run begins a save. -/
@[simp] def Save.ready : Save → Stage
  | .first k n => .signed k n
  | .last p s => .finishing p s

/-- The stage after a save that succeeded. -/
@[simp] def Save.done : Save → Stage
  | .first k n => .saved k n
  | .last p s => .finished p s

/-- The stage after a save that did not: nothing is submitted, and the run comes to
    its end. -/
@[simp] def Save.lost : Save → Stage
  | .first k n => .finishing (some (k, n)) false
  | .last p s => .finished p s

/-- What a save that did not succeed leaves of the session. -/
@[simp] def Save.lostSession (session : SigningSession) : Save → SigningSession
  | .first k n => session.release k n
  | .last _ _ => session

/-- The nonce the run signed. -/
@[simp] def Stage.nonce : Stage → Option (String × U64)
  | .started | .loaded | .granted _ _ => none
  | .signed k n | .saved k n | .submitted k n => some (k, n)
  | .saving save _ => save.nonce
  | .finishing p _ | .finished p _ => p

/-- The run has begun to save the nonce it signed. -/
@[simp] def Stage.wrote : Stage → Bool
  | .started | .loaded | .granted _ _ | .signed _ _ => false
  | .saving save _ => save.nonce.isSome
  | .saved _ _ | .submitted _ _ => true
  | .finishing p _ | .finished p _ => p.isSome

/-- The run has saved the nonce it signed, before submitting. -/
@[simp] def Stage.hasSaved : Stage → Bool
  | .started | .loaded | .granted _ _ | .signed _ _ => false
  | .saving save _ => save.hasSaved
  | .saved _ _ | .submitted _ _ => true
  | .finishing p s | .finished p s => p.isSome && s

/-- The run has opened the temporary file and not yet renamed it. -/
@[simp] def Stage.isSaving : Stage → Bool
  | .saving _ _ => true
  | _ => false

/-- What a run at its end says of the nonce it signed. -/
@[simp] def Stage.ended : Stage → Option (Option (String × U64) × Bool)
  | .saving (.last p s) _ | .finishing p s | .finished p s => some (p, s)
  | _ => none

/-- A run: its session and stage, whether it loaded the file after the other's
    save, the key and nonce its slot call was reported, and whether the gateway
    accepted what it submitted. -/
structure Terminal where
  session : SigningSession
  stage : Stage
  saw : Bool
  reported : Option (String × U64)
  accepted : Bool

/-- A run that has done nothing. -/
def Terminal.start : Terminal := ⟨new, .started, false, none, false⟩

/-- The two paths that both runs use. -/
inductive FileName
  | session
  | temp
  deriving DecidableEq

theorem session_ne_temp : FileName.session ≠ .temp := nofun

/-- The disk and the two runs. -/
structure World where
  disk : Disk FileName
  run : Bool → Terminal

/-- The steps of a run. -/
inductive Action
  | load
  | unreadable
  | noteHead (chain : String) (height wallSecs : U64)
  | slot (key : String) (reported : U64)
  | refused (key : String) (reported : U64)
  | stop
  | abandon
  | sign
  | opens
  | put (piece : List UInt8)
  | rename
  | renameFailed
  | submit
  | outcome (accepted : Bool)
  | submitFailed

/-- What loading the session file gives: a fresh session when there is none. -/
def load (file : Option (List UInt8)) : Except String Unit × SigningSession :=
  match file with
  | none => (.ok (), new)
  | some bytes =>
      match fromUtf8 bytes with
      | some text => new.importState text
      | none => (.error "reading the signing session", new)

/-- The disk and one run, as one step of that run sees them; `other` is only asked
    whether it has saved. -/
inductive Moves (other : Terminal) :
    Disk FileName × Terminal → Action → Disk FileName × Terminal → Prop
  | load {d : Disk FileName} {x : Terminal} {s : SigningSession}
      (hx : x.stage = .started) (hload : load (d.read .session) = (.ok (), s)) :
      Moves other (d, x) .load
        (d, { x with session := s, stage := .loaded, saw := other.stage.hasSaved })
  | unreadable {d : Disk FileName} {x : Terminal} {s : SigningSession} {msg : String}
      (hx : x.stage = .started)
      (hload : QCoreTerminalRun.load (d.read .session) = (.error msg, s)) :
      Moves other (d, x) .unreadable (d, { x with stage := .finished none false })
  | noteHead {d : Disk FileName} {x : Terminal} {c : String} {h w : U64}
      (hx : x.stage = .loaded) :
      Moves other (d, x) (.noteHead c h w) (d, { x with session := x.session.noteHead c h w })
  | slot {d : Disk FileName} {x : Terminal} {s : SigningSession} {k : String} {r n : U64}
      (hx : x.stage = .loaded) (hslot : x.session.slot k r none false = (.ok n, s)) :
      Moves other (d, x) (.slot k r)
        (d, { x with session := s, stage := .granted k n, reported := some (k, r) })
  | refused {d : Disk FileName} {x : Terminal} {s : SigningSession} {k : String} {r : U64}
      {msg : String} (hx : x.stage = .loaded)
      (hslot : x.session.slot k r none false = (.error msg, s)) :
      Moves other (d, x) (.refused k r)
        (d, { x with session := s, stage := .finishing none false, reported := some (k, r) })
  | stop {d : Disk FileName} {x : Terminal} (hx : x.stage = .loaded) :
      Moves other (d, x) .stop (d, { x with stage := .finishing none false })
  | abandon {d : Disk FileName} {x : Terminal} {k : String} {n : U64}
      (hx : x.stage = .granted k n) :
      Moves other (d, x) .abandon
        (d, { x with session := x.session.release k n, stage := .finishing none false })
  | sign {d : Disk FileName} {x : Terminal} {k : String} {n : U64}
      (hx : x.stage = .granted k n) :
      Moves other (d, x) .sign
        (d, { x with session := x.session.signed k n, stage := .signed k n })
  | opens {d : Disk FileName} {x : Terminal} {save : Save} (hx : x.stage = save.ready) :
      Moves other (d, x) .opens
        ((d.openEmpty .temp).1, { x with
          stage := .saving save ⟨(d.openEmpty .temp).2, 0, asBytes x.session.exportState⟩ })
  | put {d : Disk FileName} {x : Terminal} {save : Save} {handle : Handle}
      {piece rest : List UInt8} (hx : x.stage = .saving save handle) (hpiece : piece ≠ [])
      (hrest : handle.rest = piece ++ rest) :
      Moves other (d, x) (.put piece)
        (d.put handle.file handle.offset piece, { x with
          stage := .saving save ⟨handle.file, handle.offset + piece.length, rest⟩ })
  | rename {d d' : Disk FileName} {x : Terminal} {save : Save} {handle : Handle}
      (hx : x.stage = .saving save handle) (hdone : handle.rest = [])
      (hrename : d.rename .temp .session = some d') :
      Moves other (d, x) .rename (d', { x with stage := save.done })
  | renameFailed {d : Disk FileName} {x : Terminal} {save : Save} {handle : Handle}
      (hx : x.stage = .saving save handle) (hdone : handle.rest = [])
      (hrename : d.rename .temp .session = none) :
      Moves other (d, x) .renameFailed
        (d, { x with session := save.lostSession x.session, stage := save.lost })
  | submit {d : Disk FileName} {x : Terminal} {k : String} {n : U64}
      (hx : x.stage = .saved k n) :
      Moves other (d, x) .submit (d, { x with stage := .submitted k n })
  | outcome {d : Disk FileName} {x : Terminal} {k : String} {n : U64} {accepted : Bool}
      (hx : x.stage = .submitted k n) :
      Moves other (d, x) (.outcome accepted)
        (d, { x with
          session := (x.session.outcome k n accepted).release k n
          stage := .finishing (some (k, n)) true
          accepted := x.accepted || accepted })
  | submitFailed {d : Disk FileName} {x : Terminal} {k : String} {n : U64}
      (hx : x.stage = .submitted k n) :
      Moves other (d, x) .submitFailed
        (d, { x with
          session := x.session.release k n, stage := .finishing (some (k, n)) true })

/-- One run takes a step; the other keeps its state. -/
inductive Step : World → Bool × Action → World → Prop
  | mk {w : World} {i : Bool} {a : Action} {d : Disk FileName} {x : Terminal}
      (h : Moves (w.run (!i)) (w.disk, w.run i) a (d, x)) :
      Step w (i, a) ⟨d, Function.update w.run i x⟩

/-- A run signs only when the other has signed nothing, and opens the temporary file
    only when the other has not begun to save a signed nonce, unless it loaded the
    session file after the other's save; and it never opens the temporary file while
    the other has it open. -/
def Turn (x other : Terminal) : Action → Prop
  | .sign => other.stage.nonce = none ∨ x.saw = true
  | .opens => other.stage.isSaving = false ∧ (other.stage.wrote = false ∨ x.saw = true)
  | _ => True

/-- The run that takes a step takes it in its turn. -/
def TakesTurns (w : World) (e : Bool × Action) : Prop :=
  Turn (w.run e.1) (w.run (!e.1)) e.2

/-! ## What the files and sessions know of a signed nonce -/

/-- The nonce the run signed was accepted, and the other run's slot call was
    reported a nonce past it. -/
def Passed (x y : Terminal) (k : String) (n : U64) : Prop :=
  x.accepted = true ∧ ∃ r, y.reported = some (k, r) ∧ n < r

/-- The session holds what run `x` signed, as accepted only if it was, unless it
    was accepted and passed. -/
def KeptIn (x y : Terminal) (m : SigningSession) : Prop :=
  ∀ k n, x.stage.nonce = some (k, n) → (m.heldOf k).get n = some false ∨
    ((m.heldOf k).get n = some true ∧ x.accepted = true) ∨ Passed x y k n

/-- The bytes are what a reachable session with the property exports. -/
def Exports (bytes : List UInt8) (P : SigningSession → Prop) : Prop :=
  ∃ t, Reachable t ∧ bytes = asBytes t.exportState ∧ P t

/-- What an exported session has is weakened with the session. -/
theorem Exports.imp {bytes : List UInt8} {P Q : SigningSession → Prop} (h : Exports bytes P)
    (hpq : ∀ t, P t → Q t) : Exports bytes Q := by
  obtain ⟨t, ht, hbytes, hP⟩ := h
  exact ⟨t, ht, hbytes, hpq t hP⟩

/-- What a session exports is restored from the file. -/
theorem load_exportState (t : SigningSession) :
    QCoreTerminalRun.load (some (asBytes t.exportState)) = new.importState t.exportState := by
  rw [load, fromUtf8_asBytes]

/-- Knowledge survives when the run keeps its nonce, may become accepted, and the
    other may get a nonce reported. -/
theorem KeptIn.mono {x x' y y' : Terminal} {m m' : SigningSession} (h : KeptIn x y m)
    (hnonce : x'.stage.nonce = x.stage.nonce) (hacc : x.accepted = true → x'.accepted = true)
    (hrep : y'.reported = y.reported ∨ y.reported = none)
    (hheld : ∀ k n, x.stage.nonce = some (k, n) →
      (m'.heldOf k).get n = (m.heldOf k).get n) : KeptIn x' y' m' := by
  intro k n hkn
  rw [hnonce] at hkn
  rw [hheld k n hkn]
  rcases h k n hkn with hfalse | ⟨htrue, haccepted⟩ | ⟨haccepted, r, hr, hlt⟩
  · exact Or.inl hfalse
  · exact Or.inr (Or.inl ⟨htrue, hacc haccepted⟩)
  · rcases hrep with hrep | hrep
    · exact Or.inr (Or.inr ⟨hacc haccepted, r, by rw [hrep, hr], hlt⟩)
    · rw [hrep] at hr
      exact nomatch hr

/-- A slot call drops only what was accepted and is passed by what it reports. -/
theorem KeptIn.slot {x y y' : Terminal} {s s' : SigningSession} {k : String} {r : U64}
    {res : Except String U64} (h : KeptIn x y s) (hslot : s.slot k r none false = (res, s'))
    (hrep : y.reported = none) (hrep' : y'.reported = some (k, r)) : KeptIn x y' s' := by
  have hheld : ∀ k', s'.heldOf k' = s.heldOf k' ∨
      k' = k ∧ s'.heldOf k' = prunedHolds (s.heldOf k) r none := by
    intro k'
    cases res with
    | ok n =>
        obtain ⟨-, -, hafter⟩ := slot_ok hslot
        rw [hafter.held]
        split
        · next hk => exact Or.inr ⟨hk, rfl⟩
        · exact Or.inl rfl
    | error msg =>
        obtain ⟨-, hafter⟩ := slot_error hslot
        rcases hafter.held k' with hsame | ⟨hk, -, hpruned⟩
        · exact Or.inl hsame
        · exact Or.inr ⟨hk, hpruned⟩
  intro k' n hkn
  have hold := h k' n hkn
  rcases hheld k' with hsame | ⟨rfl, hpruned⟩
  · rw [hsame]
    exact hold.imp_right (Or.imp_right (fun hpassed => by
      obtain ⟨-, r', hr', -⟩ := hpassed
      rw [hrep] at hr'
      exact nomatch hr'))
  · rw [hpruned, get_prunedHolds]
    rcases hold with hfalse | ⟨htrue, hacc⟩ | ⟨-, r', hr', -⟩
    · left
      simp [hfalse]
    · by_cases hlt : n < r
      · exact Or.inr (Or.inr ⟨hacc, r, hrep', hlt⟩)
      · refine Or.inr (Or.inl ⟨?_, hacc⟩)
        simp [hlt, htrue]
    · rw [hrep] at hr'
      exact nomatch hr'

/-- A fresh session that restores a file holds what the file holds. -/
theorem KeptIn.load {x y : Terminal} {bytes : List UInt8} {s : SigningSession}
    {res : Except String Unit} (h : Exports bytes (KeptIn x y))
    (hload : QCoreTerminalRun.load (some bytes) = (res, s)) : KeptIn x y s := by
  obtain ⟨t, -, rfl, hkept⟩ := h
  rw [load_exportState] at hload
  have hrestored : Restored new t s := restored_of_importState hload
  intro k n hkn
  have hget : (s.heldOf k).get n = (t.heldOf k).get n := by
    rw [hrestored.held, SortedMap.get_extend]
    exact Option.or_none
  rw [hget]
  exact hkept k n hkn

/-- A nonce the session knows another run signed is not granted to it. -/
theorem KeptIn.not_granted {x y : Terminal} {s s' : SigningSession} {k : String} {r n : U64}
    (h : KeptIn x y s) (hslot : s.slot k r none false = (.ok n, s'))
    (hrep : y.reported = none) : x.stage.nonce ≠ some (k, n) := by
  intro hkn
  obtain ⟨rfl, ⟨-, -, hfree, -, -⟩, -⟩ := slot_ok hslot
  rcases h k n hkn with hfalse | ⟨htrue, -⟩ | ⟨-, r', hr', -⟩
  · rw [hfree] at hfalse; exact nomatch hfalse
  · rw [hfree] at htrue; exact nomatch htrue
  · rw [hrep] at hr'; exact nomatch hr'

/-! ## One run by itself -/

/-- What a run that takes turns keeps of itself: its session is reachable and
    holds the nonce it signed, its slot call is still to come before it is
    granted anything, and past the first save what it signed was saved. -/
structure Own (x : Terminal) : Prop where
  reachable : Reachable x.session
  holds : ∀ k n, x.stage.nonce = some (k, n) → (x.session.heldOf k).get n = some false ∨
    ((x.session.heldOf k).get n = some true ∧ x.accepted = true)
  early : x.stage = .started ∨ x.stage = .loaded → x.reported = none
  late : ∀ p s, x.stage.ended = some (some p, s) → s = true
  unseen : x.stage = .started → x.saw = false

theorem own_start : Own .start :=
  ⟨.new, nofun, fun _ => rfl, fun p s h => by simp [Terminal.start] at h, fun _ => rfl⟩

/-- A run holds what it signed. -/
theorem Own.keptIn {x : Terminal} (h : Own x) (y : Terminal) : KeptIn x y x.session :=
  fun k n hkn => (h.holds k n hkn).imp_right Or.inl

/-- A step that moves on with the nonce it has, and nothing else. -/
theorem Own.restage {x : Terminal} (h : Own x) {stage : Stage}
    (hnonce : stage.nonce = x.stage.nonce)
    (hlate : ∀ p s, stage.ended = some (some p, s) → s = true)
    (hstarted : stage ≠ .started) (hloaded : stage ≠ .loaded) :
    Own { x with stage := stage } := by
  refine ⟨h.reachable, ?_, ?_, hlate, fun heq => absurd heq hstarted⟩
  · intro k n hkn
    exact h.holds k n (hnonce ▸ hkn)
  · rintro (heq | heq)
    · exact absurd heq hstarted
    · exact absurd heq hloaded

/-- What a file holds was exported from a reachable session. -/
def Readable (f : Option (List UInt8)) : Prop :=
  ∀ bytes, f = some bytes → Exports bytes (fun _ => True)

/-- A session that is loaded can be reached. -/
theorem load_reachable {f : Option (List UInt8)} {s : SigningSession} {res : Except String Unit}
    (hf : Readable f) (hload : load f = (res, s)) : Reachable s := by
  cases f with
  | none => cases hload; exact .new
  | some bytes =>
      obtain ⟨t, ht, rfl, -⟩ := hf bytes rfl
      rw [load_exportState] at hload
      have := Reachable.importState .new ht
      rw [hload] at this
      exact this

/-- **One step of a run by itself.** -/
theorem own_moves {y x x' : Terminal} {d d' : Disk FileName} {a : Action} (hx : Own x)
    (hf : Readable (d.read .session)) (h : Moves y (d, x) a (d', x')) (ha : a ≠ .renameFailed) :
    Own x' := by
  cases h with
  | load hstage hload =>
      exact ⟨load_reachable hf hload, by simp, fun _ => hx.early (Or.inl hstage),
        by simp, by simp⟩
  | unreadable hstage hload =>
      exact ⟨hx.reachable, by simp, by simp, by simp, by simp⟩
  | @noteHead _ _ c height w hstage =>
      refine ⟨Reachable.call (.noteHead c height w) hx.reachable, ?_, hx.early, hx.late, hx.unseen⟩
      intro k n hkn
      rw [hstage] at hkn
      cases hkn
  | @slot _ _ s k r n hstage hslot =>
      have := Reachable.call (.slot k r none false) hx.reachable
      rw [call, hslot] at this
      exact ⟨this, by simp, by simp, by simp, by simp⟩
  | @refused _ _ s k r msg hstage hslot =>
      have := Reachable.call (.slot k r none false) hx.reachable
      rw [call, hslot] at this
      exact ⟨this, by simp, by simp, by simp, by simp⟩
  | stop hstage => exact ⟨hx.reachable, by simp, by simp, by simp, by simp⟩
  | @abandon _ _ k n hstage =>
      exact ⟨Reachable.call (.release k n) hx.reachable, by simp, by simp, by simp, by simp⟩
  | @sign _ _ k n hstage =>
      refine ⟨Reachable.call (.signed k n) hx.reachable, ?_, by simp, by simp, by simp⟩
      rintro k' n' ⟨⟩
      left
      simp only [heldOf_signed, if_true]
      grind
  | @opens _ _ save hstage =>
      refine hx.restage ?_ ?_ (by simp) (by simp)
      · rw [hstage]
        cases save <;> rfl
      · intro p s hended
        cases save with
        | first k n => cases hended
        | last q s' => exact hx.late p s (by rw [hstage]; exact hended)
  | @put _ _ save handle piece rest hstage hpiece hrest =>
      refine hx.restage (by rw [hstage]; rfl) ?_ (by simp) (by simp)
      intro p s hended
      cases save with
      | first k n => cases hended
      | last q s' => exact hx.late p s (by rw [hstage]; exact hended)
  | @rename _ _ _ save handle hstage hdone hrename =>
      cases save with
      | first k n =>
          have hlate : ∀ p s, Stage.ended (Save.first k n).done = some (some p, s) → s = true :=
            fun _ _ hended => by cases hended
          exact hx.restage (by rw [hstage]; rfl) hlate (by simp) (by simp)
      | last q s' =>
          refine hx.restage (by rw [hstage]; rfl) ?_ (by simp) (by simp)
          exact fun p s hended => hx.late p s (by rw [hstage]; exact hended)
  | renameFailed hstage hdone hrename => exact absurd rfl ha
  | @submit _ _ k n hstage =>
      exact hx.restage (by rw [hstage]; rfl) (fun _ _ hended => by cases hended) (by simp) (by simp)
  | @outcome _ _ k n accepted hstage =>
      refine ⟨Reachable.call (.release k n)
        (Reachable.call (.outcome k n accepted) hx.reachable), ?_, by simp, by simp, by simp⟩
      rintro k' n' ⟨⟩
      have hold := hx.holds k n (by rw [hstage]; rfl)
      simp only [heldOf_release, heldOf_outcome]
      cases accepted with
      | false => simpa using hold
      | true =>
          right
          simp only [and_self, if_true, Bool.or_true, and_true]
          grind
  | @submitFailed _ _ k n hstage =>
      refine ⟨Reachable.call (.release k n) hx.reachable, ?_, by simp, by simp, by simp⟩
      intro k' n' hkn
      simp only [heldOf_release]
      exact hx.holds k' n' (by rw [hstage]; exact hkn)

/-! ## The disk under one step -/

/-- A run that is at a save is writing its session to the temporary file. -/
def Saves (d : Disk FileName) (x : Terminal) : Prop :=
  ∀ save handle, x.stage = .saving save handle →
    Writing d .temp handle (asBytes x.session.exportState)

/-- The disk changes only when a run opens the temporary file, or is at a save. -/
theorem moves_disk {y x x' : Terminal} {d d' : Disk FileName} {a : Action}
    (h : Moves y (d, x) a (d', x')) : d' = d ∨ a = .opens ∨ x.stage.isSaving = true := by
  cases h with
  | opens hstage => exact Or.inr (Or.inl rfl)
  | put hstage hpiece hrest => exact Or.inr (Or.inr (by rw [hstage]; rfl))
  | rename hstage hdone hrename => exact Or.inr (Or.inr (by rw [hstage]; rfl))
  | _ => exact Or.inl rfl

/-- A run that goes on at a save goes on writing. -/
theorem moves_saves {y x x' : Terminal} {d d' : Disk FileName} {a : Action} (hsaves : Saves d x)
    (h : Moves y (d, x) a (d', x')) : Saves d' x' := by
  cases h with
  | opens hstage =>
      rintro save handle ⟨⟩
      exact writing_openEmpty _ _ _
  | @put _ _ save handle piece rest hstage hpiece hrest =>
      rintro save' handle' ⟨⟩
      exact (hsaves save handle hstage).put hrest
  | noteHead hstage =>
      intro save handle heq
      rw [hstage] at heq
      exact nomatch heq
  | @rename _ _ _ save handle hstage hdone hrename =>
      intro save' handle' heq
      cases save <;> exact nomatch heq
  | @renameFailed _ _ save handle hstage hdone hrename =>
      intro save' handle' heq
      cases save <;> exact nomatch heq
  | _ => exact nofun

/-- The session file changes only when a run renames what it wrote, and then holds the
    session of that run. -/
theorem moves_file {y x x' : Terminal} {d d' : Disk FileName} {a : Action} (hsaves : Saves d x)
    (h : Moves y (d, x) a (d', x')) : d'.read .session = d.read .session
      ∨ a = .rename ∧ d'.read .session = some (asBytes x.session.exportState) := by
  cases h with
  | opens hstage => exact Or.inl (Disk.read_openEmpty _ session_ne_temp)
  | put hstage hpiece hrest => exact Or.inl ((hsaves _ _ hstage).read_put session_ne_temp)
  | rename hstage hdone hrename =>
      exact Or.inr ⟨rfl, (hsaves _ _ hstage).read_rename hdone hrename⟩
  | _ => exact Or.inl rfl

/-- What was opened is there to rename. -/
theorem moves_not_renameFailed {y x x' : Terminal} {d d' : Disk FileName} {a : Action}
    (hsaves : Saves d x) (h : Moves y (d, x) a (d', x')) : a ≠ .renameFailed := by
  rintro rfl
  cases h with
  | renameFailed hstage hdone hrename => exact (hsaves _ _ hstage).rename_ne_none hrename

/-! ## What one run signed, and the other -/

/-- What two runs that take turns keep of what `x` signed: `y` knows it once it saw
    it, `y` is at a save only while `x` is not, and only if it saw what `x` has begun
    to save, the session file knows it from the first save on, and `y` is neither
    granted nor signs the same nonce. -/
structure Known (f : Option (List UInt8)) (x y : Terminal) : Prop where
  seen : y.saw = true → x.stage.hasSaved = true ∧ KeptIn x y y.session
  alone : y.stage.isSaving = true →
    x.stage.isSaving = false ∧ (x.stage.wrote = true → y.saw = true)
  inFile : x.stage.hasSaved = true → ∃ bytes, f = some bytes ∧ Exports bytes (KeptIn x y)
  granted : ∀ k n, y.stage = .granted k n → y.saw = true → x.stage.nonce ≠ some (k, n)
  distinct : ∀ p, x.stage.nonce = some p → y.stage.nonce ≠ some p

section

variable {f f' : Option (List UInt8)} {x x' y y' : Terminal}

/-- What was saved was written. -/
theorem wrote_of_hasSaved (h : x.stage.hasSaved = true) : x.stage.wrote = true := by
  cases hstage : x.stage with
  | saving save handle => cases save <;> simp_all
  | _ => simp_all

/-- A run that has signed nothing has nothing to be known. -/
theorem known_unsigned (hnonce : x.stage.nonce = none) (hsaving : x.stage.isSaving = false)
    (hunseen : y.saw = false) : Known f x y := by
  have hwrote : x.stage.wrote = false := by cases hs : x.stage <;> simp_all
  have hsaved : x.stage.hasSaved = false := by
    cases hs : x.stage.hasSaved with
    | false => rfl
    | true => rw [wrote_of_hasSaved hs] at hwrote; exact nomatch hwrote
  refine ⟨?_, ?_, ?_, ?_, ?_⟩
  · intro h; rw [hunseen] at h; exact nomatch h
  · intro _
    refine ⟨hsaving, fun h => ?_⟩
    rw [hwrote] at h
    exact nomatch h
  · intro h; rw [hsaved] at h; exact nomatch h
  · intro k n _ h; rw [hunseen] at h; exact nomatch h
  · intro p h; rw [hnonce] at h; exact nomatch h

/-- The other run has not seen a nonce that is not saved. -/
theorem Known.unseen (h : Known f x y) (hsaved : x.stage.hasSaved = false) : y.saw = false := by
  cases hy : y.saw with
  | false => rfl
  | true => rw [(h.seen hy).1] at hsaved; exact nomatch hsaved

/-- A run at a save has the other away from its own. -/
theorem Known.other_away (h : Known f x y) (hx : x.stage.isSaving = true) :
    y.stage.isSaving = false := by
  cases hy : y.stage.isSaving with
  | false => rfl
  | true => rw [(h.alone hy).1] at hx; exact nomatch hx

/-- A step of the run that moves none of its nonce, and leaves the session file. -/
theorem Known.frame_self (h : Known f x y)
    (hnonce : x'.stage.nonce = x.stage.nonce) (hwrote : x'.stage.wrote = x.stage.wrote)
    (hsaved : x'.stage.hasSaved = x.stage.hasSaved)
    (hsaving : x'.stage.isSaving = true → y.stage.isSaving = false)
    (hacc : x.accepted = true → x'.accepted = true) : Known f x' y := by
  have hmono : ∀ m, KeptIn x y m → KeptIn x' y m :=
    fun m hm => hm.mono hnonce hacc (Or.inl rfl) (fun _ _ _ => rfl)
  refine ⟨?_, ?_, ?_, ?_, ?_⟩
  · intro hsaw
    rw [hsaved]
    exact (h.seen hsaw).imp_right (hmono _)
  · intro hy
    rw [hwrote]
    refine ⟨?_, (h.alone hy).2⟩
    cases hx : x'.stage.isSaving with
    | false => rfl
    | true => rw [hsaving hx] at hy; exact nomatch hy
  · intro hs
    rw [hsaved] at hs
    obtain ⟨bytes, hbytes, hexports⟩ := h.inFile hs
    exact ⟨bytes, hbytes, hexports.imp hmono⟩
  · rw [hnonce]; exact h.granted
  · rw [hnonce]; exact h.distinct

/-- A step of the other run that keeps what it knows, and leaves the session file. -/
theorem Known.frame_other (h : Known f x y) (hsaw : y'.saw = y.saw)
    (hrep : y'.reported = y.reported ∨ y.reported = none)
    (hkept : y.saw = true → KeptIn x y y.session → KeptIn x y' y'.session)
    (hsaving : y'.stage.isSaving = true →
      x.stage.isSaving = false ∧ (x.stage.wrote = true → y'.saw = true))
    (hgranted : ∀ k n, y'.stage = .granted k n → y.saw = true → x.stage.nonce ≠ some (k, n))
    (hdistinct : ∀ p, x.stage.nonce = some p → y'.stage.nonce ≠ some p) :
    Known f x y' := by
  have hmono : ∀ m, KeptIn x y m → KeptIn x y' m :=
    fun m hm => hm.mono rfl id hrep (fun _ _ _ => rfl)
  refine ⟨?_, hsaving, ?_, ?_, hdistinct⟩
  · intro hs
    rw [hsaw] at hs
    exact ⟨(h.seen hs).1, hkept hs (h.seen hs).2⟩
  · intro hs
    obtain ⟨bytes, hbytes, hexports⟩ := h.inFile hs
    exact ⟨bytes, hbytes, hexports.imp hmono⟩
  · intro k n hstage hs
    rw [hsaw] at hs
    exact hgranted k n hstage hs

/-- A session file that knows the nonce, in the place of the one before. -/
theorem Known.refile (h : Known f x y)
    (hfile : x.stage.hasSaved = true → ∃ bytes, f' = some bytes ∧ Exports bytes (KeptIn x y)) :
    Known f' x y := ⟨h.seen, h.alone, hfile, h.granted, h.distinct⟩

end

/-! ## One step of two runs that take turns -/

/-- **What the run that moves signed** stays known. -/
theorem known_self {y x x' : Terminal} {d d' : Disk FileName} {a : Action} (hx : Own x)
    (hsaves : Saves d x) (hxy : Known (d.read .session) x y) (hyx : Known (d.read .session) y x)
    (h : Moves y (d, x) a (d', x')) (hturn : Turn x y a) : Known (d'.read .session) x' y := by
  cases h with
  | load hstage hload => exact known_unsigned rfl rfl (hxy.unseen (by simp [hstage]))
  | unreadable hstage hload => exact known_unsigned rfl rfl (hxy.unseen (by simp [hstage]))
  | noteHead hstage =>
      exact known_unsigned (by simp [hstage]) (by simp [hstage]) (hxy.unseen (by simp [hstage]))
  | slot hstage hslot => exact known_unsigned rfl rfl (hxy.unseen (by simp [hstage]))
  | refused hstage hslot => exact known_unsigned rfl rfl (hxy.unseen (by simp [hstage]))
  | stop hstage => exact known_unsigned rfl rfl (hxy.unseen (by simp [hstage]))
  | abandon hstage => exact known_unsigned rfl rfl (hxy.unseen (by simp [hstage]))
  | @sign _ _ k n hstage =>
      have hunseen : y.saw = false := hxy.unseen (by simp [hstage])
      refine ⟨?_, fun _ => ⟨rfl, nofun⟩, nofun, ?_, ?_⟩
      · intro hsaw; rw [hunseen] at hsaw; exact nomatch hsaw
      · intro k' n' _ hsaw; rw [hunseen] at hsaw; exact nomatch hsaw
      · -- the other signed nothing, or this run saw it and was granted another nonce
        rintro p ⟨⟩
        rcases hturn with hnone | hsaw
        · rw [hnone]; exact nofun
        · exact hyx.granted k n hstage hsaw
  | @opens _ _ save hstage =>
      obtain ⟨haway, -⟩ := hturn
      rw [Disk.read_openEmpty _ session_ne_temp]
      cases save with
      | first k n =>
          -- the other is away from its save, and has not seen what is not saved
          have hunseen : y.saw = false := hxy.unseen (by simp [hstage])
          refine ⟨?_, ?_, nofun, ?_, ?_⟩
          · intro hsaw; rw [hunseen] at hsaw; exact nomatch hsaw
          · intro hy; rw [haway] at hy; exact nomatch hy
          · intro k' n' _ hsaw; rw [hunseen] at hsaw; exact nomatch hsaw
          · intro p hp
            exact hxy.distinct p (by simpa [hstage] using hp)
      | last p s =>
          exact hxy.frame_self (by simp [hstage]) (by simp [hstage]) (by simp [hstage])
            (fun _ => haway) id
  | @put _ _ save handle piece rest hstage hpiece hrest =>
      rw [(hsaves _ _ hstage).read_put session_ne_temp]
      exact hxy.frame_self (by simp [hstage]) (by simp [hstage]) (by simp [hstage])
        (fun _ => hxy.other_away (by simp [hstage])) id
  | @rename _ _ _ save handle hstage hdone hrename =>
      rw [(hsaves _ _ hstage).read_rename hdone hrename]
      have haway : y.stage.isSaving = false := hxy.other_away (by simp [hstage])
      have hkept : KeptIn { x with stage := save.done } y x.session :=
        (hx.keptIn y).mono (by cases save <;> simp [hstage]) id (Or.inl rfl) (fun _ _ _ => rfl)
      refine ⟨?_, ?_, fun _ => ⟨_, rfl, x.session, hx.reachable, rfl, hkept⟩, ?_, ?_⟩
      · intro hsaw
        obtain ⟨hsaved, hknown⟩ := hxy.seen hsaw
        refine ⟨?_, hknown.mono (by cases save <;> simp [hstage]) id (Or.inl rfl)
          (fun _ _ _ => rfl)⟩
        cases save with
        | first k n => rfl
        | last p s => simpa [hstage] using hsaved
      · intro hy; rw [haway] at hy; exact nomatch hy
      · intro k n hgranted hsaw hnonce
        refine hxy.granted k n hgranted hsaw ?_
        cases save <;> simpa [hstage] using hnonce
      · intro p hp
        refine hxy.distinct p ?_
        cases save <;> simpa [hstage] using hp
  | renameFailed hstage hdone hrename =>
      exact absurd hrename (hsaves _ _ hstage).rename_ne_none
  | submit hstage =>
      exact hxy.frame_self (by simp [hstage]) (by simp [hstage]) (by simp [hstage]) nofun id
  | outcome hstage =>
      exact hxy.frame_self (by simp [hstage]) (by simp [hstage]) (by simp [hstage]) nofun
        (fun hacc => by simp [hacc])
  | submitFailed hstage =>
      exact hxy.frame_self (by simp [hstage]) (by simp [hstage]) (by simp [hstage]) nofun id

/-- **What the other run signed** stays known. -/
theorem known_other {y x x' : Terminal} {d d' : Disk FileName} {a : Action} (hx : Own x)
    (hsaves : Saves d x) (hxy : Known (d.read .session) x y) (hyx : Known (d.read .session) y x)
    (h : Moves y (d, x) a (d', x')) (hturn : Turn x y a) : Known (d'.read .session) y x' := by
  -- the run's nonce is another than the other's, so its own moves do not touch that
  have hother : ∀ {k n}, x.stage.nonce = some (k, n) → ∀ k' n', y.stage.nonce = some (k', n') →
      ¬ (k' = k ∧ n' = n) := by
    rintro k n hk k' n' hk' ⟨rfl, rfl⟩
    exact hxy.distinct _ hk hk'
  have hsame : ∀ {stage : Stage}, KeptIn y x x.session →
      KeptIn y { x with stage := stage } x.session :=
    fun hk => hk.mono rfl id (Or.inl rfl) (fun _ _ _ => rfl)
  cases h with
  | load hstage hload =>
      have hmono : ∀ {z : Terminal} m, z.reported = x.reported → KeptIn y x m → KeptIn y z m :=
        fun m hz hm => hm.mono rfl id (Or.inl hz) (fun _ _ _ => rfl)
      refine ⟨?_, nofun, ?_, nofun, nofun⟩
      · intro hsaw
        obtain ⟨bytes, hbytes, hexports⟩ := hyx.inFile hsaw
        rw [hbytes] at hload
        exact ⟨hsaw, hmono _ rfl (KeptIn.load hexports hload)⟩
      · intro hs
        obtain ⟨bytes, hbytes, hexports⟩ := hyx.inFile hs
        exact ⟨bytes, hbytes, hexports.imp (fun m => hmono m rfl)⟩
  | unreadable hstage hload =>
      exact hyx.frame_other rfl (Or.inl rfl) (fun _ => hsame) nofun (fun _ _ => nofun)
        (fun _ _ => nofun)
  | noteHead hstage =>
      refine hyx.frame_other rfl (Or.inl rfl) (fun _ hk => ?_) ?_ ?_ ?_
      · exact hk.mono rfl id (Or.inl rfl) (fun _ _ _ => rfl)
      · intro hs; simp [hstage] at hs
      · intro k n hs; rw [hstage] at hs; exact nomatch hs
      · intro p _; simp [hstage]
  | slot hstage hslot =>
      have hrep := hx.early (Or.inr hstage)
      refine hyx.frame_other rfl (Or.inr hrep) (fun _ hk => hk.slot hslot hrep rfl) nofun ?_
        (fun _ _ => nofun)
      rintro k n ⟨⟩ hsaw
      exact (hyx.seen hsaw).2.not_granted hslot hrep
  | refused hstage hslot =>
      have hrep := hx.early (Or.inr hstage)
      exact hyx.frame_other rfl (Or.inr hrep) (fun _ hk => hk.slot hslot hrep rfl) nofun
        (fun _ _ => nofun) (fun _ _ => nofun)
  | stop hstage =>
      exact hyx.frame_other rfl (Or.inl rfl) (fun _ => hsame) nofun (fun _ _ => nofun)
        (fun _ _ => nofun)
  | abandon hstage =>
      refine hyx.frame_other rfl (Or.inl rfl) (fun _ hk => ?_) nofun (fun _ _ => nofun)
        (fun _ _ => nofun)
      exact hk.mono rfl id (Or.inl rfl) (fun _ _ _ => by rw [heldOf_release])
  | @sign _ _ k n hstage =>
      have hne : ∀ k' n', y.stage.nonce = some (k', n') → x.saw = true → ¬ (k' = k ∧ n' = n) := by
        rintro k' n' hk' hsaw ⟨rfl, rfl⟩
        exact hyx.granted _ _ hstage hsaw hk'
      refine hyx.frame_other rfl (Or.inl rfl) (fun hsaw hk => ?_) nofun (fun _ _ => nofun) ?_
      · refine hk.mono rfl id (Or.inl rfl) (fun k' n' hk' => ?_)
        have := hne k' n' hk' hsaw
        simp only [heldOf_signed]
        grind
      · rintro p hp ⟨⟩
        rcases hturn with hnone | hsaw
        · rw [hnone] at hp; exact nomatch hp
        · exact hyx.granted k n hstage hsaw hp
  | @opens _ _ save hstage =>
      obtain ⟨haway, hturn⟩ := hturn
      rw [Disk.read_openEmpty _ session_ne_temp]
      refine hyx.frame_other rfl (Or.inl rfl) (fun _ => hsame) ?_ (fun _ _ => nofun) ?_
      · refine fun _ => ⟨haway, fun hwrote => hturn.resolve_left ?_⟩
        rw [hwrote]
        exact nofun
      · intro p hp hp'
        refine hyx.distinct p hp ?_
        cases save <;> simpa [hstage] using hp'
  | @put _ _ save handle piece rest hstage hpiece hrest =>
      rw [(hsaves _ _ hstage).read_put session_ne_temp]
      refine hyx.frame_other rfl (Or.inl rfl) (fun _ => hsame) ?_ (fun _ _ => nofun) ?_
      · exact fun _ => hyx.alone (by simp [hstage])
      · intro p hp; simpa [hstage] using hyx.distinct p hp
  | @rename _ _ _ save handle hstage hdone hrename =>
      rw [(hsaves _ _ hstage).read_rename hdone hrename]
      have hframe : Known (d.read .session) y { x with stage := save.done } := by
        refine hyx.frame_other rfl (Or.inl rfl) (fun _ => hsame) ?_ ?_ ?_
        · intro hs; cases save <;> exact nomatch hs
        · intro k n hs; cases save <;> exact nomatch hs
        · intro p hp hp'
          refine hyx.distinct p hp ?_
          cases save <;> simpa [hstage] using hp'
      refine hframe.refile (fun hsaved => ⟨_, rfl, x.session, hx.reachable, rfl, ?_⟩)
      -- what the other has saved was seen before the temporary file was opened
      have hsaw : x.saw = true :=
        (hyx.alone (by simp [hstage])).2 (wrote_of_hasSaved hsaved)
      exact hsame (hyx.seen hsaw).2
  | renameFailed hstage hdone hrename =>
      exact absurd hrename (hsaves _ _ hstage).rename_ne_none
  | submit hstage =>
      refine hyx.frame_other rfl (Or.inl rfl) (fun _ => hsame) nofun (fun _ _ => nofun) ?_
      intro p hp; simpa [hstage] using hyx.distinct p hp
  | @outcome _ _ k n accepted hstage =>
      refine hyx.frame_other rfl (Or.inl rfl) (fun _ hk => ?_) nofun (fun _ _ => nofun) ?_
      · refine hk.mono rfl id (Or.inl rfl) (fun k' n' hk' => ?_)
        have := hother (show x.stage.nonce = some (k, n) by rw [hstage]; rfl) k' n' hk'
        simp only [heldOf_release, heldOf_outcome]
        grind
      · intro p hp; simpa [hstage] using hyx.distinct p hp
  | submitFailed hstage =>
      refine hyx.frame_other rfl (Or.inl rfl) (fun _ hk => ?_) nofun (fun _ _ => nofun) ?_
      · exact hk.mono rfl id (Or.inl rfl) (fun _ _ _ => by rw [heldOf_release])
      · intro p hp; simpa [hstage] using hyx.distinct p hp

/-! ## Runs -/

/-- What two runs that take turns keep. -/
structure Sound (w : World) : Prop where
  file : Readable (w.disk.read .session)
  own : ∀ i, Own (w.run i)
  saves : ∀ i, Saves w.disk (w.run i)
  known : ∀ i, Known (w.disk.read .session) (w.run i) (w.run (!i))

/-- Both runs start, over a session file that is absent or was saved before; what a run
    that did not end left in the temporary file does not matter. -/
structure Starts (w : World) : Prop where
  file : Readable (w.disk.read .session)
  run : ∀ i, w.run i = .start

theorem sound_starts {w : World} (h : Starts w) : Sound w := by
  refine ⟨h.file, ?_, ?_, ?_⟩
  · intro i; rw [h.run]; exact own_start
  · intro i; rw [h.run]; exact nofun
  · intro i; rw [h.run, h.run]; exact known_unsigned rfl rfl rfl

/-- **One step of two runs that take turns.** -/
theorem sound_step {w w' : World} {e : Bool × Action} (h : Sound w) (hstep : Step w e w')
    (hturn : TakesTurns w e) : Sound w' := by
  cases hstep with
  | @mk i a d x hmove =>
      have hxy := h.known i
      have hyx : Known (w.disk.read .session) (w.run (!i)) (w.run i) := by
        have := h.known (!i)
        rwa [Bool.not_not] at this
      have hsaves := h.saves i
      have ha := moves_not_renameFailed hsaves hmove
      have hcases : ∀ j, j = i ∨ j = !i := fun j => by cases j <;> cases i <;> simp
      have hne : (!i) ≠ i := by cases i <;> simp
      refine ⟨?_, ?_, ?_, ?_⟩
      · rcases moves_file hsaves hmove with hsame | ⟨-, hnew⟩
        · show Readable (d.read .session)
          rw [hsame]
          exact h.file
        · rintro bytes hbytes
          cases hnew.symm.trans hbytes
          exact ⟨(w.run i).session, (h.own i).reachable, rfl, trivial⟩
      · intro j
        rcases hcases j with rfl | rfl
        · simpa using own_moves (h.own j) h.file hmove ha
        · simpa [hne] using h.own (!i)
      · intro j
        rcases hcases j with rfl | rfl
        · simpa using moves_saves hsaves hmove
        · -- the other run is at a save only while this one leaves the disk alone
          intro save handle hstage
          have hstage' : (w.run (!i)).stage = .saving save handle := by simpa [hne] using hstage
          have hsaving : (w.run (!i)).stage.isSaving = true := by rw [hstage']; rfl
          have hdisk : d = w.disk := by
            rcases moves_disk hmove with hsame | rfl | hself
            · exact hsame
            · have haway : (w.run (!i)).stage.isSaving = false := hturn.1
              rw [haway] at hsaving
              exact nomatch hsaving
            · rw [(hxy.alone hsaving).1] at hself
              exact nomatch hself
          have hwriting := h.saves (!i) save handle hstage'
          simpa [hne, hdisk] using hwriting
      · intro j
        have hself := known_self (h.own i) hsaves hxy hyx hmove hturn
        have hother := known_other (h.own i) hsaves hxy hyx hmove hturn
        rcases hcases j with rfl | rfl
        · simpa [hne] using hself
        · simpa [hne] using hother

/-- **Over a run** in which turns are taken, both runs stay sound. -/
theorem run_sound {w₀ w : World} {es : List (Bool × Action)} (hstart : Starts w₀)
    (hrun : Run (Guarded Step TakesTurns) w₀ es w) : Sound w :=
  Run.invariant hrun (sound_starts hstart) (fun h hs => sound_step h hs.2 hs.1)

/-- The session file holds the nonce: a session that loads it does. -/
def FileHolds (file : Option (List UInt8)) (k : String) (n : U64) : Prop :=
  ∃ bytes s, file = some bytes ∧ load file = (.ok (), s) ∧ s.isHeld k n = true

/-- What a session exports holds what the session does. -/
theorem fileHolds_exportState {t : SigningSession} {k : String} {n : U64} :
    FileHolds (some (asBytes t.exportState)) k n ↔ ((t.heldOf k).get n).isSome = true := by
  obtain ⟨s, himport, hrestored⟩ := importState_exportState new t
  have hload : load (some (asBytes t.exportState)) = (.ok (), s) :=
    (load_exportState t).trans himport
  have hheld : (s.heldOf k).get n = (t.heldOf k).get n := by
    rw [hrestored.held, SortedMap.get_extend]
    exact Option.or_none
  constructor
  · rintro ⟨bytes, s', hbytes, hload', hisHeld⟩
    cases hbytes
    cases hload.symm.trans hload'
    obtain ⟨flag, hflag⟩ := isHeld_iff.mp hisHeld
    rw [← hheld, hflag]
    rfl
  · intro h
    rw [← hheld] at h
    obtain ⟨flag, hflag⟩ := Option.isSome_iff_exists.mp h
    exact ⟨_, s, rfl, hload, isHeld_iff.mpr ⟨flag, hflag⟩⟩

/-- Two runs over an empty disk. -/
def World.fresh : World := ⟨.empty, fun _ => .start⟩

theorem starts_fresh : Starts .fresh := ⟨nofun, fun _ => rfl⟩

theorem slot_new (k : String) :
    new.slot k 0 none false = (.ok 0, (new.slot k 0 none false).2) := by
  obtain ⟨s, h⟩ := (slot_isOk_iff new k 0 none false).mpr
    ⟨nofun, nofun, rfl, fun m hm => absurd hm (Fin.not_lt_zero m), Finset.notMem_empty 0⟩
  rw [h]

/-- Both runs load the absent file, are granted nonce 0 of their keys and sign. -/
theorem run_both_sign (k k' : String) : ∃ w,
    Run Step .fresh [(true, .sign), (false, .sign), (true, .slot k' 0), (false, .slot k 0),
      (true, .load), (false, .load)] w ∧
    w.run false = ⟨(new.slot k 0 none false).2.signed k 0, .signed k 0, false, some (k, 0), false⟩ ∧
    w.run true
      = ⟨(new.slot k' 0 none false).2.signed k' 0, .signed k' 0, false, some (k', 0), false⟩ := by
  have hfirst : Run Step World.fresh [(false, .load)] _ := .single (.mk (.load rfl rfl))
  have hloaded := hfirst.cons (Step.mk (i := true) (.load rfl rfl))
  have hgranted := (hloaded.cons (Step.mk (i := false) (.slot rfl (slot_new k)))).cons
    (Step.mk (i := true) (.slot rfl (slot_new k')))
  have hsigned := (hgranted.cons (Step.mk (i := false) (.sign rfl))).cons
    (Step.mk (i := true) (.sign rfl))
  exact ⟨_, hsigned, rfl, rfl⟩

section

variable {P : World → Bool × Action → Prop} {v w : World} {i : Bool} {es : List (Bool × Action)}

/-- A run that goes on by itself: the other keeps its state, and what this one saw of
    it stays what it was. -/
structure Alone (P : World → Bool × Action → Prop) (i : Bool) (w : World)
    (es : List (Bool × Action)) (v : World) : Prop where
  run : Run (Guarded Step P) w es v
  other : v.run (!i) = w.run (!i)
  saw : (v.run i).saw = (w.run i).saw

/-- The steps of a run by itself meet a condition. -/
def Meets (P : World → Bool × Action → Prop) (i : Bool) (w : World) : Prop :=
  ∀ v a, v.run (!i) = w.run (!i) → (v.run i).saw = (w.run i).saw → P v (i, a)

/-- One more step of the run. -/
theorem Alone.step {a : Action} {d : Disk FileName} {x : Terminal} (h : Alone P i w es v)
    (hP : Meets P i w) (hmove : Moves (v.run (!i)) (v.disk, v.run i) a (d, x))
    (hsaw : x.saw = (v.run i).saw) : ∃ es' v', Alone P i w es' v' ∧ v'.disk = d ∧ v'.run i = x := by
  have hself : (Function.update v.run i x) i = x := Function.update_self ..
  refine ⟨_, ⟨d, Function.update v.run i x⟩, ⟨h.run.cons ⟨hP v a h.other h.saw, .mk hmove⟩, ?_, ?_⟩,
    rfl, hself⟩
  · exact (Function.update_of_ne (by cases i <;> nofun) ..).trans h.other
  · exact (congrArg Terminal.saw hself).trans (hsaw.trans h.saw)

/-- What is left of a save is written, at once if there is anything. -/
theorem Alone.writes {save : Save} {handle : Handle} {text : List UInt8} (h : Alone P i w es v)
    (hP : Meets P i w) (hstage : (v.run i).stage = .saving save handle)
    (hwriting : Writing v.disk .temp handle text) :
    ∃ es' v' handle', Alone P i w es' v' ∧ handle'.rest = [] ∧ Writing v'.disk .temp handle' text
      ∧ v'.run i = { v.run i with stage := .saving save handle' } := by
  by_cases hrest : handle.rest = []
  · refine ⟨es, v, handle, h, hrest, hwriting, ?_⟩
    rw [← hstage]
  · have hsplit : handle.rest = handle.rest ++ [] := (List.append_nil _).symm
    obtain ⟨es', v', h', hdisk, hrun⟩ := h.step hP (.put hstage hrest hsplit) rfl
    exact ⟨es', v', _, h', rfl, hdisk ▸ hwriting.put hsplit, hrun⟩

/-- **A run saves** by itself, and the session file then holds its session. -/
theorem Alone.saves (save : Save) (h : Alone P i w es v)
    (hP : Meets P i w) (hstage : (v.run i).stage = save.ready) :
    ∃ es' v', Alone P i w es' v'
      ∧ v'.disk.read .session = some (asBytes (v.run i).session.exportState)
      ∧ v'.run i = { v.run i with stage := save.done } := by
  obtain ⟨es₁, v₁, h₁, hdisk₁, hrun₁⟩ := h.step hP (.opens hstage) rfl
  have hwriting := writing_openEmpty v.disk .temp (asBytes (v.run i).session.exportState)
  rw [← hdisk₁] at hwriting
  obtain ⟨es₂, v₂, handle, h₂, hdone, hwritten, hrun₂⟩ :=
    h₁.writes hP (by rw [hrun₁]) hwriting
  obtain ⟨disk, hrename⟩ := Disk.rename_isSome .session hwritten.named
  obtain ⟨es₃, v₃, h₃, hdisk₃, hrun₃⟩ := h₂.step hP (.rename (by rw [hrun₂]) hdone hrename) rfl
  refine ⟨es₃, v₃, h₃, ?_, ?_⟩
  · rw [hdisk₃]
    exact hwritten.read_rename hdone hrename
  · rw [hrun₃, hrun₂, hrun₁]

/-- From its signature on a run can finish by itself, its submission failing, and its
    session then replaces the file. -/
theorem run_finishes {k : String} {n : U64} (hstage : (w.run i).stage = .signed k n)
    (hP : Meets P i w) :
    ∃ es w', Run (Guarded Step P) w es w' ∧
      w'.disk.read .session = some (asBytes ((w.run i).session.release k n).exportState) ∧
      (w'.run i).stage = .finished (some (k, n)) true ∧
      (w'.run i).accepted = (w.run i).accepted ∧ w'.run (!i) = w.run (!i) := by
  have hstart : Alone P i w [] w := ⟨.nil, rfl, rfl⟩
  obtain ⟨es₁, w₁, h₁, -, hrun₁⟩ := hstart.saves (.first k n) hP hstage
  obtain ⟨es₂, w₂, h₂, -, hrun₂⟩ := h₁.step hP (.submit (k := k) (n := n) (by rw [hrun₁]; rfl)) rfl
  obtain ⟨es₃, w₃, h₃, -, hrun₃⟩ := h₂.step hP (.submitFailed (k := k) (n := n) (by rw [hrun₂])) rfl
  obtain ⟨es₄, w₄, h₄, hfile, hrun₄⟩ := h₃.saves (.last (some (k, n)) true) hP
    (by rw [hrun₃]; rfl)
  have hsession : (w₃.run i).session = (w.run i).session.release k n := by
    rw [hrun₃, hrun₂, hrun₁]
  refine ⟨es₄, w₄, h₄.run, by rw [hfile, hsession], by rw [hrun₄]; rfl, ?_, h₄.other⟩
  rw [hrun₄, hrun₃, hrun₂, hrun₁]

end

/-- A step that is taken in turn. -/
theorem takesTurn {w w' : World} {e : Bool × Action} (hstep : Step w e w')
    (hturn : TakesTurns w e) : Guarded Step TakesTurns w e w' := ⟨hturn, hstep⟩

/-- A run that goes on by itself takes its turns, when the other is away from its save
    and has signed nothing, or was seen. -/
theorem meets_takesTurns {w : World} {i : Bool} (haway : (w.run (!i)).stage.isSaving = false)
    (hfree : (w.run (!i)).stage.nonce = none ∧ (w.run (!i)).stage.wrote = false
      ∨ (w.run i).saw = true) : Meets TakesTurns i w := by
  intro v a hother hsaw
  rw [← hother, ← hsaw] at hfree
  rw [← hother] at haway
  cases a with
  | sign => exact hfree.imp_left And.left
  | opens => exact ⟨haway, hfree.imp_left And.right⟩
  | _ => trivial

/-- One run signs, submits and finishes before the other loads the file. -/
theorem first_finishes : ∃ es w, Run (Guarded Step TakesTurns) .fresh es w
    ∧ w.disk.read .session
      = some (asBytes (((new.slot "a" 0 none false).2.signed "a" 0).release "a" 0).exportState)
    ∧ (w.run false).stage = .finished (some ("a", 0)) true ∧ (w.run false).accepted = false
    ∧ w.run true = .start := by
  have hloaded : Run (Guarded Step TakesTurns) World.fresh [(false, .load)] _ :=
    .single (takesTurn (.mk (.load rfl rfl)) trivial)
  have hgranted := hloaded.cons (takesTurn (Step.mk (i := false) (.slot rfl (slot_new "a"))) trivial)
  have hsigned := hgranted.cons (takesTurn (Step.mk (i := false) (.sign rfl)) (Or.inl rfl))
  obtain ⟨v, hpre, hfalse, htrue⟩ : ∃ v, Run (Guarded Step TakesTurns) .fresh
      [(false, .sign), (false, .slot "a" 0), (false, .load)] v ∧
      v.run false
        = ⟨(new.slot "a" 0 none false).2.signed "a" 0, .signed "a" 0, false, some ("a", 0), false⟩ ∧
      v.run true = .start := ⟨_, hsigned, rfl, rfl⟩
  obtain ⟨es, w, hrun, hfile, hdone, hacc, hother⟩ := run_finishes (P := TakesTurns) (i := false)
    (k := "a") (n := 0) (by rw [hfalse])
    (meets_takesTurns (by rw [Bool.not_false, htrue]; rfl)
      (Or.inl (by rw [Bool.not_false, htrue]; exact ⟨rfl, rfl⟩)))
  exact ⟨_, w, hpre.append hrun, by rw [hfile, hfalse], hdone, by rw [hacc, hfalse],
    hother.trans htrue⟩

/-- What the first run saved leaves another key free. -/
theorem slot_after_first {s : SigningSession}
    (h : Restored new (((new.slot "a" 0 none false).2.signed "a" 0).release "a" 0) s) :
    ∃ s', s.slot "b" 0 none false = (.ok 0, s') := by
  obtain ⟨-, -, hafter⟩ := slot_ok (slot_new "a")
  have hnext : s.nextNonce "b" = none := by
    rw [h.next, nextNonce_release, nextNonce_signed, hafter.next, if_neg (by decide)]
    rfl
  have hheld : s.heldOf "b" = ∅ := by
    rw [h.held, heldOf_release, heldOf_signed, if_neg (by decide), hafter.held,
      if_neg (by decide)]
    rfl
  have hreserved : s.reservedOf "b" = ∅ := by
    rw [h.reserved]
    rfl
  exact (slot_isOk_iff s "b" 0 none false).mpr
    ⟨by rw [hnext]; exact nofun, nofun, by rw [hheld]; rfl,
      fun m hm => absurd hm (Fin.not_lt_zero m), by rw [hreserved]; exact Finset.notMem_empty 0⟩

end QCoreTerminalRun
