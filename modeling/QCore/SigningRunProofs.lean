import Mathlib
import QCore.TransitionProofs
import QCore.SessionSpentProofs

/-! # Signings that share one session

    A signing is granted a nonce by `slot`, then either signs and learns its
    outcome or stops early, and at its end releases that nonce, as the guard of
    its reservation does on drop.  Any number of signings share one session and
    interleave in any order, between refused slot calls, heads and restored
    texts.

    Two things are proved of every such run.  A nonce that was signed is refused
    until a call names it, and a nonce no call names is signed at most once.  A
    signing's unsigned grant excludes every unnamed slot call at its nonce,
    except that reservations have no owner: a second signing that named the same
    nonce frees the first one's reservation when it ends. -/

namespace QCoreSigningRun

open QCoreMachineInt QCoreSortedMap QCoreHashMap QCoreTransition QCoreSession
open QCoreSession.SigningSession

/-! ## The system -/

/-- How far a signing is. -/
inductive Phase
  | granted
  | signed
  | reported
  | ended
deriving DecidableEq

/-- A signing: the nonce it was granted and how far it got. -/
structure Signing where
  key : String
  nonce : U64
  phase : Phase

/-- One session and the signings that share it, each under a name of its own. -/
structure Signings where
  session : SigningSession
  signing : Nat → Option Signing

/-- Nothing is signed yet. -/
def Signings.fresh : Signings := ⟨new, fun _ => none⟩

/-- What one signing does. -/
inductive Event
  | slot (i : Nat) (key : String) (reported : U64) (expected : Option U64) (order : Bool)
      (granted : Bool)
  | signed (i : Nat) (key : String) (nonce : U64)
  | outcome (i : Nat) (accepted : Bool)
  | release (i : Nat)
  | noteHead (chain : String) (height wallSecs : U64)
  | importState (text : String)

/-- One step of one signing, or of the session they share. -/
inductive Step : Signings → Event → Signings → Prop
  | granted {g : Signings} {i : Nat} {k : String} {r n : U64} {e : Option U64} {o : Bool}
      {s : SigningSession} (hfree : g.signing i = none)
      (hslot : g.session.slot k r e o = (.ok n, s)) :
      Step g (.slot i k r e o true)
        ⟨s, Function.update g.signing i (some ⟨k, n, .granted⟩)⟩
  | refused {g : Signings} {i : Nat} {k : String} {r : U64} {e : Option U64} {o : Bool}
      {s : SigningSession} {msg : String} (hslot : g.session.slot k r e o = (.error msg, s)) :
      Step g (.slot i k r e o false) ⟨s, g.signing⟩
  | signed {g : Signings} {i : Nat} {k : String} {n : U64}
      (hi : g.signing i = some ⟨k, n, .granted⟩) :
      Step g (.signed i k n)
        ⟨g.session.signed k n, Function.update g.signing i (some ⟨k, n, .signed⟩)⟩
  | outcome {g : Signings} {i : Nat} {k : String} {n : U64} {accepted : Bool}
      (hi : g.signing i = some ⟨k, n, .signed⟩) :
      Step g (.outcome i accepted)
        ⟨g.session.outcome k n accepted,
          Function.update g.signing i (some ⟨k, n, .reported⟩)⟩
  | release {g : Signings} {i : Nat} {k : String} {n : U64} {p : Phase}
      (hi : g.signing i = some ⟨k, n, p⟩) (hp : p ≠ .ended) :
      Step g (.release i)
        ⟨g.session.release k n, Function.update g.signing i (some ⟨k, n, .ended⟩)⟩
  | noteHead {g : Signings} {c : String} {h w : U64} :
      Step g (.noteHead c h w) ⟨g.session.noteHead c h w, g.signing⟩
  | importState {g : Signings} {t s : SigningSession} {res : Except String Unit}
      (ht : Reachable t) (himport : g.session.importState t.exportState = (res, s)) :
      Step g (.importState t.exportState) ⟨s, g.signing⟩

/-- The signing holds a grant of the nonce and has not signed or ended. -/
def Signings.Live (g : Signings) (i : Nat) (k : String) (n : U64) : Prop :=
  g.signing i = some ⟨k, n, .granted⟩

/-- Only the signing that was set has changed. -/
theorem signing_update {g : Signings} {s : SigningSession} {i j : Nat} {x y : Signing} :
    Signings.signing ⟨s, Function.update g.signing j (some x)⟩ i = some y
      ↔ (i = j ∧ x = y) ∨ (i ≠ j ∧ g.signing i = some y) := by
  show Function.update g.signing j (some x) i = some y ↔ _
  rw [Function.update_apply]
  by_cases h : i = j
  · simp [h]
  · simp [h]

theorem live_update {g : Signings} {s : SigningSession} {i j : Nat} {k : String} {n : U64}
    {x : Signing} :
    Signings.Live ⟨s, Function.update g.signing j (some x)⟩ i k n
      ↔ (i = j ∧ x = ⟨k, n, .granted⟩) ∨ (i ≠ j ∧ g.Live i k n) :=
  signing_update

/-- Releasing one nonce keeps every other reserved. -/
theorem mem_reserved_release {s : SigningSession} {k k' : String} {n m : U64}
    (hother : ¬ (k' = k ∧ m = n)) (hmem : n ∈ s.reservedOf k) :
    n ∈ (s.release k' m).reservedOf k := by
  rw [reservedOf_release]
  split
  · next hk =>
      refine Finset.mem_erase.mpr ⟨?_, hk ▸ hmem⟩
      rintro rfl
      exact hother ⟨hk.symm, rfl⟩
  · exact hmem

/-! ## Every run keeps the session's invariant and its spent nonces -/

/-- Each step leads to a session that can be reached. -/
theorem step_reachable {g g' : Signings} {e : Event} (h : Step g e g')
    (hg : Reachable g.session) : Reachable g'.session := by
  cases h with
  | @granted i k r n e o s hfree hslot =>
      have := Reachable.call (.slot k r e o) hg
      rw [call, hslot] at this
      exact this
  | @refused i k r e o s msg hslot =>
      have := Reachable.call (.slot k r e o) hg
      rw [call, hslot] at this
      exact this
  | @signed i k n hi => exact Reachable.call (.signed k n) hg
  | @outcome i k n accepted hi => exact Reachable.call (.outcome k n accepted) hg
  | @release i k n p hi hp => exact Reachable.call (.release k n) hg
  | @noteHead c h w => exact Reachable.call (.noteHead c h w) hg
  | importState ht himport =>
      have := Reachable.importState hg ht
      rw [himport] at this
      exact this

theorem run_reachable {es : List Event} {g : Signings} (h : Run Step .fresh es g) :
    Reachable g.session :=
  Run.invariant (I := fun g => Reachable g.session) h .new (fun hI hs => step_reachable hs hI)

/-- **One step keeps a spent nonce spent**, unless it grants that nonce by name. -/
theorem step_spent {g g' : Signings} {e : Event} {k : String} {n : U64} (h : Step g e g')
    (hg : Reachable g.session) (hs : g.session.Spent k n)
    (hname : ∀ i o, e ≠ .slot i k n (some n) o true) : g'.session.Spent k n := by
  have hinv := reachable_acceptedPassed hg
  cases h with
  | @granted i k' r m e o s hfree hslot =>
      refine spent_slot_ok hs hslot ?_
      rintro ⟨rfl, rfl, rfl⟩
      exact hname i o rfl
  | @refused i k' r e o s msg hslot => exact spent_slot_error hinv hs hslot
  | @signed i k' m hi => exact spent_call hinv hs (.signed k' m) (fun _ => nofun)
  | @outcome i k' m accepted hi => exact spent_call hinv hs (.outcome k' m accepted) (fun _ => nofun)
  | @release i k' m p hi hp => exact spent_call hinv hs (.release k' m) (fun _ => nofun)
  | @noteHead c height w => exact hs
  | importState ht himport => exact spent_restored (restored_of_importState himport) (Or.inl hs)

/-- A spent nonce stays spent in a run that does not name it. -/
theorem run_spent {es : List Event} {g g' : Signings} {k : String} {n : U64}
    (h : Run Step g es g') (hg : Reachable g.session) (hs : g.session.Spent k n)
    (hname : ∀ i o, .slot i k n (some n) o true ∉ es) : g'.session.Spent k n := by
  have hboth : Reachable g'.session ∧ g'.session.Spent k n :=
    Run.invariant_of_labels (P := fun e => ∀ i o, e ≠ .slot i k n (some n) o true)
      (I := fun g => Reachable g.session ∧ g.session.Spent k n) h ⟨hg, hs⟩
      (fun hI hP hstep => ⟨step_reachable hstep hI.1, step_spent hstep hI.1 hI.2 hP⟩)
      (fun e he i o heq => hname i o (heq ▸ he))
  exact hboth.2

/-! ## A nonce no call names is signed once -/

/-- The event signs at the nonce. -/
def Event.signs (k : String) (n : U64) : Event → Bool
  | .signed _ key nonce => key = k && nonce = n
  | _ => false

/-- How often a run signed at the nonce. -/
def timesSigned (k : String) (n : U64) (es : List Event) : Nat := es.countP (Event.signs k n)

/-- What a run that never names a nonce keeps of it: one signing at most holds
    an unsigned grant of it, and then it is reserved and was never signed. -/
structure Sole (k : String) (n : U64) (es : List Event) (g : Signings) : Prop where
  once : timesSigned k n es ≤ 1
  spent : timesSigned k n es ≠ 0 → g.session.Spent k n
  live : ∀ i, g.Live i k n → n ∈ g.session.reservedOf k ∧ timesSigned k n es = 0
  one : ∀ i j, g.Live i k n → g.Live j k n → i = j
  after : ∀ i p, g.signing i = some ⟨k, n, p⟩ → p = .signed ∨ p = .reported →
    timesSigned k n es ≠ 0

theorem sole_fresh (k : String) (n : U64) : Sole k n [] .fresh := by
  refine ⟨Nat.zero_le 1, fun h => absurd rfl h, ?_, ?_, ?_⟩
  · intro i h; exact nomatch h
  · intro i j h; exact nomatch h
  · intro i p h; exact nomatch h

theorem timesSigned_cons (k : String) (n : U64) (e : Event) (es : List Event) :
    timesSigned k n (e :: es) = timesSigned k n es + if e.signs k n then 1 else 0 := by
  rw [timesSigned, timesSigned, List.countP_cons]

/-- A step that neither grants the nonce nor moves a signing of it, and keeps
    its reservation and its spent state, keeps a nonce sole. -/
theorem sole_of_frame {k : String} {n : U64} {es : List Event} {e : Event}
    {g g' : Signings} (h : Sole k n es g) (he : e.signs k n = false)
    (hsigning : ∀ i p, p ≠ .ended → g'.signing i = some ⟨k, n, p⟩ →
      ∃ p', g.signing i = some ⟨k, n, p'⟩ ∧ (p' = p ∨ p' = .signed ∧ p = .reported))
    (hres : n ∈ g.session.reservedOf k → n ∈ g'.session.reservedOf k)
    (hspent : g.session.Spent k n → g'.session.Spent k n) : Sole k n (e :: es) g' := by
  have hcount : timesSigned k n (e :: es) = timesSigned k n es := by
    rw [timesSigned_cons, he]
    rfl
  have hlive : ∀ i, g'.Live i k n → g.Live i k n := by
    intro i hi
    obtain ⟨p', hp', hcase⟩ := hsigning i .granted nofun hi
    rcases hcase with rfl | ⟨-, hreported⟩
    · exact hp'
    · exact nomatch hreported
  refine ⟨?_, ?_, ?_, ?_, ?_⟩
  · rw [hcount]; exact h.once
  · rw [hcount]; exact fun hn => hspent (h.spent hn)
  · intro i hi
    rw [hcount]
    exact ⟨hres (h.live i (hlive i hi)).1, (h.live i (hlive i hi)).2⟩
  · intro i j hi hj; exact h.one i j (hlive i hi) (hlive j hj)
  · intro i p hi hp
    rw [hcount]
    obtain ⟨p', hp', hcase⟩ := hsigning i p (by rcases hp with rfl | rfl <;> nofun) hi
    rcases hcase with rfl | ⟨hsigned, -⟩
    · exact h.after i p' hp' hp
    · exact h.after i p' hp' (Or.inl hsigned)

/-- A nonce of which no signing is live. -/
theorem sole_of_not_live {k : String} {n : U64} {es : List Event} {g : Signings}
    (hnone : ∀ j, ¬ g.Live j k n) (honce : timesSigned k n es ≤ 1)
    (hspent : timesSigned k n es ≠ 0 → g.session.Spent k n)
    (hafter : ∀ j p, g.signing j = some ⟨k, n, p⟩ → p = .signed ∨ p = .reported →
      timesSigned k n es ≠ 0) : Sole k n es g :=
  ⟨honce, hspent, fun j hj => absurd hj (hnone j), fun j _ hj => absurd hj (hnone j), hafter⟩

/-- The nonce is granted unnamed: it was neither reserved nor spent, so nothing
    was signed at it and this signing is the only live one. -/
theorem sole_granted {k : String} {n : U64} {es : List Event} {g : Signings} {i : Nat} {o : Bool}
    {s : SigningSession} (h : Sole k n es g) (hslot : g.session.slot k n none o = (.ok n, s)) :
    Sole k n (.slot i k n none o true :: es)
      ⟨s, Function.update g.signing i (some ⟨k, n, .granted⟩)⟩ := by
  obtain ⟨-, hadm, hafter⟩ := slot_ok hslot
  have hnotlive : ∀ j, ¬ g.Live j k n := fun j hj => hadm.2.2.2.2 (h.live j hj).1
  have hzero : timesSigned k n es = 0 := by
    by_contra hn
    obtain ⟨msg, s', hrefused⟩ := slot_refuses_spent (h.spent hn) o
    rw [hslot] at hrefused
    cases hrefused
  have hcount : timesSigned k n (.slot i k n none o true :: es) = 0 := by
    rw [timesSigned_cons, hzero]
    rfl
  have hlive : ∀ j, Signings.Live
      ⟨s, Function.update g.signing i (some ⟨k, n, .granted⟩)⟩ j k n → j = i := by
    intro j hj
    rcases live_update.mp hj with ⟨hji, -⟩ | ⟨-, hold⟩
    · exact hji
    · exact absurd hold (hnotlive j)
  refine ⟨by omega, fun hn => absurd hcount hn, ?_, ?_, ?_⟩
  · intro j _
    refine ⟨?_, hcount⟩
    rw [hafter.reserved, if_pos rfl]
    exact Finset.mem_insert_self _ _
  · intro j j' hj hj'
    rw [hlive j hj, hlive j' hj']
  · intro j p hj hp
    rcases signing_update.mp hj with ⟨-, hnew⟩ | ⟨-, hold⟩
    · cases hnew
      rcases hp with hp | hp <;> cases hp
    · exact absurd hzero (h.after j p hold hp)

/-- The sole live signing of the nonce signs. -/
theorem sole_signed {k : String} {n : U64} {es : List Event} {g : Signings} {i : Nat}
    (h : Sole k n es g) (hi : g.Live i k n) :
    Sole k n (.signed i k n :: es)
      ⟨g.session.signed k n, Function.update g.signing i (some ⟨k, n, .signed⟩)⟩ := by
  have hcount : timesSigned k n (.signed i k n :: es) = 1 := by
    rw [timesSigned_cons, (h.live i hi).2, Event.signs]
    simp
  refine sole_of_not_live ?_ (by omega) (fun _ => spent_of_signed _ _ _) (fun _ _ _ _ => by omega)
  intro j hj
  rcases live_update.mp hj with ⟨-, hphase⟩ | ⟨hne, hold⟩
  · cases hphase
  · exact hne (h.one j i hold hi)

/-- A signing ends while no other signing of the nonce is live. -/
theorem sole_ended {k k' : String} {n m : U64} {es : List Event} {g : Signings} {i : Nat}
    (h : Sole k n es g) (hlive : ¬ ∃ j, j ≠ i ∧ g.Live j k n)
    (hspent : g.session.Spent k n → (g.session.release k' m).Spent k n) :
    Sole k n (.release i :: es)
      ⟨g.session.release k' m, Function.update g.signing i (some ⟨k', m, .ended⟩)⟩ := by
  have hcount : timesSigned k n (.release i :: es) = timesSigned k n es := by
    rw [timesSigned_cons]
    rfl
  refine sole_of_not_live ?_ (hcount ▸ h.once) (fun hn => hspent (h.spent (hcount ▸ hn))) ?_
  · intro j hj
    rcases live_update.mp hj with ⟨-, hphase⟩ | ⟨hne, hold⟩
    · cases hphase
    · exact hlive ⟨j, hne, hold⟩
  · intro j p hj hp
    rw [hcount]
    rcases signing_update.mp hj with ⟨-, hended⟩ | ⟨-, hold⟩
    · cases hended
      rcases hp with hp | hp <;> cases hp
    · exact h.after j p hold hp

/-- A signing of another nonce moves on, or this one is reported. -/
theorem sole_moved {k k' : String} {n m : U64} {p' : Phase} {g : Signings} {s : SigningSession}
    {i j : Nat} {p : Phase}
    (hother : k' = k ∧ m = n → p' = .reported ∧ g.signing i = some ⟨k, n, .signed⟩)
    (hj : Signings.signing ⟨s, Function.update g.signing i (some ⟨k', m, p'⟩)⟩ j
      = some ⟨k, n, p⟩) :
    ∃ q, g.signing j = some ⟨k, n, q⟩ ∧ (q = p ∨ q = .signed ∧ p = .reported) := by
  rcases signing_update.mp hj with ⟨hji, hnew⟩ | ⟨-, hold⟩
  · cases hnew
    obtain ⟨rfl, hsigned⟩ := hother ⟨rfl, rfl⟩
    exact ⟨.signed, by rw [hji, hsigned], Or.inr ⟨rfl, rfl⟩⟩
  · exact ⟨p, hold, Or.inl rfl⟩

/-- **One step that does not name the nonce keeps it sole.** -/
theorem sole_step {k : String} {n : U64} {es : List Event} {e : Event} {g g' : Signings}
    (h : Sole k n es g) (hg : Reachable g.session) (hstep : Step g e g')
    (hname : ∀ i o, e ≠ .slot i k n (some n) o true) : Sole k n (e :: es) g' := by
  have hspent := fun hs => step_spent hstep hg hs hname
  cases hstep with
  | @granted i k' r m e o s hfree hslot =>
      obtain ⟨rfl, hadm, hafter⟩ := slot_ok hslot
      by_cases hkn : k' = k ∧ m = n
      · obtain ⟨rfl, rfl⟩ := hkn
        cases e with
        | none => exact sole_granted h hslot
        | some exp =>
            obtain rfl : exp = m := hadm
            exact absurd rfl (hname i o)
      · refine sole_of_frame h rfl (fun j p _ => sole_moved (fun hboth => absurd hboth hkn)) ?_
          hspent
        intro hmem
        rw [hafter.reserved]
        split
        · next hk => exact Finset.mem_insert_of_mem (hk ▸ hmem)
        · exact hmem
  | @refused i k' r e o s msg hslot =>
      obtain ⟨-, hafter⟩ := slot_error hslot
      refine sole_of_frame h rfl (fun j p _ hj => ⟨p, hj, Or.inl rfl⟩) ?_ hspent
      intro hmem
      rw [hafter.reserved]
      exact hmem
  | @signed i k' m hi =>
      by_cases hkn : k' = k ∧ m = n
      · obtain ⟨rfl, rfl⟩ := hkn
        exact sole_signed h hi
      · have hother : Event.signs k n (.signed i k' m) = false := by simpa [Event.signs] using hkn
        exact sole_of_frame h hother (fun j p _ => sole_moved (fun hboth => absurd hboth hkn))
          (mem_reserved_release hkn) hspent
  | @outcome i k' m accepted hi =>
      refine sole_of_frame h rfl (fun j p _ => sole_moved ?_) ?_ hspent
      · rintro ⟨rfl, rfl⟩
        exact ⟨rfl, hi⟩
      · intro hmem
        rw [reservedOf_outcome]
        exact hmem
  | @release i k' m p hi hp =>
      by_cases hlive : ∃ j, j ≠ i ∧ g.Live j k n
      · -- the signing that ends is not one of this nonce: it would be a second live
        -- one, or the nonce would have been signed
        obtain ⟨j, hji, hj⟩ := hlive
        have hkn : ¬ (k' = k ∧ m = n) := by
          rintro ⟨rfl, rfl⟩
          cases p with
          | granted => exact hji (h.one j i hj hi)
          | signed => exact h.after i .signed hi (Or.inl rfl) (h.live j hj).2
          | reported => exact h.after i .reported hi (Or.inr rfl) (h.live j hj).2
          | ended => exact hp rfl
        exact sole_of_frame h rfl (fun j p _ => sole_moved (fun hboth => absurd hboth hkn))
          (mem_reserved_release hkn) hspent
      · exact sole_ended h hlive hspent
  | @noteHead c height w =>
      exact sole_of_frame h rfl (fun j p _ hj => ⟨p, hj, Or.inl rfl⟩) id hspent
  | importState ht himport =>
      refine sole_of_frame h rfl (fun j p _ hj => ⟨p, hj, Or.inl rfl⟩) ?_ hspent
      intro hmem
      rw [(restored_of_importState himport).reserved]
      exact hmem

/-- A nonce that is not named is signed for once. -/
theorem run_sole {k : String} {n : U64} {es : List Event} {g : Signings}
    (h : Run Step .fresh es g) (hname : ∀ i o, .slot i k n (some n) o true ∉ es) :
    Sole k n es g := by
  induction h with
  | nil => exact sole_fresh k n
  | @cons es e t u hrest hlast ih =>
      have hsole := ih (fun i o he => hname i o (List.mem_cons_of_mem _ he))
      refine sole_step hsole (run_reachable hrest) hlast ?_
      intro i o heq
      exact hname i o (heq ▸ List.mem_cons_self)

/-- **A signed nonce stays refused, and an unnamed one is signed once.**  In a run
    of signings that share a session, a slot call that does not name a nonce is
    refused it at every point after it was signed, unless some slot call was
    granted it by name in between; and a nonce that no slot call is granted by
    name is signed by at most one signing. -/
theorem signed_nonce_is_refused {es : List Event} {g : Signings} {k : String} {n : U64}
    (hrun : Run Step .fresh es g) :
    (∀ later i earlier, es = later ++ .signed i k n :: earlier →
      (∀ j o, .slot j k n (some n) o true ∉ later) →
      ∀ o, ∃ msg s, g.session.slot k n none o = (.error msg, s)) ∧
    ((∀ j o, .slot j k n (some n) o true ∉ es) → timesSigned k n es ≤ 1) := by
  constructor
  · intro later i earlier hes hname o
    rw [hes] at hrun
    obtain ⟨mid, hbefore, hafter⟩ := hrun.split
    cases hbefore with
    | @cons _ _ start _ hstart hsigned =>
        have hmid := step_reachable hsigned (run_reachable hstart)
        have hspent : mid.session.Spent k n := by
          cases hsigned with
          | signed hi => exact spent_of_signed _ _ _
        exact slot_refuses_spent (run_spent hafter hmid hspent hname) o
  · intro hname
    exact (run_sole hrun hname).once

/-- A nonce is granted and signed, and is then refused. -/
theorem signed_nonce_is_refused_at_seven :
    (∀ o, ∃ msg s, ((new.slot "a" 7 none false).2.signed "a" 7).slot "a" 7 none o
      = (.error msg, s)) ∧
    timesSigned "a" 7 [.signed 0 "a" 7, .slot 0 "a" 7 none false true] ≤ 1 := by
  have hgrant : Step .fresh (.slot 0 "a" 7 none false true) _ :=
    Step.granted rfl (Prod.ext (by rfl) rfl : new.slot "a" 7 none false = (.ok 7, _))
  have hrun := Run.single hgrant |>.cons (Step.signed (i := 0) (k := "a") (n := 7) (by rfl))
  obtain ⟨hrefused, honce⟩ := signed_nonce_is_refused (k := "a") (n := 7) hrun
  exact ⟨hrefused [] 0 _ rfl (by simp), honce (by simp)⟩

/-! ## A live grant excludes unnamed slot calls, while its reservation lasts -/

/-- While a signing holds a grant it has not used, its nonce is refused to every
    slot call that does not name it. -/
def Excludes (g : Signings) : Prop :=
  ∀ i k n, g.Live i k n → ∀ o, ∃ msg s, g.session.slot k n none o = (.error msg, s)

/-- A signing ends at a nonce only when no other signing holds an unsigned grant
    of it, unless a hold or the counter guards the nonce anyway. -/
def EndsAlone (g : Signings) : Event → Prop
  | .release j => ∀ k n p, g.signing j = some ⟨k, n, p⟩ →
      (∃ i, i ≠ j ∧ g.Live i k n) → g.session.Spent k n
  | _ => True

/-- Every unsigned grant is reserved, or its nonce is spent. -/
def LiveGuarded (g : Signings) : Prop :=
  ∀ i k n, g.Live i k n → n ∈ g.session.reservedOf k ∨ g.session.Spent k n

theorem excludes_of_liveGuarded {g : Signings} (h : LiveGuarded g) : Excludes g := by
  intro i k n hi o
  rcases h i k n hi with hres | hspent
  · exact slot_refuses_reserved hres o
  · exact slot_refuses_spent hspent o

/-- **One step of signings that end alone** keeps every live grant guarded. -/
theorem liveGuarded_step {g g' : Signings} {e : Event} (h : LiveGuarded g)
    (hg : Reachable g.session) (hstep : Step g e g') (halone : EndsAlone g e) :
    LiveGuarded g' := by
  have hspent := fun {k n} hs hname => step_spent (k := k) (n := n) hstep hg hs hname
  intro i k n hi
  cases hstep with
  | @granted j k' r m e o s hfree hslot =>
      obtain ⟨rfl, hadm, hafter⟩ := slot_ok hslot
      dsimp only
      rw [hafter.reserved]
      by_cases hkn : k = k' ∧ n = m
      · left
        rw [if_pos hkn.1, hkn.2]
        exact Finset.mem_insert_self _ _
      · rcases live_update.mp hi with ⟨-, hnew⟩ | ⟨-, hold⟩
        · cases hnew
          exact absurd ⟨rfl, rfl⟩ hkn
        · rcases h i k n hold with hres | hs
          · left
            split
            · next hk => exact Finset.mem_insert_of_mem (hk ▸ hres)
            · exact hres
          · right
            refine hspent hs ?_
            intro j' o' heq
            cases heq
            exact hkn ⟨rfl, rfl⟩
  | @refused j k' r e o s msg hslot =>
      obtain ⟨-, hafter⟩ := slot_error hslot
      dsimp only
      rw [hafter.reserved]
      exact (h i k n hi).imp_right (fun hs => hspent hs (fun _ _ => nofun))
  | @signed j k' m hj =>
      by_cases hkn : k = k' ∧ n = m
      · right
        rw [hkn.1, hkn.2]
        exact spent_of_signed _ _ _
      · rcases live_update.mp hi with ⟨-, hphase⟩ | ⟨-, hold⟩
        · exact nomatch hphase
        · exact (h i k n hold).imp
            (mem_reserved_release fun hboth => hkn ⟨hboth.1.symm, hboth.2.symm⟩)
            (fun hs => hspent hs (fun _ _ => nofun))
  | @outcome j k' m accepted hj =>
      rcases live_update.mp hi with ⟨-, hphase⟩ | ⟨-, hold⟩
      · exact nomatch hphase
      · refine (h i k n hold).imp ?_ (fun hs => hspent hs (fun _ _ => nofun))
        rw [reservedOf_outcome]
        exact id
  | @release j k' m p hj hp =>
      rcases live_update.mp hi with ⟨-, hphase⟩ | ⟨hne, hold⟩
      · exact nomatch hphase
      · by_cases hkn : k = k' ∧ n = m
        · -- another signing ends at this nonce: only a spent nonce survives that
          obtain ⟨rfl, rfl⟩ := hkn
          right
          exact hspent (halone k n p hj ⟨i, hne, hold⟩) (fun _ _ => nofun)
        · exact (h i k n hold).imp
            (mem_reserved_release fun hboth => hkn ⟨hboth.1.symm, hboth.2.symm⟩)
            (fun hs => hspent hs (fun _ _ => nofun))
  | @noteHead c height w =>
      exact (h i k n hi).imp_right (fun hs => hspent hs (fun _ _ => nofun))
  | importState ht himport =>
      dsimp only
      rw [(restored_of_importState himport).reserved]
      exact (h i k n hi).imp_right (fun hs => hspent hs (fun _ _ => nofun))

/-- Only finitely many names are taken, so a new signing always finds one. -/
def Roomy (g : Signings) : Prop := ∃ b, ∀ i, b ≤ i → g.signing i = none

/-- To set one signing keeps the room that there is. -/
theorem roomy_update {g : Signings} {s : SigningSession} (h : Roomy g) (j : Nat)
    (x : Option Signing) : Roomy ⟨s, Function.update g.signing j x⟩ := by
  obtain ⟨b, hb⟩ := h
  refine ⟨max b (j + 1), fun i hi => ?_⟩
  have hij : i ≠ j := by omega
  simp only [Function.update_apply, if_neg hij]
  exact hb i (by omega)

/-- A step keeps the room that there is. -/
theorem roomy_step {g g' : Signings} {e : Event} (h : Roomy g) (hstep : Step g e g') :
    Roomy g' := by
  cases hstep with
  | granted => exact roomy_update h _ _
  | refused => exact h
  | signed => exact roomy_update h _ _
  | outcome => exact roomy_update h _ _
  | release => exact roomy_update h _ _
  | noteHead => exact h
  | importState => exact h

/-- A nonce that is neither reserved nor spent is granted, if need be after the
    caller named the one before it, which drops every hold below. -/
theorem unguarded_is_granted {s : SigningSession} {k : String} {n : U64}
    (hres : n ∉ s.reservedOf k) (hspent : ¬ s.Spent k n) :
    (∃ s', s.slot k n none false = (.ok n, s')) ∨
    ∃ m s₁ s', m ≠ n ∧ s.slot k m (some m) false = (.ok m, s₁) ∧
      s₁.slot k n none false = (.ok n, s') := by
  have hnotheld : (s.heldOf k).get n = none := by
    rw [Option.eq_none_iff_forall_ne_some]
    exact fun flag hget => hspent (Or.inl (isHeld_iff.mpr ⟨flag, hget⟩))
  have hreached : ∀ reached, s.nextNonce k = some reached → reached ≤ n :=
    fun reached hnext => le_of_not_gt (fun hlt => hspent (Or.inr ⟨reached, hnext, hlt⟩))
  -- the nonce before it is named first, which drops every hold below
  by_cases hzero : n.val = 0
  · left
    rw [slot_isOk_iff]
    refine ⟨hreached, nofun, hnotheld, ?_, hres⟩
    intro m hm
    exact absurd (Fin.lt_def.mp hm) (by omega)
  · right
    obtain ⟨m, hm⟩ : ∃ m : U64, m.val + 1 = n.val :=
      ⟨⟨n.val - 1, by have := n.isLt; omega⟩, by dsimp only; omega⟩
    have hmn : m < n := by rw [Fin.lt_def]; omega
    obtain ⟨s₁, hnamed⟩ := slot_named s k m false
    obtain ⟨-, -, hafter⟩ := slot_ok hnamed
    obtain ⟨s', hslot⟩ : ∃ s', s₁.slot k n none false = (.ok n, s') := by
      rw [slot_isOk_iff]
      refine ⟨?_, nofun, ?_, ?_, ?_⟩
      · intro reached hnext
        rw [hafter.next, if_pos rfl] at hnext
        cases hnext
        refine max_le ?_ hmn.le
        cases hn : s.nextNonce k with
        | none => exact hmn.le
        | some old => exact hreached old hn
      · rw [hafter.held, if_pos rfl, get_prunedHolds]
        grind
      · intro j hj
        rw [hafter.held, if_pos rfl, get_prunedHolds, if_pos]
        · exact nofun
        · exact ⟨rfl, by rw [Fin.le_def]; rw [Fin.lt_def] at hj; omega⟩
      · rw [hafter.reserved, if_pos rfl, Finset.mem_insert, not_or]
        exact ⟨hmn.ne', hres⟩
    exact ⟨m, s₁, s', hmn.ne, hnamed, hslot⟩

/-- A nonce that is granted to one while another holds it is not kept for one alone. -/
theorem not_excludes {g : Signings} {i : Nat} {k : String} {n : U64} {s : SigningSession}
    (hi : g.Live i k n) (h : g.session.slot k n none false = (.ok n, s)) : ¬ Excludes g := by
  intro hex
  obtain ⟨msg, s', hrefused⟩ := hex i k n hi false
  rw [h] at hrefused
  exact nomatch hrefused

/-- **A live grant excludes unnamed slot calls exactly while signings end alone.**
    In every run in which no signing ends at a nonce that another one holds an
    unsigned grant of (unless the nonce is spent), a live grant keeps every
    unnamed slot call at its nonce out; and where a signing does end so, the
    run goes on to a state in which such a call is granted. -/
theorem live_grant_excludes_while_ends_alone {es : List Event} {g : Signings}
    (hrun : Run (Guarded Step EndsAlone) .fresh es g) :
    Excludes g ∧ ∀ j g', Step g (.release j) g' → ¬ EndsAlone g (.release j) →
      ∃ es' g'', Run Step g' es' g'' ∧ ¬ Excludes g'' := by
  constructor
  · have hinv : Reachable g.session ∧ LiveGuarded g :=
      Run.invariant (I := fun g => Reachable g.session ∧ LiveGuarded g) hrun
        ⟨.new, by intro i k n hi; cases hi⟩
        (fun hI hs => ⟨step_reachable hs.2 hI.1, liveGuarded_step hI.2 hI.1 hs.2 hs.1⟩)
    exact excludes_of_liveGuarded hinv.2
  · intro j g' hstep hends
    have hroomy : Roomy g' := roomy_step (Run.invariant (I := Roomy) hrun
      ⟨0, fun _ _ => rfl⟩ (fun hI hs => roomy_step hI hs.2)) hstep
    simp only [EndsAlone, not_forall] at hends
    obtain ⟨k, n, p, hj, ⟨i, hij, hi⟩, hspent⟩ := hends
    cases hstep with
    | @release _ k' n' p' hj' hp =>
        rw [hj] at hj'
        cases hj'
        have hlive : Signings.Live
            ⟨g.session.release k n, Function.update g.signing j (some ⟨k, n, .ended⟩)⟩ i k n :=
          live_update.mpr (Or.inr ⟨hij, hi⟩)
        have hfree : n ∉ (g.session.release k n).reservedOf k := by
          rw [reservedOf_release, if_pos rfl]
          exact Finset.notMem_erase _ _
        have hnot : ¬ (g.session.release k n).Spent k n := by
          rw [Spent, isHeld, heldOf_release, nextNonce_release]
          exact hspent
        rcases unguarded_is_granted hfree hnot with ⟨s', h⟩ | ⟨m, s₁, s', hmn, hnamed, h⟩
        · exact ⟨[], _, Run.nil, not_excludes hlive h⟩
        · obtain ⟨b, hb⟩ := hroomy
          have hlive' : Signings.Live ⟨s₁, Function.update
              (Function.update g.signing j (some ⟨k, n, .ended⟩)) b (some ⟨k, m, .granted⟩)⟩
              i k n := by
            refine live_update.mpr (Or.inr ⟨?_, hlive⟩)
            rintro rfl
            rw [Signings.Live, hb i (le_refl i)] at hlive
            cases hlive
          exact ⟨_, _, Run.single (Step.granted (hb b (le_refl b)) hnamed),
            not_excludes hlive' h⟩

/-- The first signing is granted nonce 5, a second one names 5 and shares the
    reservation. -/
def sharedSession : SigningSession :=
  ((new.slot "a" 5 none false).2.slot "a" 5 (some 5) false).2

/-- Two signings that have been granted one nonce. -/
def shared : Signings :=
  ⟨sharedSession, Function.update (Function.update (fun _ => none) 0
    (some ⟨"a", 5, .granted⟩)) 1 (some ⟨"a", 5, .granted⟩)⟩

/-- Two signings share a nonce when the first of them names it. -/
theorem run_shared : Run (Guarded Step EndsAlone) .fresh
    [.slot 1 "a" 5 (some 5) false true, .slot 0 "a" 5 none false true] shared := by
  have hfirst : new.slot "a" 5 none false = (.ok 5, (new.slot "a" 5 none false).2) :=
    Prod.ext (by rfl) rfl
  have hsecond : (new.slot "a" 5 none false).2.slot "a" 5 (some 5) false
      = (.ok 5, sharedSession) := Prod.ext (by rfl) rfl
  exact (Run.nil.cons ⟨trivial, .granted rfl hfirst⟩).cons ⟨trivial, .granted (by rfl) hsecond⟩

/-- When the second signing stops early it frees the reservation of the first,
    whose grant is still unsigned, and a third signing is granted the nonce. -/
theorem shared_reservation_is_freed :
    ∃ g, Run Step .fresh [.release 1, .slot 1 "a" 5 (some 5) false true,
        .slot 0 "a" 5 none false true] g ∧
      g.Live 0 "a" 5 ∧ ∃ s, g.session.slot "a" 5 none false = (.ok 5, s) := by
  refine ⟨_, (run_shared.mono (fun h => h.2)).cons
    (.release (k := "a") (n := 5) (p := .granted) (by rfl) nofun), by rfl, ?_⟩
  exact ⟨_, Prod.ext (by rfl) rfl⟩

/-- Both halves at that run: before the second signing ends the nonce is
    refused, and its end leads to a state where it is granted. -/
theorem live_grant_excludes_at_shared :
    Excludes shared ∧ ∃ g' es' g'', Step shared (.release 1) g' ∧ Run Step g' es' g'' ∧
      ¬ Excludes g'' := by
  have hrelease := Step.release (g := shared) (i := 1) (k := "a") (n := 5) (p := .granted)
    (by rfl) nofun
  have hends : ¬ EndsAlone shared (.release 1) := by
    intro h
    have hspent := h "a" 5 .granted (by rfl) ⟨0, by decide, by rfl⟩
    rcases hspent with hheld | ⟨reached, hnext, hlt⟩
    · exact absurd hheld (by decide)
    · have hfive : shared.session.nextNonce "a" = some 5 := by rfl
      rw [hfive] at hnext
      cases hnext
      exact absurd hlt (lt_irrefl _)
  obtain ⟨hexcludes, hfreed⟩ := live_grant_excludes_while_ends_alone run_shared
  obtain ⟨es', g'', hrun, hnot⟩ := hfreed 1 _ hrelease hends
  exact ⟨hexcludes, _, es', g'', hrelease, hrun, hnot⟩

end QCoreSigningRun
