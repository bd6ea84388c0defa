import Mathlib
import QCore.SessionSpentProofs

/-! # A signing that stops early

    A signing asks for its slots before it builds its transaction: an account
    call for one, a signed order for the order nonce and then the account nonce.
    It may stop at any point before it signs, because the session refuses a slot
    or because something else fails; the guards of the slots it was granted are
    then dropped, the last one first, and each releases the nonce it reserved.

    A release frees a reservation and nothing else.  But a slot call edits the
    holds of its key as soon as it is granted, and a call that names its nonce
    drops every hold up to it, so what a stopped signing named stays dropped. -/

namespace QCoreSession

open QCoreMachineInt QCoreSortedMap QCoreHashMap

namespace SigningSession

/-! ## Slots, one after the other -/

/-- What a signing asks the session for. -/
structure SlotCall where
  key : String
  reported : U64
  expected : Option U64
  order : Bool

/-- The slot of an account nonce. -/
def SlotCall.account (key : String) (nonce : U64) (expected : Option U64) : SlotCall :=
  ⟨key, nonce, expected, false⟩

/-- The slot of an order nonce. -/
def SlotCall.signedOrder (key : String) (reported : U64) (expected : Option U64) : SlotCall :=
  ⟨key, reported, expected, true⟩

/-- Ask for a nonce. -/
def ask (self : SigningSession) (c : SlotCall) : Except String U64 × SigningSession :=
  self.slot c.key c.reported c.expected c.order

/-- Every slot of the list is granted, in order. -/
inductive AllGranted : SigningSession → List SlotCall → SigningSession → Prop
  | nil {s : SigningSession} : AllGranted s [] s
  | cons {s t u : SigningSession} {c : SlotCall} {calls : List SlotCall} {n : U64}
      (hask : s.ask c = (.ok n, t)) (hrest : AllGranted t calls u) :
      AllGranted s (c :: calls) u

/-- Drop the guards of the slots granted, the last one first. -/
def giveUp (self : SigningSession) (granted : List SlotCall) : SigningSession :=
  granted.foldr (fun c self => self.release c.key c.reported) self

/-- How a signing that is granted some slots and stops before it signs leaves the
    session: it stops on its own, or on a slot it is refused. -/
inductive Stopped (s : SigningSession) (granted : List SlotCall) : SigningSession → Prop
  | failed {t : SigningSession} (hall : AllGranted s granted t) :
      Stopped s granted (t.giveUp granted)
  | refused {t u : SigningSession} {c : SlotCall} {msg : String}
      (hall : AllGranted s granted t) (hask : t.ask c = (.error msg, u)) :
      Stopped s granted (u.giveUp granted)

/-! ## What the slots do to an unaccepted hold -/

/-- To give up keeps every hold. -/
@[simp] theorem heldOf_giveUp (s : SigningSession) (granted : List SlotCall) (k : String) :
    (s.giveUp granted).heldOf k = s.heldOf k := by
  rw [giveUp]
  induction granted with
  | nil => rfl
  | cons c granted ih => rw [List.foldr_cons, heldOf_release, ih]

/-- A call that names a nonce of the key at or above this one. -/
def SlotCall.names (c : SlotCall) (k : String) (n : U64) : Prop :=
  c.key = k ∧ c.expected.isSome = true ∧ n ≤ c.reported

/-- A granted slot keeps an unaccepted hold exactly when it does not name a
    nonce at or above it. -/
theorem get_ask_granted {s t : SigningSession} {c : SlotCall} {m : U64}
    (hask : s.ask c = (.ok m, t)) {k : String} {n : U64}
    (hget : (s.heldOf k).get n = some false) :
    (¬ c.names k n → (t.heldOf k).get n = some false) ∧
      (c.names k n → (t.heldOf k).get n = none) := by
  obtain ⟨-, -, hafter⟩ := slot_ok hask
  rw [hafter.held]
  by_cases hk : k = c.key
  · rw [if_pos hk, get_prunedHolds, ← hk, hget]
    constructor
    · intro hnot
      rw [if_neg (fun h => hnot ⟨hk.symm, h⟩), if_neg]
      rintro ⟨-, h⟩
      cases h
    · rintro ⟨-, hnamed⟩
      rw [if_pos hnamed]
  · rw [if_neg hk]
    exact ⟨fun _ => hget, fun h => absurd h.1.symm hk⟩

/-- A granted slot holds nothing that was not held. -/
theorem get_ask_of_none {s t : SigningSession} {c : SlotCall} {m : U64}
    (hask : s.ask c = (.ok m, t)) {k : String} {n : U64} (hget : (s.heldOf k).get n = none) :
    (t.heldOf k).get n = none := by
  obtain ⟨-, -, hafter⟩ := slot_ok hask
  rw [hafter.held]
  by_cases hk : k = c.key
  · rw [if_pos hk, get_prunedHolds, ← hk, hget]
    simp
  · rw [if_neg hk]
    exact hget

/-- What is not held is not held after some grants. -/
theorem get_granted_of_none {s t : SigningSession} {calls : List SlotCall}
    (h : AllGranted s calls t) {k : String} {n : U64} (hget : (s.heldOf k).get n = none) :
    (t.heldOf k).get n = none := by
  induction h with
  | nil => exact hget
  | cons hask _ ih => exact ih (get_ask_of_none hask hget)

/-- **What a list of granted slots does to an unaccepted hold**: it stays unless
    one of them names a nonce at or above it, and then it is gone. -/
theorem get_granted {s t : SigningSession} {calls : List SlotCall} (h : AllGranted s calls t)
    {k : String} {n : U64} (hget : (s.heldOf k).get n = some false) :
    ((∀ c ∈ calls, ¬ c.names k n) → (t.heldOf k).get n = some false) ∧
      ((∃ c ∈ calls, c.names k n) → (t.heldOf k).get n = none) := by
  induction h with
  | nil =>
      refine ⟨fun _ => hget, ?_⟩
      rintro ⟨c, hc, -⟩
      exact absurd hc List.not_mem_nil
  | @cons s t u c calls m hask hrest ih =>
      -- the first slot that names the nonce drops the hold, and none after it
      -- brings it back
      obtain ⟨hkept, hgone⟩ := get_ask_granted hask hget
      by_cases hc : c.names k n
      · constructor
        · intro hnone
          exact absurd hc (hnone c List.mem_cons_self)
        · intro _
          exact get_granted_of_none hrest (hgone hc)
      · obtain ⟨hall, hsome⟩ := ih (hkept hc)
        constructor
        · intro hnone
          exact hall fun c' hc' => hnone c' (List.mem_cons_of_mem c hc')
        · rintro ⟨c', hc', hnames⟩
          rcases List.mem_cons.mp hc' with rfl | hc'
          · exact absurd hnames hc
          · exact hsome ⟨c', hc', hnames⟩

/-- A refused slot drops no unaccepted hold and adds none. -/
theorem get_ask_refused {s t : SigningSession} {c : SlotCall} {msg : String}
    (hask : s.ask c = (.error msg, t)) {k : String} {n : U64} {held : Option Bool}
    (hheld : held ≠ some true) (hget : (s.heldOf k).get n = held) :
    (t.heldOf k).get n = held := by
  obtain ⟨-, href⟩ := slot_error hask
  rcases href.held k with hsame | ⟨hk, -, hpruned⟩
  · rw [hsame]
    exact hget
  · subst hk
    rw [hpruned, get_prunedHolds, hget]
    simp [hheld]

/-- The unaccepted hold after a signing stopped. -/
theorem isHeld_stopped {s s' : SigningSession} {granted : List SlotCall}
    (h : Stopped s granted s') {k : String} {n : U64}
    (hget : (s.heldOf k).get n = some false) :
    s'.isHeld k n = true ↔ ∀ c ∈ granted, ¬ c.names k n := by
  -- the hold after the last call, before the guards are dropped
  have hafter : ((∀ c ∈ granted, ¬ c.names k n) → (s'.heldOf k).get n = some false) ∧
      ((∃ c ∈ granted, c.names k n) → (s'.heldOf k).get n = none) := by
    cases h with
    | failed hall =>
        rw [heldOf_giveUp]
        exact get_granted hall hget
    | refused hall hask =>
        rw [heldOf_giveUp]
        obtain ⟨hkept, hgone⟩ := get_granted hall hget
        constructor
        · intro hnone
          exact get_ask_refused hask (by simp) (hkept hnone)
        · intro hsome
          exact get_ask_refused hask (by simp) (hgone hsome)
  rw [isHeld_iff]
  constructor
  · rintro ⟨flag, hflag⟩ c hc hnames
    rw [hafter.2 ⟨c, hc, hnames⟩] at hflag
    cases hflag
  · intro hnone
    exact ⟨false, hafter.1 hnone⟩

/-- **What a stopped signing leaves of the holds**: every nonce signed and not
    accepted is held as before exactly when none of the slots it was granted
    names a nonce at or above one of them. -/
theorem stopped_signing_keeps_holds_iff {s s' : SigningSession} {granted : List SlotCall}
    (h : Stopped s granted s') :
    (∀ k n, (s.heldOf k).get n = some false → s'.isHeld k n = s.isHeld k n) ↔
      ∀ c ∈ granted, c.expected.isSome = true →
        ∀ n ≤ c.reported, (s.heldOf c.key).get n ≠ some false := by
  constructor
  · intro hkeeps c hc hnamed n hn hget
    have hheld : s'.isHeld c.key n = true :=
      (hkeeps c.key n hget).trans (isHeld_iff.mpr ⟨false, hget⟩)
    exact (isHeld_stopped h hget).mp hheld c hc ⟨rfl, hnamed, hn⟩
  · intro hclear k n hget
    have hbefore : s.isHeld k n = true := isHeld_iff.mpr ⟨false, hget⟩
    rw [hbefore, isHeld_stopped h hget]
    rintro c hc ⟨rfl, hnamed, hn⟩
    exact hclear c hc hnamed n hn hget

/-- A session that signed an order at nonce 0, and does not know its outcome. -/
def signedZero : SigningSession := (new.slot "o" 0 none true).2.signed "o" 0

theorem reachable_signedZero : Reachable signedZero :=
  .call (.signed "o" 0) (.call (.slot "o" 0 none true) .new)

/-- The same order nonce, named. -/
def namedZero : SlotCall := .signedOrder "o" 0 (some 0)

/-- An account nonce the gateway does not report. -/
def unreported : SlotCall := .account "k" 5 (some 4)

theorem stopped_namedZero : Stopped signedZero [namedZero]
    (((signedZero.ask namedZero).2.ask unreported).2.giveUp [namedZero]) :=
  .refused
    (.cons (Prod.ext (by rfl) rfl : signedZero.ask namedZero = (.ok 0, _)) .nil)
    (Prod.ext (by rfl) rfl : (signedZero.ask namedZero).2.ask unreported = (.error _, _))

/-- A signed order that names its nonce and is refused its second slot leaves
    the nonce free, and the next signing need not name it. -/
theorem stopped_named_signing_loses_hold :
    ∃ s', Reachable signedZero ∧ Stopped signedZero [namedZero] s' ∧
      (signedZero.heldOf "o").get 0 = some false ∧ signedZero.isHeld "o" 0 = true ∧
      s'.isHeld "o" 0 = false ∧ (s'.slot "o" 0 none true).1 = .ok 0 :=
  ⟨_, reachable_signedZero, stopped_namedZero, by rfl, by rfl, by rfl, by rfl⟩

/-- A signing of another key that names nothing leaves the order nonce held. -/
theorem stopped_signing_keeps_holds_at_unnamed :
    ∃ s', Stopped signedZero [.account "j" 4 none] s' ∧
      s'.isHeld "o" 0 = signedZero.isHeld "o" 0 := by
  have hgranted : signedZero.ask (.account "j" 4 none) = (.ok 4, _) := Prod.ext (by rfl) rfl
  have hstopped := Stopped.failed (.cons hgranted .nil)
  refine ⟨_, hstopped, (stopped_signing_keeps_holds_iff hstopped).mpr ?_ "o" 0 (by rfl)⟩
  intro c hc hnamed
  rw [List.mem_singleton.mp hc] at hnamed
  cases hnamed

end SigningSession

end QCoreSession
