import Mathlib
import QCore.TransitionProofs
import QCore.SessionSpentProofs

/-! # A gateway cannot steer an order nonce

    An order stays valid until its contract reaches its nonce, so a session
    takes an order nonce from the gateway only where it tracked it itself.  In a
    run of calls on a fresh session in which the slot calls of a key are all
    unnamed order calls, and signings sign what they were granted and report what
    they signed, the counter of the key says how many of its nonces were reported
    accepted: they are exactly the nonces below it (`Tracked`).

    The counter stops at the last nonce of all.  Once that one is accepted it is
    held for good, since no nonce reported is past it, and nothing more is
    granted. -/

namespace QCoreSession

open QCoreMachineInt QCoreSortedMap QCoreHashMap QCoreTransition

namespace SigningSession

/-! ## Runs of calls -/

/-- A call on the session and what it answered. -/
def Called (s : SigningSession) (e : Call × Answer) (s' : SigningSession) : Prop :=
  s.call e.1 = (e.2, s')

/-- A slot call was granted the nonce. -/
def GrantedIn (k : String) (n : U64) (es : List (Call × Answer)) : Prop :=
  ∃ r e o, (Call.slot k r e o, Answer.slot (.ok n)) ∈ es

/-- The nonce was signed. -/
def SignedIn (k : String) (n : U64) (es : List (Call × Answer)) : Prop :=
  (Call.signed k n, Answer.done) ∈ es

/-- The nonces of a key reported accepted, each once. -/
def acceptedNonces (k : String) : List (Call × Answer) → Finset U64
  | [] => ∅
  | (.outcome key n accepted, _) :: earlier =>
      if key = k ∧ accepted = true then insert n (acceptedNonces k earlier)
      else acceptedNonces k earlier
  | _ :: earlier => acceptedNonces k earlier

/-- A call the signings of a key may make: an unnamed order slot, a signature at
    a nonce that was granted, an outcome of a nonce that was signed.  Calls on
    other keys are free. -/
def Allowed (k : String) (earlier : List (Call × Answer)) : Call → Prop
  | .slot key _ expected order => key = k → expected = none ∧ order = true
  | .signed key n => key = k → GrantedIn k n earlier
  | .outcome key n _ => key = k → SignedIn k n earlier
  | _ => True

/-- Every call of a run, newest first, is one the signings of the key may make. -/
def OrdersOnly (k : String) : List (Call × Answer) → Prop
  | [] => True
  | (c, _) :: earlier => Allowed k earlier c ∧ OrdersOnly k earlier

/-! ## What the counter counts -/

/-- The counter of a key, 0 before the first grant. -/
def tracked (s : SigningSession) (k : String) : U64 := (s.nextNonce k).getD 0

/-- The last nonce of all is held and the counter stands there. -/
def Exhausted (s : SigningSession) (k : String) : Prop :=
  ∃ last : U64, (∀ n : U64, n ≤ last) ∧ s.nextNonce k = some last ∧ s.isHeld k last = true

/-- Nothing was granted or signed past the counter, and the nonces below it are
    those reported accepted. -/
structure Tracked (k : String) (es : List (Call × Answer)) (s : SigningSession) : Prop where
  granted : ∀ n, GrantedIn k n es → n ≤ s.tracked k
  signed : ∀ n, SignedIn k n es → n ≤ s.tracked k
  accepted : (∀ n, n ∈ acceptedNonces k es ↔ n < s.tracked k) ∨ s.Exhausted k

/-- An order nonce is taken only where the counter is not below it. -/
theorem orderRefusal_eq_none {next : Option U64} {r : U64}
    (h : orderRefusal next r = none) : r ≤ next.getD 0 := by
  cases next with
  | none =>
      have hzero : ¬ 0 < r := by
        intro hpos
        simp [orderRefusal, hpos] at h
      exact not_lt.mp hzero
  | some reached =>
      have hle : ¬ reached < r := by
        intro hlt
        simp [orderRefusal, hlt] at h
      exact not_lt.mp hle

/-- An unnamed order call is granted the counter and nothing else. -/
theorem order_granted_at_tracked {s s' : SigningSession} {k : String} {r n : U64}
    (h : s.slot k r none true = (.ok n, s')) :
    n = r ∧ r = s.tracked k ∧ ¬ s.Exhausted k ∧ s'.tracked k = s.tracked k := by
  obtain ⟨hn, ⟨hbehind, horder, hfree, -, -⟩, hafter⟩ := slot_ok h
  -- not behind the counter and not above it, so it is the counter
  have htracked : r = s.tracked k := by
    refine le_antisymm (orderRefusal_eq_none (horder rfl)) ?_
    rw [tracked]
    cases hnext : s.nextNonce k with
    | none => exact Fin.zero_le r
    | some reached => exact hbehind reached hnext
  refine ⟨hn, htracked, ?_, ?_⟩
  · rintro ⟨last, -, hnext, hheld⟩
    rw [tracked, hnext] at htracked
    obtain rfl : r = last := htracked
    obtain ⟨flag, hget⟩ := isHeld_iff.mp hheld
    rw [hfree] at hget
    cases hget
  · rw [tracked, hafter.next, if_pos rfl, ← htracked]
    show max ((s.nextNonce k).getD r) r = r
    refine max_eq_right ?_
    cases hnext : s.nextNonce k with
    | none => exact le_refl r
    | some reached => exact hbehind reached hnext

/-- A slot call keeps the last nonce held, whatever it answers, as nothing is
    reported past it. -/
theorem exhausted_refused {s s' : SigningSession} {k k' : String} {r : U64} {e : Option U64}
    {o : Bool} {msg : String} (h : s.slot k' r e o = (.error msg, s')) (hend : s.Exhausted k) :
    s'.Exhausted k := by
  obtain ⟨-, href⟩ := slot_error h
  obtain ⟨last, hlast, hnext, hheld⟩ := hend
  refine ⟨last, hlast, by rw [href.next, hnext], ?_⟩
  rcases href.held k with hsame | ⟨hk, -, hpruned⟩
  · rw [isHeld, hsame]
    exact hheld
  · obtain ⟨flag, hget⟩ := isHeld_iff.mp hheld
    refine isHeld_iff.mpr ⟨flag, ?_⟩
    rw [hpruned, get_prunedHolds, ← hk, hget, if_neg, if_neg]
    · exact fun hpassed => absurd hpassed.1 (not_lt.mpr (hlast r))
    · exact fun hnamed => absurd hnamed.1 (by simp)

/-- A session with the same counter of the key, and every hold of it. -/
theorem Exhausted.mono {s s' : SigningSession} {k : String}
    (hnext : s'.nextNonce k = s.nextNonce k)
    (hheld : ∀ n, s.isHeld k n = true → s'.isHeld k n = true) (hend : s.Exhausted k) :
    s'.Exhausted k := by
  obtain ⟨last, hlast, hreached, hlastHeld⟩ := hend
  exact ⟨last, hlast, hnext.trans hreached, hheld last hlastHeld⟩

/-! ## One call -/

/-- What one more call has to show: the counter did not fall, what the call
    granted or signed is not past it, and it counts the acceptances. -/
theorem Tracked.step {k : String} {es : List (Call × Answer)} {e : Call × Answer}
    {s s' : SigningSession} (h : Tracked k es s) (hgrows : s.tracked k ≤ s'.tracked k)
    (hgranted : ∀ r n e' o, e = (Call.slot k r e' o, Answer.slot (.ok n)) → n ≤ s'.tracked k)
    (hsigned : ∀ n, e = (Call.signed k n, Answer.done) → n ≤ s'.tracked k)
    (haccepted : (∀ n, n ∈ acceptedNonces k (e :: es) ↔ n < s'.tracked k) ∨ s'.Exhausted k) :
    Tracked k (e :: es) s' := by
  refine ⟨?_, ?_, haccepted⟩
  · rintro n ⟨r, e', o, hmem⟩
    rcases List.mem_cons.mp hmem with heq | hmem
    · exact hgranted r n e' o heq.symm
    · exact (h.granted n ⟨r, e', o, hmem⟩).trans hgrows
  · intro n hmem
    rcases List.mem_cons.mp hmem with heq | hmem
    · exact hsigned n heq.symm
    · exact (h.signed n hmem).trans hgrows

/-- A call that adds nothing to the history of the key keeps the nonces tracked. -/
theorem Tracked.frame {k : String} {es : List (Call × Answer)} {e : Call × Answer}
    {s s' : SigningSession} (h : Tracked k es s)
    (hgranted : ∀ r n e' o, e ≠ (Call.slot k r e' o, Answer.slot (.ok n)))
    (hsigned : ∀ n, e ≠ (Call.signed k n, Answer.done))
    (haccepted : acceptedNonces k (e :: es) = acceptedNonces k es)
    (hnext : s'.nextNonce k = s.nextNonce k) (hend : s.Exhausted k → s'.Exhausted k) :
    Tracked k (e :: es) s' := by
  have htracked : s'.tracked k = s.tracked k := by rw [tracked, tracked, hnext]
  refine h.step htracked.ge ?_ ?_ ?_
  · intro r n e' o heq
    exact absurd heq (hgranted r n e' o)
  · intro n heq
    exact absurd heq (hsigned n)
  · rw [haccepted, htracked]
    exact h.accepted.imp id hend

/-- A granted unnamed order call of the key. -/
theorem Tracked.order_granted {k : String} {es : List (Call × Answer)} {s s' : SigningSession}
    {r n : U64} (h : Tracked k es s) (hslot : s.slot k r none true = (.ok n, s')) :
    Tracked k ((Call.slot k r none true, Answer.slot (.ok n)) :: es) s' := by
  obtain ⟨rfl, hcounter, hnotend, hkept⟩ := order_granted_at_tracked hslot
  refine h.step hkept.ge ?_ ?_ ?_
  · rintro r' m e' o' ⟨⟩
    rw [hkept]
    exact hcounter.le
  · rintro m ⟨⟩
  · rw [hkept]
    exact Or.inl (h.accepted.resolve_right hnotend)

/-- A hold that is put in place of another, or next to it, drops none. -/
theorem Exhausted.held {s s' : SigningSession} {k : String} (n : U64) (flag : Bool)
    (hnext : ∀ last : U64, (∀ m : U64, m ≤ last) → s.nextNonce k = some last →
      s'.nextNonce k = some last)
    (hheld : s'.heldOf k = (s.heldOf k).insert n flag) (hend : s.Exhausted k) :
    s'.Exhausted k := by
  obtain ⟨last, hlast, hreached, hlastHeld⟩ := hend
  refine ⟨last, hlast, hnext last hlast hreached, ?_⟩
  obtain ⟨old, hget⟩ := isHeld_iff.mp hlastHeld
  rw [isHeld_iff, hheld, SortedMap.get_insert]
  split
  · exact ⟨flag, rfl⟩
  · exact ⟨old, hget⟩

/-- Signing a nonce that was granted. -/
theorem Tracked.sign {k : String} {es : List (Call × Answer)} {s : SigningSession} {n : U64}
    (h : Tracked k es s) (hgranted : GrantedIn k n es) :
    Tracked k ((Call.signed k n, Answer.done) :: es) (s.signed k n) := by
  have hkept : (s.signed k n).tracked k = s.tracked k := by
    rw [tracked, tracked, nextNonce_signed]
  refine h.step hkept.ge ?_ ?_ ?_
  · rintro r m e o ⟨⟩
  · rintro m ⟨⟩
    rw [hkept]
    exact h.granted n hgranted
  · rw [hkept]
    refine h.accepted.imp id (Exhausted.held n false ?_ ?_)
    · intro last _ hreached
      rw [nextNonce_signed, hreached]
    · rw [heldOf_signed, if_pos rfl]

/-- The counter after an acceptance at or below it: it moves on when the nonce is
    the counter itself. -/
theorem tracked_outcome (s : SigningSession) (k : String) (n : U64) :
    (s.outcome k n true).tracked k = max (s.tracked k) (saturatingAdd n 1) := by
  rw [tracked, nextNonce_outcome, if_pos ⟨rfl, rfl⟩]
  rfl

/-- Reporting a nonce that was signed. -/
theorem Tracked.report {k : String} {es : List (Call × Answer)} {s : SigningSession} {n : U64}
    (h : Tracked k es s) (hsigned : SignedIn k n es) :
    Tracked k ((Call.outcome k n true, Answer.done) :: es) (s.outcome k n true) := by
  have hreached : n ≤ s.tracked k := h.signed n hsigned
  have hgrows : s.tracked k ≤ (s.outcome k n true).tracked k := by
    rw [tracked_outcome]
    exact le_max_left _ _
  refine h.step hgrows ?_ ?_ ?_
  · rintro r m e o ⟨⟩
  · rintro m ⟨⟩
  · rcases h.accepted with hcount | hend
    · by_cases hlast : ∀ m : U64, m ≤ n
      · -- the last nonce of all: the counter cannot move on, the hold stays
        right
        refine ⟨n, hlast, ?_, ?_⟩
        · rw [nextNonce_outcome, if_pos ⟨rfl, rfl⟩]
          exact congrArg some (le_antisymm (hlast _) (le_max_of_le_left hreached))
        · refine isHeld_iff.mpr ⟨true, ?_⟩
          rw [heldOf_outcome, if_pos ⟨rfl, rfl⟩, SortedMap.get_insert, if_pos rfl]
      · left
        push Not at hlast
        obtain ⟨above, habove⟩ := hlast
        have hone : (1 : U64).val = 1 := rfl
        have hsucc : (saturatingAdd n 1).val = n.val + 1 := by
          rw [saturatingAdd_val, hone]
          have := above.isLt
          rw [Fin.lt_def] at habove
          omega
        -- an acceptance at the counter moves it on by one; one below it was counted
        -- before
        intro m
        show m ∈ (if k = k ∧ true = true then insert n (acceptedNonces k es)
          else acceptedNonces k es) ↔ _
        rw [if_pos ⟨rfl, rfl⟩, Finset.mem_insert, hcount, tracked_outcome, lt_max_iff,
          Fin.lt_def (a := m) (b := saturatingAdd n 1), hsucc, Fin.ext_iff]
        rw [Fin.le_def] at hreached
        rw [Fin.lt_def]
        omega
    · right
      refine Exhausted.held n true ?_ ?_ hend
      · intro last hlast hnext
        rw [nextNonce_outcome, if_pos ⟨rfl, rfl⟩, hnext]
        exact congrArg some (max_eq_left (hlast _))
      · rw [heldOf_outcome, if_pos ⟨rfl, rfl⟩]

/-- **One call the signings of a key may make keeps its nonces tracked.** -/
theorem tracked_call {k : String} {es : List (Call × Answer)} {e : Call × Answer}
    {s s' : SigningSession} (h : Tracked k es s) (hcall : Called s e s')
    (hallowed : Allowed k es e.1) : Tracked k (e :: es) s' := by
  obtain ⟨c, answer⟩ := e
  cases c with
  | slot key r expected order =>
      cases hslot : s.slot key r expected order with
      | mk res t =>
          rw [Called, call, hslot] at hcall
          cases hcall
          cases res with
          | error msg =>
              obtain ⟨-, href⟩ := slot_error hslot
              -- a refused call raises no counter and is no grant
              refine h.frame ?_ ?_ rfl (href.next k) (exhausted_refused hslot)
              · intro r' n e' o' heq
                cases heq
              · intro n heq
                cases heq
          | ok n =>
              by_cases hk : key = k
              · subst hk
                obtain ⟨rfl, rfl⟩ := hallowed rfl
                exact h.order_granted hslot
              · obtain ⟨-, -, hafter⟩ := slot_ok hslot
                have hother : k ≠ key := Ne.symm hk
                have hnext : s'.nextNonce k = s.nextNonce k := by
                  rw [hafter.next, if_neg hother]
                refine h.frame ?_ ?_ rfl hnext (Exhausted.mono hnext ?_)
                · intro r' m e' o' heq
                  cases heq
                  exact hk rfl
                · intro m heq
                  cases heq
                · intro m hheld
                  rw [isHeld, hafter.held, if_neg hother]
                  exact hheld
  | signed key n =>
      cases hcall
      by_cases hk : key = k
      · subst hk
        exact h.sign (hallowed rfl)
      · have hother : k ≠ key := Ne.symm hk
        have hnext := nextNonce_signed s key k n
        refine h.frame ?_ ?_ rfl hnext (Exhausted.mono hnext ?_)
        · intro r m e' o' heq
          cases heq
        · intro m heq
          cases heq
          exact hk rfl
        · intro m hheld
          rw [isHeld, heldOf_signed, if_neg hother]
          exact hheld
  | outcome key n accepted =>
      cases hcall
      by_cases hk : key = k ∧ accepted = true
      · obtain ⟨rfl, rfl⟩ := hk
        exact h.report (hallowed rfl)
      · have hnone : ¬ (accepted = true ∧ k = key) := fun hboth => hk ⟨hboth.2.symm, hboth.1⟩
        have hnext : (s.outcome key n accepted).nextNonce k = s.nextNonce k := by
          rw [nextNonce_outcome, if_neg hnone]
        refine h.frame ?_ ?_ (if_neg hk) hnext (Exhausted.mono hnext ?_)
        · intro r m e' o' heq
          cases heq
        · intro m heq
          cases heq
        · intro m hheld
          rw [isHeld, heldOf_outcome, if_neg hnone]
          exact hheld
  | release key n =>
      cases hcall
      have hnext := nextNonce_release s key k n
      refine h.frame ?_ ?_ rfl hnext (Exhausted.mono hnext ?_)
      · intro r m e' o' heq
        cases heq
      · intro m heq
        cases heq
      · intro m hheld
        rw [isHeld, heldOf_release]
        exact hheld
  | _ =>
      -- a head noted, or a call that only reads
      cases hcall
      refine h.frame ?_ ?_ rfl rfl id
      · intro r m e' o' heq
        cases heq
      · intro m heq
        cases heq

/-- A whole run keeps the nonces of the key tracked. -/
theorem run_tracked {k : String} {es : List (Call × Answer)} {s : SigningSession}
    (hrun : Run Called new es s) (horders : OrdersOnly k es) : Tracked k es s := by
  induction hrun with
  | nil =>
      refine ⟨?_, ?_, Or.inl ?_⟩
      · rintro n ⟨r, e, o, hmem⟩
        exact absurd hmem List.not_mem_nil
      · intro n hmem
        exact absurd hmem List.not_mem_nil
      · intro n
        show n ∈ (∅ : Finset U64) ↔ n < (0 : U64)
        simp
  | cons _ hlast ih =>
      obtain ⟨hallowed, hearlier⟩ := horders
      exact tracked_call (ih hearlier) hlast hallowed

/-- **An unnamed order nonce is the number of orders accepted so far.**  Whatever
    the gateway reported in between, a slot call for an order is granted only the
    number of distinct nonces of its key that were reported accepted. -/
theorem order_nonce_counts_accepted {k : String} {es : List (Call × Answer)}
    {s s' : SigningSession} {r n : U64} (hrun : Run Called new es s) (horders : OrdersOnly k es)
    (hslot : s.slot k r none true = (.ok n, s')) :
    n = r ∧ r.val = (acceptedNonces k es).card := by
  obtain ⟨hn, hcounter, hnotend, -⟩ := order_granted_at_tracked hslot
  -- the accepted nonces are those below the counter, as many as it says
  have hcount := (run_tracked hrun horders).accepted.resolve_right hnotend
  have hbelow : acceptedNonces k es = Finset.Iio r := by
    ext m
    rw [hcount, Finset.mem_Iio, hcounter]
  refine ⟨hn, ?_⟩
  rw [hbelow, Fin.card_Iio]

/-- One order accepted, then the next one is granted nonce 1. -/
theorem order_nonce_counts_accepted_once :
    ∃ s s', Run Called new [(.outcome "o" 0 true, .done), (.signed "o" 0, .done),
        (.slot "o" 0 none true, .slot (.ok 0))] s ∧
      s.slot "o" 1 none true = (.ok 1, s') ∧
      (1 : U64).val = (acceptedNonces "o" [(.outcome "o" 0 true, .done), (.signed "o" 0, .done),
        (.slot "o" 0 none true, .slot (.ok 0))]).card := by
  have hgranted : Called new (.slot "o" 0 none true, .slot (.ok 0))
      (new.slot "o" 0 none true).2 := by rfl
  have hsigned : Called (new.slot "o" 0 none true).2 (.signed "o" 0, .done) _ := rfl
  have hreported : Called ((new.slot "o" 0 none true).2.signed "o" 0)
      (.outcome "o" 0 true, .done) _ := rfl
  have hrun := ((Run.single hgranted).cons hsigned).cons hreported
  have hslot : (((new.slot "o" 0 none true).2.signed "o" 0).outcome "o" 0 true).slot "o" 1 none true
      = (.ok 1, _) := Prod.ext (by rfl) rfl
  refine ⟨_, _, hrun, hslot, (order_nonce_counts_accepted hrun ?_ hslot).2⟩
  refine ⟨?_, ?_, ?_, trivial⟩
  · intro _
    exact List.mem_cons_self
  · intro _
    exact ⟨0, none, true, List.mem_cons_self⟩
  · intro _
    exact ⟨rfl, rfl⟩

end SigningSession

end QCoreSession
