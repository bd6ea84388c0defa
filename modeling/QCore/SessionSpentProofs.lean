import Mathlib
import QCore.SessionRestoreProofs

/-! # Spent nonces stay spent

    A nonce of a key is SPENT in a session when the session holds it or the
    counter of the key has passed it.  A spent nonce is refused to every slot
    call that does not name it, and every call but the one that names it keeps
    it spent.

    Pruning is what makes this delicate: a slot call drops accepted holds below
    the nonce it reports, also when it then refuses and raises no counter.  Such
    a hold is safe to drop because the counter passed it when the outcome was
    accepted, and never came back (`AcceptedPassed`).  The last nonce of all has
    no successor to raise the counter to, and is never below a reported one. -/

namespace QCoreSession

open QCoreMachineInt QCoreSortedMap QCoreHashMap

namespace SigningSession

/-- Held, or below the counter of its key. -/
def Spent (s : SigningSession) (k : String) (n : U64) : Prop :=
  s.isHeld k n = true ∨ ∃ reached, s.nextNonce k = some reached ∧ n < reached

/-- The counter of a key is past every accepted hold of it. -/
def AcceptedPassed (s : SigningSession) : Prop :=
  ∀ k n, (s.heldOf k).get n = some true →
    ∃ reached, s.nextNonce k = some reached ∧ saturatingAdd n 1 ≤ reached

/-- The sessions any sequence of calls and restored texts leads to. -/
inductive Reachable : SigningSession → Prop
  | new : Reachable new
  | call {s} (c : Call) : Reachable s → Reachable (s.call c).2
  | importState {s t} : Reachable s → Reachable t →
      Reachable (s.importState t.exportState).2

/-! ## What a spent nonce means -/

/-- A slot call that does not name a spent nonce is refused it. -/
theorem slot_refuses_spent {s : SigningSession} {k : String} {n : U64}
    (h : s.Spent k n) (o : Bool) : ∃ msg s', s.slot k n none o = (.error msg, s') := by
  cases hres : s.slot k n none o with
  | mk res s' =>
      cases res with
      | error msg => exact ⟨msg, s', rfl⟩
      | ok m =>
          obtain ⟨-, ⟨hreached, -, hheld, -, -⟩, -⟩ := slot_ok hres
          rcases h with h | ⟨reached, hnext, hlt⟩
          · obtain ⟨accepted, hget⟩ := isHeld_iff.mp h
            rw [hheld] at hget
            exact nomatch hget
          · exact absurd hlt (not_lt.mpr (hreached reached hnext))

/-- A reserved nonce is refused to a slot call that does not name it. -/
theorem slot_refuses_reserved {s : SigningSession} {k : String} {n : U64}
    (h : n ∈ s.reservedOf k) (o : Bool) :
    ∃ msg s', s.slot k n none o = (.error msg, s') := by
  cases hres : s.slot k n none o with
  | mk res s' =>
      cases res with
      | error msg => exact ⟨msg, s', rfl⟩
      | ok m =>
          obtain ⟨-, ⟨-, -, -, -, hfree⟩, -⟩ := slot_ok hres
          exact absurd h hfree

theorem spent_of_signed (s : SigningSession) (k : String) (n : U64) :
    (s.signed k n).Spent k n := by
  refine Or.inl (isHeld_iff.mpr ⟨false, ?_⟩)
  rw [heldOf_signed, if_pos rfl]
  grind

/-! ## One call -/

/-- Naming its nonce always grants it. -/
theorem slot_named (s : SigningSession) (k : String) (n : U64) (o : Bool) :
    ∃ s', s.slot k n (some n) o = (.ok n, s') :=
  (slot_isOk_iff s k n (some n) o).mpr rfl

/-- After a request an accepted nonce is still passed. -/
theorem acceptedPassed_slot {s s' : SigningSession} {k : String} {r : U64} {e : Option U64}
    {o : Bool} {res : Except String U64} (hinv : s.AcceptedPassed)
    (h : s.slot k r e o = (res, s')) : s'.AcceptedPassed := by
  intro k' n hget
  cases res with
  | ok m =>
      obtain ⟨-, -, hg⟩ := slot_ok h
      rw [hg.held] at hget
      rw [hg.next]
      split at hget
      · next hk =>
          rw [get_prunedHolds] at hget
          have hold : (s.heldOf k).get n = some true := by grind
          obtain ⟨reached, hnext, hle⟩ := hinv k n hold
          rw [if_pos hk]
          refine ⟨_, rfl, ?_⟩
          rw [hnext]
          exact le_max_of_le_left hle
      · next hk =>
          rw [if_neg hk]
          exact hinv k' n hget
  | error msg =>
      obtain ⟨-, href⟩ := slot_error h
      rw [href.next]
      rcases href.held k' with hsame | ⟨hk, -, hpruned⟩
      · rw [hsame] at hget
        exact hinv k' n hget
      · rw [hpruned, get_prunedHolds] at hget
        rw [hk]
        exact hinv k n (by grind)

/-- What a granted slot call does to a spent nonce it does not name. -/
theorem spent_slot_ok {s s' : SigningSession} {k k' : String} {r m n : U64} {e : Option U64}
    {o : Bool} (hs : s.Spent k' n) (h : s.slot k r e o = (.ok m, s'))
    (hname : ¬ (k = k' ∧ r = n ∧ e = some n)) :
    s'.Spent k' n := by
  obtain ⟨-, hadm, hg⟩ := slot_ok h
  by_cases hk : k' = k
  · subst hk
    rcases hs with hheld | ⟨reached, hnext, hlt⟩
    · obtain ⟨accepted, hget⟩ := isHeld_iff.mp hheld
      by_cases hkept : (prunedHolds (s.heldOf k') r e).get n = none
      · -- a dropped hold lies below the counter the call leaves
        refine Or.inr ⟨_, by rw [hg.next, if_pos rfl], ?_⟩
        rw [get_prunedHolds] at hkept
        -- an unnamed call drops only what lies below it, a named one also itself
        have hlt : n < r := by
          rcases lt_trichotomy n r with hlt | heq | hgt
          · exact hlt
          · cases e with
            | none => grind
            | some exp =>
                have hexp : exp = r := hadm
                exact absurd ⟨rfl, heq.symm, by rw [hexp, heq]⟩ hname
          · grind
        exact lt_max_of_lt_right hlt
      · obtain ⟨flag, hflag⟩ := Option.ne_none_iff_exists'.mp hkept
        refine Or.inl (isHeld_iff.mpr ⟨flag, ?_⟩)
        rw [hg.held, if_pos rfl, hflag]
    · refine Or.inr ⟨_, by rw [hg.next, if_pos rfl], ?_⟩
      rw [hnext]
      exact lt_max_of_lt_left hlt
  · rcases hs with hheld | ⟨reached, hnext, hlt⟩
    · refine Or.inl ?_
      rw [isHeld, hg.held, if_neg hk]
      exact hheld
    · exact Or.inr ⟨reached, by rw [hg.next, if_neg hk, hnext], hlt⟩

/-- A refused slot call keeps every spent nonce spent: a hold it drops was
    accepted, so the counter is past it. -/
theorem spent_slot_error {s s' : SigningSession} {k k' : String} {r n : U64} {e : Option U64}
    {o : Bool} {msg : String} (hinv : s.AcceptedPassed) (hs : s.Spent k' n)
    (h : s.slot k r e o = (.error msg, s')) : s'.Spent k' n := by
  obtain ⟨-, href⟩ := slot_error h
  rcases hs with hheld | ⟨reached, hnext, hlt⟩
  · rcases href.held k' with hsame | ⟨hk, -, hpruned⟩
    · refine Or.inl ?_
      rw [isHeld, hsame]
      exact hheld
    · obtain ⟨accepted, hget⟩ := isHeld_iff.mp hheld
      by_cases hdrop : n < r ∧ accepted = true
      · obtain ⟨hlt, rfl⟩ := hdrop
        obtain ⟨reached, hnext, hle⟩ := hinv k' n hget
        refine Or.inr ⟨reached, by rw [href.next, hnext], ?_⟩
        have hsucc : n < saturatingAdd n 1 := by
          rw [Fin.lt_def, saturatingAdd_val]
          grind
        exact lt_of_lt_of_le hsucc hle
      · refine Or.inl (isHeld_iff.mpr ⟨accepted, ?_⟩)
        rw [hpruned, get_prunedHolds, ← hk, hget]
        grind
  · exact Or.inr ⟨reached, by rw [href.next, hnext], hlt⟩

/-- After any call it is still passed. -/
theorem acceptedPassed_call {s : SigningSession} (hinv : s.AcceptedPassed) (c : Call) :
    (s.call c).2.AcceptedPassed := by
  cases c with
  | slot k r e o => exact acceptedPassed_slot hinv rfl
  | signed k m =>
      intro k' n hget
      simp only [call, heldOf_signed, nextNonce_signed] at hget ⊢
      exact hinv k' n (by grind)
  | outcome k m accepted =>
      intro k' n hget
      simp only [call, heldOf_outcome] at hget
      simp only [call, nextNonce_outcome]
      by_cases hk : accepted = true ∧ k' = k
      · rw [if_pos hk] at hget ⊢
        refine ⟨_, rfl, ?_⟩
        by_cases hn : n = m
        · rw [hn]
          exact le_max_right _ _
        · have hold : (s.heldOf k).get n = some true := by grind
          obtain ⟨reached, hnext, hle⟩ := hinv k n hold
          rw [hnext]
          exact le_max_of_le_left hle
      · rw [if_neg hk] at hget ⊢
        exact hinv k' n hget
  | release k m =>
      intro k' n hget
      simp only [call, heldOf_release, nextNonce_release] at hget ⊢
      exact hinv k' n hget
  | noteHead c height wallSecs => exact hinv
  | nextNonce k => exact hinv
  | isHeld k m => exact hinv
  | headFloor c => exact hinv

/-- **One call keeps a spent nonce spent**, unless it names that nonce. -/
theorem spent_call {s : SigningSession} {k : String} {n : U64} (hinv : s.AcceptedPassed)
    (hs : s.Spent k n) (c : Call) (hname : ∀ o, c ≠ .slot k n (some n) o) :
    (s.call c).2.Spent k n := by
  cases c with
  | slot k' r e o =>
      cases hres : s.slot k' r e o with
      | mk res s' =>
          have hafter : (s.call (.slot k' r e o)).2 = s' := by rw [call, hres]
          rw [hafter]
          cases res with
          | error msg => exact spent_slot_error hinv hs hres
          | ok m =>
              refine spent_slot_ok hs hres ?_
              rintro ⟨rfl, rfl, rfl⟩
              exact hname o rfl
  | signed k' m =>
      simp only [call, Spent, isHeld_iff, heldOf_signed, nextNonce_signed] at hs ⊢
      grind
  | outcome k' m accepted =>
      simp only [call, Spent, isHeld_iff, heldOf_outcome, nextNonce_outcome] at hs ⊢
      by_cases hk : accepted = true ∧ k = k'
      · rw [if_pos hk, if_pos hk]
        rcases hs with ⟨flag, hget⟩ | ⟨reached, hnext, hlt⟩
        · left; grind
        · right
          refine ⟨_, rfl, ?_⟩
          rw [← hk.2, hnext]
          exact lt_max_of_lt_left hlt
      · rw [if_neg hk, if_neg hk]
        exact hs
  | release k' m =>
      simp only [call, Spent, isHeld_iff, heldOf_release, nextNonce_release] at hs ⊢
      exact hs
  | noteHead c height wallSecs => exact hs
  | nextNonce k' => exact hs
  | isHeld k' m => exact hs
  | headFloor c => exact hs

/-! ## Restoring a text -/

/-- What is merged with a number is no lower. -/
theorem merged_raise_le {a b : Option U64} {n : U64} (h : a = some n) :
    ∃ reached, merged raise a b = some reached ∧ n ≤ reached := by
  subst h
  cases b with
  | none => exact ⟨n, rfl, le_refl n⟩
  | some m => exact ⟨_, rfl, le_max_left n m⟩

theorem merged_raise_ge {a b : Option U64} {n : U64} (h : b = some n) :
    ∃ reached, merged raise a b = some reached ∧ n ≤ reached := by
  subst h
  exact ⟨_, rfl, le_max_right _ n⟩

/-- After a restore it is still passed. -/
theorem acceptedPassed_restored {s t s' : SigningSession} (hs : s.AcceptedPassed)
    (ht : t.AcceptedPassed) (h : Restored s t s') : s'.AcceptedPassed := by
  intro k n hget
  rw [h.held, SortedMap.get_extend] at hget
  rw [h.next]
  cases hsaved : (t.heldOf k).get n with
  | some flag =>
      rw [hsaved, Option.some_or] at hget
      obtain ⟨reached, hnext, hle⟩ := ht k n (by rw [hsaved, hget])
      obtain ⟨reached', hnext', hle'⟩ := merged_raise_ge (a := s.nextNonce k) hnext
      exact ⟨reached', hnext', hle.trans hle'⟩
  | none =>
      rw [hsaved, Option.none_or] at hget
      obtain ⟨reached, hnext, hle⟩ := hs k n hget
      obtain ⟨reached', hnext', hle'⟩ := merged_raise_le (b := t.nextNonce k) hnext
      exact ⟨reached', hnext', hle.trans hle'⟩

/-- A restored session has spent what either session had. -/
theorem spent_restored {s t s' : SigningSession} {k : String} {n : U64}
    (h : Restored s t s') (hspent : s.Spent k n ∨ t.Spent k n) : s'.Spent k n := by
  rw [Spent, isHeld_iff, h.held, SortedMap.get_extend, h.next]
  rcases hspent with hs | ht
  · rcases hs with hheld | ⟨reached, hnext, hlt⟩
    · obtain ⟨flag, hget⟩ := isHeld_iff.mp hheld
      left
      rw [hget]
      cases (t.heldOf k).get n with
      | none => exact ⟨flag, rfl⟩
      | some saved => exact ⟨saved, rfl⟩
    · obtain ⟨reached', hnext', hle⟩ := merged_raise_le (b := t.nextNonce k) hnext
      exact Or.inr ⟨reached', hnext', lt_of_lt_of_le hlt hle⟩
  · rcases ht with hheld | ⟨reached, hnext, hlt⟩
    · obtain ⟨flag, hget⟩ := isHeld_iff.mp hheld
      exact Or.inl ⟨flag, by rw [hget]; rfl⟩
    · obtain ⟨reached', hnext', hle⟩ := merged_raise_ge (a := s.nextNonce k) hnext
      exact Or.inr ⟨reached', hnext', lt_of_lt_of_le hlt hle⟩

theorem importState_restored (s t : SigningSession) :
    Restored s t (s.importState t.exportState).2 := by
  obtain ⟨s', himport, h⟩ := importState_exportState s t
  rw [himport]
  exact h

theorem restored_of_importState {s t s' : SigningSession} {res : Except String Unit}
    (h : s.importState t.exportState = (res, s')) : Restored s t s' := by
  have hrestored := importState_restored s t
  rw [h] at hrestored
  exact hrestored

/-- **In every reachable session** the counters are past the accepted holds. -/
theorem reachable_acceptedPassed {s : SigningSession} (h : Reachable s) :
    s.AcceptedPassed := by
  induction h with
  | new => intro k n hget; exact nomatch hget
  | call c _ ih => exact acceptedPassed_call ih c
  | importState _ _ ihs iht => exact acceptedPassed_restored ihs iht (importState_restored _ _)

/-! ## A transaction that carries several nonces -/

/-- Mark every nonce of a transaction signed, before it is submitted. -/
def signedAll (self : SigningSession) (slots : List (String × U64)) : SigningSession :=
  slots.foldl (fun self p => self.signed p.1 p.2) self

/-- Note the outcome of a transaction at every nonce it carries. -/
def outcomeAll (self : SigningSession) (slots : List (String × U64)) (accepted : Bool) :
    SigningSession :=
  slots.foldl (fun self p => self.outcome p.1 p.2 accepted) self

theorem reachable_signedAll (slots : List (String × U64)) : ∀ {s : SigningSession},
    Reachable s → Reachable (s.signedAll slots) := by
  induction slots with
  | nil => intro s h; exact h
  | cons p rest ih => intro s h; exact ih (Reachable.call (.signed p.1 p.2) h)

theorem reachable_outcomeAll (slots : List (String × U64)) (accepted : Bool) :
    ∀ {s : SigningSession}, Reachable s → Reachable (s.outcomeAll slots accepted) := by
  induction slots with
  | nil => intro s h; exact h
  | cons p rest ih => intro s h; exact ih (Reachable.call (.outcome p.1 p.2 accepted) h)

/-- Each nonce that is signed for is spent. -/
theorem spent_signedAll (slots : List (String × U64)) {k : String} {n : U64} :
    ∀ {s : SigningSession}, Reachable s → s.Spent k n ∨ (k, n) ∈ slots →
      (s.signedAll slots).Spent k n := by
  induction slots with
  | nil =>
      intro s _ h
      exact h.resolve_right (List.not_mem_nil)
  | cons p rest ih =>
      intro s hs h
      refine ih (Reachable.call (.signed p.1 p.2) hs) ?_
      rcases h with h | h
      · exact Or.inl (spent_call (reachable_acceptedPassed hs) h (.signed p.1 p.2)
          (fun _ => nofun))
      · rcases List.mem_cons.mp h with rfl | h
        · exact Or.inl (spent_of_signed s k n)
        · exact Or.inr h

/-- Every nonce of the transaction is held once all are marked. -/
theorem isHeld_signedAll (slots : List (String × U64)) {k : String} {n : U64} :
    ∀ {s : SigningSession}, s.isHeld k n = true ∨ (k, n) ∈ slots →
      (s.signedAll slots).isHeld k n = true := by
  induction slots with
  | nil =>
      intro s h
      exact h.resolve_right (List.not_mem_nil)
  | cons p rest ih =>
      intro s h
      refine ih ?_
      rw [isHeld_iff, heldOf_signed]
      rcases h with h | h
      · left
        obtain ⟨flag, hget⟩ := isHeld_iff.mp h
        grind
      · rcases List.mem_cons.mp h with rfl | h
        · exact Or.inl ⟨false, by grind⟩
        · exact Or.inr h

/-- A spent nonce stays spent whatever the outcome. -/
theorem spent_outcomeAll (slots : List (String × U64)) (accepted : Bool) {k : String}
    {n : U64} : ∀ {s : SigningSession}, Reachable s → s.Spent k n →
      (s.outcomeAll slots accepted).Spent k n := by
  induction slots with
  | nil => intro s _ h; exact h
  | cons p rest ih =>
      intro s hs h
      refine ih (Reachable.call (.outcome p.1 p.2 accepted) hs) ?_
      exact spent_call (reachable_acceptedPassed hs) h (.outcome p.1 p.2 accepted)
        (fun _ => nofun)

end SigningSession

end QCoreSession
