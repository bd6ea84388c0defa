import Mathlib
import QCore.SessionSpentProofs

/-! # What a refused slot leaves, and what restoring lets through

    A slot call that is refused may still have pruned: an unnamed call whose
    nonce is not behind the counter drops the accepted holds below it before it
    decides.  What a caller can observe afterwards is the session with those
    holds gone (`afterRefusal`), and nothing else.

    Restoring a saved session raises counters and joins holds, so almost every
    refusal stands.  One kind is lifted: a hold that was refused past because
    its transaction was not accepted, where the saved session knows that it was
    (`LiftedByAcceptance`). -/

namespace QCoreSession

open QCoreMachineInt QCoreSortedMap QCoreHashMap QCoreJson

namespace SigningSession

/-! ## The text of the keys that carry something -/

/-- The keys of the exported list that carry a counter or a hold. -/
def carriedKeys (self : SigningSession) : List String :=
  self.exportKeys.filter
    (fun key => (self.nextNonce key).isSome || !(self.heldOf key).entries.isEmpty)

/-- The exported text without the keys that carry neither. -/
def carriedState (self : SigningSession) : String :=
  (Json.object [("version", .int 1), ("keys", .array (self.carriedKeys.map self.entryJson)),
    ("heads", .array (self.exportHeads.map headJson))]).render

/-- The keys that are carried are those with a next nonce or a hold. -/
theorem mem_carriedKeys {s : SigningSession} {k : String} :
    k ∈ s.carriedKeys ↔ (s.nextNonce k).isSome = true ∨ (s.heldOf k).entries ≠ [] := by
  have htest : ((s.nextNonce k).isSome || !(s.heldOf k).entries.isEmpty) = true ↔
      (s.nextNonce k).isSome = true ∨ (s.heldOf k).entries ≠ [] := by
    rw [Bool.or_eq_true, Bool.not_eq_true', List.isEmpty_eq_false_iff]
  rw [carriedKeys, List.mem_filter, htest]
  constructor
  · exact fun h => h.2
  · intro h
    refine ⟨mem_exportKeys.mpr ?_, h⟩
    rcases h with hnext | hheld
    · exact Or.inl hnext
    · right
      rw [heldOf] at hheld
      cases hl : s.held.lookup k with
      | none => rw [hl] at hheld; exact absurd rfl hheld
      | some held => rfl

/-- What is saved of a key is its next nonce and its holds. -/
theorem entryJson_congr {s t : SigningSession} {k : String} (hnext : s.nextNonce k = t.nextNonce k)
    (hheld : s.heldOf k = t.heldOf k) : s.entryJson k = t.entryJson k := by
  rw [nextNonce, nextNonce] at hnext
  rw [heldOf, heldOf] at hheld
  rw [entryJson, entryJson, hnext]
  -- an absent entry and an empty one are written alike
  cases hs : s.held.lookup k with
  | none =>
      cases ht : t.held.lookup k with
      | none => rfl
      | some held =>
          rw [hs, ht] at hheld
          obtain rfl : ∅ = held := hheld
          rfl
  | some held =>
      cases ht : t.held.lookup k with
      | none =>
          rw [hs, ht] at hheld
          obtain rfl : held = ∅ := hheld
          rfl
      | some held' =>
          rw [hs, ht] at hheld
          obtain rfl : held = held' := hheld
          rfl

/-- What is saved of the heads is their floors. -/
theorem exportHeads_congr {s t : SigningSession} (h : ∀ c, s.headFloor c = t.headFloor c) :
    s.exportHeads = t.exportHeads := by
  have hperm : s.exportHeads.Perm t.exportHeads := by
    refine (List.perm_ext_iff_of_nodup (exportHeads_nodup s).of_map
      (exportHeads_nodup t).of_map).mpr ?_
    intro e
    rw [mem_exportHeads, mem_exportHeads]
    exact Eq.congr_left (h e.1)
  exact hperm.eq_of_pairwise (fun a b _ _ => headLe_antisymm)
    (exportHeads_sorted s) (exportHeads_sorted t)

/-- The text is one for all sessions with the same counters, holds and heads. -/
theorem carriedState_congr {s t : SigningSession}
    (hnext : ∀ k, s.nextNonce k = t.nextNonce k) (hheld : ∀ k, s.heldOf k = t.heldOf k)
    (hheads : ∀ c, s.headFloor c = t.headFloor c) : s.carriedState = t.carriedState := by
  have hkeys : s.carriedKeys = t.carriedKeys := by
    refine ((exportKeys_sorted s).filter _).eq_of_mem_iff ((exportKeys_sorted t).filter _) ?_
    intro k
    show k ∈ s.carriedKeys ↔ k ∈ t.carriedKeys
    rw [mem_carriedKeys, mem_carriedKeys, hnext, hheld]
  have hentries : t.carriedKeys.map s.entryJson = t.carriedKeys.map t.entryJson :=
    List.map_congr_left fun k _ => entryJson_congr (hnext k) (hheld k)
  rw [carriedState, carriedState, hkeys, hentries, exportHeads_congr hheads]

/-! ## A refused slot -/

/-- The accepted holds of a key below a nonce, dropped. -/
def dropPassed (self : SigningSession) (key : String) (reported : U64) : SigningSession :=
  { self with held := self.held.insert key (prunedHolds (self.heldOf key) reported none) }

/-- The session a refused slot call leaves, as far as its callers can tell: a
    call that named its nonce, or whose nonce is behind the counter, is refused
    before anything is dropped. -/
def afterRefusal (self : SigningSession) (key : String) (reported : U64)
    (expected : Option U64) : SigningSession :=
  if expected.isNone ∧ (behindRefusal (self.nextNonce key) reported expected).isNone then
    self.dropPassed key reported
  else self

/-- A refusal leaves the holds that the refused session has, under every key. -/
theorem heldOf_refused {s s' : SigningSession} {k : String} {r : U64} {e : Option U64} {o : Bool}
    {msg : String} (h : s.slot k r e o = (.error msg, s')) (k' : String) :
    s'.heldOf k' = (s.afterRefusal k r e).heldOf k' := by
  rw [slot] at h
  rw [afterRefusal, nextNonce]
  cases e with
  | some exp =>
      rw [if_neg (fun hnone => Bool.false_ne_true hnone.1)]
      by_cases hexp : exp = r
      · -- a named nonce that is the reported one is granted
        have hgranted := slot_named s k r o
        obtain ⟨t, ht⟩ := hgranted
        rw [slot, ← hexp] at ht
        rw [← hexp, ht] at h
        cases h
      · have hrefused : ∃ text, expectedRefusal r (some exp) = some text := by
          rw [expectedRefusal, if_pos hexp]
          exact ⟨_, rfl⟩
        obtain ⟨text, hrefused⟩ := hrefused
        rw [hrefused] at h
        cases h
        rfl
  | none =>
      have hexpected : expectedRefusal r none = none := rfl
      rw [hexpected] at h
      dsimp only at h
      cases hbehind : behindRefusal (s.next.lookup k) r none with
      | some text =>
          rw [hbehind] at h
          rw [if_neg (fun hnone => Bool.false_ne_true hnone.2)]
          cases h
          rfl
      | none =>
          rw [hbehind] at h
          rw [if_pos ⟨rfl, rfl⟩]
          simp only [Option.isSome_none, Bool.false_eq_true, if_false] at h
          cases horder : (if o = true then orderRefusal (s.next.lookup k) r else none) with
          | some text => rw [horder] at h; cases h; rfl
          | none =>
              rw [horder] at h
              dsimp only at h
              cases hheld : heldRefusal (prunedHolds (s.heldOf k) r none) r with
              | some text => rw [hheld] at h; cases h; rfl
              | none =>
                  rw [hheld] at h
                  exact (reserve_error h).2.2.1 k'

/-- A refusal changes neither a next nonce nor a head. -/
theorem afterRefusal_views (s : SigningSession) (k : String) (r : U64) (e : Option U64) :
    (∀ k', (s.afterRefusal k r e).nextNonce k' = s.nextNonce k') ∧
      ∀ c, (s.afterRefusal k r e).headFloor c = s.headFloor c := by
  rw [afterRefusal]
  split
  · exact ⟨fun _ => rfl, fun _ => rfl⟩
  · exact ⟨fun _ => rfl, fun _ => rfl⟩

/-- What is still held after a refusal: everything but the accepted holds of the
    key below the reported nonce, where the call pruned. -/
theorem isHeld_afterRefusal (s : SigningSession) (k : String) (r : U64) (e : Option U64)
    (k' : String) (n : U64) :
    (s.afterRefusal k r e).isHeld k' n = true ↔ s.isHeld k' n = true ∧
      ¬ (e = none ∧ (∀ reached, s.nextNonce k = some reached → reached ≤ r) ∧
        k' = k ∧ n < r ∧ (s.heldOf k).get n = some true) := by
  rw [afterRefusal]
  by_cases hprunes : e.isNone = true ∧ (behindRefusal (s.nextNonce k) r e).isNone = true
  · rw [if_pos hprunes]
    obtain ⟨hnone, hbehind⟩ := hprunes
    rw [Option.isNone_iff_eq_none] at hnone hbehind
    subst hnone
    rw [behindRefusal_none] at hbehind
    rw [dropPassed, isHeld, heldOf_insert]
    by_cases hk : k' = k
    · rw [if_pos hk, hk, SortedMap.containsKey, get_prunedHolds]
      cases hget : (s.heldOf k).get n with
      | none => simp [isHeld, SortedMap.containsKey, hget]
      | some accepted =>
          simpa [isHeld, SortedMap.containsKey, hget] using Or.inl hbehind
    · rw [if_neg hk]
      constructor
      · exact fun hheld => ⟨hheld, fun hdropped => hk hdropped.2.2.1⟩
      · exact fun hheld => hheld.1
  · rw [if_neg hprunes]
    constructor
    · intro hheld
      refine ⟨hheld, ?_⟩
      rintro ⟨rfl, hreached, -⟩
      refine hprunes ⟨rfl, ?_⟩
      rw [behindRefusal_none.mpr hreached]
      rfl
    · exact fun hheld => hheld.1

/-- **What a refused slot call changes**: no counter and no head; of the holds,
    the accepted ones of its key below the reported nonce, and those only when
    the call does not name its nonce and the nonce is not behind the counter;
    and the exported text as these say. -/
theorem refused_slot_drops_passed_holds {s s' : SigningSession} {k : String} {r : U64}
    {e : Option U64} {o : Bool} {msg : String} (h : s.slot k r e o = (.error msg, s')) :
    (∀ k', s'.nextNonce k' = s.nextNonce k') ∧ (∀ c, s'.headFloor c = s.headFloor c) ∧
      (∀ k' n, s'.isHeld k' n = true ↔ s.isHeld k' n = true ∧
        ¬ (e = none ∧ (∀ reached, s.nextNonce k = some reached → reached ≤ r) ∧
          k' = k ∧ n < r ∧ (s.heldOf k).get n = some true)) ∧
      s'.carriedState = (s.afterRefusal k r e).carriedState := by
  obtain ⟨-, href⟩ := slot_error h
  obtain ⟨hnext, hheads⟩ := afterRefusal_views s k r e
  have hfloors : ∀ c, s'.headFloor c = s.headFloor c := by
    intro c
    rw [headFloor, headFloor, href.heads]
  refine ⟨href.next, hfloors, ?_, ?_⟩
  · intro k' n
    rw [← isHeld_afterRefusal, isHeld, isHeld, heldOf_refused h]
  · refine carriedState_congr ?_ (heldOf_refused h) ?_
    · intro k'
      rw [href.next, hnext]
    · intro c
      rw [hfloors, hheads]

/-- A session whose nonce 0 was signed and accepted. -/
def acceptedZero : SigningSession :=
  ((new.slot "k" 0 none false).2.signed "k" 0).outcome "k" 0 true

theorem reachable_acceptedZero : Reachable acceptedZero :=
  .call (.outcome "k" 0 true) (.call (.signed "k" 0) (.call (.slot "k" 0 none false) .new))

/-- An order above the counter is refused, and the accepted hold is gone. -/
theorem refused_slot_drops_hold :
    ∃ msg s', Reachable acceptedZero ∧ acceptedZero.slot "k" 5 none true = (.error msg, s') ∧
      acceptedZero.isHeld "k" 0 = true ∧ s'.isHeld "k" 0 = false :=
  ⟨_, _, reachable_acceptedZero, Prod.ext (by rfl) rfl, by rfl, by rfl⟩

/-- A nonce behind the counter is refused with nothing dropped. -/
theorem refused_slot_drops_passed_holds_behind :
    ∃ msg s', acceptedZero.slot "k" 0 none false = (.error msg, s') ∧
      s'.carriedState = acceptedZero.carriedState := by
  have hrefused : acceptedZero.slot "k" 0 none false
      = (.error _, (acceptedZero.slot "k" 0 none false).2) := Prod.ext (by rfl) rfl
  exact ⟨_, _, hrefused, (refused_slot_drops_passed_holds hrefused).2.2.2⟩

/-! ## A restored session -/

/-- An account slot call that does not name its nonce is refused. -/
def Refuses (s : SigningSession) (k : String) (r : U64) : Prop :=
  ∃ msg s', s.slot k r none false = (.error msg, s')

/-- A nonce is refused where it is not admitted. -/
theorem refuses_iff {s : SigningSession} {k : String} {r : U64} :
    s.Refuses k r ↔ ¬ s.Admits k r none false := by
  rw [← slot_isOk_iff]
  constructor
  · rintro ⟨msg, s', hrefused⟩ ⟨t, hgranted⟩
    rw [hrefused] at hgranted
    cases hgranted
  · intro hnot
    cases hres : s.slot k r none false with
    | mk res s' =>
        cases res with
        | error msg => exact ⟨msg, s', hres⟩
        | ok n =>
            obtain ⟨rfl, -, -⟩ := slot_ok hres
            exact absurd ⟨s', hres⟩ hnot

/-- The refusals that restoring `t` into `s` lifts: `s` has no reason to refuse
    the nonce but transactions below it that were not accepted, `t` records each
    of them as accepted, and `t` has no reason to refuse either. -/
structure LiftedByAcceptance (s t : SigningSession) (k : String) (r : U64) : Prop where
  pending : ∃ m < r, (s.heldOf k).get m = some false
  learned : ∀ m < r, (s.heldOf k).get m = some false → (t.heldOf k).get m = some true
  reached : ∀ n, s.nextNonce k = some n → n ≤ r
  notHeld : (s.heldOf k).get r = none
  notReserved : r ∉ s.reservedOf k
  savedReached : ∀ n, t.nextNonce k = some n → n ≤ r
  savedNotHeld : (t.heldOf k).get r = none
  savedAccepted : ∀ m < r, (t.heldOf k).get m ≠ some false

/-- Both counters are at or below a nonce when the raised one is. -/
theorem merged_raise_bound {a b : Option U64} {r : U64} :
    (∀ n, merged raise a b = some n → n ≤ r) ↔
      (∀ n, a = some n → n ≤ r) ∧ ∀ n, b = some n → n ≤ r := by
  constructor
  · intro h
    constructor
    · intro n hn
      obtain ⟨reached, hmerged, hle⟩ := merged_raise_le (b := b) hn
      exact hle.trans (h reached hmerged)
    · intro n hn
      obtain ⟨reached, hmerged, hle⟩ := merged_raise_ge (a := a) hn
      exact hle.trans (h reached hmerged)
  · rintro ⟨ha, hb⟩ n hn
    cases b with
    | none => exact ha n hn
    | some saved =>
        obtain rfl : max (a.getD saved) saved = n := Option.some.inj hn
        refine max_le ?_ (hb saved rfl)
        cases a with
        | none => exact hb saved rfl
        | some own => exact ha own rfl

/-- What a restored session admits, in terms of the two it came from. -/
theorem admits_restored {s t s' : SigningSession} (h : Restored s t s') {k : String} {r : U64} :
    s'.Admits k r none false ↔
      ((∀ n, s.nextNonce k = some n → n ≤ r) ∧ ∀ n, t.nextNonce k = some n → n ≤ r) ∧
      ((s.heldOf k).get r = none ∧ (t.heldOf k).get r = none) ∧
      (∀ m < r, (t.heldOf k).get m ≠ some false ∧
        ((s.heldOf k).get m = some false → (t.heldOf k).get m = some true)) ∧
      r ∉ s.reservedOf k := by
  have hholds : ∀ m, (s'.heldOf k).get m = ((t.heldOf k).get m).or ((s.heldOf k).get m) := by
    intro m
    rw [h.held, SortedMap.get_extend]
  -- a joined hold is free when both are, and unaccepted when the saved one is,
  -- or when only the session has one
  have hfree : (s'.heldOf k).get r = none ↔
      (s.heldOf k).get r = none ∧ (t.heldOf k).get r = none := by
    rw [hholds]
    cases (t.heldOf k).get r <;> simp
  have hstale : ∀ m, (s'.heldOf k).get m ≠ some false ↔ (t.heldOf k).get m ≠ some false ∧
      ((s.heldOf k).get m = some false → (t.heldOf k).get m = some true) := by
    intro m
    rw [hholds]
    cases (t.heldOf k).get m with
    | none => simp
    | some accepted => cases accepted <;> simp
  have hpast : (∀ m < r, (s'.heldOf k).get m ≠ some false) ↔ ∀ m < r,
      (t.heldOf k).get m ≠ some false ∧
        ((s.heldOf k).get m = some false → (t.heldOf k).get m = some true) :=
    forall₂_congr fun m _ => hstale m
  rw [Admits, h.next, h.reserved, merged_raise_bound, hfree, hpast]
  simp

/-- **Restoring a saved session only ever adds refusals**, except those that the
    saved session lifts: it knows that a transaction was accepted. -/
theorem restored_session_refuses_iff (s t : SigningSession) (k : String) (r : U64) :
    (s.Refuses k r → (s.importState t.exportState).2.Refuses k r) ↔
      ¬ LiftedByAcceptance s t k r := by
  have hrestored := importState_restored s t
  rw [refuses_iff, refuses_iff, admits_restored hrestored]
  constructor
  · rintro hstands ⟨⟨m, hm, hpending⟩, hlearned, hreached, hfree, hres, hsaved, hsavedFree,
      hsavedAccepted⟩
    refine hstands ?_ ⟨⟨hreached, hsaved⟩, ⟨hfree, hsavedFree⟩, ?_, hres⟩
    · rintro ⟨-, -, -, hstale, -⟩
      exact hstale m hm hpending
    · exact fun m hm => ⟨hsavedAccepted m hm, hlearned m hm⟩
  · rintro hnot hrefused ⟨⟨hreached, hsaved⟩, ⟨hfree, hsavedFree⟩, hpast, hres⟩
    -- with nothing else to refuse it, the session refused a pending hold
    have hpending : ∃ m < r, (s.heldOf k).get m = some false := by
      by_contra hnone
      push Not at hnone
      refine hrefused ⟨hreached, ?_, hfree, hnone, hres⟩
      intro horder
      cases horder
    exact hnot ⟨hpending, fun m hm => (hpast m hm).2, hreached, hfree, hres, hsaved, hsavedFree,
      fun m hm => (hpast m hm).1⟩

/-- The same session before its nonce 0 was accepted. -/
def pendingZero : SigningSession := (new.slot "k" 0 none false).2.signed "k" 0

theorem reachable_pendingZero : Reachable pendingZero :=
  .call (.signed "k" 0) (.call (.slot "k" 0 none false) .new)

/-- Restoring the text that knows of the acceptance lifts the refusal of nonce 1. -/
theorem restored_acceptance_lifts_refusal :
    Reachable pendingZero ∧ Reachable acceptedZero ∧ pendingZero.Refuses "k" 1 ∧
      ¬ (pendingZero.importState acceptedZero.exportState).2.Refuses "k" 1 := by
  refine ⟨reachable_pendingZero, reachable_acceptedZero, ⟨_, _, Prod.ext (by rfl) rfl⟩, ?_⟩
  rw [refuses_iff, not_not, admits_restored (importState_restored _ _)]
  refine ⟨⟨?_, ?_⟩, ⟨by rfl, by rfl⟩, ?_, by decide⟩
  · intro n hn
    have hzero : pendingZero.nextNonce "k" = some 0 := by rfl
    rw [hzero] at hn
    cases hn
    decide
  · intro n hn
    have hone : acceptedZero.nextNonce "k" = some 1 := by rfl
    rw [hone] at hn
    cases hn
    decide
  · intro m hm
    have hlt : m.val < 1 := hm
    obtain rfl : m = 0 := Fin.ext (by show m.val = 0; omega)
    have haccepted : (acceptedZero.heldOf "k").get 0 = some true := by rfl
    rw [haccepted]
    exact ⟨by simp, fun _ => rfl⟩

end SigningSession

end QCoreSession
