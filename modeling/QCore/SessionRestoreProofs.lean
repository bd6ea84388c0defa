import Mathlib
import QCore.SessionStateProofs

/-! # A restored session answers like the one it was saved from

    A session is observed through its calls.  Two sessions whose per-key views
    agree (`Alike`) give the same answer to every call and stay alike, so they
    answer every sequence of calls alike.  A fresh session that restores an
    exported text is alike to the session the text was exported from, once that
    one has no reservation outstanding: reservations are not saved, and a key
    with an empty hold entry reads as a key without one. -/

namespace QCoreSession

open QCoreMachineInt QCoreSortedMap QCoreHashMap QCoreJson

/-! ## Calls and answers -/

/-- A call of a session. -/
inductive Call
  | slot (key : String) (reported : U64) (expected : Option U64) (order : Bool)
  | signed (key : String) (slot : U64)
  | outcome (key : String) (slot : U64) (accepted : Bool)
  | release (key : String) (slot : U64)
  | noteHead (chain : String) (height wallSecs : U64)
  | nextNonce (key : String)
  | isHeld (key : String) (slot : U64)
  | headFloor (chain : String)

/-- What a call answers. -/
inductive Answer
  | slot (result : Except String U64)
  | done
  | nonce (next : Option U64)
  | held (isHeld : Bool)
  | floor (head : Option (U64 × U64))

namespace SigningSession

/-- Run one call: what it answers and the session it leaves. -/
def call (self : SigningSession) : Call → Answer × SigningSession
  | .slot key reported expected order =>
      let (result, self) := self.slot key reported expected order
      (.slot result, self)
  | .signed key slot => (.done, self.signed key slot)
  | .outcome key slot accepted => (.done, self.outcome key slot accepted)
  | .release key slot => (.done, self.release key slot)
  | .noteHead chain height wallSecs => (.done, self.noteHead chain height wallSecs)
  | .nextNonce key => (.nonce (self.nextNonce key), self)
  | .isHeld key slot => (.held (self.isHeld key slot), self)
  | .headFloor chain => (.floor (self.headFloor chain), self)

/-- The answers to a sequence of calls. -/
def answers (self : SigningSession) : List Call → List Answer
  | [] => []
  | c :: calls => (self.call c).1 :: (self.call c).2.answers calls

/-! ## Alike sessions -/

/-- Two sessions with the same views. -/
structure Alike (s t : SigningSession) : Prop where
  next : ∀ k, s.nextNonce k = t.nextNonce k
  held : ∀ k, s.heldOf k = t.heldOf k
  reserved : ∀ k, s.reservedOf k = t.reservedOf k
  heads : ∀ c, s.headFloor c = t.headFloor c

/-- Alike sessions reserve alike. -/
theorem alike_reserve {s t : SigningSession} (h : Alike s t) (k : String) (r : U64)
    (e : Option U64) :
    (s.reserve k r e).1 = (t.reserve k r e).1 ∧
      Alike (s.reserve k r e).2 (t.reserve k r e).2 := by
  have hnext : s.next.lookup k = t.next.lookup k := h.next k
  have hres : ∀ x k', ({ s with reserved := s.reserved.insert k x } : SigningSession).reservedOf k'
      = ({ t with reserved := t.reserved.insert k x } : SigningSession).reservedOf k' := by
    intro x k'
    show ((s.reserved.insert k x).lookup k').getD ∅ = ((t.reserved.insert k x).lookup k').getD ∅
    rw [lookup_insert, lookup_insert]
    split
    · rfl
    · exact h.reserved k'
  rw [reserve, reserve, ← h.reserved k]
  dsimp only
  rw [hnext]
  split
  · exact ⟨rfl, ⟨h.next, h.held, hres _, h.heads⟩⟩
  · refine ⟨rfl, ⟨?_, h.held, hres _, h.heads⟩⟩
    intro k'
    show (s.next.insert k _).lookup k' = (t.next.insert k _).lookup k'
    rw [lookup_insert, lookup_insert]
    split
    · rfl
    · exact h.next k'

/-- Alike sessions grant alike. -/
theorem alike_slot {s t : SigningSession} (h : Alike s t) (k : String) (r : U64)
    (e : Option U64) (o : Bool) :
    (s.slot k r e o).1 = (t.slot k r e o).1 ∧ Alike (s.slot k r e o).2 (t.slot k r e o).2 := by
  have hnext : s.next.lookup k = t.next.lookup k := h.next k
  have hpruned : ∀ held, Alike { s with held := s.held.insert k held }
      { t with held := t.held.insert k held } := by
    intro held
    refine ⟨h.next, ?_, h.reserved, h.heads⟩
    intro k'
    rw [heldOf_insert, heldOf_insert, h.held k']
  rw [slot, slot, hnext, h.held k]
  cases expectedRefusal r e with
  | some msg => exact ⟨rfl, h⟩
  | none =>
      dsimp only
      cases behindRefusal (t.next.lookup k) r e with
      | some msg => exact ⟨rfl, h⟩
      | none =>
          dsimp only
          rw [hnext]
          split
          · exact alike_reserve (hpruned _) k r e
          · cases (if o = true then orderRefusal (t.next.lookup k) r else none) with
            | some msg => exact ⟨rfl, hpruned _⟩
            | none =>
                dsimp only
                cases heldRefusal (prunedHolds (t.heldOf k) r e) r with
                | some msg => exact ⟨rfl, hpruned _⟩
                | none => exact alike_reserve (hpruned _) k r e

/-- **One call**: alike sessions answer alike and stay alike. -/
theorem alike_call {s t : SigningSession} (h : Alike s t) (c : Call) :
    (s.call c).1 = (t.call c).1 ∧ Alike (s.call c).2 (t.call c).2 := by
  cases c with
  | slot k r e o =>
      obtain ⟨hres, hafter⟩ := alike_slot h k r e o
      exact ⟨congrArg Answer.slot hres, hafter⟩
  | signed k n =>
      refine ⟨rfl, ⟨?_, ?_, ?_, ?_⟩⟩
      · intro k'; simpa [call] using h.next k'
      · intro k'; simp [call, heldOf_signed, h.held]
      · intro k'; simp [call, reservedOf_signed, h.reserved]
      · intro c; simpa [call, headFloor] using h.heads c
  | outcome k n accepted =>
      refine ⟨rfl, ⟨?_, ?_, ?_, ?_⟩⟩
      · intro k'; simp [call, nextNonce_outcome, h.next]
      · intro k'; simp [call, heldOf_outcome, h.held]
      · intro k'; simpa [call] using h.reserved k'
      · intro c; simpa [call, headFloor] using h.heads c
  | release k n =>
      refine ⟨rfl, ⟨?_, ?_, ?_, ?_⟩⟩
      · intro k'; simpa [call] using h.next k'
      · intro k'; simpa [call] using h.held k'
      · intro k'; simp [call, reservedOf_release, h.reserved]
      · intro c; simpa [call, headFloor] using h.heads c
  | noteHead c height wallSecs =>
      refine ⟨rfl, ⟨h.next, h.held, h.reserved, ?_⟩⟩
      intro c'
      simp [call, headFloor_noteHead, h.heads]
  | nextNonce k => exact ⟨congrArg Answer.nonce (h.next k), h⟩
  | isHeld k n =>
      refine ⟨congrArg Answer.held ?_, h⟩
      rw [isHeld, isHeld, h.held k]
  | headFloor c => exact ⟨congrArg Answer.floor (h.heads c), h⟩

/-- Alike sessions answer every sequence of calls alike. -/
theorem alike_answers {s t : SigningSession} (h : Alike s t) (calls : List Call) :
    s.answers calls = t.answers calls := by
  induction calls generalizing s t with
  | nil => rfl
  | cons c calls ih =>
      obtain ⟨hanswer, hafter⟩ := alike_call h c
      rw [answers, answers, hanswer, ih hafter]

/-! ## The text of a session -/

/-- Heads that are below each other are the same. -/
theorem headLe_antisymm {a b : String × U64 × U64} (hab : headLe a b) (hba : headLe b a) :
    a = b := by
  have h := le_antisymm hab hba
  have hpair : (a.1, toLex a.2) = (b.1, toLex b.2) := toLex.injective h
  obtain ⟨hchain, hhead⟩ := Prod.mk.inj hpair
  exact Prod.ext hchain (toLex.injective hhead)

theorem exportHeads_sorted (s : SigningSession) : s.exportHeads.Pairwise headLe := by
  have htotal : Std.Total headLe := ⟨fun a b => le_total _ _⟩
  have htrans : IsTrans _ headLe := ⟨fun a b c hab hbc => le_trans hab hbc⟩
  exact List.pairwise_insertionSort headLe _

/-- The exported text reads the maps, never the order they were filled in. -/
theorem exportState_congr {s t : SigningSession}
    (hnext : ∀ k, s.next.lookup k = t.next.lookup k)
    (hheld : ∀ k, s.held.lookup k = t.held.lookup k)
    (hheads : ∀ c, s.heads.lookup c = t.heads.lookup c) :
    s.exportState = t.exportState := by
  have hkeys : s.exportKeys = t.exportKeys := by
    refine (exportKeys_sorted s).eq_of_mem_iff (exportKeys_sorted t) ?_
    intro k
    rw [mem_exportKeys, mem_exportKeys, hnext, hheld]
  have hlist : s.exportHeads = t.exportHeads := by
    have hperm : s.exportHeads.Perm t.exportHeads := by
      refine (List.perm_ext_iff_of_nodup (exportHeads_nodup s).of_map
        (exportHeads_nodup t).of_map).mpr ?_
      intro e
      rw [mem_exportHeads, mem_exportHeads, hheads]
    exact hperm.eq_of_pairwise (fun a b _ _ => headLe_antisymm)
      (exportHeads_sorted s) (exportHeads_sorted t)
  have hentry : s.entryJson = t.entryJson := by
    funext k
    rw [entryJson, entryJson, hnext, hheld]
  rw [exportState, exportState, exportJson, exportJson, hkeys, hlist, hentry]

/-! ## The restored session -/

/-- A fresh session that restores an exported text is alike to the session it
    was exported from, reservations aside. -/
theorem restored_alike {s s' : SigningSession} (h : Restored new s s')
    (hfree : ∀ k, s.reservedOf k = ∅) : Alike s s' := by
  refine ⟨?_, ?_, ?_, ?_⟩
  · intro k
    rw [h.next]
    cases s.nextNonce k with
    | none => rfl
    | some n => exact congrArg some (max_self n).symm
  · intro k
    rw [h.held]
    refine SortedMap.ext_get (fun n => ?_)
    rw [SortedMap.get_extend]
    show _ = (SortedMap.get (s.heldOf k) n).or none
    rw [Option.or_none]
  · intro k
    rw [hfree, h.reserved]
    rfl
  · intro c
    rw [h.heads]
    cases s.headFloor c with
    | none => rfl
    | some head => rfl

/-- **A saved session restores exactly.**  A fresh session takes the exported
    text and then has the counters, the holds with their flags and the heads of
    the session the text came from; the text is the same for every session with
    those maps; and, with no reservation outstanding, the two sessions give the
    same answers to every sequence of calls. -/
theorem saved_session_restores (s : SigningSession) :
    (∃ s', new.importState s.exportState = (.ok (), s') ∧
      (∀ k, s'.nextNonce k = s.nextNonce k) ∧
      (∀ k n, (s'.heldOf k).get n = (s.heldOf k).get n) ∧
      (∀ c, s'.headFloor c = s.headFloor c) ∧
      ((∀ k, s.reservedOf k = ∅) → ∀ calls, s'.answers calls = s.answers calls)) ∧
    ∀ t : SigningSession, (∀ k, t.next.lookup k = s.next.lookup k) →
      (∀ k, t.held.lookup k = s.held.lookup k) →
      (∀ c, t.heads.lookup c = s.heads.lookup c) → t.exportState = s.exportState := by
  obtain ⟨s', himport, hrestored⟩ := importState_exportState new s
  -- the views that do not depend on the reservations
  have hfree : Alike { s with reserved := ∅ } s' :=
    restored_alike ⟨hrestored.next, hrestored.held, hrestored.reserved, hrestored.heads⟩
      (fun k => rfl)
  refine ⟨⟨s', himport, ?_, ?_, ?_, ?_⟩, fun t hnext hheld hheads =>
    exportState_congr hnext hheld hheads⟩
  · exact fun k => (hfree.next k).symm
  · exact fun k n => congrArg (fun m => SortedMap.get m n) (hfree.held k).symm
  · exact fun c => (hfree.heads c).symm
  · intro hres calls
    exact (alike_answers (restored_alike hrestored hres) calls).symm

/-- At a session that signed one nonce, the restored session answers alike. -/
theorem saved_session_restores_signed :
    ∃ s', new.importState ((new.slot "a" 7 none false).2.signed "a" 7).exportState
        = (.ok (), s') ∧
      ∀ calls, s'.answers calls = ((new.slot "a" 7 none false).2.signed "a" 7).answers calls := by
  obtain ⟨⟨s', himport, -, -, -, halike⟩, -⟩ :=
    saved_session_restores ((new.slot "a" 7 none false).2.signed "a" 7)
  refine ⟨s', himport, halike ?_⟩
  intro k
  have hslot : new.slot "a" 7 none false = (.ok 7, (new.slot "a" 7 none false).2) :=
    Prod.ext (by rfl) rfl
  rw [reservedOf_signed, (slot_ok hslot).2.2.reserved, (slot_ok hslot).2.2.reserved]
  split
  · rw [if_pos rfl]
    rfl
  · rfl

end SigningSession

end QCoreSession
