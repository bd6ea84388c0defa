import Mathlib
import QCore.MachineIntProofs
import QCore.SortedMapProofs
import QCore.HashMapProofs

/-! # The signing session

    A session tracks, for each key, the next nonce it expects, the nonces it
    has signed (held, with a flag for those the gateway accepted) and the nonces
    reserved by a signing in progress.  It also keeps the highest head seen on
    each chain.

    `slot` is the only operation that grants a nonce, and it may change the
    session even when it refuses: it always drops the accepted holds the chain
    has passed before it decides.  Its result is therefore an answer and a
    session.  The lemmas below read the session through three per-key views
    (`nextOf`, `heldOf`, `reservedOf`), in which an absent entry and an empty one
    are the same, and state once what each operation does to each view. -/

namespace QCoreSession

open QCoreMachineInt QCoreSortedMap QCoreHashMap

/-- What a process remembers of what it signed. -/
structure SigningSession where
  next : HashMap String U64 := ∅
  held : HashMap String (SortedMap U64 Bool) := ∅
  reserved : HashMap String (Finset U64) := ∅
  book : List String := []
  seen : List String := []
  heads : HashMap String (U64 × U64) := ∅

namespace SigningSession

/-- Nothing is remembered yet. -/
def new : SigningSession := {}

/-! ## Views -/

/-- The nonce that follows the accepted ones of a key. -/
def nextNonce (self : SigningSession) (key : String) : Option U64 := self.next.lookup key

/-- The holds of a key, none when the key has no entry. -/
def heldOf (self : SigningSession) (key : String) : SortedMap U64 Bool :=
  (self.held.lookup key).getD ∅

/-- The reservations of a key, none when the key has no entry. -/
def reservedOf (self : SigningSession) (key : String) : Finset U64 :=
  (self.reserved.lookup key).getD ∅

/-- A nonce of a key is held. -/
def isHeld (self : SigningSession) (key : String) (slot : U64) : Bool :=
  (self.heldOf key).containsKey slot

/-- The highest head of a chain, and when it was seen. -/
def headFloor (self : SigningSession) (chain : String) : Option (U64 × U64) :=
  self.heads.lookup chain

/-! ## Granting a nonce -/

/-- The nonce the caller expects is not the one the gateway reports. -/
def expectedRefusal (reported : U64) (expected : Option U64) : Option String :=
  match expected with
  | some exp =>
      if exp ≠ reported then
        some s!"the gateway reported nonce {reported} but you expected {exp}; the chain admits only the nonce the account has reached, refusing to sign"
      else none
  | none => none

/-- An unnamed nonce lies below the one the session already reached. -/
def behindRefusal (next : Option U64) (reported : U64) (expected : Option U64) :
    Option String :=
  match expected, next with
  | none, some reached =>
      if reported < reached then
        some s!"the gateway reports nonce {reported} below the {reached} this session already reached; a nonce that goes back would let one nonce carry two signatures, so pass the expected nonce to sign at it"
      else none
  | _, _ => none

/-- An unnamed order nonce lies above the one the session tracked. -/
def orderRefusal (next : Option U64) (reported : U64) : Option String :=
  match next with
  | some tracked =>
      if tracked < reported then
        some s!"the gateway reports order nonce {reported} above the {tracked} this client tracked, refusing to sign an order that stays valid until the contract reaches that nonce; pass the expected order nonce to sign at it"
      else none
  | none =>
      if 0 < reported then
        some s!"this signing session has not tracked the order nonce yet and the gateway reports {reported}; pass the expected order nonce or restore a saved session before signing"
      else none

/-- An unnamed nonce is held, or a hold below it was never accepted. -/
def heldRefusal (held : SortedMap U64 Bool) (reported : U64) : Option String :=
  if held.containsKey reported then
    some s!"a transaction was already signed for nonce {reported} in this session and was not superseded; one nonce carries one signature, so if it never landed pass that nonce explicitly to sign at it again"
  else
    match held.entries.find? (fun e => e.1 < reported && !e.2) with
    | some (stale, _) =>
        some s!"a transaction signed at nonce {stale} in this session was not accepted, yet the gateway now reports nonce {reported} past it; check whether it landed, then pass nonce {reported} explicitly to sign at it"
    | none => none

/-- The holds a slot call leaves: accepted holds below the reported nonce go,
    and naming the nonce drops every hold up to it. -/
def prunedHolds (held : SortedMap U64 Bool) (reported : U64) (expected : Option U64) :
    SortedMap U64 Bool :=
  let held := held.retain (fun slot accepted => !(accepted && slot < reported))
  if expected.isSome then held.retain (fun slot _ => reported < slot) else held

/-- Reserve the reported nonce and raise the counter to it, unless the nonce is
    unnamed and reserved already. -/
def reserve (self : SigningSession) (key : String) (reported : U64)
    (expected : Option U64) : Except String U64 × SigningSession :=
  let reserved := self.reservedOf key
  let self := { self with reserved := self.reserved.insert key (insert reported reserved) }
  if reported ∈ reserved ∧ expected = none then
    (.error s!"nonce {reported} is already reserved by a signing in progress in this session; finish or release it before reserving it again",
      self)
  else
    let reached := (self.next.lookup key).getD reported
    (.ok reported, { self with next := self.next.insert key (max reached reported) })

/-- Grant a nonce of a key, and reserve it. -/
def slot (self : SigningSession) (key : String) (reported : U64)
    (expected : Option U64) (order : Bool) : Except String U64 × SigningSession :=
  match expectedRefusal reported expected with
  | some e => (.error e, self)
  | none =>
      match behindRefusal (self.next.lookup key) reported expected with
      | some e => (.error e, self)
      | none =>
          let held := prunedHolds (self.heldOf key) reported expected
          let self := { self with held := self.held.insert key held }
          if expected.isSome then self.reserve key reported expected
          else
            match if order then orderRefusal (self.next.lookup key) reported else none with
            | some e => (.error e, self)
            | none =>
                match heldRefusal held reported with
                | some e => (.error e, self)
                | none => self.reserve key reported expected

/-! ## The other operations -/

/-- Note a head of a chain. -/
def noteHead (self : SigningSession) (chain : String) (height wallSecs : U64) :
    SigningSession :=
  let entry := (self.heads.lookup chain).getD (height, wallSecs)
  let entry := if entry.1 < height then (height, wallSecs) else entry
  { self with heads := self.heads.insert chain entry }

/-- Free one nonce that was reserved. -/
def release (self : SigningSession) (key : String) (slot : U64) : SigningSession :=
  match self.reserved.lookup key with
  | some reserved => { self with reserved := self.reserved.insert key (reserved.erase slot) }
  | none => self

/-- Free every nonce of a key that was reserved. -/
def releasePending (self : SigningSession) (key : String) : SigningSession :=
  { self with reserved := self.reserved.erase key }

/-- Hold a nonce that was signed. -/
def signed (self : SigningSession) (key : String) (slot : U64) : SigningSession :=
  let self := self.release key slot
  { self with held := self.held.insert key ((self.heldOf key).insert slot false) }

/-- Count a nonce whose transaction was accepted. -/
def outcome (self : SigningSession) (key : String) (slot : U64) (accepted : Bool) :
    SigningSession :=
  if accepted = false then self
  else
    let reached := (self.next.lookup key).getD 0
    { self with
      held := self.held.insert key ((self.heldOf key).insert slot true)
      next := self.next.insert key (max reached (saturatingAdd slot 1)) }

/-! ## What a slot call does -/

theorem isHeld_iff {s : SigningSession} {k : String} {n : U64} :
    s.isHeld k n = true ↔ ∃ accepted, (s.heldOf k).get n = some accepted := by
  rw [isHeld, SortedMap.containsKey, Option.isSome_iff_exists]

/-- A nonce is not refused where it is not held and none below it is held back. -/
theorem heldRefusal_eq_none {held : SortedMap U64 Bool} {r : U64} :
    heldRefusal held r = none ↔ held.get r = none ∧ ∀ m < r, held.get m ≠ some false := by
  have hfind : held.entries.find? (fun e => e.1 < r && !e.2) = none
      ↔ ∀ m < r, held.get m ≠ some false := by
    rw [List.find?_eq_none]
    constructor
    · intro h m hm hget
      have := h (m, false) (SortedMap.mem_entries.mpr hget)
      simp [hm] at this
    · rintro h ⟨m, b⟩ hmem htest
      simp only [Bool.and_eq_true, decide_eq_true_eq, Bool.not_eq_true'] at htest
      exact h m htest.1 (by rw [← htest.2]; exact SortedMap.mem_entries.mp hmem)
  rw [← hfind, heldRefusal, SortedMap.containsKey]
  cases held.get r with
  | some b => simp
  | none =>
      cases hf : held.entries.find? (fun e => e.1 < r && !e.2) with
      | none => simp
      | some e => simp

/-- What survives pruning: an entry the chain has not both accepted and passed,
    and, when the nonce is named, only entries above it. -/
@[grind =] theorem get_prunedHolds (held : SortedMap U64 Bool) (r : U64) (e : Option U64)
    (n : U64) :
    (prunedHolds held r e).get n
      = if e.isSome = true ∧ n ≤ r then none
        else if n < r ∧ held.get n = some true then none else held.get n := by
  rw [prunedHolds]
  by_cases he : e.isSome = true
  · rw [if_pos he, SortedMap.get_retain, SortedMap.get_retain]
    cases hg : held.get n with
    | none => simp
    | some b => cases b <;> by_cases hlt : n < r <;> by_cases hlt' : r < n <;> simp <;> grind
  · rw [if_neg he, SortedMap.get_retain]
    cases hg : held.get n with
    | none => simp
    | some b => cases b <;> by_cases hlt : n < r <;> simp [he, hlt]

/-- The rules under which a slot call is granted: the nonce is named, or it is
    unnamed and not behind the counter, not above a tracked order, not held, not
    past an unaccepted hold and not reserved. -/
def Admits (s : SigningSession) (k : String) (r : U64) (e : Option U64) (o : Bool) : Prop :=
  match e with
  | some exp => exp = r
  | none =>
      (∀ reached, s.nextNonce k = some reached → reached ≤ r) ∧
      (o = true → orderRefusal (s.nextNonce k) r = none) ∧
      (s.heldOf k).get r = none ∧ (∀ m < r, (s.heldOf k).get m ≠ some false) ∧
      r ∉ s.reservedOf k

/-- How a granted slot call leaves the session. -/
structure Granted (s : SigningSession) (k : String) (r : U64) (e : Option U64)
    (s' : SigningSession) : Prop where
  next : ∀ k', s'.nextNonce k'
    = if k' = k then some (max ((s.nextNonce k).getD r) r) else s.nextNonce k'
  held : ∀ k', s'.heldOf k' = if k' = k then prunedHolds (s.heldOf k) r e else s.heldOf k'
  reserved : ∀ k', s'.reservedOf k'
    = if k' = k then insert r (s.reservedOf k) else s.reservedOf k'
  heads : s'.heads = s.heads
  book : s'.book = s.book
  seen : s'.seen = s.seen

/-- How a refused slot call leaves the session: at most accepted holds below the
    reported nonce are gone. -/
structure Refused (s : SigningSession) (k : String) (r : U64) (s' : SigningSession) :
    Prop where
  next : ∀ k', s'.nextNonce k' = s.nextNonce k'
  held : ∀ k', s'.heldOf k' = s.heldOf k'
    ∨ k' = k ∧ (∀ n, s.nextNonce k = some n → n ≤ r) ∧
      s'.heldOf k' = prunedHolds (s.heldOf k) r none
  reserved : ∀ k', s'.reservedOf k' = s.reservedOf k'
  heads : s'.heads = s.heads
  book : s'.book = s.book
  seen : s'.seen = s.seen

theorem behindRefusal_none {next : Option U64} {r : U64} :
    behindRefusal next r none = none ↔ ∀ reached, next = some reached → reached ≤ r := by
  cases next with
  | none => simp [behindRefusal]
  | some reached => simp [behindRefusal]

/-- What is granted is the reported nonce, which is then reserved. -/
theorem reserve_ok {s s' : SigningSession} {k : String} {r n : U64} {e : Option U64}
    (h : s.reserve k r e = (.ok n, s')) :
    n = r ∧ ¬ (r ∈ s.reservedOf k ∧ e = none) ∧
      (∀ k', s'.nextNonce k'
        = if k' = k then some (max ((s.nextNonce k).getD r) r) else s.nextNonce k') ∧
      (∀ k', s'.heldOf k' = s.heldOf k') ∧
      (∀ k', s'.reservedOf k'
        = if k' = k then insert r (s.reservedOf k) else s.reservedOf k') ∧
      s'.heads = s.heads ∧ s'.book = s.book ∧ s'.seen = s.seen := by
  rw [reserve] at h
  split at h
  · cases h
  · next hres =>
      obtain ⟨hn, rfl⟩ := Prod.mk.inj h
      refine ⟨(Except.ok.inj hn).symm, hres, ?_, fun _ => rfl, ?_, rfl, rfl, rfl⟩
      · intro k'; exact lookup_insert _ _ _ _
      · intro k'
        show ((s.reserved.insert k _).lookup k').getD ∅ = _
        rw [lookup_insert]
        split <;> rfl

/-- What is refused was reserved, and nothing changes. -/
theorem reserve_error {s s' : SigningSession} {k : String} {r : U64} {e : Option U64}
    {msg : String} (h : s.reserve k r e = (.error msg, s')) :
    (r ∈ s.reservedOf k ∧ e = none) ∧
      (∀ k', s'.nextNonce k' = s.nextNonce k') ∧ (∀ k', s'.heldOf k' = s.heldOf k') ∧
      (∀ k', s'.reservedOf k' = s.reservedOf k') ∧
      s'.heads = s.heads ∧ s'.book = s.book ∧ s'.seen = s.seen := by
  rw [reserve] at h
  split at h
  · next hres =>
      obtain ⟨-, rfl⟩ := Prod.mk.inj h
      refine ⟨hres, fun _ => rfl, fun _ => rfl, ?_, rfl, rfl, rfl⟩
      intro k'
      show ((s.reserved.insert k _).lookup k').getD ∅ = _
      rw [lookup_insert]
      split
      · next hk => rw [hk]; exact Finset.insert_eq_of_mem hres.1
      · rfl
  · cases h

/-- To put the holds of a key changes those of that key. -/
theorem heldOf_insert (s : SigningSession) (k k' : String) (held : SortedMap U64 Bool) :
    ({ s with held := s.held.insert k held } : SigningSession).heldOf k'
      = if k' = k then held else s.heldOf k' := by
  show ((s.held.insert k held).lookup k').getD ∅ = _
  rw [lookup_insert]
  split <;> rfl

/-- The holds a call starts from: what is left of them once the chain's are dropped. -/
def pruned (s : SigningSession) (k : String) (r : U64) (e : Option U64) : SigningSession :=
  { s with held := s.held.insert k (prunedHolds (s.heldOf k) r e) }

theorem heldOf_pruned (s : SigningSession) (k k' : String) (r : U64) (e : Option U64) :
    (s.pruned k r e).heldOf k' = if k' = k then prunedHolds (s.heldOf k) r e else s.heldOf k' :=
  heldOf_insert s k k' _

/-- Pruning takes away no reason to refuse an unnamed call. -/
theorem heldRefusal_pruned {held : SortedMap U64 Bool} {r : U64} :
    heldRefusal (prunedHolds held r none) r = none
      ↔ held.get r = none ∧ ∀ m < r, held.get m ≠ some false := by
  have hget : ∀ n, (prunedHolds held r none).get n
      = if n < r ∧ held.get n = some true then none else held.get n := by
    intro n
    rw [get_prunedHolds, if_neg (fun h => Bool.false_ne_true h.1)]
  have hself : (prunedHolds held r none).get r = held.get r := by
    rw [hget, if_neg (fun h => lt_irrefl r h.1)]
  rw [heldRefusal_eq_none, hself]
  refine and_congr_right fun _ => forall₂_congr fun m _ => not_congr ?_
  rw [hget]
  split
  · next h => rw [h.2]; simp
  · rfl

/-- A call that names the reported nonce reserves it. -/
theorem slot_named_eq (s : SigningSession) {k : String} {r exp : U64} (o : Bool) (h : exp = r) :
    s.slot k r (some exp) o = (s.pruned k r (some exp)).reserve k r (some exp) := by
  have hnamed : expectedRefusal r (some exp) = none := if_neg (not_not_intro h)
  rw [slot, hnamed]
  rfl

theorem slot_misnamed_eq (s : SigningSession) {k : String} {r exp : U64} (o : Bool) (h : exp ≠ r) :
    ∃ msg, s.slot k r (some exp) o = (.error msg, s) := by
  obtain ⟨msg, hmsg⟩ : ∃ msg, expectedRefusal r (some exp) = some msg := ⟨_, if_pos h⟩
  exact ⟨msg, by rw [slot, hmsg]⟩

/-- **What an unnamed call does**: it is behind the counter and changes nothing, or it
    prunes and is refused for what the chain or a hold says, or it prunes and reserves. -/
theorem slot_unnamed_cases (s : SigningSession) (k : String) (r : U64) (o : Bool) :
    (¬ (∀ reached, s.nextNonce k = some reached → reached ≤ r)
        ∧ ∃ msg, s.slot k r none o = (.error msg, s)) ∨
      ((∀ reached, s.nextNonce k = some reached → reached ≤ r) ∧
        ¬ ((o = true → orderRefusal (s.nextNonce k) r = none)
          ∧ heldRefusal (prunedHolds (s.heldOf k) r none) r = none) ∧
        ∃ msg, s.slot k r none o = (.error msg, s.pruned k r none)) ∨
      ((∀ reached, s.nextNonce k = some reached → reached ≤ r) ∧
        (o = true → orderRefusal (s.nextNonce k) r = none) ∧
        heldRefusal (prunedHolds (s.heldOf k) r none) r = none ∧
        s.slot k r none o = (s.pruned k r none).reserve k r none) := by
  have hexpected : expectedRefusal r none = none := rfl
  rw [← behindRefusal_none, slot, hexpected, nextNonce]
  dsimp only
  cases hb : behindRefusal (s.next.lookup k) r none with
  | some msg => exact Or.inl ⟨(fun h => nomatch h), msg, rfl⟩
  | none =>
      right
      have horder : (if o = true then orderRefusal (s.next.lookup k) r else none) = none
          ↔ (o = true → orderRefusal (s.next.lookup k) r = none) := by
        cases o
        · exact ⟨fun _ h => absurd h Bool.false_ne_true, fun _ => rfl⟩
        · exact ⟨fun h _ => h, fun h => h rfl⟩
      rw [← horder]
      simp only [Option.isSome_none, Bool.false_eq_true, if_false]
      cases ho : (if o = true then orderRefusal (s.next.lookup k) r else none) with
      | some msg => exact Or.inl ⟨trivial, (fun h => nomatch h.1), msg, rfl⟩
      | none =>
          dsimp only
          cases hh : heldRefusal (prunedHolds (s.heldOf k) r none) r with
          | some msg => exact Or.inl ⟨trivial, (fun h => nomatch h.2), msg, rfl⟩
          | none => exact Or.inr ⟨trivial, rfl, rfl, rfl⟩

/-- What a call that prunes and reserves leaves, when it is granted. -/
theorem reserve_pruned_ok {s s' : SigningSession} {k : String} {r n : U64} {e : Option U64}
    (h : (s.pruned k r e).reserve k r e = (.ok n, s')) :
    n = r ∧ ¬ (r ∈ s.reservedOf k ∧ e = none) ∧ Granted s k r e s' := by
  obtain ⟨hn, hfree, hnext, hheld, hreserved, hheads, hbook, hseen⟩ := reserve_ok h
  refine ⟨hn, hfree, ⟨hnext, ?_, hreserved, hheads, hbook, hseen⟩⟩
  intro k'
  rw [hheld, heldOf_pruned]

/-- **A granted slot call**: the answer is the reported nonce, the rules held,
    and the session changed at that key only. -/
theorem slot_ok {s s' : SigningSession} {k : String} {r n : U64} {e : Option U64} {o : Bool}
    (h : s.slot k r e o = (.ok n, s')) :
    n = r ∧ s.Admits k r e o ∧ Granted s k r e s' := by
  cases e with
  | some exp =>
      by_cases hexp : exp = r
      · rw [slot_named_eq s o hexp] at h
        obtain ⟨hn, -, hgranted⟩ := reserve_pruned_ok h
        exact ⟨hn, hexp, hgranted⟩
      · obtain ⟨msg, hslot⟩ := slot_misnamed_eq s (k := k) o hexp
        rw [hslot] at h
        cases h
  | none =>
      rcases slot_unnamed_cases s k r o with ⟨-, msg, hslot⟩ | ⟨-, -, msg, hslot⟩ |
        ⟨hreached, horder, hheld, hslot⟩
      · rw [hslot] at h
        cases h
      · rw [hslot] at h
        cases h
      · rw [hslot] at h
        obtain ⟨hn, hfree, hgranted⟩ := reserve_pruned_ok h
        obtain ⟨hnone, hstale⟩ := heldRefusal_pruned.mp hheld
        exact ⟨hn, ⟨hreached, horder, hnone, hstale, fun hmem => hfree ⟨hmem, rfl⟩⟩, hgranted⟩

/-- **A refused slot call**: the rules did not hold, and no counter, reservation
    or unaccepted hold changed. -/
theorem slot_error {s s' : SigningSession} {k : String} {r : U64} {e : Option U64} {o : Bool}
    {msg : String} (h : s.slot k r e o = (.error msg, s')) :
    ¬ s.Admits k r e o ∧ Refused s k r s' := by
  have hsame : Refused s k r s :=
    ⟨fun _ => rfl, fun _ => Or.inl rfl, fun _ => rfl, rfl, rfl, rfl⟩
  have hpruned : (∀ reached, s.nextNonce k = some reached → reached ≤ r) →
      Refused s k r (s.pruned k r none) := by
    intro hreached
    refine ⟨fun _ => rfl, fun k' => ?_, fun _ => rfl, rfl, rfl, rfl⟩
    rw [heldOf_pruned]
    split
    · next hk => exact Or.inr ⟨hk, hreached, rfl⟩
    · exact Or.inl rfl
  cases e with
  | some exp =>
      by_cases hexp : exp = r
      · rw [slot_named_eq s o hexp] at h
        exact nomatch (reserve_error h).1.2
      · obtain ⟨msg', hslot⟩ := slot_misnamed_eq s (k := k) o hexp
        rw [hslot] at h
        obtain ⟨-, rfl⟩ := Prod.mk.inj h
        exact ⟨hexp, hsame⟩
  | none =>
      rcases slot_unnamed_cases s k r o with ⟨hbehind, msg', hslot⟩ | ⟨hreached, hrefused, msg', hslot⟩ |
        ⟨hreached, -, -, hslot⟩
      · rw [hslot] at h
        obtain ⟨-, rfl⟩ := Prod.mk.inj h
        exact ⟨fun hadm => hbehind hadm.1, hsame⟩
      · rw [hslot] at h
        obtain ⟨-, rfl⟩ := Prod.mk.inj h
        refine ⟨fun hadm => hrefused ⟨hadm.2.1, ?_⟩, hpruned hreached⟩
        exact heldRefusal_pruned.mpr ⟨hadm.2.2.1, hadm.2.2.2.1⟩
      · rw [hslot] at h
        obtain ⟨⟨hmem, -⟩, hnext, hheld, hreserved, hheads, hbook, hseen⟩ := reserve_error h
        refine ⟨fun hadm => hadm.2.2.2.2 hmem, ⟨hnext, fun k' => ?_, hreserved, hheads, hbook, hseen⟩⟩
        rw [hheld]
        exact (hpruned hreached).held k'

/-- **A slot call is granted exactly when its rules hold.** -/
theorem slot_isOk_iff (s : SigningSession) (k : String) (r : U64) (e : Option U64) (o : Bool) :
    (∃ s', s.slot k r e o = (.ok r, s')) ↔ s.Admits k r e o := by
  constructor
  · rintro ⟨s', h⟩
    exact (slot_ok h).2.1
  · intro hadm
    cases hres : s.slot k r e o with
    | mk res s' =>
        cases res with
        | ok n => exact ⟨s', by rw [(slot_ok hres).1]⟩
        | error msg => exact absurd hadm (slot_error hres).1

/-! ## What the other operations do -/

@[simp, grind =] theorem nextNonce_release (s : SigningSession) (k k' : String) (n : U64) :
    (s.release k n).nextNonce k' = s.nextNonce k' := by
  unfold release
  split <;> rfl

@[simp, grind =] theorem heldOf_release (s : SigningSession) (k k' : String) (n : U64) :
    (s.release k n).heldOf k' = s.heldOf k' := by
  unfold release
  split <;> rfl

@[simp, grind =] theorem heads_release (s : SigningSession) (k : String) (n : U64) :
    (s.release k n).heads = s.heads := by
  unfold release
  split <;> rfl

/-- A release takes one nonce off its own key. -/
@[grind =] theorem reservedOf_release (s : SigningSession) (k k' : String) (n : U64) :
    (s.release k n).reservedOf k'
      = if k' = k then (s.reservedOf k).erase n else s.reservedOf k' := by
  unfold release
  cases hl : s.reserved.lookup k with
  | none =>
      have hempty : s.reservedOf k = ∅ := by rw [reservedOf, hl]; rfl
      by_cases hk : k' = k
      · rw [if_pos hk, hk, hempty]; rfl
      · rw [if_neg hk]
  | some reserved =>
      have hval : s.reservedOf k = reserved := by rw [reservedOf, hl]; rfl
      show ((s.reserved.insert k _).lookup k').getD ∅ = _
      rw [lookup_insert, hval]
      split <;> rfl

@[simp, grind =] theorem nextNonce_signed (s : SigningSession) (k k' : String) (n : U64) :
    (s.signed k n).nextNonce k' = s.nextNonce k' := nextNonce_release s k k' n

@[simp, grind =] theorem heads_signed (s : SigningSession) (k : String) (n : U64) :
    (s.signed k n).heads = s.heads := heads_release s k n

@[grind =] theorem heldOf_signed (s : SigningSession) (k k' : String) (n : U64) :
    (s.signed k n).heldOf k'
      = if k' = k then (s.heldOf k).insert n false else s.heldOf k' := by
  rw [signed, heldOf_insert, heldOf_release, heldOf_release]

@[grind =] theorem reservedOf_signed (s : SigningSession) (k k' : String) (n : U64) :
    (s.signed k n).reservedOf k'
      = if k' = k then (s.reservedOf k).erase n else s.reservedOf k' :=
  reservedOf_release s k k' n

/-- An acceptance lifts the next nonce of its own key past what was accepted. -/
@[grind =] theorem nextNonce_outcome (s : SigningSession) (k k' : String) (n : U64)
    (accepted : Bool) :
    (s.outcome k n accepted).nextNonce k'
      = if accepted = true ∧ k' = k then
          some (max ((s.nextNonce k).getD 0) (saturatingAdd n 1))
        else s.nextNonce k' := by
  cases accepted with
  | false => simp [outcome]
  | true =>
      show (s.next.insert k _).lookup k' = _
      rw [lookup_insert]
      simp only [true_and]
      rfl

/-- An acceptance is held, under its own key. -/
@[grind =] theorem heldOf_outcome (s : SigningSession) (k k' : String) (n : U64)
    (accepted : Bool) :
    (s.outcome k n accepted).heldOf k'
      = if accepted = true ∧ k' = k then (s.heldOf k).insert n true else s.heldOf k' := by
  cases accepted with
  | false => simp [outcome]
  | true =>
      show ((s.held.insert k _).lookup k').getD ∅ = _
      rw [lookup_insert]
      simp only [true_and]
      split <;> rfl

@[simp, grind =] theorem reservedOf_outcome (s : SigningSession) (k k' : String) (n : U64)
    (accepted : Bool) : (s.outcome k n accepted).reservedOf k' = s.reservedOf k' := by
  cases accepted <;> rfl

@[simp, grind =] theorem heads_outcome (s : SigningSession) (k : String) (n : U64)
    (accepted : Bool) : (s.outcome k n accepted).heads = s.heads := by
  cases accepted <;> rfl

@[simp, grind =] theorem nextNonce_noteHead (s : SigningSession) (k c : String) (h w : U64) :
    (s.noteHead c h w).nextNonce k = s.nextNonce k := rfl

@[simp, grind =] theorem heldOf_noteHead (s : SigningSession) (k c : String) (h w : U64) :
    (s.noteHead c h w).heldOf k = s.heldOf k := rfl

@[simp, grind =] theorem reservedOf_noteHead (s : SigningSession) (k c : String) (h w : U64) :
    (s.noteHead c h w).reservedOf k = s.reservedOf k := rfl

end SigningSession

end QCoreSession
