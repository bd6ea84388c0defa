import Mathlib
import QCore.JsonRoundTripProofs
import QCore.SessionProofs

/-! # Saving and restoring a session

    `exportState` writes the counters, the holds and the heads of a session as
    JSON text, keys and chains in order; `importState` reads such a text back
    and merges it into a session.  A merge raises counters and adds holds; it
    never lowers or drops one.

    The source merges the counters before it has read the heads, so a text whose
    heads are malformed is refused after the counters were raised; the model
    keeps that order. -/

namespace QCoreSession

open QCoreMachineInt QCoreSortedMap QCoreHashMap QCoreJson QCoreJsonRoundTrip

namespace SigningSession

/-! ## Export -/

/-- One hold of a key. -/
def holdJson (e : U64 × Bool) : Json :=
  .object [("slot", .str (toString e.1.val)), ("accepted", .bool e.2)]

/-- One entry of the key list: the key, its holds in order, and its counter. -/
def entryJson (self : SigningSession) (key : String) : Json :=
  let held :=
    match self.held.lookup key with
    | some map => map.entries.map holdJson
    | none => []
  let fields := [("key", Json.str key), ("held", .array held)]
  .object (match self.next.lookup key with
    | some next => fields ++ [("next", .str (toString next.val))]
    | none => fields)

/-- One entry of the head list. -/
def headJson (e : String × U64 × U64) : Json :=
  .object [("chain", .str e.1), ("height", .str (toString e.2.1.val)),
    ("at", .str (toString e.2.2.val))]

/-- The keys of the two maps, sorted, each once. -/
def exportKeys (self : SigningSession) : List String :=
  ((self.next.keys ++ self.held.keys).insertionSort (· ≤ ·)).destutter (· ≠ ·)

/-- The order of the head list: by chain, then height, then time. -/
def headLe (a b : String × U64 × U64) : Prop :=
  toLex (a.1, toLex a.2) ≤ toLex (b.1, toLex b.2)

instance : DecidableRel headLe := fun a b =>
  inferInstanceAs (Decidable (toLex (a.1, toLex a.2) ≤ toLex (b.1, toLex b.2)))

/-- The heads in order. -/
def exportHeads (self : SigningSession) : List (String × U64 × U64) :=
  (self.heads.entries.map (fun e => (e.1, e.2))).insertionSort headLe

/-- What a session saves of itself. -/
def exportJson (self : SigningSession) : Json :=
  .object [("version", .int 1), ("keys", .array (self.exportKeys.map self.entryJson)),
    ("heads", .array (self.exportHeads.map headJson))]

/-- The text of it. -/
def exportState (self : SigningSession) : String := self.exportJson.render

/-! ## Import -/

/-- A number of a saved session: a string of canonical decimal digits in range. -/
def number (value : Option Json) (what : String) : Except String U64 :=
  match ((value.bind Json.asStr).bind canonicalDecimal).bind (fun n => tryFrom _ n.val) with
  | some n => .ok n
  | none => .error s!"the saved session {what} is not a whole number"

/-- One hold of a saved key. -/
def readSlot (slots : SortedMap U64 Bool) (entry : Json) :
    Except String (SortedMap U64 Bool) := do
  let slot ← number (entry.get "slot") "slot"
  let accepted := match entry.get "accepted" with
    | some (.bool true) => true
    | _ => false
  return slots.insert slot accepted

/-- The counters and holds a key list names, a later entry of a key in place of
    an earlier one. -/
abbrev Saved := HashMap String U64 × HashMap String (SortedMap U64 Bool)

/-- One entry of the key list. -/
def readItem (saved : Saved) (item : Json) : Except String Saved := do
  let key ← match (item.get "key").bind Json.asStr with
    | some key => pure key
    | none => throw "a saved session entry has no key"
  let next ← match item.get "next" with
    | some value => (number (some value) "next nonce").map (saved.1.insert key)
    | none => pure saved.1
  let slots ← match item.get "held" with
    | some (.array list) => list.foldlM readSlot ∅
    | _ => pure ∅
  return (next, if slots.entries = [] then saved.2 else saved.2.insert key slots)

/-- Everything read before the session is first changed. -/
def readSaved (state : String) : Except String (Json × Saved) := do
  let parsed ← parse state
  if (parsed.get "version").bind Json.asU64 ≠ some 1 then
    throw "the saved session is not a version 1 session"
  let items ← match parsed.get "keys" with
    | some (.array items) => pure items
    | _ => throw "the saved session has no key list"
  return (parsed, ← items.foldlM readItem (∅, ∅))

/-- One entry of the head list. -/
def readHead (entry : Json) : Except String (String × U64 × U64) := do
  let chain ← match (entry.get "chain").bind Json.asStr with
    | some chain => pure chain
    | none => throw "a saved head names no chain"
  return (chain, ← number (entry.get "height") "head height",
    ← number (entry.get "at") "head time")

/-- The heads a saved session names, none when it has no head list. -/
def readHeads (parsed : Json) : Except String (List (String × U64 × U64)) :=
  match parsed.get "heads" with
  | none => .ok []
  | some (.array list) => list.mapM readHead
  | some _ => .error "the saved session heads are not a list"

/-- A saved counter raises the one the session has. -/
def raise (reached : Option U64) (value : U64) : U64 := max (reached.getD value) value

/-- Saved holds join the ones the session has. -/
def join (held : Option (SortedMap U64 Bool)) (slots : SortedMap U64 Bool) :
    SortedMap U64 Bool := (held.getD ∅).extend slots

/-- Merge a saved text: its keys first, then its heads. -/
def importState (self : SigningSession) (state : String) :
    Except String Unit × SigningSession :=
  match readSaved state with
  | .error e => (.error e, self)
  | .ok (parsed, next, held) =>
      let self := { self with next := mergeWith raise self.next next }
      match readHeads parsed with
      | .error e => (.error e, self)
      | .ok heads =>
          let self := { self with held := mergeWith join self.held held }
          (.ok (), heads.foldl (fun self e => self.noteHead e.1 e.2.1 e.2.2) self)

/-! ## Reading back what was exported -/

/-- A number is read from its decimal digits. -/
theorem canonicalDecimal_nat (n : U64) :
    (canonicalDecimal (toString n.val)).bind (fun m => tryFrom _ m.val) = some n := by
  have hlist : (toString n.val).toList = Nat.toDigits 10 n.val := by
    rw [Nat.toString_eq_repr]; exact Nat.toList_repr
  have hdig : ∀ c ∈ Nat.toDigits 10 n.val, c.isDigit = true :=
    fun c hc => Nat.isDigit_of_mem_toDigits (by decide) (by decide) hc
  have hall : (Nat.toDigits 10 n.val).all Char.isDigit = true := List.all_eq_true.mpr hdig
  have hwhole : wholeNumber (toString n.val) = some ⟨n.val, by omega⟩ := by
    rw [wholeNumber, hlist, hall, Nat.ofDigitChars_ten_toDigits, if_neg (by simp),
      tryFrom, dif_pos (by omega)]
  have hzero : ¬ (1 < (asBytes (toString n.val)).length ∧
      (Nat.toDigits 10 n.val).head? = some '0') := by
    rintro ⟨hlen, hhead⟩
    by_cases hpos : 0 < n.val
    · exact head_toDigits_ne_zero n.val hpos hhead
    · have h0 : n.val = 0 := by omega
      rw [asBytes_nat, h0, Nat.toDigits_zero] at hlen
      exact absurd hlen (Nat.lt_irrefl 1)
  rw [canonicalDecimal, hlist, if_neg hzero, hwhole]
  exact tryFrom_val n

/-- An exported number reads back. -/
theorem number_nat (n : U64) (what : String) :
    number (some (.str (toString n.val))) what = .ok n := by
  have h : (((some (Json.str (toString n.val))).bind Json.asStr).bind canonicalDecimal).bind
      (fun m => tryFrom _ m.val) = some n := canonicalDecimal_nat n
  rw [number, h]

/-- A hold is read as it is written. -/
theorem readSlot_holdJson (slots : SortedMap U64 Bool) (e : U64 × Bool) :
    readSlot slots (holdJson e) = .ok (slots.insert e.1 e.2) := by
  have hslot : (holdJson e).get "slot" = some (.str (toString e.1.val)) := rfl
  have hacc : (holdJson e).get "accepted" = some (.bool e.2) := rfl
  rw [readSlot, hslot, hacc, number_nat]
  cases e.2 <;> rfl

/-- Holds that are written are read, one after another. -/
theorem foldlM_readSlot (l : List (U64 × Bool)) : ∀ slots : SortedMap U64 Bool,
    (l.map holdJson).foldlM readSlot slots = .ok (slots.insertMany l) := by
  induction l with
  | nil => intro slots; rfl
  | cons e rest ih =>
      intro slots
      rw [List.map_cons, List.foldlM_cons, readSlot_holdJson]
      exact ih _

/-- Inserting a map's entries into an empty map gives the map back. -/
theorem insertMany_entries (m : SortedMap U64 Bool) :
    (∅ : SortedMap U64 Bool).insertMany m.entries = m := by
  refine SortedMap.ext_get (fun k => ?_)
  have := SortedMap.get_extend (∅ : SortedMap U64 Bool) m k
  rw [SortedMap.extend] at this
  rw [this, SortedMap.get_empty, Option.or_none]

theorem entryJson_key (s : SigningSession) (k : String) :
    (s.entryJson k).get "key" = some (.str k) := by
  rw [entryJson]
  cases s.next.lookup k <;> rfl

theorem entryJson_next (s : SigningSession) (k : String) :
    (s.entryJson k).get "next"
      = (s.next.lookup k).map (fun n => Json.str (toString n.val)) := by
  rw [entryJson]
  cases s.next.lookup k <;> rfl

/-- The holds of a key are saved under their name. -/
theorem entryJson_held (s : SigningSession) (k : String) :
    (s.entryJson k).get "held" = some (.array ((s.heldOf k).entries.map holdJson)) := by
  have hheld : (match s.held.lookup k with
      | some map => map.entries.map holdJson
      | none => []) = (s.heldOf k).entries.map holdJson := by
    rw [heldOf]
    cases s.held.lookup k <;> rfl
  rw [entryJson, hheld]
  cases s.next.lookup k <;> rfl

/-- The counters and holds after one exported entry is read. -/
def savedEntry (s : SigningSession) (saved : Saved) (k : String) : Saved :=
  (match s.next.lookup k with
    | some n => saved.1.insert k n
    | none => saved.1,
   if (s.heldOf k).entries = [] then saved.2 else saved.2.insert k (s.heldOf k))

/-- What is saved of a key is read. -/
theorem readItem_entryJson (s : SigningSession) (saved : Saved) (k : String) :
    readItem saved (s.entryJson k) = .ok (savedEntry s saved k) := by
  have hkey : (some (Json.str k)).bind Json.asStr = some k := rfl
  rw [readItem, entryJson_key, entryJson_next, entryJson_held, hkey]
  dsimp only [pure_bind]
  rw [foldlM_readSlot, insertMany_entries]
  cases hn : s.next.lookup k with
  | none => simp only [Option.map_none, savedEntry, hn]; rfl
  | some n =>
      simp only [Option.map_some, number_nat, savedEntry, hn]
      rfl

/-- What is saved of some keys is read, one after another. -/
theorem foldlM_readItem (s : SigningSession) (keys : List String) : ∀ saved : Saved,
    (keys.map s.entryJson).foldlM readItem saved = .ok (keys.foldl (savedEntry s) saved) := by
  induction keys with
  | nil => intro saved; rfl
  | cons k rest ih =>
      intro saved
      rw [List.map_cons, List.foldlM_cons, readItem_entryJson]
      exact ih _

/-- What is read of a key is its next nonce. -/
theorem savedEntry_next (s : SigningSession) (saved : Saved) (k k' : String) :
    (savedEntry s saved k).1.lookup k'
      = if k' = k then (s.next.lookup k').or (saved.1.lookup k') else saved.1.lookup k' := by
  rw [savedEntry]
  by_cases h : k' = k
  · rw [if_pos h, h]
    cases hn : s.next.lookup k with
    | none => rfl
    | some n => dsimp only; rw [lookup_insert, if_pos rfl]; rfl
  · rw [if_neg h]
    cases hn : s.next.lookup k with
    | none => rfl
    | some n => dsimp only; rw [lookup_insert, if_neg h]

/-- A key's holds, when it has any. -/
def someHolds (held : SortedMap U64 Bool) : Option (SortedMap U64 Bool) :=
  if held.entries = [] then none else some held

/-- What is read of a key is its holds. -/
theorem savedEntry_held (s : SigningSession) (saved : Saved) (k k' : String) :
    (savedEntry s saved k).2.lookup k'
      = if k' = k then (someHolds (s.heldOf k')).or (saved.2.lookup k')
        else saved.2.lookup k' := by
  rw [savedEntry, someHolds]
  by_cases h : k' = k
  · rw [if_pos h, h]
    by_cases hn : (s.heldOf k).entries = []
    · rw [if_pos hn, if_pos hn]; rfl
    · dsimp only
      rw [if_neg hn, if_neg hn, lookup_insert, if_pos rfl]; rfl
  · rw [if_neg h]
    by_cases hn : (s.heldOf k).entries = []
    · rw [if_pos hn]
    · dsimp only
      rw [if_neg hn, lookup_insert, if_neg h]

/-- Reading the exported entries gives every listed key its counter and holds. -/
theorem foldl_savedEntry (s : SigningSession) (keys : List String) (k : String) :
    (keys.foldl (savedEntry s) (∅, ∅)).1.lookup k
        = (if k ∈ keys then s.next.lookup k else none) ∧
      (keys.foldl (savedEntry s) (∅, ∅)).2.lookup k
        = (if k ∈ keys then someHolds (s.heldOf k) else none) := by
  induction keys using List.reverseRecOn with
  | nil => exact ⟨rfl, rfl⟩
  | append_singleton keys k' ih =>
      obtain ⟨ih1, ih2⟩ := ih
      rw [List.foldl_append]
      show (savedEntry s _ k').1.lookup k = _ ∧ (savedEntry s _ k').2.lookup k = _
      rw [savedEntry_next, savedEntry_held, ih1, ih2]
      by_cases hk : k = k' <;> by_cases hmem : k ∈ keys <;> simp [hk, hmem] <;> simp_all

/-! ## The exported lists -/

/-- A sorted list with its repetitions removed is strictly sorted and keeps its
    members. -/
theorem destutter_sorted {l : List String} (hs : l.Pairwise (· ≤ ·)) :
    (l.destutter (· ≠ ·)).Pairwise (· < ·) ∧
      ∀ k, k ∈ l.destutter (· ≠ ·) ↔ k ∈ l := by
  have hdedup : l.destutter (· ≠ ·) = l.dedup := hs.destutter_eq_dedup
  rw [hdedup]
  have hle : l.dedup.Pairwise (· ≤ ·) := hs.sublist (List.dedup_sublist l)
  refine ⟨?_, fun k => List.mem_dedup⟩
  exact (hle.and (List.nodup_dedup l)).imp (fun h => lt_of_le_of_ne h.1 h.2)

theorem exportKeys_sorted (s : SigningSession) : s.exportKeys.Pairwise (· < ·) :=
  (destutter_sorted (List.pairwise_insertionSort (· ≤ ·) _)).1

theorem mem_exportKeys {s : SigningSession} {k : String} :
    k ∈ s.exportKeys ↔ (s.next.lookup k).isSome = true ∨ (s.held.lookup k).isSome = true := by
  rw [exportKeys, (destutter_sorted (List.pairwise_insertionSort (· ≤ ·) _)).2,
    List.mem_insertionSort, List.mem_append, mem_keys, mem_keys]

theorem exportKeys_next {s : SigningSession} {k : String} (h : k ∉ s.exportKeys) :
    s.next.lookup k = none ∧ s.heldOf k = ∅ := by
  rw [mem_exportKeys, not_or, Option.not_isSome_iff_eq_none,
    Option.not_isSome_iff_eq_none] at h
  exact ⟨h.1, by rw [heldOf, h.2]; rfl⟩

/-- The heads that are saved are those that are kept. -/
theorem mem_exportHeads {s : SigningSession} {e : String × U64 × U64} :
    e ∈ s.exportHeads ↔ s.heads.lookup e.1 = some e.2 := by
  rw [exportHeads, List.mem_insertionSort, ← mem_entries, List.mem_map]
  constructor
  · rintro ⟨x, hx, rfl⟩; exact hx
  · intro h; exact ⟨_, h, rfl⟩

/-- Each chain has one head among them. -/
theorem exportHeads_nodup (s : SigningSession) : (s.exportHeads.map Prod.fst).Nodup := by
  have hperm : (s.exportHeads.map Prod.fst).Perm s.heads.keys := by
    refine ((List.perm_insertionSort headLe _).map Prod.fst).trans ?_
    rw [List.map_map]
    exact List.Perm.refl _
  exact hperm.nodup_iff.mpr s.heads.keys_nodup

theorem holdJson_wf (e : U64 × Bool) :
    Json.DistinctKeys (holdJson e) ∧ Json.height (holdJson e) ≤ 1 := by
  simp [holdJson, Json.DistinctKeys, Json.DistinctFields, Json.height, Json.heightFields]

theorem headJson_wf (e : String × U64 × U64) :
    Json.DistinctKeys (headJson e) ∧ Json.height (headJson e) ≤ 1 := by
  simp [headJson, Json.DistinctKeys, Json.DistinctFields, Json.height, Json.heightFields]

/-- What is saved of a key has keys of its own and is three levels high. -/
theorem entryJson_wf (s : SigningSession) (k : String) :
    Json.DistinctKeys (s.entryJson k) ∧ Json.height (s.entryJson k) ≤ 3 := by
  have hgen : ∀ l : List (U64 × Bool), Json.DistinctItems (l.map holdJson) ∧
      Json.heightItems (l.map holdJson) ≤ 1 := by
    intro l
    rw [distinctItems_iff, heightItems_le_iff, List.forall_mem_map, List.forall_mem_map]
    exact ⟨fun e _ => (holdJson_wf e).1, fun e _ => (holdJson_wf e).2⟩
  have hheld : ∃ l : List (U64 × Bool), (match s.held.lookup k with
      | some map => map.entries.map holdJson
      | none => []) = l.map holdJson := by
    cases s.held.lookup k with
    | none => exact ⟨[], rfl⟩
    | some map => exact ⟨map.entries, rfl⟩
  obtain ⟨l, hl⟩ := hheld
  obtain ⟨hdistinct, hheight⟩ := hgen l
  rw [entryJson, hl]
  cases s.next.lookup k with
  | none =>
      refine ⟨by simp [Json.DistinctKeys, Json.DistinctFields, hdistinct], ?_⟩
      simp only [Json.height, Json.heightFields]
      omega
  | some next =>
      refine ⟨by simp [Json.DistinctKeys, Json.DistinctFields, hdistinct], ?_⟩
      simp only [List.cons_append, List.nil_append, Json.height, Json.heightFields]
      omega

/-- **An exported text parses** to the value it was written from. -/
theorem parse_exportState (s : SigningSession) : parse s.exportState = .ok s.exportJson := by
  have hkeys : Json.DistinctItems (s.exportKeys.map s.entryJson) ∧
      Json.heightItems (s.exportKeys.map s.entryJson) ≤ 3 := by
    rw [distinctItems_iff, heightItems_le_iff, List.forall_mem_map, List.forall_mem_map]
    exact ⟨fun k _ => (entryJson_wf s k).1, fun k _ => (entryJson_wf s k).2⟩
  have hheads : Json.DistinctItems (s.exportHeads.map headJson) ∧
      Json.heightItems (s.exportHeads.map headJson) ≤ 1 := by
    rw [distinctItems_iff, heightItems_le_iff, List.forall_mem_map, List.forall_mem_map]
    exact ⟨fun e _ => (headJson_wf e).1, fun e _ => (headJson_wf e).2⟩
  refine parse_render ?_ ?_
  · simp [exportJson, Json.DistinctKeys, Json.DistinctFields, hkeys.1, hheads.1]
  · have h1 := hkeys.2
    have h2 := hheads.2
    simp only [exportJson, Json.height, Json.heightFields, maxDepth]
    omega

/-- A head is read as it is written. -/
theorem readHead_headJson (e : String × U64 × U64) : readHead (headJson e) = .ok e := by
  have hchain : ((headJson e).get "chain").bind Json.asStr = some e.1 := rfl
  have hheight : (headJson e).get "height" = some (.str (toString e.2.1.val)) := rfl
  have hat : (headJson e).get "at" = some (.str (toString e.2.2.val)) := rfl
  rw [readHead, hchain, hheight, hat, number_nat, number_nat]
  rfl

/-- So are some heads. -/
theorem mapM_readHead (l : List (String × U64 × U64)) :
    (l.map headJson).mapM readHead = .ok l := by
  induction l with
  | nil => rfl
  | cons e rest ih =>
      rw [List.map_cons, List.mapM_cons, readHead_headJson, ih]
      rfl

theorem readHeads_exportJson (s : SigningSession) :
    readHeads s.exportJson = .ok s.exportHeads := by
  have hheads : s.exportJson.get "heads" = some (.array (s.exportHeads.map headJson)) := rfl
  rw [readHeads, hheads]
  exact mapM_readHead s.exportHeads

/-- What is saved of a session is read. -/
theorem readSaved_exportState (s : SigningSession) :
    readSaved s.exportState
      = .ok (s.exportJson, s.exportKeys.foldl (savedEntry s) (∅, ∅)) := by
  have hversion : (s.exportJson.get "version").bind Json.asU64 = some 1 := rfl
  have hkeys : s.exportJson.get "keys" = some (.array (s.exportKeys.map s.entryJson)) := rfl
  rw [readSaved, parse_exportState]
  show (do
    if (s.exportJson.get "version").bind Json.asU64 ≠ some 1 then
      throw "the saved session is not a version 1 session"
    let items ← match s.exportJson.get "keys" with
      | some (.array items) => pure items
      | _ => throw "the saved session has no key list"
    return (s.exportJson, ← items.foldlM readItem (∅, ∅)) : Except String (Json × Saved)) = _
  rw [hversion, hkeys]
  simp only [ne_eq, not_true_eq_false, if_false, pure_bind]
  rw [foldlM_readItem]
  rfl

/-! ## What a restored text leaves -/

/-- What noting a head leaves as the floor of its chain. -/
def risen (floor : Option (U64 × U64)) (head : U64 × U64) : U64 × U64 :=
  match floor with
  | none => head
  | some old => if old.1 < head.1 then head else old

/-- A head raises the floor of its own chain. -/
@[grind =] theorem headFloor_noteHead (s : SigningSession) (c c' : String) (h w : U64) :
    (s.noteHead c h w).headFloor c'
      = if c' = c then some (risen (s.headFloor c) (h, w)) else s.headFloor c' := by
  have hrisen : (if ((s.heads.lookup c).getD (h, w)).1 < h then (h, w)
      else (s.heads.lookup c).getD (h, w)) = risen (s.headFloor c) (h, w) := by
    rw [headFloor]
    cases s.heads.lookup c with
    | none => simp [risen]
    | some old => rfl
  show (s.heads.insert c _).lookup c' = _
  rw [lookup_insert, hrisen]
  rfl

/-- Noting the heads of a list that names each chain once. -/
theorem foldl_noteHead (l : List (String × U64 × U64)) (hnd : (l.map Prod.fst).Nodup) :
    ∀ s : SigningSession, ∀ c,
      (l.foldl (fun s e => s.noteHead e.1 e.2.1 e.2.2) s).headFloor c
        = match l.find? (fun e => e.1 = c) with
          | some e => some (risen (s.headFloor c) e.2)
          | none => s.headFloor c := by
  induction l with
  | nil => intro s c; rfl
  | cons e rest ih =>
      rw [List.map_cons, List.nodup_cons] at hnd
      intro s c
      rw [List.foldl_cons, ih hnd.2, headFloor_noteHead, List.find?_cons]
      by_cases hc : e.1 = c
      · have hrest : rest.find? (fun e => e.1 = c) = none := by
          rw [List.find?_eq_none]
          intro x hx hxc
          refine hnd.1 (List.mem_map.mpr ⟨x, hx, ?_⟩)
          rw [hc]
          exact of_decide_eq_true hxc
        rw [hrest]
        simp [hc]
      · simp [hc, Ne.symm hc]

/-- Heads change nothing that is kept of nonces. -/
theorem foldl_noteHead_views (l : List (String × U64 × U64)) : ∀ s : SigningSession,
    (∀ k, (l.foldl (fun s e => s.noteHead e.1 e.2.1 e.2.2) s).nextNonce k = s.nextNonce k) ∧
      (∀ k, (l.foldl (fun s e => s.noteHead e.1 e.2.1 e.2.2) s).heldOf k = s.heldOf k) ∧
      (∀ k, (l.foldl (fun s e => s.noteHead e.1 e.2.1 e.2.2) s).reservedOf k
        = s.reservedOf k) := by
  induction l with
  | nil => intro s; exact ⟨fun _ => rfl, fun _ => rfl, fun _ => rfl⟩
  | cons e rest ih => intro s; exact ih (s.noteHead e.1 e.2.1 e.2.2)

/-- The floor of a chain is found among those saved. -/
theorem find?_exportHeads (s : SigningSession) (c : String) :
    s.exportHeads.find? (fun e => e.1 = c) = (s.headFloor c).map (fun f => (c, f)) := by
  cases hf : s.headFloor c with
  | none =>
      rw [Option.map_none, List.find?_eq_none]
      intro e he hec
      rw [mem_exportHeads, of_decide_eq_true hec] at he
      rw [headFloor, he] at hf
      exact nomatch hf
  | some f =>
      cases hfind : s.exportHeads.find? (fun e => e.1 = c) with
      | none =>
          rw [List.find?_eq_none] at hfind
          exact absurd (decide_eq_true rfl) (hfind (c, f) (mem_exportHeads.mpr hf))
      | some e =>
          have hec : e.1 = c := by simpa using List.find?_some hfind
          have hmem := mem_exportHeads.mp (List.mem_of_find?_eq_some hfind)
          rw [hec] at hmem
          have hval : e.2 = f := Option.some.inj (hmem.symm.trans hf)
          rw [Option.map_some, ← hec, ← hval]

/-- How a session stands after a text exported from another is restored into
    it: counters are raised, holds are joined, heads rise. -/
structure Restored (s t s' : SigningSession) : Prop where
  next : ∀ k, s'.nextNonce k = merged raise (s.nextNonce k) (t.nextNonce k)
  held : ∀ k, s'.heldOf k = (s.heldOf k).extend (t.heldOf k)
  reserved : ∀ k, s'.reservedOf k = s.reservedOf k
  heads : ∀ c, s'.headFloor c = merged risen (s.headFloor c) (t.headFloor c)

theorem extend_empty (m : SortedMap U64 Bool) : m.extend ∅ = m := rfl

/-- **Restoring an exported text succeeds**, and merges what was exported. -/
theorem importState_exportState (s t : SigningSession) :
    ∃ s', s.importState t.exportState = (.ok (), s') ∧ Restored s t s' := by
  have hsaved := foldl_savedEntry t t.exportKeys
  rw [importState, readSaved_exportState]
  dsimp only
  rw [readHeads_exportJson]
  refine ⟨_, rfl, ?_, ?_, ?_, ?_⟩
  · intro k
    rw [(foldl_noteHead_views t.exportHeads _).1]
    show (mergeWith raise s.next _).lookup k = _
    rw [lookup_mergeWith, (hsaved k).1]
    by_cases hk : k ∈ t.exportKeys
    · rw [if_pos hk]; rfl
    · rw [if_neg hk, nextNonce, nextNonce, (exportKeys_next hk).1]
  · intro k
    rw [(foldl_noteHead_views t.exportHeads _).2.1]
    show ((mergeWith join s.held _).lookup k).getD ∅ = _
    have hsome : (merged join (s.held.lookup k) (someHolds (t.heldOf k))).getD ∅
        = (s.heldOf k).extend (t.heldOf k) := by
      rw [someHolds]
      split
      · next hempty =>
          have hzero : t.heldOf k = ∅ := by
            cases h : t.heldOf k with
            | mk entries sorted => rw [h] at hempty; cases hempty; rfl
          rw [hzero, extend_empty]
          rfl
      · rfl
    rw [lookup_mergeWith, (hsaved k).2]
    by_cases hk : k ∈ t.exportKeys
    · rw [if_pos hk, hsome]
    · rw [if_neg hk, (exportKeys_next hk).2, extend_empty]
      rfl
  · intro k
    exact (foldl_noteHead_views t.exportHeads _).2.2 k
  · intro c
    rw [foldl_noteHead t.exportHeads (exportHeads_nodup t), find?_exportHeads]
    show (match (t.headFloor c).map (fun f => (c, f)) with
      | some e => some (risen (s.headFloor c) e.2)
      | none => s.headFloor c) = _
    cases t.headFloor c <;> rfl

end SigningSession

end QCoreSession
