import Mathlib
import QCore.FallibleProofs
import QCore.SessionSpentProofs

/-! # What a saved text does to a session

    `importState` reads any text, not only what `exportState` wrote.  Its key
    list and its head list are first described for themselves: which elements can
    be read, and what each of them names.  What an import leaves is then a few
    lines about those (`importState_reads`), whatever the text.

    Two things follow from the order the source works in.  It raises the counters
    before it reads the heads, so a text with a malformed head is refused after
    counters have moved.  And it collects what the key list names into fresh maps
    first, where a later element of a key stands in place of an earlier one. -/

namespace QCoreSession

open QCoreMachineInt QCoreSortedMap QCoreHashMap QCoreFallible QCoreJson QCoreJsonRoundTrip

namespace SigningSession

/-! ## What a text names -/

/-- A field that holds a whole number as a text of canonical digits. -/
def wholeField (value : Option Json) : Option U64 :=
  ((value.bind Json.asStr).bind canonicalDecimal).bind (fun n => tryFrom _ n.val)

/-- The elements of a list field, none when it is no list. -/
def listField (value : Option Json) : List Json :=
  match value with
  | some (.array list) => list
  | _ => []

/-- The elements of a saved text that are about keys. -/
def keyList (parsed : Json) : List Json := listField (parsed.get "keys")

/-- Those that are about heads. -/
def headList (parsed : Json) : List Json := listField (parsed.get "heads")

/-- The key an element of the key list is about. -/
def itemKey (item : Json) : Option String := (item.get "key").bind Json.asStr

/-- The counter an element of the key list names. -/
def itemNext (item : Json) : Option U64 := wholeField (item.get "next")

/-- The slots the held list of an element names. -/
def itemSlots (item : Json) : List U64 :=
  (listField (item.get "held")).filterMap (fun entry => wholeField (entry.get "slot"))

/-- What an element about a head names. -/
def headChain (entry : Json) : Option String := (entry.get "chain").bind Json.asStr

/-- The height that it names. -/
def headHeight (entry : Json) : Option U64 := wholeField (entry.get "height")

/-- The time that it names. -/
def headAt (entry : Json) : Option U64 := wholeField (entry.get "at")

/-- An element of the key list that can be read. -/
structure ReadableItem (item : Json) : Prop where
  key : (itemKey item).isSome = true
  next : (item.get "next").isSome = true → (itemNext item).isSome = true
  slots : ∀ entry ∈ listField (item.get "held"), (wholeField (entry.get "slot")).isSome = true

/-- A version 1 text with a key list that can be read. -/
structure ReadableKeys (parsed : Json) : Prop where
  version : (parsed.get "version").bind Json.asU64 = some 1
  list : ∃ items, parsed.get "keys" = some (.array items)
  items : ∀ item ∈ keyList parsed, ReadableItem item

/-- An element of the head list that can be read. -/
structure ReadableHead (entry : Json) : Prop where
  chain : (headChain entry).isSome = true
  height : (headHeight entry).isSome = true
  time : (headAt entry).isSome = true

/-- No head list, or one that can be read. -/
structure ReadableHeads (parsed : Json) : Prop where
  list : ∀ value, parsed.get "heads" = some value → ∃ entries, value = .array entries
  entries : ∀ entry ∈ headList parsed, ReadableHead entry

/-! ## Reading an element -/

theorem number_ok {value : Option Json} {n : U64} (h : wholeField value = some n)
    (what : String) : number value what = .ok n := by
  rw [wholeField] at h
  rw [number, h]

theorem number_error {value : Option Json} (h : wholeField value = none) (what : String) :
    ∃ e, number value what = .error e := by
  rw [wholeField] at h
  rw [number, h]
  exact ⟨_, rfl⟩

/-- Whether a hold is marked accepted; anything but `true` is not. -/
def acceptedField (entry : Json) : Bool :=
  match entry.get "accepted" with
  | some (.bool true) => true
  | _ => false

/-- The holds with those of one more entry of a held list. -/
def addSlot (slots : SortedMap U64 Bool) (entry : Json) : SortedMap U64 Bool :=
  match wholeField (entry.get "slot") with
  | some n => slots.insert n (acceptedField entry)
  | none => slots

/-- The holds an element of the key list names, a later one of a slot in place of
    an earlier one. -/
def itemHolds (item : Json) : SortedMap U64 Bool :=
  (listField (item.get "held")).foldl addSlot ∅

/-- A slot is added where it is a whole number. -/
theorem readSlot_screens :
    Screens readSlot (fun entry => (wholeField (entry.get "slot")).isSome = true) addSlot := by
  constructor
  · intro slots entry h
    obtain ⟨n, hn⟩ := Option.isSome_iff_exists.mp h
    rw [readSlot, number_ok hn, addSlot, hn]
    rfl
  · intro slots entry h
    obtain ⟨e, he⟩ := number_error (Option.not_isSome_iff_eq_none.mp h) "slot"
    exact ⟨e, by rw [readSlot, he]; rfl⟩

/-- The counters and holds with those of one more element of the key list. -/
def addItem (saved : Saved) (item : Json) : Saved :=
  match itemKey item with
  | none => saved
  | some key =>
      (match itemNext item with
        | some n => saved.1.insert key n
        | none => saved.1,
       if (itemHolds item).entries = [] then saved.2 else saved.2.insert key (itemHolds item))

/-- The key an element is about, read. -/
def readKey (item : Json) : Except String String :=
  match (item.get "key").bind Json.asStr with
  | some key => .ok key
  | none => .error "a saved session entry has no key"

/-- The counters with the one an element names, read. -/
def readNext (next : HashMap String U64) (key : String) (item : Json) :
    Except String (HashMap String U64) :=
  match item.get "next" with
  | some value => (number (some value) "next nonce").map (next.insert key)
  | none => .ok next

/-- The holds an element names, read. -/
def readHolds (item : Json) : Except String (SortedMap U64 Bool) :=
  match item.get "held" with
  | some (.array list) => list.foldlM readSlot ∅
  | _ => .ok ∅

/-- An element is read in three parts. -/
theorem readItem_eq (saved : Saved) (item : Json) : readItem saved item
    = readKey item >>= fun key => readNext saved.1 key item >>= fun next =>
        readHolds item >>= fun slots =>
          .ok (next, if slots.entries = [] then saved.2 else saved.2.insert key slots) := by
  rw [readItem, readKey]
  cases (item.get "key").bind Json.asStr with
  | none => rfl
  | some key =>
      rw [ok_bind, readNext, readHolds]
      cases item.get "next" with
      | none =>
          cases item.get "held" with
          | none => rfl
          | some held => cases held <;> rfl
      | some value =>
          cases item.get "held" with
          | none => rfl
          | some held => cases held <;> rfl

theorem readKey_pass {item : Json} {key : String} (h : itemKey item = some key) :
    readKey item = .ok key := by
  rw [itemKey] at h
  rw [readKey, h]

theorem readKey_refuses {item : Json} (h : itemKey item = none) : ∃ e, readKey item = .error e := by
  rw [itemKey] at h
  rw [readKey, h]
  exact ⟨_, rfl⟩

/-- The counters with the one an element names. -/
def addNext (next : HashMap String U64) (key : String) (item : Json) : HashMap String U64 :=
  match itemNext item with
  | some n => next.insert key n
  | none => next

/-- A next nonce that can be read is added. -/
theorem readNext_pass {item : Json}
    (h : (item.get "next").isSome = true → (itemNext item).isSome = true)
    (next : HashMap String U64) (key : String) :
    readNext next key item = .ok (addNext next key item) := by
  rw [readNext, addNext]
  rw [itemNext] at h ⊢
  cases hvalue : item.get "next" with
  | none => rfl
  | some value =>
      rw [hvalue] at h
      obtain ⟨n, hwhole⟩ := Option.isSome_iff_exists.mp (h rfl)
      dsimp only
      rw [number_ok hwhole, hwhole]
      rfl

/-- One that cannot be read is refused. -/
theorem readNext_refuses {item : Json}
    (h : ¬ ((item.get "next").isSome = true → (itemNext item).isSome = true))
    (next : HashMap String U64) (key : String) : ∃ e, readNext next key item = .error e := by
  rw [itemNext] at h
  rw [readNext]
  cases hvalue : item.get "next" with
  | none =>
      rw [hvalue] at h
      exact absurd (fun hnone => absurd hnone Bool.false_ne_true) h
  | some value =>
      rw [hvalue] at h
      cases hwhole : wholeField (some value) with
      | none =>
          obtain ⟨e, he⟩ := number_error hwhole "next nonce"
          exact ⟨e, by dsimp only; rw [he]; rfl⟩
      | some n =>
          rw [hwhole] at h
          exact absurd (fun _ => rfl) h

/-- Holds that can be read are read. -/
theorem readHolds_pass {item : Json}
    (h : ∀ entry ∈ listField (item.get "held"), (wholeField (entry.get "slot")).isSome = true) :
    readHolds item = .ok (itemHolds item) := by
  rw [readHolds, itemHolds]
  cases hheld : item.get "held" with
  | none => rfl
  | some held =>
      rw [hheld] at h
      cases held with
      | array list => exact readSlot_screens.foldlM_pass h ∅
      | _ => rfl

/-- Holds of which one cannot be read are refused. -/
theorem readHolds_refuses {item : Json}
    (h : ¬ ∀ entry ∈ listField (item.get "held"), (wholeField (entry.get "slot")).isSome = true) :
    ∃ e, readHolds item = .error e := by
  rw [readHolds]
  cases hheld : item.get "held" with
  | none =>
      rw [hheld] at h
      exact absurd (fun entry hmem => absurd hmem List.not_mem_nil) h
  | some held =>
      rw [hheld] at h
      cases held with
      | array list => exact readSlot_screens.foldlM_fail h ∅
      | _ => exact absurd (fun entry hmem => absurd hmem List.not_mem_nil) h

/-- An item is added where it can be read. -/
theorem readItem_screens : Screens readItem ReadableItem addItem := by
  constructor
  · intro saved item h
    obtain ⟨key, hkey⟩ := Option.isSome_iff_exists.mp h.key
    rw [readItem_eq, addItem, hkey]
    exact bind_pass (readKey_pass hkey) (bind_pass (readNext_pass h.next saved.1 key)
      (bind_pass (readHolds_pass h.slots) rfl))
  · intro saved item h
    rw [readItem_eq]
    cases hkey : itemKey item with
    | none => exact bind_refuses (readKey_refuses hkey)
    | some key =>
        refine bind_pass_refuses (readKey_pass hkey) ?_
        by_cases hnext : (item.get "next").isSome = true → (itemNext item).isSome = true
        · refine bind_pass_refuses (readNext_pass hnext saved.1 key) ?_
          refine bind_refuses (readHolds_refuses ?_)
          intro hslots
          exact h ⟨by rw [hkey]; rfl, hnext, hslots⟩
        · exact bind_refuses (readNext_refuses hnext saved.1 key)

/-- The head an element of the head list names. -/
def namedHead (entry : Json) : String × U64 × U64 :=
  ((headChain entry).getD "", (headHeight entry).getD 0, (headAt entry).getD 0)

/-- A head that can be read is read. -/
theorem readHead_pass {entry : Json} (h : ReadableHead entry) :
    readHead entry = .ok (namedHead entry) := by
  obtain ⟨chain, hchain⟩ := Option.isSome_iff_exists.mp h.chain
  obtain ⟨height, hheight⟩ := Option.isSome_iff_exists.mp h.height
  obtain ⟨time, htime⟩ := Option.isSome_iff_exists.mp h.time
  rw [namedHead, hchain, hheight, htime, readHead]
  rw [headChain] at hchain
  rw [hchain, number_ok hheight, number_ok htime]
  rfl

/-- One that cannot be read is refused. -/
theorem readHead_fail {entry : Json} (h : ¬ ReadableHead entry) :
    ∃ e, readHead entry = .error e := by
  rw [readHead]
  cases hchain : (entry.get "chain").bind Json.asStr with
  | none => exact ⟨_, rfl⟩
  | some chain =>
      dsimp only [pure_bind]
      cases hheight : wholeField (entry.get "height") with
      | none =>
          obtain ⟨e, he⟩ := number_error hheight "head height"
          exact ⟨e, by rw [he]; rfl⟩
      | some height =>
          rw [number_ok hheight]
          cases htime : wholeField (entry.get "at") with
          | none =>
              obtain ⟨e, he⟩ := number_error htime "head time"
              exact ⟨e, by rw [he]; rfl⟩
          | some time =>
              refine absurd ⟨?_, ?_, ?_⟩ h
              · rw [headChain, hchain]; rfl
              · rw [headHeight, hheight]; rfl
              · rw [headAt, htime]; rfl

/-! ## Reading the lists -/

/-- Heads that can be read are read. -/
theorem readHeads_pass {parsed : Json} (h : ReadableHeads parsed) :
    readHeads parsed = .ok ((headList parsed).map namedHead) := by
  have hentries := h.entries
  rw [headList] at hentries ⊢
  rw [readHeads]
  cases hheads : parsed.get "heads" with
  | none => rfl
  | some value =>
      obtain ⟨entries, rfl⟩ := h.list value hheads
      rw [hheads] at hentries
      exact mapM_pass fun entry hmem => readHead_pass (hentries entry hmem)

/-- Heads of which one cannot be read are refused. -/
theorem readHeads_fail {parsed : Json} (h : ¬ ReadableHeads parsed) :
    ∃ e, readHeads parsed = .error e := by
  rw [readHeads]
  cases hheads : parsed.get "heads" with
  | none =>
      refine absurd ⟨?_, ?_⟩ h
      · intro value hvalue
        rw [hheads] at hvalue
        cases hvalue
      · intro entry hmem
        rw [headList, hheads] at hmem
        exact absurd hmem List.not_mem_nil
  | some value =>
      cases value with
      | array entries =>
          have hbad : ∃ entry ∈ entries, ¬ ReadableHead entry := by
            by_contra hall
            push Not at hall
            refine h ⟨?_, ?_⟩
            · intro value hvalue
              rw [hheads] at hvalue
              exact ⟨entries, (Option.some.inj hvalue).symm⟩
            · intro entry hmem
              rw [headList, hheads] at hmem
              exact hall entry hmem
          obtain ⟨entry, hmem, hentry⟩ := hbad
          exact mapM_fail ⟨entry, hmem, readHead_fail hentry⟩
      | _ => exact ⟨_, rfl⟩

/-- What the key list of a text names, collected. -/
def collected (parsed : Json) : Saved := (keyList parsed).foldl addItem (∅, ∅)

/-- A text whose keys can be read gives what they collect. -/
theorem readSaved_pass {state : String} {parsed : Json} (hparse : parse state = .ok parsed)
    (h : ReadableKeys parsed) : readSaved state = .ok (parsed, collected parsed) := by
  have hitems := h.items
  obtain ⟨items, hkeys⟩ := h.list
  rw [collected, keyList] at *
  rw [hkeys] at hitems ⊢
  have hfold : items.foldlM readItem (∅, ∅) = .ok (items.foldl addItem (∅, ∅)) :=
    readItem_screens.foldlM_pass hitems (∅, ∅)
  rw [readSaved, hparse, ok_bind, if_neg (not_not.mpr h.version), hkeys]
  show (items.foldlM readItem (∅, ∅) >>= _) = _
  rw [hfold]
  rfl

/-- One of whose keys one cannot be read is refused. -/
theorem readSaved_fail {state : String}
    (h : ∀ parsed, parse state = .ok parsed → ¬ ReadableKeys parsed) :
    ∃ e, readSaved state = .error e := by
  rw [readSaved]
  cases hparse : parse state with
  | error e => exact ⟨e, rfl⟩
  | ok parsed =>
      rw [ok_bind]
      by_cases hversion : (parsed.get "version").bind Json.asU64 = some 1
      · rw [if_neg (not_not.mpr hversion)]
        cases hkeys : parsed.get "keys" with
        | none => exact ⟨_, rfl⟩
        | some value =>
            cases value with
            | array items =>
                have hbad : ¬ ∀ item ∈ items, ReadableItem item := by
                  intro hall
                  refine h parsed hparse ⟨hversion, ⟨items, hkeys⟩, ?_⟩
                  rw [keyList, hkeys]
                  exact hall
                obtain ⟨e, he⟩ := readItem_screens.foldlM_fail hbad (∅, ∅)
                refine ⟨e, ?_⟩
                show (items.foldlM readItem (∅, ∅) >>= _) = _
                rw [he]
                rfl
            | _ => exact ⟨_, rfl⟩
      · rw [if_pos hversion]
        exact ⟨_, rfl⟩

/-! ## What the key list names for a key -/

/-- What an element names for a key. -/
def nextFor (k : String) (item : Json) : Option U64 :=
  if itemKey item = some k then itemNext item else none

/-- The holds that it names for a key. -/
def holdsFor (k : String) (item : Json) : Option (SortedMap U64 Bool) :=
  if itemKey item = some k then someHolds (itemHolds item) else none

/-- The counter the last element of a key that names one names for it. -/
def lastNext (parsed : Json) (k : String) : Option U64 :=
  ((keyList parsed).filterMap (nextFor k)).getLast?

/-- The holds the last element of a key that names any names for it. -/
def lastHolds (parsed : Json) (k : String) : Option (SortedMap U64 Bool) :=
  ((keyList parsed).filterMap (holdsFor k)).getLast?

/-- An item changes what is found under its own key. -/
theorem addItem_lookup (saved : Saved) (item : Json) (k : String) :
    (addItem saved item).1.lookup k = (nextFor k item).or (saved.1.lookup k) ∧
      (addItem saved item).2.lookup k = (holdsFor k item).or (saved.2.lookup k) := by
  rw [addItem, nextFor, holdsFor]
  cases hkey : itemKey item with
  | none => exact ⟨rfl, rfl⟩
  | some key =>
      dsimp only
      by_cases hk : k = key
      · subst hk
        rw [if_pos rfl, if_pos rfl, someHolds]
        constructor
        · cases itemNext item with
          | none => rfl
          | some n => dsimp only; rw [lookup_insert, if_pos rfl]; rfl
        · by_cases hempty : (itemHolds item).entries = []
          · rw [if_pos hempty, if_pos hempty]; rfl
          · rw [if_neg hempty, if_neg hempty, lookup_insert, if_pos rfl]; rfl
      · have hne : some key ≠ some k := fun h => hk (Option.some.inj h).symm
        rw [if_neg hne, if_neg hne]
        constructor
        · cases itemNext item with
          | none => rfl
          | some n => dsimp only; rw [lookup_insert, if_neg hk]; rfl
        · by_cases hempty : (itemHolds item).entries = []
          · rw [if_pos hempty]; rfl
          · rw [if_neg hempty, lookup_insert, if_neg hk]; rfl

/-- The last of a list and one element before it. -/
theorem getLast?_filterMap_cons {α β : Type} (f : α → Option β) (a : α) (l : List α)
    (before : Option β) :
    ((l.filterMap f).getLast?).or ((f a).or before)
      = (((a :: l).filterMap f).getLast?).or before := by
  rw [List.filterMap_cons]
  cases f a with
  | none => rfl
  | some b =>
      rw [List.getLast?_cons]
      cases (l.filterMap f).getLast? <;> rfl

/-- **Collecting keeps, for each key, what the last element names.** -/
theorem collected_lookup (parsed : Json) (k : String) :
    (collected parsed).1.lookup k = lastNext parsed k ∧
      (collected parsed).2.lookup k = lastHolds parsed k := by
  -- from any maps to start with: what the list names last stands in place of
  -- what was there
  have hgen : ∀ (items : List Json) (saved : Saved),
      (items.foldl addItem saved).1.lookup k
          = ((items.filterMap (nextFor k)).getLast?).or (saved.1.lookup k) ∧
        (items.foldl addItem saved).2.lookup k
          = ((items.filterMap (holdsFor k)).getLast?).or (saved.2.lookup k) := by
    intro items
    induction items with
    | nil => intro saved; exact ⟨rfl, rfl⟩
    | cons item items ih =>
        intro saved
        obtain ⟨hnext, hheld⟩ := addItem_lookup saved item k
        rw [List.foldl_cons, (ih _).1, (ih _).2, hnext, hheld]
        exact ⟨getLast?_filterMap_cons _ _ _ _, getLast?_filterMap_cons _ _ _ _⟩
  obtain ⟨hnext, hheld⟩ := hgen (keyList parsed) (∅, ∅)
  rw [collected, hnext, hheld, lastNext, lastHolds]
  exact ⟨Option.or_none, Option.or_none⟩

/-! ## What an import leaves -/

/-- How a refused text leaves a session whose counters were raised already. -/
structure Raised (s : SigningSession) (parsed : Json) (s' : SigningSession) : Prop where
  next : ∀ k, s'.nextNonce k = merged raise (s.nextNonce k) (lastNext parsed k)
  held : ∀ k, s'.heldOf k = s.heldOf k
  reserved : ∀ k, s'.reservedOf k = s.reservedOf k
  heads : ∀ c, s'.headFloor c = s.headFloor c

/-- How an accepted text leaves a session. -/
structure Imported (s : SigningSession) (parsed : Json) (s' : SigningSession) : Prop where
  next : ∀ k, s'.nextNonce k = merged raise (s.nextNonce k) (lastNext parsed k)
  held : ∀ k, s'.heldOf k = (s.heldOf k).extend ((lastHolds parsed k).getD ∅)
  reserved : ∀ k, s'.reservedOf k = s.reservedOf k
  heads : ∀ c, s'.headFloor c
    = ((headList parsed).map namedHead).foldl
        (fun floor e => if c = e.1 then some (risen floor e.2) else floor) (s.headFloor c)

/-- A text whose key list cannot be read changes nothing. -/
theorem importState_unread (s : SigningSession) {state : String}
    (h : ∀ parsed, parse state = .ok parsed → ¬ ReadableKeys parsed) :
    ∃ e, s.importState state = (.error e, s) := by
  obtain ⟨e, he⟩ := readSaved_fail h
  exact ⟨e, by rw [importState, he]⟩

/-- A text with a key list that can be read and heads that cannot. -/
theorem importState_raised (s : SigningSession) {state : String} {parsed : Json}
    (hparse : parse state = .ok parsed) (hkeys : ReadableKeys parsed)
    (hheads : ¬ ReadableHeads parsed) :
    ∃ e s', s.importState state = (.error e, s') ∧ Raised s parsed s' := by
  -- the counters are merged by now, the holds and the heads are not
  obtain ⟨e, he⟩ := readHeads_fail hheads
  rw [importState, readSaved_pass hparse hkeys]
  dsimp only
  rw [he]
  refine ⟨e, _, rfl, ?_, fun _ => rfl, fun _ => rfl, fun _ => rfl⟩
  intro k
  show (mergeWith raise s.next (collected parsed).1).lookup k = _
  rw [lookup_mergeWith, (collected_lookup parsed k).1]
  rfl

/-- The floors after noting heads, a chain more than once if need be. -/
theorem headFloor_foldl_noteHead (l : List (String × U64 × U64)) : ∀ (s : SigningSession)
    (c : String), (l.foldl (fun s e => s.noteHead e.1 e.2.1 e.2.2) s).headFloor c
      = l.foldl (fun floor e => if c = e.1 then some (risen floor e.2) else floor)
          (s.headFloor c) := by
  induction l with
  | nil => intro s c; rfl
  | cons e rest ih =>
      intro s c
      rw [List.foldl_cons, List.foldl_cons, ih, headFloor_noteHead]
      by_cases hc : c = e.1
      · rw [if_pos hc, if_pos hc, hc]
      · rw [if_neg hc, if_neg hc]

/-- **What an accepted text leaves**, whoever wrote it. -/
theorem importState_reads (s : SigningSession) {state : String} {parsed : Json}
    (hparse : parse state = .ok parsed) (hkeys : ReadableKeys parsed)
    (hheads : ReadableHeads parsed) :
    ∃ s', s.importState state = (.ok (), s') ∧ Imported s parsed s' := by
  rw [importState, readSaved_pass hparse hkeys]
  dsimp only
  rw [readHeads_pass hheads]
  have hviews := foldl_noteHead_views ((headList parsed).map namedHead)
  refine ⟨_, rfl, ?_, ?_, ?_, ?_⟩
  · intro k
    rw [(hviews _).1]
    show (mergeWith raise s.next (collected parsed).1).lookup k = _
    rw [lookup_mergeWith, (collected_lookup parsed k).1]
    rfl
  · intro k
    rw [(hviews _).2.1]
    show ((mergeWith join s.held (collected parsed).2).lookup k).getD ∅ = _
    rw [lookup_mergeWith, (collected_lookup parsed k).2]
    cases lastHolds parsed k with
    | none => rfl
    | some slots => rfl
  · intro k
    exact (hviews _).2.2 k
  · intro c
    exact headFloor_foldl_noteHead _ _ c

/-! ## A refused text -/

/-- Raising a counter by what is below it changes nothing, and only then. -/
theorem merged_raise_eq_self_iff (reached : Option U64) (named : Option U64) :
    merged raise reached named = reached ↔
      ∀ v, named = some v → ∃ n, reached = some n ∧ v ≤ n := by
  cases named with
  | none =>
      constructor
      · intro _ v hv
        cases hv
      · intro _
        rfl
  | some v =>
      have hsome : merged raise reached (some v) = some (max (reached.getD v) v) := rfl
      rw [hsome]
      constructor
      · intro h w hw
        obtain rfl : v = w := Option.some.inj hw
        exact ⟨_, h.symm, le_max_right _ _⟩
      · intro h
        obtain ⟨n, rfl, hle⟩ := h v rfl
        rw [Option.getD_some, max_eq_left hle]

/-- **When a refused import leaves the session as it was**: when its key list
    could not be read, its heads could, or the counters it names were all
    reached before. -/
theorem failed_import_leaves_session_iff (s : SigningSession) (state : String) :
    (∀ e s', s.importState state = (.error e, s') → Alike s s') ↔
      ∀ parsed, parse state = .ok parsed → ReadableKeys parsed → ReadableHeads parsed ∨
        ∀ k v, lastNext parsed k = some v → ∃ n, s.nextNonce k = some n ∧ v ≤ n := by
  constructor
  · intro h parsed hparse hkeys
    by_cases hheads : ReadableHeads parsed
    · exact Or.inl hheads
    · right
      obtain ⟨e, s', himport, hraised⟩ := importState_raised s hparse hkeys hheads
      have halike := h e s' himport
      intro k
      rw [← merged_raise_eq_self_iff, ← hraised.next k]
      exact (halike.next k).symm
  · intro h e s' himport
    by_cases hread : ∃ parsed, parse state = .ok parsed ∧ ReadableKeys parsed
    · obtain ⟨parsed, hparse, hkeys⟩ := hread
      by_cases hheads : ReadableHeads parsed
      · obtain ⟨t, ht, -⟩ := importState_reads s hparse hkeys hheads
        rw [ht] at himport
        cases himport
      · obtain ⟨e', t, ht, hraised⟩ := importState_raised s hparse hkeys hheads
        rw [ht] at himport
        cases himport
        have hreached := (h parsed hparse hkeys).resolve_left hheads
        refine ⟨?_, fun k => (hraised.held k).symm, fun k => (hraised.reserved k).symm,
          fun c => (hraised.heads c).symm⟩
        intro k
        rw [hraised.next k]
        exact ((merged_raise_eq_self_iff _ _).mpr (hreached k)).symm
    · obtain ⟨e', ht⟩ := importState_unread s fun parsed hparse hkeys => hread ⟨parsed, hparse, hkeys⟩
      rw [ht] at himport
      cases himport
      exact ⟨fun _ => rfl, fun _ => rfl, fun _ => rfl, fun _ => rfl⟩

/-- An element of a key list, as one is written. -/
def savedItem (key : String) (holds : List (U64 × Bool)) (next : U64) : Json :=
  .object [("key", .str key), ("held", .array (holds.map holdJson)),
    ("next", .str (toString next.val))]

/-- An item that is saved can be read. -/
theorem readable_savedItem (key : String) (holds : List (U64 × Bool)) (next : U64) :
    ReadableItem (savedItem key holds next) := by
  have hwhole : ∀ n : U64, wholeField (some (.str (toString n.val))) = some n := by
    intro n
    rw [wholeField, Option.bind_some, Json.asStr, Option.bind_some]
    exact canonicalDecimal_nat n
  refine ⟨rfl, ?_, ?_⟩
  · intro _
    show (wholeField (some (.str (toString next.val)))).isSome = true
    rw [hwhole]
    rfl
  · intro entry hentry
    obtain ⟨e, -, rfl⟩ := List.mem_map.mp hentry
    show (wholeField (some (.str (toString e.1.val)))).isSome = true
    rw [hwhole]
    rfl

/-- A saved session whose head list is a number. -/
def malformedHeads : Json :=
  .object [("version", .int 1), ("keys", .array [savedItem "k" [] 5]), ("heads", .int 0)]

/-- Such a text is refused, and the counter it names is raised: the session is
    not left as it was. -/
theorem malformed_heads_raise_counter :
    ∃ e s', new.importState malformedHeads.render = (.error e, s') ∧
      s'.nextNonce "k" = some 5 ∧ ¬ Alike new s' := by
  have hparse : parse malformedHeads.render = .ok malformedHeads := by
    refine parse_render ?_ ?_
    · simp [malformedHeads, savedItem, Json.DistinctKeys, Json.DistinctFields,
        Json.DistinctItems]
    · decide
  have hkeys : ReadableKeys malformedHeads := by
    refine ⟨rfl, ⟨_, rfl⟩, ?_⟩
    intro item hitem
    rw [List.mem_singleton.mp hitem]
    exact readable_savedItem "k" [] 5
  have hheads : ¬ ReadableHeads malformedHeads := by
    intro h
    obtain ⟨entries, hentries⟩ := h.list (.int 0) rfl
    cases hentries
  obtain ⟨e, s', himport, hraised⟩ := importState_raised new hparse hkeys hheads
  have hlast : lastNext malformedHeads "k" = some 5 := by decide +kernel
  have hnext : s'.nextNonce "k" = some 5 := by
    rw [hraised.next, hlast]
    rfl
  refine ⟨e, s', himport, hnext, ?_⟩
  intro halike
  have hnone : new.nextNonce "k" = some 5 := (halike.next "k").trans hnext
  cases hnone

/-! ## An accepted text -/

/-- A joined slot is held when it was or when the holds that join are of it. -/
theorem isHeld_imported {s s' : SigningSession} {parsed : Json} (h : Imported s parsed s')
    (k : String) (n : U64) : s'.isHeld k n = true ↔
      s.isHeld k n = true ∨ ∃ slots, lastHolds parsed k = some slots ∧ slots.containsKey n = true
    := by
  rw [isHeld, h.held, SortedMap.containsKey, SortedMap.get_extend, isHeld, SortedMap.containsKey]
  cases lastHolds parsed k with
  | none => simp
  | some slots => simp [SortedMap.containsKey, or_comm]

/-- The floor of a chain after heads are noted: no lower than it was, and no
    lower than any head noted for it. -/
theorem floor_foldl (l : List (String × U64 × U64)) (c : String) :
    ∀ floor : Option (U64 × U64),
      (∀ old, floor = some old → ∃ new,
        l.foldl (fun floor e => if c = e.1 then some (risen floor e.2) else floor) floor = some new
          ∧ old.1 ≤ new.1) ∧
      (∀ e ∈ l, c = e.1 → ∃ new,
        l.foldl (fun floor e => if c = e.1 then some (risen floor e.2) else floor) floor = some new
          ∧ e.2.1 ≤ new.1) := by
  induction l with
  | nil =>
      intro floor
      refine ⟨fun old h => ⟨old, h, le_refl _⟩, ?_⟩
      intro e he
      exact absurd he List.not_mem_nil
  | cons e rest ih =>
      intro floor
      -- one head raises the floor or leaves it
      have hold : ∀ old, floor = some old → old.1 ≤ (risen floor e.2).1 := by
        intro old h
        rw [h, risen]
        split
        · next hlt => exact hlt.le
        · exact le_refl _
      have hnew : e.2.1 ≤ (risen floor e.2).1 := by
        cases floor with
        | none => exact le_refl _
        | some old =>
            rw [risen]
            split
            · exact le_refl _
            · next hlt => exact not_lt.mp hlt
      rw [List.foldl_cons]
      constructor
      · intro old h
        by_cases hc : c = e.1
        · rw [if_pos hc]
          obtain ⟨new, hfold, hle⟩ := (ih (some (risen floor e.2))).1 _ rfl
          exact ⟨new, hfold, le_trans (hold old h) hle⟩
        · rw [if_neg hc]
          exact (ih floor).1 old h
      · intro e' he' hc
        rcases List.mem_cons.mp he' with rfl | he'
        · rw [if_pos hc]
          obtain ⟨new, hfold, hle⟩ := (ih (some (risen floor e'.2))).1 _ rfl
          exact ⟨new, hfold, le_trans hnew hle⟩
        · exact (ih _).2 e' he' hc

/-- Every entry of a text took effect, and nothing the session had is gone. -/
structure TakesEffect (s : SigningSession) (parsed : Json) (s' : SigningSession) : Prop where
  counters : ∀ item ∈ keyList parsed, ∀ k n, itemKey item = some k → itemNext item = some n →
    ∃ m, s'.nextNonce k = some m ∧ n ≤ m
  holds : ∀ item ∈ keyList parsed, ∀ k, itemKey item = some k → ∀ n ∈ itemSlots item,
    s'.isHeld k n = true
  heads : ∀ entry ∈ headList parsed, ∀ c h, headChain entry = some c →
    headHeight entry = some h → ∃ floor, s'.headFloor c = some floor ∧ h ≤ floor.1
  keptHolds : ∀ k n, s.isHeld k n = true → s'.isHeld k n = true
  keptCounters : ∀ k n, s.nextNonce k = some n → ∃ m, s'.nextNonce k = some m ∧ n ≤ m

/-- What no later element of a key overshadows: a counter is at most the
    session's own or the last one named for the key, and a slot is held by the
    session or named by the last element of the key that names slots. -/
structure Unshadowed (s : SigningSession) (parsed : Json) : Prop where
  counters : ∀ item ∈ keyList parsed, ∀ k n, itemKey item = some k → itemNext item = some n →
    ∃ m, (s.nextNonce k = some m ∨ lastNext parsed k = some m) ∧ n ≤ m
  holds : ∀ item ∈ keyList parsed, ∀ k, itemKey item = some k → ∀ n ∈ itemSlots item,
    s.isHeld k n = true ∨ ∃ slots, lastHolds parsed k = some slots ∧ slots.containsKey n = true

/-- An element that names a counter makes some counter the last. -/
theorem lastNext_isSome {parsed item : Json} (hitem : item ∈ keyList parsed) {k : String} {n : U64}
    (hkey : itemKey item = some k) (hnext : itemNext item = some n) :
    ∃ v, lastNext parsed k = some v := by
  have hmem : n ∈ (keyList parsed).filterMap (nextFor k) := by
    refine List.mem_filterMap.mpr ⟨item, hitem, ?_⟩
    rw [nextFor, if_pos hkey, hnext]
  rw [lastNext]
  exact ⟨_, List.getLast?_eq_some_getLast (List.ne_nil_of_mem hmem)⟩

/-- **What an accepted text leaves takes effect**, where nothing is overshadowed. -/
theorem takesEffect_iff {s s' : SigningSession} {parsed : Json} (h : Imported s parsed s') :
    TakesEffect s parsed s' ↔ Unshadowed s parsed := by
  constructor
  · intro heffect
    constructor
    · intro item hitem k n hkey hnext
      -- the counter left is the higher of the session's own and the last one named
      obtain ⟨v, hlast⟩ := lastNext_isSome hitem hkey hnext
      obtain ⟨m, hm, hle⟩ := heffect.counters item hitem k n hkey hnext
      rw [h.next, hlast] at hm
      obtain rfl : max ((s.nextNonce k).getD v) v = m := Option.some.inj hm
      rcases le_max_iff.mp hle with hle | hle
      · cases hs : s.nextNonce k with
        | none =>
            rw [hs] at hle
            exact ⟨v, Or.inr hlast, hle⟩
        | some own =>
            rw [hs] at hle
            exact ⟨own, Or.inl rfl, hle⟩
      · exact ⟨v, Or.inr hlast, hle⟩
    · intro item hitem k hkey n hn
      exact (isHeld_imported h k n).mp (heffect.holds item hitem k hkey n hn)
  · intro hplain
    refine ⟨?_, ?_, ?_, ?_, ?_⟩
    · intro item hitem k n hkey hnext
      obtain ⟨m, hm | hm, hle⟩ := hplain.counters item hitem k n hkey hnext
      · obtain ⟨reached, hreached, hge⟩ := merged_raise_le (b := lastNext parsed k) hm
        exact ⟨reached, by rw [h.next, hreached], le_trans hle hge⟩
      · obtain ⟨reached, hreached, hge⟩ := merged_raise_ge (a := s.nextNonce k) hm
        exact ⟨reached, by rw [h.next, hreached], le_trans hle hge⟩
    · intro item hitem k hkey n hn
      exact (isHeld_imported h k n).mpr (hplain.holds item hitem k hkey n hn)
    · intro entry hentry c height hchain hheight
      have hnamed : namedHead entry ∈ (headList parsed).map namedHead :=
        List.mem_map_of_mem hentry
      have hc : c = (namedHead entry).1 := by rw [namedHead, hchain]; rfl
      have hh : (namedHead entry).2.1 = height := by rw [namedHead, hheight]; rfl
      rw [h.heads, ← hh]
      exact (floor_foldl _ c _).2 _ hnamed hc
    · intro k n hheld
      exact (isHeld_imported h k n).mpr (Or.inl hheld)
    · intro k n hn
      obtain ⟨reached, hreached, hge⟩ := merged_raise_le (b := lastNext parsed k) hn
      exact ⟨reached, by rw [h.next, hreached], hge⟩

/-- **When every entry of an accepted text takes effect**: exactly when none that
    the key list names for a key is overshadowed. -/
theorem accepted_import_takes_effect_iff (s : SigningSession) (state : String) :
    (∀ parsed s', parse state = .ok parsed → s.importState state = (.ok (), s') →
      TakesEffect s parsed s') ↔
      ∀ parsed, parse state = .ok parsed → ReadableKeys parsed → ReadableHeads parsed →
        Unshadowed s parsed := by
  constructor
  · intro h parsed hparse hkeys hheads
    obtain ⟨s', himport, hafter⟩ := importState_reads s hparse hkeys hheads
    exact (takesEffect_iff hafter).mp (h parsed s' hparse himport)
  · intro h parsed s' hparse himport
    by_cases hkeys : ReadableKeys parsed
    · by_cases hheads : ReadableHeads parsed
      · obtain ⟨t, ht, hafter⟩ := importState_reads s hparse hkeys hheads
        rw [ht] at himport
        cases himport
        exact (takesEffect_iff hafter).mpr (h parsed hparse hkeys hheads)
      · obtain ⟨e, t, ht, -⟩ := importState_raised s hparse hkeys hheads
        rw [ht] at himport
        cases himport
    · have hunread : ∀ other, parse state = .ok other → ¬ ReadableKeys other := by
        intro other hother hread
        rw [hparse] at hother
        cases hother
        exact hkeys hread
      obtain ⟨e, ht⟩ := importState_unread s hunread
      rw [ht] at himport
      cases himport

/-- A saved session that names the key `k` twice, with a lower counter the second
    time. -/
def repeatedKey : Json :=
  .object [("version", .int 1),
    ("keys", .array [savedItem "k" [(3, false)] 9, savedItem "k" [(1, false)] 2]),
    ("heads", .array [])]

/-- Such a text is accepted, and what it names first for the key is lost. -/
theorem repeated_key_loses_hold :
    ∃ s', parse repeatedKey.render = .ok repeatedKey ∧
      new.importState repeatedKey.render = (.ok (), s') ∧
      s'.nextNonce "k" = some 2 ∧ s'.isHeld "k" 3 = false ∧ ¬ TakesEffect new repeatedKey s' := by
  have hparse : parse repeatedKey.render = .ok repeatedKey := by
    refine parse_render ?_ ?_
    · simp [repeatedKey, savedItem, holdJson, Json.DistinctKeys, Json.DistinctFields,
        Json.DistinctItems]
    · decide
  have hkeys : ReadableKeys repeatedKey := by
    refine ⟨rfl, ⟨_, rfl⟩, ?_⟩
    intro item hitem
    rcases List.mem_cons.mp hitem with rfl | hitem
    · exact readable_savedItem "k" [(3, false)] 9
    · rw [List.mem_singleton.mp hitem]
      exact readable_savedItem "k" [(1, false)] 2
  have hheads : ReadableHeads repeatedKey := by
    refine ⟨?_, ?_⟩
    · intro value hvalue
      exact ⟨[], (Option.some.inj hvalue).symm⟩
    · intro entry hentry
      cases hentry
  obtain ⟨s', himport, hafter⟩ := importState_reads new hparse hkeys hheads
  have hlost : s'.isHeld "k" 3 = false := by
    rw [isHeld, hafter.held]
    decide +kernel
  refine ⟨s', hparse, himport, ?_, hlost, ?_⟩
  · rw [hafter.next]
    decide +kernel
  · intro heffect
    have hheld := heffect.holds (savedItem "k" [(3, false)] 9) List.mem_cons_self "k" rfl 3
      (by decide +kernel)
    rw [hlost] at hheld
    cases hheld

end SigningSession

end QCoreSession
