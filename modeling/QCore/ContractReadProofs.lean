import Mathlib
import QCore.MachineIntProofs
import QCore.ByteMemoryProofs
import QCore.FallibleProofs
import QCore.TraceProofs
import QCore.JsonProofs
import QCore.JsonRoundTripProofs
import QCore.WireProofs
import QCore.CratesProofs
import QCore.ContractProofs
import QCore.ClientProofs
import QCore.OrderProofs
import QCore.FinalitySafetyProofs
import QCore.RosterRunProofs
import QCore.EntryPointProofs
import QCore.SubmissionProofs
import QCore.DelimitedProofs
import QCore.QueryProofs

/-! # Reading a contract

    A contract keeps words in slots: the order nonce of a signer, an entry of a map, a
    word of an entry.  A node keeps them under keys, which are hashes, and a client
    asks for a key.  A nonce and an entry are read as they were last written
    (`place_is_read_as_written`), unless the hash collides, and one that was never
    written is refused and not read as zero.  Of slots that a caller asks for by key, one
    that was never written is read as zero.

    Two kinds of slots share keys, whatever the hash: a map under the tag of the
    nonces has the nonces for its entries (`preimage_eq_iff`). -/

namespace QCoreContractRead

open QCoreMachineInt QCoreByteMemory QCoreFallible QCoreTrace QCoreTrace.Traced QCoreJson
  QCoreJsonRoundTrip QCoreWire QCoreCrates QCoreClient QCoreClient.Client QCoreOrder
  QCoreEntryPoint QCoreDelimited QCoreQuery QCoreFinalitySafety QCoreRosterRun QCoreSubmission

/-! ## Keys -/

/-- The key of a word of an entry of a map. -/
def mapAddrWordKey (crates : Crates) (mapDomainTag : U64) (keyAddress : Bytes 32) (word : U64) :
    Bytes 32 :=
  crates.sha3_256 (beBytes 8 mapDomainTag.val ++ keyAddress.val ++ beBytes 8 word.val)

/-- A place that a contract keeps a word in. -/
inductive Slot
  | nonce (signer : Bytes 32)
  | entry (tag : U64) (key : Bytes 32)
  | word (tag : U64) (key : Bytes 32) (index : U64)
deriving DecidableEq

namespace Slot

/-- What its key is the hash of. -/
def preimage : Slot → List UInt8
  | nonce signer => nonceTag ++ signer.val
  | entry tag key => beBytes 8 tag.val ++ key.val
  | word tag key index => beBytes 8 tag.val ++ key.val ++ beBytes 8 index.val

/-- The key that a node keeps it under. -/
def key (crates : Crates) : Slot → Bytes 32
  | nonce signer => nonceSlotKey crates signer
  | entry tag key => mapSlotKey crates tag key
  | word tag key index => mapAddrWordKey crates tag key index

theorem key_eq (crates : Crates) (slot : Slot) :
    slot.key crates = crates.sha3_256 slot.preimage := by
  cases slot <;> rfl

/-- The tag of a map that has the nonces for its entries. -/
def nonceMapTag : U64 := ⟨ofBeBytes nonceTag, by decide⟩

/-- Two names of one place. -/
inductive Same : Slot → Slot → Prop
  | refl (slot : Slot) : Same slot slot
  | entry_nonce (signer : Bytes 32) : Same (entry nonceMapTag signer) (nonce signer)
  | nonce_entry (signer : Bytes 32) : Same (nonce signer) (entry nonceMapTag signer)

end Slot

open Slot

theorem beBytes_nonceMapTag : beBytes 8 nonceMapTag.val = nonceTag := by decide

theorem tag_inj {tag tag' : U64} (h : beBytes 8 tag.val = beBytes 8 tag'.val) : tag = tag' :=
  Fin.ext (beBytes_inj tag.isLt tag'.isLt h)

/-- A tag and a key are told apart in what is hashed. -/
theorem tagged_inj {front front' : List UInt8} {key key' : Bytes 32}
    (hfront : front.length = 8) (hfront' : front'.length = 8)
    (h : front ++ key.val = front' ++ key'.val) : front = front' ∧ key = key' := by
  obtain ⟨hfronts, hkeys⟩ := List.append_inj h (hfront.trans hfront'.symm)
  exact ⟨hfronts, Subtype.ext hkeys⟩

/-- The length of a slot's preimage tells its kind. -/
theorem length_preimage (slot : Slot) : slot.preimage.length
    = match slot with
      | .word _ _ _ => 48
      | _ => 40 := by
  cases slot with
  | nonce signer => rw [preimage, List.length_append, signer.property]; rfl
  | entry tag key => rw [preimage, List.length_append, length_beBytes, key.property]
  | word tag key index =>
      rw [preimage, List.length_append, List.length_append, length_beBytes, length_beBytes,
        key.property]

/-- **The bytes that are hashed name the place**: they are equal for two names of one
    place and for no others. -/
theorem preimage_eq_iff (a b : Slot) : a.preimage = b.preimage ↔ Same a b := by
  constructor
  · intro h
    have hlen := congrArg List.length h
    rw [length_preimage, length_preimage] at hlen
    have hnonce : nonceTag.length = 8 := rfl
    have hword : ∀ n : U64, (beBytes 8 n.val).length = 8 := fun n => length_beBytes 8 n.val
    cases a with
    | nonce signer =>
        cases b with
        | nonce signer' =>
            obtain ⟨-, rfl⟩ := tagged_inj hnonce hnonce h
            exact Same.refl _
        | entry tag key =>
            obtain ⟨htag, rfl⟩ := tagged_inj hnonce (hword tag) h
            rw [← beBytes_nonceMapTag] at htag
            rw [← tag_inj htag]
            exact Same.nonce_entry _
        | word tag key index => cases hlen
    | entry tag key =>
        cases b with
        | nonce signer =>
            obtain ⟨htag, rfl⟩ := tagged_inj (hword tag) hnonce h
            rw [← beBytes_nonceMapTag] at htag
            rw [tag_inj htag]
            exact Same.entry_nonce _
        | entry tag' key' =>
            obtain ⟨htag, rfl⟩ := tagged_inj (hword tag) (hword tag') h
            rw [tag_inj htag]
            exact Same.refl _
        | word tag' key' index => cases hlen
    | word tag key index =>
        cases b with
        | nonce signer => cases hlen
        | entry tag' key' => cases hlen
        | word tag' key' index' =>
            have hfront : (beBytes 8 tag.val ++ key.val).length
                = (beBytes 8 tag'.val ++ key'.val).length := by
              rw [List.length_append, List.length_append, hword, hword, key.property, key'.property]
            obtain ⟨hpair, hindex⟩ := List.append_inj h hfront
            obtain ⟨htag, rfl⟩ := tagged_inj (hword tag) (hword tag') hpair
            rw [tag_inj htag, tag_inj hindex]
            exact Same.refl _
  · intro h
    cases h with
    | refl => rfl
    | entry_nonce signer => rw [preimage, preimage, beBytes_nonceMapTag]
    | nonce_entry signer => rw [preimage, preimage, beBytes_nonceMapTag]

instance (a b : Slot) : Decidable (Same a b) := decidable_of_iff _ (preimage_eq_iff a b)

/-! ## What a contract holds -/

/-- A node's words by key, after a write. -/
def storeWrite (crates : Crates) (stored : Bytes 32 → Option U64) (write : Slot × U64) :
    Bytes 32 → Option U64 :=
  fun key => if key = write.1.key crates then some write.2 else stored key

/-- The word of a place, after a write. -/
def placeWrite (slot : Slot) (value : Option U64) (write : Slot × U64) : Option U64 :=
  if Same write.1 slot then some write.2 else value

/-- What a node holds for a contract after its writes, oldest first. -/
def storedAfter (crates : Crates) (writes : List (Slot × U64)) : Bytes 32 → Option U64 :=
  writes.foldl (storeWrite crates) (fun _ => none)

/-- What a place holds after the same writes. -/
def valueAfter (writes : List (Slot × U64)) (slot : Slot) : Option U64 :=
  writes.foldl (placeWrite slot) none

/-- Two places that are not one share a key. -/
def Collide (crates : Crates) (a b : Slot) : Prop :=
  ¬ Same a b ∧ crates.sha3_256 a.preimage = crates.sha3_256 b.preimage

/-- One of the places that were written shares a key with another place. -/
def Collides (crates : Crates) (writes : List (Slot × U64)) (slot : Slot) : Prop :=
  ∃ write ∈ writes, Collide crates write.1 slot

/-- A key is that of a place under any of its names, and of no other unless the hash
    collides. -/
theorem key_iff {crates : Crates} {a b : Slot} (h : ¬ Collide crates a b) :
    a.key crates = b.key crates ↔ Same a b := by
  rw [key_eq, key_eq]
  constructor
  · intro heq
    by_contra hnot
    exact h ⟨hnot, heq⟩
  · intro hsame
    rw [(preimage_eq_iff a b).mpr hsame]

/-- One write changes a place and its key together, or neither. -/
theorem storeWrite_key {crates : Crates} {stored : Bytes 32 → Option U64} {value : Option U64}
    {write : Slot × U64} {slot : Slot} (h : ¬ Collide crates write.1 slot)
    (heq : stored (slot.key crates) = value) :
    storeWrite crates stored write (slot.key crates) = placeWrite slot value write := by
  rw [storeWrite, placeWrite]
  by_cases hsame : Same write.1 slot
  · rw [if_pos hsame, if_pos ((key_iff h).mpr hsame).symm]
  · rw [if_neg hsame, if_neg (fun hkey => hsame ((key_iff h).mp hkey.symm)), heq]

/-- **What a node holds under a place's key** is what the place holds. -/
theorem storedAfter_key {crates : Crates} {writes : List (Slot × U64)} {slot : Slot}
    (h : ¬ Collides crates writes slot) :
    storedAfter crates writes (slot.key crates) = valueAfter writes slot := by
  have hapart : ∀ write ∈ writes, ¬ Collide crates write.1 slot :=
    fun write hmem hcollide => h ⟨write, hmem, hcollide⟩
  clear h
  have hfold : ∀ (stored : Bytes 32 → Option U64) (value : Option U64),
      stored (slot.key crates) = value →
      writes.foldl (storeWrite crates) stored (slot.key crates)
        = writes.foldl (placeWrite slot) value := by
    induction writes with
    | nil => exact fun _ _ heq => heq
    | cons write writes ih =>
        intro stored value heq
        exact ih (fun w hw => hapart w (List.mem_cons_of_mem _ hw)) _ _
          (storeWrite_key (hapart write List.mem_cons_self) heq)
  exact hfold _ _ rfl

/-! ## Reading -/

section

variable {self : Client} {s : ClientState} {contract : String} {key : Bytes 32}
  {held : String → Bytes 32 → Option U64}

/-- A gateway reports what its contracts hold to a computation: each request for slots is
    answered, within what the client reads, and the slots of the answer tell of each key
    that was asked for what is held under it. -/
def Reports {α : Type} (self : Client) (held : String → Bytes 32 → Option U64) (m : ClientM α)
    (s : ClientState) : Prop :=
  ∀ r, Emits m s r → ∀ contract keys, r.method = "get_storage_at" →
    r.body = storageAtBody contract keys →
    ∃ text slots, self.transport r.state.turn = .ok (200, text)
      ∧ (asBytes text).length ≤ responseCap "get_storage_at" ∧ parseStorage text = .ok slots
      ∧ ∀ key ∈ keys, storageValueReported slots key = held contract key

/-- **Slots are answered as they are held.** -/
theorem storageAt_reported {keys : List (Bytes 32)} (hbase : checkEndpoint self.base = .ok ())
    (h : Reports self held (storageAt self contract keys) s) :
    ∃ slots, Gives (storageAt self contract keys) s slots { s with turn := s.turn + 1 }
      ∧ ∀ key ∈ keys, storageValueReported slots key = held contract key := by
  have hcauses : Causes (fun r => r.method = "get_storage_at" ∧ r.body = storageAtBody contract keys
      ∧ r.state = s) (storageAt self contract keys) s := by
    refine bind_causes_first (bind_causes (ofExcept_gives hbase) ?_)
    refine bind_causes_first (bind_causes_first ⟨_, ?_, List.mem_singleton.mpr rfl⟩)
    exact ⟨rfl, rfl, rfl⟩
  obtain ⟨r, ⟨hmethod, hbody, hstate⟩, hr⟩ := hcauses
  obtain ⟨text, slots, htext, hlength, hparsed, hreported⟩ := h r hr contract keys hmethod hbody
  rw [hstate] at htext
  exact ⟨slots, bind_gives (rpc_answers hbase htext hlength) (ofExcept_gives hparsed), hreported⟩

/-- **A key is read as it is held**, and one that is not held is refused. -/
theorem slotValue_reported (hbase : checkEndpoint self.base = .ok ())
    (h : Reports self held (slotValue self contract key) s) :
    (slotValue self contract key s).result = okOr (held contract key)
      "the gateway did not report the requested storage slot" := by
  have hslot : Reports self held (storageAt self contract [key]) s :=
    fun r hr => h r (emits_first hr)
  obtain ⟨slots, hslots, hreported⟩ := storageAt_reported hbase hslot
  rw [slotValue, bind_run, hslots.1]
  show okOr (storageValueReported slots key) _ = _
  rw [hreported key List.mem_cons_self]

/-- A slot that the gateway reports truly is read as it was last written, or two places
    share a key. -/
theorem slotValue_written {writes : List (Slot × U64)} (slot : Slot)
    (hbase : checkEndpoint self.base = .ok ())
    (hheld : held contract = storedAfter self.crates.toCrates writes)
    (h : Reports self held (slotValue self contract (slot.key self.crates.toCrates)) s) :
    (slotValue self contract (slot.key self.crates.toCrates) s).result
        = okOr (valueAfter writes slot) "the gateway did not report the requested storage slot"
      ∨ Collides self.crates.toCrates writes slot := by
  by_cases hcollides : Collides self.crates.toCrates writes slot
  · exact Or.inr hcollides
  · left
    rw [slotValue_reported hbase h, hheld, storedAfter_key hcollides]

/-- **A place is read as it was last written**, under any of its names, by a client
    whose gateway keeps a contract's words under their keys and reports them.  A nonce
    and an entry that were never written are refused, not read as zero; of places asked
    for by their keys, those that were never written are read as zero.  Else two places
    that are not one share a key. -/
theorem place_is_read_as_written (writes : List (Slot × U64))
    (hbase : checkEndpoint self.base = .ok ())
    (hheld : held contract = storedAfter self.crates.toCrates writes) :
    (∀ signer, Reports self held (contractNonce self contract signer) s →
        (contractNonce self contract signer s).result = okOr (valueAfter writes (.nonce signer))
            "the gateway did not report the requested storage slot"
          ∨ Collides self.crates.toCrates writes (.nonce signer))
      ∧ (∀ tag key, Reports self held (contractMap self contract tag key) s →
        (contractMap self contract tag key s).result = okOr (valueAfter writes (.entry tag key))
            "the gateway did not report the requested storage slot"
          ∨ Collides self.crates.toCrates writes (.entry tag key))
      ∧ ∀ places : List Slot,
        Reports self held (storageAt self contract (places.map (Slot.key self.crates.toCrates))) s →
        ∃ slots, (storageAt self contract (places.map (Slot.key self.crates.toCrates)) s).result
            = .ok slots
          ∧ ∀ place ∈ places, storageValue slots (place.key self.crates.toCrates)
              = (valueAfter writes place).getD 0
            ∨ Collides self.crates.toCrates writes place := by
  refine ⟨fun signer h => slotValue_written (.nonce signer) hbase hheld h,
    fun tag key h => slotValue_written (.entry tag key) hbase hheld h, fun places h => ?_⟩
  obtain ⟨slots, hslots, hreported⟩ := storageAt_reported hbase h
  refine ⟨slots, hslots.1, fun place hmem => ?_⟩
  by_cases hcollides : Collides self.crates.toCrates writes place
  · exact Or.inr hcollides
  · left
    rw [storageValue, hreported _ (List.mem_map_of_mem hmem), hheld, storedAfter_key hcollides]

end

/-! A map under the tag of the nonces. -/

/-- A contract that wrote one entry of such a map. -/
def aliasWrites : List (Slot × U64) := [(.entry nonceMapTag (filled 1), 9)]

/-- What a node holds after that. -/
def aliasHeld (_ : String) : Bytes 32 → Option U64 :=
  storedAfter localClient.crates.toCrates aliasWrites

/-- The key of the nonce that the entry is too. -/
def aliasKey : Bytes 32 := (Slot.nonce (filled 1)).key localClient.crates.toCrates

/-- What it answers for the key. -/
def aliasAnswer : Json := .object
  [("address", .str "Qb"),
    ("slots", .array [.object [("slot", .str (toHex aliasKey.val)), ("value", .str "9")]])]

/-- A client whose gateway answers for the nonce of a signer. -/
def aliasClient : Client :=
  { localClient with transport := fun _ => .ok (200, aliasAnswer.render) }

/-- The answer with an aliased key is parsed. -/
theorem parse_aliasAnswer : parseStorage aliasAnswer.render = .ok [⟨aliasKey, 9⟩] := by
  have hslot : parseStorageSlot (.object [("slot", .str (toHex aliasKey.val)), ("value", .str "9")])
      = .ok ⟨aliasKey, 9⟩ :=
    bind_pass (bind_pass rfl (fromHex_toHex aliasKey.val))
      (bind_pass (exactly_val aliasKey _) (bind_pass (a := 9) (by decide +kernel) rfl))
  refine bind_pass (parse_render ?_ ?_) (bind_pass rfl (bind_pass hslot rfl))
  · simp [aliasAnswer, Json.DistinctKeys, Json.DistinctFields, Json.DistinctItems]
  · simp [aliasAnswer, Json.height, Json.heightFields, Json.heightItems, maxDepth]

theorem length_aliasAnswer :
    (asBytes aliasAnswer.render).length ≤ responseCap "get_storage_at" := by
  simp only [aliasAnswer, Json.render, Json.write, Json.writeFields, Json.writeItems, asBytes_append,
    List.length_append, length_writeString_toHex, aliasKey.property]
  decide +kernel

/-- The gateway that gives it reports truly. -/
theorem alias_reports :
    Reports aliasClient aliasHeld (contractNonce aliasClient "Qb" (filled 1)) freshState := by
  have hputs : Puts (fun query => query = .storageAt "Qb" [aliasKey])
      (contractNonce aliasClient "Qb" (filled 1)) :=
    puts_bind (storageAt_puts rfl) (fun _ => puts_except _)
  intro r hr contract keys hmethod hbody
  obtain ⟨query, rfl, hmethod', hbody'⟩ := hputs freshState r hr
  -- the request is read as what was asked for
  have hasked : readQuery "get_storage_at" (storageAtBody contract keys)
      = .ok (.storageAt "Qb" [aliasKey]) := by
    rw [← hbody, hbody']
    exact readQuery_json (.storageAt "Qb" [aliasKey])
  have hread : readQuery "get_storage_at" (storageAtBody contract keys)
      = .ok (.storageAt contract keys) := readQuery_json (.storageAt contract keys)
  cases hread.symm.trans hasked
  have hsame : Same (.entry nonceMapTag (filled 1)) (.nonce (filled 1)) := Same.entry_nonce _
  have hkey : (Slot.entry nonceMapTag (filled 1)).key localClient.crates.toCrates = aliasKey := by
    rw [aliasKey, key_eq, key_eq, (preimage_eq_iff _ _).mpr hsame]
  refine ⟨_, [⟨aliasKey, 9⟩], rfl, length_aliasAnswer, parse_aliasAnswer, fun key hmem => ?_⟩
  rw [List.mem_singleton.mp hmem, storageValueReported, List.find?_cons_of_pos (by simp)]
  rw [aliasHeld, storedAfter, aliasWrites, List.foldl_cons, List.foldl_nil, storeWrite, hkey,
    if_pos rfl]
  rfl

/-- The nonce of a signer is read as the entry of that map was written. -/
theorem place_is_read_as_written_under_another_name :
    (contractNonce aliasClient "Qb" (filled 1) freshState).result = .ok 9 := by
  have hsame : Same (.entry nonceMapTag (filled 1)) (.nonce (filled 1)) := Same.entry_nonce _
  have hbase : checkEndpoint aliasClient.base = .ok () := checkEndpoint_loopback
  have hheld : aliasHeld "Qb" = storedAfter aliasClient.crates.toCrates aliasWrites := rfl
  obtain ⟨hnonce, -⟩ := place_is_read_as_written (s := freshState) aliasWrites hbase hheld
  rcases hnonce (filled 1) alias_reports with hread | ⟨write, hmem, hnot, -⟩
  · rw [hread, aliasWrites, valueAfter, List.foldl_cons, List.foldl_nil, placeWrite, if_pos hsame]
    rfl
  · rw [List.mem_singleton.mp hmem] at hnot
    exact absurd hsame hnot

end QCoreContractRead
