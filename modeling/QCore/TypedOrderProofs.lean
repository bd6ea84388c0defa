import Mathlib
import QCore.MachineIntProofs
import QCore.ByteMemoryProofs
import QCore.FallibleProofs
import QCore.DelimitedProofs
import QCore.JsonProofs
import QCore.JsonRoundTripProofs
import QCore.WireProofs
import QCore.CratesProofs
import QCore.ContractProofs
import QCore.OrderBindingProofs

/-! # Orders typed as text

    A caller that has the fields of an order as text gives each with its width:
    a word and a wide value are decimal numbers, an address is hex.  The builder
    reads the texts and builds the order of the values.

    What is proved is that nothing is lost on the way: from the memory the
    contract runs on, and from the end of the message that is signed, each
    number prints as the very text that was typed, and each address is the one
    the text is hex of. -/

namespace QCoreTypedOrder

open QCoreMachineInt QCoreByteMemory QCoreFallible QCoreDelimited QCoreJson QCoreJsonRoundTrip
  QCoreWire QCoreCrates QCoreContract QCoreOrderBinding

/-! ## The builder -/

/-- A field as it is typed. -/
structure TypedField where
  offset : U64
  width : U64
  value : String

theorem length_wide (n : Nat) :
    (beBytes 8 (n % 2 ^ 64) ++ beBytes 8 (n / 2 ^ 64)).length = 16 := by
  rw [List.length_append, length_beBytes, length_beBytes]

/-- A wide value is two words, the low one first. -/
def wide (value : U128) : FieldValue :=
  .wide ⟨beBytes 8 (value.val % 2 ^ 64) ++ beBytes 8 (value.val / 2 ^ 64), length_wide value.val⟩

/-- The value that is typed for a width. -/
def fieldValueOfWidth (width : U64) (value : String) : Except String FieldValue :=
  if width = word then
    okOr (((canonicalDecimal value).bind (fun n => tryFrom _ n.val)).map FieldValue.word)
      "a word field value is not a canonical whole number"
  else if width = 16 then
    okOr ((canonicalDecimal value).map wide)
      "a wide field value is not a canonical whole number"
  else if width = 32 then do
    let bytes ← fromHex value
    if h : bytes.length = 32 then return .address ⟨bytes, h⟩
    else throw "an address field is thirty two bytes of hex"
  else .error s!"a signed field width of {width} is not supported"

variable (crates : Crates)

/-- An order of fields that are typed. -/
def buildOrderFromTyped (chainId : U64) (genesis : Bytes 32) (contract : String)
    (selector : Bytes 4) (layoutHash : Bytes 32)
    (schemeOff ptrOff expiryOff regionOff : U64) (fields : List TypedField)
    (ownerSeed : Bytes seedLen) (ownerIndex nonce expiry : U64)
    (randomness : Except String (Bytes 32)) : Except String SignedOrderCall := do
  let typed ← fields.mapM (fun f => do
    let value ← fieldValueOfWidth f.width f.value
    return (⟨f.offset, value⟩ : FieldArg))
  buildTypedOrderCall crates chainId genesis contract selector layoutHash schemeOff ptrOff
    expiryOff regionOff typed ownerSeed ownerIndex nonce expiry randomness

/-! ## Decimal texts -/

/-- A digit is told by its number. -/
theorem digitChar_of_isDigit {c : Char} (h : c.isDigit = true) :
    c.toNat - 48 < 10 ∧ Nat.digitChar (c.toNat - 48) = c := by
  have hrange : 48 ≤ c.toNat ∧ c.toNat ≤ 57 := by
    simpa [Char.isDigit, UInt32.le_iff_toNat_le] using h
  have hten : c.toNat - 48 < 10 := by omega
  refine ⟨hten, Char.toNat_inj.mp ?_⟩
  rw [Nat.toNat_digitChar_of_lt_ten hten]
  omega

/-- Digits with no zero in front are the digits of their number. -/
theorem toDigits_ofDigitChars {cs : List Char} (hne : cs ≠ []) (hdigits : ∀ c ∈ cs, c.isDigit)
    (hzero : 1 < cs.length → cs.head? ≠ some '0') :
    Nat.toDigits 10 (Nat.ofDigitChars 10 cs 0) = cs := by
  induction cs using List.reverseRecOn with
  | nil => exact absurd rfl hne
  | append_singleton cs c ih =>
      obtain ⟨hten, hchar⟩ := digitChar_of_isDigit (hdigits c (by simp))
      have hlast : Nat.ofDigitChars 10 (cs ++ [c]) 0
          = 10 * Nat.ofDigitChars 10 cs 0 + (c.toNat - 48) := by
        rw [Nat.ofDigitChars_append, Nat.ofDigitChars_cons, Nat.ofDigitChars_nil]
        rfl
      rw [hlast]
      by_cases hempty : cs = []
      · subst hempty
        rw [Nat.ofDigitChars_nil, Nat.mul_zero, Nat.zero_add, Nat.toDigits_of_lt_base hten, hchar]
        rfl
      · have hfirst : (cs ++ [c]).head? = cs.head? := List.head?_append_of_ne_nil cs hempty
        have hlong : 1 < (cs ++ [c]).length := by
          rw [List.length_append]
          exact Nat.lt_add_of_pos_left (List.length_pos_iff.mpr hempty)
        have hhead : cs.head? ≠ some '0' := by
          rw [← hfirst]
          exact hzero hlong
        have hcs := ih hempty (fun d hd => hdigits d (List.mem_append_left _ hd))
          (fun _ => hhead)
        -- the digits in front are a positive number, or they would be a zero
        have hpos : 0 < Nat.ofDigitChars 10 cs 0 := by
          refine Nat.pos_of_ne_zero (fun h0 => hhead ?_)
          rw [← hcs, h0]
          rfl
        rw [Nat.toDigits_of_base_le (by decide) (by omega)]
        have hdiv : (10 * Nat.ofDigitChars 10 cs 0 + (c.toNat - 48)) / 10
            = Nat.ofDigitChars 10 cs 0 := by omega
        have hmod : (10 * Nat.ofDigitChars 10 cs 0 + (c.toNat - 48)) % 10
            = c.toNat - 48 := by omega
        rw [hdiv, hmod, hcs, hchar]

/-- **A canonical number prints as its text.** -/
theorem canonicalDecimal_text {text : String} {n : U128} (h : canonicalDecimal text = some n) :
    toString n.val = text := by
  rw [canonicalDecimal] at h
  split at h
  · cases h
  · next hzero =>
      rw [wholeNumber] at h
      split at h
      · cases h
      · next hwhole =>
          obtain ⟨hne, hall⟩ := not_or.mp hwhole
          have hdigits : ∀ c ∈ text.toList, c.isDigit := by
            simpa using hall
          have hascii : ∀ c ∈ text.toList, c.toNat < 128 := by
            intro c hc
            obtain ⟨hten, -⟩ := digitChar_of_isDigit (hdigits c hc)
            omega
          have hlength : (asBytes text).length = text.toList.length := by
            have hbytes := asBytes_ascii hascii
            rw [String.ofList_toList] at hbytes
            rw [hbytes, List.length_map]
          rw [hlength] at hzero
          have hlist : text.toList ≠ [] := by
            intro hnil
            exact hne (String.toList_inj.mp hnil)
          have hprint := toDigits_ofDigitChars hlist hdigits
            (fun hlong hhead => hzero ⟨hlong, hhead⟩)
          rw [← tryFrom_eq_some.mp h]
          apply String.toList_inj.mp
          rw [Nat.toString_eq_repr, Nat.toList_repr, hprint]

/-! ## What was typed -/

/-- The number of a word, or of a wide value's two. -/
def number (bytes : List UInt8) : Nat :=
  ofBeBytes (bytes.take 8) + 2 ^ 64 * ofBeBytes (bytes.drop 8)

/-- The bytes are what was typed for a field of the width: their number prints
    as the text, or the text is hex of them. -/
inductive TypedAs (text : String) (bytes : List UInt8) : U64 → Prop
  | word (hlen : bytes.length = 8) (hnumber : toString (number bytes) = text) : TypedAs text bytes 8
  | wide (hlen : bytes.length = 16) (hnumber : toString (number bytes) = text) :
      TypedAs text bytes 16
  | address (hlen : bytes.length = 32) (hhex : fromHex text = .ok bytes) : TypedAs text bytes 32

/-- A word is read back. -/
theorem number_word {v : Nat} (hv : v < 2 ^ 64) : number (beBytes 8 v) = v := by
  have htake : (beBytes 8 v).take 8 = beBytes 8 v :=
    List.take_of_length_le (by rw [length_beBytes])
  have hdrop : (beBytes 8 v).drop 8 = [] :=
    List.drop_of_length_le (by rw [length_beBytes])
  have hfits : v % 256 ^ 8 = v := Nat.mod_eq_of_lt hv
  rw [number, htake, hdrop, ofBeBytes_beBytes, hfits]
  rfl

/-- Two words are read back as one wide number. -/
theorem number_wide {v : Nat} (hv : v < 2 ^ 128) :
    number (beBytes 8 (v % 2 ^ 64) ++ beBytes 8 (v / 2 ^ 64)) = v := by
  have hlow : v % 2 ^ 64 < 256 ^ 8 := Nat.mod_lt v (by decide)
  have hhigh : v / 2 ^ 64 < 256 ^ 8 := by
    rw [Nat.div_lt_iff_lt_mul (by decide)]
    exact hv
  have hlen : (beBytes 8 (v % 2 ^ 64)).length = 8 := length_beBytes 8 _
  rw [number, List.take_left' hlen, List.drop_left' hlen, ofBeBytes_beBytes, ofBeBytes_beBytes,
    Nat.mod_eq_of_lt hlow, Nat.mod_eq_of_lt hhigh]
  exact Nat.mod_add_div v (2 ^ 64)

/-- **A value is what was typed**, and as wide as the width that was named. -/
theorem fieldValueOfWidth_ok {width : U64} {text : String} {value : FieldValue}
    (h : fieldValueOfWidth width text = .ok value) :
    value.width = width ∧ TypedAs text value.bytes width := by
  rw [fieldValueOfWidth] at h
  split at h
  · next hwidth =>
      subst hwidth
      obtain ⟨w, hread, rfl⟩ := Option.map_eq_some_iff.mp (okOr_ok h)
      obtain ⟨n, hdecimal, hw⟩ := Option.bind_eq_some_iff.mp hread
      refine ⟨rfl, TypedAs.word (length_beBytes 8 _) ?_⟩
      show toString (number (beBytes 8 w.val)) = text
      rw [number_word w.isLt, ← tryFrom_eq_some.mp hw]
      exact canonicalDecimal_text hdecimal
  · split at h
    · next hwidth =>
        subst hwidth
        obtain ⟨n, hdecimal, rfl⟩ := Option.map_eq_some_iff.mp (okOr_ok h)
        refine ⟨rfl, TypedAs.wide (length_wide _) ?_⟩
        show toString (number (beBytes 8 (n.val % 2 ^ 64) ++ beBytes 8 (n.val / 2 ^ 64))) = text
        rw [number_wide n.isLt]
        exact canonicalDecimal_text hdecimal
    · split at h
      · next hwidth =>
          subst hwidth
          obtain ⟨bytes, hhex, h⟩ := bind_ok h
          split at h
          · next hlen =>
              cases h
              exact ⟨rfl, TypedAs.address hlen hhex⟩
          · cases h
      · cases h

/-- One reading of the bytes is one text, up to how an address is spelled. -/
def SameTyped (f g : TypedField) : Prop :=
  f.width = g.width ∧ if f.width = 32 then fromHex f.value = fromHex g.value else f.value = g.value

/-- Two fields of one width with the same bytes are the same. -/
theorem typedAs_same {f g : TypedField} {bytes : List UInt8} (hf : TypedAs f.value bytes f.width)
    (hg : TypedAs g.value bytes g.width) (hwidth : f.width = g.width) : SameTyped f g := by
  refine ⟨hwidth, ?_⟩
  rw [← hwidth] at hg
  generalize f.width = w at hf hg
  cases hf with
  | word hlen hnumber =>
      cases hg with
      | word _ hnumber' => exact hnumber.symm.trans hnumber'
  | wide hlen hnumber =>
      cases hg with
      | wide _ hnumber' => exact hnumber.symm.trans hnumber'
  | address hlen hhex =>
      cases hg with
      | address _ hhex' => exact hhex.trans hhex'.symm

/-- What is typed has the bytes of its width. -/
theorem TypedAs.length {text : String} {bytes : List UInt8} {width : U64}
    (h : TypedAs text bytes width) : bytes.length = width.val := by
  cases h with
  | word hlen _ => exact hlen
  | wide hlen _ => exact hlen
  | address hlen _ => exact hlen

/-- A number that is typed is printed as it was typed. -/
theorem TypedAs.prints {text : String} {bytes : List UInt8} {width : U64}
    (h : TypedAs text bytes width) (hne : width ≠ 32) : toString (number bytes) = text := by
  cases h with
  | word _ hnumber => exact hnumber
  | wide _ hnumber => exact hnumber
  | address _ _ => exact absurd rfl hne

/-- Bytes typed one after the other for the same widths are the same texts. -/
theorem typed_list_same {fs gs : List TypedField} {bs cs : List (List UInt8)}
    (hf : List.Forall₂ (fun f b => TypedAs f.value b f.width) fs bs)
    (hg : List.Forall₂ (fun g c => TypedAs g.value c g.width) gs cs)
    (hwidths : fs.map TypedField.width = gs.map TypedField.width)
    (hbytes : bs.flatten = cs.flatten) : List.Forall₂ SameTyped fs gs := by
  induction hf generalizing gs cs with
  | nil =>
      cases hg with
      | nil => exact List.Forall₂.nil
      | cons _ _ => cases hwidths
  | cons hhead hrest ih =>
      cases hg with
      | nil => cases hwidths
      | cons hhead' hrest' =>
          obtain ⟨hwidth, hwidths⟩ := List.cons.inj hwidths
          have hlen := hhead.length.trans ((congrArg Fin.val hwidth).trans hhead'.length.symm)
          rw [List.flatten_cons, List.flatten_cons] at hbytes
          obtain ⟨hsame, hrestBytes⟩ := List.append_inj hbytes hlen
          rw [← hsame] at hhead'
          exact List.Forall₂.cons (typedAs_same hhead hhead' hwidth)
            (ih hrest' hwidths hrestBytes)

/-! ## What a typed order carries -/

/-- The fields of a call that was built read back from its memory, and are what
    its message ends with. -/
theorem buildTypedOrderCall_fields {chainId : U64} {genesis : Bytes 32} {contract : String}
    {selector : Bytes 4} {layoutHash : Bytes 32} {schemeOff ptrOff expiryOff regionOff : U64}
    {fields : List FieldArg} {ownerSeed : Bytes seedLen} {ownerIndex nonce expiry : U64}
    {randomness : Except String (Bytes 32)} {call : SignedOrderCall}
    (h : buildTypedOrderCall crates chainId genesis contract selector layoutHash schemeOff
      ptrOff expiryOff regionOff fields ownerSeed ownerIndex nonce expiry randomness
        = .ok call) :
    (∀ f ∈ fields, slice call.userMemory f.offset.val f.value.width.val = f.value.bytes) ∧
      call.message.drop msgFieldsOff = fields.flatMap (fun f => f.value.bytes) := by
  obtain ⟨cid, layout, memLen, rfl, -, hmessage, hlayout, hmemory, -⟩ :=
    buildTypedOrderCall_ok crates h
  obtain ⟨memory, hwritten, -, hread, -⟩ := writeMemory_ok crates expiry hlayout
  have hsame : memory = call.userMemory := Except.ok.inj (hwritten.symm.trans hmemory)
  subst hsame
  constructor
  · intro f hf
    rw [← FieldValue.length_bytes]
    exact hread (f.offset.val, f.value.bytes)
      (List.mem_append_left _ (List.mem_append_right _ (List.mem_map_of_mem hf)))
  · obtain ⟨-, htail⟩ := message_layout chainId genesis cid selector call.signer nonce expiry
      layoutHash (fields.map FieldArg.value)
    rw [hmessage, htail, List.flatMap_map]

/-- A call built of typed fields, whatever else it was built of. -/
def Built (fields : List TypedField) (call : SignedOrderCall) : Prop :=
  ∃ chainId genesis contract selector layoutHash schemeOff ptrOff expiryOff regionOff ownerSeed
    ownerIndex nonce expiry randomness,
    buildOrderFromTyped crates chainId genesis contract selector layoutHash schemeOff ptrOff
      expiryOff regionOff fields ownerSeed ownerIndex nonce expiry randomness = .ok call

/-- The bytes each field was given in the memory of a call, in listed order. -/
def laidOut (fields : List TypedField) (call : SignedOrderCall) : List (List UInt8) :=
  fields.map (fun f => slice call.userMemory f.offset.val f.width.val)

/-- **Each field is laid out as it was typed**, and the message ends with what
    was laid out. -/
theorem built_reads_back {fields : List TypedField} {call : SignedOrderCall}
    (h : Built crates fields call) :
    List.Forall₂ (fun f bytes => TypedAs f.value bytes f.width) fields (laidOut fields call) ∧
      call.message.drop msgFieldsOff = (laidOut fields call).flatten := by
  obtain ⟨chainId, genesis, contract, selector, layoutHash, schemeOff, ptrOff, expiryOff,
    regionOff, ownerSeed, ownerIndex, nonce, expiry, randomness, h⟩ := h
  rw [buildOrderFromTyped] at h
  obtain ⟨typed, hread, hcall⟩ := bind_ok h
  obtain ⟨hmemory, hmessage⟩ := buildTypedOrderCall_fields crates hcall
  have hfields : List.Forall₂ (fun f a => a.offset = f.offset ∧
      fieldValueOfWidth f.width f.value = .ok a.value) fields typed := by
    refine (mapM_iff.mp hread).imp (fun f a ha => ?_)
    obtain ⟨value, hvalue, ha⟩ := bind_ok ha
    cases ha
    exact ⟨rfl, hvalue⟩
  -- what lies at a field's offset is the bytes of its value
  have hat : List.Forall₂ (fun f a => slice call.userMemory f.offset.val f.width.val
      = FieldValue.bytes (FieldArg.value a) ∧
        TypedAs f.value (FieldValue.bytes (FieldArg.value a)) f.width) fields typed := by
    refine List.forall₂_iff_get.mpr ⟨hfields.length_eq, fun i hi hi' => ?_⟩
    obtain ⟨hoffset, hvalue⟩ := hfields.get hi hi'
    obtain ⟨hwidth, htyped⟩ := fieldValueOfWidth_ok hvalue
    refine ⟨?_, htyped⟩
    rw [← hoffset, ← hwidth]
    exact hmemory _ (List.get_mem typed ⟨i, hi'⟩)
  have hlaid : laidOut fields call = typed.map (fun a => a.value.bytes) := by
    have hmap : List.Forall₂ (· = ·) (laidOut fields call)
        (typed.map (fun a => a.value.bytes)) := by
      rw [laidOut, List.forall₂_map_left_iff, List.forall₂_map_right_iff]
      exact hat.imp (fun f a ha => ha.1)
    rwa [List.forall₂_eq_eq_eq] at hmap
  rw [hlaid]
  refine ⟨?_, ?_⟩
  · rw [List.forall₂_map_right_iff]
    exact hat.imp (fun f a ha => ha.2)
  · rw [hmessage, List.flatMap_def]

/-- **A typed order carries what was typed.**  Each field's bytes in the memory
    the contract runs on are the number or the address its text says, the message
    that is signed ends with those bytes, in listed order; and an order of the
    same widths with the same message was typed the same. -/
theorem typed_order_is_what_was_typed {fields : List TypedField} {call : SignedOrderCall}
    (h : Built crates fields call) :
    List.Forall₂ (fun f bytes => TypedAs f.value bytes f.width) fields (laidOut fields call) ∧
      call.message.drop msgFieldsOff = (laidOut fields call).flatten ∧
      ∀ fields' call', Built crates fields' call' → call'.message = call.message →
        fields'.map TypedField.width = fields.map TypedField.width →
        List.Forall₂ SameTyped fields' fields := by
  obtain ⟨hlaid, hmessage⟩ := built_reads_back crates h
  refine ⟨hlaid, hmessage, fun fields' call' h' hsame hwidths => ?_⟩
  obtain ⟨hlaid', hmessage'⟩ := built_reads_back crates h'
  refine typed_list_same hlaid' hlaid hwidths ?_
  rw [← hmessage', ← hmessage, hsame]

/-- The fields of a mint: how much, more than a word holds, and to whom. -/
def mintFields : List TypedField :=
  [⟨192, 16, "18446744073709551716"⟩, ⟨160, 32, toHex (List.replicate 32 0xab)⟩]

/-- What is typed for a mint. -/
def mintValues : List FieldArg :=
  [⟨192, wide 18446744073709551716⟩, ⟨160, .address (constant 0xab)⟩]

/-- Where it goes. -/
def mintLayout : Layout := ⟨152, 208, 216, 224, mintValues⟩

/-- What its owner signs. -/
def mintMessage : List UInt8 :=
  canonicalOrderMessageTyped 9 (constant 0) (constant 1) ⟨[1, 2, 3, 4], length_plainSelector⟩
    (constant 2) 3 1000 (constant 6) (mintValues.map FieldArg.value)

/-- The layout of a mint passes its check. -/
theorem checkLayout_mint : checkLayout mintLayout
    ([(3 : UInt8)].length + [(5 : UInt8)].length + mintMessage.length) = .ok 442 := by
  have hlen : mintMessage.length = 216 := by
    decide +kernel
  rw [hlen]
  rfl

/-- The fields of a mint are read. -/
theorem mintFields_read : mintFields.mapM (fun f => do
    let value ← fieldValueOfWidth f.width f.value
    return (⟨f.offset, value⟩ : FieldArg)) = .ok mintValues := by
  have hamount : canonicalDecimal "18446744073709551716" = some 18446744073709551716 := by
    decide +kernel
  refine mapM_iff.mpr (List.Forall₂.cons ?_ (List.Forall₂.cons ?_ List.Forall₂.nil))
  · show (fieldValueOfWidth 16 "18446744073709551716" >>= fun value =>
      Except.ok (⟨192, value⟩ : FieldArg)) = _
    rw [fieldValueOfWidth, if_neg (by decide), if_pos rfl, hamount]
    rfl
  · show (fieldValueOfWidth 32 (toHex (List.replicate 32 0xab)) >>= fun value =>
      Except.ok (⟨160, value⟩ : FieldArg)) = _
    rw [fieldValueOfWidth, if_neg (by decide), if_neg (by decide), if_pos rfl, fromHex_toHex]
    rfl

/-- A mint is built of typed fields, and its amount is the one typed. -/
theorem typed_order_is_what_was_typed_mint : ∃ call, Built oneByteCrates mintFields call ∧
    toString (number (slice call.userMemory 192 16)) = "18446744073709551716" := by
  obtain ⟨memory, hmemory, -⟩ := writeMemory_ok oneByteCrates 1000 checkLayout_mint
  have hid : contractId oneByteCrates "c" = .ok (constant 1) := rfl
  have hkeys : oneByteCrates.keygenInto (oneByteCrates.accountSeed (constant 0)
      oneByteCrates.schemeLattice 0) = ([3], [4]) := rfl
  have hmessage : canonicalOrderMessageTyped 9 (constant 0) (constant 1)
      ⟨[1, 2, 3, 4], length_plainSelector⟩
      (signerAddress oneByteCrates oneByteCrates.schemeLattice [3]) 3 1000 (constant 6)
      (mintLayout.fields.map FieldArg.value) = mintMessage := rfl
  have hsign : oneByteCrates.sign [4] mintMessage oneByteCrates.vmVerifyContext (constant 0)
      = some [5] := rfl
  have hcall := buildTypedOrderCall_eq oneByteCrates hid (by decide) (by decide) rfl rfl hkeys
    hmessage hsign checkLayout_mint hmemory
  have hbuilt : Built oneByteCrates mintFields _ :=
    ⟨9, constant 0, "c", _, constant 6, 152, 208, 216, 224, constant 0, 0, 3, 1000,
      .ok (constant 0), bind_pass mintFields_read hcall⟩
  obtain ⟨hlaid, -, -⟩ := typed_order_is_what_was_typed oneByteCrates hbuilt
  refine ⟨_, hbuilt, ?_⟩
  cases hlaid with
  | cons hamount _ =>
      exact hamount.prints (by decide)

end QCoreTypedOrder
