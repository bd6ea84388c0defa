import Mathlib
import QCore.MachineIntProofs
import QCore.ByteMemoryProofs
import QCore.DelimitedProofs
import QCore.JsonProofs
import QCore.WireProofs
import QCore.CratesProofs
import QCore.ContractProofs

/-! # What an order's bytes bind

    The message an order signature covers ends with the fields of the order, with
    nothing to say where one ends and the next begins.  So the message binds its
    header and the bytes of its fields, and it binds the fields themselves only
    for one sequence of kinds.  The header carries a hash of the order's layout,
    whose preimage is a list of records that do say where they end, and binds the
    layout whole. -/

namespace QCoreOrderBinding

open QCoreMachineInt QCoreByteMemory QCoreDelimited QCoreJson QCoreWire QCoreCrates QCoreContract

/-! ## The fields of an order -/

/-- What kind of a value a field has. -/
inductive FieldKind
  | word
  | wide
  | address
  | name
  deriving DecidableEq

/-- The kind of a value. -/
def kindOf : FieldValue → FieldKind
  | .word _ => .word
  | .wide _ => .wide
  | .address _ => .address
  | .name _ => .name

/-- A label is no longer than its window. -/
def Fits (v : FieldValue) : Prop := ∀ label, v = .name label → label.length ≤ nameWindow

/-- Two fields of one kind that fit their windows. -/
def Alike (a b : FieldValue) : Prop := kindOf a = kindOf b ∧ Fits a ∧ Fits b

/-- A label is told by its padded bytes and its length. -/
theorem name_bytes_inj {label label' : List UInt8} (hfits : label.length ≤ nameWindow)
    (hfits' : label'.length ≤ nameWindow)
    (h : (FieldValue.name label).bytes = (FieldValue.name label').bytes) : label = label' := by
  have hsmall : ∀ {l : List UInt8}, l.length ≤ nameWindow → l.length < 256 ^ 8 := by
    intro l hl
    exact lt_of_le_of_lt hl (by decide)
  simp only [FieldValue.bytes, Nat.min_eq_left hfits, Nat.min_eq_left hfits', List.take_length]
    at h
  obtain ⟨hpadded, hlength⟩ := List.append_inj' h (by rw [length_beBytes, length_beBytes])
  have hlen := beBytes_inj (hsmall hfits) (hsmall hfits') hlength
  exact (List.append_inj hpadded hlen).1

/-- **Fields of one kind** are told from each other by their bytes. -/
theorem delimits_fields : Delimits Alike FieldValue.bytes := by
  refine delimits_of_length ?_ ?_
  · rintro a b ⟨hkind, -⟩
    rw [FieldValue.length_bytes, FieldValue.length_bytes]
    cases a <;> cases b <;> first | rfl | cases hkind
  · rintro a b ⟨hkind, hfits, hfits'⟩ h
    cases a with
    | word w =>
        cases b <;> cases hkind
        exact congrArg FieldValue.word (Fin.ext (beBytes_inj (Fin.isLt _) (Fin.isLt _) h))
    | wide w =>
        cases b <;> cases hkind
        exact congrArg FieldValue.wide (Subtype.ext h)
    | address w =>
        cases b <;> cases hkind
        exact congrArg FieldValue.address (Subtype.ext h)
    | name label =>
        cases b <;> cases hkind
        exact congrArg FieldValue.name (name_bytes_inj (hfits _ rfl) (hfits' _ rfl) h)

/-- Fields of the same kinds are alike. -/
theorem alike_of_kinds {fields fields' : List FieldValue} (hfits : ∀ v ∈ fields, Fits v)
    (hfits' : ∀ v ∈ fields', Fits v) (h : fields.map kindOf = fields'.map kindOf) :
    List.Forall₂ Alike fields fields' := by
  induction fields generalizing fields' with
  | nil =>
      cases fields' with
      | nil => exact List.Forall₂.nil
      | cons v rest => cases h
  | cons v rest ih =>
      cases fields' with
      | nil => cases h
      | cons v' rest' =>
          obtain ⟨hkind, hrest⟩ := List.cons.inj h
          refine List.Forall₂.cons ⟨hkind, hfits v List.mem_cons_self,
            hfits' v' List.mem_cons_self⟩ (ih ?_ ?_ hrest)
          · exact fun u hu => hfits u (List.mem_cons_of_mem _ hu)
          · exact fun u hu => hfits' u (List.mem_cons_of_mem _ hu)

/-! ## The message of an order -/

/-- What the header of an order message is made of. -/
@[ext]
structure OrderTerms where
  chainId : U64
  genesis : Bytes 32
  contractId : Bytes 32
  selector : Bytes 4
  signer : Bytes 32
  nonce : U64
  expiry : U64
  layoutHash : Bytes 32
  deriving DecidableEq

/-- What the owner of an order signs. -/
def OrderTerms.message (t : OrderTerms) (fields : List FieldValue) : List UInt8 :=
  canonicalOrderMessageTyped t.chainId t.genesis t.contractId t.selector t.signer t.nonce t.expiry
    t.layoutHash fields

/-- The header is told part by part, and what follows it are the fields' bytes. -/
theorem message_header {t t' : OrderTerms} {fields fields' : List FieldValue}
    (h : t.message fields = t'.message fields') :
    t = t' ∧ fields.flatMap FieldValue.bytes = fields'.flatMap FieldValue.bytes := by
  have hword : ∀ a : U64, a.val < 256 ^ 8 := fun a => a.isLt
  simp only [OrderTerms.message, canonicalOrderMessageTyped, List.append_assoc] at h
  have h := List.append_cancel_left h
  obtain ⟨hchain, h⟩ := delimits_beBytes 8 _ _ _ _ ⟨hword _, hword _⟩ h
  obtain ⟨hgenesis, h⟩ := delimits_bytes 32 _ _ _ _ trivial h
  obtain ⟨hcontract, h⟩ := delimits_bytes 32 _ _ _ _ trivial h
  have h := List.append_cancel_left h
  obtain ⟨hselector, h⟩ := delimits_bytes 4 _ _ _ _ trivial h
  obtain ⟨hsigner, h⟩ := delimits_bytes 32 _ _ _ _ trivial h
  obtain ⟨hnonce, h⟩ := delimits_beBytes 8 _ _ _ _ ⟨hword _, hword _⟩ h
  obtain ⟨hexpiry, h⟩ := delimits_beBytes 8 _ _ _ _ ⟨hword _, hword _⟩ h
  obtain ⟨hlayout, h⟩ := delimits_bytes 32 _ _ _ _ trivial h
  exact ⟨OrderTerms.ext (Fin.ext hchain) hgenesis hcontract hselector hsigner (Fin.ext hnonce)
    (Fin.ext hexpiry) hlayout, h⟩

/-- **A message binds its order.**  Two orders with one message have one header
    and one encoding of their fields; and if their fields are of the same kinds,
    they are the same fields. -/
theorem order_message_binds {t t' : OrderTerms} {fields fields' : List FieldValue}
    (hfits : ∀ v ∈ fields, Fits v) (hfits' : ∀ v ∈ fields', Fits v)
    (h : t.message fields = t'.message fields') :
    t = t' ∧ fields.flatMap FieldValue.bytes = fields'.flatMap FieldValue.bytes
      ∧ (fields.map kindOf = fields'.map kindOf → fields = fields') := by
  obtain ⟨hterms, hbytes⟩ := message_header h
  refine ⟨hterms, hbytes, fun hkinds => ?_⟩
  have hstream : fields.flatMap FieldValue.bytes ++ [] = fields'.flatMap FieldValue.bytes ++ [] :=
    congrArg (· ++ []) hbytes
  exact (delimits_fields.flatMap (alike_of_kinds hfits hfits' hkinds) hstream).1

theorem length_constant (b : UInt8) : (List.replicate 32 b).length = 32 := List.length_replicate

/-- One byte, as often as a hash has bytes. -/
def constant (b : UInt8) : Bytes 32 := ⟨List.replicate 32 b, length_constant b⟩

theorem length_plainSelector : ([1, 2, 3, 4] : List UInt8).length = 4 := rfl

/-- The terms of an order. -/
def plainTerms : OrderTerms where
  chainId := 9
  genesis := constant 0
  contractId := constant 1
  selector := ⟨[1, 2, 3, 4], length_plainSelector⟩
  signer := constant 2
  nonce := 3
  expiry := 1000
  layoutHash := constant 6

/-- Two words are the bytes of one wide value: what a message binds of its fields
    is no more than their bytes. -/
theorem order_message_binds_words :
    ([FieldValue.word 7, .word 0] : List FieldValue).flatMap FieldValue.bytes
      = [FieldValue.wide ⟨beBytes 8 7 ++ beBytes 8 0, by decide⟩].flatMap FieldValue.bytes := by
  have hwords : ∀ v ∈ ([.word 7, .word 0] : List FieldValue), Fits v := by
    simp [Fits]
  have hwide : ∀ v ∈ [FieldValue.wide ⟨beBytes 8 7 ++ beBytes 8 0, by decide⟩], Fits v := by
    simp [Fits]
  have hsame : plainTerms.message [.word 7, .word 0]
      = plainTerms.message [.wide ⟨beBytes 8 7 ++ beBytes 8 0, by decide⟩] := rfl
  obtain ⟨-, hbytes, -⟩ := order_message_binds hwords hwide hsame
  exact hbytes

/-! ## The layout of an order -/

/-- A field of an entry's layout. -/
@[ext]
structure OrderLayoutField where
  name : String
  ty : String
  width : U64

/-- `QTVLAYT1`, in bytes. -/
def orderLayoutTag : List UInt8 := [81, 84, 86, 76, 65, 89, 84, 49]

/-- A length cut to thirty-two bits. -/
def asU32 (n : ℕ) : ℕ := n % 4294967296

/-- What is hashed of a field. -/
def OrderLayoutField.bytes (field : OrderLayoutField) : List UInt8 :=
  beBytes 4 (asU32 (asBytes field.name).length) ++ asBytes field.name
    ++ beBytes 4 (asU32 (asBytes field.ty).length) ++ asBytes field.ty
    ++ beBytes 8 field.width.val

/-- What a layout hash is a hash of. -/
def orderLayoutPreimage (selector : Bytes 4) (fields : List OrderLayoutField) : List UInt8 :=
  orderLayoutTag ++ selector.val ++ beBytes 4 (asU32 fields.length)
    ++ fields.flatMap OrderLayoutField.bytes

/-- The hash of an entry's layout. -/
def orderLayoutHash (crates : Crates) (selector : Bytes 4) (fields : List OrderLayoutField) :
    Bytes 32 :=
  crates.sha3_256 (orderLayoutPreimage selector fields)

theorem asU32_eq {n : ℕ} (h : n < 2 ^ 32) : asU32 n = n := Nat.mod_eq_of_lt h

/-- The texts of a layout's field are not too long for their lengths. -/
def OrderLayoutField.Measured (field : OrderLayoutField) : Prop :=
  (asBytes field.name).length < 2 ^ 32 ∧ (asBytes field.ty).length < 2 ^ 32

/-- The name and the type each follow their length, the width follows them both. -/
theorem layoutField_bytes {field : OrderLayoutField} (h : field.Measured) :
    field.bytes = framed 4 (asBytes field.name)
      ++ (framed 4 (asBytes field.ty) ++ beBytes 8 field.width.val) := by
  rw [OrderLayoutField.bytes, asU32_eq h.1, asU32_eq h.2, framed, framed]
  simp only [List.append_assoc]

/-- **Records of a layout** are told from each other by their bytes. -/
theorem delimits_layoutFields :
    Delimits (fun a b : OrderLayoutField => a.Measured ∧ b.Measured) OrderLayoutField.bytes := by
  rintro a b rest rest' ⟨ha, hb⟩ h
  rw [layoutField_bytes ha, layoutField_bytes hb] at h
  simp only [List.append_assoc] at h
  obtain ⟨hname, h⟩ := delimits_framed 4 _ _ _ _ ⟨ha.1, hb.1⟩ h
  obtain ⟨hty, h⟩ := delimits_framed 4 _ _ _ _ ⟨ha.2, hb.2⟩ h
  obtain ⟨hwidth, h⟩ := delimits_beBytes 8 _ _ _ _ ⟨Fin.isLt _, Fin.isLt _⟩ h
  exact ⟨OrderLayoutField.ext (asBytes_inj hname) (asBytes_inj hty) (Fin.ext hwidth), h⟩

/-- Every number a layout's preimage is cut to is the number itself. -/
def Measured (fields : List OrderLayoutField) : Prop :=
  fields.length < 2 ^ 32 ∧ ∀ f ∈ fields, f.Measured

/-- **A layout is bound by its preimage.**  Two layouts with one preimage are one
    layout, so two different layouts with one hash are a collision of the hash. -/
theorem order_layout_binds {selector selector' : Bytes 4} {fields fields' : List OrderLayoutField}
    (hfields : Measured fields) (hfields' : Measured fields') :
    (orderLayoutPreimage selector fields = orderLayoutPreimage selector' fields' →
        selector = selector' ∧ fields = fields')
      ∧ ∀ crates : Crates,
        orderLayoutHash crates selector fields = orderLayoutHash crates selector' fields' →
        selector = selector' ∧ fields = fields'
          ∨ orderLayoutPreimage selector fields ≠ orderLayoutPreimage selector' fields'
            ∧ crates.sha3_256 (orderLayoutPreimage selector fields)
              = crates.sha3_256 (orderLayoutPreimage selector' fields') := by
  have hinj : orderLayoutPreimage selector fields = orderLayoutPreimage selector' fields' →
      selector = selector' ∧ fields = fields' := by
    intro h
    simp only [orderLayoutPreimage, asU32_eq hfields.1, asU32_eq hfields'.1,
      List.append_assoc] at h
    have h := List.append_cancel_left h
    obtain ⟨hselector, h⟩ := delimits_bytes 4 _ _ _ _ trivial h
    obtain ⟨hlength, h⟩ := delimits_beBytes 4 _ _ _ _ ⟨hfields.1, hfields'.1⟩ h
    refine ⟨hselector, ?_⟩
    have hrelated : List.Forall₂ (fun a b : OrderLayoutField => a.Measured ∧ b.Measured)
        fields fields' :=
      List.forall₂_iff_zip.mpr ⟨hlength, fun {a b} hab =>
        ⟨hfields.2 a (List.of_mem_zip hab).1, hfields'.2 b (List.of_mem_zip hab).2⟩⟩
    exact (delimits_layoutFields.flatMap hrelated (congrArg (· ++ []) h)).1
  refine ⟨hinj, fun crates hhash => ?_⟩
  by_cases hsame : orderLayoutPreimage selector fields = orderLayoutPreimage selector' fields'
  · exact Or.inl (hinj hsame)
  · exact Or.inr ⟨hsame, hhash⟩

/-- A label whose last letter goes to its kind is told apart. -/
theorem order_layout_binds_step :
    orderLayoutPreimage ⟨[1, 2, 3, 4], by decide⟩ [⟨"order.step", "u64", 8⟩]
      ≠ orderLayoutPreimage ⟨[1, 2, 3, 4], by decide⟩ [⟨"order.ste", "pu64", 8⟩] := by
  intro h
  have hmeasured : Measured [⟨"order.step", "u64", 8⟩] := by
    simp [Measured, OrderLayoutField.Measured, asBytes, String.utf8EncodeChar]
  have hmeasured' : Measured [⟨"order.ste", "pu64", 8⟩] := by
    simp [Measured, OrderLayoutField.Measured, asBytes, String.utf8EncodeChar]
  have hlayout := (order_layout_binds hmeasured hmeasured').1 h
  simp at hlayout

end QCoreOrderBinding
