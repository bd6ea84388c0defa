import Mathlib
import QCore.FallibleProofs
import QCore.ByteMemoryProofs
import QCore.DecoderProofs

/-! # Fields of a fixed width

    A field of a fixed width needs no mark of where it ends.  So many bytes are read
    off a string, or it is refused as cut short; a number of a width is the bytes of
    that width, most significant first, and each string of them is one number. -/

namespace QCoreFixedWidth

open QCoreByteMemory QCoreFallible QCoreDecoder

variable {ε : Type}

/-! ## Numbers -/

/-- A byte more at the end. -/
theorem ofBeBytes_append (bytes : List UInt8) (b : UInt8) :
    ofBeBytes (bytes ++ [b]) = ofBeBytes bytes * 256 + b.toNat := by
  rw [ofBeBytes, List.foldl_append, ← ofBeBytes]
  rfl

/-- **Bytes are the bytes of their number.** -/
theorem beBytes_ofBeBytes (bytes : List UInt8) :
    beBytes bytes.length (ofBeBytes bytes) = bytes := by
  induction bytes using List.reverseRecOn with
  | nil => rfl
  | append_singleton bytes b ih =>
      have hb : b.toNat < 256 := b.toNat_lt
      have hfront : (ofBeBytes bytes * 256 + b.toNat) / 256 = ofBeBytes bytes := by omega
      have hlast : UInt8.ofNat (ofBeBytes bytes * 256 + b.toNat) = b := by
        refine UInt8.toNat_inj.mp ?_
        rw [UInt8.toNat_ofNat']
        omega
      rw [List.length_append, List.length_singleton, beBytes, ofBeBytes_append, hfront, ih, hlast]

theorem ofBeBytes_lt (bytes : List UInt8) : ofBeBytes bytes < 256 ^ bytes.length := by
  have hmod := ofBeBytes_beBytes bytes.length (ofBeBytes bytes)
  rw [beBytes_ofBeBytes] at hmod
  rw [hmod]
  exact Nat.mod_lt _ (Nat.pos_of_ne_zero (by positivity))

/-- A number that is too large for a width leaves its low bytes. -/
theorem beBytes_mod (width v : Nat) : beBytes width (v % 256 ^ width) = beBytes width v := by
  have hsame := beBytes_ofBeBytes (beBytes width v)
  rwa [length_beBytes, ofBeBytes_beBytes] at hsame

/-! ## Bytes -/

/-- So many bytes off the front of a string. -/
def takeBytes (n : Nat) (unread : List UInt8) : Option (Bytes n × List UInt8) :=
  if h : n ≤ unread.length then
    some (⟨unread.take n, List.length_take_of_le h⟩, unread.drop n)
  else none

/-- A field of some bytes. -/
def readBytes (n : Nat) (refusal : ε) : Decode ε (Bytes n) := field (takeBytes n) refusal

/-- Bytes of a given length are read back. -/
theorem reads_bytes {n : Nat} (bytes : Bytes n) (refusal : ε) :
    Reads (readBytes n refusal) bytes.val bytes := by
  refine Reads.field (fun rest => ?_)
  have hle : n ≤ (bytes.val ++ rest).length := by
    rw [List.length_append, bytes.property]
    exact Nat.le_add_right _ _
  rw [takeBytes, dif_pos hle]
  have htake : (bytes.val ++ rest).take n = bytes.val := List.take_left' bytes.property
  have hdrop : (bytes.val ++ rest).drop n = rest := List.drop_left' bytes.property
  exact congrArg some (Prod.ext (Subtype.ext htake) hdrop)

/-- They are read from themselves alone. -/
theorem takes_bytes (n : Nat) (refusal : ε) :
    Takes (readBytes n refusal) (fun _ => True) Subtype.val := by
  refine Takes.field (fun unread bytes rest h => ⟨trivial, ?_⟩)
  rw [takeBytes] at h
  split at h
  · cases h
    exact (List.take_append_drop n unread).symm
  · cases h

/-- The number that a field of some width is. -/
def numberOf {width : Nat} (bytes : Bytes width) : Fin (256 ^ width) :=
  ⟨ofBeBytes bytes.val, lt_of_lt_of_eq (ofBeBytes_lt bytes.val) (by rw [bytes.property])⟩

theorem beBytes_numberOf {width : Nat} (bytes : Bytes width) :
    beBytes width (numberOf bytes).val = bytes.val := by
  have hsame := beBytes_ofBeBytes bytes.val
  rwa [bytes.property] at hsame

theorem numberOf_beBytes {width : Nat} (n : Fin (256 ^ width)) :
    numberOf ⟨beBytes width n.val, length_beBytes width n.val⟩ = n := by
  refine Fin.ext ?_
  show ofBeBytes (beBytes width n.val) = n.val
  rw [ofBeBytes_beBytes, Nat.mod_eq_of_lt n.isLt]

/-- A number of a width, most significant byte first. -/
def readNumber (width : Nat) (refusal : ε) : Decode ε (Fin (256 ^ width)) := do
  let bytes ← readBytes width refusal
  return numberOf bytes

theorem reads_number {width : Nat} (n : Fin (256 ^ width)) (refusal : ε) :
    Reads (readNumber width refusal) (beBytes width n.val) n := by
  have hread := (reads_bytes ⟨beBytes width n.val, length_beBytes width n.val⟩ refusal).bind_pure
    (g := numberOf)
  rwa [numberOf_beBytes] at hread

/-- A number is read from its own bytes alone. -/
theorem takes_number (width : Nat) (refusal : ε) :
    Takes (readNumber width refusal) (fun _ => True) (fun n => beBytes width n.val) := by
  intro unread n rest h
  obtain ⟨bytes, mid, -, hbytes, h⟩ := (takes_bytes width refusal).bind_ok h
  cases h
  refine ⟨trivial, ?_⟩
  show unread = beBytes width (numberOf bytes).val ++ rest
  rw [beBytes_numberOf, hbytes]

/-! ## Marks -/

/-- Bytes that have to stand where they are read. -/
def expect (mark : List UInt8) (cut refusal : ε) : Decode ε Unit := do
  let bytes ← readBytes mark.length cut
  refuse (bytes.val ≠ mark) refusal

/-- A mark is read where it is expected. -/
theorem reads_expect (mark : List UInt8) (cut refusal : ε) :
    Reads (expect mark cut refusal) mark () := by
  have hcheck : Reads (refuse (mark ≠ mark) refusal) [] () := Reads.refuse (not_not.mpr rfl)
  have hread : Reads (readBytes mark.length cut >>= fun bytes => refuse (bytes.val ≠ mark) refusal)
      (mark ++ []) () := (reads_bytes ⟨mark, rfl⟩ cut).bind hcheck
  rwa [List.append_nil] at hread

/-- A mark is read from its own bytes alone. -/
theorem takes_expect (mark : List UInt8) (cut refusal : ε) :
    Takes (expect mark cut refusal) (fun _ => True) (fun _ => mark) := by
  intro unread _ rest h
  obtain ⟨bytes, mid, -, hbytes, h⟩ := (takes_bytes mark.length cut).bind_ok h
  obtain ⟨hsame, h⟩ := guard_ok h
  cases h
  rw [not_not.mp hsame] at hbytes
  exact ⟨trivial, hbytes⟩

end QCoreFixedWidth
