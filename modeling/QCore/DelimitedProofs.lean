import Mathlib
import QCore.ByteMemoryProofs

/-! # Encodings that say where they end

    A stream is what several encodings are, one after the other, with nothing
    between them.  It can be taken apart when each encoding is told from every
    other it might be by itself, whatever follows: because both are equally long,
    or because each begins with its length.  `Delimits` is that property, for
    values a relation holds of, and `Delimits.flatMap` is what it gives for a list
    of them. -/

namespace QCoreDelimited

open QCoreByteMemory

variable {α β : Type*}

/-- Two related values whose encodings begin one stream are equal, and so is what
    follows them. -/
def Delimits (R : α → α → Prop) (encode : α → List β) : Prop :=
  ∀ a b rest rest', R a b → encode a ++ rest = encode b ++ rest' → a = b ∧ rest = rest'

variable {R : α → α → Prop} {encode : α → List β}

/-- Encodings of one length delimit when no two of them are equal. -/
theorem delimits_of_length (hlen : ∀ a b, R a b → (encode a).length = (encode b).length)
    (hinj : ∀ a b, R a b → encode a = encode b → a = b) : Delimits R encode := by
  intro a b rest rest' hR h
  obtain ⟨hencode, hrest⟩ := List.append_inj h (hlen a b hR)
  exact ⟨hinj a b hR hencode, hrest⟩

/-- **A list of encodings** is told from another whose values are related to its
    own, one by one. -/
theorem Delimits.flatMap (h : Delimits R encode) {as bs : List α} (hR : List.Forall₂ R as bs)
    {rest rest' : List β} (heq : as.flatMap encode ++ rest = bs.flatMap encode ++ rest') :
    as = bs ∧ rest = rest' := by
  induction hR with
  | nil => exact ⟨rfl, heq⟩
  | cons hab _ ih =>
      rw [List.flatMap_cons, List.flatMap_cons, List.append_assoc, List.append_assoc] at heq
      obtain ⟨hhead, htail⟩ := h _ _ _ _ hab heq
      obtain ⟨hlist, hrest⟩ := ih htail
      exact ⟨List.cons_eq_cons.mpr ⟨hhead, hlist⟩, hrest⟩

/-! ## Numbers and lengths -/

/-- A number is told by its bytes when they are enough of them. -/
theorem beBytes_inj {width v v' : ℕ} (hv : v < 256 ^ width) (hv' : v' < 256 ^ width)
    (h : beBytes width v = beBytes width v') : v = v' := by
  have hnumber := congrArg ofBeBytes h
  rwa [ofBeBytes_beBytes, ofBeBytes_beBytes, Nat.mod_eq_of_lt hv, Nat.mod_eq_of_lt hv']
    at hnumber

/-- Fixed-width numbers delimit. -/
theorem delimits_beBytes (width : ℕ) :
    Delimits (fun v v' => v < 256 ^ width ∧ v' < 256 ^ width) (beBytes width) := by
  refine delimits_of_length ?_ ?_
  · intro v v' _
    rw [length_beBytes, length_beBytes]
  · intro v v' hlt h
    exact beBytes_inj hlt.1 hlt.2 h

/-- Bytes with their number in front. -/
def framed (width : ℕ) (bytes : List UInt8) : List UInt8 :=
  beBytes width bytes.length ++ bytes

/-- Bytes with their number in front delimit, when the number is one of the width. -/
theorem delimits_framed (width : ℕ) :
    Delimits (fun a b => a.length < 256 ^ width ∧ b.length < 256 ^ width) (framed width) := by
  intro a b rest rest' hlt h
  rw [framed, framed, List.append_assoc, List.append_assoc] at h
  obtain ⟨hlen, h⟩ := delimits_beBytes width _ _ _ _ hlt h
  exact List.append_inj h hlen

/-- Byte strings of one length delimit. -/
theorem delimits_bytes (n : ℕ) :
    Delimits (fun _ _ => True) (fun bytes : Bytes n => bytes.val) :=
  delimits_of_length (fun a b _ => a.property.trans b.property.symm)
    (fun _ _ _ h => Subtype.ext h)

end QCoreDelimited
