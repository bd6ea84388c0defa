import Mathlib

/-! # Regrouping digits

    Values of one kind are written as a fixed number of digits each, the digits
    are put in a row, cut into pieces of another length, and the pieces are read
    as values of a second kind.

    A `Spelling` says how values of one kind are written and read.  Cutting a row
    undoes writing it (`chunks_flatMap`), so a row is what some values spell
    exactly when those values are what its pieces read as
    (`Spelling.flatMap_eq_iff`).  `binary` spells a number in so many bits, first
    the greatest, and `octets` spells a byte in eight. -/

namespace QCoreRegroup

variable {α β : Type*}

/-! ## Cutting a row into pieces -/

/-- Cut a row into at most so many pieces of a length. -/
def chunksUpTo (w : ℕ) : ℕ → List β → List (List β)
  | 0, _ => []
  | _ + 1, [] => []
  | n + 1, b :: rest => (b :: rest).take w :: chunksUpTo w n ((b :: rest).drop w)

/-- The pieces of a row; the last may be shorter. -/
def chunks (w : ℕ) (l : List β) : List (List β) := chunksUpTo w l.length l

section

variable {w : ℕ}

/-- More pieces than a row has change nothing. -/
theorem chunksUpTo_eq (hw : 0 < w) {n m : ℕ} {l : List β} (hn : l.length ≤ n)
    (hm : l.length ≤ m) : chunksUpTo w n l = chunksUpTo w m l := by
  induction n generalizing m l with
  | zero =>
      rw [List.length_eq_zero_iff.mp (Nat.le_zero.mp hn)]
      cases m <;> rfl
  | succ n ih =>
      cases l with
      | nil => cases m <;> rfl
      | cons b rest =>
          cases m with
          | zero => exact absurd hm (Nat.not_succ_le_zero _)
          | succ m =>
              rw [List.length_cons] at hn hm
              rw [chunksUpTo, chunksUpTo, ih (m := m)]
              · rw [List.length_drop, List.length_cons]
                omega
              · rw [List.length_drop, List.length_cons]
                omega

@[simp] theorem chunks_nil : chunks w ([] : List β) = [] := rfl

/-- A row that starts with a whole piece is cut after it. -/
theorem chunks_append (hw : 0 < w) {piece l : List β} (hpiece : piece.length = w) :
    chunks w (piece ++ l) = piece :: chunks w l := by
  cases piece with
  | nil => exact absurd hpiece hw.ne
  | cons b rest =>
      have htake : (b :: (rest ++ l)).take w = b :: rest := List.take_left' hpiece
      have hdrop : (b :: (rest ++ l)).drop w = l := List.drop_left' hpiece
      rw [chunks, List.cons_append, List.length_cons, chunksUpTo, htake, hdrop]
      refine congrArg (List.cons _) (chunksUpTo_eq hw ?_ le_rfl)
      rw [List.length_append]
      omega

/-- **Cutting a row of pieces** gives the pieces back. -/
theorem chunks_flatten (hw : 0 < w) {pieces : List (List β)}
    (h : ∀ piece ∈ pieces, piece.length = w) : chunks w pieces.flatten = pieces := by
  induction pieces with
  | nil => rfl
  | cons piece rest ih =>
      rw [List.flatten_cons, chunks_append hw (h piece List.mem_cons_self),
        ih (fun other hother => h other (List.mem_cons_of_mem _ hother))]

/-- A row of whole pieces is its pieces, one after the other. -/
theorem exists_pieces {n : ℕ} {l : List β} (hl : l.length = w * n) :
    ∃ pieces : List (List β), l = pieces.flatten ∧ pieces.length = n
      ∧ ∀ piece ∈ pieces, piece.length = w := by
  induction n generalizing l with
  | zero => exact ⟨[], List.length_eq_zero_iff.mp hl, rfl, by simp⟩
  | succ n ih =>
      rw [Nat.mul_succ] at hl
      obtain ⟨pieces, hpieces, hlen, heach⟩ := ih (l := l.drop w) (by rw [List.length_drop]; omega)
      refine ⟨l.take w :: pieces, ?_, ?_, ?_⟩
      · rw [List.flatten_cons, ← hpieces, List.take_append_drop]
      · rw [List.length_cons, hlen]
      · intro piece hpiece
        rcases List.mem_cons.mp hpiece with rfl | hpiece
        · rw [List.length_take]
          omega
        · exact heach piece hpiece

/-- The pieces of a row of whole pieces, by their places. -/
theorem chunks_eq_range (hw : 0 < w) {n : ℕ} {l : List β} (hl : l.length = w * n) :
    chunks w l = (List.range n).map (fun i => (l.drop (w * i)).take w) := by
  induction n generalizing l with
  | zero => rw [List.length_eq_zero_iff.mp hl]; rfl
  | succ n ih =>
      rw [Nat.mul_succ] at hl
      have hpiece : (l.take w).length = w := by rw [List.length_take]; omega
      have hrest : (l.drop w).length = w * n := by rw [List.length_drop]; omega
      conv_lhs => rw [← List.take_append_drop w l]
      rw [chunks_append hw hpiece, ih hrest, List.range_succ_eq_map, List.map_cons, List.map_map]
      refine congrArg (List.cons _) (List.map_congr_left fun i _ => ?_)
      rw [Function.comp_apply, List.drop_drop, Nat.mul_succ, Nat.add_comm]

section

variable {f : α → List β} (hf : ∀ a, (f a).length = w)

include hf

theorem length_flatMap_pieces (as : List α) : (as.flatMap f).length = w * as.length := by
  rw [List.length_flatMap, List.map_congr_left (fun a _ => hf a), List.map_const',
    List.sum_replicate, smul_eq_mul, Nat.mul_comm]

/-- Whole pieces at the start of a row are dropped with the values they come from. -/
theorem drop_flatMap_pieces (as : List α) (k : ℕ) :
    (as.flatMap f).drop (w * k) = (as.drop k).flatMap f := by
  induction k generalizing as with
  | zero => rfl
  | succ k ih =>
      cases as with
      | nil => rw [List.drop_nil, List.flatMap_nil, List.drop_nil]
      | cons a as =>
          rw [List.flatMap_cons, Nat.mul_succ, Nat.add_comm, ← List.drop_drop,
            List.drop_left' (hf a), ih, List.drop_succ_cons]

/-- Whole pieces at the start of a row are what the values in their places come to. -/
theorem take_flatMap_pieces (as : List α) (k : ℕ) :
    (as.flatMap f).take (w * k) = (as.take k).flatMap f := by
  induction k generalizing as with
  | zero => rfl
  | succ k ih =>
      cases as with
      | nil => rw [List.take_nil, List.flatMap_nil, List.take_nil]
      | cons a as =>
          rw [List.flatMap_cons, Nat.mul_succ, Nat.add_comm, List.take_add,
            List.take_left' (hf a), List.drop_left' (hf a), ih, List.take_succ_cons,
            List.flatMap_cons]

end

end

/-! ## Spellings -/

/-- Values that are written with exactly `w` digits each, and read from them. -/
structure Spelling (α β : Type*) (w : ℕ) where
  spell : α → List β
  read : List β → α
  /-- The values that can be written. -/
  Valid : α → Prop
  Digit : β → Prop
  width : 0 < w
  length_spell : ∀ a, (spell a).length = w
  digit_spell : ∀ a, ∀ b ∈ spell a, Digit b
  read_spell : ∀ a, Valid a → read (spell a) = a
  spell_read : ∀ l, l.length = w → (∀ b ∈ l, Digit b) → spell (read l) = l
  valid_read : ∀ l, l.length = w → (∀ b ∈ l, Digit b) → Valid (read l)

namespace Spelling

variable {w : ℕ} (s : Spelling α β w)

/-- The row that values spell. -/
def row (as : List α) : List β := as.flatMap s.spell

/-- The values that the pieces of a row read as. -/
def values (l : List β) : List α := (chunks w l).map s.read

theorem length_row (as : List α) : (s.row as).length = w * as.length :=
  length_flatMap_pieces s.length_spell as

theorem digit_row {as : List α} {b : β} (h : b ∈ s.row as) : s.Digit b := by
  obtain ⟨a, -, hb⟩ := List.mem_flatMap.mp h
  exact s.digit_spell a b hb

/-- **Reading undoes writing.** -/
theorem values_row {as : List α} (h : ∀ a ∈ as, s.Valid a) : s.values (s.row as) = as := by
  have hcut : chunks w (s.row as) = as.map s.spell := by
    rw [row, List.flatMap_def]
    refine chunks_flatten s.width ?_
    intro piece hpiece
    obtain ⟨a, -, rfl⟩ := List.mem_map.mp hpiece
    exact s.length_spell a
  rw [values, hcut, List.map_map]
  exact (List.map_congr_left (fun a ha => s.read_spell a (h a ha))).trans (List.map_id as)

variable {n : ℕ} {l : List β}

/-- A row of digits is read piece by piece. -/
theorem exists_values (hl : l.length = w * n) (hdigit : ∀ b ∈ l, s.Digit b) :
    (s.values l).length = n ∧ (∀ a ∈ s.values l, s.Valid a) ∧ s.row (s.values l) = l := by
  obtain ⟨pieces, rfl, rfl, heach⟩ := exists_pieces hl
  have hdigits : ∀ piece ∈ pieces, ∀ b ∈ piece, s.Digit b := fun piece hpiece b hb =>
    hdigit b (List.mem_flatten.mpr ⟨piece, hpiece, hb⟩)
  rw [values, chunks_flatten s.width heach]
  refine ⟨List.length_map _, ?_, ?_⟩
  · intro a ha
    obtain ⟨piece, hpiece, rfl⟩ := List.mem_map.mp ha
    exact s.valid_read piece (heach piece hpiece) (hdigits piece hpiece)
  · rw [row, List.flatMap_map, List.flatMap_def]
    refine congrArg List.flatten ((List.map_congr_left ?_).trans (List.map_id pieces))
    intro piece hpiece
    exact s.spell_read piece (heach piece hpiece) (hdigits piece hpiece)

/-- **A row is what some values spell** exactly when they are what it reads as. -/
theorem row_eq_iff {as : List α} (hvalid : ∀ a ∈ as, s.Valid a) (hl : l.length = w * n)
    (hdigit : ∀ b ∈ l, s.Digit b) : s.row as = l ↔ as = s.values l := by
  constructor
  · rintro rfl
    exact (s.values_row hvalid).symm
  · rintro rfl
    exact (s.exists_values hl hdigit).2.2

end Spelling

/-! ## Numbers in binary -/

/-- A bit, as a byte. -/
def IsBit (b : UInt8) : Prop := b = 0 ∨ b = 1

/-- The last bits of a number, first the greatest. -/
def bitsOf (w n : ℕ) : List UInt8 :=
  (List.range w).reverse.map (fun shift => UInt8.ofNat (n >>> shift &&& 1))

/-- The number that bits write, first the greatest. -/
def numberOf (bits : List UInt8) : ℕ := bits.foldl (fun acc bit => acc <<< 1 ||| bit.toNat) 0

theorem isBit_iff {b : UInt8} : IsBit b ↔ b.toNat ≤ 1 := by
  rw [IsBit, ← UInt8.toNat_inj, ← UInt8.toNat_inj]
  show b.toNat = 0 ∨ b.toNat = 1 ↔ _
  omega

/-- The bits of a number are those of its half, and the last. -/
theorem bitsOf_succ (w n : ℕ) : bitsOf (w + 1) n = bitsOf w (n / 2) ++ [UInt8.ofNat (n % 2)] := by
  rw [bitsOf, List.range_succ_eq_map, List.reverse_cons, List.map_append, ← List.map_reverse,
    List.map_map, bitsOf]
  refine congrArg₂ _ (List.map_congr_left ?_) ?_
  · intro shift _
    show UInt8.ofNat (n >>> (shift + 1) &&& 1) = _
    rw [Nat.shiftRight_succ_inside]
  · rw [List.map_singleton, Nat.shiftRight_zero, Nat.and_one_is_mod]

theorem length_bitsOf (w n : ℕ) : (bitsOf w n).length = w := by
  rw [bitsOf, List.length_map, List.length_reverse, List.length_range]

theorem isBit_bitsOf {w n : ℕ} {b : UInt8} (h : b ∈ bitsOf w n) : IsBit b := by
  obtain ⟨shift, -, rfl⟩ := List.mem_map.mp h
  rw [isBit_iff, Nat.and_one_is_mod, UInt8.toNat_ofNat']
  omega

/-- One more bit doubles a number and adds the bit. -/
theorem numberOf_concat {bits : List UInt8} {b : UInt8} (hb : IsBit b) :
    numberOf (bits ++ [b]) = 2 * numberOf bits + b.toNat := by
  have hlt : b.toNat < 2 ^ 1 := Nat.lt_succ_of_le (isBit_iff.mp hb)
  rw [numberOf, List.foldl_append, List.foldl_cons, List.foldl_nil, ← numberOf,
    Nat.shiftLeft_eq, Nat.mul_comm, Nat.two_pow_add_eq_or_of_lt hlt]

/-- Some bits make a number that they suffice for. -/
theorem numberOf_lt {bits : List UInt8} (h : ∀ b ∈ bits, IsBit b) :
    numberOf bits < 2 ^ bits.length := by
  induction bits using List.reverseRecOn with
  | nil => exact Nat.one_pos
  | append_singleton bits b ih =>
      have hbit := h b (List.mem_append_right _ (List.mem_singleton.mpr rfl))
      have hrest := ih (fun c hc => h c (List.mem_append_left _ hc))
      have hle := isBit_iff.mp hbit
      rw [numberOf_concat hbit, List.length_append, List.length_singleton, pow_succ]
      omega

/-- A number is made of its bits. -/
theorem numberOf_bitsOf {w n : ℕ} (h : n < 2 ^ w) : numberOf (bitsOf w n) = n := by
  induction w generalizing n with
  | zero => exact (Nat.lt_one_iff.mp h).symm
  | succ w ih =>
      have hbit : IsBit (UInt8.ofNat (n % 2)) := by
        rw [isBit_iff, UInt8.toNat_ofNat']
        omega
      rw [bitsOf_succ, numberOf_concat hbit, ih (by rw [pow_succ] at h; omega), UInt8.toNat_ofNat']
      omega

/-- Bits are those of the number that they make. -/
theorem bitsOf_numberOf {bits : List UInt8} (h : ∀ b ∈ bits, IsBit b) :
    bitsOf bits.length (numberOf bits) = bits := by
  induction bits using List.reverseRecOn with
  | nil => rfl
  | append_singleton bits b ih =>
      have hbit := h b (List.mem_append_right _ (List.mem_singleton.mpr rfl))
      have hle := isBit_iff.mp hbit
      have hhalf : (2 * numberOf bits + b.toNat) / 2 = numberOf bits := by omega
      have hlast : (2 * numberOf bits + b.toNat) % 2 = b.toNat := by omega
      rw [numberOf_concat hbit, List.length_append, List.length_singleton, bitsOf_succ, hhalf,
        hlast, ih (fun c hc => h c (List.mem_append_left _ hc)), UInt8.ofNat_toNat]

/-- A number below a power of two, in bits. -/
def binary (w : ℕ) (hw : 0 < w) : Spelling ℕ UInt8 w where
  spell := bitsOf w
  read := numberOf
  Valid n := n < 2 ^ w
  Digit := IsBit
  width := hw
  length_spell := length_bitsOf w
  digit_spell _ _ := isBit_bitsOf
  read_spell _ := numberOf_bitsOf
  spell_read _ hl h := hl ▸ bitsOf_numberOf h
  valid_read _ hl h := hl ▸ numberOf_lt h

/-! ## Bytes in binary -/

/-- The eight bits of a byte, first the greatest. -/
def byteBits (b : UInt8) : List UInt8 :=
  (List.range 8).reverse.map (fun shift => b >>> UInt8.ofNat shift &&& 1)

/-- The byte that bits write, first the greatest. -/
def byteOf (bits : List UInt8) : UInt8 := bits.foldl (fun acc bit => acc <<< 1 ||| bit) 0

/-- The bits of a byte are those of its number. -/
theorem byteBits_eq (b : UInt8) : byteBits b = bitsOf 8 b.toNat := by
  refine List.map_congr_left ?_
  intro shift hshift
  have hlt : shift < 8 := List.mem_range.mp (List.mem_reverse.mp hshift)
  have hshifted : b >>> UInt8.ofNat shift = UInt8.ofNat (b.toNat >>> shift) := by
    have hsmall : b.toNat >>> shift < 256 := by
      rw [Nat.shiftRight_eq_div_pow]
      exact lt_of_le_of_lt (Nat.div_le_self _ _) b.toNat_lt
    refine UInt8.toNat_inj.mp ?_
    rw [UInt8.toNat_shiftRight, UInt8.toNat_ofNat', UInt8.toNat_ofNat', Nat.mod_eq_of_lt hsmall]
    congr 1
    omega
  rw [UInt8.ofNat_and, hshifted]
  rfl

/-- The byte of some bits is the number that they make. -/
theorem byteOf_eq (bits : List UInt8) : byteOf bits = UInt8.ofNat (numberOf bits) := by
  have hstep : ∀ (bits : List UInt8) (n : ℕ),
      bits.foldl (fun (acc bit : UInt8) => acc <<< 1 ||| bit) (UInt8.ofNat n)
        = UInt8.ofNat (bits.foldl (fun (acc : ℕ) bit => acc <<< 1 ||| bit.toNat) n) := by
    intro bits
    induction bits with
    | nil => exact fun n => rfl
    | cons bit rest ih =>
        intro n
        rw [List.foldl_cons, List.foldl_cons, ← ih, UInt8.ofNat_or,
          UInt8.ofNat_shiftLeft _ _ (by decide), UInt8.ofNat_toNat]
        rfl
  exact hstep bits 0

/-- A byte, in bits. -/
def octets : Spelling UInt8 UInt8 8 where
  spell := byteBits
  read := byteOf
  Valid _ := True
  Digit := IsBit
  width := by decide
  length_spell b := by rw [byteBits_eq, length_bitsOf]
  digit_spell b _ h := by
    rw [byteBits_eq] at h
    exact isBit_bitsOf h
  read_spell b _ := by
    rw [byteBits_eq, byteOf_eq, numberOf_bitsOf b.toNat_lt, UInt8.ofNat_toNat]
  spell_read l hl h := by
    have hlt := numberOf_lt h
    rw [hl] at hlt
    rw [byteBits_eq, byteOf_eq, UInt8.toNat_ofNat', Nat.mod_eq_of_lt hlt, ← hl, bitsOf_numberOf h]
  valid_read _ _ _ := trivial

end QCoreRegroup
