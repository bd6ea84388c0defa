import Mathlib
import QCore.MachineIntProofs
import QCore.ByteMemoryProofs
import QCore.CarriedTreeProofs
import QCore.ConfirmationProofs

/-! # Positions and inclusion paths

    A gateway names the position of a transaction and gives a path of its leaf, in
    one answer but not bound to each other.  The client does not know how many
    leaves the block has, so it asks whether some number of leaves would give the
    leaf at that position a path that turns as this one does.

    `index_fits_path_iff` says that the question is answered exactly, by counting
    ones and comparing digits, and that the machine's words hold every number on
    the way. -/

namespace QCorePathPosition

open QCoreMachineInt QCoreByteMemory QCoreCarriedTree QCoreConfirmation

/-- The way each step turns, from the leaf up. -/
def flags (steps : Steps) : List Bool := steps.map (·.2)

/-! ## The check in machine words -/

/-- A difference that refuses to go below zero. -/
def subChecked (a b : ℕ) : Option ℕ := if b ≤ a then some (a - b) else none

/-- A shift to the left that refuses to shift by a word or to drop a one. -/
def shlChecked (a : U64) (k : ℕ) : Option U64 :=
  if k < 64 then tryFrom _ (a.val <<< k) else none

/-- A shift to the right that refuses to shift by a word. -/
def checkedShr (a : U64) (k : ℕ) : Option U64 :=
  if k < 64 then tryFrom _ (a.val >>> k) else none

/-- A list from a place on, which must not be past its end. -/
def sliceFrom (l : List Bool) (k : ℕ) : Option (List Bool) :=
  if k ≤ l.length then some (l.drop k) else none

/-- `(acc << 1) | u64::from(right)`. -/
def pushBit (acc : U64) (right : Bool) : Option U64 := do
  let shifted ← shlChecked acc 1
  tryFrom _ (shifted.val ||| right.toNat)

/-- The check as the machine makes it, refusing where a word would not hold. -/
def indexFitsPathChecked (index : U64) (steps : Steps) : Option Bool :=
  let depthTotal := steps.length
  let topDown := (steps.map (·.2)).reverse
  match topDown.findIdx? (fun right => !right) with
  | none => some (countOnes index.val = depthTotal)
  | some turn => do
      let above ← subChecked depthTotal turn
      let depth ← subChecked above 1
      if 64 ≤ depth then return false
      else
        let bit ← shlChecked 1 depth
        let lowMask ← checkedSub bit 1
        let below ← sliceFrom topDown (turn + 1)
        let low ← below.foldlM pushBit 0
        let shift ← checkedAdd (Fin.ofNat 4294967296 depth) 1
        let high := (checkedShr index shift.val).getD 0
        let shifted ← checkedShr index depth
        return (index.val &&& lowMask.val = low.val) ∧ (shifted.val &&& 1 = 0)
          ∧ countOnes high.val = turn

/-! ## No word overflows -/

section

variable {index : U64} {steps : Steps}

theorem tryFrom_some {v : ℕ} (h : v < 18446744073709551616) :
    tryFrom 18446744073709551616 v = some ⟨v, h⟩ := dif_pos h

/-- A bit can be set at every depth of a path. -/
theorem shlChecked_one {depth : ℕ} (h : depth < 64) :
    ∃ bit : U64, shlChecked 1 depth = some bit ∧ bit.val = 2 ^ depth := by
  have hpow : 2 ^ depth < 18446744073709551616 :=
    Nat.pow_lt_pow_right (by decide) h
  have hval : (1 : U64).val <<< depth = 2 ^ depth := by
    rw [show (1 : U64).val = 1 from rfl, Nat.one_shiftLeft]
  refine ⟨⟨2 ^ depth, hpow⟩, ?_, rfl⟩
  rw [shlChecked, if_pos h, hval, tryFrom_some hpow]

/-- An index can be shifted to every depth of a path. -/
theorem checkedShr_some (index : U64) {depth : ℕ} (h : depth < 64) :
    ∃ shifted : U64, checkedShr index depth = some shifted
      ∧ shifted.val = index.val / 2 ^ depth := by
  have hle : index.val >>> depth < 18446744073709551616 := by
    rw [Nat.shiftRight_eq_div_pow]
    exact lt_of_le_of_lt (Nat.div_le_self _ _) index.isLt
  refine ⟨⟨_, hle⟩, ?_, Nat.shiftRight_eq_div_pow _ _⟩
  rw [checkedShr, if_pos h, tryFrom_some hle]

/-- A shift by a whole word leaves nothing, and so does a quotient by it. -/
theorem checkedShr_getD (index : U64) {shift : ℕ} (h : shift ≤ 64) :
    ((checkedShr index shift).getD 0).val = index.val / 2 ^ shift := by
  rcases Nat.lt_or_ge shift 64 with hlt | hge
  · obtain ⟨shifted, hshifted, hval⟩ := checkedShr_some index hlt
    rw [hshifted]
    exact hval
  · obtain rfl : shift = 64 := le_antisymm h hge
    rw [checkedShr, if_neg (lt_irrefl 64)]
    exact (Nat.div_eq_of_lt index.isLt).symm

/-- One more bit fits as long as there is room for it. -/
theorem pushBit_some {acc : U64} (right : Bool) {width : ℕ} (hacc : acc.val < 2 ^ width)
    (hwidth : width < 64) :
    ∃ next : U64, pushBit acc right = some next ∧ next.val = acc.val * 2 + right.toNat
      ∧ next.val < 2 ^ (width + 1) := by
  have hbit := right.toNat_lt
  have hroom : 2 ^ (width + 1) ≤ 2 ^ 64 := Nat.pow_le_pow_right (by decide) hwidth
  rw [pow_succ] at hroom
  have hshift : acc.val <<< 1 = 2 * acc.val := by
    rw [Nat.shiftLeft_eq, pow_one, Nat.mul_comm]
  have hor : 2 * acc.val ||| right.toNat = 2 * acc.val + right.toNat := by
    have := Nat.two_pow_add_eq_or_of_lt (i := 1) (b := right.toNat) (by omega) acc.val
    rw [pow_one] at this
    exact this.symm
  have hlt : 2 * acc.val + right.toNat < 18446744073709551616 := by omega
  refine ⟨⟨2 * acc.val + right.toNat, hlt⟩, ?_, by dsimp only; omega, by
    dsimp only
    rw [pow_succ]
    omega⟩
  rw [pushBit, shlChecked, if_pos (by decide), hshift, tryFrom_some (by omega)]
  show tryFrom _ (2 * acc.val ||| right.toNat) = _
  rw [hor, tryFrom_some hlt]

/-- **The low bits fit a word**, however they are set. -/
theorem foldlM_pushBit {below : List Bool} {acc : U64} {width : ℕ} (hacc : acc.val < 2 ^ width)
    (hwidth : width + below.length ≤ 64) :
    ∃ low : U64, below.foldlM pushBit acc = some low
      ∧ low.val = below.foldl (fun acc right => acc * 2 + right.toNat) acc.val := by
  induction below generalizing acc width with
  | nil => exact ⟨acc, rfl, rfl⟩
  | cons right rest ih =>
      rw [List.length_cons] at hwidth
      obtain ⟨next, hnext, hval, hlt⟩ := pushBit_some right hacc (by omega)
      obtain ⟨low, hlow, hlast⟩ := ih hlt (by omega)
      refine ⟨low, ?_, ?_⟩
      · rw [List.foldlM_cons, hnext]
        exact hlow
      · rw [hlast, List.foldl_cons, hval]

/-- The first turn to the left is one of the steps. -/
theorem turn_lt {turn : ℕ}
    (h : (steps.map (·.2)).reverse.findIdx? (fun right => !right) = some turn) :
    turn < steps.length := by
  have := findIdx_some h
  rwa [List.length_map] at this

/-- The machine's check is the one in numbers, and it never refuses. -/
theorem indexFitsPathChecked_eq (index : U64) {steps : Steps} (hshort : steps.length ≤ 64) :
    indexFitsPathChecked index steps = some (indexFitsPath index steps) := by
  simp only [indexFitsPathChecked, indexFitsPath]
  cases hfind : (steps.map (·.2)).reverse.findIdx? (fun right => !right) with
  | none => rfl
  | some turn =>
      have hturn := turn_lt hfind
      have hdepth : ¬ 64 ≤ steps.length - turn - 1 := by omega
      obtain ⟨bit, hbit, hpow⟩ := shlChecked_one (not_le.mp hdepth)
      have hmask : checkedSub bit 1 = some ⟨bit.val - 1, by have := bit.isLt; omega⟩ := by
        have hone : (1 : U64).val = 1 := rfl
        have := Nat.two_pow_pos (steps.length - turn - 1)
        rw [checkedSub, if_pos (by omega)]
        rfl
      have hslice : sliceFrom (steps.map (·.2)).reverse (turn + 1)
          = some ((steps.map (·.2)).reverse.drop (turn + 1)) := by
        rw [sliceFrom, if_pos]
        rw [List.length_reverse, List.length_map]
        omega
      have hbits : 0 + ((steps.map (·.2)).reverse.drop (turn + 1)).length ≤ 64 := by
        rw [List.length_drop, List.length_reverse, List.length_map]
        omega
      have hstart : (0 : U64).val < 2 ^ 0 := Nat.one_pos
      obtain ⟨low, hlow, hnumber⟩ := foldlM_pushBit hstart hbits
      have hshift : checkedAdd (Fin.ofNat 4294967296 (steps.length - turn - 1)) 1
          = some ⟨steps.length - turn - 1 + 1, by omega⟩ := by
        refine checkedAdd_eq_some.mpr ?_
        show _ = (steps.length - turn - 1) % 4294967296 + 1
        rw [Nat.mod_eq_of_lt (by omega)]
      obtain ⟨shifted, hshifted, hquotient⟩ := checkedShr_some index (not_le.mp hdepth)
      have hhigh := checkedShr_getD index (show steps.length - turn - 1 + 1 ≤ 64 by omega)
      have habove : subChecked steps.length turn = some (steps.length - turn) :=
        if_pos hturn.le
      have hbelow : subChecked (steps.length - turn) 1 = some (steps.length - turn - 1) :=
        if_pos (by omega)
      simp only [habove, hbelow, Option.bind_eq_bind, Option.bind_some, if_neg hdepth, hbit, hmask,
        hslice, hlow, hshift, hshifted, hhigh, hpow, hquotient, hnumber,
        Nat.and_two_pow_sub_one_eq_mod, Nat.and_one_is_mod]
      rfl

/-! ## What the check decides -/

theorem countOnes_eq {n : ℕ} (h : n < 18446744073709551616) : countOnes n = ones n :=
  countP_testBit 64 n h

/-- The check compares the digits of the position with those the path asks for. -/
theorem indexFitsPath_iff (index : U64) {steps : Steps} (hshort : steps.length ≤ 64) :
    indexFitsPath index steps = true ↔ Digits index.val (flags steps) := by
  rw [Digits, flags, List.length_map, indexFitsPath]
  cases hfind : (steps.map (·.2)).reverse.findIdx? (fun right => !right) with
  | none =>
      dsimp only
      rw [decide_eq_true_iff, countOnes_eq index.isLt]
  | some turn =>
      have hturn := turn_lt hfind
      have hheight : steps.length - turn - 1 + 1 = steps.length - turn := by omega
      have hhigh : index.val / 2 ^ (steps.length - turn) < 18446744073709551616 :=
        lt_of_le_of_lt (Nat.div_le_self _ _) index.isLt
      dsimp only
      rw [if_neg (by omega), decide_eq_true_iff, hheight, countOnes_eq hhigh]
      exact Iff.rfl

/-- **A position fits a path exactly when some tree has that path for it**, and
    no shift, mask or difference on the way leaves the machine's words. -/
theorem index_fits_path_iff (index : U64) {steps : Steps} (hshort : steps.length ≤ 64) :
    (indexFitsPath index steps = true ↔ ∃ n, index.val < n ∧ path n index.val = flags steps)
      ∧ indexFitsPathChecked index steps = some (indexFitsPath index steps) := by
  refine ⟨?_, indexFitsPathChecked_eq index hshort⟩
  rw [indexFitsPath_iff index hshort, ← reaches_iff]
  exact Iff.rfl

end

/-- The leaf at position 5 of seven is on the left of one sibling. -/
theorem index_fits_path_iff_seven : indexFitsPath 5
    [(⟨List.replicate 32 0, by decide⟩, true), (⟨List.replicate 32 0, by decide⟩, false),
      (⟨List.replicate 32 0, by decide⟩, true)] = true := by
  refine (index_fits_path_iff 5 (by decide)).1.mpr ⟨7, by decide, ?_⟩
  show path 7 5 = [true, false, true]
  rw [path_paired (by decide) (by decide), path_paired (by decide) (by decide),
    path_paired (by decide) (by decide), path_root (by decide)]
  rfl

end QCorePathPosition
