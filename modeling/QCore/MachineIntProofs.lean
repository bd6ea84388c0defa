import Mathlib

/-! # Fixed-width unsigned integers

    A machine word of `n` values is `Fin n`, so a value out of range cannot be
    written down.  Plain arithmetic is never used on words: every operation
    here says what happens at the edge, either by clamping (`saturating…`) or by
    refusing (`checked…`), and its `val` lemma states that in `Nat`. -/

namespace QCoreMachineInt

/-- A 64-bit unsigned word. -/
abbrev U64 := Fin 18446744073709551616

/-- A 128-bit unsigned word. -/
abbrev U128 := Fin 340282366920938463463374607431768211456

/-- A 32-bit unsigned word. -/
abbrev U32 := Fin 4294967296

instance neZero_u64 : NeZero (18446744073709551616 : Nat) := ⟨by decide⟩

instance neZero_u128 : NeZero (340282366920938463463374607431768211456 : Nat) := ⟨by decide⟩

instance neZero_u32 : NeZero (4294967296 : Nat) := ⟨by decide⟩

instance lawfulBEq_u64 : LawfulBEq U64 := inferInstance

/-- A byte as a word. -/
def u64From (b : UInt8) : U64 := ⟨b.toNat, Nat.lt_trans b.toNat_lt (by decide)⟩

variable {n : Nat}

/-- The sum, clamped to the largest word. -/
def saturatingAdd (a b : Fin n) : Fin n :=
  ⟨min (a.val + b.val) (n - 1), by have := a.isLt; omega⟩

@[simp, grind =] theorem saturatingAdd_val (a b : Fin n) :
    (saturatingAdd a b).val = min (a.val + b.val) (n - 1) := rfl

/-- The difference, clamped to zero. -/
def saturatingSub (a b : Fin n) : Fin n := ⟨a.val - b.val, by have := a.isLt; omega⟩

/-- The product, clamped to the largest word. -/
def saturatingMul (a b : Fin n) : Fin n :=
  ⟨min (a.val * b.val) (n - 1), by have := a.isLt; omega⟩

@[simp, grind =] theorem saturatingMul_val (a b : Fin n) :
    (saturatingMul a b).val = min (a.val * b.val) (n - 1) := rfl

/-- Adding up with clamping is adding up and clamping once. -/
theorem foldl_saturatingAdd_val {α : Type} (f : α → Fin n) (l : List α) (a : Fin n) :
    (l.foldl (fun sum x => saturatingAdd sum (f x)) a).val
      = min (a.val + (l.map (fun x => (f x).val)).sum) (n - 1) := by
  induction l generalizing a with
  | nil =>
      have := a.isLt
      simp only [List.foldl_nil, List.map_nil, List.sum_nil]
      omega
  | cons x rest ih =>
      rw [List.foldl_cons, ih, saturatingAdd_val, List.map_cons, List.sum_cons]
      omega

/-- The sum, when it is a word. -/
def checkedAdd (a b : Fin n) : Option (Fin n) :=
  if h : a.val + b.val < n then some ⟨a.val + b.val, h⟩ else none

/-- A checked sum is the sum where it fits. -/
theorem checkedAdd_eq_some {a b c : Fin n} :
    checkedAdd a b = some c ↔ c.val = a.val + b.val := by
  rw [checkedAdd]
  constructor
  · intro h
    split at h
    · cases h; rfl
    · exact nomatch h
  · intro h
    have hlt := c.isLt
    rw [dif_pos (by omega)]
    exact congrArg some (Fin.ext h.symm)

/-- The product, when it is a word. -/
def checkedMul (a b : Fin n) : Option (Fin n) :=
  if h : a.val * b.val < n then some ⟨a.val * b.val, h⟩ else none

/-- A checked product is the product where it fits. -/
theorem checkedMul_eq_some {a b c : Fin n} :
    checkedMul a b = some c ↔ c.val = a.val * b.val := by
  rw [checkedMul]
  constructor
  · intro h
    split at h
    · cases h; rfl
    · exact nomatch h
  · intro h
    rw [dif_pos (h ▸ c.isLt)]
    exact congrArg some (Fin.ext h.symm)

/-- The difference, when it is a word. -/
def checkedSub (a b : Fin n) : Option (Fin n) :=
  if b.val ≤ a.val then some ⟨a.val - b.val, by have := a.isLt; omega⟩ else none

/-- A checked difference is the difference where there is one. -/
theorem checkedSub_eq_some {a b c : Fin n} :
    checkedSub a b = some c ↔ b.val + c.val = a.val := by
  rw [checkedSub]
  constructor
  · intro h
    split at h
    · cases h
      show b.val + (a.val - b.val) = a.val
      omega
    · exact nomatch h
  · intro h
    rw [if_pos (by omega)]
    refine congrArg some (Fin.ext ?_)
    show a.val - b.val = c.val
    omega

/-- A natural number as a word, when it is in range. -/
def tryFrom (n : Nat) (v : Nat) : Option (Fin n) :=
  if h : v < n then some ⟨v, h⟩ else none

theorem tryFrom_val (a : Fin n) : tryFrom n a.val = some a := by
  simp [tryFrom]

/-- A number is converted where it fits. -/
theorem tryFrom_eq_some {v : Nat} {a : Fin n} : tryFrom n v = some a ↔ v = a.val := by
  constructor
  · intro h
    rw [tryFrom] at h
    split at h
    · rw [← Option.some.inj h]
    · cases h
  · intro h
    rw [h, tryFrom_val]

end QCoreMachineInt
