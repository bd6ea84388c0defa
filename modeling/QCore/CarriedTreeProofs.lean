import Mathlib

/-! # Trees that carry an unpaired node up

    A tree over `n` leaves is built level by level: neighbours are paired, and a
    last node without a neighbour goes up as it is.  The path of a leaf has a step
    for each level at which the node above it was paired, and the step is to the
    left where the sibling stands on the left.

    When the number of leaves is not a power of two, the path of a leaf is shorter
    than the tree is high, and how depends on the binary digits of both numbers.
    `reaches_iff` says which lists of steps are the path of a leaf at a given place
    in some tree, in terms of the digits of the place alone. -/

namespace QCoreCarriedTree

/-! ## Ones of a number -/

/-- How many ones the binary form of a number has. -/
def ones (n : ℕ) : ℕ := (Nat.digits 2 n).sum

@[simp] theorem ones_zero : ones 0 = 0 := by
  rw [ones, Nat.digits_zero, List.sum_nil]

theorem ones_eq (n : ℕ) : ones n = n % 2 + ones (n / 2) := by
  cases n with
  | zero => rfl
  | succ n => rw [ones, Nat.digits_def' (by decide) n.succ_pos, List.sum_cons, ← ones]

/-- A number above zero has a bit that is set. -/
theorem ones_pos {n : ℕ} (h : 0 < n) : 0 < ones n := by
  induction n using Nat.strong_induction_on with
  | _ n ih =>
      rw [ones_eq]
      rcases Nat.mod_two_eq_zero_or_one n with hmod | hmod
      · have := ih (n / 2) (by omega) (by omega)
        omega
      · omega

/-- Counting the ones digit by digit, over enough digits. -/
theorem countP_testBit (width n : ℕ) (h : n < 2 ^ width) :
    (List.range width).countP (fun i => n.testBit i) = ones n := by
  induction width generalizing n with
  | zero =>
      have hzero : n = 0 := by simpa using h
      rw [hzero]
      rfl
  | succ width ih =>
      have hhalf : n / 2 < 2 ^ width := by
        rw [pow_succ] at h
        omega
      have hbit : ((fun i => n.testBit i) ∘ Nat.succ) = fun i => (n / 2).testBit i := by
        funext i
        exact Nat.testBit_succ n i
      rw [List.range_succ_eq_map, List.countP_cons, List.countP_map, hbit, ih _ hhalf, ones_eq n,
        Nat.testBit_zero]
      rcases Nat.mod_two_eq_zero_or_one n with hmod | hmod
      · simp [hmod]
      · simp [hmod, Nat.add_comm]

/-! ## Paths -/

/-- The steps from the leaf at a place to the root of the tree over `n` leaves,
    and for each whether the sibling is on the left. -/
def path (n i : ℕ) : List Bool :=
  if n ≤ 1 then []
  else if i + 1 = n ∧ n % 2 = 1 then path ((n + 1) / 2) (i / 2)
  else decide (i % 2 = 1) :: path ((n + 1) / 2) (i / 2)
termination_by n
decreasing_by all_goals omega

theorem path_root {n : ℕ} (h : n ≤ 1) (i : ℕ) : path n i = [] := by
  rw [path, if_pos h]

theorem path_carried {n i : ℕ} (hn : 1 < n) (hlast : i + 1 = n) (hodd : n % 2 = 1) :
    path n i = path ((n + 1) / 2) (i / 2) := by
  rw [path, if_neg (not_le.mpr hn), if_pos ⟨hlast, hodd⟩]

theorem path_paired {n i : ℕ} (hn : 1 < n) (h : ¬ (i + 1 = n ∧ n % 2 = 1)) :
    path n i = decide (i % 2 = 1) :: path ((n + 1) / 2) (i / 2) := by
  rw [path, if_neg (not_le.mpr hn), if_neg h]

/-- **The last leaf** has only siblings on its left, one for each one of its
    place. -/
theorem path_last (i : ℕ) : path (i + 1) i = List.replicate (ones i) true := by
  induction i using Nat.strong_induction_on with
  | _ i ih =>
      rcases Nat.eq_zero_or_pos i with hzero | hpos
      · rw [hzero, path_root (le_refl 1), ones_zero, List.replicate_zero]
      · have hnext := ih (i / 2) (by omega)
        rcases Nat.mod_two_eq_zero_or_one i with hmod | hmod
        · -- an even place is the last of an odd number, which is carried up
          have hup : (i + 1 + 1) / 2 = i / 2 + 1 := by omega
          rw [path_carried (by omega) rfl (by omega), hup, hnext, ones_eq i, hmod, Nat.zero_add]
        · have hup : (i + 1 + 1) / 2 = i / 2 + 1 := by omega
          rw [path_paired (by omega) (by omega), hup, hnext, ones_eq i, hmod, Nat.add_comm,
            List.replicate_succ]
          rfl

/-- Twice as many leaves put one step below every path. -/
theorem path_double {m j : ℕ} (h : j < m) (left : Bool) :
    path (2 * m) (2 * j + left.toNat) = left :: path m j := by
  have hleft := left.toNat_lt
  have hup : (2 * m + 1) / 2 = m := by omega
  have hparent : (2 * j + left.toNat) / 2 = j := by omega
  rw [path_paired (by omega) (by omega), hup, hparent]
  cases left with
  | false => simp
  | true => simp

/-! ## The places a path can lead from -/

/-- The steps are the path of the leaf at a place in some tree. -/
def Reaches (i : ℕ) (steps : List Bool) : Prop := ∃ n, i < n ∧ path n i = steps

/-- An empty path reaches the first leaf alone. -/
theorem reaches_nil {i : ℕ} : Reaches i [] ↔ i = 0 := by
  constructor
  · rintro ⟨n, hlt, hpath⟩
    by_contra hne
    by_cases hlast : i + 1 = n ∧ n % 2 = 1
    · rw [← hlast.1, path_last, List.replicate_eq_nil_iff] at hpath
      exact absurd hpath (ones_pos (Nat.pos_of_ne_zero hne)).ne'
    · rw [path_paired (by omega) hlast] at hpath
      exact List.cons_ne_nil _ _ hpath
  · rintro rfl
    exact ⟨1, Nat.one_pos, path_root (le_refl 1) 0⟩

/-- A first step is that of the place, unless the leaf is the last and was carried
    up to it. -/
theorem reaches_cons {i : ℕ} {left : Bool} {steps : List Bool} :
    Reaches i (left :: steps) ↔
      (i % 2 = left.toNat ∧ Reaches (i / 2) steps)
        ∨ left :: steps = List.replicate (ones i) true := by
  constructor
  · rintro ⟨n, hlt, hpath⟩
    by_cases hlast : i + 1 = n ∧ n % 2 = 1
    · right
      rw [← hpath, ← hlast.1, path_last]
    · left
      have hn : 1 < n := by
        by_contra hsmall
        rw [path_root (not_lt.mp hsmall)] at hpath
        exact List.cons_ne_nil _ _ hpath.symm
      rw [path_paired hn hlast] at hpath
      obtain ⟨hstep, hrest⟩ := List.cons.inj hpath
      refine ⟨?_, (n + 1) / 2, by omega, hrest⟩
      rw [← hstep]
      rcases Nat.mod_two_eq_zero_or_one i with hmod | hmod
      · rw [hmod]
        rfl
      · rw [hmod]
        rfl
  · rintro (⟨hmod, m, hlt, hpath⟩ | hall)
    · refine ⟨2 * m, by omega, ?_⟩
      have hi : i = 2 * (i / 2) + left.toNat := by omega
      rw [hi, path_double hlt, hpath]
    · exact ⟨i + 1, Nat.lt_succ_self i, hall ▸ path_last i⟩

/-! ## The places in terms of their digits -/

/-- The number some steps are, most significant first. -/
def numberOf (steps : List Bool) : ℕ :=
  steps.foldl (fun acc left => acc * 2 + left.toNat) 0

/-- Whether a place has the digits a path asks for.  From the root down, the path
    goes right of a number of peaks and then turns left: the peaks are ones of the
    place, the turn is a zero, and what follows are the place's last digits. -/
def Digits (i : ℕ) (steps : List Bool) : Prop :=
  match steps.reverse.findIdx? (fun left => !left) with
  | none => ones i = steps.length
  | some turn =>
      i % 2 ^ (steps.length - turn - 1) = numberOf (steps.reverse.drop (turn + 1))
        ∧ i / 2 ^ (steps.length - turn - 1) % 2 = 0
        ∧ ones (i / 2 ^ (steps.length - turn)) = turn

theorem findIdx_none {steps : List Bool} :
    steps.reverse.findIdx? (fun left => !left) = none ↔
      steps = List.replicate steps.length true := by
  rw [List.findIdx?_eq_none_iff, List.eq_replicate_iff]
  simp

theorem findIdx_some {steps : List Bool} {turn : ℕ}
    (h : steps.reverse.findIdx? (fun left => !left) = some turn) : turn < steps.length := by
  have := (List.findIdx?_eq_some_iff_getElem.mp h).1
  rwa [List.length_reverse] at this

theorem digits_of_all {i : ℕ} {steps : List Bool} (h : steps = List.replicate steps.length true) :
    Digits i steps ↔ ones i = steps.length := by
  rw [Digits, findIdx_none.mpr h]

/-- A step at the bottom of a path that turns somewhere above it. -/
theorem digits_cons_turn {i turn : ℕ} {left : Bool} {steps : List Bool}
    (h : steps.reverse.findIdx? (fun left => !left) = some turn) :
    Digits i (left :: steps) ↔ i % 2 = left.toNat ∧ Digits (i / 2) steps := by
  have hturn := findIdx_some h
  have hfind : (left :: steps).reverse.findIdx? (fun left => !left) = some turn := by
    rw [List.reverse_cons, List.findIdx?_append, h]
    rfl
  have hdrop : (left :: steps).reverse.drop (turn + 1)
      = steps.reverse.drop (turn + 1) ++ [left] := by
    rw [List.reverse_cons, List.drop_append_of_le_length]
    rw [List.length_reverse]
    omega
  have hnumber : numberOf (steps.reverse.drop (turn + 1) ++ [left])
      = numberOf (steps.reverse.drop (turn + 1)) * 2 + left.toNat := by
    rw [numberOf, List.foldl_append]
    rfl
  have hleft := left.toNat_lt
  have hdepth : (left :: steps).length - turn - 1 = (steps.length - turn - 1) + 1 := by
    rw [List.length_cons]
    omega
  have hheight : (left :: steps).length - turn = (steps.length - turn) + 1 := by
    rw [List.length_cons]
    omega
  simp only [Digits, h, hfind, hdrop, hnumber, hdepth]
  simp only [hheight, pow_succ', ← Nat.div_div_eq_div_mul, Nat.mod_mul]
  constructor
  · rintro ⟨hlow, hzero, hhigh⟩
    exact ⟨by omega, by omega, hzero, hhigh⟩
  · rintro ⟨hmod, hlow, hzero, hhigh⟩
    exact ⟨by omega, hzero, hhigh⟩

/-- The turn is the bottom step. -/
theorem digits_cons_false {i : ℕ} {steps : List Bool}
    (h : steps = List.replicate steps.length true) :
    Digits i (false :: steps) ↔ i % 2 = 0 ∧ ones (i / 2) = steps.length := by
  have hfind : (false :: steps).reverse.findIdx? (fun left => !left) = some steps.length := by
    rw [List.reverse_cons, List.findIdx?_append, findIdx_none.mpr h]
    simp
  have hdepth : (false :: steps).length - steps.length - 1 = 0 := by
    rw [List.length_cons]
    omega
  have hheight : (false :: steps).length - steps.length = 1 := by
    rw [List.length_cons]
    omega
  have hdrop : (false :: steps).reverse.drop (steps.length + 1) = [] := by
    refine List.drop_eq_nil_of_le ?_
    rw [List.length_reverse, List.length_cons]
  simp only [Digits, hfind, hdepth, hdrop, pow_zero, Nat.mod_one, Nat.div_one]
  rw [hheight, pow_one]
  exact ⟨fun hd => hd.2, fun hd => ⟨rfl, hd⟩⟩

/-- **Steps are a path from exactly the places whose digits they ask for.** -/
theorem reaches_iff (i : ℕ) (steps : List Bool) : Reaches i steps ↔ Digits i steps := by
  induction steps generalizing i with
  | nil =>
      rw [reaches_nil, digits_of_all rfl]
      constructor
      · rintro rfl
        exact ones_zero
      · intro hones
        by_contra hne
        exact absurd hones (ones_pos (Nat.pos_of_ne_zero hne)).ne'
  | cons left steps ih =>
      rw [reaches_cons, ih]
      cases hfind : steps.reverse.findIdx? (fun left => !left) with
      | some turn =>
          rw [digits_cons_turn hfind]
          refine ⟨fun h => h.resolve_right ?_, Or.inl⟩
          -- a path that turns is not that of a last leaf
          intro hall
          have hsteps : steps = List.replicate steps.length true := by
            refine List.eq_replicate_iff.mpr ⟨rfl, fun b hb => ?_⟩
            exact List.eq_of_mem_replicate (hall ▸ List.mem_cons_of_mem left hb)
          rw [findIdx_none.mpr hsteps] at hfind
          cases hfind
      | none =>
          have hsteps := findIdx_none.mp hfind
          rw [digits_of_all hsteps]
          cases left with
          | false =>
              rw [digits_cons_false hsteps]
              refine ⟨fun h => h.resolve_right ?_, Or.inl⟩
              intro hall
              have := List.eq_of_mem_replicate (hall ▸ List.mem_cons_self (a := false) (l := steps))
              cases this
          | true =>
              have hcons : true :: steps = List.replicate (true :: steps).length true := by
                rw [List.length_cons, List.replicate_succ, ← hsteps]
              rw [digits_of_all hcons, List.length_cons]
              constructor
              · rintro (⟨hmod, hones⟩ | hall)
                · rw [ones_eq, hmod, hones, Nat.add_comm]
                  rfl
                · rw [← List.length_cons (a := true), hall, List.length_replicate]
              · intro hones
                right
                rw [hones, ← List.length_cons (a := true)]
                exact hcons

end QCoreCarriedTree
