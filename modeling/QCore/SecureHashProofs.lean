import Mathlib

/-! # The secure hash of 256 bits

    The standard's definition, over messages that are rows of bits.  A message is
    padded to blocks of 512 bits, each block is spread over sixty four words by a
    recursion (`schedule`), the words drive as many rounds over eight working
    variables (`workAfter`), and what the rounds leave is added to the value that
    goes from block to block (`hashAfter`).

    The constants are what the standard says they are, the first bits of the
    fractions of roots of primes, and the number of zeros that pad a message is the
    least that makes its length right. -/

namespace QCoreSecureHash

/-! ## Words and their functions -/

/-- A word of the standard. -/
abbrev Word := BitVec 32

/-- A word rotated to the right. -/
def rotr (n : ℕ) (x : Word) : Word := x.rotateRight n

/-- Each bit of the first word chooses between those of the others. -/
def ch (x y z : Word) : Word := (x &&& y) ^^^ (~~~x &&& z)

/-- Each bit is that of most of the words. -/
def maj (x y z : Word) : Word := (x &&& y) ^^^ (x &&& z) ^^^ (y &&& z)

/-- The first of the two functions of a round. -/
def bigSigma0 (x : Word) : Word := rotr 2 x ^^^ rotr 13 x ^^^ rotr 22 x

/-- The second of them. -/
def bigSigma1 (x : Word) : Word := rotr 6 x ^^^ rotr 11 x ^^^ rotr 25 x

/-- The first of the two functions of a schedule. -/
def smallSigma0 (x : Word) : Word := rotr 7 x ^^^ rotr 18 x ^^^ x >>> 3

/-- The second of them. -/
def smallSigma1 (x : Word) : Word := rotr 17 x ^^^ rotr 19 x ^^^ x >>> 10

/-! ## Constants -/

/-- The first thirty two bits of the fraction of a number. -/
noncomputable def fractionWord (x : ℝ) : Word := BitVec.ofNat 32 ⌊Int.fract x * 2 ^ 32⌋₊

/-- A constant for every round, from the cube roots of the primes. -/
noncomputable def roundConstant (t : ℕ) : Word :=
  fractionWord ((Nat.nth Nat.Prime t : ℝ) ^ ((3 : ℕ) : ℝ)⁻¹)

/-- The words a hash begins with, from the square roots of the primes. -/
noncomputable def initialWord (i : ℕ) : Word :=
  fractionWord ((Nat.nth Nat.Prime i : ℝ) ^ ((2 : ℕ) : ℝ)⁻¹)

/-! ## Bits -/

/-- So many bits of a number, first the greatest. -/
def bits (w n : ℕ) : List Bool := (List.range w).map (fun i => n.testBit (w - 1 - i))

/-- The number that a row of bits writes. -/
def value (row : List Bool) : ℕ := row.foldl (fun n b => 2 * n + b.toNat) 0

/-- The word of a row of bits. -/
def wordOf (row : List Bool) : Word := BitVec.ofNat 32 (value row)

/-! ## Preprocessing -/

/-- The zeros that pad a message: the least number of them that leaves room for a
    length of 64 bits in the last block. -/
noncomputable def zeros (length : ℕ) : ℕ := sInf {k | length + 1 + k ≡ 448 [MOD 512]}

/-- A message, a one, zeros and its length. -/
noncomputable def pad (message : List Bool) : List Bool :=
  message ++ [true] ++ List.replicate (zeros message.length) false ++ bits 64 message.length

/-- A word of a block of a padded message. -/
def messageWord (padded : List Bool) (i j : ℕ) : Word :=
  wordOf ((padded.drop (512 * i + 32 * j)).take 32)

/-! ## Hashing -/

/-- The words of a block, spread over the rounds. -/
def schedule (m : ℕ → Word) (t : ℕ) : Word :=
  if t < 16 then m t
  else smallSigma1 (schedule m (t - 2)) + schedule m (t - 7) + smallSigma0 (schedule m (t - 15))
    + schedule m (t - 16)

/-- Eight words. -/
@[ext] structure State where
  a : Word
  b : Word
  c : Word
  d : Word
  e : Word
  f : Word
  g : Word
  h : Word

/-- Two states, word by word. -/
def State.add (s s' : State) : State :=
  ⟨s.a + s'.a, s.b + s'.b, s.c + s'.c, s.d + s'.d, s.e + s'.e, s.f + s'.f, s.g + s'.g, s.h + s'.h⟩

/-- One round, with its constant and its word. -/
def workRound (k w : Word) (s : State) : State :=
  let t1 := s.h + bigSigma1 s.e + ch s.e s.f s.g + k + w
  let t2 := bigSigma0 s.a + maj s.a s.b s.c
  ⟨t1 + t2, s.a, s.b, s.c, s.d + t1, s.e, s.f, s.g⟩

/-- The working variables after so many rounds. -/
noncomputable def workAfter (w : ℕ → Word) (s : State) : ℕ → State
  | 0 => s
  | t + 1 => workRound (roundConstant t) (w t) (workAfter w s t)

noncomputable def initialState : State :=
  ⟨initialWord 0, initialWord 1, initialWord 2, initialWord 3, initialWord 4, initialWord 5,
    initialWord 6, initialWord 7⟩

/-- The value of one block, from the one before. -/
noncomputable def compress (m : ℕ → Word) (s : State) : State :=
  s.add (workAfter (schedule m) s 64)

/-- The value after so many blocks. -/
noncomputable def hashAfter (padded : List Bool) : ℕ → State
  | 0 => initialState
  | i + 1 => compress (messageWord padded i) (hashAfter padded i)

/-- The bits of a state. -/
def State.bits (s : State) : List Bool :=
  [s.a, s.b, s.c, s.d, s.e, s.f, s.g, s.h].flatMap (fun x => QCoreSecureHash.bits 32 x.toNat)

/-- **The digest of a message.** -/
noncomputable def digest (message : List Bool) : List Bool :=
  (hashAfter (pad message) ((pad message).length / 512)).bits

/-! ## Rows of bits -/

@[simp] theorem length_bits (w n : ℕ) : (bits w n).length = w := by
  rw [bits, List.length_map, List.length_range]

/-- More bits are the greater ones and then the lesser. -/
theorem bits_add (v w n : ℕ) : bits (v + w) n = bits v (n / 2 ^ w) ++ bits w n := by
  rw [bits, List.range_add, List.map_append, List.map_map, bits, bits]
  refine congrArg₂ (· ++ ·) (List.map_congr_left fun i hi => ?_) (List.map_congr_left fun i hi => ?_)
  · rw [List.mem_range] at hi
    rw [Nat.testBit_div_two_pow]
    congr 1
    omega
  · rw [List.mem_range] at hi
    rw [Function.comp_apply]
    congr 1
    omega

/-- The bits of a number are those of what is left modulo their power of two. -/
theorem bits_mod {w n m : ℕ} (h : n % 2 ^ w = m % 2 ^ w) : bits w n = bits w m := by
  refine List.map_congr_left fun i hi => ?_
  rw [List.mem_range] at hi
  have hlt : decide (w - 1 - i < w) = true := by simp only [decide_eq_true_eq]; omega
  have hbit := congrArg (Nat.testBit · (w - 1 - i)) h
  simp only [Nat.testBit_mod_two_pow, hlt, Bool.true_and] at hbit
  exact hbit

theorem value_concat (row : List Bool) (b : Bool) : value (row ++ [b]) = 2 * value row + b.toNat := by
  rw [value, List.foldl_append]
  rfl

/-- The value of two rows of bits is that of the first, moved up, and that of the
    second. -/
theorem value_append (xs ys : List Bool) :
    value (xs ++ ys) = value xs * 2 ^ ys.length + value ys := by
  induction ys using List.reverseRecOn with
  | nil => rw [List.append_nil, List.length_nil, pow_zero, mul_one]; rfl
  | append_singleton ys b ih =>
      rw [← List.append_assoc, value_concat, ih, value_concat, List.length_append,
        List.length_singleton, pow_succ]
      ring

/-- **Bits write the number** they are taken of, as far as they go. -/
theorem value_bits (w n : ℕ) : value (bits w n) = n % 2 ^ w := by
  induction w generalizing n with
  | zero => rw [pow_zero, Nat.mod_one]; rfl
  | succ w ih =>
      rw [bits_add w 1, value_append, ih, length_bits, pow_one]
      have hbit : value (bits 1 n) = n % 2 := by
        rw [bits, List.range_one, List.map_singleton]
        show 2 * 0 + (n.testBit 0).toNat = n % 2
        rw [Nat.testBit_zero]
        rcases Nat.mod_two_eq_zero_or_one n with hn | hn
        · rw [hn]; rfl
        · rw [hn]; rfl
      rw [hbit, pow_succ', Nat.mod_mul, add_comm, mul_comm]

/-! ## The words of a schedule -/

theorem schedule_of_lt {m : ℕ → Word} {t : ℕ} (ht : t < 16) : schedule m t = m t := by
  rw [schedule, if_pos ht]

theorem schedule_of_ge {m : ℕ → Word} {t : ℕ} (ht : 16 ≤ t) :
    schedule m t = smallSigma1 (schedule m (t - 2)) + schedule m (t - 7)
      + smallSigma0 (schedule m (t - 15)) + schedule m (t - 16) := by
  rw [schedule, if_neg (Nat.not_lt.mpr ht)]

/-- A schedule goes by the first sixteen words. -/
theorem schedule_congr {m m' : ℕ → Word} (h : ∀ j < 16, m j = m' j) (t : ℕ) :
    schedule m t = schedule m' t := by
  induction t using Nat.strong_induction_on with
  | _ t ih =>
      rcases Nat.lt_or_ge t 16 with ht | ht
      · rw [schedule_of_lt ht, schedule_of_lt ht, h t ht]
      · rw [schedule_of_ge ht, schedule_of_ge ht, ih _ (by omega), ih _ (by omega), ih _ (by omega),
          ih _ (by omega)]

theorem compress_congr {m m' : ℕ → Word} (h : ∀ j < 16, m j = m' j) (s : State) :
    compress m s = compress m' s := by
  rw [compress, compress, funext (schedule_congr h)]

/-! ## Fractions of roots -/

/-- The word of a root, from the two whole numbers that its multiple lies between. -/
theorem fractionWord_root {p n whole k : ℕ} (hn : 0 < n) (hk : k < 2 ^ 32)
    (hlow : (whole * 2 ^ 32 + k) ^ n ≤ p * (2 ^ 32) ^ n)
    (hhigh : p * (2 ^ 32) ^ n < (whole * 2 ^ 32 + k + 1) ^ n) :
    fractionWord ((p : ℝ) ^ (n : ℝ)⁻¹) = BitVec.ofNat 32 k := by
  have hpos : (0 : ℝ) < n := Nat.cast_pos.mpr hn
  have hscale : (0 : ℝ) < 2 ^ 32 := by positivity
  have hle : ((whole : ℝ) * 2 ^ 32 + k) / 2 ^ 32 ≤ (p : ℝ) ^ (n : ℝ)⁻¹ := by
    rw [Real.le_rpow_inv_iff_of_pos (by positivity) (by positivity) hpos, Real.rpow_natCast, div_pow,
      div_le_iff₀ (by positivity)]
    exact_mod_cast hlow
  have hlt : (p : ℝ) ^ (n : ℝ)⁻¹ < ((whole : ℝ) * 2 ^ 32 + k + 1) / 2 ^ 32 := by
    rw [Real.rpow_inv_lt_iff_of_pos (by positivity) (by positivity) hpos, Real.rpow_natCast, div_pow,
      lt_div_iff₀ (by positivity)]
    exact_mod_cast hhigh
  -- from here on only the two bounds of the root count
  generalize (p : ℝ) ^ (n : ℝ)⁻¹ = x at hle hlt
  rw [div_le_iff₀ hscale] at hle
  rw [lt_div_iff₀ hscale] at hlt
  have hk1 : (k : ℝ) + 1 ≤ 2 ^ 32 := by exact_mod_cast hk
  have hk0 : (0 : ℝ) ≤ k := Nat.cast_nonneg k
  have hfract : Int.fract x = x - whole := by
    refine Int.fract_eq_iff.mpr ⟨?_, ?_, whole, by push_cast; ring⟩
    · nlinarith
    · nlinarith
  have hfloor : ⌊(x - whole) * 2 ^ 32⌋₊ = k :=
    (Nat.floor_eq_iff (by nlinarith)).mpr ⟨by linarith, by linarith⟩
  rw [fractionWord, hfract, hfloor]

/-! ## Primes in order -/

/-- A number's place among those of a kind is its place in the row of them. -/
theorem nth_of_filter {P : ℕ → Prop} [DecidablePred P] {n t x : ℕ}
    (h : ((List.range n).filter (P ·))[t]? = some x) : Nat.nth P t = x := by
  induction n with
  | zero => cases h
  | succ n ih =>
      rw [List.range_succ, List.filter_append] at h
      by_cases ht : t < ((List.range n).filter (P ·)).length
      · rw [List.getElem?_append_left ht] at h
        exact ih h
      · rw [List.getElem?_append_right (by omega)] at h
        have hmem := List.mem_of_getElem? h
        rw [List.mem_filter, List.mem_singleton, decide_eq_true_eq] at hmem
        obtain ⟨rfl, hx⟩ := hmem
        have hcount : Nat.count P x = ((List.range x).filter (P ·)).length := by
          rw [Nat.count_eq_card_filter_range]
          rfl
        have hlast : t - ((List.range x).filter (P ·)).length < 1 :=
          (List.getElem?_eq_some_iff.mp h).1.trans_le (List.length_filter_le _ _)
        rw [show t = Nat.count P x by omega]
        exact Nat.nth_count hx

/-- Trial by the numbers below a bound tells the primes below its square. -/
theorem prime_iff_trial {n bound : ℕ} (h : n < bound * bound) :
    n.Prime ↔ 2 ≤ n ∧ ∀ m : ℕ, m < bound → 2 ≤ m ∧ m ∣ n → m = n := by
  constructor
  · intro hn
    refine ⟨hn.two_le, fun m _ ⟨hm, hdvd⟩ => ?_⟩
    exact (hn.eq_one_or_self_of_dvd m hdvd).resolve_left (by omega)
  · rintro ⟨hn, htrial⟩
    by_contra hnot
    have hsq : n.minFac * n.minFac ≤ n := by
      rw [← pow_two]
      exact Nat.minFac_sq_le_self (by omega) hnot
    have hfac := Nat.minFac_prime (show n ≠ 1 by omega)
    have heq := htrial n.minFac (Nat.mul_self_lt_mul_self_iff.mp (hsq.trans_lt h))
      ⟨hfac.two_le, Nat.minFac_dvd n⟩
    exact hnot (heq ▸ hfac)

end QCoreSecureHash
