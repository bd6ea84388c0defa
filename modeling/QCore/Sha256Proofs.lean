import QCore.MnemonicProofs
import QCore.SecureHashProofs

/-! # Phrases are checked by the standard hash

    `sha256` is the secure hash of 256 bits, on every message whose bits the last
    eight bytes of its padding can count.  The proof goes by the parts of the
    function.  The loop of zeros stops where the standard's number of them ends the
    block (`padMessage_eq`, `asBits_paddedMessage`), the list of words that grows to
    sixty four is the standard's recursion (`scheduleOf_getD`), the loop over
    constants and words is its rounds (`foldl_sha256Round`) and the loop over blocks is
    its value after so many of them (`foldl_sha256Block`).

    The table of constants is checked against roots of primes: both are below the
    square of a number that trial goes up to. -/

namespace QCoreSha256

open QCoreByteMemory QCoreRegroup QCoreJson QCoreMnemonic
open QCoreSecureHash hiding initialState

/-! ## Bytes as bits -/

/-- The bits of some bytes. -/
def asBits (data : List UInt8) : List Bool := data.flatMap (fun b => bits 8 b.toNat)

@[simp] theorem asBits_append (data rest : List UInt8) :
    asBits (data ++ rest) = asBits data ++ asBits rest := List.flatMap_append

theorem length_bits_byte (b : UInt8) : (bits 8 b.toNat).length = 8 := length_bits 8 b.toNat

@[simp] theorem length_asBits (data : List UInt8) : (asBits data).length = 8 * data.length :=
  length_flatMap_pieces length_bits_byte data

theorem asBits_drop (data : List UInt8) (k : ℕ) :
    asBits (data.drop k) = (asBits data).drop (8 * k) :=
  (drop_flatMap_pieces length_bits_byte data k).symm

theorem asBits_take (data : List UInt8) (k : ℕ) :
    asBits (data.take k) = (asBits data).take (8 * k) :=
  (take_flatMap_pieces length_bits_byte data k).symm

/-- A number's bytes are its bits. -/
theorem asBits_beBytes (width v : ℕ) : asBits (beBytes width v) = bits (8 * width) v := by
  induction width generalizing v with
  | zero => rfl
  | succ width ih =>
      have hlast : bits 8 (UInt8.ofNat v).toNat = bits 8 v :=
        bits_mod (by rw [UInt8.toNat_ofNat', Nat.mod_mod])
      have hbyte : asBits [UInt8.ofNat v] = bits 8 v := by
        rw [asBits, List.flatMap_singleton, hlast]
      rw [beBytes, asBits_append, ih, hbyte, Nat.mul_succ, bits_add (8 * width) 8]
      rfl

/-- The number that bytes write is the one that their bits write. -/
theorem value_asBits (data : List UInt8) : value (asBits data) = ofBeBytes data := by
  induction data using List.reverseRecOn with
  | nil => rfl
  | append_singleton data b ih =>
      have hbyte : value (asBits [b]) = b.toNat := by
        rw [asBits, List.flatMap_singleton, value_bits]
        exact Nat.mod_eq_of_lt b.toNat_lt
      rw [asBits_append, value_append, ih, hbyte, length_asBits, ofBeBytes, ofBeBytes,
        List.foldl_append]
      rfl

/-- Zero bytes are zero bits. -/
theorem asBits_zeros (n : ℕ) : asBits (List.replicate n 0) = List.replicate (8 * n) false := by
  induction n with
  | zero => rfl
  | succ n ih =>
      have hbyte : bits 8 (0 : UInt8).toNat = List.replicate 8 false := by decide
      rw [List.replicate_succ, asBits, List.flatMap_cons, ← asBits, ih, hbyte,
        List.replicate_append_replicate, Nat.mul_succ, Nat.add_comm]

/-! ## Padding -/

/-- The loop ends at the first length that leaves eight bytes of a block. -/
theorem padMessage_eq {n z : ℕ} {message : List UInt8} (hz : z ≤ n)
    (hend : (message.length + z) % 64 = 56) (hleast : ∀ k < z, (message.length + k) % 64 ≠ 56) :
    padMessage n message = message ++ List.replicate z 0 := by
  induction z generalizing n message with
  | zero =>
      rw [List.replicate_zero, List.append_nil]
      cases n with
      | zero => rfl
      | succ n =>
          rw [Nat.add_zero] at hend
          rw [padMessage, if_neg (not_not_intro hend)]
  | succ z ih =>
      cases n with
      | zero => omega
      | succ n =>
          have hlen : (message ++ [0]).length = message.length + 1 := List.length_append
          have hgo : message.length % 64 ≠ 56 := hleast 0 z.succ_pos
          rw [padMessage, if_pos hgo, ih (Nat.le_of_succ_le_succ hz), List.append_assoc,
            List.replicate_succ, List.singleton_append]
          · rw [hlen]
            omega
          · intro k hk
            have := hleast (k + 1) (by omega)
            rw [hlen]
            omega

/-- The zero bytes that pad so many bytes. -/
def zeroBytes (length : ℕ) : ℕ := (119 - length % 64) % 64

theorem zeroBytes_ends (length : ℕ) : (length + 1 + zeroBytes length) % 64 = 56 := by
  unfold zeroBytes
  omega

theorem zeroBytes_least {length k : ℕ} (hk : k < zeroBytes length) :
    (length + 1 + k) % 64 ≠ 56 := by
  unfold zeroBytes at hk
  omega

/-- The standard pads with seven zeros, that share a byte with the one, and zero bytes. -/
theorem zeros_eq (length : ℕ) : zeros (8 * length) = 7 + 8 * zeroBytes length := by
  refine IsLeast.csInf_eq ⟨?_, fun k hk => ?_⟩
  · have := zeroBytes_ends length
    show (8 * length + 1 + (7 + 8 * zeroBytes length)) % 512 = 448 % 512
    omega
  · have hk : (8 * length + 1 + k) % 512 = 448 % 512 := hk
    unfold zeroBytes
    omega

/-- However often the loop may run, from as often as it has to, it pads alike. -/
theorem padMessage_ends {n : ℕ} (data : List UInt8) (hn : 63 ≤ n) :
    padMessage n (data ++ [0x80]) = data ++ [0x80] ++ List.replicate (zeroBytes data.length) 0 := by
  have hlen : (data ++ [0x80]).length = data.length + 1 := List.length_append
  refine padMessage_eq ?_ ?_ ?_
  · have : zeroBytes data.length < 64 := Nat.mod_lt _ (by decide)
    omega
  · rw [hlen]
    exact zeroBytes_ends data.length
  · rw [hlen]
    exact fun k hk => zeroBytes_least hk

theorem paddedMessage_eq (data : List UInt8) :
    paddedMessage data = data ++ [0x80] ++ List.replicate (zeroBytes data.length) 0
      ++ beBytes 8 (data.length * 8) := by
  rw [paddedMessage, padMessage_ends data (by decide)]

/-- The padding makes whole blocks. -/
theorem length_paddedMessage (data : List UInt8) : (paddedMessage data).length % 64 = 0 := by
  have := zeroBytes_ends data.length
  rw [paddedMessage_eq, List.length_append, List.length_append, List.length_append,
    List.length_singleton, List.length_replicate, length_beBytes]
  omega

/-- **The padding is the standard's.** -/
theorem asBits_paddedMessage (data : List UInt8) :
    asBits (paddedMessage data) = pad (asBits data) := by
  have hone : asBits [0x80] = [true] ++ List.replicate 7 false := by decide
  rw [paddedMessage_eq, asBits_append, asBits_append, asBits_append, asBits_zeros, hone,
    asBits_beBytes, pad, length_asBits, zeros_eq, List.replicate_add, Nat.mul_comm data.length]
  simp only [List.append_assoc]

/-! ## Constants -/

/-- The primes of the rounds, told by trial. -/
def roundPrimes : List ℕ :=
  (List.range 312).filter (fun n : ℕ => decide (2 ≤ n ∧ ∀ m : ℕ, m < 18 → 2 ≤ m ∧ m ∣ n → m = n))

theorem roundPrimes_eq : roundPrimes = (List.range 312).filter (Nat.Prime ·) := by
  refine List.filter_congr fun n hn => ?_
  rw [List.mem_range] at hn
  rw [decide_eq_decide, prime_iff_trial (show n < 18 * 18 by omega)]

/-- Every word of a table is that of the root of the prime in its place. -/
def OfRoots (n : ℕ) (table : List UInt32) : Prop :=
  ∀ t : Fin table.length, ∃ p ∈ roundPrimes[t.val]?, ∃ whole : Fin 7,
    (whole.val * 2 ^ 32 + (table.get t).toNat) ^ n ≤ p * (2 ^ 32) ^ n
      ∧ p * (2 ^ 32) ^ n < (whole.val * 2 ^ 32 + (table.get t).toNat + 1) ^ n

instance (n : ℕ) (table : List UInt32) : Decidable (OfRoots n table) :=
  inferInstanceAs (Decidable (∀ t : Fin table.length, ∃ p ∈ roundPrimes[t.val]?, ∃ whole : Fin 7,
    (whole.val * 2 ^ 32 + (table.get t).toNat) ^ n ≤ p * (2 ^ 32) ^ n
      ∧ p * (2 ^ 32) ^ n < (whole.val * 2 ^ 32 + (table.get t).toNat + 1) ^ n))

/-- A word of such a table is made of the fraction of a root. -/
theorem OfRoots.toBitVec {n : ℕ} {table : List UInt32} (h : OfRoots n table) (hn : 0 < n)
    (t : Fin table.length) :
    (table.get t).toBitVec = fractionWord ((Nat.nth Nat.Prime t : ℝ) ^ (n : ℝ)⁻¹) := by
  obtain ⟨p, hp, whole, hlow, hhigh⟩ := h t
  rw [roundPrimes_eq] at hp
  rw [nth_of_filter hp, fractionWord_root hn (table.get t).toNat_lt hlow hhigh]
  rw [← UInt32.toNat_toBitVec, BitVec.ofNat_toNat, BitVec.setWidth_eq]

/-- **The constants of the rounds** are the standard's. -/
theorem roundConstants_toBitVec (t : Fin roundConstants.length) :
    (roundConstants.get t).toBitVec = roundConstant t :=
  OfRoots.toBitVec (by decide +kernel) (by decide) t

/-! ## Words -/

/-- A rotation of words is one of bits. -/
theorem toBitVec_rotateRight {n : UInt32} (x : UInt32) (hpos : 0 < n.toNat) (hlt : n.toNat < 32) :
    (rotateRight x n).toBitVec = rotr n.toNat x.toBitVec := by
  have hdown : (n.toBitVec % 32).toNat = n.toNat := Nat.mod_eq_of_lt hlt
  have hle : n ≤ 32 := UInt32.le_iff_toNat_le.mpr hlt.le
  have hup : ((32 - n).toBitVec % 32).toNat = 32 - n.toNat := by
    show (32 - n).toNat % 32 = 32 - n.toNat
    rw [UInt32.toNat_sub_of_le _ _ hle]
    exact Nat.mod_eq_of_lt (Nat.sub_lt (by decide) hpos)
  rw [rotateRight, rotr, BitVec.rotateRight_def, UInt32.toBitVec_or, UInt32.toBitVec_shiftRight,
    UInt32.toBitVec_shiftLeft, BitVec.ushiftRight_eq', BitVec.shiftLeft_eq', hdown, hup,
    Nat.mod_eq_of_lt hlt]

/-- Two rotations and a third word, as every mixing of a word has them. -/
theorem toBitVec_mix {n m : UInt32} (x y : UInt32) (hn : 0 < n.toNat ∧ n.toNat < 32)
    (hm : 0 < m.toNat ∧ m.toNat < 32) :
    (rotateRight x n ^^^ rotateRight x m ^^^ y).toBitVec
      = rotr n.toNat x.toBitVec ^^^ rotr m.toNat x.toBitVec ^^^ y.toBitVec := by
  rw [UInt32.toBitVec_xor, UInt32.toBitVec_xor, toBitVec_rotateRight x hn.1 hn.2,
    toBitVec_rotateRight x hm.1 hm.2]

theorem toBitVec_bigSigma0 (x : UInt32) :
    (rotateRight x 2 ^^^ rotateRight x 13 ^^^ rotateRight x 22).toBitVec = bigSigma0 x.toBitVec := by
  rw [toBitVec_mix x _ (by decide) (by decide), toBitVec_rotateRight x (by decide) (by decide)]
  rfl

theorem toBitVec_bigSigma1 (x : UInt32) :
    (rotateRight x 6 ^^^ rotateRight x 11 ^^^ rotateRight x 25).toBitVec = bigSigma1 x.toBitVec := by
  rw [toBitVec_mix x _ (by decide) (by decide), toBitVec_rotateRight x (by decide) (by decide)]
  rfl

theorem toBitVec_smallSigma0 (x : UInt32) :
    (rotateRight x 7 ^^^ rotateRight x 18 ^^^ x >>> 3).toBitVec = smallSigma0 x.toBitVec := by
  rw [toBitVec_mix x _ (by decide) (by decide)]
  rfl

theorem toBitVec_smallSigma1 (x : UInt32) :
    (rotateRight x 17 ^^^ rotateRight x 19 ^^^ x >>> 10).toBitVec = smallSigma1 x.toBitVec := by
  rw [toBitVec_mix x _ (by decide) (by decide)]
  rfl

/-! ## The schedule -/

/-- A list of words is as much of a schedule as it is long. -/
def Spreads (m : ℕ → Word) (ws : List UInt32) : Prop :=
  ∀ t < ws.length, (ws.getD t 0).toBitVec = schedule m t

/-- One more word of the loop is one more word of the recursion. -/
theorem spreads_scheduleStep {m : ℕ → Word} {ws : List UInt32} (h : Spreads m ws)
    (hlen : 16 ≤ ws.length) :
    Spreads m (scheduleStep ws ws.length) ∧ (scheduleStep ws ws.length).length = ws.length + 1 := by
  refine ⟨fun t ht => ?_, List.length_append⟩
  rw [scheduleStep, List.length_append, List.length_singleton] at ht
  rcases Nat.lt_succ_iff_lt_or_eq.mp ht with ht | rfl
  · rw [scheduleStep, List.getD_append _ _ _ _ ht]
    exact h t ht
  · rw [scheduleStep, List.getD_append_right _ _ _ _ le_rfl, Nat.sub_self, schedule_of_ge hlen,
      ← h _ (by omega), ← h _ (by omega), ← h _ (by omega), ← h _ (by omega),
      ← toBitVec_smallSigma0, ← toBitVec_smallSigma1]
    simp only [List.getD_cons_zero, UInt32.toBitVec_add]
    ac_rfl

/-- The words are spread one by one. -/
theorem spreads_foldl {m : ℕ → Word} {ws : List UInt32} (h : Spreads m ws) (hlen : ws.length = 16)
    (n : ℕ) :
    Spreads m ((List.range' 16 n).foldl scheduleStep ws)
      ∧ ((List.range' 16 n).foldl scheduleStep ws).length = 16 + n := by
  induction n with
  | zero => exact ⟨h, hlen⟩
  | succ n ih =>
      obtain ⟨hspreads, hn⟩ := ih
      have hstep := spreads_scheduleStep hspreads (by omega)
      rw [hn] at hstep
      rw [List.range'_concat, List.foldl_append, Nat.one_mul]
      exact hstep

/-- The words that a block of so many bytes holds. -/
def blockWord (block : List UInt8) (j : ℕ) : Word :=
  BitVec.ofNat 32 (ofBeBytes ((block.drop (4 * j)).take 4))

/-- **The sixty four words of a block** are the standard's recursion over its words. -/
theorem spreads_scheduleOf {block : List UInt8} (hblock : block.length = 64) :
    Spreads (blockWord block) (scheduleOf block) ∧ (scheduleOf block).length = 64 := by
  rw [scheduleOf, chunks_eq_range (by decide) (show block.length = 4 * 16 from hblock), List.map_map]
  refine spreads_foldl (fun t ht => ?_) (by rw [List.length_map, List.length_range]) 48
  rw [List.length_map, List.length_range] at ht
  rw [List.getD_eq_getElem _ _ (by rwa [List.length_map, List.length_range]), List.getElem_map,
    List.getElem_range, schedule_of_lt ht]
  rfl

/-! ## Rounds and blocks -/

/-- The words of a digest in progress, as the standard has them. -/
def words (s : Sha256State) : State :=
  ⟨s.a.toBitVec, s.b.toBitVec, s.c.toBitVec, s.d.toBitVec, s.e.toBitVec, s.f.toBitVec,
    s.g.toBitVec, s.h.toBitVec⟩

/-- **The words a hash begins with** are the standard's. -/
theorem words_initialState : words QCoreMnemonic.initialState = QCoreSecureHash.initialState := by
  have htable : OfRoots 2 [0x6a09e667, 0xbb67ae85, 0x3c6ef372, 0xa54ff53a, 0x510e527f, 0x9b05688c,
      0x1f83d9ab, 0x5be0cd19] := by decide +kernel
  exact State.ext (htable.toBitVec two_pos 0) (htable.toBitVec two_pos 1)
    (htable.toBitVec two_pos 2) (htable.toBitVec two_pos 3) (htable.toBitVec two_pos 4)
    (htable.toBitVec two_pos 5) (htable.toBitVec two_pos 6) (htable.toBitVec two_pos 7)

/-- A round of the loop is a round of the standard. -/
theorem words_sha256Round (s : Sha256State) (k w : UInt32) :
    words (sha256Round s (k, w)) = workRound k.toBitVec w.toBitVec (words s) := by
  rcases s with ⟨a, b, c, d, e, f, g, h⟩
  simp only [sha256Round, words, workRound, ← toBitVec_bigSigma0, ← toBitVec_bigSigma1]
  rfl

/-- So many rounds of the loop are so many of the standard. -/
theorem foldl_sha256Round {m : ℕ → Word} {ws : List UInt32} (h : Spreads m ws)
    (hlen : ws.length = 64) (s : Sha256State) {t : ℕ} (ht : t ≤ 64) :
    words (((roundConstants.zip ws).take t).foldl sha256Round s)
      = workAfter (schedule m) (words s) t := by
  induction t with
  | zero => rfl
  | succ t ih =>
      have hconst : t < roundConstants.length := ht
      have hws : t < ws.length := by omega
      have hzip : t < (roundConstants.zip ws).length := by
        rw [List.length_zip, hlen]
        exact ht
      have hword : ws[t].toBitVec = schedule m t := by
        rw [← h t hws, List.getD_eq_getElem _ _ hws]
      rw [← List.take_concat_get' _ _ hzip, List.foldl_append, List.foldl_cons, List.foldl_nil,
        List.getElem_zip, words_sha256Round, ih (by omega), hword, workAfter]
      exact congrArg (workRound · _ _) (roundConstants_toBitVec ⟨t, hconst⟩)

/-- A block of the loop is a block of the standard. -/
theorem words_sha256Block (s : Sha256State) {block : List UInt8} (hblock : block.length = 64) :
    words (sha256Block s block) = compress (blockWord block) (words s) := by
  obtain ⟨hspreads, hlen⟩ := spreads_scheduleOf hblock
  have hall : (roundConstants.zip (scheduleOf block)).length ≤ 64 := by
    rw [List.length_zip, hlen]
    exact min_le_right _ _
  have hrounds := foldl_sha256Round hspreads hlen s le_rfl
  rw [List.take_of_length_le hall] at hrounds
  rw [compress, ← hrounds, sha256Block]
  generalize (roundConstants.zip (scheduleOf block)).foldl sha256Round s = w
  rfl

/-- The words of a block of bytes are those of its bits. -/
theorem blockWord_eq (padded : List UInt8) (i : ℕ) {j : ℕ} (hj : j < 16) :
    blockWord ((padded.drop (64 * i)).take 64) j = messageWord (asBits padded) i j := by
  have hbits : (((padded.drop (64 * i)).take 64).drop (4 * j)).take 4
      = (padded.drop (64 * i + 4 * j)).take 4 := by
    rw [List.drop_take, List.take_take, List.drop_drop, min_eq_left (by omega)]
  rw [blockWord, hbits, messageWord, wordOf, ← value_asBits, asBits_take, asBits_drop,
    Nat.mul_add, ← Nat.mul_assoc, ← Nat.mul_assoc]

/-- So many blocks of the loop are so many of the standard. -/
theorem foldl_sha256Block {padded : List UInt8} {n : ℕ} (hlen : padded.length = 64 * n) {i : ℕ}
    (hi : i ≤ n) :
    words (((List.range i).map (fun j => (padded.drop (64 * j)).take 64)).foldl sha256Block
      QCoreMnemonic.initialState) = hashAfter (asBits padded) i := by
  induction i with
  | zero => exact words_initialState
  | succ i ih =>
      have hblock : ((padded.drop (64 * i)).take 64).length = 64 := by
        rw [List.length_take, List.length_drop]
        omega
      rw [List.range_succ, List.map_append, List.map_singleton, List.foldl_append, List.foldl_cons,
        List.foldl_nil, words_sha256Block _ hblock, ih (by omega), hashAfter]
      exact compress_congr (fun j hj => blockWord_eq padded i hj) _

/-! ## The digest -/

theorem asBits_word (x : UInt32) : asBits (beBytes 4 x.toNat) = bits 32 x.toBitVec.toNat :=
  asBits_beBytes 4 x.toNat

/-- The bits of a digest are those of the value after the last block. -/
theorem asBits_sha256 (data : List UInt8) :
    asBits (sha256 data).val
      = (words ((chunks 64 (paddedMessage data)).foldl sha256Block QCoreMnemonic.initialState)).bits := by
  simp only [sha256, asBits_append, asBits_word, words, State.bits, List.flatMap_cons,
    List.flatMap_nil, List.append_nil, List.append_assoc]

/-- **The hash is the standard's** on every message whose bits eight bytes can count:
    the loop that pads it stops, however often beyond that it may run, the padding is
    whole blocks with the number of bits at the end, and schedules, rounds and digest are
    the ones that the standard defines. -/
theorem sha256_is_the_standard (data : List UInt8) (h : data.length < 2 ^ 61) :
    (∀ n, 63 ≤ n → padMessage n (data ++ [0x80]) = padMessage 64 (data ++ [0x80]))
      ∧ (padMessage 64 (data ++ [0x80])).length % 64 = 56
      ∧ (paddedMessage data).length % 64 = 0
      ∧ ofBeBytes ((paddedMessage data).drop ((paddedMessage data).length - 8)) = 8 * data.length
      ∧ asBits (paddedMessage data) = pad (asBits data)
      ∧ (∀ block ∈ chunks 64 (paddedMessage data), (scheduleOf block).length = 64
        ∧ (∀ t < 64, ((scheduleOf block).getD t 0).toBitVec = schedule (blockWord block) t)
        ∧ ∀ s, words (sha256Block s block) = compress (blockWord block) (words s))
      ∧ asBits (sha256 data).val = digest (asBits data) := by
  have hpad := padMessage_ends data (show 63 ≤ 64 by decide)
  have hwhole := length_paddedMessage data
  obtain ⟨count, hcount⟩ := Nat.dvd_of_mod_eq_zero hwhole
  refine ⟨fun n hn => (padMessage_ends data hn).trans hpad.symm, ?_, hwhole, ?_,
    asBits_paddedMessage data, fun block hblock => ?_, ?_⟩
  · have := zeroBytes_ends data.length
    rw [hpad, List.length_append, List.length_append, List.length_singleton, List.length_replicate]
    exact this
  · have hlast : (paddedMessage data).drop ((paddedMessage data).length - 8)
        = beBytes 8 (data.length * 8) := by
      refine List.drop_left' ?_
      rw [paddedMessage, List.length_append, length_beBytes, Nat.add_sub_cancel]
    rw [hlast, ofBeBytes_beBytes, Nat.mod_eq_of_lt (by omega), Nat.mul_comm]
  · have hlen : block.length = 64 := by
      rw [chunks_eq_range (by decide) hcount] at hblock
      obtain ⟨i, hi, rfl⟩ := List.mem_map.mp hblock
      rw [List.mem_range] at hi
      rw [List.length_take, List.length_drop]
      omega
    obtain ⟨hspreads, hwords⟩ := spreads_scheduleOf hlen
    exact ⟨hwords, fun t ht => hspreads t (by omega), fun s => words_sha256Block s hlen⟩
  · have hblocks : (asBits (paddedMessage data)).length / 512 = count := by
      rw [length_asBits, hcount]
      omega
    rw [asBits_sha256, chunks_eq_range (by decide) hcount, foldl_sha256Block hcount le_rfl, digest,
      ← asBits_paddedMessage, hblocks]

/-- The standard's digest of three letters, by running the code. -/
theorem sha256_is_the_standard_abc :
    digest (asBits (asBytes "abc")) = asBits
      [0xba, 0x78, 0x16, 0xbf, 0x8f, 0x01, 0xcf, 0xea, 0x41, 0x41, 0x40, 0xde, 0x5d, 0xae, 0x22,
        0x23, 0xb0, 0x03, 0x61, 0xa3, 0x96, 0x17, 0x7a, 0x9c, 0xb4, 0x10, 0xff, 0x61, 0xf2, 0x00,
        0x15, 0xad] := by
  obtain ⟨-, -, -, -, -, -, hdigest⟩ := sha256_is_the_standard (asBytes "abc") (by decide +kernel)
  rw [← hdigest]
  exact congrArg asBits (by decide +kernel)

end QCoreSha256
