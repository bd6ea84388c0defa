import Mathlib
import QCore.MachineIntProofs
import QCore.ByteMemoryProofs
import QCore.FallibleProofs
import QCore.JsonProofs
import QCore.WireProofs
import QCore.CratesProofs
import QCore.ContractProofs
import QCore.RegroupProofs
import QCore.MnemonicProofs
import QCore.WordIndexProofs

/-! # A recovery phrase and its seed

    `seed_from_mnemonic_iff` says which phrases restore a seed: those whose words,
    once folded, are the words the seed is written in.  The lookup is exact
    although it does not branch (`wordIndex_iff`), a phrase is split into the words
    it was joined from (`splitWhitespace_foldl`), and the bits of the words are
    those of the seed and its checksum (`restores_iff`). -/

namespace QCoreMnemonicRoundTrip

open QCoreMachineInt QCoreByteMemory QCoreFallible QCoreJson QCoreWire QCoreCrates
  QCoreContract QCoreRegroup QCoreMnemonic QCoreWordIndex

/-! ## Joining and splitting -/

/-- A word as a list has it: not empty, of lowercase letters. -/
def IsWord (word : String) : Prop := word ≠ "" ∧ ∀ c ∈ word.toList, 'a' ≤ c ∧ c ≤ 'z'

theorem letter_toNat {c : Char} (h : 'a' ≤ c ∧ c ≤ 'z') : 97 ≤ c.toNat ∧ c.toNat ≤ 122 := h

theorem letter_not_whitespace {c : Char} (h : 'a' ≤ c ∧ c ≤ 'z') : isWhitespace c = false := by
  have := letter_toNat h
  simp [isWhitespace]
  omega

/-- A text is split at a space. -/
theorem splitWhitespace_space (text word : String) :
    splitWhitespace (text.push ' ' ++ word) = splitWhitespace text ++ splitWhitespace word := by
  have hchars : (text.push ' ' ++ word).toList = text.toList ++ ' ' :: word.toList := by
    rw [String.toList_append, String.toList_push, List.append_assoc]
    rfl
  rw [splitWhitespace, hchars, List.splitOnP_append_cons _ _ rfl, List.filter_append,
    List.map_append]
  rfl

theorem splitWhitespace_word {word : String} (h : IsWord word) : splitWhitespace word = [word] := by
  rw [splitWhitespace, List.splitOnP_eq_singleton (fun c hc => letter_not_whitespace (h.2 c hc)),
    List.filter_cons_of_pos, List.filter_nil, List.map_singleton, String.ofList_toList]
  simpa using h.1

/-- A word that is pushed is split off again. -/
theorem splitWhitespace_pushWord {word : String} (h : IsWord word) (phrase : String) :
    splitWhitespace (pushWord phrase word) = splitWhitespace phrase ++ [word] := by
  rw [pushWord]
  split
  · next hempty =>
      rw [hempty, String.empty_append, splitWhitespace_word h]
      rfl
  · rw [splitWhitespace_space, splitWhitespace_word h]

/-- **A phrase is split into the words it was joined from.** -/
theorem splitWhitespace_foldl {words : List String} (h : ∀ word ∈ words, IsWord word)
    (phrase : String) :
    splitWhitespace (words.foldl pushWord phrase) = splitWhitespace phrase ++ words := by
  induction words generalizing phrase with
  | nil => rw [List.foldl_nil, List.append_nil]
  | cons word rest ih =>
      rw [List.foldl_cons, ih (fun other hmem => h other (List.mem_cons_of_mem _ hmem)),
        splitWhitespace_pushWord (h word List.mem_cons_self), List.append_assoc]
      rfl

/-- A character that a phrase is written with. -/
def Plain (c : Char) : Prop := c = ' ' ∨ ('a' ≤ c ∧ c ≤ 'z')

/-- A phrase of words is plain. -/
theorem plain_foldl {words : List String} (h : ∀ word ∈ words, IsWord word) {phrase : String}
    (hphrase : ∀ c ∈ phrase.toList, Plain c) :
    ∀ c ∈ (words.foldl pushWord phrase).toList, Plain c := by
  induction words generalizing phrase with
  | nil => exact hphrase
  | cons word rest ih =>
      rw [List.foldl_cons]
      refine ih (fun other hmem => h other (List.mem_cons_of_mem _ hmem)) ?_
      intro c hc
      rw [pushWord, String.toList_append, List.mem_append] at hc
      rcases hc with hc | hc
      · split at hc
        · exact hphrase c hc
        · rw [String.toList_push, List.mem_append, List.mem_singleton] at hc
          exact hc.elim (hphrase c) Or.inl
      · exact Or.inr ((h word List.mem_cons_self).2 c hc)

/-- A plain character is folded to itself. -/
theorem foldChar_plain {toLowercase : Char → List Char} {c : Char} (h : Plain c) :
    foldChar toLowercase c = [c] := by
  have hrange : c.toNat < 128 ∧ ¬ (65 ≤ c.toNat ∧ c.toNat ≤ 90) := by
    rcases h with rfl | hletter
    · decide
    · have := letter_toNat hletter
      omega
  have hlower : c.toLower = c := dif_neg (fun hupper => hrange.2 hupper)
  rw [foldChar, if_pos hrange.1, hlower]

/-- A phrase in lowercase letters and spaces is folded to itself. -/
theorem normalizedPhrase_plain {toLowercase : Char → List Char} {phrase : String}
    (h : ∀ c ∈ phrase.toList, Plain c) : normalizedPhrase toLowercase phrase = phrase := by
  have hchars : phrase.toList.flatMap (foldChar toLowercase) = phrase.toList := by
    rw [List.flatMap_def, List.map_congr_left (fun c hc => foldChar_plain (h c hc))]
    exact List.flatMap_singleton' phrase.toList
  rw [normalizedPhrase, hchars, String.ofList_toList]

/-! ## Bits of a seed -/

/-- The bits of eleven as an index of the list. -/
abbrev index : Spelling ℕ UInt8 11 := binary 11 (by decide)

theorem isBit_digestBit (digest : Bytes 32) (i : ℕ) : IsBit (digestBit digest i) := by
  rw [isBit_iff, digestBit, UInt8.toNat_and]
  show _ &&& 1 ≤ 1
  rw [Nat.and_one_is_mod]
  omega

section

variable (crates : Crates) (list : WordList) (toLowercase : Char → List Char)
  (seed : Bytes seedLen)

theorem phraseBits_eq : phraseBits crates seed
    = octets.row seed.val ++ (List.range phraseChecksumBits).map (checksumBit crates seed) := rfl

theorem length_phraseBits : (phraseBits crates seed).length = 11 * phraseWords := by
  rw [phraseBits_eq, List.length_append, octets.length_row, seed.property, List.length_map,
    List.length_range]
  rfl

theorem isBit_phraseBits {b : UInt8} (h : b ∈ phraseBits crates seed) : IsBit b := by
  rcases List.mem_append.mp h with h | h
  · exact octets.digit_row h
  · obtain ⟨i, -, rfl⟩ := List.mem_map.mp h
    exact isBit_digestBit _ i

/-- The words a seed is written in. -/
def phraseOf : List String :=
  (index.values (phraseBits crates seed)).map (fun i => list.words.getD i "")

theorem mnemonicFromSeed_eq :
    mnemonicFromSeed crates list seed = (phraseOf crates list seed).foldl pushWord "" := by
  rw [mnemonicFromSeed, phraseOf, Spelling.values, List.map_map]
  rfl

/-- The indices of a seed's words are within the list. -/
theorem indices_spec : (index.values (phraseBits crates seed)).length = phraseWords
    ∧ (∀ i ∈ index.values (phraseBits crates seed), i < 2048)
    ∧ index.row (index.values (phraseBits crates seed)) = phraseBits crates seed :=
  index.exists_values (length_phraseBits crates seed) (fun _ => isBit_phraseBits crates seed)

theorem length_phraseOf : (phraseOf crates list seed).length = phraseWords := by
  rw [phraseOf, List.length_map, (indices_spec crates seed).1]

theorem getElem?_words {i : ℕ} (hi : i < 2048) :
    list.words[i]? = some (list.words.getD i "") := by
  have hlt : i < list.words.length := list.length_words.symm ▸ hi
  rw [List.getD_eq_getElem?_getD, List.getElem?_eq_getElem hlt]
  rfl

theorem isWord_phraseOf {word : String} (h : word ∈ phraseOf crates list seed) : IsWord word := by
  obtain ⟨i, hi, rfl⟩ := List.mem_map.mp h
  have hlt := (indices_spec crates seed).2.1 i hi
  have hmem := List.mem_of_getElem? (getElem?_words list hlt)
  exact ⟨list.nonempty _ hmem, list.lowercase _ hmem⟩

/-- **The words of a seed's phrase**, folded or not. -/
theorem splitWhitespace_mnemonic :
    splitWhitespace (mnemonicFromSeed crates list seed) = phraseOf crates list seed
      ∧ normalizedPhrase toLowercase (mnemonicFromSeed crates list seed)
        = mnemonicFromSeed crates list seed := by
  have hwords : ∀ word ∈ phraseOf crates list seed, IsWord word :=
    fun _ => isWord_phraseOf crates list seed
  rw [mnemonicFromSeed_eq]
  refine ⟨(splitWhitespace_foldl hwords "").trans rfl, normalizedPhrase_plain ?_⟩
  exact plain_foldl hwords (fun c hc => absurd hc List.not_mem_nil)

/-! ## From bits to a seed -/

section

variable {crates seed} {bits : List UInt8}

theorem length_take_seed (hlen : bits.length = 11 * phraseWords) :
    (bits.take (seedLen * 8)).length = 8 * seedLen := by
  rw [List.length_take, hlen]
  rfl

/-- The seed that bits give has the first of them as its own. -/
theorem seedOf_eq_iff (hlen : bits.length = 11 * phraseWords) (hbits : ∀ b ∈ bits, IsBit b) :
    seedOf bits = seed ↔ bits.take (seedLen * 8) = octets.row seed.val := by
  have hfirst : ∀ b ∈ bits.take (seedLen * 8), IsBit b := fun b hb =>
    hbits b (List.mem_of_mem_take hb)
  have hbytes := (octets.exists_values (length_take_seed hlen) hfirst).1
  have hval : (seedOf bits).val = octets.values (bits.take (seedLen * 8)) := List.take_left' hbytes
  rw [← Subtype.coe_inj, hval, eq_comm, @eq_comm _ (bits.take (seedLen * 8)),
    octets.row_eq_iff (fun _ _ => trivial) (length_take_seed hlen) hfirst]

/-- The checksum holds when the last bits are the seed's checksum. -/
theorem checksumHolds_iff (hlen : bits.length = 11 * phraseWords) :
    checksumHolds crates bits seed = true
      ↔ bits.drop (seedLen * 8) = (List.range phraseChecksumBits).map (checksumBit crates seed) := by
  have hrest : (bits.drop (seedLen * 8)).length = phraseChecksumBits := by
    rw [List.length_drop, hlen]
    rfl
  have hget : ∀ i < phraseChecksumBits,
      (bits.drop (seedLen * 8))[i]? = some (bits.getD (seedLen * 8 + i) 0) := by
    intro i hi
    have hlt : seedLen * 8 + i < bits.length := by
      rw [hlen]
      show 32 * 8 + i < 275
      have : i < 19 := hi
      omega
    rw [List.getElem?_drop, List.getD_eq_getElem?_getD, List.getElem?_eq_getElem hlt]
    rfl
  rw [checksumHolds, List.all_eq_true]
  constructor
  · intro h
    refine List.ext_getElem? ?_
    intro i
    by_cases hi : i < phraseChecksumBits
    · have heq := beq_iff_eq.mp (h i (List.mem_range.mpr hi))
      rw [hget i hi, heq, List.getElem?_map, List.getElem?_range hi]
      rfl
    · rw [List.getElem?_eq_none (by omega), List.getElem?_eq_none]
      rw [List.length_map, List.length_range]
      omega
  · intro h i hi
    have hi := List.mem_range.mp hi
    have heq := hget i hi
    rw [h, List.getElem?_map, List.getElem?_range hi] at heq
    exact beq_iff_eq.mpr (Option.some.inj heq).symm

/-- **Bits restore a seed** exactly when they are the seed's bits and its checksum's. -/
theorem restores_iff (hlen : bits.length = 11 * phraseWords) (hbits : ∀ b ∈ bits, IsBit b) :
    (seedOf bits = seed ∧ checksumHolds crates bits (seedOf bits) = true)
      ↔ bits = phraseBits crates seed := by
  constructor
  · rintro ⟨hseed, hchecksum⟩
    rw [hseed] at hchecksum
    rw [← List.take_append_drop (seedLen * 8) bits, (seedOf_eq_iff hlen hbits).mp hseed,
      (checksumHolds_iff hlen).mp hchecksum, phraseBits_eq]
  · intro heq
    have hrow : (octets.row seed.val).length = seedLen * 8 := by
      rw [octets.length_row, seed.property, Nat.mul_comm]
    have htake : bits.take (seedLen * 8) = octets.row seed.val := by
      rw [heq, phraseBits_eq, List.take_left' hrow]
    have hdrop : bits.drop (seedLen * 8)
        = (List.range phraseChecksumBits).map (checksumBit crates seed) := by
      rw [heq, phraseBits_eq, List.drop_left' hrow]
    have hseed := (seedOf_eq_iff hlen hbits).mpr htake
    exact ⟨hseed, hseed ▸ (checksumHolds_iff hlen).mpr hdrop⟩

end

/-! ## Which phrases restore a seed -/

theorem lookup_iff (list : WordList) (word : String) (i : ℕ) :
    wordIndex list.words word = some i ↔ list.words[i]? = some word := by
  refine wordIndex_iff ?_ list.nodup list.short word i
  rw [list.length_words]
  decide

/-- Words are found at indices exactly when they are the words there. -/
theorem lookups_iff {entered : List String} {indices : List ℕ} {refusal : String} :
    List.Forall₂ (fun word i => okOr (wordIndex list.words word) refusal = .ok i) entered indices
      ↔ (∀ i ∈ indices, i < 2048) ∧ entered = indices.map (fun i => list.words.getD i "") := by
  have hone : ∀ word i, okOr (wordIndex list.words word) refusal = .ok i
      ↔ i < 2048 ∧ word = list.words.getD i "" := by
    intro word i
    constructor
    · intro h
      have hget := (lookup_iff list word i).mp (okOr_ok h)
      have hlt : i < 2048 := list.length_words ▸ (List.getElem?_eq_some_iff.mp hget).1
      rw [getElem?_words list hlt] at hget
      exact ⟨hlt, (Option.some.inj hget).symm⟩
    · rintro ⟨hlt, rfl⟩
      rw [(lookup_iff list _ i).mpr (getElem?_words list hlt)]
      rfl
  induction indices generalizing entered with
  | nil => simp
  | cons i rest ih =>
      rw [List.forall₂_cons_right_iff, List.forall_mem_cons, List.map_cons]
      constructor
      · rintro ⟨word, others, hword, hothers, rfl⟩
        obtain ⟨hlt, rfl⟩ := (hone word i).mp hword
        obtain ⟨hrest, rfl⟩ := ih.mp hothers
        exact ⟨⟨hlt, hrest⟩, rfl⟩
      · rintro ⟨⟨hlt, hrest⟩, rfl⟩
        exact ⟨_, _, (hone _ i).mpr ⟨hlt, rfl⟩, ih.mpr ⟨hrest, rfl⟩, rfl⟩

/-- **A phrase restores a seed** exactly when its words are the seed's. -/
theorem seedFromMnemonic_iff (phrase : String) :
    seedFromMnemonic crates list toLowercase phrase = .ok seed
      ↔ splitWhitespace (normalizedPhrase toLowercase phrase) = phraseOf crates list seed := by
  have hbits : ∀ (indices : List ℕ), ∀ b ∈ indices.flatMap (bitsOf 11), IsBit b := fun _ _ =>
    index.digit_row
  have hlen : ∀ {indices : List ℕ}, indices.length = phraseWords →
      (indices.flatMap (bitsOf 11)).length = 11 * phraseWords := fun {indices} h =>
    (index.length_row indices).trans (h ▸ rfl)
  rw [seedFromMnemonic]
  constructor
  · intro h
    obtain ⟨indices, hfound, h⟩ := bind_ok h
    obtain ⟨hcount, h⟩ := guard_ok h
    obtain ⟨hchecksum, h⟩ := guard_ok h
    obtain ⟨hvalid, hentered⟩ := (lookups_iff list).mp (mapM_iff.mp hfound)
    have hwords : indices.length = phraseWords := by
      rw [← not_not.mp hcount, hentered, List.length_map]
    -- the bits are the seed's, so the indices are the seed's
    have hrow := (restores_iff (hlen hwords) (hbits indices)).mp
      ⟨Except.ok.inj h, by simpa using hchecksum⟩
    rw [hentered, phraseOf, ← (index.row_eq_iff hvalid (length_phraseBits crates seed)
      (fun _ => isBit_phraseBits crates seed)).mp hrow]
  · intro hentered
    obtain ⟨hwords, hvalid, hrow⟩ := indices_spec crates seed
    obtain ⟨hseed, hchecksum⟩ := (restores_iff (hlen hwords) (hbits _)).mpr hrow
    refine bind_pass (mapM_iff.mpr ((lookups_iff list).mpr ⟨hvalid, hentered⟩)) ?_
    refine guard_pass (not_not.mpr ?_) (guard_pass ?_ (congrArg Except.ok hseed))
    · rw [hentered, length_phraseOf]
    · rw [hchecksum]
      exact Bool.false_ne_true

/-- **Recovery phrases and seeds.**  A seed's phrase restores the seed, as text and
    as bytes, and a phrase restores a seed exactly when its words, once folded, are
    the twenty five words of the seed's phrase. -/
theorem seed_from_mnemonic_iff :
    (∀ seed, seedFromMnemonic crates list toLowercase (mnemonicFromSeed crates list seed) = .ok seed
      ∧ seedFromMnemonicBytes crates list toLowercase (mnemonicBytesFromSeed crates list seed)
        = .ok seed)
    ∧ ∀ phrase seed, (seedFromMnemonic crates list toLowercase phrase = .ok seed
      ↔ splitWhitespace (normalizedPhrase toLowercase phrase)
        = splitWhitespace (mnemonicFromSeed crates list seed))
      ∧ (splitWhitespace (mnemonicFromSeed crates list seed)).length = 25 := by
  have hrestores : ∀ seed,
      seedFromMnemonic crates list toLowercase (mnemonicFromSeed crates list seed) = .ok seed := by
    intro seed
    obtain ⟨hsplit, hfolded⟩ := splitWhitespace_mnemonic crates list toLowercase seed
    rw [seedFromMnemonic_iff, hfolded, hsplit]
  refine ⟨fun seed => ⟨hrestores seed, ?_⟩, fun phrase seed => ⟨?_, ?_⟩⟩
  · exact value_pass (fromUtf8_asBytes _) (hrestores seed)
  · rw [seedFromMnemonic_iff, (splitWhitespace_mnemonic crates list toLowercase seed).1]
  · rw [(splitWhitespace_mnemonic crates list toLowercase seed).1, length_phraseOf]
    rfl

end

/-! ## A list of words of three letters -/

/-- A letter by its number. -/
def letter (n : ℕ) : Char := Char.ofNat (97 + n)

/-- Three letters that write a number below 2048. -/
def threeLetters (i : ℕ) : List Char := [letter (i / 676), letter (i / 26 % 26), letter (i % 26)]

theorem letter_spec {n : ℕ} (h : n < 26) :
    (letter n).toNat = 97 + n ∧ 'a' ≤ letter n ∧ letter n ≤ 'z' := by
  revert n
  decide

/-- Two numbers have letters of their own. -/
theorem threeLetters_inj {i j : ℕ} (hi : i < 2048) (hj : j < 2048)
    (h : threeLetters i = threeLetters j) : i = j := by
  have hletter : ∀ {m n : ℕ}, m < 26 → n < 26 → letter m = letter n → m = n := by
    intro m n hm hn heq
    have := congrArg Char.toNat heq
    rw [(letter_spec hm).1, (letter_spec hn).1] at this
    omega
  simp only [threeLetters, List.cons.injEq, and_true] at h
  have hfirst := hletter (by omega) (by omega) h.1
  have hsecond := hletter (by omega) (by omega) h.2.1
  have hthird := hletter (by omega) (by omega) h.2.2
  omega

theorem mem_threeLetters {i : ℕ} (hi : i < 2048) {c : Char} (h : c ∈ threeLetters i) :
    'a' ≤ c ∧ c ≤ 'z' := by
  simp only [threeLetters, List.mem_cons, List.not_mem_nil, or_false] at h
  rcases h with rfl | rfl | rfl <;> exact (letter_spec (by omega)).2

/-- A list of words of three letters. -/
def threeLetterWords : WordList where
  words := (List.range 2048).map (fun i => String.ofList (threeLetters i))
  length_words := by rw [List.length_map, List.length_range]
  nodup := by
    refine List.Nodup.map_on ?_ List.nodup_range
    intro i hi j hj h
    exact threeLetters_inj (List.mem_range.mp hi) (List.mem_range.mp hj) (String.ofList_injective h)
  nonempty := by
    rintro word hword rfl
    obtain ⟨i, -, h⟩ := List.mem_map.mp hword
    have := congrArg String.toList h
    rw [String.toList_ofList] at this
    exact absurd this (List.cons_ne_nil _ _)
  lowercase := by
    rintro word hword c hc
    obtain ⟨i, hi, rfl⟩ := List.mem_map.mp hword
    rw [String.toList_ofList] at hc
    exact mem_threeLetters (List.mem_range.mp hi) hc
  short := by
    rintro word hword
    obtain ⟨i, hi, rfl⟩ := List.mem_map.mp hword
    rw [asBytes_ascii, List.length_map]
    · exact (by decide : 3 ≤ 16)
    · intro c hc
      have := letter_toNat (mem_threeLetters (List.mem_range.mp hi) hc)
      omega

/-- With words of three letters each a phrase is read back. -/
theorem seed_from_mnemonic_iff_of_three_letters :
    seedFromMnemonic oneByteCrates threeLetterWords (fun c => [c])
      (mnemonicFromSeed oneByteCrates threeLetterWords ⟨List.replicate 32 0, by decide⟩)
      = .ok ⟨List.replicate 32 0, by decide⟩ :=
  ((seed_from_mnemonic_iff oneByteCrates threeLetterWords (fun c => [c])).1 _).1

end QCoreMnemonicRoundTrip
