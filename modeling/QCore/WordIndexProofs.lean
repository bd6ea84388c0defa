import Mathlib
import QCore.ByteMemoryProofs
import QCore.JsonProofs
import QCore.WireProofs
import QCore.MnemonicProofs

/-! # Looking a word up without a branch

    The lookup goes over the whole list and compares the first bytes of every
    candidate with those of the word, padded with zeros, so that its time does not
    tell which word it is.  It is exact all the same
    (`word_index_is_plain_lookup`): a word that is longer than the window does not
    fit, one that only looks alike when it is padded has another length, and of
    words that are distinct at most one leaves its index. -/

namespace QCoreWordIndex

open QCoreByteMemory QCoreJson QCoreWire QCoreMnemonic

/-! ## The comparison -/

/-- Nothing differs where no two bytes do. -/
theorem foldl_or_eq_zero {pairs : List (UInt8 × UInt8)} {diff : UInt8} :
    pairs.foldl (fun diff bytes => diff ||| (bytes.1 ^^^ bytes.2)) diff = 0
      ↔ diff = 0 ∧ ∀ bytes ∈ pairs, bytes.1 = bytes.2 := by
  induction pairs generalizing diff with
  | nil => simp
  | cons bytes rest ih =>
      rw [List.foldl_cons, ih, UInt8.or_eq_zero_iff, UInt8.xor_eq_zero_iff, List.forall_mem_cons,
        and_assoc]

/-- The borrow of a difference that is zero, and none of any other. -/
theorem borrow_eq (diff : UInt8) :
    ((diff.toUInt16 - 1) >>> 8).toUInt8 &&& 1 = if diff = 0 then 1 else 0 := by
  refine byte_below diff diff.toNat_lt ?_
  decide +kernel

theorem length_padded (word : String) : (padded word).length = wordWidth := by
  rw [padded, List.length_take, List.length_append, List.length_replicate]
  omega

theorem take_padded {word : String} (hshort : (asBytes word).length ≤ wordWidth) :
    (padded word).take (asBytes word).length = asBytes word := by
  rw [padded, List.take_take, min_eq_left hshort, List.take_left]

/-- Short words with one length and the same padded bytes are one word. -/
theorem padded_inj {candidate word : String} (hshort : (asBytes candidate).length ≤ wordWidth)
    (hlen : (asBytes candidate).length = (asBytes word).length)
    (h : padded candidate = padded word) : candidate = word := by
  have hbytes := take_padded hshort
  rw [h, hlen, take_padded (hlen ▸ hshort)] at hbytes
  exact (asBytes_inj hbytes).symm

/-- **The comparison is exact** for a candidate that is short. -/
theorem equalWords_eq {candidate : String} (hshort : (asBytes candidate).length ≤ wordWidth)
    (word : String) : equalWords candidate word = if candidate = word then 1 else 0 := by
  rw [equalWords, borrow_eq]
  refine if_congr ?_ rfl rfl
  rw [foldl_or_eq_zero]
  constructor
  · rintro ⟨hunequal, hpairs⟩
    have hlen : (asBytes candidate).length = (asBytes word).length := by
      by_contra hne
      rw [if_pos hne] at hunequal
      exact absurd hunequal (by decide)
    refine padded_inj hshort hlen (List.ext_getElem ?_ ?_)
    · rw [length_padded, length_padded]
    · intro i hi hi'
      refine hpairs _ (List.mem_iff_getElem.mpr ⟨i, ?_, List.getElem_zip⟩)
      rw [List.length_zip]
      exact lt_min hi hi'
  · rintro rfl
    refine ⟨if_neg (not_not.mpr rfl), ?_⟩
    intro bytes hbytes
    obtain ⟨i, hi, rfl⟩ := List.mem_iff_getElem.mp hbytes
    rw [List.getElem_zip]

/-! ## The lookup -/

/-- Candidates that are not the word leave what was seen. -/
theorem foldl_lookAt_other {word : String} {words : List String}
    (h : ∀ candidate ∈ words, equalWords candidate word = 0) (n : ℕ) (seen : UInt64 × UInt8) :
    (words.zipIdx n).foldl (lookAt word) seen = seen := by
  induction words generalizing n with
  | nil => rfl
  | cons candidate rest ih =>
      have hother : lookAt word seen (candidate, n) = seen := by
        rw [lookAt, h candidate List.mem_cons_self]
        simp
      rw [List.zipIdx_cons, List.foldl_cons, hother]
      exact ih (fun other hmem => h other (List.mem_cons_of_mem _ hmem)) (n + 1)

theorem lookAt_word {word : String} {n : ℕ} (h : equalWords word word = 1) :
    lookAt word (0, 0) (word, n) = (UInt64.ofNat n, 1) := by
  rw [lookAt, h]
  simp

section

variable {words : List String}

/-- **The lookup finds a word at its place** and nothing else anywhere. -/
theorem wordIndex_iff (hfits : words.length ≤ 18446744073709551616) (hnodup : words.Nodup)
    (hshort : ∀ candidate ∈ words, (asBytes candidate).length ≤ wordWidth) (word : String) (i : ℕ) :
    wordIndex words word = some i ↔ words[i]? = some word := by
  have hequal : ∀ candidate ∈ words,
      equalWords candidate word = if candidate = word then 1 else 0 := fun candidate hmem =>
    equalWords_eq (hshort candidate hmem) word
  by_cases hmem : word ∈ words
  · obtain ⟨before, after, rfl⟩ := List.append_of_mem hmem
    have hapart := hnodup
    rw [List.nodup_append, List.nodup_cons] at hapart
    obtain ⟨-, ⟨hafter, -⟩, hapart⟩ := hapart
    have hbefore : ∀ candidate ∈ before, equalWords candidate word = 0 := fun candidate hc => by
      rw [hequal candidate (List.mem_append_left _ hc), if_neg]
      exact hapart candidate hc word List.mem_cons_self
    have hrest : ∀ candidate ∈ after, equalWords candidate word = 0 := fun candidate hc => by
      rw [hequal candidate (List.mem_append_right _ (List.mem_cons_of_mem _ hc)), if_neg]
      rintro rfl
      exact hafter hc
    have hself : equalWords word word = 1 := by rw [hequal word hmem, if_pos rfl]
    have hlt : before.length < (before ++ word :: after).length := by
      rw [List.length_append, List.length_cons]
      omega
    have hfound : wordIndex (before ++ word :: after) word = some before.length := by
      rw [wordIndex, List.zipIdx_append, List.zipIdx_cons, List.foldl_append,
        foldl_lookAt_other hbefore, List.foldl_cons, Nat.zero_add, lookAt_word hself,
        foldl_lookAt_other hrest]
      show (if (1 : UInt8) = 1 ∧ _ then some (UInt64.ofNat before.length).toNat else none) = _
      rw [if_pos ⟨rfl, hshort word hmem⟩, UInt64.toNat_ofNat',
        Nat.mod_eq_of_lt (lt_of_lt_of_le hlt hfits)]
    have hplace : (before ++ word :: after)[before.length]? = some word := by
      rw [List.getElem?_append_right le_rfl, Nat.sub_self]
      rfl
    rw [hfound, Option.some.injEq]
    constructor
    · rintro rfl
      exact hplace
    · intro hi
      exact (List.getElem?_inj hlt hnodup).mp (hplace.trans hi.symm)
  · have hnone : ∀ candidate ∈ words, equalWords candidate word = 0 := fun candidate hc => by
      rw [hequal candidate hc, if_neg]
      rintro rfl
      exact hmem hc
    rw [wordIndex, foldl_lookAt_other hnone]
    refine iff_of_false ?_ (fun hi => hmem (List.mem_of_getElem? hi))
    simp

/-- **The lookup is the plain one**: of a word in the list its index, and of another
    nothing.  A list has no more words than a 64-bit index can tell apart. -/
theorem word_index_is_plain_lookup (hfits : words.length ≤ 18446744073709551616)
    (hnodup : words.Nodup)
    (hshort : ∀ candidate ∈ words, (asBytes candidate).length ≤ wordWidth) (word : String) :
    wordIndex words word = words.idxOf? word
      ∧ (∀ i, wordIndex words word = some i ↔ words[i]? = some word)
      ∧ (wordIndex words word = none ↔ word ∉ words) := by
  have hplain : wordIndex words word = words.idxOf? word := by
    refine Option.ext fun i => ?_
    rw [wordIndex_iff hfits hnodup hshort, List.idxOf?_eq_some_iff, List.getElem?_eq_some_iff]
    refine exists_congr fun hi => ?_
    constructor
    · rintro rfl
      refine ⟨rfl, fun j hj heq => ?_⟩
      exact hj.ne ((List.Nodup.getElem_inj_iff hnodup).mp heq)
    · exact fun h => h.1
  refine ⟨hplain, wordIndex_iff hfits hnodup hshort word, ?_⟩
  rw [hplain]
  exact List.idxOf?_eq_none_iff

end

/-- A word with a zero byte at its end is not the word without it. -/
theorem word_index_is_plain_lookup_padded : wordIndex ["abandon", "ability"] "ability\x00" = none :=
  (word_index_is_plain_lookup (by decide) (by decide) (by decide) "ability\x00").2.2.mpr (by decide)

end QCoreWordIndex
