import Mathlib

/-! # Text read byte by byte

    A program that holds a text as its UTF-8 bytes and looks at one byte at a
    time sees the ASCII characters of the text exactly where the text has them:
    no byte of a longer character is below 128.  So a scan that stops at an ASCII
    byte stops between two characters, and what it ran over is text again. -/

namespace QCoreUtf8

/-- The UTF-8 bytes of a text. -/
def encode (cs : List Char) : List UInt8 := cs.flatMap String.utf8EncodeChar

@[simp] theorem encode_nil : encode [] = [] := rfl

@[simp] theorem encode_cons (c : Char) (cs : List Char) :
    encode (c :: cs) = String.utf8EncodeChar c ++ encode cs := rfl

@[simp] theorem encode_append (cs ds : List Char) :
    encode (cs ++ ds) = encode cs ++ encode ds := List.flatMap_append

/-- Encoded characters decode to themselves. -/
theorem fromUTF8?_encode (cs : List Char) :
    String.fromUTF8? (encode cs).toByteArray = some (String.ofList cs) := by
  have hv : ByteArray.IsValidUTF8 (encode cs).toByteArray := .intro cs rfl
  rw [String.fromUTF8?, dif_pos hv]
  rfl

/-- A text has at least as many bytes as characters. -/
theorem length_le_length_encode (cs : List Char) : cs.length ≤ (encode cs).length := by
  induction cs with
  | nil => exact Nat.le_refl 0
  | cons c cs ih =>
      have hc : 1 ≤ (String.utf8EncodeChar c).length := by
        rw [String.length_utf8EncodeChar]
        exact Char.utf8Size_pos c
      rw [encode_cons, List.length_append, List.length_cons]
      omega

/-! ## One character -/

/-- A character below 128 is its own byte. -/
theorem utf8EncodeChar_ascii {c : Char} (h : c.toNat < 128) :
    String.utf8EncodeChar c = [UInt8.ofNat c.toNat] := by
  have h' : c.val.toNat ≤ 127 := Nat.le_of_lt_succ h
  simp only [String.utf8EncodeChar, h', if_true]
  rfl

/-- Every byte of a character from 128 on is at least 128. -/
theorem utf8EncodeChar_high {c : Char} (h : 128 ≤ c.toNat) :
    ∀ b ∈ String.utf8EncodeChar c, 0x80 ≤ b := by
  have h' : ¬ c.val.toNat ≤ 127 := Nat.not_le.mpr h
  have hb : ∀ n, 128 ≤ n → n < 256 → (0x80 : UInt8) ≤ UInt8.ofNat n := by
    intro n hlo hhi
    rw [UInt8.le_iff_toNat_le, UInt8.toNat_ofNat', Nat.mod_eq_of_lt hhi]
    exact hlo
  intro b hmem
  simp only [String.utf8EncodeChar, h', if_false] at hmem
  split_ifs at hmem <;> simp only [List.mem_cons, List.not_mem_nil, or_false] at hmem
  · rcases hmem with hm | hm <;> rw [hm] <;> exact hb _ (by omega) (by omega)
  · rcases hmem with hm | hm | hm <;> rw [hm] <;> exact hb _ (by omega) (by omega)
  · rcases hmem with hm | hm | hm | hm <;> rw [hm] <;> exact hb _ (by omega) (by omega)

/-- A character takes at least one byte. -/
theorem utf8EncodeChar_eq_cons (c : Char) :
    ∃ b bs, String.utf8EncodeChar c = b :: bs := by
  cases h : String.utf8EncodeChar c with
  | nil =>
      have hlen := String.length_utf8EncodeChar c
      rw [h] at hlen
      exact absurd hlen (Nat.ne_of_lt (Char.utf8Size_pos c))
  | cons b bs => exact ⟨b, bs, rfl⟩

/-- A byte that is not the first of its character. -/
def Continues (b : UInt8) : Prop := 0x80 ≤ b ∧ b < 0xc0

instance instDecidableContinues (b : UInt8) : Decidable (Continues b) :=
  inferInstanceAs (Decidable (_ ∧ _))

theorem continues_ofNat {n : ℕ} (h : n < 64) : Continues (UInt8.ofNat (n + 128)) := by
  rw [Continues, UInt8.le_iff_toNat_le, UInt8.lt_iff_toNat_lt, UInt8.toNat_ofNat',
    Nat.mod_eq_of_lt (by omega)]
  exact ⟨Nat.le_add_left _ _, Nat.add_lt_add_right h 128⟩

/-- A byte that begins a character does not continue one. -/
theorem not_continues_ofNat {n : ℕ} (h : n < 128 ∨ 192 ≤ n) (hn : n < 256) :
    ¬ Continues (UInt8.ofNat n) := by
  rw [Continues, UInt8.le_iff_toNat_le, UInt8.lt_iff_toNat_lt, UInt8.toNat_ofNat',
    Nat.mod_eq_of_lt hn]
  rintro ⟨hlow, hhigh⟩
  have hlow' : 128 ≤ n := hlow
  have hhigh' : n < 192 := hhigh
  omega

/-- **The first byte of a character** is told from the others. -/
theorem utf8EncodeChar_boundary (c : Char) :
    ∃ b bs, String.utf8EncodeChar c = b :: bs ∧ ¬ Continues b ∧ ∀ b' ∈ bs, Continues b' := by
  have hcontinues : ∀ n, Continues (UInt8.ofNat (n % 0x40 + 0x80)) := fun n =>
    continues_ofNat (Nat.mod_lt _ (by decide))
  simp only [String.utf8EncodeChar]
  split_ifs
  · exact ⟨_, _, rfl, not_continues_ofNat (Or.inl (by omega)) (by omega),
      fun b hb => absurd hb List.not_mem_nil⟩
  · refine ⟨_, _, rfl, not_continues_ofNat (Or.inr (by omega)) (by omega), ?_⟩
    intro b hb
    rw [List.mem_singleton.mp hb]
    exact hcontinues _
  · refine ⟨_, _, rfl, not_continues_ofNat (Or.inr (by omega)) (by omega), ?_⟩
    intro b hb
    simp only [List.mem_cons, List.not_mem_nil, or_false] at hb
    rcases hb with rfl | rfl
    · exact hcontinues _
    · exact hcontinues _
  · refine ⟨_, _, rfl, not_continues_ofNat (Or.inr (by omega)) (by omega), ?_⟩
    intro b hb
    simp only [List.mem_cons, List.not_mem_nil, or_false] at hb
    rcases hb with rfl | rfl | rfl
    · exact hcontinues _
    · exact hcontinues _
    · exact hcontinues _

/-- A text does not begin inside a character. -/
theorem not_continues_head {cs : List Char} {b : UInt8} {rest : List UInt8}
    (h : encode cs = b :: rest) : ¬ Continues b := by
  cases cs with
  | nil => cases h
  | cons c cs =>
      obtain ⟨b', bs, hc, hfirst, -⟩ := utf8EncodeChar_boundary c
      rw [encode_cons, hc, List.cons_append] at h
      rw [← (List.cons.inj h).1]
      exact hfirst

/-- **A position that does not continue a character** is between two of them, or at
    the end. -/
theorem exists_boundary {cs : List Char} {front rest : List UInt8}
    (h : encode cs = front ++ rest) (hrest : ∀ b ∈ rest.head?, ¬ Continues b) :
    ∃ ds es, cs = ds ++ es ∧ front = encode ds ∧ rest = encode es := by
  induction cs generalizing front with
  | nil =>
      obtain ⟨hfront, hrest⟩ := List.append_eq_nil_iff.mp h.symm
      exact ⟨[], [], rfl, hfront, hrest⟩
  | cons c cs ih =>
      obtain ⟨b, bs, hc, -, hlater⟩ := utf8EncodeChar_boundary c
      rw [encode_cons] at h
      rcases List.append_eq_append_iff.mp h with ⟨mid, hfront, hcs⟩ | ⟨mid, hchar, hcs⟩
      · -- the position is behind the character
        obtain ⟨ds, es, rfl, rfl, rfl⟩ := ih hcs
        exact ⟨c :: ds, es, rfl, by rw [hfront, encode_cons], rfl⟩
      · cases front with
        | nil =>
            refine ⟨[], c :: cs, rfl, rfl, ?_⟩
            rw [encode_cons, h]
            rfl
        | cons b' front =>
            cases mid with
            | nil =>
                refine ⟨[c], cs, rfl, ?_, hcs⟩
                rw [encode_cons, encode_nil, List.append_nil, hchar, List.append_nil]
            | cons d mid =>
                -- inside it, where a byte continues it
                exfalso
                refine hrest d (by rw [hcs]; rfl) (hlater d ?_)
                have htail : bs = front ++ (d :: mid) :=
                  (List.cons.inj (hc.symm.trans hchar)).2
                rw [htail]
                exact List.mem_append_right _ List.mem_cons_self

/-- **An ASCII byte at the head of a text is the text's first character.** -/
theorem encode_eq_cons_ascii {cs : List Char} {b : UInt8} {rest : List UInt8} (c : Char)
    (hc : c.toNat < 128) (hb : b = UInt8.ofNat c.toNat) (h : encode cs = b :: rest) :
    ∃ cs', cs = c :: cs' ∧ rest = encode cs' := by
  have hbn : b.toNat = c.toNat := by
    rw [hb, UInt8.toNat_ofNat', Nat.mod_eq_of_lt (by omega)]
  cases cs with
  | nil => cases h
  | cons d ds =>
      rw [encode_cons] at h
      by_cases hd : d.toNat < 128
      · rw [utf8EncodeChar_ascii hd, List.singleton_append] at h
        obtain ⟨hdb, hrest⟩ := List.cons.inj h
        have hdn : d.toNat = c.toNat := by
          rw [← hbn, ← hdb, UInt8.toNat_ofNat', Nat.mod_eq_of_lt (by omega)]
        exact ⟨ds, by rw [Char.toNat_inj.mp hdn], hrest.symm⟩
      · -- the first byte of a longer character is not below 128
        obtain ⟨b', bs, hb'⟩ := utf8EncodeChar_eq_cons d
        have hhigh := utf8EncodeChar_high (Nat.not_lt.mp hd) b' (by rw [hb']; simp)
        rw [hb', List.cons_append] at h
        rw [(List.cons.inj h).1, UInt8.le_iff_toNat_le, hbn] at hhigh
        exact absurd hhigh (Nat.not_le.mpr hc)

/-! ## Scanning for a class of bytes -/

/-- A class of bytes and a class of characters that agree: all bytes of a
    character in the class are in the class, and the first byte of any other
    character is not. -/
structure Agrees (p : UInt8 → Bool) (q : Char → Bool) : Prop where
  inside : ∀ {c}, q c = true → ∀ b ∈ String.utf8EncodeChar c, p b = true
  outside : ∀ {c}, q c = false → ∃ b bs, String.utf8EncodeChar c = b :: bs ∧ p b = false

/-- Classes agree when they do below 128 and are constant from there on. -/
theorem agrees_of_ascii {p : UInt8 → Bool} {q : Char → Bool} (high : Bool)
    (hlow : ∀ n : Fin 128, p (UInt8.ofNat n.val) = q (Char.ofNat n.val))
    (hp : ∀ b : UInt8, 0x80 ≤ b → p b = high) (hq : ∀ c : Char, 128 ≤ c.toNat → q c = high) :
    Agrees p q := by
  have hascii : ∀ c : Char, c.toNat < 128 → p (UInt8.ofNat c.toNat) = q c := by
    intro c hc
    have h := hlow ⟨c.toNat, hc⟩
    rw [Char.ofNat_toNat] at h
    exact h
  constructor
  · intro c hqc b hb
    by_cases hc : c.toNat < 128
    · rw [utf8EncodeChar_ascii hc, List.mem_singleton] at hb
      rw [hb, hascii c hc, hqc]
    · rw [hp b (utf8EncodeChar_high (Nat.not_lt.mp hc) b hb), ← hq c (Nat.not_lt.mp hc), hqc]
  · intro c hqc
    by_cases hc : c.toNat < 128
    · exact ⟨_, [], utf8EncodeChar_ascii hc, by rw [hascii c hc, hqc]⟩
    · obtain ⟨b, bs, hb⟩ := utf8EncodeChar_eq_cons c
      have hbig := utf8EncodeChar_high (Nat.not_lt.mp hc) b (by rw [hb]; simp)
      exact ⟨b, bs, hb, by rw [hp b hbig, ← hq c (Nat.not_lt.mp hc), hqc]⟩

variable {p : UInt8 → Bool} {q : Char → Bool}

/-- The bytes of a text in the class are in the class. -/
theorem Agrees.encode_inside (h : Agrees p q) {cs : List Char} (hcs : ∀ c ∈ cs, q c = true) :
    ∀ b ∈ encode cs, p b = true := by
  intro b hb
  obtain ⟨c, hc, hbc⟩ := List.mem_flatMap.mp hb
  exact h.inside (hcs c hc) b hbc

/-- **The bytes a scan runs over are the characters it runs over.** -/
theorem Agrees.takeWhile_encode (h : Agrees p q) (cs : List Char) :
    (encode cs).takeWhile p = encode (cs.takeWhile q) := by
  induction cs with
  | nil => rfl
  | cons c cs ih =>
      cases hc : q c with
      | true =>
          rw [List.takeWhile_cons_of_pos hc, encode_cons, encode_cons,
            List.takeWhile_append_of_pos (h.inside hc), ih]
      | false =>
          obtain ⟨b, bs, hb, hpb⟩ := h.outside hc
          rw [List.takeWhile_cons_of_neg (by simp [hc]), encode_cons, hb, List.cons_append,
            List.takeWhile_cons_of_neg (by simp [hpb]), encode_nil]

/-- **A scan stops at the bytes of the characters it stops at.** -/
theorem Agrees.dropWhile_encode (h : Agrees p q) (cs : List Char) :
    (encode cs).dropWhile p = encode (cs.dropWhile q) := by
  induction cs with
  | nil => rfl
  | cons c cs ih =>
      cases hc : q c with
      | true =>
          rw [List.dropWhile_cons_of_pos hc, encode_cons,
            List.dropWhile_append_of_pos (h.inside hc), ih]
      | false =>
          obtain ⟨b, bs, hb, hpb⟩ := h.outside hc
          rw [List.dropWhile_cons_of_neg (by simp [hc]), encode_cons, hb, List.cons_append,
            List.dropWhile_cons_of_neg (by simp [hpb])]

end QCoreUtf8
