import Mathlib
import QCore.MachineIntProofs
import QCore.FallibleProofs
import QCore.ScanProofs
import QCore.HttpProofs

/-! # A body in chunks

    What the loop over chunks reads is said without a loop: `Chunks data body rest`
    holds when the data are chunks with that content up to a chunk of size zero, and
    `rest` is what stands after the size line of that one.  The loop returns a body
    exactly when there is such a rest (`dechunk_iff`), whatever the rest is. -/

namespace QCoreChunkedBody

open QCoreMachineInt QCoreFallible QCoreScan QCoreHttp

/-! ## Line ends -/

theorem crlf_ne_nil : crlf ≠ [] := List.cons_ne_nil _ _

@[simp] theorem length_crlf : crlf.length = 2 := rfl

/-- No end of a line end is the start of one. -/
theorem unbordered_crlf : Unbordered crlf := by
  intro k hpos hlt
  have hk : k = 1 := by
    rw [length_crlf] at hlt
    omega
  subst hk
  decide

theorem find_crlf {line : List UInt8} (h : ¬ crlf <:+: line) (rest : List UInt8) :
    find (line ++ (crlf ++ rest)) crlf = some line.length :=
  find_unbordered crlf_ne_nil unbordered_crlf h rest

/-- A line end in the data splits them in one way. -/
theorem line_of_find {data : List UInt8} {k : ℕ} (h : find data crlf = some k) :
    data = data.take k ++ (crlf ++ data.drop (k + 2)) ∧ ¬ crlf <:+: data.take k :=
  ⟨(find_split crlf_ne_nil h).2, not_infix_take crlf_ne_nil h⟩

/-- A line that ends at the first line break is told by the bytes. -/
theorem line_inj {line line' rest rest' : List UInt8} (h : ¬ crlf <:+: line)
    (h' : ¬ crlf <:+: line') (heq : line ++ (crlf ++ rest) = line' ++ (crlf ++ rest')) :
    line = line' ∧ rest = rest' := by
  have hlength : line.length = line'.length := by
    have hfind := find_crlf h rest
    rw [heq, find_crlf h' rest'] at hfind
    exact (Option.some.inj hfind).symm
  obtain ⟨hline, hrest⟩ := List.append_inj heq hlength
  exact ⟨hline, List.append_cancel_left hrest⟩

/-! ## Size lines -/

/-- The text of the size in a size line, which an extension may follow. -/
def sizeText (line : List UInt8) : List UInt8 := trimBlanks (upTo semicolon line)

/-- A line that gives a chunk's size. -/
structure SizeLine (line : List UInt8) (size : ℕ) : Prop where
  whole : ¬ crlf <:+: line
  text : isText line = true
  given : sizeText line ≠ []
  short : (sizeText line).length ≤ 8
  digits : (sizeText line).all isHexDigit = true
  value : hexValue (sizeText line) = size

/-- A digit is below sixteen. -/
theorem hexDigit_lt {b : UInt8} : (QCoreJson.hexDigit b).getD 0 < 16 := by
  rw [QCoreJson.hexDigit]
  split
  · rw [Option.getD_some]
    next h =>
      have hle : b.toNat ≤ 57 := h.2
      omega
  · split
    · rw [Option.getD_some]
      next h =>
        have hle : b.toNat ≤ 102 := h.2
        omega
    · split
      · rw [Option.getD_some]
        next h =>
          have hle : b.toNat ≤ 70 := h.2
          omega
      · decide

theorem hexValue_concat (digits : List UInt8) (b : UInt8) :
    hexValue (digits ++ [b]) = hexValue digits * 16 + (QCoreJson.hexDigit b).getD 0 := by
  rw [hexValue, List.foldl_append]
  rfl

/-- Digits make a number that they suffice for. -/
theorem hexValue_lt (digits : List UInt8) : hexValue digits < 16 ^ digits.length := by
  induction digits using List.reverseRecOn with
  | nil => exact Nat.one_pos
  | append_singleton digits b ih =>
      rw [hexValue_concat, List.length_append, List.length_singleton, pow_succ]
      have hdigit := hexDigit_lt (b := b)
      omega

/-- A size of eight digits leaves room in a word. -/
theorem SizeLine.lt {line : List UInt8} {size : ℕ} (h : SizeLine line size) :
    size < 4294967296 := by
  have hpow : 16 ^ (sizeText line).length ≤ 16 ^ 8 := Nat.pow_le_pow_right (by decide) h.short
  have hlt := hexValue_lt (sizeText line)
  rw [h.value] at hlt
  omega

/-! ## One chunk -/

/-- What a turn makes of the data after a size line. -/
def takeChunk (size : ℕ) (data : List UInt8) :
    Except String (Option (List UInt8 × List UInt8)) :=
  if size = 0 then .ok none
  else do
    refuseIf (data.length < size + 2 ∨ (data.take (size + 2)).drop size ≠ crlf)
      "a chunk is truncated"
    return some (data.take size, data.drop (size + 2))

/-- Behind a size line stands a chunk of that size. -/
theorem nextChunk_line {line : List UInt8} {size : ℕ} (h : SizeLine line size)
    (data : List UInt8) : nextChunk (line ++ (crlf ++ data)) = takeChunk size data := by
  have hlt := h.lt
  have hword : tryFrom 18446744073709551616 (hexValue (sizeText line))
      = some ⟨size, by omega⟩ := tryFrom_eq_some.mpr h.value
  have hnumber : ¬ (sizeText line = [] ∨ 8 < (sizeText line).length
      ∨ ¬ (sizeText line).all isHexDigit = true) := by
    rintro (hnil | hlong | hdigits)
    · exact h.given hnil
    · exact absurd h.short (Nat.not_le.mpr hlong)
    · exact hdigits h.digits
  have hdrop : (line ++ (crlf ++ data)).drop (line.length + 2) = data := by
    rw [← List.drop_drop, List.drop_left]
    rfl
  rw [nextChunk, find_crlf h.whole, okOr_some, ok_bind, List.take_left]
  dsimp only
  rw [show trimBlanks (upTo semicolon line) = sizeText line from rfl, hword, hdrop,
    refuseIf, if_neg (not_not.mpr h.text), ok_bind, refuseIf, if_neg hnumber, ok_bind, okOr_some,
    ok_bind, takeChunk]
  by_cases hzero : size = 0
  · subst hzero
    rfl
  · have hne : (⟨size, by omega⟩ : U64) ≠ 0 := fun heq => hzero (congrArg Fin.val heq)
    have hadd : checkedAdd (⟨size, by omega⟩ : U64) 2 = some ⟨size + 2, by omega⟩ :=
      checkedAdd_eq_some.mpr rfl
    rw [if_neg hne, if_neg hzero, hadd]
    rfl

/-- A turn that does not refuse begins with a size line. -/
theorem nextChunk_ok {data : List UInt8} {r : Option (List UInt8 × List UInt8)}
    (h : nextChunk data = .ok r) :
    ∃ line rest size, data = line ++ (crlf ++ rest) ∧ SizeLine line size := by
  obtain ⟨k, hfind, h⟩ := value_ok h
  obtain ⟨htext, h⟩ := guard_ok h
  obtain ⟨hnumber, h⟩ := guard_ok h
  obtain ⟨hsplit, hwhole⟩ := line_of_find hfind
  rw [not_or, not_or, not_not] at hnumber
  exact ⟨_, _, _, hsplit, hwhole, not_not.mp htext, hnumber.1, Nat.not_lt.mp hnumber.2.1,
    hnumber.2.2, rfl⟩

/-- **The chunk of size zero**: a turn ends the loop exactly when the data begin with
    a size line of it. -/
theorem nextChunk_none {data : List UInt8} :
    nextChunk data = .ok none ↔
      ∃ line rest, data = line ++ (crlf ++ rest) ∧ SizeLine line 0 := by
  constructor
  · intro h
    obtain ⟨line, rest, size, rfl, hline⟩ := nextChunk_ok h
    rw [nextChunk_line hline, takeChunk] at h
    by_cases hzero : size = 0
    · exact ⟨line, rest, rfl, hzero ▸ hline⟩
    · rw [if_neg hzero] at h
      obtain ⟨-, h⟩ := guard_ok h
      cases h
  · rintro ⟨line, rest, rfl, hline⟩
    rw [nextChunk_line hline, takeChunk, if_pos rfl]

/-- **A chunk**: a turn takes one exactly when the data are a size line, so many bytes
    and a line end. -/
theorem nextChunk_some {data chunk rest : List UInt8} :
    nextChunk data = .ok (some (chunk, rest)) ↔
      ∃ line, data = line ++ (crlf ++ (chunk ++ (crlf ++ rest)))
        ∧ SizeLine line chunk.length ∧ chunk ≠ [] := by
  constructor
  · intro h
    obtain ⟨line, data, size, rfl, hline⟩ := nextChunk_ok h
    rw [nextChunk_line hline, takeChunk] at h
    by_cases hzero : size = 0
    · rw [if_pos hzero] at h
      cases h
    rw [if_neg hzero] at h
    obtain ⟨hguard, h⟩ := guard_ok h
    rw [not_or, not_not, Nat.not_lt] at hguard
    obtain ⟨hlong, hend⟩ := hguard
    cases h
    have hlength : (data.take size).length = size := List.length_take_of_le (by omega)
    have hsplit : data = data.take size ++ (crlf ++ data.drop (size + 2)) := by
      calc data = data.take (size + 2) ++ data.drop (size + 2) := (List.take_append_drop _ _).symm
        _ = (data.take size ++ (data.take (size + 2)).drop size) ++ data.drop (size + 2) := by
            have htake : (data.take (size + 2)).take size = data.take size := by
              rw [List.take_take, Nat.min_eq_left (Nat.le_add_right _ _)]
            have hcut := List.take_append_drop size (data.take (size + 2))
            rw [htake] at hcut
            rw [hcut]
        _ = data.take size ++ (crlf ++ data.drop (size + 2)) := by rw [hend, List.append_assoc]
    refine ⟨line, congrArg (fun d => line ++ (crlf ++ d)) hsplit, by rwa [hlength], ?_⟩
    intro hnil
    rw [hnil] at hlength
    exact hzero hlength.symm
  · rintro ⟨line, rfl, hline, hne⟩
    have hpos := List.length_pos_iff.mpr hne
    have hend : ((chunk ++ (crlf ++ rest)).take (chunk.length + 2)).drop chunk.length = crlf := by
      rw [List.take_length_add_append, List.drop_left]
      rfl
    have hguard : ¬ ((chunk ++ (crlf ++ rest)).length < chunk.length + 2
        ∨ ((chunk ++ (crlf ++ rest)).take (chunk.length + 2)).drop chunk.length ≠ crlf) := by
      rw [hend]
      simp [crlf]
    rw [nextChunk_line hline, takeChunk, if_neg hpos.ne', refuseIf, if_neg hguard, ok_bind,
      List.take_left, List.drop_length_add_append]
    rfl

/-! ## All chunks -/

/-- Data that are chunks up to one of size zero: what the chunks carry, and what
    stands after the last size line. -/
inductive Chunks : List UInt8 → List UInt8 → List UInt8 → Prop where
  | last {line : List UInt8} (rest : List UInt8) (hline : SizeLine line 0) :
      Chunks (line ++ (crlf ++ rest)) [] rest
  | chunk {line chunk data body rest : List UInt8} (hline : SizeLine line chunk.length)
      (hne : chunk ≠ []) (hdata : Chunks data body rest) :
      Chunks (line ++ (crlf ++ (chunk ++ (crlf ++ data)))) (chunk ++ body) rest

/-- **The loop reads chunks**, and with a turn for every byte it is never the fuel
    that ends it. -/
theorem dechunkLoop_iff {n : ℕ} {data out content : List UInt8} (hn : data.length < n) :
    dechunkLoop n data out = .ok content ↔
      ∃ body rest, Chunks data body rest ∧ content = out ++ body := by
  induction n generalizing data out with
  | zero => exact absurd hn (Nat.not_lt_zero _)
  | succ n ih =>
      rw [dechunkLoop, bind_iff]
      constructor
      · rintro ⟨turn, hturn, h⟩
        cases turn with
        | none =>
            obtain ⟨line, rest, rfl, hline⟩ := nextChunk_none.mp hturn
            cases h
            exact ⟨[], rest, .last rest hline, (List.append_nil _).symm⟩
        | some taken =>
            obtain ⟨chunk, data'⟩ := taken
            obtain ⟨line, rfl, hline, hne⟩ := nextChunk_some.mp hturn
            simp only [List.length_append, length_crlf] at hn
            obtain ⟨body, rest, hchunks, rfl⟩ := (ih (by omega)).mp h
            exact ⟨chunk ++ body, rest, .chunk hline hne hchunks, List.append_assoc _ _ _⟩
      · rintro ⟨body, rest, hchunks, rfl⟩
        cases hchunks with
        | last rest hline =>
            refine ⟨none, nextChunk_none.mpr ⟨_, rest, rfl, hline⟩, ?_⟩
            rw [List.append_nil]
            rfl
        | chunk hline hne hdata =>
            refine ⟨some (_, _), nextChunk_some.mpr ⟨_, rfl, hline, hne⟩, ?_⟩
            simp only [List.length_append, length_crlf] at hn
            exact (ih (by omega)).mpr ⟨_, rest, hdata, (List.append_assoc _ _ _).symm⟩

/-- **What the reader of chunks returns** is what chunks carry, and it returns it
    whatever comes after the last of them. -/
theorem dechunk_iff {data body : List UInt8} :
    dechunk data = .ok body ↔ ∃ rest, Chunks data body rest := by
  rw [dechunk, dechunkLoop_iff (Nat.lt_succ_self _)]
  constructor
  · rintro ⟨body', rest, hchunks, rfl⟩
    exact ⟨rest, hchunks⟩
  · rintro ⟨rest, hchunks⟩
    exact ⟨body, rest, hchunks, rfl⟩

/-- Chunks are chunks in one way. -/
theorem Chunks.unique {data body body' rest rest' : List UInt8} (h : Chunks data body rest)
    (h' : Chunks data body' rest') : body = body' ∧ rest = rest' := by
  induction h generalizing body' rest' with
  | last rest hline =>
      generalize hdata : _ ++ (crlf ++ rest) = data at h'
      cases h' with
      | last rest' hline' => exact ⟨rfl, (line_inj hline.whole hline'.whole hdata).2⟩
      | chunk hline' hne' hdata' =>
          obtain ⟨rfl, -⟩ := line_inj hline.whole hline'.whole hdata
          exact absurd (hline.value.symm.trans hline'.value).symm
            (List.length_pos_iff.mpr hne').ne'
  | chunk hline hne hchunks ih =>
      generalize hdata : _ ++ (crlf ++ (_ ++ _)) = data at h'
      cases h' with
      | last rest' hline' =>
          obtain ⟨rfl, -⟩ := line_inj hline.whole hline'.whole hdata
          exact absurd (hline.value.symm.trans hline'.value) (List.length_pos_iff.mpr hne).ne'
      | chunk hline' hne' hchunks' =>
          obtain ⟨rfl, hafter⟩ := line_inj hline.whole hline'.whole hdata
          obtain ⟨rfl, hend⟩ := List.append_inj hafter (hline.value.symm.trans hline'.value)
          obtain rfl := List.append_cancel_left hend
          obtain ⟨rfl, rfl⟩ := ih hchunks'
          exact ⟨rfl, rfl⟩

/-- More data after the chunks are more of the rest. -/
theorem Chunks.append {data body rest : List UInt8} (h : Chunks data body rest)
    (more : List UInt8) : Chunks (data ++ more) body (rest ++ more) := by
  induction h with
  | last rest hline =>
      rw [List.append_assoc, List.append_assoc]
      exact .last (rest ++ more) hline
  | chunk hline hne hchunks ih =>
      simp only [List.append_assoc]
      exact .chunk hline hne ih

end QCoreChunkedBody
