import Mathlib
import QCore.ByteMemoryProofs
import QCore.FallibleProofs
import QCore.Utf8Proofs
import QCore.JsonProofs
import QCore.WireProofs
import QCore.CratesProofs
import QCore.SessionProofs
import QCore.AddressProofs
import QCore.ContractProofs

/-! # Lookalikes

    The check a session makes of a target and the one the bindings export are two
    pieces of code; they give one verdict (`checkTarget_iff`).  It scans both
    addresses from the front and from the back as far as they agree.  The scans may
    run over the same characters, but the longest start and the longest end that
    two rows share decide whether there are such a start and such an end
    (`sharesEdges_of_longest`), so the verdict is symmetric and does not see case.

    The scans go over bytes, and begin after two of them.  For addresses in ASCII
    bytes are characters.  For other texts they are not, and where a character goes
    over the second byte there is no verdict against the address at all. -/

namespace QCoreLookalike

open QCoreByteMemory QCoreFallible QCoreUtf8 QCoreJson QCoreWire QCoreCrates QCoreSession
  QCoreAddress QCoreContract

/-! ## Rows with common edges -/

section

variable {α β : Type*}

/-- Two rows share their first elements. -/
def SharesStart (n : ℕ) (xs ys : List α) : Prop :=
  ∃ start, start.length = n ∧ start <+: xs ∧ start <+: ys

/-- Two rows share their last elements. -/
def SharesEnd (n : ℕ) (xs ys : List α) : Prop :=
  ∃ tail, tail.length = n ∧ tail <:+ xs ∧ tail <:+ ys

/-- Two rows share a start and an end, each of them long enough and both together.
    They may be long enough to overlap. -/
def SharesEdges (edge span : ℕ) (xs ys : List α) : Prop :=
  ∃ i j, edge ≤ i ∧ edge ≤ j ∧ span ≤ i + j ∧ SharesStart i xs ys ∧ SharesEnd j xs ys

variable {n : ℕ} {xs ys : List α}

/-- To share an end is to share a start backwards. -/
theorem sharesEnd_iff : SharesEnd n xs ys ↔ SharesStart n xs.reverse ys.reverse := by
  constructor
  · rintro ⟨tail, hlength, hxs, hys⟩
    exact ⟨tail.reverse, by rw [List.length_reverse, hlength], List.reverse_prefix.mpr hxs,
      List.reverse_prefix.mpr hys⟩
  · rintro ⟨start, hlength, hxs, hys⟩
    refine ⟨start.reverse, by rw [List.length_reverse, hlength], ?_, ?_⟩
    · rwa [← List.reverse_prefix, List.reverse_reverse]
    · rwa [← List.reverse_prefix, List.reverse_reverse]

theorem SharesStart.symm (h : SharesStart n xs ys) : SharesStart n ys xs := by
  obtain ⟨start, hlength, hxs, hys⟩ := h
  exact ⟨start, hlength, hys, hxs⟩

theorem SharesEnd.symm (h : SharesEnd n xs ys) : SharesEnd n ys xs :=
  sharesEnd_iff.mpr (sharesEnd_iff.mp h).symm

theorem SharesEdges.symm {edge span : ℕ} (h : SharesEdges edge span xs ys) :
    SharesEdges edge span ys xs := by
  obtain ⟨i, j, hi, hj, hspan, hstart, hend⟩ := h
  exact ⟨i, j, hi, hj, hspan, hstart.symm, hend.symm⟩

theorem SharesStart.map (f : α → β) (h : SharesStart n xs ys) :
    SharesStart n (xs.map f) (ys.map f) := by
  obtain ⟨start, hlength, hxs, hys⟩ := h
  exact ⟨start.map f, by rw [List.length_map, hlength], hxs.map f, hys.map f⟩

theorem SharesEnd.map (f : α → β) (h : SharesEnd n xs ys) :
    SharesEnd n (xs.map f) (ys.map f) := by
  obtain ⟨tail, hlength, hxs, hys⟩ := h
  exact ⟨tail.map f, by rw [List.length_map, hlength], hxs.map f, hys.map f⟩

theorem SharesEdges.map {edge span : ℕ} (f : α → β) (h : SharesEdges edge span xs ys) :
    SharesEdges edge span (xs.map f) (ys.map f) := by
  obtain ⟨i, j, hi, hj, hspan, hstart, hend⟩ := h
  exact ⟨i, j, hi, hj, hspan, hstart.map f, hend.map f⟩

theorem sharesStart_zero : SharesStart 0 xs ys :=
  ⟨[], rfl, List.nil_prefix, List.nil_prefix⟩

theorem not_sharesStart_nil (hn : 0 < n) : ¬ SharesStart n [] ys := by
  rintro ⟨start, hlength, hnil, -⟩
  rw [List.prefix_nil.mp hnil, List.length_nil] at hlength
  omega

/-- To share a longer start is to share the first character and the rest. -/
theorem sharesStart_cons {x y : α} :
    SharesStart (n + 1) (x :: xs) (y :: ys) ↔ x = y ∧ SharesStart n xs ys := by
  constructor
  · rintro ⟨start, hlength, hxs, hys⟩
    cases start with
    | nil => exact absurd hlength (Nat.succ_ne_zero n).symm
    | cons z start =>
        obtain ⟨hx, hxs'⟩ := List.cons_prefix_cons.mp hxs
        obtain ⟨hy, hys'⟩ := List.cons_prefix_cons.mp hys
        exact ⟨hx.symm.trans hy, start, Nat.succ.inj hlength, hxs', hys'⟩
  · rintro ⟨rfl, start, hlength, hxs, hys⟩
    exact ⟨x :: start, by rw [List.length_cons, hlength], List.cons_prefix_cons.mpr ⟨rfl, hxs⟩,
      List.cons_prefix_cons.mpr ⟨rfl, hys⟩⟩

/-- **The longest edges decide.** -/
theorem sharesEdges_of_longest {edge span head tail : ℕ}
    (hhead : ∀ n, n ≤ head ↔ SharesStart n xs ys) (htail : ∀ n, n ≤ tail ↔ SharesEnd n xs ys) :
    SharesEdges edge span xs ys ↔ edge ≤ head ∧ edge ≤ tail ∧ span ≤ head + tail := by
  constructor
  · rintro ⟨i, j, hi, hj, hspan, hstart, hend⟩
    have hih := (hhead i).mpr hstart
    have hjt := (htail j).mpr hend
    exact ⟨hi.trans hih, hj.trans hjt, hspan.trans (Nat.add_le_add hih hjt)⟩
  · rintro ⟨hhead', htail', hspan⟩
    exact ⟨head, tail, hhead', htail', hspan, (hhead head).mp le_rfl, (htail tail).mp le_rfl⟩

end

/-- **The scan from the front** finds the longest common start. -/
theorem le_commonPrefix_iff {n : ℕ} {xs ys : List UInt8} :
    n ≤ commonPrefix xs ys ↔ SharesStart n xs ys := by
  induction xs generalizing n ys with
  | nil =>
      rw [commonPrefix]
      · cases n with
        | zero => exact iff_of_true le_rfl sharesStart_zero
        | succ n => exact iff_of_false (by omega) (not_sharesStart_nil (Nat.succ_pos n))
      · intro x xs y ys h
        cases h
  | cons x xs ih =>
      cases n with
      | zero => exact iff_of_true (Nat.zero_le _) sharesStart_zero
      | succ n =>
          cases ys with
          | nil =>
              rw [commonPrefix]
              · exact iff_of_false (by omega)
                  (fun h => not_sharesStart_nil (Nat.succ_pos n) h.symm)
              · intro x xs y ys hx hy
                cases hy
          | cons y ys =>
              rw [commonPrefix, sharesStart_cons]
              by_cases hxy : x = y
              · rw [if_pos hxy, Nat.succ_le_succ_iff, ih, and_iff_right hxy]
              · rw [if_neg hxy]
                exact iff_of_false (by omega) (fun h => hxy h.1)

/-! ## Spellings -/

/-- A text in upper case, in its ASCII letters. -/
def upperCase (s : String) : String := String.ofList (s.toList.map Char.toUpper)

@[simp] theorem toList_upperCase (s : String) :
    (upperCase s).toList = s.toList.map Char.toUpper := by
  rw [upperCase, String.toList_ofList]

/-- A text in lower case, in its ASCII letters. -/
def lowerCase (s : String) : String := String.ofList (s.toList.map Char.toLower)

theorem toUpper_high {c : Char} (h : 128 ≤ c.toNat) : c.toUpper = c := by
  rw [Char.toUpper, dif_neg]
  rintro ⟨-, hz⟩
  have hle : c.toNat ≤ 122 := hz
  omega

theorem toLower_high {c : Char} (h : 128 ≤ c.toNat) : c.toLower = c := by
  rw [Char.toLower, dif_neg]
  rintro ⟨-, hz⟩
  have hle : c.toNat ≤ 90 := hz
  omega

/-- A fact about characters that holds of the ASCII ones and of those that have no
    case holds of all. -/
theorem char_cases {P : Char → Prop} (hlow : ∀ n : Fin 128, P (Char.ofNat n.val))
    (hhigh : ∀ c : Char, 128 ≤ c.toNat → P c) (c : Char) : P c := by
  rcases Nat.lt_or_ge c.toNat 128 with hc | hc
  · rw [← Char.ofNat_toNat c]
    exact hlow ⟨c.toNat, hc⟩
  · exact hhigh c hc

theorem toUpper_toUpper (c : Char) : c.toUpper.toUpper = c.toUpper := by
  refine char_cases (P := fun c => c.toUpper.toUpper = c.toUpper) (by decide +kernel) ?_ c
  intro c hc
  rw [toUpper_high hc, toUpper_high hc]

theorem toUpper_toLower (c : Char) : c.toLower.toUpper = c.toUpper := by
  refine char_cases (P := fun c => c.toLower.toUpper = c.toUpper) (by decide +kernel) ?_ c
  intro c hc
  rw [toLower_high hc]

theorem upperCase_upperCase (s : String) : upperCase (upperCase s) = upperCase s := by
  rw [upperCase, toList_upperCase, List.map_map, upperCase]
  congr 2
  funext c
  exact toUpper_toUpper c

theorem upperCase_lowerCase (s : String) : upperCase (lowerCase s) = upperCase s := by
  rw [upperCase, lowerCase, String.toList_ofList, List.map_map, upperCase]
  congr 2
  funext c
  exact toUpper_toLower c

/-- A byte in upper case. -/
def upperByte (b : UInt8) : UInt8 := if 0x61 ≤ b ∧ b ≤ 0x7a then b - 0x20 else b

/-- To raise a letter raises its bytes. -/
theorem utf8EncodeChar_toUpper (c : Char) :
    (String.utf8EncodeChar c).map upperByte = String.utf8EncodeChar c.toUpper := by
  refine char_cases (P := fun c =>
    (String.utf8EncodeChar c).map upperByte = String.utf8EncodeChar c.toUpper)
    (by decide +kernel) ?_ c
  intro c hc
  rw [toUpper_high hc]
  refine (List.map_congr_left fun b hb => ?_).trans (List.map_id _)
  rw [upperByte, if_neg, id]
  rintro ⟨-, hz⟩
  have hhigh := UInt8.le_iff_toNat_le.mp (utf8EncodeChar_high hc b hb)
  have hle := UInt8.le_iff_toNat_le.mp hz
  have h128 : (0x80 : UInt8).toNat = 128 := rfl
  have h122 : (0x7a : UInt8).toNat = 122 := rfl
  omega

/-- The bytes of a text in upper case are those of the text in upper case. -/
theorem upperBytes_eq (s : String) : upperBytes s = asBytes (upperCase s) := by
  rw [upperBytes, asBytes, asBytes, toList_upperCase, List.map_flatMap, List.flatMap_map]
  congr 1
  funext c
  exact utf8EncodeChar_toUpper c

theorem upperBytes_upperCase (s : String) : upperBytes (upperCase s) = upperBytes s := by
  rw [upperBytes_eq, upperBytes_eq, upperCase_upperCase]

theorem upperBytes_lowerCase (s : String) : upperBytes (lowerCase s) = upperBytes s := by
  rw [upperBytes_eq, upperBytes_eq, upperCase_lowerCase]

/-! ## Behind two bytes -/

/-- A text behind its first two bytes, when no character goes over them. -/
def AfterTwo (s rest : String) : Prop := ∃ front, s = front ++ rest ∧ (asBytes front).length = 2

/-- What is left after two bytes is left where a character begins there. -/
theorem afterPrefix_some {bytes rest : List UInt8} :
    afterPrefix bytes = some rest ↔
      ∃ front, front.length = 2 ∧ bytes = front ++ rest ∧ ∀ b ∈ rest.head?, ¬ Continues b := by
  constructor
  · intro h
    rcases bytes with _ | ⟨x, _ | ⟨y, bytes⟩⟩
    · cases h
    · cases h
    · refine ⟨[x, y], rfl, ?_⟩
      cases bytes with
      | nil =>
          cases h
          exact ⟨rfl, fun b hb => by cases hb⟩
      | cons b bytes =>
          simp only [afterPrefix] at h
          split_ifs at h with hb
          cases h
          refine ⟨rfl, ?_⟩
          rintro _ ⟨⟩
          exact hb
  · rintro ⟨front, hlength, rfl, hrest⟩
    rcases front with _ | ⟨x, _ | ⟨y, _ | ⟨z, front⟩⟩⟩
    · cases hlength
    · cases hlength
    · cases rest with
      | nil => rfl
      | cons b rest => exact if_neg (hrest b rfl)
    · cases hlength

/-- **What is compared** is the text behind two bytes, where there is one. -/
theorem afterPrefix_iff {s : String} {bytes : List UInt8} :
    afterPrefix (asBytes s) = some bytes ↔ ∃ rest, AfterTwo s rest ∧ bytes = asBytes rest := by
  rw [afterPrefix_some]
  constructor
  · rintro ⟨front, hlength, hbytes, hrest⟩
    obtain ⟨ds, es, hs, rfl, rfl⟩ := exists_boundary hbytes hrest
    refine ⟨String.ofList es, ⟨String.ofList ds, ?_, ?_⟩, ?_⟩
    · rw [← String.ofList_append, ← hs, String.ofList_toList]
    · rwa [asBytes, String.toList_ofList]
    · rw [asBytes, String.toList_ofList, encode]
  · rintro ⟨rest, ⟨front, rfl, hlength⟩, rfl⟩
    refine ⟨asBytes front, hlength, asBytes_append front rest, fun b hb => ?_⟩
    obtain ⟨bs, hbs⟩ := List.head?_eq_some_iff.mp hb
    exact not_continues_head hbs

/-- What shares its edges are the raised addresses, each without its first two bytes. -/
theorem sharesEdges_iff {a b : String} :
    sharesEdges a b = true ↔
      ∃ x y, AfterTwo (upperCase a) x ∧ AfterTwo (upperCase b) y
        ∧ SharesEdges lookalikeEdge lookalikeSpan (asBytes x) (asBytes y) := by
  have hlongest : ∀ xs ys : List UInt8,
      (lookalikeEdge ≤ commonPrefix xs ys ∧ lookalikeEdge ≤ commonPrefix xs.reverse ys.reverse
        ∧ lookalikeSpan ≤ commonPrefix xs ys + commonPrefix xs.reverse ys.reverse)
      ↔ SharesEdges lookalikeEdge lookalikeSpan xs ys := fun xs ys =>
    (sharesEdges_of_longest (fun _ => le_commonPrefix_iff)
      (fun _ => le_commonPrefix_iff.trans sharesEnd_iff.symm)).symm
  rw [sharesEdges, upperBytes_eq, upperBytes_eq]
  constructor
  · intro h
    split at h
    · next xs ys hx hy =>
        obtain ⟨x, hafter, rfl⟩ := afterPrefix_iff.mp hx
        obtain ⟨y, hafter', rfl⟩ := afterPrefix_iff.mp hy
        exact ⟨x, y, hafter, hafter', (hlongest _ _).mp (of_decide_eq_true h)⟩
    · cases h
  · rintro ⟨x, y, hx, hy, hedges⟩
    rw [afterPrefix_iff.mpr ⟨x, hx, rfl⟩, afterPrefix_iff.mpr ⟨y, hy, rfl⟩]
    exact decide_eq_true ((hlongest _ _).mpr hedges)

/-! ## Addresses in ASCII -/

/-- A text of ASCII characters. -/
def Ascii (s : String) : Prop := ∀ c ∈ s.toList, c.toNat < 128

theorem ascii_of_all {s : String} (h : s.toList.all (fun c => c.toNat < 128) = true) : Ascii s :=
  fun c hc => of_decide_eq_true (List.all_eq_true.mp h c hc)

/-- What is ASCII stays so in upper case. -/
theorem ascii_upperCase {s : String} (h : Ascii s) : Ascii (upperCase s) := by
  have hlow : ∀ c : Char, c.toNat < 128 → c.toUpper.toNat < 128 := by
    refine char_cases (P := fun c => c.toNat < 128 → c.toUpper.toNat < 128) (by decide +kernel) ?_
    intro c hc hlow
    exact absurd hlow (Nat.not_lt.mpr hc)
  intro c hc
  rw [toList_upperCase, List.mem_map] at hc
  obtain ⟨d, hd, rfl⟩ := hc
  exact hlow d (h d hd)

theorem asBytes_of_ascii {s : String} (h : Ascii s) :
    asBytes s = s.toList.map (fun c => UInt8.ofNat c.toNat) := by
  have hbytes := asBytes_ascii h
  rwa [String.ofList_toList] at hbytes

/-- An ASCII text is its bytes, read as characters. -/
theorem toList_of_ascii {s : String} (h : Ascii s) :
    s.toList = (asBytes s).map (fun b => Char.ofNat b.toNat) := by
  rw [asBytes_of_ascii h, List.map_map]
  refine ((List.map_congr_left fun c hc => ?_).trans (List.map_id _)).symm
  have hlow := h c hc
  rw [Function.comp_apply, UInt8.toNat_ofNat', Nat.mod_eq_of_lt (by omega), Char.ofNat_toNat]
  rfl

/-- It goes on behind two bytes as it does behind two characters. -/
theorem afterTwo_ascii {s : String} (h : Ascii s) {rest : String} (hrest : AfterTwo s rest) :
    Ascii rest ∧ s.toList.drop 2 = rest.toList := by
  obtain ⟨front, rfl, hlength⟩ := hrest
  have hmem : ∀ c, c ∈ front.toList ∨ c ∈ rest.toList → c.toNat < 128 := by
    intro c hc
    refine h c ?_
    rwa [String.toList_append, List.mem_append]
  rw [asBytes_of_ascii fun c hc => hmem c (Or.inl hc), List.length_map] at hlength
  refine ⟨fun c hc => hmem c (Or.inr hc), ?_⟩
  rw [String.toList_append, ← hlength, List.drop_left]

/-- An ASCII text of two characters has something after the second. -/
theorem exists_afterTwo {s : String} (h : Ascii s) (hlength : 2 ≤ s.toList.length) :
    ∃ rest, AfterTwo s rest := by
  refine ⟨String.ofList (s.toList.drop 2), String.ofList (s.toList.take 2), ?_, ?_⟩
  · rw [← String.ofList_append, List.take_append_drop, String.ofList_toList]
  · rw [asBytes_ascii fun c hc => h c (List.mem_of_mem_take hc), List.length_map,
      List.length_take_of_le hlength]

/-- A row that shares a start of at least two is not empty. -/
theorem two_le_of_edges {xs ys : List Char}
    (h : SharesEdges lookalikeEdge lookalikeSpan (xs.drop 2) ys) : 2 ≤ xs.length := by
  obtain ⟨i, -, hi, -, -, ⟨start, hlength, hprefix, -⟩, -⟩ := h
  have hle := hprefix.length_le
  have hpos : 0 < i := lt_of_lt_of_le (by decide) hi
  rw [hlength, List.length_drop] at hle
  omega

/-- **ASCII texts share edges in their characters.** -/
theorem sharesEdges_ascii {a b : String} (ha : Ascii a) (hb : Ascii b) :
    sharesEdges a b = true ↔
      SharesEdges lookalikeEdge lookalikeSpan ((upperCase a).toList.drop 2)
        ((upperCase b).toList.drop 2) := by
  have ha' := ascii_upperCase ha
  have hb' := ascii_upperCase hb
  rw [sharesEdges_iff]
  constructor
  · rintro ⟨x, y, hx, hy, hedges⟩
    obtain ⟨hax, hdropx⟩ := afterTwo_ascii ha' hx
    obtain ⟨hay, hdropy⟩ := afterTwo_ascii hb' hy
    rw [hdropx, hdropy, toList_of_ascii hax, toList_of_ascii hay]
    exact hedges.map _
  · intro hedges
    obtain ⟨x, hx⟩ := exists_afterTwo ha' (two_le_of_edges hedges)
    obtain ⟨y, hy⟩ := exists_afterTwo hb' (two_le_of_edges hedges.symm)
    obtain ⟨hax, hdropx⟩ := afterTwo_ascii ha' hx
    obtain ⟨hay, hdropy⟩ := afterTwo_ascii hb' hy
    refine ⟨x, y, hx, hy, ?_⟩
    rw [hdropx, hdropy] at hedges
    rw [asBytes_of_ascii hax, asBytes_of_ascii hay]
    exact hedges.map _

/-! ## Verdicts -/

/-- The verdict against an address when one other is known. -/
def lookalike (crates : Crates) (a b : String) : Bool := (lookalikeOf crates a [b]).isSome

/-- Two texts are different addresses. -/
def DifferentAddresses (crates : Crates) (a b : String) : Prop :=
  ∃ x y, addressPayload crates a = .ok x ∧ addressPayload crates b = .ok y ∧ x ≠ y

section

variable {crates : Crates} {a b : String}

theorem DifferentAddresses.symm (h : DifferentAddresses crates a b) :
    DifferentAddresses crates b a := by
  obtain ⟨x, y, hx, hy, hne⟩ := h
  exact ⟨y, x, hy, hx, hne.symm⟩

theorem lookalike_eq (crates : Crates) (a b : String) : lookalike crates a b = looksLike crates a b := by
  rw [lookalike, lookalikeOf, List.find?_cons]
  cases looksLike crates a b with
  | true => rfl
  | false => rfl

/-- Lookalikes are different addresses that share their edges. -/
theorem looksLike_iff :
    looksLike crates a b = true ↔ DifferentAddresses crates a b ∧ sharesEdges a b = true := by
  rw [looksLike]
  constructor
  · intro h
    split at h
    · next x y hx hy =>
        rw [Bool.and_eq_true, decide_eq_true_eq] at h
        exact ⟨⟨x, y, hx, hy, h.1.symm⟩, h.2⟩
    · cases h
  · rintro ⟨⟨x, y, hx, hy, hne⟩, hedges⟩
    rw [hx, hy]
    exact Bool.and_eq_true_iff.mpr ⟨decide_eq_true hne.symm, hedges⟩

theorem lookalike_iff :
    lookalike crates a b = true ↔ DifferentAddresses crates a b ∧ sharesEdges a b = true := by
  rw [lookalike_eq, looksLike_iff]

theorem sharesEdges_symm (h : sharesEdges a b = true) : sharesEdges b a = true := by
  obtain ⟨x, y, hx, hy, hedges⟩ := sharesEdges_iff.mp h
  exact sharesEdges_iff.mpr ⟨y, x, hy, hx, hedges.symm⟩

theorem lookalike_comm (crates : Crates) (a b : String) :
    lookalike crates a b = lookalike crates b a := by
  rw [Bool.eq_iff_iff, lookalike_iff, lookalike_iff]
  exact ⟨fun h => ⟨h.1.symm, sharesEdges_symm h.2⟩, fun h => ⟨h.1.symm, sharesEdges_symm h.2⟩⟩

/-- A verdict depends on the payload and on the letters without their case. -/
theorem lookalike_spelling (hparse : crates.parseAddress (upperCase a) = crates.parseAddress (lowerCase a)) :
    lookalike crates (upperCase a) b = lookalike crates (lowerCase a) b := by
  have hpayload : addressPayload crates (upperCase a) = addressPayload crates (lowerCase a) := by
    rw [addressPayload, addressPayload, hparse]
  have hedges : sharesEdges (upperCase a) b = sharesEdges (lowerCase a) b := by
    rw [sharesEdges, sharesEdges, upperBytes_upperCase, upperBytes_lowerCase]
  rw [lookalike_eq, lookalike_eq, looksLike, looksLike, hpayload, hedges]

end

/-- **Lookalikes**: the check of a session is the check against what it knows, the
    verdict of one address against another is symmetric and does not see case, and
    it is against two different addresses with common edges behind two bytes, which
    for addresses in ASCII are characters. -/
theorem lookalike_verdicts {crates : Crates}
    (hcase : ∀ s, crates.parseAddress (upperCase s) = crates.parseAddress (lowerCase s)) :
    (∀ session address, (∃ e, checkTarget crates session address = .error e)
      ↔ (lookalikeOf crates address (known session)).isSome = true)
    ∧ (∀ a b, lookalike crates a b = lookalike crates b a)
    ∧ (∀ a b, lookalike crates (upperCase a) b = lookalike crates (lowerCase a) b
      ∧ lookalike crates a (upperCase b) = lookalike crates a (lowerCase b))
    ∧ (∀ a b, Ascii a → Ascii b → (lookalike crates a b = true ↔
      DifferentAddresses crates a b ∧ SharesEdges 2 8 ((upperCase a).toList.drop 2)
        ((upperCase b).toList.drop 2)))
    ∧ (∀ a b, lookalike crates a b = true ↔
      DifferentAddresses crates a b ∧ ∃ x y, AfterTwo (upperCase a) x ∧ AfterTwo (upperCase b) y
        ∧ SharesEdges 2 8 (asBytes x) (asBytes y)) := by
  refine ⟨?_, lookalike_comm crates, ?_, ?_, ?_⟩
  · intro session address
    exact checkTarget_iff session address
  · intro a b
    refine ⟨lookalike_spelling (hcase a), ?_⟩
    rw [lookalike_comm, lookalike_comm crates a]
    exact lookalike_spelling (hcase b)
  · intro a b ha hb
    rw [lookalike_iff, sharesEdges_ascii ha hb]
    rfl
  · intro a b
    rw [lookalike_iff, sharesEdges_iff]
    rfl

/-! Two addresses, and any spelling of them. -/

/-- The payloads of two addresses, in any case. -/
def parseTwo (first second s : String) : Option (List UInt8) :=
  if upperCase s = upperCase first then some (List.replicate 32 0)
  else if upperCase s = upperCase second then some (List.replicate 32 1)
  else none

theorem parseTwo_case (first second s : String) :
    parseTwo first second (upperCase s) = parseTwo first second (lowerCase s) := by
  rw [parseTwo, parseTwo, upperCase_upperCase, upperCase_lowerCase]

/-- Crates that know two addresses. -/
def twoAddresses (first second : String) : Crates :=
  { oneByteCrates with parseAddress := parseTwo first second }

theorem twoAddresses_parse (first second s : String) :
    (twoAddresses first second).parseAddress s = parseTwo first second s := by
  rw [twoAddresses]

theorem twoAddresses_case (first second s : String) :
    (twoAddresses first second).parseAddress (upperCase s)
      = (twoAddresses first second).parseAddress (lowerCase s) := by
  rw [twoAddresses_parse, twoAddresses_parse, parseTwo_case]

/-- Two texts that differ by more than case are different addresses. -/
theorem twoAddresses_different {first second : String}
    (hne : first.toList.map Char.toUpper ≠ second.toList.map Char.toUpper) :
    DifferentAddresses (twoAddresses first second) first second := by
  have hne' : upperCase second ≠ upperCase first := fun h => hne (String.ofList_injective h).symm
  refine ⟨⟨List.replicate 32 0, List.length_replicate⟩,
    ⟨List.replicate 32 1, List.length_replicate⟩, addressPayload_of_parse ?_,
    addressPayload_of_parse ?_, ?_⟩
  · rw [twoAddresses_parse, parseTwo, if_pos rfl]
  · rw [twoAddresses_parse, parseTwo, if_neg hne', if_pos rfl]
  · intro heq
    have hbytes := congrArg Subtype.val heq
    exact absurd hbytes (by decide)

/-- In ASCII, one letter in the middle of them does not tell two addresses apart. -/
theorem lookalike_verdicts_middle :
    lookalike (twoAddresses "q1abcdxwxyz" "Q1ABCDYWXYZ") "q1abcdxwxyz" "Q1ABCDYWXYZ" = true := by
  obtain ⟨-, -, -, hascii, -⟩ := lookalike_verdicts
    (twoAddresses_case "q1abcdxwxyz" "Q1ABCDYWXYZ")
  refine (hascii _ _ (ascii_of_all (by decide +kernel)) (ascii_of_all (by decide +kernel))).mpr
    ⟨twoAddresses_different (by decide +kernel), ?_⟩
  rw [toList_upperCase, toList_upperCase]
  refine ⟨4, 4, ?_, ?_, le_rfl, ⟨"ABCD".toList, rfl, ?_, ?_⟩, ⟨"WXYZ".toList, rfl, ?_, ?_⟩⟩
  all_goals decide +kernel

/-- Two addresses whose second character goes over the second byte share as many
    characters, and there is no verdict. -/
theorem split_character_escapes :
    DifferentAddresses (twoAddresses "Qéabcdxwxyz" "Qéabcdywxyz") "Qéabcdxwxyz" "Qéabcdywxyz"
      ∧ SharesEdges 2 8 ((upperCase "Qéabcdxwxyz").toList.drop 2)
        ((upperCase "Qéabcdywxyz").toList.drop 2)
      ∧ (∀ s, (twoAddresses "Qéabcdxwxyz" "Qéabcdywxyz").parseAddress (upperCase s)
        = (twoAddresses "Qéabcdxwxyz" "Qéabcdywxyz").parseAddress (lowerCase s))
      ∧ lookalike (twoAddresses "Qéabcdxwxyz" "Qéabcdywxyz") "Qéabcdxwxyz" "Qéabcdywxyz"
        = false := by
  refine ⟨twoAddresses_different (by decide +kernel), ?_, twoAddresses_case _ _, ?_⟩
  · rw [toList_upperCase, toList_upperCase]
    refine ⟨4, 4, ?_, ?_, le_rfl, ⟨"ABCD".toList, rfl, ?_, ?_⟩, ⟨"WXYZ".toList, rfl, ?_, ?_⟩⟩
    all_goals decide +kernel
  · have hedges : sharesEdges "Qéabcdxwxyz" "Qéabcdywxyz" = false := by decide +kernel
    rw [← Bool.not_eq_true, lookalike_iff, hedges]
    exact fun h => Bool.false_ne_true h.2

end QCoreLookalike
