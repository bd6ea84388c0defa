import Mathlib
import QCore.JsonAcceptProofs

/-! # Parsing what the writer wrote

    `parse_render`: for every value whose arrays and objects nest at most
    `maxDepth` deep and whose objects have distinct keys, parsing its rendering
    gives the value back.  The proof follows the writer: what it writes for each
    kind of value is a text of the grammar, and the parser reads every text of
    the grammar.  No other value comes out of a parse, so the condition is exact. -/

namespace QCoreJsonRoundTrip

open QCoreMachineInt QCoreUtf8 QCoreJson QCoreJsonGrammar QCoreJsonAccept

/-! ## Written strings -/

/-- Four digits of a code below 2^16 spell the code. -/
theorem hex4_hex04 {n : Nat} (h : n < 65536) : Hex4 (hex04 n).toList n := by
  have hd : ∀ m, HexDigit (m % 16).digitChar (m % 16) := fun m =>
    ⟨Nat.mod_lt _ (by decide), Or.inl rfl⟩
  have hsum : n / 4096 % 16 * 4096 + n / 256 % 16 * 256 + n / 16 % 16 * 16 + n % 16 = n := by
    omega
  have h4 := Hex4.digits (hd (n / 4096)) (hd (n / 256)) (hd (n / 16)) (hd n)
  rw [hsum] at h4
  rw [hex04, String.toList_ofList]
  exact h4

/-- The writer leaves the characters a string carries as themselves. -/
theorem escapeChar_raw {c : Char} (h : isRaw c = true) : (escapeChar c).toList = [c] := by
  simp only [isRaw, Bool.and_eq_true, bne_iff_ne, ne_eq, decide_eq_true_eq] at h
  obtain ⟨⟨hquote, hslash⟩, hctl⟩ := h
  have hn : c ≠ '\n' := by intro hc; rw [hc] at hctl; exact absurd hctl (by decide)
  have hr : c ≠ '\r' := by intro hc; rw [hc] at hctl; exact absurd hctl (by decide)
  have ht : c ≠ '\t' := by intro hc; rw [hc] at hctl; exact absurd hctl (by decide)
  simp only [escapeChar, hquote, hslash, hn, hr, ht, if_false]
  rw [if_neg (Nat.not_lt.mpr hctl), String.toList_singleton]

/-- **Any other character is written as an escape** that means it. -/
theorem escapeChar_escape {c : Char} (h : isRaw c = false) :
    ∃ es, (escapeChar c).toList = '\\' :: es ∧ Escape es c := by
  by_cases hq : c = '"'
  · subst hq; exact ⟨['"'], by decide, .quote⟩
  by_cases hs : c = '\\'
  · subst hs; exact ⟨['\\'], by decide, .backslash⟩
  by_cases hn : c = '\n'
  · subst hn; exact ⟨['n'], by decide, .newline⟩
  by_cases hr : c = '\r'
  · subst hr; exact ⟨['r'], by decide, .carriageReturn⟩
  by_cases ht : c = '\t'
  · subst ht; exact ⟨['t'], by decide, .tab⟩
  have hctl : c.toNat < 32 := by
    by_contra hge
    rw [isRaw] at h
    simp [hq, hs, Nat.not_lt.mp hge] at h
  refine ⟨'u' :: (hex04 c.toNat).toList, ?_, .code (hex4_hex04 (by omega))⟩
  have hu : "\\u".toList = ['\\', 'u'] := by decide
  simp only [escapeChar, hq, hs, hn, hr, ht, if_false, if_pos hctl, String.toList_append, hu]
  rfl

/-- The escaped characters are the body of a string. -/
theorem escapeChars_body (cs : List Char) : StringBody (escapeChars cs).toList cs := by
  induction cs with
  | nil => exact .nil
  | cons c cs ih =>
      rw [escapeChars, String.toList_append]
      cases hc : isRaw c with
      | true =>
          rw [escapeChar_raw hc]
          exact .raw hc ih
      | false =>
          obtain ⟨es, hes, he⟩ := escapeChar_escape hc
          rw [hes, List.cons_append]
          exact .escape he ih

/-- **A written string is a string of the grammar.** -/
theorem writeString_text (s : String) : StringText (writeString s).toList s := by
  have hq : "\"".toList = ['"'] := by decide
  have h := StringText.quoted (escapeChars_body s.toList)
  rw [String.ofList_toList] at h
  rw [writeString, String.toList_append, String.toList_append, hq]
  exact h

/-! ## Written numbers -/

/-- A positive number's decimal text does not start with a zero. -/
theorem head_toDigits_ne_zero :
    ∀ n : Nat, 0 < n → (Nat.toDigits 10 n).head? ≠ some '0' := by
  intro n
  induction n using Nat.strong_induction_on with
  | _ n ih =>
      intro hpos
      by_cases hlt : n < 10
      · rw [Nat.toDigits_of_lt_base hlt]
        have hd : ∀ m : Fin 10, 0 < m.val → m.val.digitChar ≠ '0' := by decide
        intro h
        exact hd ⟨n, hlt⟩ hpos (Option.some.inj h)
      · rw [Nat.toDigits_of_base_le (by decide) (Nat.not_lt.mp hlt)]
        have hrec := ih (n / 10) (by omega) (by omega)
        cases hdig : Nat.toDigits 10 (n / 10) with
        | nil => exact absurd hdig Nat.toDigits_ne_nil
        | cons d ds =>
            rw [hdig] at hrec
            exact hrec

/-- A number is written in the bytes of its digits. -/
theorem asBytes_nat (n : Nat) :
    asBytes (toString n) = (Nat.toDigits 10 n).map asciiByte := by
  have hdig : ∀ c ∈ Nat.toDigits 10 n, c.isDigit = true :=
    fun c hc => Nat.isDigit_of_mem_toDigits (by decide) (by decide) hc
  rw [Nat.toString_eq_ofList_toDigits, asBytes, String.toList_ofList]
  exact encode_digits hdig

/-- **A written number is a number of the grammar.** -/
theorem toString_number (n : U64) : NumberText (toString n.val).toList n := by
  rw [Nat.toString_eq_ofList_toDigits, String.toList_ofList]
  refine ⟨Nat.toDigits_ne_nil, ?_, ?_, Nat.ofDigitChars_ten_toDigits⟩
  · intro c hc
    exact Nat.isDigit_of_mem_toDigits (by decide) (by decide) hc
  · intro hhead
    have hzero : n.val = 0 := by
      by_contra hne
      exact head_toDigits_ne_zero n.val (Nat.pos_of_ne_zero hne) hhead
    rw [hzero, Nat.toDigits_zero]

/-! ## Written values -/

mutual

/-- How many arrays and objects a value nests. -/
def Json.height : Json → Nat
  | .null => 0
  | .bool _ => 0
  | .int _ => 0
  | .str _ => 0
  | .array items => Json.heightItems items + 1
  | .object fields => Json.heightFields fields + 1

/-- How deep some items are nested. -/
def Json.heightItems : List Json → Nat
  | [] => 0
  | v :: vs => max (Json.height v) (Json.heightItems vs)

/-- How deep some fields are. -/
def Json.heightFields : List (String × Json) → Nat
  | [] => 0
  | (_, v) :: fs => max (Json.height v) (Json.heightFields fs)

end

mutual

/-- No object of the value names a key twice. -/
def Json.DistinctKeys : Json → Prop
  | .null => True
  | .bool _ => True
  | .int _ => True
  | .str _ => True
  | .array items => Json.DistinctItems items
  | .object fields => (fields.map Prod.fst).Nodup ∧ Json.DistinctFields fields

/-- No object among some items names a key twice. -/
def Json.DistinctItems : List Json → Prop
  | [] => True
  | v :: vs => Json.DistinctKeys v ∧ Json.DistinctItems vs

/-- None among some fields does. -/
def Json.DistinctFields : List (String × Json) → Prop
  | [] => True
  | (_, v) :: fs => Json.DistinctKeys v ∧ Json.DistinctFields fs

end

theorem distinctItems_iff {items : List Json} :
    Json.DistinctItems items ↔ ∀ v ∈ items, Json.DistinctKeys v := by
  induction items with
  | nil => simp [Json.DistinctItems]
  | cons v vs ih => rw [Json.DistinctItems, ih, List.forall_mem_cons]

theorem heightItems_le_iff {items : List Json} {n : Nat} :
    Json.heightItems items ≤ n ↔ ∀ v ∈ items, Json.height v ≤ n := by
  induction items with
  | nil => simp [Json.heightItems]
  | cons v vs ih => rw [Json.heightItems, Nat.max_le, ih, List.forall_mem_cons]

/-- Keys are distinct in the fields of an object where they are in each. -/
theorem distinctFields_iff {fields : List (String × Json)} :
    Json.DistinctFields fields ↔ ∀ f ∈ fields, Json.DistinctKeys f.2 := by
  induction fields with
  | nil => simp [Json.DistinctFields]
  | cons f fs ih =>
      obtain ⟨k, v⟩ := f
      rw [Json.DistinctFields, ih, List.forall_mem_cons]

/-- Fields are no higher than a bound where none of them is. -/
theorem heightFields_le_iff {fields : List (String × Json)} {n : Nat} :
    Json.heightFields fields ≤ n ↔ ∀ f ∈ fields, Json.height f.2 ≤ n := by
  induction fields with
  | nil => simp [Json.heightFields]
  | cons f fs ih =>
      obtain ⟨k, v⟩ := f
      rw [Json.heightFields, Nat.max_le, ih, List.forall_mem_cons]

theorem blank_nil : Blank [] := by
  intro c hc
  cases hc

/-- Items written with a comma and nothing else between them. -/
theorem items_written {V : List Char → Json → Prop} :
    ∀ {items : List Json}, items ≠ [] → (∀ v ∈ items, V v.write.toList v) →
      Items V (Json.writeItems items).toList items
  | [] => fun hne _ => absurd rfl hne
  | [v] => by
      intro _ hv
      have hlast := Items.last blank_nil (hv v (by simp)) blank_nil
      rw [List.nil_append, List.append_nil] at hlast
      exact hlast
  | v :: w :: rest => by
      intro _ hv
      have hrest := items_written (List.cons_ne_nil w rest)
        (fun u hu => hv u (List.mem_cons_of_mem _ hu))
      have hcomma : ",".toList = [','] := by decide
      have hmore := Items.more blank_nil (hv v (by simp)) blank_nil hrest
      rw [List.nil_append, List.append_nil] at hmore
      rw [Json.writeItems, String.toList_append, String.toList_append, hcomma,
        List.append_assoc]
      exact hmore

theorem field_written {V : List Char → Json → Prop} {k : String} {v : Json}
    (hv : V v.write.toList v) :
    Field V ((writeString k).toList ++ ':' :: v.write.toList) (k, v) := by
  have hfield := Field.field blank_nil (writeString_text k) blank_nil blank_nil hv blank_nil
  simpa using hfield

/-- Fields written with a comma and nothing else between them. -/
theorem fields_written {V : List Char → Json → Prop} :
    ∀ {fields : List (String × Json)}, fields ≠ [] → (∀ f ∈ fields, V f.2.write.toList f.2) →
      Fields V (Json.writeFields fields).toList fields
  | [] => fun hne _ => absurd rfl hne
  | [(k, v)] => by
      intro _ hv
      have hcolon : ":".toList = [':'] := by decide
      rw [Json.writeFields, String.toList_append, String.toList_append, hcolon,
        List.append_assoc]
      exact .last (field_written (hv (k, v) (by simp)))
  | (k, v) :: f :: rest => by
      intro _ hv
      have hrest := fields_written (List.cons_ne_nil f rest)
        (fun g hg => hv g (List.mem_cons_of_mem _ hg))
      have hcolon : ":".toList = [':'] := by decide
      have hcomma : ",".toList = [','] := by decide
      have hmore := Fields.more (field_written (k := k) (hv (k, v) (by simp))) hrest
      simpa [Json.writeFields, String.toList_append, hcolon, hcomma] using hmore

/-- Brackets or braces around what they hold. -/
theorem toList_between (l r : Char) (s : String) :
    (String.singleton l ++ s ++ String.singleton r).toList = l :: (s.toList ++ [r]) := by
  simp [String.toList_append, String.toList_singleton]

mutual

/-- **A written value is a text of the grammar** at any depth it fits in. -/
theorem write_value : ∀ (v : Json), Json.DistinctKeys v → ∀ n, Json.height v ≤ n →
    Value n v.write.toList v
  | .null => fun _ n _ => Scalar.null.value n
  | .bool true => fun _ n _ => Scalar.true.value n
  | .bool false => fun _ n _ => Scalar.false.value n
  | .int m => fun _ n _ => (Scalar.int (toString_number m)).value n
  | .str s => fun _ n _ => (Scalar.str (writeString_text s)).value n
  | .array items => by
      intro hdist n hheight
      rw [Json.DistinctKeys] at hdist
      rw [Json.height] at hheight
      obtain ⟨n, rfl⟩ : ∃ m, n = m + 1 := ⟨n - 1, by omega⟩
      right
      show Nested (Value n) (String.singleton '[' ++ Json.writeItems items ++
        String.singleton ']').toList _
      rw [toList_between]
      cases items with
      | nil => exact .emptyArray blank_nil
      | cons v vs =>
          exact .array (items_written (List.cons_ne_nil _ _)
            (write_items (v :: vs) hdist n (by omega)))
  | .object fields => by
      intro hdist n hheight
      rw [Json.DistinctKeys] at hdist
      rw [Json.height] at hheight
      obtain ⟨n, rfl⟩ : ∃ m, n = m + 1 := ⟨n - 1, by omega⟩
      right
      show Nested (Value n) (String.singleton '\x7b' ++ Json.writeFields fields ++
        String.singleton '\x7d').toList _
      rw [toList_between]
      cases fields with
      | nil => exact .emptyObject blank_nil
      | cons f fs =>
          exact .object (fields_written (List.cons_ne_nil _ _)
            (write_fields (f :: fs) hdist.2 n (by omega))) hdist.1

/-- What is written for the items of a list is their text. -/
theorem write_items : ∀ (items : List Json), Json.DistinctItems items → ∀ n,
    Json.heightItems items ≤ n → ∀ v ∈ items, Value n v.write.toList v
  | [] => fun _ _ _ _ hv => absurd hv List.not_mem_nil
  | v :: vs => by
      intro hdist n hheight
      rw [Json.DistinctItems] at hdist
      rw [Json.heightItems] at hheight
      intro u hu
      rcases List.mem_cons.mp hu with hu | hu
      · rw [hu]
        exact write_value v hdist.1 n (by omega)
      · exact write_items vs hdist.2 n (by omega) u hu

/-- What is written for the fields of an object is their text. -/
theorem write_fields : ∀ (fields : List (String × Json)), Json.DistinctFields fields → ∀ n,
    Json.heightFields fields ≤ n → ∀ f ∈ fields, Value n f.2.write.toList f.2
  | [] => fun _ _ _ _ hf => absurd hf List.not_mem_nil
  | (k, v) :: fs => by
      intro hdist n hheight
      rw [Json.DistinctFields] at hdist
      rw [Json.heightFields] at hheight
      intro g hg
      rcases List.mem_cons.mp hg with hg | hg
      · rw [hg]
        exact write_value v hdist.1 n (by omega)
      · exact write_fields fs hdist.2 n (by omega) g hg

end

/-- **The round trip**: parsing a rendered value gives the value back. -/
theorem parse_render {v : Json} (hdist : Json.DistinctKeys v)
    (hheight : Json.height v ≤ maxDepth) : parse v.render = .ok v := by
  refine parse_of_text ?_
  have htext := Text.padded blank_nil (write_value v hdist 128 hheight) blank_nil
  rw [List.nil_append, List.append_nil] at htext
  exact htext

/-! ## Only such values are parsed -/

/-- Each item of a list has a text. -/
theorem items_forall {V : List Char → Json → Prop} {cs : List Char} {vs : List Json}
    (h : Items V cs vs) : ∀ v ∈ vs, ∃ t, V t v := by
  induction h with
  | last hw hv hw' =>
      intro v hmem
      rw [List.mem_singleton.mp hmem]
      exact ⟨_, hv⟩
  | more hw hv hw' hvs ih =>
      intro v hmem
      rcases List.mem_cons.mp hmem with rfl | hmem
      · exact ⟨_, hv⟩
      · exact ih v hmem

/-- Each field of an object has a text. -/
theorem fields_forall {V : List Char → Json → Prop} {cs : List Char}
    {fs : List (String × Json)} (h : Fields V cs fs) : ∀ f ∈ fs, ∃ t, V t f.2 := by
  have hfield : ∀ {cs : List Char} {f : String × Json}, Field V cs f → ∃ t, V t f.2 := by
    intro cs f hf
    cases hf with
    | field hw hk hw' hu hv hu' => exact ⟨_, hv⟩
  induction h with
  | last hf =>
      intro g hmem
      rw [List.mem_singleton.mp hmem]
      exact hfield hf
  | more hf hfs ih =>
      intro g hmem
      rcases List.mem_cons.mp hmem with rfl | hmem
      · exact hfield hf
      · exact ih g hmem

theorem scalar_shape {t : List Char} {v : Json} (h : Scalar t v) :
    Json.DistinctKeys v ∧ Json.height v = 0 := by
  cases h <;> exact ⟨trivial, rfl⟩

/-- A value of the grammar is as deep as its text may be, and has distinct keys. -/
theorem value_shape : ∀ (n : Nat) {t : List Char} {v : Json}, Value n t v →
    Json.DistinctKeys v ∧ Json.height v ≤ n := by
  intro n
  induction n with
  | zero =>
      intro t v h
      obtain ⟨hdist, hheight⟩ := scalar_shape h
      exact ⟨hdist, Nat.le_of_eq hheight⟩
  | succ n ih =>
      intro t v h
      rcases h with h | h
      · obtain ⟨hdist, hheight⟩ := scalar_shape h
        exact ⟨hdist, by omega⟩
      cases h with
      | emptyArray hw => simp [Json.DistinctKeys, Json.DistinctItems, Json.height, Json.heightItems]
      | emptyObject hw =>
          simp [Json.DistinctKeys, Json.DistinctFields, Json.height, Json.heightFields]
      | array hvs =>
          have hall := items_forall hvs
          rw [Json.DistinctKeys, distinctItems_iff, Json.height, Nat.add_le_add_iff_right,
            heightItems_le_iff]
          constructor
          · intro v hv
            obtain ⟨t, ht⟩ := hall v hv
            exact (ih ht).1
          · intro v hv
            obtain ⟨t, ht⟩ := hall v hv
            exact (ih ht).2
      | object hfs hdistinct =>
          have hall := fields_forall hfs
          rw [Json.DistinctKeys, distinctFields_iff, Json.height, Nat.add_le_add_iff_right,
            heightFields_le_iff]
          refine ⟨⟨hdistinct, ?_⟩, ?_⟩
          · intro f hf
            obtain ⟨t, ht⟩ := hall f hf
            exact (ih ht).1
          · intro f hf
            obtain ⟨t, ht⟩ := hall f hf
            exact (ih ht).2

/-- **What the writer can hand to the parser**: a value comes back from its
    rendering exactly when its objects have distinct keys and it nests at most
    `maxDepth` deep. -/
theorem render_recovered_iff (v : Json) :
    parse v.render = .ok v ↔ Json.DistinctKeys v ∧ Json.height v ≤ maxDepth := by
  constructor
  · intro h
    have hreads := parse_reads v.render
    rw [h] at hreads
    generalize v.render.toList = cs at hreads
    cases hreads with
    | padded hw hv hw' => exact value_shape 128 hv
  · rintro ⟨hdist, hheight⟩
    exact parse_render hdist hheight

end QCoreJsonRoundTrip
