import Mathlib.Data.List.Sort
import Mathlib.Order.Basic
import Mathlib.Tactic.Common

/-! # Maps kept in key order

    A finite map over a linear order, stored as the list of its entries in
    strictly ascending key order.  The order is a field, so the iteration order
    of a map is a function of its contents: two maps that answer every `get`
    alike are equal (`SortedMap.ext_get`). -/

namespace QCoreSortedMap

variable {K V : Type} [LinearOrder K]

/-- A finite map with its entries in strictly ascending key order. -/
structure SortedMap (K V : Type) [LinearOrder K] where
  entries : List (K × V)
  sorted : entries.Pairwise (fun a b => a.1 < b.1)
  deriving DecidableEq

/-- The value a list of entries gives a key. -/
def lookupEntry (k : K) : List (K × V) → Option V
  | [] => none
  | (k', v) :: rest => if k = k' then some v else lookupEntry k rest

/-- Put an entry at its place in an ascending list. -/
def insertEntry (k : K) (v : V) : List (K × V) → List (K × V)
  | [] => [(k, v)]
  | (k', v') :: rest =>
      if k < k' then (k, v) :: (k', v') :: rest
      else if k = k' then (k, v) :: rest
      else (k', v') :: insertEntry k v rest

/-- After an insertion there is the new entry and what there was. -/
theorem mem_insertEntry {k : K} {v : V} {l : List (K × V)} {e : K × V}
    (h : e ∈ insertEntry k v l) : e = (k, v) ∨ e ∈ l := by
  induction l with
  | nil => exact Or.inl (by simpa [insertEntry] using h)
  | cons hd rest ih =>
      obtain ⟨k', v'⟩ := hd
      rw [insertEntry] at h
      split_ifs at h with hlt heq
      · rcases List.mem_cons.mp h with h | h
        · exact Or.inl h
        · exact Or.inr h
      · rcases List.mem_cons.mp h with h | h
        · exact Or.inl h
        · exact Or.inr (List.mem_cons_of_mem _ h)
      · rcases List.mem_cons.mp h with h | h
        · exact Or.inr (h ▸ List.mem_cons_self)
        · rcases ih h with h | h
          · exact Or.inl h
          · exact Or.inr (List.mem_cons_of_mem _ h)

/-- An insertion keeps the order. -/
theorem insertEntry_sorted {k : K} {v : V} {l : List (K × V)}
    (h : l.Pairwise (fun a b => a.1 < b.1)) :
    (insertEntry k v l).Pairwise (fun a b => a.1 < b.1) := by
  induction l with
  | nil => exact List.pairwise_singleton _ _
  | cons hd rest ih =>
      obtain ⟨k', v'⟩ := hd
      obtain ⟨hhd, hrest⟩ := List.pairwise_cons.mp h
      rw [insertEntry]
      split_ifs with hlt heq
      · refine List.pairwise_cons.mpr ⟨?_, h⟩
        intro e he
        rcases List.mem_cons.mp he with he | he
        · rw [he]; exact hlt
        · exact lt_trans hlt (hhd e he)
      · subst heq
        exact List.pairwise_cons.mpr ⟨hhd, hrest⟩
      · refine List.pairwise_cons.mpr ⟨?_, ih hrest⟩
        intro e he
        rcases mem_insertEntry he with he | he
        · rw [he]; exact lt_of_le_of_ne (not_lt.mp hlt) (Ne.symm heq)
        · exact hhd e he

/-- An insertion changes its own key. -/
theorem lookupEntry_insertEntry (k k' : K) (v : V) (l : List (K × V)) :
    lookupEntry k' (insertEntry k v l)
      = if k' = k then some v else lookupEntry k' l := by
  induction l with
  | nil => rfl
  | cons hd rest ih =>
      obtain ⟨k₀, v₀⟩ := hd
      rw [insertEntry]
      split_ifs with hlt heq hk hk <;> simp only [lookupEntry, ih] <;> split_ifs <;>
        simp_all

/-- In an ascending list, membership of an entry is lookup of its key. -/
theorem lookupEntry_eq_some {l : List (K × V)}
    (hs : l.Pairwise (fun a b => a.1 < b.1)) {k : K} {v : V} :
    lookupEntry k l = some v ↔ (k, v) ∈ l := by
  induction l with
  | nil => simp [lookupEntry]
  | cons hd rest ih =>
      obtain ⟨k', v'⟩ := hd
      obtain ⟨hhd, hrest⟩ := List.pairwise_cons.mp hs
      rw [lookupEntry, List.mem_cons]
      split_ifs with heq
      · subst heq
        constructor
        · intro h; exact Or.inl (by rw [Option.some.inj h])
        · rintro (h | h)
          · rw [(Prod.mk.inj h).2]
          · exact absurd (hhd _ h) (lt_irrefl _)
      · rw [ih hrest]
        constructor
        · exact Or.inr
        · rintro (h | h)
          · exact absurd (Prod.mk.inj h).1 heq
          · exact h

namespace SortedMap

/-- The empty map. -/
def empty : SortedMap K V := ⟨[], List.Pairwise.nil⟩

instance : EmptyCollection (SortedMap K V) := ⟨empty⟩

instance : Inhabited (SortedMap K V) := ⟨∅⟩

/-- The value at a key. -/
def get (m : SortedMap K V) (k : K) : Option V := lookupEntry k m.entries

/-- Whether a key is present. -/
def containsKey (m : SortedMap K V) (k : K) : Bool := (m.get k).isSome

/-- Set the value at a key. -/
def insert (m : SortedMap K V) (k : K) (v : V) : SortedMap K V :=
  ⟨insertEntry k v m.entries, insertEntry_sorted m.sorted⟩

/-- Keep the entries a test accepts. -/
def retain (m : SortedMap K V) (p : K → V → Bool) : SortedMap K V :=
  ⟨m.entries.filter (fun e => p e.1 e.2), m.sorted.filter _⟩

/-- Insert every entry of a list, in order. -/
def insertMany (m : SortedMap K V) (l : List (K × V)) : SortedMap K V :=
  l.foldl (fun m e => m.insert e.1 e.2) m

/-- Insert every entry of another map. -/
def extend (m m' : SortedMap K V) : SortedMap K V := m.insertMany m'.entries

theorem mem_entries {m : SortedMap K V} {k : K} {v : V} :
    (k, v) ∈ m.entries ↔ m.get k = some v :=
  (lookupEntry_eq_some m.sorted).symm

/-- **A map is its lookups**: equal answers, equal maps. -/
theorem ext_get {m m' : SortedMap K V} (h : ∀ k, m.get k = m'.get k) : m = m' := by
  have hmem : ∀ e : K × V, e ∈ m.entries ↔ e ∈ m'.entries := by
    intro e
    rw [mem_entries, mem_entries, h e.1]
  have hlist : m.entries = m'.entries := by
    have hanti : Std.Antisymm (fun a b : K × V => a.1 < b.1) :=
      ⟨fun a b hab hba => absurd hab (lt_asymm hba)⟩
    have hirr : Std.Irrefl (fun a b : K × V => a.1 < b.1) := ⟨fun a => lt_irrefl _⟩
    exact List.Pairwise.eq_of_mem_iff m.sorted m'.sorted hmem
  cases m; cases m'
  cases hlist
  rfl

@[simp, grind =] theorem get_empty (k : K) : (∅ : SortedMap K V).get k = none := rfl

@[grind =] theorem get_insert (m : SortedMap K V) (k k' : K) (v : V) :
    (m.insert k v).get k' = if k' = k then some v else m.get k' :=
  lookupEntry_insertEntry k k' v m.entries

theorem get_retain_eq_some {m : SortedMap K V} {p : K → V → Bool} {k : K} {v : V} :
    (m.retain p).get k = some v ↔ m.get k = some v ∧ p k v = true := by
  rw [← mem_entries, ← mem_entries]
  exact List.mem_filter

@[grind =] theorem get_retain (m : SortedMap K V) (p : K → V → Bool) (k : K) :
    (m.retain p).get k = (m.get k).filter (p k) := by
  ext v
  rw [get_retain_eq_some, Option.filter_eq_some_iff]

/-- Of many insertions under a key the last is found. -/
theorem get_insertMany_aux (k : K) (l : List (K × V)) :
    ∀ (m : SortedMap K V) (acc : Option V), m.get k = acc →
      (m.insertMany l).get k
        = l.foldl (fun acc e => if k = e.1 then some e.2 else acc) acc := by
  induction l with
  | nil => intro m acc h; exact h
  | cons e rest ih =>
      intro m acc h
      refine ih (m.insert e.1 e.2) _ ?_
      rw [get_insert, h]

/-- Over an ascending list the last entry of a key is its only one. -/
theorem foldl_entry_sorted {l : List (K × V)}
    (hs : l.Pairwise (fun a b => a.1 < b.1)) (k : K) :
    ∀ acc : Option V,
      l.foldl (fun acc e => if k = e.1 then some e.2 else acc) acc
        = (lookupEntry k l).or acc := by
  induction l with
  | nil => intro acc; rfl
  | cons e rest ih =>
      obtain ⟨k', v'⟩ := e
      obtain ⟨hhd, hrest⟩ := List.pairwise_cons.mp hs
      intro acc
      rw [List.foldl_cons, ih hrest, lookupEntry]
      by_cases heq : k = k'
      · have hnone : lookupEntry k rest = none := by
          cases hl : lookupEntry k rest with
          | none => rfl
          | some v =>
              have := hhd _ ((lookupEntry_eq_some hrest).mp hl)
              exact absurd (heq ▸ this) (lt_irrefl _)
        simp [heq, heq ▸ hnone]
      · simp [heq]

@[grind =] theorem get_extend (m m' : SortedMap K V) (k : K) :
    (m.extend m').get k = (m'.get k).or (m.get k) := by
  rw [extend, get_insertMany_aux k m'.entries m _ rfl]
  exact foldl_entry_sorted m'.sorted k _

/-! ## Order and size -/

/-- How many keys there are. -/
def len (m : SortedMap K V) : Nat := m.entries.length

/-- Drop a key. -/
def remove (m : SortedMap K V) (k : K) : SortedMap K V := m.retain (fun k' _ => k' ≠ k)

/-- The entry of the greatest key up to a bound. -/
def lastUpTo (m : SortedMap K V) (bound : K) : Option (K × V) :=
  (m.entries.filter (fun e => e.1 ≤ bound)).getLast?

/-- The second smallest key. -/
def secondKey (m : SortedMap K V) : Option K := (m.entries.map Prod.fst)[1]?

theorem lastUpTo_some {m : SortedMap K V} {bound k : K} {v : V}
    (h : m.lastUpTo bound = some (k, v)) : m.get k = some v ∧ k ≤ bound := by
  obtain ⟨hmem, hle⟩ := List.mem_filter.mp (List.mem_of_getLast? h)
  exact ⟨mem_entries.mp hmem, of_decide_eq_true hle⟩

/-- A removal takes away its own key. -/
@[grind =] theorem get_remove (m : SortedMap K V) (k k' : K) :
    (m.remove k).get k' = if k' = k then none else m.get k' := by
  rw [remove, get_retain]
  cases hget : m.get k' with
  | none => simp
  | some v => by_cases hk : k' = k <;> simp [hk]

/-- The second smallest key is a key, and another key is below it. -/
theorem secondKey_some {m : SortedMap K V} {k : K} (h : m.secondKey = some k) :
    (∃ v, m.get k = some v) ∧ ∃ k₀ v₀, m.get k₀ = some v₀ ∧ k₀ < k := by
  match m, h with
  | ⟨(k₀, v₀) :: (k₁, v₁) :: rest, hsorted⟩, h =>
      cases h
      have hlt : k₀ < k₁ := (List.pairwise_cons.mp hsorted).1 _ List.mem_cons_self
      exact ⟨⟨v₁, mem_entries.mp (List.mem_cons_of_mem _ List.mem_cons_self)⟩,
        k₀, v₀, mem_entries.mp List.mem_cons_self, hlt⟩

theorem secondKey_isSome {m : SortedMap K V} (h : 1 < m.len) : ∃ k, m.secondKey = some k := by
  rw [len] at h
  exact ⟨_, List.getElem?_eq_getElem (by rw [List.length_map]; exact h)⟩

/-- An insertion adds one entry at most. -/
theorem length_insertEntry_le (k : K) (v : V) (l : List (K × V)) :
    (insertEntry k v l).length ≤ l.length + 1 := by
  induction l with
  | nil => exact Nat.le_refl _
  | cons e rest ih =>
      rw [insertEntry]
      split_ifs with hlt heq
      · exact Nat.le_refl _
      · exact Nat.le_succ _
      · exact Nat.succ_le_succ ih

theorem len_insert_le (m : SortedMap K V) (k : K) (v : V) : (m.insert k v).len ≤ m.len + 1 :=
  length_insertEntry_le k v m.entries

/-- Dropping a key that is there makes the map smaller. -/
theorem len_remove_lt {m : SortedMap K V} {k : K} {v : V} (h : m.get k = some v) :
    (m.remove k).len < m.len :=
  List.length_filter_lt_length_iff_exists.mpr ⟨(k, v), mem_entries.mpr h, by simp⟩

end SortedMap

end QCoreSortedMap
