import Mathlib

/-! # Hash maps as duplicate-free entry lists

    A hash map is Mathlib's `AList`: entries with distinct keys in some order.
    The order stands for the iteration order, which a program may not rely on;
    what it may rely on are the lookups, and every lemma here is about those. -/

namespace QCoreHashMap

variable {K V W : Type} [DecidableEq K]

/-- A finite map whose entries come in no particular order. -/
abbrev HashMap (K V : Type) := AList (fun _ : K => V)

/-- An insertion changes its own key. -/
@[grind =] theorem lookup_insert (m : HashMap K V) (k k' : K) (v : V) :
    (m.insert k v).lookup k' = if k' = k then some v else m.lookup k' := by
  by_cases h : k' = k
  · subst h
    rw [if_pos rfl, AList.lookup_insert]
  · rw [if_neg h, AList.lookup_insert_ne h]

theorem mem_entries {m : HashMap K V} {k : K} {v : V} :
    ⟨k, v⟩ ∈ m.entries ↔ m.lookup k = some v :=
  (AList.mem_lookup_iff (a := k) (b := v) (s := m)).symm

theorem mem_keys {m : HashMap K V} {k : K} : k ∈ m.keys ↔ (m.lookup k).isSome = true := by
  rw [AList.lookup_isSome]
  exact AList.mem_keys.symm

/-- Visit the entries of a second map, in its order, and combine each into the
    first. -/
def mergeWith (f : Option V → W → V) (m : HashMap K V) (m' : HashMap K W) : HashMap K V :=
  m'.entries.foldl (fun m e => m.insert e.1 (f (m.lookup e.1) e.2)) m

/-- What merging leaves at a key. -/
def merged (f : Option V → W → V) (old : Option V) (new : Option W) : Option V :=
  match new with
  | none => old
  | some w => some (f old w)

/-- **Merging is per key**, whatever order the entries are visited in. -/
@[grind =] theorem lookup_mergeWith (f : Option V → W → V) (m : HashMap K V)
    (m' : HashMap K W) (k : K) :
    (mergeWith f m m').lookup k = merged f (m.lookup k) (m'.lookup k) := by
  have hgen : ∀ (l : List (Sigma fun _ : K => W)), l.NodupKeys → ∀ m : HashMap K V,
      (l.foldl (fun m e => m.insert e.1 (f (m.lookup e.1) e.2)) m).lookup k
        = merged f (m.lookup k) (l.dlookup k) := by
    intro l
    induction l with
    | nil => intro _ m; rfl
    | cons e rest ih =>
        obtain ⟨k', w⟩ := e
        intro hnd m
        rw [List.nodupKeys_cons] at hnd
        rw [List.foldl_cons, ih hnd.2, lookup_insert]
        by_cases h : k = k'
        · subst h
          rw [if_pos rfl, List.dlookup_eq_none.mpr hnd.1, List.dlookup_cons_eq]
          rfl
        · rw [if_neg h, List.dlookup_cons_ne _ _ h]
  exact hgen m'.entries m'.nodupKeys m

end QCoreHashMap
