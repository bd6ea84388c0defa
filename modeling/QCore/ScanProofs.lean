import Mathlib

/-! # Looking for a separator

    A row is searched for the first place at which a separator stands, and split
    there.  What is found does not change when the row grows at its end
    (`find_append`), and in a row that was put together with a separator it is the
    separator that was put there (`find_unbordered`), unless the separator can
    overlap itself or stands inside a piece. -/

namespace QCoreScan

variable {α : Type*}

/-- A separator no end of which is a start of it. -/
def Unbordered (separator : List α) : Prop :=
  ∀ k, 0 < k → k < separator.length → ¬ separator.drop k <+: separator

/-- Before such a separator it does not start in a piece that it does not stand in. -/
theorem not_starts {separator piece rest : List α} (hborder : Unbordered separator)
    (hpiece : ¬ separator <:+: piece) {j : ℕ} (hj : j < piece.length) :
    ¬ separator <+: (piece ++ (separator ++ rest)).drop j := by
  intro hthere
  rw [List.drop_append_of_le_length hj.le] at hthere
  have hdrop : (piece.drop j).length = piece.length - j := List.length_drop
  rcases Nat.lt_or_ge (piece.length - j) separator.length with hlong | hshort
  · -- its end would stand at the start of the separator that follows
    refine hborder (piece.length - j) (by omega) hlong ?_
    obtain ⟨tail, htail⟩ := hthere
    have hcut : separator.drop (piece.length - j) ++ tail = separator ++ rest := by
      have := congrArg (List.drop (piece.length - j)) htail
      rwa [List.drop_append_of_le_length hlong.le, List.drop_left' hdrop] at this
    have hstart : separator.drop (piece.length - j) <+: separator ++ rest := ⟨tail, hcut⟩
    refine List.prefix_of_prefix_length_le hstart (List.prefix_append _ _) ?_
    rw [List.length_drop]
    omega
  · have hinside : separator <+: piece.drop j :=
      List.prefix_of_prefix_length_le hthere (List.prefix_append _ _) (by omega)
    exact hpiece (hinside.isInfix.trans (List.drop_suffix j piece).isInfix)

variable [DecidableEq α]

/-- Where a separator first stands in a row. -/
def find (row separator : List α) : Option ℕ :=
  match row with
  | [] => none
  | b :: rest => if separator <+: b :: rest then some 0 else (find rest separator).map (· + 1)

section

variable {row separator : List α} {k : ℕ}

/-- **What is found is the first place**, and nothing before it. -/
theorem find_eq_some (hsep : separator ≠ []) :
    find row separator = some k ↔
      separator <+: row.drop k ∧ ∀ j < k, ¬ separator <+: row.drop j := by
  induction row generalizing k with
  | nil =>
      rw [find, List.drop_nil, List.prefix_nil]
      exact iff_of_false (Option.some_ne_none k ∘ Eq.symm) (fun h => hsep h.1)
  | cons b rest ih =>
      rw [find]
      by_cases hhere : separator <+: b :: rest
      · rw [if_pos hhere, Option.some.injEq]
        constructor
        · rintro rfl
          exact ⟨hhere, fun j hj => absurd hj (Nat.not_lt_zero j)⟩
        · rintro ⟨-, hnone⟩
          by_contra hne
          exact hnone 0 (by omega) hhere
      · rw [if_neg hhere, Option.map_eq_some_iff]
        constructor
        · rintro ⟨k', hk', rfl⟩
          obtain ⟨hthere, hnone⟩ := ih.mp hk'
          refine ⟨hthere, fun j hj => ?_⟩
          cases j with
          | zero => exact hhere
          | succ j => exact hnone j (by omega)
        · rintro ⟨hthere, hnone⟩
          cases k with
          | zero => exact absurd hthere hhere
          | succ k => exact ⟨k, ih.mpr ⟨hthere, fun j hj => hnone (j + 1) (by omega)⟩, rfl⟩

/-- A row with a separator found in it is what stands before it, the separator and
    what follows. -/
theorem find_split (hsep : separator ≠ []) (h : find row separator = some k) :
    k + separator.length ≤ row.length
      ∧ row = row.take k ++ (separator ++ row.drop (k + separator.length)) := by
  obtain ⟨⟨rest, hrest⟩, -⟩ := (find_eq_some hsep).mp h
  have hlen := congrArg List.length hrest
  rw [List.length_append, List.length_drop] at hlen
  have hpos := List.length_pos_iff.mpr hsep
  refine ⟨by omega, ?_⟩
  have hdrop : row.drop (k + separator.length) = rest := by
    rw [← List.drop_drop, ← hrest, List.drop_left]
  rw [hdrop, hrest, List.take_append_drop]

/-- **A row that grows** has its separator where it had it. -/
theorem find_append (hsep : separator ≠ []) (h : find row separator = some k) (more : List α) :
    find (row ++ more) separator = some k := by
  obtain ⟨hlen, -⟩ := find_split hsep h
  obtain ⟨hthere, hnone⟩ := (find_eq_some hsep).mp h
  refine (find_eq_some hsep).mpr ⟨?_, fun j hj => ?_⟩
  · rw [List.drop_append_of_le_length (by omega)]
    exact hthere.trans (List.prefix_append _ _)
  · rw [List.drop_append_of_le_length (by omega)]
    intro hthere'
    refine hnone j hj (List.prefix_of_prefix_length_le hthere' (List.prefix_append _ _) ?_)
    rw [List.length_drop]
    omega

/-- Nothing is found in a piece in front of a row, if nothing starts in it. -/
theorem find_skip {piece : List α}
    (h : ∀ j < piece.length, ¬ separator <+: (piece ++ row).drop j) :
    find (piece ++ row) separator = (find row separator).map (piece.length + ·) := by
  induction piece with
  | nil =>
      rw [List.nil_append, List.length_nil]
      simp
  | cons b piece ih =>
      have hhere : ¬ separator <+: b :: (piece ++ row) := h 0 (Nat.succ_pos _)
      rw [List.cons_append, find, if_neg hhere, ih (fun j hj => h (j + 1) (Nat.succ_lt_succ hj)),
        Option.map_map, List.length_cons]
      congr 1
      funext j
      simp only [Function.comp_apply]
      omega

/-- **The separator that was put after a piece** is the one that is found. -/
theorem find_unbordered (hsep : separator ≠ []) (hborder : Unbordered separator)
    {piece : List α} (hpiece : ¬ separator <:+: piece) (rest : List α) :
    find (piece ++ (separator ++ rest)) separator = some piece.length := by
  refine (find_eq_some hsep).mpr ⟨?_, fun j hj => not_starts hborder hpiece hj⟩
  rw [List.drop_left]
  exact List.prefix_append _ _

/-- A separator is not found where it does not occur. -/
theorem find_none (hsep : separator ≠ []) :
    find row separator = none ↔ ¬ separator <:+: row := by
  constructor
  · rintro hnone ⟨before, after, hrow⟩
    have hthere : separator <+: row.drop before.length := by
      rw [← hrow, List.append_assoc, List.drop_left]
      exact List.prefix_append _ _
    have hex : ∃ j, separator <+: row.drop j := ⟨_, hthere⟩
    have hfound := (find_eq_some hsep (k := Nat.find hex)).mpr
      ⟨Nat.find_spec hex, fun j hj => Nat.find_min hex hj⟩
    rw [hnone] at hfound
    cases hfound
  · intro hno
    cases hfind : find row separator with
    | none => rfl
    | some k =>
        obtain ⟨hthere, -⟩ := (find_eq_some hsep).mp hfind
        exact absurd (hthere.isInfix.trans (List.drop_suffix k row).isInfix) hno

/-- A separator is not in what stands before the first of it. -/
theorem not_infix_take (hsep : separator ≠ []) (h : find row separator = some k) :
    ¬ separator <:+: row.take k := by
  rintro ⟨before, after, hbefore⟩
  obtain ⟨hlen, hrow⟩ := find_split hsep h
  obtain ⟨-, hnone⟩ := (find_eq_some hsep).mp h
  have hlength := congrArg List.length hbefore
  rw [List.length_append, List.length_append, List.length_take] at hlength
  have hpos := List.length_pos_iff.mpr hsep
  refine hnone before.length (by omega) ?_
  rw [hrow, ← hbefore, List.append_assoc, List.append_assoc, List.drop_left]
  exact List.prefix_append _ _

end

/-! ## Pieces -/

/-- Split a row at its separators, at most so often. -/
def piecesUpTo (separator : List α) : ℕ → List α → List (List α)
  | 0, row => [row]
  | n + 1, row =>
      match find row separator with
      | some k => row.take k :: piecesUpTo separator n (row.drop (k + separator.length))
      | none => [row]

/-- The pieces of a row between its separators. -/
def pieces (row separator : List α) : List (List α) := piecesUpTo separator row.length row

section

variable {row separator : List α}

/-- A row has fewer separators than elements. -/
theorem piecesUpTo_eq (hsep : separator ≠ []) {n m : ℕ} (hn : row.length ≤ n)
    (hm : row.length ≤ m) : piecesUpTo separator n row = piecesUpTo separator m row := by
  have hpos := List.length_pos_iff.mpr hsep
  induction n generalizing m row with
  | zero =>
      obtain rfl := List.length_eq_zero_iff.mp (Nat.le_zero.mp hn)
      cases m with
      | zero => rfl
      | succ m => rfl
  | succ n ih =>
      cases m with
      | zero =>
          obtain rfl := List.length_eq_zero_iff.mp (Nat.le_zero.mp hm)
          rfl
      | succ m =>
          rw [piecesUpTo, piecesUpTo]
          cases hfind : find row separator with
          | none => rfl
          | some k =>
              obtain ⟨hlen, -⟩ := find_split hsep hfind
              dsimp only
              rw [ih (m := m)]
              · rw [List.length_drop]
                omega
              · rw [List.length_drop]
                omega

/-- **A row that was put together** is split where it was. -/
theorem pieces_cons (hsep : separator ≠ []) (hborder : Unbordered separator) {piece : List α}
    (hpiece : ¬ separator <:+: piece) :
    pieces (piece ++ (separator ++ row)) separator = piece :: pieces row separator := by
  have hlen : (piece ++ (separator ++ row)).length = piece.length + separator.length + row.length := by
    rw [List.length_append, List.length_append, Nat.add_assoc]
  have hpos := List.length_pos_iff.mpr hsep
  have hdrop : (piece ++ (separator ++ row)).drop (piece.length + separator.length) = row := by
    rw [← List.drop_drop, List.drop_left, List.drop_left]
  obtain ⟨n, hn⟩ := Nat.exists_eq_add_one_of_ne_zero
    (show (piece ++ (separator ++ row)).length ≠ 0 by omega)
  rw [pieces, hn, piecesUpTo, find_unbordered hsep hborder hpiece]
  dsimp only
  rw [List.take_left, hdrop, pieces, piecesUpTo_eq hsep (m := row.length) (by omega) le_rfl]

/-- A row without a separator is one piece. -/
theorem pieces_last (hsep : separator ≠ []) (hrow : ¬ separator <:+: row) :
    pieces row separator = [row] := by
  rw [pieces]
  cases hlen : row.length with
  | zero => rfl
  | succ n => rw [piecesUpTo, (find_none hsep).mpr hrow]

end

end QCoreScan
