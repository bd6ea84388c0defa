import Mathlib

/-! # Weighted quorums

    A committee is a list of members, each with a weight.  A quorum is a part of
    the committee that holds more than a given fraction of the weight; two
    quorums of one committee share members, and how much weight the shared
    members hold is what this file bounds (`quorums_meet`).

    Everything is about parts cut out by a test, so a member listed once is
    counted once, whatever the test says. -/

namespace QCoreQuorum

variable {ι : Type*}

/-- The weight of the members of a list. -/
def weight (w : ι → ℕ) (members : List ι) : ℕ := (members.map w).sum

@[simp] theorem weight_nil (w : ι → ℕ) : weight w [] = 0 := rfl

@[simp] theorem weight_cons (w : ι → ℕ) (i : ι) (members : List ι) :
    weight w (i :: members) = w i + weight w members := rfl

theorem weight_perm {w : ι → ℕ} {a b : List ι} (h : a.Perm b) : weight w a = weight w b :=
  (h.map w).sum_eq

/-- Members listed once each weigh no more than any list they all come from. -/
theorem weight_le_of_subset {w : ι → ℕ} {a b : List ι} (hnodup : a.Nodup) (hsub : a ⊆ b) :
    weight w a ≤ weight w b := by
  obtain ⟨a', hperm, hsublist⟩ := hnodup.subperm hsub
  rw [← weight_perm hperm]
  exact (hsublist.map w).sum_le_sum (fun _ _ => Nat.zero_le _)

/-- A bound on every weight bounds the whole list. -/
theorem weight_le_length_mul {w : ι → ℕ} {members : List ι} {bound : ℕ}
    (h : ∀ i ∈ members, w i ≤ bound) : weight w members ≤ members.length * bound := by
  have := List.sum_le_card_nsmul (members.map w) bound (by simpa using h)
  simpa [weight] using this

/-- **Inclusion and exclusion**: what two parts weigh together is what either
    weighs and what both weigh. -/
theorem weight_filter_add (w : ι → ℕ) (p q : ι → Bool) (members : List ι) :
    weight w (members.filter p) + weight w (members.filter q)
      = weight w (members.filter (fun i => p i || q i))
        + weight w (members.filter (fun i => p i && q i)) := by
  induction members with
  | nil => rfl
  | cons i rest ih =>
      simp only [List.filter_cons]
      -- one case for each side of the two tests the first member falls on
      cases hp : p i <;> cases hq : q i <;> simp <;> omega

/-- **Two quorums meet**: if each of two parts holds more than `t` parts in `n`
    of the weight, what they share holds more than `2 t - n` parts in `n`. -/
theorem quorums_meet {w : ι → ℕ} {p q : ι → Bool} {members : List ι} {t n : ℕ}
    (hp : t * weight w members < n * weight w (members.filter p))
    (hq : t * weight w members < n * weight w (members.filter q)) :
    2 * t * weight w members
      < n * weight w members + n * weight w (members.filter (fun i => p i && q i)) := by
  have hadd := congrArg (n * ·) (weight_filter_add w p q members)
  simp only [Nat.mul_add] at hadd
  have hwhole : n * weight w (members.filter (fun i => p i || q i)) ≤ n * weight w members :=
    Nat.mul_le_mul_left n (List.filter_sublist.map w |>.sum_le_sum (fun _ _ => Nat.zero_le _))
  calc 2 * t * weight w members
      = t * weight w members + t * weight w members := by ring
    _ < n * weight w (members.filter p) + n * weight w (members.filter q) := by omega
    _ ≤ n * weight w members + n * weight w (members.filter (fun i => p i && q i)) := by omega

end QCoreQuorum
