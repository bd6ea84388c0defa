import Mathlib.Tactic.Common
import Mathlib.Data.List.Forall2

/-! # Computations that may refuse

    A fallible computation is an `Except` over the text of its refusal.  Guards
    and missing values are the two ways one refuses; the lemmas below take a
    computation that succeeded apart, one step at a time, without unfolding what
    it calls. -/

namespace QCoreFallible

variable {ε α β : Type}

/-- Refuse when the condition holds. -/
def refuseIf (p : Prop) [Decidable p] (refusal : ε) : Except ε Unit :=
  if p then .error refusal else .ok ()

/-- The value, or the refusal when there is none. -/
def okOr (value : Option α) (refusal : ε) : Except ε α :=
  match value with
  | some a => .ok a
  | none => .error refusal

@[simp] theorem ok_bind (a : α) (f : α → Except ε β) : (Except.ok a >>= f) = f a := rfl

@[simp] theorem okOr_some (a : α) (refusal : ε) : okOr (some a) refusal = .ok a := rfl

theorem bind_ok {x : Except ε α} {f : α → Except ε β} {b : β} (h : x >>= f = .ok b) :
    ∃ a, x = .ok a ∧ f a = .ok b := by
  cases x with
  | error e => exact nomatch h
  | ok a => exact ⟨a, rfl, h⟩

/-- What is not refused does not meet the condition. -/
theorem refuseIf_ok {p : Prop} [Decidable p] {refusal : ε} {u : Unit}
    (h : refuseIf p refusal = .ok u) : ¬ p := by
  rw [refuseIf] at h
  split at h
  · exact nomatch h
  · next hp => exact hp

theorem okOr_ok {value : Option α} {refusal : ε} {a : α} (h : okOr value refusal = .ok a) :
    value = some a := by
  cases value with
  | none => exact nomatch h
  | some a' => cases h; rfl

/-- Another refusal does not change what succeeds. -/
theorem mapError_ok {ε' : Type} {refusal : ε → ε'} {x : Except ε α} {a : α} :
    x.mapError refusal = .ok a ↔ x = .ok a := by
  cases x with
  | error e => exact iff_of_false nofun nofun
  | ok b => exact ⟨fun h => congrArg Except.ok (Except.ok.inj h), fun h => h ▸ rfl⟩

/-- A step that must be passed before the rest. -/
theorem guard_ok {p : Prop} [Decidable p] {refusal : ε} {f : Unit → Except ε β} {b : β}
    (h : refuseIf p refusal >>= f = .ok b) : ¬ p ∧ f () = .ok b := by
  obtain ⟨u, hguard, h⟩ := bind_ok h
  exact ⟨refuseIf_ok hguard, h⟩

/-- A value that must be there before the rest. -/
theorem value_ok {value : Option α} {refusal : ε} {f : α → Except ε β} {b : β}
    (h : okOr value refusal >>= f = .ok b) : ∃ a, value = some a ∧ f a = .ok b := by
  obtain ⟨a, hvalue, h⟩ := bind_ok h
  exact ⟨a, okOr_ok hvalue, h⟩

/-! The same steps the other way: what passes goes on. -/

theorem bind_pass {x : Except ε α} {f : α → Except ε β} {a : α} {b : β} (hx : x = .ok a)
    (h : f a = .ok b) : x >>= f = .ok b := by
  rw [hx]
  exact h

theorem guard_pass {p : Prop} [Decidable p] {refusal : ε} {f : Unit → Except ε β} {b : β}
    (hp : ¬ p) (h : f () = .ok b) : refuseIf p refusal >>= f = .ok b :=
  bind_pass (if_neg hp) h

theorem value_pass {value : Option α} {refusal : ε} {f : α → Except ε β} {a : α} {b : β}
    (hvalue : value = some a) (h : f a = .ok b) : okOr value refusal >>= f = .ok b :=
  bind_pass (hvalue ▸ okOr_some a refusal) h

/-- What refuses first refuses the whole. -/
theorem bind_refuses {x : Except ε α} {f : α → Except ε β} (h : ∃ e, x = .error e) :
    ∃ e, x >>= f = .error e := by
  obtain ⟨e, rfl⟩ := h
  exact ⟨e, rfl⟩

theorem bind_pass_refuses {x : Except ε α} {f : α → Except ε β} {a : α} (hx : x = .ok a)
    (h : ∃ e, f a = .error e) : ∃ e, x >>= f = .error e := by
  rw [hx]
  exact h

/-! Both ways at once: what a computation that succeeded has passed. -/

theorem bind_iff {x : Except ε α} {f : α → Except ε β} {b : β} :
    x >>= f = .ok b ↔ ∃ a, x = .ok a ∧ f a = .ok b :=
  ⟨bind_ok, fun ⟨_, hx, h⟩ => bind_pass hx h⟩

theorem guard_iff {p : Prop} [Decidable p] {refusal : ε} {f : Unit → Except ε β} {b : β} :
    refuseIf p refusal >>= f = .ok b ↔ ¬ p ∧ f () = .ok b :=
  ⟨guard_ok, fun h => guard_pass h.1 h.2⟩

theorem value_iff {value : Option α} {refusal : ε} {f : α → Except ε β} {b : β} :
    okOr value refusal >>= f = .ok b ↔ ∃ a, value = some a ∧ f a = .ok b :=
  ⟨value_ok, fun ⟨_, hvalue, h⟩ => value_pass hvalue h⟩

theorem refuseIf_iff {p : Prop} [Decidable p] {refusal : ε} :
    refuseIf p refusal = .ok () ↔ ¬ p :=
  ⟨refuseIf_ok, fun hp => if_neg hp⟩

/-- A check made of every element held of every element. -/
theorem forM_ok {l : List α} {check : α → Except ε Unit} (h : l.forM check = .ok ()) :
    ∀ a ∈ l, check a = .ok () := by
  induction l with
  | nil =>
      intro a ha
      exact absurd ha List.not_mem_nil
  | cons a rest ih =>
      rw [show (a :: rest).forM check = (check a >>= fun _ => rest.forM check) from rfl] at h
      obtain ⟨u, ha, h⟩ := bind_ok h
      intro b hb
      rcases List.mem_cons.mp hb with rfl | hb
      · exact ha
      · exact ih h b hb

/-- A check of every element passes exactly when each of them does. -/
theorem forM_iff {l : List α} {check : α → Except ε Unit} :
    l.forM check = .ok () ↔ ∀ a ∈ l, check a = .ok () := by
  constructor
  · exact forM_ok
  · intro h
    induction l with
    | nil => rfl
    | cons a rest ih =>
        show (check a >>= fun _ => rest.forM check) = .ok ()
        exact bind_pass (h a List.mem_cons_self) (ih fun b hb => h b (List.mem_cons_of_mem _ hb))

/-- A step that refuses exactly the elements without a property, whatever it has
    so far, and otherwise does what a plain step does. -/
structure Screens {γ : Type} (f : β → γ → Except ε β) (P : γ → Prop) (g : β → γ → β) : Prop where
  pass : ∀ b c, P c → f b c = .ok (g b c)
  fail : ∀ b c, ¬ P c → ∃ e, f b c = .error e

/-- A fold of such a step over elements that all pass is the plain fold. -/
theorem Screens.foldlM_pass {γ : Type} {f : β → γ → Except ε β} {P : γ → Prop}
    {g : β → γ → β} (hf : Screens f P g) {l : List γ} (h : ∀ c ∈ l, P c) (b : β) :
    l.foldlM f b = .ok (l.foldl g b) := by
  induction l generalizing b with
  | nil => rfl
  | cons c rest ih =>
      rw [List.foldlM_cons, hf.pass b c (h c List.mem_cons_self), ok_bind, List.foldl_cons]
      exact ih (fun d hd => h d (List.mem_cons_of_mem _ hd)) _

/-- A fold of such a step refuses when some element does not pass. -/
theorem Screens.foldlM_fail {γ : Type} {f : β → γ → Except ε β} {P : γ → Prop}
    {g : β → γ → β} (hf : Screens f P g) {l : List γ} (h : ¬ ∀ c ∈ l, P c) (b : β) :
    ∃ e, l.foldlM f b = .error e := by
  induction l generalizing b with
  | nil => exact absurd (fun c hc => absurd hc List.not_mem_nil) h
  | cons c rest ih =>
      rw [List.foldlM_cons]
      by_cases hc : P c
      · rw [hf.pass b c hc, ok_bind]
        refine ih ?_ _
        intro hrest
        refine h ?_
        intro d hd
        rcases List.mem_cons.mp hd with rfl | hd
        · exact hc
        · exact hrest d hd
      · obtain ⟨e, he⟩ := hf.fail b c hc
        exact ⟨e, by rw [he]; rfl⟩

/-- Reading a list whose elements all pass reads each of them. -/
theorem mapM_pass {f : α → Except ε β} {g : α → β} {l : List α}
    (h : ∀ a ∈ l, f a = .ok (g a)) : l.mapM f = .ok (l.map g) := by
  induction l with
  | nil => rfl
  | cons a rest ih =>
      rw [List.mapM_cons, h a List.mem_cons_self, ok_bind,
        ih (fun b hb => h b (List.mem_cons_of_mem _ hb))]
      rfl

/-- Reading a list succeeds exactly when each element is read. -/
theorem mapM_iff {f : α → Except ε β} {l : List α} {l' : List β} :
    l.mapM f = .ok l' ↔ List.Forall₂ (fun a b => f a = .ok b) l l' := by
  induction l generalizing l' with
  | nil =>
      rw [List.mapM_nil, List.forall₂_nil_left_iff]
      exact ⟨fun h => (Except.ok.inj h).symm, fun h => h ▸ rfl⟩
  | cons a rest ih =>
      rw [List.mapM_cons, bind_iff, List.forall₂_cons_left_iff]
      refine exists_congr fun b => ?_
      rw [bind_iff]
      constructor
      · rintro ⟨hb, rest', hrest, h⟩
        exact ⟨rest', hb, ih.mp hrest, (Except.ok.inj h).symm⟩
      · rintro ⟨rest', hb, hrest, rfl⟩
        exact ⟨hb, rest', ih.mpr hrest, rfl⟩

/-- Reading a list refuses when some element does not pass. -/
theorem mapM_fail {f : α → Except ε β} {l : List α} (h : ∃ a ∈ l, ∃ e, f a = .error e) :
    ∃ e, l.mapM f = .error e := by
  induction l with
  | nil =>
      obtain ⟨a, ha, -⟩ := h
      exact absurd ha List.not_mem_nil
  | cons a rest ih =>
      rw [List.mapM_cons]
      cases ha : f a with
      | error e => exact ⟨e, rfl⟩
      | ok b =>
          obtain ⟨c, hc, e, he⟩ := h
          rcases List.mem_cons.mp hc with rfl | hc
          · rw [ha] at he
            cases he
          · obtain ⟨e', he'⟩ := ih ⟨c, hc, e, he⟩
            exact ⟨e', by rw [ok_bind, he']; rfl⟩

end QCoreFallible
