import Mathlib.Order.Defs.Unbundled
import Mathlib.Tactic.Common
import QCore.FallibleProofs

/-! # Computations that act on the world

    A traced computation runs from a state.  It leaves a result or a refusal, a
    state, and the events it caused, oldest first; the state and the events
    remain when it refuses.

    Four judgements are used of one: `Gives` says what a computation that
    succeeds leaves and `Refuses` what one that does not, `Emits` that it causes an
    event, and `Moves` that it takes every state to a related one, whether it
    succeeds or not.  Each has a rule for a sequence of two computations, so that a
    property of a long one is proved a step at a time. -/

namespace QCoreTrace

open QCoreFallible

/-- What a computation leaves. -/
structure Ran (σ ev ε α : Type) where
  result : Except ε α
  state : σ
  events : List ev

/-- A computation from a state. -/
def Traced (σ ev ε α : Type) := σ → Ran σ ev ε α

variable {σ ev ε α β : Type}

namespace Traced

instance : Monad (Traced σ ev ε) where
  pure a := fun s => ⟨.ok a, s, []⟩
  bind m f := fun s =>
    match (m s).result with
    | .error e => ⟨.error e, (m s).state, (m s).events⟩
    | .ok a => ⟨(f a (m s).state).result, (f a (m s).state).state,
        (m s).events ++ (f a (m s).state).events⟩

/-- A refusal or a value, with nothing done. -/
def ofExcept (x : Except ε α) : Traced σ ev ε α := fun s => ⟨x, s, []⟩

instance : MonadLift (Except ε) (Traced σ ev ε) := ⟨ofExcept⟩

/-- The state. -/
def read : Traced σ ev ε σ := fun s => ⟨.ok s, s, []⟩

/-- Change the state. -/
def modify (f : σ → σ) : Traced σ ev ε Unit := fun s => ⟨.ok (), f s, []⟩

/-- Take a step of the state that answers. -/
def step (f : σ → Except ε α × σ) : Traced σ ev ε α := fun s => ⟨(f s).1, (f s).2, []⟩

/-- Cause an event. -/
def emit (event : σ → ev) : Traced σ ev ε Unit := fun s => ⟨.ok (), s, [event s]⟩

/-- Run a computation and change the state after it, whether it succeeds or not. -/
def andFinally (m : Traced σ ev ε α) (f : σ → σ) : Traced σ ev ε α :=
  fun s => ⟨(m s).result, f (m s).state, (m s).events⟩

/-- Run a computation for what it leaves, a value or a refusal. -/
def attempt (m : Traced σ ev ε α) : Traced σ ev ε (Except ε α) :=
  fun s => ⟨.ok (m s).result, (m s).state, (m s).events⟩

end Traced

open Traced

/-! ## What a success leaves -/

/-- A computation succeeds with a value and leaves a state. -/
def Gives (m : Traced σ ev ε α) (s : σ) (a : α) (s' : σ) : Prop :=
  (m s).result = .ok a ∧ (m s).state = s'

section Gives

variable {m : Traced σ ev ε α} {f : α → Traced σ ev ε β} {s s' : σ} {a : α} {b : β}

theorem bind_run (m : Traced σ ev ε α) (f : α → Traced σ ev ε β) (s : σ) :
    (m >>= f) s = match (m s).result with
      | .error e => ⟨.error e, (m s).state, (m s).events⟩
      | .ok a => ⟨(f a (m s).state).result, (f a (m s).state).state,
          (m s).events ++ (f a (m s).state).events⟩ := rfl

/-- A first step that causes nothing only hands over its value and state. -/
theorem bind_skip (h : m s = ⟨.ok a, s', []⟩) : (m >>= f) s = f a s' := by
  rw [bind_run, h]
  rfl

theorem read_bind (f : σ → Traced σ ev ε β) (s : σ) : (read >>= f) s = f s s := bind_skip rfl

/-- **A sequence that succeeds** succeeded at each step. -/
theorem gives_bind (h : Gives (m >>= f) s b s') :
    ∃ a t, Gives m s a t ∧ Gives (f a) t b s' := by
  obtain ⟨hresult, hstate⟩ := h
  rw [bind_run] at hresult hstate
  cases hm : (m s).result with
  | error e => rw [hm] at hresult; exact nomatch hresult
  | ok a =>
      rw [hm] at hresult hstate
      exact ⟨a, (m s).state, ⟨hm, rfl⟩, ⟨hresult, hstate⟩⟩

theorem bind_gives {t : σ} (hm : Gives m s a t) (hf : Gives (f a) t b s') :
    Gives (m >>= f) s b s' := by
  obtain ⟨hresult, rfl⟩ := hm
  rw [Gives, bind_run, hresult]
  exact hf

theorem gives_pure {c : α} (h : Gives (pure a : Traced σ ev ε α) s c s') : c = a ∧ s' = s := by
  obtain ⟨hresult, hstate⟩ := h
  cases hresult
  exact ⟨rfl, hstate.symm⟩

theorem gives_ofExcept {x : Except ε α} (h : Gives (liftM x : Traced σ ev ε α) s a s') :
    x = .ok a ∧ s' = s := ⟨h.1, h.2.symm⟩

theorem ofExcept_gives {x : Except ε α} (h : x = .ok a) :
    Gives (liftM x : Traced σ ev ε α) s a s := ⟨h, rfl⟩

theorem gives_modify {g : σ → σ} {u : Unit} (h : Gives (modify g : Traced σ ev ε Unit) s u s') :
    s' = g s := h.2.symm

/-- A step from the value of an `Except`, then the rest. -/
theorem gives_value {x : Except ε α} (h : Gives (liftM x >>= f) s b s') :
    ∃ a, x = .ok a ∧ Gives (f a) s b s' := by
  obtain ⟨a, t, ha, hrest⟩ := gives_bind h
  obtain ⟨hx, ht⟩ := gives_ofExcept ha
  exact ⟨a, hx, ht ▸ hrest⟩

theorem gives_read_bind {f : σ → Traced σ ev ε β} (h : Gives (read >>= f) s b s') :
    Gives (f s) s b s' := by
  rwa [Gives, read_bind] at h

/-- A guard that was passed, then the rest. -/
theorem gives_guard {p : Prop} [Decidable p] {refusal : ε} {f : Unit → Traced σ ev ε β}
    (h : Gives (liftM (refuseIf p refusal) >>= f) s b s') : ¬ p ∧ Gives (f ()) s b s' := by
  obtain ⟨u, hguard, h⟩ := gives_value h
  exact ⟨refuseIf_ok hguard, h⟩

end Gives

/-! ## What a refusal leaves -/

/-- A computation refuses and leaves a state. -/
def Refuses (m : Traced σ ev ε α) (s : σ) (e : ε) (s' : σ) : Prop :=
  (m s).result = .error e ∧ (m s).state = s'

section Refuses

variable {m : Traced σ ev ε α} {f : α → Traced σ ev ε β} {s s' : σ} {e : ε}

/-- A refusal of the first step is one of the sequence. -/
theorem bind_refuses_first (h : Refuses m s e s') : Refuses (m >>= f) s e s' := by
  obtain ⟨hresult, rfl⟩ := h
  rw [Refuses, bind_run, hresult]
  exact ⟨rfl, rfl⟩

theorem bind_refuses {a : α} {t : σ} (hm : Gives m s a t) (hf : Refuses (f a) t e s') :
    Refuses (m >>= f) s e s' := by
  obtain ⟨hresult, rfl⟩ := hm
  rw [Refuses, bind_run, hresult]
  exact hf

/-- **A sequence that refuses** refused at its first step, or after it. -/
theorem refuses_bind (h : Refuses (m >>= f) s e s') :
    Refuses m s e s' ∨ ∃ a t, Gives m s a t ∧ Refuses (f a) t e s' := by
  obtain ⟨hresult, hstate⟩ := h
  rw [bind_run] at hresult hstate
  cases hm : (m s).result with
  | error e' =>
      rw [hm] at hresult hstate
      cases hresult
      exact Or.inl ⟨hm, hstate⟩
  | ok a =>
      rw [hm] at hresult hstate
      exact Or.inr ⟨a, (m s).state, ⟨hm, rfl⟩, hresult, hstate⟩

/-- A step from an `Except`, then the rest. -/
theorem refuses_value {x : Except ε α} (h : Refuses (liftM x >>= f) s e s') :
    s' = s ∨ ∃ a, x = .ok a ∧ Refuses (f a) s e s' := by
  rcases refuses_bind h with ⟨-, hstate⟩ | ⟨a, t, hx, hrest⟩
  · exact Or.inl hstate.symm
  · obtain ⟨hx, ht⟩ := gives_ofExcept hx
    exact Or.inr ⟨a, hx, ht ▸ hrest⟩

end Refuses

/-! ## What is caused on the way -/

/-- A computation causes an event, whether it succeeds or not. -/
def Emits (m : Traced σ ev ε α) (s : σ) (e : ev) : Prop := e ∈ (m s).events

/-- A computation causes no event of a kind. -/
def Silent (P : ev → Prop) (m : Traced σ ev ε α) : Prop := ∀ s e, Emits m s e → ¬ P e

/-- A computation causes an event of a kind. -/
def Causes (P : ev → Prop) (m : Traced σ ev ε α) (s : σ) : Prop := ∃ e, P e ∧ Emits m s e

section Emits

variable {m : Traced σ ev ε α} {f : α → Traced σ ev ε β} {s s' : σ} {e : ev} {P : ev → Prop}

/-- **An event of a sequence** is an event of one of its steps. -/
theorem emits_bind (h : Emits (m >>= f) s e) :
    Emits m s e ∨ ∃ a t, Gives m s a t ∧ Emits (f a) t e := by
  rw [Emits, bind_run] at h
  cases hm : (m s).result with
  | error err => rw [hm] at h; exact Or.inl h
  | ok a =>
      rw [hm] at h
      rcases List.mem_append.mp h with h | h
      · exact Or.inl h
      · exact Or.inr ⟨a, _, ⟨hm, rfl⟩, h⟩

/-- An event of the first step is one of the sequence. -/
theorem emits_first (h : Emits m s e) : Emits (m >>= f) s e := by
  rw [Emits, bind_run]
  cases (m s).result with
  | error _ => exact h
  | ok a => exact List.mem_append_left _ h

/-- So is one of the second step, after the first succeeded. -/
theorem emits_then {a : α} {t : σ} (hm : Gives m s a t) (h : Emits (f a) t e) :
    Emits (m >>= f) s e := by
  obtain ⟨hresult, rfl⟩ := hm
  rw [Emits, bind_run, hresult]
  exact List.mem_append_right _ h

/-- An event that a first step does not cause is caused after it succeeded. -/
theorem emits_after (hm : Silent P m) (hP : P e) (h : Emits (m >>= f) s e) :
    ∃ a t, Gives m s a t ∧ Emits (f a) t e :=
  (emits_bind h).resolve_left (fun hfirst => hm s e hfirst hP)

/-- A computation that causes nothing causes no event of any kind. -/
theorem silent_of_nil (h : ∀ s, (m s).events = []) : Silent P m := by
  intro s e he
  rw [Emits, h s] at he
  exact absurd he List.not_mem_nil

theorem Silent.mono {P' : ev → Prop} (h : Silent P m) (hsub : ∀ e, P' e → P e) : Silent P' m :=
  fun s e he hP => h s e he (hsub e hP)

theorem bind_causes {a : α} (hm : Gives m s a s') (hf : Causes P (f a) s') :
    Causes P (m >>= f) s := by
  obtain ⟨e, hP, he⟩ := hf
  exact ⟨e, hP, emits_then hm he⟩

theorem causes_mono {Q : ev → Prop} (himp : ∀ e, P e → Q e) (h : Causes P m s) : Causes Q m s := by
  obtain ⟨e, hP, he⟩ := h
  exact ⟨e, himp e hP, he⟩

theorem bind_causes_first (hm : Causes P m s) : Causes P (m >>= f) s := by
  obtain ⟨e, hP, he⟩ := hm
  exact ⟨e, hP, emits_first he⟩

theorem silent_ofExcept (x : Except ε α) : Silent P (liftM x : Traced σ ev ε α) :=
  silent_of_nil (fun _ => rfl)

theorem silent_bind (hm : Silent P m) (hf : ∀ a, Silent P (f a)) : Silent P (m >>= f) := by
  intro s e h
  rcases emits_bind h with h | ⟨a, t, -, h⟩
  · exact hm s e h
  · exact hf a t e h

/-- An event after a guard: the guard was passed. -/
theorem emits_guard {p : Prop} [Decidable p] {refusal : ε} {f : Unit → Traced σ ev ε β}
    (h : Emits (liftM (refuseIf p refusal) >>= f) s e) : ¬ p ∧ Emits (f ()) s e := by
  obtain ⟨u, t, hguard, hrest⟩ := emits_after (P := fun _ => True) (silent_ofExcept _) trivial h
  obtain ⟨hpass, ht⟩ := gives_ofExcept hguard
  exact ⟨refuseIf_ok hpass, ht ▸ hrest⟩

/-- A computation that succeeds does so with a last change of state. -/
theorem gives_andFinally {g : σ → σ} {a : α} (h : Gives m s a s') :
    Gives (m.andFinally g) s a (g s') := ⟨h.1, congrArg g h.2⟩

/-- An event of a computation with a last change of state is its own. -/
theorem emits_andFinally {g : σ → σ} (h : Emits (m.andFinally g) s e) : Emits m s e := h

theorem emits_modify {g : σ → σ} {f : Unit → Traced σ ev ε β}
    (h : Emits (modify g >>= f) s e) : Emits (f ()) (g s) e := by
  rwa [Emits, bind_skip (m := modify g) rfl] at h

/-- So is one of a computation that is run for what it leaves. -/
theorem emits_attempt (h : Emits m.attempt s e) : Emits m s e := h

/-- An event after a value: the value was there. -/
theorem emits_value {x : Except ε α} (h : Emits (liftM x >>= f) s e) :
    ∃ a, x = .ok a ∧ Emits (f a) s e := by
  obtain ⟨a, t, hx, hrest⟩ := emits_after (P := fun _ => True) (silent_ofExcept _) trivial h
  obtain ⟨hok, ht⟩ := gives_ofExcept hx
  exact ⟨a, hok, ht ▸ hrest⟩

end Emits

/-! ## A success and what it caused -/

/-- A computation succeeds with a value, leaves a state, and causes events of a kind
    only. -/
def GivesBy (K : ev → Prop) (m : Traced σ ev ε α) (s : σ) (a : α) (s' : σ) : Prop :=
  Gives m s a s' ∧ ∀ e, Emits m s e → K e

section GivesBy

variable {K : ev → Prop} {m : Traced σ ev ε α} {f : α → Traced σ ev ε β} {s s' : σ} {b : β}

/-- **A sequence that succeeds so** did at each step. -/
theorem givesBy_bind (h : GivesBy K (m >>= f) s b s') :
    ∃ a t, GivesBy K m s a t ∧ GivesBy K (f a) t b s' := by
  obtain ⟨hgives, hcaused⟩ := h
  obtain ⟨a, t, hm, hf⟩ := gives_bind hgives
  exact ⟨a, t, ⟨hm, fun e he => hcaused e (emits_first he)⟩,
    ⟨hf, fun e he => hcaused e (emits_then hm he)⟩⟩

/-- A success caused events of some kind. -/
theorem givesBy_of_gives {a : α} (h : Gives m s a s') : GivesBy (fun _ => True) m s a s' :=
  ⟨h, fun _ _ => trivial⟩

theorem givesBy_value {x : Except ε α} (h : GivesBy K (liftM x >>= f) s b s') :
    ∃ a, x = .ok a ∧ GivesBy K (f a) s b s' := by
  obtain ⟨a, t, hx, hrest⟩ := givesBy_bind h
  obtain ⟨hok, ht⟩ := gives_ofExcept hx.1
  exact ⟨a, hok, ht ▸ hrest⟩

theorem givesBy_guard {p : Prop} [Decidable p] {refusal : ε} {f : Unit → Traced σ ev ε β}
    (h : GivesBy K (liftM (refuseIf p refusal) >>= f) s b s') : ¬ p ∧ GivesBy K (f ()) s b s' := by
  obtain ⟨u, hguard, h⟩ := givesBy_value h
  exact ⟨refuseIf_ok hguard, h⟩

/-- To read the state gives what follows from it. -/
theorem givesBy_read {f : σ → Traced σ ev ε β} (h : GivesBy K (read >>= f) s b s') :
    GivesBy K (f s) s b s' := by
  obtain ⟨a, t, ⟨⟨ha, ht⟩, -⟩, hrest⟩ := givesBy_bind h
  cases ha
  obtain rfl : s = t := ht
  exact hrest

end GivesBy

/-! ## Where a state is taken -/

/-- A computation takes every state to a related one. -/
def Moves (R : σ → σ → Prop) (m : Traced σ ev ε α) : Prop := ∀ s, R s (m s).state

section Moves

variable {R : σ → σ → Prop} {m : Traced σ ev ε α} {f : α → Traced σ ev ε β}

/-- One step after another moves as both do. -/
theorem moves_bind [IsTrans σ R] (hm : Moves R m) (hf : ∀ a, Moves R (f a)) :
    Moves R (m >>= f) := by
  intro s
  rw [bind_run]
  cases hresult : (m s).result with
  | error e => exact hm s
  | ok a => exact IsTrans.trans _ _ _ (hm s) (hf a _)

/-- A computation ends in a state with a property, whether it succeeds or not. -/
def Ends (Q : σ → Prop) (m : Traced σ ev ε α) (s : σ) : Prop := Q (m s).state

/-- **Where a sequence ends**: where its first step refused, or where the second
    ends after the first succeeded. -/
theorem ends_bind {Q : σ → Prop} {s : σ} (hfirst : Ends Q m s)
    (hthen : ∀ a t, Gives m s a t → Ends Q (f a) t) : Ends Q (m >>= f) s := by
  rw [Ends, bind_run]
  cases hresult : (m s).result with
  | error e => exact hfirst
  | ok a => exact hthen a _ ⟨hresult, rfl⟩

/-- A step from the value of an `Except` ends where it started or with the rest. -/
theorem ends_value {Q : σ → Prop} {s : σ} {x : Except ε α} (h : Q s)
    (hthen : ∀ a, x = .ok a → Ends Q (f a) s) : Ends Q (liftM x >>= f) s := by
  refine ends_bind (m := liftM x) h ?_
  intro a t hgives
  obtain ⟨hx, ht⟩ := gives_ofExcept hgives
  exact ht ▸ hthen a hx

end Moves

/-! ## Staying within a relation -/

/-- A computation that takes every state to a related one and causes no event of
    a kind. -/
structure Within (R : σ → σ → Prop) (P : ev → Prop) (m : Traced σ ev ε α) : Prop where
  moves : Moves R m
  silent : Silent P m

section Within

variable {R : σ → σ → Prop} {P : ev → Prop} {m : Traced σ ev ε α} {f : α → Traced σ ev ε β}
  {s s' : σ}

theorem within_ofExcept [Std.Refl R] (x : Except ε α) :
    Within R P (liftM x : Traced σ ev ε α) :=
  ⟨fun s => Std.Refl.refl s, silent_ofExcept x⟩

theorem within_pure [Std.Refl R] (a : α) : Within R P (pure a : Traced σ ev ε α) :=
  ⟨fun s => Std.Refl.refl s, silent_of_nil (fun _ => rfl)⟩

theorem within_read [Std.Refl R] : Within R P (read : Traced σ ev ε σ) :=
  ⟨fun s => Std.Refl.refl s, silent_of_nil (fun _ => rfl)⟩

theorem within_modify {g : σ → σ} (h : ∀ s, R s (g s)) :
    Within R P (modify g : Traced σ ev ε Unit) := ⟨h, silent_of_nil (fun _ => rfl)⟩

theorem within_step {g : σ → Except ε α × σ} (h : ∀ s, R s (g s).2) :
    Within R P (step g : Traced σ ev ε α) := ⟨h, silent_of_nil (fun _ => rfl)⟩

/-- **A sequence stays within a relation** when each of its steps does. -/
theorem within_bind [IsTrans σ R] (hm : Within R P m) (hf : ∀ a, Within R P (f a)) :
    Within R P (m >>= f) :=
  ⟨moves_bind hm.moves (fun a => (hf a).moves), silent_bind hm.silent (fun a => (hf a).silent)⟩

theorem Within.mono {R' : σ → σ → Prop} (h : Within R P m) (hsub : ∀ s s', R s s' → R' s s') :
    Within R' P m := ⟨fun s => hsub _ _ (h.moves s), h.silent⟩

/-- A computation that succeeds ended in a related state. -/
theorem Within.gives {a : α} (hm : Within R P m) (h : Gives m s a s') : R s s' := h.2 ▸ hm.moves s

/-- So did one that refuses. -/
theorem Within.refuses {e : ε} (hm : Within R P m) (h : Refuses m s e s') : R s s' :=
  h.2 ▸ hm.moves s

/-- An event after a computation that stays within a relation. -/
theorem Within.after {e : ev} (hm : Within R P m) (hP : P e) (h : Emits (m >>= f) s e) :
    ∃ a t, Gives m s a t ∧ R s t ∧ Emits (f a) t e := by
  obtain ⟨a, t, hgives, hrest⟩ := emits_after hm.silent hP h
  exact ⟨a, t, hgives, hm.gives hgives, hrest⟩

end Within

/-! ## Passing through states -/

/-- A computation takes a state to a related one, and the state each event of a
    kind was caused in is related to the last. -/
structure Passes (R : σ → σ → Prop) (P : ev → Prop) (place : ev → σ) (m : Traced σ ev ε α)
    (s : σ) : Prop where
  ends : R s (m s).state
  past : ∀ e, P e → Emits m s e → R (place e) (m s).state

section Passes

variable {R : σ → σ → Prop} {P : ev → Prop} {place : ev → σ} {m : Traced σ ev ε α}
  {f : α → Traced σ ev ε β} {s : σ}

theorem Within.passes (h : Within R P m) : Passes R P place m s :=
  ⟨h.moves s, fun e hP he => absurd hP (h.silent s e he)⟩

/-- **Passing through a sequence**: the second computation ends past where the
    first one did. -/
theorem passes_bind [IsTrans σ R] (hm : Passes R P place m s)
    (hf : ∀ a t, Gives m s a t → Passes R P place (f a) t) : Passes R P place (m >>= f) s := by
  have hlast : ∀ {t}, R t (m s).state → R t ((m >>= f) s).state := by
    intro t ht
    rw [bind_run]
    cases hresult : (m s).result with
    | error e => exact ht
    | ok a => exact IsTrans.trans _ _ _ ht (hf a _ ⟨hresult, rfl⟩).ends
  refine ⟨hlast hm.ends, ?_⟩
  intro e hP he
  rcases emits_bind he with he | ⟨a, t, hgives, he⟩
  · exact hlast (hm.past e hP he)
  · have hend : ((m >>= f) s).state = (f a t).state := by
      rw [bind_run, hgives.1, hgives.2]
    exact hend ▸ (hf a t hgives).past e hP he

/-- A value that is at hand passes where what is done with it does. -/
theorem passes_value [Std.Refl R] [IsTrans σ R] {x : Except ε α}
    (hf : ∀ a, x = .ok a → Passes R P place (f a) s) : Passes R P place (liftM x >>= f) s := by
  refine passes_bind (within_ofExcept x).passes ?_
  intro a t hgives
  obtain ⟨hx, ht⟩ := gives_ofExcept hgives
  exact ht ▸ hf a hx

theorem passes_finally [IsTrans σ R] {g : σ → σ} (hm : Passes R P place m s)
    (hg : ∀ t, R t (g t)) : Passes R P place (m.andFinally g) s :=
  ⟨IsTrans.trans _ _ _ hm.ends (hg _),
    fun e hP he => IsTrans.trans _ _ _ (hm.past e hP (emits_andFinally he)) (hg _)⟩

/-- What a computation passes through does not depend on what its value is made into. -/
theorem passes_of_map {g : α → β} (h : Passes R P place (m >>= fun a => pure (g a)) s) :
    Passes R P place m s := by
  have hstate : ((m >>= fun a => pure (g a)) s).state = (m s).state := by
    rw [bind_run]
    cases (m s).result <;> rfl
  exact ⟨hstate ▸ h.ends, fun e hP he => hstate ▸ h.past e hP (emits_first he)⟩

theorem Passes.mono {R' : σ → σ → Prop} (h : Passes R P place m s)
    (hsub : ∀ s s', R s s' → R' s s') : Passes R' P place m s :=
  ⟨hsub _ _ h.ends, fun e hP he => hsub _ _ (h.past e hP he)⟩

end Passes

/-! ## One event at most -/

/-- From a state, a computation causes one event of a kind at most. -/
def OnceAt (P : ev → Prop) [DecidablePred P] (m : Traced σ ev ε α) (s : σ) : Prop :=
  (m s).events.countP (fun e => decide (P e)) ≤ 1

/-- It does from any. -/
abbrev Once (P : ev → Prop) [DecidablePred P] (m : Traced σ ev ε α) : Prop := ∀ s, OnceAt P m s

section Once

variable {P : ev → Prop} [DecidablePred P] {m : Traced σ ev ε α} {f : α → Traced σ ev ε β} {s : σ}

theorem countP_of_silent (h : Silent P m) (s : σ) :
    (m s).events.countP (fun e => decide (P e)) = 0 :=
  List.countP_eq_zero.mpr (fun e he hP => h s e he (of_decide_eq_true hP))

theorem once_of_silent (h : Silent P m) : Once P m :=
  fun s => Nat.le_trans (Nat.le_of_eq (countP_of_silent h s)) (Nat.zero_le 1)

theorem once_emit (event : σ → ev) : Once P (emit event : Traced σ ev ε Unit) :=
  fun _ => List.countP_le_length

/-- The event is in the second computation of a sequence. -/
theorem onceAt_after (hm : Silent P m) (hf : ∀ a t, Gives m s a t → OnceAt P (f a) t) :
    OnceAt P (m >>= f) s := by
  rw [OnceAt, bind_run]
  cases hresult : (m s).result with
  | error e => exact Nat.le_trans (Nat.le_of_eq (countP_of_silent hm s)) (Nat.zero_le 1)
  | ok a =>
      rw [List.countP_append, countP_of_silent hm s, Nat.zero_add]
      exact hf a _ ⟨hresult, rfl⟩

theorem onceAt_value {x : Except ε α} (hf : ∀ a, x = .ok a → OnceAt P (f a) s) :
    OnceAt P (liftM x >>= f) s := by
  refine onceAt_after (silent_ofExcept x) (fun a t h => ?_)
  obtain ⟨hx, ht⟩ := gives_ofExcept h
  exact ht ▸ hf a hx

/-- The event is in the first one. -/
theorem onceAt_before (hm : OnceAt P m s) (hf : ∀ a, Silent P (f a)) : OnceAt P (m >>= f) s := by
  rw [OnceAt, bind_run]
  cases (m s).result with
  | error e => exact hm
  | ok a =>
      rw [List.countP_append, countP_of_silent (hf a), Nat.add_zero]
      exact hm

theorem once_after (hm : Silent P m) (hf : ∀ a, Once P (f a)) : Once P (m >>= f) :=
  fun _ => onceAt_after hm (fun a t _ => hf a t)

theorem once_before (hm : Once P m) (hf : ∀ a, Silent P (f a)) : Once P (m >>= f) :=
  fun s => onceAt_before (hm s) hf

end Once

end QCoreTrace
