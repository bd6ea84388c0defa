import Mathlib.Data.List.Basic

/-! # Runs of a labelled transition system

    A system is a step relation `step s e t`: state `s` may move to `t` under
    label `e`.  A run is a finite chain of steps, with its labels newest first,
    so that appending a step is the last constructor and an induction on a run
    is an induction on its latest step.

    The rules below are what an argument about runs needs: an invariant that
    one step preserves holds in every state a run reaches, also when only the
    steps whose labels a condition admits preserve it; a run splits where its
    labels split; and a run of a narrower relation is one of a wider. -/

namespace QCoreTransition

variable {σ ε : Type}

/-- A run from `s`, its labels newest first. -/
inductive Run (step : σ → ε → σ → Prop) (s : σ) : List ε → σ → Prop
  | nil : Run step s [] s
  | cons {es : List ε} {e : ε} {t u : σ} :
      Run step s es t → step t e u → Run step s (e :: es) u

namespace Run

variable {step step' : σ → ε → σ → Prop} {s t u : σ} {es es' : List ε}

theorem single {e : ε} (h : step s e t) : Run step s [e] t := cons nil h

/-- **The invariant rule**, where only steps under admitted labels need to
    preserve the invariant. -/
theorem invariant_of_labels {P : ε → Prop} {I : σ → Prop} (h : Run step s es t)
    (hinit : I s) (hstep : ∀ {t e u}, I t → P e → step t e u → I u)
    (hlabels : ∀ e ∈ es, P e) : I t := by
  induction h with
  | nil => exact hinit
  | cons _ hlast ih =>
      have hrest := ih (fun e he => hlabels e (List.mem_cons_of_mem _ he))
      exact hstep hrest (hlabels _ List.mem_cons_self) hlast

/-- **The invariant rule.** -/
theorem invariant {I : σ → Prop} (h : Run step s es t) (hinit : I s)
    (hstep : ∀ {t e u}, I t → step t e u → I u) : I t :=
  invariant_of_labels (P := fun _ => True) h hinit (fun hI _ hs => hstep hI hs)
    (fun _ _ => trivial)

theorem append (h : Run step s es t) (h' : Run step t es' u) : Run step s (es' ++ es) u := by
  induction h' with
  | nil => exact h
  | cons _ hlast ih => exact cons ih hlast

/-- A run splits where its labels do. -/
theorem split (h : Run step s (es' ++ es) u) : ∃ t, Run step s es t ∧ Run step t es' u := by
  induction es' generalizing u with
  | nil => exact ⟨u, h, nil⟩
  | cons e rest ih =>
      cases h with
      | cons hrest hlast =>
          obtain ⟨t, hfirst, hthen⟩ := ih hrest
          exact ⟨t, hfirst, cons hthen hlast⟩

theorem mono (hwider : ∀ {t e u}, step t e u → step' t e u) (h : Run step s es t) :
    Run step' s es t := by
  induction h with
  | nil => exact nil
  | cons _ hlast ih => exact cons ih (hwider hlast)

end Run

/-- The steps of a system that meet a condition on the state they are taken in. -/
def Guarded (step : σ → ε → σ → Prop) (meets : σ → ε → Prop) (s : σ) (e : ε) (t : σ) :
    Prop := meets s e ∧ step s e t

end QCoreTransition
