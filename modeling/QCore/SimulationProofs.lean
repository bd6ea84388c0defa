import Mathlib.Data.List.Basic
import QCore.TransitionProofs
import QCore.TraceProofs

/-! # A computation matched by a transition system

    A computation that acts on a state can be read at a higher level: what it
    does to the state is a run of a labelled transition system, and every event
    it causes is accounted for by the labels of that run.  `Matched` says so of
    one computation from one state, with what holds of the run at its end.

    The rules follow the computation: a sequence is matched by the runs of its
    steps one after the other, a step that causes nothing by any run that ends
    where it does, and a last change of state by a run after the others. -/

namespace QCoreSimulation

open QCoreTransition QCoreTrace QCoreTrace.Traced

variable {σ ev ε α β ρ lab : Type}

/-- How two levels are related: the steps of the higher one, which of its states
    stands for a state of the lower one, and which labels account for an event. -/
structure Level (σ ev ρ lab : Type) where
  step : ρ → lab → ρ → Prop
  stands : σ → ρ → Prop
  accounts : ev → List lab → Prop
  /-- More labels account for no fewer events. -/
  mono : ∀ {e es es'}, accounts e es → es ⊆ es' → accounts e es'

/-- After a run with the labels `past`, a computation is matched by a run that
    ends as it does. -/
def Matched (level : Level σ ev ρ lab) (past : List lab) (m : Traced σ ev ε α) (s : σ) (g : ρ)
    (post : List lab → ρ → Prop) : Prop :=
  ∃ es g', Run level.step g es g' ∧ level.stands (m s).state g' ∧ post es g'
    ∧ ∀ e, Emits m s e → level.accounts e (es ++ past)

section

variable {level : Level σ ev ρ lab} {past : List lab} {m : Traced σ ev ε α}
  {f : α → Traced σ ev ε β} {s : σ} {g : ρ} {post : List lab → ρ → Prop}

/-- A computation that causes nothing is matched by a run that ends where it does. -/
theorem matched_quiet {es : List lab} {g' : ρ} (hevents : ∀ e, ¬ Emits m s e)
    (hrun : Run level.step g es g') (hstands : level.stands (m s).state g') (hpost : post es g') :
    Matched level past m s g post :=
  ⟨es, g', hrun, hstands, hpost, fun e he => absurd he (hevents e)⟩

/-- A computation that does nothing to the state is matched by nothing. -/
theorem matched_still (hstands : level.stands (m s).state g) (hpost : post [] g)
    (haccounts : ∀ e, Emits m s e → level.accounts e past) : Matched level past m s g post :=
  ⟨[], g, Run.nil, hstands, hpost, haccounts⟩

theorem Matched.weaken {mid : List lab → ρ → Prop} (h : Matched level past m s g mid)
    (hpost : ∀ es g', mid es g' → post es g') : Matched level past m s g post := by
  obtain ⟨es, g', hrun, hstands, hmid, haccounts⟩ := h
  exact ⟨es, g', hrun, hstands, hpost es g' hmid, haccounts⟩

/-- **A sequence is matched** when its first step is and, from wherever that ends,
    the rest is. -/
theorem matched_bind (mid : List lab → ρ → Prop) (hfirst : Matched level past m s g mid)
    (hrefused : ∀ err es g', (m s).result = .error err → mid es g' → post es g')
    (hthen : ∀ a t es g', Gives m s a t → Run level.step g es g' → level.stands t g' →
      mid es g' → Matched level (es ++ past) (f a) t g' (fun es' g'' => post (es' ++ es) g'')) :
    Matched level past (m >>= f) s g post := by
  obtain ⟨es, g', hrun, hstands, hmid, haccounts⟩ := hfirst
  cases hresult : (m s).result with
  | error err =>
      -- the rest is never run, so the sequence ends where its first step does
      have hsame : (m >>= f) s = ⟨.error err, (m s).state, (m s).events⟩ := by
        rw [bind_run, hresult]
      refine ⟨es, g', hrun, ?_, hrefused err es g' hresult hmid, ?_⟩
      · rw [hsame]
        exact hstands
      · intro e he
        rw [Emits, hsame] at he
        exact haccounts e he
  | ok a =>
      obtain ⟨es', g'', hrun', hstands', hpost, haccounts'⟩ :=
        hthen a _ es g' ⟨hresult, rfl⟩ hrun hstands hmid
      refine ⟨es' ++ es, g'', hrun.append hrun', ?_, hpost, ?_⟩
      · rw [bind_run, hresult]
        exact hstands'
      · intro e he
        rw [List.append_assoc]
        rcases emits_bind he with he | ⟨b, t, hgives, he⟩
        · exact level.mono (haccounts e he) (List.subset_append_right _ _)
        · obtain ⟨hb, rfl⟩ := hgives
          cases hresult.symm.trans hb
          exact haccounts' e he

/-- A value in front of a computation is matched by nothing. -/
theorem matched_value {x : Except ε α} (hstands : level.stands s g) (hnone : post [] g)
    (hthen : ∀ a, x = .ok a → Matched level past (f a) s g post) :
    Matched level past (liftM x >>= f) s g post := by
  refine matched_bind (fun es g' => es = [] ∧ g' = g)
    (matched_quiet (fun e he => absurd he List.not_mem_nil) Run.nil hstands ⟨rfl, rfl⟩) ?_ ?_
  · rintro err es g' - ⟨rfl, rfl⟩
    exact hnone
  · rintro a t es g' hgives - - ⟨rfl, rfl⟩
    obtain ⟨hx, rfl⟩ := gives_ofExcept hgives
    refine (hthen a hx).weaken ?_
    intro es' g'' hpost
    rwa [List.append_nil]

/-- **A last change of state** is matched by a run after the others. -/
theorem matched_finally {mid : List lab → ρ → Prop} {change : σ → σ}
    (h : Matched level past m s g mid)
    (hlast : ∀ t es g', level.stands t g' → mid es g' →
      ∃ es' g'', Run level.step g' es' g'' ∧ level.stands (change t) g'' ∧ post (es' ++ es) g'') :
    Matched level past (m.andFinally change) s g post := by
  obtain ⟨es, g', hrun, hstands, hmid, haccounts⟩ := h
  obtain ⟨es', g'', hrun', hstands', hpost⟩ := hlast _ es g' hstands hmid
  refine ⟨es' ++ es, g'', hrun.append hrun', hstands', hpost, ?_⟩
  intro e he
  rw [List.append_assoc]
  exact level.mono (haccounts e (emits_andFinally he)) (List.subset_append_right _ _)

end

end QCoreSimulation
