import Mathlib.Logic.Relation
import Mathlib.Data.Option.Basic

/-!
# Runs of a labelled step function

A system is a partial step function `step : σ → ι → Option σ`; a label carries
every choice the environment makes in the step.  A run is a list of labels, and
`Steps step ok` is a run all of whose steps meet a condition `ok` on the state
before the step and the label.  An invariant is proved once for a step and then
carried along every run.
-/

namespace Runs

variable {σ ι : Type*}

/-- `Steps step ok s ls t`: from `s` the labels `ls` lead to `t`, and every step
on the way met `ok`. -/
inductive Steps (step : σ → ι → Option σ) (ok : σ → ι → Prop) : σ → List ι → σ → Prop
  | nil (s : σ) : Steps step ok s [] s
  | cons {s s' t : σ} {l : ι} {ls : List ι} (hok : ok s l) (hstep : step s l = some s')
      (rest : Steps step ok s' ls t) : Steps step ok s (l :: ls) t

def anyStep (_ : σ) (_ : ι) : Prop := True

instance (s : σ) (l : ι) : Decidable (anyStep s l) := isTrue trivial

variable {step : σ → ι → Option σ} {ok ok' : σ → ι → Prop}

namespace Steps

/-- A condition implied by `ok` along an invariant may replace it. -/
theorem mono {s t : σ} {ls : List ι} (himp : ∀ s l, ok s l → ok' s l)
    (h : Steps step ok s ls t) : Steps step ok' s ls t := by
  induction h with
  | nil s => exact .nil s
  | cons hok hstep _ ih => exact .cons (himp _ _ hok) hstep ih

/-- What one step preserves, a whole run preserves. -/
theorem invariant {P : σ → Prop}
    (hstep : ∀ s l s', P s → ok s l → step s l = some s' → P s')
    {s t : σ} {ls : List ι} (h : Steps step ok s ls t) (hs : P s) : P t := by
  induction h with
  | nil => exact hs
  | cons hok hst _ ih => exact ih (hstep _ _ _ hs hok hst)

end Steps

/-- Execute a list of labels, checking the condition at each step. -/
def exec (step : σ → ι → Option σ) (ok : σ → ι → Prop) [∀ s l, Decidable (ok s l)] :
    σ → List ι → Option σ
  | s, [] => some s
  | s, l :: ls => if ok s l then (step s l).bind fun s' ↦ exec step ok s' ls else none

theorem exec_steps [∀ s l, Decidable (ok s l)] {s t : σ} {ls : List ι}
    (h : exec step ok s ls = some t) : Steps step ok s ls t := by
  induction ls generalizing s with
  | nil =>
      obtain rfl : s = t := by simpa [exec] using h
      exact .nil s
  | cons l ls ih =>
      by_cases hok : ok s l
      · simp only [exec, hok, if_true, Option.bind_eq_some_iff] at h
        obtain ⟨s', hst, hrest⟩ := h
        exact .cons hok hst (ih hrest)
      · simp [exec, hok] at h

theorem exec_get_steps (step : σ → ι → Option σ) (ok : σ → ι → Prop)
    [∀ s l, Decidable (ok s l)] (s : σ) (ls : List ι) (h : (exec step ok s ls).isSome) :
    Steps step ok s ls ((exec step ok s ls).get h) :=
  exec_steps (Option.some_get h).symm

end Runs
