import Mathlib.Data.List.Basic
import Mathlib.Data.Option.Basic

/-!
# States that cannot be told apart

A transducer takes an input, shows an output and goes on in another state, or gets stuck.  Two of
its states are alike if no sequence of inputs shows a difference between them.  A relation that
the steps keep, and that only relates states with the same outputs, relates alike states; and from
alike states the same input shows the same output and leads to alike states.
-/

namespace Transducer

variable {σ ι ο : Type*}

def outputs (step : σ → ι → Option (ο × σ)) : σ → List ι → Option (List ο)
  | _, [] => some []
  | s, i :: is => (step s i).bind fun p ↦ (outputs step p.2 is).map (p.1 :: ·)

/-- No sequence of inputs that meet `ok` tells `s` from `t`. -/
def Alike (step : σ → ι → Option (ο × σ)) (ok : ι → Prop) (s t : σ) : Prop :=
  ∀ is : List ι, (∀ i ∈ is, ok i) → outputs step s is = outputs step t is

variable {step : σ → ι → Option (ο × σ)} {ok : ι → Prop} {s t : σ}

theorem Alike.refl (s : σ) : Alike step ok s s := fun _ _ ↦ rfl

theorem Alike.symm (h : Alike step ok s t) : Alike step ok t s := fun is his ↦ (h is his).symm

/-- The steps keep `R`, and show the same from related states. -/
def Bisimulation (step : σ → ι → Option (ο × σ)) (ok : ι → Prop) (R : σ → σ → Prop) : Prop :=
  ∀ s t i, R s t → ok i → Option.Rel (fun p p' ↦ p.1 = p'.1 ∧ R p.2 p'.2) (step s i) (step t i)

theorem Bisimulation.alike {R : σ → σ → Prop} (hR : Bisimulation step ok R) (h : R s t) :
    Alike step ok s t := by
  intro is
  induction is generalizing s t with
  | nil => exact fun _ ↦ rfl
  | cons i is ih =>
      intro his
      have hstep := hR s t i h (his i List.mem_cons_self)
      unfold outputs
      generalize step s i = a, step t i = b at hstep
      cases hstep with
      | none => rfl
      | some hp =>
          simp only [Option.bind_some]
          rw [hp.1, ih hp.2 fun j hj ↦ his j (List.mem_cons_of_mem i hj)]

theorem Alike.next {i : ι} {o : ο} {s' : σ} (h : Alike step ok s t) (hi : ok i)
    (hs : step s i = some (o, s')) : ∃ t', step t i = some (o, t') ∧ Alike step ok s' t' := by
  have hone := h [i] (by simpa using hi)
  cases ht : step t i with
  | none => simp [outputs, hs, ht] at hone
  | some p =>
      obtain ⟨o', t'⟩ := p
      obtain rfl : o = o' := by simpa [outputs, hs, ht] using hone
      refine ⟨t', rfl, fun is his ↦ ?_⟩
      have hall := h (i :: is) (by simpa [hi] using his)
      simp only [outputs, hs, ht, Option.bind_some] at hall
      exact Option.map_injective (List.cons_injective) hall

end Transducer
