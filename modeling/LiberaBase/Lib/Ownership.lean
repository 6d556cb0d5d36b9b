import Mathlib.Data.Set.Lattice
import Mathlib.Logic.Function.Basic
import Mathlib.Order.CompletePartialOrder

/-!
# Resources and their owners

Every holder owns a set of resources, and a registry keeps the set of all that are taken.
Some resources, the `base`, are taken without an owner.  A holder acquires what the registry
has not, and gives back what it owns.
-/

variable {ι κ : Type*}

/-- The holders own disjoint sets, and the registry `taken` is their union with `base`. -/
structure Ownership (base : Set ι) (holders : Set κ) (owns : κ → Set ι) (taken : Set ι) :
    Prop where
  disjoint : ∀ f ∈ holders, ∀ g ∈ holders, f ≠ g → Disjoint (owns f) (owns g)
  disjoint_base : ∀ f ∈ holders, Disjoint base (owns f)
  taken_eq : taken = base ∪ ⋃ f ∈ holders, owns f

namespace Ownership

variable {base taken A : Set ι} {holders : Set κ} {owns owns' : κ → Set ι} {f g : κ}

theorem empty (base : Set ι) (owns : κ → Set ι) : Ownership base ∅ owns base where
  disjoint := fun _ hf ↦ absurd hf (Set.notMem_empty _)
  disjoint_base := fun _ hf ↦ absurd hf (Set.notMem_empty _)
  taken_eq := by simp

theorem congr (h : Ownership base holders owns taken) (heq : ∀ f ∈ holders, owns' f = owns f) :
    Ownership base holders owns' taken where
  disjoint := by
    intro f hf g hg hne
    rw [heq f hf, heq g hg]
    exact h.disjoint f hf g hg hne
  disjoint_base := by
    intro f hf
    rw [heq f hf]
    exact h.disjoint_base f hf
  taken_eq := by
    rw [h.taken_eq]
    congr 1
    exact (Set.iUnion₂_congr heq).symm

theorem insert (h : Ownership base holders owns taken) (hf : owns f = ∅) :
    Ownership base (insert f holders) owns taken := by
  constructor
  · rintro g (rfl | hg) k (rfl | hk) hne
    · exact absurd rfl hne
    · simp [hf]
    · simp [hf]
    · exact h.disjoint g hg k hk hne
  · rintro g (rfl | hg)
    · simp [hf]
    · exact h.disjoint_base g hg
  · rw [Set.biUnion_insert, hf, Set.empty_union]
    exact h.taken_eq

theorem subset (h : Ownership base holders owns taken) (hf : f ∈ holders) : owns f ⊆ taken := by
  rw [h.taken_eq]
  exact (Set.subset_biUnion_of_mem hf).trans Set.subset_union_right

theorem acquire [DecidableEq κ] (h : Ownership base holders owns taken) (hf : f ∈ holders)
    (hA : Disjoint A taken) :
    Ownership base holders (Function.update owns f (owns f ∪ A)) (taken ∪ A) := by
  have hbase : Disjoint base A := by
    rw [h.taken_eq] at hA
    exact (hA.mono_right Set.subset_union_left).symm
  have hother : ∀ g ∈ holders, g ≠ f → Disjoint (owns g) (owns f ∪ A) := by
    intro g hg hne
    exact (h.disjoint g hg f hf hne).union_right (hA.mono_right (h.subset hg)).symm
  constructor
  · intro g hg k hk hne
    by_cases hgf : g = f
    · subst hgf
      rw [Function.update_self, Function.update_of_ne hne.symm]
      exact (hother k hk hne.symm).symm
    · by_cases hkf : k = f
      · subst hkf
        rw [Function.update_self, Function.update_of_ne hgf]
        exact hother g hg hgf
      · rw [Function.update_of_ne hgf, Function.update_of_ne hkf]
        exact h.disjoint g hg k hk hne
  · intro g hg
    by_cases hgf : g = f
    · subst hgf
      rw [Function.update_self]
      exact (h.disjoint_base g hg).union_right hbase
    · rw [Function.update_of_ne hgf]
      exact h.disjoint_base g hg
  · have hunion : (⋃ g ∈ holders, Function.update owns f (owns f ∪ A) g) =
        (⋃ g ∈ holders, owns g) ∪ A := by
      apply Set.Subset.antisymm
      · apply Set.iUnion₂_subset
        intro g hg
        by_cases hgf : g = f
        · subst hgf
          rw [Function.update_self]
          exact Set.union_subset_union_left _ (Set.subset_biUnion_of_mem hg)
        · rw [Function.update_of_ne hgf]
          exact (Set.subset_biUnion_of_mem hg).trans Set.subset_union_left
      · apply Set.union_subset
        · apply Set.iUnion₂_mono
          intro g hg
          by_cases hgf : g = f
          · subst hgf
            rw [Function.update_self]
            exact Set.subset_union_left
          · rw [Function.update_of_ne hgf]
        · refine Set.Subset.trans ?_ (Set.subset_biUnion_of_mem hf)
          rw [Function.update_self]
          exact Set.subset_union_right
    rw [hunion, h.taken_eq, Set.union_assoc]

theorem release (h : Ownership base holders owns taken) (hf : f ∈ holders) :
    Ownership base (holders \ {f}) owns (taken \ owns f) := by
  constructor
  · intro g hg k hk hne
    exact h.disjoint g hg.1 k hk.1 hne
  · intro g hg
    exact h.disjoint_base g hg.1
  · rw [h.taken_eq, Set.union_sdiff_distrib, (h.disjoint_base f hf).sdiff_eq_left]
    congr 1
    apply Set.Subset.antisymm
    · rintro x ⟨hx, hxf⟩
      obtain ⟨g, hg, hxg⟩ := Set.mem_iUnion₂.mp hx
      have hne : g ≠ f := by
        rintro rfl
        exact hxf hxg
      exact Set.mem_biUnion (x := g) ⟨hg, hne⟩ hxg
    · intro x hx
      obtain ⟨g, ⟨hg, hne⟩, hxg⟩ := Set.mem_iUnion₂.mp hx
      exact ⟨Set.mem_biUnion hg hxg, Set.disjoint_left.mp (h.disjoint g hg f hf hne) hxg⟩

end Ownership
