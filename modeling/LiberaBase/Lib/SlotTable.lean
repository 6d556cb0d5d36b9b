import Mathlib.Data.Finset.Card
import Mathlib.Data.Finset.Range
import Mathlib.Data.Set.Insert
import Mathlib.Logic.Function.Basic

/-!
# Tables of slots

A table of `N` slots, each of which is free or holds a key.  `Assigns N t keys` says that every key
has its slot, one only, and that no other key is held.
-/

namespace SlotTable

variable {κ : Type*} {N i : ℕ} {t : ℕ → Option κ} {k : κ} {keys : Set κ}

/-- The slots that are taken. -/
def occupied (N : ℕ) (t : ℕ → Option κ) : Finset ℕ :=
  (Finset.range N).filter fun i ↦ (t i).isSome

theorem mem_occupied : i ∈ occupied N t ↔ i < N ∧ (t i).isSome := by
  rw [occupied, Finset.mem_filter, Finset.mem_range]

theorem card_occupied_le (N : ℕ) (t : ℕ → Option κ) : (occupied N t).card ≤ N :=
  (Finset.card_filter_le _ _).trans_eq (Finset.card_range N)

theorem occupied_store (hi : i < N) (k : κ) :
    occupied N (Function.update t i (some k)) = insert i (occupied N t) := by
  ext j
  rw [Finset.mem_insert, mem_occupied, mem_occupied]
  by_cases hj : j = i
  · subst hj
    simp [hi]
  · simp [hj]

theorem occupied_clear (N : ℕ) (t : ℕ → Option κ) (i : ℕ) :
    occupied N (Function.update t i none) = (occupied N t).erase i := by
  ext j
  rw [Finset.mem_erase, mem_occupied, mem_occupied]
  by_cases hj : j = i
  · subst hj
    simp
  · simp [hj]

theorem card_store (hi : i < N) (hfree : t i = none) (k : κ) :
    (occupied N (Function.update t i (some k))).card = (occupied N t).card + 1 := by
  rw [occupied_store hi, Finset.card_insert_of_notMem]
  simp [mem_occupied, hfree]

theorem card_clear (hi : i < N) (htaken : t i = some k) :
    (occupied N (Function.update t i none)).card + 1 = (occupied N t).card := by
  rw [occupied_clear]
  apply Finset.card_erase_add_one
  simp [mem_occupied, hi, htaken]

/-- There is a free slot as long as not all are taken. -/
theorem exists_free (h : (occupied N t).card < N) : ∃ i < N, t i = none := by
  by_contra! hnone
  have hall : occupied N t = Finset.range N := by
    apply Finset.filter_true_of_mem
    intro i hi
    exact Option.isSome_iff_ne_none.mpr (hnone i (Finset.mem_range.mp hi))
  rw [hall, Finset.card_range] at h
  exact lt_irrefl N h

/-- A slot that neither held the key nor gets it leaves the key its slot. -/
theorem existsUnique_update {v : Option κ} (h : ∃! j, j < N ∧ t j = some k) (hold : t i ≠ some k)
    (hnew : v ≠ some k) : ∃! j, j < N ∧ Function.update t i v j = some k := by
  obtain ⟨j, ⟨hj, htj⟩, huniq⟩ := h
  have hji : j ≠ i := by
    rintro rfl
    exact hold htj
  refine ⟨j, ⟨hj, by rw [Function.update_of_ne hji, htj]⟩, ?_⟩
  rintro l ⟨hl, htl⟩
  by_cases hli : l = i
  · subst hli
    rw [Function.update_self] at htl
    exact absurd htl hnew
  · rw [Function.update_of_ne hli] at htl
    exact huniq l ⟨hl, htl⟩

structure Assigns (N : ℕ) (t : ℕ → Option κ) (keys : Set κ) : Prop where
  slot : ∀ k ∈ keys, ∃! i, i < N ∧ t i = some k
  owner : ∀ i < N, ∀ k, t i = some k → k ∈ keys

namespace Assigns

theorem empty (N : ℕ) : Assigns N (fun _ ↦ (none : Option κ)) ∅ where
  slot := fun _ hk ↦ absurd hk (Set.notMem_empty _)
  owner := fun _ _ _ h ↦ by cases h

theorem store (h : Assigns N t keys) (hi : i < N) (hfree : t i = none) (hk : k ∉ keys) :
    Assigns N (Function.update t i (some k)) (insert k keys) := by
  constructor
  · rintro k' (rfl | hk')
    · refine ⟨i, ⟨hi, Function.update_self i _ t⟩, ?_⟩
      rintro j ⟨hj, htj⟩
      by_contra hne
      rw [Function.update_of_ne hne] at htj
      exact hk (h.owner j hj _ htj)
    · apply existsUnique_update (h.slot k' hk')
      · rw [hfree]
        exact (Option.some_ne_none k').symm
      · intro heq
        exact hk (Option.some.inj heq ▸ hk')
  · intro j hj k' htj
    by_cases hji : j = i
    · subst hji
      rw [Function.update_self] at htj
      exact .inl (Option.some.inj htj).symm
    · rw [Function.update_of_ne hji] at htj
      exact .inr (h.owner j hj k' htj)

theorem clear (h : Assigns N t keys) (hi : i < N) (htaken : t i = some k) :
    Assigns N (Function.update t i none) (keys \ {k}) := by
  constructor
  · rintro k' ⟨hk', hne⟩
    apply existsUnique_update (h.slot k' hk')
    · intro heq
      exact hne (Option.some.inj (htaken.symm.trans heq)).symm
    · exact (Option.some_ne_none k').symm
  · intro j hj k' htj
    by_cases hji : j = i
    · subst hji
      rw [Function.update_self] at htj
      cases htj
    · rw [Function.update_of_ne hji] at htj
      refine ⟨h.owner j hj k' htj, ?_⟩
      rintro rfl
      obtain ⟨l, -, huniq⟩ := h.slot k' (h.owner j hj k' htj)
      exact hji ((huniq j ⟨hj, htj⟩).trans (huniq i ⟨hi, htaken⟩).symm)

end Assigns

end SlotTable
