import Mathlib.Data.Finset.Basic
import Mathlib.Data.Finset.Dedup
import Mathlib.Data.Finset.Lattice.Lemmas

/-!
# Acquiring, using and releasing

A resource may need others: it is acquired when they are held, used while it is held itself, and
released when nothing that needs it is held any more.
-/

namespace Custody

inductive Act (α : Type*) where
  | acquire (r : α)
  | use (r : α)
  | release (r : α)
  deriving DecidableEq

variable {α : Type*} [DecidableEq α] {needs : α → List α} {held : Finset α} {rs : List α} {r : α}

/-- What is held after the act; `none` is an act that must not happen. -/
def act (needs : α → List α) (held : Finset α) : Act α → Option (Finset α)
  | .acquire r => if r ∉ held ∧ ∀ d ∈ needs r, d ∈ held then some (insert r held) else none
  | .use r => if r ∈ held then some held else none
  | .release r => if r ∈ held ∧ ∀ d ∈ held, r ∉ needs d then some (held.erase r) else none

def run (needs : α → List α) (held : Finset α) (acts : List (Act α)) : Option (Finset α) :=
  acts.foldlM (act needs) held

theorem run_append (held : Finset α) (acts acts' : List (Act α)) :
    run needs held (acts ++ acts') = (run needs held acts).bind fun t ↦ run needs t acts' :=
  List.foldlM_append

theorem run_append_of_none {acts : List (Act α)} (h : run needs held acts = none)
    (acts' : List (Act α)) : run needs held (acts ++ acts') = none := by
  rw [run_append, h, Option.bind_none]

/-- The resources can be acquired in this order. -/
def Staged (needs : α → List α) : Finset α → List α → Prop
  | _, [] => True
  | held, r :: rs => (r ∉ held ∧ ∀ d ∈ needs r, d ∈ held) ∧ Staged needs (insert r held) rs

instance (needs : α → List α) : (held : Finset α) → (rs : List α) → Decidable (Staged needs held rs)
  | _, [] => isTrue trivial
  | held, r :: rs =>
    have : Decidable (Staged needs (insert r held) rs) := instDecidableStaged needs _ rs
    inferInstanceAs (Decidable (_ ∧ _))

theorem Staged.take (h : Staged needs held rs) (n : ℕ) : Staged needs held (rs.take n) := by
  induction rs generalizing held n with
  | nil =>
      rw [List.take_nil]
      trivial
  | cons r rs ih =>
      cases n with
      | zero => trivial
      | succ n => exact ⟨h.1, ih h.2 n⟩

theorem run_acquire (h : Staged needs held rs) :
    run needs held (rs.map .acquire) = some (held ∪ rs.toFinset) := by
  induction rs generalizing held with
  | nil => simp [run]
  | cons r rs ih =>
      have hact : act needs held (.acquire r) = some (insert r held) := if_pos h.1
      rw [List.map_cons, run, List.foldlM_cons, hact]
      apply (ih h.2).trans
      rw [List.toFinset_cons, Finset.insert_union, Finset.union_insert]

/-- A resource that was acquired may be used, which changes nothing. -/
theorem run_acquire_use (h : Staged needs held rs) (hr : r ∈ rs) (acts : List (Act α)) :
    run needs held (rs.map .acquire ++ .use r :: acts) =
      run needs held (rs.map .acquire ++ acts) := by
  have huse : act needs (held ∪ rs.toFinset) (.use r) = some (held ∪ rs.toFinset) :=
    if_pos (Finset.mem_union_right held (List.mem_toFinset.mpr hr))
  rw [run_append, run_append, run_acquire h, Option.bind_some, Option.bind_some, run,
    List.foldlM_cons, huse]
  rfl

/-- The resources can be released in this order: none is needed by itself or by a later one. -/
def Loose (needs : α → List α) : List α → Prop
  | [] => True
  | r :: rs => (r ∉ rs ∧ ∀ d ∈ r :: rs, r ∉ needs d) ∧ Loose needs rs

instance (needs : α → List α) : (rs : List α) → Decidable (Loose needs rs)
  | [] => isTrue trivial
  | _ :: rs =>
    have : Decidable (Loose needs rs) := instDecidableLoose needs rs
    inferInstanceAs (Decidable (_ ∧ _))

theorem run_release (h : Loose needs rs) :
    run needs rs.toFinset (rs.map .release) = some ∅ := by
  induction rs with
  | nil => rfl
  | cons r rs ih =>
      obtain ⟨⟨hnot, hfree⟩, hrest⟩ := h
      have hact : act needs (r :: rs).toFinset (.release r) = some rs.toFinset := by
        have hfree' : ∀ d ∈ (r :: rs).toFinset, r ∉ needs d :=
          fun d hd ↦ hfree d (List.mem_toFinset.mp hd)
        rw [act, if_pos ⟨List.mem_toFinset.mpr List.mem_cons_self, hfree'⟩, List.toFinset_cons,
          Finset.erase_insert (mt List.mem_toFinset.mp hnot)]
      rw [List.map_cons, run, List.foldlM_cons, hact]
      exact ih hrest

theorem Staged.mem_of_needs (h : Staged needs held rs) {r d : α} (hr : r ∈ rs) (hd : d ∈ needs r) :
    d ∈ held ∨ d ∈ rs := by
  induction rs generalizing held with
  | nil => cases hr
  | cons r' rs ih =>
      rcases List.mem_cons.mp hr with rfl | hr
      · exact .inl (h.1.2 d hd)
      · rcases ih h.2 hr with hheld | hrs
        · rcases Finset.mem_insert.mp hheld with rfl | hheld
          · exact .inr List.mem_cons_self
          · exact .inl hheld
        · exact .inr (List.mem_cons_of_mem r' hrs)

theorem staged_concat (r : α) :
    Staged needs held (rs ++ [r]) ↔
      Staged needs held rs ∧ (r ∉ held ∧ r ∉ rs) ∧ ∀ d ∈ needs r, d ∈ held ∨ d ∈ rs := by
  induction rs generalizing held with
  | nil => simp [Staged]
  | cons r' rs ih =>
      rw [List.cons_append, Staged, Staged, ih]
      simp only [Finset.mem_insert, List.mem_cons, not_or, or_assoc, or_left_comm, and_assoc,
        and_left_comm]

/-- What was acquired in stages can be released in the opposite order. -/
theorem Staged.loose_reverse (h : Staged needs ∅ rs) : Loose needs rs.reverse := by
  induction rs using List.reverseRecOn with
  | nil => trivial
  | append_singleton rs r ih =>
      obtain ⟨hrs, ⟨-, hnot⟩, hneeds⟩ := (staged_concat r).mp h
      have hempty {d : α} : d ∉ (∅ : Finset α) := Finset.notMem_empty d
      rw [List.reverse_concat]
      refine ⟨⟨mt List.mem_reverse.mp hnot, fun d hd hr ↦ hnot ?_⟩, ih hrs⟩
      rcases List.mem_cons.mp hd with rfl | hd
      · exact (hneeds d hr).resolve_left hempty
      · exact (hrs.mem_of_needs (List.mem_reverse.mp hd) hr).resolve_left hempty

/-- What was acquired in stages is released again. -/
theorem run_acquire_release {downs : List α} (hups : Staged needs ∅ rs) (hdowns : Loose needs downs)
    (hperm : rs.Perm downs) :
    run needs ∅ (rs.map .acquire ++ downs.map .release) = some ∅ := by
  rw [run_append, run_acquire hups, Option.bind_some, Finset.empty_union,
    List.toFinset_eq_of_perm _ _ hperm]
  exact run_release hdowns

theorem run_unwind (h : Staged needs ∅ rs) :
    run needs ∅ (rs.map .acquire ++ rs.reverse.map .release) = some ∅ :=
  run_acquire_release h h.loose_reverse rs.reverse_perm.symm

end Custody
