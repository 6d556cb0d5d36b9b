import Mathlib.Algebra.Order.Group.Nat
import Mathlib.Data.Int.Order.Basic

/-!
# Overwriting a part of a buffer

A buffer keeps its length, and a write that leaves it fails.  Writes that follow one another are one
write.
-/

namespace Overwrite

variable {α : Type*} {old new first second : List α} {i : ℕ}

/-- The elements from place `i` on are replaced. -/
def overwrite (old : List α) (i : ℕ) (new : List α) : Option (List α) :=
  if i + new.length ≤ old.length then
    some (old.take i ++ new ++ old.drop (i + new.length)) else none

theorem overwrite_fits (h : i + new.length ≤ old.length) :
    overwrite old i new = some (old.take i ++ new ++ old.drop (i + new.length)) := if_pos h

theorem length_overwritten (h : i + new.length ≤ old.length) :
    (old.take i ++ new ++ old.drop (i + new.length)).length = old.length := by
  simp only [List.length_append, List.length_take, List.length_drop]
  omega

theorem overwrite_nil (h : i ≤ old.length) : overwrite old i [] = some old := by
  simp [overwrite, h]

theorem overwrite_front (h : new.length ≤ old.length) :
    overwrite old 0 new = some (new ++ old.drop new.length) := by
  have hfits : 0 + new.length ≤ old.length := (Nat.zero_add _).le.trans h
  rw [overwrite_fits hfits, List.take_zero, List.nil_append, Nat.zero_add]

theorem overwrite_singleton (h : i < old.length) (x : α) :
    overwrite old i [x] = some (old.set i x) := by
  rw [overwrite_fits h, List.set_eq_take_append_cons_drop, if_pos h, List.append_assoc]
  rfl

/-- Two writes that follow one another. -/
theorem overwrite_append (old first second : List α) (i : ℕ) :
    overwrite old i (first ++ second) =
      (overwrite old i first).bind fun old ↦ overwrite old (i + first.length) second := by
  by_cases hfirst : i + first.length ≤ old.length
  · have hpre : (old.take i ++ first).length = i + first.length := by
      rw [List.length_append, List.length_take]
      omega
    have hcond : i + (first ++ second).length ≤ old.length ↔
        i + first.length + second.length ≤ old.length := by
      rw [List.length_append, Nat.add_assoc]
    have hover : (old.take i ++ first).drop (i + first.length + second.length) = [] :=
      List.drop_of_length_le (by omega)
    rw [overwrite_fits hfirst, Option.bind_some, overwrite, overwrite, length_overwritten hfirst,
      if_congr hcond rfl rfl]
    congr 2
    rw [← hpre, List.take_left, List.length_append, List.drop_append, hpre, hover, List.drop_drop,
      List.nil_append, Nat.add_sub_cancel' (Nat.le_add_right _ _), Nat.add_assoc]
    simp only [List.append_assoc]
  · have hcond : ¬i + (first ++ second).length ≤ old.length := by
      rw [List.length_append]
      omega
    rw [overwrite, if_neg hcond, overwrite, if_neg hfirst]
    rfl

/-! ## Pieces that follow one another -/

/-- Where some pieces go that are written one after the other. -/
def layout : ℕ → List (List α) → List (ℕ × List α)
  | _, [] => []
  | i, piece :: pieces => (i, piece) :: layout (i + piece.length) pieces

theorem le_of_mem_layout {pieces : List (List α)} {write : ℕ × List α}
    (h : write ∈ layout i pieces) : i ≤ write.1 := by
  induction pieces generalizing i with
  | nil => cases h
  | cons piece pieces ih =>
      rcases List.mem_cons.mp h with rfl | h
      · exact le_rfl
      · exact (Nat.le_add_right _ _).trans (ih h)

theorem layout_le_iff (i : ℕ) (pieces : List (List α)) (size : ℤ) :
    (∀ write ∈ layout i pieces, (write.1 + write.2.length : ℤ) ≤ size) ↔
      pieces = [] ∨ (i + pieces.flatten.length : ℤ) ≤ size := by
  induction pieces generalizing i with
  | nil => simp [layout]
  | cons piece pieces ih =>
      rw [layout, List.forall_mem_cons, ih, List.flatten_cons, List.length_append]
      by_cases hnil : pieces = []
      · simp [hnil]
      · simp only [hnil, false_or, List.cons_ne_nil]
        omega

/-- Writes one after the other, up to the first one that fails. -/
def overwriteAll (old : List α) : List (ℕ × List α) → Option (List α)
  | [] => some old
  | (i, new) :: writes => (overwrite old i new).bind fun old ↦ overwriteAll old writes

/-- All pieces are one write. -/
theorem overwriteAll_layout {pieces : List (List α)} (h : i ≤ old.length) :
    overwriteAll old (layout i pieces) = overwrite old i pieces.flatten := by
  induction pieces generalizing old i with
  | nil => exact (overwrite_nil h).symm
  | cons piece pieces ih =>
      rw [layout, overwriteAll, List.flatten_cons, overwrite_append]
      by_cases hfits : i + piece.length ≤ old.length
      · rw [overwrite_fits hfits, Option.bind_some, Option.bind_some,
          ih (hfits.trans_eq (length_overwritten hfits).symm)]
      · rw [overwrite, if_neg hfits]
        rfl

end Overwrite
