import Mathlib.Algebra.Order.Ring.Abs
import Mathlib.Data.Int.Order.Basic
import Mathlib.Order.Interval.Set.UnorderedInterval
import Mathlib.Tactic.LinearCombination

/-!
# Clocks that run at different speeds

Two clocks are synchronized when one shows `base` and the other `image`; from then on the second
counts `num` ticks while the first counts `den`.  A time of the first is converted to one of the
second, and the fraction of a tick is dropped in the direction of the synchronization.
-/

namespace Rescale

variable {num den : ℤ}

def rescale (base image num den t : ℤ) : ℤ := image + ((t - base) * num).tdiv den

theorem rescale_mono (base image : ℤ) (hnum : 0 ≤ num) (hden : 0 < den) {t t' : ℤ} (hle : t ≤ t') :
    rescale base image num den t ≤ rescale base image num den t' := by
  have hscaled : (t - base) * num ≤ (t' - base) * num :=
    Int.mul_le_mul_of_nonneg_right (Int.sub_le_sub_right hle base) hnum
  exact Int.add_le_add_left (Int.tdiv_le_tdiv hden hscaled) image

/-- What is left of a distance that is rounded to whole ticks is on its side, and not longer. -/
theorem tdiv_mul_mem_uIcc (hden : 0 ≤ den) (a : ℤ) : a.tdiv den * den ∈ Set.uIcc 0 a := by
  rcases le_total 0 a with ha | ha
  · have hquot : 0 ≤ a.tdiv den * den := mul_nonneg (Int.tdiv_nonneg ha hden) hden
    have hrem := Int.tmod_nonneg den ha
    have hsplit := Int.tdiv_mul_add_tmod a den
    exact Set.mem_uIcc_of_le hquot (by omega)
  · have hneg : 0 ≤ -a := neg_nonneg.mpr ha
    have hquot : 0 ≤ (-a).tdiv den * den := mul_nonneg (Int.tdiv_nonneg hneg hden) hden
    have hrem := Int.tmod_nonneg den hneg
    have hsplit := Int.tdiv_mul_add_tmod (-a) den
    rw [Int.neg_tdiv, neg_mul] at hquot hsplit
    exact Set.mem_uIcc_of_ge (by omega) (by omega)

/-! ## There and back -/

/-- A time comes back between the synchronization and itself. -/
theorem rescale_rescale_mem (base image : ℤ) (hnum : 0 < num) (hden : 0 ≤ den) (t : ℤ) :
    rescale image base den num (rescale base image num den t) ∈ Set.uIcc base t := by
  -- the way back is monotone in the distance, and exact for one that was not rounded
  have hmono : Monotone fun a : ℤ ↦ base + a.tdiv num :=
    fun a b hle ↦ Int.add_le_add_left (Int.tdiv_le_tdiv hnum hle) base
  have hback := hmono.mapsTo_uIcc (tdiv_mul_mem_uIcc hden ((t - base) * num))
  rw [Int.zero_tdiv, add_zero, Int.mul_tdiv_cancel _ hnum.ne', add_sub_cancel] at hback
  rw [rescale, rescale, add_sub_cancel_left]
  exact hback

/-- Less than one tick of each clock is lost on the two ways. -/
theorem abs_sub_rescale_rescale_lt (base image : ℤ) (hnum : 0 < num) (hden : 0 < den) (t : ℤ) :
    num * |t - rescale image base den num (rescale base image num den t)| < den + num := by
  rw [rescale, rescale, add_sub_cancel_left]
  set there := (t - base) * num
  set back := there.tdiv den * den
  have hthere : back + there.tmod den = there := Int.tdiv_mul_add_tmod there den
  have hback : back.tdiv num * num + back.tmod num = back := Int.tdiv_mul_add_tmod back num
  have hlost : num * (t - (base + back.tdiv num)) = there.tmod den + back.tmod num := by
    linear_combination -hthere - hback
  calc num * |t - (base + back.tdiv num)| = |there.tmod den + back.tmod num| := by
        rw [← hlost, abs_mul, abs_of_pos hnum]
    _ ≤ |there.tmod den| + |back.tmod num| := abs_add_le _ _
    _ < den + num := add_lt_add
        (abs_lt.mpr ⟨Int.lt_tmod_of_pos _ hden, Int.tmod_lt_of_pos _ hden⟩)
        (abs_lt.mpr ⟨Int.lt_tmod_of_pos _ hnum, Int.tmod_lt_of_pos _ hnum⟩)

end Rescale
