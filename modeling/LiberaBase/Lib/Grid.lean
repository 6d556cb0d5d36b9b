import Mathlib.Data.Int.ModEq
import Mathlib.Tactic.Linarith
import Mathlib.Tactic.Ring

/-!
# Cells of a grid

A grid divides an axis into cells of width `d`; the shift `c` says where they begin.
A position that is truncated to a multiple of `d` stays in its cell unless the cell
begins between the two.
-/

namespace Grid

variable {c d x k m : ℤ}

def cell (d c x : ℤ) : ℤ := (x + c) / d

/-- The cell of `x` does not begin between `x` truncated to a multiple of `d` and `x`. -/
def TruncStays (d c x : ℤ) : Prop := x % d ≤ (x + c) % d

instance : Decidable (TruncStays d c x) := inferInstanceAs (Decidable (_ ≤ _))

theorem cell_add_mul (hd : d ≠ 0) : cell d c (x + k * d) = cell d c x + k := by
  unfold cell
  rw [add_right_comm, Int.add_mul_ediv_right _ _ hd]

theorem truncStays_mul (hd : 0 < d) (k : ℤ) : TruncStays d c (k * d) := by
  unfold TruncStays
  rw [Int.mul_emod_left]
  exact Int.emod_nonneg _ hd.ne'

theorem cell_trunc (hd : 0 < d) :
    cell d c (x / d * d) = cell d c x - if TruncStays d c x then 0 else 1 := by
  have hx := Int.ediv_mul_add_emod x d
  have hy := Int.ediv_mul_add_emod (x + c) d
  have hx₀ := Int.emod_nonneg x hd.ne'
  have hx₁ := Int.emod_lt_of_pos x hd
  have hy₀ := Int.emod_nonneg (x + c) hd.ne'
  have hy₁ := Int.emod_lt_of_pos (x + c) hd
  unfold cell
  split_ifs with hstays
  · have hle : x % d ≤ (x + c) % d := hstays
    have hsplit : x / d * d + c = ((x + c) % d - x % d) + (x + c) / d * d := by linarith
    rw [hsplit, Int.add_mul_ediv_right _ _ hd.ne', Int.ediv_eq_zero_of_lt (by omega) (by omega)]
    ring
  · have hlt : (x + c) % d < x % d := not_le.mp hstays
    have hsplit : x / d * d + c = ((x + c) % d - x % d + d) + ((x + c) / d - 1) * d := by linarith
    rw [hsplit, Int.add_mul_ediv_right _ _ hd.ne', Int.ediv_eq_zero_of_lt (by omega) (by omega)]
    ring

/-- `k` widths on from the truncated position lies, on a circle of `m` cells, the cell
`k` on from that of the position exactly if truncation stays in the cell. -/
theorem cell_trunc_add_modEq_iff (hd : 0 < d) (hm : 1 < m) :
    cell d c ((x / d + k) * d) ≡ cell d c x + k [ZMOD m] ↔ TruncStays d c x := by
  rw [add_mul, cell_add_mul hd.ne', cell_trunc hd]
  split_ifs with hstays
  · simp [hstays]
  · refine iff_of_false (fun hmod ↦ ?_) hstays
    have hdvd : m ∣ 1 := by
      have h := hmod.dvd
      ring_nf at h
      exact h
    exact absurd (Int.le_of_dvd one_pos hdvd) hm.not_ge

end Grid
