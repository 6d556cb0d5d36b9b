import LiberaBase.Dd.Time

/-!
# The range of the time conversions

`lst2lmt` and `lmt2lst` refuse times that are too far from the synchronization point for their
64-bit products.  The limit of `lmt2lst` follows from constants; that of `lst2lmt` is for one clock,
117.44 MHz, while `LIBERA_EVENT_SET_FLMC` takes any that is not 0.
-/

namespace LiberaBase

variable {flmcdHz : U32}

/-- The common form of the two conversions: the distance of `t` from one half of the synchronization
point is scaled and added to the other half, or subtracted. -/
def convert (limit base image t : HwTime) (scale : HwTime → HwTime) : Option HwTime :=
  let positive := base < t
  let delta := if positive then t - base else base - t
  if limit < delta then none
  else some (if positive then image + scale delta else image - scale delta)

theorem lst2lmt_eq (flmcdHz : U32) (lst : HwTime) (stime : Ltimestamp) :
    lst2lmt flmcdHz lst stime = convert deltaLstOverflow stime.lst stime.lmt lst fun delta ↦
      delta * U32.toHw flmcdHz / (lscFreq * flmcDeciHz) := rfl

theorem lmt2lst_eq (flmcdHz : U32) (lmt : HwTime) (stime : Ltimestamp) :
    lmt2lst flmcdHz lmt stime = convert deltaLmtOverflow stime.lmt stime.lst lmt fun delta ↦
      divU64 (delta * lscFreq * flmcDeciHz) flmcdHz := rfl

/-- The distance of two times that are read as natural numbers. -/
def distance (t base : HwTime) : ℕ := ((t.toNat : ℤ) - base.toNat).natAbs

/-- The scaled distance, added or subtracted without regard to the width of the words. -/
def scaled (base image t : HwTime) (num den : ℕ) : ℤ :=
  image.toNat + ((t.toNat : ℤ) - base.toNat).sign * ((distance t base * num / den : ℕ) : ℤ)

section

variable {limit base image t : HwTime} {scale : HwTime → HwTime} {num den : ℕ}

theorem toNat_delta (base t : HwTime) :
    (if base < t then t - base else base - t).toNat = distance t base := by
  unfold distance
  have hbase := base.isLt
  have ht := t.isLt
  split_ifs with hlt
  · rw [BitVec.toNat_sub]
    rw [BitVec.lt_def] at hlt
    omega
  · rw [BitVec.toNat_sub]
    rw [BitVec.lt_def] at hlt
    omega

theorem convert_eq_none_iff : convert limit base image t scale = none ↔
    limit.toNat < distance t base := by
  rw [← toNat_delta, ← BitVec.lt_def]
  unfold convert
  dsimp only
  split_ifs with hfar <;> simp_all

theorem ofInt_add (x : HwTime) (k : ℕ) : BitVec.ofInt 64 (x.toNat + k) = x + BitVec.ofNat 64 k := by
  apply BitVec.eq_of_toNat_eq
  rw [BitVec.toNat_ofInt, BitVec.toNat_add, BitVec.toNat_ofNat]
  omega

theorem ofInt_sub (x : HwTime) (k : ℕ) : BitVec.ofInt 64 (x.toNat - k) = x - BitVec.ofNat 64 k := by
  apply BitVec.eq_of_toNat_eq
  rw [BitVec.toNat_ofInt, BitVec.toNat_sub, BitVec.toNat_ofNat]
  omega

/-- If the scaling is that of natural numbers, so is the conversion, up to the width of the
result. -/
theorem convert_eq (hnear : ¬limit.toNat < distance t base)
    (hscale : ∀ delta : HwTime, delta.toNat = distance t base →
      (scale delta).toNat = distance t base * num / den) :
    convert limit base image t scale = some (BitVec.ofInt 64 (scaled base image t num den)) := by
  have hdelta := toNat_delta base t
  unfold convert
  dsimp only
  rw [if_neg (by rwa [BitVec.lt_def, hdelta])]
  congr 1
  by_cases hpos : base < t
  · simp only [if_pos hpos] at hdelta ⊢
    have hsign : ((t.toNat : ℤ) - base.toNat).sign = 1 := by
      rw [BitVec.lt_def] at hpos
      exact Int.sign_eq_one_of_pos (by omega)
    rw [scaled, hsign, one_mul, ofInt_add, ← hscale _ hdelta, BitVec.ofNat_toNat,
      BitVec.setWidth_eq]
  · simp only [if_neg hpos] at hdelta ⊢
    have hsign : ((t.toNat : ℤ) - base.toNat).sign * ((distance t base * num / den : ℕ) : ℤ) =
        -((distance t base * num / den : ℕ) : ℤ) := by
      rw [BitVec.lt_def] at hpos
      rcases Nat.eq_or_lt_of_le (Nat.le_of_not_lt hpos) with heq | hlt
      · simp [distance, heq]
      · rw [Int.sign_eq_neg_one_of_neg (by omega), neg_one_mul]
    rw [scaled, hsign, ← sub_eq_add_neg, ofInt_sub, ← hscale _ hdelta, BitVec.ofNat_toNat,
      BitVec.setWidth_eq]

end

theorem lst2lmt_eq_none_iff {lst : HwTime} {stime : Ltimestamp} :
    lst2lmt flmcdHz lst stime = none ↔ 15707377440 < distance lst stime.lst := by
  have hlimit : deltaLstOverflow.toNat = 15707377440 := rfl
  rw [lst2lmt_eq, convert_eq_none_iff, hlimit]

theorem lmt2lst_eq_none_iff {lmt : HwTime} {stime : Ltimestamp} :
    lmt2lst flmcdHz lmt stime = none ↔ 14757395240 < distance lmt stime.lmt := by
  have hlimit : deltaLmtOverflow.toNat = 14757395240 := rfl
  rw [lmt2lst_eq, convert_eq_none_iff, hlimit]

/-- `lst2lmt` refuses, or its product fits and the result is the scaled distance. -/
def Lst2lmtExact (flmcdHz : U32) (lst : HwTime) (stime : Ltimestamp) : Prop :=
  lst2lmt flmcdHz lst stime = none ∨
    distance lst stime.lst * flmcdHz.toNat < 2 ^ 64 ∧
      lst2lmt flmcdHz lst stime =
        some (BitVec.ofInt 64 (scaled stime.lst stime.lmt lst flmcdHz.toNat 1250000000))

def Lmt2lstExact (flmcdHz : U32) (lmt : HwTime) (stime : Ltimestamp) : Prop :=
  lmt2lst flmcdHz lmt stime = none ∨
    distance lmt stime.lmt * 1250000000 < 2 ^ 64 ∧
      lmt2lst flmcdHz lmt stime =
        some (BitVec.ofInt 64 (scaled stime.lmt stime.lst lmt 1250000000 flmcdHz.toNat))

theorem lst2lmtExact_iff (flmcdHz : U32) (lst : HwTime) (stime : Ltimestamp) :
    Lst2lmtExact flmcdHz lst stime ↔ 15707377440 < distance lst stime.lst ∨
      distance lst stime.lst * flmcdHz.toNat < 2 ^ 64 := by
  unfold Lst2lmtExact
  rw [lst2lmt_eq_none_iff, lst2lmt_eq]
  by_cases hfar : 15707377440 < distance lst stime.lst
  · exact iff_of_true (.inl hfar) (.inl hfar)
  rw [or_iff_right hfar, or_iff_right hfar]
  refine and_iff_left_of_imp fun hfits ↦ convert_eq hfar fun delta hdelta ↦ ?_
  rw [BitVec.toNat_udiv, BitVec.toNat_mul, hdelta, U32.toNat_toHw, Nat.mod_eq_of_lt hfits]
  rfl

theorem lmt2lst_exact (flmcdHz : U32) (lmt : HwTime) (stime : Ltimestamp) :
    Lmt2lstExact flmcdHz lmt stime := by
  unfold Lmt2lstExact
  rw [lmt2lst_eq_none_iff, lmt2lst_eq]
  by_cases hfar : 14757395240 < distance lmt stime.lmt
  · exact .inl hfar
  have hfits : distance lmt stime.lmt * 1250000000 < 2 ^ 64 := by omega
  refine .inr ⟨hfits, convert_eq hfar fun delta hdelta ↦ ?_⟩
  rw [divU64, BitVec.toNat_udiv, U32.toNat_toHw, BitVec.mul_assoc, BitVec.toNat_mul, hdelta]
  congr 1
  exact Nat.mod_eq_of_lt hfits

theorem lst2lmt_exact (hclock : flmcdHz.toNat ≤ 1174400000) (lst : HwTime) (stime : Ltimestamp) :
    Lst2lmtExact flmcdHz lst stime := by
  rw [lst2lmtExact_iff]
  rcases Nat.lt_or_ge 15707377440 (distance lst stime.lst) with hfar | hnear
  · exact .inl hfar
  · have hmul := Nat.mul_le_mul hnear hclock
    omega

/-- The limit of `lst2lmt` is right for the clocks up to 117.44 MHz, in deci-hertz; with a faster
one the times within the limit fail from which the product reaches `2 ^ 64`. -/
theorem conversions_exact_iff (flmcdHz : U32) :
    (∀ lst stime, Lst2lmtExact flmcdHz lst stime ↔ 15707377440 < distance lst stime.lst ∨
      distance lst stime.lst * flmcdHz.toNat < 2 ^ 64) ∧
    (∀ lmt stime, Lmt2lstExact flmcdHz lmt stime) ∧
    ((∀ lst stime, Lst2lmtExact flmcdHz lst stime) ↔ flmcdHz.toNat ≤ 1174400000) := by
  refine ⟨lst2lmtExact_iff flmcdHz, lmt2lst_exact flmcdHz, ?_, lst2lmt_exact⟩
  intro hall
  have hlimit := (lst2lmtExact_iff ..).mp (hall 15707377440 ⟨0, 0⟩)
  have hdistance : distance 15707377440 0 = 15707377440 := rfl
  rw [hdistance] at hlimit
  omega

/-- At 118 MHz, 125 seconds after the synchronization point, the result is the point itself. -/
theorem lst2lmt_wraps : (1180000000 : U32) ≠ 0 ∧
    lst2lmt 1180000000 15632833961 ⟨0, 0⟩ = some 0 ∧
      scaled 0 0 15632833961 1180000000 1250000000 = 14757395259 ∧
      ¬Lst2lmtExact 1180000000 15632833961 ⟨0, 0⟩ := by
  refine ⟨by decide, by decide, by decide, ?_⟩
  rw [lst2lmtExact_iff]
  decide

end LiberaBase
