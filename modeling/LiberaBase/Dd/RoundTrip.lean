import LiberaBase.Dd.Conversion
import LiberaBase.Lib.Rescale

/-!
# From one clock to the other and back

`lst2lmt` and `lmt2lst` divide by different numbers, and both round toward the synchronization
point.  A time that goes both ways comes back on its side of the point, with less than one tick of
each clock lost.
-/

namespace LiberaBase

open Rescale

variable {flmcdHz : U32} {stime : Ltimestamp} {lst lmt base image t t' m : HwTime} {num den : ℕ}

theorem scaled_eq_rescale (base image t : HwTime) (num den : ℕ) :
    scaled base image t num den = rescale base.toNat image.toNat num den t.toNat := by
  have hsign (k : ℕ) : (k : ℤ).sign * ((k * num / den : ℕ) : ℤ) = ((k : ℤ) * num).tdiv den := by
    rw [← Nat.cast_mul, ← Int.ofNat_tdiv]
    rcases Nat.eq_zero_or_pos k with rfl | hpos
    · rw [Nat.zero_mul, Nat.zero_div, Nat.cast_zero, mul_zero]
    · rw [Int.sign_natCast_of_ne_zero hpos.ne', one_mul]
  rw [scaled, rescale, distance]
  rcases Int.eq_nat_or_neg ((t.toNat : ℤ) - base.toNat) with ⟨k, hk | hk⟩
  · rw [hk, Int.natAbs_natCast, hsign]
  · rw [hk, Int.natAbs_neg, Int.natAbs_natCast, Int.sign_neg, neg_mul, neg_mul, Int.neg_tdiv, hsign]

/-- The addition or subtraction at the end of a conversion does not wrap. -/
def Fits (base image t : HwTime) (num den : ℕ) : Prop :=
  0 ≤ scaled base image t num den ∧ scaled base image t num den < 2 ^ 64

def Lst2lmtFits (flmcdHz : U32) (lst : HwTime) (stime : Ltimestamp) : Prop :=
  Fits stime.lst stime.lmt lst flmcdHz.toNat 1250000000

def Lmt2lstFits (flmcdHz : U32) (lmt : HwTime) (stime : Ltimestamp) : Prop :=
  Fits stime.lmt stime.lst lmt 1250000000 flmcdHz.toNat

theorem toNat_ofInt_scaled (h : Fits base image t num den) :
    ((BitVec.ofInt 64 (scaled base image t num den)).toNat : ℤ) =
      rescale base.toNat image.toNat num den t.toNat := by
  obtain ⟨hlow, hhigh⟩ := h
  rw [← scaled_eq_rescale, BitVec.toNat_ofInt]
  omega

theorem fits_iff : Fits base image t num den ↔
    0 ≤ rescale base.toNat image.toNat num den t.toNat ∧
      rescale base.toNat image.toNat num den t.toNat < 2 ^ 64 := by
  rw [Fits, scaled_eq_rescale]

/-- Where the result is that of the conversion of numbers. -/
theorem lst2lmt_eq_rescale (hclock : flmcdHz.toNat ≤ 1174400000)
    (hfits : Lst2lmtFits flmcdHz lst stime) (h : lst2lmt flmcdHz lst stime = some lmt) :
    (lmt.toNat : ℤ) =
      rescale stime.lst.toNat stime.lmt.toNat flmcdHz.toNat (1250000000 : ℕ) lst.toNat := by
  rcases lst2lmt_exact hclock lst stime with hnone | ⟨-, hsome⟩
  · exact absurd (hnone.symm.trans h) (by simp)
  · obtain rfl := Option.some.inj (hsome.symm.trans h)
    exact toNat_ofInt_scaled hfits

theorem lmt2lst_eq_rescale (hfits : Lmt2lstFits flmcdHz lmt stime)
    (h : lmt2lst flmcdHz lmt stime = some lst) :
    (lst.toNat : ℤ) =
      rescale stime.lmt.toNat stime.lst.toNat (1250000000 : ℕ) flmcdHz.toNat lmt.toNat := by
  rcases lmt2lst_exact flmcdHz lmt stime with hnone | ⟨-, hsome⟩
  · exact absurd (hnone.symm.trans h) (by simp)
  · obtain rfl := Option.some.inj (hsome.symm.trans h)
    exact toNat_ofInt_scaled hfits

/-- Two times are converted to two times in the same order. -/
theorem le_of_rescale {m' : HwTime} (hden : 0 < den)
    (hm : (m.toNat : ℤ) = rescale base.toNat image.toNat num den t.toNat)
    (hm' : (m'.toNat : ℤ) = rescale base.toNat image.toNat num den t'.toNat) (hle : t ≤ t') :
    m ≤ m' := by
  rw [BitVec.le_def] at hle ⊢
  have hmono := rescale_mono base.toNat image.toNat (Nat.cast_nonneg num)
    (Nat.cast_pos.mpr hden) (Nat.cast_le.mpr hle)
  rw [← hm, ← hm'] at hmono
  exact Nat.cast_le.mp hmono

/-! ## Far from the ends of the clocks -/

theorem fits_of_le {bound : ℕ} (hdelta : distance t base * num / den ≤ bound)
    (hlow : bound ≤ image.toNat) (hhigh : image.toNat + bound < 2 ^ 64) :
    Fits base image t num den := by
  rw [Fits, scaled]
  generalize distance t base * num / den = delta at hdelta ⊢
  rcases Int.sign_trichotomy ((t.toNat : ℤ) - base.toNat) with hsign | hsign | hsign
  · rw [hsign, one_mul]
    omega
  · rw [hsign, zero_mul]
    omega
  · rw [hsign, neg_one_mul]
    omega

/-- What is added for a time that is not refused is at most what is added for the limit. -/
theorem lst2lmtFits_of_far (hclock : flmcdHz.toNat ≤ 1174400000)
    (h : lst2lmt flmcdHz lst stime = some lmt) (hlow : 14757395252 ≤ stime.lmt.toNat)
    (hhigh : stime.lmt.toNat + 14757395252 < 2 ^ 64) : Lst2lmtFits flmcdHz lst stime := by
  have hnear : distance lst stime.lst ≤ 15707377440 := by
    by_contra hfar
    rw [lst2lmt_eq_none_iff.mpr (not_le.mp hfar)] at h
    cases h
  refine fits_of_le ?_ hlow hhigh
  exact Nat.div_le_div_right (Nat.mul_le_mul hnear hclock)

theorem lmt2lstFits_of_far (h : lmt2lst flmcdHz lmt stime = some lst)
    (hlow : 14757395240 * 1250000000 / flmcdHz.toNat ≤ stime.lst.toNat)
    (hhigh : stime.lst.toNat + 14757395240 * 1250000000 / flmcdHz.toNat < 2 ^ 64) :
    Lmt2lstFits flmcdHz lmt stime := by
  have hnear : distance lmt stime.lmt ≤ 14757395240 := by
    by_contra hfar
    rw [lmt2lst_eq_none_iff.mpr (not_le.mp hfar)] at h
    cases h
  refine fits_of_le ?_ hlow hhigh
  exact Nat.div_le_div_right (Nat.mul_le_mul_right _ hnear)

/-! ## Both ways -/

/-- The time `t'` that comes back for `t`: on the same side of the synchronization point, or the
point itself, not farther from it, and close to `t`. -/
structure ComesBack (base t t' : HwTime) (num den : ℕ) : Prop where
  after : base ≤ t → base ≤ t'
  before : t ≤ base → t' ≤ base
  near : distance t' base ≤ distance t base
  close : num * distance t t' < den + num

/-- What comes back is between the synchronization point and the time, so the way back does not
wrap. -/
theorem fits_back (hnum : 0 < num) (hden : 0 < den)
    (hm : (m.toNat : ℤ) = rescale base.toNat image.toNat num den t.toNat) :
    Fits image base m den num := by
  have hmem := rescale_rescale_mem base.toNat image.toNat (Nat.cast_pos.mpr hnum)
    (Nat.cast_pos.mpr hden).le t.toNat
  have hbase := base.isLt
  have ht := t.isLt
  rw [fits_iff, hm]
  rcases Set.mem_uIcc.mp hmem with hbetween | hbetween <;> omega

theorem comesBack_of_rescale (hnum : 0 < num) (hden : 0 < den)
    (hm : (m.toNat : ℤ) = rescale base.toNat image.toNat num den t.toNat)
    (ht' : (t'.toNat : ℤ) = rescale image.toNat base.toNat den num m.toNat) :
    ComesBack base t t' num den := by
  have hnum' : (0 : ℤ) < num := Nat.cast_pos.mpr hnum
  have hden' : (0 : ℤ) < den := Nat.cast_pos.mpr hden
  rw [hm] at ht'
  have hmem := rescale_rescale_mem base.toNat image.toNat hnum' hden'.le t.toNat
  have hlost := abs_sub_rescale_rescale_lt base.toNat image.toNat hnum' hden' t.toNat
  have hdistance : ((distance t t' : ℕ) : ℤ) = |(t.toNat : ℤ) - t'.toNat| := Int.natCast_natAbs _
  rw [← ht'] at hmem hlost
  rw [← hdistance] at hlost
  have hbetween := Set.mem_uIcc.mp hmem
  refine ⟨?_, ?_, ?_, ?_⟩
  · rw [BitVec.le_def, BitVec.le_def]
    omega
  · rw [BitVec.le_def, BitVec.le_def]
    omega
  · rw [distance, distance]
    omega
  · exact_mod_cast hlost

/-- **The conversions between LST and LMT** keep the order of time, and what one makes of the result
of the other is the time itself, up to a tick of each clock. -/
theorem conversions_comeBack (hpos : 1 ≤ flmcdHz.toNat) (hclock : flmcdHz.toNat ≤ 1174400000)
    (stime : Ltimestamp) :
    (∀ x y m n, Lst2lmtFits flmcdHz x stime → Lst2lmtFits flmcdHz y stime →
      lst2lmt flmcdHz x stime = some m → lst2lmt flmcdHz y stime = some n → x ≤ y → m ≤ n) ∧
    (∀ x m x', Lst2lmtFits flmcdHz x stime →
      lst2lmt flmcdHz x stime = some m → lmt2lst flmcdHz m stime = some x' →
        ComesBack stime.lst x x' flmcdHz.toNat 1250000000) ∧
    (∀ m n x y, Lmt2lstFits flmcdHz m stime → Lmt2lstFits flmcdHz n stime →
      lmt2lst flmcdHz m stime = some x → lmt2lst flmcdHz n stime = some y → m ≤ n → x ≤ y) ∧
    ∀ m x m', Lmt2lstFits flmcdHz m stime →
      lmt2lst flmcdHz m stime = some x → lst2lmt flmcdHz x stime = some m' →
        ComesBack stime.lmt m m' 1250000000 flmcdHz.toNat := by
  have hdeci : 0 < 1250000000 := by decide
  refine ⟨fun x y m n hx hy hm hn ↦ ?_, fun x m x' hx hm hx' ↦ ?_, fun m n x y hm hn hx hy ↦ ?_,
    fun m x m' hm hx hm' ↦ ?_⟩
  · exact le_of_rescale hdeci (lst2lmt_eq_rescale hclock hx hm) (lst2lmt_eq_rescale hclock hy hn)
  · have hthere := lst2lmt_eq_rescale hclock hx hm
    have hback := lmt2lst_eq_rescale (fits_back hpos hdeci hthere) hx'
    exact comesBack_of_rescale hpos hdeci hthere hback
  · exact le_of_rescale hpos (lmt2lst_eq_rescale hm hx) (lmt2lst_eq_rescale hn hy)
  · have hthere := lmt2lst_eq_rescale hm hx
    have hback := lst2lmt_eq_rescale hclock (fits_back hdeci hpos hthere) hm'
    exact comesBack_of_rescale hdeci hpos hthere hback

/-- At 117.44 MHz a time 1000 ticks after the synchronization point loses one on either way. -/
theorem conversions_comeBack_thousand :
    (lst2lmt 1174400000 0x10000003e8 ⟨0x1000000000, 0x1000000000⟩ = some 0x10000003ab ∧
      lmt2lst 1174400000 0x10000003ab ⟨0x1000000000, 0x1000000000⟩ = some 0x10000003e7 ∧
      ComesBack 0x1000000000 0x10000003e8 0x10000003e7 1174400000 1250000000) ∧
    lmt2lst 1174400000 0x10000003e8 ⟨0x1000000000, 0x1000000000⟩ = some 0x1000000428 ∧
      lst2lmt 1174400000 0x1000000428 ⟨0x1000000000, 0x1000000000⟩ = some 0x10000003e7 ∧
      ComesBack 0x1000000000 0x10000003e8 0x10000003e7 1250000000 1174400000 := by
  have hlmt : lst2lmt 1174400000 0x10000003e8 ⟨0x1000000000, 0x1000000000⟩ =
      some 0x10000003ab := by decide
  have hlmt' : lmt2lst 1174400000 0x10000003ab ⟨0x1000000000, 0x1000000000⟩ =
      some 0x10000003e7 := by decide
  have hlst : lmt2lst 1174400000 0x10000003e8 ⟨0x1000000000, 0x1000000000⟩ =
      some 0x1000000428 := by decide
  have hlst' : lst2lmt 1174400000 0x1000000428 ⟨0x1000000000, 0x1000000000⟩ =
      some 0x10000003e7 := by decide
  obtain ⟨-, hforth, -, hback⟩ :=
    conversions_comeBack (show 1 ≤ (1174400000 : U32).toNat by decide) (by decide)
      ⟨0x1000000000, 0x1000000000⟩
  exact ⟨⟨hlmt, hlmt', hforth _ _ _
    (lst2lmtFits_of_far (by decide) hlmt (by decide) (by decide)) hlmt hlmt'⟩, hlst, hlst',
    hback _ _ _ (lmt2lstFits_of_far hlst (by decide) (by decide)) hlst hlst'⟩

end LiberaBase
