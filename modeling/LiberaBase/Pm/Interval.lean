import LiberaBase.Pm.Acquire

/-!
# The interval of an acquisition

The PM event, moved by the offset, is the end of the interval that is fetched.  Its start is
computed from the number of atoms without their decimation, and in 32 bits.
-/

namespace LiberaBase

/-! ## A wrapped displacement -/

section Displacement

variable {x y : ℤ}

theorem toNat_add_signedToHw (t : HwTime) (x : ℤ) :
    ((t + U32.signedToHw (BitVec.ofInt 32 x)).toNat : ℤ) =
      (t.toNat + x.bmod (2 ^ 32)) % 2 ^ 64 := by
  have hsign : U32.signedToHw (BitVec.ofInt 32 x) = BitVec.ofInt 64 (x.bmod (2 ^ 32)) := by
    apply BitVec.eq_of_toInt_eq
    rw [U32.signedToHw, BitVec.toInt_signExtend_of_le (by decide), BitVec.toInt_ofInt,
      BitVec.toInt_ofInt]
    have hlo := Int.le_bmod (x := x) (m := 2 ^ 32) (by decide)
    have hhi := Int.bmod_lt (x := x) (m := 2 ^ 32) (by decide)
    exact (Int.bmod_eq_of_le (by omega) (by omega)).symm
  rw [hsign, BitVec.toNat_add, BitVec.toNat_ofInt]
  push_cast
  omega

/-- Where a displacement `x` that wraps takes a time as if it was `y`. -/
theorem add_bmod_emod_iff {t : ℕ} (hy : -2 ^ 64 + 2 ^ 31 ≤ y) (hy' : y < 2 ^ 64 - 2 ^ 31) :
    ((t : ℤ) + x.bmod (2 ^ 32)) % 2 ^ 64 = t + y ↔
      (-2 ^ 31 ≤ y ∧ y < 2 ^ 31 ∧ (2 ^ 32 : ℤ) ∣ y - x) ∧ 0 ≤ t + y ∧ t + y < 2 ^ 64 := by
  have hwrap : x.bmod (2 ^ 32) = y ↔ -2 ^ 31 ≤ y ∧ y < 2 ^ 31 ∧ (2 ^ 32 : ℤ) ∣ y - x :=
    Int.bmod_eq_iff (by decide)
  have hlo := Int.le_bmod (x := x) (m := 2 ^ 32) (by decide)
  have hhi := Int.bmod_lt (x := x) (m := 2 ^ 32) (by decide)
  rw [← hwrap]
  omega

end Displacement

namespace AcqCall

variable {α : Type*} {pmsize : U32} {c : AcqCall α pmsize} {pmEvent : Ltimestamp}

/-- The clocks that the atoms of the interval span, before they are decimated. -/
def span (c : AcqCall α pmsize) : ℕ := pmsize.toNat * c.pmDec.toNat * c.env.d.toNat

/-- The interval that is requested ends at the PM event, moved by the offset. -/
def EndsAtEvent (c : AcqCall α pmsize) (pmEvent : Ltimestamp) : Prop :=
  ((c.lmtStart pmEvent).toNat : ℤ) + c.span =
    pmEvent.lmt.toNat + c.pmOffset.toInt * c.env.d.toNat

instance (c : AcqCall α pmsize) (pmEvent : Ltimestamp) : Decidable (c.EndsAtEvent pmEvent) :=
  inferInstanceAs (Decidable (_ = _))

/-- By how much the start of that interval is later than the PM event. -/
def startOffset (c : AcqCall α pmsize) : ℤ :=
  (c.pmOffset.toInt - pmsize.toNat * c.pmDec.toNat) * c.env.d.toNat

/-- This number fits a `long`, the decimation does not change it there, and the start is a time. -/
structure Placed (c : AcqCall α pmsize) (pmEvent : Ltimestamp) : Prop where
  fits : -2 ^ 31 ≤ c.startOffset ∧ c.startOffset < 2 ^ 31
  undecimated : (2 ^ 32 : ℤ) ∣ pmsize.toNat * (c.pmDec.toNat - 1) * c.env.d.toNat
  start : 0 ≤ pmEvent.lmt.toNat + c.startOffset ∧ pmEvent.lmt.toNat + c.startOffset < 2 ^ 64

theorem lmtStart_toNat (c : AcqCall α pmsize) (pmEvent : Ltimestamp) :
    ((c.lmtStart pmEvent).toNat : ℤ) = (pmEvent.lmt.toNat +
      ((c.pmOffset.toInt - pmsize.toNat) * c.env.d.toNat).bmod (2 ^ 32)) % 2 ^ 64 := by
  have hproduct : (c.pmOffset - pmsize) * c.env.d =
      BitVec.ofInt 32 ((c.pmOffset.toInt - pmsize.toNat) * c.env.d.toNat) := by
    rw [BitVec.ofInt_mul, Int.sub_eq_add_neg, BitVec.ofInt_add, BitVec.ofInt_neg,
      BitVec.ofInt_toInt, BitVec.ofInt_natCast, BitVec.ofInt_natCast, BitVec.ofNat_toNat,
      BitVec.ofNat_toNat, BitVec.setWidth_eq, BitVec.setWidth_eq, BitVec.sub_eq_add_neg]
  rw [lmtStart, hproduct, toNat_add_signedToHw]

theorem startOffset_bounds (hcount : pmsize.toNat * c.pmDec.toNat ≤ ddMaxNoatoms.toNat) :
    -2 ^ 64 + 2 ^ 31 ≤ c.startOffset ∧ c.startOffset < 2 ^ 64 - 2 ^ 31 := by
  have hmax : ddMaxNoatoms.toNat = 0x400000 := by decide
  have hcount' : (pmsize.toNat * c.pmDec.toNat : ℤ) ≤ 0x400000 := by
    exact_mod_cast hmax ▸ hcount
  have hzero : (0 : ℤ) ≤ pmsize.toNat * c.pmDec.toNat :=
    Int.mul_nonneg (Int.natCast_nonneg _) (Int.natCast_nonneg _)
  have hoff := BitVec.toInt_lt (x := c.pmOffset)
  have hoff' := BitVec.le_toInt c.pmOffset
  have hd : (c.env.d.toNat : ℤ) < 2 ^ 32 := by exact_mod_cast c.env.d.isLt
  have hsamples : -(2 ^ 31 + 0x400000) ≤ c.pmOffset.toInt - pmsize.toNat * c.pmDec.toNat := by
    omega
  have hlo := Int.mul_le_mul_of_nonneg_right hsamples (Int.natCast_nonneg c.env.d.toNat)
  have hhi : c.startOffset ≤ 2 ^ 31 * c.env.d.toNat :=
    Int.mul_le_mul_of_nonneg_right (by omega) (Int.natCast_nonneg c.env.d.toNat)
  rw [startOffset] at hhi ⊢
  omega

/-- The interval that is fetched ends at the PM event, moved by the offset, exactly if the 32 bits
of the start do not show the decimation and its exact value is a time. -/
theorem endsAtEvent_iff (hcount : pmsize.toNat * c.pmDec.toNat ≤ ddMaxNoatoms.toNat)
    (pmEvent : Ltimestamp) : c.EndsAtEvent pmEvent ↔ c.Placed pmEvent := by
  obtain ⟨hlo, hhi⟩ := startOffset_bounds hcount
  have hstart : c.EndsAtEvent pmEvent ↔
      ((c.lmtStart pmEvent).toNat : ℤ) = pmEvent.lmt.toNat + c.startOffset := by
    rw [EndsAtEvent, startOffset, span, Int.sub_mul]
    push_cast
    omega
  have hdec : c.startOffset - (c.pmOffset.toInt - pmsize.toNat) * c.env.d.toNat =
      -(pmsize.toNat * (c.pmDec.toNat - 1) * c.env.d.toNat) := by
    rw [startOffset]
    ring
  rw [hstart, lmtStart_toNat, add_bmod_emod_iff hlo hhi, hdec, Int.dvd_neg]
  constructor
  · rintro ⟨⟨hlo, hhi, hdvd⟩, hstart⟩
    exact ⟨⟨hlo, hhi⟩, hdvd, hstart⟩
  · rintro ⟨⟨hlo, hhi⟩, hdvd, hstart⟩
    exact ⟨⟨hlo, hhi, hdvd⟩, hstart⟩

/-- Where nothing wraps, the interval ends late by what the decimation adds to its samples. -/
theorem end_eq (hfits : -2 ^ 31 ≤ (c.pmOffset.toInt - pmsize.toNat) * c.env.d.toNat ∧
      (c.pmOffset.toInt - pmsize.toNat) * c.env.d.toNat < 2 ^ 31)
    (hstart : 0 ≤ pmEvent.lmt.toNat + (c.pmOffset.toInt - pmsize.toNat) * c.env.d.toNat ∧
      pmEvent.lmt.toNat + (c.pmOffset.toInt - pmsize.toNat) * c.env.d.toNat < 2 ^ 64) :
    ((c.lmtStart pmEvent).toNat : ℤ) + c.span =
      pmEvent.lmt.toNat + c.pmOffset.toInt * c.env.d.toNat +
        pmsize.toNat * (c.pmDec.toNat - 1) * c.env.d.toNat := by
  obtain ⟨hlo, hhi⟩ := hfits
  rw [lmtStart_toNat, Int.bmod_eq_of_le (by omega) (by omega), Int.emod_eq_of_lt hstart.1 hstart.2,
    span]
  push_cast
  ring

theorem endsAtEvent_undecimated :
    AcqCall.EndsAtEvent { PostMortem.fetchOne with pmOffset := 500 } ⟨1000, 1000⟩ :=
  (endsAtEvent_iff (by decide) _).mpr ⟨by decide, by decide, by decide⟩

/-- A decimation of 64, which the start does not take into account, and an offset that does not fit
with a decimation of 2 clocks. -/
theorem decimated_ends_late :
    (AcqCall.lmtStart { PostMortem.fetchOne with pmDec := 64 } ⟨1000, 1000⟩ = 999 ∧
      ¬AcqCall.EndsAtEvent { PostMortem.fetchOne with pmDec := 64 } ⟨1000, 1000⟩) ∧
    ¬AcqCall.EndsAtEvent { PostMortem.fetchOne with
      pmOffset := 0x7fffffff, env := ⟨2, by decide, 1, 0, 0⟩ } ⟨1000, 1000⟩ := by
  decide

end AcqCall

end LiberaBase
