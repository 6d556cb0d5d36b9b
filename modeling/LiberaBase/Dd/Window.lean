import LiberaBase.Dd.Read

/-!
# When data can be waited for

`wait_lmt` and `wait_lst` compare how far the time is past the start with three thresholds, products
of `lgbl.d`.  The thresholds are taken in 32 bits, the differences in signed 64 bits; and only the
first time is compared with the last threshold, that of the data which is already overwritten.
-/

namespace LiberaBase

inductive WaitDecision where
  | tooLate
  | tooEarly
  | wait
  | proceed
  deriving DecidableEq

/-- The comparisons of `wait_lmt` and `wait_lst`, as they are computed. -/
def waitDecision (d : U32) (now start : HwTime) : WaitDecision :=
  let span : U32 := 2097152 * d
  let maxInAdvance : U32 := 10485760 * d
  if (span - span / 10).toNat < (now - start).toInt then .tooLate
  else
    let deltaEnd := waitDelta d now start
    if deltaEnd < 0 then
      if maxInAdvance.toNat < (-deltaEnd).bmod (2 ^ 64) then .tooEarly else .wait
    else .proceed

def WaitDecision.follow (decision : WaitDecision) (d : U32) (clock : Ltimestamp → HwTime)
    (ctime : Ltimestamp) (start : HwTime) (answers : List CtimeAnswer) :
    Option (ℤ × Ltimestamp) :=
  match decision with
  | .tooLate => some (-ENODATA, ctime)
  | .tooEarly => some (-EAGAIN, ctime)
  | .wait => waitLoop d clock start ctime answers
  | .proceed => some (0, ctime)

theorem waitTime_eq (d : U32) (clock : Ltimestamp → HwTime) (ctime : Ltimestamp) (start : HwTime)
    (answers : List CtimeAnswer) : waitTime d clock ctime start answers =
      (waitDecision d (clock ctime) start).follow d clock ctime start answers := by
  unfold waitTime waitDecision
  dsimp only
  split_ifs <;> rfl

/-! ## The thresholds -/

/-- The thresholds of a request, as integers. -/
structure Thresholds where
  late : ℤ
  margin : ℤ
  early : ℤ

/-- `LIBERA_DD_CIRCBUF_ATOMS * d - LIBERA_DD_CIRCBUF_SAFE`, `LIBERA_DD_READSYNC_MARGIN * d` and
`LIBERA_DD_MAX_INADVANCE * d`. -/
def thresholds (d : ℤ) : Thresholds := ⟨2097152 * d - 2097152 * d / 10, 64 * d, 10485760 * d⟩

/-- The same with every product reduced to an `unsigned long`. -/
def wrappedThresholds (d : ℤ) : Thresholds where
  late := 2097152 * d % 2 ^ 32 - 2097152 * d % 2 ^ 32 / 10
  margin := 64 * d % 2 ^ 32
  early := 10485760 * d % 2 ^ 32

/-- The same comparisons of unbounded integers. -/
def Thresholds.decide (t : Thresholds) (delta : ℤ) : WaitDecision :=
  if t.late < delta then .tooLate
  else if delta - t.margin < 0 then
    if t.early < -(delta - t.margin) then .tooEarly else .wait
  else .proceed

def timeDelta (now start : HwTime) : ℤ := (now.toNat : ℤ) - start.toNat

variable {d : U32} {now start : HwTime}

theorem toInt_eq {x : HwTime} {k : ℤ} (hmod : (x.toNat : ℤ) = k % 2 ^ 64) (hlo : -2 ^ 63 ≤ k)
    (hhi : k < 2 ^ 63) : x.toInt = k := by
  rw [BitVec.toInt_eq_toNat_cond]
  split_ifs <;> omega

theorem toNat_sub_hw (x y : HwTime) : ((x - y).toNat : ℤ) = timeDelta x y % 2 ^ 64 := by
  rw [timeDelta, BitVec.toNat_sub]
  have hx := x.isLt
  have hy := y.isLt
  omega

theorem toNat_mul_u32 (k d : U32) : ((k * d).toNat : ℤ) = k.toNat * d.toNat % 2 ^ 32 := by
  rw [BitVec.toNat_mul]
  push_cast
  rfl

theorem toInt_sub_hw (hlo : -2 ^ 63 ≤ timeDelta now start) (hhi : timeDelta now start < 2 ^ 63) :
    (now - start).toInt = timeDelta now start :=
  toInt_eq (toNat_sub_hw now start) hlo hhi

theorem toNat_late (d : U32) :
    ((2097152 * d - 2097152 * d / 10).toNat : ℤ) = (wrappedThresholds d.toNat).late := by
  have hspan : ((2097152 * d).toNat : ℤ) = 2097152 * d.toNat % 2 ^ 32 := toNat_mul_u32 2097152 d
  have hle : (2097152 * d / 10).toNat ≤ (2097152 * d).toNat := by
    rw [BitVec.toNat_udiv]
    exact Nat.div_le_self _ _
  have hdiv : (2097152 * d / 10).toNat = (2097152 * d).toNat / 10 := BitVec.toNat_udiv
  rw [BitVec.toNat_sub_of_le hle, wrappedThresholds]
  dsimp only
  rw [← hspan]
  omega

theorem toNat_early (d : U32) :
    ((10485760 * d).toNat : ℤ) = (wrappedThresholds d.toNat).early := toNat_mul_u32 10485760 d

theorem toNat_margin (d : U32) :
    ((U32.toHw (64 * d)).toNat : ℤ) = (wrappedThresholds d.toNat).margin := by
  rw [U32.toNat_toHw]
  exact toNat_mul_u32 64 d

theorem toNat_delta_margin (d : U32) (now start : HwTime) :
    ((now - start - U32.toHw (64 * d)).toNat : ℤ) =
      (timeDelta now start - (wrappedThresholds d.toNat).margin) % 2 ^ 64 := by
  rw [toNat_sub_hw, timeDelta, toNat_sub_hw, toNat_margin, Int.emod_sub_emod]

/-- The difference after the margin, unless it falls below the signed numbers. -/
theorem waitDelta_eq (hlo : -2 ^ 63 ≤ timeDelta now start - (wrappedThresholds d.toNat).margin)
    (hhi : timeDelta now start < 2 ^ 63) :
    waitDelta d now start = timeDelta now start - (wrappedThresholds d.toNat).margin := by
  have hmargin : 0 ≤ (wrappedThresholds d.toNat).margin := Int.emod_nonneg _ (by decide)
  exact toInt_eq (toNat_delta_margin d now start) hlo (by omega)

theorem waitDelta_wraps (hlo : -2 ^ 63 ≤ timeDelta now start)
    (hbelow : timeDelta now start - (wrappedThresholds d.toNat).margin < -2 ^ 63) :
    0 ≤ waitDelta d now start := by
  have hmargin : (wrappedThresholds d.toNat).margin < 2 ^ 32 :=
    Int.emod_lt_of_pos _ (by decide)
  have heq : waitDelta d now start =
      timeDelta now start - (wrappedThresholds d.toNat).margin + 2 ^ 64 := by
    refine toInt_eq ?_ (by omega) (by omega)
    rw [toNat_delta_margin, Int.add_emod_right]
  omega

/-- Taking the products in 32 bits and the differences in 64 leaves a request on the same side of
the thresholds: it is past both of the last ones, or before both; and then it is past the margin, or
it is not, does not leave the signed numbers, and is past both of the early ones, or before both. -/
def SameSide (d delta : ℤ) : Prop :=
  (thresholds d).late < delta ∨ delta ≤ (wrappedThresholds d).late ∧
    ((thresholds d).margin ≤ delta ∨ delta < (wrappedThresholds d).margin ∧
      -2 ^ 63 < delta - (wrappedThresholds d).margin ∧
        (delta < (thresholds d).margin - (thresholds d).early ∨
          (wrappedThresholds d).margin - (wrappedThresholds d).early ≤ delta))

theorem sub_tenth_mono {x y : ℤ} (h : x ≤ y) : x - x / 10 ≤ y - y / 10 := by
  have hceil (z : ℤ) : z - z / 10 = (9 * z + 9) / 10 := by omega
  rw [hceil, hceil]
  exact Int.ediv_le_ediv (by decide) (by omega)

/-- The thresholds do not grow when they are wrapped, and the early one is left behind less. -/
theorem wrapped_le {d : ℤ} (hd : 0 ≤ d) : (wrappedThresholds d).late ≤ (thresholds d).late ∧
    (wrappedThresholds d).margin ≤ (thresholds d).margin ∧
      (thresholds d).margin - (thresholds d).early ≤
        (wrappedThresholds d).margin - (wrappedThresholds d).early := by
  have hwrap {x : ℤ} (hx : 0 ≤ x) : x % 2 ^ 32 ≤ x := by omega
  refine ⟨sub_tenth_mono (hwrap (by omega)), hwrap (by omega), ?_⟩
  unfold wrappedThresholds thresholds
  dsimp only
  omega

/-- With signed numbers that do not overflow, the code decides by the wrapped thresholds. -/
theorem waitDecision_eq
    (hlo : -2 ^ 63 < timeDelta now start - (wrappedThresholds d.toNat).margin)
    (hhi : timeDelta now start < 2 ^ 63) :
    waitDecision d now start = (wrappedThresholds d.toNat).decide (timeDelta now start) := by
  have hmargin : 0 ≤ (wrappedThresholds d.toNat).margin := Int.emod_nonneg _ (by decide)
  have hneg : (-waitDelta d now start).bmod (2 ^ 64) = -waitDelta d now start := by
    rw [waitDelta_eq (Int.le_of_lt hlo) hhi]
    apply Int.bmod_eq_of_le <;> omega
  unfold waitDecision Thresholds.decide
  dsimp only
  rw [toNat_late, toNat_early, hneg, toInt_sub_hw (by omega) hhi,
    waitDelta_eq (Int.le_of_lt hlo) hhi]

/-- Thresholds that do not grow decide alike where no threshold is passed. -/
theorem Thresholds.decide_eq_iff {w t : Thresholds} {delta : ℤ} (hlate : w.late ≤ t.late)
    (hmargin : w.margin ≤ t.margin) (hearly : t.margin - t.early ≤ w.margin - w.early)
    (hnonneg : 0 ≤ w.early) : w.decide delta = t.decide delta ↔
      t.late < delta ∨ delta ≤ w.late ∧ (t.margin ≤ delta ∨ delta < w.margin ∧
        (delta < t.margin - t.early ∨ w.margin - w.early ≤ delta)) := by
  unfold Thresholds.decide
  split_ifs <;> simp only [true_iff, false_iff] <;> omega

/-- A difference that does not fit is not told from a start that is about to be passed, or was. -/
theorem waitDecision_ne_tooEarly (hlo : -2 ^ 63 ≤ timeDelta now start)
    (hhi : timeDelta now start < 2 ^ 63)
    (hbelow : timeDelta now start - (wrappedThresholds d.toNat).margin ≤ -2 ^ 63) :
    waitDecision d now start ≠ .tooEarly := by
  unfold waitDecision
  dsimp only
  split_ifs with hlate hneg hearly
  · intro h
    cases h
  · rcases Int.lt_or_eq_of_le hbelow with hlt | heq
    · exact absurd (waitDelta_wraps hlo hlt) (Int.not_le.mpr hneg)
    · have hbmod : (-waitDelta d now start).bmod (2 ^ 64) = -2 ^ 63 := by
        rw [waitDelta_eq (Int.le_of_eq heq.symm) hhi, heq]
        rfl
      omega
  · intro h
    cases h
  · intro h
    cases h

theorem decide_tooEarly {delta : ℤ} (h : delta < -2 ^ 62) :
    (thresholds d.toNat).decide delta = .tooEarly := by
  have hd := d.isLt
  unfold Thresholds.decide thresholds
  dsimp only
  rw [if_neg (by omega), if_pos (by omega), if_pos (by omega)]

theorem waitDecision_iff (hlo : -2 ^ 63 ≤ timeDelta now start)
    (hhi : timeDelta now start < 2 ^ 63) :
    waitDecision d now start = (thresholds d.toNat).decide (timeDelta now start) ↔
      SameSide d.toNat (timeDelta now start) := by
  obtain ⟨hlate, hmargin, hearly⟩ := wrapped_le (Int.natCast_nonneg d.toNat)
  have hnonneg : 0 ≤ (wrappedThresholds d.toNat).early := Int.emod_nonneg _ (by decide)
  by_cases hsigned : -2 ^ 63 < timeDelta now start - (wrappedThresholds d.toNat).margin
  · rw [waitDecision_eq hsigned hhi, Thresholds.decide_eq_iff hlate hmargin hearly hnonneg]
    unfold SameSide
    rw [and_iff_right hsigned]
  · have hwrapped : (wrappedThresholds d.toNat).margin < 2 ^ 32 :=
      Int.emod_lt_of_pos _ (by decide)
    rw [decide_tooEarly (by omega)]
    refine iff_of_false (waitDecision_ne_tooEarly hlo hhi (by omega)) ?_
    unfold SameSide thresholds
    dsimp only
    omega

/-- Both waits take the decision of unbounded integers exactly if no threshold is passed. -/
theorem wait_decisions_iff (d : U32) (ctime : Ltimestamp) (start : HwTime)
    (answers : List CtimeAnswer) :
    waitLmt d ctime start answers =
        (waitDecision d ctime.lmt start).follow d Ltimestamp.lmt ctime start answers ∧
      waitLst d ctime start answers =
        (waitDecision d ctime.lst start).follow d Ltimestamp.lst ctime start answers ∧
      ∀ now, -2 ^ 63 ≤ timeDelta now start → timeDelta now start < 2 ^ 63 →
        (waitDecision d now start = (thresholds d.toNat).decide (timeDelta now start) ↔
          SameSide d.toNat (timeDelta now start)) :=
  ⟨waitTime_eq d _ ctime start answers, waitTime_eq d _ ctime start answers,
    fun _ ↦ waitDecision_iff⟩

/-- With 409 machine clocks an atom, a request about five buffers ahead is waited for. -/
theorem wait_decisions_early : waitDecision 409 1000 4288676840 =
    (thresholds 409).decide (-4288675840) :=
  ((wait_decisions_iff 409 ⟨0, 0⟩ 4288676840 []).2.2 1000 (by decide) (by decide)).mpr
    (by unfold SameSide; decide)

/-- With 410 machine clocks an atom, a request five million ticks ahead is too early; and with
2048, a request whose data have just arrived is too late. -/
theorem wait_limits_wrap :
    waitLmt 410 ⟨0, 1000⟩ 5001000 [] = some (-EAGAIN, ⟨0, 1000⟩) ∧
      (thresholds 410).decide (timeDelta 1000 5001000) = .wait ∧
    waitLmt 2048 ⟨0, 131072⟩ 0 [] = some (-ENODATA, ⟨0, 131072⟩) ∧
      (thresholds 2048).decide (timeDelta 131072 0) = .proceed ∧
    waitDecision 410 1000 5001000 ≠ (thresholds 410).decide (timeDelta 1000 5001000) ∧
      waitDecision 2048 131072 0 ≠ (thresholds 2048).decide (timeDelta 131072 0) := by
  decide

end LiberaBase
