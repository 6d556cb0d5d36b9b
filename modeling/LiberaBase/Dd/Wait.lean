import LiberaBase.Dd.Window

/-!
# What a wait leaves behind

A request that is early sleeps until the time has passed the start and the margin.  How late it is
then is not looked at again, so that the data may have been overwritten in the last sleep.
-/

namespace LiberaBase

variable {d : U32} {clock : Ltimestamp → HwTime} {ctime c : Ltimestamp} {now start : HwTime}
  {answers : List CtimeAnswer}

/-- The start has been written, and is not near to being overwritten; the difference is a
`libera_S64_t`. -/
def InBuffer (d : U32) (now start : HwTime) : Prop :=
  (thresholds d.toNat).margin ≤ (now - start).toInt ∧
    (now - start).toInt ≤ (thresholds d.toNat).late

/-- While it sleeps, the time goes from before the start and the margin to where the data are
overwritten. -/
def Overslept (d : U32) (clock : Ltimestamp → HwTime) (start : HwTime)
    (answers : List CtimeAnswer) : Prop :=
  ∃ (before : List Ltimestamp) (now : Ltimestamp) (after : List CtimeAnswer),
    answers = before.map Except.ok ++ Except.ok now :: after ∧
    (∀ t ∈ before, waitDelta d (clock t) start < 0) ∧ 0 ≤ waitDelta d (clock now) start ∧
      (thresholds d.toNat).late < (clock now - start).toNat

theorem waitLoop_eq_zero_iff : waitLoop d clock start ctime answers = some (0, c) ↔
    ∃ (before : List Ltimestamp) (after : List CtimeAnswer),
      answers = before.map Except.ok ++ Except.ok c :: after ∧
      (∀ t ∈ before, waitDelta d (clock t) start < 0) ∧ 0 ≤ waitDelta d (clock c) start := by
  induction answers generalizing ctime with
  | nil => simp [waitLoop]
  | cons a answers ih =>
      cases a with
      | error e =>
          have hne : e.code ≠ 0 := Int.ne_of_lt e.code_neg
          refine iff_of_false (fun h ↦ hne ?_) ?_
          · exact congrArg Prod.fst (Option.some.inj h)
          · rintro ⟨before, after, heq, -, -⟩
            cases before <;> simp at heq
      | ok t =>
          rw [waitLoop]
          split_ifs with hneg
          · rw [ih]
            constructor
            · rintro ⟨before, after, rfl, hbefore, hc⟩
              exact ⟨t :: before, after, rfl, List.forall_mem_cons.mpr ⟨hneg, hbefore⟩, hc⟩
            · rintro ⟨before, after, heq, hbefore, hc⟩
              cases before with
              | nil =>
                  obtain ⟨ht, -⟩ := List.cons.inj heq
                  rw [Except.ok.inj ht] at hneg
                  exact absurd hc (Int.not_le.mpr hneg)
              | cons t' before =>
                  obtain ⟨-, hrest⟩ := List.cons.inj heq
                  exact ⟨before, after, hrest, (List.forall_mem_cons.mp hbefore).2, hc⟩
          · constructor
            · intro h
              obtain rfl : t = c := congrArg Prod.snd (Option.some.inj h)
              exact ⟨[], answers, rfl, List.forall_mem_nil _, Int.not_lt.mp hneg⟩
            · rintro ⟨before, after, heq, hbefore, hc⟩
              cases before with
              | nil =>
                  obtain ⟨ht, -⟩ := List.cons.inj heq
                  rw [Except.ok.inj ht]
              | cons t' before =>
                  obtain ⟨ht, -⟩ := List.cons.inj heq
                  rw [Except.ok.inj ht] at hneg
                  exact absurd (hbefore t' List.mem_cons_self) hneg

theorem wrappedThresholds_eq (hd : d.toNat ≤ 409) :
    wrappedThresholds d.toNat = thresholds d.toNat := by
  unfold wrappedThresholds thresholds
  rw [Int.emod_eq_of_lt (by omega) (by omega), Int.emod_eq_of_lt (by omega) (by omega),
    Int.emod_eq_of_lt (by omega) (by omega)]

theorem margin_bounds (hd : d.toNat ≤ 409) :
    0 ≤ (thresholds d.toNat).margin ∧ (thresholds d.toNat).margin ≤ 26176 := by
  unfold thresholds
  dsimp only
  omega

theorem late_bounds (hd : d.toNat ≤ 409) :
    0 ≤ (thresholds d.toNat).late ∧ (thresholds d.toNat).late < 2 ^ 32 := by
  unfold thresholds
  dsimp only
  omega

/-! ## The difference after the margin -/

theorem waitDelta_eq_bmod (hd : d.toNat ≤ 409) (now start : HwTime) : waitDelta d now start =
    ((now - start).toInt - (thresholds d.toNat).margin).bmod (2 ^ 64) := by
  have hmargin : (U32.toHw (64 * d)).toInt = (thresholds d.toNat).margin := by
    obtain ⟨hlo, hhi⟩ := margin_bounds hd
    refine toInt_eq ?_ (by omega) (by omega)
    rw [toNat_margin, wrappedThresholds_eq hd]
    omega
  rw [waitDelta, BitVec.toInt_sub, hmargin]

theorem waitDelta_eq_toInt (hd : d.toNat ≤ 409)
    (hfits : -2 ^ 63 + (thresholds d.toNat).margin ≤ (now - start).toInt) :
    waitDelta d now start = (now - start).toInt - (thresholds d.toNat).margin := by
  have hlt := BitVec.toInt_lt (x := now - start)
  obtain ⟨hmargin, -⟩ := margin_bounds hd
  rw [waitDelta_eq_bmod hd]
  exact Int.bmod_eq_of_le (by omega) (by omega)

theorem waitDelta_nonneg (hd : d.toNat ≤ 409)
    (hbelow : (now - start).toInt < -2 ^ 63 + (thresholds d.toNat).margin) :
    0 ≤ waitDelta d now start := by
  have hle := BitVec.le_toInt (now - start)
  obtain ⟨-, hmargin⟩ := margin_bounds hd
  rw [waitDelta_eq_bmod hd, ← Int.add_bmod_right, Int.bmod_eq_of_le (by omega) (by omega)]
  omega

/-- Once the margin is passed, only the last threshold counts. -/
theorem inBuffer_iff (hd : d.toNat ≤ 409) (hpast : 0 ≤ waitDelta d now start) :
    InBuffer d now start ↔ ((now - start).toNat : ℤ) ≤ (thresholds d.toNat).late := by
  obtain ⟨hmargin, hmargin'⟩ := margin_bounds hd
  obtain ⟨-, hlate⟩ := late_bounds hd
  have htoInt := BitVec.toInt_eq_toNat_cond (now - start)
  unfold InBuffer
  by_cases hfits : -2 ^ 63 + (thresholds d.toNat).margin ≤ (now - start).toInt
  · rw [waitDelta_eq_toInt hd hfits] at hpast
    split_ifs at htoInt <;> omega
  · split_ifs at htoInt <;> omega

/-! ## What is granted -/

theorem waitTime_eq_zero_iff : waitTime d clock ctime start answers = some (0, c) ↔
    (waitDecision d (clock ctime) start = .proceed ∧ c = ctime) ∨
      waitDecision d (clock ctime) start = .wait ∧
        waitLoop d clock start ctime answers = some (0, c) := by
  rw [waitTime_eq]
  cases waitDecision d (clock ctime) start with
  | tooLate => simp [WaitDecision.follow, ENODATA]
  | tooEarly => simp [WaitDecision.follow, EAGAIN]
  | wait => simp [WaitDecision.follow]
  | proceed => simp [WaitDecision.follow, eq_comm]

/-- Nobody has to wait for a start of which the time is past the margin, unless the difference does
not fit. -/
theorem waitDecision_eq_proceed_iff (hd : d.toNat ≤ 409) :
    waitDecision d now start = .proceed ↔
      (now - start).toInt ≤ (thresholds d.toNat).late ∧ 0 ≤ waitDelta d now start := by
  unfold waitDecision
  dsimp only
  rw [toNat_late, wrappedThresholds_eq hd]
  split_ifs with hlate hneg hearly
  all_goals
    simp only [false_iff, true_iff]
    omega

/-- A wait that returns 0 has found the start in the buffer exactly if the first difference still
fits after the margin, and no sleep was too long. -/
theorem waitTime_inBuffer_iff (hd : d.toNat ≤ 409) :
    (∀ c, waitTime d clock ctime start answers = some (0, c) → InBuffer d (clock c) start) ↔
      -2 ^ 63 + (thresholds d.toNat).margin ≤ (clock ctime - start).toInt ∧
        (waitDecision d (clock ctime) start = .wait → ¬Overslept d clock start answers) := by
  obtain ⟨hmargin, hmargin'⟩ := margin_bounds hd
  obtain ⟨hlate, -⟩ := late_bounds hd
  constructor
  · intro h
    constructor
    · by_contra hfits
      have hbelow := Int.not_le.mp hfits
      have hproceed := (waitDecision_eq_proceed_iff hd).mpr
        ⟨by omega, waitDelta_nonneg hd hbelow⟩
      have hin := (h ctime (waitTime_eq_zero_iff.mpr (.inl ⟨hproceed, rfl⟩))).1
      omega
    · rintro hwait ⟨before, now, after, heq, hbefore, hnow, hover⟩
      have hloop : waitLoop d clock start ctime answers = some (0, now) :=
        waitLoop_eq_zero_iff.mpr ⟨before, after, heq, hbefore, hnow⟩
      have hin := h now (waitTime_eq_zero_iff.mpr (.inr ⟨hwait, hloop⟩))
      rw [inBuffer_iff hd hnow] at hin
      omega
  · rintro ⟨hfits, hslept⟩ c hc
    rcases waitTime_eq_zero_iff.mp hc with ⟨hproceed, rfl⟩ | ⟨hwait, hloop⟩
    · obtain ⟨hle, hpast⟩ := (waitDecision_eq_proceed_iff hd).mp hproceed
      rw [waitDelta_eq_toInt hd hfits] at hpast
      exact ⟨by omega, hle⟩
    · obtain ⟨before, after, heq, hbefore, hnow⟩ := waitLoop_eq_zero_iff.mp hloop
      rw [inBuffer_iff hd hnow]
      by_contra hover
      exact hslept hwait ⟨before, c, after, heq, hbefore, hnow, Int.not_le.mp hover⟩

theorem granted_iff (hd : d.toNat ≤ 409) (ctime : Ltimestamp) (start : HwTime)
    (answers : List CtimeAnswer) :
    ((∀ c, waitLmt d ctime start answers = some (0, c) → InBuffer d c.lmt start) ↔
      -2 ^ 63 + (thresholds d.toNat).margin ≤ (ctime.lmt - start).toInt ∧
        (waitDecision d ctime.lmt start = .wait → ¬Overslept d Ltimestamp.lmt start answers)) ∧
    ((∀ c, waitLst d ctime start answers = some (0, c) → InBuffer d c.lst start) ↔
      -2 ^ 63 + (thresholds d.toNat).margin ≤ (ctime.lst - start).toInt ∧
        (waitDecision d ctime.lst start = .wait → ¬Overslept d Ltimestamp.lst start answers)) :=
  ⟨waitTime_inBuffer_iff hd, waitTime_inBuffer_iff hd⟩

theorem granted_iff_short : waitLmt 1 ⟨0, 1000⟩ 1000 [.ok ⟨0, 1065⟩] = some (0, ⟨0, 1065⟩) ∧
    InBuffer 1 1065 1000 := by
  have hret : waitLmt 1 ⟨0, 1000⟩ 1000 [.ok ⟨0, 1065⟩] = some (0, ⟨0, 1065⟩) := by decide +kernel
  refine ⟨hret, (granted_iff (by decide) ⟨0, 1000⟩ 1000 [.ok ⟨0, 1065⟩]).1.mpr
    ⟨by decide, fun _ ↦ ?_⟩ ⟨0, 1065⟩ hret⟩
  rintro ⟨before, now, after, heq, -, -, hover⟩
  cases before with
  | nil =>
      obtain ⟨hnow, -⟩ := List.cons.inj heq
      rw [← Except.ok.inj hnow] at hover
      exact absurd hover (by decide)
  | cons t before => simp at heq

/-- The sleep of 64 ticks that was asked for takes 2097152: all of the buffer is overwritten. -/
theorem granted_overslept :
    waitLmt 1 ⟨0, 1000⟩ 1000 [.ok ⟨0, 2098152⟩] = some (0, ⟨0, 2098152⟩) ∧
      waitLst 1 ⟨1000, 0⟩ 1000 [.ok ⟨2098152, 0⟩] = some (0, ⟨2098152, 0⟩) ∧
        (thresholds 1).late = 1887437 ∧ ¬InBuffer 1 2098152 1000 := by
  refine ⟨by decide +kernel, by decide +kernel, by decide, ?_⟩
  unfold InBuffer
  decide +kernel

end LiberaBase
