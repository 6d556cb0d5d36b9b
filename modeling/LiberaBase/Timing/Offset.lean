import LiberaBase.Timing.Handlers

/-!
# The offset of Machine Time

Setting Machine Time splits the offset of LMT: the remainder by the period of the decimated
samples is left to the PLL, and the rest, which is added to the raw stamps, is to be whole periods.
The remainder is that of an unsigned number, while a time that is set back makes the offset
negative.
-/

namespace LiberaBase

namespace Driver

variable {s : Driver} {p : ℕ} {delta : ℤ}

/-- The period of the decimated samples, in machine clocks. -/
def period (s : Driver) : ℕ := s.lgbl.d.toNat * s.lgbl.dfa.toNat

/-- By how much the trigger that `libera_set_LMT` takes moves LMT. -/
def displacement (s : Driver) : ℤ :=
  s.event.settime.lmt.ref.toNat - s.event.settime.lmt.mcphi.toNat -
    (getFromCircBuf (s.event.pairedTimestamps tTrigTrigger)).stamp.lmt.toNat +
      s.event.settime.lmt.offPll.toNat

/-- The displacement is split into whole periods and a part of one. -/
structure OffsetSplit (p : ℕ) (delta : ℤ) (lmt : SettimeLmt) : Prop where
  offPll_lt : lmt.offPll.toNat < p
  sum : lmt.off + lmt.offPll = BitVec.ofInt 64 delta
  whole : (p : ℤ) ∣ lmt.off.toInt

theorem dvd_toInt_iff {w : ℕ} {x : BitVec w} (hx : p ∣ x.toNat) :
    (p : ℤ) ∣ x.toInt ↔ 2 * x.toNat < 2 ^ w ∨ p ∣ 2 ^ w := by
  have hx' : (p : ℤ) ∣ (x.toNat : ℤ) := Int.natCast_dvd_natCast.mpr hx
  rw [BitVec.toInt_eq_toNat_cond]
  split_ifs with hsmall
  · exact iff_of_true hx' (.inl hsmall)
  · rw [or_iff_right hsmall, ← Int.natCast_dvd_natCast]
    constructor
    · intro h
      simpa using Int.dvd_sub hx' h
    · exact Int.dvd_sub hx'

theorem offAll_eq (s : Driver) :
    s.liberaSetLMT.event.settime.lmt.offAll = BitVec.ofInt 64 s.displacement := by
  apply BitVec.eq_of_toNat_eq
  change (s.event.settime.lmt.ref - s.event.settime.lmt.mcphi -
    (getFromCircBuf (s.event.pairedTimestamps tTrigTrigger)).stamp.lmt +
      s.event.settime.lmt.offPll).toNat = _
  rw [BitVec.toNat_ofInt, BitVec.toNat_add, BitVec.toNat_sub, BitVec.toNat_sub, displacement]
  omega

theorem offPll_toNat (hp : 1 ≤ s.period) (hlt : s.period < 2 ^ 32) :
    s.liberaSetLMT.event.settime.lmt.offPll.toNat =
      s.liberaSetLMT.event.settime.lmt.offAll.toNat % s.period := by
  have hdfa : s.lgbl.dfa ≠ 0 := by
    intro hzero
    rw [period, hzero] at hp
    simp at hp
  have hproduct : (s.lgbl.d * s.lgbl.dfa).toNat = s.period := by
    rw [BitVec.toNat_mul]
    exact Nat.mod_eq_of_lt hlt
  have hrem : s.liberaSetLMT.event.settime.lmt.offPll = U32.toHw
      (remU64 s.liberaSetLMT.event.settime.lmt.offAll (s.lgbl.d * s.lgbl.dfa)) := if_pos hdfa
  have hsmall := Nat.mod_lt s.liberaSetLMT.event.settime.lmt.offAll.toNat hp
  rw [hrem, U32.toNat_toHw, remU64, BitVec.toNat_setWidth, BitVec.toNat_umod, U32.toNat_toHw,
    hproduct, Nat.mod_eq_of_lt (hsmall.trans hlt)]

/-- What is left of the displacement, as an unsigned number, is whole periods. -/
theorem off_toNat (hp : 1 ≤ s.period) (hlt : s.period < 2 ^ 32) :
    s.liberaSetLMT.event.settime.lmt.off.toNat =
      s.liberaSetLMT.event.settime.lmt.offAll.toNat -
        s.liberaSetLMT.event.settime.lmt.offAll.toNat % s.period := by
  have hle : s.liberaSetLMT.event.settime.lmt.offPll.toNat ≤
      s.liberaSetLMT.event.settime.lmt.offAll.toNat := by
    rw [offPll_toNat hp hlt]
    exact Nat.mod_le _ _
  have hsub : s.liberaSetLMT.event.settime.lmt.off =
      s.liberaSetLMT.event.settime.lmt.offAll - s.liberaSetLMT.event.settime.lmt.offPll := rfl
  rw [hsub, BitVec.toNat_sub_of_le hle, offPll_toNat hp hlt]

/-- The split is right for a time that is set forward; for one that is set back, only if the period
is a power of two, or the displacement is so near to the least number that it wraps. -/
theorem setLMT_split_iff (hp : 1 ≤ s.period) (hlt : s.period < 2 ^ 32)
    (hlo : -2 ^ 63 ≤ s.displacement) (hhi : s.displacement < 2 ^ 63) :
    OffsetSplit s.period s.displacement s.liberaSetLMT.event.settime.lmt ↔
      0 ≤ s.displacement ∨ s.period ∣ 2 ^ 64 ∨
        s.displacement - s.displacement % 2 ^ 64 % s.period < -2 ^ 63 := by
  have hall : (s.liberaSetLMT.event.settime.lmt.offAll.toNat : ℤ) = s.displacement % 2 ^ 64 := by
    rw [offAll_eq, BitVec.toNat_ofInt]
    omega
  have hrem : s.displacement % 2 ^ 64 % s.period =
      ((s.liberaSetLMT.event.settime.lmt.offAll.toNat % s.period : ℕ) : ℤ) := by
    rw [← hall, Int.natCast_emod]
  have hoff := off_toNat hp hlt
  have hle := Nat.mod_le s.liberaSetLMT.event.settime.lmt.offAll.toNat s.period
  have hdvd : s.period ∣ s.liberaSetLMT.event.settime.lmt.off.toNat :=
    hoff ▸ Nat.dvd_sub_mod s.liberaSetLMT.event.settime.lmt.offAll.toNat
  have hwhole : OffsetSplit s.period s.displacement s.liberaSetLMT.event.settime.lmt ↔
      (s.period : ℤ) ∣ s.liberaSetLMT.event.settime.lmt.off.toInt := by
    refine ⟨OffsetSplit.whole, fun h ↦ ⟨?_, ?_, h⟩⟩
    · rw [offPll_toNat hp hlt]
      exact Nat.mod_lt _ hp
    · rw [← offAll_eq]
      exact BitVec.sub_add_cancel _ _
  rw [hwhole, dvd_toInt_iff hdvd, ← or_assoc, or_right_comm, hrem]
  refine or_congr_left ?_
  omega

/-- The driver with a period of 3 clocks, after the requests for a phase and a time. -/
def setAt (mcphi mt : HwTime) : Driver :=
  ((boot (fun _ ↦ 0) ⟨0, 0, 3, 1, 0⟩ ⟨0, 0, 0, 0⟩).setMCPHI mcphi).setMT mt 0

theorem setLMT_split_forward :
    OffsetSplit 3 8 (setAt 1 3).liberaSetLMT.event.settime.lmt ∧
      (setAt 1 3).liberaSetLMT.event.settime.lmt.off = 6 :=
  ⟨(setLMT_split_iff (s := setAt 1 3) (by decide) (by decide) (by decide) (by decide)).mpr
    (.inl (by decide)), by decide⟩

/-- Set back by one clock, the offset is -1, and nothing is left to the PLL. -/
theorem setLMT_split_back : (setAt 1 0).displacement = -1 ∧ (setAt 1 0).period = 3 ∧
    (setAt 1 0).liberaSetLMT.event.settime.lmt.offPll = 0 ∧
    (setAt 1 0).liberaSetLMT.event.settime.lmt.off.toInt = -1 ∧
    ¬OffsetSplit 3 (-1) (setAt 1 0).liberaSetLMT.event.settime.lmt := by
  refine ⟨by decide, by decide, by decide, by decide, fun h ↦ ?_⟩
  have hwhole := h.whole
  revert hwhole
  decide

end Driver

end LiberaBase
