import LiberaBase.Dd.Time

/-!
# System Time and Libera System Time

A tick of Libera System Time is eight nanoseconds.  As numbers of nanoseconds the two conversions
are a division by eight that rounds down, and a multiplication by eight.
-/

namespace LiberaBase

namespace Timespec

/-- A time after UNIX 0 whose nanoseconds are less than a second. -/
structure Normalised (st : Timespec) : Prop where
  sec_nonneg : 0 ≤ st.tvSec.toInt
  nsec_nonneg : 0 ≤ st.tvNsec.toInt
  nsec_lt : st.tvNsec.toInt < 10 ^ 9

/-- The order of time. -/
def NotAfter (a b : Timespec) : Prop :=
  a.tvSec.toInt < b.tvSec.toInt ∨ a.tvSec = b.tvSec ∧ a.tvNsec.toInt ≤ b.tvNsec.toInt

/-- The nanoseconds since UNIX 0. -/
def nanoseconds (st : Timespec) : ℤ := st.tvSec.toInt * 10 ^ 9 + st.tvNsec.toInt

/-- The time rounded down to a multiple of 8 ns. -/
def roundDown (st : Timespec) : Timespec where
  tvSec := st.tvSec
  tvNsec := BitVec.ofInt 32 (st.tvNsec.toInt - st.tvNsec.toInt % 8)

variable {a b : Timespec}

theorem Normalised.notAfter_iff (ha : a.Normalised) (hb : b.Normalised) :
    a.NotAfter b ↔ a.nanoseconds ≤ b.nanoseconds := by
  obtain ⟨-, ha, ha'⟩ := ha
  obtain ⟨-, hb, hb'⟩ := hb
  have hsec : a.tvSec = b.tvSec ↔ a.tvSec.toInt = b.tvSec.toInt := BitVec.toInt_inj.symm
  rw [NotAfter, nanoseconds, nanoseconds, hsec]
  omega

theorem Normalised.ext (ha : a.Normalised) (hb : b.Normalised)
    (h : a.nanoseconds = b.nanoseconds) : a = b := by
  obtain ⟨-, ha, ha'⟩ := ha
  obtain ⟨-, hb, hb'⟩ := hb
  unfold nanoseconds at h
  have hsec : a.tvSec = b.tvSec := BitVec.eq_of_toInt_eq (by omega)
  have hnsec : a.tvNsec = b.tvNsec := BitVec.eq_of_toInt_eq (by omega)
  cases a
  cases b
  cases hsec
  cases hnsec
  rfl

theorem toInt_roundDown {st : Timespec} (h : st.Normalised) :
    st.roundDown.tvNsec.toInt = st.tvNsec.toInt - st.tvNsec.toInt % 8 := by
  obtain ⟨-, hnsec, hlt⟩ := h
  rw [roundDown, BitVec.toInt_ofInt, Int.bmod_eq_of_le] <;> omega

theorem Normalised.roundDown {st : Timespec} (h : st.Normalised) : st.roundDown.Normalised := by
  have hint := toInt_roundDown h
  obtain ⟨hsec, hnsec, hlt⟩ := h
  constructor
  · exact hsec
  · omega
  · omega

theorem nanoseconds_roundDown {st : Timespec} (h : st.Normalised) :
    st.roundDown.nanoseconds = 8 * (st.nanoseconds / 8) := by
  have hint := toInt_roundDown h
  have hsec : st.roundDown.tvSec = st.tvSec := rfl
  rw [nanoseconds, nanoseconds, hint, hsec]
  omega

end Timespec

/-! ## `st2lst` -/

theorem toNat_signedToHw {x : U32} (h : 0 ≤ x.toInt) :
    ((U32.signedToHw x).toNat : ℤ) = x.toInt := by
  have hlt := x.isLt
  rw [BitVec.toInt_eq_toNat_cond] at h ⊢
  rw [U32.signedToHw, BitVec.toNat_signExtend, BitVec.msb_eq_decide]
  simp only [BitVec.toNat_setWidth]
  split_ifs at h ⊢ <;> simp_all <;> omega

variable {st : Timespec} {lst : HwTime}

/-- No product and no sum of `st2lst` leaves the 64 bits. -/
def St2lstFits (st : Timespec) : Prop :=
  st.tvSec.toInt * 125000000 < 2 ^ 64 ∧ st.tvNsec.toInt * 125000000 < 2 ^ 64 ∧
    st.tvSec.toInt * 125000000 + st.tvNsec.toInt * 125000000 / 10 ^ 9 < 2 ^ 64

theorem st2lst_fits (h : st.Normalised) : St2lstFits st := by
  obtain ⟨hsec, hnsec, hlt⟩ := h
  have hmax : st.tvSec.toInt < 2 ^ 31 := BitVec.toInt_lt
  unfold St2lstFits
  omega

theorem toNat_st2lst (h : st.Normalised) :
    ((st2lst st).toNat : ℤ) = st.tvSec.toInt * 125000000 + st.tvNsec.toInt / 8 := by
  obtain ⟨hsecFits, hnsecFits, hfits⟩ := st2lst_fits h
  have hsec := toNat_signedToHw h.sec_nonneg
  have hnsec := toNat_signedToHw h.nsec_nonneg
  have hlsc : lscFreq.toNat = 125000000 := rfl
  have hns : nsInSecond.toNat = 1000000000 := rfl
  rw [← hsec] at hsecFits
  rw [← hnsec] at hnsecFits
  rw [← hsec, ← hnsec] at hfits ⊢
  have hsecProd : (U32.signedToHw st.tvSec * lscFreq).toNat =
      (U32.signedToHw st.tvSec).toNat * 125000000 := by
    rw [BitVec.toNat_mul, hlsc, Nat.mod_eq_of_lt (by omega)]
  have hnsecProd : (U32.signedToHw st.tvNsec * lscFreq).toNat =
      (U32.signedToHw st.tvNsec).toNat * 125000000 := by
    rw [BitVec.toNat_mul, hlsc, Nat.mod_eq_of_lt (by omega)]
  rw [st2lst, BitVec.toNat_add, BitVec.toNat_udiv, hsecProd, hnsecProd, hns,
    Nat.mod_eq_of_lt (by omega)]
  omega

/-- A tick is eight nanoseconds. -/
theorem st2lst_ticks (h : st.Normalised) : ((st2lst st).toNat : ℤ) = st.nanoseconds / 8 := by
  rw [toNat_st2lst h, Timespec.nanoseconds]
  omega

/-! ## `lst2st` -/

theorem lst2st_sec (h : lst.toNat < 2 ^ 31 * 125000000) :
    (lst2st lst).tvSec.toInt = lst.toNat / 125000000 := by
  have hdiv : lst.toNat / 125000000 < 2 ^ 31 := Nat.div_lt_of_lt_mul (by omega)
  have hlsc : lscFreq.toNat = 125000000 := rfl
  rw [lst2st, BitVec.toInt_eq_toNat_cond, BitVec.toNat_setWidth, BitVec.toNat_udiv, hlsc]
  omega

theorem lst2st_nsec (lst : HwTime) :
    (lst2st lst).tvNsec.toInt = lst.toNat % 125000000 * 8 := by
  have hmod : lst.toNat % 125000000 < 125000000 := Nat.mod_lt _ (by decide)
  have hlsc : lscFreq.toNat = 125000000 := rfl
  have height : (8 : U32).toNat = 8 := rfl
  rw [lst2st, BitVec.toInt_eq_toNat_cond, BitVec.toNat_mul, BitVec.toNat_setWidth,
    BitVec.toNat_umod, hlsc, height]
  omega

theorem normalised_lst2st (h : lst.toNat < 2 ^ 31 * 125000000) : (lst2st lst).Normalised := by
  have hsec := lst2st_sec h
  have hnsec := lst2st_nsec lst
  constructor <;> omega

theorem nanoseconds_lst2st (h : lst.toNat < 2 ^ 31 * 125000000) :
    (lst2st lst).nanoseconds = 8 * lst.toNat := by
  rw [Timespec.nanoseconds, lst2st_sec h, lst2st_nsec]
  omega

/-! ## Both -/

theorem st2lst_lt (h : st.Normalised) : (st2lst st).toNat < 2 ^ 31 * 125000000 := by
  have hticks := toNat_st2lst h
  obtain ⟨hsec, hnsec, hlt⟩ := h
  have hmax : st.tvSec.toInt < 2 ^ 31 := BitVec.toInt_lt
  omega

theorem lst2st_st2lst (h : st.Normalised) : lst2st (st2lst st) = st.roundDown := by
  have hlt := st2lst_lt h
  apply (normalised_lst2st hlt).ext h.roundDown
  rw [nanoseconds_lst2st hlt, st2lst_ticks h, Timespec.nanoseconds_roundDown h]

theorem st2lst_lst2st (h : lst.toNat < 2 ^ 31 * 125000000) : st2lst (lst2st lst) = lst := by
  apply BitVec.eq_of_toNat_eq
  have hticks := st2lst_ticks (normalised_lst2st h)
  rw [nanoseconds_lst2st h] at hticks
  omega

theorem st2lst_mono {st' : Timespec} (h : st.Normalised) (h' : st'.Normalised)
    (hle : st.NotAfter st') : st2lst st ≤ st2lst st' := by
  have hns := (h.notAfter_iff h').mp hle
  have hticks := st2lst_ticks h
  have hticks' := st2lst_ticks h'
  rw [BitVec.le_def]
  omega

theorem lst2st_mono {lst' : HwTime} (h' : lst'.toNat < 2 ^ 31 * 125000000) (hle : lst ≤ lst') :
    (lst2st lst).NotAfter (lst2st lst') := by
  rw [BitVec.le_def] at hle
  have h := Nat.lt_of_le_of_lt hle h'
  rw [(normalised_lst2st h).notAfter_iff (normalised_lst2st h'), nanoseconds_lst2st h,
    nanoseconds_lst2st h']
  omega

/-- **The conversions of System Time** are exact, undo each other up to the eight nanoseconds of a
tick, and keep the order of time. -/
theorem systemTime_conversions :
    (∀ st : Timespec, st.Normalised → St2lstFits st ∧
      ((st2lst st).toNat : ℤ) = st.tvSec.toInt * 125000000 + st.tvNsec.toInt / 8 ∧
      lst2st (st2lst st) = st.roundDown) ∧
    (∀ lst : HwTime, lst.toNat < 2 ^ 31 * 125000000 →
      (lst2st lst).Normalised ∧ st2lst (lst2st lst) = lst) ∧
    (∀ st st' : Timespec, st.Normalised → st'.Normalised → st.NotAfter st' →
      st2lst st ≤ st2lst st') ∧
    ∀ lst lst' : HwTime, lst'.toNat < 2 ^ 31 * 125000000 → lst ≤ lst' →
      (lst2st lst).NotAfter (lst2st lst') :=
  ⟨fun _ h ↦ ⟨st2lst_fits h, toNat_st2lst h, lst2st_st2lst h⟩,
    fun _ h ↦ ⟨normalised_lst2st h, st2lst_lst2st h⟩,
    fun _ _ h h' hle ↦ st2lst_mono h h' hle, fun _ _ h' hle ↦ lst2st_mono h' hle⟩

/-- The last nanosecond of a second and the first tick of the next one. -/
theorem systemTime_conversions_carry : st2lst ⟨1, 999999999⟩ = 249999999 ∧
    lst2st 249999999 = ⟨1, 999999992⟩ ∧ st2lst (lst2st 250000000) = 250000000 := by
  obtain ⟨hst, hlst, -⟩ := systemTime_conversions
  have hround := (hst ⟨1, 999999999⟩ ⟨by decide, by decide, by decide⟩).2.2
  exact ⟨by decide, hround, (hlst 250000000 (by decide)).2⟩

end LiberaBase
