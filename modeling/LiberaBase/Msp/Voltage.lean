import LiberaBase.Msp.Port
import Mathlib.Algebra.Order.Field.Basic
import Mathlib.Algebra.Order.Ring.Rat
import Mathlib.Data.Rat.Cast.Defs
import Mathlib.Tactic.Linarith

/-!
# Voltages

`msp_transform` scales the words of the ADC in two steps, each of which rounds.  What a reader gets
is within 12 mV of the exact voltages.
-/

namespace LiberaBase

namespace Msp

def EINTR : ℤ := 4

/-! ## `msp_transform` -/

structure ResCoeff where
  num : ℤ
  denom : ℤ

/-- `res_coeff` -/
def resCoeff : Fin 8 → ResCoeff
  | 0 => ⟨101, 100⟩
  | 1 => ⟨101, 100⟩
  | 2 => ⟨120, 100⟩
  | 3 => ⟨1511, 1000⟩
  | 4 => ⟨250, 100⟩
  | 5 => ⟨611, 100⟩
  | 6 => ⟨315, 100⟩
  | 7 => ⟨290, 100⟩

def mspAdcVref : ℤ := 2500

def mspAdcRange : ℤ := 4096

/-- `(data[2*i+1] << 8) | data[2*i]` -/
def dataWord (data : List U8) (i : Fin 8) : U32 :=
  ((data.getD (2 * i + 1) 0).setWidth 32 <<< 8) ||| (data.getD (2 * i) 0).setWidth 32

/-- The two steps of the scaling, in the arithmetic of `int`. -/
def scale (c : ResCoeff) (word : U32) : ℤ :=
  let voltage := (toLong (toLong word.toNat * mspAdcVref)).tdiv mspAdcRange
  (toLong (voltage * c.num)).tdiv c.denom

def mspTransform (data : List U8) (i : Fin 8) : ℤ :=
  let voltage := fun i ↦ scale (resCoeff i) (dataWord data i)
  if i = 6 then toLong (voltage 6 - (toLong (voltage 5 * 1500)).tdiv 1000)
  else if i = 7 then toLong (voltage 7 - (toLong (5500 * 1500)).tdiv 1000)
  else voltage i

/-! ## `msp_read` -/

/-- `sizeof(struct msp_atom)` -/
def sizeofMspAtom : ℕ := 32

/-- A call of `msp_read`; `signal` is one that comes while it waits for the mutex, and `copyFails`
says that `buf` cannot be written to. -/
structure ReadCall where
  count : ℕ
  signal : Bool
  copyFails : Bool

namespace Port

section Reads

variable (conv : ℕ → Conversion) (late : ℕ → Bool)

def mspRead (fuel : ℕ) (r : ReadCall) : Call (Fin 8 → ℤ) :=
  if r.count < sizeofMspAtom then throw (-EINVAL)
  else if r.signal = true then throw (-EINTR)
  else do
    let rxBuf ← mspTransfer conv late fuel
    if r.copyFails = true then throw (-EFAULT) else return mspTransform rxBuf

/-- Calls of `msp_read` in the order in which they have the mutex. -/
def mspReads (fuel : ℕ) : List ReadCall → Port → Option (List (Except ℤ (Fin 8 → ℤ) × Port))
  | [], _ => some []
  | r :: rs, s => do
    let call ← mspRead conv late fuel r s
    let calls ← mspReads fuel rs call.2
    return call :: calls

end Reads

end Port

/-! ## Exact voltages -/

def exactScale (c : ResCoeff) (word : BitVec 16) : ℚ :=
  (word.toNat * mspAdcVref : ℤ) / mspAdcRange * c.num / c.denom

/-- In mV; two of them are measured against others. -/
def exactVoltage (adc12mem : Fin 8 → BitVec 16) (i : Fin 8) : ℚ :=
  let voltage := fun i ↦ exactScale (resCoeff i) (adc12mem i)
  if i = 6 then voltage 6 - voltage 5 * 3 / 2
  else if i = 7 then voltage 7 - 8250
  else voltage i

/-- Scaling in two steps that round down. -/
theorem scale_twice {d k m : ℤ} (hd : 0 < d) (hk : 0 < k) (hm : 0 ≤ m) (a : ℤ) :
    ((a / d * m / k : ℤ) : ℚ) ≤ a / d * m / k ∧
      (a / d * m / k : ℚ) < (a / d * m / k : ℤ) + m / k + 1 := by
  have hd' : (0 : ℚ) < d := Int.cast_pos.mpr hd
  have hk' : (0 : ℚ) < k := Int.cast_pos.mpr hk
  have hm' : (0 : ℚ) ≤ m := Int.cast_nonneg hm
  have hlow (b : ℤ) {e : ℤ} (he : (0 : ℚ) < e) : ((b / e : ℤ) : ℚ) ≤ b / e := by
    rw [le_div_iff₀ he]
    exact_mod_cast Int.ediv_mul_le b (by rintro rfl; simp at he)
  have hhigh (b : ℤ) {e : ℤ} (he : (0 : ℚ) < e) : (b / e : ℚ) < (b / e : ℤ) + 1 := by
    rw [div_lt_iff₀ he]
    exact_mod_cast Int.lt_ediv_add_one_mul_self b (by exact_mod_cast he)
  have hmul {x y : ℚ} (hxy : x ≤ y) : x * m / k ≤ y * m / k :=
    div_le_div_of_nonneg_right (mul_le_mul_of_nonneg_right hxy hm') hk'.le
  have hsplit : ((a / d : ℤ) + 1 : ℚ) * m / k = ((a / d * m : ℤ) : ℚ) / k + m / k := by
    rw [add_mul, one_mul, add_div, Int.cast_mul]
  constructor
  · refine (hlow (a / d * m) hk').trans ?_
    rw [Int.cast_mul]
    exact hmul (hlow a hd')
  · refine (hmul (hhigh a hd').le).trans_lt ?_
    rw [hsplit]
    linarith [hhigh (a / d * m) hk']

/-! ## Accuracy -/

variable {c : ResCoeff} {word : BitVec 16} {adc12mem : Fin 8 → BitVec 16}

/-- The bounds of the table, for which no product overflows. -/
structure InTable (c : ResCoeff) : Prop where
  denom : 0 < c.denom
  num : 0 ≤ c.num ∧ c.num ≤ 1511
  ratio : c.num ≤ 7 * c.denom

theorem inTable (i : Fin 8) : InTable (resCoeff i) := by
  have hall : ∀ i, 0 < (resCoeff i).denom ∧ (0 ≤ (resCoeff i).num ∧ (resCoeff i).num ≤ 1511) ∧
      (resCoeff i).num ≤ 7 * (resCoeff i).denom := by decide
  obtain ⟨hdenom, hnum, hratio⟩ := hall i
  exact ⟨hdenom, hnum, hratio⟩

theorem toLong_eq {x : ℤ} (hlow : -2 ^ 31 ≤ x) (hhigh : x < 2 ^ 31) : toLong x = x := by
  rw [toLong]
  apply Int.bmod_eq_of_le <;> omega

/-- Nothing overflows: the scaling is that of the integers. -/
theorem scale_eq (h : InTable c) (word : BitVec 16) :
    scale c (word.setWidth 32) =
      (word.toNat * mspAdcVref : ℤ) / mspAdcRange * c.num / c.denom ∧
      0 ≤ scale c (word.setWidth 32) ∧ scale c (word.setWidth 32) ≤ 280000 := by
  have hword : (word.setWidth 32).toNat = word.toNat := by
    rw [BitVec.toNat_setWidth, Nat.mod_eq_of_lt (word.isLt.trans (by decide))]
  have hlt : (word.toNat : ℤ) < 65536 := by exact_mod_cast word.isLt
  have hvolt : (word.toNat * mspAdcVref : ℤ) / mspAdcRange ≤ 40000 := by
    rw [mspAdcVref, mspAdcRange]
    omega
  have hnonneg : 0 ≤ (word.toNat * mspAdcVref : ℤ) / mspAdcRange := by
    rw [mspAdcVref, mspAdcRange]
    omega
  have hfirst : (toLong (toLong word.toNat * mspAdcVref)).tdiv mspAdcRange =
      (word.toNat * mspAdcVref : ℤ) / mspAdcRange := by
    rw [toLong_eq (x := word.toNat) (by omega) (by omega), toLong_eq
      (by rw [mspAdcVref]; omega) (by rw [mspAdcVref]; omega),
      Int.tdiv_eq_ediv_of_nonneg (by rw [mspAdcVref]; omega)]
  set volt := (word.toNat * mspAdcVref : ℤ) / mspAdcRange
  have hprod : 0 ≤ volt * c.num := Int.mul_nonneg hnonneg h.num.1
  have hprod' : volt * c.num ≤ 40000 * 1511 :=
    Int.mul_le_mul hvolt h.num.2 h.num.1 (by decide)
  have hsecond : scale c (word.setWidth 32) = volt * c.num / c.denom := by
    rw [scale, hword, hfirst, toLong_eq (by omega) (by omega), Int.tdiv_eq_ediv_of_nonneg hprod]
  refine ⟨hsecond, ?_, ?_⟩
  · rw [hsecond]
    exact Int.ediv_nonneg hprod h.denom.le
  · rw [hsecond]
    refine Int.ediv_le_of_le_mul h.denom ?_
    calc volt * c.num ≤ 40000 * (7 * c.denom) :=
          Int.mul_le_mul hvolt h.ratio h.num.1 (by decide)
      _ = 280000 * c.denom := by omega

theorem scale_accurate (h : InTable c) (word : BitVec 16) :
    (scale c (word.setWidth 32) : ℚ) ≤ exactScale c word ∧
      exactScale c word < scale c (word.setWidth 32) + c.num / c.denom + 1 := by
  rw [(scale_eq h word).1]
  exact scale_twice (by decide) h.denom h.num.1 _

/-- The words that `msp_transform` puts together are those of the ADC. -/
theorem dataWord_dataBytes (conversion : Conversion) (i : Fin 8) :
    dataWord (dataBytes conversion) i = (conversion.adc12mem i).setWidth 32 := by
  have hbyte (j : ℕ) (hj : j < 16) :
      (dataBytes conversion).getD j 0 = byteData conversion.adc12mem ⟨j, hj⟩ := by
    rw [List.getD_eq_getElem?_getD, dataBytes, List.getElem?_ofFn, dif_pos hj, Option.getD_some]
  have hlow : byteData conversion.adc12mem ⟨2 * i, by omega⟩ =
      (conversion.adc12mem i).extractLsb' 0 8 := by
    have hhalf : (⟨2 * (i : ℕ) / 2, by omega⟩ : Fin 8) = i := Fin.ext (by dsimp only; omega)
    rw [byteData]
    dsimp only
    rw [hhalf, Nat.mul_mod_right]
  have hhigh : byteData conversion.adc12mem ⟨2 * i + 1, by omega⟩ =
      (conversion.adc12mem i).extractLsb' 8 8 := by
    have hhalf : (⟨(2 * (i : ℕ) + 1) / 2, by omega⟩ : Fin 8) = i := Fin.ext (by dsimp only; omega)
    rw [byteData]
    dsimp only
    rw [hhalf, Nat.mul_add_mod]
  rw [dataWord, hbyte _ (by omega), hbyte _ (by omega), hlow, hhigh]
  generalize conversion.adc12mem i = word
  ext j hj
  simp only [BitVec.getElem_or, BitVec.getElem_shiftLeft, BitVec.getElem_setWidth,
    BitVec.getLsbD_extractLsb']
  rcases Nat.lt_or_ge j 8 with hlt | hge
  · simp [hlt]
  · have hsub : 8 + (j - 8) = j := by omega
    rw [hsub]
    rcases Nat.lt_or_ge j 16 with hlt | hge'
    · have hbit : j - 8 < 8 := by omega
      simp [Nat.not_lt.mpr hge, hbit]
    · simp [word.getLsbD_of_ge j hge']

/-- What `msp_transform` makes of a conversion is within 12 mV of the exact voltages. -/
theorem mspTransform_accurate (conversion : Conversion) (i : Fin 8) :
    |(mspTransform (dataBytes conversion) i : ℚ) - exactVoltage conversion.adc12mem i| < 12 := by
  have hscale (i : Fin 8) := scale_accurate (inTable i) (conversion.adc12mem i)
  have hbounds (i : Fin 8) := (scale_eq (inTable i) (conversion.adc12mem i)).2
  have hratio (i : Fin 8) : ((resCoeff i).num : ℚ) / (resCoeff i).denom ≤ 611 / 100 := by
    have hall : ∀ i, (resCoeff i).num * 100 ≤ 611 * (resCoeff i).denom := by decide
    have hdenom : (0 : ℚ) < (resCoeff i).denom := Int.cast_pos.mpr (inTable i).denom
    rw [div_le_div_iff₀ hdenom (by norm_num)]
    exact_mod_cast hall i
  have herror (i : Fin 8) := (hscale i).2.trans_le
    (add_le_add_left (add_le_add_right (hratio i) _) 1)
  rw [mspTransform, exactVoltage]
  simp only [dataWord_dataBytes]
  split_ifs with h6 h7
  · obtain ⟨hlow₅, hhigh₅⟩ := hbounds 5
    obtain ⟨hlow₆, hhigh₆⟩ := hbounds 6
    have hexact₅ := (hscale 5).1
    have hexact₆ := (hscale 6).1
    have herror₅ := herror 5
    have herror₆ := herror 6
    set v₅ := scale (resCoeff 5) ((conversion.adc12mem 5).setWidth 32)
    set v₆ := scale (resCoeff 6) ((conversion.adc12mem 6).setWidth 32)
    have hhalf : (toLong (v₅ * 1500)).tdiv 1000 = v₅ * 1500 / 1000 := by
      rw [toLong_eq (by omega) (by omega), Int.tdiv_eq_ediv_of_nonneg (by omega)]
    have hround : v₅ * 1500 / 1000 * 2 ≤ v₅ * 3 ∧ v₅ * 3 < v₅ * 1500 / 1000 * 2 + 2 := by omega
    have hround₁ : ((v₅ * 1500 / 1000 : ℤ) : ℚ) * 2 ≤ v₅ * 3 := by exact_mod_cast hround.1
    have hround₂ : (v₅ * 3 : ℚ) < ((v₅ * 1500 / 1000 : ℤ) : ℚ) * 2 + 2 := by
      exact_mod_cast hround.2
    rw [hhalf, toLong_eq (by omega) (by omega), Int.cast_sub, abs_lt]
    constructor <;> linarith
  · obtain ⟨hlow, hhigh⟩ := hbounds 7
    have hexact := (hscale 7).1
    have hfixed : (toLong (5500 * 1500)).tdiv 1000 = 8250 := by decide
    rw [hfixed, toLong_eq (by omega) (by omega), Int.cast_sub, Int.cast_ofNat, abs_lt]
    constructor <;> linarith [herror 7]
  · rw [abs_lt]
    constructor <;> linarith [(hscale i).1, herror i]

/-! ## Reads -/

namespace Port

variable {conv : ℕ → Conversion} {late : ℕ → Bool} {s t : Port} {r : ReadCall}

/-- What a call returns: voltages of the last conversion, or an error that has its reason. -/
inductive Answered (conv : ℕ → Conversion) (late : ℕ → Bool) (r : ReadCall) :
    Except ℤ (Fin 8 → ℤ) × Port → Prop
  | voltages (v : Fin 8 → ℤ) (t : Port) (hprompt : ∀ i < t.exchange, late i = false)
      (hv : ∀ i, |(v i : ℚ) - exactVoltage (conv t.fw.conversion).adc12mem i| < 12) :
      Answered conv late r (.ok v, t)
  | invalid (t : Port) (h : r.count < sizeofMspAtom) : Answered conv late r (.error (-EINVAL), t)
  | interrupted (t : Port) (h : r.signal = true) : Answered conv late r (.error (-EINTR), t)
  | fault (t : Port) (h : r.copyFails = true) : Answered conv late r (.error (-EFAULT), t)
  | late (ret : ℤ) (t : Port) (hret : ret = -EBADE ∨ ret = -EPROTO)
      (h : ∃ i < t.exchange, late i = true) : Answered conv late r (.error ret, t)

/-- No reply has been late. -/
structure Healthy (conv : ℕ → Conversion) (late : ℕ → Bool) (s : Port) : Prop where
  rxFifo : s.rxFifo = []
  settled : Firmware.Settled conv s.fw
  reset : s.fw.u0txbuf = MSP_PROTO_RESET
  prompt : ∀ i < s.exchange, late i = false

/-- The conversion that the next transfer delivers. -/
def next (s : Port) : ℕ := s.fw.conversion + if s.fw.noData = true then 0 else 1

/-- What a transfer does to a port on which no reply has been late. -/
theorem Healthy.transfer (h : Healthy conv late s) :
    (∃ t, Healthy conv late t ∧ t.fw.conversion = s.next ∧ t.next = s.next + 1 ∧
      ∃ bound, ∀ fuel, bound < fuel →
        mspTransfer conv late fuel s = some (.ok (dataBytes (conv t.fw.conversion)), t)) ∨
    ∃ t, Broken t ∧ (∃ i < t.exchange, late i = true) ∧ ∃ bound, ∀ fuel, bound < fuel →
      mspTransfer conv late fuel s = some (.error (-EBADE), t) := by
  obtain ⟨fw, rxFifo, e⟩ := s
  obtain rfl : rxFifo = [] := h.rxFifo
  obtain ⟨fw', hready, hreset, hconv, hfollows⟩ := follows_transfer late h.settled h.reset e
  cases hfollows with
  | same e' bound hle hprompt hrun =>
      refine .inl ⟨⟨fw', [], e'⟩, ⟨rfl, hready.settled, hreset, fun i hi ↦ ?_⟩, hconv, ?_,
        bound, hrun⟩
      · exact (Nat.lt_or_ge i e).elim (h.prompt i) fun hge ↦ hprompt i hge hi
      · rw [next, if_neg (by rw [hready.asleep]; exact Bool.false_ne_true)]
        exact congrArg Nat.succ hconv
  | late t bound ht hlate hrun =>
      obtain ⟨i, -, hi, hlate⟩ := hlate
      exact .inr ⟨t, ht, ⟨i, hi, hlate⟩, bound, hrun⟩

def delivered (call : Except ℤ (Fin 8 → ℤ) × Port) : Option ℕ :=
  match call.1 with
  | .ok _ => some call.2.fw.conversion
  | .error _ => none

theorem Healthy.read (h : Healthy conv late s) (r : ReadCall) : ∃ call bound,
    Answered conv late r call ∧
      (∀ fuel, bound < fuel → mspRead conv late fuel r s = some call) ∧
      (Healthy conv late call.2 ∧ s.next ≤ call.2.next ∧
          (∀ n, delivered call = some n → n = s.next ∧ call.2.next = n + 1) ∨
        Broken call.2 ∧ (∃ i < call.2.exchange, late i = true) ∧ delivered call = none) := by
  by_cases hcount : r.count < sizeofMspAtom
  · refine ⟨(.error (-EINVAL), s), 0, .invalid s hcount, fun fuel _ ↦ ?_,
      .inl ⟨h, Nat.le_refl _, by rintro n ⟨⟩⟩⟩
    rw [mspRead, if_pos hcount]
    rfl
  by_cases hsignal : r.signal = true
  · refine ⟨(.error (-EINTR), s), 0, .interrupted s hsignal, fun fuel _ ↦ ?_,
      .inl ⟨h, Nat.le_refl _, by rintro n ⟨⟩⟩⟩
    rw [mspRead, if_neg hcount, if_pos hsignal]
    rfl
  rcases h.transfer with ⟨t, ht, hconv, hnext, bound, hrun⟩ | ⟨t, ht, hlate, bound, hrun⟩
  · by_cases hcopy : r.copyFails = true
    · refine ⟨(.error (-EFAULT), t), bound, .fault t hcopy, fun fuel hfuel ↦ ?_,
        .inl ⟨ht, by rw [hnext]; exact Nat.le_succ _, by rintro n ⟨⟩⟩⟩
      rw [mspRead, if_neg hcount, if_neg hsignal, bind_ok (hrun fuel hfuel), if_pos hcopy]
      rfl
    · refine ⟨(.ok (mspTransform (dataBytes (conv t.fw.conversion))), t), bound,
        .voltages _ t ht.prompt (mspTransform_accurate _), fun fuel hfuel ↦ ?_,
        .inl ⟨ht, by rw [hnext]; exact Nat.le_succ _, ?_⟩⟩
      · rw [mspRead, if_neg hcount, if_neg hsignal, bind_ok (hrun fuel hfuel), if_neg hcopy]
        rfl
      · rintro n hn
        obtain rfl := Option.some.inj hn
        exact ⟨hconv, by rw [hnext, hconv]⟩
  · refine ⟨(.error (-EBADE), t), bound, .late _ t (.inl rfl) hlate, fun fuel hfuel ↦ ?_,
      .inr ⟨ht, hlate, rfl⟩⟩
    rw [mspRead, if_neg hcount, if_neg hsignal, bind_error (hrun fuel hfuel)]

theorem Broken.read (h : Broken s) (hlate : ∃ i < s.exchange, late i = true) (conv : ℕ → Conversion)
    (r : ReadCall) : ∃ call, Answered conv late r call ∧ delivered call = none ∧ Broken call.2 ∧
      (∃ i < call.2.exchange, late i = true) ∧
      ∀ fuel, 0 < fuel → mspRead conv late fuel r s = some call := by
  by_cases hcount : r.count < sizeofMspAtom
  · refine ⟨(.error (-EINVAL), s), .invalid s hcount, rfl, h, hlate, fun fuel _ ↦ ?_⟩
    rw [mspRead, if_pos hcount]
    rfl
  by_cases hsignal : r.signal = true
  · refine ⟨(.error (-EINTR), s), .interrupted s hsignal, rfl, h, hlate, fun fuel _ ↦ ?_⟩
    rw [mspRead, if_neg hcount, if_pos hsignal]
    rfl
  · obtain ⟨t, ht, hle, hrun⟩ := mspTransfer_broken conv late h
    obtain ⟨i, hi, hlate⟩ := hlate
    have hlate' : ∃ i < t.exchange, late i = true := ⟨i, Nat.lt_of_lt_of_le hi hle, hlate⟩
    refine ⟨(.error (-EPROTO), t), .late _ t (.inr rfl) hlate', rfl, ht, hlate',
      fun fuel hfuel ↦ ?_⟩
    rw [mspRead, if_neg hcount, if_neg hsignal, bind_error (hrun fuel hfuel)]

theorem mspReads_cons {fuel : ℕ} {call : Except ℤ (Fin 8 → ℤ) × Port} {rs : List ReadCall}
    {calls : List (Except ℤ (Fin 8 → ℤ) × Port)} (hcall : mspRead conv late fuel r s = some call)
    (hcalls : mspReads conv late fuel rs call.2 = some calls) :
    mspReads conv late fuel (r :: rs) s = some (call :: calls) := by
  rw [mspReads, hcall, Option.bind_eq_bind, Option.bind_some, hcalls]
  rfl

theorem reads_broken (h : Broken s) (hlate : ∃ i < s.exchange, late i = true)
    (conv : ℕ → Conversion) (rs : List ReadCall) : ∃ calls,
      List.Forall₂ (Answered conv late) rs calls ∧ calls.filterMap delivered = [] ∧
      ∀ fuel, 0 < fuel → mspReads conv late fuel rs s = some calls := by
  induction rs generalizing s with
  | nil => exact ⟨[], .nil, rfl, fun _ _ ↦ rfl⟩
  | cons r rs ih =>
      obtain ⟨call, hans, hnone, ht, hlate', hrun⟩ := h.read hlate conv r
      obtain ⟨calls, hall, hempty, hruns⟩ := ih ht hlate'
      refine ⟨call :: calls, .cons hans hall, ?_, fun fuel hfuel ↦ ?_⟩
      · rw [List.filterMap_cons_none hnone, hempty]
      · exact mspReads_cons (hrun fuel hfuel) (hruns fuel hfuel)

theorem reads_healthy (h : Healthy conv late s) (rs : List ReadCall) : ∃ calls bound,
    List.Forall₂ (Answered conv late) rs calls ∧
      (calls.filterMap delivered).Pairwise (· < ·) ∧
      (∀ n ∈ calls.filterMap delivered, s.next ≤ n) ∧
      ∀ fuel, bound < fuel → mspReads conv late fuel rs s = some calls := by
  induction rs generalizing s with
  | nil => exact ⟨[], 0, .nil, .nil, by simp, fun _ _ ↦ rfl⟩
  | cons r rs ih =>
      obtain ⟨call, bound, hans, hrun, hafter⟩ := h.read r
      rcases hafter with ⟨ht, hle, hdelivered⟩ | ⟨ht, hlate, hnone⟩
      · obtain ⟨calls, bound', hall, hpair, hnext, hruns⟩ := ih ht
        have hpairs : ((call :: calls).filterMap delivered).Pairwise (· < ·) ∧
            ∀ n ∈ (call :: calls).filterMap delivered, s.next ≤ n := by
          cases hcall : delivered call with
          | none =>
              rw [List.filterMap_cons_none hcall]
              exact ⟨hpair, fun n hn ↦ Nat.le_trans hle (hnext n hn)⟩
          | some n =>
              obtain ⟨rfl, hsucc⟩ := hdelivered n hcall
              have hlt : ∀ m ∈ calls.filterMap delivered, s.next < m := fun m hm ↦
                Nat.lt_of_succ_le (hsucc.symm.trans_le (hnext m hm))
              rw [List.filterMap_cons_some hcall]
              refine ⟨.cons hlt hpair, fun m hm ↦ ?_⟩
              rcases List.mem_cons.mp hm with rfl | hm
              · exact Nat.le_refl _
              · exact (hlt m hm).le
        refine ⟨call :: calls, max bound bound', .cons hans hall, hpairs.1, hpairs.2,
          fun fuel hfuel ↦ ?_⟩
        obtain ⟨hfuel₁, hfuel₂⟩ := Nat.max_lt.mp hfuel
        exact mspReads_cons (hrun fuel hfuel₁) (hruns fuel hfuel₂)
      · obtain ⟨calls, hall, hempty, hruns⟩ := reads_broken ht hlate conv rs
        refine ⟨call :: calls, bound, .cons hans hall, ?_, ?_, fun fuel hfuel ↦ ?_⟩
        · rw [List.filterMap_cons_none hnone, hempty]
          exact .nil
        · rw [List.filterMap_cons_none hnone, hempty]
          exact fun n hn ↦ absurd hn List.not_mem_nil
        · exact mspReads_cons (hrun fuel hfuel) (hruns fuel (Nat.zero_lt_of_lt hfuel))

/-- Whatever is read and whichever replies are late, every read from the reset on returns the
voltages of a conversion of its own, each within 12 mV of the exact one, or an error that has its
reason. -/
theorem reads_accurate (conv : ℕ → Conversion) (late : ℕ → Bool) (fw : Firmware)
    (rs : List ReadCall) : ∃ calls bound,
      List.Forall₂ (Answered conv late) rs calls ∧
      (calls.filterMap delivered).Pairwise (· < ·) ∧
      ∀ fuel, bound < fuel →
        mspReads conv late fuel rs ⟨fw.mspReset conv, [], 0⟩ = some calls := by
  have hstart : Healthy conv late ⟨fw.mspReset conv, [], 0⟩ :=
    ⟨rfl, Firmware.mspReset_settled, Firmware.mspReset_u0txbuf,
      fun i hi ↦ absurd hi (Nat.not_lt_zero i)⟩
  obtain ⟨calls, bound, hall, hpair, -, hruns⟩ := reads_healthy hstart rs
  exact ⟨calls, bound, hall, hpair, hruns⟩

end Port

end Msp

end LiberaBase
