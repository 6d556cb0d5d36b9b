import LiberaBase.Cfg.Offsets
import Mathlib.Tactic.Ring

/-!
# The thresholds for an ADC overflow

The limit is given as an ADC count.  It is kept as its square, scaled down, and goes to the FPGA
with the next latch of the interlock or of the post-mortem parameters, scaled by `kadc` twice.  The
square of `kadc` is taken in 32 bits.
-/

namespace LiberaBase

/-! ## The arithmetic -/

/-- The greatest ADC count. -/
def adcMax (brilliance : Bool) : U32 := if brilliance then 32767 else 2047

/-- The parameter word: the ADC count, and the limit derived from it. -/
def packLimit (brilliance : Bool) (val : U32) : U32 :=
  let adcCount := if brilliance then val >>> 4 else val
  (val <<< 16) ||| (((adcCount * adcCount) >>> 8) &&& 0xffff#32)

/-- The limit of an ADC count. -/
def countLimit (brilliance : Bool) (v : ℕ) : ℕ := (if brilliance then v / 16 else v) ^ 2 / 256

def exactThreshold (brilliance : Bool) (kadc v : ℕ) : ℕ :=
  countLimit brilliance v * kadc ^ 2 / 10 ^ 6

section

variable {brilliance : Bool} {val : U32}

theorem adcMax_le (h : val ≤ adcMax brilliance) :
    val.toNat ≤ 32767 ∧ (if brilliance then val.toNat / 16 else val.toNat) ≤ 2047 := by
  have hle : val.toNat ≤ (adcMax brilliance).toNat := h
  cases brilliance
  · have hmax : val.toNat ≤ 2047 := hle
    exact ⟨by omega, hmax⟩
  · have hmax : val.toNat ≤ 32767 := hle
    refine ⟨hmax, ?_⟩
    show val.toNat / 16 ≤ 2047
    omega

theorem countLimit_lt (h : val ≤ adcMax brilliance) : countLimit brilliance val.toNat < 2 ^ 16 := by
  have hsq := Nat.pow_le_pow_left (adcMax_le h).2 2
  rw [countLimit]
  omega

/-- Nothing is lost of either half. -/
theorem packLimit_toNat (h : val ≤ adcMax brilliance) :
    (packLimit brilliance val).toNat =
      val.toNat * 2 ^ 16 + countLimit brilliance val.toNat := by
  obtain ⟨hval, hcount⟩ := adcMax_le h
  have hlimit := countLimit_lt h
  have hadc : (if brilliance then val >>> 4 else val).toNat =
      if brilliance then val.toNat / 16 else val.toNat := by
    cases brilliance
    · rfl
    · exact Nat.shiftRight_eq_div_pow ..
  have hsq : (if brilliance then val.toNat / 16 else val.toNat) ^ 2 < 2 ^ 32 :=
    (Nat.pow_le_pow_left hcount 2).trans_lt (by decide)
  rw [packLimit, BitVec.toNat_or, BitVec.toNat_and, BitVec.toNat_shiftLeft,
    BitVec.toNat_ushiftRight, BitVec.toNat_mul, hadc, ← pow_two, Nat.mod_eq_of_lt hsq,
    Nat.shiftRight_eq_div_pow, Nat.shiftLeft_eq, Nat.mod_eq_of_lt (by omega)]
  show val.toNat * 2 ^ 16 ||| (countLimit brilliance val.toNat &&& (2 ^ 16 - 1)) = _
  rw [Nat.and_two_pow_sub_one_eq_mod, Nat.mod_eq_of_lt hlimit, Nat.mul_comm,
    ← Nat.two_pow_add_eq_or_of_lt hlimit]

theorem packLimit_count (h : val ≤ adcMax brilliance) : packLimit brilliance val >>> 16 = val := by
  have hlimit := countLimit_lt h
  rw [BitVec.toNat_eq, BitVec.toNat_ushiftRight, packLimit_toNat h, Nat.shiftRight_eq_div_pow]
  omega

theorem packLimit_limit (h : val ≤ adcMax brilliance) :
    (packLimit brilliance val &&& 0xffff#32).toNat = countLimit brilliance val.toNat := by
  have hlimit := countLimit_lt h
  rw [BitVec.toNat_and, packLimit_toNat h]
  show (_ &&& (2 ^ 16 - 1)) = _
  rw [Nat.and_two_pow_sub_one_eq_mod]
  omega

/-- What the FPGA gets, as a number. -/
theorem scaleKadc_toNat (h : val ≤ adcMax brilliance) (kadc : U32) :
    (scaleKadc kadc (packLimit brilliance val)).toNat =
      countLimit brilliance val.toNat * (kadc.toNat ^ 2 % 2 ^ 32) / 10 ^ 6 := by
  have hlimit := countLimit_lt h
  have hsq : kadc.toNat ^ 2 % 2 ^ 32 < 2 ^ 32 := Nat.mod_lt _ (by decide)
  have hprod : countLimit brilliance val.toNat * (kadc.toNat ^ 2 % 2 ^ 32) < 2 ^ 48 :=
    lt_of_lt_of_eq (Nat.mul_lt_mul'' hlimit hsq) (by decide)
  rw [scaleKadc, BitVec.toNat_setWidth, BitVec.toNat_udiv, BitVec.toNat_mul,
    BitVec.toNat_setWidth_of_le (by decide), BitVec.toNat_setWidth_of_le (by decide),
    packLimit_limit h, BitVec.toNat_mul, ← pow_two]
  show _ * (kadc.toNat ^ 2 % 2 ^ 32) % 2 ^ 64 / 1000000 % 2 ^ 32 = _
  generalize countLimit brilliance val.toNat * (kadc.toNat ^ 2 % 2 ^ 32) = prod at hprod ⊢
  rw [Nat.mod_eq_of_lt (by omega), Nat.mod_eq_of_lt (by omega)]
  rfl

/-- The wrapped square gives the exact threshold if it did not wrap, or is multiplied by 0. -/
theorem threshold_eq_iff (limit kadc : ℕ) :
    limit * (kadc ^ 2 % 2 ^ 32) / 10 ^ 6 = limit * kadc ^ 2 / 10 ^ 6 ↔
      kadc < 2 ^ 16 ∨ limit = 0 := by
  constructor
  · intro heq
    by_contra! h
    obtain ⟨hkadc, hlimit⟩ := h
    have hsq : 2 ^ 32 ≤ kadc ^ 2 := Nat.pow_le_pow_left hkadc 2
    have hwrapped : kadc ^ 2 % 2 ^ 32 + 2 ^ 32 ≤ kadc ^ 2 := by omega
    -- the limit multiplies a difference that is far above the divisor
    have hgap : limit * (kadc ^ 2 % 2 ^ 32) + 10 ^ 6 ≤ limit * kadc ^ 2 := calc
      _ ≤ limit * (kadc ^ 2 % 2 ^ 32) + limit * 2 ^ 32 := by omega
      _ = limit * (kadc ^ 2 % 2 ^ 32 + 2 ^ 32) := (Nat.mul_add ..).symm
      _ ≤ limit * kadc ^ 2 := Nat.mul_le_mul_left _ hwrapped
    have hlt := Nat.div_le_div_right (c := 10 ^ 6) hgap
    rw [Nat.add_div_right _ (by decide)] at hlt
    omega
  · rintro (hkadc | rfl)
    · have hsq : kadc ^ 2 < 2 ^ 32 := Nat.pow_lt_pow_left hkadc (by decide)
      rw [Nat.mod_eq_of_lt hsq]
    · rw [Nat.zero_mul, Nat.zero_mul]

theorem countLimit_mono (brilliance : Bool) {v v' : ℕ} (h : v ≤ v') :
    countLimit brilliance v ≤ countLimit brilliance v' := by
  refine Nat.div_le_div_right (Nat.pow_le_pow_left ?_ 2)
  cases brilliance
  · exact h
  · exact Nat.div_le_div_right h

end

/-! ## The two thresholds -/

inductive Threshold where
  | ilk
  | pm
  deriving DecidableEq

namespace Threshold

def limitIdx : Threshold → ℕ
  | ilk => cfgIlkOverflowLimit
  | pm => cfgPmOverflowLimit

/-- The parameter whose request latches the threshold. -/
def latchIdx : Threshold → ℕ
  | ilk => cfgIlkGainLimit
  | pm => cfgPmOverflowDur

def reg : Threshold → ℕ
  | ilk => dscIlkOverflowLimit
  | pm => dscPmOverflowLimit

end Threshold

namespace Driver

variable {s t : Driver} {readl : ℕ → U32} {req : CfgRequest} {x : Threshold}

theorem setOverflowLimit_eq (s : Driver) (idx : ℕ) (val : U32) :
    s.setOverflowLimit idx val =
      if val ≤ adcMax (isBrilliance s.lgbl.feature) then
        (s.setParam idx (packLimit (isBrilliance s.lgbl.feature) val), 0)
      else (s, -EINVAL) := rfl

/-- A request for the limit. -/
theorem setCfg_limit (readl : ℕ → U32) (s : Driver) (hidx : req.idx.toNat = x.limitIdx) :
    s.liberaIocSetCfg readl req =
      if req.val ≤ adcMax (isBrilliance s.lgbl.feature) then
        ((s.setParam x.limitIdx (packLimit (isBrilliance s.lgbl.feature) req.val)).liberaSendEvent
          liberaEventCfg req.idx, 0)
      else (s, -EINVAL) := by
  have hset : s.liberaCfgSetSpecific readl req = s.setOverflowLimit x.limitIdx req.val := by
    unfold liberaCfgSetSpecific
    extract_lets idx mirrored source source' val s₁
    rw [show idx = x.limitIdx from hidx]
    iterate 4 rw [if_neg (by cases x <;> decide)]
    exact if_pos (by cases x <;> decide)
  rw [liberaIocSetCfg_specific readl s (hidx ▸ by cases x <;> decide)
    (hidx ▸ by cases x <;> decide), hset, setOverflowLimit_eq]
  by_cases hval : req.val ≤ adcMax (isBrilliance s.lgbl.feature)
  · rw [if_pos hval, if_pos hval]
    exact if_neg (not_not.mpr rfl)
  · rw [if_neg hval, if_neg hval]
    exact if_pos (neg_ne_zero.mpr (by decide))

theorem checkAndUpdate_param_of_ne (s : Driver) (bcdVal : U32) {idx bcdIdx : ℕ}
    (hne : idx ≠ bcdIdx) (fixIdx : ℕ) :
    (s.checkAndUpdate bcdVal bcdIdx fixIdx).param idx = s.param idx := by
  unfold checkAndUpdate
  split_ifs
  · exact param_setParam_of_ne hne _
  · rfl

theorem last_writel_self (s : Driver) (val : U32) (addr : ℕ) :
    WriteLog.last (s.writel val addr).writes addr = some val :=
  WriteLog.last_concat_self ..

theorem last_writel_of_ne (s : Driver) (val : U32) {addr a : ℕ} (hne : addr ≠ a) :
    WriteLog.last (s.writel val addr).writes a = WriteLog.last s.writes a :=
  WriteLog.last_append_of_ne (List.forall_mem_singleton.mpr hne)

theorem latchIlk_written (s : Driver) :
    WriteLog.last s.latchIlk.writes dscIlkOverflowLimit =
      some (scaleKadc s.params.kadc (s.param cfgIlkOverflowLimit)) := by
  unfold latchIlk
  rw [last_writel_of_ne _ _ (by decide), last_writel_of_ne _ _ (by decide), last_writel_self]

theorem latchPm_written (s : Driver) (trigDelay : U32) :
    WriteLog.last (s.latchPm trigDelay).writes dscPmOverflowLimit =
      some (scaleKadc s.params.kadc (s.param cfgPmOverflowLimit)) := by
  unfold latchPm
  rw [last_writel_of_ne _ _ (by decide), last_writel_self]

/-- The request that latches writes the threshold, or it is refused. -/
theorem setSpecific_latch (readl : ℕ → U32) (s : Driver) (hidx : req.idx.toNat = x.latchIdx) :
    s.liberaCfgSetSpecific readl req = (s, -EINVAL) ∨
      (s.liberaCfgSetSpecific readl req).2 = 0 ∧
        WriteLog.last (s.liberaCfgSetSpecific readl req).1.writes x.reg =
          some (scaleKadc s.params.kadc (s.param x.limitIdx)) := by
  have hparam : (s.setParam x.latchIdx req.val).param x.limitIdx = s.param x.limitIdx :=
    param_setParam_of_ne (by cases x <;> decide) _
  unfold liberaCfgSetSpecific
  extract_lets idx mirrored source source' val s₁
  have hmirrored : mirrored = s.setParam x.latchIdx req.val := congrArg (s.setParam · _) hidx
  rw [show idx = x.latchIdx from hidx]
  cases x with
  | ilk =>
      iterate 6 rw [if_neg (by decide)]
      rw [if_pos (show Threshold.ilk.latchIdx = cfgIlkGainLimit from rfl)]
      refine .inr ⟨rfl, (latchIlk_written _).trans ?_⟩
      rw [hmirrored]
      exact congrArg (some <| scaleKadc s.params.kadc ·) hparam
  | pm =>
      iterate 14 rw [if_neg (by decide)]
      rw [if_pos (show Threshold.pm.latchIdx = cfgPmOverflowDur from rfl)]
      by_cases hval : req.val ≤ s.params.pmdur ∧ req.val ≤ maxdur
      · rw [if_pos hval]
        refine .inr ⟨rfl, (latchPm_written mirrored (readl tTrigDelay)).trans ?_⟩
        rw [hmirrored]
        exact congrArg (some <| scaleKadc s.params.kadc ·) hparam
      · exact .inl (if_neg hval)

theorem setCfg_latch (readl : ℕ → U32) (s : Driver) (hidx : req.idx.toNat = x.latchIdx)
    (hret : (s.liberaIocSetCfg readl req).2 = 0) :
    WriteLog.last (s.liberaIocSetCfg readl req).1.writes x.reg =
      some (scaleKadc s.params.kadc (s.param x.limitIdx)) := by
  rw [liberaIocSetCfg_specific readl s (hidx ▸ by cases x <;> decide)
    (hidx ▸ by cases x <;> decide)] at hret ⊢
  dsimp only at hret ⊢
  rcases setSpecific_latch readl s hidx with h | ⟨hdone, hwritten⟩
  · rw [h, if_pos (neg_ne_zero.mpr (by decide))] at hret
    exact absurd hret (neg_ne_zero.mpr (by decide))
  · rw [if_neg (not_not.mpr hdone), (liberaSendEvent_frame ..).2]
    exact hwritten

end Driver

/-! ## From the request to the latch -/

/-- A request for the limit that is accepted. -/
def CfgOp.SetsLimit (x : Threshold) (brilliance : Bool) : CfgOp → Prop
  | .setCfg _ req => req.idx.toNat = x.limitIdx ∧ req.val ≤ adcMax brilliance
  | _ => False

namespace UserDevices

variable {s : UserDevices} {x : Threshold}

theorem cfgStep_limit (op : CfgOp) (hop : ¬op.SetsLimit x (isBrilliance s.drv.lgbl.feature)) :
    (s.cfgStep op).drv.param x.limitIdx = s.drv.param x.limitIdx ∧
      (s.cfgStep op).drv.lgbl = s.drv.lgbl := by
  cases op with
  | setCfg readl req =>
      have hlgbl : (s.drv.liberaIocSetCfg readl req).1.lgbl = s.drv.lgbl := by
        obtain ⟨_, _, _, heq⟩ := Driver.requested_liberaIocSetCfg readl s.drv req
        rw [heq]
      refine ⟨?_, hlgbl⟩
      by_cases hidx : req.idx.toNat = x.limitIdx
      · rw [cfgStep, Driver.setCfg_limit readl s.drv hidx, if_neg fun hval ↦ hop ⟨hidx, hval⟩]
      · exact Driver.param_liberaIocSetCfg_of_ne readl s.drv (Ne.symm hidx)
  | bcdOffsets file accessOk offsets =>
      rw [cfgStep, dscIoctl]
      cases liberaDscIoctl s.dsc file (DscRequest.bcdOffsets ⟨0, offsets⟩).cmd accessOk with
      | some err => exact ⟨rfl, rfl⟩
      | none =>
          have hx : x.limitIdx ≠ cfgBcdXoffset := by cases x <;> decide
          have hy : x.limitIdx ≠ cfgBcdYoffset := by cases x <;> decide
          refine ⟨?_, (Driver.checkAndUpdate_lgbl ..).trans (Driver.checkAndUpdate_lgbl ..)⟩
          exact (Driver.checkAndUpdate_param_of_ne _ _ hy _).trans
            (Driver.checkAndUpdate_param_of_ne _ _ hx _)
  | setParams params => exact ⟨rfl, rfl⟩

theorem cfgRun_limit (ops : List CfgOp)
    (hops : ∀ op ∈ ops, ¬op.SetsLimit x (isBrilliance s.drv.lgbl.feature)) :
    (s.cfgRun ops).drv.param x.limitIdx = s.drv.param x.limitIdx ∧
      (s.cfgRun ops).drv.lgbl = s.drv.lgbl := by
  induction ops generalizing s with
  | nil => exact ⟨rfl, rfl⟩
  | cons op ops ih =>
      obtain ⟨hop, hops⟩ := List.forall_mem_cons.mp hops
      obtain ⟨hparam, hlgbl⟩ := cfgStep_limit op hop
      obtain ⟨hparam', hlgbl'⟩ := ih (s := s.cfgStep op) (hlgbl ▸ hops)
      exact ⟨hparam'.trans hparam, hlgbl'.trans hlgbl⟩

end UserDevices

/-- A request for the limit that is accepted, further requests that leave the limit alone, and a
latch that is accepted. -/
structure LatchRun (x : Threshold) where
  start : UserDevices
  readl : ℕ → U32
  limit : CfgRequest
  limit_idx : limit.idx.toNat = x.limitIdx
  limit_accepted : (start.drv.liberaIocSetCfg readl limit).2 = 0
  ops : List CfgOp
  ops_keep : ∀ op ∈ ops, ¬op.SetsLimit x (isBrilliance start.drv.lgbl.feature)
  readl' : ℕ → U32
  latch : CfgRequest
  latch_idx : latch.idx.toNat = x.latchIdx
  latch_accepted :
    ((start.cfgRun (.setCfg readl limit :: ops)).drv.liberaIocSetCfg readl' latch).2 = 0

namespace LatchRun

variable {x : Threshold}

def brilliance (r : LatchRun x) : Bool := isBrilliance r.start.drv.lgbl.feature

/-- The state before the latch. -/
def before (r : LatchRun x) : UserDevices := r.start.cfgRun (.setCfg r.readl r.limit :: r.ops)

/-- `kadc` when the threshold is latched. -/
def kadc (r : LatchRun x) : U32 := r.before.drv.params.kadc

/-- The ADC count that was requested. -/
def count (r : LatchRun x) : U32 := r.limit.val

/-- The parameter word of the limit. -/
def packed (r : LatchRun x) : U32 := r.before.drv.param x.limitIdx

/-- What the register of the threshold holds after the latch. -/
def written (r : LatchRun x) : Option U32 :=
  WriteLog.last (r.before.drv.liberaIocSetCfg r.readl' r.latch).1.writes x.reg

theorem count_le (r : LatchRun x) : r.count ≤ adcMax r.brilliance := by
  have hset := Driver.setCfg_limit r.readl r.start.drv r.limit_idx
  by_contra hval
  have hrefused := (congrArg Prod.snd (hset.trans (if_neg hval))).symm.trans r.limit_accepted
  exact absurd hrefused (neg_ne_zero.mpr (by decide))

theorem packed_eq (r : LatchRun x) : r.packed = packLimit r.brilliance r.count := by
  have hset := (Driver.setCfg_limit r.readl r.start.drv r.limit_idx).trans (if_pos r.count_le)
  have hdrv : (r.start.cfgStep (.setCfg r.readl r.limit)).drv = _ := congrArg Prod.fst hset
  have hlgbl : (r.start.cfgStep (.setCfg r.readl r.limit)).drv.lgbl = r.start.drv.lgbl := by
    obtain ⟨_, _, _, heq⟩ := Driver.requested_liberaIocSetCfg r.readl r.start.drv r.limit
    exact (congrArg Driver.lgbl heq :)
  obtain ⟨hparam, -⟩ := UserDevices.cfgRun_limit (s := r.start.cfgStep (.setCfg r.readl r.limit))
    r.ops (hlgbl ▸ r.ops_keep)
  refine hparam.trans ?_
  rw [hdrv, Driver.param, (Driver.liberaSendEvent_frame ..).1]
  exact Driver.param_setParam_self ..

theorem written_eq (r : LatchRun x) :
    r.written = some (scaleKadc r.kadc (packLimit r.brilliance r.count)) := by
  rw [← packed_eq]
  exact Driver.setCfg_latch r.readl' r.before.drv r.latch_idx r.latch_accepted

/-- **The threshold that is latched is exact** exactly if `kadc` is less than 2^16 or the limit is
0.  The parameter word has lost nothing of the count or of the limit, and of two counts the greater
one does not have the lower threshold, whether or not it is exact. -/
theorem threshold_exact_iff (r : LatchRun x)
    (hfit : exactThreshold r.brilliance r.kadc.toNat r.count.toNat < 2 ^ 32) :
    (r.written = some (BitVec.ofNat 32 (exactThreshold r.brilliance r.kadc.toNat r.count.toNat)) ∧
      (r.packed >>> 16 = r.count ∧
        (r.packed &&& 0xffff#32).toNat = countLimit r.brilliance r.count.toNat) ∧
      ∀ r' : LatchRun x, r'.brilliance = r.brilliance → r'.kadc = r.kadc → r.count ≤ r'.count →
        ∃ low high, r.written = some low ∧ r'.written = some high ∧ low ≤ high) ↔
      r.kadc.toNat < 2 ^ 16 ∨ countLimit r.brilliance r.count.toNat = 0 := by
  have hcount := r.count_le
  have hexact : r.written =
      some (BitVec.ofNat 32 (exactThreshold r.brilliance r.kadc.toNat r.count.toNat)) ↔
      r.kadc.toNat < 2 ^ 16 ∨ countLimit r.brilliance r.count.toNat = 0 := by
    rw [written_eq, Option.some_inj, BitVec.toNat_eq, scaleKadc_toNat hcount, BitVec.toNat_ofNat,
      Nat.mod_eq_of_lt hfit]
    exact threshold_eq_iff ..
  rw [hexact, packed_eq]
  refine and_iff_left ⟨⟨packLimit_count hcount, packLimit_limit hcount⟩, ?_⟩
  intro r' hbrilliance hkadc hle
  refine ⟨_, _, r.written_eq, r'.written_eq, ?_⟩
  have hcount' := r'.count_le
  rw [BitVec.le_def, scaleKadc_toNat hcount, scaleKadc_toNat hcount', hbrilliance, hkadc]
  exact Nat.div_le_div_right (Nat.mul_le_mul_right _ (countLimit_mono _ hle))

/-- The ADC count 16 for the interlock on an instrument that is no Brilliance, and a latch. -/
def sixteen (kadc : U32) : LatchRun .ilk where
  start := ⟨.boot (fun _ ↦ 0) ⟨0, 0, 0, 0, 0⟩ ⟨kadc, 5, 5, 0⟩, 0, .zero, .zero, .ddOpen⟩
  readl := fun _ ↦ 0
  limit := ⟨138, 16⟩
  limit_idx := rfl
  limit_accepted := by
    have hval : (16 : U32) ≤ adcMax (isBrilliance 0) := by decide
    rw [Driver.setCfg_limit (x := .ilk) _ _ rfl]
    exact congrArg Prod.snd (if_pos hval)
  ops := []
  ops_keep := List.forall_mem_nil _
  readl' := fun _ ↦ 0
  latch := ⟨140, 0⟩
  latch_idx := rfl
  latch_accepted := rfl

/-- The square of 65536 is 0 in 32 bits. -/
theorem sixteen_wraps : (sixteen 65536).written = some 0 ∧
    exactThreshold (sixteen 65536).brilliance (sixteen 65536).kadc.toNat
      (sixteen 65536).count.toNat = 4294 := by
  decide +kernel

theorem threshold_exact_thousand : (sixteen 1000).written = some 1 := by
  have hexact := ((threshold_exact_iff (sixteen 1000) (by decide +kernel)).mpr (.inl (by decide))).1
  exact hexact

end LatchRun

end LiberaBase
