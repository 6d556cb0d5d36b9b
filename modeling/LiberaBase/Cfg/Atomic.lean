import LiberaBase.Access.Divisions

/-!
# What one configuration request changes

A request sets at most the parameter it names, or fails and changes nothing.  Every index into
`param[]` is in bounds; in the loops that write out the filter coefficients it is the request that
bounds the number of coefficients, which the FPGA reports.
-/

namespace LiberaBase

/-! ## Blocks of coefficients -/

/-- Coefficients that are written to one register when the last of them is set. -/
structure CoeffBlock where
  first : ℕ
  count : ℕ
  reg : ℕ
  deriving DecidableEq

def coeffBlocks (numDfir : U32) : List CoeffBlock :=
  [⟨cfgNotch1, cfgNotchMax, faNotch1⟩, ⟨cfgNotch2, cfgNotchMax, faNotch2⟩,
    ⟨cfgPolyphaseFir, numDfir.toNat, faPolyphaseFir⟩]

def fifoRegisters : List ℕ := [faFifoReset, faNotch1, faNotch2, faPolyphaseFir]

def offsetRegisters : List ℕ := [faOffset, faOffset + 4]

/-- `param[idx]` is the last one of the block. -/
def CoeffBlock.Completes (b : CoeffBlock) (idx : ℕ) : Prop :=
  b.count ≠ 0 ∧ idx + 1 = b.first + b.count

/-- The reset of the fifo, and then the block. -/
def CoeffBlock.writes (b : CoeffBlock) (param : ℕ → U32) : List (ℕ × U32) :=
  (faFifoReset, 1) :: (List.range b.count).map fun i ↦ (b.reg, param (b.first + i))

namespace Driver

/-! ## Accesses to `param[]` -/

/-- `none` is an access out of bounds. -/
def paramC (s : Driver) (idx : ℕ) : Option U32 :=
  if idx < cfgParamsMax then some (s.param idx) else none

def setParamC (s : Driver) (idx : ℕ) (val : U32) : Option Driver :=
  if idx < cfgParamsMax then some (s.setParam idx val) else none

def setOverflowLimitC (s : Driver) (idx : ℕ) (val : U32) : Option (Driver × ℤ) :=
  let max : U32 := if isBrilliance s.lgbl.feature then 32767 else 2047
  if val ≤ max then do
    let adcCount := if isBrilliance s.lgbl.feature then val >>> 4 else val
    let square := adcCount * adcCount
    let s ← s.setParamC idx ((val <<< 16) ||| ((square >>> 8) &&& 0xffff#32))
    some (s, 0)
  else some (s, -EINVAL)

def latchIlkC (s : Driver) : Option Driver := do
  let overflowLimit := scaleKadc s.params.kadc (← s.paramC cfgIlkOverflowLimit)
  let attnSum := (← s.paramC cfgIlkGainLimit) &&& 0xffff#32
  let s := s.writel (← s.paramC cfgIlkXlow) ilkXlow
  let s := s.writel (← s.paramC cfgIlkXhigh) ilkXhigh
  let s := s.writel (← s.paramC cfgIlkYlow) ilkYlow
  let s := s.writel (← s.paramC cfgIlkYhigh) ilkYhigh
  let s := s.writel attnSum dscIlkGainLimit
  let s := s.writel overflowLimit dscIlkOverflowLimit
  let s := s.writel (← s.paramC cfgIlkOverflowDur) dscIlkOverflowDur
  some (s.writel (← s.paramC cfgIlkMode) ilkControl)

def latchPmC (s : Driver) (trigDelay : U32) : Option Driver := do
  let overflowLimit := scaleKadc s.params.kadc (← s.paramC cfgPmOverflowLimit)
  let mode ← s.paramC cfgPmMode
  let s := s.writel ((trigDelay &&& 0xFFFF3FFF#32) ||| ((mode &&& 3) <<< 14)) tTrigDelay
  let s := s.writel (← s.paramC cfgPmXlow) pmXlow
  let s := s.writel (← s.paramC cfgPmXhigh) pmXhigh
  let s := s.writel (← s.paramC cfgPmYlow) pmYlow
  let s := s.writel (← s.paramC cfgPmYhigh) pmYhigh
  let s := s.writel overflowLimit dscPmOverflowLimit
  some (s.writel (← s.paramC cfgPmOverflowDur) dscPmOverflowDur)

def writeCoefficientsC (s : Driver) (first count reg : ℕ) : Option Driver :=
  (List.range count).foldlM (fun t i ↦ do some (t.writel (← t.paramC (first + i)) reg))
    (s.writel 1 faFifoReset)

def setCoefficientC (s : Driver) (idx : ℕ) (val : U32) : Option Driver := do
  let s₁ ← s.setParamC idx val
  if idx = cfgNotch1 + cfgNotchMax - 1 then s₁.writeCoefficientsC cfgNotch1 cfgNotchMax faNotch1
  else if idx = cfgNotch2 + cfgNotchMax - 1 then
    s₁.writeCoefficientsC cfgNotch2 cfgNotchMax faNotch2
  else if BitVec.ofNat 32 idx = BitVec.ofNat 32 cfgPolyphaseFir + s.lgbl.numDfir - 1 then
    s₁.writeCoefficientsC cfgPolyphaseFir s.lgbl.numDfir.toNat faPolyphaseFir
  else some s₁

/-- `libera_cfg_set_specific` -/
def liberaCfgSetSpecificC (readl : ℕ → U32) (s : Driver) (req : CfgRequest) :
    Option (Driver × ℤ) :=
  let idx := req.idx.toNat
  let done (s : Driver) : Option (Driver × ℤ) := some (s, 0)
  if idx = cfgXoffset then do
    let s ← s.setParamC idx req.val
    done (s.writel (req.val + (← s.paramC cfgBcdXoffset)) faOffset)
  else if idx = cfgYoffset then do
    let s ← s.setParamC idx req.val
    done (s.writel (req.val + (← s.paramC cfgBcdYoffset)) (faOffset + 4))
  else if idx = cfgQoffset ∨ idx = cfgKx ∨ idx = cfgKy then do
    let s ← s.setParamC idx req.val
    done (s.writel (← s.paramC idx) (faOffset + (idx - cfgCustomFirst) * 4))
  else if idx ∈ [cfgIlkXlow, cfgIlkXhigh, cfgIlkYlow, cfgIlkYhigh, cfgIlkMode, cfgPmMode,
      cfgPmXlow, cfgPmXhigh, cfgPmYlow, cfgPmYhigh] then do done (← s.setParamC idx req.val)
  else if idx = cfgPmOverflowLimit ∨ idx = cfgIlkOverflowLimit then s.setOverflowLimitC idx req.val
  else if idx = cfgIlkOverflowDur then
    if req.val ≤ s.params.ilkdur ∧ req.val ≤ maxdur then do done (← s.setParamC idx req.val)
    else some (s, -EINVAL)
  else if idx = cfgIlkGainLimit then do
    let s ← s.setParamC idx req.val
    done (← s.latchIlkC)
  else if idx = cfgIlkstatus then do done (← s.setParamC idx 0)
  else if idx = cfgPmoffset ∨ idx = cfgPmdec then do done (← s.setParamC idx req.val)
  else if idx = cfgExtswitch then do
    let source := readl dscSwSource
    let source := if req.val ≠ 0 then source ||| 0x80000000#32 else source &&& ~~~0x80000000#32
    done (← (s.writel source dscSwSource).setParamC idx req.val)
  else if idx = cfgSwdelay then do
    let s ← s.setParamC idx req.val
    done (s.writel (← s.paramC idx) dscSwDelay)
  else if idx = cfgDdcMaflength then done (s.writel req.val ddcMafLength)
  else if idx = cfgDdcMafdelay then done (s.writel req.val ddcMafDelay)
  else if idx = cfgTrigdelay then do
    let s ← s.setParamC idx req.val
    let val := (readl tTrigDelay &&& 0xc000ffff#32) ||| ((req.val &&& 0x3fff#32) <<< 16)
    done (s.writel val tTrigDelay)
  else if idx = cfgPmOverflowDur then
    if req.val ≤ s.params.pmdur ∧ req.val ≤ maxdur then do
      let s ← s.setParamC idx req.val
      let s ← s.latchPmC (readl tTrigDelay)
      done { s with cfg := { s.cfg with pmFreezed := false } }
    else some (s, -EINVAL)
  else if idx = cfgSrEnable then do
    done ((← s.setParamC idx req.val).writel req.val faEnable)
  else if idx = cfgSrCspiEnable then do done (← s.setParamC idx req.val)
  else if idx = cfgSrAveragingStop then do
    done ((← s.setParamC idx req.val).writel (req.val &&& 0x1F#32) faAveStop)
  else if idx = cfgSrAverageWindow then do
    done ((← s.setParamC idx req.val).writel (req.val &&& 0x1F#32) faAveWin)
  else if idx = cfgSrStart then do
    done ((← s.setParamC idx req.val).writel (req.val &&& 0x1F#32) faStart)
  else if idx = cfgSrWindow then do
    done ((← s.setParamC idx req.val).writel (req.val &&& 0x7F#32) faWindow)
  else if idx = cfgSpThreshold ∨ idx = cfgSpNBefore ∨ idx = cfgSpNAfter then do
    done (← s.setParamC idx req.val)
  else if cfgCoeff ≤ idx ∧ idx < cfgPolyphaseFir + cfgFirMax then do
    done (← s.setCoefficientC idx req.val)
  else some (s, -EINVAL)

/-- `LIBERA_IOC_SET_CFG` of `libera_cfg_cmd`. -/
def liberaIocSetCfgC (readl : ℕ → U32) (s : Driver) (req : CfgRequest) : Option (Driver × ℤ) :=
  if cfgParamsMax ≤ req.idx.toNat then some (s, -EINVAL)
  else if req.idx.toNat = cfgMcpll ∨ req.idx.toNat = cfgScpll then some (s, -EINVAL)
  else
    let set := if req.idx.toNat = cfgTrigmode then
        (s.setParamC req.idx.toNat req.val).map fun s ↦ (s, 0)
      else s.liberaCfgSetSpecificC readl req
    set.map fun set ↦
      if set.2 ≠ 0 then set else (set.1.liberaSendEvent liberaEventCfg req.idx, 0)

/-! ## No access is out of bounds -/

variable {s t : Driver} {readl : ℕ → U32} {req : CfgRequest} {idx : ℕ}

theorem paramC_eq (s : Driver) (hidx : idx < cfgParamsMax) : s.paramC idx = some (s.param idx) :=
  if_pos hidx

theorem setParamC_eq (s : Driver) (hidx : idx < cfgParamsMax) (val : U32) :
    s.setParamC idx val = some (s.setParam idx val) :=
  if_pos hidx

@[simp] theorem param_setParam_self (s : Driver) (idx : ℕ) (val : U32) :
    (s.setParam idx val).param idx = val :=
  Function.update_self ..

theorem param_setParam_of_ne {other : ℕ} (hne : other ≠ idx) (val : U32) :
    (s.setParam idx val).param other = s.param other :=
  Function.update_of_ne hne ..

theorem some_ite {α : Type*} {c : Prop} [Decidable c] {a b : α} {x y : Option α}
    (ha : c → x = some a) (hb : ¬c → y = some b) :
    (if c then x else y) = some (if c then a else b) := by
  by_cases h : c
  · rw [if_pos h, if_pos h, ha h]
  · rw [if_neg h, if_neg h, hb h]

theorem setOverflowLimitC_eq (hidx : idx < cfgParamsMax) (val : U32) :
    s.setOverflowLimitC idx val = some (s.setOverflowLimit idx val) := by
  unfold setOverflowLimitC setOverflowLimit
  refine some_ite (fun _ ↦ ?_) fun _ ↦ rfl
  dsimp only
  rw [setParamC_eq s hidx]
  rfl

theorem writeCoefficientsC_eq {first count : ℕ} (hcount : first + count ≤ cfgParamsMax) (reg : ℕ) :
    s.writeCoefficientsC first count reg = some (s.writeCoefficients first count reg) := by
  unfold writeCoefficientsC writeCoefficients
  induction count with
  | zero => rfl
  | succ count ih =>
      have hlast : first + count < cfgParamsMax := hcount
      rw [List.range_succ, List.foldlM_append, ih hlast.le, List.foldl_append]
      dsimp only [Option.bind_eq_bind, Option.bind_some]
      rw [List.foldlM_cons, paramC_eq _ hlast]
      rfl

/-- The number of coefficients that the FPGA reports is a multiple of 3 that fits in 18 bits. -/
theorem numDfir_lt (r : InitRegisters) : r.lgbl.numDfir.toNat < 2 ^ 18 := by
  have hmod : (r.cicFir % 65536).toNat < 65536 := Nat.mod_lt _ (by decide)
  show (r.cicFir % 65536).toNat * 3 % 2 ^ 32 < 2 ^ 18
  rw [Nat.mod_eq_of_lt (by omega)]
  omega

/-- What completes the coefficients of the polyphase filter. -/
theorem polyphase_last (r : InitRegisters) (hidx : idx < cfgParamsMax) :
    BitVec.ofNat 32 idx = BitVec.ofNat 32 cfgPolyphaseFir + r.lgbl.numDfir - 1 ↔
      idx + 1 = cfgPolyphaseFir + r.lgbl.numDfir.toNat := by
  have hfew := numDfir_lt r
  have hidx' : idx < 512 := hidx
  have hfir : cfgPolyphaseFir = 266 := rfl
  rw [BitVec.toNat_eq, BitVec.toNat_sub, BitVec.toNat_add, BitVec.toNat_ofNat, BitVec.toNat_ofNat,
    show (1 : U32).toNat = 1 from rfl, hfir]
  omega

theorem setCoefficientC_eq (r : InitRegisters) (hfir : s.lgbl.numDfir = r.lgbl.numDfir)
    (hidx : idx < cfgPolyphaseFir + cfgFirMax) (val : U32) :
    s.setCoefficientC idx val = some (s.setCoefficient idx val) := by
  have hlt : idx < cfgParamsMax := Nat.lt_of_lt_of_le hidx (by decide)
  unfold setCoefficientC setCoefficient
  rw [setParamC_eq s hlt, Option.bind_eq_bind, Option.bind_some]
  refine some_ite (fun _ ↦ writeCoefficientsC_eq (by decide) _) fun _ ↦ ?_
  refine some_ite (fun _ ↦ writeCoefficientsC_eq (by decide) _) fun _ ↦ ?_
  refine some_ite (fun hlast ↦ writeCoefficientsC_eq ?_ _) fun _ ↦ rfl
  -- the index is below the end of the coefficients, and it is the last one
  rw [hfir, polyphase_last r hlt] at hlast
  rw [hfir, ← hlast]
  exact hlt

theorem setSpecificC_eq (r : InitRegisters) (hfir : s.lgbl.numDfir = r.lgbl.numDfir)
    (hidx : req.idx.toNat < cfgParamsMax) :
    s.liberaCfgSetSpecificC readl req = some (s.liberaCfgSetSpecific readl req) := by
  have hset (s : Driver) (val : U32) := s.setParamC_eq hidx val
  have hparam (s : Driver) := s.paramC_eq hidx
  unfold liberaCfgSetSpecificC liberaCfgSetSpecific
  simp only [hset, hparam, Option.bind_eq_bind, Option.bind_some]
  refine some_ite (fun _ ↦ rfl) fun _ ↦ ?_
  refine some_ite (fun _ ↦ rfl) fun _ ↦ ?_
  refine some_ite (fun _ ↦ ?_) fun _ ↦ ?_
  · rw [param_setParam_self]
  refine some_ite (fun _ ↦ rfl) fun _ ↦ ?_
  refine some_ite (fun _ ↦ setOverflowLimitC_eq hidx _) fun _ ↦ ?_
  refine some_ite (fun _ ↦ some_ite (fun _ ↦ rfl) fun _ ↦ rfl) fun _ ↦ ?_
  refine some_ite (fun _ ↦ rfl) fun _ ↦ ?_
  refine some_ite (fun _ ↦ rfl) fun _ ↦ ?_
  refine some_ite (fun _ ↦ rfl) fun _ ↦ ?_
  refine some_ite (fun _ ↦ rfl) fun _ ↦ ?_
  refine some_ite (fun _ ↦ ?_) fun _ ↦ ?_
  · rw [param_setParam_self]
  refine some_ite (fun _ ↦ rfl) fun _ ↦ ?_
  refine some_ite (fun _ ↦ rfl) fun _ ↦ ?_
  refine some_ite (fun _ ↦ rfl) fun _ ↦ ?_
  refine some_ite (fun _ ↦ some_ite (fun _ ↦ rfl) fun _ ↦ rfl) fun _ ↦ ?_
  refine some_ite (fun _ ↦ rfl) fun _ ↦ ?_
  refine some_ite (fun _ ↦ rfl) fun _ ↦ ?_
  refine some_ite (fun _ ↦ rfl) fun _ ↦ ?_
  refine some_ite (fun _ ↦ rfl) fun _ ↦ ?_
  refine some_ite (fun _ ↦ rfl) fun _ ↦ ?_
  refine some_ite (fun _ ↦ rfl) fun _ ↦ ?_
  refine some_ite (fun _ ↦ rfl) fun _ ↦ ?_
  refine some_ite (fun hcoeff ↦ ?_) fun _ ↦ rfl
  rw [setCoefficientC_eq r hfir hcoeff.2]
  rfl

theorem liberaIocSetCfgC_eq (readl : ℕ → U32) (req : CfgRequest) (r : InitRegisters)
    (hfir : s.lgbl.numDfir = r.lgbl.numDfir) :
    s.liberaIocSetCfgC readl req = some (s.liberaIocSetCfg readl req) := by
  unfold liberaIocSetCfgC liberaIocSetCfg
  refine some_ite (fun _ ↦ rfl) fun hmax ↦ ?_
  refine some_ite (fun _ ↦ rfl) fun _ ↦ ?_
  have hidx : req.idx.toNat < cfgParamsMax := not_le.mp hmax
  dsimp only
  rw [setParamC_eq s hidx, setSpecificC_eq r hfir hidx, Option.map_some, ← apply_ite some]
  rfl

/-! ## The filter coefficients -/

theorem writeCoefficients_eq (s : Driver) (b : CoeffBlock) :
    s.writeCoefficients b.first b.count b.reg =
      { s with writes := s.writes ++ b.writes s.param } := by
  obtain ⟨first, count, reg⟩ := b
  unfold writeCoefficients CoeffBlock.writes
  dsimp only
  induction count with
  | zero => rfl
  | succ count ih =>
      rw [List.range_succ, List.foldl_append, ih, List.map_append]
      simp [writel, param]

theorem setCoefficient_completes (r : InitRegisters) (hfir : s.lgbl.numDfir = r.lgbl.numDfir)
    (hidx : idx < cfgParamsMax) {b : CoeffBlock} (hb : b ∈ coeffBlocks s.lgbl.numDfir)
    (hlast : b.Completes idx) (val : U32) :
    s.setCoefficient idx val =
      (s.setParam idx val).writeCoefficients b.first b.count b.reg := by
  obtain ⟨hcount, hend⟩ := hlast
  unfold setCoefficient
  rcases List.mem_cons.mp hb with rfl | hb
  · exact if_pos (Nat.succ.inj hend)
  rcases List.mem_cons.mp hb with rfl | hb
  · obtain rfl : idx = 265 := Nat.succ.inj hend
    rw [if_neg (by decide)]
    exact if_pos rfl
  · obtain rfl := List.mem_singleton.mp hb
    have hsome : s.lgbl.numDfir.toNat ≠ 0 := hcount
    have hidx' : idx + 1 = 266 + s.lgbl.numDfir.toNat := hend
    have hnotch1 : idx ≠ cfgNotch1 + cfgNotchMax - 1 := fun heq ↦ by
      have heq' : idx = 260 := heq
      omega
    have hnotch2 : idx ≠ cfgNotch2 + cfgNotchMax - 1 := fun heq ↦ by
      have heq' : idx = 265 := heq
      omega
    rw [if_neg hnotch1, if_neg hnotch2]
    refine if_pos ?_
    rw [hfir] at hend ⊢
    exact (polyphase_last r hidx).mpr hend

theorem setCoefficient_of_not (r : InitRegisters) (hfir : s.lgbl.numDfir = r.lgbl.numDfir)
    (hidx : idx < cfgParamsMax) (h : ∀ b ∈ coeffBlocks s.lgbl.numDfir, ¬b.Completes idx)
    (val : U32) : s.setCoefficient idx val = s.setParam idx val := by
  have hnotch1 : idx ≠ cfgNotch1 + cfgNotchMax - 1 :=
    fun heq ↦ h _ List.mem_cons_self ⟨by decide, by rw [heq]; rfl⟩
  have hnotch2 : idx ≠ cfgNotch2 + cfgNotchMax - 1 :=
    fun heq ↦ h _ (List.mem_cons_of_mem _ List.mem_cons_self) ⟨by decide, by rw [heq]; rfl⟩
  have hfir' : idx + 1 ≠ cfgPolyphaseFir + s.lgbl.numDfir.toNat := by
    intro heq
    refine h ⟨cfgPolyphaseFir, s.lgbl.numDfir.toNat, faPolyphaseFir⟩
      (List.mem_cons_of_mem _ (List.mem_cons_of_mem _ List.mem_cons_self)) ⟨?_, heq⟩
    rintro (hzero : s.lgbl.numDfir.toNat = 0)
    rw [hzero] at heq
    exact hnotch2 (Nat.succ.inj heq)
  unfold setCoefficient
  rw [if_neg hnotch1, if_neg hnotch2, if_neg]
  rw [hfir, polyphase_last r hidx, ← hfir]
  exact hfir'

/-! ## Which parameter and which registers a request changes -/

/-- At most `param[idx]` is set, and no write goes to one of the registers in `away`. -/
def SetsAt (s : Driver) (idx : ℕ) (away : List ℕ) (t : Driver) : Prop :=
  ∃ val frozen writes, (∀ w ∈ writes, w.1 ∉ away) ∧
    t = { s with
      cfg := ⟨Function.update s.cfg.param idx val, frozen⟩
      writes := s.writes ++ writes }

/-- The request fails and changes nothing, or it returns 0. -/
def Confined (s : Driver) (idx : ℕ) (away : List ℕ) (r : Driver × ℤ) : Prop :=
  r = (s, -EINVAL) ∨ r.2 = 0 ∧ SetsAt s idx away r.1

variable {away : List ℕ}

theorem setsAt_setParam (s : Driver) (idx : ℕ) (val : U32) (away : List ℕ) :
    SetsAt s idx away (s.setParam idx val) :=
  ⟨val, s.cfg.pmFreezed, [], List.forall_mem_nil _, by rw [List.append_nil]; rfl⟩

theorem SetsAt.refl (s : Driver) (idx : ℕ) (away : List ℕ) : SetsAt s idx away s := by
  refine ⟨s.cfg.param idx, s.cfg.pmFreezed, [], List.forall_mem_nil _, ?_⟩
  rw [Function.update_eq_self, List.append_nil]

theorem SetsAt.writel {addr : ℕ} (h : SetsAt s idx away t) (haddr : addr ∉ away) (val : U32) :
    SetsAt s idx away (t.writel val addr) := by
  obtain ⟨v, frozen, writes, haway, rfl⟩ := h
  refine ⟨v, frozen, writes ++ [(addr, val)], ?_, ?_⟩
  · intro w hw
    rcases List.mem_append.mp hw with hw | hw
    · exact haway w hw
    · rw [List.mem_singleton.mp hw]
      exact haddr
  · rw [Driver.writel, List.append_assoc]

theorem SetsAt.setParam (h : SetsAt s idx away t) (val : U32) :
    SetsAt s idx away (t.setParam idx val) := by
  obtain ⟨v, frozen, writes, haway, rfl⟩ := h
  refine ⟨val, frozen, writes, haway, ?_⟩
  rw [Driver.setParam, Function.update_idem]

theorem SetsAt.thaw (h : SetsAt s idx away t) :
    SetsAt s idx away { t with cfg := { t.cfg with pmFreezed := false } } := by
  obtain ⟨v, frozen, writes, haway, rfl⟩ := h
  exact ⟨v, false, writes, haway, rfl⟩

theorem reg_mem_fifoRegisters {b : CoeffBlock} {numDfir : U32} (hb : b ∈ coeffBlocks numDfir) :
    b.reg ∈ fifoRegisters := by
  have hregs : (coeffBlocks numDfir).map CoeffBlock.reg ⊆ fifoRegisters := by
    show [faNotch1, faNotch2, faPolyphaseFir] ⊆ fifoRegisters
    decide
  exact hregs (List.mem_map_of_mem hb)

theorem SetsAt.writeCoefficients (h : SetsAt s idx away t) (b : CoeffBlock)
    (hreset : faFifoReset ∉ away) (hreg : b.reg ∉ away) :
    SetsAt s idx away (t.writeCoefficients b.first b.count b.reg) := by
  obtain ⟨v, frozen, writes, haway, rfl⟩ := h
  rw [writeCoefficients_eq]
  refine ⟨v, frozen, writes ++ b.writes _, ?_, by rw [List.append_assoc]⟩
  intro w hw
  rcases List.mem_append.mp hw with hw | hw
  · exact haway w hw
  rcases List.mem_cons.mp hw with rfl | hw
  · exact hreset
  · obtain ⟨i, -, rfl⟩ := List.mem_map.mp hw
    exact hreg

theorem SetsAt.latchIlk (h : SetsAt s idx away t)
    (haway : ∀ a ∈ away, a ∈ offsetRegisters ++ fifoRegisters) : SetsAt s idx away t.latchIlk := by
  have hother {addr : ℕ} (h : addr ∉ offsetRegisters ++ fifoRegisters) : addr ∉ away :=
    mt (haway addr) h
  exact (((((((h.writel (hother (by decide)) _).writel (hother (by decide)) _).writel
    (hother (by decide)) _).writel (hother (by decide)) _).writel (hother (by decide)) _).writel
    (hother (by decide)) _).writel (hother (by decide)) _).writel (hother (by decide)) _

theorem SetsAt.latchPm (h : SetsAt s idx away t)
    (haway : ∀ a ∈ away, a ∈ offsetRegisters ++ fifoRegisters) (trigDelay : U32) :
    SetsAt s idx away (t.latchPm trigDelay) := by
  have hother {addr : ℕ} (h : addr ∉ offsetRegisters ++ fifoRegisters) : addr ∉ away :=
    mt (haway addr) h
  exact ((((((h.writel (hother (by decide)) _).writel (hother (by decide)) _).writel
    (hother (by decide)) _).writel (hother (by decide)) _).writel (hother (by decide)) _).writel
    (hother (by decide)) _).writel (hother (by decide)) _

theorem Confined.done (h : SetsAt s idx away t) : Confined s idx away (t, 0) := .inr ⟨rfl, h⟩

theorem Confined.refused (s : Driver) (idx : ℕ) (away : List ℕ) :
    Confined s idx away (s, -EINVAL) := .inl rfl

theorem Confined.ite {c : Prop} [Decidable c] {a b : Driver × ℤ}
    (ha : c → Confined s idx away a) (hb : ¬c → Confined s idx away b) :
    Confined s idx away (if c then a else b) := by
  by_cases h : c
  · rw [if_pos h]
    exact ha h
  · rw [if_neg h]
    exact hb h

theorem confined_setOverflowLimit (s : Driver) (idx : ℕ) (val : U32) (away : List ℕ) :
    Confined s idx away (s.setOverflowLimit idx val) := by
  unfold setOverflowLimit
  extract_lets max adcCount square
  exact .ite (fun _ ↦ .done (setsAt_setParam ..)) fun _ ↦ .refused ..

theorem setsAt_setCoefficient (s : Driver) (idx : ℕ) (val : U32)
    (haway : ∀ a ∈ fifoRegisters, a ∉ away) : SetsAt s idx away (s.setCoefficient idx val) := by
  have hset := setsAt_setParam s idx val away
  have hblock (b : CoeffBlock) (hb : b ∈ coeffBlocks s.lgbl.numDfir) :=
    hset.writeCoefficients b (haway _ (by decide)) (haway _ (reg_mem_fifoRegisters hb))
  unfold setCoefficient
  extract_lets s₁
  split_ifs
  · exact hblock _ List.mem_cons_self
  · exact hblock _ (List.mem_cons_of_mem _ List.mem_cons_self)
  · exact hblock _ (List.mem_cons_of_mem _ (List.mem_cons_of_mem _ List.mem_cons_self))
  · exact hset

theorem setsAt_incomplete (r : InitRegisters) (hfir : s.lgbl.numDfir = r.lgbl.numDfir)
    (hidx : idx < cfgParamsMax) (h : ∀ b ∈ coeffBlocks s.lgbl.numDfir, ¬b.Completes idx)
    (val : U32) (away : List ℕ) : SetsAt s idx away (s.setCoefficient idx val) := by
  rw [setCoefficient_of_not r hfir hidx h]
  exact setsAt_setParam ..

/-- The registers of the position offsets and of the filters are written by requests for them. -/
theorem confined_setSpecific (readl : ℕ → U32)
    (haway : ∀ a ∈ away, a ∈ offsetRegisters ++ fifoRegisters)
    (hx : req.idx.toNat = cfgXoffset → faOffset ∉ away)
    (hy : req.idx.toNat = cfgYoffset → faOffset + 4 ∉ away)
    (hcoeff : SetsAt s req.idx.toNat away (s.setCoefficient req.idx.toNat req.val)) :
    Confined s req.idx.toNat away (s.liberaCfgSetSpecific readl req) := by
  have hset := setsAt_setParam s req.idx.toNat req.val away
  have hother {addr : ℕ} (h : addr ∉ offsetRegisters ++ fifoRegisters) : addr ∉ away :=
    mt (haway addr) h
  unfold liberaCfgSetSpecific
  extract_lets idx mirrored source source' val s₁
  refine .ite (fun hidx ↦ .done (hset.writel (hx hidx) _)) fun _ ↦ ?_
  refine .ite (fun hidx ↦ .done (hset.writel (hy hidx) _)) fun _ ↦ ?_
  refine .ite (fun hidx ↦ .done (hset.writel (hother ?_) _)) fun _ ↦ ?_
  · rcases hidx with hidx | hidx | hidx <;> rw [hidx] <;> decide
  refine .ite (fun _ ↦ .done hset) fun _ ↦ ?_
  refine .ite (fun _ ↦ confined_setOverflowLimit ..) fun _ ↦ ?_
  refine .ite (fun _ ↦ .ite (fun _ ↦ .done hset) fun _ ↦ .refused ..) fun _ ↦ ?_
  refine .ite (fun _ ↦ .done (hset.latchIlk haway)) fun _ ↦ ?_
  refine .ite (fun _ ↦ .done (setsAt_setParam ..)) fun _ ↦ ?_
  refine .ite (fun _ ↦ .done hset) fun _ ↦ ?_
  refine .ite (fun _ ↦ ?_) fun _ ↦ ?_
  · exact .done (((SetsAt.refl ..).writel (hother (by decide)) _).setParam _)
  refine .ite (fun _ ↦ .done (hset.writel (hother (by decide)) _)) fun _ ↦ ?_
  refine .ite (fun _ ↦ .done ((SetsAt.refl ..).writel (hother (by decide)) _)) fun _ ↦ ?_
  refine .ite (fun _ ↦ .done ((SetsAt.refl ..).writel (hother (by decide)) _)) fun _ ↦ ?_
  refine .ite (fun _ ↦ .done (hset.writel (hother (by decide)) _)) fun _ ↦ ?_
  refine .ite (fun _ ↦ .ite (fun _ ↦ .done (hset.latchPm haway _).thaw) fun _ ↦ .refused ..)
    fun _ ↦ ?_
  refine .ite (fun _ ↦ .done (hset.writel (hother (by decide)) _)) fun _ ↦ ?_
  refine .ite (fun _ ↦ .done hset) fun _ ↦ ?_
  refine .ite (fun _ ↦ .done (hset.writel (hother (by decide)) _)) fun _ ↦ ?_
  refine .ite (fun _ ↦ .done (hset.writel (hother (by decide)) _)) fun _ ↦ ?_
  refine .ite (fun _ ↦ .done (hset.writel (hother (by decide)) _)) fun _ ↦ ?_
  refine .ite (fun _ ↦ .done (hset.writel (hother (by decide)) _)) fun _ ↦ ?_
  refine .ite (fun _ ↦ .done hset) fun _ ↦ ?_
  exact .ite (fun _ ↦ .done hcoeff) fun _ ↦ .refused ..

/-! ## Requests -/

theorem setSpecific_coeff (readl : ℕ → U32) (s : Driver) (hcoeff : cfgCoeff ≤ req.idx.toNat) :
    s.liberaCfgSetSpecific readl req =
      if req.idx.toNat < cfgPolyphaseFir + cfgFirMax then
        (s.setCoefficient req.idx.toNat req.val, 0)
      else (s, -EINVAL) := by
  have hne {k : ℕ} (hk : k < 256) : req.idx.toNat ≠ k :=
    fun heq ↦ absurd (heq ▸ hcoeff) (Nat.not_le.mpr hk)
  unfold liberaCfgSetSpecific
  extract_lets idx mirrored source source' val s₁
  have hlist : idx ∉ [cfgIlkXlow, cfgIlkXhigh, cfgIlkYlow, cfgIlkYhigh, cfgIlkMode, cfgPmMode,
      cfgPmXlow, cfgPmXhigh, cfgPmYlow, cfgPmYhigh] := by
    intro hmem
    have hlow : ∀ k ∈ [cfgIlkXlow, cfgIlkXhigh, cfgIlkYlow, cfgIlkYhigh, cfgIlkMode, cfgPmMode,
        cfgPmXlow, cfgPmXhigh, cfgPmYlow, cfgPmYhigh], k < 256 := by decide
    exact hne (hlow _ hmem) rfl
  have htwo {k l : ℕ} (hk : k < 256) (hl : l < 256) : ¬(idx = k ∨ idx = l) :=
    not_or.mpr ⟨hne hk, hne hl⟩
  have hthree {k l m : ℕ} (hk : k < 256) (hl : l < 256) (hm : m < 256) :
      ¬(idx = k ∨ idx = l ∨ idx = m) :=
    not_or.mpr ⟨hne hk, htwo hl hm⟩
  rw [if_neg (hne (by decide)), if_neg (hne (by decide)),
    if_neg (hthree (by decide) (by decide) (by decide)), if_neg hlist,
    if_neg (htwo (by decide) (by decide)), if_neg (hne (by decide)), if_neg (hne (by decide)),
    if_neg (hne (by decide)), if_neg (htwo (by decide) (by decide)), if_neg (hne (by decide)),
    if_neg (hne (by decide)), if_neg (hne (by decide)), if_neg (hne (by decide)),
    if_neg (hne (by decide)), if_neg (hne (by decide)), if_neg (hne (by decide)),
    if_neg (hne (by decide)), if_neg (hne (by decide)), if_neg (hne (by decide)),
    if_neg (hne (by decide)), if_neg (hne (by decide)),
    if_neg (hthree (by decide) (by decide) (by decide))]
  exact if_congr (and_iff_right hcoeff) rfl rfl

/-- What a request returns, and what it does before it sends the event. -/
theorem liberaIocSetCfg_cases (readl : ℕ → U32) (s : Driver) (req : CfgRequest) :
    (cfgParamsMax ≤ req.idx.toNat ∨ req.idx.toNat = cfgMcpll ∨ req.idx.toNat = cfgScpll) ∧
        s.liberaIocSetCfg readl req = (s, -EINVAL) ∨
      req.idx.toNat < cfgParamsMax ∧
        ((req.idx.toNat = cfgTrigmode ∧ s.liberaIocSetCfg readl req =
            ((s.setParam req.idx.toNat req.val).liberaSendEvent liberaEventCfg req.idx, 0)) ∨
          s.liberaIocSetCfg readl req =
            let set := s.liberaCfgSetSpecific readl req
            if set.2 ≠ 0 then set else (set.1.liberaSendEvent liberaEventCfg req.idx, 0)) := by
  unfold liberaIocSetCfg
  by_cases hmax : cfgParamsMax ≤ req.idx.toNat
  · exact .inl ⟨.inl hmax, if_pos hmax⟩
  rw [if_neg hmax]
  by_cases hpll : req.idx.toNat = cfgMcpll ∨ req.idx.toNat = cfgScpll
  · exact .inl ⟨.inr hpll, if_pos hpll⟩
  rw [if_neg hpll]
  refine .inr ⟨Nat.lt_of_not_le hmax, ?_⟩
  by_cases hmode : req.idx.toNat = cfgTrigmode
  · refine .inl ⟨hmode, ?_⟩
    rw [if_pos hmode]
    rfl
  · rw [if_neg hmode]
    exact .inr rfl

theorem liberaIocSetCfg_specific (readl : ℕ → U32) (s : Driver)
    (hfirst : cfgCustomFirst ≤ req.idx.toNat) (hmax : req.idx.toNat < cfgParamsMax) :
    s.liberaIocSetCfg readl req =
      let set := s.liberaCfgSetSpecific readl req
      if set.2 ≠ 0 then set else (set.1.liberaSendEvent liberaEventCfg req.idx, 0) := by
  rcases liberaIocSetCfg_cases readl s req with ⟨hother | hother | hother, -⟩ | ⟨-, ⟨hother, -⟩ | h⟩
  · exact absurd hmax (Nat.not_lt.mpr hother)
  · exact absurd (hother ▸ hfirst) (by decide)
  · exact absurd (hother ▸ hfirst) (by decide)
  · exact absurd (hother ▸ hfirst) (by decide)
  · exact h

theorem confined_liberaIocSetCfg (readl : ℕ → U32)
    (haway : ∀ a ∈ away, a ∈ offsetRegisters ++ fifoRegisters)
    (hx : req.idx.toNat = cfgXoffset → faOffset ∉ away)
    (hy : req.idx.toNat = cfgYoffset → faOffset + 4 ∉ away)
    (hcoeff : req.idx.toNat < cfgParamsMax →
      SetsAt s req.idx.toNat away (s.setCoefficient req.idx.toNat req.val)) :
    s.liberaIocSetCfg readl req = (s, -EINVAL) ∨ ∃ t, SetsAt s req.idx.toNat away t ∧
      s.liberaIocSetCfg readl req = (t.liberaSendEvent liberaEventCfg req.idx, 0) := by
  rcases liberaIocSetCfg_cases readl s req with ⟨-, h⟩ | ⟨hidx, ⟨-, h⟩ | h⟩
  · exact .inl h
  · exact .inr ⟨_, setsAt_setParam .., h⟩
  · rw [h]
    rcases confined_setSpecific readl haway hx hy (hcoeff hidx) with hset | ⟨hret, hset⟩
    · rw [hset]
      exact .inl (if_pos (neg_ne_zero.mpr (by decide)))
    · exact .inr ⟨_, hset, if_neg (not_not.mpr hret)⟩

theorem setCfg_completes (readl : ℕ → U32) (r : InitRegisters)
    (hfir : s.lgbl.numDfir = r.lgbl.numDfir) {b : CoeffBlock}
    (hb : b ∈ coeffBlocks s.lgbl.numDfir) (hlast : b.Completes req.idx.toNat) :
    s.liberaIocSetCfg readl req = (s, -EINVAL) ∨ s.liberaIocSetCfg readl req =
      (((s.setParam req.idx.toNat req.val).writeCoefficients b.first b.count b.reg).liberaSendEvent
        liberaEventCfg req.idx, 0) := by
  have hfirst : ∀ b ∈ coeffBlocks s.lgbl.numDfir, cfgCoeff ≤ b.first := by
    intro b hb
    have hfirsts : ∀ first ∈ [cfgNotch1, cfgNotch2, cfgPolyphaseFir], cfgCoeff ≤ first := by decide
    exact hfirsts _ (List.mem_map_of_mem (f := CoeffBlock.first) hb)
  have hcoeff : cfgCoeff ≤ req.idx.toNat := by
    have hlow := hfirst b hb
    obtain ⟨hcount, hend⟩ := hlast
    omega
  rcases liberaIocSetCfg_cases readl s req with ⟨-, h⟩ | ⟨hidx, ⟨hmode, -⟩ | h⟩
  · exact .inl h
  · exact absurd (hmode ▸ hcoeff) (by decide)
  · rw [h, setSpecific_coeff readl s hcoeff]
    by_cases hlt : req.idx.toNat < cfgPolyphaseFir + cfgFirMax
    · rw [if_pos hlt, setCoefficient_completes r hfir hidx hb hlast]
      exact .inr (if_neg (by simp))
    · rw [if_neg hlt]
      exact .inl (if_pos (neg_ne_zero.mpr (by decide)))

theorem liberaSendEvent_frame (s : Driver) (id param : U32) :
    (s.liberaSendEvent id param).cfg = s.cfg ∧ (s.liberaSendEvent id param).writes = s.writes := by
  obtain ⟨events, h⟩ := liberaSendEvent_eq s id param
  rw [h]
  exact ⟨rfl, rfl⟩

/-- The event shows in neither. -/
theorem liberaSendEvent_congr {id param : U32}
    (h : s.liberaSendEvent id param = t.liberaSendEvent id param) :
    s.cfg = t.cfg ∧ s.writes = t.writes := by
  obtain ⟨hcfg, hwrites⟩ := liberaSendEvent_frame s id param
  obtain ⟨hcfg', hwrites'⟩ := liberaSendEvent_frame t id param
  rw [← hcfg, ← hwrites, h]
  exact ⟨hcfg', hwrites'⟩

theorem param_liberaIocSetCfg_of_ne (readl : ℕ → U32) (s : Driver) (hne : idx ≠ req.idx.toNat) :
    (s.liberaIocSetCfg readl req).1.param idx = s.param idx := by
  rcases confined_liberaIocSetCfg (s := s) readl (List.forall_mem_nil _)
    (fun _ ↦ List.not_mem_nil) (fun _ ↦ List.not_mem_nil)
    (fun _ ↦ setsAt_setCoefficient _ _ _ fun _ _ ↦ List.not_mem_nil) with h | ⟨u, hset, h⟩
  · rw [h]
  · obtain ⟨val, frozen, writes, -, rfl⟩ := hset
    rw [h, param, (liberaSendEvent_frame ..).1]
    exact Function.update_of_ne hne ..

/-- What was written by the request that completes a block. -/
theorem writes_of_completes (r : InitRegisters) (hfir : s.lgbl.numDfir = r.lgbl.numDfir)
    {b : CoeffBlock} (hb : b ∈ coeffBlocks s.lgbl.numDfir) (hlast : b.Completes req.idx.toNat)
    (h : s.liberaIocSetCfg readl req = (t.liberaSendEvent liberaEventCfg req.idx, 0)) :
    t.writes = s.writes ++ b.writes (t.liberaSendEvent liberaEventCfg req.idx).param := by
  rcases setCfg_completes readl r hfir hb hlast with h' | h'
  · exact absurd (congrArg Prod.snd (h.symm.trans h')) (neg_ne_zero.mpr (by decide)).symm
  · obtain ⟨hcfg, hwrites⟩ := liberaSendEvent_congr (congrArg Prod.fst (h.symm.trans h'))
    rw [writeCoefficients_eq] at hcfg hwrites
    have hparam : (t.liberaSendEvent liberaEventCfg req.idx).param =
        (s.setParam req.idx.toNat req.val).param :=
      congrArg CfgDevice.param ((liberaSendEvent_frame ..).1.trans hcfg)
    rw [hparam]
    exact hwrites

theorem writes_of_incomplete (r : InitRegisters) (hfir : s.lgbl.numDfir = r.lgbl.numDfir)
    (hlast : ∀ b ∈ coeffBlocks s.lgbl.numDfir, ¬b.Completes req.idx.toNat)
    (h : s.liberaIocSetCfg readl req = (t.liberaSendEvent liberaEventCfg req.idx, 0)) :
    ∃ writes, t.writes = s.writes ++ writes ∧ ∀ w ∈ writes, w.1 ∉ fifoRegisters := by
  have haway : ∀ a ∈ fifoRegisters, a ∈ offsetRegisters ++ fifoRegisters :=
    fun a ha ↦ List.mem_append_right _ ha
  rcases confined_liberaIocSetCfg readl haway (fun _ ↦ by decide) (fun _ ↦ by decide)
    (fun hidx ↦ setsAt_incomplete r hfir hidx hlast _ _) with h' | ⟨v, hset, h'⟩
  · exact absurd (congrArg Prod.snd (h.symm.trans h')) (neg_ne_zero.mpr (by decide)).symm
  · obtain ⟨val, frozen, writes, hfifo, hv⟩ := hset
    refine ⟨writes, ?_, hfifo⟩
    exact (liberaSendEvent_congr (congrArg Prod.fst (h.symm.trans h'))).2.trans
      (congrArg Driver.writes hv)

/-- **A configuration request is atomic and confined.**  No access to `param[]` is out of bounds,
only `param[idx]` changes, an error changes nothing, and success sends one event.  A block of
coefficients is written out when its last one is set, after a reset of the fifo, and at no other
time. -/
theorem setCfg_atomic (readl : ℕ → U32) (s : Driver) (req : CfgRequest) (r : InitRegisters)
    (hfir : s.lgbl.numDfir = r.lgbl.numDfir) :
    ∃ t ret, s.liberaIocSetCfg readl req = (t, ret) ∧
      s.liberaIocSetCfgC readl req = some (t, ret) ∧
      (∀ idx, idx ≠ req.idx.toNat → t.param idx = s.param idx) ∧
      (ret ≠ 0 → t = s) ∧
      (ret = 0 → ∃ u, t = liberaSendEvent u liberaEventCfg req.idx ∧ u.event = s.event) ∧
      ∃ writes, t.writes = s.writes ++ writes ∧
        (∀ b ∈ coeffBlocks s.lgbl.numDfir, b.Completes req.idx.toNat → ret = 0 →
          writes = b.writes t.param) ∧
        ((∀ b ∈ coeffBlocks s.lgbl.numDfir, ¬b.Completes req.idx.toNat) →
          ∀ w ∈ writes, w.1 ∉ fifoRegisters) := by
  have hchecked := liberaIocSetCfgC_eq readl req r hfir
  rcases confined_liberaIocSetCfg (s := s) readl (List.forall_mem_nil _)
    (fun _ ↦ List.not_mem_nil) (fun _ ↦ List.not_mem_nil)
    (fun _ ↦ setsAt_setCoefficient _ _ _ fun _ _ ↦ List.not_mem_nil) with h | ⟨u, hset, h⟩
  · refine ⟨s, -EINVAL, h, h ▸ hchecked, fun _ _ ↦ rfl, fun _ ↦ rfl, ?_, [], ?_, ?_, ?_⟩
    · exact fun hret ↦ absurd hret (neg_ne_zero.mpr (by decide))
    · exact (List.append_nil _).symm
    · exact fun _ _ _ hret ↦ absurd hret (neg_ne_zero.mpr (by decide))
    · exact fun _ ↦ List.forall_mem_nil _
  · obtain ⟨val, frozen, writes, -, hu⟩ := hset
    have hwrites : u.writes = s.writes ++ writes := congrArg Driver.writes hu
    have hevent : u.event = s.event := by rw [hu]
    refine ⟨_, 0, h, h ▸ hchecked, ?_, fun hret ↦ absurd rfl hret, fun _ ↦ ⟨u, rfl, hevent⟩, writes,
      (liberaSendEvent_frame ..).2.trans hwrites, ?_, ?_⟩
    · intro idx hne
      rw [← param_liberaIocSetCfg_of_ne readl s hne, h]
    · intro b hb hlast _
      exact List.append_cancel_left (hwrites.symm.trans (writes_of_completes r hfir hb hlast h))
    · intro hlast
      obtain ⟨writes', hwrites', hfifo⟩ := writes_of_incomplete r hfir hlast h
      rw [List.append_cancel_left (hwrites.symm.trans hwrites')]
      exact hfifo

/-- The third of three coefficients completes the polyphase filter. -/
theorem setCfg_atomic_polyphase :
    ∃ t, liberaIocSetCfg (fun _ ↦ 0)
        (boot (fun _ ↦ 7) (InitRegisters.lgbl ⟨0, 4, 0x10001⟩) ⟨1000, 5, 5, 0⟩) ⟨268, 9⟩ = (t, 0) ∧
      t.writes =
        [(faFifoReset, 1), (faPolyphaseFir, 7), (faPolyphaseFir, 7), (faPolyphaseFir, 9)] := by
  obtain ⟨t, ret, h, -, -, -, -, writes, hwrites, hblock, -⟩ := setCfg_atomic (fun _ ↦ 0)
    (boot (fun _ ↦ 7) (InitRegisters.lgbl ⟨0, 4, 0x10001⟩) ⟨1000, 5, 5, 0⟩) ⟨268, 9⟩
    ⟨0, 4, 0x10001⟩ rfl
  obtain rfl : (0 : ℤ) = ret := congrArg Prod.snd h
  have ht : _ = t := congrArg Prod.fst h
  refine ⟨t, h, ?_⟩
  rw [hwrites, hblock ⟨cfgPolyphaseFir, 3, faPolyphaseFir⟩ (by decide) ⟨by decide, rfl⟩ rfl, ← ht]
  decide

end Driver

end LiberaBase
