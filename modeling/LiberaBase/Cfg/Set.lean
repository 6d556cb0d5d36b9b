import LiberaBase.Timing.Device

/-!
# Configuration requests

`libera_cfg_set_specific` keeps every parameter in `param[]` and passes it to the
FPGA.  The interlock parameters are latched by the write of the gain limit, the
post-mortem parameters by the write of the overflow duration, which also thaws the
post-mortem buffer.
-/

namespace LiberaBase

/-! ## Parameter numbers -/

def cfgParamsMax : ℕ := 512
def cfgTrigmode : ℕ := 0
def cfgMcpll : ℕ := 1
def cfgScpll : ℕ := 2
def cfgFeatureCustomer : ℕ := 3
def cfgFeatureItech : ℕ := 4
def cfgCustomFirst : ℕ := 128
def cfgXoffset : ℕ := 128
def cfgYoffset : ℕ := 129
def cfgQoffset : ℕ := 130
def cfgKx : ℕ := 131
def cfgKy : ℕ := 132
def cfgIlkXlow : ℕ := 133
def cfgIlkXhigh : ℕ := 134
def cfgIlkYlow : ℕ := 135
def cfgIlkYhigh : ℕ := 136
def cfgIlkMode : ℕ := 137
def cfgIlkOverflowLimit : ℕ := 138
def cfgIlkOverflowDur : ℕ := 139
def cfgIlkGainLimit : ℕ := 140
def cfgPmMode : ℕ := 141
def cfgPmXlow : ℕ := 142
def cfgPmXhigh : ℕ := 143
def cfgPmYlow : ℕ := 144
def cfgPmYhigh : ℕ := 145
def cfgPmOverflowLimit : ℕ := 146
def cfgPmOverflowDur : ℕ := 147
def cfgSrEnable : ℕ := 148
def cfgSrCspiEnable : ℕ := 149
def cfgSrAveragingStop : ℕ := 150
def cfgSrAverageWindow : ℕ := 151
def cfgSrStart : ℕ := 152
def cfgSrWindow : ℕ := 153
def cfgSpThreshold : ℕ := 154
def cfgSpNBefore : ℕ := 155
def cfgSpNAfter : ℕ := 156
def cfgIlkstatus : ℕ := 162
def cfgPmoffset : ℕ := 163
def cfgPmdec : ℕ := 164
def cfgExtswitch : ℕ := 165
def cfgSwdelay : ℕ := 166
def cfgDfa : ℕ := 167
def cfgDecDdc : ℕ := 168
def cfgDdcMaflength : ℕ := 169
def cfgDdcMafdelay : ℕ := 170
def cfgTrigdelay : ℕ := 171
def cfgBcdXoffset : ℕ := 172
def cfgBcdYoffset : ℕ := 173
def cfgMaxAdc : ℕ := 174
def cfgAverageSum : ℕ := 175
def cfgCoeff : ℕ := 256
def cfgNotchMax : ℕ := 5
def cfgNotch1 : ℕ := cfgCoeff
def cfgNotch2 : ℕ := cfgNotch1 + cfgNotchMax
def cfgPolyphaseFir : ℕ := cfgNotch2 + cfgNotchMax
def cfgFirMax : ℕ := 192

def trigmodeGet : U32 := 1
def trigmodeSet : U32 := 2

def maxdur : U32 := 4095

structure CfgRequest where
  idx : U32
  val : U32

def isBrilliance (feature : U32) : Bool :=
  (feature &&& 0xf0000000#32) >>> 28 == 0 && (feature &&& 0x0f000000#32) >>> 24 == 1

/-- `scale_kadc`: the product of the two factors is taken in 32 bits. -/
def scaleKadc (kadc limit : U32) : U32 :=
  let overflowLimit : BitVec 64 := (limit &&& 0xffff#32).setWidth 64
  ((overflowLimit * (kadc * kadc).setWidth 64) / 1000000#64).setWidth 32

namespace Driver

def param (s : Driver) (idx : ℕ) : U32 := s.cfg.param idx

def setParam (s : Driver) (idx : ℕ) (val : U32) : Driver :=
  { s with cfg := { s.cfg with param := Function.update s.cfg.param idx val } }

/-- The two cases for the ADC overflow limits: the ADC count and the limit derived
from it share one parameter word. -/
def setOverflowLimit (s : Driver) (idx : ℕ) (val : U32) : Driver × ℤ :=
  let max : U32 := if isBrilliance s.lgbl.feature then 32767 else 2047
  if val ≤ max then
    let adcCount := if isBrilliance s.lgbl.feature then val >>> 4 else val
    let square := adcCount * adcCount
    (s.setParam idx ((val <<< 16) ||| ((square >>> 8) &&& 0xffff#32)), 0)
  else (s, -EINVAL)

def latchIlk (s : Driver) : Driver :=
  let overflowLimit := scaleKadc s.params.kadc (s.param cfgIlkOverflowLimit)
  let attnSum := s.param cfgIlkGainLimit &&& 0xffff#32
  (((((((s.writel (s.param cfgIlkXlow) ilkXlow).writel (s.param cfgIlkXhigh) ilkXhigh).writel
    (s.param cfgIlkYlow) ilkYlow).writel (s.param cfgIlkYhigh) ilkYhigh).writel
    attnSum dscIlkGainLimit).writel overflowLimit dscIlkOverflowLimit).writel
    (s.param cfgIlkOverflowDur) dscIlkOverflowDur).writel (s.param cfgIlkMode) ilkControl

/-- The post-mortem parameters go to the FPGA; `trigDelay` is what `T_TRIG_DELAY` reads. -/
def latchPm (s : Driver) (trigDelay : U32) : Driver :=
  let overflowLimit := scaleKadc s.params.kadc (s.param cfgPmOverflowLimit)
  let val := (trigDelay &&& 0xFFFF3FFF#32) ||| ((s.param cfgPmMode &&& 3) <<< 14)
  ((((((s.writel val tTrigDelay).writel (s.param cfgPmXlow) pmXlow).writel
    (s.param cfgPmXhigh) pmXhigh).writel (s.param cfgPmYlow) pmYlow).writel
    (s.param cfgPmYhigh) pmYhigh).writel overflowLimit dscPmOverflowLimit).writel
    (s.param cfgPmOverflowDur) dscPmOverflowDur

def writeCoefficients (s : Driver) (first count reg : ℕ) : Driver :=
  (List.range count).foldl (fun t i ↦ t.writel (t.param (first + i)) reg) (s.writel 1 faFifoReset)

/-- The filter coefficients are written at once when the last one of a block
arrives. -/
def setCoefficient (s : Driver) (idx : ℕ) (val : U32) : Driver :=
  let s₁ := s.setParam idx val
  if idx = cfgNotch1 + cfgNotchMax - 1 then s₁.writeCoefficients cfgNotch1 cfgNotchMax faNotch1
  else if idx = cfgNotch2 + cfgNotchMax - 1 then
    s₁.writeCoefficients cfgNotch2 cfgNotchMax faNotch2
  else if BitVec.ofNat 32 idx = BitVec.ofNat 32 cfgPolyphaseFir + s.lgbl.numDfir - 1 then
    s₁.writeCoefficients cfgPolyphaseFir s.lgbl.numDfir.toNat faPolyphaseFir
  else s₁

/-- `libera_cfg_set_specific`: the new state and the return value.  `readl` is what
the FPGA registers read during the call. -/
def liberaCfgSetSpecific (readl : ℕ → U32) (s : Driver) (req : CfgRequest) : Driver × ℤ :=
  let idx := req.idx.toNat
  let mirrored := s.setParam idx req.val
  if idx = cfgXoffset then
    (mirrored.writel (req.val + mirrored.param cfgBcdXoffset) faOffset, 0)
  else if idx = cfgYoffset then
    (mirrored.writel (req.val + mirrored.param cfgBcdYoffset) (faOffset + 4), 0)
  else if idx = cfgQoffset ∨ idx = cfgKx ∨ idx = cfgKy then
    (mirrored.writel req.val (faOffset + (idx - cfgCustomFirst) * 4), 0)
  else if idx ∈ [cfgIlkXlow, cfgIlkXhigh, cfgIlkYlow, cfgIlkYhigh, cfgIlkMode, cfgPmMode,
      cfgPmXlow, cfgPmXhigh, cfgPmYlow, cfgPmYhigh] then (mirrored, 0)
  else if idx = cfgPmOverflowLimit ∨ idx = cfgIlkOverflowLimit then s.setOverflowLimit idx req.val
  else if idx = cfgIlkOverflowDur then
    if req.val ≤ s.params.ilkdur ∧ req.val ≤ maxdur then (mirrored, 0) else (s, -EINVAL)
  else if idx = cfgIlkGainLimit then (mirrored.latchIlk, 0)
  else if idx = cfgIlkstatus then (s.setParam idx 0, 0)
  else if idx = cfgPmoffset ∨ idx = cfgPmdec then (mirrored, 0)
  else if idx = cfgExtswitch then
    let source := readl dscSwSource
    let source' := if req.val ≠ 0 then source ||| 0x80000000#32 else source &&& ~~~0x80000000#32
    ((s.writel source' dscSwSource).setParam idx req.val, 0)
  else if idx = cfgSwdelay then (mirrored.writel req.val dscSwDelay, 0)
  else if idx = cfgDdcMaflength then (s.writel req.val ddcMafLength, 0)
  else if idx = cfgDdcMafdelay then (s.writel req.val ddcMafDelay, 0)
  else if idx = cfgTrigdelay then
    let val := (readl tTrigDelay &&& 0xc000ffff#32) ||| ((req.val &&& 0x3fff#32) <<< 16)
    (mirrored.writel val tTrigDelay, 0)
  else if idx = cfgPmOverflowDur then
    if req.val ≤ s.params.pmdur ∧ req.val ≤ maxdur then
      let s₁ := mirrored.latchPm (readl tTrigDelay)
      ({ s₁ with cfg := { s₁.cfg with pmFreezed := false } }, 0)
    else (s, -EINVAL)
  else if idx = cfgSrEnable then (mirrored.writel req.val faEnable, 0)
  else if idx = cfgSrCspiEnable then (mirrored, 0)
  else if idx = cfgSrAveragingStop then (mirrored.writel (req.val &&& 0x1F#32) faAveStop, 0)
  else if idx = cfgSrAverageWindow then (mirrored.writel (req.val &&& 0x1F#32) faAveWin, 0)
  else if idx = cfgSrStart then (mirrored.writel (req.val &&& 0x1F#32) faStart, 0)
  else if idx = cfgSrWindow then (mirrored.writel (req.val &&& 0x7F#32) faWindow, 0)
  else if idx = cfgSpThreshold ∨ idx = cfgSpNBefore ∨ idx = cfgSpNAfter then (mirrored, 0)
  else if cfgCoeff ≤ idx ∧ idx < cfgPolyphaseFir + cfgFirMax then
    (s.setCoefficient idx req.val, 0)
  else (s, -EINVAL)

/-- `LIBERA_IOC_SET_CFG` of `libera_cfg_cmd`. -/
def liberaIocSetCfg (readl : ℕ → U32) (s : Driver) (req : CfgRequest) : Driver × ℤ :=
  if cfgParamsMax ≤ req.idx.toNat then (s, -EINVAL)
  else if req.idx.toNat = cfgMcpll ∨ req.idx.toNat = cfgScpll then (s, -EINVAL)
  else
    let set := if req.idx.toNat = cfgTrigmode then (s.setParam req.idx.toNat req.val, 0)
      else s.liberaCfgSetSpecific readl req
    if set.2 ≠ 0 then set else (set.1.liberaSendEvent liberaEventCfg req.idx, 0)

/-! ## What a request leaves alone -/

/-- `t` is `s` with other parameters and further register writes. -/
def OnlyParams (s t : Driver) : Prop :=
  ∃ param writes, t = { s with cfg := { s.cfg with param := param }, writes := writes }

variable {s t u : Driver} {readl : ℕ → U32} {req : CfgRequest}

theorem OnlyParams.refl (s : Driver) : OnlyParams s s := ⟨_, _, rfl⟩

theorem OnlyParams.trans (h : OnlyParams s t) (h' : OnlyParams t u) : OnlyParams s u := by
  obtain ⟨_, _, rfl⟩ := h
  obtain ⟨_, _, rfl⟩ := h'
  exact ⟨_, _, rfl⟩

theorem OnlyParams.writel (h : OnlyParams s t) (val : U32) (addr : ℕ) :
    OnlyParams s (t.writel val addr) :=
  h.trans ⟨_, _, rfl⟩

theorem OnlyParams.ite {c : Prop} [Decidable c] {a b : Driver × ℤ}
    (ha : c → OnlyParams s a.1) (hb : ¬c → OnlyParams s b.1) :
    OnlyParams s (if c then a else b).1 := by
  by_cases h : c
  · rw [if_pos h]
    exact ha h
  · rw [if_neg h]
    exact hb h

theorem onlyParams_setParam (s : Driver) (idx : ℕ) (val : U32) :
    OnlyParams s (s.setParam idx val) := ⟨_, _, rfl⟩

theorem onlyParams_setOverflowLimit (s : Driver) (idx : ℕ) (val : U32) :
    OnlyParams s (s.setOverflowLimit idx val).1 := by
  unfold setOverflowLimit
  extract_lets max
  by_cases h : val ≤ max
  · rw [if_pos h]
    exact onlyParams_setParam ..
  · rw [if_neg h]
    exact .refl s

theorem OnlyParams.latchIlk (h : OnlyParams s t) : OnlyParams s t.latchIlk :=
  (((((((h.writel _ _).writel _ _).writel _ _).writel _ _).writel _ _).writel _ _).writel _ _).writel
    _ _

theorem OnlyParams.latchPm (h : OnlyParams s t) (trigDelay : U32) :
    OnlyParams s (t.latchPm trigDelay) :=
  ((((((h.writel _ _).writel _ _).writel _ _).writel _ _).writel _ _).writel _ _).writel _ _

theorem onlyParams_writeCoefficients (s : Driver) (first count reg : ℕ) :
    OnlyParams s (s.writeCoefficients first count reg) := by
  unfold writeCoefficients
  induction count with
  | zero => exact (OnlyParams.refl s).writel 1 faFifoReset
  | succ count ih =>
      rw [List.range_succ, List.foldl_append]
      exact ih.writel _ _

theorem onlyParams_setCoefficient (s : Driver) (idx : ℕ) (val : U32) :
    OnlyParams s (s.setCoefficient idx val) := by
  unfold setCoefficient
  extract_lets s₁
  split_ifs
  · exact (onlyParams_setParam s idx val).trans (onlyParams_writeCoefficients ..)
  · exact (onlyParams_setParam s idx val).trans (onlyParams_writeCoefficients ..)
  · exact (onlyParams_setParam s idx val).trans (onlyParams_writeCoefficients ..)
  · exact onlyParams_setParam s idx val

/-- A request accepted for the latch of the post-mortem parameters, the only one
that thaws the buffer. -/
def thaws (s : Driver) (req : CfgRequest) : Prop :=
  req.idx.toNat = cfgPmOverflowDur ∧ req.val ≤ s.params.pmdur ∧ req.val ≤ maxdur

instance (s : Driver) (req : CfgRequest) : Decidable (s.thaws req) :=
  inferInstanceAs (Decidable (_ ∧ _ ∧ _))

theorem onlyParams_setSpecific (h : ¬s.thaws req) :
    OnlyParams s (s.liberaCfgSetSpecific readl req).1 := by
  have hset := onlyParams_setParam s req.idx.toNat req.val
  unfold liberaCfgSetSpecific
  extract_lets idx mirrored source source' val s₁
  refine .ite (fun _ ↦ hset.writel _ _) fun _ ↦ ?_
  refine .ite (fun _ ↦ hset.writel _ _) fun _ ↦ ?_
  refine .ite (fun _ ↦ hset.writel _ _) fun _ ↦ ?_
  refine .ite (fun _ ↦ hset) fun _ ↦ ?_
  refine .ite (fun _ ↦ onlyParams_setOverflowLimit ..) fun _ ↦ ?_
  refine .ite (fun _ ↦ .ite (fun _ ↦ hset) fun _ ↦ .refl s) fun _ ↦ ?_
  refine .ite (fun _ ↦ hset.latchIlk) fun _ ↦ ?_
  refine .ite (fun _ ↦ onlyParams_setParam ..) fun _ ↦ ?_
  refine .ite (fun _ ↦ hset) fun _ ↦ ?_
  refine .ite (fun _ ↦ ((OnlyParams.refl s).writel _ _).trans (onlyParams_setParam ..)) fun _ ↦ ?_
  refine .ite (fun _ ↦ hset.writel _ _) fun _ ↦ ?_
  refine .ite (fun _ ↦ (OnlyParams.refl s).writel _ _) fun _ ↦ ?_
  refine .ite (fun _ ↦ (OnlyParams.refl s).writel _ _) fun _ ↦ ?_
  refine .ite (fun _ ↦ hset.writel _ _) fun _ ↦ ?_
  refine .ite (fun hidx ↦ .ite (fun hval ↦ absurd ⟨hidx, hval⟩ h) fun _ ↦ .refl s) fun _ ↦ ?_
  refine .ite (fun _ ↦ hset.writel _ _) fun _ ↦ ?_
  refine .ite (fun _ ↦ hset) fun _ ↦ ?_
  refine .ite (fun _ ↦ hset.writel _ _) fun _ ↦ ?_
  refine .ite (fun _ ↦ hset.writel _ _) fun _ ↦ ?_
  refine .ite (fun _ ↦ hset.writel _ _) fun _ ↦ ?_
  refine .ite (fun _ ↦ hset.writel _ _) fun _ ↦ ?_
  refine .ite (fun _ ↦ hset) fun _ ↦ ?_
  exact .ite (fun _ ↦ onlyParams_setCoefficient ..) fun _ ↦ .refl s

theorem setSpecific_thaws (h : s.thaws req) : ∃ t, OnlyParams s t ∧
    s.liberaCfgSetSpecific readl req = ({ t with cfg := { t.cfg with pmFreezed := false } }, 0) := by
  obtain ⟨hidx, hval⟩ := h
  refine ⟨(s.setParam req.idx.toNat req.val).latchPm (readl tTrigDelay),
    (onlyParams_setParam ..).latchPm _, ?_⟩
  unfold liberaCfgSetSpecific
  extract_lets idx mirrored source source' val s₁
  have hidx' : idx = 147 := hidx
  iterate 14 rw [if_neg (by rw [hidx']; decide)]
  rw [if_pos hidx, if_pos hval]

theorem liberaSendEvent_eq (s : Driver) (id param : U32) :
    ∃ events, s.liberaSendEvent id param = { s with event := { s.event with events := events } } := by
  unfold liberaSendEvent
  split
  · exact ⟨_, rfl⟩
  · split <;> exact ⟨_, rfl⟩

/-- `t` is `s` after a configuration ioctl: other parameters and register writes, a
queued event, and possibly a thawed post-mortem buffer. -/
def Requested (s t : Driver) (frozen : Bool) : Prop :=
  ∃ param writes events, t =
    { s with
      event := { s.event with events := events }
      cfg := ⟨param, frozen⟩
      writes := writes }

theorem OnlyParams.requested (h : OnlyParams s t) : Requested s t s.cfg.pmFreezed := by
  obtain ⟨param, writes, rfl⟩ := h
  exact ⟨param, writes, s.event.events, rfl⟩

theorem Requested.send {frozen : Bool} (h : Requested s t frozen) (id param : U32) :
    Requested s (t.liberaSendEvent id param) frozen := by
  obtain ⟨param', writes, events, rfl⟩ := h
  obtain ⟨events', heq⟩ := liberaSendEvent_eq { s with
      event := { s.event with events := events }
      cfg := ⟨param', frozen⟩
      writes := writes } id param
  exact ⟨param', writes, events', heq⟩

theorem requested_liberaIocSetCfg (readl : ℕ → U32) (s : Driver) (req : CfgRequest) :
    Requested s (s.liberaIocSetCfg readl req).1
      (if s.thaws req then false else s.cfg.pmFreezed) := by
  by_cases h : s.thaws req
  · obtain ⟨t, ⟨param, writes, rfl⟩, heq⟩ := setSpecific_thaws h
    have hidx : req.idx.toNat = 147 := h.1
    rw [if_pos h]
    unfold liberaIocSetCfg
    extract_lets set
    have hset : set = _ := (if_neg (by rw [hidx]; decide)).trans heq
    rw [if_neg (by rw [hidx]; decide), if_neg (by rw [hidx]; decide), hset, if_neg (by simp)]
    exact Requested.send ⟨param, writes, s.event.events, rfl⟩ _ _
  · rw [if_neg h]
    unfold liberaIocSetCfg
    extract_lets set
    have hset : OnlyParams s set.1 :=
      .ite (fun _ ↦ onlyParams_setParam ..) fun _ ↦ onlyParams_setSpecific h
    split
    · exact (OnlyParams.refl s).requested
    split
    · exact (OnlyParams.refl s).requested
    split
    · exact hset.requested
    · exact hset.requested.send _ _

end Driver

end LiberaBase
