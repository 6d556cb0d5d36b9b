import LiberaBase.Cfg.Set
import LiberaBase.Dd.Time
import LiberaBase.Lib.BitScan

/-!
# The SC and MC interrupt handlers

A handler drains the fifo of its timing module.  Each entry carries the low 26
bits of the clock and a trigger vector; the upper 38 bits are counted in software
by the entries flagged `SELF_INC`.  The set bits of the vector are then dispatched
one by one.
-/

namespace LiberaBase

/-! ## Fields of a fifo entry -/

def tFifoSize (tl : U32) : U32 := tl &&& 0x1FF#32

def trigVector : U32 := 0x1FF#32 <<< 22

def trigZero : U32 := 0x1#32 <<< 22

def selfIncTrigger : U32 := 0x200#32 <<< 22

/-- `tl & SELF_INC_TRIGGER` -/
def selfInc (tl : U32) : Bool := tl &&& selfIncTrigger != 0

/-- What one self-increment adds to the time counted in software. -/
def selfIncPeriod : HwTime := 0x4000000#64

/-- What `T_xC_STATUSL` and `T_xC_STATUSH` read for one fifo entry. -/
structure FifoEntry where
  tl : U32
  th : U32
  deriving DecidableEq

/-- The upper 38 bits counted in software, the lower 26 from the entry. -/
def stampRaw (time : HwTime) (th : U32) : HwTime :=
  U32.toHw (th &&& 0x03FFFFFF#32) ||| (time &&& 0xFFFFFFFFFC000000#64)

namespace Driver

def trigmode (s : Driver) : U32 := s.param cfgTrigmode

/-! ## The SC side -/

def scHalf (s : Driver) (stampRaw : HwTime) (i : ℕ) : Half :=
  ⟨s.event.scHalves i, stampRaw, s.trigmode, s.event.settime.lst.off⟩

/-- `putLSTtoCircBuf(&event->paired_timestamps[i], ..)` -/
def putLST (s : Driver) (i : ℕ) (lst stampRaw : HwTime) : Driver :=
  { s with event := { s.event with
      pairedTimestamps := Function.update s.event.pairedTimestamps i
        (putLSTtoCircBuf (s.event.pairedTimestamps i) lst (s.scHalf stampRaw i)) } }

/-- `putToFIFO(&event->sc_timestamps[i], value)`; an overflow is only logged. -/
def putSC (s : Driver) (i : ℕ) (value stampRaw : HwTime) : Driver :=
  match putToFIFO (s.event.scTimestamps i) ⟨value, s.event.scHalves i⟩ with
  | some q =>
    { s with
      event := { s.event with scTimestamps := Function.update s.event.scTimestamps i q }
      accepted := s.accepted ++ [⟨.sc, i, value, stampRaw, s.event.settime⟩] }
  | none => s

def liberaSCtrigSpecific (s : Driver) (stamp stampRaw : HwTime) (i : ℕ) : Driver :=
  if i = tTrigMCPrescaler ∨ i = tTrigSCPrescaler then s.putSC i stampRaw stampRaw
  else if i = tTrigPostMortem then
    if !s.cfg.pmFreezed then s.putLST i stamp stampRaw else s
  else s.putSC i stamp stampRaw

/-- The `switch(i)` of `libera_sc_handler`. -/
def scTrigger (s : Driver) (stamp stampRaw : HwTime) (i : ℕ) : Driver :=
  if i = tTrigTrigger then
    if s.trigmode = trigmodeSet then s.putLST i stampRaw stampRaw else s.putLST i stamp stampRaw
  else s.liberaSCtrigSpecific stamp stampRaw i

/-- One round of the dispatch loop, and its entry in the history. -/
def scDispatch (stamp stampRaw : HwTime) (s : Driver) (i : ℕ) : Driver :=
  let s₁ := s.scTrigger stamp stampRaw i
  { s₁ with
    event := { s₁.event with scHalves := Function.update s₁.event.scHalves i (s₁.event.scHalves i + 1) }
    dispatched := s₁.dispatched ++ [⟨.sc, i, stampRaw⟩] }

/-- The self-increment entry of the SC fifo opens a new period;
`libera_sc_selfinc_specific` does nothing. -/
def scSelfInc (s : Driver) (tl : U32) : Driver :=
  if selfInc tl then
    { s with event := { s.event with scTime := s.event.scTime + selfIncPeriod } }
  else s

/-- Fuel for the dispatch loops: nine trigger bits and the final test. -/
def scanFuel : ℕ := 10

/-- One entry of the SC fifo; `none` would be a dispatch loop that does not end. -/
def scEntry (s : Driver) (e : FifoEntry) : Option Driver :=
  let s₁ := s.scSelfInc e.tl
  let raw := stampRaw s₁.event.scTime e.th
  let stamp := raw + s₁.event.settime.lst.off
  BitScan.scan trigVector (scDispatch stamp raw) scanFuel scanFuel s₁ e.tl trigZero 0

/-- The loop of both handlers over what the status registers read in turn, until
the fifo is empty. -/
def drain (entry : Driver → FifoEntry → Option Driver) : Driver → List FifoEntry → Option Driver
  | s, [] => some s
  | s, e :: es =>
    if tFifoSize e.tl ≠ 0 then (entry s e).bind fun s₁ ↦ drain entry s₁ es else some s

def liberaScHandler (s : Driver) (es : List FifoEntry) : Option Driver := drain scEntry s es

/-! ## Setting the time -/

def liberaSetLST (s : Driver) : Driver :=
  let trig := getFromCircBuf (s.event.pairedTimestamps tTrigTrigger)
  let lst := s.event.settime.lst
  let off := lst.ref - lst.scphi - trig.stamp.lst
  { s with
    event := { s.event with
      settime := { s.event.settime with lst := { lst with off := off } } }
    consumed := s.consumed ++ [⟨lst.ref, lst.scphi, trig, off⟩] }

def saStop : U32 := 1

/-- `libera_set_LMT`; the divisor is the 32-bit product of the two decimations. -/
def liberaSetLMT (s : Driver) : Driver :=
  let trig := getFromCircBuf (s.event.pairedTimestamps tTrigTrigger)
  let lmt := s.event.settime.lmt
  let offAll := lmt.ref - lmt.mcphi - trig.stamp.lmt + lmt.offPll
  let offPll := if s.lgbl.dfa ≠ 0 then U32.toHw (remU64 offAll (s.lgbl.d * s.lgbl.dfa)) else 0
  let lmt' := { lmt with offAll := offAll, offPll := offPll, off := offAll - offPll }
  let time := trig.stamp.lmt + U32.toHw (20 * 1024 * s.lgbl.dfa * s.lgbl.d) - (offPll - lmt.offPll)
  { s with event := { s.event with
      settime := { s.event.settime with lmt := lmt' }
      listHead := ⟨time, 1#32 <<< 28⟩ } }.writel saStop saControl

def liberaSetTime (s : Driver) : Driver :=
  let s₁ := if s.event.settime.update &&& liberaSettimeST ≠ 0 then s.liberaSetLST else s
  let s₂ := if s₁.event.settime.update &&& liberaSettimeMT ≠ 0 then s₁.liberaSetLMT else s₁
  { s₂ with event := { s₂.event with settime := { s₂.event.settime with update := 0 } } }

/-! ## The MC side -/

def mcHalf (s : Driver) (stampRaw : HwTime) (i : ℕ) : Half :=
  ⟨s.event.mcHalves i, stampRaw, s.trigmode, s.event.settime.lmt.off⟩

/-- `putLMTtoCircBuf(&event->paired_timestamps[i], ..)` -/
def putLMT (s : Driver) (i : ℕ) (lmt stampRaw : HwTime) : Driver :=
  let q := putLMTtoCircBuf (s.event.pairedTimestamps i) lmt (s.mcHalf stampRaw i)
  { s with
    event := { s.event with
      pairedTimestamps := Function.update s.event.pairedTimestamps i q }
    completed := s.completed ++ [⟨i, q.stamp (s.event.pairedTimestamps i).put⟩] }

/-- `putToFIFO(&event->mc_timestamps[i], value)`; an overflow is only logged. -/
def putMC (s : Driver) (i : ℕ) (value stampRaw : HwTime) : Driver :=
  match putToFIFO (s.event.mcTimestamps i) ⟨value, s.event.mcHalves i⟩ with
  | some q =>
    { s with
      event := { s.event with mcTimestamps := Function.update s.event.mcTimestamps i q }
      accepted := s.accepted ++ [⟨.mc, i, value, stampRaw, s.event.settime⟩] }
  | none => s

/-- `libera_valid_trigger`: EBPP does not restrict the trigger sequence. -/
def liberaValidTrigger (_ : Driver) (_ : ℕ) : Bool := true

def liberaMCtrigSpecific (s : Driver) (stamp stampRaw : HwTime) (i : ℕ) : Driver :=
  if i = tTrigPostMortem then
    if !s.cfg.pmFreezed then
      let s₁ := (s.putLMT i stamp stampRaw).liberaSendEvent liberaEventPM s.params.pmsize
      if s₁.param cfgPmMode ≠ 0 then { s₁ with cfg := { s₁.cfg with pmFreezed := true } } else s₁
    else s
  else if i = tTrigMCPrescaler then
    s.putMC i (stampRaw - s.event.settime.lmt.offPll) stampRaw
  else s.putMC i stamp stampRaw

/-- The `switch(i)` of `libera_mc_handler`. -/
def mcTrigger (s : Driver) (stamp stampRaw : HwTime) (i : ℕ) : Driver :=
  if i = tTrigTrigger then
    let trigmode := s.trigmode
    if trigmode = trigmodeSet then
      ((s.putLMT i stampRaw stampRaw).liberaSetTime.setParam cfgTrigmode trigmodeGet).liberaSendEvent
        liberaEventTrigset 0
    else if !s.liberaValidTrigger i then s
    else
      let s₁ := s.putLMT i stamp stampRaw
      if trigmode = trigmodeGet then s₁.liberaSendEvent liberaEventTrigget 0 else s₁
  else s.liberaMCtrigSpecific stamp stampRaw i

/-- One round of the dispatch loop, and its entry in the history. -/
def mcDispatch (stamp stampRaw : HwTime) (s : Driver) (i : ℕ) : Driver :=
  let s₁ := s.mcTrigger stamp stampRaw i
  { s₁ with
    event := { s₁.event with mcHalves := Function.update s₁.event.mcHalves i (s₁.event.mcHalves i + 1) }
    dispatched := s₁.dispatched ++ [⟨.mc, i, stampRaw⟩] }

/-- `libera_mc_selfinc_specific`: schedule the event at the head of the list if it
falls into the second half of the period that begins. -/
def liberaMcSelfincSpecific (s : Driver) : Driver :=
  let mcTime := s.event.mcTime
  let head := s.event.listHead
  if mcTime ≤ head.time ∧ head.time < mcTime + selfIncPeriod then
    let offset26 := head.time - mcTime
    if 0x2000000 ≤ offset26 then
      (s.writel head.event tMCEventgenL).writel (offset26.setWidth 32) tMCEventgenH
    else s
  else s

/-- The self-increment entry of the MC fifo opens a new period. -/
def mcSelfInc (s : Driver) (tl : U32) : Driver :=
  if selfInc tl then
    liberaMcSelfincSpecific
      { s with event := { s.event with mcTime := s.event.mcTime + selfIncPeriod } }
  else s

/-- One entry of the MC fifo; `none` would be a dispatch loop that does not end. -/
def mcEntry (s : Driver) (e : FifoEntry) : Option Driver :=
  let s₁ := s.mcSelfInc e.tl
  let raw := stampRaw s₁.event.mcTime e.th
  let stamp := raw + s₁.event.settime.lmt.off
  BitScan.scan trigVector (mcDispatch stamp raw) scanFuel scanFuel s₁ e.tl trigZero 0

def liberaMcHandler (s : Driver) (es : List FifoEntry) : Option Driver := drain mcEntry s es

/-! ## ioctls of the event device -/

/-- `LIBERA_EVENT_SET_ST` -/
def setST (s : Driver) (st : Timespec) : Driver :=
  let settime := s.event.settime
  { s.setParam cfgTrigmode trigmodeSet with event := { s.event with
      settime := { settime with
        update := settime.update ||| liberaSettimeST
        lst := { settime.lst with ref := st2lst st } } } }

/-- `LIBERA_EVENT_SET_MT`, refused when the phase is not below `lgbl.d`. -/
def setMT (s : Driver) (mt : HwTime) (phase : U32) : Driver :=
  if s.lgbl.d ≤ phase then s
  else
    let settime := s.event.settime
    { s.setParam cfgTrigmode trigmodeSet with event := { s.event with
        settime := { settime with
          update := settime.update ||| liberaSettimeMT
          lmt := { settime.lmt with
            ref := mt2lmt s.lgbl.d mt + U32.toHw phase } } } }.writel 0xffffffff faiCounterReset

/-- `LIBERA_EVENT_SET_SCPHI` -/
def setSCPHI (s : Driver) (scphi : HwTime) : Driver :=
  let settime := s.event.settime
  { s with event := { s.event with
      settime := { settime with lst := { settime.lst with scphi := scphi } } } }

/-- `LIBERA_EVENT_SET_MCPHI` -/
def setMCPHI (s : Driver) (mcphi : HwTime) : Driver :=
  let settime := s.event.settime
  { s with event := { s.event with
      settime := { settime with lmt := { settime.lmt with mcphi := mcphi } } } }

end Driver

/-- A step of the timing part of the driver: a handler call or an ioctl. -/
inductive Timing where
  | sc (es : List FifoEntry)
  | mc (es : List FifoEntry)
  | setST (st : Timespec)
  | setMT (mt : HwTime) (phase : U32)
  | setSCPHI (scphi : HwTime)
  | setMCPHI (mcphi : HwTime)
  | setCfg (readl : ℕ → U32) (req : CfgRequest)

namespace Driver

def step (s : Driver) : Timing → Option Driver
  | .sc es => s.liberaScHandler es
  | .mc es => s.liberaMcHandler es
  | .setST st => some (s.setST st)
  | .setMT mt phase => some (s.setMT mt phase)
  | .setSCPHI scphi => some (s.setSCPHI scphi)
  | .setMCPHI mcphi => some (s.setMCPHI mcphi)
  | .setCfg readl req => some (s.liberaIocSetCfg readl req).1

/-- The state `libera_init_devs` sets up, with the parameters and globals the rest
of `libera_init` fills in. -/
def boot (param : ℕ → U32) (lgbl : Global) (params : ModuleParams) : Driver where
  event :=
    { pairedTimestamps := fun _ ↦ ⟨fun _ ↦ ⟨⟨0, 0⟩, ⟨0, 0, 0, 0⟩, ⟨0, 0, 0, 0⟩⟩, 0⟩
      scTimestamps := fun _ ↦ ⟨fun _ ↦ ⟨0, 0⟩, 0, 0⟩
      mcTimestamps := fun _ ↦ ⟨fun _ ↦ ⟨0, 0⟩, 0, 0⟩
      events := ⟨fun _ ↦ ⟨0, 0⟩, 0, 0⟩
      scTime := 0
      mcTime := 0
      settime := ⟨0, ⟨0, 0, 0⟩, ⟨0, 0, 0, 0, 0⟩⟩
      -- the events DDC, HB, FA, SA and FAI, at `HB_start_lmt`
      listHead := ⟨0x8000000, 0xf2000000⟩
      scHalves := fun _ ↦ 0
      mcHalves := fun _ ↦ 0 }
  cfg := ⟨Function.update param cfgTrigmode trigmodeGet, false⟩
  lgbl := lgbl
  params := params
  writes := []
  dispatched := []
  accepted := []
  completed := []
  consumed := []

end Driver

end LiberaBase
