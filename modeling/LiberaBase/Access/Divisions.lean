import LiberaBase.Access.UserCopy
import LiberaBase.Pm.Acquire
import LiberaBase.Timing.Checked

/-!
# Divisions by 0

The driver divides by the decimations, which `libera_init` takes from the FPGA as they are, by
`flmcdHz`, which the event device sets, and by a register.  The clock and the register are checked
for 0, of the decimations only the one for fast acquisition.  A request for Machine Time divides
by the other one; a trigger that sets Machine Time divides by the product, which may be 0 in 32
bits.  No other division faults.
-/

namespace LiberaBase

open Runs

/-! ## `libera_init` -/

/-- The registers `FPGA_FEATURE_ITECH`, `FPGA_INFO_DEC_DDC` and `FPGA_INFO_DEC_CIC_FIR`. -/
structure InitRegisters where
  featureItech : U32
  decDdc : U32
  decCicFir : U32

/-- `LIBERA_IS_BPM` -/
def isBpm (feature : U32) : Bool := (feature &&& 0xf0000000#32) >>> 28 == 0

namespace InitRegisters

def d (r : InitRegisters) : U32 := if isBpm r.featureItech then r.decDdc else 0

def cicFir (r : InitRegisters) : U32 := if isBpm r.featureItech then r.decCicFir else 0

def dfa (r : InitRegisters) : U32 := (r.cicFir >>> 16) * (r.cicFir % 65536)

def lgbl (r : InitRegisters) : Global where
  eventMask := 0
  feature := r.featureItech
  d := r.d
  dfa := r.dfa
  numDfir := r.cicFir % 65536 * 3

/-- The decimation is not 0, nor is its product with the one of fast acquisition if there is one. -/
def Decimates (r : InitRegisters) : Prop := r.d ≠ 0 ∧ (r.dfa ≠ 0 → r.d * r.dfa ≠ 0)

end InitRegisters

/-! ## The other divisions -/

/-- `LIBERA_CFG_AVERAGE_SUM`, with what its registers read. -/
def averageSumC (nsums lsw msw : U32) : Checked U32 :=
  if 0 < nsums then
    (divU64C (U32.toHw lsw + (U32.toHw msw <<< 32)) nsums).map (BitVec.setWidth 32)
  else .ok 0

/-- What an acquisition of post-mortem data finds on its way up to the transfer. -/
structure PmCall where
  locked : Bool
  ctime : CtimeAnswer
  waits : List CtimeAnswer
  irq : Except CallError Unit

/-- `libera_acq_pm` up to the transfer. -/
def liberaAcqPmC (g : Globals) (pmsize pmOffset pmDec : U32) (pmEvent : Ltimestamp) (c : PmCall) :
    Checked (Option ℤ) :=
  if c.locked = false then .ok (some (-EBUSY))
  else do
    let _ ← lmt2mtC g.d pmEvent.lmt
    let lmtStart := pmEvent.lmt + U32.signedToHw ((pmOffset - pmsize) * g.d)
    match c.ctime with
    | .error e => .ok (some e.code)
    | .ok now =>
      match ← waitLmtC g.flmcdHz g.d now lmtStart c.waits with
      | none => .ok none
      | some (ret, _) =>
        if ret ≠ 0 then .ok (some ret)
        else
          let start ← getCircOffsetLmtC g.d g.off g.hbStart lmtStart
          match liberaDdWriteCBfifo start pmsize pmDec with
          | none => .ok (some (-EINVAL))
          | some _ =>
            match c.irq with
            | .error e => .ok (some e.code)
            | .ok () => .ok (some 0)

theorem averageSumC_ok (nsums lsw msw : U32) : ∃ val, averageSumC nsums lsw msw = .ok val := by
  unfold averageSumC
  split_ifs with hpos
  · have hne : nsums ≠ 0 := fun hzero ↦ absurd (hzero ▸ hpos) (by decide)
    rw [divU64C_eq hne]
    exact ⟨_, rfl⟩
  · exact ⟨_, rfl⟩

/-- What that returns if no division faults. -/
def PmCall.prepare (c : PmCall) (env : DdEnv) (pmsize pmOffset pmDec : U32)
    (pmEvent : Ltimestamp) : Option ℤ :=
  if c.locked = false then some (-EBUSY)
  else
    let lmtStart := pmEvent.lmt + U32.signedToHw ((pmOffset - pmsize) * env.d)
    match c.ctime with
    | .error e => some e.code
    | .ok now =>
      (waitLmt env.d now lmtStart c.waits).map fun (ret, _) ↦
        if ret ≠ 0 then ret
        else
          match liberaDdWriteCBfifo (getCircOffsetLmt env.d env.off env.hbStart lmtStart)
            pmsize pmDec with
          | none => -EINVAL
          | some _ =>
            match c.irq with
            | .error e => e.code
            | .ok () => 0

theorem PmCall.prepare_eq {α : Type*} {pmsize : U32} (c : AcqCall α pmsize) (pmEvent : Ltimestamp) :
    PmCall.prepare ⟨c.locked, c.ctime, c.waits, c.irq⟩ c.env pmsize c.pmOffset c.pmDec pmEvent =
      if c.locked = false then some (-EBUSY) else c.prepare pmEvent := rfl

theorem liberaAcqPmC_eq {g : Globals} (hd : g.d ≠ 0) (hf : g.flmcdHz ≠ 0)
    (pmsize pmOffset pmDec : U32) (pmEvent : Ltimestamp) (c : PmCall) :
    liberaAcqPmC g pmsize pmOffset pmDec pmEvent c =
      .ok (c.prepare (g.env hd) pmsize pmOffset pmDec pmEvent) := by
  unfold liberaAcqPmC PmCall.prepare
  dsimp only
  split_ifs with hlocked
  · rfl
  · rw [lmt2mtC_eq hd]
    dsimp only [bind, Except.bind]
    cases c.ctime with
    | error e => rfl
    | ok now =>
        have hwait (start : HwTime) : waitTime g.d Ltimestamp.lmt now start c.waits =
            waitLmt (g.env hd).d now start c.waits := rfl
        dsimp only
        rw [waitLmtC, waitTimeC_eq hf, hwait, show (g.env hd).d = g.d from rfl]
        cases waitLmt g.d now (pmEvent.lmt + U32.signedToHw ((pmOffset - pmsize) * g.d))
          c.waits with
        | none => rfl
        | some r =>
            obtain ⟨ret, ctime⟩ := r
            dsimp only [Option.map]
            rw [getCircOffsetLmtC_eq hd, show (g.env hd).off = g.off from rfl,
              show (g.env hd).hbStart = g.hbStart from rfl]
            dsimp only
            split_ifs
            · rfl
            · cases liberaDdWriteCBfifo (getCircOffsetLmt g.d g.off g.hbStart
                (pmEvent.lmt + U32.signedToHw ((pmOffset - pmsize) * g.d))) pmsize pmDec with
              | none => rfl
              | some cb => cases c.irq <;> rfl

theorem Driver.checkAndUpdate_lgbl (s : Driver) (bcdVal : U32) (bcdIdx fixIdx : ℕ) :
    (s.checkAndUpdate bcdVal bcdIdx fixIdx).lgbl = s.lgbl := by
  unfold checkAndUpdate
  split_ifs <;> rfl

/-! ## Runs -/

/-- The driver, with the `libera_dd_local_t` of each dd descriptor. -/
structure Machine where
  user : UserDevices
  ddLocals : ℕ → DdLocal

/-- A request, with the descriptor it is made on if that is one of the dd device. -/
inductive DriverOp where
  /-- a handler, or a request of the cfg device -/
  | timing (l : Timing)
  | ioctl (file : ℕ) (req : UserRequest)
  /-- `LIBERA_EVENT_GET_MT`, which takes the time from the stack if it cannot be read -/
  | getMT (ctime : Ltimestamp)
  | averageSum (nsums lsw msw : U32)
  | llseek (file : ℕ) (time : HwTime) (whence : ℕ) (ctime : CtimeAnswer)
  | read (file : ℕ) (c : ReadCall)
  /-- `LIBERA_EVENT_ACQ_PM` -/
  | acqPm (c : PmCall)

namespace Machine

/-- `libera_init`, which takes any `flmcdHz` but 0, and the opens of the descriptors. -/
def boot (r : InitRegisters) (flmcdHz : U32) (param : ℕ → U32) (params : ModuleParams)
    (event dsc : CommonDev) : Machine where
  user := ⟨.boot param r.lgbl params, flmcdHz, event, dsc, .ddOpen⟩
  ddLocals := fun _ ↦ .ddOpen

variable {s s' : Machine} {r : InitRegisters} {op : DriverOp}

def globals (s : Machine) : Globals where
  d := s.user.drv.lgbl.d
  flmcdHz := s.user.flmcdHz
  off := s.user.drv.event.settime.lmt.off
  hbStart := 0x8000000

def withDrv (s : Machine) (drv : Driver) : Machine := { s with user := { s.user with drv := drv } }

def withLocal (s : Machine) (file : ℕ) (l : DdLocal) : Machine :=
  { s with ddLocals := Function.update s.ddLocals file l }

def ioctl (s : Machine) (file : ℕ) (req : UserRequest) : Machine :=
  let user := ({ s.user with ddLocal := s.ddLocals file }.ioctl req).2
  { s with user := user }.withLocal file user.ddLocal

/-- What comes next, up to a fault; `none` is a call that still waits. -/
def next (s : Machine) : DriverOp → Checked (Option Machine)
  | .timing l => (s.user.drv.stepC l).map fun drv ↦ drv.map s.withDrv
  | .ioctl file req => .ok (some (s.ioctl file req))
  | .getMT ctime => (lmt2mtC s.globals.d ctime.lmt).map fun _ ↦ some s
  | .averageSum nsums lsw msw => (averageSumC nsums lsw msw).map fun _ ↦ some s
  | .llseek file time whence ctime =>
    ((s.ddLocals file).liberaDdLlseekC s.globals time whence ctime).map fun (l, _) ↦
      some (s.withLocal file l)
  | .read file c => (liberaDdReadC s.globals (s.ddLocals file) c).map fun result ↦
      result.map fun result ↦ s.withLocal file result.loc
  | .acqPm c =>
    let drv := s.user.drv
    let pmEvent := (getFromCircBuf (drv.event.pairedTimestamps tTrigPostMortem)).stamp
    (liberaAcqPmC s.globals drv.params.pmsize (drv.param cfgPmoffset) (drv.param cfgPmdec)
      pmEvent c).map fun ret ↦ ret.map fun _ ↦ s

def step (s : Machine) (op : DriverOp) : Option Machine :=
  match s.next op with
  | .ok s' => s'
  | .error _ => none

/-- In no run is there a division by 0. -/
def NoFault (s₀ : Machine) : Prop :=
  ∀ (ops : List DriverOp) (s : Machine) (op : DriverOp),
    Steps step anyStep s₀ ops s → s.next op ≠ .error .zero

/-! ## The divisors -/

/-- The decimations are the ones of the FPGA, and the clock is not 0. -/
structure Divisors (r : InitRegisters) (u : UserDevices) : Prop where
  d : u.drv.lgbl.d = r.d
  dfa : u.drv.lgbl.dfa = r.dfa
  flmcdHz : u.flmcdHz ≠ 0

namespace Divisors

variable {u : UserDevices} {drv : Driver}

theorem withDrv (h : Divisors r u) (hlgbl : drv.lgbl = u.drv.lgbl) :
    Divisors r { u with drv := drv } :=
  ⟨(congrArg Global.d hlgbl).trans h.d, (congrArg Global.dfa hlgbl).trans h.dfa, h.flmcdHz⟩

theorem liberaEventCmd (h : Divisors r u) (file : File) (req : EventRequest) :
    Divisors r (u.liberaEventCmd file req).2 := by
  cases req with
  | setFlmc temp =>
      rw [UserDevices.liberaEventCmd]
      by_cases hzero : temp.value = 0
      · rw [if_pos hzero]
        exact h
      · rw [if_neg hzero]
        exact ⟨h.d, h.dfa, hzero⟩
  | setMcphi mcphi => exact h.withDrv rfl
  | setScphi scphi => exact h.withDrv rfl
  | setNco nco => exact h.withDrv rfl
  | setMcpll temp status => exact h.withDrv (Driver.liberaSendEvent_lgbl ..)
  | setScpll temp => exact h.withDrv (Driver.liberaSendEvent_lgbl ..)
  | setSt ts => exact h.withDrv rfl
  | setMt ts =>
      rw [UserDevices.liberaEventCmd]
      split_ifs
      · exact h
      · exact h.withDrv (Driver.setMT_lgbl ..)
  | getFifolenSc fifo back =>
      rw [UserDevices.liberaEventCmd, UserDevices.getFifolen]
      split_ifs <;> exact h
  | getFifolenMc fifo back =>
      rw [UserDevices.liberaEventCmd, UserDevices.getFifolen]
      split_ifs <;> exact h
  | setMask mask =>
      rw [UserDevices.liberaEventCmd]
      split_ifs
      · exact h
      · exact ⟨h.d, h.dfa, h.flmcdHz⟩

theorem ioctl (h : Divisors r u) (req : UserRequest) : Divisors r (u.ioctl req).2 := by
  cases req with
  | event file accessOk req =>
      rw [UserDevices.ioctl, UserDevices.liberaEventIoctl]
      split_ifs
      · exact h
      · exact h
      · exact h.liberaEventCmd file req
  | dsc file accessOk req =>
      rw [UserDevices.ioctl, UserDevices.dscIoctl]
      cases liberaDscIoctl u.dsc file req.cmd accessOk with
      | some err => exact h
      | none =>
          cases req with
          | setDsc param => exact h.withDrv (Driver.liberaSendEvent_lgbl ..)
          | bcdOffsets offsets =>
              exact h.withDrv ((Driver.checkAndUpdate_lgbl ..).trans (Driver.checkAndUpdate_lgbl ..))
  | dd accessOk interrupted newDec =>
      rw [UserDevices.ioctl, UserDevices.ddIoctl]
      cases iocSanity liberaIocMagic liberaIocDd (ioc iocWrite liberaIocMagic 96 4) accessOk with
      | some err => exact h
      | none =>
          dsimp only
          split_ifs
          · exact h
          · exact ⟨h.d, h.dfa, h.flmcdHz⟩
          · exact ⟨h.d, h.dfa, h.flmcdHz⟩

/-- With such divisors the next call does not fault, and leaves them so. -/
theorem next (h : Divisors r s.user) (hr : r.Decimates) (op : DriverOp) :
    ∃ result, s.next op = .ok result ∧ ∀ s', result = some s' → Divisors r s'.user := by
  have hd : s.globals.d ≠ 0 := fun hzero ↦ hr.1 (h.d.symm.trans hzero)
  have hf : s.globals.flmcdHz ≠ 0 := h.flmcdHz
  have hdivides : s.user.drv.Divides := by
    rw [Driver.Divides, h.d, h.dfa]
    exact hr.2
  cases op with
  | timing l =>
      rw [Machine.next, Driver.stepC_eq hdivides]
      refine ⟨_, rfl, fun s' hs' ↦ ?_⟩
      obtain ⟨drv, hdrv, rfl⟩ := Option.map_eq_some_iff.mp hs'
      exact h.withDrv (Driver.step_lgbl hdrv)
  | ioctl file req =>
      refine ⟨_, rfl, fun s' hs' ↦ ?_⟩
      obtain rfl := Option.some.inj hs'
      have hlocal : Divisors r { s.user with ddLocal := s.ddLocals file } := ⟨h.d, h.dfa, h.flmcdHz⟩
      exact hlocal.ioctl req
  | getMT ctime =>
      rw [Machine.next, lmt2mtC_eq hd]
      exact ⟨_, rfl, fun s' hs' ↦ Option.some.inj hs' ▸ h⟩
  | averageSum nsums lsw msw =>
      obtain ⟨val, hval⟩ := averageSumC_ok nsums lsw msw
      rw [Machine.next, hval]
      exact ⟨_, rfl, fun s' hs' ↦ Option.some.inj hs' ▸ h⟩
  | llseek file time whence ctime =>
      rw [Machine.next, liberaDdLlseekC_eq hd]
      exact ⟨_, rfl, fun s' hs' ↦ Option.some.inj hs' ▸ h⟩
  | read file c =>
      rw [Machine.next, liberaDdReadC_eq hd hf]
      refine ⟨_, rfl, fun s' hs' ↦ ?_⟩
      obtain ⟨result, -, rfl⟩ := Option.map_eq_some_iff.mp hs'
      exact h
  | acqPm c =>
      rw [Machine.next, liberaAcqPmC_eq hd hf]
      refine ⟨_, rfl, fun s' hs' ↦ ?_⟩
      obtain ⟨ret, -, rfl⟩ := Option.map_eq_some_iff.mp hs'
      exact h

theorem step (h : Divisors r s.user) (hr : r.Decimates) (hstep : s.step op = some s') :
    Divisors r s'.user := by
  obtain ⟨result, hnext, hresult⟩ := h.next hr op
  rw [Machine.step, hnext] at hstep
  exact hresult s' hstep

end Divisors

/-! ## The two faults -/

theorem getMT_faults (hd : s.user.drv.lgbl.d = 0) (ctime : Ltimestamp) :
    s.next (.getMT ctime) = .error .zero := by
  have hfault : lmt2mtC s.globals.d ctime.lmt = .error .zero := if_pos hd
  rw [next, hfault]
  rfl

/-- An external trigger with nothing else in its entry. -/
def triggerEntry : FifoEntry := ⟨0x40000001, 0⟩

theorem setMT_faults (hphase : ¬s.user.drv.lgbl.d ≤ 0) (h : ¬s.user.drv.Divides) :
    (s.withDrv (s.user.drv.setMT 0 0)).next (.timing (.mc [triggerEntry])) = .error .zero := by
  have hfault : (s.user.drv.setMT 0 0).stepC (.mc [triggerEntry]) = .error .zero := by
    rw [Driver.stepC, Driver.liberaMcHandlerC, if_pos (by decide),
      Driver.setMT_fault h 0 hphase (by decide) (by decide)]
    rfl
  rw [next]
  exact congrArg _ hfault

/-- The driver never divides by 0 exactly if the decimations of its FPGA allow it. -/
theorem noFault_iff (hf : flmcdHz ≠ 0) (r : InitRegisters) (param : ℕ → U32)
    (params : ModuleParams) (event dsc : CommonDev) :
    NoFault (boot r flmcdHz param params event dsc) ↔ r.Decimates := by
  constructor
  · intro hsafe
    have hd : r.d ≠ 0 := by
      intro hzero
      exact hsafe [] _ (.getMT ⟨0, 0⟩) (.nil _) (getMT_faults hzero _)
    refine ⟨hd, ?_⟩
    by_contra hdivides
    have hphase : ¬r.d ≤ 0 := by simpa using hd
    exact hsafe [.timing (.setMT 0 0)] _ (.timing (.mc [triggerEntry]))
      (.cons trivial rfl (.nil _)) (setMT_faults hphase hdivides)
  · intro hr ops s op hrun
    have hboot : Divisors r (boot r flmcdHz param params event dsc).user := ⟨rfl, rfl, hf⟩
    have hs : Divisors r s.user :=
      hrun.invariant (P := fun s ↦ Divisors r s.user) (fun _ _ _ h _ hstep ↦ h.step hr hstep) hboot
    obtain ⟨result, hnext, -⟩ := hs.next hr op
    rw [hnext]
    exact fun h ↦ nomatch h

theorem noFault_electron : NoFault
    (boot ⟨0, 64, 0x00400010⟩ 1080000000 (fun _ ↦ 0) ⟨0, 0, 0, 0⟩ .zero .zero) :=
  (noFault_iff (by decide) _ _ _ _ _).mpr ⟨by decide, fun _ ↦ by decide⟩

/-- A decimation of 0, and decimations of 65536 whose product is 0. -/
theorem decimation_faults :
    ¬NoFault (boot ⟨0, 0, 0x00400010⟩ 1080000000 (fun _ ↦ 0) ⟨0, 0, 0, 0⟩ .zero .zero) ∧
    ¬NoFault (boot ⟨0, 65536, 0x01000100⟩ 1080000000 (fun _ ↦ 0) ⟨0, 0, 0, 0⟩ .zero .zero) := by
  refine ⟨fun hsafe ↦ ?_, fun hsafe ↦ ?_⟩
  · exact hsafe [] _ (.getMT ⟨5000, 5000⟩) (.nil _) (getMT_faults rfl _)
  · have hphase : ¬(InitRegisters.d ⟨0, 65536, 0x01000100⟩) ≤ 0 := by decide
    have hdivides : ¬(InitRegisters.dfa ⟨0, 65536, 0x01000100⟩ ≠ 0 →
        InitRegisters.d ⟨0, 65536, 0x01000100⟩ * InitRegisters.dfa ⟨0, 65536, 0x01000100⟩ ≠ 0) := by
      decide
    exact hsafe [.timing (.setMT 0 0)] _ (.timing (.mc [triggerEntry]))
      (.cons trivial rfl (.nil _)) (setMT_faults hphase hdivides)

end Machine

end LiberaBase
