import LiberaBase.Access.Writer
import LiberaBase.Dd.Read
import LiberaBase.Timing.Handlers

/-!
# Requests that copy their argument from the user

A request of the event, dsc or dd device that takes a structure copies it from the user first.
`copy_from_user` returns the number of bytes it could not copy, and what it could not copy is left
to chance.  Most requests return that number as it is, and act on the argument before.
-/

namespace LiberaBase

/-- What `copy_from_user` returns, and what its destination holds afterwards. -/
structure UserCopy (α : Type*) where
  left : ℕ
  value : α

structure HRtimestamp where
  st : Timespec
  mt : HwTime
  phase : U32

structure Offsets where
  x : U32
  y : U32

/-- The state that the requests read and write: the driver with its mirror of the parameters and
its registers, `flmcdHz`, the masters, and the `libera_dd_local_t` of the caller. -/
structure UserDevices where
  drv : Driver
  flmcdHz : U32
  event : CommonDev
  dsc : CommonDev
  ddLocal : DdLocal

def trigEventsMax : U32 := 11

def faiPllStatusMask : U32 := 3

def ioc (dir magic nr size : U32) : U32 :=
  (dir <<< 30) ||| (size <<< 16) ||| (magic <<< 8) ||| nr

/-! ## The event device -/

inductive EventRequest where
  | setFlmc (temp : UserCopy U32)
  | setMcphi (mcphi : UserCopy HwTime)
  | setScphi (scphi : UserCopy HwTime)
  | setNco (nco : UserCopy U32)
  /-- `status` is what `FAI_SW_STATUS` reads -/
  | setMcpll (temp : UserCopy U32) (status : U32)
  | setScpll (temp : UserCopy U32)
  | setSt (ts : UserCopy HRtimestamp)
  | setMt (ts : UserCopy HRtimestamp)
  /-- `back` is what `copy_to_user` returns -/
  | getFifolenSc (fifo : UserCopy U32) (back : ℕ)
  | getFifolenMc (fifo : UserCopy U32) (back : ℕ)
  | setMask (mask : UserCopy U32)

namespace EventRequest

def cmd : EventRequest → U32
  | setFlmc _ => ioc iocWrite liberaEventMagic 12 4
  | setMcphi _ => ioc iocWrite liberaEventMagic 19 8
  | setScphi _ => ioc iocWrite liberaEventMagic 20 8
  | setNco _ => ioc iocWrite liberaEventMagic 23 4
  | setMcpll _ _ => ioc iocWrite liberaEventMagic 24 4
  | setScpll _ => ioc iocWrite liberaEventMagic 25 4
  | setSt _ => ioc iocWrite liberaEventMagic 4 20
  | setMt _ => ioc iocWrite liberaEventMagic 5 20
  | getFifolenSc _ _ => ioc 3 liberaEventMagic 26 4
  | getFifolenMc _ _ => ioc 3 liberaEventMagic 27 4
  | setMask _ => ioc iocWrite liberaEventMagic 16 4

/-- The bytes that were not copied. -/
def left : EventRequest → ℕ
  | setFlmc temp => temp.left
  | setMcphi mcphi => mcphi.left
  | setScphi scphi => scphi.left
  | setNco nco => nco.left
  | setMcpll temp _ => temp.left
  | setScpll temp => temp.left
  | setSt ts => ts.left
  | setMt ts => ts.left
  | getFifolenSc fifo _ => fifo.left
  | getFifolenMc fifo _ => fifo.left
  | setMask mask => mask.left

end EventRequest

namespace UserDevices

variable {s : UserDevices} {file : File}

/-- `LIBERA_EVENT_GET_FIFOLEN_SC` and `_MC`, which differ in the fifos. -/
def getFifolen (s : UserDevices) (fifo : UserCopy U32) (back : ℕ) : ℤ × UserDevices :=
  if fifo.left ≠ 0 then (fifo.left, s)
  else if trigEventsMax ≤ fifo.value then (-EINVAL, s)
  else (back, s)

/-- The requests of `libera_event_cmd` that copy from the user. -/
def liberaEventCmd (s : UserDevices) (file : File) : EventRequest → ℤ × UserDevices
  | .setFlmc temp =>
    (temp.left, if temp.value = 0 then s else { s with flmcdHz := temp.value })
  | .setMcphi mcphi => (mcphi.left, { s with drv := s.drv.setMCPHI mcphi.value })
  | .setScphi scphi => (scphi.left, { s with drv := s.drv.setSCPHI scphi.value })
  | .setNco nco => (nco.left, { s with drv := s.drv.writel nco.value ddcNco })
  | .setMcpll temp status =>
    let drv := s.drv.setParam cfgMcpll (temp.value &&& faiPllStatusMask)
    let drv := drv.writel ((status &&& ~~~faiPllStatusMask) ||| drv.param cfgMcpll) faiSwStatus
    (temp.left, { s with drv := drv.liberaSendEvent liberaEventCfg (BitVec.ofNat 32 cfgMcpll) })
  | .setScpll temp =>
    let drv := s.drv.setParam cfgScpll (temp.value &&& faiPllStatusMask)
    (temp.left, { s with drv := drv.liberaSendEvent liberaEventCfg (BitVec.ofNat 32 cfgScpll) })
  | .setSt ts => (ts.left, { s with drv := s.drv.setST ts.value.st })
  | .setMt ts =>
    if s.drv.lgbl.d ≤ ts.value.phase then (-EINVAL, s)
    else (ts.left, { s with drv := s.drv.setMT ts.value.mt ts.value.phase })
  | .getFifolenSc fifo back => s.getFifolen fifo back
  | .getFifolenMc fifo back => s.getFifolen fifo back
  | .setMask mask =>
    if s.event.masterFilp ≠ some file.filp then (- EPERM, s)
    else (mask.left,
      { s with drv := { s.drv with lgbl := { s.drv.lgbl with eventMask := mask.value } } })

/-- `libera_event_ioctl`; the driver is built without `EVENT_SINGLE_WRITER`. -/
def liberaEventIoctl (s : UserDevices) (file : File) (accessOk : Bool) (req : EventRequest) :
    ℤ × UserDevices :=
  if iocType req.cmd ≠ liberaEventMagic then (- ENOTTY, s)
  else if (iocDir req.cmd &&& iocRead ≠ 0 ∨ iocDir req.cmd &&& iocWrite ≠ 0) ∧ accessOk = false then
    (- EFAULT, s)
  else s.liberaEventCmd file req

end UserDevices

/-! ## The dsc and dd devices -/

inductive DscRequest where
  | setDsc (param : UserCopy U32)
  | bcdOffsets (offsets : UserCopy Offsets)

namespace DscRequest

def cmd : DscRequest → U32
  | setDsc _ => ioc iocWrite liberaDscMagic 160 4
  | bcdOffsets _ => ioc iocWrite liberaDscMagic 161 8

def left : DscRequest → ℕ
  | setDsc param => param.left
  | bcdOffsets offsets => offsets.left

end DscRequest

def Driver.checkAndUpdate (s : Driver) (bcdVal : U32) (bcdIdx fixIdx : ℕ) : Driver :=
  if bcdVal ≠ s.param bcdIdx then
    let s := s.setParam bcdIdx bcdVal
    s.writel (bcdVal + s.param fixIdx) (faOffset + (fixIdx - cfgCustomFirst) * 4)
  else s

namespace UserDevices

def dscRequest (s : UserDevices) : DscRequest → ℤ × UserDevices
  | .setDsc param =>
    (param.left, { s with drv := s.drv.liberaSendEvent liberaEventCfg param.value })
  | .bcdOffsets offsets =>
    let drv := s.drv.checkAndUpdate offsets.value.x cfgBcdXoffset cfgXoffset
    (offsets.left,
      { s with drv := drv.checkAndUpdate offsets.value.y cfgBcdYoffset cfgYoffset })

def dscIoctl (s : UserDevices) (file : File) (accessOk : Bool) (req : DscRequest) :
    ℤ × UserDevices :=
  match liberaDscIoctl s.dsc file req.cmd accessOk with
  | some err => (err, s)
  | none => s.dscRequest req

/-- `LIBERA_IOC_SET_DEC` in `libera_dd_ioctl`; `interrupted` is a signal at the device mutex. -/
def ddIoctl (s : UserDevices) (accessOk interrupted : Bool) (newDec : UserCopy U32) :
    ℤ × UserDevices :=
  match iocSanity liberaIocMagic liberaIocDd (ioc iocWrite liberaIocMagic 96 4) accessOk with
  | some err => (err, s)
  | none =>
    if interrupted then (-ERESTARTSYS, s)
    else
      let (ddLocal, ret) := s.ddLocal.setDec newDec.value
      (if ret = 0 then newDec.left else ret, { s with ddLocal := ddLocal })

end UserDevices

/-! ## A copy that fails -/

inductive UserRequest where
  | event (file : File) (accessOk : Bool) (req : EventRequest)
  | dsc (file : File) (accessOk : Bool) (req : DscRequest)
  | dd (accessOk interrupted : Bool) (newDec : UserCopy U32)

def UserRequest.left : UserRequest → ℕ
  | .event _ _ req => req.left
  | .dsc _ _ req => req.left
  | .dd _ _ newDec => newDec.left

namespace UserDevices

variable {s : UserDevices} {file : File} {accessOk interrupted : Bool}

def ioctl (s : UserDevices) : UserRequest → ℤ × UserDevices
  | .event file accessOk req => s.liberaEventIoctl file accessOk req
  | .dsc file accessOk req => s.dscIoctl file accessOk req
  | .dd accessOk interrupted newDec => s.ddIoctl accessOk interrupted newDec

/-- A request fails with an error number and changes nothing. -/
def Harmless (s : UserDevices) (result : ℤ × UserDevices) : Prop := result.1 < 0 ∧ result.2 = s

/-- The event device refuses the request although it does not look at the result of the copy. -/
def RefusesEvent (s : UserDevices) (file : File) : EventRequest → Prop
  | .setMt ts => s.drv.lgbl.d ≤ ts.value.phase
  | .setMask _ => s.event.masterFilp ≠ some file.filp
  | _ => False

/-- A check before the copy refuses the request, or what the copy left in its destination is not
accepted: a phase in `LIBERA_EVENT_SET_MT`, a decimation in `LIBERA_IOC_SET_DEC`. -/
def Refuses (s : UserDevices) : UserRequest → Prop
  | .event file accessOk req => accessOk = false ∨ s.RefusesEvent file req
  | .dsc file accessOk _ => accessOk = false ∨ s.dsc.masterFilp ≠ some file.filp
  | .dd accessOk interrupted newDec =>
    accessOk = false ∨ interrupted = true ∨ newDec.value = 0

theorem harmless_refused {err : ℤ} (hneg : err < 0) : s.Harmless (err, s) := ⟨hneg, rfl⟩

theorem not_harmless_left (left : ℕ) (s' : UserDevices) : ¬s.Harmless (left, s') := by
  rintro ⟨hneg, -⟩
  exact absurd hneg (not_lt.mpr (Int.natCast_nonneg left))

theorem eventRequest_cmd (req : EventRequest) : iocType req.cmd = liberaEventMagic ∧
    (iocDir req.cmd &&& iocRead ≠ 0 ∨ iocDir req.cmd &&& iocWrite ≠ 0) := by
  cases req <;> dsimp only [EventRequest.cmd] <;> decide

theorem getFifolen_harmless {fifo : UserCopy U32} {back : ℕ} (hleft : 0 < fifo.left) :
    ¬s.Harmless (s.getFifolen fifo back) := by
  rw [getFifolen, if_pos hleft.ne']
  exact not_harmless_left _ _

theorem liberaEventCmd_harmless_iff {req : EventRequest} (hleft : 0 < req.left) :
    s.Harmless (s.liberaEventCmd file req) ↔ s.RefusesEvent file req := by
  cases req with
  | setFlmc temp => exact iff_of_false (not_harmless_left _ _) id
  | setMcphi mcphi => exact iff_of_false (not_harmless_left _ _) id
  | setScphi scphi => exact iff_of_false (not_harmless_left _ _) id
  | setNco nco => exact iff_of_false (not_harmless_left _ _) id
  | setMcpll temp status => exact iff_of_false (not_harmless_left _ _) id
  | setScpll temp => exact iff_of_false (not_harmless_left _ _) id
  | setSt ts => exact iff_of_false (not_harmless_left _ _) id
  | setMt ts =>
      rw [liberaEventCmd, RefusesEvent]
      by_cases hphase : s.drv.lgbl.d ≤ ts.value.phase
      · rw [if_pos hphase]
        exact iff_of_true (harmless_refused (by decide)) hphase
      · rw [if_neg hphase]
        exact iff_of_false (not_harmless_left _ _) hphase
  | getFifolenSc fifo back => exact iff_of_false (getFifolen_harmless hleft) id
  | getFifolenMc fifo back => exact iff_of_false (getFifolen_harmless hleft) id
  | setMask mask =>
      rw [liberaEventCmd, RefusesEvent]
      by_cases hmaster : s.event.masterFilp ≠ some file.filp
      · rw [if_pos hmaster]
        exact iff_of_true (harmless_refused (by decide)) hmaster
      · rw [if_neg hmaster]
        exact iff_of_false (not_harmless_left _ _) hmaster

theorem liberaEventIoctl_harmless_iff {req : EventRequest} (hleft : 0 < req.left) :
    s.Harmless (s.liberaEventIoctl file accessOk req) ↔
      accessOk = false ∨ s.RefusesEvent file req := by
  obtain ⟨htype, hdir⟩ := eventRequest_cmd req
  rw [liberaEventIoctl, if_neg (not_not.mpr htype)]
  cases accessOk with
  | false =>
      rw [if_pos ⟨hdir, rfl⟩]
      exact iff_of_true (harmless_refused (by decide)) (.inl rfl)
  | true =>
      rw [if_neg (by simp), liberaEventCmd_harmless_iff hleft]
      simp

theorem dscRequest_harmless (req : DscRequest) : ¬s.Harmless (s.dscRequest req) := by
  cases req with
  | setDsc param => exact not_harmless_left _ _
  | bcdOffsets offsets => exact not_harmless_left _ _

theorem dscRequest_cmd (req : DscRequest) : iocType req.cmd = liberaDscMagic ∧
    iocNr req.cmd &&& liberaIocMask = liberaIocDsc ∧ iocDir req.cmd = iocWrite := by
  cases req <;> dsimp only [DscRequest.cmd] <;> decide

theorem dscIoctl_harmless_iff (req : DscRequest) :
    s.Harmless (s.dscIoctl file accessOk req) ↔
      accessOk = false ∨ s.dsc.masterFilp ≠ some file.filp := by
  obtain ⟨htype, hnr, hdir⟩ := dscRequest_cmd req
  rw [dscIoctl, liberaDscIoctl, iocChecks, iocSanity, if_neg (not_not.mpr htype),
    if_neg (not_not.mpr hnr), hdir]
  cases accessOk with
  | false => exact iff_of_true (harmless_refused (by decide)) (.inl rfl)
  | true =>
      by_cases hmaster : s.dsc.masterFilp = some file.filp
      · simp [hmaster, dscRequest_harmless]
      · simp [hmaster, Harmless, EPERM]

theorem ddIoctl_harmless_iff {newDec : UserCopy U32} :
    s.Harmless (s.ddIoctl accessOk interrupted newDec) ↔
      accessOk = false ∨ interrupted = true ∨ newDec.value = 0 := by
  cases accessOk with
  | false => exact iff_of_true (harmless_refused (by decide)) (.inl rfl)
  | true =>
      cases interrupted with
      | true => exact iff_of_true (harmless_refused (by decide)) (.inr (.inl rfl))
      | false =>
          have hsanity : iocSanity liberaIocMagic liberaIocDd
              (ioc iocWrite liberaIocMagic 96 4) true = none := by decide
          rw [ddIoctl, hsanity]
          by_cases hzero : newDec.value = 0
          · have hset : s.ddLocal.setDec newDec.value = (s.ddLocal, -EINVAL) :=
              dif_neg (not_not.mpr hzero)
            rw [hset]
            exact iff_of_true (harmless_refused (show -EINVAL < 0 by decide)) (.inr (.inr hzero))
          · have hset : (s.ddLocal.setDec newDec.value).2 = 0 := by
              rw [DdLocal.setDec, dif_pos hzero]
            simp only [hset, if_true]
            refine iff_of_false (not_harmless_left _ _) ?_
            rintro (hfalse | hfalse | hfalse)
            · cases hfalse
            · cases hfalse
            · exact hzero hfalse

/-- A request whose copy fails is harmless exactly when it is refused for another reason. -/
theorem failed_copy_harmless_iff {req : UserRequest} (hleft : 0 < req.left) :
    s.Harmless (s.ioctl req) ↔ s.Refuses req := by
  cases req with
  | event file accessOk req => exact liberaEventIoctl_harmless_iff hleft
  | dsc file accessOk req => exact dscIoctl_harmless_iff req
  | dd accessOk interrupted newDec => exact ddIoctl_harmless_iff

/-- Nobody has opened a device. -/
def closed : UserDevices where
  drv := .boot (fun _ ↦ 0) ⟨0xffffffff, 0, 1, 1, 0⟩ ⟨0, 0, 0, 0⟩
  flmcdHz := 1
  event := .zero
  dsc := .zero
  ddLocal := .ddOpen

theorem failed_copy_harmless_phase : closed.Harmless
    (closed.ioctl (.event ⟨1, ⟨true, false⟩⟩ true (.setMt ⟨20, ⟨⟨0, 0⟩, 0, 5⟩⟩))) :=
  (failed_copy_harmless_iff (by decide)).mpr (.inr (show (1 : U32) ≤ 5 by decide))

/-- Four bytes of the oscillator setting are not copied: four is returned, and what was on the
stack is written to the register. -/
theorem garbage_written : closed.ioctl (.event ⟨1, ⟨true, false⟩⟩ true (.setNco ⟨4, 0xdeadbeef⟩)) =
      (4, { closed with drv := closed.drv.writel 0xdeadbeef ddcNco }) ∧
    ¬closed.Harmless
      (closed.ioctl (.event ⟨1, ⟨true, false⟩⟩ true (.setNco ⟨4, 0xdeadbeef⟩))) := by
  refine ⟨rfl, ?_⟩
  rintro ⟨hneg, -⟩
  exact absurd hneg (by decide)

end UserDevices

end LiberaBase
