import LiberaBase.Access.Released
import LiberaBase.Lib.LockOrder

/-!
# The operations of the devices, step by step

The operations as programs that can be interrupted by those of other processes wherever they take a
mutex, give it back or sleep.  A process sleeps without the mutex while it waits at a fifo, and with
the mutexes it has while it waits for a time, between two tries for `dd->sem`, and for the transfer.
However often it sleeps in a row is one sleep.
-/

namespace LiberaBase

open Locking (Prog)

namespace Stepped

open Locked (Wait TimedWait BlockedCall BlockedUserCall CtimeCall AcqPmCall BlockCall SaReadCall
  EventReadCall PmReadCall AdcReadCall DdReadCall IoctlCall EventCmd liberaIocGetDec
  liberaIocSetDec liberaIocGetDdTstamp liberaIocGetPmTstamp fionread)

/-! ## Waiting at a fifo -/

def waitOn (m : Mutex) : Option Wait → Prog Mutex ℤ
  | none => .done 0
  | some w => .sleeps m w.sleeps (.done (if w.signal then -ERESTARTSYS else 0))

def waitOnTimed (m : Mutex) : Option TimedWait → Prog Mutex ℤ
  | none => .done 0
  | some ⟨n, .notEmpty⟩ => .sleeps m n (.done 0)
  | some ⟨n, .signal⟩ => .sleeps m n (.done (-ERESTARTSYS))
  | some ⟨n, .timeout⟩ => .sleeps m (n + 1) (.done (-EAGAIN))

def getBlockedFromFIFO (c : BlockedCall) : Prog Mutex (Except CallError HwTime) :=
  .interruptible .event c.interrupted (.done (.error .restartsys)) <|
    (waitOn .event c.wait).bind fun ret ↦
      .unlock .event <| .done <|
        if ret ≠ 0 then .error .restartsys
        else match c.data with
          | none => .error .efault
          | some time => .ok time

def getBlockedFromFIFOuser (c : BlockedUserCall) : Prog Mutex ℤ :=
  .interruptible .event c.interrupted (.done (-ERESTARTSYS)) <|
    (waitOnTimed .event c.wait).bind fun ret ↦
      .unlock .event <| .done <|
        if ret ≠ 0 then ret
        else match c.data with
          | none => -EFAULT
          | some _ => if c.copied then 0 else -EFAULT

/-! ## The current time -/

def fifos (c : CtimeCall) : Prog Mutex CtimeAnswer :=
  (getBlockedFromFIFO c.mc).bind fun
    | .error e => .done (.error e)
    | .ok lmt =>
      match c.sc with
      | none => .done (.error .efault)
      | some lst => .done (.ok ⟨lst, lmt⟩)

def liberaGetCTIME (c : CtimeCall) : Prog Mutex CtimeAnswer :=
  .interruptible .ctime c.interrupted (.done (.error .restartsys)) (.unlocked .ctime (fifos c))

def waitLoop (d : U32) (clock : Ltimestamp → HwTime) (start : HwTime) (ctime : Ltimestamp) :
    List CtimeCall → Prog Mutex (ℤ × Ltimestamp)
  | [] => .stop
  | c :: rest =>
    .sleep <| (liberaGetCTIME c).bind fun
      | .error e => .done (e.code, ctime)
      | .ok now =>
        if waitDelta d (clock now) start < 0 then waitLoop d clock start now rest
        else .done (0, now)

def waitTime (d : U32) (clock : Ltimestamp → HwTime) (ctime : Ltimestamp) (start : HwTime)
    (calls : List CtimeCall) : Prog Mutex (ℤ × Ltimestamp) :=
  match LiberaBase.waitTime d clock ctime start [] with
  | some r => .done r
  | none => waitLoop d clock start ctime calls

def waitLmt (d : U32) := waitTime d Ltimestamp.lmt

def waitLst (d : U32) := waitTime d Ltimestamp.lst

/-! ## `libera_acq_pm` -/

/-- The tries for `dd->sem`, and how it goes on with the mutex and without. -/
def tryDd (busy : ℕ → Bool) : ℕ → Prog Mutex ℤ → Prog Mutex ℤ → Prog Mutex ℤ
  | 0, _, without => without
  | n + 1, got, without =>
    .tryLock .dd (busy n) fun taken ↦ if taken then got else .sleep (tryDd busy n got without)

def acquire (c : AcqPmCall) : Prog Mutex ℤ :=
  let lmtStart := c.trigger.lmt + U32.signedToHw ((c.pmOffset - c.pmsize) * c.env.d)
  (liberaGetCTIME c.ctime).bind fun
    | .error e => .done e.code
    | .ok now =>
      (waitLmt c.env.d now lmtStart c.waits).bind fun r ↦
        if r.1 ≠ 0 then .done r.1
        else
          match liberaDdWriteCBfifo (getCircOffsetLmt c.env.d c.env.off c.env.hbStart lmtStart)
            c.pmsize c.pmDec with
          | none => .done (-EINVAL)
          | some _ =>
            (getBlockedFromFIFO c.irq).bind fun
              | .error e => .done e.code
              | .ok _ =>
                .sleep <| .done <|
                  if c.transferRet < 0 then c.transferRet
                  else if c.transferRet < c.pmsize.toNat then - EIO
                  else 0

def liberaAcqPm (c : AcqPmCall) : Prog Mutex ℤ :=
  tryDd c.busy 31 (.unlocked .dd (acquire c)) (.done (-EBUSY))

/-! ## `open` and `release` -/

def openMaster (m : Mutex) (dev : CommonDev) (file : File) : Prog Mutex (ℤ × CommonDev) :=
  .lock m <|
    if file.mode.write = true ∧ dev.masterFilp ≠ none then .unlock m (.done (- EBUSY, dev))
    else .unlock m (.done (dev.openMaster file))

def openReader (m : Mutex) (dev : CommonDev) (file : File) : Prog Mutex (ℤ × CommonDev) :=
  .lock m <|
    if file.mode.write then .unlock m (.done (- EACCES, dev))
    else .unlock m (.done (dev.openReader file))

def liberaDdOpen (dev : CommonDev) (file : File) (kmallocOk : Bool) :
    Prog Mutex (ℤ × CommonDev) :=
  .lock .dd <|
    if file.mode.write then .unlock .dd (.done (- EACCES, dev))
    else if kmallocOk = false then
      .unlock .dd (.done (- ENOMEM, { dev with readers := dev.readers + 1 }))
    else .unlock .dd (.done (LiberaBase.liberaDdOpen dev file kmallocOk))

def liberaSaOpen (dev : SaAccess) (file : File) (kmallocOk : Bool) : Prog Mutex (ℤ × SaAccess) :=
  .lock .sa <|
    if file.mode.write then .unlock .sa (.done (- EACCES, dev))
    else if dev.pipe.registered < Sa.liberaSaMaxReaders then
      if kmallocOk = false then .unlock .sa (.done (- ENOMEM, dev))
      else
        .init (.pipe file.filp) (.unlock .sa (.done (LiberaBase.liberaSaOpen dev file kmallocOk)))
    else .unlock .sa (.done (- EBUSY, dev))

def liberaEventOpen (s : EventAccess) (file : File) (kmallocOk : Bool) :
    Prog Mutex (ℤ × EventAccess) :=
  .lock .event <|
    if kmallocOk = false then .unlock .event (.done (- ENOMEM, s))
    else
      let s₁ := s.setLocal file.filp fun _ ↦ 0
      if file.mode.write = true ∧ s₁.common.masterFilp ≠ none then
        .unlock .event (.done (- EBUSY, s₁))
      else .unlock .event (.done (s.liberaEventOpen file kmallocOk))

def liberaSaRelease (dev : SaAccess) (file : File) : Prog Mutex SaAccess :=
  .lock .sa (.unlock .sa (.done (LiberaBase.liberaSaRelease dev file)))

/-! ## `read`, `write` and `llseek` -/

/-- Nothing but the mutex is waited for, and it is given back with `ret`. -/
def critical (m : Mutex) (interrupted : Bool) (ret : ℤ) : Prog Mutex ℤ :=
  .interruptible m interrupted (.done (-ERESTARTSYS)) (.unlock m (.done ret))

def transferBlock (m : Mutex) (blocksize : ℕ) (c : BlockCall) : Prog Mutex ℤ :=
  critical m c.interrupted (c.ret blocksize)

def fromPipe (c : SaReadCall) : Prog Mutex ℤ :=
  if c.count % 64 ≠ 0 then .done (-EINVAL)
  else if c.wait.isSome = true ∧ c.nonblock = true then .done (-EAGAIN)
  else
    (waitOn (.pipe c.filp) c.wait).bind fun ret ↦
      if ret ≠ 0 then .done ret else .done (c.fifo.ret c.count 64)

def liberaSaRead (c : SaReadCall) : Prog Mutex ℤ :=
  if c.seeked then .done (- ESPIPE)
  else if c.count = 0 then .done 0
  else
    .interruptible (.pipe c.filp) c.interrupted (.done (-ERESTARTSYS))
      (.unlocked (.pipe c.filp) (fromPipe c))

def fromFifo (c : EventReadCall) : Prog Mutex ℤ :=
  if c.nonblock = true ∧ c.wait.isSome = true then .done (-EAGAIN)
  else if c.count = 0 then .done 0
  else if c.count % 8 ≠ 0 then .done (-EINVAL)
  else
    (waitOn .event c.wait).bind fun ret ↦
      if ret ≠ 0 then .done ret else .done (c.fifo.ret c.count 8)

def liberaEventRead (c : EventReadCall) : Prog Mutex ℤ :=
  .interruptible .event c.interrupted (.done (-ERESTARTSYS)) (.unlocked .event (fromFifo c))

def liberaPmRead (c : PmReadCall) : Prog Mutex ℤ :=
  critical .pm c.interrupted <|
    if c.pmsize * atomSize < c.count then -EINVAL
    else if c.count % atomSize ≠ 0 then -EINVAL
    else if c.copied = false then -EFAULT
    else toLong (c.count / atomSize * atomSize).toNat

def liberaAdcRead (c : AdcReadCall) : Prog Mutex ℤ :=
  if c.count = 0 then .done 0
  else
    .interruptible .adc c.interrupted (.done (-ERESTARTSYS)) <|
      match c.body with
      | .return ret => .done ret
      | .out ret => .unlock .adc (.done ret)

def resolveST (c : DdReadCall) (now : Ltimestamp) (q : Qtimestamp) :
    Prog Mutex (ℤ × Qtimestamp) :=
  (waitLst c.env.d now q.l.lst c.waits).bind fun r ↦
    if r.1 ≠ 0 then .done (r.1, q)
    else
      match lst2lmt c.env.flmcdHz q.l.lst r.2 with
      | none => .done (-ERANGE, q)
      | some lmt => .done (0, { q with l.lmt := lmt, u.mt := lmt2mt c.env.d lmt })

def resolveMT (c : DdReadCall) (now : Ltimestamp) (q : Qtimestamp) :
    Prog Mutex (ℤ × Qtimestamp) :=
  (waitLmt c.env.d now q.l.lmt c.waits).bind fun r ↦
    if r.1 ≠ 0 then .done (r.1, q)
    else
      match lmt2lst c.env.flmcdHz q.l.lmt r.2 with
      | none => .done (-ERANGE, q)
      | some lst => .done (0, { q with l.lst := lst, u.st := lst2st lst })

def resolveImplicit (c : DdReadCall) (now : Ltimestamp) (q : Qtimestamp) :
    Prog Mutex (ℤ × Qtimestamp) :=
  let lmt := c.lastTrigger.lmt + q.trigoffset * U32.toHw c.env.d
  match lmt2lst c.env.flmcdHz lmt c.lastTrigger with
  | none => .done (-ERANGE, { q with l := ⟨c.lastTrigger.lst, lmt⟩ })
  | some lst =>
    (waitLmt c.env.d now lmt c.waits).bind fun r ↦
      .done (r.1, { q with l := ⟨lst, lmt⟩, u := ⟨lst2st lst, lmt2mt c.env.d lmt⟩ })

def resolve (c : DdReadCall) (now : Ltimestamp) : Prog Mutex (ℤ × Qtimestamp) :=
  match c.loc.qts.request with
  | .explicitST => resolveST c now c.loc.qts
  | .explicitMT => resolveMT c now c.loc.qts
  | .implicit => resolveImplicit c now c.loc.qts

def transfer (c : DdReadCall) (q : Qtimestamp) : Prog Mutex ℤ :=
  let startAddr := getCircOffsetLmt c.env.d c.env.off c.env.hbStart q.l.lmt
  match liberaDdWriteCBfifo startAddr (c.count / atomSize) c.loc.dec with
  | none => .done (-EINVAL)
  | some _ =>
    (getBlockedFromFIFO c.irq).bind fun
      | .error _ => .done 0
      | .ok _ =>
        .sleep <| .done <|
          if c.transferRet < 0 then toLong (c.written * 32) else toLong (c.transferRet * 32)

def ddReadBody (c : DdReadCall) : Prog Mutex ℤ :=
  if ddMaxNoatoms * atomSize < c.count then .done (-EINVAL)
  else if c.count % atomSize ≠ 0 then .done (-EINVAL)
  else if c.count / atomSize = 0 then .done 0
  else
    (liberaGetCTIME c.ctime).bind fun
      | .error e => .done e.code
      | .ok now =>
        (resolve c now).bind fun r ↦ if r.1 ≠ 0 then .done r.1 else transfer c r.2

def liberaDdRead (c : DdReadCall) : Prog Mutex ℤ :=
  .interruptible .dd c.interrupted (.done (-ERESTARTSYS)) (.unlocked .dd (ddReadBody c))

def liberaDdLlseek (env : DdEnv) (loc : DdLocal) (time : HwTime) (whence : ℕ) (ctime : CtimeCall) :
    Prog Mutex (DdLocal × ℤ) :=
  if (whence = 0 ∨ whence = 1) ∧ time = 0 then
    (liberaGetCTIME ctime).bind fun answer ↦ .done (loc.liberaDdLlseek env time whence answer)
  else .done (loc.liberaDdLlseek env time whence (.error .efault))

/-! ## `ioctl` -/

def liberaDdIoctl (loc : DdLocal) (c : IoctlCall) : Prog Mutex ℤ :=
  match iocSanity liberaIocMagic liberaIocDd c.cmd c.accessOk with
  | some err => .done err
  | none =>
    critical .dd c.interrupted <|
      if c.cmd = liberaIocGetDec then c.arg.left
      else if c.cmd = liberaIocSetDec then
        if (loc.setDec c.arg.value).2 = 0 then c.arg.left else (loc.setDec c.arg.value).2
      else if c.cmd = liberaIocGetDdTstamp then c.arg.left
      else - ENOTTY

def liberaPmIoctl (dev : CommonDev) (file : File) (c : IoctlCall) : Prog Mutex ℤ :=
  match iocChecks liberaIocMagic liberaIocPm dev file c.cmd c.accessOk with
  | some err => .done err
  | none =>
    critical .pm c.interrupted <|
      if c.cmd = liberaIocGetPmTstamp then (c.arg.left : ℤ) else - ENOTTY

def liberaEventCmd : EventCmd → Prog Mutex ℤ
  | .getTrigger enabled c => if enabled = false then .done (- EPERM) else getBlockedFromFIFOuser c
  | .getTime c left => (liberaGetCTIME c).bind fun _ ↦ .done left
  | .acqPm c => liberaAcqPm c
  | .other ret => .done ret

def liberaEventIoctl (cmd : U32) (accessOk : Bool) (req : EventCmd) : Prog Mutex ℤ :=
  if iocType cmd ≠ liberaEventMagic ∧ cmd ≠ fionread then .done (- ENOTTY)
  else if (iocDir cmd &&& iocRead ≠ 0 ∨ iocDir cmd &&& iocWrite ≠ 0) ∧ accessOk = false then
    .done (- EFAULT)
  else liberaEventCmd req

end Stepped

namespace DeviceOp

/-- The operation step by step, with what it returns. -/
def prog : DeviceOp → Prog Mutex ℤ
  | cfgOpen dev file => (Stepped.openMaster .cfg dev file).bind (.done ·.1)
  | cfgRelease _ _ => .done 0
  | cfgIoctl dev file c ret => .done ((liberaCfgIoctl dev file c.cmd c.accessOk).getD ret)
  | ddOpen dev file kmallocOk => (Stepped.liberaDdOpen dev file kmallocOk).bind (.done ·.1)
  | ddRelease _ => .done 0
  | ddLlseek env loc time whence ctime =>
    (Stepped.liberaDdLlseek env loc time whence ctime).bind (.done ·.2)
  | ddRead c => Stepped.liberaDdRead c
  | ddIoctl loc c => Stepped.liberaDdIoctl loc c
  | faOpen dev file => (Stepped.openMaster .fa dev file).bind (.done ·.1)
  | faRelease _ _ => .done 0
  | faRead c => Stepped.transferBlock .fa faiBlocksize c
  | faWrite c => Stepped.transferBlock .fa faiBlocksize c
  | faIoctl dev file c => .done ((liberaFaIoctl dev file c.cmd c.accessOk).getD (- ENOTTY))
  | pmOpen dev file => (Stepped.openReader .pm dev file).bind (.done ·.1)
  | pmRelease _ => .done 0
  | pmRead c => Stepped.liberaPmRead c
  | pmIoctl dev file c => Stepped.liberaPmIoctl dev file c
  | saOpen dev file kmallocOk => (Stepped.liberaSaOpen dev file kmallocOk).bind (.done ·.1)
  | saRelease dev file => (Stepped.liberaSaRelease dev file).bind fun _ ↦ .done 0
  | saRead c => Stepped.liberaSaRead c
  | eventOpen s file kmallocOk => (Stepped.liberaEventOpen s file kmallocOk).bind (.done ·.1)
  | eventRelease _ _ => .done 0
  | eventRead c => Stepped.liberaEventRead c
  | eventIoctl cmd accessOk req => Stepped.liberaEventIoctl cmd accessOk req
  | adcOpen dev file => (Stepped.openReader .adc dev file).bind (.done ·.1)
  | adcRelease _ => .done 0
  | adcRead c => Stepped.liberaAdcRead c
  | dscOpen dev file => (Stepped.openMaster .dsc dev file).bind (.done ·.1)
  | dscRelease _ _ => .done 0
  | dscRead c => Stepped.transferBlock .dsc dscBlocksize c
  | dscWrite c => Stepped.transferBlock .dsc dscBlocksize c
  | dscIoctl dev file c ret => .done ((liberaDscIoctl dev file c.cmd c.accessOk).getD ret)

end DeviceOp

/-! ## Alone they do what the operations do -/

namespace Stepped

open Locking.Prog

theorem denote_ite {α : Type} {c : Prop} [Decidable c] (x y : Prog Mutex α) :
    (if c then x else y).denote = if c then x.denote else y.denote := by
  by_cases hc : c
  · rw [if_pos hc, if_pos hc]
  · rw [if_neg hc, if_neg hc]

theorem denote_waitOn (m : Mutex) (w : Option Locked.Wait) :
    (waitOn m w).denote = Locked.waitOn m w := by
  cases w with
  | none => rfl
  | some w => exact denote_sleeps m w.sleeps _

theorem denote_waitOnTimed (m : Mutex) (w : Option Locked.TimedWait) :
    (waitOnTimed m w).denote = Locked.waitOnTimed m w := by
  rcases w with - | ⟨n, wakeUp⟩
  · rfl
  · cases wakeUp with
    | notEmpty => exact denote_sleeps m n _
    | signal => exact denote_sleeps m n _
    | timeout => exact denote_sleeps m (n + 1) _

theorem denote_getBlockedFromFIFO (c : Locked.BlockedCall) :
    (getBlockedFromFIFO c).denote = Locked.getBlockedFromFIFO c := by
  rw [getBlockedFromFIFO, denote_interruptible, denote_bind, denote_waitOn]
  rfl

theorem denote_getBlockedFromFIFOuser (c : Locked.BlockedUserCall) :
    (getBlockedFromFIFOuser c).denote = Locked.getBlockedFromFIFOuser c := by
  rw [getBlockedFromFIFOuser, denote_interruptible, denote_bind, denote_waitOnTimed]
  rfl

theorem denote_fifos (c : Locked.CtimeCall) : (fifos c).denote = c.fifos := by
  rw [fifos, denote_bind, denote_getBlockedFromFIFO]
  refine congrArg _ (funext fun answer ↦ ?_)
  cases answer with
  | error e => rfl
  | ok lmt =>
      cases hsc : c.sc with
      | none => rfl
      | some lst => rfl

theorem denote_liberaGetCTIME (c : Locked.CtimeCall) :
    (liberaGetCTIME c).denote = Locked.liberaGetCTIME c := by
  rw [liberaGetCTIME, denote_interruptible, denote_unlocked, denote_fifos]
  rfl

theorem denote_waitLoop (d : U32) (clock : Ltimestamp → HwTime) (start : HwTime)
    (ctime : Ltimestamp) (calls : List Locked.CtimeCall) :
    (waitLoop d clock start ctime calls).denote =
      Locked.waitLoop d clock start ctime calls := by
  induction calls generalizing ctime with
  | nil => rfl
  | cons c rest ih =>
      rw [waitLoop, denote, denote_bind, denote_liberaGetCTIME]
      refine congrArg _ (funext fun answer ↦ ?_)
      cases answer with
      | error e => rfl
      | ok now =>
          dsimp only
          rw [denote_ite, ih]
          rfl

theorem denote_waitTime (d : U32) (clock : Ltimestamp → HwTime) (ctime : Ltimestamp)
    (start : HwTime) (calls : List Locked.CtimeCall) :
    (waitTime d clock ctime start calls).denote = Locked.waitTime d clock ctime start calls := by
  unfold waitTime Locked.waitTime
  cases LiberaBase.waitTime d clock ctime start [] with
  | none => exact denote_waitLoop d clock start ctime calls
  | some r => rfl

theorem denote_tryDd (busy : ℕ → Bool) (n : ℕ) (x y : Prog Mutex ℤ) :
    (tryDd busy n x y).denote =
      Locked.tryDd busy n >>= fun b ↦ if b = true then x.denote else y.denote := by
  induction n with
  | zero => rfl
  | succ n ih =>
      rw [tryDd, denote, Locked.tryDd, bind_assoc]
      refine congrArg _ (funext fun taken ↦ ?_)
      cases taken with
      | true => rfl
      | false => exact ih

theorem denote_acquire (c : Locked.AcqPmCall) : (acquire c).denote = c.acquire := by
  rw [acquire, denote_bind, denote_liberaGetCTIME]
  refine congrArg _ (funext fun answer ↦ ?_)
  cases answer with
  | error e => rfl
  | ok now =>
      dsimp only
      rw [denote_bind, waitLmt, denote_waitTime]
      refine congrArg _ (funext fun r ↦ ?_)
      rw [denote_ite]
      refine congrArg _ ?_
      cases liberaDdWriteCBfifo _ c.pmsize c.pmDec with
      | none => rfl
      | some cb =>
          dsimp only
          rw [denote_bind, denote_getBlockedFromFIFO]
          refine congrArg _ (funext fun answer ↦ ?_)
          cases answer with
          | error e => rfl
          | ok time =>
              simp only [denote]
              split_ifs <;> rfl

theorem denote_liberaAcqPm (c : Locked.AcqPmCall) :
    (liberaAcqPm c).denote = Locked.liberaAcqPm c := by
  rw [liberaAcqPm, denote_tryDd, denote_unlocked, denote_acquire]
  rfl

theorem denote_openMaster (m : Mutex) (dev : CommonDev) (file : File) :
    (openMaster m dev file).denote = Locked.openMaster m dev file := by
  rw [openMaster, denote, denote_ite]
  rfl

theorem denote_openReader (m : Mutex) (dev : CommonDev) (file : File) :
    (openReader m dev file).denote = Locked.openReader m dev file := by
  rw [openReader, denote, denote_ite]
  rfl

theorem denote_liberaDdOpen (dev : CommonDev) (file : File) (kmallocOk : Bool) :
    (liberaDdOpen dev file kmallocOk).denote = Locked.liberaDdOpen dev file kmallocOk := by
  rw [liberaDdOpen, denote, denote_ite, denote_ite]
  rfl

theorem denote_liberaSaOpen (dev : SaAccess) (file : File) (kmallocOk : Bool) :
    (liberaSaOpen dev file kmallocOk).denote = Locked.liberaSaOpen dev file kmallocOk := by
  rw [liberaSaOpen, denote, denote_ite, denote_ite, denote_ite]
  rfl

theorem denote_liberaEventOpen (s : EventAccess) (file : File) (kmallocOk : Bool) :
    (liberaEventOpen s file kmallocOk).denote = Locked.liberaEventOpen s file kmallocOk := by
  rw [liberaEventOpen, denote, denote_ite]
  dsimp only
  rw [denote_ite]
  rfl

theorem denote_critical (m : Mutex) (interrupted : Bool) (ret : ℤ) :
    (critical m interrupted ret).denote = (do
      if ← Locking.lockInterruptible m interrupted then
        pure (-ERESTARTSYS)
      else
        Locking.unlock m
        pure ret) :=
  denote_interruptible ..

theorem denote_fromPipe (c : Locked.SaReadCall) : (fromPipe c).denote = c.fromPipe := by
  rw [fromPipe, denote_ite, denote_ite, denote_bind, denote_waitOn]
  simp only [denote_ite]
  rfl

theorem denote_liberaSaRead (c : Locked.SaReadCall) :
    (liberaSaRead c).denote = Locked.liberaSaRead c := by
  rw [liberaSaRead, denote_ite, denote_ite, denote_interruptible, denote_unlocked, denote_fromPipe]
  rfl

theorem denote_fromFifo (c : Locked.EventReadCall) : (fromFifo c).denote = c.fromFifo := by
  rw [fromFifo, denote_ite, denote_ite, denote_ite, denote_bind, denote_waitOn]
  simp only [denote_ite]
  rfl

theorem denote_liberaEventRead (c : Locked.EventReadCall) :
    (liberaEventRead c).denote = Locked.liberaEventRead c := by
  rw [liberaEventRead, denote_interruptible, denote_unlocked, denote_fromFifo]
  rfl

theorem denote_liberaAdcRead (c : Locked.AdcReadCall) :
    (liberaAdcRead c).denote = Locked.liberaAdcRead c := by
  rw [liberaAdcRead, denote_ite, denote_interruptible, Locked.liberaAdcRead]
  cases c.body with
  | out ret => rfl
  | «return» ret => rfl

theorem denote_resolve (c : Locked.DdReadCall) (now : Ltimestamp) :
    (resolve c now).denote = c.resolve now := by
  unfold resolve Locked.DdReadCall.resolve
  cases c.loc.qts.request with
  | implicit =>
      dsimp only [resolveImplicit, Locked.DdReadCall.resolveImplicit]
      cases lmt2lst c.env.flmcdHz _ c.lastTrigger with
      | none => rfl
      | some lst =>
          dsimp only
          rw [denote_bind, waitLmt, denote_waitTime]
          rfl
  | explicitST =>
      dsimp only [resolveST]
      rw [denote_bind, waitLst, denote_waitTime]
      refine congrArg _ (funext fun r ↦ ?_)
      rw [denote_ite]
      refine congrArg _ ?_
      cases lst2lmt c.env.flmcdHz _ r.2 with
      | none => rfl
      | some lmt => rfl
  | explicitMT =>
      dsimp only [resolveMT]
      rw [denote_bind, waitLmt, denote_waitTime]
      refine congrArg _ (funext fun r ↦ ?_)
      rw [denote_ite]
      refine congrArg _ ?_
      cases lmt2lst c.env.flmcdHz _ r.2 with
      | none => rfl
      | some lst => rfl

theorem denote_transfer (c : Locked.DdReadCall) (q : Qtimestamp) :
    (transfer c q).denote = c.transfer q := by
  unfold transfer Locked.DdReadCall.transfer
  dsimp only
  cases liberaDdWriteCBfifo _ (c.count / atomSize) c.loc.dec with
  | none => rfl
  | some cb =>
      dsimp only
      rw [denote_bind, denote_getBlockedFromFIFO]
      refine congrArg _ (funext fun answer ↦ ?_)
      cases answer with
      | error e => rfl
      | ok time =>
          simp only [denote]
          split_ifs <;> rfl

theorem denote_ddReadBody (c : Locked.DdReadCall) : (ddReadBody c).denote = c.body := by
  rw [ddReadBody, denote_ite, denote_ite, denote_ite, denote_bind, denote_liberaGetCTIME]
  refine congrArg _ (congrArg _ (congrArg _ (congrArg _ (funext fun answer ↦ ?_))))
  cases answer with
  | error e => rfl
  | ok now =>
      dsimp only
      rw [denote_bind, denote_resolve]
      refine congrArg _ (funext fun r ↦ ?_)
      rw [denote_ite, denote_transfer]
      rfl

theorem denote_liberaDdRead (c : Locked.DdReadCall) :
    (liberaDdRead c).denote = Locked.liberaDdRead c := by
  rw [liberaDdRead, denote_interruptible, denote_unlocked, denote_ddReadBody]
  rfl

theorem denote_liberaDdLlseek (env : DdEnv) (loc : DdLocal) (time : HwTime) (whence : ℕ)
    (ctime : Locked.CtimeCall) : (liberaDdLlseek env loc time whence ctime).denote =
      Locked.liberaDdLlseek env loc time whence ctime := by
  rw [liberaDdLlseek, denote_ite, denote_bind, denote_liberaGetCTIME]
  rfl

theorem denote_liberaDdIoctl (loc : DdLocal) (c : Locked.IoctlCall) :
    (liberaDdIoctl loc c).denote = Locked.liberaDdIoctl loc c := by
  unfold liberaDdIoctl Locked.liberaDdIoctl
  cases iocSanity liberaIocMagic liberaIocDd c.cmd c.accessOk with
  | none => exact denote_critical ..
  | some err => rfl

theorem denote_liberaPmIoctl (dev : CommonDev) (file : File) (c : Locked.IoctlCall) :
    (liberaPmIoctl dev file c).denote = Locked.liberaPmIoctl dev file c := by
  unfold liberaPmIoctl Locked.liberaPmIoctl
  cases iocChecks liberaIocMagic liberaIocPm dev file c.cmd c.accessOk with
  | none => exact denote_critical ..
  | some err => rfl

theorem denote_liberaEventCmd (req : Locked.EventCmd) :
    (liberaEventCmd req).denote = Locked.liberaEventCmd req := by
  cases req with
  | getTrigger enabled c =>
      rw [liberaEventCmd, denote_ite, denote_getBlockedFromFIFOuser]
      rfl
  | getTime c left =>
      rw [liberaEventCmd, denote_bind, denote_liberaGetCTIME]
      rfl
  | acqPm c => exact denote_liberaAcqPm c
  | other ret => rfl

theorem denote_liberaEventIoctl (cmd : U32) (accessOk : Bool) (req : Locked.EventCmd) :
    (liberaEventIoctl cmd accessOk req).denote = Locked.liberaEventIoctl cmd accessOk req := by
  rw [liberaEventIoctl, denote_ite, denote_ite, denote_liberaEventCmd]
  rfl

end Stepped

open Locking.Prog Stepped in
/-- An operation that nobody disturbs is the operation as a whole. -/
theorem DeviceOp.denote_prog (op : DeviceOp) : op.prog.denote = op.run := by
  cases op with
  | cfgOpen dev file => exact denote_map _ (denote_openMaster ..)
  | cfgRelease dev file => rfl
  | cfgIoctl dev file c ret => rfl
  | ddOpen dev file kmallocOk => exact denote_map _ (denote_liberaDdOpen ..)
  | ddRelease dev => rfl
  | ddLlseek env loc time whence ctime => exact denote_map _ (denote_liberaDdLlseek ..)
  | ddRead c => exact denote_liberaDdRead c
  | ddIoctl loc c => exact denote_liberaDdIoctl loc c
  | faOpen dev file => exact denote_map _ (denote_openMaster ..)
  | faRelease dev file => rfl
  | faRead c => exact denote_critical ..
  | faWrite c => exact denote_critical ..
  | faIoctl dev file c => rfl
  | pmOpen dev file => exact denote_map _ (denote_openReader ..)
  | pmRelease dev => rfl
  | pmRead c => exact denote_critical ..
  | pmIoctl dev file c => exact denote_liberaPmIoctl dev file c
  | saOpen dev file kmallocOk => exact denote_map _ (denote_liberaSaOpen ..)
  | saRelease dev file => exact denote_map _ rfl
  | saRead c => exact denote_liberaSaRead c
  | eventOpen s file kmallocOk => exact denote_map _ (denote_liberaEventOpen ..)
  | eventRelease s file => rfl
  | eventRead c => exact denote_liberaEventRead c
  | eventIoctl cmd accessOk req => exact denote_liberaEventIoctl cmd accessOk req
  | adcOpen dev file => exact denote_map _ (denote_openReader ..)
  | adcRelease dev => rfl
  | adcRead c => exact denote_liberaAdcRead c
  | dscOpen dev file => exact denote_map _ (denote_openMaster ..)
  | dscRelease dev file => rfl
  | dscRead c => exact denote_critical ..
  | dscWrite c => exact denote_critical ..
  | dscIoctl dev file c ret => rfl

end LiberaBase
