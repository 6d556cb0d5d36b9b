import LiberaBase.Access.Mutexes
import LiberaBase.Access.Readers
import LiberaBase.Access.UserCopy
import LiberaBase.Event.Triggers

/-!
# The operations of the devices and their mutexes

Every place where an operation takes a mutex, and every exit with the mutexes it gives back there.
What an operation finds on its way (signals, copies, memory, fifos) is part of its call.
-/

namespace LiberaBase

open Locking

def ESPIPE : ℤ := 29

namespace Locked

/-! ## `open` -/

/-- `open` of the cfg, fa and dsc devices. -/
def openMaster (m : Mutex) (dev : CommonDev) (file : File) : Locking Mutex (ℤ × CommonDev) := do
  lock m
  if file.mode.write = true ∧ dev.masterFilp ≠ none then
    unlock m
    pure (- EBUSY, dev)
  else
    let opened := dev.openMaster file
    unlock m
    pure opened

def liberaCfgOpen := openMaster .cfg
def liberaFaOpen := openMaster .fa
def liberaDscOpen := openMaster .dsc

/-- `open` of the pm and adc devices. -/
def openReader (m : Mutex) (dev : CommonDev) (file : File) : Locking Mutex (ℤ × CommonDev) := do
  lock m
  if file.mode.write then
    unlock m
    pure (- EACCES, dev)
  else
    let opened := dev.openReader file
    unlock m
    pure opened

def liberaPmOpen := openReader .pm
def liberaAdcOpen := openReader .adc

def liberaDdOpen (dev : CommonDev) (file : File) (kmallocOk : Bool) :
    Locking Mutex (ℤ × CommonDev) := do
  lock .dd
  if file.mode.write then
    unlock .dd
    pure (- EACCES, dev)
  else if kmallocOk = false then
    unlock .dd
    pure (- ENOMEM, { dev with readers := dev.readers + 1 })
  else
    let opened := LiberaBase.liberaDdOpen dev file kmallocOk
    unlock .dd
    pure opened

def liberaSaOpen (dev : SaAccess) (file : File) (kmallocOk : Bool) :
    Locking Mutex (ℤ × SaAccess) := do
  lock .sa
  if file.mode.write then
    unlock .sa
    pure (- EACCES, dev)
  else if dev.pipe.registered < Sa.liberaSaMaxReaders then
    if kmallocOk = false then
      unlock .sa
      pure (- ENOMEM, dev)
    else
      init (.pipe file.filp)
      let opened := LiberaBase.liberaSaOpen dev file kmallocOk
      unlock .sa
      pure opened
  else
    unlock .sa
    pure (- EBUSY, dev)

def liberaEventOpen (s : EventAccess) (file : File) (kmallocOk : Bool) :
    Locking Mutex (ℤ × EventAccess) := do
  lock .event
  if kmallocOk = false then
    unlock .event
    pure (- ENOMEM, s)
  else
    let s₁ := s.setLocal file.filp fun _ ↦ 0
    if file.mode.write = true ∧ s₁.common.masterFilp ≠ none then
      unlock .event
      pure (- EBUSY, s₁)
    else
      let opened := s.liberaEventOpen file kmallocOk
      unlock .event
      pure opened

/-! ## `release` -/

/-- `release` of the cfg, fa and dsc devices takes no mutex. -/
def releaseMaster (dev : CommonDev) (file : File) : Locking Mutex CommonDev :=
  pure (dev.releaseMaster file)

def liberaCfgRelease := releaseMaster
def liberaFaRelease := releaseMaster
def liberaDscRelease := releaseMaster

def releaseReader (dev : CommonDev) : Locking Mutex CommonDev := pure dev.releaseReader

def liberaPmRelease := releaseReader
def liberaAdcRelease := releaseReader

def liberaDdRelease (dev : CommonDev) : Locking Mutex CommonDev :=
  pure (LiberaBase.liberaDdRelease dev)

def liberaEventRelease (s : EventAccess) (file : File) : Locking Mutex EventAccess :=
  pure (s.liberaEventRelease file)

def liberaSaRelease (dev : SaAccess) (file : File) : Locking Mutex SaAccess := do
  lock .sa
  let closed := LiberaBase.liberaSaRelease dev file
  unlock .sa
  pure closed

/-! ## `read` and `write` of the blocks -/

/-- The position, the count, a signal at the mutex, and whether the block is copied. -/
structure BlockCall where
  pos : ℕ
  count : U32
  interrupted : Bool
  copied : Bool

def BlockCall.ret (c : BlockCall) (blocksize : ℕ) : ℤ :=
  if blocksize ≤ c.pos then 0
  else
    let count := if blocksize - c.pos < c.count.toNat then blocksize - c.pos else c.count.toNat
    if count % 4 ≠ 0 then -EINVAL
    else if c.copied = false then -EFAULT
    else count

/-- `read` and `write` of the fa and dsc devices, which differ in the direction of the copy. -/
def transferBlock (m : Mutex) (blocksize : ℕ) (c : BlockCall) : Locking Mutex ℤ := do
  if ← lockInterruptible m c.interrupted then
    pure (-ERESTARTSYS)
  else
    let ret := c.ret blocksize
    unlock m
    pure ret

def liberaFaRead := transferBlock .fa faiBlocksize
def liberaFaWrite := transferBlock .fa faiBlocksize
def liberaDscRead := transferBlock .dsc dscBlocksize
def liberaDscWrite := transferBlock .dsc dscBlocksize

/-! ## `read` of the atoms -/

/-- A loop that copies a number of atoms, from the `i`-th on; `none` where one fails. -/
def copyLoop (ok : ℕ → Bool) (size : ℤ) : ℕ → ℕ → ℤ → Option ℤ
  | 0, _, ret => some ret
  | n + 1, i, ret => if ok i then copyLoop ok size n (i + 1) (ret + size) else none

/-- How many atoms a fifo holds, and for each whether it is found there and copied. -/
structure FifoCopy where
  len : ℕ
  found : ℕ → Bool
  copied : ℕ → Bool

/-- The atoms that were asked for, or those that there are. -/
def FifoCopy.ret (c : FifoCopy) (count : U32) (size : ℕ) : ℤ :=
  (copyLoop (fun i ↦ c.found i && c.copied i) size (min (count.toNat / size) c.len) 0 0).getD
    (-EFAULT)

/-- What `libera_sa_read` finds; `seeked` is an `*f_pos` that is not `file->f_pos`. -/
structure SaReadCall where
  filp : ℕ
  seeked : Bool
  count : U32
  interrupted : Bool
  nonblock : Bool
  wait : Option Wait
  fifo : FifoCopy

def SaReadCall.fromPipe (c : SaReadCall) : Locking Mutex ℤ := do
  if c.count % 64 ≠ 0 then pure (-EINVAL)
  else if c.wait.isSome = true ∧ c.nonblock = true then pure (-EAGAIN)
  else
    let ret ← waitOn (.pipe c.filp) c.wait
    if ret ≠ 0 then pure ret else pure (c.fifo.ret c.count 64)

def liberaSaRead (c : SaReadCall) : Locking Mutex ℤ := do
  if c.seeked then pure (- ESPIPE)
  else if c.count = 0 then pure 0
  else if ← lockInterruptible (.pipe c.filp) c.interrupted then
    pure (-ERESTARTSYS)
  else
    let ret ← c.fromPipe
    unlock (.pipe c.filp)
    pure ret

structure EventReadCall where
  count : U32
  interrupted : Bool
  nonblock : Bool
  wait : Option Wait
  fifo : FifoCopy

def EventReadCall.fromFifo (c : EventReadCall) : Locking Mutex ℤ := do
  if c.nonblock = true ∧ c.wait.isSome = true then pure (-EAGAIN)
  else if c.count = 0 then pure 0
  else if c.count % 8 ≠ 0 then pure (-EINVAL)
  else
    let ret ← waitOn .event c.wait
    if ret ≠ 0 then pure ret else pure (c.fifo.ret c.count 8)

def liberaEventRead (c : EventReadCall) : Locking Mutex ℤ := do
  if ← lockInterruptible .event c.interrupted then
    pure (-ERESTARTSYS)
  else
    let ret ← c.fromFifo
    unlock .event
    pure ret

structure PmReadCall where
  pmsize : U32
  count : U32
  interrupted : Bool
  copied : Bool

def liberaPmRead (c : PmReadCall) : Locking Mutex ℤ := do
  if ← lockInterruptible .pm c.interrupted then
    pure (-ERESTARTSYS)
  else
    let ret :=
      if c.pmsize * atomSize < c.count then -EINVAL
      else if c.count % atomSize ≠ 0 then -EINVAL
      else if c.copied = false then -EFAULT
      else toLong (c.count / atomSize * atomSize).toNat
    unlock .pm
    pure ret

/-- What `libera_adc_read` finds: its parameter, a signal at the mutex, what `dev->op` returns for
each atom if there is one, and which atoms are copied. -/
structure AdcReadCall where
  count : U32
  interrupted : Bool
  op : Option (ℕ → ℤ)
  copied : ℕ → Bool

def adcBufferAtoms : ℕ := 1024

/-- `goto out`, or `return` in the middle. -/
inductive AdcExit where
  | out (ret : ℤ)
  | return (ret : ℤ)

namespace AdcReadCall

def OpFails (c : AdcReadCall) : Prop := ∃ op ∈ c.op, ∃ i < adcBufferAtoms, op i ≠ 0

instance (c : AdcReadCall) : Decidable c.OpFails :=
  match h : c.op with
  | none => isFalse (by simp [OpFails, h])
  | some op => decidable_of_iff (∃ i < adcBufferAtoms, op i ≠ 0) (by simp [OpFails, h])

/-- `libera_adc_read` after the lock. -/
def body (c : AdcReadCall) : AdcExit :=
  if adcBufferAtoms * 8 < c.count.toNat then .out (-EINVAL)
  else if c.count % 8 ≠ 0 then .out (-EINVAL)
  else if c.OpFails then .out (-EFAULT)
  else
    match copyLoop c.copied 8 (c.count.toNat / 8) 0 0 with
    | none => .return (-EFAULT)
    | some ret => .out ret

end AdcReadCall

def liberaAdcRead (c : AdcReadCall) : Locking Mutex ℤ := do
  if c.count = 0 then pure 0
  else if ← lockInterruptible .adc c.interrupted then
    pure (-ERESTARTSYS)
  else
    match c.body with
    | .return ret => pure ret
    | .out ret =>
      unlock .adc
      pure ret

/-- What `libera_dd_read_specific` finds: the globals, the descriptor, its parameter, a signal at
the mutex, the calls for the time first and while it waits, the last trigger, the wait for the DD
interrupt, and what the transfer returns and leaves in `dma->written`. -/
structure DdReadCall where
  env : DdEnv
  loc : DdLocal
  count : U32
  interrupted : Bool
  ctime : CtimeCall
  waits : List CtimeCall
  lastTrigger : Ltimestamp
  irq : BlockedCall
  transferRet : ℤ
  written : ℕ

namespace DdReadCall

/-- Request given in absolute ST: its start is waited for, and the missing times are defined. -/
def resolveST (c : DdReadCall) (now : Ltimestamp) (q : Qtimestamp) :
    Locking Mutex (ℤ × Qtimestamp) := do
  let (ret, ctime) ← waitLst c.env.d now q.l.lst c.waits
  if ret ≠ 0 then pure (ret, q)
  else
    match lst2lmt c.env.flmcdHz q.l.lst ctime with
    | none => pure (-ERANGE, q)
    | some lmt => pure (0, { q with l.lmt := lmt, u.mt := lmt2mt c.env.d lmt })

/-- Request given in absolute MT. -/
def resolveMT (c : DdReadCall) (now : Ltimestamp) (q : Qtimestamp) :
    Locking Mutex (ℤ × Qtimestamp) := do
  let (ret, ctime) ← waitLmt c.env.d now q.l.lmt c.waits
  if ret ≠ 0 then pure (ret, q)
  else
    match lmt2lst c.env.flmcdHz q.l.lmt ctime with
    | none => pure (-ERANGE, q)
    | some lst => pure (0, { q with l.lst := lst, u.st := lst2st lst })

/-- Trigger defined time. -/
def resolveImplicit (c : DdReadCall) (now : Ltimestamp) (q : Qtimestamp) :
    Locking Mutex (ℤ × Qtimestamp) :=
  let lmt := c.lastTrigger.lmt + q.trigoffset * U32.toHw c.env.d
  match lmt2lst c.env.flmcdHz lmt c.lastTrigger with
  | none => pure (-ERANGE, { q with l := ⟨c.lastTrigger.lst, lmt⟩ })
  | some lst => do
    let (ret, _) ← waitLmt c.env.d now lmt c.waits
    pure (ret, { q with l := ⟨lst, lmt⟩, u := ⟨lst2st lst, lmt2mt c.env.d lmt⟩ })

def resolve (c : DdReadCall) (now : Ltimestamp) : Locking Mutex (ℤ × Qtimestamp) :=
  match c.loc.qts.request with
  | .explicitST => c.resolveST now c.loc.qts
  | .explicitMT => c.resolveMT now c.loc.qts
  | .implicit => c.resolveImplicit now c.loc.qts

def transfer (c : DdReadCall) (q : Qtimestamp) : Locking Mutex ℤ :=
  let startAddr := getCircOffsetLmt c.env.d c.env.off c.env.hbStart q.l.lmt
  match liberaDdWriteCBfifo startAddr (c.count / atomSize) c.loc.dec with
  | none => pure (-EINVAL)
  | some _ => do
    match ← getBlockedFromFIFO c.irq with
    -- `ret` is still 0 on this path
    | .error _ => pure 0
    | .ok _ =>
      if c.transferRet < 0 then pure (toLong (c.written * 32)) else pure (toLong (c.transferRet * 32))

/-- `libera_dd_read_specific` between the lock and `out`. -/
def body (c : DdReadCall) : Locking Mutex ℤ := do
  if ddMaxNoatoms * atomSize < c.count then pure (-EINVAL)
  else if c.count % atomSize ≠ 0 then pure (-EINVAL)
  else if c.count / atomSize = 0 then pure 0
  else
    match ← liberaGetCTIME c.ctime with
    | .error e => pure e.code
    | .ok now =>
      let (ret, q) ← c.resolve now
      if ret ≠ 0 then pure ret else c.transfer q

end DdReadCall

def liberaDdRead (c : DdReadCall) : Locking Mutex ℤ := do
  if ← lockInterruptible .dd c.interrupted then
    pure (-ERESTARTSYS)
  else
    let ret ← c.body
    unlock .dd
    pure ret

/-- `libera_dd_llseek_specific`, the only `llseek` that takes a mutex: it asks for the time if it
is given none. -/
def liberaDdLlseek (env : DdEnv) (loc : DdLocal) (time : HwTime) (whence : ℕ) (ctime : CtimeCall) :
    Locking Mutex (DdLocal × ℤ) := do
  if (whence = 0 ∨ whence = 1) ∧ time = 0 then
    let answer ← liberaGetCTIME ctime
    pure (loc.liberaDdLlseek env time whence answer)
  else pure (loc.liberaDdLlseek env time whence (.error .efault))

/-! ## `ioctl` -/

/-- The command, what `access_ok` answers, a signal at the mutex, and what `copy_to_user` or
`copy_from_user` returns and leaves in its destination. -/
structure IoctlCall where
  cmd : U32
  accessOk : Bool
  interrupted : Bool
  arg : UserCopy U32

def liberaIocGetDec : U32 := ioc iocRead liberaIocMagic 96 4
def liberaIocSetDec : U32 := ioc iocWrite liberaIocMagic 96 4
def liberaIocGetDdTstamp : U32 := ioc iocRead liberaIocMagic 97 16
def liberaIocGetPmTstamp : U32 := ioc iocRead liberaIocMagic 128 16

/-- The ioctl of the cfg, fa and dsc devices; after the checks comes the command, which returns
`ret` without taking a mutex. -/
def ioctlMaster (checks : Option ℤ) (ret : ℤ) : Locking Mutex ℤ := pure (checks.getD ret)

def liberaCfgIoctl (dev : CommonDev) (file : File) (c : IoctlCall) (ret : ℤ) :=
  ioctlMaster (LiberaBase.liberaCfgIoctl dev file c.cmd c.accessOk) ret

def liberaFaIoctl (dev : CommonDev) (file : File) (c : IoctlCall) :=
  ioctlMaster (LiberaBase.liberaFaIoctl dev file c.cmd c.accessOk) (- ENOTTY)

def liberaDscIoctl (dev : CommonDev) (file : File) (c : IoctlCall) (ret : ℤ) :=
  ioctlMaster (LiberaBase.liberaDscIoctl dev file c.cmd c.accessOk) ret

def liberaDdIoctl (loc : DdLocal) (c : IoctlCall) : Locking Mutex ℤ :=
  match iocSanity liberaIocMagic liberaIocDd c.cmd c.accessOk with
  | some err => pure err
  | none => do
    if ← lockInterruptible .dd c.interrupted then
      pure (-ERESTARTSYS)
    else
      let ret : ℤ :=
        if c.cmd = liberaIocGetDec then c.arg.left
        else if c.cmd = liberaIocSetDec then
          if (loc.setDec c.arg.value).2 = 0 then c.arg.left else (loc.setDec c.arg.value).2
        else if c.cmd = liberaIocGetDdTstamp then c.arg.left
        else - ENOTTY
      unlock .dd
      pure ret

def liberaPmIoctl (dev : CommonDev) (file : File) (c : IoctlCall) : Locking Mutex ℤ :=
  match iocChecks liberaIocMagic liberaIocPm dev file c.cmd c.accessOk with
  | some err => pure err
  | none => do
    if ← lockInterruptible .pm c.interrupted then
      pure (-ERESTARTSYS)
    else
      let ret := if c.cmd = liberaIocGetPmTstamp then (c.arg.left : ℤ) else - ENOTTY
      unlock .pm
      pure ret

/-- What `libera_event_cmd` is asked for, as far as the mutexes tell: to read a trigger, which the
descriptor may have enabled, to read the time (`GET_CTIME`, `GET_ST`, `GET_MT`), to acquire
post-mortem data, or something that takes no mutex and returns `ret`. -/
inductive EventCmd where
  | getTrigger (enabled : Bool) (c : BlockedUserCall)
  | getTime (c : CtimeCall) (left : ℕ)
  | acqPm (c : AcqPmCall)
  | other (ret : ℤ)

def liberaEventCmd : EventCmd → Locking Mutex ℤ
  | .getTrigger enabled c => if enabled = false then pure (- EPERM) else getBlockedFromFIFOuser c
  | .getTime c left => do
    -- what `libera_get_CTIME` returns is not looked at
    let _ ← liberaGetCTIME c
    pure left
  | .acqPm c => liberaAcqPm c
  | .other ret => pure ret

def fionread : U32 := 0x541B

/-- `libera_event_ioctl`; `req` is what `cmd` asks for. -/
def liberaEventIoctl (cmd : U32) (accessOk : Bool) (req : EventCmd) : Locking Mutex ℤ :=
  if iocType cmd ≠ liberaEventMagic ∧ cmd ≠ fionread then pure (- ENOTTY)
  else if (iocDir cmd &&& iocRead ≠ 0 ∨ iocDir cmd &&& iocWrite ≠ 0) ∧ accessOk = false then
    pure (- EFAULT)
  else liberaEventCmd req

end Locked

end LiberaBase
