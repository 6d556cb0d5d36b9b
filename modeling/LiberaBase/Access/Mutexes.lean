import LiberaBase.Dd.Read
import LiberaBase.Lib.Locking

/-!
# The functions that take the mutexes of several devices

Every device has a mutex, and so has every pipe of the sa device.  A request for the current time
takes `CTIME_sem`, and waiting for a time stamp takes the mutex of the event device, which a process
gives back while it sleeps.  `libera_acq_pm`, a request to the event device, takes that of dd.
-/

namespace LiberaBase

open Locking

inductive Mutex where
  | cfg
  | dd
  | fa
  | pm
  | sa
  | event
  | adc
  | dsc
  | ctime
  /-- of the pipe that belongs to a file -/
  | pipe (filp : ℕ)
  deriving DecidableEq

namespace Locked

/-! ## Waiting at a fifo -/

/-- How often a process sleeps, and whether a signal ends the wait or the fifo is filled. -/
structure Wait where
  sleeps : ℕ
  signal : Bool

/-- The wait for a fifo; `none` is a fifo that is not empty. -/
def waitOn (m : Mutex) : Option Wait → Locking Mutex ℤ
  | none => pure 0
  | some w => do
    sleeps m w.sleeps
    pure (if w.signal then -ERESTARTSYS else 0)

inductive WakeUp where
  | notEmpty
  | signal
  | timeout

/-- A wait that is given up after some time. -/
structure TimedWait where
  sleeps : ℕ
  wakeUp : WakeUp

/-- The timeout is seen after one more sleep. -/
def waitOnTimed (m : Mutex) : Option TimedWait → Locking Mutex ℤ
  | none => pure 0
  | some ⟨n, .notEmpty⟩ => do
    sleeps m n
    pure 0
  | some ⟨n, .signal⟩ => do
    sleeps m n
    pure (-ERESTARTSYS)
  | some ⟨n, .timeout⟩ => do
    sleeps m (n + 1)
    pure (-EAGAIN)

/-- What `getBlockedFromFIFO` finds: a signal at the mutex, the wait, and what is in the fifo
then, `none` for `NULL`. -/
structure BlockedCall where
  interrupted : Bool
  wait : Option Wait
  data : Option HwTime

def getBlockedFromFIFO (c : BlockedCall) : Locking Mutex (Except CallError HwTime) := do
  if ← lockInterruptible .event c.interrupted then
    pure (.error .restartsys)
  else
    let ret ← waitOn .event c.wait
    let answer :=
      if ret ≠ 0 then .error .restartsys
      else match c.data with
        | none => .error .efault
        | some time => .ok time
    unlock .event
    pure answer

/-- What `getBlockedFromFIFOuser` finds; `copied` is what `copy_to_user` does. -/
structure BlockedUserCall where
  interrupted : Bool
  wait : Option TimedWait
  data : Option HwTime
  copied : Bool

def getBlockedFromFIFOuser (c : BlockedUserCall) : Locking Mutex ℤ := do
  if ← lockInterruptible .event c.interrupted then
    pure (-ERESTARTSYS)
  else
    let ret ← waitOnTimed .event c.wait
    let answer :=
      if ret ≠ 0 then ret
      else match c.data with
        | none => -EFAULT
        | some _ => if c.copied then 0 else -EFAULT
    unlock .event
    pure answer

/-! ## The current time -/

/-- What `libera_get_CTIME` finds; `sc` is the other half of the stamp. -/
structure CtimeCall where
  interrupted : Bool
  mc : BlockedCall
  sc : Option HwTime

def CtimeCall.fifos (c : CtimeCall) : Locking Mutex CtimeAnswer := do
  match ← getBlockedFromFIFO c.mc with
  | .error e => pure (.error e)
  | .ok lmt =>
    match c.sc with
    | none => pure (.error .efault)
    | some lst => pure (.ok ⟨lst, lmt⟩)

def liberaGetCTIME (c : CtimeCall) : Locking Mutex CtimeAnswer := do
  if ← lockInterruptible .ctime c.interrupted then
    pure (.error .restartsys)
  else
    let answer ← c.fifos
    unlock .ctime
    pure answer

/-- The loop of `wait_lmt` and `wait_lst`. -/
def waitLoop (d : U32) (clock : Ltimestamp → HwTime) (start : HwTime) (ctime : Ltimestamp) :
    List CtimeCall → Locking Mutex (ℤ × Ltimestamp)
  | [] => stillWaits
  | c :: rest => do
    match ← liberaGetCTIME c with
    | .error e => pure (e.code, ctime)
    | .ok now =>
      if waitDelta d (clock now) start < 0 then waitLoop d clock start now rest else pure (0, now)

/-- `wait_lmt` and `wait_lst`; without an answer they are undecided where they enter the loop. -/
def waitTime (d : U32) (clock : Ltimestamp → HwTime) (ctime : Ltimestamp) (start : HwTime)
    (calls : List CtimeCall) : Locking Mutex (ℤ × Ltimestamp) :=
  match LiberaBase.waitTime d clock ctime start [] with
  | some r => pure r
  | none => waitLoop d clock start ctime calls

def waitLmt (d : U32) := waitTime d Ltimestamp.lmt

def waitLst (d : U32) := waitTime d Ltimestamp.lst

/-! ## `libera_acq_pm` -/

/-- What an acquisition finds: which tries for `dd->sem` find it taken, the last post-mortem
trigger, the globals and parameters, the calls for the time first and while it waits, the wait for
the DD interrupt, and what the transfer returns. -/
structure AcqPmCall where
  busy : ℕ → Bool
  trigger : Ltimestamp
  env : DdEnv
  pmsize : U32
  pmOffset : U32
  pmDec : U32
  ctime : CtimeCall
  waits : List CtimeCall
  irq : BlockedCall
  transferRet : ℤ

/-- The tries for `dd->sem`, of which a number is left. -/
def tryDd (busy : ℕ → Bool) : ℕ → Locking Mutex Bool
  | 0 => pure false
  | n + 1 => do
    if ← tryLock .dd (busy n) then pure true else tryDd busy n

/-- `libera_acq_pm` between `mutex_trylock` and `out`. -/
def AcqPmCall.acquire (c : AcqPmCall) : Locking Mutex ℤ := do
  let lmtStart := c.trigger.lmt + U32.signedToHw ((c.pmOffset - c.pmsize) * c.env.d)
  match ← liberaGetCTIME c.ctime with
  | .error e => pure e.code
  | .ok now =>
    let (ret, _) ← waitLmt c.env.d now lmtStart c.waits
    if ret ≠ 0 then pure ret
    else
      match liberaDdWriteCBfifo (getCircOffsetLmt c.env.d c.env.off c.env.hbStart lmtStart) c.pmsize
        c.pmDec with
      | none => pure (-EINVAL)
      | some _ =>
        match ← getBlockedFromFIFO c.irq with
        | .error e => pure e.code
        | .ok _ =>
          if c.transferRet < 0 then pure c.transferRet
          else if c.transferRet < c.pmsize.toNat then pure (- EIO)
          else pure 0

/-- `libera_acq_pm`; the loop counts down from 30. -/
def liberaAcqPm (c : AcqPmCall) : Locking Mutex ℤ := do
  if ← tryDd c.busy 31 then
    let ret ← c.acquire
    unlock .dd
    pure ret
  else pure (-EBUSY)

/-! ## They leave the mutexes as they were -/

variable {busy : Mutex → Prop} {l : Locks Mutex} {m : Mutex}

theorem ends_waitOn (hheld : l m = true) (w : Option Wait) : Ends busy l l (waitOn m w) := by
  cases w with
  | none => exact .pure 0
  | some w =>
      apply Ends.bind (.sleeps hheld w.sleeps)
      intro _
      exact .pure _

theorem ends_waitOnTimed (hheld : l m = true) (w : Option TimedWait) :
    Ends busy l l (waitOnTimed m w) := by
  rcases w with - | ⟨n, wakeUp⟩
  · exact .pure 0
  · cases wakeUp with
    | notEmpty => exact .bind (.sleeps hheld n) fun _ ↦ .pure _
    | signal => exact .bind (.sleeps hheld n) fun _ ↦ .pure _
    | timeout => exact .bind (.sleeps hheld (n + 1)) fun _ ↦ .pure _

section

variable (hevent : l .event = true → busy .event)

include hevent

theorem ends_getBlockedFromFIFO (c : BlockedCall) : Ends busy l l (getBlockedFromFIFO c) := by
  apply Ends.interruptible hevent (.pure _)
  intro hfree
  apply Ends.bind (ends_waitOn (Function.update_self ..) c.wait)
  intro ret
  exact .unlock_bind hfree (.pure _)

theorem ends_getBlockedFromFIFOuser (c : BlockedUserCall) :
    Ends busy l l (getBlockedFromFIFOuser c) := by
  apply Ends.interruptible hevent (.pure _)
  intro hfree
  apply Ends.bind (ends_waitOnTimed (Function.update_self ..) c.wait)
  intro ret
  exact .unlock_bind hfree (.pure _)

theorem ends_fifos (c : CtimeCall) : Ends busy l l c.fifos := by
  apply Ends.bind (ends_getBlockedFromFIFO hevent c.mc)
  intro answer
  cases answer with
  | error e => exact .pure _
  | ok lmt =>
      cases hsc : c.sc with
      | none => exact .pure _
      | some lst => exact .pure _

variable (hctime : l .ctime = true → busy .ctime)

include hctime

theorem ends_liberaGetCTIME (c : CtimeCall) : Ends busy l l (liberaGetCTIME c) := by
  apply Ends.interruptible hctime (.pure _)
  intro hfree
  apply Ends.unlocked hfree
  exact ends_fifos (Ends.busy_update (by decide) hevent) c

theorem ends_waitLoop (d : U32) (clock : Ltimestamp → HwTime) (start : HwTime)
    (ctime : Ltimestamp) (calls : List CtimeCall) :
    Ends busy l l (waitLoop d clock start ctime calls) := by
  induction calls generalizing ctime with
  | nil => exact .stillWaits
  | cons c rest ih =>
      apply Ends.bind (ends_liberaGetCTIME hevent hctime c)
      intro answer
      cases answer with
      | error e => exact .pure _
      | ok now => exact .ite (fun _ ↦ ih now) fun _ ↦ .pure _

theorem ends_waitTime (d : U32) (clock : Ltimestamp → HwTime) (ctime : Ltimestamp)
    (start : HwTime) (calls : List CtimeCall) :
    Ends busy l l (waitTime d clock ctime start calls) := by
  unfold waitTime
  cases LiberaBase.waitTime d clock ctime start [] with
  | none => exact ends_waitLoop hevent hctime d clock start ctime calls
  | some r => exact .pure r

theorem ends_acquire (c : AcqPmCall) : Ends busy l l c.acquire := by
  apply Ends.bind (ends_liberaGetCTIME hevent hctime c.ctime)
  intro answer
  cases answer with
  | error e => exact .pure _
  | ok now =>
      apply Ends.bind (ends_waitTime hevent hctime _ _ _ _ c.waits)
      intro r
      apply Ends.exit
      cases liberaDdWriteCBfifo _ c.pmsize c.pmDec with
      | none => exact .pure _
      | some cb =>
          apply Ends.bind (ends_getBlockedFromFIFO hevent c.irq)
          intro answer
          cases answer with
          | error e => exact .pure _
          | ok time => exact .exit (.exit (.pure _))

end

theorem ends_tryDd_bind {α : Type} {l' : Locks Mutex} {x y : Locking Mutex α} (busyNow : ℕ → Bool)
    (n : ℕ) (hx : l .dd = false → Ends busy (Function.update l .dd true) l' x)
    (hy : Ends busy l l' y) :
    Ends busy l l' (tryDd busyNow n >>= fun b ↦ if b = true then x else y) := by
  induction n with
  | zero => simpa [tryDd] using hy
  | succ n ih =>
      rw [tryDd, bind_assoc]
      apply Ends.tryLock_bind
      · simpa using ih
      · intro hfree
        simpa using hx hfree

theorem ends_liberaAcqPm (hevent : l .event = true → busy .event)
    (hctime : l .ctime = true → busy .ctime) (c : AcqPmCall) :
    Ends busy l l (liberaAcqPm c) := by
  refine ends_tryDd_bind c.busy 31 ?_ (.pure _)
  intro hfree
  apply Ends.unlocked hfree
  apply ends_acquire
  · exact Ends.busy_update (by decide) hevent
  · exact Ends.busy_update (by decide) hctime

end Locked

end LiberaBase
