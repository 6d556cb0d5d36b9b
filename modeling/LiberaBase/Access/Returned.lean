import LiberaBase.Access.Operations
import LiberaBase.Pm.Acquire

/-!
# What the operations return

With the mutexes or without them, an operation returns the same: `open` of every device where the
mutex is free, and a read of the dd device with the answers it gets on its way.
-/

namespace LiberaBase

open Locking

namespace Locked

/-! ## `open` -/

section

variable {l : Locks Mutex} {m : Mutex} {file : File} {kmallocOk : Bool}

theorem openMaster_run {dev : CommonDev} (hfree : l m = false) :
    openMaster m dev file l = .ok (dev.openMaster file, l) := by
  rw [openMaster, run_lock_bind hfree, CommonDev.openMaster]
  by_cases hmaster : file.mode.write = true ∧ dev.masterFilp ≠ none
  · rw [if_pos hmaster, if_pos hmaster, run_unlock_bind hfree]
    rfl
  · rw [if_neg hmaster, run_unlock_bind hfree]
    rfl

theorem openReader_run {dev : CommonDev} (hfree : l m = false) :
    openReader m dev file l = .ok (dev.openReader file, l) := by
  rw [openReader, run_lock_bind hfree, CommonDev.openReader]
  by_cases hwrite : file.mode.write = true
  · rw [if_pos hwrite, if_pos hwrite, run_unlock_bind hfree]
    rfl
  · rw [if_neg hwrite, run_unlock_bind hfree]
    rfl

theorem liberaDdOpen_run {dev : CommonDev} (hfree : l .dd = false) :
    liberaDdOpen dev file kmallocOk l = .ok (LiberaBase.liberaDdOpen dev file kmallocOk, l) := by
  rw [liberaDdOpen, run_lock_bind hfree, LiberaBase.liberaDdOpen]
  by_cases hwrite : file.mode.write = true
  · rw [if_pos hwrite, if_pos hwrite, run_unlock_bind hfree]
    rfl
  · rw [if_neg hwrite, if_neg hwrite]
    by_cases hkmalloc : kmallocOk = false
    · rw [if_pos hkmalloc, if_pos hkmalloc, run_unlock_bind hfree]
      rfl
    · rw [if_neg hkmalloc, run_unlock_bind hfree]
      rfl

theorem liberaSaOpen_run {dev : SaAccess} (hfree : l .sa = false)
    (hpipe : l (.pipe file.filp) = false) :
    liberaSaOpen dev file kmallocOk l = .ok (LiberaBase.liberaSaOpen dev file kmallocOk, l) := by
  have hinit : init (.pipe file.filp) (Function.update l .sa true) =
      .ok ((), Function.update l .sa true) := by simp [init, hpipe]
  rw [liberaSaOpen, run_lock_bind hfree]
  by_cases hwrite : file.mode.write = true
  · rw [if_pos hwrite, run_unlock_bind hfree, LiberaBase.liberaSaOpen, if_pos hwrite]
    rfl
  rw [if_neg hwrite]
  by_cases hroom : dev.pipe.registered < Sa.liberaSaMaxReaders
  · rw [if_pos hroom]
    by_cases hkmalloc : kmallocOk = false
    · rw [if_pos hkmalloc, run_unlock_bind hfree, LiberaBase.liberaSaOpen, if_neg hwrite,
        if_pos hroom, if_pos hkmalloc]
      rfl
    · rw [if_neg hkmalloc, run_bind_ok hinit, run_unlock_bind hfree]
      rfl
  · rw [if_neg hroom, run_unlock_bind hfree, LiberaBase.liberaSaOpen, if_neg hwrite, if_neg hroom]
    rfl

theorem liberaEventOpen_run {s : EventAccess} (hfree : l .event = false) :
    liberaEventOpen s file kmallocOk l = .ok (s.liberaEventOpen file kmallocOk, l) := by
  rw [liberaEventOpen, run_lock_bind hfree]
  by_cases hkmalloc : kmallocOk = false
  · rw [if_pos hkmalloc, run_unlock_bind hfree, EventAccess.liberaEventOpen, if_pos hkmalloc]
    rfl
  rw [if_neg hkmalloc]
  by_cases hmaster :
      file.mode.write = true ∧ (s.setLocal file.filp fun _ ↦ 0).common.masterFilp ≠ none
  · have hcommon : (s.setLocal file.filp fun _ ↦ 0).common.openMaster file =
        (- EBUSY, (s.setLocal file.filp fun _ ↦ 0).common) := if_pos hmaster
    have hopen : s.liberaEventOpen file kmallocOk = (- EBUSY, s.setLocal file.filp fun _ ↦ 0) := by
      rw [EventAccess.liberaEventOpen, if_neg hkmalloc]
      simp only [hcommon]
      exact if_neg (by simp [EBUSY])
    rw [if_pos hmaster, run_unlock_bind hfree, hopen]
    rfl
  · rw [if_neg hmaster, run_unlock_bind hfree]
    rfl

end

/-! ## The current time -/

def waitRet : Option Wait → ℤ
  | none => 0
  | some w => if w.signal then -ERESTARTSYS else 0

theorem yields_waitOn (m : Mutex) (w : Option Wait) : Yields (some (waitRet w)) (waitOn m w) := by
  cases w with
  | none => exact .pure _
  | some w => exact Yields.sleeps.known (.pure _)

def BlockedCall.answer (c : BlockedCall) : Except CallError HwTime :=
  if c.interrupted then .error .restartsys
  else if waitRet c.wait ≠ 0 then .error .restartsys
  else match c.data with
    | none => .error .efault
    | some time => .ok time

theorem yields_getBlockedFromFIFO (c : BlockedCall) :
    Yields (some c.answer) (getBlockedFromFIFO c) := by
  unfold BlockedCall.answer
  apply Yields.interruptible
  · intro hsignal
    rw [if_pos hsignal]
    exact .pure _
  · intro hsignal
    rw [if_neg (ne_true_of_eq_false hsignal)]
    exact (yields_waitOn .event c.wait).known (Yields.unlock.known (.pure _))

def CtimeCall.stamp (c : CtimeCall) : Except CallError HwTime → CtimeAnswer
  | .error e => .error e
  | .ok lmt =>
    match c.sc with
    | none => .error .efault
    | some lst => .ok ⟨lst, lmt⟩

def CtimeCall.answer (c : CtimeCall) : CtimeAnswer :=
  if c.interrupted then .error .restartsys else c.stamp c.mc.answer

theorem yields_fifos (c : CtimeCall) : Yields (some (c.stamp c.mc.answer)) c.fifos := by
  apply (yields_getBlockedFromFIFO c.mc).known
  cases c.mc.answer with
  | error e => exact .pure _
  | ok lmt =>
      dsimp only [CtimeCall.stamp]
      cases c.sc with
      | none => exact .pure _
      | some lst => exact .pure _

theorem yields_liberaGetCTIME (c : CtimeCall) : Yields (some c.answer) (liberaGetCTIME c) := by
  unfold CtimeCall.answer
  apply Yields.interruptible
  · intro hsignal
    rw [if_pos hsignal]
    exact .pure _
  · intro hsignal
    rw [if_neg (ne_true_of_eq_false hsignal)]
    exact .unlocked (yields_fifos c)

/-! ## The wait for the start -/

section

variable (d : U32) (clock : Ltimestamp → HwTime) (start : HwTime)

theorem yields_waitLoop (ctime : Ltimestamp) (calls : List CtimeCall) :
    Yields (LiberaBase.waitLoop d clock start ctime (calls.map (·.answer)))
      (waitLoop d clock start ctime calls) := by
  induction calls generalizing ctime with
  | nil => exact .stillWaits
  | cons c rest ih =>
      rw [List.map_cons, waitLoop, LiberaBase.waitLoop.eq_def]
      apply (yields_liberaGetCTIME c).known
      cases c.answer with
      | error e => exact .pure _
      | ok now => exact .ite (fun _ ↦ ih now) fun _ ↦ .pure _

theorem waitTime_eq (ctime : Ltimestamp) (answers : List CtimeAnswer) :
    LiberaBase.waitTime d clock ctime start answers =
      match LiberaBase.waitTime d clock ctime start [] with
      | some r => some r
      | none => LiberaBase.waitLoop d clock start ctime answers := by
  unfold LiberaBase.waitTime
  dsimp only
  split_ifs
  · rfl
  · rfl
  · rfl
  · rfl

theorem yields_waitTime (ctime : Ltimestamp) (calls : List CtimeCall) :
    Yields (LiberaBase.waitTime d clock ctime start (calls.map (·.answer)))
      (waitTime d clock ctime start calls) := by
  rw [waitTime_eq, waitTime]
  cases LiberaBase.waitTime d clock ctime start [] with
  | none => exact yields_waitLoop d clock start ctime calls
  | some r => exact .pure r

end

/-! ## The read of the dd device -/

namespace DdReadCall

def call (c : DdReadCall) : ReadCall where
  count := c.count
  interrupted := c.interrupted
  ctime := c.ctime.answer
  waits := c.waits.map (·.answer)
  lastTrigger := c.lastTrigger
  irq := c.irq.answer.map fun _ ↦ ()
  transferRet := c.transferRet
  written := c.written

variable (c : DdReadCall)

theorem yields_resolve (now : Ltimestamp) :
    Yields (LiberaBase.resolve c.env c.loc.qts now c.lastTrigger (c.waits.map (·.answer)))
      (c.resolve now) := by
  unfold resolve LiberaBase.resolve
  generalize c.loc.qts = q
  obtain ⟨u, l, request, trigoffset⟩ := q
  cases request with
  | implicit =>
      dsimp only [resolveImplicit]
      cases lmt2lst c.env.flmcdHz (c.lastTrigger.lmt + trigoffset * c.env.d.toHw) c.lastTrigger with
      | none => exact .pure _
      | some lst =>
          apply (yields_waitTime _ _ _ _ c.waits).map
          intro r
          exact .pure _
  | explicitST =>
      apply (yields_waitTime _ _ _ _ c.waits).map
      intro r
      rw [apply_ite some]
      apply Yields.ite
      · intro _
        exact .pure _
      · intro _
        dsimp only
        cases lst2lmt c.env.flmcdHz l.lst r.2 with
        | none => exact .pure _
        | some lmt => exact .pure _
  | explicitMT =>
      apply (yields_waitTime _ _ _ _ c.waits).map
      intro r
      rw [apply_ite some]
      apply Yields.ite
      · intro _
        exact .pure _
      · intro _
        dsimp only
        cases lmt2lst c.env.flmcdHz l.lmt r.2 with
        | none => exact .pure _
        | some lst => exact .pure _

theorem yields_transfer (q : Qtimestamp) :
    Yields (some (LiberaBase.transfer c.env c.loc c.call q).ret) (c.transfer q) := by
  dsimp only [transfer, LiberaBase.transfer, call]
  cases liberaDdWriteCBfifo (getCircOffsetLmt c.env.d c.env.off c.env.hbStart q.l.lmt)
    (c.count / atomSize) c.loc.dec with
  | none => exact .pure _
  | some cb =>
      apply (yields_getBlockedFromFIFO c.irq).known
      cases c.irq.answer with
      | error e => exact .pure _
      | ok time =>
          by_cases hneg : c.transferRet < 0
          · simp only [Except.map, if_pos hneg]
            exact .pure _
          · simp only [Except.map, if_neg hneg]
            exact .pure _

theorem yields_body (hint : c.interrupted = false) :
    Yields ((LiberaBase.liberaDdRead c.env c.loc c.call).map (·.ret)) c.body := by
  have hcount : c.call.count = c.count := rfl
  have hlocked : ¬c.call.interrupted = true := by simp [call, hint]
  unfold body LiberaBase.liberaDdRead
  rw [if_neg hlocked, hcount]
  by_cases hbig : ddMaxNoatoms * atomSize < c.count
  · rw [if_pos hbig, if_pos hbig]
    exact .pure _
  rw [if_neg hbig, if_neg hbig]
  by_cases hmod : c.count % atomSize ≠ 0
  · rw [if_pos hmod, if_pos hmod]
    exact .pure _
  rw [if_neg hmod, if_neg hmod]
  by_cases hzero : c.count / atomSize = 0
  · rw [if_pos hzero, if_pos hzero]
    exact .pure _
  rw [if_neg hzero, if_neg hzero]
  apply (yields_liberaGetCTIME c.ctime).known
  dsimp only [call]
  cases c.ctime.answer with
  | error e => exact .pure _
  | ok now =>
      dsimp only
      rw [Option.map_map]
      apply (c.yields_resolve now).map
      intro r
      by_cases hret : r.1 ≠ 0
      · simp only [Function.comp_apply, if_pos hret]
        exact .pure _
      · simp only [Function.comp_apply, if_neg hret]
        exact c.yields_transfer r.2

end DdReadCall

theorem yields_liberaDdRead (c : DdReadCall) :
    Yields ((LiberaBase.liberaDdRead c.env c.loc c.call).map (·.ret)) (liberaDdRead c) := by
  apply Yields.interruptible
  · intro hsignal
    rw [LiberaBase.liberaDdRead, if_pos (show c.call.interrupted = true from hsignal)]
    exact .pure _
  · intro hsignal
    exact .unlocked (c.yields_body hsignal)

/-! ## `libera_acq_pm` -/

namespace AcqPmCall

variable {α : Type*} (c : AcqPmCall) (transfer : PmTransfer c.pmsize.toNat) (atoms : ℕ → α)

def call : AcqCall α c.pmsize where
  locked := true
  env := c.env
  pmOffset := c.pmOffset
  pmDec := c.pmDec
  ctime := c.ctime.answer
  waits := c.waits.map (·.answer)
  irq := c.irq.answer.map fun _ ↦ ()
  transfer := transfer
  atoms := atoms

/-- An acquisition that returns returns what it does without the mutexes. -/
theorem yields_acquire (pm : PmDevice α) (hret : transfer.ret = c.transferRet) :
    Yields ((pm.liberaAcqPm c.trigger (c.call transfer atoms)).map (·.1)) c.acquire := by
  have hlocked : ¬(c.call transfer atoms).locked = false := by simp [call]
  unfold acquire PmDevice.liberaAcqPm AcqCall.prepare
  rw [if_neg hlocked]
  apply (yields_liberaGetCTIME c.ctime).known
  dsimp only [call]
  cases c.ctime.answer with
  | error e =>
      simp only [Option.map_some, if_pos e.code_neg.ne]
      exact .pure _
  | ok now =>
      dsimp only
      rw [Option.map_map, Option.map_map]
      apply (yields_waitTime _ _ _ _ c.waits).map
      intro r
      by_cases hr : r.1 ≠ 0
      · simp only [Function.comp_apply, if_pos hr]
        exact .pure _
      have hr' : r.1 = 0 := not_not.mp hr
      rcases Option.eq_none_or_eq_some (liberaDdWriteCBfifo (getCircOffsetLmt c.env.d c.env.off
        c.env.hbStart (c.trigger.lmt + U32.signedToHw ((c.pmOffset - c.pmsize) * c.env.d)))
          c.pmsize c.pmDec) with hcb | ⟨cb, hcb⟩
      · simp only [Function.comp_apply, AcqCall.command, AcqCall.lmtStart, hr', hcb, ne_eq,
          not_true, if_false]
        exact .pure _
      simp only [Function.comp_apply, AcqCall.command, AcqCall.lmtStart, hr', hcb, ne_eq, not_true,
        if_false]
      apply (yields_getBlockedFromFIFO c.irq).known
      cases c.irq.answer with
      | error e =>
          simp only [Except.map, e.code_neg.ne, not_false_iff, if_true]
          exact .pure _
      | ok time =>
          simp only [Except.map, not_true, if_false, hret]
          by_cases hneg : c.transferRet < 0
          · simp only [if_pos hneg]
            exact .pure _
          by_cases hshort : c.transferRet < c.pmsize.toNat
          · simp only [if_neg hneg, if_pos hshort]
            exact .pure _
          · simp only [if_neg hneg, if_neg hshort]
            exact .pure _

end AcqPmCall

end Locked

end LiberaBase
