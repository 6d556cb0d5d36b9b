import LiberaBase.Access.Operations

/-!
# Every device operation gives its mutexes back

An operation leaves the mutexes as it found them, with one exception: `libera_adc_read` returns from
the middle of its loop when an atom cannot be copied, with the mutex of the device held.  From then
on nobody gets that mutex.
-/

namespace LiberaBase

open Locking Runs

namespace Locked

variable {busy : Mutex → Prop} {l l' : Locks Mutex} {m : Mutex} {file : File} {kmallocOk : Bool}

/-! ## `open` and `release` -/

theorem ends_openMaster (hbusy : l m = true → busy m) (dev : CommonDev) (file : File) :
    Ends busy l l (openMaster m dev file) := by
  apply Ends.lock_bind hbusy
  intro hfree
  exact .ite (fun _ ↦ .unlock_bind hfree (.pure _)) fun _ ↦ .unlock_bind hfree (.pure _)

theorem ends_openReader (hbusy : l m = true → busy m) (dev : CommonDev) (file : File) :
    Ends busy l l (openReader m dev file) := by
  apply Ends.lock_bind hbusy
  intro hfree
  exact .ite (fun _ ↦ .unlock_bind hfree (.pure _)) fun _ ↦ .unlock_bind hfree (.pure _)

theorem ends_liberaDdOpen (hbusy : l .dd = true → busy .dd) (dev : CommonDev) (file : File)
    (kmallocOk : Bool) : Ends busy l l (liberaDdOpen dev file kmallocOk) := by
  apply Ends.lock_bind hbusy
  intro hfree
  apply Ends.ite
  · intro _
    exact .unlock_bind hfree (.pure _)
  · intro _
    exact .ite (fun _ ↦ .unlock_bind hfree (.pure _)) fun _ ↦ .unlock_bind hfree (.pure _)

theorem ends_liberaSaOpen (hbusy : l .sa = true → busy .sa)
    (hpipe : l (.pipe file.filp) = true → busy (.pipe file.filp)) (dev : SaAccess)
    (kmallocOk : Bool) : Ends busy l l (liberaSaOpen dev file kmallocOk) := by
  apply Ends.lock_bind hbusy
  intro hfree
  apply Ends.ite
  · intro _
    exact .unlock_bind hfree (.pure _)
  · intro _
    apply Ends.ite
    · intro _
      apply Ends.ite
      · intro _
        exact .unlock_bind hfree (.pure _)
      · intro _
        apply Ends.bind (.init (Ends.busy_update (by simp) hpipe))
        intro _
        exact .unlock_bind hfree (.pure _)
    · intro _
      exact .unlock_bind hfree (.pure _)

theorem ends_liberaEventOpen (hbusy : l .event = true → busy .event) (s : EventAccess)
    (file : File) (kmallocOk : Bool) : Ends busy l l (liberaEventOpen s file kmallocOk) := by
  apply Ends.lock_bind hbusy
  intro hfree
  apply Ends.ite
  · intro _
    exact .unlock_bind hfree (.pure _)
  · intro _
    exact .ite (fun _ ↦ .unlock_bind hfree (.pure _)) fun _ ↦ .unlock_bind hfree (.pure _)

theorem ends_liberaSaRelease (hbusy : l .sa = true → busy .sa) (dev : SaAccess) (file : File) :
    Ends busy l l (liberaSaRelease dev file) := by
  apply Ends.lock_bind hbusy
  intro hfree
  exact .unlock_bind hfree (.pure _)

/-! ## `read` -/

theorem ends_transferBlock (hbusy : l m = true → busy m) (blocksize : ℕ) (c : BlockCall) :
    Ends busy l l (transferBlock m blocksize c) := by
  apply Ends.interruptible hbusy (.pure _)
  intro hfree
  exact .unlock_bind hfree (.pure _)

theorem ends_liberaPmRead (hbusy : l .pm = true → busy .pm) (c : PmReadCall) :
    Ends busy l l (liberaPmRead c) := by
  apply Ends.interruptible hbusy (.pure _)
  intro hfree
  exact .unlock_bind hfree (.pure _)

theorem ends_fromPipe (c : SaReadCall) (hheld : l (.pipe c.filp) = true) :
    Ends busy l l c.fromPipe := by
  apply Ends.exit
  apply Ends.exit
  apply Ends.bind (ends_waitOn hheld c.wait)
  intro ret
  exact .exit (.pure _)

theorem ends_liberaSaRead (c : SaReadCall) (hbusy : l (.pipe c.filp) = true → busy (.pipe c.filp)) :
    Ends busy l l (liberaSaRead c) := by
  apply Ends.exit
  apply Ends.exit
  apply Ends.interruptible hbusy (.pure _)
  intro hfree
  apply Ends.unlocked hfree
  exact ends_fromPipe c (Function.update_self ..)

theorem ends_fromFifo (c : EventReadCall) (hheld : l .event = true) :
    Ends busy l l c.fromFifo := by
  apply Ends.exit
  apply Ends.exit
  apply Ends.exit
  apply Ends.bind (ends_waitOn hheld c.wait)
  intro ret
  exact .exit (.pure _)

theorem ends_liberaEventRead (hbusy : l .event = true → busy .event) (c : EventReadCall) :
    Ends busy l l (liberaEventRead c) := by
  apply Ends.interruptible hbusy (.pure _)
  intro hfree
  apply Ends.unlocked hfree
  exact ends_fromFifo c (Function.update_self ..)

section

variable (hevent : l .event = true → busy .event) (hctime : l .ctime = true → busy .ctime)

include hevent hctime

theorem ends_resolve (c : DdReadCall) (now : Ltimestamp) : Ends busy l l (c.resolve now) := by
  unfold DdReadCall.resolve
  cases c.loc.qts.request with
  | implicit =>
      dsimp only [DdReadCall.resolveImplicit]
      split
      · exact .pure _
      · exact .bind (ends_waitTime hevent hctime _ _ _ _ _) fun _ ↦ .pure _
  | explicitST =>
      apply Ends.bind (ends_waitTime hevent hctime _ _ _ _ _)
      intro r
      apply Ends.exit
      split
      · exact .pure _
      · exact .pure _
  | explicitMT =>
      apply Ends.bind (ends_waitTime hevent hctime _ _ _ _ _)
      intro r
      apply Ends.exit
      split
      · exact .pure _
      · exact .pure _

omit hctime in
theorem ends_transfer (c : DdReadCall) (q : Qtimestamp) : Ends busy l l (c.transfer q) := by
  dsimp only [DdReadCall.transfer]
  split
  · exact .pure _
  · apply Ends.bind (ends_getBlockedFromFIFO hevent c.irq)
    intro answer
    cases answer with
    | error e => exact .pure _
    | ok time => exact .exit (.pure _)

theorem ends_body (c : DdReadCall) : Ends busy l l c.body := by
  apply Ends.exit
  apply Ends.exit
  apply Ends.exit
  apply Ends.bind (ends_liberaGetCTIME hevent hctime c.ctime)
  intro answer
  cases answer with
  | error e => exact .pure _
  | ok now =>
      apply Ends.bind (ends_resolve hevent hctime c now)
      intro r
      exact .exit (ends_transfer hevent c r.2)

theorem ends_liberaDdRead (hbusy : l .dd = true → busy .dd) (c : DdReadCall) :
    Ends busy l l (liberaDdRead c) := by
  apply Ends.interruptible hbusy (.pure _)
  intro hfree
  apply Ends.unlocked hfree
  apply ends_body
  · exact Ends.busy_update (by decide) hevent
  · exact Ends.busy_update (by decide) hctime

theorem ends_liberaDdLlseek (env : DdEnv) (loc : DdLocal) (time : HwTime) (whence : ℕ)
    (c : CtimeCall) : Ends busy l l (liberaDdLlseek env loc time whence c) := by
  apply Ends.ite
  · intro _
    apply Ends.bind (ends_liberaGetCTIME hevent hctime c)
    intro answer
    exact .pure _
  · intro _
    exact .pure _

theorem ends_liberaEventCmd (req : EventCmd) : Ends busy l l (liberaEventCmd req) := by
  cases req with
  | getTrigger enabled c =>
      exact .exit (ends_getBlockedFromFIFOuser hevent c)
  | getTime c left =>
      apply Ends.bind (ends_liberaGetCTIME hevent hctime c)
      intro answer
      exact .pure _
  | acqPm c => exact ends_liberaAcqPm hevent hctime c
  | other ret => exact .pure _

theorem ends_liberaEventIoctl (cmd : U32) (accessOk : Bool) (req : EventCmd) :
    Ends busy l l (liberaEventIoctl cmd accessOk req) := by
  apply Ends.exit
  apply Ends.exit
  exact ends_liberaEventCmd hevent hctime req

end

/-! ## `ioctl` -/

theorem ends_liberaDdIoctl (hbusy : l .dd = true → busy .dd) (loc : DdLocal) (c : IoctlCall) :
    Ends busy l l (liberaDdIoctl loc c) := by
  unfold liberaDdIoctl
  cases iocSanity liberaIocMagic liberaIocDd c.cmd c.accessOk with
  | some err => exact .pure _
  | none =>
      apply Ends.interruptible hbusy (.pure _)
      intro hfree
      exact .unlock_bind hfree (.pure _)

theorem ends_liberaPmIoctl (hbusy : l .pm = true → busy .pm) (dev : CommonDev) (file : File)
    (c : IoctlCall) : Ends busy l l (liberaPmIoctl dev file c) := by
  unfold liberaPmIoctl
  cases iocChecks liberaIocMagic liberaIocPm dev file c.cmd c.accessOk with
  | some err => exact .pure _
  | none =>
      apply Ends.interruptible hbusy (.pure _)
      intro hfree
      exact .unlock_bind hfree (.pure _)

/-! ## `libera_adc_read` -/

theorem copyLoop_eq_none_iff {ok : ℕ → Bool} {size : ℤ} (n i : ℕ) (ret : ℤ) :
    copyLoop ok size n i ret = none ↔ ∃ j < n, ok (i + j) = false := by
  induction n generalizing i ret with
  | zero => simp [copyLoop]
  | succ n ih =>
      rw [copyLoop]
      cases hok : ok i with
      | false => exact iff_of_true rfl ⟨0, n.succ_pos, hok⟩
      | true =>
          rw [if_pos rfl, ih]
          constructor
          · rintro ⟨j, hj, hfail⟩
            exact ⟨j + 1, Nat.succ_lt_succ hj, by rwa [Nat.add_comm j, ← Nat.add_assoc]⟩
          · rintro ⟨j, hj, hfail⟩
            cases j with
            | zero => simp [hok] at hfail
            | succ j =>
                exact ⟨j, Nat.lt_of_succ_lt_succ hj, by rwa [Nat.add_assoc, Nat.add_comm 1]⟩

namespace AdcReadCall

/-- The call gets the mutex, passes its checks, and an atom that was asked for is not copied. -/
structure CopyFails (c : AdcReadCall) : Prop where
  count_ne_zero : c.count ≠ 0
  interrupted : c.interrupted = false
  count_le : c.count.toNat ≤ adcBufferAtoms * 8
  count_mod : c.count % 8 = 0
  op : ¬c.OpFails
  copied : ∃ i < c.count.toNat / 8, c.copied i = false

variable {c : AdcReadCall}

theorem CopyFails.body_eq (h : c.CopyFails) : c.body = .return (-EFAULT) := by
  have hnone : copyLoop c.copied 8 (c.count.toNat / 8) 0 0 = none := by
    rw [copyLoop_eq_none_iff]
    simpa using h.copied
  rw [body, if_neg (not_lt.mpr h.count_le), if_neg (not_not.mpr h.count_mod), if_neg h.op, hnone]

theorem body_eq_out (hzero : c.count ≠ 0) (hint : c.interrupted = false) (h : ¬c.CopyFails) :
    ∃ ret, c.body = .out ret := by
  unfold body
  by_cases hle : adcBufferAtoms * 8 < c.count.toNat
  · exact ⟨_, if_pos hle⟩
  by_cases hmod : c.count % 8 ≠ 0
  · rw [if_neg hle, if_pos hmod]
    exact ⟨_, rfl⟩
  by_cases hop : c.OpFails
  · rw [if_neg hle, if_neg hmod, if_pos hop]
    exact ⟨_, rfl⟩
  rw [if_neg hle, if_neg hmod, if_neg hop]
  cases hloop : copyLoop c.copied 8 (c.count.toNat / 8) 0 0 with
  | some ret => exact ⟨ret, rfl⟩
  | none =>
      rw [copyLoop_eq_none_iff] at hloop
      exact absurd ⟨hzero, hint, not_lt.mp hle, not_not.mp hmod, hop, by simpa using hloop⟩ h

end AdcReadCall

theorem ends_liberaAdcRead {c : AdcReadCall} (h : ¬c.CopyFails)
    (hbusy : l .adc = true → busy .adc) : Ends busy l l (liberaAdcRead c) := by
  apply Ends.ite
  · intro _
    exact .pure _
  · intro hzero
    cases hint : c.interrupted with
    | true => exact .pure _
    | false =>
        apply Ends.interruptible hbusy (.pure _)
        intro hfree
        obtain ⟨ret, hbody⟩ := c.body_eq_out hzero hint h
        rw [hbody]
        exact .unlock_bind hfree (.pure _)

theorem liberaAdcRead_run {c : AdcReadCall} (h : c.CopyFails) (hfree : l .adc = false) :
    liberaAdcRead c l = .ok (-EFAULT, Function.update l .adc true) := by
  rw [liberaAdcRead, if_neg h.count_ne_zero, h.interrupted, h.body_eq]
  simp [lockInterruptible, run_lock_bind hfree]
  rfl

theorem liberaAdcRead_held {c : AdcReadCall} (h : c.CopyFails) (hheld : l .adc = true) :
    liberaAdcRead c l = .error (.held .adc) := by
  rw [liberaAdcRead, if_neg h.count_ne_zero, h.interrupted]
  simp only [lockInterruptible, Bool.false_eq_true, if_false, bind_assoc]
  exact run_bind_error (by simp [lock, hheld])

end Locked

/-! ## All operations -/

/-- An operation of a device, with all that it finds on its way. -/
inductive DeviceOp where
  | cfgOpen (dev : CommonDev) (file : File)
  | cfgRelease (dev : CommonDev) (file : File)
  | cfgIoctl (dev : CommonDev) (file : File) (c : Locked.IoctlCall) (ret : ℤ)
  | ddOpen (dev : CommonDev) (file : File) (kmallocOk : Bool)
  | ddRelease (dev : CommonDev)
  | ddLlseek (env : DdEnv) (loc : DdLocal) (time : HwTime) (whence : ℕ) (ctime : Locked.CtimeCall)
  | ddRead (c : Locked.DdReadCall)
  | ddIoctl (loc : DdLocal) (c : Locked.IoctlCall)
  | faOpen (dev : CommonDev) (file : File)
  | faRelease (dev : CommonDev) (file : File)
  | faRead (c : Locked.BlockCall)
  | faWrite (c : Locked.BlockCall)
  | faIoctl (dev : CommonDev) (file : File) (c : Locked.IoctlCall)
  | pmOpen (dev : CommonDev) (file : File)
  | pmRelease (dev : CommonDev)
  | pmRead (c : Locked.PmReadCall)
  | pmIoctl (dev : CommonDev) (file : File) (c : Locked.IoctlCall)
  | saOpen (dev : SaAccess) (file : File) (kmallocOk : Bool)
  | saRelease (dev : SaAccess) (file : File)
  | saRead (c : Locked.SaReadCall)
  | eventOpen (s : EventAccess) (file : File) (kmallocOk : Bool)
  | eventRelease (s : EventAccess) (file : File)
  | eventRead (c : Locked.EventReadCall)
  | eventIoctl (cmd : U32) (accessOk : Bool) (req : Locked.EventCmd)
  | adcOpen (dev : CommonDev) (file : File)
  | adcRelease (dev : CommonDev)
  | adcRead (c : Locked.AdcReadCall)
  | dscOpen (dev : CommonDev) (file : File)
  | dscRelease (dev : CommonDev) (file : File)
  | dscRead (c : Locked.BlockCall)
  | dscWrite (c : Locked.BlockCall)
  | dscIoctl (dev : CommonDev) (file : File) (c : Locked.IoctlCall) (ret : ℤ)

namespace DeviceOp

/-- What the operation returns, and which mutexes it leaves held. -/
def run : DeviceOp → Locking Mutex ℤ
  | cfgOpen dev file => Prod.fst <$> Locked.liberaCfgOpen dev file
  | cfgRelease dev file => (fun _ ↦ 0) <$> Locked.liberaCfgRelease dev file
  | cfgIoctl dev file c ret => Locked.liberaCfgIoctl dev file c ret
  | ddOpen dev file kmallocOk => Prod.fst <$> Locked.liberaDdOpen dev file kmallocOk
  | ddRelease dev => (fun _ ↦ 0) <$> Locked.liberaDdRelease dev
  | ddLlseek env loc time whence ctime =>
    Prod.snd <$> Locked.liberaDdLlseek env loc time whence ctime
  | ddRead c => Locked.liberaDdRead c
  | ddIoctl loc c => Locked.liberaDdIoctl loc c
  | faOpen dev file => Prod.fst <$> Locked.liberaFaOpen dev file
  | faRelease dev file => (fun _ ↦ 0) <$> Locked.liberaFaRelease dev file
  | faRead c => Locked.liberaFaRead c
  | faWrite c => Locked.liberaFaWrite c
  | faIoctl dev file c => Locked.liberaFaIoctl dev file c
  | pmOpen dev file => Prod.fst <$> Locked.liberaPmOpen dev file
  | pmRelease dev => (fun _ ↦ 0) <$> Locked.liberaPmRelease dev
  | pmRead c => Locked.liberaPmRead c
  | pmIoctl dev file c => Locked.liberaPmIoctl dev file c
  | saOpen dev file kmallocOk => Prod.fst <$> Locked.liberaSaOpen dev file kmallocOk
  | saRelease dev file => (fun _ ↦ 0) <$> Locked.liberaSaRelease dev file
  | saRead c => Locked.liberaSaRead c
  | eventOpen s file kmallocOk => Prod.fst <$> Locked.liberaEventOpen s file kmallocOk
  | eventRelease s file => (fun _ ↦ 0) <$> Locked.liberaEventRelease s file
  | eventRead c => Locked.liberaEventRead c
  | eventIoctl cmd accessOk req => Locked.liberaEventIoctl cmd accessOk req
  | adcOpen dev file => Prod.fst <$> Locked.liberaAdcOpen dev file
  | adcRelease dev => (fun _ ↦ 0) <$> Locked.liberaAdcRelease dev
  | adcRead c => Locked.liberaAdcRead c
  | dscOpen dev file => Prod.fst <$> Locked.liberaDscOpen dev file
  | dscRelease dev file => (fun _ ↦ 0) <$> Locked.liberaDscRelease dev file
  | dscRead c => Locked.liberaDscRead c
  | dscWrite c => Locked.liberaDscWrite c
  | dscIoctl dev file c ret => Locked.liberaDscIoctl dev file c ret

def CopyFails : DeviceOp → Prop
  | adcRead c => c.CopyFails
  | _ => False

/-- A mutex that is free when the operation starts is free when it returns. -/
def Releases (op : DeviceOp) : Prop :=
  ∀ (l : Locks Mutex) (ret : ℤ) (l' : Locks Mutex), op.run l = .ok (ret, l') →
    ∀ m, l m = false → l' m = false

variable {op : DeviceOp} {l l' : Locks Mutex}

open Locked in
theorem ends_run (h : ¬op.CopyFails) (l : Locks Mutex) : Ends (l · = true) l l op.run := by
  cases op with
  | cfgOpen dev file => exact (ends_openMaster id dev file).map
  | cfgRelease dev file => exact .map (.pure _)
  | cfgIoctl dev file c ret => exact .pure _
  | ddOpen dev file kmallocOk => exact (ends_liberaDdOpen id dev file kmallocOk).map
  | ddRelease dev => exact .map (.pure _)
  | ddLlseek env loc time whence ctime =>
      exact (ends_liberaDdLlseek id id env loc time whence ctime).map
  | ddRead c => exact ends_liberaDdRead id id id c
  | ddIoctl loc c => exact ends_liberaDdIoctl id loc c
  | faOpen dev file => exact (ends_openMaster id dev file).map
  | faRelease dev file => exact .map (.pure _)
  | faRead c => exact ends_transferBlock id faiBlocksize c
  | faWrite c => exact ends_transferBlock id faiBlocksize c
  | faIoctl dev file c => exact .pure _
  | pmOpen dev file => exact (ends_openReader id dev file).map
  | pmRelease dev => exact .map (.pure _)
  | pmRead c => exact ends_liberaPmRead id c
  | pmIoctl dev file c => exact ends_liberaPmIoctl id dev file c
  | saOpen dev file kmallocOk => exact (ends_liberaSaOpen id id dev kmallocOk).map
  | saRelease dev file => exact (ends_liberaSaRelease id dev file).map
  | saRead c => exact ends_liberaSaRead c id
  | eventOpen s file kmallocOk => exact (ends_liberaEventOpen id s file kmallocOk).map
  | eventRelease s file => exact .map (.pure _)
  | eventRead c => exact ends_liberaEventRead id c
  | eventIoctl cmd accessOk req => exact ends_liberaEventIoctl id id cmd accessOk req
  | adcOpen dev file => exact (ends_openReader id dev file).map
  | adcRelease dev => exact .map (.pure _)
  | adcRead c => exact ends_liberaAdcRead h id
  | dscOpen dev file => exact (ends_openMaster id dev file).map
  | dscRelease dev file => exact .map (.pure _)
  | dscRead c => exact ends_transferBlock id dscBlocksize c
  | dscWrite c => exact ends_transferBlock id dscBlocksize c
  | dscIoctl dev file c ret => exact .pure _

theorem run_of_copyFails (h : op.CopyFails) (l : Locks Mutex) :
    (l .adc = false ∧ op.run l = .ok (-EFAULT, Function.update l .adc true)) ∨
      (l .adc = true ∧ op.run l = .error (.held .adc)) := by
  cases op with
  | adcRead c =>
      cases hadc : l .adc with
      | false => exact .inl ⟨rfl, Locked.liberaAdcRead_run h hadc⟩
      | true => exact .inr ⟨rfl, Locked.liberaAdcRead_held h hadc⟩
  | _ => exact h.elim

theorem releases_iff : op.Releases ↔ ¬op.CopyFails := by
  constructor
  · intro hreleases hfails
    rcases run_of_copyFails hfails (fun _ ↦ false) with ⟨-, hrun⟩ | ⟨hheld, -⟩
    · have hfree := hreleases _ _ _ hrun .adc rfl
      simp at hfree
    · cases hheld
  · intro hok l ret l' hrun m hfree
    rwa [(ends_run hok l).eq_of_ok hrun]

/-- Nobody who finds the mutexes free waits for one of them. -/
theorem returns_or_waits (op : DeviceOp) :
    (∃ r, op.run (fun _ ↦ false) = .ok r) ∨ op.run (fun _ ↦ false) = .error .waiting := by
  by_cases hfails : op.CopyFails
  · rcases run_of_copyFails hfails (fun _ ↦ false) with ⟨-, hrun⟩ | ⟨hheld, -⟩
    · exact .inl ⟨_, hrun⟩
    · cases hheld
  · rcases (ends_run hfails fun _ ↦ false).ok_or_waiting (by simp) with ⟨ret, hrun⟩ | hwait
    · exact .inl ⟨_, hrun⟩
    · exact .inr hwait

theorem step_of_copyFails (op : DeviceOp) (h : op.CopyFails) (l l' : Locks Mutex)
    (hstep : step run l op = some l') : l .adc = false ∧ l' .adc = true := by
  unfold step at hstep
  rcases run_of_copyFails h l with ⟨hfree, hrun⟩ | ⟨-, hrun⟩
  · rw [hrun] at hstep
    obtain rfl := Option.some.inj hstep
    exact ⟨hfree, Function.update_self ..⟩
  · rw [hrun] at hstep
    cases hstep

/-- An operation releases its mutexes exactly if it is not an adc read whose copy fails, and a
sequence of calls leaves the mutexes as they were exactly if none of them is such a read. -/
theorem mutexes_released_iff (op : DeviceOp) :
    (op.Releases ↔ ¬op.CopyFails) ∧
    ((∃ r, op.run (fun _ ↦ false) = .ok r) ∨ op.run (fun _ ↦ false) = .error .waiting) ∧
    ∀ (l l' : Locks Mutex) (ops : List DeviceOp), Steps (step run) anyStep l ops l' →
      (l' = l ↔ ∀ op ∈ ops, ¬op.CopyFails) := by
  refine ⟨releases_iff, returns_or_waits op, ?_⟩
  intro l l' ops hrun
  exact steps_eq_iff (fun op ↦ ends_run) step_of_copyFails hrun

/-- An event is waited for in two sleeps, two atoms are read, and the adc device is opened. -/
theorem mutexes_released_three : ∃ l' : Locks Mutex, Steps (step run) anyStep (fun _ ↦ false)
      [.eventRead ⟨8, false, false, some ⟨2, false⟩, ⟨1, fun _ ↦ true, fun _ ↦ true⟩⟩,
        .adcRead ⟨16, false, none, fun _ ↦ true⟩, .adcOpen .zero ⟨1, ⟨true, false⟩⟩] l' ∧
    l' = fun _ ↦ false := by
  have hrun := exec_get_steps (step run) anyStep (fun _ ↦ false)
    [.eventRead ⟨8, false, false, some ⟨2, false⟩, ⟨1, fun _ ↦ true, fun _ ↦ true⟩⟩,
      .adcRead ⟨16, false, none, fun _ ↦ true⟩, .adcOpen .zero ⟨1, ⟨true, false⟩⟩] (by decide +kernel)
  refine ⟨_, hrun, ((mutexes_released_iff (.adcRelease .zero)).2.2 _ _ _ hrun).mpr ?_⟩
  simp only [List.forall_mem_cons, List.not_mem_nil, false_implies, implies_true, and_true]
  refine ⟨id, ?_, id⟩
  rintro ⟨-, -, -, -, -, i, -, hcopied⟩
  cases hcopied

/-- One atom is asked for and not copied: the mutex of the adc device is left held, and an `open`
of the device waits for it forever. -/
theorem adc_left_locked :
    (adcRead ⟨8, false, none, fun _ ↦ false⟩).run (fun _ ↦ false) =
      .ok (-EFAULT, Function.update (fun _ ↦ false) .adc true) ∧
    ¬ (adcRead ⟨8, false, none, fun _ ↦ false⟩).Releases ∧
    (adcOpen .zero ⟨1, ⟨true, false⟩⟩).run (Function.update (fun _ ↦ false) .adc true) =
      .error (.held .adc) := by
  have hrun : (adcRead ⟨8, false, none, fun _ ↦ false⟩).run (fun _ ↦ false) =
      .ok (-EFAULT, Function.update (fun _ ↦ false) .adc true) := by
    apply Locked.liberaAdcRead_run _ rfl
    constructor
    · decide
    · rfl
    · decide
    · decide
    · simp [Locked.AdcReadCall.OpFails]
    · exact ⟨0, by decide, rfl⟩
  refine ⟨hrun, ?_, rfl⟩
  intro hreleases
  have hfree := hreleases _ _ _ hrun .adc rfl
  simp at hfree

end DeviceOp

end LiberaBase
