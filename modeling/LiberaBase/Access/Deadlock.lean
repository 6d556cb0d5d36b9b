import LiberaBase.Access.Stepped

/-!
# No deadlock

`dd->sem` is held when `CTIME_sem` and the mutex of the event device are taken, `CTIME_sem` when
that of the event device is, and the mutex of the sa device when that of a pipe is made.  In its
sleep a process has `dd->sem` and `CTIME_sem` at most.  So nobody waits for himself, and whoever
waits for another mutex waits for a process that can go on.  Only an adc read whose copy fails
returns with its mutex.
-/

namespace LiberaBase

open Locking (Prog Discipline System)

/-- The first mutex is held when the second is taken. -/
def lockOrder : Mutex → Mutex → Prop
  | .dd, .ctime => True
  | .dd, .event => True
  | .ctime, .event => True
  | .sa, .pipe _ => True
  | _, _ => False

/-- `fails` tells that there may be adc reads whose copy fails. -/
def discipline (fails : Prop) : Discipline Mutex where
  order := lockOrder
  asleep := fun m ↦ m = .dd ∨ m = .ctime
  leaks := fun m ↦ m = .adc ∧ fails

/-- How many mutexes can still be taken in the order. -/
def Mutex.above : Mutex → ℕ
  | .dd => 2
  | .ctime => 1
  | .sa => 1
  | _ => 0

theorem lockOrder_above {m n : Mutex} (h : lockOrder n m) : m.above < n.above := by
  cases n <;> cases m <;> first | exact h.elim | simp [Mutex.above]

theorem wellFounded_lockOrder : WellFounded fun m n ↦ lockOrder n m :=
  Subrelation.wf lockOrder_above (measure Mutex.above).wf

theorem lockOrder_adc {n : Mutex} : ¬lockOrder n .adc := by
  cases n <;> exact id

theorem lockOrder_event {n : Mutex} (h : n = .dd ∨ n = .ctime) : lockOrder n .event := by
  rcases h with rfl | rfl <;> trivial

namespace Stepped

open Locking.Prog

variable {fails : Prop} {held : Set Mutex} {m : Mutex} {α : Type} {post : Set Mutex → Prop}

theorem orderly_waitOn (hm : m ∉ held) (horder : ∀ n ∈ held, lockOrder n m)
    (hasleep : ∀ n ∈ held, n = .dd ∨ n = .ctime) (w : Option Locked.Wait) :
    Orderly (discipline fails) (insert m held) (waitOn m w) (· = insert m held) := by
  cases w with
  | none => rfl
  | some w => exact .sleeps hm horder hasleep .done w.sleeps

theorem orderly_waitOnTimed (hm : m ∉ held) (horder : ∀ n ∈ held, lockOrder n m)
    (hasleep : ∀ n ∈ held, n = .dd ∨ n = .ctime) (w : Option Locked.TimedWait) :
    Orderly (discipline fails) (insert m held) (waitOnTimed m w) (· = insert m held) := by
  rcases w with - | ⟨n, wakeUp⟩
  · rfl
  · cases wakeUp with
    | notEmpty => exact .sleeps hm horder hasleep .done n
    | signal => exact .sleeps hm horder hasleep .done n
    | timeout => exact .sleeps hm horder hasleep .done (n + 1)

section

variable (hheld : ∀ n ∈ held, n = .dd ∨ n = .ctime)

include hheld

theorem event_notMem : .event ∉ held := by
  intro hmem
  rcases hheld _ hmem with h | h <;> cases h

theorem orderly_getBlockedFromFIFO (c : Locked.BlockedCall) :
    Orderly (discipline fails) held (getBlockedFromFIFO c) (· = held) := by
  have horder : ∀ n ∈ held, lockOrder n .event := fun n hn ↦ lockOrder_event (hheld n hn)
  refine .interruptible rfl horder ?_
  apply (orderly_waitOn (event_notMem hheld) horder hheld c.wait).bind
  intro ret
  exact .unlock_done (event_notMem hheld)

theorem orderly_getBlockedFromFIFOuser (c : Locked.BlockedUserCall) :
    Orderly (discipline fails) held (getBlockedFromFIFOuser c) (· = held) := by
  have horder : ∀ n ∈ held, lockOrder n .event := fun n hn ↦ lockOrder_event (hheld n hn)
  refine .interruptible rfl horder ?_
  apply (orderly_waitOnTimed (event_notMem hheld) horder hheld c.wait).bind
  intro ret
  exact .unlock_done (event_notMem hheld)

theorem orderly_fifos (c : Locked.CtimeCall) :
    Orderly (discipline fails) held (fifos c) (· = held) := by
  apply (orderly_getBlockedFromFIFO hheld c.mc).bind
  intro answer
  cases answer with
  | error e => rfl
  | ok lmt =>
      dsimp only
      cases c.sc with
      | none => rfl
      | some lst => rfl

end

section

variable (hheld : ∀ n ∈ held, n = .dd)

include hheld

theorem orderly_liberaGetCTIME (c : Locked.CtimeCall) :
    Orderly (discipline fails) held (liberaGetCTIME c) (· = held) := by
  have hnot : .ctime ∉ held := fun hmem ↦ by cases hheld _ hmem
  refine .interruptible rfl ?_ (.unlocked hnot ?_)
  · intro n hn
    rw [hheld n hn]
    trivial
  · apply orderly_fifos
    intro n hn
    rcases hn with rfl | hn
    · exact .inr rfl
    · exact .inl (hheld n hn)

theorem orderly_waitLoop (d : U32) (clock : Ltimestamp → HwTime) (start : HwTime)
    (ctime : Ltimestamp) (calls : List Locked.CtimeCall) :
    Orderly (discipline fails) held (waitLoop d clock start ctime calls) (· = held) := by
  have hasleep : ∀ n ∈ held, n = .dd ∨ n = .ctime := fun n hn ↦ .inl (hheld n hn)
  induction calls generalizing ctime with
  | nil => exact hasleep
  | cons c rest ih =>
      refine ⟨hasleep, (orderly_liberaGetCTIME hheld c).bind ?_⟩
      intro answer
      cases answer with
      | error e => rfl
      | ok now => exact .ite (fun _ ↦ ih now) fun _ ↦ rfl

theorem orderly_waitTime (d : U32) (clock : Ltimestamp → HwTime) (ctime : Ltimestamp)
    (start : HwTime) (calls : List Locked.CtimeCall) :
    Orderly (discipline fails) held (waitTime d clock ctime start calls) (· = held) := by
  unfold waitTime
  cases LiberaBase.waitTime d clock ctime start [] with
  | none => exact orderly_waitLoop hheld d clock start ctime calls
  | some r => rfl

end

theorem eq_dd_of_mem {n : Mutex} (h : n ∈ insert Mutex.dd (∅ : Set Mutex)) : n = .dd :=
  h.elim id False.elim

theorem orderly_tryDd {x y : Prog Mutex ℤ}
    (hx : Orderly (discipline fails) (insert .dd ∅) x (· = ∅))
    (hy : Orderly (discipline fails) ∅ y (· = ∅)) (busy : ℕ → Bool) (n : ℕ) :
    Orderly (discipline fails) ∅ (tryDd busy n x y) (· = ∅) := by
  induction n with
  | zero => exact hy
  | succ n ih => exact ⟨⟨by simp, ih⟩, hx⟩

theorem orderly_acquire (c : Locked.AcqPmCall) :
    Orderly (discipline fails) (insert .dd ∅) (acquire c) (· = insert .dd ∅) := by
  have hasleep : ∀ n ∈ insert Mutex.dd (∅ : Set Mutex), n = .dd ∨ n = .ctime :=
    fun n hn ↦ .inl (eq_dd_of_mem hn)
  apply (orderly_liberaGetCTIME (fun _ ↦ eq_dd_of_mem) c.ctime).bind
  intro answer
  cases answer with
  | error e => exact .done
  | ok now =>
      apply (orderly_waitTime (fun _ ↦ eq_dd_of_mem) _ _ _ _ c.waits).bind
      intro r
      refine .ite (fun _ ↦ .done) fun _ ↦ ?_
      cases liberaDdWriteCBfifo _ c.pmsize c.pmDec with
      | none => exact .done
      | some cb =>
          apply (orderly_getBlockedFromFIFO hasleep c.irq).bind
          intro answer
          cases answer with
          | error e => exact .done
          | ok time => exact ⟨hasleep, .done⟩

theorem orderly_liberaAcqPm (c : Locked.AcqPmCall) :
    Orderly (discipline fails) ∅ (liberaAcqPm c) (· = ∅) :=
  orderly_tryDd (.unlocked (Set.notMem_empty _) (orderly_acquire c)) .done c.busy 31

/-! ## `open` and `release` -/

theorem orderly_unlock {a : α} :
    Orderly (discipline fails) (insert m ∅) (.unlock m (.done a)) (· = ∅) :=
  .unlock_done (Set.notMem_empty m)

theorem orderly_lock {p : Prog Mutex α} (hp : Orderly (discipline fails) (insert m ∅) p post) :
    Orderly (discipline fails) ∅ (.lock m p) post :=
  ⟨fun _ ↦ False.elim, hp⟩

theorem orderly_openMaster (m : Mutex) (dev : CommonDev) (file : File) :
    Orderly (discipline fails) ∅ (openMaster m dev file) (· = ∅) :=
  orderly_lock (.ite (fun _ ↦ orderly_unlock) fun _ ↦ orderly_unlock)

theorem orderly_openReader (m : Mutex) (dev : CommonDev) (file : File) :
    Orderly (discipline fails) ∅ (openReader m dev file) (· = ∅) :=
  orderly_lock (.ite (fun _ ↦ orderly_unlock) fun _ ↦ orderly_unlock)

theorem orderly_liberaDdOpen (dev : CommonDev) (file : File) (kmallocOk : Bool) :
    Orderly (discipline fails) ∅ (liberaDdOpen dev file kmallocOk) (· = ∅) := by
  refine orderly_lock (.ite (fun _ ↦ orderly_unlock) fun _ ↦ ?_)
  exact .ite (fun _ ↦ orderly_unlock) fun _ ↦ orderly_unlock

theorem orderly_liberaSaOpen (dev : SaAccess) (file : File) (kmallocOk : Bool) :
    Orderly (discipline fails) ∅ (liberaSaOpen dev file kmallocOk) (· = ∅) := by
  refine orderly_lock (.ite (fun _ ↦ orderly_unlock) fun _ ↦ ?_)
  refine .ite (fun _ ↦ .ite (fun _ ↦ orderly_unlock) fun _ ↦ ?_) fun _ ↦ orderly_unlock
  refine ⟨?_, orderly_unlock⟩
  rintro n (rfl | hn)
  · trivial
  · exact hn.elim

theorem orderly_liberaEventOpen (s : EventAccess) (file : File) (kmallocOk : Bool) :
    Orderly (discipline fails) ∅ (liberaEventOpen s file kmallocOk) (· = ∅) := by
  refine orderly_lock (.ite (fun _ ↦ orderly_unlock) fun _ ↦ ?_)
  exact .ite (fun _ ↦ orderly_unlock) fun _ ↦ orderly_unlock

/-! ## `read`, `write`, `llseek` and `ioctl` -/

theorem orderly_critical (m : Mutex) (interrupted : Bool) (ret : ℤ) :
    Orderly (discipline fails) ∅ (critical m interrupted ret) (· = ∅) :=
  .interruptible .done (fun _ ↦ False.elim) orderly_unlock

theorem orderly_waitOn_empty (m : Mutex) (w : Option Locked.Wait) :
    Orderly (discipline fails) (insert m ∅) (waitOn m w) (· = insert m ∅) :=
  orderly_waitOn (Set.notMem_empty m) (fun _ ↦ False.elim) (fun _ ↦ False.elim) w

theorem orderly_interruptible {p : Prog Mutex ℤ} {ret : ℤ} {interrupted : Bool}
    (hp : Orderly (discipline fails) (insert m ∅) p (· = insert m ∅)) :
    Orderly (discipline fails) ∅ (.interruptible m interrupted (.done ret) (.unlocked m p))
      (· = ∅) :=
  .interruptible .done (fun _ ↦ False.elim) (.unlocked (Set.notMem_empty m) hp)

theorem orderly_liberaSaRead (c : Locked.SaReadCall) :
    Orderly (discipline fails) ∅ (liberaSaRead c) (· = ∅) := by
  refine .ite (fun _ ↦ .done) fun _ ↦ .ite (fun _ ↦ .done) fun _ ↦ orderly_interruptible ?_
  refine .ite (fun _ ↦ .done) fun _ ↦ .ite (fun _ ↦ .done) fun _ ↦ ?_
  apply (orderly_waitOn_empty _ c.wait).bind
  intro ret
  exact .ite (fun _ ↦ .done) fun _ ↦ .done

theorem orderly_liberaEventRead (c : Locked.EventReadCall) :
    Orderly (discipline fails) ∅ (liberaEventRead c) (· = ∅) := by
  refine orderly_interruptible (.ite (fun _ ↦ .done) fun _ ↦ ?_)
  refine .ite (fun _ ↦ .done) fun _ ↦ .ite (fun _ ↦ .done) fun _ ↦ ?_
  apply (orderly_waitOn_empty _ c.wait).bind
  intro ret
  exact .ite (fun _ ↦ .done) fun _ ↦ .done

/-- Only where the copy fails the mutex is not given back. -/
theorem orderly_liberaAdcRead (c : Locked.AdcReadCall) (hfails : c.CopyFails → fails) :
    Orderly (discipline fails) ∅ (liberaAdcRead c) fun held ↦
      ∀ m ∈ held, (discipline fails).leaks m := by
  have hnone : ∀ m ∈ (∅ : Set Mutex), (discipline fails).leaks m := fun _ ↦ False.elim
  by_cases hzero : c.count = 0
  · rw [liberaAdcRead, if_pos hzero]
    exact hnone
  rw [liberaAdcRead, if_neg hzero]
  cases hint : c.interrupted with
  | true => exact hnone
  | false =>
      refine .interruptible hnone (fun _ ↦ False.elim) ?_
      by_cases hcopy : c.CopyFails
      · rw [hcopy.body_eq]
        rintro m (rfl | hm)
        · exact ⟨rfl, hfails hcopy⟩
        · exact hm.elim
      · obtain ⟨ret, hbody⟩ := c.body_eq_out hzero hint hcopy
        rw [hbody]
        exact orderly_unlock.mono fun held hheld ↦ hheld ▸ hnone

theorem orderly_resolve (c : Locked.DdReadCall) (now : Ltimestamp) :
    Orderly (discipline fails) (insert .dd ∅) (resolve c now) (· = insert .dd ∅) := by
  unfold resolve
  cases c.loc.qts.request with
  | implicit =>
      dsimp only [resolveImplicit]
      cases lmt2lst c.env.flmcdHz _ c.lastTrigger with
      | none => exact .done
      | some lst => exact (orderly_waitTime (fun _ ↦ eq_dd_of_mem) ..).bind fun _ ↦ .done
  | explicitST =>
      apply (orderly_waitTime (fun _ ↦ eq_dd_of_mem) ..).bind
      intro r
      refine .ite (fun _ ↦ .done) fun _ ↦ ?_
      cases lst2lmt c.env.flmcdHz _ r.2 with
      | none => exact .done
      | some lmt => exact .done
  | explicitMT =>
      apply (orderly_waitTime (fun _ ↦ eq_dd_of_mem) ..).bind
      intro r
      refine .ite (fun _ ↦ .done) fun _ ↦ ?_
      cases lmt2lst c.env.flmcdHz _ r.2 with
      | none => exact .done
      | some lst => exact .done

theorem orderly_transfer (c : Locked.DdReadCall) (q : Qtimestamp) :
    Orderly (discipline fails) (insert .dd ∅) (transfer c q) (· = insert .dd ∅) := by
  have hasleep : ∀ n ∈ insert Mutex.dd (∅ : Set Mutex), n = .dd ∨ n = .ctime :=
    fun n hn ↦ .inl (eq_dd_of_mem hn)
  unfold transfer
  dsimp only
  cases liberaDdWriteCBfifo _ (c.count / atomSize) c.loc.dec with
  | none => exact .done
  | some cb =>
      apply (orderly_getBlockedFromFIFO hasleep c.irq).bind
      intro answer
      cases answer with
      | error e => exact .done
      | ok time => exact ⟨hasleep, .done⟩

theorem orderly_liberaDdRead (c : Locked.DdReadCall) :
    Orderly (discipline fails) ∅ (liberaDdRead c) (· = ∅) := by
  refine orderly_interruptible (.ite (fun _ ↦ .done) fun _ ↦ ?_)
  refine .ite (fun _ ↦ .done) fun _ ↦ .ite (fun _ ↦ .done) fun _ ↦ ?_
  apply (orderly_liberaGetCTIME (fun _ ↦ eq_dd_of_mem) c.ctime).bind
  intro answer
  cases answer with
  | error e => exact .done
  | ok now =>
      apply (orderly_resolve c now).bind
      intro r
      exact .ite (fun _ ↦ .done) fun _ ↦ orderly_transfer c r.2

theorem orderly_liberaDdLlseek (env : DdEnv) (loc : DdLocal) (time : HwTime) (whence : ℕ)
    (ctime : Locked.CtimeCall) :
    Orderly (discipline fails) ∅ (liberaDdLlseek env loc time whence ctime) (· = ∅) :=
  .ite (fun _ ↦ (orderly_liberaGetCTIME (fun _ ↦ False.elim) ctime).bind fun _ ↦ .done)
    fun _ ↦ .done

theorem orderly_liberaDdIoctl (loc : DdLocal) (c : Locked.IoctlCall) :
    Orderly (discipline fails) ∅ (liberaDdIoctl loc c) (· = ∅) := by
  unfold liberaDdIoctl
  cases iocSanity liberaIocMagic liberaIocDd c.cmd c.accessOk with
  | none => exact orderly_critical ..
  | some err => exact .done

theorem orderly_liberaPmIoctl (dev : CommonDev) (file : File) (c : Locked.IoctlCall) :
    Orderly (discipline fails) ∅ (liberaPmIoctl dev file c) (· = ∅) := by
  unfold liberaPmIoctl
  cases iocChecks liberaIocMagic liberaIocPm dev file c.cmd c.accessOk with
  | none => exact orderly_critical ..
  | some err => exact .done

theorem orderly_liberaEventIoctl (cmd : U32) (accessOk : Bool) (req : Locked.EventCmd) :
    Orderly (discipline fails) ∅ (liberaEventIoctl cmd accessOk req) (· = ∅) := by
  refine .ite (fun _ ↦ .done) fun _ ↦ .ite (fun _ ↦ .done) fun _ ↦ ?_
  cases req with
  | getTrigger enabled c =>
      exact .ite (fun _ ↦ .done) fun _ ↦ orderly_getBlockedFromFIFOuser (fun _ ↦ False.elim) c
  | getTime c left =>
      exact (orderly_liberaGetCTIME (fun _ ↦ False.elim) c).bind fun _ ↦ .done
  | acqPm c => exact orderly_liberaAcqPm c
  | other ret => exact .done

end Stepped

namespace DeviceOp

open Locking.Prog Stepped Runs Relation

theorem orderly_prog {fails : Prop} (op : DeviceOp) (hfails : op.CopyFails → fails) :
    op.prog.Orderly (discipline fails) ∅ fun held ↦ ∀ m ∈ held, (discipline fails).leaks m := by
  have neat : ∀ {p : Prog Mutex ℤ}, p.Orderly (discipline fails) ∅ (· = ∅) →
      p.Orderly (discipline fails) ∅ fun held ↦ ∀ m ∈ held, (discipline fails).leaks m := by
    intro p hp
    refine hp.mono ?_
    rintro held rfl m hm
    exact hm.elim
  have opened : ∀ {α : Type} {p : Prog Mutex α} {f : α → ℤ},
      p.Orderly (discipline fails) ∅ (· = ∅) →
        (p.bind fun a ↦ .done (f a)).Orderly (discipline fails) ∅ (· = ∅) :=
    fun hp ↦ hp.bind fun _ ↦ .done
  cases op with
  | cfgOpen dev file => exact neat (opened (orderly_openMaster ..))
  | cfgRelease dev file => exact neat .done
  | cfgIoctl dev file c ret => exact neat .done
  | ddOpen dev file kmallocOk => exact neat (opened (orderly_liberaDdOpen ..))
  | ddRelease dev => exact neat .done
  | ddLlseek env loc time whence ctime => exact neat (opened (orderly_liberaDdLlseek ..))
  | ddRead c => exact neat (orderly_liberaDdRead c)
  | ddIoctl loc c => exact neat (orderly_liberaDdIoctl loc c)
  | faOpen dev file => exact neat (opened (orderly_openMaster ..))
  | faRelease dev file => exact neat .done
  | faRead c => exact neat (orderly_critical ..)
  | faWrite c => exact neat (orderly_critical ..)
  | faIoctl dev file c => exact neat .done
  | pmOpen dev file => exact neat (opened (orderly_openReader ..))
  | pmRelease dev => exact neat .done
  | pmRead c => exact neat (orderly_critical ..)
  | pmIoctl dev file c => exact neat (orderly_liberaPmIoctl dev file c)
  | saOpen dev file kmallocOk => exact neat (opened (orderly_liberaSaOpen ..))
  | saRelease dev file => exact neat (opened (orderly_lock orderly_unlock))
  | saRead c => exact neat (orderly_liberaSaRead c)
  | eventOpen s file kmallocOk => exact neat (opened (orderly_liberaEventOpen ..))
  | eventRelease s file => exact neat .done
  | eventRead c => exact neat (orderly_liberaEventRead c)
  | eventIoctl cmd accessOk req => exact neat (orderly_liberaEventIoctl cmd accessOk req)
  | adcOpen dev file => exact neat (opened (orderly_openReader ..))
  | adcRelease dev => exact neat .done
  | adcRead c => exact orderly_liberaAdcRead c hfails
  | dscOpen dev file => exact neat (opened (orderly_openMaster ..))
  | dscRelease dev file => exact neat .done
  | dscRead c => exact neat (orderly_critical ..)
  | dscWrite c => exact neat (orderly_critical ..)
  | dscIoctl dev file c ret => exact neat .done

/-! ## Any number of processes -/

variable {π : Type} [DecidableEq π] {s : System π Mutex ℤ} {es : List (Locking.Event π DeviceOp)}

theorem inv_of_steps (fails : Prop)
    (hcalls : ∀ i op, .call i op ∈ es → op.CopyFails → fails)
    (hrun : Steps (System.step prog) anyStep .start es s) : s.Inv (discipline fails) :=
  System.Inv.start.steps (fun i op hcall ↦ op.orderly_prog (hcalls i op hcall)) hrun

/-- An operation that nobody disturbs does what it does as a whole. -/
theorem alone_of_steps (hrun : Steps (System.step prog) anyStep .start es s) {i : π}
    {op : DeviceOp} (hp : s.prog i = some op.prog) : System.Alone prog s i (op.run s.locks) := by
  rw [← op.denote_prog]
  exact (inv_of_steps True (fun _ _ _ _ ↦ trivial) hrun).alone hp

/-- Below a mutex that is held asleep are only such. -/
theorem asleep_of_lockOrder {m n : Mutex} (h : ReflTransGen lockOrder m n)
    (hn : n = .dd ∨ n = .ctime) : m = .dd ∨ m = .ctime := by
  induction h using ReflTransGen.head_induction_on with
  | refl => exact hn
  | @head m k hmk _ ih =>
      rcases ih with rfl | rfl
      · cases m <;> exact hmk.elim
      · cases m with
        | dd => exact .inl rfl
        | _ => exact hmk.elim

/-- **There is no deadlock**: a process that can do nothing sleeps or waits for a mutex.  Nobody
waits for himself, and who waits for a mutex waits, through others, for a process that can go on,
or, if it is `dd->sem` or `CTIME_sem`, for one that sleeps.  Only the mutex of the adc device may
never come back, after a read whose copy failed, and who waits for it has none. -/
theorem no_deadlock (hrun : Steps (System.step prog) anyStep .start es s) :
    (∀ i, (s.prog i).isSome = true →
      s.CanRun i ∨ s.Asleep i ∨ ∃ m, s.Wants i m ∧ s.owner m ≠ .nobody) ∧
    (∀ i, ¬TransGen s.WaitsFor i i) ∧
    (∀ i m, s.Wants i m → s.owner m ≠ .nobody →
      (m = .adc ∧ s.owner m = .lost ∧ s.owned i = ∅) ∨
        ∃ j, TransGen s.WaitsFor i j ∧
          (s.CanRun j ∨ s.Asleep j ∧ (m = .dd ∨ m = .ctime))) ∧
    ∀ m, s.owner m = .lost → m = .adc ∧ ∃ i op, .call i op ∈ es ∧ op.CopyFails := by
  have hinv := inv_of_steps True (fun _ _ _ _ ↦ trivial) hrun
  have hleaf : ∀ m n, (discipline True).leaks m → ¬(discipline True).order n m := by
    rintro m n ⟨rfl, -⟩
    exact lockOrder_adc
  refine ⟨?_, fun i ↦ hinv.acyclic wellFounded_lockOrder, ?_, ?_⟩
  · intro i hi
    obtain ⟨p, hp⟩ := Option.isSome_iff_exists.mp hi
    exact hinv.canRun_or hp
  · intro i m hwants hbusy
    rcases hinv.waits wellFounded_lockOrder hleaf hwants hbusy with
      ⟨hlost, ⟨hadc, -⟩, hnone⟩ | ⟨j, n, hchain, hup, -, hlive⟩
    · exact .inl ⟨hadc, hlost, hnone⟩
    · refine .inr ⟨j, hchain, hlive.imp_right fun hasleep ↦ ⟨hasleep.1, ?_⟩⟩
      exact asleep_of_lockOrder hup hasleep.2
  · intro m hlost
    refine ⟨(hinv.lost m hlost).1, ?_⟩
    have hexact := inv_of_steps (∃ i op, .call i op ∈ es ∧ op.CopyFails)
      (fun i op hmem hfails ↦ ⟨i, op, hmem, hfails⟩) hrun
    exact (hexact.lost m hlost).2

/-- A request for the time that will sleep once for its trigger. -/
def getTime : DeviceOp :=
  .eventIoctl (ioc iocRead liberaEventMagic 1 16) true
    (.getTime ⟨false, ⟨false, some ⟨1, false⟩, none⟩, none⟩ 0)

/-- Process 0 sleeps with `CTIME_sem`, and process 1 waits for it. -/
theorem no_deadlock_ctime : ∃ s : System ℕ Mutex ℤ,
    Steps (System.step prog) anyStep .start
      [.call 0 getTime, .run 0, .run 0, .run 0, .call 1 getTime] s ∧
    ∃ j, TransGen s.WaitsFor 1 j ∧ (s.CanRun j ∨ s.Asleep j) := by
  have hrun := exec_get_steps (System.step prog) anyStep (.start : System ℕ Mutex ℤ)
    [.call 0 getTime, .run 0, .run 0, .run 0, .call 1 getTime] (by decide +kernel)
  refine ⟨_, hrun, ?_⟩
  rcases (no_deadlock hrun).2.2.1 1 .ctime ⟨_, .inl rfl⟩ (by decide +kernel) with
    ⟨hadc, -⟩ | ⟨j, hchain, hlive⟩
  · cases hadc
  · exact ⟨j, hchain, hlive.imp_right And.left⟩

end DeviceOp

end LiberaBase
