import LiberaBase.Timing.Queue

/-!
# Reading the current time

`libera_get_CTIME` writes a software trigger, waits until the MC handler has put its
stamp into the fifo, and takes the LMT and the LST from the two fifos.  Any number of
processes call it; the handlers and the ioctls run between any two of their steps.
-/

namespace LiberaBase

open Runs

/-- Where a process is in `libera_get_CTIME` and `getBlockedFromFIFO`. -/
inductive Pc where
  | idle
  | lockCtime
  | write
  | lockEvent
  /-- `if (emptyFIFO(q))` -/
  | empty
  /-- `if (not_emptyFIFO(q)) break;` in the loop -/
  | test
  | pending
  | unlock
  | schedule
  | relock
  /-- `getFromFIFO(q)` -/
  | take
  /-- `*time = *data;` -/
  | load (slot : ℤ)
  | unlockEvent (ret : ℤ)
  /-- `getFromFIFO(&event->sc_timestamps[T_TRIG_CTIME])` -/
  | takeSC
  /-- `ctime->lst = *data;` -/
  | loadSC (slot : ℤ)
  | unlockCtime (ret : ℤ)
  deriving DecidableEq

/-- The call of one process: its control point, the number of the trigger it wrote,
and its `ctime`. -/
structure Call where
  pc : Pc
  wrote : ℕ
  lmt : Stamp
  lst : Stamp

/-- What a call returned. -/
structure Return where
  ret : ℤ
  wrote : ℕ
  lmt : Stamp
  lst : Stamp
  deriving DecidableEq

/-- Who holds `event->sem`: a process in `libera_get_CTIME` or another user of the
event device. -/
inductive Holder where
  | process (p : ℕ)
  | other
  deriving DecidableEq

/-- The driver, the two mutexes and the processes.  `written` counts the writes to
`T_SC_EVENTGEN`, and `returns` records what the calls returned. -/
structure Ctime where
  driver : Driver
  ctimeSem : Option ℕ
  sem : Option Holder
  calls : ℕ → Call
  written : ℕ
  returns : List Return

/-- A step of the driver, of a process that may have a signal pending, or of another
user of `event->sem`. -/
inductive CtimeStep where
  | timing (l : Timing)
  | run (p : ℕ) (signal : Bool)
  | lockOther
  | unlockOther

namespace Ctime

def setCall (s : Ctime) (p : ℕ) (call : Call) : Ctime :=
  { s with calls := Function.update s.calls p call }

def goto (s : Ctime) (p : ℕ) (pc : Pc) : Ctime := s.setCall p { s.calls p with pc := pc }

def finish (s : Ctime) (p : ℕ) (ret : ℤ) : Ctime :=
  let call := s.calls p
  { s.goto p .idle with returns := s.returns ++ [⟨ret, call.wrote, call.lmt, call.lst⟩] }

def mcFifo (s : Ctime) : LiberaFifo := s.driver.event.mcTimestamps tTrigCtime

def scFifo (s : Ctime) : LiberaFifo := s.driver.event.scTimestamps tTrigCtime

def setMcFifo (s : Ctime) (q : LiberaFifo) : Ctime :=
  { s with driver := { s.driver with event := { s.driver.event with
      mcTimestamps := Function.update s.driver.event.mcTimestamps tTrigCtime q } } }

def setScFifo (s : Ctime) (q : LiberaFifo) : Ctime :=
  { s with driver := { s.driver with event := { s.driver.event with
      scTimestamps := Function.update s.driver.event.scTimestamps tTrigCtime q } } }

/-- `mutex_lock_interruptible(&event->CTIME_sem)`: a process that finds the mutex held
sleeps until it is free or a signal arrives. -/
def lockCtime (s : Ctime) (p : ℕ) (signal : Bool) : Option Ctime :=
  if s.ctimeSem = none then some { s.goto p .write with ctimeSem := some p }
  else if signal then some (s.finish p (-ERESTARTSYS)) else none

/-- `writel(TRIGGER_BIT(T_TRIG_CTIME), iobase + T_SC_EVENTGEN)` -/
def writeTrigger (s : Ctime) (p : ℕ) : Ctime :=
  { s.setCall p { s.calls p with pc := .lockEvent, wrote := s.written } with
    driver := s.driver.writel (triggerBit tTrigCtime) tSCEventgen
    written := s.written + 1 }

/-- `mutex_lock_interruptible(&event->sem)` -/
def lockEvent (s : Ctime) (p : ℕ) (signal : Bool) : Option Ctime :=
  if s.sem = none then some { s.goto p .empty with sem := some (.process p) }
  else if signal then some (s.goto p (.unlockCtime (-ERESTARTSYS))) else none

/-- The next step of process `p`; `none` is a process that waits for a mutex. -/
def run (s : Ctime) (p : ℕ) (signal : Bool) : Option Ctime :=
  match (s.calls p).pc with
  | .idle => some (s.goto p .lockCtime)
  | .lockCtime => s.lockCtime p signal
  | .write => some (s.writeTrigger p)
  | .lockEvent => s.lockEvent p signal
  | .empty => some (s.goto p (if emptyFIFO s.mcFifo then .test else .take))
  | .test => some (s.goto p (if emptyFIFO s.mcFifo then .pending else .take))
  | .pending => some (s.goto p (if signal then .unlockEvent (-ERESTARTSYS) else .unlock))
  | .unlock => some { s.goto p .schedule with sem := none }
  -- the process sleeps until the MC interrupt or a signal wakes it
  | .schedule => some (s.goto p .relock)
  | .relock =>
    if s.sem = none then some { s.goto p .test with sem := some (.process p) } else none
  | .take =>
    match getFromFIFO s.mcFifo with
    | none => some (s.goto p (.unlockEvent (-EFAULT)))
    | some (q, slot) => some ((s.setMcFifo q).goto p (.load slot))
  | .load slot =>
    some (s.setCall p { s.calls p with pc := .unlockEvent 0, lmt := s.mcFifo.data slot })
  | .unlockEvent ret =>
    some { s.goto p (if ret ≠ 0 then .unlockCtime ret else .takeSC) with sem := none }
  | .takeSC =>
    match getFromFIFO s.scFifo with
    | none => some (s.goto p (.unlockCtime (-EFAULT)))
    | some (q, slot) => some ((s.setScFifo q).goto p (.loadSC slot))
  | .loadSC slot =>
    some (s.setCall p { s.calls p with pc := .unlockCtime 0, lst := s.scFifo.data slot })
  | .unlockCtime ret => some { s.finish p ret with ctimeSem := none }

def step (s : Ctime) : CtimeStep → Option Ctime
  | .timing l => (s.driver.step l).map fun d ↦ { s with driver := d }
  | .run p signal => s.run p signal
  | .lockOther => if s.sem = none then some { s with sem := some .other } else none
  | .unlockOther => if s.sem = some .other then some { s with sem := none } else none

def start (param : ℕ → U32) (lgbl : Global) (params : ModuleParams) : Ctime where
  driver := .boot param lgbl params
  ctimeSem := none
  sem := none
  calls := fun _ ↦ ⟨.idle, 0, ⟨0, 0⟩, ⟨0, 0⟩⟩
  written := 0
  returns := []

open Driver in
theorem queue_setMcFifo (s : Ctime) (q : LiberaFifo) :
    queue .mc (s.setMcFifo q).driver = (q, (queue .mc s.driver).2) := by
  simp [queue, setMcFifo]

open Driver in
theorem queue_setScFifo (s : Ctime) (q : LiberaFifo) :
    queue .sc (s.setScFifo q).driver = (q, (queue .sc s.driver).2) := by
  simp [queue, setScFifo]

/-! ## Mutual exclusion -/

variable {s t : Ctime} {p q : ℕ} {signal : Bool}

@[simp] theorem setCall_self (s : Ctime) (p : ℕ) (call : Call) :
    (s.setCall p call).calls p = call := Function.update_self ..

theorem setCall_of_ne (s : Ctime) (call : Call) (hq : q ≠ p) :
    (s.setCall p call).calls q = s.calls q := Function.update_of_ne hq ..

@[simp] theorem goto_self (s : Ctime) (p : ℕ) (pc : Pc) :
    (s.goto p pc).calls p = { s.calls p with pc := pc } := setCall_self ..

end Ctime

/-- The section that `event->CTIME_sem` guards. -/
def Pc.InCtime : Pc → Prop
  | .idle => False
  | .lockCtime => False
  | _ => True

namespace Ctime

variable {s t : Ctime} {p q : ℕ} {signal : Bool}

def Exclusive (s : Ctime) : Prop := ∀ p, (s.calls p).pc.InCtime ↔ s.ctimeSem = some p

/-- A step of a process that stays in the section. -/
structure Inside (s t : Ctime) (p : ℕ) : Prop where
  ctimeSem : t.ctimeSem = s.ctimeSem
  returns : t.returns = s.returns
  others : ∀ q ≠ p, t.calls q = s.calls q
  inCtime : (t.calls p).pc.InCtime

theorem Inside.of_calls {call : Call} (hsem : t.ctimeSem = s.ctimeSem)
    (hret : t.returns = s.returns) (hcalls : t.calls = Function.update s.calls p call)
    (hin : call.pc.InCtime) : Inside s t p :=
  ⟨hsem, hret, fun q hq ↦ by rw [hcalls, Function.update_of_ne hq],
    by rwa [hcalls, Function.update_self]⟩

/-- A process enters a call, enters the section or is sent away from it, leaves it, or
stays inside. -/
theorem run_cases (h : s.run p signal = some t) :
    ((s.calls p).pc = .idle ∧ t = s.goto p .lockCtime) ∨
    ((s.calls p).pc = .lockCtime ∧
      ((s.ctimeSem = none ∧ t = { s.goto p .write with ctimeSem := some p }) ∨
        (s.ctimeSem ≠ none ∧ t = s.finish p (-ERESTARTSYS)))) ∨
    (∃ ret, (s.calls p).pc = .unlockCtime ret ∧ t = { s.finish p ret with ctimeSem := none }) ∨
    ((s.calls p).pc.InCtime ∧ (∀ ret, (s.calls p).pc ≠ .unlockCtime ret) ∧ Inside s t p) := by
  unfold run at h
  cases hpc : (s.calls p).pc with
  | idle =>
      rw [hpc] at h
      exact .inl ⟨rfl, (Option.some.inj h).symm⟩
  | lockCtime =>
      rw [hpc] at h
      simp only [lockCtime] at h
      split_ifs at h with hfree hsignal
      · exact .inr (.inl ⟨rfl, .inl ⟨hfree, (Option.some.inj h).symm⟩⟩)
      · exact .inr (.inl ⟨rfl, .inr ⟨hfree, (Option.some.inj h).symm⟩⟩)
  | unlockCtime ret =>
      rw [hpc] at h
      exact .inr (.inr (.inl ⟨ret, rfl, (Option.some.inj h).symm⟩))
  | _ =>
      refine .inr (.inr (.inr ⟨trivial, by simp, ?_⟩))
      rw [hpc] at h
      simp only [lockEvent] at h
      repeat' split at h
      all_goals first
        | obtain rfl := Option.some.inj h
          exact .of_calls rfl rfl rfl trivial
        | exact absurd h (Option.some_ne_none t).symm

theorem Exclusive.run (h : s.Exclusive) (hrun : s.run p signal = some t) : t.Exclusive := by
  intro q
  have hq := h q
  rcases run_cases hrun with ⟨hpc, rfl⟩ | ⟨hpc, ⟨hfree, rfl⟩ | ⟨-, rfl⟩⟩ | ⟨ret, hpc, rfl⟩ |
    ⟨hin, -, hinside⟩
  all_goals by_cases hqp : q = p
  -- `p` enters a call
  · subst hqp
    simpa [Pc.InCtime, hpc, goto, setCall] using hq
  · rwa [goto, setCall_of_ne s _ hqp]
  -- `p` enters the section
  · subst hqp
    simp [Pc.InCtime, goto, setCall]
  · change ((s.goto p .write).calls q).pc.InCtime ↔ some p = some q
    rw [goto, setCall_of_ne s _ hqp, hq, hfree]
    simp [Ne.symm hqp]
  -- `p` is sent away
  · subst hqp
    simpa [Pc.InCtime, hpc, finish, goto, setCall] using hq
  · change ((s.goto p .idle).calls q).pc.InCtime ↔ _
    rw [goto, setCall_of_ne s _ hqp, hq]
    rfl
  -- `p` leaves the section
  · subst hqp
    simp [Pc.InCtime, finish, goto, setCall]
  · have hmine : s.ctimeSem = some p := (h p).mp (by rw [hpc]; trivial)
    change ((s.goto p .idle).calls q).pc.InCtime ↔ none = some q
    rw [goto, setCall_of_ne s _ hqp, hq, hmine]
    simp [Ne.symm hqp]
  -- `p` stays inside
  · subst hqp
    rw [hinside.ctimeSem]
    exact ⟨fun _ ↦ hq.mp hin, fun _ ↦ hinside.inCtime⟩
  · rw [hinside.others q hqp, hinside.ctimeSem, hq]

/-! ## What the mutex guards -/

end Ctime

/-- An invariant of the fifos and of what is written that the section may break, as
long as it says for each control point how: `free` holds while nobody is inside,
`held` while a process is, and every return meets `ret`. -/
structure Protocol where
  free : Driver → ℕ → Prop
  held : Driver → ℕ → Call → Prop
  ret : Return → Prop

namespace Protocol

open Ctime

variable {P : Protocol} {ok : Ctime → CtimeStep → Prop} {s t : Ctime} {p : ℕ}

/-- The steps follow the protocol. -/
structure Sound (P : Protocol) (ok : Ctime → CtimeStep → Prop) : Prop where
  enter : ∀ d n (call : Call), P.free d n → P.held d n { call with pc := .write }
  inside : ∀ s t p signal, ok s (.run p signal) → s.run p signal = some t →
    (∀ ret, (s.calls p).pc ≠ .unlockCtime ret) → (s.calls p).pc.InCtime →
      P.held s.driver s.written (s.calls p) → P.held t.driver t.written (t.calls p)
  leave : ∀ d n (call : Call) ret, call.pc = .unlockCtime ret → P.held d n call →
    P.free d n ∧ P.ret ⟨ret, call.wrote, call.lmt, call.lst⟩
  refused : ∀ call : Call, P.ret ⟨-ERESTARTSYS, call.wrote, call.lmt, call.lst⟩
  timing : ∀ s l d, ok s (.timing l) → s.driver.step l = some d →
    (P.free s.driver s.written → P.free d s.written) ∧
      ∀ call, P.held s.driver s.written call → P.held d s.written call

structure Inv (P : Protocol) (s : Ctime) : Prop where
  exclusive : s.Exclusive
  free : s.ctimeSem = none → P.free s.driver s.written
  held : ∀ p, s.ctimeSem = some p → P.held s.driver s.written (s.calls p)
  returns : ∀ r ∈ s.returns, P.ret r

theorem Inv.run {signal : Bool} (h : P.Inv s) (hP : P.Sound ok) (hok : ok s (.run p signal))
    (hrun : s.run p signal = some t) : P.Inv t := by
  have hexcl := h.exclusive.run hrun
  have hfinish (ret : ℤ)
      (hret : P.ret ⟨ret, (s.calls p).wrote, (s.calls p).lmt, (s.calls p).lst⟩) :
      ∀ r ∈ (s.finish p ret).returns, P.ret r := by
    intro r hr
    change r ∈ s.returns ++ [_] at hr
    rw [List.mem_append, List.mem_singleton] at hr
    rcases hr with hr | rfl
    · exact h.returns r hr
    · exact hret
  rcases run_cases hrun with ⟨hpc, rfl⟩ | ⟨hpc, ⟨hfree, rfl⟩ | ⟨-, rfl⟩⟩ | ⟨ret, hpc, rfl⟩ |
    ⟨hin, hpc, hinside⟩
  · refine ⟨hexcl, h.free, fun q hq ↦ ?_, h.returns⟩
    have hqp : q ≠ p := by
      rintro rfl
      have := (h.exclusive q).mpr hq
      simp [hpc, Pc.InCtime] at this
    rw [goto, setCall_of_ne s _ hqp]
    exact h.held q hq
  · refine ⟨hexcl, fun hq ↦ by simp at hq, fun q hq ↦ ?_, h.returns⟩
    obtain rfl : p = q := by simpa using hq
    change P.held s.driver s.written ((s.goto p .write).calls p)
    rw [goto_self]
    exact hP.enter _ _ _ (h.free hfree)
  · refine ⟨hexcl, h.free, fun q hq ↦ ?_, hfinish _ (hP.refused _)⟩
    have hqp : q ≠ p := by
      rintro rfl
      have := (h.exclusive q).mpr hq
      simp [hpc, Pc.InCtime] at this
    change P.held s.driver s.written ((s.goto p .idle).calls q)
    rw [goto, setCall_of_ne s _ hqp]
    exact h.held q hq
  · have hmine : s.ctimeSem = some p := (h.exclusive p).mp (by rw [hpc]; trivial)
    obtain ⟨hfree, hret⟩ := hP.leave _ _ _ ret hpc (h.held p hmine)
    exact ⟨hexcl, fun _ ↦ hfree, fun q hq ↦ by simp at hq, hfinish ret hret⟩
  · have hmine : s.ctimeSem = some p := (h.exclusive p).mp hin
    have hstay : t.ctimeSem = some p := hinside.ctimeSem.trans hmine
    refine ⟨hexcl, fun hq ↦ by simp [hstay] at hq, fun q hq ↦ ?_, ?_⟩
    · obtain rfl : p = q := by simpa [hstay] using hq
      exact hP.inside s t p signal hok hrun hpc hin (h.held p hmine)
    · rw [hinside.returns]
      exact h.returns

theorem Inv.step {l : CtimeStep} (h : P.Inv s) (hP : P.Sound ok) (hok : ok s l)
    (hstep : s.step l = some t) : P.Inv t := by
  cases l with
  | timing l =>
      obtain ⟨d, hd, rfl⟩ := Option.map_eq_some_iff.mp hstep
      obtain ⟨hfree, hheld⟩ := hP.timing s l d hok hd
      exact ⟨h.exclusive, fun hq ↦ hfree (h.free hq), fun q hq ↦ hheld _ (h.held q hq), h.returns⟩
  | run p signal => exact h.run hP hok hstep
  | lockOther =>
      simp only [Ctime.step] at hstep
      split_ifs at hstep
      obtain rfl := Option.some.inj hstep
      exact ⟨h.exclusive, h.free, h.held, h.returns⟩
  | unlockOther =>
      simp only [Ctime.step] at hstep
      split_ifs at hstep
      obtain rfl := Option.some.inj hstep
      exact ⟨h.exclusive, h.free, h.held, h.returns⟩

/-- **The protocol holds over every run that follows it.** -/
theorem Sound.run {param : ℕ → U32} {lgbl : Global} {params : ModuleParams}
    {ls : List CtimeStep} (hP : P.Sound ok) (hfree : P.free (.boot param lgbl params) 0)
    (hrun : Steps Ctime.step ok (Ctime.start param lgbl params) ls s) : P.Inv s := by
  refine hrun.invariant (fun _ _ _ h hok hstep ↦ h.step hP hok hstep) ⟨fun p ↦ ?_, fun _ ↦ hfree,
    fun p hp ↦ ?_, fun r hr ↦ ?_⟩
  · simp [Ctime.start, Pc.InCtime]
  · simp [Ctime.start] at hp
  · simp [Ctime.start] at hr

end Protocol

end LiberaBase
