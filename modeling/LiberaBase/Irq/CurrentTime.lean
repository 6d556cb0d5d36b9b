import LiberaBase.Irq.Order
import LiberaBase.Timing.CtimePair

/-!
# Reading the current time under interrupts

A process that has taken the LMT takes the LST without waiting, so that the SC half of its trigger
has to be handled by then.  That the SC handler is called before the MC handler does not give it:
both halves may arrive after its last look at the SC fifo.  What gives it is that the process does
not run before the interrupt handler has found nothing pending.
-/

namespace LiberaBase

open Runs Driver

/-- A step of a process or of another user of `event->sem`. -/
def CtimeStep.isProcess : CtimeStep → Bool
  | .timing _ => false
  | _ => true

/-- The interrupt handler, the two mutexes and the processes. -/
structure CtimeIrq where
  interrupt : Interrupt
  ctimeSem : Option ℕ
  sem : Option Holder
  calls : ℕ → Call
  written : ℕ
  returns : List Return

inductive CtimeIrqStep where
  | irq (l : IrqStep)
  | process (l : CtimeStep)

namespace CtimeIrq

/-- The processes and the driver, without the interrupt handler. -/
def ctime (s : CtimeIrq) : Ctime where
  driver := s.interrupt.driver
  ctimeSem := s.ctimeSem
  sem := s.sem
  calls := s.calls
  written := s.written
  returns := s.returns

def setCtime (s : CtimeIrq) (c : Ctime) : CtimeIrq where
  interrupt := { s.interrupt with driver := c.driver }
  ctimeSem := c.ctimeSem
  sem := c.sem
  calls := c.calls
  written := c.written
  returns := c.returns

/-- A process runs when the processor is not in the interrupt handler. -/
def step (s : CtimeIrq) : CtimeIrqStep → Option CtimeIrq
  | .irq l => (s.interrupt.step l).map fun u ↦ { s with interrupt := u }
  | .process l =>
    if s.interrupt.pc = .outside ∧ l.isProcess = true then (s.ctime.step l).map s.setCtime else none

def start (param : ℕ → U32) (lgbl : Global) (params : ModuleParams) : CtimeIrq where
  interrupt := .boot param lgbl params
  ctimeSem := none
  sem := none
  calls := fun _ ↦ ⟨.idle, 0, ⟨0, 0⟩, ⟨0, 0⟩⟩
  written := 0
  returns := []

end CtimeIrq

/-! ## The hardware -/

/-- The entry that is handled next finds room for its stamp. -/
def Interrupt.RoomNext (s : Interrupt) : IrqStep → Prop
  | .sc => ∀ e ∈ s.scModule.head?, HasRoom .sc s.driver e
  | .mc => ∀ e ∈ s.mcModule.head?, HasRoom .mc s.driver e
  | _ => True

/-- The SC half of the current-time trigger arrives before its MC half, and the fifos of the
trigger do not overflow. -/
def CtimeIrq.Delivered (s : CtimeIrq) : CtimeIrqStep → Prop
  | .irq l => s.interrupt.LstFirst tTrigCtime l ∧ s.interrupt.RoomNext l
  | .process _ => True

/-! ## Inside the handler -/

/-- The two fifos as their readers see them, one side ahead of the other or not. -/
def servedApart : Protocol where
  free d _ := ∃ v w, Serves .mc v d ∧ Serves .sc w d ∧ v.popped = w.popped
  held d _ call := ∃ v w, Serves .mc v d ∧ Serves .sc w d ∧ PairAt (queue .mc d).2 v w call
  ret := pairing.ret

/-- The two protocols differ in the order of the two sides alone. -/
theorem pairing_inv_iff {s : Ctime} :
    pairing.Inv s ↔ servedApart.Inv s ∧ (queue .mc s.driver).2 ≤ (queue .sc s.driver).2 := by
  constructor
  · intro h
    refine ⟨⟨h.exclusive, fun hfree ↦ ?_, fun p hp ↦ ?_, h.returns⟩, ?_⟩
    · obtain ⟨v, w, hserves, hpopped⟩ := h.free hfree
      exact ⟨v, w, hserves.mc, hserves.sc, hpopped⟩
    · obtain ⟨v, w, hserves, hat⟩ := h.held p hp
      exact ⟨v, w, hserves.mc, hserves.sc, hat⟩
    · cases hsem : s.ctimeSem with
      | none =>
          obtain ⟨v, w, hserves, -⟩ := h.free hsem
          exact hserves.le
      | some p =>
          obtain ⟨v, w, hserves, -⟩ := h.held p hsem
          exact hserves.le
  · rintro ⟨h, hle⟩
    refine ⟨h.exclusive, fun hfree ↦ ?_, fun p hp ↦ ?_, h.returns⟩
    · obtain ⟨v, w, hmc, hsc, hpopped⟩ := h.free hfree
      exact ⟨v, w, ⟨hmc, hsc, hle⟩, hpopped⟩
    · obtain ⟨v, w, hmc, hsc, hat⟩ := h.held p hp
      exact ⟨v, w, ⟨hmc, hsc, hle⟩, hat⟩

/-- `d'` serves the readers that `d` served. -/
structure Keeps (d d' : Driver) : Prop where
  serves : ∀ c v, Serves c v d → Serves c v d'
  handled : ∀ c v, Serves c v d → (queue c d).2 ≤ (queue c d').2

theorem Keeps.of_queue {d d' : Driver} (h : ∀ c, queue c d' = queue c d) : Keeps d d' :=
  ⟨fun c _ hserves ↦ hserves.congr (h c), fun c _ _ ↦ (h c ▸ le_rfl)⟩

theorem Keeps.entry {c : Clock} {d d' : Driver} {e : FifoEntry} (hroom : HasRoom c d e)
    (hentry : Driver.entry c d e = some d') : Keeps d d' := by
  constructor
  all_goals intro c' v hserves
  all_goals by_cases hc : c' = c
  · subst hc
    exact (hserves.entry hentry hroom).1
  · exact hserves.congr (entry_other_queue hentry hc)
  · subst hc
    rw [(hserves.entry hentry hroom).2]
    exact Nat.le_add_right _ _
  · rw [entry_other_queue hentry hc]

theorem Keeps.inv {s t : Ctime} (hkeeps : Keeps s.driver t.driver) (hsem : t.ctimeSem = s.ctimeSem)
    (hcalls : t.calls = s.calls) (hreturns : t.returns = s.returns) (h : servedApart.Inv s) :
    servedApart.Inv t := by
  refine ⟨fun p ↦ ?_, fun hfree ↦ ?_, fun p hp ↦ ?_, fun r hr ↦ h.returns r (hreturns ▸ hr)⟩
  · rw [hcalls, hsem]
    exact h.exclusive p
  · obtain ⟨v, w, hmc, hsc, hpopped⟩ := h.free (hsem ▸ hfree)
    exact ⟨v, w, hkeeps.serves _ v hmc, hkeeps.serves _ w hsc, hpopped⟩
  · obtain ⟨v, w, hmc, hsc, hat⟩ := h.held p (hsem ▸ hp)
    rw [hcalls]
    exact ⟨v, w, hkeeps.serves _ v hmc, hkeeps.serves _ w hsc, hat.mono (hkeeps.handled _ v hmc)⟩

theorem Interrupt.keeps_step {s t : Interrupt} {l : IrqStep} (hroom : s.RoomNext l)
    (hstep : s.step l = some t) : Keeps s.driver t.driver := by
  rcases step_cases hstep with ⟨c, e, -, rfl⟩ | ⟨c, e, rfl, hhandled⟩ |
    ⟨r, d, -, hr, -, hd, rfl⟩ | hturned
  · exact .of_queue fun c' ↦ by rw [deliver_driver]
  · have hhead : (s.entries c).head? = some e := by rw [hhandled.entries, List.head?_cons]
    refine .entry (c := c) ?_ hhandled.driver
    cases c with
    | sc => exact hroom e hhead
    | mc => exact hroom e hhead
  · refine .of_queue fun c ↦ ?_
    rcases step_queue hd with ⟨c', es, rfl, -⟩ | hqueue
    · cases c' <;> cases hr
    · exact hqueue c
  · obtain ⟨_, _, _, heq⟩ := hturned.driver
    exact .of_queue fun c ↦ by rw [heq]; cases c <;> rfl

/-! ## Outside the handler -/

/-- A process handles no half. -/
theorem Ctime.halves_step {s t : Ctime} {l : CtimeStep} (hl : l.isProcess = true)
    (hstep : s.step l = some t) (c : Clock) : halves c t.driver = halves c s.driver := by
  cases l with
  | timing l => cases hl
  | lockOther | unlockOther =>
      simp only [Ctime.step] at hstep
      split_ifs at hstep
      rw [← Option.some.inj hstep]
  | run p signal =>
      simp only [Ctime.step, Ctime.run, Ctime.lockCtime, Ctime.lockEvent] at hstep
      repeat' split at hstep
      all_goals first
        | (obtain rfl := Option.some.inj hstep; cases c <;> rfl)
        | cases hstep

/-- The order of the halves depends on the driver through what it has handled. -/
theorem Interrupt.Ordered.congr {s : Interrupt} {d : Driver} {i : ℕ} (h : Ordered i s)
    (hd : ∀ c, halves c d = halves c s.driver) : Ordered i { s with driver := d } where
  scEnabled := h.scEnabled
  mcEnabled := h.mcEnabled
  arrived := by
    change halves .mc d i + s.pending .mc i ≤ halves .sc d i + s.pending .sc i
    rw [hd, hd]
    exact h.arrived
  outside := fun hpc ↦ by
    change halves .mc d i ≤ halves .sc d i
    rw [hd, hd]
    exact h.outside hpc

/-- The protocol of the processes alone. -/
theorem pairing_sound_process : pairing.Sound fun _ l ↦ l.isProcess = true where
  enter := pairing_sound.enter
  inside := fun _ _ _ _ _ hrun hout hin hheld ↦ pairing_inside hrun hheld hout hin
  leave := pairing_sound.leave
  refused := pairing_sound.refused
  timing := fun _ _ _ hok ↦ absurd hok Bool.false_ne_true

namespace CtimeIrq

variable {s t : CtimeIrq} {l : CtimeIrqStep}

structure Inv (s : CtimeIrq) : Prop where
  ordered : Interrupt.Ordered tTrigCtime s.interrupt
  served : servedApart.Inv s.ctime

/-- When no interrupt is served, the readers find the two sides in order. -/
theorem Inv.outside (h : s.Inv) (hpc : s.interrupt.pc = .outside) : pairing.Inv s.ctime :=
  pairing_inv_iff.mpr ⟨h.served, h.ordered.outside hpc⟩

theorem Inv.step (h : s.Inv) (hok : s.Delivered l) (hstep : s.step l = some t) : t.Inv := by
  cases l with
  | irq l =>
      obtain ⟨u, hu, rfl⟩ := Option.map_eq_some_iff.mp hstep
      exact ⟨h.ordered.step hok.1 hu, Keeps.inv (s := s.ctime) (Interrupt.keeps_step hok.2 hu)
        rfl rfl rfl h.served⟩
  | process l =>
      simp only [CtimeIrq.step] at hstep
      split_ifs at hstep with hrun
      obtain ⟨c, hc, rfl⟩ := Option.map_eq_some_iff.mp hstep
      have hinv := (h.outside hrun.1).step pairing_sound_process hrun.2 hc
      exact ⟨h.ordered.congr (Ctime.halves_step hrun.2 hc), (pairing_inv_iff.mp hinv).1⟩

theorem Inv.start (param : ℕ → U32) (lgbl : Global) (params : ModuleParams) :
    Inv (.start param lgbl params) where
  ordered := Interrupt.ordered_boot param lgbl params
  served := by
    have hserves (c : Clock) : Serves c ⟨0, 0, ⟨0, 0⟩⟩ (Driver.boot param lgbl params) := by
      cases c <;> exact ⟨.flush ⟨fun _ ↦ ⟨0, 0⟩, 0, 0⟩ 0, rfl, rfl⟩
    refine ⟨fun p ↦ ?_, fun _ ↦ ⟨_, _, hserves .mc, hserves .sc, rfl⟩, fun p hp ↦ ?_, fun r hr ↦ ?_⟩
    · simp [ctime, CtimeIrq.start, Pc.InCtime]
    · cases hp
    · cases hr

/-- **Under interrupts the LST and the LMT of a call are those of one trigger.**  It is enough that
the SC half arrives before the MC half, and that the fifos do not overflow: a process that comes to
take the LST finds it. -/
theorem ctime_paired_irq {param : ℕ → U32} {lgbl : Global} {params : ModuleParams}
    {ls : List CtimeIrqStep} (hrun : Steps step Delivered (start param lgbl params) ls s) :
    (∀ r ∈ s.returns, r.ret ≠ -EFAULT ∧ (r.ret = 0 → r.lst.half = r.lmt.half)) ∧
      (s.interrupt.pc = .outside → ∀ p, (s.calls p).pc = .takeSC →
        (getFromFIFO s.ctime.scFifo).isSome) := by
  have hinv : s.Inv := hrun.invariant (fun _ _ _ h hok hstep ↦ h.step hok hstep) (.start ..)
  refine ⟨hinv.served.returns, fun hpc p hp ↦ ?_⟩
  obtain ⟨v, w, hmc, hsc, hat⟩ :=
    hinv.served.held p ((hinv.served.exclusive p).mp (by
      change (s.calls p).pc.InCtime
      rw [hp]
      trivial))
  rw [PairAt, show (s.ctime.calls p).pc = _ from hp] at hat
  have hle : (queue .mc s.ctime.driver).2 ≤ (queue .sc s.ctime.driver).2 := hinv.ordered.outside hpc
  have hlt : w.popped < (queue .sc s.ctime.driver).2 := by
    have := hmc.queued.le
    omega
  obtain ⟨q, hget, -⟩ := hsc.queued.get_next hlt
  rw [show getFromFIFO s.ctime.scFifo = _ from hget]
  rfl

/-! ## A fixed run -/

instance (s : Interrupt) : (l : IrqStep) → Decidable (s.RoomNext l)
  | .sc => inferInstanceAs (Decidable (∀ e ∈ s.scModule.head?, _))
  | .mc => inferInstanceAs (Decidable (∀ e ∈ s.mcModule.head?, _))
  | .arrive _ _ | .enter | .readVector _ | .ilk _ | .help _ | .dd | .sa | .request _ | .enableDD =>
    isTrue trivial

instance (s : CtimeIrq) : (l : CtimeIrqStep) → Decidable (s.Delivered l)
  | .irq l => inferInstanceAs (Decidable (s.interrupt.LstFirst tTrigCtime l ∧ _))
  | .process _ => isTrue trivial

/-- Both halves of the trigger of process 0 arrive when the SC handler has found its fifo empty. -/
theorem ctime_paired_irq_behindTheBack : ∃ s : CtimeIrq,
    ((∀ r ∈ s.returns, r.ret ≠ -EFAULT ∧ (r.ret = 0 → r.lst.half = r.lmt.half)) ∧
      (s.interrupt.pc = .outside → ∀ p, (s.calls p).pc = .takeSC →
        (getFromFIFO s.ctime.scFifo).isSome)) ∧
    s.returns.map (·.ret) = [0] :=
  ⟨_, ctime_paired_irq (exec_get_steps step Delivered
    (start (fun _ ↦ 0) ⟨0, 0, 1, 1, 0⟩ ⟨0, 0, 0, 0⟩)
    ((runs 0 9).map .process ++
      [.irq (.arrive .sc (externalAt 1)), .irq (.arrive .mc (externalAt 1)), .irq .enter,
        .irq (.readVector (liberaInterruptSCMask ||| liberaInterruptMCMask)), .irq (.ilk 0),
        .irq .sc, .irq .sc, .irq (.arrive .sc (ctimeAt 7)), .irq (.arrive .mc (ctimeAt 7)),
        .irq .mc, .irq .mc, .irq .mc, .irq (.help 0), .irq .dd, .irq .sa,
        .irq (.readVector liberaInterruptSCMask), .irq (.ilk 0), .irq .sc, .irq .sc, .irq .mc,
        .irq (.help 0), .irq .dd, .irq .sa, .irq (.readVector 0)] ++
      (runs 0 8).map .process)
    (by decide +kernel)), by decide +kernel⟩

end CtimeIrq

end LiberaBase
