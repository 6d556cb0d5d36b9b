import LiberaBase.Irq.Interrupt
import LiberaBase.Timing.Pairing

/-!
# The two halves of a trigger under interrupts

The entry of a trigger arrives in the SC fifo first and in the MC fifo later.  The handler calls the
SC handler first, but entries arrive while it is at work: both halves of a trigger may come after
its last look at the SC fifo and before its last look at the MC fifo.  When the handler returns no
MC half is ahead of its SC half; inside it is one, if and only if the SC half still waits in the
hardware fifo.
-/

namespace LiberaBase

open Runs Driver

namespace Interrupt

variable {s t : Interrupt} {c c' : Clock} {e : FifoEntry} {l : IrqStep} {i : ℕ} {v irq : U32}

/-! ## Halves that arrived -/

/-- The halves of a trigger line that wait in the timing module. -/
def pending (c : Clock) (s : Interrupt) (i : ℕ) : ℕ :=
  (s.entries c).countP fun e ↦ i ∈ trigBits e.tl

/-- The halves that the timing module has delivered. -/
def arrived (c : Clock) (s : Interrupt) (i : ℕ) : ℕ := halves c s.driver i + s.pending c i

theorem pending_deliver_self (s : Interrupt) (c : Clock) (e : FifoEntry) (i : ℕ) :
    (s.deliver c e).pending c i = s.pending c i + if i ∈ trigBits e.tl then 1 else 0 := by
  rw [pending, pending, entries_deliver_self, List.countP_append, List.countP_singleton]
  simp

theorem pending_deliver_of_ne (s : Interrupt) (e : FifoEntry) (i : ℕ) (hne : c' ≠ c) :
    (s.deliver c e).pending c' i = s.pending c' i := by
  rw [pending, pending, entries_deliver_of_ne s e hne]

theorem arrived_deliver (s : Interrupt) (c c' : Clock) (e : FifoEntry) (i : ℕ) :
    (s.deliver c e).arrived c' i =
      s.arrived c' i + if c' = c ∧ i ∈ trigBits e.tl then 1 else 0 := by
  rw [arrived, arrived, deliver_driver]
  by_cases hc : c' = c
  · subst hc
    rw [pending_deliver_self, ← add_assoc]
    simp
  · rw [pending_deliver_of_ne s e i hc, if_neg (fun h ↦ hc h.1), Nat.add_zero]

theorem Handled.arrived_eq (h : Handled c s t e) (c' : Clock) (i : ℕ) :
    t.arrived c' i = s.arrived c' i := by
  by_cases hc : c' = c
  · subst hc
    rw [arrived, arrived, pending, pending, h.entries, entry_halves h.driver, List.countP_cons]
    by_cases hi : i ∈ trigBits e.tl
    · simp only [hi, if_true, decide_true]
      omega
    · simp [hi]
  · rw [arrived, arrived, pending, pending, h.others c' hc, entry_other_halves h.driver hc]

theorem Turned.halves_eq (h : Turned s t) (c : Clock) : halves c t.driver = halves c s.driver :=
  h.driver.halves

theorem Turned.pending_eq (h : Turned s t) (c : Clock) (i : ℕ) :
    t.pending c i = s.pending c i := by
  rw [pending, pending, h.entries]

theorem Turned.arrived_eq (h : Turned s t) (c : Clock) (i : ℕ) :
    t.arrived c i = s.arrived c i := by
  rw [arrived, arrived, h.halves_eq, h.pending_eq]

/-- Only a delivery changes what has arrived; what waits is handled, or waits on. -/
theorem arrived_step (h : s.step l = some t) :
    (∃ c e, l = .arrive c e ∧ t = s.deliver c e) ∨
      ∀ c, t.arrived c i = s.arrived c i ∧ t.pending c i ≤ s.pending c i := by
  rcases step_cases h with harrive | ⟨c, e, -, hhandled⟩ | ⟨r, d, -, hr, -, hd, rfl⟩ | hturned
  · exact .inl harrive
  · refine .inr fun c' ↦ ⟨hhandled.arrived_eq c' i, ?_⟩
    rw [pending, pending]
    by_cases hc : c' = c
    · subst hc
      rw [hhandled.entries, List.countP_cons]
      exact Nat.le_add_right _ _
    · rw [hhandled.others c' hc]
  · refine .inr fun c ↦ ⟨?_, le_rfl⟩
    change halves c d i + s.pending c i = _
    rw [request_halves hr hd]
    rfl
  · exact .inr fun c ↦ ⟨hturned.arrived_eq c i, (hturned.pending_eq c i).le⟩

/-! ## What the driver relies on -/

/-- The pending interrupts are those of the fifos that are not empty, and of a trigger `i` the SC
half arrives before the MC half. -/
def LstFirst (i : ℕ) (s : Interrupt) : IrqStep → Prop
  | .readVector irq =>
    (irq &&& liberaInterruptSCMask ≠ 0 ↔ s.scModule ≠ []) ∧
      (irq &&& liberaInterruptMCMask ≠ 0 ↔ s.mcModule ≠ [])
  | .arrive .mc e => i ∈ trigBits e.tl → s.arrived .mc i < s.arrived .sc i
  | _ => True

/-- The SC and the MC interrupt stay enabled, and no MC half that arrived, or that was handled when
the handler returned, is ahead of its SC half. -/
structure Ordered (i : ℕ) (s : Interrupt) : Prop where
  scEnabled : s.irqMask &&& liberaInterruptSCMask = liberaInterruptSCMask
  mcEnabled : s.irqMask &&& liberaInterruptMCMask = liberaInterruptMCMask
  arrived : s.arrived .mc i ≤ s.arrived .sc i
  outside : s.pc = .outside → halves .mc s.driver i ≤ halves .sc s.driver i

theorem and_enabled {mask bit : U32} (henabled : mask &&& bit = bit) (irq : U32) :
    irq &&& mask &&& bit = irq &&& bit := by
  rw [BitVec.and_assoc, henabled]

/-- The handler returns when it finds nothing pending. -/
theorem return_cases (h : s.step l = some t) (hpc : t.pc = .outside) :
    s.pc = .outside ∨ ∃ irq, l = .readVector irq ∧ irq &&& s.irqMask = 0 ∧
      t = { s with pc := .outside } := by
  cases l with
  | arrive c e =>
      simp only [step] at h
      split_ifs at h
      obtain rfl := Option.some.inj h
      exact .inl ((s.deliver_pc c e).symm.trans hpc)
  | readVector irq =>
      simp only [step] at h
      split_ifs at h with hvector hnone
      · exact .inr ⟨irq, rfl, hnone, (Option.some.inj h).symm⟩
      · obtain rfl := Option.some.inj h
        cases hpc
  | request r =>
      simp only [step] at h
      split_ifs at h with hrequest
      exact .inl hrequest.1
  | enableDD =>
      simp only [step] at h
      split_ifs at h with houtside
      exact .inl houtside
  | enter =>
      simp only [step] at h
      split_ifs at h with houtside
      exact .inl houtside
  | ilk _ | sc | mc | help _ | dd | sa =>
      exfalso
      cases hs : s.pc <;> simp only [step, hs, scRound, mcRound, reduceCtorEq] at h
      all_goals
        repeat' split at h
        all_goals first
          | (obtain rfl := Option.some.inj h; simp at hpc)
          | (obtain ⟨d, -, rfl⟩ := Option.map_eq_some_iff.mp h; simp at hpc)

/-- The SC and the MC interrupt are never disabled. -/
theorem enabled_step (h : s.step l = some t) :
    t.irqMask &&& liberaInterruptSCMask = s.irqMask &&& liberaInterruptSCMask ∧
      t.irqMask &&& liberaInterruptMCMask = s.irqMask &&& liberaInterruptMCMask := by
  rcases step_cases h with ⟨c, e, -, rfl⟩ | ⟨c, e, -, hhandled⟩ | ⟨r, d, -, -, -, -, rfl⟩ | hturned
  · rw [deliver_irqMask]
    exact ⟨rfl, rfl⟩
  · rw [hhandled.irqMask]
    exact ⟨rfl, rfl⟩
  · exact ⟨rfl, rfl⟩
  · exact ⟨hturned.scEnabled, hturned.mcEnabled⟩

/-- Outside the handler no entry is handled. -/
theorem halves_step_outside (h : s.step l = some t) (hpc : s.pc = .outside) :
    halves c t.driver = halves c s.driver := by
  rcases step_cases h with ⟨c, e, -, rfl⟩ | ⟨c, e, -, hhandled⟩ |
    ⟨r, d, -, hr, -, hd, rfl⟩ | hturned
  · rw [deliver_driver]
  · cases c <;> simpa [AtRound, hpc] using hhandled.round
  · exact request_halves hr hd
  · exact hturned.halves_eq _

/-- When nothing enabled is pending, both fifos are empty. -/
theorem Ordered.empty_of_none (h : Ordered i s) (hok : s.LstFirst i (.readVector irq))
    (hnone : irq &&& s.irqMask = 0) (c : Clock) : s.entries c = [] := by
  have hbit {bit : U32} (henabled : s.irqMask &&& bit = bit) : irq &&& bit = 0 := by
    rw [← and_enabled henabled, hnone]
    exact BitVec.zero_and
  cases c with
  | sc => exact not_not.mp (mt hok.1.mpr (not_not.mpr (hbit h.scEnabled)))
  | mc => exact not_not.mp (mt hok.2.mpr (not_not.mpr (hbit h.mcEnabled)))

theorem Ordered.step (h : Ordered i s) (hok : s.LstFirst i l) (hstep : s.step l = some t) :
    Ordered i t := by
  have harrived : t.arrived .mc i ≤ t.arrived .sc i := by
    rcases arrived_step (i := i) hstep with ⟨c, e, rfl, rfl⟩ | hsame
    · rw [arrived_deliver, arrived_deliver]
      have := h.arrived
      cases c with
      | sc => simp; omega
      | mc =>
          have hfirst : i ∈ trigBits e.tl → s.arrived .mc i < s.arrived .sc i := hok
          by_cases hmem : i ∈ trigBits e.tl
          · have hlt := hfirst hmem
            simp [hmem]
            omega
          · simp [hmem]
            omega
    · rw [(hsame _).1, (hsame _).1]
      exact h.arrived
  obtain ⟨hscEnabled, hmcEnabled⟩ := enabled_step hstep
  refine ⟨hscEnabled ▸ h.scEnabled, hmcEnabled ▸ h.mcEnabled, harrived, fun hpc ↦ ?_⟩
  rcases return_cases hstep hpc with houtside | ⟨irq, rfl, hnone, rfl⟩
  · rw [halves_step_outside hstep houtside, halves_step_outside hstep houtside]
    exact h.outside houtside
  · -- both fifos are empty, so that what arrived has been handled
    have hempty (c : Clock) : halves c s.driver i = s.arrived c i := by
      rw [Interrupt.arrived, pending, h.empty_of_none hok hnone, List.countP_nil, Nat.add_zero]
    rw [hempty, hempty]
    exact h.arrived

theorem enabled_init : irqMaskInit &&& liberaInterruptSCMask = liberaInterruptSCMask ∧
    irqMaskInit &&& liberaInterruptMCMask = liberaInterruptMCMask := by
  decide

theorem ordered_boot (param : ℕ → U32) (lgbl : Global) (params : ModuleParams) :
    Ordered i (boot param lgbl params) :=
  ⟨enabled_init.1, enabled_init.2, le_rfl, fun _ ↦ le_rfl⟩

theorem Ordered.run {param : ℕ → U32} {lgbl : Global} {params : ModuleParams} {ls : List IrqStep}
    (hrun : Steps Interrupt.step (LstFirst i) (boot param lgbl params) ls s) : Ordered i s :=
  hrun.invariant (fun _ _ _ h hok hstep ↦ h.step hok hstep) (ordered_boot param lgbl params)

/-- **The handler returns with every MC half behind its SC half.**  Whatever arrives while it is at
work, outside the handler no MC half of a trigger is ahead of its SC half; and when it returns
it has left nothing in the fifos. -/
theorem returns_ordered {param : ℕ → U32} {lgbl : Global} {params : ModuleParams}
    {ls : List IrqStep} (hrun : Steps step (LstFirst i) (boot param lgbl params) ls s) :
    (s.pc = .outside → halves .mc s.driver i ≤ halves .sc s.driver i) ∧
      ∀ irq t, s.LstFirst i (.readVector irq) → s.step (.readVector irq) = some t →
        t.pc = .outside → t.scModule = [] ∧ t.mcModule = [] := by
  have hordered := Ordered.run hrun
  refine ⟨hordered.outside, fun irq t hok hstep hpc ↦ ?_⟩
  simp only [step] at hstep
  split_ifs at hstep with hvector hnone
  · obtain rfl := Option.some.inj hstep
    exact ⟨hordered.empty_of_none hok hnone .sc, hordered.empty_of_none hok hnone .mc⟩
  · obtain rfl := Option.some.inj hstep
    cases hpc

/-! ## One trigger at a time -/

/-- The SC half of a trigger arrives when both halves of the trigger before it have been
handled. -/
def OneAtATime (i : ℕ) (s : Interrupt) : IrqStep → Prop
  | .arrive .sc e => i ∈ trigBits e.tl → s.arrived .sc i = halves .mc s.driver i
  | _ => True

/-- The MC handler is at work, or the next to be at work, on a vector that was read before the SC
half of the trigger arrived. -/
def PastSC (s : Interrupt) : Prop :=
  match s.pc with
  | .ilk v | .sc v => v &&& liberaInterruptSCMask = 0 ∧ v &&& liberaInterruptMCMask ≠ 0
  | .mc v => v &&& liberaInterruptMCMask ≠ 0
  | _ => False

/-- The MC half of a trigger does not arrive when the handler has passed the SC fifo, the SC half
still waits in it, and the handler has not yet left the MC fifo. -/
def Punctual (i : ℕ) (s : Interrupt) : IrqStep → Prop
  | .arrive .mc e => i ∈ trigBits e.tl → s.PastSC → s.pending .sc i = 0
  | _ => True

/-- No request thaws the post-mortem buffer between the two halves of a trigger. -/
def RequestInTurn (i : ℕ) (s : Interrupt) : IrqStep → Prop
  | .request r => InTurnAt i s.driver r
  | _ => True

/-- The halves of a trigger arrive in order, before those of the next, and on one side of the look
of the handler, and the post-mortem buffer is thawed between two triggers only. -/
structure Apart (i : ℕ) (s : Interrupt) (l : IrqStep) : Prop where
  lstFirst : s.LstFirst i l
  oneAtATime : s.OneAtATime i l
  punctual : s.Punctual i l
  inTurn : s.RequestInTurn i l

/-- One trigger at most is on its way, and the MC handler finds its MC half only after the SC half
was handled. -/
structure Unmixed (i : ℕ) (s : Interrupt) : Prop where
  one : s.arrived .sc i ≤ halves .mc s.driver i + 1
  past : s.PastSC → s.pending .mc i ≠ 0 → s.pending .sc i = 0
  pairing : Pairing i s.driver

/-- The handler passes the SC fifo when the fifo is empty. -/
theorem pastSC_cases (h : s.step l = some t) (hordered : Ordered i s) (hok : s.LstFirst i l)
    (hpast : t.PastSC) : s.PastSC ∨ t.scModule = [] := by
  cases l with
  | arrive c e =>
      simp only [step] at h
      split_ifs at h
      obtain rfl := Option.some.inj h
      left
      rwa [PastSC, deliver_pc] at hpast
  | readVector irq =>
      simp only [step] at h
      split_ifs at h with hvector hnone
      · obtain rfl := Option.some.inj h
        cases hpast
      · obtain rfl := Option.some.inj h
        right
        have hnot : irq &&& liberaInterruptSCMask = 0 := by
          rw [← and_enabled hordered.scEnabled]
          exact hpast.1
        exact not_not.mp (mt hok.1.mpr (not_not.mpr hnot))
  | ilk status =>
      cases hpc : s.pc <;> simp only [step, hpc, reduceCtorEq] at h
      obtain rfl := Option.some.inj h
      left
      rw [PastSC, hpc]
      exact hpast
  | sc =>
      cases hpc : s.pc <;> simp only [step, hpc, reduceCtorEq, scRound] at h
      split_ifs at h with henabled
      · split at h
        · next hempty =>
            obtain rfl := Option.some.inj h
            exact .inr hempty
        · obtain ⟨d, -, rfl⟩ := Option.map_eq_some_iff.mp h
          simp only [PastSC] at hpast
          exact absurd hpast.1 henabled
      · obtain rfl := Option.some.inj h
        left
        rw [PastSC, hpc]
        exact ⟨not_not.mp henabled, hpast⟩
  | mc =>
      cases hpc : s.pc <;> simp only [step, hpc, reduceCtorEq, mcRound] at h
      split_ifs at h with henabled
      · left
        rw [PastSC, hpc]
        exact henabled
      · obtain rfl := Option.some.inj h
        cases hpast
  | help _ | dd | sa =>
      cases hpc : s.pc <;> simp only [step, hpc, reduceCtorEq] at h
      obtain rfl := Option.some.inj h
      cases hpast
  | enter =>
      simp only [step] at h
      split_ifs at h
      obtain rfl := Option.some.inj h
      cases hpast
  | request r =>
      simp only [step] at h
      split_ifs at h
      obtain ⟨d, -, rfl⟩ := Option.map_eq_some_iff.mp h
      exact .inl hpast
  | enableDD =>
      simp only [step] at h
      split_ifs at h
      obtain rfl := Option.some.inj h
      exact .inl hpast

/-- The halves find the handlers in turn. -/
theorem Unmixed.takesTurn (h : Unmixed i s) (hordered : Ordered i s) (hhandled : Handled .mc s t e)
    (hi : i ∈ trigBits e.tl) : halves .sc s.driver i = halves .mc s.driver i + 1 := by
  obtain ⟨v, hpc, henabled⟩ := hhandled.round
  have hwaits : s.pending .mc i ≠ 0 := by
    rw [pending, hhandled.entries, List.countP_cons]
    simp [hi]
  have hnone := h.past (by rw [PastSC, hpc]; exact henabled) hwaits
  have hone := h.one
  have hle := hordered.arrived
  rw [Interrupt.arrived, Interrupt.arrived] at hle
  rw [Interrupt.arrived] at hone
  omega

theorem Unmixed.step (h : Unmixed i s) (hordered : Ordered i s) (hi : IsPaired i)
    (hok : s.Apart i l) (hstep : s.step l = some t) : Unmixed i t := by
  have hone := h.one
  have hle := hordered.arrived
  rw [Interrupt.arrived] at hone
  rw [Interrupt.arrived, Interrupt.arrived] at hle
  rcases arrived_step (i := i) hstep with ⟨c, e, rfl, rfl⟩ | hsame
  · refine ⟨?_, fun hpast hmc ↦ ?_, by rw [deliver_driver]; exact h.pairing⟩
    · rw [arrived_deliver, deliver_driver, Interrupt.arrived]
      split_ifs with hmine
      · obtain ⟨rfl, hbit⟩ := hmine
        have := hok.oneAtATime hbit
        rw [Interrupt.arrived] at this
        omega
      · exact hone
    · rw [PastSC, deliver_pc] at hpast
      cases c with
      | sc =>
          rw [pending_deliver_of_ne s e i (by decide)] at hmc
          by_cases hbit : i ∈ trigBits e.tl
          · have := hok.oneAtATime hbit
            rw [Interrupt.arrived] at this
            omega
          · rw [pending_deliver_self, if_neg hbit, Nat.add_zero]
            exact h.past hpast hmc
      | mc =>
          rw [pending_deliver_of_ne s e i (by decide)]
          by_cases hbit : i ∈ trigBits e.tl
          · exact hok.punctual hbit hpast
          · refine h.past hpast ?_
            rwa [pending_deliver_self, if_neg hbit, Nat.add_zero] at hmc
  · refine ⟨?_, fun hpast hmc ↦ ?_, ?_⟩
    · have hsc := hsame .sc
      have hmc := hsame .mc
      simp only [Interrupt.arrived] at hsc hmc ⊢
      omega
    · have hmcs := (hsame .mc).2
      have hscs := (hsame .sc).2
      rcases pastSC_cases hstep hordered hok.lstFirst hpast with hbefore | hempty
      · have := h.past hbefore (by omega)
        omega
      · rw [pending, entries, hempty]
        rfl
    · rcases step_cases hstep with ⟨c, e, -, rfl⟩ | ⟨c, e, -, hhandled⟩ |
        ⟨r, d, rfl, -, -, hd, rfl⟩ | hturned
      · rw [deliver_driver]
        exact h.pairing
      · cases c with
        | sc => exact h.pairing.scEntry hi hhandled.driver
        | mc =>
            have hturn : EntryTakesTurn i s.driver e :=
              fun hbit _ ↦ h.takesTurn hordered hhandled hbit
            exact h.pairing.mcEntry hturn hhandled.driver
      · exact h.pairing.step hi hok.inTurn hd
      · obtain ⟨_, _, _, heq⟩ := hturned.driver
        rw [heq]
        exact h.pairing.frame ⟨rfl, rfl, rfl⟩ rfl rfl

theorem Unmixed.run {param : ℕ → U32} {lgbl : Global} {params : ModuleParams} {ls : List IrqStep}
    (hi : IsPaired i) (hrun : Steps Interrupt.step (Apart i) (boot param lgbl params) ls s) :
    Ordered i s ∧ Unmixed i s :=
  hrun.invariant (P := fun u ↦ Ordered i u ∧ Unmixed i u)
    (fun _ _ _ h hok hstep ↦ ⟨h.1.step hok.lstFirst hstep, h.2.step h.1 hi hok hstep⟩)
    ⟨ordered_boot param lgbl params, Nat.zero_le _, fun h ↦ h.elim,
      ⟨fun _ hlt ↦ absurd hlt (lt_irrefl 0), fun _ hc ↦ absurd hc List.not_mem_nil⟩⟩

/-- **Under interrupts completed entries are paired.**  While the halves of a trigger arrive in
order, apart from those of the others and not both behind the back of the SC handler, and no request
thaws the post-mortem buffer between the halves of a post-mortem trigger, every completed entry
holds the two stamps of one trigger. -/
theorem completed_paired_irq {param : ℕ → U32} {lgbl : Global} {params : ModuleParams}
    {ls : List IrqStep} (hi : IsPaired i)
    (hrun : Steps step (Apart i) (boot param lgbl params) ls s) :
    ∀ c ∈ s.driver.completed, c.trig = i → c.slot.lstHalf.number = c.slot.lmtHalf.number :=
  (Unmixed.run hi hrun).2.pairing.completed

/-! ## Fixed runs -/

instance (i : ℕ) (s : Interrupt) : (l : IrqStep) → Decidable (s.LstFirst i l)
  | .readVector _ => inferInstanceAs (Decidable (_ ∧ _))
  | .arrive .mc _ => inferInstanceAs (Decidable (_ → _))
  | .arrive .sc _ | .enter | .ilk _ | .sc | .mc | .help _ | .dd | .sa | .request _ | .enableDD =>
    isTrue trivial

instance (s : Interrupt) : Decidable s.PastSC := by
  unfold PastSC
  split <;> infer_instance

instance (i : ℕ) (s : Interrupt) : (l : IrqStep) → Decidable (s.OneAtATime i l)
  | .arrive .sc _ => inferInstanceAs (Decidable (_ → _))
  | .arrive .mc _ | .readVector _ | .enter | .ilk _ | .sc | .mc | .help _ | .dd | .sa | .request _
  | .enableDD => isTrue trivial

instance (i : ℕ) (s : Interrupt) : (l : IrqStep) → Decidable (s.Punctual i l)
  | .arrive .mc _ => inferInstanceAs (Decidable (_ → _ → _))
  | .arrive .sc _ | .readVector _ | .enter | .ilk _ | .sc | .mc | .help _ | .dd | .sa | .request _
  | .enableDD => isTrue trivial

instance (i : ℕ) (s : Interrupt) : (l : IrqStep) → Decidable (s.RequestInTurn i l)
  | .request r => inferInstanceAs (Decidable (InTurnAt i s.driver r))
  | .arrive _ _ | .readVector _ | .enter | .ilk _ | .sc | .mc | .help _ | .dd | .sa | .enableDD =>
    isTrue trivial

instance (i : ℕ) (s : Interrupt) (l : IrqStep) : Decidable (s.Apart i l) :=
  decidable_of_iff (s.LstFirst i l ∧ s.OneAtATime i l ∧ s.Punctual i l ∧ s.RequestInTurn i l)
    ⟨fun h ↦ ⟨h.1, h.2.1, h.2.2.1, h.2.2.2⟩,
      fun h ↦ ⟨h.lstFirst, h.oneAtATime, h.punctual, h.inTurn⟩⟩

/-- After `libera_init` with all parameters zero. -/
def quietBoot : Interrupt := boot (fun _ ↦ 0) ⟨0, 0, 1, 1, 0⟩ ⟨0, 0, 0xffff, 0⟩

/-- A trigger is handled; both halves of a second one arrive when the SC handler has found its fifo
empty. -/
def behindTheBack : List IrqStep :=
  [.arrive .sc (externalAt 1), .arrive .mc (externalAt 1), .enter,
    .readVector (liberaInterruptSCMask ||| liberaInterruptMCMask), .ilk 0, .sc, .sc,
    .arrive .sc (externalAt 2), .arrive .mc (externalAt 2), .mc, .mc, .mc, .help 0, .dd, .sa,
    .readVector liberaInterruptSCMask, .ilk 0, .sc, .sc, .mc, .help 0, .dd, .sa, .readVector 0]

theorem returns_ordered_behindTheBack : ∃ s : Interrupt,
    ((s.pc = .outside → halves .mc s.driver tTrigTrigger ≤ halves .sc s.driver tTrigTrigger) ∧
      ∀ irq t, s.LstFirst tTrigTrigger (.readVector irq) → s.step (.readVector irq) = some t →
        t.pc = .outside → t.scModule = [] ∧ t.mcModule = []) ∧
    s.pc = .outside ∧ halves .mc s.driver tTrigTrigger = 2 :=
  ⟨_, returns_ordered (exec_get_steps step (LstFirst tTrigTrigger) quietBoot behindTheBack
    (by decide +kernel)), by decide +kernel⟩

/-- There the entry of the second trigger holds no SC half of its own. -/
example : ∃ s, Steps step (LstFirst tTrigTrigger) quietBoot behindTheBack s ∧
    ∃ c ∈ s.driver.completed, c.trig = tTrigTrigger ∧
      c.slot.lstHalf.number ≠ c.slot.lmtHalf.number :=
  ⟨_, exec_get_steps _ _ _ _ (by decide +kernel), by decide +kernel⟩

/-- The MC half of the second trigger arrives in the next round of the handler. -/
theorem completed_paired_irq_nextRound : ∃ s : Interrupt,
    (∀ c ∈ s.driver.completed, c.trig = tTrigTrigger →
      c.slot.lstHalf.number = c.slot.lmtHalf.number) ∧
    s.driver.completed.map (·.trig) = [tTrigTrigger, tTrigTrigger] :=
  ⟨_, completed_paired_irq (.inl rfl) (exec_get_steps step (Apart tTrigTrigger) quietBoot
    [.arrive .sc (externalAt 1), .enter, .readVector liberaInterruptSCMask, .ilk 0, .sc,
      .arrive .mc (externalAt 1), .sc, .mc, .help 0, .dd, .sa, .readVector liberaInterruptMCMask,
      .ilk 0, .sc, .mc, .arrive .sc (externalAt 2), .mc, .help 0, .dd, .sa,
      .readVector liberaInterruptSCMask, .arrive .mc (externalAt 2), .ilk 0, .sc, .sc, .mc,
      .help 0, .dd, .sa, .readVector liberaInterruptMCMask, .ilk 0, .sc, .mc, .mc, .help 0, .dd,
      .sa, .readVector 0]
    (by decide +kernel)), by decide +kernel⟩

end Interrupt

end LiberaBase
