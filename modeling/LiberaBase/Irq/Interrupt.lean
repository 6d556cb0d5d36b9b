import LiberaBase.Timing.Evgen
import LiberaBase.Timing.Queue

/-!
# The interrupt handler

`libera_interrupt` reads the pending interrupts and calls the handler of each, the SC handler
before the MC handler, and starts again until none is pending.  The timing modules go on to
deliver entries while it is at work, between any two of its accesses.  Processes run only while
it does not.
-/

namespace LiberaBase

open Runs

/-! ## Interrupt numbers -/

def liberaInterruptSCMask : U32 := 1#32 <<< 1
def liberaInterruptHelpscMask : U32 := 1#32 <<< 2
def liberaInterruptMCMask : U32 := 1#32 <<< 3
def liberaInterruptHelpmcMask : U32 := 1#32 <<< 4
def liberaInterruptDDMask : U32 := 1#32 <<< 5
def liberaInterruptSAMask : U32 := 1#32 <<< 6
def liberaInterruptIlkMask : U32 := 1#32 <<< 8

/-- The interrupts that `libera_init` enables. -/
def irqMaskInit : U32 :=
  liberaInterruptSCMask ||| liberaInterruptMCMask ||| liberaInterruptHelpscMask |||
    liberaInterruptHelpmcMask ||| liberaInterruptDDMask ||| liberaInterruptSAMask |||
    liberaInterruptIlkMask

def liberaEventInterlock : U32 := 1#32 <<< 3

namespace Driver

/-- `libera_ilk_handler`: the interlock status is kept until it is reset, and sent as an event. -/
def liberaIlkHandler (s : Driver) (status : U32) : Driver :=
  (s.setParam cfgIlkstatus (s.param cfgIlkstatus ||| status)).liberaSendEvent liberaEventInterlock
    status

/-- `libera_scmchelp_handler`; the SC helper does nothing. -/
def liberaScmchelpHandler (s : Driver) (intStatus : U32) : Driver :=
  if intStatus &&& (1#32 <<< 8) ≠ 0 then s.liberaMchelpHandlerSpecific else s

end Driver

/-- A request of a process, not a handler call. -/
def Timing.isRequest : Timing → Bool
  | .sc _ => false
  | .mc _ => false
  | _ => true

/-! ## The handler and the FPGA -/

/-- Where the processor is in `libera_interrupt`; `v` is `int_vec`. -/
inductive IrqPc where
  | outside
  /-- the condition of the loop -/
  | vector
  | ilk (v : U32)
  | sc (v : U32)
  | mc (v : U32)
  | help (v : U32)
  | dd (v : U32)
  | sa (v : U32)
  deriving DecidableEq

/-- The driver and the fifos of the two timing modules of the FPGA.  `irqMask` is the mirror of the
mask register. -/
structure Interrupt where
  driver : Driver
  pc : IrqPc
  irqMask : U32
  ddIrqevents : LiberaFifo
  scModule : List FifoEntry
  mcModule : List FifoEntry

inductive IrqStep where
  /-- a timing module delivers an entry -/
  | arrive (c : Clock) (e : FifoEntry)
  | enter
  /-- `SBC_IRQ` reads `irq` -/
  | readVector (irq : U32)
  /-- `ILK_STATUS` reads `status` -/
  | ilk (status : U32)
  | sc
  | mc
  /-- `SBC_IRQ2` reads `status` -/
  | help (status : U32)
  | dd
  | sa
  | request (l : Timing)
  /-- the DD section enables the DD interrupt again -/
  | enableDD

/-- The step of the handler of a clock. -/
def IrqStep.round : Clock → IrqStep
  | .sc => .sc
  | .mc => .mc

namespace Interrupt

def deliver (s : Interrupt) (c : Clock) (e : FifoEntry) : Interrupt :=
  match c with
  | .sc => { s with scModule := s.scModule ++ [e] }
  | .mc => { s with mcModule := s.mcModule ++ [e] }

/-- `libera_dd_handler` -/
def liberaDdHandler (s : Interrupt) : Interrupt :=
  let mask := s.irqMask &&& ~~~liberaInterruptDDMask
  { s with
    driver := s.driver.writel mask sbcIrqMask
    irqMask := mask
    ddIrqevents := (putToFIFO s.ddIrqevents ⟨0, 0⟩).getD s.ddIrqevents }

/-- A round of the loop of `libera_sc_handler`, or its end when the fifo reads empty. -/
def scRound (s : Interrupt) (v : U32) : Option Interrupt :=
  match s.scModule with
  | [] => some { s with pc := .mc v }
  | e :: es => (s.driver.scEntry e).map fun d ↦ { s with driver := d, scModule := es }

/-- A round of the loop of `libera_mc_handler`, or its end when the fifo reads empty. -/
def mcRound (s : Interrupt) (v : U32) : Option Interrupt :=
  match s.mcModule with
  | [] => some { s with pc := .help v }
  | e :: es => (s.driver.mcEntry e).map fun d ↦ { s with driver := d, mcModule := es }

def step (s : Interrupt) : IrqStep → Option Interrupt
  | .arrive c e => if tFifoSize e.tl ≠ 0 then some (s.deliver c e) else none
  | .enter => if s.pc = .outside then some { s with pc := .vector } else none
  | .readVector irq =>
    if s.pc = .vector then
      let v := irq &&& s.irqMask
      some { s with pc := if v = 0 then .outside else .ilk v }
    else none
  | .ilk status =>
    match s.pc with
    | .ilk v =>
      let driver := if v &&& liberaInterruptIlkMask ≠ 0 then s.driver.liberaIlkHandler status
        else s.driver
      some { s with driver := driver, pc := .sc v }
    | _ => none
  | .sc =>
    match s.pc with
    | .sc v => if v &&& liberaInterruptSCMask ≠ 0 then s.scRound v else some { s with pc := .mc v }
    | _ => none
  | .mc =>
    match s.pc with
    | .mc v =>
      if v &&& liberaInterruptMCMask ≠ 0 then s.mcRound v else some { s with pc := .help v }
    | _ => none
  | .help status =>
    match s.pc with
    | .help v =>
      let driver := if v &&& (liberaInterruptHelpscMask ||| liberaInterruptHelpmcMask) ≠ 0 then
        s.driver.liberaScmchelpHandler status else s.driver
      some { s with driver := driver, pc := .dd v }
    | _ => none
  | .dd =>
    match s.pc with
    | .dd v =>
      let s₁ := if v &&& liberaInterruptDDMask ≠ 0 then s.liberaDdHandler else s
      some { s₁ with pc := .sa v }
    | _ => none
  -- the SA handler works on the SA device alone
  | .sa =>
    match s.pc with
    | .sa _ => some { s with pc := .vector }
    | _ => none
  | .request l =>
    if s.pc = .outside ∧ l.isRequest = true then
      (s.driver.step l).map fun d ↦ { s with driver := d }
    else none
  | .enableDD =>
    if s.pc = .outside then
      let mask := s.irqMask ||| liberaInterruptDDMask
      some { s with driver := s.driver.writel mask sbcIrqMask, irqMask := mask }
    else none

/-- After `libera_init`. -/
def boot (param : ℕ → U32) (lgbl : Global) (params : ModuleParams) : Interrupt where
  driver := .boot param lgbl params
  pc := .outside
  irqMask := irqMaskInit
  ddIrqevents := ⟨fun _ ↦ ⟨0, 0⟩, 0, 0⟩
  scModule := []
  mcModule := []

end Interrupt

/-! ## What an entry and a request count -/

namespace Driver

variable {s t : Driver} {c c' : Clock} {e : FifoEntry} {i : ℕ}

/-- The halves handled of each trigger line. -/
def halves (c : Clock) (s : Driver) : ℕ → ℕ :=
  match c with
  | .sc => s.event.scHalves
  | .mc => s.event.mcHalves

theorem entry_halves (h : entry c s e = some t) :
    halves c t i = halves c s i + if i ∈ trigBits e.tl then 1 else 0 := by
  cases c with
  | sc =>
      obtain rfl := Option.some.inj ((scEntry_eq s e).symm.trans h)
      obtain ⟨time, hinc⟩ := s.scSelfInc_eq e.tl
      rw [foldl_once (f := fun u ↦ halves .sc u i) (g := (· + 1)) (i := i) (fun u ↦ ?_)
        (fun u j hj ↦ ?_) (nodup_trigBits e.tl), hinc]
      · split_ifs <;> rfl
      · simp [halves]
      · simp [halves, Function.update_of_ne hj.symm]
  | mc =>
      obtain rfl := Option.some.inj ((mcEntry_eq s e).symm.trans h)
      obtain ⟨time, writes, hinc⟩ := s.mcSelfInc_eq e.tl
      rw [foldl_once (f := fun u ↦ halves .mc u i) (g := (· + 1)) (i := i) (fun u ↦ ?_)
        (fun u j hj ↦ ?_) (nodup_trigBits e.tl), hinc]
      · split_ifs <;> rfl
      · simp [halves]
      · simp [halves, Function.update_of_ne hj.symm]

theorem entry_other_halves (h : entry c s e = some t) (hne : c' ≠ c) :
    halves c' t = halves c' s := by
  cases c with
  | sc =>
      obtain rfl : c' = .mc := by cases c' <;> simp_all
      obtain rfl := Option.some.inj ((scEntry_eq s e).symm.trans h)
      obtain ⟨time, hinc⟩ := s.scSelfInc_eq e.tl
      rw [foldl_field (f := halves .mc) fun u j ↦ by simp [halves], hinc]
      rfl
  | mc =>
      obtain rfl : c' = .sc := by cases c' <;> simp_all
      obtain rfl := Option.some.inj ((mcEntry_eq s e).symm.trans h)
      obtain ⟨time, writes, hinc⟩ := s.mcSelfInc_eq e.tl
      rw [foldl_field (f := halves .sc) fun u j ↦ by simp [halves], hinc]
      rfl

theorem request_halves {r : Timing} (hr : r.isRequest = true) (h : s.step r = some t) :
    halves c t = halves c s := by
  rcases step_cases h with ⟨es, rfl, -⟩ | ⟨es, rfl, -⟩ | ⟨_, _, _, _, _, _, rfl⟩ |
    ⟨readl, req, -, _, _, _, rfl⟩
  · cases hr
  · cases hr
  · cases c <;> rfl
  · cases c <;> rfl

theorem Requested.halves {frozen : Bool} (h : Requested s t frozen) :
    Driver.halves c t = Driver.halves c s := by
  obtain ⟨_, _, _, rfl⟩ := h
  cases c <;> rfl

theorem requested_liberaIlkHandler (s : Driver) (status : U32) :
    Requested s (s.liberaIlkHandler status) s.cfg.pmFreezed :=
  (onlyParams_setParam s _ _).requested.send _ _

theorem requested_liberaScmchelpHandler (s : Driver) (intStatus : U32) :
    Requested s (s.liberaScmchelpHandler intStatus) s.cfg.pmFreezed := by
  have hrefl := (OnlyParams.refl s).requested
  unfold liberaScmchelpHandler liberaMchelpHandlerSpecific
  extract_lets mcTime head offset26
  split_ifs
  · exact ⟨_, _, _, rfl⟩
  · exact hrefl
  · exact hrefl
  · exact hrefl

end Driver

namespace Interrupt

open Driver

variable {s t : Interrupt} {c c' : Clock} {e : FifoEntry} {l : IrqStep} {i : ℕ} {v : U32}

/-- What the timing module of a clock has delivered and the handler not read. -/
def entries (c : Clock) (s : Interrupt) : List FifoEntry :=
  match c with
  | .sc => s.scModule
  | .mc => s.mcModule

/-- The handler of a clock is at work, and the interrupt of the clock is pending. -/
def AtRound (s : Interrupt) : Clock → Prop
  | .sc => ∃ v, s.pc = .sc v ∧ v &&& liberaInterruptSCMask ≠ 0
  | .mc => ∃ v, s.pc = .mc v ∧ v &&& liberaInterruptMCMask ≠ 0

/-- The entry at the head of the fifo is handled. -/
structure Handled (c : Clock) (s t : Interrupt) (e : FifoEntry) : Prop where
  round : s.AtRound c
  entries : s.entries c = e :: t.entries c
  others : ∀ c' ≠ c, t.entries c' = s.entries c'
  driver : entry c s.driver e = some t.driver
  pc : t.pc = s.pc
  irqMask : t.irqMask = s.irqMask

/-- A step that handles no entry: the rings, the fifos and the times are left alone. -/
structure Turned (s t : Interrupt) : Prop where
  entries : ∀ c, t.entries c = s.entries c
  driver : Requested s.driver t.driver s.driver.cfg.pmFreezed
  scEnabled : t.irqMask &&& liberaInterruptSCMask = s.irqMask &&& liberaInterruptSCMask
  mcEnabled : t.irqMask &&& liberaInterruptMCMask = s.irqMask &&& liberaInterruptMCMask

@[simp] theorem entries_deliver_self (s : Interrupt) (c : Clock) (e : FifoEntry) :
    (s.deliver c e).entries c = s.entries c ++ [e] := by
  cases c <;> rfl

theorem entries_deliver_of_ne (s : Interrupt) (e : FifoEntry) (hne : c' ≠ c) :
    (s.deliver c e).entries c' = s.entries c' := by
  cases c <;> cases c' <;> first | rfl | exact absurd rfl hne

@[simp] theorem deliver_driver (s : Interrupt) (c : Clock) (e : FifoEntry) :
    (s.deliver c e).driver = s.driver := by
  cases c <;> rfl

@[simp] theorem deliver_pc (s : Interrupt) (c : Clock) (e : FifoEntry) :
    (s.deliver c e).pc = s.pc := by
  cases c <;> rfl

@[simp] theorem deliver_irqMask (s : Interrupt) (c : Clock) (e : FifoEntry) :
    (s.deliver c e).irqMask = s.irqMask := by
  cases c <;> rfl

theorem Turned.of_eq (hmodules : ∀ c, t.entries c = s.entries c) (hdriver : t.driver = s.driver)
    (hmask : t.irqMask = s.irqMask) : Turned s t :=
  ⟨hmodules, hdriver ▸ (OnlyParams.refl s.driver).requested, by rw [hmask], by rw [hmask]⟩

theorem turned_liberaDdHandler (s : Interrupt) : Turned s s.liberaDdHandler where
  entries := fun c ↦ by cases c <;> rfl
  driver := ((OnlyParams.refl s.driver).writel _ _).requested
  scEnabled := by
    change s.irqMask &&& ~~~liberaInterruptDDMask &&& _ = _
    rw [BitVec.and_assoc]
    rfl
  mcEnabled := by
    change s.irqMask &&& ~~~liberaInterruptDDMask &&& _ = _
    rw [BitVec.and_assoc]
    rfl

/-- An entry arrives, an entry is handled, a process makes a request, or the handler turns to
something else. -/
theorem step_cases (h : s.step l = some t) :
    (∃ c e, l = .arrive c e ∧ t = s.deliver c e) ∨ (∃ c e, l = .round c ∧ Handled c s t e) ∨
    (∃ r d, l = .request r ∧ r.isRequest = true ∧ s.pc = .outside ∧ s.driver.step r = some d ∧
      t = { s with driver := d }) ∨ Turned s t := by
  have hturn {pc : IrqPc} : Turned s { s with pc := pc } :=
    .of_eq (fun c ↦ by cases c <;> rfl) rfl rfl
  cases l with
  | arrive c e =>
      simp only [step] at h
      split_ifs at h
      exact .inl ⟨c, e, rfl, (Option.some.inj h).symm⟩
  | enter | readVector irq =>
      simp only [step] at h
      split_ifs at h
      all_goals exact .inr (.inr (.inr (Option.some.inj h ▸ hturn)))
  | ilk status =>
      cases hpc : s.pc <;> simp only [step, hpc, reduceCtorEq] at h
      obtain rfl := Option.some.inj h
      refine .inr (.inr (.inr ⟨fun c ↦ by cases c <;> rfl, ?_, rfl, rfl⟩))
      change Requested s.driver (ite _ _ _) _
      split_ifs
      · exact requested_liberaIlkHandler s.driver status
      · exact (OnlyParams.refl s.driver).requested
  | sc =>
      cases hpc : s.pc <;> simp only [step, hpc, reduceCtorEq, scRound] at h
      split_ifs at h with henabled
      · split at h
        · exact .inr (.inr (.inr (Option.some.inj h ▸ hturn)))
        · next e es hmodule =>
            obtain ⟨d, hd, rfl⟩ := Option.map_eq_some_iff.mp h
            refine .inr (.inl ⟨.sc, e, rfl, ⟨_, hpc, henabled⟩, hmodule, fun c' hne ↦ ?_, hd,
              hpc.symm, rfl⟩)
            cases c' <;> first | rfl | exact absurd rfl hne
      · exact .inr (.inr (.inr (Option.some.inj h ▸ hturn)))
  | mc =>
      cases hpc : s.pc <;> simp only [step, hpc, reduceCtorEq, mcRound] at h
      split_ifs at h with henabled
      · split at h
        · exact .inr (.inr (.inr (Option.some.inj h ▸ hturn)))
        · next e es hmodule =>
            obtain ⟨d, hd, rfl⟩ := Option.map_eq_some_iff.mp h
            refine .inr (.inl ⟨.mc, e, rfl, ⟨_, hpc, henabled⟩, hmodule, fun c' hne ↦ ?_, hd,
              hpc.symm, rfl⟩)
            cases c' <;> first | rfl | exact absurd rfl hne
      · exact .inr (.inr (.inr (Option.some.inj h ▸ hturn)))
  | help status =>
      cases hpc : s.pc <;> simp only [step, hpc, reduceCtorEq] at h
      obtain rfl := Option.some.inj h
      refine .inr (.inr (.inr ⟨fun c ↦ by cases c <;> rfl, ?_, rfl, rfl⟩))
      change Requested s.driver (ite _ _ _) _
      split_ifs
      · exact requested_liberaScmchelpHandler s.driver status
      · exact (OnlyParams.refl s.driver).requested
  | dd =>
      cases hpc : s.pc <;> simp only [step, hpc, reduceCtorEq] at h
      obtain rfl := Option.some.inj h
      split_ifs
      · obtain ⟨hentries, hdriver, hsc, hmc⟩ := s.turned_liberaDdHandler
        exact .inr (.inr (.inr ⟨hentries, hdriver, hsc, hmc⟩))
      · exact .inr (.inr (.inr hturn))
  | sa =>
      cases hpc : s.pc <;> simp only [step, hpc, reduceCtorEq] at h
      exact .inr (.inr (.inr (Option.some.inj h ▸ hturn)))
  | request r =>
      simp only [step] at h
      split_ifs at h with hrequest
      obtain ⟨d, hd, rfl⟩ := Option.map_eq_some_iff.mp h
      exact .inr (.inr (.inl ⟨r, d, rfl, hrequest.2, hrequest.1, hd, rfl⟩))
  | enableDD =>
      simp only [step] at h
      split_ifs at h
      obtain rfl := Option.some.inj h
      refine .inr (.inr (.inr ⟨fun c ↦ by cases c <;> rfl,
        ((OnlyParams.refl s.driver).writel _ _).requested, ?_, ?_⟩))
      · change (s.irqMask ||| liberaInterruptDDMask) &&& _ = _
        rw [BitVec.and_or_distrib_right]
        simp [liberaInterruptDDMask, liberaInterruptSCMask]
      · change (s.irqMask ||| liberaInterruptDDMask) &&& _ = _
        rw [BitVec.and_or_distrib_right]
        simp [liberaInterruptDDMask, liberaInterruptMCMask]

end Interrupt

end LiberaBase
