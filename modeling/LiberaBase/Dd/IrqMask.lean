import LiberaBase.Dd.Irq
import LiberaBase.Irq.Interrupt

/-!
# Disabling and enabling the DD interrupt

The handler acknowledges the DD interrupt by disabling it, and the holder of `dd->sem` enables it
again.  `set_irqMask` writes a mirror and then the register, and the holder may be interrupted
before, between and after.  An acquisition of post-mortem data that fails does not enable the
interrupt at all.  What saves the next reader is the token that the handler left.
-/

namespace LiberaBase

open Runs

/-- Where the holder of `dd->sem` is in `set_irqMask(get_irqMask() | LIBERA_INTERRUPT_DD_MASK)`. -/
inductive Reenable where
  | done
  /-- before `get_irqMask` -/
  | load
  /-- before the mirror is written -/
  | store (newMask : U32)
  /-- before the register is written -/
  | writel (newMask : U32)
  deriving DecidableEq

/-- The section with the mirror of the mask register and the register. -/
structure DdMask where
  dd : DdSection
  reenable : Reenable
  irqMask : U32
  register : U32

inductive MaskStep where
  /-- a step of the holder of `dd->sem`, or of a process that takes it -/
  | process (l : DdStep)
  /-- `libera_dd_handler` -/
  | interrupt (c : ℕ)
  | load
  | store
  | writel

/-- A step that is not one of the handler. -/
def DdStep.isProcess : DdStep → Bool
  | .interrupt _ => false
  | _ => true

namespace DdMask

variable {s t : DdMask} {l : MaskStep} {who : DdCaller} {c : ℕ}

/-- `libera_dd_read` enables the interrupt on its way out, `libera_acq_pm` after the transfer. -/
def afterStep (l : DdStep) (pc : DdPc) : Reenable :=
  match l, pc with
  | _, .leaving .ddRead => .load
  | .finish, .leaving .acqPm => .load
  | _, _ => .done

/-- `libera_dd_handler` -/
def liberaDdHandler (s : DdMask) (c : ℕ) : DdMask :=
  let newMask := s.irqMask &&& ~~~liberaInterruptDDMask
  { s with dd := s.dd.liberaDdHandler c, irqMask := newMask, register := newMask }

def step (s : DdMask) : MaskStep → Option DdMask
  | .process l =>
    if l.isProcess = true ∧ s.reenable = .done then
      (s.dd.step l).map fun u ↦ { s with dd := u, reenable := afterStep l u.pc }
    else none
  | .interrupt c =>
    if s.irqMask &&& liberaInterruptDDMask ≠ 0 then some (s.liberaDdHandler c) else none
  | .load =>
    match s.reenable with
    | .load => some { s with reenable := .store (s.irqMask ||| liberaInterruptDDMask) }
    | _ => none
  | .store =>
    match s.reenable with
    | .store newMask => some { s with irqMask := newMask, reenable := .writel newMask }
    | _ => none
  | .writel =>
    match s.reenable with
    | .writel newMask => some { s with register := newMask, reenable := .done }
    | _ => none

def boot (q : LiberaFifo) : DdMask := ⟨.boot q, .done, irqMaskInit, irqMaskInit⟩

/-! ## The masks -/

/-- The mask while the DD interrupt is acknowledged and not yet enabled again. -/
def acknowledged : U32 := irqMaskInit &&& ~~~liberaInterruptDDMask

/-- No interrupt but that of the DD is ever disabled. -/
def Masks (mask : U32) : Prop := mask = irqMaskInit ∨ mask = acknowledged

theorem Masks.disable {mask : U32} (h : Masks mask) :
    mask &&& ~~~liberaInterruptDDMask = acknowledged := by
  rcases h with rfl | rfl <;> decide

theorem Masks.enable {mask : U32} (h : Masks mask) :
    mask ||| liberaInterruptDDMask = irqMaskInit := by
  rcases h with rfl | rfl <;> decide

/-! ## The tokens -/

theorem putToken_not_empty {q : LiberaFifo} {xs : List Stamp} (h : q.Represents trigLog xs)
    (x : Stamp) : ∃ ys, ((putToFIFO q x).getD q).Represents trigLog ys ∧ ys ≠ [] := by
  rcases lt_or_ge (xs.length : ℤ) (trigLog - 1) with hroom | hfull
  · obtain ⟨q', hpush, hq', -⟩ := h.push_some (x := x) hroom
    rw [show putToFIFO q x = some q' from hpush]
    exact ⟨xs ++ [x], hq', by simp⟩
  · have hlt := h.length_lt
    rw [show putToFIFO q x = none from h.push_full (by omega)]
    refine ⟨xs, h, ?_⟩
    rintro rfl
    exact absurd hfull (by decide)

/-- The holder leaves the tokens alone, takes one, or is done with the transfer. -/
theorem section_cases {s t : DdSection} {l : DdStep} (hl : l.isProcess = true)
    (h : s.step l = some t) :
    (t.irqevents = s.irqevents ∧ (∀ who c, s.pc ≠ .transfer who c) ∧
      ∀ who c, t.pc = .taking who c → emptyFIFO s.irqevents = false) ∨
    (∃ who c, s.pc = .taking who c ∧ l = .take) ∨
    ∃ who c, s.pc = .transfer who c ∧ l = .finish ∧ t = { s with pc := .leaving who } := by
  cases l with
  | interrupt c => cases hl
  | take =>
      cases hpc : s.pc <;> simp only [DdSection.step, hpc, reduceCtorEq] at h
      exact .inr (.inl ⟨_, _, rfl, rfl⟩)
  | finish =>
      cases hpc : s.pc <;> simp only [DdSection.step, hpc, reduceCtorEq] at h
      exact .inr (.inr ⟨_, _, rfl, rfl, (Option.some.inj h).symm⟩)
  | lock _ | fail | command | unlock =>
      cases hpc : s.pc <;> simp only [DdSection.step, hpc, reduceCtorEq] at h
      obtain rfl := Option.some.inj h
      exact .inl ⟨rfl, by rintro _ _ ⟨⟩, by rintro _ _ ⟨⟩⟩
  | enter signal =>
      cases hpc : s.pc <;> simp only [DdSection.step, hpc, reduceCtorEq] at h
      split_ifs at h with hsignal hempty
      all_goals obtain rfl := Option.some.inj h
      · exact .inl ⟨rfl, by rintro _ _ ⟨⟩, by rintro _ _ ⟨⟩⟩
      · exact .inl ⟨rfl, by rintro _ _ ⟨⟩, by rintro _ _ ⟨⟩⟩
      · exact .inl ⟨rfl, by rintro _ _ ⟨⟩, fun _ _ _ ↦ by simpa using hempty⟩
  | look signal =>
      cases hpc : s.pc <;> simp only [DdSection.step, hpc, reduceCtorEq] at h
      split_ifs at h with hempty hsignal
      all_goals obtain rfl := Option.some.inj h
      · exact .inl ⟨rfl, by rintro _ _ ⟨⟩, fun _ _ _ ↦ hempty⟩
      · exact .inl ⟨rfl, by rintro _ _ ⟨⟩, by rintro _ _ ⟨⟩⟩
      · exact .inl ⟨rfl, by rintro _ _ ⟨⟩, fun _ _ htaking ↦ by simp [hpc] at htaking⟩

/-- A token that was seen is taken. -/
theorem take_transfer {s t : DdSection} {xs : List Stamp} (hpc : s.pc = .taking who c)
    (hxs : s.irqevents.Represents trigLog xs) (hne : emptyFIFO s.irqevents = false)
    (h : s.step .take = some t) :
    t.pc = .transfer who c ∧ ∃ ys, t.irqevents.Represents trigLog ys := by
  cases xs with
  | nil => exact absurd (hxs.isEmpty_iff.mpr rfl) (Bool.eq_false_iff.mp hne)
  | cons x xs =>
      obtain ⟨q, hpop, hq, -⟩ := hxs.pop_cons
      simp only [DdSection.step, hpc, show getFromFIFO s.irqevents = _ from hpop] at h
      obtain rfl := Option.some.inj h
      exact ⟨rfl, xs, hq⟩

theorem afterStep_cases (l : DdStep) (pc : DdPc) :
    afterStep l pc = .done ∨ afterStep l pc = .load ∧ ∃ who, pc = .leaving who := by
  unfold afterStep
  split
  · exact .inr ⟨rfl, _, rfl⟩
  · exact .inr ⟨rfl, _, rfl⟩
  · exact .inl rfl

/-! ## The invariant -/

/-- The interrupt is acknowledged only while a token is queued, or while the holder of `dd->sem`
that took it has not enabled the interrupt again. -/
structure Inv (s : DdMask) : Prop where
  tokens : ∃ xs, s.dd.irqevents.Represents trigLog xs
  mirror : Masks s.irqMask
  register : Masks s.register
  newMask : ∀ m, s.reenable = .store m ∨ s.reenable = .writel m → m = irqMaskInit
  behind : s.register ≠ irqMaskInit → s.irqMask ≠ irqMaskInit ∨ ∃ m, s.reenable = .writel m
  awake : s.irqMask ≠ irqMaskInit → emptyFIFO s.dd.irqevents = false ∨
    (∃ who c, s.dd.pc = .transfer who c) ∨ s.reenable = .load ∨ ∃ m, s.reenable = .store m
  leaving : s.reenable ≠ .done → ∃ who, s.dd.pc = .leaving who
  taking : ∀ who c, s.dd.pc = .taking who c → emptyFIFO s.dd.irqevents = false

theorem Inv.interrupt (h : s.Inv) (c : ℕ) : (s.liberaDdHandler c).Inv := by
  obtain ⟨xs, hxs⟩ := h.tokens
  obtain ⟨ys, hys, hne⟩ := putToken_not_empty hxs ⟨0, c⟩
  have hempty : emptyFIFO (s.liberaDdHandler c).dd.irqevents = false :=
    Bool.eq_false_iff.mpr fun hempty ↦ hne (hys.isEmpty_iff.mp hempty)
  have hmask : (s.liberaDdHandler c).irqMask = acknowledged := h.mirror.disable
  have hregister : (s.liberaDdHandler c).register = acknowledged := h.mirror.disable
  exact ⟨⟨ys, hys⟩, .inr hmask, .inr hregister, h.newMask,
    fun _ ↦ .inl (by rw [hmask]; decide), fun _ ↦ .inl hempty, h.leaving, fun _ _ _ ↦ hempty⟩

theorem Inv.step (h : s.Inv) (hstep : s.step l = some t) : t.Inv := by
  cases l with
  | interrupt c =>
      simp only [DdMask.step] at hstep
      split_ifs at hstep
      exact Option.some.inj hstep ▸ h.interrupt c
  | load =>
      cases hr : s.reenable <;> simp only [DdMask.step, hr, reduceCtorEq] at hstep
      obtain rfl := Option.some.inj hstep
      have hleaving := h.leaving (by simp [hr])
      refine ⟨h.tokens, h.mirror, h.register, ?_, fun hne ↦ ?_, fun _ ↦ .inr (.inr (.inr ⟨_, rfl⟩)),
        fun _ ↦ hleaving, h.taking⟩
      · rintro m (heq | heq)
        · rw [← Reenable.store.inj heq]
          exact h.mirror.enable
        · cases heq
      · rcases h.behind hne with hmirror | ⟨m, hm⟩
        · exact .inl hmirror
        · rw [hr] at hm
          cases hm
  | store =>
      cases hr : s.reenable <;> simp only [DdMask.step, hr, reduceCtorEq] at hstep
      obtain rfl := Option.some.inj hstep
      have hnew := h.newMask _ (.inl hr)
      have hleaving := h.leaving (by simp [hr])
      refine ⟨h.tokens, .inl hnew, h.register, ?_, fun _ ↦ .inr ⟨_, rfl⟩, fun hne ↦ absurd hnew hne,
        fun _ ↦ hleaving, h.taking⟩
      rintro m (heq | heq)
      · cases heq
      · rw [← Reenable.writel.inj heq]
        exact hnew
  | writel =>
      cases hr : s.reenable <;> simp only [DdMask.step, hr, reduceCtorEq] at hstep
      obtain rfl := Option.some.inj hstep
      have hnew := h.newMask _ (.inr hr)
      refine ⟨h.tokens, h.mirror, .inl hnew, ?_, fun hne ↦ absurd hnew hne, fun hne ↦ ?_,
        fun hne ↦ absurd rfl hne, h.taking⟩
      · rintro m (heq | heq) <;> cases heq
      · rcases h.awake hne with hempty | htransfer | hload | ⟨m, hm⟩
        · exact .inl hempty
        · exact .inr (.inl htransfer)
        · rw [hr] at hload
          cases hload
        · rw [hr] at hm
          cases hm
  | process l =>
      simp only [DdMask.step] at hstep
      split_ifs at hstep with hprocess
      obtain ⟨u, hu, rfl⟩ := Option.map_eq_some_iff.mp hstep
      have hdone {m : U32} : ¬(afterStep l u.pc = .store m ∨ afterStep l u.pc = .writel m) := by
        rcases afterStep_cases l u.pc with heq | ⟨heq, -⟩ <;> simp [heq]
      have hleaving (hne : afterStep l u.pc ≠ .done) : ∃ who, u.pc = .leaving who :=
        (afterStep_cases l u.pc).elim (absurd · hne) And.right
      have hbehind (hne : s.register ≠ irqMaskInit) : s.irqMask ≠ irqMaskInit := by
        rcases h.behind hne with hmirror | ⟨m, hm⟩
        · exact hmirror
        · rw [hprocess.2] at hm
          cases hm
      have hawake (hne : s.irqMask ≠ irqMaskInit) :
          emptyFIFO s.dd.irqevents = false ∨ ∃ who c, s.dd.pc = .transfer who c := by
        rcases h.awake hne with hempty | htransfer | hload | ⟨m, hm⟩
        · exact .inl hempty
        · exact .inr htransfer
        · rw [hprocess.2] at hload
          cases hload
        · rw [hprocess.2] at hm
          cases hm
      obtain ⟨xs, hxs⟩ := h.tokens
      refine ⟨?_, h.mirror, h.register, fun m hm ↦ absurd hm hdone, fun hne ↦ .inl (hbehind hne),
        fun hne ↦ ?_, hleaving, fun who c htaking ↦ ?_⟩
      all_goals rcases section_cases hprocess.1 hu with ⟨hsame, hnot, htakes⟩ |
        ⟨who', c', hpc, rfl⟩ | ⟨who', c', hpc, rfl, rfl⟩
      -- the tokens are those of a queue
      · exact ⟨xs, hsame ▸ hxs⟩
      · exact (take_transfer hpc hxs (h.taking who' c' hpc) hu).2
      · exact ⟨xs, hxs⟩
      -- the interrupt is not left disabled
      · rcases hawake hne with hempty | ⟨who', c', htransfer⟩
        · exact .inl (hsame ▸ hempty)
        · exact absurd htransfer (hnot who' c')
      · exact .inr (.inl ⟨who', c', (take_transfer hpc hxs (h.taking who' c' hpc) hu).1⟩)
      · refine .inr (.inr (.inl ?_))
        cases who' <;> rfl
      -- a token that was seen is there
      · exact hsame ▸ htakes who c htaking
      · rw [(take_transfer hpc hxs (h.taking who' c' hpc) hu).1] at htaking
        cases htaking
      · cases htaking

theorem Inv.boot (q : LiberaFifo) : (boot q).Inv where
  tokens := ⟨[], .flush (by decide) q⟩
  mirror := .inl rfl
  register := .inl rfl
  newMask := by rintro m (heq | heq) <;> cases heq
  behind := fun hne ↦ absurd rfl hne
  awake := fun hne ↦ absurd rfl hne
  leaving := fun hne ↦ absurd rfl hne
  taking := nofun

/-- **The DD interrupt is not left disabled.**  Whatever fails and whenever the interrupts come, as
long as no token is queued and none is being used, the mirror and the register enable every
interrupt; and neither of them ever disables another interrupt than that of the DD. -/
theorem enabled_without_token {q : LiberaFifo} {ls : List MaskStep}
    (hrun : Steps step anyStep (boot q) ls s) :
    (s.irqMask ||| liberaInterruptDDMask = irqMaskInit ∧
        s.register ||| liberaInterruptDDMask = irqMaskInit) ∧
      (emptyFIFO s.dd.irqevents = true → (∀ who c, s.dd.pc ≠ .transfer who c) →
        s.reenable = .done → s.irqMask = irqMaskInit ∧ s.register = irqMaskInit) := by
  have h : s.Inv := hrun.invariant (fun _ _ _ h _ hstep ↦ h.step hstep) (.boot q)
  refine ⟨⟨h.mirror.enable, h.register.enable⟩, fun hempty htransfer hdone ↦ ?_⟩
  have hmirror : s.irqMask = irqMaskInit := by
    by_contra hne
    rcases h.awake hne with hempty' | ⟨who, c, hpc⟩ | hload | ⟨m, hm⟩
    · exact absurd hempty (Bool.eq_false_iff.mp hempty')
    · exact htransfer who c hpc
    · simp [hdone] at hload
    · simp [hdone] at hm
  refine ⟨hmirror, ?_⟩
  by_contra hne
  rcases h.behind hne with hne' | ⟨m, hm⟩
  · exact hne' hmirror
  · simp [hdone] at hm

/-- A read is interrupted by a signal; an acquisition takes its token, and the token of its own
comes while it enables the interrupt. -/
theorem enabled_without_token_stale : ∃ s : DdMask,
    ((s.irqMask ||| liberaInterruptDDMask = irqMaskInit ∧
        s.register ||| liberaInterruptDDMask = irqMaskInit) ∧
      (emptyFIFO s.dd.irqevents = true → (∀ who c, s.dd.pc ≠ .transfer who c) →
        s.reenable = .done → s.irqMask = irqMaskInit ∧ s.register = irqMaskInit)) ∧
    emptyFIFO s.dd.irqevents = true ∧ s.dd.pc = .unlocked ∧ s.dd.handled = [0, 1] :=
  ⟨_, enabled_without_token (exec_get_steps step anyStep (boot ⟨fun _ ↦ ⟨0, 0⟩, 3, 9⟩)
    [.process (.lock .ddRead), .process .command, .process (.enter false), .process (.look true),
      .load, .store, .writel, .process .unlock, .process (.lock .acqPm), .process .command,
      .process (.enter false), .interrupt 0, .process (.look false), .process .take,
      .process .finish, .load, .store, .interrupt 1, .writel, .process .unlock,
      .process (.lock .ddRead), .process .command, .process (.enter false), .process .take,
      .process .finish, .load, .store, .writel, .process .unlock] (by decide +kernel)),
    by decide +kernel⟩

/-- An interrupt between the two stores: the register enables what the mirror does not. -/
example : ∃ s : DdMask, Steps step anyStep (boot ⟨fun _ ↦ ⟨0, 0⟩, 3, 9⟩)
    [.process (.lock .ddRead), .process .fail, .load, .store, .interrupt 0, .writel] s ∧
    s.register = irqMaskInit ∧ s.irqMask = acknowledged :=
  ⟨_, exec_get_steps _ _ _ _ (by decide +kernel), by decide +kernel⟩

end DdMask

end LiberaBase
