import LiberaBase.Lib.Runs
import LiberaBase.Timing.Device

/-!
# Waiting for the DD interrupt

A read of the dd device and an acquisition of post-mortem data write a command to the CB fifo,
take a token out of `dd_irqevents` and transfer.  The handler of the DD interrupt puts a token
for every command, at any time after the command.  Nothing but the count of the tokens relates
them to the commands.
-/

namespace LiberaBase

open Runs

/-- The two functions that hold `dd->sem` while they wait. -/
inductive DdCaller where
  | ddRead
  | acqPm
  deriving DecidableEq

/-- How far the holder of `dd->sem` has come; the commands are numbered. -/
inductive DdPc where
  | unlocked
  | locked (who : DdCaller)
  /-- `getBlockedFromFIFO` is called -/
  | written (who : DdCaller) (c : ℕ)
  /-- in the loop of `getBlockedFromFIFO` -/
  | waiting (who : DdCaller) (c : ℕ)
  /-- the fifo was found not to be empty -/
  | taking (who : DdCaller) (c : ℕ)
  | transfer (who : DdCaller) (c : ℕ)
  | leaving (who : DdCaller)
  deriving DecidableEq

/-- The holder of `dd->sem` and the fifo of the tokens; a token carries the number of the command
whose interrupt put it.  `handled` are the commands whose interrupt was handled, `abandoned` those
whose wait was left with an error. -/
structure DdSection where
  pc : DdPc
  irqevents : LiberaFifo
  written : ℕ
  handled : List ℕ
  abandoned : List ℕ

inductive DdStep where
  /-- `dd->sem` is taken -/
  | lock (who : DdCaller)
  /-- an error before the command, or `libera_dd_write_CBfifo` refuses it -/
  | fail
  /-- `libera_dd_write_CBfifo` writes the command -/
  | command
  /-- `event->sem` is taken, or a signal comes instead -/
  | enter (signal : Bool)
  /-- a turn of the loop -/
  | look (signal : Bool)
  /-- `getFromFIFO` -/
  | take
  /-- the transfer is over -/
  | finish
  | unlock
  /-- `libera_dd_handler` for a command -/
  | interrupt (c : ℕ)

namespace DdSection

variable {s s' : DdSection} {who : DdCaller} {c : ℕ}

def boot (q : LiberaFifo) : DdSection := ⟨.unlocked, flushFIFO q, 0, [], []⟩

/-- `getBlockedFromFIFO` returns an error; both callers leave. -/
def abandon (s : DdSection) (who : DdCaller) (c : ℕ) : DdSection :=
  { s with pc := .leaving who, abandoned := s.abandoned ++ [c] }

/-- `libera_dd_handler`; a token that finds the fifo full is lost. -/
def liberaDdHandler (s : DdSection) (c : ℕ) : DdSection :=
  { s with
    irqevents := (putToFIFO s.irqevents ⟨0, c⟩).getD s.irqevents
    handled := s.handled ++ [c] }

def step (s : DdSection) : DdStep → Option DdSection
  | .lock who =>
    match s.pc with
    | .unlocked => some { s with pc := .locked who }
    | _ => none
  | .fail =>
    match s.pc with
    | .locked who => some { s with pc := .leaving who }
    | _ => none
  | .command =>
    match s.pc with
    | .locked who => some { s with pc := .written who s.written, written := s.written + 1 }
    | _ => none
  | .enter signal =>
    match s.pc with
    | .written who c =>
      if signal then some (s.abandon who c)
      else if emptyFIFO s.irqevents then some { s with pc := .waiting who c }
      else some { s with pc := .taking who c }
    | _ => none
  | .look signal =>
    match s.pc with
    | .waiting who c =>
      if emptyFIFO s.irqevents = false then some { s with pc := .taking who c }
      else if signal then some (s.abandon who c)
      else some s
    | _ => none
  | .take =>
    match s.pc with
    | .taking who c =>
      match getFromFIFO s.irqevents with
      | none => some (s.abandon who c)
      | some (q, _) => some { s with pc := .transfer who c, irqevents := q }
    | _ => none
  | .finish =>
    match s.pc with
    | .transfer who _ => some { s with pc := .leaving who }
    | _ => none
  | .unlock =>
    match s.pc with
    | .leaving _ => some { s with pc := .unlocked }
    | _ => none
  | .interrupt c =>
    if c < s.written ∧ c ∉ s.handled then some (s.liberaDdHandler c) else none

/-- No command is written after one whose wait was left with an error. -/
def Patient (s : DdSection) : DdStep → Prop
  | .command => s.abandoned = []
  | _ => True

/-- A transfer follows the interrupt of its own command, and a command finds no token. -/
structure OwnInterrupt (s : DdSection) : Prop where
  transfer : ∀ who c, s.pc = .transfer who c → c ∈ s.handled
  command : ∀ s', s.Patient .command → s.step .command = some s' →
    s.irqevents.contents trigLog = []

/-! ## What is outstanding -/

/-- Every interrupt was handled, and every token taken. -/
structure Settled (s : DdSection) : Prop where
  handled : ∀ i, i ∈ s.handled ↔ i < s.written
  tokens : s.irqevents.Represents trigLog []

/-- The command written last is the only one whose interrupt may be to come or whose token may
not be taken. -/
structure Outstanding (s : DdSection) (c : ℕ) : Prop where
  patient : s.abandoned = []
  last : s.written = c + 1
  known : ∀ i ∈ s.handled, i < s.written
  earlier : ∀ i < c, i ∈ s.handled
  tokens : s.irqevents.Represents trigLog (if c ∈ s.handled then [⟨0, c⟩] else [])

/-- What holds at each step of the holder of `dd->sem`. -/
def Inv (s : DdSection) : Prop :=
  match s.pc with
  | .unlocked => s.abandoned = [] → s.Settled
  | .locked _ => s.abandoned = [] → s.Settled
  | .written _ c => s.Outstanding c
  | .waiting _ c => s.Outstanding c
  | .taking _ c => s.Outstanding c ∧ c ∈ s.handled
  | .transfer _ c => s.Settled ∧ c ∈ s.handled
  | .leaving _ => s.abandoned = [] → s.Settled

namespace Settled

theorem setPc (h : s.Settled) (pc : DdPc) : Settled { s with pc := pc } := ⟨h.handled, h.tokens⟩

theorem command (h : s.Settled) (hpatient : s.abandoned = []) (who : DdCaller) :
    Outstanding { s with pc := .written who s.written, written := s.written + 1 } s.written where
  patient := hpatient
  last := rfl
  known := fun i hi ↦ Nat.lt_succ_of_lt ((h.handled i).mp hi)
  earlier := fun i hi ↦ (h.handled i).mpr hi
  tokens := by
    have hnew : s.written ∉ s.handled := fun hmem ↦
      Nat.lt_irrefl _ ((h.handled s.written).mp hmem)
    rw [if_neg hnew]
    exact h.tokens

end Settled

namespace Outstanding

theorem setPc (h : s.Outstanding c) (pc : DdPc) : Outstanding { s with pc := pc } c :=
  ⟨h.patient, h.last, h.known, h.earlier, h.tokens⟩

theorem interrupt (h : s.Outstanding c) {i : ℕ} (hlt : i < s.written) (hnew : i ∉ s.handled) :
    i = c ∧ (s.liberaDdHandler i).Outstanding c := by
  have hlast := h.last
  obtain rfl : i = c := by
    by_contra hne
    exact hnew (h.earlier i (by omega))
  have htokens := h.tokens
  rw [if_neg hnew] at htokens
  obtain ⟨q, hpush, hq, -, -⟩ := htokens.push_some (x := ⟨0, i⟩) (by decide)
  have hput : putToFIFO s.irqevents ⟨0, i⟩ = some q := hpush
  have hmem : i ∈ s.handled ++ [i] := by simp
  refine ⟨rfl, h.patient, h.last, ?_, ?_, ?_⟩
  · intro j hj
    rcases List.mem_append.mp hj with hold | hi
    · exact h.known j hold
    · exact List.mem_singleton.mp hi ▸ hlt
  · intro j hj
    exact List.mem_append_left _ (h.earlier j hj)
  · have heq : (s.liberaDdHandler i).irqevents = q := by rw [liberaDdHandler, hput]; rfl
    rw [heq]
    exact (if_pos hmem).symm ▸ hq

theorem handled_of_not_empty (h : s.Outstanding c) (hne : emptyFIFO s.irqevents = false) :
    c ∈ s.handled := by
  by_contra hnew
  have htokens := h.tokens
  rw [if_neg hnew] at htokens
  rw [emptyFIFO, htokens.isEmpty_iff.mpr rfl] at hne
  cases hne

/-- The token of the command is taken, and no other is left. -/
theorem take (h : s.Outstanding c) (hmem : c ∈ s.handled) (who : DdCaller) :
    ∃ q slot, getFromFIFO s.irqevents = some (q, slot) ∧
      Settled { s with pc := .transfer who c, irqevents := q } := by
  have htokens := h.tokens
  rw [if_pos hmem] at htokens
  obtain ⟨q, hpop, hq, -, -⟩ := htokens.pop_cons
  refine ⟨q, _, hpop, fun i ↦ ⟨h.known i, fun hi ↦ ?_⟩, hq⟩
  have hlast := h.last
  rcases Nat.lt_succ_iff_lt_or_eq.mp (hlast ▸ hi) with hlt | rfl
  · exact h.earlier i hlt
  · exact hmem

end Outstanding

/-! ## The steps -/

theorem boot_inv (q : LiberaFifo) : (boot q).Inv := by
  intro _
  exact ⟨fun i ↦ by simp [boot], .flush (by decide) q⟩

/-- An interrupt finds a command outstanding, or a wait that was given up. -/
theorem interrupt_inv (h : s.Inv) (hlt : c < s.written) (hnew : c ∉ s.handled) :
    (s.liberaDdHandler c).Inv := by
  have hunsettled : ¬s.Settled := fun hs ↦ hnew ((hs.handled c).mpr hlt)
  have hpc : (s.liberaDdHandler c).pc = s.pc := rfl
  unfold Inv at h ⊢
  rw [hpc]
  cases hs : s.pc with
  | unlocked =>
      rw [hs] at h
      exact fun hpatient ↦ absurd (h hpatient) hunsettled
  | locked who =>
      rw [hs] at h
      exact fun hpatient ↦ absurd (h hpatient) hunsettled
  | written who c' =>
      rw [hs] at h
      exact (h.interrupt hlt hnew).2
  | waiting who c' =>
      rw [hs] at h
      exact (h.interrupt hlt hnew).2
  | taking who c' =>
      rw [hs] at h
      obtain ⟨rfl, -⟩ := h.1.interrupt hlt hnew
      exact absurd h.2 hnew
  | transfer who c' =>
      rw [hs] at h
      exact absurd h.1 hunsettled
  | leaving who =>
      rw [hs] at h
      exact fun hpatient ↦ absurd (h hpatient) hunsettled

theorem abandon_inv : (s.abandon who c).Inv := by
  intro hpatient
  simp [abandon] at hpatient

theorem step_inv (h : s.Inv) {l : DdStep} (hok : s.Patient l) (hstep : s.step l = some s') :
    s'.Inv := by
  cases l with
  | lock who =>
      cases hs : s.pc <;> simp only [step, hs, reduceCtorEq, Option.some.injEq] at hstep
      subst hstep
      rw [Inv, hs] at h
      exact fun hpatient ↦ (h hpatient).setPc _
  | fail =>
      cases hs : s.pc <;> simp only [step, hs, reduceCtorEq, Option.some.injEq] at hstep
      subst hstep
      rw [Inv, hs] at h
      exact fun hpatient ↦ (h hpatient).setPc _
  | command =>
      cases hs : s.pc <;> simp only [step, hs, reduceCtorEq, Option.some.injEq] at hstep
      subst hstep
      rw [Inv, hs] at h
      exact (h hok).command hok _
  | enter signal =>
      cases hs : s.pc <;> simp only [step, hs, reduceCtorEq] at hstep
      rw [Inv, hs] at h
      split_ifs at hstep with hsignal hempty
      · exact Option.some.inj hstep ▸ abandon_inv
      · obtain rfl := Option.some.inj hstep
        exact h.setPc _
      · obtain rfl := Option.some.inj hstep
        exact ⟨h.setPc _, h.handled_of_not_empty (by simpa using hempty)⟩
  | look signal =>
      cases hs : s.pc <;> simp only [step, hs, reduceCtorEq] at hstep
      split_ifs at hstep with hempty hsignal
      · obtain rfl := Option.some.inj hstep
        rw [Inv, hs] at h
        exact ⟨h.setPc _, h.handled_of_not_empty hempty⟩
      · exact Option.some.inj hstep ▸ abandon_inv
      · exact Option.some.inj hstep ▸ h
  | take =>
      cases hs : s.pc with
      | taking who c =>
          rw [Inv, hs] at h
          obtain ⟨hout, hmem⟩ := h
          obtain ⟨q, slot, hget, hsettled⟩ := hout.take hmem who
          simp only [step, hs, hget] at hstep
          obtain rfl := Option.some.inj hstep
          exact ⟨hsettled, hmem⟩
      | _ => simp [step, hs] at hstep
  | finish =>
      cases hs : s.pc <;> simp only [step, hs, reduceCtorEq, Option.some.injEq] at hstep
      subst hstep
      rw [Inv, hs] at h
      exact fun _ ↦ h.1.setPc _
  | unlock =>
      cases hs : s.pc <;> simp only [step, hs, reduceCtorEq, Option.some.injEq] at hstep
      subst hstep
      rw [Inv, hs] at h
      exact fun hpatient ↦ (h hpatient).setPc _
  | interrupt c =>
      simp only [step] at hstep
      split_ifs at hstep with henabled
      exact Option.some.inj hstep ▸ interrupt_inv h henabled.1 henabled.2

theorem Inv.ownInterrupt (h : s.Inv) : s.OwnInterrupt where
  transfer := by
    intro who c hs
    rw [Inv, hs] at h
    exact h.2
  command := by
    intro s' hpatient hstep
    cases hs : s.pc <;> simp only [step, hs, reduceCtorEq] at hstep
    rw [Inv, hs] at h
    exact (h hpatient).tokens.contents_eq

/-- Over every run in which no command is written after a wait that was left with an error. -/
theorem transfers_own_interrupt {q : LiberaFifo} {ls : List DdStep}
    (hrun : Steps step Patient (boot q) ls s) : s.OwnInterrupt := by
  have hinv : s.Inv := hrun.invariant (fun _ _ _ h hok hstep ↦ step_inv h hok hstep) (boot_inv q)
  exact hinv.ownInterrupt

instance (s : DdSection) : ∀ l, Decidable (s.Patient l)
  | .command => inferInstanceAs (Decidable (s.abandoned = []))
  | .lock _ | .fail | .enter _ | .look _ | .take | .finish | .unlock | .interrupt _ =>
    isTrue trivial

theorem transfers_own_interrupt_two : ∃ s : DdSection, s.OwnInterrupt ∧
    s.pc = .transfer .acqPm 1 ∧ s.handled = [0, 1] :=
  ⟨_, transfers_own_interrupt (exec_get_steps step Patient (boot ⟨fun _ ↦ ⟨0, 0⟩, 3, 9⟩)
    [.lock .ddRead, .command, .enter false, .look false, .interrupt 0, .look true, .take, .finish,
      .unlock, .lock .acqPm, .command, .interrupt 1, .enter false, .take] (by decide +kernel)),
    by decide +kernel, by decide +kernel⟩

/-- A read is interrupted by a signal.  Its interrupt comes when the next read has written its
command, and the next read transfers on the wrong token. -/
theorem stale_token_taken : ∃ s : DdSection,
    Steps step anyStep (boot ⟨fun _ ↦ ⟨0, 0⟩, 3, 9⟩)
      [.lock .ddRead, .command, .enter false, .look true, .unlock, .lock .ddRead, .command,
        .enter false, .interrupt 0, .look false, .take] s ∧
    s.pc = .transfer .ddRead 1 ∧ s.handled = [0] ∧ ¬s.OwnInterrupt := by
  refine ⟨_, exec_get_steps step anyStep _ _ (by decide +kernel), by decide +kernel,
    by decide +kernel, fun h ↦ ?_⟩
  have hmem := h.transfer .ddRead 1 (by decide +kernel)
  revert hmem
  decide +kernel

end DdSection

end LiberaBase
