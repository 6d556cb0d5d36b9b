import LiberaBase.Lib.Runs
import LiberaBase.Timing.Handlers
import Mathlib.Data.List.Perm.Basic

/-!
# Sending events from two levels

`libera_send_event` is called by the handlers of the timing interrupts and, after a
configuration request, by a process.  It takes no lock.  The put of the process has three
steps, the index and the test for a full fifo, the store of the event and the store of
`put`, and an interrupt may run between any two of them.
-/

namespace LiberaBase

open Runs

/-- How far the put of the process has come. -/
inductive PutPc where
  | idle
  | indexed (le : LiberaEvent) (index : ℤ)
  | stored (le : LiberaEvent) (index : ℤ)

/-- The driver, the put of a process, and the events that were sent and those that were
read from the fifo. -/
structure Sender where
  drv : Driver
  pc : PutPc
  sent : List LiberaEvent
  taken : List LiberaEvent

inductive SendStep where
  /-- the process calls `libera_send_event` -/
  | send (id param : U32)
  /-- the process takes the next step of its put -/
  | put
  /-- an interrupt handler calls `libera_send_event` -/
  | interrupt (id param : U32)
  /-- an event is read from the fifo -/
  | read

namespace Sender

variable {s s' : Sender} {xs : List LiberaEvent}

def events (s : Sender) : LiberaEventFifo := s.drv.event.events

def setEvents (s : Sender) (q : LiberaEventFifo) : Sender :=
  { s with drv := { s.drv with event := { s.drv.event with events := q } } }

@[simp] theorem setEvents_pc (s : Sender) (q : LiberaEventFifo) : (s.setEvents q).pc = s.pc := rfl

@[simp] theorem setEvents_sent (s : Sender) (q : LiberaEventFifo) :
    (s.setEvents q).sent = s.sent := rfl

@[simp] theorem setEvents_taken (s : Sender) (q : LiberaEventFifo) :
    (s.setEvents q).taken = s.taken := rfl

def boot (param : ℕ → U32) (lgbl : Global) (params : ModuleParams) : Sender :=
  ⟨.boot param lgbl params, .idle, [], []⟩

/-- The beginning of `libera_send_event`, up to the test for a full fifo. -/
def sendEvent (s : Sender) (le : LiberaEvent) : Sender :=
  if le.id &&& s.drv.lgbl.eventMask = 0 then s
  else
    let index := (s.events.put + 1) % trigLog
    if index = s.events.get then s
    else { s with pc := .indexed le index }

def step (s : Sender) : SendStep → Option Sender
  | .send id param =>
    match s.pc with
    | .idle => some { s.sendEvent ⟨id, param⟩ with sent := s.sent ++ [⟨id, param⟩] }
    | _ => none
  | .put =>
    match s.pc with
    | .idle => none
    | .indexed le index =>
      some { s.setEvents { s.events with data := Function.update s.events.data index le } with
        pc := .stored le index }
    | .stored _ index => some { s.setEvents { s.events with put := index } with pc := .idle }
  | .interrupt id param =>
    some { s with drv := s.drv.liberaSendEvent id param, sent := s.sent ++ [⟨id, param⟩] }
  | .read =>
    match s.events.pop trigLog with
    | none => some s
    | some (q, slot) => some { s.setEvents q with taken := s.taken ++ [q.data slot] }

def pending (s : Sender) : List LiberaEvent :=
  match s.pc with
  | .idle => []
  | .indexed le _ => [le]
  | .stored le _ => [le]

/-- Every event sent was read from the fifo or is in it, once, unless its put is under way. -/
def Delivered (s : Sender) : Prop :=
  (s.taken ++ s.events.contents trigLog ++ s.pending).Perm s.sent

instance (s : Sender) : Decidable s.Delivered := inferInstanceAs (Decidable (List.Perm _ _))

/-- The mask lets an event through. -/
def Passes (s : Sender) : SendStep → Prop
  | .send id _ => id &&& s.drv.lgbl.eventMask ≠ 0
  | .interrupt id _ => id &&& s.drv.lgbl.eventMask ≠ 0
  | _ => True

/-- The mask lets the events through and there is room for them. -/
def Roomy (s : Sender) (l : SendStep) : Prop :=
  s.Passes l ∧ (s.events.len trigLog : ℤ) < trigLog - 1

/-- No interrupt handler sends an event while the put of the process is under way. -/
def Undisturbed (s : Sender) : SendStep → Prop
  | .interrupt _ _ => s.pending = []
  | _ => True

instance (s : Sender) : ∀ l, Decidable (s.Passes l)
  | .send id _ => inferInstanceAs (Decidable (id &&& _ ≠ 0))
  | .interrupt id _ => inferInstanceAs (Decidable (id &&& _ ≠ 0))
  | .put => isTrue trivial
  | .read => isTrue trivial

instance (s : Sender) : ∀ l, Decidable (s.Undisturbed l)
  | .interrupt _ _ => inferInstanceAs (Decidable (s.pending = []))
  | .send _ _ => isTrue trivial
  | .put => isTrue trivial
  | .read => isTrue trivial

instance (s : Sender) (l : SendStep) : Decidable (s.Roomy l) := inferInstanceAs (Decidable (_ ∧ _))

structure Holds (s : Sender) (xs : List LiberaEvent) : Prop where
  represents : s.events.Represents trigLog xs
  sent : s.sent = s.taken ++ xs ++ s.pending
  /-- the put of the process still designates the slot behind `put` -/
  indexed : ∀ le index, s.pc = .indexed le index → index = (s.events.put + 1) % trigLog
  stored : ∀ le index, s.pc = .stored le index →
    index = (s.events.put + 1) % trigLog ∧ s.events.data index = le

namespace Holds

theorem boot (param : ℕ → U32) (lgbl : Global) (params : ModuleParams) :
    Holds (boot param lgbl params) [] where
  represents := RingFifo.Represents.flush (N := trigLog) (by decide)
    (Sender.boot param lgbl params).events
  sent := rfl
  indexed := fun _ _ h ↦ nomatch h
  stored := fun _ _ h ↦ nomatch h

theorem room (h : Holds s xs) {l : SendStep} (hok : s.Roomy l) :
    (xs.length : ℤ) < trigLog - 1 := by
  rw [← h.represents.len_eq]
  exact hok.2

theorem send (h : Holds s xs) {id param : U32} (hok : s.Roomy (.send id param))
    (hstep : s.step (.send id param) = some s') : ∃ ys, Holds s' ys := by
  have hroom := h.room hok
  have hfree : (s.events.put + 1) % trigLog ≠ s.events.get := by
    intro hfull
    have := h.represents.full_iff.mp hfull
    omega
  cases hpc : s.pc with
  | idle =>
      simp only [step, hpc, sendEvent, if_neg hok.1, if_neg hfree, Option.some.injEq] at hstep
      subst hstep
      refine ⟨xs, h.represents, ?_, ?_, ?_⟩
      · simp [h.sent, pending, hpc]
      · intro le index hpc'
        cases hpc'
        rfl
      · intro le index hpc'
        cases hpc'
  | indexed le index => simp [step, hpc] at hstep
  | stored le index => simp [step, hpc] at hstep

theorem put (h : Holds s xs) (hok : s.Roomy .put) (hstep : s.step .put = some s') :
    ∃ ys, Holds s' ys := by
  have hroom := h.room hok
  cases hpc : s.pc with
  | idle => simp [step, hpc] at hstep
  | indexed le index =>
      simp only [step, hpc, Option.some.injEq] at hstep
      subst hstep
      obtain rfl := h.indexed le index hpc
      refine ⟨xs, h.represents.store_behind hroom le, ?_, ?_, ?_⟩
      · simpa [pending, hpc] using h.sent
      · intro le' index' hpc'
        cases hpc'
      · intro le' index' hpc'
        cases hpc'
        exact ⟨rfl, Function.update_self ..⟩
  | stored le index =>
      simp only [step, hpc, Option.some.injEq] at hstep
      subst hstep
      obtain ⟨rfl, hdata⟩ := h.stored le index hpc
      refine ⟨xs ++ [le], h.represents.advance_put hroom hdata, ?_, ?_, ?_⟩
      · simpa [pending, hpc] using h.sent
      · intro le' index' hpc'
        cases hpc'
      · intro le' index' hpc'
        cases hpc'

theorem interrupt (h : Holds s xs) {id param : U32} (hok : s.Roomy (.interrupt id param))
    (hidle : s.pending = []) (hstep : s.step (.interrupt id param) = some s') :
    ∃ ys, Holds s' ys := by
  have hroom := h.room hok
  obtain ⟨q, hpush, hq, -, -⟩ := h.represents.push_some (x := ⟨id, param⟩) hroom
  have hput : putToEventFIFO s.drv.event.events ⟨id, param⟩ = some q := hpush
  have hsend : s.drv.liberaSendEvent id param = (s.setEvents q).drv := by
    simp only [Driver.liberaSendEvent, if_neg hok.1, hput]
    rfl
  simp only [step, hsend, Option.some.injEq] at hstep
  subst hstep
  cases hpc : s.pc with
  | idle =>
      refine ⟨xs ++ [(⟨id, param⟩ : LiberaEvent)], hq, ?_, ?_, ?_⟩
      · simp [h.sent, pending, hpc]
      · intro le index hpc'
        cases hpc'
      · intro le index hpc'
        cases hpc'
  | indexed le index => simp [pending, hpc] at hidle
  | stored le index => simp [pending, hpc] at hidle

theorem read (h : Holds s xs) (hstep : s.step .read = some s') : ∃ ys, Holds s' ys := by
  cases xs with
  | nil =>
      simp only [step, h.represents.pop_nil, Option.some.injEq] at hstep
      exact ⟨[], hstep ▸ h⟩
  | cons x xs =>
      obtain ⟨q, hpop, hq, hdata, hx⟩ := h.represents.pop_cons
      have hput : q.put = s.events.put := by
        rw [RingFifo.pop] at hpop
        split_ifs at hpop
        rw [← (Prod.mk.inj (Option.some.inj hpop)).1]
      simp only [step, hpop, Option.some.injEq] at hstep
      subst hstep
      refine ⟨xs, hq, ?_, ?_, ?_⟩
      · rw [hx]
        simpa [pending] using h.sent
      · intro le index hpc
        exact (h.indexed le index hpc).trans (by rw [← hput]; rfl)
      · intro le index hpc
        obtain ⟨hindex, hle⟩ := h.stored le index hpc
        exact ⟨hindex.trans (by rw [← hput]; rfl), (congrFun hdata index).trans hle⟩

theorem step (h : Holds s xs) {l : SendStep} (hok : s.Roomy l) (hquiet : s.Undisturbed l)
    (hstep : s.step l = some s') : ∃ ys, Holds s' ys := by
  cases l with
  | send id param => exact h.send hok hstep
  | put => exact h.put hok hstep
  | interrupt id param => exact h.interrupt hok hquiet hstep
  | read => exact h.read hstep

theorem delivered (h : Holds s xs) : s.Delivered := by
  rw [Delivered, h.represents.contents_eq, h.sent]

end Holds

/-- Over every run in which no interrupt sends an event into a put under way, no event is
lost and none is doubled. -/
theorem sent_delivered {param : ℕ → U32} {lgbl : Global} {params : ModuleParams}
    {ls : List SendStep}
    (hrun : Steps step (fun s l ↦ s.Roomy l ∧ s.Undisturbed l) (boot param lgbl params) ls s) :
    s.Delivered := by
  have hinv : ∃ xs, Holds s xs := by
    refine hrun.invariant (P := fun s ↦ ∃ xs, Holds s xs) ?_ ⟨[], .boot ..⟩
    rintro s l s' ⟨xs, hs⟩ hok hstep
    exact hs.step hok.1 hok.2 hstep
  obtain ⟨xs, hs⟩ := hinv
  exact hs.delivered

theorem sent_delivered_turns : ∃ s : Sender, s.Delivered ∧
    s.events.contents trigLog = [⟨4, 0⟩, ⟨2, 5⟩] :=
  ⟨_, sent_delivered (exec_get_steps step (fun s l ↦ s.Roomy l ∧ s.Undisturbed l)
    (boot (fun _ ↦ 0) ⟨0xffffffff, 0, 1, 1, 0⟩ ⟨0, 0, 0, 0⟩)
    [.interrupt 4 0, .send 2 5, .put, .put] (by decide +kernel)), by decide +kernel⟩

/-- A process reports a parameter, and an interrupt reports a trigger after the process has
computed its index: both store in the same slot, and the trigger is lost. -/
theorem interrupt_event_lost : ∃ s : Sender,
    Steps step Roomy (boot (fun _ ↦ 0) ⟨0xffffffff, 0, 1, 1, 0⟩ ⟨0, 0, 0, 0⟩)
      [.send liberaEventCfg 5, .interrupt liberaEventTrigget 0, .put, .put] s ∧
    s.sent = [⟨liberaEventCfg, 5⟩, ⟨liberaEventTrigget, 0⟩] ∧
    s.events.contents trigLog = [⟨liberaEventCfg, 5⟩] ∧ s.pending = [] ∧ ¬s.Delivered := by
  have hrun := exec_get_steps step Roomy
    (boot (fun _ ↦ 0) ⟨0xffffffff, 0, 1, 1, 0⟩ ⟨0, 0, 0, 0⟩)
    [.send liberaEventCfg 5, .interrupt liberaEventTrigget 0, .put, .put] (by decide +kernel)
  exact ⟨_, hrun, by decide +kernel, by decide +kernel, by decide +kernel, by decide +kernel⟩

end Sender

end LiberaBase
