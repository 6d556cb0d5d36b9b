import LiberaBase.Sa.Device
import LiberaBase.Lib.Runs
import Mathlib.Data.List.Forall2

/-!
# The Slow Acquisition tasklet

The tasklet `libera_sa_do_tasklet` drains the ring into the pipes.  The interrupt may
arrive between any two of its steps.  The kernel clears the scheduled mark of a tasklet
before it calls the function, so that an interrupt during a run causes another run; if
the first run has already taken the atoms of that interrupt, the second one starts with
an empty ring, and its `do` loop dispatches the slot at the tail nevertheless.
-/

namespace LiberaBase.Sa

open Runs

/-- Where the tasklet is in `libera_sa_do_tasklet_specific`. -/
inductive TaskletPc where
  | idle
  | overrunCheck
  | dispatch (pipeNo : ℕ)
  | incrTail
  | sendEvent
  | loopTest
  deriving DecidableEq

/-- The device, the tasklet, and what they have done: the atoms that were read, the rounds
of the loop, and for each pipe what a round offered to it, `none` if no pipe was
registered. -/
structure Tasklet (α : Type*) where
  dev : SaDevice α
  scheduled : Bool
  pc : TaskletPc
  events : List (U32 × U32)
  read : List α
  rounds : ℕ
  sent : ℕ → List (Option α)

inductive TaskletStep (α : Type*) where
  /-- `libera_sa_handler` -/
  | interrupt (first : α) (rest : List α) (inovr : Bool)
  /-- The kernel calls the scheduled tasklet. -/
  | start
  | run
  /-- A reader opens, closes or reads a pipe. -/
  | reader (pipeNo : ℕ) (pipe : Option (SaFifo α))

variable {α : Type*}

namespace Tasklet

def liberaSaHandler (s : Tasklet α) (first : α) (rest : List α) (inovr : Bool) : Tasklet α :=
  { s with
    dev := liberaSaHandlerSpecific s.dev first rest inovr
    scheduled := true
    read := s.read ++ first :: rest }

/-- One pass of the loop over the pipes. -/
def dispatchTo (s : Tasklet α) (pipeNo : ℕ) : Tasklet α :=
  match s.dev.saPipe pipeNo with
  | none =>
    { s with
      pc := .dispatch (pipeNo + 1)
      sent := Function.update s.sent pipeNo (s.sent pipeNo ++ [none]) }
  | some q =>
    let a := s.dev.buf s.dev.bufTail
    let (q', ret) := liberaPipeWrite q [a]
    { s with
      dev := { s.dev with saPipe := Function.update s.dev.saPipe pipeNo (some q') }
      events :=
        if ret = -EFAULT then s.events ++ [(liberaEventOverflow, liberaOverflowSaDrv)]
        else s.events
      pc := .dispatch (pipeNo + 1)
      sent := Function.update s.sent pipeNo (s.sent pipeNo ++ [some a]) }

def doTasklet (s : Tasklet α) : Option (Tasklet α) :=
  match s.pc with
  | .idle => none
  | .overrunCheck =>
    if s.dev.inputovr then
      some { s with
        dev := { s.dev with inputovr := false }
        events := s.events ++ [(liberaEventOverflow, liberaOverflowSaFpga)]
        pc := .dispatch 0 }
    else some { s with pc := .dispatch 0 }
  | .dispatch pipeNo =>
    if pipeNo < liberaSaMaxReaders then some (s.dispatchTo pipeNo)
    else some { s with pc := .incrTail }
  | .incrTail =>
    some { s with
      dev := { s.dev with bufTail := liberaSaIncrAtom s.dev.bufTail }
      rounds := s.rounds + 1
      pc := .sendEvent }
  | .sendEvent => some { s with events := s.events ++ [(liberaEventSa, 1)], pc := .loopTest }
  | .loopTest =>
    some { s with pc := if s.dev.bufTail ≠ s.dev.bufHead then .dispatch 0 else .idle }

def step (s : Tasklet α) : TaskletStep α → Option (Tasklet α)
  | .interrupt first rest inovr => some (s.liberaSaHandler first rest inovr)
  | .start =>
    if s.scheduled && s.pc = .idle then some { s with scheduled := false, pc := .overrunCheck }
    else none
  | .run => s.doTasklet
  | .reader pipeNo pipe =>
    some { s with dev := { s.dev with saPipe := Function.update s.dev.saPipe pipeNo pipe } }

def boot (buf : ℤ → α) : Tasklet α where
  dev := ⟨fun _ ↦ none, buf, 0, 0, false⟩
  scheduled := false
  pc := .idle
  events := []
  read := []
  rounds := 0
  sent := fun _ ↦ []

def Roomy (s : Tasklet α) : TaskletStep α → Prop
  | .interrupt first rest _ => s.read.length + (first :: rest).length < s.rounds + 32
  | _ => True

instance (s : Tasklet α) (l : TaskletStep α) : Decidable (s.Roomy l) :=
  match l with
  | .interrupt first rest _ =>
    inferInstanceAs (Decidable (s.read.length + (first :: rest).length < s.rounds + 32))
  | .start | .run | .reader _ _ => isTrue trivial

/-- In addition, the tasklet finds atoms in the ring whenever it is called. -/
def Fed (s : Tasklet α) (l : TaskletStep α) : Prop :=
  s.Roomy l ∧ match l with
    | .start => s.dev.bufTail ≠ s.dev.bufHead
    | _ => True

instance (s : Tasklet α) (l : TaskletStep α) : Decidable (s.Fed l) :=
  match l with
  | .start => inferInstanceAs (Decidable (_ ∧ s.dev.bufTail ≠ s.dev.bufHead))
  | .interrupt _ _ _ | .run | .reader _ _ => inferInstanceAs (Decidable (_ ∧ True))

/-! ## What a pipe is offered -/

/-- What is offered is a prefix of what was read, each atom in its round, but for the
rounds in which no pipe was registered. -/
def InOrder (sent : List (Option α)) (read : List α) : Prop :=
  ∃ dispatched, dispatched <+: read ∧
    List.Forall₂ (fun o a ↦ ∀ b ∈ o, b = a) sent dispatched

theorem InOrder.nil (read : List α) : InOrder [] read := ⟨[], List.nil_prefix, .nil⟩

theorem InOrder.append {sent : List (Option α)} {read : List α} (h : InOrder sent read)
    (more : List α) : InOrder sent (read ++ more) := by
  obtain ⟨dispatched, hprefix, hsent⟩ := h
  exact ⟨dispatched, hprefix.trans (List.prefix_append _ _), hsent⟩

theorem InOrder.snoc {sent : List (Option α)} {read : List α} {a : α} {o : Option α}
    (h : InOrder sent read) (ha : read[sent.length]? = some a) (ho : ∀ b ∈ o, b = a) :
    InOrder (sent ++ [o]) read := by
  obtain ⟨dispatched, ⟨rest, rfl⟩, hsent⟩ := h
  rw [hsent.length_eq, List.getElem?_append_right le_rfl, Nat.sub_self] at ha
  cases rest with
  | nil => simp at ha
  | cons b rest =>
      obtain rfl : b = a := by simpa using ha
      refine ⟨dispatched ++ [b], ⟨rest, by simp⟩, ?_⟩
      exact List.rel_append hsent (.cons ho .nil)

/-! ## The invariant -/

/-- Behind the loop test and before the increment the round's atom is still in the ring. -/
def AtRound (s : Tasklet α) : TaskletPc → Prop
  | .idle | .sendEvent | .loopTest => ∀ k < 16, (s.sent k).length = s.rounds
  | .overrunCheck => s.rounds < s.read.length ∧ ∀ k < 16, (s.sent k).length = s.rounds
  | .dispatch n => s.rounds < s.read.length ∧ n ≤ 16 ∧
      ∀ k < 16, (s.sent k).length = if k < n then s.rounds + 1 else s.rounds
  | .incrTail => s.rounds < s.read.length ∧ ∀ k < 16, (s.sent k).length = s.rounds + 1

structure Inv (s : Tasklet α) : Prop where
  rings : Rings s.dev s.read s.rounds
  atRound : AtRound s s.pc
  inOrder : ∀ k < 16, InOrder (s.sent k) s.read
  unused : ∀ k, 16 ≤ k → s.sent k = []

variable {s s' : Tasklet α}

theorem Inv.boot (buf : ℤ → α) : Inv (boot buf) where
  rings := ⟨le_rfl, by simp [Tasklet.boot], rfl, rfl, RingWindow.holds_nil _ _ _⟩
  atRound := fun _ _ ↦ rfl
  inOrder := fun _ _ ↦ .nil _
  unused := fun _ _ ↦ rfl

theorem AtRound.interrupt {pc : TaskletPc} (h : AtRound s pc) (first : α) (rest : List α)
    (inovr : Bool) : AtRound (s.liberaSaHandler first rest inovr) pc := by
  have hle : s.read.length ≤ (s.read ++ first :: rest).length := by simp
  cases pc with
  | idle => exact h
  | sendEvent => exact h
  | loopTest => exact h
  | overrunCheck => exact ⟨h.1.trans_le hle, h.2⟩
  | dispatch n => exact ⟨h.1.trans_le hle, h.2⟩
  | incrTail => exact ⟨h.1.trans_le hle, h.2⟩

theorem Inv.interrupt (h : Inv s) (first : α) (rest : List α) (inovr : Bool)
    (hroom : s.read.length + (first :: rest).length < s.rounds + 32) :
    Inv (s.liberaSaHandler first rest inovr) where
  rings := h.rings.handler first rest inovr hroom
  atRound := h.atRound.interrupt first rest inovr
  inOrder := fun k hk ↦ (h.inOrder k hk).append _
  unused := h.unused

/-- What is sent when `o` is offered to pipe `n`. -/
theorem Inv.offer (h : Inv s) {n : ℕ} (hpc : s.pc = .dispatch n) (hn : n < 16) {o : Option α}
    (ho : ∀ b ∈ o, b = s.dev.buf s.dev.bufTail) (p : ℕ → Option (SaFifo α))
    (events : List (U32 × U32)) :
    Inv { s with
      dev := { s.dev with saPipe := p }
      events := events
      pc := .dispatch (n + 1)
      sent := Function.update s.sent n (s.sent n ++ [o]) } := by
  have hat := h.atRound
  rw [hpc] at hat
  obtain ⟨hlt, -, hlen⟩ := hat
  have hround : (s.sent n).length = s.rounds := by
    rw [hlen n hn, if_neg (lt_irrefl n)]
  refine ⟨h.rings.frame p s.dev.inputovr, ⟨hlt, hn, ?_⟩, ?_, ?_⟩
  · intro k hk
    change (Function.update s.sent n (s.sent n ++ [o]) k).length =
      if k < n + 1 then s.rounds + 1 else s.rounds
    by_cases hkn : k = n
    · subst hkn
      rw [Function.update_self, List.length_append, hround, if_pos (Nat.lt_succ_self k)]
      rfl
    · rw [Function.update_of_ne hkn, hlen k hk]
      split_ifs <;> omega
  · intro k hk
    change InOrder (Function.update s.sent n (s.sent n ++ [o]) k) s.read
    by_cases hkn : k = n
    · subst hkn
      rw [Function.update_self]
      apply (h.inOrder k hk).snoc _ ho
      rw [hround]
      exact h.rings.front hlt
    · rw [Function.update_of_ne hkn]
      exact h.inOrder k hk
  · intro k hk
    change Function.update s.sent n (s.sent n ++ [o]) k = []
    rw [Function.update_of_ne (by omega)]
    exact h.unused k hk

theorem Inv.dispatchTo (h : Inv s) {n : ℕ} (hpc : s.pc = .dispatch n) (hn : n < 16) :
    Inv (s.dispatchTo n) := by
  unfold Tasklet.dispatchTo
  cases s.dev.saPipe n with
  | none => exact h.offer hpc hn (by simp) s.dev.saPipe s.events
  | some q => exact h.offer hpc hn (by simp) _ _

theorem Inv.run (h : Inv s) (hrun : s.doTasklet = some s') : Inv s' := by
  have hat := h.atRound
  unfold doTasklet at hrun
  cases hpc : s.pc with
  | idle => simp [hpc] at hrun
  | overrunCheck =>
      rw [hpc] at hrun hat
      have hnone : ∀ k < 16, (s.sent k).length = if k < 0 then s.rounds + 1 else s.rounds :=
        fun k hk ↦ (hat.2 k hk).trans (if_neg k.not_lt_zero).symm
      simp only at hrun
      split_ifs at hrun <;> obtain rfl := Option.some.inj hrun
      · exact ⟨h.rings.frame _ false, ⟨hat.1, Nat.zero_le _, hnone⟩, h.inOrder, h.unused⟩
      · exact ⟨h.rings, ⟨hat.1, Nat.zero_le _, hnone⟩, h.inOrder, h.unused⟩
  | dispatch n =>
      rw [hpc] at hrun hat
      simp only at hrun
      split_ifs at hrun with hn <;> obtain rfl := Option.some.inj hrun
      · exact h.dispatchTo hpc hn
      · refine ⟨h.rings, ⟨hat.1, ?_⟩, h.inOrder, h.unused⟩
        intro k hk
        have hlen := hat.2.2 k hk
        unfold liberaSaMaxReaders at hn
        rwa [if_pos (by omega)] at hlen
  | incrTail =>
      rw [hpc] at hrun hat
      obtain rfl := Option.some.inj hrun
      exact ⟨h.rings.advance hat.1, hat.2, h.inOrder, h.unused⟩
  | sendEvent =>
      rw [hpc] at hrun hat
      obtain rfl := Option.some.inj hrun
      exact ⟨h.rings, hat, h.inOrder, h.unused⟩
  | loopTest =>
      rw [hpc] at hrun hat
      obtain rfl := Option.some.inj hrun
      refine ⟨h.rings, ?_, h.inOrder, h.unused⟩
      change AtRound _ (if _ then _ else _)
      split_ifs with hne
      · have hlt : s.rounds < s.read.length :=
          lt_of_le_of_ne h.rings.le fun heq ↦ hne (h.rings.tail_eq_head_iff.mpr heq)
        exact ⟨hlt, Nat.zero_le _, fun k hk ↦ (hat k hk).trans (if_neg k.not_lt_zero).symm⟩
      · exact hat

theorem Inv.step {l : TaskletStep α} (h : Inv s) (hok : s.Fed l) (hs : s.step l = some s') :
    Inv s' := by
  cases l with
  | interrupt first rest inovr =>
      obtain rfl := Option.some.inj hs
      exact h.interrupt first rest inovr hok.1
  | start =>
      have hat := h.atRound
      simp only [Tasklet.step] at hs
      split_ifs at hs with hidle
      obtain rfl := Option.some.inj hs
      simp only [Bool.and_eq_true, decide_eq_true_eq] at hidle
      rw [hidle.2] at hat
      have hlt : s.rounds < s.read.length :=
        lt_of_le_of_ne h.rings.le fun heq ↦ hok.2 (h.rings.tail_eq_head_iff.mpr heq)
      exact ⟨h.rings, ⟨hlt, hat⟩, h.inOrder, h.unused⟩
  | run => exact h.run hs
  | reader pipeNo pipe =>
      obtain rfl := Option.some.inj hs
      refine ⟨h.rings.frame _ s.dev.inputovr, ?_, h.inOrder, h.unused⟩
      have hat := h.atRound
      unfold AtRound at hat ⊢
      exact hat

/-- **Atoms are dispatched once and in order.**  While the tasklet never starts with an
empty ring, what every pipe is offered is a prefix of what the top half read. -/
theorem dispatched_inOrder {buf : ℤ → α} {ls : List (TaskletStep α)}
    (hrun : Steps Tasklet.step Fed (boot buf) ls s) : ∀ k, InOrder (s.sent k) s.read := by
  have hinv : Inv s := hrun.invariant (fun _ _ _ h hok hs ↦ h.step hok hs) (.boot buf)
  intro k
  by_cases hk : k < 16
  · exact hinv.inOrder k hk
  · rw [hinv.unused k (not_lt.mp hk)]
    exact .nil _

def call (n : ℕ) : List (TaskletStep α) := .start :: List.replicate n .run

/-- One pipe, two atoms in one interrupt, one more after the first round. -/
theorem dispatched_inOrder_fed : ∃ s : Tasklet ℕ, (∀ k, InOrder (s.sent k) s.read) ∧
    s.sent 0 = [some 7, some 8, some 9] :=
  ⟨_, dispatched_inOrder (exec_get_steps Tasklet.step Fed (boot fun _ ↦ 0)
    ([.reader 0 (some ⟨fun _ ↦ 0, 0, 0⟩), .interrupt 7 [8] false] ++ call 20 ++
      [.interrupt 9 [] false] ++ List.replicate 41 .run) (by decide +kernel)), by decide +kernel⟩

/-- The second interrupt lands in the run that the first one caused, which takes both
atoms; the run that the second one caused dispatches the empty slot at the tail. -/
theorem dispatched_not_inOrder : ∃ s : Tasklet ℕ,
    Steps Tasklet.step Roomy (boot fun _ ↦ 0)
      ([.reader 0 (some ⟨fun _ ↦ 0, 0, 0⟩), .interrupt 7 [] false] ++ call 5 ++
        [.interrupt 8 [] false] ++ List.replicate 36 .run ++ call 2) s ∧
    s.read = [7, 8] ∧ s.sent 0 = [some 7, some 8, some 0] ∧ ¬InOrder (s.sent 0) s.read := by
  have hrun := exec_get_steps Tasklet.step Roomy (boot fun _ ↦ 0)
    ([.reader 0 (some ⟨fun _ ↦ 0, 0, 0⟩), .interrupt 7 [] false] ++ call 5 ++
      [.interrupt 8 [] false] ++ List.replicate 36 .run ++ call 2) (by decide +kernel)
  refine ⟨_, hrun, by decide +kernel, by decide +kernel, ?_⟩
  rintro ⟨dispatched, hprefix, hsent⟩
  have hlen := hsent.length_eq ▸ hprefix.length_le
  exact absurd hlen (by decide +kernel)

end Tasklet

end LiberaBase.Sa
