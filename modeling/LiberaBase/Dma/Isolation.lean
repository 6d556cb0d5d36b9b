import LiberaBase.Dma.Safety

/-!
# Isolation of consecutive transfers

`libera_dma_t` is shared by all transfers, and a transfer that is aborted leaves
its command with the controller.  As long as every transfer finds the controller
at rest, the atoms it delivers were moved for it and every end interrupt is
charged to the transfer that issued the command.  A transfer that starts over an
outstanding command is charged for it.
-/

namespace LiberaBase.Dma

open RingWindow Runs

variable {α : Type*} {stream : ℕ → α} {s s' : System α}

/-- A transfer is only called once the end interrupt of the last command has been
handled. -/
def callAtRest (s : System α) : Label → Prop
  | .call n _ => s.outstanding = [] ∧ 1 ≤ n ∧ n < 2 ^ 31
  | _ => True

instance (s : System α) (l : Label) : Decidable (callAtRest s l) :=
  match l with
  | .call n _ => inferInstanceAs (Decidable (s.outstanding = [] ∧ 1 ≤ n ∧ n < 2 ^ 31))
  | .reader _ | .store | .endInterrupt _ => isTrue trivial

/-- No transfer sees anything of another. -/
structure Isolated (stream : ℕ → α) (s : System α) : Prop where
  /-- what the current transfer delivered was moved by its own commands -/
  delivered : s.copied = segment stream s.transfer s.base s.copied.length
  /-- `dma->remaining` was only decremented for the transfer's own commands -/
  charged : ∀ e ∈ s.ended, e.owner = e.transfer
  one_command : s.outstanding.length ≤ 1

/-- The invariant of runs whose transfers start at rest. -/
structure IsolationInv (stream : ℕ → α) (s : System α) : Prop where
  inv : Inv stream s
  ranges : Ranges s
  charged : ∀ e ∈ s.ended, e.owner = e.transfer

theorem IsolationInv.boot (init : ℤ → Cell α) : IsolationInv stream (boot init) where
  inv := ⟨(Ranges.boot init).bounded, fun h ↦ absurd rfl h, fun h ↦ absurd rfl h,
    rfl, rfl, rfl, rfl, rfl, rfl, rfl⟩
  ranges := .boot init
  charged := by simp [Dma.boot]

theorem endInterrupt_ended {v : U32} (hs : s.endInterrupt v = some s') : ∃ cmd rest,
    s.outstanding = cmd :: rest ∧ s'.ended = s.ended ++ [⟨cmd.owner, s.transfer⟩] := by
  obtain ⟨cmd, rest, hout, hfull, rfl⟩ := endInterrupt_eq_some hs
  refine ⟨cmd, rest, hout, ?_⟩
  unfold System.liberaDmaInterrupt System.liberaDmaCommand
  simp only
  split <;> split_ifs <;> rfl

theorem IsolationInv.charged_step {l : Label} (h : IsolationInv stream s)
    (hs : step stream s l = some s') : ∀ e ∈ s'.ended, e.owner = e.transfer := by
  cases l with
  | call n dest =>
      obtain rfl := call_eq_some hs
      exact h.charged
  | reader e => cases reader_effect hs <;> exact h.charged
  | store =>
      obtain ⟨_, _, _, _, rfl⟩ := store_eq_some hs
      exact h.charged
  | endInterrupt v =>
      obtain ⟨cmd, rest, hout, hended⟩ := endInterrupt_ended hs
      have hne : s.outstanding ≠ [] := by simp [hout]
      obtain ⟨hidle, hstart⟩ := h.inv.running hne
      obtain ⟨-, hfly⟩ := (h.inv.channel hidle hstart).inFlight hne
      have hcmd : cmd.owner = s.transfer := by
        have hhead := hout.symm.trans hfly.outstanding
        rw [(List.cons.inj hhead).1]
      intro e he
      rw [hended] at he
      rcases List.mem_append.mp he with he | he
      · exact h.charged e he
      · obtain rfl := List.mem_singleton.mp he
        exact hcmd

theorem IsolationInv.step {l : Label} (h : IsolationInv stream s) (hok : callAtRest s l)
    (hs : step stream s l = some s') : IsolationInv stream s' where
  inv := by
    cases l with
    | call n dest => exact .call h.ranges.bounded (h.ranges.stored hok.1) hok.1 hok.2.2 hs
    | reader e => exact h.inv.reader hs
    | store => exact h.inv.store hs
    | endInterrupt v => exact h.inv.endInterrupt hs
  ranges := by
    refine h.ranges.step (l := l) ?_ hs
    cases l with
    | call n dest => exact hok.2
    | _ => trivial
  charged := h.charged_step hs

theorem IsolationInv.isolated (h : IsolationInv stream s) : Isolated stream s := by
  by_cases hfresh : s.pc = .idle ∨ s.pc = .start
  · have hat : Fresh s := by
      have hat := h.inv.atPc
      rcases hfresh with hpc | hpc <;> rw [hpc] at hat <;> exact hat
    exact ⟨by simp [hat.copied, segment], h.charged, by simp [hat.outstanding]⟩
  · have hchan := h.inv.channel (fun hpc ↦ hfresh (.inl hpc)) (fun hpc ↦ hfresh (.inr hpc))
    refine ⟨hchan.copied_eq, h.charged, ?_⟩
    by_cases hout : s.outstanding = []
    · simp [hout]
    · simp [(hchan.inFlight hout).2.outstanding]

/-- **Isolation of transfers that start at rest.**  In every run whose transfers
are called with no command outstanding, every state isolates them. -/
theorem transfers_isolated {init : ℤ → Cell α} {ls : List Label}
    (hrun : Steps (step stream) callAtRest (boot init) ls s) : Isolated stream s :=
  (hrun.invariant (fun _ _ _ h hok hs ↦ h.step hok hs) (IsolationInv.boot init)).isolated

/-- Two transfers of one atom, the second called after the first has returned. -/
def twoInTurn : List Label :=
  .call 1 .kernel :: oneAtom ++ .call 1 .user :: oneAtom

theorem transfers_isolated_twoInTurn :
    ∃ s, Steps (step id) callAtRest bootCounting twoInTurn s ∧
      s.copied = [⟨1, 2⟩] ∧ Isolated id s :=
  have hrun := exec_get_steps (step id) callAtRest bootCounting twoInTurn (by decide)
  ⟨_, hrun, by decide, transfers_isolated hrun⟩

/-! ## A transfer that starts over an outstanding command -/

/-- The end interrupt of another transfer's command breaks the isolation. -/
theorem endInterrupt_not_isolated {v : U32} {cmd : Command} {rest : List Command}
    (hout : s.outstanding = cmd :: rest) (howner : cmd.owner ≠ s.transfer)
    (hs : s.endInterrupt v = some s') : ¬Isolated stream s' := by
  intro h
  obtain ⟨cmd', rest', hout', hended⟩ := endInterrupt_ended hs
  obtain ⟨rfl, -⟩ := List.cons.inj (hout.symm.trans hout')
  exact howner (h.charged ⟨cmd.owner, s.transfer⟩ (by simp [hended]))

/-- The first transfer is aborted by a signal while its command is outstanding.
The command ends between the start-up block and the first command of the second
transfer, which then delivers the atom of the first. -/
def overAborted : List Label :=
  [.call 1 .kernel, .reader { obStatus := 1 }, .reader {}, .reader {}, .reader {}, .reader {},
    .reader { signal := true }, .call 1 .user, .reader { obStatus := 1 }, .store,
    .endInterrupt 1, .reader {}, .reader {}, .reader {}, .reader {}, .reader {}, .reader {}]

theorem overAborted_not_isolated :
    ∃ s, Steps (step id) callOk bootCounting overAborted s ∧ s.transfer = 2 ∧
      s.copied = [⟨0, 1⟩] ∧ s.ended = [⟨1, 2⟩] ∧ ¬Isolated id s := by
  have hrun := exec_get_steps (step id) callOk bootCounting overAborted (by decide)
  have hended : ((exec (step id) callOk bootCounting overAborted).get (by decide)).ended =
      [⟨1, 2⟩] := by decide
  refine ⟨_, hrun, by decide, by decide, hended, fun h ↦ ?_⟩
  have hcharged := h.charged ⟨1, 2⟩ (by simp [hended])
  simp at hcharged

end LiberaBase.Dma
