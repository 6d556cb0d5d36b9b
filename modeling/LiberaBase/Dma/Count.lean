import LiberaBase.Dma.Safety

/-!
# What a transfer reports

A transfer counts the atoms it copies in `dma->written`, and its caller reads that
count when the transfer ends with an error.  The count is right however the transfer
started and ended, also over a command that an aborted transfer left behind.
-/

namespace LiberaBase.Dma

open Runs

variable {α : Type*} {stream : ℕ → α} {s s' : System α}

/-- What the count obeys at each point of the reader's code. -/
def CountAtPc (s : System α) : Pc → Prop
  | .idle | .start => True
  | .copyAtom => s.dma.written < s.obAtoms ∧ s.obAtoms ≤ s.atomCount
  | .returned ret => s.dma.written ≤ s.atomCount ∧ (0 ≤ ret → ret = s.dma.written)
  | _ => s.dma.written ≤ s.obAtoms ∧ s.dma.written ≤ s.atomCount

/-- The counts a step of the controller leaves alone. -/
def counts (s : System α) : Pc × ℕ × ℕ × ℕ := (s.pc, s.dma.written, s.obAtoms, s.atomCount)

theorem CountAtPc.frame (h : CountAtPc s s.pc) (heq : counts s' = counts s) :
    CountAtPc s' s'.pc := by
  simp only [counts, Prod.mk.injEq] at heq
  obtain ⟨hpc, hwritten, hatoms, hcount⟩ := heq
  unfold CountAtPc at h ⊢
  rw [hpc, hwritten, hatoms, hcount]
  exact h

theorem store_counts (hs : s.store stream = some s') : counts s' = counts s := by
  obtain ⟨_, _, _, _, rfl⟩ := store_eq_some hs
  rfl

theorem putToDMAFIFO_written {q q' : LiberaDma α} {n : ℤ} (h : putToDMAFIFO q n = some q') :
    q'.written = q.written := by
  unfold putToDMAFIFO at h
  simp only at h
  split_ifs at h
  obtain rfl := Option.some.inj h
  rfl

theorem endInterrupt_counts {v : U32} (hs : s.endInterrupt v = some s') :
    counts s' = counts s := by
  obtain ⟨cmd, rest, -, -, rfl⟩ := endInterrupt_eq_some hs
  unfold System.liberaDmaInterrupt System.liberaDmaCommand
  simp only
  split
  case h_1 heq =>
    have hwritten := putToDMAFIFO_written heq
    split_ifs <;> simp [counts, liberaDmaGetDMACCsize, hwritten]
  case h_2 => split_ifs <;> rfl

theorem CountAtPc.reader {e : ReaderEnv} (h : CountAtPc s s.pc) (hs : s.reader e = some s') :
    CountAtPc s' s'.pc := by
  unfold System.reader at hs
  cases hpc : s.pc <;> simp only [hpc] at hs h
  case idle | returned => simp at hs
  case start =>
    obtain rfl := Option.some.inj hs
    exact ⟨Nat.zero_le _, Nat.zero_le _⟩
  case sync site =>
    split_ifs at hs
    · obtain rfl := Option.some.inj hs
      exact h
    · cases site <;> obtain rfl := Option.some.inj hs <;> exact h
  case copyTest =>
    obtain ⟨hatoms, hcount⟩ := h
    split_ifs at hs with hlt hcopy <;> obtain rfl := Option.some.inj hs
    · simp only [Bool.and_eq_true, decide_eq_true_eq] at hcopy
      exact ⟨Nat.lt_succ_of_le hatoms, hcopy.1⟩
    · exact ⟨Nat.le_succ_of_le hatoms, hcount⟩
    · exact ⟨hatoms, hcount⟩
  case copyAtom =>
    obtain ⟨hatoms, hcount⟩ := h
    split_ifs at hs <;> obtain rfl := Option.some.inj hs
    · exact ⟨by change s.dma.written ≤ s.atomCount; omega, fun hret ↦ absurd hret (by decide)⟩
    · exact ⟨hatoms, hatoms.trans_le hcount⟩
  case syncCheck | sleepSignal | take | yieldSignal =>
    split_ifs at hs <;> obtain rfl := Option.some.inj hs
    all_goals first | exact h | exact ⟨h.2, fun hret ↦ absurd hret (by decide)⟩
  case restartCommand =>
    obtain rfl := Option.some.inj hs
    unfold System.restartCommand
    simp only
    split_ifs <;> exact h
  case finish =>
    obtain rfl := Option.some.inj hs
    simp only [System.finish]
    split_ifs
    · exact ⟨h.2, fun hret ↦ absurd hret (by decide)⟩
    · exact ⟨h.2, fun hret ↦ absurd hret (by decide)⟩
    · exact ⟨h.2, fun _ ↦ rfl⟩
  case waitTest | sleepTest | yieldTest | needsStart | loopTest | loopTestEmpty =>
    obtain rfl := Option.some.inj hs
    split_ifs <;> exact h
  all_goals
    obtain rfl := Option.some.inj hs
    exact h

theorem CountAtPc.step {l : Label} (h : CountAtPc s s.pc) (hl : noCall s l)
    (hs : step stream s l = some s') : CountAtPc s' s'.pc := by
  cases l with
  | call n dest => exact hl.elim
  | reader e => exact h.reader hs
  | store => exact h.frame (store_counts hs)
  | endInterrupt v => exact h.frame (endInterrupt_counts hs)

/-- A transfer of `n` atoms can return `ret` and leave `written` in `dma->written`,
whatever it found the controller doing. -/
def TransferReturns (n : ℕ) (ret : ℤ) (written : ℕ) : Prop :=
  ∃ (α : Type) (stream : ℕ → α) (s₀ s₁ s : System α) (dest : Dest) (ls : List Label),
    step stream s₀ (.call n dest) = some s₁ ∧ Steps (step stream) noCall s₁ ls s ∧
      s.pc = .returned ret ∧ s.dma.written = written

/-- A transfer never copies more atoms than it was asked for, and without an error it
returns the number it copied. -/
theorem TransferReturns.count {n written : ℕ} {ret : ℤ} (h : TransferReturns n ret written) :
    written ≤ n ∧ (0 ≤ ret → ret = written) := by
  obtain ⟨α, stream, s₀, s₁, s, dest, ls, hcall, hrun, hpc, rfl⟩ := h
  have hstart : CountAtPc s₁ s₁.pc ∧ s₁.atomCount = n := by
    obtain rfl := call_eq_some hcall
    exact ⟨trivial, rfl⟩
  obtain ⟨hcount, rfl⟩ : CountAtPc s s.pc ∧ s.atomCount = n :=
    hrun.invariant (P := fun s ↦ CountAtPc s s.pc ∧ s.atomCount = n)
      (fun t l t' h hl hs ↦ ⟨h.1.step hl hs, (step_frame hl hs).2.trans h.2⟩) hstart
  rw [hpc] at hcount
  exact hcount

def oneOfTwo : List Label :=
  [.reader { obStatus := 1 }, .reader {}, .reader {}, .store, .endInterrupt 0, .reader {},
    .reader {}, .reader {}, .reader {}, .reader {}, .reader {}, .reader { yield := true },
    .reader { signal := true }]

theorem transferReturns_oneOfTwo : TransferReturns 2 (-ERESTARTSYS) 1 := by
  have hcall : step id bootCounting (.call 2 .user) =
      some { bootCounting with pc := .start, atomCount := 2, dest := .user, transfer := 1 } := rfl
  have hrun := exec_get_steps (step id) noCall
    { bootCounting with pc := .start, atomCount := 2, dest := .user, transfer := 1 } oneOfTwo
    (by decide)
  exact ⟨ℕ, id, _, _, _, _, _, hcall, hrun, by decide, by decide⟩

theorem transferReturns_oneAtom : TransferReturns 1 1 1 := by
  have hcall : step id bootCounting (.call 1 .user) =
      some { bootCounting with pc := .start, atomCount := 1, dest := .user, transfer := 1 } := rfl
  have hrun := exec_get_steps (step id) noCall
    { bootCounting with pc := .start, atomCount := 1, dest := .user, transfer := 1 } oneAtom
    (by decide)
  exact ⟨ℕ, id, _, _, _, _, _, hcall, hrun, by decide, by decide⟩

end LiberaBase.Dma
