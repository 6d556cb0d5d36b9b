import LiberaBase.Dma.Isolation

/-!
# Empty DMA commands

A command of no atoms is a bus error.  The end interrupt issues none, and the restart issues none
because it stops on an overrun.  The first command of a transfer is issued when the synchronization
with the OB fifo is over, which an overrun ends as well.
-/

namespace LiberaBase.Dma

open Runs

variable {α : Type*} {stream : ℕ → α} {s s' : System α}

/-- The synchronization at the start of a transfer does not read an overrun from an empty OB fifo,
unless it gives up at this very status. -/
def syncsToData (s : System α) : Label → Prop
  | .reader e => s.pc = .syncRead .first → s.waitCount ≤ HZ → ddOBOverrun e.obStatus →
      0 < ddOBSize e.obStatus
  | _ => True

instance (s : System α) (l : Label) : Decidable (syncsToData s l) :=
  match l with
  | .reader e => inferInstanceAs (Decidable (s.pc = .syncRead .first → s.waitCount ≤ HZ →
      ddOBOverrun e.obStatus → 0 < ddOBSize e.obStatus))
  | .call _ _ | .store | .endInterrupt _ => isTrue trivial

structure Flushed (s : System α) : Prop where
  put : s.dma.put = 0
  get : s.dma.get = 0
  remaining : 0 < s.dma.remaining

theorem Flushed.frame (h : Flushed s) (heq : (s'.dma.put, s'.dma.get, s'.dma.remaining) =
    (s.dma.put, s.dma.get, s.dma.remaining)) : Flushed s' := by
  simp only [Prod.mk.injEq] at heq
  obtain ⟨hput, hget, hremaining⟩ := heq
  exact ⟨hput.trans h.put, hget.trans h.get, hremaining ▸ h.remaining⟩

def Approaches (s : System α) : Pc → Prop
  | .start => 0 < s.atomCount
  | .sync .first =>
    Flushed s ∧ (s.dma.overrun = true → 0 < ddOBSize s.dma.obFIFOstatus)
  | .syncRead .first => Flushed s ∧ s.dma.overrun = false
  | .syncCheck .first =>
    Flushed s ∧ s.dma.overrun = false ∧
      (s.waitCount ≤ HZ → ddOBOverrun s.dma.obFIFOstatus → 0 < ddOBSize s.dma.obFIFOstatus)
  | .firstCommand => Flushed s ∧ 0 < ddOBSize s.dma.obFIFOstatus
  | .refresh | .sync .restart | .syncRead .restart | .syncCheck .restart => 0 < s.dma.remaining
  | .restartCommand =>
    0 < s.dma.remaining ∧ (s.dma.overrun = false → 0 < ddOBSize s.dma.obFIFOstatus)
  | _ => True

/-- No command issued so far is empty, and the next one will not be. -/
structure NoEmptyCommand (s : System α) : Prop where
  issued : ∀ c ∈ s.issued, 1 ≤ c.csize
  approaches : Approaches s s.pc

theorem liberaDmaGetDMACCsize_pos {dma : LiberaDma α} (hb : Bounded dma)
    (hrem : 0 < dma.remaining) (hob : 0 < ddOBSize dma.obFIFOstatus)
    (hfree : lenDMAFIFO dma < 4095) : 0 < (liberaDmaGetDMACCsize dma).csize := by
  have hput := hb.put_lt
  rw [liberaDmaGetDMACCsize_csize hb.put_nonneg hput hb.remaining_nonneg hb.remaining_lt]
  unfold liberaDmaFifoAtoms at hput
  omega

theorem dmaNoData_eq_false {dma : LiberaDma α} (hrem : 0 < dma.remaining)
    (h : dmaNoData dma = false) : dma.overrun = false → 0 < ddOBSize dma.obFIFOstatus := by
  intro hover
  have hob := ddOBSize_nonneg dma.obFIFOstatus
  simp only [dmaNoData, hover, Bool.not_false, Bool.and_true, Bool.and_eq_false_iff,
    bne_eq_false_iff_eq, beq_eq_false_iff_ne] at h
  omega

/-! ## The controller -/

theorem liberaDmaInterrupt_issued (s : System α) (cmd : Command) (v : U32) :
    (s.liberaDmaInterrupt cmd v).pc = s.pc ∧
      ∀ c ∈ (s.liberaDmaInterrupt cmd v).issued, c ∈ s.issued ∨ 1 ≤ c.csize := by
  unfold System.liberaDmaInterrupt
  extract_lets dma dma₁ ended s₁
  have hs₁ : s₁.pc = s.pc ∧ s₁.issued = s.issued := by
    simp only [s₁]
    split <;> exact ⟨rfl, rfl⟩
  obtain ⟨hpc, hissued⟩ := hs₁
  split_ifs with hpos
  · refine ⟨hpc, fun c hc ↦ ?_⟩
    rcases List.mem_append.mp hc with hc | hc
    · exact .inl (hissued ▸ hc)
    · obtain rfl := List.mem_singleton.mp hc
      exact .inr hpos
  · exact ⟨hpc, fun c hc ↦ .inl (hissued ▸ hc)⟩

/-- While a command is outstanding the reader is not on the way to another one. -/
theorem approaches_of_outstanding (h : Inv stream s) (hout : s.outstanding ≠ [])
    (hpc : s'.pc = s.pc) : Approaches s' s'.pc := by
  rw [hpc]
  clear hpc
  obtain ⟨hidle, hstart⟩ := h.running hout
  obtain ⟨hbusy, -⟩ := (h.channel hidle hstart).inFlight hout
  have hat := h.atPc
  cases hpc : s.pc <;> rw [hpc] at hat
  case start => exact absurd hpc hstart
  case sync | syncRead | syncCheck | firstCommand | refresh | restartCommand =>
    exact absurd hat.1 (by simp [hbusy])
  all_goals exact trivial

theorem NoEmptyCommand.store (h : NoEmptyCommand s) (hinv : Inv stream s)
    (hs : s.store stream = some s') : NoEmptyCommand s' := by
  obtain ⟨cmd, rest, hout, -, rfl⟩ := store_eq_some hs
  exact ⟨h.issued, approaches_of_outstanding hinv (by simp [hout]) rfl⟩

theorem NoEmptyCommand.endInterrupt {v : U32} (h : NoEmptyCommand s) (hinv : Inv stream s)
    (hs : s.endInterrupt v = some s') : NoEmptyCommand s' := by
  obtain ⟨cmd, rest, hout, -, rfl⟩ := endInterrupt_eq_some hs
  obtain ⟨hpc, hissued⟩ :=
    liberaDmaInterrupt_issued { s with outstanding := rest, stored := 0 } cmd v
  refine ⟨fun c hc ↦ ?_, ?_⟩
  · rcases hissued c hc with hc | hc
    · exact h.issued c hc
    · exact hc
  · exact approaches_of_outstanding hinv (by simp [hout]) hpc

/-! ## The reader -/

theorem NoEmptyCommand.command {pc : Pc} (h : NoEmptyCommand s)
    (hpos : 0 < (liberaDmaGetDMACCsize s.dma).csize) (happ : ∀ r : System α, Approaches r pc) :
    NoEmptyCommand { s with dma := liberaDmaGetDMACCsize s.dma, pc := pc }.liberaDmaCommand where
  issued := by
    intro c hc
    rcases List.mem_append.mp hc with hc | hc
    · exact h.issued c hc
    · obtain rfl := List.mem_singleton.mp hc
      exact hpos
  approaches := happ _

theorem NoEmptyCommand.firstCommand (h : NoEmptyCommand s) (hinv : Inv stream s)
    (hpc : s.pc = .firstCommand) : NoEmptyCommand s.firstCommand := by
  have happ := h.approaches
  rw [hpc] at happ
  obtain ⟨hflush, hob⟩ : Flushed s ∧ 0 < ddOBSize s.dma.obFIFOstatus := happ
  have hlen : lenDMAFIFO s.dma = 0 := by
    rw [lenDMAFIFO_eq, hflush.put, hflush.get]
    rfl
  have hpos := liberaDmaGetDMACCsize_pos hinv.bounded hflush.remaining hob (by omega)
  exact h.command hpos fun _ ↦ trivial

/-- The ring is not full and the OB fifo is not empty when the restart gets as far as the
command. -/
theorem NoEmptyCommand.restartCommand (h : NoEmptyCommand s) (hinv : Inv stream s)
    (hpc : s.pc = .restartCommand) : NoEmptyCommand s.restartCommand := by
  have happ := h.approaches
  rw [hpc] at happ
  obtain ⟨hrem, hob⟩ : 0 < s.dma.remaining ∧
    (s.dma.overrun = false → 0 < ddOBSize s.dma.obFIFOstatus) := happ
  have hlen : lenDMAFIFO (liberaDmaGetDMACCsize s.dma) = lenDMAFIFO s.dma := rfl
  simp only [System.restartCommand]
  split_ifs with hfull hover
  · exact ⟨h.issued, trivial⟩
  · exact ⟨h.issued, trivial⟩
  · refine h.command ?_ fun _ ↦ trivial
    by_contra hzero
    have hfree : ¬liberaDmaFifoAtoms - 1 - lenDMAFIFO s.dma = 0 := fun heq ↦ hfull ⟨hzero, heq⟩
    have hle := lenDMAFIFO_le s.dma
    unfold liberaDmaFifoAtoms at hfree
    exact hzero (liberaDmaGetDMACCsize_pos hinv.bounded hrem (hob (Bool.not_eq_true _ ▸ hover))
      (by omega))

theorem NoEmptyCommand.startUp {v : U32} (h : NoEmptyCommand s) (hinv : Inv stream s)
    (hpc : s.pc = .start) : NoEmptyCommand (s.startUp v) := by
  have happ := h.approaches
  rw [hpc] at happ
  have hcount : 0 < s.atomCount := happ
  have hlong := toLong_of_lt (hinv.count (by simp [hpc]))
  have hrem : 0 < (s.startUp v).dma.remaining := by
    simp only [System.startUp, liberaDmaGetDMACCsize, flushDMAFIFO, hlong]
    omega
  exact ⟨h.issued, ⟨rfl, rfl, hrem⟩, fun hover ↦ absurd hover Bool.false_ne_true⟩

/-- Each turn of the synchronization leaves it with data, or with an overrun that the next status
was read with. -/
theorem NoEmptyCommand.reader {e : ReaderEnv} (h : NoEmptyCommand s) (hinv : Inv stream s)
    (hguard : syncsToData s (.reader e)) (hs : s.reader e = some s') : NoEmptyCommand s' := by
  have happ := h.approaches
  unfold System.reader at hs
  cases hpc : s.pc <;> simp only [hpc] at hs happ
  case idle | returned => simp at hs
  case start =>
    obtain rfl := Option.some.inj hs
    exact h.startUp hinv hpc
  case sync site =>
    split_ifs at hs with hdata
    · obtain rfl := Option.some.inj hs
      have hover : s.dma.overrun = false := by simpa using (Bool.and_eq_true_iff.mp hdata).2
      cases site with
      | first => exact ⟨h.issued, happ.1.frame rfl, hover⟩
      | restart => exact ⟨h.issued, happ⟩
    · have hdata' : dmaNoData s.dma = false := by simpa using hdata
      cases site with
      | first =>
          obtain rfl := Option.some.inj hs
          refine ⟨h.issued, happ.1.frame rfl, ?_⟩
          cases hover : s.dma.overrun with
          | false => exact dmaNoData_eq_false happ.1.remaining hdata' hover
          | true => exact happ.2 hover
      | restart =>
          obtain rfl := Option.some.inj hs
          exact ⟨h.issued, happ, dmaNoData_eq_false happ hdata'⟩
  case syncRead site =>
    obtain rfl := Option.some.inj hs
    cases site with
    | first => exact ⟨h.issued, happ.1.frame rfl, happ.2, hguard hpc⟩
    | restart => exact ⟨h.issued, happ⟩
  case syncCheck site =>
    split_ifs at hs with hwait <;> obtain rfl := Option.some.inj hs
    · exact ⟨h.issued, trivial⟩
    · cases site with
      | first =>
          obtain ⟨hflush, hover, hob⟩ := happ
          refine ⟨h.issued, hflush.frame rfl, fun hover' ↦ hob (not_lt.mp hwait) ?_⟩
          have hor : (s.dma.overrun || ddOBOverrun s.dma.obFIFOstatus) = true := hover'
          rwa [hover, Bool.false_or] at hor
      | restart => exact ⟨h.issued, happ⟩
  case firstCommand =>
    obtain rfl := Option.some.inj hs
    exact h.firstCommand hinv hpc
  case sleepSignal | take | copyTest | copyAtom | yieldSignal =>
    split_ifs at hs <;> obtain rfl := Option.some.inj hs <;> exact ⟨h.issued, trivial⟩
  case advance =>
    obtain rfl := Option.some.inj hs
    exact ⟨h.issued, trivial⟩
  case needsStart =>
    obtain rfl := Option.some.inj hs
    split_ifs with hneeds
    · refine ⟨h.issued, ?_⟩
      have hne : s.dma.remaining ≠ 0 := by simpa using (Bool.and_eq_true_iff.mp hneeds).2
      exact lt_of_le_of_ne hinv.bounded.remaining_nonneg hne.symm
    · exact ⟨h.issued, trivial⟩
  case refresh =>
    obtain rfl := Option.some.inj hs
    exact ⟨h.issued, happ⟩
  case restartCommand =>
    obtain rfl := Option.some.inj hs
    exact h.restartCommand hinv hpc
  case waitTest | sleepTest | yieldTest | loopTest | loopTestEmpty =>
    obtain rfl := Option.some.inj hs
    split_ifs <;> exact ⟨h.issued, trivial⟩
  case finish =>
    obtain rfl := Option.some.inj hs
    simp only [System.finish]
    split_ifs <;> exact ⟨h.issued, trivial⟩

/-! ## Runs -/

theorem NoEmptyCommand.boot (init : ℤ → Cell α) : NoEmptyCommand (boot init) where
  issued := by simp [Dma.boot]
  approaches := trivial

theorem NoEmptyCommand.step {l : Label} (h : NoEmptyCommand s) (hinv : Inv stream s)
    (hcall : callAtRest s l) (hguard : syncsToData s l) (hs : step stream s l = some s') :
    NoEmptyCommand s' := by
  cases l with
  | call n dest =>
      obtain rfl := call_eq_some hs
      exact ⟨by simp, hcall.2.1⟩
  | reader e => exact h.reader hinv hguard hs
  | store => exact h.store hinv hs
  | endInterrupt v => exact h.endInterrupt hinv hs

/-- In every run whose transfers find no command of an aborted one, no command is empty as long as
the synchronization at the start of a transfer is not ended by an overrun of an empty OB fifo. -/
theorem commands_nonempty {init : ℤ → Cell α} {ls : List Label}
    (hrun : Steps (step stream) (fun s l ↦ callAtRest s l ∧ syncsToData s l) (boot init) ls s) :
    ∀ c ∈ s.issued, 1 ≤ c.csize := by
  have hall : IsolationInv stream s ∧ NoEmptyCommand s := by
    refine hrun.invariant (P := fun s ↦ IsolationInv stream s ∧ NoEmptyCommand s)
      (fun s l s' h hok hs ↦ ?_) ⟨.boot init, .boot init⟩
    exact ⟨h.1.step hok.1 hs, h.2.step h.1.inv hok.1 hok.2 hs⟩
  exact hall.2.issued

theorem commands_nonempty_twoInTurn :
    ∃ s : System ℕ, s.issued.length = 1 ∧ s.transfer = 2 ∧ ∀ c ∈ s.issued, 1 ≤ c.csize :=
  have hrun := exec_get_steps (step id) (fun s l ↦ callAtRest s l ∧ syncsToData s l) bootCounting
    twoInTurn (by decide)
  ⟨_, by decide, by decide, commands_nonempty hrun⟩

/-- An overrun of an empty OB fifo always leads to an empty command: four steps of the reader, none
of which an interrupt can come between. -/
theorem empty_command {e : ReaderEnv} (hinv : Inv stream s) (hpc : s.pc = .syncRead .first)
    (hwait : s.waitCount ≤ HZ) (hover : ddOBOverrun e.obStatus) (hob : ddOBSize e.obStatus = 0) :
    ∃ t, Steps (step stream) noCall s [.reader e, .reader {}, .reader {}, .reader {}] t ∧
      ∃ c ∈ t.issued, c.csize = 0 := by
  set s₁ : System α :=
    { s with dma := { s.dma with obFIFOstatus := e.obStatus }, pc := .syncCheck .first }
  set s₂ : System α :=
    { s₁ with
      dma := { s₁.dma with overrun := true }
      waitCount := s.waitCount + 1
      pc := .sync .first }
  have hread : s.reader e = some s₁ := by simp [System.reader, hpc, s₁]
  have hcheck : s₁.reader {} = some s₂ := by
    simp [System.reader, s₁, s₂, System.goto, hover, not_lt.mpr hwait]
  have hsync : s₂.reader {} = some (s₂.goto .firstCommand) := by
    simp [System.reader, s₂, dmaNoData]
  have hcommand :
      (s₂.goto .firstCommand).reader {} = some (s₂.goto .firstCommand).firstCommand := rfl
  have hb := hinv.bounded
  have hcsize : (liberaDmaGetDMACCsize s₂.dma).csize = 0 := by
    have hfit := @liberaDmaGetDMACCsize_fits _ s₂.dma hb.put_nonneg hb.put_lt
      hb.remaining_nonneg hb.remaining_lt
    have hle := hfit.le_obSize
    have hnonneg := hfit.nonneg
    change _ ≤ ddOBSize e.obStatus at hle
    omega
  exact ⟨_, .cons trivial hread (.cons trivial hcheck (.cons trivial hsync
    (.cons trivial hcommand (.nil _)))), _, List.mem_append_right _ (List.mem_singleton_self _),
    hcsize⟩

/-- The first status shows an empty OB fifo, and the second one an overrun as well. -/
def overrunEmpty : List Label :=
  [.call 1 .kernel, .reader {}, .reader {}, .reader { obStatus := 0x40000000 }, .reader {},
    .reader {}, .reader {}]

theorem commands_nonempty_not_overrun :
    ∃ s, Steps (step id) callAtRest bootCounting overrunEmpty s ∧ ∃ c ∈ s.issued, c.csize = 0 :=
  ⟨_, exec_get_steps (step id) callAtRest bootCounting overrunEmpty (by decide),
    ⟨0, 1, 0, 0, 0⟩, by decide, rfl⟩

end LiberaBase.Dma
