import LiberaBase.Dma.Reader

/-!
# Safety and integrity of a transfer

A transfer that starts with the controller at rest stays within its bounds under
every interleaving of the end interrupts, and hands its caller a prefix of the
OB-fifo stream.
-/

namespace LiberaBase.Dma

open RingWindow Runs

variable {α : Type*} {stream : ℕ → α} {s s' : System α}

/-! ## What a step of the reader does to the shared structure -/

/-- The effects the reader's steps have, without the conditions they have them
under. -/
inductive Effect (s : System α) : System α → Prop
  | locals (o : U32) (b a : Bool) (pc : Pc) (n f j w : ℕ) :
      Effect s (s.withLocals o b a pc n f j w)
  | startUp (v : U32) (hpc : s.pc = .start) : Effect s (s.startUp v)
  | sized (pc : Pc) : Effect s { s with dma := liberaDmaGetDMACCsize s.dma, pc := pc }
  | command (pc : Pc) :
      Effect s { s with dma := liberaDmaGetDMACCsize s.dma, pc := pc }.liberaDmaCommand
  | copyAtom : Effect s { s with
      copied := s.copied ++ [s.dma.buf s.dma.get]
      dma := { s.dma with written := s.dma.written + 1 }
      pc := .advance }
  | advance : Effect s { s with
      dma := { s.dma with get := (s.dma.get + 1) % liberaDmaFifoAtoms }
      i := s.i + 1
      pc := .copyTest }

theorem reader_effect {e : ReaderEnv} (hs : s.reader e = some s') : Effect s s' := by
  unfold System.reader at hs
  cases hpc : s.pc <;> simp only [hpc] at hs
  case idle | returned => simp at hs
  case start =>
    obtain rfl := Option.some.inj hs
    exact .startUp _ hpc
  case sync site =>
    split_ifs at hs
    · obtain rfl := Option.some.inj hs
      exact .locals ..
    · cases site <;> obtain rfl := Option.some.inj hs <;> exact .locals ..
  case firstCommand =>
    obtain rfl := Option.some.inj hs
    exact .command _
  case copyAtom =>
    split_ifs at hs <;> obtain rfl := Option.some.inj hs
    · exact .locals ..
    · exact .copyAtom
  case advance =>
    obtain rfl := Option.some.inj hs
    exact .advance
  case restartCommand =>
    obtain rfl := Option.some.inj hs
    simp only [System.restartCommand]
    split_ifs
    · exact .sized _
    · exact .sized _
    · exact .command _
  case finish =>
    obtain rfl := Option.some.inj hs
    simp only [System.finish]
    split_ifs <;> exact .locals ..
  case syncCheck | sleepSignal | take | copyTest | yieldSignal =>
    split_ifs at hs <;> obtain rfl := Option.some.inj hs <;> exact .locals ..
  all_goals
    obtain rfl := Option.some.inj hs
    exact .locals ..

/-! ## All runs of the driver -/

/-- What the callers promise of `atom_count`: both `libera_dd_read_specific` and
`libera_acq_pm` ask for at least one atom, and for far fewer than a `long` holds. -/
def callOk (_ : System α) : Label → Prop
  | .call n _ => 1 ≤ n ∧ n < 2 ^ 31
  | _ => True

instance (s : System α) (l : Label) : Decidable (callOk s l) :=
  match l with
  | .call n _ => inferInstanceAs (Decidable (1 ≤ n ∧ n < 2 ^ 31))
  | .reader _ | .store | .endInterrupt _ => isTrue trivial

/-- What holds of the driver whatever the transfers before left behind. -/
structure Ranges (s : System α) : Prop where
  bounded : Bounded s.dma
  stored : s.outstanding = [] → s.stored = 0
  count : s.atomCount < 2 ^ 31

theorem liberaDmaFifoAtoms_pos : 0 < liberaDmaFifoAtoms := by decide

theorem Ranges.boot (init : ℤ → Cell α) : Ranges (boot init) where
  bounded := ⟨le_rfl, liberaDmaFifoAtoms_pos, le_rfl, liberaDmaFifoAtoms_pos, le_rfl,
    Int.pow_pos (by decide), le_rfl, le_rfl⟩
  stored := fun _ ↦ rfl
  count := Nat.pow_pos (by decide)

theorem Bounded.getCsize_self {dma : LiberaDma α} (h : Bounded dma) :
    Bounded (liberaDmaGetDMACCsize dma) :=
  .getCsize h.put_nonneg h.put_lt h.get_nonneg h.get_lt h.remaining_nonneg h.remaining_lt

theorem Ranges.command (h : Ranges s) : Ranges s.liberaDmaCommand where
  bounded := h.bounded.frame rfl
  stored := by simp [System.liberaDmaCommand]
  count := h.count

theorem Ranges.startUp {v : U32} (h : Ranges s) : Ranges (s.startUp v) where
  bounded := by
    have hlong := toLong_of_lt h.count
    have hcount := h.count
    refine Bounded.getCsize le_rfl liberaDmaFifoAtoms_pos le_rfl liberaDmaFifoAtoms_pos ?_ ?_
    all_goals simp only [flushDMAFIFO, hlong]; omega
  stored := h.stored
  count := h.count

theorem Ranges.reader {e : ReaderEnv} (h : Ranges s) (hs : s.reader e = some s') : Ranges s' := by
  have hb := h.bounded
  cases reader_effect hs
  case startUp => exact h.startUp
  case sized => exact ⟨hb.getCsize_self, h.stored, h.count⟩
  case command => exact Ranges.command ⟨hb.getCsize_self, h.stored, h.count⟩
  case locals =>
    exact ⟨hb.frame rfl, h.stored, h.count⟩
  case copyAtom =>
    exact ⟨hb.frame rfl, h.stored, h.count⟩
  case advance =>
    exact ⟨⟨hb.put_nonneg, hb.put_lt, Int.emod_nonneg _ liberaDmaFifoAtoms_pos.ne',
      Int.emod_lt_of_pos _ liberaDmaFifoAtoms_pos, hb.remaining_nonneg, hb.remaining_lt,
      hb.csize_nonneg, hb.csize_le⟩, h.stored, h.count⟩

theorem Ranges.endInterrupt {v : U32} (h : Ranges s) (hs : s.endInterrupt v = some s') :
    Ranges s' := by
  obtain ⟨cmd, rest, hout, hfull, rfl⟩ := endInterrupt_eq_some hs
  have hb := h.bounded
  have h₁ := hb.csize_le
  have h₂ := hb.csize_nonneg
  have h₃ := hb.remaining_lt
  unfold System.liberaDmaInterrupt
  simp only
  split
  case h_1 dma' heq =>
    have hdma : Bounded (liberaDmaGetDMACCsize dma') := by
      unfold putToDMAFIFO at heq
      simp only at heq
      split_ifs at heq
      obtain rfl := Option.some.inj heq
      refine Bounded.getCsize (Int.emod_nonneg _ liberaDmaFifoAtoms_pos.ne')
        (Int.emod_lt_of_pos _ liberaDmaFifoAtoms_pos) hb.get_nonneg hb.get_lt ?_ ?_
      all_goals simp only; omega
    split_ifs
    · exact Ranges.command ⟨hdma, fun _ ↦ rfl, h.count⟩
    · exact ⟨hdma.frame rfl, fun _ ↦ rfl, h.count⟩
  case h_2 heq =>
    have hdma : Bounded (liberaDmaGetDMACCsize { s.dma with
        obFIFOstatus := v
        overrun := s.dma.overrun || ddOBOverrun v
        remaining := s.dma.remaining - s.dma.csize }) := by
      refine Bounded.getCsize hb.put_nonneg hb.put_lt hb.get_nonneg hb.get_lt ?_ ?_
      all_goals simp only; omega
    split_ifs
    · exact Ranges.command ⟨hdma, fun _ ↦ rfl, h.count⟩
    · exact ⟨hdma.frame rfl, fun _ ↦ rfl, h.count⟩

theorem Ranges.step {l : Label} (h : Ranges s) (hok : callOk s l)
    (hs : step stream s l = some s') : Ranges s' := by
  cases l with
  | call n dest =>
      have hb := h.bounded
      simp only [Dma.step, System.call] at hs
      split at hs <;> try cases hs
      all_goals exact ⟨hb, h.stored, hok.2⟩
  | reader e => exact h.reader hs
  | store =>
      have hb := h.bounded
      obtain ⟨cmd, rest, hout, hlt, rfl⟩ := store_eq_some hs
      exact ⟨hb.frame rfl, by simp [hout], h.count⟩
  | endInterrupt v => exact h.endInterrupt hs

/-! ## One transfer -/

theorem call_eq_some {n : ℕ} {dest : Dest} (hs : s.call n dest = some s') :
    s' = { s with
      pc := .start, atomCount := n, dest := dest, obAtoms := 0, copied := []
      transfer := s.transfer + 1, base := s.taken, issued := [], overflows := [] } := by
  unfold System.call at hs
  split at hs <;> first | exact (Option.some.inj hs).symm | cases hs

theorem Inv.call {n : ℕ} {dest : Dest} (hb : Bounded s.dma) (hstored : s.stored = 0)
    (hout : s.outstanding = []) (hn : n < 2 ^ 31) (hs : s.call n dest = some s') :
    Inv stream s' := by
  obtain rfl := call_eq_some hs
  exact ⟨hb, fun _ ↦ hn, fun _ h ↦ absurd rfl h, hout, hstored, rfl, rfl, rfl, rfl, rfl⟩

def noCall (_ : System α) : Label → Prop
  | .call _ _ => False
  | _ => True

instance (s : System α) (l : Label) : Decidable (noCall s l) :=
  match l with
  | .call _ _ => isFalse id
  | .reader _ | .store | .endInterrupt _ => isTrue trivial

theorem liberaDmaInterrupt_frame (s : System α) (cmd : Command) (v : U32) :
    (s.liberaDmaInterrupt cmd v).base = s.base ∧
      (s.liberaDmaInterrupt cmd v).atomCount = s.atomCount := by
  unfold System.liberaDmaInterrupt System.liberaDmaCommand
  simp only
  split <;> split_ifs <;> exact ⟨rfl, rfl⟩

theorem step_frame {l : Label} (hl : noCall s l) (hs : step stream s l = some s') :
    s'.base = s.base ∧ s'.atomCount = s.atomCount := by
  cases l with
  | call n dest => exact hl.elim
  | reader e => cases reader_effect hs <;> exact ⟨rfl, rfl⟩
  | store =>
      obtain ⟨_, _, _, _, rfl⟩ := store_eq_some hs
      exact ⟨rfl, rfl⟩
  | endInterrupt v =>
      obtain ⟨cmd, _, _, _, rfl⟩ := endInterrupt_eq_some hs
      exact liberaDmaInterrupt_frame _ cmd v

theorem Inv.step {l : Label} (h : Inv stream s) (hl : noCall s l)
    (hs : step stream s l = some s') : Inv stream s' := by
  cases l with
  | call n dest => exact hl.elim
  | reader e => exact h.reader hs
  | store => exact h.store hs
  | endInterrupt v => exact h.endInterrupt hs

/-- What a caller of `libera_dd_transfer_OBfifo_DMA` may rely on in every state
of a transfer of `atomCount` atoms that found `base` atoms of the stream taken. -/
structure SafeTransfer (stream : ℕ → α) (base atomCount : ℕ) (s : System α) : Prop where
  put_mem : 0 ≤ s.dma.put ∧ s.dma.put < liberaDmaFifoAtoms
  get_mem : 0 ≤ s.dma.get ∧ s.dma.get < liberaDmaFifoAtoms
  remaining_nonneg : 0 ≤ s.dma.remaining
  issued : ∀ c ∈ s.issued, CommandFits c.csize c.remaining c.obSize c.put c.len
  /-- the slots still to be stored to hold no atom the reader has not consumed -/
  untouched : ∀ cmd ∈ s.outstanding, ∀ k : ℕ, s.stored ≤ k → (k : ℤ) < cmd.csize →
    ∀ j < unread s, (s.dma.get + j) % liberaDmaFifoAtoms ≠ cmd.target + k
  overflows : ∀ c ∈ s.overflows, c = 0
  copied : s.copied.map Cell.atom = (List.range s.copied.length).map fun j ↦ stream (base + j)
  returned : ∀ ret, s.pc = .returned ret → 0 ≤ ret →
    ret = s.copied.length ∧ (s.dma.overrun = false → ret = atomCount)

theorem InFlight.untouched (hb : Bounded s.dma) (h : InFlight s) {k j : ℕ}
    (hk : s.stored ≤ k) (hkc : (k : ℤ) < s.dma.csize) (hj : j < unread s) :
    (s.dma.get + j) % 4096 ≠ s.dma.put + k := by
  have hput := hb.put_nonneg
  have htail := h.le_tail
  have hfree := h.le_free
  have hunread := unread_eq s
  have hoff := put_offset (s := s) (k := k) (by omega) (by omega)
  exact ne_slot_of_offset (by decide) (Int.emod_eq_of_lt (by omega) (by omega))
    (by rw [hoff]; omega)

theorem Fresh.safe {n : ℕ} (h : Fresh s) (hb : Bounded s.dma)
    (hpc : ∀ ret, s.pc ≠ .returned ret) : SafeTransfer stream s.base n s where
  put_mem := ⟨hb.put_nonneg, hb.put_lt⟩
  get_mem := ⟨hb.get_nonneg, hb.get_lt⟩
  remaining_nonneg := hb.remaining_nonneg
  issued := by simp [h.issued]
  untouched := by simp [h.outstanding]
  overflows := by simp [h.overflows]
  copied := by simp [h.copied]
  returned := fun ret hret ↦ absurd hret (hpc ret)

theorem Inv.safe (h : Inv stream s) : SafeTransfer stream s.base s.atomCount s := by
  have hb := h.bounded
  have hat := h.atPc
  by_cases hidle : s.pc = .idle
  · rw [hidle] at hat
    exact Fresh.safe hat hb (by simp [hidle])
  by_cases hstart : s.pc = .start
  · rw [hstart] at hat
    exact Fresh.safe hat hb (by simp [hstart])
  have hchan := h.channel hidle hstart
  refine ⟨⟨hb.put_nonneg, hb.put_lt⟩, ⟨hb.get_nonneg, hb.get_lt⟩, hb.remaining_nonneg,
    hchan.issued, ?_, hchan.overflows, ?_, ?_⟩
  · intro cmd hcmd k hk hkc j hj
    obtain ⟨-, hfly⟩ := hchan.inFlight (List.ne_nil_of_mem hcmd)
    obtain rfl : cmd = ⟨s.dma.put, s.dma.csize, s.transfer⟩ := by
      simpa [hfly.outstanding] using hcmd
    exact hfly.untouched hb hk hkc hj
  · rw [hchan.copied_eq, length_segment]
    exact segment_atoms ..
  · intro ret hpc hret
    rw [hpc] at hat
    exact hat hret

/-- **Safety and integrity of a transfer.**  In whatever state the runs before
left the driver, a transfer called while no command is outstanding is safe in
every state it reaches, under every interleaving with the controller, up to and
including the state in which it has returned. -/
theorem transfer_safe {init : ℤ → Cell α} {before during : List Label} {s₀ s₁ : System α}
    {n : ℕ} {dest : Dest} (hbefore : Steps (step stream) callOk (boot init) before s₀)
    (hquiet : s₀.outstanding = []) (hn : 1 ≤ n ∧ n < 2 ^ 31)
    (hcall : step stream s₀ (.call n dest) = some s₁)
    (hduring : Steps (step stream) noCall s₁ during s) :
    SafeTransfer stream s₀.taken n s := by
  have hranges : Ranges s₀ := hbefore.invariant (fun _ _ _ h hok hs ↦ h.step hok hs) (.boot init)
  have hstart : Inv stream s₁ :=
    .call hranges.bounded (hranges.stored hquiet) hquiet hn.2 hcall
  have hframe : s₁.base = s₀.taken ∧ s₁.atomCount = n := by
    obtain rfl := call_eq_some hcall
    exact ⟨rfl, rfl⟩
  have hall : Inv stream s ∧ s.base = s₀.taken ∧ s.atomCount = n := by
    refine hduring.invariant (P := fun s ↦ Inv stream s ∧ s.base = s₀.taken ∧ s.atomCount = n)
      (fun t l t' h hl hs ↦ ?_) ⟨hstart, hframe⟩
    obtain ⟨hbase, hcount⟩ := step_frame hl hs
    exact ⟨h.1.step hl hs, hbase.trans h.2.1, hcount.trans h.2.2⟩
  obtain ⟨hinv, hbase, hcount⟩ := hall
  rw [← hbase, ← hcount]
  exact hinv.safe

/-- A stream that numbers its atoms, and an empty ring. -/
def bootCounting : System ℕ := boot fun _ ↦ ⟨0, 0⟩

/-- A transfer of one atom without delays. -/
def oneAtom : List Label :=
  [.reader { obStatus := 1 }, .reader {}, .reader {}, .store, .endInterrupt 0, .reader {},
    .reader {}, .reader {}, .reader {}, .reader {}, .reader {}, .reader {}, .reader {}, .reader {},
    .reader {}, .reader {}]

def readers (n : ℕ) : List Label := List.replicate n (.reader {})

/-- A transfer of five atoms.  The second command is issued by the end interrupt of the first, and
the third by the reader, when the OB-fifo has been empty. -/
def threeCommands : List Label :=
  List.flatten [[.reader { obStatus := 2 }], readers 2, [.store], readers 2,
    [.store, .endInterrupt 2], readers 6, [.store], readers 4, [.store], readers 2,
    [.endInterrupt 0], readers 12, [.reader { obStatus := 1 }], readers 4, [.store], readers 1,
    [.endInterrupt 0], readers 12]

theorem transfer_safe_threeCommands :
    ∃ s₁ s, Steps (step id) noCall s₁ threeCommands s ∧ s.pc = .returned 5 ∧
      s.issued.map (·.csize) = [2, 2, 1] ∧ SafeTransfer id 0 5 s := by
  have hcall : step id bootCounting (.call 5 .user) =
      some { bootCounting with pc := .start, atomCount := 5, dest := .user, transfer := 1 } := rfl
  have hrun := exec_get_steps (step id) noCall
    { bootCounting with pc := .start, atomCount := 5, dest := .user, transfer := 1 } threeCommands
    (by decide +kernel)
  exact ⟨_, _, hrun, by decide +kernel, by decide +kernel,
    transfer_safe (.nil _) rfl (by decide) hcall hrun⟩

end LiberaBase.Dma
