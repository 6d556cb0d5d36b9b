import LiberaBase.Dma.Invariant

/-!
# Every step keeps the invariant of a transfer

The controller only lets the ring grow as the reader sees it, and it works only
while a command is outstanding; so of the reader's control points it disturbs
none.  The reader's steps are then taken one control point at a time.
-/

namespace LiberaBase.Dma

open RingWindow Runs

variable {α : Type*} {stream : ℕ → α} {s s' : System α}

/-! ## Steps of the controller -/

/-- What the controller may change as far as the reader's control points go: the
ring holds more, what has been consumed stays the same, and an overrun once seen
stays seen. -/
structure Grows (s s' : System α) : Prop where
  atomCount : s'.atomCount = s.atomCount
  obAtoms : s'.obAtoms = s.obAtoms
  fifoAtoms : s'.fifoAtoms = s.fifoAtoms
  i : s'.i = s.i
  base : s'.base = s.base
  copied : s'.copied = s.copied
  written : s'.dma.written = s.dma.written
  len_le : lenDMAFIFO s.dma ≤ lenDMAFIFO s'.dma
  consumed : s'.taken + unread s = s.taken + unread s'
  overrun : s'.dma.overrun = false → s.dma.overrun = false

theorem Counted.grows (h : Counted s) (g : Grows s s') : Counted s' where
  consumed := by
    have := h.consumed
    have := g.consumed
    rw [g.base, g.obAtoms]
    omega
  written_le := by rw [g.written, g.obAtoms]; exact h.written_le
  written_eq := fun hover ↦ by rw [g.written, g.obAtoms]; exact h.written_eq (g.overrun hover)

theorem Copying.grows (h : Copying s) (g : Grows s s') : Copying s' where
  consumed := by
    have := h.consumed
    have := g.consumed
    rw [g.base, g.obAtoms]
    omega
  i_lt := by rw [g.i, g.fifoAtoms]; exact h.i_lt
  left_le := by rw [g.i, g.fifoAtoms]; exact h.left_le.trans g.len_le

theorem AtPc.grows {pc : Pc} (h : AtPc s pc) (hout : s.outstanding ≠ [])
    (hbusy : s.dma.dmacTransfer = true) (g : Grows s s') : AtPc s' pc := by
  cases pc
  case idle | start => exact absurd (Fresh.outstanding h) hout
  case sync | syncRead | syncCheck | firstCommand | refresh | restartCommand =>
    exact absurd h.1 (by simp [hbusy])
  case copyTest =>
    obtain ⟨hcount, hi, hleft⟩ := h
    exact ⟨hcount.grows g, by rw [g.i, g.fifoAtoms]; exact hi,
      by rw [g.i, g.fifoAtoms]; exact hleft.trans g.len_le⟩
  case copyAtom => exact ⟨h.1.grows g, by rw [g.written, g.obAtoms]; exact h.2⟩
  case advance =>
    obtain ⟨hcopy, hle, heq⟩ := h
    exact ⟨hcopy.grows g, by rw [g.written, g.obAtoms]; exact hle,
      fun hover ↦ by rw [g.written, g.obAtoms]; exact heq (g.overrun hover)⟩
  case returned ret =>
    intro hret
    obtain ⟨hlen, hall⟩ := h hret
    exact ⟨by rw [g.copied]; exact hlen,
      fun hover ↦ by rw [g.atomCount]; exact hall (g.overrun hover)⟩
  all_goals exact Counted.grows h g

/-- A step of the controller keeps the invariant if it keeps the ranges and the
channel. -/
theorem Inv.grows (h : Inv stream s) (hout : s.outstanding ≠ []) (hpc : s'.pc = s.pc)
    (hb : Bounded s'.dma) (hchan : Channel stream s → Channel stream s')
    (g : Channel stream s → Grows s s') : Inv stream s' := by
  obtain ⟨hidle, hstart⟩ := h.running hout
  have hs := h.channel hidle hstart
  have hgrow := g hs
  refine ⟨hb, ?_, fun _ _ ↦ hchan hs, ?_⟩
  · rw [hpc, hgrow.atomCount]
    exact h.count
  · rw [hpc]
    exact h.atPc.grows hout (hs.inFlight hout).1 hgrow

theorem Inv.store (h : Inv stream s) (hs : s.store stream = some s') : Inv stream s' := by
  obtain ⟨cmd, rest, hout, hlt, rfl⟩ := store_eq_some hs
  refine h.grows (by simp [hout]) rfl ?_ (fun hchan ↦ hchan.store h.bounded hs) fun _ ↦ ?_
  · exact h.bounded.frame rfl
  · refine ⟨rfl, rfl, rfl, rfl, rfl, rfl, rfl, le_rfl, ?_, id⟩
    simp only [unread, lenDMAFIFO]
    omega

theorem Grows.retire (cmd : Command) (v : U32) (lost : List ℤ) (hcsize : 0 ≤ s.dma.csize)
    (hfree : s.dma.csize ≤ 4095 - lenDMAFIFO s.dma) (hfull : (s.stored : ℤ) = s.dma.csize) :
    Grows s (retire s cmd v lost) := by
  refine ⟨rfl, rfl, rfl, rfl, rfl, rfl, rfl, ?_, ?_, ?_⟩
  · rw [lenDMAFIFO_retire cmd v lost hcsize hfree]
    omega
  · rw [unread_retire cmd v lost hcsize hfree hfull]
    rfl
  · simp only [Dma.retire, liberaDmaGetDMACCsize, Bool.or_eq_false_iff]
    exact fun hover ↦ hover.1

theorem Inv.endInterrupt {v : U32} (h : Inv stream s) (hs : s.endInterrupt v = some s') :
    Inv stream s' := by
  obtain ⟨cmd, rest, hout, hfull, rfl⟩ := endInterrupt_eq_some hs
  have hne : s.outstanding ≠ [] := by simp [hout]
  obtain ⟨hidle, hstart⟩ := h.running hne
  have hchan := h.channel hidle hstart
  obtain ⟨-, hfly⟩ := hchan.inFlight hne
  obtain ⟨rfl, rfl⟩ : cmd = ⟨s.dma.put, s.dma.csize, s.transfer⟩ ∧ rest = [] := by
    simpa [hout] using hfly.outstanding
  simp only at hfull
  obtain ⟨lost, hlost, heq⟩ :=
    liberaDmaInterrupt_eq ⟨s.dma.put, s.dma.csize, s.transfer⟩ v h.bounded hfly.le_free
  set r := retire s ⟨s.dma.put, s.dma.csize, s.transfer⟩ v lost with hr
  have hb : Bounded r.dma := h.bounded.retire
  have hrchan : Channel stream r := hchan.retire h.bounded hfly hfull hlost
  have hgrow : Grows s r := Grows.retire _ v lost h.bounded.csize_nonneg hfly.le_free hfull
  rw [heq]
  split_ifs with hpos
  · refine h.grows hne rfl ?_ (fun _ ↦ hrchan.command rfl ?_) fun _ ↦ ?_
    · exact hb.frame rfl
    · exact liberaDmaGetDMACCsize_fits hb.put_nonneg hb.put_lt hb.remaining_nonneg hb.remaining_lt
    · exact ⟨rfl, rfl, rfl, rfl, rfl, rfl, rfl, hgrow.len_le, hgrow.consumed, hgrow.overrun⟩
  · exact h.grows hne rfl hb (fun _ ↦ hrchan) fun _ ↦ hgrow

/-! ## Steps of the reader -/

/-- `s` with other local variables of the reader and other flags of the transfer;
the ring and the controller are as before. -/
def System.withLocals (s : System α) (obFIFOstatus : U32) (overrun aborting : Bool) (pc : Pc)
    (obAtoms fifoAtoms i waitCount : ℕ) : System α :=
  { s with
    dma := { s.dma with obFIFOstatus := obFIFOstatus, overrun := overrun, aborting := aborting }
    pc := pc, obAtoms := obAtoms, fifoAtoms := fifoAtoms, i := i, waitCount := waitCount }

section Locals

variable {o : U32} {b a : Bool} {pc : Pc} {n f j w : ℕ}

theorem Channel.withLocals (h : Channel stream s) :
    Channel stream (s.withLocals o b a pc n f j w) where
  quiet := h.quiet
  busy := fun hbusy ↦
    have hfly := h.busy hbusy
    ⟨hfly.outstanding, hfly.stored_le, hfly.le_tail, hfly.le_free⟩
  total := h.total
  unread_le := h.unread_le
  window := h.window
  issued := h.issued
  overflows := h.overflows
  written_eq := h.written_eq
  copied_eq := h.copied_eq

theorem Counted.withLocals (h : Counted s) (hover : b = false → s.dma.overrun = false) :
    Counted (s.withLocals o b a pc s.obAtoms f j w) :=
  ⟨h.consumed, h.written_le, fun hb ↦ h.written_eq (hover hb)⟩

theorem Inv.withLocals (h : Inv stream s) (hidle : s.pc ≠ .idle) (hstart : s.pc ≠ .start)
    (hat : AtPc (s.withLocals o b a pc n f j w) pc) :
    Inv stream (s.withLocals o b a pc n f j w) where
  bounded := h.bounded.frame rfl
  count := fun _ ↦ h.count hidle
  channel := fun _ _ ↦ (h.channel hidle hstart).withLocals
  atPc := hat

end Locals

theorem Channel.obAtoms_add (hchan : Channel stream s)
    (hconsumed : s.taken = s.base + s.obAtoms + unread s) :
    (s.obAtoms : ℤ) + lenDMAFIFO s.dma + s.dma.remaining = s.atomCount := by
  have := hchan.total
  have := unread_eq s
  omega

theorem Inv.startUp {v : U32} (h : Inv stream s) (hpc : s.pc = .start) :
    Inv stream (s.startUp v) := by
  have hat := h.atPc
  rw [hpc] at hat
  obtain ⟨hout, hstored, hcopied, hissued, hoverflows, hatoms, htaken⟩ : Fresh s := hat
  have hcount := h.count (by simp [hpc])
  have hlong := toLong_of_lt hcount
  have hunread : unread (s.startUp v) = 0 := by
    simp [unread, System.startUp, liberaDmaGetDMACCsize, flushDMAFIFO, lenDMAFIFO, hstored]
  have hroom : (0 : ℤ) < liberaDmaFifoAtoms := by decide
  refine ⟨?_, fun _ ↦ hcount, fun _ _ ↦ ?_, rfl, ?_⟩
  · refine Bounded.getCsize le_rfl hroom le_rfl hroom ?_ ?_
    all_goals simp only [flushDMAFIFO, hlong]; omega
  · constructor
    case quiet => exact fun _ ↦ ⟨hout, hstored⟩
    case busy => simp [System.startUp, liberaDmaGetDMACCsize, flushDMAFIFO]
    case total =>
      simp [System.startUp, liberaDmaGetDMACCsize, flushDMAFIFO, hlong, htaken, hstored]
    case unread_le =>
      rw [hunread]
      exact htaken.ge
    case window =>
      rw [hunread]
      exact holds_nil _ _ _
    case issued => simp [System.startUp, hissued]
    case overflows => simp [System.startUp, hoverflows]
    case written_eq => simp [System.startUp, liberaDmaGetDMACCsize, flushDMAFIFO, hcopied]
    case copied_eq => simp [System.startUp, hcopied, segment]
  · refine ⟨?_, ?_, fun _ ↦ ?_⟩
    · rw [hunread]
      simp [System.startUp, htaken, hatoms]
    · simp [System.startUp, liberaDmaGetDMACCsize, flushDMAFIFO]
    · simp [System.startUp, liberaDmaGetDMACCsize, flushDMAFIFO, hatoms]

theorem Channel.getCsize (h : Channel stream s) (hidle : s.dma.dmacTransfer = false) (pc : Pc) :
    Channel stream { s with dma := liberaDmaGetDMACCsize s.dma, pc := pc } where
  quiet := h.quiet
  busy := fun hbusy ↦ absurd hidle (by simpa [liberaDmaGetDMACCsize] using hbusy)
  total := h.total
  unread_le := h.unread_le
  window := h.window
  issued := h.issued
  overflows := h.overflows
  written_eq := h.written_eq
  copied_eq := h.copied_eq

theorem Inv.getCsize {pc : Pc} (h : Inv stream s) (hidle : s.pc ≠ .idle) (hstart : s.pc ≠ .start)
    (hquiet : s.dma.dmacTransfer = false)
    (hat : AtPc { s with dma := liberaDmaGetDMACCsize s.dma, pc := pc } pc) :
    Inv stream { s with dma := liberaDmaGetDMACCsize s.dma, pc := pc } where
  bounded := Bounded.getCsize h.bounded.put_nonneg h.bounded.put_lt h.bounded.get_nonneg
    h.bounded.get_lt h.bounded.remaining_nonneg h.bounded.remaining_lt
  count := fun _ ↦ h.count hidle
  channel := fun _ _ ↦ (h.channel hidle hstart).getCsize hquiet pc
  atPc := hat

theorem Inv.command {pc : Pc} (h : Inv stream s) (hidle : s.pc ≠ .idle) (hstart : s.pc ≠ .start)
    (hquiet : s.dma.dmacTransfer = false)
    (hat : ∀ r : System α, Counted r → AtPc r pc) (hcount : Counted s) :
    Inv stream { s with dma := liberaDmaGetDMACCsize s.dma, pc := pc }.liberaDmaCommand where
  bounded :=
    have hb := Bounded.getCsize h.bounded.put_nonneg h.bounded.put_lt h.bounded.get_nonneg
      h.bounded.get_lt h.bounded.remaining_nonneg h.bounded.remaining_lt
    hb.frame rfl
  count := fun _ ↦ h.count hidle
  channel := fun _ _ ↦ ((h.channel hidle hstart).getCsize hquiet pc).command hquiet
    (liberaDmaGetDMACCsize_fits h.bounded.put_nonneg h.bounded.put_lt h.bounded.remaining_nonneg
      h.bounded.remaining_lt)
  atPc := hat _ ⟨hcount.consumed, hcount.written_le, hcount.written_eq⟩

theorem Inv.restartCommand (h : Inv stream s) (hpc : s.pc = .restartCommand) :
    Inv stream s.restartCommand := by
  have hat := h.atPc
  rw [hpc] at hat
  obtain ⟨hquiet, hcount⟩ : s.dma.dmacTransfer = false ∧ Counted s := hat
  have hidle : s.pc ≠ .idle := by simp [hpc]
  have hstart : s.pc ≠ .start := by simp [hpc]
  have hcount' (pc : Pc) :
      Counted { s with dma := liberaDmaGetDMACCsize s.dma, pc := pc } :=
    ⟨hcount.consumed, hcount.written_le, hcount.written_eq⟩
  simp only [System.restartCommand]
  split_ifs
  · exact h.getCsize hidle hstart hquiet (hcount' .loopTest)
  · exact h.getCsize hidle hstart hquiet (hcount' .finish)
  · exact h.command hidle hstart hquiet (fun _ hr ↦ hr) hcount

theorem Inv.copyAtom (h : Inv stream s) (hpc : s.pc = .copyAtom) :
    Inv stream { s with
      copied := s.copied ++ [s.dma.buf s.dma.get]
      dma := { s.dma with written := s.dma.written + 1 }
      pc := .advance } := by
  have hidle : s.pc ≠ .idle := by simp [hpc]
  have hstart : s.pc ≠ .start := by simp [hpc]
  have hat := h.atPc
  rw [hpc] at hat
  obtain ⟨hcopy, hwritten⟩ : Copying s ∧ s.dma.written + 1 = s.obAtoms := hat
  have hchan := h.channel hidle hstart
  have hunread : ∃ k, unread s = k + 1 := by
    have h₁ := hcopy.left_le
    have h₂ := hcopy.i_lt
    have h₃ := unread_eq s
    exact ⟨unread s - 1, by omega⟩
  obtain ⟨k, hk⟩ := hunread
  have hfirst : s.taken - unread s = s.base + s.copied.length := by
    have h₁ := hcopy.consumed
    have h₂ := hchan.written_eq
    omega
  have hhead : s.dma.buf s.dma.get = ⟨stream (s.base + s.copied.length), s.transfer⟩ := by
    have hwin := hchan.window
    rw [hk, segment_cons, ← hk, hfirst] at hwin
    have hget : s.dma.get < 4096 := h.bounded.get_lt
    have hat := hwin.head
    rwa [Int.emod_eq_of_lt h.bounded.get_nonneg hget] at hat
  refine ⟨?_, fun _ ↦ h.count hidle, fun _ _ ↦ ?_, ?_⟩
  · exact h.bounded.frame rfl
  · constructor
    case quiet => exact hchan.quiet
    case busy =>
      intro hbusy
      have hfly := hchan.busy hbusy
      exact ⟨hfly.outstanding, hfly.stored_le, hfly.le_tail, hfly.le_free⟩
    case total => exact hchan.total
    case unread_le => exact hchan.unread_le
    case window => exact hchan.window
    case issued => exact hchan.issued
    case overflows => exact hchan.overflows
    case written_eq => simpa using hchan.written_eq
    case copied_eq =>
      simp only [hhead, List.length_append, List.length_singleton, segment_succ]
      rw [← hchan.copied_eq]
  · exact ⟨⟨hcopy.consumed, hcopy.i_lt, hcopy.left_le⟩, hwritten.le, fun _ ↦ hwritten⟩

theorem Inv.advance (h : Inv stream s) (hpc : s.pc = .advance) :
    Inv stream { s with
      dma := { s.dma with get := (s.dma.get + 1) % liberaDmaFifoAtoms }
      i := s.i + 1
      pc := .copyTest } := by
  have hidle : s.pc ≠ .idle := by simp [hpc]
  have hstart : s.pc ≠ .start := by simp [hpc]
  have hat := h.atPc
  rw [hpc] at hat
  obtain ⟨hcopy, hle, heq⟩ : Copying s ∧ s.dma.written ≤ s.obAtoms ∧
    (s.dma.overrun = false → s.dma.written = s.obAtoms) := hat
  have hchan := h.channel hidle hstart
  have hleft := hcopy.left_le
  have hi := hcopy.i_lt
  have hlen : lenDMAFIFO { s.dma with get := (s.dma.get + 1) % liberaDmaFifoAtoms } =
      lenDMAFIFO s.dma - 1 := by
    simp only [lenDMAFIFO_eq, liberaDmaFifoAtoms] at hleft ⊢
    omega
  set t : System α := { s with
      dma := { s.dma with get := (s.dma.get + 1) % liberaDmaFifoAtoms }
      i := s.i + 1
      pc := .copyTest } with ht
  have hunread : unread s = unread t + 1 := by
    have h₁ := unread_eq s
    have h₂ := unread_eq t
    have h₃ : lenDMAFIFO t.dma = lenDMAFIFO s.dma - 1 := hlen
    have h₄ : t.stored = s.stored := rfl
    omega
  have hget₀ : 0 ≤ (s.dma.get + 1) % 4096 := by omega
  have hget₁ : (s.dma.get + 1) % 4096 < 4096 := by omega
  refine ⟨?_, fun _ ↦ h.count hidle, fun _ _ ↦ ?_, ?_, ?_, ?_⟩
  · exact ⟨h.bounded.put_nonneg, h.bounded.put_lt, hget₀, hget₁,
      h.bounded.remaining_nonneg, h.bounded.remaining_lt, h.bounded.csize_nonneg,
      h.bounded.csize_le⟩
  · constructor
    case quiet => exact hchan.quiet
    case busy =>
      intro hbusy
      have hfly := hchan.busy hbusy
      refine ⟨hfly.outstanding, hfly.stored_le, hfly.le_tail, ?_⟩
      have := hfly.le_free
      change s.dma.csize ≤ 4095 - lenDMAFIFO t.dma
      change lenDMAFIFO t.dma = _ at hlen
      omega
    case total => exact hchan.total
    case unread_le =>
      have := hchan.unread_le
      change s.base + unread t ≤ s.taken
      omega
    case window =>
      have hwin := hchan.window
      have hfirst : s.taken - (unread t + 1) + 1 = s.taken - unread t := by
        have := hchan.unread_le
        omega
      rw [hunread, segment_cons, hfirst] at hwin
      exact hwin.tail
    case issued => exact hchan.issued
    case overflows => exact hchan.overflows
    case written_eq => exact hchan.written_eq
    case copied_eq => exact hchan.copied_eq
  · refine ⟨?_, hle, heq⟩
    have := hcopy.consumed
    change s.taken = s.base + s.obAtoms + unread t
    omega
  · change s.i + 1 ≤ s.fifoAtoms
    omega
  · change ((s.fifoAtoms : ℤ) - ((s.i + 1 : ℕ) : ℤ)) ≤ lenDMAFIFO t.dma
    change lenDMAFIFO t.dma = _ at hlen
    push_cast
    omega

theorem Counted.copying {pc : Pc} (h : Counted s) (hlt : s.i < s.fifoAtoms)
    (hleft : (s.fifoAtoms - s.i : ℤ) ≤ lenDMAFIFO s.dma) :
    Copying ({ s with obAtoms := s.obAtoms + 1 }.goto pc) where
  consumed := by
    have := h.consumed
    change s.taken + 1 = s.base + (s.obAtoms + 1) + unread s
    omega
  i_lt := hlt
  left_le := hleft

/-- The checks behind the loop let a count through only if it is the number of
copied atoms, and without an overrun only the full count. -/
theorem Inv.finish {v : U32} (h : Inv stream s) (hpc : s.pc = .finish) :
    Inv stream (s.finish v) := by
  have hidle : s.pc ≠ .idle := by simp [hpc]
  have hstart : s.pc ≠ .start := by simp [hpc]
  have hat := h.atPc
  rw [hpc] at hat
  have hcount : Counted s := hat
  simp only [System.finish]
  split_ifs with hsize hatoms
  · exact h.withLocals hidle hstart fun hret ↦ absurd hret (by decide)
  · exact h.withLocals hidle hstart fun hret ↦ absurd hret (by decide)
  · refine h.withLocals hidle hstart fun _ ↦ ⟨?_, fun hover ↦ ?_⟩
    · exact congrArg Nat.cast (h.channel hidle hstart).written_eq
    · have hover' : s.dma.overrun = false := hover
      have hall : s.obAtoms = s.atomCount := by simpa [hover'] using hatoms
      change (s.dma.written : ℤ) = s.atomCount
      rw [hcount.written_eq hover', hall]

theorem Inv.reader {e : ReaderEnv} (h : Inv stream s) (hs : s.reader e = some s') :
    Inv stream s' := by
  have hat := h.atPc
  have hidle : s.pc ≠ .idle := fun hpc ↦ by simp [System.reader, hpc] at hs
  unfold System.reader at hs
  cases hpc : s.pc <;> simp only [hpc] at hs hat
  case idle | returned => simp at hs
  case start =>
    obtain rfl := Option.some.inj hs
    exact h.startUp hpc
  all_goals have hstart : s.pc ≠ .start := by simp [hpc]
  case sync site =>
    obtain ⟨hquiet, hcount⟩ := hat
    split_ifs at hs
    · obtain rfl := Option.some.inj hs
      exact h.withLocals hidle hstart ⟨hquiet, hcount.withLocals id⟩
    · cases site <;> obtain rfl := Option.some.inj hs <;>
        exact h.withLocals hidle hstart ⟨hquiet, hcount.withLocals id⟩
  case syncRead site =>
    obtain ⟨hquiet, hcount⟩ := hat
    obtain rfl := Option.some.inj hs
    exact h.withLocals hidle hstart ⟨hquiet, hcount.withLocals id⟩
  case syncCheck site =>
    obtain ⟨hquiet, hcount⟩ := hat
    split_ifs at hs <;> obtain rfl := Option.some.inj hs
    · exact h.withLocals hidle hstart fun hret ↦ absurd hret (by decide)
    · refine h.withLocals hidle hstart ⟨hquiet, hcount.withLocals fun hover ↦ ?_⟩
      exact (Bool.or_eq_false_iff.mp hover).1
  case firstCommand =>
    obtain ⟨hquiet, hcount⟩ := hat
    obtain rfl := Option.some.inj hs
    exact h.command hidle hstart hquiet (fun _ hr ↦ hr) hcount
  case waitTest | sleepTest =>
    obtain rfl := Option.some.inj hs
    split_ifs <;> exact h.withLocals hidle hstart (Counted.withLocals hat id)
  case sleepSignal =>
    split_ifs at hs <;> obtain rfl := Option.some.inj hs
    · exact h.withLocals hidle hstart (Counted.withLocals hat id)
    · exact h.withLocals hidle hstart fun hret ↦ absurd hret (by decide)
  case take =>
    have hlen := lenDMAFIFO_nonneg s.dma
    split_ifs at hs with hzero hnull <;> obtain rfl := Option.some.inj hs
    · exact h.withLocals hidle hstart fun hret ↦ absurd hret (by decide)
    · exact h.withLocals hidle hstart (Counted.withLocals hat id)
    · refine h.withLocals hidle hstart ⟨Counted.withLocals hat id, Nat.zero_le _, ?_⟩
      change (((lenDMAFIFO s.dma).toNat : ℤ) - ((0 : ℕ) : ℤ)) ≤ lenDMAFIFO s.dma
      omega
  case copyTest =>
    obtain ⟨hcount, hi, hleft⟩ := hat
    have hchan := h.channel hidle hstart
    split_ifs at hs with hlt hcopy <;> obtain rfl := Option.some.inj hs
    · refine h.withLocals hidle hstart ⟨hcount.copying hlt hleft, ?_⟩
      simp only [Bool.and_eq_true, decide_eq_true_eq, Bool.not_eq_true'] at hcopy
      change s.dma.written + 1 = s.obAtoms + 1
      rw [hcount.written_eq hcopy.2]
    · refine h.withLocals hidle hstart ⟨hcount.copying hlt hleft, ?_, fun hover ↦ ?_⟩
      · exact hcount.written_le.trans (Nat.le_succ _)
      · -- without an overrun an atom in the ring means that atoms are still expected
        have hall := hchan.obAtoms_add hcount.consumed
        have hrem := h.bounded.remaining_nonneg
        have hmore : s.obAtoms < s.atomCount := by omega
        have hover' : s.dma.overrun = false := hover
        simp [hmore, hover'] at hcopy
    · exact h.withLocals hidle hstart (hcount.withLocals id)
  case copyAtom =>
    split_ifs at hs <;> obtain rfl := Option.some.inj hs
    · exact h.withLocals hidle hstart fun hret ↦ absurd hret (by decide)
    · exact h.copyAtom hpc
  case advance =>
    obtain rfl := Option.some.inj hs
    exact h.advance hpc
  case yieldTest =>
    obtain rfl := Option.some.inj hs
    split_ifs <;> exact h.withLocals hidle hstart (Counted.withLocals hat id)
  case yieldSignal =>
    split_ifs at hs <;> obtain rfl := Option.some.inj hs
    · exact h.withLocals hidle hstart fun hret ↦ absurd hret (by decide)
    · exact h.withLocals hidle hstart (Counted.withLocals hat id)
  case needsStart =>
    obtain rfl := Option.some.inj hs
    split_ifs with hneeds
    · have hquiet : s.dma.dmacTransfer = false := by
        simpa [dmaNeedsStart] using (Bool.and_eq_true_iff.mp hneeds).1
      exact h.withLocals hidle hstart ⟨hquiet, Counted.withLocals hat id⟩
    · exact h.withLocals hidle hstart (Counted.withLocals hat id)
  case refresh =>
    obtain ⟨hquiet, hcount⟩ := hat
    obtain rfl := Option.some.inj hs
    refine h.withLocals hidle hstart ⟨hquiet, hcount.withLocals fun hover ↦ ?_⟩
    exact (Bool.or_eq_false_iff.mp hover).1
  case restartCommand =>
    obtain rfl := Option.some.inj hs
    exact h.restartCommand hpc
  case loopTest | loopTestEmpty =>
    obtain rfl := Option.some.inj hs
    split_ifs <;> exact h.withLocals hidle hstart (Counted.withLocals hat id)
  case finish =>
    obtain rfl := Option.some.inj hs
    exact h.finish hpc

end LiberaBase.Dma
