import LiberaBase.Dma.Transfer
import LiberaBase.Lib.Runs
import LiberaBase.Lib.RingWindow

/-!
# The invariant of a DMA transfer

The atoms that are stored but not yet consumed form one window of the ring,
starting at `get`: first those whose command has ended, then those of the command
in flight.  An end interrupt moves the border between the two and leaves the
window alone, a store appends to it, and the reader drops its front.
-/

namespace LiberaBase.Dma

open RingWindow Runs

variable {α : Type*} {stream : ℕ → α} {s s' : System α}

/-- `len` consecutive atoms of the stream, moved for the transfer `owner`. -/
def segment (stream : ℕ → α) (owner start len : ℕ) : List (Cell α) :=
  (List.range len).map fun j ↦ ⟨stream (start + j), owner⟩

@[simp] theorem length_segment (owner start len : ℕ) :
    (segment stream owner start len).length = len := by simp [segment]

theorem segment_succ (owner start len : ℕ) :
    segment stream owner start (len + 1) =
      segment stream owner start len ++ [⟨stream (start + len), owner⟩] := by
  simp [segment, List.range_succ]

theorem segment_atoms (owner start len : ℕ) : (segment stream owner start len).map Cell.atom =
    (List.range len).map fun j ↦ stream (start + j) := by
  simp [segment, Function.comp_def]

theorem segment_cons (owner start len : ℕ) :
    segment stream owner start (len + 1) =
      ⟨stream start, owner⟩ :: segment stream owner (start + 1) len := by
  simp only [segment, List.range_succ_eq_map, List.map_cons, List.map_map, Nat.add_zero]
  congr 1
  refine List.map_congr_left fun j _ ↦ ?_
  simp only [Function.comp_apply]
  congr 2
  omega

/-- The atoms stored in the ring that the reader has not consumed. -/
def unread (s : System α) : ℕ := (lenDMAFIFO s.dma).toNat + s.stored

structure InFlight (s : System α) : Prop where
  outstanding : s.outstanding = [⟨s.dma.put, s.dma.csize, s.transfer⟩]
  stored_le : (s.stored : ℤ) ≤ s.dma.csize
  le_tail : s.dma.put + s.dma.csize ≤ 4096
  le_free : s.dma.csize ≤ 4095 - lenDMAFIFO s.dma

/-- What holds of the ring, the controller and the record of issued commands
from the start-up block of a transfer on. -/
structure Channel (stream : ℕ → α) (s : System α) : Prop where
  quiet : s.dma.dmacTransfer = false → s.outstanding = [] ∧ s.stored = 0
  busy : s.dma.dmacTransfer = true → InFlight s
  total : (s.taken : ℤ) = s.base + (s.atomCount - s.dma.remaining) + s.stored
  unread_le : s.base + unread s ≤ s.taken
  window : Holds 4096 s.dma.buf s.dma.get
    (segment stream s.transfer (s.taken - unread s) (unread s))
  issued : ∀ c ∈ s.issued, CommandFits c.csize c.remaining c.obSize c.put c.len
  overflows : ∀ c ∈ s.overflows, c = 0
  written_eq : s.dma.written = s.copied.length
  copied_eq : s.copied = segment stream s.transfer s.base s.copied.length

/-- Atoms are counted by `OBAtoms` as they are consumed, and copied to the
caller as long as no overrun has been seen. -/
structure Counted (s : System α) : Prop where
  consumed : s.taken = s.base + s.obAtoms + unread s
  written_le : s.dma.written ≤ s.obAtoms
  written_eq : s.dma.overrun = false → s.dma.written = s.obAtoms

/-- Inside an iteration of the copy loop the atom at `get` is counted but not
yet consumed. -/
structure Copying (s : System α) : Prop where
  consumed : s.taken + 1 = s.base + s.obAtoms + unread s
  i_lt : s.i < s.fifoAtoms
  left_le : (s.fifoAtoms - s.i : ℤ) ≤ lenDMAFIFO s.dma

/-- A transfer that has not run its start-up block yet, or none at all. -/
structure Fresh (s : System α) : Prop where
  outstanding : s.outstanding = []
  stored : s.stored = 0
  copied : s.copied = []
  issued : s.issued = []
  overflows : s.overflows = []
  obAtoms : s.obAtoms = 0
  taken : s.taken = s.base

def AtPc (s : System α) : Pc → Prop
  | .idle | .start => Fresh s
  | .sync _ | .syncRead _ | .syncCheck _ | .firstCommand | .refresh | .restartCommand =>
    s.dma.dmacTransfer = false ∧ Counted s
  | .copyTest => Counted s ∧ s.i ≤ s.fifoAtoms ∧ (s.fifoAtoms - s.i : ℤ) ≤ lenDMAFIFO s.dma
  | .copyAtom => Copying s ∧ s.dma.written + 1 = s.obAtoms
  | .advance => Copying s ∧ s.dma.written ≤ s.obAtoms ∧
      (s.dma.overrun = false → s.dma.written = s.obAtoms)
  | .returned ret => 0 ≤ ret →
      ret = s.copied.length ∧ (s.dma.overrun = false → ret = s.atomCount)
  | _ => Counted s

/-- The invariant of a transfer that started with no command outstanding. -/
structure Inv (stream : ℕ → α) (s : System α) : Prop where
  bounded : Bounded s.dma
  count : s.pc ≠ .idle → s.atomCount < 2 ^ 31
  channel : s.pc ≠ .idle → s.pc ≠ .start → Channel stream s
  atPc : AtPc s s.pc

/-! ## The controller -/

theorem store_eq_some (h : s.store stream = some s') : ∃ cmd rest,
    s.outstanding = cmd :: rest ∧ (s.stored : ℤ) < cmd.csize ∧
      s' = { s with
        dma := { s.dma with
          buf := Function.update s.dma.buf (cmd.target + s.stored) ⟨stream s.taken, cmd.owner⟩ }
        stored := s.stored + 1
        taken := s.taken + 1 } := by
  unfold System.store at h
  cases hout : s.outstanding with
  | nil => simp [hout] at h
  | cons cmd rest =>
      rw [hout] at h
      simp only at h
      split_ifs at h with hlt
      exact ⟨cmd, rest, rfl, hlt, (Option.some.inj h).symm⟩

theorem endInterrupt_eq_some {v : U32} (h : s.endInterrupt v = some s') : ∃ cmd rest,
    s.outstanding = cmd :: rest ∧ (s.stored : ℤ) = cmd.csize ∧
      s' = { s with outstanding := rest, stored := 0 }.liberaDmaInterrupt cmd v := by
  unfold System.endInterrupt at h
  cases hout : s.outstanding with
  | nil => simp [hout] at h
  | cons cmd rest =>
      rw [hout] at h
      simp only at h
      split_ifs at h with hfull
      exact ⟨cmd, rest, rfl, hfull, (Option.some.inj h).symm⟩


theorem unread_eq (s : System α) : (unread s : ℤ) = lenDMAFIFO s.dma + s.stored := by
  have := lenDMAFIFO_nonneg s.dma
  unfold unread
  push_cast
  rw [Int.toNat_of_nonneg this]

theorem Channel.inFlight (h : Channel stream s) (hout : s.outstanding ≠ []) :
    s.dma.dmacTransfer = true ∧ InFlight s := by
  cases hbusy : s.dma.dmacTransfer with
  | false => exact absurd (h.quiet hbusy).1 hout
  | true => exact ⟨rfl, h.busy hbusy⟩

theorem Inv.running (h : Inv stream s) (hout : s.outstanding ≠ []) :
    s.pc ≠ .idle ∧ s.pc ≠ .start := by
  constructor <;> intro hpc <;> have := h.atPc <;> rw [hpc] at this <;>
    exact hout this.outstanding

theorem put_offset {s : System α} {k : ℤ} (hk : 0 ≤ k)
    (hfree : lenDMAFIFO s.dma + k ≤ 4095) :
    (s.dma.put + k - s.dma.get) % 4096 = lenDMAFIFO s.dma + k := by
  have hlen := lenDMAFIFO_nonneg s.dma
  rw [lenDMAFIFO_eq] at hlen hfree ⊢
  omega

theorem Channel.store (hb : Bounded s.dma) (h : Channel stream s) (hs : s.store stream = some s') :
    Channel stream s' := by
  obtain ⟨cmd, rest, hout, hlt, rfl⟩ := store_eq_some hs
  obtain ⟨hbusy, hfly⟩ := h.inFlight (by simp [hout])
  obtain ⟨rfl, rfl⟩ : cmd = ⟨s.dma.put, s.dma.csize, s.transfer⟩ ∧ rest = [] := by
    simpa [hout] using hfly.outstanding
  simp only at hlt
  have hunread := unread_eq s
  have hfree := hfly.le_free
  have htail := hfly.le_tail
  have hput := hb.put_nonneg
  constructor
  case quiet => simp [hbusy]
  case busy =>
    intro _
    exact ⟨hfly.outstanding, by push_cast; omega, htail, hfree⟩
  case total =>
    have := h.total
    simp only
    push_cast
    omega
  case unread_le =>
    have := h.unread_le
    simp only [unread, lenDMAFIFO] at this ⊢
    omega
  case window =>
    have hoff := put_offset (s := s) (k := s.stored) (by omega) (by omega)
    have hwin := h.window
    have hstart : s.taken + 1 - (unread s + 1) = s.taken - unread s := by omega
    have hend : s.taken - unread s + unread s = s.taken := by
      have := h.unread_le
      omega
    have hslot : (s.dma.get + (unread s : ℤ)) % 4096 = s.dma.put + s.stored := by
      rw [hunread, ← hoff, slot_of_offset]
      exact Int.emod_eq_of_lt (by omega) (by omega)
    have hgrow := (hwin.update (v := ⟨stream s.taken, s.transfer⟩) (k := s.dma.put + s.stored)
      (by omega) (Int.emod_eq_of_lt (by omega) (by omega))
      (by rw [length_segment, hoff, hunread])).append
      (by rw [length_segment, hslot, Function.update_self])
    change Holds 4096 _ s.dma.get
      (segment stream s.transfer (s.taken + 1 - (unread s + 1)) (unread s + 1))
    rw [segment_succ, hstart, hend]
    exact hgrow
  case issued => exact h.issued
  case overflows => exact h.overflows
  case written_eq => exact h.written_eq
  case copied_eq => exact h.copied_eq

/-! ## The end interrupt -/

/-- `dma->remaining -= dma->csize` and `putToDMA_FIFO`: the size of the ended
command is moved from `remaining` to the ring. -/
theorem putToDMAFIFO_commit (dma : LiberaDma α) (hput₀ : 0 ≤ dma.put)
    (hput₁ : dma.put < liberaDmaFifoAtoms) (hget₀ : 0 ≤ dma.get)
    (hget₁ : dma.get < liberaDmaFifoAtoms) (hcsize : 0 ≤ dma.csize)
    (hfree : dma.csize ≤ 4095 - lenDMAFIFO dma) :
    match putToDMAFIFO dma dma.csize with
    | some dma' => dma' = { dma with put := (dma.put + dma.csize) % 4096 }
    | none => dma.csize = 0 ∧ (dma.put + dma.csize) % 4096 = dma.put := by
  rw [lenDMAFIFO_eq] at hfree
  unfold liberaDmaFifoAtoms at hput₁ hget₁
  unfold putToDMAFIFO liberaDmaFifoAtoms
  simp only
  split_ifs with heq
  · simp only
    omega
  · rfl

/-- The state behind the end interrupt of the transfer's own command, before the
decision whether a further command is issued. -/
def retire (s : System α) (cmd : Command) (obStatus : U32) (lost : List ℤ) : System α :=
  { s with
    dma := liberaDmaGetDMACCsize { s.dma with
      obFIFOstatus := obStatus
      overrun := s.dma.overrun || ddOBOverrun obStatus
      remaining := s.dma.remaining - s.dma.csize
      put := (s.dma.put + s.dma.csize) % 4096
      dmacTransfer := false }
    outstanding := []
    stored := 0
    ended := s.ended ++ [⟨cmd.owner, s.transfer⟩]
    overflows := s.overflows ++ lost }

theorem liberaDmaInterrupt_eq (cmd : Command) (v : U32) (hb : Bounded s.dma)
    (hfree : s.dma.csize ≤ 4095 - lenDMAFIFO s.dma) : ∃ lost : List ℤ, (∀ c ∈ lost, c = 0) ∧
      { s with outstanding := [], stored := 0 }.liberaDmaInterrupt cmd v =
        if 0 < (retire s cmd v lost).dma.csize then (retire s cmd v lost).liberaDmaCommand
        else retire s cmd v lost := by
  have hcommit := putToDMAFIFO_commit { s.dma with
      obFIFOstatus := v
      overrun := s.dma.overrun || ddOBOverrun v
      remaining := s.dma.remaining - s.dma.csize } hb.put_nonneg hb.put_lt hb.get_nonneg
    hb.get_lt hb.csize_nonneg hfree
  unfold System.liberaDmaInterrupt
  simp only
  split at hcommit
  case h_1 dma' heq =>
    subst hcommit
    refine ⟨[], by simp, ?_⟩
    simp only [heq, retire, List.append_nil]
    rfl
  case h_2 heq =>
    refine ⟨[s.dma.csize], by simpa using hcommit.1, ?_⟩
    simp only [heq, retire, hcommit.2]
    rfl

theorem Bounded.retire {cmd : Command} {v : U32} {lost : List ℤ} (h : Bounded s.dma) :
    Bounded (retire s cmd v lost).dma := by
  have h₁ := h.csize_nonneg
  have h₂ := h.csize_le
  have h₃ := h.remaining_lt
  refine Bounded.getCsize ?_ ?_ h.get_nonneg h.get_lt ?_ ?_
  all_goals simp only [liberaDmaFifoAtoms]; omega

theorem Channel.command (h : Channel stream s) (hidle : s.dma.dmacTransfer = false)
    (hfit : CommandFits s.dma.csize s.dma.remaining (ddOBSize s.dma.obFIFOstatus) s.dma.put
      (lenDMAFIFO s.dma)) : Channel stream s.liberaDmaCommand := by
  obtain ⟨hout, hstored⟩ := h.quiet hidle
  constructor
  case quiet => simp [System.liberaDmaCommand]
  case busy =>
    intro _
    refine ⟨by simp [System.liberaDmaCommand, hout], ?_, hfit.le_tail, hfit.le_free⟩
    simpa [System.liberaDmaCommand, hstored] using hfit.nonneg
  case total => exact h.total
  case unread_le => exact h.unread_le
  case window => exact h.window
  case issued =>
    intro c hc
    rcases List.mem_append.mp hc with hc | hc
    · exact h.issued c hc
    · obtain rfl := List.mem_singleton.mp hc
      exact hfit
  case overflows => exact h.overflows
  case written_eq => exact h.written_eq
  case copied_eq => exact h.copied_eq

/-- Retiring a command moves the border inside the window, not the window. -/
theorem lenDMAFIFO_retire (cmd : Command) (v : U32) (lost : List ℤ) (hcsize : 0 ≤ s.dma.csize)
    (hfree : s.dma.csize ≤ 4095 - lenDMAFIFO s.dma) :
    lenDMAFIFO (retire s cmd v lost).dma = lenDMAFIFO s.dma + s.dma.csize := by
  have hlen := lenDMAFIFO_nonneg s.dma
  simp only [lenDMAFIFO_eq, retire, liberaDmaGetDMACCsize] at hlen hfree ⊢
  omega

theorem unread_retire (cmd : Command) (v : U32) (lost : List ℤ) (hcsize : 0 ≤ s.dma.csize)
    (hfree : s.dma.csize ≤ 4095 - lenDMAFIFO s.dma) (hfull : (s.stored : ℤ) = s.dma.csize) :
    unread (retire s cmd v lost) = unread s := by
  have h₁ := unread_eq (retire s cmd v lost)
  have h₂ := unread_eq s
  have h₃ := lenDMAFIFO_retire cmd v lost hcsize hfree
  have h₄ : (retire s cmd v lost).stored = 0 := rfl
  omega

theorem Channel.retire {cmd : Command} {v : U32} {lost : List ℤ}
    (hb : Bounded s.dma) (h : Channel stream s) (hfly : InFlight s)
    (hfull : (s.stored : ℤ) = s.dma.csize) (hlost : ∀ c ∈ lost, c = 0) :
    Channel stream (retire s cmd v lost) := by
  have hunread := unread_retire cmd v lost hb.csize_nonneg
    hfly.le_free hfull
  constructor
  case quiet => exact fun _ ↦ ⟨rfl, rfl⟩
  case busy => simp [Dma.retire, liberaDmaGetDMACCsize]
  case total =>
    have := h.total
    simp only [Dma.retire, liberaDmaGetDMACCsize]
    push_cast
    omega
  case unread_le => rw [hunread]; exact h.unread_le
  case window => rw [hunread]; exact h.window
  case issued => exact h.issued
  case overflows =>
    intro c hc
    rcases List.mem_append.mp hc with hc | hc
    · exact h.overflows c hc
    · exact hlost c hc
  case written_eq => exact h.written_eq
  case copied_eq => exact h.copied_eq

end LiberaBase.Dma
