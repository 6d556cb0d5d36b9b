import LiberaBase.Kernel.Types
import LiberaBase.Lib.RingFifo

/-!
# The Slow Acquisition device

The top half of the SA interrupt copies atoms from the FPGA into the ring
`dev->buf`, which the tasklet drains into the pipes of the readers.
-/

namespace LiberaBase.Sa

open RingWindow

/-- `SA_FIFO_DEPTH`, the atoms in the ring between the two halves. -/
def saFifoDepth : ℤ := 32

def saLog : ℤ := 64

def liberaSaMaxReaders : ℕ := 16

def sizeofAtomSa : ℤ := 64

def liberaEventOverflow : U32 := 1
def liberaEventSa : U32 := 4
def liberaOverflowSaFpga : U32 := 1
def liberaOverflowSaDrv : U32 := 2

variable {α : Type*}

/-! ## The pipe of a reader -/

abbrev SaFifo (α : Type*) := RingFifo α

def flushSaFIFO (q : SaFifo α) : SaFifo α := q.flush

def lenSaFIFO (q : SaFifo α) : ℤ := q.len saLog

def freeSaFIFO (q : SaFifo α) : ℤ := saLog - lenSaFIFO q

/-- `none` is the return value -1. -/
def putToSaFIFO (q : SaFifo α) (data : α) : Option (SaFifo α) := q.push saLog data

/-- `none` is `NULL`; otherwise the index of the slot that is returned. -/
def getFromSaFIFO (q : SaFifo α) : Option (SaFifo α × ℤ) := q.pop saLog

def pipeWriteLoop (q : SaFifo α) (written : ℤ) : List α → SaFifo α × ℤ
  | [] => (q, written)
  | a :: buf =>
    match putToSaFIFO q a with
    | none => (q, written)
    | some q' => pipeWriteLoop q' (written + sizeofAtomSa) buf

/-- `libera_pipe_write` of whole atoms. -/
def liberaPipeWrite (q : SaFifo α) (buf : List α) : SaFifo α × ℤ :=
  if buf = [] then (q, 0)
  else if freeSaFIFO q < buf.length then (q, -EFAULT)
  else pipeWriteLoop q 0 buf

/-! ## The ring between the two halves -/

/-- `struct libera_sa_device`, less the access control. -/
structure SaDevice (α : Type*) where
  saPipe : ℕ → Option (SaFifo α)
  buf : ℤ → α
  bufHead : ℤ
  bufTail : ℤ
  inputovr : Bool

/-- `libera_sa_incr_atom`, on the index of an atom. -/
def liberaSaIncrAtom (atomp : ℤ) : ℤ := if atomp = saFifoDepth - 1 then 0 else atomp + 1

/-- One round of the loop of `libera_sa_handler_specific`. -/
def storeAtom (dev : SaDevice α) (a : α) : SaDevice α :=
  { dev with
    buf := Function.update dev.buf dev.bufHead a
    bufHead := liberaSaIncrAtom dev.bufHead }

/-- `libera_sa_handler_specific`: the loop is a `do`, so the FPGA delivers at least one atom;
`inovr` tells whether a status that was read shows an overrun. -/
def liberaSaHandlerSpecific (dev : SaDevice α) (first : α) (rest : List α) (inovr : Bool) :
    SaDevice α :=
  (first :: rest).foldl storeAtom { dev with inputovr := dev.inputovr || inovr }

/-- The ring holds the atoms that were read and not yet dispatched, of which there are fewer
than it has slots. -/
structure Rings (dev : SaDevice α) (read : List α) (rounds : ℕ) : Prop where
  le : rounds ≤ read.length
  lt : read.length < rounds + 32
  head : dev.bufHead = (read.length : ℤ) % 32
  tail : dev.bufTail = (rounds : ℤ) % 32
  holds : Holds 32 dev.buf dev.bufTail (read.drop rounds)

namespace Rings

variable {dev : SaDevice α} {read : List α} {rounds : ℕ}

theorem incr_eq (n : ℕ) : liberaSaIncrAtom ((n : ℤ) % 32) = ((n + 1 : ℕ) : ℤ) % 32 := by
  unfold liberaSaIncrAtom saFifoDepth
  split_ifs <;> omega

theorem tail_eq_head_iff (h : Rings dev read rounds) :
    dev.bufTail = dev.bufHead ↔ rounds = read.length := by
  have hle := h.le
  have hlt := h.lt
  rw [h.head, h.tail]
  omega

theorem frame (h : Rings dev read rounds) (p : ℕ → Option (SaFifo α)) (b : Bool) :
    Rings { dev with saPipe := p, inputovr := b } read rounds :=
  ⟨h.le, h.lt, h.head, h.tail, h.holds⟩

theorem storeAtom (h : Rings dev read rounds) (a : α) (hroom : read.length + 1 < rounds + 32) :
    Rings (storeAtom dev a) (read ++ [a]) rounds := by
  have hle := h.le
  have hlen : (read.drop rounds).length = read.length - rounds := List.length_drop
  have hhead : dev.bufHead % 32 = dev.bufHead := by
    rw [h.head]
    exact Int.emod_emod_of_dvd _ dvd_rfl
  have hoff : (dev.bufHead - dev.bufTail) % 32 = ((read.drop rounds).length : ℤ) := by
    rw [hlen, h.head, h.tail]
    omega
  constructor
  · simp only [List.length_append, List.length_singleton]
    omega
  · simpa using hroom
  · change liberaSaIncrAtom dev.bufHead = _
    rw [h.head, incr_eq, List.length_append, List.length_singleton]
  · exact h.tail
  · rw [List.drop_append_of_le_length hle]
    apply Holds.append
    · exact h.holds.update (by decide) hhead hoff.ge
    · have hslot : (dev.bufTail + (read.drop rounds).length) % 32 = dev.bufHead := by
        rw [← hoff, slot_of_offset, hhead]
      change Function.update dev.buf dev.bufHead a
        ((dev.bufTail + (read.drop rounds).length) % 32) = a
      rw [hslot, Function.update_self]

theorem foldl_storeAtom (h : Rings dev read rounds) (atoms : List α)
    (hroom : read.length + atoms.length < rounds + 32) :
    Rings (atoms.foldl Sa.storeAtom dev) (read ++ atoms) rounds := by
  induction atoms generalizing dev read with
  | nil => simpa using h
  | cons a atoms ih =>
      rw [List.length_cons] at hroom
      have hnext := ih (h.storeAtom a (by omega)) (by simp; omega)
      simpa using hnext

theorem handler (h : Rings dev read rounds) (first : α) (rest : List α) (inovr : Bool)
    (hroom : read.length + (first :: rest).length < rounds + 32) :
    Rings (liberaSaHandlerSpecific dev first rest inovr) (read ++ first :: rest) rounds :=
  (h.frame dev.saPipe (dev.inputovr || inovr)).foldl_storeAtom _ hroom

theorem front (h : Rings dev read rounds) (hlt : rounds < read.length) :
    read[rounds]? = some (dev.buf dev.bufTail) := by
  have hhold := h.holds
  rw [List.drop_eq_getElem_cons hlt] at hhold
  have hslot := hhold.head
  rw [h.tail, Int.emod_emod_of_dvd _ dvd_rfl, ← h.tail] at hslot
  rw [List.getElem?_eq_getElem hlt, hslot]

theorem advance (h : Rings dev read rounds) (hlt : rounds < read.length) :
    Rings { dev with bufTail := liberaSaIncrAtom dev.bufTail } read (rounds + 1) := by
  have hnext : liberaSaIncrAtom dev.bufTail = ((rounds + 1 : ℕ) : ℤ) % 32 := by
    rw [h.tail, incr_eq]
  constructor
  · exact hlt
  · have := h.lt
    omega
  · exact h.head
  · exact hnext
  · have hhold := h.holds
    rw [List.drop_eq_getElem_cons hlt] at hhold
    change Holds 32 dev.buf (liberaSaIncrAtom dev.bufTail) _
    have hmod : (dev.bufTail + 1) % 32 = liberaSaIncrAtom dev.bufTail := by
      rw [hnext, h.tail]
      omega
    rw [← hmod]
    exact hhold.tail

end Rings

end LiberaBase.Sa
