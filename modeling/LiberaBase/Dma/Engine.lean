import LiberaBase.Kernel.Types
import Mathlib.Tactic.SplitIfs

/-!
# The DMA fifo and its bookkeeping

`libera_dma_t` keeps a ring of Data-on-Demand atoms between the DMA controller,
which fills it, and the reading process, which drains it.  The controller only
moves data: `put` is advanced by the end interrupt of a command, `get` by the
reader.
-/

namespace LiberaBase.Dma

def liberaDmaBlockAtoms : ℤ := 128

def liberaDmaFifoAtoms : ℤ := 4096

/-- `DD_OB_SIZE`: the eight low bits of the OB-fifo status. -/
def ddOBSize (status : U32) : ℤ := (status &&& 0xFF#32).toNat

def ddOBOverrun (status : U32) : Bool := status.getLsbD 30

/-- One slot of `dma->buf`: the atom, and for the proofs the number of the
transfer whose command stored it. -/
structure Cell (α : Type*) where
  atom : α
  owner : ℕ
  deriving DecidableEq

structure LiberaDma (α : Type*) where
  buf : ℤ → Cell α
  put : ℤ
  get : ℤ
  csize : ℤ
  remaining : ℤ
  obFIFOstatus : U32
  overrun : Bool
  dmacTransfer : Bool
  aborting : Bool
  written : ℕ

variable {α : Type*}

def flushDMAFIFO (q : LiberaDma α) : LiberaDma α := { q with put := 0, get := 0 }

def lenDMAFIFO (q : LiberaDma α) : ℤ :=
  (q.put + liberaDmaFifoAtoms - q.get) % liberaDmaFifoAtoms

def tailDMAFIFO (q : LiberaDma α) : ℤ := liberaDmaFifoAtoms - q.put

def emptyDMAFIFO (q : LiberaDma α) : Bool := q.put == q.get

/-- Only the index changes, the controller has copied the data.  `none` is the
return value -1. -/
def putToDMAFIFO (q : LiberaDma α) (sizeAtoms : ℤ) : Option (LiberaDma α) :=
  let index := (q.put + sizeAtoms) % liberaDmaFifoAtoms
  if index = q.get then none else some { q with put := index }

/-- `MIN` where one operand is an `unsigned long`, so that both are compared
as unsigned numbers. -/
def minUnsigned (a b : ℤ) : ℤ := if a % 2 ^ 32 < b % 2 ^ 32 then a else b

/-- `libera_dma_get_DMAC_csize`: the new transfer size. -/
def liberaDmaGetDMACCsize (dma : LiberaDma α) : LiberaDma α :=
  let csizeTemp := minUnsigned (min dma.remaining liberaDmaBlockAtoms)
    (minUnsigned (tailDMAFIFO dma) (ddOBSize dma.obFIFOstatus))
  { dma with csize := min (liberaDmaFifoAtoms - 1 - lenDMAFIFO dma) csizeTemp }

/-- `dma_no_data`: more is expected, but the OB-fifo shows nothing. -/
def dmaNoData (dma : LiberaDma α) : Bool :=
  dma.remaining != 0 && ddOBSize dma.obFIFOstatus == 0 && !dma.overrun

def dmaNeedsStart (dma : LiberaDma α) : Bool := !dma.dmacTransfer && dma.remaining != 0

/-! ## What the sizes obey -/

/-- The ranges every state of the driver keeps: the indices stay in the ring and
no transfer size exceeds what is left to transfer. -/
structure Bounded (dma : LiberaDma α) : Prop where
  put_nonneg : 0 ≤ dma.put
  put_lt : dma.put < liberaDmaFifoAtoms
  get_nonneg : 0 ≤ dma.get
  get_lt : dma.get < liberaDmaFifoAtoms
  remaining_nonneg : 0 ≤ dma.remaining
  remaining_lt : dma.remaining < 2 ^ 31
  csize_nonneg : 0 ≤ dma.csize
  csize_le : dma.csize ≤ dma.remaining

theorem Bounded.frame {dma dma' : LiberaDma α} (h : Bounded dma)
    (heq : (dma'.put, dma'.get, dma'.remaining, dma'.csize) =
      (dma.put, dma.get, dma.remaining, dma.csize)) : Bounded dma' := by
  simp only [Prod.mk.injEq] at heq
  obtain ⟨hput, hget, hremaining, hcsize⟩ := heq
  constructor <;> simp only [hput, hget, hremaining, hcsize]
  exacts [h.put_nonneg, h.put_lt, h.get_nonneg, h.get_lt, h.remaining_nonneg, h.remaining_lt,
    h.csize_nonneg, h.csize_le]

theorem ddOBSize_nonneg (status : U32) : 0 ≤ ddOBSize status := Int.natCast_nonneg _

theorem ddOBSize_lt (status : U32) : ddOBSize status < 256 := by
  have hle : (status &&& 0xFF#32).toNat ≤ 255 := by
    rw [BitVec.toNat_and]
    exact Nat.and_le_right
  unfold ddOBSize
  omega

theorem lenDMAFIFO_eq (q : LiberaDma α) : lenDMAFIFO q = (q.put - q.get) % 4096 := by
  unfold lenDMAFIFO liberaDmaFifoAtoms
  omega

theorem lenDMAFIFO_nonneg (q : LiberaDma α) : 0 ≤ lenDMAFIFO q := by
  rw [lenDMAFIFO_eq]
  omega

theorem lenDMAFIFO_le (q : LiberaDma α) : lenDMAFIFO q ≤ 4095 := by
  rw [lenDMAFIFO_eq]
  omega

theorem minUnsigned_eq_min {a b : ℤ} (ha₀ : 0 ≤ a) (ha₁ : a < 2 ^ 31) (hb₀ : 0 ≤ b)
    (hb₁ : b < 2 ^ 31) : minUnsigned a b = min a b := by
  unfold minUnsigned
  rw [Int.emod_eq_of_lt ha₀ (by omega), Int.emod_eq_of_lt hb₀ (by omega)]
  split_ifs <;> omega

/-- A command fits: it asks for no more than is left, than the OB-fifo holds,
than the ring has up to its end, and than the ring has free. -/
structure CommandFits (csize remaining obSize put len : ℤ) : Prop where
  nonneg : 0 ≤ csize
  le_remaining : csize ≤ remaining
  le_obSize : csize ≤ obSize
  le_tail : put + csize ≤ liberaDmaFifoAtoms
  le_free : csize ≤ liberaDmaFifoAtoms - 1 - len

/-- In its ranges the size is the minimum of the five bounds. -/
theorem liberaDmaGetDMACCsize_csize {dma : LiberaDma α} (hput₀ : 0 ≤ dma.put)
    (hput₁ : dma.put < liberaDmaFifoAtoms) (hrem₀ : 0 ≤ dma.remaining)
    (hrem₁ : dma.remaining < 2 ^ 31) :
    (liberaDmaGetDMACCsize dma).csize =
      min (4096 - 1 - lenDMAFIFO dma) (min (min dma.remaining 128)
        (min (4096 - dma.put) (ddOBSize dma.obFIFOstatus))) := by
  have hob₀ := ddOBSize_nonneg dma.obFIFOstatus
  have hob₁ := ddOBSize_lt dma.obFIFOstatus
  unfold liberaDmaFifoAtoms at hput₁
  simp only [liberaDmaGetDMACCsize, tailDMAFIFO, liberaDmaFifoAtoms, liberaDmaBlockAtoms]
  rw [minUnsigned_eq_min (a := 4096 - dma.put) (by omega) (by omega) hob₀ (by omega),
    minUnsigned_eq_min (by omega) (by omega) (by omega) (by omega)]

theorem liberaDmaGetDMACCsize_fits {dma : LiberaDma α} (hput₀ : 0 ≤ dma.put)
    (hput₁ : dma.put < liberaDmaFifoAtoms) (hrem₀ : 0 ≤ dma.remaining)
    (hrem₁ : dma.remaining < 2 ^ 31) :
    CommandFits (liberaDmaGetDMACCsize dma).csize dma.remaining
      (ddOBSize dma.obFIFOstatus) dma.put (lenDMAFIFO dma) := by
  have hob₀ := ddOBSize_nonneg dma.obFIFOstatus
  have hlen₁ := lenDMAFIFO_le dma
  rw [liberaDmaGetDMACCsize_csize hput₀ hput₁ hrem₀ hrem₁]
  unfold liberaDmaFifoAtoms at hput₁
  refine ⟨by omega, by omega, by omega, ?_, ?_⟩ <;> unfold liberaDmaFifoAtoms <;> omega

theorem Bounded.getCsize {dma : LiberaDma α} (hput₀ : 0 ≤ dma.put)
    (hput₁ : dma.put < liberaDmaFifoAtoms) (hget₀ : 0 ≤ dma.get)
    (hget₁ : dma.get < liberaDmaFifoAtoms) (hrem₀ : 0 ≤ dma.remaining)
    (hrem₁ : dma.remaining < 2 ^ 31) : Bounded (liberaDmaGetDMACCsize dma) := by
  have hfit := liberaDmaGetDMACCsize_fits hput₀ hput₁ hrem₀ hrem₁
  exact ⟨hput₀, hput₁, hget₀, hget₁, hrem₀, hrem₁, hfit.nonneg, hfit.le_remaining⟩

end LiberaBase.Dma
