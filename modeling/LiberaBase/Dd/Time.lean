import LiberaBase.Kernel.Types

/-!
# Conversions between the four times

System Time (ST) and Machine Time (MT) are what user space sees; Libera System
Time (LST) and Libera Machine Time (LMT) count ticks of the two clocks.  All
arithmetic is that of 64-bit unsigned numbers, with 32-bit divisors.
-/

namespace LiberaBase

def nsInSecond : HwTime := 1000000000
def lscFreq : HwTime := 125000000
def flmcDeciHz : HwTime := 10
def deltaLstOverflow : HwTime := 15707377440
def deltaLmtOverflow : HwTime := 14757395240
def ddCircbufAtoms : HwTime := 2097152

/-- A 32-bit unsigned number in a 64-bit expression. -/
def U32.toHw (x : U32) : HwTime := x.setWidth 64

@[simp] theorem U32.toNat_toHw (x : U32) : (U32.toHw x).toNat = x.toNat :=
  BitVec.toNat_setWidth_of_le (by decide)

/-- A `long` in a 64-bit expression. -/
def U32.signedToHw (x : U32) : HwTime := x.signExtend 64

def divU64 (x : HwTime) (y : U32) : HwTime := x / U32.toHw y

/-- The remainder of `div_u64_rem`. -/
def remU64 (x : HwTime) (y : U32) : U32 := (x % U32.toHw y).setWidth 32

def st2lst (st : Timespec) : HwTime :=
  U32.signedToHw st.tvSec * lscFreq + U32.signedToHw st.tvNsec * lscFreq / nsInSecond

def lst2st (lst : HwTime) : Timespec where
  tvSec := (lst / lscFreq).setWidth 32
  tvNsec := (lst % lscFreq).setWidth 32 * 8

/-- `mt2lmt`; `d` is `lgbl.d`. -/
def mt2lmt (d : U32) (mt : HwTime) : HwTime := mt * U32.toHw d

def lmt2mt (d : U32) (lmt : HwTime) : HwTime := divU64 lmt d

/-- `get_circ_offset_lmt`; `off` and `hbStart` are `settime.lmt.off` and
`HB_start_lmt`. -/
def getCircOffsetLmt (d : U32) (off hbStart lmt : HwTime) : U32 :=
  let dummyFirstPart := lmt - (off + hbStart) + U32.toHw (d / 2)
  let dummyDivisor := divU64 dummyFirstPart d
  (dummyDivisor % ddCircbufAtoms).setWidth 32

/-- `lst2lmt`: `none` is `-ERANGE`. -/
def lst2lmt (flmcdHz : U32) (lst : HwTime) (stime : Ltimestamp) : Option HwTime :=
  let positive := stime.lst < lst
  let deltaLST := if positive then lst - stime.lst else stime.lst - lst
  if deltaLstOverflow < deltaLST then none
  else
    let deltaLMT := deltaLST * U32.toHw flmcdHz / (lscFreq * flmcDeciHz)
    some (if positive then stime.lmt + deltaLMT else stime.lmt - deltaLMT)

/-- `lmt2lst`: `none` is `-ERANGE`. -/
def lmt2lst (flmcdHz : U32) (lmt : HwTime) (stime : Ltimestamp) : Option HwTime :=
  let positive := stime.lmt < lmt
  let deltaLMT := if positive then lmt - stime.lmt else stime.lmt - lmt
  if deltaLmtOverflow < deltaLMT then none
  else
    let deltaLST := divU64 (deltaLMT * lscFreq * flmcDeciHz) flmcdHz
    some (if positive then stime.lst + deltaLST else stime.lst - deltaLST)

end LiberaBase
