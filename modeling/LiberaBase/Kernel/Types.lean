import Mathlib.Algebra.Ring.Int.Defs
import Mathlib.Algebra.Ring.Nat
import Mathlib.Logic.Function.Basic

/-!
# Machine types, error numbers and time stamps of the driver

The target is a 32-bit little-endian ARM: `long`, `unsigned long`, `size_t` and
`libera_U32_t` have 32 bits, `libera_hw_time_t` has 64.  Unsigned values whose
wrapping matters are bit vectors; signed ones and return codes are integers.
-/

namespace LiberaBase

/-- `unsigned long`, `unsigned int`, `libera_U32_t` and FPGA registers. -/
abbrev U32 := BitVec 32

theorem U32.one_ne_zero : (1 : U32) ≠ 0 := by decide

/-- `libera_hw_time_t` -/
abbrev HwTime := BitVec 64

/-- The value a `long` keeps of an integer. -/
def toLong (x : ℤ) : ℤ := x.bmod (2 ^ 32)

theorem toLong_of_lt {n : ℕ} (h : n < 2 ^ 31) : toLong n = n := by
  unfold toLong
  rw [Int.bmod_eq_of_le] <;> omega

/-! ## Error numbers -/

def EPERM : ℤ := 1
def EIO : ℤ := 5
def EAGAIN : ℤ := 11
def EFAULT : ℤ := 14
def EBUSY : ℤ := 16
def EINVAL : ℤ := 22
def ERANGE : ℤ := 34
def ENODATA : ℤ := 61
def ERESTARTSYS : ℤ := 512

/-! ## Time stamps -/

/-- `struct timespec`: two signed longs. -/
structure Timespec where
  tvSec : U32
  tvNsec : U32
  deriving DecidableEq

/-- `libera_Ltimestamp_t`: Libera system time and Libera machine time. -/
structure Ltimestamp where
  lst : HwTime
  lmt : HwTime
  deriving DecidableEq

/-- `libera_timestamp_t`: the pair user space sees. -/
structure Timestamp where
  st : Timespec
  mt : HwTime
  deriving DecidableEq

end LiberaBase
