import Mathlib.Data.Nat.Notation

/-!
# FPGA register addresses

Offsets from `iobase`, as `libera_kernel.h` defines them; only the registers the
modelled functions write or read.
-/

namespace LiberaBase

def clkOffset : ℕ := 0x4000
def adcOffset : ℕ := 0x8000
def dscOffset : ℕ := 0xc000
def ddcOffset : ℕ := 0x14000
def hbOffset : ℕ := 0x18000
def faOffset : ℕ := 0x1c000
def saOffset : ℕ := 0x20000
def ilkOffset : ℕ := 0x24000
def faiOffset : ℕ := 0x28000

/-! ## Interrupts and features -/

def sbcIrqMask : ℕ := 0x0
def fpgaFeatureCustomer : ℕ := 0x18

/-! ## Timing modules -/

def tSCEventgen : ℕ := 0x8 + clkOffset
def tMCEventgenL : ℕ := 0xc + clkOffset
def tMCEventgenH : ℕ := 0x10 + clkOffset
def tSCTriggerMask : ℕ := 0x18 + clkOffset
def tMCTriggerMask : ℕ := 0x1c + clkOffset
def tTrigDelay : ℕ := 0x38 + clkOffset

/-! ## Data on Demand -/

def ddCBFifoL : ℕ := 0x0 + hbOffset
def ddCBFifoH : ℕ := 0x4 + hbOffset
def ddCBFifoReset : ℕ := 0x20 + hbOffset

/-! ## Fast and Slow Acquisition -/

def faPolyphaseFir : ℕ := 0x14 + faOffset
def faNotch1 : ℕ := 0x18 + faOffset
def faNotch2 : ℕ := 0x1c + faOffset
def faFifoReset : ℕ := 0x20 + faOffset
def faNsums : ℕ := 0x24 + faOffset
def faSumsumsLsw : ℕ := 0x28 + faOffset
def faSumsumsMsw : ℕ := 0x2c + faOffset
def faEnable : ℕ := 0x30 + faOffset
def faAveStop : ℕ := 0x34 + faOffset
def faAveWin : ℕ := 0x38 + faOffset
def faStart : ℕ := 0x3c + faOffset
def faWindow : ℕ := 0x40 + faOffset
def faiSwStatus : ℕ := 0x14024 + faiOffset
def faiCounterReset : ℕ := 0x14028 + faiOffset
def saControl : ℕ := 0x0 + saOffset

/-! ## Interlock, post mortem, signal conditioning -/

def ilkControl : ℕ := 0x0 + ilkOffset
def ilkXlow : ℕ := 0x8 + ilkOffset
def ilkXhigh : ℕ := 0xc + ilkOffset
def ilkYlow : ℕ := 0x10 + ilkOffset
def ilkYhigh : ℕ := 0x14 + ilkOffset
def pmXlow : ℕ := 0x20 + ilkOffset
def pmXhigh : ℕ := 0x24 + ilkOffset
def pmYlow : ℕ := 0x28 + ilkOffset
def pmYhigh : ℕ := 0x2c + ilkOffset
def adcMaxReg : ℕ := 0x4 + adcOffset
def dscIlkGainLimit : ℕ := 0x18 + dscOffset
def dscIlkOverflowLimit : ℕ := 0x1c + dscOffset
def dscIlkOverflowDur : ℕ := 0x20 + dscOffset
def dscSwSource : ℕ := 0x38 + dscOffset
def dscSwDelay : ℕ := 0x3c + dscOffset
def dscPmOverflowLimit : ℕ := 0x40 + dscOffset
def dscPmOverflowDur : ℕ := 0x44 + dscOffset
def ddcNco : ℕ := 0x4 + ddcOffset
def ddcMafLength : ℕ := 0xc + ddcOffset
def ddcMafDelay : ℕ := 0x10 + ddcOffset

/-! ## The blocks of the fa and dsc devices -/

def faiBlock : ℕ := 0x0 + faiOffset
def faiBlocksize : ℕ := 0x14000
def dscBlock : ℕ := 0x0 + adcOffset
def dscBlocksize : ℕ := 0xc000

end LiberaBase
