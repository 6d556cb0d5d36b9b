import LiberaBase.Kernel.Types
import LiberaBase.Lib.Exchange

/-!
# The voltage monitor

The firmware of the MSP430 has a main loop, which starts a conversion, waits for it and sleeps,
and an interrupt routine, which queues the answer to each byte received.  The driver exchanges
bytes with it; each exchange delivers the byte queued before.
-/

namespace LiberaBase

/-- `unsigned char`, and a word of the serial port, which is set to eight bits. -/
abbrev U8 := BitVec 8

namespace Msp

def MSP_PROTO_CONV_START : U8 := 0x10
def MSP_PROTO_CONV_IN_PROGRESS : U8 := 0xef
def MSP_PROTO_CONV_TEST : U8 := 0xa5
def MSP_PROTO_RESET : U8 := 0xaa

def EPROTO : ℤ := 71

/-! ## Firmware -/

/-- A conversion of the ADC: the exchanges that take place before it completes, and what it
leaves in `ADC12MEM0` to `ADC12MEM7`. -/
structure Conversion where
  exchanges : ℕ
  adc12mem : Fin 8 → BitVec 16

/-- The firmware's variables.  The conversions are numbered; `conversion` is the number of the
one that runs, or ran last, and `pending` the exchanges left until it completes. -/
structure Firmware where
  u0txbuf : U8
  noData : Bool
  shortData : Fin 8 → BitVec 16
  conversion : ℕ
  pending : ℕ

/-- `byte_data`, the bytes of `short_data`: the low byte of each word comes first. -/
def byteData (shortData : Fin 8 → BitVec 16) (i : Fin 16) : U8 :=
  (shortData ⟨i / 2, by omega⟩).extractLsb' (8 * (i % 2)) 8

namespace Firmware

variable (conv : ℕ → Conversion)

def complete (s : Firmware) : Firmware :=
  if s.noData = true ∧ s.pending = 0 then
    { s with shortData := (conv s.conversion).adc12mem, noData := false }
  else s

def start (n : ℕ) (s : Firmware) : Firmware :=
  complete conv { s with noData := true, conversion := n, pending := (conv n).exchanges }

/-- `rx_isr`: the answer that is queued, and whether the main loop is woken. -/
def rxIsr (u0rxbuf : U8) (s : Firmware) : U8 × Bool :=
  if s.noData = true then (MSP_PROTO_CONV_IN_PROGRESS, false)
  else if h : u0rxbuf.toNat < 16 then (byteData s.shortData ⟨u0rxbuf.toNat, h⟩, false)
  else if u0rxbuf = 16 then (MSP_PROTO_CONV_IN_PROGRESS, true)
  else (u0rxbuf + 1, false)

/-- What happens from one exchange to the next: the interrupt routine, then the main loop. -/
def receive (tx : U8) (s : Firmware) : Firmware :=
  let (answer, wake) := rxIsr tx s
  let s := { s with u0txbuf := answer }
  if wake then start conv (s.conversion + 1) s
  else complete conv { s with pending := s.pending - 1 }

/-- `msp_reset` starts the firmware again: `main` queues `0xaa` and starts a conversion. -/
def mspReset (s : Firmware) : Firmware :=
  start conv (s.conversion + 1) { s with u0txbuf := MSP_PROTO_RESET, shortData := fun _ ↦ 0 }

end Firmware

/-! ## Driver -/

section Driver

variable (conv : ℕ → Conversion)

/-- `ssp_exchange`; the serial port has its reply when the delay is over. -/
def sspExchange (tx : U8) (s : Firmware) : U8 × Firmware :=
  Lagged.exchange Firmware.u0txbuf (Firmware.receive conv) tx s

def checkProtocol (rx expect : U8) (s : Firmware) : ℤ × Firmware :=
  if rx = expect then (0, s) else (- EPROTO, s.mspReset conv)

def readData (s : Firmware) : List U8 × Firmware :=
  let sent := (List.range 15).map fun j ↦ BitVec.ofNat 8 (j + 1)
  Lagged.exchanges Firmware.u0txbuf (Firmware.receive conv) (sent ++ [MSP_PROTO_RESET - 1]) s

/-- `msp_transfer` up to the transformation of `rx_buf`; `fuel` bounds the loop that waits for
the conversion. -/
def mspTransfer (fuel : ℕ) (s : Firmware) : Option (Except ℤ (List U8) × Firmware) :=
  let (rx, s) := sspExchange conv MSP_PROTO_CONV_START s
  let (ret, s) := checkProtocol conv rx MSP_PROTO_RESET s
  if ret < 0 then some (.error ret, s)
  else
    let answer := Lagged.poll Firmware.u0txbuf (Firmware.receive conv) MSP_PROTO_CONV_TEST
      MSP_PROTO_CONV_IN_PROGRESS fuel s
    answer.map fun (rx, s) ↦
      let (ret, s) := checkProtocol conv rx (MSP_PROTO_CONV_TEST + 1) s
      if ret < 0 then (.error ret, s)
      else
        let (rx, s) := sspExchange conv 0 s
        let (ret, s) := checkProtocol conv rx (MSP_PROTO_CONV_TEST + 1) s
        if ret < 0 then (.error ret, s)
        else
          let (rxBuf, s) := readData conv s
          (.ok rxBuf, s)

/-- Calls of `msp_transfer` one after the other, with the firmware after each of them. -/
def mspTransfers (fuel : ℕ) : ℕ → Firmware → Option (List (Except ℤ (List U8) × Firmware))
  | 0, _ => some []
  | n + 1, s => do
    let call ← mspTransfer conv fuel s
    let calls ← mspTransfers fuel n call.2
    return call :: calls

end Driver

end Msp

end LiberaBase
