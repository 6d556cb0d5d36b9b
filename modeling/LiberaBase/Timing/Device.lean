import LiberaBase.Kernel.Types
import LiberaBase.Kernel.Registers
import LiberaBase.Lib.RingFifo

/-!
# The event device and its fifos

The timing modules of the FPGA report every trigger twice, with its system clock
(SC) stamp and with its machine clock (MC) stamp.  Most triggers go to one fifo
for each clock; the external trigger and the post-mortem trigger are paired in a
circular buffer whose entries are written in two halves.

Every stamp the driver stores carries, for the proofs, the half of the physical
trigger it came from.
-/

namespace LiberaBase

/-! ## Sizes and numbers -/

def trigLog : ℤ := 4096

def tTrigTrigger : ℕ := 8
def tTrigPostMortem : ℕ := 7
def tTrigMCPrescaler : ℕ := 6
def tTrigSCPrescaler : ℕ := 5
def tTrigCtime : ℕ := 4

def triggerBit (i : ℕ) : U32 := 1#32 <<< (i + 22)

/-! ## Stamps and fifos -/

/-- One half of a physical trigger: its number in the hardware fifo of its clock,
counted for each trigger line, the raw stamp, and what the driver had in force
when it handled the half. -/
structure Half where
  number : ℕ
  raw : HwTime
  trigmode : U32
  off : HwTime
  deriving DecidableEq

structure Stamp where
  time : HwTime
  half : ℕ
  deriving DecidableEq

abbrev LiberaFifo := RingFifo Stamp

def flushFIFO (q : LiberaFifo) : LiberaFifo := q.flush

def lenFIFO (q : LiberaFifo) : ℤ := q.len trigLog

def emptyFIFO (q : LiberaFifo) : Bool := q.isEmpty

/-- `none` is the return value -1, the fifo would overflow. -/
def putToFIFO (q : LiberaFifo) (data : Stamp) : Option LiberaFifo := q.push trigLog data

/-- The pointer the source returns is the slot number. -/
def getFromFIFO (q : LiberaFifo) : Option (LiberaFifo × ℤ) := q.pop trigLog

structure LiberaEvent where
  id : U32
  param : U32
  deriving DecidableEq

abbrev LiberaEventFifo := RingFifo LiberaEvent

def putToEventFIFO (q : LiberaEventFifo) (data : LiberaEvent) : Option LiberaEventFifo :=
  q.push trigLog data

/-! ## The circular buffer of paired stamps -/

/-- An entry of `struct libera_circbuf`, and which halves wrote it. -/
structure Slot where
  stamp : Ltimestamp
  lstHalf : Half
  lmtHalf : Half
  deriving DecidableEq

structure CircBuf where
  stamp : ℤ → Slot
  put : ℤ

/-- `putLSTtoCircBuf`: the LST half leaves `put` where it is. -/
def putLSTtoCircBuf (q : CircBuf) (lst : HwTime) (half : Half) : CircBuf :=
  let slot := q.stamp q.put
  let slot' := { slot with stamp := { slot.stamp with lst := lst }, lstHalf := half }
  { q with stamp := Function.update q.stamp q.put slot' }

/-- `putLMTtoCircBuf`: the LMT half completes the entry. -/
def putLMTtoCircBuf (q : CircBuf) (lmt : HwTime) (half : Half) : CircBuf :=
  let slot := q.stamp q.put
  let slot' := { slot with stamp := { slot.stamp with lmt := lmt }, lmtHalf := half }
  { stamp := Function.update q.stamp q.put slot', put := (q.put + 1) % trigLog }

/-- `getFromCircBuf`: the entry completed last. -/
def getFromCircBuf (q : CircBuf) : Slot := q.stamp ((q.put - 1) % trigLog)

/-! ## Set time -/

def liberaSettimeST : U32 := 1
def liberaSettimeMT : U32 := 2

structure SettimeLst where
  ref : HwTime
  off : HwTime
  scphi : HwTime
  deriving DecidableEq

structure SettimeLmt where
  ref : HwTime
  offAll : HwTime
  off : HwTime
  offPll : HwTime
  mcphi : HwTime
  deriving DecidableEq

/-- `libera_settime_t` -/
structure Settime where
  update : U32
  lst : SettimeLst
  lmt : SettimeLmt
  deriving DecidableEq

/-- `evgen_t`: the event the event generator is to fire, and when. -/
structure Evgen where
  time : HwTime
  event : U32
  deriving DecidableEq

/-! ## The devices -/

/-- `struct libera_event_device`, less its open count and trigger vectors.  The
last two fields count the halves handled of each trigger line. -/
structure EventDevice where
  pairedTimestamps : ℕ → CircBuf
  scTimestamps : ℕ → LiberaFifo
  mcTimestamps : ℕ → LiberaFifo
  events : LiberaEventFifo
  scTime : HwTime
  mcTime : HwTime
  settime : Settime
  listHead : Evgen
  scHalves : ℕ → ℕ
  mcHalves : ℕ → ℕ

structure CfgDevice where
  param : ℕ → U32
  pmFreezed : Bool

/-- The fields of `struct libera_global` the timing code reads. -/
structure Global where
  eventMask : U32
  feature : U32
  d : U32
  dfa : U32
  numDfir : U32

/-- Module parameters, which an administrator may change at any time. -/
structure ModuleParams where
  kadc : U32
  ilkdur : U32
  pmdur : U32
  pmsize : U32

inductive Clock where
  | sc
  | mc
  deriving DecidableEq

/-- One pass through the `switch(i)` of a handler. -/
structure Dispatch where
  clock : Clock
  trig : ℕ
  raw : HwTime
  deriving DecidableEq

/-- A stamp that a fifo accepted, and the settime offsets then in force. -/
structure Accepted where
  clock : Clock
  trig : ℕ
  value : HwTime
  raw : HwTime
  settime : Settime
  deriving DecidableEq

/-- An entry of the circular buffer of `trig` that `putLMTtoCircBuf` completed. -/
structure Completed where
  trig : ℕ
  slot : Slot
  deriving DecidableEq

/-- One consumption of an armed system-time update: what was armed, the trigger
entry it was applied to, and the offset it set. -/
structure Consumed where
  ref : HwTime
  scphi : HwTime
  slot : Slot
  off : HwTime
  deriving DecidableEq

/-- The part of the driver the timing interrupts and the ioctls of the cfg and
event devices work on.  The fields from `dispatched` on are history. -/
structure Driver where
  event : EventDevice
  cfg : CfgDevice
  lgbl : Global
  params : ModuleParams
  /-- register writes, oldest first -/
  writes : List (ℕ × U32)
  dispatched : List Dispatch
  accepted : List Accepted
  completed : List Completed
  consumed : List Consumed

namespace Driver

def writel (s : Driver) (val : U32) (addr : ℕ) : Driver :=
  { s with writes := s.writes ++ [(addr, val)] }

end Driver

/-! ## Events -/

def liberaEventCfg : U32 := 1#32 <<< 1
def liberaEventPM : U32 := 1#32 <<< 4
def liberaEventTrigget : U32 := 1#32 <<< 6
def liberaEventTrigset : U32 := 1#32 <<< 7

namespace Driver

/-- `libera_send_event`: a masked event is dropped, and so is an event that finds
the fifo full. -/
def liberaSendEvent (s : Driver) (id param : U32) : Driver :=
  if id &&& s.lgbl.eventMask = 0 then s
  else match putToEventFIFO s.event.events ⟨id, param⟩ with
    | some q => { s with event := { s.event with events := q } }
    | none => s

end Driver

end LiberaBase
