import LiberaBase.Dma.Engine

/-!
# The DMA transfer as an interleaved machine

`libera_dd_transfer_OBfifo_DMA` runs in the reading process, and the end
interrupt of the DMA controller may arrive between any two of its steps.  The
machine keeps the shared `libera_dma_t`, the reader's program counter and local
variables, and the controller.  Regions under `local_irq_save` are single steps;
everywhere else a step is one access to the shared structure.

The controller serves its commands in the order they were issued, storing one
atom of the OB-fifo stream per step.  The fields below `taken` are history: they
record what was done and influence nothing.
-/

namespace LiberaBase.Dma

/-- Jiffies in a second: the kernel is configured with `CONFIG_HZ=100`. -/
def HZ : ℕ := 100

/-- Where the transfer goes: a user buffer, a kernel buffer, or nowhere when
`read()` is given a null pointer. -/
inductive Dest where
  | user
  | kernel
  | null
  deriving DecidableEq

inductive SyncSite where
  | first
  | restart
  deriving DecidableEq

inductive Pc where
  | idle
  | start
  | sync (site : SyncSite)
  | syncRead (site : SyncSite)
  | syncCheck (site : SyncSite)
  | firstCommand
  | waitTest
  | sleepTest
  | sleepSignal
  | take
  | copyTest
  | copyAtom
  | advance
  | yieldTest
  | yieldSignal
  | needsStart
  | refresh
  | restartCommand
  | loopTest
  | loopTestEmpty
  | finish
  | returned (ret : ℤ)
  deriving DecidableEq

/-- A command programmed into the controller. -/
structure Command where
  target : ℤ
  csize : ℤ
  owner : ℕ
  deriving DecidableEq

/-- What the driver knew when it issued a command. -/
structure Issue where
  csize : ℤ
  remaining : ℤ
  obSize : ℤ
  put : ℤ
  len : ℤ
  deriving DecidableEq

/-- One execution of `dma->remaining -= dma->csize`: the transfer the ended
command was issued for, and the transfer in force. -/
structure Ended where
  owner : ℕ
  transfer : ℕ
  deriving DecidableEq

structure System (α : Type*) where
  dma : LiberaDma α
  pc : Pc
  atomCount : ℕ
  dest : Dest
  obAtoms : ℕ
  fifoAtoms : ℕ
  i : ℕ
  waitCount : ℕ
  /-- what the caller's buffer has received -/
  copied : List (Cell α)
  outstanding : List Command
  /-- atoms already stored for the oldest outstanding command -/
  stored : ℕ
  /-- atoms taken from the OB-fifo stream so far -/
  taken : ℕ
  transfer : ℕ
  base : ℕ
  issued : List Issue
  overflows : List ℤ
  ended : List Ended

variable {α : Type*}

namespace System

/-- `libera_dma_command(.., &dma->buf[dma->put], dma->csize*sizeof(..))` -/
def liberaDmaCommand (s : System α) : System α :=
  { s with
    dma := { s.dma with dmacTransfer := true }
    outstanding := s.outstanding ++ [⟨s.dma.put, s.dma.csize, s.transfer⟩]
    issued := s.issued ++ [⟨s.dma.csize, s.dma.remaining, ddOBSize s.dma.obFIFOstatus,
      s.dma.put, lenDMAFIFO s.dma⟩] }

/-- `libera_dma_interrupt` for an end interrupt of `cmd`; `obStatus` is what
`DD_OB_STATUS` reads. -/
def liberaDmaInterrupt (s : System α) (cmd : Command) (obStatus : U32) : System α :=
  let dma₁ := { s.dma with
    obFIFOstatus := obStatus
    overrun := s.dma.overrun || ddOBOverrun obStatus
    remaining := s.dma.remaining - s.dma.csize }
  let ended := s.ended ++ [⟨cmd.owner, s.transfer⟩]
  let s₁ := match putToDMAFIFO dma₁ dma₁.csize with
    | some dma₂ => { s with dma := liberaDmaGetDMACCsize dma₂, ended := ended }
    | none =>
      { s with
        dma := liberaDmaGetDMACCsize dma₁
        ended := ended
        overflows := s.overflows ++ [dma₁.csize] }
  if 0 < s₁.dma.csize then s₁.liberaDmaCommand
  else { s₁ with dma := { s₁.dma with dmacTransfer := false } }

/-- The controller raises the end interrupt of its oldest command once all of
it is stored. -/
def endInterrupt (s : System α) (obStatus : U32) : Option (System α) :=
  match s.outstanding with
  | [] => none
  | cmd :: rest =>
    if (s.stored : ℤ) = cmd.csize then
      some ({ s with outstanding := rest, stored := 0 }.liberaDmaInterrupt cmd obStatus)
    else none

/-- The controller stores the next atom of the stream for its oldest command. -/
def store (stream : ℕ → α) (s : System α) : Option (System α) :=
  match s.outstanding with
  | [] => none
  | cmd :: _ =>
    if (s.stored : ℤ) < cmd.csize then
      some { s with
        dma := { s.dma with
          buf := Function.update s.dma.buf (cmd.target + s.stored) ⟨stream s.taken, cmd.owner⟩ }
        stored := s.stored + 1
        taken := s.taken + 1 }
    else none

def goto (s : System α) (pc : Pc) : System α := { s with pc := pc }

/-- `dma->aborting = TRUE` and the return on a signal or on `pm_entry`. -/
def abort (s : System α) : System α :=
  { s with dma := { s.dma with aborting := true }, pc := .returned (-ERESTARTSYS) }

/-- The first interrupt-free block: read the status and reset `libera_dma_t`. -/
def startUp (s : System α) (obStatus : U32) : System α :=
  { s with
    dma := liberaDmaGetDMACCsize (flushDMAFIFO { s.dma with
      obFIFOstatus := obStatus
      overrun := false
      dmacTransfer := false
      remaining := toLong s.atomCount
      aborting := false
      written := 0 })
    waitCount := 0
    pc := .sync .first }

def firstCommand (s : System α) : System α :=
  { s with dma := liberaDmaGetDMACCsize s.dma, pc := .waitTest }.liberaDmaCommand

/-- The interrupt-free block that restarts the controller: back to the loop
test if the ring is full, out of the loop on an overrun. -/
def restartCommand (s : System α) : System α :=
  let s₁ := { s with dma := liberaDmaGetDMACCsize s.dma }
  if ¬0 < s₁.dma.csize ∧ liberaDmaFifoAtoms - 1 - lenDMAFIFO s₁.dma = 0 then s₁.goto .loopTest
  else if s₁.dma.overrun then s₁.goto .finish
  else { s₁ with pc := .loopTest }.liberaDmaCommand

/-- The consistency checks behind the loop, and the return value. -/
def finish (s : System α) (obStatus : U32) : System α :=
  let s₁ := { s with dma := { s.dma with obFIFOstatus := obStatus } }
  if !s₁.dma.overrun && ddOBSize obStatus != 0 then s₁.goto (.returned (- EIO))
  else if !s₁.dma.overrun && s₁.obAtoms != s₁.atomCount then s₁.goto (.returned (-EFAULT))
  else s₁.goto (.returned s₁.dma.written)

end System

/-- What the reader's step finds in its environment: the OB-fifo status, a
pending signal, `dd->pm_entry`, a fault of `copy_to_user`, and whether the yield
interval has passed. -/
structure ReaderEnv where
  obStatus : U32 := 0
  signal : Bool := false
  pmEntry : Bool := false
  fault : Bool := false
  yield : Bool := false

namespace System

/-- One step of `libera_dd_transfer_OBfifo_DMA`. -/
def reader (s : System α) (e : ReaderEnv) : Option (System α) :=
  match s.pc with
  | .idle => none
  | .start => some (s.startUp e.obStatus)
  -- libera_OB_fifo_sync
  | .sync site =>
    if dmaNoData s.dma then some (s.goto (.syncRead site))
    else match site with
      | .first => some (s.goto .firstCommand)
      | .restart => some (s.goto .restartCommand)
  | .syncRead site =>
    some { s with dma := { s.dma with obFIFOstatus := e.obStatus }, pc := .syncCheck site }
  | .syncCheck site =>
    let s₁ := { s with
      dma := { s.dma with overrun := s.dma.overrun || ddOBOverrun s.dma.obFIFOstatus }
      waitCount := s.waitCount + 1 }
    if HZ < s.waitCount then some (s₁.goto (.returned (- EIO))) else some (s₁.goto (.sync site))
  | .firstCommand => some s.firstCommand
  -- wait until the DMA fifo is not empty
  | .waitTest => some (s.goto (if emptyDMAFIFO s.dma then .sleepTest else .take))
  | .sleepTest => some (s.goto (if emptyDMAFIFO s.dma then .sleepSignal else .take))
  | .sleepSignal =>
    if !e.signal && !e.pmEntry then some (s.goto .sleepTest) else some s.abort
  -- take over what it holds
  | .take =>
    let s₁ := { s with fifoAtoms := (lenDMAFIFO s.dma).toNat, i := 0 }
    if s₁.fifoAtoms = 0 then some (s₁.goto (.returned (-EFAULT)))
    else some (s₁.goto (if s.dest = .null then .yieldTest else .copyTest))
  | .copyTest =>
    if s.i < s.fifoAtoms then
      let s₁ := { s with obAtoms := s.obAtoms + 1 }
      some (s₁.goto (if s.obAtoms < s.atomCount && !s.dma.overrun then .copyAtom else .advance))
    else some (s.goto .yieldTest)
  | .copyAtom =>
    if s.dest = .user && e.fault then some (s.goto (.returned (-EFAULT)))
    else some { s with
      copied := s.copied ++ [s.dma.buf s.dma.get]
      dma := { s.dma with written := s.dma.written + 1 }
      pc := .advance }
  | .advance =>
    some { s with
      dma := { s.dma with get := (s.dma.get + 1) % liberaDmaFifoAtoms }
      i := s.i + 1
      pc := .copyTest }
  | .yieldTest => some (s.goto (if e.yield then .yieldSignal else .needsStart))
  | .yieldSignal => if e.signal || e.pmEntry then some s.abort else some (s.goto .needsStart)
  -- start the controller again
  | .needsStart => some (s.goto (if dmaNeedsStart s.dma then .refresh else .loopTest))
  | .refresh =>
    some { s with
      dma := { s.dma with
        obFIFOstatus := e.obStatus
        overrun := s.dma.overrun || ddOBOverrun e.obStatus }
      waitCount := 0
      pc := .sync .restart }
  | .restartCommand => some s.restartCommand
  | .loopTest => some (s.goto (if s.dma.remaining ≠ 0 then .waitTest else .loopTestEmpty))
  | .loopTestEmpty => some (s.goto (if emptyDMAFIFO s.dma then .finish else .waitTest))
  | .finish => some (s.finish e.obStatus)
  | .returned _ => none

/-- A call of `libera_dd_transfer_OBfifo_DMA`, possible when no other is
running: the callers hold `dd->sem`. -/
def call (s : System α) (atomCount : ℕ) (dest : Dest) : Option (System α) :=
  let s₁ := { s with
    pc := .start, atomCount := atomCount, dest := dest, obAtoms := 0, copied := []
    transfer := s.transfer + 1, base := s.taken, issued := [], overflows := [] }
  match s.pc with
  | .idle => some s₁
  | .returned _ => some s₁
  | _ => none

end System

inductive Label where
  | call (atomCount : ℕ) (dest : Dest)
  | reader (env : ReaderEnv)
  | store
  | endInterrupt (obStatus : U32)

def step (stream : ℕ → α) (s : System α) : Label → Option (System α)
  | .call n dest => s.call n dest
  | .reader e => s.reader e
  | .store => s.store stream
  | .endInterrupt obStatus => s.endInterrupt obStatus

/-- The state after the driver is loaded: `memset` clears `lgbl`. -/
def boot (init : ℤ → Cell α) : System α where
  dma :=
    { buf := init, put := 0, get := 0, csize := 0, remaining := 0, obFIFOstatus := 0
      overrun := false, dmacTransfer := false, aborting := false, written := 0 }
  pc := .idle
  atomCount := 0
  dest := .null
  obAtoms := 0
  fifoAtoms := 0
  i := 0
  waitCount := 0
  copied := []
  outstanding := []
  stored := 0
  taken := 0
  transfer := 0
  base := 0
  issued := []
  overflows := []
  ended := []

end LiberaBase.Dma
