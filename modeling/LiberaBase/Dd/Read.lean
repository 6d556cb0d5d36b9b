import LiberaBase.Dd.Time
import LiberaBase.Kernel.Registers

/-!
# Reading Data on Demand

A DD file descriptor keeps the time at which its next read starts.  `llseek` sets it
in System Time, in Machine Time or relative to the last trigger; a read resolves it to
an LMT, writes a command with the place of that LMT in the circular buffer, transfers
the atoms and moves the time on.
-/

namespace LiberaBase

/-! ## The file descriptor -/

/-- `LIBERA_DD_TIME_..` -/
inductive DdRequest where
  | implicit
  | explicitST
  | explicitMT
  deriving DecidableEq

/-- `libera_Qtimestamp_t`, less the fields that no function reads. -/
structure Qtimestamp where
  u : Timestamp
  l : Ltimestamp
  request : DdRequest
  /-- `loff_t` -/
  trigoffset : HwTime
  deriving DecidableEq

/-- `libera_dd_local_t`.  The decimation starts as 1, and no request makes it 0. -/
structure DdLocal where
  dec : U32
  dec_ne_zero : dec ≠ 0
  qts : Qtimestamp
  tstamp : Timestamp
  deriving DecidableEq

/-- The globals behind a read: `lgbl.d`, which is at least 1, `flmcdHz`,
`settime.lmt.off` and `HB_start_lmt`. -/
structure DdEnv where
  d : U32
  d_ne_zero : d ≠ 0
  flmcdHz : U32
  off : HwTime
  hbStart : HwTime

inductive CallError where
  | restartsys
  | efault
  deriving DecidableEq

def CallError.code : CallError → ℤ
  | .restartsys => -ERESTARTSYS
  | .efault => -EFAULT

theorem CallError.code_neg (e : CallError) : e.code < 0 := by cases e <;> decide

abbrev CtimeAnswer := Except CallError Ltimestamp

namespace DdLocal

/-- `libera_dd_open` -/
def ddOpen : DdLocal where
  dec := 1
  dec_ne_zero := U32.one_ne_zero
  qts := ⟨⟨⟨0, 0⟩, 0⟩, ⟨0, 0⟩, .implicit, 0⟩
  tstamp := ⟨⟨0, 0⟩, 0⟩

/-- `LIBERA_IOC_SET_DEC` -/
def setDec (l : DdLocal) (newDec : U32) : DdLocal × ℤ :=
  if h : newDec ≠ 0 then ({ l with dec := newDec, dec_ne_zero := h }, 0) else (l, -EINVAL)

def withQts (l : DdLocal) (q : Qtimestamp) : DdLocal := { l with qts := q }

/-- `libera_dd_llseek_specific`; `ctime` is asked for by the "current time" requests
only. -/
def liberaDdLlseek (env : DdEnv) (l : DdLocal) (time : HwTime) (whence : ℕ)
    (ctime : CtimeAnswer) : DdLocal × ℤ :=
  match whence with
  | 0 =>
    let q := { l.qts with request := .explicitST }
    if time = 0 then
      match ctime with
      | .error e => (l.withQts q, e.code)
      | .ok now => (l.withQts { q with l.lst := now.lst, u.st := lst2st now.lst }, 0)
    else
      let st := ⟨time.setWidth 32, (time >>> 32).setWidth 32⟩
      (l.withQts { q with u.st := st, l.lst := st2lst st }, 0)
  | 1 =>
    let q := { l.qts with request := .explicitMT }
    if time = 0 then
      match ctime with
      | .error e => (l.withQts q, e.code)
      | .ok now => (l.withQts { q with l.lmt := now.lmt, u.mt := lmt2mt env.d now.lmt }, 0)
    else (l.withQts { q with u.mt := time, l.lmt := mt2lmt env.d time }, 0)
  | 2 => (l.withQts { l.qts with request := .implicit, trigoffset := time }, 0)
  | _ => (l, -EINVAL)

end DdLocal

/-! ## Waiting for the start -/

/-- How far the time is past the start and the margin, as a signed number. -/
def waitDelta (d : U32) (now start : HwTime) : ℤ := (now - start - U32.toHw (64 * d)).toInt

/-- The loop of `wait_lmt` and `wait_lst`: sleep and ask for the time until the start
is passed.  `none` is a call that still waits when the answers run out. -/
def waitLoop (d : U32) (clock : Ltimestamp → HwTime) (start : HwTime) (ctime : Ltimestamp) :
    List CtimeAnswer → Option (ℤ × Ltimestamp)
  | [] => none
  | .error e :: _ => some (e.code, ctime)
  | .ok now :: rest =>
    if waitDelta d (clock now) start < 0 then waitLoop d clock start now rest else some (0, now)

/-- `wait_lmt` and `wait_lst`, which differ in the clock they compare.  The products
with `lgbl.d` are taken in 32 bits and then compared with signed 64-bit numbers, which wrap
when they are negated. -/
def waitTime (d : U32) (clock : Ltimestamp → HwTime) (ctime : Ltimestamp) (start : HwTime)
    (answers : List CtimeAnswer) : Option (ℤ × Ltimestamp) :=
  let span : U32 := 2097152 * d
  let maxInAdvance : U32 := 10485760 * d
  if (span - span / 10).toNat < (clock ctime - start).toInt then some (-ENODATA, ctime)
  else
    let deltaEnd := waitDelta d (clock ctime) start
    if deltaEnd < 0 then
      if maxInAdvance.toNat < (-deltaEnd).bmod (2 ^ 64) then some (-EAGAIN, ctime)
      else waitLoop d clock start ctime answers
    else some (0, ctime)

def waitLmt (d : U32) := waitTime d Ltimestamp.lmt

def waitLst (d : U32) := waitTime d Ltimestamp.lst

/-! ## The read -/

/-- What a read finds in its environment: its parameter, a signal at the device
mutex, the answers of `libera_get_CTIME` first and while it waits, the last trigger,
the wait for the DD interrupt, and the result of the transfer with the count
`dma->written` it left behind. -/
structure ReadCall where
  count : U32
  interrupted : Bool
  ctime : CtimeAnswer
  waits : List CtimeAnswer
  lastTrigger : Ltimestamp
  irq : Except CallError Unit
  transferRet : ℤ
  written : ℕ

/-- The two words written to the CB fifo. -/
structure CbCommand where
  h : U32
  l : U32
  deriving DecidableEq

def CbCommand.startAddr (c : CbCommand) : U32 := c.h &&& 0x1FFFFF

/-- The file descriptor after a read, the returned value, the CB command if one was
written, and whether the SDRAM controller was reset. -/
structure ReadResult where
  loc : DdLocal
  ret : ℤ
  cb : Option CbCommand
  reset : Bool

/-- `sizeof(libera_atom_dd_t)` -/
def atomSize : U32 := 32

def ddMaxNoatoms : U32 := 0x400000

/-- `libera_dd_write_CBfifo`: `none` is `-EINVAL`. -/
def liberaDdWriteCBfifo (startAddr noAtoms decimation : U32) : Option CbCommand :=
  let filtDec : U32 := if 1 < decimation then 1 else 0
  let atoms := noAtoms * decimation
  if ddMaxNoatoms < atoms then none
  else some
    { h := ((filtDec &&& 3) <<< 30) ||| (startAddr &&& 0x1FFFFF)
      l := atoms &&& 0x3FFFFF }

/-- The request is resolved: the missing ones of the four times are defined, and the
start has been waited for.  The first component is the value that is returned if it is
not 0. -/
def resolve (env : DdEnv) (q : Qtimestamp) (now lastTrigger : Ltimestamp)
    (waits : List CtimeAnswer) : Option (ℤ × Qtimestamp) :=
  match q.request with
  | .explicitST =>
    (waitLst env.d now q.l.lst waits).map fun (ret, ctime) ↦
      if ret ≠ 0 then (ret, q)
      else match lst2lmt env.flmcdHz q.l.lst ctime with
        | none => (-ERANGE, q)
        | some lmt => (0, { q with l.lmt := lmt, u.mt := lmt2mt env.d lmt })
  | .explicitMT =>
    (waitLmt env.d now q.l.lmt waits).map fun (ret, ctime) ↦
      if ret ≠ 0 then (ret, q)
      else match lmt2lst env.flmcdHz q.l.lmt ctime with
        | none => (-ERANGE, q)
        | some lst => (0, { q with l.lst := lst, u.st := lst2st lst })
  | .implicit =>
    let lmt := lastTrigger.lmt + q.trigoffset * U32.toHw env.d
    match lmt2lst env.flmcdHz lmt lastTrigger with
    | none => some (-ERANGE, { q with l := ⟨lastTrigger.lst, lmt⟩ })
    | some lst =>
      let q' := { q with l := ⟨lst, lmt⟩, u := ⟨lst2st lst, lmt2mt env.d lmt⟩ }
      (waitLmt env.d now lmt waits).map fun (ret, _) ↦ (ret, q')

/-- `MT & LMT increment for future read() requests`; the product is taken in 32 bits. -/
def moveOn (env : DdEnv) (q : Qtimestamp) (obRet dec : U32) : Qtimestamp :=
  let mt := q.u.mt + U32.toHw (obRet * dec)
  { q with request := .explicitMT, u.mt := mt, l.lmt := mt2lmt env.d mt }

/-- `libera_dd_read_specific`, from the CB command on. -/
def transfer (env : DdEnv) (l : DdLocal) (c : ReadCall) (q : Qtimestamp) : ReadResult :=
  let spanAtoms := c.count / atomSize
  let stamped := { l with qts := q, tstamp := q.u }
  let startAddr := getCircOffsetLmt env.d env.off env.hbStart q.l.lmt
  match liberaDdWriteCBfifo startAddr spanAtoms l.dec with
  | none => ⟨stamped, -EINVAL, none, false⟩
  | some cb =>
    match c.irq with
    -- `ret` is still 0 on this path
    | .error _ => ⟨stamped, 0, some cb, false⟩
    | .ok () =>
      if c.transferRet < 0 then ⟨stamped, toLong (c.written * 32), some cb, true⟩
      else
        let obRet := BitVec.ofInt 32 c.transferRet
        ⟨{ stamped with qts := moveOn env q obRet l.dec }, toLong (c.transferRet * 32), some cb,
          false⟩

/-- `libera_dd_read_specific`; `none` is a call that still waits for its start. -/
def liberaDdRead (env : DdEnv) (l : DdLocal) (c : ReadCall) : Option ReadResult :=
  if c.interrupted then some ⟨l, -ERESTARTSYS, none, false⟩
  else if ddMaxNoatoms * atomSize < c.count then some ⟨l, -EINVAL, none, false⟩
  else if c.count % atomSize ≠ 0 then some ⟨l, -EINVAL, none, false⟩
  else if c.count / atomSize = 0 then
    some ⟨l.withQts (moveOn env l.qts 0 l.dec), 0, none, false⟩
  else match c.ctime with
    | .error e => some ⟨l, e.code, none, false⟩
    | .ok now =>
      (resolve env l.qts now c.lastTrigger c.waits).map fun (ret, q) ↦
        if ret ≠ 0 then ⟨l.withQts q, ret, none, false⟩ else transfer env l c q

end LiberaBase
