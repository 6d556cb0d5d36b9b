import LiberaBase.Dd.Window

/-!
# Divisions that may fault

`div_u64` and `div_u64_rem` divide by a 32-bit number, and the processor faults when it is 0.  Here
the functions that divide are followed up to such a fault.  Each of them is connected with its
plain form, in which a division by 0 has no meaning: without a fault the two agree.
-/

namespace LiberaBase

inductive DivideError where
  | zero
  deriving DecidableEq

/-- A computation that may end in a division by 0. -/
abbrev Checked := Except DivideError

/-- `div_u64` -/
def divU64C (x : HwTime) (y : U32) : Checked HwTime :=
  if y = 0 then .error .zero else .ok (divU64 x y)

/-- `div_u64_rem` -/
def remU64C (x : HwTime) (y : U32) : Checked U32 :=
  if y = 0 then .error .zero else .ok (remU64 x y)

/-- The division for the time to sleep; how long that is, the next answer of the clock shows. -/
def sleepC (divisor : U32) : Checked Unit := if divisor = 0 then .error .zero else .ok ()

variable {d flmcdHz divisor y : U32} {x : HwTime}

theorem divU64C_eq (hy : y ≠ 0) (x : HwTime) : divU64C x y = .ok (divU64 x y) := if_neg hy

theorem remU64C_eq (hy : y ≠ 0) (x : HwTime) : remU64C x y = .ok (remU64 x y) := if_neg hy

theorem sleepC_eq (hdivisor : divisor ≠ 0) : sleepC divisor = .ok () := if_neg hdivisor

/-! ## The conversions -/

def lmt2mtC (d : U32) (lmt : HwTime) : Checked HwTime := divU64C lmt d

def getCircOffsetLmtC (d : U32) (off hbStart lmt : HwTime) : Checked U32 := do
  let dummyDivisor ← divU64C (lmt - (off + hbStart) + U32.toHw (d / 2)) d
  remU64C dummyDivisor 2097152

def lst2lmtC (flmcdHz : U32) (lst : HwTime) (stime : Ltimestamp) : Checked (Option HwTime) :=
  let positive := stime.lst < lst
  let deltaLST := if positive then lst - stime.lst else stime.lst - lst
  if deltaLstOverflow < deltaLST then .ok none
  else do
    let deltaLMT ← divU64C (deltaLST * U32.toHw flmcdHz) 1250000000
    .ok (some (if positive then stime.lmt + deltaLMT else stime.lmt - deltaLMT))

def lmt2lstC (flmcdHz : U32) (lmt : HwTime) (stime : Ltimestamp) : Checked (Option HwTime) :=
  let positive := stime.lmt < lmt
  let deltaLMT := if positive then lmt - stime.lmt else stime.lmt - lmt
  if deltaLmtOverflow < deltaLMT then .ok none
  else do
    let deltaLST ← divU64C (deltaLMT * lscFreq * flmcDeciHz) flmcdHz
    .ok (some (if positive then stime.lst + deltaLST else stime.lst - deltaLST))

theorem lmt2mtC_eq (hd : d ≠ 0) (lmt : HwTime) : lmt2mtC d lmt = .ok (lmt2mt d lmt) :=
  divU64C_eq hd lmt

theorem getCircOffsetLmtC_eq (hd : d ≠ 0) (off hbStart lmt : HwTime) :
    getCircOffsetLmtC d off hbStart lmt = .ok (getCircOffsetLmt d off hbStart lmt) := by
  rw [getCircOffsetLmtC, divU64C_eq hd]
  exact remU64C_eq (show (2097152 : U32) ≠ 0 by decide) _

theorem lst2lmtC_eq (flmcdHz : U32) (lst : HwTime) (stime : Ltimestamp) :
    lst2lmtC flmcdHz lst stime = .ok (lst2lmt flmcdHz lst stime) := by
  have hdivisor : (1250000000 : U32) ≠ 0 := by decide
  unfold lst2lmtC lst2lmt
  dsimp only
  rw [divU64C_eq hdivisor]
  split_ifs <;> rfl

theorem lmt2lstC_eq (hf : flmcdHz ≠ 0) (lmt : HwTime) (stime : Ltimestamp) :
    lmt2lstC flmcdHz lmt stime = .ok (lmt2lst flmcdHz lmt stime) := by
  unfold lmt2lstC lmt2lst
  dsimp only
  rw [divU64C_eq hf]
  split_ifs <;> rfl

/-! ## The waits -/

/-- The loop of `wait_lmt` and `wait_lst`, which divides before every sleep. -/
def waitLoopC (divisor d : U32) (clock : Ltimestamp → HwTime) (start : HwTime)
    (ctime : Ltimestamp) : List CtimeAnswer → Checked (Option (ℤ × Ltimestamp))
  | [] => do
    sleepC divisor
    .ok none
  | .error e :: _ => do
    sleepC divisor
    .ok (some (e.code, ctime))
  | .ok now :: rest => do
    sleepC divisor
    if waitDelta d (clock now) start < 0 then waitLoopC divisor d clock start now rest
    else .ok (some (0, now))

def waitTimeC (divisor d : U32) (clock : Ltimestamp → HwTime) (ctime : Ltimestamp)
    (start : HwTime) (answers : List CtimeAnswer) : Checked (Option (ℤ × Ltimestamp)) :=
  match waitDecision d (clock ctime) start with
  | .tooLate => .ok (some (-ENODATA, ctime))
  | .tooEarly => .ok (some (-EAGAIN, ctime))
  | .wait => waitLoopC divisor d clock start ctime answers
  | .proceed => .ok (some (0, ctime))

def waitLmtC (flmcdHz d : U32) := waitTimeC flmcdHz d Ltimestamp.lmt

def waitLstC (d : U32) := waitTimeC 125000000 d Ltimestamp.lst

theorem waitLoopC_eq (hdivisor : divisor ≠ 0) (d : U32) (clock : Ltimestamp → HwTime)
    (start : HwTime) (ctime : Ltimestamp) (answers : List CtimeAnswer) :
    waitLoopC divisor d clock start ctime answers =
      .ok (waitLoop d clock start ctime answers) := by
  induction answers generalizing ctime with
  | nil => rw [waitLoopC, sleepC_eq hdivisor]; rfl
  | cons a answers ih =>
      cases a with
      | error e => rw [waitLoopC, sleepC_eq hdivisor]; rfl
      | ok now =>
          rw [waitLoopC, sleepC_eq hdivisor, waitLoop, ih]
          dsimp only [bind, Except.bind]
          split_ifs <;> rfl

theorem waitTimeC_eq (hdivisor : divisor ≠ 0) (d : U32) (clock : Ltimestamp → HwTime)
    (ctime : Ltimestamp) (start : HwTime) (answers : List CtimeAnswer) :
    waitTimeC divisor d clock ctime start answers =
      .ok (waitTime d clock ctime start answers) := by
  rw [waitTimeC, waitTime_eq]
  cases waitDecision d (clock ctime) start with
  | tooLate => rfl
  | tooEarly => rfl
  | wait => exact waitLoopC_eq hdivisor d clock start ctime answers
  | proceed => rfl

/-! ## The calls of the dd device -/

/-- The globals as `libera_init` and the requests leave them; `d` and `flmcdHz` may be 0. -/
structure Globals where
  d : U32
  flmcdHz : U32
  off : HwTime
  hbStart : HwTime

namespace DdLocal

/-- `libera_dd_llseek_specific` -/
def liberaDdLlseekC (g : Globals) (l : DdLocal) (time : HwTime) (whence : ℕ)
    (ctime : CtimeAnswer) : Checked (DdLocal × ℤ) :=
  match whence with
  | 0 =>
    let q := { l.qts with request := .explicitST }
    if time = 0 then
      match ctime with
      | .error e => .ok (l.withQts q, e.code)
      | .ok now => .ok (l.withQts { q with l.lst := now.lst, u.st := lst2st now.lst }, 0)
    else
      let st := ⟨time.setWidth 32, (time >>> 32).setWidth 32⟩
      .ok (l.withQts { q with u.st := st, l.lst := st2lst st }, 0)
  | 1 =>
    let q := { l.qts with request := .explicitMT }
    if time = 0 then
      match ctime with
      | .error e => .ok (l.withQts q, e.code)
      | .ok now => do
        let mt ← lmt2mtC g.d now.lmt
        .ok (l.withQts { q with l.lmt := now.lmt, u.mt := mt }, 0)
    else .ok (l.withQts { q with u.mt := time, l.lmt := mt2lmt g.d time }, 0)
  | 2 => .ok (l.withQts { l.qts with request := .implicit, trigoffset := time }, 0)
  | _ => .ok (l, -EINVAL)

end DdLocal

def resolveC (g : Globals) (q : Qtimestamp) (now lastTrigger : Ltimestamp)
    (waits : List CtimeAnswer) : Checked (Option (ℤ × Qtimestamp)) :=
  match q.request with
  | .explicitST => do
    match ← waitLstC g.d now q.l.lst waits with
    | none => .ok none
    | some (ret, ctime) =>
      if ret ≠ 0 then .ok (some (ret, q))
      else
        match ← lst2lmtC g.flmcdHz q.l.lst ctime with
        | none => .ok (some (-ERANGE, q))
        | some lmt =>
          let mt ← lmt2mtC g.d lmt
          .ok (some (0, { q with l.lmt := lmt, u.mt := mt }))
  | .explicitMT => do
    match ← waitLmtC g.flmcdHz g.d now q.l.lmt waits with
    | none => .ok none
    | some (ret, ctime) =>
      if ret ≠ 0 then .ok (some (ret, q))
      else
        match ← lmt2lstC g.flmcdHz q.l.lmt ctime with
        | none => .ok (some (-ERANGE, q))
        | some lst => .ok (some (0, { q with l.lst := lst, u.st := lst2st lst }))
  | .implicit => do
    let lmt := lastTrigger.lmt + q.trigoffset * U32.toHw g.d
    match ← lmt2lstC g.flmcdHz lmt lastTrigger with
    | none => .ok (some (-ERANGE, { q with l := ⟨lastTrigger.lst, lmt⟩ }))
    | some lst =>
      let mt ← lmt2mtC g.d lmt
      let q' := { q with l := ⟨lst, lmt⟩, u := ⟨lst2st lst, mt⟩ }
      let waited ← waitLmtC g.flmcdHz g.d now lmt waits
      .ok (waited.map fun (ret, _) ↦ (ret, q'))

/-- The rest of a read, which divides for the start address first. -/
def transferC (g : Globals) (l : DdLocal) (c : ReadCall) (q : Qtimestamp) : Checked ReadResult := do
  let _ ← getCircOffsetLmtC g.d g.off g.hbStart q.l.lmt
  if hd : g.d ≠ 0 then .ok (transfer ⟨g.d, hd, g.flmcdHz, g.off, g.hbStart⟩ l c q)
  else .error .zero

/-- `libera_dd_read_specific` -/
def liberaDdReadC (g : Globals) (l : DdLocal) (c : ReadCall) : Checked (Option ReadResult) := do
  if c.interrupted then .ok (some ⟨l, -ERESTARTSYS, none, false⟩)
  else if ddMaxNoatoms * atomSize < c.count then .ok (some ⟨l, -EINVAL, none, false⟩)
  else if c.count % atomSize ≠ 0 then .ok (some ⟨l, -EINVAL, none, false⟩)
  else if c.count / atomSize = 0 then
    let mt := l.qts.u.mt + U32.toHw (0 * l.dec)
    .ok (some ⟨l.withQts { l.qts with
      request := .explicitMT, u.mt := mt, l.lmt := mt2lmt g.d mt }, 0, none, false⟩)
  else
    match c.ctime with
    | .error e => .ok (some ⟨l, e.code, none, false⟩)
    | .ok now =>
      match ← resolveC g l.qts now c.lastTrigger c.waits with
      | none => .ok none
      | some (ret, q) =>
        if ret ≠ 0 then .ok (some ⟨l.withQts q, ret, none, false⟩)
        else
          let r ← transferC g l c q
          .ok (some r)

variable {g : Globals}

def Globals.env (g : Globals) (hd : g.d ≠ 0) : DdEnv := ⟨g.d, hd, g.flmcdHz, g.off, g.hbStart⟩

theorem liberaDdLlseekC_eq (hd : g.d ≠ 0) (l : DdLocal) (time : HwTime) (whence : ℕ)
    (ctime : CtimeAnswer) :
    l.liberaDdLlseekC g time whence ctime =
      .ok (l.liberaDdLlseek (g.env hd) time whence ctime) := by
  unfold DdLocal.liberaDdLlseekC DdLocal.liberaDdLlseek
  match whence with
  | 0 => cases ctime <;> dsimp only <;> split_ifs <;> rfl
  | 1 =>
      cases ctime with
      | error e => dsimp only; split_ifs <;> rfl
      | ok now =>
          dsimp only
          rw [lmt2mtC_eq hd]
          split_ifs <;> rfl
  | 2 => rfl
  | _ + 3 => rfl

theorem resolveC_eq (hd : g.d ≠ 0) (hf : g.flmcdHz ≠ 0) (q : Qtimestamp)
    (now lastTrigger : Ltimestamp) (waits : List CtimeAnswer) :
    resolveC g q now lastTrigger waits = .ok (resolve (g.env hd) q now lastTrigger waits) := by
  have hlst : (125000000 : U32) ≠ 0 := by decide
  unfold resolveC resolve
  cases q.request with
  | explicitST =>
      have hplain : waitLst (g.env hd).d now q.l.lst waits =
          waitTime g.d Ltimestamp.lst now q.l.lst waits := rfl
      dsimp only
      rw [waitLstC, waitTimeC_eq hlst, hplain]
      cases waitTime g.d Ltimestamp.lst now q.l.lst waits with
      | none => rfl
      | some r =>
          obtain ⟨ret, ctime⟩ := r
          dsimp only [bind, Except.bind, Option.map]
          rw [lst2lmtC_eq, show (g.env hd).flmcdHz = g.flmcdHz from rfl]
          split_ifs
          · rfl
          · cases lst2lmt g.flmcdHz q.l.lst ctime with
            | none => rfl
            | some lmt =>
                dsimp only
                rw [lmt2mtC_eq hd]
                rfl
  | explicitMT =>
      have hplain : waitLmt (g.env hd).d now q.l.lmt waits =
          waitTime g.d Ltimestamp.lmt now q.l.lmt waits := rfl
      dsimp only
      rw [waitLmtC, waitTimeC_eq hf, hplain]
      cases waitTime g.d Ltimestamp.lmt now q.l.lmt waits with
      | none => rfl
      | some r =>
          obtain ⟨ret, ctime⟩ := r
          dsimp only [bind, Except.bind, Option.map]
          rw [lmt2lstC_eq hf, show (g.env hd).flmcdHz = g.flmcdHz from rfl]
          split_ifs
          · rfl
          · cases lmt2lst g.flmcdHz q.l.lmt ctime with
            | none => rfl
            | some lst => rfl
  | implicit =>
      dsimp only
      rw [lmt2lstC_eq hf, show (g.env hd).flmcdHz = g.flmcdHz from rfl,
        show (g.env hd).d = g.d from rfl]
      cases lmt2lst g.flmcdHz (lastTrigger.lmt + q.trigoffset * U32.toHw g.d) lastTrigger with
      | none => rfl
      | some lst =>
          dsimp only [bind, Except.bind]
          rw [lmt2mtC_eq hd]
          dsimp only
          rw [waitLmtC, waitTimeC_eq hf]
          rfl

theorem transferC_eq (hd : g.d ≠ 0) (l : DdLocal) (c : ReadCall) (q : Qtimestamp) :
    transferC g l c q = .ok (transfer (g.env hd) l c q) := by
  rw [transferC, getCircOffsetLmtC_eq hd]
  exact dif_pos hd

theorem liberaDdReadC_eq (hd : g.d ≠ 0) (hf : g.flmcdHz ≠ 0) (l : DdLocal) (c : ReadCall) :
    liberaDdReadC g l c = .ok (liberaDdRead (g.env hd) l c) := by
  unfold liberaDdReadC liberaDdRead
  split_ifs
  · rfl
  · rfl
  · rfl
  · rfl
  · cases c.ctime with
    | error e => rfl
    | ok now =>
        dsimp only
        rw [resolveC_eq hd hf]
        cases resolve (g.env hd) l.qts now c.lastTrigger c.waits with
        | none => rfl
        | some r =>
            obtain ⟨ret, q⟩ := r
            dsimp only [bind, Except.bind, Option.map]
            rw [transferC_eq hd]
            split_ifs <;> rfl

end LiberaBase
