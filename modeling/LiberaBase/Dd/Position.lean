import LiberaBase.Dd.Read
import LiberaBase.Dma.Count

/-!
# The position of a file descriptor

After a read the descriptor keeps where the next one starts.  A read whose transfer
ends without an error moves it on by the atoms it returned; a read whose transfer is
cut short returns the atoms that were copied and leaves the position behind.
-/

namespace LiberaBase

/-! ## Errors -/

/-- The errors of `libera_dd_read_specific` and of what it calls up to the CB command. -/
def readErrors : List ℤ := [-ERESTARTSYS, -EFAULT, -EINVAL, -ERANGE, -ENODATA, -EAGAIN]

theorem CallError.code_mem (e : CallError) : e.code ∈ readErrors := by cases e <;> decide

theorem readErrors_neg {ret : ℤ} (h : ret ∈ readErrors) : ret < 0 := by
  have hall : ∀ e ∈ readErrors, e < 0 := by decide
  exact hall ret h

/-- The loop ends with the start passed, or with an error of the clock. -/
theorem waitLoop_ret {d : U32} {clock : Ltimestamp → HwTime} {start : HwTime}
    {ctime now : Ltimestamp} {answers : List CtimeAnswer} {ret : ℤ}
    (h : waitLoop d clock start ctime answers = some (ret, now)) :
    ret = 0 ∨ ∃ e : CallError, ret = e.code := by
  induction answers generalizing ctime with
  | nil => simp [waitLoop] at h
  | cons answer rest ih =>
      cases answer with
      | error e =>
          simp only [waitLoop, Option.some.injEq, Prod.mk.injEq] at h
          exact .inr ⟨e, h.1.symm⟩
      | ok t =>
          simp only [waitLoop] at h
          split_ifs at h
          · exact ih h
          · simp only [Option.some.injEq, Prod.mk.injEq] at h
            exact .inl h.1.symm

theorem waitTime_ret {d : U32} {clock : Ltimestamp → HwTime} {ctime now : Ltimestamp}
    {start : HwTime} {answers : List CtimeAnswer} {ret : ℤ}
    (h : waitTime d clock ctime start answers = some (ret, now)) :
    ret = 0 ∨ ret ∈ readErrors := by
  simp only [waitTime] at h
  split_ifs at h
  · obtain ⟨rfl, -⟩ := Prod.mk.inj (Option.some.inj h)
    exact .inr (by decide)
  · obtain ⟨rfl, -⟩ := Prod.mk.inj (Option.some.inj h)
    exact .inr (by decide)
  · rcases waitLoop_ret h with rfl | ⟨e, rfl⟩
    · exact .inl rfl
    · exact .inr e.code_mem
  · obtain ⟨rfl, -⟩ := Prod.mk.inj (Option.some.inj h)
    exact .inl rfl

theorem resolve_ret {env : DdEnv} {q q' : Qtimestamp} {now lastTrigger : Ltimestamp}
    {waits : List CtimeAnswer} {ret : ℤ}
    (h : resolve env q now lastTrigger waits = some (ret, q')) :
    ret = 0 ∨ ret ∈ readErrors := by
  have herange : -ERANGE ∈ readErrors := by decide
  unfold resolve at h
  split at h
  case h_1 | h_2 =>
    obtain ⟨⟨wret, ctime⟩, hwait, heq⟩ := Option.map_eq_some_iff.mp h
    simp only at heq
    split_ifs at heq
    · exact (Prod.mk.inj heq).1 ▸ waitTime_ret hwait
    · split at heq
      · exact .inr ((Prod.mk.inj heq).1 ▸ herange)
      · exact .inl (Prod.mk.inj heq).1.symm
  case h_3 =>
    simp only at h
    split at h
    · exact .inr ((Prod.mk.inj (Option.some.inj h)).1 ▸ herange)
    · obtain ⟨⟨wret, ctime⟩, hwait, heq⟩ := Option.map_eq_some_iff.mp h
      exact (Prod.mk.inj heq).1 ▸ waitTime_ret hwait

theorem resolve_nonpos {env : DdEnv} {q q' : Qtimestamp} {now lastTrigger : Ltimestamp}
    {waits : List CtimeAnswer} {ret : ℤ}
    (h : resolve env q now lastTrigger waits = some (ret, q')) : ret ≤ 0 := by
  rcases resolve_ret h with rfl | herror
  · exact le_rfl
  · exact (readErrors_neg herror).le

/-! ## What a read that returns data has done -/

theorem liberaDdRead_pos {env : DdEnv} {l : DdLocal} {c : ReadCall} {r : ReadResult}
    (h : liberaDdRead env l c = some r) (hpos : 0 < r.ret) :
    ¬ddMaxNoatoms * atomSize < c.count ∧ ∃ now q, c.ctime = .ok now ∧
      resolve env l.qts now c.lastTrigger c.waits = some (0, q) ∧ r = transfer env l c q := by
  have hno {x : ReadResult} (heq : x = r) : ¬x.ret ≤ 0 := fun hx ↦ by
    rw [← heq] at hpos
    exact hx.not_gt hpos
  unfold liberaDdRead at h
  split_ifs at h with hsignal hmax halign hzero
  · exact absurd (by decide : -ERESTARTSYS ≤ 0) (hno (Option.some.inj h))
  · exact absurd (by decide : -EINVAL ≤ 0) (hno (Option.some.inj h))
  · exact absurd (by decide : -EINVAL ≤ 0) (hno (Option.some.inj h))
  · exact absurd le_rfl (hno (Option.some.inj h))
  refine ⟨hmax, ?_⟩
  split at h
  case h_1 e _ => exact absurd e.code_neg.le (hno (Option.some.inj h))
  case h_2 now hnow =>
    obtain ⟨⟨ret, q⟩, hres, heq⟩ := Option.map_eq_some_iff.mp h
    simp only at heq
    split_ifs at heq with hne
    · exact absurd (resolve_nonpos hres) (hno heq)
    · obtain rfl := not_not.mp hne
      exact ⟨now, q, hnow, hres, heq.symm⟩

/-- Whatever becomes of the transfer, the stamp and the command are those of the resolved
request. -/
theorem transfer_sent (env : DdEnv) (l : DdLocal) (c : ReadCall) (q : Qtimestamp) :
    (transfer env l c q).loc.tstamp = q.u ∧
      (transfer env l c q).cb =
        liberaDdWriteCBfifo (getCircOffsetLmt env.d env.off env.hbStart q.l.lmt)
          (c.count / atomSize) l.dec := by
  unfold transfer
  simp only
  cases liberaDdWriteCBfifo (getCircOffsetLmt env.d env.off env.hbStart q.l.lmt)
    (c.count / atomSize) l.dec with
  | none => exact ⟨rfl, rfl⟩
  | some cb =>
      cases c.irq with
      | error e => exact ⟨rfl, rfl⟩
      | ok u =>
          simp only
          split_ifs <;> exact ⟨rfl, rfl⟩

theorem transfer_pos {env : DdEnv} {l : DdLocal} {c : ReadCall} {q : Qtimestamp}
    (hpos : 0 < (transfer env l c q).ret) : ∃ cb,
      liberaDdWriteCBfifo (getCircOffsetLmt env.d env.off env.hbStart q.l.lmt)
        (c.count / atomSize) l.dec = some cb ∧
      transfer env l c q =
        if c.transferRet < 0 then
          ⟨{ l with qts := q, tstamp := q.u }, toLong (c.written * 32), some cb, true⟩
        else
          ⟨{ l with qts := moveOn env q (BitVec.ofInt 32 c.transferRet) l.dec, tstamp := q.u },
            toLong (c.transferRet * 32), some cb, false⟩ := by
  unfold transfer at hpos ⊢
  simp only at hpos ⊢
  split at hpos
  · exact absurd hpos (by decide : ¬0 < -EINVAL)
  rename_i cb hcb
  split at hpos
  · exact absurd hpos (lt_irrefl _)
  exact ⟨cb, hcb, rfl⟩

/-- A read that returned, and the transfer it ran. -/
structure DdRead (env : DdEnv) where
  loc : DdLocal
  call : ReadCall
  result : ReadResult
  returns : liberaDdRead env loc call = some result
  transferred : Dma.TransferReturns (call.count.toNat / 32) call.transferRet call.written

namespace DdRead

variable {env : DdEnv}

def of (loc : DdLocal) (call : ReadCall) (h : (liberaDdRead env loc call).isSome)
    (ht : Dma.TransferReturns (call.count.toNat / 32) call.transferRet call.written) :
    DdRead env :=
  ⟨loc, call, (liberaDdRead env loc call).get h, (Option.some_get h).symm, ht⟩

def atoms (r : DdRead env) : ℕ := r.result.ret.toNat / 32

/-- What a read has done that returned data: the request was resolved to `q`, a command
was written for its LMT, and the position was moved on unless the transfer failed. -/
structure Delivered (r : DdRead env) (now : Ltimestamp) (q : Qtimestamp) (cb : CbCommand) :
    Prop where
  ctime : r.call.ctime = .ok now
  resolved : resolve env r.loc.qts now r.call.lastTrigger r.call.waits = some (0, q)
  command : liberaDdWriteCBfifo (getCircOffsetLmt env.d env.off env.hbStart q.l.lmt)
    (r.call.count / atomSize) r.loc.dec = some cb
  cb : r.result.cb = some cb
  tstamp : r.result.loc.tstamp = q.u
  dec : r.result.loc.dec = r.loc.dec
  qts : r.result.loc.qts = if r.call.transferRet < 0 then q else
    moveOn env q (BitVec.ofInt 32 r.call.transferRet) r.loc.dec
  ret : r.result.ret = r.call.written * 32
  written_le : r.call.written ≤ 4194304

/-- A transfer copies at most what was asked for, and no more is asked for than fits a
`long`. -/
theorem written_le {count : U32} {written : ℕ} (hcount : ¬ddMaxNoatoms * atomSize < count)
    (hwritten : written ≤ count.toNat / 32) : written ≤ 4194304 := by
  have hmax : (ddMaxNoatoms * atomSize).toNat = 134217728 := by decide
  have hle : count.toNat ≤ 134217728 := by
    rw [BitVec.not_lt, BitVec.le_def, hmax] at hcount
    exact hcount
  omega

theorem delivered (r : DdRead env) (hpos : 0 < r.result.ret) :
    ∃ now q cb, r.Delivered now q cb := by
  obtain ⟨hmax, now, q, hnow, hres, heq⟩ := liberaDdRead_pos r.returns hpos
  obtain ⟨hwritten, hall⟩ := r.transferred.count
  have hle := written_le hmax hwritten
  have hlong : toLong (r.call.written * 32) = r.call.written * 32 := by
    exact_mod_cast toLong_of_lt (n := r.call.written * 32) (by omega)
  rw [heq] at hpos
  obtain ⟨cb, hcb, htransfer⟩ := transfer_pos hpos
  rw [htransfer] at heq
  refine ⟨now, q, cb, ?_⟩
  split_ifs at heq with hneg
  · exact ⟨hnow, hres, hcb, by rw [heq], by rw [heq], by rw [heq], by rw [heq, if_pos hneg],
      by simp only [heq, hlong], hle⟩
  · have hret := hall (not_lt.mp hneg)
    exact ⟨hnow, hres, hcb, by rw [heq], by rw [heq], by rw [heq], by rw [heq, if_neg hneg],
      by simp only [heq, hret, hlong], hle⟩

theorem Delivered.atoms_eq {r : DdRead env} {now : Ltimestamp} {q : Qtimestamp}
    {cb : CbCommand} (h : r.Delivered now q cb) : r.atoms = r.call.written := by
  unfold atoms
  rw [h.ret]
  omega

/-! ## The position after a read -/

/-- The next read starts in Machine Time right behind the last atom that was returned. -/
structure Advanced (r : DdRead env) : Prop where
  request : r.result.loc.qts.request = .explicitMT
  mt : r.result.loc.qts.u.mt =
    r.result.loc.tstamp.mt + BitVec.ofNat 64 (r.atoms * r.loc.dec.toNat)
  lmt : r.result.loc.qts.l.lmt = mt2lmt env.d r.result.loc.qts.u.mt

end DdRead

/-- `OB_ret * dd_local->dec` has 32 bits. -/
theorem toNat_toHw_mul (n : ℕ) (dec : U32) :
    (U32.toHw (BitVec.ofInt 32 n * dec)).toNat = n * dec.toNat % 2 ^ 32 := by
  rw [U32.toNat_toHw, BitVec.toNat_mul, BitVec.ofInt_natCast, BitVec.toNat_ofNat, Nat.mod_mul_mod]

theorem atoms_mul_lt {n : ℕ} (dec : U32) (hn : n ≤ 4194304) : n * dec.toNat < 2 ^ 64 :=
  calc n * dec.toNat ≤ 4194304 * 2 ^ 32 := Nat.mul_le_mul hn dec.isLt.le
    _ < 2 ^ 64 := by decide

theorem toHw_mul_eq_iff {n : ℕ} (dec : U32) (hn : n ≤ 4194304) :
    U32.toHw (BitVec.ofInt 32 n * dec) = BitVec.ofNat 64 (n * dec.toNat) ↔
      n * dec.toNat < 2 ^ 32 := by
  rw [← BitVec.toNat_inj, toNat_toHw_mul, BitVec.toNat_ofNat,
    Nat.mod_eq_of_lt (atoms_mul_lt dec hn)]
  exact Nat.mod_eq_iff_lt (by decide)

namespace DdRead

variable {env : DdEnv}

/-- **Position after a read.**  A read that returns data leaves the position behind the
last atom it returned exactly if its transfer ended without an error and the product of
the atoms and the decimation fits 32 bits. -/
theorem advanced_iff (r : DdRead env) (hpos : 0 < r.result.ret) :
    r.Advanced ↔
      0 ≤ r.call.transferRet ∧ r.call.transferRet.toNat * r.loc.dec.toNat < 2 ^ 32 := by
  obtain ⟨now, q, cb, h⟩ := r.delivered hpos
  have hqts := h.qts
  have hatoms := h.atoms_eq
  split_ifs at hqts with hneg
  · -- an error leaves the position where it was, but atoms have been returned
    refine iff_of_false (fun hadv ↦ ?_) fun hall ↦ hall.1.not_gt hneg
    have hmt := hadv.mt
    rw [hqts, h.tstamp, hatoms, BitVec.self_eq_add_right, ← BitVec.toNat_inj,
      BitVec.toNat_ofNat, Nat.mod_eq_of_lt (atoms_mul_lt _ h.written_le)] at hmt
    have hwritten : 0 < r.call.written := by
      have hret := h.ret
      omega
    have hdec : 0 < r.loc.dec.toNat := by
      rw [BitVec.toNat_pos, BitVec.pos_iff_ne_zero]
      exact r.loc.dec_ne_zero
    exact (Nat.mul_pos hwritten hdec).ne' hmt
  · have hwritten := r.transferred.count.2 (not_lt.mp hneg)
    have hprod := toHw_mul_eq_iff r.loc.dec h.written_le
    rw [hwritten, Int.toNat_natCast, ← hprod]
    refine ⟨fun hadv ↦ ⟨Int.natCast_nonneg _, ?_⟩, fun heq ↦ ⟨?_, ?_, ?_⟩⟩
    · have hmt := hadv.mt
      rw [hqts, h.tstamp, hatoms, hwritten] at hmt
      exact (BitVec.add_right_inj _).mp hmt
    · rw [hqts]
      rfl
    · rw [hqts, h.tstamp, hatoms, hwritten]
      exact congrArg (q.u.mt + ·) heq.2
    · rw [hqts]
      rfl

/-- Two ticks of the machine clock for an atom, and no offset. -/
def twoTicks : DdEnv where
  d := 2
  d_ne_zero := by decide
  flmcdHz := 10
  off := 0
  hbStart := 0

def atMt : DdLocal := (DdLocal.ddOpen.liberaDdLlseek twoTicks 10 1 (.error .efault)).1

/-- A call long after the start, and the DD interrupt without delay; `trigger` is the LMT of
the last trigger. -/
def lateCall (trigger : HwTime) (count : U32) (transferRet : ℤ) (written : ℕ) : ReadCall where
  count := count
  interrupted := false
  ctime := .ok ⟨1000, 200⟩
  waits := []
  lastTrigger := ⟨500, trigger⟩
  irq := .ok ()
  transferRet := transferRet
  written := written

theorem advanced_iff_oneAtom :
    ∃ r : DdRead twoTicks, r.result.ret = 32 ∧ r.Advanced ∧ r.result.loc.qts.u.mt = 11 := by
  let r : DdRead twoTicks := .of atMt (lateCall 0 32 1 1) (by decide) Dma.transferReturns_oneAtom
  have hadv : r.Advanced := (advanced_iff r (by decide)).mpr (by decide)
  exact ⟨r, by decide, hadv, by decide⟩

/-- A read of two atoms that a signal cuts short returns the first one, and the next read
will return it again. -/
theorem advanced_not_cutShort :
    ∃ r : DdRead twoTicks, r.result.ret = 32 ∧ r.result.loc.tstamp.mt = 10 ∧
      r.result.loc.qts.u.mt = 10 ∧ ¬r.Advanced := by
  let r : DdRead twoTicks :=
    .of atMt (lateCall 0 64 (-ERESTARTSYS) 1) (by decide) Dma.transferReturns_oneOfTwo
  have hmt : r.result.loc.qts.u.mt = 10 := by decide
  have hstart : r.result.loc.tstamp.mt = 10 := by decide
  refine ⟨r, by decide, hstart, hmt, fun hadv ↦ ?_⟩
  have hatoms : r.atoms = 1 := by decide
  have hdec : r.loc.dec = 1 := rfl
  have hnext := hadv.mt
  rw [hmt, hstart, hatoms, hdec] at hnext
  exact absurd hnext (by decide)

end DdRead

end LiberaBase
