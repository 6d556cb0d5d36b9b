import LiberaBase.Dd.Request

/-!
# What a read returns

A read of some atoms is to return the bytes of the atoms it delivered, at least one, or the number
of an error: to its caller 0 is the end of the file.  Up to the CB command every error is carried
into the returned value.  Behind it the value is still 0 when the wait for the DD interrupt fails,
and a transfer that fails returns what it has copied, which may be nothing.
-/

namespace LiberaBase

open Runs

variable {env : DdEnv} {l : DdLocal} {q : Qtimestamp} {c : ReadCall} {r : ReadResult}

/-- The bytes of some atoms, which were copied, or an error. -/
def Reports (c : ReadCall) (r : ReadResult) : Prop :=
  0 < r.ret ∧ r.ret = 32 * c.written ∨ r.ret ∈ readErrors

/-- The read gets as far as the wait for the DD interrupt. -/
def Commands (env : DdEnv) (l : DdLocal) (c : ReadCall) : Prop :=
  c.interrupted = false ∧ ¬ddMaxNoatoms * atomSize < c.count ∧ c.count % atomSize = 0 ∧
    c.count / atomSize ≠ 0 ∧ ∃ now q, c.ctime = .ok now ∧
      resolve env l.qts now c.lastTrigger c.waits = some (0, q) ∧
      (liberaDdWriteCBfifo (getCircOffsetLmt env.d env.off env.hbStart q.l.lmt)
        (c.count / atomSize) l.dec).isSome

/-! ## Before the command -/

theorem atoms_eq_zero (hodd : c.count % atomSize = 0) (hzero : c.count / atomSize = 0) :
    c.count = 0 := by
  have hdiv := congrArg BitVec.toNat hzero
  have hmod := congrArg BitVec.toNat hodd
  rw [BitVec.toNat_udiv] at hdiv
  rw [BitVec.toNat_umod] at hmod
  change c.count.toNat / 32 = 0 at hdiv
  change c.count.toNat % 32 = 0 at hmod
  exact BitVec.eq_of_toNat_eq (by change c.count.toNat = 0; omega)

theorem ret_mem_of_not_commands (hcount : c.count ≠ 0) (h : liberaDdRead env l c = some r)
    (hno : ¬Commands env l c) : r.ret ∈ readErrors := by
  have hrestart : -ERESTARTSYS ∈ readErrors := by decide
  have heinval : -EINVAL ∈ readErrors := by decide
  unfold liberaDdRead at h
  split_ifs at h with hsignal hmax hodd hzero
  · exact Option.some.inj h ▸ hrestart
  · exact Option.some.inj h ▸ heinval
  · exact Option.some.inj h ▸ heinval
  · exact absurd (atoms_eq_zero (not_not.mp hodd) hzero) hcount
  · cases hctime : c.ctime with
    | error e =>
        rw [hctime] at h
        exact Option.some.inj h ▸ e.code_mem
    | ok now =>
        rw [hctime] at h
        obtain ⟨⟨ret, q⟩, hresolve, hr⟩ := Option.map_eq_some_iff.mp h
        simp only at hr
        split_ifs at hr with hret
        · rw [← hr]
          exact (resolve_ret hresolve).resolve_left hret
        · obtain rfl : ret = 0 := not_not.mp hret
          cases hcb : liberaDdWriteCBfifo (getCircOffsetLmt env.d env.off env.hbStart q.l.lmt)
            (c.count / atomSize) l.dec with
          | none =>
              rw [← hr, transfer, hcb]
              exact heinval
          | some cb =>
              exact absurd ⟨by simpa using hsignal, hmax, not_not.mp hodd, hzero, now, q, hctime,
                hresolve, by rw [hcb]; rfl⟩ hno

theorem Commands.read_eq (h : Commands env l c) : ∃ q cb,
    liberaDdWriteCBfifo (getCircOffsetLmt env.d env.off env.hbStart q.l.lmt)
      (c.count / atomSize) l.dec = some cb ∧
    liberaDdRead env l c = some (transfer env l c q) := by
  obtain ⟨hsignal, hmax, hodd, hzero, now, q, hctime, hresolve, hcb⟩ := h
  obtain ⟨cb, hcb⟩ := Option.isSome_iff_exists.mp hcb
  refine ⟨q, cb, hcb, ?_⟩
  rw [liberaDdRead, if_neg (by simp [hsignal]), if_neg hmax, if_neg (not_not.mpr hodd),
    if_neg hzero, hctime]
  simp only [hresolve, Option.map_some]
  rw [if_neg (not_not.mpr rfl)]

/-! ## Behind the command -/

theorem transfer_ret {cb : CbCommand} (hreal : c.Real)
    (hmax : ¬ddMaxNoatoms * atomSize < c.count) (hcount : c.count / atomSize ≠ 0)
    (hcb : liberaDdWriteCBfifo (getCircOffsetLmt env.d env.off env.hbStart q.l.lmt)
      (c.count / atomSize) l.dec = some cb) :
    (transfer env l c q).ret = if c.irq = .ok () then 32 * (c.written : ℤ) else 0 := by
  obtain ⟨hwritten, hall⟩ := (hreal hcount).count
  have hle := DdRead.written_le hmax hwritten
  have hlong : toLong (c.written * 32) = 32 * c.written := by
    rw [mul_comm]
    exact_mod_cast toLong_of_lt (n := 32 * c.written) (by omega)
  simp only [transfer, hcb]
  cases hirq : c.irq with
  | error e => rfl
  | ok u =>
      simp only [if_pos]
      split_ifs with hret
      · simp only [hlong]
      · simp only [hall (not_lt.mp hret), hlong]

/-- A read of some atoms reports a failure as a failure exactly if the DD interrupt comes and the
transfer copies an atom whenever the read gets as far as waiting for the interrupt. -/
theorem read_reports_iff (hreal : c.Real) (hcount : c.count ≠ 0)
    (h : liberaDdRead env l c = some r) :
    Reports c r ↔ (Commands env l c → c.irq = .ok () ∧ 0 < c.written) := by
  by_cases hcommands : Commands env l c
  · obtain ⟨q, cb, hcb, hread⟩ := hcommands.read_eq
    obtain rfl := Option.some.inj (hread.symm.trans h)
    have hret := transfer_ret hreal hcommands.2.1 hcommands.2.2.2.1 hcb
    unfold Reports
    rw [hret]
    constructor
    · rintro (⟨hpos, -⟩ | herror) -
      · split_ifs at hpos with hirq
        · exact ⟨hirq, by omega⟩
        · exact absurd hpos (lt_irrefl _)
      · have hneg := readErrors_neg herror
        split_ifs at hneg <;> omega
    · intro hdelivers
      obtain ⟨hirq, hwritten⟩ := hdelivers hcommands
      rw [if_pos hirq]
      exact .inl ⟨by omega, rfl⟩
  · exact iff_of_true (.inr (ret_mem_of_not_commands hcount h hcommands))
      fun h ↦ absurd h hcommands

theorem read_reports_oneAtom : ∃ r : DdRead DdRead.twoTicks, r.call.count = 32 ∧
    Reports r.call r.result ∧ r.result.ret = 32 := by
  let r : DdRead DdRead.twoTicks :=
    .of DdRead.atMt (DdRead.lateCall 0 32 1 1) (by decide) Dma.transferReturns_oneAtom
  have hreal : r.call.Real := fun _ ↦ r.transferred
  have hreports : Reports r.call r.result :=
    (read_reports_iff hreal (by decide) r.returns).mpr fun _ ↦ ⟨rfl, by decide⟩
  exact ⟨r, rfl, hreports, by decide⟩

/-- A signal while the transfer waits for its first block. -/
def atOnce : List Dma.Label :=
  [.reader { obStatus := 1 }, .reader {}, .reader {}, .reader {}, .reader {},
    .reader { signal := true }]

theorem transferReturns_nothing : Dma.TransferReturns 1 (-ERESTARTSYS) 0 := by
  have hcall : Dma.step id Dma.bootCounting (.call 1 .user) =
      some { Dma.bootCounting with pc := .start, atomCount := 1, dest := .user, transfer := 1 } :=
    rfl
  have hrun := exec_get_steps (Dma.step id) Dma.noCall
    { Dma.bootCounting with pc := .start, atomCount := 1, dest := .user, transfer := 1 } atOnce
    (by decide)
  exact ⟨ℕ, id, _, _, _, _, _, hcall, hrun, by decide, by decide⟩

/-- A signal while a read of one atom waits for the DD interrupt, or for its transfer. -/
theorem read_returns_zero :
    ∃ r r' : DdRead DdRead.twoTicks,
      (r.call.count = 32 ∧ r.call.irq = .error .restartsys ∧ r.result.ret = 0 ∧
        ¬Reports r.call r.result) ∧
      r'.call.count = 32 ∧ r'.call.transferRet = -ERESTARTSYS ∧ r'.result.ret = 0 ∧
        ¬Reports r'.call r'.result := by
  let r : DdRead DdRead.twoTicks := .of DdRead.atMt
    { DdRead.lateCall 0 32 1 1 with irq := .error .restartsys } (by decide)
    Dma.transferReturns_oneAtom
  let r' : DdRead DdRead.twoTicks := .of DdRead.atMt (DdRead.lateCall 0 32 (-ERESTARTSYS) 0)
    (by decide) transferReturns_nothing
  have hno {r : DdRead DdRead.twoTicks} (h : r.result.ret = 0) : ¬Reports r.call r.result := by
    rintro (⟨hpos, -⟩ | herror)
    · exact absurd (h ▸ hpos) (lt_irrefl _)
    · exact absurd (h ▸ readErrors_neg herror) (lt_irrefl _)
  have hzero : r.result.ret = 0 := by decide
  have hzero' : r'.result.ret = 0 := by decide
  exact ⟨r, r', ⟨rfl, rfl, hzero, hno hzero⟩, rfl, rfl, hzero', hno hzero'⟩

end LiberaBase
