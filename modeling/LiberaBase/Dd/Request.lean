import LiberaBase.Dd.Position
import LiberaBase.Lib.Transducer

/-!
# The request of a file descriptor

What a descriptor keeps for its reads is a mode and one or two times, and which of them matter
depends on the mode.  The Machine Time matters in every mode: a read of no atoms makes it the
start of the next read.  Two descriptors whose requests agree in what matters give the same reads.
-/

namespace LiberaBase

open Transducer

variable {env : DdEnv}

/-- What a read shows: its value, the command it wrote, whether it reset the SDRAM controller, and
the stamp that `LIBERA_IOC_GET_DD_TSTAMP` gives after it. -/
structure Seen where
  ret : ℤ
  cb : Option CbCommand
  reset : Bool
  tstamp : Timestamp

def ReadResult.seen (r : ReadResult) : Seen := ⟨r.ret, r.cb, r.reset, r.loc.tstamp⟩

/-- `libera_dd_read_specific` as its caller sees it. -/
def seenRead (env : DdEnv) (l : DdLocal) (c : ReadCall) : Option (Seen × DdLocal) :=
  (liberaDdRead env l c).map fun r ↦ (r.seen, r.loc)

/-- A read that asks for atoms finds a transfer that can happen. -/
def ReadCall.Real (c : ReadCall) : Prop :=
  c.count / atomSize ≠ 0 → Dma.TransferReturns (c.count.toNat / 32) c.transferRet c.written

/-- No sequence of reads tells the requests of two descriptors apart; the stamp that is there
before the first read is no part of a request. -/
def DdLocal.SameReads (env : DdEnv) (l l' : DdLocal) : Prop :=
  Alike (seenRead env) ReadCall.Real l { l' with tstamp := l.tstamp }

/-- A read in Machine Time can get past the wait for this start and convert it. -/
def DdEnv.Serves (env : DdEnv) (lmt : HwTime) : Prop :=
  ∃ now waits ctime, waitLmt env.d now lmt waits = some (0, ctime) ∧
    (lmt2lst env.flmcdHz lmt ctime).isSome

/-- The Machine Times are equal, or start at one LMT that no read gets past. -/
def DdEnv.SameMt (env : DdEnv) (mt mt' : HwTime) : Prop :=
  mt = mt' ∨ mt2lmt env.d mt = mt2lmt env.d mt' ∧ ¬env.Serves (mt2lmt env.d mt)

theorem DdEnv.SameMt.mt2lmt_eq {mt mt' : HwTime} (h : env.SameMt mt mt') :
    mt2lmt env.d mt = mt2lmt env.d mt' := by
  rcases h with rfl | h
  · rfl
  · exact h.1

namespace Qtimestamp

/-- The requests agree in what matters in their mode. -/
inductive Agree (env : DdEnv) : Qtimestamp → Qtimestamp → Prop
  | implicit {u u' : Timestamp} {l l' : Ltimestamp} {trigoffset : HwTime}
      (hmt : env.SameMt u.mt u'.mt) :
      Agree env ⟨u, l, .implicit, trigoffset⟩ ⟨u', l', .implicit, trigoffset⟩
  | explicitST {st : Timespec} {lst mt mt' lmt lmt' trigoffset trigoffset' : HwTime}
      (hmt : env.SameMt mt mt') :
      Agree env ⟨⟨st, mt⟩, ⟨lst, lmt⟩, .explicitST, trigoffset⟩
        ⟨⟨st, mt'⟩, ⟨lst, lmt'⟩, .explicitST, trigoffset'⟩
  | explicitMT {st st' : Timespec} {lmt mt mt' lst lst' trigoffset trigoffset' : HwTime}
      (hmt : env.SameMt mt mt') (hserves : mt = mt' ∨ ¬env.Serves lmt) :
      Agree env ⟨⟨st, mt⟩, ⟨lst, lmt⟩, .explicitMT, trigoffset⟩
        ⟨⟨st', mt'⟩, ⟨lst', lmt⟩, .explicitMT, trigoffset'⟩

/-- The requests agree, and all four times are the same. -/
structure Resolved (env : DdEnv) (q q' : Qtimestamp) : Prop where
  agree : Agree env q q'
  l : q.l = q'.l
  u : q.u = q'.u

variable {q q' : Qtimestamp}

theorem Agree.sameMt (h : Agree env q q') : env.SameMt q.u.mt q'.u.mt := by
  cases h <;> assumption

/-- A read of no atoms starts the next one at the Machine Time that is stored, whatever the mode
was. -/
theorem moveOn_zero (env : DdEnv) (q : Qtimestamp) (dec : U32) : moveOn env q 0 dec =
    ⟨q.u, ⟨q.l.lst, mt2lmt env.d q.u.mt⟩, .explicitMT, q.trigoffset⟩ := by
  simp [moveOn, U32.toHw]

theorem agree_moveOn_zero (h : env.SameMt q.u.mt q'.u.mt) (dec : U32) :
    Agree env (moveOn env q 0 dec) (moveOn env q' 0 dec) := by
  rw [moveOn_zero, moveOn_zero, h.mt2lmt_eq]
  refine .explicitMT h ?_
  rcases h with heq | hno
  · exact .inl heq
  · exact .inr (hno.1 ▸ hno.2)

theorem agree_moveOn (hu : q.u.mt = q'.u.mt) (obRet dec : U32) :
    Agree env (moveOn env q obRet dec) (moveOn env q' obRet dec) := by
  unfold moveOn
  rw [hu]
  exact .explicitMT (.inl rfl) (.inl rfl)

/-- From requests that agree the resolution goes the same way, and a start that is found is found
with the same four times. -/
theorem Agree.resolve (h : Agree env q q') (now lastTrigger : Ltimestamp)
    (waits : List CtimeAnswer) :
    Option.Rel (fun p p' ↦ p.1 = p'.1 ∧ Agree env p.2 p'.2 ∧ (p.1 = 0 → Resolved env p.2 p'.2))
      (resolve env q now lastTrigger waits) (resolve env q' now lastTrigger waits) := by
  have herange : -ERANGE ≠ 0 := by decide
  cases h with
  | @implicit u u' l l' trigoffset hmt =>
      simp only [LiberaBase.resolve]
      set start := lastTrigger.lmt + trigoffset * U32.toHw env.d
      cases lmt2lst env.flmcdHz start lastTrigger with
      | none => exact .some ⟨rfl, .implicit hmt, fun h0 ↦ absurd h0 herange⟩
      | some lst =>
          simp only
          cases waitLmt env.d now start waits with
          | none => exact .none
          | some p =>
              exact .some ⟨rfl, .implicit (.inl rfl), fun _ ↦ ⟨.implicit (.inl rfl), rfl, rfl⟩⟩
  | @explicitST st lst mt mt' lmt lmt' trigoffset trigoffset' hmt =>
      simp only [LiberaBase.resolve]
      cases waitLst env.d now lst waits with
      | none => exact .none
      | some p =>
          simp only [Option.map_some]
          split_ifs with hret
          · exact .some ⟨rfl, .explicitST hmt, fun h0 ↦ absurd h0 hret⟩
          · cases lst2lmt env.flmcdHz lst p.2 with
            | none => exact .some ⟨rfl, .explicitST hmt, fun h0 ↦ absurd h0 herange⟩
            | some lmt =>
                exact .some ⟨rfl, .explicitST (.inl rfl), fun _ ↦ ⟨.explicitST (.inl rfl), rfl, rfl⟩⟩
  | @explicitMT st st' lmt mt mt' lst lst' trigoffset trigoffset' hmt hserves =>
      simp only [LiberaBase.resolve]
      cases hwait : waitLmt env.d now lmt waits with
      | none => exact .none
      | some p =>
          simp only [Option.map_some]
          split_ifs with hret
          · exact .some ⟨rfl, .explicitMT hmt hserves, fun h0 ↦ absurd h0 hret⟩
          · cases hlst : lmt2lst env.flmcdHz lmt p.2 with
            | none => exact .some ⟨rfl, .explicitMT hmt hserves, fun h0 ↦ absurd h0 herange⟩
            | some lst =>
                -- this start is served, so the Machine Times are equal
                have hserved : env.Serves lmt :=
                  ⟨now, waits, p.2, by rw [hwait, ← not_not.mp hret], by rw [hlst]; rfl⟩
                obtain rfl := hserves.resolve_right (not_not.mpr hserved)
                exact .some ⟨rfl, .explicitMT (.inl rfl) (.inl rfl),
                  fun _ ↦ ⟨.explicitMT (.inl rfl) (.inl rfl), rfl, rfl⟩⟩

end Qtimestamp

namespace DdLocal

open Qtimestamp

/-- Two descriptors that no sequence of reads tells apart. -/
structure Agrees (env : DdEnv) (l l' : DdLocal) : Prop where
  dec : l.dec = l'.dec
  tstamp : l.tstamp = l'.tstamp
  qts : Agree env l.qts l'.qts

variable {l l' : DdLocal} {q q' : Qtimestamp}

theorem transfer_agrees (hdec : l.dec = l'.dec) (hq : Resolved env q q') (c : ReadCall) :
    (transfer env l c q).seen = (transfer env l' c q').seen ∧
      Agrees env (transfer env l c q).loc (transfer env l' c q').loc := by
  obtain ⟨dec, hne, qts, tstamp⟩ := l
  obtain ⟨dec', hne', qts', tstamp'⟩ := l'
  obtain rfl : dec = dec' := hdec
  unfold transfer
  simp only
  rw [← hq.l]
  cases liberaDdWriteCBfifo (getCircOffsetLmt env.d env.off env.hbStart q.l.lmt)
    (c.count / atomSize) dec with
  | none => exact ⟨congrArg (Seen.mk _ _ _) hq.u, rfl, hq.u, hq.agree⟩
  | some cb =>
      cases c.irq with
      | error e => exact ⟨congrArg (Seen.mk _ _ _) hq.u, rfl, hq.u, hq.agree⟩
      | ok u =>
          simp only
          split_ifs with hneg
          · exact ⟨congrArg (Seen.mk _ _ _) hq.u, rfl, hq.u, hq.agree⟩
          · exact ⟨congrArg (Seen.mk _ _ _) hq.u, rfl, hq.u,
              agree_moveOn (congrArg Timestamp.mt hq.u) _ _⟩

theorem bisimulation_agrees (env : DdEnv) :
    Bisimulation (seenRead env) ReadCall.Real (Agrees env) := by
  intro l l' c h hc
  obtain ⟨hdec, hstamp, hqts⟩ := h
  have hseen (ret : ℤ) (cb : Option CbCommand) (reset : Bool) :
      Seen.mk ret cb reset l.tstamp = Seen.mk ret cb reset l'.tstamp := congrArg _ hstamp
  unfold seenRead liberaDdRead
  split_ifs with hsignal hmax hodd hzero
  · exact .some ⟨hseen .., hdec, hstamp, hqts⟩
  · exact .some ⟨hseen .., hdec, hstamp, hqts⟩
  · exact .some ⟨hseen .., hdec, hstamp, hqts⟩
  · refine .some ⟨hseen .., hdec, hstamp, ?_⟩
    rw [← hdec]
    exact agree_moveOn_zero hqts.sameMt l.dec
  · cases c.ctime with
    | error e => exact .some ⟨hseen .., hdec, hstamp, hqts⟩
    | ok now =>
        have hresolve := hqts.resolve now c.lastTrigger c.waits
        simp only
        generalize resolve env l.qts now c.lastTrigger c.waits = r,
          resolve env l'.qts now c.lastTrigger c.waits = r' at hresolve
        cases hresolve with
        | none => exact .none
        | @some p p' hp =>
            obtain ⟨hret, hagree, hresolved⟩ := hp
            simp only [Option.map_some]
            rw [← hret]
            split_ifs with h0
            · exact .some ⟨hseen .., hdec, hstamp, hagree⟩
            · exact .some (transfer_agrees hdec (hresolved (not_not.mp h0)) c)

end DdLocal

end LiberaBase
