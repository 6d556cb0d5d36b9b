import LiberaBase.Dd.Request

/-!
# Operations that transfer nothing

A seek that fails, a read of no atoms and a read that fails have nothing to move on, and what they
leave behind is compared with what they found by all the reads that may follow.  A request is told
from another by the clock: the time at which it becomes too late for a start is the mode's clock
and the start's own.
-/

namespace LiberaBase

open Transducer

variable {env : DdEnv} {l l' : DdLocal} {q q' : Qtimestamp} {now lastTrigger : Ltimestamp}

/-! ## Starts that are too late -/

/-- `LIBERA_DD_CIRCBUF_ATOMS * lgbl.d - LIBERA_DD_CIRCBUF_SAFE` -/
def safeSpan (d : U32) : U32 := 2097152 * d - 2097152 * d / 10

/-- The start lies further back than the circular buffer is safe. -/
def Late (d : U32) (now start : HwTime) : Prop := (safeSpan d).toNat < (now - start).toInt

theorem waitTime_enodata_iff {d : U32} {clock : Ltimestamp → HwTime} {start : HwTime}
    {ctime : Ltimestamp} {answers : List CtimeAnswer} :
    (∃ t, waitTime d clock ctime start answers = some (-ENODATA, t)) ↔
      Late d (clock ctime) start := by
  unfold waitTime Late safeSpan
  simp only
  constructor
  · rintro ⟨t, h⟩
    by_contra hlate
    rw [if_neg hlate] at h
    split_ifs at h with hearly hadvance
    · simp only [Option.some.injEq, Prod.mk.injEq] at h
      exact absurd h.1 (by decide)
    · rcases waitLoop_ret h with h | ⟨e, h⟩
      · exact absurd h (by decide)
      · cases e <;> exact absurd h (by decide)
    · simp only [Option.some.injEq, Prod.mk.injEq] at h
      exact absurd h.1 (by decide)
  · exact fun hlate ↦ ⟨ctime, if_pos hlate⟩

/-- The read of this request comes too late. -/
def TooLate (env : DdEnv) (q : Qtimestamp) (now lastTrigger : Ltimestamp) : Prop :=
  match q.request with
  | .explicitST => Late env.d now.lst q.l.lst
  | .explicitMT => Late env.d now.lmt q.l.lmt
  | .implicit =>
    (lmt2lst env.flmcdHz (lastTrigger.lmt + q.trigoffset * U32.toHw env.d) lastTrigger).isSome ∧
      Late env.d now.lmt (lastTrigger.lmt + q.trigoffset * U32.toHw env.d)

theorem map_enodata_iff {o : Option (ℤ × Ltimestamp)} {f : ℤ × Ltimestamp → ℤ × Qtimestamp}
    (hf : ∀ p, (f p).1 = -ENODATA ↔ p.1 = -ENODATA) :
    (∃ q', o.map f = some (-ENODATA, q')) ↔ ∃ t, o = some (-ENODATA, t) := by
  cases o with
  | none => simp
  | some p =>
      obtain ⟨ret, t⟩ := p
      simp only [Option.map_some, Option.some.injEq]
      constructor
      · rintro ⟨q', h⟩
        exact ⟨t, Prod.ext ((hf _).mp (congrArg Prod.fst h)) rfl⟩
      · rintro ⟨t', h⟩
        exact ⟨(f (ret, t)).2, Prod.ext ((hf _).mpr (congrArg Prod.fst h)) rfl⟩

/-- A wait and a conversion: only the wait says that it is too late. -/
theorem convert_enodata_iff {ret : ℤ} {converted : Option HwTime} {found : HwTime → Qtimestamp} :
    (if ret ≠ 0 then (ret, q)
      else match converted with
        | none => (-ERANGE, q)
        | some time => (0, found time)).1 = -ENODATA ↔ ret = -ENODATA := by
  split_ifs with hret
  · rfl
  · obtain rfl : ret = 0 := not_not.mp hret
    cases converted <;> simp [ERANGE, ENODATA]

theorem resolve_enodata_iff (waits : List CtimeAnswer) :
    (∃ q', resolve env q now lastTrigger waits = some (-ENODATA, q')) ↔
      TooLate env q now lastTrigger := by
  have herange : -ERANGE ≠ -ENODATA := by decide
  unfold resolve TooLate
  cases q.request with
  | implicit =>
      simp only
      cases lmt2lst env.flmcdHz (lastTrigger.lmt + q.trigoffset * U32.toHw env.d) lastTrigger with
      | none => simp [herange]
      | some lst =>
          simp only [Option.isSome_some, true_and]
          rw [map_enodata_iff fun p ↦ Iff.rfl]
          exact waitTime_enodata_iff
  | explicitST => exact (map_enodata_iff fun p ↦ convert_enodata_iff).trans waitTime_enodata_iff
  | explicitMT => exact (map_enodata_iff fun p ↦ convert_enodata_iff).trans waitTime_enodata_iff

/-- A read of one atom that a signal ends before the transfer. -/
def probe (now : Ltimestamp) (waits : List CtimeAnswer) (lastTrigger : Ltimestamp) : ReadCall where
  count := 32
  interrupted := false
  ctime := .ok now
  waits := waits
  lastTrigger := lastTrigger
  irq := .error .restartsys
  transferRet := 1
  written := 1

theorem probe_real (now : Ltimestamp) (waits : List CtimeAnswer) (lastTrigger : Ltimestamp) :
    (probe now waits lastTrigger).Real := by
  have hone : (32#32).toNat / 32 = 1 := by decide
  intro _
  change Dma.TransferReturns ((32#32).toNat / 32) 1 1
  rw [hone]
  exact Dma.transferReturns_oneAtom

theorem liberaDdRead_probe (env : DdEnv) (l : DdLocal) (now : Ltimestamp)
    (waits : List CtimeAnswer) (lastTrigger : Ltimestamp) :
    liberaDdRead env l (probe now waits lastTrigger) =
      (resolve env l.qts now lastTrigger waits).map fun p ↦
        if p.1 ≠ 0 then ⟨l.withQts p.2, p.1, none, false⟩
        else transfer env l (probe now waits lastTrigger) p.2 := by
  have hcount : (probe now waits lastTrigger).count = 32 := rfl
  have hsignal : (probe now waits lastTrigger).interrupted = false := rfl
  unfold liberaDdRead
  rw [hcount, hsignal, if_neg Bool.false_ne_true, if_neg (by decide), if_neg (by decide),
    if_neg (by decide)]
  rfl

theorem probe_enodata_iff (waits : List CtimeAnswer) :
    (∃ o l', seenRead env l (probe now waits lastTrigger) = some (o, l') ∧ o.ret = -ENODATA) ↔
      TooLate env l.qts now lastTrigger := by
  have htransfer (q : Qtimestamp) :
      (transfer env l (probe now waits lastTrigger) q).ret ≠ -ENODATA := by
    unfold transfer
    simp only
    split
    · exact (by decide : -EINVAL ≠ -ENODATA)
    · exact (by decide : (0 : ℤ) ≠ -ENODATA)
  rw [← resolve_enodata_iff waits]
  unfold seenRead
  rw [liberaDdRead_probe]
  cases resolve env l.qts now lastTrigger waits with
  | none => simp
  | some p =>
      obtain ⟨ret, q⟩ := p
      simp only [Option.map_some, Option.some.injEq, Prod.mk.injEq]
      constructor
      · rintro ⟨o, l', ⟨rfl, rfl⟩, hret⟩
        simp only [ReadResult.seen] at hret
        split_ifs at hret with h0
        · exact ⟨q, hret, rfl⟩
        · exact absurd hret (htransfer q)
      · rintro ⟨q', rfl, rfl⟩
        refine ⟨_, _, ⟨rfl, rfl⟩, ?_⟩
        rw [if_pos (by decide)]
        rfl

/-! ## Telling requests apart -/

theorem tooLate_iff_of_alike (h : Alike (seenRead env) ReadCall.Real l l')
    (now lastTrigger : Ltimestamp) :
    TooLate env l.qts now lastTrigger ↔ TooLate env l'.qts now lastTrigger := by
  have himp {l l' : DdLocal} (h : Alike (seenRead env) ReadCall.Real l l')
      (hlate : TooLate env l.qts now lastTrigger) : TooLate env l'.qts now lastTrigger := by
    obtain ⟨o, l₁, hs, hret⟩ := (probe_enodata_iff []).mpr hlate
    obtain ⟨l₁', hs', -⟩ := h.next (probe_real now [] lastTrigger) hs
    exact (probe_enodata_iff []).mp ⟨o, l₁', hs', hret⟩
  exact ⟨himp h, himp h.symm⟩

theorem late_iff {d : U32} {time start : HwTime} : Late d time start ↔
    (safeSpan d).toNat < (time - start).toNat ∧ (time - start).toNat < 2 ^ 63 := by
  have hspan := (safeSpan d).isLt
  have hlt := (time - start).isLt
  unfold Late
  rw [BitVec.toInt_eq_toNat_cond]
  split_ifs <;> omega

theorem late_add (d : U32) (start : HwTime) : Late d (start + 0x4000000000000000) start := by
  have hspan := (safeSpan d).isLt
  have hdiff : start + 0x4000000000000000 - start = 0x4000000000000000 := by
    rw [BitVec.add_comm, BitVec.add_sub_cancel]
  rw [late_iff, hdiff]
  exact ⟨hspan.trans (by decide), by decide⟩

theorem not_late_sub (d : U32) (start : HwTime) : ¬Late d (start - 0x4000000000000000) start := by
  have hdiff : (start - 0x4000000000000000 - start).toNat = 0xC000000000000000 := by bv_omega
  rw [late_iff, hdiff]
  omega

theorem exists_late {a b : HwTime} (d : U32) (hne : a ≠ b) :
    ∃ time, ¬(Late d time a ↔ Late d time b) := by
  have hmain {a b : HwTime} (hpos : 0 < (b - a).toNat) (hle : (b - a).toNat ≤ 2 ^ 63) :
      ∃ time, Late d time a ∧ ¬Late d time b := by
    generalize hspan : safeSpan d = span
    refine ⟨a + span.setWidth 64 + 1, ?_, ?_⟩ <;> rw [late_iff, hspan]
    · bv_omega
    · bv_omega
  rcases le_or_gt (b - a).toNat (2 ^ 63) with hle | hgt
  · obtain ⟨time, ha, hb⟩ := hmain (by bv_omega) hle
    exact ⟨time, fun h ↦ hb (h.mp ha)⟩
  · have hle : (a - b).toNat ≤ 2 ^ 63 := by bv_omega
    obtain ⟨time, hb, ha⟩ := hmain (by bv_omega) hle
    exact ⟨time, fun h ↦ ha (h.mpr hb)⟩

theorem exists_tooLate (env : DdEnv) (hne : q.request ≠ q'.request)
    (hexplicit : q.request ≠ .implicit) :
    ∃ now lastTrigger, TooLate env q now lastTrigger ∧ ¬TooLate env q' now lastTrigger := by
  unfold TooLate
  cases hq : q.request <;> cases hq' : q'.request
  case implicit.implicit | implicit.explicitST | implicit.explicitMT => exact absurd hq hexplicit
  case explicitST.explicitST | explicitMT.explicitMT => exact absurd (hq.trans hq'.symm) hne
  case explicitST.explicitMT =>
    exact ⟨⟨q.l.lst + 0x4000000000000000, q'.l.lmt - 0x4000000000000000⟩, ⟨0, 0⟩, late_add ..,
      fun h ↦ not_late_sub _ _ h⟩
  case explicitMT.explicitST =>
    exact ⟨⟨q'.l.lst - 0x4000000000000000, q.l.lmt + 0x4000000000000000⟩, ⟨0, 0⟩, late_add ..,
      fun h ↦ not_late_sub _ _ h⟩
  case explicitST.implicit =>
    set start := (0 : HwTime) + q'.trigoffset * U32.toHw env.d
    exact ⟨⟨q.l.lst + 0x4000000000000000, start - 0x4000000000000000⟩, ⟨0, 0⟩, late_add ..,
      fun h ↦ not_late_sub env.d start h.2⟩
  case explicitMT.implicit =>
    -- both starts are on one clock; the trigger is as far off as it can be
    have hstart (x off : HwTime) :
        x + 0x4000000000000000 = x + 0x8000000000000000 - off + off - 0x4000000000000000 := by
      bv_omega
    refine ⟨⟨0, q.l.lmt + 0x4000000000000000⟩,
      ⟨0, q.l.lmt + 0x8000000000000000 - q'.trigoffset * U32.toHw env.d⟩, late_add .., fun h ↦ ?_⟩
    have hlate := h.2
    simp only at hlate
    rw [hstart _ (q'.trigoffset * U32.toHw env.d)] at hlate
    exact not_late_sub _ _ hlate

theorem request_eq_of_alike (h : Alike (seenRead env) ReadCall.Real l l') :
    l.qts.request = l'.qts.request := by
  by_contra hne
  by_cases himplicit : l.qts.request = .implicit
  · have hexplicit : l'.qts.request ≠ .implicit := fun h' ↦ hne (himplicit.trans h'.symm)
    obtain ⟨now, lastTrigger, hlate, hnot⟩ := exists_tooLate env (Ne.symm hne) hexplicit
    exact hnot ((tooLate_iff_of_alike h now lastTrigger).mpr hlate)
  · obtain ⟨now, lastTrigger, hlate, hnot⟩ := exists_tooLate env hne himplicit
    exact hnot ((tooLate_iff_of_alike h now lastTrigger).mp hlate)

theorem lmt_eq_of_alike (h : Alike (seenRead env) ReadCall.Real l l')
    (hq : l.qts.request = .explicitMT) : l.qts.l.lmt = l'.qts.l.lmt := by
  by_contra hne
  obtain ⟨time, hlate⟩ := exists_late env.d hne
  have hiff := tooLate_iff_of_alike h ⟨0, time⟩ ⟨0, 0⟩
  unfold TooLate at hiff
  rw [← request_eq_of_alike h, hq] at hiff
  exact hlate hiff

theorem probe_tstamp (lastTrigger : Ltimestamp) {waits : List CtimeAnswer} {ctime : Ltimestamp}
    (hq : l.qts.request = .explicitMT)
    (hwait : waitLmt env.d now l.qts.l.lmt waits = some (0, ctime))
    (hlst : (lmt2lst env.flmcdHz l.qts.l.lmt ctime).isSome) :
    ∃ o l', seenRead env l (probe now waits lastTrigger) = some (o, l') ∧
      o.tstamp.mt = l.qts.u.mt := by
  obtain ⟨lst, hlst⟩ := Option.isSome_iff_exists.mp hlst
  obtain ⟨q, hresolve, hmt⟩ : ∃ q, resolve env l.qts now lastTrigger waits = some (0, q) ∧
      q.u.mt = l.qts.u.mt := by
    unfold resolve
    rw [hq]
    simp [hwait, hlst]
  have hread : seenRead env l (probe now waits lastTrigger) =
      some ((transfer env l (probe now waits lastTrigger) q).seen,
        (transfer env l (probe now waits lastTrigger) q).loc) := by
    unfold seenRead
    rw [liberaDdRead_probe, hresolve]
    rfl
  exact ⟨_, _, hread, (congrArg Timestamp.mt (transfer_sent ..).1).trans hmt⟩

theorem mt_eq_of_alike (h : Alike (seenRead env) ReadCall.Real l l')
    (hq : l.qts.request = .explicitMT) (hserves : env.Serves l.qts.l.lmt) :
    l.qts.u.mt = l'.qts.u.mt := by
  obtain ⟨now, waits, ctime, hwait, hlst⟩ := hserves
  have hlmt := lmt_eq_of_alike h hq
  have hq' := (request_eq_of_alike h).symm.trans hq
  obtain ⟨o, l₁, hs, hmt⟩ := probe_tstamp ⟨0, 0⟩ hq hwait hlst
  rw [hlmt] at hwait hlst
  obtain ⟨o', l₁', hs', hmt'⟩ := probe_tstamp ⟨0, 0⟩ hq' hwait hlst
  obtain ⟨l₂, hs₂, -⟩ := h.next (probe_real now waits ⟨0, 0⟩) hs
  obtain ⟨rfl, -⟩ := Prod.mk.inj (Option.some.inj (hs'.symm.trans hs₂))
  exact hmt.symm.trans hmt'

def readNone : ReadCall where
  count := 0
  interrupted := false
  ctime := .error .restartsys
  waits := []
  lastTrigger := ⟨0, 0⟩
  irq := .error .restartsys
  transferRet := 0
  written := 0

theorem readNone_real : readNone.Real := fun h ↦ absurd rfl h

theorem seenRead_none (env : DdEnv) (l : DdLocal) : seenRead env l readNone =
    some (⟨0, none, false, l.tstamp⟩, l.withQts (moveOn env l.qts 0 l.dec)) := rfl

theorem sameMt_of_alike (h : Alike (seenRead env) ReadCall.Real l l') :
    env.SameMt l.qts.u.mt l'.qts.u.mt := by
  obtain ⟨l₁, hs, hafter⟩ := h.next readNone_real (seenRead_none env l)
  rw [seenRead_none] at hs
  obtain rfl := (Prod.mk.inj (Option.some.inj hs)).2
  rw [Qtimestamp.moveOn_zero, Qtimestamp.moveOn_zero] at hafter
  have hlmt := lmt_eq_of_alike hafter rfl
  by_cases hserves : env.Serves (mt2lmt env.d l.qts.u.mt)
  · have hmt := mt_eq_of_alike hafter rfl hserves
    exact .inl hmt
  · exact .inr ⟨hlmt, hserves⟩

/-! ## What a failed read leaves -/

/-- Everything that matters in the mode is the same, apart from a Machine Time that is not the
start. -/
inductive Qtimestamp.Kept : Qtimestamp → Qtimestamp → Prop
  | implicit {u u' : Timestamp} {l l' : Ltimestamp} {trigoffset : HwTime} :
      Kept ⟨u, l, .implicit, trigoffset⟩ ⟨u', l', .implicit, trigoffset⟩
  | explicitST {st : Timespec} {lst mt mt' lmt lmt' trigoffset : HwTime} :
      Kept ⟨⟨st, mt⟩, ⟨lst, lmt⟩, .explicitST, trigoffset⟩
        ⟨⟨st, mt'⟩, ⟨lst, lmt'⟩, .explicitST, trigoffset⟩
  | explicitMT {st st' : Timespec} {lmt mt lst lst' trigoffset : HwTime} :
      Kept ⟨⟨st, mt⟩, ⟨lst, lmt⟩, .explicitMT, trigoffset⟩
        ⟨⟨st', mt⟩, ⟨lst', lmt⟩, .explicitMT, trigoffset⟩

open Qtimestamp

theorem Qtimestamp.Kept.refl (q : Qtimestamp) : Kept q q := by
  obtain ⟨u, l, request, trigoffset⟩ := q
  cases request with
  | implicit => exact .implicit
  | explicitST => exact .explicitST
  | explicitMT => exact .explicitMT

theorem Qtimestamp.Kept.agree (h : Kept q q') (hmt : env.SameMt q.u.mt q'.u.mt) :
    Agree env q q' := by
  cases h with
  | implicit => exact .implicit hmt
  | explicitST => exact .explicitST hmt
  | explicitMT => exact .explicitMT hmt (.inl rfl)

/-- The Machine Time that the resolution of a request stores in the request. -/
def Stores (env : DdEnv) (q : Qtimestamp) (now lastTrigger : Ltimestamp)
    (waits : List CtimeAnswer) (mt : HwTime) : Prop :=
  match q.request with
  | .explicitST => ∃ ctime lmt, waitLst env.d now q.l.lst waits = some (0, ctime) ∧
      lst2lmt env.flmcdHz q.l.lst ctime = some lmt ∧ mt = lmt2mt env.d lmt
  | .explicitMT => False
  | .implicit =>
    (lmt2lst env.flmcdHz (lastTrigger.lmt + q.trigoffset * U32.toHw env.d) lastTrigger).isSome ∧
      mt = lmt2mt env.d (lastTrigger.lmt + q.trigoffset * U32.toHw env.d)

/-- The Machine Time is as it was, or the one that is stored. -/
def StoredOr (env : DdEnv) (q : Qtimestamp) (now lastTrigger : Ltimestamp)
    (waits : List CtimeAnswer) (mt : HwTime) : Prop :=
  mt = q.u.mt ∧ (∀ mt', ¬Stores env q now lastTrigger waits mt') ∨
    Stores env q now lastTrigger waits mt

theorem resolve_kept {waits : List CtimeAnswer} {ret : ℤ}
    (h : resolve env q now lastTrigger waits = some (ret, q')) :
    Kept q q' ∧ StoredOr env q now lastTrigger waits q'.u.mt := by
  obtain ⟨u, l, request, trigoffset⟩ := q
  unfold resolve at h
  cases request with
  | implicit =>
      simp only at h
      cases hlst : lmt2lst env.flmcdHz (lastTrigger.lmt + trigoffset * U32.toHw env.d)
        lastTrigger with
      | none =>
          rw [hlst] at h
          obtain ⟨-, rfl⟩ := Prod.mk.inj (Option.some.inj h)
          exact ⟨.implicit, .inl ⟨rfl, fun mt' hstores ↦ by simp [Stores, hlst] at hstores⟩⟩
      | some lst =>
          rw [hlst] at h
          obtain ⟨p, -, hp⟩ := Option.map_eq_some_iff.mp h
          obtain ⟨-, rfl⟩ := Prod.mk.inj hp
          exact ⟨.implicit, .inr ⟨by rw [hlst]; rfl, rfl⟩⟩
  | explicitST =>
      obtain ⟨⟨wret, ctime⟩, hwait, hp⟩ := Option.map_eq_some_iff.mp h
      simp only at hwait hp
      split_ifs at hp with hret
      · obtain ⟨-, rfl⟩ := Prod.mk.inj hp
        refine ⟨.refl _, .inl ⟨rfl, ?_⟩⟩
        rintro mt' ⟨ctime', lmt, hwait', -⟩
        rw [hwait] at hwait'
        exact hret (Prod.mk.inj (Option.some.inj hwait')).1
      · obtain rfl : wret = 0 := not_not.mp hret
        cases hlmt : lst2lmt env.flmcdHz l.lst ctime with
        | none =>
            rw [hlmt] at hp
            obtain ⟨-, rfl⟩ := Prod.mk.inj hp
            refine ⟨.refl _, .inl ⟨rfl, ?_⟩⟩
            rintro mt' ⟨ctime', lmt, hwait', hlmt', -⟩
            obtain ⟨-, rfl⟩ := Prod.mk.inj (Option.some.inj (hwait.symm.trans hwait'))
            exact absurd (hlmt.symm.trans hlmt') (by simp)
        | some lmt =>
            rw [hlmt] at hp
            obtain ⟨-, rfl⟩ := Prod.mk.inj hp
            exact ⟨.explicitST, .inr ⟨ctime, lmt, hwait, hlmt, rfl⟩⟩
  | explicitMT =>
      obtain ⟨⟨wret, ctime⟩, hwait, hp⟩ := Option.map_eq_some_iff.mp h
      simp only at hp
      split_ifs at hp with hret
      · obtain ⟨-, rfl⟩ := Prod.mk.inj hp
        exact ⟨.refl _, .inl ⟨rfl, fun mt' hstores ↦ hstores⟩⟩
      · split at hp
        · obtain ⟨-, rfl⟩ := Prod.mk.inj hp
          exact ⟨.refl _, .inl ⟨rfl, fun mt' hstores ↦ hstores⟩⟩
        · obtain ⟨-, rfl⟩ := Prod.mk.inj hp
          exact ⟨.explicitMT, .inl ⟨rfl, fun mt' hstores ↦ hstores⟩⟩

/-- The Machine Time that a read stores in the request, if it gets that far. -/
def ReadStores (env : DdEnv) (l : DdLocal) (c : ReadCall) (mt : HwTime) : Prop :=
  c.interrupted = false ∧ ¬ddMaxNoatoms * atomSize < c.count ∧ c.count % atomSize = 0 ∧
    c.count / atomSize ≠ 0 ∧
      ∃ now, c.ctime = .ok now ∧ Stores env l.qts now c.lastTrigger c.waits mt

theorem transfer_neg {c : ReadCall} (hreal : c.Real) (hmax : ¬ddMaxNoatoms * atomSize < c.count)
    (hcount : c.count / atomSize ≠ 0) (hneg : (transfer env l c q).ret < 0) :
    (transfer env l c q).loc = { l with qts := q, tstamp := q.u } := by
  obtain ⟨hwritten, hall⟩ := (hreal hcount).count
  have hle := DdRead.written_le hmax hwritten
  have hlong : toLong (c.written * 32) = c.written * 32 := by
    exact_mod_cast toLong_of_lt (n := c.written * 32) (by omega)
  unfold transfer at hneg ⊢
  simp only at hneg ⊢
  cases hcb : liberaDdWriteCBfifo (getCircOffsetLmt env.d env.off env.hbStart q.l.lmt)
    (c.count / atomSize) l.dec with
  | none => rfl
  | some cb =>
      rw [hcb] at hneg
      cases hirq : c.irq with
      | error e => rfl
      | ok u =>
          rw [hirq] at hneg
          simp only at hneg
          split_ifs at hneg with hret
          · simp only [hlong] at hneg
            omega
          · simp only [hall (not_lt.mp hret), hlong] at hneg
            omega

theorem liberaDdRead_neg {c : ReadCall} {r : ReadResult} (hreal : c.Real)
    (h : liberaDdRead env l c = some r) (hneg : r.ret < 0) :
    r.loc.dec = l.dec ∧ Kept l.qts r.loc.qts ∧
      (r.loc.qts.u.mt = l.qts.u.mt ∧ (∀ mt, ¬ReadStores env l c mt) ∨
        ReadStores env l c r.loc.qts.u.mt) := by
  unfold liberaDdRead at h
  split_ifs at h with hsignal hmax hodd hzero
  · obtain rfl := Option.some.inj h
    exact ⟨rfl, .refl _, .inl ⟨rfl, fun mt hs ↦ absurd (hs.1.symm.trans hsignal) (by decide)⟩⟩
  · obtain rfl := Option.some.inj h
    exact ⟨rfl, .refl _, .inl ⟨rfl, fun mt hs ↦ hs.2.1 hmax⟩⟩
  · obtain rfl := Option.some.inj h
    exact ⟨rfl, .refl _, .inl ⟨rfl, fun mt hs ↦ hodd hs.2.2.1⟩⟩
  · obtain rfl := Option.some.inj h
    exact absurd hneg (lt_irrefl _)
  · cases hctime : c.ctime with
    | error e =>
        rw [hctime] at h
        obtain rfl := Option.some.inj h
        refine ⟨rfl, .refl _, .inl ⟨rfl, ?_⟩⟩
        rintro mt ⟨-, -, -, -, now, hnow, -⟩
        exact absurd (hctime.symm.trans hnow) (by simp)
    | ok now =>
        rw [hctime] at h
        obtain ⟨⟨ret, q⟩, hresolve, hr⟩ := Option.map_eq_some_iff.mp h
        have hloc : r.loc.dec = l.dec ∧ r.loc.qts = q := by
          simp only at hr
          split_ifs at hr with h0
          · obtain rfl := hr
            exact ⟨rfl, rfl⟩
          · rw [← hr] at hneg ⊢
            rw [transfer_neg hreal hmax hzero hneg]
            exact ⟨rfl, rfl⟩
        obtain ⟨hdec, rfl⟩ := hloc
        obtain ⟨hkept, hstored⟩ := resolve_kept hresolve
        refine ⟨hdec, hkept, ?_⟩
        rcases hstored with ⟨hmt, hnone⟩ | hstored
        · refine .inl ⟨hmt, ?_⟩
          rintro mt ⟨-, -, -, -, now', hnow, hstores⟩
          obtain rfl := Except.ok.inj (hctime.symm.trans hnow)
          exact hnone mt hstores
        · exact .inr ⟨by simpa using hsignal, hmax, not_not.mp hodd, hzero, now, hctime, hstored⟩

theorem ReadStores.unique {c : ReadCall} {mt mt' : HwTime} (h : ReadStores env l c mt)
    (h' : ReadStores env l c mt') : mt = mt' := by
  obtain ⟨-, -, -, -, now, hnow, hstores⟩ := h
  obtain ⟨-, -, -, -, now', hnow', hstores'⟩ := h'
  obtain rfl := Except.ok.inj (hnow.symm.trans hnow')
  unfold Stores at hstores hstores'
  cases hq : l.qts.request <;> rw [hq] at hstores hstores'
  case implicit => exact hstores.2.trans hstores'.2.symm
  case explicitMT => exact hstores.elim
  case explicitST =>
    obtain ⟨ctime, lmt, hwait, hlmt, rfl⟩ := hstores
    obtain ⟨ctime', lmt', hwait', hlmt', rfl⟩ := hstores'
    obtain ⟨-, rfl⟩ := Prod.mk.inj (Option.some.inj (hwait.symm.trans hwait'))
    rw [Option.some.inj (hlmt.symm.trans hlmt')]

/-! ## The operations -/

theorem sameReads_iff_of_kept (hdec : l'.dec = l.dec) (hkept : Kept l.qts l'.qts) :
    l.SameReads env l' ↔ env.SameMt l.qts.u.mt l'.qts.u.mt :=
  ⟨fun h ↦ @sameMt_of_alike env l { l' with tstamp := l.tstamp } h, fun hmt ↦
    (DdLocal.bisimulation_agrees env).alike ⟨hdec.symm, rfl, hkept.agree hmt⟩⟩

/-- The operations that set or use the position of a descriptor. -/
inductive DdOp where
  | llseek (time : HwTime) (whence : ℕ) (ctime : CtimeAnswer)
  | read (c : ReadCall)

namespace DdOp

/-- The descriptor afterwards and the returned value; `none` is a read that still waits. -/
def run (env : DdEnv) (l : DdLocal) : DdOp → Option (DdLocal × ℤ)
  | .llseek time whence ctime => some (l.liberaDdLlseek env time whence ctime)
  | .read c => (liberaDdRead env l c).map fun r ↦ (r.loc, r.ret)

def Real : DdOp → Prop
  | .llseek .. => True
  | .read c => c.Real

/-- The operation fails, or is a read of no atoms. -/
def Idle (ret : ℤ) : DdOp → Prop
  | .llseek .. => ret < 0
  | .read c => ret < 0 ∨ c.count = 0

/-- When an idle operation leaves the request alone. -/
def Keeps (env : DdEnv) (l : DdLocal) : DdOp → Prop
  | .llseek _ whence _ =>
    (whence = 0 → l.qts.request = .explicitST) ∧ (whence = 1 → l.qts.request = .explicitMT)
  | .read c =>
    if c.count = 0 then
      c.interrupted = false →
        l.qts.request = .explicitMT ∧ l.qts.l.lmt = mt2lmt env.d l.qts.u.mt
    else ∀ mt, ReadStores env l c mt → env.SameMt l.qts.u.mt mt

end DdOp

/-- A request for a time or for the current time fails only when it asks for the latter. -/
theorem currentTime_neg {time : HwTime} {ctime : CtimeAnswer} {failed set : DdLocal}
    {current : Ltimestamp → DdLocal} {result : DdLocal × ℤ}
    (hresult : result =
      if time = 0 then
        match ctime with
        | .error e => (failed, e.code)
        | .ok now => (current now, 0)
      else (set, 0))
    (hneg : result.2 < 0) : result.1 = failed := by
  subst hresult
  split_ifs at hneg ⊢
  · cases ctime with
    | error e => rfl
    | ok now => exact absurd hneg (lt_irrefl _)
  · exact absurd hneg (lt_irrefl _)

/-- A seek stores its mode before it asks for the time. -/
theorem llseek_neg {time : HwTime} {whence : ℕ} {ctime : CtimeAnswer}
    (hneg : (l.liberaDdLlseek env time whence ctime).2 < 0) :
    (l.liberaDdLlseek env time whence ctime).1 =
      if whence = 0 then l.withQts { l.qts with request := .explicitST }
      else if whence = 1 then l.withQts { l.qts with request := .explicitMT }
      else l := by
  unfold DdLocal.liberaDdLlseek at hneg ⊢
  match whence with
  | 0 | 1 => exact currentTime_neg rfl hneg
  | 2 => exact absurd hneg (lt_irrefl _)
  | whence + 3 => rfl

theorem sameReads_withRequest_iff (request : DdRequest) :
    l.SameReads env (l.withQts { l.qts with request := request }) ↔ l.qts.request = request := by
  constructor
  · exact fun h ↦ request_eq_of_alike h
  · rintro rfl
    exact Alike.refl l

theorem sameReads_readNone_iff :
    l.SameReads env (l.withQts (moveOn env l.qts 0 l.dec)) ↔
      l.qts.request = .explicitMT ∧ l.qts.l.lmt = mt2lmt env.d l.qts.u.mt := by
  rw [Qtimestamp.moveOn_zero]
  constructor
  · intro h
    have hq : l.qts.request = .explicitMT := request_eq_of_alike h
    exact ⟨hq, lmt_eq_of_alike h hq⟩
  · rintro ⟨hq, hlmt⟩
    have hqts : (⟨l.qts.u, ⟨l.qts.l.lst, mt2lmt env.d l.qts.u.mt⟩, .explicitMT,
        l.qts.trigoffset⟩ : Qtimestamp) = l.qts := by rw [← hlmt, ← hq]
    rw [hqts]
    exact Alike.refl l

theorem liberaDdRead_none {c : ReadCall} (hcount : c.count = 0) :
    liberaDdRead env l c =
      if c.interrupted then some ⟨l, -ERESTARTSYS, none, false⟩
      else some ⟨l.withQts (moveOn env l.qts 0 l.dec), 0, none, false⟩ := by
  unfold liberaDdRead
  rw [hcount]
  rfl

/-- An operation that transfers nothing leaves the request alone if a failed seek names the mode
that is set already, if a read of no atoms finds a Machine Time that is the start, and if a failed
read has not replaced the Machine Time. -/
theorem idle_keeps_iff {op : DdOp} {ret : ℤ} (hreal : op.Real)
    (hrun : op.run env l = some (l', ret)) (hidle : op.Idle ret) :
    l.SameReads env l' ↔ op.Keeps env l := by
  cases op with
  | llseek time whence ctime =>
      have heq : l.liberaDdLlseek env time whence ctime = (l', ret) := Option.some.inj hrun
      have hneg : (l.liberaDdLlseek env time whence ctime).2 < 0 := by
        rw [heq]
        exact hidle
      have hl := llseek_neg hneg
      rw [heq] at hl
      simp only at hl
      rw [hl]
      simp only [DdOp.Keeps]
      split_ifs with h0 h1
      · rw [sameReads_withRequest_iff]
        simp [h0]
      · rw [sameReads_withRequest_iff]
        simp [h1]
      · have hrefl : l.SameReads env l := Alike.refl l
        simp [h0, h1, hrefl]
  | read c =>
      obtain ⟨r, hr, heq⟩ := Option.map_eq_some_iff.mp hrun
      obtain ⟨rfl, rfl⟩ := Prod.mk.inj heq
      simp only [DdOp.Keeps]
      split_ifs with hcount
      · rw [liberaDdRead_none hcount] at hr
        split_ifs at hr with hsignal
        · obtain rfl := Option.some.inj hr
          have hrefl : l.SameReads env l := Alike.refl l
          simp [hsignal, hrefl]
        · obtain rfl := Option.some.inj hr
          have hsignal' : c.interrupted = false := Bool.not_eq_true _ ▸ hsignal
          exact sameReads_readNone_iff.trans ⟨fun h _ ↦ h, fun h ↦ h hsignal'⟩
      · have hneg : r.ret < 0 := hidle.resolve_right hcount
        obtain ⟨hdec, hkept, hmt⟩ := liberaDdRead_neg hreal hr hneg
        rw [sameReads_iff_of_kept hdec hkept]
        rcases hmt with ⟨hmt, hnone⟩ | hstores
        · rw [hmt]
          exact ⟨fun _ mt hs ↦ absurd hs (hnone mt), fun _ ↦ .inl rfl⟩
        · exact ⟨fun h mt hs ↦ hs.unique hstores ▸ h, fun h ↦ h _ hstores⟩

/-- A read that comes too late for a start at LMT 20, and finds a trigger at LMT 100. -/
def lateRead : ReadCall := probe ⟨0, 0x100000000⟩ [] ⟨0, 100⟩

/-- After a seek to Machine Time the read that comes too late leaves the request alone. -/
theorem idle_keeps_tooLate : ∃ l' ret,
    (DdOp.read lateRead).run DdRead.twoTicks DdRead.atMt = some (l', ret) ∧ ret = -ENODATA ∧
      DdRead.atMt.SameReads DdRead.twoTicks l' := by
  have hreal : (DdOp.read lateRead).Real := probe_real _ _ _
  have hrun : (DdOp.read lateRead).run DdRead.twoTicks DdRead.atMt =
      some (DdRead.atMt, -ENODATA) := by decide
  have hkeeps : (DdOp.read lateRead).Keeps DdRead.twoTicks DdRead.atMt := by
    rw [DdOp.Keeps, if_neg (by decide)]
    rintro mt ⟨-, -, -, -, now, -, hstores⟩
    exact hstores.elim
  exact ⟨_, _, hrun, rfl, (idle_keeps_iff hreal hrun (.inl (by decide))).mpr hkeeps⟩

/-- On a fresh descriptor a failed seek to System Time changes the mode, a read of no atoms changes
the mode, and a read that comes too late for the trigger leaves the trigger's Machine Time. -/
theorem idle_moves_request :
    (∃ l', (DdOp.llseek 0 0 (.error .restartsys)).run DdRead.twoTicks .ddOpen =
        some (l', -ERESTARTSYS) ∧ ¬DdLocal.ddOpen.SameReads DdRead.twoTicks l') ∧
      (∃ l', (DdOp.read readNone).run DdRead.twoTicks .ddOpen = some (l', 0) ∧
        ¬DdLocal.ddOpen.SameReads DdRead.twoTicks l') ∧
      ∃ l', (DdOp.read lateRead).run DdRead.twoTicks .ddOpen = some (l', -ENODATA) ∧
        ¬DdLocal.ddOpen.SameReads DdRead.twoTicks l' := by
  refine ⟨⟨_, rfl, fun h ↦ ?_⟩, ⟨_, rfl, fun h ↦ ?_⟩, ⟨_, rfl, fun h ↦ ?_⟩⟩
  · exact absurd (request_eq_of_alike h) (by decide)
  · exact absurd (request_eq_of_alike h) (by decide)
  · exact absurd (sameMt_of_alike h).mt2lmt_eq (by decide)

end LiberaBase
