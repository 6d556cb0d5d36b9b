import LiberaBase.Dd.Position
import LiberaBase.Lib.Grid

/-!
# Splitting a read

The first read after `llseek` starts at an LMT that need not be a multiple of `lgbl.d`,
and the command rounds it to the nearest sample.  The next reads start at whole Machine
Times, and a Machine Time is an LMT truncated to a multiple of `lgbl.d`.  Consecutive
reads fit together exactly if both roundings of the first LMT find the same sample.
-/

namespace LiberaBase

open Grid

/-! ## The place of an LMT in the circular buffer -/

/-- `off + hbStart` stands for the integer `origin`. -/
def DdEnv.Origin (env : DdEnv) (origin : ℤ) : Prop :=
  BitVec.ofInt 64 origin = env.off + env.hbStart

instance (env : DdEnv) (origin : ℤ) : Decidable (env.Origin origin) :=
  inferInstanceAs (Decidable (_ = _))

/-- The shift that rounds to the nearest sample. -/
def DdEnv.shift (env : DdEnv) (origin : ℤ) : ℤ := env.d.toNat / 2 - origin

/-- The expression in `get_circ_offset_lmt` does not wrap. -/
def DdEnv.InRange (env : DdEnv) (origin : ℤ) (lmt : HwTime) : Prop :=
  origin ≤ lmt.toNat ∧ lmt.toNat + env.shift origin < 2 ^ 64

instance (env : DdEnv) (origin : ℤ) (lmt : HwTime) : Decidable (env.InRange origin lmt) :=
  inferInstanceAs (Decidable (_ ∧ _))

theorem DdEnv.d_pos (env : DdEnv) : (0 : ℤ) < env.d.toNat := by
  have hpos : 0 < env.d.toNat := by
    rw [BitVec.toNat_pos, BitVec.pos_iff_ne_zero]
    exact env.d_ne_zero
  exact_mod_cast hpos

theorem getCircOffsetLmt_eq {env : DdEnv} {origin : ℤ} {lmt : HwTime}
    (horigin : env.Origin origin) (hrange : env.InRange origin lmt) :
    ((getCircOffsetLmt env.d env.off env.hbStart lmt).toNat : ℤ) =
      cell env.d.toNat (env.shift origin) lmt.toNat % 2097152 := by
  obtain ⟨hle, hlt⟩ := hrange
  have hlt' : env.d.toNat / 2 < 2 ^ 64 := by
    have := env.d.isLt
    omega
  have hhalf : U32.toHw (env.d / 2) = BitVec.ofInt 64 ((env.d.toNat / 2 : ℕ) : ℤ) := by
    rw [BitVec.ofInt_natCast, ← BitVec.toNat_inj, U32.toNat_toHw, BitVec.toNat_udiv,
      BitVec.toNat_ofNat]
    exact (Nat.mod_eq_of_lt hlt').symm
  have hlmt : BitVec.ofInt 64 (lmt.toNat : ℤ) = lmt := by
    rw [BitVec.ofInt_natCast, BitVec.ofNat_toNat, BitVec.setWidth_eq]
  have hsum : lmt - (env.off + env.hbStart) + U32.toHw (env.d / 2) =
      BitVec.ofInt 64 (lmt.toNat + env.shift origin) := by
    rw [← horigin, hhalf, DdEnv.shift, Int.sub_eq_add_neg, BitVec.ofInt_add, BitVec.ofInt_add,
      BitVec.ofInt_neg, hlmt, BitVec.sub_eq_add_neg, Int.natCast_ediv]
    ac_rfl
  have hfirst : (lmt - (env.off + env.hbStart) + U32.toHw (env.d / 2)).toNat =
      (lmt.toNat + env.shift origin : ℤ) := by
    rw [hsum, BitVec.toNat_ofInt, Int.toNat_of_nonneg (Int.emod_nonneg _ (by decide))]
    exact Int.emod_eq_of_lt (by unfold DdEnv.shift; omega) hlt
  have haddr : (getCircOffsetLmt env.d env.off env.hbStart lmt).toNat =
      (lmt - (env.off + env.hbStart) + U32.toHw (env.d / 2)).toNat / env.d.toNat % 2097152 := by
    unfold getCircOffsetLmt
    simp only
    rw [BitVec.toNat_setWidth, BitVec.toNat_umod, divU64, BitVec.toNat_udiv, U32.toNat_toHw]
    exact Nat.mod_eq_of_lt ((Nat.mod_lt _ (by decide)).trans (by decide))
  rw [haddr, Int.natCast_emod, Int.natCast_ediv, hfirst]
  rfl

theorem writeCBfifo_eq_some {startAddr noAtoms decimation : U32} {cb : CbCommand}
    (h : liberaDdWriteCBfifo startAddr noAtoms decimation = some cb) :
    cb = ⟨((if 1 < decimation then 1 else 0 : U32) &&& 3) <<< 30 ||| (startAddr &&& 0x1FFFFF),
      noAtoms * decimation &&& 0x3FFFFF⟩ := by
  unfold liberaDdWriteCBfifo at h
  simp only [Option.ite_none_left_eq_some, Option.some.injEq] at h
  exact h.2.symm

theorem startAddr_toNat {startAddr noAtoms decimation : U32} {cb : CbCommand}
    (h : liberaDdWriteCBfifo startAddr noAtoms decimation = some cb) :
    cb.startAddr.toNat = startAddr.toNat % 2097152 := by
  have hmask : ∀ i < 32, (0x1FFFFF#32).getLsbD i = decide (i < 21) := by decide
  have hlow (f : U32) : ((f &&& 3) <<< 30 ||| (startAddr &&& 0x1FFFFF)) &&& 0x1FFFFF =
      startAddr &&& 0x1FFFFF := by
    refine BitVec.eq_of_getLsbD_eq fun i hi ↦ ?_
    have hbit := hmask i hi
    by_cases hlt : i < 21
    · have hshift : i < 30 := by omega
      simp [hbit, hlt, hshift]
    · simp [hbit, hlt]
  rw [writeCBfifo_eq_some h]
  unfold CbCommand.startAddr
  simp only
  rw [hlow, BitVec.toNat_and]
  exact Nat.and_two_pow_sub_one_eq_mod _ 21

/-! ## The LMT a read starts at -/

def startLmt (env : DdEnv) (q : Qtimestamp) (now lastTrigger : Ltimestamp)
    (waits : List CtimeAnswer) : Option HwTime :=
  match q.request with
  | .explicitST =>
    (waitLst env.d now q.l.lst waits).bind fun (_, ctime) ↦ lst2lmt env.flmcdHz q.l.lst ctime
  | .explicitMT => some q.l.lmt
  | .implicit => some (lastTrigger.lmt + q.trigoffset * U32.toHw env.d)

theorem resolve_eq_some {env : DdEnv} {q q' : Qtimestamp} {now lastTrigger : Ltimestamp}
    {waits : List CtimeAnswer} (h : resolve env q now lastTrigger waits = some (0, q')) :
    startLmt env q now lastTrigger waits = some q'.l.lmt ∧
      (q'.u.mt = lmt2mt env.d q'.l.lmt ∨
        q.request = .explicitMT ∧ q'.u.mt = q.u.mt ∧ q'.l.lmt = q.l.lmt) := by
  unfold resolve at h
  unfold startLmt
  split at h
  case h_1 hreq =>
    obtain ⟨⟨wret, ctime⟩, hwait, heq⟩ := Option.map_eq_some_iff.mp h
    simp only at heq
    split_ifs at heq with hne
    · exact absurd (Prod.mk.inj heq).1 hne
    · split at heq
      · exact absurd (Prod.mk.inj heq).1 (by decide)
      · rename_i lmt hlmt
        obtain rfl := (Prod.mk.inj heq).2
        simp [hreq, hwait, hlmt]
  case h_2 hreq =>
    obtain ⟨⟨wret, ctime⟩, hwait, heq⟩ := Option.map_eq_some_iff.mp h
    simp only at heq
    split_ifs at heq with hne
    · exact absurd (Prod.mk.inj heq).1 hne
    · split at heq
      · exact absurd (Prod.mk.inj heq).1 (by decide)
      · obtain rfl := (Prod.mk.inj heq).2
        simp [hreq]
  case h_3 hreq =>
    simp only at h
    split at h
    · exact absurd (Prod.mk.inj (Option.some.inj h)).1 (by decide)
    · obtain ⟨⟨wret, ctime⟩, hwait, heq⟩ := Option.map_eq_some_iff.mp h
      obtain rfl := (Prod.mk.inj heq).2
      simp [hreq]

/-- A request in Machine Time has its LMT already, and the two belong together. -/
def MtConsistent (env : DdEnv) (q : Qtimestamp) : Prop :=
  q.request = .explicitMT → q.u.mt = lmt2mt env.d q.l.lmt ∨ q.l.lmt = mt2lmt env.d q.u.mt

theorem liberaDdLlseek_consistent {env : DdEnv} {l l₀ : DdLocal} {time : HwTime} {whence : ℕ}
    {ctime : CtimeAnswer} (h : l.liberaDdLlseek env time whence ctime = (l₀, 0)) :
    MtConsistent env l₀.qts := by
  intro hreq
  unfold DdLocal.liberaDdLlseek at h
  split at h
  case h_1 =>
    simp only at h
    split_ifs at h
    · split at h <;> obtain rfl := (Prod.mk.inj h).1 <;> cases hreq
    · obtain rfl := (Prod.mk.inj h).1
      cases hreq
  case h_2 =>
    simp only at h
    split_ifs at h
    · split at h
      · rename_i e
        exact absurd (Prod.mk.inj h).2 e.code_neg.ne
      · obtain rfl := (Prod.mk.inj h).1
        exact .inl rfl
    · obtain rfl := (Prod.mk.inj h).1
      exact .inr rfl
  case h_3 =>
    obtain rfl := (Prod.mk.inj h).1
    cases hreq
  case h_4 => exact absurd (Prod.mk.inj h).2 (by decide)

namespace DdRead

variable {env : DdEnv} {origin : ℤ} {a b : DdRead env} {now now' : Ltimestamp}
  {q q' : Qtimestamp} {cb cb' : CbCommand}

/-- The LMT a read starts at. -/
def startLmt (r : DdRead env) : Option HwTime :=
  match r.call.ctime with
  | .ok now => LiberaBase.startLmt env r.loc.qts now r.call.lastTrigger r.call.waits
  | .error _ => none

/-- No 64-bit expression of a read wraps.  The increment of the position is a product of
32 bits. -/
structure NoWrap (origin : ℤ) (r : DdRead env) : Prop where
  address : ∀ lmt ∈ r.startLmt, env.InRange origin lmt
  position : (r.result.loc.tstamp.mt.toNat + r.atoms * r.loc.dec.toNat % 2 ^ 32) *
    env.d.toNat < 2 ^ 64

/-- `b` starts where `a` ended, in the circular buffer. -/
def Continues (a b : DdRead env) : Prop :=
  ∃ p q, a.result.cb = some p ∧ b.result.cb = some q ∧
    q.startAddr.toNat ≡ p.startAddr.toNat + a.atoms * a.loc.dec.toNat [MOD 2097152]

theorem Delivered.startLmt_eq (h : a.Delivered now q cb) : a.startLmt = some q.l.lmt := by
  unfold startLmt
  rw [h.ctime]
  exact (resolve_eq_some h.resolved).1

theorem Delivered.startAddr_eq (h : a.Delivered now q cb) (horigin : env.Origin origin)
    (hwrap : a.NoWrap origin) : (cb.startAddr.toNat : ℤ) =
      cell env.d.toNat (env.shift origin) q.l.lmt.toNat % 2097152 := by
  have hrange := hwrap.address _ h.startLmt_eq
  rw [startAddr_toNat h.command, Int.natCast_emod, getCircOffsetLmt_eq horigin hrange]
  exact Int.emod_emod_of_dvd _ dvd_rfl

theorem Delivered.mt_eq (h : a.Delivered now q cb) (hcons : MtConsistent env a.loc.qts)
    (hwrap : a.NoWrap origin) : q.u.mt.toNat = q.l.lmt.toNat / env.d.toNat := by
  have hdiv : (lmt2mt env.d q.l.lmt).toNat = q.l.lmt.toNat / env.d.toNat := by
    rw [lmt2mt, divU64, BitVec.toNat_udiv, U32.toNat_toHw]
  have hpos : 0 < env.d.toNat := by exact_mod_cast env.d_pos
  have hfit : q.u.mt.toNat * env.d.toNat < 2 ^ 64 := by
    have hposition := hwrap.position
    rw [h.tstamp] at hposition
    exact (Nat.mul_le_mul_right _ (Nat.le_add_right _ _)).trans_lt hposition
  obtain hmt | ⟨hreq, hmt, hlmt⟩ := (resolve_eq_some h.resolved).2
  · rw [hmt, hdiv]
  · have hq := hcons hreq
    rw [← hmt, ← hlmt] at hq
    rcases hq with hq | hq
    · rw [hq, hdiv]
    · have hexact : q.l.lmt.toNat = q.u.mt.toNat * env.d.toNat := by
        rw [hq, mt2lmt, BitVec.toNat_mul, U32.toNat_toHw, Nat.mod_eq_of_lt hfit]
      rw [hexact, Nat.mul_div_cancel _ hpos]

theorem Delivered.next_consistent (h : a.Delivered now q cb) (hcomplete : 0 ≤ a.call.transferRet) :
    MtConsistent env a.result.loc.qts := by
  intro _
  rw [h.qts, if_neg hcomplete.not_gt]
  exact .inr rfl

/-- The next read starts at a whole Machine Time, which the increment has moved on. -/
theorem Delivered.next_lmt (ha : a.Delivered now q cb) (hb : b.Delivered now' q' cb')
    (hnext : b.loc = a.result.loc) (hcomplete : 0 ≤ a.call.transferRet)
    (hwrap : a.NoWrap origin) : q'.l.lmt.toNat =
      (q.u.mt.toNat + a.atoms * a.loc.dec.toNat % 2 ^ 32) * env.d.toNat := by
  have hposition := hwrap.position
  rw [ha.tstamp] at hposition
  have hpos : 0 < env.d.toNat := by exact_mod_cast env.d_pos
  have hmt : q.u.mt.toNat + a.atoms * a.loc.dec.toNat % 2 ^ 32 < 2 ^ 64 :=
    (Nat.le_mul_of_pos_right _ hpos).trans_lt hposition
  have hqts : b.loc.qts = moveOn env q (BitVec.ofInt 32 a.atoms) a.loc.dec := by
    rw [hnext, ha.qts, if_neg hcomplete.not_gt, ha.atoms_eq, a.transferred.count.2 hcomplete]
  have hlmt : q'.l.lmt = b.loc.qts.l.lmt := by
    have hstart := (resolve_eq_some hb.resolved).1
    rw [LiberaBase.startLmt, hqts] at hstart
    rw [hqts]
    exact (Option.some.inj hstart).symm
  rw [hlmt, hqts, moveOn, mt2lmt, BitVec.toNat_mul, U32.toNat_toHw, BitVec.toNat_add,
    toNat_toHw_mul, Nat.mod_eq_of_lt hmt, Nat.mod_eq_of_lt hposition]

/-- Two consecutive reads fit together exactly if truncating the LMT of the first keeps
its sample. -/
theorem Delivered.continues_iff (ha : a.Delivered now q cb) (hb : b.Delivered now' q' cb')
    (hnext : b.loc = a.result.loc) (hcons : MtConsistent env a.loc.qts)
    (hcomplete : 0 ≤ a.call.transferRet) (horigin : env.Origin origin)
    (hwa : a.NoWrap origin) (hwb : b.NoWrap origin) :
    a.Continues b ↔ TruncStays env.d.toNat (env.shift origin) q.l.lmt.toNat := by
  have hlmt := ha.next_lmt hb hnext hcomplete hwa
  rw [ha.mt_eq hcons hwa] at hlmt
  set n := a.atoms * a.loc.dec.toNat with hn
  have hprod : ((n % 2 ^ 32 : ℕ) : ℤ) ≡ (n : ℕ) [ZMOD 2097152] :=
    (Int.natCast_modEq_iff (n := 2097152)).mpr (Nat.mod_mod_of_dvd _ (by decide))
  have hunfold : a.Continues b ↔
      (cb'.startAddr.toNat : ℤ) ≡ cb.startAddr.toNat + (n : ℕ) [ZMOD 2097152] := by
    rw [← Nat.cast_add]
    refine Iff.trans ⟨?_, ?_⟩ (Int.natCast_modEq_iff (n := 2097152)).symm
    · rintro ⟨p, p', hp, hp', hmod⟩
      obtain rfl := Option.some.inj (hp.symm.trans ha.cb)
      obtain rfl := Option.some.inj (hp'.symm.trans hb.cb)
      exact hmod
    · exact fun hmod ↦ ⟨cb, cb', ha.cb, hb.cb, hmod⟩
  have hstart := (Int.mod_modEq (cell env.d.toNat (env.shift origin) q.l.lmt.toNat) 2097152).add
    hprod.symm
  rw [hunfold, ha.startAddr_eq horigin hwa, hb.startAddr_eq horigin hwb, hlmt,
    ← cell_trunc_add_modEq_iff (k := (n % 2 ^ 32 : ℕ)) (m := 2097152) env.d_pos (by decide)]
  push_cast at hstart ⊢
  exact ⟨fun h ↦ (Int.mod_modEq _ _).symm.trans (h.trans hstart),
    fun h ↦ (Int.mod_modEq _ _).trans (h.trans hstart.symm)⟩

/-- Reads of one descriptor, each on what the one before it left behind. -/
def Sequence (l : DdLocal) : List (DdRead env) → Prop
  | [] => True
  | r :: rs => r.loc = l ∧ Sequence r.result.loc rs

/-- Behind the first read every LMT is a multiple of `lgbl.d`, so only the first one
matters. -/
theorem chain_iff_of_consistent {l₀ : DdLocal} {first : DdRead env} {rest : List (DdRead env)}
    {lmt : HwTime} (hcons : MtConsistent env l₀.qts) (hseq : Sequence l₀ (first :: rest))
    (hdata : ∀ r ∈ first :: rest, 0 < r.result.ret)
    (hcomplete : ∀ r ∈ (first :: rest).dropLast, 0 ≤ r.call.transferRet)
    (horigin : env.Origin origin) (hwrap : ∀ r ∈ first :: rest, r.NoWrap origin)
    (hlmt : first.startLmt = some lmt) :
    List.IsChain Continues (first :: rest) ↔
      (rest ≠ [] → TruncStays env.d.toNat (env.shift origin) lmt.toNat) := by
  induction rest generalizing first l₀ lmt with
  | nil => simp
  | cons second rest ih =>
      obtain ⟨hfirst, hsecond, hrest⟩ := hseq
      have hcons₁ : MtConsistent env first.loc.qts := hfirst ▸ hcons
      have hcomplete₁ : 0 ≤ first.call.transferRet := hcomplete first (by simp)
      obtain ⟨now, q, cb, ha⟩ := first.delivered (hdata first (by simp))
      obtain ⟨now', q', cb', hb⟩ := second.delivered (hdata second (by simp))
      obtain rfl : lmt = q.l.lmt := Option.some.inj (hlmt.symm.trans ha.startLmt_eq)
      have hwa := hwrap first (by simp)
      have hpair := ha.continues_iff hb hsecond hcons₁ hcomplete₁ horigin hwa
        (hwrap second (by simp))
      have halign : TruncStays env.d.toNat (env.shift origin) q'.l.lmt.toNat := by
        rw [ha.next_lmt hb hsecond hcomplete₁ hwa, Nat.cast_mul]
        exact truncStays_mul env.d_pos _
      have htail := ih (ha.next_consistent hcomplete₁) ⟨hsecond, hrest⟩
        (fun r hr ↦ hdata r (List.mem_cons_of_mem _ hr))
        (fun r hr ↦ hcomplete r (by rw [List.dropLast_cons_cons]; exact List.mem_cons_of_mem _ hr))
        (fun r hr ↦ hwrap r (List.mem_cons_of_mem _ hr)) hb.startLmt_eq
      rw [List.isChain_cons_cons, htail, hpair]
      exact ⟨fun h _ ↦ h.1, fun h ↦ ⟨h (by simp), fun _ ↦ halign⟩⟩

/-- **Splitting a read.**  After a seek, reads that return data and of which none but the
last is cut short fit together exactly if the LMT of the first one and its truncation to
a multiple of `lgbl.d` belong to the same sample. -/
theorem continues_iff_truncStays {l l₀ : DdLocal} {time : HwTime} {whence : ℕ}
    {ctime : CtimeAnswer} {first : DdRead env} {rest : List (DdRead env)} {lmt : HwTime}
    (hseek : l.liberaDdLlseek env time whence ctime = (l₀, 0))
    (hseq : Sequence l₀ (first :: rest)) (hdata : ∀ r ∈ first :: rest, 0 < r.result.ret)
    (hcomplete : ∀ r ∈ (first :: rest).dropLast, 0 ≤ r.call.transferRet)
    (horigin : env.Origin origin) (hwrap : ∀ r ∈ first :: rest, r.NoWrap origin)
    (hlmt : first.startLmt = some lmt) :
    List.IsChain Continues (first :: rest) ↔
      (rest ≠ [] → TruncStays env.d.toNat (env.shift origin) lmt.toNat) :=
  chain_iff_of_consistent (liberaDdLlseek_consistent hseek) hseq hdata hcomplete horigin hwrap hlmt

theorem noWrap_of_startLmt {r : DdRead env} {lmt : HwTime} (hstart : r.startLmt = some lmt)
    (hrange : env.InRange origin lmt)
    (hposition : (r.result.loc.tstamp.mt.toNat + r.atoms * r.loc.dec.toNat % 2 ^ 32) *
      env.d.toNat < 2 ^ 64) : r.NoWrap origin where
  address := fun lmt' hmem ↦ by
    obtain rfl := Option.some.inj (hstart.symm.trans hmem)
    exact hrange
  position := hposition

def atTrigger : DdLocal := (DdLocal.ddOpen.liberaDdLlseek twoTicks 0 2 (.error .efault)).1

def oneAtom (l : DdLocal) (trigger : HwTime)
    (h : (liberaDdRead twoTicks l (lateCall trigger 32 1 1)).isSome) : DdRead twoTicks :=
  .of l (lateCall trigger 32 1 1) h (by simpa [lateCall] using Dma.transferReturns_oneAtom)

/-- Two ticks for an atom and a trigger at an even LMT: two reads of one atom fit. -/
theorem continues_iff_truncStays_even : ∃ a b : DdRead twoTicks,
    Sequence atTrigger [a, b] ∧ a.startLmt = some 50 ∧ a.Continues b := by
  let a := oneAtom atTrigger 50 (by decide)
  let b := oneAtom a.result.loc 50 (by decide)
  have hseek : DdLocal.ddOpen.liberaDdLlseek twoTicks 0 2 (.error .efault) = (atTrigger, 0) := rfl
  have hseq : Sequence atTrigger [a, b] := ⟨rfl, rfl, trivial⟩
  have hdata : ∀ r ∈ [a, b], 0 < r.result.ret := by
    simp only [List.forall_mem_cons]
    decide
  have hcomplete : ∀ r ∈ [a, b].dropLast, 0 ≤ r.call.transferRet := by
    simp only [List.dropLast, List.forall_mem_cons]
    decide
  have hwrap : ∀ r ∈ [a, b], r.NoWrap 0 := by
    simp only [List.forall_mem_cons]
    exact ⟨noWrap_of_startLmt (by decide : a.startLmt = some 50) (by decide) (by decide),
      noWrap_of_startLmt (by decide : b.startLmt = some 52) (by decide) (by decide), by simp⟩
  have hchain := (continues_iff_truncStays hseek hseq hdata hcomplete (by decide) hwrap
    (by decide : a.startLmt = some 50)).mpr (by decide)
  exact ⟨a, b, hseq, by decide, by simpa using hchain⟩

/-- A trigger at an odd LMT is rounded up by the first read and down for the second, which
reads the sample again. -/
theorem continues_not_odd : ∃ a b : DdRead twoTicks,
    DdLocal.ddOpen.liberaDdLlseek twoTicks 0 2 (.error .efault) = (atTrigger, 0) ∧
    Sequence atTrigger [a, b] ∧
    (a.result.ret = a.call.count.toNat ∧ b.result.ret = b.call.count.toNat ∧
      0 < a.result.ret ∧ 0 < b.result.ret) ∧
    twoTicks.Origin 0 ∧ a.NoWrap 0 ∧ b.NoWrap 0 ∧ ¬a.Continues b := by
  let a := oneAtom atTrigger 51 (by decide)
  let b := oneAtom a.result.loc 51 (by decide)
  have ha : a.result.cb = some ⟨26, 1⟩ := by decide
  have hb : b.result.cb = some ⟨26, 1⟩ := by decide
  refine ⟨a, b, rfl, ⟨rfl, rfl, trivial⟩, by decide, by decide,
    noWrap_of_startLmt (by decide : a.startLmt = some 51) (by decide) (by decide),
    noWrap_of_startLmt (by decide : b.startLmt = some 52) (by decide) (by decide), ?_⟩
  rintro ⟨p, q, hp, hq, hmod⟩
  obtain rfl := Option.some.inj (ha.symm.trans hp)
  obtain rfl := Option.some.inj (hb.symm.trans hq)
  exact absurd hmod (by decide)

end DdRead

end LiberaBase
