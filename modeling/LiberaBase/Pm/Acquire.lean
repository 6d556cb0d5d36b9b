import LiberaBase.Dd.Read
import LiberaBase.Dma.Count
import LiberaBase.Timing.Device

/-!
# Acquiring post-mortem data

`libera_acq_pm` takes the stamp of the last post-mortem trigger, fetches the atoms that lead up to
it from the history buffer, and leaves both in the pm device.  The stamp is stored first, before
the request is known to be in time, and the transfer stores the atoms one by one.
-/

namespace LiberaBase

open Runs Dma

variable {α : Type*}

/-- `struct libera_pm_device`: the fields an acquisition writes. -/
structure PmDevice (α : Type*) where
  pmEvent : Ltimestamp
  tstamp : Timestamp
  buf : ℕ → α

/-- What a transfer of `n` atoms into `pm->buf` returns, and how many atoms it stored. -/
structure PmTransfer (n : ℕ) where
  ret : ℤ
  written : ℕ
  returns : TransferReturns n ret written

/-- What an acquisition finds: whether it gets `dd->sem`, the globals and parameters it reads, the
answers of `libera_get_CTIME` first and while it waits, the wait for the DD interrupt, and the
transfer with the atoms that come out of the OB fifo. -/
structure AcqCall (α : Type*) (pmsize : U32) where
  locked : Bool
  env : DdEnv
  pmOffset : U32
  pmDec : U32
  ctime : CtimeAnswer
  waits : List CtimeAnswer
  irq : Except CallError Unit
  transfer : PmTransfer pmsize.toNat
  atoms : ℕ → α

namespace AcqCall

variable {pmsize : U32}

/-- The stamp user space reads. -/
def stamp (c : AcqCall α pmsize) (pmEvent : Ltimestamp) : Timestamp where
  st := lst2st pmEvent.lst
  mt := lmt2mt c.env.d pmEvent.lmt

/-- The start of the interval; the difference and the product are taken in 32 bits. -/
def lmtStart (c : AcqCall α pmsize) (pmEvent : Ltimestamp) : HwTime :=
  pmEvent.lmt + U32.signedToHw ((c.pmOffset - pmsize) * c.env.d)

def command (c : AcqCall α pmsize) (pmEvent : Ltimestamp) : Option CbCommand :=
  liberaDdWriteCBfifo (getCircOffsetLmt c.env.d c.env.off c.env.hbStart (c.lmtStart pmEvent))
    pmsize c.pmDec

/-- `libera_acq_pm` from `libera_get_CTIME` to `getBlockedFromFIFO`; `none` is a call that still
waits for the end of its interval. -/
def prepare (c : AcqCall α pmsize) (pmEvent : Ltimestamp) : Option ℤ :=
  match c.ctime with
  | .error e => some e.code
  | .ok now =>
    (waitLmt c.env.d now (c.lmtStart pmEvent) c.waits).map fun (ret, _) ↦
      if ret ≠ 0 then ret
      else
        match c.command pmEvent with
        | none => -EINVAL
        | some _ =>
          match c.irq with
          | .error e => e.code
          | .ok () => 0

/-- The request is in time, its command is accepted, and the DD interrupt comes. -/
def Reaches (c : AcqCall α pmsize) (pmEvent : Ltimestamp) : Prop :=
  ∃ now ctime, c.ctime = .ok now ∧
    waitLmt c.env.d now (c.lmtStart pmEvent) c.waits = some (0, ctime) ∧
    (c.command pmEvent).isSome ∧ c.irq = .ok ()

theorem prepare_eq_zero_iff (c : AcqCall α pmsize) (pmEvent : Ltimestamp) :
    c.prepare pmEvent = some 0 ↔ c.Reaches pmEvent := by
  constructor
  · intro h
    cases hctime : c.ctime with
    | error e =>
        simp only [prepare, hctime, Option.some.injEq] at h
        exact absurd h e.code_neg.ne
    | ok now =>
        simp only [prepare, hctime, Option.map_eq_some_iff, Prod.exists] at h
        obtain ⟨ret, ctime, hwait, h⟩ := h
        split_ifs at h with hret
        · exact absurd h hret
        · obtain rfl : ret = 0 := not_not.mp hret
          refine ⟨now, ctime, hctime, hwait, ?_⟩
          cases hcb : c.command pmEvent with
          | none =>
              rw [hcb] at h
              exact absurd h (show -EINVAL ≠ 0 by decide)
          | some cb =>
              cases hirq : c.irq with
              | error e =>
                  rw [hcb, hirq] at h
                  exact absurd h e.code_neg.ne
              | ok u => exact ⟨rfl, rfl⟩
  · rintro ⟨now, ctime, hctime, hwait, hcb, hirq⟩
    obtain ⟨cb, hcb⟩ := Option.isSome_iff_exists.mp hcb
    simp [prepare, hctime, hwait, hcb, hirq]

instance (c : AcqCall α pmsize) (pmEvent : Ltimestamp) : Decidable (c.Reaches pmEvent) :=
  decidable_of_iff _ (c.prepare_eq_zero_iff pmEvent)

/-- The atoms in the buffer after the transfer. -/
def fill (c : AcqCall α pmsize) (buf : ℕ → α) (i : ℕ) : α :=
  if i < c.transfer.written then c.atoms i else buf i

end AcqCall

namespace PmDevice

variable {pmsize : U32}

def liberaAcqPm (pm : PmDevice α) (trigger : Ltimestamp) (c : AcqCall α pmsize) :
    Option (ℤ × PmDevice α) :=
  if c.locked = false then some (-EBUSY, pm)
  else
    let pm := { pm with pmEvent := trigger, tstamp := c.stamp trigger }
    (c.prepare trigger).map fun ret ↦
      if ret ≠ 0 then (ret, pm)
      else
        let pm := { pm with buf := c.fill pm.buf }
        if c.transfer.ret < 0 then (c.transfer.ret, pm)
        else if c.transfer.ret < pmsize.toNat then (- EIO, pm)
        else (0, pm)

/-- `libera_pm_read`: the atoms that are copied to the user, the last ones of the buffer. -/
def liberaPmRead (pmsize : U32) (buf : ℕ → α) (count : U32) (interrupted copied : Bool) :
    ℤ × List α :=
  if interrupted then (-ERESTARTSYS, [])
  else if pmsize * atomSize < count then (-EINVAL, [])
  else if count % atomSize ≠ 0 then (-EINVAL, [])
  else
    let spanAtoms := count / atomSize
    let begin := (pmsize - spanAtoms).toNat
    if copied then
      (toLong (spanAtoms * atomSize).toNat,
        (List.range spanAtoms.toNat).map fun j ↦ buf (begin + j))
    else (-EFAULT, [])

end PmDevice

namespace PmDevice

variable {pmsize : U32} {pm pm' : PmDevice α} {trigger : Ltimestamp} {c : AcqCall α pmsize} {ret : ℤ}

/-- How an acquisition ends: without the lock, before its transfer, or after it. -/
theorem liberaAcqPm_cases (h : pm.liberaAcqPm trigger c = some (ret, pm')) :
    (c.locked = false ∧ ret ≠ 0 ∧ pm' = pm) ∨
    (c.locked = true ∧ ¬c.Reaches trigger ∧ ret ≠ 0 ∧ pm' = ⟨trigger, c.stamp trigger, pm.buf⟩) ∨
    (c.locked = true ∧ c.Reaches trigger ∧ (ret = 0 ↔ pmsize.toNat ≤ c.transfer.ret) ∧
      pm' = ⟨trigger, c.stamp trigger, c.fill pm.buf⟩) := by
  cases hlocked : c.locked with
  | false =>
      simp only [liberaAcqPm, hlocked, if_true, Option.some.injEq, Prod.mk.injEq] at h
      obtain ⟨rfl, rfl⟩ := h
      exact .inl ⟨rfl, by decide, rfl⟩
  | true =>
      right
      simp only [liberaAcqPm, hlocked, Bool.true_eq_false, if_false, Option.map_eq_some_iff] at h
      obtain ⟨r, hprepare, h⟩ := h
      by_cases hr : r = 0
      · right
        subst hr
        refine ⟨rfl, (c.prepare_eq_zero_iff trigger).mp hprepare, ?_⟩
        rw [if_neg (not_not.mpr rfl)] at h
        split_ifs at h with hneg hshort
        · obtain ⟨rfl, rfl⟩ := Prod.mk.inj h
          exact ⟨by omega, rfl⟩
        · obtain ⟨rfl, rfl⟩ := Prod.mk.inj h
          exact ⟨⟨fun h ↦ absurd h (by decide), fun h ↦ absurd h (by omega)⟩, rfl⟩
        · obtain ⟨rfl, rfl⟩ := Prod.mk.inj h
          exact ⟨by simpa using hshort, rfl⟩
      · left
        rw [if_pos hr] at h
        obtain ⟨rfl, rfl⟩ := Prod.mk.inj h
        refine ⟨rfl, fun hreach ↦ hr ?_, hr, rfl⟩
        rw [(c.prepare_eq_zero_iff trigger).mpr hreach] at hprepare
        exact (Option.some.inj hprepare).symm

theorem fill_complete (hret : pmsize.toNat ≤ c.transfer.ret) {i : ℕ} (hi : i < pmsize.toNat) :
    c.fill pm.buf i = c.atoms i := by
  obtain ⟨-, hcount⟩ := c.transfer.returns.count
  have heq := hcount (by omega)
  exact if_pos (by omega)

theorem liberaPmRead_congr {buf buf' : ℕ → α} (h : ∀ i < pmsize.toNat, buf i = buf' i) (count : U32)
    (interrupted copied : Bool) : liberaPmRead pmsize buf count interrupted copied =
      liberaPmRead pmsize buf' count interrupted copied := by
  unfold liberaPmRead
  dsimp only
  by_cases hcount : pmsize * atomSize < count
  · simp only [if_pos hcount]
  have hspan : (count / atomSize).toNat ≤ pmsize.toNat := by
    have hle : count.toNat ≤ pmsize.toNat * 32 := by
      refine (BitVec.le_def.mp (BitVec.not_lt.mp hcount)).trans ?_
      rw [BitVec.toNat_mul]
      exact Nat.mod_le _ _
    rw [BitVec.toNat_udiv]
    exact Nat.div_le_of_le_mul (Nat.mul_comm _ _ ▸ hle)
  have hlist : ((List.range (count / atomSize).toNat).map fun j ↦
      buf ((pmsize - count / atomSize).toNat + j)) = (List.range (count / atomSize).toNat).map
        fun j ↦ buf' ((pmsize - count / atomSize).toNat + j) := by
    apply List.map_congr_left
    intro j hj
    have hlt := List.mem_range.mp hj
    apply h
    rw [BitVec.toNat_sub_of_le (BitVec.le_def.mpr hspan)]
    omega
  rw [hlist]

end PmDevice

/-! ## Runs -/

/-- The pm device with the stamps of its triggers.  `last` is what the last successful
acquisition stood for: the stamp of its trigger and the atoms that were fetched for it. -/
structure PostMortem (α : Type*) where
  pm : PmDevice α
  paired : CircBuf
  last : Timestamp × (ℕ → α)

inductive PmOp (α : Type*) (pmsize : U32) where
  /-- the LST half of a trigger -/
  | lst (lst : HwTime) (half : Half)
  /-- the LMT half of a trigger -/
  | lmt (lmt : HwTime) (half : Half)
  /-- a process calls `libera_acq_pm` -/
  | acquire (c : AcqCall α pmsize)

namespace PostMortem

variable {pmsize : U32} {s s' : PostMortem α}

def boot (pm : PmDevice α) (paired : CircBuf) : PostMortem α := ⟨pm, paired, pm.tstamp, pm.buf⟩

def trigger (s : PostMortem α) : Ltimestamp := (getFromCircBuf s.paired).stamp

def step (s : PostMortem α) : PmOp α pmsize → Option (PostMortem α)
  | .lst lst half => some { s with paired := putLSTtoCircBuf s.paired lst half }
  | .lmt lmt half => some { s with paired := putLMTtoCircBuf s.paired lmt half }
  | .acquire c =>
    (s.pm.liberaAcqPm s.trigger c).map fun (ret, pm) ↦
      { s with pm := pm, last := if ret = 0 then (c.stamp s.trigger, c.atoms) else s.last }

/-- An acquisition that gets the lock fetches all its atoms, or its trigger is the one whose stamp
is stored already and nothing new is stored in the buffer. -/
def Whole (s : PostMortem α) : PmOp α pmsize → Prop
  | .acquire c => c.locked = true →
    (c.Reaches s.trigger ∧ pmsize.toNat ≤ c.transfer.ret) ∨
    (c.stamp s.trigger = s.pm.tstamp ∧
      (c.Reaches s.trigger → ∀ i < c.transfer.written, c.atoms i = s.pm.buf i))
  | _ => True

/-- The stamp and the atoms are those of the last successful acquisition, for the one who reads
them; and an acquisition that fails leaves both. -/
structure Together (pmsize : U32) (s : PostMortem α) : Prop where
  tstamp : s.pm.tstamp = s.last.1
  buf : ∀ i < pmsize.toNat, s.pm.buf i = s.last.2 i
  read : ∀ count interrupted copied,
    PmDevice.liberaPmRead pmsize s.pm.buf count interrupted copied =
      PmDevice.liberaPmRead pmsize s.last.2 count interrupted copied
  failed : ∀ (c : AcqCall α pmsize) (ret : ℤ) (pm : PmDevice α), s.Whole (.acquire c) →
    s.pm.liberaAcqPm s.trigger c = some (ret, pm) → ret ≠ 0 →
      pm.tstamp = s.pm.tstamp ∧ pm.buf = s.pm.buf

/-- A failed acquisition leaves stamp and atoms exactly under this condition. -/
theorem failed_keeps_iff {c : AcqCall α pmsize} {ret : ℤ} {pm : PmDevice α}
    (h : s.pm.liberaAcqPm s.trigger c = some (ret, pm)) (hret : ret ≠ 0) :
    (pm.tstamp = s.pm.tstamp ∧ pm.buf = s.pm.buf) ↔ s.Whole (.acquire c) := by
  rcases PmDevice.liberaAcqPm_cases h with
    ⟨hlocked, -, rfl⟩ | ⟨hlocked, hreach, -, rfl⟩ | ⟨hlocked, hreach, hzero, rfl⟩
  · constructor
    · intro _ hyes
      rw [hlocked] at hyes
      cases hyes
    · intro _
      exact ⟨rfl, rfl⟩
  · constructor
    · rintro ⟨hstamp, -⟩ _
      exact .inr ⟨hstamp, fun hyes ↦ absurd hyes hreach⟩
    · intro hwhole
      rcases hwhole hlocked with ⟨hyes, -⟩ | ⟨hstamp, -⟩
      · exact absurd hyes hreach
      · exact ⟨hstamp, rfl⟩
  · have hshort : ¬(pmsize.toNat ≤ c.transfer.ret) := fun hyes ↦ hret (hzero.mpr hyes)
    constructor
    · rintro ⟨hstamp, hbuf⟩ _
      refine .inr ⟨hstamp, fun _ i hi ↦ ?_⟩
      have hfill : c.fill s.pm.buf i = s.pm.buf i := congrFun hbuf i
      exact (if_pos hi).symm.trans hfill
    · intro hwhole
      rcases hwhole hlocked with ⟨-, hyes⟩ | ⟨hstamp, hatoms⟩
      · exact absurd hyes hshort
      · refine ⟨hstamp, funext fun i ↦ ?_⟩
        by_cases hi : i < c.transfer.written
        · exact (if_pos hi).trans (hatoms hreach i hi)
        · exact if_neg hi

structure Inv (pmsize : U32) (s : PostMortem α) : Prop where
  tstamp : s.pm.tstamp = s.last.1
  buf : ∀ i < pmsize.toNat, s.pm.buf i = s.last.2 i

namespace Inv

theorem boot (pmsize : U32) (pm : PmDevice α) (paired : CircBuf) :
    Inv pmsize (boot pm paired) := ⟨rfl, fun _ _ ↦ rfl⟩

theorem step (h : Inv pmsize s) {op : PmOp α pmsize} (hok : s.Whole op)
    (hstep : s.step op = some s') : Inv pmsize s' := by
  cases op with
  | lst lst half =>
      obtain rfl := Option.some.inj hstep
      exact ⟨h.tstamp, h.buf⟩
  | lmt lmt half =>
      obtain rfl := Option.some.inj hstep
      exact ⟨h.tstamp, h.buf⟩
  | acquire c =>
      obtain ⟨⟨ret, pm⟩, hacq, rfl⟩ := Option.map_eq_some_iff.mp hstep
      by_cases hret : ret = 0
      · rcases PmDevice.liberaAcqPm_cases hacq with
          ⟨-, hne, -⟩ | ⟨-, -, hne, -⟩ | ⟨-, -, hzero, rfl⟩
        · exact absurd hret hne
        · exact absurd hret hne
        · have hcomplete := hzero.mp hret
          simp only [if_pos hret]
          exact ⟨rfl, fun i hi ↦ PmDevice.fill_complete hcomplete hi⟩
      · obtain ⟨hstamp, hbuf⟩ := (failed_keeps_iff hacq hret).mpr hok
        simp only [if_neg hret]
        exact ⟨hstamp.trans h.tstamp, fun i hi ↦ (congrFun hbuf i).trans (h.buf i hi)⟩

theorem together (h : Inv pmsize s) : s.Together pmsize where
  tstamp := h.tstamp
  buf := h.buf
  read := PmDevice.liberaPmRead_congr h.buf
  failed := fun _ _ _ hok hacq hret ↦ (failed_keeps_iff hacq hret).mpr hok

end Inv

/-- Over every run of triggers and acquisitions that are fetched whole or change nothing. -/
theorem atoms_match_stamp {pm : PmDevice α} {paired : CircBuf} {ops : List (PmOp α pmsize)}
    (hrun : Steps step Whole (boot pm paired) ops s) : s.Together pmsize := by
  have hinv : Inv pmsize s :=
    hrun.invariant (fun _ _ _ h hok hstep ↦ h.step hok hstep) (.boot pmsize pm paired)
  exact hinv.together

instance [DecidableEq α] (s : PostMortem α) : ∀ op : PmOp α pmsize, Decidable (s.Whole op)
  | .acquire c => inferInstanceAs (Decidable (c.locked = true → _ ∨ _ ∧ (_ → _)))
  | .lst _ _ | .lmt _ _ => isTrue trivial

def halfZero : Half := ⟨0, 0, 0, 0⟩

def bootZero : PostMortem ℕ :=
  boot ⟨⟨0, 0⟩, ⟨⟨0, 0⟩, 0⟩, fun _ ↦ 0⟩ ⟨fun _ ↦ ⟨⟨0, 0⟩, halfZero, halfZero⟩, 0⟩

/-- The atom `7` is fetched for a trigger at the machine time 1000. -/
def fetchOne : AcqCall ℕ 1 where
  locked := true
  env := ⟨1, U32.one_ne_zero, 1, 0, 0⟩
  pmOffset := 0
  pmDec := 1
  ctime := .ok ⟨2000, 2000⟩
  waits := []
  irq := .ok ()
  transfer := ⟨1, 1, transferReturns_oneAtom⟩
  atoms := fun _ ↦ 7

theorem atoms_match_stamp_one : ∃ s : PostMortem ℕ, s.Together 1 ∧
    s.pm.tstamp = ⟨⟨0, 8000⟩, 1000⟩ ∧ s.pm.buf 0 = 7 :=
  ⟨_, atoms_match_stamp (exec_get_steps step Whole bootZero
    [.lst 1000 halfZero, .lmt 1000 halfZero, .acquire fetchOne,
      .acquire { fetchOne with irq := .error .restartsys }, .lst 5000 halfZero, .lmt 5000 halfZero,
      .acquire { fetchOne with locked := false }] (by decide +kernel)),
    by decide +kernel, by decide +kernel⟩

/-- The second acquisition is interrupted while it asks for the time: the atom of the first
trigger is left with the stamp of the second. -/
theorem stamp_without_atoms : ∃ s : PostMortem ℕ, Steps step anyStep bootZero
      [.lst 1000 halfZero, .lmt 1000 halfZero, .acquire fetchOne, .lst 5000 halfZero,
        .lmt 5000 halfZero, .acquire { fetchOne with ctime := .error .restartsys }] s ∧
    s.pm.tstamp = ⟨⟨0, 40000⟩, 5000⟩ ∧ s.last.1 = ⟨⟨0, 8000⟩, 1000⟩ ∧ s.pm.buf 0 = 7 ∧
    ¬s.Together 1 := by
  refine ⟨_, exec_get_steps step anyStep bootZero _ (by decide +kernel), by decide +kernel,
    by decide +kernel, by decide +kernel, fun h ↦ ?_⟩
  have hstamp := h.tstamp
  revert hstamp
  decide +kernel

end PostMortem

end LiberaBase
