import LiberaBase.Cfg.Set
import LiberaBase.Dd.Split
import LiberaBase.Pm.Acquire
import LiberaBase.Timing.Handlers

/-!
# Commands to the CB fifo

A command holds a start address, a number of atoms before decimation and one of two filters.
The number has 22 bits in the command and 32 bits in the driver, which multiplies it with the
decimation and refuses it above `DD_MAX_NOATOMS`.  The filters decimate by 1 and by 64, while any
decimation may be asked for.
-/

namespace LiberaBase

def ddCbhDec1 : U32 := 0
def ddCbhDec64 : U32 := 1

namespace CbCommand

/-- The filter in a command: two bits above `DD_CBH_FDEC_LSB`. -/
def filtDec (c : CbCommand) : U32 := c.h >>> 30 &&& 3

/-- The number of atoms in a command: `DD_CBL_NOAT_WIDTH` bits. -/
def noAtoms (c : CbCommand) : U32 := c.l &&& 0x3FFFFF

end CbCommand

variable {start n dec : U32} {cb : CbCommand}

theorem toNat_ddMaxNoatoms : ddMaxNoatoms.toNat = 2 ^ 22 := rfl

theorem writeCBfifo_eq_none_iff (start : U32) :
    liberaDdWriteCBfifo start n dec = none ↔ 2 ^ 22 < n.toNat * dec.toNat % 2 ^ 32 := by
  have hlt : ddMaxNoatoms < n * dec ↔ 2 ^ 22 < n.toNat * dec.toNat % 2 ^ 32 := by
    rw [BitVec.lt_def, BitVec.toNat_mul, toNat_ddMaxNoatoms]
  rw [← hlt]
  unfold liberaDdWriteCBfifo
  simp

theorem noAtoms_toNat (h : liberaDdWriteCBfifo start n dec = some cb) :
    cb.noAtoms.toNat = n.toNat * dec.toNat % 2 ^ 22 := by
  rw [writeCBfifo_eq_some h]
  unfold CbCommand.noAtoms
  simp only
  rw [BitVec.and_assoc, BitVec.and_self, BitVec.toNat_and, BitVec.toNat_mul]
  refine (Nat.and_two_pow_sub_one_eq_mod _ 22).trans ?_
  exact Nat.mod_mod_of_dvd _ (by decide)

theorem filtDec_eq (h : liberaDdWriteCBfifo start n dec = some cb) :
    cb.filtDec = if 1 < dec then ddCbhDec64 else ddCbhDec1 := by
  have hhigh (f : U32) (hf : f = 0 ∨ f = 1) :
      ((f &&& 3) <<< 30 ||| (start &&& 0x1FFFFF)) >>> 30 &&& 3 = f := by
    have hmask : ∀ i < 32, 30 ≤ i → (0x1FFFFF#32).getLsbD i = false := by decide
    have haddr : (start &&& 0x1FFFFF) >>> 30 = 0#32 := by
      refine BitVec.eq_of_getLsbD_eq fun i hi ↦ ?_
      by_cases hi' : 30 + i < 32
      · simp [hmask (30 + i) hi' (by omega)]
      · simp [BitVec.getLsbD_of_ge _ _ (not_lt.mp hi')]
    rw [BitVec.ushiftRight_or_distrib, haddr, BitVec.or_zero]
    rcases hf with rfl | rfl <;> decide
  rw [writeCBfifo_eq_some h]
  split_ifs with hdec
  · exact hhigh 1 (.inr rfl)
  · exact hhigh 0 (.inl rfl)

theorem filtDec_eq_dec1_iff (h : liberaDdWriteCBfifo start n dec = some cb) :
    cb.filtDec = ddCbhDec1 ↔ dec.toNat ≤ 1 := by
  have hlt : 1 < dec ↔ 1 < dec.toNat := BitVec.lt_def
  rw [filtDec_eq h]
  split_ifs with hdec
  · exact ⟨fun h' ↦ absurd h' (by decide), fun h' ↦ absurd (hlt.mp hdec) (not_lt.mpr h')⟩
  · exact ⟨fun _ ↦ not_lt.mp fun h' ↦ hdec (hlt.mpr h'), fun _ ↦ rfl⟩

/-! ## Nothing is lost -/

/-- The fields of a command hold the request, with the product not wrapped. -/
structure CbCommand.Encodes (c : CbCommand) (start n dec : U32) : Prop where
  startAddr : c.startAddr = start
  noAtoms : c.noAtoms.toNat = n.toNat * dec.toNat
  filtDec : c.filtDec = ddCbhDec1 ↔ dec = 1

theorem encodes_iff (h : liberaDdWriteCBfifo start n dec = some cb) (hstart : start < 2097152)
    (hdec : dec ≠ 0) : cb.Encodes start n dec ↔ n.toNat * dec.toNat < 2 ^ 22 := by
  constructor
  · intro henc
    rw [← henc.noAtoms, noAtoms_toNat h]
    exact Nat.mod_lt _ (by decide)
  · intro hlt
    have hone : dec.toNat ≤ 1 ↔ dec = 1 := by
      have hpos : dec.toNat ≠ 0 := fun h' ↦ hdec (BitVec.eq_of_toNat_eq h')
      rw [← BitVec.toNat_inj]
      change dec.toNat ≤ 1 ↔ dec.toNat = 1
      omega
    refine ⟨?_, ?_, (filtDec_eq_dec1_iff h).trans hone⟩
    · refine BitVec.eq_of_toNat_eq ?_
      rw [startAddr_toNat h]
      exact Nat.mod_eq_of_lt (BitVec.lt_def.mp hstart)
    · rw [noAtoms_toNat h, Nat.mod_eq_of_lt hlt]

/-- A request is refused, or its command holds it, exactly if the number of atoms before decimation
is below `DD_MAX_NOATOMS`, or is still above it when it has wrapped to 32 bits. -/
theorem command_encodes_iff (hstart : start < 2097152) (hdec : dec ≠ 0) :
    (∀ cb, liberaDdWriteCBfifo start n dec = some cb → cb.Encodes start n dec) ↔
      n.toNat * dec.toNat < 2 ^ 22 ∨ 2 ^ 22 < n.toNat * dec.toNat % 2 ^ 32 := by
  rw [← writeCBfifo_eq_none_iff start]
  cases h : liberaDdWriteCBfifo start n dec with
  | none => simp
  | some cb =>
      have := encodes_iff h hstart hdec
      simp [this]

theorem command_encodes_thousand :
    ∃ cb, liberaDdWriteCBfifo 0 1000 64 = some cb ∧ cb.Encodes 0 1000 64 :=
  ⟨_, rfl, (command_encodes_iff (by decide) (by decide)).mpr (.inl (by decide)) _ rfl⟩

/-- The largest interval without decimation is accepted as one of no atoms, and a product that
wraps is accepted as a smaller one. -/
theorem command_loses_atoms :
    (∃ cb, liberaDdWriteCBfifo 0 4194304 1 = some cb ∧ cb.noAtoms = 0 ∧
      ¬cb.Encodes 0 4194304 1) ∧
    ∃ cb, liberaDdWriteCBfifo 0 65536 65537 = some cb ∧ cb.noAtoms = 65536 ∧
      ¬cb.Encodes 0 65536 65537 :=
  ⟨⟨_, rfl, rfl, fun h ↦ absurd h.noAtoms (by decide)⟩,
    ⟨_, rfl, rfl, fun h ↦ absurd h.noAtoms (by decide)⟩⟩

/-! ## The atoms that come back -/

/-- What the FPGA emits for a command: all its atoms, or one of 64. -/
def CbCommand.emitted (c : CbCommand) : ℕ :=
  if c.filtDec = ddCbhDec1 then c.noAtoms.toNat else c.noAtoms.toNat / 64

/-- The decimation is one of the two filters, as far as `n` atoms can tell. -/
def Emits (n dec : U32) : Prop :=
  dec.toNat = 1 ∨ 64 ≤ dec.toNat ∧ n.toNat * (dec.toNat - 64) < 64

instance (n dec : U32) : Decidable (Emits n dec) := inferInstanceAs (Decidable (_ ∨ _ ∧ _))

theorem mul_div_sixtyFour_eq_iff {n dec : ℕ} (hn : 1 ≤ n) :
    n * dec / 64 = n ↔ 64 ≤ dec ∧ n * (dec - 64) < 64 := by
  rw [Nat.div_eq_iff (by decide)]
  rcases le_or_gt 64 dec with hdec | hdec
  · obtain ⟨k, rfl⟩ := Nat.exists_eq_add_of_le hdec
    rw [Nat.add_sub_cancel_left, Nat.mul_add]
    omega
  · have hle : n * dec ≤ n * 63 := Nat.mul_le_mul_left n (Nat.le_of_lt_succ hdec)
    omega

theorem emitted_eq_iff (h : liberaDdWriteCBfifo start n dec = some cb) (hn : 1 ≤ n.toNat)
    (hlt : n.toNat * dec.toNat < 2 ^ 22) : cb.emitted = n.toNat ↔ Emits n dec := by
  have hatoms : cb.noAtoms.toNat = n.toNat * dec.toNat := by
    rw [noAtoms_toNat h, Nat.mod_eq_of_lt hlt]
  unfold CbCommand.emitted Emits
  rw [hatoms]
  by_cases hdec : dec.toNat ≤ 1
  · rw [if_pos ((filtDec_eq_dec1_iff h).mpr hdec)]
    have hone : n.toNat * dec.toNat = n.toNat ↔ dec.toNat = 1 :=
      Nat.mul_eq_left (Nat.ne_of_gt hn)
    omega
  · rw [if_neg (mt (filtDec_eq_dec1_iff h).mp hdec), mul_div_sixtyFour_eq_iff hn]
    omega

theorem writeCBfifo_isSome (start : U32) (hlt : n.toNat * dec.toNat < 2 ^ 22) :
    ∃ cb, liberaDdWriteCBfifo start n dec = some cb := by
  rw [← Option.isSome_iff_exists, Option.isSome_iff_ne_none, ne_eq, writeCBfifo_eq_none_iff,
    Nat.mod_eq_of_lt (hlt.trans (by decide))]
  exact not_lt.mpr hlt.le

theorem setDec_dec {l : DdLocal} {newDec : U32} (h : (l.setDec newDec).2 = 0) :
    (l.setDec newDec).1.dec = newDec := by
  unfold DdLocal.setDec at h ⊢
  split_ifs at h ⊢
  · rfl
  · exact absurd h (show -EINVAL ≠ 0 by decide)

namespace Driver

theorem liberaSendEvent_param (s : Driver) (id arg : U32) (idx : ℕ) :
    (s.liberaSendEvent id arg).param idx = s.param idx := by
  obtain ⟨events, h⟩ := liberaSendEvent_eq s id arg
  rw [h]
  rfl

theorem iocSetCfg_pmdec (readl : ℕ → U32) (s : Driver) (val : U32) :
    (s.liberaIocSetCfg readl ⟨164, val⟩).2 = 0 ∧
      (s.liberaIocSetCfg readl ⟨164, val⟩).1.param cfgPmdec = val := by
  have hset : s.liberaCfgSetSpecific readl ⟨164, val⟩ = (s.setParam cfgPmdec val, 0) := rfl
  have hioc : s.liberaIocSetCfg readl ⟨164, val⟩ =
      ((s.setParam cfgPmdec val).liberaSendEvent liberaEventCfg 164, 0) := rfl
  rw [hioc]
  refine ⟨rfl, (liberaSendEvent_param ..).trans ?_⟩
  exact Function.update_self cfgPmdec val s.cfg.param

end Driver

/-- The two requests for atoms, with the count they transfer, the decimation the user set, and the
command they write: a read after an accepted `LIBERA_IOC_SET_DEC`, and an acquisition after an
accepted write of `LIBERA_CFG_PMDEC`. -/
inductive Fetch (α : Type*) : U32 → U32 → Option CbCommand → Prop
  | read (env : DdEnv) (l : DdLocal) (newDec : U32) (haccept : (l.setDec newDec).2 = 0)
      (c : ReadCall) (q : Qtimestamp) :
      Fetch α (c.count / atomSize) newDec (transfer env (l.setDec newDec).1 c q).cb
  | acquire (readl : ℕ → U32) (s : Driver) (val : U32)
      (haccept : (s.liberaIocSetCfg readl ⟨164, val⟩).2 = 0) {pmsize : U32}
      (c : AcqCall α pmsize)
      (hdec : c.pmDec = (s.liberaIocSetCfg readl ⟨164, val⟩).1.param cfgPmdec)
      (pmEvent : Ltimestamp) : Fetch α pmsize val (c.command pmEvent)

theorem Fetch.command {α : Type*} {cmd : Option CbCommand} (h : Fetch α n dec cmd) :
    ∃ start, cmd = liberaDdWriteCBfifo start n dec := by
  cases h with
  | read env l newDec haccept c q => exact ⟨_, by rw [(transfer_sent ..).2, setDec_dec haccept]⟩
  | acquire readl s val haccept c hdec pmEvent =>
      rw [(s.iocSetCfg_pmdec readl _).2] at hdec
      exact ⟨_, by rw [AcqCall.command, hdec]⟩

/-- The FPGA emits the atoms that the transfer waits for when the decimation is 1, or 64, or so
little above 64 that the count does not show it. -/
theorem fetch_emits_iff {α : Type*} {cmd : Option CbCommand} (h : Fetch α n dec cmd)
    (hn : 1 ≤ n.toNat) (hlt : n.toNat * dec.toNat < ddMaxNoatoms.toNat) :
    (∃ cb, cmd = some cb ∧ cb.emitted = n.toNat) ↔ Emits n dec := by
  obtain ⟨start, rfl⟩ := h.command
  obtain ⟨cb, hcb⟩ := writeCBfifo_isSome start hlt
  rw [← emitted_eq_iff hcb hn hlt]
  simp [hcb]

theorem fetch_emits_sixtyFour : ∃ cmd, Fetch ℕ 1 64 cmd ∧
    ∃ cb, cmd = some cb ∧ cb.emitted = 1 := by
  have h : Fetch ℕ 1 64 _ :=
    .read DdRead.twoTicks .ddOpen 64 (by decide) (DdRead.lateCall 0 32 1 1) DdLocal.ddOpen.qts
  exact ⟨_, h, (fetch_emits_iff h (by decide) (by decide)).mpr (by decide)⟩

/-- Nothing is emitted for a read of one atom that is decimated by 2, or for an acquisition of one
atom that is decimated by 0. -/
theorem fetch_emits_nothing :
    (∃ cb, Fetch ℕ 1 2 (some cb) ∧ cb.emitted = 0) ∧
      ∃ cb, Fetch ℕ 1 0 (some cb) ∧ cb.emitted = 0 :=
  ⟨⟨⟨0x40000000, 2⟩,
      .read DdRead.twoTicks .ddOpen 2 (by decide) (DdRead.lateCall 0 32 1 1) DdLocal.ddOpen.qts,
      by decide⟩,
    ⟨0, 0⟩,
      .acquire (fun _ ↦ 0) (.boot (fun _ ↦ 0) ⟨0, 0, 1, 1, 0⟩ ⟨0, 0, 0, 0⟩) 0
        (Driver.iocSetCfg_pmdec ..).1 { PostMortem.fetchOne with pmOffset := 1, pmDec := 0 }
        (Driver.iocSetCfg_pmdec ..).2.symm ⟨0, 0⟩, by decide⟩

end LiberaBase
