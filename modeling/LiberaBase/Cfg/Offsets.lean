import LiberaBase.Cfg.Atomic
import LiberaBase.Lib.WriteLog

/-!
# The position offsets

The offset of each axis is the sum of two parameters: one comes from a configuration request, the
other from the BCD ioctl of the dsc device, and whichever arrives writes the register.  The ioctl
writes only if its value is new.
-/

namespace LiberaBase

def cfgCustomLast : ℕ := 157

namespace Driver

/-! ## `libera_init_specific` -/

/-- The parameters that `libera_init_specific` sets, with their values. -/
def mirrorInit (readl : ℕ → U32) (s : Driver) : List (ℕ × U32) :=
  let brilliance := isBrilliance s.lgbl.feature
  let ilkAdc : U32 := if brilliance then 30000 else 1900
  [(cfgXoffset, 0), (cfgYoffset, 0), (cfgQoffset, 0), (cfgKx, 10000000), (cfgKy, 10000000),
    (cfgIlkXlow, -1000000), (cfgIlkXhigh, 1000000), (cfgIlkYlow, -1000000),
    (cfgIlkYhigh, 1000000), (cfgIlkMode, 3), (cfgIlkOverflowLimit, ilkAdc), (cfgIlkOverflowDur, 5),
    (cfgIlkGainLimit, (-40#32 <<< 16) ||| if brilliance then 0 else 16 + 16), (cfgPmdec, 1),
    (cfgPmXlow, -1000000), (cfgPmXhigh, 1000000), (cfgPmYlow, -1000000), (cfgPmYhigh, 1000000),
    (cfgPmOverflowLimit, ilkAdc), (cfgPmOverflowDur, 5), (cfgSrEnable, readl faEnable),
    (cfgSrCspiEnable, 1), (cfgSrAveragingStop, readl faAveStop),
    (cfgSrAverageWindow, readl faAveWin), (cfgSrStart, readl faStart),
    (cfgSrWindow, readl faWindow), (cfgSpThreshold, if brilliance then 400 else 100),
    (cfgSpNBefore, 1), (cfgSpNAfter, s.lgbl.d / 3)]

def setParams (s : Driver) (params : List (ℕ × U32)) : Driver :=
  params.foldl (fun s p ↦ s.setParam p.1 p.2) s

/-- One round of the loop that passes the parameters to the FPGA. -/
def initParam (readl : ℕ → U32) (s : Driver) (i : ℕ) : Driver :=
  (s.liberaCfgSetSpecific readl
    ⟨BitVec.ofNat 32 (cfgCustomFirst + i), s.param (cfgCustomFirst + i)⟩).1

/-- `libera_init_specific`, up to the triggers it enables. -/
def liberaInitSpecific (readl : ℕ → U32) (s : Driver) : Driver :=
  (List.range (cfgCustomLast - cfgCustomFirst)).foldl (initParam readl)
    (s.setParams (s.mirrorInit readl))

end Driver

/-! ## Requests of both devices -/

inductive CfgOp where
  | setCfg (readl : ℕ → U32) (req : CfgRequest)
  /-- the copy from the user succeeds -/
  | bcdOffsets (file : File) (accessOk : Bool) (offsets : Offsets)
  /-- an administrator changes module parameters -/
  | setParams (params : ModuleParams)

namespace UserDevices

def cfgStep (s : UserDevices) : CfgOp → UserDevices
  | .setCfg readl req => { s with drv := (s.drv.liberaIocSetCfg readl req).1 }
  | .bcdOffsets file accessOk offsets => (s.dscIoctl file accessOk (.bcdOffsets ⟨0, offsets⟩)).2
  | .setParams params => { s with drv := { s.drv with params := params } }

def cfgRun (s : UserDevices) (ops : List CfgOp) : UserDevices := ops.foldl cfgStep s

end UserDevices

/-! ## One axis -/

inductive Axis where
  | x
  | y
  deriving DecidableEq

namespace Axis

def fixIdx : Axis → ℕ
  | x => cfgXoffset
  | y => cfgYoffset

def bcdIdx : Axis → ℕ
  | x => cfgBcdXoffset
  | y => cfgBcdYoffset

def reg : Axis → ℕ
  | x => faOffset
  | y => faOffset + 4

def bcdVal (a : Axis) (offsets : Offsets) : U32 :=
  match a with
  | x => offsets.x
  | y => offsets.y

end Axis

/-- The register of the axis holds the sum of both parameters. -/
def Driver.HoldsSum (s : Driver) (a : Axis) : Prop :=
  WriteLog.last s.writes a.reg = some (s.param a.fixIdx + s.param a.bcdIdx)

/-- The value that a configuration request has for the axis. -/
def CfgOp.fixVal (a : Axis) : CfgOp → Option U32
  | .setCfg _ req => if req.idx.toNat = a.fixIdx then some req.val else none
  | _ => none

/-- The value that an ioctl of the dsc device has for the axis, if it is not refused. -/
def CfgOp.bcdVal (dsc : CommonDev) (a : Axis) : CfgOp → Option U32
  | .bcdOffsets file accessOk offsets =>
    if liberaDscIoctl dsc file (DscRequest.bcdOffsets ⟨0, offsets⟩).cmd accessOk = none then
      some (a.bcdVal offsets)
    else none
  | _ => none

namespace Driver

variable {s t : Driver} {readl : ℕ → U32} {req : CfgRequest} {a : Axis}

/-! ## Configuration requests -/

/-- The offsets of the dsc device are no configuration parameters. -/
theorem setSpecific_bcd (readl : ℕ → U32) (s : Driver) (hidx : req.idx.toNat = a.bcdIdx) :
    s.liberaCfgSetSpecific readl req = (s, -EINVAL) := by
  unfold liberaCfgSetSpecific
  extract_lets idx mirrored source source' val s₁
  cases a with
  | x =>
      have hidx' : idx = 172 := hidx
      iterate 23 rw [if_neg (by rw [hidx']; decide)]
  | y =>
      have hidx' : idx = 173 := hidx
      iterate 23 rw [if_neg (by rw [hidx']; decide)]

theorem setSpecific_fix (readl : ℕ → U32) (s : Driver) (hidx : req.idx.toNat = a.fixIdx) :
    s.liberaCfgSetSpecific readl req =
      ((s.setParam a.fixIdx req.val).writel (req.val + s.param a.bcdIdx) a.reg, 0) := by
  have hbcd : (s.setParam a.fixIdx req.val).param a.bcdIdx = s.param a.bcdIdx :=
    param_setParam_of_ne (by cases a <;> decide) _
  unfold liberaCfgSetSpecific
  rw [hidx, ← hbcd]
  cases a
  · exact if_pos rfl
  · exact (if_neg (by decide)).trans (if_pos rfl)

/-- What a configuration request does to an axis. -/
structure AxisSet (a : Axis) (s t : Driver) (fixVal : U32) : Prop where
  bcd : t.param a.bcdIdx = s.param a.bcdIdx
  fix : t.param a.fixIdx = fixVal
  holds : s.HoldsSum a → t.HoldsSum a

theorem holdsSum_setSpecific (readl : ℕ → U32) (s : Driver) (hidx : req.idx.toNat = a.fixIdx) :
    (s.liberaCfgSetSpecific readl req).1.HoldsSum a := by
  have hne : a.bcdIdx ≠ a.fixIdx := by cases a <;> decide
  have hfix : (s.setParam a.fixIdx req.val).param a.fixIdx = req.val := param_setParam_self ..
  have hbcd : (s.setParam a.fixIdx req.val).param a.bcdIdx = s.param a.bcdIdx :=
    param_setParam_of_ne hne _
  rw [setSpecific_fix readl s hidx, HoldsSum]
  show WriteLog.last _ _ = some ((s.setParam a.fixIdx req.val).param a.fixIdx +
    (s.setParam a.fixIdx req.val).param a.bcdIdx)
  rw [hfix, hbcd]
  exact WriteLog.last_concat_self ..

theorem SetsAt.holdsSum {idx : ℕ} (h : SetsAt s idx [a.reg] t) (hfix : idx ≠ a.fixIdx)
    (hbcd : idx ≠ a.bcdIdx) : AxisSet a s t (s.param a.fixIdx) := by
  obtain ⟨val, frozen, writes, haway, rfl⟩ := h
  have hparam {i : ℕ} (hne : idx ≠ i) : Function.update s.cfg.param idx val i = s.param i :=
    Function.update_of_ne hne.symm ..
  refine ⟨hparam hbcd, hparam hfix, fun hsum ↦ ?_⟩
  show WriteLog.last (s.writes ++ writes) a.reg =
    some (Function.update s.cfg.param idx val a.fixIdx +
      Function.update s.cfg.param idx val a.bcdIdx)
  rw [hparam hfix, hparam hbcd,
    WriteLog.last_append_of_ne fun w hw ↦ mt List.mem_singleton.mpr (haway w hw)]
  exact hsum

theorem axisSet_setSpecific (readl : ℕ → U32) (s : Driver) (req : CfgRequest) (a : Axis) :
    AxisSet a s (s.liberaCfgSetSpecific readl req).1
      (if req.idx.toNat = a.fixIdx then req.val else s.param a.fixIdx) := by
  by_cases hfix : req.idx.toNat = a.fixIdx
  · refine ⟨?_, ?_, fun _ ↦ holdsSum_setSpecific readl s hfix⟩
    · rw [setSpecific_fix readl s hfix]
      exact param_setParam_of_ne (by cases a <;> decide) _
    · rw [setSpecific_fix readl s hfix, if_pos hfix]
      exact param_setParam_self ..
  rw [if_neg hfix]
  by_cases hbcd : req.idx.toNat = a.bcdIdx
  · rw [setSpecific_bcd readl s hbcd]
    exact ⟨rfl, rfl, id⟩
  have haway : ∀ b ∈ [a.reg], b ∈ offsetRegisters ++ fifoRegisters := by cases a <;> decide
  have hfifo : ∀ b ∈ fifoRegisters, b ∉ [a.reg] := by cases a <;> decide
  have hx : req.idx.toNat = cfgXoffset → faOffset ∉ [a.reg] := by
    cases a with
    | x => exact fun h ↦ absurd h hfix
    | y => exact fun _ ↦ by decide
  have hy : req.idx.toNat = cfgYoffset → faOffset + 4 ∉ [a.reg] := by
    cases a with
    | x => exact fun _ ↦ by decide
    | y => exact fun h ↦ absurd h hfix
  rcases confined_setSpecific readl haway hx hy (setsAt_setCoefficient _ _ _ hfifo) with
    h | ⟨-, hset⟩
  · rw [h]
    exact ⟨rfl, rfl, id⟩
  · exact hset.holdsSum hfix hbcd

theorem AxisSet.send {fixVal : U32} (h : AxisSet a s t fixVal) (id param : U32) :
    AxisSet a s (t.liberaSendEvent id param) fixVal := by
  obtain ⟨hcfg, hwrites⟩ := liberaSendEvent_frame t id param
  refine ⟨?_, ?_, fun hsum ↦ ?_⟩
  · rw [Driver.param, hcfg]
    exact h.bcd
  · rw [Driver.param, hcfg]
    exact h.fix
  · rw [HoldsSum, hwrites, Driver.param, Driver.param, hcfg]
    exact h.holds hsum

theorem axisSet_liberaIocSetCfg (readl : ℕ → U32) (s : Driver) (req : CfgRequest) (a : Axis) :
    AxisSet a s (s.liberaIocSetCfg readl req).1
      (if req.idx.toNat = a.fixIdx then req.val else s.param a.fixIdx) := by
  rcases liberaIocSetCfg_cases readl s req with ⟨hidx, h⟩ | ⟨-, ⟨hmode, h⟩ | h⟩
  · have hne : req.idx.toNat ≠ a.fixIdx := by
      intro heq
      rw [heq] at hidx
      revert hidx
      cases a <;> decide
    rw [h, if_neg hne]
    exact ⟨rfl, rfl, id⟩
  · have hne : req.idx.toNat ≠ a.fixIdx := by
      rw [hmode]
      cases a <;> decide
    have hbcd : req.idx.toNat ≠ a.bcdIdx := by
      rw [hmode]
      cases a <;> decide
    rw [h, if_neg hne]
    exact ((setsAt_setParam s req.idx.toNat req.val [a.reg]).holdsSum hne hbcd).send _ _
  · rw [h]
    have hset := axisSet_setSpecific readl s req a
    by_cases hret : (s.liberaCfgSetSpecific readl req).2 ≠ 0
    · exact (if_pos hret).symm ▸ hset
    · exact (if_neg hret).symm ▸ hset.send _ _

/-! ## The ioctl of the dsc device -/

/-- `check_and_update` with the offset of the axis. -/
def updateBcd (s : Driver) (a : Axis) (val : U32) : Driver := s.checkAndUpdate val a.bcdIdx a.fixIdx

theorem updateBcd_self (s : Driver) (a : Axis) (val : U32) :
    (s.updateBcd a val).param a.bcdIdx = val ∧
      (s.updateBcd a val).param a.fixIdx = s.param a.fixIdx ∧
      (s.HoldsSum a → (s.updateBcd a val).HoldsSum a) := by
  have hreg : faOffset + (a.fixIdx - cfgCustomFirst) * 4 = a.reg := by cases a <;> rfl
  have hfix : (s.setParam a.bcdIdx val).param a.fixIdx = s.param a.fixIdx :=
    param_setParam_of_ne (by cases a <;> decide) _
  have hbcd : (s.setParam a.bcdIdx val).param a.bcdIdx = val := param_setParam_self ..
  unfold updateBcd checkAndUpdate
  split_ifs with hnew
  · refine ⟨hbcd, hfix, fun _ ↦ ?_⟩
    dsimp only
    rw [hreg, hfix, HoldsSum]
    show WriteLog.last _ _ = some ((s.setParam a.bcdIdx val).param a.fixIdx +
      (s.setParam a.bcdIdx val).param a.bcdIdx)
    rw [hfix, hbcd, BitVec.add_comm]
    exact WriteLog.last_concat_self ..
  -- the register is up to date, or it would not have held the sum
  · exact ⟨(not_not.mp hnew).symm, rfl, id⟩

theorem updateBcd_other (s : Driver) {a b : Axis} (hne : a ≠ b) (val : U32) :
    AxisSet b s (s.updateBcd a val) (s.param b.fixIdx) := by
  have hset : SetsAt s a.bcdIdx [b.reg] (s.updateBcd a val) := by
    have hreg : faOffset + (a.fixIdx - cfgCustomFirst) * 4 ∉ [b.reg] := by
      revert hne
      cases a <;> cases b <;> decide
    unfold updateBcd checkAndUpdate
    split_ifs
    · exact (setsAt_setParam ..).writel hreg _
    · exact .refl ..
  refine hset.holdsSum ?_ ?_ <;> revert hne <;> cases a <;> cases b <;> decide

theorem updateBcd_both (s : Driver) (offsets : Offsets) (a : Axis) :
    let t := (s.updateBcd .x offsets.x).updateBcd .y offsets.y
    t.param a.bcdIdx = a.bcdVal offsets ∧ t.param a.fixIdx = s.param a.fixIdx ∧
      (s.HoldsSum a → t.HoldsSum a) := by
  intro t
  cases a with
  | x =>
      obtain ⟨hbcd, hfix, hholds⟩ := updateBcd_self s .x offsets.x
      have hne : Axis.y ≠ .x := by decide
      have hother := updateBcd_other (s.updateBcd .x offsets.x) hne offsets.y
      exact ⟨hother.bcd.trans hbcd, hother.fix.trans hfix, hother.holds ∘ hholds⟩
  | y =>
      have hne : Axis.x ≠ .y := by decide
      have hother := updateBcd_other s hne offsets.x
      obtain ⟨hbcd, hfix, hholds⟩ := updateBcd_self (s.updateBcd .x offsets.x) .y offsets.y
      exact ⟨hbcd, hfix.trans hother.fix, hholds ∘ hother.holds⟩

end Driver

/-! ## Runs -/

namespace UserDevices

/-- What one request does to an axis. -/
theorem cfgStep_axis (s : UserDevices) (op : CfgOp) (a : Axis) :
    (s.cfgStep op).dsc = s.dsc ∧
      (s.cfgStep op).drv.param a.fixIdx = (op.fixVal a).getD (s.drv.param a.fixIdx) ∧
      (s.cfgStep op).drv.param a.bcdIdx = (op.bcdVal s.dsc a).getD (s.drv.param a.bcdIdx) ∧
      (s.drv.HoldsSum a → (s.cfgStep op).drv.HoldsSum a) := by
  cases op with
  | setCfg readl req =>
      have hset := Driver.axisSet_liberaIocSetCfg readl s.drv req a
      refine ⟨rfl, ?_, hset.bcd, hset.holds⟩
      rw [CfgOp.fixVal, apply_ite (Option.getD · _)]
      exact hset.fix
  | bcdOffsets file accessOk offsets =>
      rw [cfgStep, dscIoctl, CfgOp.bcdVal]
      cases hioctl : liberaDscIoctl s.dsc file (DscRequest.bcdOffsets ⟨0, offsets⟩).cmd accessOk with
      | some err =>
          rw [if_neg (by simp)]
          exact ⟨rfl, rfl, rfl, id⟩
      | none =>
          rw [if_pos rfl]
          obtain ⟨hbcd, hfix, hholds⟩ := Driver.updateBcd_both s.drv offsets a
          exact ⟨rfl, hfix, hbcd, hholds⟩
  | setParams params => exact ⟨rfl, rfl, rfl, id⟩

end UserDevices

/-- The value last delivered by the configuration. -/
def lastFix (a : Axis) (ops : List CfgOp) : Option U32 := ops.reverse.findSome? (CfgOp.fixVal a)

/-- The value last delivered by the dsc device. -/
def lastBcd (dsc : CommonDev) (a : Axis) (ops : List CfgOp) : Option U32 :=
  ops.reverse.findSome? (CfgOp.bcdVal dsc a)

namespace UserDevices

theorem cfgRun_axis (s : UserDevices) (ops : List CfgOp) (a : Axis) :
    (s.cfgRun ops).dsc = s.dsc ∧
      (s.cfgRun ops).drv.param a.fixIdx = (lastFix a ops).getD (s.drv.param a.fixIdx) ∧
      (s.cfgRun ops).drv.param a.bcdIdx = (lastBcd s.dsc a ops).getD (s.drv.param a.bcdIdx) ∧
      (s.drv.HoldsSum a → (s.cfgRun ops).drv.HoldsSum a) := by
  induction ops using List.reverseRecOn with
  | nil => exact ⟨rfl, rfl, rfl, id⟩
  | append_singleton ops op ih =>
      obtain ⟨hdsc, hfix, hbcd, hholds⟩ := ih
      obtain ⟨hdsc', hfix', hbcd', hholds'⟩ := cfgStep_axis (s.cfgRun ops) op a
      rw [cfgRun, List.foldl_concat, ← cfgRun, lastFix, lastBcd, List.reverse_concat]
      refine ⟨hdsc'.trans hdsc, ?_, ?_, hholds' ∘ hholds⟩
      · rw [hfix', hfix, List.findSome?_cons]
        cases CfgOp.fixVal a op <;> rfl
      · rw [hbcd', hbcd, hdsc, List.findSome?_cons]
        cases CfgOp.bcdVal s.dsc a op <;> rfl

end UserDevices

namespace Driver

/-! ## The state after `libera_init_specific` -/

variable {s t : Driver} {a : Axis}

theorem setParams_param (s : Driver) (params : List (ℕ × U32)) (idx : ℕ) :
    (s.setParams params).param idx = (WriteLog.last params idx).getD (s.param idx) := by
  induction params using List.reverseRecOn with
  | nil => rfl
  | append_singleton params p ih =>
      rw [setParams, List.foldl_concat, ← setParams]
      by_cases hp : p.1 = idx
      · subst hp
        rw [param_setParam_self, WriteLog.last_concat_self, Option.getD_some]
      · rw [param_setParam_of_ne (Ne.symm hp), ih,
          WriteLog.last_append_of_ne (List.forall_mem_singleton.mpr hp)]

theorem initParam_axis (readl : ℕ → U32) (s : Driver) {i : ℕ} (hi : i < 29) (a : Axis) :
    (initParam readl s i).param a.fixIdx = s.param a.fixIdx ∧
      (initParam readl s i).param a.bcdIdx = s.param a.bcdIdx ∧
      (cfgCustomFirst + i = a.fixIdx ∨ s.HoldsSum a → (initParam readl s i).HoldsSum a) := by
  have hidx : (BitVec.ofNat 32 (cfgCustomFirst + i)).toNat = cfgCustomFirst + i := by
    have hfirst : cfgCustomFirst = 128 := rfl
    rw [BitVec.toNat_ofNat, Nat.mod_eq_of_lt (by omega)]
  have hset := axisSet_setSpecific readl s
    ⟨BitVec.ofNat 32 (cfgCustomFirst + i), s.param (cfgCustomFirst + i)⟩ a
  refine ⟨?_, hset.bcd, ?_⟩
  · refine hset.fix.trans ?_
    dsimp only
    rw [hidx]
    split_ifs with heq
    · rw [heq]
    · rfl
  · rintro (heq | hsum)
    · exact holdsSum_setSpecific readl s (hidx.trans heq)
    · exact hset.holds hsum

theorem initParams_axis (readl : ℕ → U32) (s : Driver) {n : ℕ} (hn : n ≤ 29) (a : Axis) :
    let t := (List.range n).foldl (initParam readl) s
    t.param a.fixIdx = s.param a.fixIdx ∧ t.param a.bcdIdx = s.param a.bcdIdx ∧
      (a.fixIdx < cfgCustomFirst + n → t.HoldsSum a) := by
  induction n with
  | zero =>
      refine ⟨rfl, rfl, fun h ↦ absurd h ?_⟩
      cases a <;> decide
  | succ n ih =>
      obtain ⟨hfix, hbcd, hholds⟩ := ih (Nat.le_of_succ_le hn)
      obtain ⟨hfix', hbcd', hholds'⟩ :=
        initParam_axis readl ((List.range n).foldl (initParam readl) s) (i := n) hn a
      rw [List.range_succ, List.foldl_concat]
      refine ⟨hfix'.trans hfix, hbcd'.trans hbcd, fun hlt ↦ hholds' ?_⟩
      rcases Nat.lt_succ_iff_lt_or_eq.mp hlt with hlt | heq
      · exact .inr (hholds hlt)
      · exact .inl heq.symm

theorem liberaInitSpecific_axis (readl : ℕ → U32) (s : Driver) (a : Axis) :
    (s.liberaInitSpecific readl).param a.fixIdx = 0 ∧
      (s.liberaInitSpecific readl).param a.bcdIdx = s.param a.bcdIdx ∧
      (s.liberaInitSpecific readl).HoldsSum a := by
  obtain ⟨hfix, hbcd, hholds⟩ := initParams_axis readl (s.setParams (s.mirrorInit readl))
    (n := 29) le_rfl a
  refine ⟨hfix.trans ?_, hbcd.trans ?_, hholds (by cases a <;> decide)⟩
  · rw [setParams_param, show WriteLog.last (s.mirrorInit readl) a.fixIdx = some 0 by
      cases a <;> rfl, Option.getD_some]
  · rw [setParams_param, show WriteLog.last (s.mirrorInit readl) a.bcdIdx = none by
      cases a <;> rfl, Option.getD_none]

end Driver

/-- **The offset registers hold the sum of both sources.**  After `libera_init_specific` and any
requests of both devices each register holds the value that the configuration delivered last plus
the one that the dsc device delivered last, in whichever order they came. -/
theorem offsets_hold (readl : ℕ → U32) (s : UserDevices) (ops : List CfgOp) (a : Axis) :
    let t := UserDevices.cfgRun { s with drv := s.drv.liberaInitSpecific readl } ops
    WriteLog.last t.drv.writes a.reg = some (t.drv.param a.fixIdx + t.drv.param a.bcdIdx) ∧
      t.drv.param a.fixIdx = (lastFix a ops).getD 0 ∧
      t.drv.param a.bcdIdx = (lastBcd s.dsc a ops).getD (s.drv.param a.bcdIdx) ∧
      ∀ ops', lastFix a ops' = lastFix a ops → lastBcd s.dsc a ops' = lastBcd s.dsc a ops →
        WriteLog.last
            (UserDevices.cfgRun { s with drv := s.drv.liberaInitSpecific readl } ops').drv.writes
            a.reg =
          WriteLog.last t.drv.writes a.reg := by
  intro t
  obtain ⟨hfix, hbcd, hholds⟩ := Driver.liberaInitSpecific_axis readl s.drv a
  have hrun (ops : List CfgOp) :
      WriteLog.last
          (UserDevices.cfgRun { s with drv := s.drv.liberaInitSpecific readl } ops).drv.writes
          a.reg =
        some ((lastFix a ops).getD 0 + (lastBcd s.dsc a ops).getD (s.drv.param a.bcdIdx)) := by
    obtain ⟨-, hfix', hbcd', hholds'⟩ :=
      UserDevices.cfgRun_axis { s with drv := s.drv.liberaInitSpecific readl } ops a
    rw [← hfix, ← hbcd, ← hfix', ← hbcd']
    exact hholds' hholds
  obtain ⟨-, hfix', hbcd', hholds'⟩ :=
    UserDevices.cfgRun_axis { s with drv := s.drv.liberaInitSpecific readl } ops a
  refine ⟨hholds' hholds, hfix ▸ hfix', hbcd ▸ hbcd', fun ops' hlastFix hlastBcd ↦ ?_⟩
  rw [hrun ops, hrun ops', hlastFix, hlastBcd]

end LiberaBase
