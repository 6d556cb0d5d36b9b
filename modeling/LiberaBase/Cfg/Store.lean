import LiberaBase.Cfg.Mirror

/-!
# What a configuration request finds

The mirror of the parameters is a store: a request gets what was set last, whatever the other
devices and the interrupt handlers do in between.  The interlock status is the exception, to which
every interlock interrupt adds.
-/

namespace LiberaBase

/-! ## `LIBERA_IOC_GET_CFG` -/

/-- The parameters that are read from `param[]`. -/
def mirroredParams : List ℕ :=
  [cfgXoffset, cfgYoffset, cfgQoffset, cfgKx, cfgKy, cfgIlkXlow, cfgIlkXhigh, cfgIlkYlow,
    cfgIlkYhigh, cfgIlkMode, cfgIlkOverflowLimit, cfgIlkOverflowDur, cfgIlkGainLimit, cfgIlkstatus,
    cfgPmoffset, cfgPmdec, cfgExtswitch, cfgSwdelay, cfgTrigdelay, cfgBcdXoffset, cfgBcdYoffset,
    cfgPmXlow, cfgPmXhigh, cfgPmYlow, cfgPmYhigh, cfgPmMode, cfgPmOverflowLimit, cfgPmOverflowDur,
    cfgSrEnable, cfgSrCspiEnable, cfgSrAveragingStop, cfgSrAverageWindow, cfgSrStart, cfgSrWindow,
    cfgSpThreshold, cfgSpNBefore, cfgSpNAfter]

def averageSum (nsums lsw msw : U32) : U32 :=
  if 0 < nsums then (divU64 (U32.toHw lsw + (U32.toHw msw <<< 32)) nsums).setWidth 32 else 0

namespace Driver

/-- `libera_cfg_get_specific`; `none` is `-EINVAL`. -/
def liberaCfgGetSpecific (readl : ℕ → U32) (s : Driver) (idx : ℕ) : Option U32 :=
  if idx ∈ mirroredParams then some (s.param idx)
  else if idx = cfgDecDdc then some s.lgbl.d
  else if idx = cfgDfa then some s.lgbl.dfa
  else if idx = cfgDdcMaflength then some (readl ddcMafLength)
  else if idx = cfgDdcMafdelay then some (readl ddcMafDelay)
  else if idx = cfgMaxAdc then some (readl adcMaxReg &&& 0xFFFF#32)
  else if idx = cfgAverageSum then
    some (averageSum (readl faNsums) (readl faSumsumsLsw) (readl faSumsumsMsw))
  else none

/-- `LIBERA_IOC_GET_CFG` of `libera_cfg_cmd`; `none` is `-EINVAL`. -/
def liberaIocGetCfg (readl : ℕ → U32) (s : Driver) (req : CfgRequest) : Option U32 :=
  let idx := req.idx.toNat
  if cfgParamsMax ≤ idx then none
  else if idx = cfgTrigmode ∨ idx = cfgMcpll ∨ idx = cfgScpll then some (s.param idx)
  else if idx = cfgFeatureCustomer then some (readl fpgaFeatureCustomer)
  else if idx = cfgFeatureItech then some s.lgbl.feature
  else s.liberaCfgGetSpecific readl idx

theorem liberaIocGetCfg_mirrored (readl : ℕ → U32) (s : Driver) {req : CfgRequest}
    (hidx : req.idx.toNat ∈ mirroredParams) :
    s.liberaIocGetCfg readl req = some (s.param req.idx.toNat) := by
  have hrange : ∀ i ∈ mirroredParams, cfgCustomFirst ≤ i ∧ i < cfgParamsMax := by decide
  obtain ⟨hfirst, hmax⟩ := hrange _ hidx
  have hne {i : ℕ} (hi : i < cfgCustomFirst) : req.idx.toNat ≠ i := (hi.trans_le hfirst).ne'
  rw [liberaIocGetCfg, if_neg (Nat.not_le.mpr hmax), if_neg, if_neg (hne (by decide)),
    if_neg (hne (by decide)), liberaCfgGetSpecific, if_pos hidx]
  exact not_or.mpr ⟨hne (by decide), not_or.mpr ⟨hne (by decide), hne (by decide)⟩⟩

end Driver

/-! ## The store -/

/-- A value that was set, or an interlock status that was reported. -/
inductive CfgEntry where
  | set (idx : ℕ) (val : U32)
  | ilk (status : U32)
  deriving DecidableEq

def CfgEntry.pair? : CfgEntry → Option (ℕ × U32)
  | set idx val => some (idx, val)
  | ilk _ => none

/-- The value set last. -/
def lastSet (log : List CfgEntry) (idx : ℕ) : Option U32 :=
  WriteLog.last (log.filterMap CfgEntry.pair?) idx

/-- What is kept of each parameter, and what the register of each setting holds. -/
structure CfgStore where
  param : ℕ → U32
  shown : CfgSetting → Option U32

namespace CfgStore

def zero : CfgStore := ⟨fun _ ↦ 0, fun _ ↦ none⟩

def apply (brilliance : Bool) (σ : CfgStore) : CfgEntry → CfgStore
  | .set idx val =>
    { param := Function.update σ.param idx (keptWord brilliance idx val)
      shown := fun k ↦ if idx = k.idx then some (k.view val) else σ.shown k }
  | .ilk status =>
    { σ with param := Function.update σ.param cfgIlkstatus (σ.param cfgIlkstatus ||| status) }

/-- The store after all that was logged. -/
def after (brilliance : Bool) (log : List CfgEntry) : CfgStore :=
  log.foldl (apply brilliance) zero

variable {brilliance : Bool} {log : List CfgEntry} {idx : ℕ} {k : CfgSetting}

theorem after_concat (log : List CfgEntry) (e : CfgEntry) :
    after brilliance (log ++ [e]) = (after brilliance log).apply brilliance e :=
  List.foldl_concat ..

theorem lastSet_concat_set (log : List CfgEntry) (i : ℕ) (val : U32) :
    lastSet (log ++ [.set i val]) idx = if i = idx then some val else lastSet log idx := by
  rw [lastSet, List.filterMap_append]
  change WriteLog.last (_ ++ [(i, val)]) idx = _
  by_cases hi : i = idx
  · rw [if_pos hi, hi, WriteLog.last_concat_self]
  · rw [if_neg hi, WriteLog.last_append_of_ne (List.forall_mem_singleton.mpr hi)]
    rfl

theorem lastSet_concat_ilk (log : List CfgEntry) (status : U32) :
    lastSet (log ++ [.ilk status]) idx = lastSet log idx := by
  rw [lastSet, List.filterMap_append]
  exact congrArg (WriteLog.last · idx) (List.append_nil _)

theorem after_shown (log : List CfgEntry) (k : CfgSetting) :
    (after brilliance log).shown k = (lastSet log k.idx).map k.view := by
  induction log using List.reverseRecOn with
  | nil => rfl
  | append_singleton log e ih =>
      rw [after_concat]
      cases e with
      | set i val =>
          rw [lastSet_concat_set, apply]
          dsimp only
          split_ifs
          · rfl
          · exact ih
      | ilk status =>
          rw [lastSet_concat_ilk]
          exact ih

theorem after_param (log : List CfgEntry) (hidx : idx ≠ cfgIlkstatus) :
    (after brilliance log).param idx =
      ((lastSet log idx).map (keptWord brilliance idx)).getD 0 := by
  induction log using List.reverseRecOn with
  | nil => rfl
  | append_singleton log e ih =>
      rw [after_concat]
      cases e with
      | set i val =>
          rw [lastSet_concat_set, apply]
          dsimp only
          by_cases hi : i = idx
          · rw [if_pos hi, hi, Function.update_self]
            rfl
          · rw [if_neg hi, Function.update_of_ne (Ne.symm hi), ih]
      | ilk status =>
          rw [lastSet_concat_ilk, apply]
          dsimp only
          rw [Function.update_of_ne hidx, ih]

end CfgStore

/-! ## The interlock status -/

/-- The entry reports an interlock with this bit. -/
def CfgEntry.reports (j : ℕ) : CfgEntry → Bool
  | set _ _ => false
  | ilk status => status.getLsbD j

/-- An interlock with this bit was reported, and the status has not been reset since. -/
def Reported (log : List CfgEntry) (j : ℕ) : Prop :=
  ∃ before e since, log = before ++ e :: since ∧ e.reports j = true ∧
    lastSet since cfgIlkstatus = none

theorem exists_split_concat {α : Type*} (l : List α) (a : α) (p : α → List α → Prop) :
    (∃ before x since, l ++ [a] = before ++ x :: since ∧ p x since) ↔
      p a [] ∨ ∃ before x since, l = before ++ x :: since ∧ p x (since ++ [a]) := by
  constructor
  · rintro ⟨before, x, since, heq, hp⟩
    rcases List.eq_nil_or_concat' since with rfl | ⟨since, y, rfl⟩
    · obtain ⟨-, hx⟩ := List.append_inj' heq rfl
      obtain rfl := List.singleton_inj.mp hx
      exact .inl hp
    · rw [← List.cons_append, ← List.append_assoc] at heq
      obtain ⟨hl, hy⟩ := List.append_inj' heq rfl
      obtain rfl := List.singleton_inj.mp hy
      exact .inr ⟨before, x, since, hl, hp⟩
  · rintro (hp | ⟨before, x, since, rfl, hp⟩)
    · exact ⟨l, a, [], rfl, hp⟩
    · exact ⟨before, x, since ++ [a], by rw [List.append_assoc, List.cons_append], hp⟩

theorem not_reported_nil (j : ℕ) : ¬Reported [] j := by
  rintro ⟨before, e, since, hlog, -⟩
  exact List.append_ne_nil_of_right_ne_nil before (List.cons_ne_nil e since) hlog.symm

theorem reported_concat_set (log : List CfgEntry) (i : ℕ) (val : U32) (j : ℕ) :
    Reported (log ++ [.set i val]) j ↔ i ≠ cfgIlkstatus ∧ Reported log j := by
  rw [Reported, exists_split_concat, or_iff_right (fun h ↦ Bool.false_ne_true h.1)]
  constructor
  · rintro ⟨before, e, since, hlog, hbit, hlast⟩
    rw [CfgStore.lastSet_concat_set] at hlast
    split_ifs at hlast with hi
    exact ⟨hi, before, e, since, hlog, hbit, hlast⟩
  · rintro ⟨hi, before, e, since, hlog, hbit, hlast⟩
    refine ⟨before, e, since, hlog, hbit, ?_⟩
    rw [CfgStore.lastSet_concat_set, if_neg hi, hlast]

theorem reported_concat_ilk (log : List CfgEntry) (status : U32) (j : ℕ) :
    Reported (log ++ [.ilk status]) j ↔ status.getLsbD j = true ∨ Reported log j := by
  rw [Reported, exists_split_concat]
  refine or_congr (and_iff_left rfl) ?_
  simp only [CfgStore.lastSet_concat_ilk]
  rfl

theorem CfgStore.after_ilkstatus (brilliance : Bool) (log : List CfgEntry) (j : ℕ) :
    ((after brilliance log).param cfgIlkstatus).getLsbD j = true ↔ Reported log j := by
  induction log using List.reverseRecOn with
  | nil => exact iff_of_false (by simp [after, zero]) (not_reported_nil j)
  | append_singleton log e ih =>
      rw [after_concat]
      cases e with
      | set i val =>
          rw [reported_concat_set, apply]
          dsimp only
          by_cases hi : i = cfgIlkstatus
          · rw [hi, Function.update_self]
            exact iff_of_false (by simp [keptWord, cfgPmOverflowLimit, cfgIlkOverflowLimit,
              cfgIlkstatus]) fun h ↦ h.1 rfl
          · rw [Function.update_of_ne (Ne.symm hi), ih]
            exact (and_iff_right hi).symm
      | ilk status =>
          rw [reported_concat_ilk, apply]
          dsimp only
          rw [Function.update_self, BitVec.getLsbD_or, Bool.or_eq_true, ih, or_comm]

/-! ## The driver refines the store -/

/-- The parameters that not only requests for them set, or that are not mirrored. -/
def unkeptParams : List ℕ :=
  [cfgTrigmode, cfgMcpll, cfgScpll, cfgBcdXoffset, cfgBcdYoffset, cfgDdcMaflength, cfgDdcMafdelay]

namespace Driver

variable {s t : Driver} {σ : CfgStore} {brilliance : Bool}

structure Refines (s : Driver) (brilliance : Bool) (σ : CfgStore) : Prop where
  brilliance : isBrilliance s.lgbl.feature = brilliance
  param : ∀ i ∉ unkeptParams, s.param i = σ.param i
  shown : ∀ k : CfgSetting, WriteLog.last s.writes k.reg = σ.shown k

theorem Refines.aside (h : Refines s brilliance σ) (haside : Aside unkeptParams s t) :
    Refines t brilliance σ where
  brilliance := by
    rw [haside.feature]
    exact h.brilliance
  param := fun i hi ↦ (haside.param i hi).trans (h.param i hi)
  shown := fun k ↦ (haside.shows k).trans (h.shown k)

theorem Refines.setCfg (h : Refines s brilliance σ) (readl : ℕ → U32) (req : CfgRequest) :
    Refines (s.liberaIocSetCfg readl req).1 brilliance
      (if (s.liberaIocSetCfg readl req).2 = 0 then
        σ.apply brilliance (.set req.idx.toNat req.val) else σ) := by
  rcases liberaIocSetCfg_stores readl s req with ⟨hret, hsame⟩ | ⟨hret, hlgbl, hparam, hshown⟩
  · rw [if_neg hret, hsame]
    exact h
  rw [if_pos hret]
  refine ⟨?_, fun i hi ↦ ?_, fun k ↦ ?_⟩
  · rw [hlgbl]
    exact h.brilliance
  · rw [Driver.param, hparam, CfgStore.apply]
    dsimp only
    by_cases hidx : i = req.idx.toNat
    · subst hidx
      rw [Function.update_self, Function.update_self, ← h.brilliance]
      refine s.stored_eq (fun heq ↦ hi ?_) (fun heq ↦ hi ?_) _ <;> rw [heq] <;> decide
    · rw [Function.update_of_ne hidx, Function.update_of_ne hidx]
      exact h.param i hi
  · rw [hshown, CfgStore.apply]
    dsimp only
    split_ifs
    · rfl
    · exact h.shown k

theorem Refines.ilk (h : Refines s brilliance σ) (status : U32) :
    Refines (s.liberaIlkHandler status) brilliance (σ.apply brilliance (.ilk status)) := by
  have hset : Refines (s.setParam cfgIlkstatus (s.param cfgIlkstatus ||| status)) brilliance
      (σ.apply brilliance (.ilk status)) := by
    refine ⟨h.brilliance, fun i hi ↦ ?_, h.shown⟩
    rw [CfgStore.apply]
    dsimp only
    by_cases hidx : i = cfgIlkstatus
    · rw [hidx, param_setParam_self, Function.update_self, h.param _ (by decide)]
    · rw [param_setParam_of_ne hidx, Function.update_of_ne hidx]
      exact h.param i hi
  exact hset.aside ((Aside.refl ..).send _ _)

/-! ## After `libera_init_specific` -/

/-- The first `n` parameters have been passed to the FPGA. -/
structure Passed (s : Driver) (n : ℕ) (t : Driver) : Prop where
  lgbl : t.lgbl = s.lgbl
  param : ∀ i, t.param i =
    if cfgCustomFirst ≤ i ∧ i < cfgCustomFirst + n then
      keptWord (isBrilliance s.lgbl.feature) i (s.param i)
    else s.param i
  shown : ∀ k : CfgSetting, WriteLog.last t.writes k.reg =
    if k.idx < cfgCustomFirst + n then some (k.view (s.param k.idx))
    else WriteLog.last s.writes k.reg

theorem setSpecific_limit (readl : ℕ → U32) (s : Driver) {req : CfgRequest} {x : Threshold}
    (hidx : req.idx.toNat = x.limitIdx) :
    s.liberaCfgSetSpecific readl req = s.setOverflowLimit x.limitIdx req.val := by
  unfold liberaCfgSetSpecific
  rw [hidx]
  iterate 4 rw [if_neg (by cases x <;> decide)]
  exact if_pos (by cases x <;> decide)

theorem keptWord_zero (brilliance : Bool) (idx : ℕ) : keptWord brilliance idx 0 = 0 := by
  unfold keptWord
  split_ifs
  · cases brilliance <;> rfl
  · rfl
  · rfl

theorem keptWord_of_ne {idx : ℕ} (hlimit : ∀ x : Threshold, idx ≠ x.limitIdx)
    (hstatus : idx ≠ cfgIlkstatus) (brilliance : Bool) (val : U32) :
    keptWord brilliance idx val = val := by
  have hlimits : ¬(idx = cfgPmOverflowLimit ∨ idx = cfgIlkOverflowLimit) :=
    not_or.mpr ⟨hlimit .pm, hlimit .ilk⟩
  rw [keptWord, if_neg hlimits, if_neg hstatus]

/-- A request for what the parameter is, which would change nothing if it were refused. -/
theorem setSpecific_again (readl : ℕ → U32) (s : Driver) (req : CfgRequest)
    (hval : req.val = s.param req.idx.toNat)
    (hlimit : ∀ x : Threshold, req.idx.toNat = x.limitIdx →
      s.param x.limitIdx ≤ adcMax (isBrilliance s.lgbl.feature))
    (hidx : req.idx.toNat < cfgIlkstatus) :
    (s.liberaCfgSetSpecific readl req).1.lgbl = s.lgbl ∧
      (∀ i, (s.liberaCfgSetSpecific readl req).1.param i = if i = req.idx.toNat then
        keptWord (isBrilliance s.lgbl.feature) i (s.param i) else s.param i) ∧
      ∀ k : CfgSetting, WriteLog.last (s.liberaCfgSetSpecific readl req).1.writes k.reg =
        if req.idx.toNat = k.idx then some (k.view (s.param k.idx))
        else WriteLog.last s.writes k.reg := by
  have hshows (k : CfgSetting) : WriteLog.last (s.liberaCfgSetSpecific readl req).1.writes k.reg =
      if req.idx.toNat = k.idx then some (k.view (s.param k.idx))
      else WriteLog.last s.writes k.reg := by
    by_cases hk : req.idx.toNat = k.idx
    · rw [setSpecific_setting readl s hk, if_pos hk, last_writel_self, hval, hk]
    · rcases setSpecific_shows readl s req k with h | h
      · rw [h, if_neg hk]
      · rw [h, if_neg hk, if_neg hk]
  rcases answers_setSpecific readl s req with h | ⟨-, frozen, new, hregs, h⟩
  · refine ⟨by rw [h], fun i ↦ ?_, hshows⟩
    have hnot (x : Threshold) : req.idx.toNat ≠ x.limitIdx := fun hx ↦ by
      rw [setSpecific_limit readl s hx, setOverflowLimit_eq, hval, hx, if_pos (hlimit x hx)] at h
      exact absurd (congrArg Prod.snd h).symm (neg_ne_zero.mpr (by decide))
    rw [h]
    split_ifs with hi
    · rw [hi, keptWord_of_ne hnot hidx.ne]
    · rfl
  · refine ⟨by rw [h], fun i ↦ ?_, hshows⟩
    rw [h, hval, s.stored_eq (hidx.trans (by decide)).ne (hidx.trans (by decide)).ne]
    change Function.update s.cfg.param req.idx.toNat _ i = _
    split_ifs with hi
    · rw [hi, Function.update_self]
    · exact Function.update_of_ne hi ..

theorem Passed.step {n : ℕ} (h : Passed s n t) (hn : n < 29) (readl : ℕ → U32)
    (hlimit : ∀ x : Threshold, s.param x.limitIdx ≤ adcMax (isBrilliance s.lgbl.feature)) :
    Passed s (n + 1) (initParam readl t n) := by
  have hfirst : cfgCustomFirst = 128 := rfl
  have hlast : cfgIlkstatus = 162 := rfl
  have hidx : (BitVec.ofNat 32 (cfgCustomFirst + n)).toNat = cfgCustomFirst + n := by
    rw [BitVec.toNat_ofNat, Nat.mod_eq_of_lt (by omega)]
  have hbrilliance : isBrilliance t.lgbl.feature = isBrilliance s.lgbl.feature := by rw [h.lgbl]
  have hsame {i : ℕ} (hi : cfgCustomFirst + n = i) : t.param i = s.param i := by
    rw [h.param, if_neg (by omega)]
  obtain ⟨hlgbl, hparam, hshown⟩ := setSpecific_again readl t
    ⟨BitVec.ofNat 32 (cfgCustomFirst + n), t.param (cfgCustomFirst + n)⟩
    (congrArg t.param hidx).symm
    (fun x hx ↦ by
      rw [hsame (hidx.symm.trans hx), hbrilliance]
      exact hlimit x)
    (by rw [hidx]; omega)
  dsimp only at hparam hshown
  rw [hidx, hbrilliance] at hparam
  rw [hidx] at hshown
  refine ⟨hlgbl.trans h.lgbl, fun i ↦ (hparam i).trans ?_, fun k ↦ (hshown k).trans ?_⟩
  · rw [h.param]
    by_cases hi : i = cfgCustomFirst + n
    · rw [if_pos hi, if_neg (by omega), if_pos (by omega)]
    · rw [if_neg hi]
      exact if_congr (by omega) rfl rfl
  · rw [h.shown]
    by_cases hk : cfgCustomFirst + n = k.idx
    · rw [if_pos hk, if_pos (by omega), hsame hk]
    · rw [if_neg hk]
      exact if_congr (by omega) rfl rfl

theorem passed (readl : ℕ → U32) (s : Driver)
    (hlimit : ∀ x : Threshold, s.param x.limitIdx ≤ adcMax (isBrilliance s.lgbl.feature)) {n : ℕ}
    (hn : n ≤ 29) : Passed s n ((List.range n).foldl (initParam readl) s) := by
  induction n with
  | zero =>
      refine ⟨rfl, fun i ↦ (if_neg (by omega)).symm, fun k ↦ (if_neg ?_).symm⟩
      cases k <;> decide
  | succ n ih =>
      rw [List.range_succ, List.foldl_concat]
      exact (ih (Nat.le_of_succ_le hn)).step hn readl hlimit

/-- What `libera_init_specific` sets. -/
def initLog (readl : ℕ → U32) (s : Driver) : List CfgEntry :=
  (s.mirrorInit readl).map fun p ↦ .set p.1 p.2

theorem lastSet_initLog (readl : ℕ → U32) (s : Driver) (idx : ℕ) :
    lastSet (s.initLog readl) idx = WriteLog.last (s.mirrorInit readl) idx := by
  rw [lastSet, initLog, List.filterMap_map]
  exact congrArg (WriteLog.last · idx) (List.filterMap_some ..)

theorem not_reported_initLog (readl : ℕ → U32) (s : Driver) (j : ℕ) :
    ¬Reported (s.initLog readl) j := by
  rintro ⟨before, e, since, hlog, hbit, -⟩
  have hmem : e ∈ s.initLog readl := by
    rw [hlog]
    exact List.mem_append_right _ List.mem_cons_self
  obtain ⟨p, -, rfl⟩ := List.mem_map.mp hmem
  exact Bool.false_ne_true hbit

theorem setParams_frame (s : Driver) (params : List (ℕ × U32)) :
    (s.setParams params).lgbl = s.lgbl ∧ (s.setParams params).writes = s.writes := by
  induction params generalizing s with
  | nil => exact ⟨rfl, rfl⟩
  | cons p params ih => exact ih (s.setParam p.1 p.2)

/-- After `libera_init_specific` the driver refines the store. -/
theorem refines_liberaInitSpecific (readl : ℕ → U32) (hparam : ∀ i ∉ unkeptParams, s.param i = 0)
    (hwrites : s.writes = []) :
    Refines (s.liberaInitSpecific readl) (isBrilliance s.lgbl.feature)
      (.after (isBrilliance s.lgbl.feature) (s.initLog readl)) := by
  have hset (idx : ℕ) := s.setParams_param (s.mirrorInit readl) idx
  obtain ⟨hlgbl, hframe⟩ := s.setParams_frame (s.mirrorInit readl)
  have hpass : Passed _ _ (s.liberaInitSpecific readl) :=
    passed readl (s.setParams (s.mirrorInit readl)) (fun x ↦ ?_) le_rfl
  · refine ⟨by rw [hpass.lgbl, hlgbl], fun i hi ↦ ?_, fun k ↦ ?_⟩
    · rw [hpass.param, hset, hparam i hi, hlgbl]
      by_cases hstatus : i = cfgIlkstatus
      · subst hstatus
        have hlast : WriteLog.last (s.mirrorInit readl) cfgIlkstatus = none := rfl
        rw [if_neg (by decide), hlast, Option.getD_none]
        refine BitVec.eq_of_getLsbD_eq fun j _ ↦ ?_
        rw [Bool.eq_iff_iff, CfgStore.after_ilkstatus]
        exact iff_of_false (by simp) (s.not_reported_initLog readl j)
      · rw [CfgStore.after_param _ hstatus, lastSet_initLog]
        cases hlast : WriteLog.last (s.mirrorInit readl) i with
        | none =>
            rw [Option.getD_none, keptWord_zero, ite_self]
            rfl
        | some val =>
            rw [Option.getD_some, Option.map_some, Option.getD_some]
            split_ifs with hrange
            · rfl
            · refine (keptWord_of_ne (fun x hx ↦ hrange ?_) hstatus _ _).symm
              rw [hx]
              cases x <;> decide
    · rw [hpass.shown, hset, hframe, hwrites, CfgStore.after_shown, lastSet_initLog]
      cases k <;> rfl
  · have hlast : WriteLog.last (s.mirrorInit readl) x.limitIdx =
        some (if isBrilliance s.lgbl.feature then 30000 else 1900) := by
      cases x <;> rfl
    rw [hset, hlast, Option.getD_some, hlgbl]
    cases isBrilliance s.lgbl.feature <;> decide

end Driver

/-! ## Requests and interrupts -/

namespace UserDevices

variable {s : UserDevices}

open Driver

theorem aside_eventCmd (s : UserDevices) (file : File) (req : EventRequest) :
    Aside unkeptParams s.drv (s.liberaEventCmd file req).2.drv := by
  have hrefl := Aside.refl unkeptParams s.drv
  cases req with
  | setFlmc temp =>
      rw [liberaEventCmd]
      dsimp only
      split_ifs
      · exact hrefl
      · exact hrefl
  | setMcphi mcphi => exact .of_eq rfl rfl rfl
  | setScphi scphi => exact .of_eq rfl rfl rfl
  | setNco nco => exact hrefl.writel (reg_ne ddcNco (by decide)) _
  | setMcpll temp status =>
      have hset := hrefl.setParam (i := cfgMcpll) (by decide) (temp.value &&& faiPllStatusMask)
      exact (hset.writel (reg_ne faiSwStatus (by decide)) _).send _ _
  | setScpll temp =>
      have hset := hrefl.setParam (i := cfgScpll) (by decide) (temp.value &&& faiPllStatusMask)
      exact hset.send _ _
  | setSt ts => exact (aside_setST ..).mono (by decide)
  | setMt ts =>
      rw [liberaEventCmd]
      split_ifs
      · exact hrefl
      · exact (aside_setMT ..).mono (by decide)
  | getFifolenSc fifo back | getFifolenMc fifo back =>
      rw [liberaEventCmd, getFifolen]
      split_ifs
      · exact hrefl
      · exact hrefl
      · exact hrefl
  | setMask mask =>
      rw [liberaEventCmd]
      split_ifs
      · exact hrefl
      · exact .of_eq rfl rfl rfl

theorem aside_ioctl (s : UserDevices) (req : UserRequest) :
    Aside unkeptParams s.drv (s.ioctl req).2.drv := by
  have hrefl := Aside.refl unkeptParams s.drv
  cases req with
  | event file accessOk req =>
      rw [ioctl, liberaEventIoctl]
      split_ifs
      · exact hrefl
      · exact hrefl
      · exact aside_eventCmd s file req
  | dsc file accessOk req =>
      rw [ioctl, dscIoctl]
      cases liberaDscIoctl s.dsc file req.cmd accessOk with
      | some err => exact hrefl
      | none =>
          cases req with
          | setDsc param => exact hrefl.send _ _
          | bcdOffsets offsets =>
              have hx : Aside unkeptParams s.drv
                  (s.drv.checkAndUpdate offsets.value.x cfgBcdXoffset cfgXoffset) :=
                hrefl.checkAndUpdate (by decide) (fun k ↦ by cases k <;> decide) _
              exact hx.checkAndUpdate (by decide) (fun k ↦ by cases k <;> decide) _
  | dd accessOk interrupted newDec =>
      rw [ioctl, ddIoctl]
      cases iocSanity liberaIocMagic liberaIocDd (ioc iocWrite liberaIocMagic 96 4) accessOk with
      | some err => exact hrefl
      | none =>
          dsimp only
          split_ifs
          · exact hrefl
          · exact hrefl
          · exact hrefl

end UserDevices

namespace Interrupt

open Driver

variable {s t : Interrupt} {l : IrqStep} {σ : CfgStore} {brilliance : Bool}

/-- What a step sets or reports. -/
def logged (s : Interrupt) : IrqStep → List CfgEntry
  | .request (.setCfg readl req) =>
    if (s.driver.liberaIocSetCfg readl req).2 = 0 then [.set req.idx.toNat req.val] else []
  | .ilk status =>
    match s.pc with
    | .ilk v => if v &&& liberaInterruptIlkMask ≠ 0 then [.ilk status] else []
    | _ => []
  | _ => []

theorem request_refines {r : Timing} {d : Driver} (h : s.driver.step r = some d)
    (hr : r.isRequest = true) (href : Refines s.driver brilliance σ) :
    Refines d brilliance ((s.logged (.request r)).foldl (CfgStore.apply brilliance) σ) := by
  have hrefl := Aside.refl unkeptParams s.driver
  cases r with
  | sc es | mc es => cases hr
  | setST st =>
      obtain rfl := Option.some.inj h
      exact href.aside ((aside_setST ..).mono (by decide))
  | setMT mt phase =>
      obtain rfl := Option.some.inj h
      exact href.aside ((aside_setMT ..).mono (by decide))
  | setSCPHI scphi =>
      obtain rfl := Option.some.inj h
      exact href.aside (.of_eq rfl rfl rfl)
  | setMCPHI mcphi =>
      obtain rfl := Option.some.inj h
      exact href.aside (.of_eq rfl rfl rfl)
  | setCfg readl req =>
      obtain rfl := Option.some.inj h
      have hset := href.setCfg readl req
      rw [logged]
      split_ifs at hset ⊢
      · exact hset
      · exact hset

theorem step_refines (h : s.step l = some t) (href : Refines s.driver brilliance σ) :
    Refines t.driver brilliance ((s.logged l).foldl (CfgStore.apply brilliance) σ) := by
  have hirq (u : Driver) (mask : U32) : Aside unkeptParams u (u.writel mask sbcIrqMask) :=
    (Aside.refl ..).writel (reg_ne sbcIrqMask (by decide)) _
  have hentry {c : Clock} {e : FifoEntry} {d : Driver} (he : entry c s.driver e = some d) :
      Refines d brilliance σ :=
    href.aside ((aside_entry he).mono (by decide))
  cases l with
  | arrive c e =>
      simp only [step] at h
      split_ifs at h
      obtain rfl := Option.some.inj h
      rw [deliver_driver]
      exact href
  | enter | readVector irq =>
      simp only [step] at h
      split_ifs at h
      all_goals exact Option.some.inj h ▸ href
  | ilk status =>
      cases hpc : s.pc <;> simp only [step, hpc, reduceCtorEq] at h
      obtain rfl := Option.some.inj h
      simp only [logged, hpc]
      split_ifs
      · exact href.ilk status
      · exact href
  | sc =>
      cases hpc : s.pc <;> simp only [step, hpc, reduceCtorEq, scRound] at h
      split_ifs at h
      · cases hmodule : s.scModule with
        | nil =>
            rw [hmodule] at h
            exact Option.some.inj h ▸ href
        | cons e es =>
            rw [hmodule] at h
            obtain ⟨d, hd, rfl⟩ := Option.map_eq_some_iff.mp h
            exact hentry (c := .sc) hd
      · exact Option.some.inj h ▸ href
  | mc =>
      cases hpc : s.pc <;> simp only [step, hpc, reduceCtorEq, mcRound] at h
      split_ifs at h
      · cases hmodule : s.mcModule with
        | nil =>
            rw [hmodule] at h
            exact Option.some.inj h ▸ href
        | cons e es =>
            rw [hmodule] at h
            obtain ⟨d, hd, rfl⟩ := Option.map_eq_some_iff.mp h
            exact hentry (c := .mc) hd
      · exact Option.some.inj h ▸ href
  | help status =>
      cases hpc : s.pc <;> simp only [step, hpc, reduceCtorEq] at h
      obtain rfl := Option.some.inj h
      dsimp only
      split_ifs
      · exact href.aside (aside_scmchelp ..)
      · exact href
  | dd =>
      cases hpc : s.pc <;> simp only [step, hpc, reduceCtorEq] at h
      obtain rfl := Option.some.inj h
      split_ifs
      · exact href.aside (hirq ..)
      · exact href
  | sa =>
      cases hpc : s.pc <;> simp only [step, hpc, reduceCtorEq] at h
      exact Option.some.inj h ▸ href
  | request r =>
      simp only [step] at h
      split_ifs at h with hrequest
      obtain ⟨d, hd, rfl⟩ := Option.map_eq_some_iff.mp h
      exact request_refines hd hrequest.2 href
  | enableDD =>
      simp only [step] at h
      split_ifs at h
      obtain rfl := Option.some.inj h
      exact href.aside (hirq ..)

end Interrupt

/-- The driver at its interrupts and its requests, and what was set and reported so far. -/
structure CfgSystem where
  irq : Interrupt
  log : List CfgEntry

inductive CfgAction where
  | irq (l : IrqStep)
  /-- a request of the event, dsc or dd device; `dev` is the state of the devices but the driver -/
  | ioctl (dev : UserDevices) (req : UserRequest)
  /-- an administrator changes module parameters -/
  | setParams (params : ModuleParams)

/-- What a request gets is what was set last. -/
def keptParams : List ℕ :=
  mirroredParams.filter (· ∉ [cfgIlkstatus, cfgBcdXoffset, cfgBcdYoffset])

namespace CfgSystem

open Runs

def step (s : CfgSystem) : CfgAction → Option CfgSystem
  | .irq l => (s.irq.step l).map fun irq ↦ { irq := irq, log := s.log ++ s.irq.logged l }
  | .ioctl dev req =>
    if s.irq.pc = .outside then
      let dev : UserDevices := { dev with drv := s.irq.driver }
      some { s with irq := { s.irq with driver := (dev.ioctl req).2.drv } }
    else none
  | .setParams params =>
    some { s with irq := { s.irq with driver := { s.irq.driver with params := params } } }

/-- After `libera_init_specific`; `readl` is what the registers read then. -/
def boot (readl : ℕ → U32) (lgbl : Global) (params : ModuleParams) : CfgSystem :=
  let irq := Interrupt.boot (fun _ ↦ 0) lgbl params
  { irq := { irq with driver := irq.driver.liberaInitSpecific readl }
    log := irq.driver.initLog readl }

variable {s t : CfgSystem} {a : CfgAction} {readl : ℕ → U32} {lgbl : Global} {params : ModuleParams}
  {acts : List CfgAction}

/-- The driver refines the store of what was logged. -/
def Refines (brilliance : Bool) (s : CfgSystem) : Prop :=
  s.irq.driver.Refines brilliance (.after brilliance s.log)

theorem Refines.step {brilliance : Bool} (h : Refines brilliance s) (hstep : s.step a = some t) :
    Refines brilliance t := by
  cases a with
  | irq l =>
      obtain ⟨irq, hirq, rfl⟩ := Option.map_eq_some_iff.mp hstep
      have hdriver := Interrupt.step_refines hirq h
      rw [CfgStore.after, ← List.foldl_append] at hdriver
      exact hdriver
  | ioctl dev req =>
      simp only [CfgSystem.step] at hstep
      split_ifs at hstep
      obtain rfl := Option.some.inj hstep
      exact h.aside (UserDevices.aside_ioctl { dev with drv := s.irq.driver } req)
  | setParams params =>
      obtain rfl := Option.some.inj hstep
      exact h.aside (.of_eq rfl rfl rfl)

theorem refines_boot (readl : ℕ → U32) (lgbl : Global) (params : ModuleParams) :
    Refines (isBrilliance lgbl.feature) (boot readl lgbl params) := by
  refine Driver.refines_liberaInitSpecific readl (fun i hi ↦ ?_) rfl
  have hne : i ≠ cfgTrigmode := fun heq ↦ hi (heq ▸ List.mem_cons_self)
  change Function.update (fun _ ↦ (0 : U32)) cfgTrigmode trigmodeGet i = 0
  exact Function.update_of_ne hne ..

theorem refines_run (hrun : Steps step anyStep (boot readl lgbl params) acts s) :
    Refines (isBrilliance lgbl.feature) s :=
  hrun.invariant (fun _ _ _ h _ hstep ↦ h.step hstep) (refines_boot readl lgbl params)

/-- **A request gets what was set last.**  Whatever requests and interrupts come in between, a
parameter that only requests for it set and that `GET_CFG` takes from `param[]` reads as the value
set last, by `libera_init_specific` or by a request that was not refused; and the register of each
setting holds it.  The filter coefficients cannot be read, and the two lengths of the moving average
are read from their registers. -/
theorem gets_last_set (hrun : Steps step anyStep (boot readl lgbl params) acts s) :
    (∀ readl' req, req.idx.toNat ∈ keptParams →
      s.irq.driver.liberaIocGetCfg readl' req =
        some (((lastSet s.log req.idx.toNat).map
          (keptWord (isBrilliance lgbl.feature) req.idx.toNat)).getD 0)) ∧
      ∀ k : CfgSetting, WriteLog.last s.irq.driver.writes k.reg =
        (lastSet s.log k.idx).map k.view := by
  have href := refines_run hrun
  refine ⟨fun readl' req hidx ↦ ?_, fun k ↦ ?_⟩
  · obtain ⟨hmirrored, hown⟩ := List.mem_filter.mp hidx
    have hkept : ∀ i ∈ keptParams, i ∉ unkeptParams ∧ i ≠ cfgIlkstatus := by decide
    obtain ⟨hunkept, hstatus⟩ := hkept _ hidx
    rw [s.irq.driver.liberaIocGetCfg_mirrored readl' hmirrored, href.param _ hunkept,
      CfgStore.after_param _ hstatus]
  · rw [href.shown, CfgStore.after_shown]

/-- An instrument that is no Brilliance. -/
def quiet : CfgSystem := boot (fun _ ↦ 0) ⟨0, 0, 128, 64, 0⟩ ⟨1000, 1000, 1000, 16384⟩

/-- An interlock interrupt. -/
def interlock (status : U32) : List CfgAction :=
  [.irq .enter, .irq (.readVector liberaInterruptIlkMask), .irq (.ilk status), .irq .sc, .irq .mc,
    .irq (.help 0), .irq .dd, .irq .sa, .irq (.readVector 0)]

def request (idx val : U32) : CfgAction := .irq (.request (.setCfg (fun _ ↦ 0) ⟨idx, val⟩))

/-- The limit of the ADC count is refused the second time. -/
theorem gets_last_set_refused : ∃ s : CfgSystem,
    s.irq.driver.liberaIocGetCfg (fun _ ↦ 0) ⟨131, 0⟩ = some 7 ∧
      s.irq.driver.liberaIocGetCfg (fun _ ↦ 0) ⟨138, 0⟩ = some 0x100001 ∧
      WriteLog.last s.irq.driver.writes (faOffset + 12) = some 7 := by
  obtain ⟨hgets, hshown⟩ := gets_last_set (exec_get_steps step anyStep quiet
    (request 131 7 :: request 138 16 :: interlock 6 ++ [request 138 2048]) (by decide +kernel))
  refine ⟨_, (hgets _ _ ?_).trans ?_, (hgets _ _ ?_).trans ?_, (hshown .kx).trans ?_⟩
  all_goals decide +kernel

/-- **No interlock is lost.**  A request for the interlock status finds a bit set exactly if an
interlock interrupt has reported it since the status was reset. -/
theorem gets_interlocks (hrun : Steps step anyStep (boot readl lgbl params) acts s) :
    ∀ readl' req, req.idx.toNat = cfgIlkstatus →
      ∃ status, s.irq.driver.liberaIocGetCfg readl' req = some status ∧
        ∀ j, status.getLsbD j = true ↔ Reported s.log j := by
  intro readl' req hidx
  refine ⟨_, s.irq.driver.liberaIocGetCfg_mirrored readl' (by rw [hidx]; decide), fun j ↦ ?_⟩
  rw [(refines_run hrun).param _ (by rw [hidx]; decide), hidx]
  exact CfgStore.after_ilkstatus ..

/-- What was reported before the reset is gone. -/
theorem gets_interlocks_reset : ∃ (s : CfgSystem) (status : U32),
    s.irq.driver.liberaIocGetCfg (fun _ ↦ 0) ⟨162, 0⟩ = some status ∧
      (∀ j, status.getLsbD j = true ↔ Reported s.log j) ∧ status = 6 := by
  obtain ⟨status, hget, hbits⟩ := gets_interlocks (exec_get_steps step anyStep quiet
    (interlock 1 ++ request 162 0 :: interlock 2 ++ interlock 4) (by decide +kernel))
    (fun _ ↦ 0) ⟨162, 0⟩ rfl
  refine ⟨_, status, hget, hbits, Option.some.inj (hget.symm.trans ?_)⟩
  decide +kernel

end CfgSystem

end LiberaBase
