import LiberaBase.Cfg.Threshold
import LiberaBase.Irq.Interrupt

/-!
# What reaches the registers

A configuration request sets one parameter and writes registers of its own.  The requests of the
other devices and the interrupt handlers leave both alone.  So the registers that a parameter is
written to at once show what it is.
-/

namespace LiberaBase

/-- The registers that a request for `idx` may write. -/
def registersOf (idx : ℕ) : List ℕ :=
  if cfgCoeff ≤ idx then fifoRegisters
  else if idx = cfgXoffset then [faOffset]
  else if idx = cfgYoffset then [faOffset + 4]
  else if idx = cfgQoffset ∨ idx = cfgKx ∨ idx = cfgKy then [faOffset + (idx - cfgCustomFirst) * 4]
  else if idx = cfgIlkGainLimit then
    [ilkXlow, ilkXhigh, ilkYlow, ilkYhigh, dscIlkGainLimit, dscIlkOverflowLimit, dscIlkOverflowDur,
      ilkControl]
  else if idx = cfgExtswitch then [dscSwSource]
  else if idx = cfgSwdelay then [dscSwDelay]
  else if idx = cfgDdcMaflength then [ddcMafLength]
  else if idx = cfgDdcMafdelay then [ddcMafDelay]
  else if idx = cfgTrigdelay then [tTrigDelay]
  else if idx = cfgPmOverflowDur then
    [tTrigDelay, pmXlow, pmXhigh, pmYlow, pmYhigh, dscPmOverflowLimit, dscPmOverflowDur]
  else if idx = cfgSrEnable then [faEnable]
  else if idx = cfgSrAveragingStop then [faAveStop]
  else if idx = cfgSrAverageWindow then [faAveWin]
  else if idx = cfgSrStart then [faStart]
  else if idx = cfgSrWindow then [faWindow]
  else []

/-- What is kept of a value: the ADC limits are packed with what is derived from them, and a request
for the interlock status resets it. -/
def keptWord (brilliance : Bool) (idx : ℕ) (val : U32) : U32 :=
  if idx = cfgPmOverflowLimit ∨ idx = cfgIlkOverflowLimit then packLimit brilliance val
  else if idx = cfgIlkstatus then 0
  else val

namespace Driver

variable {s t : Driver} {readl : ℕ → U32} {req : CfgRequest} {idx : ℕ} {val : U32}
  {regs : List ℕ}

/-- What `param[idx]` is after a request for `val` that is not refused. -/
def stored (s : Driver) (idx : ℕ) (val : U32) : U32 :=
  if idx = cfgDdcMaflength ∨ idx = cfgDdcMafdelay then s.param idx
  else keptWord (isBrilliance s.lgbl.feature) idx val

/-- `param[idx]` is set, and nothing but registers in `regs` is written. -/
def Stores (s : Driver) (idx : ℕ) (val : U32) (regs : List ℕ) (t : Driver) : Prop :=
  ∃ frozen new, (∀ w ∈ new, w.1 ∈ regs) ∧
    t = { s with
      cfg := ⟨Function.update s.cfg.param idx val, frozen⟩
      writes := s.writes ++ new }

/-- A request fails and changes nothing, or sets its parameter and returns 0. -/
def Answers (s : Driver) (idx : ℕ) (val : U32) (r : Driver × ℤ) : Prop :=
  r = (s, -EINVAL) ∨ r.2 = 0 ∧ Stores s idx (s.stored idx val) (registersOf idx) r.1

theorem stores_setParam (s : Driver) (idx : ℕ) (val : U32) (regs : List ℕ) :
    Stores s idx val regs (s.setParam idx val) :=
  ⟨s.cfg.pmFreezed, [], List.forall_mem_nil _, by rw [List.append_nil]; rfl⟩

theorem stores_self (s : Driver) : Stores s idx (s.param idx) regs s :=
  ⟨s.cfg.pmFreezed, [], List.forall_mem_nil _, by
    rw [List.append_nil, param, Function.update_eq_self]⟩

theorem Stores.writel {addr : ℕ} (h : Stores s idx val regs t) (haddr : addr ∈ regs) (v : U32) :
    Stores s idx val regs (t.writel v addr) := by
  obtain ⟨frozen, new, hregs, rfl⟩ := h
  refine ⟨frozen, new ++ [(addr, v)], ?_, by rw [Driver.writel, List.append_assoc]⟩
  intro w hw
  rcases List.mem_append.mp hw with hw | hw
  · exact hregs w hw
  · rw [List.mem_singleton.mp hw]
    exact haddr

theorem Stores.thaw (h : Stores s idx val regs t) :
    Stores s idx val regs { t with cfg := { t.cfg with pmFreezed := false } } := by
  obtain ⟨frozen, new, hregs, rfl⟩ := h
  exact ⟨false, new, hregs, rfl⟩

theorem Stores.writeCoefficients (h : Stores s idx val regs t) (first count : ℕ) {reg : ℕ}
    (hreset : faFifoReset ∈ regs) (hreg : reg ∈ regs) :
    Stores s idx val regs (t.writeCoefficients first count reg) := by
  unfold Driver.writeCoefficients
  induction count with
  | zero => exact h.writel hreset 1
  | succ count ih =>
      rw [List.range_succ, List.foldl_concat]
      exact ih.writel hreg _

theorem Stores.latchIlk (h : Stores s idx val regs t)
    (hregs : ∀ a ∈ registersOf cfgIlkGainLimit, a ∈ regs) : Stores s idx val regs t.latchIlk :=
  (((((((h.writel (hregs _ (by decide)) _).writel (hregs _ (by decide)) _).writel
    (hregs _ (by decide)) _).writel (hregs _ (by decide)) _).writel (hregs _ (by decide)) _).writel
    (hregs _ (by decide)) _).writel (hregs _ (by decide)) _).writel (hregs _ (by decide)) _

theorem Stores.latchPm (h : Stores s idx val regs t)
    (hregs : ∀ a ∈ registersOf cfgPmOverflowDur, a ∈ regs) (trigDelay : U32) :
    Stores s idx val regs (t.latchPm trigDelay) :=
  ((((((h.writel (hregs _ (by decide)) _).writel (hregs _ (by decide)) _).writel
    (hregs _ (by decide)) _).writel (hregs _ (by decide)) _).writel (hregs _ (by decide)) _).writel
    (hregs _ (by decide)) _).writel (hregs _ (by decide)) _

theorem Answers.done (h : Stores s idx (s.stored idx val) (registersOf idx) t) :
    Answers s idx val (t, 0) := .inr ⟨rfl, h⟩

theorem Answers.refused (s : Driver) (idx : ℕ) (val : U32) : Answers s idx val (s, -EINVAL) :=
  .inl rfl

theorem Answers.ite {c : Prop} [Decidable c] {a b : Driver × ℤ} (ha : c → Answers s idx val a)
    (hb : ¬c → Answers s idx val b) : Answers s idx val (if c then a else b) := by
  by_cases h : c
  · rw [if_pos h]
    exact ha h
  · rw [if_neg h]
    exact hb h

/-- The parameters that are set to the value of the request. -/
def Plain (idx : ℕ) : Prop :=
  idx ∉ [cfgPmOverflowLimit, cfgIlkOverflowLimit, cfgIlkstatus, cfgDdcMaflength, cfgDdcMafdelay]

instance (idx : ℕ) : Decidable (Plain idx) := inferInstanceAs (Decidable (_ ∉ _))

theorem stored_of_plain (s : Driver) (hplain : Plain idx) (val : U32) : s.stored idx val = val := by
  simp only [Plain, List.mem_cons, List.not_mem_nil, or_false, not_or] at hplain
  obtain ⟨hpm, hilk, hstatus, hlength, hdelay⟩ := hplain
  rw [stored, keptWord, if_neg (not_or.mpr ⟨hlength, hdelay⟩), if_neg (not_or.mpr ⟨hpm, hilk⟩),
    if_neg hstatus]

theorem stored_eq (s : Driver) (hlength : idx ≠ cfgDdcMaflength) (hdelay : idx ≠ cfgDdcMafdelay)
    (val : U32) : s.stored idx val = keptWord (isBrilliance s.lgbl.feature) idx val :=
  if_neg (not_or.mpr ⟨hlength, hdelay⟩)

theorem stores_plain (s : Driver) (hplain : Plain idx) (val : U32) (regs : List ℕ) :
    Stores s idx (s.stored idx val) regs (s.setParam idx val) := by
  rw [s.stored_of_plain hplain val]
  exact stores_setParam ..

theorem answers_setOverflowLimit (s : Driver) (val : U32)
    (hidx : idx = cfgPmOverflowLimit ∨ idx = cfgIlkOverflowLimit) :
    Answers s idx val (s.setOverflowLimit idx val) := by
  rw [setOverflowLimit_eq]
  refine .ite (fun _ ↦ .done ?_) fun _ ↦ .refused ..
  rw [s.stored_eq (by rcases hidx with rfl | rfl <;> decide)
    (by rcases hidx with rfl | rfl <;> decide), keptWord, if_pos hidx]
  exact stores_setParam ..

theorem answers_setCoefficient (s : Driver) (val : U32) (hidx : cfgCoeff ≤ idx) :
    Answers s idx val (s.setCoefficient idx val, 0) := by
  have hregs : registersOf idx = fifoRegisters := if_pos hidx
  have hplain : Plain idx := by
    have hlow : ∀ k ∈ [cfgPmOverflowLimit, cfgIlkOverflowLimit, cfgIlkstatus, cfgDdcMaflength,
        cfgDdcMafdelay], k < cfgCoeff := by decide
    exact fun hmem ↦ absurd (hlow idx hmem) (Nat.not_lt.mpr hidx)
  have hset := s.stores_plain hplain val (registersOf idx)
  rw [hregs] at hset
  refine .done ?_
  rw [hregs]
  unfold setCoefficient
  extract_lets s₁
  split_ifs
  · exact hset.writeCoefficients _ _ (by decide) (by decide)
  · exact hset.writeCoefficients _ _ (by decide) (by decide)
  · exact hset.writeCoefficients _ _ (by decide) (by decide)
  · exact hset

/-- What a request can do. -/
theorem answers_setSpecific (readl : ℕ → U32) (s : Driver) (req : CfgRequest) :
    Answers s req.idx.toNat req.val (s.liberaCfgSetSpecific readl req) := by
  obtain ⟨i, val⟩ := req
  unfold liberaCfgSetSpecific
  extract_lets idx mirrored source source' value s₁
  change Answers s idx val _
  clear_value idx
  have hset (hplain : Plain idx) {regs : List ℕ} : Stores s idx (s.stored idx val) regs mirrored :=
    s.stores_plain hplain val regs
  refine .ite (fun h ↦ ?_) fun _ ↦ ?_
  · subst h
    exact .done ((hset (by decide)).writel (by decide) _)
  refine .ite (fun h ↦ ?_) fun _ ↦ ?_
  · subst h
    exact .done ((hset (by decide)).writel (by decide) _)
  refine .ite (fun h ↦ ?_) fun _ ↦ ?_
  · rcases h with rfl | rfl | rfl <;> exact .done ((hset (by decide)).writel (by decide) _)
  refine .ite (fun h ↦ ?_) fun _ ↦ ?_
  · have hplain : ∀ k ∈ [cfgIlkXlow, cfgIlkXhigh, cfgIlkYlow, cfgIlkYhigh, cfgIlkMode, cfgPmMode,
        cfgPmXlow, cfgPmXhigh, cfgPmYlow, cfgPmYhigh], Plain k := by decide
    exact .done (hset (hplain idx h))
  refine .ite (fun h ↦ answers_setOverflowLimit s val h) fun _ ↦ ?_
  refine .ite (fun h ↦ ?_) fun _ ↦ ?_
  · subst h
    exact .ite (fun _ ↦ .done (hset (by decide))) fun _ ↦ .refused ..
  refine .ite (fun h ↦ ?_) fun _ ↦ ?_
  · subst h
    exact .done ((hset (by decide)).latchIlk fun _ ↦ id)
  refine .ite (fun h ↦ ?_) fun _ ↦ ?_
  · subst h
    exact .done (stores_setParam ..)
  refine .ite (fun h ↦ ?_) fun _ ↦ ?_
  · rcases h with rfl | rfl <;> exact .done (hset (by decide))
  refine .ite (fun h ↦ ?_) fun _ ↦ ?_
  · subst h
    exact .done ((hset (by decide)).writel (by decide) _)
  refine .ite (fun h ↦ ?_) fun _ ↦ ?_
  · subst h
    exact .done ((hset (by decide)).writel (by decide) _)
  refine .ite (fun h ↦ ?_) fun _ ↦ ?_
  · subst h
    exact .done ((stores_self s).writel (by decide) _)
  refine .ite (fun h ↦ ?_) fun _ ↦ ?_
  · subst h
    exact .done ((stores_self s).writel (by decide) _)
  refine .ite (fun h ↦ ?_) fun _ ↦ ?_
  · subst h
    exact .done ((hset (by decide)).writel (by decide) _)
  refine .ite (fun h ↦ ?_) fun _ ↦ ?_
  · subst h
    exact .ite (fun _ ↦ .done ((hset (by decide)).latchPm (fun _ ↦ id) _).thaw)
      fun _ ↦ .refused ..
  refine .ite (fun h ↦ ?_) fun _ ↦ ?_
  · subst h
    exact .done ((hset (by decide)).writel (by decide) _)
  refine .ite (fun h ↦ ?_) fun _ ↦ ?_
  · subst h
    exact .done (hset (by decide))
  refine .ite (fun h ↦ ?_) fun _ ↦ ?_
  · subst h
    exact .done ((hset (by decide)).writel (by decide) _)
  refine .ite (fun h ↦ ?_) fun _ ↦ ?_
  · subst h
    exact .done ((hset (by decide)).writel (by decide) _)
  refine .ite (fun h ↦ ?_) fun _ ↦ ?_
  · subst h
    exact .done ((hset (by decide)).writel (by decide) _)
  refine .ite (fun h ↦ ?_) fun _ ↦ ?_
  · subst h
    exact .done ((hset (by decide)).writel (by decide) _)
  refine .ite (fun h ↦ ?_) fun _ ↦ ?_
  · rcases h with rfl | rfl | rfl <;> exact .done (hset (by decide))
  exact .ite (fun h ↦ answers_setCoefficient s val h.1) fun _ ↦ .refused ..

end Driver

/-! ## Settings -/

/-- The parameters that a request writes to a register of their own. -/
inductive CfgSetting where
  | qoffset
  | kx
  | ky
  | swdelay
  | srEnable
  | srAveragingStop
  | srAverageWindow
  | srStart
  | srWindow
  deriving DecidableEq

namespace CfgSetting

def idx : CfgSetting → ℕ
  | qoffset => cfgQoffset
  | kx => cfgKx
  | ky => cfgKy
  | swdelay => cfgSwdelay
  | srEnable => cfgSrEnable
  | srAveragingStop => cfgSrAveragingStop
  | srAverageWindow => cfgSrAverageWindow
  | srStart => cfgSrStart
  | srWindow => cfgSrWindow

def reg : CfgSetting → ℕ
  | qoffset => faOffset + 8
  | kx => faOffset + 12
  | ky => faOffset + 16
  | swdelay => dscSwDelay
  | srEnable => faEnable
  | srAveragingStop => faAveStop
  | srAverageWindow => faAveWin
  | srStart => faStart
  | srWindow => faWindow

/-- What the register takes of the parameter. -/
def view : CfgSetting → U32 → U32
  | srAveragingStop, val => val &&& 0x1F#32
  | srAverageWindow, val => val &&& 0x1F#32
  | srStart, val => val &&& 0x1F#32
  | srWindow, val => val &&& 0x7F#32
  | _, val => val

theorem reg_notMem_registersOf {k : CfgSetting} {i : ℕ} (hne : i ≠ k.idx) :
    k.reg ∉ registersOf i := by
  by_cases hlt : i < cfgCoeff
  · have hall : ∀ j < 256, j ≠ k.idx → k.reg ∉ registersOf j := by
      cases k <;> decide +kernel
    exact hall i hlt hne
  · rw [registersOf, if_pos (Nat.le_of_not_lt hlt)]
    cases k <;> decide

end CfgSetting

namespace Driver

variable {s t : Driver} {readl : ℕ → U32} {req : CfgRequest} {k : CfgSetting}

theorem setSpecific_setting (readl : ℕ → U32) (s : Driver) (hidx : req.idx.toNat = k.idx) :
    s.liberaCfgSetSpecific readl req =
      ((s.setParam k.idx req.val).writel (k.view req.val) k.reg, 0) := by
  unfold liberaCfgSetSpecific
  rw [hidx]
  cases k with
  | qoffset | kx | ky =>
      iterate 2 rw [if_neg (by decide)]
      exact if_pos (by decide)
  | swdelay =>
      iterate 10 rw [if_neg (by decide)]
      exact if_pos rfl
  | srEnable =>
      iterate 15 rw [if_neg (by decide)]
      exact if_pos rfl
  | srAveragingStop =>
      iterate 17 rw [if_neg (by decide)]
      exact if_pos rfl
  | srAverageWindow =>
      iterate 18 rw [if_neg (by decide)]
      exact if_pos rfl
  | srStart =>
      iterate 19 rw [if_neg (by decide)]
      exact if_pos rfl
  | srWindow =>
      iterate 20 rw [if_neg (by decide)]
      exact if_pos rfl

/-- What a request that is not refused does to a setting. -/
theorem setSpecific_shows (readl : ℕ → U32) (s : Driver) (req : CfgRequest) (k : CfgSetting) :
    s.liberaCfgSetSpecific readl req = (s, -EINVAL) ∨
      WriteLog.last (s.liberaCfgSetSpecific readl req).1.writes k.reg =
        if req.idx.toNat = k.idx then some (k.view req.val) else WriteLog.last s.writes k.reg := by
  by_cases hidx : req.idx.toNat = k.idx
  · rw [if_pos hidx, setSpecific_setting readl s hidx]
    exact .inr (last_writel_self ..)
  rw [if_neg hidx]
  rcases answers_setSpecific readl s req with h | ⟨-, frozen, new, hregs, h⟩
  · exact .inl h
  · refine .inr ?_
    rw [h]
    refine WriteLog.last_append_of_ne fun w hw heq ↦ ?_
    exact CfgSetting.reg_notMem_registersOf hidx (heq ▸ hregs w hw)

/-- A request is refused and changes nothing, or its parameter and its register have the value. -/
theorem liberaIocSetCfg_stores (readl : ℕ → U32) (s : Driver) (req : CfgRequest) :
    ((s.liberaIocSetCfg readl req).2 ≠ 0 ∧ (s.liberaIocSetCfg readl req).1 = s) ∨
      (s.liberaIocSetCfg readl req).2 = 0 ∧
        (s.liberaIocSetCfg readl req).1.lgbl = s.lgbl ∧
        (s.liberaIocSetCfg readl req).1.cfg.param =
          Function.update s.cfg.param req.idx.toNat (s.stored req.idx.toNat req.val) ∧
        ∀ k : CfgSetting, WriteLog.last (s.liberaIocSetCfg readl req).1.writes k.reg =
          if req.idx.toNat = k.idx then some (k.view req.val)
          else WriteLog.last s.writes k.reg := by
  have hsend (t : Driver) (id param : U32) : (t.liberaSendEvent id param).lgbl = t.lgbl := by
    obtain ⟨events, h⟩ := liberaSendEvent_eq t id param
    rw [h]
  have hfail : -EINVAL ≠ 0 := neg_ne_zero.mpr (by decide)
  rcases liberaIocSetCfg_cases readl s req with ⟨-, h⟩ | ⟨-, ⟨hmode, h⟩ | h⟩
  · rw [h]
    exact .inl ⟨hfail, rfl⟩
  · have hplain : s.stored req.idx.toNat req.val = req.val := by
      rw [hmode]
      exact s.stored_of_plain (by decide) _
    rw [h, hplain]
    refine .inr ⟨rfl, hsend .., congrArg CfgDevice.param (liberaSendEvent_frame ..).1, fun k ↦ ?_⟩
    rw [(liberaSendEvent_frame ..).2, if_neg (by rw [hmode]; cases k <;> decide)]
    rfl
  · rw [h]
    have hshows := setSpecific_shows readl s req
    rcases answers_setSpecific readl s req with hset | ⟨hret, frozen, new, hregs, hset⟩
    · rw [hset]
      dsimp only
      rw [if_pos hfail]
      exact .inl ⟨hfail, rfl⟩
    · dsimp only
      rw [if_neg (not_not.mpr hret)]
      refine .inr ⟨rfl, ?_, ?_, fun k ↦ ?_⟩
      · rw [hsend, hset]
      · rw [(liberaSendEvent_frame ..).1, hset]
      · rw [(liberaSendEvent_frame ..).2]
        refine (hshows k).resolve_left fun hrefused ↦ ?_
        rw [hrefused] at hret
        exact hfail hret

/-! ## The other requests and the handlers -/

/-- At most the parameters in `own` change, and the registers of the settings do not. -/
structure Aside (own : List ℕ) (s t : Driver) : Prop where
  feature : t.lgbl.feature = s.lgbl.feature
  param : ∀ i ∉ own, t.param i = s.param i
  shows : ∀ k : CfgSetting, WriteLog.last t.writes k.reg = WriteLog.last s.writes k.reg

variable {u : Driver} {own : List ℕ}

theorem Aside.refl (own : List ℕ) (s : Driver) : Aside own s s := ⟨rfl, fun _ _ ↦ rfl, fun _ ↦ rfl⟩

theorem Aside.trans (h : Aside own s t) (h' : Aside own t u) : Aside own s u where
  feature := h'.feature.trans h.feature
  param := fun i hi ↦ (h'.param i hi).trans (h.param i hi)
  shows := fun k ↦ (h'.shows k).trans (h.shows k)

theorem Aside.mono {own' : List ℕ} (h : Aside own s t) (hown : own ⊆ own') : Aside own' s t :=
  ⟨h.feature, fun i hi ↦ h.param i fun hmem ↦ hi (hown hmem), h.shows⟩

/-- The parameters and the registers are what they were. -/
theorem Aside.of_eq (hfeature : t.lgbl.feature = s.lgbl.feature)
    (hparam : t.cfg.param = s.cfg.param) (hwrites : t.writes = s.writes) : Aside own s t :=
  ⟨hfeature, fun i _ ↦ congrFun hparam i, fun k ↦ by rw [hwrites]⟩

theorem Aside.writel (h : Aside own s t) {addr : ℕ} (haddr : ∀ k : CfgSetting, addr ≠ k.reg)
    (val : U32) : Aside own s (t.writel val addr) :=
  h.trans ⟨rfl, fun _ _ ↦ rfl, fun k ↦ last_writel_of_ne _ _ (haddr k)⟩

theorem Aside.setParam (h : Aside own s t) {i : ℕ} (hi : i ∈ own) (val : U32) :
    Aside own s (t.setParam i val) :=
  h.trans ⟨rfl, fun j hj ↦ param_setParam_of_ne (fun heq : j = i ↦ hj (heq ▸ hi)) _, fun _ ↦ rfl⟩

theorem Aside.send (h : Aside own s t) (id param : U32) :
    Aside own s (t.liberaSendEvent id param) := by
  obtain ⟨events, heq⟩ := liberaSendEvent_eq t id param
  rw [heq]
  exact h.trans (.of_eq rfl rfl rfl)

theorem Aside.checkAndUpdate (h : Aside own s t) {bcdIdx fixIdx : ℕ} (hbcd : bcdIdx ∈ own)
    (haddr : ∀ k : CfgSetting, faOffset + (fixIdx - cfgCustomFirst) * 4 ≠ k.reg) (val : U32) :
    Aside own s (t.checkAndUpdate val bcdIdx fixIdx) := by
  unfold Driver.checkAndUpdate
  split_ifs
  · exact (h.setParam hbcd val).writel haddr _
  · exact h

theorem reg_ne (addr : ℕ) (haddr : addr ∈ [sbcIrqMask, tMCEventgenL, tMCEventgenH, saControl,
    faiCounterReset, faiSwStatus, ddcNco]) (k : CfgSetting) : addr ≠ k.reg := by
  have hall : ∀ a ∈ [sbcIrqMask, tMCEventgenL, tMCEventgenH, saControl, faiCounterReset,
      faiSwStatus, ddcNco], a ≠ k.reg := by
    cases k <;> decide
  exact hall addr haddr

theorem Aside.setTime (h : Aside own s t) : Aside own s t.liberaSetTime := by
  refine h.trans ?_
  unfold liberaSetTime
  extract_lets s₁ s₂
  have hlst : Aside own t s₁ := by
    change Aside own t (ite _ _ _)
    split_ifs
    · exact .of_eq rfl rfl rfl
    · exact .refl ..
  have hlmt : Aside own t s₂ := by
    change Aside own t (ite _ _ _)
    split_ifs
    · refine Aside.writel ?_ (reg_ne saControl (by decide)) _
      exact hlst.trans (.of_eq rfl rfl rfl)
    · exact hlst
  exact hlmt.trans (.of_eq rfl rfl rfl)

theorem aside_scDispatch (stamp raw : HwTime) (s : Driver) (i : ℕ) :
    Aside own s (scDispatch stamp raw s i) := by
  obtain ⟨paired, sc, accepted, h⟩ := s.scTrigger_eq stamp raw i
  rw [scDispatch, h]
  exact .of_eq rfl rfl rfl

theorem Aside.putMC (h : Aside own s t) (i : ℕ) (value raw : HwTime) :
    Aside own s (t.putMC i value raw) := by
  rcases t.putMC_eq raw i value with heq | ⟨q, -, heq⟩
  · rw [heq]
    exact h
  · rw [heq]
    exact h.trans (.of_eq rfl rfl rfl)

theorem aside_mcDispatch (stamp raw : HwTime) (s : Driver) (i : ℕ) :
    Aside [cfgTrigmode] s (mcDispatch stamp raw s i) := by
  have hput (lmt : HwTime) : Aside [cfgTrigmode] s (s.putLMT i lmt raw) := .of_eq rfl rfl rfl
  have htrigger : Aside [cfgTrigmode] s (s.mcTrigger stamp raw i) := by
    unfold mcTrigger liberaMCtrigSpecific
    simp only
    split_ifs
    · exact ((hput raw).setTime.setParam List.mem_cons_self _).send _ _
    · exact .refl ..
    · exact (hput stamp).send _ _
    · exact hput stamp
    · exact ((hput stamp).send _ _).trans (.of_eq rfl rfl rfl)
    · exact (hput stamp).send _ _
    · exact .refl ..
    · exact (Aside.refl ..).putMC _ _ _
    · exact (Aside.refl ..).putMC _ _ _
  exact htrigger.trans (.of_eq rfl rfl rfl)

theorem aside_liberaMcSelfincSpecific (s : Driver) : Aside own s s.liberaMcSelfincSpecific := by
  unfold liberaMcSelfincSpecific
  extract_lets mcTime head offset26
  split_ifs
  · exact ((Aside.refl ..).writel (reg_ne tMCEventgenL (by decide)) _).writel
      (reg_ne tMCEventgenH (by decide)) _
  · exact .refl ..
  · exact .refl ..

theorem aside_entry {c : Clock} {e : FifoEntry} (h : entry c s e = some t) :
    Aside [cfgTrigmode] s t := by
  cases c with
  | sc =>
      obtain rfl := Option.some.inj ((scEntry_eq s e).symm.trans h)
      obtain ⟨time, hinc⟩ := s.scSelfInc_eq e.tl
      have hstart : Aside [cfgTrigmode] s (s.scSelfInc e.tl) := by
        rw [hinc]
        exact .of_eq rfl rfl rfl
      exact foldl_invariant (fun t i _ ht ↦ ht.trans (aside_scDispatch _ _ t i)) hstart
  | mc =>
      obtain rfl := Option.some.inj ((mcEntry_eq s e).symm.trans h)
      have hstart : Aside [cfgTrigmode] s (s.mcSelfInc e.tl) := by
        unfold mcSelfInc
        split_ifs
        · have hinc : Aside [cfgTrigmode] s
              { s with event := { s.event with mcTime := s.event.mcTime + selfIncPeriod } } :=
            .of_eq rfl rfl rfl
          exact hinc.trans (aside_liberaMcSelfincSpecific _)
        · exact .refl ..
      exact foldl_invariant (fun t i _ ht ↦ ht.trans (aside_mcDispatch _ _ t i)) hstart

theorem aside_setMT (s : Driver) (mt : HwTime) (phase : U32) :
    Aside [cfgTrigmode] s (s.setMT mt phase) := by
  unfold setMT
  split_ifs
  · exact .refl ..
  · have hset : Aside [cfgTrigmode] s (s.setParam cfgTrigmode trigmodeSet) :=
      (Aside.refl ..).setParam List.mem_cons_self _
    refine Aside.writel ?_ (reg_ne faiCounterReset (by decide)) _
    exact hset.trans (.of_eq rfl rfl rfl)

theorem aside_setST (s : Driver) (st : Timespec) : Aside [cfgTrigmode] s (s.setST st) :=
  ((Aside.refl ..).setParam List.mem_cons_self trigmodeSet).trans (.of_eq rfl rfl rfl)

theorem aside_scmchelp (s : Driver) (status : U32) :
    Aside own s (s.liberaScmchelpHandler status) := by
  unfold liberaScmchelpHandler liberaMchelpHandlerSpecific
  extract_lets mcTime head offset26
  split_ifs
  · exact ((Aside.refl ..).writel (reg_ne tMCEventgenL (by decide)) _).writel
      (reg_ne tMCEventgenH (by decide)) _
  · exact .refl ..
  · exact .refl ..
  · exact .refl ..

end Driver

end LiberaBase
