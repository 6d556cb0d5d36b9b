import LiberaBase.Timing.Stamps

/-!
# The event generator

The FPGA raises two interrupts in every period of `2 ^ 26` ticks of the machine clock: the
self-increment at its start and the MC helper interrupt half-way through.  Both handlers look at
the event at the head of the list, and program the event generator if the event falls due between
one and two half periods later.  Seen from the half periods, each of the two interrupts answers
for one half period, and the next interrupt for the next one.
-/

namespace LiberaBase

open Runs

namespace Driver

/-- `libera_mchelp_handler_specific`: schedule the event at the head of the list if it falls into
the first half of the next period. -/
def liberaMchelpHandlerSpecific (s : Driver) : Driver :=
  let mcTime := s.event.mcTime
  let head := s.event.listHead
  if mcTime + 0x4000000 ≤ head.time ∧ head.time < mcTime + 0x8000000 then
    let offset26 := head.time - (mcTime + 0x4000000)
    if offset26 < 0x2000000 then
      (s.writel head.event tMCEventgenL).writel (offset26.setWidth 32) tMCEventgenH
    else s
  else s

/-! ## What writes the generator -/

def evgenWrites (ws : List (ℕ × U32)) : List (ℕ × U32) :=
  ws.filter fun w ↦ w.1 = tMCEventgenL ∨ w.1 = tMCEventgenH

/-- From `s` to `t` the event generator is written with `ws`. -/
def Programs (ws : List (ℕ × U32)) (s t : Driver) : Prop :=
  ∃ new, t.writes = s.writes ++ new ∧ evgenWrites new = ws

variable {s t u : Driver} {ws ws' : List (ℕ × U32)}

theorem Programs.of_eq (h : t.writes = s.writes) : Programs [] s t :=
  ⟨[], by rw [h, List.append_nil], rfl⟩

theorem Programs.refl (s : Driver) : Programs [] s s := .of_eq rfl

theorem Programs.trans (h : Programs ws s t) (h' : Programs ws' t u) :
    Programs (ws ++ ws') s u := by
  obtain ⟨new, hnew, rfl⟩ := h
  obtain ⟨new', hnew', rfl⟩ := h'
  refine ⟨new ++ new', ?_, List.filter_append ..⟩
  rw [hnew', hnew, List.append_assoc]

theorem Programs.drop (h : Programs ws s t) :
    evgenWrites (t.writes.drop s.writes.length) = ws := by
  obtain ⟨new, hnew, rfl⟩ := h
  rw [hnew, List.drop_left]

def Quiet (s t : Driver) : Prop := Programs [] s t

namespace Quiet

theorem refl (s : Driver) : Quiet s s := Programs.refl s

theorem trans (h : Quiet s t) (h' : Quiet t u) : Quiet s u := Programs.trans h h'

theorem of_eq (h : Quiet s t) (hwrites : u.writes = t.writes) : Quiet s u :=
  h.trans (Programs.of_eq hwrites)

theorem writel (h : Quiet s t) (val : U32) {addr : ℕ} (haddr : tMCEventgenH < addr) :
    Quiet s (t.writel val addr) := by
  refine h.trans ⟨[(addr, val)], rfl, ?_⟩
  have hne : ¬(addr = tMCEventgenL ∨ addr = tMCEventgenH) := by
    simp only [tMCEventgenL, tMCEventgenH] at haddr ⊢
    omega
  simp [evgenWrites, hne]

theorem ite {c : Prop} [Decidable c] {a b : Driver × ℤ} (ha : c → Quiet s a.1)
    (hb : ¬c → Quiet s b.1) : Quiet s (if c then a else b).1 := by
  by_cases h : c
  · rw [if_pos h]
    exact ha h
  · rw [if_neg h]
    exact hb h

theorem setParam (h : Quiet s t) (idx : ℕ) (val : U32) : Quiet s (t.setParam idx val) :=
  h.of_eq rfl

theorem withCfg (h : Quiet s t) (cfg : CfgDevice) : Quiet s { t with cfg := cfg } :=
  h.of_eq rfl

theorem sendEvent (h : Quiet s t) (id param : U32) : Quiet s (t.liberaSendEvent id param) := by
  obtain ⟨events, heq⟩ := t.liberaSendEvent_eq id param
  exact h.of_eq (by rw [heq])

theorem foldl {ι : Type*} {body : Driver → ι → Driver} (hbody : ∀ t i, Quiet t (body t i))
    (h : Quiet s t) (is : List ι) : Quiet s (is.foldl body t) :=
  List.foldlRecOn is body h fun t ht i _ ↦ ht.trans (hbody t i)

end Quiet

/-! ## Configuration requests -/

theorem quiet_setOverflowLimit (s : Driver) (idx : ℕ) (val : U32) :
    Quiet s (s.setOverflowLimit idx val).1 :=
  .ite (fun _ ↦ (Quiet.refl s).setParam idx _) fun _ ↦ .refl s

theorem Quiet.latchIlk (h : Quiet s t) : Quiet s t.latchIlk :=
  have h₁ := ((h.writel _ (by decide)).writel _ (by decide)).writel _ (by decide)
  have h₂ := ((h₁.writel _ (by decide)).writel _ (by decide)).writel _ (by decide)
  (h₂.writel _ (by decide)).writel _ (by decide)

theorem Quiet.latchPm (h : Quiet s t) (trigDelay : U32) : Quiet s (t.latchPm trigDelay) :=
  have h₁ := ((h.writel _ (by decide)).writel _ (by decide)).writel _ (by decide)
  have h₂ := ((h₁.writel _ (by decide)).writel _ (by decide)).writel _ (by decide)
  h₂.writel _ (by decide)

theorem Quiet.writeCoefficients (h : Quiet s t) (first count : ℕ) {reg : ℕ}
    (hreg : tMCEventgenH < reg) : Quiet s (t.writeCoefficients first count reg) :=
  (h.writel 1 (by decide)).foldl (fun t i ↦ (Quiet.refl t).writel _ hreg) _

theorem quiet_setCoefficient (s : Driver) (idx : ℕ) (val : U32) :
    Quiet s (s.setCoefficient idx val) := by
  have hset := (Quiet.refl s).setParam idx val
  unfold setCoefficient
  extract_lets s₁
  split_ifs
  · exact hset.writeCoefficients _ _ (by decide)
  · exact hset.writeCoefficients _ _ (by decide)
  · exact hset.writeCoefficients _ _ (by decide)
  · exact hset

theorem quiet_setSpecific (readl : ℕ → U32) (s : Driver) (req : CfgRequest) :
    Quiet s (s.liberaCfgSetSpecific readl req).1 := by
  have hset := (Quiet.refl s).setParam req.idx.toNat req.val
  unfold liberaCfgSetSpecific
  extract_lets idx mirrored source source' val s₁
  have hfa : tMCEventgenH < faOffset + (idx - cfgCustomFirst) * 4 :=
    lt_of_lt_of_le (by decide) (Nat.le_add_right _ _)
  refine .ite (fun _ ↦ hset.writel _ (by decide)) fun _ ↦ ?_
  refine .ite (fun _ ↦ hset.writel _ (by decide)) fun _ ↦ ?_
  refine .ite (fun _ ↦ hset.writel _ hfa) fun _ ↦ ?_
  refine .ite (fun _ ↦ hset) fun _ ↦ ?_
  refine .ite (fun _ ↦ quiet_setOverflowLimit ..) fun _ ↦ ?_
  refine .ite (fun _ ↦ .ite (fun _ ↦ hset) fun _ ↦ .refl s) fun _ ↦ ?_
  refine .ite (fun _ ↦ hset.latchIlk) fun _ ↦ ?_
  refine .ite (fun _ ↦ (Quiet.refl s).setParam _ _) fun _ ↦ ?_
  refine .ite (fun _ ↦ hset) fun _ ↦ ?_
  refine .ite (fun _ ↦ ((Quiet.refl s).writel _ (by decide)).setParam _ _) fun _ ↦ ?_
  refine .ite (fun _ ↦ hset.writel _ (by decide)) fun _ ↦ ?_
  refine .ite (fun _ ↦ (Quiet.refl s).writel _ (by decide)) fun _ ↦ ?_
  refine .ite (fun _ ↦ (Quiet.refl s).writel _ (by decide)) fun _ ↦ ?_
  refine .ite (fun _ ↦ hset.writel _ (by decide)) fun _ ↦ ?_
  refine .ite (fun _ ↦ .ite (fun _ ↦ (hset.latchPm _).withCfg _) fun _ ↦ .refl s) fun _ ↦ ?_
  refine .ite (fun _ ↦ hset.writel _ (by decide)) fun _ ↦ ?_
  refine .ite (fun _ ↦ hset) fun _ ↦ ?_
  refine .ite (fun _ ↦ hset.writel _ (by decide)) fun _ ↦ ?_
  refine .ite (fun _ ↦ hset.writel _ (by decide)) fun _ ↦ ?_
  refine .ite (fun _ ↦ hset.writel _ (by decide)) fun _ ↦ ?_
  refine .ite (fun _ ↦ hset.writel _ (by decide)) fun _ ↦ ?_
  refine .ite (fun _ ↦ hset) fun _ ↦ ?_
  exact .ite (fun _ ↦ quiet_setCoefficient ..) fun _ ↦ .refl s

theorem quiet_liberaIocSetCfg (readl : ℕ → U32) (s : Driver) (req : CfgRequest) :
    Quiet s (s.liberaIocSetCfg readl req).1 := by
  unfold liberaIocSetCfg
  extract_lets set
  have hset : Quiet s set.1 :=
    .ite (fun _ ↦ (Quiet.refl s).setParam _ _) fun _ ↦ quiet_setSpecific readl s req
  refine .ite (fun _ ↦ .refl s) fun _ ↦ ?_
  refine .ite (fun _ ↦ .refl s) fun _ ↦ ?_
  exact .ite (fun _ ↦ hset) fun _ ↦ hset.sendEvent _ _

/-! ## Dispatches -/

theorem Quiet.setLMT (h : Quiet s t) : Quiet s t.liberaSetLMT := by
  refine h.trans ?_
  unfold liberaSetLMT
  exact ((Quiet.refl t).of_eq rfl).writel saStop (by decide)

theorem Quiet.setTime (h : Quiet s t) : Quiet s t.liberaSetTime := by
  have hlst : Quiet s t.liberaSetLST := h.of_eq rfl
  unfold liberaSetTime
  extract_lets s₁ s₂
  have h₁ : Quiet s s₁ := by
    unfold s₁
    split_ifs
    · exact hlst
    · exact h
  have h₂ : Quiet s s₂ := by
    unfold s₂
    split_ifs
    · exact h₁.setLMT
    · exact h₁
  exact h₂.of_eq rfl

theorem Quiet.putMC (h : Quiet s t) (i : ℕ) (value raw : HwTime) :
    Quiet s (t.putMC i value raw) := by
  rcases t.putMC_eq raw i value with heq | ⟨q, -, heq⟩
  · rwa [heq]
  · exact h.of_eq (by rw [heq])

theorem Quiet.putLMT (h : Quiet s t) (i : ℕ) (lmt raw : HwTime) : Quiet s (t.putLMT i lmt raw) :=
  h.of_eq rfl

theorem quiet_mcTrigger (s : Driver) (stamp raw : HwTime) (i : ℕ) :
    Quiet s (s.mcTrigger stamp raw i) := by
  have hrefl := Quiet.refl s
  refine mcTrigger_invariant stamp hrefl (fun _ ↦ hrefl.putMC _ _ _)
    (fun _ ↦ hrefl.putLMT _ _ _) ?_ ?_ ?_
  · exact fun u hu ↦ hu.setTime
  · exact fun u cfg hu ↦ hu.withCfg cfg
  · exact fun u id param hu ↦ hu.sendEvent id param

theorem quiet_mcDispatch (stamp raw : HwTime) (s : Driver) (i : ℕ) :
    Quiet s (mcDispatch stamp raw s i) :=
  (quiet_mcTrigger s stamp raw i).of_eq rfl

theorem quiet_scDispatch (stamp raw : HwTime) (s : Driver) (i : ℕ) :
    Quiet s (scDispatch stamp raw s i) := by
  obtain ⟨_, _, _, heq⟩ := s.scTrigger_eq stamp raw i
  exact (Quiet.refl s).of_eq (by simp [scDispatch, heq])

theorem quiet_scEntry {e : FifoEntry} (h : s.scEntry e = some t) : Quiet s t := by
  rw [scEntry_eq] at h
  obtain rfl := Option.some.inj h
  obtain ⟨time, heq⟩ := s.scSelfInc_eq e.tl
  have hinc : Quiet s (s.scSelfInc e.tl) := (Quiet.refl s).of_eq (by rw [heq])
  exact hinc.foldl (quiet_scDispatch _ _) _

/-- Nothing but the two interrupts writes the event generator. -/
theorem quiet_step {l : Timing} (hl : ∀ es, l ≠ .mc es) (h : s.step l = some t) : Quiet s t := by
  cases l with
  | sc es =>
      exact drain_invariant (P := Quiet s) (fun _ _ _ hq _ he ↦ hq.trans (quiet_scEntry he))
        (.refl s) (drainOk_true scEntry s es) h
  | mc es => exact absurd rfl (hl es)
  | setST st =>
      obtain rfl := Option.some.inj h
      exact (Quiet.refl s).of_eq rfl
  | setMT mt phase =>
      obtain rfl := Option.some.inj h
      unfold setMT
      split_ifs
      · exact .refl s
      · extract_lets settime
        exact ((Quiet.refl s).of_eq rfl).writel _ (by decide)
  | setSCPHI scphi =>
      obtain rfl := Option.some.inj h
      exact (Quiet.refl s).of_eq rfl
  | setMCPHI mcphi =>
      obtain rfl := Option.some.inj h
      exact (Quiet.refl s).of_eq rfl
  | setCfg readl req =>
      obtain rfl := Option.some.inj h
      exact quiet_liberaIocSetCfg readl s req

/-! ## The two interrupts -/

/-- The event at the head of the list goes to the generator, with its place in its period. -/
def program (s : Driver) : Driver :=
  (s.writel s.event.listHead.event tMCEventgenL).writel
    (BitVec.ofNat 32 (s.event.listHead.time.toNat % 2 ^ 26)) tMCEventgenH

/-- What the generator is programmed with for an event. -/
def programmed (head : Evgen) : List (ℕ × U32) :=
  [(tMCEventgenL, head.event), (tMCEventgenH, BitVec.ofNat 32 (head.time.toNat % 2 ^ 26))]

theorem programs_program (s : Driver) : Programs (programmed s.event.listHead) s s.program := by
  refine ⟨programmed s.event.listHead, ?_, ?_⟩
  · simp [program, programmed, writel]
  · simp [evgenWrites, programmed]

/-- The number of the half period in which an event falls due. -/
def dueHalf (head : Evgen) : ℕ := head.time.toNat / 2 ^ 25

/-- The time `t` falls into the period that begins at `b`. -/
def InPeriodAt (b t : ℕ) : Prop := b ≤ t ∧ t < b + 2 ^ 26

theorem window_iff {b w t : HwTime} (hw : w.toNat = 2 ^ 26) (hb : b.toNat + 2 ^ 26 < 2 ^ 64) :
    b ≤ t ∧ t < b + w ↔ InPeriodAt b.toNat t.toNat := by
  have hsum : (b + w).toNat = b.toNat + 2 ^ 26 := by
    rw [BitVec.toNat_add, hw, Nat.mod_eq_of_lt hb]
  rw [BitVec.le_def, BitVec.lt_def, hsum]
  rfl

theorem offset_eq {b t : HwTime} (hperiod : 2 ^ 26 ∣ b.toNat) (h : InPeriodAt b.toNat t.toNat) :
    (t - b).toNat = t.toNat % 2 ^ 26 := by
  obtain ⟨hle, hlt⟩ := h
  rw [BitVec.toNat_sub_of_le (BitVec.le_def.mpr hle)]
  omega

theorem program_eq {b : HwTime} (hperiod : 2 ^ 26 ∣ b.toNat)
    (h : InPeriodAt b.toNat s.event.listHead.time.toNat) :
    (s.writel s.event.listHead.event tMCEventgenL).writel
      ((s.event.listHead.time - b).setWidth 32) tMCEventgenH = s.program := by
  have hwidth (x : HwTime) : x.setWidth 32 = BitVec.ofNat 32 x.toNat :=
    BitVec.eq_of_toNat_eq (by simp)
  rw [program, ← offset_eq hperiod h, hwidth]

section

variable {s : Driver} (hperiod : 2 ^ 26 ∣ s.event.mcTime.toNat)
  (hlt : s.event.mcTime.toNat < 2 ^ 64 - 2 ^ 27)

include hperiod hlt

theorem liberaMcSelfincSpecific_program : s.liberaMcSelfincSpecific =
    if dueHalf s.event.listHead = s.event.mcTime.toNat / 2 ^ 25 + 1 then s.program else s := by
  have hwindow := window_iff (b := s.event.mcTime) (w := selfIncPeriod)
    (t := s.event.listHead.time) rfl (by omega)
  unfold liberaMcSelfincSpecific dueHalf
  extract_lets mcTime head offset26
  by_cases hin : InPeriodAt s.event.mcTime.toNat s.event.listHead.time.toNat
  · have hoff : offset26.toNat = s.event.listHead.time.toNat % 2 ^ 26 := offset_eq hperiod hin
    obtain ⟨hle, hgt⟩ := hin
    rw [if_pos (hwindow.mpr ⟨hle, hgt⟩)]
    by_cases hhalf : (0x2000000 : HwTime) ≤ offset26
    · have hnat : 2 ^ 25 ≤ offset26.toNat := hhalf
      rw [if_pos hhalf, if_pos (by omega)]
      exact program_eq hperiod ⟨hle, hgt⟩
    · have hnat : ¬2 ^ 25 ≤ offset26.toNat := hhalf
      rw [if_neg hhalf, if_neg (by omega)]
  · rw [if_neg (mt hwindow.mp hin), if_neg]
    intro hdue
    exact hin ⟨by omega, by omega⟩

theorem liberaMchelpHandlerSpecific_program : s.liberaMchelpHandlerSpecific =
    if dueHalf s.event.listHead = s.event.mcTime.toNat / 2 ^ 25 + 2 then s.program else s := by
  have hnext : (s.event.mcTime + 0x4000000).toNat = s.event.mcTime.toNat + 2 ^ 26 := by
    have hinc : (0x4000000 : HwTime).toNat = 2 ^ 26 := rfl
    rw [BitVec.toNat_add, hinc, Nat.mod_eq_of_lt (by omega)]
  have hnextPeriod : 2 ^ 26 ∣ (s.event.mcTime + 0x4000000).toNat := by omega
  have hwindow := window_iff (b := s.event.mcTime + 0x4000000) (w := 0x4000000)
    (t := s.event.listHead.time) rfl (by omega)
  have htwo : s.event.mcTime + 0x4000000 + 0x4000000 = s.event.mcTime + 0x8000000 :=
    BitVec.add_assoc ..
  rw [htwo] at hwindow
  unfold liberaMchelpHandlerSpecific dueHalf
  extract_lets mcTime head offset26
  by_cases hin : InPeriodAt (s.event.mcTime + 0x4000000).toNat s.event.listHead.time.toNat
  · have hoff : offset26.toNat = s.event.listHead.time.toNat % 2 ^ 26 :=
      offset_eq hnextPeriod hin
    obtain ⟨hle, hgt⟩ := hin
    rw [if_pos (hwindow.mpr ⟨hle, hgt⟩)]
    by_cases hhalf : offset26 < 0x2000000
    · have hnat : offset26.toNat < 2 ^ 25 := hhalf
      rw [if_pos hhalf, if_pos (by omega)]
      exact program_eq hnextPeriod ⟨hle, hgt⟩
    · have hnat : ¬offset26.toNat < 2 ^ 25 := hhalf
      rw [if_neg hhalf, if_neg (by omega)]
  · rw [if_neg (mt hwindow.mp hin), if_neg]
    intro hdue
    exact hin ⟨by omega, by omega⟩

end

theorem programs_ite {c : Prop} [Decidable c] (s : Driver) :
    Programs (if c then programmed s.event.listHead else []) s (if c then s.program else s) := by
  split_ifs
  · exact programs_program s
  · exact .refl s

/-- The dispatches of an entry come after its self-increment and leave the generator alone. -/
theorem quiet_mcEntry {e : FifoEntry} (h : s.mcEntry e = some t) :
    Quiet (s.mcSelfInc e.tl) t := by
  rw [mcEntry_eq] at h
  obtain rfl := Option.some.inj h
  exact (Quiet.refl (s.mcSelfInc e.tl)).foldl (quiet_mcDispatch _ _) _

theorem liberaMcSelfincSpecific_programs (s : Driver) {time : HwTime}
    (hperiod : 2 ^ 26 ∣ time.toNat) (hlt : time.toNat < 2 ^ 64 - 2 ^ 27) :
    Programs (if dueHalf s.event.listHead = time.toNat / 2 ^ 25 + 1 then
        programmed s.event.listHead else [])
      s { s with event := { s.event with mcTime := time } }.liberaMcSelfincSpecific := by
  obtain ⟨s₁, hs₁⟩ : ∃ s₁, s₁ = { s with event := { s.event with mcTime := time } } := ⟨_, rfl⟩
  have hcount : Programs [] s s₁ := .of_eq (congrArg (·.writes) hs₁)
  have hmc : s₁.event.mcTime = time := congrArg (·.event.mcTime) hs₁
  have hhead : s₁.event.listHead = s.event.listHead := congrArg (·.event.listHead) hs₁
  rw [← hs₁, liberaMcSelfincSpecific_program (by rwa [hmc]) (by rwa [hmc]), ← hmc, ← hhead]
  exact hcount.trans (programs_ite s₁)

theorem selfInc_programs (hperiod : 2 ^ 26 ∣ s.event.mcTime.toNat)
    (hlt : s.event.mcTime.toNat + 2 ^ 26 < 2 ^ 64 - 2 ^ 27) {e : FifoEntry}
    (hinc : selfInc e.tl = true) (h : s.mcEntry e = some t) :
    t.event.mcTime.toNat = s.event.mcTime.toNat + 2 ^ 26 ∧
      Programs (if dueHalf s.event.listHead = t.event.mcTime.toNat / 2 ^ 25 + 1 then
        programmed s.event.listHead else []) s t := by
  have htime : t.event.mcTime = s.event.mcTime + selfIncPeriod :=
    (entry_clock (c := .mc) h).1.trans (if_pos hinc)
  have hnat : t.event.mcTime.toNat = s.event.mcTime.toNat + 2 ^ 26 := by
    have hinc : selfIncPeriod.toNat = 2 ^ 26 := rfl
    rw [htime, BitVec.toNat_add, hinc, Nat.mod_eq_of_lt (by omega)]
  have hquiet := quiet_mcEntry h
  rw [mcSelfInc, if_pos hinc, ← htime] at hquiet
  have hprograms :=
    (liberaMcSelfincSpecific_programs s (by omega) (by omega)).trans hquiet
  rw [List.append_nil] at hprograms
  exact ⟨hnat, hprograms⟩

theorem mchelp_programs (hperiod : 2 ^ 26 ∣ s.event.mcTime.toNat)
    (hlt : s.event.mcTime.toNat < 2 ^ 64 - 2 ^ 27) :
    s.liberaMchelpHandlerSpecific.event.mcTime = s.event.mcTime ∧
      Programs (if dueHalf s.event.listHead = s.event.mcTime.toNat / 2 ^ 25 + 2 then
        programmed s.event.listHead else []) s s.liberaMchelpHandlerSpecific := by
  rw [liberaMchelpHandlerSpecific_program hperiod hlt]
  refine ⟨?_, programs_ite s⟩
  split_ifs <;> rfl

end Driver

/-! ## Runs of the two interrupts -/

/-- The two interrupts of a period. -/
inductive Turn where
  | selfInc
  | mchelp
  deriving DecidableEq

/-- The MC handler takes an entry of its fifo, the MC helper interrupt is handled, or the driver
does anything else. -/
inductive EvgenStep where
  | entry (e : FifoEntry)
  | mchelp
  | other (l : Timing)

def EvgenStep.turn : EvgenStep → Option Turn
  | .entry e => if selfInc e.tl then some .selfInc else none
  | .mchelp => some .mchelp
  | .other _ => none

/-- The machine clock when an interrupt is handled: at the start of the period that the driver
counts, or half-way through it. -/
def Turn.counterAt (mcTime : ℕ) : Turn → ℕ
  | .selfInc => mcTime
  | .mchelp => mcTime + 2 ^ 25

/-- The driver, the interrupt it handled last, and the machine clock then.  `fired` is the history
of the writes of the event generator, each with the machine clock at the time. -/
structure EvgenRun where
  drv : Driver
  last : Option Turn
  counter : ℕ
  fired : List (ℕ × ℕ × U32)

namespace EvgenRun

open Driver

def start (drv : Driver) : EvgenRun := ⟨drv, none, drv.event.mcTime.toNat, []⟩

/-- What a step does to the driver; the MC handler is taken entry by entry. -/
def driverStep (s : Driver) : EvgenStep → Option Driver
  | .entry e => s.mcEntry e
  | .mchelp => some s.liberaMchelpHandlerSpecific
  | .other (.mc _) => none
  | .other l => s.step l

def step (s : EvgenRun) (l : EvgenStep) : Option EvgenRun :=
  (driverStep s.drv l).map fun drv ↦
    let counter := (l.turn.map (Turn.counterAt drv.event.mcTime.toNat)).getD s.counter
    { drv := drv
      last := l.turn.or s.last
      counter := counter
      fired := s.fired ++
        (evgenWrites (drv.writes.drop s.drv.writes.length)).map fun w ↦ (counter, w) }

/-- The two interrupts alternate, the time counted stays in its range, and the event at the head
of the list stays what it is. -/
structure Regular (s : EvgenRun) (l : EvgenStep) : Prop where
  alternates : ∀ turn, l.turn = some turn → s.last ≠ some turn
  bounded : l.turn = some .selfInc → s.drv.event.mcTime.toNat + 2 ^ 26 < 2 ^ 64 - 2 ^ 27
  head : ∀ drv, driverStep s.drv l = some drv → drv.event.listHead = s.drv.event.listHead

instance (s : EvgenRun) (l : EvgenStep) : Decidable (Regular s l) :=
  decidable_of_iff ((∀ turn ∈ l.turn, s.last ≠ some turn) ∧
      (l.turn = some .selfInc → s.drv.event.mcTime.toNat + 2 ^ 26 < 2 ^ 64 - 2 ^ 27) ∧
      ∀ drv ∈ driverStep s.drv l, drv.event.listHead = s.drv.event.listHead)
    ⟨fun ⟨h₁, h₂, h₃⟩ ↦ ⟨h₁, h₂, h₃⟩, fun ⟨h₁, h₂, h₃⟩ ↦ ⟨h₁, h₂, h₃⟩⟩

variable {s₀ : Driver} {s t : EvgenRun} {l : EvgenStep}

/-- An interrupt programs the generator exactly if the event falls due in the half period it
answers for, the one that follows the next. -/
theorem driverStep_turn {drv drv' : Driver} {turn : Turn}
    (hperiod : 2 ^ 26 ∣ drv.event.mcTime.toNat)
    (hlt : drv.event.mcTime.toNat < 2 ^ 64 - 2 ^ 27)
    (hbound : l.turn = some .selfInc → drv.event.mcTime.toNat + 2 ^ 26 < 2 ^ 64 - 2 ^ 27)
    (hturn : l.turn = some turn) (hstep : driverStep drv l = some drv') :
    drv'.event.mcTime.toNat = drv.event.mcTime.toNat + (if turn = .selfInc then 2 ^ 26 else 0) ∧
      Programs (if dueHalf drv.event.listHead =
          turn.counterAt drv'.event.mcTime.toNat / 2 ^ 25 + 1 then
        programmed drv.event.listHead else []) drv drv' := by
  cases l with
  | entry e =>
      by_cases hinc : selfInc e.tl = true
      · obtain rfl : Turn.selfInc = turn := by simpa [EvgenStep.turn, hinc] using hturn
        exact selfInc_programs hperiod (hbound hturn) hinc hstep
      · simp [EvgenStep.turn, hinc] at hturn
  | mchelp =>
      obtain rfl : Turn.mchelp = turn := Option.some.inj hturn
      obtain rfl := Option.some.inj hstep
      obtain ⟨htime, hprograms⟩ := mchelp_programs hperiod hlt
      rw [htime]
      refine ⟨rfl, ?_⟩
      have hhalf : Turn.counterAt drv.event.mcTime.toNat .mchelp / 2 ^ 25 =
          drv.event.mcTime.toNat / 2 ^ 25 + 1 := by
        simp only [Turn.counterAt]
        omega
      rw [hhalf]
      exact hprograms
  | other l => cases hturn

theorem driverStep_quiet {drv drv' : Driver} (hturn : l.turn = none)
    (hstep : driverStep drv l = some drv') :
    drv'.event.mcTime = drv.event.mcTime ∧ Quiet drv drv' := by
  cases l with
  | entry e =>
      have hinc : ¬selfInc e.tl = true := by
        intro hinc
        simp [EvgenStep.turn, hinc] at hturn
      refine ⟨((entry_clock (c := .mc) hstep).1).trans (if_neg hinc), ?_⟩
      have hquiet := quiet_mcEntry hstep
      rwa [mcSelfInc, if_neg hinc] at hquiet
  | mchelp => cases hturn
  | other l =>
      have hmc : ∀ es, l ≠ .mc es := by
        rintro es rfl
        cases hstep
      have hrun : drv.step l = some drv' := by
        cases l with
        | mc es => cases hstep
        | _ => exact hstep
      refine ⟨?_, quiet_step hmc hrun⟩
      rcases step_clocks hrun with ⟨c, es, rfl, hes⟩ | ⟨htime, -, -⟩
      · cases c with
        | sc =>
            have hne : Clock.mc ≠ Clock.sc := by decide
            exact (handler_other_clock hne hes).1
        | mc => exact absurd rfl (hmc es)
      · exact htime .mc

def firing (head : Evgen) : List (ℕ × ℕ × U32) :=
  (programmed head).map fun w ↦ ((dueHalf head - 1) * 2 ^ 25, w)

/-- The interrupts since the start have answered for the half periods from some first one on, and
the event has been programmed if it is among them. -/
structure Inv (s₀ : Driver) (s : EvgenRun) : Prop where
  head : s.drv.event.listHead = s₀.event.listHead
  period : 2 ^ 26 ∣ s.drv.event.mcTime.toNat
  bounded : s.drv.event.mcTime.toNat < 2 ^ 64 - 2 ^ 27
  before : s.last = none → s.fired = [] ∧ s.drv.event.mcTime = s₀.event.mcTime ∧
    s.counter = s₀.event.mcTime.toNat
  after : ∀ turn, s.last = some turn → s.counter = turn.counterAt s.drv.event.mcTime.toNat ∧
    ∃ first, 0 < first ∧ first ≤ s₀.event.mcTime.toNat / 2 ^ 25 + 3 ∧
      first ≤ s.counter / 2 ^ 25 + 1 ∧ s.fired = if first ≤ dueHalf s₀.event.listHead ∧
          dueHalf s₀.event.listHead < s.counter / 2 ^ 25 + 2 then
        firing s₀.event.listHead else []

theorem window_succ {α : Type*} {first half due : ℕ} (h : first ≤ half) (xs : List α) :
    (if first ≤ due ∧ due < half then xs else []) ++ (if due = half then xs else []) =
      if first ≤ due ∧ due < half + 1 then xs else [] := by
  by_cases hdue : due = half
  · rw [if_neg (by omega), if_pos hdue, if_pos (by omega), List.nil_append]
  · rw [if_neg hdue, List.append_nil]
    exact if_congr (by omega) rfl rfl

theorem inv_start (hperiod : 2 ^ 26 ∣ s₀.event.mcTime.toNat)
    (hlt : s₀.event.mcTime.toNat < 2 ^ 64 - 2 ^ 27) : Inv s₀ (start s₀) where
  head := rfl
  period := hperiod
  bounded := hlt
  before _ := ⟨rfl, rfl, rfl⟩
  after turn h := by cases h

theorem Inv.quiet (h : Inv s₀ s) (hok : Regular s l) {drv : Driver} (hturn : l.turn = none)
    (hdrv : driverStep s.drv l = some drv) : Inv s₀ ⟨drv, s.last, s.counter, s.fired⟩ := by
  obtain ⟨htime, -⟩ := driverStep_quiet hturn hdrv
  constructor
  · exact (hok.head drv hdrv).trans h.head
  · rw [htime]
    exact h.period
  · rw [htime]
    exact h.bounded
  · rw [htime]
    exact h.before
  · rw [htime]
    exact h.after

theorem Inv.next_half (h : Inv s₀ s) (hok : Regular s l) {time : ℕ} {last turn : Turn}
    (hturn : l.turn = some turn) (hlast : s.last = some last)
    (htime : time = s.drv.event.mcTime.toNat + (if turn = .selfInc then 2 ^ 26 else 0)) :
    turn.counterAt time / 2 ^ 25 = s.counter / 2 ^ 25 + 1 := by
  have hperiod := h.period
  have hne := hok.alternates turn hturn
  rw [(h.after last hlast).1, htime]
  cases last <;> cases turn
  · exact absurd hlast hne
  · simp only [Turn.counterAt, reduceCtorEq, if_false]
    omega
  · simp only [Turn.counterAt, if_true]
    omega
  · exact absurd hlast hne

theorem Inv.turn (h : Inv s₀ s) (hok : Regular s l) {drv : Driver} {turn : Turn}
    (hturn : l.turn = some turn) (hdrv : driverStep s.drv l = some drv) :
    Inv s₀ ⟨drv, some turn, turn.counterAt drv.event.mcTime.toNat,
      s.fired ++ (if dueHalf s₀.event.listHead =
          turn.counterAt drv.event.mcTime.toNat / 2 ^ 25 + 1 then
        firing s₀.event.listHead else [])⟩ := by
  have hperiod := h.period
  have hbounded := h.bounded
  obtain ⟨htime, -⟩ := driverStep_turn hperiod hbounded hok.bounded hturn hdrv
  constructor
  · exact (hok.head drv hdrv).trans h.head
  · simp only
    split_ifs at htime <;> omega
  · simp only
    split_ifs at htime with hinc
    · have := hok.bounded (hinc ▸ hturn)
      omega
    · omega
  · intro hlast
    cases hlast
  · intro turn' hturn'
    obtain rfl : turn = turn' := Option.some.inj hturn'
    refine ⟨rfl, ?_⟩
    cases hlast : s.last with
    | none =>
        obtain ⟨hfired, hmc, -⟩ := h.before hlast
        have hhalf : turn.counterAt drv.event.mcTime.toNat / 2 ^ 25 ≤
            s₀.event.mcTime.toNat / 2 ^ 25 + 2 := by
          rw [htime, hmc]
          cases turn <;> simp only [Turn.counterAt, reduceCtorEq, if_true, if_false] <;> omega
        refine ⟨turn.counterAt drv.event.mcTime.toNat / 2 ^ 25 + 1, by omega, by omega, le_rfl, ?_⟩
        simp only
        rw [hfired, List.nil_append]
        exact if_congr (by omega) rfl rfl
    | some last =>
        obtain ⟨-, first, hpos, hfirst, hle, hfired⟩ := h.after last hlast
        have hnext := h.next_half hok hturn hlast htime
        refine ⟨first, hpos, hfirst, by simp only; omega, ?_⟩
        simp only
        rw [hnext, hfired]
        exact window_succ (by omega) _

theorem map_programmed {head : Evgen} {counter : ℕ} (hdvd : 2 ^ 25 ∣ counter) :
    (if dueHalf head = counter / 2 ^ 25 + 1 then programmed head else []).map
        (fun w ↦ (counter, w)) =
      if dueHalf head = counter / 2 ^ 25 + 1 then firing head else [] := by
  split_ifs with hdue
  · rw [firing, hdue, Nat.add_sub_cancel, Nat.div_mul_cancel hdvd]
  · rfl

theorem Inv.counterAt_dvd (h : Inv s₀ s) (hok : Regular s l) {drv : Driver} {turn : Turn}
    (hturn : l.turn = some turn) (hdrv : driverStep s.drv l = some drv) :
    2 ^ 25 ∣ turn.counterAt drv.event.mcTime.toNat := by
  have hperiod := h.period
  obtain ⟨htime, -⟩ := driverStep_turn hperiod h.bounded hok.bounded hturn hdrv
  rw [htime]
  cases turn <;> simp only [Turn.counterAt, reduceCtorEq, if_true, if_false] <;> omega

theorem Inv.step (h : Inv s₀ s) (hok : Regular s l) (hstep : s.step l = some t) : Inv s₀ t := by
  obtain ⟨drv, hdrv, rfl⟩ := Option.map_eq_some_iff.mp hstep
  cases hturn : l.turn with
  | none =>
      obtain ⟨-, hquiet⟩ := driverStep_quiet hturn hdrv
      have hinv := h.quiet hok hturn hdrv
      simpa only [Programs.drop hquiet, Option.map_none, Option.getD_none, Option.none_or,
        List.map_nil, List.append_nil] using hinv
  | some turn =>
      obtain ⟨-, hprograms⟩ := driverStep_turn h.period h.bounded hok.bounded hturn hdrv
      have hinv := h.turn hok hturn hdrv
      rw [h.head] at hprograms
      rw [← map_programmed (h.counterAt_dvd hok hturn hdrv)] at hinv
      simpa only [Programs.drop hprograms, Option.map_some, Option.getD_some, Option.some_or]
        using hinv

/-- The machine clock at the interrupt that precedes the time `t` by the rule of the handlers: the
self-increment of its own period for a time in the second half, the helper interrupt of the period
before for one in the first half. -/
def precedingTurn (t : ℕ) : ℕ :=
  if 2 ^ 25 ≤ t % 2 ^ 26 then t / 2 ^ 26 * 2 ^ 26 else t / 2 ^ 26 * 2 ^ 26 - 2 ^ 25

/-- **A scheduled event is fired exactly once.**  While the two interrupts alternate and the event
stays the same, nothing else writes the event generator, and they write it at most once, within a
period before the event falls due.  If the event lies two periods ahead at the start, it is written
as soon as the run has come to the interrupt that precedes it. -/
theorem event_fired_once {ls : List EvgenStep} (hperiod : 2 ^ 26 ∣ s₀.event.mcTime.toNat)
    (hlt : s₀.event.mcTime.toNat < 2 ^ 64 - 2 ^ 27)
    (hrun : Steps EvgenRun.step Regular (start s₀) ls s) :
    (s.fired = [] ∨ ∃ c, s.fired =
        [(c, tMCEventgenL, s₀.event.listHead.event),
          (c, tMCEventgenH, BitVec.ofNat 32 (s₀.event.listHead.time.toNat % 2 ^ 26))] ∧
      c < s₀.event.listHead.time.toNat ∧ s₀.event.listHead.time.toNat ≤ c + 2 ^ 26) ∧
    (s₀.event.mcTime.toNat + 2 ^ 27 ≤ s₀.event.listHead.time.toNat →
      (s.fired ≠ [] ↔ precedingTurn s₀.event.listHead.time.toNat ≤ s.counter)) := by
  have hinv : Inv s₀ s :=
    hrun.invariant (fun _ _ _ h hok hstep ↦ h.step hok hstep) (inv_start hperiod hlt)
  obtain ⟨time, htime⟩ : ∃ time, time = s₀.event.listHead.time.toNat := ⟨_, rfl⟩
  have hdue : dueHalf s₀.event.listHead = time / 2 ^ 25 := by rw [htime]; rfl
  rw [← htime]
  cases hlast : s.last with
  | none =>
      obtain ⟨hfired, -, hcounter⟩ := hinv.before hlast
      refine ⟨.inl hfired, fun hfar ↦ iff_of_false (not_not.mpr hfired) ?_⟩
      unfold precedingTurn
      split_ifs <;> omega
  | some last =>
      obtain ⟨hcounter, first, hpos, hfirst, -, hfired⟩ := hinv.after last hlast
      rw [hdue] at hfired
      constructor
      · rw [hfired]
        split_ifs with hwindow
        · refine .inr ⟨(time / 2 ^ 25 - 1) * 2 ^ 25, ?_, by omega, by omega⟩
          simp [firing, programmed, hdue, ← htime]
        · exact .inl rfl
      · intro hfar
        have hnil : firing s₀.event.listHead ≠ [] := by simp [firing, programmed]
        have hperiod' := hinv.period
        have hhalf : 2 ^ 25 ∣ s.counter := by
          rw [hcounter]
          cases last <;> simp only [Turn.counterAt] <;> omega
        have hpreceding : precedingTurn time = (time / 2 ^ 25 - 1) * 2 ^ 25 := by
          unfold precedingTurn
          split_ifs <;> omega
        rw [hfired, hpreceding]
        split_ifs with hwindow
        · exact iff_of_true hnil (by omega)
        · exact iff_of_false (not_not.mpr rfl) (by omega)

/-- After boot the event lies two periods ahead; the helper interrupt of the first one fires it. -/
theorem event_fired_once_atBoot :
    ∃ s, Steps EvgenRun.step Regular (start (boot (fun _ ↦ 0) ⟨0, 0, 1, 1, 0⟩ ⟨0, 0, 0, 0⟩))
      [.entry ⟨0x80000001, 0⟩, .mchelp] s ∧ s.fired ≠ [] := by
  have hrun := exec_get_steps EvgenRun.step Regular
    (start (boot (fun _ ↦ 0) ⟨0, 0, 1, 1, 0⟩ ⟨0, 0, 0, 0⟩))
    [.entry ⟨0x80000001, 0⟩, .mchelp] (by decide +kernel)
  obtain ⟨-, hfires⟩ := event_fired_once (by decide) (by decide) hrun
  exact ⟨_, hrun, (hfires (by decide)).mpr (by decide +kernel)⟩

end EvgenRun

end LiberaBase
