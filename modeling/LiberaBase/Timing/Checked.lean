import LiberaBase.Timing.Dispatch
import LiberaBase.Dd.Checked

/-!
# The division of `libera_set_LMT`

A trigger that sets Machine Time divides by the product of the two decimations, taken in 32 bits.
The MC handler is followed up to a product of 0.
-/

namespace LiberaBase

namespace Driver

/-- `libera_set_LMT` -/
def liberaSetLMTC (s : Driver) : Checked Driver := do
  let trig := getFromCircBuf (s.event.pairedTimestamps tTrigTrigger)
  let lmt := s.event.settime.lmt
  let offAll := lmt.ref - lmt.mcphi - trig.stamp.lmt + lmt.offPll
  let rem ← if s.lgbl.dfa ≠ 0 then remU64C offAll (s.lgbl.d * s.lgbl.dfa) else .ok 0
  let offPll := U32.toHw rem
  let lmt' := { lmt with offAll := offAll, offPll := offPll, off := offAll - offPll }
  let time := trig.stamp.lmt + U32.toHw (20 * 1024 * s.lgbl.dfa * s.lgbl.d) - (offPll - lmt.offPll)
  .ok ({ s with event := { s.event with
      settime := { s.event.settime with lmt := lmt' }
      listHead := ⟨time, 1#32 <<< 28⟩ } }.writel saStop saControl)

def liberaSetTimeC (s : Driver) : Checked Driver := do
  let s₁ := if s.event.settime.update &&& liberaSettimeST ≠ 0 then s.liberaSetLST else s
  let s₂ ← if s₁.event.settime.update &&& liberaSettimeMT ≠ 0 then s₁.liberaSetLMTC else .ok s₁
  .ok { s₂ with event := { s₂.event with settime := { s₂.event.settime with update := 0 } } }

/-- The `switch(i)` of `libera_mc_handler`; only the trigger that sets the time divides. -/
def mcTriggerC (s : Driver) (stamp stampRaw : HwTime) (i : ℕ) : Checked Driver :=
  if i = tTrigTrigger ∧ s.trigmode = trigmodeSet then do
    let s₁ ← (s.putLMT i stampRaw stampRaw).liberaSetTimeC
    .ok ((s₁.setParam cfgTrigmode trigmodeGet).liberaSendEvent liberaEventTrigset 0)
  else .ok (s.mcTrigger stamp stampRaw i)

def mcDispatchC (stamp stampRaw : HwTime) (r : Checked Driver) (i : ℕ) : Checked Driver := do
  let s ← r
  let s₁ ← s.mcTriggerC stamp stampRaw i
  .ok { s₁ with
    event := { s₁.event with
      mcHalves := Function.update s₁.event.mcHalves i (s₁.event.mcHalves i + 1) }
    dispatched := s₁.dispatched ++ [⟨.mc, i, stampRaw⟩] }

def mcEntryC (s : Driver) (e : FifoEntry) : Checked (Option Driver) :=
  let s₁ := s.mcSelfInc e.tl
  let raw := stampRaw s₁.event.mcTime e.th
  let stamp := raw + s₁.event.settime.lmt.off
  match BitScan.scan trigVector (mcDispatchC stamp raw) scanFuel scanFuel (.ok s₁) e.tl
    trigZero 0 with
  | none => .ok none
  | some r => r.map some

def liberaMcHandlerC : Driver → List FifoEntry → Checked (Option Driver)
  | s, [] => .ok (some s)
  | s, e :: es =>
    if tFifoSize e.tl ≠ 0 then do
      match ← s.mcEntryC e with
      | none => .ok none
      | some s₁ => liberaMcHandlerC s₁ es
    else .ok (some s)

def stepC (s : Driver) : Timing → Checked (Option Driver)
  | .mc es => s.liberaMcHandlerC es
  | t => .ok (s.step t)

/-! ## Without a fault -/

/-- The product by which `libera_set_LMT` divides, if it divides, is not 0. -/
def Divides (s : Driver) : Prop := s.lgbl.dfa ≠ 0 → s.lgbl.d * s.lgbl.dfa ≠ 0

variable {s t : Driver} {stamp raw : HwTime} {i : ℕ}

theorem Divides.of_lgbl (h : s.Divides) (hlgbl : t.lgbl = s.lgbl) : t.Divides := by
  rw [Divides, hlgbl]
  exact h

theorem liberaSetLMTC_eq (h : s.Divides) : s.liberaSetLMTC = .ok s.liberaSetLMT := by
  unfold liberaSetLMTC liberaSetLMT
  by_cases hdfa : s.lgbl.dfa ≠ 0
  · simp only [if_pos hdfa, remU64C_eq (h hdfa)]
    rfl
  · simp only [if_neg hdfa]
    rfl

theorem liberaSetLST_lgbl (s : Driver) : s.liberaSetLST.lgbl = s.lgbl := rfl

theorem liberaSetTimeC_eq (h : s.Divides) : s.liberaSetTimeC = .ok s.liberaSetTime := by
  have hlst : s.liberaSetLST.Divides := h.of_lgbl s.liberaSetLST_lgbl
  unfold liberaSetTimeC liberaSetTime
  dsimp only
  rw [apply_ite liberaSetLMTC, liberaSetLMTC_eq h, liberaSetLMTC_eq hlst]
  split_ifs <;> rfl

theorem mcTriggerC_eq (h : s.Divides) (stamp raw : HwTime) (i : ℕ) :
    s.mcTriggerC stamp raw i = .ok (s.mcTrigger stamp raw i) := by
  unfold mcTriggerC
  split_ifs with hset
  · obtain ⟨hi, hmode⟩ := hset
    have hput : (s.putLMT i raw raw).Divides := h.of_lgbl rfl
    rw [liberaSetTimeC_eq hput, mcTrigger, if_pos hi]
    simp only [if_pos hmode]
    rfl
  · rfl

theorem mcDispatchC_eq (h : s.Divides) (stamp raw : HwTime) (i : ℕ) :
    mcDispatchC stamp raw (.ok s) i = .ok (mcDispatch stamp raw s i) := by
  unfold mcDispatchC
  dsimp only [bind, Except.bind]
  rw [mcTriggerC_eq h]
  rfl

theorem mcDispatch_lgbl (stamp raw : HwTime) (s : Driver) (i : ℕ) :
    (mcDispatch stamp raw s i).lgbl = s.lgbl := by
  obtain ⟨_, _, _, _, _, _, _, _, _, _, h⟩ := mcOnly_mcTrigger s stamp raw i
  simp [mcDispatch, h]

theorem scDispatch_lgbl (stamp raw : HwTime) (s : Driver) (i : ℕ) :
    (scDispatch stamp raw s i).lgbl = s.lgbl := by
  obtain ⟨_, _, _, h⟩ := s.scTrigger_eq stamp raw i
  simp [scDispatch, h]

theorem foldl_mcDispatchC (h : s.Divides) (is : List ℕ) :
    is.foldl (mcDispatchC stamp raw) (.ok s) = .ok (is.foldl (mcDispatch stamp raw) s) := by
  induction is generalizing s with
  | nil => rfl
  | cons i is ih =>
      rw [List.foldl_cons, List.foldl_cons, mcDispatchC_eq h]
      exact ih (h.of_lgbl (mcDispatch_lgbl stamp raw s i))

theorem mcSelfInc_lgbl (s : Driver) (tl : U32) : (s.mcSelfInc tl).lgbl = s.lgbl := by
  obtain ⟨_, _, h⟩ := s.mcSelfInc_eq tl
  rw [h]

theorem mcEntryC_eq (h : s.Divides) (e : FifoEntry) : s.mcEntryC e = .ok (s.mcEntry e) := by
  unfold mcEntryC
  dsimp only
  rw [scan_trigVector, foldl_mcDispatchC (h.of_lgbl (s.mcSelfInc_lgbl e.tl)), mcEntry_eq]
  rfl

theorem mcEntry_lgbl {e : FifoEntry} (hentry : s.mcEntry e = some t) : t.lgbl = s.lgbl := by
  rw [mcEntry_eq] at hentry
  obtain rfl := Option.some.inj hentry
  exact (foldl_field (mcDispatch_lgbl _ _) _ _).trans (s.mcSelfInc_lgbl e.tl)

theorem scEntry_lgbl {e : FifoEntry} (hentry : s.scEntry e = some t) : t.lgbl = s.lgbl := by
  obtain ⟨_, h⟩ := s.scSelfInc_eq e.tl
  rw [scEntry_eq] at hentry
  obtain rfl := Option.some.inj hentry
  refine (foldl_field (scDispatch_lgbl _ _) _ _).trans ?_
  rw [h]

theorem liberaMcHandlerC_eq (h : s.Divides) (es : List FifoEntry) :
    s.liberaMcHandlerC es = .ok (s.liberaMcHandler es) := by
  unfold liberaMcHandler
  induction es generalizing s with
  | nil => rfl
  | cons e es ih =>
      rw [liberaMcHandlerC, drain, mcEntryC_eq h]
      split_ifs
      · cases hentry : s.mcEntry e with
        | none => rfl
        | some s₁ => exact ih (h.of_lgbl (mcEntry_lgbl hentry))
      · rfl

theorem stepC_eq (h : s.Divides) (l : Timing) : s.stepC l = .ok (s.step l) := by
  cases l with
  | mc es => exact liberaMcHandlerC_eq h es
  | sc es => rfl
  | setST st => rfl
  | setMT mt phase => rfl
  | setSCPHI scphi => rfl
  | setMCPHI mcphi => rfl
  | setCfg readl req => rfl

/-! ## With a fault -/

theorem liberaSetLMTC_fault (h : ¬s.Divides) : s.liberaSetLMTC = .error .zero := by
  obtain ⟨hdfa, hproduct⟩ := Classical.not_imp.mp h
  unfold liberaSetLMTC
  simp only [if_pos hdfa, remU64C, if_pos (not_not.mp hproduct)]
  rfl

theorem liberaSetTimeC_fault (h : ¬s.Divides)
    (hupdate : s.event.settime.update &&& liberaSettimeMT ≠ 0) :
    s.liberaSetTimeC = .error .zero := by
  have hlst : s.liberaSetLST.liberaSetLMTC = .error .zero := liberaSetLMTC_fault h
  have hlmt : s.liberaSetLMTC = .error .zero := liberaSetLMTC_fault h
  have hupdate' : s.liberaSetLST.event.settime.update &&& liberaSettimeMT ≠ 0 := hupdate
  unfold liberaSetTimeC
  by_cases hst : s.event.settime.update &&& liberaSettimeST ≠ 0
  · simp only [if_pos hst, if_pos hupdate', hlst]
    rfl
  · simp only [if_neg hst, if_pos hupdate, hlmt]
    rfl

/-- The external trigger that consumes an armed Machine Time. -/
theorem mcEntryC_fault (hmode : s.trigmode = trigmodeSet)
    (hupdate : s.event.settime.update &&& liberaSettimeMT ≠ 0) (h : ¬s.Divides) {e : FifoEntry}
    (hself : selfInc e.tl = false) (hbits : trigBits e.tl = [tTrigTrigger]) :
    s.mcEntryC e = .error .zero := by
  have hkeep : s.mcSelfInc e.tl = s := if_neg (by simp [hself])
  have hput (raw : HwTime) : (s.putLMT tTrigTrigger raw raw).liberaSetTimeC = .error .zero :=
    liberaSetTimeC_fault h hupdate
  have htrigger (stamp raw : HwTime) : s.mcTriggerC stamp raw tTrigTrigger = .error .zero := by
    rw [mcTriggerC, if_pos ⟨rfl, hmode⟩, hput]
    rfl
  unfold mcEntryC
  dsimp only
  rw [scan_trigVector, hbits, hkeep, List.foldl_cons, List.foldl_nil, mcDispatchC]
  dsimp only [bind, Except.bind]
  rw [htrigger]
  rfl

theorem setMT_lgbl (s : Driver) (mt : HwTime) (phase : U32) : (s.setMT mt phase).lgbl = s.lgbl := by
  unfold setMT
  split_ifs <;> rfl

/-- A Machine Time that is accepted, and the trigger that consumes it. -/
theorem setMT_fault (h : ¬s.Divides) (mt : HwTime) {phase : U32} (hphase : ¬s.lgbl.d ≤ phase)
    {e : FifoEntry} (hself : selfInc e.tl = false) (hbits : trigBits e.tl = [tTrigTrigger]) :
    (s.setMT mt phase).mcEntryC e = .error .zero := by
  have hmode : (s.setMT mt phase).trigmode = trigmodeSet := by
    rw [setMT, if_neg hphase]
    exact Function.update_self cfgTrigmode trigmodeSet s.cfg.param
  have hupdate : (s.setMT mt phase).event.settime.update &&& liberaSettimeMT = liberaSettimeMT := by
    rw [setMT, if_neg hphase]
    change (s.event.settime.update ||| liberaSettimeMT) &&& liberaSettimeMT = liberaSettimeMT
    ext i hi
    simp only [BitVec.getElem_and, BitVec.getElem_or]
    cases s.event.settime.update[i] <;> simp
  have hdivides : ¬(s.setMT mt phase).Divides := by
    rw [Divides, setMT_lgbl]
    exact h
  refine mcEntryC_fault hmode ?_ hdivides hself hbits
  rw [hupdate]
  decide

/-! ## The decimations -/

theorem liberaSendEvent_lgbl (s : Driver) (id param : U32) :
    (s.liberaSendEvent id param).lgbl = s.lgbl := by
  obtain ⟨events, h⟩ := s.liberaSendEvent_eq id param
  rw [h]

theorem drain_lgbl {entry : Driver → FifoEntry → Option Driver} {es : List FifoEntry}
    (hentry : ∀ s e s', entry s e = some s' → s'.lgbl = s.lgbl)
    (hdrain : drain entry s es = some t) : t.lgbl = s.lgbl :=
  drain_invariant (P := fun u ↦ u.lgbl = s.lgbl)
    (fun _ _ _ heq _ hstep ↦ (hentry _ _ _ hstep).trans heq) rfl (drainOk_true entry s es) hdrain

/-- The decimations stay as `libera_init` read them. -/
theorem step_lgbl {l : Timing} (hstep : s.step l = some t) : t.lgbl = s.lgbl := by
  rcases step_cases hstep with ⟨es, -, hdrain⟩ | ⟨es, -, hdrain⟩ | harmed | ⟨readl, req, -, hreq⟩
  · exact drain_lgbl (fun _ _ _ ↦ scEntry_lgbl) hdrain
  · exact drain_lgbl (fun _ _ _ ↦ mcEntry_lgbl) hdrain
  · obtain ⟨_, _, _, _, _, _, rfl⟩ := harmed
    rfl
  · obtain ⟨_, _, _, rfl⟩ := hreq
    rfl

end Driver

end LiberaBase
