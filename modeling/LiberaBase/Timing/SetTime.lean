import LiberaBase.Timing.Pairing

/-!
# Setting the system time

An armed system time is applied at the MC half of the next external trigger: the
offset is chosen so that the stamp stored for the SC half of that trigger reads as
the armed time.  The stored stamp is the raw one only if the trigger mode was
`SET` when the SC half was handled; a request that arms the update between the two
halves finds a stamp that carries the old offset already.
-/

namespace LiberaBase

open Runs

/-- The stamp stored for a system clock half of the external trigger. -/
def storedLst (half : Half) : HwTime :=
  if half.trigmode = trigmodeSet then half.raw else half.raw + half.off

theorem storedLst_eq_raw {half : Half} :
    storedLst half = half.raw ↔ half.trigmode = trigmodeSet ∨ half.off = 0 := by
  unfold storedLst
  split_ifs with h
  · simp [h]
  · simp [h]

/-- The offset is that of the armed time, and the instant of the trigger reads back as
the armed time. -/
def Consumed.Exact (c : Consumed) : Prop :=
  c.off = c.ref - c.scphi - c.slot.lstHalf.raw ∧ c.slot.lstHalf.raw + c.off = c.ref - c.scphi

instance (c : Consumed) : Decidable c.Exact := inferInstanceAs (Decidable (_ ∧ _))

theorem Consumed.exact_iff {c : Consumed} (h : c.off = c.ref - c.scphi - storedLst c.slot.lstHalf) :
    c.Exact ↔ c.slot.lstHalf.trigmode = trigmodeSet ∨ c.slot.lstHalf.off = 0 := by
  rw [← storedLst_eq_raw, Consumed.Exact, h]
  constructor
  · rintro ⟨heq, -⟩
    exact (BitVec.sub_right_inj _).mp heq
  · intro heq
    rw [heq, BitVec.add_comm, BitVec.sub_add_cancel]
    exact ⟨rfl, rfl⟩

/-! ## The circular buffer of the external trigger -/

/-- `put` designates a slot, and every slot stores what its half calls for. -/
structure CircBuf.Stored (q : CircBuf) : Prop where
  put_nonneg : 0 ≤ q.put
  put_lt : q.put < trigLog
  lst : ∀ k, (q.stamp k).stamp.lst = storedLst (q.stamp k).lstHalf

namespace CircBuf.Stored

variable {q : CircBuf}

theorem putLST (h : q.Stored) {lst : HwTime} {half : Half} (hlst : lst = storedLst half) :
    (putLSTtoCircBuf q lst half).Stored where
  put_nonneg := h.put_nonneg
  put_lt := h.put_lt
  lst := fun k ↦ by
    by_cases hk : k = q.put
    · simp [putLSTtoCircBuf, hk, hlst]
    · simpa [putLSTtoCircBuf, hk] using h.lst k

theorem putLMT (h : q.Stored) (lmt : HwTime) (half : Half) :
    (putLMTtoCircBuf q lmt half).Stored where
  put_nonneg := Int.emod_nonneg _ (by decide)
  put_lt := Int.emod_lt_of_pos _ (by decide)
  lst := fun k ↦ by
    by_cases hk : k = q.put
    · simpa [putLMTtoCircBuf, hk] using h.lst q.put
    · simpa [putLMTtoCircBuf, hk] using h.lst k

theorem getFromCircBuf_putLMT (h : q.Stored) (lmt : HwTime) (half : Half) :
    getFromCircBuf (putLMTtoCircBuf q lmt half) =
      { q.stamp q.put with
        stamp := { (q.stamp q.put).stamp with lmt := lmt }
        lmtHalf := half } := by
  have hput : ((q.put + 1) % trigLog - 1) % trigLog = q.put := by
    have := h.put_nonneg
    have := h.put_lt
    rw [Int.emod_sub_emod, Int.add_sub_cancel, Int.emod_eq_of_lt h.put_nonneg h.put_lt]
  simp [getFromCircBuf, putLMTtoCircBuf, hput]

end CircBuf.Stored

namespace Driver

variable {s t : Driver} {stamp raw : HwTime} {i : ℕ}

/-! ## The invariant -/

/-- Every consumption of an armed update has set the offset from what was stored for
a completed trigger, and the last one is in force. -/
structure Setting (s : Driver) : Prop where
  ring : (s.event.pairedTimestamps tTrigTrigger).Stored
  consumed : ∀ c ∈ s.consumed, ⟨tTrigTrigger, c.slot⟩ ∈ s.completed ∧
    c.off = c.ref - c.scphi - storedLst c.slot.lstHalf
  off_eq : s.event.settime.lst.off = (s.consumed.getLast?.map (·.off)).getD 0

/-- `t` has the external trigger, the system time offset and the consumptions of
`s`, and keeps the completed entries. -/
structure SameSetting (s t : Driver) : Prop where
  ring : t.event.pairedTimestamps tTrigTrigger = s.event.pairedTimestamps tTrigTrigger
  off : t.event.settime.lst.off = s.event.settime.lst.off
  consumed : t.consumed = s.consumed
  completed : s.completed ⊆ t.completed

theorem SameSetting.refl (s : Driver) : SameSetting s s := ⟨rfl, rfl, rfl, List.Subset.refl _⟩

theorem SameSetting.trans {u : Driver} (h : SameSetting s t) (h' : SameSetting t u) :
    SameSetting s u :=
  ⟨h'.ring.trans h.ring, h'.off.trans h.off, h'.consumed.trans h.consumed,
    List.Subset.trans h.completed h'.completed⟩

theorem Setting.frame (h : Setting s) (hsame : SameSetting s t) : Setting t where
  ring := hsame.ring ▸ h.ring
  consumed := fun c hc ↦ by
    rw [hsame.consumed] at hc
    exact ⟨hsame.completed (h.consumed c hc).1, (h.consumed c hc).2⟩
  off_eq := by rw [hsame.off, hsame.consumed, h.off_eq]

theorem sameSetting_sendEvent (s : Driver) (id param : U32) :
    SameSetting s (s.liberaSendEvent id param) := by
  obtain ⟨_, heq⟩ := s.liberaSendEvent_eq id param
  rw [heq]
  exact ⟨rfl, rfl, rfl, List.Subset.refl _⟩

/-! ## The SC half -/

theorem scTrigger_trigger (s : Driver) (stamp raw : HwTime) :
    s.scTrigger stamp raw tTrigTrigger =
      s.putLST tTrigTrigger (if s.trigmode = trigmodeSet then raw else stamp) raw := by
  unfold scTrigger
  rw [if_pos rfl]
  split_ifs <;> rfl

theorem putLST_self (s : Driver) (i : ℕ) (lst raw : HwTime) :
    (s.putLST i lst raw).event.pairedTimestamps i =
      putLSTtoCircBuf (s.event.pairedTimestamps i) lst (s.scHalf raw i) :=
  Function.update_self ..

theorem Setting.scDispatch (h : Setting s) (raw : HwTime) (i : ℕ) :
    Setting (Driver.scDispatch (raw + s.event.settime.lst.off) raw s i) := by
  by_cases hi : tTrigTrigger = i
  · subst hi
    refine ⟨?_, by simpa using h.consumed, by simpa using h.off_eq⟩
    change ((s.scTrigger _ raw tTrigTrigger).event.pairedTimestamps tTrigTrigger).Stored
    rw [scTrigger_trigger]
    rw [putLST_self]
    exact h.ring.putLST rfl
  · exact h.frame ⟨s.scTrigger_paired_of_ne _ raw hi, by rw [scDispatch_settime], by simp,
      by simp⟩

theorem Setting.scEntry {e : FifoEntry} (h : Setting s) (hstep : s.scEntry e = some t) :
    Setting t := by
  obtain rfl := Option.some.inj ((scEntry_eq s e).symm.trans hstep)
  obtain ⟨time, heq⟩ := s.scSelfInc_eq e.tl
  have hinit : Setting (s.scSelfInc e.tl) := by
    rw [heq]
    exact h.frame ⟨rfl, rfl, rfl, List.Subset.refl _⟩
  set off := (s.scSelfInc e.tl).event.settime.lst.off with hoff
  refine (foldl_invariant (P := fun u ↦ Setting u ∧ u.event.settime.lst.off = off)
    (fun u i _ hu ↦ ⟨?_, ?_⟩) ⟨hinit, rfl⟩).1
  · rw [← hu.2]
    exact hu.1.scDispatch _ i
  · rw [scDispatch_settime, hu.2]

/-! ## The MC half -/

theorem Setting.setLST (h : Setting s)
    (hlast : ⟨tTrigTrigger, getFromCircBuf (s.event.pairedTimestamps tTrigTrigger)⟩ ∈
      s.completed) : Setting s.liberaSetLST where
  ring := h.ring
  consumed := fun c hc ↦ by
    change c ∈ s.consumed ++ [_] at hc
    rw [List.mem_append, List.mem_singleton] at hc
    rcases hc with hc | rfl
    · exact h.consumed c hc
    · refine ⟨hlast, ?_⟩
      simp only [getFromCircBuf, h.ring.lst]
  off_eq := by simp [liberaSetLST]

theorem liberaSetLMT_eq (s : Driver) : ∃ lmt head writes, s.liberaSetLMT =
    { s with
      event := { s.event with
        settime := { s.event.settime with lmt := lmt }
        listHead := head }
      writes := writes } :=
  ⟨_, _, _, rfl⟩

theorem sameSetting_setLMT (s : Driver) : SameSetting s s.liberaSetLMT := by
  obtain ⟨_, _, _, heq⟩ := s.liberaSetLMT_eq
  rw [heq]
  exact ⟨rfl, rfl, rfl, List.Subset.refl _⟩

theorem Setting.setTime (h : Setting s)
    (hlast : ⟨tTrigTrigger, getFromCircBuf (s.event.pairedTimestamps tTrigTrigger)⟩ ∈
      s.completed) : Setting s.liberaSetTime := by
  unfold liberaSetTime
  extract_lets s₁ s₂
  have h₁ : Setting s₁ := by
    by_cases hst : s.event.settime.update &&& liberaSettimeST ≠ 0
    · simp only [s₁, if_pos hst]
      exact h.setLST hlast
    · simp only [s₁, if_neg hst]
      exact h
  have h₂ : Setting s₂ := by
    by_cases hmt : s₁.event.settime.update &&& liberaSettimeMT ≠ 0
    · simp only [s₂, if_pos hmt]
      exact h₁.frame (sameSetting_setLMT s₁)
    · simp only [s₂, if_neg hmt]
      exact h₁
  exact h₂.frame ⟨rfl, rfl, rfl, List.Subset.refl _⟩

theorem Setting.putLMT (h : Setting s) (lmt raw : HwTime) :
    Setting (s.putLMT tTrigTrigger lmt raw) ∧
      ⟨tTrigTrigger, getFromCircBuf
        ((s.putLMT tTrigTrigger lmt raw).event.pairedTimestamps tTrigTrigger)⟩ ∈
          (s.putLMT tTrigTrigger lmt raw).completed := by
  have hdone := completes_putLMT s tTrigTrigger lmt raw
  have hring : (s.putLMT tTrigTrigger lmt raw).event.pairedTimestamps tTrigTrigger =
      putLMTtoCircBuf (s.event.pairedTimestamps tTrigTrigger) lmt (s.mcHalf raw tTrigTrigger) := by
    rw [hdone.paired, Function.update_self]
  constructor
  · refine ⟨?_, fun c hc ↦ ?_, h.off_eq⟩
    · rw [hring]
      exact h.ring.putLMT _ _
    · rw [hdone.completed]
      exact ⟨List.mem_append_left _ (h.consumed c hc).1, (h.consumed c hc).2⟩
  · rw [hring, h.ring.getFromCircBuf_putLMT, hdone.completed]
    exact List.mem_append_right _ (List.mem_singleton_self _)

theorem sameSetting_mcTrigger (s : Driver) (stamp raw : HwTime) (hi : tTrigTrigger ≠ i) :
    SameSetting s (s.mcTrigger stamp raw i) := by
  have hput (value : HwTime) : SameSetting s (s.putMC i value raw) := by
    rcases s.putMC_eq raw i value with h | ⟨_, -, h⟩ <;> rw [h] <;>
      exact ⟨rfl, rfl, rfl, List.Subset.refl _⟩
  have hlmt : SameSetting s (s.putLMT i stamp raw) :=
    ⟨Function.update_of_ne hi _ _, rfl, rfl, List.subset_append_left _ _⟩
  unfold mcTrigger liberaMCtrigSpecific
  simp only [if_neg hi.symm]
  split_ifs
  · exact (hlmt.trans (sameSetting_sendEvent _ liberaEventPM s.params.pmsize)).trans
      ⟨rfl, rfl, rfl, List.Subset.refl _⟩
  · exact hlmt.trans (sameSetting_sendEvent _ _ _)
  · exact .refl s
  · exact hput _
  · exact hput _

theorem Setting.mcDispatch (h : Setting s) (stamp raw : HwTime) (i : ℕ) :
    Setting (Driver.mcDispatch stamp raw s i) := by
  have hcount (u : Driver) (halves : ℕ → ℕ) (dispatched : List Dispatch) : SameSetting u
      { u with
        event := { u.event with mcHalves := halves }
        dispatched := dispatched } := ⟨rfl, rfl, rfl, List.Subset.refl _⟩
  refine Setting.frame ?_ (hcount (s.mcTrigger stamp raw i) _ _)
  by_cases hi : tTrigTrigger = i
  · subst hi
    unfold mcTrigger
    simp only [if_true]
    split_ifs
    · obtain ⟨hput, hlast⟩ := h.putLMT raw raw
      refine (Setting.frame (hput.setTime hlast) ?_).frame (sameSetting_sendEvent _ _ _)
      exact ⟨rfl, rfl, rfl, List.Subset.refl _⟩
    · exact h
    · exact (h.putLMT stamp raw).1.frame (sameSetting_sendEvent _ _ _)
    · exact (h.putLMT stamp raw).1
  · exact h.frame (sameSetting_mcTrigger s stamp raw hi)

theorem Setting.mcEntry {e : FifoEntry} (h : Setting s) (hstep : s.mcEntry e = some t) :
    Setting t := by
  obtain rfl := Option.some.inj ((mcEntry_eq s e).symm.trans hstep)
  refine foldl_invariant (fun u i _ hu ↦ hu.mcDispatch _ _ i) ?_
  obtain ⟨time, writes, heq⟩ := s.mcSelfInc_eq e.tl
  rw [heq]
  exact h.frame ⟨rfl, rfl, rfl, List.Subset.refl _⟩

/-! ## Runs -/

theorem Setting.step {l : Timing} (h : Setting s) (hstep : s.step l = some t) : Setting t := by
  rcases step_cases hstep with ⟨es, rfl, hes⟩ | ⟨es, rfl, hes⟩ | harmed | ⟨readl, req, rfl, hreq⟩
  · exact drain_invariant (fun _ _ _ hu _ hent ↦ hu.scEntry hent) h (drainOk_true _ s es) hes
  · exact drain_invariant (fun _ _ _ hu _ hent ↦ hu.mcEntry hent) h (drainOk_true _ s es) hes
  · obtain ⟨_, _, _, _, _, _, rfl⟩ := harmed
    exact h.frame ⟨rfl, rfl, rfl, List.Subset.refl _⟩
  · obtain ⟨_, _, _, rfl⟩ := hreq
    exact h.frame ⟨rfl, rfl, rfl, List.Subset.refl _⟩

theorem setting_boot (param : ℕ → U32) (lgbl : Global) (params : ModuleParams) :
    Setting (boot param lgbl params) where
  ring := ⟨le_rfl, show (0 : ℤ) < trigLog by decide, fun k ↦ by simp [boot, storedLst]⟩
  consumed := fun _ hc ↦ absurd hc List.not_mem_nil
  off_eq := rfl

/-- **When the system time is set exactly.**  While no second external trigger comes
between the halves of one, the trigger whose MC half consumes an armed update reads
back as the armed time if and only if its SC half was handled in `SET` mode, or under
no offset. -/
theorem consumed_exact_iff {param : ℕ → U32} {lgbl : Global} {params : ModuleParams}
    {ls : List Timing}
    (hrun : Steps Driver.step (InTurnAt tTrigTrigger) (boot param lgbl params) ls s) :
    s.event.settime.lst.off = (s.consumed.getLast?.map (·.off)).getD 0 ∧
      ∀ c ∈ s.consumed, c.slot.lstHalf.number = c.slot.lmtHalf.number ∧
        (c.Exact ↔ c.slot.lstHalf.trigmode = trigmodeSet ∨ c.slot.lstHalf.off = 0) := by
  have hset : Setting s := hrun.invariant (fun _ _ _ h _ hstep ↦ h.step hstep) (setting_boot ..)
  have hpair : Pairing tTrigTrigger s := pairing_run (.inl rfl) hrun
  refine ⟨hset.off_eq, fun c hc ↦ ?_⟩
  obtain ⟨hcompleted, hoff⟩ := hset.consumed c hc
  exact ⟨hpair.completed _ hcompleted rfl, Consumed.exact_iff hoff⟩

/-- Two settings, each armed before the SC half of its trigger. -/
theorem consumed_exact_iff_armedBefore : ∃ s : Driver,
    (s.event.settime.lst.off = (s.consumed.getLast?.map (·.off)).getD 0 ∧
      ∀ c ∈ s.consumed, c.slot.lstHalf.number = c.slot.lmtHalf.number ∧
        (c.Exact ↔ c.slot.lstHalf.trigmode = trigmodeSet ∨ c.slot.lstHalf.off = 0)) ∧
    s.consumed.map (·.off) = [124999997, 249999991] ∧ ∀ c ∈ s.consumed, c.Exact :=
  ⟨_, consumed_exact_iff (exec_get_steps Driver.step (InTurnAt tTrigTrigger) quiet
    [.setST ⟨1, 0⟩, .sc [externalAt 3], .mc [externalAt 3], .setST ⟨2, 0⟩, .setSCPHI 2,
      .sc [externalAt 7], .mc [externalAt 7]] (by decide +kernel)), by decide +kernel⟩

/-- The second setting is armed between the halves of its trigger: the offset of the
first is subtracted from the new one. -/
theorem consumed_not_exact : ∃ s,
    Steps Driver.step (InTurnAt tTrigTrigger) quiet
      [.setST ⟨1, 0⟩, .sc [externalAt 3], .mc [externalAt 3],
        .sc [externalAt 7], .setST ⟨2, 0⟩, .mc [externalAt 7]] s ∧
    ∃ c ∈ s.consumed, c.slot.lstHalf.number = c.slot.lmtHalf.number ∧ ¬c.Exact :=
  ⟨_, exec_get_steps _ _ _ _ (by decide +kernel), by decide +kernel⟩

end Driver

end LiberaBase
