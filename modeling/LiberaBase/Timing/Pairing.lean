import LiberaBase.Timing.Dispatch
import LiberaBase.Lib.Runs

/-!
# Pairing the two halves of a trigger

The circular buffers of the external and of the post-mortem trigger are written in
two halves: the SC handler fills the system clock half of the entry at `put`, the
MC handler fills the other half and moves on.  The halves are numbered by their
position in the hardware fifo of their clock, so an entry belongs to one physical
trigger if both of its halves carry one number.

That holds as long as the two handlers take turns at a trigger.  When a second
trigger is pending in the SC fifo, or the post-mortem buffer is thawed between the
halves of a trigger, the entry that is completed next mixes two triggers.
-/

namespace LiberaBase

open Runs

/-- The triggers whose stamps go to a circular buffer. -/
def IsPaired (i : ℕ) : Prop := i = tTrigTrigger ∨ i = tTrigPostMortem

instance (i : ℕ) : Decidable (IsPaired i) := inferInstanceAs (Decidable (_ ∨ _))

namespace Driver

variable {s t : Driver} {i j : ℕ}

/-- The handlers record the halves of trigger `i`: the post-mortem trigger is left
out while its buffer is frozen. -/
def Recording (s : Driver) (i : ℕ) : Prop := i = tTrigPostMortem → s.cfg.pmFreezed = false

instance (s : Driver) (i : ℕ) : Decidable (s.Recording i) := inferInstanceAs (Decidable (_ → _))

/-- The entry of the circular buffer that is being filled. -/
def openSlot (s : Driver) (i : ℕ) : Slot :=
  (s.event.pairedTimestamps i).stamp (s.event.pairedTimestamps i).put

/-- The entry the MC half completes. -/
def closedSlot (s : Driver) (i : ℕ) (lmt raw : HwTime) : Slot :=
  let slot := s.openSlot i
  { slot with stamp := { slot.stamp with lmt := lmt }, lmtHalf := s.mcHalf raw i }

/-! ## What the handlers do to the circular buffers -/

theorem scTrigger_paired (s : Driver) (stamp raw : HwTime) (i : ℕ) :
    (IsPaired i ∧ s.Recording i ∧ ∃ lst,
      (s.scTrigger stamp raw i).event.pairedTimestamps =
        Function.update s.event.pairedTimestamps i
          (putLSTtoCircBuf (s.event.pairedTimestamps i) lst (s.scHalf raw i))) ∨
    (¬(IsPaired i ∧ s.Recording i) ∧
      (s.scTrigger stamp raw i).event.pairedTimestamps = s.event.pairedTimestamps) := by
  have hput (value : HwTime) : (s.putSC i value raw).event.pairedTimestamps =
      s.event.pairedTimestamps := by
    rcases s.putSC_eq raw i value with h | ⟨_, -, h⟩ <;> rw [h]
  unfold scTrigger liberaSCtrigSpecific
  split_ifs with htrig hset hpre hpm hfrozen
  · exact .inl ⟨.inl htrig, fun h ↦ by simp [htrig, tTrigTrigger, tTrigPostMortem] at h, _, rfl⟩
  · exact .inl ⟨.inl htrig, fun h ↦ by simp [htrig, tTrigTrigger, tTrigPostMortem] at h, _, rfl⟩
  · refine .inr ⟨fun h ↦ ?_, hput raw⟩
    rcases h.1 with h | h
    · exact htrig h
    · simp [h, tTrigPostMortem, tTrigMCPrescaler, tTrigSCPrescaler] at hpre
  · exact .inl ⟨.inr hpm, fun _ ↦ by simpa using hfrozen, _, rfl⟩
  · exact .inr ⟨fun h ↦ by simp [h.2 hpm] at hfrozen, rfl⟩
  · refine .inr ⟨fun h ↦ ?_, hput stamp⟩
    rcases h.1 with h | h
    · exact htrig h
    · exact hpm h

/-- `t` has the circular buffers, the completed entries and the freeze of `s`. -/
structure SameRings (s t : Driver) : Prop where
  paired : t.event.pairedTimestamps = s.event.pairedTimestamps
  completed : t.completed = s.completed
  frozen : t.cfg.pmFreezed = s.cfg.pmFreezed

theorem SameRings.trans {u : Driver} (h : SameRings s t) (h' : SameRings t u) : SameRings s u :=
  ⟨h'.paired.trans h.paired, h'.completed.trans h.completed, h'.frozen.trans h.frozen⟩

theorem sameRings_sendEvent (s : Driver) (id param : U32) :
    SameRings s (s.liberaSendEvent id param) := by
  obtain ⟨_, h⟩ := s.liberaSendEvent_eq id param
  rw [h]
  exact ⟨rfl, rfl, rfl⟩

theorem sameRings_setTime (s : Driver) : SameRings s s.liberaSetTime := by
  obtain ⟨_, _, _, _, h⟩ := s.liberaSetTime_eq
  rw [h]
  exact ⟨rfl, rfl, rfl⟩

theorem sameRings_setParam (s : Driver) (idx : ℕ) (val : U32) : SameRings s (s.setParam idx val) :=
  ⟨rfl, rfl, rfl⟩

theorem sameRings_putMC (s : Driver) (i : ℕ) (value raw : HwTime) :
    SameRings s (s.putMC i value raw) := by
  rcases s.putMC_eq raw i value with h | ⟨_, -, h⟩ <;> rw [h] <;> exact ⟨rfl, rfl, rfl⟩

/-- The MC half of trigger `i` is recorded: the entry is completed, and the
post-mortem buffer is not thawed. -/
structure Completes (s t : Driver) (raw : HwTime) (i : ℕ) (lmt : HwTime) : Prop where
  paired : t.event.pairedTimestamps = Function.update s.event.pairedTimestamps i
    (putLMTtoCircBuf (s.event.pairedTimestamps i) lmt (s.mcHalf raw i))
  completed : t.completed = s.completed ++ [⟨i, s.closedSlot i lmt raw⟩]
  frozen : t.cfg.pmFreezed = false → s.cfg.pmFreezed = false

theorem completes_putLMT (s : Driver) (i : ℕ) (lmt raw : HwTime) :
    Completes s (s.putLMT i lmt raw) raw i lmt where
  paired := rfl
  completed := by simp [putLMT, putLMTtoCircBuf, closedSlot, openSlot]
  frozen := id

theorem Completes.sameRings {u : Driver} {raw lmt : HwTime} (h : Completes s t raw i lmt)
    (h' : SameRings t u) : Completes s u raw i lmt :=
  ⟨h'.paired.trans h.paired, h'.completed.trans h.completed, fun hu ↦ h.frozen (h'.frozen ▸ hu)⟩

theorem mcTrigger_paired (s : Driver) (stamp raw : HwTime) (i : ℕ) :
    (IsPaired i ∧ s.Recording i ∧ ∃ lmt, Completes s (s.mcTrigger stamp raw i) raw i lmt) ∨
    (¬(IsPaired i ∧ s.Recording i) ∧ SameRings s (s.mcTrigger stamp raw i)) := by
  have hrefl : SameRings s s := ⟨rfl, rfl, rfl⟩
  have hboth (h : i = tTrigTrigger) : IsPaired i ∧ s.Recording i :=
    ⟨.inl h, fun h' ↦ by simp [h, tTrigTrigger, tTrigPostMortem] at h'⟩
  have hneither (h : i ≠ tTrigTrigger) (h' : i ≠ tTrigPostMortem) :
      ¬(IsPaired i ∧ s.Recording i) := fun hi ↦ hi.1.elim h h'
  unfold mcTrigger liberaMCtrigSpecific
  simp only
  split_ifs with htrig hset hvalid hget hpm hfrozen hmode hpre
  · exact .inl ⟨(hboth htrig).1, (hboth htrig).2, raw,
      (completes_putLMT s i raw raw).sameRings ((sameRings_setTime _).trans
        ((sameRings_setParam _ _ _).trans (sameRings_sendEvent _ _ _)))⟩
  · simp [liberaValidTrigger] at hvalid
  · exact .inl ⟨(hboth htrig).1, (hboth htrig).2, stamp,
      (completes_putLMT s i stamp raw).sameRings (sameRings_sendEvent _ _ _)⟩
  · exact .inl ⟨(hboth htrig).1, (hboth htrig).2, stamp, completes_putLMT s i stamp raw⟩
  · have h := (completes_putLMT s i stamp raw).sameRings
      (sameRings_sendEvent _ liberaEventPM s.params.pmsize)
    exact .inl ⟨.inr hpm, fun _ ↦ by simpa using hfrozen, stamp, h.paired, h.completed,
      fun _ ↦ by simpa using hfrozen⟩
  · exact .inl ⟨.inr hpm, fun _ ↦ by simpa using hfrozen, stamp,
      (completes_putLMT s i stamp raw).sameRings (sameRings_sendEvent _ _ _)⟩
  · exact .inr ⟨fun h ↦ by simp [h.2 hpm] at hfrozen, hrefl⟩
  · exact .inr ⟨hneither htrig hpm, sameRings_putMC ..⟩
  · exact .inr ⟨hneither htrig hpm, sameRings_putMC ..⟩

/-! ## The invariant -/

/-- The invariant of trigger `i`: between its halves the open entry has its system
clock half, and every completed entry holds the two halves of one trigger. -/
structure Pairing (i : ℕ) (s : Driver) : Prop where
  waiting : s.Recording i → s.event.mcHalves i < s.event.scHalves i →
    (s.openSlot i).lstHalf.number + 1 = s.event.scHalves i
  completed : ∀ c ∈ s.completed, c.trig = i → c.slot.lstHalf.number = c.slot.lmtHalf.number

/-- The handlers take turns at trigger `i`: the SC half handled last is the one the
MC half to be handled belongs to. -/
def TakesTurn (s : Driver) (i : ℕ) : Prop :=
  s.Recording i → s.event.scHalves i = s.event.mcHalves i + 1

instance (s : Driver) (i : ℕ) : Decidable (s.TakesTurn i) :=
  inferInstanceAs (Decidable (_ → _))

theorem openSlot_congr (h : t.event.pairedTimestamps i = s.event.pairedTimestamps i) :
    t.openSlot i = s.openSlot i := by
  unfold openSlot
  rw [h]

theorem openSlot_putLST {lst : HwTime} {half : Half}
    (h : t.event.pairedTimestamps i = putLSTtoCircBuf (s.event.pairedTimestamps i) lst half) :
    t.openSlot i =
      { s.openSlot i with
        stamp := { (s.openSlot i).stamp with lst := lst }
        lstHalf := half } := by
  unfold openSlot
  rw [h]
  simp [putLSTtoCircBuf]

theorem scTrigger_paired_of_ne (s : Driver) (stamp raw : HwTime) (hij : i ≠ j) :
    (s.scTrigger stamp raw j).event.pairedTimestamps i = s.event.pairedTimestamps i := by
  rcases s.scTrigger_paired stamp raw j with ⟨-, -, lst, hq⟩ | ⟨-, hq⟩
  · rw [hq, Function.update_of_ne hij]
  · rw [hq]

theorem mcTrigger_paired_of_ne (s : Driver) (stamp raw : HwTime) (hij : i ≠ j) :
    (s.mcTrigger stamp raw j).event.pairedTimestamps i = s.event.pairedTimestamps i := by
  rcases s.mcTrigger_paired stamp raw j with ⟨-, -, lmt, hdone⟩ | ⟨-, hsame⟩
  · rw [hdone.paired, Function.update_of_ne hij]
  · rw [hsame.paired]

theorem mcTrigger_completed_of_ne (s : Driver) (stamp raw : HwTime) (hij : i ≠ j)
    {c : Completed} (hc : c ∈ (s.mcTrigger stamp raw j).completed) (htrig : c.trig = i) :
    c ∈ s.completed := by
  rcases s.mcTrigger_paired stamp raw j with ⟨-, -, lmt, hdone⟩ | ⟨-, hsame⟩
  · rw [hdone.completed, List.mem_append, List.mem_singleton] at hc
    rcases hc with hc | rfl
    · exact hc
    · exact absurd htrig.symm hij
  · exact hsame.completed ▸ hc

theorem mcTrigger_recording (s : Driver) (stamp raw : HwTime)
    (h : (s.mcTrigger stamp raw j).Recording i) : s.Recording i := by
  intro hpm
  rcases s.mcTrigger_paired stamp raw j with ⟨-, -, lmt, hdone⟩ | ⟨-, hsame⟩
  · exact hdone.frozen (h hpm)
  · exact hsame.frozen ▸ h hpm

theorem Pairing.scDispatch (h : Pairing i s) (hi : IsPaired i) (stamp raw : HwTime) (j : ℕ) :
    Pairing i (Driver.scDispatch stamp raw s j) where
  completed := by simpa using h.completed
  waiting := by
    intro hrec hlt
    replace hrec : s.Recording i := by simpa [Recording] using hrec
    rw [scDispatch_scHalves, scDispatch_mcHalves] at hlt
    rw [scDispatch_scHalves]
    by_cases hij : i = j
    · subst hij
      rcases s.scTrigger_paired stamp raw i with ⟨-, -, lst, hq⟩ | ⟨hnot, -⟩
      · have hslot := openSlot_putLST (s := s) (t := Driver.scDispatch stamp raw s i)
          ((congrFun hq i).trans (Function.update_self ..))
        rw [hslot, Function.update_self]
        rfl
      · exact absurd ⟨hi, hrec⟩ hnot
    · have hopen : (Driver.scDispatch stamp raw s j).openSlot i = s.openSlot i :=
        openSlot_congr (s.scTrigger_paired_of_ne stamp raw hij)
      rw [Function.update_of_ne hij] at hlt ⊢
      rw [hopen]
      exact h.waiting hrec hlt

theorem Pairing.mcDispatch (h : Pairing i s) (stamp raw : HwTime)
    (hturn : i = j → s.TakesTurn i) : Pairing i (Driver.mcDispatch stamp raw s j) := by
  have hrecs (hrec : (Driver.mcDispatch stamp raw s j).Recording i) : s.Recording i :=
    s.mcTrigger_recording stamp raw hrec
  by_cases hij : i = j
  · subst hij
    constructor
    · -- the trigger just handled is not between its halves any more
      intro hrec hlt
      have := hturn rfl (hrecs hrec)
      rw [mcDispatch_scHalves, mcDispatch_mcHalves, Function.update_self] at hlt
      omega
    · intro c hc htrig
      replace hc : c ∈ (s.mcTrigger stamp raw i).completed := hc
      rcases s.mcTrigger_paired stamp raw i with ⟨-, hrec, lmt, hdone⟩ | ⟨-, hsame⟩
      · rw [hdone.completed, List.mem_append, List.mem_singleton] at hc
        rcases hc with hc | rfl
        · exact h.completed c hc htrig
        · have hmine := hturn rfl hrec
          have hnumber := h.waiting hrec (by omega)
          change (s.openSlot i).lstHalf.number = s.event.mcHalves i
          omega
      · exact h.completed c (hsame.completed ▸ hc) htrig
  · constructor
    · intro hrec hlt
      rw [mcDispatch_scHalves, mcDispatch_mcHalves, Function.update_of_ne hij] at hlt
      have hopen : (Driver.mcDispatch stamp raw s j).openSlot i = s.openSlot i :=
        openSlot_congr (s.mcTrigger_paired_of_ne stamp raw hij)
      rw [hopen, mcDispatch_scHalves]
      exact h.waiting (hrecs hrec) hlt
    · intro c hc htrig
      exact h.completed c (s.mcTrigger_completed_of_ne stamp raw hij hc htrig) htrig

theorem TakesTurn.mcDispatch (h : s.TakesTurn i) (hij : i ≠ j) (stamp raw : HwTime) :
    (Driver.mcDispatch stamp raw s j).TakesTurn i := by
  intro hrec
  rw [mcDispatch_scHalves, mcDispatch_mcHalves, Function.update_of_ne hij]
  exact h (s.mcTrigger_recording stamp raw hrec)

/-! ## Entries, steps and runs -/

theorem Pairing.frame (h : Pairing i s) (hsame : SameRings s t)
    (hsc : t.event.scHalves = s.event.scHalves) (hmc : t.event.mcHalves = s.event.mcHalves) :
    Pairing i t where
  waiting := fun hrec hlt ↦ by
    rw [openSlot_congr (congrFun hsame.paired i), hsc]
    exact h.waiting (fun hpm ↦ hsame.frozen ▸ hrec hpm) (by rwa [hsc, hmc] at hlt)
  completed := fun c hc ↦ h.completed c (hsame.completed ▸ hc)

theorem Pairing.scEntry {e : FifoEntry} (h : Pairing i s) (hi : IsPaired i)
    (hstep : s.scEntry e = some t) : Pairing i t := by
  obtain rfl := Option.some.inj ((scEntry_eq s e).symm.trans hstep)
  refine foldl_invariant (fun u j _ hu ↦ hu.scDispatch hi _ _ j) ?_
  obtain ⟨time, heq⟩ := s.scSelfInc_eq e.tl
  rw [heq]
  exact h.frame ⟨rfl, rfl, rfl⟩ rfl rfl

/-- If trigger `i` is in the entry, it takes its turn. -/
def EntryTakesTurn (i : ℕ) (s : Driver) (e : FifoEntry) : Prop :=
  i ∈ trigBits e.tl → s.TakesTurn i

instance (i : ℕ) (s : Driver) (e : FifoEntry) : Decidable (EntryTakesTurn i s e) :=
  inferInstanceAs (Decidable (_ → _))

theorem Pairing.mcEntry {e : FifoEntry} (h : Pairing i s) (hturn : EntryTakesTurn i s e)
    (hstep : s.mcEntry e = some t) : Pairing i t := by
  obtain rfl := Option.some.inj ((mcEntry_eq s e).symm.trans hstep)
  refine foldl_each (fun u j ↦ i = j → u.TakesTurn i) (nodup_trigBits e.tl)
    (fun u j hu hok ↦ hu.mcDispatch _ _ hok) (fun u j k hkj hok hik ↦ ?_) ?_ ?_
  · exact (hok hik).mcDispatch (hik ▸ hkj) _ _
  · obtain ⟨time, writes, heq⟩ := s.mcSelfInc_eq e.tl
    rw [heq]
    exact h.frame ⟨rfl, rfl, rfl⟩ rfl rfl
  · rintro j hj rfl
    obtain ⟨time, writes, heq⟩ := s.mcSelfInc_eq e.tl
    rw [heq]
    exact hturn hj

/-- A configuration request thaws the post-mortem buffer between two post-mortem
triggers, not between the halves of one. -/
def ThawsBetween (s : Driver) (req : CfgRequest) : Prop :=
  s.thaws req → s.cfg.pmFreezed = true →
    s.event.scHalves tTrigPostMortem ≤ s.event.mcHalves tTrigPostMortem

instance (s : Driver) (req : CfgRequest) : Decidable (s.ThawsBetween req) :=
  inferInstanceAs (Decidable (_ → _ → _))

theorem Pairing.requested {req : CfgRequest} (h : Pairing i s)
    (hok : i = tTrigPostMortem → s.ThawsBetween req)
    (hreq : Requested s t (if s.thaws req then false else s.cfg.pmFreezed)) : Pairing i t := by
  obtain ⟨param, writes, events, rfl⟩ := hreq
  constructor
  · intro hrec hlt
    refine h.waiting (fun hpm ↦ ?_) hlt
    subst hpm
    by_contra hfrozen
    rw [Bool.not_eq_false] at hfrozen
    have hthaws : s.thaws req := by
      by_contra hnot
      have := hrec rfl
      simp [hnot, hfrozen] at this
    exact absurd (hok rfl hthaws hfrozen) (by simpa using hlt)
  · exact h.completed

/-- What a step has to meet for trigger `i`. -/
def InTurnAt (i : ℕ) (s : Driver) : Timing → Prop
  | .mc es => DrainOk Driver.mcEntry (EntryTakesTurn i) s es
  | .setCfg _ req => i = tTrigPostMortem → s.ThawsBetween req
  | _ => True

instance (i : ℕ) (s : Driver) : (l : Timing) → Decidable (InTurnAt i s l)
  | .mc es => inferInstanceAs (Decidable (DrainOk _ _ s es))
  | .setCfg _ _ => inferInstanceAs (Decidable (_ → _))
  | .sc _ => isTrue trivial
  | .setST _ => isTrue trivial
  | .setMT _ _ => isTrue trivial
  | .setSCPHI _ => isTrue trivial
  | .setMCPHI _ => isTrue trivial

theorem Pairing.step {l : Timing} (h : Pairing i s) (hi : IsPaired i) (hok : InTurnAt i s l)
    (hstep : s.step l = some t) : Pairing i t := by
  rcases step_cases hstep with ⟨es, rfl, hes⟩ | ⟨es, rfl, hes⟩ | harmed | ⟨readl, req, rfl, hreq⟩
  · exact drain_invariant (fun _ _ _ hu _ hent ↦ hu.scEntry hi hent) h (drainOk_true _ s es) hes
  · exact drain_invariant (fun _ _ _ hu hoke hent ↦ hu.mcEntry hoke hent) h hok hes
  · obtain ⟨_, _, _, _, _, _, rfl⟩ := harmed
    exact h.frame ⟨rfl, rfl, rfl⟩ rfl rfl
  · exact h.requested hok hreq

theorem pairing_run {param : ℕ → U32} {lgbl : Global} {params : ModuleParams} {ls : List Timing}
    (hi : IsPaired i) (hrun : Steps Driver.step (InTurnAt i) (boot param lgbl params) ls s) :
    Pairing i s :=
  hrun.invariant (fun _ _ _ h hok hstep ↦ h.step hi hok hstep)
    ⟨fun _ hlt ↦ absurd hlt (lt_irrefl 0), fun _ hc ↦ absurd hc List.not_mem_nil⟩

/-- The condition on a step: the MC handler finds the halves of each recorded
trigger in turn, and the post-mortem buffer is thawed between two triggers. -/
def InTurn (s : Driver) (l : Timing) : Prop := ∀ i, IsPaired i → InTurnAt i s l

instance (s : Driver) (l : Timing) : Decidable (s.InTurn l) :=
  decidable_of_iff (InTurnAt tTrigTrigger s l ∧ InTurnAt tTrigPostMortem s l)
    ⟨fun h _ hi ↦ hi.elim (fun heq ↦ heq ▸ h.1) fun heq ↦ heq ▸ h.2,
      fun h ↦ ⟨h _ (.inl rfl), h _ (.inr rfl)⟩⟩

/-- **Completed entries are paired.**  While the handlers find the halves of each
trigger in turn, every completed entry holds the two stamps of one trigger. -/
theorem completed_paired {param : ℕ → U32} {lgbl : Global} {params : ModuleParams}
    {ls : List Timing} (hrun : Steps Driver.step InTurn (boot param lgbl params) ls s) :
    ∀ i, IsPaired i → ∀ c ∈ s.completed, c.trig = i →
      c.slot.lstHalf.number = c.slot.lmtHalf.number :=
  fun _ hi ↦ (pairing_run hi (hrun.mono fun _ _ h ↦ h _ hi)).completed

/-! ## Fixed runs -/

def quiet : Driver := boot (fun _ ↦ 0) ⟨0, 0, 1, 1, 0⟩ ⟨0, 0, 0xffff, 0⟩

def externalAt (th : U32) : FifoEntry := ⟨0x40000001, th⟩

def postMortemAt (th : U32) : FifoEntry := ⟨0x20000001, th⟩

theorem completed_paired_inTurn : ∃ s : Driver,
    (∀ i, IsPaired i → ∀ c ∈ s.completed, c.trig = i →
      c.slot.lstHalf.number = c.slot.lmtHalf.number) ∧
      s.completed.map (·.trig) = [8, 7, 8] :=
  ⟨_, completed_paired (exec_get_steps Driver.step InTurn quiet
    [.sc [externalAt 1], .mc [externalAt 1], .sc [postMortemAt 2, externalAt 3], .setST ⟨1, 0⟩,
      .mc [postMortemAt 2, externalAt 3]] (by decide +kernel)), by decide +kernel⟩

/-- Two external triggers are pending when the interrupt is served: the SC half of
the second overwrites that of the first, whose entry then mixes the two. -/
theorem completed_not_paired : ∃ s,
    Steps Driver.step anyStep quiet
      [.sc [externalAt 1, externalAt 2], .mc [externalAt 1, externalAt 2]] s ∧
    ∃ c ∈ s.completed, c.trig = tTrigTrigger ∧
      c.slot.lstHalf.number ≠ c.slot.lmtHalf.number :=
  ⟨_, exec_get_steps _ _ _ _ (by decide +kernel), by decide +kernel⟩

/-- The post-mortem buffer is thawed between the halves of the second trigger. -/
example : ∃ s,
    Steps Driver.step anyStep quiet
      [.setCfg (fun _ ↦ 0) ⟨141, 1⟩, .sc [postMortemAt 1], .mc [postMortemAt 1],
        .sc [postMortemAt 2], .setCfg (fun _ ↦ 0) ⟨147, 0⟩, .mc [postMortemAt 2]] s ∧
    ∃ c ∈ s.completed, c.slot.lstHalf.number ≠ c.slot.lmtHalf.number :=
  ⟨_, exec_get_steps _ _ _ _ (by decide +kernel), by decide +kernel⟩

end Driver

end LiberaBase
