import LiberaBase.Timing.Dispatch
import LiberaBase.Lib.Runs
import Mathlib.Data.List.Induction

/-!
# Reconstruction of the 64-bit stamps

The FPGA delivers the low 26 bits of a 64-bit counter and flags the first entry
of every period of `2 ^ 26`.  Counting the flags recovers the upper bits, for
every stream of entries and however it is split over handler calls.
-/

namespace LiberaBase

open Runs

/-! ## The streams the timing module delivers -/

structure TimedEntry where
  entry : FifoEntry
  counter : ℕ

def TimedEntry.selfInc (e : TimedEntry) : Bool := LiberaBase.selfInc e.entry.tl

/-- What the driver relies on: the entries come in time order, each with the low
26 bits of its counter value, and a flagged entry occurs exactly at each multiple
of `2 ^ 26`, as the first entry of its period.  Counting starts in period 0. -/
structure TimingStream (es : List TimedEntry) : Prop where
  sized : ∀ e ∈ es, tFifoSize e.entry.tl ≠ 0
  low26 : ∀ e ∈ es, (e.entry.th &&& 0x03FFFFFF#32).toNat = e.counter % 2 ^ 26
  ordered : es.Pairwise fun a b ↦ a.counter ≤ b.counter
  flagged : ∀ pre e post, es = pre ++ e :: post → e.selfInc = true →
    0 < e.counter ∧ 2 ^ 26 ∣ e.counter ∧ ∀ a ∈ pre, a.counter < e.counter
  opened : ∀ pre e post, es = pre ++ e :: post → ∀ q, 0 < q → q * 2 ^ 26 ≤ e.counter →
    ∃ a ∈ pre ++ [e], a.selfInc = true ∧ a.counter = q * 2 ^ 26

theorem TimingStream.of_append {es fs : List TimedEntry} (h : TimingStream (es ++ fs)) :
    TimingStream es where
  sized := fun e he ↦ h.sized e (List.mem_append_left _ he)
  low26 := fun e he ↦ h.low26 e (List.mem_append_left _ he)
  ordered := (List.pairwise_append.mp h.ordered).1
  flagged := fun pre e post heq ↦ h.flagged pre e (post ++ fs) (by simp [heq])
  opened := fun pre e post heq ↦ h.opened pre e (post ++ fs) (by simp [heq])

theorem TimingStream.nil : TimingStream [] where
  sized := by simp
  low26 := by simp
  ordered := .nil
  flagged := by simp
  opened := by simp

theorem concat_eq_split {es pre post : List TimedEntry} {e a : TimedEntry}
    (h : es ++ [e] = pre ++ a :: post) : (pre = es ∧ a = e) ∨ ∃ post', es = pre ++ a :: post' := by
  rcases List.eq_nil_or_concat' post with rfl | ⟨post', b, rfl⟩
  · obtain ⟨hpre, ha⟩ := List.append_inj' h rfl
    exact .inl ⟨hpre.symm, (List.singleton_inj.mp ha).symm⟩
  · rw [← List.cons_append, ← List.append_assoc] at h
    exact .inr ⟨post', (List.append_inj' h rfl).1⟩

theorem TimingStream.concat {es : List TimedEntry} {e : TimedEntry} (h : TimingStream es)
    (hsized : tFifoSize e.entry.tl ≠ 0)
    (hlow : (e.entry.th &&& 0x03FFFFFF#32).toNat = e.counter % 2 ^ 26)
    (hle : ∀ a ∈ es, a.counter ≤ e.counter)
    (hflagged : e.selfInc = true →
      0 < e.counter ∧ 2 ^ 26 ∣ e.counter ∧ ∀ a ∈ es, a.counter < e.counter)
    (hopened : ∀ q, 0 < q → q * 2 ^ 26 ≤ e.counter →
      ∃ a ∈ es ++ [e], a.selfInc = true ∧ a.counter = q * 2 ^ 26) :
    TimingStream (es ++ [e]) where
  sized := List.forall_mem_append.mpr ⟨h.sized, by simpa using hsized⟩
  low26 := List.forall_mem_append.mpr ⟨h.low26, by simpa using hlow⟩
  ordered := List.pairwise_append.mpr ⟨h.ordered, List.pairwise_singleton _ _, by simpa using hle⟩
  flagged := fun pre a post heq ↦ by
    rcases concat_eq_split heq with ⟨rfl, rfl⟩ | ⟨post', hes⟩
    · exact hflagged
    · exact h.flagged pre a post' hes
  opened := fun pre a post heq ↦ by
    rcases concat_eq_split heq with ⟨rfl, rfl⟩ | ⟨post', hes⟩
    · exact hopened
    · exact h.opened pre a post' hes

/-- The number of periods the entries have opened. -/
def periods (es : List TimedEntry) : ℕ := es.countP TimedEntry.selfInc

theorem periods_concat (es : List TimedEntry) (e : TimedEntry) :
    periods (es ++ [e]) = periods es + if e.selfInc = true then 1 else 0 := by
  simp [periods, List.countP_append, List.countP_singleton]

/-- The entries seen so far end in the period counted so far. -/
structure InPeriod (es : List TimedEntry) (p : ℕ) : Prop where
  below : ∀ a ∈ es, a.counter < (p + 1) * 2 ^ 26
  reached : p = 0 ∨ ∃ a ∈ es, p * 2 ^ 26 ≤ a.counter

theorem InPeriod.next {es : List TimedEntry} {e : TimedEntry} {p : ℕ} (h : InPeriod es p)
    (hs : TimingStream (es ++ [e])) :
    e.counter / 2 ^ 26 = p + if e.selfInc = true then 1 else 0 := by
  have hle : ∀ a ∈ es, a.counter ≤ e.counter := fun a ha ↦
    (List.pairwise_append.mp hs.ordered).2.2 a ha e (List.mem_singleton_self e)
  have hp : p * 2 ^ 26 ≤ e.counter := by
    rcases h.reached with rfl | ⟨a, ha, hpa⟩
    · omega
    · exact hpa.trans (hle a ha)
  -- a period beyond the next one would have been opened by an entry not seen
  have hopened : ∀ q, p < q → q * 2 ^ 26 ≤ e.counter → e.selfInc = true ∧ e.counter = q * 2 ^ 26 := by
    intro q hq hqe
    obtain ⟨a, ha, hinc, hcount⟩ := hs.opened es e [] rfl q (by omega) hqe
    rcases List.mem_append.mp ha with ha | ha
    · have := h.below a ha
      omega
    · obtain rfl := List.mem_singleton.mp ha
      exact ⟨hinc, hcount⟩
  split_ifs with hinc
  · obtain ⟨hpos, ⟨q, hq⟩, hbefore⟩ := hs.flagged es e [] rfl hinc
    have hpq : p < q := by
      rcases h.reached with rfl | ⟨a, ha, hpa⟩
      · omega
      · have := hbefore a ha
        omega
    have hge : (p + 1) * 2 ^ 26 ≤ e.counter := by
      rw [hq, Nat.mul_comm]
      exact Nat.mul_le_mul_left _ hpq
    have := (hopened (p + 1) p.lt_succ_self hge).2
    omega
  · have hlt : e.counter < (p + 1) * 2 ^ 26 := by
      by_contra hlt
      exact hinc (hopened (p + 1) p.lt_succ_self (Nat.le_of_not_lt hlt)).1
    omega

theorem InPeriod.concat {es : List TimedEntry} {e : TimedEntry} {p : ℕ}
    (hle : ∀ a ∈ es, a.counter ≤ e.counter) (he : e.counter / 2 ^ 26 = p) :
    InPeriod (es ++ [e]) p where
  below := by
    intro a ha
    rcases List.mem_append.mp ha with ha | ha
    · have := hle a ha
      omega
    · obtain rfl := List.mem_singleton.mp ha
      omega
  reached := .inr ⟨e, by simp, by omega⟩

theorem inPeriod_periods {es : List TimedEntry} (hs : TimingStream es) :
    InPeriod es (periods es) := by
  induction es using List.reverseRecOn with
  | nil => exact ⟨by simp, .inl rfl⟩
  | append_singleton es e ih =>
      have hnext := (ih hs.of_append).next hs
      rw [periods_concat]
      exact .concat (fun a ha ↦ (List.pairwise_append.mp hs.ordered).2.2 a ha e (by simp)) hnext

/-- **The flags count the periods.** -/
theorem periods_eq {es : List TimedEntry} {e : TimedEntry} (hs : TimingStream (es ++ [e])) :
    periods (es ++ [e]) = e.counter / 2 ^ 26 := by
  rw [periods_concat, (inPeriod_periods hs.of_append).next hs]

theorem stampRaw_eq {th : U32} {c : ℕ} (hlow : (th &&& 0x03FFFFFF#32).toNat = c % 2 ^ 26) :
    stampRaw (BitVec.ofNat 64 (c / 2 ^ 26 * 2 ^ 26)) th = BitVec.ofNat 64 c := by
  have hmask : ∀ j < 64, (0xFFFFFFFFFC000000#64).getLsbD j = decide (26 ≤ j) := by decide
  have hbits (j : ℕ) : (th &&& 0x03FFFFFF#32).getLsbD j = (decide (j < 26) && c.testBit j) := by
    rw [BitVec.getLsbD, hlow, Nat.testBit_mod_two_pow]
  refine BitVec.eq_of_getLsbD_eq fun j hj ↦ ?_
  have hhigh : (c / 2 ^ 26 * 2 ^ 26).testBit j = (decide (26 ≤ j) && c.testBit j) := by
    rw [← Nat.shiftRight_eq_div_pow, ← Nat.shiftLeft_eq, Nat.testBit_shiftLeft,
      Nat.testBit_shiftRight]
    by_cases h26 : 26 ≤ j
    · simp [h26, show 26 + (j - 26) = j by omega]
    · simp [h26]
  simp only [stampRaw, U32.toHw, BitVec.getLsbD_or, BitVec.getLsbD_and, BitVec.getLsbD_setWidth,
    hbits, BitVec.getLsbD_ofNat, hhigh, hmask j hj, hj, decide_true, Bool.true_and]
  by_cases h26 : 26 ≤ j
  · simp [h26]
  · simp [h26, show j < 26 by omega]

/-! ## One clock of the driver -/

namespace Driver

def time (c : Clock) (s : Driver) : HwTime :=
  match c with
  | .sc => s.event.scTime
  | .mc => s.event.mcTime

def entry (c : Clock) : Driver → FifoEntry → Option Driver :=
  match c with
  | .sc => scEntry
  | .mc => mcEntry

def handler (c : Clock) (s : Driver) (es : List FifoEntry) : Option Driver := drain (entry c) s es

def dispatchedOf (c : Clock) (s : Driver) : List Dispatch :=
  s.dispatched.filter fun d ↦ d.clock = c

variable {s t : Driver} {c c' : Clock} {e : FifoEntry}

theorem foldl_scDispatch_dispatched (stamp raw : HwTime) (is : List ℕ) (s : Driver) :
    (is.foldl (scDispatch stamp raw) s).dispatched =
      s.dispatched ++ is.map fun i ↦ ⟨.sc, i, raw⟩ := by
  induction is generalizing s with
  | nil => simp
  | cons i is ih => rw [List.foldl_cons, ih, scDispatch_dispatched, List.append_assoc]; rfl

theorem foldl_mcDispatch_dispatched (stamp raw : HwTime) (is : List ℕ) (s : Driver) :
    (is.foldl (mcDispatch stamp raw) s).dispatched =
      s.dispatched ++ is.map fun i ↦ ⟨.mc, i, raw⟩ := by
  induction is generalizing s with
  | nil => simp
  | cons i is ih => rw [List.foldl_cons, ih, mcDispatch_dispatched, List.append_assoc]; rfl

/-- The time an entry leaves behind: one period more if it is flagged. -/
def advanced (time : HwTime) (tl : U32) : HwTime :=
  if selfInc tl then time + selfIncPeriod else time

theorem scSelfInc_time (s : Driver) (tl : U32) :
    (s.scSelfInc tl).event.scTime = advanced s.event.scTime tl ∧
      (s.scSelfInc tl).event.mcTime = s.event.mcTime ∧
      (s.scSelfInc tl).dispatched = s.dispatched ∧ (s.scSelfInc tl).accepted = s.accepted := by
  cases h : selfInc tl <;> simp [scSelfInc, advanced, h]

theorem mcSelfInc_time (s : Driver) (tl : U32) :
    (s.mcSelfInc tl).event.mcTime = advanced s.event.mcTime tl ∧
      (s.mcSelfInc tl).event.scTime = s.event.scTime ∧
      (s.mcSelfInc tl).dispatched = s.dispatched ∧ (s.mcSelfInc tl).accepted = s.accepted := by
  obtain ⟨writes, heq⟩ := liberaMcSelfincSpecific_eq
    { s with event := { s.event with mcTime := s.event.mcTime + selfIncPeriod } }
  cases h : selfInc tl <;> simp [mcSelfInc, advanced, h, heq]

theorem entry_clock (h : entry c s e = some t) :
    time c t = advanced (time c s) e.tl ∧
      dispatchedOf c t = dispatchedOf c s ++
        (trigBits e.tl).map fun i ↦ ⟨c, i, stampRaw (advanced (time c s) e.tl) e.th⟩ := by
  cases c with
  | sc =>
      obtain ⟨htime, -, hdisp, -⟩ := scSelfInc_time s e.tl
      obtain rfl := Option.some.inj ((scEntry_eq s e).symm.trans h)
      constructor
      · exact (foldl_field (f := fun s ↦ s.event.scTime) (by simp) _ _).trans htime
      · rw [dispatchedOf, foldl_scDispatch_dispatched, hdisp, scRaw, htime, List.filter_append]
        exact congrArg (dispatchedOf .sc s ++ ·) (List.filter_eq_self.mpr (by simp))
  | mc =>
      obtain ⟨htime, -, hdisp, -⟩ := mcSelfInc_time s e.tl
      obtain rfl := Option.some.inj ((mcEntry_eq s e).symm.trans h)
      constructor
      · exact (foldl_field (f := fun s ↦ s.event.mcTime) (by simp) _ _).trans htime
      · rw [dispatchedOf, foldl_mcDispatch_dispatched, hdisp, mcRaw, htime, List.filter_append]
        exact congrArg (dispatchedOf .mc s ++ ·) (List.filter_eq_self.mpr (by simp))

theorem entry_other_clock (h : entry c s e = some t) (hne : c' ≠ c) :
    time c' t = time c' s ∧ dispatchedOf c' t = dispatchedOf c' s := by
  cases c with
  | sc =>
      obtain rfl : c' = .mc := by cases c' <;> simp_all
      obtain ⟨-, htime, hdisp, -⟩ := scSelfInc_time s e.tl
      obtain rfl := Option.some.inj ((scEntry_eq s e).symm.trans h)
      constructor
      · exact (foldl_field (f := fun s ↦ s.event.mcTime) (by simp) _ _).trans htime
      · rw [dispatchedOf, foldl_scDispatch_dispatched, hdisp, List.filter_append]
        simp [dispatchedOf]
  | mc =>
      obtain rfl : c' = .sc := by cases c' <;> simp_all
      obtain ⟨-, htime, hdisp, -⟩ := mcSelfInc_time s e.tl
      obtain rfl := Option.some.inj ((mcEntry_eq s e).symm.trans h)
      constructor
      · exact (foldl_field (f := fun s ↦ s.event.scTime) (by simp) _ _).trans htime
      · rw [dispatchedOf, foldl_mcDispatch_dispatched, hdisp, List.filter_append]
        simp [dispatchedOf]

/-- The dispatches of an entry: each set bit once, in ascending order, with the
counter value of the entry. -/
def dispatches (c : Clock) (e : TimedEntry) : List Dispatch :=
  (trigBits e.entry.tl).map fun i ↦ ⟨c, i, BitVec.ofNat 64 e.counter⟩

/-- The clock has handled exactly the entries `es` of its stream. -/
structure Follows (c : Clock) (es : List TimedEntry) (s : Driver) : Prop where
  time_eq : time c s = BitVec.ofNat 64 (periods es * 2 ^ 26)
  dispatched_eq : dispatchedOf c s = es.flatMap (dispatches c)

theorem advanced_periods (es : List TimedEntry) (e : TimedEntry) :
    advanced (BitVec.ofNat 64 (periods es * 2 ^ 26)) e.entry.tl =
      BitVec.ofNat 64 (periods (es ++ [e]) * 2 ^ 26) := by
  have hperiod : selfIncPeriod = BitVec.ofNat 64 (2 ^ 26) := by decide
  rw [periods_concat, advanced, TimedEntry.selfInc]
  split_ifs
  · rw [hperiod, Nat.add_mul, Nat.one_mul, BitVec.ofNat_add]
  · rw [Nat.add_zero]

theorem Follows.entry {es : List TimedEntry} {e : TimedEntry} (h : Follows c es s)
    (hs : TimingStream (es ++ [e])) (hstep : Driver.entry c s e.entry = some t) :
    Follows c (es ++ [e]) t := by
  obtain ⟨htime, hdisp⟩ := entry_clock hstep
  rw [h.time_eq, advanced_periods] at htime hdisp
  refine ⟨htime, ?_⟩
  have hraw := stampRaw_eq (hs.low26 e (by simp))
  rw [← periods_eq hs] at hraw
  rw [hdisp, hraw, h.dispatched_eq, List.flatMap_append, List.flatMap_singleton]
  rfl

theorem Follows.handler {es fs : List TimedEntry} (h : Follows c es s)
    (hs : TimingStream (es ++ fs)) (hstep : s.handler c (fs.map (·.entry)) = some t) :
    Follows c (es ++ fs) t := by
  induction fs generalizing es s with
  | nil =>
      obtain rfl := Option.some.inj hstep
      simpa using h
  | cons f fs ih =>
      have hassoc : es ++ f :: fs = (es ++ [f]) ++ fs := by simp
      rw [hassoc] at hs ⊢
      have hsize : tFifoSize f.entry.tl ≠ 0 := hs.sized f (by simp)
      rw [Driver.handler, List.map_cons, drain, if_pos hsize] at hstep
      obtain ⟨s', hs', hrest⟩ := Option.bind_eq_some_iff.mp hstep
      exact ih (h.entry hs.of_append hs') hs hrest

theorem handler_other_clock {es : List FifoEntry} (hne : c' ≠ c)
    (hstep : s.handler c es = some t) :
    time c' t = time c' s ∧ dispatchedOf c' t = dispatchedOf c' s := by
  refine drain_invariant (P := fun t ↦ time c' t = time c' s ∧ dispatchedOf c' t = dispatchedOf c' s)
    (fun u e u' hu _ hent ↦ ?_) ⟨rfl, rfl⟩ (drainOk_true _ _ _) hstep
  obtain ⟨h₁, h₂⟩ := entry_other_clock hent hne
  exact ⟨h₁.trans hu.1, h₂.trans hu.2⟩

def handling (c : Clock) (es : List FifoEntry) : Timing :=
  match c with
  | .sc => .sc es
  | .mc => .mc es

theorem step_clocks {l : Timing} (hstep : s.step l = some t) :
    (∃ c es, l = handling c es ∧ s.handler c es = some t) ∨
    (∀ c, time c t = time c s) ∧ t.dispatched = s.dispatched ∧ t.accepted = s.accepted := by
  rcases step_cases hstep with ⟨es, rfl, hes⟩ | ⟨es, rfl, hes⟩ | harmed | ⟨readl, req, rfl, hreq⟩
  · exact .inl ⟨.sc, es, rfl, hes⟩
  · exact .inl ⟨.mc, es, rfl, hes⟩
  · obtain ⟨_, _, _, _, _, _, rfl⟩ := harmed
    exact .inr ⟨fun c ↦ by cases c <;> rfl, rfl, rfl⟩
  · obtain ⟨_, _, _, rfl⟩ := hreq
    exact .inr ⟨fun c ↦ by cases c <;> rfl, rfl, rfl⟩

/-- The entries a step drains from the fifo of one clock. -/
def drained (c : Clock) : Timing → List FifoEntry
  | .sc es => if c = .sc then es else []
  | .mc es => if c = .mc then es else []
  | _ => []

/-- The entries the handler calls of a run drain from the fifo of one clock. -/
def entriesOf (c : Clock) (ls : List Timing) : List FifoEntry := ls.flatMap (drained c)

theorem Follows.frame {es : List TimedEntry} (h : Follows c es s) (htime : time c t = time c s)
    (hdisp : dispatchedOf c t = dispatchedOf c s) : Follows c es t :=
  ⟨htime.trans h.time_eq, hdisp.trans h.dispatched_eq⟩

theorem drained_handling (c c' : Clock) (es : List FifoEntry) :
    drained c (handling c' es) = if c = c' then es else [] := by
  cases c <;> cases c' <;> rfl

theorem drained_eq_nil {l : Timing} (h : ∀ c es, l ≠ handling c es) : drained c l = [] := by
  cases l with
  | sc es => exact absurd rfl (h .sc es)
  | mc es => exact absurd rfl (h .mc es)
  | _ => rfl

/-- One step follows the stream by the entries it drains. -/
theorem Follows.step {l : Timing} {es fs : List TimedEntry} (h : Follows c es s)
    (hs : TimingStream (es ++ fs)) (hl : drained c l = fs.map (·.entry))
    (hstep : s.step l = some t) : Follows c (es ++ fs) t := by
  by_cases hhandler : ∃ c' es', l = handling c' es'
  · obtain ⟨c', es', rfl⟩ := hhandler
    rw [drained_handling] at hl
    have hes : s.handler c' es' = some t := by cases c' <;> exact hstep
    split_ifs at hl with hc
    · subst hc hl
      exact h.handler hs hes
    · obtain rfl := List.map_eq_nil_iff.mp hl.symm
      rw [List.append_nil]
      obtain ⟨htime, hdisp⟩ := handler_other_clock hc hes
      exact h.frame htime hdisp
  · have hne : ∀ c' es', l ≠ handling c' es' := fun c' es' heq ↦ hhandler ⟨c', es', heq⟩
    obtain rfl := List.map_eq_nil_iff.mp (hl.symm.trans (drained_eq_nil hne))
    rw [List.append_nil]
    rcases step_clocks hstep with ⟨c', es', heq, -⟩ | ⟨htime, hdisp, -⟩
    · exact absurd heq (hne c' es')
    · exact h.frame (htime c) (by rw [dispatchedOf, dispatchedOf, hdisp])

/-- A run follows the stream of each clock, however the stream is split over the
handler calls and whatever else happens in between. -/
theorem Follows.run {ls : List Timing} {es fs : List TimedEntry} (h : Follows c es s)
    (hs : TimingStream (es ++ fs)) (hls : entriesOf c ls = fs.map (·.entry))
    (hrun : Steps Driver.step anyStep s ls t) : Follows c (es ++ fs) t := by
  induction hrun generalizing es fs with
  | nil s =>
      obtain rfl : fs = [] := List.map_eq_nil_iff.mp hls.symm
      simpa using h
  | @cons s s' t l ls _ hstep _ ih =>
      rw [entriesOf, List.flatMap_cons] at hls
      obtain ⟨fs₁, fs₂, rfl, hl, hrest⟩ := List.map_eq_append_iff.mp hls.symm
      rw [← List.append_assoc] at hs ⊢
      exact ih (h.step hs.of_append hl.symm hstep) hs hrest.symm

theorem follows_boot (c : Clock) (param : ℕ → U32) (lgbl : Global) (params : ModuleParams) :
    Follows c [] (boot param lgbl params) where
  time_eq := by cases c <;> rfl
  dispatched_eq := rfl

/-! ## What the fifos accept -/

/-- The value the trigger number calls for: the prescalers of the SC side stay raw,
the MC prescaler of the MC side only loses the PLL offset. -/
def calledFor (c : Clock) (i : ℕ) (raw : HwTime) (settime : Settime) : HwTime :=
  match c with
  | .sc =>
    if i = tTrigMCPrescaler ∨ i = tTrigSCPrescaler then raw else raw + settime.lst.off
  | .mc => if i = tTrigMCPrescaler then raw - settime.lmt.offPll else raw + settime.lmt.off

/-- Every accepted fifo entry is the stamp of a dispatch with its offset. -/
def Tagged (s : Driver) : Prop :=
  ∀ a ∈ s.accepted, a.value = calledFor a.clock a.trig a.raw a.settime ∧
    ⟨a.clock, a.trig, a.raw⟩ ∈ s.dispatched

theorem Tagged.dispatch (h : Tagged s) {i : ℕ} {raw : HwTime}
    (hacc : t.accepted = s.accepted ∨
      t.accepted = s.accepted ++
        [⟨c, i, calledFor c i raw s.event.settime, raw, s.event.settime⟩])
    (hdisp : t.dispatched = s.dispatched ++ [⟨c, i, raw⟩]) : Tagged t := by
  intro a ha
  rw [hdisp]
  have hold (ha : a ∈ s.accepted) : a.value = calledFor a.clock a.trig a.raw a.settime ∧
      ⟨a.clock, a.trig, a.raw⟩ ∈ s.dispatched ++ [⟨c, i, raw⟩] :=
    ⟨(h a ha).1, List.mem_append_left _ (h a ha).2⟩
  rcases hacc with hacc | hacc
  · exact hold (hacc ▸ ha)
  · rw [hacc, List.mem_append, List.mem_singleton] at ha
    rcases ha with ha | rfl
    · exact hold ha
    · exact ⟨rfl, List.mem_append_right _ (List.mem_singleton_self _)⟩

theorem putSC_accepted (s : Driver) (i : ℕ) (value raw : HwTime) :
    (s.putSC i value raw).accepted = s.accepted ∨
      (s.putSC i value raw).accepted =
        s.accepted ++ [⟨.sc, i, value, raw, s.event.settime⟩] := by
  rcases s.putSC_eq raw i value with h | ⟨q, -, h⟩
  · exact .inl (by rw [h])
  · exact .inr (by rw [h])

theorem putMC_accepted (s : Driver) (i : ℕ) (value raw : HwTime) :
    (s.putMC i value raw).accepted = s.accepted ∨
      (s.putMC i value raw).accepted =
        s.accepted ++ [⟨.mc, i, value, raw, s.event.settime⟩] := by
  rcases s.putMC_eq raw i value with h | ⟨q, -, h⟩
  · exact .inl (by rw [h])
  · exact .inr (by rw [h])

theorem Tagged.scDispatch (h : Tagged s) (raw : HwTime) (i : ℕ) :
    Tagged (Driver.scDispatch (raw + s.event.settime.lst.off) raw s i) := by
  refine h.dispatch (c := .sc) ?_ (scDispatch_dispatched s _ raw i)
  change (s.scTrigger _ raw i).accepted = _ ∨ (s.scTrigger _ raw i).accepted = _
  unfold scTrigger liberaSCtrigSpecific
  split_ifs with _ _ hpre
  · exact .inl rfl
  · exact .inl rfl
  · simpa only [calledFor, if_pos hpre] using s.putSC_accepted i raw raw
  · exact .inl rfl
  · exact .inl rfl
  · simpa only [calledFor, if_neg hpre] using
      s.putSC_accepted i (raw + s.event.settime.lst.off) raw

theorem mcDispatch_trigger_accepted (s : Driver) (stamp raw : HwTime) :
    (Driver.mcDispatch stamp raw s tTrigTrigger).accepted = s.accepted := by
  have hsend (t : Driver) (id param : U32) : (t.liberaSendEvent id param).accepted = t.accepted := by
    obtain ⟨_, h⟩ := t.liberaSendEvent_eq id param
    rw [h]
  have hset (t : Driver) : t.liberaSetTime.accepted = t.accepted := by
    obtain ⟨_, _, _, _, h⟩ := t.liberaSetTime_eq
    rw [h]
  change (s.mcTrigger stamp raw tTrigTrigger).accepted = _
  unfold mcTrigger
  simp only [if_true]
  split_ifs
  · rw [hsend]
    exact hset _
  · rfl
  · rw [hsend]
    rfl
  · rfl

theorem Tagged.mcDispatch (h : Tagged s) {stamp raw : HwTime} {i : ℕ}
    (hstamp : i ≠ tTrigTrigger → stamp = raw + s.event.settime.lmt.off) :
    Tagged (Driver.mcDispatch stamp raw s i) := by
  refine h.dispatch (c := .mc) ?_ (mcDispatch_dispatched s _ raw i)
  by_cases hi : i = tTrigTrigger
  · subst hi
    exact .inl (mcDispatch_trigger_accepted s stamp raw)
  · obtain rfl := hstamp hi
    have hsend (t : Driver) (id param : U32) :
        (t.liberaSendEvent id param).accepted = t.accepted := by
      obtain ⟨_, h⟩ := t.liberaSendEvent_eq id param
      rw [h]
    change (s.mcTrigger _ raw i).accepted = _ ∨ (s.mcTrigger _ raw i).accepted = _
    unfold mcTrigger liberaMCtrigSpecific
    simp only [if_neg hi]
    split_ifs with _ _ _ hpre
    · exact .inl (hsend _ _ _)
    · exact .inl (hsend _ _ _)
    · exact .inl rfl
    · simpa only [calledFor, if_pos hpre] using
        s.putMC_accepted i (raw - s.event.settime.lmt.offPll) raw
    · simpa only [calledFor, if_neg hpre] using
        s.putMC_accepted i (raw + s.event.settime.lmt.off) raw

theorem Tagged.scEntry (h : Tagged s) (hstep : s.scEntry e = some t) : Tagged t := by
  obtain rfl := Option.some.inj ((scEntry_eq s e).symm.trans hstep)
  obtain ⟨-, -, hdisp, hacc⟩ := scSelfInc_time s e.tl
  have hinit : Tagged (s.scSelfInc e.tl) := by
    unfold Tagged
    rwa [hdisp, hacc]
  set off := (s.scSelfInc e.tl).event.settime.lst.off with hoff
  refine (foldl_invariant (P := fun u ↦ Tagged u ∧ u.event.settime.lst.off = off)
    (fun u i _ hu ↦ ⟨?_, ?_⟩) ⟨hinit, rfl⟩).1
  · rw [← hu.2]
    exact hu.1.scDispatch _ i
  · rw [scDispatch_settime, hu.2]

/-- The offsets change at the external trigger only, which is dispatched last. -/
theorem Tagged.mcEntry (h : Tagged s) (hstep : s.mcEntry e = some t) : Tagged t := by
  obtain rfl := Option.some.inj ((mcEntry_eq s e).symm.trans hstep)
  obtain ⟨-, -, hdisp, hacc⟩ := mcSelfInc_time s e.tl
  have hinit : Tagged (s.mcSelfInc e.tl) := by
    unfold Tagged
    rwa [hdisp, hacc]
  set off := (s.mcSelfInc e.tl).event.settime.lmt.off with hoff
  rw [trigBits_split, List.foldl_append]
  have hlow := @foldl_invariant (s.mcSelfInc e.tl)
    (fun u ↦ Tagged u ∧ u.event.settime.lmt.off = off)
    (Driver.mcDispatch (s.mcRaw e + off) (s.mcRaw e)) (BitScan.setBits 22 8 0 e.tl)
    (fun u i hi hu ↦ ?_) ⟨hinit, rfl⟩
  · split_ifs
    · exact hlow.1.mcDispatch fun hne ↦ absurd rfl hne
    · exact hlow.1
  · have hne : i ≠ tTrigTrigger := by
      have := (BitScan.mem_setBits.mp hi).2.1
      unfold tTrigTrigger
      omega
    exact ⟨hu.1.mcDispatch fun _ ↦ by rw [hu.2], by rw [mcDispatch_settime _ _ _ _ hne, hu.2]⟩

theorem Tagged.step {l : Timing} (h : Tagged s) (hstep : s.step l = some t) : Tagged t := by
  rcases step_clocks hstep with ⟨c, es, -, hes⟩ | ⟨-, hdisp, hacc⟩
  · refine drain_invariant (fun u e u' hu _ hent ↦ ?_) h (drainOk_true _ s es) hes
    cases c
    · exact hu.scEntry hent
    · exact hu.mcEntry hent
  · unfold Tagged
    rwa [hdisp, hacc]

/-! ## The reconstruction -/

/-- What the driver makes of the entries of one clock. -/
structure Reconstructed (c : Clock) (es : List TimedEntry) (s : Driver) : Prop where
  /-- the counted time is a multiple of the period -/
  time_eq : time c s = BitVec.ofNat 64 (periods es * 2 ^ 26)
  /-- each entry is dispatched with the value of its counter -/
  dispatched_eq : dispatchedOf c s = es.flatMap (dispatches c)
  /-- for exactly the set bits of its trigger vector, in ascending order -/
  bits : ∀ e ∈ es, (trigBits e.entry.tl).Pairwise (· < ·) ∧
    ∀ i, i ∈ trigBits e.entry.tl ↔
      ∃ j, trigVector.getLsbD j = true ∧ e.entry.tl.getLsbD j = true ∧ j = 22 + i
  /-- an accepted stamp is that of a dispatch, with the offset of its trigger -/
  accepted : ∀ a ∈ s.accepted, a.clock = c →
    a.value = calledFor c a.trig a.raw a.settime ∧ ⟨c, a.trig, a.raw⟩ ∈ dispatchedOf c s
  /-- and whatever the fifo holds next, the handler comes to its end -/
  returns : ∀ fs, (s.handler c fs).isSome

theorem mem_trigBits_iff (tl : U32) (i : ℕ) : i ∈ trigBits tl ↔
    ∃ j, trigVector.getLsbD j = true ∧ tl.getLsbD j = true ∧ j = 22 + i := by
  rw [mem_trigBits]
  constructor
  · rintro ⟨hi, hbit⟩
    refine ⟨22 + i, ?_, hbit, rfl⟩
    rw [isField_trigVector.bit]
    simp only [Bool.and_eq_true, decide_eq_true_eq]
    omega
  · rintro ⟨j, hvec, hbit, rfl⟩
    rw [isField_trigVector.bit] at hvec
    simp only [Bool.and_eq_true, decide_eq_true_eq] at hvec
    exact ⟨by omega, hbit⟩

/-- **The stamps are reconstructed.**  Over every run from boot that drains the
entries of a timing stream, in any number of handler calls, each entry is
dispatched once for each of its trigger bits, with the full counter value. -/
theorem stamps_reconstructed {param : ℕ → U32} {lgbl : Global} {params : ModuleParams}
    {c : Clock} {es : List TimedEntry} {ls : List Timing} {s : Driver}
    (hrun : Steps Driver.step anyStep (boot param lgbl params) ls s) (hs : TimingStream es)
    (hls : entriesOf c ls = es.map (·.entry)) : Reconstructed c es s := by
  have hfollows : Follows c ([] ++ es) s := (follows_boot c param lgbl params).run hs hls hrun
  have htagged : Tagged s := hrun.invariant (fun _ _ _ h _ hstep ↦ h.step hstep) fun a ha ↦ by
    simp [boot] at ha
  refine ⟨hfollows.time_eq, hfollows.dispatched_eq, fun e _ ↦ ⟨BitScan.pairwise_setBits,
    mem_trigBits_iff e.entry.tl⟩, ?_, ?_⟩
  · rintro a ha rfl
    obtain ⟨hvalue, hmem⟩ := htagged a ha
    exact ⟨hvalue, List.mem_filter.mpr ⟨hmem, by simp⟩⟩
  · intro fs
    cases c
    · exact liberaScHandler_isSome s fs
    · exact liberaMcHandler_isSome s fs

def ctimeEntry : TimedEntry := ⟨⟨0x04000001, 5⟩, 5⟩

/-- The entry that opens period 1, with the external trigger and an SC prescaler. -/
def wrapEntry : TimedEntry := ⟨⟨0xc8000001, 0⟩, 2 ^ 26⟩

theorem timingStream_wrap : TimingStream [ctimeEntry, wrapEntry] := by
  refine (TimingStream.nil.concat (e := ctimeEntry) ?_ ?_ ?_ ?_ ?_).concat (e := wrapEntry)
    ?_ ?_ ?_ ?_ ?_
  · decide
  · decide
  · simp
  · decide
  · intro q hq hle
    simp only [ctimeEntry] at hle
    omega
  · decide
  · decide
  · decide
  · intro _
    exact ⟨by decide, ⟨1, rfl⟩, by decide⟩
  · intro q hq hle
    obtain rfl : q = 1 := by
      simp only [wrapEntry] at hle
      omega
    exact ⟨wrapEntry, by simp, by decide, by decide⟩

theorem stamps_reconstructed_wrap : ∃ s, Reconstructed .sc [ctimeEntry, wrapEntry] s :=
  ⟨_, stamps_reconstructed (exec_get_steps Driver.step anyStep
    (boot (fun _ ↦ 0) ⟨0, 0, 1, 1, 0⟩ ⟨0, 0, 0, 0⟩)
    [.sc [ctimeEntry.entry], .setST ⟨1, 0⟩, .mc [ctimeEntry.entry], .sc [wrapEntry.entry]]
    (by decide +kernel)) timingStream_wrap rfl⟩

end Driver

end LiberaBase
