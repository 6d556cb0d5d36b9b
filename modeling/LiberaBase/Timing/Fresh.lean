import LiberaBase.Timing.Ctime

/-!
# The current time is that of the trigger just written

A call and its answer are matched by their position in the fifo alone.  As long as
every call that writes a trigger also waits for its stamp, the fifo holds no stamp
but the one that is waited for.  A call that gives up leaves its stamp behind, and
every later call returns the stamp of the call before it.
-/

namespace LiberaBase

open Runs Driver

/-! ## The hardware and the signals -/

/-- A stamp arrives only for a trigger that was written. -/
def Arrives (c : Clock) (n : ℕ) (d : Driver) (e : FifoEntry) : Prop :=
  tTrigCtime ∈ trigBits e.tl → (queue c d).2 < n

instance (c : Clock) (n : ℕ) (d : Driver) (e : FifoEntry) : Decidable (Arrives c n d e) :=
  inferInstanceAs (Decidable (_ → _))

namespace Ctime

/-- The two steps at which a signal sends a process away after it wrote its trigger:
the wait, and the mutex of the event device when it is held. -/
def GivesUp (s : Ctime) (p : ℕ) (signal : Bool) : Prop :=
  signal = true ∧ ((s.calls p).pc = .pending ∨ (s.calls p).pc = .lockEvent ∧ s.sem ≠ none)

instance (s : Ctime) (p : ℕ) (signal : Bool) : Decidable (s.GivesUp p signal) :=
  inferInstanceAs (Decidable (_ ∧ (_ ∨ _ ∧ _)))

/-- Each write yields one stamp in each fifo, in the order of the writes. -/
def Answered (s : Ctime) : CtimeStep → Prop
  | .timing (.sc es) => DrainOk scEntry (Arrives .sc s.written) s.driver es
  | .timing (.mc es) => DrainOk mcEntry (Arrives .mc s.written) s.driver es
  | _ => True

instance (s : Ctime) : (l : CtimeStep) → Decidable (s.Answered l)
  | .timing (.sc es) => inferInstanceAs (Decidable (DrainOk _ _ s.driver es))
  | .timing (.mc es) => inferInstanceAs (Decidable (DrainOk _ _ s.driver es))
  | .timing (.setST _) => isTrue trivial
  | .timing (.setMT _ _) => isTrue trivial
  | .timing (.setSCPHI _) => isTrue trivial
  | .timing (.setMCPHI _) => isTrue trivial
  | .timing (.setCfg _ _) => isTrue trivial
  | .run _ _ => isTrue trivial
  | .lockOther => isTrue trivial
  | .unlockOther => isTrue trivial

/-- No call gives up once it has written its trigger. -/
def Patient (s : Ctime) (l : CtimeStep) : Prop :=
  s.Answered l ∧ ∀ p signal, l = .run p signal → ¬s.GivesUp p signal

instance (s : Ctime) : (l : CtimeStep) → Decidable (s.Patient l)
  | .run p signal =>
    decidable_of_iff (¬s.GivesUp p signal)
      ⟨fun h ↦ ⟨trivial, fun _ _ heq ↦ by cases heq; exact h⟩, fun h ↦ h.2 p signal rfl⟩
  | .timing l =>
    decidable_of_iff (s.Answered (.timing l)) ⟨fun h ↦ ⟨h, nofun⟩, fun h ↦ h.1⟩
  | .lockOther => isTrue ⟨trivial, nofun⟩
  | .unlockOther => isTrue ⟨trivial, nofun⟩

end Ctime

/-! ## The protocol -/

/-- Where the MC fifo stands at each control point inside the section: `n` triggers
are written, `handled` of their stamps have arrived. -/
def FreshAt (n handled : ℕ) (v : Served) (call : Call) : Prop :=
  match call.pc with
  | .write => n = v.popped
  | .take => n = v.popped + 1 ∧ call.wrote = v.popped ∧ v.popped < handled
  | .load slot => n = v.popped ∧ slot = v.slot ∧ v.last.half = call.wrote
  | .unlockEvent ret => n = v.popped ∧ (ret = 0 → call.lmt.half = call.wrote)
  | .takeSC => n = v.popped ∧ call.lmt.half = call.wrote
  | .loadSC _ => n = v.popped ∧ call.lmt.half = call.wrote
  | .unlockCtime ret => n = v.popped ∧ (ret = 0 → call.lmt.half = call.wrote)
  | _ => n = v.popped + 1 ∧ call.wrote = v.popped

/-- The stamps read and the stamps still to come are those of all written triggers,
and one at most is awaited. -/
def freshness : Protocol where
  free d n := ∃ v, Serves .mc v d ∧ (queue .mc d).2 ≤ n ∧ n = v.popped
  held d n call := ∃ v, Serves .mc v d ∧ (queue .mc d).2 ≤ n ∧ FreshAt n (queue .mc d).2 v call
  ret r := r.ret = 0 → r.lmt.half = r.wrote

theorem FreshAt.le {n handled : ℕ} {v : Served} {call : Call} (h : FreshAt n handled v call) :
    n ≤ v.popped + 1 := by
  unfold FreshAt at h
  split at h <;> omega

theorem FreshAt.mono {n handled handled' : ℕ} {v : Served} {call : Call}
    (h : FreshAt n handled v call) (hle : handled ≤ handled') : FreshAt n handled' v call := by
  unfold FreshAt at h ⊢
  split at h
  case h_2 => exact ⟨h.1, h.2.1, h.2.2.trans_le hle⟩
  all_goals simp_all

theorem serves_entry {c : Clock} {d d' : Driver} {n : ℕ} {v : Served} {e : FifoEntry}
    (h : Serves c v d) (hle : (queue c d).2 ≤ n) (hn : n ≤ v.popped + 1)
    (hok : Arrives c n d e) (hstep : Driver.entry c d e = some d') :
    Serves c v d' ∧ (queue c d').2 ≤ n ∧ (queue c d).2 ≤ (queue c d').2 := by
  have hroom : tTrigCtime ∈ trigBits e.tl → lenFIFO (queue c d).1 < trigLog - 1 := by
    intro hbit
    have := hok hbit
    have := h.queued.le
    rw [h.queued.len_eq]
    unfold trigLog
    omega
  obtain ⟨hserves, hcount⟩ := h.entry hstep hroom
  refine ⟨hserves, ?_, ?_⟩
  · rw [hcount]
    split_ifs with hbit
    · exact hok hbit
    · exact hle
  · rw [hcount]
    exact Nat.le_add_right _ _

theorem serves_timing {s : Ctime} {d : Driver} {v : Served} {l : Timing}
    (h : Serves .mc v s.driver) (hle : (queue .mc s.driver).2 ≤ s.written)
    (hn : s.written ≤ v.popped + 1) (hok : s.Answered (.timing l))
    (hstep : s.driver.step l = some d) :
    Serves .mc v d ∧ (queue .mc d).2 ≤ s.written ∧ (queue .mc s.driver).2 ≤ (queue .mc d).2 := by
  have hsame (hqueue : queue .mc d = queue .mc s.driver) : Serves .mc v d ∧
      (queue .mc d).2 ≤ s.written ∧ (queue .mc s.driver).2 ≤ (queue .mc d).2 :=
    ⟨h.congr hqueue, by rw [hqueue]; exact hle, by rw [hqueue]⟩
  rcases step_queue hstep with ⟨c, es, rfl, hes⟩ | hqueue
  · cases c with
    | sc => exact hsame (handler_other_queue hes (by decide))
    | mc =>
        refine drain_invariant (P := fun u ↦ Serves .mc v u ∧ (queue .mc u).2 ≤ s.written ∧
          (queue .mc s.driver).2 ≤ (queue .mc u).2) (fun u e u' hu hoke hent ↦ ?_)
          ⟨h, hle, le_rfl⟩ hok hes
        obtain ⟨hserves, hle', hmono⟩ := serves_entry hu.1 hu.2.1 hn hoke hent
        exact ⟨hserves, hle', hu.2.2.trans hmono⟩
  · exact hsame (hqueue .mc)

theorem freshness_inside {s t : Ctime} {p : ℕ} {signal : Bool} (hok : ¬s.GivesUp p signal)
    (hrun : s.run p signal = some t) (hheld : freshness.held s.driver s.written (s.calls p))
    (hout : ∀ ret, (s.calls p).pc ≠ .unlockCtime ret) (hin : (s.calls p).pc.InCtime) :
    freshness.held t.driver t.written (t.calls p) := by
  obtain ⟨v, hserves, hle, hat⟩ := hheld
  have hcall {u : Ctime} {call : Call} (hdriver : u.driver = s.driver)
      (hwritten : u.written = s.written) (hcalls : u.calls = Function.update s.calls p call)
      (h : FreshAt s.written (queue .mc s.driver).2 v call) :
      freshness.held u.driver u.written (u.calls p) := by
    rw [hdriver, hwritten, hcalls, Function.update_self]
    exact ⟨v, hserves, hle, h⟩
  unfold Ctime.run at hrun
  unfold FreshAt at hat
  cases hpc : (s.calls p).pc with
  | idle | lockCtime => simp [hpc, Pc.InCtime] at hin
  | unlockCtime ret => exact absurd hpc (hout ret)
  | write =>
      simp only [hpc] at hrun hat
      obtain rfl := Option.some.inj hrun
      refine ⟨v, hserves.congr rfl, Nat.le_succ_of_le hle, ?_⟩
      simp only [Ctime.writeTrigger, Ctime.setCall_self, FreshAt]
      omega
  | lockEvent =>
      simp only [hpc, Ctime.lockEvent] at hrun hat
      split_ifs at hrun with hfree hsignal
      · obtain rfl := Option.some.inj hrun
        exact hcall rfl rfl rfl hat
      · exact absurd ⟨hsignal, .inr ⟨hpc, hfree⟩⟩ hok
  | empty | test =>
      simp only [hpc] at hrun hat
      obtain rfl := Option.some.inj hrun
      refine hcall rfl rfl rfl ?_
      split_ifs with hq
      · exact hat
      · exact ⟨hat.1, hat.2, hserves.queued.lt_of_not_empty hq⟩
  | pending =>
      simp only [hpc] at hrun hat
      obtain rfl := Option.some.inj hrun
      refine hcall rfl rfl rfl ?_
      split_ifs with hsignal
      · exact absurd ⟨hsignal, .inl hpc⟩ hok
      · exact hat
  | unlock | schedule =>
      simp only [hpc] at hrun hat
      obtain rfl := Option.some.inj hrun
      exact hcall rfl rfl rfl hat
  | relock =>
      simp only [hpc] at hrun hat
      split_ifs at hrun
      obtain rfl := Option.some.inj hrun
      exact hcall rfl rfl rfl hat
  | take =>
      simp only [hpc] at hrun hat
      obtain ⟨hwritten, hwrote, hlt⟩ := hat
      obtain ⟨q, hget, hhalf, hnext⟩ := hserves.get_next hlt
      rw [show getFromFIFO s.mcFifo = _ from hget] at hrun
      obtain rfl := Option.some.inj hrun
      have hqueue := s.queue_setMcFifo q
      refine ⟨_, hnext _ hqueue, hqueue ▸ hle, ?_⟩
      rw [Ctime.goto_self]
      exact ⟨hwritten, rfl, hhalf.trans hwrote.symm⟩
  | load slot =>
      simp only [hpc] at hrun hat
      obtain ⟨hwritten, rfl, hlast⟩ := hat
      obtain rfl := Option.some.inj hrun
      exact hcall rfl rfl rfl ⟨hwritten, fun _ ↦ (congrArg Stamp.half hserves.last_eq).trans hlast⟩
  | unlockEvent ret =>
      simp only [hpc] at hrun hat
      obtain rfl := Option.some.inj hrun
      refine hcall rfl rfl rfl ?_
      split_ifs with hret
      · exact ⟨hat.1, fun h ↦ absurd h hret⟩
      · exact ⟨hat.1, hat.2 (not_not.mp hret)⟩
  | takeSC =>
      simp only [hpc] at hrun hat
      cases hget : getFromFIFO s.scFifo with
      | none =>
          rw [hget] at hrun
          obtain rfl := Option.some.inj hrun
          exact hcall rfl rfl rfl ⟨hat.1, fun _ ↦ hat.2⟩
      | some r =>
          rw [hget] at hrun
          obtain rfl := Option.some.inj hrun
          refine ⟨v, hserves.congr rfl, hle, ?_⟩
          rw [Ctime.goto_self]
          exact hat
  | loadSC slot =>
      simp only [hpc] at hrun hat
      obtain rfl := Option.some.inj hrun
      exact hcall rfl rfl rfl ⟨hat.1, fun _ ↦ hat.2⟩

theorem freshness_sound : freshness.Sound Ctime.Patient where
  enter := by
    rintro d n call ⟨v, hserves, hle, hn⟩
    exact ⟨v, hserves, hle, hn⟩
  inside := fun s t p signal hok hrun hout hin hheld ↦
    freshness_inside (hok.2 p signal rfl) hrun hheld hout hin
  leave := by
    rintro d n call ret hpc ⟨v, hserves, hle, hat⟩
    rw [FreshAt, hpc] at hat
    exact ⟨⟨v, hserves, hle, hat.1⟩, hat.2⟩
  refused := fun _ h ↦ absurd h (by simp [ERESTARTSYS])
  timing := by
    intro s l d hok hstep
    constructor
    · rintro ⟨v, hserves, hle, hn⟩
      obtain ⟨hserves', hle', -⟩ := serves_timing hserves hle (by omega) hok.1 hstep
      exact ⟨v, hserves', hle', hn⟩
    · rintro call ⟨v, hserves, hle, hat⟩
      obtain ⟨hserves', hle', hmono⟩ := serves_timing hserves hle hat.le hok.1 hstep
      exact ⟨v, hserves', hle', hat.mono hmono⟩

/-- **The current time is fresh.**  In every run in which no call gives up after it
wrote its trigger, a call that returns 0 returns the LMT of that trigger. -/
theorem ctime_fresh {param : ℕ → U32} {lgbl : Global} {params : ModuleParams}
    {ls : List CtimeStep} {s : Ctime}
    (hrun : Steps Ctime.step Ctime.Patient (Ctime.start param lgbl params) ls s) :
    ∀ r ∈ s.returns, r.ret = 0 → r.lmt.half = r.wrote := by
  refine (freshness_sound.run ?_ hrun).returns
  exact ⟨⟨0, 0, ⟨0, 0⟩⟩, ⟨.flush ⟨fun _ ↦ ⟨0, 0⟩, 0, 0⟩ 0, rfl, rfl⟩, le_rfl, rfl⟩

/-! ## Fixed runs -/

def ctimeAt (th : U32) : FifoEntry := ⟨0x04000001, th⟩

def runs (p n : ℕ) : List CtimeStep := List.replicate n (.run p false)

/-- Both halves of a current-time trigger are handled. -/
def arrival (th : U32) : List CtimeStep :=
  [.timing (.sc [ctimeAt th]), .timing (.mc [ctimeAt th])]

/-- Process 0 waits for its stamps, then process 1 does. -/
theorem ctime_fresh_waited : ∃ s : Ctime,
    (∀ r ∈ s.returns, r.ret = 0 → r.lmt.half = r.wrote) ∧
      s.returns = [⟨0, 0, ⟨7, 0⟩, ⟨7, 0⟩⟩, ⟨0, 1, ⟨9, 1⟩, ⟨9, 1⟩⟩] :=
  ⟨_, ctime_fresh (exec_get_steps Ctime.step Ctime.Patient
    (Ctime.start (fun _ ↦ 0) ⟨0, 0, 1, 1, 0⟩ ⟨0, 0, 0, 0⟩)
    (runs 0 8 ++ arrival 7 ++ runs 0 9 ++ runs 1 8 ++ arrival 9 ++ runs 1 9)
    (by decide +kernel)), by decide +kernel⟩

/-- Process 0 is interrupted by a signal while it waits.  Its stamps arrive, and
process 1 returns them as the answer to its own trigger. -/
theorem ctime_not_fresh : ∃ s : Ctime,
    Steps Ctime.step Ctime.Answered (Ctime.start (fun _ ↦ 0) ⟨0, 0, 1, 1, 0⟩ ⟨0, 0, 0, 0⟩)
      (runs 0 6 ++ [.run 0 true] ++ runs 0 2 ++ arrival 7 ++ runs 1 11) s ∧
    ∃ r ∈ s.returns, r.ret = 0 ∧ r.lmt.half ≠ r.wrote :=
  ⟨_, exec_get_steps _ _ _ _ (by decide +kernel), by decide +kernel⟩

end LiberaBase
