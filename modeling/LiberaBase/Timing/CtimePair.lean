import LiberaBase.Timing.Fresh

/-!
# The two stamps of the current time belong together

A call takes the LMT and then, without waiting, the LST.  Both fifos are read equally
often, so that the heads of the two fifos are the two stamps of one trigger, whoever
gave up before: a call gives up before it has taken anything.
-/

namespace LiberaBase

open Runs Driver

/-! ## The hardware -/

/-- There is room for the stamp that arrives. -/
def HasRoom (c : Clock) (d : Driver) (e : FifoEntry) : Prop :=
  tTrigCtime ∈ trigBits e.tl → lenFIFO (queue c d).1 < trigLog - 1

instance (c : Clock) (d : Driver) (e : FifoEntry) : Decidable (HasRoom c d e) :=
  inferInstanceAs (Decidable (_ → _))

/-- The SC half of the trigger is handled before its MC half. -/
def AfterLst (d : Driver) (e : FifoEntry) : Prop := Arrives .mc (queue .sc d).2 d e

instance (d : Driver) (e : FifoEntry) : Decidable (AfterLst d e) :=
  inferInstanceAs (Decidable (Arrives ..))

namespace Ctime

/-- The stamps arrive in the order of the clocks, and the fifos do not overflow. -/
def InOrder (s : Ctime) : CtimeStep → Prop
  | .timing (.sc es) => DrainOk scEntry (HasRoom .sc) s.driver es
  | .timing (.mc es) => DrainOk mcEntry (fun d e ↦ HasRoom .mc d e ∧ AfterLst d e) s.driver es
  | _ => True

instance (s : Ctime) : (l : CtimeStep) → Decidable (s.InOrder l)
  | .timing (.sc es) => inferInstanceAs (Decidable (DrainOk _ _ s.driver es))
  | .timing (.mc es) => inferInstanceAs (Decidable (DrainOk _ _ s.driver es))
  | .timing (.setST _) => isTrue trivial
  | .timing (.setMT _ _) => isTrue trivial
  | .timing (.setSCPHI _) => isTrue trivial
  | .timing (.setMCPHI _) => isTrue trivial
  | .timing (.setCfg _ _) => isTrue trivial
  | .run _ _ => isTrue trivial
  | .lockOther => isTrue trivial
  | .unlockOther => isTrue trivial

end Ctime

/-! ## The protocol -/

/-- Both fifos as their readers see them; the MC side is never ahead in what has
arrived. -/
structure ServesBoth (v w : Served) (d : Driver) : Prop where
  mc : Serves .mc v d
  sc : Serves .sc w d
  le : (queue .mc d).2 ≤ (queue .sc d).2

/-- How far the readers of the two fifos are apart at each control point inside the
section: by one, from the time the LMT is taken until the LST is. -/
def PairAt (handled : ℕ) (v w : Served) (call : Call) : Prop :=
  match call.pc with
  | .take => v.popped = w.popped ∧ v.popped < handled
  | .load slot => v.popped = w.popped + 1 ∧ slot = v.slot ∧ v.last.half = w.popped
  | .unlockEvent ret => ret ≠ -EFAULT ∧ (ret ≠ 0 → v.popped = w.popped) ∧
    (ret = 0 → v.popped = w.popped + 1 ∧ call.lmt.half = w.popped)
  | .takeSC => v.popped = w.popped + 1 ∧ call.lmt.half = w.popped
  | .loadSC slot => v.popped = w.popped ∧ slot = w.slot ∧ w.last.half = call.lmt.half
  | .unlockCtime ret => v.popped = w.popped ∧ ret ≠ -EFAULT ∧
    (ret = 0 → call.lst.half = call.lmt.half)
  | _ => v.popped = w.popped

/-- Outside the section the two fifos have been read equally often. -/
def pairing : Protocol where
  free d _ := ∃ v w, ServesBoth v w d ∧ v.popped = w.popped
  held d _ call := ∃ v w, ServesBoth v w d ∧ PairAt (queue .mc d).2 v w call
  ret r := r.ret ≠ -EFAULT ∧ (r.ret = 0 → r.lst.half = r.lmt.half)

theorem PairAt.mono {handled handled' : ℕ} {v w : Served} {call : Call}
    (h : PairAt handled v w call) (hle : handled ≤ handled') : PairAt handled' v w call := by
  unfold PairAt at h ⊢
  split at h
  case h_1 => exact ⟨h.1, h.2.trans_le hle⟩
  all_goals simp_all

theorem ServesBoth.timing {s : Ctime} {d : Driver} {v w : Served} {l : Timing}
    (h : ServesBoth v w s.driver) (hok : s.InOrder (.timing l))
    (hstep : s.driver.step l = some d) :
    ServesBoth v w d ∧ (queue .mc s.driver).2 ≤ (queue .mc d).2 := by
  rcases step_queue hstep with ⟨c, es, rfl, hes⟩ | hqueue
  · cases c with
    | sc =>
        have hmc : queue .mc d = queue .mc s.driver := handler_other_queue hes (by decide)
        refine ⟨?_, hmc ▸ le_rfl⟩
        have hsc : Serves .sc w d ∧ (queue .mc s.driver).2 ≤ (queue .sc d).2 :=
          drain_invariant (P := fun u ↦ Serves .sc w u ∧ (queue .mc s.driver).2 ≤ (queue .sc u).2)
            (fun u e u' hu hoke hent ↦ by
              obtain ⟨hserves, hcount⟩ := hu.1.entry hent hoke
              exact ⟨hserves, by rw [hcount]; exact Nat.le_add_right_of_le hu.2⟩)
            ⟨h.sc, h.le⟩ hok hes
        exact ⟨h.mc.congr hmc, hsc.1, by rw [hmc]; exact hsc.2⟩
    | mc =>
        refine drain_invariant (P := fun u ↦ ServesBoth v w u ∧
          (queue .mc s.driver).2 ≤ (queue .mc u).2) (fun u e u' hu hoke hent ↦ ?_)
          ⟨h, le_rfl⟩ hok hes
        have hsc : queue .sc u' = queue .sc u := entry_other_queue (c := .mc) hent (by decide)
        obtain ⟨hserves, hcount⟩ := hu.1.mc.entry hent hoke.1
        refine ⟨⟨hserves, hu.1.sc.congr hsc, ?_⟩, ?_⟩
        · rw [hsc, hcount]
          split_ifs with hbit
          · exact hoke.2 hbit
          · exact hu.1.le
        · rw [hcount]
          exact Nat.le_add_right_of_le hu.2
  · exact ⟨⟨h.mc.congr (hqueue .mc), h.sc.congr (hqueue .sc), by
      rw [hqueue .mc, hqueue .sc]; exact h.le⟩, by rw [hqueue .mc]⟩

theorem pairing_inside {s t : Ctime} {p : ℕ} {signal : Bool} (hrun : s.run p signal = some t)
    (hheld : pairing.held s.driver s.written (s.calls p))
    (hout : ∀ ret, (s.calls p).pc ≠ .unlockCtime ret) (hin : (s.calls p).pc.InCtime) :
    pairing.held t.driver t.written (t.calls p) := by
  obtain ⟨v, w, hserves, hat⟩ := hheld
  have hmc := hserves.mc.queued.le
  have hsc := hserves.le
  have hcall {u : Ctime} {call : Call} (hdriver : u.driver = s.driver)
      (hcalls : u.calls = Function.update s.calls p call)
      (h : PairAt (queue .mc s.driver).2 v w call) :
      pairing.held u.driver u.written (u.calls p) := by
    rw [hdriver, hcalls, Function.update_self]
    exact ⟨v, w, hserves, h⟩
  unfold Ctime.run at hrun
  unfold PairAt at hat
  cases hpc : (s.calls p).pc with
  | idle | lockCtime => simp [hpc, Pc.InCtime] at hin
  | unlockCtime ret => exact absurd hpc (hout ret)
  | write =>
      simp only [hpc] at hrun hat
      obtain rfl := Option.some.inj hrun
      refine ⟨v, w, ⟨hserves.mc.congr rfl, hserves.sc.congr rfl, hserves.le⟩, ?_⟩
      simp only [Ctime.writeTrigger, Ctime.setCall_self, PairAt]
      exact hat
  | lockEvent =>
      simp only [hpc, Ctime.lockEvent] at hrun hat
      split_ifs at hrun
      · obtain rfl := Option.some.inj hrun
        exact hcall rfl rfl hat
      · obtain rfl := Option.some.inj hrun
        exact hcall rfl rfl ⟨hat, by decide, fun h ↦ absurd h (by decide)⟩
  | empty | test =>
      simp only [hpc] at hrun hat
      obtain rfl := Option.some.inj hrun
      refine hcall rfl rfl ?_
      split_ifs with hq
      · exact hat
      · exact ⟨hat, hserves.mc.queued.lt_of_not_empty hq⟩
  | pending =>
      simp only [hpc] at hrun hat
      obtain rfl := Option.some.inj hrun
      refine hcall rfl rfl ?_
      split_ifs
      · exact ⟨by decide, fun _ ↦ hat, fun h ↦ absurd h (by decide)⟩
      · exact hat
  | unlock | schedule =>
      simp only [hpc] at hrun hat
      obtain rfl := Option.some.inj hrun
      exact hcall rfl rfl hat
  | relock =>
      simp only [hpc] at hrun hat
      split_ifs at hrun
      obtain rfl := Option.some.inj hrun
      exact hcall rfl rfl hat
  | take =>
      simp only [hpc] at hrun hat
      obtain ⟨q, hget, hhalf, hnext⟩ := hserves.mc.get_next hat.2
      rw [show getFromFIFO s.mcFifo = _ from hget] at hrun
      obtain rfl := Option.some.inj hrun
      have hqueue := s.queue_setMcFifo q
      refine ⟨_, w, ⟨hnext _ hqueue, hserves.sc.congr rfl, hqueue ▸ hserves.le⟩, ?_⟩
      rw [Ctime.goto_self]
      exact ⟨congrArg (· + 1) hat.1, rfl, hhalf.trans hat.1⟩
  | load slot =>
      simp only [hpc] at hrun hat
      obtain ⟨hpopped, rfl, hlast⟩ := hat
      obtain rfl := Option.some.inj hrun
      exact hcall rfl rfl ⟨by decide, fun h ↦ absurd rfl h, fun _ ↦
        ⟨hpopped, (congrArg Stamp.half hserves.mc.last_eq).trans hlast⟩⟩
  | unlockEvent ret =>
      simp only [hpc] at hrun hat
      obtain rfl := Option.some.inj hrun
      refine hcall rfl rfl ?_
      split_ifs with hret
      · exact ⟨hat.2.1 hret, hat.1, fun h ↦ absurd h hret⟩
      · exact hat.2.2 (not_not.mp hret)
  | takeSC =>
      simp only [hpc] at hrun hat
      -- the SC fifo has been read once less, and holds at least as much
      obtain ⟨q, hget, hhalf, hnext⟩ := hserves.sc.get_next (by omega)
      rw [show getFromFIFO s.scFifo = _ from hget] at hrun
      obtain rfl := Option.some.inj hrun
      have hqueue := s.queue_setScFifo q
      refine ⟨v, _, ⟨hserves.mc.congr rfl, hnext _ hqueue, hqueue ▸ hserves.le⟩, ?_⟩
      rw [Ctime.goto_self]
      exact ⟨hat.1, rfl, hhalf.trans hat.2.symm⟩
  | loadSC slot =>
      simp only [hpc] at hrun hat
      obtain ⟨hpopped, rfl, hlast⟩ := hat
      obtain rfl := Option.some.inj hrun
      exact hcall rfl rfl ⟨hpopped, by decide, fun _ ↦
        (congrArg Stamp.half hserves.sc.last_eq).trans hlast⟩

theorem pairing_sound : pairing.Sound Ctime.InOrder where
  enter := by
    rintro d n call ⟨v, w, hserves, hpopped⟩
    exact ⟨v, w, hserves, hpopped⟩
  inside := fun s t p signal _ hrun hout hin hheld ↦ pairing_inside hrun hheld hout hin
  leave := by
    rintro d n call ret hpc ⟨v, w, hserves, hat⟩
    rw [PairAt, hpc] at hat
    exact ⟨⟨v, w, hserves, hat.1⟩, hat.2⟩
  refused := fun _ ↦ ⟨show -ERESTARTSYS ≠ -EFAULT by decide, fun h ↦
    absurd h (show -ERESTARTSYS ≠ 0 by decide)⟩
  timing := by
    intro s l d hok hstep
    constructor
    · rintro ⟨v, w, hserves, hpopped⟩
      exact ⟨v, w, (hserves.timing hok hstep).1, hpopped⟩
    · rintro call ⟨v, w, hserves, hat⟩
      obtain ⟨hserves', hmono⟩ := hserves.timing hok hstep
      exact ⟨v, w, hserves', hat.mono hmono⟩

/-- **The LST and the LMT of a call are those of one trigger.**  This holds in every
run, signals or not, and the SC fifo is never found empty. -/
theorem ctime_paired {param : ℕ → U32} {lgbl : Global} {params : ModuleParams}
    {ls : List CtimeStep} {s : Ctime}
    (hrun : Steps Ctime.step Ctime.InOrder (Ctime.start param lgbl params) ls s) :
    (∀ r ∈ s.returns, r.ret ≠ -EFAULT ∧ (r.ret = 0 → r.lst.half = r.lmt.half)) ∧
      ∀ p, (s.calls p).pc = .takeSC → (getFromFIFO s.scFifo).isSome := by
  have hserves (c : Clock) : Serves c ⟨0, 0, ⟨0, 0⟩⟩ (Driver.boot param lgbl params) := by
    cases c <;> exact ⟨.flush ⟨fun _ ↦ ⟨0, 0⟩, 0, 0⟩ 0, rfl, rfl⟩
  have hinv := pairing_sound.run ⟨_, _, ⟨hserves .mc, hserves .sc, le_rfl⟩, rfl⟩ hrun
  refine ⟨hinv.returns, fun p hp ↦ ?_⟩
  obtain ⟨v, w, hboth, hat⟩ := hinv.held p ((hinv.exclusive p).mp (by rw [hp]; trivial))
  rw [PairAt, hp] at hat
  have hlt : w.popped < (queue .sc s.driver).2 := by
    have := hboth.mc.queued.le
    have := hboth.le
    omega
  obtain ⟨q, hget, -⟩ := hboth.sc.queued.get_next hlt
  rw [show getFromFIFO s.scFifo = _ from hget]
  rfl

/-- Process 0 is interrupted by a signal, and process 1 finds the stamps of both. -/
theorem ctime_paired_afterSignal : ∃ s : Ctime,
    ((∀ r ∈ s.returns, r.ret ≠ -EFAULT ∧ (r.ret = 0 → r.lst.half = r.lmt.half)) ∧
      ∀ p, (s.calls p).pc = .takeSC → (getFromFIFO s.scFifo).isSome) ∧
    s.returns.map (·.ret) = [-ERESTARTSYS, 0] :=
  ⟨_, ctime_paired (exec_get_steps Ctime.step Ctime.InOrder
    (Ctime.start (fun _ ↦ 0) ⟨0, 0, 1, 1, 0⟩ ⟨0, 0, 0, 0⟩)
    (runs 0 6 ++ [.run 0 true] ++ runs 0 2 ++ arrival 7 ++ runs 1 3 ++ arrival 9 ++ runs 1 8)
    (by decide +kernel)), by decide +kernel⟩

end LiberaBase
