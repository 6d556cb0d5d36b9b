import LiberaBase.Lib.WaitQueue
import LiberaBase.Lib.Runs
import LiberaBase.Sa.Device
import LiberaBase.Timing.Ctime

/-!
# Waiting for an element

`getBlockedFromFIFO`, `getBlockedFromFIFOuser`, `libera_event_read` and `libera_sa_read` wait in
one and the same loop: under a mutex they look at a fifo, and when it is empty they give the mutex
back and sleep until a handler has put an element and woken them.  Any number of processes are in
the loop, and the handlers interrupt them anywhere.
-/

namespace LiberaBase

open Runs WaitQueue

/-- Where a process is in the call. -/
inductive WaitPc where
  | outside
  | lock
  /-- the test before the loop -/
  | first
  /-- `set_current_state(TASK_INTERRUPTIBLE)` -/
  | mark
  /-- the tests in the loop -/
  | look
  | unlock
  | sleep
  /-- `timeout` tells that the sleep lasted as long as it may -/
  | relock (timeout : Bool)
  /-- `n` elements are still to be taken -/
  | take (n : ℕ)
  | leave (ret : ℤ)
  deriving DecidableEq

/-- The fifo, the mutex, and the processes.  `closed` tells that the fifo was flushed without the
mutex, by the last writer that closes the event device, since the mutex was taken. -/
structure Waiting (α : Type*) where
  q : RingFifo α
  sem : Option Holder
  tasks : Tasks ℕ
  pc : ℕ → WaitPc
  closed : Bool

inductive WaitStep (α : Type*) where
  | run (p : ℕ) (signal timeout : Bool)
  /-- a handler puts an element -/
  | put (x : α)
  /-- `wake_up_interruptible` -/
  | wake
  | lockOther
  | unlockOther
  /-- the fifo is flushed under the mutex -/
  | flush
  /-- `libera_event_release` -/
  | close

/-- `lock` and `relock` wait for the mutex; the others but `outside`, and `sleep`, have it. -/
def WaitPc.Holds : WaitPc → Prop
  | .first | .mark | .look | .unlock | .take _ | .leave _ => True
  | _ => False

/-- The process has looked at the fifo in vain. -/
def WaitPc.Parked : WaitPc → Prop
  | .unlock | .sleep => True
  | _ => False

namespace Waiting

variable {α : Type*} {N : ℤ} {want : ℕ → ℕ} {s t : Waiting α} {l : WaitStep α} {p r : ℕ}

def goto (s : Waiting α) (p : ℕ) (pc : WaitPc) : Waiting α :=
  { s with pc := Function.update s.pc p pc }

/-- The process takes as many elements as it wants and as there are. -/
def found (N : ℤ) (want : ℕ → ℕ) (s : Waiting α) (p : ℕ) : WaitPc :=
  .take (min (want p) (s.q.len N).toNat)

/-- The next step of process `p`, which wants `want p` elements; `none` waits. -/
def run (N : ℤ) (want : ℕ → ℕ) (s : Waiting α) (p : ℕ) (signal timeout : Bool) :
    Option (Waiting α) :=
  match s.pc p with
  | .outside => some (s.goto p .lock)
  | .lock =>
    if s.sem = none then some { s.goto p .first with sem := some (.process p), closed := false }
    else if signal then some (s.goto p .outside) else none
  | .first => some (s.goto p (if s.q.isEmpty then .mark else s.found N want p))
  | .mark => some { s.goto p .look with tasks := s.tasks.mark p }
  | .look =>
    if s.q.isEmpty = false then
      some { s.goto p (s.found N want p) with tasks := s.tasks.back p }
    else if signal then some { s.goto p (.leave (-ERESTARTSYS)) with tasks := s.tasks.back p }
    else some { s.goto p .unlock with tasks := s.tasks.look p }
  | .unlock => some { s.goto p .sleep with sem := none }
  | .sleep =>
    if s.tasks.runnable p || signal || timeout then
      some { s.goto p (.relock timeout) with tasks := s.tasks.back p }
    else none
  | .relock timeout =>
    if s.sem = none then
      some { s.goto p (if timeout then .leave (-EAGAIN) else .mark) with
        sem := some (.process p), closed := false }
    else none
  | .take 0 => some (s.goto p (.leave 0))
  | .take (n + 1) =>
    match s.q.pop N with
    | none => some (s.goto p (.leave (-EFAULT)))
    | some (q, _) => some { s.goto p (.take n) with q := q }
  | .leave _ => some { s.goto p .outside with sem := none }

def step (N : ℤ) (want : ℕ → ℕ) (s : Waiting α) : WaitStep α → Option (Waiting α)
  | .run p signal timeout => s.run N want p signal timeout
  | .put x => some { s with q := (s.q.push N x).getD s.q, tasks := s.tasks.produce }
  | .wake => some { s with tasks := s.tasks.wake }
  | .lockOther =>
    if s.sem = none then some { s with sem := some .other, closed := false } else none
  | .unlockOther => if s.sem = some .other then some { s with sem := none } else none
  | .flush => if s.sem = some .other then some { s with q := s.q.flush } else none
  | .close => some { s with q := s.q.flush, closed := true }

def boot (q : RingFifo α) : Waiting α := ⟨q.flush, none, .start, fun _ ↦ .outside, false⟩

/-! ## The invariant -/

structure Inv (N : ℤ) (s : Waiting α) : Prop where
  ring : ∃ xs, s.q.Represents N xs
  exclusive : ∀ p, (s.pc p).Holds ↔ s.sem = some (.process p)
  looked : ∀ p, s.tasks.looked p = true ↔ (s.pc p).Parked
  attentive : s.tasks.Attentive (s.q.isEmpty = false)
  taken : ∀ p n, s.pc p = .take n → s.closed = true ∨ (n : ℤ) ≤ s.q.len N

@[simp] theorem goto_self (s : Waiting α) (p : ℕ) (pc : WaitPc) : (s.goto p pc).pc p = pc :=
  Function.update_self ..

theorem goto_of_ne (s : Waiting α) (pc : WaitPc) (hr : r ≠ p) : (s.goto p pc).pc r = s.pc r :=
  Function.update_of_ne hr ..

/-- A process that moves on keeps the invariant if it does at its own control point, and if what it
does to the mutex does not concern the others. -/
theorem Inv.moved (h : s.Inv N) {pc : WaitPc} (hpc : t.pc = Function.update s.pc p pc)
    (hq : t.q = s.q) (hsem : ∀ r ≠ p, t.sem = some (.process r) ↔ s.sem = some (.process r))
    (hclosed : ∀ r ≠ p, (s.pc r).Holds → t.closed = s.closed)
    (hlooked : ∀ r ≠ p, t.tasks.looked r = s.tasks.looked r)
    (hholds : pc.Holds ↔ t.sem = some (.process p))
    (hparked : t.tasks.looked p = true ↔ pc.Parked)
    (hattentive : t.tasks.Attentive (t.q.isEmpty = false))
    (htake : ∀ n, pc = .take n → t.closed = true ∨ (n : ℤ) ≤ s.q.len N) : t.Inv N := by
  refine ⟨hq ▸ h.ring, fun r ↦ ?_, fun r ↦ ?_, hattentive, fun r n hr ↦ ?_⟩
  all_goals by_cases hrp : r = p
  · subst hrp
    rw [hpc, Function.update_self]
    exact hholds
  · rw [hpc, Function.update_of_ne hrp, hsem r hrp]
    exact h.exclusive r
  · subst hrp
    rw [hpc, Function.update_self]
    exact hparked
  · rw [hpc, Function.update_of_ne hrp, hlooked r hrp]
    exact h.looked r
  · subst hrp
    rw [hpc, Function.update_self] at hr
    rw [hq]
    exact htake n hr
  · rw [hpc, Function.update_of_ne hrp] at hr
    rw [hq, hclosed r hrp (hr ▸ trivial)]
    exact h.taken r n hr

/-- The process keeps the mutex, or stays without it. -/
theorem Inv.stay (h : s.Inv N) {pc : WaitPc} {tasks : Tasks ℕ} (hholds : pc.Holds ↔ (s.pc p).Holds)
    (hlooked : ∀ r ≠ p, tasks.looked r = s.tasks.looked r)
    (hparked : tasks.looked p = true ↔ pc.Parked)
    (hattentive : tasks.Attentive (s.q.isEmpty = false))
    (htake : ∀ n, pc = .take n → s.closed = true ∨ (n : ℤ) ≤ s.q.len N) :
    Inv N { s.goto p pc with tasks := tasks } :=
  h.moved rfl rfl (fun _ _ ↦ Iff.rfl) (fun _ _ _ ↦ rfl) hlooked (hholds.trans (h.exclusive p))
    hparked hattentive htake

theorem Inv.goto (h : s.Inv N) {pc : WaitPc} (hholds : pc.Holds ↔ (s.pc p).Holds)
    (hparked : pc.Parked ↔ (s.pc p).Parked)
    (htake : ∀ n, pc = .take n → s.closed = true ∨ (n : ℤ) ≤ s.q.len N) :
    Inv N (s.goto p pc) :=
  h.stay hholds (fun _ _ ↦ rfl) ((h.looked p).trans hparked.symm) h.attentive htake

/-- The process takes the mutex. -/
theorem Inv.acquire (h : s.Inv N) {pc : WaitPc} (hfree : s.sem = none) (hholds : pc.Holds)
    (hparked : pc.Parked ↔ (s.pc p).Parked) (htake : ∀ n, pc ≠ .take n) :
    Inv N { s.goto p pc with sem := some (.process p), closed := false } := by
  refine h.moved rfl rfl (fun r hr ↦ ?_) (fun r hr hmine ↦ ?_) (fun _ _ ↦ rfl)
    (iff_of_true hholds rfl) ((h.looked p).trans hparked.symm) h.attentive
    (fun n hn ↦ absurd hn (htake n))
  · rw [hfree]
    simp [Ne.symm hr]
  · rw [h.exclusive r, hfree] at hmine
    cases hmine

/-- The process gives the mutex back. -/
theorem Inv.release (h : s.Inv N) {pc : WaitPc} (hmine : (s.pc p).Holds) (hholds : ¬pc.Holds)
    (hparked : pc.Parked ↔ (s.pc p).Parked) : Inv N { s.goto p pc with sem := none } := by
  refine h.moved rfl rfl (fun r hr ↦ ?_) (fun _ _ _ ↦ rfl) (fun _ _ ↦ rfl)
    (iff_of_false hholds (by simp)) ((h.looked p).trans hparked.symm) h.attentive
    (fun n hn ↦ absurd (hn ▸ trivial) hholds)
  rw [(h.exclusive p).mp hmine]
  simp [Ne.symm hr]

/-- Who takes elements has the mutex. -/
theorem Inv.taker (h : s.Inv N) {n : ℕ} (hpc : s.pc p = .take n) : s.sem = some (.process p) :=
  (h.exclusive p).mp (by rw [hpc]; trivial)

theorem Inv.pop (h : s.Inv N) {n : ℕ} {q : RingFifo α} {slot : ℤ} (hpc : s.pc p = .take (n + 1))
    (hpop : s.q.pop N = some (q, slot)) : Inv N { s.goto p (.take n) with q := q } := by
  obtain ⟨xs, hxs⟩ := h.ring
  cases xs with
  | nil => rw [hxs.pop_nil] at hpop; cases hpop
  | cons x xs =>
      obtain ⟨q₁, hpop₁, hq₁, -⟩ := hxs.pop_cons
      obtain rfl : q₁ = q := congrArg Prod.fst (Option.some.inj (hpop₁.symm.trans hpop))
      have hfull : s.q.isEmpty = false :=
        Bool.eq_false_iff.mpr fun hempty ↦ List.cons_ne_nil x xs (hxs.isEmpty_iff.mp hempty)
      have hmine : Inv N (s.goto p (.take n)) := h.goto (by rw [hpc]; exact Iff.rfl)
        (by rw [hpc]; exact Iff.rfl) (fun m hm ↦ by
          obtain rfl := WaitPc.take.inj hm
          refine (h.taken p _ hpc).imp_right fun hle ↦ ?_
          push_cast at hle
          omega)
      refine ⟨⟨xs, hq₁⟩, hmine.exclusive, hmine.looked, h.attentive.mono fun _ ↦ hfull,
        fun r m hr ↦ ?_⟩
      have hr' : r = p := by
        have hsem := hmine.taker hr
        rw [show (s.goto p (.take n)).sem = s.sem from rfl, h.taker hpc] at hsem
        simpa using hsem.symm
      subst hr'
      obtain rfl : n = m := WaitPc.take.inj ((goto_self s r (.take n)).symm.trans hr)
      refine (h.taken r _ hpc).imp_right fun hle ↦ ?_
      rw [hxs.len_eq, List.length_cons] at hle
      rw [hq₁.len_eq]
      push_cast at hle
      omega

/-- What a process finds is there. -/
theorem found_le (s : Waiting α) (h : s.Inv N) {n : ℕ} (hn : s.found N want p = .take n) :
    s.closed = true ∨ (n : ℤ) ≤ s.q.len N := by
  obtain ⟨xs, hxs⟩ := h.ring
  obtain rfl := WaitPc.take.inj hn
  right
  rw [hxs.len_eq, Int.toNat_natCast]
  exact_mod_cast min_le_right _ _

theorem Inv.run {signal timeout : Bool} (h : s.Inv N)
    (hrun : s.run N want p signal timeout = some t) : t.Inv N := by
  unfold Waiting.run at hrun
  cases hpc : s.pc p with
  | outside =>
      simp only [hpc] at hrun
      obtain rfl := Option.some.inj hrun
      exact h.goto (by rw [hpc]; exact Iff.rfl) (by rw [hpc]; exact Iff.rfl) nofun
  | lock =>
      simp only [hpc] at hrun
      split_ifs at hrun with hfree <;> obtain rfl := Option.some.inj hrun
      · exact h.acquire hfree trivial (by rw [hpc]; exact Iff.rfl) nofun
      · exact h.goto (by rw [hpc]; exact Iff.rfl) (by rw [hpc]; exact Iff.rfl) nofun
  | first =>
      simp only [hpc] at hrun
      obtain rfl := Option.some.inj hrun
      split_ifs
      · exact h.goto (by rw [hpc]; exact Iff.rfl) (by rw [hpc]; exact Iff.rfl) nofun
      · exact h.goto (by rw [hpc]; exact Iff.rfl) (by rw [hpc]; exact Iff.rfl)
          fun _ hn ↦ found_le s h hn
  | mark =>
      simp only [hpc] at hrun
      obtain rfl := Option.some.inj hrun
      have hnot : s.tasks.looked p = false :=
        Bool.eq_false_iff.mpr fun hlooked ↦ by
          simpa [hpc, WaitPc.Parked] using (h.looked p).mp hlooked
      exact h.stay (by rw [hpc]; exact Iff.rfl) (fun _ _ ↦ rfl)
        (iff_of_false (Bool.eq_false_iff.mp hnot) id) (h.attentive.mark hnot) nofun
  | look =>
      simp only [hpc] at hrun
      have hback (r : ℕ) (hr : r ≠ p) : (s.tasks.back p).looked r = s.tasks.looked r :=
        Function.update_of_ne hr ..
      have hgone : (s.tasks.back p).looked p = false := Function.update_self ..
      split_ifs at hrun with hempty hsignal <;> obtain rfl := Option.some.inj hrun
      · exact h.stay (by rw [hpc]; exact Iff.rfl) hback (iff_of_false (by simp [hgone]) id)
          h.attentive.back fun _ hn ↦ found_le s h hn
      · exact h.stay (by rw [hpc]; exact Iff.rfl) hback (iff_of_false (by simp [hgone]) id)
          h.attentive.back nofun
      · exact h.stay (by rw [hpc]; exact Iff.rfl) (fun r hr ↦ Function.update_of_ne hr ..)
          (iff_of_true (Function.update_self ..) trivial) (.look hempty) nofun
  | unlock =>
      simp only [hpc] at hrun
      obtain rfl := Option.some.inj hrun
      exact h.release (by rw [hpc]; trivial) id (by rw [hpc]; exact Iff.rfl)
  | sleep =>
      simp only [hpc] at hrun
      split_ifs at hrun
      obtain rfl := Option.some.inj hrun
      have hgone : (s.tasks.back p).looked p = false := Function.update_self ..
      exact h.stay (by rw [hpc]; exact Iff.rfl) (fun r hr ↦ Function.update_of_ne hr ..)
        (iff_of_false (by simp [hgone]) id) h.attentive.back nofun
  | relock timeout =>
      simp only [hpc] at hrun
      split_ifs at hrun with hfree htimeout <;> obtain rfl := Option.some.inj hrun
      all_goals exact h.acquire hfree trivial (by rw [hpc]; exact Iff.rfl) nofun
  | take n =>
      cases n with
      | zero =>
          simp only [hpc] at hrun
          obtain rfl := Option.some.inj hrun
          exact h.goto (by rw [hpc]; exact Iff.rfl) (by rw [hpc]; exact Iff.rfl) nofun
      | succ n =>
          simp only [hpc] at hrun
          split at hrun <;> obtain rfl := Option.some.inj hrun
          · exact h.goto (by rw [hpc]; exact Iff.rfl) (by rw [hpc]; exact Iff.rfl) nofun
          · next q slot hpop => exact h.pop hpc hpop
  | leave ret =>
      simp only [hpc] at hrun
      obtain rfl := Option.some.inj hrun
      exact h.release (by rw [hpc]; trivial) id (by rw [hpc]; exact Iff.rfl)

/-- The fifo is flushed. -/
theorem Inv.flush (h : s.Inv N) (hN : 0 < N) {closed : Bool}
    (htaken : ∀ p n, s.pc p = .take n → closed = true) :
    Inv N { s with q := s.q.flush, closed := closed } where
  ring := ⟨[], .flush hN s.q⟩
  exclusive := h.exclusive
  looked := h.looked
  attentive := h.attentive.mono fun hne ↦ by
    rw [show s.q.flush.isEmpty = true from rfl] at hne
    cases hne
  taken := fun p n hpc ↦ .inl (htaken p n hpc)

theorem Inv.put (h : s.Inv N) (x : α) :
    Inv N { s with q := (s.q.push N x).getD s.q, tasks := s.tasks.produce } := by
  obtain ⟨xs, hxs⟩ := h.ring
  have hput : ∃ ys, ((s.q.push N x).getD s.q).Represents N ys ∧ xs.length ≤ ys.length := by
    rcases lt_or_ge (xs.length : ℤ) (N - 1) with hroom | hfull
    · obtain ⟨q, hpush, hq, -⟩ := hxs.push_some (x := x) hroom
      rw [hpush]
      exact ⟨xs ++ [x], hq, by simp⟩
    · rw [hxs.push_full (le_antisymm (Int.le_sub_one_of_lt hxs.length_lt) hfull)]
      exact ⟨xs, hxs, le_rfl⟩
  obtain ⟨ys, hys, hle⟩ := hput
  refine ⟨⟨ys, hys⟩, h.exclusive, h.looked, .produce, fun p n hpc ↦ ?_⟩
  refine (h.taken p n hpc).imp_right fun hn ↦ ?_
  rw [hxs.len_eq] at hn
  rw [hys.len_eq]
  exact hn.trans (by exact_mod_cast hle)

theorem Inv.step (h : s.Inv N) (hN : 0 < N) (hstep : s.step N want l = some t) : t.Inv N := by
  cases l with
  | run p signal timeout => exact h.run hstep
  | put x =>
      obtain rfl := Option.some.inj hstep
      exact h.put x
  | wake =>
      obtain rfl := Option.some.inj hstep
      exact ⟨h.ring, h.exclusive, h.looked, .wake, h.taken⟩
  | lockOther =>
      simp only [Waiting.step] at hstep
      split_ifs at hstep with hfree
      obtain rfl := Option.some.inj hstep
      have hnone (p : ℕ) : ¬(s.pc p).Holds := by simp [h.exclusive p, hfree]
      exact ⟨h.ring, fun p ↦ iff_of_false (hnone p) (by simp), h.looked, h.attentive,
        fun p n hpc ↦ absurd (hpc ▸ trivial) (hnone p)⟩
  | unlockOther =>
      simp only [Waiting.step] at hstep
      split_ifs at hstep with hother
      obtain rfl := Option.some.inj hstep
      have hnone (p : ℕ) : ¬(s.pc p).Holds := by simp [h.exclusive p, hother]
      exact ⟨h.ring, fun p ↦ iff_of_false (hnone p) (by simp), h.looked, h.attentive, h.taken⟩
  | flush =>
      simp only [Waiting.step] at hstep
      split_ifs at hstep with hother
      obtain rfl := Option.some.inj hstep
      refine @Inv.flush _ _ _ h hN s.closed fun p n hpc ↦ ?_
      have hmine := h.taker hpc
      rw [hother] at hmine
      cases hmine
  | close =>
      obtain rfl := Option.some.inj hstep
      exact h.flush hN fun _ _ _ ↦ rfl

theorem Inv.boot (hN : 0 < N) (q : RingFifo α) : (boot q).Inv N where
  ring := ⟨[], .flush hN q⟩
  exclusive := fun _ ↦ iff_of_false id (by simp [Waiting.boot])
  looked := fun _ ↦ iff_of_false (by simp [Waiting.boot, Tasks.start]) id
  attentive := .start
  taken := nofun

/-! ## Nobody sleeps in vain -/

/-- The process can take its next step, without a signal and before a timeout. -/
def CanRun (N : ℤ) (want : ℕ → ℕ) (s : Waiting α) (p : ℕ) : Prop :=
  (s.run N want p false false).isSome = true

/-- The process waits for the mutex, and who has it can go on. -/
def WaitsForMutex (N : ℤ) (want : ℕ → ℕ) (s : Waiting α) (p : ℕ) : Prop :=
  (s.pc p = .lock ∨ ∃ timeout, s.pc p = .relock timeout) ∧
    (s.sem = some .other ∨ ∃ r, s.sem = some (.process r) ∧ s.CanRun N want r)

/-- The process sleeps, and there is nothing for it, or a handler is about to wake it. -/
def SleepsRightly (s : Waiting α) (p : ℕ) : Prop :=
  s.pc p = .sleep ∧ (s.q.isEmpty = true ∨ s.tasks.due = true)

/-- Who has the mutex can go on. -/
theorem canRun_of_holds (h : (s.pc r).Holds) : s.CanRun N want r := by
  unfold CanRun Waiting.run
  cases hpc : s.pc r with
  | outside | lock | sleep | relock _ => simp [hpc, WaitPc.Holds] at h
  | first | mark | unlock | leave _ => rfl
  | look =>
      simp only
      split_ifs <;> rfl
  | take n =>
      cases n with
      | zero => rfl
      | succ n =>
          simp only
          split <;> rfl

theorem Inv.progress (h : s.Inv N) (p : ℕ) :
    s.CanRun N want p ∨ s.WaitsForMutex N want p ∨ s.SleepsRightly p := by
  by_cases hholds : (s.pc p).Holds
  · exact .inl (canRun_of_holds hholds)
  have hmutex (hpc : s.pc p = .lock ∨ ∃ timeout, s.pc p = .relock timeout) (hheld : s.sem ≠ none) :
      s.WaitsForMutex N want p := by
    refine ⟨hpc, ?_⟩
    obtain ⟨holder, hsem⟩ := Option.ne_none_iff_exists'.mp hheld
    cases holder with
    | other => exact .inl hsem
    | process r => exact .inr ⟨r, hsem, canRun_of_holds ((h.exclusive r).mpr hsem)⟩
  cases hpc : s.pc p with
  | outside => exact .inl (by rw [CanRun, Waiting.run, hpc]; rfl)
  | lock =>
      by_cases hfree : s.sem = none
      · exact .inl (by rw [CanRun, Waiting.run, hpc]; simp [hfree])
      · exact .inr (.inl (hmutex (.inl hpc) hfree))
  | relock timeout =>
      by_cases hfree : s.sem = none
      · exact .inl (by rw [CanRun, Waiting.run, hpc]; simp [hfree])
      · exact .inr (.inl (hmutex (.inr ⟨timeout, hpc⟩) hfree))
  | sleep =>
      cases hrunnable : s.tasks.runnable p with
      | true => exact .inl (by rw [CanRun, Waiting.run, hpc]; simp [hrunnable])
      | false =>
          refine .inr (.inr ⟨hpc, ?_⟩)
          by_cases hempty : s.q.isEmpty = true
          · exact .inl hempty
          · exact .inr (h.attentive p ((h.looked p).mpr (hpc ▸ trivial)) hrunnable
              (Bool.eq_false_iff.mpr hempty))
  | first | mark | look | unlock | take _ | leave _ => exact absurd (hpc ▸ trivial) hholds

/-- **No wake-up is lost.**  However the processes, the handlers and the other users of the mutex
interleave, every process can go on, or waits for the mutex of one that can, or sleeps while there
is nothing for it or a handler is about to wake it; and what a process has found is there when it
takes it, unless the last writer closed the device in between. -/
theorem no_wakeup_lost (hN : 0 < N) {q : RingFifo α} {ls : List (WaitStep α)}
    (hrun : Steps (step N want) anyStep (boot q) ls s) :
    (∀ p, s.CanRun N want p ∨ s.WaitsForMutex N want p ∨ s.SleepsRightly p) ∧
      ∀ p n, s.pc p = .take (n + 1) → s.closed = false → (s.q.pop N).isSome = true := by
  have h : s.Inv N := hrun.invariant (fun _ _ _ h _ hstep ↦ h.step hN hstep) (.boot hN q)
  refine ⟨h.progress, fun p n hpc hclosed ↦ ?_⟩
  obtain ⟨xs, hxs⟩ := h.ring
  cases xs with
  | nil =>
      rcases h.taken p _ hpc with hclose | hle
      · rw [hclosed] at hclose
        cases hclose
      · rw [hxs.len_eq, List.length_nil] at hle
        push_cast at hle
        omega
  | cons x xs =>
      obtain ⟨q', hpop, -⟩ := hxs.pop_cons
      rw [hpop]
      rfl

/-- `n` steps of process `p`. -/
def turns (p n : ℕ) : List (WaitStep α) := List.replicate n (.run p false false)

/-- Process 0 sleeps, and an element comes when process 1 has looked and gives the mutex back.  Both
are woken, and process 0 goes back to sleep. -/
theorem no_wakeup_lost_two : ∃ s : Waiting ℕ,
    ((∀ p, s.CanRun Sa.saLog (fun _ ↦ 1) p ∨ s.WaitsForMutex Sa.saLog (fun _ ↦ 1) p ∨
        s.SleepsRightly p) ∧
      ∀ p n, s.pc p = .take (n + 1) → s.closed = false → (s.q.pop Sa.saLog).isSome = true) ∧
    s.pc 0 = .sleep ∧ s.tasks.runnable 0 = false ∧ s.pc 1 = .outside :=
  ⟨_, no_wakeup_lost (by decide) (exec_get_steps (step Sa.saLog fun _ ↦ 1) anyStep
    (boot ⟨fun _ ↦ 0, 5, 9⟩)
    (turns 0 6 ++ turns 1 5 ++ [.put 7, .run 1 false false, .wake] ++ turns 1 7 ++ turns 0 5)
    (by decide +kernel)), by decide +kernel⟩

end Waiting

end LiberaBase
